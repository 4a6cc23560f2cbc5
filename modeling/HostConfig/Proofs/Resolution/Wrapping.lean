import HostConfig.Proofs.Document.Edit
import HostConfig.Proofs.Resolution.Yield

/-!
# Wrapping inclusions

A group that does nothing but include other groups can be put in the place of these inclusions, and
removed again. What the inclusions gather is merged as one then and not one after the other, which
is the same since merges can be grouped in any way.
-/

namespace HostConfig

/-- What is said when the inclusions of a group are replaced by a block. -/
def unwrap (name : String) (block forms : List Form) : List Form :=
  forms.flatMap fun form => if form = .group name then block else [form]

section Unwrap

variable {name : String} {block forms : List Form}

theorem unwrap_cons_group (rest : List Form) :
    unwrap name block (.group name :: rest) = block ++ unwrap name block rest := by
  rw [unwrap, List.flatMap_cons, if_pos rfl]
  rfl

theorem unwrap_cons_of_ne {form : Form} (h : form ≠ .group name) (rest : List Form) :
    unwrap name block (form :: rest) = form :: unwrap name block rest := by
  rw [unwrap, List.flatMap_cons, if_neg h]
  rfl

theorem unwrap_append (xs ys : List Form) :
    unwrap name block (xs ++ ys) = unwrap name block xs ++ unwrap name block ys :=
  List.flatMap_append

/-- Where the group is not included nothing is replaced. -/
theorem unwrap_of_notMem (h : name ∉ groupsIn forms) : unwrap name block forms = forms := by
  induction forms with
  | nil => rfl
  | cons form rest ih =>
    have hne : form ≠ .group name := by
      rintro rfl
      exact h List.mem_cons_self
    have hrest : name ∉ groupsIn rest := by
      intro hmem
      obtain ⟨other, hother, hgroup⟩ := List.mem_filterMap.mp hmem
      exact h (List.mem_filterMap.mpr ⟨other, List.mem_cons_of_mem _ hother, hgroup⟩)
    rw [unwrap_cons_of_ne hne, ih hrest]

/-- The inclusion of the group between others is replaced. -/
theorem unwrap_around {front back : List Form} (h : name ∉ groupsIn (front ++ block ++ back)) :
    unwrap name block (front ++ [.group name] ++ back) = front ++ block ++ back := by
  rw [groupsIn_append, groupsIn_append, List.mem_append, List.mem_append, not_or, not_or] at h
  have hgroup : unwrap name block [.group name] = block := by simp [unwrap]
  rw [unwrap_append, unwrap_append, hgroup, unwrap_of_notMem h.1.1, unwrap_of_notMem h.2]

/-- A list of inclusions includes what it names. -/
theorem groupsIn_map_group (names : List String) : groupsIn (names.map .group) = names := by
  rw [groupsIn, List.filterMap_map]
  exact List.filterMap_some

end Unwrap

namespace Resolution

/-- Merges of groups can be grouped in any way. -/
theorem absorb_assoc {first second third : Resolution} (hfirst : first.entries.packages.Nodup)
    (hsecond : second.entries.packages.Nodup) (hthird : third.entries.packages.Nodup) :
    (first.absorb second).absorb third = first.absorb (second.absorb third) := by
  simp only [absorb, Entries.putAll_assoc hfirst hsecond hthird, List.append_assoc]

theorem absorb_empty (r : Resolution) : r.absorb {} = r := by
  simp [absorb, Entries.putAll]

end Resolution

variable {site site' : Site} {source other : Provenance} {names : List String} {name : String}
  {forms : List Form} {r inner final : Resolution}

/-- What inclusions gather can be merged as one. -/
theorem Yields.absorb (h : Yields site source (names.map .group) inner final)
    (hr : r.entries.packages.Nodup) (hinner : inner.entries.packages.Nodup) :
    Yields site other (names.map .group) (r.absorb inner) (r.absorb final) := by
  induction names generalizing inner with
  | nil =>
    cases h
    exact .done
  | cons name names ih =>
    cases h with
    | declare hform => cases hform
    | expand hdocument hinside hrest =>
      have hlater := ih hrest (Entries.nodup_packages_putAll _ hinner)
      rw [← Resolution.absorb_assoc hr hinner (hinside.nodup_packages List.nodup_nil)] at hlater
      exact .expand hdocument hinside hlater

/-- What inclusions gather from nothing can be merged as one. -/
theorem Yields.absorb_of_empty (h : Yields site source (names.map .group) {} final)
    (hr : r.entries.packages.Nodup) :
    Yields site other (names.map .group) r (r.absorb final) := by
  have habsorb : Yields site other (names.map .group) (r.absorb {}) (r.absorb final) :=
    h.absorb hr List.nodup_nil
  rwa [Resolution.absorb_empty] at habsorb

/-- A group has a document if forms include it. -/
def Site.HasGroup (site : Site) (name : String) (forms : List Form) : Prop :=
  name ∈ groupsIn forms → ∃ document, site.document (site.layout.groupFile name) = .ok document

/-- At another site a group wraps inclusions that stand in a file of this site. -/
structure Site.Wraps (site : Site) (name : String) (names : List String) (site' : Site) : Prop where
  layout_eq : site'.layout = site.layout
  valid : isGroupName name
  unused : ∀ path, name ∉ groupsOfFile site.tree path
  notMem : name ∉ names
  wrapper : ∀ document, site'.document (site.layout.groupFile name) = .ok document →
    document.forms = names.map .group
  /-- Any other document differs in that the group stands for the wrapped inclusions. -/
  unwraps : ∀ path, FileTree.key path ≠ FileTree.key (site.layout.groupFile name) → ∀ forms,
    (∃ document, site.document path = .ok document ∧ document.forms = forms) ↔
      ∃ document, site'.document path = .ok document ∧ site'.HasGroup name document.forms ∧
        unwrap name (names.map .group) document.forms = forms

namespace Site.Wraps

/-- The files of other groups are not that of the wrapping group. -/
theorem key_ne (h : site.Wraps name names site') {other : String} (hother : isGroupName other)
    (hne : other ≠ name) :
    FileTree.key (site.layout.groupFile other) ≠ FileTree.key (site.layout.groupFile name) :=
  fun heq => hne (site.layout.key_groupFile_injective hother h.valid heq)

/-- What the wrapped inclusions yield, the wrapping group yields. -/
theorem wrap (h : site.Wraps name names site') (hgroup : site'.HasGroup name forms)
    (hyields : Yields site' source (unwrap name (names.map .group) forms) r final)
    (hr : r.entries.packages.Nodup) :
    Yields site' source forms r final := by
  induction forms generalizing r with
  | nil => exact hyields
  | cons form rest ih =>
    by_cases hform : form = .group name
    · subst form
      rw [unwrap_cons_group, Yields.append_iff] at hyields
      obtain ⟨middle, hblock, hrest⟩ := hyields
      obtain ⟨document, hdocument⟩ := hgroup List.mem_cons_self
      -- What the block adds here is what it gathers from nothing in the file of the group.
      obtain ⟨inner, hinner⟩ := hblock.exists_yields {} (site'.layout.groupSource name)
      rw [hblock.unique (hinner.absorb_of_empty hr)] at hrest
      rw [← h.wrapper document (h.layout_eq ▸ hdocument)] at hinner
      have hlater := ih (fun hmem => hgroup (List.mem_cons_of_mem _ hmem)) hrest
        (Entries.nodup_packages_putAll _ hr)
      exact .expand hdocument hinner hlater
    · rw [unwrap_cons_of_ne hform] at hyields
      cases hyields with
      | declare hnone hdeclare hrest =>
        rw [Site.HasGroup, groupsIn_cons_of_none hnone] at hgroup
        have hr' := (Resolution.declares_of_declare hdeclare).nodup hr
        exact .declare hnone hdeclare (ih hgroup hrest hr')
      | expand hdocument hinner hrest =>
        have hlater := ih (fun hmem => hgroup (List.mem_cons_of_mem _ hmem)) hrest
          (Entries.nodup_packages_putAll _ hr)
        exact .expand hdocument hinner hlater

/-- What leads to used groups only yields the same at the other site. -/
theorem yields_of (h : site.Wraps name names site') (hyields : Yields site source forms r final)
    (hforms : ∀ other ∈ groupsIn forms, isGroupName other ∧ other ≠ name) :
    Yields site' source forms r final := by
  induction hyields with
  | done => exact .done
  | declare hform hdeclare _ ih =>
    rw [groupsIn_cons_of_none hform] at hforms
    exact .declare hform (h.layout_eq ▸ hdeclare) (ih hforms)
  | @expand _ other document _ _ _ _ hdocument _ _ ihinner ihrest =>
    rw [groupsIn_cons_group] at hforms
    obtain ⟨hother, hne⟩ := hforms other List.mem_cons_self
    obtain ⟨document', hdocument', hgroup, hunwrap⟩ :=
      (h.unwraps _ (h.key_ne hother hne) _).mp ⟨document, hdocument, rfl⟩
    have hinner := ihinner (site.group_of_document h.unused hdocument)
    rw [← hunwrap] at hinner
    have hwrapped := h.wrap hgroup hinner List.nodup_nil
    have hrest := ihrest fun later hlater => hforms later (List.mem_cons_of_mem _ hlater)
    rw [← h.layout_eq] at hdocument' hwrapped
    exact .expand hdocument' hwrapped hrest

/-- What is yielded at the other site is yielded when the inclusions are unwrapped. -/
theorem yields_unwrap (h : site.Wraps name names site')
    (hyields : Yields site' source forms r final)
    (hforms : ∀ other ∈ groupsIn forms, isGroupName other) (hr : r.entries.packages.Nodup) :
    Yields site source (unwrap name (names.map .group) forms) r final := by
  induction hyields with
  | done => exact .done
  | declare hform hdeclare _ ih =>
    rw [groupsIn_cons_of_none hform] at hforms
    rw [unwrap_cons_of_ne (by rintro rfl; cases hform)]
    have hr' := (Resolution.declares_of_declare hdeclare).nodup hr
    exact .declare hform (h.layout_eq ▸ hdeclare) (ih hforms hr')
  | @expand _ other document _ r inner _ hdocument hinner _ ihinner ihrest =>
    rw [groupsIn_cons_group] at hforms
    have hother := hforms other List.mem_cons_self
    have hgroups := site'.isGroupName_of_document hdocument
    have hinside := ihinner hgroups List.nodup_nil
    have hrest := ihrest (fun later hlater => hforms later (List.mem_cons_of_mem _ hlater))
      (Entries.nodup_packages_putAll _ hr)
    have hgroup : site'.HasGroup name document.forms := fun hmem => hinner.exists_document_of_mem hmem
    rw [h.layout_eq] at hdocument hinside
    by_cases hne : other = name
    · subst other
      rw [unwrap_cons_group, Yields.append_iff]
      rw [h.wrapper document hdocument,
        unwrap_of_notMem (by rw [groupsIn_map_group]; exact h.notMem)] at hinside
      exact ⟨r.absorb inner, hinside.absorb_of_empty hr, hrest⟩
    · rw [unwrap_cons_of_ne (by simpa using hne)]
      obtain ⟨document', hdocument', hforms'⟩ :=
        (h.unwraps _ (h.key_ne hother hne) _).mpr ⟨document, hdocument, hgroup, rfl⟩
      exact .expand hdocument' (hforms' ▸ hinside) hrest

end Site.Wraps

end HostConfig
