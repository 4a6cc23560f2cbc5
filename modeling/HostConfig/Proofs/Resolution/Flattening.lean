import HostConfig.Proofs.Document.Introduction
import HostConfig.Proofs.Resolution.Yield

/-!
# Flattening inclusions

Replacing each inclusion of a group by what the group's document says, again and again, leaves a
list of statements without inclusions. A resolution never forms this list, but what it yields
follows it: packages stand in the order in which the list declares them first, and the host has the
variables and scripts of the list.
-/

namespace HostConfig

/-- Replacing all inclusions by what is included leaves a flat list. -/
inductive Flattens (site : Site) : List Form → List Form → Prop
  | nil : Flattens site [] []
  | keep {form : Form} {rest flat : List Form} (hform : form.group? = none)
      (hrest : Flattens site rest flat) : Flattens site (form :: rest) (form :: flat)
  | expand {name : String} {document : Document} {rest inner flat : List Form}
      (hdocument : site.document (site.layout.groupFile name) = .ok document)
      (hinner : Flattens site document.forms inner) (hrest : Flattens site rest flat) :
    Flattens site (.group name :: rest) (inner ++ flat)

variable {site : Site} {source : Provenance} {forms flat : List Form} {r final : Resolution}

/-- Forms have at most one flat list. -/
theorem Flattens.unique {flat' : List Form} (h : Flattens site forms flat)
    (h' : Flattens site forms flat') : flat = flat' := by
  induction h generalizing flat' with
  | nil =>
    cases h'
    rfl
  | keep hform _ ih =>
    cases h' with
    | keep _ hrest' => rw [ih hrest']
    | expand => cases hform
  | expand hdocument _ _ ihinner ihrest =>
    cases h' with
    | keep hform' => cases hform'
    | expand hdocument' hinner' hrest' =>
      cases hdocument.symm.trans hdocument'
      rw [ihinner hinner', ihrest hrest']

namespace Yields

/-- Forms that yield a resolution can be flattened. -/
theorem exists_flattens (h : Yields site source forms r final) :
    ∃ flat, Flattens site forms flat := by
  induction h with
  | done => exact ⟨[], .nil⟩
  | @declare _ _ form _ _ _ _ hform _ _ ih =>
    obtain ⟨flat, hflat⟩ := ih
    exact ⟨form :: flat, .keep hform hflat⟩
  | expand hdocument _ _ ihinner ihrest =>
    obtain ⟨inner, hinner⟩ := ihinner
    obtain ⟨flat, hflat⟩ := ihrest
    exact ⟨inner ++ flat, .expand hdocument hinner hflat⟩

/-- The host is given the variables and the scripts of the flat list. -/
theorem globals_eq (h : Yields site source forms r final) (hflat : Flattens site forms flat) :
    final.envs = r.envs ++ flat.filterMap Form.env? ∧
      final.scripts = r.scripts ++ flat.filterMap Form.script? := by
  induction h generalizing flat with
  | done =>
    cases hflat
    simp
  | @declare _ _ form _ _ _ _ hform hdeclare _ ih =>
    cases hflat with
    | keep _ hrest =>
      obtain ⟨henvs, hscripts⟩ := Resolution.globals_of_declare hdeclare
      obtain ⟨ihenvs, ihscripts⟩ := ih hrest
      rw [ihenvs, ihscripts, henvs, hscripts, filterMap_cons_toList, filterMap_cons_toList,
        List.append_assoc, List.append_assoc]
      exact ⟨rfl, rfl⟩
    | expand => cases hform
  | expand hdocument _ _ ihinner ihrest =>
    cases hflat with
    | keep hform => cases hform
    | expand hdocument' hinner hrest =>
      cases hdocument.symm.trans hdocument'
      obtain ⟨henvs, hscripts⟩ := ihinner hinner
      obtain ⟨ihenvs, ihscripts⟩ := ihrest hrest
      rw [ihenvs, ihscripts]
      simp [Resolution.absorb, henvs, hscripts]

/-- What the lists of packages hold was there before or is added by the flat list. -/
theorem mem_list (h : Yields site source forms r final) (hflat : Flattens site forms flat)
    {package : String} {field : ListField} {item : field.Item}
    (hitem : item ∈ final.entries.list package field) :
    item ∈ r.entries.list package field ∨
      ∃ form ∈ flat, item ∈ form.declares site.layout package field := by
  induction h generalizing flat with
  | done => exact Or.inl hitem
  | @declare _ _ form _ _ _ _ hform hdeclare _ ih =>
    cases hflat with
    | keep _ hrest =>
      rcases ih hrest hitem with hbefore | ⟨other, hother, hadds⟩
      · rw [(Resolution.declares_of_declare hdeclare).list_eq, List.mem_append] at hbefore
        exact hbefore.imp_right fun hadds => ⟨form, List.mem_cons_self, hadds⟩
      · exact Or.inr ⟨other, List.mem_cons_of_mem _ hother, hadds⟩
    | expand => cases hform
  | expand hdocument hinner _ ihinner ihrest =>
    cases hflat with
    | keep hform => cases hform
    | expand hdocument' hinnerFlat hrest =>
      cases hdocument.symm.trans hdocument'
      rcases ihrest hrest hitem with hbefore | ⟨form, hmem, hadds⟩
      · rw [Resolution.absorb,
          Entries.list_putAll _ (hinner.nodup_packages List.nodup_nil)] at hbefore
        rcases mem_lastNonEmpty hbefore with hbefore | hinside
        · exact Or.inl hbefore
        · rcases ihinner hinnerFlat hinside with hnone | ⟨form, hmem, hadds⟩
          · cases hnone
          · exact Or.inr ⟨form, List.mem_append_left _ hmem, hadds⟩
      · exact Or.inr ⟨form, List.mem_append_right _ hmem, hadds⟩

end Yields

/-- A statement about a package adds the package only if it declares it. -/
theorem Resolution.packages_of_introduced {origin : Origin} {form : Form} {rest : List Form}
    {r' : Resolution} (h : r.declare site.layout source ⟨origin, form⟩ = .ok r')
    (hr : r.entries.packages.Nodup) (hforms : Introduced r.entries.packages (form :: rest)) :
    r'.entries.packages = (r.entries.packages ++ form.declared?.toList).eraseDups := by
  rw [packages_of_declare h hr]
  cases hpackage : form.package? with
  | none =>
    cases hdeclared : form.declared? with
    | none => rfl
    | some name =>
      rw [Form.package?_of_declared? hdeclared] at hpackage
      cases hpackage
  | some name =>
    rcases hforms.1 name hpackage with hdeclared | hknown
    · rw [hdeclared]
    · cases hdeclared : form.declared? with
      | none =>
        rw [Option.toList_some, Option.toList_none, List.append_nil, eraseDups_concat,
          if_pos hknown]
      | some other =>
        rw [Form.package?_of_declared? hdeclared] at hpackage
        rw [hpackage]

namespace Yields

/-- The packages that the flat list declares are added, each where it is declared first. -/
theorem packages_eq (h : Yields site source forms r final) (hflat : Flattens site forms flat)
    (hr : r.entries.packages.Nodup) (hforms : Introduced r.entries.packages forms) :
    final.entries.packages =
      (r.entries.packages ++ flat.filterMap Form.declared?).eraseDups := by
  induction h generalizing flat with
  | done =>
    cases hflat
    rw [List.filterMap_nil, List.append_nil, eraseDups_of_nodup hr]
  | @declare _ _ form rest r r' _ hform hdeclare _ ih =>
    cases hflat with
    | @keep _ _ flat _ hrest =>
      have hpackages := Resolution.packages_of_introduced hdeclare hr hforms
      have hr' := (Resolution.declares_of_declare hdeclare).nodup hr
      have hknown : r.entries.packages ++ form.declared?.toList ⊆ r'.entries.packages := by
        intro name hname
        rw [hpackages]
        exact List.mem_eraseDups.mpr hname
      rw [ih hrest hr' (hforms.2.mono hknown), hpackages, eraseDups_eraseDups_append,
        filterMap_cons_toList, List.append_assoc]
    | expand => cases hform
  | @expand _ name document _ r inner _ hdocument _ _ ihinner ihrest =>
    cases hflat with
    | keep hform => cases hform
    | @expand _ _ _ innerFlat flat hdocument' hinner hrest =>
      cases hdocument.symm.trans hdocument'
      have hnil : (Entries.packages []).Nodup := List.nodup_nil
      have hinside : inner.entries.packages = (innerFlat.filterMap Form.declared?).eraseDups :=
        ihinner hinner hnil (site.introduced_of_document hdocument)
      have hpackages : (r.absorb inner).entries.packages =
          (r.entries.packages ++ innerFlat.filterMap Form.declared?).eraseDups := by
        rw [Resolution.absorb, Entries.packages_putAll _ hr, hinside, eraseDups_append_eraseDups]
      have hknown : r.entries.packages ++ (Form.group name).declared?.toList ⊆
          (r.absorb inner).entries.packages := by
        intro other hother
        rw [hpackages]
        exact List.mem_eraseDups.mpr (List.mem_append_left _ (by simpa [Form.declared?] using hother))
      have habsorb := Entries.nodup_packages_putAll inner.entries hr
      rw [ihrest hrest habsorb (hforms.2.mono hknown), hpackages, eraseDups_eraseDups_append,
        List.filterMap_append, List.append_assoc]

end Yields

end HostConfig
