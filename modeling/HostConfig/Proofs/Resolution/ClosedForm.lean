import HostConfig.Proofs.Resolution.Declaration
import HostConfig.Proofs.Resolution.Depth

/-!
# The closed form of a resolution

A statement about a package adds to the package's lists, while the inclusion of a group replaces
each list that the group holds a value for. Resolving a body is a fold of these two rules, and
the fold has a closed form: of the inclusions only the last one that provides a list counts, and
of the statements those behind it.
-/

namespace HostConfig

/-- What a group resolves to on its own, if it does. -/
def Site.groupResolution? (site : Site) (name : String) : Option Resolution :=
  match site.document (site.layout.groupFile name) with
  | .error _ => none
  | .ok document => (resolve site (site.layout.groupSource name) document ⟨none, []⟩).1.toOption

/-- What the group resolves to that a statement includes, if it includes one that does. -/
def Site.included? (site : Site) (s : Statement) : Option Resolution :=
  s.form.group?.bind site.groupResolution?

/-- What the group that a statement includes holds in a list of a package. -/
def Site.provides (site : Site) (package : String) (field : ListField) (s : Statement) :
    List field.Item :=
  match site.included? s with
  | some inner => inner.entries.list package field
  | none => []

/-- The source of a package in the group that a statement includes, if the group holds it. -/
def Site.providedSource? (site : Site) (package : String) (s : Statement) : Option Provenance :=
  (site.included? s).bind (·.entries.source? package)

/-- What a statement makes of a list of a package. -/
def Site.listStep (site : Site) (package : String) (field : ListField) (gathered : List field.Item)
    (s : Statement) : List field.Item :=
  lastNonEmpty (gathered ++ s.form.declares site.layout package field)
    (site.provides package field s)

/-- What a statement in a document makes of the source of a package. -/
def Site.sourceStep (site : Site) (source : Provenance) (package : String)
    (gathered : Option Provenance) (s : Statement) : Option Provenance :=
  (site.providedSource? package s).or
    (gathered.or (if s.form.package? = some package then some source else none))

variable {site : Site} {source : Provenance} {package : String} {field : ListField}

/-- A group that is expanded while others are resolves on its own to the same. -/
theorem Resolves.groupResolution?_eq {name : String} {document : Document} {run after : Run}
    {inner : Resolution} (hdocument : site.document (site.layout.groupFile name) = .ok document)
    (h : Resolves site (site.layout.groupSource name) document.body {} run (.ok inner) after) :
    site.groupResolution? name = some inner := by
  have halone : (⟨none, []⟩ : Run).active ⊆ run.active := List.nil_subset _
  obtain ⟨after', hresolves⟩ := h.of_active_subset halone
  rw [Site.groupResolution?, hdocument]
  simp only [resolve_eq_iff.mpr hresolves, Except.toOption]

/-- A statement that includes no group provides nothing. -/
theorem Site.included?_of_group?_eq_none {s : Statement} (h : s.form.group? = none) :
    site.included? s = none := by
  rw [Site.included?, h, Option.bind_none]

/-- The inclusion of a group is about no package. -/
theorem Form.package?_of_group? {form : Form} {name : String} (h : form.group? = some name) :
    form.package? = none := by
  rw [Form.group?_eq_some_iff.mp h, Form.package?]

/-- A resolution holds each package once. -/
theorem Resolves.nodup_packages {body : List Statement} {r final : Resolution} {run after : Run}
    (h : Resolves site source body r run (.ok final) after) (hr : r.entries.packages.Nodup) :
    final.entries.packages.Nodup := by
  induction h using Resolves.ok_induction with
  | done => exact hr
  | declare _ hdeclare _ ih => exact ih ((Resolution.declares_of_declare hdeclare).nodup hr)
  | expand _ _ _ _ _ _ ihrest => exact ihrest (Entries.nodup_packages_putAll _ hr)

/-- Each group that is included resolves on its own. -/
theorem Resolves.isSome_groupResolution? {body : List Statement} {r final : Resolution}
    {run after : Run} (h : Resolves site source body r run (.ok final) after) {s : Statement}
    (hs : s ∈ body) {name : String} (hname : s.form.group? = some name) :
    (site.groupResolution? name).isSome := by
  induction h using Resolves.ok_induction with
  | done => cases hs
  | declare hform _ _ ih =>
    cases hs with
    | head =>
      rw [hform] at hname
      cases hname
    | tail _ hs => exact ih hs
  | expand hform _ hdocument hinner _ _ ihrest =>
    cases hs with
    | head =>
      cases hform.symm.trans hname
      rw [hinner.groupResolution?_eq hdocument]
      rfl
    | tail _ hs => exact ihrest hs

/-- A statement makes a resolution of another one, as far as its lists and sources go. -/
structure Site.Gathers (site : Site) (source : Provenance) (s : Statement) (r r' : Resolution) :
    Prop where
  list_eq : ∀ package field,
    r'.entries.list package field = site.listStep package field (r.entries.list package field) s
  source?_eq : ∀ package,
    r'.entries.source? package = site.sourceStep source package (r.entries.source? package) s

/-- A statement that is carried out takes its steps. -/
theorem Site.gathers_of_declare {s : Statement} {r r' : Resolution} (hform : s.form.group? = none)
    (h : r.declare site.layout source s = .ok r') : site.Gathers source s r r' where
  list_eq package field := by
    rw [listStep, provides, included?_of_group?_eq_none hform, lastNonEmpty_nil,
      (Resolution.declares_of_declare h).list_eq]
  source?_eq package := by
    rw [sourceStep, providedSource?, included?_of_group?_eq_none hform, Option.bind_none,
      Option.none_or, (Resolution.declares_of_declare h).source?_eq]

/-- The inclusion of a group that is merged takes its steps. -/
theorem Site.gathers_of_absorb {s : Statement} {name : String} {r inner : Resolution}
    (hform : s.form.group? = some name) (hgroup : site.groupResolution? name = some inner)
    (hinner : inner.entries.packages.Nodup) : site.Gathers source s r (r.absorb inner) := by
  have hincluded : site.included? s = some inner := by
    rw [included?, hform, Option.bind_some, hgroup]
  constructor
  · intro package field
    rw [listStep, provides, hincluded, Form.declares, Form.package?_of_group? hform,
      if_neg (by simp), List.append_nil, Resolution.absorb, Entries.list_putAll _ hinner]
  · intro package
    rw [sourceStep, providedSource?, hincluded, Option.bind_some, Form.package?_of_group? hform,
      if_neg (by simp), Option.or_none, Resolution.absorb, Entries.source?_putAll _ hinner]

/-- The lists and the sources of a resolution are gathered statement by statement. -/
theorem Resolves.eq_foldl {body : List Statement} {r final : Resolution} {run after : Run}
    (h : Resolves site source body r run (.ok final) after) :
    (∀ package field, final.entries.list package field =
      body.foldl (site.listStep package field) (r.entries.list package field)) ∧
    ∀ package, final.entries.source? package =
      body.foldl (site.sourceStep source package) (r.entries.source? package) := by
  induction h using Resolves.ok_induction with
  | done => exact ⟨fun _ _ => rfl, fun _ => rfl⟩
  | declare hform hdeclare _ ih =>
    have hgathers := Site.gathers_of_declare hform hdeclare
    constructor
    · intro package field
      rw [ih.1, List.foldl_cons, hgathers.list_eq]
    · intro package
      rw [ih.2, List.foldl_cons, hgathers.source?_eq]
  | @expand source s _ r inner _ _ _ _ _ _ hform _ hdocument hinner _ _ ih =>
    have hgathers : site.Gathers source s r (r.absorb inner) := Site.gathers_of_absorb hform
      (hinner.groupResolution?_eq hdocument) (hinner.nodup_packages List.nodup_nil)
    constructor
    · intro package field
      rw [ih.1, List.foldl_cons, hgathers.list_eq]
    · intro package
      rw [ih.2, List.foldl_cons, hgathers.source?_eq]

/-- Behind the last inclusion that provides a list, statements only add to it. -/
theorem Site.foldl_listStep {body : List Statement} (gathered : List field.Item)
    (h : ∀ s ∈ body, site.provides package field s = []) :
    body.foldl (site.listStep package field) gathered =
      gathered ++ body.flatMap fun s => s.form.declares site.layout package field := by
  induction body generalizing gathered with
  | nil => simp
  | cons s rest ih =>
    rw [List.foldl_cons, ih _ fun t ht => h t (List.mem_cons_of_mem _ ht), listStep,
      h s List.mem_cons_self, lastNonEmpty_nil, List.flatMap_cons, List.append_assoc]

/-- An inclusion that provides a list replaces what was gathered of it. -/
theorem Site.listStep_of_provides {gathered : List field.Item} {s : Statement}
    (h : site.provides package field s ≠ []) :
    site.listStep package field gathered s = site.provides package field s :=
  lastNonEmpty_of_ne_nil _ h

/-- Behind the last inclusion that holds a package, its source remains. -/
theorem Site.foldl_sourceStep {body : List Statement} {gathered : Option Provenance}
    (h : ∀ s ∈ body, site.providedSource? package s = none) :
    body.foldl (site.sourceStep source package) gathered =
      gathered.or (if ∃ s ∈ body, s.form.package? = some package then some source else none) := by
  induction body generalizing gathered with
  | nil => simp
  | cons s rest ih =>
    rw [List.foldl_cons, ih fun t ht => h t (List.mem_cons_of_mem _ ht), sourceStep,
      h s List.mem_cons_self, Option.none_or, Option.or_assoc]
    congr 1
    by_cases hs : s.form.package? = some package <;> simp [hs]

/-- A package is there once a statement names it or an inclusion holds it. -/
theorem Site.isSome_foldl_sourceStep {body : List Statement} {gathered : Option Provenance} :
    (body.foldl (site.sourceStep source package) gathered).isSome ↔ gathered.isSome ∨
      ∃ s ∈ body, s.form.package? = some package ∨ (site.providedSource? package s).isSome := by
  induction body generalizing gathered with
  | nil => simp
  | cons s rest ih =>
    have hstep : (site.sourceStep source package gathered s).isSome ↔ gathered.isSome ∨
        (s.form.package? = some package ∨ (site.providedSource? package s).isSome) := by
      rw [sourceStep, Option.isSome_or, Option.isSome_or]
      by_cases hs : s.form.package? = some package <;> simp [hs, or_comm]
    rw [List.foldl_cons, ih, hstep]
    simp only [List.mem_cons, exists_eq_or_imp, or_assoc]

/-- What a body resolves to, told without going through it. -/
structure Resolution.ClosedForm (site : Site) (source : Provenance) (body : List Statement)
    (r : Resolution) : Prop where
  isSome_group : ∀ s ∈ body, ∀ name, s.form = .group name → (site.groupResolution? name).isSome
  nodup : r.entries.packages.Nodup
  /-- A list is what the last inclusion that provides it holds, and what statements add later. -/
  list_of_include : ∀ package field before s later, body = before ++ s :: later →
    site.provides package field s ≠ [] → (∀ t ∈ later, site.provides package field t = []) →
      r.entries.list package field = site.provides package field s ++
        later.flatMap fun t => t.form.declares site.layout package field
  /-- A list that no inclusion provides is what statements add. -/
  list_of_forall : ∀ package field, (∀ t ∈ body, site.provides package field t = []) →
    r.entries.list package field = body.flatMap fun t => t.form.declares site.layout package field
  mem_packages : ∀ package, package ∈ r.entries.packages ↔ ∃ s ∈ body,
    s.form.package? = some package ∨
      ∃ inner, site.included? s = some inner ∧ package ∈ inner.entries.packages
  /-- The source of a package is that of the last inclusion that holds it. -/
  source_of_include : ∀ package before s later, body = before ++ s :: later →
    (site.providedSource? package s).isSome → (∀ t ∈ later, site.providedSource? package t = none) →
      r.entries.source? package = site.providedSource? package s
  /-- The source of a package that no inclusion holds is the document's own. -/
  source_of_forall : ∀ package, package ∈ r.entries.packages →
    (∀ t ∈ body, site.providedSource? package t = none) → r.entries.source? package = some source

/-- A statement provides a source for a package exactly when its group holds the package. -/
theorem Site.isSome_providedSource?_iff {s : Statement} :
    (site.providedSource? package s).isSome ↔
      ∃ inner, site.included? s = some inner ∧ package ∈ inner.entries.packages := by
  rw [providedSource?]
  cases site.included? s with
  | none => simp
  | some inner => simp [Entries.isSome_source?_iff]

/-- A document that resolves does so to its closed form, whichever groups are being expanded. -/
theorem resolve_closedForm {document : Document} {run : Run} {r : Resolution}
    (h : (resolve site source document run).1 = .ok r) :
    r.ClosedForm site source document.body := by
  have hresolves := resolves_resolve site source document run
  rw [h] at hresolves
  obtain ⟨hlist, hsource⟩ := hresolves.eq_foldl
  have hmem : ∀ package, package ∈ r.entries.packages ↔ ∃ s ∈ document.body,
      s.form.package? = some package ∨ (site.providedSource? package s).isSome := by
    intro package
    rw [← Entries.isSome_source?_iff, hsource, Site.isSome_foldl_sourceStep]
    exact or_iff_right Bool.false_ne_true
  constructor
  case isSome_group =>
    intro s hs name hname
    exact hresolves.isSome_groupResolution? hs (Form.group?_eq_some_iff.mpr hname)
  case nodup => exact hresolves.nodup_packages List.nodup_nil
  case list_of_include =>
    intro package field before s later hbody hs hlater
    rw [hlist, hbody, List.foldl_append, List.foldl_cons, Site.listStep_of_provides hs,
      Site.foldl_listStep _ hlater]
  case list_of_forall =>
    intro package field hbody
    rw [hlist, Site.foldl_listStep _ hbody]
    rfl
  case mem_packages =>
    intro package
    rw [hmem]
    simp only [Site.isSome_providedSource?_iff]
  case source_of_include =>
    intro package before s later hbody hs hlater
    obtain ⟨provenance, hprovenance⟩ := Option.isSome_iff_exists.mp hs
    rw [hsource, hbody, List.foldl_append, List.foldl_cons, Site.foldl_sourceStep hlater,
      Site.sourceStep, hprovenance]
    rfl
  case source_of_forall =>
    intro package hpackage hbody
    obtain ⟨s, hs, hnamed | hheld⟩ := (hmem package).mp hpackage
    · rw [hsource, Site.foldl_sourceStep hbody, if_pos ⟨s, hs, hnamed⟩]
      rfl
    · rw [hbody s hs] at hheld
      cases hheld

/-- A group between two statements about its package: the second one adds to the group's list. -/
theorem resolve_closedForm_around_group :
    let site := Site.ofTexts "/owl" [("/owl/groups/base.owl", "@package vim\n:env A = 1\n")]
    let source : Provenance := ⟨"/owl/main.owl", .main, none⟩
    let body : List Statement := [⟨⟨"/owl/main.owl", 1, ""⟩, .packageEnv "vim" "B" "2"⟩,
      ⟨⟨"/owl/main.owl", 2, ""⟩, .group "base"⟩,
      ⟨⟨"/owl/main.owl", 3, ""⟩, .packageEnv "vim" "C" "3"⟩]
    let r : Resolution :=
      { entries := [⟨"vim", site.layout.groupSource "base", [], [], [], [⟨"A", "1"⟩, ⟨"C", "3"⟩]⟩] }
    (resolve site source ⟨"/owl/main.owl", body⟩ ⟨none, ["other"]⟩).1 = .ok r ∧
      r.ClosedForm site source body := by
  intro site source body r
  have hok : (resolve site source ⟨"/owl/main.owl", body⟩ ⟨none, ["other"]⟩).1 = .ok r := by
    decide +kernel
  exact ⟨hok, resolve_closedForm hok⟩

end HostConfig
