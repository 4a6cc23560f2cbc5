import HostConfig.Proofs.Document.Lines
import HostConfig.Proofs.Resolution.Declaration

/-!
# Packages are declared before they are spoken about

A statement that gives a package something belongs to the package declared last, so that a
declaration of the package stands before it in the same document. Only declarations can therefore
bring a package that is new.
-/

namespace HostConfig

/-- What is selected from a list is what its head gives, if anything, and then the rest. -/
theorem filterMap_cons_toList {α β : Type} (f : α → Option β) (a : α) (rest : List α) :
    (a :: rest).filterMap f = (f a).toList ++ rest.filterMap f := by
  rw [List.filterMap_eq_flatMap_toList, List.filterMap_eq_flatMap_toList, List.flatMap_cons]

/-- The package that a statement declares. -/
def Form.declared? : Form → Option String
  | .item name | .package name => some name
  | _ => none

/-- A statement that declares a package is about that package. -/
theorem Form.package?_of_declared? {form : Form} {name : String}
    (h : form.declared? = some name) : form.package? = some name := by
  cases form <;> simp_all [declared?, package?]

/-- Each package is declared before it is spoken about, unless it is known anyway. -/
def Introduced (known : List String) : List Form → Prop
  | [] => True
  | form :: rest =>
    (∀ name, form.package? = some name → form.declared? = some name ∨ name ∈ known) ∧
      Introduced (known ++ form.declared?.toList) rest

/-- More packages may be known. -/
theorem Introduced.mono {known more : List String} {forms : List Form}
    (h : Introduced known forms) (hmore : known ⊆ more) : Introduced more forms := by
  induction forms generalizing known more with
  | nil => trivial
  | cons form rest ih =>
    refine ⟨fun name hname => (h.1 name hname).imp_right (@hmore name), ih h.2 ?_⟩
    exact List.append_subset.mpr
      ⟨List.subset_append_of_subset_left _ hmore, List.subset_append_right _ _⟩

/-- Forms that follow others know what these declare. -/
theorem introduced_append {known : List String} {xs ys : List Form} :
    Introduced known (xs ++ ys) ↔
      Introduced known xs ∧ Introduced (known ++ xs.filterMap Form.declared?) ys := by
  induction xs generalizing known with
  | nil => simp [Introduced]
  | cons form xs ih =>
    rw [List.cons_append, Introduced, Introduced, ih, filterMap_cons_toList, List.append_assoc,
      and_assoc]

/-- Forms that are about known packages only, apart from declarations, are introduced. -/
theorem introduced_of_forall {known : List String} {forms : List Form}
    (h : ∀ form ∈ forms, ∀ name, form.package? = some name →
      form.declared? = some name ∨ name ∈ known) : Introduced known forms := by
  induction forms generalizing known with
  | nil => trivial
  | cons form rest ih =>
    refine ⟨h form List.mem_cons_self, ih fun other hother name hname => ?_⟩
    exact (h other (List.mem_cons_of_mem _ hother) name hname).imp_right
      fun hknown => List.mem_append_left _ hknown

/-- The package that is current in a scope. -/
def Scope.current? : Scope → Option String
  | .package name => some name
  | _ => none

/-- Entering a line makes no package current. -/
theorem Scope.current?_before (scope : Scope) (kind : TokenKind) :
    (scope.before kind).current? = scope.current? := by
  cases scope <;> rcases kind with (_ | _ | _ | _ | _ | _) | _ | _ <;> rfl

/-- A statement about the current package is about that package. -/
theorem package?_of_readPackageDirective {package payload : String} {d : PackageDirective}
    {form : Form} (h : readPackageDirective package d payload = .ok form) :
    form.package? = some package := by
  unfold readPackageDirective readService at h
  repeat' split at h
  all_goals cases h
  all_goals rfl

/-- What a token says is about the current package or declares what it is about, and a package
becomes current only where it is declared. -/
theorem Token.introduces_of_read {scope : Scope} {t : Token} {reading : Reading}
    (h : t.read scope = .ok reading) :
    (∀ form ∈ reading.forms, ∀ name, form.package? = some name →
      form.declared? = some name ∨ scope.current? = some name) ∧
    ∀ name, reading.scope.current? = some name →
      name ∈ reading.forms.filterMap Form.declared? ∨ scope.current? = some name := by
  unfold Token.read at h
  split at h
  · next d hkind =>
    cases d with
    | packages =>
      simp only [readDirective] at h
      split at h <;> cases h
      exact ⟨by simp [Form.package?], by simp [Scope.current?]⟩
    | group | env | script =>
      simp only [readDirective, readGroup] at h
      repeat' split at h
      all_goals cases h
      all_goals exact ⟨by simp [Form.package?], fun name hname => Or.inr hname⟩
    | package =>
      simp only [readDirective, readPackage] at h
      split at h
      · cases h
      · next names last hlast =>
        cases h
        constructor
        · intro form hform name hname
          obtain ⟨other, -, rfl⟩ := List.mem_map.mp hform
          exact Or.inl hname
        · intro name hname
          cases hname
          have hmem := List.mem_of_getLast? hlast
          exact Or.inl (List.mem_filterMap.mpr ⟨_, List.mem_map_of_mem hmem, rfl⟩)
    | ofPackage d =>
      simp only [readDirective] at h
      split at h
      · split at h
        · cases h
        · next current form hform =>
          cases h
          constructor
          · intro other hother name hname
            rw [List.mem_singleton] at hother
            subst other
            rw [package?_of_readPackageDirective hform] at hname
            exact Or.inr hname
          · exact fun name hname => Or.inr hname
      · cases h
  · unfold readText at h
    repeat' split at h
    all_goals cases h
    all_goals exact ⟨by simp [Form.package?, Form.declared?], fun name hname => Or.inr hname⟩
  · cases h
    exact ⟨by simp, fun name hname => Or.inr hname⟩

/-- What a line says is introduced where the current package is known, and then the package that
is current after the line is known or declared. -/
theorem introduced_of_readLine {scope : Scope} {raw : List Char} {reading : Reading}
    {known : List String} (h : readLine scope raw = .ok reading)
    (hscope : ∀ name, scope.current? = some name → name ∈ known) :
    Introduced known reading.forms ∧ ∀ name, reading.scope.current? = some name →
      name ∈ known ++ reading.forms.filterMap Form.declared? := by
  unfold readLine at h
  split at h
  · cases h
    exact ⟨trivial, fun name hname => List.mem_append_left _ (hscope name hname)⟩
  · obtain ⟨hforms, hcurrent⟩ := Token.introduces_of_read h
    simp only [Scope.current?_before] at hforms hcurrent
    constructor
    · apply introduced_of_forall
      exact fun form hform name hname => (hforms form hform name hname).imp_right (hscope name)
    · intro name hname
      rcases hcurrent name hname with hdeclared | hbefore
      · exact List.mem_append_right _ hdeclared
      · exact List.mem_append_left _ (hscope name hbefore)

/-- What lines say is introduced where the current package is known. -/
theorem introduced_of_readLines {scope : Scope} {ls : List (List Char)} {reading : Reading}
    {known : List String} (h : readLines scope ls = .ok reading)
    (hscope : ∀ name, scope.current? = some name → name ∈ known) :
    Introduced known reading.forms := by
  induction ls generalizing scope reading known with
  | nil =>
    cases h
    trivial
  | cons raw rest ih =>
    obtain ⟨first, later, hfirst, hlater, rfl⟩ := readLines_cons_eq_ok.mp h
    obtain ⟨hforms, hcurrent⟩ := introduced_of_readLine hfirst hscope
    exact introduced_append.mpr ⟨hforms, ih hlater hcurrent⟩

/-- A document declares each package before it speaks about it. -/
theorem Site.introduced_of_document {site : Site} {path : Path} {document : Document}
    (h : site.document path = .ok document) : Introduced [] document.forms := by
  obtain ⟨text, scope, -, hlines⟩ := Site.exists_document_iff.mp ⟨document, h, rfl⟩
  exact introduced_of_readLines hlines (fun name hname => by cases hname)

end HostConfig
