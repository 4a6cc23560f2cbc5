import HostConfig.Document
import HostConfig.Proofs.Occurrence
import HostConfig.Proofs.Payload.Parts

/-!
# What the tokens before tell

The scope that a token is read in is kept while reading, but the tokens before it tell it as well. A
list of packages goes on while there are plain lines only. A package is current from its declaration
on, whatever follows, until a list begins or other packages are declared.
-/

namespace HostConfig

open HostConfig.Payload

/-- The tokens end in a list of packages. -/
def InListing (before : List Token) : Prop :=
  Since (fun t => t.kind = .directive .packages) (fun t => t.kind = .text) before

/-- Packages were declared, and no list has begun since. -/
def HasPackage (before : List Token) : Prop :=
  Since (fun t => t.kind = .directive .package) (fun t => t.kind ≠ .directive .packages) before

/-- A package is the last one that a payload names. -/
def NamesLast (payload : List Char) (name : String) : Prop :=
  ∃ parts, HasParts payload parts ∧ parts.getLast? = some name.toList

/-- The last package declared is of this name, and no list has begun since. -/
def CurrentPackage (before : List Token) (name : String) : Prop :=
  Since (fun t => t.kind = .directive .package ∧ NamesLast t.payload.toList name)
    (fun t => t.kind ≠ .directive .packages ∧ t.kind ≠ .directive .package) before

/-- A scope is what the tokens before tell. -/
def Scope.Fits (before : List Token) : Scope → Prop
  | .top => ¬ InListing before ∧ ¬ HasPackage before
  | .listing => InListing before ∧ ¬ HasPackage before
  | .package name => ¬ InListing before ∧ HasPackage before ∧
      ∀ other, CurrentPackage before other ↔ other = name

variable {before : List Token} {s : Scope} {t : Token} {reading : Reading} {name : String}

/-- The names in a payload are its parts. -/
theorem packageNames_eq (payload : List Char) :
    packageNames payload = (propertyParts payload).map String.ofList := rfl

/-- The last package that a payload names is the last one that is read from it. -/
theorem namesLast_iff {payload : List Char} :
    NamesLast payload name ↔ (packageNames payload).getLast? = some name := by
  have hname : ∀ part, String.ofList part = name ↔ part = name.toList := fun part => by
    rw [← String.toList_inj, String.toList_ofList]
  simp [NamesLast, hasParts_iff, packageNames_eq, hname]

/-- Without tokens there is neither a list nor a package. -/
theorem Scope.fits_nil : Scope.top.Fits [] := ⟨not_since_nil, not_since_nil⟩

/-- Only a list of packages can end when a token is met. -/
theorem Scope.before_of_ne_listing (h : s ≠ .listing) (kind : TokenKind) : s.before kind = s := by
  unfold before
  repeat' split
  all_goals first | rfl | contradiction

/-- A list of packages ends unless a plain line is met. -/
theorem Scope.before_listing {kind : TokenKind} (hpackages : kind ≠ .directive .packages)
    (heof : kind ≠ .eof) : Scope.listing.before kind = if kind = .text then .listing else .top := by
  unfold before
  split <;> simp_all

/-- A token opens a list, declares packages or leaves the scope as it is. -/
theorem Token.scope_of_read (h : t.read s = .ok reading) :
    (t.kind = .directive .packages ∧ reading.scope = .listing) ∨
    (∃ name, t.kind = .directive .package ∧
      (packageNames t.payload.toList).getLast? = some name ∧ reading.scope = .package name) ∨
    (t.kind ≠ .directive .packages ∧ t.kind ≠ .directive .package ∧ reading.scope = s) := by
  unfold Token.read at h
  split at h
  · next d hkind =>
    cases d with
    | packages =>
      simp only [readDirective] at h
      split at h
      · cases h
        exact Or.inl ⟨hkind, rfl⟩
      · cases h
    | package =>
      simp only [readDirective, readPackage] at h
      split at h
      · cases h
      · next name hlast =>
        cases h
        exact Or.inr (Or.inl ⟨name, hkind, hlast, rfl⟩)
    | group | env | script | ofPackage d =>
      refine Or.inr (Or.inr ⟨by simp [hkind], by simp [hkind], ?_⟩)
      simp only [readDirective, readGroup] at h
      repeat' split at h
      all_goals cases h
      all_goals rfl
  · next hkind =>
    refine Or.inr (Or.inr ⟨by simp [hkind], by simp [hkind], ?_⟩)
    unfold readText at h
    repeat' split at h
    all_goals cases h
    all_goals simp_all
  · next hkind =>
    cases h
    exact Or.inr (Or.inr ⟨by simp [hkind], by simp [hkind], rfl⟩)

/-- Reading a token keeps the scope what the tokens tell. -/
theorem Scope.Fits.read (hfits : s.Fits before) (hkind : t.kind ≠ .eof)
    (h : t.read (s.before t.kind) = .ok reading) : reading.scope.Fits (before ++ [t]) := by
  rcases Token.scope_of_read h with ⟨hpackages, hscope⟩ | ⟨name, hpackage, hlast, hscope⟩ | hother
  · rw [hscope]
    simp [Fits, InListing, HasPackage, since_concat, hpackages]
  · rw [hscope]
    simp [Fits, InListing, HasPackage, CurrentPackage, since_concat, hpackage, namesLast_iff, hlast,
      eq_comm]
  · obtain ⟨hpackages, hpackage, hscope⟩ := hother
    have hlisting : InListing (before ++ [t]) ↔ t.kind = .text ∧ InListing before := by
      simp [InListing, since_concat, hpackages]
    have hhas : HasPackage (before ++ [t]) ↔ HasPackage before := by
      simp [HasPackage, since_concat, hpackages, hpackage]
    have hcurrent : ∀ name, CurrentPackage (before ++ [t]) name ↔ CurrentPackage before name := by
      intro name
      simp [CurrentPackage, since_concat, hpackages, hpackage]
    rw [hscope]
    cases s with
    | top =>
      rw [before_of_ne_listing Scope.noConfusion, Fits, hlisting, hhas]
      exact ⟨fun h => hfits.1 h.2, hfits.2⟩
    | listing =>
      rw [before_listing hpackages hkind]
      split
      · next htext => exact ⟨hlisting.mpr ⟨htext, hfits.1⟩, fun h => hfits.2 (hhas.mp h)⟩
      · next htext => exact ⟨fun h => htext (hlisting.mp h).1, fun h => hfits.2 (hhas.mp h)⟩
    | package name =>
      rw [before_of_ne_listing Scope.noConfusion, Fits, hlisting, hhas]
      exact ⟨fun h => hfits.1 h.2, hfits.2.1, fun other => (hcurrent other).trans (hfits.2.2 other)⟩

/-- In a list, and only there, a plain line is met in a list. -/
theorem Scope.Fits.before_text (hfits : s.Fits before) :
    s.before .text = .listing ↔ InListing before := by
  cases s with
  | top => exact iff_of_false Scope.noConfusion hfits.1
  | listing => exact iff_of_true rfl hfits.1
  | package name => exact iff_of_false Scope.noConfusion hfits.1

/-- A directive about a package is met with the current package, if there is one. -/
theorem Scope.Fits.before_ofPackage (hfits : s.Fits before) (d : PackageDirective) :
    s.before (.directive (.ofPackage d)) = .package name ↔ CurrentPackage before name := by
  have hhas : CurrentPackage before name → HasPackage before :=
    fun h => Since.mono h (fun _ ht => ht.1) fun _ ht => ht.1
  cases s with
  | top => exact iff_of_false Scope.noConfusion fun h => hfits.2 (hhas h)
  | listing => exact iff_of_false Scope.noConfusion fun h => hfits.2 (hhas h)
  | package other =>
    rw [hfits.2.2 name, before_of_ne_listing Scope.noConfusion, Scope.package.injEq]
    exact eq_comm

/-- A package is current exactly when packages were declared and no list has begun since. -/
theorem Scope.Fits.exists_currentPackage_iff (hfits : s.Fits before) :
    (∃ name, CurrentPackage before name) ↔ HasPackage before := by
  constructor
  · rintro ⟨name, hname⟩
    exact Since.mono hname (fun _ ht => ht.1) fun _ ht => ht.1
  · intro hhas
    cases s with
    | top => exact absurd hhas hfits.2
    | listing => exact absurd hhas hfits.2
    | package name => exact ⟨name, (hfits.2.2 name).mpr rfl⟩

end HostConfig
