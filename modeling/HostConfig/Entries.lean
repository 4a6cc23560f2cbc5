import HostConfig.Config

/-!
# Merging entries

Two entries of one package are merged field by field: a list of the later entry replaces that of
the earlier one if it is not empty, and the provenance is that of the later entry. In a list of
entries each package stands once, at the place where it came first.
-/

namespace HostConfig

/-- The later list if it is not empty, and else the earlier one. -/
def lastNonEmpty {α : Type} (earlier later : List α) : List α :=
  if later.isEmpty then earlier else later

/-- An entry with a later one of the same package over it. -/
def Entry.override (earlier later : Entry) : Entry where
  package := later.package
  provenance := later.provenance
  configs := lastNonEmpty earlier.configs later.configs
  setups := lastNonEmpty earlier.setups later.setups
  services := lastNonEmpty earlier.services later.services
  envs := lastNonEmpty earlier.envs later.envs

/-- Two packages whose entries were to be merged. -/
structure PackageClash where
  earlier : String
  later : String
  deriving DecidableEq, Repr

/-- The sentence that tells which packages clash. -/
def PackageClash.message (c : PackageClash) : String :=
  "Cannot merge entries of different packages: '" ++ c.earlier ++ "' vs '" ++ c.later ++ "'"

/-- Merge a later entry over an earlier one, which must be of the same package. -/
def Entry.merge (earlier later : Entry) : Except PackageClash Entry :=
  if earlier.package = later.package then .ok (earlier.override later)
  else .error ⟨earlier.package, later.package⟩

/-- Entries, each package once, in the order of first appearance. -/
abbrev Entries := List Entry

namespace Entries

/-- The entry of a package. -/
def get? (es : Entries) (package : String) : Option Entry := es.find? fun e => e.package = package

/-- Change the entry of a package; a package without one is added at the end. -/
def modify (fresh : Entry) (change : Entry → Entry) : Entries → Entries
  | [] => [change fresh]
  | e :: rest =>
    if e.package = fresh.package then change e :: rest else e :: modify fresh change rest

/-- Merge an entry into the entry of its package; a package without one is added at the end. -/
def put (later : Entry) : Entries → Entries
  | [] => [later]
  | e :: rest => if e.package = later.package then e.override later :: rest else e :: put later rest

/-- Merge entries one after the other. -/
def putAll (es : Entries) (later : List Entry) : Entries := later.foldl (fun acc e => put e acc) es

/-- The entries among the given ones that meet an entry of their package when all are merged. -/
def overriding (es : Entries) : List Entry → List Entry
  | [] => []
  | e :: rest =>
    if (es.get? e.package).isSome then e :: overriding (es.put e) rest
    else overriding (es.put e) rest

/-- The packages in order. -/
def packages (es : Entries) : List String := es.map (·.package)

/-- A package has an entry exactly when it is among the packages. -/
theorem isSome_get?_iff {es : Entries} {package : String} :
    (es.get? package).isSome ↔ package ∈ es.packages := by
  simp [get?, packages, List.find?_isSome]

/-- An entry that is found is of its package. -/
theorem package_of_get? {es : Entries} {package : String} {e : Entry}
    (h : es.get? package = some e) : e.package = package := by
  simpa using List.find?_some h

theorem packages_cons (e : Entry) (rest : Entries) :
    packages (e :: rest) = e.package :: packages rest := rfl

/-- Merging an entry adds its package at the end, unless it is there already. -/
theorem packages_put (es : Entries) (later : Entry) :
    (es.put later).packages =
      if later.package ∈ es.packages then es.packages else es.packages ++ [later.package] := by
  induction es with
  | nil => rfl
  | cons e rest ih =>
    by_cases h : e.package = later.package
    · simp [put, h, packages_cons, Entry.override]
    · by_cases hm : later.package ∈ packages rest
      · simp [put, h, packages_cons, ih, hm]
      · simp [put, h, packages_cons, ih, hm, Ne.symm h]

/-- Merging an entry changes the entry of its package and no other. -/
theorem get?_put (es : Entries) (later : Entry) (package : String) :
    (es.put later).get? package =
      if later.package = package then
        some (match es.get? package with
          | some e => e.override later
          | none => later)
      else es.get? package := by
  induction es with
  | nil => simp only [put, get?, List.find?_cons, List.find?_nil]; split <;> simp_all
  | cons e rest ih =>
    simp only [get?] at ih ⊢
    by_cases h : e.package = later.package
    · by_cases hp : later.package = package
      · simp [put, h, hp, Entry.override]
      · simp [put, h, hp, Entry.override]
    · by_cases hp : e.package = package
      · subst package
        simp only [put, h, Ne.symm h, if_false, List.find?_cons, decide_true]
      · simp only [put, h, if_false, List.find?_cons, hp, decide_false, ih]

/-- Merging keeps each package once. -/
theorem nodup_packages_put {es : Entries} (later : Entry) (h : es.packages.Nodup) :
    (es.put later).packages.Nodup := by
  rw [packages_put]
  split
  · exact h
  · next hn => exact List.nodup_append.mpr ⟨h, by simp, by rintro a ha b hb rfl; simp_all⟩

end Entries

end HostConfig
