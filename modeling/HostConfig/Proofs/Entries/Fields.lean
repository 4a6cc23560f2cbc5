import HostConfig.Entries
import Mathlib.Data.List.Basic

/-!
# The lists and the source of a package's entry

An entry has four lists, which all are merged by the same rule and changed in the same way, so
that they are told apart by an index only. Entries are seen through the list and the source that
they hold for a package; each operation on entries has one equation for either view.
-/

namespace HostConfig

/-- The lists of an entry. -/
inductive ListField
  | configs
  | setups
  | services
  | envs
  deriving DecidableEq, Repr

/-- What a list holds. -/
abbrev ListField.Item : ListField → Type
  | configs => ConfigMapping
  | setups => String
  | services => Service
  | envs => EnvVar

/-- A list of an entry. -/
def Entry.list (e : Entry) : (field : ListField) → List field.Item
  | .configs => e.configs
  | .setups => e.setups
  | .services => e.services
  | .envs => e.envs

/-- A list of the entry of a package, which is empty if there is no such entry. -/
def Entries.list (es : Entries) (package : String) (field : ListField) : List field.Item :=
  match es.get? package with
  | some e => e.list field
  | none => []

/-- Where the entry of a package comes from, if there is one. -/
def Entries.source? (es : Entries) (package : String) : Option Provenance :=
  (es.get? package).map (·.provenance)

/-- An earlier entry with a later one over it, as far as there are such entries. -/
def overrideOption : Option Entry → Option Entry → Option Entry
  | earlier, none => earlier
  | none, some later => some later
  | some earlier, some later => some (earlier.override later)

/-- Every list is merged by the same rule. -/
theorem Entry.list_override (earlier later : Entry) (field : ListField) :
    (earlier.override later).list field = lastNonEmpty (earlier.list field) (later.list field) := by
  cases field <;> rfl

/-- An entry over itself stays as it is. -/
theorem Entry.override_self (e : Entry) : e.override e = e := by simp [override, lastNonEmpty]

theorem lastNonEmpty_nil {α : Type} (earlier : List α) : lastNonEmpty earlier [] = earlier := rfl

theorem nil_lastNonEmpty {α : Type} (later : List α) : lastNonEmpty [] later = later := by
  cases later <;> rfl

theorem lastNonEmpty_of_ne_nil {α : Type} (earlier : List α) {later : List α} (h : later ≠ []) :
    lastNonEmpty earlier later = later := by
  rw [lastNonEmpty, if_neg (by simpa using h)]

/-- What the merged list holds is in one of the lists. -/
theorem mem_lastNonEmpty {α : Type} {a : α} {earlier later : List α}
    (h : a ∈ lastNonEmpty earlier later) : a ∈ earlier ∨ a ∈ later := by
  unfold lastNonEmpty at h
  split at h
  · exact Or.inl h
  · exact Or.inr h

namespace Entries

/-- A package has a source exactly when it is among the packages. -/
theorem isSome_source?_iff {es : Entries} {package : String} :
    (es.source? package).isSome ↔ package ∈ es.packages := by
  rw [source?, Option.isSome_map, isSome_get?_iff]

/-- A package that is not among the packages has no entry. -/
theorem get?_of_notMem {es : Entries} {package : String} (h : package ∉ es.packages) :
    es.get? package = none := by
  rwa [← isSome_get?_iff, Option.not_isSome_iff_eq_none] at h

theorem get?_cons (e : Entry) (rest : Entries) (package : String) :
    get? (e :: rest) package = if e.package = package then some e else rest.get? package := by
  rw [get?, List.find?_cons]
  by_cases h : e.package = package
  · simp [h]
  · simp [h, get?]

/-- Changing an entry changes the entry of its package and no other. -/
theorem get?_modify (es : Entries) (fresh : Entry) {change : Entry → Entry}
    (hchange : ∀ e, (change e).package = e.package) (package : String) :
    (es.modify fresh change).get? package =
      if fresh.package = package then some (change ((es.get? package).getD fresh))
      else es.get? package := by
  induction es with
  | nil => simp [modify, hchange, get?]
  | cons e rest ih =>
    by_cases he : e.package = fresh.package
    · simp only [modify, he, if_true, get?_cons, hchange]
      split <;> simp
    · simp only [modify, he, if_false, get?_cons, ih]
      by_cases hp : e.package = package
      · have hfresh : fresh.package ≠ package := fun h => he (hp.trans h.symm)
        simp [hp, hfresh]
      · simp [hp]

/-- Changing an entry adds its package at the end, unless it is there already. -/
theorem packages_modify (es : Entries) (fresh : Entry) {change : Entry → Entry}
    (hchange : ∀ e, (change e).package = e.package) :
    (es.modify fresh change).packages =
      if fresh.package ∈ es.packages then es.packages else es.packages ++ [fresh.package] := by
  induction es with
  | nil => simp [modify, packages, hchange]
  | cons e rest ih =>
    by_cases he : e.package = fresh.package
    · simp [modify, he, packages_cons, hchange]
    · by_cases hm : fresh.package ∈ packages rest
      · simp [modify, he, packages_cons, ih, hm]
      · simp [modify, he, packages_cons, ih, hm, Ne.symm he]

/-- Changing an entry keeps each package once. -/
theorem nodup_packages_modify {es : Entries} (fresh : Entry) {change : Entry → Entry}
    (hchange : ∀ e, (change e).package = e.package) (h : es.packages.Nodup) :
    (es.modify fresh change).packages.Nodup := by
  rw [packages_modify es fresh hchange]
  split
  · exact h
  · next hn => exact List.nodup_append.mpr ⟨h, by simp, by rintro a ha b hb rfl; simp_all⟩

/-- Merging an entry changes the entry of its package. -/
theorem put_eq_modify (es : Entries) (later : Entry) :
    es.put later = es.modify later (·.override later) := by
  induction es with
  | nil => rw [put, modify, Entry.override_self]
  | cons e rest ih => rw [put, modify, ih]

/-- Merging entries keeps each package once. -/
theorem nodup_packages_putAll {es : Entries} (later : List Entry) (h : es.packages.Nodup) :
    (es.putAll later).packages.Nodup := by
  induction later generalizing es with
  | nil => exact h
  | cons e rest ih => exact ih (nodup_packages_put e h)

/-- Merging entries of different packages puts each over the entry of its package. -/
theorem get?_putAll (es : Entries) {later : Entries} (hlater : later.packages.Nodup)
    (package : String) :
    (es.putAll later).get? package = overrideOption (es.get? package) (later.get? package) := by
  induction later generalizing es with
  | nil => rfl
  | cons e rest ih =>
    rw [packages_cons, List.nodup_cons] at hlater
    have hstep : (es.putAll (e :: rest)) = (es.put e).putAll rest := rfl
    rw [hstep, ih _ hlater.2, get?_put, get?_cons]
    by_cases he : e.package = package
    · have hrest : get? rest package = none := get?_of_notMem (he ▸ hlater.1)
      rw [if_pos he, if_pos he, hrest]
      cases es.get? package <;> rfl
    · rw [if_neg he, if_neg he]

/-- Merging entries merges each list. -/
theorem list_putAll (es : Entries) {later : Entries} (hlater : later.packages.Nodup)
    (package : String) (field : ListField) :
    list (es.putAll later) package field =
      lastNonEmpty (es.list package field) (later.list package field) := by
  rw [list, list, list, get?_putAll es hlater]
  cases es.get? package with
  | none =>
    cases later.get? package with
    | none => rfl
    | some l => exact (nil_lastNonEmpty _).symm
  | some e =>
    cases later.get? package with
    | none => rfl
    | some l => exact Entry.list_override e l field

/-- After merging entries a package has its later source, if there is one. -/
theorem source?_putAll (es : Entries) {later : Entries} (hlater : later.packages.Nodup)
    (package : String) :
    source? (es.putAll later) package = (later.source? package).or (es.source? package) := by
  rw [source?, source?, source?, get?_putAll es hlater]
  cases es.get? package <;> cases later.get? package <;> rfl

/-- Merging an entry merges the lists of its package and no other. -/
theorem list_put (es : Entries) (later : Entry) (package : String) (field : ListField) :
    list (es.put later) package field =
      if later.package = package then lastNonEmpty (es.list package field) (later.list field)
      else es.list package field := by
  rw [list, list, get?_put]
  by_cases h : later.package = package
  · rw [if_pos h, if_pos h]
    cases es.get? package with
    | none => exact (nil_lastNonEmpty _).symm
    | some e => exact Entry.list_override e later field
  · rw [if_neg h, if_neg h]

/-- Merging an entry gives its package its source. -/
theorem source?_put (es : Entries) (later : Entry) (package : String) :
    source? (es.put later) package =
      if later.package = package then some later.provenance else es.source? package := by
  rw [source?, source?, get?_put]
  by_cases h : later.package = package
  · rw [if_pos h, if_pos h]
    cases es.get? package <;> rfl
  · rw [if_neg h, if_neg h]

/-- Adding to the lists of an entry adds to the lists of its package and no other. -/
theorem list_modify (es : Entries) {fresh : Entry} {change : Entry → Entry}
    {added : (field : ListField) → List field.Item}
    (hchange : ∀ e, (change e).package = e.package) (hfresh : ∀ field, fresh.list field = [])
    (hadded : ∀ e field, (change e).list field = e.list field ++ added field)
    (package : String) (field : ListField) :
    (es.modify fresh change).list package field =
      es.list package field ++ if fresh.package = package then added field else [] := by
  rw [list, list, get?_modify es fresh hchange]
  by_cases h : fresh.package = package
  · rw [if_pos h, if_pos h]
    cases es.get? package with
    | none => simp only [Option.getD_none, hadded, hfresh]
    | some e => simp only [Option.getD_some, hadded]
  · rw [if_neg h, if_neg h, List.append_nil]

/-- Changing an entry leaves its source as it is, and gives a package without one its source. -/
theorem source?_modify (es : Entries) {fresh : Entry} {change : Entry → Entry}
    (hchange : ∀ e, (change e).package = e.package)
    (hsource : ∀ e, (change e).provenance = e.provenance) (package : String) :
    (es.modify fresh change).source? package =
      (es.source? package).or (if fresh.package = package then some fresh.provenance else none) := by
  rw [source?, source?, get?_modify es fresh hchange]
  by_cases h : fresh.package = package
  · rw [if_pos h, if_pos h, Option.map_some, hsource]
    cases es.get? package <;> rfl
  · rw [if_neg h, if_neg h, Option.or_none]

end Entries

end HostConfig
