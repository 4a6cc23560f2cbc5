import HostConfig.Proofs.Entries.Merging
import HostConfig.Proofs.Occurrence
import HostConfig.Proofs.Payload.TruthWord

/-!
# Properties in the order of their keys

Properties that are set one after the other hold each key once, where it is set first, with the
value that is set last. Keys and values determine them: nothing else is left open.
-/

namespace HostConfig.Payload

variable {props other : Properties} {pairs : List (List Char × List Char)} {key : String}
  {value : PropertyValue}

/-- The value of a key in a list of assignments is what its last one means. -/
def IsLastValue (pairs : List (List Char × List Char)) (key : String) (value : PropertyValue) :
    Prop :=
  ∃ pair, LastWith (·.1 = key.toList) pairs pair ∧ Denotes pair.2 value

/-- Properties hold what pairs of a key and a text assign: each key once, in the order of its first
pair, and with what the text of its last pair denotes. -/
structure Properties.IsSetBy (props : Properties) (pairs : List (List Char × List Char)) :
    Prop where
  keys_eq : props.map (·.1) = (pairs.map fun pair => String.ofList pair.1).eraseDups
  mem_iff : ∀ key value, (key, value) ∈ props ↔ IsLastValue pairs key value

/-- Properties give a key the value that the first one with the key has. -/
def Properties.Gives (props : Properties) (key : String) (value : PropertyValue) : Prop :=
  FirstFailing (·.1 ≠ key) props (key, value)

/-- Properties give a key a value, or else it is the default. -/
def Properties.GivesOr (props : Properties) (key : String) (default value : PropertyValue) : Prop :=
  props.Gives key value ∨ (∀ given, ¬ props.Gives key given) ∧ value = default

/-- Properties set one after the other. -/
def Properties.setAll (props : Properties) (pairs : List (List Char × List Char)) : Properties :=
  pairs.foldl (fun props pair => props.set (String.ofList pair.1) (.ofText pair.2)) props

/-- A new key comes last. -/
theorem Properties.keys_set (props : Properties) (key : String) (value : PropertyValue) :
    (Properties.set key value props).map (·.1) =
      if key ∈ props.map (·.1) then props.map (·.1) else props.map (·.1) ++ [key] := by
  induction props with
  | nil => rfl
  | cons p rest ih =>
    by_cases hp : p.1 = key
    · simp [Properties.set, hp]
    · simp only [Properties.set, if_neg hp, List.map_cons, ih, List.mem_cons, Ne.symm hp, false_or]
      by_cases hrest : key ∈ rest.map (·.1)
      · rw [if_pos hrest, if_pos hrest]
      · rw [if_neg hrest, if_neg hrest, List.cons_append]

/-- Properties that are set one after the other hold each key once, where it is set first. -/
theorem Properties.keys_setAll (pairs : List (List Char × List Char)) :
    (Properties.setAll [] pairs).map (·.1) =
      (pairs.map fun pair => String.ofList pair.1).eraseDups := by
  induction pairs using List.reverseRecOn with
  | nil => rfl
  | append_singleton pairs pair ih =>
    have hlast : Properties.setAll [] (pairs ++ [pair]) = Properties.set (String.ofList pair.1)
        (.ofText pair.2) (Properties.setAll [] pairs) := List.foldl_concat _ _ _ _
    rw [hlast, keys_set, List.map_append, List.map_singleton, eraseDups_concat, ih]
    simp only [List.mem_eraseDups]

/-- A property that is set has its value, and no other property changes. -/
theorem Properties.get?_set (props : Properties) (key other : String) (value : PropertyValue) :
    (Properties.set key value props).get? other =
      if key = other then some value else props.get? other := by
  induction props with
  | nil => by_cases h : key = other <;> simp [Properties.set, Properties.get?, h]
  | cons p rest ih =>
    simp only [Properties.get?] at ih ⊢
    by_cases hp : p.1 = key
    · by_cases h : key = other <;> simp [Properties.set, hp, h]
    · rw [Properties.set, if_neg hp]
      by_cases hother : p.1 = other
      · simp [hother, Ne.symm (hother ▸ hp)]
      · simp [hother, ih]

/-- Properties that are set one after the other have their last values. -/
theorem Properties.get?_setAll_eq_some_iff :
    (Properties.setAll [] pairs).get? key = some value ↔ IsLastValue pairs key value := by
  induction pairs using List.reverseRecOn with
  | nil => simp [IsLastValue, Properties.setAll, Properties.get?]
  | append_singleton pairs pair ih =>
    have hlast : Properties.setAll [] (pairs ++ [pair]) = Properties.set (String.ofList pair.1)
        (.ofText pair.2) (Properties.setAll [] pairs) := List.foldl_concat _ _ _ _
    have hkey : String.ofList pair.1 = key ↔ pair.1 = key.toList := by
      rw [← String.toList_inj, String.toList_ofList]
    simp only [hlast, get?_set, hkey, IsLastValue, lastWith_concat]
    split
    · next hpair => simp [hpair, ofText_eq_iff]
    · next hpair => simpa [hpair, IsLastValue] using ih

/-- What properties give a key is what is looked up. -/
theorem Properties.gives_iff : props.Gives key value ↔ props.get? key = some value := by
  unfold Gives
  induction props with
  | nil => simp [Properties.get?]
  | cons p rest ih =>
    obtain ⟨first, given⟩ := p
    simp only [Properties.get?] at ih ⊢
    rw [firstFailing_cons, ih]
    by_cases hkey : first = key
    · simp [hkey, eq_comm]
    · simp [hkey]

/-- What properties give a key, or else the default, is what is looked up with that default. -/
theorem Properties.givesOr_iff {default : PropertyValue} :
    props.GivesOr key default value ↔ value = (props.get? key).getD default := by
  simp only [GivesOr, gives_iff]
  cases props.get? key <;> simp [eq_comm]

/-- Where each key stands once, a property has the value that stands with its key. -/
theorem Properties.get?_eq_some_iff_mem (h : (props.map (·.1)).Nodup) :
    props.get? key = some value ↔ (key, value) ∈ props := by
  induction props with
  | nil => simp [Properties.get?]
  | cons p rest ih =>
    rw [List.map_cons, List.nodup_cons] at h
    obtain ⟨hp, hrest⟩ := h
    have hlater := ih hrest
    obtain ⟨first, given⟩ := p
    simp only [Properties.get?] at hlater ⊢
    by_cases hkey : first = key
    · have hnot : (key, value) ∉ rest := fun hmem => hp (List.mem_map.mpr ⟨_, hmem, hkey.symm⟩)
      simp [hkey, hnot, eq_comm]
    · simp [hkey, Ne.symm hkey, hlater]

/-- Properties with the same keys are the same if each one of the first is one of the others. -/
theorem Properties.eq_of_subset (h : (props.map (·.1)).Nodup)
    (hkeys : props.map (·.1) = other.map (·.1)) (hsubset : props ⊆ other) : props = other := by
  induction props generalizing other with
  | nil => exact (List.map_eq_nil_iff.mp hkeys.symm).symm
  | cons p rest ih =>
    cases other with
    | nil => cases hkeys
    | cons q others =>
      rw [List.map_cons, List.nodup_cons] at h
      obtain ⟨hp, hrest⟩ := h
      obtain ⟨-, hlater⟩ := List.cons.inj hkeys
      obtain rfl : p = q := by
        rcases List.mem_cons.mp (hsubset List.mem_cons_self) with hpq | hmem
        · exact hpq
        · exact absurd (hlater ▸ List.mem_map_of_mem hmem) hp
      have hothers : rest ⊆ others := fun r hr => by
        rcases List.mem_cons.mp (hsubset (List.mem_cons_of_mem p hr)) with hrp | hmem
        · exact absurd (hrp ▸ List.mem_map_of_mem hr) hp
        · exact hmem
      rw [ih hrest hlater hothers]

/-- Setting properties one after the other is the only way to hold what they assign. -/
theorem Properties.isSetBy_iff : props.IsSetBy pairs ↔ props = Properties.setAll [] pairs := by
  have hkeys := Properties.keys_setAll pairs
  have hnodup : ((Properties.setAll [] pairs).map (·.1)).Nodup := hkeys ▸ nodup_eraseDups _
  have hmem : ∀ key value, (key, value) ∈ Properties.setAll [] pairs ↔
      IsLastValue pairs key value := fun key value => by
    rw [← get?_eq_some_iff_mem hnodup, get?_setAll_eq_some_iff]
  constructor
  · intro hset
    have hsame : props.map (·.1) = (Properties.setAll [] pairs).map (·.1) := by
      rw [hset.keys_eq, hkeys]
    refine eq_of_subset (hsame ▸ hnodup) hsame fun p hp => ?_
    exact (hmem p.1 p.2).mpr ((hset.mem_iff p.1 p.2).mp hp)
  · rintro rfl
    exact ⟨hkeys, hmem⟩

end HostConfig.Payload
