import HostConfig.Json.Value

/-!
# JSON values as trees

Properties of all values are proved from the items of arrays and the members of objects on. What is
written of these, and what sorting makes of them, is told by what is made of each.
-/

namespace HostConfig.Json

/-- Induction over values: the items of an array and the values in an object come first. -/
@[elab_as_elim]
theorem Value.induction {motive : Value → Prop} (v : Value) (null : motive .null)
    (bool : ∀ b, motive (.bool b)) (int : ∀ n, motive (.int n)) (str : ∀ s, motive (.str s))
    (arr : ∀ items, (∀ v ∈ items, motive v) → motive (.arr items))
    (obj : ∀ members, (∀ m ∈ members, motive m.2) → motive (.obj members)) : motive v :=
  @Value.rec motive (fun items => ∀ v ∈ items, motive v) (fun members => ∀ m ∈ members, motive m.2)
    (fun m => motive m.2) null bool int str arr obj (fun _ h => absurd h List.not_mem_nil)
    (fun _ _ hv hitems => List.forall_mem_cons.mpr ⟨hv, hitems⟩)
    (fun _ h => absurd h List.not_mem_nil)
    (fun _ _ hm hmembers => List.forall_mem_cons.mpr ⟨hm, hmembers⟩) (fun _ _ hv => hv) v

/-- The compact texts of values are the texts of each. -/
theorem compactItems_eq_map (items : List Value) :
    compactItems items = items.map Value.compact := by
  induction items with
  | nil => rfl
  | cons v items ih => rw [compactItems, ih, List.map_cons]

/-- The compact texts of members are a key and a text of each. -/
theorem compactMembers_eq_map (members : List (String × Value)) :
    compactMembers members = members.map fun m => quote m.1 ++ ':' :: m.2.compact := by
  induction members with
  | nil => rfl
  | cons m members ih => rw [compactMembers, ih, List.map_cons]

/-- The texts of values on lines are the texts of each. -/
theorem prettyItems_eq_map (level : Nat) (items : List Value) :
    prettyItems level items = items.map (Value.pretty level) := by
  induction items with
  | nil => rfl
  | cons v items ih => rw [prettyItems, ih, List.map_cons]

/-- The texts of members on lines are a key and a text of each. -/
theorem prettyMembers_eq_map (level : Nat) (members : List (String × Value)) :
    prettyMembers level members =
      members.map fun m => quote m.1 ++ ':' :: ' ' :: m.2.pretty level := by
  induction members with
  | nil => rfl
  | cons m members ih => rw [prettyMembers, ih, List.map_cons]

/-- Sorting goes into each item. -/
theorem sortedItems_eq_map (items : List Value) : sortedItems items = items.map Value.sorted := by
  induction items with
  | nil => rfl
  | cons v items ih => rw [sortedItems, ih, List.map_cons]

/-- Sorting goes into the value of each member. -/
theorem sortedMembers_eq_map (members : List (String × Value)) :
    sortedMembers members = members.map fun m => (m.1, m.2.sorted) := by
  induction members with
  | nil => rfl
  | cons m members ih => rw [sortedMembers, ih, List.map_cons]

end HostConfig.Json
