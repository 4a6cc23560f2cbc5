import HostConfig.Proofs.Json.Tree
import Mathlib.Data.List.Forall2
import Mathlib.Data.List.Nodup

/-!
# The order of members

Two values in which no object holds a key twice differ in the order of members alone exactly when
they are the same once sorted. An object is told by its keys and the value under each of them:
sorting permutes the members, and no two arrangements of members with distinct keys are both in
order.
-/

namespace HostConfig.Json

namespace Value

/-- No object in a value holds a key twice. -/
inductive Keyed : Value → Prop
  | null : Keyed .null
  | bool (b : Bool) : Keyed (.bool b)
  | int (n : Int) : Keyed (.int n)
  | str (s : String) : Keyed (.str s)
  | arr {items : List Value} (hitems : ∀ v ∈ items, Keyed v) : Keyed (.arr items)
  | obj {members : List (String × Value)} (hkeys : (members.map (·.1)).Nodup)
      (hmembers : ∀ m ∈ members, Keyed m.2) : Keyed (.obj members)

/-- Two values are the same apart from the order of members, at every depth. -/
inductive Alike : Value → Value → Prop
  | null : Alike .null .null
  | bool (b : Bool) : Alike (.bool b) (.bool b)
  | int (n : Int) : Alike (.int n) (.int n)
  | str (s : String) : Alike (.str s) (.str s)
  | arr {xs ys : List Value} (hlength : xs.length = ys.length)
      (hitems : ∀ p ∈ xs.zip ys, Alike p.1 p.2) : Alike (.arr xs) (.arr ys)
  | obj {ms ns : List (String × Value)}
      (hkeys : ∀ key, key ∈ ms.map (·.1) ↔ key ∈ ns.map (·.1))
      (hmembers : ∀ m ∈ ms, ∀ n ∈ ns, m.1 = n.1 → Alike m.2 n.2) : Alike (.obj ms) (.obj ns)

end Value

variable {v w : Value} {xs ys : List Value} {ms ns : List (String × Value)}

theorem Value.alike_arr_iff : (Value.arr xs).Alike (.arr ys) ↔
    xs.length = ys.length ∧ ∀ p ∈ xs.zip ys, p.1.Alike p.2 := by
  constructor
  · rintro ⟨⟩
    exact ⟨by assumption, by assumption⟩
  · intro h
    exact .arr h.1 h.2

theorem Value.alike_obj_iff : (Value.obj ms).Alike (.obj ns) ↔
    (∀ key, key ∈ ms.map (·.1) ↔ key ∈ ns.map (·.1)) ∧
      ∀ m ∈ ms, ∀ n ∈ ns, m.1 = n.1 → m.2.Alike n.2 := by
  constructor
  · rintro ⟨⟩
    exact ⟨by assumption, by assumption⟩
  · intro h
    exact .obj h.1 h.2

/-- Members with their values sorted. -/
def sortedEach (ms : List (String × Value)) : List (String × Value) :=
  ms.map fun m => (m.1, m.2.sorted)

theorem Value.sorted_arr (items : List Value) :
    (Value.arr items).sorted = .arr (items.map Value.sorted) := by
  rw [sorted, sortedItems_eq_map]

theorem Value.sorted_obj (ms : List (String × Value)) :
    (Value.obj ms).sorted = .obj (sortMembers (sortedEach ms)) := by
  rw [sorted, sortedMembers_eq_map, sortedEach]

/-- Sorting the values of members leaves their keys as they are. -/
theorem keys_sortedEach (ms : List (String × Value)) :
    (sortedEach ms).map (·.1) = ms.map (·.1) := by
  rw [sortedEach, List.map_map]
  rfl

/-- Members with distinct keys are the same if their keys are. -/
theorem eq_of_key_eq (hkeys : (ms.map (·.1)).Nodup) {m n : String × Value} (hm : m ∈ ms)
    (hn : n ∈ ms) (h : m.1 = n.1) : m = n :=
  List.inj_on_of_nodup_map hkeys hm hn h

/-- Sorting permutes members. -/
theorem sortMembers_perm (ms : List (String × Value)) : (sortMembers ms).Perm ms :=
  List.mergeSort_perm _ _

/-- Sorted members stand in the order of their keys. -/
theorem pairwise_sortMembers (ms : List (String × Value)) :
    (sortMembers ms).Pairwise fun m n => m.1 ≤ n.1 := by
  have hpairwise : (sortMembers ms).Pairwise fun m n => decide (m.1 ≤ n.1) = true := by
    apply List.pairwise_mergeSort
    · intro a b c hab hbc
      exact decide_eq_true (String.le_trans (of_decide_eq_true hab) (of_decide_eq_true hbc))
    · intro a b
      simpa using String.le_total a.1 b.1
  simpa only [decide_eq_true_eq] using hpairwise

/-- Members with distinct keys are sorted in one way only. -/
theorem sortMembers_eq_iff (hkeys : (ms.map (·.1)).Nodup) :
    sortMembers ms = sortMembers ns ↔ ms.Perm ns := by
  constructor
  · intro h
    have hsorted := sortMembers_perm ms
    rw [h] at hsorted
    exact hsorted.symm.trans (sortMembers_perm ns)
  · intro hperm
    have hsorted : (sortMembers ms).Perm (sortMembers ns) :=
      ((sortMembers_perm ms).trans hperm).trans (sortMembers_perm ns).symm
    refine List.Perm.eq_of_pairwise ?_ (pairwise_sortMembers ms) (pairwise_sortMembers ns) hsorted
    intro m n hm hn hmn hnm
    have hm' : m ∈ ms := (sortMembers_perm ms).mem_iff.mp hm
    have hn' : n ∈ ms := hperm.mem_iff.mpr ((sortMembers_perm ns).mem_iff.mp hn)
    exact eq_of_key_eq hkeys hm' hn' (String.le_antisymm hmn hnm)

/-- Each member is found among others with its value sorted, if these have its key and the same
value under it once sorted. -/
theorem sortedEach_subset (hkeys : ∀ key ∈ ms.map (·.1), key ∈ ns.map (·.1))
    (hvalues : ∀ m ∈ ms, ∀ n ∈ ns, m.1 = n.1 → m.2.sorted = n.2.sorted) :
    sortedEach ms ⊆ sortedEach ns := by
  intro p hp
  obtain ⟨m, hm, rfl⟩ := List.mem_map.mp hp
  obtain ⟨n, hn, hkey⟩ := List.mem_map.mp (hkeys m.1 (List.mem_map_of_mem hm))
  rw [hvalues m hm n hn hkey.symm, ← hkey]
  exact List.mem_map_of_mem hn

/-- Members with distinct keys are a permutation of others once their values are sorted exactly when
the keys are the same, and values under the same key are the same once sorted. -/
theorem sortedEach_perm_iff (hms : (ms.map (·.1)).Nodup) (hns : (ns.map (·.1)).Nodup) :
    (sortedEach ms).Perm (sortedEach ns) ↔
      (∀ key, key ∈ ms.map (·.1) ↔ key ∈ ns.map (·.1)) ∧
        ∀ m ∈ ms, ∀ n ∈ ns, m.1 = n.1 → m.2.sorted = n.2.sorted := by
  constructor
  · intro hperm
    refine ⟨fun key => ?keys, fun m hm n hn hkey => ?values⟩
    case keys =>
      rw [← keys_sortedEach ms, ← keys_sortedEach ns]
      exact (hperm.map _).mem_iff
    case values =>
      have hmem : (m.1, m.2.sorted) ∈ sortedEach ns := hperm.mem_iff.mp (List.mem_map_of_mem hm)
      obtain ⟨n', hn', heq⟩ := List.mem_map.mp hmem
      obtain ⟨hkey', hvalue⟩ := Prod.mk.inj heq
      rw [← hvalue, eq_of_key_eq hns hn' hn (hkey'.trans hkey)]
  · rintro ⟨hkeys, hvalues⟩
    have hnodup : (sortedEach ms).Nodup := .of_map _ (keys_sortedEach ms ▸ hms)
    have hnodup' : (sortedEach ns).Nodup := .of_map _ (keys_sortedEach ns ▸ hns)
    rw [List.perm_ext_iff_of_nodup hnodup hnodup']
    have hback : ∀ n ∈ ns, ∀ m ∈ ms, n.1 = m.1 → n.2.sorted = m.2.sorted :=
      fun n hn m hm hkey => (hvalues m hm n hn hkey.symm).symm
    intro p
    constructor
    · exact fun hp => sortedEach_subset (fun key => (hkeys key).mp) hvalues hp
    · exact fun hp => sortedEach_subset (fun key => (hkeys key).mpr) hback hp

/-- Values are the same one after the other once sorted. -/
theorem map_sorted_eq_iff : xs.map Value.sorted = ys.map Value.sorted ↔
    xs.length = ys.length ∧ ∀ p ∈ xs.zip ys, p.1.sorted = p.2.sorted := by
  rw [← List.forall₂_eq_eq_eq, List.forall₂_map_left_iff, List.forall₂_map_right_iff,
    List.forall₂_iff_zip, Prod.forall]

/-- Values without repeated keys are the same once sorted exactly when they are alike. -/
theorem Value.sorted_eq_iff (hv : v.Keyed) (hw : w.Keyed) : v.sorted = w.sorted ↔ v.Alike w := by
  induction hv generalizing w with
  | null =>
    cases hw with
    | null => exact iff_of_true rfl .null
    | _ => exact iff_of_false (by simp [sorted]) (by rintro ⟨⟩)
  | bool b =>
    cases hw with
    | bool c =>
      change Value.bool b = .bool c ↔ _
      exact ⟨fun h => h ▸ .bool b, fun h => by cases h; rfl⟩
    | _ => exact iff_of_false (by simp [sorted]) (by rintro ⟨⟩)
  | int n =>
    cases hw with
    | int m =>
      change Value.int n = .int m ↔ _
      exact ⟨fun h => h ▸ .int n, fun h => by cases h; rfl⟩
    | _ => exact iff_of_false (by simp [sorted]) (by rintro ⟨⟩)
  | str s =>
    cases hw with
    | str t =>
      change Value.str s = .str t ↔ _
      exact ⟨fun h => h ▸ .str s, fun h => by cases h; rfl⟩
    | _ => exact iff_of_false (by simp [sorted]) (by rintro ⟨⟩)
  | @arr xs _ ih =>
    cases hw with
    | @arr ys hys =>
      rw [sorted_arr, sorted_arr, Value.arr.injEq, map_sorted_eq_iff, alike_arr_iff]
      refine and_congr_right fun _ => forall₂_congr fun p hp => ?_
      exact ih p.1 (List.of_mem_zip hp).1 (hys p.2 (List.of_mem_zip hp).2)
    | _ => exact iff_of_false (by simp [sorted]) (by rintro ⟨⟩)
  | @obj ms hms _ ih =>
    cases hw with
    | @obj ns hns hvalues =>
      have hkeys : ((sortedEach ms).map (·.1)).Nodup := keys_sortedEach ms ▸ hms
      rw [sorted_obj, sorted_obj, Value.obj.injEq, sortMembers_eq_iff hkeys,
        sortedEach_perm_iff hms hns, alike_obj_iff]
      refine and_congr_right fun _ => forall₂_congr fun m hm => forall₂_congr fun n hn => ?_
      exact imp_congr_right fun _ => ih m hm (hvalues n hn)
    | _ => exact iff_of_false (by simp [sorted]) (by rintro ⟨⟩)

end HostConfig.Json
