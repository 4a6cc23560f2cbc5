import HostConfig.Journal
import Mathlib.Data.List.Infix

/-!
# Brackets in a journal

That a group is entered is an opening bracket, and that it is left is a closing one. Reading brackets
keeps the groups that are open, the innermost one first: a group can be opened unless it is open, and
only the innermost one can be closed. So the open groups are distinct at every point, and whatever is
open in the end could still be closed.
-/

namespace HostConfig

/-- A group is entered or left. -/
inductive Bracket
  | opens (group : String)
  | closes (group : String)
  deriving DecidableEq, Repr

/-- The bracket that a notice is. -/
def Notice.bracket? : Notice → Option Bracket
  | .groupEntered group _ => some (.opens group)
  | .groupLeft group _ => some (.closes group)
  | _ => none

/-- The groups that are open after brackets, the innermost one first, given those that are open
before them. There are none if a bracket is out of place. -/
def openAfter : List String → List Bracket → Option (List String)
  | groups, [] => some groups
  | groups, .opens group :: rest =>
    if group ∈ groups then none else openAfter (group :: groups) rest
  | [], .closes _ :: _ => none
  | innermost :: groups, .closes group :: rest =>
    if group = innermost then openAfter groups rest else none

/-- Brackets match, and close all that they open. -/
structure Balanced (trace : List Bracket) : Prop where
  closed : openAfter [] trace = some []
  nodup : ∀ before, before <+: trace → ∃ groups, openAfter [] before = some groups ∧ groups.Nodup

variable {groups last : List String} {group : String} {trace : List Bracket}

/-- A group that is not open can be opened. -/
theorem openAfter_opens (h : group ∉ groups) (rest : List Bracket) :
    openAfter groups (.opens group :: rest) = openAfter (group :: groups) rest := by
  rw [openAfter, if_neg h]

/-- The innermost group can be closed. -/
theorem openAfter_closes (group : String) (groups : List String) (rest : List Bracket) :
    openAfter (group :: groups) (.closes group :: rest) = openAfter groups rest := by
  rw [openAfter, if_pos rfl]

/-- Brackets are read one part after the other. -/
theorem openAfter_append (groups : List String) (xs ys : List Bracket) :
    openAfter groups (xs ++ ys) = (openAfter groups xs).bind (openAfter · ys) := by
  fun_induction openAfter groups xs with
  | case1 => rfl
  | case2 groups group rest hopen => simp [openAfter, hopen]
  | case3 groups group rest hopen ih => simpa [openAfter, hopen] using ih
  | case4 => rfl
  | case5 groups group rest ih => simpa [openAfter] using ih
  | case6 innermost groups group rest hother => simp [openAfter, hother]

/-- Groups that are open stay distinct. -/
theorem nodup_of_openAfter (h : openAfter groups trace = some last) (hgroups : groups.Nodup) :
    last.Nodup := by
  fun_induction openAfter groups trace with
  | case1 =>
    cases h
    exact hgroups
  | case2 | case4 | case6 => cases h
  | case3 groups group rest hopen ih => exact ih h (List.nodup_cons.mpr ⟨hopen, hgroups⟩)
  | case5 groups group rest ih => exact ih h (List.nodup_cons.mp hgroups).2

/-- Open groups can be closed one after the other. -/
theorem openAfter_map_closes (inner groups : List String) :
    openAfter (inner ++ groups) (inner.map .closes) = some groups := by
  induction inner with
  | nil => rfl
  | cons group inner ih =>
    rw [List.cons_append, List.map_cons, openAfter_closes, ih]

/-- Brackets that leave nothing open are balanced. -/
theorem balanced_of_openAfter (h : openAfter [] trace = some []) : Balanced trace where
  closed := h
  nodup := by
    rintro before ⟨rest, rfl⟩
    rw [openAfter_append] at h
    obtain ⟨groups, hbefore, -⟩ := Option.bind_eq_some_iff.mp h
    exact ⟨groups, hbefore, nodup_of_openAfter hbefore List.nodup_nil⟩

/-- Brackets that are in place begin a balanced trace. -/
theorem exists_balanced_append (h : openAfter [] trace = some groups) :
    ∃ more, Balanced (trace ++ more) := by
  refine ⟨groups.map .closes, balanced_of_openAfter ?_⟩
  have hclose := openAfter_map_closes groups []
  rw [List.append_nil] at hclose
  rw [openAfter_append, h, Option.bind_some, hclose]

end HostConfig
