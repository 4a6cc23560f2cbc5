import HostConfig.Text.Blank
import HostConfig.Proofs.Text.Cutting
import Mathlib.Data.List.DropRight

/-!
# Parts of a line

What a token carries stands on one line and has no blanks at its end. Then it holds no line break,
and none of what a pattern would tolerate behind its last character plays a part in it.
-/

namespace HostConfig

open HostConfig.Text

/-- A text on one line has no final break. -/
theorem Text.withoutFinalBreak_of_notMem {cs : List Char} (h : '\n' ∉ cs) :
    withoutFinalBreak cs = cs := by
  rw [withoutFinalBreak, if_neg fun hlast => h (List.mem_of_getLast? hlast)]

/-- Trimming at the end twice does no more than once. -/
theorem Text.trimEnd_trimEnd (cs : List Char) : trimEnd (trimEnd cs) = trimEnd cs :=
  List.rdropWhile_idempotent isBlank cs

/-- Trimming a joined text at its end trims the back part, unless nothing is left of that. -/
theorem Text.trimEnd_append (xs ys : List Char) :
    trimEnd (xs ++ ys) = if trimEnd ys = [] then trimEnd xs else xs ++ trimEnd ys := by
  rw [trimEnd, trimEnd, trimEnd, List.reverse_append, List.dropWhile_append]
  by_cases h : (ys.reverse.dropWhile isBlank) = []
  · simp [h]
  · simp [h]

/-- Blanks at the end of a text are trimmed off. -/
theorem Text.trimEnd_append_of_forall (cs : List Char) {blanks : List Char}
    (hblanks : ∀ c ∈ blanks, isBlank c) : trimEnd (cs ++ blanks) = trimEnd cs := by
  have hnone : trimEnd blanks = [] := List.rdropWhile_eq_nil_iff.mpr hblanks
  rw [trimEnd_append, if_pos hnone]

/-- What trailing blanks are trimmed from and these blanks make up a text. -/
theorem Text.exists_append_blanks (cs : List Char) :
    ∃ blanks, (∀ c ∈ blanks, isBlank c) ∧ trimEnd cs ++ blanks = cs := by
  refine ⟨(cs.reverse.takeWhile isBlank).reverse, fun c hc => ?_, ?_⟩
  · exact List.all_eq_true.mp List.all_takeWhile c (List.mem_reverse.mp hc)
  · rw [trimEnd, ← List.reverse_append, List.takeWhile_append_dropWhile, List.reverse_reverse]

/-- Nothing is trimmed off a text without blanks. -/
theorem Text.trimEnd_of_forall {cs : List Char} (h : ∀ c ∈ cs, isBlank c = false) :
    trimEnd cs = cs := by
  have hdrop : cs.reverse.dropWhile isBlank = cs.reverse := by
    cases hreverse : cs.reverse with
    | nil => rfl
    | cons c rest =>
      have hc : c ∈ cs := List.mem_reverse.mp (hreverse ▸ List.mem_cons_self)
      rw [List.dropWhile_cons_of_neg (by simp [h c hc])]
  rw [trimEnd, hdrop, List.reverse_reverse]

/-- A text keeps its end unless that is blank. -/
theorem Text.trimEnd_eq_self_iff {cs : List Char} :
    trimEnd cs = cs ↔ ∀ hne : cs ≠ [], ¬ isBlank (cs.getLast hne) :=
  List.rdropWhile_eq_self_iff

/-- Only blanks are trimmed at the start of a text that is trimmed to nothing. -/
theorem Text.trimStart_eq_nil_iff {cs : List Char} : trimStart cs = [] ↔ ∀ c ∈ cs, isBlank c :=
  List.dropWhile_eq_nil_iff

/-- Only blanks are trimmed of a text that is trimmed to nothing. -/
theorem Text.trim_eq_nil_iff {cs : List Char} : trim cs = [] ↔ ∀ c ∈ cs, isBlank c := by
  rw [trim]
  constructor
  · intro h
    rw [← trimStart_eq_nil_iff]
    by_contra hne
    have hblank := List.rdropWhile_eq_nil_iff.mp h _ (List.head_mem hne)
    exact Bool.false_ne_true ((List.head_dropWhile_not isBlank hne).symm.trans hblank)
  · intro h
    rw [trimStart_eq_nil_iff.mpr h]
    rfl

/-- What is left after trimming at the start is not trimmed there again. -/
theorem Text.trimStart_trim (cs : List Char) : trimStart (trim cs) = trim cs := by
  obtain ⟨tail, htail⟩ := trimEnd_isPrefix (trimStart cs)
  rw [trim]
  cases htrim : trimEnd (trimStart cs) with
  | nil => rfl
  | cons c rest =>
    have hstart : trimStart cs = c :: (rest ++ tail) := by rw [← htail, htrim, List.cons_append]
    have hagain : trimStart (c :: (rest ++ tail)) = c :: (rest ++ tail) := by
      rw [← hstart]
      exact List.dropWhile_idempotent _ _
    have hc : ¬ isBlank c := by
      rw [trimStart, List.dropWhile_eq_self_iff] at hagain
      exact hagain (Nat.zero_lt_succ _)
    rw [trimStart, List.dropWhile_cons_of_neg hc]

/-- Trimming twice does no more than once. -/
theorem Text.trim_trim (cs : List Char) : trim (trim cs) = trim cs := by
  rw [trim, trimStart_trim]
  exact trimEnd_trimEnd _

/-- The end of a text that keeps its end does so too. -/
theorem Text.trimEnd_of_isSuffix {cs part : List Char} (h : trimEnd cs = cs) (hpart : part <:+ cs) :
    trimEnd part = part := by
  rw [trimEnd_eq_self_iff] at h ⊢
  intro hne
  rw [hpart.getLast hne]
  exact h _

/-- A text that keeps its end does not only hold blanks. -/
theorem Text.trimStart_ne_nil {cs : List Char} (h : trimEnd cs = cs) (hne : cs ≠ []) :
    trimStart cs ≠ [] := by
  intro hnil
  have hblank := trimStart_eq_nil_iff.mp hnil _ (List.getLast_mem hne)
  exact trimEnd_eq_self_iff.mp h hne hblank

/-- A text that stands on one line, without blanks at its end. -/
structure IsLinePart (text : List Char) : Prop where
  notMem : '\n' ∉ text
  trimEnd_eq : trimEnd text = text

variable {text part : List Char}

namespace IsLinePart

/-- What stands at the end of such a text is such a text. -/
theorem of_isSuffix (h : IsLinePart text) (hpart : part <:+ text) : IsLinePart part where
  notMem hmem := h.notMem (hpart.subset hmem)
  trimEnd_eq := trimEnd_of_isSuffix h.trimEnd_eq hpart

/-- Such a text is trimmed at its start only. -/
theorem trim_eq (h : IsLinePart text) : trim text = trimStart text :=
  (h.of_isSuffix (trimStart_isSuffix text)).trimEnd_eq

/-- Such a text does not only hold blanks. -/
theorem trimStart_ne_nil (h : IsLinePart text) (hne : text ≠ []) : trimStart text ≠ [] :=
  Text.trimStart_ne_nil h.trimEnd_eq hne

end IsLinePart

/-- A trimmed part of a line. -/
theorem isLinePart_trim (h : '\n' ∉ text) : IsLinePart (trim text) where
  notMem hmem := h ((trim_isInfix text).subset hmem)
  trimEnd_eq := trimEnd_trimEnd _

end HostConfig
