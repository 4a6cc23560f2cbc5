import HostConfig.Proofs.Payload.LinePart
import HostConfig.Text.Comment
import Mathlib.Data.Nat.Find

/-!
# Where a comment begins

Which characters of a line are escaped or quoted is described by their positions alone, and a
comment begins at the first hash sign that is neither. The state that is kept while a line is
scanned is what the positions tell, so that a line is cut where its comment begins.

A position is the number of characters before it. The end of a line is a position as well.
-/

namespace HostConfig.Text

/-- The character at a position follows a backslash that is not escaped itself. -/
def IsEscaped (text : List Char) : Nat → Prop
  | 0 => False
  | i + 1 => text[i]? = some '\\' ∧ ¬ IsEscaped text i

/-- A character stands at a position and is not escaped. -/
def StandsAt (text : List Char) (c : Char) (i : Nat) : Prop :=
  text[i]? = some c ∧ ¬ IsEscaped text i

/-- A single or double quote opens a quotation unless it is escaped or an earlier quotation has not
ended before it. -/
def OpensQuotation (text : List Char) (mark : Char) (i : Nat) : Prop :=
  (mark = '\'' ∨ mark = '"') ∧ StandsAt text mark i ∧
    ∀ other j, j < i → OpensQuotation text other j → ∃ k, j < k ∧ k < i ∧ StandsAt text other k
termination_by i

/-- A position is behind a quote that opens a quotation, and before the next one that ends it. -/
def IsQuoted (text : List Char) (i : Nat) : Prop :=
  ∃ mark j, j < i ∧ OpensQuotation text mark j ∧ ∀ k, j < k → k ≤ i → ¬ StandsAt text mark k

/-- A hash sign begins a comment unless it is escaped or quoted. -/
def OpensComment (text : List Char) (i : Nat) : Prop :=
  text[i]? = some '#' ∧ ¬ IsEscaped text i ∧ ¬ IsQuoted text i

/-- What stands before the comment of a line. -/
inductive IsBeforeComment (text : List Char) : List Char → Prop
  | whole (hnone : ∀ i, ¬ OpensComment text i) : IsBeforeComment text text
  | upTo {i : Nat} (hopens : OpensComment text i) (hfirst : ∀ j < i, ¬ OpensComment text j) :
    IsBeforeComment text (text.take i)

/-- A position is behind a quote that opens a quotation, which has not ended before the position. -/
def InQuotation (text : List Char) (mark : Char) (i : Nat) : Prop :=
  ∃ j < i, OpensQuotation text mark j ∧ ∀ k, j < k → k < i → ¬ StandsAt text mark k

/-- The state at a position of a line. -/
def stateAt (text : List Char) (i : Nat) : QuoteState := (text.take i).foldl QuoteState.next .start

variable {text : List Char} {mark c : Char} {i : Nat} {s : QuoteState}

/-- A quote opens a quotation when it stands in none. -/
theorem opensQuotation_iff : OpensQuotation text mark i ↔
    (mark = '\'' ∨ mark = '"') ∧ StandsAt text mark i ∧ ∀ other, ¬ InQuotation text other i := by
  rw [OpensQuotation]
  refine and_congr_right fun _ => and_congr_right fun _ => ?_
  constructor
  · rintro hended other ⟨j, hj, hopens, hgoes⟩
    obtain ⟨k, hjk, hki, hstands⟩ := hended other j hj hopens
    exact hgoes k hjk hki hstands
  · intro hnone other j hj hopens
    by_contra hgoes
    exact hnone other ⟨j, hj, hopens, fun k hjk hki hstands => hgoes ⟨k, hjk, hki, hstands⟩⟩

/-- Behind a character a quotation has just been opened, or goes on. -/
theorem inQuotation_succ : InQuotation text mark (i + 1) ↔
    OpensQuotation text mark i ∨ InQuotation text mark i ∧ ¬ StandsAt text mark i := by
  constructor
  · rintro ⟨j, hj, hopens, hgoes⟩
    rcases Nat.lt_succ_iff_lt_or_eq.mp hj with hlt | rfl
    · exact Or.inr ⟨⟨j, hlt, hopens, fun k hjk hki => hgoes k hjk (Nat.lt_succ_of_lt hki)⟩,
        hgoes i hlt (Nat.lt_succ_self i)⟩
    · exact Or.inl hopens
  · rintro (hopens | ⟨⟨j, hj, hopens, hgoes⟩, hstands⟩)
    · exact ⟨i, Nat.lt_succ_self i, hopens, fun k hik hki => by omega⟩
    · refine ⟨j, Nat.lt_succ_of_lt hj, hopens, fun k hjk hki => ?_⟩
      rcases Nat.lt_succ_iff_lt_or_eq.mp hki with hlt | rfl
      · exact hgoes k hjk hlt
      · exact hstands

theorem InQuotation.isMark (h : InQuotation text mark i) : mark = '\'' ∨ mark = '"' := by
  obtain ⟨j, -, hopens, -⟩ := h
  rw [OpensQuotation] at hopens
  exact hopens.1

/-- A position is quoted when it is in a quotation and does not end it. -/
theorem isQuoted_iff : IsQuoted text i ↔
    ∃ mark, InQuotation text mark i ∧ ¬ StandsAt text mark i := by
  constructor
  · rintro ⟨mark, j, hj, hopens, hgoes⟩
    exact ⟨mark, ⟨j, hj, hopens, fun k hjk hki => hgoes k hjk (Nat.le_of_lt hki)⟩,
      hgoes i hj (Nat.le_refl i)⟩
  · rintro ⟨mark, ⟨j, hj, hopens, hgoes⟩, hstands⟩
    refine ⟨mark, j, hj, hopens, fun k hjk hki => ?_⟩
    rcases Nat.lt_or_eq_of_le hki with hlt | rfl
    · exact hgoes k hjk hlt
    · exact hstands

theorem stateAt_succ (hc : text[i]? = some c) : stateAt text (i + 1) = (stateAt text i).next c := by
  rw [stateAt, List.take_add_one, hc, List.foldl_append, ← stateAt]
  rfl

/-- The next character is escaped by a backslash that is not escaped. -/
theorem QuoteState.escaped_next (s : QuoteState) (c : Char) :
    (s.next c).escaped = true ↔ c = '\\' ∧ s.escaped = false := by
  unfold next
  by_cases hs : s.escaped = true
  · simp [hs]
  · by_cases hc : c = '\\'
    · simp [hs, hc]
    · simp only [hs, hc]
      repeat' split
      all_goals simp_all

/-- An escaped character changes no quotation. -/
theorem QuoteState.mark_next_of_escaped (hs : s.escaped = true) (c : Char) :
    (s.next c).mark = s.mark := by
  rw [next, if_pos hs]

/-- Behind a character that is not escaped it has just opened a quotation, or one goes on that it
does not end. -/
theorem QuoteState.mark_next_eq_some_iff (hs : s.escaped = false)
    (hmarks : ∀ mark, s.mark = some mark → mark = '\'' ∨ mark = '"') :
    (s.next c).mark = some mark ↔
      ((mark = '\'' ∨ mark = '"') ∧ c = mark ∧ s.mark = none) ∨
        (s.mark = some mark ∧ c ≠ mark) := by
  unfold next
  rw [if_neg (by simp [hs])]
  by_cases hc : c = '\\'
  · rw [if_pos hc]
    grind
  · rw [if_neg hc]
    cases hmark : s.mark with
    | none => grind
    | some other => grind

/-- The state at a position tells whether it is escaped. -/
theorem escaped_stateAt_iff (hi : i ≤ text.length) :
    (stateAt text i).escaped = true ↔ IsEscaped text i := by
  induction i with
  | zero => exact iff_of_false Bool.false_ne_true id
  | succ i ih =>
    have hc : text[i]? = some text[i] := List.getElem?_eq_getElem hi
    rw [stateAt_succ hc, QuoteState.escaped_next, IsEscaped, hc, Option.some.injEq,
      ← ih (Nat.le_of_succ_le hi), Bool.not_eq_true]

/-- The state at a position tells the quotation that it is in. -/
theorem mark_stateAt_iff (hi : i ≤ text.length) :
    (stateAt text i).mark = some mark ↔ InQuotation text mark i := by
  induction i generalizing mark with
  | zero => exact iff_of_false (by simp [stateAt, QuoteState.start]) fun ⟨j, hj, _⟩ => by cases hj
  | succ i ih =>
    have hbefore : ∀ {mark}, (stateAt text i).mark = some mark ↔ InQuotation text mark i :=
      ih (Nat.le_of_succ_le hi)
    have hescaped : (stateAt text i).escaped = true ↔ IsEscaped text i :=
      escaped_stateAt_iff (Nat.le_of_succ_le hi)
    have hc : text[i]? = some text[i] := List.getElem?_eq_getElem hi
    rw [stateAt_succ hc, inQuotation_succ]
    by_cases hs : (stateAt text i).escaped = true
    · -- An escaped character neither opens nor ends a quotation.
      have hstands : ¬ StandsAt text mark i := fun h => h.2 (hescaped.mp hs)
      rw [QuoteState.mark_next_of_escaped hs, hbefore, opensQuotation_iff]
      simp [hstands]
    · have hstands : StandsAt text mark i ↔ text[i] = mark := by
        rw [StandsAt, hc, Option.some.injEq]
        exact and_iff_left (fun h => hs (hescaped.mpr h))
      have hnone : (stateAt text i).mark = none ↔ ∀ other, ¬ InQuotation text other i := by
        simp only [Option.eq_none_iff_forall_ne_some, ne_eq, hbefore]
      rw [QuoteState.mark_next_eq_some_iff (by simpa using hs) fun _ h => (hbefore.mp h).isMark,
        opensQuotation_iff, hstands, hnone, hbefore]

/-- Where no quote stands, the state tells whether the position is quoted. -/
theorem mark_stateAt_eq_none_iff (hi : i ≤ text.length)
    (hmark : ∀ mark, mark = '\'' ∨ mark = '"' → text[i]? ≠ some mark) :
    (stateAt text i).mark = none ↔ ¬ IsQuoted text i := by
  have hquoted : IsQuoted text i ↔ ∃ mark, InQuotation text mark i :=
    isQuoted_iff.trans <| exists_congr fun mark =>
      and_iff_left_of_imp fun hin hstands => hmark mark hin.isMark hstands.1
  simp only [hquoted, not_exists, Option.eq_none_iff_forall_ne_some, ne_eq, mark_stateAt_iff hi]

/-- The state where no quote stands tells whether a comment may begin there. -/
theorem opensComment_stateAt_hash_iff (hi : i ≤ text.length)
    (hmark : ∀ mark, mark = '\'' ∨ mark = '"' → text[i]? ≠ some mark) :
    (stateAt text i).opensComment '#' = true ↔ ¬ IsEscaped text i ∧ ¬ IsQuoted text i := by
  rw [← escaped_stateAt_iff hi, ← mark_stateAt_eq_none_iff hi hmark]
  simp [QuoteState.opensComment]

/-- The state at a position tells whether a comment begins there. -/
theorem opensComment_stateAt_iff (hc : text[i]? = some c) :
    (stateAt text i).opensComment c = true ↔ OpensComment text i := by
  have hi : i ≤ text.length := Nat.le_of_lt (List.getElem?_eq_some_iff.mp hc).1
  rw [OpensComment, hc]
  by_cases hhash : c = '#'
  · subst hhash
    have hmark : ∀ mark, mark = '\'' ∨ mark = '"' → text[i]? ≠ some mark := by
      rintro mark (rfl | rfl) hquote <;> cases hc.symm.trans hquote
    rw [opensComment_stateAt_hash_iff hi hmark, and_iff_right rfl]
  · simp [QuoteState.opensComment, hhash]

/-- Up to a position before which no comment begins a line is kept. -/
theorem beforeComment_eq_append (hi : i ≤ text.length) (hnone : ∀ j < i, ¬ OpensComment text j) :
    beforeComment .start text = text.take i ++ beforeComment (stateAt text i) (text.drop i) := by
  induction i with
  | zero => rfl
  | succ i ih =>
    have hc : text[i]? = some text[i] := List.getElem?_eq_getElem hi
    have hkept : (stateAt text i).opensComment text[i] = false := by
      rw [← Bool.not_eq_true, opensComment_stateAt_iff hc]
      exact hnone i (Nat.lt_succ_self i)
    rw [ih (Nat.le_of_succ_le hi) fun j hj => hnone j (Nat.lt_succ_of_lt hj),
      List.drop_eq_getElem_cons hi, beforeComment, hkept, stateAt_succ hc, List.take_add_one, hc,
      List.append_assoc]
    rfl

/-- A line is cut where its comment begins. -/
theorem IsBeforeComment.eq {before : List Char} (h : IsBeforeComment text before) :
    beforeComment .start text = before := by
  cases h with
  | whole hnone =>
    rw [beforeComment_eq_append (Nat.le_refl _) fun j _ => hnone j, List.take_length,
      List.drop_length, beforeComment, List.append_nil]
  | @upTo i hopens hfirst =>
    have hc := hopens.1
    obtain ⟨hi, -⟩ := List.getElem?_eq_some_iff.mp hc
    have hcut : (stateAt text i).opensComment text[i] = true := by
      rw [opensComment_stateAt_iff (List.getElem?_eq_getElem hi)]
      exact hopens
    rw [beforeComment_eq_append (Nat.le_of_lt hi) hfirst, List.drop_eq_getElem_cons hi,
      beforeComment, if_pos hcut, List.append_nil]

/-- Either no comment begins in a line, or one begins first. -/
theorem exists_isBeforeComment (text : List Char) : ∃ before, IsBeforeComment text before := by
  by_cases hopens : ∃ i, OpensComment text i
  · classical
    refine ⟨_, .upTo (Nat.find_spec hopens) fun j hj => Nat.find_min hopens hj⟩
  · exact ⟨text, .whole (not_exists.mp hopens)⟩

/-- A line is kept as a whole exactly when no comment begins in it. -/
theorem beforeComment_eq_self_iff :
    beforeComment .start text = text ↔ ∀ i, ¬ OpensComment text i := by
  constructor
  · intro hself i hopens
    obtain ⟨before, hbefore⟩ := exists_isBeforeComment text
    cases hbefore with
    | whole hnone => exact hnone i hopens
    | @upTo n hopens hfirst =>
      have htake : text.take n = text :=
        (IsBeforeComment.upTo hopens hfirst).eq.symm.trans hself
      have hlength := congrArg List.length htake
      have hn := (List.getElem?_eq_some_iff.mp hopens.1).1
      rw [List.length_take, Nat.min_eq_left (Nat.le_of_lt hn)] at hlength
      omega
  · exact fun hnone => (IsBeforeComment.whole hnone).eq

end HostConfig.Text
