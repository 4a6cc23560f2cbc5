import HostConfig.Proofs.Text.Quotation

/-!
# Stripping a line

What is left of a line is its part before the comment, trimmed. Trimming does not change what is
escaped or quoted, so that nothing more is stripped off what is left. Behind a line a hash sign
begins a comment unless the end of the line is escaped or quoted.
-/

namespace HostConfig.Text

/-- What is left of a line is its part before the comment, trimmed. -/
structure StripsComment (text : List Char) : Prop where
  exists_before : ∃ before, IsBeforeComment text before ∧ stripComment text = trim before
  isInfix : stripComment text <:+: text
  idempotent : stripComment (stripComment text) = stripComment text
  /-- A comment behind a line whose end is neither escaped nor quoted is stripped off. -/
  append_comment : ¬ IsEscaped text text.length → ¬ IsQuoted text text.length →
    ∀ note, stripComment (text ++ '#' :: note) = stripComment text
  /-- A hash sign behind a line without a comment, whose end is escaped or quoted, is kept. -/
  append_hash : (∀ i, ¬ OpensComment text i) →
    IsEscaped text text.length ∨ IsQuoted text text.length → ∀ note, ∃ kept, kept <+: note ∧
      stripComment (text ++ '#' :: note) = trimStart text ++ '#' :: kept

variable {text gap part : List Char} {s : QuoteState} {c : Char}

/-- Behind a line that is kept as a whole the scan goes on. -/
theorem beforeComment_append (h : beforeComment s text = text) (more : List Char) :
    beforeComment s (text ++ more) =
      text ++ beforeComment (text.foldl QuoteState.next s) more := by
  induction text generalizing s with
  | nil => rfl
  | cons c rest ih =>
    rw [beforeComment] at h
    split at h
    · cases h
    · next hopens =>
      rw [List.cons_append, beforeComment, if_neg hopens, ih (List.cons.inj h).2]
      rfl

/-- Nothing behind a comment is looked at. -/
theorem beforeComment_append_of_ne (h : beforeComment s text ≠ text) (more : List Char) :
    beforeComment s (text ++ more) = beforeComment s text := by
  induction text generalizing s with
  | nil => exact absurd rfl h
  | cons c rest ih =>
    rw [List.cons_append, beforeComment, beforeComment]
    rw [beforeComment] at h
    split
    · rfl
    · next hopens =>
      rw [if_neg hopens] at h
      rw [ih fun hrest => h (congrArg (c :: ·) hrest)]

/-- No comment begins before the comment. -/
theorem beforeComment_beforeComment (s : QuoteState) (text : List Char) :
    beforeComment s (beforeComment s text) = beforeComment s text := by
  obtain ⟨more, hmore⟩ := beforeComment_isPrefix s text
  by_contra hne
  have hcut := beforeComment_append_of_ne hne more
  rw [hmore] at hcut
  exact hne hcut.symm

/-- No comment begins in the front part of a text in which none begins. -/
theorem beforeComment_of_isPrefix (h : beforeComment s text = text) (hpart : part <+: text) :
    beforeComment s part = part := by
  obtain ⟨more, rfl⟩ := hpart
  by_contra hne
  rw [beforeComment_append_of_ne hne] at h
  have hlength := (beforeComment_isPrefix s part).length_le
  rw [h, List.length_append] at hlength
  have hmore : more = [] := List.length_eq_zero_iff.mp (by omega)
  rw [hmore, List.append_nil] at h
  exact hne h

/-- A blank at the start of a line changes nothing. -/
theorem QuoteState.next_of_isBlank (h : isBlank c = true) :
    start.opensComment c = false ∧ start.next c = start := by
  have hne : ∀ d, isBlank d = false → c ≠ d := by
    rintro d hd rfl
    exact Bool.false_ne_true (hd.symm.trans h)
  have hbackslash : c ≠ '\\' := hne _ (by decide)
  have hsingle : c ≠ '\'' := hne _ (by decide)
  have hdouble : c ≠ '"' := hne _ (by decide)
  have hhash : c ≠ '#' := hne _ (by decide)
  simp [opensComment, next, start, hbackslash, hsingle, hdouble, hhash]

/-- Blanks at the start of a line are kept, and the scan begins behind them. -/
theorem beforeComment_blanks_append (hgap : ∀ c ∈ gap, isBlank c) (rest : List Char) :
    beforeComment .start (gap ++ rest) = gap ++ beforeComment .start rest := by
  induction gap with
  | nil => rfl
  | cons c gap ih =>
    obtain ⟨hblank, hgap⟩ := List.forall_mem_cons.mp hgap
    obtain ⟨hopens, hnext⟩ := QuoteState.next_of_isBlank hblank
    rw [List.cons_append, beforeComment, hopens, hnext, ih hgap]
    rfl

/-- No comment begins in what is left of a line. -/
theorem beforeComment_stripComment (text : List Char) :
    beforeComment .start (stripComment text) = stripComment text := by
  have hkept : beforeComment .start (beforeComment .start text) = beforeComment .start text :=
    beforeComment_beforeComment _ _
  rw [stripComment, trim]
  refine beforeComment_of_isPrefix ?_ (trimEnd_isPrefix _)
  -- The blanks at the start leave the state as it is, so that they can be left out.
  obtain ⟨gap, hgap, hbefore⟩ : ∃ gap, (∀ c ∈ gap, isBlank c) ∧
      gap ++ trimStart (beforeComment .start text) = beforeComment .start text :=
    ⟨_, fun c hc => List.all_eq_true.mp List.all_takeWhile c hc, List.takeWhile_append_dropWhile⟩
  rw [← hbefore, beforeComment_blanks_append hgap] at hkept
  exact List.append_cancel_left hkept

/-- A text keeps its end from a character on that is not blank, as far as what follows does. -/
theorem trimEnd_append_cons (hc : isBlank c = false) (front back : List Char) :
    trimEnd (front ++ c :: back) = front ++ c :: trimEnd back := by
  have hone : trimEnd [c] = [c] := trimEnd_of_forall (List.forall_mem_singleton.mpr hc)
  have hcons : trimEnd (c :: back) = c :: trimEnd back := by
    rw [← List.singleton_append, trimEnd_append]
    split
    · next hnil => rw [hone, hnil]
    · rfl
  rw [trimEnd_append, hcons, if_neg (List.cons_ne_nil _ _)]

/-- A text keeps its start up to a character that is not blank, apart from the blanks before it. -/
theorem trimStart_append_cons (hc : isBlank c = false) (front back : List Char) :
    trimStart (front ++ c :: back) = trimStart front ++ c :: back := by
  rw [trimStart, trimStart, List.dropWhile_append]
  split
  · next hnil =>
    rw [List.isEmpty_iff.mp hnil, List.dropWhile_cons_of_neg (by simp [hc]), List.nil_append]
  · rfl

/-- A comment may begin at the end of a line exactly when the end is neither escaped nor quoted. -/
theorem opensComment_atEnd_iff (text : List Char) :
    (text.foldl QuoteState.next .start).opensComment '#' = true ↔
      ¬ IsEscaped text text.length ∧ ¬ IsQuoted text text.length := by
  have hend : ∀ mark, mark = '\'' ∨ mark = '"' → text[text.length]? ≠ some mark := by simp
  rw [← opensComment_stateAt_hash_iff (Nat.le_refl _) hend, stateAt, List.take_length]

/-- A line is stripped of what stands from the first hash sign on that is neither escaped nor
quoted, and of the blanks at its ends. -/
theorem stripComment_strips (text : List Char) : StripsComment text where
  exists_before := by
    obtain ⟨before, hbefore⟩ := exists_isBeforeComment text
    exact ⟨before, hbefore, congrArg trim hbefore.eq⟩
  isInfix := stripComment_isInfix text
  idempotent := by
    rw [stripComment, beforeComment_stripComment, stripComment, trim_trim]
  append_comment hescaped hquoted note := by
    have hopens := (opensComment_atEnd_iff text).mpr ⟨hescaped, hquoted⟩
    rw [stripComment, stripComment]
    by_cases hwhole : beforeComment .start text = text
    · rw [beforeComment_append hwhole, beforeComment, if_pos hopens, hwhole, List.append_nil]
    · rw [beforeComment_append_of_ne hwhole]
  append_hash hnone hend note := by
    have hopens : ¬ (text.foldl QuoteState.next .start).opensComment '#' = true := by
      rw [opensComment_atEnd_iff]
      exact fun h => hend.elim h.1 h.2
    have hwhole : beforeComment .start text = text := beforeComment_eq_self_iff.mpr hnone
    have hbefore : ∃ kept, kept <+: note ∧
        beforeComment .start (text ++ '#' :: note) = text ++ '#' :: kept := by
      refine ⟨_, beforeComment_isPrefix ((text.foldl QuoteState.next .start).next '#') note, ?_⟩
      rw [beforeComment_append hwhole, beforeComment, if_neg hopens]
    obtain ⟨kept, hkept, hbefore⟩ := hbefore
    refine ⟨trimEnd kept, (trimEnd_isPrefix kept).trans hkept, ?_⟩
    rw [stripComment, hbefore, trim, trimStart_append_cons (by decide),
      trimEnd_append_cons (by decide)]

/-- In a quotation of the other kind a quote is a plain character, and an escaped one ends none. -/
example : stripComment "\t'a\\'\"#' # b".toList = "'a\\'\"#'".toList := by decide

end HostConfig.Text
