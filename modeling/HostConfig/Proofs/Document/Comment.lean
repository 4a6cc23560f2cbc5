import HostConfig.Proofs.Payload.Grammar
import HostConfig.Proofs.Text.Stripping

/-!
# Blanks and comments

Spaces, tabs and comments say nothing. A line is read alike whether they stand in front of it or
behind it, except that what stands behind it must not be quoted or escaped by what is before.
-/

namespace HostConfig

open HostConfig.Text

/-- Spaces and tabs. -/
def Text.IsGap (cs : List Char) : Prop := ∀ c ∈ cs, c = ' ' ∨ c = '\t'

instance (cs : List Char) : Decidable (IsGap cs) := List.decidableBAll _ cs

/-- Spaces and tabs, maybe with a comment behind them that does not break the line. -/
inductive Text.IsFiller : List Char → Prop
  | gap {gap : List Char} (hgap : IsGap gap) : IsFiller gap
  | comment {gap note : List Char} (hgap : IsGap gap) (hfeed : '\n' ∉ note)
    (hreturn : '\r' ∉ note) : IsFiller (gap ++ '#' :: note)

/-- The state that a line ends in; nothing in a comment changes the state. -/
def Text.QuoteState.atEnd (s : QuoteState) : List Char → QuoteState
  | [] => s
  | c :: rest => if s.opensComment c then s else (s.next c).atEnd rest

/-- What stands behind the line is neither quoted nor escaped by it. -/
def Text.EndsPlain (line : List Char) : Prop := QuoteState.start.atEnd line = .start

instance (line : List Char) : Decidable (EndsPlain line) :=
  inferInstanceAs (Decidable (QuoteState.start.atEnd line = .start))

namespace Text

variable {gap filler line : List Char}

theorem IsGap.isBlank (hgap : IsGap gap) : ∀ c ∈ gap, isBlank c := by
  intro c hc
  rcases hgap c hc with rfl | rfl <;> decide

/-- No comment begins in a gap, and behind it the state is as before. -/
theorem IsGap.beforeComment_append (hgap : IsGap gap) (rest : List Char) :
    beforeComment .start (gap ++ rest) = gap ++ beforeComment .start rest :=
  beforeComment_blanks_append hgap.isBlank rest

/-- Only blanks of a filler stand before its comment. -/
theorem IsFiller.isBlank_beforeComment (hfiller : IsFiller filler) :
    ∀ c ∈ beforeComment .start filler, isBlank c := by
  cases hfiller with
  | gap hgap =>
    have hkeep := hgap.beforeComment_append []
    rw [List.append_nil] at hkeep
    rw [hkeep, beforeComment, List.append_nil]
    exact hgap.isBlank
  | @comment gap note hgap =>
    have hopens : beforeComment .start ('#' :: note) = [] := rfl
    rw [hgap.beforeComment_append, hopens, List.append_nil]
    exact hgap.isBlank

/-- A filler behind a line that ends plain adds blanks to what stands before the comment. -/
theorem exists_beforeComment_append {s : QuoteState} (hline : s.atEnd line = .start)
    (hfiller : IsFiller filler) :
    ∃ blanks, (∀ c ∈ blanks, isBlank c) ∧
      beforeComment s (line ++ filler) = beforeComment s line ++ blanks := by
  induction line generalizing s with
  | nil =>
    rw [QuoteState.atEnd] at hline
    subst s
    exact ⟨_, hfiller.isBlank_beforeComment, rfl⟩
  | cons c rest ih =>
    rw [QuoteState.atEnd] at hline
    rw [List.cons_append, beforeComment, beforeComment]
    split
    · exact ⟨[], by simp, rfl⟩
    · next hopens =>
      rw [if_neg hopens] at hline
      obtain ⟨blanks, hblanks, hrest⟩ := ih hline
      exact ⟨blanks, hblanks, congrArg (c :: ·) hrest⟩

/-- Blanks behind a text are trimmed off. -/
theorem trim_append_of_forall (cs : List Char) {blanks : List Char}
    (hblanks : ∀ c ∈ blanks, isBlank c) : trim (cs ++ blanks) = trim cs := by
  rw [trim, trim, trimStart, trimStart, List.dropWhile_append]
  split
  · next hnil =>
    have hcs : trimStart cs = [] := List.isEmpty_iff.mp hnil
    have hnone : blanks.dropWhile isBlank = [] := trimStart_eq_nil_iff.mpr hblanks
    rw [hnone, ← trimStart, hcs]
  · exact trimEnd_append_of_forall _ hblanks

/-- A filler behind a line that ends plain is stripped off. -/
theorem stripComment_append (hline : EndsPlain line) (hfiller : IsFiller filler) :
    stripComment (line ++ filler) = stripComment line := by
  obtain ⟨blanks, hblanks, hbefore⟩ := exists_beforeComment_append hline hfiller
  rw [stripComment, stripComment, hbefore, trim_append_of_forall _ hblanks]

/-- A gap in front of a line is stripped off. -/
theorem stripComment_gap_append (hgap : IsGap gap) (line : List Char) :
    stripComment (gap ++ line) = stripComment line := by
  rw [stripComment, stripComment, hgap.beforeComment_append, trim, trim,
    Payload.trimStart_append_of_forall hgap.isBlank]

/-- Nothing is left of a filler. -/
theorem IsFiller.stripComment_eq (hfiller : IsFiller filler) : stripComment filler = [] := by
  have hempty : EndsPlain [] := rfl
  exact stripComment_append hempty hfiller

end Text

end HostConfig
