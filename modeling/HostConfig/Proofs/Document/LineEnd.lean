import HostConfig.Text.Pieces
import HostConfig.Text.Utf8

/-!
# Line ends

A text is cut where a line feed stands, together with a carriage return before it. So lines that
are joined by line feeds are cut apart again, and a carriage return that is put in front of a line
feed adds an empty line at most.
-/

namespace HostConfig.Text

/-- A character that begins no line end belongs to the first line. -/
theorem lines_cons {c : Char} {rest : List Char} (hfeed : c ≠ '\n')
    (hreturn : c = '\r' → rest.head? ≠ some '\n') :
    lines (c :: rest) = extendFirst c (lines rest) := by
  rw [lines]
  · exact hfeed
  · rintro more hc rfl
    exact hreturn hc rfl

theorem getLast?_ne_of_cons {c d : Char} {rest : List Char} (h : (c :: rest).getLast? ≠ some d) :
    rest.getLast? ≠ some d := by
  intro hrest
  rw [List.getLast?_cons, hrest] at h
  exact h rfl

/-- A line feed without a carriage return before it ends a line. -/
theorem lines_append_feed {head : List Char} (hhead : head.getLast? ≠ some '\r')
    (tail : List Char) : lines (head ++ '\n' :: tail) = lines head ++ lines tail := by
  fun_induction lines head with
  | case1 => rfl
  | case2 rest ih => exact congrArg ([] :: ·) (ih (getLast?_ne_of_cons hhead))
  | case3 rest ih =>
    exact congrArg ([] :: ·) (ih (getLast?_ne_of_cons (getLast?_ne_of_cons hhead)))
  | case4 c rest hfeed hreturn ih =>
    have hnext : c = '\r' → (rest ++ '\n' :: tail).head? ≠ some '\n' := by
      rintro rfl
      cases rest with
      | nil => simp at hhead
      | cons d rest =>
        intro hd
        exact hreturn rest rfl (congrArg (· :: rest) (Option.some.inj hd))
    rw [List.cons_append, lines_cons hfeed hnext, ih (getLast?_ne_of_cons hhead),
      extendFirst_append c (lines_ne_nil rest)]

/-- A text without line feeds is one line. -/
theorem lines_of_notMem {line : List Char} (h : '\n' ∉ line) : lines line = [line] := by
  induction line with
  | nil => rfl
  | cons c rest ih =>
    rw [List.mem_cons, not_or] at h
    have hnext : c = '\r' → rest.head? ≠ some '\n' := fun _ hhead => h.2 (List.mem_of_head? hhead)
    rw [lines_cons (Ne.symm h.1) hnext, ih h.2]
    rfl

/-- Lines that are joined by line feeds are cut apart again. -/
theorem lines_joinWith {ls : List (List Char)} (hne : ls ≠ []) (hfeed : ∀ line ∈ ls, '\n' ∉ line)
    (hreturn : ∀ line ∈ ls, line.getLast? ≠ some '\r') : lines (joinWith ['\n'] ls) = ls := by
  induction ls with
  | nil => contradiction
  | cons line rest ih =>
    have hline := lines_of_notMem (hfeed line List.mem_cons_self)
    cases rest with
    | nil => exact hline
    | cons next rest =>
      have hrest := ih (List.cons_ne_nil _ _) (fun l hl => hfeed l (List.mem_cons_of_mem _ hl))
        fun l hl => hreturn l (List.mem_cons_of_mem _ hl)
      rw [joinWith, List.append_assoc, List.singleton_append,
        lines_append_feed (hreturn line List.mem_cons_self), hline, hrest]
      · rfl
      · simp

/-- The same text, or the text with one of its line feeds doubled. -/
def DoublesFeed (cs cs' : List Char) : Prop :=
  cs' = cs ∨ ∃ head tail, cs = head ++ '\n' :: tail ∧ cs' = head ++ '\n' :: '\n' :: tail

theorem DoublesFeed.cons {cs cs' : List Char} (c : Char) (h : DoublesFeed cs cs') :
    DoublesFeed (c :: cs) (c :: cs') := by
  rcases h with rfl | ⟨head, tail, rfl, rfl⟩
  · exact Or.inl rfl
  · exact Or.inr ⟨c :: head, tail, rfl, rfl⟩

theorem unifyLineEnds_return {rest : List Char} (h : rest.head? ≠ some '\n') :
    unifyLineEnds ('\r' :: rest) = '\n' :: unifyLineEnds rest := by
  rw [unifyLineEnds]
  rintro more rfl
  exact h rfl

/-- A carriage return in front of a line feed is nothing after line ends are unified, unless the
line feed had one already, which then ends a line of its own. -/
theorem doublesFeed_unifyLineEnds (before after : List Char) :
    DoublesFeed (unifyLineEnds (before ++ '\n' :: after))
      (unifyLineEnds (before ++ '\r' :: '\n' :: after)) := by
  fun_induction unifyLineEnds before with
  | case1 => exact Or.inl rfl
  | case2 rest ih => exact ih.cons '\n'
  | case3 rest hrest ih =>
    cases rest with
    | nil => exact Or.inr ⟨[], unifyLineEnds after, rfl, rfl⟩
    | cons c rest =>
      have hc : c ≠ '\n' := fun hc => hrest rest (congrArg (· :: rest) hc)
      have hkeep : ∀ tail, unifyLineEnds ('\r' :: c :: rest ++ tail) =
          '\n' :: unifyLineEnds (c :: rest ++ tail) :=
        fun tail => unifyLineEnds_return (by simpa using hc)
      rw [hkeep, hkeep]
      exact ih.cons '\n'
  | case4 c rest hfeed hreturn ih =>
    have hkeep : ∀ tail, unifyLineEnds (c :: tail) = c :: unifyLineEnds tail := by
      intro tail
      rw [unifyLineEnds]
      · exact fun _ hc _ => hreturn hc
      · exact hreturn
    rw [List.cons_append, List.cons_append, hkeep, hkeep]
    exact ih.cons c

end HostConfig.Text
