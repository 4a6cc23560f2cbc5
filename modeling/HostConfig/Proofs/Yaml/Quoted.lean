import HostConfig.Yaml.Printer
import Mathlib.Data.List.Basic

/-!
# Quoted scalars

A quoted scalar is read one character after the other, in a phase that tells what the characters so
far mean for the next one. In single quotes a line feed that nothing but an indent follows is a folded
space, and other breaks are breaks; in double quotes an escaped line feed is nothing at all. What is
written for a text is read back as the text, up to the closing quote.
-/

namespace HostConfig.Yaml

open HostConfig.Text

/-- Put characters in front of what was read. -/
def prepend (front : List Char) (p : List Char × List Char) : List Char × List Char :=
  (front ++ p.1, p.2)

/-- Read characters from a phase on, and tell what was read and what is left. -/
def scan {σ : Type} (next : σ → Char → Option (σ × List Char)) (phase : σ) :
    List Char → List Char × List Char
  | [] => ([], [])
  | c :: rest =>
    match next phase c with
    | none => ([], c :: rest)
    | some (later, read) => prepend read (scan next later rest)

/-- What the characters of a scalar in single quotes mean so far: the next one stands for itself,
there was a line feed for a folded space or for breaks, or breaks, the indent of a line is passed
over, or there was a quote, which is doubled or the last one. -/
inductive SinglePhase
  | text
  | feed
  | breaks
  | margin
  | quote

/-- Read a character of a scalar in single quotes. -/
def SinglePhase.next : SinglePhase → Char → Option (SinglePhase × List Char)
  | text, c => ofText c
  | feed, c =>
    if isBreak c then some (breaks, [c]) else if c = ' ' then some (margin, [' ']) else none
  | breaks, c =>
    if isBreak c then some (breaks, [c]) else if c = ' ' then some (margin, []) else none
  | margin, c => if c = ' ' then some (margin, []) else ofText c
  | quote, c => if c = '\'' then some (text, ['\'']) else none
where
  /-- Read a character that stands for itself. -/
  ofText (c : Char) : Option (SinglePhase × List Char) :=
    if c = '\'' then some (quote, [])
    else if c = '\n' then some (feed, [])
    else if isBreak c then some (breaks, [c])
    else some (text, [c])

section

variable {σ : Type} {next : σ → Char → Option (σ × List Char)} {phase later : σ}
  {c : Char} {read rest : List Char}

/-- A character is read. -/
theorem scan_cons (h : next phase c = some (later, read)) (rest : List Char) :
    scan next phase (c :: rest) = prepend read (scan next later rest) := by
  rw [scan, h]

/-- Characters that stand for themselves are read. -/
theorem scan_append {front : List Char} (h : ∀ c ∈ front, next phase c = some (phase, [c]))
    (rest : List Char) :
    scan next phase (front ++ rest) = prepend front (scan next phase rest) := by
  induction front with
  | nil => rfl
  | cons c front ih =>
    obtain ⟨hc, hfront⟩ := List.forall_mem_cons.mp h
    rw [List.cons_append, scan_cons hc, ih hfront]
    rfl

/-- Spaces that mean nothing are passed over. -/
theorem scan_spaces (h : next phase ' ' = some (phase, [])) (n : Nat) (rest : List Char) :
    scan next phase (List.replicate n ' ' ++ rest) = scan next phase rest := by
  induction n with
  | zero => rfl
  | succ n ih =>
    rw [List.replicate_succ, List.cons_append, scan_cons h, ih]
    rfl

/-- In two phases that read the first character alike, all is read alike. -/
theorem scan_congr {phase' : σ} {text : List Char}
    (h : ∀ c ∈ text.head?, next phase c = next phase' c) :
    scan next phase text = scan next phase' text := by
  cases text with
  | nil => rfl
  | cons c rest => rw [scan, scan, h c rfl]

/-- An indent is passed over, and what follows is read on. -/
theorem scan_indent {text : List Char} (hspace : next phase ' ' = some (phase, []))
    (h : ∀ c ≠ ' ', next phase c = next later c) (htext : text.head? ≠ some ' ') (n : Nat) :
    scan next phase (List.replicate n ' ' ++ text) = scan next later text := by
  rw [scan_spaces hspace]
  exact scan_congr fun c hc => h c fun heq => htext (heq ▸ hc)

end

variable {indent column : Nat} {previous : Option Char} {c : Char} {cs t rest : List Char}

theorem SinglePhase.next_margin (c : Char) (hc : c ≠ ' ') : next margin c = next text c := by
  simp only [next, if_neg hc]

/-- What follows a character has no forbidden neighbours either. -/
theorem hasNeighbours_of_cons {first second : Char → Bool}
    (h : hasNeighbours first second (c :: rest) = false) :
    hasNeighbours first second rest = false := by
  cases rest with
  | nil => rfl
  | cons d rest => exact (Bool.or_eq_false_iff.mp h).2

/-- A break is not followed by a space if these are no neighbours. -/
theorem head?_ne_of_hasNeighbours (h : hasNeighbours isBreak (· == ' ') (c :: rest) = false)
    (hc : isBreak c = true) : rest.head? ≠ some ' ' := by
  intro hhead
  obtain ⟨more, rfl⟩ := List.head?_eq_some_iff.mp hhead
  simp [hasNeighbours, hc] at h

/-- A text in single quotes goes on with a space only if it begins with one. -/
theorem head?_writeSingle (hcs : cs.head? ≠ some ' ') :
    (writeSingle indent column previous cs ++ '\'' :: t).head? ≠ some ' ' := by
  cases cs with
  | nil => simp [writeSingle]
  | cons c rest =>
    have hc : c ≠ ' ' := fun heq => hcs (congrArg some heq)
    rw [writeSingle, if_neg hc]
    split
    · split <;> split <;> simp [hc]
    · split <;> simp [hc]

/-- The phase in which a text is read: in a run of breaks, or as text. -/
def SinglePhase.before (previous : Option Char) (cs : List Char) : SinglePhase :=
  if previous.any isBreak && cs.head?.any isBreak then breaks else text

/-- Outside of a run of breaks a text is read as text. -/
theorem SinglePhase.before_eq_text
    (h : previous.any isBreak = false ∨ cs.head?.any isBreak = false) :
    before previous cs = text := by
  rw [before, if_neg]
  rcases h with h | h <;> simp [h]

/-- A break is read, also if it is the first one and has one more line feed before it. -/
theorem scan_break (hc : isBreak c = true) (rest text : List Char) :
    scan SinglePhase.next (.before previous (c :: rest))
        ((if c = '\n' && !previous.any isBreak then ['\n'] else []) ++ c :: text) =
      prepend [c] (scan SinglePhase.next .breaks text) := by
  have hquote : c ≠ '\'' := by
    rintro rfl
    exact absurd hc (by decide)
  cases hprevious : previous.any isBreak with
  | true =>
    have hphase : SinglePhase.before previous (c :: rest) = .breaks := by
      simp [SinglePhase.before, hprevious, hc]
    rw [hphase, Bool.not_true, Bool.and_false]
    exact scan_cons (by simp [SinglePhase.next, hc]) text
  | false =>
    rw [SinglePhase.before_eq_text (Or.inl hprevious)]
    by_cases hfeed : c = '\n'
    · subst hfeed
      rfl
    · simp only [hfeed, decide_false, Bool.false_and]
      exact scan_cons (by simp [SinglePhase.next, SinglePhase.next.ofText, hquote, hfeed, hc]) text

/-- A text in single quotes is read back, up to the closing quote. -/
theorem scan_writeSingle (hindent : 1 ≤ indent)
    (hbreak : hasNeighbours isBreak (· == ' ') cs = false) (ht : t.head? ≠ some '\'') :
    scan SinglePhase.next (.before previous cs)
      (writeSingle indent column previous cs ++ '\'' :: t) = (cs, t) := by
  obtain ⟨n, hn⟩ : ∃ n, indent = n + 1 := ⟨indent - 1, by omega⟩
  fun_induction writeSingle indent column previous cs with
  | case1 column previous =>
    rw [SinglePhase.before_eq_text (Or.inr rfl), List.nil_append, scan_cons rfl]
    cases t with
    | nil => rfl
    | cons d t =>
      have hd : d ≠ '\'' := fun heq => ht (congrArg some heq)
      simp [scan, SinglePhase.next, hd, prepend]
  | case2 column previous rest hfold ih =>
    -- A folded space: a line feed and the indent of the next line.
    have ih := ih (hasNeighbours_of_cons hbreak)
    have hhead : rest.head? ≠ some ' ' := by
      simp only [foldsAt, Bool.and_eq_true, bne_iff_ne] at hfold
      exact hfold.1.1.2
    rw [SinglePhase.before_eq_text (Or.inl rfl)] at ih
    rw [SinglePhase.before_eq_text (Or.inr rfl), newLine, hn, List.replicate_succ, ← hn,
      List.append_assoc, List.cons_append, List.cons_append, scan_cons rfl, scan_cons rfl,
      scan_indent rfl SinglePhase.next_margin (head?_writeSingle hhead), ih]
    rfl
  | case3 column previous rest hfold ih =>
    have ih := ih (hasNeighbours_of_cons hbreak)
    rw [SinglePhase.before_eq_text (Or.inl rfl)] at ih
    rw [SinglePhase.before_eq_text (Or.inr rfl), List.cons_append, scan_cons rfl, ih]
    rfl
  | case4 column previous c rest hne hc opening hmore ih =>
    have ih := ih (hasNeighbours_of_cons hbreak)
    have hphase : SinglePhase.before (some c) rest = .breaks := by
      simp [SinglePhase.before, hc, hmore]
    rw [List.append_assoc, List.cons_append, scan_break hc, ← hphase, ih]
    rfl
  | case5 column previous c rest hne hc opening hmore ih =>
    -- The last break of a run, behind which the line is indented.
    have ih := ih (hasNeighbours_of_cons hbreak)
    have hhead := head?_ne_of_hasNeighbours hbreak hc
    rw [SinglePhase.before_eq_text (Or.inr (by simpa using hmore))] at ih
    rw [List.append_assoc, List.append_assoc, List.cons_append, scan_break hc, hn,
      List.replicate_succ, ← hn, List.cons_append, scan_cons rfl,
      scan_indent rfl SinglePhase.next_margin (head?_writeSingle hhead), ih]
    rfl
  | case6 column previous rest hne hbreak' ih =>
    have ih := ih (hasNeighbours_of_cons hbreak)
    rw [SinglePhase.before_eq_text (Or.inl rfl)] at ih
    rw [SinglePhase.before_eq_text (Or.inr rfl), List.cons_append, List.cons_append,
      scan_cons rfl, scan_cons rfl, ih]
    rfl
  | case7 column previous c rest hne hc hquote ih =>
    have ih := ih (hasNeighbours_of_cons hbreak)
    rw [SinglePhase.before_eq_text (Or.inl (by simpa using hc))] at ih
    have hfeed : c ≠ '\n' := by
      rintro rfl
      exact hc rfl
    have hread : SinglePhase.next .text c = some (.text, [c]) := by
      simp [SinglePhase.next, SinglePhase.next.ofText, hquote, hfeed, hc]
    rw [SinglePhase.before_eq_text (Or.inr (by simpa using hc)), List.cons_append,
      scan_cons hread, ih]
    rfl

end HostConfig.Yaml
