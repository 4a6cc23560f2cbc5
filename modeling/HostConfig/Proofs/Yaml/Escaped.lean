import HostConfig.Json.Reader
import HostConfig.Proofs.Yaml.Quoted
import Mathlib.Algebra.Group.Nat.Defs

/-!
# Scalars in double quotes

In double quotes a character is escaped by a letter or by its number. An escaped line feed is read as
nothing, with the indent of the next line; so where a line is broken in front of a space, the space is
escaped too. What is written for a text is read back as the text, up to the closing quote.
-/

namespace HostConfig.Yaml

/-- The character that a letter behind a backslash stands for. -/
def unescape? : Char → Option Char
  | '0' => some '\x00'
  | 'a' => some '\x07'
  | 'b' => some '\x08'
  | 't' => some '\t'
  | 'n' => some '\n'
  | 'v' => some '\x0b'
  | 'f' => some '\x0c'
  | 'r' => some '\r'
  | 'e' => some '\x1b'
  | '"' => some '"'
  | '\\' => some '\\'
  | 'N' => some '\x85'
  | 'L' => some '\u2028'
  | 'P' => some '\u2029'
  | ' ' => some ' '
  | _ => none

/-- What the characters of a scalar in double quotes mean so far: the next one stands for itself,
there was a backslash or a digit of a number, the indent of a line is passed over, or the scalar is
closed. -/
inductive DoublePhase
  | text
  | escape
  | digits (later value : Nat)
  | margin
  | closed

/-- Read a character of a scalar in double quotes. -/
def DoublePhase.next : DoublePhase → Char → Option (DoublePhase × List Char)
  | text, c => ofText c
  | escape, 'x' => some (digits 1 0, [])
  | escape, 'u' => some (digits 3 0, [])
  | escape, 'U' => some (digits 7 0, [])
  | escape, '\n' => some (margin, [])
  | escape, c => (unescape? c).map fun c => (text, [c])
  | digits 0 value, c => (Json.hexValue? c).map fun n => (text, [Char.ofNat (value * 16 + n)])
  | digits (later + 1) value, c =>
    (Json.hexValue? c).map fun n => (digits later (value * 16 + n), [])
  | margin, c => if c = ' ' then some (margin, []) else ofText c
  | closed, _ => none
where
  /-- Read a character that stands for itself. -/
  ofText (c : Char) : Option (DoublePhase × List Char) :=
    if c = '"' then some (closed, []) else if c = '\\' then some (escape, []) else some (text, [c])

variable {indent column later value : Nat} {pending cs t : List Char} {first : Bool} {c d : Char}

/-- A hexadecimal digit tells its value. -/
theorem hexValue?_capitalHex : ∀ n < 16, Json.hexValue? (capitalHex n) = some n := by decide

/-- The last of some digits of a number is behind the others. -/
theorem mod_sixteen_pow_succ (n k : Nat) : n % 16 ^ (k + 1) = n / 16 % 16 ^ k * 16 + n % 16 := by
  rw [Nat.pow_succ', Nat.mod_mul, Nat.mul_comm, Nat.add_comm]

/-- Digits are read on to a number. -/
theorem scan_hexDigits (k n : Nat) (rest : List Char) :
    scan DoublePhase.next (.digits (later + k) value) (hexDigits n k ++ rest) =
      scan DoublePhase.next (.digits later (value * 16 ^ k + n % 16 ^ k)) rest := by
  induction k generalizing n later rest with
  | zero => simp [hexDigits, Nat.mod_one]
  | succ k ih =>
    have hdigit := hexValue?_capitalHex (n % 16) (Nat.mod_lt n (by decide))
    have hvalue : (value * 16 ^ k + n / 16 % 16 ^ k) * 16 + n % 16 =
        value * 16 ^ (k + 1) + n % 16 ^ (k + 1) := by
      rw [mod_sixteen_pow_succ, Nat.pow_succ, ← Nat.mul_assoc, Nat.add_mul, Nat.add_assoc]
    have hlast : DoublePhase.next (.digits (later + 1) (value * 16 ^ k + n / 16 % 16 ^ k))
        (capitalHex (n % 16)) =
        some (.digits later (value * 16 ^ (k + 1) + n % 16 ^ (k + 1)), []) := by
      rw [DoublePhase.next, hdigit, Option.map_some, hvalue]
    rw [hexDigits, List.append_assoc, ← Nat.add_assoc, Nat.add_right_comm, ih, List.cons_append,
      List.nil_append, scan_cons hlast]
    rfl

/-- So many digits are read as a character if its number has no more. -/
theorem scan_number {k : Nat} (hc : c.toNat < 16 ^ (k + 1)) (rest : List Char) :
    scan DoublePhase.next (.digits k 0) (hexDigits c.toNat (k + 1) ++ rest) =
      prepend [c] (scan DoublePhase.next .text rest) := by
  have hdigit := hexValue?_capitalHex (c.toNat % 16) (Nat.mod_lt _ (by decide))
  have hvalue := mod_sixteen_pow_succ c.toNat k
  rw [Nat.mod_eq_of_lt hc] at hvalue
  have hfront : scan DoublePhase.next (.digits (0 + k) 0)
      (hexDigits (c.toNat / 16) k ++ capitalHex (c.toNat % 16) :: rest) =
      scan DoublePhase.next (.digits 0 (0 * 16 ^ k + c.toNat / 16 % 16 ^ k))
        (capitalHex (c.toNat % 16) :: rest) := scan_hexDigits k _ _
  rw [Nat.zero_add, Nat.zero_mul, Nat.zero_add] at hfront
  have hlast : DoublePhase.next (.digits 0 (c.toNat / 16 % 16 ^ k)) (capitalHex (c.toNat % 16)) =
      some (.text, [c]) := by
    simp [DoublePhase.next, hdigit, ← hvalue, Char.ofNat_toNat]
  rw [hexDigits, List.append_assoc, List.cons_append, List.nil_append, hfront, scan_cons hlast]

/-- A letter that is written for a character is read as that character. -/
theorem unescape?_of_shortEscape? (h : shortEscape? c = some d) :
    DoublePhase.next .escape d = some (.text, [c]) := by
  revert h
  fun_cases shortEscape? c <;> rintro ⟨⟩ <;> rfl

/-- A character is read back from its escape. -/
theorem scan_escape (c : Char) (rest : List Char) :
    scan DoublePhase.next .text (escape c ++ rest) =
      prepend [c] (scan DoublePhase.next .text rest) := by
  have hslash : DoublePhase.next .text '\\' = some (.escape, []) := rfl
  rw [escape]
  split
  · next letter hletter =>
    rw [List.cons_append, List.cons_append, List.nil_append, scan_cons hslash,
      scan_cons (unescape?_of_shortEscape? hletter)]
    rfl
  · simp only
    have hbound : c.toNat < 16 ^ 8 := UInt32.toNat_lt c.val
    split
    · rw [List.cons_append, List.cons_append, scan_cons hslash, scan_cons rfl,
        scan_number (by omega)]
      rfl
    · split
      · rw [List.cons_append, List.cons_append, scan_cons hslash, scan_cons rfl,
          scan_number (by omega)]
        rfl
      · rw [List.cons_append, List.cons_append, scan_cons hslash, scan_cons rfl,
          scan_number (by omega)]
        rfl

/-- An escape begins with a backslash. -/
theorem head?_escape (c : Char) (rest : List Char) : (escape c ++ rest).head? = some '\\' := by
  rw [escape]
  split
  · rfl
  · simp only
    split
    · rfl
    · split <;> rfl

/-- A character that is not escaped stands for itself. -/
theorem next_of_not_needsEscape (hc : needsEscape c = false) :
    DoublePhase.next .text c = some (.text, [c]) := by
  have hquote : c ≠ '"' := by
    rintro rfl
    exact absurd hc (by decide)
  have hslash : c ≠ '\\' := by
    rintro rfl
    exact absurd hc (by decide)
  simp [DoublePhase.next, DoublePhase.next.ofText, hquote, hslash]

theorem DoublePhase.next_margin (c : Char) (hc : c ≠ ' ') : next margin c = next text c := by
  simp only [next, if_neg hc]

/-- A line may be broken in front of anything but a space. -/
theorem scan_broken {text : List Char} (htext : text.head? ≠ some ' ') :
    scan DoublePhase.next .text ('\\' :: (newLine indent ++ text)) =
      scan DoublePhase.next .text text := by
  rw [newLine, List.cons_append, scan_cons rfl, scan_cons rfl,
    scan_indent rfl DoublePhase.next_margin htext]
  rfl

/-- A line may be broken in front of a space that is escaped. -/
theorem scan_broken_space {text : List Char} (htext : text.head? = some ' ') :
    scan DoublePhase.next .text ('\\' :: (newLine indent ++ '\\' :: text)) =
      scan DoublePhase.next .text text := by
  have hsame : scan DoublePhase.next .escape text = scan DoublePhase.next .text text := by
    refine scan_congr fun c hc => ?_
    cases hc.symm.trans htext
    rfl
  rw [scan_broken (by simp), scan_cons rfl, hsame]
  rfl

/-- Pending characters are written first. -/
theorem prefix_writeDouble (indent column : Nat) (pending : List Char) (first : Bool)
    (cs : List Char) : pending <+: writeDouble indent column pending first cs := by
  fun_induction writeDouble indent column pending first cs with
  | case1 => exact List.prefix_rfl
  | case7 column pending first c rest inner hescape hfold ih =>
    exact (List.prefix_append pending [c]).trans ih
  | _ => simp only [List.append_assoc, List.prefix_append]

theorem head?_writeDouble_pending (rest : List Char) :
    (writeDouble indent column (c :: pending) first cs ++ rest).head? = some c := by
  obtain ⟨written, hwritten⟩ := prefix_writeDouble indent column (c :: pending) first cs
  rw [← hwritten]
  rfl

/-- A line that is not full begins with the space that comes next. -/
theorem head?_writeDouble_space (hcolumn : column ≤ margin) (rest : List Char) :
    (writeDouble indent column [] first (' ' :: cs) ++ rest).head? = some ' ' := by
  have hroom : ¬ margin < column + 0 := by omega
  rw [writeDouble]
  simp only [List.length_nil, hroom, decide_false, Bool.and_false]
  exact head?_writeDouble_pending rest

/-- A line does not begin with a space if another character comes next. -/
theorem head?_writeDouble (hc : c ≠ ' ') (rest : List Char) :
    (writeDouble indent column [] first (c :: cs) ++ rest).head? ≠ some ' ' := by
  have hcode : ∀ text, (escape c ++ text).head? ≠ some ' ' := by
    intro text hhead
    exact absurd ((head?_escape c text).symm.trans hhead) (by decide)
  rw [writeDouble]
  split
  · simp only [List.nil_append]
    split
    · split <;> simpa only [List.append_assoc] using hcode _
    · simpa only [List.append_assoc] using hcode _
  · split
    · simp
    · rw [List.nil_append, head?_writeDouble_pending]
      exact fun heq => hc (Option.some.inj heq)

/-- A text in double quotes is read back, up to the closing quote. -/
theorem scan_writeDouble (hmargin : indent < margin)
    (hpending : ∀ c ∈ pending, needsEscape c = false) :
    scan DoublePhase.next .text (writeDouble indent column pending first cs ++ '"' :: t) =
      (pending ++ cs, t) := by
  have hnone : ∀ c ∈ ([] : List Char), needsEscape c = false := by simp
  -- What is pending is read first, in each case.
  have hread : ∀ {text front : List Char}, (∀ c ∈ front, needsEscape c = false) →
      scan DoublePhase.next .text (front ++ text) =
        prepend front (scan DoublePhase.next .text text) :=
    fun hfront => scan_append (fun c hc => next_of_not_needsEscape (hfront c hc)) _
  fun_induction writeDouble indent column pending first cs with
  | case1 column pending first =>
    rw [hread hpending, scan_cons rfl]
    cases t <;> rfl
  | case2 column pending first c rest inner hescape code column' hbreak hspace ih =>
    have hhead : (writeDouble indent (indent + 1) [] false rest ++ '"' :: t).head? = some ' ' := by
      obtain ⟨_, rfl⟩ := List.head?_eq_some_iff.mp hspace
      exact head?_writeDouble_space hmargin _
    simp only [List.append_assoc, List.cons_append]
    rw [hread hpending, scan_escape, scan_broken_space hhead, ih hnone]
    rfl
  | case3 column pending first c rest inner hescape code column' hbreak hspace ih =>
    have hhead : (writeDouble indent indent [] false rest ++ '"' :: t).head? ≠ some ' ' := by
      cases rest with
      | nil => simp [writeDouble]
      | cons d rest => exact head?_writeDouble (fun heq => hspace (congrArg some heq)) _
    simp only [List.append_assoc, List.cons_append]
    rw [hread hpending, scan_escape, scan_broken hhead, ih hnone]
    rfl
  | case4 column pending first c rest inner hescape code column' hbreak ih =>
    simp only [List.append_assoc]
    rw [hread hpending, scan_escape, ih hnone]
    rfl
  | case5 column pending first rest inner hescape hfold ih =>
    have hhead : (writeDouble indent (indent + 1) [' '] false rest ++ '"' :: t).head? = some ' ' :=
      head?_writeDouble_pending _
    simp only [List.append_assoc, List.cons_append]
    rw [hread hpending, scan_broken_space hhead, ih (by simpa using hescape)]
    rfl
  | case6 column pending first c rest inner hescape hfold hspace ih =>
    have hhead : (writeDouble indent indent [c] false rest ++ '"' :: t).head? ≠ some ' ' := by
      rw [head?_writeDouble_pending]
      exact fun heq => hspace (Option.some.inj heq)
    simp only [List.append_assoc, List.cons_append]
    rw [hread hpending, scan_broken hhead, ih (by simpa using hescape)]
    rfl
  | case7 column pending first c rest inner hescape hfold ih =>
    have hpending' : ∀ d ∈ pending ++ [c], needsEscape d = false := by
      intro d hd
      rcases List.mem_append.mp hd with hold | hnew
      · exact hpending d hold
      · exact List.mem_singleton.mp hnew ▸ eq_false_of_ne_true hescape
    rw [ih hpending', List.append_assoc]
    rfl

end HostConfig.Yaml
