import HostConfig.Json.Value
import HostConfig.Proofs.Json.Grammar
import Mathlib.Data.List.Basic

/-!
# Strings and integers in JSON texts

What spells the characters of a string is read back as these, up to the closing quote, and what spells
an integer is read back when no digit follows. The escapes of characters and the decimal digits of
integers spell them.
-/

namespace HostConfig.Json

/-- A text does not go on with a digit. -/
def EndsNumber (rest : List Char) : Prop := ∀ c ∈ rest.head?, c.isDigit = false

theorem isGap_nil : IsGap [] := fun _ h => absurd h List.not_mem_nil

theorem isGap_newLine (level : Nat) : IsGap (newLine level) := by
  intro c hc
  rcases List.mem_cons.mp hc with rfl | hspace
  · exact Or.inr (Or.inr (Or.inl rfl))
  · exact Or.inl (List.eq_of_mem_replicate hspace)

/-- Blanks between tokens are skipped. -/
theorem skipBlanks_append {gap : List Char} (hgap : IsGap gap) (rest : List Char) :
    skipBlanks (gap ++ rest) = skipBlanks rest := by
  apply List.dropWhile_append_of_pos
  intro c hc
  rcases hgap c hc with rfl | rfl | rfl | rfl <;> decide

/-- Hexadecimal digits denote what they are written for. -/
theorem hexValue?_hexDigit : ∀ n < 16, hexValue? (hexDigit n) = some n := by decide

/-- Four hexadecimal digits denote a number below two hundred fifty-six. -/
theorem unit?_hexDigits {n : Nat} (h : n < 256) :
    unit? '0' '0' (hexDigit (n / 16)) (hexDigit (n % 16)) = some n := by
  have hzero : hexValue? '0' = some 0 := by decide
  have hhigh := hexValue?_hexDigit (n / 16) (by omega)
  have hlow := hexValue?_hexDigit (n % 16) (by omega)
  simp only [unit?, hzero, hhigh, hlow, Option.pure_def, Option.bind_eq_bind, Option.bind_some]
  congr 1
  omega

/-- A character that stands for itself is read as it is. -/
theorem readString_plain {c : Char} (hquote : c ≠ '"') (hslash : c ≠ '\\') (hlow : ¬ c.toNat < 0x20)
    (rest : List Char) : readString (c :: rest) = consRead c (readString rest) := by
  rw [readString.eq_def]
  split
  · next heq => exact absurd (List.cons.inj heq).1 hquote
  · next heq => exact absurd (List.cons.inj heq).1 hslash
  · next heq => exact absurd (List.cons.inj heq).1 hslash
  · next heq =>
    obtain ⟨rfl, rfl⟩ := List.cons.inj heq
    rw [if_neg (by simp [hlow, hslash])]
  · next heq => cases heq

/-- What spells characters is read as them, up to the closing quote. -/
theorem SpellsChars.readString_append {written cs : List Char} (h : SpellsChars written cs)
    (rest : List Char) : readString (written ++ '"' :: rest) = some (cs, rest) := by
  induction h with
  | nil => rfl
  | plain hquote hslash hlow h ih =>
    rw [List.cons_append, readString_plain hquote hslash hlow, ih]
    rfl
  | @letter letter c written cs hletter h ih =>
    have hread : readString ('\\' :: letter :: (written ++ '"' :: rest)) =
        consRead c (readString (written ++ '"' :: rest)) := by
      revert hletter
      fun_cases unescape? letter <;> rintro ⟨⟩ <;> rfl
    rw [List.cons_append, List.cons_append, hread, ih]
    rfl
  | @unit a b c d n written cs hunit hwhole h ih =>
    have hhigh : ¬ (0xD800 ≤ n ∧ n < 0xDC00) := by omega
    have hlow : ¬ (0xDC00 ≤ n ∧ n < 0xE000) := by omega
    simp only [List.cons_append]
    rw [readString]
    simp only [hunit, Bool.and_eq_true, decide_eq_true_eq, hhigh, hlow, if_false, ih]
    rfl
  | @pair a b c d n a' b' c' d' n' written cs hunit hhigh hunit' hlow h ih =>
    simp only [List.cons_append]
    rw [readString]
    simp only [hunit, hunit', Bool.and_eq_true, decide_eq_true_eq, hhigh, hlow, and_self, if_true,
      ih]
    rfl

/-- The escape of a character spells it. -/
theorem SpellsChars.escape {written cs : List Char} (h : SpellsChars written cs) (c : Char) :
    SpellsChars (escape c ++ written) (c :: cs) := by
  fun_cases Json.escape c with
  | case1 hc | case2 _ hc | case3 _ _ hc | case4 _ _ _ hc | case5 _ _ _ _ hc | case6 _ _ _ _ _ hc
  | case7 _ _ _ _ _ _ hc =>
    subst hc
    exact .letter rfl h
  | case8 _ _ _ _ _ _ _ hlow =>
    have hunit := unit?_hexDigits (n := c.toNat) (by omega)
    have hnumber := SpellsChars.unit hunit (Or.inl (by omega)) h
    rwa [Char.ofNat_toNat] at hnumber
  | case9 hquote hslash _ _ _ _ _ hlow => exact .plain hquote hslash hlow h

/-- The escapes of the characters of a text spell it. -/
theorem spellsChars_flatMap_escape (cs : List Char) : SpellsChars (cs.flatMap escape) cs := by
  induction cs with
  | nil => exact .nil
  | cons c cs ih => exact ih.escape c

/-- The digits of a number denote it. -/
theorem digitsValue_toDigits (n : Nat) : digitsValue (Nat.toDigits 10 n) = n := by
  have hstep : (fun (n : Nat) (c : Char) => n * 10 + (c.toNat - 48)) =
      fun n c => 10 * n + (c.toNat - '0'.toNat) := by
    funext n c
    rw [Nat.mul_comm]
    rfl
  rw [digitsValue, hstep]
  exact Nat.ofDigitChars_toDigits (by decide) (by decide)

/-- The digits of a number do not begin with a zero that other digits follow. -/
theorem toDigits_ne_zero_cons (n : Nat) (d : Char) (ds : List Char) :
    Nat.toDigits 10 n ≠ '0' :: d :: ds := by
  induction n using Nat.strongRecOn generalizing d ds with
  | ind n ih =>
    intro h
    by_cases hn : n < 10
    · rw [Nat.toDigits_of_lt_base hn] at h
      have hlength := congrArg List.length h
      simp at hlength
    · rw [Nat.toDigits_of_base_le (by decide) (by omega)] at h
      have hsmaller : n / 10 < n := by omega
      rcases hfront : Nat.toDigits 10 (n / 10) with _ | ⟨c, _ | ⟨d', ds'⟩⟩
      · exact Nat.toDigits_ne_nil hfront
      · rw [hfront] at h
        have hzero : digitsValue ['0'] = n / 10 := by
          rw [← digitsValue_toDigits (n / 10), hfront, (List.cons.inj h).1]
        have hnothing : digitsValue ['0'] = 0 := by decide
        omega
      · rw [hfront] at h
        exact ih (n / 10) hsmaller d' ds' (by rw [hfront, (List.cons.inj h).1])

/-- The digits of a number are such as a number may have. -/
theorem isNumeral_toDigits (n : Nat) : IsNumeral (Nat.toDigits 10 n) where
  ne_nil := Nat.toDigits_ne_nil
  isDigit _ hc := Nat.isDigit_of_mem_toDigits (by decide) (by decide) hc
  ne_zero_cons := toDigits_ne_zero_cons n

/-- Digits are read as the number that they denote if no digit follows. -/
theorem IsNumeral.readNat?_append {digits rest : List Char} (h : IsNumeral digits)
    (hrest : EndsNumber rest) : readNat? (digits ++ rest) = some (digitsValue digits, rest) := by
  have hend : rest.takeWhile Char.isDigit = [] ∧ rest.dropWhile Char.isDigit = rest := by
    cases rest with
    | nil => exact ⟨rfl, rfl⟩
    | cons c rest =>
      have hc : c.isDigit = false := hrest c rfl
      simp [hc]
  rw [readNat?]
  simp only [List.takeWhile_append_of_pos h.isDigit, List.dropWhile_append_of_pos h.isDigit,
    hend.1, hend.2, List.append_nil]
  split
  · exact absurd rfl h.ne_nil
  · exact absurd rfl (h.ne_zero_cons _ _)
  · rfl

/-- What spells an integer begins with a minus sign or a digit. -/
theorem SpellsInt.begins {text : List Char} {n : Int} (h : SpellsInt text n) :
    ∃ c tail, text = c :: tail ∧ (c = '-' ∨ c.isDigit = true) := by
  cases h with
  | natural h =>
    obtain ⟨c, tail, rfl⟩ := List.exists_cons_of_ne_nil h.ne_nil
    exact ⟨c, tail, rfl, Or.inr (h.isDigit c List.mem_cons_self)⟩
  | negative h => exact ⟨'-', _, rfl, Or.inl rfl⟩

/-- What spells an integer is read as it if no digit follows. -/
theorem SpellsInt.readInt?_append {text rest : List Char} {n : Int} (h : SpellsInt text n)
    (hrest : EndsNumber rest) : readInt? (text ++ rest) = some (n, rest) := by
  cases h with
  | natural h =>
    rw [readInt?.eq_def]
    split
    · next heq =>
      obtain ⟨c, tail, rfl⟩ := List.exists_cons_of_ne_nil h.ne_nil
      have hc := h.isDigit c List.mem_cons_self
      rw [(List.cons.inj heq).1] at hc
      cases hc
    · rw [h.readNat?_append hrest]
      rfl
  | negative h =>
    rw [List.cons_append, readInt?, h.readNat?_append hrest]
    rfl

/-- A natural number is written with its digits. -/
theorem toList_toString_ofNat (n : Nat) : (toString (Int.ofNat n)).toList = Nat.toDigits 10 n :=
  Nat.toList_repr

/-- A negative number is written with a minus sign and digits. -/
theorem toList_toString_negSucc (n : Nat) :
    (toString (Int.negSucc n)).toList = '-' :: Nat.toDigits 10 (n + 1) := by
  change ("-" ++ (n + 1).repr).toList = _
  rw [String.toList_append, Nat.toList_repr]
  rfl

/-- The decimal digits of an integer spell it. -/
theorem spellsInt_toString (n : Int) : SpellsInt (toString n).toList n := by
  cases n with
  | ofNat m =>
    have hspells := SpellsInt.natural (isNumeral_toDigits m)
    rw [digitsValue_toDigits] at hspells
    exact (toList_toString_ofNat m).symm ▸ hspells
  | negSucc m =>
    have hspells := SpellsInt.negative (isNumeral_toDigits (m + 1))
    rw [digitsValue_toDigits] at hspells
    exact (toList_toString_negSucc m).symm ▸ hspells

end HostConfig.Json
