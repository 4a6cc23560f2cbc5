import HostConfig.Payload
import Mathlib.Data.List.Forall2

/-!
# Truth words

A property is a flag exactly when its text spells one of the words true and false, each letter in
either case. The long s, which has no case of its own, spells an s.
-/

namespace HostConfig.Payload

/-- Lower-case letters are told by their codes. -/
theorem isLower_iff {c : Char} : c.isLower ↔ 97 ≤ c.toNat ∧ c.toNat ≤ 122 := by
  unfold Char.isLower
  simp [UInt32.le_iff_toNat_le, ← Char.toNat_val]

/-- The lower-case form of an upper-case letter stands 32 places behind it. -/
theorem toNat_toLower (c : Char) :
    c.toLower.toNat = if 65 ≤ c.toNat ∧ c.toNat ≤ 90 then c.toNat + 32 else c.toNat := by
  unfold Char.toLower
  split
  · next h =>
    have hrange : 65 ≤ c.toNat ∧ c.toNat ≤ 90 := h
    have hsum : (c.val + ('a'.val - 'A'.val)).toNat = (c.toNat + 32) % 2 ^ 32 :=
      UInt32.toNat_add _ _
    rw [if_pos hrange, ← Char.toNat_val, hsum]
    omega
  · next h =>
    have hrange : ¬ (65 ≤ c.toNat ∧ c.toNat ≤ 90) := h
    rw [if_neg hrange]

/-- The upper-case form of a lower-case letter stands 32 places before it. -/
theorem toNat_toUpper {c : Char} (h : c.isLower) : c.toUpper.toNat = c.toNat - 32 := by
  have hrange : 97 ≤ c.toNat ∧ c.toNat ≤ 122 := isLower_iff.mp h
  have hsum : (c.val + ('A'.val - 'a'.val)).toNat = (c.toNat + (2 ^ 32 - 32)) % 2 ^ 32 :=
    UInt32.toNat_add _ _
  have hvals : 'a'.val ≤ c.val ∧ c.val ≤ 'z'.val := hrange
  unfold Char.toUpper
  rw [dif_pos hvals, ← Char.toNat_val, hsum]
  omega

/-- The characters with a given letter as their lower-case form are that letter in either case. -/
theorem toLower_eq_iff {letter c : Char} (h : letter.isLower) :
    c.toLower = letter ↔ c = letter ∨ c = letter.toUpper := by
  have hletter := isLower_iff.mp h
  simp only [← Char.toNat_inj, toNat_toLower, toNat_toUpper h]
  split <;> omega

/-- A character spells a lower-case letter if it is that letter in either case, and a long s spells
an s. -/
def SpellsLetter (letter c : Char) : Prop :=
  c = letter ∨ c = letter.toUpper ∨ (letter = 's' ∧ c = 'ſ')

/-- A text spells a word letter by letter. -/
def Spells (word : String) (text : List Char) : Prop :=
  List.Forall₂ SpellsLetter word.toList text

/-- A character counts as the letter that it spells. -/
theorem plainLetter_eq_iff {letter c : Char} (h : letter.isLower) :
    plainLetter c = letter ↔ SpellsLetter letter c := by
  unfold plainLetter SpellsLetter
  by_cases hlong : c = 'ſ'
  · -- The long s is its own lower-case form, and so no letter in either case.
    have hnone : ¬ ('ſ' = letter ∨ 'ſ' = letter.toUpper) := by
      rw [← toLower_eq_iff h]
      rintro rfl
      exact absurd h (by decide)
    rw [not_or] at hnone
    simp [hlong, hnone, eq_comm]
  · simp [hlong, toLower_eq_iff h]

/-- A text reads as a word without regard to letter case exactly when it spells it. -/
theorem map_plainLetter_eq_iff {word : String} {text : List Char}
    (h : word.toList.all Char.isLower) :
    text.map plainLetter = word.toList ↔ Spells word text := by
  unfold Spells
  generalize word.toList = letters at h ⊢
  induction text generalizing letters with
  | nil => cases letters <;> simp
  | cons c rest ih =>
    cases letters with
    | nil => simp
    | cons letter letters =>
      rw [List.all_cons, Bool.and_eq_true] at h
      rw [List.map_cons, List.cons.injEq, List.forall₂_cons, plainLetter_eq_iff h.1, ih _ h.2]

/-- What a trimmed text means: a flag if it spells a truth word, and else itself. -/
inductive Denotes (text : List Char) : PropertyValue → Prop
  | yes (h : Spells "true" text) : Denotes text (.flag true)
  | no (h : Spells "false" text) : Denotes text (.flag false)
  | other (htrue : ¬ Spells "true" text) (hfalse : ¬ Spells "false" text) :
    Denotes text (.text (String.ofList text))

/-- No text spells both truth words. -/
theorem not_spells_false {text : List Char} (h : Spells "true" text) : ¬ Spells "false" text := by
  intro hfalse
  exact absurd (h.length_eq.trans hfalse.length_eq.symm) (by decide)

/-- Reading a text tells the two words apart from all others. -/
theorem ofText_eq (text : List Char) [Decidable (Spells "true" text)]
    [Decidable (Spells "false" text)] : PropertyValue.ofText text =
      if Spells "true" text then .flag true
      else if Spells "false" text then .flag false else .text (String.ofList text) := by
  have htrue : text.map plainLetter = "true".toList ↔ Spells "true" text :=
    map_plainLetter_eq_iff (by decide)
  have hfalse : text.map plainLetter = "false".toList ↔ Spells "false" text :=
    map_plainLetter_eq_iff (by decide)
  simp only [PropertyValue.ofText, ← htrue, ← hfalse]

/-- A text is read as what it means. -/
theorem ofText_eq_iff {text : List Char} {value : PropertyValue} :
    PropertyValue.ofText text = value ↔ Denotes text value := by
  classical
  rw [ofText_eq]
  constructor
  · rintro rfl
    split
    · next hyes => exact .yes hyes
    · next hyes =>
      split
      · next hno => exact .no hno
      · next hno => exact .other hyes hno
  · intro h
    cases h with
    | yes hyes => rw [if_pos hyes]
    | no hno => rw [if_neg fun hyes => not_spells_false hyes hno, if_pos hno]
    | other hyes hno => rw [if_neg hyes, if_neg hno]

/-- The long s is an s. -/
example : PropertyValue.ofText "FALſe".toList = .flag false := by decide

end HostConfig.Payload
