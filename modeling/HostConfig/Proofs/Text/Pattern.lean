import HostConfig.Text.Pattern
import HostConfig.Text.Pieces
import Mathlib.Computability.Language

/-!
# The language of a pattern

A pattern stands for a language that is put together by union, concatenation and repetition. The
derivative by a character stands for what may follow that character in a text, also where parts that
cannot match are dropped, so that taking derivatives accepts exactly the texts of the language.
-/

namespace HostConfig.Text

open Computability

/-- Joined parts are the first one and the others with a separator in front of each. -/
theorem joinWith_cons (separator : Char) (first : List Char) (others : List (List Char)) :
    joinWith [separator] (first :: others) = first ++ (others.map (separator :: ·)).flatten := by
  induction others generalizing first with
  | nil => simp [joinWith]
  | cons second others ih => simp [joinWith, ih]

namespace Pattern

/-- The texts that a pattern stands for. -/
def language : Pattern → Language Char
  | never => 0
  | empty => 1
  | one ok => {text | ∃ c, ok c ∧ text = [c]}
  | seq p q => p.language * q.language
  | alt p q => p.language + q.language
  | star p => p.language∗

variable {l m : Language Char} {p q : Pattern} {ok : Char → Bool} {c : Char}
  {text rest : List Char}

/-- A text of a concatenation begins with a character of its first part, unless that is empty. -/
theorem cons_mem_mul_iff : c :: rest ∈ l * m ↔
    (∃ front, c :: front ∈ l ∧ ∃ back ∈ m, front ++ back = rest) ∨ [] ∈ l ∧ c :: rest ∈ m := by
  rw [Language.mem_mul]
  constructor
  · rintro ⟨front, hfront, back, hback, htext⟩
    cases front with
    | nil => exact Or.inr ⟨hfront, htext ▸ hback⟩
    | cons d front =>
      obtain ⟨rfl, hrest⟩ := List.cons.inj htext
      exact Or.inl ⟨front, hfront, back, hback, hrest⟩
  · rintro (⟨front, hfront, back, hback, rfl⟩ | ⟨hnil, hrest⟩)
    · exact ⟨c :: front, hfront, back, hback, rfl⟩
    · exact ⟨[], hnil, c :: rest, hrest, rfl⟩

/-- A text of a repetition begins with a character of one round, and further rounds follow. -/
theorem cons_mem_kstar_iff : c :: rest ∈ l∗ ↔
    ∃ front, c :: front ∈ l ∧ ∃ back ∈ l∗, front ++ back = rest := by
  constructor
  · intro h
    obtain ⟨rounds, htext, hrounds⟩ := Language.mem_kstar_iff_exists_nonempty.mp h
    -- Rounds without a character can be left out, so the first one holds the first character.
    cases rounds with
    | nil => cases htext
    | cons first rounds =>
      obtain ⟨⟨hfirst, hne⟩, hlater⟩ := List.forall_mem_cons.mp hrounds
      cases first with
      | nil => contradiction
      | cons d front =>
        rw [List.flatten_cons, List.cons_append] at htext
        obtain ⟨rfl, hrest⟩ := List.cons.inj htext
        have hback : rounds.flatten ∈ l∗ :=
          Language.join_mem_kstar fun round hround => (hlater round hround).1
        exact ⟨front, hfirst, _, hback, hrest.symm⟩
  · rintro ⟨front, hfront, back, ⟨rounds, rfl, hrounds⟩, rfl⟩
    exact ⟨(c :: front) :: rounds, rfl, List.forall_mem_cons.mpr ⟨hfront, hrounds⟩⟩

/-- A pattern matches the empty text exactly when its language holds it. -/
theorem nullable_iff : p.nullable ↔ [] ∈ p.language := by
  induction p with
  | never => simp [nullable, language]
  | empty => simp [nullable, language]
  | one ok =>
    refine iff_of_false Bool.false_ne_true ?_
    rintro ⟨c, -, htext⟩
    cases htext
  | seq p q ihp ihq =>
    rw [nullable, Bool.and_eq_true, ihp, ihq, language, Language.mem_mul]
    constructor
    · exact fun ⟨hp, hq⟩ => ⟨[], hp, [], hq, rfl⟩
    · rintro ⟨front, hfront, back, hback, htext⟩
      obtain ⟨rfl, rfl⟩ := List.append_eq_nil_iff.mp htext
      exact ⟨hfront, hback⟩
  | alt p q ihp ihq => rw [nullable, Bool.or_eq_true, ihp, ihq, language, Language.mem_add]
  | star p => exact iff_of_true rfl (Language.nil_mem_kstar _)

/-- Dropping what cannot match leaves the language of a sequence as it is. -/
theorem language_followedBy (p q : Pattern) :
    (followedBy p q).language = p.language * q.language := by
  fun_cases followedBy p q <;> simp [language]

/-- Dropping what cannot match leaves the language of a choice as it is. -/
theorem language_orElse (p q : Pattern) : (orElse p q).language = p.language + q.language := by
  fun_cases orElse p q <;> simp [language]

/-- The derivative by a character stands for what may follow it. -/
theorem mem_language_derivative_iff :
    rest ∈ (p.derivative c).language ↔ c :: rest ∈ p.language := by
  induction p generalizing rest with
  | never => rfl
  | empty => exact iff_of_false id (List.cons_ne_nil c rest)
  | one ok =>
    have hcons : c :: rest ∈ (one ok).language ↔ ok c ∧ rest = [] := by
      constructor
      · rintro ⟨d, hd, htext⟩
        obtain ⟨rfl, hrest⟩ := List.cons.inj htext
        exact ⟨hd, hrest⟩
      · rintro ⟨hc, rfl⟩
        exact ⟨c, hc, rfl⟩
    rw [hcons, derivative]
    by_cases hc : ok c
    · simp [hc, language]
    · simp [hc, language]
  | seq p q ihp ihq =>
    rw [derivative, language, cons_mem_mul_iff, ← nullable_iff]
    by_cases hnull : p.nullable
    · simp only [hnull, if_true, language_orElse, language_followedBy, Language.mem_add,
        Language.mem_mul, ihp, ihq, true_and]
    · simp only [hnull, Bool.false_eq_true, if_false, language_followedBy, Language.mem_mul, ihp,
        false_and, or_false]
  | alt p q ihp ihq =>
    rw [derivative, language_orElse, Language.mem_add, ihp, ihq, language, Language.mem_add]
  | star p ih =>
    rw [derivative, language_followedBy, Language.mem_mul]
    simp only [ih, language, cons_mem_kstar_iff]

/-- A pattern accepts exactly the texts of its language. -/
theorem accepts_iff : p.accepts text ↔ text ∈ p.language := by
  induction text generalizing p with
  | nil => exact nullable_iff
  | cons c rest ih => rw [accepts, ih, mem_language_derivative_iff]

/-- A repeated character stands for the texts of such characters. -/
theorem mem_language_star_one_iff : text ∈ (star (one ok)).language ↔ ∀ c ∈ text, ok c := by
  induction text with
  | nil => exact iff_of_true (Language.nil_mem_kstar _) (by simp)
  | cons c rest ih =>
    rw [language, cons_mem_kstar_iff, List.forall_mem_cons, ← ih]
    constructor
    · rintro ⟨front, ⟨d, hd, htext⟩, back, hback, rfl⟩
      obtain ⟨rfl, rfl⟩ := List.cons.inj htext
      exact ⟨hd, hback⟩
    · rintro ⟨hc, hrest⟩
      exact ⟨[], ⟨c, hc, rfl⟩, rest, hrest, rfl⟩

/-- One or more such characters stand for the texts of them that are not empty. -/
theorem mem_language_plus_one_iff :
    text ∈ (plus (one ok)).language ↔ text ≠ [] ∧ ∀ c ∈ text, ok c := by
  rw [plus, language, Language.mem_mul]
  constructor
  · rintro ⟨_, ⟨c, hc, rfl⟩, rest, hrest, rfl⟩
    exact ⟨List.cons_ne_nil _ _,
      List.forall_mem_cons.mpr ⟨hc, mem_language_star_one_iff.mp hrest⟩⟩
  · rintro ⟨hne, hall⟩
    cases text with
    | nil => contradiction
    | cons c rest =>
      obtain ⟨hc, hrest⟩ := List.forall_mem_cons.mp hall
      exact ⟨[c], ⟨c, hc, rfl⟩, rest, mem_language_star_one_iff.mpr hrest, rfl⟩

/-- A character and then a pattern stand for that character in front of the pattern's texts. -/
theorem mem_language_seq_char_iff {d : Char} :
    text ∈ (seq (char d) p).language ↔ ∃ part ∈ p.language, d :: part = text := by
  rw [language, Language.mem_mul]
  constructor
  · rintro ⟨_, ⟨c, hc, rfl⟩, part, hpart, rfl⟩
    exact ⟨part, hpart, by simpa using (beq_iff_eq.mp hc).symm⟩
  · rintro ⟨part, hpart, rfl⟩
    exact ⟨[d], ⟨d, beq_self_eq_true _, rfl⟩, part, hpart, rfl⟩

/-- One or more parts, with a separator in front of each but the first. -/
def separated (separator : Char) (p : Pattern) : Pattern := seq p (star (seq (char separator) p))

/-- Parts with separators between them are what is joined of texts of the language. -/
theorem mem_language_separated_iff {separator : Char} :
    text ∈ (separated separator p).language ↔
      ∃ parts, parts ≠ [] ∧ (∀ part ∈ parts, part ∈ p.language) ∧
        text = joinWith [separator] parts := by
  rw [separated, language, Language.mem_mul]
  constructor
  · rintro ⟨first, hfirst, _, ⟨blocks, rfl, hblocks⟩, rfl⟩
    -- Each block is a separator and a part, which is left when the separator is taken off.
    have hparts : ∀ block ∈ blocks, block.tail ∈ p.language ∧ separator :: block.tail = block := by
      intro block hmem
      obtain ⟨part, hpart, rfl⟩ := mem_language_seq_char_iff.mp (hblocks block hmem)
      exact ⟨hpart, rfl⟩
    have hmap : (blocks.map List.tail).map (separator :: ·) = blocks := by
      rw [List.map_map]
      exact (List.map_congr_left fun block hmem => (hparts block hmem).2).trans (List.map_id _)
    refine ⟨first :: blocks.map List.tail, List.cons_ne_nil _ _, ?_, ?_⟩
    · rw [List.forall_mem_cons, List.forall_mem_map]
      exact ⟨hfirst, fun block hmem => (hparts block hmem).1⟩
    · rw [joinWith_cons, hmap]
  · rintro ⟨parts, hne, hparts, rfl⟩
    cases parts with
    | nil => contradiction
    | cons first others =>
      obtain ⟨hfirst, hothers⟩ := List.forall_mem_cons.mp hparts
      have hblocks : ∀ block ∈ others.map (separator :: ·),
          block ∈ (seq (char separator) p).language := by
        rw [List.forall_mem_map]
        exact fun part hpart => mem_language_seq_char_iff.mpr ⟨part, hothers part hpart, rfl⟩
      exact ⟨first, hfirst, _, Language.join_mem_kstar hblocks,
        (joinWith_cons separator first others).symm⟩

end Pattern

end HostConfig.Text
