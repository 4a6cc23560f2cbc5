import HostConfig.Payload
import Mathlib.Data.List.Basic

/-!
# Splitting a text at a mark

Assignments and mappings are split in the same way, at a mark with a key before it and a value
behind it. A search tries the whole first word as the key, and then the parts before the marks in
that word, the last one first. What it finds is the split with the longest key among all that are
possible, and it finds one if there is any.
-/

namespace HostConfig.Payload

open HostConfig.Text

/-- The value behind a mark that a text begins with. -/
def markedValue? (mark : List Char) (value? : List Char → Option (List Char)) (text : List Char) :
    Option (List Char) :=
  if mark.isPrefixOf text then value? (text.drop mark.length) else none

/-- Split at the last mark of a word that a value stands behind, given the characters before the
word. -/
def splitWord? (mark : List Char) (value? : List Char → Option (List Char)) (before : List Char) :
    List Char → Option (List Char × List Char)
  | [] => none
  | c :: word =>
    match splitWord? mark value? (before ++ [c]) word with
    | some split => some split
    | none =>
      if before.isEmpty then none else (markedValue? mark value? (c :: word)).map (before, ·)

/-- Split at a mark behind the first word, or else at the last one in it. -/
def split? (mark : List Char) (value? : List Char → Option (List Char)) (text : List Char) :
    Option (List Char × List Char) :=
  let word := firstWord text
  let rest := afterWord text
  let spaced := if word.isEmpty then none else markedValue? mark value? (trimStart rest)
  match spaced with
  | some value => some (word, value)
  | none => splitWord? mark (fun tail => value? (tail ++ rest)) [] word

variable {mark : List Char} {value? : List Char → Option (List Char)}
  {text before word key value : List Char}

/-- In a word assignments are split at equals signs. -/
theorem splitInWord_eq_splitWord? (before word rest : List Char) :
    splitInWord before word rest =
      splitWord? ['='] (fun tail => assignedValue (tail ++ rest)) before word := by
  induction word generalizing before with
  | nil => rfl
  | cons c word ih =>
    rw [splitInWord, splitWord?, ih]
    cases splitWord? ['='] (fun tail => assignedValue (tail ++ rest)) (before ++ [c]) word with
    | some split => rfl
    | none =>
      by_cases hc : c = '='
      · cases before <;> simp [hc, markedValue?]
      · simp [hc, Ne.symm hc, markedValue?]

/-- In a word mappings are split at arrows. -/
theorem splitAtArrow_eq_splitWord? (before word rest : List Char) :
    splitAtArrow before word rest =
      splitWord? ['-', '>'] (fun tail => destination? (tail ++ rest)) before word := by
  induction word generalizing before with
  | nil => rfl
  | cons c word ih =>
    unfold splitAtArrow
    rw [splitWord?, ih]
    cases splitWord? ['-', '>'] (fun tail => destination? (tail ++ rest)) (before ++ [c]) word with
    | some split => rfl
    | none =>
      dsimp only
      split
      · simp [markedValue?]
      · next hmark =>
        have hprefix : ¬ ['-', '>'] <+: c :: word := by
          rintro ⟨tail, htail⟩
          obtain ⟨rfl, rfl⟩ := List.cons.inj htail
          exact hmark tail rfl rfl
        simp [markedValue?, List.isPrefixOf_iff_prefix, hprefix]

/-- Assignments are split at equals signs. -/
theorem assignment?_eq_split? (payload : List Char) :
    assignment? payload = split? ['='] assignedValue payload := by
  rw [assignment?, split?]
  simp only [splitInWord_eq_splitWord?]
  cases firstWord payload with
  | nil => rfl
  | cons c word =>
    cases trimStart (afterWord payload) with
    | nil => simp [markedValue?]
    | cons d rest =>
      by_cases hd : d = '='
      · cases hvalue : assignedValue rest <;> simp [hd, hvalue, markedValue?]
      · simp [hd, Ne.symm hd, markedValue?]

/-- Mappings are split at arrows. -/
theorem mapping?_eq_split? (payload : List Char) :
    mapping? payload = split? ['-', '>'] destination? payload := by
  rw [mapping?, split?]
  simp only [splitAtArrow_eq_splitWord?]
  cases firstWord payload with
  | nil => rfl
  | cons c word =>
    generalize trimStart (afterWord payload) = rest
    by_cases hmark : ['-', '>'] <+: rest
    · obtain ⟨tail, rfl⟩ := hmark
      cases hvalue : destination? tail <;> simp [hvalue, markedValue?]
    · have hne : ∀ tail, rest ≠ '-' :: '>' :: tail := fun tail htail => hmark ⟨tail, htail.symm⟩
      simp [hne, markedValue?, List.isPrefixOf_iff_prefix, hmark]

/-- A key and a value are possible, and no longer key is. -/
def IsLongest (P : List Char → List Char → Prop) (key value : List Char) : Prop :=
  P key value ∧ ∀ key' value', P key' value' → key'.length ≤ key.length

/-- A search finds what has the longest key of all that is possible, and nothing only if nothing is
possible. -/
def FindsLongest (P : List Char → List Char → Prop) : Option (List Char × List Char) → Prop
  | none => ∀ key value, ¬ P key value
  | some (key, value) => IsLongest P key value

variable {P : List Char → List Char → Prop} {found : Option (List Char × List Char)}

/-- A search finds something exactly when something is possible. -/
theorem FindsLongest.exists_eq_some_iff (h : FindsLongest P found) :
    (∃ key value, found = some (key, value)) ↔ ∃ key value, P key value := by
  rcases found with _ | ⟨key, value⟩
  · refine iff_of_false ?_ fun ⟨key, value, hP⟩ => h key value hP
    rintro ⟨_, _, hsome⟩
    cases hsome
  · exact ⟨fun _ => ⟨key, value, h.1⟩, fun _ => ⟨key, value, rfl⟩⟩

/-- If there is one possibility for each length of a key, a search finds exactly the longest. -/
theorem FindsLongest.eq_some_iff (h : FindsLongest P found)
    (hunique : ∀ key value key' value', P key value → P key' value' → key.length = key'.length →
      key = key' ∧ value = value') :
    found = some (key, value) ↔ IsLongest P key value := by
  rcases found with _ | ⟨key', value'⟩
  · exact iff_of_false (fun hsome => by cases hsome) fun hlongest => h key value hlongest.1
  · constructor
    · intro heq
      cases heq
      exact h
    · intro hlongest
      have hlength := Nat.le_antisymm (hlongest.2 _ _ h.1) (h.2 _ _ hlongest.1)
      obtain ⟨rfl, rfl⟩ := hunique _ _ _ _ h.1 hlongest.1 hlength
      rfl

/-- A value stands behind a mark. -/
theorem markedValue?_eq_some_iff :
    markedValue? mark value? text = some value ↔ ∃ tail, text = mark ++ tail ∧ value? tail = some value := by
  unfold markedValue?
  split
  · next hmark =>
    obtain ⟨tail, rfl⟩ := List.isPrefixOf_iff_prefix.mp hmark
    simp
  · next hmark =>
    constructor
    · intro hnone
      cases hnone
    · rintro ⟨tail, rfl, -⟩
      exact absurd (List.isPrefixOf_iff_prefix.mpr (List.prefix_append _ _)) hmark

/-- A word is the rest of a key, a mark and what has a value. -/
def IsWordSplit (mark : List Char) (value? : List Char → Option (List Char))
    (before word key value : List Char) : Prop :=
  key ≠ [] ∧ ∃ part tail, key = before ++ part ∧ word = part ++ (mark ++ tail) ∧
    value? tail = some value

/-- The mark stands behind the first character of a word, or else at its start. -/
theorem isWordSplit_cons {c : Char} : IsWordSplit mark value? before (c :: word) key value ↔
    IsWordSplit mark value? (before ++ [c]) word key value ∨
      key = before ∧ before ≠ [] ∧ markedValue? mark value? (c :: word) = some value := by
  rw [markedValue?_eq_some_iff]
  constructor
  · rintro ⟨hne, part, tail, rfl, hword, hvalue⟩
    cases part with
    | nil =>
      rw [List.append_nil] at hne ⊢
      exact Or.inr ⟨rfl, hne, tail, hword, hvalue⟩
    | cons d part =>
      obtain ⟨rfl, rfl⟩ := List.cons.inj hword
      exact Or.inl ⟨hne, part, tail, by simp, rfl, hvalue⟩
  · rintro (⟨hne, part, tail, rfl, rfl, hvalue⟩ | ⟨rfl, hne, tail, hword, hvalue⟩)
    · exact ⟨hne, c :: part, tail, by simp, rfl, hvalue⟩
    · exact ⟨hne, [], tail, by simp, hword, hvalue⟩

/-- The search in a word finds the longest key. -/
theorem findsLongest_splitWord? (hmark : mark ≠ []) (before word : List Char) :
    FindsLongest (IsWordSplit mark value? before word) (splitWord? mark value? before word) := by
  induction word generalizing before with
  | nil =>
    rintro key value ⟨-, part, tail, -, hword, -⟩
    simp [hmark] at hword
  | cons c word ih =>
    have hlater := ih (before ++ [c])
    rw [splitWord?]
    rcases hfound : splitWord? mark value? (before ++ [c]) word with _ | ⟨key, value⟩
    · rw [hfound] at hlater
      have hcons : ∀ key value, IsWordSplit mark value? before (c :: word) key value ↔
          key = before ∧ before ≠ [] ∧ markedValue? mark value? (c :: word) = some value := by
        intro key value
        rw [isWordSplit_cons, or_iff_right (hlater key value)]
      by_cases hbefore : before = []
      · subst before
        exact fun key value h => ((hcons key value).mp h).2.1 rfl
      · have hfilled : before.isEmpty = false := by simpa using hbefore
        simp only [hfilled, Bool.false_eq_true, if_false]
        cases hvalue : markedValue? mark value? (c :: word) with
        | none =>
          intro key value h
          rw [hcons, hvalue] at h
          cases h.2.2
        | some value =>
          refine ⟨(hcons _ _).mpr ⟨rfl, hbefore, hvalue⟩, fun key' value' h => ?_⟩
          exact ((hcons _ _).mp h).1 ▸ Nat.le_refl _
    · rw [hfound] at hlater
      refine ⟨isWordSplit_cons.mpr (Or.inl hlater.1), fun key' value' h => ?_⟩
      rcases isWordSplit_cons.mp h with hbehind | ⟨rfl, -⟩
      · exact hlater.2 _ _ hbehind
      · obtain ⟨-, part, tail, rfl, -⟩ := hlater.1
        simp

/-- A text is a key without blanks, maybe blanks, a mark and what has a value. -/
structure IsSplit (mark : List Char) (value? : List Char → Option (List Char))
    (text key value : List Char) : Prop where
  ne_nil : key ≠ []
  ink : ∀ c ∈ key, isInk c
  exists_eq : ∃ gap tail, (∀ c ∈ gap, isBlank c) ∧ text = key ++ (gap ++ (mark ++ tail)) ∧
    value? tail = some value

/-- Blanks before a mark are skipped. -/
theorem trimStart_gap (hmark : mark ≠ []) (hink : ∀ c ∈ mark, isInk c) {gap : List Char}
    (hgap : ∀ c ∈ gap, isBlank c) (tail : List Char) :
    trimStart (gap ++ (mark ++ tail)) = mark ++ tail := by
  obtain ⟨c, mark, rfl⟩ := List.exists_cons_of_ne_nil hmark
  have hc : isBlank c = false := by simpa [Text.isInk] using hink c List.mem_cons_self
  rw [trimStart, List.dropWhile_append_of_pos hgap, List.cons_append, List.dropWhile_cons_of_neg]
  simp [hc]

/-- Where a key ends decides what the key and the value are. -/
theorem IsSplit.unique (hmark : mark ≠ []) (hink : ∀ c ∈ mark, isInk c) {key' value' : List Char}
    (h : IsSplit mark value? text key value) (h' : IsSplit mark value? text key' value')
    (hlength : key.length = key'.length) : key = key' ∧ value = value' := by
  obtain ⟨gap, tail, hgap, htext, hvalue⟩ := h.exists_eq
  obtain ⟨gap', tail', hgap', htext', hvalue'⟩ := h'.exists_eq
  obtain ⟨rfl, hbehind⟩ := List.append_inj (htext.symm.trans htext') hlength
  have htail := congrArg trimStart hbehind
  rw [trimStart_gap hmark hink hgap, trimStart_gap hmark hink hgap'] at htail
  cases List.append_cancel_left htail
  exact ⟨rfl, Option.some.inj (hvalue.symm.trans hvalue')⟩

/-- A key is the first word of its text, with the mark behind it, or it is a part of that word. -/
theorem isSplit_iff (hmark : mark ≠ []) (hink : ∀ c ∈ mark, isInk c) :
    IsSplit mark value? text key value ↔
      (key = firstWord text ∧ key ≠ [] ∧
        markedValue? mark value? (trimStart (afterWord text)) = some value) ∨
      IsWordSplit mark (fun tail => value? (tail ++ afterWord text)) [] (firstWord text) key value := by
  rw [markedValue?_eq_some_iff]
  constructor
  · rintro ⟨hne, hkey, gap, tail, hgap, rfl, hvalue⟩
    cases gap with
    | nil =>
      have hword : firstWord (key ++ (mark ++ tail)) = key ++ (mark ++ firstWord tail) := by
        rw [firstWord, List.takeWhile_append_of_pos hkey, List.takeWhile_append_of_pos hink]
        rfl
      have hrest : afterWord (key ++ (mark ++ tail)) = afterWord tail := by
        rw [afterWord, List.dropWhile_append_of_pos hkey, List.dropWhile_append_of_pos hink]
        rfl
      refine Or.inr ⟨hne, key, firstWord tail, rfl, hword, ?_⟩
      simpa only [List.nil_append, hrest, firstWord_append_afterWord] using hvalue
    | cons c gap =>
      have hc : isInk c = false := by simp [Text.isInk, hgap c List.mem_cons_self]
      have hword : firstWord (key ++ (c :: gap ++ (mark ++ tail))) = key := by
        rw [firstWord, List.takeWhile_append_of_pos hkey, List.cons_append,
          List.takeWhile_cons_of_neg (by simp [hc]), List.append_nil]
      have hrest : afterWord (key ++ (c :: gap ++ (mark ++ tail))) = c :: gap ++ (mark ++ tail) := by
        rw [afterWord, List.dropWhile_append_of_pos hkey, List.cons_append,
          List.dropWhile_cons_of_neg (by simp [hc])]
      refine Or.inl ⟨hword.symm, hne, tail, ?_, hvalue⟩
      rw [hrest, trimStart_gap hmark hink hgap]
  · rintro (⟨rfl, hne, tail, htail, hvalue⟩ | ⟨hne, _, tail, rfl, hword, hvalue⟩)
    · have hgap : ∀ c ∈ (afterWord text).takeWhile isBlank, isBlank c := fun c hc =>
        List.all_eq_true.mp List.all_takeWhile c hc
      refine ⟨hne, fun c hc => isInk_of_mem_firstWord hc, _, tail, hgap, ?_, hvalue⟩
      rw [← htail, trimStart, List.takeWhile_append_dropWhile, firstWord_append_afterWord]
    · have hkey : ∀ c ∈ key, isInk c := fun c hc =>
        isInk_of_mem_firstWord (hword ▸ List.mem_append_left _ hc)
      have htext := firstWord_append_afterWord text
      refine ⟨hne, hkey, [], tail ++ afterWord text, by simp, ?_, hvalue⟩
      rw [hword, List.append_assoc, List.append_assoc] at htext
      exact htext.symm

/-- A mark behind the first word decides, if a value stands behind it. -/
theorem split?_of_spaced (hword : firstWord text ≠ [])
    (hvalue : markedValue? mark value? (trimStart (afterWord text)) = some value) :
    split? mark value? text = some (firstWord text, value) := by
  simp [split?, hword, hvalue]

/-- Otherwise the marks in the first word are searched. -/
theorem split?_of_not_spaced (hspaced : ¬ ∃ value, firstWord text ≠ [] ∧
      markedValue? mark value? (trimStart (afterWord text)) = some value) :
    split? mark value? text =
      splitWord? mark (fun tail => value? (tail ++ afterWord text)) [] (firstWord text) := by
  by_cases hword : firstWord text = []
  · simp [split?, hword]
  · cases hvalue : markedValue? mark value? (trimStart (afterWord text)) with
    | none => simp [split?, hvalue]
    | some value => exact absurd ⟨value, hword, hvalue⟩ hspaced

/-- The search for a split finds the longest key. -/
theorem findsLongest_split? (hmark : mark ≠ []) (hink : ∀ c ∈ mark, isInk c) (text : List Char) :
    FindsLongest (IsSplit mark value? text) (split? mark value? text) := by
  have hiff : ∀ key value, IsSplit mark value? text key value ↔ _ := fun _ _ => isSplit_iff hmark hink
  by_cases hspaced : ∃ value, firstWord text ≠ [] ∧
      markedValue? mark value? (trimStart (afterWord text)) = some value
  · obtain ⟨value, hword, hvalue⟩ := hspaced
    rw [split?_of_spaced hword hvalue]
    refine ⟨(hiff _ _).mpr (Or.inl ⟨rfl, hword, hvalue⟩), fun key' value' h => ?_⟩
    rcases (hiff _ _).mp h with ⟨rfl, -⟩ | ⟨-, part, tail, rfl, hparts, -⟩
    · exact Nat.le_refl _
    · simp [hparts]
  · have hsame : IsSplit mark value? text =
        IsWordSplit mark (fun tail => value? (tail ++ afterWord text)) [] (firstWord text) := by
      funext key value
      refine propext ((hiff key value).trans (or_iff_right ?_))
      rintro ⟨rfl, hword, hvalue⟩
      exact hspaced ⟨value, hword, hvalue⟩
    rw [split?_of_not_spaced hspaced, hsame]
    exact findsLongest_splitWord? hmark [] _

/-- The search for a split finds exactly the one with the longest key. -/
theorem split?_eq_some_iff (hmark : mark ≠ []) (hink : ∀ c ∈ mark, isInk c) :
    split? mark value? text = some (key, value) ↔ IsLongest (IsSplit mark value? text) key value :=
  (findsLongest_split? hmark hink text).eq_some_iff fun _ _ _ _ h h' => h.unique hmark hink h'

/-- The search for a split finds one if there is any. -/
theorem exists_split?_iff (hmark : mark ≠ []) (hink : ∀ c ∈ mark, isInk c) :
    (∃ key value, split? mark value? text = some (key, value)) ↔
      ∃ key value, IsSplit mark value? text key value :=
  (findsLongest_split? hmark hink text).exists_eq_some_iff

end HostConfig.Payload
