import HostConfig.Document
import HostConfig.Proofs.Path.Normal
import HostConfig.Proofs.Payload.Service

/-!
# Writing payloads

A pair is written with one blank on either side of its mark, a property without any, and lists with
a comma and a blank between their parts. What is written like this is read back, even if the value
of a pair holds the mark again.
-/

namespace HostConfig.Payload

open HostConfig.Text

/-- A text without blanks that is not empty. -/
def IsWord (cs : List Char) : Prop := cs ≠ [] ∧ ∀ c ∈ cs, isInk c

/-- A text without blanks at its ends that is not empty. -/
def IsTrimmed (cs : List Char) : Prop := cs ≠ [] ∧ trim cs = cs

/-- A part of a comma list. -/
def IsListPart (cs : List Char) : Prop := IsTrimmed cs ∧ ',' ∉ cs

/-- A key and a value that can be written as a property. -/
def IsProperty (key value : List Char) : Prop :=
  (IsWord key ∧ ',' ∉ key ∧ '=' ∉ key) ∧ IsListPart value ∧ '=' ∉ value

-- Only the characters of the text are looked at; there is also an instance for all characters.
instance (cs : List Char) : Decidable (IsWord cs) :=
  haveI : Decidable (∀ c ∈ cs, isInk c) := List.decidableBAll _ cs
  inferInstanceAs (Decidable (_ ∧ _))

instance (cs : List Char) : Decidable (IsTrimmed cs) := inferInstanceAs (Decidable (_ ∧ _))

instance (cs : List Char) : Decidable (IsListPart cs) := inferInstanceAs (Decidable (_ ∧ _))

instance (key value : List Char) : Decidable (IsProperty key value) :=
  inferInstanceAs (Decidable (_ ∧ _))

/-- A pair with a blank on either side of its mark. -/
def spacedPair (mark key value : List Char) : List Char := key ++ ' ' :: (mark ++ ' ' :: value)

/-- Parts with a comma and a blank between them. -/
def commaList (parts : List (List Char)) : List Char := joinWith [',', ' '] parts

variable {mark key value : List Char} {parts : List (List Char)}

/-- A word is trimmed. -/
theorem IsWord.isTrimmed (h : IsWord key) : IsTrimmed key := by
  obtain ⟨hne, hink⟩ := h
  refine ⟨hne, ?_⟩
  rw [trim, trimStart_of_forall hink, trimEnd_of_forall]
  exact fun c hc => by simpa [isInk] using hink c hc

/-- A trimmed text has no blanks at its start. -/
theorem IsTrimmed.trimStart_eq (h : IsTrimmed value) : trimStart value = value := by
  have hsuffix := trimStart_isSuffix value
  have hprefix := trimEnd_isPrefix (trimStart value)
  rw [← trim, h.2] at hprefix
  exact hsuffix.eq_of_length_le hprefix.length_le

/-- A trimmed text has no blanks at its end. -/
theorem IsTrimmed.trimEnd_eq (h : IsTrimmed value) : trimEnd value = value := by
  have htrim := h.2
  rwa [trim, h.trimStart_eq] at htrim

/-- What begins with a trimmed text has no blanks at its start. -/
theorem IsTrimmed.trimStart_append (h : IsTrimmed value) (rest : List Char) :
    trimStart (value ++ rest) = value ++ rest := by
  have hstart : value.dropWhile isBlank = value := h.trimStart_eq
  rw [trimStart, List.dropWhile_append, hstart, if_neg (by simpa using h.1)]

/-- A spaced pair is a pair. -/
theorem isPair_spacedPair (hkey : IsWord key) (hvalue : value ≠ []) :
    IsPair mark (spacedPair mark key value) key value where
  key_ne_nil := hkey.1
  ink := hkey.2
  value_ne_nil := hvalue
  exists_eq := by
    have hgap : ∀ c ∈ [' '], isBlank c := List.forall_mem_singleton.mpr (by decide)
    exact ⟨[' '], [' '], hgap, hgap, by simp [spacedPair]⟩

/-- A beginning of a text that is longer than another one goes on like the text. -/
theorem concat_prefix_of_length_lt {c : Char} {key' rest : List Char}
    (h : key' <+: key ++ c :: rest) (hlonger : key.length < key'.length) : key ++ [c] <+: key' := by
  have hnext : key ++ [c] <+: key ++ c :: rest := ⟨rest, by simp⟩
  exact List.prefix_of_prefix_length_le hnext h (by simp; omega)

/-- No pair reads a longer key from a spaced pair than the one that was written. -/
theorem IsPair.length_le_of_spacedPair {mark' key' value' : List Char}
    (h : IsPair mark' (spacedPair mark key value) key' value') : key'.length ≤ key.length := by
  obtain ⟨-, hink, -, gap, gap', -, -, hpayload⟩ := h
  by_contra hlonger
  have hkey' : key' <+: spacedPair mark key value := hpayload ▸ List.prefix_append _ _
  have hblank := concat_prefix_of_length_lt hkey' (Nat.lt_of_not_le hlonger)
  have hink' := hink ' ' (hblank.subset (by simp))
  exact absurd hink' (by decide)

/-- A spaced assignment is read back. -/
theorem assigns_spacedPair (hkey : IsWord key) (hvalue : IsTrimmed value) :
    Assigns (spacedPair ['='] key value) key value :=
  ⟨⟨isPair_spacedPair hkey hvalue.1, hvalue.trimStart_eq⟩, fun _ _ h =>
    h.1.length_le_of_spacedPair⟩

/-- A spaced mapping is read back. -/
theorem maps_spacedPair (hkey : IsWord key) (hvalue : IsWord value) :
    Maps (spacedPair ['-', '>'] key value) key value :=
  ⟨⟨isPair_spacedPair hkey hvalue.1, hvalue.2⟩, fun _ _ h => h.1.length_le_of_spacedPair⟩

/-- A property is read back. -/
theorem assigns_property (h : IsProperty key value) : Assigns (key ++ '=' :: value) key value := by
  obtain ⟨⟨hkey, -, hkeyEquals⟩, ⟨hvalue, -⟩, hvalueEquals⟩ := h
  refine ⟨⟨⟨hkey.1, hkey.2, hvalue.1, [], [], by simp, by simp, by simp⟩,
    hvalue.trimStart_eq⟩, ?_⟩
  rintro key' value' ⟨⟨-, -, -, gap, gap', -, -, hpayload⟩, -⟩
  -- There is one equals sign only.
  by_contra hlonger
  have hkey' : key' <+: key ++ '=' :: value := hpayload ▸ List.prefix_append _ _
  obtain ⟨more, rfl⟩ := concat_prefix_of_length_lt hkey' (Nat.lt_of_not_le hlonger)
  simp only [List.append_assoc, List.append_cancel_left_eq, List.cons_append, List.nil_append,
    List.cons.injEq, true_and] at hpayload
  exact hvalueEquals (by simp [hpayload])

theorem map_trim_extendFirst {ps : List (List Char)} (hne : ps ≠ []) :
    (extendFirst ' ' ps).map trim = ps.map trim := by
  cases ps with
  | nil => contradiction
  | cons first rest => rfl

/-- The parts of a comma list are what it is cut into. -/
theorem map_trim_pieces_commaList (hne : parts ≠ []) (h : ∀ part ∈ parts, IsListPart part) :
    (pieces ',' (commaList parts)).map trim = parts := by
  induction parts with
  | nil => contradiction
  | cons part rest ih =>
    obtain ⟨⟨-, htrim⟩, hcomma⟩ := h part List.mem_cons_self
    cases rest with
    | nil =>
      have hone : commaList [part] = part := rfl
      rw [hone, pieces_of_notMem hcomma, List.map_singleton, htrim]
    | cons next rest =>
      have hrest := ih (List.cons_ne_nil _ _) fun p hp => h p (List.mem_cons_of_mem _ hp)
      have hjoin : commaList (part :: next :: rest) =
          part ++ ',' :: (' ' :: commaList (next :: rest)) := by
        simp [commaList, joinWith]
      have hblank : pieces ',' (' ' :: commaList (next :: rest)) =
          extendFirst ' ' (pieces ',' (commaList (next :: rest))) := rfl
      rw [hjoin, pieces_append_cons _ hcomma, List.map_cons, htrim, hblank,
        map_trim_extendFirst (pieces_ne_nil _ _), hrest]

/-- The parts of a comma list are read back. -/
theorem propertyParts_commaList (hne : parts ≠ []) (h : ∀ part ∈ parts, IsListPart part) :
    propertyParts (commaList parts) = parts := by
  rw [propertyParts, map_trim_pieces_commaList hne h, List.filter_eq_self]
  intro part hpart
  simpa using (h part hpart).1.1

/-- A comma list has no blanks at its start. -/
theorem trimStart_commaList (h : ∀ part ∈ parts, IsListPart part) :
    trimStart (commaList parts) = commaList parts := by
  match parts with
  | [] => rfl
  | [part] => exact (h part List.mem_cons_self).1.trimStart_eq
  | part :: next :: rest =>
    have hpart := (h part List.mem_cons_self).1
    rw [commaList, joinWith, List.append_assoc, hpart.trimStart_append]
    exact List.cons_ne_nil _ _

/-- A property is a part of a comma list. -/
theorem IsProperty.isListPart (h : IsProperty key value) : IsListPart (key ++ '=' :: value) := by
  obtain ⟨⟨hkey, hkeyComma, -⟩, ⟨hvalue, hvalueComma⟩, -⟩ := h
  have hmark : trimEnd ('=' :: value) = '=' :: value := by
    rw [← List.singleton_append, trimEnd_append, hvalue.trimEnd_eq, if_neg hvalue.1]
  refine ⟨⟨by simp, ?_⟩, by simp [hkeyComma, hvalueComma]⟩
  rw [trim, hkey.isTrimmed.trimStart_append, trimEnd_append, hmark, if_neg (List.cons_ne_nil _ _)]

/-- Properties in a comma list are set one after the other. -/
theorem setsProperties_commaList {pairs : List (List Char × List Char)} (hne : pairs ≠ [])
    (h : ∀ pair ∈ pairs, IsProperty pair.1 pair.2) :
    SetsProperties (commaList (pairs.map fun pair => pair.1 ++ '=' :: pair.2))
      (Properties.setAll [] pairs) := by
  have hlist : ∀ part ∈ pairs.map (fun pair => pair.1 ++ '=' :: pair.2), IsListPart part :=
    List.forall_mem_map.mpr fun pair hpair => (h pair hpair).isListPart
  rw [setsProperties_iff, propertyParts_commaList (by simpa using hne) hlist]
  refine ⟨pairs, ?_, Properties.isSetBy_iff.mpr rfl⟩
  rw [List.forall₂_map_left_iff, List.forall₂_same]
  exact fun pair hpair => assigns_property (h pair hpair)

/-- Package names in a comma list are read back. -/
theorem packageNames_commaList (hne : parts ≠ []) (h : ∀ part ∈ parts, IsListPart part) :
    packageNames (commaList parts) = parts.map String.ofList :=
  congrArg (List.map String.ofList) (propertyParts_commaList hne h)

end HostConfig.Payload
