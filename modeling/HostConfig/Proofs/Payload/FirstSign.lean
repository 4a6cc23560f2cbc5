import HostConfig.Proofs.Payload.Grammar

/-!
# The sign that an assignment is cut at

An assignment is cut behind its longest key, which may hold equals signs itself. So it is cut at its
first equals sign exactly when there is no later place to cut it: when no word that the text begins
with holds an equals sign and has another one behind it, with a value. Blanks before the first sign
end the word, and then the value may hold any signs.
-/

namespace HostConfig.Payload

open HostConfig.Text

/-- A key and a value are what stands before and behind the first equals sign, trimmed. -/
def CutsAtFirst (text key value : List Char) : Prop :=
  ∃ before behind, text = before ++ '=' :: behind ∧ '=' ∉ before ∧
    key = trimEnd before ∧ value = trim behind

/-- A text begins with a word that holds an equals sign and has another one behind it, with a
value. -/
def HasLaterSign (text : List Char) : Prop :=
  ∃ word gap behind, '=' ∈ word ∧ (∀ c ∈ word, isInk c) ∧ (∀ c ∈ gap, isBlank c) ∧
    behind ≠ [] ∧ text = word ++ (gap ++ '=' :: behind)

/-- A text assigns a value to a key, and cuts at its first equals sign where it has no later one to
cut at. -/
structure Records (text key value : List Char) : Prop where
  assigns : Assigns text key value
  cutsAtFirst_iff : CutsAtFirst text key value ↔ ¬ HasLaterSign text

variable {text key value : List Char}

/-- A key that is followed by blanks is what these are trimmed from. -/
theorem trimEnd_append_gap {gap : List Char} (hkey : ∀ c ∈ key, isInk c)
    (hgap : ∀ c ∈ gap, isBlank c) : trimEnd (key ++ gap) = key := by
  have hnothing : trimEnd gap = [] := List.rdropWhile_eq_nil_iff.mpr hgap
  have hblank : ∀ c ∈ key, isBlank c = false := fun c hc => by simpa [isInk] using hkey c hc
  rw [trimEnd_append, if_pos hnothing, trimEnd_of_forall hblank]

/-- A later sign is a place to cut at, so that the longest key holds the word before it. -/
theorem Assigns.mem_key_of_hasLaterSign (hassigns : Assigns text key value) (h : IsLinePart text)
    (hlater : HasLaterSign text) : '=' ∈ key := by
  obtain ⟨word, gap, behind, hsign, hword, hgap, hbehind, htext⟩ := hlater
  obtain ⟨⟨⟨-, -, -, gap', behind', -, -, hkeyed⟩, -⟩, hlongest⟩ := hassigns
  have hne : word ≠ [] := List.ne_nil_of_mem hsign
  have hassignment : IsAssignment text word behind :=
    ⟨hne, hword, hbehind, gap, [], hgap, by simp, by simpa using htext⟩
  have hlength : word.length ≤ key.length :=
    hlongest word (trimStart behind)
      ⟨hassignment.trimStart_value h.trimEnd_eq, List.dropWhile_idempotent _ _⟩
  have hprefix : word <+: text := ⟨_, htext.symm⟩
  exact (List.prefix_of_prefix_length_le hprefix ⟨_, hkeyed.symm⟩ hlength).subset hsign

/-- An assignment whose key holds no equals sign is cut at its first one. -/
theorem Assigns.cutsAtFirst_of_notMem (hassigns : Assigns text key value) (h : IsLinePart text)
    (hkey : '=' ∉ key) : CutsAtFirst text key value := by
  obtain ⟨⟨⟨-, hink, -, gap, gap', hgap, hgap', htext⟩, htrimmed⟩, -⟩ := hassigns
  have hsuffix : gap' ++ value <:+ text := ⟨key ++ (gap ++ ['=']), by simp [htext]⟩
  refine ⟨key ++ gap, gap' ++ value, by simp [htext], ?fresh, ?key, ?value⟩
  case fresh =>
    intro hmem
    rcases List.mem_append.mp hmem with hsign | hsign
    · exact hkey hsign
    · exact absurd (hgap '=' hsign) (by decide)
  case key => exact (trimEnd_append_gap hink hgap).symm
  case value =>
    rw [(h.of_isSuffix hsuffix).trim_eq, trimStart_append_of_forall hgap', htrimmed]

/-- An assignment is cut at its first equals sign unless there is a later one to cut at. -/
theorem Assigns.records (hassigns : Assigns text key value) (h : IsLinePart text) :
    Records text key value := by
  refine ⟨hassigns, ?first, ?none⟩
  case first =>
    intro hcut hlater
    obtain ⟨before, behind, -, hfresh, rfl, -⟩ := hcut
    have hsign := hassigns.mem_key_of_hasLaterSign h hlater
    exact hfresh ((trimEnd_isPrefix before).subset hsign)
  case none =>
    intro hnone
    apply hassigns.cutsAtFirst_of_notMem h
    intro hsign
    obtain ⟨⟨⟨-, hink, hfilled, gap, gap', hgap, -, htext⟩, -⟩, -⟩ := hassigns
    exact hnone ⟨key, gap, gap' ++ value, hsign, hink, hgap, by simp [hfilled],
      by simpa using htext⟩

end HostConfig.Payload
