import HostConfig.Proofs.Document.GroupLine
import HostConfig.Proofs.Payload.FinalBreak
import HostConfig.Proofs.Text.Pattern

/-!
# Which texts may name groups

The names of groups are a regular language: a segment, and any number of further segments with a
slash in front of each. No text of it has an empty segment, a slash at either end, a dot or a blank.
A text that does not end with a line feed may name a group exactly when it belongs to the language,
but a line feed behind a text of the language is passed over.
-/

namespace HostConfig

open HostConfig.Text

/-- One or more segments of letters, digits, underscores and hyphens, with slashes between them. -/
def groupNames : Pattern :=
  .separated '/' (.plus (.one fun c => c.isAlphanum || c == '_' || c == '-'))

/-- A text leads straight down, one segment after the other. -/
structure LeadsDown (text : List Char) : Prop where
  nil_notMem_pieces : [] ∉ pieces '/' text
  head?_ne : text.head? ≠ some '/'
  getLast?_ne : text.getLast? ≠ some '/'
  dot_notMem : '.' ∉ text
  isInk : ∀ c ∈ text, isInk c
  isAscii : ∀ c ∈ text, c.toNat < 0x80

/-- What tells whether a text may name a group. -/
structure TellsNames (name : String) : Prop where
  /-- It may if it is segmented, or if it is a segmented text and a line feed, and not otherwise. -/
  isGroupName_iff : isGroupName name ↔
    IsSegmented name ∨ ∃ body, IsSegmented body ∧ name = body ++ "\n"
  isGroupName_iff_isSegmented : name.toList.getLast? ≠ some '\n' →
    (isGroupName name ↔ IsSegmented name)
  isSegmented_iff_accepts : IsSegmented name ↔ groupNames.accepts name.toList
  leadsDown : IsSegmented name → LeadsDown name.toList

variable {name : String} {text : List Char}

/-- The pattern of names matches the segmented texts. -/
theorem accepts_groupNames_iff : groupNames.accepts name.toList ↔ IsSegmented name := by
  simp only [Pattern.accepts_iff, groupNames, Pattern.mem_language_separated_iff,
    Pattern.mem_language_plus_one_iff, Bool.or_eq_true, beq_iff_eq, or_assoc, IsSegmented]

/-- A segmented text holds group characters and slashes. -/
theorem IsSegmented.char_of_mem (h : IsSegmented name) {c : Char} (hc : c ∈ name.toList) :
    isGroupChar c ∨ c = '/' := by
  rcases char_of_mem_groupName h.isGroupName hc with hchar | hslash | rfl
  · exact Or.inl hchar
  · exact Or.inr hslash
  · exact absurd hc h.notMem

/-- A text without empty segments has no slash at its start. -/
theorem head?_ne_of_nil_notMem (h : [] ∉ pieces '/' text) : text.head? ≠ some '/' := by
  intro hhead
  obtain ⟨rest, rfl⟩ := List.head?_eq_some_iff.mp hhead
  exact h (by simp [pieces])

/-- A text without empty segments has no slash at its end. -/
theorem getLast?_ne_of_nil_notMem (h : [] ∉ pieces '/' text) : text.getLast? ≠ some '/' := by
  intro hlast
  obtain ⟨front, rfl⟩ := List.getLast?_eq_some_iff.mp hlast
  exact h (by simp [pieces_append_separator, pieces])

/-- A segmented text leads straight down. -/
theorem IsSegmented.leadsDown (h : IsSegmented name) : LeadsDown name.toList := by
  have hsegments : ∀ piece ∈ pieces '/' name.toList, isGroupSegment piece := by
    rw [← List.all_eq_true, all_isGroupSegment_iff, String.ofList_toList]
    exact h
  have hnil : [] ∉ pieces '/' name.toList :=
    fun hmem => Bool.false_ne_true (hsegments [] hmem)
  constructor
  case nil_notMem_pieces => exact hnil
  case head?_ne => exact head?_ne_of_nil_notMem hnil
  case getLast?_ne => exact getLast?_ne_of_nil_notMem hnil
  case dot_notMem => exact fun hdot => absurd (h.char_of_mem hdot) (by decide)
  case isInk =>
    intro c hc
    rcases h.char_of_mem hc with hchar | rfl
    · rw [Text.isInk, isBlank_of_isGroupChar hchar, Bool.not_false]
    · decide
  case isAscii =>
    intro c hc
    rcases h.char_of_mem hc with hchar | rfl
    · exact (toNat_of_isGroupChar hchar).2.trans_lt (by decide)
    · decide

/-- A text may name a group exactly when it is segmented or a segmented text and a line feed. -/
theorem isGroupName_iff_isSegmented_or : isGroupName name ↔
    IsSegmented name ∨ ∃ body, IsSegmented body ∧ name = body ++ "\n" := by
  rw [isGroupName_iff_upToBreak]
  constructor
  · rintro ⟨body, hbody, htext | htext⟩
    · rw [← htext, String.ofList_toList] at hbody
      exact Or.inl hbody
    · refine Or.inr ⟨String.ofList body, hbody, String.toList_injective ?_⟩
      rw [htext, String.toList_append, String.toList_ofList]
      rfl
  · rintro (hname | ⟨body, hbody, rfl⟩)
    · exact ⟨name.toList, by simpa using hname, Or.inl rfl⟩
    · exact ⟨body.toList, by simpa using hbody, Or.inr String.toList_append⟩

/-- A text may name a group exactly when it is segmented, up to a line feed at its end, and the
segmented texts are the regular language of names. -/
theorem isGroupName_tellsNames (name : String) : TellsNames name where
  isGroupName_iff := isGroupName_iff_isSegmented_or
  isGroupName_iff_isSegmented hlast := by
    refine isGroupName_iff_isSegmented_or.trans (or_iff_left ?_)
    rintro ⟨body, -, rfl⟩
    refine hlast ?_
    rw [String.toList_append]
    exact List.getLast?_concat
  isSegmented_iff_accepts := accepts_groupNames_iff.symm
  leadsDown := IsSegmented.leadsDown

/-- Only one line feed is passed over, and only behind a segment. -/
example : isGroupName "base\n\n" = false ∧ isGroupName "base/\n" = false := by decide

/-- A text with a line feed at its end may name a group, although it is not segmented. -/
theorem isGroupName_with_final_break : isGroupName "base\n" ∧ ¬ IsSegmented "base\n" := by
  refine ⟨by decide, fun h => h.notMem ?_⟩
  decide

end HostConfig
