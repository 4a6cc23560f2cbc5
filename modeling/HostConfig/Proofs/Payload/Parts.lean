import HostConfig.Proofs.Payload.Grammar
import Mathlib.Data.List.Forall2

/-!
# The parts of a comma list

A comma list is cut at its commas. What is left of a piece without the blanks at its ends is a part,
unless nothing is left, and the parts keep the order of their pieces. A payload of packages or of
properties is read as these parts.
-/

namespace HostConfig.Payload

open HostConfig.Text

/-- What is left of a piece without the blanks at both of its ends. -/
structure Trims (piece part : List Char) : Prop where
  exists_eq : ∃ front back, (∀ c ∈ front, isBlank c) ∧ (∀ c ∈ back, isBlank c) ∧
    piece = front ++ (part ++ back)
  isInk_head : ∀ c ∈ part.head?, isInk c
  isInk_last : ∀ c ∈ part.getLast?, isInk c

/-- A text is a comma list with these parts. -/
def HasParts (content : List Char) (parts : List (List Char)) : Prop :=
  ∃ ps trimmed, CutsAt ',' content ps ∧ List.Forall₂ Trims ps trimmed ∧
    parts = trimmed.filter (· ≠ [])

variable {content piece part : List Char} {parts : List (List Char)}

/-- What is left of a piece is what it is trimmed to. -/
theorem Trims.eq_trim (h : Trims piece part) : part = trim piece := by
  obtain ⟨front, back, hfront, hback, rfl⟩ := h.exists_eq
  have hend : trimEnd part = part := trimEnd_eq_self_iff.mpr fun hne => by
    simpa [isInk] using h.isInk_last _ (List.getLast?_eq_some_getLast hne)
  rw [trim, trimStart_append_of_forall hfront]
  cases part with
  | nil =>
    rw [List.nil_append, trimStart_eq_nil_iff.mpr hback]
    rfl
  | cons c rest =>
    have hc : ¬ isBlank c := by simpa [isInk] using h.isInk_head c rfl
    have hstart : trimStart (c :: (rest ++ back)) = c :: (rest ++ back) :=
      List.dropWhile_cons_of_neg hc
    rw [List.cons_append, hstart, ← List.cons_append, trimEnd_append_of_forall _ hback, hend]

/-- A piece without the blanks at its ends is left. -/
theorem trims_trim (piece : List Char) : Trims piece (trim piece) := by
  obtain ⟨front, hfront, hpiece⟩ := exists_gap piece
  obtain ⟨back, hback, hstart⟩ := exists_append_blanks (trimStart piece)
  constructor
  case exists_eq => exact ⟨front, back, hfront, hback, by rw [trim, hstart, hpiece]⟩
  case isInk_head =>
    intro c hc
    cases htrim : trim piece with
    | nil => simp [htrim] at hc
    | cons d rest =>
      have hagain := trimStart_trim piece
      rw [htrim] at hc hagain
      cases hc
      rw [trimStart, List.dropWhile_eq_self_iff] at hagain
      simpa [isInk] using hagain (Nat.zero_lt_succ _)
  case isInk_last =>
    intro c hc
    obtain ⟨hne, rfl⟩ := List.mem_getLast?_eq_getLast hc
    have hend : trimEnd (trim piece) = trim piece := trimEnd_trimEnd _
    simpa [isInk] using trimEnd_eq_self_iff.mp hend hne

/-- Each piece is trimmed in one way. -/
theorem trims_iff : Trims piece part ↔ part = trim piece := by
  constructor
  · exact Trims.eq_trim
  · rintro rfl
    exact trims_trim piece

/-- Pieces are trimmed one by one. -/
theorem forall₂_trims_iff {ps trimmed : List (List Char)} :
    List.Forall₂ Trims ps trimmed ↔ ps.map trim = trimmed := by
  have htrims : Trims = fun piece part => trim piece = part := by
    funext piece part
    rw [trims_iff, eq_comm (a := part)]
  have hmap : List.Forall₂ Eq (ps.map trim) trimmed ↔ ps.map trim = trimmed := by
    rw [List.forall₂_eq_eq_eq]
  rw [htrims, ← hmap, List.forall₂_map_left_iff]

/-- A comma list is read as its parts. -/
theorem hasParts_iff : HasParts content parts ↔ parts = propertyParts content := by
  have hfilter : (fun part : List Char => decide (part ≠ [])) = fun part => !part.isEmpty := by
    funext part
    cases part <;> rfl
  simp only [HasParts, cutsAt_iff, forall₂_trims_iff, hfilter]
  constructor
  · rintro ⟨_, _, rfl, rfl, hparts⟩
    exact hparts
  · exact fun hparts => ⟨_, _, rfl, rfl, hparts⟩

/-- The parts of a comma list are the pieces that do not only hold blanks, trimmed. -/
theorem mem_propertyParts_iff : part ∈ propertyParts content ↔
    ∃ piece ∈ pieces ',' content, (∃ c ∈ piece, isInk c) ∧ trim piece = part := by
  have hfilled : ∀ {piece : List Char}, (trim piece).isEmpty = false ↔ ∃ c ∈ piece, isInk c := by
    intro piece
    rw [List.isEmpty_eq_false_iff, ne_eq, trim_eq_nil_iff]
    simp [isInk]
  simp only [propertyParts, List.mem_filter, List.mem_map, Bool.not_eq_true']
  constructor
  · rintro ⟨⟨piece, hpiece, rfl⟩, hink⟩
    exact ⟨piece, hpiece, hfilled.mp hink, rfl⟩
  · rintro ⟨piece, hpiece, hink, rfl⟩
    exact ⟨⟨piece, hpiece, rfl⟩, hfilled.mpr hink⟩

/-- Something holds of all parts if it holds of what the pieces with more than blanks are trimmed
to. -/
theorem forall_mem_propertyParts_iff {P : List Char → Prop} :
    (∀ part ∈ propertyParts content, P part) ↔
      ∀ piece ∈ pieces ',' content, (∃ c ∈ piece, isInk c) → P (trim piece) := by
  simp only [mem_propertyParts_iff]
  constructor
  · exact fun h piece hpiece hink => h _ ⟨piece, hpiece, hink, rfl⟩
  · rintro h part ⟨piece, hpiece, hink, rfl⟩
    exact h piece hpiece hink

/-- There are parts exactly when a piece does not only hold blanks. -/
theorem propertyParts_ne_nil_iff : propertyParts content ≠ [] ↔
    ∃ piece ∈ pieces ',' content, ∃ c ∈ piece, isInk c := by
  simp [List.eq_nil_iff_forall_not_mem, mem_propertyParts_iff]

/-- The parts of a comma list on one line are parts of the line. -/
theorem isLinePart_of_mem_propertyParts (h : '\n' ∉ content) :
    ∀ part ∈ propertyParts content, IsLinePart part :=
  forall_mem_propertyParts_iff.mpr fun _ hpiece _ =>
    isLinePart_trim fun hmem => h (subset_of_mem_pieces hpiece hmem)

/-- The parts of a comma list keep their ends. -/
theorem trimEnd_of_mem_propertyParts : ∀ part ∈ propertyParts content, trimEnd part = part :=
  forall_mem_propertyParts_iff.mpr fun _ _ _ => trimEnd_trimEnd _

/-- Commas and blanks without anything between them leave no part. -/
example : propertyParts " a b ,, \t,c,".toList = ["a b".toList, "c".toList] := by decide

end HostConfig.Payload
