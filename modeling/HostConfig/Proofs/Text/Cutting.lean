import HostConfig.Text.Pieces
import Mathlib.Data.List.Basic

/-!
# Pieces of a cut text

A text is cut at a separator into pieces that do not hold it, one for each occurrence and one behind
the last. The pieces of a text are these and no others, so that a text that is put together from
parts is cut into the parts again.
-/

namespace HostConfig.Text

/-- A text is cut at every occurrence of a separator. -/
inductive CutsAt (separator : Char) : List Char → List (List Char) → Prop
  | last {piece : List Char} (h : separator ∉ piece) : CutsAt separator piece [piece]
  | cut {piece rest : List Char} {ps : List (List Char)} (h : separator ∉ piece)
      (hrest : CutsAt separator rest ps) :
    CutsAt separator (piece ++ separator :: rest) (piece :: ps)

/-- A text without separators is one piece. -/
theorem pieces_of_notMem {separator : Char} {cs : List Char} (h : separator ∉ cs) :
    pieces separator cs = [cs] := by
  induction cs with
  | nil => rfl
  | cons c rest ih =>
    rw [List.mem_cons, not_or] at h
    simp [pieces, Ne.symm h.1, ih h.2, extendFirst]

/-- A text without separators that is put behind another one lengthens its last piece. -/
theorem pieces_append {separator : Char} (cs : List Char) {extension : List Char}
    (h : separator ∉ extension) :
    ∃ before last, pieces separator cs = before ++ [last] ∧
      pieces separator (cs ++ extension) = before ++ [last ++ extension] := by
  induction cs with
  | nil => exact ⟨[], [], rfl, pieces_of_notMem h⟩
  | cons c rest ih =>
    obtain ⟨before, last, hcs, happend⟩ := ih
    simp only [List.cons_append, pieces, hcs, happend]
    split
    · exact ⟨[] :: before, last, rfl, rfl⟩
    · cases before with
      | nil => exact ⟨[], c :: last, rfl, rfl⟩
      | cons first before => exact ⟨(c :: first) :: before, last, rfl, rfl⟩

/-- A text is cut on both sides of a separator on its own. -/
theorem pieces_append_separator (separator : Char) (front back : List Char) :
    pieces separator (front ++ separator :: back) =
      pieces separator front ++ pieces separator back := by
  induction front with
  | nil => simp [pieces]
  | cons c front ih =>
    rw [List.cons_append, pieces, pieces, ih]
    split
    · rfl
    · exact extendFirst_append c (pieces_ne_nil _ _) _

/-- Cutting a text at its first separator. -/
theorem pieces_append_cons {separator : Char} {cs : List Char} (rest : List Char)
    (h : separator ∉ cs) :
    pieces separator (cs ++ separator :: rest) = cs :: pieces separator rest := by
  rw [pieces_append_separator, pieces_of_notMem h, List.singleton_append]

/-- Cutting joined parts gives the parts back. -/
theorem pieces_joinWith {separator : Char} {parts : List (List Char)} (hne : parts ≠ [])
    (h : ∀ part ∈ parts, separator ∉ part) :
    pieces separator (joinWith [separator] parts) = parts := by
  induction parts with
  | nil => contradiction
  | cons part rest ih =>
    have hpart := h part List.mem_cons_self
    cases rest with
    | nil => exact pieces_of_notMem hpart
    | cons next rest =>
      have hrest := ih (List.cons_ne_nil _ _) fun p hp => h p (List.mem_cons_of_mem _ hp)
      rw [joinWith, List.append_assoc, List.singleton_append, pieces_append_cons _ hpart, hrest]
      exact List.cons_ne_nil _ _

/-- A piece holds what its text holds. -/
theorem subset_of_mem_pieces {separator : Char} {cs piece : List Char}
    (h : piece ∈ pieces separator cs) : piece ⊆ cs := by
  induction cs generalizing piece with
  | nil => simp_all [pieces]
  | cons c rest ih =>
    rw [pieces] at h
    split at h
    · rcases List.mem_cons.mp h with rfl | hlater
      · exact List.nil_subset _
      · exact List.subset_cons_of_subset _ (ih hlater)
    · rcases hpieces : pieces separator rest with _ | ⟨first, others⟩
      · exact absurd hpieces (pieces_ne_nil _ _)
      · rw [hpieces, extendFirst] at h
        rw [hpieces] at ih
        rcases List.mem_cons.mp h with rfl | hlater
        · exact List.cons_subset_cons c (ih List.mem_cons_self)
        · exact List.subset_cons_of_subset _ (ih (List.mem_cons_of_mem _ hlater))

/-- No line of a text holds a line feed. -/
theorem notMem_of_mem_lines {text line : List Char} (h : line ∈ lines text) :
    '\n' ∉ line := by
  fun_induction lines text generalizing line with
  | case1 => simp_all
  | case2 rest ih | case3 rest ih =>
    rcases List.mem_cons.mp h with rfl | h
    · exact List.not_mem_nil
    · exact ih h
  | case4 c rest hfeed hreturn ih =>
    rcases hrest : lines rest with _ | ⟨first, others⟩
    · exact absurd hrest (lines_ne_nil rest)
    · rw [hrest] at h ih
      have hc : '\n' ≠ c := fun hc => hfeed hc.symm
      rcases List.mem_cons.mp h with rfl | h
      · rw [List.mem_cons, not_or]
        exact ⟨hc, ih List.mem_cons_self⟩
      · exact ih (List.mem_cons_of_mem _ h)

/-- Every text can be cut. -/
theorem exists_cutsAt (separator : Char) (text : List Char) : ∃ ps, CutsAt separator text ps := by
  induction hlength : text.length using Nat.strongRecOn generalizing text with
  | ind n ih =>
    by_cases hmem : separator ∈ text
    · obtain ⟨piece, rest, rfl, hpiece⟩ := List.eq_append_cons_of_mem hmem
      obtain ⟨ps, hps⟩ := ih rest.length (by simp at hlength; omega) rest rfl
      exact ⟨piece :: ps, .cut hpiece hps⟩
    · exact ⟨[text], .last hmem⟩

/-- What a text is cut into are its pieces. -/
theorem cutsAt_iff {separator : Char} {text : List Char} {ps : List (List Char)} :
    CutsAt separator text ps ↔ ps = pieces separator text := by
  have hpieces : ∀ {qs}, CutsAt separator text qs → qs = pieces separator text := by
    intro qs hcut
    induction hcut with
    | last h => exact (pieces_of_notMem h).symm
    | cut h _ ih => rw [pieces_append_cons _ h, ih]
  constructor
  · exact hpieces
  · rintro rfl
    obtain ⟨qs, hqs⟩ := exists_cutsAt separator text
    exact hpieces hqs ▸ hqs

end HostConfig.Text
