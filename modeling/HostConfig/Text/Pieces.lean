/-!
# Cutting a text

A text is cut at every occurrence of a separator, or at every line end. Either way the last piece
is what stands after the last cut, so that there is always at least one piece.
-/

namespace HostConfig.Text

/-- Put a character in front of the first piece. -/
def extendFirst (c : Char) : List (List Char) → List (List Char)
  | [] => [[c]]
  | first :: rest => (c :: first) :: rest

/-- The pieces between the occurrences of a separator. -/
def pieces (separator : Char) : List Char → List (List Char)
  | [] => [[]]
  | c :: rest =>
    if c = separator then [] :: pieces separator rest else extendFirst c (pieces separator rest)

/-- The lines of a text: a line ends at a line feed, or at a carriage return and a line feed. -/
def lines : List Char → List (List Char)
  | [] => [[]]
  | '\n' :: rest => [] :: lines rest
  | '\r' :: '\n' :: rest => [] :: lines rest
  | c :: rest => extendFirst c (lines rest)

/-- Parts put together with a separator between them. -/
def joinWith (separator : List Char) : List (List Char) → List Char
  | [] => []
  | [part] => part
  | part :: rest => part ++ separator ++ joinWith separator rest

/-- A text without one line feed at its end. -/
def withoutFinalBreak (cs : List Char) : List Char :=
  if cs.getLast? = some '\n' then cs.dropLast else cs

theorem extendFirst_ne_nil (c : Char) (ps : List (List Char)) : extendFirst c ps ≠ [] := by
  cases ps <;> simp [extendFirst]

theorem extendFirst_append {ls : List (List Char)} (c : Char) (hne : ls ≠ [])
    (more : List (List Char)) : extendFirst c (ls ++ more) = extendFirst c ls ++ more := by
  cases ls with
  | nil => contradiction
  | cons first rest => rfl

/-- A cut text has at least one piece. -/
theorem pieces_ne_nil (separator : Char) (cs : List Char) : pieces separator cs ≠ [] := by
  cases cs with
  | nil => simp [pieces]
  | cons c rest => simp only [pieces]; split <;> simp [extendFirst_ne_nil]

/-- A text has at least one line. -/
theorem lines_ne_nil (cs : List Char) : lines cs ≠ [] := by
  fun_cases lines cs <;> simp [extendFirst_ne_nil]

/-- Putting the pieces together gives the text back. -/
theorem joinWith_pieces (separator : Char) (cs : List Char) :
    joinWith [separator] (pieces separator cs) = cs := by
  induction cs with
  | nil => rfl
  | cons c rest ih =>
    simp only [pieces]
    split
    · subst c
      rcases hp : pieces separator rest with _ | ⟨p, ps⟩
      · exact absurd hp (pieces_ne_nil _ _)
      · rw [hp] at ih; simp [joinWith, ih]
    · rcases hp : pieces separator rest with _ | ⟨p, _ | ⟨q, ps⟩⟩
      · exact absurd hp (pieces_ne_nil _ _)
      · rw [hp] at ih; simpa [extendFirst, joinWith] using ih
      · rw [hp] at ih; simpa [extendFirst, joinWith] using ih

/-- No piece holds the separator. -/
theorem notMem_of_mem_pieces {separator : Char} {cs piece : List Char}
    (h : piece ∈ pieces separator cs) : separator ∉ piece := by
  induction cs generalizing piece with
  | nil => simp [pieces] at h; simp [h]
  | cons c rest ih =>
    simp only [pieces] at h
    split at h
    · rcases List.mem_cons.mp h with rfl | h
      · simp
      · exact ih h
    · next hc =>
      rcases hp : pieces separator rest with _ | ⟨p, ps⟩
      · exact absurd hp (pieces_ne_nil _ _)
      · rw [hp, extendFirst] at h
        rcases List.mem_cons.mp h with rfl | h
        · have hp' : separator ∉ p := ih (by simp [hp])
          simp [Ne.symm hc, hp']
        · exact ih (by simp [hp, h])

end HostConfig.Text
