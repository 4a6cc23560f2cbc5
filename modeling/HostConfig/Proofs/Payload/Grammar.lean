import HostConfig.Proofs.Layout.GroupFile
import HostConfig.Proofs.Payload.LinePart
import HostConfig.Proofs.Payload.Split

/-!
# The grammar of assignments and mappings

A part of a line is read as an assignment or a mapping exactly when the grammar describes it as one.
The grammar can often describe it in several ways, and then the way with the longest key counts.
-/

namespace HostConfig.Payload

open HostConfig.Text

/-- A key without blanks, a mark and a value, with blanks allowed around the mark. -/
structure IsPair (mark payload key value : List Char) : Prop where
  key_ne_nil : key ≠ []
  ink : ∀ c ∈ key, isInk c
  value_ne_nil : value ≠ []
  exists_eq : ∃ gap gap', (∀ c ∈ gap, isBlank c) ∧ (∀ c ∈ gap', isBlank c) ∧
    payload = key ++ (gap ++ (mark ++ (gap' ++ value)))

/-- An assignment has an equals sign. -/
def IsAssignment (payload key value : List Char) : Prop := IsPair ['='] payload key value

/-- A mapping has an arrow, and a destination without blanks. -/
def IsMapping (payload source destination : List Char) : Prop :=
  IsPair ['-', '>'] payload source destination ∧ ∀ c ∈ destination, isInk c

/-- The assignment with the longest key, and without blanks before its value. -/
def Assigns (payload key value : List Char) : Prop :=
  IsLongest (fun key value => IsAssignment payload key value ∧ trimStart value = value) key value

/-- The mapping with the longest source. -/
def Maps (payload source destination : List Char) : Prop :=
  IsLongest (IsMapping payload) source destination

variable {mark payload key value rest : List Char}

/-- A text without blanks is not trimmed at its start. -/
theorem trimStart_of_forall {cs : List Char} (h : ∀ c ∈ cs, isInk c) : trimStart cs = cs := by
  cases cs with
  | nil => rfl
  | cons c rest =>
    have hc : isBlank c = false := by simpa [isInk] using h c List.mem_cons_self
    rw [trimStart, List.dropWhile_cons_of_neg (by simp [hc])]

/-- Blanks at the start are trimmed. -/
theorem trimStart_append_of_forall {gap : List Char} (hgap : ∀ c ∈ gap, isBlank c)
    (rest : List Char) : trimStart (gap ++ rest) = trimStart rest :=
  List.dropWhile_append_of_pos hgap

/-- Leading blanks and what they are trimmed from make up a text. -/
theorem exists_gap (cs : List Char) : ∃ gap, (∀ c ∈ gap, isBlank c) ∧ gap ++ trimStart cs = cs :=
  ⟨cs.takeWhile isBlank, fun c hc => List.all_eq_true.mp List.all_takeWhile c hc,
    List.takeWhile_append_dropWhile⟩

/-- What stands behind an equals sign is a value unless there is nothing. -/
theorem assignedValue_eq_some_iff (h : IsLinePart rest) :
    assignedValue rest = some value ↔ value = trimStart rest ∧ value ≠ [] := by
  have hvalue : assignedValue rest = if rest = [] then none else some (trimStart rest) := by
    rw [assignedValue, withoutFinalBreak_of_notMem h.notMem, pieces_of_notMem h.notMem, ← h.trim_eq]
    cases rest <;> simp
  rw [hvalue]
  by_cases hne : rest = []
  · simp [hne, trimStart]
  · rw [if_neg hne, Option.some.injEq]
    refine ⟨?_, fun hvalue => hvalue.1.symm⟩
    rintro rfl
    exact ⟨rfl, h.trimStart_ne_nil hne⟩

/-- What stands behind an arrow is a destination if it is a single word. -/
theorem destination?_eq_some_iff (h : IsLinePart rest) :
    destination? rest = some value ↔ value = trimStart rest ∧ value ≠ [] ∧ ∀ c ∈ value, isInk c := by
  have hbreak : afterWord (trimStart rest) ≠ ['\n'] := by
    intro heq
    have hmem : '\n' ∈ afterWord (trimStart rest) := heq ▸ List.mem_cons_self
    exact h.notMem ((trimStart_isSuffix rest).subset ((List.dropWhile_suffix _).subset hmem))
  have hword := firstWord_append_afterWord (trimStart rest)
  rw [destination?]
  simp only [hbreak, decide_false, Bool.or_false, decide_eq_true_eq]
  constructor
  · intro hsome
    split at hsome
    · cases hsome
    · next hne =>
      split at hsome
      · next hrest =>
        rw [hrest, List.append_nil] at hword
        cases hsome
        exact ⟨hword, by simpa using hne, fun c hc => isInk_of_mem_firstWord hc⟩
      · cases hsome
  · rintro ⟨rfl, hne, hink⟩
    have hall : firstWord (trimStart rest) = trimStart rest := List.takeWhile_eq_self_iff.mpr hink
    have hnone : afterWord (trimStart rest) = [] := List.dropWhile_eq_nil_iff.mpr hink
    simp [hall, hnone, hne]

/-- A split at a mark is a pair with that mark, if values are what stands behind blanks. -/
theorem isSplit_iff_isPair {value? : List Char → Option (List Char)} {ok : List Char → Prop}
    (hvalue : ∀ rest value, rest <:+ payload →
      (value? rest = some value ↔ value = trimStart rest ∧ value ≠ [] ∧ ok value)) :
    IsSplit mark value? payload key value ↔
      IsPair mark payload key value ∧ trimStart value = value ∧ ok value := by
  constructor
  · rintro ⟨hne, hink, gap, tail, hgap, rfl, hsome⟩
    have htail : tail <:+ key ++ (gap ++ (mark ++ tail)) :=
      ⟨key ++ (gap ++ mark), by simp⟩
    obtain ⟨rfl, hfilled, hok⟩ := (hvalue _ _ htail).mp hsome
    obtain ⟨gap', hgap', hrest⟩ := exists_gap tail
    refine ⟨⟨hne, hink, hfilled, gap, gap', hgap, hgap', by rw [hrest]⟩, ?_, hok⟩
    exact List.dropWhile_idempotent _ _
  · rintro ⟨⟨hne, hink, hfilled, gap, gap', hgap, hgap', rfl⟩, htrim, hok⟩
    have htail : gap' ++ value <:+ key ++ (gap ++ (mark ++ (gap' ++ value))) :=
      ⟨key ++ (gap ++ mark), by simp⟩
    refine ⟨hne, hink, gap, gap' ++ value, hgap, rfl, ?_⟩
    rw [hvalue _ _ htail, trimStart_append_of_forall hgap', htrim]
    exact ⟨rfl, hfilled, hok⟩

/-- On parts of lines, the splits at an equals sign are the assignments. -/
theorem isSplit_eq_isAssignment (h : IsLinePart payload) : IsSplit ['='] assignedValue payload =
    fun key value => IsAssignment payload key value ∧ trimStart value = value := by
  have hvalue : ∀ rest value, rest <:+ payload → (assignedValue rest = some value ↔
      value = trimStart rest ∧ value ≠ [] ∧ True) := by
    intro rest value hrest
    rw [assignedValue_eq_some_iff (h.of_isSuffix hrest), and_true]
  funext key value
  rw [isSplit_iff_isPair hvalue, and_true]
  rfl

/-- On parts of lines, the splits at an arrow are the mappings. -/
theorem isSplit_eq_isMapping (h : IsLinePart payload) :
    IsSplit ['-', '>'] destination? payload = IsMapping payload := by
  have hvalue : ∀ rest value, rest <:+ payload → (destination? rest = some value ↔
      value = trimStart rest ∧ value ≠ [] ∧ ∀ c ∈ value, isInk c) :=
    fun _ _ hrest => destination?_eq_some_iff (h.of_isSuffix hrest)
  funext key value
  rw [isSplit_iff_isPair hvalue]
  exact propext (and_congr_right fun _ => ⟨And.right, fun hink => ⟨trimStart_of_forall hink, hink⟩⟩)

/-- A pair in a text that keeps its end can be read without the blanks before its value. -/
theorem IsPair.trimStart_value (h : IsPair mark payload key value)
    (hpayload : trimEnd payload = payload) : IsPair mark payload key (trimStart value) := by
  obtain ⟨hne, hink, hfilled, gap, gap', hgap, hgap', hpair⟩ := h
  have hvalue : trimEnd value = value :=
    trimEnd_of_isSuffix hpayload ⟨key ++ (gap ++ (mark ++ gap')), by simp [hpair]⟩
  obtain ⟨more, hmore, hrest⟩ := exists_gap value
  refine ⟨hne, hink, trimStart_ne_nil hvalue hfilled, gap, gap' ++ more, hgap, ?_, ?_⟩
  · intro c hc
    exact (List.mem_append.mp hc).elim (hgap' c) (hmore c)
  · rw [List.append_assoc, hrest, hpair]

theorem isInk_of_mem_equals : ∀ c ∈ ['='], isInk c :=
  List.all_eq_true.mp (by decide)

theorem isInk_of_mem_arrow : ∀ c ∈ ['-', '>'], isInk c :=
  List.all_eq_true.mp (by decide)

/-- A part of a line is read as an assignment exactly when it is one. -/
theorem assignment?_eq_some_iff (h : IsLinePart payload) :
    assignment? payload = some (key, value) ↔ Assigns payload key value := by
  rw [assignment?_eq_split?, split?_eq_some_iff (List.cons_ne_nil _ _) isInk_of_mem_equals,
    isSplit_eq_isAssignment h]
  rfl

/-- The key of an assignment may hold equals signs. -/
example : assignment? "a=b=c d".toList = some ("a=b".toList, "c d".toList) := by decide

/-- A part of a line is read as a mapping exactly when it is one. -/
theorem mapping?_eq_some_iff (h : IsLinePart payload) :
    mapping? payload = some (key, value) ↔ Maps payload key value := by
  rw [mapping?_eq_split?, split?_eq_some_iff (List.cons_ne_nil _ _) isInk_of_mem_arrow,
    isSplit_eq_isMapping h]
  rfl

/-- Of all ways to read a part of a line as an assignment, one has the longest key. -/
theorem exists_assigns_iff (h : IsLinePart payload) :
    (∃ key value, Assigns payload key value) ↔ ∃ key value, IsAssignment payload key value := by
  simp only [← assignment?_eq_some_iff h, assignment?_eq_split?]
  rw [exists_split?_iff (List.cons_ne_nil _ _) isInk_of_mem_equals, isSplit_eq_isAssignment h]
  constructor
  · rintro ⟨key, value, hpair, -⟩
    exact ⟨key, value, hpair⟩
  · rintro ⟨key, value, hpair⟩
    exact ⟨key, trimStart value, hpair.trimStart_value h.trimEnd_eq, List.dropWhile_idempotent _ _⟩

/-- Of all ways to read a part of a line as a mapping, one has the longest source. -/
theorem exists_maps_iff (h : IsLinePart payload) :
    (∃ source destination, Maps payload source destination) ↔
      ∃ source destination, IsMapping payload source destination := by
  simp only [← mapping?_eq_some_iff h, mapping?_eq_split?]
  rw [exists_split?_iff (List.cons_ne_nil _ _) isInk_of_mem_arrow, isSplit_eq_isMapping h]

end HostConfig.Payload
