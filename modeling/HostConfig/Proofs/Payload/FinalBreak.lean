import HostConfig.Proofs.Layout.Confinement
import HostConfig.Proofs.Payload.Grammar

/-!
# A line feed behind a payload

A payload that is no part of a line may end with a line feed, which is passed over once. The value
of an assignment has to stand on one line then, and line feeds before it count as blanks. With this,
assignments, mappings and the names of groups are told apart from all other texts.
-/

namespace HostConfig

open HostConfig.Text HostConfig.Payload

/-- A property of a text, or of what stands before its final line feed. -/
def UpToBreak (P : List Char → Prop) (text : List Char) : Prop :=
  ∃ body, P body ∧ (text = body ∨ text = body ++ ['\n'])

variable {P : List Char → Prop} {text rest mark payload value : List Char}

/-- A text that keeps its end has no line feed there to pass over. -/
theorem upToBreak_iff (h : trimEnd text = text) : UpToBreak P text ↔ P text := by
  constructor
  · rintro ⟨body, hbody, rfl | rfl⟩
    · exact hbody
    · have hend := trimEnd_eq_self_iff.mp h (by simp)
      rw [List.getLast_append_singleton] at hend
      exact absurd (by decide) hend
  · exact fun htext => ⟨text, htext, Or.inl rfl⟩

/-- A property that no text with a line feed at its end has is one of the text without it. -/
theorem upToBreak_iff_withoutFinalBreak (hP : ∀ body, P body → body.getLast? ≠ some '\n') :
    UpToBreak P text ↔ P (withoutFinalBreak text) := by
  constructor
  · rintro ⟨body, hbody, rfl | rfl⟩
    · rwa [withoutFinalBreak, if_neg (hP _ hbody)]
    · rwa [withoutFinalBreak, List.getLast?_concat, if_pos rfl, List.dropLast_concat]
  · intro h
    obtain ⟨tail, htext, rfl | rfl⟩ := withoutFinalBreak_append text
    · exact ⟨_, h, Or.inl (by simpa using htext)⟩
    · exact ⟨_, h, Or.inr htext⟩

namespace Payload

/-- Blanks and then a value. -/
def HasValue (ok : List Char → Prop) (body : List Char) : Prop :=
  ∃ gap value, (∀ c ∈ gap, isBlank c) ∧ value ≠ [] ∧ ok value ∧ body = gap ++ value

/-- A value on one line stands on the last line, and the lines before that are blank. -/
theorem hasValue_iff_pieces {earlier : List (List Char)} {last : List Char}
    (hpieces : pieces '\n' text = earlier ++ [last]) :
    HasValue ('\n' ∉ ·) text ↔ last ≠ [] ∧ ∀ piece ∈ earlier, ∀ c ∈ piece, isBlank c := by
  constructor
  · rintro ⟨gap, line, hgap, hne, hline, rfl⟩
    obtain ⟨before, start, hgapPieces, hboth⟩ := pieces_append gap hline
    obtain ⟨rfl, hlast⟩ := List.append_inj' (hpieces.symm.trans hboth) rfl
    cases List.singleton_inj.mp hlast
    refine ⟨by simp [hne], fun piece hpiece c hc => hgap c ?_⟩
    have hmem : piece ∈ pieces '\n' gap := by
      rw [hgapPieces]
      exact List.mem_append_left _ hpiece
    exact subset_of_mem_pieces hmem hc
  · rintro ⟨hne, hblank⟩
    have hline : '\n' ∉ last := notMem_of_mem_pieces (by rw [hpieces]; simp)
    have htext := joinWith_pieces '\n' text
    rw [hpieces] at htext
    by_cases hnone : earlier = []
    · subst hnone
      exact ⟨[], last, by simp, hne, hline, htext.symm⟩
    · rw [joinWith_append _ hnone (List.cons_ne_nil _ _)] at htext
      refine ⟨joinWith ['\n'] earlier ++ ['\n'], last, fun c hc => ?_, hne, hline, htext.symm⟩
      have hbreak : isBlank '\n' = true := by decide
      rcases List.mem_append.mp hc with hearlier | hlast
      · rcases mem_joinWith hearlier with rfl | ⟨piece, hpiece, hmem⟩
        · exact hbreak
        · exact hblank piece hpiece c hmem
      · exact List.mem_singleton.mp hlast ▸ hbreak

/-- A value on one line does not end with a line feed. -/
theorem HasValue.getLast?_ne {ok : List Char → Prop} (hok : ∀ value, ok value → '\n' ∉ value)
    (h : HasValue ok text) : text.getLast? ≠ some '\n' := by
  obtain ⟨gap, value, -, hne, hvalue, rfl⟩ := h
  rw [List.getLast?_append_of_ne_nil _ hne]
  exact fun hlast => hok value hvalue (List.mem_of_getLast? hlast)

/-- What stands behind an equals sign is a value if it stands on one line, up to blanks before it
and a line feed behind it. -/
theorem assignedValue_eq_some_iff_hasValue : assignedValue rest = some value ↔
    UpToBreak (HasValue ('\n' ∉ ·)) rest ∧ value = trim rest := by
  obtain ⟨earlier, last, hpieces, -⟩ :=
    pieces_append (withoutFinalBreak rest) (List.not_mem_nil (a := '\n'))
  rw [upToBreak_iff_withoutFinalBreak fun _ h => h.getLast?_ne fun _ => id,
    hasValue_iff_pieces hpieces, assignedValue, hpieces, List.reverse_append]
  cases last with
  | nil => simp
  | cons c last =>
    have hall : (earlier.reverse.all (·.all isBlank)) = true ↔
        ∀ piece ∈ earlier, ∀ c ∈ piece, isBlank c := by simp
    rw [← hall]
    by_cases hblank : earlier.reverse.all (·.all isBlank) = true
    · simp [hblank, eq_comm]
    · simp [hblank]

/-- What stands behind an arrow is a destination if it is a single word, up to blanks before it and
a line feed behind it. -/
theorem exists_destination?_iff : (∃ value, destination? rest = some value) ↔
    UpToBreak (HasValue (∀ c ∈ ·, isInk c)) rest := by
  constructor
  · rintro ⟨value, hsome⟩
    obtain ⟨gap, hgap, hrest⟩ := exists_gap rest
    have hword := firstWord_append_afterWord (trimStart rest)
    have hvalue : HasValue (∀ c ∈ ·, isInk c) (gap ++ firstWord (trimStart rest)) := by
      refine ⟨gap, _, hgap, ?_, fun c hc => isInk_of_mem_firstWord hc, rfl⟩
      intro hnil
      simp [destination?, hnil] at hsome
    refine ⟨_, hvalue, ?_⟩
    by_cases hnone : afterWord (trimStart rest) = []
    · rw [hnone, List.append_nil] at hword
      exact Or.inl (by rw [hword, hrest])
    · by_cases hbreak : afterWord (trimStart rest) = ['\n']
      · exact Or.inr (by rw [List.append_assoc, ← hbreak, hword, hrest])
      · simp [destination?, hnone, hbreak] at hsome
  · rintro ⟨body, ⟨gap, word, hgap, hne, hink, rfl⟩, hend⟩
    have htail : ∃ tail, rest = gap ++ (word ++ tail) ∧ (tail = [] ∨ tail = ['\n']) := by
      rcases hend with rfl | rfl
      · exact ⟨[], by simp, Or.inl rfl⟩
      · exact ⟨['\n'], by simp, Or.inr rfl⟩
    obtain ⟨tail, rfl, htail⟩ := htail
    have hink' : ∀ c ∈ tail, ¬ isInk c := by
      rcases htail with rfl | rfl <;> simp [isInk, isBlank]
    have hfirst : firstWord (word ++ tail) = word := by
      rw [firstWord, List.takeWhile_append_of_pos hink, List.takeWhile_eq_nil_iff.mpr ?_,
        List.append_nil]
      exact fun hpos => hink' _ (List.getElem_mem hpos)
    have hafter : afterWord (word ++ tail) = tail :=
      List.append_cancel_left (hfirst ▸ firstWord_append_afterWord (word ++ tail))
    refine ⟨word, ?_⟩
    rw [destination?, trimStart_gap hne hink hgap, hfirst, hafter]
    rcases htail with rfl | rfl <;> simp [hne]

/-- A split is possible at a mark in a text exactly when there is a pair with that mark in it, up to
a line feed at its end. -/
theorem exists_isSplit_iff {value? : List Char → Option (List Char)} {ok : List Char → Prop}
    (hvalue : ∀ rest, (∃ value, value? rest = some value) ↔ UpToBreak (HasValue ok) rest) :
    (∃ key value, IsSplit mark value? payload key value) ↔
      UpToBreak (fun body => ∃ key value, IsPair mark body key value ∧ ok value) payload := by
  constructor
  · rintro ⟨key, value, hne, hink, gap, tail, hgap, hpayload, hsome⟩
    obtain ⟨body, ⟨gap', word, hgap', hword, hok, rfl⟩, hend⟩ := (hvalue tail).mp ⟨value, hsome⟩
    have hpair : IsPair mark (key ++ (gap ++ (mark ++ (gap' ++ word)))) key word :=
      ⟨hne, hink, hword, gap, gap', hgap, hgap', rfl⟩
    refine ⟨_, ⟨key, word, hpair, hok⟩, ?_⟩
    rcases hend with rfl | rfl
    · exact Or.inl hpayload
    · exact Or.inr (by simpa using hpayload)
  · rintro ⟨body, ⟨key, word, ⟨hne, hink, hword, gap, gap', hgap, hgap', rfl⟩, hok⟩, hend⟩
    have htail : ∃ tail, payload = key ++ (gap ++ (mark ++ tail)) ∧
        (tail = gap' ++ word ∨ tail = gap' ++ word ++ ['\n']) := by
      rcases hend with rfl | rfl
      · exact ⟨_, rfl, Or.inl rfl⟩
      · exact ⟨_, by simp, Or.inr rfl⟩
    obtain ⟨tail, hpayload, hends⟩ := htail
    obtain ⟨value, hsome⟩ := (hvalue tail).mpr ⟨_, ⟨gap', word, hgap', hword, hok, rfl⟩, hends⟩
    exact ⟨key, value, hne, hink, gap, tail, hgap, hpayload, hsome⟩

/-- A text is read as an assignment exactly when it is one with its value on one line, up to a line
feed at its end. -/
theorem exists_assignment?_iff : (∃ key value, assignment? payload = some (key, value)) ↔
    UpToBreak (fun body => ∃ key value, IsAssignment body key value ∧ '\n' ∉ value) payload := by
  simp only [assignment?_eq_split?]
  rw [exists_split?_iff (List.cons_ne_nil _ _) isInk_of_mem_equals]
  refine exists_isSplit_iff fun rest => ?_
  simp only [assignedValue_eq_some_iff_hasValue]
  exact ⟨fun ⟨_, hvalue, _⟩ => hvalue, fun hvalue => ⟨_, hvalue, rfl⟩⟩

/-- A text is read as a mapping exactly when it is one, up to a line feed at its end. -/
theorem exists_mapping?_iff : (∃ source target, mapping? payload = some (source, target)) ↔
    UpToBreak (fun body => ∃ source target, IsMapping body source target) payload := by
  simp only [mapping?_eq_split?]
  rw [exists_split?_iff (List.cons_ne_nil _ _) isInk_of_mem_arrow]
  exact exists_isSplit_iff fun rest => exists_destination?_iff

end Payload

/-- A text may name a group exactly when it is segmented, up to a line feed at its end. -/
theorem isGroupName_iff_upToBreak {name : String} :
    isGroupName name ↔ UpToBreak (fun body => IsSegmented (String.ofList body)) name.toList := by
  rw [upToBreak_iff_withoutFinalBreak, isGroupName, all_isGroupSegment_iff]
  intro body hbody hlast
  refine hbody.notMem ?_
  rw [String.toList_ofList]
  exact List.mem_of_getLast? hlast

end HostConfig
