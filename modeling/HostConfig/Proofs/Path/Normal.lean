import HostConfig.Proofs.Layout.GroupFile
import HostConfig.Proofs.Layout.Separation

/-!
# Normal paths

A path is normal when it is anchored and each of its segments is a name: not empty, not made of one
or two dots, and without a slash. Normalising keeps such a path, and its text is read as the path
itself. Every anchored text normalises to such a path, and going on from one by names gives such a
path again, whose text stands behind that of the directory with one slash between them.
-/

namespace HostConfig

open HostConfig.Text

/-- A text put behind that of a directory, with exactly one slash between them. -/
def slashJoin (directory rest : List Char) : List Char :=
  if directory.getLast? = some '/' then directory ++ rest else directory ++ '/' :: rest

namespace Path

/-- A segment that names something in a directory. -/
def IsName (s : String) : Prop := s ≠ "" ∧ s ≠ "." ∧ s ≠ ".." ∧ '/' ∉ s.toList

instance (s : String) : Decidable (IsName s) := inferInstanceAs (Decidable (_ ∧ _))

/-- An anchored path that a text can spell: no segment is empty, a single dot or holds a slash. -/
structure Readable (p : Path) : Prop where
  anchored : p.anchor ≠ .relative
  isSegment : ∀ s ∈ p.segments, s ≠ "" ∧ s ≠ "." ∧ '/' ∉ s.toList

/-- An anchored path of names. -/
structure Normal (p : Path) : Prop where
  anchored : p.anchor ≠ .relative
  isName : ∀ s ∈ p.segments, IsName s

/-- A path lies strictly below a directory, once both are normalised. -/
def IsBelow (p directory : Path) : Prop :=
  p.normalize.anchor = directory.normalize.anchor ∧
    ∃ names ≠ [], p.normalize.segments = directory.normalize.segments ++ names

variable {p directory : Path} {s : String} {names : List String}

/-- A segment that is read from a text is a name or a double dot. -/
theorem isName_of_mem_segmentsOf {cs : List Char} (h : s ∈ segmentsOf cs) :
    s = ".." ∨ IsName s := by
  obtain ⟨hmem, hkept⟩ := List.mem_filter.mp h
  obtain ⟨piece, hpiece, rfl⟩ := List.mem_map.mp hmem
  have hslash := notMem_of_mem_pieces hpiece
  rw [← String.toList_ofList (l := piece)] at hslash
  simp only [Bool.not_eq_true', Bool.or_eq_false_iff, beq_eq_false_iff_ne] at hkept
  have hempty : String.ofList piece ≠ "" := fun h => by simp [h] at hkept
  by_cases hdots : String.ofList piece = ".."
  · exact Or.inl hdots
  · exact Or.inr ⟨hempty, hkept.2, hdots, hslash⟩

/-- Collapsing keeps only segments that were there. -/
theorem collapse_subset (anchored : Bool) (segments : List String) :
    collapse anchored segments ⊆ segments := by
  have hfold : ∀ kept, segments.foldl (push anchored) kept ⊆ segments ++ kept := by
    induction segments with
    | nil => exact fun kept => List.Subset.refl _
    | cons first rest ih =>
      intro kept
      have hpush : push anchored kept first ⊆ first :: kept := by
        unfold push
        split
        · split
          · split
            · exact List.nil_subset _
            · exact List.Subset.refl _
          · split
            · exact List.Subset.refl _
            · exact fun _ h => List.mem_cons_of_mem _ (List.mem_cons_of_mem _ h)
        · exact List.Subset.refl _
      intro x hx
      have hmem := ih _ hx
      rw [List.mem_append] at hmem
      rcases hmem with hrest | hkept
      · exact List.mem_cons_of_mem _ (List.mem_append_left _ hrest)
      · rcases List.mem_cons.mp (hpush hkept) with rfl | hold
        · exact List.mem_cons_self
        · exact List.mem_cons_of_mem _ (List.mem_append_right _ hold)
  intro x hx
  rw [collapse, List.mem_reverse] at hx
  simpa using hfold [] hx

/-- Normalising an anchored path of names and double dots leaves names. -/
theorem normal_normalize (hanchor : p.anchor ≠ .relative)
    (h : ∀ s ∈ p.segments, s = ".." ∨ IsName s) : p.normalize.Normal where
  anchored := hanchor
  isName s hs := by
    rcases h s (collapse_subset _ _ hs) with rfl | hname
    · exact absurd hs (notMem_normalize hanchor)
    · exact hname

namespace Readable

/-- The characters of an anchored path. -/
theorem toList_eq (h : p.Readable) :
    p.toList = p.anchor.text ++ joinWith ['/'] (p.segments.map String.toList) := by
  rw [toList, if_neg (by simp [h.anchored])]

/-- The text of segments does not begin with a slash. -/
theorem joinWith_ne_cons (hnames : ∀ s ∈ names, s ≠ "" ∧ s ≠ "." ∧ '/' ∉ s.toList)
    (rest : List Char) : joinWith ['/'] (names.map String.toList) ≠ '/' :: rest := by
  intro h
  cases names with
  | nil => cases h
  | cons first others =>
    obtain ⟨hempty, -, hslash⟩ := hnames first List.mem_cons_self
    obtain ⟨c, cs, hfirst⟩ : ∃ c cs, first.toList = c :: cs :=
      List.exists_cons_of_ne_nil (by simpa using hempty)
    have hhead : c = '/' := by
      cases others with
      | nil => simpa [joinWith, hfirst] using congrArg List.head? h
      | cons second others => simpa [joinWith, hfirst] using congrArg List.head? h
    rw [hfirst, hhead] at hslash
    exact hslash List.mem_cons_self

/-- The anchor of a text that goes on without a slash. -/
theorem anchorOf_append {anchor : Anchor} {tail : List Char} (h : anchor ≠ .relative)
    (htail : ∀ rest, tail ≠ '/' :: rest) : anchorOf (anchor.text ++ tail) = anchor := by
  rcases tail with _ | ⟨c, rest⟩
  · cases anchor <;> first | contradiction | rfl
  · have hc : c ≠ '/' := fun hc => htail rest (hc ▸ rfl)
    cases anchor with
    | relative => contradiction
    | root | doubleRoot => simp [Anchor.text, anchorOf, hc]

/-- A path that a text can spell is read from its own text. -/
theorem ofString_toString (h : p.Readable) : ofString p.toString = p := by
  have htext := joinWith_ne_cons h.isSegment
  have hsegments : segmentsOf (joinWith ['/'] (p.segments.map String.toList)) = p.segments := by
    rw [segmentsOf]
    by_cases hnone : p.segments = []
    · rw [hnone]
      rfl
    · have hslash : ∀ part ∈ p.segments.map String.toList, '/' ∉ part := by
        intro part hpart
        obtain ⟨s, hs, rfl⟩ := List.mem_map.mp hpart
        exact (h.isSegment s hs).2.2
      rw [pieces_joinWith (by simpa using hnone) hslash, List.map_map]
      simp only [Function.comp_def, String.ofList_toList, List.map_id']
      refine List.filter_eq_self.mpr fun s hs => ?_
      obtain ⟨hempty, hdot, -⟩ := h.isSegment s hs
      simp [hempty, hdot]
  rw [ofString, toString, String.toList_ofList, h.toList_eq]
  obtain ⟨anchor, segments⟩ := p
  generalize htail : joinWith ['/'] (segments.map String.toList) = tail at htext hsegments
  -- A slash of the anchor opens an empty piece, which is dropped.
  have hdrop : ∀ cs, segmentsOf ('/' :: cs) = segmentsOf cs := fun cs => by
    simp [segmentsOf, pieces]
  have htail' : segmentsOf (anchor.text ++ tail) = segmentsOf tail := by
    cases anchor with
    | relative => rfl
    | root => exact hdrop tail
    | doubleRoot => exact (hdrop _).trans (hdrop tail)
  rw [anchorOf_append h.anchored htext, htail', hsegments]

/-- Going on from a readable path as a text tells. -/
theorem child (h : p.Readable) (name : String) : (p.child name).Readable := by
  have hread : ∀ s ∈ (ofString name).segments, s ≠ "" ∧ s ≠ "." ∧ '/' ∉ s.toList := by
    intro s hs
    rcases isName_of_mem_segmentsOf hs with rfl | ⟨hempty, hdot, -, hslash⟩
    · decide
    · exact ⟨hempty, hdot, hslash⟩
  unfold Path.child join
  split
  · refine ⟨h.anchored, fun s hs => ?_⟩
    exact (List.mem_append.mp hs).elim (h.isSegment s) (hread s)
  · next hanchor => exact ⟨hanchor, hread⟩

end Readable

namespace Normal

/-- A normal path is its own normal form. -/
theorem normalize_eq (h : p.Normal) : p.normalize = p :=
  normalize_of_notMem fun hdots => (h.isName _ hdots).2.2.1 rfl

/-- Going on from a normal path by names. -/
theorem append (h : p.Normal) (hnames : ∀ s ∈ names, IsName s) :
    (⟨p.anchor, p.segments ++ names⟩ : Path).Normal where
  anchored := h.anchored
  isName s hs := (List.mem_append.mp hs).elim (h.isName s) (hnames s)

/-- A text can spell a normal path. -/
theorem readable (h : p.Normal) : p.Readable where
  anchored := h.anchored
  isSegment s hs := by
    obtain ⟨hempty, hdot, -, hslash⟩ := h.isName s hs
    exact ⟨hempty, hdot, hslash⟩

/-- A normal path is read from its own text. -/
theorem ofString_toString (h : p.Normal) : ofString p.toString = p := h.readable.ofString_toString

/-- The text of a path that goes on from a directory by names. -/
theorem toList_append (h : p.Normal) (hne : names ≠ []) :
    (⟨p.anchor, p.segments ++ names⟩ : Path).toList =
      slashJoin p.toList (joinWith ['/'] (names.map String.toList)) := by
  rcases List.eq_nil_or_concat p.segments with hnone | ⟨before, last, hlast⟩
  · have hslash : p.toList.getLast? = some '/' := by
      rw [h.readable.toList_eq, hnone]
      cases hanchor : p.anchor with
      | relative => exact absurd hanchor h.anchored
      | root | doubleRoot => rfl
    rw [slashJoin, if_pos hslash, h.readable.toList_eq, hnone, toList,
      if_neg (by simp [h.anchored])]
    simp [joinWith]
  · rw [List.concat_eq_append] at hlast
    obtain ⟨hempty, -, -, hnoSlash⟩ := h.isName last (by simp [hlast])
    have hslash : p.toList.getLast? ≠ some '/' := by
      obtain ⟨stem, hstem⟩ := exists_stem p.anchor before
      have htext : p.toList = stem ++ last.toList := by
        rw [← hstem last, ← hlast]
      have hfilled : last.toList ≠ [] := by simpa using hempty
      rw [htext, List.getLast?_append_of_ne_nil _ hfilled]
      exact fun hmem => hnoSlash (List.mem_of_getLast? hmem)
    have hsegments : p.segments ≠ [] := by simp [hlast]
    rw [slashJoin, if_neg hslash, Path.toList_append _ hsegments hne]

end Normal

end Path

/-- The root of a layout that is located by anchored texts is normal. -/
theorem Layout.normal_locate {home : String} {root : Option String}
    (h : (locate home root).root.anchor ≠ .relative) : (locate home root).root.Normal := by
  have hhome : ∀ home, ∀ s ∈ (homePath home).segments, s = ".." ∨ Path.IsName s := by
    intro home s hs
    unfold homePath at hs
    split at hs
    · cases hs
    · exact Path.isName_of_mem_segmentsOf hs
  have hjoin : ∀ p q : Path, (∀ s ∈ p.segments, s = ".." ∨ Path.IsName s) →
      (∀ s ∈ q.segments, s = ".." ∨ Path.IsName s) →
        ∀ s ∈ (p.join q).segments, s = ".." ∨ Path.IsName s := by
    intro p q hp hq s hs
    unfold Path.join at hs
    split at hs
    · exact (List.mem_append.mp hs).elim (hp s) (hq s)
    · exact hq s hs
  have hread : ∀ text, ∀ s ∈ (Path.ofString text).segments, s = ".." ∨ Path.IsName s :=
    fun text s hs => Path.isName_of_mem_segmentsOf hs
  cases root with
  | none => exact Path.normal_normalize h (hjoin _ _ (hhome home) (hread ".owl"))
  | some text =>
    refine Path.normal_normalize h fun s hs => ?_
    unfold expandHome at hs
    split at hs
    · next rest _ hsegments =>
      refine hjoin _ _ (hhome _) (fun other hother => hread text other ?_) s hs
      rw [hsegments]
      exact List.mem_cons_of_mem _ hother
    · exact hread text s hs

end HostConfig
