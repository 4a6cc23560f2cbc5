import HostConfig.FileTree
import HostConfig.Layout
import HostConfig.Proofs.Text.Cutting

/-!
# The files of groups

A group name spells the way from the directory of groups to the group's file: the written path of
that file, and the key under which a tree stores it, are those of the directory followed by a
slash, the name and the extension. Different names therefore mean different files and different
keys, whatever the root of the layout is.
-/

namespace HostConfig

open HostConfig.Text

/-- The characters of a text and its final break make up the text. -/
theorem Text.withoutFinalBreak_append (cs : List Char) :
    ∃ tail, cs = withoutFinalBreak cs ++ tail ∧ (tail = [] ∨ tail = ['\n']) := by
  unfold withoutFinalBreak
  split
  · next h => exact ⟨['\n'], (List.dropLast_append_getLast? _ h).symm, Or.inr rfl⟩
  · exact ⟨[], (List.append_nil cs).symm, Or.inl rfl⟩

/-- Joining parts that are followed by other parts. -/
theorem Text.joinWith_append (separator : List Char) {xs ys : List (List Char)}
    (hxs : xs ≠ []) (hys : ys ≠ []) :
    joinWith separator (xs ++ ys) = joinWith separator xs ++ separator ++ joinWith separator ys := by
  induction xs with
  | nil => contradiction
  | cons x rest ih =>
    rcases hrest : rest with _ | ⟨y, rest'⟩
    · cases ys with
      | nil => contradiction
      | cons y ys => rfl
    · rw [hrest] at ih
      have htail := ih (List.cons_ne_nil _ _)
      rw [List.cons_append] at htail
      simp only [List.cons_append, joinWith, htail, List.append_assoc]

/-- The segments of a group's file below the directory of groups. -/
def groupSegments (group : String) : List String :=
  (pieces '/' (group ++ ".owl").toList).map String.ofList

/-- A segment of a group's file is a segment of its name, maybe with the extension behind it. -/
theorem mem_pieces_group {group : String} (hgroup : isGroupName group) {piece : List Char}
    (h : piece ∈ pieces '/' (group ++ ".owl").toList) :
    isGroupSegment piece ∨ 4 < piece.length := by
  obtain ⟨tail, htext, htail⟩ := withoutFinalBreak_append group.toList
  have hext : '/' ∉ tail ++ ".owl".toList := by
    rcases htail with rfl | rfl <;> decide
  have hlength : 4 ≤ (tail ++ ".owl".toList).length := by
    rcases htail with rfl | rfl <;> decide
  obtain ⟨before, last, hname, hfile⟩ := pieces_append (withoutFinalBreak group.toList) hext
  rw [isGroupName, hname, List.all_eq_true] at hgroup
  rw [String.toList_append, htext, List.append_assoc, hfile] at h
  rcases List.mem_append.mp h with hbefore | hlast
  · exact Or.inl (hgroup piece (List.mem_append_left _ hbefore))
  · have hlastSegment := hgroup last (by simp)
    have hne : last ≠ [] := by
      rintro rfl
      simp [isGroupSegment] at hlastSegment
    have hpos := List.length_pos_iff.mpr hne
    rw [List.mem_singleton] at hlast
    subst piece
    rw [List.length_append]
    exact Or.inr (by omega)

/-- A segment of a group's file is neither empty nor made of dots. -/
theorem not_mem_groupSegments {group : String} (hgroup : isGroupName group) :
    "" ∉ groupSegments group ∧ "." ∉ groupSegments group ∧ ".." ∉ groupSegments group := by
  have hnot : ∀ s : String, ¬ isGroupSegment s.toList → s.toList.length ≤ 4 →
      s ∉ groupSegments group := by
    intro s hsegment hlength hmem
    obtain ⟨piece, hpiece, rfl⟩ := List.mem_map.mp hmem
    rw [String.toList_ofList] at hsegment hlength
    rcases mem_pieces_group hgroup hpiece with h | h
    · exact hsegment h
    · omega
  exact ⟨hnot _ (by decide) (by decide), hnot _ (by decide) (by decide),
    hnot _ (by decide) (by decide)⟩

/-- The file of a group lies in the directory of groups, at the segments of its name. -/
theorem Layout.groupFile_eq (l : Layout) {group : String} (hgroup : isGroupName group) :
    l.groupFile group =
      ⟨l.root.anchor, (l.root.segments ++ ["groups"]) ++ groupSegments group⟩ := by
  have hdirectory : Path.ofString "groups" = ⟨.relative, ["groups"]⟩ := by decide
  obtain ⟨hempty, hdot, -⟩ := not_mem_groupSegments hgroup
  have hsegments : Path.segmentsOf (group ++ ".owl").toList = groupSegments group := by
    unfold Path.segmentsOf
    refine List.filter_eq_self.mpr fun s hs => ?_
    have hs₁ : s ≠ "" := fun h => hempty (h ▸ hs)
    have hs₂ : s ≠ "." := fun h => hdot (h ▸ hs)
    simp [hs₁, hs₂]
  have hanchor : Path.anchorOf (group ++ ".owl").toList = .relative := by
    rcases htext : (group ++ ".owl").toList with _ | ⟨c, rest⟩
    · rfl
    · have hc : c ≠ '/' := by
        rintro rfl
        apply hempty
        rw [groupSegments, htext]
        simp [pieces]
      unfold Path.anchorOf
      split <;> simp_all
  simp only [Layout.groupFile, Path.child, hdirectory, Path.join_relative]
  rw [Path.ofString, hanchor, hsegments, Path.join_relative]

/-- The text of a path that goes on below another one. -/
theorem Path.toList_append (a : Anchor) {xs ys : List String} (hxs : xs ≠ []) (hys : ys ≠ []) :
    (⟨a, xs ++ ys⟩ : Path).toList =
      (⟨a, xs⟩ : Path).toList ++ '/' :: joinWith ['/'] (ys.map String.toList) := by
  have hempty : (xs ++ ys).isEmpty = false := by simp [hxs]
  have hxsEmpty : xs.isEmpty = false := by simp [hxs]
  simp only [Path.toList, hempty, hxsEmpty, Bool.and_false, Bool.false_eq_true, if_false,
    List.map_append]
  rw [joinWith_append _ (by simpa using hxs) (by simpa using hys)]
  simp

/-- Joining the segments of a group's file spells its name and the extension. -/
theorem joinWith_groupSegments (group : String) :
    joinWith ['/'] ((groupSegments group).map String.toList) = group.toList ++ ".owl".toList := by
  have hround : (groupSegments group).map String.toList = pieces '/' (group ++ ".owl").toList := by
    simp [groupSegments, Function.comp_def]
  rw [hround, joinWith_pieces, String.toList_append]

theorem groupSegments_ne_nil (group : String) : groupSegments group ≠ [] := by
  simpa [groupSegments] using pieces_ne_nil _ _

/-- Segments without double dots stay behind whatever the segments before them collapse to. -/
theorem Path.collapse_append (anchored : Bool) (xs : List String) {ys : List String}
    (h : ".." ∉ ys) : collapse anchored (xs ++ ys) = collapse anchored xs ++ ys := by
  rw [collapse, List.foldl_append, foldl_push_of_notMem _ _ h]
  simp [collapse]

/-- The directory of groups. -/
def Layout.groupDirectory (l : Layout) : Path := ⟨l.root.anchor, l.root.segments ++ ["groups"]⟩

/-- The text of a group's file is the directory's, a slash, the name and the extension. -/
theorem Layout.toList_groupFile (l : Layout) {group : String} (hgroup : isGroupName group) :
    (l.groupFile group).toList =
      l.groupDirectory.toList ++ '/' :: (group.toList ++ ".owl".toList) := by
  rw [l.groupFile_eq hgroup, Path.toList_append _ (by simp) (groupSegments_ne_nil group),
    joinWith_groupSegments]
  rfl

/-- The key of a group's file is the directory's, a slash, the name and the extension. -/
theorem Layout.key_groupFile (l : Layout) {group : String} (hgroup : isGroupName group) :
    (FileTree.key (l.groupFile group)).toList =
      l.groupDirectory.normalize.toList ++ '/' :: (group.toList ++ ".owl".toList) := by
  obtain ⟨-, -, hdots⟩ := not_mem_groupSegments hgroup
  have hdirectory : ".." ∉ ["groups"] := by decide
  rw [FileTree.key, Path.toString, String.toList_ofList, l.groupFile_eq hgroup, Path.normalize,
    Path.collapse_append _ _ hdots,
    Path.toList_append _ (by simp [Path.collapse_append _ _ hdirectory])
      (groupSegments_ne_nil group), joinWith_groupSegments]
  rfl

/-- Different names mean different keys. -/
theorem Layout.key_groupFile_injective (l : Layout) {g h : String} (hg : isGroupName g)
    (hh : isGroupName h) (heq : FileTree.key (l.groupFile g) = FileTree.key (l.groupFile h)) :
    g = h := by
  have hlist := congrArg String.toList heq
  rw [l.key_groupFile hg, l.key_groupFile hh] at hlist
  have hname := List.append_cancel_right (List.tail_eq_of_cons_eq (List.append_cancel_left hlist))
  exact String.toList_injective hname

/-- Different names mean different files. -/
theorem Layout.toString_groupFile_injective (l : Layout) {g h : String} (hg : isGroupName g)
    (hh : isGroupName h) (heq : (l.groupFile g).toString = (l.groupFile h).toString) : g = h := by
  have hlist := congrArg String.toList heq
  rw [Path.toString, Path.toString, String.toList_ofList, String.toList_ofList,
    l.toList_groupFile hg, l.toList_groupFile hh] at hlist
  have hname := List.append_cancel_right (List.tail_eq_of_cons_eq (List.append_cancel_left hlist))
  exact String.toList_injective hname

end HostConfig
