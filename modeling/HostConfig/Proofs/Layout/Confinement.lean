import HostConfig.Proofs.Path.Normal
import HostConfig.Proofs.Payload.LinePart

/-!
# Groups stay in their directory

A text that stands on one line is a possible group name exactly when it is made of segments of
letters, digits, underscores and hyphens with single slashes between them. Such a name leads from
the directory of groups strictly downwards: the path of the group's file is in normal form, its text
spells the name, and no other name leads there.
-/

namespace HostConfig

open HostConfig.Text

/-- One or more segments with slashes between them, each a non-empty run of letters, digits,
underscores and hyphens. -/
def IsSegmented (name : String) : Prop :=
  ∃ segments : List (List Char), segments ≠ [] ∧
    (∀ segment ∈ segments, segment ≠ [] ∧
      ∀ c ∈ segment, c.isAlphanum = true ∨ c = '_' ∨ c = '-') ∧
    name.toList = joinWith ['/'] segments

/-- A segment of a group name is a run of letters, digits, underscores and hyphens. -/
theorem isGroupSegment_iff {segment : List Char} : isGroupSegment segment ↔
    segment ≠ [] ∧ ∀ c ∈ segment, c.isAlphanum = true ∨ c = '_' ∨ c = '-' := by
  simp [isGroupSegment, isGroupChar, or_assoc]

/-- The pieces between slashes are segments exactly when the text is segmented. -/
theorem all_isGroupSegment_iff {text : List Char} :
    (pieces '/' text).all isGroupSegment ↔ IsSegmented (String.ofList text) := by
  rw [List.all_eq_true, IsSegmented, String.toList_ofList]
  simp only [isGroupSegment_iff]
  constructor
  · intro hpieces
    exact ⟨pieces '/' text, pieces_ne_nil _ _, hpieces, (joinWith_pieces _ _).symm⟩
  · rintro ⟨segments, hne, hsegments, rfl⟩
    have hslash : ∀ segment ∈ segments, '/' ∉ segment := by
      intro segment hsegment hmem
      exact absurd ((hsegments segment hsegment).2 _ hmem) (by decide)
    rwa [pieces_joinWith hne hslash]

/-- A text on one line may name a group exactly when it is segmented. -/
theorem isGroupName_iff {name : String} (h : '\n' ∉ name.toList) :
    isGroupName name ↔ IsSegmented name := by
  rw [isGroupName, withoutFinalBreak_of_notMem h, all_isGroupSegment_iff, String.ofList_toList]

/-- A segmented text stands on one line. -/
theorem IsSegmented.notMem {name : String} (h : IsSegmented name) : '\n' ∉ name.toList := by
  obtain ⟨segments, -, hsegments, hname⟩ := h
  intro hmem
  rw [hname] at hmem
  rcases mem_joinWith hmem with hslash | ⟨segment, hsegment, hbreak⟩
  · cases hslash
  · exact absurd ((hsegments segment hsegment).2 _ hbreak) (by decide)

/-- A segmented text may name a group. -/
theorem IsSegmented.isGroupName {name : String} (h : IsSegmented name) : isGroupName name :=
  (isGroupName_iff h.notMem).mpr h

/-- The segments of a group's file are names. -/
theorem isName_of_mem_groupSegments {group : String} (hgroup : isGroupName group) :
    ∀ s ∈ groupSegments group, Path.IsName s := by
  obtain ⟨hempty, hdot, hdots⟩ := not_mem_groupSegments hgroup
  intro s hs
  refine ⟨ne_of_mem_of_not_mem hs hempty, ne_of_mem_of_not_mem hs hdot,
    ne_of_mem_of_not_mem hs hdots, ?_⟩
  obtain ⟨piece, hpiece, rfl⟩ := List.mem_map.mp hs
  rw [String.toList_ofList]
  exact notMem_of_mem_pieces hpiece

/-- The file of a group is where it belongs. -/
structure Layout.Confines (l : Layout) (name : String) : Prop where
  /-- The text of its path spells the root, the directory of groups, the name and the extension. -/
  toString_eq : (l.groupFile name).toString =
    String.ofList (slashJoin l.root.toString.toList ("groups/" ++ name ++ ".owl").toList)
  normalize_eq : (Path.ofString (l.groupFile name).toString).normalize.toString =
    (l.groupFile name).toString
  isBelow : (l.groupFile name).IsBelow l.groupDirectory
  eq_of_toString_eq : ∀ other, IsSegmented other →
    (l.groupFile other).toString = (l.groupFile name).toString → other = name

/-- The file of a group lies strictly below the directory of groups, whatever the root is. -/
theorem Layout.isBelow_groupFile (l : Layout) {group : String} (hgroup : isGroupName group) :
    (l.groupFile group).IsBelow l.groupDirectory := by
  obtain ⟨-, -, hdots⟩ := not_mem_groupSegments hgroup
  rw [l.groupFile_eq hgroup]
  refine ⟨rfl, groupSegments group, groupSegments_ne_nil group, ?_⟩
  exact Path.collapse_append _ _ hdots

/-- Below a normal root, the file of a group with a segmented name is where it belongs. -/
theorem Layout.confines {l : Layout} (hroot : l.root.Normal) {name : String}
    (hname : IsSegmented name) : l.Confines name := by
  have hgroup := hname.isGroupName
  have hsegments := isName_of_mem_groupSegments hgroup
  have hnames : ∀ s ∈ "groups" :: groupSegments name, Path.IsName s :=
    List.forall_mem_cons.mpr ⟨by decide, hsegments⟩
  have hfile : l.groupFile name =
      ⟨l.root.anchor, l.root.segments ++ "groups" :: groupSegments name⟩ := by
    rw [l.groupFile_eq hgroup, List.append_assoc]
    rfl
  have hnormal : (l.groupFile name).Normal := hfile ▸ hroot.append hnames
  constructor
  case toString_eq =>
    have hspell : joinWith ['/'] (("groups" :: groupSegments name).map String.toList) =
        ("groups/" ++ name ++ ".owl").toList := by
      have hne : (groupSegments name).map String.toList ≠ [] := by
        simpa using groupSegments_ne_nil name
      have hjoin := joinWith_append ['/'] (List.cons_ne_nil "groups".toList []) hne
      rw [joinWith_groupSegments] at hjoin
      rw [List.map_cons, ← List.singleton_append (x := "groups".toList), hjoin]
      simp [joinWith, String.toList_append]
    rw [hfile, Path.toString, hroot.toList_append (List.cons_ne_nil _ _), hspell, Path.toString,
      String.toList_ofList]
  case normalize_eq => rw [hnormal.ofString_toString, hnormal.normalize_eq]
  case isBelow => exact l.isBelow_groupFile hgroup
  case eq_of_toString_eq =>
    intro other hother heq
    exact l.toString_groupFile_injective hother.isGroupName hgroup heq

end HostConfig
