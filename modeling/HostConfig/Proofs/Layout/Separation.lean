import HostConfig.Proofs.Layout.GroupFile
import Mathlib.Data.List.Infix

/-!
# Files that are kept apart

The main file stands beside the directory of groups, so that no group's file is the main file. A
host's file may stand anywhere, since a host's name may lead there, but its name has an extension.
The directories that lead to a group's file below the root have none, so that the file of a host is
a directory on this way only if it lies above the root.
-/

namespace HostConfig

open HostConfig.Text

/-- What begins a joined text and ends in a character begins the first part or goes beyond it. -/
theorem concat_prefix_append_cases {xs ys zs : List Char} {c : Char}
    (h : xs ++ [c] <+: ys ++ zs) :
    xs ++ [c] <+: ys ∨ ∃ mid, xs = ys ++ mid ∧ mid ++ [c] <+: zs := by
  obtain ⟨rest, hrest⟩ := h
  rcases List.append_eq_append_iff.mp hrest with ⟨before, hys, -⟩ | ⟨beyond, hxs, hzs⟩
  · exact Or.inl ⟨before, hys.symm⟩
  · rcases List.eq_nil_or_concat beyond with rfl | ⟨mid, last, rfl⟩
    · rw [List.append_nil] at hxs
      exact Or.inl (hxs ▸ List.prefix_rfl)
    · rw [List.concat_eq_append, ← List.append_assoc] at hxs
      obtain ⟨hmid, hlast⟩ := List.append_inj' hxs rfl
      cases hlast
      refine Or.inr ⟨mid, hmid, rest, ?_⟩
      rw [hzs, List.concat_eq_append]

/-- A character of joined parts is the separator or stands in a part. -/
theorem Text.mem_joinWith {separator c : Char} {parts : List (List Char)}
    (h : c ∈ joinWith [separator] parts) : c = separator ∨ ∃ part ∈ parts, c ∈ part := by
  induction parts with
  | nil => cases h
  | cons first rest ih =>
    cases rest with
    | nil => exact Or.inr ⟨first, List.mem_cons_self, h⟩
    | cons second rest =>
      change c ∈ first ++ [separator] ++ joinWith [separator] (second :: rest) at h
      rw [List.mem_append, List.mem_append, List.mem_singleton] at h
      rcases h with (hfirst | hseparator) | hrest
      · exact Or.inr ⟨first, List.mem_cons_self, hfirst⟩
      · exact Or.inl hseparator
      · rcases ih hrest with hseparator | ⟨part, hpart, hmem⟩
        · exact Or.inl hseparator
        · exact Or.inr ⟨part, List.mem_cons_of_mem _ hpart, hmem⟩

/-- A group name consists of group characters, slashes and maybe a final line feed. -/
theorem char_of_mem_groupName {name : String} (hname : isGroupName name) {c : Char}
    (hc : c ∈ name.toList) : isGroupChar c ∨ c = '/' ∨ c = '\n' := by
  obtain ⟨tail, htext, htail⟩ := withoutFinalBreak_append name.toList
  rw [htext, List.mem_append] at hc
  rcases hc with hmem | hmem
  · rw [← joinWith_pieces '/' (withoutFinalBreak name.toList)] at hmem
    rcases mem_joinWith hmem with hslash | ⟨piece, hpiece, hin⟩
    · exact Or.inr (Or.inl hslash)
    · have hsegment := List.all_eq_true.mp hname piece hpiece
      rw [isGroupSegment, Bool.and_eq_true, List.all_eq_true] at hsegment
      exact Or.inl (hsegment.2 c hin)
  · rcases htail with rfl | rfl
    · cases hmem
    · exact Or.inr (Or.inr (List.mem_singleton.mp hmem))

/-- A short text is not one with the extension. -/
theorem ne_of_extension {s name : String} (hname : ".owl".toList <:+ name.toList)
    (hs : s.toList.length < 4) : s ≠ name := by
  rintro rfl
  have hlength : 4 ≤ s.toList.length := hname.length_le
  omega

/-- The last segment of a text with the extension has the extension. -/
theorem Path.exists_segment_of_extension (text : String) :
    ∃ kept name, segmentsOf (text ++ ".owl").toList = kept ++ [name] ∧
      ".owl".toList <:+ name.toList := by
  have hslash : '/' ∉ ".owl".toList := by decide
  obtain ⟨before, last, -, hpieces⟩ := pieces_append text.toList hslash
  obtain ⟨name, hname⟩ : ∃ name : String, name.toList = last ++ ".owl".toList :=
    ⟨String.ofList (last ++ ".owl".toList), String.toList_ofList⟩
  have hextension : ".owl".toList <:+ name.toList := hname ▸ List.suffix_append _ _
  have hempty : name ≠ "" := (ne_of_extension hextension (by decide)).symm
  have hdot : name ≠ "." := (ne_of_extension hextension (by decide)).symm
  have hkeep : [name].filter (fun s => !(s.isEmpty || s == ".")) = [name] := by
    simp [hempty, hdot]
  refine ⟨(before.map String.ofList).filter fun s => !(s.isEmpty || s == "."), name, ?_, hextension⟩
  rw [segmentsOf, String.toList_append, hpieces, ← hname, List.map_append, List.filter_append,
    List.map_singleton, String.ofList_toList, hkeep]

/-- The paths of the files in a directory begin alike. -/
theorem Path.exists_stem (a : Anchor) (segments : List String) :
    ∃ stem, ∀ name : String, (⟨a, segments ++ [name]⟩ : Path).toList = stem ++ name.toList := by
  rcases List.eq_nil_or_concat segments with rfl | ⟨before, last, hsegments⟩
  · exact ⟨a.text, fun name => by simp [toList, joinWith]⟩
  · have hne : segments ≠ [] := by simp [hsegments]
    refine ⟨(⟨a, segments⟩ : Path).toList ++ ['/'], fun name => ?_⟩
    rw [Path.toList_append _ hne (List.cons_ne_nil _ _), List.append_assoc]
    rfl

namespace Layout

variable {l : Layout} {group host : String}

/-- The keys of the main file and of groups' files go on differently from the root. -/
theorem exists_stem (l : Layout) :
    ∃ stem, (FileTree.key l.mainFile).toList = stem ++ "main.owl".toList ∧
      ∀ group, isGroupName group → (FileTree.key (l.groupFile group)).toList =
        stem ++ ("groups".toList ++ '/' :: (group.toList ++ ".owl".toList)) := by
  have hmain : l.mainFile = ⟨l.root.anchor, l.root.segments ++ ["main.owl"]⟩ := by
    have hname : Path.ofString "main.owl" = ⟨.relative, ["main.owl"]⟩ := by decide
    rw [mainFile, Path.child, hname, Path.join_relative]
  obtain ⟨stem, hstem⟩ := Path.exists_stem l.root.anchor
    (Path.collapse (l.root.anchor ≠ .relative) l.root.segments)
  refine ⟨stem, ?_, fun group hgroup => ?_⟩
  · have hplain : ".." ∉ ["main.owl"] := by decide
    rw [FileTree.key, Path.toString, String.toList_ofList, hmain, Path.normalize,
      Path.collapse_append _ _ hplain, hstem]
  · have hplain : ".." ∉ ["groups"] := by decide
    rw [l.key_groupFile hgroup, groupDirectory, Path.normalize, Path.collapse_append _ _ hplain,
      hstem, List.append_assoc]

/-- No group's file is the main file. -/
theorem key_mainFile_ne_key_groupFile (l : Layout) (hgroup : isGroupName group) :
    FileTree.key l.mainFile ≠ FileTree.key (l.groupFile group) := by
  intro h
  obtain ⟨stem, hmain, hgroups⟩ := l.exists_stem
  have hlist := congrArg String.toList h
  rw [hmain, hgroups group hgroup, List.append_cancel_left_eq] at hlist
  simp at hlist

/-- The key of a host's file has the extension. -/
theorem extension_of_key_hostFile (l : Layout) (host : String) :
    ".owl".toList <:+ (FileTree.key (l.hostFile host)).toList := by
  obtain ⟨kept, name, hkept, hname⟩ := Path.exists_segment_of_extension host
  have hpath : ∃ a segments, l.hostFile host = ⟨a, segments ++ [name]⟩ := by
    rw [hostFile, Path.child, Path.ofString, hkept]
    cases Path.anchorOf (host ++ ".owl").toList with
    | relative => exact ⟨_, _, by rw [Path.join_relative, ← List.append_assoc]⟩
    | root | doubleRoot => exact ⟨_, _, rfl⟩
  obtain ⟨a, segments, hpath⟩ := hpath
  obtain ⟨stem, hstem⟩ := Path.exists_stem a (Path.collapse (a ≠ .relative) segments)
  have hplain : ".." ∉ [name] := by
    rw [List.mem_singleton]
    exact ne_of_extension hname (by decide)
  have hkey : (FileTree.key (l.hostFile host)).toList = stem ++ name.toList := by
    rw [FileTree.key, Path.toString, String.toList_ofList, hpath, Path.normalize,
      Path.collapse_append _ _ hplain, hstem]
  rw [hkey]
  exact hname.trans (List.suffix_append _ _)

/-- Where a host's file would be a directory above a group's file, it is one above the main file. -/
theorem key_hostFile_prefix (hgroup : isGroupName group)
    (h : (FileTree.key (l.hostFile host)).toList ++ ['/'] <+:
      (FileTree.key (l.groupFile group)).toList) :
    (FileTree.key (l.hostFile host)).toList ++ ['/'] <+: (FileTree.key l.mainFile).toList := by
  obtain ⟨stem, hmain, hgroups⟩ := l.exists_stem
  rw [hgroups group hgroup] at h
  rcases concat_prefix_append_cases h with habove | ⟨mid, hkey, hmid⟩
  · rw [hmain]
    exact habove.trans (List.prefix_append _ _)
  · -- Otherwise the extension would stand in a directory on the way from the root.
    exfalso
    rw [← List.cons_append, ← List.append_assoc] at hmid
    rcases concat_prefix_append_cases hmid with hway | ⟨_, -, hextension⟩
    · have hdot : '.' ∉ mid := by
        intro hmem
        have hway' := hway.subset (List.mem_append_left _ hmem)
        rw [List.mem_append, List.mem_cons] at hway'
        rcases hway' with hdirectory | hslash | hname
        · exact absurd hdirectory (by decide)
        · cases hslash
        · rcases char_of_mem_groupName hgroup hname with hchar | hchar | hchar
          · exact absurd hchar (by decide)
          · cases hchar
          · cases hchar
      have hlength : 4 ≤ mid.length := by
        rcases concat_prefix_append_cases hway with hshort | ⟨beyond, rfl, -⟩
        · exact absurd (hshort.subset (List.mem_append_right _ List.mem_cons_self)) (by decide)
        · rw [List.length_append]
          exact Nat.le_add_right_of_le (by decide)
      have hsuffix : ".owl".toList <:+ mid := by
        have hextension := l.extension_of_key_hostFile host
        rw [hkey] at hextension
        exact List.suffix_of_suffix_length_le hextension (List.suffix_append _ _) hlength
      exact hdot (hsuffix.subset (by decide))
    · exact absurd (hextension.subset (List.mem_append_right _ List.mem_cons_self)) (by decide)

end Layout

end HostConfig
