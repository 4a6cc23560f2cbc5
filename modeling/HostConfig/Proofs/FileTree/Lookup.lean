import HostConfig.Relevant
import Mathlib.Data.List.Nodup

/-!
# Looking up files

What a tree says about a path in its several ways: that a file can be read there, that a file is
there, that anything is there, and that its key is among the stored ones or above one of them.
-/

namespace HostConfig.FileTree

open HostConfig.Text

/-- A path that can be read is a file. -/
theorem isFile_of_read {t : FileTree} {p : Path} {text : List Char} (h : t.read p = .ok text) :
    t.isFile p = true := by
  unfold read at h
  unfold isFile
  split at h <;> simp_all

/-- A file is there. -/
theorem contains_of_isFile {t : FileTree} {p : Path} (h : t.isFile p = true) :
    t.contains p = true := by
  unfold isFile at h
  unfold contains
  split at h <;> simp_all

/-- The keys of files are stored once. -/
theorem nodup_fileKeys (t : FileTree) : t.fileKeys.Nodup :=
  t.nodup_keys.sublist (List.filter_sublist.map _)

/-- What is stored under a key is found there. -/
theorem find?_eq_some {t : FileTree} {item : String × Content} (h : item ∈ t.items) :
    (t.items.find? fun other => other.1 = item.1) = some item := by
  rcases hfind : t.items.find? fun other => other.1 = item.1 with _ | found
  · rw [List.find?_eq_none] at hfind
    exact absurd (decide_eq_true rfl) (hfind item h)
  · have hmem := List.mem_of_find?_eq_some hfind
    have hkey : found.1 = item.1 := by simpa using List.find?_some hfind
    rw [hfind, List.inj_on_of_nodup_map t.nodup_keys hmem h hkey]

/-- A path is a file exactly when its key is that of a file. -/
theorem isFile_iff {t : FileTree} {p : Path} : t.isFile p = true ↔ key p ∈ t.fileKeys := by
  simp only [fileKeys, List.mem_map, List.mem_filter, decide_eq_true_eq]
  constructor
  · intro h
    unfold isFile get? at h
    rcases hfind : t.items.find? fun item => item.1 = key p with _ | item
    · simp only [hfind] at h
      split at h <;> simp_all
    · have hmem := List.mem_of_find?_eq_some hfind
      have hkey : item.1 = key p := by simpa using List.find?_some hfind
      refine ⟨item, ⟨hmem, ?_⟩, hkey⟩
      intro hdirectory
      simp [hfind, hdirectory] at h
  · rintro ⟨item, ⟨hmem, hcontent⟩, hkey⟩
    have hfind := find?_eq_some hmem
    rw [hkey] at hfind
    rcases item with ⟨k, _ | _ | _⟩ <;> simp_all [isFile, get?]

/-- What is at a path has its key at or above a stored one. -/
theorem exists_prefix_of_contains {t : FileTree} {p : Path} (h : t.contains p = true) :
    ∃ k ∈ t.keys, (key p).toList <+: k.toList := by
  unfold contains get? at h
  rcases hfind : t.items.find? fun item => item.1 = key p with _ | item
  · simp only [hfind] at h
    split at h
    · next hbelow =>
      obtain ⟨item, hmem, hprefix⟩ := List.any_eq_true.mp hbelow
      have hslash : (key p).toList <+: (key p).toList ++ ['/'] := List.prefix_append _ _
      exact ⟨item.1, List.mem_map_of_mem hmem, hslash.trans (List.isPrefixOf_iff_prefix.mp hprefix)⟩
    · simp at h
  · have hkey : item.1 = key p := by simpa using List.find?_some hfind
    exact ⟨item.1, List.mem_map_of_mem (List.mem_of_find?_eq_some hfind),
      hkey ▸ List.prefix_rfl⟩

end HostConfig.FileTree
