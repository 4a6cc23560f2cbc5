import HostConfig.Proofs.FileTree.Lookup

/-!
# Putting files into a tree

A file that is put at a path is read at all paths with the same key, and at no other one. Something
new can be found only at these paths and at directories above them.
-/

namespace HostConfig

open HostConfig.Text

/-- Setting a content changes what is found under its key and no other. -/
theorem find?_setItem (k key : String) (c : Content) (items : List (String × Content)) :
    (setItem k c items).find? (fun item => item.1 = key) =
      if k = key then some (k, c) else items.find? fun item => item.1 = key := by
  induction items with
  | nil => simp only [setItem, List.find?_cons, List.find?_nil]; split <;> simp_all
  | cons item rest ih =>
    by_cases hitem : item.1 = k
    · by_cases hk : k = key
      · simp [setItem, hitem, hk]
      · simp [setItem, hitem, hk]
    · by_cases hkey : item.1 = key
      · have hk : k ≠ key := fun h => hitem (hkey.trans h.symm)
        simp [setItem, hkey, hk, Ne.symm hk]
      · simp [setItem, hitem, hkey, ih]

namespace FileTree

variable {t : FileTree} {p q : Path} {c : Content} {bytes : List UInt8} {text : List Char}

/-- What is stored under a path's key is at the path. -/
theorem get?_of_find?_eq_some {item : String × Content}
    (h : (t.items.find? fun item => item.1 = key p) = some item) : t.get? p = some item.2 := by
  simp only [get?, h]

/-- Where no key is stored there may be a directory. -/
theorem get?_of_find?_eq_none (h : (t.items.find? fun item => item.1 = key p) = none) :
    t.get? p = if t.items.any fun item => ((key p).toList ++ ['/']).isPrefixOf item.1.toList then
      some .directory else none := by
  simp only [get?, h]

/-- A text is read where a file with such bytes is stored. -/
theorem read_eq_ok_iff : t.read p = .ok text ↔
    ∃ k bytes, (t.items.find? fun item => item.1 = key p) = some (k, .file bytes) ∧
      ofBytes bytes = text := by
  cases hfind : t.items.find? fun item => item.1 = key p with
  | none =>
    rw [read, get?_of_find?_eq_none hfind]
    by_cases hbelow : t.items.any fun item => ((key p).toList ++ ['/']).isPrefixOf item.1.toList
    · simp [hbelow]
    · simp [hbelow]
  | some item =>
    rw [read, get?_of_find?_eq_some hfind]
    rcases item with ⟨k, _ | _ | _⟩ <;> simp

/-- Paths with the same key are read alike. -/
theorem read_congr (t : FileTree) (h : key p = key q) : t.read p = t.read q := by
  simp only [read, get?, h]

/-- A file is read at all paths with the key that it was put at. -/
theorem read_insert_of_eq (h : key p = key q) :
    (t.insert p (.file bytes)).read q = .ok (ofBytes bytes) := by
  rw [read_eq_ok_iff]
  exact ⟨key p, bytes, by rw [insert, find?_setItem, if_pos h], rfl⟩

/-- A file is read at the path that it was put at. -/
theorem read_insert_self (t : FileTree) (p : Path) (bytes : List UInt8) :
    (t.insert p (.file bytes)).read p = .ok (ofBytes bytes) := read_insert_of_eq rfl

/-- At paths with other keys the same texts are read. -/
theorem read_insert_of_ne (h : key p ≠ key q) :
    (t.insert p c).read q = .ok text ↔ t.read q = .ok text := by
  simp only [read_eq_ok_iff, insert, find?_setItem, if_neg h]

/-- Something is at a path when its key is stored or a directory above a stored one. -/
theorem contains_iff : t.contains p = true ↔
    ∃ k ∈ t.keys, k = key p ∨ (key p).toList ++ ['/'] <+: k.toList := by
  simp only [contains, keys, List.mem_map]
  cases hfind : t.items.find? fun item => item.1 = key p with
  | none =>
    have hnone : ∀ item ∈ t.items, item.1 ≠ key p := by simpa [List.find?_eq_none] using hfind
    rw [get?_of_find?_eq_none hfind]
    constructor
    · intro h
      split at h
      · next hbelow =>
        obtain ⟨item, hmem, hprefix⟩ := List.any_eq_true.mp hbelow
        exact ⟨item.1, ⟨item, hmem, rfl⟩, Or.inr (List.isPrefixOf_iff_prefix.mp hprefix)⟩
      · cases h
    · rintro ⟨_, ⟨item, hmem, rfl⟩, hkey | hprefix⟩
      · exact absurd hkey (hnone item hmem)
      · rw [if_pos (List.any_eq_true.mpr ⟨item, hmem, List.isPrefixOf_iff_prefix.mpr hprefix⟩)]
        rfl
  | some item =>
    have hkey : item.1 = key p := by simpa using List.find?_some hfind
    have hmem := List.mem_of_find?_eq_some hfind
    rw [get?_of_find?_eq_some hfind]
    exact ⟨fun _ => ⟨item.1, ⟨item, hmem, rfl⟩, Or.inl hkey⟩, fun _ => rfl⟩

/-- After a content was put at a path, something new is at that path and the directories above. -/
theorem contains_insert : (t.insert p c).contains q = true ↔
    t.contains q = true ∨ key p = key q ∨ (key q).toList ++ ['/'] <+: (key p).toList := by
  simp only [contains_iff, keys, insert, mem_keys_setItem]
  constructor
  · rintro ⟨k, rfl | hk, h⟩
    · exact Or.inr h
    · exact Or.inl ⟨k, hk, h⟩
  · rintro (⟨k, hk, h⟩ | h)
    · exact ⟨k, Or.inr hk, h⟩
    · exact ⟨key p, Or.inl rfl, h⟩

/-- Where no key is stored there is a directory or nothing. -/
theorem get?_of_not_stored (h : (t.items.find? fun item => item.1 = key p) = none) :
    t.get? p = if t.contains p then some .directory else none := by
  rw [contains, get?_of_find?_eq_none h]
  split <;> rfl

/-- A content that is put at a path leaves another path as it was, if nothing new is found there. -/
theorem get?_insert_of_contains_eq (hkey : key p ≠ key q)
    (hcontains : (t.insert p c).contains q = t.contains q) :
    (t.insert p c).get? q = t.get? q := by
  have hfind : ((t.insert p c).items.find? fun item => item.1 = key q) =
      t.items.find? fun item => item.1 = key q := by
    rw [insert, find?_setItem, if_neg hkey]
  cases hstored : t.items.find? fun item => item.1 = key q with
  | some item =>
    rw [get?_of_find?_eq_some hstored, get?_of_find?_eq_some (hfind.trans hstored)]
  | none =>
    rw [get?_of_not_stored hstored, get?_of_not_stored (hfind.trans hstored), hcontains]

/-- A content that is put at a path changes what is at that path and maybe at directories above. -/
theorem get?_insert_of_ne (hkey : key p ≠ key q)
    (habove : ¬ (key q).toList ++ ['/'] <+: (key p).toList) :
    (t.insert p c).get? q = t.get? q := by
  refine get?_insert_of_contains_eq hkey ?_
  rw [Bool.eq_iff_iff, contains_insert]
  simp [hkey, habove]

/-- A directory above something is there. -/
theorem contains_of_prefix (h : t.contains p = true)
    (habove : (key q).toList ++ ['/'] <+: (key p).toList) : t.contains q = true := by
  obtain ⟨k, hk, rfl | hbelow⟩ := contains_iff.mp h
  · exact contains_iff.mpr ⟨_, hk, Or.inr habove⟩
  · have hslash : (key p).toList <+: (key p).toList ++ ['/'] := List.prefix_append _ _
    exact contains_iff.mpr ⟨k, hk, Or.inr (habove.trans (hslash.trans hbelow))⟩

/-- Where a file is put in the place of another one, nothing new is found. -/
theorem contains_insert_of_contains (h : t.contains p = true) :
    (t.insert p c).contains q = t.contains q := by
  rw [Bool.eq_iff_iff, contains_insert]
  constructor
  · rintro (hq | hkey | habove)
    · exact hq
    · rw [contains_iff] at h ⊢
      rwa [← hkey]
    · exact contains_of_prefix h habove
  · exact Or.inl

end FileTree

end HostConfig
