import HostConfig.Path
import HostConfig.Text.Utf8

/-!
# File trees

The files that a configuration is read from. A tree maps normalised paths to contents, and a path
is a directory as soon as something stands below it. Looking a path up normalises it first.

Tests of existence are taken to be total: whatever the path, something stands there or not. A system
may fail such a test instead, for a name that is too long or a directory that must not be searched;
there are no such paths here. Reading a file may fail, and the tree says which files do.
-/

namespace HostConfig

open HostConfig.Text

/-- What stands at a path: a file and its bytes, a directory, or a file that cannot be read. -/
inductive Content
  | file (bytes : List UInt8)
  | directory
  | failing (reason : String)
  deriving DecidableEq, Repr

/-- Set the content of a key in a list, in its place if it is there already. -/
def setItem (k : String) (c : Content) : List (String × Content) → List (String × Content)
  | [] => [(k, c)]
  | item :: rest => if item.1 = k then (k, c) :: rest else item :: setItem k c rest

/-- After setting a content its key is stored, and so are the keys stored before. -/
theorem mem_keys_setItem {k key : String} {c : Content} {items : List (String × Content)} :
    key ∈ (setItem k c items).map (·.1) ↔ key = k ∨ key ∈ items.map (·.1) := by
  induction items with
  | nil => simp [setItem]
  | cons item rest ih =>
    by_cases h : item.1 = k
    · simp [setItem, h]
    · simp only [setItem, h, if_false, List.map_cons, List.mem_cons, ih]
      exact or_left_comm

/-- Setting a content keeps each key once. -/
theorem nodup_keys_setItem (k : String) (c : Content) {items : List (String × Content)}
    (h : (items.map (·.1)).Nodup) : ((setItem k c items).map (·.1)).Nodup := by
  induction items with
  | nil => simp [setItem]
  | cons item rest ih =>
    rw [List.map_cons, List.nodup_cons] at h
    by_cases hk : item.1 = k
    · simpa [setItem, hk] using ⟨by simpa [hk] using h.1, h.2⟩
    · simp only [setItem, hk, if_false, List.map_cons, List.nodup_cons]
      exact ⟨fun hm => (mem_keys_setItem.mp hm).elim hk h.1, ih h.2⟩

/-- Normalised paths with their contents. -/
structure FileTree where
  items : List (String × Content)
  nodup_keys : (items.map (·.1)).Nodup

namespace FileTree

/-- The tree without files. -/
def empty : FileTree := ⟨[], List.nodup_nil⟩

/-- The key under which a path is stored. -/
def key (p : Path) : String := p.normalize.toString

/-- Put a content at a path. -/
def insert (t : FileTree) (p : Path) (c : Content) : FileTree where
  items := setItem (key p) c t.items
  nodup_keys := nodup_keys_setItem _ _ t.nodup_keys

/-- Remove what is stored at a path. -/
def erase (t : FileTree) (p : Path) : FileTree where
  items := t.items.filter fun item => item.1 ≠ key p
  nodup_keys := t.nodup_keys.sublist (List.filter_sublist.map _)

/-- The stored keys. -/
def keys (t : FileTree) : List String := t.items.map (·.1)

/-- What stands at a path, if anything does. -/
def get? (t : FileTree) (p : Path) : Option Content :=
  match t.items.find? fun item => item.1 = key p with
  | some item => some item.2
  | none =>
    let below := (key p).toList ++ ['/']
    if t.items.any fun item => below.isPrefixOf item.1.toList then some .directory else none

/-- Whether anything stands at a path. -/
def contains (t : FileTree) (p : Path) : Bool := (t.get? p).isSome

/-- Whether a file stands at a path, readable or not. -/
def isFile (t : FileTree) (p : Path) : Bool :=
  match t.get? p with
  | some (.file _) | some (.failing _) => true
  | _ => false

/-- The text of the file at a path, or the reason why it cannot be read. -/
def read (t : FileTree) (p : Path) : Except String (List Char) :=
  match t.get? p with
  | some (.file bytes) => .ok (ofBytes bytes)
  | some .directory => .error "Is a directory"
  | some (.failing reason) => .error reason
  | none => .error "No such file or directory"

end FileTree

end HostConfig
