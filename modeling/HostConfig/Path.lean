import HostConfig.Text.Pieces

/-!
# Paths

A path is an anchor and a list of segments. Reading a path drops empty segments and single dots,
and keeps double dots; only normalising removes those, textually, whatever the files are.
-/

namespace HostConfig

open HostConfig.Text

/-- Where a path starts: at the current directory, at the root, or at the alternative root that
exactly two leading slashes name. -/
inductive Anchor
  | relative
  | root
  | doubleRoot
  deriving DecidableEq, Repr

/-- The text of an anchor. -/
def Anchor.text : Anchor → List Char
  | relative => []
  | root => ['/']
  | doubleRoot => ['/', '/']

/-- A path. -/
structure Path where
  anchor : Anchor
  segments : List String
  deriving DecidableEq, Repr

namespace Path

/-- The anchor of a text: one slash, exactly two, or three and more, which count as one. -/
def anchorOf : List Char → Anchor
  | '/' :: '/' :: '/' :: _ => .root
  | '/' :: '/' :: _ => .doubleRoot
  | '/' :: _ => .root
  | _ => .relative

/-- The segments of a text, without the empty ones and single dots. -/
def segmentsOf (cs : List Char) : List String :=
  ((pieces '/' cs).map String.ofList).filter fun s => !(s.isEmpty || s == ".")

/-- Read a path. -/
def ofString (s : String) : Path := ⟨anchorOf s.toList, segmentsOf s.toList⟩

/-- The characters of a path; one without anchor and segments is a dot. -/
def toList (p : Path) : List Char :=
  if p.anchor = .relative && p.segments.isEmpty then ['.']
  else p.anchor.text ++ joinWith ['/'] (p.segments.map String.toList)

/-- Write a path. -/
def toString (p : Path) : String := String.ofList p.toList

/-- Go on from a path; an anchored path starts anew. -/
def join (p q : Path) : Path :=
  match q.anchor with
  | .relative => ⟨p.anchor, p.segments ++ q.segments⟩
  | _ => q

/-- Go on from a path as a text tells. -/
def child (p : Path) (name : String) : Path := p.join (ofString name)

/-- Go on from the segments kept so far, the last one first, by one more segment. A double dot
removes the segment before it; at the root it is dropped, and elsewhere it stays if there is
nothing to remove. -/
def push (anchored : Bool) (kept : List String) (segment : String) : List String :=
  if segment = ".." then
    match kept with
    | [] => if anchored then [] else [segment]
    | last :: before => if last = ".." then segment :: kept else before
  else segment :: kept

/-- Segments with their double dots removed. -/
def collapse (anchored : Bool) (segments : List String) : List String :=
  (segments.foldl (push anchored) []).reverse

/-- The path with its double dots removed. -/
def normalize (p : Path) : Path :=
  { p with segments := collapse (p.anchor ≠ .relative) p.segments }

/-- The suffix of a file name: from its last dot on, unless that is its first or last
character. -/
def suffixOf (name : List Char) : List Char :=
  let reversed := name.reverse
  let tail := reversed.takeWhile (· != '.')
  let before := (reversed.dropWhile (· != '.')).drop 1
  if tail.isEmpty || before.isEmpty then [] else '.' :: tail.reverse

/-- The suffix of the last segment. -/
def suffix (p : Path) : String :=
  match p.segments.getLast? with
  | none => ""
  | some name => String.ofList (suffixOf name.toList)

/-- Going on from a path by a relative one appends its segments. -/
theorem join_relative (p : Path) (segments : List String) :
    p.join ⟨.relative, segments⟩ = ⟨p.anchor, p.segments ++ segments⟩ := rfl

/-- Segments without double dots are kept as they are. -/
theorem foldl_push_of_notMem {segments : List String} (anchored : Bool) (kept : List String)
    (h : ".." ∉ segments) :
    segments.foldl (push anchored) kept = segments.reverse ++ kept := by
  induction segments generalizing kept with
  | nil => rfl
  | cons s rest ih =>
    have hs : s ≠ ".." := fun hs => h (by simp [hs])
    have hrest : ".." ∉ rest := fun hr => h (List.mem_cons_of_mem _ hr)
    simp [push, hs, ih _ hrest]

/-- At a root no double dot is ever kept. -/
theorem notMem_foldl_push (segments kept : List String) (h : ".." ∉ kept) :
    ".." ∉ segments.foldl (push true) kept := by
  induction segments generalizing kept with
  | nil => exact h
  | cons s rest ih =>
    apply ih
    simp only [push]
    split
    · rcases kept with _ | ⟨last, before⟩
      · simp
      · have hlast : last ≠ ".." := fun hl => h (by simp [hl])
        have hbefore : ".." ∉ before := fun hb => h (List.mem_cons_of_mem _ hb)
        simpa [hlast] using hbefore
    · next hs => simpa [Ne.symm hs] using h

/-- A path that is anchored and without double dots is its own normal form. -/
theorem normalize_of_notMem {p : Path} (h : ".." ∉ p.segments) : p.normalize = p := by
  simp [normalize, collapse, foldl_push_of_notMem _ _ h]

/-- The normal form of an anchored path has no double dots. -/
theorem notMem_normalize {p : Path} (h : p.anchor ≠ .relative) :
    ".." ∉ p.normalize.segments := by
  simpa [normalize, collapse, h] using notMem_foldl_push p.segments [] (by simp)

end Path

end HostConfig
