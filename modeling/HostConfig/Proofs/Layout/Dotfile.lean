import HostConfig.Proofs.Path.Normal

/-!
# Where dotfiles stand

The text that names a dotfile goes on from the directory of dotfiles. As long as it is relative, and
its double dots remove no more names than stand before them in it, the dotfile is that directory or
stands below it. But nothing keeps a text to that: further double dots lead out of the directory, and
an anchored text discards it.
-/

namespace HostConfig

namespace Path

/-- Whether segments, read from so many levels below a directory on, never lead above it. -/
def staysWithin : Nat → List String → Bool
  | _, [] => true
  | level, segment :: rest =>
    if segment = ".." then
      match level with
      | 0 => false
      | level + 1 => staysWithin level rest
    else staysWithin (level + 1) rest

/-- A path is a directory or lies below it, once both are normalised. -/
def IsWithin (p directory : Path) : Prop :=
  p.normalize = directory.normalize ∨ p.IsBelow directory

/-- The way to a directory leads to all that is within it. -/
theorem IsWithin.isPrefix {p directory : Path} (h : p.IsWithin directory) :
    directory.normalize.segments <+: p.normalize.segments := by
  rcases h with hsame | ⟨-, names, -, hbelow⟩
  · rw [hsame]
  · exact ⟨names, hbelow.symm⟩

/-- Segments that stay within a directory change only what is kept of the way below it. -/
theorem exists_foldl_push_eq {segments below : List String} (anchored : Bool) (kept : List String)
    (hbelow : ".." ∉ below) (h : staysWithin below.length segments) :
    ∃ names, segments.foldl (push anchored) (below ++ kept) = names ++ kept := by
  induction segments generalizing below with
  | nil => exact ⟨below, rfl⟩
  | cons segment rest ih =>
    by_cases hdots : segment = ".."
    · cases below with
      | nil => simp [staysWithin, hdots] at h
      | cons last below =>
        rw [List.mem_cons, not_or] at hbelow
        have hlast : last ≠ ".." := Ne.symm hbelow.1
        have hpush : push anchored (last :: below ++ kept) segment = below ++ kept := by
          simp [push, hdots, hlast]
        rw [List.foldl_cons, hpush]
        exact ih hbelow.2 (by simpa [staysWithin, hdots] using h)
    · have hpush : push anchored (below ++ kept) segment = (segment :: below) ++ kept := by
        simp [push, hdots]
      have hbelow' : ".." ∉ segment :: below := by simp [Ne.symm hdots, hbelow]
      rw [List.foldl_cons, hpush]
      exact ih hbelow' (by simpa [staysWithin, hdots] using h)

/-- What segments collapse to stays in front of segments that stay within it. -/
theorem exists_collapse_append {ys : List String} (anchored : Bool) (xs : List String)
    (h : staysWithin 0 ys) : ∃ names, collapse anchored (xs ++ ys) = collapse anchored xs ++ names := by
  obtain ⟨names, hnames⟩ := exists_foldl_push_eq anchored (xs.foldl (push anchored) [])
    List.not_mem_nil h
  refine ⟨names.reverse, ?_⟩
  rw [collapse, List.foldl_append, ← List.nil_append (xs.foldl _ _), hnames, List.reverse_append]
  rfl

end Path

namespace Layout

variable {l : Layout} {word source : String}

/-- The directory of dotfiles stands below the root. -/
theorem dotfiles_eq (l : Layout) : l.dotfiles = ⟨l.root.anchor, l.root.segments ++ ["dotfiles"]⟩ := rfl

/-- A relative text goes on from the directory of dotfiles. -/
theorem dotfile_of_relative (h : (Path.ofString word).anchor = .relative) : l.dotfile word =
    (⟨l.root.anchor, l.dotfiles.segments ++ (Path.ofString word).segments⟩ : Path).normalize := by
  rw [dotfile, Path.child, Path.join, h]
  rfl

/-- An anchored text discards the directory of dotfiles. -/
theorem dotfile_of_anchored (h : (Path.ofString word).anchor ≠ .relative) :
    l.dotfile word = (Path.ofString word).normalize := by
  rw [dotfile, Path.child, Path.join]
  split
  · contradiction
  · rfl

/-- Below a normal root every dotfile is at a normal path. -/
theorem normal_dotfile (hroot : l.root.Normal) (word : String) : (l.dotfile word).Normal := by
  have hword : ∀ s ∈ (Path.ofString word).segments, s = ".." ∨ Path.IsName s :=
    fun _ hs => Path.isName_of_mem_segmentsOf hs
  by_cases hanchor : (Path.ofString word).anchor = .relative
  · rw [dotfile_of_relative hanchor]
    refine Path.normal_normalize hroot.anchored fun s hs => ?_
    rw [dotfiles_eq, List.append_assoc, List.mem_append, List.mem_append] at hs
    rcases hs with hs | hs | hs
    · exact Or.inr (hroot.isName s hs)
    · exact Or.inr (List.mem_singleton.mp hs ▸ by decide)
    · exact hword s hs
  · rw [dotfile_of_anchored hanchor]
    exact Path.normal_normalize hanchor hword

/-- A relative text that never leads above its start names a dotfile within the directory. -/
theorem isWithin_dotfile (hroot : l.root.Normal) (hanchor : (Path.ofString word).anchor = .relative)
    (hstays : Path.staysWithin 0 (Path.ofString word).segments) :
    (l.dotfile word).IsWithin l.dotfiles := by
  obtain ⟨names, hnames⟩ :=
    Path.exists_collapse_append (l.root.anchor ≠ .relative) l.dotfiles.segments hstays
  have hsegments : (l.dotfile word).normalize.segments = l.dotfiles.normalize.segments ++ names := by
    rw [(normal_dotfile hroot word).normalize_eq, dotfile_of_relative hanchor]
    exact hnames
  have hsame : (l.dotfile word).normalize.anchor = l.dotfiles.normalize.anchor := by
    rw [dotfile_of_relative hanchor]
    rfl
  by_cases hnone : names = []
  · rw [hnone, List.append_nil] at hsegments
    exact Or.inl (congrArg₂ Path.mk hsame hsegments)
  · exact Or.inr ⟨hsame, names, hnone, hsegments⟩

/-- The source of a mapping is where the text that names a dotfile leads. -/
structure LocatesDotfile (l : Layout) (word source : String) : Prop where
  ofString_eq : Path.ofString source = l.dotfile word
  normal : (Path.ofString source).Normal
  normalize_eq : (Path.ofString source).normalize.toString = source
  /-- A relative text that never leads above its start stays in the directory of dotfiles. -/
  isWithin : (Path.ofString word).anchor = .relative →
    Path.staysWithin 0 (Path.ofString word).segments → (Path.ofString source).IsWithin l.dotfiles
  /-- An anchored text is taken as it is, up to normalising. -/
  eq_of_anchored : (Path.ofString word).anchor ≠ .relative →
    source = (Path.ofString word).normalize.toString

/-- The text of a dotfile's path is where its name leads. -/
theorem locatesDotfile (hroot : l.root.Normal) (word : String) :
    l.LocatesDotfile word (l.dotfile word).toString := by
  have hnormal := normal_dotfile hroot word
  have hread := hnormal.ofString_toString
  constructor
  case ofString_eq => exact hread
  case normal =>
    rw [hread]
    exact hnormal
  case normalize_eq => rw [hread, hnormal.normalize_eq]
  case isWithin =>
    intro hanchor hstays
    rw [hread]
    exact isWithin_dotfile hroot hanchor hstays
  case eq_of_anchored =>
    intro hanchor
    rw [dotfile_of_anchored hanchor]

end Layout

end HostConfig
