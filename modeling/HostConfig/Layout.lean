import HostConfig.Path
import HostConfig.Text.Pieces

/-!
# The layout of a configuration

Where the files of a configuration stand below its root: a main file, a file for each host, a file
for each group, and the dotfiles. The name of a group is one or more segments of letters, digits,
underscores and hyphens with slashes between them, so that it names a file below the directory of
groups. One line feed at the very end of the name is tolerated.
-/

namespace HostConfig

open HostConfig.Text

/-- A configuration's root directory, which is anchored and without double dots. -/
structure Layout where
  root : Path
  deriving DecidableEq, Repr

namespace Layout

/-- The home directory; an empty one is the root directory. -/
def homePath (home : String) : Path := if home.isEmpty then ⟨.root, []⟩ else Path.ofString home

/-- Replace a tilde that is the whole first segment of a path by the home directory. -/
def expandHome (home : String) (p : Path) : Path :=
  match p.anchor, p.segments with
  | .relative, "~" :: rest =>
    let base := (home.toList.reverse.dropWhile (· == '/')).reverse
    (homePath (String.ofList base)).join ⟨.relative, rest⟩
  | _, _ => p

/-- The layout at a given root, or else below the home directory. -/
def locate (home : String) (root : Option String) : Layout :=
  match root with
  | none => ⟨((homePath home).child ".owl").normalize⟩
  | some text => ⟨(expandHome home (Path.ofString text)).normalize⟩

/-- The main file. -/
def mainFile (l : Layout) : Path := l.root.child "main.owl"

/-- The directory of the dotfiles. -/
def dotfiles (l : Layout) : Path := l.root.child "dotfiles"

/-- The file of a host. -/
def hostFile (l : Layout) (host : String) : Path := (l.root.child "hosts").child (host ++ ".owl")

/-- The file of a group. -/
def groupFile (l : Layout) (group : String) : Path :=
  (l.root.child "groups").child (group ++ ".owl")

/-- The file that the source of a mapping means. -/
def dotfile (l : Layout) (source : String) : Path := (l.dotfiles.child source).normalize

end Layout

/-- A character that may stand in a segment of a group name. -/
def isGroupChar (c : Char) : Bool := c.isAlphanum || c == '_' || c == '-'

/-- A non-empty run of group characters. -/
def isGroupSegment (cs : List Char) : Bool := !cs.isEmpty && cs.all isGroupChar

/-- Whether a text may name a group. -/
def isGroupName (name : String) : Bool :=
  (pieces '/' (withoutFinalBreak name.toList)).all isGroupSegment

end HostConfig
