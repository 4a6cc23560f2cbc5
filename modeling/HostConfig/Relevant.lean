import HostConfig.FileTree
import HostConfig.Layout
import HostConfig.Token

/-!
# Relevant files

The files that the configuration of a host depends on: the main file, the host's file, and the
files of all groups that these include, directly or not. Only tokens are looked at, so that broken
documents can be followed too. Groups come in the order in which they are met depth first, each
once.
-/

namespace HostConfig

/-- The groups that tokens include. -/
def includedGroups (tokens : List Token) : List String :=
  tokens.filterMap fun t =>
    if t.kind = .directive .group && isGroupName t.payload then some t.payload else none

/-- The groups that a file includes; an unreadable file includes none. -/
def groupsOfFile (tree : FileTree) (p : Path) : List String :=
  match tree.read p with
  | .error _ => []
  | .ok text => includedGroups (tokenize p.toString text)

/-- The files of pending groups and of the groups that these include, among the files that were
not met so far. -/
def reachableGroups (tree : FileTree) (layout : Layout) (unmet : List String)
    (pending : List String) : List Path :=
  match pending with
  | [] => []
  | name :: rest =>
    let path := layout.groupFile name
    if _ : FileTree.key path ∈ unmet then
      path :: reachableGroups tree layout (unmet.erase (FileTree.key path))
        (groupsOfFile tree path ++ rest)
    else reachableGroups tree layout unmet rest
  termination_by (unmet.length, pending.length)
  decreasing_by
    · apply Prod.Lex.left
      rw [List.length_erase_of_mem ‹_›]
      have : 0 < unmet.length := List.length_pos_of_mem ‹_›
      omega
    · apply Prod.Lex.right
      simp

/-- The keys of the files of a tree. -/
def FileTree.fileKeys (tree : FileTree) : List String :=
  (tree.items.filter fun item => item.2 ≠ .directory).map (·.1)

/-- The files that the configuration of a host depends on. -/
def relevantFiles (tree : FileTree) (layout : Layout) (host : String) : List Path :=
  let roots := [layout.mainFile, layout.hostFile host].filter tree.isFile
  roots ++ reachableGroups tree layout tree.fileKeys (roots.flatMap (groupsOfFile tree))

end HostConfig
