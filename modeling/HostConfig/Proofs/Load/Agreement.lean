import HostConfig.Proofs.Load.Outcome
import HostConfig.Proofs.Relevant.Reachability

/-!
# Trees that agree

A load looks at a tree where the main file and the host's file are, and where the files of the
groups are that it is led to. Over a tree that holds the same there it gives the same answer,
whether that is a configuration or a failure, with the same journal, and the same files are
relevant. All else in the tree is out of sight, although it decides how deep groups may be nested.
-/

namespace HostConfig

/-- The site over another tree. -/
def Site.withTree (site : Site) (tree : FileTree) : Site := { site with tree }

theorem Site.tree_withTree (site : Site) (tree : FileTree) : (site.withTree tree).tree = tree := rfl

theorem Site.layout_withTree (site : Site) (tree : FileTree) :
    (site.withTree tree).layout = site.layout := rfl

/-- Two trees hold the same at a path: the same file, a directory, or nothing. -/
def FileTree.AgreesAt (tree tree' : FileTree) (path : Path) : Prop :=
  tree'.get? path = tree.get? path

instance (tree tree' : FileTree) (path : Path) : Decidable (tree.AgreesAt tree' path) :=
  inferInstanceAs (Decidable (tree'.get? path = tree.get? path))

variable {site : Site} {tree tree' : FileTree} {path : Path}

namespace FileTree.AgreesAt

/-- The same paths are there. -/
theorem contains_eq (h : tree.AgreesAt tree' path) : tree'.contains path = tree.contains path :=
  congrArg Option.isSome h

/-- The same paths are files. -/
theorem isFile_eq (h : tree.AgreesAt tree' path) : tree'.isFile path = tree.isFile path := by
  rw [isFile, isFile, h]

/-- The same texts are read. -/
theorem read_eq (h : tree.AgreesAt tree' path) : tree'.read path = tree.read path := by
  rw [read, read, h]

/-- The same groups are included. -/
theorem groupsOfFile_eq (h : tree.AgreesAt tree' path) :
    groupsOfFile tree' path = groupsOfFile tree path := by
  rw [groupsOfFile, groupsOfFile, h.read_eq]

/-- The same documents are found. -/
theorem document_eq (h : site.tree.AgreesAt tree' path) :
    (site.withTree tree').document path = site.document path := by
  rw [Site.document, Site.document, Site.withTree, h.read_eq]

end FileTree.AgreesAt

/-- Another tree holds the same at the files of certain groups, and these include only such groups
again. -/
structure Site.AgreesOn (site : Site) (tree' : FileTree) (P : String → Prop) : Prop where
  isGroupName : ∀ name, P name → isGroupName name
  agreesAt : ∀ name, P name → site.tree.AgreesAt tree' (site.layout.groupFile name)
  closed : ∀ name, P name → ∀ other ∈ groupsOfFile site.tree (site.layout.groupFile name), P other

variable {P : String → Prop}

namespace Site.AgreesOn

/-- The document of such a group includes such groups. -/
theorem of_mem_groups (h : site.AgreesOn tree' P) {name : String} (hname : P name)
    {document : Document} (hdocument : site.document (site.layout.groupFile name) = .ok document)
    {other : String} (hother : other ∈ document.groups) : P other :=
  h.closed name hname other (site.groupsOfFile_of_document hdocument ▸ hother)

/-- A body that includes such groups has the same derivations over the other tree. -/
theorem resolves (h : site.AgreesOn tree' P) {source : Provenance} {body : List Statement}
    {r : Resolution} {run after : Run} {outcome : Except Failure Resolution}
    (hresolves : Resolves site source body r run outcome after)
    (hbody : ∀ name ∈ groupsOf body, P name) :
    Resolves (site.withTree tree') source body r run outcome after := by
  induction hresolves with
  | done => exact .done
  | declare hform hdeclare _ ih =>
    rw [groupsOf_cons_of_none hform] at hbody
    exact .declare hform hdeclare (ih hbody)
  | reject hform hdeclare => exact .reject hform hdeclare
  | cycle hform hactive => exact .cycle hform hactive
  | missing hform hactive htree =>
    rw [groupsOf_cons_of_some hform] at hbody
    have hagrees := h.agreesAt _ (hbody _ List.mem_cons_self)
    exact .missing hform hactive (hagrees.contains_eq.trans htree)
  | unread hform hactive htree hdocument =>
    rw [groupsOf_cons_of_some hform] at hbody
    have hagrees := h.agreesAt _ (hbody _ List.mem_cons_self)
    exact .unread hform hactive (hagrees.contains_eq.trans htree)
      (hagrees.document_eq.trans hdocument)
  | fail hform hactive hdocument _ ih =>
    rw [groupsOf_cons_of_some hform] at hbody
    have hname := hbody _ List.mem_cons_self
    have hinner := ih fun _ hother => h.of_mem_groups hname hdocument hother
    exact .fail hform hactive ((h.agreesAt _ hname).document_eq.trans hdocument) hinner
  | expand hform hactive hdocument _ _ ihinner ihrest =>
    rw [groupsOf_cons_of_some hform] at hbody
    have hname := hbody _ List.mem_cons_self
    have hinner := ihinner fun _ hother => h.of_mem_groups hname hdocument hother
    have hrest := ihrest fun _ hother => hbody _ (List.mem_cons_of_mem _ hother)
    exact .expand hform hactive ((h.agreesAt _ hname).document_eq.trans hdocument) hinner hrest

/-- A file that includes such groups resolves the same over the other tree. -/
theorem resolveFile_eq (h : site.AgreesOn tree' P) (hpath : site.tree.AgreesAt tree' path)
    (hgroups : ∀ name ∈ groupsOfFile site.tree path, P name) (kind : SourceKind)
    (journal : Option Journal) :
    (site.withTree tree').resolveFile path kind journal = site.resolveFile path kind journal := by
  cases hdocument : site.document path with
  | error p => simp only [resolveFile, hpath.document_eq, hdocument]
  | ok document =>
    rw [site.groupsOfFile_of_document hdocument] at hgroups
    have hsame : ∀ source run,
        resolve (site.withTree tree') source document run = resolve site source document run := by
      intro source run
      exact resolve_eq_iff.mpr (h.resolves (resolves_resolve site source document run) hgroups)
    simp only [resolveFile, hpath.document_eq, hdocument, hsame]

/-- If also the main file and the host's file are the same, then so is a whole load. -/
theorem load_eq (h : site.AgreesOn tree' P) {host : String}
    (hmain : site.tree.AgreesAt tree' site.layout.mainFile)
    (hhost : site.tree.AgreesAt tree' (site.layout.hostFile host))
    (hroots : ∀ path ∈ [site.layout.mainFile, site.layout.hostFile host],
      ∀ name ∈ groupsOfFile site.tree path, P name) (journal : Option Journal) :
    (site.withTree tree').load host journal = site.load host journal := by
  have hmainFile := h.resolveFile_eq hmain (hroots _ List.mem_cons_self) .main
  have hhostFile := h.resolveFile_eq hhost
    (hroots _ (List.mem_cons_of_mem _ (List.mem_singleton_self _))) .host
  have hresolveHost : ∀ journal,
      (site.withTree tree').resolveHost host journal = site.resolveHost host journal := by
    intro journal
    simp only [resolveHost, layout_withTree, tree_withTree, hhost.contains_eq, hhostFile]
  simp only [load, resolveConfig, layout_withTree, tree_withTree, hmain.contains_eq, hmainFile,
    hresolveHost]

/-- Collecting from pending groups finds the same over the other tree, if the same of the groups'
files are unmet. -/
theorem reachableGroups_eq (h : site.AgreesOn tree' P) {unmet unmet' pending : List String}
    (hunmet : unmet.Nodup) (hunmet' : unmet'.Nodup)
    (hsame : ∀ name, P name → (site.layout.groupKey name ∈ unmet' ↔ site.layout.groupKey name ∈ unmet))
    (hpending : ∀ name ∈ pending, P name) :
    reachableGroups tree' site.layout unmet' pending =
      reachableGroups site.tree site.layout unmet pending := by
  fun_induction reachableGroups site.tree site.layout unmet pending generalizing unmet' with
  | case1 unmet => rw [reachableGroups]
  | case2 unmet name rest path hkey =>
    rename_i ih
    have hname := hpending name List.mem_cons_self
    have hkey' : FileTree.key (site.layout.groupFile name) ∈ unmet' := (hsame name hname).mpr hkey
    rw [reachableGroups, dif_pos hkey', (h.agreesAt name hname).groupsOfFile_eq]
    refine congrArg _ (ih (hunmet.erase _) (hunmet'.erase _) ?_ ?_)
    · intro other hother
      rw [hunmet.mem_erase_iff, hunmet'.mem_erase_iff, hsame other hother]
    · intro other hother
      rcases List.mem_append.mp hother with hincluded | hlater
      · exact h.closed name hname other hincluded
      · exact hpending other (List.mem_cons_of_mem _ hlater)
  | case3 unmet name rest path hkey =>
    rename_i ih
    have hname := hpending name List.mem_cons_self
    have hkey' : FileTree.key (site.layout.groupFile name) ∉ unmet' :=
      fun hmem => hkey ((hsame name hname).mp hmem)
    rw [reachableGroups, dif_neg hkey']
    exact ih hunmet hunmet' hsame fun other hother => hpending other (List.mem_cons_of_mem _ hother)

/-- If also the main file and the host's file are the same, then the same files are relevant. -/
theorem relevantFiles_eq (h : site.AgreesOn tree' P) {host : String}
    (hmain : site.tree.AgreesAt tree' site.layout.mainFile)
    (hhost : site.tree.AgreesAt tree' (site.layout.hostFile host))
    (hroots : ∀ path ∈ [site.layout.mainFile, site.layout.hostFile host],
      ∀ name ∈ groupsOfFile site.tree path, P name) :
    relevantFiles tree' site.layout host = relevantFiles site.tree site.layout host := by
  have hagrees : ∀ path ∈ [site.layout.mainFile, site.layout.hostFile host],
      site.tree.AgreesAt tree' path := by
    intro path hpath
    rw [List.mem_pair] at hpath
    rcases hpath with rfl | rfl
    · exact hmain
    · exact hhost
  have hfiles : (site.withTree tree').rootFiles host = site.rootFiles host :=
    List.filter_congr fun path hpath => (hagrees path hpath).isFile_eq
  have hsubset : ∀ path ∈ site.rootFiles host,
      path ∈ [site.layout.mainFile, site.layout.hostFile host] := fun _ hpath =>
    (List.mem_filter.mp hpath).1
  have hgroups : (site.rootFiles host).flatMap (groupsOfFile tree') =
      (site.rootFiles host).flatMap (groupsOfFile site.tree) :=
    List.flatMap_congr fun path hpath => (hagrees path (hsubset path hpath)).groupsOfFile_eq
  have hunmet : ∀ name, P name →
      (site.layout.groupKey name ∈ tree'.fileKeys ↔ site.layout.groupKey name ∈ site.tree.fileKeys) := by
    intro name hname
    have hisFile := (h.agreesAt name hname).isFile_eq
    rw [Layout.groupKey, ← FileTree.isFile_iff, ← FileTree.isFile_iff, hisFile]
  have hpending : ∀ name ∈ (site.rootFiles host).flatMap (groupsOfFile site.tree), P name := by
    intro name hname
    obtain ⟨path, hpath, hincluded⟩ := List.mem_flatMap.mp hname
    exact hroots path (hsubset path hpath) name hincluded
  have hcollected := h.reachableGroups_eq site.tree.nodup_fileKeys tree'.nodup_fileKeys hunmet hpending
  have hother := (site.withTree tree').relevantFiles_eq host
  change relevantFiles tree' site.layout host = _ ++ reachableGroups tree' site.layout
    tree'.fileKeys (((site.withTree tree').rootFiles host).flatMap (groupsOfFile tree')) at hother
  rw [hother, site.relevantFiles_eq, hfiles, hgroups, hcollected]

end Site.AgreesOn

end HostConfig
