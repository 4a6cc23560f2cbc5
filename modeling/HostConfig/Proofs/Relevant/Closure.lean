import HostConfig.Proofs.Document.Source
import HostConfig.Proofs.Relevant.Reachability

/-!
# Relevant files are closed under inclusion

Whatever is in the files, readable or not, a file that a relevant file includes is relevant, if it
is there. What is collected from pending groups on holds these groups' files and all that they
include, as far as they were unmet.
-/

namespace HostConfig

/-- Paths that hold the unmet files among pending groups and among all groups that they include. -/
structure Collects (tree : FileTree) (l : Layout) (unmet pending : List String)
    (paths : List Path) : Prop where
  mem_of_pending : ∀ name ∈ pending, l.groupKey name ∈ unmet → l.groupFile name ∈ paths
  mem_of_includes : ∀ path ∈ paths, ∀ name ∈ groupsOfFile tree path, l.groupKey name ∈ unmet →
    l.groupFile name ∈ paths

variable {tree : FileTree} {l : Layout} {unmet rest : List String} {paths : List Path}
  {name : String}

/-- A group that is unmet is collected, and its own groups come before the pending ones. -/
theorem Collects.cons (hname : isGroupName name) (hrest : ∀ other ∈ rest, isGroupName other)
    (h : Collects tree l (unmet.erase (l.groupKey name))
      (groupsOfFile tree (l.groupFile name) ++ rest) paths) :
    Collects tree l unmet (name :: rest) (l.groupFile name :: paths) := by
  have hunmet : ∀ other, isGroupName other → l.groupKey other ∈ unmet →
      other = name ∨ l.groupKey other ∈ unmet.erase (l.groupKey name) := by
    intro other hother hkey
    by_cases hsame : l.groupKey other = l.groupKey name
    · exact Or.inl (l.key_groupFile_injective hother hname hsame)
    · exact Or.inr ((List.mem_erase_of_ne hsame).mpr hkey)
  constructor
  case mem_of_pending =>
    intro other hother hkey
    cases hother with
    | head => exact List.mem_cons_self
    | tail _ hother =>
      obtain rfl | hkey' := hunmet other (hrest other hother) hkey
      · exact List.mem_cons_self
      · exact List.mem_cons_of_mem _
          (h.mem_of_pending other (List.mem_append_right _ hother) hkey')
  case mem_of_includes =>
    intro path hpath other hother hkey
    obtain rfl | hkey' := hunmet other (isGroupName_of_mem_groupsOfFile hother) hkey
    · exact List.mem_cons_self
    · cases hpath with
      | head =>
        exact List.mem_cons_of_mem _
          (h.mem_of_pending other (List.mem_append_left _ hother) hkey')
      | tail _ hpath =>
        exact List.mem_cons_of_mem _ (h.mem_of_includes path hpath other hother hkey')

/-- A group that was met is skipped. -/
theorem Collects.skip (hname : l.groupKey name ∉ unmet) (h : Collects tree l unmet rest paths) :
    Collects tree l unmet (name :: rest) paths where
  mem_of_pending other hother hkey := by
    cases hother with
    | head => exact absurd hkey hname
    | tail _ hother => exact h.mem_of_pending other hother hkey
  mem_of_includes := h.mem_of_includes

/-- Collecting from pending groups collects them and all that they include. -/
theorem collects_reachableGroups (tree : FileTree) (l : Layout) (unmet : List String)
    {pending : List String} (hpending : ∀ name ∈ pending, isGroupName name) :
    Collects tree l unmet pending (reachableGroups tree l unmet pending) := by
  fun_induction reachableGroups tree l unmet pending with
  | case1 unmet =>
    constructor
    · intro name hname
      cases hname
    · intro path hpath
      cases hpath
  | case2 unmet name rest path hkey ih =>
    have hrest : ∀ other ∈ rest, isGroupName other :=
      fun other hother => hpending other (List.mem_cons_of_mem _ hother)
    refine .cons (hpending name List.mem_cons_self) hrest (ih fun other hother => ?_)
    obtain hother | hother := List.mem_append.mp hother
    · exact isGroupName_of_mem_groupsOfFile hother
    · exact hrest other hother
  | case3 unmet name rest path hkey ih =>
    exact .skip hkey (ih fun other hother => hpending other (List.mem_cons_of_mem _ hother))

/-- What is collected from pending groups stays in any list of paths that holds their files and is
closed under inclusion. -/
theorem reachableGroups_subset
    (hpending : ∀ name ∈ rest, l.groupFile name ∈ paths)
    (hclosed : ∀ path ∈ paths, ∀ name ∈ groupsOfFile tree path, l.groupFile name ∈ paths) :
    reachableGroups tree l unmet rest ⊆ paths := by
  fun_induction reachableGroups tree l unmet rest with
  | case1 unmet => exact List.nil_subset _
  | case2 unmet name rest path hkey =>
    rename_i ih
    have hname : path ∈ paths := hpending name List.mem_cons_self
    refine List.cons_subset.mpr ⟨hname, ih fun other hother => ?_⟩
    rcases List.mem_append.mp hother with hincluded | hlater
    · exact hclosed path hname other hincluded
    · exact hpending other (List.mem_cons_of_mem _ hlater)
  | case3 unmet name rest path hkey =>
    rename_i ih
    exact ih fun other hother => hpending other (List.mem_cons_of_mem _ hother)

variable {site : Site} {host : String}

/-- The relevant files are in any list of paths that holds the main file and the file of the host,
as far as they are there, and is closed under inclusion. -/
theorem Site.relevantFiles_subset (hroots : site.rootFiles host ⊆ paths)
    (hclosed : ∀ path ∈ paths, ∀ name ∈ groupsOfFile site.tree path,
      site.layout.groupFile name ∈ paths) :
    relevantFiles site.tree site.layout host ⊆ paths := by
  rw [site.relevantFiles_eq]
  refine List.append_subset.mpr ⟨hroots, reachableGroups_subset (fun name hname => ?_) hclosed⟩
  obtain ⟨path, hpath, hincluded⟩ := List.mem_flatMap.mp hname
  exact hclosed path (hroots hpath) name hincluded

/-- The main file is relevant if it is there. -/
theorem Site.mainFile_mem_relevantFiles (h : site.tree.isFile site.layout.mainFile = true) :
    site.layout.mainFile ∈ relevantFiles site.tree site.layout host :=
  List.mem_append_left _ (List.mem_filter.mpr ⟨List.mem_cons_self, h⟩)

/-- The file of the host is relevant if it is there. -/
theorem Site.hostFile_mem_relevantFiles
    (h : site.tree.isFile (site.layout.hostFile host) = true) :
    site.layout.hostFile host ∈ relevantFiles site.tree site.layout host :=
  List.mem_append_left _
    (List.mem_filter.mpr ⟨List.mem_cons_of_mem _ (List.mem_singleton_self _), h⟩)

/-- The file of a group that a relevant file includes is relevant if it is there. -/
theorem Site.groupFile_mem_relevantFiles {path : Path}
    (hpath : path ∈ relevantFiles site.tree site.layout host)
    (hname : name ∈ groupsOfFile site.tree path)
    (hfile : site.tree.isFile (site.layout.groupFile name) = true) :
    site.layout.groupFile name ∈ relevantFiles site.tree site.layout host := by
  have hkey : site.layout.groupKey name ∈ site.tree.fileKeys := FileTree.isFile_iff.mp hfile
  have hroots : ∀ other ∈ (site.rootFiles host).flatMap (groupsOfFile site.tree),
      isGroupName other := fun _ => Site.isGroupName_of_mem_rootFiles
  have hcollects := collects_reachableGroups site.tree site.layout site.tree.fileKeys hroots
  rw [site.relevantFiles_eq] at hpath ⊢
  obtain hroot | hgroup := List.mem_append.mp hpath
  · exact List.mem_append_right _
      (hcollects.mem_of_pending name (List.mem_flatMap.mpr ⟨path, hroot, hname⟩) hkey)
  · exact List.mem_append_right _ (hcollects.mem_of_includes path hgroup name hname hkey)

end HostConfig
