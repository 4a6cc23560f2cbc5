import HostConfig.Proofs.Relevant.Closure

/-!
# Relevant groups are the reachable ones

Whatever is in the files, and however groups include each other, the groups that are listed behind
the main file and that of the host are exactly those that a chain of inclusions leads to. The list
is made in the order of discovery: a group stands in it once, behind a file that includes it.
-/

namespace HostConfig

/-- A token in the text of a file includes a group, by a possible name. -/
def FileTree.Mentions (tree : FileTree) (path : Path) (name : String) : Prop :=
  ∃ text, tree.read path = .ok text ∧ ∃ t ∈ tokenize path.toString text,
    t.kind = .directive .group ∧ t.payload = name ∧ isGroupName name

/-- A chain of inclusions leads from some files to a group, and all groups on it have files. -/
inductive Site.Linked (site : Site) (roots : List Path) : String → Prop
  | root {path : Path} {name : String} (hpath : path ∈ roots) (hname : site.tree.Mentions path name)
      (hfile : site.tree.isFile (site.layout.groupFile name) = true) :
    Linked site roots name
  | group {name other : String} (hlinked : Linked site roots name)
      (hother : site.tree.Mentions (site.layout.groupFile name) other)
      (hfile : site.tree.isFile (site.layout.groupFile other) = true) :
    Linked site roots other

/-- Each group of a list is pending, or the file of a group before it includes it; its file was
unmet, and no group stands there twice. -/
structure Discovers (tree : FileTree) (l : Layout) (unmet pending names : List String) : Prop where
  subset : names.map l.groupKey ⊆ unmet
  nodup : (names.map l.groupKey).Nodup
  mem_or_exists : ∀ before name after, names = before ++ name :: after →
    name ∈ pending ∨ ∃ earlier ∈ before, name ∈ groupsOfFile tree (l.groupFile earlier)

/-- Behind root files those groups are listed, in order of discovery, that are linked to these. -/
structure Site.ListsLinked (site : Site) (host : String) (names : List String) : Prop where
  /-- The main file and that of the host come first, as far as they are there. -/
  files_eq : relevantFiles site.tree site.layout host =
    [site.layout.mainFile, site.layout.hostFile host].filter site.tree.isFile ++
      names.map site.layout.groupFile
  mem_iff : ∀ name, isGroupName name →
    (site.layout.groupFile name ∈ names.map site.layout.groupFile ↔
      site.Linked (site.rootFiles host) name)
  nodup : (names.map fun name => (site.layout.groupFile name).toString).Nodup
  /-- A group is named by a root file, or by the file of a group before it. -/
  mentioned : ∀ before name after, names = before ++ name :: after →
    ∃ path ∈ site.rootFiles host ++ before.map site.layout.groupFile,
      site.tree.Mentions path name

variable {tree : FileTree} {l : Layout} {unmet pending rest names : List String} {name : String}
  {site : Site} {host : String}

/-- What holds of an item because it holds of all items before it holds of all items. -/
theorem forall_mem_of_forall_split {α : Type} {P : α → Prop} {xs : List α}
    (h : ∀ before a after, xs = before ++ a :: after → (∀ b ∈ before, P b) → P a) :
    ∀ a ∈ xs, P a := by
  suffices hbegin : ∀ before after, xs = before ++ after → ∀ a ∈ before, P a by
    exact hbegin xs [] (List.append_nil xs).symm
  intro before
  induction before using List.reverseRecOn with
  | nil => exact fun _ _ => List.forall_mem_nil _
  | append_singleton before a ih =>
    intro after hxs
    rw [List.append_assoc] at hxs
    have hbefore := ih _ hxs
    exact List.forall_mem_append.mpr
      ⟨hbefore, List.forall_mem_singleton.mpr (h before a after hxs hbefore)⟩

/-- The groups that a scan of a file finds are those that tokens of its text include. -/
theorem mem_groupsOfFile_iff {path : Path} :
    name ∈ groupsOfFile tree path ↔ tree.Mentions path name := by
  unfold groupsOfFile FileTree.Mentions
  cases tree.read path with
  | error reason => simp
  | ok text =>
    simp only [includedGroups, List.mem_filterMap, Except.ok.injEq, exists_eq_left']
    refine exists_congr fun t => and_congr_right fun _ => ?_
    by_cases hkind : t.kind = .directive .group
    · by_cases hpayload : t.payload = name
      · simp [hkind, hpayload]
      · simp [hkind, hpayload]
    · simp [hkind]

/-- A group that is unmet is listed, and its own groups are pending before the others. -/
theorem Discovers.cons (hname : l.groupKey name ∈ unmet) (hunmet : unmet.Nodup)
    (h : Discovers tree l (unmet.erase (l.groupKey name))
      (groupsOfFile tree (l.groupFile name) ++ rest) names) :
    Discovers tree l unmet (name :: rest) (name :: names) where
  subset := List.cons_subset.mpr ⟨hname, List.Subset.trans h.subset List.erase_subset⟩
  nodup := by
    refine List.nodup_cons.mpr ⟨fun hmem => ?_, h.nodup⟩
    exact hunmet.not_mem_erase (h.subset hmem)
  mem_or_exists := by
    intro before other after hsplit
    cases before with
    | nil =>
      obtain ⟨rfl, -⟩ := List.cons.inj hsplit
      exact Or.inl List.mem_cons_self
    | cons first before =>
      obtain ⟨rfl, hrest⟩ := List.cons.inj hsplit
      rcases h.mem_or_exists before other after hrest with hpending | ⟨earlier, hearlier, hother⟩
      · rcases List.mem_append.mp hpending with hown | hlater
        · exact Or.inr ⟨name, List.mem_cons_self, hown⟩
        · exact Or.inl (List.mem_cons_of_mem _ hlater)
      · exact Or.inr ⟨earlier, List.mem_cons_of_mem _ hearlier, hother⟩

/-- A group that was met is not listed again. -/
theorem Discovers.skip (h : Discovers tree l unmet rest names) :
    Discovers tree l unmet (name :: rest) names where
  subset := h.subset
  nodup := h.nodup
  mem_or_exists before other after hsplit :=
    (h.mem_or_exists before other after hsplit).imp_left (List.mem_cons_of_mem _)

/-- Collecting from pending groups discovers the groups whose files it collects. -/
theorem exists_discovers_reachableGroups (tree : FileTree) (l : Layout) (pending : List String)
    (hunmet : unmet.Nodup) : ∃ names, Discovers tree l unmet pending names ∧
      reachableGroups tree l unmet pending = names.map l.groupFile := by
  fun_induction reachableGroups tree l unmet pending with
  | case1 unmet =>
    refine ⟨[], ⟨List.nil_subset _, List.nodup_nil, fun before name after hsplit => ?_⟩, rfl⟩
    simp at hsplit
  | case2 unmet name rest path hkey ih =>
    obtain ⟨names, hnames, hpaths⟩ := ih (hunmet.erase _)
    exact ⟨name :: names, hnames.cons hkey hunmet, congrArg (path :: ·) hpaths⟩
  | case3 unmet name rest path hkey ih =>
    obtain ⟨names, hnames, hpaths⟩ := ih hunmet
    exact ⟨names, hnames.skip, hpaths⟩

/-- Discovered groups have possible names, if the pending ones have. -/
theorem Discovers.isGroupName (h : Discovers tree l unmet pending names)
    (hpending : ∀ name ∈ pending, isGroupName name) : ∀ name ∈ names, isGroupName name := by
  refine forall_mem_of_forall_split fun before name after hsplit _ => ?_
  rcases h.mem_or_exists before name after hsplit with hmem | ⟨earlier, -, hname⟩
  · exact hpending name hmem
  · exact isGroupName_of_mem_groupsOfFile hname

/-- Discovered groups are linked to the files that include the pending ones. -/
theorem Discovers.linked {roots : List Path}
    (h : Discovers site.tree site.layout site.tree.fileKeys
      (roots.flatMap (groupsOfFile site.tree)) names) :
    ∀ name ∈ names, site.Linked roots name := by
  refine forall_mem_of_forall_split fun before name after hsplit hbefore => ?_
  have hmem : name ∈ names := hsplit ▸ List.mem_append_right _ List.mem_cons_self
  have hfile : site.tree.isFile (site.layout.groupFile name) = true :=
    FileTree.isFile_iff.mpr (h.subset (List.mem_map_of_mem hmem))
  rcases h.mem_or_exists before name after hsplit with hpending | ⟨earlier, hearlier, hname⟩
  · obtain ⟨path, hpath, hname⟩ := List.mem_flatMap.mp hpending
    exact .root hpath (mem_groupsOfFile_iff.mp hname) hfile
  · exact .group (hbefore earlier hearlier) (mem_groupsOfFile_iff.mp hname) hfile

/-- A linked group is collected from the files that it is linked to. -/
theorem Site.Linked.mem_of_collects {roots paths : List Path} (h : site.Linked roots name)
    (hcollects : Collects site.tree site.layout site.tree.fileKeys
      (roots.flatMap (groupsOfFile site.tree)) paths) : site.layout.groupFile name ∈ paths := by
  induction h with
  | @root path name hpath hname hfile =>
    have hpending : name ∈ roots.flatMap (groupsOfFile site.tree) :=
      List.mem_flatMap.mpr ⟨path, hpath, mem_groupsOfFile_iff.mpr hname⟩
    exact hcollects.mem_of_pending name hpending (FileTree.isFile_iff.mp hfile)
  | group _ hother hfile ih =>
    exact hcollects.mem_of_includes _ ih _ (mem_groupsOfFile_iff.mpr hother)
      (FileTree.isFile_iff.mp hfile)

/-- The files relevant to a host are the main file, that of the host, and those of the groups that
are linked to these two, each once and in order of discovery. -/
theorem Site.exists_listsLinked (site : Site) (host : String) :
    ∃ names, site.ListsLinked host names := by
  have hroots : ∀ name ∈ (site.rootFiles host).flatMap (groupsOfFile site.tree), isGroupName name :=
    fun _ => Site.isGroupName_of_mem_rootFiles
  obtain ⟨names, hdiscovers, hpaths⟩ := exists_discovers_reachableGroups site.tree site.layout
    ((site.rootFiles host).flatMap (groupsOfFile site.tree)) site.tree.nodup_fileKeys
  have hnames := hdiscovers.isGroupName hroots
  have hcollects := collects_reachableGroups site.tree site.layout site.tree.fileKeys hroots
  rw [hpaths] at hcollects
  refine ⟨names, ?files_eq, fun name hname => ⟨fun hmem => ?linked, fun hlinked => ?listed⟩, ?nodup,
    fun before name after hsplit => ?mentioned⟩
  case files_eq => rw [site.relevantFiles_eq, hpaths, Site.rootFiles]
  case linked =>
    obtain ⟨other, hother, hsame⟩ := List.mem_map.mp hmem
    have hkey : site.layout.groupKey other = site.layout.groupKey name :=
      congrArg FileTree.key hsame
    have heq := site.layout.key_groupFile_injective (hnames other hother) hname hkey
    exact heq ▸ hdiscovers.linked other hother
  case listed => exact hlinked.mem_of_collects hcollects
  case nodup =>
    refine List.Nodup.map_on (fun g hg h hh htext => ?_) hdiscovers.nodup.of_map
    exact site.layout.toString_groupFile_injective (hnames g hg) (hnames h hh) htext
  case mentioned =>
    rcases hdiscovers.mem_or_exists before name after hsplit with
      hpending | ⟨earlier, hearlier, hname⟩
    · obtain ⟨path, hpath, hname⟩ := List.mem_flatMap.mp hpending
      exact ⟨path, List.mem_append_left _ hpath, mem_groupsOfFile_iff.mp hname⟩
    · exact ⟨_, List.mem_append_right _ (List.mem_map_of_mem hearlier),
        mem_groupsOfFile_iff.mp hname⟩

end HostConfig
