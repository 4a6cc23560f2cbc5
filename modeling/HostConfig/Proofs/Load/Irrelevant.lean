import HostConfig.Proofs.Load.Agreement
import HostConfig.Proofs.Load.Yield
import HostConfig.Proofs.Relevant.Closure
import HostConfig.Proofs.Relevant.LoadedFiles

/-!
# Irrelevant files

Where a load succeeds, all that it looks at are relevant files, apart from the file of a host that
has none. So whatever becomes of the other files, the host keeps its configuration, and the same
files remain relevant.
-/

namespace HostConfig

variable {site : Site} {tree' : FileTree} {host : String}

/-- Another tree holds the same at the files that are relevant to a host, and no file of the host
if there was none. -/
structure Site.KeepsRelevant (site : Site) (tree' : FileTree) (host : String) : Prop where
  agreesAt : ∀ path ∈ relevantFiles site.tree site.layout host, site.tree.AgreesAt tree' path
  not_contains : site.tree.contains (site.layout.hostFile host) = false →
    tree'.contains (site.layout.hostFile host) = false

/-- Only a file includes groups. -/
theorem isFile_of_mem_groupsOfFile {tree : FileTree} {path : Path} {name : String}
    (h : name ∈ groupsOfFile tree path) : tree.isFile path = true := by
  unfold groupsOfFile at h
  split at h
  · cases h
  · next hread => exact FileTree.isFile_of_read hread

/-- Groups that relevant files include and that unfold have relevant files, and so have all groups
that they lead to. -/
theorem Unfolds.groupFile_mem_relevantFiles {pending trace : List String}
    (h : Unfolds site pending trace)
    (hpending : ∀ name ∈ pending, ∃ path ∈ relevantFiles site.tree site.layout host,
      name ∈ groupsOfFile site.tree path) :
    ∀ name ∈ trace, site.layout.groupFile name ∈ relevantFiles site.tree site.layout host := by
  induction h with
  | nil =>
    intro name hname
    cases hname
  | @cons first pending inner trace document hdocument _ _ ihinner ihpending =>
    obtain ⟨path, hpath, hincluded⟩ := hpending first List.mem_cons_self
    have hfirst := Site.groupFile_mem_relevantFiles hpath hincluded (site.isFile_of_document hdocument)
    intro name hname
    rw [List.cons_append, List.mem_cons, List.mem_append] at hname
    obtain rfl | hmem | hmem := hname
    · exact hfirst
    · refine ihinner (fun other hother => ⟨_, hfirst, ?_⟩) name hmem
      rwa [site.groupsOfFile_of_document hdocument]
    · exact ihpending (fun other hother => hpending other (List.mem_cons_of_mem _ hother)) name hmem

/-- The groups that unfold are closed under inclusion, so that trees which hold the same at their
files agree on them. -/
theorem Unfolds.agreesOn {pending trace : List String} (h : Unfolds site pending trace)
    (hnames : ∀ name ∈ pending, isGroupName name)
    (hagrees : ∀ name ∈ trace, site.tree.AgreesAt tree' (site.layout.groupFile name)) :
    site.AgreesOn tree' (· ∈ trace) where
  isGroupName := h.isGroupName_of_mem hnames
  agreesAt := hagrees
  closed name hname other hother := by
    obtain ⟨document, inner, hdocument, -⟩ := h.exists_of_mem hname
    rw [site.groupsOfFile_of_document hdocument] at hother
    exact h.mem_of_document hname hdocument hother

/-- After a load that succeeds, the file of the host is relevant if anything is there. -/
theorem Site.hostFile_mem_relevantFiles_of_load {journal : Option Journal} {config : Config}
    (h : (site.load host journal).1 = .ok config)
    (htree : site.tree.contains (site.layout.hostFile host) = true) :
    site.layout.hostFile host ∈ relevantFiles site.tree site.layout host := by
  obtain ⟨-, inner, -, hinner, -⟩ := site.load_eq_ok_iff.mp h
  obtain ⟨document, hdocument, -⟩ := (site.hostYields_of_contains htree).mp hinner
  exact Site.hostFile_mem_relevantFiles (site.isFile_of_document hdocument)

/-- After a load that succeeds, a tree that keeps the relevant files holds the same at the file of
the host, which is relevant if it is there and stays away if not. -/
theorem Site.KeepsRelevant.agreesAt_hostFile {journal : Option Journal} {config : Config}
    (hkeeps : site.KeepsRelevant tree' host) (h : (site.load host journal).1 = .ok config) :
    site.tree.AgreesAt tree' (site.layout.hostFile host) := by
  cases htree : site.tree.contains (site.layout.hostFile host) with
  | true => exact hkeeps.agreesAt _ (Site.hostFile_mem_relevantFiles_of_load h htree)
  | false =>
    have hnone := Option.not_isSome_iff_eq_none.mp (Bool.not_eq_true _ ▸ htree)
    have hnone' := Option.not_isSome_iff_eq_none.mp (Bool.not_eq_true _ ▸ hkeeps.not_contains htree)
    exact hnone'.trans hnone.symm

/-- A group that the main file includes is included by a relevant file, and so is one that the
host's file includes. -/
theorem Site.exists_mem_relevantFiles {name : String}
    (hmainFile : site.tree.isFile site.layout.mainFile = true)
    (hname : name ∈ groupsOfFile site.tree site.layout.mainFile ++
      (site.hostFiles host).flatMap (groupsOfFile site.tree)) :
    ∃ path ∈ relevantFiles site.tree site.layout host, name ∈ groupsOfFile site.tree path := by
  rcases List.mem_append.mp hname with hofMain | hofHost
  · exact ⟨_, Site.mainFile_mem_relevantFiles hmainFile, hofMain⟩
  · obtain ⟨path, hpath, hname⟩ := List.mem_flatMap.mp hofHost
    obtain ⟨hmem, hfile⟩ := List.mem_filter.mp hpath
    cases List.mem_singleton.mp hmem
    exact ⟨_, Site.hostFile_mem_relevantFiles hfile, hname⟩

/-- What the main file or the host's file includes is among the groups that both start from. -/
theorem Site.mem_rootGroups {path : Path} {name : String}
    (hpath : path ∈ [site.layout.mainFile, site.layout.hostFile host])
    (hname : name ∈ groupsOfFile site.tree path) :
    name ∈ groupsOfFile site.tree site.layout.mainFile ++
      (site.hostFiles host).flatMap (groupsOfFile site.tree) := by
  rw [List.mem_pair] at hpath
  rcases hpath with rfl | rfl
  · exact List.mem_append_left _ hname
  · have hfile : site.layout.hostFile host ∈ site.hostFiles host :=
      List.mem_filter.mpr ⟨List.mem_singleton_self _, isFile_of_mem_groupsOfFile hname⟩
    exact List.mem_append_right _ (List.mem_flatMap.mpr ⟨_, hfile, hname⟩)

/-- A load that succeeds gives the same over a tree that keeps the relevant files, and the same
files remain relevant. -/
theorem Site.KeepsRelevant.load_preserved {journal after : Option Journal} {config : Config}
    (hkeeps : site.KeepsRelevant tree' host) (h : site.load host journal = (.ok config, after)) :
    (site.withTree tree').load host journal = (.ok config, after) ∧
      relevantFiles tree' site.layout host = relevantFiles site.tree site.layout host := by
  obtain ⟨trace, trace', htrace, htrace', hmainFile, -⟩ := site.opened_of_load h
  have hmain := hkeeps.agreesAt _ (Site.mainFile_mem_relevantFiles hmainFile)
  have hhost := hkeeps.agreesAt_hostFile (congrArg Prod.fst h)
  -- Main and host file together lead to the groups of one trace.
  have hunfolds := htrace.append htrace'
  have hincluded : ∀ name ∈ groupsOfFile site.tree site.layout.mainFile ++
      (site.hostFiles host).flatMap (groupsOfFile site.tree),
      ∃ path ∈ relevantFiles site.tree site.layout host, name ∈ groupsOfFile site.tree path :=
    fun _ hname => Site.exists_mem_relevantFiles hmainFile hname
  have hagrees : site.AgreesOn tree' (· ∈ trace ++ trace') := by
    refine hunfolds.agreesOn (fun name hname => ?_) fun name hname => ?_
    · obtain ⟨path, -, hpath⟩ := hincluded name hname
      exact isGroupName_of_mem_groupsOfFile hpath
    · exact hkeeps.agreesAt _ (hunfolds.groupFile_mem_relevantFiles hincluded name hname)
  have hroots : ∀ path ∈ [site.layout.mainFile, site.layout.hostFile host],
      ∀ name ∈ groupsOfFile site.tree path, name ∈ trace ++ trace' :=
    fun path hpath name hname => hunfolds.subset (Site.mem_rootGroups hpath hname)
  exact ⟨(hagrees.load_eq hmain hhost hroots journal).trans h,
    hagrees.relevantFiles_eq hmain hhost hroots⟩

/-- A host without a file, and a group that nothing includes becomes one that cannot be read. -/
theorem Site.KeepsRelevant.load_preserved_of_stray :
    let site := Site.ofTexts "/owl" [("/owl/main.owl", "@group a\n@package p\n"),
      ("/owl/groups/a.owl", "@group b\n@env A = 1\n"), ("/owl/groups/b.owl", "@script run\n"),
      ("/owl/groups/c.owl", "@group c\n")]
    let tree' := (site.tree.insert (Path.ofString "/owl/groups/c.owl") (.failing "gone")).insert
      (Path.ofString "/owl/hosts/other.owl") (.file [])
    let config : Config :=
      ⟨[⟨"p", ⟨"/owl/main.owl", .main, none⟩, [], [], [], []⟩], [⟨"A", "1"⟩], ["run"]⟩
    site.KeepsRelevant tree' "box" ∧ site.load "box" none = (.ok config, none) ∧
      (site.withTree tree').load "box" none = (.ok config, none) ∧
      relevantFiles tree' site.layout "box" = relevantFiles site.tree site.layout "box" := by
  intro site tree' config
  have hkeeps : site.KeepsRelevant tree' "box" := by
    constructor
    case agreesAt =>
      let paths := [site.layout.mainFile, site.layout.groupFile "a", site.layout.groupFile "b"]
      have hroots : site.rootFiles "box" ⊆ paths := by decide +kernel
      have hclosed : ∀ path ∈ paths, ∀ name ∈ groupsOfFile site.tree path,
          site.layout.groupFile name ∈ paths := by decide +kernel
      have hagrees : ∀ path ∈ paths, site.tree.AgreesAt tree' path := by decide +kernel
      exact fun path hpath => hagrees path (Site.relevantFiles_subset hroots hclosed hpath)
    case not_contains => decide +kernel
  have hok : (site.load "box" none).1 = .ok config := by decide +kernel
  have hnone : (site.load "box" none).2 = none :=
    Option.isNone_iff_eq_none.mp (by decide +kernel)
  have hload : site.load "box" none = (.ok config, none) := Prod.ext hok hnone
  exact ⟨hkeeps, hload, hkeeps.load_preserved hload⟩

end HostConfig
