import HostConfig.Proofs.Layout.GroupFile
import HostConfig.Proofs.Resolution.Unfolding
import Mathlib.Data.List.Nodup

/-!
# Reachable groups of documents

Collecting the files of reachable groups skips a group whose file was met before. Where all groups
have documents that unfold, skipping loses nothing: the group is not one that is being followed,
so that all its own groups have been met too. The files collected are therefore those of the
trace, each where it is met first.
-/

namespace HostConfig

/-- The key of the file of a group. -/
def Layout.groupKey (l : Layout) (name : String) : String := FileTree.key (l.groupFile name)

/-- The groups of a trace whose files were unmet, each where it is met first. -/
def firstMet (l : Layout) (unmet : List String) : List String → List String
  | [] => []
  | name :: trace =>
    if l.groupKey name ∈ unmet then name :: firstMet l (unmet.erase (l.groupKey name)) trace
    else firstMet l unmet trace

/-- What was met in a part of a trace is not met in the part behind it. -/
theorem firstMet_append (l : Layout) (unmet trace trace' : List String) :
    firstMet l unmet (trace ++ trace') =
      firstMet l unmet trace ++ firstMet l (unmet.diff (trace.map l.groupKey)) trace' := by
  induction trace generalizing unmet with
  | nil => rfl
  | cons name trace ih =>
    rw [List.cons_append, List.map_cons, List.diff_cons]
    by_cases hname : l.groupKey name ∈ unmet
    · simp only [firstMet, if_pos hname, ih, List.cons_append]
    · simp only [firstMet, if_neg hname, ih, List.erase_of_not_mem hname]

/-- A trace of groups whose files were met adds nothing. -/
theorem firstMet_of_forall_notMem {l : Layout} {unmet trace : List String}
    (h : ∀ name ∈ trace, l.groupKey name ∉ unmet) :
    firstMet l unmet trace = [] ∧ unmet.diff (trace.map l.groupKey) = unmet := by
  induction trace with
  | nil => exact ⟨rfl, rfl⟩
  | cons name trace ih =>
    obtain ⟨hfirst, hdiff⟩ := ih fun other hother => h other (List.mem_cons_of_mem _ hother)
    have hname := h name List.mem_cons_self
    rw [firstMet, if_neg hname, List.map_cons, List.diff_cons, List.erase_of_not_mem hname]
    exact ⟨hfirst, hdiff⟩

/-- The groups that a met group's own document unfolds to were met with it. -/
def Site.Settled (site : Site) (unmet trace : List String) : Prop :=
  ∀ name ∈ trace, site.layout.groupKey name ∉ unmet →
    ∀ document inner, site.document (site.layout.groupFile name) = .ok document →
      Unfolds site document.groups inner → ∀ other ∈ inner, site.layout.groupKey other ∉ unmet

variable {site : Site} {unmet inner trace : List String} {name : String} {document : Document}

/-- Meeting a group leaves what it unfolds to settled: the group itself is not part of that. -/
theorem Site.Settled.erase (h : site.Settled unmet (name :: inner ++ trace))
    (hnames : ∀ other ∈ name :: inner ++ trace, isGroupName other)
    (hdocument : site.document (site.layout.groupFile name) = .ok document)
    (hinner : Unfolds site document.groups inner) :
    site.Settled (unmet.erase (site.layout.groupKey name)) inner := by
  intro other hother hmet d t hd ht last hlast hunmet
  have hmem : other ∈ name :: inner ++ trace :=
    List.mem_append_left _ (List.mem_cons_of_mem _ hother)
  have hkey : site.layout.groupKey other ≠ site.layout.groupKey name := by
    intro hkey
    have hsame := site.layout.key_groupFile_injective (hnames _ hmem)
      (hnames _ List.mem_cons_self) hkey
    exact hinner.notMem_of_document hdocument (hsame ▸ hother)
  have hmet' : site.layout.groupKey other ∉ unmet :=
    fun hold => hmet ((List.mem_erase_of_ne hkey).mpr hold)
  exact h other hmem hmet' d t hd ht last hlast (List.mem_of_mem_erase hunmet)

/-- Meeting a group and all that it unfolds to leaves what comes later settled. -/
theorem Site.Settled.diff (h : site.Settled unmet (name :: inner ++ trace)) (hunmet : unmet.Nodup)
    (hnames : ∀ other ∈ name :: inner ++ trace, isGroupName other)
    (hdocument : site.document (site.layout.groupFile name) = .ok document)
    (hinner : Unfolds site document.groups inner) :
    site.Settled (unmet.diff ((name :: inner).map site.layout.groupKey)) trace := by
  intro other hother hmet d t hd ht last hlast
  have hmem : other ∈ name :: inner ++ trace := List.mem_append_right _ hother
  rw [hunmet.mem_sdiff_iff, not_and_not_right] at hmet ⊢
  intro hold
  by_cases hkey : site.layout.groupKey other ∈ unmet
  · -- The group was met just now, so that it is this one or part of what this one unfolds to.
    obtain ⟨met, hmem', heq⟩ := List.mem_map.mp (hmet hkey)
    have hsame := site.layout.key_groupFile_injective
      (hnames met (List.mem_append_left _ hmem')) (hnames other hmem) heq
    subst hsame
    refine List.mem_map_of_mem (List.mem_cons_of_mem _ ?_)
    cases hmem' with
    | head =>
      cases hdocument.symm.trans hd
      exact hinner.unique ht ▸ hlast
    | tail _ hmem' =>
      obtain ⟨d', t', hd', ht', hinfix⟩ := hinner.exists_of_mem hmem'
      cases hd.symm.trans hd'
      exact hinfix.subset (List.mem_cons_of_mem _ (ht.unique ht' ▸ hlast))
  · exact absurd hold (h other hmem hkey d t hd ht last hlast)

/-- Collecting from pending groups that unfold collects their trace, and goes on from there. -/
theorem Unfolds.reachableGroups_append {pending : List String} (h : Unfolds site pending trace)
    (hnames : ∀ name ∈ trace, isGroupName name) (hunmet : unmet.Nodup)
    (hsettled : site.Settled unmet trace) (rest : List String) :
    reachableGroups site.tree site.layout unmet (pending ++ rest) =
      (firstMet site.layout unmet trace).map site.layout.groupFile ++
        reachableGroups site.tree site.layout
          (unmet.diff (trace.map site.layout.groupKey)) rest := by
  induction h generalizing unmet rest with
  | nil => rfl
  | @cons name pending inner trace document hdocument hinner _ ihinner ihpending =>
    have hnamesInner : ∀ other ∈ inner, isGroupName other :=
      fun other hother => hnames other (List.mem_append_left _ (List.mem_cons_of_mem _ hother))
    have hnamesTrace : ∀ other ∈ trace, isGroupName other :=
      fun other hother => hnames other (List.mem_append_right _ hother)
    rw [List.cons_append, reachableGroups, firstMet_append]
    by_cases hname : FileTree.key (site.layout.groupFile name) ∈ unmet
    · have hkey : site.layout.groupKey name ∈ unmet := hname
      have hstep := ihinner hnamesInner (hunmet.erase _)
        (hsettled.erase hnames hdocument hinner) (pending ++ rest)
      have hlater := ihpending hnamesTrace hunmet.diff
        (hsettled.diff hunmet hnames hdocument hinner) rest
      rw [List.map_cons, List.diff_cons] at hlater
      rw [dif_pos hname, site.groupsOfFile_of_document hdocument]
      change _ :: reachableGroups _ _ (unmet.erase (site.layout.groupKey name)) _ = _
      rw [hstep, hlater, firstMet, if_pos hkey]
      simp only [List.map_cons, List.map_append, List.cons_append, List.append_assoc,
        List.diff_cons, List.diff_append]
    · have hmet : ∀ other ∈ name :: inner, site.layout.groupKey other ∉ unmet := by
        intro other hother
        cases hother with
        | head => exact hname
        | tail _ hother =>
          exact hsettled name List.mem_cons_self hname document inner hdocument hinner other hother
      obtain ⟨hfirst, hdiff⟩ := firstMet_of_forall_notMem hmet
      have hlater := ihpending hnamesTrace hunmet
        (fun other hother => hsettled other (List.mem_append_right _ hother)) rest
      have hkeys : (name :: inner ++ trace).map site.layout.groupKey =
          (name :: inner).map site.layout.groupKey ++ trace.map site.layout.groupKey :=
        List.map_append
      rw [dif_neg hname, hlater, hfirst, hkeys, List.diff_append, hdiff, List.nil_append]

/-- The groups that are met first are those of a trace that were unmet, each once. -/
theorem map_firstMet {l : Layout} (hnames : ∀ name ∈ trace, isGroupName name)
    (hunmet : unmet.Nodup) :
    (firstMet l unmet trace).map (fun name => (l.groupFile name).toString) =
      ((trace.filter (l.groupKey · ∈ unmet)).map fun name => (l.groupFile name).toString).eraseDups := by
  induction trace generalizing unmet with
  | nil => rfl
  | cons name trace ih =>
    have hnamesTrace : ∀ other ∈ trace, isGroupName other :=
      fun other hother => hnames other (List.mem_cons_of_mem _ hother)
    by_cases hname : l.groupKey name ∈ unmet
    · have hfilter : trace.filter (fun other => l.groupKey other ∈ unmet.erase (l.groupKey name)) =
          (trace.filter (l.groupKey · ∈ unmet)).filter
            fun other => !(l.groupFile other).toString == (l.groupFile name).toString := by
        rw [List.filter_filter]
        refine List.filter_congr fun other hother => ?_
        have hsame : l.groupKey other = l.groupKey name ↔
            (l.groupFile other).toString = (l.groupFile name).toString := by
          have hvalid := hnamesTrace other hother
          have hvalidName := hnames name List.mem_cons_self
          constructor
          · intro heq
            rw [l.key_groupFile_injective hvalid hvalidName heq]
          · intro heq
            rw [l.toString_groupFile_injective hvalid hvalidName heq]
        simp [hunmet.mem_erase_iff, hsame, Bool.beq_eq_decide_eq]
      rw [firstMet, if_pos hname, List.map_cons, ih hnamesTrace (hunmet.erase _), hfilter,
        List.filter_cons_of_pos (by simpa using hname), List.map_cons, List.eraseDups_cons,
        List.filter_map]
      rfl
    · rw [firstMet, if_neg hname, ih hnamesTrace hunmet,
        List.filter_cons_of_neg (by simpa using hname)]

/-- The main file and the file of a host, as far as there are such files. -/
def Site.rootFiles (site : Site) (host : String) : List Path :=
  [site.layout.mainFile, site.layout.hostFile host].filter site.tree.isFile

/-- The file of a host, if there is one. -/
def Site.hostFiles (site : Site) (host : String) : List Path :=
  [site.layout.hostFile host].filter site.tree.isFile

/-- Relevant are the main and host files, and what is collected from the groups they include. -/
theorem Site.relevantFiles_eq (site : Site) (host : String) :
    relevantFiles site.tree site.layout host = site.rootFiles host ++
      reachableGroups site.tree site.layout site.tree.fileKeys
        ((site.rootFiles host).flatMap (groupsOfFile site.tree)) := rfl

/-- The groups that main and host files include have possible names. -/
theorem Site.isGroupName_of_mem_rootFiles {host : String}
    (h : name ∈ (site.rootFiles host).flatMap (groupsOfFile site.tree)) : isGroupName name := by
  obtain ⟨path, -, hpath⟩ := List.mem_flatMap.mp h
  exact isGroupName_of_mem_groupsOfFile hpath

/-- If the groups of main and host files unfold, then the files relevant to the host are these
files and those of the groups in the trace, each once. -/
theorem Unfolds.map_relevantFiles {host : String}
    (h : Unfolds site ((site.rootFiles host).flatMap (groupsOfFile site.tree)) trace) :
    (relevantFiles site.tree site.layout host).map Path.toString =
      (site.rootFiles host).map Path.toString ++
        (trace.map fun name => (site.layout.groupFile name).toString).eraseDups := by
  have hnames : ∀ name ∈ trace, isGroupName name :=
    h.isGroupName_of_mem fun _ => Site.isGroupName_of_mem_rootFiles
  have hunmet : ∀ name ∈ trace, site.layout.groupKey name ∈ site.tree.fileKeys := by
    intro name hname
    obtain ⟨document, inner, hdocument, -⟩ := h.exists_of_mem hname
    exact FileTree.isFile_iff.mp (site.isFile_of_document hdocument)
  have hsettled : site.Settled site.tree.fileKeys trace :=
    fun name hname hmet => absurd (hunmet name hname) hmet
  have hcollect := h.reachableGroups_append hnames site.tree.nodup_fileKeys hsettled []
  rw [List.append_nil, reachableGroups, List.append_nil] at hcollect
  have hall : trace.filter (site.layout.groupKey · ∈ site.tree.fileKeys) = trace :=
    List.filter_eq_self.mpr fun name hname => by simpa using hunmet name hname
  have hfirst := map_firstMet hnames site.tree.nodup_fileKeys (l := site.layout)
  rw [hall] at hfirst
  rw [site.relevantFiles_eq, hcollect, List.map_append, List.map_map]
  exact congrArg _ hfirst

end HostConfig
