import HostConfig.Proofs.Journal.Telling
import HostConfig.Proofs.Load.Outcome
import HostConfig.Proofs.Relevant.Reachability

/-!
# Loaded files are relevant files

A journal tells which files a load opens: the main file, the file of the host, and the file of a
group each time the group is entered. On a load that succeeds these are exactly the files that are
relevant to the host, in the same order once repetitions are dropped.
-/

namespace HostConfig

/-- Whether a notice tells that a file is opened. -/
def Notice.opensFile : Notice → Bool
  | .fileLoaded _ _ | .groupEntered _ _ => true
  | _ => false

/-- The main or host file that a notice tells of. -/
def Notice.loadedFile? : Notice → Option String
  | .fileLoaded file _ => some file
  | _ => none

/-- The file of an entered group that a notice tells of. -/
def Notice.enteredFile? : Notice → Option String
  | .groupEntered _ file => some file
  | _ => none

/-- The notices of a journal that tell of opened files. -/
def Journal.opened (j : Journal) : List Notice :=
  (j.events.map (·.notice)).filter (·.opensFile)

/-- The main and host files that were loaded, in order. -/
def Journal.loadedFiles (j : Journal) : List String :=
  j.events.filterMap (·.notice.loadedFile?)

/-- The files of the groups that were entered, in order and with repetitions. -/
def Journal.enteredFiles (j : Journal) : List String :=
  j.events.filterMap (·.notice.enteredFile?)

/-- The notice that a group is entered. -/
def Layout.entered (l : Layout) (name : String) : Notice :=
  .groupEntered name (l.groupFile name).toString

namespace Journal

/-- What is told of opened files only is told by the notices of these. -/
theorem filterMap_opened (j : Journal) {tell : Notice → Option String}
    (h : ∀ n : Notice, n.opensFile = false → tell n = none) :
    j.opened.filterMap tell = j.events.filterMap (tell ·.notice) := by
  rw [opened, List.filterMap_filter, List.filterMap_map]
  refine List.filterMap_congr fun e _ => ?_
  change (if e.notice.opensFile then tell e.notice else none) = tell e.notice
  cases hopens : e.notice.opensFile with
  | false => exact (h _ hopens).symm
  | true => rfl

/-- Loaded files are opened. -/
theorem loadedFiles_eq (j : Journal) : j.loadedFiles = j.opened.filterMap (·.loadedFile?) := by
  refine (j.filterMap_opened fun n hn => ?_).symm
  cases n <;> first | rfl | cases hn

/-- The files of entered groups are opened. -/
theorem enteredFiles_eq (j : Journal) : j.enteredFiles = j.opened.filterMap (·.enteredFile?) := by
  refine (j.filterMap_opened fun n hn => ?_).symm
  cases n <;> first | rfl | cases hn

/-- What tells of opened files is a view of a journal. -/
theorem opened_eq_told (j : Journal) : j.opened = j.told (Option.guard Notice.opensFile) := by
  rw [opened, told, ← List.filterMap_eq_filter, List.filterMap_map]
  rfl

end Journal

/-- Warnings and merged entries open no files. -/
theorem isCoarse_opensFile : IsCoarse (Option.guard Notice.opensFile) where
  warning _ _ := rfl
  entryMerged _ _ := rfl

/-- The notices of opened files in a journal, if one is kept. -/
def openedIn (journal : Option Journal) : Option (List Notice) := journal.map (·.opened)

/-- The notices of the files that a run opened so far, if a journal is kept. -/
def Run.opened (run : Run) : Option (List Notice) := openedIn run.journal

theorem openedIn_eq_toldIn (journal : Option Journal) :
    openedIn journal = toldIn journal (Option.guard Notice.opensFile) :=
  congrArg (journal.map ·) (funext Journal.opened_eq_told)

/-- A notice that opens a file is added to those that do. -/
theorem openedIn_log {n : Notice} (h : n.opensFile = true) (journal : Option Journal) :
    openedIn (journal.map (·.log n)) = (openedIn journal).map (· ++ [n]) := by
  rw [openedIn_eq_toldIn, tellsMore_log, ← openedIn_eq_toldIn]
  simp [Option.guard, h]

theorem Run.opened_warnAll (run : Run) (file : String) (texts : List String) :
    (run.warnAll file texts).opened = run.opened := by
  rw [opened, opened, openedIn_eq_toldIn, openedIn_eq_toldIn,
    run.tellsMore_warnAll isCoarse_opensFile file texts]
  simp

theorem Run.opened_into (run : Run) (l : Layout) (name : String) :
    (run.into l name).opened = run.opened.map (· ++ [l.entered name]) := openedIn_log rfl run.journal

theorem Run.opened_leave (run : Run) (name : String) : (run.leave name).opened = run.opened := rfl

theorem Run.opened_absorb (run : Run) (name : String) (r inner : Resolution) :
    (run.absorb name r inner).opened = run.opened := by
  rw [opened, opened, openedIn_eq_toldIn, openedIn_eq_toldIn,
    run.tellsMore_absorb isCoarse_opensFile.entryMerged name r inner]
  simp [Option.guard, Notice.opensFile]

variable {site : Site}

/-- A resolution opens the files of the groups of its trace. -/
theorem Resolves.opened_eq {source : Provenance} {body : List Statement} {r final : Resolution}
    {run after : Run} (h : Resolves site source body r run (.ok final) after) {trace : List String}
    (htrace : Unfolds site (groupsOf body) trace) :
    after.opened = run.opened.map (· ++ trace.map site.layout.entered) := by
  induction h using Resolves.ok_induction generalizing trace with
  | done =>
    cases htrace
    simp
  | declare hform _ _ ih =>
    rw [groupsOf_cons_of_none hform] at htrace
    rw [ih htrace, Run.opened_warnAll]
  | expand hform _ hdocument _ _ ihinner ihrest =>
    rw [groupsOf_cons_of_some hform] at htrace
    cases htrace with
    | cons hdocument' hinner hpending =>
      cases hdocument.symm.trans hdocument'
      rw [ihrest hpending, Run.opened_absorb, Run.opened_leave, ihinner hinner, Run.opened_into,
        Option.map_map, Option.map_map]
      congr 1
      funext before
      simp

/-- A file that resolves is opened first, and then the files of its groups are. -/
theorem Site.opened_of_resolveFile {path : Path} {kind : SourceKind}
    {journal after : Option Journal} {r : Resolution}
    (h : site.resolveFile path kind journal = (.ok r, after)) :
    ∃ trace, Unfolds site (groupsOfFile site.tree path) trace ∧ site.tree.isFile path ∧
      openedIn after = (openedIn journal).map
        (· ++ .fileLoaded path.toString kind :: trace.map site.layout.entered) := by
  obtain ⟨document, hdocument⟩ := site.exists_document_of_resolveFile h
  obtain ⟨run, hresolves, rfl⟩ := site.resolves_of_resolveFile hdocument h
  obtain ⟨trace, htrace⟩ := hresolves.exists_unfolds
  refine ⟨trace, ?_, site.isFile_of_document hdocument, ?_⟩
  · rw [site.groupsOfFile_of_document hdocument]
    exact htrace
  · change run.opened = _
    have hloaded := openedIn_log (rfl : (Notice.fileLoaded path.toString kind).opensFile = true) journal
    rw [hresolves.opened_eq htrace, Run.opened, hloaded, Option.map_map]
    congr 1
    funext before
    simp

/-- The file of a host is opened if there is one, and then the files of its groups are. -/
theorem Site.opened_of_resolveHost {host : String} {journal after : Option Journal}
    {r : Resolution} (h : site.resolveHost host journal = (.ok r, after)) :
    ∃ trace,
      Unfolds site ((site.hostFiles host).flatMap (groupsOfFile site.tree)) trace ∧
      openedIn after = (openedIn journal).map (· ++
        ((site.hostFiles host).map (fun path => .fileLoaded path.toString .host) ++
          trace.map site.layout.entered)) := by
  cases htree : site.tree.contains (site.layout.hostFile host) with
  | true =>
    rw [site.resolveHost_of_contains htree] at h
    obtain ⟨trace, htrace, hfile, hopened⟩ := site.opened_of_resolveFile h
    refine ⟨trace, ?_, ?_⟩
    · simpa [Site.hostFiles, hfile] using htrace
    · simpa [Site.hostFiles, hfile] using hopened
  | false =>
    have hfile : site.tree.isFile (site.layout.hostFile host) = false := by
      rw [← Bool.not_eq_true]
      intro hfile
      rw [FileTree.contains_of_isFile hfile] at htree
      cases htree
    rw [site.resolveHost_of_not_contains htree, Prod.mk.injEq] at h
    obtain ⟨-, rfl⟩ := h
    refine ⟨[], by simpa [Site.hostFiles, hfile] using Unfolds.nil, ?_⟩
    rw [openedIn_eq_toldIn, tellsMore_log, ← openedIn_eq_toldIn]
    simp [Site.hostFiles, hfile, Option.guard, Notice.opensFile]

/-- A load that succeeds opens the main and the host file that there are, and after each of them
the files of the groups in its trace. -/
theorem Site.opened_of_load {host : String} {journal after : Option Journal} {config : Config}
    (h : site.load host journal = (.ok config, after)) :
    ∃ trace trace',
      Unfolds site (groupsOfFile site.tree site.layout.mainFile) trace ∧
      Unfolds site ((site.hostFiles host).flatMap (groupsOfFile site.tree)) trace' ∧
      site.tree.isFile site.layout.mainFile ∧
      openedIn after = (openedIn journal).map (· ++
        (.fileLoaded site.layout.mainFile.toString .main :: trace.map site.layout.entered ++
        ((site.hostFiles host).map (fun path => .fileLoaded path.toString .host) ++
          trace'.map site.layout.entered))) := by
  obtain ⟨main, inner, middle, last, hmain, hhost, -, rfl⟩ := site.load_eq_ok h
  obtain ⟨trace, htrace, hfile, hopened⟩ := site.opened_of_resolveFile hmain
  obtain ⟨trace', htrace', hopened'⟩ := site.opened_of_resolveHost hhost
  have hmerged : openedIn (last.map (·.logAll (mergeNotices main.entries inner.entries))) =
      openedIn last := by
    rw [openedIn_eq_toldIn, toldIn_mergeNotices isCoarse_opensFile.entryMerged, ← openedIn_eq_toldIn]
  have hidentified : openedIn (journal.map (·.identify host)) = openedIn journal := by
    cases journal <;> rfl
  refine ⟨trace, trace', htrace, htrace', hfile, ?_⟩
  rw [hmerged, hopened', hopened, hidentified, Option.map_map]
  congr 1
  funext before
  exact List.append_assoc _ _ _

/-- A loaded file is told of as such. -/
theorem filterMap_loadedFile?_cons (file : String) (kind : SourceKind) (ns : List Notice) :
    (.fileLoaded file kind :: ns).filterMap (·.loadedFile?) =
      file :: ns.filterMap (·.loadedFile?) := rfl

/-- A loaded file is no entered group. -/
theorem filterMap_enteredFile?_cons (file : String) (kind : SourceKind) (ns : List Notice) :
    (.fileLoaded file kind :: ns).filterMap (·.enteredFile?) = ns.filterMap (·.enteredFile?) := rfl

/-- Entered groups are not loaded files. -/
theorem filterMap_loadedFile?_entered (l : Layout) (trace : List String) :
    (trace.map l.entered).filterMap (·.loadedFile?) = [] := by
  induction trace with
  | nil => rfl
  | cons name trace ih => exact ih

/-- Entered groups have files. -/
theorem filterMap_enteredFile?_entered (l : Layout) (trace : List String) :
    (trace.map l.entered).filterMap (·.enteredFile?) =
      trace.map fun name => (l.groupFile name).toString := by
  induction trace with
  | nil => rfl
  | cons name trace ih => exact congrArg (_ :: ·) ih

/-- Loaded files are no entered groups. -/
theorem filterMap_fileLoaded (paths : List Path) (kind : SourceKind) :
    (paths.map fun path => Notice.fileLoaded path.toString kind).filterMap (·.loadedFile?) =
        paths.map Path.toString ∧
      (paths.map fun path => Notice.fileLoaded path.toString kind).filterMap (·.enteredFile?) =
        [] := by
  induction paths with
  | nil => exact ⟨rfl, rfl⟩
  | cons path paths ih => exact ⟨congrArg (_ :: ·) ih.1, ih.2⟩

/-- On a load that succeeds, the relevant files are the loaded ones, that is the main file and
that of the host if there is one, and then those of the entered groups, each where it is entered
first. -/
theorem Site.relevantFiles_of_load {host : String} {j : Journal} {config : Config}
    (hfresh : j.events = []) (h : (site.load host (some j)).1 = .ok config) :
    ∃ final, (site.load host (some j)).2 = some final ∧
      final.loadedFiles = (site.rootFiles host).map Path.toString ∧
      (relevantFiles site.tree site.layout host).map Path.toString =
        final.loadedFiles ++ final.enteredFiles.eraseDups := by
  have hload : site.load host (some j) = (.ok config, (site.load host (some j)).2) :=
    Prod.ext h rfl
  obtain ⟨trace, trace', htrace, htrace', hmain, hopened⟩ := site.opened_of_load hload
  cases hafter : (site.load host (some j)).2 with
  | none =>
    rw [hafter] at hopened
    cases hopened
  | some final =>
    have hnothing : j.opened = [] := by rw [Journal.opened, hfresh, List.map_nil, List.filter_nil]
    have hroots : site.rootFiles host = site.layout.mainFile :: site.hostFiles host :=
      List.filter_cons_of_pos hmain
    obtain ⟨hloaded, hentered⟩ := filterMap_fileLoaded (site.hostFiles host) .host
    rw [hafter] at hopened
    have hfinal : final.opened = j.opened ++ _ := Option.some.inj hopened
    rw [hnothing, List.nil_append] at hfinal
    have hfinalLoaded : final.loadedFiles = (site.rootFiles host).map Path.toString := by
      rw [final.loadedFiles_eq, hfinal, hroots, List.cons_append, filterMap_loadedFile?_cons,
        List.filterMap_append, List.filterMap_append, filterMap_loadedFile?_entered,
        filterMap_loadedFile?_entered, hloaded, List.nil_append, List.append_nil, List.map_cons]
    have hfinalEntered : final.enteredFiles =
        (trace ++ trace').map fun name => (site.layout.groupFile name).toString := by
      rw [final.enteredFiles_eq, hfinal, List.cons_append, filterMap_enteredFile?_cons,
        List.filterMap_append, List.filterMap_append, filterMap_enteredFile?_entered,
        filterMap_enteredFile?_entered, hentered, List.nil_append, List.map_append]
    refine ⟨final, rfl, hfinalLoaded, ?_⟩
    -- Both files together unfold to one trace, so that groups they share are collected once.
    have hunfolds := htrace.append htrace'
    rw [← List.flatMap_cons, ← hroots] at hunfolds
    rw [hunfolds.map_relevantFiles, hfinalLoaded, hfinalEntered]

/-- Two groups that share a third one, which the file of the host includes again. -/
theorem Site.relevantFiles_of_load_shared :
    let site := Site.ofTexts "/owl" [("/owl/main.owl", "@group a\n@group b\n"),
      ("/owl/hosts/box.owl", "@group c\n@env K = v\n"), ("/owl/groups/a.owl", "@group c\n"),
      ("/owl/groups/b.owl", "@group c\n"), ("/owl/groups/c.owl", "@env C = 1\n")]
    let config : Config := ⟨[], [⟨"C", "1"⟩, ⟨"C", "1"⟩, ⟨"C", "1"⟩, ⟨"K", "v"⟩], []⟩
    (site.load "box" (some {})).1 = .ok config ∧
      ∃ final, (site.load "box" (some {})).2 = some final ∧
        final.loadedFiles = (site.rootFiles "box").map Path.toString ∧
        (relevantFiles site.tree site.layout "box").map Path.toString =
          final.loadedFiles ++ final.enteredFiles.eraseDups := by
  intro site config
  have hok : (site.load "box" (some {})).1 = .ok config := by decide +kernel
  exact ⟨hok, site.relevantFiles_of_load rfl hok⟩

end HostConfig
