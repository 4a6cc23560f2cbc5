import HostConfig.Proofs.Document.Warnings
import HostConfig.Proofs.Journal.Warnings
import HostConfig.Proofs.Path.Normal
import HostConfig.Proofs.Relevant.LoadedFiles

/-!
# Warnings of a load

A load that succeeds warns of a file as often as the file is opened, each time of all that there is
to warn of in its document, whatever groups are expanded in between. The invariant is about the rest
of a body: it warns of itself, and of the groups in its trace. A file is not among the files of its
own trace, so that the two never mix. Whether a load succeeds or fails, the warnings by file and
the warning events are in step.
-/

namespace HostConfig

/-- What there is to warn of in the document of a file. -/
def Site.flawsOf (site : Site) (file : String) : List String :=
  match site.document (Path.ofString file) with
  | .ok document => document.flaws
  | .error _ => []

/-- What there is to warn of in the document of a file, so many times. -/
def Site.repeated (site : Site) (file : String) (n : Nat) : List String :=
  (List.replicate n (site.flawsOf file)).flatten

/-- How often a file is opened. -/
def Journal.openings (j : Journal) (file : String) : Nat :=
  j.opened.countP fun n => n.sourceFile? = some file

/-- How often a file is that of a group in a trace. -/
def Layout.expansions (l : Layout) (trace : List String) (file : String) : Nat :=
  trace.countP fun name => (l.groupFile name).toString = file

/-- How often a file is the one at a path. -/
def Path.occurrences (path : Path) (file : String) : Nat := if path.toString = file then 1 else 0

/-- A later journal tells of opened files, and of what there is to warn of in each of them, each
time that it is opened. -/
def Site.WarnsAlong (site : Site) (journal after : Option Journal) : Prop :=
  ∃ opened, openedIn after = (openedIn journal).map (· ++ opened) ∧ ∀ file,
    TellsMore (Notice.warned? file) journal after
      (site.repeated file (opened.countP fun n => n.sourceFile? = some file))

/-- What a journal says of warnings, given the outcome of the load that it comes from. -/
structure Site.TellsWarnings (site : Site) (outcome : Except Failure Config) (j : Journal) :
    Prop where
  inStep : j.InStep
  /-- If the load succeeds, there is a warning for each flaw of a file each time it is opened. -/
  texts_eq : ∀ config, outcome = .ok config →
    ∀ file, j.warnings.texts file = site.repeated file (j.openings file)

variable {site : Site} {path : Path} {kind : SourceKind} {host file : String}
  {journal middle after : Option Journal} {m n : Nat}

theorem Site.repeated_add (site : Site) (file : String) (m n : Nat) :
    site.repeated file (m + n) = site.repeated file m ++ site.repeated file n := by
  rw [repeated, List.replicate_add, List.flatten_append]
  rfl

theorem Site.repeated_zero (site : Site) (file : String) : site.repeated file 0 = [] := rfl

theorem Layout.expansions_append (l : Layout) (trace trace' : List String) (file : String) :
    l.expansions (trace ++ trace') file = l.expansions trace file + l.expansions trace' file :=
  List.countP_append

theorem Layout.expansions_cons (l : Layout) (name : String) (trace : List String) (file : String) :
    l.expansions (name :: trace) file =
      (l.groupFile name).occurrences file + l.expansions trace file := by
  rw [expansions, List.countP_cons, Path.occurrences, Nat.add_comm]
  simp [expansions]

/-- A file that no group of a trace has is not expanded. -/
theorem Layout.expansions_eq_zero {l : Layout} {trace : List String}
    (h : ∀ name ∈ trace, (l.groupFile name).toString ≠ file) : l.expansions trace file = 0 := by
  rw [expansions, List.countP_eq_zero]
  simpa using h

/-- The file of a group has a readable path. -/
theorem Layout.readable_groupFile {l : Layout} (h : l.root.Normal) (name : String) :
    (l.groupFile name).Readable := (h.readable.child _).child _

/-- The file of a host has a readable path. -/
theorem Layout.readable_hostFile {l : Layout} (h : l.root.Normal) (host : String) :
    (l.hostFile host).Readable := (h.readable.child _).child _

/-- The file at a readable path is flawed as its document is. -/
theorem Site.flaws_of_readable {document : Document} (hpath : path.Readable)
    (h : site.document path = .ok document) :
    (if path.toString = file then document.flaws else []) =
      site.repeated file (path.occurrences file) := by
  unfold Path.occurrences
  by_cases hfile : path.toString = file
  · subst hfile
    have hflaws : site.flawsOf path.toString = document.flaws := by
      rw [flawsOf, hpath.ofString_toString, h]
    rw [if_pos rfl, if_pos rfl, repeated, List.replicate_one, List.flatten_singleton, hflaws]
  · rw [if_neg hfile, if_neg hfile, repeated_zero]

/-- No group in the trace of a document has the document's own file. -/
theorem Unfolds.groupFile_ne {document : Document} {trace : List String}
    (hroot : site.layout.root.Normal) (hpath : path.Readable)
    (h : Unfolds site document.groups trace) (hdocument : site.document path = .ok document) :
    ∀ name ∈ trace, (site.layout.groupFile name).toString ≠ path.toString := by
  intro name hname htext
  have hsame := congrArg Path.ofString htext
  rw [(Layout.readable_groupFile hroot name).ofString_toString, hpath.ofString_toString] at hsame
  exact h.notMem_of_document (hsame ▸ hdocument) hname

/-- The statements of the document at a path are warned of there. -/
theorem Site.flawed_of_document {document : Document} (h : site.document path = .ok document) :
    ∀ s ∈ document.body, s.origin.file = path.toString ∧ s.warnings = s.flaws := by
  intro s hs
  obtain ⟨-, -, -, hfile, -⟩ := Site.place_of_statement h hs
  exact ⟨hfile, Site.warnings_of_statement h hs⟩

/-- Entering a group is no warning. -/
theorem Run.tellsMore_warned_into (run : Run) (l : Layout) (name file : String) :
    TellsMore (Notice.warned? file) run.journal (run.into l name).journal [] := by
  have hnone : Notice.warned? file (l.entered name) = none :=
    Notice.warned?_of_level debug_ne_warning
  have htold := run.tellsMore_into (Notice.warned? file) l name
  rwa [← Layout.entered, hnone] at htold

/-- Leaving a group with a result is no warning. -/
theorem Run.tellsMore_warned_absorb (run : Run) (name file : String) (r inner : Resolution) :
    TellsMore (Notice.warned? file) run.journal (run.absorb name r inner).journal [] := by
  have hmerged : ∀ package other, Notice.warned? file (.entryMerged package other) = none :=
    fun _ _ => Notice.warned?_of_level debug_ne_warning
  have hnone : Notice.warned? file (.groupLeft name inner.entries.length) = none :=
    Notice.warned?_of_level debug_ne_warning
  have htold := run.tellsMore_absorb hmerged name r inner
  rwa [hnone] at htold

/-- A statement of the file at a path warns of its flaws. -/
theorem Run.tellsMore_warned_warnAll (run : Run) {s : Statement}
    (hs : s.origin.file = path.toString ∧ s.warnings = s.flaws) :
    TellsMore (Notice.warned? file) run.journal (run.warnAll s.origin.file s.warnings).journal
      (if path.toString = file then s.flaws else []) := by
  have htold := tellsMore_of_warnAll (Notice.warned? file) run.journal s.origin.file s.warnings
  rw [filterMap_warned?] at htold
  rwa [← hs.1, ← hs.2]

/-- The rest of a body that resolves warns of its own flaws, and of the groups in its trace. -/
theorem Resolves.tellsMore_warned {source : Provenance} {body : List Statement}
    {r final : Resolution} {run after : Run} {trace : List String} (hroot : site.layout.root.Normal)
    (h : Resolves site source body r run (.ok final) after)
    (hbody : ∀ s ∈ body, s.origin.file = path.toString ∧ s.warnings = s.flaws)
    (htrace : Unfolds site (groupsOf body) trace)
    (hapart : ∀ name ∈ trace, (site.layout.groupFile name).toString ≠ path.toString)
    (file : String) :
    TellsMore (Notice.warned? file) run.journal after.journal
      ((if path.toString = file then body.flatMap Statement.flaws else []) ++
        site.repeated file (site.layout.expansions trace file)) := by
  induction h using Resolves.ok_induction generalizing path trace with
  | done =>
    cases htrace
    simpa [Layout.expansions, Site.repeated] using tellsMore_of_eq rfl
  | @declare _ s rest _ _ _ run _ hform _ _ ih =>
    obtain ⟨hfirst, hothers⟩ := List.forall_mem_cons.mp hbody
    rw [groupsOf_cons_of_none hform] at htrace
    have hwhole := (run.tellsMore_warned_warnAll hfirst).trans (ih hothers htrace hapart)
    by_cases hhere : path.toString = file
    · simpa only [if_pos hhere, List.flatMap_cons, List.append_assoc] using hwhole
    · simpa only [if_neg hhere, List.nil_append] using hwhole
  | @expand _ s rest r inner _ run inside _ name document hform _ hdocument _ _ ihinner ihrest =>
    rw [groupsOf_cons_of_some hform] at htrace
    cases htrace with
    | @cons _ _ within trace document' hdocument' hinner hpending =>
      cases hdocument.symm.trans hdocument'
      have hreadable := Layout.readable_groupFile hroot name
      obtain ⟨-, hothers⟩ := List.forall_mem_cons.mp hbody
      obtain ⟨hname, hapart⟩ := List.forall_mem_cons.mp hapart
      obtain ⟨hwithin, htrace⟩ := List.forall_mem_append.mp hapart
      have hgroup := ihinner (site.flawed_of_document hdocument) hinner
        (hinner.groupFile_ne hroot hreadable hdocument)
      have hown : (if (site.layout.groupFile name).toString = file then
          document.body.flatMap Statement.flaws else []) = _ :=
        Site.flaws_of_readable hreadable hdocument
      rw [hown, ← Site.repeated_add] at hgroup
      have hentered := run.tellsMore_warned_into site.layout name file
      have hleft := (inside.leave name).tellsMore_warned_absorb name file r inner
      have hwhole := ((hentered.trans hgroup).trans hleft).trans (ihrest hothers hpending htrace)
      rw [List.nil_append, List.append_nil] at hwhole
      rw [List.flatMap_cons, Statement.flaws_of_group hform, List.nil_append, List.cons_append,
        Layout.expansions_cons, Layout.expansions_append, ← Nat.add_assoc]
      by_cases hhere : path.toString = file
      · have hnone : (site.layout.groupFile name).occurrences file +
            site.layout.expansions within file = 0 := by
          subst hhere
          rw [Layout.expansions_eq_zero hwithin, Path.occurrences, if_neg hname]
        rw [hnone, Site.repeated_zero, List.nil_append] at hwhole
        rwa [hnone, Nat.zero_add]
      · rw [if_neg hhere, List.nil_append] at hwhole ⊢
        rwa [Site.repeated_add]

/-- Nothing is opened and nothing warned of. -/
theorem Site.warnsAlong_of_eq (hopened : openedIn after = openedIn journal)
    (htold : ∀ file, toldIn after (Notice.warned? file) = toldIn journal (Notice.warned? file)) :
    site.WarnsAlong journal after :=
  ⟨[], by simp [hopened], fun file => tellsMore_of_eq (htold file)⟩

/-- What is opened first is warned of first. -/
theorem Site.WarnsAlong.trans (h : site.WarnsAlong journal middle)
    (h' : site.WarnsAlong middle after) : site.WarnsAlong journal after := by
  obtain ⟨opened, hopened, htold⟩ := h
  obtain ⟨later, hlater, htold'⟩ := h'
  refine ⟨opened ++ later, ?_, fun file => ?_⟩
  · rw [hlater, hopened, Option.map_map]
    congr 1
    funext before
    exact List.append_assoc _ _ _
  · rw [List.countP_append, repeated_add]
    exact (htold file).trans (htold' file)

/-- The notices of a file and of the groups in a trace are about that file and about the groups'
files. -/
theorem countP_opened (l : Layout) (path : Path) (kind : SourceKind) (trace : List String)
    (file : String) :
    (Notice.fileLoaded path.toString kind :: trace.map l.entered).countP
        (fun n => n.sourceFile? = some file) = path.occurrences file + l.expansions trace file := by
  rw [List.countP_cons, List.countP_map, Path.occurrences, Nat.add_comm, Layout.expansions]
  simp only [Function.comp_def, Layout.entered, Notice.sourceFile?_fileLoaded,
    Notice.sourceFile?_groupEntered, Option.some.injEq, decide_eq_true_eq]

/-- A file that resolves is warned of, and its groups are. -/
theorem Site.warnsAlong_of_resolveFile {r : Resolution} (hroot : site.layout.root.Normal)
    (hpath : path.Readable) (h : site.resolveFile path kind journal = (.ok r, after)) :
    site.WarnsAlong journal after := by
  obtain ⟨document, hdocument⟩ := site.exists_document_of_resolveFile h
  obtain ⟨trace, htrace, -, hopened⟩ := site.opened_of_resolveFile h
  obtain ⟨run, hresolves, rfl⟩ := site.resolves_of_resolveFile hdocument h
  rw [site.groupsOfFile_of_document hdocument] at htrace
  refine ⟨_, hopened, fun file => ?_⟩
  have hloaded : TellsMore (Notice.warned? file) journal
      (journal.map (·.log (.fileLoaded path.toString kind))) [] := by
    have hnone : Notice.warned? file (.fileLoaded path.toString kind) = none :=
      Notice.warned?_of_level info_ne_warning
    have htold := tellsMore_log (Notice.warned? file) journal (.fileLoaded path.toString kind)
    rwa [hnone] at htold
  have htold := hresolves.tellsMore_warned hroot (site.flawed_of_document hdocument)
    htrace (htrace.groupFile_ne hroot hpath hdocument) file
  have hown : (if path.toString = file then document.body.flatMap Statement.flaws else []) = _ :=
    Site.flaws_of_readable hpath hdocument
  rw [hown, ← repeated_add] at htold
  rw [countP_opened]
  exact hloaded.trans htold

/-- A host that resolves warns of its file if there is one, and of the groups of that. -/
theorem Site.warnsAlong_of_resolveHost {r : Resolution} (hroot : site.layout.root.Normal)
    (h : site.resolveHost host journal = (.ok r, after)) : site.WarnsAlong journal after := by
  cases htree : site.tree.contains (site.layout.hostFile host) with
  | true =>
    rw [site.resolveHost_of_contains htree] at h
    exact Site.warnsAlong_of_resolveFile hroot (Layout.readable_hostFile hroot host) h
  | false =>
    rw [site.resolveHost_of_not_contains htree, Prod.mk.injEq] at h
    obtain ⟨-, rfl⟩ := h
    apply Site.warnsAlong_of_eq
    · rw [openedIn_eq_toldIn, tellsMore_log, ← openedIn_eq_toldIn]
      simp [Option.guard, Notice.opensFile]
    · intro file
      have hnone : Notice.warned? file (.hostAbsent (site.layout.hostFile host).toString) = none :=
        Notice.warned?_of_level info_ne_warning
      rw [tellsMore_log, hnone]
      simp

/-- A load that succeeds warns of what it opens. -/
theorem Site.warnsAlong_of_load {config : Config} (hroot : site.layout.root.Normal)
    (h : site.load host journal = (.ok config, after)) : site.WarnsAlong journal after := by
  obtain ⟨main, inner, middle, last, hmain, hhost, -, rfl⟩ := site.load_eq_ok h
  have hidentified : site.WarnsAlong journal (journal.map (·.identify host)) := by
    apply Site.warnsAlong_of_eq
    · cases journal <;> rfl
    · exact fun file => toldIn_identify journal host
  have hmerged : site.WarnsAlong last
      (last.map (·.logAll (mergeNotices main.entries inner.entries))) := by
    apply Site.warnsAlong_of_eq
    · rw [openedIn_eq_toldIn, toldIn_mergeNotices isCoarse_opensFile.entryMerged,
        ← openedIn_eq_toldIn]
    · intro file
      exact toldIn_mergeNotices (fun _ _ => Notice.warned?_of_level debug_ne_warning) last _ _
  have hread := Site.warnsAlong_of_resolveFile hroot (hroot.readable.child "main.owl") hmain
  have hhost := Site.warnsAlong_of_resolveHost hroot hhost
  exact ((hidentified.trans hread).trans hhost).trans hmerged

/-- However the resolution of a file ends, the journal is in step. -/
theorem Site.inStepIn_of_resolveFile {outcome : Except Failure Resolution}
    (hjournal : InStepIn journal) (h : site.resolveFile path kind journal = (outcome, after)) :
    InStepIn after := by
  cases hdocument : site.document path with
  | error p =>
    rw [site.resolveFile_of_document_eq_error hdocument] at h
    cases h
    exact hjournal
  | ok document =>
    obtain ⟨run, hresolves, rfl⟩ := site.resolves_of_resolveFile hdocument h
    exact hresolves.inStepIn (hjournal.map fun _ hj => hj.log info_ne_warning)

/-- However a load ends, the journal is in step. -/
theorem Site.inStepIn_of_load {outcome : Except Failure Config} (hjournal : InStepIn journal)
    (h : site.load host journal = (outcome, after)) : InStepIn after := by
  have hidentified : InStepIn (journal.map (·.identify host)) :=
    hjournal.map fun _ hj => hj.identify host
  cases outcome with
  | ok config =>
    obtain ⟨main, inner, middle, last, hmain, hhost, -, rfl⟩ := site.load_eq_ok h
    have hmiddle := site.inStepIn_of_resolveFile hidentified hmain
    have hlast : InStepIn last := by
      cases htree : site.tree.contains (site.layout.hostFile host) with
      | true =>
        rw [site.resolveHost_of_contains htree] at hhost
        exact site.inStepIn_of_resolveFile hmiddle hhost
      | false =>
        rw [site.resolveHost_of_not_contains htree, Prod.mk.injEq] at hhost
        obtain ⟨-, rfl⟩ := hhost
        exact hmiddle.map fun _ hj => hj.log info_ne_warning
    exact hlast.map fun _ hj => hj.mergeNotices main.entries inner.entries
  | error failure =>
    rcases site.load_eq_error h with ⟨-, -, rfl⟩ | ⟨-, hmain⟩ | ⟨main, middle, hmain, -, hhost⟩
    · exact hidentified
    · exact site.inStepIn_of_resolveFile hidentified hmain
    · exact site.inStepIn_of_resolveFile (site.inStepIn_of_resolveFile hidentified hmain) hhost

/-- The journal of a load that begins with an empty one holds the warnings about each file by file
and among its events alike, and if the load succeeds, these are what there is to warn of in the
file, as often as it is opened. -/
theorem Site.tellsWarnings_load (site : Site) (hroot : site.layout.root.Normal) (host : String)
    (known : Option String) :
    ∃ final, (site.load host (some { host := known })).2 = some final ∧
      site.TellsWarnings (site.load host (some { host := known })).1 final := by
  rcases hload : site.load host (some { host := known }) with ⟨outcome, after⟩
  obtain ⟨final, rfl, hstep⟩ := site.inStepIn_of_load ⟨_, rfl, Journal.inStep_empty known⟩ hload
  refine ⟨final, rfl, hstep, ?_⟩
  rintro config rfl file
  obtain ⟨opened, hopened, htold⟩ := Site.warnsAlong_of_load hroot hload
  have hfinal : final.opened = opened := Option.some.inj hopened
  have hwarned : final.warned file = _ := Option.some.inj (htold file)
  rw [← hstep.texts_eq, hwarned, Journal.openings, hfinal]
  rfl

/-- A group that is expanded twice warns twice, between the warnings of the including file. -/
theorem Site.tellsWarnings_load_twice :
    let site := Site.ofTexts "/owl" [
      ("/owl/main.owl",
        "@package p\n!setup a\n@group g\n:service s [k=1, mask=true, k=2]\n@group g\n"),
      ("/owl/groups/g.owl", "@package q\n!setup b\n")]
    site.layout.root.Normal ∧ ∃ final, (site.load "box" (some {})).2 = some final ∧
      site.TellsWarnings (site.load "box" (some {})).1 final ∧ final.warnings = [
        ("/owl/main.owl", ["line 2: '!setup' is deprecated, use ':script' instead",
          "line 4: unknown service property 'k' ignored"]),
        ("/owl/groups/g.owl", ["line 2: '!setup' is deprecated, use ':script' instead",
          "line 2: '!setup' is deprecated, use ':script' instead"])] := by
  intro site
  have hroot : site.layout.root.Normal := ⟨by decide, by decide⟩
  obtain ⟨final, hfinal, htells⟩ := site.tellsWarnings_load hroot "box" none
  refine ⟨hroot, final, hfinal, htells, ?_⟩
  have hwarnings : (site.load "box" (some {})).2.map (·.warnings) = some [
      ("/owl/main.owl", ["line 2: '!setup' is deprecated, use ':script' instead",
        "line 4: unknown service property 'k' ignored"]),
      ("/owl/groups/g.owl", ["line 2: '!setup' is deprecated, use ':script' instead",
        "line 2: '!setup' is deprecated, use ':script' instead"])] := by decide +kernel
  rw [hfinal] at hwarnings
  exact Option.some.inj hwarnings

end HostConfig
