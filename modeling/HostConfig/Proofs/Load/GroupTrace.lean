import HostConfig.Proofs.Journal.Bracket
import HostConfig.Proofs.Journal.Telling
import HostConfig.Proofs.Load.Yield
import HostConfig.Proofs.Resolution.Unfolding

/-!
# Groups entered and left by a load

The journal of a load tells which groups are entered and left. A load that succeeds leaves what it
enters, the innermost group first. One that fails stops inside of the groups that are still open; each
of them is included by the file of the one before it, and the problem is in the file of the last one.
While a file is resolved, the open groups are the active ones, which is the invariant.
-/

namespace HostConfig

/-- The brackets of a journal. -/
def Journal.brackets (j : Journal) : List Bracket := j.told Notice.bracket?

/-- The file at a path includes the first group, and the file of each group the next one. -/
def Site.IncludesAlong (site : Site) : Path → List String → Prop
  | _, [] => True
  | path, name :: rest => site.Includes path name ∧ site.IncludesAlong (site.layout.groupFile name) rest

/-- The file of the last one of some groups, or the file at a path if there are none. -/
def Layout.innermostFile (l : Layout) : Path → List String → Path
  | path, [] => path
  | _, name :: rest => l.innermostFile (l.groupFile name) rest

/-- A failure to resolve the file at a path is met inside of groups, the outermost one first. -/
structure Site.StopsIn (site : Site) (path : Path) (groups : List String) (failure : Failure) :
    Prop where
  includesAlong : site.IncludesAlong path groups
  exists_problem : ∃ p, failure = .problem p ∧
    p.origin.file = (site.layout.innermostFile path groups).toString

/-- Brackets fit to the outcome of the file at a path, given the groups that are open before them. -/
def Site.Traces {α : Type} (site : Site) (path : Path) (active : List String)
    (trace : List Bracket) : Except Failure α → Prop
  | .ok _ => openAfter active trace = some active
  | .error failure => ∃ groups, openAfter active trace = some (groups.reverse ++ active) ∧
      site.StopsIn path groups failure

/-- The file that a load resolves when it fails: the main file, or that of the host once the main
file has been resolved. -/
def Site.FailsAt (site : Site) (host : String) (path : Path) : Prop :=
  (path = site.layout.mainFile ∧ ¬ ∃ r, site.FileYields site.layout.mainFile .main r) ∨
    (path = site.layout.hostFile host ∧ ∃ r, site.FileYields site.layout.mainFile .main r)

/-- Brackets fit to the outcome of a load: they are balanced if it succeeds, and otherwise they begin
a balanced trace, and those groups are open that the load stops in. -/
def Site.TracesLoad (site : Site) (host : String) (trace : List Bracket) :
    Except Failure Config → Prop
  | .ok _ => Balanced trace
  | .error failure => ∃ path groups, site.FailsAt host path ∧ site.StopsIn path groups failure ∧
      openAfter [] trace = some groups.reverse ∧ ∃ more, Balanced (trace ++ more)

variable {site : Site} {path : Path} {kind : SourceKind} {host : String}
  {journal after : Option Journal} {active : List String} {trace : List Bracket}

/-- Warnings and merged entries are no brackets. -/
theorem Notice.isCoarse_bracket? : IsCoarse Notice.bracket? where
  warning _ _ := rfl
  entryMerged _ _ := rfl

/-- A problem in the file at hand is met outside of all further groups. -/
theorem Site.stopsIn_nil {p : Problem} (h : p.origin.file = path.toString) :
    site.StopsIn path [] (.problem p) where
  includesAlong := trivial
  exists_problem := ⟨p, rfl, h⟩

/-- A problem that is met inside of an included group's file is met inside of that group. -/
theorem Site.StopsIn.cons {name : String} {groups : List String} {failure : Failure}
    (h : site.StopsIn (site.layout.groupFile name) groups failure) (hname : site.Includes path name) :
    site.StopsIn path (name :: groups) failure where
  includesAlong := ⟨hname, h.includesAlong⟩
  exists_problem := h.exists_problem

/-- Without a document a problem names the file. -/
theorem Site.file_of_document_eq_error {p : Problem} (h : site.document path = .error p) :
    p.origin.file = path.toString := by
  obtain ⟨reason, rfl⟩ | ⟨text, -, hfile, -⟩ := Site.problem_of_document h
  · rfl
  · exact hfile

/-- Brackets that close what they open can stand before others. -/
theorem Site.Traces.append {α : Type} {outcome : Except Failure α} {later : List Bracket}
    (h : site.Traces path active later outcome) (htrace : openAfter active trace = some active) :
    site.Traces path active (trace ++ later) outcome := by
  have hlater : openAfter active (trace ++ later) = openAfter active later := by
    rw [openAfter_append, htrace, Option.bind_some]
  cases outcome with
  | ok _ => exact hlater.trans h
  | error failure =>
    obtain ⟨groups, hopen, hstops⟩ := h
    exact ⟨groups, hlater.trans hopen, hstops⟩

/-- What a resolution tells of groups fits to its outcome, the active groups being open. -/
theorem Resolves.exists_traces {source : Provenance} {body : List Statement} {r : Resolution}
    {run after : Run} {outcome : Except Failure Resolution} {document : Document}
    (h : Resolves site source body r run outcome after) (hdocument : site.document path = .ok document)
    (hbody : ∀ s ∈ body, s ∈ document.body) :
    ∃ trace, TellsMore Notice.bracket? run.journal after.journal trace ∧
      site.Traces path run.active trace outcome := by
  induction h generalizing path document with
  | done => exact ⟨[], tellsMore_of_eq rfl, rfl⟩
  | @declare _ s _ _ _ run _ _ _ _ _ ih =>
    obtain ⟨trace, htold, htraces⟩ := ih hdocument fun s hs => hbody s (List.mem_cons_of_mem _ hs)
    have hwarned := run.tellsMore_warnAll Notice.isCoarse_bracket? s.origin.file s.warnings
    exact ⟨trace, hwarned.trans htold, htraces⟩
  | @reject _ s _ _ run _ _ hdeclare =>
    obtain ⟨hfilled, -, -, hfile, -⟩ := Site.place_of_statement hdocument (hbody s List.mem_cons_self)
    have hwarned := run.tellsMore_warnAll Notice.isCoarse_bracket? s.origin.file s.warnings
    obtain ⟨hblank, -⟩ | ⟨_, _, _, cause, -, -, rfl⟩ := Resolution.declare_eq_error hdeclare
    · exact absurd hblank hfilled
    · exact ⟨[], hwarned, [], rfl, Site.stopsIn_nil hfile⟩
  | @cycle _ s | @missing _ s =>
    obtain ⟨-, -, -, hfile, -⟩ := Site.place_of_statement hdocument (hbody s List.mem_cons_self)
    exact ⟨[], tellsMore_of_eq rfl, [], rfl, Site.stopsIn_nil hfile⟩
  | @unread _ _ _ _ run name p hform hactive _ herror =>
    have hincludes := Site.includes_of_mem hdocument (hbody _ List.mem_cons_self) hform
    have hstops : site.StopsIn (site.layout.groupFile name) [] (.problem p) :=
      Site.stopsIn_nil (site.file_of_document_eq_error herror)
    exact ⟨[.opens name], run.tellsMore_into Notice.bracket? site.layout name, [name],
      openAfter_opens hactive [], hstops.cons hincludes⟩
  | @fail _ _ _ _ run _ name _ _ hform hactive hinside _ ih =>
    have hincludes := Site.includes_of_mem hdocument (hbody _ List.mem_cons_self) hform
    obtain ⟨trace, htold, groups, hopen, hstops⟩ := ih hinside fun _ hs => hs
    have hentered := run.tellsMore_into Notice.bracket? site.layout name
    refine ⟨.opens name :: trace, hentered.trans htold, name :: groups, ?_, hstops.cons hincludes⟩
    rw [openAfter_opens hactive, List.reverse_cons, List.append_assoc]
    exact hopen
  | @expand _ _ _ r inner run inside _ name _ _ hform hactive hinside hinner _ ihinner ihrest =>
    obtain ⟨trace, htold, hopen⟩ := ihinner hinside fun _ hs => hs
    obtain ⟨later, hlater, htraces⟩ := ihrest hdocument fun s hs => hbody s (List.mem_cons_of_mem _ hs)
    have hentered := run.tellsMore_into Notice.bracket? site.layout name
    have hleft := (inside.leave name).tellsMore_absorb Notice.isCoarse_bracket?.entryMerged name r inner
    have hgroup : openAfter run.active ([.opens name] ++ trace ++ [.closes name]) =
        some run.active := by
      have hwhole : openAfter (name :: run.active) trace = some (name :: run.active) := hopen
      rw [List.singleton_append, List.cons_append, openAfter_opens hactive, openAfter_append, hwhole]
      exact openAfter_closes name run.active []
    -- The group is not active any more, so that what comes later is told as if it came alone.
    have hsame := Run.active_leave hactive hinner.active_eq
    rw [Run.active_absorb, hsame] at htraces
    exact ⟨_, ((hentered.trans htold).trans hleft).trans hlater, htraces.append hgroup⟩

/-- What the resolution of a file tells of groups fits to its outcome. -/
theorem Site.exists_traces_of_resolveFile {outcome : Except Failure Resolution}
    (h : site.resolveFile path kind journal = (outcome, after)) :
    ∃ trace, TellsMore Notice.bracket? journal after trace ∧ site.Traces path [] trace outcome := by
  cases hdocument : site.document path with
  | error p =>
    rw [site.resolveFile_of_document_eq_error hdocument] at h
    cases h
    exact ⟨[], tellsMore_of_eq rfl, [], rfl,
      Site.stopsIn_nil (site.file_of_document_eq_error hdocument)⟩
  | ok document =>
    obtain ⟨run, hresolves, rfl⟩ := site.resolves_of_resolveFile hdocument h
    obtain ⟨trace, htold, htraces⟩ := hresolves.exists_traces hdocument fun _ hs => hs
    have hloaded := tellsMore_log Notice.bracket? journal (.fileLoaded path.toString kind)
    exact ⟨trace, hloaded.trans htold, htraces⟩

/-- What the resolution of a host tells of groups is balanced if it succeeds. -/
theorem Site.exists_trace_of_resolveHost {r : Resolution}
    (h : site.resolveHost host journal = (.ok r, after)) :
    ∃ trace, TellsMore Notice.bracket? journal after trace ∧ openAfter [] trace = some [] := by
  cases htree : site.tree.contains (site.layout.hostFile host) with
  | true =>
    rw [site.resolveHost_of_contains htree] at h
    exact Site.exists_traces_of_resolveFile h
  | false =>
    rw [site.resolveHost_of_not_contains htree, Prod.mk.injEq] at h
    obtain ⟨-, rfl⟩ := h
    exact ⟨[], tellsMore_log Notice.bracket? journal _, rfl⟩

/-- What is told of groups up to the failure of a file is told by the load that fails there. -/
theorem Site.Traces.tracesLoad {failure : Failure} (hfails : site.FailsAt host path)
    (h : site.Traces path [] trace (.error failure : Except Failure Resolution)) :
    site.TracesLoad host trace (.error failure) := by
  obtain ⟨groups, hopen, hstops⟩ := h
  rw [List.append_nil] at hopen
  exact ⟨path, groups, hfails, hstops, hopen, exists_balanced_append hopen⟩

/-- What a load tells of groups fits to its outcome. -/
theorem Site.exists_tracesLoad {outcome : Except Failure Config}
    (h : site.load host journal = (outcome, after)) :
    ∃ trace, TellsMore Notice.bracket? journal after trace ∧ site.TracesLoad host trace outcome := by
  have hidentified : TellsMore Notice.bracket? journal (journal.map (·.identify host)) [] :=
    tellsMore_of_eq (toldIn_identify journal host)
  cases outcome with
  | ok config =>
    obtain ⟨main, inner, middle, last, hmain, hhost, -, rfl⟩ := site.load_eq_ok h
    obtain ⟨trace, htold, hclosed⟩ := Site.exists_traces_of_resolveFile hmain
    obtain ⟨later, hlater, hclosed'⟩ := Site.exists_trace_of_resolveHost hhost
    have hmerged := tellsMore_of_eq
      (toldIn_mergeNotices Notice.isCoarse_bracket?.entryMerged last main.entries inner.entries)
    refine ⟨_, ((hidentified.trans htold).trans hlater).trans hmerged, balanced_of_openAfter ?_⟩
    rw [List.nil_append, List.append_nil, openAfter_append, hclosed, Option.bind_some, hclosed']
  | error failure =>
    rcases site.load_eq_error h with ⟨htree, rfl, rfl⟩ | ⟨-, hmain⟩ | ⟨main, middle, hmain, -, hhost⟩
    · have hfails : site.FailsAt host site.layout.mainFile := by
        refine Or.inl ⟨rfl, fun ⟨r, hyields⟩ => ?_⟩
        rw [hyields.contains] at htree
        cases htree
      exact ⟨[], hidentified, Site.Traces.tracesLoad hfails ⟨[], rfl, Site.stopsIn_nil rfl⟩⟩
    · have hfails : site.FailsAt host site.layout.mainFile :=
        Or.inl ⟨rfl, Site.not_fileYields_of_resolveFile hmain⟩
      obtain ⟨trace, htold, htraces⟩ := Site.exists_traces_of_resolveFile hmain
      exact ⟨trace, hidentified.trans htold, htraces.tracesLoad hfails⟩
    · have hyields := Site.resolveFile_eq_ok_iff.mp (congrArg Prod.fst hmain)
      have hfails : site.FailsAt host (site.layout.hostFile host) := Or.inr ⟨rfl, main, hyields⟩
      obtain ⟨trace, htold, hclosed⟩ := Site.exists_traces_of_resolveFile hmain
      obtain ⟨later, hlater, htraces⟩ := Site.exists_traces_of_resolveFile hhost
      exact ⟨trace ++ later, (hidentified.trans htold).trans hlater,
        (htraces.append hclosed).tracesLoad hfails⟩

/-- The journal of a load that begins with an empty one holds brackets that fit to its outcome. -/
theorem Site.tracesLoad_load (site : Site) (host : String) (known : Option String) :
    ∃ final, (site.load host (some { host := known })).2 = some final ∧
      site.TracesLoad host final.brackets (site.load host (some { host := known })).1 := by
  obtain ⟨trace, htold, htraces⟩ := site.exists_tracesLoad (Prod.ext rfl rfl :
    site.load host (some { host := known }) =
      ((site.load host (some { host := known })).1, (site.load host (some { host := known })).2))
  cases hafter : (site.load host (some { host := known })).2 with
  | none =>
    rw [hafter] at htold
    cases htold
  | some final =>
    rw [hafter] at htold
    have hfinal : final.brackets = trace := Option.some.inj htold
    exact ⟨final, rfl, hfinal ▸ htraces⟩

/-- A cycle is met inside of the groups that are a part of it. -/
example :
    let site := Site.ofTexts "/owl" [("/owl/main.owl", "@group c\n@group a\n"),
      ("/owl/groups/a.owl", "@group b\n"), ("/owl/groups/b.owl", "@group c\n@group a\n"),
      ("/owl/groups/c.owl", "@package p\n")]
    (site.load "box" (some {})).2.map (·.brackets) = some
      [.opens "c", .closes "c", .opens "a", .opens "b", .opens "c", .closes "c"] := by
  decide +kernel

end HostConfig
