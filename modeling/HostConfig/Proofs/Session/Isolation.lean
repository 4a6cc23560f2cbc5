import HostConfig.Proofs.Load.Agreement
import HostConfig.Proofs.Load.Journals
import HostConfig.Session

/-!
# Requests are answered in isolation

Whatever a session has been asked before and whatever its journal holds, a request about
configurations is answered as if it were the first one, with no journal, over the tree that the
writes and removals so far have left. The journal grows by what an empty one would have been given.
-/

namespace HostConfig

/-- The tree after a request. -/
def Request.edit (tree : FileTree) : Request → FileTree
  | .write path content => tree.insert path content
  | .remove path => tree.erase path
  | .resolve _ | .load _ | .relevant _ | .entry _ | .dump _ => tree

/-- The tree after some requests, one after the other. -/
def FileTree.edited (tree : FileTree) (requests : List Request) : FileTree :=
  requests.foldl Request.edit tree

namespace Session

/-- The session after some requests, one after the other. -/
def after (s : Session) (requests : List Request) : Session :=
  requests.foldl (fun s request => (s.answer request).2) s

/-- The session with a journal that knows the same host and holds nothing. -/
def unrecorded (s : Session) : Session := { s with journal := { host := s.journal.host } }

/-- A session answers a request as if a site had been asked for the first time, and only adds to
its journal. -/
structure AnswersAfresh (s : Session) (site : Site) (request : Request) : Prop where
  resolve_eq : ∀ host, request = .resolve host →
    (s.answer request).1 = .config (site.resolveConfig host none).1
  load_eq : ∀ host, request = .load host →
    (s.answer request).1 = .config (site.load host none).1
  relevant_eq : ∀ host, request = .relevant host →
    (s.answer request).1 = .files (relevantFiles site.tree site.layout host)
  /-- The journal goes on by what an empty one that knows the same host is given. -/
  continues : (s.answer request).2.journal.Continues s.journal
    (s.unrecorded.answer request).2.journal
  host_eq : ∀ host, s.journal.host = some host → (s.answer request).2.journal.host = some host

variable {s : Session}

/-- A request changes nothing of a site but the tree, and the tree only by what it asks for. -/
theorem site_answer (s : Session) (request : Request) :
    (s.answer request).2.site = s.site.withTree (request.edit s.site.tree) := by
  have hkept : ∀ run : Except Failure Config × Option Journal,
      (s.withOutcome run).2.site = s.site := by
    rintro ⟨failure | config, journal⟩ <;> rfl
  cases request with
  | resolve host | load host => exact hkept _
  | write path content | remove path | relevant host | entry package | dump format => rfl

/-- After some requests a session stands on the tree that these leave. -/
theorem site_after (s : Session) (requests : List Request) :
    (s.after requests).site = s.site.withTree (s.site.tree.edited requests) := by
  induction requests generalizing s with
  | nil => rfl
  | cons request rest ih =>
    change ((s.answer request).2.after rest).site = _
    rw [ih, site_answer]
    rfl

/-- An outcome is answered as it is. -/
theorem answer_withOutcome (s : Session) (run : Except Failure Config × Option Journal) :
    (s.withOutcome run).1 = .config run.1 := by
  rcases run with ⟨failure | config, journal⟩ <;> rfl

/-- The journal that comes with an outcome is kept. -/
theorem journal_withOutcome (s : Session) (run : Except Failure Config × Option Journal) :
    (s.withOutcome run).2.journal = run.2.getD s.journal := by
  rcases run with ⟨failure | config, journal⟩ <;> rfl

/-- If an outcome comes with a journal that continues the one at hand, then so does the journal of
the session with that outcome. -/
theorem continues_withOutcome {run run' : Except Failure Config × Option Journal}
    (h : AlikeAnswers s.journal.ContinuedBy run' run) :
    (s.withOutcome run).2.journal.Continues s.journal (s.unrecorded.withOutcome run').2.journal := by
  obtain ⟨later, whole, hlater, hwhole, hcontinues⟩ := h.journals
  rw [journal_withOutcome, journal_withOutcome, hlater, hwhole]
  exact hcontinues

/-- If an outcome comes with a journal that knows a host, then the session with that outcome does. -/
theorem host_withOutcome {run run' : Except Failure Config × Option Journal} {host : String}
    (h : AlikeAnswers (Journal.KnownIn host) run run') :
    (s.withOutcome run).2.journal.host = some host := by
  obtain ⟨j, hj, hhost⟩ := h.journals
  rw [journal_withOutcome, hj]
  exact hhost

/-- A request is answered as if a site had been asked for the first time. -/
theorem answersAfresh (s : Session) (request : Request) : s.AnswersAfresh s.site request where
  resolve_eq := by
    rintro host rfl
    have hunkept : IsUnkept (some s.journal) none := rfl
    have halike := s.site.resolveConfig_alike keptByRecording_isUnkept host hunkept
    exact (s.answer_withOutcome _).trans (congrArg _ halike.outcome_eq.symm)
  load_eq := by
    rintro host rfl
    have hunkept : IsUnkept (some s.journal) none := rfl
    have halike := s.site.load_alike keptByRecording_isUnkept host hunkept
    exact (s.answer_withOutcome _).trans (congrArg _ halike.outcome_eq.symm)
  relevant_eq := by
    rintro host rfl
    rfl
  continues := by
    have hR := s.journal.keptByRecording_continuedBy
    have hempty : s.journal.ContinuedBy (some s.unrecorded.journal) (some s.journal) :=
      ⟨_, _, rfl, rfl, s.journal.continues_empty⟩
    cases request with
    | resolve host => exact continues_withOutcome (s.site.resolveConfig_alike hR host hempty)
    | load host => exact continues_withOutcome (s.site.load_alike hR host hempty)
    | write | remove | relevant | entry | dump => exact s.journal.continues_empty
  host_eq := by
    intro host hhost
    have hR := Journal.keptByRecording_knownIn host
    have hknown : Journal.KnownIn host (some s.journal) (some s.journal) := ⟨_, rfl, hhost⟩
    cases request with
    | resolve other => exact host_withOutcome (s.site.resolveConfig_alike hR other hknown)
    | load other => exact host_withOutcome (s.site.load_alike hR other hknown)
    | write | remove | relevant | entry | dump => exact hhost

/-- After any requests, a request is answered as if a site over the tree that they have left had been
asked for the first time, and adds to the journal what it would add to one that holds nothing. -/
theorem answersAfresh_after (s : Session) (requests : List Request) (request : Request) :
    (s.after requests).AnswersAfresh (s.site.withTree (s.site.tree.edited requests)) request := by
  rw [← site_after]
  exact (s.after requests).answersAfresh request

end Session

end HostConfig
