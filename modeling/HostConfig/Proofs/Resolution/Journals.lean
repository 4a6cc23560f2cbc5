import HostConfig.Proofs.Journal.Continuation
import HostConfig.Proofs.Resolution.Depth

/-!
# Resolving with another journal

A resolution records things and never reads them. So with a related journal, or with none, the same
statements are carried out and the same groups are expanded, the outcome is the same, and the
journals are related again.
-/

namespace HostConfig

/-- Two runs expand the same groups, and their journals are related. -/
structure Run.Alike (R : Option Journal → Option Journal → Prop) (run run' : Run) : Prop where
  active_eq : run'.active = run.active
  journals : R run.journal run'.journal

variable {R : Option Journal → Option Journal → Prop} {run run' : Run}

namespace Run.Alike

theorem log (hR : KeptByRecording R) (h : run.Alike R run') (n : Notice) :
    (run.log n).Alike R (run'.log n) := ⟨h.active_eq, hR.log n h.journals⟩

theorem logAll (hR : KeptByRecording R) (h : run.Alike R run') (ns : List Notice) :
    (run.logAll ns).Alike R (run'.logAll ns) := ⟨h.active_eq, hR.logAll ns h.journals⟩

theorem warnAll (hR : KeptByRecording R) (h : run.Alike R run') (file : String)
    (texts : List String) : (run.warnAll file texts).Alike R (run'.warnAll file texts) :=
  ⟨h.active_eq, hR.warnAll file texts h.journals⟩

theorem into (hR : KeptByRecording R) (h : run.Alike R run') (l : Layout) (name : String) :
    (run.into l name).Alike R (run'.into l name) :=
  ⟨congrArg (name :: ·) h.active_eq, hR.log _ h.journals⟩

theorem leave (h : run.Alike R run') (name : String) :
    (run.leave name).Alike R (run'.leave name) :=
  ⟨congrArg (List.filter (· ≠ name)) h.active_eq, h.journals⟩

theorem absorb (hR : KeptByRecording R) (h : run.Alike R run') (name : String)
    (r inner : Resolution) : (run.absorb name r inner).Alike R (run'.absorb name r inner) :=
  (h.logAll hR (mergeNotices r.entries inner.entries)).log hR _

end Run.Alike

variable {site : Site} {source : Provenance}

/-- From an alike run on a body has the same outcome, and ends with an alike run. -/
theorem Resolves.exists_alike {body : List Statement} {r : Resolution} {after : Run}
    {outcome : Except Failure Resolution} (hR : KeptByRecording R)
    (h : Resolves site source body r run outcome after) (hrun : run.Alike R run') :
    ∃ after', Resolves site source body r run' outcome after' ∧ after.Alike R after' := by
  induction h generalizing run' with
  | done => exact ⟨run', .done, hrun⟩
  | @declare _ s _ _ _ _ _ _ hform hdeclare _ ih =>
    obtain ⟨after', hrest, hafter⟩ := ih (hrun.warnAll hR s.origin.file s.warnings)
    exact ⟨after', .declare hform hdeclare hrest, hafter⟩
  | reject hform hdeclare => exact ⟨_, .reject hform hdeclare, hrun.warnAll hR _ _⟩
  | cycle hform hactive =>
    exact ⟨run', .cycle hform (hrun.active_eq ▸ hactive), hrun⟩
  | missing hform hactive htree =>
    exact ⟨run', .missing hform (hrun.active_eq ▸ hactive) htree, hrun⟩
  | @unread _ _ _ _ _ name _ hform hactive htree hdocument =>
    exact ⟨_, .unread hform (hrun.active_eq ▸ hactive) htree hdocument,
      (hrun.into hR site.layout name).leave name⟩
  | @fail _ _ _ _ _ _ name _ _ hform hactive hdocument _ ih =>
    obtain ⟨inside', hinner, hinside⟩ := ih (hrun.into hR site.layout name)
    exact ⟨_, .fail hform (hrun.active_eq ▸ hactive) hdocument hinner, hinside.leave name⟩
  | @expand _ _ _ r inner _ _ _ name _ _ hform hactive hdocument _ _ ihinner ihrest =>
    obtain ⟨inside', hinner, hinside⟩ := ihinner (hrun.into hR site.layout name)
    obtain ⟨after', hrest, hafter⟩ := ihrest ((hinside.leave name).absorb hR name r inner)
    exact ⟨after', .expand hform (hrun.active_eq ▸ hactive) hdocument hinner hrest, hafter⟩

/-- From an alike run on a document has the same outcome, and ends with an alike run. -/
theorem resolve_alike {document : Document} (hR : KeptByRecording R) (hrun : run.Alike R run') :
    (resolve site source document run').1 = (resolve site source document run).1 ∧
      (resolve site source document run).2.Alike R (resolve site source document run').2 := by
  obtain ⟨after', hresolves, hafter⟩ :=
    (resolves_resolve site source document run).exists_alike hR hrun
  rw [resolve_eq_iff.mpr hresolves]
  exact ⟨rfl, hafter⟩

end HostConfig
