import HostConfig.Proofs.Resolution.Termination

/-!
# Groups being expanded during a resolution

While the body of a document is being resolved, the groups being expanded are those from the
beginning and the open ones, each of which is included by the document of the one before it. Groups
that are left are no longer among them, so that at the end the groups from the beginning remain,
whatever the outcome is.
-/

namespace HostConfig

/-- A body is the rest of the document of the last one of the groups on a stack, each of these was
included by the document of the one before, and the first one by the document that the resolution is
of. -/
inductive Site.ReadsInside (site : Site) (source : Provenance) (document : Document) :
    List Waiting → Provenance → List Statement → Prop
  | outermost {body : List Statement} (hbody : body <:+ document.body) :
    site.ReadsInside source document [] source body
  | inside {top : Waiting} {stack : List Waiting} {s : Statement} {inner : Document}
      {body : List Statement} (hform : s.form.group? = some top.group)
      (hwaiting : site.ReadsInside source document stack top.source (s :: top.rest))
      (hdocument : site.document (site.layout.groupFile top.group) = .ok inner)
      (hbody : body <:+ inner.body) :
    site.ReadsInside source document (top :: stack) (site.layout.groupSource top.group) body

/-- The document that waits for the group on the top of a stack waits at the inclusion of it. -/
def Site.WaitsFor (site : Site) (source : Provenance) (document : Document) (top : Waiting)
    (stack : List Waiting) : Prop :=
  ∃ s : Statement, s.form.group? = some top.group ∧
    site.ReadsInside source document stack top.source (s :: top.rest)

/-- What is read at a moment is inside of the groups on the stack. -/
def Moment.IsInside (site : Site) (source : Provenance) (document : Document) : Moment → Prop
  | reading stack inner body _ _ => site.ReadsInside source document stack inner body
  | opening top stack _ => site.WaitsFor source document top stack
  | ended [] _ _ => True
  | ended (top :: stack) _ _ => site.WaitsFor source document top stack

/-- What it means that a resolution keeps track of the groups being expanded. -/
structure TracksActive (site : Site) (source : Provenance) (document : Document) (run : Run) :
    Prop where
  /-- The moments lead to the end, with the outcome and the run that are the answer. -/
  ends : site.ComesTo (.reading [] source document.body {} run)
    (.ended [] (resolve site source document run).1 (resolve site source document run).2)
  restores : (resolve site source document run).2.active = run.active
  /-- At every moment they are the open groups and those from the beginning. -/
  during : ∀ m, site.ComesTo (.reading [] source document.body {} run) m →
    m.run.active = m.opened ++ run.active
  separate : ∀ m, site.ComesTo (.reading [] source document.body {} run) m →
    m.opened.Nodup ∧ ∀ name ∈ m.opened, name ∉ run.active
  /-- The body being resolved is that of the innermost open group. -/
  innermost : ∀ stack inner body r run',
    site.ComesTo (.reading [] source document.body {} run) (.reading stack inner body r run') →
      site.ReadsInside source document stack inner body

variable {site : Site} {source inner : Provenance} {document : Document} {body : List Statement}
  {stack : List Waiting} {run : Run} {m m' : Moment}

/-- The rest of a body is read where the body is. -/
theorem Site.ReadsInside.of_cons {s : Statement}
    (h : site.ReadsInside source document stack inner (s :: body)) :
    site.ReadsInside source document stack inner body := by
  cases h with
  | outermost hbody => exact .outermost ((List.suffix_cons s body).trans hbody)
  | inside hform hwaiting hdocument hbody =>
    exact .inside hform hwaiting hdocument ((List.suffix_cons s body).trans hbody)

/-- When a body has ended, what waited for it is inside of the groups that are left on the stack. -/
theorem Site.ReadsInside.isInside_ended (h : site.ReadsInside source document stack inner body)
    (outcome : Except Failure Resolution) (run : Run) :
    (Moment.ended stack outcome run).IsInside site source document := by
  cases h with
  | outermost => trivial
  | inside hform hwaiting => exact ⟨_, hform, hwaiting⟩

/-- A document that waits for a group waits inside of the groups below it. -/
theorem Site.WaitsFor.readsInside {top : Waiting} (h : site.WaitsFor source document top stack) :
    site.ReadsInside source document stack top.source top.rest := by
  obtain ⟨s, -, hwaiting⟩ := h
  exact hwaiting.of_cons

/-- A step keeps what is read inside of the groups on the stack. -/
theorem Moment.IsInside.step (h : m.IsInside site source document) (hstep : site.Step m m') :
    m'.IsInside site source document := by
  cases hstep with
  | finish | reject | cycle | missing => exact Site.ReadsInside.isInside_ended h _ _
  | declare => exact Site.ReadsInside.of_cons h
  | enter hform => exact ⟨_, hform, h⟩
  | unread => exact h
  | read hdocument =>
    obtain ⟨s, hform, hwaiting⟩ := h
    exact .inside hform hwaiting hdocument List.suffix_rfl
  | fail => exact (Site.WaitsFor.readsInside h).isInside_ended _ _
  | merge => exact Site.WaitsFor.readsInside h

/-- What is read is inside of the groups on the stack at every moment. -/
theorem Moment.isInside_of_comesTo
    (h : site.ComesTo (.reading [] source document.body {} run) m) :
    m.IsInside site source document := by
  induction h with
  | refl => exact .outermost List.suffix_rfl
  | tail _ hstep ih => exact ih.step hstep

/-- Every resolution keeps track of the groups being expanded, and restores them however it ends. -/
theorem resolve_tracksActive (site : Site) (source : Provenance) (document : Document) (run : Run) :
    TracksActive site source document run where
  ends := (resolves_resolve site source document run).comesTo []
  restores := (resolves_resolve site source document run).active_eq
  during m hm := (Moment.Sound.of_comesTo hm).active_eq
  separate m hm := by
    have hsound := Moment.Sound.of_comesTo hm
    exact ⟨hsound.nodup, hsound.fresh⟩
  innermost _ _ _ _ _ hm := Moment.isInside_of_comesTo hm

end HostConfig
