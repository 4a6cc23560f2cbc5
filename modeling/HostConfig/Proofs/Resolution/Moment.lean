import HostConfig.Proofs.Resolution.Depth
import Mathlib.Logic.Relation

/-!
# The moments of a resolution

A resolution runs through moments, and at each of them a stack holds the documents that wait for a
group to be expanded. Which moment comes next is decided by the moment alone, without any bound on
the stack. So what can be said about all moments of a resolution is shown for one step at a time.
-/

namespace HostConfig

/-- A document that waits for a group which it includes: the statements behind the inclusion, and
what was gathered before. -/
structure Waiting where
  source : Provenance
  rest : List Statement
  gathered : Resolution
  group : String

/-- A moment of a resolution: a body is being resolved, a group has been entered and its file is to
be read, or a body has been resolved or failed. -/
inductive Moment
  | reading (stack : List Waiting) (source : Provenance) (body : List Statement) (r : Resolution)
      (run : Run)
  | opening (top : Waiting) (stack : List Waiting) (run : Run)
  | ended (stack : List Waiting) (outcome : Except Failure Resolution) (run : Run)

namespace Moment

/-- The documents that wait, the last one first. -/
def stack : Moment → List Waiting
  | reading stack _ _ _ _ | ended stack _ _ => stack
  | opening top stack _ => top :: stack

/-- The journal and the groups being expanded. -/
def run : Moment → Run
  | reading _ _ _ _ run | opening _ _ run | ended _ _ run => run

/-- The groups that have been entered and not been left, the last one first. -/
def opened (m : Moment) : List String := m.stack.map (·.group)

/-- The bodies that are not resolved completely, the last one first. -/
def bodies : Moment → List (List Statement)
  | reading stack _ body _ _ => body :: stack.map (·.rest)
  | opening top stack _ => top.rest :: stack.map (·.rest)
  | ended stack _ _ => stack.map (·.rest)

end Moment

/-- One moment comes after another one. -/
inductive Site.Step (site : Site) : Moment → Moment → Prop
  | finish {stack : List Waiting} {source : Provenance} {r : Resolution} {run : Run} :
    site.Step (.reading stack source [] r run) (.ended stack (.ok r) run)
  | declare {stack : List Waiting} {source : Provenance} {s : Statement} {rest : List Statement}
      {r r' : Resolution} {run : Run} (hform : s.form.group? = none)
      (hdeclare : r.declare site.layout source s = .ok r') :
    site.Step (.reading stack source (s :: rest) r run)
      (.reading stack source rest r' (run.warnAll s.origin.file s.warnings))
  | reject {stack : List Waiting} {source : Provenance} {s : Statement} {rest : List Statement}
      {r : Resolution} {run : Run} {failure : Failure} (hform : s.form.group? = none)
      (hdeclare : r.declare site.layout source s = .error failure) :
    site.Step (.reading stack source (s :: rest) r run)
      (.ended stack (.error failure) (run.warnAll s.origin.file s.warnings))
  | cycle {stack : List Waiting} {source : Provenance} {s : Statement} {rest : List Statement}
      {r : Resolution} {run : Run} {name : String} (hform : s.form.group? = some name)
      (hactive : name ∈ run.active) :
    site.Step (.reading stack source (s :: rest) r run)
      (.ended stack (.error (.problem ⟨s.origin, .cycle name⟩)) run)
  | missing {stack : List Waiting} {source : Provenance} {s : Statement} {rest : List Statement}
      {r : Resolution} {run : Run} {name : String} (hform : s.form.group? = some name)
      (hactive : name ∉ run.active)
      (htree : site.tree.contains (site.layout.groupFile name) = false) :
    site.Step (.reading stack source (s :: rest) r run) (.ended stack (.error
      (.problem ⟨s.origin, .missingGroup (site.layout.groupFile name).toString⟩)) run)
  | enter {stack : List Waiting} {source : Provenance} {s : Statement} {rest : List Statement}
      {r : Resolution} {run : Run} {name : String} (hform : s.form.group? = some name)
      (hactive : name ∉ run.active)
      (htree : site.tree.contains (site.layout.groupFile name) = true) :
    site.Step (.reading stack source (s :: rest) r run)
      (.opening ⟨source, rest, r, name⟩ stack (run.into site.layout name))
  | unread {top : Waiting} {stack : List Waiting} {run : Run} {p : Problem}
      (hdocument : site.document (site.layout.groupFile top.group) = .error p) :
    site.Step (.opening top stack run) (.ended (top :: stack) (.error (.problem p)) run)
  | read {top : Waiting} {stack : List Waiting} {run : Run} {document : Document}
      (hdocument : site.document (site.layout.groupFile top.group) = .ok document) :
    site.Step (.opening top stack run)
      (.reading (top :: stack) (site.layout.groupSource top.group) document.body {} run)
  | fail {top : Waiting} {stack : List Waiting} {run : Run} {failure : Failure} :
    site.Step (.ended (top :: stack) (.error failure) run)
      (.ended stack (.error failure) (run.leave top.group))
  | merge {top : Waiting} {stack : List Waiting} {run : Run} {inner : Resolution} :
    site.Step (.ended (top :: stack) (.ok inner) run)
      (.reading stack top.source top.rest (top.gathered.absorb inner)
        ((run.leave top.group).absorb top.group top.gathered inner))

/-- Any number of moments later. -/
def Site.ComesTo (site : Site) : Moment → Moment → Prop := Relation.ReflTransGen site.Step

variable {site : Site} {source : Provenance} {body : List Statement} {r : Resolution}
  {run after : Run} {outcome : Except Failure Resolution}

/-- At most one moment comes next. -/
theorem Site.Step.unique {m m₁ m₂ : Moment} (h₁ : site.Step m m₁) (h₂ : site.Step m m₂) :
    m₁ = m₂ := by
  cases h₁ <;> cases h₂ <;> simp_all

/-- After the end nothing comes. -/
theorem Site.not_step_ended {m : Moment} : ¬ site.Step (.ended [] outcome run) m := by
  intro h
  cases h

/-- What ends at some point is still on its way there at every moment before. -/
theorem Site.ComesTo.of_ended {m m' : Moment} (h : site.ComesTo m m')
    (hended : site.ComesTo m (.ended [] outcome after)) :
    site.ComesTo m' (.ended [] outcome after) := by
  have hunique : Relator.RightUnique site.Step := fun _ _ _ => Site.Step.unique
  rcases Relation.ReflTransGen.total_of_right_unique hunique h hended with hlater | hearlier
  · exact hlater
  · rcases hearlier.cases_head with heq | ⟨next, hstep, -⟩
    · rw [heq]
      exact .refl
    · exact absurd hstep Site.not_step_ended

/-- A run that goes on and on comes through all that its beginning comes to. -/
theorem Site.ComesTo.exists_eq {f : Nat → Moment} (hf : ∀ n, site.Step (f n) (f (n + 1)))
    {m : Moment} (h : site.ComesTo (f 0) m) : ∃ n, f n = m := by
  induction h with
  | refl => exact ⟨0, rfl⟩
  | tail _ hstep ih =>
    obtain ⟨n, rfl⟩ := ih
    exact ⟨n + 1, (hf n).unique hstep⟩

/-- A body that resolves is resolved in steps, whatever waits for it. -/
theorem Resolves.comesTo (h : Resolves site source body r run outcome after)
    (stack : List Waiting) :
    site.ComesTo (.reading stack source body r run) (.ended stack outcome after) := by
  induction h generalizing stack with
  | done => exact .single .finish
  | declare hform hdeclare _ ih => exact .head (.declare hform hdeclare) (ih stack)
  | reject hform hdeclare => exact .single (.reject hform hdeclare)
  | cycle hform hactive => exact .single (.cycle hform hactive)
  | missing hform hactive htree => exact .single (.missing hform hactive htree)
  | unread hform hactive htree hdocument =>
    exact .head (.enter hform hactive htree) (.head (.unread hdocument) (.single .fail))
  | @fail source _ rest r _ _ name _ _ hform hactive hdocument _ ih =>
    have htree := site.contains_of_document hdocument
    have hinner := (ih (⟨source, rest, r, name⟩ :: stack)).tail .fail
    exact .head (.enter hform hactive htree) (.head (.read hdocument) hinner)
  | @expand source _ rest r _ _ _ _ name _ _ hform hactive hdocument _ _ ihinner ihrest =>
    have htree := site.contains_of_document hdocument
    have hinner := (ihinner (⟨source, rest, r, name⟩ :: stack)).tail .merge
    exact .head (.enter hform hactive htree) (.head (.read hdocument) (hinner.trans (ihrest stack)))

end HostConfig
