import HostConfig.Proofs.Document.Source
import Mathlib.Data.List.Basic

/-!
# Derivations of resolutions

What resolving a body can do, one rule for each kind of step and without any bound on the nesting
of groups. A bounded resolution that does not run out of depth has a derivation, and a body has
at most one outcome. Later arguments about resolutions are inductions over derivations.
-/

namespace HostConfig

/-- Where the entries of a group come from. -/
def Layout.groupSource (l : Layout) (name : String) : Provenance :=
  ⟨(l.groupFile name).toString, .group, some name⟩

/-- The run inside a group that is expanded. -/
def Run.into (run : Run) (l : Layout) (name : String) : Run :=
  (run.enter name).log (.groupEntered name (l.groupFile name).toString)

/-- Recording leaves the groups being expanded as they are. -/
theorem Run.active_absorb (run : Run) (name : String) (r inner : Resolution) :
    (run.absorb name r inner).active = run.active := rfl

/-- Leaving a group undoes entering it. -/
theorem Run.active_leave {run inside : Run} {name : String} (hactive : name ∉ run.active)
    (h : inside.active = name :: run.active) : (inside.leave name).active = run.active := by
  rw [Run.leave, h, List.filter_cons_of_neg (by simp), List.filter_eq_self]
  intro other hother
  simpa using ne_of_mem_of_not_mem hother hactive

/-- Resolving a body from what was gathered and from a run on ends with an outcome and a run. A
group that is included is being expanded, has no file, has a file without a document, has a document
that does not resolve, or is merged. -/
inductive Resolves (site : Site) :
    Provenance → List Statement → Resolution → Run → Except Failure Resolution → Run → Prop
  | done {source : Provenance} {r : Resolution} {run : Run} :
    Resolves site source [] r run (.ok r) run
  | declare {source : Provenance} {s : Statement} {rest : List Statement} {r r' : Resolution}
      {run after : Run} {outcome : Except Failure Resolution}
      (hform : s.form.group? = none) (hdeclare : r.declare site.layout source s = .ok r')
      (hrest : Resolves site source rest r' (run.warnAll s.origin.file s.warnings) outcome after) :
    Resolves site source (s :: rest) r run outcome after
  | reject {source : Provenance} {s : Statement} {rest : List Statement} {r : Resolution}
      {run : Run} {failure : Failure}
      (hform : s.form.group? = none) (hdeclare : r.declare site.layout source s = .error failure) :
    Resolves site source (s :: rest) r run (.error failure)
      (run.warnAll s.origin.file s.warnings)
  | cycle {source : Provenance} {s : Statement} {rest : List Statement} {r : Resolution}
      {run : Run} {name : String}
      (hform : s.form.group? = some name) (hactive : name ∈ run.active) :
    Resolves site source (s :: rest) r run (.error (.problem ⟨s.origin, .cycle name⟩)) run
  | missing {source : Provenance} {s : Statement} {rest : List Statement} {r : Resolution}
      {run : Run} {name : String}
      (hform : s.form.group? = some name) (hactive : name ∉ run.active)
      (htree : site.tree.contains (site.layout.groupFile name) = false) :
    Resolves site source (s :: rest) r run
      (.error (.problem ⟨s.origin, .missingGroup (site.layout.groupFile name).toString⟩)) run
  | unread {source : Provenance} {s : Statement} {rest : List Statement} {r : Resolution}
      {run : Run} {name : String} {p : Problem}
      (hform : s.form.group? = some name) (hactive : name ∉ run.active)
      (htree : site.tree.contains (site.layout.groupFile name) = true)
      (hdocument : site.document (site.layout.groupFile name) = .error p) :
    Resolves site source (s :: rest) r run (.error (.problem p))
      ((run.into site.layout name).leave name)
  | fail {source : Provenance} {s : Statement} {rest : List Statement} {r : Resolution}
      {run inside : Run} {name : String} {document : Document} {failure : Failure}
      (hform : s.form.group? = some name) (hactive : name ∉ run.active)
      (hdocument : site.document (site.layout.groupFile name) = .ok document)
      (hinner : Resolves site (site.layout.groupSource name) document.body {}
        (run.into site.layout name) (.error failure) inside) :
    Resolves site source (s :: rest) r run (.error failure) (inside.leave name)
  | expand {source : Provenance} {s : Statement} {rest : List Statement} {r inner : Resolution}
      {run inside after : Run} {name : String} {document : Document}
      {outcome : Except Failure Resolution}
      (hform : s.form.group? = some name) (hactive : name ∉ run.active)
      (hdocument : site.document (site.layout.groupFile name) = .ok document)
      (hinner : Resolves site (site.layout.groupSource name) document.body {}
        (run.into site.layout name) (.ok inner) inside)
      (hrest : Resolves site source rest (r.absorb inner)
        ((inside.leave name).absorb name r inner) outcome after) :
    Resolves site source (s :: rest) r run outcome after

/-- Resolve a body with groups nested at most so deep. -/
def resolveBodyWithin (site : Site) (depth : Nat) (source : Provenance) (body : List Statement)
    (r : Resolution) (run : Run) : Except Failure Resolution × Run :=
  resolveBody (expandGroup (resolveWithin site depth) site) site.layout source body r run

/-- A document is resolved by resolving its body from nothing on. -/
theorem resolveWithin_succ (site : Site) (depth : Nat) (source : Provenance) (document : Document)
    (run : Run) :
    resolveWithin site (depth + 1) source document run =
      resolveBodyWithin site depth source document.body {} run := rfl

/-- Resolving a body that begins with the inclusion of a group. -/
theorem resolveBodyWithin_group {site : Site} {depth : Nat} {source : Provenance} {s : Statement}
    {rest : List Statement} {r : Resolution} {run : Run} {name : String}
    (hform : s.form.group? = some name) :
    resolveBodyWithin site depth source (s :: rest) r run =
      match expandGroup (resolveWithin site depth) site s.origin name run with
      | (.error failure, run) => (.error failure, run)
      | (.ok inner, run) =>
        resolveBodyWithin site depth source rest (r.absorb inner) (run.absorb name r inner) := by
  rw [Form.group?_eq_some_iff] at hform
  rw [resolveBodyWithin, resolveBody, hform]
  rfl

/-- Resolving a body that begins with any other statement. -/
theorem resolveBodyWithin_declare {site : Site} {depth : Nat} {source : Provenance}
    {s : Statement} {rest : List Statement} {r : Resolution} {run : Run}
    (hform : s.form.group? = none) :
    resolveBodyWithin site depth source (s :: rest) r run =
      match r.declare site.layout source s with
      | .error failure => (.error failure, run.warnAll s.origin.file s.warnings)
      | .ok r =>
        resolveBodyWithin site depth source rest r (run.warnAll s.origin.file s.warnings) := by
  rw [resolveBodyWithin, resolveBody]
  split
  · next name hgroup =>
    rw [hgroup] at hform
    cases hform
  · rfl

/-- Expanding a group that is not being expanded and that has a file. -/
theorem expandGroup_of_notMem {site : Site} {depth : Nat} {origin : Origin} {name : String}
    {run : Run} (hactive : name ∉ run.active)
    (htree : site.tree.contains (site.layout.groupFile name) = true) :
    expandGroup (resolveWithin site depth) site origin name run =
      match site.document (site.layout.groupFile name) with
      | .error p => (.error (.problem p), (run.into site.layout name).leave name)
      | .ok document =>
        let (outcome, inside) := resolveWithin site depth (site.layout.groupSource name) document
          (run.into site.layout name)
        (outcome, inside.leave name) := by
  have hcontains : run.active.contains name = false := by simpa using hactive
  simp only [expandGroup, hcontains, htree, Bool.not_true, Bool.false_eq_true, if_false]
  cases hdocument : site.document (site.layout.groupFile name) with
  | error p => rfl
  | ok document =>
    simp only [site.file_of_document hdocument]
    rfl

/-- Expanding a group that is being expanded. -/
theorem expandGroup_of_mem {site : Site} {depth : Nat} {origin : Origin} {name : String}
    {run : Run} (hactive : name ∈ run.active) :
    expandGroup (resolveWithin site depth) site origin name run =
      (.error (.problem ⟨origin, .cycle name⟩), run) := by
  have hcontains : run.active.contains name = true := by simpa using hactive
  simp only [expandGroup, hcontains, if_true]

/-- Expanding a group that has no file. -/
theorem expandGroup_of_not_contains {site : Site} {depth : Nat} {origin : Origin} {name : String}
    {run : Run} (hactive : name ∉ run.active)
    (htree : site.tree.contains (site.layout.groupFile name) = false) :
    expandGroup (resolveWithin site depth) site origin name run =
      (.error (.problem ⟨origin, .missingGroup (site.layout.groupFile name).toString⟩), run) := by
  have hcontains : run.active.contains name = false := by simpa using hactive
  simp only [expandGroup, hcontains, htree, Bool.not_false, Bool.false_eq_true, if_false, if_true]

/-- Expanding a group comes to a problem without any regard to depth, or resolves its document. -/
theorem expandGroup_cases (site : Site) (origin : Origin) (name : String) (run : Run) :
    (∃ p after, ∀ depth, expandGroup (resolveWithin site depth) site origin name run =
        (.error (.problem p), after)) ∨
      ∃ document, name ∉ run.active ∧ site.document (site.layout.groupFile name) = .ok document ∧
        ∀ depth, expandGroup (resolveWithin site depth) site origin name run =
          ((resolveWithin site depth (site.layout.groupSource name) document
              (run.into site.layout name)).1,
            (resolveWithin site depth (site.layout.groupSource name) document
              (run.into site.layout name)).2.leave name) := by
  by_cases hactive : name ∈ run.active
  · exact Or.inl ⟨_, _, fun _ => expandGroup_of_mem hactive⟩
  · cases htree : site.tree.contains (site.layout.groupFile name) with
    | false => exact Or.inl ⟨_, _, fun _ => expandGroup_of_not_contains hactive htree⟩
    | true =>
      cases hdocument : site.document (site.layout.groupFile name) with
      | error p =>
        refine Or.inl ⟨p, (run.into site.layout name).leave name, fun depth => ?_⟩
        rw [expandGroup_of_notMem hactive htree, hdocument]
      | ok document =>
        refine Or.inr ⟨document, hactive, rfl, fun depth => ?_⟩
        rw [expandGroup_of_notMem hactive htree, hdocument]

/-- A bounded resolution of a body has a derivation, if the groups' resolutions have. -/
theorem resolves_of_resolveBodyWithin {site : Site} {depth : Nat}
    (hinner : ∀ source document run,
      (resolveWithin site depth source document run).1 ≠ .error .tooDeep →
        Resolves site source document.body {} run (resolveWithin site depth source document run).1
          (resolveWithin site depth source document run).2)
    {source : Provenance} {body : List Statement} {r : Resolution} {run : Run}
    (hdepth : (resolveBodyWithin site depth source body r run).1 ≠ .error .tooDeep) :
    Resolves site source body r run (resolveBodyWithin site depth source body r run).1
      (resolveBodyWithin site depth source body r run).2 := by
  induction body generalizing r run with
  | nil => exact .done
  | cons s rest ih =>
    cases hform : s.form.group? with
    | none =>
      rw [resolveBodyWithin_declare hform] at hdepth ⊢
      cases hdeclare : r.declare site.layout source s with
      | error failure => exact .reject hform hdeclare
      | ok r' =>
        rw [hdeclare] at hdepth
        exact .declare hform hdeclare (ih hdepth)
    | some name =>
      rw [resolveBodyWithin_group hform] at hdepth ⊢
      by_cases hactive : name ∈ run.active
      · rw [expandGroup_of_mem hactive]
        exact .cycle hform hactive
      · cases htree : site.tree.contains (site.layout.groupFile name) with
        | false =>
          rw [expandGroup_of_not_contains hactive htree]
          exact .missing hform hactive htree
        | true =>
          rw [expandGroup_of_notMem hactive htree] at hdepth ⊢
          cases hdocument : site.document (site.layout.groupFile name) with
          | error p => exact .unread hform hactive htree hdocument
          | ok document =>
            have hgroup := hinner (site.layout.groupSource name) document (run.into site.layout name)
            simp only [hdocument] at hdepth
            rcases hrun : resolveWithin site depth (site.layout.groupSource name) document
                (run.into site.layout name) with ⟨failure | inner, inside⟩
            · simp only [hrun] at hdepth hgroup ⊢
              exact .fail hform hactive hdocument (hgroup hdepth)
            · simp only [hrun] at hdepth hgroup ⊢
              exact .expand hform hactive hdocument (hgroup (by simp)) (ih hdepth)

/-- A bounded resolution that does not run out of depth has a derivation. -/
theorem resolves_of_resolveWithin {site : Site} {depth : Nat} {source : Provenance}
    {document : Document} {run : Run}
    (hdepth : (resolveWithin site depth source document run).1 ≠ .error .tooDeep) :
    Resolves site source document.body {} run (resolveWithin site depth source document run).1
      (resolveWithin site depth source document run).2 := by
  induction depth generalizing source document run with
  | zero => exact absurd rfl hdepth
  | succ depth ih => exact resolves_of_resolveBodyWithin (fun _ _ _ => ih) hdepth

/-- A body has at most one outcome. -/
theorem Resolves.unique {site : Site} {source : Provenance} {body : List Statement}
    {r : Resolution} {run after₁ after₂ : Run} {outcome₁ outcome₂ : Except Failure Resolution}
    (h₁ : Resolves site source body r run outcome₁ after₁)
    (h₂ : Resolves site source body r run outcome₂ after₂) :
    outcome₁ = outcome₂ ∧ after₁ = after₂ := by
  induction h₁ generalizing outcome₂ after₂ with
  | done =>
    cases h₂
    exact ⟨rfl, rfl⟩
  | declare hform hdeclare _ ih =>
    cases h₂ with
    | declare _ hdeclare' hrest' =>
      cases hdeclare.symm.trans hdeclare'
      exact ih hrest'
    | _ => simp_all
  | reject hform hdeclare =>
    cases h₂ with
    | reject _ hdeclare' =>
      cases hdeclare.symm.trans hdeclare'
      exact ⟨rfl, rfl⟩
    | _ => simp_all
  | cycle hform hactive => cases h₂ <;> simp_all
  | missing hform hactive htree =>
    cases h₂ with
    | fail hform' _ hdocument' =>
      cases hform.symm.trans hform'
      simp [Site.contains_of_document hdocument'] at htree
    | expand hform' _ hdocument' =>
      cases hform.symm.trans hform'
      simp [Site.contains_of_document hdocument'] at htree
    | _ => simp_all
  | unread hform hactive htree hdocument => cases h₂ <;> simp_all
  | fail hform hactive hdocument _ ih =>
    cases h₂ with
    | missing hform' _ htree' =>
      cases hform.symm.trans hform'
      simp [Site.contains_of_document hdocument] at htree'
    | fail hform' _ hdocument' hinner' =>
      cases hform.symm.trans hform'
      cases hdocument.symm.trans hdocument'
      obtain ⟨hfailure, rfl⟩ := ih hinner'
      exact ⟨hfailure, rfl⟩
    | expand hform' _ hdocument' hinner' =>
      cases hform.symm.trans hform'
      cases hdocument.symm.trans hdocument'
      cases (ih hinner').1
    | _ => simp_all
  | expand hform hactive hdocument _ _ ihinner ihrest =>
    cases h₂ with
    | missing hform' _ htree' =>
      cases hform.symm.trans hform'
      simp [Site.contains_of_document hdocument] at htree'
    | fail hform' _ hdocument' hinner' =>
      cases hform.symm.trans hform'
      cases hdocument.symm.trans hdocument'
      cases (ihinner hinner').1
    | expand hform' _ hdocument' hinner' hrest' =>
      cases hform.symm.trans hform'
      cases hdocument.symm.trans hdocument'
      obtain ⟨hok, rfl⟩ := ihinner hinner'
      cases hok
      exact ihrest hrest'
    | _ => simp_all

/-- However a resolution ends, the same groups are being expanded as before. -/
theorem Resolves.active_eq {site : Site} {source : Provenance} {body : List Statement}
    {r : Resolution} {run after : Run} {outcome : Except Failure Resolution}
    (h : Resolves site source body r run outcome after) : after.active = run.active := by
  induction h with
  | done | reject | cycle | missing => rfl
  | declare _ _ _ ih => exact ih
  | unread _ hactive => exact Run.active_leave hactive rfl
  | fail _ hactive _ _ ih => exact Run.active_leave hactive ih
  | expand _ hactive _ _ _ ihinner ihrest => exact ihrest.trans (Run.active_leave hactive ihinner)

/-- Induction over the derivations that end with a resolution. -/
@[elab_as_elim]
theorem Resolves.ok_induction {site : Site}
    {motive : ∀ {source : Provenance} {body : List Statement} {r : Resolution} {run : Run}
      {final : Resolution} {after : Run}, Resolves site source body r run (.ok final) after → Prop}
    {source : Provenance} {body : List Statement} {r : Resolution} {run : Run} {final : Resolution}
    {after : Run} (h : Resolves site source body r run (.ok final) after)
    (done : ∀ {source : Provenance} {r : Resolution} {run : Run},
      motive (.done : Resolves site source [] r run (.ok r) run))
    (declare : ∀ {source : Provenance} {s : Statement} {rest : List Statement}
      {r r' final : Resolution} {run after : Run} (hform : s.form.group? = none)
      (hdeclare : r.declare site.layout source s = .ok r')
      (hrest : Resolves site source rest r' (run.warnAll s.origin.file s.warnings) (.ok final) after),
      motive hrest → motive (.declare hform hdeclare hrest))
    (expand : ∀ {source : Provenance} {s : Statement} {rest : List Statement}
      {r inner final : Resolution} {run inside after : Run} {name : String} {document : Document}
      (hform : s.form.group? = some name) (hactive : name ∉ run.active)
      (hdocument : site.document (site.layout.groupFile name) = .ok document)
      (hinner : Resolves site (site.layout.groupSource name) document.body {}
        (run.into site.layout name) (.ok inner) inside)
      (hrest : Resolves site source rest (r.absorb inner)
        ((inside.leave name).absorb name r inner) (.ok final) after),
      motive hinner → motive hrest →
        motive (.expand hform hactive hdocument hinner hrest)) :
    motive h := by
  -- Induction needs a variable in the place of the outcome.
  suffices hall : ∀ outcome (h : Resolves site source body r run outcome after) final
      (houtcome : outcome = .ok final), motive (houtcome ▸ h) from hall _ h final rfl
  clear h
  intro outcome h
  induction h with
  | done =>
    rintro _ ⟨⟩
    exact done
  | declare hform hdeclare hrest ih =>
    rintro _ rfl
    exact declare hform hdeclare hrest (ih _ rfl)
  | expand hform hactive hdocument hinner hrest ihinner ihrest =>
    rintro _ rfl
    exact expand hform hactive hdocument hinner hrest (ihinner _ rfl) (ihrest _ rfl)
  | reject | cycle | missing | unread | fail => rintro _ ⟨⟩

/-- What resolves while some groups are being expanded resolves the same while fewer are. -/
theorem Resolves.of_active_subset {site : Site} {source : Provenance} {body : List Statement}
    {r final : Resolution} {run after run' : Run}
    (h : Resolves site source body r run (.ok final) after) (hrun : run'.active ⊆ run.active) :
    ∃ after', Resolves site source body r run' (.ok final) after' := by
  induction h using Resolves.ok_induction generalizing run' with
  | done => exact ⟨run', .done⟩
  | @declare _ s _ _ _ _ run _ hform hdeclare _ ih =>
    have hwarn : (run'.warnAll s.origin.file s.warnings).active ⊆
        (run.warnAll s.origin.file s.warnings).active := hrun
    obtain ⟨after', hrest⟩ := ih hwarn
    exact ⟨after', .declare hform hdeclare hrest⟩
  | @expand _ _ _ r inner _ run inside _ name _ hform hactive hdocument hinner _ ihinner ihrest =>
    have hinto : (run'.into site.layout name).active ⊆ (run.into site.layout name).active :=
      List.cons_subset_cons _ hrun
    obtain ⟨inside', hinner'⟩ := ihinner hinto
    have hactive' : name ∉ run'.active := fun hmem => hactive (hrun hmem)
    have habsorb : ((inside'.leave name).absorb name r inner).active ⊆
        ((inside.leave name).absorb name r inner).active := by
      rw [Run.active_absorb, Run.active_leave hactive' hinner'.active_eq, Run.active_absorb,
        Run.active_leave hactive hinner.active_eq]
      exact hrun
    obtain ⟨after', hrest'⟩ := ihrest habsorb
    exact ⟨after', .expand hform hactive' hdocument hinner' hrest'⟩

end HostConfig
