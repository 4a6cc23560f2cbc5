import HostConfig.Proofs.Resolution.Stack

/-!
# Termination of resolutions

A bounded resolution that runs out of depth comes to a moment at which the stack is as deep as was
allowed for. So a depth beyond the bound of the stack is always enough, and what is answered once is
answered with any greater depth. Without any bound every resolution comes to its end, whatever the
inclusions are.
-/

namespace HostConfig

variable {site : Site} {depth depth' : Nat} {source : Provenance} {body : List Statement}
  {r : Resolution} {run : Run} {document : Document}

/-- A body that runs out of depth comes to a moment with one group more on the stack than its groups
come to. -/
theorem exists_comesTo_of_body_tooDeep
    (hinner : ∀ stack source document run,
      (resolveWithin site depth source document run).1 = .error .tooDeep →
        ∃ m, site.ComesTo (.reading stack source document.body {} run) m ∧
          m.opened.length = stack.length + depth)
    (h : (resolveBodyWithin site depth source body r run).1 = .error .tooDeep)
    (stack : List Waiting) :
    ∃ m, site.ComesTo (.reading stack source body r run) m ∧
      m.opened.length = stack.length + (depth + 1) := by
  induction body generalizing r run with
  | nil => cases h
  | cons s rest ih =>
    cases hform : s.form.group? with
    | none =>
      rw [resolveBodyWithin_declare hform] at h
      cases hdeclare : r.declare site.layout source s with
      | error failure =>
        rw [hdeclare] at h
        cases h
        rcases Resolution.declare_eq_error hdeclare with ⟨-, hblank⟩ | ⟨_, _, _, _, -, -, hproblem⟩
        · cases hblank
        · cases hproblem
      | ok r' =>
        rw [hdeclare] at h
        obtain ⟨m, hcomes, hlength⟩ := ih h
        exact ⟨m, .head (.declare hform hdeclare) hcomes, hlength⟩
    | some name =>
      rw [resolveBodyWithin_group hform] at h
      obtain ⟨p, after, hexpand⟩ | ⟨document, hactive, hdocument, hexpand⟩ :=
        expandGroup_cases site s.origin name run
      · rw [hexpand] at h
        cases h
      · rw [hexpand] at h
        have htree := site.contains_of_document hdocument
        let top : Waiting := ⟨source, rest, r, name⟩
        have hread : site.ComesTo (.reading stack source (s :: rest) r run)
            (.reading (top :: stack) (site.layout.groupSource name) document.body {}
              (run.into site.layout name)) :=
          .head (.enter hform hactive htree) (.single (.read hdocument))
        rcases hresolve : resolveWithin site depth (site.layout.groupSource name) document
            (run.into site.layout name) with ⟨failure | inner, inside⟩
        · rw [hresolve] at h
          obtain ⟨m, hcomes, hlength⟩ := hinner (top :: stack) (site.layout.groupSource name)
            document (run.into site.layout name) (by rw [hresolve, h])
          refine ⟨m, hread.trans hcomes, ?_⟩
          rw [hlength, List.length_cons]
          omega
        · rw [hresolve] at h
          have hdeep : (resolveWithin site depth (site.layout.groupSource name) document
              (run.into site.layout name)).1 ≠ .error .tooDeep := by simp [hresolve]
          have hderivation := resolves_of_resolveWithin hdeep
          rw [hresolve] at hderivation
          have hback := (hderivation.comesTo (top :: stack)).tail .merge
          obtain ⟨m, hcomes, hlength⟩ := ih h
          exact ⟨m, hread.trans (hback.trans hcomes), hlength⟩

/-- A document that runs out of depth comes to a moment with that many more groups on the stack. -/
theorem exists_comesTo_of_tooDeep (stack : List Waiting)
    (h : (resolveWithin site depth source document run).1 = .error .tooDeep) :
    ∃ m, site.ComesTo (.reading stack source document.body {} run) m ∧
      m.opened.length = stack.length + depth := by
  induction depth generalizing stack source document run with
  | zero => exact ⟨_, .refl, List.length_map _⟩
  | succ depth ih => exact exists_comesTo_of_body_tooDeep (fun stack _ _ _ => ih stack) h stack

/-- A depth beyond the bound of the stack is enough. -/
theorem resolveWithin_ne_tooDeep_of_lt (hdepth : 1 + site.groupPaths.ncard < depth) :
    (resolveWithin site depth source document run).1 ≠ .error .tooDeep := by
  intro hdeep
  obtain ⟨m, hcomes, hlength⟩ := exists_comesTo_of_tooDeep [] hdeep
  have hbound := (Moment.Sound.of_comesTo hcomes).length_opened_le
  rw [hlength, List.length_nil] at hbound
  omega

/-- A group is expanded alike with another depth, if its document is answered alike. -/
theorem expandGroup_eq_of_ne_tooDeep {origin : Origin} {name : String}
    (hinner : ∀ source document run,
      (resolveWithin site depth source document run).1 ≠ .error .tooDeep →
        resolveWithin site depth' source document run =
          resolveWithin site depth source document run)
    (h : (expandGroup (resolveWithin site depth) site origin name run).1 ≠ .error .tooDeep) :
    expandGroup (resolveWithin site depth') site origin name run =
      expandGroup (resolveWithin site depth) site origin name run := by
  obtain ⟨p, after, hexpand⟩ | ⟨document, -, -, hexpand⟩ :=
    expandGroup_cases site origin name run
  · rw [hexpand, hexpand]
  · rw [hexpand] at h ⊢
    rw [hexpand, hinner _ _ _ h]

/-- A body is answered alike with another depth, if the documents of its groups are. -/
theorem resolveBodyWithin_eq_of_ne_tooDeep
    (hinner : ∀ source document run,
      (resolveWithin site depth source document run).1 ≠ .error .tooDeep →
        resolveWithin site depth' source document run =
          resolveWithin site depth source document run)
    (h : (resolveBodyWithin site depth source body r run).1 ≠ .error .tooDeep) :
    resolveBodyWithin site depth' source body r run =
      resolveBodyWithin site depth source body r run := by
  induction body generalizing r run with
  | nil => rfl
  | cons s rest ih =>
    cases hform : s.form.group? with
    | none =>
      rw [resolveBodyWithin_declare hform] at h ⊢
      rw [resolveBodyWithin_declare hform]
      cases hdeclare : r.declare site.layout source s with
      | error failure => rfl
      | ok r' =>
        rw [hdeclare] at h
        exact ih h
    | some name =>
      rw [resolveBodyWithin_group hform] at h ⊢
      rw [resolveBodyWithin_group hform]
      have hgroup : (expandGroup (resolveWithin site depth) site s.origin name run).1 ≠
          .error .tooDeep := by
        intro hdeep
        rcases hexpand : expandGroup (resolveWithin site depth) site s.origin name run with
          ⟨failure | inner, after⟩
        · rw [hexpand] at hdeep h
          exact h hdeep
        · rw [hexpand] at hdeep
          cases hdeep
      rw [expandGroup_eq_of_ne_tooDeep hinner hgroup]
      rcases hexpand : expandGroup (resolveWithin site depth) site s.origin name run with
        ⟨failure | inner, after⟩
      · rfl
      · rw [hexpand] at h
        exact ih h

/-- What is answered with some depth is answered alike with any greater one. -/
theorem resolveWithin_of_le (hle : depth ≤ depth')
    (h : (resolveWithin site depth source document run).1 ≠ .error .tooDeep) :
    resolveWithin site depth' source document run =
      resolveWithin site depth source document run := by
  induction depth generalizing depth' source document run with
  | zero => exact absurd rfl h
  | succ depth ih =>
    obtain ⟨depth', rfl⟩ := Nat.exists_eq_add_of_lt hle
    exact resolveBodyWithin_eq_of_ne_tooDeep (fun _ _ _ => ih (by omega)) h

/-- What it means that a resolution terminates, whatever the groups include. -/
structure Terminates (site : Site) (source : Provenance) (document : Document) (run : Run) :
    Prop where
  /-- From every moment it comes to the end, where the outcome is an answer. -/
  ends : ∀ m, site.ComesTo (.reading [] source document.body {} run) m →
    site.ComesTo m (.ended [] (resolve site source document run).1
      (resolve site source document run).2)
  halts : ∀ f : Nat → Moment, f 0 = .reading [] source document.body {} run →
    ¬ ∀ n, site.Step (f n) (f (n + 1))
  answers : (resolve site source document run).1 ≠ .error .tooDeep
  /-- At every moment the groups on the stack are distinct, were not being expanded before, and have
  existing paths; so they are not more than one plus the number of paths below the groups. -/
  stack : ∀ m, site.ComesTo (.reading [] source document.body {} run) m →
    m.opened.Nodup ∧ (∀ name ∈ m.opened, name ∉ run.active) ∧
    (∀ name ∈ m.opened, site.tree.contains (site.layout.groupFile name) = true) ∧
    m.opened.length ≤ 1 + site.groupPaths.ncard
  /-- A depth beyond that bound is enough. -/
  enough : ∀ depth, 1 + site.groupPaths.ncard < depth →
    resolveWithin site depth source document run = resolve site source document run
  /-- What is answered with some depth is answered alike with any greater one. -/
  stable : ∀ depth depth', depth ≤ depth' →
    (resolveWithin site depth source document run).1 ≠ .error .tooDeep →
    resolveWithin site depth' source document run = resolveWithin site depth source document run

/-- Every resolution terminates. -/
theorem resolve_terminates (site : Site) (source : Provenance) (document : Document) (run : Run) :
    Terminates site source document run where
  ends m hm := hm.of_ended ((resolves_resolve site source document run).comesTo [])
  halts f hstart hf := by
    have hend := (resolves_resolve site source document run).comesTo []
    obtain ⟨n, hn⟩ := Site.ComesTo.exists_eq hf (hstart ▸ hend)
    exact Site.not_step_ended (hn ▸ hf n)
  answers := resolve_ne_tooDeep site source document run
  stack m hm := by
    have hsound := Moment.Sound.of_comesTo hm
    exact ⟨hsound.nodup, hsound.fresh, hsound.contains, hsound.length_opened_le⟩
  enough depth hdepth := by
    have hdeep : (resolveWithin site depth source document run).1 ≠ .error .tooDeep :=
      resolveWithin_ne_tooDeep_of_lt hdepth
    exact (resolve_eq_iff.mpr (resolves_of_resolveWithin hdeep)).symm
  stable _ _ hle := resolveWithin_of_le hle

end HostConfig
