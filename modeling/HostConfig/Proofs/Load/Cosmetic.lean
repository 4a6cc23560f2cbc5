import HostConfig.Proofs.Document.Unplaced
import HostConfig.Proofs.Load.Agreement
import HostConfig.Proofs.Load.ProblemPlace

/-!
# Loading after cosmetic edits

Over two trees whose files say the same a resolution takes the same steps. It ends with the same
configuration, or with problems that differ in their lines at most. So neither comments nor the
layout of a file matter to a load.
-/

namespace HostConfig

/-- Drop the place of a failure. -/
def unplacedOutcome {α : Type} (outcome : Except Failure α) : Except Failure α :=
  outcome.mapError Failure.unplaced

theorem eq_ok_of_unplacedOutcome_eq {α : Type} {outcome outcome' : Except Failure α} {a : α}
    (h : unplacedOutcome outcome' = unplacedOutcome outcome) (houtcome : outcome = .ok a) :
    outcome' = .ok a := by
  subst outcome
  cases outcome' with
  | error failure => cases h
  | ok a' => exact h

theorem exists_error_of_unplacedOutcome_eq {α : Type} {outcome outcome' : Except Failure α}
    {failure : Failure} (h : unplacedOutcome outcome' = unplacedOutcome outcome)
    (houtcome : outcome = .error failure) :
    ∃ failure', outcome' = .error failure' ∧ failure'.unplaced = failure.unplaced := by
  subst outcome
  cases outcome' with
  | error failure' => exact ⟨failure', rfl, Except.error.inj h⟩
  | ok a => cases h

theorem unplacedOutcome_problem {α : Type} {p p' : Problem} (h : p'.unplaced = p.unplaced) :
    unplacedOutcome (.error (.problem p') : Except Failure α) =
      unplacedOutcome (.error (.problem p)) :=
  congrArg (fun p => Except.error (Failure.problem p)) h

theorem Problem.unplaced_congr {o o' : Origin} (h : o'.unplaced = o.unplaced) (cause : Cause) :
    Problem.unplaced ⟨o', cause⟩ = Problem.unplaced ⟨o, cause⟩ :=
  congrArg (fun o => Problem.mk o cause) h

/-- Statements that say the same in the same file are carried out alike. -/
theorem Resolution.unplacedOutcome_declare {s s' : Statement}
    (hplace : s'.origin.unplaced = s.origin.unplaced) (hform : s'.form = s.form) (r : Resolution)
    (l : Layout) (source : Provenance) :
    unplacedOutcome (r.declare l source s') = unplacedOutcome (r.declare l source s) := by
  obtain ⟨origin, form⟩ := s
  obtain ⟨origin', form'⟩ := s'
  cases hform
  cases form with
  | packageService package name props =>
    simp only [declare]
    cases Service.ofProperties name props with
    | error cause => exact unplacedOutcome_problem (Problem.unplaced_congr hplace cause)
    | ok service => rfl
  | _ => rfl

/-- A body that says the same in the same file begins with such a statement. -/
theorem exists_cons_of_map_unplaced {s : Statement} {rest body' : List Statement}
    (h : body'.map Statement.unplaced = (s :: rest).map Statement.unplaced) :
    ∃ s' rest', body' = s' :: rest' ∧ s'.origin.unplaced = s.origin.unplaced ∧ s'.form = s.form ∧
      rest'.map Statement.unplaced = rest.map Statement.unplaced := by
  rw [List.map_cons, List.map_eq_cons_iff] at h
  obtain ⟨s', rest', rfl, hs, hrest⟩ := h
  obtain ⟨hplace, hform⟩ := Statement.mk.inj hs
  exact ⟨s', rest', rfl, hplace, hform, hrest⟩

namespace FileTree.SaysAlike

variable {site : Site} {tree' : FileTree}

/-- The documents differ in the places of their statements at most. -/
theorem unplacedDocument_eq (h : site.tree.SaysAlike tree') (path : Path) :
    unplacedDocument ((site.withTree tree').document path) =
      unplacedDocument (site.document path) := by
  rw [Site.unplacedDocument_eq, Site.unplacedDocument_eq, site.tree_withTree, h.said_eq]

theorem exists_document (h : site.tree.SaysAlike tree') {path : Path} {document : Document}
    (hdocument : site.document path = .ok document) :
    ∃ document', (site.withTree tree').document path = .ok document' ∧
      document'.file = document.file ∧
      document'.body.map Statement.unplaced = document.body.map Statement.unplaced := by
  have hsame := h.unplacedDocument_eq path
  rw [hdocument] at hsame
  cases hdocument' : (site.withTree tree').document path with
  | error p =>
    rw [hdocument'] at hsame
    cases hsame
  | ok document' =>
    rw [hdocument'] at hsame
    obtain ⟨hfile, hbody⟩ := Document.mk.inj (Except.ok.inj hsame)
    exact ⟨document', rfl, hfile, hbody⟩

theorem exists_problem (h : site.tree.SaysAlike tree') {path : Path} {p : Problem}
    (hdocument : site.document path = .error p) :
    ∃ p', (site.withTree tree').document path = .error p' ∧ p'.unplaced = p.unplaced := by
  have hsame := h.unplacedDocument_eq path
  rw [hdocument] at hsame
  cases hdocument' : (site.withTree tree').document path with
  | error p' =>
    rw [hdocument'] at hsame
    exact ⟨p', rfl, Except.error.inj hsame⟩
  | ok document' =>
    rw [hdocument'] at hsame
    cases hsame

/-- Bodies that say the same resolve alike. -/
theorem exists_resolves (h : site.tree.SaysAlike tree') {source : Provenance}
    {body body' : List Statement} {r : Resolution} {run run' after : Run}
    {outcome : Except Failure Resolution}
    (hresolves : Resolves site source body r run outcome after)
    (hbody : body'.map Statement.unplaced = body.map Statement.unplaced)
    (hrun : run'.active = run.active) :
    ∃ outcome' after', Resolves (site.withTree tree') source body' r run' outcome' after' ∧
      unplacedOutcome outcome' = unplacedOutcome outcome := by
  induction hresolves generalizing body' run' with
  | done =>
    cases List.map_eq_nil_iff.mp hbody
    exact ⟨_, _, .done, rfl⟩
  | @declare source s rest r r' run after outcome hform hdeclare _ ih =>
    obtain ⟨s', rest', rfl, hplace, hform', hrest'⟩ := exists_cons_of_map_unplaced hbody
    have hdeclare' := eq_ok_of_unplacedOutcome_eq
      (r.unplacedOutcome_declare hplace hform' site.layout source) hdeclare
    have hactive : (run'.warnAll s'.origin.file s'.warnings).active =
        (run.warnAll s.origin.file s.warnings).active := hrun
    obtain ⟨outcome', after', hresolves', hsame⟩ := ih hrest' hactive
    exact ⟨outcome', after', .declare (hform' ▸ hform) hdeclare' hresolves', hsame⟩
  | @reject source s rest r run failure hform hdeclare =>
    obtain ⟨s', rest', rfl, hplace, hform', -⟩ := exists_cons_of_map_unplaced hbody
    obtain ⟨failure', hdeclare', hsame⟩ := exists_error_of_unplacedOutcome_eq
      (r.unplacedOutcome_declare hplace hform' site.layout source) hdeclare
    exact ⟨_, _, .reject (hform' ▸ hform) hdeclare', congrArg Except.error hsame⟩
  | @cycle _ s _ _ _ name hform hactive =>
    obtain ⟨s', rest', rfl, hplace, hform', -⟩ := exists_cons_of_map_unplaced hbody
    exact ⟨_, _, .cycle (hform' ▸ hform) (hrun ▸ hactive),
      unplacedOutcome_problem (Problem.unplaced_congr hplace _)⟩
  | @missing _ s _ _ _ name hform hactive htree =>
    obtain ⟨s', rest', rfl, hplace, hform', -⟩ := exists_cons_of_map_unplaced hbody
    exact ⟨_, _, .missing (hform' ▸ hform) (hrun ▸ hactive) ((h.contains_eq _).trans htree),
      unplacedOutcome_problem (Problem.unplaced_congr hplace _)⟩
  | unread hform hactive htree hdocument =>
    obtain ⟨s', rest', rfl, hplace, hform', -⟩ := exists_cons_of_map_unplaced hbody
    obtain ⟨p', hdocument', hsame⟩ := h.exists_problem hdocument
    have htree' := (h.contains_eq _).trans htree
    exact ⟨_, _, .unread (hform' ▸ hform) (hrun ▸ hactive) htree' hdocument',
      unplacedOutcome_problem hsame⟩
  | @fail _ s _ _ run _ name _ _ hform hactive hdocument _ ih =>
    obtain ⟨s', rest', rfl, hplace, hform', -⟩ := exists_cons_of_map_unplaced hbody
    obtain ⟨document', hdocument', -, hbody'⟩ := h.exists_document hdocument
    have hinto : (run'.into site.layout name).active = (run.into site.layout name).active :=
      congrArg (name :: ·) hrun
    obtain ⟨_, inside', hinner', hsame⟩ := ih hbody' hinto
    obtain ⟨failure', rfl, hfailure⟩ := exists_error_of_unplacedOutcome_eq hsame rfl
    exact ⟨_, _, .fail (hform' ▸ hform) (hrun ▸ hactive) hdocument' hinner',
      congrArg Except.error hfailure⟩
  | @expand _ s _ r inner run inside _ name _ _ hform hactive hdocument hinner _ ihinner ihrest =>
    obtain ⟨s', rest', rfl, hplace, hform', hrest'⟩ := exists_cons_of_map_unplaced hbody
    obtain ⟨document', hdocument', -, hbody'⟩ := h.exists_document hdocument
    have hactive' : name ∉ run'.active := hrun ▸ hactive
    have hinto : (run'.into site.layout name).active = (run.into site.layout name).active :=
      congrArg (name :: ·) hrun
    obtain ⟨_, inside', hinner', hsame⟩ := ihinner hbody' hinto
    cases eq_ok_of_unplacedOutcome_eq hsame rfl
    have habsorb : ((inside'.leave name).absorb name r inner).active =
        ((inside.leave name).absorb name r inner).active := by
      rw [Run.active_absorb, Run.active_leave hactive' hinner'.active_eq, Run.active_absorb,
        Run.active_leave hactive hinner.active_eq, hrun]
    obtain ⟨outcome', after', hresolves', hsame⟩ := ihrest hrest' habsorb
    exact ⟨outcome', after', .expand (hform' ▸ hform) hactive' hdocument' hinner' hresolves', hsame⟩

/-- Files that say the same resolve alike. -/
theorem resolveFile_eq (h : site.tree.SaysAlike tree') (path : Path) (kind : SourceKind)
    (journal journal' : Option Journal) :
    unplacedOutcome ((site.withTree tree').resolveFile path kind journal').1 =
      unplacedOutcome (site.resolveFile path kind journal).1 := by
  cases hdocument : site.document path with
  | error p =>
    obtain ⟨p', hdocument', hsame⟩ := h.exists_problem hdocument
    rw [Site.resolveFile_of_document_eq_error hdocument,
      Site.resolveFile_of_document_eq_error hdocument']
    exact unplacedOutcome_problem hsame
  | ok document =>
    obtain ⟨document', hdocument', hfile, hbody⟩ := h.exists_document hdocument
    rcases hload : site.resolveFile path kind journal with ⟨outcome, after⟩
    rcases hload' : (site.withTree tree').resolveFile path kind journal' with ⟨outcome', after'⟩
    obtain ⟨run, hresolves, -⟩ := Site.resolves_of_resolveFile hdocument hload
    obtain ⟨run', hresolves', -⟩ := Site.resolves_of_resolveFile hdocument' hload'
    rw [hfile] at hresolves'
    let entered : Run := ⟨journal'.map (·.log (.fileLoaded path.toString kind)), []⟩
    have hactive : entered.active = [] := rfl
    obtain ⟨other, last, hother, hsame⟩ := h.exists_resolves hresolves hbody hactive
    rw [(hresolves'.unique hother).1]
    exact hsame

/-- Files of hosts that say the same resolve alike. -/
theorem resolveHost_eq (h : site.tree.SaysAlike tree') (host : String)
    (journal journal' : Option Journal) :
    unplacedOutcome ((site.withTree tree').resolveHost host journal').1 =
      unplacedOutcome (site.resolveHost host journal).1 := by
  have hcontains := h.contains_eq (site.layout.hostFile host)
  cases htree : site.tree.contains (site.layout.hostFile host) with
  | false =>
    rw [Site.resolveHost_of_not_contains htree,
      Site.resolveHost_of_not_contains (hcontains.trans htree)]
  | true =>
    rw [Site.resolveHost_of_contains htree, Site.resolveHost_of_contains (hcontains.trans htree)]
    exact h.resolveFile_eq _ .host journal journal'

/-- A load over files that say the same ends alike. -/
theorem load_eq (h : site.tree.SaysAlike tree') (host : String)
    (journal journal' : Option Journal) :
    unplacedOutcome ((site.withTree tree').load host journal').1 =
      unplacedOutcome (site.load host journal).1 := by
  have hmain := h.resolveFile_eq site.layout.mainFile .main (journal.map (·.identify host))
    (journal'.map (·.identify host))
  simp only [Site.load, Site.resolveConfig, site.tree_withTree, site.layout_withTree, h.contains_eq]
  cases site.tree.contains site.layout.mainFile with
  | false => rfl
  | true =>
    simp only [Bool.not_true, Bool.false_eq_true, if_false]
    rcases hfirst : site.resolveFile site.layout.mainFile .main (journal.map (·.identify host)) with
      ⟨outcome, middle⟩
    rcases hfirst' : (site.withTree tree').resolveFile site.layout.mainFile .main
      (journal'.map (·.identify host)) with ⟨outcome', middle'⟩
    rw [hfirst, hfirst'] at hmain ⊢
    cases outcome with
    | error failure =>
      obtain ⟨failure', rfl, hsame⟩ := exists_error_of_unplacedOutcome_eq hmain rfl
      exact congrArg Except.error hsame
    | ok main =>
      obtain rfl := eq_ok_of_unplacedOutcome_eq hmain rfl
      have hhost := h.resolveHost_eq host middle middle'
      rcases hlast : site.resolveHost host middle with ⟨outcome, last⟩
      rcases hlast' : (site.withTree tree').resolveHost host middle' with ⟨outcome', last'⟩
      rw [hlast, hlast'] at hhost
      cases outcome with
      | error failure =>
        obtain ⟨failure', rfl, hsame⟩ := exists_error_of_unplacedOutcome_eq hhost rfl
        simp only [hlast, hlast']
        exact congrArg Except.error hsame
      | ok inner =>
        obtain rfl := eq_ok_of_unplacedOutcome_eq hhost rfl
        simp only [hlast, hlast']

end FileTree.SaysAlike

/-- After any number of cosmetic edits a load gives the same configuration, or it has the same
problem in the same file. -/
theorem Site.load_of_cosmeticSteps {site : Site} {tree' : FileTree}
    (h : Relation.ReflTransGen FileTree.CosmeticStep site.tree tree') (host : String)
    (journal journal' : Option Journal) :
    (∀ config, ((site.withTree tree').load host journal').1 = .ok config ↔
        (site.load host journal).1 = .ok config) ∧
      ∀ failure, (site.load host journal).1 = .error failure → ∃ p p', failure = .problem p ∧
        ((site.withTree tree').load host journal').1 = .error (.problem p') ∧
        p'.cause = p.cause ∧ p'.origin.file = p.origin.file := by
  have hsame := (FileTree.saysAlike_of_cosmeticSteps h).load_eq host journal journal'
  constructor
  · intro config
    exact ⟨eq_ok_of_unplacedOutcome_eq hsame.symm, eq_ok_of_unplacedOutcome_eq hsame⟩
  · intro failure hfailure
    obtain ⟨p, rfl, -⟩ := site.meets_of_load hfailure
    obtain ⟨failure', hfailure', hunplaced⟩ := exists_error_of_unplacedOutcome_eq hsame hfailure
    obtain ⟨p', rfl, -⟩ := (site.withTree tree').meets_of_load hfailure'
    obtain ⟨hplace, hcause⟩ := Problem.mk.inj (Failure.problem.inj hunplaced)
    exact ⟨p, p', rfl, hfailure', hcause, (Origin.mk.inj hplace).1⟩

/-- A comment inside a list of packages, and one behind a quoted hash sign, do not matter. -/
theorem Site.load_of_cosmeticSteps_comments :
    let site := Site.ofTexts "/owl" [("/owl/main.owl", "@packages\nvim\n@package p\n@group g\n"),
      ("/owl/groups/g.owl", "@env K = \"#1\"\n@script run\n")]
    let main := (Path.ofString "/owl/main.owl")
    let group := (Path.ofString "/owl/groups/g.owl")
    let bytes (text : String) : List UInt8 := text.toList.map fun c => UInt8.ofNat c.toNat
    let middle := site.tree.insert main
      (.file (bytes "@packages\n\t # tools\nvim\n@package p\n@group g\n"))
    let last := middle.insert group
      (.file (bytes "@env K = \"#1\" # it's quoted\n@script run\n"))
    let source : Provenance := ⟨"/owl/main.owl", .main, none⟩
    Relation.ReflTransGen FileTree.CosmeticStep site.tree last ∧
      ((site.withTree last).load "box" none).1 = .ok ⟨[⟨"vim", source, [], [], [], []⟩,
        ⟨"p", source, [], [], [], []⟩], [⟨"K", "\"#1\""⟩], ["run"]⟩ := by
  intro site main group bytes middle last source
  have hfirst : site.tree.CosmeticStep middle := by
    refine ⟨main, bytes "@packages\nvim\n@package p\n@group g\n", _, by decide +kernel,
      .line ?_, rfl⟩
    have hfiller : Text.IsFiller ("\t ".toList ++ '#' :: " tools".toList) :=
      .comment (by decide) (by decide) (by decide)
    exact .insert ["@packages".toList]
      ["vim".toList, "@package p".toList, "@group g".toList, []] hfiller
  have hsecond : middle.CosmeticStep last := by
    refine ⟨group, bytes "@env K = \"#1\"\n@script run\n", _, by decide +kernel, .line ?_, rfl⟩
    have hfiller : Text.IsFiller (" ".toList ++ '#' :: " it's quoted".toList) :=
      .comment (by decide) (by decide) (by decide)
    have hline : Text.EndsPlain "@env K = \"#1\"".toList := by decide
    exact .append [] ["@script run".toList, []] hline hfiller
  have hsteps : Relation.ReflTransGen FileTree.CosmeticStep site.tree last :=
    (Relation.ReflTransGen.single hfirst).tail hsecond
  have hload : (site.load "box" none).1 = .ok ⟨[⟨"vim", source, [], [], [], []⟩,
      ⟨"p", source, [], [], [], []⟩], [⟨"K", "\"#1\""⟩], ["run"]⟩ := by decide +kernel
  exact ⟨hsteps, ((Site.load_of_cosmeticSteps hsteps "box" none none).1 _).mpr hload⟩

end HostConfig
