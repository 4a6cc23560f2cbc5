import HostConfig.Proofs.Load.Outcome
import HostConfig.Proofs.Relevant.Closure

/-!
# Where the problem of a load is

A load that fails has a problem, and the problem is at a place that exists: on a line of a relevant
file, which for a problem with a group is an inclusion of that group, or at a file as a whole that
the load had to open. While documents are resolved, the one at hand is always that of a relevant
file.
-/

namespace HostConfig

/-- A place is on a line of a file that is relevant to a host. -/
structure Site.OnLine (site : Site) (host : String) (o : Origin) (path : Path)
    (text : List Char) : Prop where
  relevant : path ∈ relevantFiles site.tree site.layout host
  read : site.tree.read path = .ok text
  file : o.file = path.toString
  line : o.IsLineOf text

/-- A place is an inclusion of a group in a relevant file. -/
def Site.OnInclusion (site : Site) (host : String) (o : Origin) (name : String) : Prop :=
  ∃ path text, site.OnLine host o path text ∧
    ∃ t ∈ tokenize path.toString text, t.origin = o ∧ t.kind = .directive .group ∧ t.payload = name

/-- A file is one that a load has to open: the main file, that of the host, or that of a group
with a possible name that a relevant file includes. -/
def Site.Opens (site : Site) (host file : String) : Prop :=
  file = site.layout.mainFile.toString ∨ file = (site.layout.hostFile host).toString ∨
    ∃ path ∈ relevantFiles site.tree site.layout host, ∃ name ∈ groupsOfFile site.tree path,
      isGroupName name ∧ file = (site.layout.groupFile name).toString

/-- The problems that a load can have. -/
inductive Site.Meets (site : Site) (host : String) : Problem → Prop
  | line {p : Problem} {path : Path} {text : List Char} (hplace : site.OnLine host p.origin path text)
      (hcategory : p.cause.category = .structural ∨ p.cause.category = .context ∨
        p.cause.category = .unknownDirective) : site.Meets host p
  | missing {o : Origin} {name : String} (hplace : site.OnInclusion host o name)
      (htree : site.tree.contains (site.layout.groupFile name) = false) :
    site.Meets host ⟨o, .missingGroup (site.layout.groupFile name).toString⟩
  | cycle {o : Origin} {name : String} (hplace : site.OnInclusion host o name) :
    site.Meets host ⟨o, .cycle name⟩
  | unreadable {file reason : String} (hfile : site.Opens host file) :
    site.Meets host (.ofFile file (.unreadable file reason))
  | noMain (htree : site.tree.contains site.layout.mainFile = false) :
    site.Meets host (.ofFile site.layout.mainFile.toString
      (.missingMain site.layout.mainFile.toString))

variable {site : Site} {host : String} {path : Path}

/-- A file that a load opens without finding a document has a problem that the load can have. -/
theorem Site.meets_of_document_eq_error {p : Problem} (hdocument : site.document path = .error p)
    (hopens : site.Opens host path.toString)
    (hrelevant : site.tree.isFile path = true → path ∈ relevantFiles site.tree site.layout host) :
    site.Meets host p := by
  obtain ⟨reason, rfl⟩ | ⟨text, hread, hfile, hline, hcategory⟩ :=
    Site.problem_of_document hdocument
  · exact .unreadable hopens
  · exact .line ⟨hrelevant (FileTree.isFile_of_read hread), hread, hfile, hline⟩ hcategory

/-- A statement of a relevant file stands on a line of that file. -/
theorem Site.onLine_of_statement {document : Document} {s : Statement}
    (hrelevant : path ∈ relevantFiles site.tree site.layout host)
    (hdocument : site.document path = .ok document) (hs : s ∈ document.body) :
    ∃ text, site.OnLine host s.origin path text := by
  obtain ⟨-, text, hread, hfile, hline, -⟩ := Site.place_of_statement hdocument hs
  exact ⟨text, hrelevant, hread, hfile, hline⟩

/-- An inclusion in a relevant file stands where the file has one. -/
theorem Site.onInclusion_of_statement {document : Document} {s : Statement} {name : String}
    (hrelevant : path ∈ relevantFiles site.tree site.layout host)
    (hdocument : site.document path = .ok document) (hs : s ∈ document.body)
    (hform : s.form.group? = some name) : site.OnInclusion host s.origin name := by
  obtain ⟨-, text, hread, hfile, hline, hgroup⟩ := Site.place_of_statement hdocument hs
  exact ⟨path, text, ⟨hrelevant, hread, hfile, hline⟩, hgroup name (Form.group?_eq_some_iff.mp hform)⟩

/-- A group that a statement of a file includes is among those that a scan of the file finds. -/
theorem Site.mem_groupsOfFile_of_statement {document : Document} {s : Statement} {name : String}
    (hdocument : site.document path = .ok document) (hs : s ∈ document.body)
    (hform : s.form.group? = some name) : name ∈ groupsOfFile site.tree path := by
  rw [site.groupsOfFile_of_document hdocument]
  exact Document.mem_groups_of_mem_body hs hform

/-- A relevant file that does not resolve has a problem that the load can have. -/
theorem Resolves.meets {source : Provenance} {body : List Statement} {r : Resolution}
    {run after : Run} {outcome : Except Failure Resolution} {document : Document}
    (h : Resolves site source body r run outcome after)
    (hrelevant : path ∈ relevantFiles site.tree site.layout host)
    (hdocument : site.document path = .ok document) (hbody : ∀ s ∈ body, s ∈ document.body)
    {failure : Failure} (hfailure : outcome = .error failure) :
    ∃ p, failure = .problem p ∧ site.Meets host p := by
  induction h generalizing path document with
  | done => cases hfailure
  | declare _ _ _ ih | expand _ _ _ _ _ _ ih =>
    exact ih hrelevant hdocument (fun s hs => hbody s (List.mem_cons_of_mem _ hs)) hfailure
  | @reject _ s _ _ _ _ _ hdeclare =>
    cases hfailure
    have hs := hbody s List.mem_cons_self
    obtain ⟨hblank, -⟩ | ⟨_, _, _, cause, -, herror, rfl⟩ := Resolution.declare_eq_error hdeclare
    · exact absurd hblank (Site.place_of_statement hdocument hs).1
    · obtain ⟨text, hline⟩ := Site.onLine_of_statement hrelevant hdocument hs
      have hplace : site.OnLine host (Problem.mk s.origin cause).origin path text := hline
      exact ⟨_, rfl, .line hplace (Or.inl (category_of_ofProperties herror))⟩
  | cycle hform =>
    cases hfailure
    exact ⟨_, rfl, .cycle (Site.onInclusion_of_statement hrelevant hdocument
      (hbody _ List.mem_cons_self) hform)⟩
  | missing hform _ htree =>
    cases hfailure
    exact ⟨_, rfl, .missing (Site.onInclusion_of_statement hrelevant hdocument
      (hbody _ List.mem_cons_self) hform) htree⟩
  | @unread _ _ _ _ _ name p hform _ _ herror =>
    cases hfailure
    have hname := Site.mem_groupsOfFile_of_statement hdocument (hbody _ List.mem_cons_self) hform
    have hopens : site.Opens host (site.layout.groupFile name).toString :=
      Or.inr (Or.inr ⟨path, hrelevant, name, hname, isGroupName_of_mem_groupsOfFile hname, rfl⟩)
    exact ⟨p, rfl, Site.meets_of_document_eq_error herror hopens
      (Site.groupFile_mem_relevantFiles hrelevant hname)⟩
  | fail hform _ hinner _ ih =>
    have hname := Site.mem_groupsOfFile_of_statement hdocument (hbody _ List.mem_cons_self) hform
    have hfile := site.isFile_of_document hinner
    cases hfailure
    exact ih (Site.groupFile_mem_relevantFiles hrelevant hname hfile) hinner (fun _ hs => hs) rfl

/-- A file that a load opens and that does not resolve has a problem that the load can have. -/
theorem Site.meets_of_resolveFile {kind : SourceKind} {journal after : Option Journal}
    {failure : Failure} (hopens : site.Opens host path.toString)
    (hrelevant : site.tree.isFile path = true → path ∈ relevantFiles site.tree site.layout host)
    (h : site.resolveFile path kind journal = (.error failure, after)) :
    ∃ p, failure = .problem p ∧ site.Meets host p := by
  cases hdocument : site.document path with
  | error p =>
    rw [site.resolveFile_of_document_eq_error hdocument] at h
    cases h
    exact ⟨p, rfl, Site.meets_of_document_eq_error hdocument hopens hrelevant⟩
  | ok document =>
    obtain ⟨run, hresolves, -⟩ := site.resolves_of_resolveFile hdocument h
    have hfile := hrelevant (site.isFile_of_document hdocument)
    exact hresolves.meets hfile hdocument (fun _ hs => hs) rfl

/-- A load that fails has a problem that a load can have. -/
theorem Site.meets_of_load {journal : Option Journal} {failure : Failure}
    (h : (site.load host journal).1 = .error failure) :
    ∃ p, failure = .problem p ∧ site.Meets host p := by
  have hload : site.load host journal = (.error failure, (site.load host journal).2) :=
    Prod.ext h rfl
  obtain ⟨htree, rfl, -⟩ | ⟨-, hmain⟩ | ⟨_, middle, -, -, hhost⟩ := site.load_eq_error hload
  · exact ⟨_, rfl, .noMain htree⟩
  · exact Site.meets_of_resolveFile (Or.inl rfl) Site.mainFile_mem_relevantFiles hmain
  · exact Site.meets_of_resolveFile (Or.inr (Or.inl rfl)) Site.hostFile_mem_relevantFiles hhost

/-- A problem points at a place that exists, whatever its category. -/
structure Site.Places (site : Site) (host : String) (p : Problem) : Prop where
  /-- A problem with what a line says is on a line of a relevant file. -/
  onLine : p.cause.category ∈ [.structural, .context, .unknownDirective, .reference, .cycle] →
    ∃ path text, site.OnLine host p.origin path text
  /-- A problem with a missing group is at an inclusion of a group that has no file. -/
  onReference : p.cause.category = .reference → ∃ name,
    p.cause = .missingGroup (site.layout.groupFile name).toString ∧
      site.tree.contains (site.layout.groupFile name) = false ∧
        site.OnInclusion host p.origin name
  onCycle : p.cause.category = .cycle → ∃ name, p.cause = .cycle name ∧
    site.OnInclusion host p.origin name
  /-- A problem with a file as a whole is at no line of a file that the load has to open. -/
  onFile : p.cause.category ∈ [.notFound, .unreadable] →
    p.origin.line = 0 ∧ p.origin.raw = "" ∧ site.Opens host p.origin.file

/-- The problem of a load that fails points at a place that exists. -/
theorem Site.places_of_load {journal : Option Journal} {failure : Failure}
    (h : (site.load host journal).1 = .error failure) :
    ∃ p, failure = .problem p ∧ site.Places host p := by
  obtain ⟨p, rfl, hmeets⟩ := site.meets_of_load h
  refine ⟨p, rfl, ?_⟩
  cases hmeets with
  | @line p path text hplace hcategory =>
    constructor
    case onLine => exact fun _ => ⟨path, text, hplace⟩
    case onReference | onCycle =>
      intro hother
      simp [hother] at hcategory
    case onFile =>
      intro hother
      obtain hcase | hcase | hcase := hcategory <;> simp [hcase] at hother
  | @missing o name hplace htree =>
    constructor
    case onLine =>
      obtain ⟨path, text, hline, -⟩ := hplace
      exact fun _ => ⟨path, text, hline⟩
    case onReference => exact fun _ => ⟨name, rfl, htree, hplace⟩
    case onCycle | onFile =>
      intro hother
      simp [Cause.category] at hother
  | @cycle o name hplace =>
    constructor
    case onLine =>
      obtain ⟨path, text, hline, -⟩ := hplace
      exact fun _ => ⟨path, text, hline⟩
    case onCycle => exact fun _ => ⟨name, rfl, hplace⟩
    case onReference | onFile =>
      intro hother
      simp [Cause.category] at hother
  | unreadable hopens =>
    constructor
    case onFile => exact fun _ => ⟨rfl, rfl, hopens⟩
    case onLine | onReference | onCycle =>
      intro hother
      simp [Problem.ofFile, Cause.category] at hother
  | noMain =>
    constructor
    case onFile => exact fun _ => ⟨rfl, rfl, Or.inl rfl⟩
    case onLine | onReference | onCycle =>
      intro hother
      simp [Problem.ofFile, Cause.category] at hother

/-- A group that has no file, included by another group on the last line of its file. -/
theorem Site.places_of_load_missing_group :
    let site := Site.ofTexts "/owl" [("/owl/main.owl", "@group a\n"),
      ("/owl/groups/a.owl", "# nothing\n  @group gone # later\n")]
    let p : Problem := ⟨⟨"/owl/groups/a.owl", 2, "  @group gone # later"⟩,
      .missingGroup "/owl/groups/gone.owl"⟩
    (site.load "box" none).1 = .error (.problem p) ∧ site.Places "box" p := by
  intro site p
  have hfails : (site.load "box" none).1 = .error (.problem p) := by decide +kernel
  obtain ⟨q, hq, hplaces⟩ := site.places_of_load hfails
  cases hq
  exact ⟨hfails, hplaces⟩

end HostConfig
