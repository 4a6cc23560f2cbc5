import HostConfig.Document
import HostConfig.FileTree
import HostConfig.Journal
import HostConfig.Layout
import HostConfig.Report

/-!
# Resolving documents

The statements of a document are carried out in order. Each declaration about a package adds to
the package's entry. A declared service becomes a service by its properties: the scope is one of
two words, each of five flags is a truth value, and the first of these that is not so is the
problem. Other properties mean nothing.

The inclusion of a group resolves the group's document in turn and merges its entries over those
gathered so far, while its variables and scripts stand where it is included.

A group is active while its document is being resolved, and including an active group is a cycle;
a group included twice, one time after the other, is none. The run, that is the journal and the
set of active groups, goes on through success and failure alike. Recursion is bounded by a depth,
of which the wrapper at the end gives enough: active groups are distinct and each has a path in
the tree.
-/

namespace HostConfig

open HostConfig.Payload

/-- The keys of the flags, in the order in which they are checked. -/
def flagKeys : List String := ["enable", "start", "restart", "reload", "mask"]

/-- Whether a property means something. -/
def isKnownProperty (key : String) : Bool := key == "scope" || flagKeys.contains key

/-- The scope that properties give. -/
def scopeOf (props : Properties) : Except Cause String :=
  match props.get? "scope" with
  | none => .ok "system"
  | some (.text s) => if s = "system" || s = "user" then .ok s else .error (.badScope (.text s))
  | some value => .error (.badScope value)

/-- The flag that properties give. -/
def flagOf (props : Properties) (key : String) : Except Cause (Option Bool) :=
  match props.get? key with
  | none => .ok none
  | some (.flag b) => .ok (some b)
  | some (.text s) => .error (.badFlag key s)

/-- The service of a name with properties. -/
def Service.ofProperties (name : String) (props : Properties) : Except Cause Service := do
  let scope ← scopeOf props
  let enable ← flagOf props "enable"
  let start ← flagOf props "start"
  let restart ← flagOf props "restart"
  let reload ← flagOf props "reload"
  let mask ← flagOf props "mask"
  return ⟨name, scope, enable.getD true, start.getD true, restart, reload, mask⟩

/-- Where documents are looked up. -/
structure Site where
  tree : FileTree
  layout : Layout

/-- The record of a resolution, if one is kept, and the groups being expanded. -/
structure Run where
  journal : Option Journal
  active : List String

/-- Why a resolution ended without result: a problem of the configuration, a statement that says
nothing, or groups nested deeper than was allowed for. -/
inductive Failure
  | problem (p : Problem)
  | blankStatement
  | tooDeep
  deriving DecidableEq, Repr

/-- The sentence that tells why there is no result. -/
def Failure.message : Failure → String
  | problem p => p.diagnostic.render
  | blankStatement => "Unsupported AST node: Node"
  | tooDeep => "maximum recursion depth exceeded"

/-- What a document resolves to. -/
structure Resolution where
  entries : Entries := []
  envs : List EnvVar := []
  scripts : List String := []
  deriving DecidableEq, Repr

/-- Record what happened, if a record is kept. -/
def Run.log (r : Run) (n : Notice) : Run := { r with journal := r.journal.map (·.log n) }

/-- Record several things one after the other. -/
def Run.logAll (r : Run) (ns : List Notice) : Run := { r with journal := r.journal.map (·.logAll ns) }

/-- Record warnings about a file. -/
def Run.warnAll (r : Run) (file : String) (texts : List String) : Run :=
  { r with journal := r.journal.map (·.warnAll file texts) }

/-- Mark a group as being expanded. -/
def Run.enter (r : Run) (group : String) : Run := { r with active := group :: r.active }

/-- Mark a group as no longer being expanded. -/
def Run.leave (r : Run) (group : String) : Run :=
  { r with active := r.active.filter (· ≠ group) }

/-- The document of a file. -/
def Site.document (s : Site) (p : Path) : Except Problem Document :=
  match s.tree.read p with
  | .error reason => .error (.ofFile p.toString (.unreadable p.toString reason))
  | .ok text => Document.ofText p.toString text

/-- The warnings about what a statement says. -/
def Form.warnings : Form → List String
  | .packageScript _ _ true => ["'!setup' is deprecated, use ':script' instead"]
  | .packageService _ _ props =>
    (props.filter fun p => !isKnownProperty p.1).map fun p =>
      "unknown service property '" ++ p.1 ++ "' ignored"
  | _ => []

/-- The warnings about a statement, with its line. -/
def Statement.warnings (s : Statement) : List String :=
  s.form.warnings.map fun text => "line " ++ toString s.origin.line ++ ": " ++ text

/-- Change the entry of a package, which comes from this document unless it exists already. -/
def Resolution.modifyEntry (r : Resolution) (source : Provenance) (package : String)
    (change : Entry → Entry) : Resolution :=
  { r with entries := r.entries.modify { package, provenance := source } change }

/-- Carry out a statement that includes no group. -/
def Resolution.declare (r : Resolution) (layout : Layout) (source : Provenance) (s : Statement) :
    Except Failure Resolution :=
  match s.form with
  | .listing | .group _ => .ok r
  | .item name | .package name => .ok (r.modifyEntry source name id)
  | .env key value => .ok { r with envs := r.envs ++ [⟨key, value⟩] }
  | .script text => .ok { r with scripts := r.scripts ++ [text] }
  | .packageConfig package src destination =>
    .ok (r.modifyEntry source package fun e =>
      { e with configs := e.configs ++ [⟨(layout.dotfile src).toString, destination⟩] })
  | .packageEnv package key value =>
    .ok (r.modifyEntry source package fun e => { e with envs := e.envs ++ [⟨key, value⟩] })
  | .packageService package name props =>
    match Service.ofProperties name props with
    | .error cause => .error (.problem ⟨s.origin, cause⟩)
    | .ok service =>
      .ok (r.modifyEntry source package fun e => { e with services := e.services ++ [service] })
  | .packageScript package text _ =>
    .ok (r.modifyEntry source package fun e => { e with setups := e.setups ++ [text] })
  | .blank => .error .blankStatement

/-- Put what a group resolves to over what was gathered so far. -/
def Resolution.absorb (r inner : Resolution) : Resolution where
  entries := r.entries.putAll inner.entries
  envs := r.envs ++ inner.envs
  scripts := r.scripts ++ inner.scripts

/-- Merge the resolution of a group, and record it. -/
def Run.absorb (run : Run) (group : String) (r inner : Resolution) : Run :=
  (run.logAll (mergeNotices r.entries inner.entries)).log
    (.groupLeft group inner.entries.length)

/-- Resolve a body, given how a group is resolved and what was gathered so far. -/
def resolveBody (expand : Origin → String → Run → Except Failure Resolution × Run)
    (layout : Layout) (source : Provenance) :
    List Statement → Resolution → Run → Except Failure Resolution × Run
  | [], r, run => (.ok r, run)
  | s :: rest, r, run =>
    match s.form with
    | .group name =>
      match expand s.origin name run with
      | (.error failure, run) => (.error failure, run)
      | (.ok inner, run) =>
        resolveBody expand layout source rest (r.absorb inner) (run.absorb name r inner)
    | _ =>
      let run := run.warnAll s.origin.file s.warnings
      match r.declare layout source s with
      | .error failure => (.error failure, run)
      | .ok r => resolveBody expand layout source rest r run

/-- Expand a group, given how its document is resolved. -/
def expandGroup (resolve : Provenance → Document → Run → Except Failure Resolution × Run)
    (site : Site) (origin : Origin) (name : String) (run : Run) :
    Except Failure Resolution × Run :=
  let path := site.layout.groupFile name
  if run.active.contains name then (.error (.problem ⟨origin, .cycle name⟩), run)
  else if !site.tree.contains path then
    (.error (.problem ⟨origin, .missingGroup path.toString⟩), run)
  else
    let entered := (run.enter name).log (.groupEntered name path.toString)
    match site.document path with
    | .error p => (.error (.problem p), entered.leave name)
    | .ok document =>
      let (outcome, after) := resolve ⟨document.file, .group, some name⟩ document entered
      (outcome, after.leave name)

/-- Resolve a document with groups nested at most so deep. -/
def resolveWithin (site : Site) :
    Nat → Provenance → Document → Run → Except Failure Resolution × Run
  | 0, _, _, run => (.error .tooDeep, run)
  | depth + 1, source, document, run =>
    resolveBody (expandGroup (resolveWithin site depth) site) site.layout source document.body {} run

/-- A number that the nesting of groups in a tree cannot exceed: more than there are paths. -/
def FileTree.depth (t : FileTree) : Nat := t.keys.foldr (fun k n => k.length + 1 + n) 2

/-- Resolve a document. -/
def resolve (site : Site) (source : Provenance) (document : Document) (run : Run) :
    Except Failure Resolution × Run :=
  resolveWithin site site.tree.depth source document run

end HostConfig
