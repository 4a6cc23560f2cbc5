import HostConfig.Proofs.Document.Raising
import HostConfig.Proofs.Resolution.Derivation
import HostConfig.Proofs.Entries.Fields

/-!
# Resolving with every raise

Documents are resolved once more with the entries in a table, each under the name that it was put
under, and with each step that raises an error: merging the entries under a name, which must be of
one package, and carrying out a statement. In every table that is reached, the entry under a name is
that of the package of this name. So the merges do not fail, and a resolution with every raise is
the resolution itself.
-/

namespace HostConfig

/-- What a failure raises. -/
def Raised.ofFailure : Failure → Raised
  | .problem p => .typed p
  | .blankStatement => .unsupported
  | .tooDeep => .tooDeep

namespace Raising

/-- Entries under names, in the order in which the names came. -/
abbrev Table := List (String × Entry)

namespace Table

/-- The entry under a name. -/
def get? (t : Table) (name : String) : Option Entry :=
  (t.find? fun item => item.1 = name).map (·.2)

/-- Put an entry under a name, in the place of the one that is there. -/
def set (name : String) (e : Entry) : Table → Table
  | [] => [(name, e)]
  | item :: rest => if item.1 = name then (name, e) :: rest else item :: set name e rest

/-- The entries in order. -/
def values (t : Table) : List Entry := t.map (·.2)

/-- Each entry under the name of its package. -/
def ofEntries (es : Entries) : Table := es.map fun e => (e.package, e)

/-- Merge entries one after the other, each over the one under the name of its package. -/
def merge (t : Table) : List Entry → Except Raised Table
  | [] => .ok t
  | e :: rest =>
    match t.get? e.package with
    | none => merge (t.set e.package e) rest
    | some earlier =>
      match earlier.merge e with
      | .error c => .error (.clash c)
      | .ok merged => merge (t.set e.package merged) rest

end Table

/-- What a document resolves to, with its entries in a table. -/
structure Gathered where
  entries : Table := []
  envs : List EnvVar := []
  scripts : List String := []

namespace Gathered

/-- What is gathered when a document resolves. -/
def ofResolution (r : Resolution) : Gathered := ⟨.ofEntries r.entries, r.envs, r.scripts⟩

/-- Change the entry under the name of a package, which comes from this document unless it exists
already. -/
def modifyEntry (g : Gathered) (source : Provenance) (package : String)
    (change : Entry → Entry) : Gathered :=
  let e := (g.entries.get? package).getD { package, provenance := source }
  { g with entries := g.entries.set package (change e) }

/-- Carry out a statement that includes no group. -/
def declare (g : Gathered) (layout : Layout) (source : Provenance) (s : Statement) :
    Except Raised Gathered :=
  match s.form with
  | .listing | .group _ => .ok g
  | .item name | .package name => .ok (g.modifyEntry source name id)
  | .env key value => .ok { g with envs := g.envs ++ [⟨key, value⟩] }
  | .script text => .ok { g with scripts := g.scripts ++ [text] }
  | .packageConfig package src destination =>
    .ok (g.modifyEntry source package fun e =>
      { e with configs := e.configs ++ [⟨(layout.dotfile src).toString, destination⟩] })
  | .packageEnv package key value =>
    .ok (g.modifyEntry source package fun e => { e with envs := e.envs ++ [⟨key, value⟩] })
  | .packageService package name props =>
    match Service.ofProperties name props with
    | .error cause => .error (.ofCause s.origin cause)
    | .ok service =>
      .ok (g.modifyEntry source package fun e => { e with services := e.services ++ [service] })
  | .packageScript package text _ =>
    .ok (g.modifyEntry source package fun e => { e with setups := e.setups ++ [text] })
  | .blank => .error .unsupported

/-- Merge what a group resolves to over what was gathered so far. -/
def absorb (g inner : Gathered) : Except Raised Gathered :=
  (g.entries.merge inner.entries.values).map fun entries =>
    ⟨entries, g.envs ++ inner.envs, g.scripts ++ inner.scripts⟩

end Gathered

/-- Resolve a body, given how a group is resolved and what was gathered so far. -/
def resolveBody (expand : Origin → String → Except Raised Gathered) (layout : Layout)
    (source : Provenance) : List Statement → Gathered → Except Raised Gathered
  | [], g => .ok g
  | s :: rest, g =>
    match s.form with
    | .group name => do
      let inner ← expand s.origin name
      let g ← g.absorb inner
      resolveBody expand layout source rest g
    | _ => do
      let g ← g.declare layout source s
      resolveBody expand layout source rest g

/-- Expand a group while some groups are being expanded, given how its document is resolved. -/
def expandGroup (resolve : List String → Provenance → Document → Except Raised Gathered)
    (site : Site) (active : List String) (origin : Origin) (name : String) :
    Except Raised Gathered :=
  let path := site.layout.groupFile name
  if active.contains name then .error (.ofCause origin (.cycle name))
  else if !site.tree.contains path then .error (.ofCause origin (.missingGroup path.toString))
  else do
    let d ← document site path
    resolve (name :: active) ⟨d.file, .group, some name⟩ d

/-- Resolve a document with groups nested at most so deep, while some groups are being expanded. -/
def resolveWithin (site : Site) : Nat → List String → Provenance → Document → Except Raised Gathered
  | 0, _, _, _ => .error .tooDeep
  | depth + 1, active, source, d =>
    resolveBody (expandGroup (resolveWithin site depth) site active) site.layout source d.body {}

namespace Table

/-- Under the name of a package stands the package's entry. -/
theorem get?_ofEntries (es : Entries) (package : String) :
    (ofEntries es).get? package = es.get? package := by
  rw [get?, ofEntries, List.find?_map, Option.map_map, Entries.get?]
  exact Option.map_id'

/-- The entries in order are those of the table. -/
theorem values_ofEntries (es : Entries) : (ofEntries es).values = es := by
  rw [values, ofEntries, List.map_map]
  exact List.map_id' _

/-- An entry that is changed stands under the name of its package again. -/
theorem set_ofEntries (es : Entries) {fresh : Entry} (change : Entry → Entry)
    (hchange : ∀ e, e.package = fresh.package → (change e).package = fresh.package) :
    (ofEntries es).set fresh.package (change ((es.get? fresh.package).getD fresh)) =
      ofEntries (es.modify fresh change) := by
  induction es with
  | nil => simp [ofEntries, set, Entries.get?, Entries.modify, hchange]
  | cons e rest ih =>
    by_cases he : e.package = fresh.package
    · simp [ofEntries, set, Entries.get?_cons, Entries.modify, he, hchange]
    · simpa [ofEntries, set, Entries.get?_cons, Entries.modify, he] using ih

/-- Entries under the names of their packages are merged without a clash. -/
theorem merge_ofEntries (es : Entries) (later : List Entry) :
    (ofEntries es).merge later = .ok (ofEntries (es.putAll later)) := by
  induction later generalizing es with
  | nil => rfl
  | cons e rest ih =>
    have hput : (ofEntries es).set e.package (((es.get? e.package).getD e).override e) =
        ofEntries (es.put e) := by
      rw [Entries.put_eq_modify]
      exact set_ofEntries es (·.override e) fun _ _ => rfl
    have hstep : es.putAll (e :: rest) = (es.put e).putAll rest := rfl
    rw [merge, get?_ofEntries, hstep, ← ih, ← hput]
    cases hget : es.get? e.package with
    | none => rw [Option.getD_none, Entry.override_self]
    | some earlier =>
      have hsame : earlier.package = e.package := Entries.package_of_get? hget
      simp only [Entry.merge, if_pos hsame, Option.getD_some]

/-- An entry under the name of another package would clash. -/
example (source : Provenance) :
    merge [("vim", ⟨"emacs", source, [], [], [], []⟩)] [⟨"vim", source, [], [], [], []⟩] =
      .error (.clash ⟨"emacs", "vim"⟩) := rfl

end Table

/-- What a resolution that ends raises, or what it gathers. -/
def outcome (o : Except Failure Resolution) : Except Raised Gathered :=
  (o.map .ofResolution).mapError .ofFailure

namespace Gathered

/-- Changing an entry is the same in a table. -/
theorem modifyEntry_ofResolution (r : Resolution) (source : Provenance) (package : String)
    {change : Entry → Entry} (hchange : ∀ e, (change e).package = e.package) :
    (ofResolution r).modifyEntry source package change =
      ofResolution (r.modifyEntry source package change) := by
  have hsame : ∀ e, e.package = ({ package, provenance := source } : Entry).package →
      (change e).package = package := fun e he => (hchange e).trans he
  have hset := Table.set_ofEntries r.entries change hsame
  simp only [modifyEntry, ofResolution, Resolution.modifyEntry, Table.get?_ofEntries, hset]

/-- Carrying out a statement is the same with a table. -/
theorem declare_ofResolution (r : Resolution) (layout : Layout) (source : Provenance)
    (s : Statement) :
    (ofResolution r).declare layout source s = outcome (r.declare layout source s) := by
  rw [declare, Resolution.declare]
  cases s.form with
  | packageService package name props =>
    simp only
    cases Service.ofProperties name props with
    | error cause => rfl
    | ok service =>
      exact congrArg Except.ok (modifyEntry_ofResolution r source package fun _ => rfl)
  | item name | package name =>
    exact congrArg Except.ok (modifyEntry_ofResolution r source name fun _ => rfl)
  | packageConfig package _ _ | packageEnv package _ _ | packageScript package _ _ =>
    exact congrArg Except.ok (modifyEntry_ofResolution r source package fun _ => rfl)
  | listing | group | env | script | blank => rfl

/-- Merging what a group resolves to is the same with tables, and does not fail. -/
theorem absorb_ofResolution (r inner : Resolution) :
    (ofResolution r).absorb (ofResolution inner) = .ok (ofResolution (r.absorb inner)) := by
  have hmerge := Table.merge_ofEntries r.entries inner.entries
  rw [absorb, ofResolution, ofResolution, Table.values_ofEntries, hmerge]
  rfl

end Gathered

variable {site : Site} {depth : Nat} {source : Provenance} {run : Run} {name : String}

/-- Expanding a group leaves the groups being expanded as they are. -/
theorem active_of_expandGroup {origin : Origin} {inner : Resolution} {after : Run}
    (h : HostConfig.expandGroup (HostConfig.resolveWithin site depth) site origin name run =
      (.ok inner, after)) : after.active = run.active := by
  obtain ⟨p, other, hexpand⟩ | ⟨d, hactive, -, hexpand⟩ := expandGroup_cases site origin name run
  · rw [hexpand] at h
    cases h
  · rw [hexpand, Prod.mk.injEq] at h
    obtain ⟨hinner, rfl⟩ := h
    have hdeep : (HostConfig.resolveWithin site depth (site.layout.groupSource name) d
        (run.into site.layout name)).1 ≠ .error .tooDeep := by simp [hinner]
    exact Run.active_leave hactive (resolves_of_resolveWithin hdeep).active_eq

/-- A group is expanded alike, if its document is resolved alike. -/
theorem expandGroup_eq (origin : Origin)
    (hinner : ∀ source d run, resolveWithin site depth run.active source d =
      outcome (HostConfig.resolveWithin site depth source d run).1) :
    expandGroup (resolveWithin site depth) site run.active origin name =
      outcome (HostConfig.expandGroup (HostConfig.resolveWithin site depth) site origin name
        run).1 := by
  rw [expandGroup, HostConfig.expandGroup]
  by_cases hactive : run.active.contains name = true
  · simp only [hactive, if_true]
    rfl
  · simp only [hactive]
    cases htree : site.tree.contains (site.layout.groupFile name) with
    | false => rfl
    | true =>
      simp only [document_eq]
      cases site.document (site.layout.groupFile name) with
      | error p => rfl
      | ok d => exact hinner _ d ((run.enter name).log _)

/-- Resolving a body that begins with the inclusion of a group. -/
theorem resolveBody_group {expand : Origin → String → Except Raised Gathered} {layout : Layout}
    {s : Statement} {rest : List Statement} {g : Gathered} (hform : s.form.group? = some name) :
    resolveBody expand layout source (s :: rest) g =
      (expand s.origin name).bind fun inner =>
        (g.absorb inner).bind (resolveBody expand layout source rest) := by
  rw [resolveBody, Form.group?_eq_some_iff.mp hform]
  rfl

/-- Resolving a body that begins with any other statement. -/
theorem resolveBody_declare {expand : Origin → String → Except Raised Gathered} {layout : Layout}
    {s : Statement} {rest : List Statement} {g : Gathered} (hform : s.form.group? = none) :
    resolveBody expand layout source (s :: rest) g =
      (g.declare layout source s).bind (resolveBody expand layout source rest) := by
  rw [resolveBody]
  split
  · next name hgroup =>
    rw [hgroup] at hform
    cases hform
  · rfl

/-- A body is resolved alike, if the documents of its groups are. -/
theorem resolveBody_eq {body : List Statement} {r : Resolution}
    (hinner : ∀ source d run, resolveWithin site depth run.active source d =
      outcome (HostConfig.resolveWithin site depth source d run).1) :
    resolveBody (expandGroup (resolveWithin site depth) site run.active) site.layout source body
        (.ofResolution r) =
      outcome (resolveBodyWithin site depth source body r run).1 := by
  induction body generalizing r run with
  | nil => rfl
  | cons s rest ih =>
    cases hform : s.form.group? with
    | none =>
      rw [resolveBody_declare hform, resolveBodyWithin_declare hform,
        Gathered.declare_ofResolution]
      cases r.declare site.layout source s with
      | error failure => rfl
      | ok r' =>
        -- Warnings leave the groups being expanded as they are.
        have hrest : (run.warnAll s.origin.file s.warnings).active = run.active := rfl
        exact hrest ▸ ih
    | some name =>
      rw [resolveBody_group hform, resolveBodyWithin_group hform, expandGroup_eq s.origin hinner]
      rcases hexpand : HostConfig.expandGroup (HostConfig.resolveWithin site depth) site s.origin
        name run with ⟨failure | inner, after⟩
      · rfl
      · have hactive := active_of_expandGroup hexpand
        have hrest := @ih (after.absorb name r inner) (r.absorb inner)
        rw [Run.active_absorb, hactive] at hrest
        change ((Gathered.ofResolution r).absorb (.ofResolution inner)).bind _ = _
        rw [Gathered.absorb_ofResolution, ← hrest]
        rfl

/-- A document is resolved alike. -/
theorem resolveWithin_eq (source : Provenance) (d : Document) (run : Run) :
    resolveWithin site depth run.active source d =
      outcome (HostConfig.resolveWithin site depth source d run).1 := by
  induction depth generalizing source d run with
  | zero => rfl
  | succ depth ih => exact @resolveBody_eq _ _ _ _ _ {} ih

end Raising

end HostConfig
