import HostConfig.Entries
import HostConfig.Json.Value

/-!
# Journals

What happened during a resolution: events in order, each with the host that was known at the time,
and warnings by file. A journal is only ever added to.
-/

namespace HostConfig

open HostConfig.Json

/-- What happened: a main or host file was read, or the host has none; the expansion of a group
began, or ended with so many entries; an entry of a file was merged over an earlier one; or there
was something to warn of. Anything else has a level and details. -/
inductive Notice
  | fileLoaded (file : String) (kind : SourceKind)
  | hostAbsent (file : String)
  | groupEntered (group file : String)
  | groupLeft (group : String) (entries : Nat)
  | entryMerged (package file : String)
  | warning (file text : String)
  | other (level message : String) (details : List (String × Value))

/-- An event and the host it belongs to, as far as that was known. -/
structure Event where
  host : Option String
  notice : Notice

/-- How important a notice is. -/
def Notice.level : Notice → String
  | fileLoaded _ _ | hostAbsent _ => "INFO"
  | groupEntered _ _ | groupLeft _ _ | entryMerged _ _ => "DEBUG"
  | warning _ _ => "WARNING"
  | other level _ _ => level

/-- The message of a notice. -/
def Notice.message : Notice → String
  | fileLoaded _ _ => "file loaded"
  | hostAbsent _ => "host file absent"
  | groupEntered _ _ => "group entered"
  | groupLeft _ _ => "group left"
  | entryMerged _ _ => "entry merged"
  | warning _ text => text
  | other _ message _ => message

/-- The details of a notice. -/
def Notice.details : Notice → List (String × Value)
  | fileLoaded file kind => [("source_file", .str file), ("source_kind", .str kind.label)]
  | hostAbsent file => [("source_file", .str file)]
  | groupEntered group file => [("group", .str group), ("source_file", .str file)]
  | groupLeft group entries => [("group", .str group), ("entries", .int entries)]
  | entryMerged package file => [("package", .str package), ("overridden_by", .str file)]
  | warning file _ => [("source_file", .str file)]
  | other _ _ details => details

/-- The event as a value; a detail replaces a member of the same name. -/
def Event.toJson (e : Event) : Value :=
  .obj (setMembers
    [("host_name", .ofOption .str e.host), ("level", .str e.notice.level),
      ("message", .str e.notice.message)] e.notice.details)

/-- Warnings by file, in the order of each file's first one. -/
abbrev Warnings := List (String × List String)

/-- Add a warning. -/
def Warnings.add (file text : String) : Warnings → Warnings
  | [] => [(file, [text])]
  | w :: rest =>
    if w.1 = file then (file, w.2 ++ [text]) :: rest else w :: Warnings.add file text rest

/-- A record of what happened, with the host once it is known. -/
structure Journal where
  host : Option String := none
  warnings : Warnings := []
  events : List Event := []

namespace Journal

/-- Record what happened. -/
def log (j : Journal) (n : Notice) : Journal := { j with events := j.events ++ [⟨j.host, n⟩] }

/-- Record a warning, also among the warnings of its file. -/
def warn (j : Journal) (file text : String) : Journal :=
  { j with warnings := j.warnings.add file text }.log (.warning file text)

/-- Record several things one after the other. -/
def logAll (j : Journal) (ns : List Notice) : Journal := ns.foldl log j

/-- Record several warnings about a file. -/
def warnAll (j : Journal) (file : String) (texts : List String) : Journal :=
  texts.foldl (fun j text => j.warn file text) j

/-- The events with a given message. -/
def withMessage (j : Journal) (message : String) : List Event :=
  j.events.filter fun e => e.notice.message = message

/-- The journal with the host filled in unless it is known already. -/
def identify (j : Journal) (host : String) : Journal :=
  { j with host := j.host <|> some host }

/-- Recording something adds one event, with the host known at the time. -/
theorem events_log (j : Journal) (n : Notice) : (j.log n).events = j.events ++ [⟨j.host, n⟩] := rfl

/-- Recording something leaves the host as it is. -/
theorem host_log (j : Journal) (n : Notice) : (j.log n).host = j.host := rfl

/-- Recording several things adds one event for each, in order. -/
theorem events_logAll (j : Journal) (ns : List Notice) :
    (j.logAll ns).events = j.events ++ ns.map fun n => ⟨j.host, n⟩ := by
  induction ns generalizing j with
  | nil => simp [logAll]
  | cons n rest ih =>
    rw [logAll, List.foldl_cons, ← logAll, ih, events_log, host_log]
    simp

/-- A warning adds one event. -/
theorem events_warn (j : Journal) (file text : String) :
    (j.warn file text).events = j.events ++ [⟨j.host, .warning file text⟩] := rfl

end Journal

/-- The notices of merging entries into others. -/
def mergeNotices (es : Entries) (later : List Entry) : List Notice :=
  (es.overriding later).map fun e => .entryMerged e.package e.provenance.file

end HostConfig
