import HostConfig.Resolution

/-!
# Loading the configuration of a host

The main file must exist; the host's file may. Each is resolved with no group active, the host's
entries are merged over those of the main file, and variables and scripts of the main file come
before those of the host.
-/

namespace HostConfig

/-- Put what a host's file resolves to over what the main file resolves to. -/
def Config.ofResolutions (main host : Resolution) : Config where
  entries := main.entries.putAll host.entries
  envs := main.envs ++ host.envs
  scripts := main.scripts ++ host.scripts

/-- Resolve the file at a path, with no group active. -/
def Site.resolveFile (s : Site) (path : Path) (kind : SourceKind) (journal : Option Journal) :
    Except Failure Resolution × Option Journal :=
  match s.document path with
  | .error p => (.error (.problem p), journal)
  | .ok document =>
    let run : Run := ⟨journal.map (·.log (.fileLoaded path.toString kind)), []⟩
    let (outcome, run) := resolve s ⟨document.file, kind, none⟩ document run
    (outcome, run.journal)

/-- Resolve the file of a host; an absent one says nothing. -/
def Site.resolveHost (s : Site) (host : String) (journal : Option Journal) :
    Except Failure Resolution × Option Journal :=
  let path := s.layout.hostFile host
  if s.tree.contains path then s.resolveFile path .host journal
  else (.ok {}, journal.map (·.log (.hostAbsent path.toString)))

/-- The configuration of a host. -/
def Site.resolveConfig (s : Site) (host : String) (journal : Option Journal) :
    Except Failure Config × Option Journal :=
  let path := s.layout.mainFile
  if !s.tree.contains path then
    (.error (.problem (.ofFile path.toString (.missingMain path.toString))), journal)
  else
    match s.resolveFile path .main journal with
    | (.error failure, journal) => (.error failure, journal)
    | (.ok main, journal) =>
      match s.resolveHost host journal with
      | (.error failure, journal) => (.error failure, journal)
      | (.ok inner, journal) =>
        (.ok (.ofResolutions main inner),
          journal.map (·.logAll (mergeNotices main.entries inner.entries)))

/-- The configuration of a host, with the host filled into the journal first. -/
def Site.load (s : Site) (host : String) (journal : Option Journal) :
    Except Failure Config × Option Journal :=
  s.resolveConfig host (journal.map (·.identify host))

end HostConfig
