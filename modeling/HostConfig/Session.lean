import HostConfig.Export
import HostConfig.Load
import HostConfig.Relevant

/-!
# Sessions

A session keeps a site, a journal and the configuration resolved last, and answers one request
after the other. A request that fails leaves that configuration as it was.
-/

namespace HostConfig

/-- What a session can be asked to do. To load is to resolve, but the journal learns the host if it
knows none; entries and texts are those of the configuration resolved last. -/
inductive Request
  | write (path : Path) (content : Content)
  | remove (path : Path)
  | resolve (host : String)
  | load (host : String)
  | relevant (host : String)
  | entry (package : String)
  | dump (format : String)

/-- The answer to a request. -/
inductive Answer
  | keys (keys : List String)
  | config (outcome : Except Failure Config)
  | files (paths : List Path)
  | entry (e : Option Entry)
  | text (outcome : Except UnknownFormat String)

/-- The state of a session. -/
structure Session where
  site : Site
  journal : Journal := {}
  last : Config := {}

namespace Session

/-- The session with another tree, whose keys are the answer. -/
def withTree (s : Session) (tree : FileTree) : Answer × Session :=
  (.keys (tree.keys.mergeSort fun a b => decide (a ≤ b)), { s with site := { s.site with tree } })

/-- The session after a configuration was resolved or not. -/
def withOutcome (s : Session) (run : Except Failure Config × Option Journal) : Answer × Session :=
  let journal := run.2.getD s.journal
  match run.1 with
  | .ok config => (.config (.ok config), { s with journal, last := config })
  | .error failure => (.config (.error failure), { s with journal })

/-- Answer a request. -/
def answer (s : Session) : Request → Answer × Session
  | .write path content => s.withTree (s.site.tree.insert path content)
  | .remove path => s.withTree (s.site.tree.erase path)
  | .resolve host => s.withOutcome (s.site.resolveConfig host (some s.journal))
  | .load host => s.withOutcome (s.site.load host (some s.journal))
  | .relevant host => (.files (relevantFiles s.site.tree s.site.layout host), s)
  | .entry package => (.entry (s.last.get? package), s)
  | .dump format => (.text (s.last.dump format), s)

end Session

end HostConfig
