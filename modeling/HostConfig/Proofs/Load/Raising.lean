import HostConfig.Proofs.Load.ProblemPlace
import HostConfig.Proofs.Resolution.Raising

/-!
# Loading with every raise

A load with every raise is the load itself: it gives the same configuration or raises the same
problem, whatever the files hold, and nothing else that a step can raise is ever raised.
-/

namespace HostConfig.Raising

/-- Resolve the file at a path, with no group active. -/
def resolveFile (site : Site) (path : Path) (kind : SourceKind) : Except Raised Gathered := do
  let d ← document site path
  resolveWithin site site.tree.depth [] ⟨d.file, kind, none⟩ d

/-- Resolve the file of a host; an absent one says nothing. -/
def resolveHost (site : Site) (host : String) : Except Raised Gathered :=
  let path := site.layout.hostFile host
  if site.tree.contains path then resolveFile site path .host else .ok {}

/-- The configuration that was gathered. -/
def Gathered.config (g : Gathered) : Config := ⟨g.entries.values, g.envs, g.scripts⟩

/-- The configuration of a host. -/
def load (site : Site) (host : String) : Except Raised Config :=
  let path := site.layout.mainFile
  if !site.tree.contains path then
    .error (.typed (.ofFile path.toString (.missingMain path.toString)))
  else do
    let main ← resolveFile site path .main
    let inner ← resolveHost site host
    let g ← main.absorb inner
    .ok g.config

variable (site : Site) (host : String) (journal : Option Journal)

/-- A file is resolved alike. -/
theorem resolveFile_eq (path : Path) (kind : SourceKind) :
    resolveFile site path kind = outcome (site.resolveFile path kind journal).1 := by
  rw [resolveFile, Site.resolveFile, document_eq]
  cases site.document path with
  | error p => rfl
  | ok d =>
    exact resolveWithin_eq ⟨d.file, kind, none⟩ d
      ⟨journal.map (·.log (.fileLoaded path.toString kind)), []⟩

/-- The file of a host is resolved alike. -/
theorem resolveHost_eq : resolveHost site host = outcome (site.resolveHost host journal).1 := by
  rw [resolveHost, Site.resolveHost]
  cases site.tree.contains (site.layout.hostFile host) with
  | false => rfl
  | true => exact resolveFile_eq site journal (site.layout.hostFile host) .host

/-- The configuration of a host is the same, and so is what went wrong. -/
theorem load_eq : load site host = (site.load host journal).1.mapError .ofFailure := by
  rw [load, Site.load, Site.resolveConfig]
  cases site.tree.contains site.layout.mainFile with
  | false => rfl
  | true =>
    simp only [Bool.not_true, Bool.false_eq_true, if_false]
    rw [resolveFile_eq site (journal.map (·.identify host))]
    rcases hmain : site.resolveFile site.layout.mainFile .main (journal.map (·.identify host)) with
      ⟨failure | main, middle⟩
    · rw [hmain]
      rfl
    · rw [hmain, resolveHost_eq site host middle]
      rcases hhost : site.resolveHost host middle with ⟨failure | inner, last⟩
      · simp only [hhost]
        rfl
      · simp only [hhost]
        change ((Gathered.ofResolution main).absorb (.ofResolution inner)).bind _ = _
        rw [Gathered.absorb_ofResolution]
        exact congrArg (fun es => Except.ok (Config.mk es _ _)) (Table.values_ofEntries _)

/-- A load gives a configuration or raises a problem of one of the seven categories. No other step
raises anything: each line has a first word, each token has a handler, each directive about a
package has a name, entries that are merged are of one package, and each statement can be carried
out. -/
theorem typed_of_load : ∃ outcome : Except Problem Config,
    load site host = outcome.mapError .typed ∧
      (site.load host journal).1 = outcome.mapError .problem ∧
      ∀ p, outcome = .error p → site.Meets host p ∧ p.cause.category ∈
        [.notFound, .unreadable, .structural, .context, .unknownDirective, .reference, .cycle] := by
  rw [load_eq site host journal]
  cases hload : (site.load host journal).1 with
  | ok config => exact ⟨.ok config, rfl, rfl, by simp⟩
  | error failure =>
    obtain ⟨p, rfl, hmeets⟩ := site.meets_of_load hload
    refine ⟨.error p, rfl, rfl, ?_⟩
    rintro _ ⟨⟩
    exact ⟨hmeets, by cases p.cause.category <;> decide⟩

end HostConfig.Raising
