import HostConfig.Proofs.Load.Outcome
import HostConfig.Proofs.Resolution.Journals

/-!
# Loading with another journal

Each stage of a load hands its journal on to the next one and lets nothing depend on it. So loads
that begin with related journals come to the same outcome and end with related journals.
-/

namespace HostConfig

/-- Two answers are the same, and the journals that come with them are related. -/
structure AlikeAnswers (R : Option Journal → Option Journal → Prop) {α : Type}
    (x y : Except Failure α × Option Journal) : Prop where
  outcome_eq : y.1 = x.1
  journals : R x.2 y.2

namespace Site

variable {R : Option Journal → Option Journal → Prop} {j k : Option Journal}

theorem resolveFile_alike (hR : KeptByRecording R) (site : Site) (path : Path) (kind : SourceKind)
    (h : R j k) : AlikeAnswers R (site.resolveFile path kind j) (site.resolveFile path kind k) := by
  cases hdocument : site.document path with
  | error p =>
    simp only [resolveFile, hdocument]
    exact ⟨rfl, h⟩
  | ok document =>
    have hrun : Run.Alike R ⟨j.map (·.log (.fileLoaded path.toString kind)), []⟩
        ⟨k.map (·.log (.fileLoaded path.toString kind)), []⟩ := ⟨rfl, hR.log _ h⟩
    obtain ⟨houtcome, hafter⟩ := resolve_alike hR hrun
    simp only [resolveFile, hdocument]
    exact ⟨houtcome, hafter.journals⟩

theorem resolveHost_alike (hR : KeptByRecording R) (site : Site) (host : String) (h : R j k) :
    AlikeAnswers R (site.resolveHost host j) (site.resolveHost host k) := by
  cases htree : site.tree.contains (site.layout.hostFile host) with
  | true =>
    rw [resolveHost_of_contains htree, resolveHost_of_contains htree]
    exact site.resolveFile_alike hR _ _ h
  | false =>
    rw [resolveHost_of_not_contains htree, resolveHost_of_not_contains htree]
    exact ⟨rfl, hR.log _ h⟩

theorem resolveConfig_alike (hR : KeptByRecording R) (site : Site) (host : String) (h : R j k) :
    AlikeAnswers R (site.resolveConfig host j) (site.resolveConfig host k) := by
  have hmain := site.resolveFile_alike hR site.layout.mainFile .main h
  rcases hj : site.resolveFile site.layout.mainFile .main j with ⟨main', middle⟩
  rcases hk : site.resolveFile site.layout.mainFile .main k with ⟨main, middle'⟩
  rw [hj, hk] at hmain
  obtain ⟨rfl : main = main', hmiddle : R middle middle'⟩ := hmain
  have hhost := site.resolveHost_alike hR host hmiddle
  rcases hj' : site.resolveHost host middle with ⟨inner', last⟩
  rcases hk' : site.resolveHost host middle' with ⟨inner, last'⟩
  rw [hj', hk'] at hhost
  obtain ⟨rfl : inner = inner', hlast : R last last'⟩ := hhost
  simp only [resolveConfig, hj, hk]
  split
  · exact ⟨rfl, h⟩
  · cases main with
    | error failure => exact ⟨rfl, hmiddle⟩
    | ok main =>
      simp only [hj', hk']
      cases inner with
      | error failure => exact ⟨rfl, hlast⟩
      | ok inner => exact ⟨rfl, hR.logAll _ hlast⟩

theorem load_alike (hR : KeptByRecording R) (site : Site) (host : String) (h : R j k) :
    AlikeAnswers R (site.load host j) (site.load host k) :=
  site.resolveConfig_alike hR host (hR.identify host h)

end Site

end HostConfig
