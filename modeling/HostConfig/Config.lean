/-!
# Resolved configurations

What a host is to be set up with: its packages, each with all that was declared for it and where
that came from, and the environment variables and scripts of the host itself.
-/

namespace HostConfig

/-- A dotfile and where it goes. -/
structure ConfigMapping where
  source : String
  destination : String
  deriving DecidableEq, Repr

/-- An environment variable. -/
structure EnvVar where
  key : String
  value : String
  deriving DecidableEq, Repr

/-- A service; a flag that was not declared may be undefined. -/
structure Service where
  name : String
  scope : String := "system"
  enable : Bool := true
  start : Bool := true
  restart : Option Bool := none
  reload : Option Bool := none
  mask : Option Bool := none
  deriving DecidableEq, Repr

/-- The label of a kind of source. -/
structure SourceKind where
  label : String
  deriving DecidableEq, Repr

/-- The main file. -/
def SourceKind.main : SourceKind := ⟨"main"⟩

/-- The file of a host. -/
def SourceKind.host : SourceKind := ⟨"host"⟩

/-- The file of a group. -/
def SourceKind.group : SourceKind := ⟨"group"⟩

/-- Where an entry comes from. -/
structure Provenance where
  file : String
  kind : SourceKind
  group : Option String
  deriving DecidableEq, Repr

/-- A package and all that is declared for it. -/
structure Entry where
  package : String
  provenance : Provenance
  configs : List ConfigMapping := []
  setups : List String := []
  services : List Service := []
  envs : List EnvVar := []
  deriving DecidableEq, Repr

/-- A resolved configuration. -/
structure Config where
  entries : List Entry := []
  envs : List EnvVar := []
  scripts : List String := []
  deriving DecidableEq, Repr, Inhabited

/-- The first entry of a package. -/
def Config.get? (c : Config) (package : String) : Option Entry :=
  c.entries.find? fun e => e.package = package

/-- The packages in order. -/
def Config.packages (c : Config) : List String := c.entries.map (·.package)

end HostConfig
