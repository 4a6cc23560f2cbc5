import HostConfig.Payload
import HostConfig.Token

/-!
# Problems

What can be wrong with a configuration. A problem has a cause and a place, and falls into one of
seven categories; whatever it is, it ends the reading or the resolution that meets it.
-/

namespace HostConfig

open HostConfig.Payload

/-- The category of a problem: a malformed directive, a directive that lacks its package, a group
without a file, a group within itself, a line that only begins like a directive, no main file, or a
file that cannot be read. -/
inductive Category
  | structural
  | context
  | reference
  | cycle
  | unknownDirective
  | notFound
  | unreadable
  deriving DecidableEq, Repr

/-- What is wrong. -/
inductive Cause
  | listWithPayload
  | unknownDirective (word : String)
  | strayText (text : String)
  | noPackageName
  | noGroupName
  | badGroupName (name : String)
  | badEnv
  | emptyScript
  | emptySetup
  | noPackage (d : PackageDirective)
  | badMapping
  | badPackageEnv
  | emptyService
  | badService
  | badProperty (part : String)
  | badScope (value : PropertyValue)
  | badFlag (key value : String)
  | cycle (group : String)
  | missingGroup (path : String)
  | missingMain (path : String)
  | unreadable (path reason : String)
  deriving DecidableEq, Repr

/-- The category that a cause falls into. -/
def Cause.category : Cause → Category
  | unknownDirective _ => .unknownDirective
  | noPackage _ => .context
  | cycle _ => .cycle
  | missingGroup _ => .reference
  | missingMain _ => .notFound
  | unreadable _ _ => .unreadable
  | listWithPayload | strayText _ | noPackageName | noGroupName | badGroupName _ | badEnv
  | emptyScript | emptySetup | badMapping | badPackageEnv | emptyService | badService
  | badProperty _ | badScope _ | badFlag _ _ => .structural

/-- The spelling of a property's value in a message. -/
def messageText : PropertyValue → String
  | .text s => s
  | .flag true => "True"
  | .flag false => "False"

/-- The sentence that tells what is wrong. -/
def Cause.message : Cause → String
  | listWithPayload =>
    "@packages does not take arguments; list package names on the following lines"
  | unknownDirective word => "Unknown directive: " ++ word
  | strayText text =>
    "Unrecognized line: \"" ++ text ++
      "\". Expected a directive or a package name inside an @packages block"
  | noPackageName => "Package name cannot be empty"
  | noGroupName => "Group name cannot be empty"
  | badGroupName name =>
    "Invalid group name \"" ++ name ++
      "\": use letters, digits, \"_\", \"-\" and \"/\" between segments"
  | badEnv => "@env must follow format \"@env <KEY> = <VALUE>\""
  | emptyScript => "Script cannot be empty"
  | emptySetup => "Setup script cannot be empty"
  | noPackage d => "Package context required before " ++ d.keyword
  | badMapping => ":config must follow format \":config <source> -> <destination>\""
  | badPackageEnv => ":env must follow format \":env <KEY> = <VALUE>\""
  | emptyService => "Service cannot be empty"
  | badService => "Invalid service syntax: expected \":service <name> [key=value, ...]\""
  | badProperty part => "Invalid service property \"" ++ part ++ "\": expected \"<key>=<value>\""
  | badScope value =>
    "Invalid service scope \"" ++ messageText value ++ "\": expected \"system\" or \"user\""
  | badFlag key value =>
    "Service property \"" ++ key ++ "\" must be true or false, got \"" ++ value ++ "\""
  | cycle group => "Circular dependency detected for group \"" ++ group ++ "\""
  | missingGroup path => "Group file not found: " ++ path
  | missingMain path => "Global config file not found: " ++ path
  | unreadable path reason => "Cannot read config file: " ++ path ++ " (" ++ reason ++ ")"

/-- A cause and the place where it was met. -/
structure Problem where
  origin : Origin
  cause : Cause
  deriving DecidableEq, Repr

/-- A problem with a whole file. -/
def Problem.ofFile (file : String) (cause : Cause) : Problem := ⟨⟨file, 0, ""⟩, cause⟩

end HostConfig
