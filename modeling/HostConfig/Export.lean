import HostConfig.Config.Hash
import HostConfig.Path
import HostConfig.Text.Lowercase
import HostConfig.Yaml.Printer

/-!
# Exporting configurations

A configuration is written in YAML or in JSON. In YAML it is a mapping with the same fields in the
same order as its value has; a flag of a service that is not defined is left out. The format is
named in any letter case, or follows from the suffix of the file that is written.
-/

namespace HostConfig

open HostConfig.Text HostConfig.Yaml

/-- The fields of a dotfile. -/
def ConfigMapping.yamlFields (indent : Nat) (m : ConfigMapping) : List (List Char) :=
  [textField indent "source" m.source, textField indent "destination" m.destination]

/-- The fields of a variable. -/
def EnvVar.yamlFields (indent : Nat) (v : EnvVar) : List (List Char) :=
  [textField indent "key" v.key, textField indent "value" v.value]

/-- The field of a flag, if the flag is defined. -/
def definedFlag (key : String) : Option Bool → List (List Char)
  | none => []
  | some b => [flagField key b]

/-- The fields of a service. -/
def Service.yamlFields (indent : Nat) (s : Service) : List (List Char) :=
  [textField indent "name" s.name, textField indent "scope" s.scope, flagField "enable" s.enable,
    flagField "start" s.start] ++
    definedFlag "restart" s.restart ++ definedFlag "reload" s.reload ++ definedFlag "mask" s.mask

/-- The fields of an entry. -/
def Entry.yamlFields (indent : Nat) (e : Entry) : List (List Char) :=
  [textField indent "package" e.package,
    listField indent "configs"
      (e.configs.map fun m => mappingItem indent (m.yamlFields (indent + 2))),
    listField indent "setups" (e.setups.map (textItem indent)),
    listField indent "services"
      (e.services.map fun s => mappingItem indent (s.yamlFields (indent + 2))),
    listField indent "envs" (e.envs.map fun v => mappingItem indent (v.yamlFields (indent + 2))),
    textField indent "source_file" e.provenance.file,
    textField indent "source_kind" e.provenance.kind.label,
    optionalField indent "group_name" e.provenance.group]

/-- The text of a configuration in YAML. -/
def Config.toYaml (c : Config) : List Char :=
  mapping 0
    [listField 0 "entries" (c.entries.map fun e => mappingItem 0 (e.yamlFields 2)),
      listField 0 "global_envs" (c.envs.map fun v => mappingItem 0 (v.yamlFields 2)),
      listField 0 "global_scripts" (c.scripts.map (textItem 0))] ++ ['\n']

/-- A format of an export. -/
inductive Format
  | yaml
  | json
  deriving DecidableEq, Repr

/-- An unknown format. -/
structure UnknownFormat where
  name : String
  deriving DecidableEq, Repr

/-- The sentence that tells which format is unknown. -/
def UnknownFormat.message (u : UnknownFormat) : String := "unsupported export format: " ++ u.name

/-- The format with a name. -/
def Format.ofName (name : String) : Except UnknownFormat Format :=
  let name := lowercase name
  if name = "yaml" then .ok .yaml else if name = "json" then .ok .json else .error ⟨name⟩

/-- The format of a file. -/
def Format.ofPath (p : Path) : Except UnknownFormat Format :=
  let suffix := lowercase p.suffix
  if suffix = ".yaml" || suffix = ".yml" then .ok .yaml
  else if suffix = ".json" then .ok .json
  else .error ⟨p.suffix⟩

/-- The text of a configuration in JSON. -/
def Config.toJsonText (c : Config) : List Char := c.toJson.pretty 0 ++ ['\n']

/-- The text of a configuration in a format. -/
def Config.render (c : Config) : Format → String
  | .yaml => String.ofList c.toYaml
  | .json => String.ofList c.toJsonText

/-- The text of a configuration in a named format. -/
def Config.dump (c : Config) (name : String) : Except UnknownFormat String :=
  (Format.ofName name).map c.render

/-- The text that is written to a file. -/
def Config.dumpFor (c : Config) (p : Path) : Except UnknownFormat String :=
  (Format.ofPath p).map c.render

end HostConfig
