import HostConfig.Config
import HostConfig.Digest.Sha256
import HostConfig.Json.Value

/-!
# Configurations as values, and their hashes

The value of a configuration lists every field in a fixed order; a flag of a service that is not
defined is left out. The hash of a configuration is the SHA-256 digest of the canonical text of its
value, in hexadecimal. Any object can be hashed in the same way; other values cannot.
-/

namespace HostConfig

open HostConfig.Json

/-- The mapping as a value. -/
def ConfigMapping.toJson (m : ConfigMapping) : Value :=
  .obj [("source", .str m.source), ("destination", .str m.destination)]

/-- The variable as a value. -/
def EnvVar.toJson (v : EnvVar) : Value := .obj [("key", .str v.key), ("value", .str v.value)]

/-- The member of a flag, if the flag is defined. -/
def flagMember (key : String) : Option Bool → List (String × Value)
  | none => []
  | some b => [(key, .bool b)]

/-- The service as a value. -/
def Service.toJson (s : Service) : Value :=
  .obj ([("name", .str s.name), ("scope", .str s.scope), ("enable", .bool s.enable),
    ("start", .bool s.start)] ++ flagMember "restart" s.restart ++ flagMember "reload" s.reload ++
    flagMember "mask" s.mask)

/-- The entry as a value. -/
def Entry.toJson (e : Entry) : Value :=
  .obj [("package", .str e.package), ("configs", .arr (e.configs.map ConfigMapping.toJson)),
    ("setups", .arr (e.setups.map .str)), ("services", .arr (e.services.map Service.toJson)),
    ("envs", .arr (e.envs.map EnvVar.toJson)), ("source_file", .str e.provenance.file),
    ("source_kind", .str e.provenance.kind.label),
    ("group_name", .ofOption .str e.provenance.group)]

/-- The configuration as a value. -/
def Config.toJson (c : Config) : Value :=
  .obj [("entries", .arr (c.entries.map Entry.toJson)),
    ("global_envs", .arr (c.envs.map EnvVar.toJson)), ("global_scripts", .arr (c.scripts.map .str))]

/-- Bytes in hexadecimal. -/
def hexText (bytes : List UInt8) : String :=
  String.ofList (bytes.flatMap fun b => [hexDigit (b.toNat / 16), hexDigit (b.toNat % 16)])

/-- The bytes of a value's canonical text. -/
def hashedBytes (v : Value) : List UInt8 := (String.ofList v.canonical).toUTF8.data.toList

/-- The hash of a value's canonical text. -/
def hashOf (v : Value) : String := hexText (Digest.sha256 (hashedBytes v))

/-- The hash of a configuration. -/
def Config.hash (c : Config) : String := hashOf c.toJson

/-- The name of a value's type in a message. -/
def typeName : Value → String
  | .null => "NoneType"
  | .bool _ => "bool"
  | .int _ => "int"
  | .str _ => "str"
  | .arr _ => "list"
  | .obj _ => "dict"

/-- The hash of an object, or the sentence that refuses any other value. -/
def hashObject (v : Value) : Except String String :=
  match v with
  | .obj _ => .ok (hashOf v)
  | _ =>
    .error ("Config para hashing deve ser ResolvedConfig ou dict, recebido: " ++ typeName v)

end HostConfig
