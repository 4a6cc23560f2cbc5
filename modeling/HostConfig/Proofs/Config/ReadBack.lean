import HostConfig.Export
import HostConfig.Proofs.Config.Hash

/-!
# Reading exported configurations back

The JSON text of a configuration is read back as the configuration's value, with all members in their
places, and each field is found in the value under its key: a flag that is not defined has no member,
and a group that there is none of is null.
-/

namespace HostConfig

open HostConfig.Json

namespace Json

/-- The text of a string. -/
def Value.text? : Value → Option String
  | .str s => some s
  | _ => none

/-- The truth value of a flag. -/
def Value.flag? : Value → Option Bool
  | .bool b => some b
  | _ => none

variable {α : Type}

/-- What is read of null or of any other value. -/
def Value.nullable? (read : Value → Option α) : Value → Option (Option α)
  | .null => some none
  | v => (read v).map some

/-- What is read of each item of an array. -/
def Value.items? (read : Value → Option α) : Value → Option (List α)
  | .arr items => items.mapM read
  | _ => none

/-- What is read of the member under a key. -/
def Value.field? (v : Value) (key : String) (read : Value → Option α) : Option α :=
  (v.member? key).bind read

/-- What is read of the member under a key, if there is one. -/
def Value.optional? (v : Value) (key : String) (read : Value → Option α) : Option (Option α) :=
  match v.member? key with
  | none => some none
  | some u => (read u).map some

end Json

/-- The mapping that a value tells. -/
def ConfigMapping.ofJson? (v : Value) : Option ConfigMapping := do
  return ⟨← v.field? "source" Value.text?, ← v.field? "destination" Value.text?⟩

/-- The variable that a value tells. -/
def EnvVar.ofJson? (v : Value) : Option EnvVar := do
  return ⟨← v.field? "key" Value.text?, ← v.field? "value" Value.text?⟩

/-- The service that a value tells. -/
def Service.ofJson? (v : Value) : Option Service := do
  return ⟨← v.field? "name" Value.text?, ← v.field? "scope" Value.text?,
    ← v.field? "enable" Value.flag?, ← v.field? "start" Value.flag?,
    ← v.optional? "restart" Value.flag?, ← v.optional? "reload" Value.flag?,
    ← v.optional? "mask" Value.flag?⟩

/-- The provenance that the value of an entry tells. -/
def Provenance.ofJson? (v : Value) : Option Provenance := do
  return ⟨← v.field? "source_file" Value.text?, ⟨← v.field? "source_kind" Value.text?⟩,
    ← v.field? "group_name" (Value.nullable? Value.text?)⟩

/-- The entry that a value tells. -/
def Entry.ofJson? (v : Value) : Option Entry := do
  return ⟨← v.field? "package" Value.text?, ← Provenance.ofJson? v,
    ← v.field? "configs" (Value.items? ConfigMapping.ofJson?),
    ← v.field? "setups" (Value.items? Value.text?),
    ← v.field? "services" (Value.items? Service.ofJson?),
    ← v.field? "envs" (Value.items? EnvVar.ofJson?)⟩

/-- The configuration that a value tells. -/
def Config.ofJson? (v : Value) : Option Config := do
  return ⟨← v.field? "entries" (Value.items? Entry.ofJson?),
    ← v.field? "global_envs" (Value.items? EnvVar.ofJson?),
    ← v.field? "global_scripts" (Value.items? Value.text?)⟩

variable {α : Type} {encode : α → Value} {read : Value → Option α}

/-- Items are read back if each of them is. -/
theorem Json.Value.items?_arr_map (h : ∀ a, read (encode a) = some a) (xs : List α) :
    (Value.arr (xs.map encode)).items? read = some xs := by
  induction xs with
  | nil => rfl
  | cons a xs ih =>
    rw [Value.items?] at ih ⊢
    rw [List.map_cons, List.mapM_cons, h, ih]
    rfl

/-- A value or null is read back. -/
theorem Json.Value.nullable?_ofOption (s : Option String) :
    (Value.ofOption .str s).nullable? Value.text? = some s := by
  cases s <;> rfl

theorem ConfigMapping.ofJson?_toJson (m : ConfigMapping) : ofJson? m.toJson = some m := rfl

theorem EnvVar.ofJson?_toJson (v : EnvVar) : ofJson? v.toJson = some v := rfl

theorem Service.ofJson?_toJson (s : Service) : ofJson? s.toJson = some s := by
  obtain ⟨name, scope, enable, start, restart, reload, mask⟩ := s
  cases restart <;> cases reload <;> cases mask <;> rfl

theorem Entry.ofJson?_toJson (e : Entry) : ofJson? e.toJson = some e := by
  obtain ⟨package, ⟨file, ⟨label⟩, group⟩, configs, setups, services, envs⟩ := e
  have hgroup := Value.nullable?_ofOption group
  have hconfigs := Value.items?_arr_map ConfigMapping.ofJson?_toJson configs
  have hsetups := Value.items?_arr_map (fun _ => rfl : ∀ s, Value.text? (.str s) = some s) setups
  have hservices := Value.items?_arr_map Service.ofJson?_toJson services
  have henvs := Value.items?_arr_map EnvVar.ofJson?_toJson envs
  simp [ofJson?, Provenance.ofJson?, toJson, Value.field?, Value.member?, Value.text?, *]

/-- A configuration is read off its value. -/
theorem Config.ofJson?_toJson (c : Config) : ofJson? c.toJson = some c := by
  obtain ⟨entries, envs, scripts⟩ := c
  have hentries := Value.items?_arr_map Entry.ofJson?_toJson entries
  have henvs := Value.items?_arr_map EnvVar.ofJson?_toJson envs
  have hscripts := Value.items?_arr_map (fun _ => rfl : ∀ s, Value.text? (.str s) = some s) scripts
  simp [ofJson?, toJson, Value.field?, Value.member?, *]

/-- A text tells a configuration: its value is spelled there and is read back. -/
structure Config.ReadsBack (c : Config) (text : String) : Prop where
  /-- The text of the value ends in a brace, and one line feed follows it. -/
  ends : ∃ front, text.toList = front ++ ['\x7d', '\n'] ∧
    SpellsValue (front ++ ['\x7d']) c.toJson
  /-- The text spells the value of the configuration, and no other one. -/
  spells : ∀ v, SpellsText text.toList v ↔ v = c.toJson
  read : Value.read? text.toList = some c.toJson
  config : (Value.read? text.toList).bind Config.ofJson? = some c
  /-- The text tells no other configuration. -/
  unique : ∀ d : Config, SpellsText text.toList d.toJson → d = c
  /-- The value that is read back has the hash of the configuration. -/
  hash : (Value.read? text.toList).map hashObject = some (.ok c.hash)

/-- Values of different configurations are different. -/
theorem Config.toJson_injective : Function.Injective Config.toJson := by
  intro c d h
  have hread := congrArg Config.ofJson? h
  rw [ofJson?_toJson, ofJson?_toJson] at hread
  exact Option.some.inj hread

/-- A configuration is written in JSON as a text that is read back as the configuration. -/
theorem Config.dump_json_readsBack (c : Config) :
    ∃ text, c.dump "json" = .ok text ∧ c.ReadsBack text := by
  have hformat : Format.ofName "json" = .ok .json := by decide
  have hspells : SpellsValue (c.toJson.pretty 0) c.toJson := c.toJson.spells_pretty 0
  have htext : SpellsText c.toJsonText c.toJson := hspells.append_gap (isGap_newLine 0)
  have hread : Value.read? c.toJsonText = some c.toJson := htext.read?
  have hbrace : ∃ front, c.toJson.pretty 0 = front ++ ['\x7d'] := ⟨_, rfl⟩
  refine ⟨String.ofList c.toJsonText, by rw [dump, hformat]; rfl, ?_⟩
  constructor
  case ends =>
    obtain ⟨front, hfront⟩ := hbrace
    refine ⟨front, ?_, hfront ▸ hspells⟩
    rw [String.toList_ofList, toJsonText, hfront, List.append_assoc]
    rfl
  all_goals rw [String.toList_ofList]
  case spells =>
    intro v
    constructor
    · exact fun h => h.unique htext
    · rintro rfl
      exact htext
  case read => exact hread
  case config => rw [hread, Option.bind_some, ofJson?_toJson]
  case unique => exact fun d h => toJson_injective (h.unique htext)
  case hash =>
    rw [hread]
    rfl

end HostConfig
