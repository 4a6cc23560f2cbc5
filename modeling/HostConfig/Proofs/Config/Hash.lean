import HostConfig.Config.Hash
import HostConfig.Proofs.Json.Order
import HostConfig.Proofs.Json.ReadBack

/-!
# What a hash is made of

The bytes that are hashed tell a value apart from all others but those that differ in the order of
members alone. The value of a configuration tells each of its fields, an undefined flag by having no
member for it, so that the bytes of two configurations are the same only if the configurations are.
-/

namespace HostConfig

open HostConfig.Json

/-- An encoding tells apart what it encodes, whatever the order of members is. -/
def Reflects {α : Type} (encode : α → Value) : Prop := ∀ a b, (encode a).Alike (encode b) → a = b

variable {α : Type} {encode : α → Value} {ms ns : List (String × Value)} {a b : α}
  {flag flag' : Option Bool} {key : String}

/-- The same bytes are hashed for values without repeated keys exactly when these are alike. -/
theorem hashedBytes_eq_iff {v w : Value} (hv : v.Keyed) (hw : w.Keyed) :
    hashedBytes v = hashedBytes w ↔ v.Alike w := by
  rw [← Value.sorted_eq_iff hv hw]
  constructor
  · intro h
    have hbytes : (String.ofList v.canonical).toByteArray =
        (String.ofList w.canonical).toByteArray := ByteArray.ext (Array.toList_inj.mp h)
    have htext := congrArg String.toList (String.toByteArray_inj.mp hbytes)
    rw [String.toList_ofList, String.toList_ofList] at htext
    exact Value.compact_injective htext
  · intro h
    rw [hashedBytes, hashedBytes, Value.canonical, Value.canonical, h]

/-- What two alike objects hold under a key is the same if its encoding tells it apart. -/
theorem eq_of_alike_obj (key : String) (h : (Value.obj ms).Alike (.obj ns))
    (hencode : Reflects encode) (hm : (key, encode a) ∈ ms) (hn : (key, encode b) ∈ ns) : a = b :=
  hencode a b ((Value.alike_obj_iff.mp h).2 _ hm _ hn rfl)

/-- An object holds a flag under a key if the flag is defined. -/
def HoldsFlag (ms : List (String × Value)) (key : String) (flag : Option Bool) : Prop :=
  ∀ u, (key, u) ∈ ms ↔ ∃ b, flag = some b ∧ u = .bool b

theorem reflects_bool : Reflects Value.bool := by
  rintro _ _ ⟨⟩
  rfl

theorem reflects_str : Reflects Value.str := by
  rintro _ _ ⟨⟩
  rfl

/-- A flag is held under a key exactly if the key is there. -/
theorem HoldsFlag.mem_keys_iff (h : HoldsFlag ms key flag) :
    key ∈ ms.map (·.1) ↔ flag.isSome := by
  rw [Option.isSome_iff_exists, List.mem_map]
  constructor
  · rintro ⟨⟨_, u⟩, hmem, rfl⟩
    obtain ⟨b, hflag, -⟩ := (h u).mp hmem
    exact ⟨b, hflag⟩
  · rintro ⟨b, hflag⟩
    exact ⟨(key, .bool b), (h _).mpr ⟨b, hflag, rfl⟩, rfl⟩

/-- A flag that two alike objects hold is the same, or undefined in both. -/
theorem flag_eq_of_alike_obj (key : String) (h : (Value.obj ms).Alike (.obj ns))
    (hm : HoldsFlag ms key flag) (hn : HoldsFlag ns key flag') : flag = flag' := by
  have hdefined : flag.isSome ↔ flag'.isSome := by
    rw [← hm.mem_keys_iff, ← hn.mem_keys_iff]
    exact (Value.alike_obj_iff.mp h).1 key
  cases flag with
  | none =>
    have hnone : ¬ flag'.isSome := fun hsome => by simpa using hdefined.mpr hsome
    exact (Option.not_isSome_iff_eq_none.mp hnone).symm
  | some b =>
    obtain ⟨b', rfl⟩ := Option.isSome_iff_exists.mp (hdefined.mp rfl)
    have hsame : b = b' := eq_of_alike_obj key h reflects_bool ((hm _).mpr ⟨b, rfl, rfl⟩)
      ((hn _).mpr ⟨b', rfl, rfl⟩)
    rw [hsame]

/-- An optional item is told apart, also from none. -/
theorem reflects_ofOption : Reflects (Value.ofOption .str) := by
  intro a b h
  cases a with
  | none => cases b with
    | none => rfl
    | some t => cases h
  | some s => cases b with
    | none => cases h
    | some t => rw [reflects_str s t h]

/-- Items that are told apart are told apart as an array, in order. -/
theorem Reflects.arr (h : Reflects encode) : Reflects fun xs : List α => .arr (xs.map encode) := by
  intro xs ys halike
  obtain ⟨hlength, hitems⟩ := Value.alike_arr_iff.mp halike
  have hall : List.Forall₂ Value.Alike (xs.map encode) (ys.map encode) :=
    List.forall₂_iff_zip.mpr ⟨hlength, fun hmem => hitems _ hmem⟩
  rw [List.forall₂_map_left_iff, List.forall₂_map_right_iff] at hall
  have hsame := hall.imp h
  rwa [List.forall₂_eq_eq_eq] at hsame

/-- A mapping is told by its value. -/
theorem ConfigMapping.reflects_toJson : Reflects ConfigMapping.toJson := by
  rintro ⟨source, destination⟩ ⟨source', destination'⟩ h
  have hsource : source = source' := eq_of_alike_obj "source" h reflects_str (by simp) (by simp)
  have hdestination : destination = destination' :=
    eq_of_alike_obj "destination" h reflects_str (by simp) (by simp)
  rw [hsource, hdestination]

/-- A variable is told by its value. -/
theorem EnvVar.reflects_toJson : Reflects EnvVar.toJson := by
  rintro ⟨key, value⟩ ⟨key', value'⟩ h
  have hkey : key = key' := eq_of_alike_obj "key" h reflects_str (by simp) (by simp)
  have hvalue : value = value' := eq_of_alike_obj "value" h reflects_str (by simp) (by simp)
  rw [hkey, hvalue]

/-- The members of a flag are those that its object holds under its key. -/
theorem mem_flagMember_iff {key' : String} {u : Value} :
    (key', u) ∈ flagMember key flag ↔ key' = key ∧ ∃ b, flag = some b ∧ u = .bool b := by
  cases flag <;> simp [flagMember]

/-- A service is told by its value, and so is whether a flag of it is defined. -/
theorem Service.reflects_toJson : Reflects Service.toJson := by
  rintro ⟨name, scope, enable, start, restart, reload, mask⟩
    ⟨name', scope', enable', start', restart', reload', mask'⟩ h
  have hname : name = name' := eq_of_alike_obj "name" h reflects_str (by simp) (by simp)
  have hscope : scope = scope' := eq_of_alike_obj "scope" h reflects_str (by simp) (by simp)
  have henable : enable = enable' := eq_of_alike_obj "enable" h reflects_bool (by simp) (by simp)
  have hstart : start = start' := eq_of_alike_obj "start" h reflects_bool (by simp) (by simp)
  have hrestart : restart = restart' := flag_eq_of_alike_obj "restart" h
    (by simp [HoldsFlag, mem_flagMember_iff]) (by simp [HoldsFlag, mem_flagMember_iff])
  have hreload : reload = reload' := flag_eq_of_alike_obj "reload" h
    (by simp [HoldsFlag, mem_flagMember_iff]) (by simp [HoldsFlag, mem_flagMember_iff])
  have hmask : mask = mask' := flag_eq_of_alike_obj "mask" h
    (by simp [HoldsFlag, mem_flagMember_iff]) (by simp [HoldsFlag, mem_flagMember_iff])
  rw [hname, hscope, henable, hstart, hrestart, hreload, hmask]

/-- An entry is told by its value, and so is where it comes from. -/
theorem Entry.reflects_toJson : Reflects Entry.toJson := by
  rintro ⟨package, ⟨file, ⟨label⟩, group⟩, configs, setups, services, envs⟩
    ⟨package', ⟨file', ⟨label'⟩, group'⟩, configs', setups', services', envs'⟩ h
  have hpackage : package = package' := eq_of_alike_obj "package" h reflects_str (by simp) (by simp)
  have hfile : file = file' := eq_of_alike_obj "source_file" h reflects_str (by simp) (by simp)
  have hlabel : label = label' := eq_of_alike_obj "source_kind" h reflects_str (by simp) (by simp)
  have hgroup : group = group' :=
    eq_of_alike_obj "group_name" h reflects_ofOption (by simp) (by simp)
  have hconfigs : configs = configs' :=
    eq_of_alike_obj "configs" h ConfigMapping.reflects_toJson.arr (by simp) (by simp)
  have hsetups : setups = setups' := eq_of_alike_obj "setups" h reflects_str.arr (by simp) (by simp)
  have hservices : services = services' :=
    eq_of_alike_obj "services" h Service.reflects_toJson.arr (by simp) (by simp)
  have henvs : envs = envs' :=
    eq_of_alike_obj "envs" h EnvVar.reflects_toJson.arr (by simp) (by simp)
  rw [hpackage, hfile, hlabel, hgroup, hconfigs, hsetups, hservices, henvs]

/-- A configuration is told by its value. -/
theorem Config.reflects_toJson : Reflects Config.toJson := by
  rintro ⟨entries, envs, scripts⟩ ⟨entries', envs', scripts'⟩ h
  have hentries : entries = entries' :=
    eq_of_alike_obj "entries" h Entry.reflects_toJson.arr (by simp) (by simp)
  have henvs : envs = envs' :=
    eq_of_alike_obj "global_envs" h EnvVar.reflects_toJson.arr (by simp) (by simp)
  have hscripts : scripts = scripts' :=
    eq_of_alike_obj "global_scripts" h reflects_str.arr (by simp) (by simp)
  rw [hentries, henvs, hscripts]

/-- An array of values without repeated keys has none. -/
theorem keyed_arr_map (h : ∀ a, (encode a).Keyed) (xs : List α) :
    (Value.arr (xs.map encode)).Keyed := by
  refine .arr fun v hv => ?_
  obtain ⟨a, -, rfl⟩ := List.mem_map.mp hv
  exact h a

theorem ConfigMapping.keyed_toJson (m : ConfigMapping) : m.toJson.Keyed :=
  .obj (by simp) (by simp [Value.Keyed.str])

theorem EnvVar.keyed_toJson (v : EnvVar) : v.toJson.Keyed :=
  .obj (by simp) (by simp [Value.Keyed.str])

/-- The members of a flag have its key at most. -/
theorem keys_flagMember_sublist (key : String) (flag : Option Bool) :
    ((flagMember key flag).map (·.1)).Sublist [key] := by
  cases flag with
  | none => exact List.nil_sublist _
  | some b => exact List.Sublist.refl _

/-- The value of a flag is no object. -/
theorem keyed_of_mem_flagMember {m : String × Value} (h : m ∈ flagMember key flag) : m.2.Keyed := by
  obtain ⟨-, b, -, hvalue⟩ := mem_flagMember_iff.mp h
  exact hvalue ▸ .bool b

theorem Service.keyed_toJson (s : Service) : s.toJson.Keyed := by
  refine .obj ?keys fun m hm => ?values
  case keys =>
    simp only [List.map_append]
    have hflags := ((List.Sublist.refl ["name", "scope", "enable", "start"]).append
      (keys_flagMember_sublist "restart" s.restart)).append
        (keys_flagMember_sublist "reload" s.reload)
    exact (hflags.append (keys_flagMember_sublist "mask" s.mask)).nodup (by decide)
  case values =>
    simp only [List.mem_append] at hm
    rcases hm with ((hfixed | hrestart) | hreload) | hmask
    · revert m
      simp [Value.Keyed.str, Value.Keyed.bool]
    · exact keyed_of_mem_flagMember hrestart
    · exact keyed_of_mem_flagMember hreload
    · exact keyed_of_mem_flagMember hmask

theorem keyed_ofOption (s : Option String) : (Value.ofOption .str s).Keyed := by
  cases s with
  | none => exact .null
  | some s => exact .str s

theorem Entry.keyed_toJson (e : Entry) : e.toJson.Keyed :=
  .obj (by simp) (by simp [Value.Keyed.str, keyed_ofOption, keyed_arr_map,
    ConfigMapping.keyed_toJson, Service.keyed_toJson, EnvVar.keyed_toJson])

/-- No object in the value of a configuration holds a key twice. -/
theorem Config.keyed_toJson (c : Config) : c.toJson.Keyed :=
  .obj (by simp) (by simp [Value.Keyed.str, keyed_arr_map, Entry.keyed_toJson, EnvVar.keyed_toJson])

/-- The hashed bytes identify a value without repeated keys up to the order of members, at every
depth, and a configuration in every field. -/
theorem hashedBytes_identify :
    (∀ v w : Value, v.Keyed → w.Keyed → (hashedBytes v = hashedBytes w ↔ v.Alike w)) ∧
      ∀ c d : Config, hashedBytes c.toJson = hashedBytes d.toJson ↔ c = d := by
  refine ⟨fun v w hv hw => hashedBytes_eq_iff hv hw, fun c d => ?_⟩
  rw [hashedBytes_eq_iff c.keyed_toJson d.keyed_toJson]
  constructor
  · exact Config.reflects_toJson c d
  · rintro rfl
    exact (Value.sorted_eq_iff c.keyed_toJson c.keyed_toJson).mp rfl

/-- The order of members does not matter inside of an array, and an undefined flag is not a false
one. -/
theorem hashedBytes_identify_nested :
    let members : List (String × Value) := [("x", .int 1), ("y", .str "é")]
    let v : Value := .obj [("b", .arr [.obj members, .null]), ("a", .bool true)]
    let w : Value := .obj [("a", .bool true), ("b", .arr [.obj members.reverse, .null])]
    let service (restart : Option Bool) : Config :=
      ⟨[⟨"p", ⟨"main.owl", .main, none⟩, [], [], [{ name := "s", restart }], []⟩], [], []⟩
    v.Keyed ∧ w.Keyed ∧ v.Alike w ∧ hashedBytes v = hashedBytes w ∧
      hashedBytes (service none).toJson ≠ hashedBytes (service (some false)).toJson := by
  intro members v w service
  have hmembers : ∀ m ∈ members, m.2.Keyed := by
    simp [members, Value.Keyed.int, Value.Keyed.str]
  have hinner : (Value.obj members).Keyed ∧ (Value.obj members.reverse).Keyed :=
    ⟨.obj (by decide) hmembers, .obj (by decide) fun m hm => hmembers m (List.mem_reverse.mp hm)⟩
  have hv : v.Keyed := .obj (by decide) (by
    simp [Value.Keyed.bool, Value.Keyed.arr, Value.Keyed.null, hinner.1])
  have hw : w.Keyed := .obj (by decide) (by
    simp [Value.Keyed.bool, Value.Keyed.arr, Value.Keyed.null, hinner.2])
  have halike : v.Alike w := by
    simp [v, w, members, Value.alike_obj_iff, Value.alike_arr_iff, Value.Alike.bool,
      Value.Alike.int, Value.Alike.str, Value.Alike.null, or_comm]
  refine ⟨hv, hw, halike, (hashedBytes_identify.1 v w hv hw).mpr halike, fun hbytes => ?_⟩
  have hsame := (hashedBytes_identify.2 (service none) (service (some false))).mp hbytes
  simp [service] at hsame

end HostConfig
