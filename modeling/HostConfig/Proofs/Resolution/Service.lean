import HostConfig.Proofs.Document.Warnings
import HostConfig.Proofs.Load.WellFormed

/-!
# Services from properties

A service is made of properties if its scope is one of two words and its flags are truth values.
What is not given has a default. Properties are checked in a fixed order, whatever the order is that
they stand in, and the first one that is not allowed is the problem.
-/

namespace HostConfig

open HostConfig.Payload

variable {props : Properties} {key name : String} {cause : Cause}

/-- A scope that is given is one of two words. -/
def ScopeAllowed (props : Properties) : Prop :=
  ∀ value, props.Gives "scope" value → value = .text "system" ∨ value = .text "user"

/-- A flag that is given is a truth value. -/
def FlagAllowed (props : Properties) (key : String) : Prop :=
  ∀ value, props.Gives key value → ∃ b, value = .flag b

/-- What is wrong with properties: the scope, or else the first flag that is no truth value. -/
inductive FirstFault (props : Properties) : Cause → Prop
  | scope {value : PropertyValue} (hvalue : props.Gives "scope" value)
    (hbad : ¬ ScopeAllowed props) : FirstFault props (.badScope value)
  | flag {key text : String} (hscope : ScopeAllowed props)
    (hfirst : FirstFailing (FlagAllowed props) flagKeys key)
    (htext : props.Gives key (.text text)) : FirstFault props (.badFlag key text)

/-- A service has what the properties give, and the defaults for the rest. -/
structure Service.Follows (service : Service) (name : String) (props : Properties) : Prop where
  name_eq : service.name = name
  scope : props.GivesOr "scope" (.text "system") (.text service.scope)
  enable : props.GivesOr "enable" (.flag true) (.flag service.enable)
  start : props.GivesOr "start" (.flag true) (.flag service.start)
  restart_iff : ∀ b, service.restart = some b ↔ props.Gives "restart" (.flag b)
  reload_iff : ∀ b, service.reload = some b ↔ props.Gives "reload" (.flag b)
  mask_iff : ∀ b, service.mask = some b ↔ props.Gives "mask" (.flag b)

/-- The scope is read exactly when it is allowed. -/
theorem scopeOf_eq_ok_iff {scope : String} : scopeOf props = .ok scope ↔
    ScopeAllowed props ∧ .text scope = (props.get? "scope").getD (.text "system") := by
  simp only [ScopeAllowed, Properties.gives_iff]
  unfold scopeOf
  cases props.get? "scope" with
  | none => simp [eq_comm]
  | some value =>
    cases value with
    | flag b => simp
    | text s =>
      simp only [Bool.or_eq_true, decide_eq_true_eq]
      by_cases hs : s = "system" ∨ s = "user"
      · rw [if_pos hs]
        simpa [eq_comm] using fun _ => hs
      · rw [if_neg hs]
        simp [hs]

/-- The scope that is not allowed is the error. -/
theorem scopeOf_eq_error_iff : scopeOf props = .error cause ↔
    ∃ value, props.Gives "scope" value ∧ ¬ ScopeAllowed props ∧ cause = .badScope value := by
  simp only [ScopeAllowed, Properties.gives_iff]
  unfold scopeOf
  cases props.get? "scope" with
  | none => simp
  | some value =>
    cases value with
    | flag b => simp [eq_comm]
    | text s =>
      simp only [Bool.or_eq_true, decide_eq_true_eq]
      by_cases hs : s = "system" ∨ s = "user"
      · rw [if_pos hs]
        simp [hs]
      · rw [if_neg hs]
        simp [hs, eq_comm]

/-- A scope can be read exactly when it is allowed. -/
theorem exists_scopeOf_eq_ok_iff : (∃ scope, scopeOf props = .ok scope) ↔ ScopeAllowed props := by
  constructor
  · rintro ⟨scope, hscope⟩
    exact (scopeOf_eq_ok_iff.mp hscope).1
  · intro hallowed
    cases hscope : scopeOf props with
    | ok scope => exact ⟨scope, rfl⟩
    | error cause =>
      obtain ⟨value, -, hbad, -⟩ := scopeOf_eq_error_iff.mp hscope
      exact absurd hallowed hbad

/-- A flag is read exactly when it is a truth value or not given. -/
theorem flagOf_eq_ok_iff {flag : Option Bool} :
    flagOf props key = .ok flag ↔ flag.map .flag = props.get? key := by
  unfold flagOf
  cases props.get? key with
  | none => cases flag <;> simp
  | some value => cases value <;> cases flag <;> simp [eq_comm]

/-- A flag that is a text is the error. -/
theorem flagOf_eq_error_iff : flagOf props key = .error cause ↔
    ∃ text, props.Gives key (.text text) ∧ cause = .badFlag key text := by
  simp only [Properties.gives_iff]
  unfold flagOf
  cases props.get? key with
  | none => simp
  | some value => cases value <;> simp [eq_comm]

/-- A flag can be read exactly when it is allowed. -/
theorem exists_flagOf_eq_ok_iff :
    (∃ flag, flagOf props key = .ok flag) ↔ FlagAllowed props key := by
  simp only [FlagAllowed, Properties.gives_iff]
  unfold flagOf
  cases props.get? key with
  | none => simp
  | some value => cases value <;> simp

/-- The scope is checked first, and then the flags in their order. -/
theorem ofProperties_eq_error_iff_checks : Service.ofProperties name props = .error cause ↔
    scopeOf props = .error cause ∨
      (∃ scope, scopeOf props = .ok scope) ∧ flagKeys.mapM (flagOf props) = .error cause := by
  unfold Service.ofProperties flagKeys
  simp only [List.mapM_cons, List.mapM_nil]
  cases scopeOf props with
  | error cause' => simp [bind, Except.bind]
  | ok scope =>
    -- The first flag that fails ends both sequences of checks.
    cases flagOf props "enable" <;> cases flagOf props "start" <;>
      cases flagOf props "restart" <;> cases flagOf props "reload" <;>
      cases flagOf props "mask" <;> simp [bind, Except.bind, pure, Except.pure]

/-- A service cannot be made exactly of properties with something wrong, and that is the error. -/
theorem ofProperties_eq_error_iff :
    Service.ofProperties name props = .error cause ↔ FirstFault props cause := by
  have hflag : ∀ key ∈ flagKeys, ((∃ flag, flagOf props key = .ok flag) ↔ FlagAllowed props key) :=
    fun _ _ => exists_flagOf_eq_ok_iff
  rw [ofProperties_eq_error_iff_checks, scopeOf_eq_error_iff, exists_scopeOf_eq_ok_iff,
    mapM_eq_error_iff]
  simp only [firstFailing_congr hflag, flagOf_eq_error_iff]
  constructor
  · rintro (⟨value, hvalue, hbad, rfl⟩ | ⟨hallowed, key, hfirst, text, htext, rfl⟩)
    · exact .scope hvalue hbad
    · exact .flag hallowed hfirst htext
  · rintro (⟨hvalue, hbad⟩ | ⟨hallowed, hfirst, htext⟩)
    · exact Or.inl ⟨_, hvalue, hbad, rfl⟩
    · exact Or.inr ⟨hallowed, _, hfirst, _, htext, rfl⟩

/-- A wrong scope is told of before a wrong flag, wherever it stands. -/
example : Service.ofProperties "ssh" [("enable", .text "no"), ("scope", .flag true)] =
    .error (.badScope (.flag true)) := by rfl

/-- A service that is made of properties follows them, and nothing is wrong with them. -/
theorem follows_of_ofProperties {service : Service}
    (h : Service.ofProperties name props = .ok service) :
    service.Follows name props ∧ ScopeAllowed props ∧ ∀ key ∈ flagKeys, FlagAllowed props key := by
  unfold Service.ofProperties at h
  obtain ⟨scope, hscope, h⟩ := bind_eq_ok h
  obtain ⟨enable, henable, h⟩ := bind_eq_ok h
  obtain ⟨start, hstart, h⟩ := bind_eq_ok h
  obtain ⟨restart, hrestart, h⟩ := bind_eq_ok h
  obtain ⟨reload, hreload, h⟩ := bind_eq_ok h
  obtain ⟨mask, hmask, h⟩ := bind_eq_ok h
  cases h
  obtain ⟨hallowed, hvalue⟩ := scopeOf_eq_ok_iff.mp hscope
  have hgiven : ∀ {key flag}, flagOf props key = .ok flag →
      ∀ b, flag = some b ↔ props.Gives key (.flag b) := by
    intro key flag hflag b
    rw [Properties.gives_iff, ← flagOf_eq_ok_iff.mp hflag]
    cases flag <;> simp
  have hdefault : ∀ {key flag}, flagOf props key = .ok flag →
      props.GivesOr key (.flag true) (.flag (flag.getD true)) := by
    intro key flag hflag
    rw [Properties.givesOr_iff, ← flagOf_eq_ok_iff.mp hflag]
    cases flag <;> rfl
  refine ⟨⟨rfl, Properties.givesOr_iff.mpr hvalue, hdefault henable, hdefault hstart,
    hgiven hrestart, hgiven hreload, hgiven hmask⟩, hallowed, ?_⟩
  simp only [flagKeys, List.forall_mem_cons, ← exists_flagOf_eq_ok_iff]
  exact ⟨⟨_, henable⟩, ⟨_, hstart⟩, ⟨_, hrestart⟩, ⟨_, hreload⟩, ⟨_, hmask⟩, by simp⟩

/-- A service can be made exactly of properties with nothing wrong. -/
theorem exists_ofProperties_iff : (∃ service, Service.ofProperties name props = .ok service) ↔
    ScopeAllowed props ∧ ∀ key ∈ flagKeys, FlagAllowed props key := by
  constructor
  · rintro ⟨service, hok⟩
    exact (follows_of_ofProperties hok).2
  · rintro ⟨hscope, hflags⟩
    cases hread : Service.ofProperties name props with
    | ok service => exact ⟨service, rfl⟩
    | error cause =>
      cases ofProperties_eq_error_iff.mp hread with
      | scope hvalue hbad => exact absurd hscope hbad
      | flag hallowed hfirst htext => exact absurd (hflags _ hfirst.mem) hfirst.fails

/-- Only the properties that mean something have a part in a service. -/
theorem ofProperties_congr {other : Properties}
    (h : ∀ key ∈ knownKeys, props.get? key = other.get? key) :
    Service.ofProperties name props = Service.ofProperties name other := by
  have hscope : scopeOf props = scopeOf other := by
    rw [scopeOf, scopeOf, h _ (by simp [knownKeys])]
  have hflag : ∀ key ∈ flagKeys, flagOf props key = flagOf other key := by
    intro key hkey
    rw [flagOf, flagOf, h key (List.mem_cons_of_mem _ hkey)]
  simp only [flagKeys, List.forall_mem_cons] at hflag
  obtain ⟨henable, hstart, hrestart, hreload, hmask, -⟩ := hflag
  rw [Service.ofProperties, Service.ofProperties, hscope, henable, hstart, hrestart, hreload, hmask]

/-- The order of the properties has no part in a service, and nor have other keys. -/
theorem ofProperties_eq_of_perm {other : Properties} (h : (props.map (·.1)).Nodup)
    (hother : (other.map (·.1)).Nodup)
    (hperm : (props.filter (·.1 ∈ knownKeys)).Perm (other.filter (·.1 ∈ knownKeys))) :
    Service.ofProperties name props = Service.ofProperties name other := by
  refine ofProperties_congr fun key hkey => Option.ext fun value => ?_
  have hmem := hperm.mem_iff (a := (key, value))
  rw [Properties.get?_eq_some_iff_mem h, Properties.get?_eq_some_iff_mem hother]
  simpa [hkey] using hmem

/-- How a service is made of properties. -/
structure MakesService (name : String) (props : Properties) : Prop where
  exists_iff : (∃ service, Service.ofProperties name props = .ok service) ↔
    ScopeAllowed props ∧ ∀ key ∈ flagKeys, FlagAllowed props key
  follows : ∀ service, Service.ofProperties name props = .ok service → service.Follows name props
  /-- Otherwise the first thing wrong is the error. -/
  error_iff : ∀ cause, Service.ofProperties name props = .error cause ↔ FirstFault props cause
  /-- Neither the order of the properties nor other keys have a part in it. -/
  independent : ∀ other : Properties, (props.map (·.1)).Nodup → (other.map (·.1)).Nodup →
    (props.filter (·.1 ∈ knownKeys)).Perm (other.filter (·.1 ∈ knownKeys)) →
    Service.ofProperties name props = Service.ofProperties name other

/-- A service declaration means what its property list says: the text between the commas is the
parts, the list is read as the properties that these set, and the service is made of properties. -/
theorem propertyList_makes_service (content : List Char) (name : String) (props : Properties) :
    (∃ parts, ReadsPropertyList content parts) ∧ MakesService name props := by
  refine ⟨⟨_, readsPropertyList content⟩, ?_⟩
  exact {
    exists_iff := exists_ofProperties_iff
    follows := fun _ hok => (follows_of_ofProperties hok).1
    error_iff := fun _ => ofProperties_eq_error_iff
    independent := fun _ => ofProperties_eq_of_perm }

end HostConfig
