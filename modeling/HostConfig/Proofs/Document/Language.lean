import HostConfig.Proofs.Document.Context
import HostConfig.Proofs.Layout.Confinement
import HostConfig.Proofs.Payload.Service

/-!
# The language of tokens

Whether a token is acceptable, and what it says, is described by its payload and by the tokens
before it alone. A token is read as it is described, in the scope that the tokens before it leave.
-/

namespace HostConfig

open HostConfig.Text HostConfig.Payload

/-- Whether a payload is acceptable for a directive about a package. -/
def PackageDirective.Accepts (payload : List Char) : PackageDirective → Prop
  | .config => ∃ source destination, IsMapping payload source destination
  | .env => ∃ key value, IsAssignment payload key value
  | .service => ∃ name content, IsServiceHead payload name content ∧
      ∀ text ∈ content, IsPropertyList text
  | .script | .setup => payload ≠ []

/-- What a directive about a package says. -/
def PackageDirective.Says (package payload : String) : PackageDirective → Form → Prop
  | .config, form => ∃ source destination, Maps payload.toList source destination ∧
      form = .packageConfig package (String.ofList source) (String.ofList destination)
  | .env, form => ∃ key value, Assigns payload.toList key value ∧
      form = .packageEnv package (String.ofList key) (String.ofList value)
  | .service, form => ∃ name content props, IsServiceHead payload.toList name content ∧
      SetsProperties (content.getD []) props ∧
      form = .packageService package (String.ofList name) props
  | .script, form => payload ≠ "" ∧ form = .packageScript package payload false
  | .setup, form => payload ≠ "" ∧ form = .packageScript package payload true

/-- A plain line does not begin like a directive. -/
def IsPlain (line : List Char) : Prop := ∀ c ∈ line.head?, c ≠ '@' ∧ c ≠ ':' ∧ c ≠ '!'

/-- Whether a token is acceptable after the tokens before it. -/
def Token.AcceptableAfter (before : List Token) (t : Token) : Prop :=
  match t.kind with
  | .directive .packages => t.payload.toList = []
  | .directive .package => ∃ part ∈ pieces ',' t.payload.toList, ∃ c ∈ part, isInk c
  | .directive .group => IsSegmented t.payload
  | .directive .env => ∃ key value, IsAssignment t.payload.toList key value
  | .directive .script => t.payload.toList ≠ []
  | .directive (.ofPackage d) => HasPackage before ∧ d.Accepts t.payload.toList
  | .text => IsPlain t.payload.toList ∧ InListing before
  | .eof => True

/-- What a token says after the tokens before it. -/
def Token.Says (before : List Token) (t : Token) (forms : List Form) : Prop :=
  match t.kind with
  | .directive .packages => t.payload = "" ∧ forms = [.listing]
  | .directive .package => ∃ parts, HasParts t.payload.toList parts ∧ parts ≠ [] ∧
      forms = parts.map fun part => .package (String.ofList part)
  | .directive .group => IsSegmented t.payload ∧ forms = [.group t.payload]
  | .directive .env => ∃ key value, Assigns t.payload.toList key value ∧
      forms = [.env (String.ofList key) (String.ofList value)]
  | .directive .script => t.payload ≠ "" ∧ forms = [.script t.payload]
  | .directive (.ofPackage d) => ∃ package form, CurrentPackage before package ∧
      d.Says package t.payload form ∧ forms = [form]
  | .text => IsPlain t.payload.toList ∧ InListing before ∧ forms = [.item t.payload]
  | .eof => forms = []

variable {before : List Token} {s : Scope} {t : Token} {forms : List Form}
  {package payload : String} {d : PackageDirective} {form : Form}

/-- A service is read from its head and its property list. -/
theorem readService_eq_ok_iff (hpayload : IsLinePart payload.toList) :
    readService package payload = .ok form ↔
      PackageDirective.Says package payload .service form := by
  have hsaid : PackageDirective.Says package payload .service form ↔ ∃ name content props,
      serviceHead? payload.toList = some (name, content) ∧
        properties (content.getD []) = .ok props ∧
        form = .packageService package (String.ofList name) props := by
    refine exists_congr fun name => exists_congr fun content => exists_congr fun props => ?_
    rw [serviceHead?_eq_some_iff hpayload]
    refine and_congr_right fun hhead => ?_
    rw [properties_eq_ok_iff (hhead.notMem hpayload)]
  simp only [hsaid, readService, String.isEmpty_iff]
  by_cases hempty : payload = ""
  · simp [hempty, serviceHead?]
  · rw [if_neg hempty]
    rcases serviceHead? payload.toList with _ | ⟨name, content⟩
    · simp
    · cases hprops : properties (content.getD []) with
      | error part => simp [hprops]
      | ok props => simp [hprops, eq_comm (a := form)]

/-- A directive about a package is read as what it says. -/
theorem readPackageDirective_eq_ok_iff (hpayload : IsLinePart payload.toList) :
    readPackageDirective package d payload = .ok form ↔ d.Says package payload form := by
  cases d with
  | config =>
    simp only [readPackageDirective, PackageDirective.Says, ← mapping?_eq_some_iff hpayload]
    rcases mapping? payload.toList with _ | ⟨source, destination⟩
    · simp
    · simp [eq_comm (a := form)]
  | env =>
    simp only [readPackageDirective, PackageDirective.Says, ← assignment?_eq_some_iff hpayload]
    rcases assignment? payload.toList with _ | ⟨key, value⟩
    · simp
    · simp [eq_comm (a := form)]
  | service => exact readService_eq_ok_iff hpayload
  | script | setup =>
    simp only [readPackageDirective, PackageDirective.Says, String.isEmpty_iff]
    by_cases hempty : payload = ""
    · simp [hempty]
    · simp [hempty, eq_comm (a := form)]

/-- A plain line begins with no sigil. -/
theorem isPlain_iff {line : List Char} : IsPlain line ↔ ∀ c ∈ line.head?, isSigil c = false := by
  simp only [IsPlain, isSigil, Bool.or_eq_false_iff, beq_eq_false_iff_ne, and_assoc]

/-- A plain line is read in a list of packages. -/
theorem readText_eq_ok_iff {reading : Reading} : readText s payload = .ok reading ↔
    IsPlain payload.toList ∧ s = .listing ∧ reading = ⟨[.item payload], s⟩ := by
  rw [readText, isPlain_iff]
  cases payload.toList with
  | nil =>
    by_cases hs : s = .listing
    · simp [hs, eq_comm (a := reading)]
    · simp [hs]
  | cons c rest =>
    by_cases hc : isSigil c = true
    · simp [hc]
    · by_cases hs : s = .listing
      · simp [hc, hs, eq_comm (a := reading)]
      · simp [hc, hs]

/-- The inclusion of a group with a possible name is read. -/
theorem readGroup_eq_ok_iff {reading : Reading} : readGroup s payload = .ok reading ↔
    isGroupName payload = true ∧ reading = ⟨[.group payload], s⟩ := by
  rw [readGroup]
  by_cases hname : isGroupName payload = true
  · have hempty : payload.isEmpty = false := by
      rw [← Bool.not_eq_true, String.isEmpty_iff]
      rintro rfl
      exact absurd hname (by decide)
    simp [hempty, hname, eq_comm (a := reading)]
  · simp only [hname, Bool.false_eq_true, if_false, false_and]
    split <;> simp

/-- Packages are read as the parts of the payload, if there are any. -/
theorem exists_readPackage_iff : (∃ scope, readPackage payload = .ok ⟨forms, scope⟩) ↔
    ∃ parts, HasParts payload.toList parts ∧ parts ≠ [] ∧
      forms = parts.map fun part => .package (String.ofList part) := by
  simp only [readPackage, packageNames_eq, hasParts_iff, exists_eq_left]
  generalize propertyParts payload.toList = parts
  cases hlast : (parts.map String.ofList).getLast? with
  | none => simp [List.map_eq_nil_iff.mp (List.getLast?_eq_none_iff.mp hlast)]
  | some last =>
    have hne : parts ≠ [] := by
      rintro rfl
      cases hlast
    simp [hne, Function.comp_def, eq_comm (a := forms)]

/-- A directive about a package is read if there is a current one. -/
theorem readDirective_ofPackage_eq_ok_iff (hpayload : IsLinePart payload.toList) {reading : Reading} :
    readDirective s (.ofPackage d) payload = .ok reading ↔
      ∃ package form, s = .package package ∧ d.Says package payload form ∧ reading = ⟨[form], s⟩ := by
  cases s with
  | top | listing => simp [readDirective]
  | package package =>
    simp only [readDirective, ← readPackageDirective_eq_ok_iff hpayload, Scope.package.injEq,
      exists_and_left, exists_eq_left']
    cases readPackageDirective package d payload with
    | error cause => simp
    | ok form => simp [eq_comm (a := reading)]

/-- A token is read as what it says, in the scope that the tokens before it tell. -/
theorem Token.exists_read_iff (hfits : s.Fits before) (hpayload : IsLinePart t.payload.toList) :
    (∃ scope, t.read (s.before t.kind) = .ok ⟨forms, scope⟩) ↔ t.Says before forms := by
  obtain ⟨kind, origin, payload⟩ := t
  cases kind with
  | directive d =>
    cases d with
    | packages =>
      simp only [read, readDirective, Says, String.isEmpty_iff]
      by_cases hempty : payload = ""
      · simp [hempty, eq_comm (a := forms)]
      · simp [hempty]
    | package =>
      exact exists_readPackage_iff
    | group =>
      simp only [read, readDirective, readGroup_eq_ok_iff, Says, isGroupName_iff hpayload.notMem,
        Reading.mk.injEq, exists_and_left, exists_eq, and_true]
    | env =>
      simp only [read, readDirective, Says, ← assignment?_eq_some_iff hpayload]
      rcases assignment? payload.toList with _ | ⟨key, value⟩
      · simp
      · simp [eq_comm (a := forms)]
    | script =>
      simp only [read, readDirective, Says, String.isEmpty_iff]
      by_cases hempty : payload = ""
      · simp [hempty]
      · simp [hempty, eq_comm (a := forms)]
    | ofPackage d =>
      simp only [read, Says, readDirective_ofPackage_eq_ok_iff hpayload, hfits.before_ofPackage d,
        Reading.mk.injEq]
      constructor
      · rintro ⟨scope, package, form, hpackage, hform, hforms, -⟩
        exact ⟨package, form, hpackage, hform, hforms⟩
      · rintro ⟨package, form, hpackage, hform, hforms⟩
        exact ⟨_, package, form, hpackage, hform, hforms, rfl⟩
  | text =>
    simp only [read, Says, readText_eq_ok_iff, hfits.before_text, Reading.mk.injEq, exists_and_left,
      exists_eq, and_true]
  | eof =>
    simp only [read, Says, Except.ok.injEq, Reading.mk.injEq, exists_and_left, exists_eq', and_true]
    exact eq_comm

/-- A payload is acceptable for a directive about a package exactly when it says something. -/
theorem PackageDirective.accepts_iff (hpayload : IsLinePart payload.toList) (package : String) :
    d.Accepts payload.toList ↔ ∃ form, d.Says package payload form := by
  cases d with
  | config =>
    rw [Accepts, ← exists_maps_iff hpayload]
    constructor
    · rintro ⟨source, destination, hmaps⟩
      exact ⟨_, source, destination, hmaps, rfl⟩
    · rintro ⟨_, source, destination, hmaps, -⟩
      exact ⟨source, destination, hmaps⟩
  | env =>
    rw [Accepts, ← exists_assigns_iff hpayload]
    constructor
    · rintro ⟨key, value, hassigns⟩
      exact ⟨_, key, value, hassigns, rfl⟩
    · rintro ⟨_, key, value, hassigns, -⟩
      exact ⟨key, value, hassigns⟩
  | service =>
    constructor
    · rintro ⟨name, content, hhead, hlist⟩
      have hprops := exists_setsProperties_iff (hhead.notMem hpayload)
      obtain ⟨props, hprops⟩ := hprops.mpr (isPropertyList_getD.mpr hlist)
      exact ⟨_, name, content, props, hhead, hprops, rfl⟩
    · rintro ⟨_, name, content, props, hhead, hprops, -⟩
      have hlist := (exists_setsProperties_iff (hhead.notMem hpayload)).mp ⟨props, hprops⟩
      exact ⟨name, content, hhead, isPropertyList_getD.mp hlist⟩
  | script | setup => simp [Accepts, Says]

/-- A token is acceptable exactly when it says something. -/
theorem Token.acceptableAfter_iff (hfits : s.Fits before) (hpayload : IsLinePart t.payload.toList) :
    t.AcceptableAfter before ↔ ∃ forms, t.Says before forms := by
  obtain ⟨kind, origin, payload⟩ := t
  cases kind with
  | directive d =>
    cases d with
    | packages | script => simp [AcceptableAfter, Says]
    | package => simp [AcceptableAfter, Says, hasParts_iff, ← propertyParts_ne_nil_iff]
    | group => simp [AcceptableAfter, Says]
    | env =>
      simp only [AcceptableAfter, Says, ← exists_assigns_iff hpayload]
      constructor
      · rintro ⟨key, value, hassigns⟩
        exact ⟨_, key, value, hassigns, rfl⟩
      · rintro ⟨_, key, value, hassigns, -⟩
        exact ⟨key, value, hassigns⟩
    | ofPackage d =>
      simp only [AcceptableAfter, Says, ← hfits.exists_currentPackage_iff]
      constructor
      · rintro ⟨⟨package, hpackage⟩, haccepts⟩
        obtain ⟨form, hform⟩ := (d.accepts_iff hpayload package).mp haccepts
        exact ⟨_, package, form, hpackage, hform, rfl⟩
      · rintro ⟨_, package, form, hpackage, hform, -⟩
        exact ⟨⟨package, hpackage⟩, (d.accepts_iff hpayload package).mpr ⟨form, hform⟩⟩
  | text => simp [AcceptableAfter, Says]
  | eof => simp [AcceptableAfter, Says]

end HostConfig
