import HostConfig.Proofs.Document.Inclusion
import HostConfig.Proofs.Document.Language
import HostConfig.Proofs.Payload.PropertyList

/-!
# Which tokens are admitted

Tokens may be made by hand, with payloads that no line gives. Whether such a token is admitted is
described by its payload and the tokens before it, as for those of a text, and so is the category of
the problem if it is not.
-/

namespace HostConfig

open HostConfig.Text HostConfig.Payload

/-- An assignment with its value on one line, up to a line feed at the end. -/
def IsLooseSetting (payload : List Char) : Prop :=
  UpToBreak (fun body => ∃ key value, IsSetting body key value) payload

/-- Whether a payload is admitted for a directive about a package. -/
def PackageDirective.Admits (payload : List Char) : PackageDirective → Prop
  | .config => UpToBreak (fun body => ∃ source target, IsMapping body source target) payload
  | .env => IsLooseSetting payload
  | .service => ∃ name content, IsServiceHead (trimEnd payload) name content ∧
      '\n' ∉ content.getD [] ∧
      ∀ part ∈ pieces ',' (content.getD []), (∃ c ∈ part, isInk c) →
        ∃ key value, IsSetting (trim part) key value
  | .script | .setup => payload ≠ []

/-- Whether a token is admitted after the tokens before it. -/
def Token.AdmittedAfter (before : List Token) (t : Token) : Prop :=
  match t.kind with
  | .directive .packages => t.payload.toList = []
  | .directive .package => ∃ part ∈ pieces ',' t.payload.toList, ∃ c ∈ part, isInk c
  | .directive .group => UpToBreak (fun body => IsSegmented (String.ofList body)) t.payload.toList
  | .directive .env => IsLooseSetting t.payload.toList
  | .directive .script => t.payload.toList ≠ []
  | .directive (.ofPackage d) => (∃ name, CurrentPackage before name) ∧ d.Admits t.payload.toList
  | .text => IsPlain t.payload.toList ∧ InListing before
  | .eof => True

variable {before : List Token} {s : Scope} {t : Token} {package payload : String}
  {d : PackageDirective} {cause : Cause}

/-- A service is read exactly when its payload is admitted. -/
theorem exists_readService_iff : (∃ form, readService package payload = .ok form) ↔
    PackageDirective.Admits payload.toList .service := by
  have hadmits : PackageDirective.Admits payload.toList .service ↔ ∃ name content,
      serviceHead? payload.toList = some (name, content) ∧
        ∃ props, properties (content.getD []) = .ok props := by
    refine exists_congr fun name => exists_congr fun content => ?_
    rw [serviceHead?_eq_some_iff_trimEnd, (readsPropertyList _).exists_iff,
      forall_mem_propertyParts_iff, and_assoc]
  simp only [hadmits, readService, String.isEmpty_iff]
  by_cases hempty : payload = ""
  · simp [hempty, serviceHead?]
  · rw [if_neg hempty]
    rcases serviceHead? payload.toList with _ | ⟨name, content⟩
    · simp
    · cases hprops : properties (content.getD []) <;> simp [hprops]

/-- Packages are read exactly when a piece of the payload does not only hold blanks. -/
theorem exists_readPackage_iff_filled : (∃ reading, readPackage payload = .ok reading) ↔
    ∃ part ∈ pieces ',' payload.toList, ∃ c ∈ part, isInk c := by
  rw [← propertyParts_ne_nil_iff]
  constructor
  · rintro ⟨⟨forms, scope⟩, hread⟩
    obtain ⟨parts, hparts, hne, -⟩ := exists_readPackage_iff.mp ⟨scope, hread⟩
    exact hasParts_iff.mp hparts ▸ hne
  · intro hne
    obtain ⟨scope, hread⟩ := exists_readPackage_iff.mpr ⟨_, hasParts_iff.mpr rfl, hne, rfl⟩
    exact ⟨_, hread⟩

/-- A directive about a package is read exactly when its payload is admitted. -/
theorem exists_readPackageDirective_iff :
    (∃ form, readPackageDirective package d payload = .ok form) ↔ d.Admits payload.toList := by
  cases d with
  | config =>
    rw [PackageDirective.Admits, ← exists_mapping?_iff, readPackageDirective]
    rcases mapping? payload.toList with _ | ⟨source, target⟩ <;> simp
  | env =>
    rw [PackageDirective.Admits, IsLooseSetting]
    simp only [IsSetting]
    rw [← exists_assignment?_iff, readPackageDirective]
    rcases assignment? payload.toList with _ | ⟨key, value⟩ <;> simp
  | service => exact exists_readService_iff
  | script | setup =>
    simp only [readPackageDirective, PackageDirective.Admits, String.isEmpty_iff, ne_eq,
      String.toList_eq_nil_iff]
    by_cases hempty : payload = "" <;> simp [hempty]

/-- A token is read exactly when it is admitted after the tokens that led to the scope. -/
theorem Token.exists_read_iff_admittedAfter (hfits : s.Fits before) :
    (∃ reading, t.read (s.before t.kind) = .ok reading) ↔ t.AdmittedAfter before := by
  obtain ⟨kind, origin, payload⟩ := t
  cases kind with
  | directive d =>
    cases d with
    | packages | script =>
      simp only [read, readDirective, AdmittedAfter, String.isEmpty_iff, ne_eq,
        String.toList_eq_nil_iff]
      by_cases hempty : payload = "" <;> simp [hempty]
    | package =>
      exact exists_readPackage_iff_filled
    | group =>
      simp only [read, readDirective, readGroup_eq_ok_iff, AdmittedAfter,
        ← isGroupName_iff_upToBreak, exists_and_left, exists_eq, and_true]
    | env =>
      simp only [read, readDirective, AdmittedAfter, IsLooseSetting, IsSetting]
      rw [← exists_assignment?_iff]
      rcases assignment? payload.toList with _ | ⟨key, value⟩ <;> simp
    | ofPackage d =>
      simp only [read, AdmittedAfter, ← hfits.before_ofPackage d]
      generalize s.before (.directive (.ofPackage d)) = scope
      cases scope with
      | top | listing => simp [readDirective]
      | package name =>
        have hform : (∃ form, readPackageDirective name d payload = .ok form) ↔
            d.Admits payload.toList := exists_readPackageDirective_iff
        rw [← hform]
        cases hread : readPackageDirective name d payload <;> simp [readDirective, hread]
  | text =>
    simp only [read, AdmittedAfter, readText_eq_ok_iff, hfits.before_text, exists_and_left,
      exists_eq, and_true]
  | eof => simp [read, AdmittedAfter]

/-- What kind of problem a token that is not admitted is. -/
structure Token.Offends (before : List Token) (t : Token) (category : Category) : Prop where
  /-- A plain line that begins like a directive is an unknown directive, in a list or not. -/
  unknownDirective_iff :
    category = .unknownDirective ↔ t.kind = .text ∧ ¬ IsPlain t.payload.toList
  /-- A directive about a package is out of context if no package is current, whatever follows. -/
  context_iff : category = .context ↔
    (∃ d, t.kind = .directive (.ofPackage d)) ∧ ∀ name, ¬ CurrentPackage before name
  structural_of : category ≠ .unknownDirective → category ≠ .context → category = .structural

/-- A plain line that is not read begins like a directive, or else is malformed. -/
theorem category_of_readText_cases {text : String} (h : readText s text = .error cause) :
    (¬ IsPlain text.toList ∧ cause.category = .unknownDirective) ∨
      (IsPlain text.toList ∧ cause.category = .structural) := by
  rw [isPlain_iff]
  unfold readText at h
  split at h
  · next hempty =>
    split at h <;> cases h
    exact Or.inr ⟨by simp [hempty], rfl⟩
  · next c rest htext =>
    split at h
    · next hsigil =>
      cases h
      exact Or.inl ⟨by simp [htext, hsigil], rfl⟩
    · next hsigil =>
      split at h <;> cases h
      exact Or.inr ⟨by simpa [htext] using hsigil, rfl⟩

/-- A token that is not read is a problem of its kind. -/
theorem Token.offends_of_read (hfits : s.Fits before)
    (h : t.read (s.before t.kind) = .error cause) : t.Offends before cause.category := by
  unfold Token.read at h
  split at h
  · next directive hkind =>
    rw [hkind] at h
    by_cases hpackage : ∃ d, directive = .ofPackage d
    · obtain ⟨d, rfl⟩ := hpackage
      have hcurrent : ∀ name, s.before (.directive (.ofPackage d)) = .package name ↔
          CurrentPackage before name := fun _ => hfits.before_ofPackage d
      rcases category_of_readDirective_ofPackage h with
        ⟨hnone, hcategory⟩ | ⟨⟨name, hname⟩, hcategory⟩
      · have hnot : ∀ name, ¬ CurrentPackage before name :=
          fun name hname => hnone name ((hcurrent name).mpr hname)
        exact ⟨by simp [hcategory, hkind], by simp [hcategory, hkind, hnot], by simp [hcategory]⟩
      · have hsome : ∃ name, CurrentPackage before name := ⟨name, (hcurrent name).mp hname⟩
        exact ⟨by simp [hcategory, hkind], by simpa [hcategory, hkind] using hsome,
          by simp [hcategory]⟩
    · have hdirective : ∀ d, directive ≠ .ofPackage d := fun d hd => hpackage ⟨d, hd⟩
      have hcategory := category_of_readDirective_host hdirective h
      exact ⟨by simp [hcategory, hkind], by simp [hcategory, hkind, hdirective],
        by simp [hcategory]⟩
  · next hkind =>
    rcases category_of_readText_cases h with ⟨hsigil, hcategory⟩ | ⟨hplain, hcategory⟩
    · exact ⟨by simp [hcategory, hkind, hsigil], by simp [hcategory, hkind], by simp [hcategory]⟩
    · exact ⟨by simp [hcategory, hkind, hplain], by simp [hcategory, hkind], by simp [hcategory]⟩
  · cases h

/-- Without a package it does not matter that the payload is malformed too. -/
example (origin : Origin) : (⟨.directive (.ofPackage .env), origin, "PATH"⟩ : Token).read .top =
    .error (.noPackage .env) := rfl

end HostConfig
