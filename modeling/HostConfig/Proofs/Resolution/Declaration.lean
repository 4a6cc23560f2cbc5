import HostConfig.Proofs.Document.Inclusion
import HostConfig.Proofs.Entries.Fields
import HostConfig.Resolution

/-!
# Carrying out a statement

What one statement can do to a resolution, and why it may fail. A statement about a package adds
to the lists of the package's entry and to nothing else, and gives the package a source unless it
has one.
-/

namespace HostConfig

/-- A scope that is not allowed is a malformed statement. -/
theorem category_of_scopeOf {props : Payload.Properties} {cause : Cause}
    (h : scopeOf props = .error cause) : cause.category = .structural := by
  unfold scopeOf at h
  repeat' split at h
  all_goals cases h
  all_goals rfl

/-- A flag that is not allowed is a malformed statement. -/
theorem category_of_flagOf {props : Payload.Properties} {key : String} {cause : Cause}
    (h : flagOf props key = .error cause) : cause.category = .structural := by
  unfold flagOf at h
  repeat' split at h
  all_goals cases h
  all_goals rfl

/-- Of two steps that may fail, one fails. -/
theorem bind_eq_error {α β : Type} {x : Except Cause α} {f : α → Except Cause β} {cause : Cause}
    (h : (x >>= f) = .error cause) : x = .error cause ∨ ∃ a, x = .ok a ∧ f a = .error cause := by
  cases x with
  | error other =>
    cases h
    exact Or.inl rfl
  | ok a => exact Or.inr ⟨a, rfl, h⟩

/-- Properties that are not allowed are a malformed statement. -/
theorem category_of_ofProperties {name : String} {props : Payload.Properties} {cause : Cause}
    (h : Service.ofProperties name props = .error cause) : cause.category = .structural := by
  unfold Service.ofProperties at h
  obtain h | ⟨_, -, h⟩ := bind_eq_error h
  · exact category_of_scopeOf h
  -- The five flags are checked one after the other.
  iterate 5
    obtain h | ⟨_, -, h⟩ := bind_eq_error h
    · exact category_of_flagOf h
  cases h

/-- A statement fails when it says nothing or when the properties of its service are not allowed. -/
theorem Resolution.declare_eq_error {r : Resolution} {l : Layout} {source : Provenance}
    {s : Statement} {failure : Failure} (h : r.declare l source s = .error failure) :
    (s.form = .blank ∧ failure = .blankStatement) ∨
      ∃ package name props cause, s.form = .packageService package name props ∧
        Service.ofProperties name props = .error cause ∧ failure = .problem ⟨s.origin, cause⟩ := by
  unfold Resolution.declare at h
  cases hform : s.form with
  | blank =>
    rw [hform] at h
    exact Or.inl ⟨rfl, (Except.error.inj h).symm⟩
  | packageService package name props =>
    simp only [hform] at h
    cases hservice : Service.ofProperties name props with
    | error cause =>
      rw [hservice] at h
      exact Or.inr ⟨package, name, props, cause, rfl, hservice, (Except.error.inj h).symm⟩
    | ok service =>
      rw [hservice] at h
      cases h
  | _ =>
    rw [hform] at h
    cases h

/-- The package that a statement is about. -/
def Form.package? : Form → Option String
  | .item name | .package name => some name
  | .packageConfig name _ _ | .packageEnv name _ _ | .packageService name _ _
  | .packageScript name _ _ => some name
  | .listing | .group _ | .env _ _ | .script _ | .blank => none

/-- What a statement adds to the lists of the package that it is about. -/
def Form.additions (l : Layout) : Form → (field : ListField) → List field.Item
  | .packageConfig _ source destination, .configs => [⟨(l.dotfile source).toString, destination⟩]
  | .packageScript _ text _, .setups => [text]
  | .packageService _ name props, .services =>
    match Service.ofProperties name props with
    | .ok service => [service]
    | .error _ => []
  | .packageEnv _ key value, .envs => [⟨key, value⟩]
  | _, _ => []

/-- What a statement adds to a list of a package. -/
def Form.declares (l : Layout) (package : String) (field : ListField) (form : Form) :
    List field.Item :=
  if form.package? = some package then form.additions l field else []

/-- What a statement about a package makes of the entries. -/
structure Resolution.Declares (l : Layout) (source : Provenance) (form : Form)
    (r r' : Resolution) : Prop where
  list_eq : ∀ package field,
    r'.entries.list package field = r.entries.list package field ++ form.declares l package field
  source?_eq : ∀ package, r'.entries.source? package =
    (r.entries.source? package).or (if form.package? = some package then some source else none)
  nodup : r.entries.packages.Nodup → r'.entries.packages.Nodup

/-- A statement about a package adds to that package's entry. -/
theorem Resolution.declares_modifyEntry {l : Layout} {source : Provenance} {form : Form}
    {package : String} {change : Entry → Entry} (r : Resolution)
    (hform : form.package? = some package) (hpackage : ∀ e, (change e).package = e.package)
    (hsource : ∀ e, (change e).provenance = e.provenance)
    (hadditions : ∀ e field, (change e).list field = e.list field ++ form.additions l field) :
    r.Declares l source form (r.modifyEntry source package change) where
  list_eq other field := by
    have hfresh : ∀ field, ({ package, provenance := source } : Entry).list field = [] := by
      intro field
      cases field <;> rfl
    rw [modifyEntry, Entries.list_modify _ hpackage hfresh hadditions, Form.declares, hform]
    simp only [Option.some.injEq]
  source?_eq other := by
    rw [modifyEntry, Entries.source?_modify _ hpackage hsource, hform]
    simp only [Option.some.injEq]
  nodup := Entries.nodup_packages_modify _ hpackage

/-- A statement about no package leaves the entries as they are. -/
theorem Resolution.declares_of_entries_eq {l : Layout} {source : Provenance} {form : Form}
    {r r' : Resolution} (hform : form.package? = none) (hentries : r'.entries = r.entries) :
    r.Declares l source form r' where
  list_eq package field := by simp [hentries, Form.declares, hform]
  source?_eq package := by simp [hentries, hform]
  nodup h := hentries ▸ h

/-- A statement that is carried out does to the entries what it says. -/
theorem Resolution.declares_of_declare {r r' : Resolution} {l : Layout} {source : Provenance}
    {s : Statement} (h : r.declare l source s = .ok r') : r.Declares l source s.form r' := by
  unfold Resolution.declare at h
  cases hform : s.form with
  | listing | group | env | script =>
    rw [hform] at h
    cases h
    exact declares_of_entries_eq rfl rfl
  | item | package =>
    rw [hform] at h
    cases h
    refine r.declares_modifyEntry rfl (fun _ => rfl) (fun _ => rfl) fun e field => ?_
    cases field <;> exact (List.append_nil _).symm
  | packageConfig | packageEnv | packageScript =>
    rw [hform] at h
    cases h
    refine r.declares_modifyEntry rfl (fun _ => rfl) (fun _ => rfl) fun e field => ?_
    cases field <;> first | rfl | exact (List.append_nil _).symm
  | packageService package name props =>
    simp only [hform] at h
    cases hservice : Service.ofProperties name props with
    | error cause =>
      rw [hservice] at h
      cases h
    | ok service =>
      rw [hservice] at h
      cases h
      refine r.declares_modifyEntry rfl (fun _ => rfl) (fun _ => rfl) fun e field => ?_
      cases field with
      | services => simp [Form.additions, Entry.list, hservice]
      | configs | setups | envs => exact (List.append_nil _).symm
  | blank =>
    rw [hform] at h
    cases h

end HostConfig
