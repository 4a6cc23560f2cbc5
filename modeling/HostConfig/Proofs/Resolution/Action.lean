import HostConfig.Proofs.Entries.Merging
import HostConfig.Proofs.Resolution.Declaration

/-!
# How statements act

A statement that can be carried out acts in one of two ways, and acts in this way wherever it
stands and whatever was gathered before: it changes the entry of one package, without regard to the
source of the entry, or it adds to the variables and scripts of the host.
-/

namespace HostConfig

/-- The environment variable that a statement gives the host. -/
def Form.env? : Form → Option EnvVar
  | .env key value => some ⟨key, value⟩
  | _ => none

/-- The script that a statement gives the host. -/
def Form.script? : Form → Option String
  | .script text => some text
  | _ => none

/-- Add what a statement gives the host. -/
def Resolution.addGlobals (r : Resolution) (form : Form) : Resolution :=
  { r with envs := r.envs ++ form.env?.toList, scripts := r.scripts ++ form.script?.toList }

/-- The way in which a statement acts. -/
inductive Form.Acts (l : Layout) (form : Form) : Prop
  | onPackage {package : String} {change : Entry → Entry} (hform : form.package? = some package)
      (hdeclare : ∀ (r : Resolution) source origin,
        r.declare l source ⟨origin, form⟩ = .ok (r.modifyEntry source package change))
      (hpackage : ∀ e, (change e).package = e.package)
      (hsource : ∀ e provenance, change { e with provenance } = { change e with provenance })
  | onHost (hform : form.package? = none)
      (hdeclare : ∀ (r : Resolution) source origin,
        r.declare l source ⟨origin, form⟩ = .ok (r.addGlobals form))

/-- A statement about a package gives the host nothing. -/
theorem Form.globals_of_package? {form : Form} {package : String}
    (h : form.package? = some package) : form.env? = none ∧ form.script? = none := by
  cases form <;> first | exact ⟨rfl, rfl⟩ | cases h

/-- A statement that is carried out once acts in one of the two ways. -/
theorem Form.acts_of_declare {l : Layout} {form : Form} {r r' : Resolution} {source : Provenance}
    {origin : Origin} (h : r.declare l source ⟨origin, form⟩ = .ok r') : form.Acts l := by
  cases form with
  | listing | group | env | script =>
    refine .onHost rfl fun r _ _ => ?_
    simp [Resolution.declare, Resolution.addGlobals, env?, script?]
  | item | package | packageConfig | packageEnv | packageScript =>
    exact .onPackage rfl (fun _ _ _ => rfl) (fun _ => rfl) (fun _ _ => rfl)
  | packageService package name props =>
    cases hservice : Service.ofProperties name props with
    | error cause => simp [Resolution.declare, hservice] at h
    | ok service =>
      have hdeclare : ∀ (r : Resolution) source origin,
          r.declare l source ⟨origin, .packageService package name props⟩ =
            .ok (r.modifyEntry source package fun e =>
              { e with services := e.services ++ [service] }) := by
        intro r source origin
        simp only [Resolution.declare, hservice]
      exact .onPackage rfl hdeclare (fun _ => rfl) (fun _ _ => rfl)
  | blank => cases h

variable {l : Layout} {form : Form} {r r' : Resolution} {source : Provenance} {origin : Origin}

namespace Resolution

/-- A statement does the same wherever it stands. -/
theorem declare_at (h : r.declare l source ⟨origin, form⟩ = .ok r') (other : Origin) :
    r.declare l source ⟨other, form⟩ = .ok r' := by
  cases Form.acts_of_declare h with
  | onPackage _ hdeclare | onHost _ hdeclare => rw [hdeclare, ← hdeclare r source origin, h]

/-- A statement that is carried out can be carried out in any document, whatever was gathered. -/
theorem exists_declare (h : r.declare l source ⟨origin, form⟩ = .ok r') (other : Resolution)
    (otherSource : Provenance) :
    ∃ other', other.declare l otherSource ⟨origin, form⟩ = .ok other' := by
  cases Form.acts_of_declare h with
  | onPackage _ hdeclare | onHost _ hdeclare => exact ⟨_, hdeclare other otherSource origin⟩

/-- A statement gives the host what it says. -/
theorem globals_of_declare (h : r.declare l source ⟨origin, form⟩ = .ok r') :
    r'.envs = r.envs ++ form.env?.toList ∧ r'.scripts = r.scripts ++ form.script?.toList := by
  cases Form.acts_of_declare h with
  | onPackage hform hdeclare =>
    cases h.symm.trans (hdeclare r source origin)
    obtain ⟨henv, hscript⟩ := Form.globals_of_package? hform
    simp [henv, hscript, modifyEntry]
  | onHost _ hdeclare =>
    cases h.symm.trans (hdeclare r source origin)
    exact ⟨rfl, rfl⟩

/-- A statement about a package that is new adds it at the end. -/
theorem packages_of_declare (h : r.declare l source ⟨origin, form⟩ = .ok r')
    (hr : r.entries.packages.Nodup) :
    r'.entries.packages = (r.entries.packages ++ form.package?.toList).eraseDups := by
  cases Form.acts_of_declare h with
  | onPackage hform hdeclare hpackage =>
    cases h.symm.trans (hdeclare r source origin)
    rw [hform, Option.toList_some, eraseDups_concat, eraseDups_of_nodup hr]
    exact Entries.packages_modify r.entries _ hpackage
  | onHost hform hdeclare =>
    cases h.symm.trans (hdeclare r source origin)
    rw [hform, Option.toList_none, List.append_nil, eraseDups_of_nodup hr]
    rfl

end Resolution

end HostConfig
