import HostConfig.Proofs.Document.Assignment
import HostConfig.Proofs.Document.Source
import HostConfig.Proofs.Payload.PropertyList

/-!
# What a document warns of

A document warns of each script in the deprecated spelling, and of each key of a service that means
nothing, once where it stands first. The properties of a service hold each key once, in the order of
first occurrence, so that resolving a statement warns of exactly that.
-/

namespace HostConfig

open HostConfig.Payload

/-- The keys of properties that mean something. -/
def knownKeys : List String := ["scope", "enable", "start", "restart", "reload", "mask"]

/-- What there is to warn of in what a statement says. -/
def Form.flaws : Form → List String
  | .packageScript _ _ legacy =>
    if legacy then ["'!setup' is deprecated, use ':script' instead"] else []
  | .packageService _ _ props =>
    ((props.map (·.1)).eraseDups.filter (· ∉ knownKeys)).map fun key =>
      "unknown service property '" ++ key ++ "' ignored"
  | _ => []

/-- What there is to warn of in a statement, with its line. -/
def Statement.flaws (s : Statement) : List String :=
  s.form.flaws.map fun text => "line " ++ toString s.origin.line ++ ": " ++ text

/-- What there is to warn of in a document, in the order of its statements. -/
def Document.flaws (d : Document) : List String := d.body.flatMap Statement.flaws

/-- A property has a meaning if its key is one of those that mean something. -/
theorem isKnownProperty_iff {key : String} : isKnownProperty key ↔ key ∈ knownKeys := by
  simp [isKnownProperty, flagKeys, knownKeys]

/-- What is recorded from a token is warned of as there is reason to. -/
theorem Token.Records.warnings_eq {t : Token} {form : Form} (h : t.Records form) :
    form.warnings = form.flaws := by
  cases form with
  | packageService package name props =>
    obtain ⟨-, content, parts, -, -, pairs, -, hset⟩ := h
    have hkeys : (props.map (·.1)).eraseDups = props.map (·.1) := by
      rw [hset.keys_eq]
      exact eraseDups_of_nodup (nodup_eraseDups _)
    have hknown : ∀ key, decide (key ∉ knownKeys) = !isKnownProperty key := fun key => by
      simp [← isKnownProperty_iff]
    simp only [Form.warnings, Form.flaws, hkeys, hknown, List.filter_map, List.map_map]
    rfl
  | packageScript package text legacy => cases legacy <;> rfl
  | _ => rfl

/-- A statement of a file's document is warned of as there is reason to. -/
theorem Site.warnings_of_statement {site : Site} {p : Path} {d : Document}
    (h : site.document p = .ok d) {s : Statement} (hs : s ∈ d.body) : s.warnings = s.flaws := by
  obtain ⟨text, body, -, rfl, hbody⟩ := site.exists_text_of_document h
  have htext : Document.ofText p.toString text = .ok ⟨p.toString, body⟩ :=
    Document.ofText_eq_ok_iff.mpr ⟨rfl, hbody⟩
  obtain ⟨-, hspells⟩ := Document.ofText_eq_ok_iff_spells.mp htext
  obtain ⟨t, -, -, hrecords⟩ := hspells.records (fun _ ht => isLinePart_of_mem_tokenize ht) s hs
  rw [Statement.warnings, Statement.flaws, hrecords.warnings_eq]

/-- The inclusion of a group is nothing to warn of. -/
theorem Statement.flaws_of_group {s : Statement} {name : String} (h : s.form.group? = some name) :
    s.flaws = [] := by
  rw [Form.group?_eq_some_iff] at h
  rw [flaws, h]
  rfl

end HostConfig
