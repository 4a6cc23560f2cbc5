import HostConfig.Proofs.Document.Acceptance
import HostConfig.Proofs.Payload.FirstSign

/-!
# The assignments of a document

Each variable and each property of a document goes back to the token on its line, and records what
is assigned there: the key and the value on either side of the first equals sign, unless the text
has a later sign to cut at.
-/

namespace HostConfig

open HostConfig.Text HostConfig.Payload

/-- What a statement owes to the token that says it, as far as it holds assignments. A service has
the properties that the parts of its list record. -/
def Token.Records (t : Token) : Form → Prop
  | .env key value => t.kind = .directive .env ∧
      Payload.Records t.payload.toList key.toList value.toList
  | .packageEnv _ key value => t.kind = .directive (.ofPackage .env) ∧
      Payload.Records t.payload.toList key.toList value.toList
  | .packageService _ name props => t.kind = .directive (.ofPackage .service) ∧
      ∃ content parts, IsServiceHead t.payload.toList name.toList content ∧
        HasParts (content.getD []) parts ∧ SetByParts Payload.Records parts props
  | _ => True

variable {before tokens : List Token} {t : Token} {forms : List Form} {form : Form}
  {body : List Statement}

/-- What a directive about a package says is recorded from its payload. -/
theorem PackageDirective.Says.records {d : PackageDirective} {package : String}
    (hsaid : d.Says package t.payload form) (hkind : t.kind = .directive (.ofPackage d))
    (hpayload : IsLinePart t.payload.toList) : t.Records form := by
  cases d with
  | config =>
    obtain ⟨source, destination, -, rfl⟩ := hsaid
    exact trivial
  | env =>
    obtain ⟨key, value, hassigns, rfl⟩ := hsaid
    simp only [Token.Records, String.toList_ofList]
    exact ⟨hkind, hassigns.records hpayload⟩
  | service =>
    obtain ⟨name, content, props, hhead, ⟨parts, hparts, hset⟩, rfl⟩ := hsaid
    have hlines := isLinePart_of_mem_propertyParts (hhead.notMem hpayload)
    rw [← hasParts_iff.mp hparts] at hlines
    refine ⟨hkind, content, parts, by rwa [String.toList_ofList], hparts, ?_⟩
    exact hset.imp fun part hpart _ _ hassigns => hassigns.records (hlines part hpart)
  | script | setup =>
    obtain ⟨-, rfl⟩ := hsaid
    exact trivial

/-- What a token says is recorded from it. -/
theorem Token.Says.records (hsaid : t.Says before forms)
    (hpayload : t.kind ≠ .eof → IsLinePart t.payload.toList) (hform : form ∈ forms) :
    t.Records form := by
  cases hkind : t.kind with
  | directive d =>
    have hpart : IsLinePart t.payload.toList := hpayload (by simp [hkind])
    cases d with
    | packages | group | script =>
      simp only [Says, hkind] at hsaid
      obtain ⟨-, rfl⟩ := hsaid
      cases List.mem_singleton.mp hform
      exact trivial
    | package =>
      simp only [Says, hkind] at hsaid
      obtain ⟨parts, -, -, rfl⟩ := hsaid
      obtain ⟨part, -, rfl⟩ := List.mem_map.mp hform
      exact trivial
    | env =>
      simp only [Says, hkind] at hsaid
      obtain ⟨key, value, hassigns, rfl⟩ := hsaid
      cases List.mem_singleton.mp hform
      simp only [Records, String.toList_ofList]
      exact ⟨hkind, hassigns.records hpart⟩
    | ofPackage d =>
      simp only [Says, hkind] at hsaid
      obtain ⟨package, said, -, hsaid, rfl⟩ := hsaid
      cases List.mem_singleton.mp hform
      exact hsaid.records hkind hpart
  | text =>
    simp only [Says, hkind] at hsaid
    obtain ⟨-, -, rfl⟩ := hsaid
    cases List.mem_singleton.mp hform
    exact trivial
  | eof =>
    simp only [Says, hkind] at hsaid
    exact absurd (hsaid ▸ hform) List.not_mem_nil

/-- Each statement that tokens spell is recorded from one of them, at its place. -/
theorem Spells.records (hspells : Spells before tokens body)
    (htokens : ∀ t ∈ tokens, t.kind ≠ .eof → IsLinePart t.payload.toList) :
    ∀ s ∈ body, ∃ t ∈ tokens, t.origin = s.origin ∧ t.Records s.form := by
  induction hspells with
  | nil => exact fun s hs => absurd hs List.not_mem_nil
  | @cons _ rest t _ _ hsaid _ ih =>
    obtain ⟨hfirst, hothers⟩ := List.forall_mem_cons.mp htokens
    intro s hs
    rcases List.mem_append.mp hs with hhere | hlater
    · obtain ⟨form, hform, rfl⟩ := List.mem_map.mp hhere
      exact ⟨t, List.mem_cons_self, rfl, hsaid.records hfirst hform⟩
    · obtain ⟨u, hu, hrecorded⟩ := ih hothers s hlater
      exact ⟨u, List.mem_cons_of_mem t hu, hrecorded⟩

/-- Each variable and each property of a document records an assignment on its line, which is cut at
its first equals sign unless there is a later one to cut at. -/
theorem Document.records_of_ofText {file : String} {text : List Char} {document : Document}
    (h : Document.ofText file text = .ok document) :
    ∀ s ∈ document.body, ∃ t ∈ tokenize file text, t.origin = s.origin ∧ t.Records s.form := by
  obtain ⟨-, hspells⟩ := Document.ofText_eq_ok_iff_spells.mp h
  exact hspells.records fun _ ht => isLinePart_of_mem_tokenize ht

/-- A variable whose value holds equals signs, and a property whose key holds one. -/
theorem Document.records_of_ofText_options :
    let text := "@env OPTS = -Dk=v\n@package p\n:service s [a=b=c]\n".toList
    let document : Document := ⟨"f", [⟨⟨"f", 1, "@env OPTS = -Dk=v"⟩, .env "OPTS" "-Dk=v"⟩,
      ⟨⟨"f", 2, "@package p"⟩, .package "p"⟩,
      ⟨⟨"f", 3, ":service s [a=b=c]"⟩, .packageService "p" "s" [("a=b", .text "c")]⟩]⟩
    Document.ofText "f" text = .ok document ∧
      ∀ s ∈ document.body, ∃ t ∈ tokenize "f" text, t.origin = s.origin ∧ t.Records s.form := by
  intro text document
  have htext : Document.ofText "f" text = .ok document := by decide +kernel
  exact ⟨htext, Document.records_of_ofText htext⟩

/-- The key of a variable can hold equals signs: it is cut at the last one of its only word. -/
theorem Document.exists_key_with_sign :
    ∃ document, Document.ofText "f" "@env OPTS=-Dk=v".toList = .ok document ∧
      ∃ s ∈ document.body, ∃ key value, s.form = .env key value ∧ '=' ∈ key.toList ∧
        ¬ CutsAtFirst "OPTS=-Dk=v".toList key.toList value.toList := by
  refine ⟨⟨"f", [⟨⟨"f", 1, "@env OPTS=-Dk=v"⟩, .env "OPTS=-Dk" "v"⟩]⟩, by decide +kernel, _,
    List.mem_singleton_self _, "OPTS=-Dk", "v", rfl, by decide, ?_⟩
  intro hcut
  obtain ⟨before, behind, -, hfresh, hkey, -⟩ := hcut
  have hsign : '=' ∈ "OPTS=-Dk".toList := by decide
  exact hfresh ((trimEnd_isPrefix before).subset (hkey ▸ hsign))

end HostConfig
