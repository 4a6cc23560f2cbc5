import HostConfig.Document
import HostConfig.Relevant
import HostConfig.Proofs.Document.Place

/-!
# The groups that a document includes

A token that names a group becomes exactly one statement, the inclusion of that group, and no
other token becomes an inclusion. So the groups that a document includes, in order, are those
that a scan of its file's tokens finds, and each of them has a possible name. The causes that end
a reading are about the form of a line, its context or its keyword.
-/

namespace HostConfig

open HostConfig.Text HostConfig.Payload

/-- The group that a statement includes. -/
def Form.group? : Form → Option String
  | .group name => some name
  | _ => none

/-- The groups that a body includes, in order. -/
def groupsOf (body : List Statement) : List String := body.filterMap (·.form.group?)

/-- A statement that includes no group adds none. -/
theorem groupsOf_cons_of_none {s : Statement} {rest : List Statement}
    (h : s.form.group? = none) : groupsOf (s :: rest) = groupsOf rest := by
  rw [groupsOf, List.filterMap_cons, h]
  rfl

/-- The inclusion of a group stands before those of later statements. -/
theorem groupsOf_cons_of_some {s : Statement} {rest : List Statement} {name : String}
    (h : s.form.group? = some name) : groupsOf (s :: rest) = name :: groupsOf rest := by
  rw [groupsOf, List.filterMap_cons, h]
  rfl

theorem groupsOf_append (xs ys : List Statement) :
    groupsOf (xs ++ ys) = groupsOf xs ++ groupsOf ys := List.filterMap_append

/-- The groups that a document includes, in order. -/
def Document.groups (d : Document) : List String := groupsOf d.body

theorem Form.group?_eq_some_iff {form : Form} {name : String} :
    form.group? = some name ↔ form = .group name := by
  cases form <;> simp [Form.group?]

/-- A document includes the groups that its statements include. -/
theorem Document.mem_groups_of_mem_body {d : Document} {s : Statement} {name : String}
    (hs : s ∈ d.body) (hform : s.form.group? = some name) : name ∈ d.groups :=
  List.mem_filterMap.mpr ⟨s, hs, hform⟩

/-- A statement about a package includes no group and says something. -/
theorem form_of_readPackageDirective {package payload : String} {d : PackageDirective} {form : Form}
    (h : readPackageDirective package d payload = .ok form) :
    form.group? = none ∧ form ≠ .blank := by
  unfold readPackageDirective readService at h
  repeat' split at h
  all_goals cases h
  all_goals exact ⟨rfl, Form.noConfusion⟩

/-- A token that names a group is read as its inclusion; any other one includes no group and says
something. -/
theorem Token.forms_of_read {scope : Scope} {t : Token} {reading : Reading}
    (h : t.read scope = .ok reading) :
    (t.kind = .directive .group ∧ isGroupName t.payload ∧ reading.forms = [.group t.payload]) ∨
      (t.kind ≠ .directive .group ∧ ∀ form ∈ reading.forms, form.group? = none ∧ form ≠ .blank) := by
  unfold Token.read at h
  split at h
  · next d hkind =>
    cases d with
    | group =>
      simp only [readDirective, readGroup] at h
      split at h
      · cases h
      · split at h
        · next hname =>
          cases h
          exact Or.inl ⟨hkind, hname, rfl⟩
        · cases h
    | packages =>
      simp only [readDirective] at h
      split at h <;> cases h
      exact Or.inr ⟨by simp [hkind], by simp [Form.group?]⟩
    | package =>
      simp only [readDirective, readPackage] at h
      split at h <;> cases h
      exact Or.inr ⟨by simp [hkind], by simp [Form.group?]⟩
    | env =>
      simp only [readDirective] at h
      split at h <;> cases h
      exact Or.inr ⟨by simp [hkind], by simp [Form.group?]⟩
    | script =>
      simp only [readDirective] at h
      split at h <;> cases h
      exact Or.inr ⟨by simp [hkind], by simp [Form.group?]⟩
    | ofPackage d =>
      simp only [readDirective] at h
      split at h
      · split at h
        · cases h
        · next hform =>
          cases h
          exact Or.inr ⟨by simp [hkind], by simpa using form_of_readPackageDirective hform⟩
      · cases h
  · next hkind =>
    unfold readText at h
    repeat' split at h
    all_goals cases h
    all_goals exact Or.inr ⟨by simp [hkind], by simp [Form.group?]⟩
  · next hkind =>
    cases h
    exact Or.inr ⟨by simp [hkind], by simp⟩

/-- The statements of a token that is not about a group include none, and the others the one. -/
theorem Token.groups_of_read {scope : Scope} {t : Token} {reading : Reading}
    (h : t.read scope = .ok reading) :
    reading.forms.filterMap Form.group? = includedGroups [t] := by
  rcases Token.forms_of_read h with ⟨hkind, hname, hforms⟩ | ⟨hkind, hforms⟩
  · simp [hforms, Form.group?, includedGroups, hkind, hname]
  · have hnone : reading.forms.filterMap Form.group? = [] :=
      List.filterMap_eq_nil_iff.mpr fun form hform => (hforms form hform).1
    simp [hnone, includedGroups, hkind]

theorem includedGroups_append (xs ys : List Token) :
    includedGroups (xs ++ ys) = includedGroups xs ++ includedGroups ys := List.filterMap_append

/-- The groups that the statements of a text include are those that its tokens name. -/
theorem groups_of_readTokens {position : Nat} {scope : Scope} {file : String} {number : Nat}
    {ls : List (List Char)} {body : List Statement}
    (h : (readTokens position scope (tokensFrom file number ls)).outcome = .ok body) :
    groupsOf body = includedGroups (tokensFrom file number ls) := by
  induction ls generalizing position scope number body with
  | nil =>
    cases h
    rfl
  | cons raw rest ih =>
    rw [tokensFrom] at h ⊢
    rw [includedGroups_append]
    cases hline : Token.ofLine? file number raw with
    | none =>
      rw [hline] at h
      exact ih h
    | some t =>
      rw [hline, Option.toList_some, List.singleton_append,
        outcome_cons_eq_ok_iff (Token.kind_of_ofLine? hline)] at h
      obtain ⟨reading, later, hread, hlater, rfl⟩ := h
      rw [groupsOf_append, ih hlater, groupsOf, List.filterMap_map, Option.toList_some,
        ← Token.groups_of_read hread]
      rfl

/-- A statement about a package is malformed, if it is not read. -/
theorem category_of_readPackageDirective {package payload : String} {d : PackageDirective}
    {cause : Cause} (h : readPackageDirective package d payload = .error cause) :
    cause.category = .structural := by
  unfold readPackageDirective readService at h
  repeat' split at h
  all_goals cases h
  all_goals rfl

/-- A plain line begins like a directive or is malformed, if it is not read. -/
theorem category_of_readText {scope : Scope} {text : String} {cause : Cause}
    (h : readText scope text = .error cause) :
    cause.category = .structural ∨ cause.category = .unknownDirective := by
  unfold readText at h
  repeat' split at h
  all_goals cases h
  all_goals simp [Cause.category]

/-- A directive about a package that is not read is out of context, or else is malformed. -/
theorem category_of_readDirective_ofPackage {s : Scope} {d : PackageDirective} {payload : String}
    {cause : Cause} (h : readDirective s (.ofPackage d) payload = .error cause) :
    ((∀ name, s ≠ .package name) ∧ cause.category = .context) ∨
      ((∃ name, s = .package name) ∧ cause.category = .structural) := by
  cases s with
  | top | listing =>
    cases h
    exact Or.inl ⟨by simp, rfl⟩
  | package name =>
    refine Or.inr ⟨⟨name, rfl⟩, ?_⟩
    simp only [readDirective] at h
    split at h
    · next hread =>
      cases h
      exact category_of_readPackageDirective hread
    · cases h

/-- A directive about the host that is not read is malformed. -/
theorem category_of_readDirective_host {s : Scope} {directive : Directive} {payload : String}
    {cause : Cause} (hdirective : ∀ d, directive ≠ .ofPackage d)
    (h : readDirective s directive payload = .error cause) : cause.category = .structural := by
  cases directive with
  | ofPackage d => exact absurd rfl (hdirective d)
  | packages | package | group | env | script =>
    simp only [readDirective, readPackage, readGroup] at h
    repeat' split at h
    all_goals cases h
    all_goals rfl

/-- A directive is malformed or out of context, if it is not read. -/
theorem category_of_readDirective {scope : Scope} {d : Directive} {payload : String}
    {cause : Cause} (h : readDirective scope d payload = .error cause) :
    cause.category = .structural ∨ cause.category = .context := by
  cases d with
  | ofPackage d =>
    rcases category_of_readDirective_ofPackage h with ⟨-, hcontext⟩ | ⟨-, hstructural⟩
    · exact Or.inr hcontext
    · exact Or.inl hstructural
  | packages | package | group | env | script =>
    exact Or.inl (category_of_readDirective_host (fun _ => Directive.noConfusion) h)

/-- What ends a reading is a malformed line, a line out of context or an unknown keyword. -/
theorem Token.category_of_read {scope : Scope} {t : Token} {cause : Cause}
    (h : t.read scope = .error cause) :
    cause.category = .structural ∨ cause.category = .context ∨
      cause.category = .unknownDirective := by
  unfold Token.read at h
  split at h
  · exact (category_of_readDirective h).imp_right Or.inl
  · exact (category_of_readText h).imp_right Or.inr
  · cases h

end HostConfig
