import HostConfig.Proofs.Document.Acceptance
import HostConfig.Proofs.Document.Admission
import HostConfig.Proofs.Document.Reader

/-!
# The first problem

A reader stops at the first token that is not admitted after the tokens before it. The problem is
told with the place of that token and falls into the category of what is wrong with it, and the
state left behind is what the tokens before it tell, except that a list is over if the token is a
directive other than another list.
-/

namespace HostConfig

/-- Tokens that are no end and admitted one after the other, behind the tokens before them. -/
def AllAdmitted (before tokens : List Token) : Prop :=
  ∀ earlier t later, tokens = earlier ++ t :: later →
    t.kind ≠ .eof ∧ t.AdmittedAfter (before ++ earlier)

/-- The first token that is not admitted after the tokens before it, unless the end comes first. -/
def FirstOffending (tokens before : List Token) (t : Token) : Prop :=
  ∃ after, tokens = before ++ t :: after ∧ AllAdmitted [] before ∧
    t.kind ≠ .eof ∧ ¬ t.AdmittedAfter before

variable {s : Scope} {before tokens rest : List Token} {t : Token}

/-- Tokens are admitted if the first one is, and then the others behind it. -/
theorem allAdmitted_cons : AllAdmitted before (t :: rest) ↔
    (t.kind ≠ .eof ∧ t.AdmittedAfter before) ∧ AllAdmitted (before ++ [t]) rest := by
  rw [AllAdmitted, forall_split_cons, List.append_nil]
  simp [AllAdmitted]

theorem Parse.prepend_nil (p : Parse) : p.prepend [] = p := by
  obtain ⟨position, scope, outcome⟩ := p
  cases outcome <;> rfl

theorem Parse.prepend_prepend (p : Parse) (first second : List Statement) :
    (p.prepend second).prepend first = p.prepend (first ++ second) := by
  obtain ⟨position, scope, outcome⟩ := p
  cases outcome with
  | error problem => rfl
  | ok body => simp [prepend, Except.map]

/-- Admitted tokens are read, and lead to a scope that they tell. -/
theorem exists_readTokens_of_allAdmitted (hfits : s.Fits before) (h : AllAdmitted before tokens) :
    ∃ s', s'.Fits (before ++ tokens) ∧ ∃ body, ∀ position rest,
      readTokens position s (tokens ++ rest) =
        (readTokens (position + tokens.length) s' rest).prepend body := by
  induction tokens generalizing s before with
  | nil =>
    rw [List.append_nil]
    exact ⟨s, hfits, [], fun position rest => (Parse.prepend_nil _).symm⟩
  | cons t tokens ih =>
    obtain ⟨⟨hkind, hadmitted⟩, hlater⟩ := allAdmitted_cons.mp h
    obtain ⟨reading, hread⟩ := (Token.exists_read_iff_admittedAfter hfits).mpr hadmitted
    obtain ⟨s', hfits', body, hreads⟩ := ih (hfits.read hkind hread) hlater
    rw [List.append_assoc, List.singleton_append] at hfits'
    refine ⟨s', hfits', reading.forms.map (⟨t.origin, ·⟩) ++ body, fun position rest => ?_⟩
    rw [List.cons_append, readTokens_of_ok hkind hread, hreads, Parse.prepend_prepend,
      List.length_cons, Nat.add_assoc, Nat.add_comm 1]

/-- Tokens are admitted up to the end, or up to a first one that is not. -/
theorem exists_allAdmitted (before tokens : List Token) : ∃ front back, tokens = front ++ back ∧
    AllAdmitted before front ∧
      ∀ t ∈ back.head?, t.kind = .eof ∨ ¬ t.AdmittedAfter (before ++ front) := by
  induction tokens generalizing before with
  | nil => exact ⟨[], [], rfl, by simp [AllAdmitted], by simp⟩
  | cons t rest ih =>
    by_cases ht : t.kind ≠ .eof ∧ t.AdmittedAfter before
    · obtain ⟨front, back, rfl, hfront, hback⟩ := ih (before ++ [t])
      exact ⟨t :: front, back, rfl, allAdmitted_cons.mpr ⟨ht, hfront⟩, by simpa using hback⟩
    · refine ⟨[], t :: rest, rfl, by simp [AllAdmitted], fun u hu => ?_⟩
      cases hu
      rw [List.append_nil, ← not_and_or.trans (or_congr_left not_not)]
      exact ht

/-- Tokens of which none is the first that is not admitted are read. -/
theorem exists_outcome_of_not_firstOffending (h : ∀ before t, ¬ FirstOffending tokens before t) :
    ∃ body, (Parse.ofTokens tokens).outcome = .ok body := by
  obtain ⟨front, back, rfl, hfront, hback⟩ := exists_allAdmitted [] tokens
  obtain ⟨s', -, body, hreads⟩ := exists_readTokens_of_allAdmitted Scope.fits_nil hfront
  rw [Parse.ofTokens, hreads]
  cases back with
  | nil => exact ⟨_, rfl⟩
  | cons t after =>
    rcases hback t rfl with hkind | hnot
    · rw [readTokens, if_pos hkind]
      exact ⟨_, rfl⟩
    · by_cases hkind : t.kind = .eof
      · rw [readTokens, if_pos hkind]
        exact ⟨_, rfl⟩
      · exact absurd ⟨after, rfl, hfront, hkind, hnot⟩ (h front t)

/-- Reading tokens ends at the first one that is not admitted, in the scope in which it is met. -/
theorem exists_ofTokens_of_firstOffending (h : FirstOffending tokens before t) :
    ∃ (s : Scope) (cause : Cause), s.Fits before ∧ t.read (s.before t.kind) = .error cause ∧
      Parse.ofTokens tokens = ⟨before.length, s.before t.kind, .error ⟨t.origin, cause⟩⟩ := by
  obtain ⟨after, rfl, hbefore, hkind, hnot⟩ := h
  obtain ⟨s, hfits, body, hreads⟩ := exists_readTokens_of_allAdmitted Scope.fits_nil hbefore
  rw [List.nil_append] at hfits
  rw [Parse.ofTokens, hreads]
  cases hread : t.read (s.before t.kind) with
  | ok reading =>
    exact absurd ((Token.exists_read_iff_admittedAfter hfits).mp ⟨reading, hread⟩) hnot
  | error cause =>
    refine ⟨s, cause, hfits, hread, ?_⟩
    rw [readTokens_of_error hkind hread, Nat.zero_add]
    rfl

/-- The package of a scope is the one that the tokens tell. -/
theorem Scope.Fits.current?_eq_some_iff (hfits : s.Fits before) {name : String} :
    s.current? = some name ↔ CurrentPackage before name := by
  rw [← hfits.before_ofPackage .config]
  cases s <;> simp [current?, Scope.before]

/-- A token is met in a list if the tokens end in one and it is a plain line or opens another. -/
theorem Scope.Fits.before_eq_listing_iff (hfits : s.Fits before) {kind : TokenKind}
    (hkind : kind ≠ .eof) : s.before kind = .listing ↔
      InListing before ∧ (kind = .text ∨ kind = .directive .packages) := by
  rw [← hfits.before_text]
  by_cases hstays : kind = .text ∨ kind = .directive .packages
  · rcases hstays with rfl | rfl <;> simp [Scope.before]
  · rw [not_or] at hstays
    simp [Scope.before_ne_listing hstays.1 hstays.2 hkind, hstays]

/-- How a reader tells of the first token that is not admitted. -/
structure Reader.Reports (r : Reader) (before : List Token) (t : Token) : Prop where
  /-- The problem stands where the token does, and its category is what is wrong with the token. -/
  problem : ∃ cause, r.parse.1 = .error ⟨t.origin, cause⟩ ∧ t.Offends before cause.category
  position_eq : r.parse.2.cursor.position = before.length
  package?_iff : ∀ name, r.parse.2.cursor.package? = some name ↔ CurrentPackage before name
  /-- They may end in a list, which is over if the token is a directive other than another list. -/
  inListing_iff : r.parse.2.cursor.inListing = true ↔
    InListing before ∧ (t.kind = .text ∨ t.kind = .directive .packages)

/-- A reader tells of the first token that is not admitted. -/
theorem Reader.reports_of_firstOffending {r : Reader} (h : FirstOffending r.tokens before t) :
    r.Reports before t := by
  obtain ⟨s, cause, hfits, hread, hparse⟩ := exists_ofTokens_of_firstOffending h
  obtain ⟨-, -, -, hkind, -⟩ := h
  obtain ⟨houtcome, hcursor, -⟩ := r.parse_eq
  rw [hparse] at hcursor
  refine ⟨⟨cause, ?_, Token.offends_of_read hfits hread⟩, ?_, fun name => ?_, ?_⟩
  · rw [houtcome, Document.ofTokens, hparse]
    rfl
  · rw [hcursor]
    rfl
  · rw [hcursor, Cursor.ofScope, Scope.current?_before, hfits.current?_eq_some_iff]
  · rw [hcursor, Cursor.ofScope, decide_eq_true_iff, hfits.before_eq_listing_iff hkind]

/-- How a reader of any tokens ends. -/
structure Reader.StopsFaithfully (r : Reader) : Prop where
  gives : r.parse.1 = Document.ofTokens r.tokens
  leaves : r.parse.2.cursor =
    .ofScope (Parse.ofTokens r.tokens).position (Parse.ofTokens r.tokens).scope
  /-- It succeeds unless there is a first token that is not admitted. -/
  succeeds_iff : (∃ document, r.parse.1 = .ok document) ↔
    ∀ before t, ¬ FirstOffending r.tokens before t
  reports : ∀ before t, FirstOffending r.tokens before t → r.Reports before t
  /-- The states that it passes through lead to the one that is left behind. -/
  reached : ∀ document, r.parse.1 = .ok document → Reached r.tokens r.parse.2
  /-- In all of them no package is current inside a list. -/
  exclusive : ∀ passed, Reached r.tokens passed → passed.cursor.inListing = true →
    passed.cursor.package? = none
  exclusive_left : r.parse.2.cursor.inListing = true → r.parse.2.cursor.package? = none
  again : r.parse.2.parse = r.parse

/-- A reader of any tokens stops at the first one that is not admitted, in the state that the tokens
before it tell. -/
theorem Reader.stopsFaithfully (r : Reader) : r.StopsFaithfully := by
  have hok : (∃ document, r.parse.1 = .ok document) ↔
      ∃ body, (Parse.ofTokens r.tokens).outcome = .ok body := by
    rw [r.parse_eq.1, Document.ofTokens]
    cases (Parse.ofTokens r.tokens).outcome <;> simp [Except.map]
  exact {
    gives := r.parse_eq.1
    leaves := r.parse_eq.2.1
    succeeds_iff := by
      rw [hok]
      refine ⟨?_, exists_outcome_of_not_firstOffending⟩
      rintro ⟨body, hbody⟩ before t hfirst
      obtain ⟨s, cause, -, -, hparse⟩ := exists_ofTokens_of_firstOffending hfirst
      rw [hparse] at hbody
      cases hbody
    reports := fun _ _ => reports_of_firstOffending
    reached := fun _ => reached_of_parse
    exclusive := fun _ => Reached.package?_eq_none
    exclusive_left := Cursor.package?_eq_none r.parse_eq.2.1
    again := r.parse_parse }

end HostConfig
