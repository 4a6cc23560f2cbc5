import HostConfig.Proofs.Document.Context
import HostConfig.Proofs.Document.Introduction

/-!
# A reader with its state

A reader holds tokens and a state of separate parts: how many tokens are read, whether they are in a
list of packages, and which package is current. A token that is met ends a list before it is carried
out, and the rest changes only when it is carried out. When tokens are read again, the state starts
anew. What a reader gives is the document of its tokens, and its state is the position and the scope
that the reading of the document came to.
-/

namespace HostConfig

/-- The state of a reader. -/
structure Cursor where
  position : Nat := 0
  inListing : Bool := false
  package? : Option String := none
  deriving DecidableEq, Repr

/-- A reader of tokens. -/
structure Reader where
  tokens : List Token
  cursor : Cursor := {}
  body : List Statement := []

/-- Meet a token: any directive but another list ends a list. -/
def Cursor.enter (c : Cursor) (kind : TokenKind) : Cursor :=
  if kind = .text ∨ kind = .directive .packages then c else { c with inListing := false }

/-- Carry out a token that was met, and tell its statements. -/
def Cursor.carryOut (c : Cursor) (t : Token) : Except Cause (List Form × Cursor) :=
  match t.kind with
  | .directive .packages =>
    if t.payload.isEmpty then .ok ([.listing], { c with inListing := true, package? := none })
    else .error .listWithPayload
  | .directive .package =>
    let names := packageNames t.payload.toList
    match names.getLast? with
    | none => .error .noPackageName
    | some last => .ok (names.map .package, { c with package? := some last })
  | .directive (.ofPackage d) =>
    match c.package? with
    | none => .error (.noPackage d)
    | some name => (readPackageDirective name d t.payload).map fun form => ([form], c)
  | .directive d => (readDirective .top d t.payload).map fun reading => (reading.forms, c)
  | .text =>
    (readText (if c.inListing then .listing else .top) t.payload).map fun reading =>
      (reading.forms, c)
  | .eof => .ok ([], c)

namespace Reader

/-- Read a token: its statements are added and it is counted, or it is told as the problem. -/
def step (r : Reader) (t : Token) : Option Problem × Reader :=
  let entered := r.cursor.enter t.kind
  match entered.carryOut t with
  | .error cause => (some ⟨t.origin, cause⟩, { r with cursor := entered })
  | .ok (forms, after) =>
    (none, { r with
      cursor := { after with position := after.position + 1 }
      body := r.body ++ forms.map fun form => ⟨t.origin, form⟩ })

/-- Read the tokens that are left, up to the end token or a problem. -/
def run (r : Reader) : List Token → Option Problem × Reader
  | [] => (none, r)
  | t :: rest =>
    if t.kind = .eof then (none, r)
    else
      match r.step t with
      | (some problem, after) => (some problem, after)
      | (none, after) => after.run rest

/-- Read all tokens from the start, whatever the state is. -/
def parse (r : Reader) : Except Problem Document × Reader :=
  match ({ tokens := r.tokens } : Reader).run r.tokens with
  | (some problem, after) => (.error problem, after)
  | (none, after) => (.ok ⟨fileOfTokens r.tokens, after.body⟩, after)

/-- The states that a reader of tokens passes through, each with some of the tokens carried out. -/
inductive Reached (tokens : List Token) : Reader → Prop
  | start : Reached tokens { tokens }
  | step {r after : Reader} {t : Token} (hr : Reached tokens r)
    (htoken : tokens[r.cursor.position]? = some t) (hkind : t.kind ≠ .eof)
    (hstep : r.step t = (none, after)) : Reached tokens after

end Reader

/-- The state of a reader at a position and in a scope. -/
def Cursor.ofScope (position : Nat) (s : Scope) : Cursor :=
  ⟨position, decide (s = .listing), s.current?⟩

variable {position : Nat} {s : Scope} {t : Token} {kind : TokenKind} {c : Cursor} {r : Reader}
  {reading : Reading} {cause : Cause}

/-- In the state of a scope no package is current inside a list. -/
theorem Cursor.package?_eq_none (hcursor : c = ofScope position s) (h : c.inListing = true) :
    c.package? = none := by
  subst hcursor
  have hs : s = .listing := of_decide_eq_true h
  rw [hs]
  rfl

/-- Meeting a token changes a state as it changes the scope. -/
theorem Cursor.enter_ofScope (hkind : kind ≠ .eof) :
    (ofScope position s).enter kind = ofScope position (s.before kind) := by
  rcases kind with (_ | _ | _ | _ | _ | _) | _ | _ <;> cases s <;> first | rfl | contradiction

/-- A list is over when a directive other than another list was met. -/
theorem Scope.before_ne_listing (htext : kind ≠ .text) (hpackages : kind ≠ .directive .packages)
    (heof : kind ≠ .eof) : s.before kind ≠ .listing := by
  cases s with
  | listing => simp [before_listing hpackages heof, htext]
  | top | package => simp [before_of_ne_listing]

/-- Carrying out a token changes a state as reading it changes the scope. -/
theorem Cursor.carryOut_ofScope (hkind : t.kind ≠ .eof) :
    (ofScope position (s.before t.kind)).carryOut t =
      (t.read (s.before t.kind)).map fun reading =>
        (reading.forms, ofScope position reading.scope) := by
  obtain ⟨kind, origin, payload⟩ := t
  cases kind with
  | directive d =>
    cases d with
    | packages =>
      simp only [carryOut, Token.read, readDirective]
      by_cases hempty : payload.isEmpty = true
      · simp [hempty, Except.map, ofScope, Scope.current?]
      · simp [hempty, Except.map]
    | package =>
      have hlisting : s.before (.directive .package) ≠ .listing :=
        Scope.before_ne_listing (by simp) (by simp) (by simp)
      simp only [carryOut, Token.read, readDirective, readPackage]
      cases (packageNames payload.toList).getLast? with
      | none => rfl
      | some last => simp [Except.map, ofScope, hlisting, Scope.current?]
    | ofPackage d =>
      simp only [carryOut, Token.read]
      generalize s.before (.directive (.ofPackage d)) = met
      cases met with
      | top | listing => rfl
      | package name =>
        simp only [ofScope, Scope.current?, readDirective]
        cases readPackageDirective name d payload <;> rfl
    | group | env | script =>
      simp only [carryOut, Token.read, readDirective, readGroup]
      repeat' split
      all_goals rfl
  | text =>
    simp only [carryOut, Token.read, ofScope, decide_eq_true_eq]
    generalize s.before .text = met
    unfold readText
    cases met <;> repeat' split
    all_goals first | rfl | simp_all
  | eof => exact absurd rfl hkind

/-- Reading tokens ends with the first one that is not read. -/
theorem readTokens_of_error (hkind : t.kind ≠ .eof) (h : t.read (s.before t.kind) = .error cause)
    (rest : List Token) : readTokens position s (t :: rest) =
      ⟨position, s.before t.kind, .error ⟨t.origin, cause⟩⟩ := by
  simp [readTokens, hkind, h]

/-- Behind a token that is read, reading goes on. -/
theorem readTokens_of_ok (hkind : t.kind ≠ .eof) (h : t.read (s.before t.kind) = .ok reading)
    (rest : List Token) : readTokens position s (t :: rest) =
      (readTokens (position + 1) reading.scope rest).prepend
        (reading.forms.map fun form => ⟨t.origin, form⟩) := by
  simp [readTokens, hkind, h]

namespace Reader

/-- A token that is not read is the problem, and the state is that in which it was met. -/
theorem step_of_error (hcursor : r.cursor = .ofScope position s) (hkind : t.kind ≠ .eof)
    (h : t.read (s.before t.kind) = .error cause) :
    r.step t = (some ⟨t.origin, cause⟩,
      { r with cursor := .ofScope position (s.before t.kind) }) := by
  simp only [step, hcursor, Cursor.enter_ofScope hkind, Cursor.carryOut_ofScope hkind, h]
  rfl

/-- A token that is read is counted, and the state is that behind it. -/
theorem step_of_ok (hcursor : r.cursor = .ofScope position s) (hkind : t.kind ≠ .eof)
    (h : t.read (s.before t.kind) = .ok reading) :
    r.step t = (none, { r with
      cursor := .ofScope (position + 1) reading.scope
      body := r.body ++ reading.forms.map fun form => ⟨t.origin, form⟩ }) := by
  simp only [step, hcursor, Cursor.enter_ofScope hkind, Cursor.carryOut_ofScope hkind, h]
  rfl

/-- What a reader of tokens in some state is after reading them: it tells the problem, or it has the
statements, and its state is the position and the scope that reading them leads to. -/
structure Agrees (r : Reader) (p : Parse) (result : Option Problem × Reader) : Prop where
  tokens_eq : result.2.tokens = r.tokens
  cursor_eq : result.2.cursor = .ofScope p.position p.scope
  of_error : ∀ problem, p.outcome = .error problem → result.1 = some problem
  of_ok : ∀ body, p.outcome = .ok body → result.1 = none ∧ result.2.body = r.body ++ body

/-- Statements that were there before stand before those of the reading. -/
theorem Agrees.prepend {c : Cursor} {added : List Statement} {p : Parse}
    {result : Option Problem × Reader}
    (h : Agrees { r with cursor := c, body := r.body ++ added } p result) :
    r.Agrees (p.prepend added) result where
  tokens_eq := h.tokens_eq
  cursor_eq := h.cursor_eq
  of_error problem hproblem := by
    cases houtcome : p.outcome with
    | error other =>
      rw [Parse.prepend, houtcome] at hproblem
      cases hproblem
      exact h.of_error problem houtcome
    | ok body =>
      rw [Parse.prepend, houtcome] at hproblem
      cases hproblem
  of_ok body hbody := by
    cases houtcome : p.outcome with
    | error other =>
      rw [Parse.prepend, houtcome] at hbody
      cases hbody
    | ok later =>
      rw [Parse.prepend, houtcome] at hbody
      cases hbody
      obtain ⟨hnone, hlater⟩ := h.of_ok later houtcome
      exact ⟨hnone, hlater.trans (List.append_assoc _ _ _)⟩

/-- Reading tokens in a state is reading them in its scope. -/
theorem agrees_run (hcursor : r.cursor = .ofScope position s) (rest : List Token) :
    r.Agrees (readTokens position s rest) (r.run rest) := by
  induction rest generalizing r position s with
  | nil =>
    refine ⟨rfl, hcursor, by simp [readTokens], fun body hbody => ?_⟩
    cases hbody
    exact ⟨rfl, (List.append_nil _).symm⟩
  | cons t rest ih =>
    rw [run]
    by_cases hkind : t.kind = .eof
    · rw [if_pos hkind, readTokens, if_pos hkind]
      refine ⟨rfl, hcursor, by simp, fun body hbody => ?_⟩
      cases hbody
      exact ⟨rfl, (List.append_nil _).symm⟩
    · rw [if_neg hkind]
      cases hread : t.read (s.before t.kind) with
      | error cause =>
        rw [step_of_error hcursor hkind hread, readTokens_of_error hkind hread]
        refine ⟨rfl, rfl, fun problem hproblem => ?_, by simp⟩
        cases hproblem
        rfl
      | ok reading =>
        rw [step_of_ok hcursor hkind hread, readTokens_of_ok hkind hread]
        exact (ih rfl).prepend

/-- A reader gives the document that its tokens form, and its state is where reading them came
to. -/
theorem parse_eq (r : Reader) : r.parse.1 = Document.ofTokens r.tokens ∧
    r.parse.2.cursor =
      .ofScope (Parse.ofTokens r.tokens).position (Parse.ofTokens r.tokens).scope ∧
    r.parse.2.tokens = r.tokens := by
  have hstart : ({ tokens := r.tokens } : Reader).cursor = .ofScope 0 .top := rfl
  have hagrees := agrees_run hstart r.tokens
  rw [parse, Document.ofTokens, Parse.ofTokens]
  rcases hrun : ({ tokens := r.tokens } : Reader).run r.tokens with ⟨result, after⟩
  rw [hrun] at hagrees
  obtain ⟨htokens, hcursor, herror, hok⟩ := hagrees
  cases houtcome : (readTokens 0 .top r.tokens).outcome with
  | error problem =>
    cases herror problem houtcome
    exact ⟨rfl, hcursor, htokens⟩
  | ok body =>
    obtain ⟨hnone, hbody⟩ := hok body houtcome
    cases hnone
    rw [List.nil_append] at hbody
    refine ⟨?_, hcursor, htokens⟩
    dsimp only
    rw [hbody]
    rfl

/-- Reading again gives the same document or problem, and the same state. -/
theorem parse_parse (r : Reader) : r.parse.2.parse = r.parse := by
  rw [parse, (parse_eq r).2.2, ← parse]

/-- A state that a reader passes through is a scope which the tokens carried out tell. -/
theorem Reached.exists_fits {tokens : List Token} (h : Reached tokens r) :
    ∃ s, r.cursor = .ofScope r.cursor.position s ∧ s.Fits (tokens.take r.cursor.position) := by
  induction h with
  | start => exact ⟨.top, rfl, Scope.fits_nil⟩
  | @step r after t hr htoken hkind hstep ih =>
    obtain ⟨s, hcursor, hfits⟩ := ih
    cases hread : t.read (s.before t.kind) with
    | error cause =>
      rw [step_of_error hcursor hkind hread] at hstep
      cases hstep
    | ok reading =>
      rw [step_of_ok hcursor hkind hread] at hstep
      cases hstep
      refine ⟨reading.scope, rfl, ?_⟩
      have htake : tokens.take (r.cursor.position + 1) = tokens.take r.cursor.position ++ [t] := by
        rw [List.take_add_one, htoken, Option.toList_some]
      have hposition : (Cursor.ofScope (r.cursor.position + 1) reading.scope).position =
          r.cursor.position + 1 := rfl
      rw [hposition, htake]
      exact hfits.read hkind hread

/-- In a state that a reader passes through no package is current inside a list. -/
theorem Reached.package?_eq_none {tokens : List Token} (h : Reached tokens r)
    (hlisting : r.cursor.inListing = true) : r.cursor.package? = none := by
  obtain ⟨s, hcursor, -⟩ := h.exists_fits
  exact Cursor.package?_eq_none hcursor hlisting

/-- Reading without a problem goes through states of the reader to the last one. -/
theorem Reached.run {tokens : List Token} (h : Reached tokens r) {rest : List Token}
    (hrest : tokens.drop r.cursor.position = rest) (hnone : (r.run rest).1 = none) :
    Reached tokens (r.run rest).2 := by
  induction rest generalizing r with
  | nil => exact h
  | cons t rest ih =>
    rw [Reader.run] at hnone ⊢
    by_cases hkind : t.kind = .eof
    · rw [if_pos hkind]
      exact h
    · rw [if_neg hkind] at hnone ⊢
      have htoken : tokens[r.cursor.position]? = some t := by
        rw [← List.head?_drop, hrest, List.head?_cons]
      obtain ⟨s, hcursor, -⟩ := h.exists_fits
      cases hread : t.read (s.before t.kind) with
      | error cause =>
        rw [step_of_error hcursor hkind hread] at hnone
        cases hnone
      | ok reading =>
        have hstep := step_of_ok hcursor hkind hread
        rw [hstep] at hnone ⊢
        refine ih (h.step htoken hkind hstep) ?_ hnone
        change tokens.drop (r.cursor.position + 1) = rest
        rw [← List.drop_drop, hrest, List.drop_one, List.tail_cons]

/-- A reader that succeeds passes through states to the one that it leaves behind. -/
theorem reached_of_parse {document : Document} (h : r.parse.1 = .ok document) :
    Reached r.tokens r.parse.2 := by
  have hstart : Reached r.tokens { tokens := r.tokens } := .start
  have hrun := hstart.run List.drop_zero
  unfold parse at h ⊢
  split at h
  · cases h
  · next after hafter =>
    rw [hafter] at hrun
    exact hrun rfl

end Reader

end HostConfig
