import HostConfig.Proofs.Document.Cosmetic

/-!
# Documents without places

What a document is without the numbers and the raw texts of its lines. This much of it, or of the
problem with it, follows from what the lines of its file say.
-/

namespace HostConfig

open HostConfig.Text

/-- A place without its line. -/
def Origin.unplaced (o : Origin) : Origin := ⟨o.file, 0, ""⟩

/-- A statement without its line. -/
def Statement.unplaced (s : Statement) : Statement := ⟨s.origin.unplaced, s.form⟩

/-- A document without the lines of its statements. -/
def Document.unplaced (d : Document) : Document := ⟨d.file, d.body.map Statement.unplaced⟩

/-- A problem without its line. -/
def Problem.unplaced (p : Problem) : Problem := ⟨p.origin.unplaced, p.cause⟩

/-- A failure without its line. -/
def Failure.unplaced : Failure → Failure
  | .problem p => .problem p.unplaced
  | failure => failure

/-- The statements of a file, or its problem, from what its lines say. -/
def statementsOf (file : String) (said : Except Cause Reading) :
    Except Problem (List Statement) :=
  match said with
  | .error cause => .error (.ofFile file cause)
  | .ok reading => .ok (reading.forms.map fun form => ⟨⟨file, 0, ""⟩, form⟩)

theorem statementsOf_followedBy (file : String) (first : Reading) (said : Except Cause Reading) :
    statementsOf file (said.map first.followedBy) =
      (statementsOf file said).map (first.forms.map (fun form => ⟨⟨file, 0, ""⟩, form⟩) ++ ·) := by
  cases said with
  | error cause => rfl
  | ok later => simp [statementsOf, Except.map, Reading.followedBy]

/-- Drop the places of a document, or of the problem with it. -/
def unplacedDocument (outcome : Except Problem Document) : Except Problem Document :=
  (outcome.map Document.unplaced).mapError Problem.unplaced

/-- A reading without its places follows from what the lines say. -/
theorem unplaced_outcome (position : Nat) (scope : Scope) (file : String) (number : Nat)
    (ls : List (List Char)) :
    ((readTokens position scope (tokensFrom file number ls)).outcome.map
        (List.map Statement.unplaced)).mapError Problem.unplaced =
      statementsOf file (readLines scope ls) := by
  induction ls generalizing position scope number with
  | nil => rfl
  | cons raw rest ih =>
    cases hline : Token.ofLine? file number raw with
    | none =>
      have hstrip := (Token.ofLine?_eq_none_iff file number raw).mp hline
      rw [tokensFrom, hline, readLines_cons_of_strip_eq_nil hstrip]
      exact ih position scope (number + 1)
    | some t =>
      have hplace : t.origin.unplaced = ⟨file, 0, ""⟩ := by
        rw [Origin.unplaced, Token.origin_of_ofLine? hline]
      rw [tokensFrom, hline, readLines, readLine_of_ofLine?_eq_some hline]
      simp only [Option.toList_some, List.cons_append, List.nil_append, readTokens,
        Token.kind_of_ofLine? hline, if_false]
      cases t.read (scope.before t.kind) with
      | error cause =>
        have hproblem : Problem.unplaced ⟨t.origin, cause⟩ = .ofFile file cause := by
          rw [Problem.unplaced, hplace, Problem.ofFile]
        exact congrArg Except.error hproblem
      | ok reading =>
        simp only [statementsOf_followedBy, Parse.prepend,
          ← ih (position + 1) reading.scope (number + 1)]
        cases (readTokens (position + 1) reading.scope
            (tokensFrom file (number + 1) rest)).outcome with
        | error p => rfl
        | ok later => simp [Except.map, Except.mapError, Statement.unplaced, hplace]

/-- A document without its places follows from what its file says. -/
theorem Site.unplacedDocument_eq (site : Site) (path : Path) :
    unplacedDocument (site.document path) =
      match site.tree.said path with
      | .error reason => .error (.ofFile path.toString (.unreadable path.toString reason))
      | .ok said =>
        (statementsOf path.toString (said .top)).map fun body => ⟨path.toString, body⟩ := by
  rw [Site.document, FileTree.said]
  cases site.tree.read path with
  | error reason => rfl
  | ok text =>
    have houtcome := unplaced_outcome 0 .top path.toString 1 (lines text)
    change unplacedDocument (Document.ofText path.toString text) =
      (statementsOf path.toString (readLines .top (lines text))).map _
    rw [← houtcome, Document.ofText, Document.ofTokens, fileOfTokens_tokenize, Parse.ofTokens,
      tokenize]
    cases (readTokens 0 .top (tokensFrom path.toString 1 (lines text))).outcome <;> rfl

end HostConfig
