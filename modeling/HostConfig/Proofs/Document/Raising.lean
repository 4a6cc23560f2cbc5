import HostConfig.Proofs.Document.Source

/-!
# Reading with every raise

A document is read once more with each step that raises an error when its argument is not as it
expects: taking the first word of a line, and looking up a token's handler or a directive's name
in a table. No such step fails on what the steps before it leave, so that reading raises the
problems of documents and nothing else.
-/

namespace HostConfig

open HostConfig.Text

/-- What the steps of a load raise: a problem of the configuration, or else that there was no first
word, that a token has no handler or no name, that entries of different packages were merged, that a
statement cannot be carried out, or that groups are nested deeper than was allowed for. -/
inductive Raised
  | typed (p : Problem)
  | noWord
  | noHandler (kind : TokenKind)
  | noName (kind : TokenKind)
  | clash (c : PackageClash)
  | unsupported
  | tooDeep
  deriving DecidableEq, Repr

/-- The problem of a cause at a place, raised. -/
def Raised.ofCause (origin : Origin) (cause : Cause) : Raised := .typed ⟨origin, cause⟩

namespace Raising

/-- The first word of a text and what follows it. -/
def headWord (text : List Char) : Except Raised (List Char × List Char) :=
  match trimStart text with
  | [] => .error .noWord
  | c :: rest => .ok (firstWord (c :: rest), afterWord (c :: rest))

/-- The kind and the payload of a line. -/
def classify (line : List Char) : Except Raised (TokenKind × List Char) := do
  let (word, rest) ← headWord line
  match Directive.ofKeyword? word with
  | some d => .ok (.directive d, trim rest)
  | none => .ok (.text, line)

/-- The token of a line, if the line holds more than blanks and a comment. -/
def token? (file : String) (number : Nat) (raw : List Char) : Except Raised (Option Token) :=
  let line := stripComment raw
  if line.isEmpty then .ok none
  else do
    let (kind, payload) ← classify line
    .ok (some ⟨kind, ⟨file, number, String.ofList raw⟩, String.ofList payload⟩)

/-- The tokens of the lines from a given number on, and the end token. -/
def tokensFrom (file : String) (number : Nat) : List (List Char) → Except Raised (List Token)
  | [] => .ok [⟨.eof, ⟨file, number, ""⟩, ""⟩]
  | raw :: rest => do
    let t ← token? file number raw
    let later ← tokensFrom file (number + 1) rest
    .ok (t.toList ++ later)

/-- The names by which messages call the package directives. -/
def directiveNames : List (TokenKind × PackageDirective) :=
  [(.directive (.ofPackage .config), .config), (.directive (.ofPackage .env), .env),
    (.directive (.ofPackage .service), .service), (.directive (.ofPackage .script), .script),
    (.directive (.ofPackage .setup), .setup)]

/-- The current package, which a token needs. -/
def requirePackage (s : Scope) (t : Token) : Except Raised String :=
  match s with
  | .package name => .ok name
  | _ =>
    match directiveNames.lookup t.kind with
    | none => .error (.noName t.kind)
    | some d => .error (.ofCause t.origin (.noPackage d))

/-- How a token is read in a scope. -/
abbrev Handler := Scope → Token → Except Raised Reading

/-- Read a plain line. -/
def handleText : Handler := fun s t =>
  if t.payload.toList.head?.any isSigil then do
    let (word, _) ← headWord t.payload.toList
    .error (.ofCause t.origin (.unknownDirective (String.ofList word)))
  else if s = .listing then .ok ⟨[.item t.payload], s⟩
  else .error (.ofCause t.origin (.strayText t.payload))

/-- Read a directive that needs no package. -/
def handleDirective (d : Directive) : Handler := fun s t =>
  (readDirective s d t.payload).mapError (.ofCause t.origin)

/-- Read a directive about the current package. -/
def handlePackageDirective (d : PackageDirective) : Handler := fun s t => do
  let package ← requirePackage s t
  let form ← (readPackageDirective package d t.payload).mapError (.ofCause t.origin)
  .ok ⟨[form], s⟩

/-- The handlers of the kinds of tokens. -/
def handlers : List (TokenKind × Handler) :=
  [(.directive .packages, handleDirective .packages), (.text, handleText),
    (.directive .package, handleDirective .package), (.directive .group, handleDirective .group),
    (.directive .env, handleDirective .env), (.directive .script, handleDirective .script),
    (.directive (.ofPackage .config), handlePackageDirective .config),
    (.directive (.ofPackage .env), handlePackageDirective .env),
    (.directive (.ofPackage .service), handlePackageDirective .service),
    (.directive (.ofPackage .script), handlePackageDirective .script),
    (.directive (.ofPackage .setup), handlePackageDirective .setup)]

/-- Read a token by its handler. -/
def read (s : Scope) (t : Token) : Except Raised Reading :=
  match handlers.lookup t.kind with
  | none => .error (.noHandler t.kind)
  | some handler => handler s t

/-- The statements of tokens, up to the end token. -/
def readTokens (scope : Scope) : List Token → Except Raised (List Statement)
  | [] => .ok []
  | t :: rest =>
    if t.kind = .eof then .ok []
    else do
      let reading ← read (scope.before t.kind) t
      let later ← readTokens reading.scope rest
      .ok (reading.forms.map (fun form => ⟨t.origin, form⟩) ++ later)

/-- The document of a file. -/
def document (site : Site) (p : Path) : Except Raised Document :=
  match site.tree.read p with
  | .error reason => .error (.typed (.ofFile p.toString (.unreadable p.toString reason)))
  | .ok text => do
    let tokens ← tokensFrom p.toString 1 (lines text)
    let body ← readTokens .top tokens
    .ok ⟨fileOfTokens tokens, body⟩

variable {c : Char} {rest raw : List Char} {s : Scope} {t : Token}

/-- A text that begins with ink has a first word. -/
theorem headWord_of_isInk (h : isInk c = true) :
    headWord (c :: rest) = .ok (firstWord (c :: rest), afterWord (c :: rest)) := by
  have hstart : trimStart (c :: rest) = c :: rest :=
    List.dropWhile_cons_of_neg (by simpa [isInk] using h)
  rw [headWord, hstart]

/-- Blanks have none. -/
example : headWord [' ', '\t'] = .error .noWord := by decide

/-- What is left of a line without its comment and its blanks begins with ink. -/
theorem isInk_of_stripComment (h : stripComment raw = c :: rest) : isInk c = true := by
  obtain ⟨blanks, hstart⟩ := trimEnd_isPrefix (trimStart (beforeComment .start raw))
  rw [← trim, ← stripComment, h, List.cons_append] at hstart
  have hhead := List.head?_dropWhile_not isBlank (beforeComment .start raw)
  rw [← trimStart, ← hstart, List.head?_cons] at hhead
  simpa [isInk] using hhead

/-- A sigil is ink. -/
theorem isInk_of_isSigil (h : isSigil c = true) : isInk c = true := by
  simp only [isSigil, Bool.or_eq_true, beq_iff_eq] at h
  obtain (rfl | rfl) | rfl := h <;> decide

/-- A line that begins with ink is classified. -/
theorem classify_of_isInk (h : isInk c = true) :
    classify (c :: rest) = .ok (HostConfig.classify (c :: rest)) := by
  rw [classify, headWord_of_isInk h, HostConfig.classify]
  cases hd : Directive.ofKeyword? (firstWord (c :: rest)) <;> simp [hd, bind, Except.bind]

/-- Every line has a token or none. -/
theorem token?_eq (file : String) (number : Nat) (raw : List Char) :
    token? file number raw = .ok (Token.ofLine? file number raw) := by
  rw [token?, Token.ofLine?]
  cases hline : stripComment raw with
  | nil => rfl
  | cons c rest =>
    rw [classify_of_isInk (isInk_of_stripComment hline)]
    rfl

/-- Every text has tokens. -/
theorem tokensFrom_eq (file : String) (number : Nat) (ls : List (List Char)) :
    tokensFrom file number ls = .ok (HostConfig.tokensFrom file number ls) := by
  induction ls generalizing number with
  | nil => rfl
  | cons raw rest ih =>
    rw [tokensFrom, token?_eq, ih]
    rfl

/-- Every directive about a package has a name, by which the missing package is reported. -/
theorem requirePackage_eq {d : PackageDirective} (hkind : t.kind = .directive (.ofPackage d)) :
    requirePackage s t =
      match s with
      | .package name => .ok name
      | _ => .error (.ofCause t.origin (.noPackage d)) := by
  have hname : directiveNames.lookup t.kind = some d := by
    rw [hkind]
    cases d <;> rfl
  cases s with
  | package name => rfl
  | top | listing => simp only [requirePackage, hname]

/-- A plain line is read, or has a problem. -/
theorem handleText_eq (s : Scope) (t : Token) :
    handleText s t = (readText s t.payload).mapError (.ofCause t.origin) := by
  rw [handleText, readText]
  cases htext : t.payload.toList with
  | nil => by_cases hs : s = .listing <;> simp [hs, Except.mapError]
  | cons c rest =>
    by_cases hc : isSigil c = true
    · simp [hc, headWord_of_isInk (isInk_of_isSigil hc), bind, Except.bind, Except.mapError]
    · by_cases hs : s = .listing <;> simp [hc, hs, Except.mapError]

/-- A directive about a package is read, or has a problem. -/
theorem handlePackageDirective_eq {d : PackageDirective}
    (hkind : t.kind = .directive (.ofPackage d)) :
    handlePackageDirective d s t =
      (readDirective s (.ofPackage d) t.payload).mapError (.ofCause t.origin) := by
  rw [handlePackageDirective, requirePackage_eq hkind]
  cases s with
  | top | listing => rfl
  | package name =>
    simp only [readDirective, bind, Except.bind]
    cases readPackageDirective name d t.payload <;> rfl

/-- Every token but the end token has a handler, which reads it or finds a problem with it. -/
theorem read_eq (hkind : t.kind ≠ .eof) :
    read s t = (t.read s).mapError (.ofCause t.origin) := by
  obtain ⟨kind, origin, payload⟩ := t
  cases kind with
  | eof => exact absurd rfl hkind
  | text => exact handleText_eq s _
  | directive d =>
    cases d with
    | packages | package | group | env | script => rfl
    | ofPackage d =>
      have hread := handlePackageDirective_eq (s := s)
        (t := ⟨.directive (.ofPackage d), origin, payload⟩) rfl
      -- Each directive has a row of its own in the table.
      cases d <;> exact hread

/-- The end token has no handler. -/
example (s : Scope) (o : Origin) : read s ⟨.eof, o, ""⟩ = .error (.noHandler .eof) := rfl

/-- Tokens are read, or the first of them that is not acceptable has a problem. -/
theorem readTokens_eq (position : Nat) (scope : Scope) (tokens : List Token) :
    readTokens scope tokens =
      (HostConfig.readTokens position scope tokens).outcome.mapError .typed := by
  induction tokens generalizing position scope with
  | nil => rfl
  | cons t rest ih =>
    rw [readTokens, HostConfig.readTokens]
    by_cases hkind : t.kind = .eof
    · rw [if_pos hkind, if_pos hkind]
      rfl
    · simp only [if_neg hkind, read_eq hkind]
      cases t.read (scope.before t.kind) with
      | error cause => rfl
      | ok reading =>
        simp only [Except.mapError, ih (position + 1), Parse.prepend, bind, Except.bind]
        cases (HostConfig.readTokens (position + 1) reading.scope rest).outcome <;> rfl

/-- The document of a file is read, or the file has a problem. -/
theorem document_eq (site : Site) (p : Path) :
    document site p = (site.document p).mapError .typed := by
  rw [document, Site.document]
  cases site.tree.read p with
  | error reason => rfl
  | ok text =>
    simp only [tokensFrom_eq, readTokens_eq 0, Document.ofText, Document.ofTokens, Parse.ofTokens,
      tokenize, bind, Except.bind]
    cases (HostConfig.readTokens 0 .top
      (HostConfig.tokensFrom p.toString 1 (lines text))).outcome <;> rfl

end Raising

end HostConfig
