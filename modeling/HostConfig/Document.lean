import HostConfig.Layout
import HostConfig.Payload
import HostConfig.Problem
import HostConfig.Token

/-!
# Reading documents

What the lines of a document say, one statement after the other, each with its place. A statement
about a package carries the package's name, so that its meaning does not depend on the statements
before it.

Tokens are read one after the other. What a token may say depends on the scope that the tokens
before it leave: a list of packages, a current package, or neither. The first token that is not
acceptable ends the reading, and the position and scope that it was met in remain visible.
-/

namespace HostConfig

open HostConfig.Text HostConfig.Payload

/-- What a statement says. A setup script may be in the deprecated spelling. No document holds a
blank statement, and none can be resolved. -/
inductive Form
  | listing
  | item (name : String)
  | package (name : String)
  | group (name : String)
  | env (key value : String)
  | script (text : String)
  | packageConfig (package source destination : String)
  | packageEnv (package key value : String)
  | packageService (package name : String) (props : Properties)
  | packageScript (package text : String) (legacy : Bool)
  | blank
  deriving DecidableEq, Repr

/-- A statement and its place. -/
structure Statement where
  origin : Origin
  form : Form
  deriving DecidableEq, Repr

/-- The statements of a file. -/
structure Document where
  file : String
  body : List Statement
  deriving DecidableEq, Repr

/-- The scope that the tokens read so far leave: neither a list nor a current package, a list of
packages, or a current package. -/
inductive Scope
  | top
  | listing
  | package (name : String)
  deriving DecidableEq, Repr

/-- The scope in which a token is read: any directive but another list ends a list. -/
def Scope.before (s : Scope) : TokenKind → Scope
  | .directive .packages | .text | .eof => s
  | .directive _ =>
    match s with
    | .listing => .top
    | s => s

/-- The statements of a token and the scope after it. -/
structure Reading where
  forms : List Form
  scope : Scope
  deriving DecidableEq, Repr

/-- The names in the payload of a package declaration. -/
def packageNames (payload : List Char) : List String :=
  (((pieces ',' payload).map trim).filter fun name => !name.isEmpty).map String.ofList

/-- Read a plain line. -/
def readText (s : Scope) (text : String) : Except Cause Reading :=
  match text.toList with
  | [] => if s = .listing then .ok ⟨[.item text], s⟩ else .error (.strayText text)
  | c :: rest =>
    if isSigil c then .error (.unknownDirective (String.ofList (firstWord (c :: rest))))
    else if s = .listing then .ok ⟨[.item text], s⟩
    else .error (.strayText text)

/-- Read a package declaration; its last package becomes current. -/
def readPackage (payload : String) : Except Cause Reading :=
  let names := packageNames payload.toList
  match names.getLast? with
  | none => .error .noPackageName
  | some last => .ok ⟨names.map .package, .package last⟩

/-- Read the inclusion of a group. -/
def readGroup (s : Scope) (payload : String) : Except Cause Reading :=
  if payload.isEmpty then .error .noGroupName
  else if isGroupName payload then .ok ⟨[.group payload], s⟩
  else .error (.badGroupName payload)

/-- Read a service of a package. -/
def readService (package payload : String) : Except Cause Form :=
  if payload.isEmpty then .error .emptyService
  else
    match serviceHead? payload.toList with
    | none => .error .badService
    | some (name, content) =>
      match properties (content.getD []) with
      | .error part => .error (.badProperty (String.ofList part))
      | .ok props => .ok (.packageService package (String.ofList name) props)

/-- Read a directive about a package. -/
def readPackageDirective (package : String) (d : PackageDirective) (payload : String) :
    Except Cause Form :=
  match d with
  | .config =>
    match mapping? payload.toList with
    | none => .error .badMapping
    | some (source, target) =>
      .ok (.packageConfig package (String.ofList source) (String.ofList target))
  | .env =>
    match assignment? payload.toList with
    | none => .error .badPackageEnv
    | some (key, value) => .ok (.packageEnv package (String.ofList key) (String.ofList value))
  | .service => readService package payload
  | .script =>
    if payload.isEmpty then .error .emptyScript else .ok (.packageScript package payload false)
  | .setup =>
    if payload.isEmpty then .error .emptySetup else .ok (.packageScript package payload true)

/-- Read a directive in the scope that it stands in. -/
def readDirective (s : Scope) (d : Directive) (payload : String) : Except Cause Reading :=
  match d with
  | .packages =>
    if payload.isEmpty then .ok ⟨[.listing], .listing⟩ else .error .listWithPayload
  | .package => readPackage payload
  | .group => readGroup s payload
  | .env =>
    match assignment? payload.toList with
    | none => .error .badEnv
    | some (key, value) => .ok ⟨[.env (String.ofList key) (String.ofList value)], s⟩
  | .script => if payload.isEmpty then .error .emptyScript else .ok ⟨[.script payload], s⟩
  | .ofPackage d =>
    match s with
    | .package name =>
      match readPackageDirective name d payload with
      | .error cause => .error cause
      | .ok form => .ok ⟨[form], s⟩
    | _ => .error (.noPackage d)

/-- Read a token in the scope that it stands in; the end says nothing. -/
def Token.read (s : Scope) (t : Token) : Except Cause Reading :=
  match t.kind with
  | .directive d => readDirective s d t.payload
  | .text => readText s t.payload
  | .eof => .ok ⟨[], s⟩

/-- How far a reading came and what it gave: the statements, or the problem with the token at that
position. -/
structure Parse where
  position : Nat
  scope : Scope
  outcome : Except Problem (List Statement)

/-- Put statements before those of a reading. -/
def Parse.prepend (added : List Statement) (p : Parse) : Parse :=
  { p with outcome := p.outcome.map (added ++ ·) }

/-- Read tokens from a position and a scope on, up to the end token. -/
def readTokens (position : Nat) (scope : Scope) : List Token → Parse
  | [] => ⟨position, scope, .ok []⟩
  | t :: rest =>
    if t.kind = .eof then ⟨position, scope, .ok []⟩
    else
      let entered := scope.before t.kind
      match t.read entered with
      | .error cause => ⟨position, entered, .error ⟨t.origin, cause⟩⟩
      | .ok reading =>
        (readTokens (position + 1) reading.scope rest).prepend
          (reading.forms.map fun form => ⟨t.origin, form⟩)

/-- Read all tokens of a file. -/
def Parse.ofTokens (tokens : List Token) : Parse := readTokens 0 .top tokens

/-- The file that tokens come from, as far as they tell. -/
def fileOfTokens (tokens : List Token) : String :=
  match tokens with
  | [] => "<unknown>"
  | t :: _ => t.origin.file

/-- The document that tokens form. -/
def Document.ofTokens (tokens : List Token) : Except Problem Document :=
  (Parse.ofTokens tokens).outcome.map fun body => ⟨fileOfTokens tokens, body⟩

/-- The document that a text forms. -/
def Document.ofText (file : String) (text : List Char) : Except Problem Document :=
  Document.ofTokens (tokenize file text)

end HostConfig
