import HostConfig.Proofs.Document.Language
import HostConfig.Proofs.Payload.Writing

/-!
# Clauses

A document is written as a list of clauses. Each stands on a line of its own, except that a list of
packages has one more line for each item. What a clause about a package says depends on the package
that the clauses before it leave current.
-/

namespace HostConfig

open HostConfig.Text HostConfig.Payload

/-- A clause about the package declared last. -/
inductive PackageClause
  | config (source destination : String)
  | env (key value : String)
  | service (name : String) (props : List (String × String))
  | script (text : String) (legacy : Bool)
  deriving DecidableEq, Repr

/-- A clause of a document. -/
inductive Clause
  | packages (items : List String)
  | package (names : List String)
  | group (name : String)
  | env (key value : String)
  | script (text : String)
  | ofPackage (c : PackageClause)
  deriving DecidableEq, Repr

/-- A directive with a payload on one line. -/
def directiveLine (d : Directive) (payload : List Char) : List Char :=
  d.keyword.toList ++ ' ' :: payload

namespace PackageClause

/-- The directive of a clause. -/
def directive : PackageClause → PackageDirective
  | .config _ _ => .config
  | .env _ _ => .env
  | .service _ _ => .service
  | .script _ false => .script
  | .script _ true => .setup

/-- Properties as they are written between brackets. -/
def propsText (props : List (String × String)) : List Char :=
  commaList (props.map fun p => p.1.toList ++ '=' :: p.2.toList)

/-- The properties of a service in brackets, if there are any. -/
def bracketedProps (props : List (String × String)) : List Char :=
  if props = [] then [] else ' ' :: '[' :: (propsText props ++ [']'])

/-- The properties that are set one after the other. -/
def propsOf (props : List (String × String)) : Properties :=
  Properties.setAll [] (props.map fun p => (p.1.toList, p.2.toList))

/-- What is written behind the keyword. -/
def payload : PackageClause → List Char
  | .config source destination => spacedPair ['-', '>'] source.toList destination.toList
  | .env key value => spacedPair ['='] key.toList value.toList
  | .service name props => name.toList ++ bracketedProps props
  | .script text _ => text.toList

/-- What a clause says about a package. -/
def form (package : String) : PackageClause → Form
  | .config source destination => .packageConfig package source destination
  | .env key value => .packageEnv package key value
  | .service name props => .packageService package name (propsOf props)
  | .script text legacy => .packageScript package text legacy

/-- A clause whose parts can be told from each other. -/
def Valid : PackageClause → Prop
  | .config source destination => IsWord source.toList ∧ IsWord destination.toList
  | .env key value => IsWord key.toList ∧ IsTrimmed value.toList
  | .service name props => (name.toList ≠ [] ∧ ∀ c ∈ name.toList, isServiceChar c) ∧
      ∀ p ∈ props, IsProperty p.1.toList p.2.toList
  | .script text _ => IsTrimmed text.toList

instance : (c : PackageClause) → Decidable c.Valid
  | .config _ _ | .env _ _ | .script _ _ => inferInstanceAs (Decidable (_ ∧ _))
  | .service name _ =>
    haveI : Decidable (∀ c ∈ name.toList, isServiceChar c) := List.decidableBAll _ _
    inferInstanceAs (Decidable (_ ∧ _))

end PackageClause

instance : (line : List Char) → Decidable (IsPlain line)
  | [] => isTrue fun _ hc => by cases hc
  | c :: _ => decidable_of_iff (c ≠ '@' ∧ c ≠ ':' ∧ c ≠ '!') (by simp [IsPlain])

/-- A line and what it says. -/
abbrev WrittenLine := List Char × List Form

namespace Clause

/-- The lines of a clause and what they say, given the package declared last. -/
def written (package : String) : Clause → List WrittenLine
  | .packages items => (Directive.packages.keyword.toList, [.listing]) ::
      items.map fun item => (item.toList, [.item item])
  | .package names =>
    [(directiveLine .package (commaList (names.map String.toList)), names.map .package)]
  | .group name => [(directiveLine .group name.toList, [.group name])]
  | .env key value =>
    [(directiveLine .env (spacedPair ['='] key.toList value.toList), [.env key value])]
  | .script text => [(directiveLine .script text.toList, [.script text])]
  | .ofPackage c => [(directiveLine (.ofPackage c.directive) c.payload, [c.form package])]

/-- The package that is current after a clause. -/
def current (package : Option String) : Clause → Option String
  | .packages _ => none
  | .package names => names.getLast?
  | _ => package

/-- A clause whose parts can be told from each other. -/
def Valid : Clause → Prop
  | .packages items => ∀ item ∈ items, IsTrimmed item.toList ∧ IsPlain item.toList
  | .package names => names ≠ [] ∧ ∀ name ∈ names, IsListPart name.toList
  | .group name => isGroupName name
  | .env key value => IsWord key.toList ∧ IsTrimmed value.toList
  | .script text => IsTrimmed text.toList
  | .ofPackage c => c.Valid

instance : (c : Clause) → Decidable c.Valid
  | .packages items =>
    inferInstanceAs (Decidable (∀ item ∈ items, IsTrimmed item.toList ∧ IsPlain item.toList))
  | .group name => inferInstanceAs (Decidable (isGroupName name = true))
  | .package _ | .env _ _ | .script _ => inferInstanceAs (Decidable (_ ∧ _))
  | .ofPackage c => inferInstanceAs (Decidable c.Valid)

/-- A clause that stands where it may: one about a package, where there is a current one. -/
def Placed (package : Option String) : Clause → Prop
  | .ofPackage _ => package.isSome
  | _ => True

instance (package : Option String) : (c : Clause) → Decidable (c.Placed package)
  | .ofPackage _ => inferInstanceAs (Decidable (package.isSome = true))
  | .packages _ | .package _ | .group _ | .env _ _ | .script _ => inferInstanceAs (Decidable True)

end Clause

/-- Clauses that each stand where they may. -/
def ClausesPlaced : Option String → List Clause → Prop
  | _, [] => True
  | package, c :: rest => c.Placed package ∧ ClausesPlaced (c.current package) rest

instance decidableClausesPlaced : (package : Option String) → (clauses : List Clause) →
    Decidable (ClausesPlaced package clauses)
  | _, [] => isTrue trivial
  | package, c :: rest =>
    haveI := decidableClausesPlaced (c.current package) rest
    inferInstanceAs (Decidable (_ ∧ _))

/-- The lines of clauses and what they say. -/
def written : Option String → List Clause → List WrittenLine
  | _, [] => []
  | package, c :: rest => c.written (package.getD "") ++ written (c.current package) rest

/-- The text of written lines. -/
def textOf (ls : List WrittenLine) : List Char := joinWith ['\n'] (ls.map (·.1))

/-- The statements of written lines, from a line number on. -/
def statementsFrom (file : String) (number : Nat) : List WrittenLine → List Statement
  | [] => []
  | line :: rest => line.2.map (⟨⟨file, number, String.ofList line.1⟩, ·⟩) ++
      statementsFrom file (number + 1) rest

/-- A line without breaks of which nothing is taken for a comment. -/
def IsBareLine (line : List Char) : Prop := '\n' ∉ line ∧ stripComment line = line

instance (line : List Char) : Decidable (IsBareLine line) := inferInstanceAs (Decidable (_ ∧ _))

/-- Clauses that can be written as a text. -/
structure Writable (clauses : List Clause) : Prop where
  valid : ∀ c ∈ clauses, c.Valid
  placed : ClausesPlaced none clauses
  bare : ∀ line ∈ written none clauses, IsBareLine line.1

end HostConfig
