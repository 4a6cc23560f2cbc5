/-!
# Directives

The directives of the configuration language and their keywords. A directive either speaks about
the whole host or about the package declared last.
-/

namespace HostConfig

/-- A directive about the package declared last. A setup script has a deprecated spelling, too. -/
inductive PackageDirective
  | config
  | env
  | service
  | script
  | setup
  deriving DecidableEq, Repr

/-- A directive. -/
inductive Directive
  | packages
  | package
  | group
  | env
  | script
  | ofPackage (d : PackageDirective)
  deriving DecidableEq, Repr

/-- The word that begins a package directive. -/
def PackageDirective.keyword : PackageDirective → String
  | config => ":config"
  | env => ":env"
  | service => ":service"
  | script => ":script"
  | setup => "!setup"

/-- The word that begins a directive. -/
def Directive.keyword : Directive → String
  | packages => "@packages"
  | package => "@package"
  | group => "@group"
  | env => "@env"
  | script => "@script"
  | ofPackage d => d.keyword

/-- Every directive. -/
def Directive.list : List Directive :=
  [packages, package, env, group, script, ofPackage .config, ofPackage .env, ofPackage .service,
    ofPackage .script, ofPackage .setup]

/-- The directive that a word begins, if it is a keyword. -/
def Directive.ofKeyword? (word : List Char) : Option Directive :=
  Directive.list.find? fun d => d.keyword.toList == word

/-- The characters that begin a keyword. -/
def isSigil (c : Char) : Bool := c == '@' || c == ':' || c == '!'

/-- A keyword is read as its directive. -/
theorem Directive.ofKeyword?_keyword (d : Directive) :
    Directive.ofKeyword? d.keyword.toList = some d := by
  rcases d with _ | _ | _ | _ | _ | (_ | _ | _ | _ | _) <;> decide

/-- A word is read as a directive exactly when it is that directive's keyword. -/
theorem Directive.ofKeyword?_eq_some_iff {word : List Char} {d : Directive} :
    Directive.ofKeyword? word = some d ↔ word = d.keyword.toList := by
  constructor
  · intro h
    have hd := List.find?_some h
    exact (eq_of_beq hd).symm
  · rintro rfl
    exact ofKeyword?_keyword d

end HostConfig
