import HostConfig.Json.Value
import HostConfig.Problem

/-!
# Reports

A problem is shown to a person as a diagnostic of two lines, and handed to other programs as a
report with a stable code, the place, further details and a hint what to do.
-/

namespace HostConfig

open HostConfig.Json

/-- A message about a place. -/
structure Diagnostic where
  origin : Origin
  message : String
  deriving DecidableEq, Repr

/-- The two lines shown to a person: place and message, then the offending line, trimmed. -/
def Diagnostic.render (d : Diagnostic) : String :=
  d.origin.file ++ ":" ++ toString d.origin.line ++ ": " ++ d.message ++ "\n  -> " ++
    Text.trimString d.origin.raw

/-- The diagnostic as a value. -/
def Diagnostic.toJson (d : Diagnostic) : Value :=
  .obj [("source_file", .str d.origin.file), ("line_number", .int d.origin.line),
    ("raw_line", .str d.origin.raw), ("message", .str d.message)]

/-- The diagnostic of a problem. -/
def Problem.diagnostic (p : Problem) : Diagnostic := ⟨p.origin, p.cause.message⟩

/-- The stable code of a category. -/
def Category.code : Category → String
  | structural => "CONFIG_STRUCTURAL_ERROR"
  | context => "CONFIG_CONTEXT_ERROR"
  | reference => "CONFIG_REFERENCE_ERROR"
  | cycle => "CONFIG_CYCLE_ERROR"
  | unknownDirective => "CONFIG_UNKNOWN_DIRECTIVE"
  | notFound => "CONFIG_NOT_FOUND"
  | unreadable => "CONFIG_READ_ERROR"

/-- What to do about a problem of a category. -/
def Category.hint : Category → String
  | structural => "Corrija o formato da diretiva conforme a gramática do arquivo .owl."
  | context =>
    "Declare '@package <nome>' antes de diretivas ':config', ':env', ':service' ou ':script'."
  | reference =>
    "Crie o arquivo do grupo em <OWL_ROOT>/groups/ ou remova a diretiva '@group'."
  | cycle =>
    "Remova a inclusão circular entre grupos; um grupo não pode se incluir direta ou indiretamente."
  | unknownDirective =>
    "Use apenas diretivas conhecidas (@packages, @package, @group, @env, @script, :config, :env, " ++
      ":service, :script)."
  | notFound => "Crie <OWL_ROOT>/main.owl antes de aplicar a configuração."
  | unreadable => "Verifique se o caminho é um arquivo regular legível."

/-- Every category. -/
def Category.list : List Category :=
  [structural, context, reference, cycle, unknownDirective, notFound, unreadable]

/-- The category with a given code. -/
def Category.ofCode? (code : String) : Option Category :=
  Category.list.find? fun c => c.code = code

/-- A problem as other programs see it. -/
structure Report where
  code : String
  message : String
  details : List (String × Value)
  hint : Option String

/-- The report of a diagnostic under a code; a further detail replaces one of the same name, and
the code decides the hint unless one is given. -/
def Report.of (code : String) (d : Diagnostic) (further : List (String × Value))
    (hint : Option String) : Report where
  code := code
  message := d.message
  details := setMembers
    [("source_file", .str d.origin.file), ("line_number", .int d.origin.line),
      ("raw_line", .str (Text.trimString d.origin.raw))] further
  hint := hint <|> (Category.ofCode? code).map (·.hint)

/-- What is known about a cause besides its message. -/
def Cause.details : Cause → List (String × Value)
  | missingGroup path => [("group_path", .str path)]
  | cycle group => [("group", .str group)]
  | _ => []

/-- The report of a problem. -/
def Problem.report (p : Problem) : Report :=
  .of p.cause.category.code p.diagnostic p.cause.details none

/-- The report as a value. -/
def Report.toJson (r : Report) : Value :=
  .obj [("type", .str r.code), ("message", .str r.message), ("details", .obj r.details),
    ("hint", .ofOption .str r.hint)]

end HostConfig
