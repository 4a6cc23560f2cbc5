import HostConfig.Text.Blank

/-!
# Comments at the end of a line

A hash sign opens a comment unless it is quoted or escaped. A backslash escapes the next
character, inside a quotation and outside. A quotation runs from a single or double quote to the
next unescaped quote of the same kind, or to the end of the line.
-/

namespace HostConfig.Text

/-- What the characters read so far mean for the next one: the quote that opened the current
quotation, and whether an unescaped backslash stands right before. -/
structure QuoteState where
  mark : Option Char
  escaped : Bool
  deriving DecidableEq, Repr

/-- The state at the start of a line: neither quoted nor escaped. -/
def QuoteState.start : QuoteState := ⟨none, false⟩

/-- The state after one more character. -/
def QuoteState.next (s : QuoteState) (c : Char) : QuoteState :=
  if s.escaped then { s with escaped := false }
  else if c = '\\' then { s with escaped := true }
  else
    match s.mark with
    | none => if c = '\'' || c = '"' then { s with mark := some c } else s
    | some m => if c = m then { s with mark := none } else s

/-- Whether a character opens a comment in this state. -/
def QuoteState.opensComment (s : QuoteState) (c : Char) : Bool :=
  !s.escaped && s.mark.isNone && c == '#'

/-- The part of a line before its comment. -/
def beforeComment (s : QuoteState) : List Char → List Char
  | [] => []
  | c :: rest => if s.opensComment c then [] else c :: beforeComment (s.next c) rest

/-- A line without its comment, trimmed. -/
def stripComment (line : List Char) : List Char := trim (beforeComment .start line)

/-- What stands before the comment is a prefix of the line. -/
theorem beforeComment_isPrefix (s : QuoteState) (line : List Char) :
    beforeComment s line <+: line := by
  induction line generalizing s with
  | nil => exact List.prefix_refl []
  | cons c rest ih =>
    simp only [beforeComment]
    split
    · exact List.nil_prefix
    · exact List.cons_prefix_cons.mpr ⟨rfl, ih _⟩

/-- A stripped line is a contiguous part of the line. -/
theorem stripComment_isInfix (line : List Char) : stripComment line <:+: line :=
  (trim_isInfix _).trans (beforeComment_isPrefix _ _).isInfix

end HostConfig.Text
