import HostConfig.Directive
import HostConfig.Text.Comment
import HostConfig.Text.Pieces

/-!
# Tokens

A text is read line by line. Each line that holds more than blanks and a comment is one token: a
directive with its payload, or plain text. An end token closes the list and stands on the line
after the last one.
-/

namespace HostConfig

open HostConfig.Text

/-- A place in a file: a line, counted from one, and its text; line zero is the whole file. -/
structure Origin where
  file : String
  line : Int
  raw : String
  deriving DecidableEq, Repr, Inhabited

/-- What a token is: a line that begins with a keyword, any other line, or the end of the text. -/
inductive TokenKind
  | directive (d : Directive)
  | text
  | eof
  deriving DecidableEq, Repr

/-- A line of a text, classified, with what follows the keyword; without one it is the whole line. -/
structure Token where
  kind : TokenKind
  origin : Origin
  payload : String
  deriving DecidableEq, Repr

/-- The kind and the payload of a line that is stripped of its comment and not empty. -/
def classify (line : List Char) : TokenKind × List Char :=
  match Directive.ofKeyword? (firstWord line) with
  | some d => (.directive d, trim (afterWord line))
  | none => (.text, line)

/-- The token of a line, if the line holds more than blanks and a comment. -/
def Token.ofLine? (file : String) (number : Nat) (raw : List Char) : Option Token :=
  match stripComment raw with
  | [] => none
  | c :: rest =>
    let (kind, payload) := classify (c :: rest)
    some ⟨kind, ⟨file, number, String.ofList raw⟩, String.ofList payload⟩

/-- The tokens of the lines from a given number on, and the end token. -/
def tokensFrom (file : String) (number : Nat) : List (List Char) → List Token
  | [] => [⟨.eof, ⟨file, number, ""⟩, ""⟩]
  | raw :: rest => (Token.ofLine? file number raw).toList ++ tokensFrom file (number + 1) rest

/-- The tokens of a text. -/
def tokenize (file : String) (text : List Char) : List Token := tokensFrom file 1 (lines text)

/-- A line without anything but blanks and a comment is no token. -/
theorem Token.ofLine?_eq_none_iff (file : String) (number : Nat) (raw : List Char) :
    Token.ofLine? file number raw = none ↔ stripComment raw = [] := by
  unfold Token.ofLine?
  split <;> simp_all

/-- The token of a line stands on that line. -/
theorem Token.origin_of_ofLine? {file : String} {number : Nat} {raw : List Char} {t : Token}
    (h : Token.ofLine? file number raw = some t) :
    t.origin = ⟨file, number, String.ofList raw⟩ := by
  unfold Token.ofLine? at h
  split at h
  · cases h
  · cases h; rfl

/-- The tokens of lines end with the end token, on the line after the last one. -/
theorem getLast?_tokensFrom (file : String) (number : Nat) (ls : List (List Char)) :
    (tokensFrom file number ls).getLast? =
      some ⟨.eof, ⟨file, ((number + ls.length : Nat) : Int), ""⟩, ""⟩ := by
  induction ls generalizing number with
  | nil => rfl
  | cons raw rest ih =>
    rw [tokensFrom, List.getLast?_append, ih]
    simp [Nat.add_assoc, Nat.add_comm 1]

end HostConfig
