import HostConfig.Text.Pieces
import HostConfig.Yaml.ImplicitType

/-!
# Writing YAML

A string is written without quotes if it then reads back as itself, in single quotes if it can be,
and in double quotes otherwise. Long scalars are folded: past the right margin a single space
becomes a line break, or in double quotes a line break is escaped.

A mapping is written as one field after the other, each on lines of its own, at one indent. A list
stands below its key at the indent of the key, each item after a dash, unless it is empty.

The texts are those of a third-party emitter, which is not part of this development. The definitions
follow its documented rules for plain data in block style, with the default margin and indent, and
with characters beyond ASCII written as they are.
-/

namespace HostConfig.Yaml

open HostConfig.Text

/-- The column past which a scalar is folded. -/
def margin : Nat := 80

/-- A line break inside a scalar. -/
def isBreak (c : Char) : Bool :=
  c == '\n' || c == '\x85' || c == '\u2028' || c == '\u2029'

/-- A character that ends an indicator. -/
def isSpacing (c : Char) : Bool :=
  c == '\x00' || c == ' ' || c == '\t' || c == '\r' || isBreak c

/-- A character that can be written as it is only by an escape. -/
def isSpecial (c : Char) : Bool :=
  let n := c.toNat
  !(c == '\n' || (0x20 ≤ n && n ≤ 0x7E) ||
    (n != 0xFEFF &&
      (n == 0x85 || (0xA0 ≤ n && n ≤ 0xD7FF) || (0xE000 ≤ n && n ≤ 0xFFFD) ||
        (0x10000 ≤ n && n < 0x10FFFF))))

/-- Whether what follows an indicator ends it. -/
def endsIndicator : List Char → Bool
  | [] => true
  | c :: _ => isSpacing c

/-- Whether the first character makes the text look like structure. -/
def leadsStructure : List Char → Bool
  | [] => false
  | c :: rest =>
    "#,[]\x7b\x7d&*!|>'\"%@\x60".toList.contains c ||
      ((c == '?' || c == ':' || c == '-') && endsIndicator rest)

/-- Whether a later character makes the text look like structure: a colon that ends a key, or a
hash sign that opens a comment; given the character before. -/
def holdsStructure (previous : Char) : List Char → Bool
  | [] => false
  | c :: rest =>
    (c == ':' && endsIndicator rest) || (c == '#' && isSpacing previous) || holdsStructure c rest

/-- Whether a text looks like structure where a scalar is expected. -/
def looksStructural (cs : List Char) : Bool :=
  "---".toList.isPrefixOf cs || "...".toList.isPrefixOf cs || leadsStructure cs ||
    match cs with
    | [] => false
    | c :: rest => holdsStructure c rest

/-- Whether the text has two neighbours, the first of one class and the second of another. -/
def hasNeighbours (first second : Char → Bool) : List Char → Bool
  | a :: b :: rest => (first a && second b) || hasNeighbours first second (b :: rest)
  | _ => false

/-- How a scalar is written. -/
inductive Style
  | plain
  | single
  | double
  deriving DecidableEq, Repr

/-- Whether a string can be written without quotes and reads back as itself. -/
def canBePlain (cs : List Char) : Bool :=
  !(readsAsOther cs || cs.any isSpecial || cs.any isBreak || cs.head? == some ' ' ||
    cs.getLast? == some ' ' || looksStructural cs)

/-- Whether a string can be written in single quotes. -/
def canBeSingle (cs : List Char) : Bool :=
  !(cs.any isSpecial || hasNeighbours (· == ' ') isBreak cs || hasNeighbours isBreak (· == ' ') cs)

/-- The style of a string. -/
def styleOf (cs : List Char) : Style :=
  if canBePlain cs then .plain else if canBeSingle cs then .single else .double

/-- A line feed and an indent. -/
def newLine (indent : Nat) : List Char := '\n' :: List.replicate indent ' '

/-- Whether a space may become a line break: it stands alone, past the margin. -/
def foldsAt (column : Nat) (previous : Option Char) (rest : List Char) : Bool :=
  margin < column && previous != some ' ' && rest.head? != some ' '

/-- Write a text without quotes from a column on, given the character before. -/
def writePlain (indent column : Nat) (previous : Option Char) : List Char → List Char
  | [] => []
  | c :: rest =>
    if c = ' ' && foldsAt column previous rest then
      newLine indent ++ writePlain indent indent (some c) rest
    else c :: writePlain indent (column + 1) (some c) rest

/-- Write a text inside single quotes from a column on, given the character before: a quote is
doubled, and a run of breaks that begins with a line feed takes one more. -/
def writeSingle (indent column : Nat) (previous : Option Char) : List Char → List Char
  | [] => []
  | c :: rest =>
    if c = ' ' then
      if foldsAt column previous rest && previous.isSome && !rest.isEmpty then
        newLine indent ++ writeSingle indent indent (some c) rest
      else c :: writeSingle indent (column + 1) (some c) rest
    else if isBreak c then
      let opening := if c = '\n' && !previous.any isBreak then ['\n'] else []
      if rest.head?.any isBreak then
        opening ++ c :: writeSingle indent 0 (some c) rest
      else opening ++ c :: List.replicate indent ' ' ++ writeSingle indent indent (some c) rest
    else if c = '\'' then '\'' :: '\'' :: writeSingle indent (column + 2) (some c) rest
    else c :: writeSingle indent (column + 1) (some c) rest

/-- A capital hexadecimal digit. -/
def capitalHex (n : Nat) : Char := if n < 10 then Char.ofNat (48 + n) else Char.ofNat (55 + n)

/-- So many hexadecimal digits of a number. -/
def hexDigits (n : Nat) : Nat → List Char
  | 0 => []
  | k + 1 => hexDigits (n / 16) k ++ [capitalHex (n % 16)]

/-- Whether a character is escaped in double quotes. -/
def needsEscape (c : Char) : Bool :=
  let n := c.toNat
  c == '"' || c == '\\' || c == '\x85' || c == '\u2028' || c == '\u2029' || c == '\uFEFF' ||
    !((0x20 ≤ n && n ≤ 0x7E) || (0xA0 ≤ n && n ≤ 0xD7FF) || (0xE000 ≤ n && n ≤ 0xFFFD))

/-- The letter of a character's short escape. -/
def shortEscape? (c : Char) : Option Char :=
  match c with
  | '\x00' => some '0'
  | '\x07' => some 'a'
  | '\x08' => some 'b'
  | '\t' => some 't'
  | '\n' => some 'n'
  | '\x0b' => some 'v'
  | '\x0c' => some 'f'
  | '\r' => some 'r'
  | '\x1b' => some 'e'
  | '"' => some '"'
  | '\\' => some '\\'
  | '\x85' => some 'N'
  | '\u2028' => some 'L'
  | '\u2029' => some 'P'
  | _ => none

/-- The escape of a character. -/
def escape (c : Char) : List Char :=
  match shortEscape? c with
  | some letter => ['\\', letter]
  | none =>
    let n := c.toNat
    if n ≤ 0xFF then '\\' :: 'x' :: hexDigits n 2
    else if n ≤ 0xFFFF then '\\' :: 'u' :: hexDigits n 4
    else '\\' :: 'U' :: hexDigits n 8

/-- Write a text inside double quotes. The characters of the current run that are not written yet
are pending; the column is that of the last written character. Past the margin the line is broken
at a space, or next to an escape, but neither at the first character nor at the last. -/
def writeDouble (indent column : Nat) (pending : List Char) (first : Bool) :
    List Char → List Char
  | [] => pending
  | c :: rest =>
    let inner := !first && !rest.isEmpty
    if needsEscape c then
      let code := escape c
      let column := column + pending.length + code.length
      if inner && margin + 1 < column then
        if rest.head? = some ' ' then
          pending ++ code ++ '\\' :: newLine indent ++
            '\\' :: writeDouble indent (indent + 1) [] false rest
        else pending ++ code ++ '\\' :: newLine indent ++ writeDouble indent indent [] false rest
      else pending ++ code ++ writeDouble indent column [] false rest
    else if inner && (c = ' ' || pending.isEmpty) && margin < column + pending.length then
      if c = ' ' then
        pending ++ '\\' :: newLine indent ++ '\\' :: writeDouble indent (indent + 1) [c] false rest
      else pending ++ '\\' :: newLine indent ++ writeDouble indent indent [c] false rest
    else writeDouble indent column (pending ++ [c]) false rest

/-- Write a string after a key or a dash that ends before a column, with the indent of its
continuation lines; a space comes first. -/
def writeString (indent column : Nat) (s : String) : List Char :=
  let cs := s.toList
  match styleOf cs with
  | .plain => ' ' :: writePlain indent (column + 1) none cs
  | .single => ' ' :: '\'' :: writeSingle indent (column + 2) none cs ++ ['\'']
  | .double => ' ' :: '"' :: writeDouble indent (column + 2) [] true cs ++ ['"']

/-- A field whose value is a string. -/
def textField (indent : Nat) (key s : String) : List Char :=
  key.toList ++ ':' :: writeString (indent + 2) (indent + key.length + 1) s

/-- A field whose value is a truth value. -/
def flagField (key : String) (b : Bool) : List Char :=
  key.toList ++ ':' :: ' ' :: (if b then "true" else "false").toList

/-- A field whose value is a string or null. -/
def optionalField (indent : Nat) (key : String) : Option String → List Char
  | none => key.toList ++ ": null".toList
  | some s => textField indent key s

/-- A field whose value is a list, given what follows the dash of each item. -/
def listField (indent : Nat) (key : String) : List (List Char) → List Char
  | [] => key.toList ++ ": []".toList
  | items => key.toList ++ ':' :: items.flatMap fun item => newLine indent ++ '-' :: item

/-- A list item that is a string, for a dash at an indent. -/
def textItem (indent : Nat) (s : String) : List Char := writeString (indent + 2) (indent + 1) s

/-- Fields at an indent. -/
def mapping (indent : Nat) (fields : List (List Char)) : List Char :=
  Text.joinWith (newLine indent) fields

/-- A list item that is a mapping, for a dash at an indent, given the fields of the mapping. -/
def mappingItem (indent : Nat) (fields : List (List Char)) : List Char :=
  ' ' :: mapping (indent + 2) fields

end HostConfig.Yaml
