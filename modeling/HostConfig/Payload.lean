import HostConfig.Text.Blank
import HostConfig.Text.Pieces

/-!
# Payloads

What stands behind a keyword. An assignment is a key, an equals sign and a value, and a mapping is a
source, an arrow and a destination, with blanks allowed around the mark. The key or source is the
longest text without blanks for which this holds. The value of an assignment stands on one line, but
line breaks may precede it, and one may follow it. A destination holds no blanks, except for one
line feed at its end.

A service is declared by its name, which holds neither blanks nor brackets, and an optional list of
properties in brackets. Properties are assignments with commas between them. The words true and
false, in any letter case, are flags; every other value is a text. A repeated key keeps its first
place and takes its last value.
-/

namespace HostConfig.Payload

open HostConfig.Text

/-- The value that stands after an equals sign, trimmed; there is none if what follows is empty
or has text on more than one line. -/
def assignedValue (rest : List Char) : Option (List Char) :=
  match (pieces '\n' (withoutFinalBreak rest)).reverse with
  | (_ :: _) :: earlier =>
    if earlier.all (·.all isBlank) then some (trim rest) else none
  | _ => none

/-- Split at the last equals sign of a word whose remainder has a value, given the characters
before the word and the text after it. -/
def splitInWord (before word rest : List Char) : Option (List Char × List Char) :=
  match word with
  | [] => none
  | c :: word =>
    match splitInWord (before ++ [c]) word rest with
    | some split => some split
    | none =>
      if c = '=' && !before.isEmpty then (assignedValue (word ++ rest)).map (before, ·) else none

/-- The key and the value of an assignment. -/
def assignment? (payload : List Char) : Option (List Char × List Char) :=
  let word := firstWord payload
  let rest := afterWord payload
  let spaced :=
    match word, trimStart rest with
    | c :: word, '=' :: rest => (assignedValue rest).map (c :: word, ·)
    | _, _ => none
  match spaced with
  | some split => some split
  | none => splitInWord [] word rest

/-- The destination that stands after an arrow. -/
def destination? (rest : List Char) : Option (List Char) :=
  let target := trimStart rest
  let word := firstWord target
  let tail := afterWord target
  if word.isEmpty then none else if tail = [] || tail = ['\n'] then some word else none

/-- Split at the last arrow of a word that a destination follows, given the characters before the
word and the text after it. -/
def splitAtArrow (before word rest : List Char) : Option (List Char × List Char) :=
  match word with
  | [] => none
  | c :: word =>
    match splitAtArrow (before ++ [c]) word rest with
    | some split => some split
    | none =>
      match c, word with
      | '-', '>' :: word =>
        if before.isEmpty then none else (destination? (word ++ rest)).map (before, ·)
      | _, _ => none

/-- The source and the destination of a mapping. -/
def mapping? (payload : List Char) : Option (List Char × List Char) :=
  let word := firstWord payload
  let rest := afterWord payload
  let spaced :=
    match word, trimStart rest with
    | c :: word, '-' :: '>' :: rest => (destination? rest).map (c :: word, ·)
    | _, _ => none
  match spaced with
  | some split => some split
  | none => splitAtArrow [] word rest

/-- A character that may stand in the name of a service. -/
def isServiceChar (c : Char) : Bool := isInk c && c != '[' && c != ']'

/-- The text between brackets, if it is not empty, stands on one line and only blanks follow. -/
def bracketed? (cs : List Char) : Option (List Char) :=
  match cs, (trimEnd cs).reverse with
  | '[' :: _, ']' :: inner =>
    let content := inner.reverse.drop 1
    if content.isEmpty || content.contains '\n' then none else some content
  | _, _ => none

/-- The name of a declared service and the text of its property list, if it has one. -/
def serviceHead? (payload : List Char) : Option (List Char × Option (List Char)) :=
  let name := payload.takeWhile isServiceChar
  let rest := trimStart (payload.dropWhile isServiceChar)
  if name.isEmpty then none
  else if rest.isEmpty then some (name, none)
  else (bracketed? rest).map fun content => (name, some content)

/-- The value of a property. -/
inductive PropertyValue
  | text (s : String)
  | flag (b : Bool)
  deriving DecidableEq, Repr

/-- The letter that a character counts as when letter case is ignored, for the letters of the two
truth words; the long s counts as an s. -/
def plainLetter (c : Char) : Char := if c = 'ſ' then 's' else c.toLower

/-- The value that a trimmed text denotes. -/
def PropertyValue.ofText (cs : List Char) : PropertyValue :=
  let word := cs.map plainLetter
  if word = "true".toList then .flag true
  else if word = "false".toList then .flag false
  else .text (String.ofList cs)

/-- Properties in the order of their keys' first appearance. -/
abbrev Properties := List (String × PropertyValue)

/-- The value of a property. -/
def Properties.get? (props : Properties) (key : String) : Option PropertyValue :=
  (props.find? fun p => p.1 = key).map (·.2)

/-- Set a property, in its place if it is there already. -/
def Properties.set (key : String) (value : PropertyValue) : Properties → Properties
  | [] => [(key, value)]
  | p :: rest => if p.1 = key then (key, value) :: rest else p :: Properties.set key value rest

/-- The parts of a property list: trimmed, and without the empty ones. -/
def propertyParts (content : List Char) : List (List Char) :=
  ((pieces ',' content).map trim).filter fun part => !part.isEmpty

/-- Add the properties of the given parts; a part that is no assignment is the error. -/
def addProperties (props : Properties) : List (List Char) → Except (List Char) Properties
  | [] => .ok props
  | part :: rest =>
    match assignment? part with
    | none => .error part
    | some (key, value) =>
      addProperties (props.set (String.ofList key) (.ofText value)) rest

/-- The properties of a list, or its first part that is no assignment. -/
def properties (content : List Char) : Except (List Char) Properties :=
  addProperties [] (propertyParts content)

end HostConfig.Payload
