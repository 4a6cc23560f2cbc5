import HostConfig.Text.Pieces

/-!
# JSON values

The values of JSON with integers as its only numbers. An object keeps its members in the order in
which they were written.

A value is written on lines with two spaces for each level, or compactly, without any blanks. Only
quotes, backslashes and control characters are escaped. The canonical text of a value is compact
and has the members of every object in the order of their keys, so that it depends on the value
alone and not on the order of members.
-/

namespace HostConfig.Json

open HostConfig.Text

/-- A JSON value without fractional numbers. -/
inductive Value
  | null
  | bool (b : Bool)
  | int (n : Int)
  | str (s : String)
  | arr (items : List Value)
  | obj (members : List (String × Value))
  deriving Repr, Inhabited

/-- The value of an optional value. -/
def Value.ofOption {α : Type} (encode : α → Value) : Option α → Value
  | none => .null
  | some a => encode a

/-- The member of an object with a given key; the last one counts. -/
def Value.member? (key : String) : Value → Option Value
  | .obj members => (members.reverse.find? fun m => m.1 = key).map (·.2)
  | _ => none

/-- Set a member, in its place if its key is there already. -/
def setMember (key : String) (value : Value) : List (String × Value) → List (String × Value)
  | [] => [(key, value)]
  | m :: rest => if m.1 = key then (key, value) :: rest else m :: setMember key value rest

/-- Set several members one after the other. -/
def setMembers (members added : List (String × Value)) : List (String × Value) :=
  added.foldl (fun acc m => setMember m.1 m.2 acc) members

/-- The digit of a number below sixteen. -/
def hexDigit (n : Nat) : Char := if n < 10 then Char.ofNat (48 + n) else Char.ofNat (87 + n)

/-- How a character is written inside quotes. -/
def escape (c : Char) : List Char :=
  if c = '"' then ['\\', '"']
  else if c = '\\' then ['\\', '\\']
  else if c = '\x08' then ['\\', 'b']
  else if c = '\x0c' then ['\\', 'f']
  else if c = '\n' then ['\\', 'n']
  else if c = '\r' then ['\\', 'r']
  else if c = '\t' then ['\\', 't']
  else if c.toNat < 0x20 then
    ['\\', 'u', '0', '0', hexDigit (c.toNat / 16), hexDigit (c.toNat % 16)]
  else [c]

/-- A string in quotes. -/
def quote (s : String) : List Char := '"' :: s.toList.flatMap escape ++ ['"']

/-- A line feed and the indent of a level. -/
def newLine (level : Nat) : List Char := '\n' :: List.replicate (2 * level) ' '

mutual

/-- The compact text of a value. -/
def Value.compact : Value → List Char
  | .null => "null".toList
  | .bool true => "true".toList
  | .bool false => "false".toList
  | .int n => (toString n).toList
  | .str s => quote s
  | .arr items => '[' :: joinWith [','] (compactItems items) ++ [']']
  | .obj members => '\x7b' :: joinWith [','] (compactMembers members) ++ ['\x7d']

/-- The compact texts of values. -/
def compactItems : List Value → List (List Char)
  | [] => []
  | v :: rest => v.compact :: compactItems rest

/-- The compact texts of members. -/
def compactMembers : List (String × Value) → List (List Char)
  | [] => []
  | (key, v) :: rest => (quote key ++ ':' :: v.compact) :: compactMembers rest

end

mutual

/-- The text of a value on lines, from a level on. -/
def Value.pretty (level : Nat) : Value → List Char
  | .null => "null".toList
  | .bool true => "true".toList
  | .bool false => "false".toList
  | .int n => (toString n).toList
  | .str s => quote s
  | .arr [] => ['[', ']']
  | .arr (v :: rest) =>
    '[' :: newLine (level + 1) ++
      joinWith (',' :: newLine (level + 1)) (prettyItems (level + 1) (v :: rest)) ++
      newLine level ++ [']']
  | .obj [] => ['\x7b', '\x7d']
  | .obj (m :: rest) =>
    '\x7b' :: newLine (level + 1) ++
      joinWith (',' :: newLine (level + 1)) (prettyMembers (level + 1) (m :: rest)) ++
      newLine level ++ ['\x7d']

/-- The texts of values on lines. -/
def prettyItems (level : Nat) : List Value → List (List Char)
  | [] => []
  | v :: rest => v.pretty level :: prettyItems level rest

/-- The texts of members on lines. -/
def prettyMembers (level : Nat) : List (String × Value) → List (List Char)
  | [] => []
  | (key, v) :: rest => (quote key ++ ':' :: ' ' :: v.pretty level) :: prettyMembers level rest

end

/-- Members in the order of their keys. -/
def sortMembers (members : List (String × Value)) : List (String × Value) :=
  members.mergeSort fun m n => decide (m.1 ≤ n.1)

mutual

/-- The value with the members of every object in the order of their keys. -/
def Value.sorted : Value → Value
  | .arr items => .arr (sortedItems items)
  | .obj members => .obj (sortMembers (sortedMembers members))
  | v => v

/-- Values with their members in order. -/
def sortedItems : List Value → List Value
  | [] => []
  | v :: rest => v.sorted :: sortedItems rest

/-- Members with the members of their values in order. -/
def sortedMembers : List (String × Value) → List (String × Value)
  | [] => []
  | (key, v) :: rest => (key, v.sorted) :: sortedMembers rest

end

/-- The canonical text of a value. -/
def Value.canonical (v : Value) : List Char := v.sorted.compact

end HostConfig.Json
