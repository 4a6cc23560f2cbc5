/-!
# Patterns of characters

Regular patterns, and acceptance of a text by taking derivatives: the derivative of a pattern by a
character matches what may follow that character. The sum and the product drop what can no longer
match, so that derivatives stay small.
-/

namespace HostConfig.Text

/-- A regular pattern. -/
inductive Pattern
  | never
  | empty
  | one (ok : Char → Bool)
  | seq (p q : Pattern)
  | alt (p q : Pattern)
  | star (p : Pattern)

namespace Pattern

/-- Whether the pattern matches the empty text. -/
def nullable : Pattern → Bool
  | never => false
  | empty => true
  | one _ => false
  | seq p q => p.nullable && q.nullable
  | alt p q => p.nullable || q.nullable
  | star _ => true

/-- A sequence without parts that cannot match. -/
def followedBy : Pattern → Pattern → Pattern
  | never, _ => never
  | _, never => never
  | empty, q => q
  | p, q => seq p q

/-- A choice without alternatives that cannot match. -/
def orElse : Pattern → Pattern → Pattern
  | never, q => q
  | p, never => p
  | p, q => alt p q

/-- What may follow a character. -/
def derivative (c : Char) : Pattern → Pattern
  | never => never
  | empty => never
  | one ok => if ok c then empty else never
  | seq p q =>
    if p.nullable then orElse (followedBy (p.derivative c) q) (q.derivative c)
    else followedBy (p.derivative c) q
  | alt p q => orElse (p.derivative c) (q.derivative c)
  | star p => followedBy (p.derivative c) (star p)

/-- Whether the pattern matches a whole text. -/
def accepts : Pattern → List Char → Bool
  | p, [] => p.nullable
  | p, c :: rest => (p.derivative c).accepts rest

/-- Matches one given character. -/
def char (c : Char) : Pattern := one (· == c)

/-- Matches one of the given characters. -/
def anyOf (s : String) : Pattern := one fun c => s.toList.contains c

/-- Matches a given text. -/
def word (s : String) : Pattern := s.toList.foldr (fun c p => seq (char c) p) empty

/-- Matches one of the given texts. -/
def words (texts : List String) : Pattern := texts.foldr (fun s p => alt (word s) p) never

/-- Matches any of the given patterns. -/
def choice (ps : List Pattern) : Pattern := ps.foldr alt never

/-- Matches the given patterns one after the other. -/
def all (ps : List Pattern) : Pattern := ps.foldr seq empty

/-- Matches a pattern or nothing. -/
def optional (p : Pattern) : Pattern := alt empty p

/-- Matches one or more repetitions. -/
def plus (p : Pattern) : Pattern := seq p (star p)

end Pattern

end HostConfig.Text
