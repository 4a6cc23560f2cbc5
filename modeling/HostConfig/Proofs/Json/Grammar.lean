import HostConfig.Json.Reader

/-!
# The grammar of JSON

Which texts spell a value, apart from how any of them is read or written: blanks may stand on either
side of every bracket, comma and colon, a character may stand for itself or be escaped, by a letter or
by one or two units of four digits, and no number has a leading zero. A text may end in blanks and
begin with them. Numbers with a fraction or an exponent spell no value, as values have integers only.
-/

namespace HostConfig.Json

/-- Blanks that may stand between tokens. -/
def IsGap (gap : List Char) : Prop := ∀ c ∈ gap, c = ' ' ∨ c = '\t' ∨ c = '\n' ∨ c = '\r'

/-- What stands between quotes spells a text. A character stands for itself unless it is a quote, a
backslash or a control character. Behind a backslash a letter stands for a character, and so do four
digits, or twice four for a pair of units. -/
inductive SpellsChars : List Char → List Char → Prop
  | nil : SpellsChars [] []
  | plain {c written cs} (hquote : c ≠ '"') (hslash : c ≠ '\\') (hlow : ¬ c.toNat < 0x20)
      (h : SpellsChars written cs) : SpellsChars (c :: written) (c :: cs)
  | letter {letter c written cs} (hletter : unescape? letter = some c)
      (h : SpellsChars written cs) :
      SpellsChars ('\\' :: letter :: written) (c :: cs)
  | unit {a b c d n written cs} (hunit : unit? a b c d = some n) (hwhole : n < 0xD800 ∨ 0xE000 ≤ n)
      (h : SpellsChars written cs) :
      SpellsChars ('\\' :: 'u' :: a :: b :: c :: d :: written) (Char.ofNat n :: cs)
  | pair {a b c d n a' b' c' d' n' written cs} (hunit : unit? a b c d = some n)
      (hhigh : 0xD800 ≤ n ∧ n < 0xDC00) (hunit' : unit? a' b' c' d' = some n')
      (hlow : 0xDC00 ≤ n' ∧ n' < 0xE000) (h : SpellsChars written cs) :
      SpellsChars
        ('\\' :: 'u' :: a :: b :: c :: d :: '\\' :: 'u' :: a' :: b' :: c' :: d' :: written)
        (Char.ofNat (0x10000 + (n - 0xD800) * 0x400 + (n' - 0xDC00)) :: cs)

/-- Digits that a number may have: no digit stands behind a leading zero. -/
structure IsNumeral (digits : List Char) : Prop where
  ne_nil : digits ≠ []
  isDigit : ∀ c ∈ digits, c.isDigit = true
  ne_zero_cons : ∀ d ds, digits ≠ '0' :: d :: ds

/-- A text spells an integer. -/
inductive SpellsInt : List Char → Int → Prop
  | natural {digits} (h : IsNumeral digits) : SpellsInt digits (digitsValue digits)
  | negative {digits} (h : IsNumeral digits) : SpellsInt ('-' :: digits) (-digitsValue digits)

/-- A text spells elements of a list, each as a relation tells: commas stand between them. -/
inductive SpellsList {α : Type} (R : List Char → α → Prop) : List Char → List α → Prop
  | last {gap text gap' a} (hgap : IsGap gap) (h : R text a) (hgap' : IsGap gap') :
      SpellsList R (gap ++ (text ++ gap')) [a]
  | more {gap text gap' a rest as} (hgap : IsGap gap) (h : R text a) (hgap' : IsGap gap')
      (hrest : SpellsList R rest as) :
      SpellsList R (gap ++ (text ++ (gap' ++ ',' :: rest))) (a :: as)

/-- A text spells a member of an object: a key in quotes, a colon and a value as a relation tells. -/
inductive SpellsMember (R : List Char → Value → Prop) : List Char → String × Value → Prop
  | keyed {written key gap gap' text v} (hkey : SpellsChars written key.toList) (hgap : IsGap gap)
      (hgap' : IsGap gap') (h : R text v) :
      SpellsMember R ('"' :: (written ++ '"' :: (gap ++ ':' :: (gap' ++ text)))) (key, v)

/-- A text spells a value. -/
inductive SpellsValue : List Char → Value → Prop
  | null : SpellsValue "null".toList .null
  | bool (b : Bool) : SpellsValue (if b then "true" else "false").toList (.bool b)
  | int {text n} (h : SpellsInt text n) : SpellsValue text (.int n)
  | str {written s} (h : SpellsChars written s.toList) :
      SpellsValue ('"' :: (written ++ ['"'])) (.str s)
  | arr_nil {gap} (hgap : IsGap gap) : SpellsValue ('[' :: (gap ++ [']'])) (.arr [])
  | arr {text items} (h : SpellsList SpellsValue text items) :
      SpellsValue ('[' :: (text ++ [']'])) (.arr items)
  | obj_nil {gap} (hgap : IsGap gap) : SpellsValue ('\x7b' :: (gap ++ ['\x7d'])) (.obj [])
  | obj {text members} (h : SpellsList (SpellsMember SpellsValue) text members) :
      SpellsValue ('\x7b' :: (text ++ ['\x7d'])) (.obj members)

/-- A text spells a value, with blanks around it. -/
def SpellsText (text : List Char) (v : Value) : Prop :=
  ∃ gap written gap', text = gap ++ (written ++ gap') ∧ IsGap gap ∧ SpellsValue written v ∧
    IsGap gap'

/-- Induction over texts that spell a value: what is in an array or an object comes first. -/
@[elab_as_elim]
theorem SpellsValue.induction {motive : List Char → Value → Prop} {text : List Char} {v : Value}
    (h : SpellsValue text v) (null : motive "null".toList .null)
    (bool : ∀ b : Bool, motive (if b then "true" else "false").toList (.bool b))
    (int : ∀ {text n}, SpellsInt text n → motive text (.int n))
    (str : ∀ {written s}, SpellsChars written s.toList →
      motive ('"' :: (written ++ ['"'])) (.str s))
    (arr_nil : ∀ {gap}, IsGap gap → motive ('[' :: (gap ++ [']'])) (.arr []))
    (arr : ∀ {text items}, SpellsList motive text items →
      motive ('[' :: (text ++ [']'])) (.arr items))
    (obj_nil : ∀ {gap}, IsGap gap → motive ('\x7b' :: (gap ++ ['\x7d'])) (.obj []))
    (obj : ∀ {text members}, SpellsList (SpellsMember motive) text members →
      motive ('\x7b' :: (text ++ ['\x7d'])) (.obj members)) : motive text v :=
  go h
where
  /-- What a text spells. -/
  go : ∀ {text v}, SpellsValue text v → motive text v
    | _, _, .null => null
    | _, _, .bool b => bool b
    | _, _, .int h => int h
    | _, _, .str h => str h
    | _, _, .arr_nil hgap => arr_nil hgap
    | _, _, .arr h => arr (items h)
    | _, _, .obj_nil hgap => obj_nil hgap
    | _, _, .obj h => obj (members h)
  /-- The items of an array. -/
  items : ∀ {text vs}, SpellsList SpellsValue text vs → SpellsList motive text vs
    | _, _, .last hgap h hgap' => .last hgap (go h) hgap'
    | _, _, .more hgap h hgap' hrest => .more hgap (go h) hgap' (items hrest)
  /-- A member of an object. -/
  member : ∀ {text m}, SpellsMember SpellsValue text m → SpellsMember motive text m
    | _, _, .keyed hkey hgap hgap' h => .keyed hkey hgap hgap' (go h)
  /-- The members of an object. -/
  members : ∀ {text ms}, SpellsList (SpellsMember SpellsValue) text ms →
      SpellsList (SpellsMember motive) text ms
    | _, _, .last hgap h hgap' => .last hgap (member h) hgap'
    | _, _, .more hgap h hgap' hrest => .more hgap (member h) hgap' (members hrest)

end HostConfig.Json
