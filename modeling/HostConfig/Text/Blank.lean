/-!
# Blank characters

The characters that separate words: Unicode's white space together with the four information
separators. Trimming and taking a first word are over character lists, so that what stands on
either side of a cut is a list suffix or prefix of the whole.
-/

namespace HostConfig.Text

/-- The blank characters: Unicode's white space and the separators U+001C to U+001F. -/
def isBlank (c : Char) : Bool :=
  let n := c.toNat
  (0x09 ≤ n && n ≤ 0x0D) || (0x1C ≤ n && n ≤ 0x20) || n == 0x85 || n == 0xA0 || n == 0x1680 ||
    (0x2000 ≤ n && n ≤ 0x200A) || n == 0x2028 || n == 0x2029 || n == 0x202F || n == 0x205F ||
    n == 0x3000

/-- A character that is not blank. -/
def isInk (c : Char) : Bool := !isBlank c

/-- A text without its leading blanks. -/
def trimStart (cs : List Char) : List Char := cs.dropWhile isBlank

/-- A text without its trailing blanks. -/
def trimEnd (cs : List Char) : List Char := (cs.reverse.dropWhile isBlank).reverse

/-- A text without its leading and trailing blanks. -/
def trim (cs : List Char) : List Char := trimEnd (trimStart cs)

/-- The first run of non-blank characters, for a text that starts with one. -/
def firstWord (cs : List Char) : List Char := cs.takeWhile isInk

/-- What follows the first word. -/
def afterWord (cs : List Char) : List Char := cs.dropWhile isInk

/-- A first word and what follows it make up the text. -/
theorem firstWord_append_afterWord (cs : List Char) : firstWord cs ++ afterWord cs = cs :=
  List.takeWhile_append_dropWhile

/-- A first word holds no blank. -/
theorem isInk_of_mem_firstWord {cs : List Char} {c : Char} (h : c ∈ firstWord cs) :
    isInk c = true :=
  List.all_eq_true.mp List.all_takeWhile c h

/-- Trimming at the start keeps a suffix. -/
theorem trimStart_isSuffix (cs : List Char) : trimStart cs <:+ cs := List.dropWhile_suffix _

/-- Trimming at the end keeps a prefix. -/
theorem trimEnd_isPrefix (cs : List Char) : trimEnd cs <+: cs := by
  simpa [trimEnd] using List.reverse_prefix.mpr (List.dropWhile_suffix (l := cs.reverse) isBlank)

/-- Trimming keeps a contiguous part. -/
theorem trim_isInfix (cs : List Char) : trim cs <:+: cs :=
  (trimEnd_isPrefix _).isInfix.trans (trimStart_isSuffix cs).isInfix

/-- A string without its leading and trailing blanks. -/
def trimString (s : String) : String := String.ofList (trim s.toList)

end HostConfig.Text
