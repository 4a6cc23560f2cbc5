/-!
# Reading bytes as text

Bytes are decoded as UTF-8 without ever failing: each maximal part that begins a character and
cannot be completed becomes one replacement character, as does each byte that begins none.
Afterwards every line end is a line feed.
-/

namespace HostConfig.Text

/-- The character that stands for bytes that are not UTF-8. -/
def replacement : Char := '\uFFFD'

/-- A character begun and not yet complete: the number of missing bytes, the bits read so far, and
the bounds of the next byte. -/
structure Partial where
  missing : Nat
  bits : Nat
  low : UInt8
  high : UInt8
  deriving DecidableEq, Repr

/-- What a byte means at the start of a character: a whole one, the first byte of a longer one, or
none. -/
inductive Lead
  | single (c : Char)
  | opens (p : Partial)
  | invalid

/-- The meaning of a byte at the start of a character; the ranges of the second byte leave out
overlong forms, surrogates and code points that are too large. -/
def lead (b : UInt8) : Lead :=
  let n := b.toNat
  if n < 0x80 then .single (Char.ofNat n)
  else if n < 0xC2 then .invalid
  else if n < 0xE0 then .opens ⟨1, n - 0xC0, 0x80, 0xBF⟩
  else if n = 0xE0 then .opens ⟨2, 0, 0xA0, 0xBF⟩
  else if n = 0xED then .opens ⟨2, 0xD, 0x80, 0x9F⟩
  else if n < 0xF0 then .opens ⟨2, n - 0xE0, 0x80, 0xBF⟩
  else if n = 0xF0 then .opens ⟨3, 0, 0x90, 0xBF⟩
  else if n = 0xF4 then .opens ⟨3, 4, 0x80, 0x8F⟩
  else if n < 0xF4 then .opens ⟨3, n - 0xF0, 0x80, 0xBF⟩
  else .invalid

/-- Decode the bytes at the start of a character. -/
def Lead.decode (l : Lead) (rest : Option Partial → List Char) : List Char :=
  match l with
  | .single c => c :: rest none
  | .opens p => rest (some p)
  | .invalid => replacement :: rest none

/-- Decode bytes, given the character that is begun. -/
def decodeFrom : Option Partial → List UInt8 → List Char
  | none, [] => []
  | some _, [] => [replacement]
  | none, b :: rest => (lead b).decode fun state => decodeFrom state rest
  | some p, b :: rest =>
    if p.low ≤ b && b ≤ p.high then
      let bits := p.bits * 64 + (b.toNat - 0x80)
      if p.missing = 1 then Char.ofNat bits :: decodeFrom none rest
      else decodeFrom (some ⟨p.missing - 1, bits, 0x80, 0xBF⟩) rest
    else replacement :: (lead b).decode fun state => decodeFrom state rest

/-- Turn each carriage return, with the line feed after it if there is one, into a line feed. -/
def unifyLineEnds : List Char → List Char
  | [] => []
  | '\r' :: '\n' :: rest => '\n' :: unifyLineEnds rest
  | '\r' :: rest => '\n' :: unifyLineEnds rest
  | c :: rest => c :: unifyLineEnds rest

/-- The text of a file: its bytes decoded, its line ends unified. -/
def ofBytes (bytes : List UInt8) : List Char := unifyLineEnds (decodeFrom none bytes)

/-- A read text holds no carriage return. -/
theorem return_not_mem_unifyLineEnds (cs : List Char) : '\r' ∉ unifyLineEnds cs := by
  fun_induction unifyLineEnds cs with
  | case1 => simp
  | case2 rest ih => simp [ih]
  | case3 rest _ ih => simp [ih]
  | case4 c rest _ hc ih =>
    have : c ≠ '\r' := fun h => hc h
    simp [ih, Ne.symm this]

end HostConfig.Text
