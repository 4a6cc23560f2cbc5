import HostConfig.Text.Pattern

/-!
# Implicit types of YAML scalars

An unquoted YAML 1.1 scalar is a string only if it does not read as a truth value, a number, a
null, a time, a merge key or a default value. The patterns of these are stated here. They follow the
documented rules by which a third-party emitter decides whether a string needs quotes.
-/

namespace HostConfig.Yaml

open HostConfig.Text Pattern

/-- Matches a decimal digit. -/
def digit : Pattern := one Char.isDigit

/-- Matches a decimal digit or an underscore. -/
def spacedDigit : Pattern := one fun c => c.isDigit || c == '_'

/-- Matches a sign or nothing. -/
def sign : Pattern := optional (anyOf "+-")

/-- Matches digits and underscores that begin with a digit. -/
def spacedDigits : Pattern := seq digit (star spacedDigit)

/-- Matches the places of base sixty after the first, each after a colon. -/
def sixties : Pattern := plus (all [char ':', optional (anyOf "012345"), digit])

/-- Matches a signed exponent or nothing. -/
def exponent : Pattern := optional (all [anyOf "eE", anyOf "+-", plus digit])

/-- Matches the words for truth values. -/
def boolean : Pattern :=
  words ["yes", "Yes", "YES", "no", "No", "NO", "true", "True", "TRUE", "false", "False", "FALSE",
    "on", "On", "ON", "off", "Off", "OFF"]

/-- Matches numbers with a point, in base ten or sixty, infinities, and the lack of a number. -/
def float : Pattern :=
  choice [all [sign, spacedDigits, char '.', star spacedDigit, exponent],
    all [char '.', spacedDigits, exponent],
    all [sign, spacedDigits, sixties, char '.', star spacedDigit],
    all [sign, char '.', words ["inf", "Inf", "INF"]],
    all [char '.', words ["nan", "NaN", "NAN"]]]

/-- Matches integers in base two, eight, ten, sixteen and sixty. -/
def integer : Pattern :=
  choice [all [sign, word "0b", plus (anyOf "01_")],
    all [sign, char '0', plus (anyOf "01234567_")],
    all [sign, char '0'],
    all [sign, anyOf "123456789", star spacedDigit],
    all [sign, word "0x", plus (anyOf "0123456789abcdefABCDEF_")],
    all [sign, anyOf "123456789", star spacedDigit, sixties]]

/-- Matches the spellings of null. -/
def null : Pattern := words ["", "~", "null", "Null", "NULL"]

/-- Matches one digit or two. -/
def shortNumber : Pattern := seq digit (optional digit)

/-- Matches a time zone or nothing. -/
def zone : Pattern :=
  optional (seq (star (anyOf " \t"))
    (alt (char 'Z')
      (all [anyOf "+-", shortNumber, optional (all [char ':', digit, digit])])))

/-- Matches dates, and dates with a time. -/
def timestamp : Pattern :=
  let year := all [digit, digit, digit, digit]
  alt (all [year, char '-', digit, digit, char '-', digit, digit])
    (all [year, char '-', shortNumber, char '-', shortNumber,
      alt (anyOf "Tt") (plus (anyOf " \t")),
      shortNumber, char ':', digit, digit, char ':', digit, digit,
      optional (seq (char '.') (star digit)), zone])

/-- Matches the merge key and the default value. -/
def special : Pattern := words ["<<", "="]

/-- Whether an unquoted scalar reads as something other than a string. -/
def readsAsOther (cs : List Char) : Bool :=
  [boolean, float, integer, null, timestamp, special].any fun p => p.accepts cs

end HostConfig.Yaml
