import ConfigScript.Text.Hex
import ConfigScript.Text.Printable

/-!
# Text/Quoted — a text in quotes, on one line

A text is shown between quotes with everything escaped that would not show: backslashes and the
quotes in use by a backslash, tab, line feed and carriage return by a letter, the rest by number.
Single quotes are used unless the text holds one of them and no double quote.
-/

namespace ConfigScript.Text

/-- **The quotes around a text**: single, unless only double quotes can stand unescaped. -/
def quoteMark (s : List Char) : Char := if '\'' ∈ s ∧ '"' ∉ s then '"' else '\''

/-- A character by its number: two, four or eight digits behind `x`, `u` or `U`. -/
def escapeByNumber (c : Char) : List Char :=
  if c.toNat < 0x100 then '\\' :: 'x' :: hexPadded 2 c.toNat
  else if c.toNat < 0x10000 then '\\' :: 'u' :: hexPadded 4 c.toNat
  else '\\' :: 'U' :: hexPadded 8 c.toNat

/-- A character of a text between the given quotes. -/
def escapeQuoted (quote c : Char) : List Char :=
  if c = quote ∨ c = '\\' then ['\\', c]
  else if c = '\n' then ['\\', 'n']
  else if c = '\r' then ['\\', 'r']
  else if c = '\t' then ['\\', 't']
  else if isPrintable c then [c]
  else escapeByNumber c

/-- **A text in quotes**, on one line whatever it holds. -/
def quotedChars (s : List Char) : List Char :=
  let quote := quoteMark s
  quote :: s.flatMap (escapeQuoted quote) ++ [quote]

/-- **A text in quotes**, on one line whatever it holds. -/
def quoted (s : String) : String := String.ofList (quotedChars s.toList)

end ConfigScript.Text
