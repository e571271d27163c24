/-!
# Text/Space — the characters that separate words

The set is Unicode's: the characters with the property White_Space, and besides them the four
separator controls U+001C to U+001F.
-/

namespace ConfigScript

/-- **White space**: the blank characters of Unicode, newlines among them. -/
def isSpace (c : Char) : Bool :=
  let n := c.toNat
  (0x09 ≤ n && n ≤ 0x0d) || (0x1c ≤ n && n ≤ 0x20) || n == 0x85 || n == 0xa0 || n == 0x1680
    || (0x2000 ≤ n && n ≤ 0x200a) || n == 0x2028 || n == 0x2029 || n == 0x202f || n == 0x205f
    || n == 0x3000

/-- A text is blank when it has characters and all of them are white space. -/
def isBlank (s : List Char) : Bool := !s.isEmpty && s.all isSpace

@[simp] theorem isSpace_newline : isSpace '\n' = true := rfl

@[simp] theorem isSpace_backslash : isSpace '\\' = false := rfl

@[simp] theorem isSpace_quote : isSpace '"' = false := rfl

@[simp] theorem isSpace_dash : isSpace '-' = false := rfl

end ConfigScript
