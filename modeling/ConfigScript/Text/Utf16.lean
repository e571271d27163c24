/-!
# Text/Utf16 — characters as units of sixteen bits

A character up to U+FFFF is one unit, any other a pair of surrogates.
-/

namespace ConfigScript.Text

/-- **The units of a character.** -/
def utf16Units (c : Char) : List Nat :=
  if c.toNat < 0x10000 then [c.toNat]
  else
    let n := c.toNat - 0x10000
    [0xd800 + n / 0x400, 0xdc00 + n % 0x400]

/-- How many units a text takes. -/
def utf16Length (cs : List Char) : Nat := (cs.flatMap utf16Units).length

end ConfigScript.Text
