/-!
# Text/Hex — numbers in base sixteen

Lower-case digits, padded with zeros to a width.
-/

namespace ConfigScript.Text

/-- The digits of `n` in base sixteen. -/
def hexDigits (n : Nat) : List Char := Nat.toDigits 16 n

/-- **The digits of `n` in base sixteen**, at least `width` of them. -/
def hexPadded (width n : Nat) : List Char :=
  List.replicate (width - (hexDigits n).length) '0' ++ hexDigits n

/-- The value of a digit in base sixteen. -/
def hexValue? (c : Char) : Option Nat :=
  if '0' ≤ c ∧ c ≤ '9' then some (c.toNat - '0'.toNat)
  else if 'a' ≤ c ∧ c ≤ 'f' then some (c.toNat - 'a'.toNat + 10)
  else if 'A' ≤ c ∧ c ≤ 'F' then some (c.toNat - 'A'.toNat + 10)
  else none

/-- The number that digits in base sixteen spell; `none` where another character stands. -/
def hexNumber? (cs : List Char) : Option Nat :=
  cs.foldl (fun n? c => n?.bind fun n => (hexValue? c).map (16 * n + ·)) (some 0)

end ConfigScript.Text
