/-!
# Number/Power — powers of two and of ten

The powers by which binary and decimal numbers are scaled.
-/

namespace ConfigScript.Number

/-- Two to a power. -/
def twoTo (n : Nat) : Nat := Nat.pow 2 n

/-- Ten to a power. -/
def tenTo (n : Nat) : Nat := Nat.pow 10 n

/-- A greater exponent makes no smaller power. -/
theorem tenTo_le_tenTo {m n : Nat} (h : m ≤ n) : tenTo m ≤ tenTo n :=
  Nat.pow_le_pow_right (by decide) h

end ConfigScript.Number
