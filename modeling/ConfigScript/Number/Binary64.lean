import ConfigScript.Number.Decimal

/-!
# Number/Binary64 — binary numbers of 64 bits

A finite number is a sign, a significand below 2^53 and a power of two from 2^-1074 to 2^971.  A
decimal number is rounded to the nearest of them (`ofDecimal`), a tie going to the even significand;
the other way a number is shown by the fewest digits that round back to it (`shortest`).  All of it
is done on natural numbers, without rounding on the way.
-/

namespace ConfigScript.Number

/-- **A binary number of 64 bits**: `significand * 2 ^ exponent` with a sign, or no finite number.
-/
inductive Binary64 where
  | finite (negative : Bool) (significand : Nat) (exponent : Int)
  | infinite (negative : Bool)
  | nan
deriving DecidableEq, Inhabited

/-- The part of an exponent by which a numerator is multiplied. -/
def up (n : Int) : Nat := n.toNat

/-- The part of an exponent by which a denominator is multiplied. -/
def down (n : Int) : Nat := (-n).toNat

/-- **Division rounded to the nearest**, a tie to the even quotient. -/
def divRound (num den : Nat) : Nat :=
  let q := num / den
  let r := num % den
  if den < 2 * r ∨ den = 2 * r ∧ q % 2 = 1 then q + 1 else q

namespace Binary64

/-- The least exponent of a finite number. -/
def leastExponent : Int := -1074

/-- The greatest exponent of a finite number. -/
def greatestExponent : Int := 971

/-- The exponent of the highest bit of a positive fraction. -/
def highBit (num den : Nat) : Int :=
  let g : Int := (num.log2 : Int) - den.log2
  if den * twoTo (up g) ≤ num * twoTo (down g) then g else g - 1

/-- The number nearest to a positive fraction. -/
def ofFraction (negative : Bool) (num den : Nat) : Binary64 :=
  let e := max (highBit num den - 52) leastExponent
  let q := divRound (num * twoTo (down e)) (den * twoTo (up e))
  let (q, e) := if q = twoTo 53 then (twoTo 52, e + 1) else (q, e)
  if greatestExponent < e then infinite negative else finite negative q e

/-- **The number nearest to a decimal number.**  Far outside the range of the finite numbers it is
infinite or zero; the bounds spare the powers of ten no one needs. -/
def ofDecimal (negative : Bool) (d : Decimal) : Binary64 :=
  if d.digits = 0 then finite negative 0 leastExponent
  else if 310 < d.point then infinite negative
  else if d.point < -326 then finite negative 0 leastExponent
  else ofFraction negative (d.digits * tenTo (up d.exponent)) (tenTo (down d.exponent))

/-- The place of the point of a positive fraction, counted from before its first digit. -/
def pointOf (num den : Nat) : Int :=
  if den ≤ num then digitCount (num / den)
  else
    let c := digitCount (den / num)
    if den ≤ num * tenTo (c - 1) then 2 - c else 1 - c

/-- **The best decimal number with `p` digits** for a positive number: of the two neighbours on the
grid of such numbers those that round back, of these the nearer, of two equally near the even one.
A number rounds back when it lies between the midpoints to the next numbers, the midpoints included
if the significand is even.  Everything is counted in quarters of the last place. -/
def candidate? (m : Nat) (e : Int) (p : Nat) : Option Decimal :=
  let k := pointOf (m * twoTo (up e)) (twoTo (down e)) - p
  let j := e - 2
  let a := tenTo (up k) * twoTo (down j)
  let b := twoTo (up j) * tenTo (down k)
  let below := if m = twoTo 52 ∧ leastExponent < e then 1 else 2
  let value := 4 * m * b
  let low := (4 * m - below) * b
  let high := (4 * m + 2) * b
  let q := value / a
  let r := value % a
  let even := m % 2 = 0
  let fits (c : Nat) : Bool :=
    if even then low ≤ c * a && c * a ≤ high else low < c * a && c * a < high
  if r = 0 then some ⟨q, k⟩
  else
    match fits q, fits (q + 1) with
    | true, true => some ⟨if 2 * r < a ∨ 2 * r = a ∧ q % 2 = 0 then q else q + 1, k⟩
    | true, false => some ⟨q, k⟩
    | false, true => some ⟨q + 1, k⟩
    | false, false => none

/-- **The fewest digits that round back** to a positive number.  Seventeen are always enough. -/
def shortest (m : Nat) (e : Int) : Decimal :=
  ((List.range 17).findSome? fun i => candidate? m e (i + 1)).getD ⟨m * twoTo (up e), 0⟩

/-- **A number in writing.** -/
def text : Binary64 → String
  | nan => "nan"
  | infinite negative => if negative then "-inf" else "inf"
  | finite negative m e =>
    (if negative then "-" else "")
      ++ String.ofList (if m = 0 then ['0', '.', '0'] else (shortest m e).chars)

end Binary64

end ConfigScript.Number
