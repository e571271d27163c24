import ConfigScript.Number.Power

/-!
# Number/Decimal — decimal numbers and how they are written

A decimal number is a row of digits and a power of ten.  It is written positionally while its point
lies near its digits, and else with an exponent.

A whole number is read and written only as long as it has no more than so many digits; what is
written with a longer one in it is not written at all (`checked`).
-/

namespace ConfigScript.Number

/-- How many decimal digits a number has. -/
def digitCount (n : Nat) : Nat := (Nat.toDigits 10 n).length

/-! ## How long a whole number may be -/

/-- The most decimal digits with which a whole number is read or written. -/
def digitLimit : Nat := 4300

/-- **A whole number that is too long.**  Of one that was to be read it is known how many digits it
has. -/
structure TooLong where
  digits? : Option Nat := none
deriving DecidableEq

/-- What is wrong, in a sentence. -/
def TooLong.message (e : TooLong) : String :=
  let found := match e.digits? with
    | some n => ": value has " ++ toString n ++ " digits"
    | none => ""
  "Exceeds the limit (" ++ toString digitLimit ++ " digits) for integer string conversion" ++ found
    ++ "; use sys.set_int_max_str_digits() to increase the limit"

/-- Whether a whole number is short enough to be written. -/
def isShort (n : Int) : Bool := n.natAbs < tenTo digitLimit

/-- **A text with whole numbers in it**, if all of them are short enough to be written. -/
def checked (ns : List Int) (s : String) : Except TooLong String :=
  if ns.all isShort then .ok s else .error {}

theorem checked_eq_ok_iff {ns : List Int} {s x : String} :
    checked ns s = .ok x ↔ (∀ n ∈ ns, isShort n = true) ∧ s = x := by
  rw [checked, ← List.all_eq_true]
  split <;> simp [*]

/-- **A decimal number**: `digits * 10 ^ exponent`. -/
structure Decimal where
  digits : Nat
  exponent : Int
deriving DecidableEq

namespace Decimal

/-- The same number without zeros at the end of its digits. -/
def trim (d : Decimal) : Decimal :=
  let cs := Nat.toDigits 10 d.digits
  let zeros := (cs.reverse.takeWhile (· == '0')).length
  if d.digits = 0 then ⟨0, 0⟩ else ⟨d.digits / tenTo zeros, d.exponent + zeros⟩

/-- Where the point stands, counted from before the first digit. -/
def point (d : Decimal) : Int := digitCount d.digits + d.exponent

/-- An exponent with its sign and two digits at least. -/
def exponentChars (n : Int) : List Char :=
  let cs := Nat.toDigits 10 n.natAbs
  (if n < 0 then '-' else '+') :: (if cs.length < 2 then '0' :: cs else cs)

/-- **A decimal number in writing.**  While the point stands from three places before the digits to
sixteen places behind the first of them, the number is written positionally, with a digit on either
side of the point; else with an exponent behind one digit and the rest. -/
def chars (d : Decimal) : List Char :=
  let d := d.trim
  let cs := Nat.toDigits 10 d.digits
  let p := d.point
  if -4 < p ∧ p ≤ 16 then
    if p ≤ 0 then '0' :: '.' :: List.replicate (-p).toNat '0' ++ cs
    else if cs.length ≤ p.toNat then
      cs ++ List.replicate (p.toNat - cs.length) '0' ++ ['.', '0']
    else cs.take p.toNat ++ '.' :: cs.drop p.toNat
  else
    match cs with
    | [] => []
    | [c] => c :: 'e' :: exponentChars (p - 1)
    | c :: rest => c :: '.' :: rest ++ 'e' :: exponentChars (p - 1)

end Decimal

end ConfigScript.Number
