import ConfigScript.Toml.Lexis
import ConfigScript.Toml.Value

/-!
# Toml/Scalar — numbers, days and times

Whole numbers are decimal, or have a base in front; a decimal one must not be too long.  A fraction
or an exponent makes a number binary.  A day has its three parts with dashes between them and may be
followed by a time of day, which may be followed by an offset.
-/

namespace ConfigScript.Toml

/-! ## Digits -/

/-- The number that decimal digits spell. -/
def decimalValue (ds : List Char) : Nat :=
  ds.foldl (fun n d => 10 * n + (d.toNat - '0'.toNat)) 0

/-- The number that digits of a base spell. -/
def basedValue (base : Nat) (ds : List Char) : Nat :=
  ds.foldl (fun n d => base * n + (Text.hexValue? d).getD 0) 0

/-- The digits behind a digit; one low line may stand before each. -/
def moreDigits (p : Char → Bool) : List Char → List Char × List Char
  | '_' :: c :: cs =>
    if p c then
      let (ds, rest) := moreDigits p cs
      (c :: ds, rest)
    else ([], '_' :: c :: cs)
  | c :: cs =>
    if p c then
      let (ds, rest) := moreDigits p cs
      (c :: ds, rest)
    else ([], c :: cs)
  | [] => ([], [])

/-- **Digits in a row**, at least one, without the low lines between them. -/
def digits (p : Char → Bool) : Rule (List Char) := Rule.ofReader fun
  | [] => none
  | c :: cs =>
    if p c then
      let (ds, rest) := moreDigits p cs
      some (c :: ds, rest)
    else none

/-- A number of exactly so many digits that lies between two bounds. -/
def field (width lo hi : Nat) : Rule Nat := Rule.ofReader fun cs =>
  let ds := cs.take width
  let n := decimalValue ds
  if ds.length = width ∧ ds.all Char.isDigit ∧ lo ≤ n ∧ n ≤ hi then some (n, cs.drop width)
  else none

/-! ## Numbers -/

/-- A sign; whether it is a minus. -/
def sign : Rule Bool := do
  if ← Rule.accept ['-'] then return true
  let _ ← Rule.accept ['+']
  return false

/-- A whole number with a base in front. -/
def based : Rule Value := do
  let hex := fun c => (Text.hexValue? c).isSome
  let octal := fun c => decide ('0' ≤ c ∧ c ≤ '7')
  let binary := fun c => decide (c = '0' ∨ c = '1')
  let base ← Rule.word ['0', 'x'] 16 <|> Rule.word ['0', 'o'] 8 <|> Rule.word ['0', 'b'] 2
  let ds ← digits (if base = 16 then hex else if base = 8 then octal else binary)
  return .integer (basedValue base ds)

/-- The digits before the point: a zero alone, or digits of which the first is no zero. -/
def wholeDigits : Rule (List Char) := do
  if ← Rule.accept ['0'] then return ['0'] else digits Char.isDigit

/-- The digits behind a point. -/
def fraction : Rule (List Char) := do
  Rule.expect ['.']
  digits Char.isDigit

/-- An exponent. -/
def exponent : Rule Int := do
  Rule.word ['e'] () <|> Rule.expect ['E']
  let negative ← sign
  let n : Int := decimalValue (← digits Char.isDigit)
  return if negative then -n else n

/-- The whole number that decimal digits spell, unless they are too many. -/
def wholeNumber (ds : List Char) : Rule Int :=
  if ds.length ≤ Number.digitLimit then return decimalValue ds
  else throw (.tooManyDigits ds.length)

/-- **A decimal number.**  Without a fraction and an exponent it is a whole number. -/
def decimal : Rule Value := do
  let negative ← sign
  let whole ← wholeDigits
  let fraction? ← optional fraction
  let exponent? ← optional exponent
  match fraction?, exponent? with
  | none, none =>
    let n ← wholeNumber whole
    return .integer (if negative then -n else n)
  | _, _ =>
    let behind := fraction?.getD []
    return .float (.ofDecimal negative
      ⟨decimalValue (whole ++ behind), exponent?.getD 0 - behind.length⟩)

/-- A number that is not finite. -/
def unbounded : Rule Value := do
  let negative ← sign
  Rule.word ['i', 'n', 'f'] (.float (.infinite negative)) <|>
    Rule.word ['n', 'a', 'n'] (.float .nan)

/-! ## Days and times -/

/-- A day: year, month and day of the month. -/
def date : Rule Date := do
  let year ← field 4 0 9999
  Rule.expect ['-']
  let month ← field 2 1 12
  Rule.expect ['-']
  let day ← field 2 1 31
  return ⟨year, month, day⟩

/-- The part of a second behind its point, in microseconds; digits beyond the sixth do not count. -/
def micros : Rule Nat := do
  Rule.expect ['.']
  let ds ← Rule.span Char.isDigit
  if ds.isEmpty then failure
  return decimalValue (ds.take 6) * Number.tenTo (6 - ds.length)

/-- A time of day. -/
def clock : Rule Clock := do
  let hour ← field 2 0 23
  Rule.expect [':']
  let minute ← field 2 0 59
  Rule.expect [':']
  let second ← field 2 0 59
  let micro? ← optional micros
  return ⟨hour, minute, second, micro?.getD 0⟩

/-- An offset from universal time in minutes. -/
def offset : Rule Int := do
  let negative ← Rule.word ['-'] true <|> Rule.word ['+'] false
  let hours ← field 2 0 23
  Rule.expect [':']
  let minutes ← field 2 0 59
  let n : Int := 60 * hours + minutes
  return if negative then -n else n

/-- The offset of universal time from itself. -/
def zulu : Rule Int := Rule.word ['Z'] 0 <|> Rule.word ['z'] 0

/-- A time of day behind a day, with its offset. -/
def clockBehind : Rule (Clock × Option Int) := do
  Rule.word ['T'] () <|> Rule.word ['t'] () <|> Rule.expect [' ']
  let t ← clock
  let offset? ← optional (zulu <|> offset)
  return (t, offset?)

/-- **A day or a moment** that the calendar has. -/
def moment : Rule Value := do
  let d ← date
  let clock? ← optional clockBehind
  if !d.isValid then failure
  match clock? with
  | none => return .date d
  | some (t, offset?) => return .moment d t offset?

/-- **A value that holds no other**, quoted texts aside. -/
def scalar : Rule Value :=
  Rule.word ['t', 'r', 'u', 'e'] (.boolean true)
    <|> Rule.word ['f', 'a', 'l', 's', 'e'] (.boolean false)
    <|> moment <|> Value.clock <$> clock <|> based <|> decimal <|> unbounded

end ConfigScript.Toml
