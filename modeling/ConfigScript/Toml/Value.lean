import ConfigScript.Number.Binary64

/-!
# Toml/Value — the values of a settings file

Texts, numbers, booleans, days and times, arrays and tables.  A table keeps its fields in the order
in which they were first written; `Table.put` changes a field where it stands or adds it at the end,
and `get?_put` says that a field put is the field found.
-/

namespace ConfigScript.Toml

/-- A day: year, month and day of the month. -/
structure Date where
  year : Nat
  month : Nat
  day : Nat
deriving DecidableEq

namespace Date

/-- Whether a year has a leap day. -/
def isLeap (year : Nat) : Bool := year % 4 == 0 && (year % 100 != 0 || year % 400 == 0)

/-- How many days a month has. -/
def daysIn (year month : Nat) : Nat :=
  match month with
  | 2 => if isLeap year then 29 else 28
  | 4 | 6 | 9 | 11 => 30
  | _ => 31

/-- **Whether the calendar has the day.** -/
def isValid (d : Date) : Bool :=
  1 ≤ d.year && 1 ≤ d.month && d.month ≤ 12 && 1 ≤ d.day && d.day ≤ daysIn d.year d.month

end Date

/-- A time of day, down to the microsecond. -/
structure Clock where
  hour : Nat
  minute : Nat
  second : Nat
  micro : Nat
deriving DecidableEq

/-- **A value of a settings file.**  The offset of a moment from universal time is in minutes; a
moment without one is a local time. -/
inductive Value where
  | text (s : String)
  | integer (n : Int)
  | float (x : Number.Binary64)
  | boolean (b : Bool)
  | date (d : Date)
  | clock (t : Clock)
  | moment (d : Date) (t : Clock) (offset? : Option Int)
  | array (items : List Value)
  | table (fields : List (String × Value))
deriving Inhabited

/-- **A table**: its fields in the order in which they were first written. -/
abbrev Table : Type := List (String × Value)

namespace Table

/-- The value of a field. -/
def get? (t : Table) (key : String) : Option Value := t.lookup key

/-- **Writes a field**: where it stands, or at the end if it is new. -/
def put (key : String) (v : Value) : Table → Table
  | [] => [(key, v)]
  | (k, w) :: t => if k = key then (k, v) :: t else (k, w) :: put key v t

/-- **The field put is the field found.** -/
@[simp] theorem get?_put (key : String) (v : Value) (t : Table) :
    get? (put key v t) key = some v := by
  unfold get?
  induction t with
  | nil => simp [put]
  | cons f t ih =>
    obtain ⟨k, w⟩ := f
    by_cases h : k = key
    · subst h; simp [put]
    · have hb : (key == k) = false := by simpa using fun e => h e.symm
      simp [put, h, List.lookup_cons, hb, ih]

/-- **All other fields stay.** -/
theorem get?_put_of_ne {key other : String} (h : other ≠ key) (v : Value) (t : Table) :
    get? (put key v t) other = get? t other := by
  unfold get?
  have hk : (other == key) = false := by simpa using h
  induction t with
  | nil => simp [put, List.lookup_cons, hk]
  | cons f t ih =>
    obtain ⟨k, w⟩ := f
    by_cases hc : k = key
    · subst hc; simp [put, List.lookup_cons, hk]
    · simp only [put, hc, if_false, List.lookup_cons, ih]

/-- Writes a field that must be new. -/
def add? (key : String) (v : Value) (t : Table) : Option Table :=
  if (t.get? key).isSome then none else some (t.put key v)

end Table

end ConfigScript.Toml
