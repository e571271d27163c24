import ConfigScript.Text.Quoted
import ConfigScript.Toml.Value

/-!
# Toml/Shown — a value in a message

A value that is not accepted is shown in full: texts in quotes, numbers by their shortest digits,
arrays and tables in brackets, days and times by their parts.  It is not shown at all where a whole
number in it is too long, or where too many values stand within each other (`Value.trouble?`).
-/

namespace ConfigScript.Toml

/-- Parts in a row, with commas between them. -/
def commaSeparated (parts : List String) : String := ", ".intercalate parts

/-- The parts of a time of day; seconds and microseconds of zero are left out from the right. -/
def Clock.parts (t : Clock) : List Nat :=
  if t.micro ≠ 0 then [t.hour, t.minute, t.second, t.micro]
  else if t.second ≠ 0 then [t.hour, t.minute, t.second]
  else [t.hour, t.minute]

/-- The parts of a day. -/
def Date.parts (d : Date) : List Nat := [d.year, d.month, d.day]

/-- A kind of time with its parts. -/
def shownParts (kind : String) (parts : List String) : String :=
  "datetime." ++ kind ++ "(" ++ commaSeparated parts ++ ")"

/-- An offset from universal time, given in minutes.  One to the west is a day less and the rest of
the day in seconds. -/
def shownOffset (minutes : Int) : String :=
  if minutes = 0 then "datetime.timezone.utc"
  else
    let delta :=
      if minutes < 0 then ["days=-1", "seconds=" ++ toString (86400 + 60 * minutes)]
      else ["seconds=" ++ toString (60 * minutes)]
    shownParts "timezone" [shownParts "timedelta" delta]

namespace Value

mutual

/-- **A value in a message.** -/
def shown : Value → String
  | text s => Text.quoted s
  | integer n => toString n
  | float x => x.text
  | boolean b => if b then "True" else "False"
  | date d => shownParts "date" (d.parts.map toString)
  | clock t => shownParts "time" (t.parts.map toString)
  | moment d t offset? =>
    shownParts "datetime" (d.parts.map toString ++ t.parts.map toString
      ++ offset?.toList.map fun minutes => "tzinfo=" ++ shownOffset minutes)
  | array items => "[" ++ commaSeparated (shownItems items) ++ "]"
  | table fields => "\x7b" ++ commaSeparated (shownFields fields) ++ "\x7d"

/-- The items of an array, each shown. -/
def shownItems : List Value → List String
  | [] => []
  | v :: vs => v.shown :: shownItems vs

/-- The fields of a table, each shown. -/
def shownFields : List (String × Value) → List String
  | [] => []
  | (key, v) :: fs => (Text.quoted key ++ ": " ++ v.shown) :: shownFields fs

end

end Value

/-! ## What cannot be shown -/

/-- **Why a value is not shown.** -/
inductive Trouble where
  /-- a whole number in it is too long -/
  | tooLong
  /-- too many values stand within each other -/
  | tooDeep
deriving DecidableEq

/-- How many values stand within each other in a moment below the moment itself: an offset is shown
as a value, and holds a span of time unless it is zero. -/
def offsetDepth : Option Int → Nat
  | none => 0
  | some minutes => if minutes = 0 then 1 else 2

/-- **What keeps a value from being shown** where no more than `depth` values may stand within each
other: the first trouble from the left.  The keys of a table stand as deep as its values. -/
def Value.trouble? : Nat → Value → Option Trouble
  | 0, _ => some .tooDeep
  | depth + 1, v =>
    match v with
    | integer n => if Number.isShort n then none else some .tooLong
    | moment _ _ offset? => if offsetDepth offset? ≤ depth then none else some .tooDeep
    | array items => items.findSome? (trouble? depth)
    | table fields => fields.findSome? fun (_, v) => trouble? depth v
    | text _ | float _ | boolean _ | date _ | clock _ => none

end ConfigScript.Toml
