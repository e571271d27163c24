import ConfigScript.Json
import ConfigScript.Text.Quoted
import ConfigScript.Token

/-!
# Dump — printing tokens

Tokens are printed either one a line, with the value in quotes, or as an array of objects.  A token
may hold any positions, and one with a number in it that is too long is not printed.  Where all
positions are those of a text no number is (`dump_eq_ok`), and `print` prints them.
-/

namespace ConfigScript

/-- The forms in which tokens are printed. -/
inductive Format where
  | text
  | json
deriving DecidableEq, Inhabited

namespace Format

/-- The formats in the order in which they are offered. -/
def all : List Format := [text, json]

/-- The name of a format. -/
def name : Format → String
  | text => "text"
  | json => "json"

/-- The format that goes by a name. -/
def ofName? (s : String) : Option Format := all.find? (·.name == s)

@[simp] theorem ofName?_name (f : Format) : ofName? f.name = some f := by cases f <;> rfl

end Format

namespace Token

/-- From where to where, the kind, the value in quotes, and the message if the token is faulty. -/
def spelling (t : Token) : String :=
  t.start.spelling ++ "-" ++ t.stop.spelling ++ " " ++ t.kind.label ++ " " ++ Text.quoted t.value
    ++ (match t.message? with
        | some m => " error: " ++ m
        | none => "")

/-- The numbers in a token. -/
def numbers (t : Token) : List Int := t.start.numbers ++ t.stop.numbers

/-- **A token in one line**, if its numbers can be written. -/
def line (t : Token) : Except Number.TooLong String := Number.checked t.numbers t.spelling

/-- A position as a pair of numbers. -/
def positionJson (p : Position) : Json := .arr [.int p.line, .int p.column]

/-- **A token as an object**; `error` is the message or null. -/
def toJson (t : Token) : Json :=
  .obj [("kind", .str t.kind.name), ("value", .str t.value), ("start", positionJson t.start),
    ("end", positionJson t.stop),
    ("error", match t.message? with
      | some m => .str m
      | none => .null)]

end Token

/-! ## Lists of tokens -/

/-- Tokens one a line. -/
def dumpText (ts : List Token) : Except Number.TooLong String := do
  let lines ← ts.mapM Token.line
  return String.join (lines.map (· ++ "\n"))

/-- Tokens as an array. -/
def dumpJson (ts : List Token) : Except Number.TooLong String := do
  let text ← (Json.arr (ts.map Token.toJson)).text
  return text ++ "\n"

/-- **Prints tokens** in the given format, if their numbers can be written. -/
def dump : Format → List Token → Except Number.TooLong String
  | .text => dumpText
  | .json => dumpJson

/-! ## What is printed -/

/-- The lines of tokens. -/
def printText (ts : List Token) : String := String.join (ts.map fun t => t.spelling ++ "\n")

/-- The array of tokens. -/
def printJson (ts : List Token) : String :=
  String.ofList ((Json.arr (ts.map Token.toJson)).chars 0) ++ "\n"

/-- **What is printed of tokens**, however long their numbers are. -/
def print : Format → List Token → String
  | .text => printText
  | .json => printJson

theorem mapM_line (ts : List Token) : ts.mapM Token.line =
    if ts.all (·.numbers.all Number.isShort) then .ok (ts.map Token.spelling) else .error {} := by
  induction ts with
  | nil => rfl
  | cons t ts ih =>
    rw [List.mapM_cons, ih, Token.line, Number.checked, List.all_cons]
    cases t.numbers.all Number.isShort <;> cases ts.all (·.numbers.all Number.isShort) <;> rfl

theorem numbers_toJson (t : Token) : t.toJson.numbers = t.numbers := by
  rw [Token.toJson]
  cases t.message? <;> rfl

theorem numbersIn_map_toJson (ts : List Token) :
    Json.numbersIn (ts.map Token.toJson) = ts.flatMap Token.numbers := by
  induction ts with
  | nil => rfl
  | cons t ts ih =>
    rw [List.map_cons, Json.numbersIn, numbers_toJson, ih, List.flatMap_cons]

/-- **Tokens are printed exactly if their numbers can be written.** -/
theorem dump_eq (f : Format) (ts : List Token) :
    dump f ts = Number.checked (ts.flatMap Token.numbers) (print f ts) := by
  cases f with
  | text =>
    rw [dump, dumpText, mapM_line, Number.checked, List.all_flatMap]
    split
    · have hlines : (ts.map Token.spelling).map (· ++ "\n") = ts.map fun t => t.spelling ++ "\n" :=
        List.map_map
      exact congrArg (fun lines => Except.ok (String.join lines)) hlines
    · rfl
  | json =>
    rw [dump, dumpJson, Json.text, Json.numbers, numbersIn_map_toJson, Number.checked,
      Number.checked]
    split <;> rfl

end ConfigScript
