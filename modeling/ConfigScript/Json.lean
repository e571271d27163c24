import ConfigScript.Number.Decimal
import ConfigScript.Text.Hex
import ConfigScript.Text.Utf16

/-!
# Json — values of the data format and their indented form

The indented form gives every item of an array and every member of an object its own line, two
blanks further in than the brackets around it; brackets with nothing in them stay together.  Only
characters from the blank to the tilde are written as they are, so the text is plain ASCII.  A value
with a number in it that is too long has no such form.
-/

namespace ConfigScript

/-- **A value of the format**, as far as it is written here. -/
inductive Json where
  | null
  | int (n : Int)
  | str (s : String)
  | arr (items : List Json)
  | obj (members : List (String × Json))
deriving Inhabited

namespace Json

/-- A unit of sixteen bits by its number. -/
def escapeUnit (n : Nat) : List Char := '\\' :: 'u' :: Text.hexPadded 4 n

/-- A character inside a string: the quote and the backslash behind a backslash, five controls by a
letter, whatever is not plain ASCII by its units. -/
def escapeChar (c : Char) : List Char :=
  if c = '"' ∨ c = '\\' then ['\\', c]
  else if c = '\n' then ['\\', 'n']
  else if c = '\r' then ['\\', 'r']
  else if c = '\t' then ['\\', 't']
  else if c = '\x08' then ['\\', 'b']
  else if c = '\x0c' then ['\\', 'f']
  else if 0x20 ≤ c.toNat ∧ c.toNat ≤ 0x7e then [c]
  else (Text.utf16Units c).flatMap escapeUnit

/-- A string in quotes. -/
def stringChars (s : String) : List Char := '"' :: s.toList.flatMap escapeChar ++ ['"']

/-- The end of a line and the indentation of the next. -/
def breakLine (depth : Nat) : List Char := '\n' :: List.replicate (2 * depth) ' '

mutual

/-- **The indented form of a value** that stands `depth` levels deep. -/
def chars (depth : Nat) : Json → List Char
  | null => ['n', 'u', 'l', 'l']
  | int n => (toString n).toList
  | str s => stringChars s
  | arr [] => ['[', ']']
  | arr (x :: xs) =>
    '[' :: breakLine (depth + 1) ++ x.chars (depth + 1) ++ moreItems (depth + 1) xs
      ++ breakLine depth ++ [']']
  | obj [] => ['\x7b', '\x7d']
  | obj ((key, x) :: ms) =>
    '\x7b' :: breakLine (depth + 1) ++ stringChars key ++ [':', ' '] ++ x.chars (depth + 1)
      ++ moreMembers (depth + 1) ms ++ breakLine depth ++ ['\x7d']

/-- The items behind the first. -/
def moreItems (depth : Nat) : List Json → List Char
  | [] => []
  | x :: xs => ',' :: breakLine depth ++ x.chars depth ++ moreItems depth xs

/-- The members behind the first. -/
def moreMembers (depth : Nat) : List (String × Json) → List Char
  | [] => []
  | (key, x) :: ms =>
    ',' :: breakLine depth ++ stringChars key ++ [':', ' '] ++ x.chars depth
      ++ moreMembers depth ms

end

mutual

/-- The numbers in a value. -/
def numbers : Json → List Int
  | null | str _ => []
  | int n => [n]
  | arr items => numbersIn items
  | obj members => numbersOf members

/-- The numbers in the items of an array. -/
def numbersIn : List Json → List Int
  | [] => []
  | x :: xs => x.numbers ++ numbersIn xs

/-- The numbers in the members of an object. -/
def numbersOf : List (String × Json) → List Int
  | [] => []
  | (_, x) :: ms => x.numbers ++ numbersOf ms

end

/-- **The indented form of a value**, if its numbers can be written. -/
def text (x : Json) : Except Number.TooLong String :=
  Number.checked x.numbers (String.ofList (x.chars 0))

end Json

end ConfigScript
