/-!
# Text/Lines — cutting a text at its line ends

Ten characters end a line, and a carriage return with a line feed behind it ends one line, not two.
A text that ends in a line end has no empty line behind it.  `flatten_lines` says that nothing is
lost: the lines, each with its end, make up the text.
-/

namespace ConfigScript.Text

/-- The characters that end a line. -/
def isLineEnd (c : Char) : Bool :=
  let n := c.toNat
  (0x0a ≤ n && n ≤ 0x0d) || (0x1c ≤ n && n ≤ 0x1e) || n == 0x85 || n == 0x2028 || n == 0x2029

/-- Puts a character in front of the first line. -/
def pushFront (c : Char) : List (List Char) → List (List Char)
  | [] => [[c]]
  | l :: ls => (c :: l) :: ls

/-- **The lines of a text**, each with the line end that closes it. -/
def lines : List Char → List (List Char)
  | [] => []
  | '\r' :: '\n' :: cs => ['\r', '\n'] :: lines cs
  | c :: cs => if isLineEnd c then [c] :: lines cs else pushFront c (lines cs)

theorem flatten_pushFront (c : Char) (ls : List (List Char)) :
    (pushFront c ls).flatten = c :: ls.flatten := by
  cases ls <;> rfl

/-- **Nothing is lost**: the lines with their ends make up the text. -/
theorem flatten_lines (cs : List Char) : (lines cs).flatten = cs := by
  fun_induction lines cs with
  | case1 => rfl
  | case2 cs ih => simp [ih]
  | case3 c cs _ _ ih => simp [ih]
  | case4 c cs _ _ ih => rw [flatten_pushFront, ih]

/-- Takes every newline from the end of a line, then every carriage return. -/
def withoutEnd (l : List Char) : List Char :=
  ((l.reverse.dropWhile (· == '\n')).dropWhile (· == '\r')).reverse

end ConfigScript.Text
