import ConfigScript.Number.Decimal

/-!
# Position — where a character stands in a text

A position is a line and a column.  `Position.after` gives the position behind a stretch of text: a
newline opens the next line, every other character moves one column on.  `line_after` says that the
line is one more than the newlines passed.

A position may hold any numbers, and is put in writing only if they are not too long.  Those of a
position in a text never are, as long as the text has fewer than `10 ^ 4300` characters
(`isShort_after`); where only such positions occur `spelling` is used.
-/

namespace ConfigScript

/-- **A place in a text**: line and column, both counted from one where a text is read. -/
structure Position where
  line : Int
  column : Int
deriving DecidableEq, Inhabited, Hashable

namespace Position

/-- The position of the first character of a text. -/
def first : Position := ⟨1, 1⟩

/-- The position behind a character that stands at `p`. -/
def next (p : Position) (c : Char) : Position :=
  if c = '\n' then ⟨p.line + 1, 1⟩ else ⟨p.line, p.column + 1⟩

/-- **The position behind a stretch of text** that starts at the first position. -/
def after (cs : List Char) : Position := cs.foldl next first

/-- The numbers of a position. -/
def numbers (p : Position) : List Int := [p.line, p.column]

/-- Line, colon, column. -/
def spelling (p : Position) : String := toString p.line ++ ":" ++ toString p.column

/-- **A position in writing**, if its numbers can be written. -/
def text (p : Position) : Except Number.TooLong String := Number.checked p.numbers p.spelling

/-! ## Reading order -/

/-- **Reading order**: by line, and on one line by column. -/
instance : LT Position := ⟨fun p q => p.line < q.line ∨ p.line = q.line ∧ p.column < q.column⟩

instance : LE Position := ⟨fun p q => p < q ∨ p = q⟩

theorem lt_def {p q : Position} :
    p < q ↔ p.line < q.line ∨ p.line = q.line ∧ p.column < q.column := Iff.rfl

theorem le_def {p q : Position} : p ≤ q ↔ p < q ∨ p = q := Iff.rfl

instance (p q : Position) : Decidable (p < q) :=
  inferInstanceAs (Decidable (p.line < q.line ∨ p.line = q.line ∧ p.column < q.column))

instance (p q : Position) : Decidable (p ≤ q) :=
  inferInstanceAs (Decidable (p < q ∨ p = q))

/-- The positions of a list in reading order. -/
def sorted (ps : List Position) : List Position := ps.mergeSort (fun p q => decide (p ≤ q))

/-! ## The position behind a text -/

@[simp] theorem after_nil : after [] = first := rfl

@[simp] theorem after_concat (cs : List Char) (c : Char) :
    after (cs ++ [c]) = (after cs).next c := by
  simp [after]

theorem line_foldl_next (cs : List Char) (p : Position) :
    (cs.foldl next p).line = p.line + cs.count '\n' := by
  induction cs generalizing p with
  | nil => simp
  | cons c cs ih =>
    rw [List.foldl_cons, ih, List.count_cons]
    by_cases h : c = '\n'
    · simp [next, h]; omega
    · simp [next, h]

/-- **The line behind a text** is one more than its newlines. -/
theorem line_after (cs : List Char) : (after cs).line = 1 + cs.count '\n' :=
  line_foldl_next cs first

end Position

end ConfigScript
