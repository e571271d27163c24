import ConfigScript.Position

/-!
# Source/LineIndex — from offsets to positions

A line index holds the offset at which each line of a text starts.  It grows with the text, chunk by
chunk, and finds the position of an offset by a binary search for the last line that starts at or
before it.
-/

namespace ConfigScript.Source

/-- The offsets behind the newlines of a text that itself starts at `base`. -/
def startsFrom (base : Nat) : List Char → List Nat
  | [] => []
  | c :: cs => if c = '\n' then (base + 1) :: startsFrom (base + 1) cs else startsFrom (base + 1) cs

theorem startsFrom_append (base : Nat) (cs ds : List Char) :
    startsFrom base (cs ++ ds) = startsFrom base cs ++ startsFrom (base + cs.length) ds := by
  induction cs generalizing base with
  | nil => simp [startsFrom]
  | cons c cs ih =>
    have h : base + 1 + cs.length = base + (cs.length + 1) := by omega
    by_cases hc : c = '\n' <;> simp [startsFrom, hc, ih, h]

/-- **The offsets at which the lines of a text start**, the first line included. -/
structure LineIndex where
  starts : Array Nat
deriving Inhabited

namespace LineIndex

/-- The index of the empty text: one line. -/
def empty : LineIndex := ⟨#[0]⟩

/-- The index of a text with a chunk put behind it; `base` is where the chunk starts. -/
def extend (ix : LineIndex) (base : Nat) (chunk : List Char) : LineIndex :=
  ⟨ix.starts ++ (startsFrom base chunk).toArray⟩

@[simp] theorem toList_starts_extend (ix : LineIndex) (base : Nat) (chunk : List Char) :
    (ix.extend base chunk).starts.toList = ix.starts.toList ++ startsFrom base chunk := by
  simp [extend]

/-- **Binary search for an upper bound**: how many starts lie at or before `offset`, if all before
`lo` do and none from `hi` on does. -/
def rankBetween (starts : Array Nat) (offset lo hi : Nat) : Nat :=
  if lo < hi then
    let mid := lo + (hi - lo) / 2
    if offset < starts.getD mid 0 then rankBetween starts offset lo mid
    else rankBetween starts offset (mid + 1) hi
  else lo
termination_by hi - lo

/-- How many lines start at or before an offset. -/
def rank (ix : LineIndex) (offset : Nat) : Nat := rankBetween ix.starts offset 0 ix.starts.size

/-- **The position of an offset**: the last line that starts at or before it, and the distance from
the start of that line. -/
def position (ix : LineIndex) (offset : Nat) : Position :=
  let line := ix.rank offset
  ⟨line, (offset : Int) - ix.starts.getD (line - 1) 0 + 1⟩

end LineIndex

end ConfigScript.Source
