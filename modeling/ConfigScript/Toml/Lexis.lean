import ConfigScript.Text.Hex

/-!
# Toml/Lexis — gaps, comments, quoted texts and keys

A rule reads something from the front of a text and leaves the rest, or meets a flaw.  A text that
breaks one rule may follow another, while a number that is too long is a flaw under every rule.
`Rule.iterate` takes step after step for as long as a rule says that there is another.
-/

namespace ConfigScript.Toml

/-! ## Rules -/

/-- **Why a text is not read.** -/
inductive Flaw where
  /-- the text breaks the grammar, or a statement clashes with one before it -/
  | malformed
  /-- a whole number has so many decimal digits, which are too many -/
  | tooManyDigits (count : Nat)
deriving DecidableEq

/-- What breaks one rule may follow another. -/
instance : Alternative (Except Flaw) where
  failure := .error .malformed
  orElse
    | .error .malformed, other => other ()
    | found, _ => found

/-- **A rule of the grammar**: what it reads from the front of a text, and the rest, or the flaw
that it meets.  The number is the most steps that a loop may take; it lies beyond the length of the
text. -/
abbrev Rule (α : Type) : Type := ReaderT Nat (StateT (List Char) (Except Flaw)) α

namespace Rule

/-- The rule that a reader of characters stands for. -/
def ofReader {α : Type} (read : List Char → Option (α × List Char)) : Rule α := fun _ cs =>
  match read cs with
  | some found => .ok found
  | none => .error .malformed

/-- What must be there. -/
def require {α : Type} : Option α → Rule α
  | some a => pure a
  | none => failure

/-- Skips the characters of a class. -/
def skip (p : Char → Bool) : Rule Unit := modify (·.dropWhile p)

/-- The characters of a class in front. -/
def span (p : Char → Bool) : Rule (List Char) :=
  ofReader fun cs => some (cs.takeWhile p, cs.dropWhile p)

/-- Reads `s`, which stands for `a`. -/
def word {α : Type} (s : List Char) (a : α) : Rule α :=
  ofReader fun cs => (s.isPrefixOf? cs).map (a, ·)

/-- Reads `s`. -/
def expect (s : List Char) : Rule Unit := word s ()

/-- Whether the text goes on with `s`, which is read then. -/
def accept (s : List Char) : Rule Bool := word s true <|> pure false

/-- Whether there is no text left. -/
def atEnd : Rule Bool := return (← get).isEmpty

/-- Takes steps for as long as `more` says that there is another, but no more than so many. -/
def steps {σ : Type} (more : Rule Bool) (step : σ → Rule σ) : Nat → σ → Rule σ
  | 0, _ => failure
  | limit + 1, s => do
    if ← more then steps more step limit (← step s) else return s

/-- **Takes steps** for as long as `more` says that there is another. -/
def iterate {σ : Type} (more : Rule Bool) (step : σ → Rule σ) (s : σ) : Rule σ := do
  steps more step (← read) s

/-- Reads an item and then others for as long as `more` says that there is another. -/
def sequenceFrom {α : Type} (more : Rule Bool) (item : Rule α) : Rule (List α) := do
  let found ← iterate more (fun found => return (← item) :: found) [← item]
  return found.reverse

/-- What a rule finds in a whole text. -/
def run {α : Type} (r : Rule α) (cs : List Char) : Except Flaw α :=
  (ReaderT.run r (cs.length + 1) |>.run cs).map Prod.fst

end Rule

/-! ## Gaps and comments -/

/-- A blank inside a line. -/
def isGap (c : Char) : Bool := c = ' ' || c = '\t'

/-- A blank or the end of a line. -/
def isFiller (c : Char) : Bool := isGap c || c = '\n'

/-- A control character other than the tab, which nothing on one line may hold. -/
def isControl (c : Char) : Bool := c.toNat < 0x20 && c != '\t' || c.toNat = 0x7f

/-- A control character that nothing on several lines may hold. -/
def isInnerControl (c : Char) : Bool := isControl c && c != '\n'

/-- What stands behind the sign of a comment: the rest of the line. -/
def commentText : Rule Unit := do
  let line ← Rule.span (· != '\n')
  if line.any isControl then failure

/-- **A comment**, if there is one. -/
def comment : Rule Unit := do
  if ← Rule.accept ['#'] then commentText

/-- Blanks, ends of lines and comments. -/
def filler : Rule Unit := do
  let more : Rule Bool := do
    Rule.skip isFiller
    Rule.accept ['#']
  Rule.iterate more (fun _ => commentText) ()

/-! ## Quoted texts -/

/-- **The text up to `stop`**, which is read as well; an illegal character may not stand before it.
-/
def upTo (stop : List Char) (illegal : Char → Bool) : List Char → Option (List Char × List Char)
  | [] => none
  | c :: cs =>
    match stop.isPrefixOf? (c :: cs) with
    | some rest => some ([], rest)
    | none =>
      if illegal c then none else (upTo stop illegal cs).map fun (s, rest) => (c :: s, rest)

/-- The character that so many digits in base sixteen name. -/
def numbered (digits : Nat) (cs : List Char) : Option (Char × List Char) :=
  match Text.hexNumber? (cs.take digits) with
  | none => none
  | some n =>
    if digits ≤ cs.length ∧ n.isValidChar then some (Char.ofNat n, cs.drop digits) else none

/-- What a letter behind a backslash stands for. -/
def escapeLetter? (c : Char) : Option Char :=
  [('b', '\x08'), ('t', '\t'), ('n', '\n'), ('f', '\x0c'), ('r', '\r'), ('"', '"'),
    ('\\', '\\')].lookup c

/-- **What stands behind a backslash**: a letter, or a character by number. -/
def escape : List Char → Option (Char × List Char)
  | [] => none
  | c :: cs =>
    if c = 'u' then numbered 4 cs
    else if c = 'U' then numbered 8 cs
    else (escapeLetter? c).map (·, cs)

theorem length_le_of_numbered {digits : Nat} {cs rest : List Char} {c : Char}
    (h : numbered digits cs = some (c, rest)) : rest.length ≤ cs.length := by
  unfold numbered at h
  split at h
  · exact absurd h (by simp)
  · split at h
    · cases h; simp
    · exact absurd h (by simp)

/-- **An escape is read to its end**: less is left. -/
theorem length_le_of_escape {cs rest : List Char} {c : Char} (h : escape cs = some (c, rest)) :
    rest.length ≤ cs.length := by
  unfold escape at h
  split at h
  · exact absurd h (by simp)
  · split at h
    · exact Nat.le_succ_of_le (length_le_of_numbered h)
    · split at h
      · exact Nat.le_succ_of_le (length_le_of_numbered h)
      · obtain ⟨_, _, he⟩ := Option.map_eq_some_iff.1 h
        cases he; simp

theorem length_dropWhile_le (p : Char → Bool) (cs : List Char) :
    (cs.dropWhile p).length ≤ cs.length :=
  (List.dropWhile_suffix p).length_le

set_option linter.unusedVariables false in
/-- **The text between double quotes** on one line or on several, with the closing quotes.  On
several lines a backslash at the end of a line takes away all blanks and ends of lines behind it. -/
def basic (inner : Bool) (cs : List Char) : Option (List Char × List Char) :=
  let close : List Char := if inner then ['"', '"', '"'] else ['"']
  match cs with
  | [] => none
  | c :: cs =>
    match close.isPrefixOf? (c :: cs) with
    | some rest => some ([], rest)
    | none =>
      if c = '\\' then
        if inner ∧ (cs.dropWhile isGap).head? = some '\n' then basic inner (cs.dropWhile isFiller)
        else
          match he : escape cs with
          | none => none
          | some (d, rest) => (basic inner rest).map fun (s, rest) => (d :: s, rest)
      else if (if inner then isInnerControl c else isControl c) then none
      else (basic inner cs).map fun (s, rest) => (c :: s, rest)
termination_by cs.length
decreasing_by
  · exact Nat.lt_succ_of_le (length_dropWhile_le isFiller cs)
  · exact Nat.lt_succ_of_le (length_le_of_escape he)
  · exact Nat.lt_succ_self _

/-- A text on one line behind its opening quote. -/
def oneLine (quote : Char) : Rule String := do
  let body := Rule.ofReader (if quote = '"' then basic false else upTo ['\''] isControl)
  return String.ofList (← body)

/-- A text on several lines behind its opening quotes.  A line end right behind them is left out,
and up to two quotes right behind the closing ones belong to the text. -/
def severalLines (quote : Char) : Rule String := do
  let _ ← Rule.accept ['\n']
  let text ← Rule.ofReader
    (if quote = '"' then basic true else upTo ['\'', '\'', '\''] isInnerControl)
  if ← Rule.accept [quote, quote] then return String.ofList (text ++ [quote, quote])
  if ← Rule.accept [quote] then return String.ofList (text ++ [quote])
  return String.ofList text

/-- **A quoted text**; three quotes open one on several lines. -/
def quotedText (quote : Char) : Rule String := do
  if ← Rule.accept [quote, quote, quote] then severalLines quote
  else
    Rule.expect [quote]
    oneLine quote

/-! ## Keys -/

/-- A path of keys, the outermost first. -/
abbrev KeyPath : Type := List String

/-- A character of a key without quotes. -/
def isBare (c : Char) : Bool := c.isAlphanum || c = '-' || c = '_'

/-- One part of a key: bare, or a quoted text on one line. -/
def keyPart : Rule String := do
  let bare ← Rule.span isBare
  if !bare.isEmpty then return String.ofList bare
  if ← Rule.accept ['\''] then oneLine '\''
  else
    Rule.expect ['"']
    oneLine '"'

/-- **A key**: parts with points between them. -/
def key : Rule KeyPath :=
  let more : Rule Bool := do
    Rule.skip isGap
    let point ← Rule.accept ['.']
    Rule.skip isGap
    return point
  Rule.sequenceFrom more keyPart

end ConfigScript.Toml
