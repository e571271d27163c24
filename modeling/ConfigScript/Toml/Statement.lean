import ConfigScript.Toml.Nest
import ConfigScript.Toml.Scalar

/-!
# Toml/Statement — values and the lines of a settings file

A file is a row of statements, one a line at most.  `line` reads one; what it does to the tables is
left to `Toml/Document`.
-/

namespace ConfigScript.Toml

/-- **A statement**: the head of a table, the head of a further table in a row of tables, or a value
for a key. -/
inductive Statement where
  | table (path : KeyPath)
  | element (path : KeyPath)
  | assign (path : KeyPath) (v : Value)

/-! ## Values -/

/-- A key with its value, which a rule reads. -/
def pair (value : Rule Value) : Rule (KeyPath × Value) := do
  let path ← key
  Rule.expect ['=']
  Rule.skip isGap
  return (path, ← value)

/-- The items of an array behind its opening bracket, which a rule reads.  They may stand on lines
of their own, with a comma behind the last. -/
def arrayItems (value : Rule Value) : Rule (List Value) := do
  let more : Rule Bool := do
    filler
    if ← Rule.accept [']'] then return false
    Rule.expect [',']
    filler
    return !(← Rule.accept [']'])
  filler
  if ← Rule.accept [']'] then return [] else Rule.sequenceFrom more value

/-- The fields of a table on one line behind its opening brace, whose values a rule reads.  Each is
added before the next is read. -/
def inlineFields (value : Rule Value) : Rule Table := do
  let more : Rule Bool := do
    Rule.skip isGap
    if ← Rule.accept ['\x7d'] then return false
    Rule.expect [',']
    Rule.skip isGap
    return true
  let step (d : InlineDraft) : Rule InlineDraft := do
    let (path, v) ← pair value
    Rule.require (d.add path v)
  Rule.skip isGap
  if ← Rule.accept ['\x7d'] then return []
  let d ← Rule.iterate more step (← step {})
  return d.fields

/-- **A value** with so many brackets at most around what it holds. -/
def valueWithin : Nat → Rule Value
  | 0 => failure
  | depth + 1 => do
    match (← get).head? with
    | some '"' => return .text (← quotedText '"')
    | some '\'' => return .text (← quotedText '\'')
    | some '[' =>
      Rule.expect ['[']
      return .array (← arrayItems (valueWithin depth))
    | some '\x7b' =>
      Rule.expect ['\x7b']
      return .table (← inlineFields (valueWithin depth))
    | _ => scalar

/-- **A value.**  No value is nested deeper than the text is long. -/
def value : Rule Value := do valueWithin (← read)

/-! ## Lines -/

/-- The head of a table. -/
def tableHead : Rule Statement := do
  Rule.expect ['[']
  let double ← Rule.accept ['[']
  Rule.skip isGap
  let path ← key
  if double then
    Rule.expect [']', ']']
    return .element path
  else
    Rule.expect [']']
    return .table path

/-- **A line**: a statement or none, a comment or none, and the end of the line or of the file. -/
def line : Rule (Option Statement) := do
  Rule.skip isGap
  let statement? ← match (← get).head? with
    | none | some '\n' | some '#' => pure none
    | some '[' => some <$> tableHead
    | some _ =>
      let (path, v) ← pair value
      pure (some (.assign path v))
  Rule.skip isGap
  comment
  if !(← Rule.atEnd) then Rule.expect ['\n']
  return statement?

end ConfigScript.Toml
