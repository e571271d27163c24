import ConfigScript.Text.Newline
import ConfigScript.Toml.Statement

/-!
# Toml/Document — what the statements of a file make

Statements work on the table of the file one after the other.  A table may be opened once, and only
by a head or only by dotted keys; what was written as one value cannot be added to.
-/

namespace ConfigScript.Toml

/-- **A file half read**: its table, the path of the head in force, the paths that cannot be opened
again, those that dotted keys have opened below this head, and the nests written as one value. -/
structure Draft where
  root : Table := []
  head : KeyPath := []
  opened : List KeyPath := []
  dotted : List KeyPath := []
  closed : List KeyPath := []

namespace Draft

/-- A new head: what dotted keys have opened cannot be opened again. -/
def settle (d : Draft) : Draft := { d with opened := d.dotted ++ d.opened, dotted := [] }

/-- Opens a table, which was not opened before. -/
def openTable (d : Draft) (path : KeyPath) : Option Draft := do
  if path ∈ d.opened ∨ reaches d.closed path then none
  let root ← within true path some d.root
  return { d with root, head := path, opened := path :: d.opened }

/-- Opens a further table in a row of tables, which forgets what was below the last one. -/
def openElement (d : Draft) (path : KeyPath) : Option Draft := do
  if reaches d.closed path then none
  let last ← path.getLast?
  let root ← within true path.dropLast (growRow last) d.root
  let beside (other : KeyPath) : Bool := !path.isPrefixOf other
  return { d with
    root
    head := path
    opened := path :: d.opened.filter beside
    closed := d.closed.filter beside }

/-- The paths of the tables on the way to a key, the table of the head left out. -/
def waypoints (head path : KeyPath) : List KeyPath :=
  (List.range' 1 (path.length - 1)).map fun n => head ++ path.take n

/-- Gives a key its value. -/
def assign (d : Draft) (path : KeyPath) (v : Value) : Option Draft := do
  let parent := d.head ++ path.dropLast
  let way := waypoints d.head path
  if way.any (· ∈ d.opened) ∨ reaches d.closed parent then none
  let last ← path.getLast?
  let root ← within true parent (Table.add? last v) d.root
  return { d with
    root
    dotted := way ++ d.dotted
    closed := if v.isNest then (d.head ++ path) :: d.closed else d.closed }

/-- **What a statement makes of a file half read.** -/
def step (d : Draft) : Statement → Option Draft
  | .table path => d.settle.openTable path
  | .element path => d.settle.openElement path
  | .assign path v => d.assign path v

end Draft

/-- What the lines of a file make.  Each line has its effect before the next is read. -/
def document : Rule Table := do
  let more : Rule Bool := return !(← Rule.atEnd)
  let step (d : Draft) : Rule Draft := do
    match ← line with
    | some statement => Rule.require (d.step statement)
    | none => return d
  let d ← Rule.iterate more step {}
  return d.root

/-- **The table of a settings file**, or the first flaw in it. -/
def parse (s : String) : Except Flaw Table := document.run (Text.unifyPairs s.toList)

end ConfigScript.Toml
