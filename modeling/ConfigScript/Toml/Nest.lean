import ConfigScript.Toml.Lexis
import ConfigScript.Toml.Value

/-!
# Toml/Nest — tables within tables

A path leads from a table to a table within it.  Tables that are missing on the way are made;
through a row of tables the way goes by the last of them.
-/

namespace ConfigScript.Toml

/-- A change of a table, which may be refused. -/
abbrev Change : Type := Table → Option Table

/-- Changes the table that a value holds.  A row of tables stands for its last table, if `rows` says
so. -/
def Value.change (rows : Bool) (f : Change) : Value → Option Value
  | .table t => (f t).map .table
  | .array items =>
    match rows, items.getLast? with
    | true, some (.table t) => (f t).map fun t => .array (items.dropLast ++ [.table t])
    | _, _ => none
  | _ => none

/-- **Changes the table at a path.** -/
def within (rows : Bool) : KeyPath → Change → Change
  | [], f => f
  | k :: path, f => fun t =>
    (((t.get? k).getD (.table [])).change rows (within rows path f)).map (t.put k ·)

/-- Adds an empty table to a row of tables, which is made if it is missing. -/
def growRow (k : String) : Change := fun t =>
  match t.get? k with
  | none => some (t.put k (.array [.table []]))
  | some (.array items) => some (t.put k (.array (items ++ [.table []])))
  | some _ => none

/-- Whether a value is a table or an array, to which nothing can be added from outside. -/
def Value.isNest : Value → Bool
  | .array _ | .table _ => true
  | _ => false

/-- Whether a path leads to one of the given nests or into it. -/
def reaches (nests : List KeyPath) (path : KeyPath) : Bool := nests.any (·.isPrefixOf path)

/-- **A table half written on one line**: its fields, and the paths of the nests among them that
were written out. -/
structure InlineDraft where
  fields : Table := []
  closed : List KeyPath := []

/-- Adds a field to a table written on one line.  Each key is new; dotted keys may share tables, but
not one that was written out before. -/
def InlineDraft.add (d : InlineDraft) (path : KeyPath) (v : Value) : Option InlineDraft := do
  if reaches d.closed path then none
  let last ← path.getLast?
  let fields ← within false path.dropLast (Table.add? last v) d.fields
  return { fields, closed := if v.isNest then path :: d.closed else d.closed }

end ConfigScript.Toml
