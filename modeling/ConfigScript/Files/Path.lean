/-!
# Files/Path — names of files

A path is where it starts and the names on the way.  Only what leads somewhere is kept: a slash more
or a point between slashes makes no other path, while two points lead up and are kept.
-/

namespace ConfigScript.Files

/-- Where a path starts: in the working directory, or at a root.  Exactly two slashes in front are a
root of their own. -/
inductive Anchor where
  | here
  | root
  | doubleRoot
deriving DecidableEq

/-- The slashes in front of a path. -/
def Anchor.text : Anchor → String
  | here => ""
  | root => "/"
  | doubleRoot => "//"

/-- **A path**: where it starts, and the names on the way. -/
structure Path where
  anchor : Anchor := .here
  names : List String := []
deriving DecidableEq

namespace Path

/-- Cuts at every slash. -/
def pieces : List Char → List (List Char)
  | [] => [[]]
  | c :: cs =>
    if c = '/' then [] :: pieces cs
    else
      match pieces cs with
      | [] => [[c]]
      | p :: ps => (c :: p) :: ps

/-- Whether a piece of a path leads anywhere. -/
def leads (piece : List Char) : Bool := piece != [] && piece != ['.']

/-- The start that the slashes in front stand for. -/
def anchorOf : List Char → Anchor
  | '/' :: '/' :: '/' :: _ => .root
  | '/' :: '/' :: _ => .doubleRoot
  | '/' :: _ => .root
  | _ => .here

/-- **The path of a text.** -/
def ofString (s : String) : Path :=
  ⟨anchorOf s.toList, ((pieces s.toList).filter leads).map String.ofList⟩

/-- **A path in writing**; the working directory is a point. -/
def text (p : Path) : String :=
  if p.anchor = .here ∧ p.names = [] then "." else p.anchor.text ++ "/".intercalate p.names

/-- The directory that a path lies in; a start lies in itself. -/
def parent (p : Path) : Path := { p with names := p.names.dropLast }

/-- A file in the directory of a path. -/
def child (p : Path) (name : String) : Path := { p with names := p.names ++ [name] }

/-- Whether a path holds a null character, so that it cannot be asked for. -/
def hasNull (p : Path) : Bool := p.names.any fun name => '\x00' ∈ name.toList

@[simp] theorem parent_child (p : Path) (name : String) : (p.child name).parent = p := by
  simp [parent, child]

end Path

end ConfigScript.Files
