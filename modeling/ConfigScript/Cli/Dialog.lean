import ConfigScript.Files.Tree

/-!
# Cli/Dialog — what a run asks of the world outside

A run is over, or it asks something and goes on with the answer: whether a path leads to a file,
what a file holds, in which pieces the standard input arrives, or that a file be written.  Such a
dialog says nothing of who answers.  `Dialog.inTree` has it answered by a tree of files;
`inTree_bind` says that a dialog in two parts is answered part by part.
-/

namespace ConfigScript.Cli

open Files (Path Tree)
open Source (SystemFailure)

/-- **A dialog**: its result, or a question and how it goes on with the answer. -/
inductive Dialog (α : Type) where
  | result (a : α)
  | isFile (p : Path) (next : Except SystemFailure Bool → Dialog α)
  | readFile (p : Path) (next : Except SystemFailure (List UInt8) → Dialog α)
  | readInput (next : List (List UInt8) → Dialog α)
  | writeFile (p : Path) (content : List UInt8) (next : Except SystemFailure Unit → Dialog α)

namespace Dialog

variable {α β : Type}

/-- Goes on with the result of a dialog. -/
def bind : Dialog α → (α → Dialog β) → Dialog β
  | result a, f => f a
  | isFile p next, f => isFile p fun r => (next r).bind f
  | readFile p next, f => readFile p fun r => (next r).bind f
  | readInput next, f => readInput fun r => (next r).bind f
  | writeFile p content next, f => writeFile p content fun r => (next r).bind f

instance : Monad Dialog where
  pure := result
  bind := bind

@[simp] theorem pure_eq (a : α) : (pure a : Dialog α) = result a := rfl

@[simp] theorem bind_eq (d : Dialog α) (f : α → Dialog β) : d >>= f = d.bind f := rfl

/-! ## Questions -/

/-- Asks whether a path leads to a file. -/
def askFile (p : Path) : Dialog (Except SystemFailure Bool) := isFile p result

/-- Asks what a file holds. -/
def askContent (p : Path) : Dialog (Except SystemFailure (List UInt8)) := readFile p result

/-- Asks for the pieces of the standard input. -/
def askInput : Dialog (List (List UInt8)) := readInput result

/-- Asks that a file be written. -/
def askWrite (p : Path) (content : List UInt8) : Dialog (Except SystemFailure Unit) :=
  writeFile p content result

/-! ## Answers from a tree -/

/-- **Answers a dialog from a tree of files** and the pieces of the standard input: the result, and
the tree with what was written. -/
def inTree (input : List (List UInt8)) : Dialog α → Tree → α × Tree
  | result a, t => (a, t)
  | isFile p next, t => (next (t.isFile p)).inTree input t
  | readFile p next, t => (next (t.read p)).inTree input t
  | readInput next, t => (next input).inTree input t
  | writeFile p content next, t =>
    match t.write p content with
    | .ok t => (next (.ok ())).inTree input t
    | .error f => (next (.error f)).inTree input t

/-- **A dialog in two parts is answered part by part.** -/
theorem inTree_bind (input : List (List UInt8)) (d : Dialog α) (f : α → Dialog β) (t : Tree) :
    (d.bind f).inTree input t = (f (d.inTree input t).1).inTree input (d.inTree input t).2 := by
  induction d generalizing t with
  | result a => rfl
  | isFile p next ih => exact ih _ _
  | readFile p next ih => exact ih _ _
  | readInput next ih => exact ih _ _
  | writeFile p content next ih =>
    simp only [bind, inTree]
    split <;> exact ih _ _

end Dialog

end ConfigScript.Cli
