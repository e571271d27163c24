import ConfigScript.Cli.Arguments
import ConfigScript.Files.Path
import ConfigScript.Toml.Shown

/-!
# Cli/Options — arguments and settings together

The arguments of a run and the table of a settings file give the options of the run.  What an
argument says goes before what the settings say, and that before the defaults.  The settings are
checked before any of them is used, so that a bad one is refused even where an argument overrides
it.
-/

namespace ConfigScript.Cli

open Files (Path)
open Toml (Table Trouble Value)

/-- **The options of a run.**  Without an input file the standard input is read, without an output
file the standard output is written. -/
structure Options where
  input? : Option Path
  output? : Option Path
  format : Choice
  skipWhitespace : Bool
  skipComments : Bool
  debug : Bool
deriving DecidableEq

/-! ## Settings -/

/-- **What is wrong with a table of settings.** -/
inductive BadSetting where
  | outputNotATable
  | unknownFormat (v : Value)
  | notBoolean (key : String)

/-- What is wrong, in a sentence. -/
def BadSetting.message : BadSetting → String
  | outputNotATable => "config value output must be a table"
  | unknownFormat v =>
    "config value output.format must be one of " ++ ", ".intercalate (Format.all.map Format.name)
      ++ ": " ++ v.shown
  | notBoolean key => "config value output." ++ key ++ " must be a boolean"

/-- What keeps the sentence from being made, where no more than `depth` values may stand within each
other. -/
def BadSetting.trouble? (depth : Nat) : BadSetting → Option Trouble
  | unknownFormat v => v.trouble? depth
  | outputNotATable | notBoolean _ => none

/-- **What a table of settings says** about the output. -/
structure Settings where
  format : Format := .text
  skipWhitespace : Bool := false
  skipComments : Bool := false
deriving DecidableEq

namespace Settings

/-- The table of a field; a field that is missing is an empty table. -/
def outputTable (t : Table) : Except BadSetting Table :=
  match t.get? "output" with
  | none => .ok []
  | some (.table output) => .ok output
  | some _ => .error .outputNotATable

/-- The format that a table asks for. -/
def formatOf (output : Table) : Except BadSetting Format :=
  match output.get? "format" with
  | none => .ok .text
  | some v =>
    match v with
    | .text s =>
      match Format.ofName? s with
      | some f => .ok f
      | none => .error (.unknownFormat v)
    | _ => .error (.unknownFormat v)

/-- A setting that is on or off; one that is missing is off. -/
def switchOf (output : Table) (key : String) : Except BadSetting Bool :=
  match output.get? key with
  | none => .ok false
  | some (.boolean b) => .ok b
  | some _ => .error (.notBoolean key)

/-- **The settings in a table**, or the first that is bad. -/
def ofTable (t : Table) : Except BadSetting Settings := do
  let output ← outputTable t
  let format ← formatOf output
  let skipWhitespace ← switchOf output "skip_whitespace"
  let skipComments ← switchOf output "skip_comments"
  return { format, skipWhitespace, skipComments }

end Settings

/-! ## Options -/

namespace Arguments

/-- The input file; none for the standard input. -/
def inputPath? (a : Arguments) : Option Path :=
  if a.input = "-" then none else some (.ofString a.input)

/-- A path that was given and is not empty. -/
def pathOf? (s? : Option String) : Option Path :=
  match s? with
  | none | some "" => none
  | some s => some (.ofString s)

/-- The name of the settings file that is looked for beside the input. -/
def settingsName : String := "confscan.toml"

/-- **The settings file**: the one that was given, or the one beside the input. -/
def settingsPath (a : Arguments) : Path :=
  (pathOf? a.config?).getD ((a.inputPath?.getD {}).parent.child settingsName)

end Arguments

/-- **The options that arguments and settings give.** -/
def Options.of (a : Arguments) (s : Settings) : Options where
  input? := a.inputPath?
  output? := Arguments.pathOf? a.output?
  format := a.format?.getD (.named s.format)
  skipWhitespace := a.skipWhitespace || s.skipWhitespace
  skipComments := a.skipComments || s.skipComments
  debug := a.debug

/-- **The options that arguments and a table of settings give**, or what is wrong with the table. -/
def Options.resolve (a : Arguments) (t : Table) : Except BadSetting Options :=
  (Settings.ofTable t).map (Options.of a)

end ConfigScript.Cli
