import ConfigScript.Cli.Options
import ConfigScript.Scanner
import ConfigScript.Toml.Document

/-!
# Cli/Outcome — what a run comes to

A run is told by its exit code and by what it writes to the standard streams.  A failure ends it
with a sentence on the standard error, behind the log.  A run can also break down, and then has no
outcome.
-/

namespace ConfigScript.Cli

open Files (Path)
open Source (SystemFailure)

/-! ## Failures -/

/-- **Why a run breaks down.** -/
inductive Breakdown where
  /-- a whole number in the settings file is too long to be read or, where it is bad, to be shown -/
  | tooLong (e : Number.TooLong)
  /-- the settings file is nested too deep to be read -/
  | tooDeepToRead
  /-- a bad setting is nested too deep to be shown -/
  | tooDeepToShow
  /-- the path of a file to be opened holds a null character -/
  | nullInPath
deriving DecidableEq

/-- Why a run breaks down, in a sentence. -/
def Breakdown.message : Breakdown → String
  | tooLong e => e.message
  | tooDeepToRead => "maximum recursion depth exceeded"
  | tooDeepToShow => "maximum recursion depth exceeded while getting the repr of an object"
  | nullInPath => "embedded null byte"

/-- **Why a run fails.** -/
inductive Failure where
  /-- a file cannot be read or written -/
  | system (f : SystemFailure)
  /-- the settings file is no text -/
  | undecodable (f : Utf8.Fault)
  /-- the settings file is not in its format -/
  | notToml (words : String)
  | setting (s : BadSetting)
  /-- the input cannot be read -/
  | input (f : Source.Fault)
  /-- the run breaks down -/
  | breakdown (b : Breakdown)

/-- The failure in a sentence. -/
def Failure.message : Failure → String
  | system f => f.text
  | undecodable f => f.message
  | notToml words => words
  | setting s => s.message
  | input f => f.message
  | breakdown b => b.message

/-- What is wrong with a settings file that is not in its format; the words tell what a malformed
one is. -/
def Failure.ofFlaw (words : String) : Toml.Flaw → Failure
  | .malformed => .notToml words
  | .tooManyDigits count => .breakdown (.tooLong ⟨some count⟩)

/-- A bad setting that cannot be shown. -/
def Failure.ofTrouble : Toml.Trouble → Failure
  | .tooLong => .breakdown (.tooLong {})
  | .tooDeep => .breakdown .tooDeepToShow

/-- What is wrong with a bad setting, which is told if it can be shown. -/
def Failure.ofSetting (depth : Nat) (s : BadSetting) : Failure :=
  match s.trouble? depth with
  | none => .setting s
  | some trouble => .ofTrouble trouble

/-! ## The log -/

/-- **An entry of the log.** -/
inductive Note where
  | noSettings (p : Path)
  | settings (p : Path)
  | exhausted (p : Position)
  | token (t : Token)

/-- An entry in writing: who notes it, and what. -/
def Note.line : Note → String
  | noSettings p => "confscan.cli: no config file at " ++ p.text
  | settings p => "confscan.cli: loading config from " ++ p.text
  | exhausted p => "confscan.reader: input exhausted at " ++ p.spelling
  | token t =>
    "confscan.scanner: " ++ t.kind.label ++ " " ++ Text.quoted t.value ++ " at " ++ t.start.spelling
      ++ "-" ++ t.stop.spelling

/-- The entries for a step of a walk: the end of the input is noted before the token that met it. -/
def Note.ofStep (s : Step) : List Note :=
  s.exhaustion?.toList.map exhausted ++ [token s.token]

/-- Lines of text, each with its end. -/
def linesText (lines : List String) : String := String.join (lines.map (· ++ "\n"))

/-- The log in writing, if it is kept. -/
def logText (debug : Bool) (notes : List Note) : String :=
  if debug then linesText (notes.map Note.line) else ""

/-! ## Outcomes -/

/-- **The outcome of a run**: its exit code and what it writes to the standard streams. -/
structure Outcome where
  exit : Nat
  stdout : String := ""
  stderr : String := ""
deriving DecidableEq

/-- The outcome where there is nothing to run. -/
def Stop.outcome : Stop → Outcome
  | .help => { exit := 0, stdout := Cli.help }
  | .misuse m =>
    { exit := 2, stderr := usage ++ linesText [programName ++ ": error: " ++ m.message] }

/-- **What a failure makes of a run**: an outcome, unless the run breaks down. -/
def Failure.outcome (log : String) : Failure → Except Breakdown Outcome
  | .breakdown b => .error b
  | f => .ok { exit := 2, stderr := log ++ linesText ["error: " ++ f.message] }

end ConfigScript.Cli
