import ConfigScript.Cli.Dialog
import ConfigScript.Cli.Host
import ConfigScript.Cli.Outcome

/-!
# Cli/Run — from a command line to its outcome

A run resolves its options, reads the input, takes it apart into tokens, writes the tokens that are
wanted, and reports the faulty ones.  A failure on the way ends it before anything is written; the
exit code tells a clean input (0) from a faulty one (1) and from a failure (2).  With `--debug` the
run also keeps a log.
-/

namespace ConfigScript.Cli

open Files (Path)
open Source (Feed Reader)
open Toml (Table)

/-! ## Files -/

/-- Whether a path leads to a file.  A path that cannot be asked for leads nowhere. -/
def findFile (p : Path) : Dialog (Except Failure Bool) := do
  if p.hasNull then return .ok false
  return (← Dialog.askFile p).mapError .system

/-- The content of a file. -/
def readFile (p : Path) : Dialog (Except Failure (List UInt8)) := do
  if p.hasNull then return .error (.breakdown .nullInPath)
  return (← Dialog.askContent p).mapError .system

/-- Writes a file. -/
def writeFile (p : Path) (content : List UInt8) : Dialog (Except Failure Unit) := do
  if p.hasNull then return .error (.breakdown .nullInPath)
  return (← Dialog.askWrite p content).mapError .system

/-! ## The stages of a run -/

variable (host : Host)

/-- The table in the text of a settings file. -/
def settingsTable (text : String) : Except Failure Table :=
  if host.isTooDeep text then .error (.breakdown .tooDeepToRead)
  else (Toml.parse text).mapError (.ofFlaw (host.flawText text))

/-- The table in the bytes of a settings file. -/
def settingsOf (content : List UInt8) : Except Failure Table :=
  match Utf8.decode content with
  | .error f => .error (.undecodable f)
  | .ok cs => settingsTable host (String.ofList cs)

/-- Options with what was noted while they were found. -/
structure Resolved where
  notes : List Note := []
  options : Except Failure Options

/-- The options that arguments and the content of a settings file give. -/
def optionsOf (a : Arguments) (content? : Option (List UInt8)) : Except Failure Options := do
  let t ← match content? with
    | none => .ok []
    | some content => settingsOf host content
  (Options.resolve a t).mapError (.ofSetting host.showDepth)

/-- **Finds the options of a run.**  A settings file that is not there sets nothing. -/
def resolve (a : Arguments) : Dialog Resolved := do
  let p := a.settingsPath
  match ← findFile p with
  | .error f => return { options := .error f }
  | .ok false => return { notes := [.noSettings p], options := optionsOf host a none }
  | .ok true =>
    match ← readFile p with
    | .error f => return { notes := [.settings p], options := .error f }
    | .ok content => return { notes := [.settings p], options := optionsOf host a (some content) }

/-- **The pieces of the input.** -/
def inputPieces (o : Options) : Dialog (Except Failure (List (List UInt8))) := do
  match o.input? with
  | none => return .ok (← Dialog.askInput)
  | some p => return (← readFile p).map host.pieces

/-- The walk through an input that arrives in pieces. -/
def walkInput (pieces : List (List UInt8)) : Walk :=
  walk (.ofFeed (.ofPieces Reader.defaultChunk pieces) Reader.defaultChunk)

/-- Whether the tokens of a kind are wanted. -/
def Options.wants (o : Options) (k : Kind) : Bool :=
  !(o.skipWhitespace && k == .whitespace) && !(o.skipComments && k == .comment)

/-- **The tokens that are wanted.** -/
def Options.select (o : Options) (ts : List Token) : List Token := ts.filter fun t => o.wants t.kind

/-- The name of the input in reports. -/
def Options.inputName (o : Options) : String :=
  match o.input? with
  | none => "<stdin>"
  | some p => p.text

/-- The reports on the faulty tokens, in writing. -/
def reportText (o : Options) (source : String) (ts : List Token) : String :=
  linesText ((reports ts).map fun r => r.excerpt source o.inputName)

/-- **Prints tokens** to the output of a run: what stays for the standard output.  No input is so
long that a position in it could not be written, so `print` is their dump. -/
def writeTokens (o : Options) (ts : List Token) : Dialog (Except Failure String) := do
  let text := print o.format.format (o.select ts)
  match o.output? with
  | none => return .ok text
  | some p => return (← writeFile p (Utf8.encode text)).map fun _ => ""

/-- The run behind its options, with the log so far. -/
def runWith (notes : List Note) (o : Options) : Dialog (Except Breakdown Outcome) := do
  let log := logText o.debug
  match ← inputPieces host o with
  | .error f => return f.outcome (log notes)
  | .ok pieces =>
    let found := walkInput pieces
    let notes := notes ++ found.steps.flatMap Note.ofStep
    match found.result with
    | .error f => return (Failure.input f).outcome (log notes)
    | .ok ts =>
      match ← writeTokens o ts with
      | .error f => return f.outcome (log notes)
      | .ok stdout =>
        return .ok {
          exit := if (invalidTokens ts).isEmpty then 0 else 1
          stdout
          stderr := log notes ++ reportText o (String.ofList found.reader.text) ts }

/-- The run behind its arguments. -/
def runArguments (a : Arguments) : Dialog (Except Breakdown Outcome) := do
  let resolved ← resolve host a
  match resolved.options with
  | .error f => return f.outcome (logText a.debug resolved.notes)
  | .ok o => runWith host resolved.notes o

/-- **Runs a command line.** -/
def run (argv : List String) : Dialog (Except Breakdown Outcome) :=
  match Arguments.parse argv with
  | .error s => pure (.ok s.outcome)
  | .ok a => runArguments host a

end ConfigScript.Cli
