import ConfigScript.Cli.Run

/-!
# Main — the program

The command line of the program: its dialog with the world outside is held with the file system and
the standard streams.
-/

namespace ConfigScript.Main

open Cli (Dialog Host)
open Files (Path Refusal)
open Source (SystemFailure)

/-- The number of a failure that came as an unsigned word; some arrive negated. -/
def plainNumber (n : UInt32) : Int := n.toInt32.toInt.natAbs

/-- The number and the words of a failure of the file system. -/
def numberAndWords (e : IO.Error) : Option Int × String :=
  match e with
  | .noFileOrDirectory _ n s | .interrupted _ n s | .alreadyExists _ n s | .invalidArgument _ n s
  | .permissionDenied _ n s | .resourceExhausted _ n s | .inappropriateType _ n s
  | .noSuchThing _ n s | .otherError n s | .resourceBusy n s | .resourceVanished n s
  | .unsupportedOperation n s | .hardwareFault n s | .unsatisfiedConstraints n s
  | .illegalOperation n s | .protocolError n s | .timeExpired n s => (some (plainNumber n), s)
  | .unexpectedEof => (none, "unexpected end of file")
  | .userError s => (none, s)

/-- A failure of the file system at a path.  Known ones are told in the words of the library. -/
def failureAt (p : Path) (e : IO.Error) : SystemFailure :=
  let (number?, words) := numberAndWords e
  match number?.bind Refusal.ofNumber? with
  | some r => r.failure p
  | none => ⟨number?, words ++ ": " ++ Text.quoted p.text⟩

/-- Asks the file system about a path. -/
def attempt {α : Type} (p : Path) (action : IO α) : IO (Except SystemFailure α) := do
  match ← action.toBaseIO with
  | .ok a => return .ok a
  | .error e => return .error (failureAt p e)

/-- Whether a path leads to a file.  That nothing is there is no failure. -/
def isFile (p : Path) : IO (Except SystemFailure Bool) :=
  attempt p do
    try
      let metadata ← (← IO.FS.realPath p.text).metadata
      return metadata.type == .file
    catch e =>
      match (numberAndWords e).1.bind Refusal.ofNumber? with
      | some .notFound | some .notADirectory | some .tooManyLinks => return false
      | _ => throw e

/-- **Holds a dialog** with the file system and the standard input. -/
def hold {α : Type} : Dialog α → IO α
  | .result a => return a
  | .isFile p next => do hold (next (← isFile p))
  | .readFile p next => do
    let content ← attempt p do
      let file ← IO.FS.Handle.mk p.text .read
      return (← file.readBinToEnd).toList
    hold (next content)
  | .readInput next => do
    let content ← (← IO.getStdin).readBinToEnd
    hold (next (Host.commonPieces content.toList))
  | .writeFile p content next => do
    hold (next (← attempt p (IO.FS.writeBinFile p.text (ByteArray.mk content.toArray))))

/-- The machine that the program is on. -/
def host : Host := .common fun _ => "the settings file is malformed"

end ConfigScript.Main

/-- **Runs the command line**: prints what the run has to say and returns its exit code.  A run that
breaks down says why. -/
def main (argv : List String) : IO UInt32 := do
  match ← ConfigScript.Main.hold (ConfigScript.Cli.run ConfigScript.Main.host argv) with
  | .ok outcome =>
    IO.print outcome.stdout
    IO.eprint outcome.stderr
    return UInt32.ofNat outcome.exit
  | .error b =>
    IO.eprintln (ConfigScript.Cli.programName ++ ": " ++ b.message)
    return 1
