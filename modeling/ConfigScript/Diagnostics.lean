import ConfigScript.Scanner

/-!
# Diagnostics — what an editor is told about a document

Each faulty token of a document gives one diagnostic, with a range whose lines and characters are
counted from zero.
-/

namespace ConfigScript

/-- A place in a document, line and character counted from zero. -/
structure Spot where
  line : Int
  character : Int
deriving DecidableEq

/-- The spot of a position. -/
def Position.spot (p : Position) : Spot := ⟨p.line - 1, p.column - 1⟩

/-- How grave a diagnostic is. -/
inductive Severity where
  | error
deriving DecidableEq

/-- The number of a severity. -/
def Severity.code : Severity → Nat
  | .error => 1

/-- **A diagnostic**: a range of the document, what is wrong in it and who says so. -/
structure Diagnostic where
  start : Spot
  stop : Spot
  message : String
  severity : Severity := .error
  source : String := "confscan"
deriving DecidableEq

/-- The diagnostic of a faulty token; `none` for any other. -/
def Diagnostic.ofToken? (t : Token) : Option Diagnostic :=
  if t.kind = .invalid then
    t.error.map fun e =>
      { start := t.start.spot, stop := t.stop.spot, message := e.message }
  else none

/-- **The diagnostics of a document.** -/
def diagnostics (document : String) : List Diagnostic :=
  (tokenize document).filterMap Diagnostic.ofToken?

/-- What is published for a document: its name and its diagnostics. -/
structure Publication where
  uri : String
  diagnostics : List Diagnostic

/-- **The publication for a document** that was opened or changed. -/
def publish (uri document : String) : Publication := ⟨uri, diagnostics document⟩

end ConfigScript
