import ConfigScript.Position
import ConfigScript.Report
import ConfigScript.Source.Feed
import ConfigScript.Text.Quoted

/-!
# Source/Fault — why reading or lexing stops

A fault is either hard, with a cause and the position at which the text could not be read, or an
error that passes through, or a literal that is none.
-/

namespace ConfigScript.Source

/-- The causes of a hard fault. -/
inductive Cause where
  | undecodable (fault : Utf8.Fault)
  | failure (f : SystemFailure)
  | nonText (k : NonText)
  /-- a pushback with nothing to push back -/
  | nothingRead
deriving DecidableEq

/-- The cause in a sentence. -/
def Cause.message : Cause → String
  | .undecodable f => "failed to read input: " ++ f.message
  | .failure f => "failed to read input: " ++ f.text
  | .nonText k => "input stream must yield decoded text, got " ++ k.name
  | .nothingRead => "unread without a preceding read"

/-- **Why reading or lexing stops.** -/
inductive Fault where
  /-- the text cannot be read on at this position -/
  | hard (cause : Cause) (position : Position)
  /-- an error of the stream that passes through -/
  | foreign (message : String)
  /-- a text that is no quoted literal -/
  | notALiteral (raw : String)
deriving DecidableEq

/-- **The fault in a sentence**; a hard fault says where. -/
def Fault.message : Fault → String
  | .hard cause position => Report.summary ⟨cause.message, position⟩
  | .foreign message => message
  | .notALiteral raw => "invalid string word: " ++ Text.quoted raw

end ConfigScript.Source
