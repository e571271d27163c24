import ConfigScript.Source.Incoming

/-!
# Cli/Host — the machine that a run is on

A run comes to the same on every machine but for a few things, which are those of a host: how deep
values may stand within each other, in which words a malformed settings file is told, and in which
pieces the bytes of a file arrive.  Whatever is said of a run is said of every host.
-/

namespace ConfigScript.Cli

/-- **The machine that a run is on.** -/
structure Host where
  /-- how many values may stand within each other in one that is shown -/
  showDepth : Nat
  /-- whether the text of a settings file is nested too deep to be read -/
  isTooDeep : String → Bool
  /-- what is wrong with a settings file that is not in its format, in words -/
  flawText : String → String
  /-- the pieces in which the bytes of a file arrive -/
  pieces : List UInt8 → List (List UInt8)
  flatten_pieces : ∀ bs, (pieces bs).flatten = bs

namespace Host

/-- How many bytes of a file arrive at a time. -/
def pieceSize : Nat := 8192

/-- The pieces of a file on a common machine. -/
def commonPieces (bs : List UInt8) : List (List UInt8) :=
  Source.slices pieceSize ((bs.length + pieceSize - 1) / pieceSize) bs

theorem flatten_commonPieces (bs : List UInt8) : (commonPieces bs).flatten = bs := by
  rw [commonPieces, Source.flatten_slices, List.take_of_length_le]
  rw [pieceSize]
  omega

/-- **A common machine**, which tells a malformed settings file in the given words. -/
def common (flawText : String → String) : Host where
  showDepth := 990
  isTooDeep _ := false
  flawText
  pieces := commonPieces
  flatten_pieces := flatten_commonPieces

end Host

end ConfigScript.Cli
