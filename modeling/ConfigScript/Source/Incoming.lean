import ConfigScript.Source.Feed
import ConfigScript.Text.Newline

/-!
# Source/Incoming — text from bytes that arrive in pieces

Bytes arrive in pieces, which are cut without regard to what they spell.  Each piece is decoded when
it arrives, and its line ends are written as line feeds.  At the end of a piece something may be
kept back for the next one: the start of a sequence of bytes, or a carriage return, behind which a
line feed may come.

A request for characters is answered once there are as many as it asks for, or the bytes have come
to their end.  So a fault fails the request during which its piece arrives, and takes the characters
with it that were there for that request already.
-/

namespace ConfigScript.Source

variable {α : Type}

/-- The first `count` slices of a list, each of the given size. -/
def slices (size count : Nat) (xs : List α) : List (List α) :=
  (List.range count).map fun i => (xs.drop (i * size)).take size

theorem flatten_slices (size count : Nat) (xs : List α) :
    (slices size count xs).flatten = xs.take (count * size) := by
  rw [slices]
  induction count with
  | zero => simp
  | succ count ih =>
    rw [List.range_succ, List.map_append, List.flatten_append, ih, Nat.succ_mul, List.take_add]
    simp

/-- Text whose line ends are written as line feeds, behind a carriage return that was kept back.
One at the end is kept back in its turn. -/
def holdReturn (kept : Bool) (cs : List Char) : List Char × Bool :=
  let cs := if kept then '\r' :: cs else cs
  if cs.getLast? = some '\r' then (Text.unifyNewlines cs.dropLast, true)
  else (Text.unifyNewlines cs, false)

/-- **What a decoder keeps back**: bytes that begin a sequence, and a carriage return. -/
structure Decoder where
  bytes : List UInt8 := []
  keptReturn : Bool := false

namespace Decoder

/-- **Decodes a piece** behind what was kept back. -/
def push (d : Decoder) (piece : List UInt8) : Except Utf8.Fault (List Char × Decoder) := do
  let (cs, bytes) ← Utf8.decodePart (d.bytes ++ piece)
  let (cs, keptReturn) := holdReturn d.keptReturn cs
  return (cs, { bytes, keptReturn })

/-- Decodes what was kept back at the end. -/
def finish (d : Decoder) : Except Utf8.Fault (List Char) := do
  let cs ← Utf8.decode d.bytes
  return Text.unifyNewlines (if d.keptReturn then '\r' :: cs else cs)

/-- **Decodes piece after piece**: the characters up to the end or to the first fault. -/
def run (d : Decoder) : List (List UInt8) → List Char × Option Utf8.Fault
  | [] =>
    match d.finish with
    | .ok cs => (cs, none)
    | .error f => ([], some f)
  | piece :: pieces =>
    match d.push piece with
    | .ok (cs, d) =>
      let (rest, fault?) := run d pieces
      (cs ++ rest, fault?)
    | .error f => ([], some f)

end Decoder

/-- **The feed of bytes that arrive in pieces**, of which so many characters are asked for at a
time. -/
def Feed.ofPieces (chunk : Nat) (pieces : List (List UInt8)) : Feed :=
  match Decoder.run {} pieces with
  | (cs, none) => .stream cs
  | (cs, some f) => .script ((slices chunk (cs.length / chunk) cs).map .text ++ [.undecodable f])

end ConfigScript.Source
