import ConfigScript.Text.Hex

/-!
# Text/Utf8 — strict decoding, with the first fault

The first byte of a sequence settles how many bytes follow and in which range each of them lies
(`following?`); the ranges leave out the overlong forms, the surrogates and all that lies beyond
U+10FFFF.  Decoding stops at the first fault, which names the bytes of the sequence that were good
so far.  Bytes that come in parts are decoded part by part (`decodePart`).
-/

namespace ConfigScript.Utf8

/-- What is wrong with a sequence of bytes. -/
inductive Reason where
  /-- no sequence starts with this byte -/
  | invalidStart
  /-- the byte behind the good ones cannot follow them -/
  | invalidContinuation
  /-- the bytes end inside the sequence -/
  | truncated
deriving DecidableEq

/-- The reason in words. -/
def Reason.text : Reason → String
  | .invalidStart => "invalid start byte"
  | .invalidContinuation => "invalid continuation byte"
  | .truncated => "unexpected end of data"

/-- **The first fault of a byte string**: where the faulty sequence starts, its first byte, how many
of its bytes are good, and what is wrong. -/
structure Fault where
  start : Nat
  lead : UInt8
  size : Nat
  reason : Reason
deriving DecidableEq

/-- The fault in a sentence.  One byte is shown itself, several by the offsets of the first and the
last of them. -/
def Fault.message (f : Fault) : String :=
  let place :=
    if f.size ≤ 1 then
      "byte 0x" ++ String.ofList (Text.hexPadded 2 f.lead.toNat) ++ " in position "
        ++ toString f.start
    else
      "bytes in position " ++ toString f.start ++ "-" ++ toString (f.start + f.size - 1)
  "'utf-8' codec can't decode " ++ place ++ ": " ++ f.reason.text

/-- The ranges of the bytes that follow a first byte; `none` if no sequence starts with it. -/
def following? (b : UInt8) : Option (List (UInt8 × UInt8)) :=
  if b < 0x80 then some []
  else if b < 0xc2 then none
  else if b < 0xe0 then some [(0x80, 0xbf)]
  else if b = 0xe0 then some [(0xa0, 0xbf), (0x80, 0xbf)]
  else if b = 0xed then some [(0x80, 0x9f), (0x80, 0xbf)]
  else if b < 0xf0 then some [(0x80, 0xbf), (0x80, 0xbf)]
  else if b = 0xf0 then some [(0x90, 0xbf), (0x80, 0xbf), (0x80, 0xbf)]
  else if b < 0xf4 then some [(0x80, 0xbf), (0x80, 0xbf), (0x80, 0xbf)]
  else if b = 0xf4 then some [(0x80, 0x8f), (0x80, 0xbf), (0x80, 0xbf)]
  else none

/-- The bits that a first byte adds to the number of the character. -/
def leadBits (b : UInt8) : Nat :=
  if b < 0x80 then b.toNat
  else if b < 0xe0 then b.toNat - 0xc0
  else if b < 0xf0 then b.toNat - 0xe0
  else b.toNat - 0xf0

/-- **A sequence that has begun**: where, with which byte, how many bytes of it were read, the
number they make, and the ranges of the bytes still to come. -/
structure Begun where
  start : Nat
  lead : UInt8
  size : Nat
  number : Nat
  owed : List (UInt8 × UInt8)

/-- The fault of a sequence that goes no further. -/
def Begun.fault (s : Begun) (reason : Reason) : Fault := ⟨s.start, s.lead, s.size, reason⟩

/-- What a byte makes of the state of a decoder: a longer sequence, a character, or a fault. -/
inductive Step where
  | more (s : Begun)
  | char (c : Char)
  | fault (f : Fault)

/-- A sequence with nothing left to come is a character. -/
def Begun.settle (s : Begun) : Step :=
  if s.owed.isEmpty then .char (Char.ofNat s.number) else .more s

/-- Reads the first byte of a sequence. -/
def beginAt (offset : Nat) (b : UInt8) : Step :=
  match following? b with
  | none => .fault ⟨offset, b, 1, .invalidStart⟩
  | some owed => Begun.settle ⟨offset, b, 1, leadBits b, owed⟩

/-- Reads a further byte of a sequence. -/
def Begun.push (s : Begun) (b : UInt8) : Step :=
  match s.owed with
  | [] => .fault (s.fault .invalidContinuation)
  | (lo, hi) :: owed =>
    if lo ≤ b ∧ b ≤ hi then
      Begun.settle { s with size := s.size + 1, number := 64 * s.number + (b.toNat - 0x80), owed }
    else .fault (s.fault .invalidContinuation)

/-- Decodes the bytes from `offset` on, with a sequence begun before them or none. -/
def decodeFrom (offset : Nat) : Option Begun → List UInt8 → Except Fault (List Char)
  | none, [] => .ok []
  | some s, [] => .error (s.fault .truncated)
  | begun?, b :: bs =>
    let step := match begun? with
      | none => beginAt offset b
      | some s => s.push b
    match step with
    | .fault f => .error f
    | .more s => decodeFrom (offset + 1) (some s) bs
    | .char c => (decodeFrom (offset + 1) none bs).map (c :: ·)

/-- **Strict decoding**: the characters of a byte string, or its first fault. -/
def decode (bs : List UInt8) : Except Fault (List Char) := decodeFrom 0 none bs

/-! ## Decoding a part -/

/-- Whether bytes are the first two of the three that a surrogate would have. -/
def isCutSurrogate : List UInt8 → Bool
  | [lead, b] => lead = 0xed && 0xa0 ≤ b && b ≤ 0xbf
  | _ => false

/-- Whether a sequence at the end of a part is kept back: it may go on in the next part.  The start
of a surrogate is kept back as well, though no good sequence begins so. -/
def Fault.isKeptBack (f : Fault) (bs : List UInt8) : Bool :=
  f.reason = .truncated || isCutSurrogate (bs.drop f.start)

/-- **Decodes a part of a byte string**: its characters, and the bytes at its end that are kept back
for the next part; or its first fault. -/
def decodePart (bs : List UInt8) : Except Fault (List Char × List UInt8) :=
  match decode bs with
  | .ok cs => .ok (cs, [])
  | .error f =>
    if f.isKeptBack bs then (decode (bs.take f.start)).map (·, bs.drop f.start) else .error f

/-! ## Encoding -/

/-- The bytes of a text. -/
def encode (s : String) : List UInt8 := s.toUTF8.toList

end ConfigScript.Utf8
