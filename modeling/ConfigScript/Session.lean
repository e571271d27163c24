import ConfigScript.Scanner

/-!
# Session — several iterators over one scanner

Tokens can be asked for one by one, through any number of iterators, and by running an iterator to
its end.  All of them read the same text: a token goes to whoever asks next.  An iterator is over
when it has delivered the end token or let a fault through, and from then on it reads nothing.
-/

namespace ConfigScript

open Source (Reader Fault)

/-- **An iterator** over the tokens of a scanner. -/
structure Iter where
  finished : Bool := false
deriving DecidableEq

/-- What asking for a token comes to. -/
inductive Outcome where
  | token (t : Token)
  | fault (e : Fault)

/-- **Asks an iterator for its next token**; `none` if it is over. -/
def Iter.next (it : Iter) (r : Reader) : Option Outcome × Iter × Reader :=
  if it.finished then (none, it, r)
  else
    match scan r with
    | .ok t r => (some (.token t), ⟨t.isEof⟩, r)
    | .error e r => (some (.fault e), ⟨true⟩, r)

/-- **A scanner and the iterators made so far.** -/
structure Session where
  reader : Reader
  iters : Array Iter := #[]

namespace Session

/-- What can be asked of a session. -/
inductive Op where
  /-- one token, past all iterators -/
  | scan
  /-- a new iterator -/
  | iter
  /-- the next token of an iterator, by its number -/
  | next (i : Nat)
  /-- all tokens of one more iterator -/
  | all
  /-- all tokens that an iterator has left, by its number -/
  | drain (i : Nat)
  /-- the text pulled so far -/
  | text

/-- What a session answers. -/
inductive Answer where
  | token (t : Token)
  | finished
  | made
  | tokens (ts : List Token)
  | text (cs : List Char)
  | fault (e : Fault)

/-- The answer to a request for one token. -/
def Answer.ofOutcome? : Option Outcome → Answer
  | none => .finished
  | some (.token t) => .token t
  | some (.fault e) => .fault e

/-- The answer to running an iterator to its end. -/
def Answer.ofWalk (w : Walk) : Answer :=
  match w.result with
  | .ok ts => .tokens ts
  | .error e => .fault e

/-- **Performs an operation.**  An iterator that was never made is over. -/
def perform (op : Op) (s : Session) : Answer × Session :=
  match op with
  | .scan =>
    match ConfigScript.scan s.reader with
    | .ok t r => (.token t, { s with reader := r })
    | .error e r => (.fault e, { s with reader := r })
  | .iter => (.made, { s with iters := s.iters.push {} })
  | .next i =>
    match s.iters[i]? with
    | none => (.finished, s)
    | some it =>
      let (outcome, it, r) := it.next s.reader
      (.ofOutcome? outcome, { reader := r, iters := s.iters.setIfInBounds i it })
  | .all =>
    let w := walk s.reader
    (.ofWalk w, { s with reader := w.reader })
  | .drain i =>
    match s.iters[i]? with
    | none => (.tokens [], s)
    | some it =>
      if it.finished then (.tokens [], s)
      else
        let w := walk s.reader
        (.ofWalk w, { reader := w.reader, iters := s.iters.setIfInBounds i ⟨true⟩ })
  | .text => (.text s.reader.text, s)

/-- **Performs operations one after the other.** -/
def performAll : List Op → Session → List Answer × Session
  | [], s => ([], s)
  | op :: ops, s =>
    let (a, s) := perform op s
    let (as, s) := performAll ops s
    (a :: as, s)

end Session

end ConfigScript
