import ConfigScript.Source.Fault
import ConfigScript.Source.LineIndex

/-!
# Source/Reader — reading a text character by character

A reader holds the text pulled so far, a cursor in it and an index of its lines.  It pulls a chunk
when the cursor has reached the end and a character is asked for, never before.  One character can
be pushed back after it was read; a look at the next character changes nothing in that.

`pending` bounds what a reader can still deliver.  Reading a character lowers it
(`pending_lt_of_read`), no operation but a pushback raises it, and that by one.
-/

namespace ConfigScript.Source

/-- **A reader**: the feed and the size of its requests, the text pulled so far with its lines, the
cursor, whether the last character may be pushed back, whether the feed has come to its end, and the
sizes of the requests made. -/
structure Reader where
  feed : Feed
  chunk : Nat
  buffer : Array Char := #[]
  lines : LineIndex := .empty
  cursor : Nat := 0
  canUnread : Bool := false
  exhausted : Bool := false
  requests : Array Nat := #[]

/-- **An action on a reader**, which may stop with a fault.  A fault leaves the reader as it is at
that moment. -/
abbrev Reading (α : Type) : Type := EStateM Fault Reader α

namespace Reader

/-- How many characters a reader asks for at a time when nothing else is said. -/
def defaultChunk : Nat := 4096

/-- A chunk size that is not positive. -/
structure BadChunk where
  size : Int

/-- The refusal in a sentence. -/
def BadChunk.message (b : BadChunk) : String :=
  "chunk_size must be positive, got " ++ toString b.size

/-- Puts a chunk behind the text pulled so far. -/
def append (r : Reader) (cs : List Char) : Reader :=
  { r with
    buffer := r.buffer ++ cs.toArray
    lines := r.lines.extend r.buffer.size cs }

/-- A reader of a feed. -/
def ofFeed (feed : Feed) (chunk : Nat) : Reader := { feed, chunk }

/-- **A reader of a text that is there at once**: it asks for nothing. -/
def ofText (cs : List Char) : Reader :=
  { append (ofFeed .empty defaultChunk) cs with exhausted := true }

/-- Checks the size of the requests. -/
def checkChunk (chunk : Int) : Except BadChunk Nat :=
  if chunk < 1 then .error ⟨chunk⟩ else .ok chunk.toNat

/-! ## What a reader shows -/

/-- The position of the next character. -/
def position (r : Reader) : Position := r.lines.position r.cursor

/-- The position behind the text pulled so far. -/
def endPosition (r : Reader) : Position := r.lines.position r.buffer.size

/-- All text pulled so far. -/
def text (r : Reader) : List Char := r.buffer.toList

/-- The text between the start and the cursor. -/
def consumed (r : Reader) : List Char := r.text.take r.cursor

/-- The text pulled but not yet read. -/
def ahead (r : Reader) : List Char := r.text.drop r.cursor

/-! ## Operations -/

/-- **Pulls one chunk.**  An empty chunk marks the end, behind which the feed is not asked again; a
faulty delivery changes nothing in the text. -/
def fill : Reading Unit := fun r =>
  if r.exhausted then .ok () r
  else
    let (delivery, feed) := r.feed.request r.chunk
    let r := { r with feed, requests := r.requests.push r.chunk }
    match delivery with
    | .text [] => .ok () { r with exhausted := true }
    | .text cs => .ok () (r.append cs)
    | .undecodable f => .error (.hard (.undecodable f) r.position) r
    | .failure f => .error (.hard (.failure f) r.position) r
    | .nonText k => .error (.hard (.nonText k) r.position) r
    | .foreign message => .error (.foreign message) r

/-- **The next character**, which stays where it is; `none` at the end. -/
def peek : Reading (Option Char) := fun r =>
  match r.buffer[r.cursor]? with
  | some c => .ok (some c) r
  | none =>
    match fill r with
    | .ok _ r => .ok r.buffer[r.cursor]? r
    | .error e r => .error e r

/-- **Reads the next character**; `none` at the end. -/
def read : Reading (Option Char) := fun r =>
  match peek r with
  | .ok (some c) r => .ok (some c) { r with cursor := r.cursor + 1, canUnread := true }
  | .ok none r => .ok none { r with canUnread := false }
  | .error e r => .error e r

/-- **Pushes back the character just read.**  There must be one: the last read must have returned a
character, and it must not have been pushed back already. -/
def unread : Reading Unit := fun r =>
  if r.canUnread then .ok () { r with cursor := r.cursor - 1, canUnread := false }
  else .error (.hard .nothingRead r.position) r

/-- The operations of a reader, as one type. -/
inductive Op where
  | read
  | peek
  | unread
  | position
  | text

/-- What an operation answers. -/
inductive Answer where
  | char (c : Option Char)
  | done
  | position (p : Position)
  | text (cs : List Char)
  | fault (e : Fault)

/-- **Performs an operation.** -/
def perform (op : Op) (r : Reader) : Answer × Reader :=
  match op with
  | .read =>
    match read r with
    | .ok c r => (.char c, r)
    | .error e r => (.fault e, r)
  | .peek =>
    match peek r with
    | .ok c r => (.char c, r)
    | .error e r => (.fault e, r)
  | .unread =>
    match unread r with
    | .ok _ r => (.done, r)
    | .error e r => (.fault e, r)
  | .position => (.position r.position, r)
  | .text => (.text r.text, r)

/-- **Performs operations one after the other**; with each answer stands the reader after it. -/
def performAll : List Op → Reader → List (Answer × Reader)
  | [], _ => []
  | op :: ops, r =>
    let step := perform op r
    step :: performAll ops step.2

/-! ## What is still to come -/

/-- **What a reader can still deliver**: the characters ahead of the cursor and the feed. -/
def pending (r : Reader) : Nat := (r.buffer.size - r.cursor) + r.feed.weight

theorem size_append (r : Reader) (cs : List Char) :
    (r.append cs).buffer.size = r.buffer.size + cs.length := by
  simp [append]

theorem pending_append (r : Reader) (cs : List Char) :
    (r.append cs).pending ≤ cs.length + r.pending := by
  have h : (r.append cs).feed.weight = r.feed.weight := rfl
  have hc : (r.append cs).cursor = r.cursor := rfl
  have hs := r.size_append cs
  simp only [pending, h, hc, hs]; omega

theorem pending_le_of_fill {r r' : Reader} (h : fill r = .ok () r') : r'.pending ≤ r.pending := by
  unfold fill at h
  split at h
  · cases h; exact Nat.le_refl _
  · generalize hq : r.feed.request r.chunk = q at h
    obtain ⟨d, feed⟩ := q
    have hw : feed.weight ≤ r.feed.weight := by
      have := Feed.weight_request_le r.chunk r.feed; rw [hq] at this; exact this
    simp only at h
    split at h
    · cases h; simp only [pending]; omega
    · next cs _ =>
      cases h
      refine Nat.le_trans (pending_append _ _) ?_
      have := Feed.length_add_weight_request_le hq
      simp only [pending]; omega
    all_goals exact absurd h (by simp)

theorem pending_le_of_peek {c : Option Char} {r r' : Reader} (h : peek r = .ok c r') :
    r'.pending ≤ r.pending := by
  unfold peek at h
  split at h
  · cases h; exact Nat.le_refl _
  · split at h
    · next hf => cases h; exact pending_le_of_fill hf
    · exact absurd h (by simp)

theorem cursor_lt_of_peek {c : Char} {r r' : Reader} (h : peek r = .ok (some c) r') :
    r'.cursor < r'.buffer.size := by
  unfold peek at h
  split at h
  · next hc => cases h; exact (Array.getElem?_eq_some_iff.1 hc).1
  · split at h
    · simp only [EStateM.Result.ok.injEq] at h
      obtain ⟨hc, rfl⟩ := h
      exact (Array.getElem?_eq_some_iff.1 hc).1
    · exact absurd h (by simp)

/-- **A character read is no longer to come.** -/
theorem pending_lt_of_read {c : Char} {r r' : Reader} (h : read r = .ok (some c) r') :
    r'.pending < r.pending := by
  unfold read at h
  split at h
  · next hp =>
    cases h
    have h₁ := cursor_lt_of_peek hp
    have h₂ := pending_le_of_peek hp
    simp only [pending] at h₂ ⊢; omega
  · exact absurd h (by simp)
  · exact absurd h (by simp)

theorem pending_le_of_read {c : Option Char} {r r' : Reader} (h : read r = .ok c r') :
    r'.pending ≤ r.pending := by
  unfold read at h
  split at h
  · next hp =>
    cases h
    have h₁ := cursor_lt_of_peek hp
    have h₂ := pending_le_of_peek hp
    simp only [pending] at h₂ ⊢; omega
  · next hp =>
    cases h
    have := pending_le_of_peek hp
    simpa only [pending] using this
  · exact absurd h (by simp)

/-- A character pushed back is to come once more. -/
theorem pending_le_of_unread {r r' : Reader} (h : unread r = .ok () r') :
    r'.pending ≤ r.pending + 1 := by
  unfold unread at h
  split at h
  · cases h; simp only [pending]; omega
  · exact absurd h (by simp)

end Reader

end ConfigScript.Source
