import ConfigScript.Lexeme
import ConfigScript.Literal
import ConfigScript.Token

/-!
# Scanner — one token after the other

`scan` reads one token.  `walk` reads tokens up to the end of the text or to the first fault; it
comes to an end because every token but the last leaves less to come (`pending_lt_of_scan`).
-/

namespace ConfigScript

open Source (Reader Reading Fault)

/-- The report on a literal that is never closed. -/
def unterminated (start : Position) : Report := ⟨"unterminated string", start⟩

namespace Form

/-- The kind of the tokens of a form, where the lexeme is as it should be. -/
def kind : Form → Kind
  | terminator => .terminator
  | blank => .whitespace
  | comment => .comment
  | shell => .shellCommand
  | option => .option
  | literal | word => .word

/-- **The token of a lexeme.**  A blank loses its joins, an option its first dash; a literal is
decoded if it was closed, and else kept as it is with a report. -/
def token (form : Form) (x : Lexeme) (start stop : Position) : Except Fault Token :=
  let plain (value : List Char) : Token := ⟨form.kind, String.ofList value, start, stop, none⟩
  match form with
  | blank => .ok (plain (Lexeme.withoutJoins x.chars))
  | option => .ok (plain x.chars.tail)
  | literal =>
    if x.ending = .closed then
      match Literal.decode? x.chars with
      | some value => .ok (plain value)
      | none => .error (.notALiteral (String.ofList x.chars))
    else
      .ok ⟨.invalid, String.ofList x.chars, start, stop, some (unterminated start)⟩
  | terminator | comment | shell | word => .ok (plain x.chars)

end Form

/-- The rest of a token whose first character was read. -/
def scanFrom (start : Position) (c : Char) : Reading Token := fun r =>
  match Lexeme.openForm c r with
  | .error e r => .error e r
  | .ok (form, taken) r =>
    match Lexeme.complete form taken r with
    | .error e r => .error e r
    | .ok x r =>
      match form.token x start r.position with
      | .ok t => .ok t r
      | .error e => .error e r

/-- **Reads one token.**  At the end of the text it is the end token, however often it is asked for;
a fault loses the characters read before it. -/
def scan : Reading Token := fun r =>
  match Reader.read r with
  | .error e r' => .error e r'
  | .ok none r' => .ok ⟨.eof, "", r.position, r'.position, none⟩ r'
  | .ok (some c) r' => scanFrom r.position c r'

theorem pending_le_of_scanFrom {start : Position} {c : Char} {r r' : Reader} {t : Token}
    (h : scanFrom start c r = .ok t r') : r'.pending ≤ r.pending := by
  unfold scanFrom at h
  split at h
  · exact absurd h (by simp)
  · next form taken s ho =>
    have h₁ := Lexeme.pending_le_of_openForm ho
    split at h
    · exact absurd h (by simp)
    · next hx =>
      have h₂ := Lexeme.pending_le_of_complete hx
      split at h
      · cases h; omega
      · exact absurd h (by simp)

/-- **Every token but the end token leaves less to come.** -/
theorem pending_lt_of_scan {r r' : Reader} {t : Token} (h : scan r = .ok t r')
    (ht : t.isEof = false) : r'.pending < r.pending := by
  unfold scan at h
  split at h
  · exact absurd h (by simp)
  · cases h; simp [Token.isEof] at ht
  · next hr =>
    have h₁ := Reader.pending_lt_of_read hr
    have h₂ := pending_le_of_scanFrom h
    omega

/-! ## Walking the whole text -/

/-- **A step of a walk**: the token, and the position behind the text if the feed came to its end
while the token was read. -/
structure Step where
  token : Token
  exhaustion? : Option Position

/-- **A walk through a text**: its steps, the fault that stopped it if there was one, and the reader
behind it. -/
structure Walk where
  steps : List Step
  fault? : Option Fault
  reader : Reader

namespace Walk

/-- The tokens of a walk. -/
def tokens (w : Walk) : List Token := w.steps.map Step.token

/-- Puts a step in front of a walk. -/
def cons (s : Step) (w : Walk) : Walk := { w with steps := s :: w.steps }

/-- The tokens of a walk that no fault stopped. -/
def result (w : Walk) : Except Fault (List Token) :=
  match w.fault? with
  | none => .ok w.tokens
  | some e => .error e

end Walk

/-- The step from one reader to the next by a token. -/
def stepOf (t : Token) (before after : Reader) : Step :=
  ⟨t, if !before.exhausted && after.exhausted then some after.endPosition else none⟩

set_option linter.unusedVariables false in
/-- **Walks through the text** up to the end token or the first fault. -/
def walk (r : Reader) : Walk :=
  match hs : scan r with
  | .error e r' => ⟨[], some e, r'⟩
  | .ok t r' =>
    if ht : t.isEof = true then ⟨[stepOf t r r'], none, r'⟩
    else (walk r').cons (stepOf t r r')
termination_by r.pending
decreasing_by exact pending_lt_of_scan hs (by simpa using ht)

/-- **The tokens of a text**, the end token included. -/
def tokenize (source : String) : List Token := (walk (.ofText source.toList)).tokens

/-- The tokens of a text that stand for something faulty. -/
def invalidTokens (ts : List Token) : List Token := ts.filter (·.kind == .invalid)

/-- The reports on the faulty tokens. -/
def reports (ts : List Token) : List Report := (invalidTokens ts).filterMap Token.error

end ConfigScript
