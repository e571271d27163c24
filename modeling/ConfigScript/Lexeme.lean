import ConfigScript.Source.Reader
import ConfigScript.Text.Space

/-!
# Lexeme — how far a token reaches

The first character of a lexeme settles its form, save that two dashes are needed for an option.
For each further character the form gives a verdict: it belongs to the lexeme, it belongs to it and
is its last, it belongs to what follows, or it joins two lines if a newline stands behind it.
`extend` reads on by these verdicts, and `pending_le_of_extend` says that it hands back no more than
it read.
-/

namespace ConfigScript

open Source (Reader Reading)

/-- **The forms of lexemes.** -/
inductive Form where
  | terminator
  | blank
  | comment
  | shell
  | option
  | literal
  | word
deriving DecidableEq

/-- What a form says to a character that comes next. -/
inductive Verdict where
  /-- it belongs to the lexeme, which goes on; `armed` if it deprives the next of its usual role -/
  | take (armed : Bool)
  /-- it belongs to the lexeme and ends it -/
  | close
  /-- it belongs to what follows -/
  | leave
  /-- it belongs to the lexeme together with a newline behind it; else it belongs to what follows -/
  | join
deriving DecidableEq

namespace Form

/-- The form that a first character announces.  A dash announces a word, which a second dash makes
an option. -/
def ofFirst (c : Char) : Form :=
  if c = '\n' then terminator
  else if isSpace c then blank
  else if c = '#' then comment
  else if c = '!' ∨ c = '@' then shell
  else if c = '"' then literal
  else word

/-- **The verdict of a form on the next character**; `armed` says whether the character before it
deprived it of its usual role. -/
def judge (form : Form) (armed : Bool) (c : Char) : Verdict :=
  match form with
  | terminator => .leave
  | blank => if c = '\\' then .join else if c = '\n' ∨ !isSpace c then .leave else .take false
  | comment | shell => if c = '\n' then .leave else .take false
  | option | word => if isSpace c then .leave else .take false
  | literal =>
    if armed then .take false
    else if c = '\\' then .take true
    else if c = '"' then .close
    else .take false

end Form

/-- How a lexeme came to its end. -/
inductive Ending where
  /-- there was no further character -/
  | exhausted
  /-- the next character belongs to what follows -/
  | boundary
  /-- its last character closed it -/
  | closed
deriving DecidableEq

/-- **A lexeme**: the characters a token stands for, and how they came to their end. -/
structure Lexeme where
  chars : List Char
  ending : Ending
deriving DecidableEq

namespace Lexeme

/-- Pushes a character back that belongs to what follows. -/
def leave (taken : List Char) : Reading Lexeme := fun r =>
  match Reader.unread r with
  | .ok _ r => .ok ⟨taken.reverse, .boundary⟩ r
  | .error e r => .error e r

set_option linter.unusedVariables false in
/-- **Reads a lexeme on** by the verdicts of its form; `taken` holds what was read before, the last
character first. -/
def extend (form : Form) (armed : Bool) (taken : List Char) (r : Reader) :
    EStateM.Result Source.Fault Reader Lexeme :=
  match hr : Reader.read r with
  | .error e r => .error e r
  | .ok none r => .ok ⟨taken.reverse, .exhausted⟩ r
  | .ok (some c) r =>
    match form.judge armed c with
    | .take armed => extend form armed (c :: taken) r
    | .close => .ok ⟨(c :: taken).reverse, .closed⟩ r
    | .leave => leave taken r
    | .join =>
      match hp : Reader.peek r with
      | .error e r => .error e r
      | .ok next r =>
        if next = some '\n' then
          match hn : Reader.read r with
          | .error e r => .error e r
          | .ok d r => extend form false (d.toList ++ c :: taken) r
        else leave taken r
termination_by r.pending
decreasing_by
  · exact Reader.pending_lt_of_read hr
  · have h₁ := Reader.pending_lt_of_read hr
    have h₂ := Reader.pending_le_of_peek hp
    have h₃ := Reader.pending_le_of_read hn
    omega

theorem pending_le_of_leave {taken : List Char} {r r' : Reader} {x : Lexeme}
    (h : leave taken r = .ok x r') : r'.pending ≤ r.pending + 1 := by
  unfold leave at h
  split at h
  · next hu => cases h; exact Reader.pending_le_of_unread hu
  · exact absurd h (by simp)

/-- **A lexeme gives back no more than was read for it.** -/
theorem pending_le_of_extend {form : Form} {armed : Bool} {taken : List Char} {r r' : Reader}
    {x : Lexeme} (h : extend form armed taken r = .ok x r') : r'.pending ≤ r.pending := by
  fun_induction extend form armed taken r with
  | case1 => exact absurd h (by simp)
  | case2 armed taken r s hr => cases h; exact Reader.pending_le_of_read hr
  | case3 armed taken r c s hr a hv ih =>
    have := ih h; have := Reader.pending_lt_of_read hr; omega
  | case4 armed taken r c s hr hv => cases h; exact Reader.pending_le_of_read hr
  | case5 armed taken r c s hr hv =>
    have := pending_le_of_leave h; have := Reader.pending_lt_of_read hr; omega
  | case6 => exact absurd h (by simp)
  | case7 => exact absurd h (by simp)
  | case8 armed taken r c s hr hv s' d s'' hn hp ih =>
    have := ih h
    have := Reader.pending_lt_of_read hr
    have := Reader.pending_le_of_peek hp
    have := Reader.pending_le_of_read hn
    omega
  | case9 armed taken r c s hr hv next s' hp hne =>
    have := pending_le_of_leave h
    have := Reader.pending_lt_of_read hr
    have := Reader.pending_le_of_peek hp
    omega

/-- The lexeme of a form, of which `taken` was read.  The end of a line is a lexeme by itself:
nothing is read behind it. -/
def complete (form : Form) (taken : List Char) : Reading Lexeme := fun r =>
  if form = .terminator then .ok ⟨taken.reverse, .closed⟩ r else extend form false taken r

theorem pending_le_of_complete {form : Form} {taken : List Char} {r r' : Reader} {x : Lexeme}
    (h : complete form taken r = .ok x r') : r'.pending ≤ r.pending := by
  unfold complete at h
  split at h
  · cases h; exact Nat.le_refl _
  · exact pending_le_of_extend h

/-- **Settles the form behind a first character.**  Behind a dash the next character is looked at;
a second dash is read and makes an option. -/
def openForm (c : Char) : Reading (Form × List Char) := fun r =>
  if c = '-' then
    match Reader.peek r with
    | .error e r => .error e r
    | .ok next r =>
      if next = some '-' then
        match Reader.read r with
        | .error e r => .error e r
        | .ok d r => .ok (.option, d.toList ++ [c]) r
      else .ok (.word, [c]) r
  else .ok (.ofFirst c, [c]) r

theorem pending_le_of_openForm {c : Char} {r r' : Reader} {x : Form × List Char}
    (h : openForm c r = .ok x r') : r'.pending ≤ r.pending := by
  unfold openForm at h
  split at h
  · split at h
    · exact absurd h (by simp)
    · next hp =>
      have h₁ := Reader.pending_le_of_peek hp
      split at h
      · split at h
        · exact absurd h (by simp)
        · next hr =>
          have h₂ := Reader.pending_le_of_read hr
          cases h; omega
      · cases h; exact h₁
  · cases h; exact Nat.le_refl _

/-- A blank lexeme without the places where it joins lines. -/
def withoutJoins : List Char → List Char
  | '\\' :: '\n' :: cs => withoutJoins cs
  | c :: cs => c :: withoutJoins cs
  | [] => []

end Lexeme

end ConfigScript
