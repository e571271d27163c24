import ConfigScript.Report

/-!
# Token — what a lexer delivers

A token has a kind, a value, the positions at which it starts and stops, and, when the text it
stands for is faulty, a report.  Tokens are the same when all of these agree, where of a report only
the message counts; `signature_eq_of_beq` says that the same tokens have the same signature.
-/

namespace ConfigScript

/-- **The kinds of tokens.** -/
inductive Kind where
  /-- text that no rule accepts -/
  | invalid
  /-- a plain word or a decoded literal -/
  | word
  /-- a name behind two dashes -/
  | option
  /-- a run of blanks, joined lines included -/
  | whitespace
  /-- from a number sign to the end of the line -/
  | comment
  /-- from `!` or `@` to the end of the line -/
  | shellCommand
  /-- the end of a line -/
  | terminator
  /-- the end of the text -/
  | eof
deriving DecidableEq, Inhabited, Hashable

namespace Kind

/-- All kinds, in the order in which they are listed to a reader. -/
def all : List Kind :=
  [invalid, word, option, whitespace, comment, shellCommand, terminator, eof]

theorem mem_all (k : Kind) : k ∈ all := by cases k <;> decide

/-- The kind in a sentence. -/
def label : Kind → String
  | invalid => "Invalid"
  | word => "Word"
  | option => "Option"
  | whitespace => "White Space"
  | comment => "Comment"
  | shellCommand => "Shell Command"
  | terminator => "Terminator"
  | eof => "EOF"

/-- The kind in a data format. -/
def name : Kind → String
  | invalid => "INVALID"
  | word => "WORD"
  | option => "OPTION"
  | whitespace => "WHITESPACE"
  | comment => "COMMENT"
  | shellCommand => "SHELL_COMMAND"
  | terminator => "TERMINATOR"
  | eof => "EOF"

/-- The kind that goes by a name. -/
def ofName? (s : String) : Option Kind := all.find? (·.name == s)

/-- **A set of kinds in a sentence**: the labels in the order of `all`, whatever order and however
often the kinds are given. -/
def formatAll (ks : List Kind) : String :=
  " or ".intercalate ((all.filter (ks.contains ·)).map label)

end Kind

/-- **A token**: `start` is the position of its first character, `stop` the position behind its
last, so that tokens that follow each other share a position. -/
structure Token where
  kind : Kind
  value : String
  start : Position
  stop : Position
  error : Option Report := none
deriving Inhabited

namespace Token

/-- Whether the token stands for the end of the text. -/
def isEof (t : Token) : Bool := t.kind == .eof

/-- The message of a faulty token. -/
def message? (t : Token) : Option String := t.error.map Report.message

/-- What a token is apart from its report. -/
def signature (t : Token) : Kind × String × Position × Position :=
  (t.kind, t.value, t.start, t.stop)

/-- **Sameness of tokens**: the position inside a report does not count. -/
instance : BEq Token := ⟨fun s t => s.signature == t.signature && s.message? == t.message?⟩

theorem beq_def (s t : Token) :
    (s == t) = (s.signature == t.signature && s.message? == t.message?) := rfl

/-- **Tokens are the same** exactly when signature and message agree. -/
theorem beq_iff (s t : Token) :
    (s == t) = true ↔ s.signature = t.signature ∧ s.message? = t.message? := by
  simp [beq_def]

/-- The same tokens have the same signature, so a table may file them by it. -/
theorem signature_eq_of_beq {s t : Token} (h : (s == t) = true) : s.signature = t.signature :=
  ((beq_iff s t).1 h).1

instance : Hashable Token := ⟨fun t => hash t.signature⟩

end Token

end ConfigScript
