import ConfigScript.Cli.Usage
import ConfigScript.Dump
import ConfigScript.Text.Digit
import ConfigScript.Text.Quoted

/-!
# Cli/Arguments — reading the words of a command line

First every word gets its role: it is the marker behind which all words are plain, a plain word, an
option in one of its spellings, or an option that is none (`roles`).  Then the words are taken one
after the other (`take`).  An option has its value in the same word or in the next, which must be
plain; the first plain word that is no value is the input.  A value in the same word may be the
marker, which is no value at all.  Whatever is left over is refused at the end.

These are the rules of the argument parser in release 3.11, before its patch 9.  Later ones take an
attached marker for a value like any other, and act on an option behind one dash before they refuse
the letters attached to it.
-/

namespace ConfigScript.Cli

/-! ## What a command line can come to -/

/-- **What is wrong with a command line.** -/
inductive Misuse where
  /-- a shortened spelling that fits several options -/
  | ambiguous (word : String) (fits : List String)
  /-- an option without its value -/
  | expectedValue (o : Switch)
  /-- a value for an option that takes none -/
  | ignoredValue (o : Switch) (value : String)
  /-- a format that does not exist -/
  | invalidFormat (value : String)
  | missingInput
  | unrecognized (words : List String)
deriving DecidableEq

/-- What is wrong, in a sentence. -/
def Misuse.message : Misuse → String
  | ambiguous word fits =>
    "ambiguous option: " ++ word ++ " could match " ++ ", ".intercalate fits
  | expectedValue o => "argument " ++ o.label ++ ": expected one argument"
  | ignoredValue o value =>
    "argument " ++ o.label ++ ": ignored explicit argument " ++ Text.quoted value
  | invalidFormat value =>
    "argument " ++ Switch.format.label ++ ": invalid choice: " ++ Text.quoted value
      ++ " (choose from " ++ ", ".intercalate (Format.all.map (Text.quoted ·.name)) ++ ")"
  | missingInput => "the following arguments are required: input"
  | unrecognized words => "unrecognized arguments: " ++ " ".intercalate words

/-- Why there is nothing to run: the help was asked for, or the command line is wrong. -/
inductive Stop where
  | help
  | misuse (m : Misuse)
deriving DecidableEq

/-- **A choice of format**: a format, or a blank, which stands against every other choice and leaves
it at the plainest format. -/
inductive Choice where
  | named (f : Format)
  | blank
deriving DecidableEq

/-- The format that is chosen. -/
def Choice.format : Choice → Format
  | named f => f
  | blank => .text

/-- **The arguments of a run.**  An option that was not given is `none` or false. -/
structure Arguments where
  input : String
  output? : Option String := none
  format? : Option Choice := none
  skipWhitespace : Bool := false
  skipComments : Bool := false
  config? : Option String := none
  debug : Bool := false
deriving DecidableEq

/-! ## The roles of words -/

/-- The word behind which every word is plain. -/
def marker : String := "--"

/-- **The role of a word.** -/
inductive Role where
  /-- the first marker -/
  | marker
  | plain
  /-- an option, with the value behind an equals sign if there is one -/
  | option (o : Switch) (value? : Option String)
  /-- an option behind one dash, with the text that is attached to it -/
  | cluster (o : Switch) (attached : List Char)
  /-- an option that is none -/
  | unknown
deriving DecidableEq

/-- A word of a command line with its role. -/
structure Word where
  text : String
  role : Role

/-- Cuts a word at its first equals sign. -/
def splitValue (cs : List Char) : List Char × Option String :=
  match cs.dropWhile (· != '=') with
  | [] => (cs, none)
  | _ :: value => (cs.takeWhile (· != '='), some (String.ofList value))

/-- Whether a word is a negative number: digits, or digits with a point among or before them.  A
line end behind them does not count. -/
def isNegativeNumber (cs : List Char) : Bool :=
  match cs with
  | '-' :: cs =>
    let cs := if cs.getLast? = some '\n' then cs.dropLast else cs
    let whole := cs.takeWhile Text.isDecimalDigit
    match cs.dropWhile Text.isDecimalDigit with
    | [] => !whole.isEmpty
    | '.' :: places => !places.isEmpty && places.all Text.isDecimalDigit
    | _ => false
  | _ => false

/-- The role of a word that begins with a dash and fits no option. -/
def Role.ofStranger (cs : List Char) : Role :=
  if isNegativeNumber cs ∨ ' ' ∈ cs then .plain else .unknown

/-- The role of a word that begins with two dashes and is no full spelling. -/
def Role.ofShortened (cs : List Char) : Except Misuse Role :=
  let (start, value?) := splitValue cs
  match Switch.candidates start with
  | [] => .ok (.ofStranger cs)
  | [(_, o)] => .ok (.option o value?)
  | fits => .error (.ambiguous (String.ofList cs) (fits.map Prod.fst))

/-- The role of a word that begins with two dashes. -/
def Role.ofLong (cs : List Char) : Except Misuse Role :=
  let (start, value?) := splitValue cs
  match Switch.ofSpelling? (String.ofList start) with
  | some o => .ok (.option o value?)
  | none => Role.ofShortened cs

/-- The text attached to an option behind one dash.  An equals sign before it does not count. -/
def attachedText : List Char → List Char
  | '=' :: cs => cs
  | cs => cs

/-- The role of a word that begins with one dash, with a letter and what stands behind it. -/
def Role.ofShort (c : Char) (cs : List Char) : Role :=
  match Switch.ofLetter? c, cs with
  | some o, [] => .option o none
  | some o, cs => .cluster o (attachedText cs)
  | none, cs => .ofStranger ('-' :: c :: cs)

/-- **The role of a word** before the marker. -/
def Role.of : List Char → Except Misuse Role
  | '-' :: '-' :: cs => Role.ofLong ('-' :: '-' :: cs)
  | '-' :: c :: cs => .ok (.ofShort c cs)
  | _ => .ok .plain

/-- **The words of a command line with their roles.** -/
def roles : List String → Except Misuse (List Word)
  | [] => .ok []
  | w :: ws =>
    if w = marker then .ok (⟨w, .marker⟩ :: ws.map (⟨·, .plain⟩))
    else do
      let role ← Role.of w.toList
      return ⟨w, role⟩ :: (← roles ws)

/-! ## Options in one word -/

/-- **The options in one word**: those that are complete, and one whose value has to be the next
word. -/
structure Bundle where
  given : List (Switch × Option String) := []
  open? : Option Switch := none

/-- An option with nothing behind it. -/
def Bundle.bare (o : Switch) : Bundle :=
  if o.takesValue then { open? := some o } else { given := [(o, none)] }

/-- An option with a value behind an equals sign. -/
def Bundle.withValue (o : Switch) (value : String) : Except Misuse Bundle :=
  if o.takesValue then .ok { given := [(o, some value)] } else .error (.ignoredValue o value)

/-- **Options behind one dash.**  The text attached to an option is its value if it needs one, and
else further options. -/
def Bundle.ofCluster (o : Switch) (attached : List Char) : Except Misuse Bundle :=
  match o.takesValue, attached with
  | true, _ | false, [] => Bundle.withValue o (String.ofList attached)
  | false, c :: cs =>
    match Switch.ofLetter? c, cs with
    | none, _ => Bundle.withValue o (String.ofList attached)
    | some o', [] =>
      let b := Bundle.bare o'
      .ok { b with given := (o, none) :: b.given }
    | some o', cs => do
      let b ← Bundle.ofCluster o' cs
      return { b with given := (o, none) :: b.given }

/-- The options in a word that has options. -/
def Bundle.ofRole? : Role → Option (Except Misuse Bundle)
  | .option o (some value) => some (Bundle.withValue o value)
  | .option o none => some (.ok (.bare o))
  | .cluster o attached => some (Bundle.ofCluster o attached)
  | .marker | .plain | .unknown => none

/-! ## Taking the words -/

/-- What was taken so far: the input, the other arguments, and words that are left over. -/
structure Tally where
  input? : Option String := none
  output? : Option String := none
  format? : Option Choice := none
  skipWhitespace : Bool := false
  skipComments : Bool := false
  config? : Option String := none
  debug : Bool := false
  extras : List String := []

namespace Tally

/-- Leaves words over. -/
def leaveOver (t : Tally) (words : List String) : Tally := { t with extras := t.extras ++ words }

/-- The choice of format that a value makes. -/
def choiceOf : Option String → Except Stop Choice
  | none => .ok .blank
  | some name =>
    match Format.ofName? name with
    | some f => .ok (.named f)
    | none => .error (.misuse (.invalidFormat name))

/-- **Takes an option.**  Of an option that is given twice the last counts, and the marker in place
of a value is no value. -/
def set (t : Tally) : Switch × Option String → Except Stop Tally
  | (.help, _) => .error .help
  | (.output, value?) => .ok { t with output? := value?.filter (· ≠ marker) }
  | (.format, value?) => do
    return { t with format? := some (← choiceOf (value?.filter (· ≠ marker))) }
  | (.config, value?) => .ok { t with config? := value?.filter (· ≠ marker) }
  | (.skipWhitespace, _) => .ok { t with skipWhitespace := true }
  | (.skipComments, _) => .ok { t with skipComments := true }
  | (.debug, _) => .ok { t with debug := true }

/-- Takes the options of a word. -/
def setAll (t : Tally) (given : List (Switch × Option String)) : Except Stop Tally :=
  given.foldlM set t

/-- **Takes the words one after the other.** -/
def take (t : Tally) : List Word → Except Stop Tally
  | [] => .ok t
  | w :: ws =>
    match Bundle.ofRole? w.role with
    | some (.error m) => .error (.misuse m)
    | some (.ok b) =>
      match b.open? with
      | none => do take (← t.setAll b.given) ws
      | some o =>
        match ws with
        | ⟨value, .plain⟩ :: ws => do take (← t.setAll (b.given ++ [(o, some value)])) ws
        | _ => .error (.misuse (.expectedValue o))
    | none =>
      match t.input?, w.role, ws with
      | none, .marker, ⟨input, .plain⟩ :: ws => take { t with input? := some input } ws
      | none, .plain, ⟨_, .marker⟩ :: ws => take { t with input? := some w.text } ws
      | none, .plain, ws => take { t with input? := some w.text } ws
      | _, _, ws => take (t.leaveOver [w.text]) ws

/-- The arguments, if the input is there and nothing is left over. -/
def finish (t : Tally) : Except Stop Arguments :=
  match t.input?, t.extras with
  | none, _ => .error (.misuse .missingInput)
  | some input, [] =>
    .ok {
      input
      output? := t.output?
      format? := t.format?
      skipWhitespace := t.skipWhitespace
      skipComments := t.skipComments
      config? := t.config?
      debug := t.debug }
  | some _, extras => .error (.misuse (.unrecognized extras))

end Tally

/-- **The arguments that a command line gives.** -/
def Arguments.parse (argv : List String) : Except Stop Arguments :=
  match roles argv with
  | .error m => .error (.misuse m)
  | .ok words => do (← Tally.take {} words).finish

end ConfigScript.Cli
