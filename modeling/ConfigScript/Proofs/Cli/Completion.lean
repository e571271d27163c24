import ConfigScript.Cli.Run
import ConfigScript.Proofs.Lexis.Lossless
import ConfigScript.Proofs.Source.Incoming

/-!
# Proofs/Cli/Completion — a run in which nothing fails

`Completes` says what has to succeed in a run: finding the options, reading the input to its end,
writing the tokens.  Such a run has an outcome, and its exit code tells whether a token is invalid
(`exists_outcome_of_completes`); which tokens it finds is `result_walkInput`.

The stages of a run are answered by one tree after the other.  Only the last writes, so that all of
them meet the tree of the start: a **quiet** dialog writes nothing, and leaves the tree as it is.
-/

namespace ConfigScript.Cli

open Files (Path Tree)

namespace Dialog

variable {α β : Type}

/-- **A dialog that writes nothing.** -/
def Quiet : Dialog α → Prop
  | result _ => True
  | isFile _ next => ∀ r, (next r).Quiet
  | readFile _ next => ∀ r, (next r).Quiet
  | readInput next => ∀ pieces, (next pieces).Quiet
  | writeFile .. => False

theorem Quiet.bind {d : Dialog α} {f : α → Dialog β} (hd : d.Quiet) (hf : ∀ a, (f a).Quiet) :
    (d.bind f).Quiet := by
  induction d with
  | result a => exact hf a
  | isFile p next ih => exact fun r => ih r (hd r)
  | readFile p next ih => exact fun r => ih r (hd r)
  | readInput next ih => exact fun pieces => ih pieces (hd pieces)
  | writeFile p content next => exact hd.elim

/-- **What writes nothing leaves the tree as it is.** -/
theorem Quiet.tree_eq {d : Dialog α} (hd : d.Quiet) (input : List (List UInt8)) (t : Tree) :
    (d.inTree input t).2 = t := by
  induction d with
  | result a => rfl
  | isFile p next ih => exact ih _ (hd _)
  | readFile p next ih => exact ih _ (hd _)
  | readInput next ih => exact ih _ (hd _)
  | writeFile p content next => exact hd.elim

/-- What follows a quiet dialog meets the same tree. -/
theorem Quiet.inTree_bind {d : Dialog α} (hd : d.Quiet) (input : List (List UInt8))
    (f : α → Dialog β) (t : Tree) :
    (d.bind f).inTree input t = (f (d.inTree input t).1).inTree input t := by
  rw [Dialog.inTree_bind, hd.tree_eq]

end Dialog

/-! ## The stages of a run -/

variable {host : Host}

theorem quiet_findFile (p : Path) : (findFile p).Quiet := by
  rw [findFile]
  split
  · exact trivial
  · exact fun r => trivial

theorem quiet_readFile (p : Path) : (readFile p).Quiet := by
  rw [readFile]
  split
  · exact trivial
  · exact fun r => trivial

/-- **Finding the options writes nothing.** -/
theorem quiet_resolve (a : Arguments) : (resolve host a).Quiet := by
  refine (quiet_findFile a.settingsPath).bind fun found => ?_
  match found with
  | .error f => exact trivial
  | .ok false => exact trivial
  | .ok true =>
    refine (quiet_readFile a.settingsPath).bind fun content => ?_
    cases content with
    | error f => exact trivial
    | ok content => exact trivial

/-- **Reading the input writes nothing.** -/
theorem quiet_inputPieces (o : Options) : (inputPieces host o).Quiet := by
  rw [inputPieces]
  split
  · exact fun pieces => trivial
  · exact (quiet_readFile _).bind fun content => trivial

/-- **The tokens of an input** are those of its text, each line end a newline. -/
theorem result_walkInput {pieces : List (List UInt8)} {cs : List Char}
    (h : Utf8.decode pieces.flatten = .ok cs) :
    (walkInput pieces).result = .ok (tokenize (String.ofList (Text.unifyNewlines cs))) := by
  rw [walkInput, Source.Feed.ofPieces_of_decode _ h]
  exact (lossless_walk (.stream (by decide))).1

/-- **A run in which nothing fails**: the command line and the settings give options, the input is
read to its end, and the tokens that are found in it are written. -/
structure Completes (host : Host) (argv : List String) (input : List (List UInt8)) (tree : Tree)
    (a : Arguments) (o : Options) (pieces : List (List UInt8)) (ts : List Token) : Prop where
  parsed : Arguments.parse argv = .ok a
  resolved : ((resolve host a).inTree input tree).1.options = .ok o
  read : ((inputPieces host o).inTree input tree).1 = .ok pieces
  scanned : (walkInput pieces).result = .ok ts
  written : ∃ stdout, ((writeTokens o ts).inTree input tree).1 = .ok stdout

/-- **A run in which nothing fails tells by its exit code** whether there is an invalid token. -/
theorem exists_outcome_of_completes {argv : List String} {input : List (List UInt8)}
    {tree : Tree} {a : Arguments} {o : Options} {pieces : List (List UInt8)} {ts : List Token}
    (h : Completes host argv input tree a o pieces ts) :
    ∃ outcome, ((run host argv).inTree input tree).1 = .ok outcome ∧
      outcome.exit = if invalidTokens ts = [] then 0 else 1 := by
  obtain ⟨stdout, hwritten⟩ := h.written
  rw [run, h.parsed]
  simp only [runArguments, Dialog.bind_eq]
  rw [(quiet_resolve a).inTree_bind, h.resolved]
  simp only [runWith, Dialog.bind_eq]
  rw [(quiet_inputPieces o).inTree_bind, h.read]
  simp only [h.scanned]
  rw [Dialog.inTree_bind, hwritten]
  exact ⟨_, rfl, by simp only [List.isEmpty_iff]⟩

end ConfigScript.Cli
