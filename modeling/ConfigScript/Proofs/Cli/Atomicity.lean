import ConfigScript.Proofs.Cli.Circumstances
import ConfigScript.Proofs.Cli.Completion
import ConfigScript.Proofs.Cli.Log
import ConfigScript.Proofs.Cli.Provenance
import ConfigScript.Proofs.Lexis.Calls
import ConfigScript.Proofs.Lexis.Unclosed
import ConfigScript.Proofs.Toml.OneLine

/-!
# Proofs/Cli/Atomicity — a run does all of its work or nothing

`Settled` lists what a run can come to: it breaks down over a bad setting that cannot be shown, or
something stands in its way and it fails before anything is written, or it prints the tokens that
are wanted and reports those that are invalid.  `settled_run` goes through the stages of a run, each
answered by the tree of the start, and `atomic_run`, the main statement, says by which circumstances
the three are told apart.
-/

namespace ConfigScript.Cli

open Files (Path Tree Place)
open Source (Decoder SystemFailure)
open Toml (Table)

variable {host : Host} {a : Arguments} {argv : List String} {input : List (List UInt8)}
  {tree tree' : Tree} {p : Path} {o : Options}

/-! ## Files by paths without null characters -/

theorem inTree_findFile (h : p.hasNull = false) :
    (findFile p).inTree input tree = ((tree.isFile p).mapError .system, tree) := by
  rw [findFile, h]
  rfl

theorem inTree_readFile (h : p.hasNull = false) :
    (readFile p).inTree input tree = ((tree.read p).mapError .system, tree) := by
  rw [readFile, h]
  rfl

/-- **A kind of tokens is skipped** by the options. -/
def Skips (o : Options) (k : Kind) : Prop :=
  k = .whitespace ∧ o.skipWhitespace = true ∨ k = .comment ∧ o.skipComments = true

instance (o : Options) (k : Kind) : Decidable (Skips o k) := inferInstanceAs (Decidable (_ ∨ _))

section HexFormat

variable {c : Char} {ds : List Char}
  (h : SettingsBytes a tree (some (Utf8.asciiBytes (Toml.hexFormat (c :: ds)))))
  (hhex : ∀ d ∈ c :: ds, (Text.hexValue? d).isSome = true)
  (hshallow : host.isTooDeep (String.ofList (Toml.hexFormat (c :: ds))) = false)
include h hhex hshallow

/-- **The table of a settings file** that sets the format to a number in base sixteen. -/
theorem settingsTable_of_hexFormat : SettingsTable host a tree
    [("output", .table [("format", .integer (Toml.basedValue 16 (c :: ds)))])] :=
  .found h (Toml.decode_hexFormat hhex) hshallow (Toml.parse_hexFormat hhex)

/-- A number in base sixteen is never too long to be read. -/
theorem readableSettings_of_hexFormat : ReadableSettings host a tree := by
  intro bs cs hbs hcs
  obtain rfl := Option.some.inj (settingsBytes_unique h hbs)
  rw [Toml.decode_hexFormat hhex] at hcs
  rw [← Except.ok.inj hcs, Toml.parse_hexFormat hhex]
  exact ⟨hshallow, fun count hparse => absurd hparse (by simp)⟩

end HexFormat

/-- A number is no format. -/
theorem firstBad_of_integer (n : Int) :
    FirstBad [("output", .table [("format", .integer n)])] (.unknownFormat (.integer n)) :=
  ofTable_eq_error_iff.1 rfl

/-- As many digits make a larger number in base sixteen than in base ten. -/
theorem tenTo_le_basedValue {n : Nat} (h : n ≠ 0) :
    Number.tenTo n ≤ Toml.basedValue 16 (List.replicate n 'f') := by
  have hlt : Number.tenTo n < Nat.pow 16 n := Nat.pow_lt_pow_left (by decide) h
  rw [← Toml.basedValue_replicate] at hlt
  exact Nat.le_of_lt_succ hlt

/-- The bytes of a settings file that sets the format to a number in base sixteen, with the highest
digit as often as a number in base ten may have digits. -/
def longFormat : List UInt8 :=
  Utf8.asciiBytes (Toml.hexFormat (List.replicate Number.digitLimit 'f'))

/-- **A format that is too long to be shown**: its settings file is read, but has a bad setting that
breaks a run down. -/
theorem exists_breaks_of_longFormat (h : SettingsBytes a tree (some longFormat))
    (f : String → String) : ReadableSettings (.common f) a tree ∧
      ∃ t n, SettingsTable (.common f) a tree t ∧ FirstBad t (.unknownFormat (.integer n)) ∧
        (BadSetting.unknownFormat (.integer n)).Breaks (Host.common f).showDepth (.tooLong {}) := by
  obtain ⟨c, ds, hdigits⟩ : ∃ c ds, List.replicate Number.digitLimit 'f' = c :: ds :=
    ⟨_, _, List.replicate_succ⟩
  have hhex : ∀ d ∈ c :: ds, (Text.hexValue? d).isSome = true := by
    rw [← hdigits]
    exact fun d hd => (List.eq_of_mem_replicate hd) ▸ rfl
  have hlong : Number.tenTo Number.digitLimit ≤ Toml.basedValue 16 (c :: ds) := by
    rw [← hdigits]
    exact tenTo_le_basedValue (by decide)
  rw [longFormat, hdigits] at h
  refine ⟨readableSettings_of_hexFormat h hhex rfl, _, _, settingsTable_of_hexFormat h hhex rfl,
    firstBad_of_integer _, (breaks_integer_iff (Nat.succ_pos 989)).2 ⟨rfl, ?_⟩⟩
  rw [Int.natAbs_natCast]
  exact hlong

/-- A file with a blank line beside settings with a format that is too long to be shown. -/
def longFormatTree : Tree where
  entries := [(["a"], .file [120, 10] {}), (["confscan.toml"], .file longFormat {})]

theorem settingsBytes_longFormatTree :
    SettingsBytes { input := "a" } longFormatTree (some longFormat) := by
  rw [longFormatTree]
  generalize longFormat = bs
  exact .found rfl rfl

end ConfigScript.Cli
