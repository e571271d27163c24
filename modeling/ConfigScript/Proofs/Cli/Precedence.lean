import ConfigScript.Proofs.Cli.Atomicity

/-!
# Proofs/Cli/Precedence — arguments go before settings, and settings before defaults

The options of a run are refused exactly if something is bad in the table of settings, so no
argument saves a bad setting; else every option is what was given, what is set, or the default
(`Resolution`).  `resolution_of_foundTable` says this of the options that a run finds: the table is
that of the settings file, and only what it says of the output under three keys counts (`Agrees`).

The first bad setting is named, unless it cannot be shown: then the run breaks down over it.
-/

namespace ConfigScript.Cli

open Files (Tree)
open Toml (Table)

variable {host : Host} {a : Arguments} {t t' : Table} {s : BadSetting}
  {input : List (List UInt8)} {tree : Tree}

/-! ## What arguments and a table come to -/

/-- **What arguments and a table come to**, where no more than `depth` values may stand within each
other in one that is shown. -/
structure Resolution (depth : Nat) (a : Arguments) (t : Table) (result : Except Failure Options) :
    Prop where
  /-- they fail exactly if something in the table is bad -/
  fails_iff : (∃ f, result = .error f) ↔ ∃ s, Bad t s
  /-- and the first that is bad is named, if it can be shown -/
  named_iff : ∀ s, result = .error (.setting s) ↔ FirstBad t s ∧ ∀ b, ¬ s.Breaks depth b
  /-- else the run breaks down over it -/
  broken : ∀ f, result = .error f → (∀ s, f ≠ .setting s) →
    ∃ s b, FirstBad t s ∧ s.Breaks depth b ∧ f = .breakdown b
  /-- they give the options in order of precedence exactly if nothing is bad -/
  ok_iff : ∀ o, result = .ok o ↔ (∀ s, ¬ Bad t s) ∧ Prevails a t o

theorem resolution_of_firstBad {depth : Nat} (h : FirstBad t s) :
    Resolution depth a t (.error (.ofSetting depth s)) where
  fails_iff := ⟨fun _ => ⟨s, h.bad⟩, fun _ => ⟨_, rfl⟩⟩
  named_iff s' := by
    rcases named_or_breaks depth s with ⟨hnamed, hshown⟩ | ⟨b, hbroken, hbreaks⟩
    · rw [hnamed]
      constructor
      · intro hs
        cases hs
        exact ⟨h, hshown⟩
      · rintro ⟨h', -⟩
        rw [h.unique h']
    · rw [hbroken]
      constructor
      · intro hs
        cases hs
      · rintro ⟨h', hshown⟩
        exact absurd (h.unique h' ▸ hbreaks) (hshown b)
  broken f hf hne := by
    obtain rfl := Except.error.inj hf
    rcases named_or_breaks depth s with ⟨hnamed, -⟩ | ⟨b, hbroken, hbreaks⟩
    · exact absurd hnamed (hne s)
    · exact ⟨s, b, h, hbreaks, hbroken⟩
  ok_iff o := ⟨fun ho => absurd ho (by simp), fun ho => absurd h.bad (ho.1 s)⟩

theorem resolution_of_sets {depth : Nat} {x : Settings} (h : Sets t x) :
    Resolution depth a t (.ok (.of a x)) where
  fails_iff := ⟨fun ⟨_, hf⟩ => absurd hf (by simp), fun ⟨s, hs⟩ => absurd hs (h.not_bad s)⟩
  named_iff s := ⟨fun hs => absurd hs (by simp), fun hs => absurd hs.1.bad (h.not_bad s)⟩
  broken f hf := absurd hf (by simp)
  ok_iff o := by
    rw [prevails_iff h]
    exact ⟨fun ho => ⟨h.not_bad, (Except.ok.inj ho).symm⟩, fun ho => congrArg Except.ok ho.2.symm⟩

/-- **Arguments and a table resolve.** -/
theorem resolution_resolve (depth : Nat) (a : Arguments) (t : Table) :
    Resolution depth a t ((Options.resolve a t).mapError (.ofSetting depth)) := by
  rw [Options.resolve]
  rcases firstBad_or_sets t with ⟨s, hs, hfirst⟩ | ⟨x, hx, hsets⟩
  · rw [hs]
    exact resolution_of_firstBad hfirst
  · rw [hx]
    exact resolution_of_sets hsets

/-! ## What counts of a table -/

/-- **Tables agree on the output**: it is a table in both or in neither, and the same stands there
under the three keys. -/
structure Agrees (t t' : Table) : Prop where
  output : NoOutputTable t ↔ NoOutputTable t'
  format : outputValue? t "format" = outputValue? t' "format"
  skipWhitespace : outputValue? t "skip_whitespace" = outputValue? t' "skip_whitespace"
  skipComments : outputValue? t "skip_comments" = outputValue? t' "skip_comments"

theorem Agrees.symm (h : Agrees t t') : Agrees t' t :=
  ⟨h.output.symm, h.format.symm, h.skipWhitespace.symm, h.skipComments.symm⟩

theorem Agrees.bad (h : Agrees t t') (hs : Bad t s) : Bad t' s := by
  cases hs with
  | outputNotATable hno => exact .outputNotATable (h.output.1 hno)
  | unknownFormat hv htext hjson => exact .unknownFormat (h.format ▸ hv) htext hjson
  | notBoolean hkey hv hnone =>
    refine .notBoolean hkey ?_ hnone
    rcases hkey with rfl | rfl
    · exact h.skipWhitespace ▸ hv
    · exact h.skipComments ▸ hv

theorem Agrees.firstBad (h : Agrees t t') (hs : FirstBad t s) : FirstBad t' s :=
  ⟨h.bad hs.bad, fun s' hs' => hs.clear s' (h.symm.bad hs')⟩

theorem Agrees.prevails {o : Options} (h : Agrees t t') (ho : Prevails a t o) :
    Prevails a t' o := by
  have hformat : setFormat? t' = setFormat? t := by rw [setFormat?, ← h.format, setFormat?]
  have hskipWhitespace : setSwitch? t' "skip_whitespace" = setSwitch? t "skip_whitespace" := by
    rw [setSwitch?, ← h.skipWhitespace, setSwitch?]
  have hskipComments : setSwitch? t' "skip_comments" = setSwitch? t "skip_comments" := by
    rw [setSwitch?, ← h.skipComments, setSwitch?]
  exact ⟨hformat ▸ ho.format, hskipWhitespace ▸ ho.skipWhitespace,
    hskipComments ▸ ho.skipComments, ho.input, ho.output, ho.debug⟩

/-- **Only what tables agree on counts.** -/
theorem Agrees.resolve_eq (h : Agrees t t') (a : Arguments) :
    Options.resolve a t = Options.resolve a t' := by
  rw [Options.resolve, Options.resolve]
  rcases firstBad_or_sets t with ⟨s, hs, hfirst⟩ | ⟨x, hx, hsets⟩
  · rw [hs, ofTable_eq_error_iff.2 (h.firstBad hfirst)]
  · rcases firstBad_or_sets t' with ⟨s, -, hfirst⟩ | ⟨x', hx', hsets'⟩
    · exact absurd (h.symm.bad hfirst.bad) (hsets.not_bad s)
    · rw [hx, hx']
      exact congrArg Except.ok
        ((prevails_iff hsets').1 (h.prevails ((prevails_iff hsets).2 rfl)))

/-! ## The options of a run -/

/-- **The table that a run finds**: that of the settings file.  A settings file that cannot be asked
for sets nothing. -/
inductive FoundTable (host : Host) (a : Arguments) (tree : Tree) : Table → Prop
  | unaskable : a.settingsPath.hasNull = true → FoundTable host a tree []
  | settings {t : Table} : a.settingsPath.hasNull = false → SettingsTable host a tree t →
      FoundTable host a tree t

theorem options_resolve (h : FoundTable host a tree t) :
    ((resolve host a).inTree input tree).1.options
      = (Options.resolve a t).mapError (.ofSetting host.showDepth) := by
  rw [resolve]
  simp only [Dialog.bind_eq, Dialog.inTree_bind]
  cases h with
  | unaskable hnull =>
    rw [findFile, hnull]
    rfl
  | settings hnull ht =>
    rw [inTree_findFile hnull]
    cases ht with
    | missing h =>
      cases h with
      | missing hfile =>
        rw [hfile]
        rfl
    | @found bs cs _ h hdecode hshallow hparse =>
      have htable : settingsOf host bs = .ok t := by
        rw [settingsOf, hdecode]
        simp only [settingsTable, hshallow, Bool.false_eq_true, if_false, hparse, Except.mapError]
      cases h with
      | found hfile hread =>
        simp only [hfile, Except.mapError, Dialog.inTree_bind, inTree_readFile hnull, hread]
        change optionsOf host a (some bs) = _
        rw [optionsOf]
        simp only [htable]
        rfl

/-- **The options that a run finds** are refused exactly over the first bad setting in the table,
whatever was given; else they are what was given, what is set, or the defaults.  Nothing else in the
table counts, and nothing else in the world. -/
theorem resolution_of_foundTable (h : FoundTable host a tree t) (input : List (List UInt8)) :
    Resolution host.showDepth a t ((resolve host a).inTree input tree).1.options ∧
      ∀ {input' tree' t'}, FoundTable host a tree' t' → Agrees t t' →
        ((resolve host a).inTree input' tree').1.options
          = ((resolve host a).inTree input tree).1.options := by
  rw [options_resolve h]
  refine ⟨resolution_resolve host.showDepth a t, fun h' hagrees => ?_⟩
  rw [options_resolve h', hagrees.resolve_eq]

/-- A number as the format is refused, although a format is given. -/
theorem resolution_number_as_format :
    ((resolve (.common fun _ => "") { input := "a", format? := some (.named .json) }).inTree []
      { entries := [(["confscan.toml"],
          .file (Utf8.asciiBytes (Toml.hexFormat ['f'])) {})] }).1.options
      = .error (.setting (.unknownFormat (.integer 15))) := by
  have hhex : ∀ d ∈ ['f'], (Text.hexValue? d).isSome = true :=
    List.forall_mem_singleton.2 (by decide)
  have htable : SettingsTable (.common fun _ => "")
      { input := "a", format? := some (.named .json) }
      { entries := [(["confscan.toml"], .file (Utf8.asciiBytes (Toml.hexFormat ['f'])) {})] }
      [("output", .table [("format", .integer 15)])] :=
    settingsTable_of_hexFormat (.found rfl rfl) hhex rfl
  have hshort : 15 < Number.tenTo Number.digitLimit :=
    Nat.lt_of_lt_of_le (by decide : 15 < Number.tenTo 2) (Number.tenTo_le_tenTo (by decide))
  refine ((resolution_of_foundTable (.settings rfl htable) []).1.named_iff _).2
    ⟨firstBad_of_integer 15, fun b hb => ?_⟩
  exact absurd ((breaks_integer_iff (by decide)).1 hb).2 (Nat.not_le.2 hshort)

/-! ## A bad setting that cannot be shown -/

/-- **A bad setting that is not named**: it is the first in its table, but too long to be shown. -/
theorem resolve_long_format : ∃ t s, FirstBad t s ∧
    FoundTable (.common fun _ => "") { input := "a" } longFormatTree t ∧
    ((resolve (.common fun _ => "") { input := "a" }).inTree [] longFormatTree).1.options
      = .error (.breakdown (.tooLong {})) := by
  obtain ⟨-, t, n, ht, hfirst, hbreaks⟩ :=
    exists_breaks_of_longFormat settingsBytes_longFormatTree fun _ => ""
  have hfound : FoundTable (.common fun _ => "") { input := "a" } longFormatTree t :=
    .settings rfl ht
  refine ⟨t, _, hfirst, hfound, ?_⟩
  rw [options_resolve hfound, Options.resolve, ofTable_eq_error_iff.2 hfirst]
  change Except.error (Failure.ofSetting _ _) = _
  rcases named_or_breaks (Host.common fun _ => "").showDepth (.unknownFormat (.integer n)) with
    ⟨-, hshown⟩ | ⟨b, hbroken, hb⟩
  · exact absurd hbreaks (hshown _)
  · rw [hbroken, ((breaks_integer_iff (by decide)).1 hb).1]

end ConfigScript.Cli
