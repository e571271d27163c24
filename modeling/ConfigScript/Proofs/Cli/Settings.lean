import ConfigScript.Cli.Outcome
import ConfigScript.Proofs.Toml.Shown

/-!
# Proofs/Cli/Settings — what a table of settings says

A table of settings can be bad in four places, and `Bad` says of each what is bad there, by the
table alone.  `FirstBad` is the one that is met first.  The settings are refused exactly over the
first that is bad (`ofTable_eq_error_iff`); else every option is what was given, what is set, or the
default (`Prevails`), and these are the options that arguments and settings give (`prevails_iff`).
-/

namespace ConfigScript.Cli

open Toml (Table Value)

variable {a : Arguments} {t : Table} {s : BadSetting}

/-! ## What a table sets -/

/-- **What a table sets** under a key of its output. -/
def outputValue? (t : Table) (key : String) : Option Value :=
  match t.get? "output" with
  | some (.table output) => Table.get? output key
  | _ => none

/-- The format that a table sets. -/
def setFormat? (t : Table) : Option Choice :=
  match outputValue? t "format" with
  | some (.text "text") => some (.named .text)
  | some (.text "json") => some (.named .json)
  | _ => none

/-- What a table sets to be on or off. -/
def setSwitch? (t : Table) (key : String) : Option Bool :=
  match outputValue? t key with
  | some (.boolean b) => some b
  | _ => none

/-! ## What is bad in a table -/

/-- The output of a table is no table. -/
def NoOutputTable (t : Table) : Prop :=
  ∃ v, t.get? "output" = some v ∧ ∀ output, v ≠ .table output

/-- **What is bad in a table**: an output that is no table, a format that is not the text of a
format, something to be on or off that is no boolean. -/
inductive Bad (t : Table) : BadSetting → Prop
  | outputNotATable : NoOutputTable t → Bad t .outputNotATable
  | unknownFormat {v} : outputValue? t "format" = some v → v ≠ .text "text" → v ≠ .text "json" →
      Bad t (.unknownFormat v)
  | notBoolean {key v} : key = "skip_whitespace" ∨ key = "skip_comments" →
      outputValue? t key = some v → (∀ b, v ≠ .boolean b) → Bad t (.notBoolean key)

/-- The place of a bad setting in the order in which settings are looked at. -/
def BadSetting.place : BadSetting → Nat
  | outputNotATable => 0
  | unknownFormat _ => 1
  | notBoolean key => if key = "skip_whitespace" then 2 else 3

/-- Nothing that is bad stands before a place. -/
def Clear (t : Table) (n : Nat) : Prop := ∀ s, Bad t s → n ≤ s.place

/-- **The first that is bad** in a table. -/
structure FirstBad (t : Table) (s : BadSetting) : Prop where
  bad : Bad t s
  clear : Clear t s.place

/-- **No two bad settings stand in one place.** -/
theorem Bad.eq_of_place {s' : BadSetting} (h : Bad t s) (h' : Bad t s')
    (hplace : s.place = s'.place) : s = s' := by
  cases h <;> cases h' <;> grind [BadSetting.place]

/-- So there is one first that is bad. -/
theorem FirstBad.unique {s' : BadSetting} (h : FirstBad t s) (h' : FirstBad t s') : s = s' :=
  h.bad.eq_of_place h'.bad (Nat.le_antisymm (h.clear s' h'.bad) (h'.clear s h.bad))

theorem Clear.succ {n : Nat} (h : Clear t n) (hn : ∀ s, Bad t s → s.place ≠ n) :
    Clear t (n + 1) :=
  fun s hs => Nat.lt_of_le_of_ne (h s hs) (hn s hs).symm

/-- There are no more than four places. -/
theorem Clear.not_bad (h : Clear t 4) (s : BadSetting) : ¬ Bad t s := by
  intro hs
  have hle := h s hs
  cases hs <;> grind [BadSetting.place]

/-! ## The settings are looked at in order -/

theorem firstBad_of_outputTable (h : Settings.outputTable t = .error s) : FirstBad t s := by
  rw [Settings.outputTable.eq_def] at h
  split at h
  · exact absurd h (by simp)
  · exact absurd h (by simp)
  · next v hnone hv =>
    obtain rfl := Except.error.inj h
    exact ⟨.outputNotATable ⟨v, hv, hnone⟩, fun s _ => Nat.zero_le _⟩

theorem clear_of_outputTable {output : Table} (h : Settings.outputTable t = .ok output) :
    Clear t 1 ∧ ∀ key, outputValue? t key = Table.get? output key := by
  have hclear (hno : ¬ NoOutputTable t) : Clear t 1 := by
    refine Clear.succ (fun s _ => Nat.zero_le _) fun s hs => ?_
    cases hs <;> grind [BadSetting.place]
  rw [Settings.outputTable.eq_def] at h
  split at h
  · next hmissing =>
    obtain rfl := Except.ok.inj h
    refine ⟨hclear fun ⟨v, hv, _⟩ => absurd (hmissing.symm.trans hv) (by simp), fun key => ?_⟩
    rw [outputValue?, hmissing]
    rfl
  · next hfound =>
    obtain rfl := Except.ok.inj h
    refine ⟨hclear fun ⟨v, hv, hnone⟩ => hnone _ (Option.some.inj (hv.symm.trans hfound)),
      fun key => ?_⟩
    rw [outputValue?, hfound]
  · exact absurd h (by simp)

/-- A name is that of the format that goes by it. -/
theorem eq_name_of_ofName? {name : String} {f : Format} (h : Format.ofName? name = some f) :
    name = f.name := by
  rw [Format.ofName?] at h
  exact (beq_iff_eq.1 (List.find?_some h :)).symm

theorem ne_of_ofName?_eq_none {name : String} (h : Format.ofName? name = none) :
    name ≠ "text" ∧ name ≠ "json" := by
  have hne (f : Format) : name ≠ f.name := by
    rintro rfl
    exact absurd (h.symm.trans (Format.ofName?_name f)) (by simp)
  exact ⟨hne .text, hne .json⟩

section Output

variable {output : Table} (houtput : ∀ key, outputValue? t key = Table.get? output key)
include houtput

theorem firstBad_of_formatOf (hclear : Clear t 1) (h : Settings.formatOf output = .error s) :
    FirstBad t s := by
  rw [Settings.formatOf.eq_def, ← houtput] at h
  split at h
  · exact absurd h (by simp)
  · next v hv =>
    have hs : s = .unknownFormat v ∧ v ≠ .text "text" ∧ v ≠ .text "json" := by
      split at h
      · next name =>
        split at h
        · exact absurd h (by simp)
        · next hname =>
          exact ⟨(Except.error.inj h).symm, by simpa using ne_of_ofName?_eq_none hname⟩
      · next hnone => exact ⟨(Except.error.inj h).symm, hnone _, hnone _⟩
    obtain ⟨rfl, htext, hjson⟩ := hs
    exact ⟨.unknownFormat hv htext hjson, hclear⟩

theorem clear_of_formatOf {f : Format} (hclear : Clear t 1) (h : Settings.formatOf output = .ok f) :
    Clear t 2 ∧ (setFormat? t).getD (.named .text) = .named f := by
  have hsucc (hno : ∀ v, outputValue? t "format" = some v → v = .text "text" ∨ v = .text "json") :
      Clear t 2 := by
    refine hclear.succ fun s hs => ?_
    cases hs <;> grind [BadSetting.place]
  rw [Settings.formatOf.eq_def, ← houtput] at h
  split at h
  · next hmissing =>
    obtain rfl := Except.ok.inj h
    refine ⟨hsucc fun v hv => absurd (hmissing.symm.trans hv) (by simp), ?_⟩
    rw [setFormat?, hmissing]
    rfl
  · next v hv =>
    split at h
    · next name =>
      split at h
      · next f' hname =>
        obtain rfl := Except.ok.inj h
        obtain rfl := eq_name_of_ofName? hname
        refine ⟨hsucc fun w hw => ?_, ?_⟩
        · obtain rfl := Option.some.inj (hv.symm.trans hw)
          cases f'
          · exact .inl rfl
          · exact .inr rfl
        · rw [setFormat?, hv]
          cases f' <;> rfl
      · exact absurd h (by simp)
    · exact absurd h (by simp)

variable {key : String} (hkey : key = "skip_whitespace" ∨ key = "skip_comments")
  (hclear : Clear t (BadSetting.notBoolean key).place)
include hkey hclear

theorem firstBad_of_switchOf (h : Settings.switchOf output key = .error s) : FirstBad t s := by
  rw [Settings.switchOf.eq_def, ← houtput] at h
  split at h
  · exact absurd h (by simp)
  · exact absurd h (by simp)
  · next v hnone hv =>
    obtain rfl := Except.error.inj h
    exact ⟨.notBoolean hkey hv hnone, hclear⟩

theorem clear_of_switchOf {b : Bool} (h : Settings.switchOf output key = .ok b) :
    Clear t ((BadSetting.notBoolean key).place + 1) ∧ (setSwitch? t key).getD false = b := by
  have hsucc (hno : ∀ v, outputValue? t key = some v → ∃ b, v = .boolean b) :
      Clear t ((BadSetting.notBoolean key).place + 1) := by
    refine hclear.succ fun s hs => ?_
    cases hs <;> grind [BadSetting.place]
  rw [Settings.switchOf.eq_def, ← houtput] at h
  split at h
  · next hmissing =>
    obtain rfl := Except.ok.inj h
    refine ⟨hsucc fun v hv => absurd (hmissing.symm.trans hv) (by simp), ?_⟩
    rw [setSwitch?, hmissing]
    rfl
  · next b' hb =>
    obtain rfl := Except.ok.inj h
    refine ⟨hsucc fun v hv => ⟨b', Option.some.inj (hv.symm.trans hb)⟩, ?_⟩
    rw [setSwitch?, hb]
    rfl
  · exact absurd h (by simp)

end Output

/-- **The settings that a table sets**, where nothing in it is bad. -/
structure Sets (t : Table) (x : Settings) : Prop where
  not_bad : ∀ s, ¬ Bad t s
  format : (setFormat? t).getD (.named .text) = .named x.format
  skipWhitespace : (setSwitch? t "skip_whitespace").getD false = x.skipWhitespace
  skipComments : (setSwitch? t "skip_comments").getD false = x.skipComments

/-- **A table is refused over the first that is bad**, or it sets what it says. -/
theorem firstBad_or_sets (t : Table) :
    (∃ s, Settings.ofTable t = .error s ∧ FirstBad t s) ∨
      ∃ x, Settings.ofTable t = .ok x ∧ Sets t x := by
  rw [Settings.ofTable]
  cases hout : Settings.outputTable t with
  | error s => exact .inl ⟨s, rfl, firstBad_of_outputTable hout⟩
  | ok output =>
  obtain ⟨hclear, houtput⟩ := clear_of_outputTable hout
  simp only [bind, Except.bind]
  cases hformat : Settings.formatOf output with
  | error s => exact .inl ⟨s, rfl, firstBad_of_formatOf houtput hclear hformat⟩
  | ok f =>
  obtain ⟨hclear, hf⟩ := clear_of_formatOf houtput hclear hformat
  simp only
  cases hblank : Settings.switchOf output "skip_whitespace" with
  | error s => exact .inl ⟨s, rfl, firstBad_of_switchOf houtput (.inl rfl) hclear hblank⟩
  | ok b =>
  obtain ⟨hclear, hb⟩ := clear_of_switchOf houtput (.inl rfl) hclear hblank
  simp only
  cases hcomment : Settings.switchOf output "skip_comments" with
  | error s => exact .inl ⟨s, rfl, firstBad_of_switchOf houtput (.inr rfl) hclear hcomment⟩
  | ok c =>
  obtain ⟨hclear, hc⟩ := clear_of_switchOf houtput (.inr rfl) hclear hcomment
  exact .inr ⟨_, rfl, hclear.not_bad, hf, hb, hc⟩

/-- **A table is refused exactly over the first that is bad.** -/
theorem ofTable_eq_error_iff : Settings.ofTable t = .error s ↔ FirstBad t s := by
  rcases firstBad_or_sets t with ⟨s', hs', hfirst⟩ | ⟨x, hx, hsets⟩
  · rw [hs', Except.error.injEq]
    exact ⟨fun h => h ▸ hfirst, hfirst.unique⟩
  · rw [hx]
    exact ⟨fun h => absurd h (by simp), fun h => absurd h.bad (hsets.not_bad s)⟩

/-! ## Bad settings that cannot be shown -/

/-- **A run breaks down over a bad setting** that cannot be shown, where no more than `depth` values
may stand within each other. -/
inductive BadSetting.Breaks (depth : Nat) : BadSetting → Breakdown → Prop
  | tooLong {v} : v.HasTrouble depth .tooLong → Breaks depth (.unknownFormat v) (.tooLong {})
  | tooDeep {v} : v.HasTrouble depth .tooDeep → Breaks depth (.unknownFormat v) .tooDeepToShow

theorem BadSetting.trouble?_ne_none {depth : Nat} {b : Breakdown} (h : s.Breaks depth b) :
    s.trouble? depth ≠ none := by
  cases h with
  | tooLong h | tooDeep h => exact h.trouble?_ne_none

/-- **A bad setting is named, or a run breaks down over it.** -/
theorem named_or_breaks (depth : Nat) (s : BadSetting) :
    (Failure.ofSetting depth s = .setting s ∧ ∀ b, ¬ s.Breaks depth b) ∨
      ∃ b, Failure.ofSetting depth s = .breakdown b ∧ s.Breaks depth b := by
  rw [Failure.ofSetting]
  cases h : s.trouble? depth with
  | none => exact .inl ⟨rfl, fun b hb => BadSetting.trouble?_ne_none hb h⟩
  | some trouble =>
    cases s with
    | unknownFormat v =>
      have htrouble := Value.hasTrouble_of_trouble? h
      cases trouble with
      | tooLong => exact .inr ⟨_, rfl, .tooLong htrouble⟩
      | tooDeep => exact .inr ⟨_, rfl, .tooDeep htrouble⟩
    | _ => cases h

/-- **A whole number breaks a run down exactly if it is too long**: it has no levels. -/
theorem breaks_integer_iff {n : Int} {depth : Nat} {b : Breakdown} (hdepth : 0 < depth) :
    (BadSetting.unknownFormat (.integer n)).Breaks depth b ↔
      b = .tooLong {} ∧ Number.tenTo Number.digitLimit ≤ n.natAbs := by
  constructor
  · intro h
    cases h with
    | tooLong h =>
      cases h with
      | tooLong hholds hlong =>
        cases hholds
        exact ⟨rfl, hlong⟩
    | tooDeep h =>
      cases h with
      | tooDeep hholds hle =>
        cases hholds
        exact absurd hdepth (Nat.not_lt.2 hle)
  · rintro ⟨rfl, hlong⟩
    exact .tooLong (.tooLong (.self _) hlong)

/-! ## What prevails -/

/-- Something that can only be turned on, if it was given. -/
def given? (b : Bool) : Option Bool := if b then some true else none

/-- **The options in order of precedence**: what was given, else what is set, else the default.  The
names of files and the log come from the arguments alone. -/
structure Prevails (a : Arguments) (t : Table) (o : Options) : Prop where
  format : o.format = (a.format?.or (setFormat? t)).getD (.named .text)
  skipWhitespace : o.skipWhitespace
    = ((given? a.skipWhitespace).or (setSwitch? t "skip_whitespace")).getD false
  skipComments : o.skipComments
    = ((given? a.skipComments).or (setSwitch? t "skip_comments")).getD false
  input : o.input? = a.inputPath?
  output : o.output? = Arguments.pathOf? a.output?
  debug : o.debug = a.debug

theorem prevails_iff {x : Settings} {o : Options} (h : Sets t x) :
    Prevails a t o ↔ o = .of a x := by
  have hswitch (b : Bool) (set? : Option Bool) :
      ((given? b).or set?).getD false = (b || set?.getD false) := by
    cases b <;> rfl
  have hof : Prevails a t (.of a x) := by
    refine ⟨?_, ?_, ?_, rfl, rfl, rfl⟩
    · rw [Option.getD_or, h.format]
      rfl
    · rw [hswitch, h.skipWhitespace]
      rfl
    · rw [hswitch, h.skipComments]
      rfl
  refine ⟨fun ho => ?_, fun ho => ho ▸ hof⟩
  obtain ⟨i, p, f, w, c, d⟩ := o
  rw [Options.mk.injEq]
  exact ⟨ho.input.trans hof.input.symm, ho.output.trans hof.output.symm,
    ho.format.trans hof.format.symm, ho.skipWhitespace.trans hof.skipWhitespace.symm,
    ho.skipComments.trans hof.skipComments.symm, ho.debug.trans hof.debug.symm⟩

end ConfigScript.Cli
