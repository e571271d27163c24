import ConfigScript.Toml.Shown

/-!
# Proofs/Toml/Shown — which values cannot be shown

A value cannot be shown where a whole number that is too long stands in it, or any value too many
levels down (`HasTrouble`).  What `trouble?` finds is there (`hasTrouble_of_trouble?`), and it finds
something if anything is there (`HasTrouble.trouble?_ne_none`).
-/

namespace ConfigScript.Toml.Value

/-- **A value stands in another**, so many levels down. -/
inductive Holds : Nat → Value → Value → Prop
  | self (v : Value) : Holds 0 v v
  | item {k items v w} : v ∈ items → Holds k v w → Holds (k + 1) (array items) w
  | field {k fields key v w} : (key, v) ∈ fields → Holds k v w → Holds (k + 1) (table fields) w

/-- How many levels a value has without values that stand in it: those of its offset. -/
def levels : Value → Nat
  | moment _ _ offset? => offsetDepth offset?
  | _ => 0

/-- **What keeps a value from being shown** where no more than `depth` values may stand within each
other: a whole number of too many digits, or too many levels. -/
inductive HasTrouble (depth : Nat) (v : Value) : Trouble → Prop
  | tooLong {k n} : Holds k v (integer n) → Number.tenTo Number.digitLimit ≤ n.natAbs →
      HasTrouble depth v .tooLong
  | tooDeep {k w} : Holds k v w → depth ≤ k + w.levels → HasTrouble depth v .tooDeep

/-! ## What is found is there -/

variable {depth k : Nat} {v w : Value} {items : List Value} {fields : List (String × Value)}
  {trouble : Trouble}

theorem HasTrouble.item (h : HasTrouble depth v trouble) (hv : v ∈ items) :
    HasTrouble (depth + 1) (array items) trouble := by
  cases h with
  | tooLong h hn => exact .tooLong (.item hv h) hn
  | tooDeep h hle => exact .tooDeep (.item hv h) (by omega)

theorem HasTrouble.field {key : String} (h : HasTrouble depth v trouble) (hv : (key, v) ∈ fields) :
    HasTrouble (depth + 1) (table fields) trouble := by
  cases h with
  | tooLong h hn => exact .tooLong (.field hv h) hn
  | tooDeep h hle => exact .tooDeep (.field hv h) (by omega)

/-- **The trouble that is found** keeps a value from being shown. -/
theorem hasTrouble_of_trouble? (h : v.trouble? depth = some trouble) :
    HasTrouble depth v trouble := by
  induction depth generalizing v with
  | zero =>
    cases h
    exact .tooDeep (.self v) (Nat.zero_le _)
  | succ depth ih =>
    rw [trouble?.eq_def] at h
    cases v with
    | integer n =>
      simp only [Option.ite_none_left_eq_some, Option.some.injEq] at h
      obtain ⟨hlong, rfl⟩ := h
      exact .tooLong (.self _) (by simpa [Number.isShort] using hlong)
    | moment d t offset? =>
      simp only [Option.ite_none_left_eq_some, Option.some.injEq] at h
      obtain ⟨hdeep, rfl⟩ := h
      refine .tooDeep (.self _) ?_
      rw [levels]
      omega
    | array items =>
      obtain ⟨v, hv, hfound⟩ := List.exists_of_findSome?_eq_some h
      exact (ih hfound).item hv
    | table fields =>
      obtain ⟨⟨key, v⟩, hv, hfound⟩ := List.exists_of_findSome?_eq_some h
      exact (ih hfound).field hv
    | _ => cases h

/-! ## What is there is found -/

/-- **Trouble below is trouble above.** -/
theorem Holds.trouble?_ne_none (h : Holds k v w) (hw : w.trouble? (depth - k) ≠ none) :
    v.trouble? depth ≠ none := by
  induction h generalizing depth with
  | self v => exact hw
  | @item k items v w hv h ih =>
    cases depth with
    | zero => exact Option.some_ne_none _
    | succ depth =>
      rw [Nat.add_sub_add_right] at hw
      rw [trouble?]
      exact fun hnone => ih hw (List.findSome?_eq_none_iff.1 hnone v hv)
  | @field k fields key v w hv h ih =>
    cases depth with
    | zero => exact Option.some_ne_none _
    | succ depth =>
      rw [Nat.add_sub_add_right] at hw
      rw [trouble?]
      exact fun hnone => ih hw (List.findSome?_eq_none_iff.1 hnone _ hv)

/-- **What keeps a value from being shown is found**, or something else before it. -/
theorem HasTrouble.trouble?_ne_none (h : HasTrouble depth v trouble) :
    v.trouble? depth ≠ none := by
  cases h with
  | @tooLong k n h hn =>
    refine h.trouble?_ne_none ?_
    cases depth - k with
    | zero => exact Option.some_ne_none _
    | succ rest =>
      have hlong : ¬ Number.isShort n = true := by simpa [Number.isShort] using hn
      rw [trouble?, if_neg hlong]
      exact Option.some_ne_none _
  | @tooDeep k w h hle =>
    have hrest : depth - k ≤ w.levels := by omega
    refine h.trouble?_ne_none ?_
    cases hd : depth - k with
    | zero => exact Option.some_ne_none _
    | succ rest =>
      rw [hd] at hrest
      -- only a moment has levels of its own
      cases w with
      | moment d t offset? =>
        rw [levels] at hrest
        rw [trouble?, if_neg (by omega)]
        exact Option.some_ne_none _
      | _ => exact absurd hrest (Nat.not_succ_le_zero _)

end ConfigScript.Toml.Value
