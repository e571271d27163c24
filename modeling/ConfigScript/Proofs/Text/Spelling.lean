import ConfigScript.Text.Quoted
import Mathlib.Data.List.Forall2
import Mathlib.Data.List.Induction
import Mathlib.Tactic.IntervalCases
import Mathlib.Tactic.SplitIfs

/-!
# Proofs/Text/Spelling — where a spelling ends

Spellings that stand one behind the other, with nothing between them, can be told apart if each says
itself where it ends.  The main statements are of that form, with a rest behind either spelling:
`toString_append_inj` for numbers, which end before the first character that is no digit, and
`quotedBy_append_inj` for texts in quotes.  `forall₂_of_flatMap_append_eq` takes such a statement
from one spelling to a row of them.

The engine of the second is `readChar_escapeBy`: one reader takes back the character from every
escape, whichever characters show as themselves.
-/

namespace ConfigScript.Text

/-! ## Spellings in a row -/

section Rows

variable {α β : Type*}

/-- **A run ends where its property ends**, at the end of the text at the latest. -/
theorem append_inj_of_forall {p : α → Bool} {as bs x y : List α} (has : ∀ c ∈ as, p c = true)
    (hbs : ∀ c ∈ bs, p c = true) (hx : ∀ a ∈ x.head?, p a = false)
    (hy : ∀ b ∈ y.head?, p b = false) (h : as ++ x = bs ++ y) : as = bs ∧ x = y := by
  have hstop {z : List α} (hz : ∀ c ∈ z.head?, p c = false) : z.takeWhile p = [] := by
    cases z with
    | nil => rfl
    | cons c z => rw [List.takeWhile_cons_of_neg (by simp [hz c rfl])]
  have htake := congrArg (List.takeWhile p) h
  rw [List.takeWhile_append_of_pos has, List.takeWhile_append_of_pos hbs, hstop hx, hstop hy,
    List.append_nil, List.append_nil] at htake
  subst htake
  exact ⟨rfl, List.append_cancel_left h⟩

theorem append_cons_inj_of_forall {p : α → Bool} {as bs x y : List α} {a b : α}
    (has : ∀ c ∈ as, p c = true) (hbs : ∀ c ∈ bs, p c = true) (ha : p a = false) (hb : p b = false)
    (h : as ++ a :: x = bs ++ b :: y) : as = bs ∧ a :: x = b :: y :=
  append_inj_of_forall has hbs (by simpa using ha) (by simpa using hb) h

/-- **Rows of spellings are told apart** if each spelling is told from what stands behind it, and
the rests begin with no spelling. -/
theorem forall₂_of_flatMap_append_eq {f : α → List β} {R : α → α → Prop} {as bs : List α}
    {x y : List β} (hf : ∀ a ∈ as, ∀ b ∈ bs, ∀ u v, f a ++ u = f b ++ v → R a b ∧ u = v)
    (hx : ∀ b ∈ bs, ∀ v, x ≠ f b ++ v) (hy : ∀ a ∈ as, ∀ u, y ≠ f a ++ u)
    (h : as.flatMap f ++ x = bs.flatMap f ++ y) : List.Forall₂ R as bs ∧ x = y := by
  induction as generalizing bs with
  | nil =>
    cases bs with
    | nil => exact ⟨.nil, h⟩
    | cons b bs =>
      rw [List.flatMap_cons, List.append_assoc] at h
      exact absurd h (hx b List.mem_cons_self _)
  | cons a as ih =>
    cases bs with
    | nil =>
      rw [List.flatMap_cons, List.append_assoc] at h
      exact absurd h.symm (hy a List.mem_cons_self _)
    | cons b bs =>
      rw [List.flatMap_cons, List.flatMap_cons, List.append_assoc, List.append_assoc] at h
      obtain ⟨hab, hrest⟩ := hf a List.mem_cons_self b List.mem_cons_self _ _ h
      obtain ⟨hall, hxy⟩ := ih
        (fun a ha b hb => hf a (List.mem_cons_of_mem _ ha) b (List.mem_cons_of_mem _ hb))
        (fun b hb => hx b (List.mem_cons_of_mem _ hb))
        (fun a ha => hy a (List.mem_cons_of_mem _ ha)) hrest
      exact ⟨.cons hab hall, hxy⟩

end Rows

variable {c d : Char} {cs s t x y : List Char}

/-! ## Numbers in base ten -/

theorem isDigit_of_mem_toString {n : Nat} (h : c ∈ (toString n).toList) : c.isDigit = true := by
  rw [Nat.toString_eq_ofList_toDigits, String.toList_ofList] at h
  exact Nat.isDigit_of_mem_toDigits (by decide) (by decide) h

theorem toString_negSucc (n : Nat) :
    (toString (Int.negSucc n)).toList = '-' :: (toString (n + 1)).toList := by
  have hsign : toString (Int.negSucc n) = "-" ++ toString (n + 1) := rfl
  rw [hsign, String.toList_append]
  rfl

theorem toString_nat_append_inj {m n : Nat} (hc : c.isDigit = false) (hd : d.isDigit = false)
    (h : (toString m).toList ++ c :: x = (toString n).toList ++ d :: y) :
    m = n ∧ c :: x = d :: y := by
  obtain ⟨hdigits, hrest⟩ := append_cons_inj_of_forall (fun _ => isDigit_of_mem_toString)
    (fun _ => isDigit_of_mem_toString) hc hd h
  have hvalue := congrArg (Nat.ofDigitChars 10 · 0) hdigits
  simp only [Nat.toString_eq_ofList_toDigits, String.toList_ofList,
    Nat.ofDigitChars_ten_toDigits] at hvalue
  exact ⟨hvalue, hrest⟩

/-- Digits do not begin with a sign. -/
theorem toString_nat_append_ne (n : Nat) : (toString n).toList ++ x ≠ '-' :: y := by
  intro h
  cases hdigits : (toString n).toList with
  | nil =>
    rw [Nat.toString_eq_ofList_toDigits, String.toList_ofList] at hdigits
    exact Nat.toDigits_ne_nil hdigits
  | cons e es =>
    rw [hdigits, List.cons_append] at h
    have he : e.isDigit = true := isDigit_of_mem_toString (hdigits ▸ List.mem_cons_self)
    rw [(List.cons.inj h).1] at he
    exact absurd he (by decide)

/-- **A number ends before the first character that is no digit.** -/
theorem toString_append_inj {m n : Int} (hc : c.isDigit = false) (hd : d.isDigit = false)
    (h : (toString m).toList ++ c :: x = (toString n).toList ++ d :: y) :
    m = n ∧ c :: x = d :: y := by
  cases m with
  | ofNat m =>
    cases n with
    | ofNat n =>
      obtain ⟨rfl, hrest⟩ := toString_nat_append_inj hc hd h
      exact ⟨rfl, hrest⟩
    | negSucc n =>
      rw [toString_negSucc] at h
      exact absurd h (toString_nat_append_ne m)
  | negSucc m =>
    rw [toString_negSucc, List.cons_append] at h
    cases n with
    | ofNat n => exact absurd h.symm (toString_nat_append_ne n)
    | negSucc n =>
      rw [toString_negSucc, List.cons_append] at h
      obtain ⟨hmn, hrest⟩ := toString_nat_append_inj hc hd (List.cons.inj h).2
      exact ⟨congrArg Int.negSucc (Nat.succ.inj hmn), hrest⟩

/-- A number stands on one line. -/
theorem newline_notMem_toString (n : Int) : '\n' ∉ (toString n).toList := by
  have hdigits (m : Nat) : '\n' ∉ (toString m).toList := fun h =>
    absurd (isDigit_of_mem_toString h) (by decide)
  cases n with
  | ofNat m => exact hdigits m
  | negSucc m =>
    rw [toString_negSucc, List.mem_cons]
    exact fun h => h.elim (by decide) (hdigits (m + 1))

/-! ## Numbers in base sixteen -/

theorem hexValue?_digitChar {d : Nat} (h : d < 16) : hexValue? (Nat.digitChar d) = some d := by
  interval_cases d <;> rfl

theorem hexNumber?_concat (cs : List Char) (c : Char) :
    hexNumber? (cs ++ [c]) = (hexNumber? cs).bind fun n => (hexValue? c).map (16 * n + ·) := by
  rw [hexNumber?, List.foldl_append]
  rfl

theorem hexNumber?_hexDigits (n : Nat) : hexNumber? (hexDigits n) = some n := by
  induction n using Nat.strong_induction_on with
  | _ n ih =>
    by_cases hn : n < 16
    · rw [hexDigits, Nat.toDigits_of_lt_base hn, ← List.nil_append [_], hexNumber?_concat,
        hexValue?_digitChar hn]
      exact congrArg some (show 16 * 0 + n = n by omega)
    · rw [hexDigits, Nat.toDigits_of_base_le (by decide) (by omega), hexNumber?_concat, ← hexDigits,
        ih (n / 16) (by omega), hexValue?_digitChar (by omega)]
      exact congrArg some (show 16 * (n / 16) + n % 16 = n by omega)

theorem hexNumber?_zeros (k : Nat) : hexNumber? (List.replicate k '0') = some 0 := by
  induction k with
  | zero => rfl
  | succ k ih =>
    rw [List.replicate_succ', hexNumber?_concat, ih]
    rfl

/-- **Padding does not change the number.** -/
theorem hexNumber?_hexPadded (width n : Nat) : hexNumber? (hexPadded width n) = some n := by
  have hzeros := hexNumber?_zeros (width - (hexDigits n).length)
  have hdigits := hexNumber?_hexDigits n
  rw [hexNumber?] at hzeros hdigits
  rw [hexPadded, hexNumber?, List.foldl_append, hzeros, hdigits]

theorem length_hexPadded {width n : Nat} (hw : 0 < width) (hn : n < 16 ^ width) :
    (hexPadded width n).length = width := by
  have hle : (hexDigits n).length ≤ width := (Nat.length_toDigits_le_iff (by decide) hw).2 hn
  rw [hexPadded, List.length_append, List.length_replicate]
  omega

/-- All characters of a number are digits. -/
theorem isSome_hexValue?_of_mem {n : Nat} (h : hexNumber? cs = some n) (hc : c ∈ cs) :
    (hexValue? c).isSome = true := by
  induction cs using List.reverseRecOn generalizing n with
  | nil => exact absurd hc List.not_mem_nil
  | append_singleton cs d ih =>
    rw [hexNumber?_concat] at h
    obtain ⟨m, hm, hd⟩ := Option.bind_eq_some_iff.1 h
    rcases List.mem_append.1 hc with hc | hc
    · exact ih hm hc
    · obtain ⟨k, hk, -⟩ := Option.map_eq_some_iff.1 hd
      rw [List.mem_singleton.1 hc, hk]
      rfl

theorem newline_notMem_hexPadded (width n : Nat) : '\n' ∉ hexPadded width n := fun h =>
  absurd (isSome_hexValue?_of_mem (hexNumber?_hexPadded width n) h) (by decide)

/-! ## Characters between quotes -/

/-- A character of a text between the given quotes, where `shows` holds of the characters that stand
as themselves. -/
def escapeBy (shows : Char → Bool) (quote c : Char) : List Char :=
  if c = quote ∨ c = '\\' then ['\\', c]
  else if c = '\n' then ['\\', 'n']
  else if c = '\r' then ['\\', 'r']
  else if c = '\t' then ['\\', 't']
  else if shows c then [c]
  else escapeByNumber c

/-- **A text in quotes**, where `shows` holds of the characters that stand as themselves. -/
def quotedBy (shows : Char → Bool) (s : List Char) : List Char :=
  quoteMark s :: (s.flatMap (escapeBy shows (quoteMark s)) ++ [quoteMark s])

/-- `quotedChars` shows what is printable. -/
theorem quotedBy_isPrintable (s : List Char) : quotedBy isPrintable s = quotedChars s := rfl

/-- Reads a character by its number, in `width` digits. -/
def readNumber (width : Nat) (cs : List Char) : Option (Char × List Char) :=
  (hexNumber? (cs.take width)).map fun n => (Char.ofNat n, cs.drop width)

/-- **Takes the first character back** from a spelling, with what stands behind it. -/
def readChar : List Char → Option (Char × List Char)
  | '\\' :: 'n' :: cs => some ('\n', cs)
  | '\\' :: 'r' :: cs => some ('\r', cs)
  | '\\' :: 't' :: cs => some ('\t', cs)
  | '\\' :: 'x' :: cs => readNumber 2 cs
  | '\\' :: 'u' :: cs => readNumber 4 cs
  | '\\' :: 'U' :: cs => readNumber 8 cs
  | '\\' :: c :: cs => some (c, cs)
  | c :: cs => some (c, cs)
  | [] => none

theorem readChar_plain (hb : c ≠ '\\') (cs : List Char) : readChar (c :: cs) = some (c, cs) := by
  rw [readChar.eq_def]
  split <;> simp_all

theorem readNumber_hexPadded {width : Nat} (hw : 0 < width) (hc : c.toNat < 16 ^ width)
    (x : List Char) : readNumber width (hexPadded width c.toNat ++ x) = some (c, x) := by
  have hlength := length_hexPadded hw hc
  rw [readNumber, List.take_left' hlength, List.drop_left' hlength, hexNumber?_hexPadded,
    Option.map_some, Char.ofNat_toNat]

theorem readChar_escapeByNumber (c : Char) (x : List Char) :
    readChar (escapeByNumber c ++ x) = some (c, x) := by
  rw [escapeByNumber]
  split_ifs with hx hu
  · exact readNumber_hexPadded (by decide) hx x
  · exact readNumber_hexPadded (by decide) hu x
  · exact readNumber_hexPadded (by decide) (UInt32.toNat_lt c.val) x

/-- The quotes that are in use. -/
theorem quoteMark_eq (s : List Char) : quoteMark s = '\'' ∨ quoteMark s = '"' := by
  rw [quoteMark]
  split_ifs
  · exact .inr rfl
  · exact .inl rfl

variable {shows : Char → Bool} {quote : Char}

/-- **One reader takes back every character**, whichever of them show. -/
theorem readChar_escapeBy (hquote : quote = '\'' ∨ quote = '"') (c : Char) (x : List Char) :
    readChar (escapeBy shows quote c ++ x) = some (c, x) := by
  rw [escapeBy]
  split_ifs with hpair hn hr ht hshows
  · rcases hpair with rfl | rfl
    · rcases hquote with rfl | rfl <;> rfl
    · rfl
  · rw [hn]
    rfl
  · rw [hr]
    rfl
  · rw [ht]
    rfl
  · exact readChar_plain (fun hb => hpair (.inr hb)) x
  · exact readChar_escapeByNumber c x

theorem escapeBy_append_inj (hquote : quote = '\'' ∨ quote = '"')
    (h : escapeBy shows quote c ++ x = escapeBy shows quote d ++ y) : c = d ∧ x = y := by
  have hread : readChar (escapeBy shows quote c ++ x) = some (c, x) := readChar_escapeBy hquote c x
  rw [h, readChar_escapeBy hquote] at hread
  obtain ⟨rfl, rfl⟩ := Prod.mk.inj (Option.some.inj hread)
  exact ⟨rfl, rfl⟩

/-- Between quotes no character is spelled with the quote in front. -/
theorem cons_ne_escapeBy_append (hquote : quote = '\'' ∨ quote = '"') (c : Char) (x y : List Char) :
    quote :: x ≠ escapeBy shows quote c ++ y := by
  intro h
  have hb : quote ≠ '\\' := by rcases hquote with rfl | rfl <;> decide
  have hread : readChar (escapeBy shows quote c ++ y) = some (c, y) := readChar_escapeBy hquote c y
  rw [← h, readChar_plain hb] at hread
  -- the character is the quote itself, and that stands behind a backslash
  obtain ⟨rfl, -⟩ := Prod.mk.inj (Option.some.inj hread)
  rw [escapeBy, if_pos (.inl rfl)] at h
  exact hb (List.cons.inj h).1

/-- **A text in quotes ends with its second quote.** -/
theorem quotedBy_append_inj (h : quotedBy shows s ++ x = quotedBy shows t ++ y) :
    s = t ∧ x = y := by
  have hquote := quoteMark_eq t
  rw [quotedBy, quotedBy, List.cons_append, List.cons_append, List.cons.injEq] at h
  obtain ⟨hmark, hrest⟩ := h
  rw [hmark, List.append_assoc, List.append_assoc] at hrest
  obtain ⟨hall, hxy⟩ := forall₂_of_flatMap_append_eq
    (fun _ _ _ _ _ _ => escapeBy_append_inj hquote)
    (fun c _ v => cons_ne_escapeBy_append hquote c x v)
    (fun c _ v => cons_ne_escapeBy_append hquote c y v) hrest
  rw [List.forall₂_eq_eq_eq] at hall
  exact ⟨hall, (List.cons.inj hxy).2⟩

/-! ## One line -/

theorem newline_notMem_escapeByNumber (c : Char) : '\n' ∉ escapeByNumber c := by
  have hhex := newline_notMem_hexPadded
  rw [escapeByNumber]
  split_ifs <;> simp [hhex]

theorem newline_notMem_escapeBy (hquote : quote ≠ '\n') (c : Char) :
    '\n' ∉ escapeBy shows quote c := by
  rw [escapeBy]
  split_ifs with hpair hn
  · rcases hpair with rfl | rfl
    · simp [hquote.symm]
    · decide
  · decide
  · decide
  · decide
  · simpa using Ne.symm hn
  · exact newline_notMem_escapeByNumber c

/-- **A text in quotes stands on one line**, whatever it holds and whichever characters show. -/
theorem newline_notMem_quotedBy (s : List Char) : '\n' ∉ quotedBy shows s := by
  have hquote : quoteMark s ≠ '\n' := by rcases quoteMark_eq s with h | h <;> rw [h] <;> decide
  simp only [quotedBy, List.mem_cons, List.mem_append, List.mem_flatMap, List.not_mem_nil, or_false,
    not_or, not_exists, not_and]
  exact ⟨hquote.symm, fun c _ => newline_notMem_escapeBy hquote c, hquote.symm⟩

end ConfigScript.Text
