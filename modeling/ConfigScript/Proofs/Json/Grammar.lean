import ConfigScript.Proofs.Text.Spelling

/-!
# Proofs/Json/Grammar — which texts the format has, and what they stand for

The grammar of the format, with all that it allows: blanks around every mark, numbers with a point
and a power of ten, the short escapes, characters by their number, and surrogates in pairs.  Each
relation `R x v y` says that `v` can be read at the front of `x` and that `y` is left behind it;
`Denotes` is the reading of a whole text.

The main statement is that a text has one reading (`Denotes.unique`).  Words, texts and what stands
in brackets end by themselves.  A number does not, but nothing that can stand behind one goes on
with it (`Ends`), and it is this that the induction along a reading carries.
-/

namespace ConfigScript.Json

/-- **What a text of the format stands for.**  A number is its digits, read as a whole number, times
a power of ten. -/
inductive Datum where
  | null
  | boolean (b : Bool)
  | number (digits : Int) (power : Int)
  | text (s : String)
  | array (items : List Datum)
  | object (members : List (String × Datum))

/-! ## The grammar -/

/-- The blanks of the format. -/
def isBlank (c : Char) : Bool := c == ' ' || c == '\t' || c == '\n' || c == '\r'

/-- Skips blanks. -/
def Skips (x y : List Char) : Prop := ∃ w, (∀ c ∈ w, isBlank c = true) ∧ x = w ++ y

/-! ### Numbers -/

/-- Reads digits, one at least. -/
structure Digits (x ds y : List Char) : Prop where
  ne_nil : ds ≠ []
  isDigit : ∀ d ∈ ds, d.isDigit = true
  eq_append : x = ds ++ y

/-- Reads a sign; a number without one is positive. -/
inductive Sign : List Char → Int → List Char → Prop
  | none (x : List Char) : Sign x 1 x
  | minus (x : List Char) : Sign ('-' :: x) (-1) x

/-- Reads the digits before the point: a zero stands there alone or behind another digit. -/
def Whole (x ds y : List Char) : Prop := Digits x ds y ∧ (ds.head? = some '0' → ds = ['0'])

/-- Reads the digits behind the point, if there is one. -/
inductive Places : List Char → List Char → List Char → Prop
  | none (x : List Char) : Places x [] x
  | point {x ds y : List Char} : Digits x ds y → Places ('.' :: x) ds y

/-- The number that digits in base ten spell. -/
def decimal (ds : List Char) : Nat := Nat.ofDigitChars 10 ds 0

/-- Reads a power of ten, if there is one. -/
inductive Power : List Char → Int → List Char → Prop
  | none (x : List Char) : Power x 0 x
  | bare {e : Char} {x ds y : List Char} : e = 'e' ∨ e = 'E' → Digits x ds y →
      Power (e :: x) (decimal ds) y
  | plus {e : Char} {x ds y : List Char} : e = 'e' ∨ e = 'E' → Digits x ds y →
      Power (e :: '+' :: x) (decimal ds) y
  | minus {e : Char} {x ds y : List Char} : e = 'e' ∨ e = 'E' → Digits x ds y →
      Power (e :: '-' :: x) (-(decimal ds : Int)) y

/-- **Reads a number**: all of its digits as a whole number, and the power of ten it is times. -/
inductive Number : List Char → Int → Int → List Char → Prop
  | mk {x x₁ x₂ x₃ y ds ps : List Char} {sign power : Int} : Sign x sign x₁ → Whole x₁ ds x₂ →
      Places x₂ ps x₃ → Power x₃ power y →
      Number x (sign * decimal (ds ++ ps)) (power - ps.length) y

/-! ### Texts -/

/-- The characters that have a letter of their own behind a backslash. -/
def shortEscapes : List (Char × Char) :=
  [('"', '"'), ('\\', '\\'), ('/', '/'), ('b', '\x08'), ('f', '\x0c'), ('n', '\n'), ('r', '\r'),
    ('t', '\t')]

/-- Reads a unit of sixteen bits by its number. -/
inductive CodeUnit : List Char → Nat → List Char → Prop
  | mk {a b c d : Char} {n : Nat} {x : List Char} : Text.hexNumber? [a, b, c, d] = some n →
      CodeUnit ('\\' :: 'u' :: a :: b :: c :: d :: x) n x

/-- **Reads a character** of a text: as it is, behind a backslash, or by its units.  A unit that is
no surrogate is a character; two surrogates, a high one and a low one, are one together. -/
inductive Letter : List Char → Char → List Char → Prop
  | plain {c : Char} {x : List Char} : 0x20 ≤ c.toNat → c ≠ '"' → c ≠ '\\' → Letter (c :: x) c x
  | short {d c : Char} {x : List Char} : (d, c) ∈ shortEscapes → Letter ('\\' :: d :: x) c x
  | unit {x y : List Char} {n : Nat} : CodeUnit x n y → n < 0xd800 ∨ 0xe000 ≤ n →
      Letter x (Char.ofNat n) y
  | pair {x y z : List Char} {m n : Nat} : CodeUnit x m y → CodeUnit y n z →
      0xd800 ≤ m → m < 0xdc00 → 0xdc00 ≤ n → n < 0xe000 →
      Letter x (Char.ofNat (0x10000 + 0x400 * (m - 0xd800) + (n - 0xdc00))) z

/-- **Reads a text** up to its closing quote. -/
inductive Letters : List Char → List Char → List Char → Prop
  | close (x : List Char) : Letters ('"' :: x) [] x
  | cons {x y z cs : List Char} {c : Char} : Letter x c y → Letters y cs z → Letters x (c :: cs) z

/-! ### Values -/

/-- The parts of the grammar that values are made of. -/
inductive Part where
  | value
  /-- the items of an array that has some, with the closing bracket -/
  | items
  /-- a key and its value -/
  | member
  /-- the members of an object that has some, with the closing bracket -/
  | members

/-- **Reads a part of a value.**  Items are read as the array of them, members as the object. -/
inductive Reads : Part → List Char → Datum → List Char → Prop
  | null (x : List Char) : Reads .value ('n' :: 'u' :: 'l' :: 'l' :: x) .null x
  | yes (x : List Char) : Reads .value ('t' :: 'r' :: 'u' :: 'e' :: x) (.boolean true) x
  | no (x : List Char) : Reads .value ('f' :: 'a' :: 'l' :: 's' :: 'e' :: x) (.boolean false) x
  | number {x y : List Char} {digits power : Int} : Number x digits power y →
      Reads .value x (.number digits power) y
  | text {x cs y : List Char} : Letters x cs y →
      Reads .value ('"' :: x) (.text (String.ofList cs)) y
  | noItems {x y : List Char} : Skips x (']' :: y) → Reads .value ('[' :: x) (.array []) y
  | array {x y : List Char} {v : Datum} : Reads .items x v y → Reads .value ('[' :: x) v y
  | noMembers {x y : List Char} : Skips x ('\x7d' :: y) →
      Reads .value ('\x7b' :: x) (.object []) y
  | object {x y : List Char} {v : Datum} : Reads .members x v y → Reads .value ('\x7b' :: x) v y
  | lastItem {x x₁ x₂ y : List Char} {v : Datum} : Skips x x₁ → Reads .value x₁ v x₂ →
      Skips x₂ (']' :: y) → Reads .items x (.array [v]) y
  | item {x x₁ x₂ x₃ y : List Char} {v : Datum} {vs : List Datum} : Skips x x₁ →
      Reads .value x₁ v x₂ → Skips x₂ (',' :: x₃) → Reads .items x₃ (.array vs) y →
      Reads .items x (.array (v :: vs)) y
  | member {x x₁ x₂ x₃ x₄ y key : List Char} {v : Datum} : Skips x ('"' :: x₁) →
      Letters x₁ key x₂ → Skips x₂ (':' :: x₃) → Skips x₃ x₄ → Reads .value x₄ v y →
      Reads .member x (.object [(String.ofList key, v)]) y
  | lastMember {x x₁ y : List Char} {v : Datum} : Reads .member x v x₁ → Skips x₁ ('\x7d' :: y) →
      Reads .members x v y
  | moreMembers {x x₁ x₂ y : List Char} {m : String × Datum} {ms : List (String × Datum)} :
      Reads .member x (.object [m]) x₁ → Skips x₁ (',' :: x₂) → Reads .members x₂ (.object ms) y →
      Reads .members x (.object (m :: ms)) y

/-- **What a whole text stands for**: a value, with blanks around it. -/
def Denotes (text : List Char) (v : Datum) : Prop :=
  ∃ x y, Skips text x ∧ Reads .value x v y ∧ Skips y []

/-! ## Each part has one reading -/

variable {x y z ds es : List Char} {c d : Char} {m n m' n' : Int}

/-- **Blanks are skipped up to what is no blank.** -/
theorem Skips.unique (h : Skips x y) (h' : Skips x z) (hy : ∀ c ∈ y.head?, isBlank c = false)
    (hz : ∀ c ∈ z.head?, isBlank c = false) : y = z := by
  obtain ⟨w, hw, rfl⟩ := h
  obtain ⟨w', hw', heq⟩ := h'
  exact (Text.append_inj_of_forall hw hw' hy hz heq).2

/-- What blanks are skipped of begins with a blank, or as what is left. -/
theorem Skips.head? (h : Skips x y) (hc : c ∈ x.head?) : isBlank c = true ∨ c ∈ y.head? := by
  obtain ⟨_ | ⟨d, w⟩, hw, rfl⟩ := h
  · exact .inr hc
  · obtain rfl := Option.some.inj hc
    exact .inl (hw d List.mem_cons_self)

/-! ### Numbers -/

theorem Digits.head? (h : Digits x ds y) : ∃ d, x.head? = some d ∧ d.isDigit = true := by
  obtain ⟨hne, hdigit, rfl⟩ := h
  cases ds with
  | nil => exact absurd rfl hne
  | cons d ds => exact ⟨d, rfl, hdigit d List.mem_cons_self⟩

theorem Digits.isDigit_head (h : Digits (c :: x) ds y) : c.isDigit = true := by
  obtain ⟨d, hd, hdigit⟩ := h.head?
  rwa [Option.some.inj hd]

/-- **Digits are read up to what is no digit.** -/
theorem Digits.unique (h : Digits x ds y) (h' : Digits x es z)
    (hy : ∀ c ∈ y.head?, c.isDigit = false) (hz : ∀ c ∈ z.head?, c.isDigit = false) :
    ds = es ∧ y = z :=
  Text.append_inj_of_forall h.isDigit h'.isDigit hy hz (h.eq_append.symm.trans h'.eq_append)

/-- Whether a character can go on with a number that could be over. -/
def isNumeric (c : Char) : Bool := c.isDigit || c == '.' || c == 'e' || c == 'E'

/-- **What stands behind a number does not go on with it.** -/
def Ends (y : List Char) : Prop := ∀ c ∈ y.head?, isNumeric c = false

theorem Ends.isDigit_eq_false (h : Ends y) : ∀ c ∈ y.head?, c.isDigit = false := by
  intro c hc
  have := h c hc
  simp only [isNumeric, Bool.or_eq_false_iff] at this
  exact this.1.1.1

theorem not_ends_power (he : c = 'e' ∨ c = 'E') : ¬ Ends (c :: x) := by
  intro h
  have := h c rfl
  rcases he with rfl | rfl <;> exact absurd this (by decide)

theorem Power.unique (h : Power x m y) (h' : Power x n z) (hy : Ends y) (hz : Ends z) :
    m = n ∧ y = z := by
  have hdigits {x ds es : List Char} (h : Digits x ds y) (h' : Digits x es z) :
      ds = es ∧ y = z := h.unique h' hy.isDigit_eq_false hz.isDigit_eq_false
  have hplus {x ds y : List Char} (h : Digits ('+' :: x) ds y) : False :=
    absurd h.isDigit_head (by decide)
  have hminus {x ds y : List Char} (h : Digits ('-' :: x) ds y) : False :=
    absurd h.isDigit_head (by decide)
  cases h with
  | none =>
    cases h' with
    | none => exact ⟨rfl, rfl⟩
    | bare he | plus he | minus he => exact absurd hy (not_ends_power he)
  | bare he h =>
    cases h' with
    | none => exact absurd hz (not_ends_power he)
    | bare _ h' =>
      obtain ⟨rfl, rfl⟩ := hdigits h h'
      exact ⟨rfl, rfl⟩
    | plus => exact (hplus h).elim
    | minus => exact (hminus h).elim
  | plus he h =>
    cases h' with
    | none => exact absurd hz (not_ends_power he)
    | bare _ h' => exact (hplus h').elim
    | plus _ h' =>
      obtain ⟨rfl, rfl⟩ := hdigits h h'
      exact ⟨rfl, rfl⟩
  | minus he h =>
    cases h' with
    | none => exact absurd hz (not_ends_power he)
    | bare _ h' => exact (hminus h').elim
    | minus _ h' =>
      obtain ⟨rfl, rfl⟩ := hdigits h h'
      exact ⟨rfl, rfl⟩

/-- Where a power of ten may stand there stands no digit and no point. -/
theorem Power.head? (h : Power x m y) (hy : Ends y) :
    ∀ c ∈ x.head?, c.isDigit = false ∧ c ≠ '.' := by
  have hpower {e : Char} {x : List Char} (he : e = 'e' ∨ e = 'E') :
      ∀ c ∈ (e :: x).head?, c.isDigit = false ∧ c ≠ '.' := by
    rintro c hc
    obtain rfl := Option.some.inj hc
    rcases he with rfl | rfl <;> decide
  cases h with
  | none =>
    intro c hc
    refine ⟨hy.isDigit_eq_false c hc, ?_⟩
    rintro rfl
    exact absurd (hy _ hc) (by decide)
  | bare he | plus he | minus he => exact hpower he

theorem Places.unique (h : Places x ds y) (h' : Places x es z)
    (hy : ∀ c ∈ y.head?, c.isDigit = false ∧ c ≠ '.')
    (hz : ∀ c ∈ z.head?, c.isDigit = false ∧ c ≠ '.') : ds = es ∧ y = z := by
  cases h with
  | none =>
    cases h' with
    | none => exact ⟨rfl, rfl⟩
    | point => exact absurd rfl (hy _ rfl).2
  | point h =>
    cases h' with
    | none => exact absurd rfl (hz _ rfl).2
    | point h' => exact h.unique h' (fun c hc => (hy c hc).1) fun c hc => (hz c hc).1

/-- Where the digits behind a point may stand there stands no digit. -/
theorem Places.head? (h : Places x ds y) (hy : ∀ c ∈ y.head?, c.isDigit = false ∧ c ≠ '.') :
    ∀ c ∈ x.head?, c.isDigit = false := by
  intro c hc
  cases h with
  | none => exact (hy c hc).1
  | point =>
    obtain rfl := Option.some.inj hc
    decide

/-- A sign is read where there is one. -/
theorem Sign.unique (h : Sign x m y) (h' : Sign x n z) (hy : Digits y ds y') (hz : Digits z es z') :
    m = n ∧ y = z := by
  cases h with
  | none =>
    cases h' with
    | none => exact ⟨rfl, rfl⟩
    | minus => exact absurd hy.isDigit_head (by decide)
  | minus =>
    cases h' with
    | none => exact absurd hz.isDigit_head (by decide)
    | minus => exact ⟨rfl, rfl⟩

/-- **A number ends before what does not go on with it.** -/
theorem Number.unique (h : Number x m n y) (h' : Number x m' n' z) (hy : Ends y) (hz : Ends z) :
    m = m' ∧ n = n' ∧ y = z := by
  cases h with
  | mk hsign hwhole hplaces hpower =>
    cases h' with
    | mk hsign' hwhole' hplaces' hpower' =>
      obtain ⟨rfl, rfl⟩ := hsign.unique hsign' hwhole.1 hwhole'.1
      have hhead := hpower.head? hy
      have hhead' := hpower'.head? hz
      obtain ⟨rfl, rfl⟩ :=
        hwhole.1.unique hwhole'.1 (hplaces.head? hhead) (hplaces'.head? hhead')
      obtain ⟨rfl, rfl⟩ := hplaces.unique hplaces' hhead hhead'
      obtain ⟨rfl, rfl⟩ := hpower.unique hpower' hy hz
      exact ⟨rfl, rfl, rfl⟩

/-- A number begins with its sign or with a digit. -/
theorem Number.head? (h : Number x m n y) :
    ∃ c, x.head? = some c ∧ (c = '-' ∨ c.isDigit = true) := by
  cases h with
  | mk hsign hwhole =>
    cases hsign with
    | none =>
      obtain ⟨c, hc, hdigit⟩ := hwhole.1.head?
      exact ⟨c, hc, .inr hdigit⟩
    | minus => exact ⟨'-', rfl, .inl rfl⟩

theorem Number.head (h : Number (c :: x) m n y) : c = '-' ∨ c.isDigit = true := by
  obtain ⟨d, hd, hnumber⟩ := h.head?
  rwa [Option.some.inj hd]

/-! ### Texts -/

section Texts

variable {cs cs' : List Char} {k l : Nat}

theorem CodeUnit.unique (h : CodeUnit x k y) (h' : CodeUnit x l z) : k = l ∧ y = z := by
  cases h with
  | mk h =>
    cases h' with
    | mk h' => exact ⟨Option.some.inj (h.symm.trans h'), rfl⟩

theorem CodeUnit.head (h : CodeUnit (c :: x) k y) : c = '\\' := by
  cases h with
  | mk => rfl

theorem CodeUnit.second (h : CodeUnit (c :: d :: x) k y) : d = 'u' := by
  cases h with
  | mk => rfl

/-- A letter behind a backslash stands for one character, and none is that of a unit. -/
theorem unique_of_mem_shortEscapes {e : Char} (h : (d, c) ∈ shortEscapes) :
    d ≠ 'u' ∧ ((d, e) ∈ shortEscapes → c = e) := by
  have hall : ∀ p ∈ shortEscapes, p.1 ≠ 'u' ∧ ∀ q ∈ shortEscapes, p.1 = q.1 → p.2 = q.2 := by decide
  obtain ⟨hu, hunique⟩ := hall _ h
  exact ⟨hu, fun h' => hunique _ h' rfl⟩

/-- **A character ends by itself.** -/
theorem Letter.unique (h : Letter x c y) (h' : Letter x d z) : c = d ∧ y = z := by
  cases h with
  | plain _ _ hplain =>
    cases h' with
    | plain => exact ⟨rfl, rfl⟩
    | short => exact absurd rfl hplain
    | unit h' | pair h' => exact absurd h'.head hplain
  | short hshort =>
    cases h' with
    | plain _ _ hplain => exact absurd rfl hplain
    | short hshort' => exact ⟨(unique_of_mem_shortEscapes hshort).2 hshort', rfl⟩
    | unit h' | pair h' =>
      exact absurd h'.second (unique_of_mem_shortEscapes (e := 'u') hshort).1
  | unit h hcharacter =>
    cases h' with
    | plain _ _ hplain => exact absurd h.head hplain
    | short hshort => exact absurd h.second (unique_of_mem_shortEscapes (e := 'u') hshort).1
    | unit h' =>
      obtain ⟨rfl, rfl⟩ := h.unique h'
      exact ⟨rfl, rfl⟩
    | pair h' _ hlow hhigh =>
      obtain ⟨rfl, -⟩ := h.unique h'
      omega
  | pair h hsecond hlow hhigh =>
    cases h' with
    | plain _ _ hplain => exact absurd h.head hplain
    | short hshort => exact absurd h.second (unique_of_mem_shortEscapes (e := 'u') hshort).1
    | unit h' hcharacter =>
      obtain ⟨rfl, -⟩ := h.unique h'
      omega
    | pair h' hsecond' =>
      obtain ⟨rfl, rfl⟩ := h.unique h'
      obtain ⟨rfl, rfl⟩ := hsecond.unique hsecond'
      exact ⟨rfl, rfl⟩

/-- No character is read of a quote alone. -/
theorem Letter.ne_quote (h : Letter (c :: x) d y) : c ≠ '"' := by
  cases h with
  | plain _ hquote => exact hquote
  | short => decide
  | unit h | pair h =>
    rw [h.head]
    decide

/-- **A text ends at its closing quote.** -/
theorem Letters.unique (h : Letters x cs y) (h' : Letters x cs' z) : cs = cs' ∧ y = z := by
  induction h generalizing cs' with
  | close =>
    cases h' with
    | close => exact ⟨rfl, rfl⟩
    | cons h' => exact absurd rfl h'.ne_quote
  | cons h hrest ih =>
    cases h' with
    | close => exact absurd rfl h.ne_quote
    | cons h' hrest' =>
      obtain ⟨rfl, rfl⟩ := h.unique h'
      obtain ⟨rfl, rfl⟩ := ih hrest'
      exact ⟨rfl, rfl⟩

end Texts

/-! ### Values -/

variable {part : Part} {v w : Datum}

/-- Blanks do not go on with a number, and neither does what stands behind them. -/
theorem Skips.ends (h : Skips x y) (hy : Ends y) : Ends x := by
  intro c hc
  rcases h.head? hc with hblank | hc
  · simp only [isBlank, Bool.or_eq_true, beq_iff_eq] at hblank
    rcases hblank with ((rfl | rfl) | rfl) | rfl <;> rfl
  · exact hy c hc

/-- A mark that is no blank comes next in one way. -/
theorem Skips.unique_mark (h : Skips x (c :: y)) (h' : Skips x (d :: z))
    (hc : isBlank c = false) (hd : isBlank d = false) : c = d ∧ y = z :=
  List.cons.inj (h.unique h' (by simpa using hc) (by simpa using hd))

/-- **A value begins** with no blank, and with no bracket that closes. -/
theorem Reads.head? (h : Reads .value x v y) :
    ∃ c, x.head? = some c ∧ isBlank c = false ∧ c ≠ ']' := by
  cases h with
  | number h =>
    obtain ⟨c, hc, hnumber⟩ := h.head?
    refine ⟨c, hc, ?_⟩
    rcases hnumber with rfl | hdigit
    · decide
    · have hne {d : Char} (hd : d.isDigit = false) : c ≠ d := by
        rintro rfl
        exact absurd (hdigit.symm.trans hd) (by decide)
      refine ⟨?_, hne rfl⟩
      simp only [isBlank, Bool.or_eq_false_iff, beq_eq_false_iff_ne]
      exact ⟨⟨⟨hne rfl, hne rfl⟩, hne rfl⟩, hne rfl⟩
  | _ => exact ⟨_, rfl, by decide, by decide⟩

theorem Reads.isBlank_head (h : Reads .value x v y) : ∀ c ∈ x.head?, isBlank c = false := by
  obtain ⟨d, hd, hblank, -⟩ := h.head?
  intro c hc
  obtain rfl := Option.some.inj (hd.symm.trans hc)
  exact hblank

/-- Where items are read the array does not close. -/
theorem Reads.not_skips_of_items (h : Reads .items x v y) : ¬ Skips x (']' :: z) := by
  have hvalue {x₁ x₂ : List Char} {v : Datum} (hskips : Skips x x₁) (h : Reads .value x₁ v x₂) :
      ¬ Skips x (']' :: z) := by
    intro hclose
    obtain ⟨c, hc, -, hne⟩ := h.head?
    rw [hskips.unique hclose h.isBlank_head (by simp [isBlank])] at hc
    exact hne (Option.some.inj hc).symm
  cases h with
  | lastItem hskips h => exact hvalue hskips h
  | item hskips h => exact hvalue hskips h

/-- Where members are read the object does not close. -/
theorem Reads.not_skips_of_members (h : Reads .members x v y) : ¬ Skips x ('\x7d' :: z) := by
  have hmember {x₁ : List Char} {v : Datum} (h : Reads .member x v x₁) :
      ¬ Skips x ('\x7d' :: z) := by
    intro hclose
    cases h with
    | member hskips =>
      exact absurd (hskips.unique_mark hclose (by decide) (by decide)).1 (by decide)
  cases h with
  | lastMember h => exact hmember h
  | moreMembers h => exact hmember h

/-- **Each part of a value is read in one way**, where nothing goes on with a number behind it. -/
theorem Reads.unique (h : Reads part x v y) (h' : Reads part x w z) (hy : Ends y) (hz : Ends z) :
    v = w ∧ y = z := by
  have hends {x y : List Char} {c : Char} (h : Skips x (c :: y)) (hc : isNumeric c = false) :
      Ends x := h.ends (by simpa [Ends] using hc)
  induction h generalizing w z with
  | null =>
    cases h' with
    | null => exact ⟨rfl, rfl⟩
    | number h' => exact absurd h'.head (by decide)
  | yes =>
    cases h' with
    | yes => exact ⟨rfl, rfl⟩
    | number h' => exact absurd h'.head (by decide)
  | no =>
    cases h' with
    | no => exact ⟨rfl, rfl⟩
    | number h' => exact absurd h'.head (by decide)
  | number h =>
    cases h' with
    | number h' =>
      obtain ⟨rfl, rfl, rfl⟩ := h.unique h' hy hz
      exact ⟨rfl, rfl⟩
    | _ => exact absurd h.head (by decide)
  | text h =>
    cases h' with
    | text h' =>
      obtain ⟨rfl, rfl⟩ := h.unique h'
      exact ⟨rfl, rfl⟩
    | number h' => exact absurd h'.head (by decide)
  | noItems h =>
    cases h' with
    | noItems h' => exact ⟨rfl, (h.unique_mark h' (by decide) (by decide)).2⟩
    | array h' => exact absurd h h'.not_skips_of_items
    | number h' => exact absurd h'.head (by decide)
  | array h ih =>
    cases h' with
    | noItems h' => exact absurd h' h.not_skips_of_items
    | array h' => exact ih h' hy hz
    | number h' => exact absurd h'.head (by decide)
  | noMembers h =>
    cases h' with
    | noMembers h' => exact ⟨rfl, (h.unique_mark h' (by decide) (by decide)).2⟩
    | object h' => exact absurd h h'.not_skips_of_members
    | number h' => exact absurd h'.head (by decide)
  | object h ih =>
    cases h' with
    | noMembers h' => exact absurd h' h.not_skips_of_members
    | object h' => exact ih h' hy hz
    | number h' => exact absurd h'.head (by decide)
  | lastItem hskips h hclose ih =>
    cases h' with
    | lastItem hskips' h' hclose' =>
      obtain rfl := hskips.unique hskips' h.isBlank_head h'.isBlank_head
      obtain ⟨rfl, rfl⟩ := ih h' (hends hclose rfl) (hends hclose' rfl)
      exact ⟨rfl, (hclose.unique_mark hclose' (by decide) (by decide)).2⟩
    | item hskips' h' hcomma' =>
      obtain rfl := hskips.unique hskips' h.isBlank_head h'.isBlank_head
      obtain ⟨-, rfl⟩ := ih h' (hends hclose rfl) (hends hcomma' rfl)
      exact absurd (hclose.unique_mark hcomma' (by decide) (by decide)).1 (by decide)
  | item hskips h hcomma hrest ih ihrest =>
    cases h' with
    | lastItem hskips' h' hclose' =>
      obtain rfl := hskips.unique hskips' h.isBlank_head h'.isBlank_head
      obtain ⟨-, rfl⟩ := ih h' (hends hcomma rfl) (hends hclose' rfl)
      exact absurd (hcomma.unique_mark hclose' (by decide) (by decide)).1 (by decide)
    | item hskips' h' hcomma' hrest' =>
      obtain rfl := hskips.unique hskips' h.isBlank_head h'.isBlank_head
      obtain ⟨rfl, rfl⟩ := ih h' (hends hcomma rfl) (hends hcomma' rfl)
      obtain ⟨-, rfl⟩ := hcomma.unique_mark hcomma' (by decide) (by decide)
      obtain ⟨hitems, rfl⟩ := ihrest hrest' hy hz
      obtain rfl := Datum.array.inj hitems
      exact ⟨rfl, rfl⟩
  | member hskips hkey hcolon hblanks h ih =>
    cases h' with
    | member hskips' hkey' hcolon' hblanks' h' =>
      obtain ⟨-, rfl⟩ := hskips.unique_mark hskips' (by decide) (by decide)
      obtain ⟨rfl, rfl⟩ := hkey.unique hkey'
      obtain ⟨-, rfl⟩ := hcolon.unique_mark hcolon' (by decide) (by decide)
      obtain rfl := hblanks.unique hblanks' h.isBlank_head h'.isBlank_head
      obtain ⟨rfl, rfl⟩ := ih h' hy hz
      exact ⟨rfl, rfl⟩
  | lastMember h hclose ih =>
    cases h' with
    | lastMember h' hclose' =>
      obtain ⟨rfl, rfl⟩ := ih h' (hends hclose rfl) (hends hclose' rfl)
      exact ⟨rfl, (hclose.unique_mark hclose' (by decide) (by decide)).2⟩
    | moreMembers h' hcomma' =>
      obtain ⟨-, rfl⟩ := ih h' (hends hclose rfl) (hends hcomma' rfl)
      exact absurd (hclose.unique_mark hcomma' (by decide) (by decide)).1 (by decide)
  | moreMembers h hcomma hrest ih ihrest =>
    cases h' with
    | lastMember h' hclose' =>
      obtain ⟨-, rfl⟩ := ih h' (hends hcomma rfl) (hends hclose' rfl)
      exact absurd (hcomma.unique_mark hclose' (by decide) (by decide)).1 (by decide)
    | moreMembers h' hcomma' hrest' =>
      obtain ⟨hmember, rfl⟩ := ih h' (hends hcomma rfl) (hends hcomma' rfl)
      obtain ⟨-, rfl⟩ := hcomma.unique_mark hcomma' (by decide) (by decide)
      obtain ⟨hmembers, rfl⟩ := ihrest hrest' hy hz
      obtain rfl := List.singleton_inj.1 (Datum.object.inj hmember)
      obtain rfl := Datum.object.inj hmembers
      exact ⟨rfl, rfl⟩

/-- **A text stands for one value.** -/
theorem Denotes.unique {text : List Char} (h : Denotes text v) (h' : Denotes text w) : v = w := by
  obtain ⟨x, y, hskips, h, hend⟩ := h
  obtain ⟨x', y', hskips', h', hend'⟩ := h'
  obtain rfl := hskips.unique hskips' h.isBlank_head h'.isBlank_head
  exact (h.unique h' (hend.ends (by simp [Ends])) (hend'.ends (by simp [Ends]))).1

end ConfigScript.Json
