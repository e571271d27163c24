import ConfigScript.Proofs.Json.Grammar
import ConfigScript.Proofs.Text.Dumping

/-!
# Proofs/Json/Decoding — the array of tokens can be read back

Every value in its indented form reads as itself (`reads_chars`), with anything behind it.  The
induction is on the value and has a part for each function that writes: values, the items behind the
first of an array, the members behind the first of an object.  Texts come down to their characters,
and a character that is written by its units is put together again from its surrogates
(`letter_utf16Units`).

For tokens this gives `dumpJson_readsBack`: the printed text is plain, stands for the array of the
tokens and for nothing else, and so tells lists apart that are not the same token by token.  No
token and no message is left out, and only those positions that cannot be written.
-/

namespace ConfigScript.Json

variable {x y : List Char}

/-! ## What the values that are written stand for -/

mutual

/-- **What a value stands for.** -/
def datum : Json → Datum
  | null => .null
  | int n => .number n 0
  | str s => .text s
  | arr items => .array (data items)
  | obj members => .object (memberData members)

/-- What the items of an array stand for. -/
def data : List Json → List Datum
  | [] => []
  | v :: vs => v.datum :: data vs

/-- What the members of an object stand for. -/
def memberData : List (String × Json) → List (String × Datum)
  | [] => []
  | (key, v) :: ms => (key, v.datum) :: memberData ms

end

theorem data_eq_map : ∀ vs : List Json, data vs = vs.map datum
  | [] => rfl
  | v :: vs => congrArg (v.datum :: ·) (data_eq_map vs)

mutual

/-- **Different values stand for different things.** -/
theorem datum_inj : ∀ {v w : Json}, v.datum = w.datum → v = w
  | null, null, _ => rfl
  | int _, int _, h => congrArg int (Datum.number.inj h).1
  | str _, str _, h => congrArg str (Datum.text.inj h)
  | arr _, arr _, h => congrArg arr (data_inj (Datum.array.inj h))
  | obj _, obj _, h => congrArg obj (memberData_inj (Datum.object.inj h))

theorem data_inj : ∀ {vs ws : List Json}, data vs = data ws → vs = ws
  | [], [], _ => rfl
  | _ :: _, _ :: _, h => by
    obtain ⟨hv, hvs⟩ := List.cons.inj h
    rw [datum_inj hv, data_inj hvs]

theorem memberData_inj : ∀ {ms ns : List (String × Json)}, memberData ms = memberData ns → ms = ns
  | [], [], _ => rfl
  | (_, _) :: _, (_, _) :: _, h => by
    obtain ⟨hm, hms⟩ := List.cons.inj h
    obtain ⟨hkey, hv⟩ := Prod.mk.inj hm
    rw [hkey, datum_inj hv, memberData_inj hms]

end

/-! ## Numbers -/

/-- Digits of a number begin with a zero only if it is zero. -/
theorem eq_zero_of_head?_toDigits {n : Nat} (h : (Nat.toDigits 10 n).head? = some '0') : n = 0 := by
  induction n using Nat.strong_induction_on with
  | _ n ih =>
    by_cases hn : n < 10
    · rw [Nat.toDigits_of_lt_base hn] at h
      have hall : ∀ m < 10, Nat.digitChar m = '0' → m = 0 := by decide
      exact hall n hn (Option.some.inj h)
    · rw [Nat.toDigits_of_base_le (by decide) (Nat.le_of_not_lt hn),
        List.head?_append_of_ne_nil _ Nat.toDigits_ne_nil] at h
      have := ih (n / 10) (by omega) h
      omega

theorem whole_toString (n : Nat) (y : List Char) :
    Whole ((toString n).toList ++ y) (toString n).toList y := by
  rw [Nat.toString_eq_ofList_toDigits, String.toList_ofList]
  refine ⟨⟨Nat.toDigits_ne_nil, fun d => Nat.isDigit_of_mem_toDigits (by decide) (by decide), rfl⟩,
    fun h => ?_⟩
  rw [eq_zero_of_head?_toDigits h, Nat.toDigits_zero]

theorem decimal_toString (n : Nat) : decimal (toString n).toList = n := by
  rw [Nat.toString_eq_ofList_toDigits, String.toList_ofList]
  exact Nat.ofDigitChars_ten_toDigits

/-- **A whole number reads as itself.** -/
theorem number_toString (n : Int) (y : List Char) : Number ((toString n).toList ++ y) n 0 y := by
  have hnumber {x : List Char} {sign : Int} (m : Nat)
      (hsign : Sign x sign ((toString m).toList ++ y)) : Number x (sign * m) 0 y := by
    have h : Number x _ _ y := .mk hsign (whole_toString m y) (.none y) (.none y)
    rwa [List.append_nil, decimal_toString] at h
  cases n with
  | ofNat m =>
    have h := hnumber m (.none _)
    rwa [Int.one_mul] at h
  | negSucc m =>
    rw [Text.toString_negSucc]
    have h := hnumber (m + 1) (.minus _)
    rwa [Int.neg_one_mul] at h

/-! ## Texts -/

theorem codeUnit_escapeUnit {n : Nat} (h : n < 0x10000) (x : List Char) :
    CodeUnit (escapeUnit n ++ x) n x := by
  have hlength : (Text.hexPadded 4 n).length = 4 := Text.length_hexPadded (by decide) h
  have hvalue := Text.hexNumber?_hexPadded 4 n
  obtain ⟨a, b, c, d, hdigits⟩ : ∃ a b c d, Text.hexPadded 4 n = [a, b, c, d] := by
    match Text.hexPadded 4 n, hlength with
    | [a, b, c, d], _ => exact ⟨a, b, c, d, rfl⟩
  rw [hdigits] at hvalue
  rw [escapeUnit, hdigits]
  exact .mk hvalue

/-- **A character by its units reads as itself**: it is no surrogate, and the pair of surrogates
that stands for it is put together again. -/
theorem letter_utf16Units (c : Char) (x : List Char) :
    Letter ((Text.utf16Units c).flatMap escapeUnit ++ x) c x := by
  have hvalid : c.toNat < 0xd800 ∨ 0xdfff < c.toNat ∧ c.toNat < 0x110000 := c.valid
  rw [Text.utf16Units]
  split_ifs with hsmall
  · have hletter := Letter.unit (codeUnit_escapeUnit hsmall x) (by omega)
    rw [Char.ofNat_toNat] at hletter
    simpa using hletter
  · have hlow : 0xd800 + (c.toNat - 0x10000) / 0x400 < 0x10000 := by omega
    have hhigh : 0xdc00 + (c.toNat - 0x10000) % 0x400 < 0x10000 := by omega
    have hletter := Letter.pair (codeUnit_escapeUnit hlow _) (codeUnit_escapeUnit hhigh x)
      (by omega) (by omega) (by omega) (by omega)
    have hvalue : 0x10000 + 0x400 * (0xd800 + (c.toNat - 0x10000) / 0x400 - 0xd800)
        + (0xdc00 + (c.toNat - 0x10000) % 0x400 - 0xdc00) = c.toNat := by omega
    rw [hvalue, Char.ofNat_toNat] at hletter
    simpa using hletter

/-- **Every character reads as itself.** -/
theorem letter_escapeChar (c : Char) (x : List Char) : Letter (escapeChar c ++ x) c x := by
  rw [escapeChar]
  split_ifs with hpair hn hr ht hb hf hplain
  · rcases hpair with rfl | rfl <;> exact .short (by decide)
  · rw [hn]
    exact .short (by decide)
  · rw [hr]
    exact .short (by decide)
  · rw [ht]
    exact .short (by decide)
  · rw [hb]
    exact .short (by decide)
  · rw [hf]
    exact .short (by decide)
  · exact .plain hplain.1 (fun h => hpair (.inl h)) fun h => hpair (.inr h)
  · exact letter_utf16Units c x

theorem letters_flatMap (cs : List Char) (x : List Char) :
    Letters (cs.flatMap escapeChar ++ '"' :: x) cs x := by
  induction cs with
  | nil => exact .close x
  | cons c cs ih =>
    rw [List.flatMap_cons, List.append_assoc]
    exact .cons (letter_escapeChar c _) ih

/-! ## Values -/

theorem Skips.refl (x : List Char) : Skips x x := ⟨[], List.forall_mem_nil _, rfl⟩

/-- The end of a line and the indentation of the next are blanks. -/
theorem skips_breakLine (depth : Nat) (x : List Char) : Skips (breakLine depth ++ x) x := by
  refine ⟨breakLine depth, List.forall_mem_cons.2 ⟨rfl, fun c hc => ?_⟩, rfl⟩
  rw [List.eq_of_mem_replicate hc]
  rfl

theorem reads_stringChars (s : String) (y : List Char) :
    Reads .value (stringChars s ++ y) (.text s) y := by
  have h := Reads.text (letters_flatMap s.toList y)
  rw [String.ofList_toList] at h
  rw [stringChars, List.append_assoc]
  exact h

/-- A key, a colon, a blank and a value make a member. -/
theorem reads_member (key : String) {x₁ : List Char} {v : Datum}
    (hskips : Skips x (stringChars key ++ ':' :: ' ' :: x₁)) (h : Reads .value x₁ v y) :
    Reads .member x (.object [(key, v)]) y := by
  have hkey : stringChars key ++ ':' :: ' ' :: x₁
      = '"' :: (key.toList.flatMap escapeChar ++ '"' :: ':' :: ' ' :: x₁) := by
    rw [stringChars, List.append_assoc]
    rfl
  rw [hkey] at hskips
  have hmember := Reads.member hskips (letters_flatMap key.toList _) (.refl _)
    ⟨[' '], List.forall_mem_singleton.2 rfl, rfl⟩ h
  rwa [String.ofList_toList] at hmember

mutual

/-- **The indented form of a value reads as the value**, whatever stands behind it. -/
theorem reads_chars (depth : Nat) (y : List Char) :
    ∀ v : Json, Reads .value (v.chars depth ++ y) v.datum y
  | null => .null y
  | int n => .number (number_toString n y)
  | str s => reads_stringChars s y
  | arr [] => .noItems (.refl _)
  | arr (v :: vs) => by
    have h := reads_items depth y vs (skips_breakLine (depth + 1) _) (reads_chars (depth + 1) _ v)
    simpa only [chars, datum, data, List.append_assoc, List.cons_append, List.nil_append]
      using Reads.array h
  | obj [] => .noMembers (.refl _)
  | obj ((key, v) :: ms) => by
    have h := reads_members depth y ms
      (reads_member key (skips_breakLine (depth + 1) _) (reads_chars (depth + 1) _ v))
    simpa only [chars, datum, memberData, List.append_assoc, List.cons_append, List.nil_append]
      using Reads.object h

/-- Behind an item that was read the others are read. -/
theorem reads_items (depth : Nat) (y : List Char) {x x₁ : List Char} {d : Datum} :
    ∀ vs : List Json, Skips x x₁ →
      Reads .value x₁ d (moreItems (depth + 1) vs ++ (breakLine depth ++ ']' :: y)) →
      Reads .items x (.array (d :: data vs)) y
  | [], hskips, h => .lastItem hskips h (skips_breakLine depth _)
  | v :: vs, hskips, h => by
    simp only [moreItems, List.append_assoc, List.cons_append] at h
    exact .item hskips h (.refl _)
      (reads_items depth y vs (skips_breakLine (depth + 1) _) (reads_chars (depth + 1) _ v))

/-- Behind a member that was read the others are read. -/
theorem reads_members (depth : Nat) (y : List Char) {x : List Char} {m : String × Datum} :
    ∀ ms : List (String × Json),
      Reads .member x (.object [m])
        (moreMembers (depth + 1) ms ++ (breakLine depth ++ '\x7d' :: y)) →
      Reads .members x (.object (m :: memberData ms)) y
  | [], h => .lastMember h (skips_breakLine depth _)
  | (key, v) :: ms, h => by
    simp only [moreMembers, List.append_assoc, List.cons_append, List.nil_append] at h
    exact .moreMembers h (.refl _) (reads_members depth y ms
      (reads_member key (skips_breakLine (depth + 1) _) (reads_chars (depth + 1) _ v)))

end

/-! ## Plain characters -/

/-- A character that is written: a newline, or from the blank to the tilde. -/
def IsPlain (c : Char) : Prop := c = '\n' ∨ 0x20 ≤ c.toNat ∧ c.toNat ≤ 0x7e

instance : DecidablePred IsPlain := fun c =>
  inferInstanceAs (Decidable (c = '\n' ∨ 0x20 ≤ c.toNat ∧ c.toNat ≤ 0x7e))

/-- To check a fixed text is to go through it. -/
theorem isPlain_of_all {x : List Char} (h : x.all (IsPlain ·) = true) : ∀ c ∈ x, IsPlain c :=
  fun c hc => of_decide_eq_true (List.all_eq_true.1 h c hc)

theorem isPlain_of_isDigit {c : Char} (h : c.isDigit = true) : IsPlain c := by
  rw [Char.isDigit, Bool.and_eq_true, decide_eq_true_eq, decide_eq_true_eq] at h
  exact .inr ⟨Nat.le_trans (by decide) h.1, Nat.le_trans h.2 (by decide)⟩

theorem isPlain_of_hexValue? {c : Char} (h : (Text.hexValue? c).isSome = true) : IsPlain c := by
  have hbetween {a b : Char} (ha : 0x20 ≤ a.toNat) (hb : b.toNat ≤ 0x7e) (hac : a ≤ c)
      (hcb : c ≤ b) : IsPlain c :=
    .inr ⟨Nat.le_trans ha (Char.le_def.1 hac), Nat.le_trans (Char.le_def.1 hcb) hb⟩
  rw [Text.hexValue?] at h
  split_ifs at h with hdigit hlower hupper
  · exact hbetween (by decide) (by decide) hdigit.1 hdigit.2
  · exact hbetween (by decide) (by decide) hlower.1 hlower.2
  · exact hbetween (by decide) (by decide) hupper.1 hupper.2
  · exact absurd h (by simp)

theorem isPlain_toString (n : Int) : ∀ c ∈ (toString n).toList, IsPlain c := by
  have hdigits (m : Nat) : ∀ c ∈ (toString m).toList, IsPlain c := fun c hc =>
    isPlain_of_isDigit (Text.isDigit_of_mem_toString hc)
  cases n with
  | ofNat m => exact hdigits m
  | negSucc m =>
    rw [Text.toString_negSucc]
    exact List.forall_mem_cons.2 ⟨by decide, hdigits (m + 1)⟩

theorem isPlain_escapeUnit (n : Nat) : ∀ c ∈ escapeUnit n, IsPlain c :=
  List.forall_mem_cons.2 ⟨by decide, List.forall_mem_cons.2 ⟨by decide, fun _ hc =>
    isPlain_of_hexValue? (Text.isSome_hexValue?_of_mem (Text.hexNumber?_hexPadded 4 n) hc)⟩⟩

theorem isPlain_escapeChar (c : Char) : ∀ d ∈ escapeChar c, IsPlain d := by
  rw [escapeChar]
  split_ifs with hquote hn hr ht hb hf hplain
  · rcases hquote with rfl | rfl <;> exact isPlain_of_all rfl
  · exact isPlain_of_all rfl
  · exact isPlain_of_all rfl
  · exact isPlain_of_all rfl
  · exact isPlain_of_all rfl
  · exact isPlain_of_all rfl
  · exact List.forall_mem_singleton.2 (.inr hplain)
  · intro d hd
    obtain ⟨n, -, hd⟩ := List.mem_flatMap.1 hd
    exact isPlain_escapeUnit n d hd

theorem isPlain_stringChars (s : String) : ∀ c ∈ stringChars s, IsPlain c := by
  refine List.forall_mem_cons.2
    ⟨by decide, List.forall_mem_append.2 ⟨fun c hc => ?_, isPlain_of_all rfl⟩⟩
  obtain ⟨d, -, hc⟩ := List.mem_flatMap.1 hc
  exact isPlain_escapeChar d c hc

theorem isPlain_breakLine (depth : Nat) : ∀ c ∈ breakLine depth, IsPlain c := by
  refine List.forall_mem_cons.2 ⟨.inl rfl, fun c hc => ?_⟩
  rw [List.eq_of_mem_replicate hc]
  decide

theorem isPlain_cons_breakLine {c : Char} (h : IsPlain c) (depth : Nat) :
    ∀ d ∈ c :: breakLine depth, IsPlain d :=
  List.forall_mem_cons.2 ⟨h, isPlain_breakLine depth⟩

mutual

/-- **The indented form of a value is plain.** -/
theorem isPlain_chars (depth : Nat) : ∀ v : Json, ∀ c ∈ v.chars depth, IsPlain c
  | null => isPlain_of_all rfl
  | int n => isPlain_toString n
  | str s => isPlain_stringChars s
  | arr [] => isPlain_of_all rfl
  | arr (v :: vs) => by
    simp only [chars, List.forall_mem_append]
    exact ⟨⟨⟨⟨isPlain_cons_breakLine (by decide) _, isPlain_chars _ v⟩, isPlain_moreItems _ vs⟩,
      isPlain_breakLine _⟩, isPlain_of_all rfl⟩
  | obj [] => isPlain_of_all rfl
  | obj ((key, v) :: ms) => by
    simp only [chars, List.forall_mem_append]
    exact ⟨⟨⟨⟨⟨⟨isPlain_cons_breakLine (by decide) _, isPlain_stringChars key⟩,
      isPlain_of_all rfl⟩, isPlain_chars _ v⟩, isPlain_moreMembers _ ms⟩, isPlain_breakLine _⟩,
      isPlain_of_all rfl⟩

theorem isPlain_moreItems (depth : Nat) : ∀ vs : List Json, ∀ c ∈ moreItems depth vs, IsPlain c
  | [] => List.forall_mem_nil _
  | v :: vs => by
    simp only [moreItems, List.forall_mem_append]
    exact ⟨⟨isPlain_cons_breakLine (by decide) _, isPlain_chars _ v⟩, isPlain_moreItems _ vs⟩

theorem isPlain_moreMembers (depth : Nat) :
    ∀ ms : List (String × Json), ∀ c ∈ moreMembers depth ms, IsPlain c
  | [] => List.forall_mem_nil _
  | (key, v) :: ms => by
    simp only [moreMembers, List.forall_mem_append]
    exact ⟨⟨⟨⟨isPlain_cons_breakLine (by decide) _, isPlain_stringChars key⟩, isPlain_of_all rfl⟩,
      isPlain_chars _ v⟩, isPlain_moreMembers _ ms⟩

end

/-- An array ends with its bracket. -/
theorem exists_chars_arr (depth : Nat) (vs : List Json) :
    ∃ body, (arr vs).chars depth = body ++ [']'] := by
  cases vs with
  | nil => exact ⟨['['], rfl⟩
  | cons v vs => exact ⟨_, rfl⟩

end Json

/-! ## Tokens -/

/-- Kinds go by different names. -/
theorem Kind.name_inj {k l : Kind} (h : k.name = l.name) : k = l := by
  have hall : ∀ k ∈ all, ∀ l ∈ all, k.name = l.name → k = l := by decide
  exact hall k (mem_all k) l (mem_all l) h

namespace Token

open Json (Datum)

variable {s t : Token}

/-- **What a token stands for**: an object of five members. -/
def datum (t : Token) : Datum :=
  .object [("kind", .text t.kind.name), ("value", .text t.value),
    ("start", .array [.number t.start.line 0, .number t.start.column 0]),
    ("end", .array [.number t.stop.line 0, .number t.stop.column 0]),
    ("error", t.message?.elim .null .text)]

theorem datum_toJson (t : Token) : t.toJson.datum = t.datum := by
  rw [toJson, datum]
  cases t.message? <;> rfl

/-- **The same tokens stand for the same**, and no others do. -/
theorem datum_eq_iff : s.datum = t.datum ↔ (s == t) = true := by
  have herror {m n : Option String} :
      (m.elim .null .text : Datum) = n.elim .null .text ↔ m = n := by
    cases m <;> cases n <;> simp
  have hposition {p q : Position} : p.line = q.line ∧ p.column = q.column ↔ p = q := by
    rw [Position.mk.injEq]
  have hkind : s.kind.name = t.kind.name ↔ s.kind = t.kind := ⟨Kind.name_inj, congrArg Kind.name⟩
  simp only [beq_iff, signature, datum, Datum.object.injEq, List.cons.injEq, Prod.mk.injEq,
    Datum.text.injEq, Datum.array.injEq, Datum.number.injEq, true_and, and_true, herror, hkind,
    hposition, and_assoc]

end Token

open Json (Datum Denotes IsPlain)

variable {A B : List Token}

theorem toList_printJson (ts : List Token) :
    (printJson ts).toList = (Json.arr (ts.map Token.toJson)).chars 0 ++ ['\n'] := by
  rw [printJson, String.toList_append, String.toList_ofList]
  rfl

/-- **The array of tokens stands for the tokens.** -/
theorem denotes_printJson (ts : List Token) :
    Denotes (printJson ts).toList (.array (ts.map Token.datum)) := by
  have h := Json.reads_chars 0 ['\n'] (.arr (ts.map Token.toJson))
  rw [Json.datum, Json.data_eq_map, List.map_map,
    show Json.datum ∘ Token.toJson = Token.datum from funext Token.datum_toJson] at h
  rw [toList_printJson]
  exact ⟨_, _, .refl _, h, ['\n'], List.forall_mem_singleton.2 (by decide), rfl⟩

/-- It stands for nothing else. -/
theorem denotes_printJson_iff (ts : List Token) (v : Datum) :
    Denotes (printJson ts).toList v ↔ v = .array (ts.map Token.datum) :=
  ⟨fun h => h.unique (denotes_printJson ts), fun h => h ▸ denotes_printJson ts⟩

/-- **Arrays of tokens tell lists apart.** -/
theorem printJson_eq_iff : printJson A = printJson B ↔ Same A B := by
  have hsame : A.map Token.datum = B.map Token.datum ↔ Same A B := by
    rw [Same, ← List.forall₂_eq_eq_eq, List.forall₂_map_left_iff, List.forall₂_map_right_iff]
    simp only [Token.datum_eq_iff]
  constructor
  · intro h
    -- the text is the array of the tokens of either list
    have hread := denotes_printJson A
    rw [h] at hread
    exact hsame.1 (Datum.array.inj ((denotes_printJson_iff B _).1 hread))
  · intro h
    have hvalues : A.map Token.toJson = B.map Token.toJson :=
      Json.data_inj (by simpa only [Json.data_eq_map, List.map_map, Function.comp_def,
        Token.datum_toJson] using hsame.2 h)
    rw [printJson, printJson, hvalues]

/-- **A text that stands for tokens** and for nothing else; `datum` is what a token is read as. -/
structure StandsFor (datum : Token → Datum) (ts : List Token) (x : String) : Prop where
  /-- It is made of newlines and the characters from the blank to the tilde. -/
  isPlain : ∀ c ∈ x.toList, IsPlain c
  /-- One newline stands at the end, behind the bracket that closes the array. -/
  exists_body : ∃ body, x.toList = body ++ [']', '\n']
  /-- The text has one reading, the array of what the tokens are read as, in order. -/
  denotes_iff : ∀ v, Denotes x.toList v ↔ v = .array (ts.map datum)

theorem standsFor_printJson (ts : List Token) : StandsFor Token.datum ts (printJson ts) := by
  refine ⟨?_, ?_, denotes_printJson_iff ts⟩
  · rw [toList_printJson, List.forall_mem_append]
    exact ⟨Json.isPlain_chars 0 _, Json.isPlain_of_all rfl⟩
  · obtain ⟨body, hbody⟩ := Json.exists_chars_arr 0 (ts.map Token.toJson)
    rw [toList_printJson, hbody, List.append_assoc]
    exact ⟨body, rfl⟩

/-- **A way of printing tokens can be read back**, said of two lists; `datum` is what a token is
read as.  A list with a number that is too long is not printed. -/
structure ReadsBack (dump : List Token → Except Number.TooLong String) (datum : Token → Datum)
    (A B : List Token) : Prop where
  /-- A list is printed exactly if each of its tokens can be. -/
  ok_iff : (∃ x, dump A = .ok x) ↔ ∀ t ∈ A, t.Writable
  /-- What is printed can be read back. -/
  standsFor : ∀ x, dump A = .ok x → StandsFor datum A x
  /-- The same is printed of lists whose tokens are the same one by one, and of no others. -/
  eq_iff : ∀ x, dump A = .ok x → (dump B = .ok x ↔ Same A B)

/-- **The array of tokens can be read back**, whatever the tokens are.  Nothing is printed exactly
where a position has a number in it that is too long to be written. -/
theorem dumpJson_readsBack (A B : List Token) : ReadsBack (dump .json) Token.datum A B := by
  have hdump := dump_eq .json
  refine ⟨exists_dump_iff hdump, fun x hx => ?_,
    fun x hx => dump_eq_ok_iff hdump printJson_eq_iff hx⟩
  rw [hdump, Number.checked_eq_ok_iff] at hx
  exact hx.2 ▸ standsFor_printJson A

end ConfigScript
