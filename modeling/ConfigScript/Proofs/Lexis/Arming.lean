import ConfigScript.Proofs.Lexis.Scanning

/-!
# Proofs/Lexis/Arming — the backslash seen by scanning and by decoding

Scanning looks for the quote that closes a literal, decoding for what stands between the quotes, and
each keeps a flag of its own that says whether a backslash has armed the next character.  The main
statement, `arming_agrees`, says that the flags are one: a literal is closed by its last quote
exactly if decoding is not armed at the end of its inside and is armed at every quote in it, which
is to say that the inside is made of units.

The engine is `judge_literal`: what scanning makes of a character is the step of the flag,
`Literal.arms`, with a quote that is not armed as the end.
-/

namespace ConfigScript

open Source (Reader)

variable {armed : Bool} {c : Char} {cs u v : List Char}

namespace Literal

/-! ## The flag of decoding -/

/-- **Whether a character arms the next**: a backslash does that is not armed itself. -/
def arms (armed : Bool) (c : Char) : Bool := !armed && c == '\\'

/-- Whether decoding is armed behind a text. -/
def armedBehind (armed : Bool) (cs : List Char) : Bool := cs.foldl arms armed

theorem armedBehind_cons (armed : Bool) (c : Char) (cs : List Char) :
    armedBehind armed (c :: cs) = armedBehind (arms armed c) cs := rfl

theorem arms_backslash : arms false '\\' = true := rfl

theorem arms_of_armed (c : Char) : arms true c = false := rfl

theorem arms_of_ne (hb : c ≠ '\\') : arms false c = false := by simp [arms, hb]

/-- **Decoding goes on with the flag that it has** behind the text before. -/
theorem unescape_append (armed : Bool) (cs ds : List Char) :
    unescape armed (cs ++ ds) = unescape armed cs ++ unescape (armedBehind armed cs) ds := by
  induction cs generalizing armed with
  | nil => rfl
  | cons c cs ih =>
    rw [List.cons_append, unescape, unescape, armedBehind_cons]
    cases armed with
    | true => rw [if_pos rfl, if_pos rfl, ih, arms_of_armed, List.cons_append]
    | false =>
      by_cases hb : c = '\\'
      · subst hb
        rw [if_neg Bool.false_ne_true, if_neg Bool.false_ne_true, if_pos rfl, if_pos rfl, ih]
        rfl
      · rw [if_neg Bool.false_ne_true, if_neg Bool.false_ne_true, if_neg hb, if_neg hb, ih,
          arms_of_ne hb, List.cons_append]

/-- **Decoding is armed at every quote of a text.** -/
def QuotesArmed (armed : Bool) (cs : List Char) : Prop :=
  ∀ a b, cs = a ++ '"' :: b → armedBehind armed a = true

theorem quotesArmed_nil (armed : Bool) : QuotesArmed armed [] := by
  rintro (_ | _) b h <;> exact absurd h (by simp)

theorem quotesArmed_cons : QuotesArmed armed (c :: cs) ↔
    (c = '"' → armed = true) ∧ QuotesArmed (arms armed c) cs := by
  constructor
  · refine fun h => ⟨?_, ?_⟩
    · rintro rfl
      exact h [] cs rfl
    · rintro a b rfl
      exact h (c :: a) b rfl
  · rintro ⟨hc, hcs⟩ (_ | ⟨d, a⟩) b h
    · exact hc (List.cons.inj h).1
    · obtain ⟨rfl, rfl⟩ := List.cons.inj h
      exact hcs a b rfl

/-- **Units leave decoding unarmed**, and arm it at every quote among them. -/
theorem armed_of_units (h : Units u v) : armedBehind false u = false ∧ QuotesArmed false u := by
  induction h with
  | nil => exact ⟨rfl, quotesArmed_nil false⟩
  | plain hb hq _ ih =>
    rw [armedBehind_cons, quotesArmed_cons, arms_of_ne hb]
    exact ⟨ih.1, fun he => absurd he hq, ih.2⟩
  | pair _ _ ih =>
    rw [armedBehind_cons, armedBehind_cons, quotesArmed_cons, quotesArmed_cons, arms_backslash,
      arms_of_armed]
    exact ⟨ih.1, fun he => absurd he (by decide), fun _ => rfl, ih.2⟩

/-- **What leaves decoding unarmed and arms it at every quote is made of units.** -/
theorem exists_units_of_armed (hend : armedBehind false u = false) (hquotes : QuotesArmed false u) :
    ∃ v, Units u v := by
  induction u using Reach.literal_induction with
  | nil => exact ⟨[], .nil⟩
  | dangling => exact absurd hend (by decide)
  | pair c cs ih =>
    rw [armedBehind_cons, armedBehind_cons, arms_backslash, arms_of_armed] at hend
    rw [quotesArmed_cons, quotesArmed_cons, arms_backslash, arms_of_armed] at hquotes
    obtain ⟨v, hv⟩ := ih hend hquotes.2.2
    exact ⟨_, .pair (escape_escaped c) hv⟩
  | quote cs => exact absurd ((quotesArmed_cons.1 hquotes).1 rfl) Bool.false_ne_true
  | plain c cs hb hq ih =>
    rw [armedBehind_cons, arms_of_ne hb] at hend
    rw [quotesArmed_cons, arms_of_ne hb] at hquotes
    obtain ⟨v, hv⟩ := ih hend hquotes.2
    exact ⟨_, .plain hb hq hv⟩

/-- How many backslash pairs a text has. -/
def pairs : List Char → Nat
  | '\\' :: _ :: cs => pairs cs + 1
  | _ :: cs => pairs cs
  | [] => 0

theorem pairs_pair (c : Char) (cs : List Char) : pairs ('\\' :: c :: cs) = pairs cs + 1 := by
  rw [pairs]

theorem pairs_plain (hb : c ≠ '\\') (cs : List Char) : pairs (c :: cs) = pairs cs :=
  pairs.eq_2 c cs fun _ _ he => absurd he hb

/-- **Of each pair one character is left.** -/
theorem length_add_pairs_of_units (h : Units u v) : v.length + pairs u = u.length := by
  induction h with
  | nil => rfl
  | plain hb _ _ ih =>
    rw [pairs_plain hb, List.length_cons, List.length_cons]
    omega
  | pair _ _ ih =>
    rw [pairs_pair, List.length_cons, List.length_cons, List.length_cons]
    omega

/-! ## Literals in writing -/

/-- A text between quotes. -/
def enclose (u : List Char) : List Char := '"' :: (u ++ ['"'])

theorem decode_enclose (u : List Char) :
    decode (String.ofList (enclose u)) = .ok (String.ofList (unescape false u)) := by
  rw [decode, String.toList_ofList, enclose, decode?_quoted]

/-- A character of a word in writing: newline, tab, backslash and quote by a pair. -/
def spell (c : Char) : List Char :=
  if c = '\n' then ['\\', 'n']
  else if c = '\t' then ['\\', 't']
  else if c = '\\' ∨ c = '"' then ['\\', c]
  else [c]

/-- A newline or a tab does not stand in writing as it is. -/
theorem notMem_spell {d : Char} (hd : d = '\n' ∨ d = '\t') (c : Char) : d ∉ spell c := by
  rw [spell]
  split_ifs with hn ht hp
  · rcases hd with rfl | rfl <;> decide
  · rcases hd with rfl | rfl <;> decide
  · rcases hd with rfl | rfl <;> rcases hp with rfl | rfl <;> decide
  · rw [List.mem_singleton]
    rintro rfl
    exact hd.elim hn ht

/-- **A word in writing is made of units** that stand for it. -/
theorem units_flatMap_spell (w : List Char) : Units (w.flatMap spell) w := by
  induction w with
  | nil => exact .nil
  | cons c w ih =>
    rw [List.flatMap_cons, spell]
    split_ifs with hn ht hp
    · subst hn
      exact .pair .newline ih
    · subst ht
      exact .pair .tab ih
    · refine .pair (.self ?_ ?_) ih <;> rintro rfl <;> exact absurd hp (by decide)
    · rw [not_or] at hp
      exact .plain hp.1 hp.2 ih

end Literal

open Literal

/-! ## The flag of scanning -/

/-- **What scanning makes of a character of a literal** is the step of the flag, with a quote that
is not armed as the end. -/
theorem judge_literal (armed : Bool) (c : Char) : Form.literal.judge armed c
    = if c = '"' ∧ armed = false then .close else .take (arms armed c) := by
  cases armed with
  | true => simp [Form.judge, arms]
  | false =>
    by_cases hb : c = '\\'
    · subst hb
      rfl
    · by_cases hq : c = '"' <;> simp [Form.judge, arms, hb, hq]

/-- **Scanning and decoding have the same flag**, over whatever reader: what is taken arms decoding
at every quote but the last, and if that closes the literal, decoding is not armed there. -/
theorem armed_of_extend {taken : List Char} {r r' : Reader} {x : Lexeme}
    (h : Lexeme.extend .literal armed taken r = .ok x r') :
    ∃ w, QuotesArmed armed w ∧
      (x.ending = .closed → x.chars = taken.reverse ++ (w ++ ['"']) ∧
        armedBehind armed w = false) ∧
      (x.ending ≠ .closed → x.chars = taken.reverse ++ w) := by
  generalize hform : Form.literal = form at h
  fun_induction Lexeme.extend form armed taken r with
  | case1 => exact absurd h (by simp)
  | case2 armed taken r s hr =>
    obtain ⟨rfl, -⟩ := EStateM.Result.ok.inj h
    exact ⟨[], quotesArmed_nil armed, fun he => absurd he (by simp), fun _ => by simp⟩
  | case3 armed taken r c s hr armed' hv ih =>
    subst hform
    rw [judge_literal] at hv
    split_ifs at hv with hclose
    obtain rfl := Verdict.take.inj hv
    obtain ⟨w, hw, hclosed, hopen⟩ := ih h
    refine ⟨c :: w, quotesArmed_cons.2 ⟨fun hc => ?_, hw⟩, fun he => ?_, fun he => ?_⟩
    · exact eq_true_of_ne_false fun harmed => hclose ⟨hc, harmed⟩
    · obtain ⟨hchars, hend⟩ := hclosed he
      exact ⟨by rw [hchars]; simp, hend⟩
    · rw [hopen he]
      simp
  | case4 armed taken r c s hr hv =>
    subst hform
    rw [judge_literal] at hv
    split_ifs at hv with hclose
    obtain ⟨rfl, harmed⟩ := hclose
    obtain ⟨rfl, -⟩ := EStateM.Result.ok.inj h
    exact ⟨[], quotesArmed_nil armed, fun _ => ⟨by simp, harmed⟩, fun he => absurd rfl he⟩
  -- a literal leaves no character to what follows, and joins no lines
  | case5 armed taken r c s hr hv | case6 armed taken r c s hr hv | case7 armed taken r c s hr hv
  | case8 armed taken r c s hr hv | case9 armed taken r c s hr hv =>
    subst hform
    rw [judge_literal] at hv
    split_ifs at hv

/-! ## A text between quotes as a token -/

/-- **A reader scans a text as one literal**, which ends with the last character. -/
def ScansWhole (text : List Char) (r : Reader) : Prop :=
  ∃ t r', scan r = .ok t r' ∧ t.kind = .word ∧ t.stop = .after text

theorem scan_of_supplied {text : List Char} {r : Reader} (h : Reader.Supplied text r) :
    ∃ r', scan r = .ok (tokenAt [] text) r' := by
  obtain ⟨z, hstands, hz⟩ := Reader.standsAt_of_supplied h
  obtain ⟨r', hscan, -⟩ := scan_of_standsAt hstands (Or.inl hz)
  exact ⟨r', hscan⟩

/-- **Units between quotes are scanned as the word that they stand for.** -/
theorem scan_enclose {r : Reader} (hr : Reader.Supplied (enclose u) r) (h : Units u v) :
    ∃ r', scan r = .ok ⟨.word, String.ofList v, .first, .after (enclose u), none⟩ r' := by
  obtain ⟨r', hscan⟩ := scan_of_supplied hr
  have hfront : frontOf (enclose u) = ⟨.word, enclose u, v⟩ := frontOf_closed h []
  refine ⟨r', ?_⟩
  rw [hscan, tokenAt, lexemeAt, hfront]
  rfl

/-- A front part of a text that has its position has all of it. -/
theorem lexemeAt_eq_of_stop {text : List Char} (h : (tokenAt [] text).stop = .after text) :
    lexemeAt text = text := by
  have hfront := isPrefix_lexemeAt text
  have hstop : Position.after (text.take (lexemeAt text).length)
      = Position.after (text.take text.length) := by
    rw [← List.prefix_iff_eq_take.1 hfront, List.take_length]
    exact h
  exact hfront.eq_of_length
    (Position.after_take_injective hfront.length_le (Nat.le_refl _) hstop)

/-- **What is scanned as one literal is made of units.** -/
theorem exists_units_of_scansWhole {r : Reader} (hr : Reader.Supplied (enclose u) r)
    (h : ScansWhole (enclose u) r) : ∃ v, Units u v := by
  obtain ⟨t, r', hscan, hkind, hstop⟩ := h
  obtain ⟨r'', hscan'⟩ := scan_of_supplied hr
  obtain ⟨rfl, -⟩ := EStateM.Result.ok.inj (hscan.symm.trans hscan')
  have hlexeme := lexemeAt_eq_of_stop hstop
  by_cases hclosed : ∃ w v, Units w v ∧ w ++ ['"'] <+: u ++ ['"']
  · obtain ⟨w, v, hunits, rest, hrest⟩ := hclosed
    have hfront := frontOf_closed hunits rest
    rw [List.append_assoc, List.singleton_append] at hrest
    rw [hrest] at hfront
    rw [lexemeAt, enclose, hfront] at hlexeme
    obtain rfl : w = u := List.append_cancel_right (List.cons.inj hlexeme).2
    exact ⟨v, hunits⟩
  · have hinvalid : (frontOf (enclose u)).kind = .invalid := by
      rw [enclose, frontOf_open fun w v hunits hw => hclosed ⟨w, v, hunits, hw⟩]
    exact absurd (hinvalid.symm.trans hkind) (by decide)

/-! ## The two automata -/

/-- **Scanning and decoding agree on literals.** -/
structure ArmingAgrees : Prop where
  /-- decoding goes on with its flag from any place on -/
  flag : ∀ a b, unescape false (a ++ b) = unescape false a ++ unescape (armedBehind false a) b
  /-- a text between quotes is one literal to its last character if no quote in it is outside a
  pair and it does not end inside one, and only then -/
  closed_iff_units : ∀ u r, Reader.Supplied (enclose u) r →
    (ScansWhole (enclose u) r ↔ ∃ v, Units u v)
  /-- which is to say that decoding is not armed at its end and is armed at every quote in it -/
  units_iff_armed : ∀ u, (∃ v, Units u v) ↔ armedBehind false u = false ∧ QuotesArmed false u
  /-- so no reader makes scanning close a literal with a backslash left before the quote -/
  undangling : ∀ r r' x, Lexeme.extend .literal false ['"'] r = .ok x r' → x.ending = .closed →
    ∃ u, x.chars = enclose u ∧ armedBehind false u = false ∧ QuotesArmed false u
  /-- the value is what decoding gives, and of each pair one character is left -/
  value : ∀ u v r, Units u v → Reader.Supplied (enclose u) r →
    (∃ r', scan r = .ok ⟨.word, String.ofList v, .first, .after (enclose u), none⟩ r') ∧
      decode (String.ofList (enclose u)) = .ok (String.ofList v) ∧ v.length + pairs u = u.length
  /-- literals are decoded part by part, where decoding is not armed between them -/
  append : ∀ a b, armedBehind false a = false → ∃ v w,
    decode (String.ofList (enclose a)) = .ok v ∧ decode (String.ofList (enclose b)) = .ok w ∧
      decode (String.ofList (enclose (a ++ b))) = .ok (v ++ w)
  /-- every word in writing is a literal on one line without tabs, and decodes to the word -/
  written : ∀ w, '\n' ∉ enclose (w.flatMap spell) ∧ '\t' ∉ enclose (w.flatMap spell) ∧
    Units (w.flatMap spell) w ∧
      decode (String.ofList (enclose (w.flatMap spell))) = .ok (String.ofList w)

theorem decode_enclose_append (a b : List Char) (h : armedBehind false a = false) :
    ∃ v w, decode (String.ofList (enclose a)) = .ok v ∧
      decode (String.ofList (enclose b)) = .ok w ∧
        decode (String.ofList (enclose (a ++ b))) = .ok (v ++ w) := by
  refine ⟨_, _, decode_enclose a, decode_enclose b, ?_⟩
  rw [decode_enclose, unescape_append, h, String.ofList_append]

theorem notMem_enclose_spell {d : Char} (hd : d = '\n' ∨ d = '\t') (w : List Char) :
    d ∉ enclose (w.flatMap spell) := by
  have hquote : d ∉ ['"'] := by rcases hd with rfl | rfl <;> decide
  have hbody : d ∉ w.flatMap spell := fun hmem => by
    obtain ⟨c, -, hc⟩ := List.mem_flatMap.1 hmem
    exact notMem_spell hd c hc
  rw [enclose, ← List.singleton_append, List.mem_append, List.mem_append]
  exact fun h => h.elim hquote fun h => h.elim hbody hquote

/-- **Scanning and decoding agree** on where a literal ends and on what it stands for. -/
theorem arming_agrees : ArmingAgrees where
  flag := unescape_append false
  closed_iff_units u r hr := by
    refine ⟨exists_units_of_scansWhole hr, ?_⟩
    rintro ⟨v, hunits⟩
    obtain ⟨r', hscan⟩ := scan_enclose hr hunits
    exact ⟨_, r', hscan, rfl, rfl⟩
  units_iff_armed u := by
    refine ⟨?_, fun h => exists_units_of_armed h.1 h.2⟩
    rintro ⟨v, hunits⟩
    exact armed_of_units hunits
  undangling r r' x h hend := by
    obtain ⟨w, hquotes, hclosed, -⟩ := armed_of_extend h
    obtain ⟨hchars, harmed⟩ := hclosed hend
    exact ⟨w, hchars, harmed, hquotes⟩
  value u v r hunits hr :=
    ⟨scan_enclose hr hunits, by rw [decode_enclose, unescape_of_units hunits],
      length_add_pairs_of_units hunits⟩
  append := decode_enclose_append
  written w :=
    ⟨notMem_enclose_spell (Or.inl rfl) w, notMem_enclose_spell (Or.inr rfl) w,
      units_flatMap_spell w,
      by rw [decode_enclose, unescape_of_units (units_flatMap_spell w)]⟩

end ConfigScript
