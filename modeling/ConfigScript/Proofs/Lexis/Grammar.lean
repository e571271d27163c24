import ConfigScript.Proofs.Lexis.Scanning
import Mathlib.Data.List.TakeWhile

/-!
# Proofs/Lexis/Grammar — the lexical grammar

`Grammar.Lexes` says without a word on reading which token stands at the front of a text: one rule
for each kind, chosen by the first characters, and most rules take the longest front part of the
text that is of a certain shape.  The main statement is `lexes_iff_of_mem_tokenize`: at the start of
every token of a text the grammar allows that token, and nothing else.

Its two halves are `lexes_frontOf`, by what each form reaches, and `frontOf_eq_of_lexes`, by the
uniqueness of a longest front part and of the quote that closes a literal.
-/

namespace ConfigScript

namespace Grammar

/-! ## The rules -/

/-- **`x` is the longest front part of a text that is in the language `L`.** -/
structure Longest (L : List Char → Prop) (x text : List Char) : Prop where
  front : x <+: text
  mem : L x
  longest : ∀ y, y <+: text → L y → y.length ≤ x.length

/-- A blank lexeme: white space other than a newline, and a run behind it. -/
def BlankLexeme (x : List Char) : Prop :=
  ∃ c y v, x = c :: y ∧ isSpace c = true ∧ c ≠ '\n' ∧ Blanks y v

/-- **The lexical grammar**: the kind, the lexeme and the value of the token at the front of a
text. -/
inductive Lexes : List Char → Kind → List Char → List Char → Prop where
  | eof : Lexes [] .eof [] []
  | terminator {cs} : Lexes ('\n' :: cs) .terminator ['\n'] ['\n']
  | whitespace {c cs x v} : isSpace c = true → c ≠ '\n' → Longest BlankLexeme x (c :: cs) →
      Blanks x v → Lexes (c :: cs) .whitespace x v
  | comment {cs x} : Longest ('\n' ∉ ·) x ('#' :: cs) → Lexes ('#' :: cs) .comment x x
  | shellCommand {c cs x} : c = '!' ∨ c = '@' → Longest ('\n' ∉ ·) x (c :: cs) →
      Lexes (c :: cs) .shellCommand x x
  | option {cs x} : Longest (∀ d ∈ ·, isSpace d = false) x ('-' :: '-' :: cs) →
      Lexes ('-' :: '-' :: cs) .option x x.tail
  | literal {cs u v} : Units u v → u ++ ['"'] <+: cs →
      Lexes ('"' :: cs) .word ('"' :: (u ++ ['"'])) v
  | openLiteral {cs} : (∀ u v, Units u v → ¬ u ++ ['"'] <+: cs) →
      Lexes ('"' :: cs) .invalid ('"' :: cs) ('"' :: cs)
  | word {c cs x} : isSpace c = false → c ∉ ['#', '!', '@', '"'] →
      (c = '-' → cs.head? ≠ some '-') → Longest (∀ d ∈ ·, isSpace d = false) x (c :: cs) →
      Lexes (c :: cs) .word x x

/-! ## Longest front parts -/

/-- **There is one longest front part at most.** -/
theorem Longest.unique {L : List Char → Prop} {x y text : List Char} (hx : Longest L x text)
    (hy : Longest L y text) : x = y :=
  (List.prefix_of_prefix_length_le hx.front hy.front (hy.longest x hx.front hx.mem)).eq_of_length_le
    (hx.longest y hy.front hy.mem)

/-- **The character behind a longest front part** cannot be added to it. -/
theorem Longest.not_mem_concat {L : List Char → Prop} {x text : List Char} {c : Char}
    (h : Longest L x text) (hc : (text.drop x.length).head? = some c) : ¬ L (x ++ [c]) := by
  intro hL
  obtain ⟨rest, rfl⟩ := h.front
  rw [List.drop_left] at hc
  obtain ⟨cs, rfl⟩ := List.head?_eq_some_iff.1 hc
  have hfront : x ++ [c] <+: x ++ c :: cs := ⟨cs, by rw [List.append_assoc, List.singleton_append]⟩
  have hle := h.longest (x ++ [c]) hfront hL
  rw [List.length_append, List.length_singleton] at hle
  omega

/-- A language that goes by a class of characters has the front part of that class as longest. -/
theorem longest_takeWhile {L : List Char → Prop} {p : Char → Bool}
    (hL : ∀ y, L y ↔ ∀ c ∈ y, p c = true) (text : List Char) :
    Longest L (text.takeWhile p) text where
  front := List.takeWhile_prefix p
  mem := (hL _).2 fun _ hc => List.mem_takeWhile_imp hc
  longest := by
    rintro y ⟨z, rfl⟩ hy
    rw [List.takeWhile_append_of_pos ((hL y).1 hy), List.length_append]
    exact Nat.le_add_right _ _

/-- A text of such a language is the longest front part up to where the class ends. -/
theorem longest_append {L : List Char → Prop} {p : Char → Bool}
    (hL : ∀ y, L y ↔ ∀ c ∈ y, p c = true) {x rest : List Char} (hx : L x)
    (hrest : ∀ c, rest.head? = some c → p c = false) : Longest L x (x ++ rest) := by
  have hlongest := longest_takeWhile hL (x ++ rest)
  have hstop : rest.takeWhile p = [] := by
    cases rest with
    | nil => rfl
    | cons c cs => exact List.takeWhile_cons_of_neg (by simp [hrest c rfl])
  rwa [List.takeWhile_append_of_pos ((hL x).1 hx), hstop, List.append_nil] at hlongest

theorem line_iff (y : List Char) : '\n' ∉ y ↔ ∀ c ∈ y, decide (c ≠ '\n') = true := by
  simp only [ne_eq, decide_eq_true_eq]
  exact ⟨fun h c hc he => h (he ▸ hc), fun h hc => h _ hc rfl⟩

theorem dense_iff (y : List Char) :
    (∀ d ∈ y, isSpace d = false) ↔ ∀ d ∈ y, (!isSpace d) = true := by
  simp only [Bool.not_eq_true']

theorem longest_line (text : List Char) :
    Longest ('\n' ∉ ·) (text.takeWhile (· ≠ '\n')) text := longest_takeWhile line_iff text

theorem longest_line_append {x rest : List Char} (hx : '\n' ∉ x)
    (hrest : ∀ c, rest.head? = some c → c = '\n') : Longest ('\n' ∉ ·) x (x ++ rest) :=
  longest_append line_iff hx fun c hc => by simp [hrest c hc]

theorem longest_dense (text : List Char) :
    Longest (∀ d ∈ ·, isSpace d = false) (text.takeWhile (!isSpace ·)) text :=
  longest_takeWhile dense_iff text

theorem longest_dense_append {x rest : List Char} (hx : ∀ d ∈ x, isSpace d = false)
    (hrest : ∀ c, rest.head? = some c → isSpace c = true) :
    Longest (∀ d ∈ ·, isSpace d = false) x (x ++ rest) :=
  longest_append dense_iff hx fun c hc => by simp [hrest c hc]

/-- **What a blank reaches is the longest blank lexeme.** -/
theorem longest_blank {c : Char} (hs : isSpace c = true) (hn : c ≠ '\n') (cs : List Char) :
    Longest BlankLexeme (c :: (Reach.ofForm .blank false cs).chars) (c :: cs) where
  front := List.cons_prefix_cons.2 ⟨rfl, Reach.isPrefix_chars_ofForm .blank false cs⟩
  mem := by
    obtain ⟨v, hv⟩ := Reach.exists_blanks cs
    exact ⟨c, _, v, rfl, hs, hn, hv⟩
  longest := by
    rintro y hy ⟨d, z, v, rfl, -, -, hz⟩
    have hfront := Reach.isPrefix_of_blanks hz (List.cons_prefix_cons.1 hy).2
    rw [List.length_cons, List.length_cons]
    exact Nat.succ_le_succ hfront.length_le

/-! ## The grammar and the front of a text -/

/-- **The grammar allows the front of every text.** -/
theorem lexes_frontOf : ∀ text : List Char,
    Lexes text (frontOf text).kind (frontOf text).lexeme (frontOf text).value
  | [] => .eof
  | c :: cs => by
    by_cases hn : c = '\n'
    · subst hn
      rw [frontOf_newline]
      exact .terminator
    by_cases hs : isSpace c = true
    · obtain ⟨v, hv⟩ := Reach.exists_blanks cs
      have hblanks : Blanks (c :: (Reach.ofForm .blank false cs).chars) (c :: v) :=
        .space hs hn hv
      rw [frontOf_blank hs hn]
      refine .whitespace hs hn (longest_blank hs hn cs) ?_
      rw [withoutJoins_of_blanks hblanks]
      exact hblanks
    rw [Bool.not_eq_true] at hs
    by_cases hhash : c = '#'
    · subst hhash
      rw [frontOf_comment]
      exact .comment (longest_line _)
    by_cases hshell : c = '!' ∨ c = '@'
    · rw [frontOf_shell hshell]
      exact .shellCommand hshell (longest_line _)
    by_cases hquote : c = '"'
    · subst hquote
      by_cases hclosed : ∃ u v, Units u v ∧ u ++ ['"'] <+: cs
      · obtain ⟨u, v, hunits, rest, rfl⟩ := hclosed
        have hfront := frontOf_closed hunits rest
        rw [List.append_assoc, List.singleton_append, hfront]
        exact .literal hunits ⟨rest, by rw [List.append_assoc, List.singleton_append]⟩
      · have hopen : ∀ u v, Units u v → ¬ u ++ ['"'] <+: cs :=
          fun u v hunits hfront => hclosed ⟨u, v, hunits, hfront⟩
        rw [frontOf_open hopen]
        exact .openLiteral hopen
    have hc : c ∉ ['#', '!', '@', '"'] := by
      simp only [List.mem_cons, List.not_mem_nil, or_false, not_or]
      exact ⟨hhash, fun h => hshell (Or.inl h), fun h => hshell (Or.inr h), hquote⟩
    by_cases hdashes : c = '-' ∧ cs.head? = some '-'
    · obtain ⟨rfl, hhead⟩ := hdashes
      obtain ⟨ds, rfl⟩ := List.head?_eq_some_iff.1 hhead
      rw [frontOf_option]
      exact .option (longest_dense _)
    · have hd : c = '-' → cs.head? ≠ some '-' := fun he hhead => hdashes ⟨he, hhead⟩
      rw [frontOf_word hs hc hd]
      exact .word hs hc hd (longest_dense _)

/-- **The grammar allows nothing but the front of a text.** -/
theorem frontOf_eq_of_lexes {text x v : List Char} {kind : Kind} (h : Lexes text kind x v) :
    frontOf text = ⟨kind, x, v⟩ := by
  cases h with
  | eof => rfl
  | terminator => exact frontOf_newline
  | whitespace hs hn hx hv =>
    rw [frontOf_blank hs hn, (longest_blank hs hn _).unique hx, withoutJoins_of_blanks hv]
  | comment hx => rw [frontOf_comment, (longest_line _).unique hx]
  | shellCommand hc hx => rw [frontOf_shell hc, (longest_line _).unique hx]
  | option hx => rw [frontOf_option, (longest_dense _).unique hx]
  | literal hunits hfront =>
    obtain ⟨rest, rfl⟩ := hfront
    rw [List.append_assoc, List.singleton_append, frontOf_closed hunits]
  | openLiteral hopen => exact frontOf_open hopen
  | word hs hc hd hx => rw [frontOf_word hs hc hd, (longest_dense _).unique hx]

/-! ## The tokens of a text -/

/-- **The grammar settles every token of a text.**  At the offset at which a token starts the
grammar allows its kind, the lexeme between its positions and its value, and nothing else; and an
invalid token, but no other, carries the report that it starts a literal that is not closed. -/
theorem lexes_iff_of_mem_tokenize (source : String) (t : Token) (ht : t ∈ tokenize source) :
    ∃ p q, Position.offset? source.toList t.start = some p ∧
      Position.offset? source.toList t.stop = some q ∧
      (∀ kind x v, Lexes (source.toList.drop p) kind x v ↔
        kind = t.kind ∧ x = (source.toList.take q).drop p ∧ v = t.value.toList) ∧
      (t.kind = .eof → t.start = t.stop) ∧
      t.error = if t.kind = .invalid then some ⟨"unterminated string", t.start⟩ else none := by
  rw [tokenize_eq] at ht
  obtain ⟨passed, coming, htext, rfl⟩ := exists_of_mem_tokensOf ht
  rw [List.nil_append] at htext
  have hsplit : source.toList = passed ++ lexemeAt coming ++ restAt coming := by
    rw [List.append_assoc, lexemeAt_append_restAt, htext]
  refine ⟨passed.length, (passed ++ lexemeAt coming).length, ?_, ?_, fun kind x v => ?_, ?_, rfl⟩
  · rw [htext]
    exact Position.offset?_after passed coming
  · rw [hsplit]
    exact Position.offset?_after (passed ++ lexemeAt coming) (restAt coming)
  · have hlexeme : (source.toList.take (passed ++ lexemeAt coming).length).drop passed.length
        = lexemeAt coming := by
      rw [hsplit, List.take_left, List.drop_left]
    have hvalue : (tokenAt passed coming).value.toList = (frontOf coming).value :=
      String.toList_ofList
    rw [hlexeme, hvalue, htext, List.drop_left]
    constructor
    · intro h
      have hfront := frontOf_eq_of_lexes h
      exact ⟨by rw [tokenAt, hfront]; rfl, by rw [lexemeAt, hfront], by rw [hfront]⟩
    · rintro ⟨rfl, rfl, rfl⟩
      exact lexes_frontOf coming
  · intro heof
    have hempty : coming = [] := by
      have hiseof : (tokenAt passed coming).isEof = true := beq_iff_eq.2 heof
      rwa [isEof_tokenAt, List.isEmpty_iff] at hiseof
    subst hempty
    exact congrArg Position.after (List.append_nil passed).symm

/-- The text of a blank, a backslash, a newline, a tab and a backslash: the first token joins two
lines, and the last backslash, with no newline behind it, does not belong to it. -/
theorem lexes_iff_joined_blank :
    ∃ p q, Position.offset? [' ', '\\', '\n', '\t', '\\'] ⟨1, 1⟩ = some p ∧
      Position.offset? [' ', '\\', '\n', '\t', '\\'] ⟨2, 2⟩ = some q ∧
      ∀ kind x v, Lexes ([' ', '\\', '\n', '\t', '\\'].drop p) kind x v ↔
        kind = .whitespace ∧ x = ([' ', '\\', '\n', '\t', '\\'].take q).drop p ∧
          v = [' ', '\t'] := by
  have hmem : (⟨.whitespace, String.ofList [' ', '\t'], ⟨1, 1⟩, ⟨2, 2⟩, none⟩ : Token)
      ∈ tokenize (String.ofList [' ', '\\', '\n', '\t', '\\']) := by
    rw [tokenize_eq, String.toList_ofList, tokensOf]
    exact List.mem_cons.2 (Or.inl (by rfl))
  obtain ⟨p, q, hp, hq, hlexes, -⟩ := lexes_iff_of_mem_tokenize _ _ hmem
  simp only [String.toList_ofList] at hp hq hlexes
  exact ⟨p, q, hp, hq, hlexes⟩

end Grammar

end ConfigScript
