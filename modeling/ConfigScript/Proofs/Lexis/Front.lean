import ConfigScript.Proofs.Lexis.Reach

/-!
# Proofs/Lexis/Front — the token at the front of a text

The first characters of a text announce a form, and how far the form reaches settles the lexeme, the
kind and the value of the first token (`frontOf`).  From it come the token itself (`tokenAt`), what
is left behind it (`restAt`) and all tokens of a text (`tokensOf`).

* `lexemeAt_append_restAt` — the lexeme stands at the front of the text;
* `restAt_length_lt` — it is not empty, so the tokens of a text come to an end;
* `token_first` — the lexeme has a token, since a literal that was closed can be decoded.
-/

namespace ConfigScript

/-! ## What the first characters announce -/

namespace Form

/-- The form that the first character of a text announces, in the light of what stands behind
it. -/
def announced (c : Char) (cs : List Char) : Form :=
  if c = '-' ∧ cs.head? = some '-' then option else ofFirst c

section Announced

variable {c : Char} {cs : List Char}

theorem announced_shell (h : c = '!' ∨ c = '@') : announced c cs = shell := by
  rcases h with rfl | rfl <;> rfl

theorem announced_dashes : announced '-' ('-' :: cs) = option := rfl

theorem announced_blank (hs : isSpace c = true) (hn : c ≠ '\n') : announced c cs = blank := by
  have hd : c ≠ '-' := by
    rintro rfl
    exact absurd hs (by decide)
  rw [announced, if_neg fun h => hd h.1, ofFirst, if_neg hn, if_pos hs]

theorem announced_word (hs : isSpace c = false) (hc : c ∉ ['#', '!', '@', '"'])
    (hd : c = '-' → cs.head? ≠ some '-') : announced c cs = word := by
  have hn : c ≠ '\n' := by
    rintro rfl
    exact absurd hs (by decide)
  simp only [List.mem_cons, List.not_mem_nil, or_false, not_or] at hc
  obtain ⟨hhash, hbang, hat, hquote⟩ := hc
  rw [announced, if_neg fun h => hd h.1 h.2, ofFirst, if_neg hn, if_neg (by simp [hs]),
    if_neg hhash, if_neg (by simp [hbang, hat]), if_neg hquote]

end Announced

/-- Only a quote announces a literal. -/
theorem eq_quote_of_announced {c : Char} {cs : List Char} (h : announced c cs = literal) :
    c = '"' := by
  rw [announced] at h
  split at h
  · exact absurd h (by decide)
  · rw [ofFirst] at h
    by_contra hc
    simp only [if_neg hc] at h
    repeat' split at h
    all_goals exact absurd h (by decide)

end Form

/-! ## The front of a text -/

/-- **What the front of a text comes to**: the kind, the lexeme and the value of its first token. -/
structure Front where
  kind : Kind
  lexeme : List Char
  value : List Char
deriving DecidableEq

namespace Form

/-- The front that a lexeme of a form makes. -/
def front (form : Form) (x : Lexeme) : Front :=
  match form with
  | blank => ⟨.whitespace, x.chars, Lexeme.withoutJoins x.chars⟩
  | option => ⟨.option, x.chars, x.chars.tail⟩
  | literal =>
    if x.ending = .closed then ⟨.word, x.chars, (Literal.decode? x.chars).getD []⟩
    else ⟨.invalid, x.chars, x.chars⟩
  | terminator | comment | shell | word => ⟨form.kind, x.chars, x.chars⟩

@[simp] theorem lexeme_front (form : Form) (x : Lexeme) : (form.front x).lexeme = x.chars := by
  cases form with
  | literal =>
    rw [front]
    split <;> rfl
  | _ => rfl

theorem kind_front_ne_eof (form : Form) (x : Lexeme) : (form.front x).kind ≠ .eof := by
  cases form with
  | literal =>
    rw [front]
    split <;> simp
  | _ => simp [front, kind]

end Form

/-- The token of a front that starts at one position and stops at another: a report belongs to what
is invalid. -/
def Front.token (f : Front) (start stop : Position) : Token :=
  ⟨f.kind, String.ofList f.value, start, stop,
    if f.kind = .invalid then some (unterminated start) else none⟩

/-- **A lexeme has the token of its front**, unless it is a closed literal that cannot be
decoded. -/
theorem Form.token_eq (form : Form) (x : Lexeme) (start stop : Position)
    (h : form = literal → x.ending = .closed → (Literal.decode? x.chars).isSome) :
    form.token x start stop = .ok ((form.front x).token start stop) := by
  cases form with
  | literal =>
    by_cases hx : x.ending = .closed
    · obtain ⟨value, hvalue⟩ := Option.isSome_iff_exists.1 (h rfl hx)
      simp [token, front, Front.token, hx, hvalue, kind]
    · simp [token, front, Front.token, hx]
  | _ => rfl

namespace Reach

/-- **How far the first lexeme of a text reaches.** -/
def first (c : Char) (cs : List Char) : Reach :=
  if Form.announced c cs = .terminator then ⟨⟨[c], .closed⟩, false⟩
  else (ofForm (Form.announced c cs) false cs).cons c

theorem first_of_ne {c : Char} {cs : List Char} (h : Form.announced c cs ≠ .terminator) :
    first c cs = (ofForm (Form.announced c cs) false cs).cons c := if_neg h

/-- The first lexeme starts with the first character. -/
theorem exists_chars_first (c : Char) (cs : List Char) :
    ∃ u, (first c cs).chars = c :: u ∧ u <+: cs := by
  by_cases h : Form.announced c cs = .terminator
  · exact ⟨[], by rw [first, if_pos h], List.nil_prefix⟩
  · exact ⟨_, by rw [first_of_ne h, chars_cons], isPrefix_chars_ofForm _ _ _⟩

end Reach

/-- **The front of a text**; at its end the front is empty. -/
def frontOf : List Char → Front
  | [] => ⟨.eof, [], []⟩
  | c :: cs => (Form.announced c cs).front (Reach.first c cs).toLexeme

/-- Whether the front was settled by a look behind the end of the text. -/
def beyondAt : List Char → Bool
  | [] => true
  | c :: cs => (Reach.first c cs).beyond

/-- The lexeme at the front of a text. -/
def lexemeAt (coming : List Char) : List Char := (frontOf coming).lexeme

/-- What stands behind it. -/
def restAt (coming : List Char) : List Char := coming.drop (lexemeAt coming).length

@[simp] theorem lexemeAt_nil : lexemeAt [] = [] := rfl

theorem lexemeAt_cons (c : Char) (cs : List Char) :
    lexemeAt (c :: cs) = (Reach.first c cs).chars := Form.lexeme_front _ _

theorem isPrefix_lexemeAt : ∀ coming : List Char, lexemeAt coming <+: coming
  | [] => List.nil_prefix
  | c :: cs => by
    obtain ⟨u, hu, hfront⟩ := Reach.exists_chars_first c cs
    rw [lexemeAt_cons, hu]
    exact List.cons_prefix_cons.2 ⟨rfl, hfront⟩

/-- With its lexeme known, what stands behind the front of a text is known. -/
theorem restAt_of_lexemeAt {x rest : List Char} (h : lexemeAt (x ++ rest) = x) :
    restAt (x ++ rest) = rest := by
  rw [restAt, h, List.drop_left]

/-- **The lexeme stands at the front of the text.** -/
theorem lexemeAt_append_restAt (coming : List Char) :
    lexemeAt coming ++ restAt coming = coming := by
  obtain ⟨rest, hrest⟩ := isPrefix_lexemeAt coming
  have hrestAt : restAt coming = rest := by
    rw [← hrest]
    exact restAt_of_lexemeAt (by rw [hrest])
  rw [hrestAt, hrest]

theorem lexemeAt_ne_nil (c : Char) (cs : List Char) : lexemeAt (c :: cs) ≠ [] := by
  obtain ⟨u, hu, -⟩ := Reach.exists_chars_first c cs
  rw [lexemeAt_cons, hu]
  exact List.cons_ne_nil c u

/-- **The lexeme is not empty**, so less is left behind it. -/
theorem restAt_length_lt (c : Char) (cs : List Char) :
    (restAt (c :: cs)).length < (c :: cs).length := by
  have hpos := List.length_pos_iff.2 (lexemeAt_ne_nil c cs)
  rw [restAt, List.length_drop, List.length_cons]
  omega

/-! ### The front kind by kind -/

section Kinds

variable {c : Char} {cs : List Char}

theorem frontOf_newline : frontOf ('\n' :: cs) = ⟨.terminator, ['\n'], ['\n']⟩ := rfl

theorem frontOf_blank (hs : isSpace c = true) (hn : c ≠ '\n') :
    frontOf (c :: cs) = ⟨.whitespace, c :: (Reach.ofForm .blank false cs).chars,
      Lexeme.withoutJoins (c :: (Reach.ofForm .blank false cs).chars)⟩ := by
  rw [frontOf, Reach.first, Form.announced_blank hs hn]
  rfl

theorem frontOf_comment : frontOf ('#' :: cs) = ⟨.comment, ('#' :: cs).takeWhile (· ≠ '\n'),
    ('#' :: cs).takeWhile (· ≠ '\n')⟩ := by
  have hchars := Reach.chars_ofForm_comment .comment (Or.inl rfl) cs
  rw [List.takeWhile_cons_of_pos rfl, ← hchars]
  rfl

theorem frontOf_shell (h : c = '!' ∨ c = '@') : frontOf (c :: cs)
    = ⟨.shellCommand, (c :: cs).takeWhile (· ≠ '\n'), (c :: cs).takeWhile (· ≠ '\n')⟩ := by
  have hchars := Reach.chars_ofForm_comment .shell (Or.inr rfl) cs
  have htake : (c :: cs).takeWhile (· ≠ '\n') = c :: cs.takeWhile (· ≠ '\n') :=
    List.takeWhile_cons_of_pos (by rcases h with rfl | rfl <;> rfl)
  rw [htake, ← hchars, frontOf, Reach.first, Form.announced_shell h]
  rfl

theorem frontOf_option : frontOf ('-' :: '-' :: cs)
    = ⟨.option, ('-' :: '-' :: cs).takeWhile (!isSpace ·),
      (('-' :: '-' :: cs).takeWhile (!isSpace ·)).tail⟩ := by
  have hchars := Reach.chars_ofForm_word .option (Or.inr rfl) ('-' :: cs)
  rw [List.takeWhile_cons_of_pos rfl, ← hchars]
  rfl

/-- A quote, units and a quote make a word. -/
theorem frontOf_closed {u v : List Char} (h : Units u v) (cs : List Char) :
    frontOf ('"' :: (u ++ '"' :: cs)) = ⟨.word, '"' :: (u ++ ['"']), v⟩ := by
  have hclosed : frontOf ('"' :: (u ++ '"' :: cs))
      = Form.literal.front ((Reach.ofForm .literal false (u ++ '"' :: cs)).cons '"').toLexeme := rfl
  rw [hclosed, Reach.literal_of_units h]
  simp [Form.front, Reach.cons, Literal.decode?_quoted, unescape_of_units h]

/-- A quote that no quote behind units closes takes the whole text. -/
theorem frontOf_open (h : ∀ u v, Units u v → ¬ u ++ ['"'] <+: cs) :
    frontOf ('"' :: cs) = ⟨.invalid, '"' :: cs, '"' :: cs⟩ := by
  have hopen : frontOf ('"' :: cs)
      = Form.literal.front ((Reach.ofForm .literal false cs).cons '"').toLexeme := rfl
  have hne : (Reach.ofForm .literal false cs).ending ≠ .closed := fun hend => by
    obtain ⟨u, v, hunits, hu⟩ := Reach.exists_units_of_closed cs hend
    exact h u v hunits (hu ▸ Reach.isPrefix_chars_ofForm .literal false cs)
  rw [hopen, Form.front, Reach.ending_cons, if_neg hne, Reach.chars_cons,
    Reach.chars_of_not_closed cs hne]

theorem frontOf_word (hs : isSpace c = false) (hc : c ∉ ['#', '!', '@', '"'])
    (hd : c = '-' → cs.head? ≠ some '-') : frontOf (c :: cs)
      = ⟨.word, (c :: cs).takeWhile (!isSpace ·), (c :: cs).takeWhile (!isSpace ·)⟩ := by
  have hchars := Reach.chars_ofForm_word .word (Or.inl rfl) cs
  rw [List.takeWhile_cons_of_pos (by rw [hs]; rfl), ← hchars, frontOf, Reach.first,
    Form.announced_word hs hc hd]
  rfl

end Kinds

/-! ## Tokens -/

/-- **The token at the front of a text** that stands behind the text passed. -/
def tokenAt (passed coming : List Char) : Token :=
  (frontOf coming).token (.after passed) (.after (passed ++ lexemeAt coming))

/-- **The tokens of a text** that stands behind the text passed, the end token included. -/
def tokensOf (passed : List Char) : List Char → List Token
  | [] => [tokenAt passed []]
  | c :: cs =>
    tokenAt passed (c :: cs) :: tokensOf (passed ++ lexemeAt (c :: cs)) (restAt (c :: cs))
termination_by coming => coming.length
decreasing_by exact restAt_length_lt c cs

/-- **Every token of a text is the one at the front** of a part of it. -/
theorem exists_of_mem_tokensOf {t : Token} {passed coming : List Char}
    (h : t ∈ tokensOf passed coming) :
    ∃ a b, passed ++ coming = a ++ b ∧ t = tokenAt a b := by
  fun_induction tokensOf passed coming with
  | case1 passed => exact ⟨passed, [], rfl, List.mem_singleton.1 h⟩
  | case2 passed c cs ih =>
    rcases List.mem_cons.1 h with rfl | h
    · exact ⟨passed, c :: cs, rfl, rfl⟩
    · obtain ⟨a, b, htext, ht⟩ := ih h
      rw [List.append_assoc, lexemeAt_append_restAt] at htext
      exact ⟨a, b, htext, ht⟩

/-- **The first lexeme of a text has its token.** -/
theorem token_first (passed : List Char) (c : Char) (cs : List Char) :
    (Form.announced c cs).token (Reach.first c cs).toLexeme (.after passed)
      (.after (passed ++ (Reach.first c cs).chars)) = .ok (tokenAt passed (c :: cs)) := by
  have htoken := Form.token_eq (Form.announced c cs) (Reach.first c cs).toLexeme (.after passed)
    (.after (passed ++ (Reach.first c cs).chars)) fun hform hend => by
      have hne : Form.announced c cs ≠ .terminator := by
        rw [hform]
        decide
      obtain rfl : c = '"' := Form.eq_quote_of_announced hform
      rw [Reach.first_of_ne hne, hform] at hend ⊢
      obtain ⟨u, -, -, hu⟩ := Reach.exists_units_of_closed cs hend
      rw [Reach.chars_cons, hu, Literal.decode?_quoted]
      rfl
  rw [htoken, tokenAt, lexemeAt_cons]
  rfl

/-- **The end token stands at the end only.** -/
theorem isEof_tokenAt (passed : List Char) : ∀ coming : List Char,
    (tokenAt passed coming).isEof = coming.isEmpty
  | [] => rfl
  | c :: cs => by
    rw [Token.isEof, List.isEmpty_cons, beq_eq_false_iff_ne]
    exact Form.kind_front_ne_eof _ _

end ConfigScript
