import ConfigScript.Proofs.Lexis.Scanning

/-!
# Proofs/Lexis/Lossless — the tokens of a text cover it without gap or overlap

The tokens of a text follow each other from its first position to the one behind it, each but the
last covers a character or more, and the lexemes cut out by their positions make up the text.
`Lossless` collects this, `lossless_tokensOf` proves it of all tokens of a text, and
`lossless_walk`, the main statement, of a walk over a text that is given in any way.
-/

namespace ConfigScript

open Source (Reader)

/-- The characters of a text between the positions of a token. -/
def Token.lexeme? (text : List Char) (t : Token) : Option (List Char) :=
  Position.between? text t.start t.stop

/-- The token at the end of a text. -/
def endToken (text : List Char) : Token := ⟨.eof, "", .after text, .after text, none⟩

/-- **The tokens of a text cover it without gap or overlap.** -/
structure Lossless (text : List Char) (ts : List Token) : Prop where
  /-- one token for each character at most, and the end token -/
  length_le : ts.length ≤ text.length + 1
  starts : ts.head?.map Token.start = some .first
  /-- each token starts where the one before it stops -/
  chain : ts.IsChain fun t u => t.stop = u.start
  progress : ∀ t ∈ ts, t.isEof = false →
    t.start < t.stop ∧ ∃ x, t.lexeme? text = some x ∧ x ≠ []
  ends : ∃ init, ts = init ++ [endToken text] ∧ ∀ t ∈ init, t.isEof = false
  lexemes : ∃ xs : List (List Char), ts.map (Token.lexeme? text) = xs.map some ∧ xs.flatten = text

/-! ## The tokens of a text -/

theorem exists_tokensOf_eq_cons (passed coming : List Char) :
    ∃ ts, tokensOf passed coming = tokenAt passed coming :: ts := by
  cases coming with
  | nil => exact ⟨[], by rw [tokensOf]⟩
  | cons c cs => exact ⟨_, by rw [tokensOf]⟩

theorem tokenAt_nil (passed : List Char) : tokenAt passed [] = endToken passed := by
  rw [tokenAt, lexemeAt_nil, List.append_nil]
  rfl

theorem length_tokensOf_le (passed coming : List Char) :
    (tokensOf passed coming).length ≤ coming.length + 1 := by
  fun_induction tokensOf passed coming with
  | case1 => exact Nat.le_refl 1
  | case2 passed c cs ih =>
    have := restAt_length_lt c cs
    rw [List.length_cons]
    omega

/-- **Each token starts where the one before it stops.** -/
theorem isChain_tokensOf (passed coming : List Char) :
    (tokensOf passed coming).IsChain fun t u => t.stop = u.start := by
  fun_induction tokensOf passed coming with
  | case1 => exact .singleton _
  | case2 passed c cs ih =>
    obtain ⟨ts, hts⟩ := exists_tokensOf_eq_cons (passed ++ lexemeAt (c :: cs)) (restAt (c :: cs))
    rw [hts] at ih ⊢
    exact List.isChain_cons_cons.2 ⟨rfl, ih⟩

/-- **The end token comes last**, and nowhere else. -/
theorem exists_tokensOf_eq_concat (passed coming : List Char) :
    ∃ init, tokensOf passed coming = init ++ [endToken (passed ++ coming)] ∧
      ∀ t ∈ init, t.isEof = false := by
  fun_induction tokensOf passed coming with
  | case1 passed => exact ⟨[], by rw [tokenAt_nil, List.append_nil, List.nil_append], by simp⟩
  | case2 passed c cs ih =>
    obtain ⟨init, hinit, hne⟩ := ih
    rw [List.append_assoc, lexemeAt_append_restAt] at hinit
    refine ⟨tokenAt passed (c :: cs) :: init, by rw [hinit, List.cons_append], fun t ht => ?_⟩
    rcases List.mem_cons.1 ht with rfl | ht
    · exact isEof_tokenAt passed (c :: cs)
    · exact hne t ht

/-- A token cuts its lexeme out of the text. -/
theorem lexeme?_tokenAt (passed coming : List Char) :
    (tokenAt passed coming).lexeme? (passed ++ coming) = some (lexemeAt coming) := by
  have h := Position.between?_after passed (lexemeAt coming) (restAt coming)
  rw [lexemeAt_append_restAt] at h
  exact h

/-- **The lexemes of the tokens make up the text to come.** -/
theorem exists_lexemes (passed coming : List Char) :
    ∃ xs : List (List Char), (tokensOf passed coming).map (Token.lexeme? (passed ++ coming))
      = xs.map some ∧ xs.flatten = coming := by
  fun_induction tokensOf passed coming with
  | case1 passed =>
    refine ⟨[[]], ?_, rfl⟩
    rw [List.map_singleton, List.map_singleton, lexeme?_tokenAt]
    rfl
  | case2 passed c cs ih =>
    obtain ⟨xs, hxs, hflatten⟩ := ih
    rw [List.append_assoc, lexemeAt_append_restAt] at hxs
    refine ⟨lexemeAt (c :: cs) :: xs, ?_, ?_⟩
    · rw [List.map_cons, List.map_cons, hxs, lexeme?_tokenAt]
    · rw [List.flatten_cons, hflatten, lexemeAt_append_restAt]

/-- **All tokens of a text cover it.** -/
theorem lossless_tokensOf (text : List Char) : Lossless text (tokensOf [] text) where
  length_le := length_tokensOf_le [] text
  starts := by
    obtain ⟨ts, hts⟩ := exists_tokensOf_eq_cons [] text
    rw [hts]
    rfl
  chain := isChain_tokensOf [] text
  progress := by
    intro t ht heof
    obtain ⟨passed, coming, htext, rfl⟩ := exists_of_mem_tokensOf ht
    rw [List.nil_append] at htext
    have hne : lexemeAt coming ≠ [] := by
      cases coming with
      | nil => exact absurd heof (by rw [isEof_tokenAt]; simp)
      | cons c cs => exact lexemeAt_ne_nil c cs
    rw [htext]
    exact ⟨Position.after_lt_after_append passed hne, lexemeAt coming,
      lexeme?_tokenAt passed coming, hne⟩
  ends := exists_tokensOf_eq_concat [] text
  lexemes := exists_lexemes [] text

/-! ## Walks -/

/-- **A walk over a text loses nothing**: however the text is given, the walk ends without a fault,
delivers the tokens of the text, which cover it, and has pulled the whole text. -/
theorem lossless_walk {text : List Char} {r : Reader} (h : Reader.Supplied text r) :
    (walk r).result = .ok (tokenize (String.ofList text)) ∧
      Lossless text (tokenize (String.ofList text)) ∧ (walk r).reader.text = text := by
  obtain ⟨z, hstands, hz⟩ := Reader.standsAt_of_supplied h
  obtain ⟨htokens, hfault, hreader⟩ := walk_of_standsAt hstands hz
  have htokenize : tokenize (String.ofList text) = tokensOf [] text := by
    rw [tokenize_eq, String.toList_ofList]
  rw [htokenize]
  exact ⟨by rw [Walk.result, hfault, htokens], lossless_tokensOf text, hreader.text_eq⟩

/-- A line joined inside a run of blanks and an option, given in pieces that part the backslash from
its newline and the two dashes. -/
theorem lossless_walk_pieces :
    (walk (.ofFeed (.script [.text [' ', '\\'], .text ['\n', '-'], .text ['-', 'x']]) 1)).result
        = .ok (tokenize (String.ofList [' ', '\\', '\n', '-', '-', 'x'])) ∧
      Lossless [' ', '\\', '\n', '-', '-', 'x']
        (tokenize (String.ofList [' ', '\\', '\n', '-', '-', 'x'])) ∧
      (walk (.ofFeed (.script [.text [' ', '\\'], .text ['\n', '-'], .text ['-', 'x']])
        1)).reader.text = [' ', '\\', '\n', '-', '-', 'x'] := by
  have hpieces : ∀ p ∈ [[' ', '\\'], ['\n', '-'], ['-', 'x']], p ≠ [] := by decide
  exact lossless_walk (.pieces (by decide) hpieces rfl)

end ConfigScript
