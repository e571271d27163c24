import ConfigScript.Proofs.Lexis.Grammar

/-!
# Proofs/Lexis/Unclosed — the literal that a text leaves open

Only a literal that is never closed is invalid, and it takes all the text that is left; so a text
has one invalid token at most.  `unclosed?` finds it, and two statements tie it to the tokens:

* `invalidTokens_of_unclosed?_eq_none` — where no literal is left open, no token is invalid;
* `exists_of_unclosed?_eq_some` — else the literal is the one invalid token.

`unclosed?` reads over the text in coarse steps: a character of white space, a line, a word, a
literal.  That white space may be read character by character is `unclosed?_space`; it holds because
a scan that sets in amid a run of blanks meets the same literals as one that takes the whole run
(`unclosed?_afterBlanks`).
-/

namespace ConfigScript

open Grammar

/-- **The literal that a text leaves open**, from its quote to the end of the text; `none` if there
is no such literal. -/
def unclosed? : List Char → Option (List Char)
  | [] => none
  | c :: cs =>
    if (frontOf (c :: cs)).kind = .invalid then some (c :: cs) else unclosed? (restAt (c :: cs))
termination_by coming => coming.length
decreasing_by exact restAt_length_lt c cs

/-! ## Reading on to the literal -/

theorem unclosed?_nil : unclosed? [] = none := by rw [unclosed?]

section Steps

variable {c : Char} {cs x v : List Char} {kind : Kind}

theorem unclosed?_of_front (h : frontOf (c :: cs) = ⟨kind, x, v⟩) (hkind : kind ≠ .invalid) :
    unclosed? (c :: cs) = unclosed? (restAt (c :: cs)) := by
  rw [unclosed?, h, if_neg hkind]

/-- Where a lexeme goes by a class of characters, the text is read on to where the class ends. -/
theorem unclosed?_of_takeWhile {p : Char → Bool}
    (h : frontOf (c :: cs) = ⟨kind, (c :: cs).takeWhile p, v⟩) (hkind : kind ≠ .invalid)
    (hp : p c = true) : unclosed? (c :: cs) = unclosed? (cs.dropWhile p) := by
  have hlexeme : lexemeAt ((c :: cs).takeWhile p ++ (c :: cs).dropWhile p)
      = (c :: cs).takeWhile p := by
    rw [List.takeWhile_append_dropWhile, lexemeAt, h]
  have hrest := restAt_of_lexemeAt hlexeme
  rw [List.takeWhile_append_dropWhile, List.dropWhile_cons_of_pos hp] at hrest
  rw [unclosed?_of_front h hkind, hrest]

theorem unclosed?_newline : unclosed? ('\n' :: cs) = unclosed? cs := by
  rw [unclosed?_of_front frontOf_newline (by decide)]
  rfl

/-- **A comment or a shell line** is read to the end of the line. -/
theorem unclosed?_line (hc : c = '#' ∨ c = '!' ∨ c = '@') :
    unclosed? (c :: cs) = unclosed? (cs.dropWhile (· ≠ '\n')) := by
  rcases hc with rfl | hc
  · exact unclosed?_of_takeWhile frontOf_comment (by decide) rfl
  · refine unclosed?_of_takeWhile (frontOf_shell hc) (by decide) ?_
    rcases hc with rfl | rfl <;> rfl

/-- **A word or an option** is read to the next white space. -/
theorem unclosed?_word (hs : isSpace c = false) (hc : c ∉ ['#', '!', '@', '"']) :
    unclosed? (c :: cs) = unclosed? (cs.dropWhile (!isSpace ·)) := by
  by_cases hd : c = '-' ∧ cs.head? = some '-'
  · obtain ⟨rfl, hhead⟩ := hd
    obtain ⟨ds, rfl⟩ := List.head?_eq_some_iff.1 hhead
    exact unclosed?_of_takeWhile frontOf_option (by decide) rfl
  · have hfront := frontOf_word hs hc fun he hhead => hd ⟨he, hhead⟩
    exact unclosed?_of_takeWhile hfront (by decide) (by rw [hs]; rfl)

/-! ### White space -/

/-- What stands behind the blanks and line joins at the front of a text. -/
def afterBlanks (cs : List Char) : List Char := cs.drop (Reach.ofForm .blank false cs).chars.length

theorem afterBlanks_join : afterBlanks ('\\' :: '\n' :: cs) = afterBlanks cs := by
  rw [afterBlanks, Reach.blank_join]
  rfl

theorem afterBlanks_stop (hs : isSpace c = true → c = '\n') (hj : c = '\\' → cs.head? ≠ some '\n') :
    afterBlanks (c :: cs) = c :: cs := by
  rw [afterBlanks, Reach.chars_blank_stop hs hj]
  rfl

theorem afterBlanks_space (hs : isSpace c = true) (hn : c ≠ '\n') :
    afterBlanks (c :: cs) = afterBlanks cs := by
  rw [afterBlanks, Reach.blank_space hs hn]
  rfl

/-- A blank is read to where its run ends. -/
theorem unclosed?_blank (hs : isSpace c = true) (hn : c ≠ '\n') :
    unclosed? (c :: cs) = unclosed? (afterBlanks cs) := by
  rw [unclosed?_of_front (frontOf_blank hs hn) (by decide), restAt, lexemeAt, frontOf_blank hs hn]
  rfl

/-- **A scan may set in amid a run of blanks.**  Where the run joins two lines, such a scan takes
the backslash for a word and the newline for the end of a line, and stands behind the join as
well. -/
theorem unclosed?_afterBlanks (cs : List Char) : unclosed? (afterBlanks cs) = unclosed? cs := by
  induction cs using Reach.blank_induction with
  | nil => rfl
  | join cs ih =>
    have hword : unclosed? ('\\' :: '\n' :: cs) = unclosed? ('\n' :: cs) :=
      unclosed?_word rfl (by decide)
    rw [afterBlanks_join, ih, hword, unclosed?_newline]
  | space c cs hs hn => rw [afterBlanks_space hs hn, unclosed?_blank hs hn]
  | stop c cs hs hj => rw [afterBlanks_stop hs hj]

/-- **White space is read character by character.** -/
theorem unclosed?_space (hs : isSpace c = true) : unclosed? (c :: cs) = unclosed? cs := by
  by_cases hn : c = '\n'
  · rw [hn, unclosed?_newline]
  · rw [unclosed?_blank hs hn, unclosed?_afterBlanks]

/-! ### Literals -/

/-- **What stands behind the quote that closes a literal**, whose own quote stands before the text;
`none` if no quote closes it. -/
def afterQuote? : List Char → Option (List Char)
  | [] => none
  | '"' :: cs => some cs
  | '\\' :: _ :: cs => afterQuote? cs
  | _ :: cs => afterQuote? cs

theorem afterQuote?_pair (c : Char) (cs : List Char) :
    afterQuote? ('\\' :: c :: cs) = afterQuote? cs := by rw [afterQuote?]

theorem afterQuote?_plain (hb : c ≠ '\\') (hq : c ≠ '"') :
    afterQuote? (c :: cs) = afterQuote? cs := by
  rw [afterQuote?.eq_4 c cs (fun h => hq h) fun _ _ h => absurd h hb]

/-- **The first quote behind units closes a literal.** -/
theorem afterQuote?_of_units {u v : List Char} (h : Units u v) (cs : List Char) :
    afterQuote? (u ++ '"' :: cs) = some cs := by
  induction h with
  | nil => rfl
  | plain hb hq _ ih => rw [List.cons_append, afterQuote?_plain hb hq, ih]
  | pair _ _ ih => rw [List.cons_append, List.cons_append, afterQuote?_pair, ih]

/-- **What closes a literal stands behind units.** -/
theorem exists_units_of_afterQuote? {rest : List Char} (h : afterQuote? cs = some rest) :
    ∃ u v, Units u v ∧ cs = u ++ '"' :: rest := by
  induction cs using Reach.literal_induction with
  | nil => exact absurd h (Option.some_ne_none rest).symm
  | dangling => exact absurd h (Option.some_ne_none rest).symm
  | pair c cs ih =>
    rw [afterQuote?_pair] at h
    obtain ⟨u, v, hunits, rfl⟩ := ih h
    exact ⟨'\\' :: c :: u, Literal.escaped c :: v, .pair (escape_escaped c) hunits, rfl⟩
  | quote cs => exact ⟨[], [], .nil, congrArg _ (Option.some.inj h)⟩
  | plain c cs hb hq ih =>
    rw [afterQuote?_plain hb hq] at h
    obtain ⟨u, v, hunits, rfl⟩ := ih h
    exact ⟨c :: u, c :: v, .plain hb hq hunits, rfl⟩

/-- Behind a literal that is closed the text is read on. -/
theorem unclosed?_closed {rest : List Char} (h : afterQuote? cs = some rest) :
    unclosed? ('"' :: cs) = unclosed? rest := by
  obtain ⟨u, v, hunits, rfl⟩ := exists_units_of_afterQuote? h
  have hfront := frontOf_closed hunits rest
  have hlexeme : lexemeAt ('"' :: (u ++ ['"']) ++ rest) = '"' :: (u ++ ['"']) := by
    rw [List.cons_append, List.append_assoc, List.singleton_append, lexemeAt, hfront]
  have hrest := restAt_of_lexemeAt hlexeme
  rw [List.cons_append, List.append_assoc, List.singleton_append] at hrest
  rw [unclosed?_of_front hfront (by decide), hrest]

theorem frontOf_of_afterQuote?_eq_none (h : afterQuote? cs = none) :
    frontOf ('"' :: cs) = ⟨.invalid, '"' :: cs, '"' :: cs⟩ := by
  refine frontOf_open fun u v hunits hfront => ?_
  obtain ⟨rest, rfl⟩ := hfront
  rw [List.append_assoc, List.singleton_append, afterQuote?_of_units hunits] at h
  exact absurd h (Option.some_ne_none rest)

/-- A literal that is never closed is left open. -/
theorem unclosed?_open (h : afterQuote? cs = none) : unclosed? ('"' :: cs) = some ('"' :: cs) := by
  rw [unclosed?, frontOf_of_afterQuote?_eq_none h, if_pos rfl]

/-- What closes a literal leaves less of the text. -/
theorem length_lt_of_afterQuote? {rest : List Char} (h : afterQuote? cs = some rest) :
    rest.length < cs.length := by
  obtain ⟨u, v, -, rfl⟩ := exists_units_of_afterQuote? h
  rw [List.length_append, List.length_cons]
  omega

end Steps

/-- **Induction along the reading**: white space character by character, else line by line, word by
word and literal by literal. -/
theorem reading_induction {P : List Char → Prop} (nil : P [])
    (space : ∀ c cs, isSpace c = true → P cs → P (c :: cs))
    (line : ∀ c cs, c = '#' ∨ c = '!' ∨ c = '@' → P (cs.dropWhile (· ≠ '\n')) → P (c :: cs))
    (word : ∀ c cs, isSpace c = false → c ∉ ['#', '!', '@', '"'] →
      P (cs.dropWhile (!isSpace ·)) → P (c :: cs))
    (closed : ∀ cs rest, afterQuote? cs = some rest → P rest → P ('"' :: cs))
    (opened : ∀ cs, afterQuote? cs = none → P ('"' :: cs)) : ∀ cs, P cs
  | [] => nil
  | c :: cs => by
    have hstep (ds : List Char) (hlt : ds.length < (c :: cs).length) : P ds :=
      reading_induction nil space line word closed opened ds
    have hdrop (p : Char → Bool) : P (cs.dropWhile p) :=
      hstep _ (Nat.lt_succ_of_le (List.dropWhile_suffix p).length_le)
    by_cases hs : isSpace c = true
    · exact space c cs hs (hstep cs (Nat.lt_succ_self _))
    by_cases hq : c = '"'
    · subst hq
      cases hrest : afterQuote? cs with
      | none => exact opened cs hrest
      | some rest =>
        have hlt := length_lt_of_afterQuote? hrest
        exact closed cs rest hrest (hstep rest (Nat.lt_succ_of_lt hlt))
    by_cases hl : c = '#' ∨ c = '!' ∨ c = '@'
    · exact line c cs hl (hdrop _)
    · have hc : c ∉ ['#', '!', '@', '"'] := by
        simpa [hq] using hl
      exact word c cs (eq_false_of_ne_true hs) hc (hdrop _)
termination_by cs => cs.length
decreasing_by exact hlt

/-! ## The invalid token -/

/-- The token of a literal that is left open. -/
def openToken (passed literal : List Char) : Token :=
  ⟨.invalid, String.ofList literal, .after passed, .after (passed ++ literal),
    some (unterminated (.after passed))⟩

/-- **Only a literal that is left open is invalid**, and it takes all that is left of the text. -/
theorem frontOf_of_invalid {text : List Char} (h : (frontOf text).kind = .invalid) :
    ∃ cs, text = '"' :: cs ∧ frontOf text = ⟨.invalid, text, text⟩ := by
  have hlexes := lexes_frontOf text
  rw [h] at hlexes
  have hfront := frontOf_eq_of_lexes hlexes
  generalize (frontOf text).lexeme = x at hlexes hfront
  generalize (frontOf text).value = v at hlexes hfront
  cases hlexes with
  | @openLiteral cs hopen => exact ⟨cs, rfl, hfront⟩

theorem invalidTokens_cons_of_ne {t : Token} (h : t.kind ≠ .invalid) (ts : List Token) :
    invalidTokens (t :: ts) = invalidTokens ts :=
  List.filter_cons_of_neg (by rw [beq_iff_eq]; exact h)

/-- **Where no literal is left open, no token is invalid.** -/
theorem invalidTokens_of_unclosed?_eq_none {coming : List Char} (h : unclosed? coming = none)
    (passed : List Char) : invalidTokens (tokensOf passed coming) = [] := by
  fun_induction unclosed? coming generalizing passed with
  | case1 =>
    rw [tokensOf]
    rfl
  | case2 c cs hkind => exact absurd h (Option.some_ne_none _)
  | case3 c cs hkind ih => rw [tokensOf, invalidTokens_cons_of_ne hkind, ih h]

/-- **A literal that is left open is the one invalid token**, and stands at the end of the text. -/
theorem exists_of_unclosed?_eq_some {coming literal : List Char}
    (h : unclosed? coming = some literal) (passed : List Char) :
    ∃ a cs, coming = a ++ literal ∧ literal = '"' :: cs ∧
      invalidTokens (tokensOf passed coming) = [openToken (passed ++ a) literal] := by
  fun_induction unclosed? coming generalizing passed with
  | case1 => exact absurd h (Option.some_ne_none _).symm
  | case2 c cs hkind =>
    obtain ⟨ds, hds, hfront⟩ := frontOf_of_invalid hkind
    obtain rfl := Option.some.inj h
    have hlexeme : lexemeAt (c :: cs) = c :: cs := by rw [lexemeAt, hfront]
    have hrest : restAt (c :: cs) = [] := by rw [restAt, hlexeme, List.drop_length]
    have htoken : tokenAt passed (c :: cs) = openToken passed (c :: cs) := by
      rw [tokenAt, hlexeme, hfront]
      rfl
    refine ⟨[], ds, rfl, hds, ?_⟩
    rw [tokensOf, hlexeme, hrest, htoken, tokensOf, List.append_nil]
    rfl
  | case3 c cs hkind ih =>
    obtain ⟨a, ds, hrest, hliteral, hinvalid⟩ := ih h (passed ++ lexemeAt (c :: cs))
    refine ⟨lexemeAt (c :: cs) ++ a, ds, ?_, hliteral, ?_⟩
    · rw [List.append_assoc, ← hrest, lexemeAt_append_restAt]
    · rw [tokensOf, invalidTokens_cons_of_ne hkind, hinvalid, List.append_assoc]

/-- A literal that is left open behind a text is a token of the whole. -/
theorem openToken_mem_tokenize {a literal : List Char}
    (h : unclosed? (a ++ literal) = some literal) :
    openToken a literal ∈ tokenize (String.ofList (a ++ literal)) := by
  obtain ⟨b, cs, htext, -, hinvalid⟩ := exists_of_unclosed?_eq_some h []
  obtain rfl : a = b := List.append_cancel_right htext
  have hmem : openToken a literal ∈ invalidTokens (tokensOf [] (a ++ literal)) := by
    rw [hinvalid]
    exact List.mem_singleton_self _
  rw [tokenize_eq, String.toList_ofList]
  exact (List.mem_filter.1 hmem).1

/-- **An invalid token of a text** is a literal that is left open: the text ends with it, and its
report is about its quote. -/
theorem exists_of_mem_invalidTokens {source : String} {t : Token}
    (h : t ∈ invalidTokens (tokenize source)) :
    ∃ a cs, source.toList = a ++ '"' :: cs ∧ t = openToken a ('"' :: cs) := by
  rw [tokenize_eq] at h
  cases hopen : unclosed? source.toList with
  | none =>
    rw [invalidTokens_of_unclosed?_eq_none hopen] at h
    exact absurd h (List.not_mem_nil)
  | some literal =>
    obtain ⟨a, cs, htext, rfl, hinvalid⟩ := exists_of_unclosed?_eq_some hopen []
    rw [hinvalid] at h
    exact ⟨a, cs, htext, List.mem_singleton.1 h⟩

end ConfigScript
