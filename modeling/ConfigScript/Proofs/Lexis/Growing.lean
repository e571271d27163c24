import ConfigScript.Proofs.Lexis.Cutting

/-!
# Proofs/Lexis/Growing — a text that grows at its end

When text is put behind a text, which of its tokens stay?  All but the last, with one exception: a
backslash at the end of the text is a word behind a blank, until a newline comes behind it and the
blank joins the two lines.  A last token that ends by itself, a terminator or a closed literal,
stays as well.  The main statement is `tokenize_append`.

A token is settled by a look at the character behind it; only the backslash behind a blank needs a
look at two (`Reach.toLexeme_ofForm_append`).  So the front of a text stays where text is left
behind it (`frontOf_append`), and `exists_seam_append` carries this along the tokens.
-/

namespace ConfigScript

open Grammar

/-! ## How far a form reaches into a text that grows -/

namespace Reach

variable {form : Form} {armed : Bool} {cs : List Char}

/-- A lexeme that came to the end of the text takes all of it. -/
theorem chars_of_exhausted (h : (ofForm form armed cs).ending = .exhausted) :
    (ofForm form armed cs).chars = cs := by
  fun_induction ofForm form armed cs with
  | case1 => rfl
  | case2 armed c cs armed' hv ih => rw [chars_cons, ih h]
  | case3 | case4 | case5 | case7 => exact absurd h (by simp)
  | case6 armed c hv ds ih => rw [chars_cons, chars_cons, ih h]

/-- Only a blank joins lines, and only by a backslash. -/
theorem eq_backslash_of_join {c : Char} (h : form.judge armed c = .join) :
    form = .blank ∧ c = '\\' := by
  cases form with
  | blank =>
    rw [Form.judge] at h
    split at h
    · next hc => exact ⟨rfl, hc⟩
    · split at h <;> exact absurd h (by simp)
  | _ =>
    simp only [Form.judge] at h
    repeat' split at h
    all_goals exact absurd h (by simp)

/-- **A look behind the text** is needed where the lexeme takes all of the text, or for a backslash
behind a blank. -/
theorem of_beyond (h : (ofForm form armed cs).beyond = true) :
    (ofForm form armed cs).ending = .exhausted ∨ (ofForm form armed cs).ending = .boundary ∧
      form = .blank ∧ cs = (ofForm form armed cs).chars ++ ['\\'] := by
  fun_induction ofForm form armed cs with
  | case1 => exact Or.inl rfl
  | case2 armed c cs armed' hv ih =>
    rcases ih h with hend | ⟨hend, hform, hcs⟩
    · exact Or.inl hend
    · refine Or.inr ⟨hend, hform, ?_⟩
      rw [chars_cons, List.cons_append, ← hcs]
  | case3 | case4 | case7 => exact absurd h (by simp)
  | case5 armed c hv =>
    obtain ⟨hform, rfl⟩ := eq_backslash_of_join hv
    exact Or.inr ⟨rfl, hform, rfl⟩
  | case6 armed c hv ds ih =>
    rcases ih h with hend | ⟨hend, hform, hcs⟩
    · exact Or.inl hend
    · refine Or.inr ⟨hend, hform, ?_⟩
      rw [chars_cons, chars_cons, List.cons_append, List.cons_append, ← hcs]

/-- **A lexeme stays in a text that grows** if it was settled inside the text, or before a backslash
that gets no newline behind it. -/
theorem toLexeme_ofForm_append {more : List Char}
    (h : (ofForm form armed cs).beyond = true →
      (ofForm form armed cs).ending = .boundary ∧ more.head? ≠ some '\n') :
    (ofForm form armed (cs ++ more)).toLexeme = (ofForm form armed cs).toLexeme := by
  fun_induction ofForm form armed cs with
  | case1 => exact absurd (h rfl).1 (by simp)
  | case2 armed c cs armed' hv ih =>
    have hrest := ih h
    rw [List.cons_append, ofForm_take hv]
    exact congrArg (fun x : Lexeme => { x with chars := c :: x.chars }) hrest
  | case3 armed c cs hv => rw [List.cons_append, ofForm_close hv]
  | case4 armed c cs hv => rw [List.cons_append, ofForm_leave hv]
  | case5 armed c hv =>
    cases more with
    | nil => rw [List.append_nil, ofForm_cons, hv]
    | cons d ds =>
      have hd : d ≠ '\n' := fun he => (h rfl).2 (congrArg some he)
      rw [List.singleton_append, ofForm_no_join hv hd]
  | case6 armed c hv ds ih =>
    have hrest := ih h
    rw [List.cons_append, List.cons_append, ofForm_join hv]
    exact congrArg (fun x : Lexeme => { x with chars := c :: '\n' :: x.chars }) hrest
  | case7 armed c hv d ds hd =>
    rw [List.cons_append, List.cons_append, ofForm_no_join hv hd]

end Reach

/-- What the first character announces stays, unless the second comes with the text added. -/
theorem Form.announced_append {c : Char} {cs : List Char} (h : cs = [] → c ≠ '-')
    (more : List Char) : announced c (cs ++ more) = announced c cs := by
  cases cs with
  | nil => rw [announced, announced, if_neg fun he => h rfl he.1, if_neg fun he => h rfl he.1]
  | cons d ds => rfl

/-! ## The front of a text that grows -/

section Front

variable {c : Char} {cs text more : List Char}

/-- A front is settled inside its text where no look behind the text was needed, and else where it
stands before a backslash that gets no newline. -/
theorem frontOf_append_of_settled (h : beyondAt (c :: cs) = true →
      (Reach.first c cs).ending = .boundary ∧ more.head? ≠ some '\n') :
    frontOf (c :: cs ++ more) = frontOf (c :: cs) := by
  have hannounced : Form.announced c (cs ++ more) = Form.announced c cs := by
    refine Form.announced_append (fun hcs hc => ?_) more
    subst hcs hc
    exact absurd (h rfl).1 (by decide)
  rw [List.cons_append, frontOf, frontOf, hannounced]
  by_cases hterm : Form.announced c cs = .terminator
  · rw [Reach.first, Reach.first, hannounced, if_pos hterm, if_pos hterm]
  · rw [beyondAt, Reach.first_of_ne hterm] at h
    rw [Reach.first_of_ne hterm, Reach.first_of_ne (by rwa [hannounced]), hannounced]
    exact congrArg (fun x : Lexeme => (Form.announced c cs).front { x with chars := c :: x.chars })
      (Reach.toLexeme_ofForm_append h)

/-- Where a look behind the text was needed though text is left, a backslash is left behind a
blank. -/
theorem of_beyondAt (h : beyondAt (c :: cs) = true) (hrest : restAt (c :: cs) ≠ []) :
    (Reach.first c cs).ending = .boundary ∧ (frontOf (c :: cs)).kind = .whitespace ∧
      restAt (c :: cs) = ['\\'] := by
  have hterm : Form.announced c cs ≠ .terminator := by
    intro hterm
    rw [beyondAt, Reach.first, if_pos hterm] at h
    exact absurd h (by simp)
  have hlexeme : lexemeAt (c :: cs)
      = c :: (Reach.ofForm (Form.announced c cs) false cs).chars := by
    rw [lexemeAt_cons, Reach.first_of_ne hterm, Reach.chars_cons]
  rw [beyondAt, Reach.first_of_ne hterm] at h
  rw [restAt, hlexeme, List.length_cons, List.drop_succ_cons] at hrest ⊢
  rw [Reach.first_of_ne hterm, frontOf, Reach.first_of_ne hterm]
  rcases Reach.of_beyond h with hend | ⟨hend, hform, hcs⟩
  · rw [Reach.chars_of_exhausted hend, List.drop_length] at hrest
    exact absurd rfl hrest
  · refine ⟨hend, by rw [hform]; rfl, ?_⟩
    generalize Reach.ofForm (Form.announced c cs) false cs = reach at hcs ⊢
    have hdrop := congrArg (List.drop reach.chars.length) hcs
    rwa [List.drop_left] at hdrop

/-- **The front of a text stays where text is left behind it**, unless that is a backslash behind a
blank and gets a newline behind it. -/
theorem frontOf_append (hrest : restAt text ≠ [])
    (hjoin : (frontOf text).kind = .whitespace → restAt text = ['\\'] → more.head? ≠ some '\n') :
    frontOf (text ++ more) = frontOf text := by
  cases text with
  | nil => exact absurd rfl hrest
  | cons c cs =>
    refine frontOf_append_of_settled fun hbeyond => ?_
    obtain ⟨hend, hkind, hbackslash⟩ := of_beyondAt hbeyond hrest
    exact ⟨hend, hjoin hkind hbackslash⟩

/-- **A token that ends by itself stays**: the end of a line, or a closed literal. -/
theorem lexes_append_of_closed {kind : Kind} {x v : List Char} (h : Lexes text kind x v)
    (hkind : kind = .terminator ∨ kind = .word ∧ text.head? = some '"') :
    Lexes (text ++ more) kind x v := by
  cases h with
  | terminator => exact .terminator
  | literal hunits hfront => exact .literal hunits (hfront.trans (List.prefix_append _ more))
  | @word c _ _ _ hc =>
    obtain ⟨-, hquote⟩ := hkind.resolve_left (by simp)
    obtain rfl : c = '"' := Option.some.inj hquote
    exact absurd hc (by decide)
  | _ => exact absurd hkind (by simp)

theorem frontOf_append_of_closed (h : (frontOf text).kind = .terminator ∨
      (frontOf text).kind = .word ∧ text.head? = some '"') :
    frontOf (text ++ more) = frontOf text :=
  frontOf_eq_of_lexes (lexes_append_of_closed (lexes_frontOf text) h)

/-- **A newline joins a blank with what follows**: behind the backslash left behind a blank it makes
both part of the blank. -/
theorem frontOf_append_newline (hkind : (frontOf text).kind = .whitespace)
    (hrest : restAt text = ['\\']) :
    (frontOf (text ++ '\n' :: more)).kind = .whitespace ∧
      text ++ ['\n'] <+: lexemeAt (text ++ '\n' :: more) := by
  have hlexes := lexes_frontOf text
  have htext := lexemeAt_append_restAt text
  rw [hrest] at htext
  rw [hkind] at hlexes
  rw [lexemeAt] at htext
  generalize (frontOf text).lexeme = x at hlexes htext
  generalize (frontOf text).value = v at hlexes
  cases hlexes with
  | @whitespace c cs _ _ hs hn hlongest =>
    obtain ⟨c', y, w, rfl, -, -, hy⟩ := hlongest.mem
    rw [List.cons_append] at htext
    obtain ⟨rfl, rfl⟩ := List.cons.inj htext
    have hfront := @frontOf_blank c' (y ++ ['\\'] ++ '\n' :: more) hs hn
    have hprefix : y ++ ['\\'] ++ ['\n']
        <+: (Reach.ofForm .blank false (y ++ ['\\'] ++ '\n' :: more)).chars := by
      rw [List.append_assoc y]
      exact Reach.isPrefix_of_blanks (hy.append (.join .nil)) ⟨more, by simp⟩
    rw [List.cons_append, lexemeAt, hfront, List.cons_append]
    exact ⟨rfl, List.cons_prefix_cons.2 ⟨rfl, hprefix⟩⟩

end Front

/-! ## The tokens of a text that grows -/

/-- The tokens of a text that grows, where the first of them stays. -/
theorem tokensOf_append_of_frontOf {c : Char} {cs more : List Char}
    (h : frontOf (c :: cs ++ more) = frontOf (c :: cs)) (passed : List Char) :
    tokensOf passed (c :: cs ++ more) = tokenAt passed (c :: cs) ::
      tokensOf (passed ++ lexemeAt (c :: cs)) (restAt (c :: cs) ++ more) := by
  have hlexeme : lexemeAt (c :: cs ++ more) = lexemeAt (c :: cs) := congrArg Front.lexeme h
  have hrest : restAt (c :: cs ++ more) = restAt (c :: cs) ++ more := by
    rw [restAt, hlexeme, List.drop_append_of_le_length (isPrefix_lexemeAt _).length_le, restAt]
  have htoken : tokenAt passed (c :: cs ++ more) = tokenAt passed (c :: cs) := by
    rw [tokenAt, h, hlexeme, tokenAt]
  rw [← htoken, ← hlexeme, ← hrest, List.cons_append, tokensOf]

/-- **The tokens before a place where text is left stay** when the text grows, unless a newline
comes behind a blank and a backslash. -/
theorem exists_seam_append {passed coming : List Char} {front tail : List Token}
    (h : tokensOf passed coming = front ++ tail) (htail : tail ≠ []) :
    ∃ a b, coming = a ++ b ∧ tail = tokensOf (passed ++ a) b ∧
      ∀ more, b ≠ [] →
        (∀ t ∈ front.getLast?, t.kind = .whitespace → b = ['\\'] → more.head? ≠ some '\n') →
        tokensOf passed (coming ++ more) = front ++ tokensOf (passed ++ a) (b ++ more) := by
  induction front generalizing passed coming with
  | nil =>
    refine ⟨[], coming, rfl, ?_, fun more _ _ => ?_⟩
    · rw [List.append_nil]
      exact h.symm
    · rw [List.append_nil, List.nil_append]
  | cons t front ih =>
    cases coming with
    | nil =>
      rw [tokensOf] at h
      have hnil := (List.cons.inj h).2
      exact absurd (List.append_eq_nil_iff.1 hnil.symm).2 htail
    | cons c cs =>
      rw [tokensOf] at h
      obtain ⟨ht, hfront⟩ := List.cons.inj h
      obtain ⟨a, b, hrest, htail', hgrow⟩ := ih hfront
      have htext := lexemeAt_append_restAt (c :: cs)
      rw [hrest, ← List.append_assoc] at htext
      refine ⟨lexemeAt (c :: cs) ++ a, b, htext.symm, by rw [htail', List.append_assoc], ?_⟩
      intro more hb hjoin
      have hne : restAt (c :: cs) ≠ [] := by
        rw [hrest]
        exact fun he => hb (List.append_eq_nil_iff.1 he).2
      have hstay : frontOf (c :: cs ++ more) = frontOf (c :: cs) := by
        refine frontOf_append hne fun hkind hbackslash => ?_
        -- with one character left behind it the first token is the last before the place
        obtain ⟨rfl, rfl⟩ : a = [] ∧ b = ['\\'] := by
          rw [hrest] at hbackslash
          rcases List.append_eq_singleton_iff.1 hbackslash with hab | ⟨-, hb'⟩
          · exact hab
          · exact absurd hb' hb
        obtain rfl : front = [] := by
          rw [hrest, List.nil_append, htail', List.append_nil] at hfront
          exact List.append_left_eq_self.1 hfront.symm
        exact hjoin t rfl (by rw [← ht]; exact hkind) rfl
      rw [tokensOf_append_of_frontOf hstay, hgrow more hb fun u hu => hjoin u ?_, ht,
        List.cons_append, List.append_assoc passed]
      cases front with
      | nil => exact absurd hu (by simp)
      | cons u' front => exact hu

/-- A token that another follows stands at the front of a text, with the other behind its lexeme. -/
theorem of_tokensOf_eq_cons_cons {passed coming : List Char} {t u : Token} {ts : List Token}
    (h : tokensOf passed coming = t :: u :: ts) :
    coming ≠ [] ∧ t = tokenAt passed coming ∧
      tokensOf (passed ++ lexemeAt coming) (restAt coming) = u :: ts := by
  cases coming with
  | nil =>
    rw [tokensOf] at h
    exact absurd (List.cons.inj h).2 (by simp)
  | cons c cs =>
    rw [tokensOf] at h
    obtain ⟨ht, hrest⟩ := List.cons.inj h
    exact ⟨List.cons_ne_nil c cs, ht.symm, hrest⟩

/-- A text with one token is empty. -/
theorem eq_nil_of_tokensOf_eq_singleton {passed coming : List Char} {t : Token}
    (h : tokensOf passed coming = [t]) : coming = [] := by
  cases coming with
  | nil => rfl
  | cons c cs =>
    rw [tokensOf] at h
    obtain ⟨ts, hts⟩ := exists_tokensOf_eq_cons (passed ++ lexemeAt (c :: cs)) (restAt (c :: cs))
    exact absurd (hts.symm.trans (List.cons.inj h).2) (by simp)

/-- **The last token before the end** takes all that is left of the text. -/
theorem of_tokensOf_eq_pair {passed coming : List Char} {last e : Token}
    (h : tokensOf passed coming = [last, e]) :
    coming ≠ [] ∧ last = tokenAt passed coming ∧ lexemeAt coming = coming ∧
      restAt coming = [] := by
  obtain ⟨hne, hlast, hend⟩ := of_tokensOf_eq_cons_cons h
  have hrest := eq_nil_of_tokensOf_eq_singleton hend
  have htext := lexemeAt_append_restAt coming
  rw [hrest, List.append_nil] at htext
  exact ⟨hne, hlast, htext, hrest⟩

/-! ## The main statement -/

/-- A newline behind a text **joins** the last two tokens of the text: a blank, and a word that is a
backslash and nothing else. -/
structure Rejoins (source : List Char) (blank last : Token) (more : List Char) : Prop where
  blank : blank.kind = .whitespace
  word : last.kind = .word
  backslash : last.lexeme? source = some ['\\']
  newline : more.head? = some '\n'

/-- **A token that ends by itself**: the end of a line, or a word in quotes. -/
def Token.EndsItself (source : List Char) (t : Token) : Prop :=
  t.kind = .terminator ∨ t.kind = .word ∧ ∃ x, t.lexeme? source = some ('"' :: x)

/-- **A newline rejoins a blank and a backslash**: the tokens before them stay, and the next is a
blank that starts where the old one started and goes on behind the newline. -/
theorem exists_joined {source : List Char} {more : List Char} {init : List Token}
    {blank last e : Token} (h : tokensOf [] source = init ++ [blank, last, e])
    (hrejoins : Rejoins source blank last more) :
    ∃ joined rest, tokensOf [] (source ++ more) = init ++ joined :: rest ∧
      joined.kind = .whitespace ∧ joined.start = blank.start ∧
      Position.after (source ++ ['\n']) ≤ joined.stop := by
  obtain ⟨a, b, htext, hthree, hgrow⟩ := exists_seam_append h (by simp)
  rw [List.nil_append] at hthree hgrow
  obtain ⟨hb, hblank, hpair⟩ := of_tokensOf_eq_cons_cons hthree.symm
  obtain ⟨-, hlast, hlexeme, -⟩ := of_tokensOf_eq_pair hpair
  have hrest : restAt b = ['\\'] := by
    have hsplit : source = a ++ lexemeAt b ++ restAt b := by
      rw [List.append_assoc, lexemeAt_append_restAt, htext]
    have hbackslash := hrejoins.backslash
    rw [hsplit, hlast, lexeme?_tokenAt, hlexeme] at hbackslash
    exact Option.some.inj hbackslash
  have hkind : (frontOf b).kind = .whitespace := by
    have hkind := hrejoins.blank
    rwa [hblank] at hkind
  obtain ⟨more, rfl⟩ := List.head?_eq_some_iff.1 hrejoins.newline
  obtain ⟨hjoined, hfront⟩ := @frontOf_append_newline b more hkind hrest
  obtain ⟨rest, hrest'⟩ := exists_tokensOf_eq_cons a (b ++ '\n' :: more)
  refine ⟨tokenAt a (b ++ '\n' :: more), rest, ?_, hjoined, by rw [hblank]; rfl, ?_⟩
  · rw [hgrow _ hb, hrest']
    rintro t - - rfl
    exact absurd hrest (by decide)
  · obtain ⟨z, hz⟩ := hfront
    have hstop : (tokenAt a (b ++ '\n' :: more)).stop
        = .after (a ++ lexemeAt (b ++ '\n' :: more)) := rfl
    have hle := Position.after_le_after_append (a ++ (b ++ ['\n'])) z
    rw [List.append_assoc a] at hle
    rw [hstop, ← hz, htext, List.append_assoc a]
    exact hle

/-- **The place of the last token**: its text, and how the text goes on when it grows. -/
theorem exists_last {source : List Char} {front : List Token} {last e : Token}
    (h : tokensOf [] source = front ++ [last, e]) :
    ∃ a b, b ≠ [] ∧ last = tokenAt a b ∧ last.lexeme? source = some b ∧ ∀ more,
      (∀ t ∈ front.getLast?, t.kind = .whitespace → b = ['\\'] → more.head? ≠ some '\n') →
      tokensOf [] (source ++ more) = front ++ tokensOf a (b ++ more) := by
  obtain ⟨a, b, htext, hpair, hgrow⟩ := exists_seam_append h (by simp)
  obtain ⟨hb, hlast, hlexeme, -⟩ := of_tokensOf_eq_pair hpair.symm
  rw [List.nil_append] at hlast hgrow
  refine ⟨a, b, hb, hlast, ?_, fun more => hgrow more hb⟩
  rw [htext, hlast, lexeme?_tokenAt, hlexeme]

/-- **All tokens but the last stay**, where no newline rejoins the last two. -/
theorem isPrefix_of_not_rejoins {source more : List Char} {front : List Token} {last e : Token}
    (h : tokensOf [] source = front ++ [last, e])
    (hjoin : ∀ init blank, front = init ++ [blank] → ¬ Rejoins source blank last more) :
    front <+: tokensOf [] (source ++ more) := by
  obtain ⟨a, b, -, hlast, hlexeme, hgrow⟩ := exists_last h
  rw [hgrow more ?_]
  · exact List.prefix_append _ _
  · intro blank hblank hkind hbackslash hnewline
    obtain ⟨init, hinit⟩ := List.getLast?_eq_some_iff.1 hblank
    refine hjoin init blank hinit ⟨hkind, ?_, by rw [hlexeme, hbackslash], hnewline⟩
    rw [hlast, hbackslash]
    rfl

/-- **A last token that ends by itself stays as well.** -/
theorem isPrefix_of_endsItself {source more : List Char} {front : List Token} {last e : Token}
    (h : tokensOf [] source = front ++ [last, e]) (hself : last.EndsItself source) :
    front ++ [last] <+: tokensOf [] (source ++ more) := by
  obtain ⟨a, b, hb, hlast, hlexeme, hgrow⟩ := exists_last h
  have hends : (frontOf b).kind = .terminator ∨
      (frontOf b).kind = .word ∧ b.head? = some '"' := by
    rw [Token.EndsItself, hlexeme, hlast] at hself
    rcases hself with hkind | ⟨hkind, x, hx⟩
    · exact Or.inl hkind
    · exact Or.inr ⟨hkind, by rw [Option.some.inj hx, List.head?_cons]⟩
  rw [hgrow more ?_]
  · cases b with
    | nil => exact absurd rfl hb
    | cons c cs =>
      rw [tokensOf_append_of_frontOf (frontOf_append_of_closed hends), ← hlast]
      exact (List.prefix_append_right_inj front).2 ⟨_, List.singleton_append⟩
  · rintro t - - rfl
    exact absurd hends (by decide)

/-- **All tokens but the last stay when a text grows**, with one exception: where a newline rejoins
the last two tokens, a blank and a backslash, all tokens but these two stay, and the next is a
longer blank.  A last token that ends by itself stays as well. -/
theorem tokenize_append {source more : String} {front : List Token} {last : Token}
    (h : tokenize source = front ++ [last, endToken source.toList]) :
    ((∃ init blank, front = init ++ [blank] ∧ Rejoins source.toList blank last more.toList ∧
        ∃ joined rest, tokenize (source ++ more) = init ++ joined :: rest ∧
          joined.kind = .whitespace ∧ joined.start = blank.start ∧
          Position.after (source.toList ++ ['\n']) ≤ joined.stop) ∨
      (∀ init blank, front = init ++ [blank] → ¬ Rejoins source.toList blank last more.toList) ∧
        front <+: tokenize (source ++ more)) ∧
    (last.EndsItself source.toList → front ++ [last] <+: tokenize (source ++ more)) := by
  rw [tokenize_eq] at h ⊢
  rw [String.toList_append]
  refine ⟨?_, isPrefix_of_endsItself h⟩
  by_cases hjoin : ∃ init blank, front = init ++ [blank] ∧
      Rejoins source.toList blank last more.toList
  · obtain ⟨init, blank, rfl, hrejoins⟩ := hjoin
    rw [List.append_assoc] at h
    exact Or.inl ⟨init, blank, rfl, hrejoins, exists_joined h hrejoins⟩
  · have hnever : ∀ init blank, front = init ++ [blank] →
        ¬ Rejoins source.toList blank last more.toList :=
      fun init blank hfront hrejoins => hjoin ⟨init, blank, hfront, hrejoins⟩
    exact Or.inr ⟨hnever, isPrefix_of_not_rejoins h hnever⟩

/-- A word, a blank and a backslash, behind which a newline and a word come: the word stays, and the
blank goes on to the second line. -/
theorem tokenize_append_newline_word :
    tokenize (String.ofList ['x', ' ', '\\'])
        = [tokenAt [] ['x', ' ', '\\'], tokenAt ['x'] [' ', '\\']]
          ++ [tokenAt ['x', ' '] ['\\'], endToken ['x', ' ', '\\']] ∧
      ∃ joined rest, tokenize (String.ofList ['x', ' ', '\\'] ++ String.ofList ['\n', 'y'])
          = [tokenAt [] ['x', ' ', '\\']] ++ joined :: rest ∧
        joined.kind = .whitespace ∧ joined.start = ⟨1, 2⟩ ∧ ⟨2, 1⟩ ≤ joined.stop := by
  have h : tokenize (String.ofList ['x', ' ', '\\'])
      = [tokenAt [] ['x', ' ', '\\'], tokenAt ['x'] [' ', '\\']]
        ++ [tokenAt ['x', ' '] ['\\'], endToken (String.ofList ['x', ' ', '\\']).toList] := by
    rw [tokenize_eq, String.toList_ofList]
    cbv
  have hgrown := (@tokenize_append _ (String.ofList ['\n', 'y']) _ _ h).1
  rw [String.toList_ofList] at h hgrown
  refine ⟨h, ?_⟩
  rcases hgrown with ⟨init, blank, hfront, -, joined, rest, htokens, hkind, hstart, hstop⟩ | hstays
  · have hsplit : [tokenAt [] ['x', ' ', '\\']] ++ [tokenAt ['x'] [' ', '\\']] = init ++ [blank] :=
      hfront
    obtain ⟨rfl, hblank⟩ := List.append_inj' hsplit rfl
    obtain rfl := List.singleton_inj.1 hblank
    exact ⟨joined, rest, htokens, hkind, hstart, hstop⟩
  · exact absurd ⟨rfl, rfl, rfl, by rw [String.toList_ofList]; rfl⟩ (hstays.1 [_] _ rfl)

end ConfigScript
