import ConfigScript.Proofs.Lexis.Lossless
import ConfigScript.Proofs.Lexis.Printing

/-!
# Proofs/Lexis/Cutting — a text cut where a token starts

Where a token starts a text may be cut in two, and each part has the tokens it had in the whole: the
first part those before the cut and an end token, the second part those behind it, moved to where
the second part starts.  The main statement is `tokenize_cut`.

It rests on `lexes_cut`, which says that a token needs nothing of the text behind its lexeme: the
characters a lexer looks at there could only have made the lexeme longer.  So every place where a
token starts is a **seam** (`exists_seam_of_mem`).  That positions move along is `tokensOf_append`.
-/

namespace ConfigScript

open Grammar

/-! ## The first token of a text that is cut -/

namespace Grammar

section Cut

variable {x v text kept : List Char}

/-- A longest front part stays the longest where the text is cut behind it. -/
theorem Longest.cut {L : List Char → Prop} (h : Longest L x text) (hx : x <+: kept)
    (hkept : kept <+: text) : Longest L x kept where
  front := hx
  mem := h.mem
  longest y hy := h.longest y (hy.trans hkept)

/-- **The first token stays** where the text is cut behind its lexeme. -/
theorem lexes_cut {kind : Kind} (h : Lexes text kind x v) (hx : x <+: kept)
    (hkept : kept <+: text) : Lexes kept kind x v := by
  have hadmits := admits_of_lexes h
  cases text with
  | nil =>
    obtain rfl := List.prefix_nil.1 hkept
    exact h
  | cons c cs =>
    obtain ⟨u, rfl⟩ := exists_lexeme_of_lexes h
    obtain ⟨ds, rfl⟩ : ∃ ds, kept = c :: ds := by
      obtain ⟨rest, rfl⟩ := hx
      exact ⟨u ++ rest, rfl⟩
    have hu : u <+: ds := (List.cons_prefix_cons.1 hx).2
    have hds : ds <+: cs := (List.cons_prefix_cons.1 hkept).2
    cases h with
    | terminator => exact .terminator
    | whitespace hs hn hlongest hv => exact .whitespace hs hn (hlongest.cut hx hkept) hv
    | comment hlongest => exact .comment (hlongest.cut hx hkept)
    | shellCommand hc hlongest => exact .shellCommand hc (hlongest.cut hx hkept)
    | option hlongest =>
      -- the second dash belongs to the lexeme, so the cut leaves it in place
      obtain ⟨w, rfl⟩ := List.head?_eq_some_iff.1 hadmits.1
      obtain ⟨rest, rfl⟩ := hu
      exact .option (hlongest.cut hx hkept)
    | literal hunits => exact .literal hunits hu
    | openLiteral hopen =>
      obtain rfl : ds = cs := hds.eq_of_length_le hu.length_le
      exact .openLiteral hopen
    | word hs hc hd hlongest =>
      refine .word hs hc (fun hdash hhead => hd hdash ?_) (hlongest.cut hx hkept)
      obtain ⟨es, rfl⟩ := List.head?_eq_some_iff.1 hhead
      obtain ⟨more, rfl⟩ := hds
      rfl

end Cut

end Grammar

/-- **The front of a text stays** where the text is cut behind its lexeme. -/
theorem frontOf_cut {text rest : List Char} (h : rest <+: restAt text) :
    frontOf (lexemeAt text ++ rest) = frontOf text := by
  have hkept : lexemeAt text ++ rest <+: text := by
    have hprefix := (List.prefix_append_right_inj (lexemeAt text)).2 h
    rwa [lexemeAt_append_restAt] at hprefix
  exact frontOf_eq_of_lexes (lexes_cut (lexes_frontOf text) ⟨rest, rfl⟩ hkept)

/-- The tokens of a text that is cut behind its first lexeme. -/
theorem tokensOf_cut {c : Char} {cs rest : List Char} (h : rest <+: restAt (c :: cs))
    (passed : List Char) : tokensOf passed (lexemeAt (c :: cs) ++ rest)
      = tokenAt passed (c :: cs) :: tokensOf (passed ++ lexemeAt (c :: cs)) rest := by
  have hfront := frontOf_cut h
  have hlexeme : lexemeAt (lexemeAt (c :: cs) ++ rest) = lexemeAt (c :: cs) :=
    congrArg Front.lexeme hfront
  have hrest := restAt_of_lexemeAt hlexeme
  have htoken : tokenAt passed (lexemeAt (c :: cs) ++ rest) = tokenAt passed (c :: cs) := by
    rw [tokenAt, hfront, hlexeme, tokenAt]
  cases htext : lexemeAt (c :: cs) ++ rest with
  | nil => exact absurd (List.append_eq_nil_iff.1 htext).1 (lexemeAt_ne_nil c cs)
  | cons d ds =>
    rw [htext] at hlexeme hrest htoken
    rw [tokensOf, hlexeme, hrest, htoken]

/-! ## Seams -/

/-- **A seam of a text** behind its part `a`: the tokens of the text are those of `a`, save the end
token, and then those of what stands behind it. -/
structure Seam (passed a b : List Char) (front : List Token) : Prop where
  before : tokensOf passed a = front ++ [endToken (passed ++ a)]
  whole : tokensOf passed (a ++ b) = front ++ tokensOf (passed ++ a) b

/-- At the start of a text there is a seam. -/
theorem seam_nil (passed b : List Char) : Seam passed [] b [] where
  before := by rw [tokensOf, tokenAt_nil, List.append_nil, List.nil_append]
  whole := by rw [List.append_nil, List.nil_append, List.nil_append]

/-- **Every token starts at a seam.** -/
theorem exists_seam_of_mem {t : Token} {passed coming : List Char}
    (h : t ∈ tokensOf passed coming) :
    ∃ a b front, coming = a ++ b ∧ t = tokenAt (passed ++ a) b ∧ Seam passed a b front := by
  fun_induction tokensOf passed coming with
  | case1 passed =>
    refine ⟨[], [], [], rfl, ?_, seam_nil passed []⟩
    rw [List.append_nil]
    exact List.mem_singleton.1 h
  | case2 passed c cs ih =>
    rcases List.mem_cons.1 h with rfl | h
    · exact ⟨[], c :: cs, [], rfl, by rw [List.append_nil], seam_nil passed (c :: cs)⟩
    · obtain ⟨a, b, front, hrest, ht, hseam⟩ := ih h
      have htext := lexemeAt_append_restAt (c :: cs)
      have ha : a <+: restAt (c :: cs) := ⟨b, hrest.symm⟩
      have hwhole := tokensOf_cut (List.prefix_refl (restAt (c :: cs))) passed
      refine ⟨lexemeAt (c :: cs) ++ a, b, tokenAt passed (c :: cs) :: front, ?_, ?_, ?_, ?_⟩
      · rw [List.append_assoc, ← hrest, htext]
      · rw [ht, List.append_assoc]
      · rw [tokensOf_cut ha, hseam.before, List.append_assoc, List.cons_append]
      · rw [List.append_assoc, ← hrest, hwhole, hrest, hseam.whole, List.append_assoc,
          List.cons_append]

section Order

variable {t : Token} {passed coming a b : List Char} {front : List Token}

/-- A token does not start before the text it belongs to. -/
theorem le_start_of_mem_tokensOf (h : t ∈ tokensOf passed coming) :
    Position.after passed ≤ t.start := by
  obtain ⟨a, b, front, -, rfl, -⟩ := exists_seam_of_mem h
  exact Position.after_le_after_append passed a

/-- A token does not stop behind the text it belongs to. -/
theorem stop_le_of_mem_tokensOf (h : t ∈ tokensOf passed coming) :
    t.stop ≤ Position.after (passed ++ coming) := by
  obtain ⟨a, b, htext, rfl⟩ := exists_of_mem_tokensOf h
  have hle := Position.after_le_after_append (a ++ lexemeAt b) (restAt b)
  rw [List.append_assoc, lexemeAt_append_restAt, ← htext] at hle
  exact hle

/-- **Every token but the end token stops behind its start.** -/
theorem start_lt_stop_of_mem_tokensOf (h : t ∈ tokensOf passed coming) (ht : t.isEof = false) :
    t.start < t.stop := by
  obtain ⟨a, b, -, rfl⟩ := exists_of_mem_tokensOf h
  cases b with
  | nil => exact absurd ht (by rw [isEof_tokenAt]; decide)
  | cons c cs => exact Position.after_lt_after_append a (lexemeAt_ne_nil c cs)

/-- The tokens before a seam are no end tokens. -/
theorem Seam.isEof_of_mem (h : Seam passed a b front) (ht : t ∈ front) : t.isEof = false := by
  obtain ⟨init, hinit, hne⟩ := exists_tokensOf_eq_concat passed a
  obtain rfl : init = front := List.append_cancel_right (hinit.symm.trans h.before)
  exact hne t ht

theorem Seam.mem_tokensOf (h : Seam passed a b front) (ht : t ∈ front) : t ∈ tokensOf passed a := by
  rw [h.before]
  exact List.mem_append_left _ ht

/-- **The tokens before a seam stop at it or before it, those behind it do not.** -/
theorem Seam.filter_stop (h : Seam passed a b front) :
    (tokensOf passed (a ++ b)).filter
      (fun t => !t.isEof && decide (t.stop ≤ .after (passed ++ a))) = front := by
  have hfront : ∀ t ∈ front, (!t.isEof && decide (t.stop ≤ .after (passed ++ a))) = true := by
    intro t ht
    rw [h.isEof_of_mem ht, decide_eq_true (stop_le_of_mem_tokensOf (h.mem_tokensOf ht))]
    rfl
  have hback : ∀ t ∈ tokensOf (passed ++ a) b,
      ¬ (!t.isEof && decide (t.stop ≤ .after (passed ++ a))) = true := by
    intro t ht hstop
    rw [Bool.and_eq_true, Bool.not_eq_true', decide_eq_true_eq] at hstop
    have hlt := start_lt_stop_of_mem_tokensOf ht hstop.1
    exact Position.not_le_of_lt (Position.lt_of_le_of_lt (le_start_of_mem_tokensOf ht) hlt) hstop.2
  rw [h.whole, List.filter_append, List.filter_eq_self.2 hfront, List.filter_eq_nil_iff.2 hback,
    List.append_nil]

/-- **The tokens behind a seam start at it or behind it, those before it do not.** -/
theorem Seam.filter_start (h : Seam passed a b front) :
    (tokensOf passed (a ++ b)).filter (fun t => decide (.after (passed ++ a) ≤ t.start))
      = tokensOf (passed ++ a) b := by
  have hfront : ∀ t ∈ front, ¬ decide (.after (passed ++ a) ≤ t.start) = true := by
    intro t ht hle
    have hmem := h.mem_tokensOf ht
    have hlt := start_lt_stop_of_mem_tokensOf hmem (h.isEof_of_mem ht)
    have hlt := Position.lt_of_lt_of_le hlt (stop_le_of_mem_tokensOf hmem)
    exact Position.not_le_of_lt hlt (of_decide_eq_true hle)
  have hback : ∀ t ∈ tokensOf (passed ++ a) b,
      decide (Position.after (passed ++ a) ≤ t.start) = true :=
    fun t ht => decide_eq_true (le_start_of_mem_tokensOf ht)
  rw [h.whole, List.filter_append, List.filter_eq_nil_iff.2 hfront, List.filter_eq_self.2 hback,
    List.nil_append]

end Order

/-! ## Tokens of a text behind another -/

/-- **A token of a text that itself starts at `p`**, the position in its report included. -/
def Token.shift (p : Position) (t : Token) : Token :=
  { t with
    start := p.shift t.start
    stop := p.shift t.stop
    error := t.error.map fun e => { e with position := p.shift e.position } }

theorem tokenAt_append (a passed coming : List Char) :
    tokenAt (a ++ passed) coming = (tokenAt passed coming).shift (.after a) := by
  have hstop : Position.after (a ++ passed ++ lexemeAt coming)
      = (Position.after a).shift (.after (passed ++ lexemeAt coming)) := by
    rw [List.append_assoc, Position.after_append_eq_shift]
  rw [tokenAt, hstop, Position.after_append_eq_shift, tokenAt, Front.token, Front.token,
    Token.shift]
  split <;> rfl

/-- **The tokens of a text move with the text** when it stands behind another. -/
theorem tokensOf_append (a passed coming : List Char) :
    tokensOf (a ++ passed) coming = (tokensOf passed coming).map (Token.shift (.after a)) := by
  fun_induction tokensOf passed coming with
  | case1 passed => rw [tokensOf, tokenAt_append, List.map_singleton]
  | case2 passed c cs ih =>
    rw [← List.append_assoc] at ih
    rw [tokensOf, tokenAt_append, ih, List.map_cons]

/-- **A text may be cut where a token starts.**  The part before the cut has the tokens that stop
there or before, and an end token; the part behind it has the tokens that start there or behind, at
positions counted from its own start. -/
theorem tokenize_cut (source : String) (p : Nat)
    (h : ∃ t ∈ tokenize source, Position.offset? source.toList t.start = some p) :
    tokenize (String.ofList (source.toList.take p))
        = (tokenize source).filter
            (fun t => !t.isEof && decide (t.stop ≤ .after (source.toList.take p)))
          ++ [endToken (source.toList.take p)] ∧
      (tokenize source).filter (fun t => decide (.after (source.toList.take p) ≤ t.start))
        = (tokenize (String.ofList (source.toList.drop p))).map
            (Token.shift (.after (source.toList.take p))) := by
  obtain ⟨t, ht, hp⟩ := h
  rw [tokenize_eq] at ht
  obtain ⟨a, b, front, htext, rfl, hseam⟩ := exists_seam_of_mem ht
  obtain rfl : p = a.length := by
    have ha := Position.offset?_after a b
    rw [← htext] at ha
    exact Option.some.inj (hp.symm.trans ha)
  have hfilter := hseam.filter_stop
  have hfilter' := hseam.filter_start
  have hshift := tokensOf_append a [] b
  rw [List.nil_append] at hfilter hfilter'
  rw [List.append_nil] at hshift
  rw [tokenize_eq, tokenize_eq, tokenize_eq, String.toList_ofList, String.toList_ofList, htext,
    List.take_left, List.drop_left, hfilter, hfilter', hseam.before, hshift]
  exact ⟨rfl, rfl⟩

/-- The text of a word, a newline, a blank that joins two lines, and a literal that is never closed,
cut before its first newline: of the part behind the cut the first line moves by a column and all
other lines stay. -/
theorem tokenize_cut_before_newline :
    (∃ t ∈ tokenize (String.ofList ['a', '\n', ' ', '\\', '\n', '"', 'b']),
      Position.offset? ['a', '\n', ' ', '\\', '\n', '"', 'b'] t.start = some 1) ∧
    tokenize (String.ofList ['a'])
        = (tokenize (String.ofList ['a', '\n', ' ', '\\', '\n', '"', 'b'])).filter
            (fun t => !t.isEof && decide (t.stop ≤ ⟨1, 2⟩))
          ++ [endToken ['a']] ∧
      (tokenize (String.ofList ['a', '\n', ' ', '\\', '\n', '"', 'b'])).filter
          (fun t => decide (⟨1, 2⟩ ≤ t.start))
        = (tokenize (String.ofList ['\n', ' ', '\\', '\n', '"', 'b'])).map
            (Token.shift ⟨1, 2⟩) := by
  have h : ∃ t ∈ tokenize (String.ofList ['a', '\n', ' ', '\\', '\n', '"', 'b']),
      Position.offset? ['a', '\n', ' ', '\\', '\n', '"', 'b'] t.start = some 1 := by
    refine ⟨tokenAt ['a'] ['\n', ' ', '\\', '\n', '"', 'b'], ?_, Position.offset?_after ['a'] _⟩
    rw [tokenize_eq, String.toList_ofList, tokensOf]
    refine List.mem_cons_of_mem _ ?_
    have hfirst : lexemeAt ['a', '\n', ' ', '\\', '\n', '"', 'b'] = ['a'] := by decide
    rw [restAt, hfirst]
    exact List.mem_of_mem_head? (by rw [tokensOf.eq_def]; rfl)
  have hcut := tokenize_cut (String.ofList ['a', '\n', ' ', '\\', '\n', '"', 'b']) 1
    (by rwa [String.toList_ofList])
  rw [String.toList_ofList] at hcut
  exact ⟨h, hcut⟩

end ConfigScript
