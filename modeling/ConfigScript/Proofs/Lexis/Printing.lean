import ConfigScript.Proofs.Lexis.Grammar
import ConfigScript.Proofs.Lexis.Lossless

/-!
# Proofs/Lexis/Printing — the texts behind a sequence of kinds and values

Which sequences of kinds and values do texts have, and how is a text made from such a sequence?  A
sequence is **legible** if each value fits its kind, each kind may precede the next, and the end
comes last.  The main statement is `contents_eq_iff_legible`: the sequences of texts are the legible
ones, and printing a legible sequence gives a text that has it.

Both directions turn on one character, the first of the next token.  Maximal munch says where it may
stand (`endsBefore_of_lexes`), its kind says what it is (`opensWith_of_lexes`), and
`endsBefore_iff_precedes` that the two together come to an order of kinds.
-/

namespace ConfigScript

open Grammar

/-! ## Kinds, values and neighbours -/

namespace Kind

/-- **The values that a kind admits.** -/
def Admits (kind : Kind) (v : List Char) : Prop :=
  match kind with
  | eof => v = []
  | terminator => v = ['\n']
  | whitespace => v ≠ [] ∧ ∀ c ∈ v, isSpace c = true ∧ c ≠ '\n'
  | comment => v.head? = some '#' ∧ '\n' ∉ v
  | shellCommand => (v.head? = some '!' ∨ v.head? = some '@') ∧ '\n' ∉ v
  | option => v.head? = some '-' ∧ ∀ c ∈ v, isSpace c = false
  | invalid => ∃ cs, v = '"' :: cs ∧ ∀ u w, Units u w → ¬ u ++ ['"'] <+: cs
  | word => True

/-- **The kinds that may follow a kind.** -/
def Precedes (kind next : Kind) : Prop :=
  match kind with
  | whitespace => next ≠ whitespace
  | comment | shellCommand => next = terminator ∨ next = eof
  | option => next = whitespace ∨ next = terminator ∨ next = eof
  | invalid => next = eof
  | terminator | word | eof => True

/-- What the first character of a token says of its kind. -/
def OpensWith (kind : Kind) (c : Char) : Prop :=
  match kind with
  | terminator => c = '\n'
  | whitespace => isSpace c = true ∧ c ≠ '\n'
  | eof => False
  | comment | shellCommand | option | invalid | word => isSpace c = false

/-- What the character behind a token of a kind has to be. -/
def EndsBefore (kind : Kind) (c : Char) : Prop :=
  match kind with
  | whitespace => isSpace c = true → c = '\n'
  | comment | shellCommand => c = '\n'
  | option => isSpace c = true
  | invalid => False
  | terminator | word | eof => True

section Neighbours

variable {kind next : Kind} {c : Char}

theorem OpensWith.ne_eof (h : next.OpensWith c) : next ≠ eof := by
  rintro rfl
  exact h

theorem OpensWith.eq_newline_iff (h : next.OpensWith c) : c = '\n' ↔ next = terminator := by
  cases next with
  | terminator => exact ⟨fun _ => rfl, fun _ => h⟩
  | whitespace => exact ⟨fun hn => absurd hn h.2, fun he => absurd he (by decide)⟩
  | eof => exact absurd h id
  | _ =>
    refine ⟨?_, fun he => absurd he (by decide)⟩
    rintro rfl
    have hs : isSpace '\n' = false := h
    exact absurd hs (by decide)

theorem OpensWith.isSpace_iff (h : next.OpensWith c) :
    isSpace c = true ↔ next = whitespace ∨ next = terminator := by
  cases next with
  | terminator =>
    obtain rfl : c = '\n' := h
    exact ⟨fun _ => Or.inr rfl, fun _ => rfl⟩
  | whitespace => exact ⟨fun _ => Or.inl rfl, fun _ => h.1⟩
  | eof => exact absurd h id
  | _ =>
    have hs : isSpace c = false := h
    rw [hs]
    decide

/-- **A token may stand before the first character of another** if its kind may precede the other's
kind. -/
theorem endsBefore_iff_precedes (h : next.OpensWith c) :
    kind.EndsBefore c ↔ kind.Precedes next := by
  cases kind with
  | whitespace =>
    rw [EndsBefore, Precedes, h.isSpace_iff, h.eq_newline_iff]
    constructor
    · rintro himp rfl
      exact absurd (himp (Or.inl rfl)) (by decide)
    · exact fun hne hor => hor.resolve_left hne
  | comment | shellCommand =>
    rw [EndsBefore, Precedes, h.eq_newline_iff]
    exact (or_iff_left h.ne_eof).symm
  | option =>
    rw [EndsBefore, Precedes, h.isSpace_iff, ← or_assoc]
    exact (or_iff_left h.ne_eof).symm
  | invalid => exact ⟨False.elim, fun he => h.ne_eof he⟩
  | terminator | word | eof => exact Iff.rfl

theorem precedes_eof (kind : Kind) : kind.Precedes eof := by
  cases kind <;> simp [Precedes]

end Neighbours

end Kind

/-! ## What the grammar says of kinds, values and neighbours -/

namespace Grammar

section Lexes

variable {c : Char} {cs text x v : List Char} {kind : Kind}

/-- A lexeme starts with the first character of the text. -/
theorem exists_lexeme_of_lexes (h : Lexes (c :: cs) kind x v) : ∃ u, x = c :: u := by
  obtain ⟨u, hu, -⟩ := Reach.exists_chars_first c cs
  have hx : lexemeAt (c :: cs) = x := by rw [lexemeAt, frontOf_eq_of_lexes h]
  exact ⟨u, by rw [← hx, lexemeAt_cons, hu]⟩

/-- **The value of a token fits its kind.** -/
theorem admits_of_lexes : ∀ {text : List Char}, Lexes text kind x v → kind.Admits v
  | [], h => by
    cases h
    rfl
  | c :: cs, h => by
    obtain ⟨u, rfl⟩ := exists_lexeme_of_lexes h
    cases h with
    | terminator => rfl
    | whitespace hs hn hx hv =>
      have hblank := forall_of_blanks hv
      refine ⟨?_, hblank⟩
      cases hv with
      | space => exact List.cons_ne_nil _ _
      | join => exact absurd hs (by decide)
    | comment hx => exact ⟨rfl, hx.mem⟩
    | shellCommand hc hx => exact ⟨hc.imp (congrArg some) (congrArg some), hx.mem⟩
    | option hx =>
      have hdashes : ∀ d ∈ ['-', '-'], isSpace d = false :=
        List.forall_mem_cons.2 ⟨rfl, List.forall_mem_cons.2 ⟨rfl, List.forall_mem_nil _⟩⟩
      have hle := hx.longest ['-', '-'] ⟨_, rfl⟩ hdashes
      obtain ⟨-, hfront⟩ := List.cons_prefix_cons.1 hx.front
      cases u with
      | nil => exact absurd hle (by decide)
      | cons d u =>
        obtain ⟨rfl, -⟩ := List.cons_prefix_cons.1 hfront
        exact ⟨rfl, fun d hd => hx.mem d (List.mem_cons_of_mem _ hd)⟩
    | literal => trivial
    | openLiteral hopen => exact ⟨cs, rfl, hopen⟩
    | word => trivial

/-- **The first character of a token agrees with its kind.** -/
theorem opensWith_of_lexes (h : Lexes (c :: cs) kind x v) : kind.OpensWith c := by
  cases h with
  | terminator => rfl
  | whitespace hs hn => exact ⟨hs, hn⟩
  | shellCommand hc => rcases hc with rfl | rfl <;> rfl
  | word hs => exact hs
  | _ => rfl

/-- **The character behind a token is one that its kind ends before**: a longest front part cannot
be continued. -/
theorem endsBefore_of_lexes (h : Lexes text kind x v)
    (hc : (text.drop x.length).head? = some c) : kind.EndsBefore c := by
  cases h with
  | eof | terminator | literal | word => trivial
  | whitespace hs hn hx hv =>
    intro hspace
    by_contra hne
    obtain ⟨d, y, w, rfl, hd, hd', hy⟩ := hx.mem
    exact hx.not_mem_concat hc ⟨d, y ++ [c], w ++ [c], rfl, hd, hd', hy.concat hspace hne⟩
  | comment hx | shellCommand _ hx =>
    by_contra hne
    refine hx.not_mem_concat hc fun hmem => ?_
    rcases List.mem_append.1 hmem with hmem | hmem
    · exact hx.mem hmem
    · exact hne (List.mem_singleton.1 hmem).symm
  | option hx =>
    by_contra hne
    rw [Kind.EndsBefore, Bool.not_eq_true] at hne
    refine hx.not_mem_concat hc (List.forall_mem_append.2 ⟨hx.mem, ?_⟩)
    exact List.forall_mem_singleton.2 hne
  | openLiteral => exact absurd hc (by simp)

end Lexes

end Grammar

/-! ## Printing -/

/-- What stands for a character between the quotes of a literal. -/
def Literal.escape (c : Char) : List Char := if c = '\\' ∨ c = '"' then ['\\', c] else [c]

/-- **Prints a token**: a word as a literal, an option with its second dash, any other token as its
value. -/
def Kind.print (kind : Kind) (v : List Char) : List Char :=
  match kind with
  | word => '"' :: (v.flatMap Literal.escape ++ ['"'])
  | option => '-' :: v
  | terminator | whitespace | comment | shellCommand | invalid | eof => v

/-- **Prints a sequence of kinds and values.** -/
def printAll (ps : List (Kind × String)) : List Char :=
  ps.flatMap fun p => p.1.print p.2.toList

/-- **Escaped characters are units** that stand for them. -/
theorem units_flatMap_escape (v : List Char) : Units (v.flatMap Literal.escape) v := by
  induction v with
  | nil => exact .nil
  | cons c v ih =>
    rw [List.flatMap_cons, Literal.escape]
    by_cases hc : c = '\\' ∨ c = '"'
    · have hself : Escape c c := by
        rcases hc with rfl | rfl <;> exact .self (by decide) (by decide)
      rw [if_pos hc]
      exact .pair hself ih
    · rw [if_neg hc]
      exact .plain (fun he => hc (Or.inl he)) (fun he => hc (Or.inr he)) ih

section Print

variable {kind : Kind} {v rest : List Char}

/-- A printed token starts with a character of its kind, and with no backslash. -/
theorem exists_print_eq_cons (hkind : kind ≠ .eof) (hv : kind.Admits v) :
    ∃ c cs, kind.print v = c :: cs ∧ kind.OpensWith c ∧ c ≠ '\\' := by
  cases kind with
  | eof => exact absurd rfl hkind
  | terminator => exact ⟨'\n', [], hv, rfl, by decide⟩
  | whitespace =>
    obtain ⟨hne, hblank⟩ := hv
    obtain ⟨c, cs, rfl⟩ := List.exists_cons_of_ne_nil hne
    have hc := hblank c List.mem_cons_self
    exact ⟨c, cs, rfl, hc, ne_backslash_of_isSpace hc.1⟩
  | comment =>
    obtain ⟨cs, rfl⟩ := List.head?_eq_some_iff.1 hv.1
    exact ⟨'#', cs, rfl, rfl, by decide⟩
  | shellCommand =>
    obtain ⟨hhead | hhead, -⟩ := hv
    all_goals
      obtain ⟨cs, rfl⟩ := List.head?_eq_some_iff.1 hhead
      exact ⟨_, cs, rfl, rfl, by decide⟩
  | option => exact ⟨'-', v, rfl, rfl, by decide⟩
  | invalid =>
    obtain ⟨cs, rfl, -⟩ := hv
    exact ⟨'"', cs, rfl, rfl, by decide⟩
  | word => exact ⟨'"', _, rfl, rfl, by decide⟩

/-- **The grammar allows a printed token** where a character stands behind it that ends it, and no
backslash. -/
theorem lexes_print (hkind : kind ≠ .eof) (hv : kind.Admits v)
    (hrest : ∀ c, rest.head? = some c → kind.EndsBefore c ∧ c ≠ '\\') :
    Lexes (kind.print v ++ rest) kind (kind.print v) v := by
  cases kind with
  | eof => exact absurd rfl hkind
  | terminator =>
    obtain rfl : v = ['\n'] := hv
    exact .terminator
  | whitespace =>
    obtain ⟨hne, hblank⟩ := hv
    obtain ⟨c, cs, rfl⟩ := List.exists_cons_of_ne_nil hne
    obtain ⟨⟨hs, hn⟩, hcs⟩ := List.forall_mem_cons.1 hblank
    have hlongest := longest_blank hs hn (cs ++ rest)
    rw [Reach.chars_blank_append hcs hrest] at hlongest
    exact .whitespace hs hn hlongest (blanks_of_forall hblank)
  | comment =>
    obtain ⟨hhead, hline⟩ := hv
    obtain ⟨cs, rfl⟩ := List.head?_eq_some_iff.1 hhead
    exact .comment (longest_line_append hline fun c hc => (hrest c hc).1)
  | shellCommand =>
    obtain ⟨hhead, hline⟩ := hv
    have hlongest : Longest ('\n' ∉ ·) v (v ++ rest) :=
      longest_line_append hline fun c hc => (hrest c hc).1
    rcases hhead with hhead | hhead
    · obtain ⟨cs, rfl⟩ := List.head?_eq_some_iff.1 hhead
      exact .shellCommand (Or.inl rfl) hlongest
    · obtain ⟨cs, rfl⟩ := List.head?_eq_some_iff.1 hhead
      exact .shellCommand (Or.inr rfl) hlongest
  | option =>
    obtain ⟨hhead, hdense⟩ := hv
    obtain ⟨cs, rfl⟩ := List.head?_eq_some_iff.1 hhead
    have hdense' : ∀ d ∈ '-' :: '-' :: cs, isSpace d = false :=
      List.forall_mem_cons.2 ⟨rfl, hdense⟩
    exact .option (longest_dense_append hdense' fun c hc => (hrest c hc).1)
  | invalid =>
    obtain ⟨cs, rfl, hopen⟩ := hv
    have hempty : rest = [] := by
      cases rest with
      | nil => rfl
      | cons c cs => exact (hrest c rfl).1.elim
    subst hempty
    rw [List.append_nil]
    exact .openLiteral hopen
  | word =>
    refine .literal (units_flatMap_escape v) ⟨rest, ?_⟩
    rw [List.append_eq]

end Print

/-! ## Sequences of kinds and values -/

/-- What a token says, wherever it stands. -/
def Token.content (t : Token) : Kind × String := (t.kind, t.value)

/-- **The sequences of kinds and values that texts have.** -/
structure Legible (ps : List (Kind × String)) : Prop where
  values : ∀ p ∈ ps, p.1.Admits p.2.toList
  neighbours : ps.IsChain fun p q => p.1.Precedes q.1
  ends : ∃ init, ps = init ++ [(.eof, "")] ∧ ∀ p ∈ init, p.1 ≠ .eof

section Legible

variable {p q : Kind × String} {ps : List (Kind × String)}

theorem not_legible_nil : ¬ Legible [] := by
  rintro ⟨-, -, init, h, -⟩
  exact absurd h (by simp)

theorem legible_singleton : Legible [p] ↔ p = (.eof, "") := by
  constructor
  · rintro ⟨-, -, init, h, -⟩
    cases init with
    | nil => exact (List.cons.inj h).1
    | cons => exact absurd h (by simp)
  · rintro rfl
    exact ⟨by simp [Kind.Admits], .singleton _, [], rfl, List.forall_mem_nil _⟩

/-- **A longer sequence is legible** if its first token fits and the rest is legible. -/
theorem legible_cons_cons : Legible (p :: q :: ps) ↔
    p.1 ≠ .eof ∧ p.1.Admits p.2.toList ∧ p.1.Precedes q.1 ∧ Legible (q :: ps) := by
  constructor
  · rintro ⟨hvalues, hneighbours, init, hinit, hne⟩
    obtain ⟨hp, hvalues⟩ := List.forall_mem_cons.1 hvalues
    obtain ⟨hpq, hneighbours⟩ := List.isChain_cons_cons.1 hneighbours
    cases init with
    | nil => exact absurd hinit (by simp)
    | cons p' init =>
      obtain ⟨rfl, htail⟩ := List.cons.inj hinit
      obtain ⟨hp', hne⟩ := List.forall_mem_cons.1 hne
      exact ⟨hp', hp, hpq, hvalues, hneighbours, init, htail, hne⟩
  · rintro ⟨hp', hp, hpq, hvalues, hneighbours, init, hinit, hne⟩
    exact ⟨List.forall_mem_cons.2 ⟨hp, hvalues⟩, List.isChain_cons_cons.2 ⟨hpq, hneighbours⟩,
      p :: init, by rw [hinit, List.cons_append], List.forall_mem_cons.2 ⟨hp', hne⟩⟩

end Legible

theorem content_tokenAt (passed coming : List Char) : (tokenAt passed coming).content
    = ((frontOf coming).kind, String.ofList (frontOf coming).value) := rfl

/-- **The kind of a token may precede the kind of the next.** -/
theorem precedes_frontOf (text : List Char) :
    (frontOf text).kind.Precedes (frontOf (restAt text)).kind := by
  cases hrest : restAt text with
  | nil => exact Kind.precedes_eof _
  | cons c cs =>
    have hopens := opensWith_of_lexes (lexes_frontOf (c :: cs))
    have hhead : (text.drop (frontOf text).lexeme.length).head? = some c := by
      rw [← lexemeAt, ← restAt, hrest, List.head?_cons]
    exact (Kind.endsBefore_iff_precedes hopens).1 (endsBefore_of_lexes (lexes_frontOf text) hhead)

/-- **The tokens of a text make a legible sequence.** -/
theorem legible_tokensOf (passed coming : List Char) :
    Legible ((tokensOf passed coming).map Token.content) := by
  fun_induction tokensOf passed coming with
  | case1 passed => exact legible_singleton.2 rfl
  | case2 passed c cs ih =>
    obtain ⟨ts, hts⟩ := exists_tokensOf_eq_cons (passed ++ lexemeAt (c :: cs)) (restAt (c :: cs))
    rw [hts] at ih ⊢
    refine legible_cons_cons.2 ⟨Form.kind_front_ne_eof _ _, ?_, precedes_frontOf (c :: cs), ih⟩
    rw [content_tokenAt, String.toList_ofList]
    exact admits_of_lexes (lexes_frontOf (c :: cs))

/-- What the grammar allows at the front of a text is the first token of the text. -/
theorem map_content_tokensOf_of_lexes {kind : Kind} {x v rest : List Char} (hkind : kind ≠ .eof)
    (h : Lexes (x ++ rest) kind x v) (passed : List Char) :
    (tokensOf passed (x ++ rest)).map Token.content
      = (kind, String.ofList v) :: (tokensOf (passed ++ x) rest).map Token.content := by
  have hfront := frontOf_eq_of_lexes h
  have hlexeme : lexemeAt (x ++ rest) = x := by rw [lexemeAt, hfront]
  have hrest := restAt_of_lexemeAt hlexeme
  cases htext : x ++ rest with
  | nil =>
    rw [htext] at h
    cases h
    exact absurd rfl hkind
  | cons c cs =>
    rw [htext] at hfront hlexeme hrest
    rw [tokensOf, List.map_cons, content_tokenAt, hfront, hlexeme, hrest]

/-- **The text printed from a legible sequence** has its kinds and values. -/
theorem map_content_tokensOf_printAll : ∀ {ps : List (Kind × String)}, Legible ps →
    ∀ passed, (tokensOf passed (printAll ps)).map Token.content = ps
  | [], h, _ => absurd h not_legible_nil
  | [p], h, passed => by
    obtain rfl := legible_singleton.1 h
    have hprint : printAll [(.eof, "")] = [] := rfl
    rw [hprint, tokensOf]
    rfl
  | p :: q :: ps, h, passed => by
    obtain ⟨hkind, hadmits, hprecedes, hlegible⟩ := legible_cons_cons.1 h
    have hrest : ∀ c, (printAll (q :: ps)).head? = some c → p.1.EndsBefore c ∧ c ≠ '\\' := by
      intro c hc
      cases ps with
      | nil =>
        obtain rfl := legible_singleton.1 hlegible
        exact absurd hc (by simp [printAll, Kind.print])
      | cons r ps =>
        obtain ⟨hq, hq', -, -⟩ := legible_cons_cons.1 hlegible
        obtain ⟨d, ds, hprint, hopens, hd⟩ := exists_print_eq_cons hq hq'
        rw [printAll, List.flatMap_cons, hprint] at hc
        obtain rfl : d = c := Option.some.inj hc
        exact ⟨(Kind.endsBefore_iff_precedes hopens).2 hprecedes, hd⟩
    have hlexes := lexes_print hkind hadmits hrest
    have hprint : printAll (p :: q :: ps) = p.1.print p.2.toList ++ printAll (q :: ps) :=
      List.flatMap_cons
    rw [hprint, map_content_tokensOf_of_lexes hkind hlexes,
      map_content_tokensOf_printAll hlegible, String.ofList_toList]

/-- **Texts have the legible sequences of kinds and values**, and no others; and the text printed
from a sequence has that sequence if and only if it is legible. -/
theorem contents_eq_iff_legible (ps : List (Kind × String)) :
    ((∃ source : String, (tokenize source).map Token.content = ps) ↔ Legible ps) ∧
      ((tokenize (String.ofList (printAll ps))).map Token.content = ps ↔ Legible ps) := by
  have hlegible : ∀ source : String, (tokenize source).map Token.content = ps → Legible ps := by
    rintro source rfl
    rw [tokenize_eq]
    exact legible_tokensOf [] source.toList
  have hprint (h : Legible ps) :
      (tokenize (String.ofList (printAll ps))).map Token.content = ps := by
    rw [tokenize_eq, String.toList_ofList]
    exact map_content_tokensOf_printAll h []
  exact ⟨⟨fun ⟨source, hsource⟩ => hlegible source hsource, fun h => ⟨_, hprint h⟩⟩,
    hlegible _, hprint⟩

end ConfigScript
