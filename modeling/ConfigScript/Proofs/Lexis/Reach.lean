import ConfigScript.Proofs.Lexis.Units
import ConfigScript.Scanner
import Mathlib.Tactic.ByContra

/-!
# Proofs/Lexis/Reach — how far a form reaches into a text

`Lexeme.extend` finds the end of a lexeme by reading; `Reach.ofForm` finds it in a text that is
there, by the same verdicts.  `isPrefix_chars_ofForm` says that what it finds stands at the front of
the text.  The forms that go by a class of characters reach as far as the class does; for blanks and
literals there are equations unit by unit, and an induction along the units.
-/

namespace ConfigScript

/-- **A lexeme found in a text**; `beyond` says whether its end was settled by a look behind the end
of the text. -/
structure Reach extends Lexeme where
  beyond : Bool
deriving DecidableEq

namespace Reach

/-- A reach with one more character in front. -/
def cons (c : Char) (x : Reach) : Reach := { x with chars := c :: x.chars }

@[simp] theorem chars_cons (c : Char) (x : Reach) : (x.cons c).chars = c :: x.chars := rfl

@[simp] theorem ending_cons (c : Char) (x : Reach) : (x.cons c).ending = x.ending := rfl

@[simp] theorem beyond_cons (c : Char) (x : Reach) : (x.cons c).beyond = x.beyond := rfl

/-- **How far a form reaches into a text**, by its verdicts on one character after the other. -/
def ofForm (form : Form) (armed : Bool) : List Char → Reach
  | [] => ⟨⟨[], .exhausted⟩, true⟩
  | c :: cs =>
    match form.judge armed c with
    | .take armed => (ofForm form armed cs).cons c
    | .close => ⟨⟨[c], .closed⟩, false⟩
    | .leave => ⟨⟨[], .boundary⟩, false⟩
    | .join =>
      match cs with
      | [] => ⟨⟨[], .boundary⟩, true⟩
      | d :: ds =>
        if d = '\n' then ((ofForm form false ds).cons d).cons c else ⟨⟨[], .boundary⟩, false⟩

section Verdicts

variable {form : Form} {armed : Bool} {c : Char} {cs : List Char}

theorem ofForm_cons (form : Form) (armed : Bool) (c : Char) (cs : List Char) :
    ofForm form armed (c :: cs) =
      match form.judge armed c with
      | .take armed => (ofForm form armed cs).cons c
      | .close => ⟨⟨[c], .closed⟩, false⟩
      | .leave => ⟨⟨[], .boundary⟩, false⟩
      | .join =>
        match cs with
        | [] => ⟨⟨[], .boundary⟩, true⟩
        | d :: ds =>
          if d = '\n' then ((ofForm form false ds).cons d).cons c
          else ⟨⟨[], .boundary⟩, false⟩ := ofForm.eq_def form armed (c :: cs)

theorem ofForm_take {armed' : Bool} (h : form.judge armed c = .take armed') :
    ofForm form armed (c :: cs) = (ofForm form armed' cs).cons c := by rw [ofForm_cons, h]

theorem ofForm_close (h : form.judge armed c = .close) :
    ofForm form armed (c :: cs) = ⟨⟨[c], .closed⟩, false⟩ := by rw [ofForm_cons, h]

theorem ofForm_leave (h : form.judge armed c = .leave) :
    ofForm form armed (c :: cs) = ⟨⟨[], .boundary⟩, false⟩ := by rw [ofForm_cons, h]

theorem ofForm_join (h : form.judge armed c = .join) :
    ofForm form armed (c :: '\n' :: cs) = ((ofForm form false cs).cons '\n').cons c := by
  rw [ofForm_cons, h]
  exact if_pos rfl

theorem ofForm_no_join {d : Char} (h : form.judge armed c = .join) (hd : d ≠ '\n') :
    ofForm form armed (c :: d :: cs) = ⟨⟨[], .boundary⟩, false⟩ := by
  rw [ofForm_cons, h]
  exact if_neg hd

end Verdicts

/-- **What a form reaches stands at the front of the text.** -/
theorem isPrefix_chars_ofForm (form : Form) (armed : Bool) (cs : List Char) :
    (ofForm form armed cs).chars <+: cs := by
  fun_induction ofForm form armed cs with
  | case1 => exact List.nil_prefix
  | case2 armed c cs armed' hv ih => exact List.cons_prefix_cons.2 ⟨rfl, ih⟩
  | case3 armed c cs hv => exact List.cons_prefix_cons.2 ⟨rfl, List.nil_prefix⟩
  | case4 armed c cs hv => exact List.nil_prefix
  | case5 armed c hv => exact List.nil_prefix
  | case6 armed c hv ds ih =>
    exact List.cons_prefix_cons.2 ⟨rfl, List.cons_prefix_cons.2 ⟨rfl, ih⟩⟩
  | case7 armed c hv d ds hd => exact List.nil_prefix

/-- A form that goes by a class of characters reaches as far as the class does. -/
theorem chars_ofForm_of_judge {form : Form} {p : Char → Bool}
    (h : ∀ c, form.judge false c = if p c then .take false else .leave) :
    ∀ cs : List Char, (ofForm form false cs).chars = cs.takeWhile p
  | [] => rfl
  | c :: cs => by
    have hc := h c
    rw [List.takeWhile_cons]
    by_cases hp : p c = true
    · rw [if_pos hp] at hc ⊢
      rw [ofForm_take hc, chars_cons, chars_ofForm_of_judge h cs]
    · rw [if_neg hp] at hc ⊢
      rw [ofForm_leave hc]

/-- **A comment, like a shell line, reaches to the end of the line.** -/
theorem chars_ofForm_comment (form : Form) (h : form = .comment ∨ form = .shell)
    (cs : List Char) : (ofForm form false cs).chars = cs.takeWhile (· ≠ '\n') := by
  refine chars_ofForm_of_judge (fun c => ?_) cs
  rcases h with rfl | rfl <;> by_cases hc : c = '\n' <;> simp [Form.judge, hc]

/-- **A word, like an option, reaches to the next white space.** -/
theorem chars_ofForm_word (form : Form) (h : form = .word ∨ form = .option) (cs : List Char) :
    (ofForm form false cs).chars = cs.takeWhile (!isSpace ·) := by
  refine chars_ofForm_of_judge (fun c => ?_) cs
  rcases h with rfl | rfl <;> cases hc : isSpace c <;> simp [Form.judge, hc]

/-! ### Blanks

A run of blanks is read unit by unit: a line join, or white space other than a newline. -/

section Blanks

variable {c : Char} {cs : List Char}

theorem blank_join : ofForm .blank false ('\\' :: '\n' :: cs)
    = ((ofForm .blank false cs).cons '\n').cons '\\' := ofForm_join rfl

theorem blank_space (hs : isSpace c = true) (hn : c ≠ '\n') :
    ofForm .blank false (c :: cs) = (ofForm .blank false cs).cons c :=
  ofForm_take (by simp [Form.judge, ne_backslash_of_isSpace hs, hn, hs])

/-- Where neither white space nor a line join stands, a run of blanks is over. -/
theorem chars_blank_stop (hs : isSpace c = true → c = '\n')
    (hj : c = '\\' → cs.head? ≠ some '\n') : (ofForm .blank false (c :: cs)).chars = [] := by
  by_cases hb : c = '\\'
  · subst hb
    cases cs with
    | nil => rfl
    | cons d ds =>
      have hd : d ≠ '\n' := fun he => hj rfl (congrArg some he)
      rw [ofForm_no_join rfl hd]
  · have hv : Form.blank.judge false c = .leave := by
      by_cases hn : c = '\n'
      · simp [Form.judge, hn]
      · simp [Form.judge, hb, mt hs hn]
    rw [ofForm_leave hv]

end Blanks

/-- **Induction along the units of a run of blanks.** -/
theorem blank_induction {P : List Char → Prop} (nil : P [])
    (join : ∀ cs, P cs → P ('\\' :: '\n' :: cs))
    (space : ∀ c cs, isSpace c = true → c ≠ '\n' → P cs → P (c :: cs))
    (stop : ∀ c cs, (isSpace c = true → c = '\n') → (c = '\\' → cs.head? ≠ some '\n') →
      P (c :: cs)) : ∀ cs, P cs
  | [] => nil
  | [c] => by
    by_cases hs : isSpace c = true ∧ c ≠ '\n'
    · exact space c [] hs.1 hs.2 nil
    · exact stop c [] (fun h => by_contra fun hn => hs ⟨h, hn⟩) (by simp)
  | c :: d :: cs => by
    by_cases hs : isSpace c = true ∧ c ≠ '\n'
    · exact space c _ hs.1 hs.2 (blank_induction nil join space stop (d :: cs))
    · by_cases hj : c = '\\' ∧ d = '\n'
      · obtain ⟨rfl, rfl⟩ := hj
        exact join cs (blank_induction nil join space stop cs)
      · exact stop c _ (fun h => by_contra fun hn => hs ⟨h, hn⟩)
          fun hb he => hj ⟨hb, Option.some.inj he⟩

/-- White space is reached up to where a character stands that is neither white space nor the start
of a line join. -/
theorem chars_blank_append {v rest : List Char} (hv : ∀ c ∈ v, isSpace c = true ∧ c ≠ '\n')
    (hrest : ∀ c, rest.head? = some c → (isSpace c = true → c = '\n') ∧ c ≠ '\\') :
    (ofForm .blank false (v ++ rest)).chars = v := by
  induction v with
  | nil =>
    cases rest with
    | nil => rfl
    | cons c cs =>
      obtain ⟨hs, hb⟩ := hrest c rfl
      exact chars_blank_stop hs fun he => absurd he hb
  | cons c v ih =>
    obtain ⟨⟨hs, hn⟩, hv⟩ := List.forall_mem_cons.1 hv
    rw [List.cons_append, blank_space hs hn, chars_cons, ih hv]

/-- **What a blank reaches** is a run of blanks. -/
theorem exists_blanks (cs : List Char) : ∃ v, Blanks (ofForm .blank false cs).chars v := by
  induction cs using blank_induction with
  | nil => exact ⟨[], .nil⟩
  | join cs ih =>
    obtain ⟨v, hv⟩ := ih
    rw [blank_join]
    exact ⟨v, .join hv⟩
  | space c cs hs hn ih =>
    obtain ⟨v, hv⟩ := ih
    rw [blank_space hs hn]
    exact ⟨c :: v, .space hs hn hv⟩
  | stop c cs hs hj =>
    rw [chars_blank_stop hs hj]
    exact ⟨[], .nil⟩

/-- **No run of blanks at the front of a text goes further.** -/
theorem isPrefix_of_blanks {y v : List Char} (h : Blanks y v) :
    ∀ {cs : List Char}, y <+: cs → y <+: (ofForm .blank false cs).chars := by
  induction h with
  | nil => exact fun _ => List.nil_prefix
  | space hs hn _ ih =>
    rintro cs ⟨z, rfl⟩
    rw [List.cons_append, blank_space hs hn]
    exact List.cons_prefix_cons.2 ⟨rfl, ih ⟨z, rfl⟩⟩
  | join _ ih =>
    rintro cs ⟨z, rfl⟩
    rw [List.cons_append, List.cons_append, blank_join]
    exact List.cons_prefix_cons.2 ⟨rfl, List.cons_prefix_cons.2 ⟨rfl, ih ⟨z, rfl⟩⟩⟩

/-! ### Literals

Behind its first quote a literal is read unit by unit: a backslash with the character it disarms, or
any other character but a quote. -/

theorem literal_pair (c : Char) (cs : List Char) :
    ofForm .literal false ('\\' :: c :: cs) = ((ofForm .literal false cs).cons c).cons '\\' := by
  rw [ofForm_take rfl, ofForm_take rfl]

theorem literal_quote (cs : List Char) :
    ofForm .literal false ('"' :: cs) = ⟨⟨['"'], .closed⟩, false⟩ := ofForm_close rfl

theorem literal_plain {c : Char} (hb : c ≠ '\\') (hq : c ≠ '"') (cs : List Char) :
    ofForm .literal false (c :: cs) = (ofForm .literal false cs).cons c :=
  ofForm_take (by simp [Form.judge, hb, hq])

/-- **Induction along the units of a literal**: the text may stop, also behind a backslash, or
start with a unit, or start with a quote. -/
theorem literal_induction {P : List Char → Prop} (nil : P []) (dangling : P ['\\'])
    (pair : ∀ c cs, P cs → P ('\\' :: c :: cs)) (quote : ∀ cs, P ('"' :: cs))
    (plain : ∀ c cs, c ≠ '\\' → c ≠ '"' → P cs → P (c :: cs)) : ∀ cs, P cs
  | [] => nil
  | [c] => by
    by_cases hb : c = '\\'
    · exact hb ▸ dangling
    · by_cases hq : c = '"'
      · exact hq ▸ quote []
      · exact plain c [] hb hq nil
  | c :: d :: cs => by
    by_cases hb : c = '\\'
    · exact hb ▸ pair d cs (literal_induction nil dangling pair quote plain cs)
    · by_cases hq : c = '"'
      · exact hq ▸ quote (d :: cs)
      · exact plain c (d :: cs) hb hq (literal_induction nil dangling pair quote plain (d :: cs))

/-- **A literal that was closed** is made of units and its closing quote. -/
theorem exists_units_of_closed (cs : List Char)
    (h : (ofForm .literal false cs).ending = .closed) :
    ∃ u v, Units u v ∧ (ofForm .literal false cs).chars = u ++ ['"'] := by
  induction cs using literal_induction with
  | nil => exact absurd h (by decide)
  | dangling => exact absurd h (by decide)
  | pair c cs ih =>
    rw [literal_pair] at h ⊢
    obtain ⟨u, v, hunits, hu⟩ := ih h
    refine ⟨'\\' :: c :: u, Literal.escaped c :: v, .pair (escape_escaped c) hunits, ?_⟩
    rw [chars_cons, chars_cons, hu, List.cons_append, List.cons_append]
  | quote cs => exact ⟨[], [], .nil, by rw [literal_quote, List.nil_append]⟩
  | plain c cs hb hq ih =>
    rw [literal_plain hb hq] at h ⊢
    obtain ⟨u, v, hunits, hu⟩ := ih h
    exact ⟨c :: u, c :: v, .plain hb hq hunits, by rw [chars_cons, hu, List.cons_append]⟩

/-- **The first quote behind units closes a literal.** -/
theorem literal_of_units {u v : List Char} (h : Units u v) (cs : List Char) :
    ofForm .literal false (u ++ '"' :: cs) = ⟨⟨u ++ ['"'], .closed⟩, false⟩ := by
  induction h with
  | nil => exact literal_quote cs
  | plain hb hq _ ih =>
    rw [List.cons_append, literal_plain hb hq, ih]
    rfl
  | pair _ _ ih =>
    rw [List.cons_append, List.cons_append, literal_pair, ih]
    rfl

/-- **A literal that is never closed** takes the whole text. -/
theorem chars_of_not_closed (cs : List Char) (h : (ofForm .literal false cs).ending ≠ .closed) :
    (ofForm .literal false cs).chars = cs := by
  induction cs using literal_induction with
  | nil => rfl
  | dangling => rfl
  | pair c cs ih =>
    rw [literal_pair] at h ⊢
    rw [chars_cons, chars_cons, ih h]
  | quote cs => exact absurd (by rw [literal_quote]) h
  | plain c cs hb hq ih =>
    rw [literal_plain hb hq] at h ⊢
    rw [chars_cons, ih h]

end Reach

end ConfigScript
