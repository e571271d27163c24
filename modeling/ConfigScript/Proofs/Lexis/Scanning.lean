import ConfigScript.Proofs.Lexis.Front
import ConfigScript.Proofs.Source.Outlook

/-!
# Proofs/Lexis/Scanning — scanning by what is still to come

A scan depends on nothing but the text a reader has passed and the text still to come: it delivers
the token at the front of the latter (`scan_of_standsAt`), and a walk delivers all tokens
(`walk_of_standsAt`).  A fault is excluded where the text comes to its end without one, or where the
token is settled before the end of the text in store.
-/

namespace ConfigScript

open Source (Reader Reading Horizon)

namespace Source.Horizon

/-- The horizon after a lexeme: a look behind the text makes the end known. -/
def seen (z : Horizon) (beyond : Bool) : Horizon := if beyond then z.asked else z

@[simp] theorem isOpen_seen (z : Horizon) (beyond : Bool) : (z.seen beyond).isOpen = z.isOpen := by
  cases beyond
  · rfl
  · exact isOpen_asked z

theorem asked_of_isOpen {z : Horizon} (h : z.isOpen = true) : z.asked = known := by
  cases z with
  | blocked => exact absurd h Bool.false_ne_true
  | _ => rfl

end Source.Horizon

variable {r : Reader} {passed coming : List Char} {c : Char} {z : Horizon}

namespace Lexeme

/-- The equation of `extend`, without the proofs that its end needs. -/
theorem extend_eq (form : Form) (armed : Bool) (taken : List Char) (r : Reader) :
    extend form armed taken r =
      match Reader.read r with
      | .error e r => .error e r
      | .ok none r => .ok ⟨taken.reverse, .exhausted⟩ r
      | .ok (some c) r =>
        match form.judge armed c with
        | .take armed => extend form armed (c :: taken) r
        | .close => .ok ⟨(c :: taken).reverse, .closed⟩ r
        | .leave => leave taken r
        | .join =>
          match Reader.peek r with
          | .error e r => .error e r
          | .ok next r =>
            if next = some '\n' then
              match Reader.read r with
              | .error e r => .error e r
              | .ok d r => extend form false (d.toList ++ c :: taken) r
            else leave taken r := by
  rw [extend]
  split <;> rename_i h <;> rw [h]
  cases hv : form.judge armed _ with
  | join =>
    simp only [hv]
    split <;> rename_i hp <;> simp only [hp]
    split
    · split <;> rename_i hn <;> simp only [hn]
    · rfl
  | _ => simp only [hv]

/-- **A character left to what follows** is to come again. -/
theorem leave_of_standsAt (h : r.StandsAt (passed ++ [c]) coming z) (hcan : r.canUnread = true)
    (taken : List Char) : ∃ r', leave taken r = .ok ⟨taken.reverse, .boundary⟩ r' ∧
      r'.StandsAt passed (c :: coming) z := by
  obtain ⟨r', hunread, hr'⟩ := Reader.unread_of_standsAt h hcan
  exact ⟨r', by rw [leave, hunread], hr'⟩

/-- **Reading a lexeme on finds its end in the text to come.** -/
theorem extend_of_standsAt {form : Form} {armed : Bool} (h : r.StandsAt passed coming z)
    (hz : z.isOpen = true ∨ (Reach.ofForm form armed coming).beyond = false) (taken : List Char) :
    ∃ r', extend form armed taken r
        = .ok ⟨taken.reverse ++ (Reach.ofForm form armed coming).chars,
            (Reach.ofForm form armed coming).ending⟩ r' ∧
      r'.StandsAt (passed ++ (Reach.ofForm form armed coming).chars)
        (coming.drop (Reach.ofForm form armed coming).chars.length)
        (z.seen (Reach.ofForm form armed coming).beyond) := by
  fun_induction Reach.ofForm form armed coming generalizing r passed taken with
  | case1 armed =>
    have hopen : z.isOpen = true := hz.resolve_right (by simp)
    obtain ⟨r', hread, hr'⟩ := Reader.read_nil h hopen
    refine ⟨r', by rw [extend_eq, hread, List.append_nil], ?_⟩
    rw [List.append_nil]
    exact hr'
  | case2 armed c cs armed' hv ih =>
    obtain ⟨r₁, hread, h₁, -⟩ := Reader.read_cons h
    obtain ⟨r', hext, hr'⟩ := ih h₁ hz (c :: taken)
    refine ⟨r', ?_, ?_⟩
    · rw [extend_eq, hread]
      simp only [hv, hext, List.reverse_cons, List.append_assoc, List.singleton_append,
        Reach.chars_cons, Reach.ending_cons]
    · rw [List.append_assoc, List.singleton_append] at hr'
      exact hr'
  | case3 armed c cs hv =>
    obtain ⟨r₁, hread, h₁, -⟩ := Reader.read_cons h
    refine ⟨r₁, ?_, h₁⟩
    rw [extend_eq, hread]
    simp only [hv, List.reverse_cons]
  | case4 armed c cs hv =>
    obtain ⟨r₁, hread, h₁, hcan⟩ := Reader.read_cons h
    obtain ⟨r', hleave, hr'⟩ := leave_of_standsAt h₁ hcan taken
    refine ⟨r', ?_, ?_⟩
    · rw [extend_eq, hread, List.append_nil]
      simp only [hv, hleave]
    · rw [List.append_nil]
      exact hr'
  | case5 armed c hv =>
    have hopen : z.isOpen = true := hz.resolve_right (by simp)
    obtain ⟨r₁, hread, h₁, hcan₁⟩ := Reader.read_cons h
    obtain ⟨r₂, hpeek, h₂, hcan₂⟩ := Reader.peek_nil h₁ hopen
    obtain ⟨r', hleave, hr'⟩ := leave_of_standsAt h₂ (hcan₂.trans hcan₁) taken
    refine ⟨r', ?_, ?_⟩
    · rw [extend_eq, hread, List.append_nil]
      simp only [hv, hpeek, if_neg (Option.some_ne_none _).symm, hleave]
    · rw [List.append_nil]
      exact hr'
  | case6 armed c hv ds ih =>
    obtain ⟨r₁, hread, h₁, -⟩ := Reader.read_cons h
    obtain ⟨r₂, hpeek, h₂, -⟩ := Reader.peek_cons h₁
    obtain ⟨r₃, hread₃, h₃, -⟩ := Reader.read_cons h₂
    obtain ⟨r', hext, hr'⟩ := ih h₃ hz ('\n' :: c :: taken)
    refine ⟨r', ?_, ?_⟩
    · rw [extend_eq, hread]
      simp only [hv, hpeek, hread₃, if_true, Option.toList_some, List.cons_append, List.nil_append,
        hext, List.reverse_cons, List.append_assoc, Reach.chars_cons, Reach.ending_cons]
    · rw [List.append_assoc, List.append_assoc, List.singleton_append, List.singleton_append] at hr'
      exact hr'
  | case7 armed c hv d ds hd =>
    obtain ⟨r₁, hread, h₁, hcan₁⟩ := Reader.read_cons h
    obtain ⟨r₂, hpeek, h₂, hcan₂, -⟩ := Reader.peek_cons h₁
    obtain ⟨r', hleave, hr'⟩ := leave_of_standsAt h₂ (hcan₂.trans hcan₁) taken
    refine ⟨r', ?_, ?_⟩
    · rw [extend_eq, hread, List.append_nil]
      have hne : some d ≠ some '\n' := fun he => hd (Option.some.inj he)
      simp only [hv, hpeek, if_neg hne, hleave]
    · rw [List.append_nil]
      exact hr'

/-- No character but a dash needs a look at the next one. -/
theorem openForm_of_ne_dash (hc : c ≠ '-') (coming : List Char) (r : Reader) :
    openForm c r = .ok (Form.announced c coming, [c]) r := by
  rw [openForm, if_neg hc, Form.announced, if_neg fun h => hc h.1]

/-- A dash without a second one opens a word. -/
theorem openForm_single_dash (h : r.StandsAt (passed ++ ['-']) coming z)
    (hz : z.isOpen = true ∨ coming ≠ []) (hd : coming.head? ≠ some '-') :
    ∃ r', openForm '-' r = .ok (.word, ['-']) r' ∧
      r'.StandsAt (passed ++ ['-']) coming (z.seen coming.isEmpty) := by
  cases coming with
  | nil =>
    obtain ⟨r', hpeek, hr', -⟩ := Reader.peek_nil h (hz.resolve_right fun hne => hne rfl)
    exact ⟨r', by rw [openForm, if_pos rfl, hpeek]; rfl, hr'⟩
  | cons d ds =>
    obtain ⟨r', hpeek, hr', -⟩ := Reader.peek_cons h
    refine ⟨r', ?_, hr'⟩
    rw [openForm, if_pos rfl, hpeek]
    exact if_neg hd

/-- Two dashes open an option. -/
theorem openForm_two_dashes (h : r.StandsAt (passed ++ ['-']) ('-' :: coming) z) :
    ∃ r', openForm '-' r = .ok (.option, ['-', '-']) r' ∧
      r'.StandsAt (passed ++ ['-', '-']) coming z := by
  obtain ⟨r₁, hpeek, h₁, -⟩ := Reader.peek_cons h
  obtain ⟨r₂, hread, h₂, -⟩ := Reader.read_cons h₁
  refine ⟨r₂, ?_, ?_⟩
  · rw [openForm, if_pos rfl, hpeek]
    simp only [if_true, hread, Option.toList_some, List.singleton_append]
  · rw [List.append_assoc] at h₂
    exact h₂

/-- A first character that was read opens its form, and what is read on from there is the first
lexeme. -/
def Completes (r : Reader) (passed : List Char) (c : Char) (coming : List Char) (z : Horizon) :
    Prop :=
  ∃ taken r₁ r', openForm c r = .ok (Form.announced c coming, taken) r₁ ∧
    complete (Form.announced c coming) taken r₁ = .ok (Reach.first c coming).toLexeme r' ∧
    r'.StandsAt (passed ++ (Reach.first c coming).chars)
      ((c :: coming).drop (Reach.first c coming).chars.length)
      (z.seen (Reach.first c coming).beyond)

/-- A terminator is complete with its first character. -/
theorem completes_of_terminator (h : r.StandsAt (passed ++ [c]) coming z)
    (hterm : Form.announced c coming = .terminator) : Completes r passed c coming z := by
  have hc : c ≠ '-' := by
    rintro rfl
    rw [Form.announced] at hterm
    split at hterm <;> exact absurd hterm (by decide)
  rw [Completes, Reach.first, if_pos hterm]
  exact ⟨[c], r, r, openForm_of_ne_dash hc coming r, by rw [hterm]; rfl, h⟩

theorem completes_of_ne_dash (h : r.StandsAt (passed ++ [c]) coming z) (hc : c ≠ '-')
    (hterm : Form.announced c coming ≠ .terminator)
    (hz : z.isOpen = true ∨ (Reach.first c coming).beyond = false) :
    Completes r passed c coming z := by
  rw [Reach.first_of_ne hterm] at hz
  obtain ⟨r', hext, hr'⟩ := extend_of_standsAt h hz [c]
  rw [List.append_assoc] at hr'
  rw [Completes, Reach.first_of_ne hterm]
  exact ⟨[c], r, r', openForm_of_ne_dash hc coming r, (if_neg hterm).trans hext, hr'⟩

/-- Behind two dashes an option is read on. -/
theorem completes_of_two_dashes (h : r.StandsAt (passed ++ ['-']) ('-' :: coming) z)
    (hz : z.isOpen = true ∨ (Reach.first '-' ('-' :: coming)).beyond = false) :
    Completes r passed '-' ('-' :: coming) z := by
  have hfirst : Reach.first '-' ('-' :: coming)
      = ((Reach.ofForm .option false coming).cons '-').cons '-' := by
    rw [Reach.first_of_ne (by rw [Form.announced_dashes]; decide), Form.announced_dashes,
      Reach.ofForm_take rfl]
  rw [hfirst] at hz
  obtain ⟨r₁, hopen, h₁⟩ := openForm_two_dashes h
  obtain ⟨r', hext, hr'⟩ := extend_of_standsAt h₁ hz ['-', '-']
  rw [List.append_assoc] at hr'
  rw [Completes, hfirst, Form.announced_dashes]
  exact ⟨_, r₁, r', hopen, hext, hr'⟩

/-- Behind a single dash a word is read on; the look at the next character may be one behind the
end of the text, and then reading on finds no more. -/
theorem completes_of_single_dash (h : r.StandsAt (passed ++ ['-']) coming z)
    (hd : coming.head? ≠ some '-')
    (hz : z.isOpen = true ∨ (Reach.first '-' coming).beyond = false) :
    Completes r passed '-' coming z := by
  have hform : Form.announced '-' coming = .word := by
    rw [Form.announced, if_neg fun he => hd he.2]
    rfl
  have hfirst : Reach.first '-' coming = (Reach.ofForm .word false coming).cons '-' := by
    rw [Reach.first_of_ne (by rw [hform]; decide), hform]
  rw [hfirst] at hz
  have hlook : z.isOpen = true ∨ coming ≠ [] := by
    refine hz.imp_right fun hb he => ?_
    subst he
    exact absurd hb (by decide)
  obtain ⟨r₁, hopen, h₁⟩ := openForm_single_dash h hlook hd
  have hz₁ : (z.seen coming.isEmpty).isOpen = true
      ∨ (Reach.ofForm .word false coming).beyond = false := by
    rw [Horizon.isOpen_seen]
    exact hz
  obtain ⟨r', hext, hr'⟩ := extend_of_standsAt h₁ hz₁ ['-']
  have hseen : (z.seen coming.isEmpty).seen (Reach.ofForm .word false coming).beyond
      = z.seen (Reach.ofForm .word false coming).beyond := by
    cases coming with
    | nil => exact Horizon.asked_asked z
    | cons d ds => rfl
  rw [hseen, List.append_assoc] at hr'
  rw [Completes, hfirst, hform]
  exact ⟨_, r₁, r', hopen, hext, hr'⟩

/-- **A first character opens its form**, and what is read on from there is the first lexeme. -/
theorem completes_of_standsAt (h : r.StandsAt (passed ++ [c]) coming z)
    (hz : z.isOpen = true ∨ (Reach.first c coming).beyond = false) :
    Completes r passed c coming z := by
  by_cases hterm : Form.announced c coming = .terminator
  · exact completes_of_terminator h hterm
  by_cases hc : c = '-'
  · subst hc
    by_cases hd : coming.head? = some '-'
    · obtain ⟨ds, rfl⟩ := List.head?_eq_some_iff.1 hd
      exact completes_of_two_dashes h hz
    · exact completes_of_single_dash h hd hz
  · exact completes_of_ne_dash h hc hterm hz

end Lexeme

/-- **A scan delivers the token at the front of the text to come.** -/
theorem scan_of_standsAt (h : r.StandsAt passed coming z)
    (hz : z.isOpen = true ∨ beyondAt coming = false) :
    ∃ r', scan r = .ok (tokenAt passed coming) r' ∧
      r'.StandsAt (passed ++ lexemeAt coming) (restAt coming) (z.seen (beyondAt coming)) := by
  cases coming with
  | nil =>
    have hopen : z.isOpen = true := hz.resolve_right (by decide)
    obtain ⟨r', hread, hr'⟩ := Reader.read_nil h hopen
    refine ⟨r', ?_, ?_⟩
    · rw [scan, hread, tokenAt, lexemeAt_nil, List.append_nil]
      simp only [h.position_eq, hr'.position_eq]
      rfl
    · rw [lexemeAt_nil, List.append_nil]
      exact hr'
  | cons c cs =>
    obtain ⟨r₁, hread, h₁, -⟩ := Reader.read_cons h
    obtain ⟨taken, r₂, r', hopen, hcomplete, hr'⟩ := Lexeme.completes_of_standsAt h₁ hz
    rw [← lexemeAt_cons] at hr'
    refine ⟨r', ?_, hr'⟩
    rw [scan, hread]
    simp only [scanFrom, hopen, hcomplete, h.position_eq, hr'.position_eq]
    rw [lexemeAt_cons, token_first]

/-! ## Walks -/

/-- The equation of `walk`, without the proofs that its end needs. -/
theorem walk_eq (r : Reader) :
    walk r =
      match scan r with
      | .error e r' => ⟨[], some e, r'⟩
      | .ok t r' =>
        if t.isEof = true then ⟨[stepOf t r r'], none, r'⟩ else (walk r').cons (stepOf t r r') := by
  rw [walk]
  split <;> rename_i h <;> simp only [h]
  split <;> rfl

/-- **A walk delivers all tokens of the text to come** and ends behind it. -/
theorem walk_of_standsAt (h : r.StandsAt passed coming z) (hz : z.isOpen = true) :
    (walk r).tokens = tokensOf passed coming ∧ (walk r).fault? = none ∧
      (walk r).reader.StandsAt (passed ++ coming) [] .known := by
  fun_induction tokensOf passed coming generalizing r z with
  | case1 passed =>
    obtain ⟨r', hscan, hr'⟩ := scan_of_standsAt h (Or.inl hz)
    have hwalk : walk r = ⟨[stepOf (tokenAt passed []) r r'], none, r'⟩ := by
      rw [walk_eq, hscan]
      exact if_pos rfl
    have hknown : z.seen (beyondAt []) = .known := Horizon.asked_of_isOpen hz
    rw [hknown] at hr'
    rw [hwalk]
    exact ⟨rfl, rfl, hr'⟩
  | case2 passed c cs ih =>
    obtain ⟨r', hscan, hr'⟩ := scan_of_standsAt h (Or.inl hz)
    obtain ⟨htokens, hfault, hreader⟩ := ih hr' (by rwa [Horizon.isOpen_seen])
    have heof : ¬ (tokenAt passed (c :: cs)).isEof = true := by
      rw [isEof_tokenAt, List.isEmpty_cons]
      exact Bool.false_ne_true
    have hwalk : walk r = (walk r').cons (stepOf (tokenAt passed (c :: cs)) r r') := by
      rw [walk_eq, hscan]
      exact if_neg heof
    rw [List.append_assoc, lexemeAt_append_restAt] at hreader
    rw [hwalk]
    exact ⟨congrArg (tokenAt passed (c :: cs) :: ·) htokens, hfault, hreader⟩

/-- **The tokens of a text** are those of the whole text, behind nothing. -/
theorem tokenize_eq (source : String) : tokenize source = tokensOf [] source.toList :=
  (walk_of_standsAt (Reader.standsAt_ofText source.toList) rfl).1

end ConfigScript
