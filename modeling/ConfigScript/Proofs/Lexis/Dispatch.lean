import ConfigScript.Proofs.Lexis.Scanning
import ConfigScript.Proofs.Source.Operations

/-!
# Proofs/Lexis/Dispatch — scanning with every pushback spelled out

A scan could look at the first character of a token, push it back, and read the token from there by
what it looked at; behind a dash that no other follows it would push back after a further look,
which may have pulled a chunk or found the end.  `dispatch` scans in this way.  It comes to the same
as `scan`, fault and reader included (`dispatch_eq_scan`), so what is known of a scan is known of
each of these pushbacks.

The reason is that a character just read is there to be pushed back and read again, and nothing is
different then (`Reader.Holds`).
-/

namespace ConfigScript

open Source (Reader Reading Fault)

/-! ## Characters that were just read -/

namespace Source.Reader

variable {r r' : Reader} {c : Char} {next : Option Char}

/-- **A reader that holds a character**: it has just read it, or only looked at the next one
since. -/
structure Holds (r : Reader) (c : Char) : Prop where
  canUnread : r.canUnread = true
  cursor_pos : 0 < r.cursor
  getElem?_eq : r.buffer[r.cursor - 1]? = some c

theorem cursor_of_peek (h : peek r = .ok next r') : r'.cursor = r.cursor := by
  rw [peek] at h
  split at h
  · obtain ⟨-, rfl⟩ := EStateM.Result.ok.inj h
    rfl
  · have hfills := fills_fill r
    generalize fill r = result at h hfills
    rcases hfills with _ | _ | _ | _ <;> simp only [EStateM.Result.ok.injEq, reduceCtorEq] at h <;>
      obtain ⟨-, rfl⟩ := h <;> rfl

/-- What was looked at stands behind the cursor. -/
theorem getElem?_cursor_of_peek (h : peek r = .ok next r') : r'.buffer[r'.cursor]? = next := by
  rw [peek] at h
  split at h
  · next hget =>
    obtain ⟨rfl, rfl⟩ := EStateM.Result.ok.inj h
    exact hget
  · split at h
    · obtain ⟨rfl, rfl⟩ := EStateM.Result.ok.inj h
      rfl
    · exact absurd h (by simp)

/-- What was looked at is what is read then. -/
theorem exists_read_of_peek (h : peek r = .ok (some c) r') :
    ∃ r₁, read r' = .ok (some c) r₁ := by
  have hpeek : peek r' = .ok (some c) r' := by rw [peek, getElem?_cursor_of_peek h]
  exact ⟨_, by rw [read, hpeek]⟩

theorem holds_of_read (h : read r = .ok (some c) r') : r'.Holds c := by
  rw [read] at h
  split at h
  · next hpeek =>
    obtain ⟨⟨⟩, rfl⟩ := EStateM.Result.ok.inj h
    exact ⟨rfl, Nat.succ_pos _, getElem?_cursor_of_peek hpeek⟩
  · exact absurd h (by simp)
  · exact absurd h (by simp)

/-- **A look at the next character leaves the last one there**, whatever is pulled for it. -/
theorem Holds.peek (h : r.Holds c) (hpeek : peek r = .ok next r') : r'.Holds c := by
  have hcursor := cursor_of_peek hpeek
  have hkeeps := keeps_peek r
  rw [hpeek] at hkeeps
  obtain ⟨more, hmore⟩ : r.text <+: r'.text := hkeeps.isPrefix_text
  have hget : r.text[r.cursor - 1]? = some c := by rw [text, Array.getElem?_toList, h.getElem?_eq]
  refine ⟨(canUnread_of_peek hpeek).trans h.canUnread, hcursor ▸ h.cursor_pos, ?_⟩
  have hlt : r.cursor - 1 < r.text.length := (List.getElem?_eq_some_iff.1 hget).1
  rw [hcursor, ← Array.getElem?_toList, ← text, ← hmore, List.getElem?_append_left hlt, hget]

/-- **A character pushed back is read again**, and then nothing is different. -/
theorem Holds.exists_reread (h : r.Holds c) :
    ∃ r₀, unread r = .ok () r₀ ∧ read r₀ = .ok (some c) r := by
  refine ⟨_, by rw [unread, if_pos h.canUnread], ?_⟩
  have hcursor : r.cursor - 1 + 1 = r.cursor := Nat.sub_add_cancel h.cursor_pos
  simp only [read, Reader.peek, h.getElem?_eq, hcursor, ← h.canUnread]

end Source.Reader

/-! ## Lexemes read from their first character on -/

namespace Lexeme

variable {r : Reader} {form : Form} {c : Char}

/-- **Pushes the first character back** and reads the lexeme from there. -/
def reopen (form : Form) : Reading Lexeme := fun r =>
  match Reader.unread r with
  | .error e r => .error e r
  | .ok _ r => extend form false [] r

/-- **Pushes the opening quote back**, reads it for what it is and goes on behind it. -/
def reopenLiteral : Reading Lexeme := fun r =>
  match Reader.unread r with
  | .error e r => .error e r
  | .ok _ r =>
    match Reader.read r with
    | .error e r => .error e r
    | .ok _ r => extend .literal false ['"'] r

/-- To push back a character that belongs to the lexeme makes no difference. -/
theorem reopen_eq_extend (h : r.Holds c) (htake : form.judge false c = .take false) :
    reopen form r = extend form false [c] r := by
  obtain ⟨r₀, hunread, hread⟩ := h.exists_reread
  rw [reopen, hunread]
  simp only [extend_eq form false [] r₀, hread, htake]

theorem reopenLiteral_eq_extend (h : r.Holds c) :
    reopenLiteral r = extend .literal false ['"'] r := by
  obtain ⟨r₀, hunread, hread⟩ := h.exists_reread
  rw [reopenLiteral, hunread]
  simp only [hread]

/-- What was read goes in front of the lexeme that is read behind it. -/
def putBefore (front : List Char) :
    EStateM.Result Fault Reader Lexeme → EStateM.Result Fault Reader Lexeme
  | .ok x r => .ok ⟨front ++ x.chars, x.ending⟩ r
  | .error e r => .error e r

theorem leave_append (taken before : List Char) (r : Reader) :
    leave (taken ++ before) r = putBefore before.reverse (leave taken r) := by
  rw [leave, leave]
  rcases Reader.unread r with _ | _
  · rw [putBefore, List.reverse_append]
  · rfl

/-- **How far a lexeme reaches does not depend on what was read before**, nor on its form if another
gives the same verdicts. -/
theorem extend_append {form' : Form} (hjudge : ∀ armed c, form'.judge armed c = form.judge armed c)
    (before : List Char) (armed : Bool) (taken : List Char) (r : Reader) :
    extend form' armed (taken ++ before) r
      = putBefore before.reverse (extend form armed taken r) := by
  fun_induction extend form armed taken r with
  | case1 armed taken r e r' hr => rw [extend_eq, hr]; rfl
  | case2 armed taken r r' hr => rw [extend_eq, hr, putBefore, List.reverse_append]
  | case3 armed taken r c r' hr armed' hv ih =>
    rw [extend_eq, hr]
    simp only [hjudge, hv]
    exact ih
  | case4 armed taken r c r' hr hv =>
    rw [extend_eq, hr]
    simp only [hjudge, hv, putBefore, List.reverse_append, ← List.cons_append]
  | case5 armed taken r c r' hr hv =>
    rw [extend_eq, hr]
    simp only [hjudge, hv, leave_append]
  | case6 armed taken r c r₁ hr hv e r' hp =>
    rw [extend_eq, hr]
    simp only [hjudge, hv, hp]
    rfl
  | case7 armed taken r c r₁ hr hv r₂ e r' hn hp =>
    rw [extend_eq, hr]
    simp only [hjudge, hv, hp, hn, if_true]
    rfl
  | case8 armed taken r c r₁ hr hv r₂ d r₃ hn hp ih =>
    rw [extend_eq, hr]
    simp only [hjudge, hv, hp, hn, if_true]
    rw [← ih, List.append_assoc, List.cons_append]
  | case9 armed taken r c r₁ hr hv next r₂ hp hne =>
    rw [extend_eq, hr]
    simp only [hjudge, hv, hp, if_neg hne, leave_append]

end Lexeme

/-! ## Scanning by the first character -/

/-- The token of a lexeme, if one was read. -/
def tokenOf (form : Form) (start : Position) :
    EStateM.Result Fault Reader Lexeme → EStateM.Result Fault Reader Token
  | .error e r => .error e r
  | .ok x r =>
    match form.token x start r.position with
    | .ok t => .ok t r
    | .error e => .error e r

/-- **Scans behind a dash.**  A second dash is read, and what stands behind it is a word by itself,
which becomes an option; else the first dash is pushed back. -/
def dispatchDash (start : Position) : Reading Token := fun r =>
  match Reader.peek r with
  | .error e r => .error e r
  | .ok next r =>
    if next = some '-' then
      match Reader.read r with
      | .error e r => .error e r
      | .ok _ r =>
        match Lexeme.extend .word false [] r with
        | .error e r => .error e r
        | .ok x r => .ok ⟨.option, String.ofList ('-' :: x.chars), start, r.position, none⟩ r
    else tokenOf .word start (Lexeme.reopen .word r)

/-- **Scans by the first character**, which was read: the end of a line is a token by itself, and
any other character is pushed back, to be read as the first of a token of its form. -/
def dispatchFrom (start : Position) (c : Char) : Reading Token := fun r =>
  if c = '\n' then .ok ⟨.terminator, String.ofList [c], start, r.position, none⟩ r
  else if c = '-' then dispatchDash start r
  else if c = '"' then tokenOf .literal start (Lexeme.reopenLiteral r)
  else tokenOf (.ofFirst c) start (Lexeme.reopen (.ofFirst c) r)

/-- **Reads one token** with every pushback spelled out. -/
def dispatch : Reading Token := fun r =>
  match Reader.read r with
  | .error e r' => .error e r'
  | .ok none r' => .ok ⟨.eof, "", r.position, r'.position, none⟩ r'
  | .ok (some c) r' => dispatchFrom r.position c r'

variable {r : Reader} {c : Char} {start : Position}

/-- A first character belongs to the lexeme of the form it announces. -/
theorem Form.judge_ofFirst (hne : c ≠ '\n') (hquote : c ≠ '"') :
    (ofFirst c).judge false c = .take false := by
  rw [ofFirst, if_neg hne]
  split
  · next hspace =>
    have hb : c ≠ '\\' := by
      rintro rfl
      exact absurd hspace (by decide)
    simp [judge, hb, hne, hspace]
  split
  · simp [judge, hne]
  split
  · simp [judge, hne]
  next hspace _ _ => simp [judge, hspace]

/-- What a scan comes to behind the opening of a form. -/
theorem scanFrom_eq_tokenOf {r' : Reader} {form : Form} {taken : List Char}
    (hopen : Lexeme.openForm c r = .ok (form, taken) r') :
    scanFrom start c r = tokenOf form start (Lexeme.complete form taken r') := by
  rw [scanFrom, hopen]
  simp only
  rcases Lexeme.complete form taken r' with _ | _ <;> rfl

/-- An option is a word behind two dashes. -/
theorem tokenOf_option (r : Reader) :
    tokenOf .option start (Lexeme.extend .option false ['-', '-'] r) =
      match Lexeme.extend .word false [] r with
      | .error e r => .error e r
      | .ok x r => .ok ⟨.option, String.ofList ('-' :: x.chars), start, r.position, none⟩ r := by
  have hjudge (armed : Bool) (c : Char) : Form.option.judge armed c = Form.word.judge armed c := rfl
  have hextend := Lexeme.extend_append hjudge ['-', '-'] false [] r
  rw [List.nil_append] at hextend
  rw [hextend]
  rcases Lexeme.extend .word false [] r with _ | _ <;> rfl

theorem dispatchDash_eq_scanFrom (h : r.Holds '-') :
    dispatchDash start r = scanFrom start '-' r := by
  rw [dispatchDash]
  rcases hpeek : Reader.peek r with ⟨next, r₁⟩ | ⟨e, r₁⟩
  · simp only
    by_cases hdash : next = some '-'
    · subst hdash
      obtain ⟨r₂, hread⟩ := Reader.exists_read_of_peek hpeek
      have hopen : Lexeme.openForm '-' r = .ok (.option, ['-', '-']) r₂ := by
        simp only [Lexeme.openForm, if_true, hpeek, hread]
        rfl
      rw [if_pos rfl, hread, scanFrom_eq_tokenOf hopen, Lexeme.complete, if_neg (by decide),
        tokenOf_option]
    · have hopen : Lexeme.openForm '-' r = .ok (.word, ['-']) r₁ := by
        simp only [Lexeme.openForm, if_true, hpeek, if_neg hdash]
      rw [if_neg hdash, scanFrom_eq_tokenOf hopen, Lexeme.complete, if_neg (by decide),
        Lexeme.reopen_eq_extend (h.peek hpeek) rfl]
  · simp only [scanFrom, Lexeme.openForm, if_true, hpeek]

theorem dispatchFrom_eq_scanFrom (h : r.Holds c) : dispatchFrom start c r = scanFrom start c r := by
  have hopen (hdash : c ≠ '-') : Lexeme.openForm c r = .ok (.ofFirst c, [c]) r := if_neg hdash
  rw [dispatchFrom]
  split
  · next hnewline =>
    subst hnewline
    rfl
  split
  · next hdash =>
    subst hdash
    exact dispatchDash_eq_scanFrom h
  split
  · next hquote =>
    subst hquote
    rw [Lexeme.reopenLiteral_eq_extend h, scanFrom_eq_tokenOf (hopen (by decide))]
    rfl
  · next hnewline hdash hquote =>
    have hform : Form.ofFirst c ≠ .terminator := by
      rw [Form.ofFirst, if_neg hnewline]
      split_ifs <;> decide
    rw [Lexeme.reopen_eq_extend h (Form.judge_ofFirst hnewline hquote),
      scanFrom_eq_tokenOf (hopen hdash), Lexeme.complete, if_neg hform]

/-- **To push back and read again makes no difference to a scan.** -/
theorem dispatch_eq_scan : dispatch = scan := by
  funext r
  rw [dispatch, scan]
  rcases hread : Reader.read r with ⟨_ | c, r'⟩ | ⟨e, r'⟩
  · rfl
  · exact dispatchFrom_eq_scanFrom (Reader.holds_of_read hread)
  · rfl

end ConfigScript
