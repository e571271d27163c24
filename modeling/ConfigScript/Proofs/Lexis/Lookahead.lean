import ConfigScript.Proofs.Lexis.Absorbing
import ConfigScript.Proofs.Lexis.Dispatch
import ConfigScript.Proofs.Lexis.Growing
import ConfigScript.Proofs.Source.Drawing

/-!
# Proofs/Lexis/Lookahead — how far a scan looks ahead

A scan looks at the character behind a token to see that the token is over, and at the one behind
that if the first is a backslash behind a blank; behind a terminator or a closed literal it looks at
none.  The main statement, `frugal_stream`, says what that comes to on a text stream: how much of it
is drawn behind each token of a run of calls, and that in the end it was asked as rarely as can be.

Scans are runs of operations (`leads_scan`), so a scan asks for a chunk only where all text pulled
was passed.  What is looked at adds up over the scans of a run, and the engine is therefore an
invariant of the reader between two of them, `Looks`: it has looked at the next character at most,
or at two if the next is a backslash, which is then no end of a line and no quote.
-/

namespace ConfigScript

open Source (Reader Horizon)
open Source.Reader (Draws leftBy leads_of_read leads_of_peek leads_unread)

variable {r s r' start : Reader} {text passed coming : List Char} {k : Nat} {c : Char} {z : Horizon}

/-! ## Scans are runs of operations -/

namespace Lexeme

theorem leads_leave (taken : List Char) (r : Reader) : r.Leads (leftBy (leave taken r)) := by
  have h := leads_unread r
  rw [leave]
  rcases hresult : Reader.unread r with ⟨_, s⟩ | ⟨e, s⟩ <;> rw [hresult] at h <;> exact h

/-- **Reading a lexeme on** is a run of operations. -/
theorem leads_extend (form : Form) (armed : Bool) (taken : List Char) (r : Reader) :
    r.Leads (leftBy (extend form armed taken r)) := by
  fun_induction extend form armed taken r with
  | case1 armed taken r e r' hr => exact leads_of_read hr
  | case2 armed taken r r' hr => exact leads_of_read hr
  | case3 armed taken r c r' hr armed' hv ih => exact (leads_of_read hr).trans ih
  | case4 armed taken r c r' hr hv => exact leads_of_read hr
  | case5 armed taken r c r' hr hv => exact (leads_of_read hr).trans (leads_leave taken r')
  | case6 armed taken r c r₁ hr hv e r' hp => exact (leads_of_read hr).trans (leads_of_peek hp)
  | case7 armed taken r c r₁ hr hv r₂ e r' hn hp =>
    exact ((leads_of_read hr).trans (leads_of_peek hp)).trans (leads_of_read hn)
  | case8 armed taken r c r₁ hr hv r₂ d r₃ hn hp ih =>
    exact (((leads_of_read hr).trans (leads_of_peek hp)).trans (leads_of_read hn)).trans ih
  | case9 armed taken r c r₁ hr hv next r₂ hp hne =>
    exact ((leads_of_read hr).trans (leads_of_peek hp)).trans (leads_leave taken r₂)

theorem leads_openForm (c : Char) (r : Reader) : r.Leads (leftBy (openForm c r)) := by
  rw [openForm]
  split
  · rcases hp : Reader.peek r with ⟨next, r₁⟩ | ⟨e, r₁⟩
    · refine (leads_of_peek hp).trans ?_
      simp only
      split
      · rcases hr : Reader.read r₁ with ⟨d, r₂⟩ | ⟨e, r₂⟩ <;> exact leads_of_read hr
      · exact .refl r₁
    · exact leads_of_peek hp
  · exact .refl r

theorem leads_complete (form : Form) (taken : List Char) (r : Reader) :
    r.Leads (leftBy (complete form taken r)) := by
  rw [complete]
  split
  · exact .refl r
  · exact leads_extend form false taken r

end Lexeme

theorem leads_scanFrom (start : Position) (c : Char) (r : Reader) :
    r.Leads (leftBy (scanFrom start c r)) := by
  have hopen := Lexeme.leads_openForm c r
  rw [scanFrom]
  rcases ho : Lexeme.openForm c r with ⟨⟨form, taken⟩, r₁⟩ | ⟨e, r₁⟩ <;> rw [ho] at hopen
  · have hcomplete := Lexeme.leads_complete form taken r₁
    simp only
    rcases hx : Lexeme.complete form taken r₁ with ⟨x, r₂⟩ | ⟨e, r₂⟩ <;> rw [hx] at hcomplete
    · simp only
      split <;> exact hopen.trans hcomplete
    · exact hopen.trans hcomplete
  · exact hopen

/-- **A scan is a run of operations**, whether it delivers a token or stops. -/
theorem leads_scan (r : Reader) : r.Leads (leftBy (scan r)) := by
  rw [scan]
  rcases hr : Reader.read r with ⟨_ | c, r₁⟩ | ⟨e, r₁⟩
  · exact leads_of_read hr
  · exact (leads_of_read hr).trans (leads_scanFrom r.position c r₁)
  · exact leads_of_read hr

theorem leads_call (r : Reader) : r.Leads (call r).2 := by
  have h := leads_scan r
  rw [call]
  rcases hs : scan r with ⟨t, s⟩ | ⟨e, s⟩ <;> rw [hs] at h <;> exact h

theorem leads_readerAfter (r : Reader) (calls : Nat) : r.Leads (readerAfter r calls) := by
  induction calls with
  | zero => exact .refl r
  | succ calls ih => exact ih.trans (leads_call _)

/-! ## What is looked at -/

namespace Source.Reader

variable {next : Option Char}

theorem cursor_of_read (h : read r = .ok next s) : s.cursor = r.cursor + next.toList.length := by
  rw [read] at h
  split at h
  · next hpeek =>
    obtain ⟨rfl, rfl⟩ := EStateM.Result.ok.inj h
    exact congrArg (· + 1) (cursor_of_peek hpeek)
  · next hpeek =>
    have hcursor := cursor_of_peek hpeek
    obtain ⟨rfl, rfl⟩ := EStateM.Result.ok.inj h
    exact hcursor
  · exact absurd h (by simp)

theorem Draws.of_peek (h : Draws text k (r.cursor + 1) r) (hpeek : Reader.peek r = .ok next s) :
    Draws text k (s.cursor + 1) s := by
  have hs := h.peek
  rw [hpeek, Nat.max_self] at hs
  rw [cursor_of_peek hpeek]
  exact hs

theorem Draws.of_read (h : Draws text k (r.cursor + 1) r) (hread : Reader.read r = .ok next s) :
    Draws text k (s.cursor + 1) s := by
  have hs := h.read
  rw [hread, Nat.max_self] at hs
  have hcursor := cursor_of_read hread
  exact hs.mono (by omega)

/-- **Behind a character that was read** no other was looked at. -/
theorem Draws.of_read_some (h : Draws text k (r.cursor + 1) r)
    (hread : Reader.read r = .ok (some c) s) : Draws text k s.cursor s := by
  have hs := h.read
  rw [hread, Nat.max_self] at hs
  rw [cursor_of_read hread]
  exact hs

/-- **What a reader has looked at between two tokens**: the next character at most, or two if the
next is a backslash. -/
inductive Looks (text : List Char) (k : Nat) (r : Reader) : Prop
  | one : Draws text k (r.cursor + 1) r → Looks text k r
  | two : Draws text k (r.cursor + 2) r → r.ahead.head? = some '\\' → Looks text k r

theorem Looks.draws (h : Looks text k r) : Draws text k (r.cursor + 2) r := by
  rcases h with h | ⟨h, -⟩
  · exact h.mono (Nat.le_succ _)
  · exact h

/-- The next character was looked at before, or is looked at when it is read. -/
theorem Looks.of_read (h : Looks text k r) (hread : Reader.read r = .ok next s) :
    Draws text k (s.cursor + 1) s ∧
      (∀ c, next = some c → c ≠ '\\' → Draws text k s.cursor s) := by
  rcases h with h | ⟨h, hhead⟩
  · refine ⟨h.of_read hread, ?_⟩
    rintro c rfl -
    exact h.of_read_some hread
  · -- with a character ahead nothing is pulled
    have hpeek : Reader.peek r = .ok (some '\\') r := by
      rw [Reader.peek, getElem?_cursor, hhead]
    rw [Reader.read, hpeek] at hread
    obtain ⟨rfl, rfl⟩ := EStateM.Result.ok.inj hread
    exact ⟨h.moved _ _, fun c hc hne => absurd (Option.some.inj hc).symm hne⟩

end Source.Reader

open Source.Reader (Looks)

/-- Only a newline announces a terminator. -/
theorem Form.eq_newline_of_ofFirst (h : ofFirst c = terminator) : c = '\n' := by
  rw [ofFirst] at h
  repeat' split at h
  all_goals first | assumption | exact absurd h (by decide)

namespace Lexeme

variable {form : Form} {armed : Bool} {taken : List Char} {x : Lexeme} {m : Nat}

/-- A character that is left to what follows comes next. -/
theorem of_leave (h : Draws text k m r) (hc : r.Holds c) (hx : leave taken r = .ok x s) :
    Draws text k m s ∧ s.cursor + 1 = r.cursor ∧ s.ahead.head? = some c ∧ x.ending = .boundary := by
  have hunread := h.unread
  rw [leave] at hx
  simp only [Reader.unread, if_pos hc.canUnread] at hunread hx
  obtain ⟨rfl, rfl⟩ := EStateM.Result.ok.inj hx
  refine ⟨hunread, Nat.sub_add_cancel hc.cursor_pos, ?_, rfl⟩
  rw [← Reader.getElem?_cursor]
  exact hc.getElem?_eq

/-- **How far a lexeme looks ahead**: behind its own end, or behind the backslash that might have
been part of it, and not even behind its end if it was closed. -/
theorem looks_of_extend (h : Draws text k (r.cursor + 1) r)
    (hx : extend form armed taken r = .ok x r') :
    Looks text k r' ∧ (x.ending = .closed → Draws text k r'.cursor r') := by
  fun_induction extend form armed taken r with
  | case1 => exact absurd hx (by simp)
  | case2 armed taken r s hr =>
    obtain ⟨rfl, rfl⟩ := EStateM.Result.ok.inj hx
    exact ⟨.one (h.of_read hr), fun hclosed => absurd hclosed (by simp)⟩
  | case3 armed taken r c s hr armed' hv ih => exact ih (h.of_read hr) hx
  | case4 armed taken r c s hr hv =>
    obtain ⟨rfl, rfl⟩ := EStateM.Result.ok.inj hx
    exact ⟨.one (h.of_read hr), fun _ => h.of_read_some hr⟩
  | case5 armed taken r c s hr hv =>
    obtain ⟨hdraws, hcursor, -, hend⟩ :=
      of_leave (h.of_read_some hr) (Reader.holds_of_read hr) hx
    rw [← hcursor] at hdraws
    exact ⟨.one hdraws, fun hclosed => absurd (hend.symm.trans hclosed) (by simp)⟩
  | case6 => exact absurd hx (by simp)
  | case7 => exact absurd hx (by simp)
  | case8 armed taken r c s hr hv s' d s'' hn hp ih =>
    exact ih (((h.of_read hr).of_peek hp).of_read hn) hx
  | case9 armed taken r c s hr hv next s' hp hne =>
    obtain ⟨-, rfl⟩ := Reach.eq_backslash_of_join hv
    obtain ⟨hdraws, hcursor, hhead, hend⟩ :=
      of_leave ((h.of_read hr).of_peek hp) ((Reader.holds_of_read hr).peek hp) hx
    rw [← hcursor] at hdraws
    exact ⟨.two hdraws hhead, fun hclosed => absurd (hend.symm.trans hclosed) (by simp)⟩

/-- **What opening a form comes to**: nothing is asked for, but behind a dash the next character is
looked at, and read if it is a second dash. -/
inductive Opens (c : Char) (r : Reader) : Form × List Char → Reader → Prop
  | first : Opens c r (.ofFirst c, [c]) r
  | word {next : Option Char} {r₁ : Reader} : Reader.peek r = .ok next r₁ →
      Opens c r (.word, [c]) r₁
  | option {next d : Option Char} {r₁ r₂ : Reader} : Reader.peek r = .ok next r₁ →
      Reader.read r₁ = .ok d r₂ → Opens c r (.option, d.toList ++ [c]) r₂

variable {opened : Form × List Char}

theorem opens_of_openForm (ho : openForm c r = .ok opened s) : Opens c r opened s := by
  rw [openForm] at ho
  split at ho
  · rcases hp : Reader.peek r with ⟨next, r₁⟩ | ⟨e, r₁⟩ <;> simp only [hp] at ho
    · split at ho
      · rcases hr : Reader.read r₁ with ⟨d, r₂⟩ | ⟨e, r₂⟩ <;> simp only [hr] at ho
        · obtain ⟨rfl, rfl⟩ := EStateM.Result.ok.inj ho
          exact .option hp hr
        · exact absurd ho (by simp)
      · obtain ⟨rfl, rfl⟩ := EStateM.Result.ok.inj ho
        exact .word hp
    · exact absurd ho (by simp)
  · obtain ⟨rfl, rfl⟩ := EStateM.Result.ok.inj ho
    exact .first

theorem Opens.draws (h : Opens c r opened s) (hdraws : Draws text k (r.cursor + 1) r) :
    Draws text k (s.cursor + 1) s := by
  rcases h with _ | hp | ⟨hp, hr⟩
  · exact hdraws
  · exact hdraws.of_peek hp
  · exact (hdraws.of_peek hp).of_read hr

/-- Only a newline opens a terminator, and nothing is looked at for it. -/
theorem Opens.of_terminator (h : Opens c r opened s) (hterm : opened.1 = .terminator) :
    c = '\n' ∧ s = r := by
  rcases h with _ | _ | _
  · exact ⟨Form.eq_newline_of_ofFirst hterm, rfl⟩
  · exact absurd hterm (by simp)
  · exact absurd hterm (by simp)

/-- Only a literal is opened by a quote. -/
theorem eq_literal_of_openForm {form : Form} (ho : openForm '"' r = .ok (form, taken) s) :
    form = .literal := by
  obtain ⟨hopened, -⟩ := EStateM.Result.ok.inj ho
  exact (congrArg Prod.fst hopened).symm

end Lexeme

/-- A token that closes itself has a closed lexeme. -/
theorem Form.ending_of_token {form : Form} {x : Lexeme} {start stop : Position} {t : Token}
    (h : form.token x start stop = .ok t) (hform : form ≠ .terminator)
    (ht : t.kind = .terminator ∨ t.kind = .word ∧ form = .literal) : x.ending = .closed := by
  rcases form with _ | _ | _ | _ | _ | _ | _
  case literal =>
    rw [token] at h
    split at h
    · assumption
    · obtain rfl := Except.ok.inj h
      exact absurd ht (by simp)
  all_goals
    obtain rfl := Except.ok.inj h
    simp [kind] at ht hform

/-- **The way to a token** whose first character was read: its form is opened, its lexeme completed
and made a token. -/
theorem exists_of_scanFrom {start : Position} {t : Token} (h : scanFrom start c r = .ok t r') :
    ∃ form taken r₁ x, Lexeme.openForm c r = .ok (form, taken) r₁ ∧
      Lexeme.complete form taken r₁ = .ok x r' ∧ form.token x start r'.position = .ok t := by
  rw [scanFrom] at h
  rcases ho : Lexeme.openForm c r with ⟨⟨form, taken⟩, r₁⟩ | ⟨e, r₁⟩ <;> simp only [ho] at h
  · rcases hx : Lexeme.complete form taken r₁ with ⟨x, r₂⟩ | ⟨e, r₂⟩ <;> simp only [hx] at h
    · split at h
      · next ht =>
        obtain ⟨rfl, rfl⟩ := EStateM.Result.ok.inj h
        exact ⟨form, taken, r₁, x, rfl, hx, ht⟩
      · exact absurd h (by simp)
    · exact absurd h (by simp)
  · exact absurd h (by simp)

/-- **How far a token looks ahead** whose first character was read. -/
theorem looks_of_scanFrom {start : Position} {t : Token} (h : Draws text k (r.cursor + 1) r)
    (hc : c ≠ '\\' → Draws text k r.cursor r) (hscan : scanFrom start c r = .ok t r') :
    Looks text k r' ∧
      (t.kind = .terminator ∨ t.kind = .word ∧ c = '"' → Draws text k r'.cursor r') := by
  obtain ⟨form, taken, r₁, x, ho, hx, ht⟩ := exists_of_scanFrom hscan
  have hopens := Lexeme.opens_of_openForm ho
  by_cases hform : form = .terminator
  · obtain ⟨rfl, rfl⟩ := hopens.of_terminator hform
    rw [Lexeme.complete, if_pos hform] at hx
    obtain ⟨-, rfl⟩ := EStateM.Result.ok.inj hx
    exact ⟨.one h, fun _ => hc (by decide)⟩
  · rw [Lexeme.complete, if_neg hform] at hx
    obtain ⟨hlooks, hclosed⟩ := Lexeme.looks_of_extend (hopens.draws h) hx
    refine ⟨hlooks, fun hkind => hclosed (form.ending_of_token ht hform ?_)⟩
    refine hkind.imp_right (And.imp_right fun hquote => ?_)
    subst hquote
    exact Lexeme.eq_literal_of_openForm ho

/-- **How far a scan looks ahead**: the bound of `Looks` is kept from one token to the next, and
behind a token that ends by itself nothing is looked at. -/
theorem looks_of_scan {t : Token} (hstands : r.StandsAt passed coming z) (h : Looks text k r)
    (hscan : scan r = .ok t r') : Looks text k r' ∧
      (t.kind = .terminator ∨ t.kind = .word ∧ coming.head? = some '"' →
        Draws text k r'.cursor r') := by
  rw [scan] at hscan
  rcases hr : Reader.read r with ⟨_ | c, r₁⟩ | ⟨e, r₁⟩ <;> simp only [hr] at hscan
  · obtain ⟨rfl, rfl⟩ := EStateM.Result.ok.inj hscan
    exact ⟨.one (h.of_read hr).1, fun hkind => absurd hkind (by simp)⟩
  · obtain ⟨hdraws, hc⟩ := h.of_read hr
    obtain ⟨hlooks, hclosed⟩ := looks_of_scanFrom hdraws (hc c rfl) hscan
    refine ⟨hlooks, fun hkind => hclosed (hkind.imp_right (And.imp_right fun hhead => ?_))⟩
    obtain ⟨cs, rfl⟩ := List.head?_eq_some_iff.1 hhead
    obtain ⟨s, hread, -⟩ := Reader.read_cons hstands
    rw [hr] at hread
    exact Option.some.inj (EStateM.Result.ok.inj hread).1
  · exact absurd hscan (by simp)

/-! ## Runs of calls on a stream -/

/-- **A reader of a stream between two calls**: where it stands, and what it has looked at. -/
structure Between (text : List Char) (k : Nat) (passed coming : List Char) (r : Reader) : Prop where
  exists_standsAt : ∃ z, r.StandsAt passed coming z ∧ z.isOpen = true
  text_eq : passed ++ coming = text
  looks : Looks text k r

/-- **A call on a stream** delivers the next token, and leaves the reader between two calls. -/
theorem Between.call (h : Between text k passed coming r) :
    (call r).1 = .token (tokenAt passed coming) ∧
      Between text k (passed ++ lexemeAt coming) (restAt coming) (call r).2 ∧
      ((tokenAt passed coming).EndsItself text → Draws text k (call r).2.cursor (call r).2) := by
  obtain ⟨z, hstands, hz⟩ := h.exists_standsAt
  obtain ⟨r', hscan, hr'⟩ := scan_of_standsAt hstands (.inl hz)
  obtain ⟨hlooks, hclosed⟩ := looks_of_scan hstands h.looks hscan
  have htext : passed ++ lexemeAt coming ++ restAt coming = text := by
    rw [List.append_assoc, lexemeAt_append_restAt, h.text_eq]
  rw [ConfigScript.call, hscan]
  refine ⟨rfl, ⟨⟨_, hr', by rwa [Horizon.isOpen_seen]⟩, htext, hlooks⟩, fun hends => hclosed ?_⟩
  refine hends.imp_right (And.imp_right fun hquoted => ?_)
  obtain ⟨x, hx⟩ := hquoted
  rw [← h.text_eq, lexeme?_tokenAt] at hx
  obtain ⟨more, hmore⟩ := isPrefix_lexemeAt coming
  rw [← hmore, Option.some.inj hx]
  rfl

theorem exists_between_readerAfter (h : Between text k passed coming start) (calls : Nat) :
    ∃ passed coming, Between text k passed coming (readerAfter start calls) := by
  induction calls with
  | zero => exact ⟨passed, coming, h⟩
  | succ calls ih =>
    obtain ⟨passed, coming, hcalls⟩ := ih
    exact ⟨_, _, hcalls.call.2.1⟩

/-- **Lazy reading of a stream**, in chunks of `k` characters. -/
structure Frugal (text : List Char) (k : Nat) (start : Reader) : Prop where
  /-- every call starts where operations led to, and is a run of operations itself -/
  runs : ∀ calls, start.Leads (readerAfter start calls) ∧
    (readerAfter start calls).Leads (readerAfter start (calls + 1))
  /-- and in any run an operation asks for `k` characters where all text pulled was passed, and
  else for nothing -/
  asks : ∀ s op, start.Leads s → (Reader.perform op s).2.requests = s.requests ∨
    s.consumed = s.text ∧ (Reader.perform op s).2.requests = s.requests.push k
  /-- every call delivers a token, and behind one that stops at an offset `e` no more than
  `e + 1 + k` characters are pulled, or two fewer if the token ends by itself -/
  pulled : ∀ calls, ∃ t e, outcomeOf start calls = .token t ∧
    Position.offset? text t.stop = some e ∧
    (readerAfter start (calls + 1)).text.length ≤ e + 1 + k ∧
    (t.EndsItself text → (readerAfter start (calls + 1)).text.length + 1 ≤ e + k)
  /-- behind a walk to the end, and behind any more calls, the stream was asked once for each piece
  of the text and once more, and the last answer alone was empty -/
  total : ∀ more, ∃ pieces : List (List Char),
    start.Heard (pieces.map .text ++ [.text []]) (readerAfter (walk start).reader more) ∧
    pieces.length = text.length ⌈/⌉ k ∧ (∀ p ∈ pieces, p ≠ []) ∧
    (readerAfter (walk start).reader more).requests.toList
      = List.replicate (text.length ⌈/⌉ k + 1) k

/-- A new reader of a stream has looked at nothing. -/
theorem between_ofFeed (text : List Char) (hk : 0 < k) :
    Between text k [] text (.ofFeed (.stream text) k) where
  exists_standsAt := ⟨.clear, Reader.standsAt_ofFeed (.stream text) k hk, rfl⟩
  text_eq := rfl
  looks := .one ((Reader.draws_ofFeed text hk).mono (Nat.zero_le _))

/-- **What is pulled behind a token**, measured by where the token stops. -/
theorem Between.pulled (h : Between text k passed coming r) :
    ∃ t e, (ConfigScript.call r).1 = .token t ∧ Position.offset? text t.stop = some e ∧
      (ConfigScript.call r).2.text.length ≤ e + 1 + k ∧
      (t.EndsItself text → (ConfigScript.call r).2.text.length + 1 ≤ e + k) := by
  obtain ⟨houtcome, hbehind, hends⟩ := h.call
  obtain ⟨z, hstands, -⟩ := hbehind.exists_standsAt
  have hcursor := Reader.length_consumed hstands.toSound
  rw [hstands.consumed_eq] at hcursor
  have hoffset := Position.offset?_after (passed ++ lexemeAt coming) (restAt coming)
  rw [hbehind.text_eq] at hoffset
  rw [Reader.text, Array.length_toList]
  refine ⟨_, _, houtcome, hoffset, ?_, fun hself => ?_⟩
  · have hsize := hbehind.looks.draws.size_lt
    omega
  · have hsize := (hends hself).size_lt
    omega

/-- **What was heard when the end is known**: all pieces of the text, and the end once. -/
theorem Source.Reader.Drawn.total {j : Nat} (h : Reader.Drawn text k j r)
    (hex : r.exhausted = true) : ∃ pieces : List (List Char),
      (Reader.ofFeed (.stream text) k).Heard (pieces.map .text ++ [.text []]) r ∧
      pieces.length = text.length ⌈/⌉ k ∧ (∀ p ∈ pieces, p ≠ []) ∧
      r.requests.toList = List.replicate (text.length ⌈/⌉ k + 1) k := by
  have hj := h.eq_ceilDiv hex
  have hheard := h.heard
  rw [hex, if_pos rfl] at hheard
  refine ⟨_, hheard, (Reader.length_pieces text k j).trans hj, h.ne_nil, ?_⟩
  rw [hheard.requests_eq, List.length_append, List.length_map, Reader.length_pieces, hj]
  rfl

/-- **A stream is read lazily**: no chunk is asked for before it is needed, a bounded look ahead is
all that is drawn behind a token, and no request is made that could be spared. -/
theorem frugal_stream (text : List Char) (hk : 0 < k) :
    Frugal text k (.ofFeed (.stream text) k) := by
  have hstart := between_ofFeed text hk
  refine ⟨fun calls => ⟨leads_readerAfter _ calls, leads_call _⟩, fun s op hs => ?_,
    fun calls => ?_, fun more => ?_⟩
  · have hchunk : s.chunk = k := hs.chunk_eq
    have hasks := Reader.asks_perform op s
    rwa [Reader.Asks, hchunk] at hasks
  · obtain ⟨passed, coming, hcalls⟩ := exists_between_readerAfter hstart calls
    exact hcalls.pulled
  · obtain ⟨z, hstands, hz⟩ := hstart.exists_standsAt
    obtain ⟨-, -, hend⟩ := walk_of_standsAt hstands hz
    have hex : (readerAfter (walk (.ofFeed (.stream text) k)).reader more).exhausted = true := by
      cases more with
      | zero => exact hend.exhausted_eq
      | succ more =>
        rw [(readerAfter_of_known hend more).1]
        exact hend.exhausted_eq
    rw [(outcomes_walk (.ofFeed (.stream text) k)).2, ← readerAfter_add] at hex ⊢
    obtain ⟨passed, coming, hcalls⟩ := exists_between_readerAfter hstart _
    obtain ⟨j, hj⟩ := hcalls.looks.draws.exists_drawn
    exact hj.total hex

/-- A blank before a backslash, for which two characters are looked at, a dash, a terminator and a
literal that is closed, character by character. -/
theorem frugal_stream_by_characters :
    Frugal [' ', '\\', '-', ' ', '-', '\n', '"', '\\', '"', '"'] 1
      (.ofFeed (.stream [' ', '\\', '-', ' ', '-', '\n', '"', '\\', '"', '"']) 1) :=
  frugal_stream _ Nat.one_pos

end ConfigScript
