import ConfigScript.Proofs.Lexis.Scanning
import ConfigScript.Proofs.Source.Hearing
import ConfigScript.Session

/-!
# Proofs/Lexis/Calls — one call of a scanner after the other

Tokens are asked for one at a time, and a call that meets a fault may be followed by others.  Two
statements say what a call comes to:

* `told_scan` — by what it hears: nothing but text if it delivers a token, and if it stops, then at
  the last delivery it heard;
* `call_of_standsAt` — by where the reader stands: the token at the front of the text to come, or
  the fault of the delivery that blocks the way to its end, and where the reader stands then.

The second is an inversion: all that can happen to a reader in a run of calls is in the two cases of
`Calls`.
-/

namespace ConfigScript

open Source (Reader Reading Fault Feed Delivery Horizon)

variable {r r' : Reader} {passed coming : List Char} {c : Char} {z : Horizon} {d : Delivery}
  {rest : Feed}

/-! ## What a scan hears -/

namespace Lexeme

theorem told_leave (h : r.canUnread = true) (taken : List Char) : r.Told (leave taken r) := by
  rw [leave]
  cases hu : Reader.unread r with
  | ok u r' => exact Reader.told_unread h hu
  | error e r' => exact Reader.told_unread h hu

/-- **Reading a lexeme on** is told by what it hears, character by character. -/
theorem told_extend (form : Form) (armed : Bool) (taken : List Char) (r : Reader) :
    r.Told (extend form armed taken r) := by
  fun_induction extend form armed taken r with
  | case1 armed taken r e r' hr => exact Reader.told_read hr
  | case2 armed taken r r' hr => exact Reader.told_read hr
  | case3 armed taken r c r' hr armed' hv ih => exact (Reader.told_read hr).trans ih
  | case4 armed taken r c r' hr hv => exact Reader.told_read hr
  | case5 armed taken r c r' hr hv =>
    exact (Reader.told_read hr).trans (told_leave (Reader.canUnread_of_read hr) taken)
  | case6 armed taken r c r₁ hr hv e r' hp =>
    exact (Reader.told_read hr).trans (Reader.told_peek hp)
  | case7 armed taken r c r₁ hr hv r₂ e r' hn hp =>
    exact ((Reader.told_read hr).trans (Reader.told_peek hp)).trans (Reader.told_read hn)
  | case8 armed taken r c r₁ hr hv r₂ d r₃ hn hp ih =>
    have hjoined := ((Reader.told_read hr).trans (Reader.told_peek hp)).trans (Reader.told_read hn)
    exact hjoined.trans ih
  | case9 armed taken r c r₁ hr hv next r₂ hp hne =>
    have hcan : r₂.canUnread = true :=
      (Reader.canUnread_of_peek hp).trans (Reader.canUnread_of_read hr)
    exact ((Reader.told_read hr).trans (Reader.told_peek hp)).trans (told_leave hcan taken)

theorem told_openForm {result : EStateM.Result Fault Reader (Form × List Char)}
    (h : openForm c r = result) : r.Told result := by
  subst h
  rw [openForm]
  split
  · cases hp : Reader.peek r with
    | error e r₁ => exact Reader.told_peek hp
    | ok next r₁ =>
      refine (Reader.told_peek hp).trans ?_
      simp only
      split
      · cases hr : Reader.read r₁ with
        | error e r₂ => exact Reader.told_read hr
        | ok d r₂ => exact Reader.told_read hr
      · exact Reader.told_ok r₁ _
  · exact Reader.told_ok r _

theorem told_complete {form : Form} {taken : List Char}
    {result : EStateM.Result Fault Reader Lexeme} (h : complete form taken r = result) :
    r.Told result := by
  subst h
  rw [complete]
  split
  · exact Reader.told_ok r _
  · exact told_extend form false taken r

end Lexeme

/-- A lexeme without a token is a literal that cannot be decoded. -/
theorem Form.eq_notALiteral_of_token {form : Form} {x : Lexeme} {start stop : Position} {e : Fault}
    (h : form.token x start stop = .error e) : ∃ raw, e = .notALiteral raw := by
  cases form with
  | literal =>
    rw [token] at h
    split at h
    · split at h
      · exact absurd h (by simp)
      · exact ⟨_, (Except.error.inj h).symm⟩
    · exact absurd h (by simp)
  | _ => exact absurd h (by simp [token])

/-- A scan that delivers a token heard text only, and one that stops was stopped by what it heard
last, or by a lexeme that has no token. -/
theorem told_scan_or (r : Reader) :
    r.Told (scan r) ∨ ∃ raw r', scan r = .error (.notALiteral raw) r' := by
  rw [scan]
  cases hr : Reader.read r with
  | error e r₁ => exact Or.inl (Reader.told_read hr)
  | ok c r₁ =>
    cases c with
    | none => exact Or.inl (Reader.told_read hr)
    | some c =>
      simp only [scanFrom]
      cases ho : Lexeme.openForm c r₁ with
      | error e r₂ => exact Or.inl ((Reader.told_read hr).trans (Lexeme.told_openForm ho))
      | ok x r₂ =>
        obtain ⟨form, taken⟩ := x
        have hopened := (Reader.told_read hr).trans (Lexeme.told_openForm ho)
        simp only
        cases hx : Lexeme.complete form taken r₂ with
        | error e r₃ => exact Or.inl (hopened.trans (Lexeme.told_complete hx))
        | ok x r₃ =>
          simp only
          cases ht : form.token x r.position r₃.position with
          | ok t => exact Or.inl (hopened.trans (Lexeme.told_complete hx))
          | error e =>
            obtain ⟨raw, rfl⟩ := Form.eq_notALiteral_of_token ht
            exact Or.inr ⟨raw, r₃, rfl⟩

/-! ## Scanning up to a delivery that is no text -/

namespace Lexeme

/-- **Reading a lexeme on stops at a delivery that is no text**, if the end of the lexeme is to be
found behind it: all the text before it has been passed. -/
theorem extend_of_blocked {form : Form} {armed : Bool}
    (h : r.StandsAt passed coming (.blocked d rest))
    (hb : (Reach.ofForm form armed coming).beyond = true) (taken : List Char) :
    Reader.StopsAt (extend form armed taken r) (passed ++ coming) d rest := by
  fun_induction Reach.ofForm form armed coming generalizing r passed taken with
  | case1 armed =>
    obtain ⟨e, r', hread, hr'⟩ := Reader.read_blocked h
    rw [List.append_nil]
    exact ⟨e, r', by rw [extend_eq, hread], hr'⟩
  | case2 armed c cs armed' hv ih =>
    obtain ⟨r₁, hread, h₁, -⟩ := Reader.read_cons h
    obtain ⟨e, r', hext, hr'⟩ := ih h₁ hb (c :: taken)
    rw [List.append_assoc] at hr'
    refine ⟨e, r', ?_, hr'⟩
    rw [extend_eq, hread]
    simp only [hv, hext]
  | case3 armed c cs hv => exact absurd hb (by simp)
  | case4 armed c cs hv => exact absurd hb (by simp)
  | case5 armed c hv =>
    obtain ⟨r₁, hread, h₁, -⟩ := Reader.read_cons h
    obtain ⟨e, r', hpeek, hr'⟩ := Reader.peek_blocked h₁
    refine ⟨e, r', ?_, hr'⟩
    rw [extend_eq, hread]
    simp only [hv, hpeek]
  | case6 armed c hv ds ih =>
    obtain ⟨r₁, hread, h₁, -⟩ := Reader.read_cons h
    obtain ⟨r₂, hpeek, h₂, -⟩ := Reader.peek_cons h₁
    obtain ⟨r₃, hread₃, h₃, -⟩ := Reader.read_cons h₂
    obtain ⟨e, r', hext, hr'⟩ := ih h₃ hb ('\n' :: c :: taken)
    rw [List.append_assoc, List.append_assoc] at hr'
    refine ⟨e, r', ?_, hr'⟩
    rw [extend_eq, hread]
    simp only [hv, hpeek, hread₃, if_true, Option.toList_some, List.cons_append, List.nil_append,
      hext]
  | case7 armed c hv d ds hd => exact absurd hb (by simp)

end Lexeme

/-- What opens a form and reads on to a fault is a scan that stops there. -/
theorem scan_of_extend {r₁ r₂ : Reader} {form : Form} {taken : List Char} {passed' : List Char}
    (hread : Reader.read r = .ok (some c) r₁)
    (hopen : Lexeme.openForm c r₁ = .ok (form, taken) r₂) (hterm : form ≠ .terminator)
    (hstop : Reader.StopsAt (Lexeme.extend form false taken r₂) passed' d rest) :
    Reader.StopsAt (scan r) passed' d rest := by
  obtain ⟨e, r', hext, hr'⟩ := hstop
  refine ⟨e, r', ?_, hr'⟩
  rw [scan, hread]
  simp only [scanFrom, hopen, Lexeme.complete, if_neg hterm, hext]

/-- Behind a dash, a scan stops at a delivery that is no text, if the option or word that the dash
opens is not settled before it. -/
theorem scan_dash_of_blocked {r₁ : Reader} {cs : List Char}
    (hread : Reader.read r = .ok (some '-') r₁)
    (h₁ : r₁.StandsAt (passed ++ ['-']) cs (.blocked d rest))
    (hbeyond : (Reach.ofForm (Form.announced '-' cs) false cs).beyond = true) :
    Reader.StopsAt (scan r) (passed ++ '-' :: cs) d rest := by
  by_cases hd : cs.head? = some '-'
  · obtain ⟨ds, rfl⟩ := List.head?_eq_some_iff.1 hd
    rw [Form.announced_dashes, Reach.ofForm_take rfl] at hbeyond
    obtain ⟨r₂, hopen, h₂⟩ := Lexeme.openForm_two_dashes h₁
    have hstop := Lexeme.extend_of_blocked h₂ hbeyond ['-', '-']
    rw [List.append_assoc] at hstop
    exact scan_of_extend hread hopen (by decide) hstop
  · have hform : Form.announced '-' cs = .word := if_neg fun h => hd h.2
    cases cs with
    | nil =>
      obtain ⟨e, r', hpeek, hr'⟩ := Reader.peek_blocked h₁
      refine ⟨e, r', ?_, hr'⟩
      rw [scan, hread]
      simp only [scanFrom, Lexeme.openForm, if_true, hpeek]
    | cons d ds =>
      obtain ⟨r₂, hopen, h₂⟩ :=
        Lexeme.openForm_single_dash h₁ (Or.inr (List.cons_ne_nil d ds)) hd
      rw [hform] at hbeyond
      have hstop := Lexeme.extend_of_blocked h₂ hbeyond ['-']
      rw [List.append_assoc] at hstop
      exact scan_of_extend hread hopen (by decide) hstop

/-- **A scan stops at a delivery that is no text**, if the token is not settled before it. -/
theorem scan_of_blocked (h : r.StandsAt passed coming (.blocked d rest))
    (hb : beyondAt coming = true) : Reader.StopsAt (scan r) (passed ++ coming) d rest := by
  cases coming with
  | nil =>
    obtain ⟨e, r', hread, hr'⟩ := Reader.read_blocked h
    rw [List.append_nil]
    exact ⟨e, r', by rw [scan, hread], hr'⟩
  | cons c cs =>
    have hterm : Form.announced c cs ≠ .terminator := fun hterm => by
      rw [beyondAt, Reach.first, if_pos hterm] at hb
      exact absurd hb (by simp)
    have hbeyond : (Reach.ofForm (Form.announced c cs) false cs).beyond = true := by
      rw [beyondAt, Reach.first_of_ne hterm] at hb
      exact hb
    obtain ⟨r₁, hread, h₁, -⟩ := Reader.read_cons h
    by_cases hc : c = '-'
    · subst hc
      exact scan_dash_of_blocked hread h₁ hbeyond
    · have hopen := Lexeme.openForm_of_ne_dash hc cs r₁
      have hstop := Lexeme.extend_of_blocked h₁ hbeyond [c]
      rw [List.append_assoc] at hstop
      exact scan_of_extend hread hopen hterm hstop

/-! ## Calls -/

/-- **What a call comes to**, for a reader that stands behind the text passed and before the text to
come: a token that is settled, or the fault of the delivery that blocks the view of its end. -/
inductive Calls (passed coming : List Char) (z : Horizon) : Outcome → Reader → Prop where
  | token {r : Reader} : z.isOpen = true ∨ beyondAt coming = false →
      r.StandsAt (passed ++ lexemeAt coming) (restAt coming) (z.seen (beyondAt coming)) →
      Calls passed coming z (.token (tokenAt passed coming)) r
  | fault {d : Delivery} {rest : Feed} {e : Fault} {r : Reader} : z = .blocked d rest →
      beyondAt coming = true → d.fault? (.after (passed ++ coming)) = some e →
      r.StandsAt (passed ++ coming) rest.supply rest.horizon →
      Calls passed coming z (.fault e) r

/-- **Calls for a token**: what it comes to, and the reader behind it. -/
def call (r : Reader) : Outcome × Reader :=
  match scan r with
  | .ok t r => (.token t, r)
  | .error e r => (.fault e, r)

/-- **What happens in a call** is settled by where the reader stands. -/
theorem call_of_standsAt (h : r.StandsAt passed coming z) :
    Calls passed coming z (call r).1 (call r).2 := by
  have htoken (hz : z.isOpen = true ∨ beyondAt coming = false) :
      Calls passed coming z (call r).1 (call r).2 := by
    obtain ⟨r', hscan, hr'⟩ := scan_of_standsAt h hz
    rw [call, hscan]
    exact .token hz hr'
  cases hbeyond : beyondAt coming with
  | false => exact htoken (Or.inr hbeyond)
  | true =>
    cases hz : z with
    | blocked d rest =>
      subst hz
      obtain ⟨e, r', hscan, hfault, hr'⟩ := scan_of_blocked h hbeyond
      rw [call, hscan]
      exact .fault rfl hbeyond hfault hr'
    | _ => exact hz ▸ htoken (Or.inl (by rw [hz]; rfl))

/-- Every delivery can be told from a lexeme that has no token. -/
theorem Source.Delivery.fault?_ne_notALiteral {p : Position} {raw : String} (d : Delivery) :
    d.fault? p ≠ some (.notALiteral raw) := by
  cases d <;> simp [fault?]

/-- **What a call hears**, wherever its reader stands. -/
theorem told_scan (h : r.StandsAt passed coming z) : r.Told (scan r) := by
  refine (told_scan_or r).resolve_right ?_
  rintro ⟨raw, r', hscan⟩
  have hcalls := call_of_standsAt h
  rw [call, hscan] at hcalls
  cases hcalls with
  | fault _ _ hfault _ => exact Delivery.fault?_ne_notALiteral _ hfault

/-- **What a call heard**: it stops exactly if it heard something that is no text, and then that
came last, and the reader stands at the end of the text pulled. -/
structure Hears (r : Reader) (outcome : Outcome) (r' : Reader) (ds : List Delivery) : Prop extends
    r.Heard ds r' where
  stops_iff : (∃ e, outcome = .fault e) ↔ ∃ d ∈ ds, d.isText = false
  stopped : ∀ e, outcome = .fault e → ∃ texts d, ds = texts ++ [d] ∧
    (∀ t ∈ texts, t.isText = true) ∧ d.fault? r'.position = some e ∧ r'.ahead = []

/-- **Every call hears deliveries** and tells by its outcome which. -/
theorem exists_hears (h : r.StandsAt passed coming z) :
    ∃ ds, Hears r (call r).1 (call r).2 ds := by
  have htold := told_scan h
  rw [call]
  cases hscan : scan r with
  | ok t r' =>
    rw [hscan] at htold
    obtain ⟨ds, hheard, htext⟩ := htold
    exact ⟨ds, hheard, by simpa using htext, by simp⟩
  | error e r' =>
    rw [hscan] at htold
    obtain ⟨texts, d, hheard, htext, hfault, hahead⟩ := htold
    have hd : d.isText = false := Delivery.isSome_fault?_iff.1 (by rw [hfault]; rfl)
    refine ⟨texts ++ [d], hheard, ⟨fun _ => ⟨d, by simp, hd⟩, fun _ => ⟨e, rfl⟩⟩, ?_⟩
    rintro e' he
    obtain rfl := Outcome.fault.inj he
    exact ⟨texts, d, rfl, htext, hfault, hahead⟩

/-! ## A run of calls -/

/-- The reader behind a number of calls. -/
def readerAfter (r : Reader) : Nat → Reader
  | 0 => r
  | k + 1 => (call (readerAfter r k)).2

/-- **What a call comes to**, after a number of calls before it. -/
def outcomeOf (r : Reader) (k : Nat) : Outcome := (call (readerAfter r k)).1

/-- Calls behind calls. -/
theorem readerAfter_add (r : Reader) (k j : Nat) :
    readerAfter r (k + j) = readerAfter (readerAfter r k) j := by
  induction j with
  | zero => rfl
  | succ j ih => rw [Nat.add_succ, readerAfter, readerAfter, ih]

theorem outcomeOf_add (r : Reader) (k j : Nat) :
    outcomeOf r (k + j) = outcomeOf (readerAfter r k) j := by
  rw [outcomeOf, outcomeOf, readerAfter_add]

/-- **A run of calls leaves a reader somewhere in its text.** -/
theorem exists_standsAt_readerAfter (h : r.StandsAt passed coming z) (k : Nat) :
    ∃ passed' coming' z', (readerAfter r k).StandsAt passed' coming' z' := by
  induction k with
  | zero => exact ⟨passed, coming, z, h⟩
  | succ k ih =>
    obtain ⟨passed', coming', z', h'⟩ := ih
    cases hcall : call (readerAfter r k) with
    | mk outcome r' =>
      have hcalls := call_of_standsAt h'
      rw [readerAfter]
      rw [hcall] at hcalls ⊢
      cases hcalls with
      | token _ hr' => exact ⟨_, _, _, hr'⟩
      | fault _ _ _ hr' => exact ⟨_, _, _, hr'⟩

/-- The first call, and the calls behind it. -/
theorem readerAfter_succ' (r : Reader) (k : Nat) :
    readerAfter r (k + 1) = readerAfter (call r).2 k := by
  rw [Nat.add_comm, readerAfter_add]
  rfl

theorem outcomeOf_succ (r : Reader) (k : Nat) : outcomeOf r (k + 1) = outcomeOf (call r).2 k := by
  rw [outcomeOf, outcomeOf, readerAfter_succ']

/-- **What the first calls come to**, in their order. -/
def outcomesOf (r : Reader) (n : Nat) : List Outcome := (List.range n).map (outcomeOf r)

theorem outcomesOf_succ (r : Reader) (n : Nat) :
    outcomesOf r (n + 1) = (call r).1 :: outcomesOf (call r).2 n := by
  rw [outcomesOf, List.range_succ_eq_map, List.map_cons, List.map_map, outcomesOf]
  exact congrArg _ (List.map_congr_left fun k _ => outcomeOf_succ r k)

/-- What calls come to that follow on others. -/
theorem outcomesOf_add (r : Reader) (m n : Nat) :
    outcomesOf r (m + n) = outcomesOf r m ++ outcomesOf (readerAfter r m) n := by
  rw [outcomesOf, List.range_add, List.map_append, List.map_map, outcomesOf, outcomesOf]
  exact congrArg _ (List.map_congr_left fun k _ => outcomeOf_add r m k)

/-! ## Walks up to a delivery that is no text -/

/-- Whether an outcome is the last that an iterator delivers. -/
def Outcome.isLast : Outcome → Bool
  | .token t => t.isEof
  | .fault _ => true

/-- **What a walk delivers**, in order: its tokens, and the fault that stopped it if there was
one. -/
def Walk.outcomes (w : Walk) : List Outcome :=
  w.tokens.map .token ++ w.fault?.toList.map .fault

/-- **A walk is a run of calls.** -/
theorem outcomes_walk (r : Reader) :
    (walk r).outcomes = outcomesOf r (walk r).outcomes.length ∧
      (walk r).reader = readerAfter r (walk r).outcomes.length := by
  fun_induction walk r with
  | case1 r e r' hs =>
    have hcall : call r = (.fault e, r') := by rw [call, hs]
    exact ⟨congrArg ([·]) (congrArg Prod.fst hcall).symm, (congrArg Prod.snd hcall).symm⟩
  | case2 r t r' hs ht =>
    have hcall : call r = (.token t, r') := by rw [call, hs]
    exact ⟨congrArg ([·]) (congrArg Prod.fst hcall).symm, (congrArg Prod.snd hcall).symm⟩
  | case3 r t r' hs ht ih =>
    have hcall : call r = (.token t, r') := by rw [call, hs]
    have houtcomes : ((walk r').cons (stepOf t r r')).outcomes
        = .token t :: (walk r').outcomes := rfl
    rw [houtcomes, List.length_cons, outcomesOf_succ, readerAfter_succ', hcall, ← ih.1]
    exact ⟨rfl, ih.2⟩

namespace Session

theorem perform_scan (s : Session) : perform .scan s
    = (.ofOutcome? (some (call s.reader).1), { s with reader := (call s.reader).2 }) := by
  rw [perform, call]
  cases ConfigScript.scan s.reader <;> rfl

/-- **Asking a session for tokens past all iterators** is a run of calls. -/
theorem performAll_replicate_scan (k : Nat) (s : Session) :
    performAll (List.replicate k .scan) s
      = ((outcomesOf s.reader k).map (.ofOutcome? ∘ some),
        { s with reader := readerAfter s.reader k }) := by
  induction k generalizing s with
  | zero => rfl
  | succ k ih =>
    rw [List.replicate_succ, performAll, perform_scan]
    simp only [ih, outcomesOf_succ, readerAfter_succ', List.map_cons, Function.comp_apply]

end Session

end ConfigScript
