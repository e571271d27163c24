import ConfigScript.Proofs.Lexis.Calls
import ConfigScript.Proofs.Lexis.Lossless
import ConfigScript.Proofs.Lexis.Unclosed

/-!
# Proofs/Lexis/Absorbing — behind the end of a text nothing happens

The end token, and a token that is invalid, are **final**: what delivers them has seen the end of
the feed and passed all of the text (`standsAt_of_isFinal`).  A reader that stands there delivers
the end token for ever, asks for nothing and stays as it is (`readerAfter_of_known`).  The main
statement, `absorbing_of_isNew`, says so of every run of calls over a new reader, whatever its feed
delivers, and what follows for a walk and for what the feed answered before.
-/

namespace ConfigScript

open Source (Reader Fault Feed Delivery Horizon)

variable {r r' : Reader} {passed coming : List Char} {z : Horizon} {t : Token} {k : Nat}

/-! ## New readers -/

/-- A new reader stands before its text. -/
theorem exists_standsAt_of_isNew (h : r.IsNew) : ∃ coming z, r.StandsAt [] coming z := by
  cases h with
  | ofText cs => exact ⟨cs, _, Reader.standsAt_ofText cs⟩
  | ofFeed feed hchunk => exact ⟨_, _, Reader.standsAt_ofFeed feed _ hchunk⟩

/-! ## Where nothing is to come -/

namespace Source

/-- A feed does not know whether it was asked behind its end. -/
theorem Feed.horizon_ne_known (feed : Feed) : feed.horizon ≠ .known := by
  intro h
  have hclear : feed.horizon = .clear := Feed.horizon_of_isOpen (by rw [h]; rfl)
  exact absurd (h.symm.trans hclear) (by simp)

/-- **The end is known** to a reader that was answered with no text. -/
theorem Reader.StandsAt.exhausted_eq (h : r.StandsAt passed coming .known) :
    r.exhausted = true := by
  cases hex : r.exhausted with
  | true => rfl
  | false =>
    have hz := h.horizon_eq
    rw [Reader.horizon, hex, if_neg Bool.false_ne_true] at hz
    exact absurd hz (Feed.horizon_ne_known r.feed)

end Source

/-- A scan behind the end of a text. -/
theorem scan_of_known (h : r.StandsAt passed [] .known) :
    scan r = .ok (endToken passed) { r with canUnread := false } := by
  have hahead : r.ahead = [] := (List.append_eq_nil_iff.1 h.coming_eq).1
  have hget : r.buffer[r.cursor]? = none := by rw [Reader.getElem?_cursor, hahead, List.head?_nil]
  have hpeek : Reader.peek r = .ok none r := by
    simp only [Reader.peek, hget, Reader.fill_of_exhausted h.exhausted_eq]
  have hpos : Reader.position { r with canUnread := false } = .after passed := h.position_eq
  rw [scan, Reader.read, hpeek]
  simp only [h.position_eq, hpos]
  rfl

/-- **Behind the end of a text a run of calls stays where it is.** -/
theorem readerAfter_of_known (h : r.StandsAt passed [] .known) (j : Nat) :
    readerAfter r (j + 1) = { r with canUnread := false } ∧
      outcomeOf r j = .token (endToken passed) := by
  have hcall (s : Reader) (hs : s.StandsAt passed [] .known) :
      call s = (.token (endToken passed), { s with canUnread := false }) := by
    rw [call, scan_of_known hs]
  have hstays : Reader.StandsAt { r with canUnread := false } passed [] .known :=
    ⟨⟨h.chunk_pos, h.cursor_le, h.lists, by simp⟩, h.consumed_eq, h.coming_eq, h.horizon_eq⟩
  induction j with
  | zero => exact ⟨congrArg Prod.snd (hcall r h), congrArg Prod.fst (hcall r h)⟩
  | succ j ih =>
    rw [outcomeOf, readerAfter, ih.1, hcall _ hstays]
    exact ⟨rfl, rfl⟩

/-! ## Final tokens -/

/-- **The tokens behind which nothing is to come.** -/
def Token.isFinal (t : Token) : Bool := t.isEof || t.kind == .invalid

/-- **The end token that follows** a final token. -/
def Token.endBehind (t : Token) : Token := ⟨.eof, "", t.stop, t.stop, none⟩

/-- The end of a literal that is never closed is to be found behind the text. -/
theorem Reach.beyond_of_not_closed (cs : List Char)
    (h : (ofForm .literal false cs).ending ≠ .closed) :
    (ofForm .literal false cs).beyond = true := by
  induction cs using literal_induction with
  | nil | dangling => rfl
  | pair c cs ih =>
    rw [literal_pair] at h ⊢
    exact ih h
  | quote cs => exact absurd (by rw [literal_quote]) h
  | plain c cs hb hq ih =>
    rw [literal_plain hb hq] at h ⊢
    exact ih h

/-- **An invalid token takes all that is to come**, and is settled by a look behind it. -/
theorem of_frontOf_invalid (h : (frontOf coming).kind = .invalid) :
    lexemeAt coming = coming ∧ beyondAt coming = true := by
  obtain ⟨cs, rfl, hfront⟩ := frontOf_of_invalid h
  refine ⟨by rw [lexemeAt, hfront], ?_⟩
  have hopen : (Reach.ofForm .literal false cs).ending ≠ .closed := fun hend => by
    have hword : (frontOf ('"' :: cs)).kind = .word := by
      have hform : frontOf ('"' :: cs)
          = Form.literal.front ((Reach.ofForm .literal false cs).cons '"').toLexeme := rfl
      rw [hform, Form.front, Reach.ending_cons, if_pos hend]
    exact absurd (h.symm.trans hword) (by decide)
  exact Reach.beyond_of_not_closed cs hopen

/-- **A call that delivers a final token passes all of the text**, and the end is known behind
it. -/
theorem standsAt_of_isFinal (h : Calls passed coming z (.token t) r') (ht : t.isFinal = true) :
    r'.StandsAt (passed ++ coming) [] .known ∧ t.stop = .after (passed ++ coming) := by
  cases h with
  | token hz hr' =>
    have hall : lexemeAt coming = coming ∧ beyondAt coming = true := by
      rw [Token.isFinal, isEof_tokenAt, Bool.or_eq_true, beq_iff_eq, List.isEmpty_iff] at ht
      rcases ht with rfl | hkind
      · exact ⟨rfl, rfl⟩
      · exact of_frontOf_invalid hkind
    have hopen : z.isOpen = true := hz.resolve_right (by simp [hall.2])
    have hknown : z.seen (beyondAt coming) = .known := by
      rw [hall.2]
      exact Horizon.asked_of_isOpen hopen
    rw [hknown, restAt, hall.1, List.drop_length] at hr'
    exact ⟨hr', congrArg (fun x => Position.after (passed ++ x)) hall.1⟩

/-! ## Runs of calls and walks over new readers -/

/-- **What final tokens settle** in a run of calls. -/
structure Absorbing (start : Reader) : Prop where
  /-- behind a final token come end tokens only, nothing is asked for, and the text stays -/
  absorbs : ∀ k t, outcomeOf start k = .token t → t.isFinal = true → ∀ j,
    outcomeOf start (k + 1 + j) = .token t.endBehind ∧
      (readerAfter start (k + 1 + j)).feed = (readerAfter start (k + 1)).feed ∧
      (readerAfter start (k + 1 + j)).requests = (readerAfter start (k + 1)).requests ∧
      (readerAfter start (k + 1 + j)).text = (readerAfter start (k + 1)).text
  /-- a walk delivers one invalid token at most, no fault stops it then, and the end follows -/
  single : ∀ t ∈ (walk start).tokens, t.kind = .invalid → (walk start).fault? = none ∧
    ∃ init, (walk start).tokens = init ++ [t, t.endBehind] ∧ ∀ u ∈ init, u.kind ≠ .invalid
  /-- a final token comes only after the feed answered with no text, or where the whole text was
  there at once -/
  answered : ∀ k t, outcomeOf start k = .token t → t.isFinal = true →
    ∃ ds, start.Heard ds (readerAfter start (k + 1)) ∧
      (start.exhausted = true ∨ ds.getLast? = some (.text []))
  /-- and no fault has a part in it -/
  unfailing : ∀ k t, outcomeOf start k = .token t → t.isFinal = true →
    ∃ ds, (readerAfter start k).Heard ds (readerAfter start (k + 1)) ∧
      ∀ d ∈ ds, d.isText = true

/-- What was heard in a run of calls. -/
theorem exists_heard_readerAfter (h : r.StandsAt passed coming z) (k : Nat) :
    ∃ ds, r.Heard ds (readerAfter r k) := by
  induction k with
  | zero => exact ⟨[], .refl r⟩
  | succ k ih =>
    obtain ⟨ds, hds⟩ := ih
    obtain ⟨passed', coming', z', hk⟩ := exists_standsAt_readerAfter h k
    obtain ⟨es, hes⟩ := exists_hears hk
    exact ⟨ds ++ es, hds.trans hes.toHeard⟩

/-- The place behind a final token of a run. -/
theorem exists_known_of_isFinal (h : r.StandsAt passed coming z)
    (ht : outcomeOf r k = .token t) (hfinal : t.isFinal = true) :
    ∃ passed', (readerAfter r (k + 1)).StandsAt passed' [] .known ∧ t.stop = .after passed' := by
  obtain ⟨passed', coming', z', hk⟩ := exists_standsAt_readerAfter h k
  have hcalls := call_of_standsAt hk
  rw [← readerAfter, ← outcomeOf, ht] at hcalls
  exact ⟨_, standsAt_of_isFinal hcalls hfinal⟩

/-- **A walk delivers one invalid token at most**, and then the end token. -/
theorem walk_of_invalid (h : r.StandsAt passed coming z) (ht : t ∈ (walk r).tokens)
    (hkind : t.kind = .invalid) : (walk r).fault? = none ∧
      ∃ init, (walk r).tokens = init ++ [t, t.endBehind] ∧ ∀ u ∈ init, u.kind ≠ .invalid := by
  fun_induction walk r generalizing passed coming z with
  | case1 r e r' hs => exact absurd ht List.not_mem_nil
  | case2 r u r' hs heof =>
    obtain rfl : t = u := List.mem_singleton.1 ht
    rw [Token.isEof, hkind] at heof
    exact absurd heof (by decide)
  | case3 r u r' hs hne ih =>
    have hcalls := call_of_standsAt h
    rw [call, hs] at hcalls
    have htokens : ((walk r').cons (stepOf u r r')).tokens = u :: (walk r').tokens := rfl
    rw [htokens] at ht ⊢
    by_cases hu : u.kind = .invalid
    · -- the end is known behind an invalid token, so the walk has one step left
      obtain ⟨hknown, hstop⟩ := standsAt_of_isFinal hcalls (by simp [Token.isFinal, hu])
      have hend : endToken (passed ++ coming) = u.endBehind := by rw [Token.endBehind, hstop]; rfl
      have hwalk : (walk r').tokens = [u.endBehind] ∧ (walk r').fault? = none := by
        rw [walk_eq, scan_of_known hknown, ← hend]
        exact ⟨rfl, rfl⟩
      have htu : t = u := by
        rw [hwalk.1, List.mem_cons, List.mem_singleton] at ht
        refine ht.resolve_right fun he => ?_
        rw [he] at hkind
        exact absurd hkind (by simp [Token.endBehind])
      subst htu
      exact ⟨hwalk.2, [], by rw [hwalk.1, List.nil_append], List.forall_mem_nil _⟩
    · have ht' : t ∈ (walk r').tokens :=
        (List.mem_cons.1 ht).resolve_left fun he => hu (he ▸ hkind)
      obtain ⟨passed', coming', z', hr'⟩ : ∃ p c z, r'.StandsAt p c z := by
        cases hcalls with
        | token _ hr' => exact ⟨_, _, _, hr'⟩
      obtain ⟨hfault, init, hinit, hne⟩ := ih hr' ht'
      exact ⟨hfault, u :: init, by rw [hinit, List.cons_append],
        List.forall_mem_cons.2 ⟨hu, hne⟩⟩

/-- **Behind a final token a run of calls over a new reader stays at the end**, whatever the feed
would deliver. -/
theorem absorbing_of_isNew {start : Reader} (h : start.IsNew) : Absorbing start := by
  obtain ⟨coming, z, hstart⟩ := exists_standsAt_of_isNew h
  refine ⟨fun k t ht hfinal j => ?_, fun t => walk_of_invalid hstart, fun k t ht hfinal => ?_,
    fun k t ht hfinal => ?_⟩
  · obtain ⟨passed, hknown, hstop⟩ := exists_known_of_isFinal hstart ht hfinal
    have houtcome := (readerAfter_of_known hknown j).2
    rw [outcomeOf_add, houtcome, Token.endBehind, hstop, readerAfter_add]
    cases j with
    | zero => exact ⟨rfl, rfl, rfl, rfl⟩
    | succ j =>
      rw [(readerAfter_of_known hknown j).1]
      exact ⟨rfl, rfl, rfl, rfl⟩
  · obtain ⟨passed, hknown, -⟩ := exists_known_of_isFinal hstart ht hfinal
    obtain ⟨ds, hds⟩ := exists_heard_readerAfter hstart (k + 1)
    exact ⟨ds, hds, hds.exhausted_iff.1 hknown.exhausted_eq⟩
  · obtain ⟨passed, coming, z, hk⟩ := exists_standsAt_readerAfter hstart k
    obtain ⟨ds, hds⟩ := exists_hears hk
    rw [← readerAfter, ← outcomeOf, ht] at hds
    refine ⟨ds, hds.toHeard, fun d hd => ?_⟩
    by_contra htext
    obtain ⟨e, he⟩ := hds.stops_iff.2 ⟨d, hd, by simpa using htext⟩
    exact absurd he (by simp)

/-- A literal that a failure interrupts and that is open again behind it, before an empty text and a
delivery that is never asked for. -/
theorem absorbing_of_isNew_interrupted :
    Absorbing (.ofFeed (.script [.text ['"', 'a'], .failure ⟨some 5, "Input/output error"⟩,
      .text ['"', 'b'], .text [], .text ['c']]) 1) :=
  absorbing_of_isNew (.ofFeed _ Nat.one_pos)

end ConfigScript
