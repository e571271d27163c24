import ConfigScript.Proofs.Source.Transparency

/-!
# Proofs/Source/Retracing — what the calls made tell of a reader

A reader remembers by one flag whether a character may be pushed back.  The main statement,
`retraces_of_isNew`, says what the flag stands for, in terms of the calls made and of nothing else:
a character may be pushed back exactly if the last call that counts gave it.  Reads that gave an
answer and pushbacks that were not refused count; looks at the next character, refusals and what the
feed let fail do not.  Whatever the feed delivers, the characters read, less those pushed back, are
the text passed.

The engine is `steps_perform`, the ways in which an operation can end, and with it the invariant
`Tells` between the calls made and the reader behind them.
-/

namespace ConfigScript.Source.Reader

variable {start r r' : Reader} {op : Op} {ops before between : List Op} {c : Char}

/-! ## Runs of operations and their calls -/

/-- The reader behind a run of operations. -/
def afterAll (ops : List Op) (r : Reader) : Reader := ops.foldl (fun r op => (perform op r).2) r

theorem afterAll_append (ops more : List Op) (r : Reader) :
    afterAll (ops ++ more) r = afterAll more (afterAll ops r) := List.foldl_append

theorem afterAll_concat (ops : List Op) (op : Op) (r : Reader) :
    afterAll (ops ++ [op]) r = (perform op (afterAll ops r)).2 := afterAll_append ops [op] r

/-- **Operations lead to the reader behind them.** -/
theorem leads_afterAll (ops : List Op) (r : Reader) : r.Leads (afterAll ops r) := by
  induction ops using List.reverseRecOn with
  | nil => exact .refl r
  | append_singleton ops op ih =>
    rw [afterAll_concat]
    exact ih.perform op

/-- **The calls of a run**: its operations, each with its answer. -/
def history (ops : List Op) (r : Reader) : List (Op × Answer) :=
  ops.zip ((performAll ops r).map Prod.fst)

theorem history_cons (op : Op) (ops : List Op) (r : Reader) :
    history (op :: ops) r = (op, (perform op r).1) :: history ops (perform op r).2 := rfl

theorem history_append (ops more : List Op) (r : Reader) :
    history (ops ++ more) r = history ops r ++ history more (afterAll ops r) := by
  induction ops generalizing r with
  | nil => rfl
  | cons op ops ih => rw [List.cons_append, history_cons, history_cons, ih, List.cons_append,
      afterAll, afterAll, List.foldl_cons]

theorem history_concat (ops : List Op) (op : Op) (r : Reader) :
    history (ops ++ [op]) r = history ops r ++ [(op, (perform op (afterAll ops r)).1)] :=
  history_append ops [op] r

/-! ## What the calls tell -/

/-- **The calls that count** for a pushback: reads that gave an answer, be it the end, and pushbacks
that were not refused. -/
def counts : Op × Answer → Bool
  | (.read, .char _) | (.unread, .done) => true
  | _ => false

/-- What a call leaves of the characters read before it. -/
def retrace (cs : List Char) : Op × Answer → List Char
  | (.read, .char (some c)) => cs ++ [c]
  | (.unread, .done) => cs.dropLast
  | _ => cs

/-- **The characters read**, where each pushback takes back the last of them. -/
def netRead (calls : List (Op × Answer)) : List Char := calls.foldl retrace []

/-- **A character may be pushed back** by the calls made: the last that counts gave one. -/
def MayRetrace (calls : List (Op × Answer)) (c : Char) : Prop :=
  (calls.filter counts).getLast? = some (.read, .char (some c))

theorem retrace_of_not_counts {x : Op × Answer} (h : counts x = false) (cs : List Char) :
    retrace cs x = cs := by
  unfold retrace
  split
  · exact absurd h (by simp [counts])
  · exact absurd h (by simp [counts])
  · rfl

/-- Calls that do not count change nothing in what was read. -/
theorem foldl_retrace_of_not_counts {calls : List (Op × Answer)}
    (h : ∀ x ∈ calls, counts x = false) (cs : List Char) : calls.foldl retrace cs = cs := by
  induction calls with
  | nil => rfl
  | cons x calls ih =>
    obtain ⟨hx, hcalls⟩ := List.forall_mem_cons.1 h
    rw [List.foldl_cons, retrace_of_not_counts hx, ih hcalls]

theorem mayRetrace_concat_of_counts {calls : List (Op × Answer)} {x : Op × Answer}
    (h : counts x = true) : MayRetrace (calls ++ [x]) c ↔ x = (.read, .char (some c)) := by
  rw [MayRetrace, List.filter_append, List.filter_singleton, h, cond_true, List.getLast?_concat,
    Option.some.injEq]

theorem mayRetrace_concat_of_not_counts {calls : List (Op × Answer)} {x : Op × Answer}
    (h : counts x = false) : MayRetrace (calls ++ [x]) c ↔ MayRetrace calls c := by
  rw [MayRetrace, List.filter_append, List.filter_singleton, h, cond_false, List.append_nil,
    MayRetrace]

/-! ## The ways in which an operation can end -/

/-- **What an operation comes to** for the text passed and for the right to push back. -/
inductive Steps (r : Reader) : Op → Answer → Reader → Prop
  | taken {s : Reader} {c : Char} : s.consumed = r.consumed ++ [c] → s.canUnread = true →
      Steps r .read (.char (some c)) s
  | over {s : Reader} : s.consumed = r.consumed → s.canUnread = false →
      Steps r .read (.char none) s
  | returned {s : Reader} {c : Char} : r.canUnread = true → r.consumed = s.consumed ++ [c] →
      s.canUnread = false → s.text = r.text → Steps r .unread .done s
  | unmoved {op : Op} {a : Answer} {s : Reader} : counts (op, a) = false →
      (op = .unread → r.canUnread = false) → s.consumed = r.consumed →
      s.canUnread = r.canUnread → Steps r op a s

theorem standsAt_self (h : r.Sound) : r.StandsAt r.consumed r.coming r.horizon :=
  ⟨h, rfl, rfl, rfl⟩

theorem steps_read (h : r.Sound) : r.Steps .read (perform .read r).1 (perform .read r).2 := by
  have hstands := standsAt_self h
  rw [perform_read]
  rcases hcoming : r.coming with _ | ⟨c, cs⟩ <;> rw [hcoming] at hstands
  · rcases hz : r.horizon with _ | _ | ⟨d, rest⟩ <;> rw [hz] at hstands
    case blocked =>
      obtain ⟨e, r', hread, -⟩ := read_blocked hstands
      obtain ⟨feed, rfl⟩ := eq_requested_of_peek (read_eq_error_iff.1 hread)
      rw [hread]
      exact .unmoved rfl (fun he => absurd he (by simp)) rfl rfl
    all_goals
      obtain ⟨r', hread, hr'⟩ := read_nil hstands rfl
      rw [hread]
      exact .over hr'.consumed_eq (canUnread_of_read_none hread)
  · obtain ⟨r', hread, hr', hcan⟩ := read_cons hstands
    rw [hread]
    exact .taken hr'.consumed_eq hcan

theorem steps_peek (h : r.Sound) : r.Steps .peek (perform .peek r).1 (perform .peek r).2 := by
  have hstands := standsAt_self h
  rw [perform_peek]
  rcases hcoming : r.coming with _ | ⟨c, cs⟩ <;> rw [hcoming] at hstands
  · rcases hz : r.horizon with _ | _ | ⟨d, rest⟩ <;> rw [hz] at hstands
    case blocked =>
      obtain ⟨e, r', hpeek, -⟩ := peek_blocked hstands
      obtain ⟨feed, rfl⟩ := eq_requested_of_peek hpeek
      rw [hpeek]
      exact .unmoved rfl (fun he => absurd he (by simp)) rfl rfl
    all_goals
      obtain ⟨r', hpeek, hr', hcan⟩ := peek_nil hstands rfl
      rw [hpeek]
      exact .unmoved rfl (fun he => absurd he (by simp)) hr'.consumed_eq hcan
  · obtain ⟨r', hpeek, hr', hcan, -⟩ := peek_cons hstands
    rw [hpeek]
    exact .unmoved rfl (fun he => absurd he (by simp)) hr'.consumed_eq hcan

theorem perform_unread_of_refused (h : r.canUnread = false) :
    perform .unread r = (.fault (.hard .nothingRead r.position), r) := by
  rw [perform, unread, if_neg (by simp [h])]

theorem steps_unread (h : r.Sound) :
    r.Steps .unread (perform .unread r).1 (perform .unread r).2 := by
  rcases hcan : r.canUnread with _ | _
  · rw [perform_unread_of_refused hcan]
    exact .unmoved rfl (fun _ => hcan) rfl rfl
  · have hne : r.consumed ≠ [] := by
      intro hnil
      have hpos := h.cursor_pos hcan
      rw [← length_consumed h, hnil] at hpos
      exact absurd hpos (by simp)
    obtain ⟨init, c, hinit⟩ := (List.eq_nil_or_concat' r.consumed).resolve_left hne
    have hstands := standsAt_self h
    rw [hinit] at hstands
    obtain ⟨r', hunread, hr'⟩ := unread_of_standsAt hstands hcan
    have htext : r'.text = r.text := by
      rw [unread, if_pos hcan] at hunread
      obtain ⟨-, rfl⟩ := EStateM.Result.ok.inj hunread
      rfl
    rw [perform, hunread]
    exact .returned hcan (by rw [hinit, hr'.consumed_eq]) (canUnread_of_unread hunread) htext

/-- **There is no other way for an operation to end.** -/
theorem steps_perform (op : Op) (h : r.Sound) : r.Steps op (perform op r).1 (perform op r).2 := by
  rcases op with _ | _ | _ | _ | _
  · exact steps_read h
  · exact steps_peek h
  · exact steps_unread h
  · exact .unmoved rfl (fun he => absurd he (by simp)) rfl rfl
  · exact .unmoved rfl (fun he => absurd he (by simp)) rfl rfl

/-! ## The calls made and the reader behind them -/

/-- **What the calls made tell of the reader behind them**: the text that it has passed, and whether
it may push back. -/
structure Tells (calls : List (Op × Answer)) (r : Reader) : Prop where
  netRead_eq : netRead calls = r.consumed
  canUnread_iff : r.canUnread = true ↔ ∃ c, MayRetrace calls c

theorem Tells.step {calls : List (Op × Answer)} {a : Answer} (h : Tells calls r)
    (hstep : r.Steps op a r') : Tells (calls ++ [(op, a)]) r' := by
  have hnet : netRead (calls ++ [(op, a)]) = retrace r.consumed (op, a) := by
    rw [netRead, List.foldl_append, ← netRead, h.netRead_eq]
    rfl
  rcases hstep with ⟨htaken, hcan⟩ | ⟨hover, hcan⟩ | ⟨-, hback, hcan, -⟩ | ⟨hcounts, -, hstay, hcan⟩
  · refine ⟨by rw [hnet, htaken]; rfl, fun _ => ⟨_, (mayRetrace_concat_of_counts rfl).2 rfl⟩,
      fun _ => hcan⟩
  · refine ⟨by rw [hnet, hover]; rfl, fun hyes => absurd (hcan.symm.trans hyes) (by simp), ?_⟩
    rintro ⟨c, hc⟩
    exact absurd ((mayRetrace_concat_of_counts rfl).1 hc) (by simp)
  · refine ⟨by rw [hnet, hback]; exact List.dropLast_concat,
      fun hyes => absurd (hcan.symm.trans hyes) (by simp), ?_⟩
    rintro ⟨c, hc⟩
    exact absurd ((mayRetrace_concat_of_counts rfl).1 hc) (by simp)
  · refine ⟨by rw [hnet, retrace_of_not_counts hcounts, hstay], ?_⟩
    simp only [hcan, h.canUnread_iff, mayRetrace_concat_of_not_counts hcounts]

/-- **What the calls of a run tell**, whatever the feed delivers in it. -/
theorem tells_history (hnew : start.IsNew) (ops : List Op) :
    Tells (history ops start) (afterAll ops start) := by
  induction ops using List.reverseRecOn with
  | nil =>
    rcases hnew with ⟨cs⟩ | ⟨feed, hchunk⟩
    all_goals exact ⟨rfl, by simp [afterAll, history, MayRetrace, ofText, ofFeed, append]⟩
  | append_singleton ops op ih =>
    have hsound := (leads_afterAll ops start).keeps.sound hnew.sound
    rw [history_concat, afterAll_concat]
    exact ih.step (steps_perform op hsound)

/-! ## Going back -/

/-- The read that gave the character that may be pushed back. -/
theorem exists_read_of_mayRetrace (h : MayRetrace (history ops start) c) :
    ∃ before between, ops = before ++ .read :: between ∧
      (perform .read (afterAll before start)).1 = .char (some c) ∧
      ∀ x ∈ history between (afterAll (before ++ [.read]) start), counts x = false := by
  induction ops using List.reverseRecOn with
  | nil => exact absurd h (by simp [MayRetrace, history])
  | append_singleton ops op ih =>
    rw [history_concat] at h
    rcases hcounts : counts (op, (perform op (afterAll ops start)).1) with _ | _
    · rw [mayRetrace_concat_of_not_counts hcounts] at h
      obtain ⟨before, between, rfl, hread, hbetween⟩ := ih h
      refine ⟨before, between ++ [op], by rw [List.append_assoc, List.cons_append], hread, ?_⟩
      rw [List.append_cons, afterAll_append] at hcounts
      rw [history_concat]
      exact List.forall_mem_append.2 ⟨hbetween, List.forall_mem_singleton.2 hcounts⟩
    · rw [mayRetrace_concat_of_counts hcounts, Prod.mk.injEq] at h
      obtain ⟨rfl, hread⟩ := h
      exact ⟨ops, [], rfl, hread, List.forall_mem_nil _⟩

/-- **Between a read and its pushback** the text passed is the one before the read and the
character. -/
theorem consumed_afterAll_of_between (hnew : start.IsNew)
    (hread : (perform .read (afterAll before start)).1 = .char (some c))
    (hbetween : ∀ x ∈ history between (afterAll (before ++ [.read]) start), counts x = false) :
    (afterAll (before ++ .read :: between) start).consumed
      = (afterAll before start).consumed ++ [c] := by
  rw [← (tells_history hnew before).netRead_eq, ← (tells_history hnew _).netRead_eq,
    List.append_cons, history_append, history_concat, netRead, List.foldl_append,
    foldl_retrace_of_not_counts hbetween, List.foldl_append, ← netRead, hread]
  rfl

/-- **Without a read nothing moves** where nothing may be pushed back. -/
theorem consumed_afterAll_of_notMem_read (h : r.Sound) (hcan : r.canUnread = false)
    (hops : .read ∉ ops) : (afterAll ops r).consumed = r.consumed := by
  induction ops generalizing r with
  | nil => rfl
  | cons op ops ih =>
    rw [List.mem_cons, not_or] at hops
    have hstep := steps_perform op h
    have hsound := (keeps_perform op r).sound h
    rw [afterAll, List.foldl_cons, ← afterAll]
    generalize (perform op r).1 = a, (perform op r).2 = r' at hstep hsound ⊢
    rcases hstep with _ | _ | ⟨hyes, -⟩ | ⟨-, -, hstay, hcan'⟩
    · exact absurd rfl hops.1
    · exact absurd rfl hops.1
    · exact absurd (hcan.symm.trans hyes) Bool.false_ne_true
    · rw [ih hsound (hcan'.trans hcan) hops.2, hstay]

/-- A character that was pulled and stands behind the text passed is the next one. -/
theorem next_eq_of_text {cs : List Char} (h : r.text = r.consumed ++ c :: cs)
    (hop : op = .read ∨ op = .peek) : (perform op r).1 = .char (some c) := by
  have hahead : r.ahead = c :: cs := by
    rw [← consumed_append_ahead] at h
    exact List.append_cancel_left h
  have hpeek : peek r = .ok (some c) r := by
    rw [peek, getElem?_cursor, hahead, List.head?_cons]
  rcases hop with rfl | rfl
  · rw [perform_read, read, hpeek]
    rfl
  · rw [perform_peek, hpeek]
    rfl

/-- **A character that was pushed back comes next**, until it is read. -/
theorem next_eq_of_returned (hback : r.consumed = r'.consumed ++ [c])
    (htext : r'.text = r.text) (hcan : r'.canUnread = false) (hr' : r'.Sound)
    (hops : .read ∉ ops) (hop : op = .read ∨ op = .peek) :
    (perform op (afterAll ops r')).1 = .char (some c) := by
  obtain ⟨more, hmore⟩ := (leads_afterAll ops r').keeps.isPrefix_text
  have hnext : (afterAll ops r').text = (afterAll ops r').consumed ++ c :: (r.ahead ++ more) := by
    rw [consumed_afterAll_of_notMem_read hr' hcan hops, ← hmore, htext, ← r.consumed_append_ahead,
      hback, List.append_assoc, List.append_assoc, List.singleton_append]
  exact next_eq_of_text hnext hop

/-! ## The law of pushing back -/

/-- **What pushing back comes to** behind any run of calls. -/
structure Retraces (start : Reader) : Prop where
  /-- it succeeds exactly if the last call that counts is a read that gave a character -/
  succeeds_iff : ∀ ops, (perform .unread (afterAll ops start)).1 = .done ↔
    ∃ c, MayRetrace (history ops start) c
  /-- then the reader is back where it was before that read, one character before, and the
  character comes next, whatever is called before it is read again -/
  back : ∀ ops, (perform .unread (afterAll ops start)).1 = .done →
    ∃ before between c, ops = before ++ .read :: between ∧
      (perform .read (afterAll before start)).1 = .char (some c) ∧
      (∀ x ∈ history between (afterAll (before ++ [.read]) start), counts x = false) ∧
      (afterAll (ops ++ [.unread]) start).cursor + 1 = (afterAll ops start).cursor ∧
      (afterAll (ops ++ [.unread]) start).cursor = (afterAll before start).cursor ∧
      (afterAll (ops ++ [.unread]) start).position = (afterAll before start).position ∧
      ∀ more, .read ∉ more → ∀ op, op = .read ∨ op = .peek →
        (perform op (afterAll (ops ++ .unread :: more) start)).1 = .char (some c)
  /-- else it is refused where the reader stands, and nothing changes -/
  refused : ∀ ops, (perform .unread (afterAll ops start)).1 ≠ .done →
    perform .unread (afterAll ops start)
      = (.fault (.hard .nothingRead (afterAll ops start).position), afterAll ops start)
  /-- the characters read, less those pushed back, are the text up to the cursor -/
  consumed : ∀ ops, netRead (history ops start) = (afterAll ops start).consumed ∧
    (netRead (history ops start)).length = (afterAll ops start).cursor

theorem perform_unread_eq_done_iff (r : Reader) :
    (perform .unread r).1 = .done ↔ r.canUnread = true := by
  rw [perform, unread]
  split_ifs with hcan <;> simp [hcan]

/-- **A pushback leads back to before the read** that gave the character. -/
theorem exists_back (hnew : start.IsNew) (h : MayRetrace (history ops start) c) :
    ∃ before between, ops = before ++ .read :: between ∧
      (perform .read (afterAll before start)).1 = .char (some c) ∧
      (∀ x ∈ history between (afterAll (before ++ [.read]) start), counts x = false) ∧
      (afterAll ops start).consumed = (afterAll before start).consumed ++ [c] ∧
      (afterAll (ops ++ [.unread]) start).consumed = (afterAll before start).consumed := by
  obtain ⟨before, between, rfl, hread, hbetween⟩ := exists_read_of_mayRetrace h
  have hconsumed := consumed_afterAll_of_between hnew hread hbetween
  refine ⟨before, between, rfl, hread, hbetween, hconsumed, ?_⟩
  have htells := tells_history hnew (before ++ .read :: between)
  have hcan := htells.canUnread_iff.2 ⟨c, h⟩
  have hdone := (perform_unread_eq_done_iff _).2 hcan
  rw [← (tells_history hnew _).netRead_eq, history_concat, hdone, netRead, List.foldl_append,
    ← netRead, htells.netRead_eq, hconsumed]
  exact List.dropLast_concat

/-- **Every reader in use retraces its reads**, of a text or of a feed that may fail in between. -/
theorem retraces_of_isNew (hnew : start.IsNew) : Retraces start := by
  have hsound (ops : List Op) : (afterAll ops start).Sound :=
    (leads_afterAll ops start).keeps.sound hnew.sound
  have hcursor (ops : List Op) : (afterAll ops start).cursor
      = (afterAll ops start).consumed.length := (length_consumed (hsound ops)).symm
  have hdone (ops : List Op) : (perform .unread (afterAll ops start)).1 = .done ↔
      ∃ c, MayRetrace (history ops start) c := by
    rw [perform_unread_eq_done_iff, (tells_history hnew ops).canUnread_iff]
  refine ⟨hdone, fun ops hops => ?_, fun ops hops => ?_, fun ops => ?_⟩
  · obtain ⟨c, hc⟩ := (hdone ops).1 hops
    obtain ⟨before, between, hsplit, hread, hbetween, hconsumed, hback⟩ := exists_back hnew hc
    refine ⟨before, between, c, hsplit, hread, hbetween, ?_, ?_, ?_, fun more hmore op hop => ?_⟩
    · rw [hcursor, hcursor, hback, hconsumed, List.length_append, List.length_singleton]
    · rw [hcursor, hcursor, hback]
    · rw [(standsAt_self (hsound _)).position_eq, (standsAt_self (hsound _)).position_eq, hback]
    · have hstep := steps_unread (hsound ops)
      rw [List.append_cons, afterAll_append]
      rw [← afterAll_concat, hops] at hstep
      rw [← hback] at hconsumed
      rcases hstep with _ | _ | ⟨-, -, hcan, htext⟩ | ⟨hcounts, -⟩
      · exact next_eq_of_returned hconsumed htext hcan (hsound _) hmore hop
      · exact absurd hcounts (by simp [counts])
  · refine perform_unread_of_refused ?_
    rwa [ne_eq, perform_unread_eq_done_iff, Bool.not_eq_true] at hops
  · have hnet := (tells_history hnew ops).netRead_eq
    exact ⟨hnet, by rw [hnet, hcursor]⟩

/-- A reader over a feed that fails between a character and its pushback, behind the newline at
the end of a chunk. -/
theorem retraces_of_isNew_over_failure :
    Retraces (ofFeed (.script [.text ['a', '\n'], .failure ⟨some 5, "Input/output error"⟩,
      .text ['b'], .text []]) 1) :=
  retraces_of_isNew (.ofFeed _ Nat.one_pos)

end ConfigScript.Source.Reader
