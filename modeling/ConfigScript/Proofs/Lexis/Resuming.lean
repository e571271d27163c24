import ConfigScript.Proofs.Lexis.Calls
import ConfigScript.Proofs.Lexis.Cutting

/-!
# Proofs/Lexis/Resuming — calls go on behind a fault

A call that stops loses the characters read in it, and nothing else: behind it the reader stands at
the end of the text pulled, and nothing is left of the token it was at.  `Account` says of one call
what it uses of a script, when it stops and which characters it takes; the main statement
`resumable_script` says so of every call in a run, and that behind a fault the run goes on as a new
one over the rest of the script would (`outcomeOf_behind`), at positions counted from the fault.

That the end of the text is reached at last is `exists_eof`, by a **load** which every call but the
last lowers: a call takes a character or uses up a delivery that is no text.
-/

namespace ConfigScript

open Source (Reader Fault Feed Delivery Horizon)

variable {r s : Reader} {a passed coming : List Char} {z : Horizon} {deliveries : List Delivery}

/-! ## Outcomes behind a text -/

/-- **A fault of a text that itself starts at `p`**. -/
def Source.Fault.shift (p : Position) : Fault → Fault
  | .hard cause q => .hard cause (p.shift q)
  | .foreign message => .foreign message
  | .notALiteral raw => .notALiteral raw

/-- **An outcome in a text that itself starts at `p`**. -/
def Outcome.shift (p : Position) : Outcome → Outcome
  | .token t => .token (t.shift p)
  | .fault e => .fault (e.shift p)

theorem Source.Delivery.fault?_append (d : Delivery) (a passed : List Char) :
    d.fault? (.after (a ++ passed)) = (d.fault? (.after passed)).map (Fault.shift (.after a)) := by
  cases d <;> simp [fault?, Fault.shift, Position.after_append_eq_shift]

/-- **A reader that differs from another by a text passed before.** -/
def Source.Reader.Behind (a : List Char) (r s : Reader) : Prop :=
  ∃ passed coming z, r.StandsAt (a ++ passed) coming z ∧ s.StandsAt passed coming z

/-- A token that is settled is not one whose end is behind a delivery that is no text. -/
theorem not_settled_of_blocked {d : Delivery} {rest : Feed} (hz : z = .blocked d rest)
    (hb : beyondAt coming = true) : ¬ (z.isOpen = true ∨ beyondAt coming = false) := by
  rintro (hopen | hsettled)
  · rw [hz] at hopen
    exact Bool.false_ne_true hopen
  · exact Bool.false_ne_true (hsettled.symm.trans hb)

/-- **A call behind a text** comes to the same, at positions counted from there. -/
theorem call_behind (h : r.Behind a s) :
    (call r).1 = (call s).1.shift (.after a) ∧ (call r).2.Behind a (call s).2 := by
  obtain ⟨passed, coming, z, hr, hs⟩ := h
  have hcalls := call_of_standsAt hr
  have hcalls' := call_of_standsAt hs
  generalize (call r).1 = outcome, (call r).2 = r' at hcalls ⊢
  generalize (call s).1 = outcome', (call s).2 = s' at hcalls' ⊢
  cases hcalls with
  | token hz hr' =>
    cases hcalls' with
    | token _ hs' =>
      rw [List.append_assoc] at hr'
      exact ⟨congrArg Outcome.token (tokenAt_append a passed coming), _, _, _, hr', hs'⟩
    | fault hblocked hbeyond _ _ => exact absurd hz (not_settled_of_blocked hblocked hbeyond)
  | fault hblocked hbeyond hfault hr' =>
    cases hcalls' with
    | token hz _ => exact absurd hz (not_settled_of_blocked hblocked hbeyond)
    | fault hblocked' _ hfault' hs' =>
      obtain ⟨rfl, rfl⟩ := Horizon.blocked.inj (hblocked.symm.trans hblocked')
      rw [List.append_assoc] at hr' hfault
      rw [Delivery.fault?_append, hfault', Option.map_some] at hfault
      exact ⟨congrArg Outcome.fault (Option.some.inj hfault).symm, _, _, _, hr', hs'⟩

/-- **A run of calls behind a text.** -/
theorem outcomeOf_behind (h : r.Behind a s) (j : Nat) :
    outcomeOf r j = (outcomeOf s j).shift (.after a) ∧
      (readerAfter r (j + 1)).Behind a (readerAfter s (j + 1)) := by
  induction j with
  | zero => exact call_behind h
  | succ j ih => exact call_behind ih.2

/-! ## What one call takes and uses up -/

/-- **The account of a call** over a script: the deliveries it uses up and those it leaves, when it
stops and where, and which characters it takes. -/
structure Account (r : Reader) (outcome : Outcome) (r' : Reader) (used left : List Delivery) :
    Prop where
  feed_eq : r.feed = .script (used ++ left)
  left_eq : r'.feed = .script left
  text_eq : r'.text = r.text ++ used.flatMap Delivery.chars
  /-- it stops exactly if it uses up a delivery that is no text -/
  stops_iff : (∃ e, outcome = .fault e) ↔ ∃ d ∈ used, d.isText = false
  /-- that delivery is the one that makes the fault, and the last; the text pulled is all passed -/
  stopped : ∀ e, outcome = .fault e → ∃ texts d, used = texts ++ [d] ∧
    (∀ t ∈ texts, t.isText = true) ∧ d.fault? r'.position = some e ∧ r'.cursor = r'.buffer.size
  /-- a token is where the characters taken are -/
  delivered : ∀ t, outcome = .token t → t.start = r.position ∧ t.stop = r'.position
  /-- no character is skipped between two calls -/
  taken : ∃ x, r'.consumed = r.consumed ++ x ∧
    Position.between? r'.text r.position r'.position = some x

/-- A reader with nothing ahead has its cursor at the end of the text pulled. -/
theorem Source.Reader.Sound.cursor_eq_size (h : r.Sound) (hahead : r.ahead = []) :
    r.cursor = r.buffer.size := by
  have hle := h.cursor_le
  have hge := List.drop_eq_nil_iff.1 hahead
  rw [Reader.text, Array.length_toList] at hge
  omega

/-- **The characters a call takes** follow those passed before it. -/
theorem exists_taken (h : r.StandsAt passed coming z) :
    ∃ x coming' z', (call r).2.StandsAt (passed ++ x) coming' z' ∧
      ∀ t, (call r).1 = .token t → t.start = .after passed ∧ t.stop = .after (passed ++ x) := by
  have hcalls := call_of_standsAt h
  generalize (call r).1 = outcome, (call r).2 = r' at hcalls ⊢
  cases hcalls with
  | token _ hr' =>
    refine ⟨_, _, _, hr', fun t ht => ?_⟩
    obtain rfl := Outcome.token.inj ht
    exact ⟨rfl, rfl⟩
  | fault _ _ _ hr' => exact ⟨_, _, _, hr', fun t ht => absurd ht (by simp)⟩

/-- **Every call over a script can be accounted for.** -/
theorem exists_account (h : r.StandsAt passed coming z) (hfeed : r.feed = .script deliveries) :
    ∃ used left, Account r (call r).1 (call r).2 used left := by
  obtain ⟨ds, hhears⟩ := exists_hears h
  obtain ⟨x, coming', z', hr', htoken⟩ := exists_taken h
  generalize (call r).1 = outcome, (call r).2 = r' at hhears hr' htoken ⊢
  have hanswers := hhears.answers
  rw [hfeed] at hanswers
  obtain ⟨used, left, k, rfl, hleft, rfl⟩ := hanswers.script
  refine ⟨used, left, hfeed, hleft, ?_, ?_, fun e he => ?_, fun t ht => ?_, x, ?_, ?_⟩
  · rw [hhears.text_eq, List.flatMap_append]
    have hnone : (List.replicate k (Delivery.text [])).flatMap Delivery.chars = [] := by
      simp [Delivery.chars]
    rw [hnone, List.append_nil]
  · rw [hhears.stops_iff]
    simp [Delivery.isText, or_and_right, exists_or]
  · obtain ⟨texts, d, hds, htexts, hfault, hahead⟩ := hhears.stopped e he
    -- what was heard last is no empty text, so the script was not over
    cases k with
    | zero =>
      rw [List.replicate_zero, List.append_nil] at hds
      exact ⟨texts, d, hds, htexts, hfault, hr'.cursor_eq_size hahead⟩
    | succ k =>
      rw [List.replicate_succ', ← List.append_assoc] at hds
      obtain rfl := List.head_eq_of_cons_eq (List.append_inj' hds rfl).2
      exact absurd hfault (by simp [Delivery.fault?])
  · rw [h.position_eq, hr'.position_eq]
    exact htoken t ht
  · rw [hr'.consumed_eq, h.consumed_eq]
  · rw [← Reader.consumed_append_ahead r', h.position_eq, hr'.position_eq, hr'.consumed_eq,
      List.append_assoc]
    exact Position.between?_after passed x r'.ahead

/-! ## The end is reached -/

namespace Source

/-- **The characters and the faults of deliveries** up to the end of the text. -/
def Delivery.load (ds : List Delivery) : Nat :=
  let before := ds.takeWhile (!·.isEnd)
  (before.flatMap chars).length + before.countP (!·.isText)

/-- The characters and the faults that a feed has to deliver. -/
def Feed.load : Feed → Nat
  | .stream left => left.length
  | .script ds => Delivery.load ds

/-- The load that lies behind the text to come. -/
def Horizon.load : Horizon → Nat
  | .known | .clear => 0
  | .blocked _ rest => rest.load + 1

@[simp] theorem Horizon.load_seen (z : Horizon) (beyond : Bool) :
    (z.seen beyond).load = z.load := by
  cases beyond <;> cases z <;> rfl

theorem Delivery.load_cons_text (c : Char) (cs : List Char) (ds : List Delivery) :
    load (.text (c :: cs) :: ds) = (c :: cs).length + load ds := by
  simp only [load, isEnd, isText, Bool.not_false, List.takeWhile_cons_of_pos, List.flatMap_cons,
    List.length_append, chars, Bool.not_true, Bool.false_eq_true, not_false_eq_true,
    List.countP_cons_of_neg]
  omega

theorem Delivery.load_cons_of_isText_eq_false {d : Delivery} (h : d.isText = false)
    (ds : List Delivery) : load (d :: ds) = load ds + 1 := by
  have hend : d.isEnd = false := by
    cases d with
    | text => exact absurd h (by simp [isText])
    | _ => rfl
  simp [load, hend, h, chars_of_isText_eq_false h, Nat.add_assoc]

theorem Delivery.load_eq : ∀ ds : List Delivery,
    load ds = (Feed.scriptSupply ds).length + (Feed.scriptHorizon ds).load
  | [] | .text [] :: _ => rfl
  | .text (c :: cs) :: ds => by
    rw [load_cons_text, load_eq ds, Feed.scriptSupply, Feed.scriptHorizon, List.length_append,
      Nat.add_assoc]
  | .undecodable _ :: ds | .failure _ :: ds | .nonText _ :: ds | .foreign _ :: ds => by
    rw [load_cons_of_isText_eq_false rfl, Feed.scriptSupply, Feed.scriptHorizon, Horizon.load,
      Feed.load, List.length_nil, Nat.zero_add]
    all_goals simp

/-- **The load of a feed** is that of its text and of what lies behind it. -/
theorem Feed.load_eq (feed : Feed) : feed.load = feed.supply.length + feed.horizon.load := by
  cases feed with
  | stream left => rfl
  | script ds => exact Delivery.load_eq ds

end Source

/-- **The end token is delivered at last**, behind no more calls than there are characters and
faults. -/
theorem exists_eof (h : r.StandsAt passed coming z) :
    ∃ k ≤ coming.length + z.load, ∃ t, outcomeOf r k = .token t ∧ t.isEof = true := by
  induction hn : coming.length + z.load using Nat.strong_induction_on
    generalizing r passed coming z with
  | _ n ih =>
    have hcalls := call_of_standsAt h
    generalize hcall : call r = answer at hcalls
    obtain ⟨outcome, r'⟩ := answer
    have hlater (k : Nat) : outcomeOf r (k + 1) = outcomeOf r' k := by
      rw [Nat.add_comm, outcomeOf_add, readerAfter, readerAfter, hcall]
    cases hcalls with
    | token hz hr' =>
      cases coming with
      | nil =>
        refine ⟨0, Nat.zero_le n, tokenAt passed [], ?_, rfl⟩
        rw [outcomeOf, readerAfter, hcall]
      | cons c cs =>
        have hlt := restAt_length_lt c cs
        obtain ⟨k, hk, t, ht, heof⟩ := ih _ (by rw [Horizon.load_seen]; omega) hr' rfl
        rw [Horizon.load_seen] at hk
        exact ⟨k + 1, by omega, t, (hlater k).trans ht, heof⟩
    | @fault d rest e _ hblocked hbeyond hfault hr' =>
      subst hblocked
      have hload : (Horizon.blocked d rest).load = rest.supply.length + rest.horizon.load + 1 :=
        congrArg (· + 1) rest.load_eq
      obtain ⟨k, hk, t, ht, heof⟩ := ih _ (by omega) hr' rfl
      exact ⟨k + 1, by omega, t, (hlater k).trans ht, heof⟩

/-! ## A run over a script -/

/-- **What a run of calls over a script comes to.** -/
structure Resumable (deliveries : List Delivery) (start : Reader) : Prop where
  /-- each call is accounted for, from where the one before it left the script -/
  accounts : ∀ k, ∃ used left,
    Account (readerAfter start k) (outcomeOf start k) (readerAfter start (k + 1)) used left
  /-- behind a fault the run is that of a new reader over the rest of the script -/
  resumes : ∀ k e left, outcomeOf start k = .fault e →
    (readerAfter start (k + 1)).feed = .script left → ∀ chunk, 0 < chunk → ∀ j,
      outcomeOf start (k + 1 + j) = (outcomeOf (.ofFeed (.script left) chunk) j).shift
        (readerAfter start (k + 1)).position
  /-- the end token comes, behind no more calls than there are characters and faults -/
  ends : ∃ k ≤ Delivery.load deliveries, ∃ t, outcomeOf start k = .token t ∧ t.isEof = true

/-- **Behind a fault a reader stands where a new one would** over the rest of its feed, save for the
text passed. -/
theorem behind_of_fault {e : Fault} {chunk : Nat} (hchunk : 0 < chunk)
    (h : r.StandsAt passed coming z) (he : (call r).1 = .fault e) :
    (call r).2.Behind (call r).2.consumed (.ofFeed (call r).2.feed chunk) := by
  obtain ⟨ds, hhears⟩ := exists_hears h
  obtain ⟨x, coming', z', hr', -⟩ := exists_taken h
  generalize (call r).1 = outcome, (call r).2 = r' at he hhears hr' ⊢
  obtain ⟨texts, d, rfl, -, hfault, hahead⟩ := hhears.stopped e he
  have hex : r'.exhausted = false := by
    rw [Bool.eq_false_iff, ne_eq, hhears.exhausted_iff, List.getLast?_concat]
    rintro (hex | hd)
    · exact absurd (hhears.silent hex) (by simp)
    · obtain rfl := Option.some.inj hd
      exact absurd hfault (by simp [Delivery.fault?])
  have hstands : r'.StandsAt (r'.consumed ++ []) r'.feed.supply r'.feed.horizon :=
    ⟨hr'.toSound, (List.append_nil _).symm, by simp [Reader.coming, hahead, hex],
      by simp [Reader.horizon, hex]⟩
  exact ⟨[], _, _, hstands, Reader.standsAt_ofFeed r'.feed chunk hchunk⟩

/-- **A run of calls over a script is accounted for, goes on behind every fault and comes to the
end.** -/
theorem resumable_script (deliveries : List Delivery) {chunk : Nat} (hchunk : 0 < chunk) :
    Resumable deliveries (.ofFeed (.script deliveries) chunk) := by
  have hstart := Reader.standsAt_ofFeed (.script deliveries) chunk hchunk
  have hscript (k : Nat) : ∃ left,
      (readerAfter (.ofFeed (.script deliveries) chunk) k).feed = .script left := by
    induction k with
    | zero => exact ⟨deliveries, rfl⟩
    | succ k ih =>
      obtain ⟨left, hleft⟩ := ih
      obtain ⟨passed, coming, z, hk⟩ := exists_standsAt_readerAfter hstart k
      obtain ⟨used, left', haccount⟩ := exists_account hk hleft
      exact ⟨left', haccount.left_eq⟩
  refine ⟨fun k => ?_, fun k e left he hleft chunk' hchunk' j => ?_, ?_⟩
  · obtain ⟨left, hleft⟩ := hscript k
    obtain ⟨passed, coming, z, hk⟩ := exists_standsAt_readerAfter hstart k
    exact exists_account hk hleft
  · obtain ⟨passed, coming, z, hk⟩ := exists_standsAt_readerAfter hstart k
    obtain ⟨passed', coming', z', hk'⟩ := exists_standsAt_readerAfter hstart (k + 1)
    have hbehind := behind_of_fault hchunk' hk he
    rw [← readerAfter, hleft] at hbehind
    rw [outcomeOf_add, (outcomeOf_behind hbehind j).1, hk'.position_eq, hk'.consumed_eq]
  · obtain ⟨k, hk, heof⟩ := exists_eof hstart
    exact ⟨k, by rwa [← Feed.load_eq] at hk, heof⟩

/-- A failure behind a backslash in a literal, something that is not text behind a dash, and an
error that passes through behind the backslash of a line join. -/
theorem resumable_script_three_faults :
    Resumable
      [.text ['"', '\\'], .failure ⟨some 5, "Input/output error"⟩, .text ['"', ' ', '-'],
        .nonText .bytes, .text ['-', ' ', '\\'], .foreign "closed", .text ['\n']]
      (.ofFeed (.script
        [.text ['"', '\\'], .failure ⟨some 5, "Input/output error"⟩, .text ['"', ' ', '-'],
          .nonText .bytes, .text ['-', ' ', '\\'], .foreign "closed", .text ['\n']]) 1) :=
  resumable_script _ Nat.one_pos

end ConfigScript
