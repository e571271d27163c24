import ConfigScript.Proofs.Lexis.Absorbing
import ConfigScript.Proofs.Lexis.Dispatch

/-!
# Proofs/Lexis/Blameless — scanning adds no faults of its own

Every fault that a scan stops with was made of a delivery that was heard in this very scan.  So no
scan pushes back where there is nothing to push back, and none hands a text to be decoded that is no
literal; over a feed that delivers nothing but text no scan stops at all.  The main statement,
`blameless_of_isNew`, says so of every call in a run of calls over a new reader, whether the calls
before delivered tokens or stopped.

`told_scan` says by what a scan is stopped, and `dispatch_eq_scan` carries it over to the scan with
every pushback spelled out.
-/

namespace ConfigScript

open Source (Reader Fault Feed Delivery Horizon)

variable {r start : Reader} {passed coming : List Char} {z : Horizon} {k : Nat}

/-! ## Feeds without faults -/

namespace Source.Feed

/-- Whether a feed delivers nothing but text. -/
def isFaultless : Feed → Bool
  | stream _ => true
  | script ds => ds.all Delivery.isText

theorem isOpen_scriptHorizon : ∀ ds : List Delivery, ds.all Delivery.isText = true →
    (scriptHorizon ds).isOpen = true
  | [], _ | .text [] :: _, _ => rfl
  | .text (_ :: _) :: ds, h => isOpen_scriptHorizon ds (Bool.and_eq_true_iff.1 h).2

/-- No fault lies behind the text of a feed that delivers nothing but text. -/
theorem isOpen_horizon_of_isFaultless {feed : Feed} (h : feed.isFaultless = true) :
    feed.horizon.isOpen = true := by
  rcases feed with left | ds
  · rfl
  · exact isOpen_scriptHorizon ds h

end Source.Feed

/-- A call delivers a token where no fault lies behind the text, and none does behind the call. -/
theorem exists_token_of_isOpen (h : r.StandsAt passed coming z) (hz : z.isOpen = true) :
    ∃ passed' coming' z', (call r).2.StandsAt passed' coming' z' ∧ z'.isOpen = true ∧
      ∃ t, (call r).1 = .token t := by
  have hcalls := call_of_standsAt h
  generalize (call r).1 = outcome, (call r).2 = r' at hcalls ⊢
  rcases hcalls with ⟨_, hr'⟩ | ⟨hblocked, _, _, _⟩
  · exact ⟨_, _, _, hr', by rwa [Horizon.isOpen_seen], _, rfl⟩
  · subst hblocked
    exact absurd hz Bool.false_ne_true

/-- **Where no fault lies behind the text, none does behind any number of calls.** -/
theorem exists_standsAt_of_isOpen (h : r.StandsAt passed coming z) (hz : z.isOpen = true)
    (k : Nat) : ∃ passed' coming' z',
      (readerAfter r k).StandsAt passed' coming' z' ∧ z'.isOpen = true := by
  induction k with
  | zero => exact ⟨passed, coming, z, h, hz⟩
  | succ k ih =>
    obtain ⟨passed', coming', z', hk, hz'⟩ := ih
    obtain ⟨passed'', coming'', z'', hnext, hz'', -⟩ := exists_token_of_isOpen hk hz'
    exact ⟨passed'', coming'', z'', hnext, hz''⟩

/-- Where no fault lies behind its text a new reader sees none. -/
theorem exists_isOpen_of_isNew (h : start.IsNew) (hfeed : start.feed.isFaultless = true) :
    ∃ coming z, start.StandsAt [] coming z ∧ z.isOpen = true := by
  rcases h with ⟨cs⟩ | ⟨feed, hchunk⟩
  · exact ⟨cs, .known, Reader.standsAt_ofText cs, rfl⟩
  · exact ⟨_, _, Reader.standsAt_ofFeed feed _ hchunk, Feed.isOpen_horizon_of_isFaultless hfeed⟩

/-! ## Runs of calls -/

/-- **A scanner without faults of its own**, in a run of calls from a reader on. -/
structure Blameless (start : Reader) : Prop where
  /-- a call that stops was stopped by the delivery that it heard last, behind texts only -/
  blames : ∀ k e, outcomeOf start k = .fault e → ∃ texts d,
    (readerAfter start k).Heard (texts ++ [d]) (readerAfter start (k + 1)) ∧
      (∀ t ∈ texts, t.isText = true) ∧
      d.fault? (readerAfter start (k + 1)).position = some e
  /-- no call pushes back where there is nothing to push back -/
  pushes : ∀ k p, outcomeOf start k ≠ .fault (.hard .nothingRead p)
  /-- and none decodes what is no literal -/
  decodes : ∀ k raw, outcomeOf start k ≠ .fault (.notALiteral raw)
  /-- the same with every pushback spelled out -/
  dispatched : ∀ k, (readerAfter start k).Told (dispatch (readerAfter start k))
  /-- where the feed delivers nothing but text, every call delivers a token and a walk comes to the
  end -/
  unfailing : start.feed.isFaultless = true →
    (∀ k, ∃ t, outcomeOf start k = .token t) ∧ (walk start).result = .ok (walk start).tokens

/-- **Scanning adds no faults of its own**, whatever a feed delivers and wherever it fails. -/
theorem blameless_of_isNew (h : start.IsNew) : Blameless start := by
  obtain ⟨coming, z, hstart⟩ := exists_standsAt_of_isNew h
  have hblames (k : Nat) (e : Fault) (he : outcomeOf start k = .fault e) : ∃ texts d,
      (readerAfter start k).Heard (texts ++ [d]) (readerAfter start (k + 1)) ∧
        (∀ t ∈ texts, t.isText = true) ∧
        d.fault? (readerAfter start (k + 1)).position = some e := by
    obtain ⟨passed, coming, z, hk⟩ := exists_standsAt_readerAfter hstart k
    obtain ⟨ds, hds⟩ := exists_hears hk
    obtain ⟨texts, d, rfl, htexts, hfault, -⟩ := hds.stopped e he
    exact ⟨texts, d, hds.toHeard, htexts, hfault⟩
  have hfeed (k : Nat) (e : Fault) (he : outcomeOf start k = .fault e) : e.isOfFeed = true := by
    obtain ⟨texts, d, -, -, hfault⟩ := hblames k e he
    exact Delivery.isOfFeed_of_fault? hfault
  refine ⟨hblames, fun k p he => ?_, fun k raw he => ?_, fun k => ?_, fun hfaultless => ?_⟩
  · exact absurd (hfeed k _ he) Bool.false_ne_true
  · exact absurd (hfeed k _ he) Bool.false_ne_true
  · obtain ⟨passed, coming, z, hk⟩ := exists_standsAt_readerAfter hstart k
    rw [dispatch_eq_scan]
    exact told_scan hk
  · obtain ⟨coming, z, hstart, hz⟩ := exists_isOpen_of_isNew h hfaultless
    refine ⟨fun k => ?_, ?_⟩
    · obtain ⟨passed, coming, z, hk, hz⟩ := exists_standsAt_of_isOpen hstart hz k
      obtain ⟨-, -, -, -, -, ht⟩ := exists_token_of_isOpen hk hz
      exact ht
    · rw [Walk.result, (walk_of_standsAt hstart hz).2.1]

/-- A failure behind a dash, which is lost, and something that is not text behind the backslash of a
literal, which is open again behind it, and an error that passes through. -/
theorem blameless_of_isNew_interrupted :
    Blameless (.ofFeed (.script [.text ['-'], .failure ⟨some 5, "Input/output error"⟩,
      .text ['"', '\\'], .nonText .bytes, .text ['"', 'a'], .foreign "closed"]) 1) :=
  blameless_of_isNew (.ofFeed _ Nat.one_pos)

end ConfigScript
