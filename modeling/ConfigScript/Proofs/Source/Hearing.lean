import ConfigScript.Proofs.Source.Outlook

/-!
# Proofs/Source/Hearing — what a reader hears from its feed

A reader asks its feed for characters and hears deliveries.  `Reader.Heard` says which: the answers
to the requests that were made between two readers, how they add to the text pulled, and that an
empty text is the last that is ever heard.  A reading is **told** by what was heard
(`Reader.Told`): if it succeeds it heard nothing but text, and if it stops, the last delivery is the
one that failed, and the reader stands at the end of the text pulled.

Where a reader stands before a delivery that is no text, `peek_blocked` and `read_blocked` say where
it stands behind it: nothing of the text is lost, and the rest of the feed is to come.
-/

namespace ConfigScript.Source

/-! ## Deliveries -/

namespace Delivery

/-- Whether a delivery is text. -/
def isText : Delivery → Bool
  | text _ => true
  | undecodable _ | failure _ | nonText _ | foreign _ => false

/-- The characters of a delivery. -/
def chars : Delivery → List Char
  | text cs => cs
  | undecodable _ | failure _ | nonText _ | foreign _ => []

/-- Whether a delivery means the end of the text. -/
def isEnd : Delivery → Bool
  | text [] => true
  | text (_ :: _) | undecodable _ | failure _ | nonText _ | foreign _ => false

theorem chars_of_isText_eq_false {d : Delivery} (h : d.isText = false) : d.chars = [] := by
  cases d with
  | text => exact absurd h (by simp [isText])
  | _ => rfl

/-- **The fault that a delivery makes** of a reading that meets it at a position. -/
def fault? (p : Position) : Delivery → Option Fault
  | text _ => none
  | undecodable f => some (.hard (.undecodable f) p)
  | failure f => some (.hard (.failure f) p)
  | nonText k => some (.hard (.nonText k) p)
  | foreign message => some (.foreign message)

/-- **What is no text makes a fault**, and text makes none. -/
theorem isSome_fault?_iff {d : Delivery} {p : Position} :
    (d.fault? p).isSome = true ↔ d.isText = false := by
  cases d <;> simp [fault?, isText]

end Delivery

/-- Whether a fault comes from the feed, and not from a use that a reader refuses. -/
def Fault.isOfFeed : Fault → Bool
  | .hard (.undecodable _) _ | .hard (.failure _) _ | .hard (.nonText _) _ | .foreign _ => true
  | .hard .nothingRead _ | .notALiteral _ => false

theorem Delivery.isOfFeed_of_fault? {d : Delivery} {p : Position} {e : Fault}
    (h : d.fault? p = some e) : e.isOfFeed = true := by
  rcases d with cs | _ | _ | _ | _
  · exact absurd h (by simp [fault?])
  all_goals
    obtain rfl := Option.some.inj h
    rfl

namespace Feed

/-- **The answers of a feed** to as many requests for `n` characters, and what is left of it. -/
inductive Answers (n : Nat) : Feed → List Delivery → Feed → Prop where
  | nil {feed} : Answers n feed [] feed
  | cons {feed mid rest d ds} : feed.request n = (d, mid) → Answers n mid ds rest →
      Answers n feed (d :: ds) rest

variable {n : Nat} {feed mid rest : Feed} {d : Delivery} {ds es : List Delivery}

theorem Answers.append (h : Answers n feed ds mid) (h' : Answers n mid es rest) :
    Answers n feed (ds ++ es) rest := by
  induction h with
  | nil => exact h'
  | cons hq _ ih => exact .cons hq (ih h')

/-- **A script answers with its deliveries**, one after the other, and then with no text. -/
theorem Answers.script {deliveries : List Delivery}
    (h : Answers n (.script deliveries) ds rest) :
    ∃ used left k, deliveries = used ++ left ∧ rest = .script left ∧
      ds = used ++ List.replicate k (.text []) := by
  generalize hfeed : Feed.script deliveries = feed at h
  induction h generalizing deliveries with
  | nil =>
    subst hfeed
    exact ⟨[], deliveries, 0, rfl, rfl, rfl⟩
  | cons hq _ ih =>
    subst hfeed
    cases deliveries with
    | nil =>
      obtain ⟨rfl, rfl⟩ := Prod.mk.inj hq
      obtain ⟨used, left, k, hsplit, hrest, hds⟩ := ih rfl
      obtain ⟨rfl, rfl⟩ := List.append_eq_nil_iff.1 hsplit.symm
      exact ⟨[], [], k + 1, rfl, hrest, congrArg _ hds⟩
    | cons d deliveries =>
      obtain ⟨rfl, rfl⟩ := Prod.mk.inj hq
      obtain ⟨used, left, k, rfl, hrest, hds⟩ := ih rfl
      exact ⟨d :: used, left, k, rfl, hrest, congrArg _ hds⟩

/-- With nothing in store and a delivery that is no text before it, a feed answers with that
delivery. -/
theorem request_of_blocked (h : feed.supply = []) (hz : feed.horizon = .blocked d rest) :
    feed.request n = (d, rest) ∧ d.isText = false := by
  match feed, h, hz with
  | .script (.text (c :: cs) :: more), h, _ => exact absurd h (List.cons_ne_nil _ _)
  | .script (.undecodable f :: more), _, hz
  | .script (.failure f :: more), _, hz
  | .script (.nonText k :: more), _, hz
  | .script (.foreign m :: more), _, hz =>
    obtain ⟨rfl, rfl⟩ := Horizon.blocked.inj hz
    exact ⟨rfl, rfl⟩

end Feed

/-! ## What a reader hears -/

namespace Reader

/-- **What was heard between two readers**: the answers to the requests made, all of the same size.
They add to the text pulled, and an empty one is the last. -/
structure Heard (r : Reader) (ds : List Delivery) (r' : Reader) : Prop where
  chunk_eq : r'.chunk = r.chunk
  answers : Feed.Answers r.chunk r.feed ds r'.feed
  requests_eq : r'.requests.toList = r.requests.toList ++ List.replicate ds.length r.chunk
  text_eq : r'.text = r.text ++ ds.flatMap Delivery.chars
  exhausted_iff : r'.exhausted = true ↔ r.exhausted = true ∨ ds.getLast? = some (.text [])
  silent : r.exhausted = true → ds = []

variable {r r₁ r' : Reader} {ds es : List Delivery} {d : Delivery}

theorem Heard.refl (r : Reader) : r.Heard [] r where
  chunk_eq := rfl
  answers := .nil
  requests_eq := (List.append_nil _).symm
  text_eq := (List.append_nil _).symm
  exhausted_iff := by simp
  silent _ := rfl

/-- **What was heard first and what was heard then.** -/
theorem Heard.trans (h : r.Heard ds r₁) (h' : r₁.Heard es r') : r.Heard (ds ++ es) r' where
  chunk_eq := h'.chunk_eq.trans h.chunk_eq
  answers := h.answers.append (h.chunk_eq ▸ h'.answers)
  requests_eq := by
    rw [h'.requests_eq, h.requests_eq, h.chunk_eq, List.length_append, List.append_assoc,
      List.replicate_append_replicate]
  text_eq := by rw [h'.text_eq, h.text_eq, List.flatMap_append, List.append_assoc]
  exhausted_iff := by
    rw [h'.exhausted_iff, h.exhausted_iff, List.getLast?_append]
    cases hlast : es.getLast? with
    | none => simp
    | some e =>
      -- something was heard later, so no end was heard before
      have hopen : ¬ r₁.exhausted = true := fun hex => by
        rw [h'.silent hex] at hlast
        exact absurd hlast (by simp)
      rw [h.exhausted_iff, not_or] at hopen
      simp [hopen.1, hopen.2]
  silent hex := by rw [h.silent hex, List.nil_append, h'.silent (h.exhausted_iff.2 (Or.inl hex))]

/-- Where the cursor stands makes no difference to what was heard. -/
theorem Heard.moved (h : r.Heard ds r') (cursor : Nat) (canUnread : Bool) :
    r.Heard ds { r' with cursor, canUnread } :=
  ⟨h.chunk_eq, h.answers, h.requests_eq, h.text_eq, h.exhausted_iff, h.silent⟩

/-- A text that was heard is put behind the text pulled. -/
theorem heard_text {feed : Feed} {c : Char} {cs : List Char} (hex : r.exhausted = false)
    (hq : r.feed.request r.chunk = (.text (c :: cs), feed)) :
    r.Heard [.text (c :: cs)] ((r.requested feed).append (c :: cs)) where
  chunk_eq := rfl
  answers := .cons hq .nil
  requests_eq := Array.toList_push
  text_eq := by rw [text_append, List.flatMap_singleton]; rfl
  exhausted_iff := by simp [append, requested]
  silent h := absurd h (by simp [hex])

/-- Behind an empty text nothing is heard. -/
theorem heard_end {feed : Feed} (hex : r.exhausted = false)
    (hq : r.feed.request r.chunk = (.text [], feed)) :
    r.Heard [.text []] { r.requested feed with exhausted := true } where
  chunk_eq := rfl
  answers := .cons hq .nil
  requests_eq := Array.toList_push
  text_eq := (List.append_nil _).symm
  exhausted_iff := by simp
  silent h := absurd h (by simp [hex])

/-- A delivery that is no text adds nothing to the text pulled. -/
theorem heard_fault {feed : Feed} (hex : r.exhausted = false)
    (hq : r.feed.request r.chunk = (d, feed)) (hd : d.isText = false) :
    r.Heard [d] (r.requested feed) where
  chunk_eq := rfl
  answers := .cons hq .nil
  requests_eq := Array.toList_push
  text_eq := by
    rw [List.flatMap_singleton, Delivery.chars_of_isText_eq_false hd, List.append_nil]
    rfl
  exhausted_iff := by
    have hne : d ≠ .text [] := by
      rintro rfl
      exact absurd hd (by decide)
    simp [requested, hex, hne]
  silent h := absurd h (by simp [hex])

/-- A delivery that is no text stops a reader where it stands. -/
theorem fill_of_fault {feed : Feed} {e : Fault} (hex : r.exhausted = false)
    (hq : r.feed.request r.chunk = (d, feed)) (hfault : d.fault? r.position = some e) :
    fill r = .error e (r.requested feed) := by
  rw [fill, if_neg (by simp [hex]), hq]
  cases d with
  | text => exact absurd hfault (by simp [Delivery.fault?])
  | _ =>
    obtain rfl := Option.some.inj hfault
    rfl

/-! ## Readings told by what was heard -/

variable {α β : Type} {a : α} {result : EStateM.Result Fault Reader β}

/-- **A reading told by what was heard.**  One that succeeds heard text only.  One that stops was
stopped by the last delivery it heard, at the end of the text pulled. -/
def Told (r : Reader) : EStateM.Result Fault Reader α → Prop
  | .ok _ r' => ∃ ds, r.Heard ds r' ∧ ∀ d ∈ ds, d.isText = true
  | .error e r' => ∃ ds d, r.Heard (ds ++ [d]) r' ∧ (∀ d ∈ ds, d.isText = true) ∧
      d.fault? r'.position = some e ∧ r'.ahead = []

/-- A reading that hears nothing. -/
theorem told_ok (r : Reader) (a : α) : r.Told (.ok a r) := ⟨[], .refl r, by simp⟩

/-- **A reading in two steps** is told by what both heard. -/
theorem Told.trans (h : r.Told (.ok a r₁)) (h' : r₁.Told result) : r.Told result := by
  obtain ⟨ds, hds, htext⟩ := h
  cases result with
  | ok b r' =>
    obtain ⟨es, hes, htext'⟩ := h'
    exact ⟨ds ++ es, hds.trans hes, List.forall_mem_append.2 ⟨htext, htext'⟩⟩
  | error e r' =>
    obtain ⟨es, d, hes, htext', hfault⟩ := h'
    exact ⟨ds ++ es, d, by rw [List.append_assoc]; exact hds.trans hes,
      List.forall_mem_append.2 ⟨htext, htext'⟩, hfault⟩

theorem Told.moved (h : r.Told (.ok a r')) (b : β) (cursor : Nat) (canUnread : Bool) :
    r.Told (.ok b { r' with cursor, canUnread }) := by
  obtain ⟨ds, hds, htext⟩ := h
  exact ⟨ds, hds.moved cursor canUnread, htext⟩

/-- **Pulling a chunk** at the end of the text pulled. -/
theorem told_fill {result : EStateM.Result Fault Reader Unit} (hahead : r.ahead = [])
    (h : fill r = result) : r.Told result := by
  subst h
  cases hex : r.exhausted with
  | true =>
    rw [fill_of_exhausted hex]
    exact told_ok r ()
  | false =>
    cases hq : r.feed.request r.chunk with
    | mk d feed =>
      cases hd : d.fault? r.position with
      | some e =>
        have htext : d.isText = false := Delivery.isSome_fault?_iff.1 (by rw [hd]; rfl)
        rw [fill_of_fault hex hq hd]
        exact ⟨[], d, heard_fault hex hq htext, by simp, hd, hahead⟩
      | none =>
        match d, hd with
        | .text [], _ =>
          rw [fill_of_end hex hq]
          exact ⟨_, heard_end hex hq, by simp [Delivery.isText]⟩
        | .text (c :: cs), _ =>
          rw [fill_of_text hex hq]
          exact ⟨_, heard_text hex hq, by simp [Delivery.isText]⟩

theorem told_peek {result : EStateM.Result Fault Reader (Option Char)} (h : peek r = result) :
    r.Told result := by
  subst h
  rw [peek]
  cases hc : r.buffer[r.cursor]? with
  | some c => exact told_ok r (some c)
  | none =>
    rw [getElem?_cursor, List.head?_eq_none_iff] at hc
    cases hr : fill r with
    | ok u r' => exact told_fill hc hr
    | error e r' => exact told_fill hc hr

theorem told_read {result : EStateM.Result Fault Reader (Option Char)} (h : read r = result) :
    r.Told result := by
  subst h
  rw [read]
  cases hr : peek r with
  | ok c r' =>
    cases c with
    | none => exact (told_peek hr).moved none r'.cursor false
    | some c => exact (told_peek hr).moved (some c) (r'.cursor + 1) true
  | error e r' => exact told_peek hr

/-- Pushing a character back asks for nothing. -/
theorem told_unread {result : EStateM.Result Fault Reader Unit} (hcan : r.canUnread = true)
    (h : unread r = result) : r.Told result := by
  subst h
  rw [unread, if_pos hcan]
  exact (told_ok r ()).moved () (r.cursor - 1) false

theorem canUnread_of_fill (h : fill r = .ok () r') : r'.canUnread = r.canUnread := by
  rw [fill] at h
  split at h
  · cases h
    rfl
  · simp only at h
    split at h <;> cases h <;> rfl

/-- Looking at the next character does not settle whether the last one may be pushed back. -/
theorem canUnread_of_peek {c : Option Char} (h : peek r = .ok c r') :
    r'.canUnread = r.canUnread := by
  rw [peek] at h
  split at h
  · cases h
    rfl
  · split at h
    · next hf =>
      cases h
      exact canUnread_of_fill hf
    · exact absurd h (by simp)

/-- A character that was read may be pushed back. -/
theorem canUnread_of_read {c : Char} (h : read r = .ok (some c) r') : r'.canUnread = true := by
  rw [read] at h
  split at h
  · cases h
    rfl
  · exact absurd h (by simp)
  · exact absurd h (by simp)

/-! ## Reading up to a delivery that is no text -/

variable {passed : List Char} {rest : Feed}

/-- **A reading that stops at a delivery**, with the text passed all behind it and the rest of the
feed before it. -/
def StopsAt (result : EStateM.Result Fault Reader α) (passed : List Char) (d : Delivery)
    (rest : Feed) : Prop :=
  ∃ e r', result = .error e r' ∧ d.fault? (.after passed) = some e ∧
    r'.StandsAt passed rest.supply rest.horizon

theorem fill_blocked (h : r.StandsAt passed [] (.blocked d rest)) :
    StopsAt (fill r) passed d rest := by
  have hex : r.exhausted = false := by
    cases hx : r.exhausted with
    | false => rfl
    | true => exact absurd h.horizon_eq (by simp [horizon, hx])
  obtain ⟨hahead, hsupply⟩ := List.append_eq_nil_iff.1 h.coming_eq
  have hz : r.feed.horizon = .blocked d rest := by simpa [horizon, hex] using h.horizon_eq
  have hempty : r.feed.supply = [] := by simpa [hex] using hsupply
  obtain ⟨hq, hd⟩ := Feed.request_of_blocked hempty hz
  obtain ⟨e, he⟩ : ∃ e, d.fault? r.position = some e :=
    Option.isSome_iff_exists.1 (Delivery.isSome_fault?_iff.2 hd)
  refine ⟨e, r.requested rest, fill_of_fault hex hq he, h.position_eq ▸ he,
    h.toSound.requested rest, h.consumed_eq, ?_, ?_⟩
  · have hahead' : (r.requested rest).ahead = [] := hahead
    rw [coming, hahead', List.nil_append]
    exact if_neg (by simp [requested, hex])
  · exact if_neg (by simp [requested, hex])

theorem peek_blocked (h : r.StandsAt passed [] (.blocked d rest)) :
    StopsAt (peek r) passed d rest := by
  have hahead : r.ahead = [] := (List.append_eq_nil_iff.1 h.coming_eq).1
  obtain ⟨e, r', hfill, hr'⟩ := fill_blocked h
  refine ⟨e, r', ?_, hr'⟩
  rw [peek, getElem?_cursor, hahead, List.head?_nil, hfill]

theorem read_blocked (h : r.StandsAt passed [] (.blocked d rest)) :
    StopsAt (read r) passed d rest := by
  obtain ⟨e, r', hpeek, hr'⟩ := peek_blocked h
  exact ⟨e, r', by rw [read, hpeek], hr'⟩

end Reader

end ConfigScript.Source
