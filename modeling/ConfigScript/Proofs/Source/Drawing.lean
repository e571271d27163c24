import ConfigScript.Proofs.Source.Transparency
import Mathlib.Algebra.Order.Floor.Div

/-!
# Proofs/Source/Drawing — what a reader draws from a stream

A text stream hands out as many characters as it is asked for, while it has them.  Two statements
say what a reader draws from one:

* `asks_perform` — an operation asks for one chunk at most, and for none unless all text pulled was
  passed;
* `Drawn.eq_ceilDiv` — once the end is known, the text was drawn in as few pieces as there can be,
  and the empty text behind them was asked for once.

`Draws` bounds what is drawn by what was looked at: with `m` characters looked at, every chunk was
pulled for one of these, so that less than a chunk lies behind them.  The operations keep it, with
one character more looked at where the cursor asks for one (`Draws.peek`).
-/

namespace ConfigScript.Source.Reader

variable {r s : Reader} {text : List Char} {k m n j : Nat}

/-! ## Readings as operations -/

theorem snd_answered (result : EStateM.Result Fault Reader (Option Char)) :
    (answered result).2 = leftBy result := by
  rcases result with ⟨c, s⟩ | ⟨e, s⟩ <;> rfl

theorem leads_of_read {result : EStateM.Result Fault Reader (Option Char)} (h : read r = result) :
    r.Leads (leftBy result) := by
  have hstep := (Leads.refl r).perform .read
  rwa [perform_read, snd_answered, h] at hstep

theorem leads_of_peek {result : EStateM.Result Fault Reader (Option Char)} (h : peek r = result) :
    r.Leads (leftBy result) := by
  have hstep := (Leads.refl r).perform .peek
  rwa [perform_peek, snd_answered, h] at hstep

theorem leads_unread (r : Reader) : r.Leads (leftBy (unread r)) := by
  have hstep := (Leads.refl r).perform .unread
  rw [perform] at hstep
  rcases hresult : unread r with ⟨_, s⟩ | ⟨e, s⟩ <;> rw [hresult] at hstep <;> exact hstep

/-! ## When a chunk is asked for -/

/-- **What an operation asks for**: nothing, or a chunk, and that only where all text pulled was
passed. -/
def Asks (r s : Reader) : Prop :=
  s.requests = r.requests ∨ r.consumed = r.text ∧ s.requests = r.requests.push r.chunk

theorem asks_peek (r : Reader) : r.Asks (leftBy (peek r)) := by
  rw [peek]
  rcases hget : r.buffer[r.cursor]? with _ | c
  · have hconsumed : r.consumed = r.text := by
      rw [getElem?_cursor, List.head?_eq_none_iff] at hget
      rw [← consumed_append_ahead, hget, List.append_nil]
    have hfills := fills_fill r
    generalize fill r = result at hfills
    rcases hfills with _ | _ | _ | _
    · exact .inl rfl
    all_goals exact .inr ⟨hconsumed, rfl⟩
  · exact .inl rfl

theorem asks_read (r : Reader) : r.Asks (leftBy (read r)) := by
  have hpeek := asks_peek r
  rw [read]
  rcases hresult : peek r with ⟨_ | c, s⟩ | ⟨e, s⟩ <;> rw [hresult] at hpeek <;> exact hpeek

/-- **An operation asks for no chunk before it needs one.** -/
theorem asks_perform (op : Op) (r : Reader) : r.Asks (perform op r).2 := by
  rcases op with _ | _ | _ | _ | _
  · rw [perform_read, snd_answered]
    exact asks_read r
  · rw [perform_peek, snd_answered]
    exact asks_peek r
  · rw [perform, unread]
    split_ifs <;> exact .inl rfl
  · exact .inl rfl
  · exact .inl rfl

/-- Operations do not change the size of the chunks. -/
theorem Leads.chunk_eq (h : r.Leads s) : s.chunk = r.chunk := by
  induction h with
  | refl => rfl
  | tail _ hstep ih =>
    obtain ⟨op, rfl⟩ := hstep
    obtain ⟨ds, hheard, -⟩ := exists_heard_perform op _
    exact hheard.chunk_eq.trans ih

/-! ## The pieces of a text -/

/-- The first `j` pieces of a text, of `k` characters each. -/
def pieces (text : List Char) (k j : Nat) : List (List Char) :=
  (List.range j).map fun i => (text.drop (k * i)).take k

theorem length_pieces (text : List Char) (k j : Nat) : (pieces text k j).length = j := by
  rw [pieces, List.length_map, List.length_range]

theorem pieces_succ (text : List Char) (k j : Nat) :
    pieces text k (j + 1) = pieces text k j ++ [(text.drop (k * j)).take k] := by
  rw [pieces, List.range_succ, List.map_append, List.map_singleton, ← pieces]

/-- **What a reader has drawn from a stream of a text**: its first `j` pieces, none of them empty,
and an empty one behind them once the end is known. -/
structure Drawn (text : List Char) (k j : Nat) (r : Reader) : Prop where
  chunk_pos : 0 < k
  heard : (ofFeed (.stream text) k).Heard
    ((pieces text k j).map .text ++ if r.exhausted then [.text []] else []) r
  feed_eq : r.feed = .stream (text.drop (k * j))
  ne_nil : ∀ p ∈ pieces text k j, p ≠ []
  length_le : r.exhausted = true → text.length ≤ k * j

theorem drawn_ofFeed (text : List Char) (hk : 0 < k) :
    Drawn text k 0 (ofFeed (.stream text) k) where
  chunk_pos := hk
  heard := .refl _
  feed_eq := rfl
  ne_nil := List.forall_mem_nil _
  length_le h := absurd h Bool.false_ne_true

/-- **When the end is known** the text was drawn in as few pieces as there can be. -/
theorem Drawn.eq_ceilDiv (h : Drawn text k j r) (hex : r.exhausted = true) :
    j = text.length ⌈/⌉ k := by
  refine Nat.le_antisymm (Nat.le_of_not_lt fun hlt => ?_)
    ((ceilDiv_le_iff_le_mul h.chunk_pos).2 (h.length_le hex))
  -- else there were a piece behind the last character, which is empty
  have hle := (ceilDiv_le_iff_le_mul h.chunk_pos).1 (Nat.le_refl (text.length ⌈/⌉ k))
  refine h.ne_nil _ (List.mem_map.2 ⟨_, List.mem_range.2 hlt, rfl⟩) ?_
  rw [List.drop_eq_nil_of_le hle, List.take_nil]

/-- What is drawn is drawn for the cursor, but does not depend on it. -/
theorem Drawn.moved (h : Drawn text k j r) (cursor : Nat) (canUnread : Bool) :
    Drawn text k j { r with cursor, canUnread } :=
  ⟨h.chunk_pos, h.heard.moved cursor canUnread, h.feed_eq, h.ne_nil, h.length_le⟩

/-- The answer to the next request. -/
theorem Drawn.request_eq (h : Drawn text k j r) : r.feed.request r.chunk
    = (.text ((text.drop (k * j)).take k), .stream (text.drop (k * (j + 1)))) := by
  have hchunk : r.chunk = k := h.heard.chunk_eq
  rw [h.feed_eq, hchunk, Feed.request, List.drop_drop, Nat.mul_succ]

/-- A request that brings nothing was made behind the text. -/
theorem Drawn.of_over {feed : Feed} (h : Drawn text k j r) (hex : r.exhausted = false)
    (hq : r.feed.request r.chunk = (.text [], feed)) :
    Drawn text k j { r.requested feed with exhausted := true } := by
  have hanswer := h.request_eq.symm.trans hq
  obtain ⟨hpiece, rfl⟩ := Prod.mk.inj hanswer
  have hle : text.length ≤ k * j := by
    rcases List.take_eq_nil_iff.1 (Delivery.text.inj hpiece) with hk | hdrop
    · exact absurd hk (Nat.ne_of_gt h.chunk_pos)
    · exact List.drop_eq_nil_iff.1 hdrop
  have hheard := h.heard.trans (heard_end hex hq)
  simp only [hex, Bool.false_eq_true, if_false, List.append_nil] at hheard
  refine ⟨h.chunk_pos, hheard, ?_, h.ne_nil, fun _ => hle⟩
  -- behind the text there is nothing, however much is left out
  have hdrop (i : Nat) (hi : j ≤ i) : text.drop (k * i) = [] :=
    List.drop_eq_nil_of_le (Nat.le_trans hle (Nat.mul_le_mul_left k hi))
  exact congrArg Feed.stream ((hdrop _ (Nat.le_succ j)).trans (hdrop j (Nat.le_refl j)).symm)

/-- A request that brings characters brings the next piece. -/
theorem Drawn.of_pulled {feed : Feed} {c : Char} {cs : List Char} (h : Drawn text k j r)
    (hex : r.exhausted = false) (hq : r.feed.request r.chunk = (.text (c :: cs), feed)) :
    Drawn text k (j + 1) ((r.requested feed).append (c :: cs)) := by
  have hanswer := h.request_eq.symm.trans hq
  obtain ⟨hpiece, rfl⟩ := Prod.mk.inj hanswer
  have hheard := h.heard.trans (heard_text hex hq)
  have hex' : ((r.requested (.stream (text.drop (k * (j + 1))))).append (c :: cs)).exhausted
      = false := hex
  refine ⟨h.chunk_pos, ?_, rfl, ?_, fun hyes => absurd (hyes.symm.trans hex') (by decide)⟩
  · rw [hex, if_neg Bool.false_ne_true, List.append_nil] at hheard
    rw [hex', if_neg Bool.false_ne_true, List.append_nil, pieces_succ, List.map_append,
      List.map_singleton, Delivery.text.inj hpiece]
    exact hheard
  · rw [pieces_succ, Delivery.text.inj hpiece]
    exact List.forall_mem_append.2
      ⟨h.ne_nil, List.forall_mem_singleton.2 (List.cons_ne_nil c cs)⟩

/-! ## What is drawn for what is looked at -/

/-- **What a reader has drawn that has looked at `m` characters at most**: no chunk that none of
these is in. -/
structure Draws (text : List Char) (k m : Nat) (r : Reader) : Prop where
  exists_drawn : ∃ j, Drawn text k j r
  size_lt : r.buffer.size < m + k

theorem draws_ofFeed (text : List Char) (hk : 0 < k) : Draws text k 0 (ofFeed (.stream text) k) :=
  ⟨⟨0, drawn_ofFeed text hk⟩, by rw [Nat.zero_add]; exact hk⟩

theorem Draws.mono (h : Draws text k m r) (hmn : m ≤ n) : Draws text k n r :=
  ⟨h.exists_drawn, by have := h.size_lt; omega⟩

theorem Draws.moved (h : Draws text k m r) (cursor : Nat) (canUnread : Bool) :
    Draws text k m { r with cursor, canUnread } := by
  obtain ⟨j, hj⟩ := h.exists_drawn
  exact ⟨⟨j, hj.moved cursor canUnread⟩, h.size_lt⟩

/-- **A chunk is drawn for the character at the cursor**, with all text pulled before it. -/
theorem Draws.fill (h : Draws text k m r) (hahead : r.ahead = []) :
    Draws text k (max m (r.cursor + 1)) (leftBy (fill r)) := by
  obtain ⟨j, hj⟩ := h.exists_drawn
  have hsize := h.size_lt
  have hcursor : r.buffer.size ≤ r.cursor := by
    have hdrop := List.drop_eq_nil_iff.1 hahead
    rwa [Reader.text, Array.length_toList] at hdrop
  have hfills := fills_fill r
  generalize Reader.fill r = result at hfills ⊢
  rcases hfills with hex | ⟨hex, hq⟩ | @⟨feed, c, cs, hex, hq⟩ | ⟨hex, hq, hfault⟩
  · exact h.mono (Nat.le_max_left m _)
  · exact ⟨⟨j, hj.of_over hex hq⟩, show r.buffer.size < _ by omega⟩
  · refine ⟨⟨j + 1, hj.of_pulled hex hq⟩, ?_⟩
    have hpiece := congrArg Prod.fst (hj.request_eq.symm.trans hq)
    have hlength : (c :: cs).length ≤ k := by
      rw [← Delivery.text.inj hpiece]
      exact List.length_take_le k _
    have hbuffer : (r.requested feed).buffer.size = r.buffer.size := rfl
    rw [leftBy, size_append, hbuffer]
    omega
  · have htext := hj.request_eq.symm.trans hq
    rw [← (Prod.mk.inj htext).1] at hfault
    exact absurd hfault (by simp [Delivery.fault?])

/-- **A look at the next character** looks at that one and at no other. -/
theorem Draws.peek (h : Draws text k m r) :
    Draws text k (max m (r.cursor + 1)) (leftBy (peek r)) := by
  rw [Reader.peek]
  rcases hget : r.buffer[r.cursor]? with _ | c
  · rw [getElem?_cursor, List.head?_eq_none_iff] at hget
    have hfill := h.fill hget
    rcases hresult : Reader.fill r with ⟨_, s⟩ | ⟨e, s⟩ <;> rw [hresult] at hfill <;> exact hfill
  · exact h.mono (Nat.le_max_left m _)

/-- **Reading looks no further** than a look at the next character does. -/
theorem Draws.read (h : Draws text k m r) :
    Draws text k (max m (r.cursor + 1)) (leftBy (read r)) := by
  have hpeek := h.peek
  rw [Reader.read]
  rcases hresult : Reader.peek r with ⟨_ | c, s⟩ | ⟨e, s⟩ <;> rw [hresult] at hpeek
  · exact hpeek.moved s.cursor false
  · exact hpeek.moved (s.cursor + 1) true
  · exact hpeek

/-- A pushback looks at nothing. -/
theorem Draws.unread (h : Draws text k m r) : Draws text k m (leftBy (unread r)) := by
  rw [Reader.unread]
  split_ifs
  · exact h.moved (r.cursor - 1) false
  · exact h

end ConfigScript.Source.Reader
