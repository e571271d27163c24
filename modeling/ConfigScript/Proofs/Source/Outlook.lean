import ConfigScript.Proofs.Source.Positions
import ConfigScript.Source.Reader

/-!
# Proofs/Source/Outlook — what lies behind a reader and before it

A reader stands between the text it has passed and the text that is still to come, and behind the
latter lies a **horizon**: the end of the text, or a delivery that is no text.  `Reader.StandsAt`
says so of a sound reader, whatever part of the coming text it has pulled already.

Each operation is described by where the reader stands before and after it (`peek_cons`,
`peek_nil`, `read_cons`, `read_nil`, `unread_of_standsAt`), so chunks are not seen from here on.
-/

namespace ConfigScript.Source

/-! ## The horizon of a feed -/

/-- **What lies behind the text to come.** -/
inductive Horizon where
  /-- the end, which the feed was asked for -/
  | known
  /-- the end, which the feed was not asked for yet -/
  | clear
  /-- a delivery that is no text, and the feed behind it -/
  | blocked (d : Delivery) (rest : Feed)

namespace Horizon

/-- Whether the text comes to its end without a fault. -/
def isOpen : Horizon → Bool
  | known | clear => true
  | blocked _ _ => false

/-- The horizon after a character was asked for behind the text. -/
def asked : Horizon → Horizon
  | known | clear => known
  | blocked d rest => blocked d rest

@[simp] theorem isOpen_asked (z : Horizon) : z.asked.isOpen = z.isOpen := by cases z <;> rfl

@[simp] theorem asked_asked (z : Horizon) : z.asked.asked = z.asked := by cases z <;> rfl

end Horizon

namespace Feed

/-- The text that deliveries hand out up to the end or the first delivery that is no text. -/
def scriptSupply : List Delivery → List Char
  | .text (c :: cs) :: ds => c :: cs ++ scriptSupply ds
  | _ => []

/-- What lies behind that text. -/
def scriptHorizon : List Delivery → Horizon
  | [] | .text [] :: _ => .clear
  | .text (_ :: _) :: ds => scriptHorizon ds
  | d :: ds => .blocked d (.script ds)

/-- **The text a feed has in store**, up to its end or to the first delivery that is no text. -/
def supply : Feed → List Char
  | .stream left => left
  | .script ds => scriptSupply ds

/-- **What lies behind the text in store.** -/
def horizon : Feed → Horizon
  | .stream _ => .clear
  | .script ds => scriptHorizon ds

/-- Deliveries of text are handed out one behind the other. -/
theorem supply_script_append : ∀ (pieces : List (List Char)) (ds : List Delivery),
    (∀ p ∈ pieces, p ≠ []) →
      scriptSupply (pieces.map .text ++ ds) = pieces.flatten ++ scriptSupply ds ∧
        scriptHorizon (pieces.map .text ++ ds) = scriptHorizon ds
  | [], _, _ => ⟨rfl, rfl⟩
  | [] :: _, _, h => absurd rfl (h [] (by simp))
  | (c :: cs) :: pieces, ds, h => by
    obtain ⟨hs, hz⟩ := supply_script_append pieces ds fun p hp => h p (List.mem_cons_of_mem _ hp)
    refine ⟨?_, hz⟩
    rw [List.map_cons, List.cons_append, scriptSupply, hs, List.flatten_cons, List.append_assoc]

theorem scriptHorizon_of_isOpen : ∀ (ds : List Delivery), (scriptHorizon ds).isOpen = true →
    scriptHorizon ds = .clear
  | [], _ => rfl
  | .text [] :: _, _ => rfl
  | .text (_ :: _) :: ds, h => scriptHorizon_of_isOpen ds h

/-- An open horizon of a feed is clear: the end is known to a reader only. -/
theorem horizon_of_isOpen {feed : Feed} (h : feed.horizon.isOpen = true) :
    feed.horizon = .clear := by
  cases feed with
  | stream => rfl
  | script ds => exact scriptHorizon_of_isOpen ds h

variable {n : Nat} {feed : Feed} {c : Char} {cs : List Char}

/-- While there is text in store, a request hands out the front of it. -/
theorem request_of_supply_cons (hn : 0 < n) (h : feed.supply = c :: cs) :
    ∃ ds rest, feed.request n = (.text (c :: ds), rest) ∧ ds ++ rest.supply = cs ∧
      rest.horizon = feed.horizon := by
  match feed, h with
  | .stream left, h =>
    obtain ⟨m, rfl⟩ := Nat.exists_eq_succ_of_ne_zero (Nat.ne_of_gt hn)
    obtain rfl : left = c :: cs := h
    exact ⟨cs.take m, .stream (cs.drop m), rfl, List.take_append_drop m cs, rfl⟩
  | .script (.text (d :: ds) :: more), h =>
    obtain ⟨rfl, rfl⟩ := List.cons.inj h
    exact ⟨ds, .script more, rfl, rfl, rfl⟩

/-- With nothing in store and the end before it, a feed answers with no text. -/
theorem request_of_clear (h : feed.supply = []) (hz : feed.horizon = .clear) :
    ∃ rest, feed.request n = (.text [], rest) := by
  match feed, h, hz with
  | .stream left, h, _ =>
    obtain rfl : left = [] := h
    exact ⟨.stream ([].drop n), by rw [request, List.take_nil]⟩
  | .script [], _, _ => exact ⟨.script [], rfl⟩
  | .script (.text [] :: more), _, _ => exact ⟨.script more, rfl⟩

end Feed

/-! ## Where a reader stands -/

namespace Reader

/-- **What holds of every reader in use**: it asks for characters, its cursor lies in the text
pulled, its index lists the lines of that text, and only a character that was read is pushed
back. -/
structure Sound (r : Reader) : Prop where
  chunk_pos : 0 < r.chunk
  cursor_le : r.cursor ≤ r.buffer.size
  lists : r.lines.Lists r.text
  cursor_pos : r.canUnread = true → 0 < r.cursor

/-- The text that is still to come. -/
def coming (r : Reader) : List Char := r.ahead ++ if r.exhausted then [] else r.feed.supply

/-- What lies behind the text to come. -/
def horizon (r : Reader) : Horizon := if r.exhausted then .known else r.feed.horizon

/-- **A sound reader stands between the text passed and the text to come.** -/
structure StandsAt (r : Reader) (passed coming : List Char) (z : Horizon) : Prop extends
    r.Sound where
  consumed_eq : r.consumed = passed
  coming_eq : r.coming = coming
  horizon_eq : r.horizon = z

theorem consumed_append_ahead (r : Reader) : r.consumed ++ r.ahead = r.text :=
  List.take_append_drop r.cursor r.text

theorem length_consumed {r : Reader} (h : r.Sound) : r.consumed.length = r.cursor := by
  have := h.cursor_le
  rw [consumed, List.length_take, text, Array.length_toList]
  omega

theorem getElem?_cursor (r : Reader) : r.buffer[r.cursor]? = r.ahead.head? := by
  rw [ahead, List.head?_drop, text, Array.getElem?_toList]

variable {r : Reader} {passed cs : List Char} {c : Char} {z : Horizon}

/-- **The position of a reader is the one behind the text passed.** -/
theorem StandsAt.position_eq (h : r.StandsAt passed cs z) : r.position = .after passed := by
  have hl : r.lines.Lists (r.consumed ++ r.ahead) := by
    rw [consumed_append_ahead]
    exact h.lists
  rw [position, ← length_consumed h.toSound, LineIndex.position_of_lists hl, h.consumed_eq]

/-- Where nothing is to come, all text pulled was passed. -/
theorem StandsAt.text_eq (h : r.StandsAt passed [] z) : r.text = passed := by
  have hahead : r.ahead = [] := (List.append_eq_nil_iff.1 h.coming_eq).1
  rw [← consumed_append_ahead, hahead, List.append_nil, h.consumed_eq]

/-! ## Pulling a chunk -/

theorem text_append (r : Reader) (ds : List Char) : (r.append ds).text = r.text ++ ds := by
  simp [append, text]

theorem Sound.append (h : r.Sound) (ds : List Char) : (r.append ds).Sound where
  chunk_pos := h.chunk_pos
  cursor_le := by
    have := h.cursor_le
    have hcursor : (r.append ds).cursor = r.cursor := rfl
    rw [size_append, hcursor]
    omega
  lists := by
    have hl := h.lists.extend ds
    rw [text, Array.length_toList, ← text, ← text_append] at hl
    exact hl
  cursor_pos := h.cursor_pos

theorem consumed_append (h : r.Sound) (ds : List Char) : (r.append ds).consumed = r.consumed := by
  have hcursor : (r.append ds).cursor = r.cursor := rfl
  have hle : r.cursor ≤ r.text.length := by simpa [text] using h.cursor_le
  rw [consumed, text_append, hcursor, List.take_append_of_le_length hle, consumed]

theorem ahead_append (h : r.Sound) (ds : List Char) : (r.append ds).ahead = r.ahead ++ ds := by
  have hcursor : (r.append ds).cursor = r.cursor := rfl
  have hle : r.cursor ≤ r.text.length := by simpa [text] using h.cursor_le
  rw [ahead, text_append, hcursor, List.drop_append_of_le_length hle, ahead]

/-- A reader whose feed has answered a request. -/
def requested (r : Reader) (feed : Feed) : Reader :=
  { r with feed, requests := r.requests.push r.chunk }

theorem Sound.requested (h : r.Sound) (feed : Feed) : (r.requested feed).Sound :=
  ⟨h.chunk_pos, h.cursor_le, h.lists, h.cursor_pos⟩

theorem fill_of_exhausted (h : r.exhausted = true) : fill r = .ok () r := by
  rw [fill, if_pos h]

theorem fill_of_text {feed : Feed} (hex : r.exhausted = false)
    (h : r.feed.request r.chunk = (.text (c :: cs), feed)) :
    fill r = .ok () ((r.requested feed).append (c :: cs)) := by
  rw [fill, if_neg (by simp [hex]), h]
  rfl

theorem fill_of_end {feed : Feed} (hex : r.exhausted = false)
    (h : r.feed.request r.chunk = (.text [], feed)) :
    fill r = .ok () { r.requested feed with exhausted := true } := by
  rw [fill, if_neg (by simp [hex]), h]
  rfl

/-- **At the end of the text pulled a chunk brings the next character**, if there is one. -/
theorem fill_cons (h : r.StandsAt passed (c :: cs) z) (hahead : r.ahead = []) :
    ∃ r', fill r = .ok () r' ∧ r'.StandsAt passed (c :: cs) z ∧ r'.canUnread = r.canUnread ∧
      r'.ahead.head? = some c := by
  have hex : r.exhausted = false := by
    cases hx : r.exhausted with
    | false => rfl
    | true => exact absurd h.coming_eq (by simp [coming, hahead, hx])
  have hsupply : r.feed.supply = c :: cs := by simpa [coming, hahead, hex] using h.coming_eq
  have hz : r.feed.horizon = z := by simpa [horizon, hex] using h.horizon_eq
  obtain ⟨ds, feed, hq, hrest, hfeed⟩ := Feed.request_of_supply_cons h.chunk_pos hsupply
  have hsound := h.toSound.requested feed
  have hnew : ((r.requested feed).append (c :: ds)).ahead = c :: ds := by
    rw [ahead_append hsound]
    exact congrArg (· ++ c :: ds) hahead
  have hex' : ((r.requested feed).append (c :: ds)).exhausted = false := hex
  refine ⟨_, fill_of_text hex hq, ⟨hsound.append (c :: ds), ?_, ?_, ?_⟩, rfl, ?_⟩
  · exact (consumed_append hsound (c :: ds)).trans h.consumed_eq
  · rw [coming, hnew, hex', if_neg Bool.false_ne_true, ← hrest]
    rfl
  · rw [horizon, hex', if_neg Bool.false_ne_true, ← hz, ← hfeed]
    rfl
  · rw [hnew, List.head?_cons]

/-- **Where nothing is to come a chunk brings nothing**, and the end is known from then on. -/
theorem fill_nil (h : r.StandsAt passed [] z) (hz : z.isOpen = true) :
    ∃ r', fill r = .ok () r' ∧ r'.StandsAt passed [] z.asked ∧ r'.canUnread = r.canUnread ∧
      r'.ahead.head? = none := by
  obtain ⟨hahead, hsupply⟩ := List.append_eq_nil_iff.1 h.coming_eq
  have hhead : r.ahead.head? = none := by rw [hahead, List.head?_nil]
  cases hex : r.exhausted with
  | true =>
    have hknown : z = .known := by rw [← h.horizon_eq, horizon, if_pos hex]
    subst hknown
    exact ⟨r, fill_of_exhausted hex, h, rfl, hhead⟩
  | false =>
    have hfeed : r.feed.horizon = z := by simpa [horizon, hex] using h.horizon_eq
    have hclear : z = .clear := by
      rw [← hfeed] at hz ⊢
      exact Feed.horizon_of_isOpen hz
    subst hclear
    have hempty : r.feed.supply = [] := by simpa [hex] using hsupply
    obtain ⟨feed, hq⟩ := Feed.request_of_clear (n := r.chunk) hempty hfeed
    have hsound := h.toSound.requested feed
    refine ⟨_, fill_of_end hex hq,
      ⟨⟨hsound.1, hsound.2, hsound.3, hsound.4⟩, h.consumed_eq, ?_, rfl⟩, rfl, hhead⟩
    rw [coming, if_pos rfl, List.append_nil]
    exact hahead

/-! ## The operations -/

/-- **A look at the next character** finds it where there is one. -/
theorem peek_cons (h : r.StandsAt passed (c :: cs) z) :
    ∃ r', peek r = .ok (some c) r' ∧ r'.StandsAt passed (c :: cs) z ∧
      r'.canUnread = r.canUnread ∧ r'.ahead.head? = some c := by
  cases hahead : r.ahead with
  | cons d ds =>
    have hd : d = c := by
      have := h.coming_eq
      rw [coming, hahead, List.cons_append] at this
      exact (List.cons.inj this).1
    subst hd
    refine ⟨r, ?_, h, rfl, by rw [hahead, List.head?_cons]⟩
    rw [peek, getElem?_cursor, hahead, List.head?_cons]
  | nil =>
    obtain ⟨r', hfill, hstands, hcan, hhead⟩ := fill_cons h hahead
    refine ⟨r', ?_, hstands, hcan, hhead⟩
    rw [peek, getElem?_cursor, hahead, List.head?_nil, hfill]
    simp only [getElem?_cursor, hhead]

/-- **A look at the next character** finds none behind the text. -/
theorem peek_nil (h : r.StandsAt passed [] z) (hz : z.isOpen = true) :
    ∃ r', peek r = .ok none r' ∧ r'.StandsAt passed [] z.asked ∧ r'.canUnread = r.canUnread := by
  have hahead : r.ahead = [] := (List.append_eq_nil_iff.1 h.coming_eq).1
  obtain ⟨r', hfill, hstands, hcan, hhead⟩ := fill_nil h hz
  refine ⟨r', ?_, hstands, hcan⟩
  rw [peek, getElem?_cursor, hahead, List.head?_nil, hfill]
  simp only [getElem?_cursor, hhead]

/-- **Reading takes the next character** to the text passed. -/
theorem read_cons (h : r.StandsAt passed (c :: cs) z) :
    ∃ r', read r = .ok (some c) r' ∧ r'.StandsAt (passed ++ [c]) cs z ∧ r'.canUnread = true := by
  obtain ⟨r₁, hpeek, h₁, -, hhead⟩ := peek_cons h
  obtain ⟨ds, hahead⟩ := List.head?_eq_some_iff.1 hhead
  have hget : r₁.text[r₁.cursor]? = some c := by
    rw [← hhead, ahead, List.head?_drop]
  have hlt : r₁.cursor < r₁.text.length := (List.getElem?_eq_some_iff.1 hget).1
  refine ⟨{ r₁ with cursor := r₁.cursor + 1, canUnread := true }, by rw [read, hpeek],
    ⟨⟨h₁.chunk_pos, ?_, h₁.lists, fun _ => Nat.succ_pos _⟩, ?_, ?_, h₁.horizon_eq⟩, rfl⟩
  · rw [text, Array.length_toList] at hlt
    exact hlt
  · have htake : r₁.text.take (r₁.cursor + 1) = r₁.text.take r₁.cursor ++ [c] := by
      rw [List.take_add_one, hget, Option.toList_some]
    exact htake.trans (congrArg (· ++ [c]) h₁.consumed_eq)
  · have hdrop : r₁.text.drop (r₁.cursor + 1) = ds := by
      rw [← List.drop_drop, show r₁.text.drop r₁.cursor = c :: ds from hahead, List.drop_one,
        List.tail_cons]
    have hcoming := h₁.coming_eq
    rw [coming, hahead, List.cons_append] at hcoming
    exact (congrArg (· ++ _) hdrop).trans (List.cons.inj hcoming).2

/-- **Reading behind the text** gives no character. -/
theorem read_nil (h : r.StandsAt passed [] z) (hz : z.isOpen = true) :
    ∃ r', read r = .ok none r' ∧ r'.StandsAt passed [] z.asked := by
  obtain ⟨r₁, hpeek, h₁, -⟩ := peek_nil h hz
  exact ⟨{ r₁ with canUnread := false }, by rw [read, hpeek],
    ⟨⟨h₁.chunk_pos, h₁.cursor_le, h₁.lists, by simp⟩, h₁.consumed_eq, h₁.coming_eq,
      h₁.horizon_eq⟩⟩

/-- **A character pushed back** is to come again. -/
theorem unread_of_standsAt (h : r.StandsAt (passed ++ [c]) cs z) (hcan : r.canUnread = true) :
    ∃ r', unread r = .ok () r' ∧ r'.StandsAt passed (c :: cs) z := by
  have hcursor : r.cursor = passed.length + 1 := by
    rw [← length_consumed h.toSound, h.consumed_eq, List.length_append, List.length_singleton]
  have htext : r.text = passed ++ c :: r.ahead := by
    rw [← consumed_append_ahead, h.consumed_eq, List.append_assoc, List.singleton_append]
  have hle := h.cursor_le
  refine ⟨{ r with cursor := r.cursor - 1, canUnread := false }, by rw [unread, if_pos hcan],
    ⟨⟨h.chunk_pos, ?_, h.lists, by simp⟩, ?_, ?_, h.horizon_eq⟩⟩
  · simp only
    omega
  · have htake : r.text.take (r.cursor - 1) = passed := by
      rw [htext, hcursor, Nat.add_sub_cancel, List.take_left]
    exact htake
  · have hdrop : r.text.drop (r.cursor - 1) = c :: r.ahead := by
      rw [htext, hcursor, Nat.add_sub_cancel, List.drop_left]
    exact (congrArg (· ++ _) hdrop).trans (congrArg (c :: ·) h.coming_eq)

/-! ## Where a reader starts -/

/-- A new reader of a feed has all of its text to come. -/
theorem standsAt_ofFeed (feed : Feed) (chunk : Nat) (hchunk : 0 < chunk) :
    (ofFeed feed chunk).StandsAt [] feed.supply feed.horizon :=
  ⟨⟨hchunk, Nat.le_refl 0, LineIndex.lists_empty, by simp [ofFeed]⟩, rfl, rfl, rfl⟩

/-- A reader of a text that is there at once has all of it to come, and knows its end. -/
theorem standsAt_ofText (cs : List Char) : (ofText cs).StandsAt [] cs .known := by
  have hsound := (standsAt_ofFeed .empty defaultChunk (by decide)).toSound.append cs
  refine ⟨⟨hsound.1, hsound.2, hsound.3, hsound.4⟩, rfl, ?_, rfl⟩
  have hex : (ofText cs).exhausted = true := rfl
  rw [coming, if_pos hex, List.append_nil]
  exact text_append (ofFeed .empty defaultChunk) cs

/-- **A reader as it is made**, of a text or of a feed. -/
inductive IsNew : Reader → Prop
  | ofText (cs : List Char) : IsNew (.ofText cs)
  | ofFeed (feed : Feed) {chunk : Nat} : 0 < chunk → IsNew (.ofFeed feed chunk)

/-- A new reader is sound. -/
theorem IsNew.sound (h : r.IsNew) : r.Sound := by
  rcases h with ⟨cs⟩ | ⟨feed, hchunk⟩
  · exact (standsAt_ofText cs).toSound
  · exact (standsAt_ofFeed feed _ hchunk).toSound

/-- **The ways to give a text to a reader**: at once, by a stream that hands out as much as it is
asked for, or by one that hands out pieces of its own choice. -/
inductive Supplied (text : List Char) : Reader → Prop where
  | atOnce : Supplied text (ofText text)
  | stream {chunk : Nat} : 0 < chunk → Supplied text (ofFeed (.stream text) chunk)
  | pieces {pieces : List (List Char)} {chunk : Nat} : 0 < chunk → (∀ p ∈ pieces, p ≠ []) →
      pieces.flatten = text → Supplied text (ofFeed (.script (pieces.map .text)) chunk)

/-- **However a text is given**, all of it is to come, and no fault lies behind it. -/
theorem standsAt_of_supplied {text : List Char} (h : Supplied text r) :
    ∃ z : Horizon, r.StandsAt [] text z ∧ z.isOpen = true := by
  cases h with
  | atOnce => exact ⟨.known, standsAt_ofText text, rfl⟩
  | stream hchunk => exact ⟨.clear, standsAt_ofFeed (.stream text) _ hchunk, rfl⟩
  | @pieces pieces chunk hchunk hne hflatten =>
    have hstands := standsAt_ofFeed (.script (pieces.map .text)) chunk hchunk
    obtain ⟨hsupply, hhorizon⟩ := Feed.supply_script_append pieces [] hne
    rw [List.append_nil] at hsupply hhorizon
    rw [Feed.supply, hsupply, Feed.horizon, hhorizon, hflatten] at hstands
    have htext : text ++ Feed.scriptSupply [] = text := List.append_nil text
    rw [htext] at hstands
    exact ⟨.clear, hstands, rfl⟩

end Reader

end ConfigScript.Source
