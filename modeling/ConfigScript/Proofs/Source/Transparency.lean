import ConfigScript.Proofs.Source.Operations
import Mathlib.Data.List.Basic

/-!
# Proofs/Source/Transparency — what fails leaves no trace

A feed may fail at any request, with or without a character pushed back, and go on behind that.  The
main statement, `transparent_script`, compares a reader over such a feed with one of the whole text
that the feed hands out in the end, `Delivery.textOf`: with the operations taken out that the feed
let fail, the others answer alike and are alike placed, and those taken out changed nothing.

The engine is `Reader.Mirrors`: the two readers have passed the same text, and what the one has
still to come, behind faults and all, the other has ahead of it.  An operation that succeeds keeps
this on both sides, and one that fails on the side of the feed alone (`perform_mirrors`).
-/

namespace ConfigScript.Source

/-! ## The text of a feed that may fail -/

namespace Delivery

variable {d : Delivery} {ds : List Delivery}

/-- **The text that deliveries hand out** before its end, whatever fails in between. -/
def textOf (ds : List Delivery) : List Char := (ds.takeWhile (!·.isEnd)).flatMap chars

theorem textOf_cons_text (c : Char) (cs : List Char) (ds : List Delivery) :
    textOf (.text (c :: cs) :: ds) = c :: cs ++ textOf ds := by
  simp [textOf, isEnd, chars]

theorem textOf_cons_of_isText_eq_false (h : d.isText = false) : textOf (d :: ds) = textOf ds := by
  have hend : d.isEnd = false := by
    rcases d with cs | _ | _ | _ | _
    · exact absurd h (by simp [isText])
    all_goals rfl
  simp [textOf, hend, chars_of_isText_eq_false h]

end Delivery

/-- The text that a feed hands out, whatever fails in between. -/
def Feed.textOf : Feed → List Char
  | .stream left => left
  | .script ds => Delivery.textOf ds

/-- The text that lies behind a horizon. -/
def Horizon.textBehind : Horizon → List Char
  | .known | .clear => []
  | .blocked _ rest => rest.textOf

theorem Delivery.textOf_eq : ∀ ds : List Delivery,
    textOf ds = Feed.scriptSupply ds ++ (Feed.scriptHorizon ds).textBehind
  | [] | .text [] :: _ => rfl
  | .text (c :: cs) :: ds => by
    rw [textOf_cons_text, textOf_eq ds, Feed.scriptSupply, Feed.scriptHorizon, List.append_assoc]
  | .undecodable _ :: ds | .failure _ :: ds | .nonText _ :: ds | .foreign _ :: ds =>
    textOf_cons_of_isText_eq_false rfl

/-- **The text of a feed** is the text it has in store, and what lies behind its horizon. -/
theorem Feed.textOf_eq (feed : Feed) : feed.textOf = feed.supply ++ feed.horizon.textBehind := by
  rcases feed with left | ds
  · exact (List.append_nil left).symm
  · exact Delivery.textOf_eq ds

/-! ## Operations that the feed lets fail -/

namespace Reader

/-- **Whether an operation failed because of the feed.** -/
def Answer.failed : Answer → Bool
  | .fault e => e.isOfFeed
  | .char _ | .done | .position _ | .text _ => false

variable {r s : Reader} {op : Op} {ops : List Op}

/-- The answer of a reading that gives a character. -/
def answered : EStateM.Result Fault Reader (Option Char) → Answer × Reader
  | .ok c r => (.char c, r)
  | .error e r => (.fault e, r)

theorem perform_read (r : Reader) : perform .read r = answered (read r) := by
  rw [perform]
  rcases read r with ⟨c, s⟩ | ⟨e, s⟩ <;> rfl

theorem perform_peek (r : Reader) : perform .peek r = answered (peek r) := by
  rw [perform]
  rcases peek r with ⟨c, s⟩ | ⟨e, s⟩ <;> rfl

theorem exists_heard_of_told {result : EStateM.Result Fault Reader (Option Char)}
    (h : r.Told result) : ∃ ds, r.Heard ds (answered result).2 ∧
      ((answered result).1.failed = true ↔ ∃ d ∈ ds, d.isText = false) := by
  rcases result with ⟨c, s⟩ | ⟨e, s⟩
  · obtain ⟨ds, hheard, htext⟩ := h
    refine ⟨ds, hheard, fun hfailed => absurd hfailed Bool.false_ne_true, ?_⟩
    rintro ⟨d, hd, hfalse⟩
    exact absurd (hfalse.symm.trans (htext d hd)) Bool.false_ne_true
  · obtain ⟨ds, d, hheard, -, hfault, -⟩ := h
    have hd : d.isText = false := Delivery.isSome_fault?_iff.1 (by rw [hfault]; rfl)
    exact ⟨ds ++ [d], hheard, fun _ => ⟨d, by simp, hd⟩,
      fun _ => Delivery.isOfFeed_of_fault? hfault⟩

/-- **An operation fails exactly if the feed answered it with something that is no text.** -/
theorem exists_heard_perform (op : Op) (r : Reader) :
    ∃ ds, r.Heard ds (perform op r).2 ∧
      ((perform op r).1.failed = true ↔ ∃ d ∈ ds, d.isText = false) := by
  rcases op with _ | _ | _ | _ | _
  · rw [perform_read]
    exact exists_heard_of_told (told_read rfl)
  · rw [perform_peek]
    exact exists_heard_of_told (told_peek rfl)
  · refine ⟨[], ?_, ?_⟩
    · rw [perform, unread]
      split_ifs
      · exact (Heard.refl r).moved _ _
      · exact .refl r
    · rw [perform, unread]
      split_ifs <;> simp [Answer.failed, Fault.isOfFeed]
  · exact ⟨[], .refl r, by simp [perform, Answer.failed]⟩
  · exact ⟨[], .refl r, by simp [perform, Answer.failed]⟩

/-- **An operation that fails leaves all in place** but the feed and the record of requests. -/
theorem eq_requested_of_failed (h : (perform op r).1.failed = true) :
    ∃ feed, (perform op r).2 = r.requested feed := by
  have hanswered {result : EStateM.Result Fault Reader (Option Char)}
      (hfailed : (answered result).1.failed = true)
      (herror : ∀ e s, result = .error e s → ∃ feed, s = r.requested feed) :
      ∃ feed, (answered result).2 = r.requested feed := by
    rcases result with ⟨c, s⟩ | ⟨e, s⟩
    · exact absurd hfailed Bool.false_ne_true
    · exact herror e s rfl
  rcases op with _ | _ | _ | _ | _
  · rw [perform_read] at h ⊢
    exact hanswered h fun e s hread => eq_requested_of_peek (read_eq_error_iff.1 hread)
  · rw [perform_peek] at h ⊢
    exact hanswered h fun e s hpeek => eq_requested_of_peek hpeek
  · rw [perform, unread] at h
    split_ifs at h <;> exact absurd h (by simp [Answer.failed, Fault.isOfFeed])
  · exact absurd h Bool.false_ne_true
  · exact absurd h Bool.false_ne_true

/-! ## A reader of the whole text beside it -/

/-- **A reader of the whole text beside one over a feed**: both have passed the same text and may
push back or not alike, and what is to come from the feed, whatever fails in between, the other has
ahead of it. -/
def Mirrors (r s : Reader) : Prop :=
  ∃ passed coming z, r.StandsAt passed coming z ∧
    s.StandsAt passed (coming ++ z.textBehind) .known ∧ r.canUnread = s.canUnread

theorem Mirrors.position_eq (h : r.Mirrors s) : r.position = s.position := by
  obtain ⟨passed, coming, z, hr, hs, -⟩ := h
  rw [hr.position_eq, hs.position_eq]

theorem mirrors_ofFeed (feed : Feed) {chunk : Nat} (hchunk : 0 < chunk) :
    (ofFeed feed chunk).Mirrors (ofText feed.textOf) := by
  refine ⟨[], _, _, standsAt_ofFeed feed chunk hchunk, ?_, rfl⟩
  rw [← feed.textOf_eq]
  exact standsAt_ofText feed.textOf

/-- Behind a failed reading the two readers are as they were. -/
theorem mirrors_of_stopsAt {α : Type} {passed : List Char} {d : Delivery} {rest : Feed}
    {result : EStateM.Result Fault Reader α} (hstop : StopsAt result passed d rest)
    (hs : s.StandsAt passed rest.textOf .known) (hcan : (leftBy result).canUnread = s.canUnread) :
    ∃ e r', result = .error e r' ∧ e.isOfFeed = true ∧ r'.Mirrors s := by
  obtain ⟨e, r', rfl, hfault, hr'⟩ := hstop
  refine ⟨e, r', rfl, Delivery.isOfFeed_of_fault? hfault, passed, _, _, hr', ?_, hcan⟩
  rwa [← rest.textOf_eq]

/-- **Two readings side by side**: both give the same and leave readers that belong together, or the
feed lets the first one fail, and the readers still belong together without the second. -/
def SideBySide (first second : EStateM.Result Fault Reader (Option Char)) (s : Reader) : Prop :=
  (∃ c r' s', first = .ok c r' ∧ second = .ok c s' ∧ r'.Mirrors s') ∨
    ∃ e r', first = .error e r' ∧ e.isOfFeed = true ∧ r'.Mirrors s

theorem peek_mirrors (h : r.Mirrors s) : SideBySide (peek r) (peek s) s := by
  obtain ⟨passed, coming, z, hr, hs, hcan⟩ := h
  rcases coming with _ | ⟨c, cs⟩
  · rw [List.nil_append] at hs
    rcases hz : z with _ | _ | ⟨d, rest⟩ <;> subst hz
    case blocked =>
      refine Or.inr (mirrors_of_stopsAt (peek_blocked hr) hs ?_)
      obtain ⟨e, r', hpeek, -⟩ := peek_blocked hr
      obtain ⟨feed, rfl⟩ := eq_requested_of_peek hpeek
      rw [hpeek]
      exact hcan
    all_goals
      obtain ⟨r', hpeek, hr', hcan'⟩ := peek_nil hr rfl
      obtain ⟨s', hpeek', hs', hcan''⟩ := peek_nil hs rfl
      exact Or.inl ⟨none, r', s', hpeek, hpeek', passed, [], .known, hr', hs',
        hcan'.trans (hcan.trans hcan''.symm)⟩
  · obtain ⟨r', hpeek, hr', hcan', -⟩ := peek_cons hr
    obtain ⟨s', hpeek', hs', hcan'', -⟩ := peek_cons hs
    exact Or.inl ⟨some c, r', s', hpeek, hpeek', passed, c :: cs, z, hr', hs',
      hcan'.trans (hcan.trans hcan''.symm)⟩

theorem read_mirrors (h : r.Mirrors s) : SideBySide (read r) (read s) s := by
  obtain ⟨passed, coming, z, hr, hs, hcan⟩ := h
  rcases coming with _ | ⟨c, cs⟩
  · rw [List.nil_append] at hs
    rcases hz : z with _ | _ | ⟨d, rest⟩ <;> subst hz
    case blocked =>
      refine Or.inr (mirrors_of_stopsAt (read_blocked hr) hs ?_)
      obtain ⟨e, r', hread, -⟩ := read_blocked hr
      obtain ⟨feed, rfl⟩ := eq_requested_of_peek (read_eq_error_iff.1 hread)
      rw [hread]
      exact hcan
    all_goals
      obtain ⟨r', hread, hr'⟩ := read_nil hr rfl
      obtain ⟨s', hread', hs'⟩ := read_nil hs rfl
      refine Or.inl ⟨none, r', s', hread, hread', passed, [], .known, hr', hs', ?_⟩
      rw [canUnread_of_read_none hread, canUnread_of_read_none hread']
  · obtain ⟨r', hread, hr', hcan'⟩ := read_cons hr
    obtain ⟨s', hread', hs', hcan''⟩ := read_cons hs
    exact Or.inl ⟨some c, r', s', hread, hread', passed ++ [c], cs, z, hr', hs',
      hcan'.trans hcan''.symm⟩

/-- **Pushing back is the same on both sides**, refused or not. -/
theorem perform_unread_mirrors (h : r.Mirrors s) : (perform .unread r).1 = (perform .unread s).1 ∧
    (perform .unread r).2.Mirrors (perform .unread s).2 := by
  have hpos := h.position_eq
  obtain ⟨passed, coming, z, hr, hs, hcan⟩ := id h
  rcases hback : r.canUnread with _ | _
  · have hback' : s.canUnread = false := hcan.symm.trans hback
    rw [perform, perform, unread, unread, if_neg (by simp [hback]), if_neg (by simp [hback'])]
    simp only [hpos]
    exact ⟨trivial, h⟩
  · have hne : passed ≠ [] := by
      rintro rfl
      have hpositive := hr.cursor_pos hback
      rw [← length_consumed hr.toSound, hr.consumed_eq] at hpositive
      exact absurd hpositive (by simp)
    obtain ⟨init, c, rfl⟩ := (List.eq_nil_or_concat' passed).resolve_left hne
    obtain ⟨r', hunread, hr'⟩ := unread_of_standsAt hr hback
    obtain ⟨s', hunread', hs'⟩ := unread_of_standsAt hs (hcan.symm.trans hback)
    rw [perform, perform, hunread, hunread']
    refine ⟨rfl, init, c :: coming, z, hr', hs', ?_⟩
    rw [canUnread_of_unread hunread, canUnread_of_unread hunread']

/-- **An operation on both sides**: it answers alike, or the feed lets it fail on the first side and
the readers belong together without it on the second. -/
theorem perform_mirrors (h : r.Mirrors s) (hop : op ≠ .text) :
    ((perform op r).1.failed = false ∧ (perform op r).1 = (perform op s).1 ∧
        (perform op r).2.Mirrors (perform op s).2) ∨
      ((perform op r).1.failed = true ∧ (perform op r).2.Mirrors s) := by
  have hside {first second : EStateM.Result Fault Reader (Option Char)}
      (hside : SideBySide first second s) :
      ((answered first).1.failed = false ∧ (answered first).1 = (answered second).1 ∧
          (answered first).2.Mirrors (answered second).2) ∨
        ((answered first).1.failed = true ∧ (answered first).2.Mirrors s) := by
    rcases hside with ⟨c, r', s', rfl, rfl, h'⟩ | ⟨e, r', rfl, he, h'⟩
    · exact Or.inl ⟨rfl, rfl, h'⟩
    · exact Or.inr ⟨he, h'⟩
  rcases op with _ | _ | _ | _ | _
  · rw [perform_read, perform_read]
    exact hside (read_mirrors h)
  · rw [perform_peek, perform_peek]
    exact hside (peek_mirrors h)
  · refine Or.inl ⟨?_, perform_unread_mirrors h⟩
    rw [perform, unread]
    split_ifs <;> rfl
  · exact Or.inl ⟨rfl, congrArg Answer.position h.position_eq, h⟩
  · exact absurd rfl hop

/-! ## Runs of operations -/

/-- **The operations of a run that the feed did not let fail**, each with its answer and the reader
behind it. -/
def survivors (ops : List Op) (r : Reader) : List (Op × Answer × Reader) :=
  (ops.zip (performAll ops r)).filter fun x => !x.2.1.failed

theorem survivors_cons (op : Op) (ops : List Op) (r : Reader) : survivors (op :: ops) r =
    if (perform op r).1.failed then survivors ops (perform op r).2
    else (op, perform op r) :: survivors ops (perform op r).2 := by
  rw [survivors, performAll, List.zip_cons_cons, List.filter_cons]
  rcases hfailed : (perform op r).1.failed <;> simp [survivors]

/-- What a run shows: each answer, and the position behind it. -/
def shows (xs : List (Answer × Reader)) : List (Answer × Position) :=
  xs.map fun x => (x.1, x.2.position)

/-- **The operations that do not fail answer as on the whole text**, without those that do. -/
theorem shows_survivors (h : r.Mirrors s) (hops : .text ∉ ops) :
    shows ((survivors ops r).map Prod.snd)
      = shows (performAll ((survivors ops r).map Prod.fst) s) := by
  induction ops generalizing r s with
  | nil => rfl
  | cons op ops ih =>
    rw [List.mem_cons, not_or] at hops
    rw [survivors_cons]
    rcases perform_mirrors h (Ne.symm hops.1) with ⟨hfailed, hanswer, h'⟩ | ⟨hfailed, h'⟩
    · rw [if_neg (by simp [hfailed])]
      have hrest := ih h' hops.2
      simp only [shows, List.map_cons, performAll] at hrest ⊢
      rw [hrest, hanswer, h'.position_eq]
    · rw [if_pos hfailed]
      exact ih h' hops.2

/-- **What a feed that may fail comes to for its reader.** -/
structure Transparent (deliveries : List Delivery) (ops : List Op) (start : Reader) : Prop where
  /-- what does not fail is answered, and placed, as by a reader of the whole text that performs
  nothing else -/
  kept : shows ((survivors ops start).map Prod.snd)
    = shows (performAll ((survivors ops start).map Prod.fst)
        (.ofText (Delivery.textOf deliveries)))
  /-- an operation fails if the feed answered with something that is no text, and only then -/
  failed_iff : ∀ r, start.Leads r → ∀ op, ∃ ds, r.Heard ds (perform op r).2 ∧
    ((perform op r).1.failed = true ↔ ∃ d ∈ ds, d.isText = false)
  /-- and it leaves all in place -/
  unmoved : ∀ r, start.Leads r → ∀ op, (perform op r).1.failed = true →
    (perform op r).2.position = r.position ∧ (perform op r).2.text = r.text ∧
      (perform op r).2.canUnread = r.canUnread

/-- **What fails leaves no trace**: over any script of deliveries, with requests of any size. -/
theorem transparent_script (deliveries : List Delivery) {chunk : Nat} (hchunk : 0 < chunk)
    {ops : List Op} (hops : .text ∉ ops) :
    Transparent deliveries ops (.ofFeed (.script deliveries) chunk) where
  kept := shows_survivors (mirrors_ofFeed (.script deliveries) hchunk) hops
  failed_iff r _ op := exists_heard_perform op r
  unmoved r _ op hfailed := by
    obtain ⟨feed, hr'⟩ := eq_requested_of_failed hfailed
    rw [hr']
    exact ⟨rfl, rfl, rfl⟩

/-- A failure and bytes that are no text between the pieces of a text, met with a character that may
still be pushed back and with none, and deliveries behind the end. -/
theorem transparent_script_pushed_back :
    Transparent [.text ['a', '\n'], .failure ⟨some 5, "Input/output error"⟩, .nonText .bytes,
        .text ['b'], .text [], .text ['c']]
      [.read, .read, .peek, .unread, .unread, .read, .read, .unread, .read, .peek, .position, .read]
      (.ofFeed (.script [.text ['a', '\n'], .failure ⟨some 5, "Input/output error"⟩,
        .nonText .bytes, .text ['b'], .text [], .text ['c']]) 1) :=
  transparent_script _ Nat.one_pos (by simp)

end Reader

end ConfigScript.Source
