import ConfigScript.Proofs.Lexis.Calls

/-!
# Proofs/Lexis/Sharing — iterators share one stream of tokens

Any number of iterators, finished or not, and direct requests read the same text in any order.  The
main statement, `sharing_session`, says that nothing is lost in this and nothing delivered twice:
what is delivered, in the order of time, is the front of what direct calls on a scanner of its own
would come to (`outcomesOf`), an iterator is over exactly when the end token or a fault went to it,
and then it leaves the text alone.

The log of a session (`Session.log`) says what was delivered and to whom.  All that an operation
does is in the cases of `Session.Performs`: it runs some calls (`delivered_eq_outcomesOf`) and keeps
each iterator's flag true to the log (`Tracks.perform`).  Both pass to a run of operations by
induction.
-/

namespace ConfigScript

open Source (Reader Fault)

variable {r : Reader}

/-! ## Outcomes -/

/-- The token delivered, if it is one. -/
def Outcome.token? : Outcome → Option Token
  | .token t => some t
  | .fault _ => none

/-- The fault let through, if it is one. -/
def Outcome.fault? : Outcome → Option Fault
  | .token _ => none
  | .fault e => some e

/-- **A walk ends with the one outcome that ends an iterator.** -/
theorem exists_isLast_outcomes (r : Reader) : ∃ o ∈ (walk r).outcomes, o.isLast = true := by
  fun_induction walk r with
  | case1 r e r' hs => exact ⟨.fault e, List.mem_singleton_self _, rfl⟩
  | case2 r t r' hs ht => exact ⟨.token t, List.mem_singleton_self _, ht⟩
  | case3 r t r' hs ht ih =>
    obtain ⟨o, ho, hlast⟩ := ih
    exact ⟨o, List.mem_cons_of_mem _ ho, hlast⟩

/-- An iterator that is not over delivers what a call comes to. -/
theorem Iter.next_of_live {it : Iter} (h : it.finished = false) (r : Reader) :
    it.next r = (some (call r).1, ⟨(call r).1.isLast⟩, (call r).2) := by
  rw [Iter.next, if_neg (by simp [h]), call]
  rcases scan r with ⟨t, r'⟩ | ⟨e, r'⟩ <;> rfl

namespace Session

variable {s : Session} {i : Nat} {op : Op}

/-! ## What an operation delivers -/

/-- Whether an iterator is over, by its number; one that was never made is. -/
def isOver (s : Session) (i : Nat) : Bool := s.iters[i]?.all Iter.finished

/-- **Something delivered**: an outcome, and the number of the iterator it went to if it went to
one that can be asked again. -/
structure Event where
  iter? : Option Nat
  outcome : Outcome

/-- **What an operation delivers**, in the order of time. -/
def delivered (op : Op) (s : Session) : List Event :=
  match op with
  | .scan => [⟨none, (call s.reader).1⟩]
  | .next i => if s.isOver i then [] else [⟨some i, (call s.reader).1⟩]
  | .all => (walk s.reader).outcomes.map (⟨none, ·⟩)
  | .drain i => if s.isOver i then [] else (walk s.reader).outcomes.map (⟨some i, ·⟩)
  | .iter | .text => []

/-- What went to one iterator is the same outcomes. -/
theorem map_outcome_map_mk (name : Option Nat) (os : List Outcome) :
    (os.map (Event.mk name)).map Event.outcome = os := by
  rw [List.map_map]
  exact List.map_id os

/-- **The log of a session**: what its operations deliver, one after the other. -/
def log : List Op → Session → List Event
  | [], _ => []
  | op :: ops, s => delivered op s ++ log ops (perform op s).2

theorem exists_iter_of_live (h : s.isOver i = false) :
    ∃ it, s.iters[i]? = some it ∧ it.finished = false := by
  rw [isOver] at h
  rcases hi : s.iters[i]? with _ | it <;> rw [hi] at h
  · exact absurd h (by simp)
  · exact ⟨it, rfl, h⟩

/-- An iterator that is not over was made. -/
theorem lt_size_of_live (h : s.isOver i = false) : i < s.iters.size := by
  obtain ⟨it, hi, -⟩ := exists_iter_of_live h
  exact (Array.getElem?_eq_some_iff.1 hi).1

theorem perform_next_of_over (h : s.isOver i = true) : perform (.next i) s = (.finished, s) := by
  rw [isOver] at h
  rw [perform]
  rcases hi : s.iters[i]? with _ | it
  · rfl
  · rw [hi] at h
    have hnext : it.next s.reader = (none, it, s.reader) := if_pos h
    have hset : s.iters.setIfInBounds i it = s.iters := by
      ext j hj hj'
      · exact Array.size_setIfInBounds
      · rw [Array.getElem_setIfInBounds]
        split
        next hij =>
          subst hij
          exact (Array.getElem_eq_iff.2 hi).symm
        next => rfl
    simp only [hnext, hset]
    rfl

theorem perform_next_of_live (h : s.isOver i = false) : perform (.next i) s
    = (.ofOutcome? (some (call s.reader).1),
      ⟨(call s.reader).2, s.iters.setIfInBounds i ⟨(call s.reader).1.isLast⟩⟩) := by
  obtain ⟨it, hi, hlive⟩ := exists_iter_of_live h
  simp only [perform, hi, Iter.next_of_live hlive]

theorem perform_drain_of_over (h : s.isOver i = true) : perform (.drain i) s = (.tokens [], s) := by
  rw [isOver] at h
  rw [perform]
  rcases hi : s.iters[i]? with _ | it
  · rfl
  · rw [hi] at h
    exact if_pos h

theorem perform_drain_of_live (h : s.isOver i = false) : perform (.drain i) s
    = (.ofWalk (walk s.reader), ⟨(walk s.reader).reader, s.iters.setIfInBounds i ⟨true⟩⟩) := by
  obtain ⟨it, hi, hlive⟩ := exists_iter_of_live h
  simp only [perform, hi, hlive, Bool.false_eq_true, if_false]

/-- **What an operation does**: what it delivers and answers, and the session it leaves.  An
iterator that is over and one that is not are told apart. -/
inductive Performs (s : Session) : Op → List Event → Answer → Session → Prop
  | scan : Performs s .scan [⟨none, (call s.reader).1⟩] (.ofOutcome? (some (call s.reader).1))
      ⟨(call s.reader).2, s.iters⟩
  | iter : Performs s .iter [] .made ⟨s.reader, s.iters.push {}⟩
  | text : Performs s .text [] (.text s.reader.text) s
  | all : Performs s .all ((walk s.reader).outcomes.map (⟨none, ·⟩)) (.ofWalk (walk s.reader))
      ⟨(walk s.reader).reader, s.iters⟩
  | nextOver {i : Nat} : s.isOver i = true → Performs s (.next i) [] .finished s
  | next {i : Nat} : s.isOver i = false → Performs s (.next i) [⟨some i, (call s.reader).1⟩]
      (.ofOutcome? (some (call s.reader).1))
      ⟨(call s.reader).2, s.iters.setIfInBounds i ⟨(call s.reader).1.isLast⟩⟩
  | drainOver {i : Nat} : s.isOver i = true → Performs s (.drain i) [] (.tokens []) s
  | drain {i : Nat} : s.isOver i = false → Performs s (.drain i)
      ((walk s.reader).outcomes.map (⟨some i, ·⟩)) (.ofWalk (walk s.reader))
      ⟨(walk s.reader).reader, s.iters.setIfInBounds i ⟨true⟩⟩

/-- **There is nothing else that an operation does.** -/
theorem performs_perform (op : Op) (s : Session) :
    Performs s op (delivered op s) (perform op s).1 (perform op s).2 := by
  cases op with
  | scan =>
    rw [perform_scan]
    exact .scan
  | iter => exact .iter
  | text => exact .text
  | all => exact .all
  | next i =>
    rw [delivered]
    cases hi : s.isOver i with
    | true =>
      rw [perform_next_of_over hi]
      exact .nextOver hi
    | false =>
      rw [perform_next_of_live hi]
      exact .next hi
  | drain i =>
    rw [delivered]
    cases hi : s.isOver i with
    | true =>
      rw [perform_drain_of_over hi]
      exact .drainOver hi
    | false =>
      rw [perform_drain_of_live hi]
      exact .drain hi

theorem isOver_setIfInBounds (hi : i < s.iters.size) (r : Reader) (it : Iter) (j : Nat) :
    isOver ⟨r, s.iters.setIfInBounds i it⟩ j = if i = j then it.finished else s.isOver j := by
  rw [isOver, Array.getElem?_setIfInBounds]
  split <;> rfl

theorem isOver_push (r : Reader) (j : Nat) :
    isOver ⟨r, s.iters.push {}⟩ j = if j = s.iters.size then false else s.isOver j := by
  rw [isOver, Array.getElem?_push]
  split <;> rfl

/-- **What an operation delivers is what the next calls come to**, and it leaves the reader behind
them. -/
theorem delivered_eq_outcomesOf (op : Op) (s : Session) :
    (delivered op s).map Event.outcome = outcomesOf s.reader (delivered op s).length ∧
      (perform op s).2.reader = readerAfter s.reader (delivered op s).length := by
  have hwalk (name : Option Nat) : ((walk s.reader).outcomes.map (Event.mk name)).map Event.outcome
        = outcomesOf s.reader ((walk s.reader).outcomes.map (Event.mk name)).length ∧
      (walk s.reader).reader
        = readerAfter s.reader ((walk s.reader).outcomes.map (Event.mk name)).length := by
    rw [map_outcome_map_mk, List.length_map]
    exact outcomes_walk s.reader
  have h := performs_perform op s
  generalize delivered op s = evs, (perform op s).1 = a, (perform op s).2 = s' at h ⊢
  cases h with
  | all => exact hwalk none
  | drain => exact hwalk _
  | scan | iter | text | nextOver | next | drainOver => exact ⟨rfl, rfl⟩

/-- **The log of a run is what the next calls come to**, in their order. -/
theorem log_eq_outcomesOf (ops : List Op) (s : Session) :
    (log ops s).map Event.outcome = outcomesOf s.reader (log ops s).length ∧
      (performAll ops s).2.reader = readerAfter s.reader (log ops s).length := by
  induction ops generalizing s with
  | nil => exact ⟨rfl, rfl⟩
  | cons op ops ih =>
    obtain ⟨hop, hreader⟩ := delivered_eq_outcomesOf op s
    obtain ⟨hops, hlast⟩ := ih (perform op s).2
    rw [log, List.map_append, List.length_append, outcomesOf_add, readerAfter_add, ← hreader, ← hop,
      ← hops]
    exact ⟨rfl, hlast⟩

/-! ## What an operation answers -/

/-- The answer to running an iterator to its end, by what it delivered: its tokens, which are lost
to the one who asked if it ended in a fault. -/
def Answer.ofOutcomes (os : List Outcome) : Answer :=
  match os.findSome? Outcome.fault? with
  | some e => .fault e
  | none => .tokens (os.filterMap Outcome.token?)

/-- **The answer to an operation**, by what it delivered and the text pulled. -/
def Answer.telling (op : Op) (text : List Char) (os : List Outcome) : Answer :=
  match op with
  | .scan | .next _ => .ofOutcome? os.head?
  | .all | .drain _ => .ofOutcomes os
  | .iter => .made
  | .text => .text text

theorem Answer.ofOutcomes_walk (w : Walk) : ofOutcomes w.outcomes = ofWalk w := by
  have htokens : w.tokens.findSome? (Outcome.fault? ∘ Outcome.token) = none :=
    List.findSome?_eq_none_iff.2 fun _ _ => rfl
  have hkept : w.tokens.filterMap (Outcome.token? ∘ Outcome.token) = w.tokens := List.filterMap_some
  rw [ofOutcomes, ofWalk, Walk.outcomes, Walk.result, List.findSome?_append, List.findSome?_map,
    htokens, List.filterMap_append, List.filterMap_map, hkept]
  cases w.fault? with
  | none => exact congrArg Answer.tokens (List.append_nil _)
  | some e => rfl

/-- **An operation answers by what it delivers.** -/
theorem perform_fst_eq_telling (op : Op) (s : Session) : (perform op s).1
    = .telling op s.reader.text ((delivered op s).map Event.outcome) := by
  have hwalk (name : Option Nat) : Answer.ofWalk (walk s.reader)
      = .ofOutcomes (((walk s.reader).outcomes.map (Event.mk name)).map Event.outcome) := by
    rw [map_outcome_map_mk, Answer.ofOutcomes_walk]
  have h := performs_perform op s
  generalize delivered op s = evs, (perform op s).1 = a, (perform op s).2 = s' at h ⊢
  cases h with
  | all => exact hwalk none
  | drain => exact hwalk _
  | scan | iter | text | nextOver | next | drainOver => rfl

/-- **An iterator answers that it is finished exactly if it is over.** -/
theorem perform_next_eq_finished_iff : (perform (.next i) s).1 = .finished ↔ s.isOver i = true := by
  cases hi : s.isOver i with
  | true => simp [perform_next_of_over hi]
  | false =>
    rw [perform_next_of_live hi]
    cases (call s.reader).1 <;> simp [Answer.ofOutcome?]

/-! ## Iterators are over by what went to them -/

/-- **An iterator came to its end**: the end token or a fault went to it. -/
def Ended (evs : List Event) (i : Nat) : Prop :=
  ∃ e ∈ evs, e.iter? = some i ∧ e.outcome.isLast = true

variable {evs evs' : List Event}

theorem ended_append : Ended (evs ++ evs') i ↔ Ended evs i ∨ Ended evs' i := by
  simp only [Ended, List.mem_append, or_and_right, exists_or]

/-- What went elsewhere ends no iterator. -/
theorem ended_append_of_forall_ne (h : ∀ e ∈ evs', e.iter? ≠ some i) :
    Ended (evs ++ evs') i ↔ Ended evs i := by
  rw [ended_append, or_iff_left]
  rintro ⟨e, he, hname, -⟩
  exact h e he hname

/-- **The flags of the iterators are true to the log**: everything in it went to an iterator that
was made, and an iterator is over exactly if it came to its end. -/
structure Tracks (evs : List Event) (s : Session) : Prop where
  made : ∀ e ∈ evs, ∀ i, e.iter? = some i → i < s.iters.size
  over_iff : ∀ i, i < s.iters.size → (s.isOver i = true ↔ Ended evs i)

namespace Tracks

/-- What goes to no iterator that can be asked again changes no flag. -/
theorem append_unnamed (h : Tracks evs s) (hevs : ∀ e ∈ evs', e.iter? = none) (r : Reader) :
    Tracks (evs ++ evs') ⟨r, s.iters⟩ where
  made e he j hj := by
    rcases List.mem_append.1 he with he | he
    · exact h.made e he j hj
    · exact absurd hj (by rw [hevs e he]; simp)
  over_iff j hj := by
    rw [ended_append_of_forall_ne fun e he => by rw [hevs e he]; simp]
    exact h.over_iff j hj

/-- What goes to one live iterator changes no flag but its own, and that if it ends it. -/
theorem append_named (h : Tracks evs s) (hlive : s.isOver i = false)
    (hevs : ∀ e ∈ evs', e.iter? = some i) {it : Iter}
    (hit : it.finished = true ↔ ∃ e ∈ evs', e.outcome.isLast = true) (r : Reader) :
    Tracks (evs ++ evs') ⟨r, s.iters.setIfInBounds i it⟩ := by
  have hi := lt_size_of_live hlive
  refine ⟨fun e he j hj => ?_, fun j hj => ?_⟩
  · rw [Array.size_setIfInBounds]
    rcases List.mem_append.1 he with he | he
    · exact h.made e he j hj
    · rw [hevs e he] at hj
      exact Option.some.inj hj ▸ hi
  · rw [Array.size_setIfInBounds] at hj
    rw [isOver_setIfInBounds hi]
    split
    next hij =>
      subst hij
      have hnot : ¬ Ended evs i := by
        rw [← h.over_iff i hi, hlive]
        exact Bool.false_ne_true
      rw [hit, ended_append, or_iff_right hnot]
      exact ⟨fun ⟨e, he, hlast⟩ => ⟨e, he, hevs e he, hlast⟩,
        fun ⟨e, he, _, hlast⟩ => ⟨e, he, hlast⟩⟩
    next hij =>
      rw [ended_append_of_forall_ne fun e he hname =>
        hij (Option.some.inj ((hevs e he).symm.trans hname))]
      exact h.over_iff j hj

/-- Nothing went to a new iterator yet. -/
theorem push (h : Tracks evs s) : Tracks evs ⟨s.reader, s.iters.push {}⟩ where
  made e he j hj := by
    rw [Array.size_push]
    exact Nat.lt_succ_of_lt (h.made e he j hj)
  over_iff j hj := by
    rw [Array.size_push] at hj
    rw [isOver_push]
    split
    next hj' =>
      subst hj'
      refine ⟨fun hover => absurd hover (by simp), ?_⟩
      rintro ⟨e, he, hname, -⟩
      exact absurd (h.made e he _ hname) (Nat.lt_irrefl _)
    next hj' => exact h.over_iff j (by omega)

/-- **Every operation keeps the flags true to the log.** -/
theorem perform (h : Tracks evs s) (op : Op) :
    Tracks (evs ++ delivered op s) (Session.perform op s).2 := by
  have hnothing : Tracks (evs ++ []) s := by rwa [List.append_nil]
  have hop := performs_perform op s
  generalize delivered op s = new, (Session.perform op s).1 = a, (Session.perform op s).2 = s'
    at hop ⊢
  cases hop with
  | scan | all => exact h.append_unnamed (by simp) _
  | iter =>
    rw [List.append_nil]
    exact h.push
  | next hlive => exact h.append_named hlive (by simp) (by simp) _
  | drain hlive =>
    exact h.append_named hlive (by simp) (by simpa using exists_isLast_outcomes s.reader) _
  | text | nextOver | drainOver => exact hnothing

/-- **Every run keeps the flags true to the log.** -/
theorem performAll (h : Tracks evs s) (ops : List Op) :
    Tracks (evs ++ log ops s) (performAll ops s).2 := by
  induction ops generalizing evs s with
  | nil => rwa [log, List.append_nil]
  | cons op ops ih =>
    rw [log, ← List.append_assoc]
    exact ih (h.perform op)

end Tracks

/-! ## Running an iterator to its end -/

/-- A live iterator that lets its last outcome through. -/
theorem perform_next_of_isLast {r' : Reader} {iters : Array Iter} {o : Outcome}
    (h : isOver ⟨r, iters⟩ i = false) (hcall : call r = (o, r')) (ho : o.isLast = true) :
    perform (.next i) ⟨r, iters⟩
      = (.ofOutcome? (some o), ⟨r', iters.setIfInBounds i ⟨true⟩⟩) := by
  simp only [perform_next_of_live h, hcall, ho]

/-- **Asking a live iterator over and over** comes to its walk. -/
theorem performAll_replicate_next (r : Reader) (iters : Array Iter)
    (h : isOver ⟨r, iters⟩ i = false) :
    performAll (List.replicate (walk r).outcomes.length (.next i)) ⟨r, iters⟩
      = ((walk r).outcomes.map (.ofOutcome? ∘ some),
        ⟨(walk r).reader, iters.setIfInBounds i ⟨true⟩⟩) := by
  fun_induction walk r generalizing iters with
  | case1 r e r' hs =>
    have hcall : call r = (.fault e, r') := by rw [call, hs]
    exact congrArg (fun p => ([p.1], p.2)) (perform_next_of_isLast h hcall rfl)
  | case2 r t r' hs ht =>
    have hcall : call r = (.token t, r') := by rw [call, hs]
    exact congrArg (fun p => ([p.1], p.2)) (perform_next_of_isLast h hcall ht)
  | case3 r t r' hs ht ih =>
    have hcall : call r = (.token t, r') := by rw [call, hs]
    have hnot : (Outcome.token t).isLast = false := Bool.eq_false_iff.2 ht
    have hlive : isOver ⟨r', iters.setIfInBounds i ⟨false⟩⟩ i = false := by
      rw [isOver_setIfInBounds (s := ⟨r, iters⟩) (lt_size_of_live h), if_pos rfl]
    have houtcomes : ((walk r').cons (stepOf t r r')).outcomes
        = .token t :: (walk r').outcomes := rfl
    rw [houtcomes, List.length_cons, List.replicate_succ, performAll, perform_next_of_live h]
    simp only [hcall, hnot, ih _ hlive, Array.setIfInBounds_setIfInBounds]
    rfl

/-- **Running an iterator to its end is asking it over and over**, for as long as it delivers. -/
theorem performAll_replicate_delivered (i : Nat) (s : Session) :
    performAll (List.replicate (delivered (.drain i) s).length (.next i)) s
      = ((delivered (.drain i) s).map (.ofOutcome? ∘ some ∘ Event.outcome),
        (perform (.drain i) s).2) := by
  rw [delivered]
  cases hi : s.isOver i with
  | true => rw [perform_drain_of_over hi]; rfl
  | false =>
    rw [perform_drain_of_live hi, if_neg Bool.false_ne_true, List.length_map, List.map_map]
    exact performAll_replicate_next s.reader s.iters hi

/-- An iterator that was run to its end is over. -/
theorem isOver_perform_drain (i : Nat) (s : Session) :
    (perform (.drain i) s).2.isOver i = true := by
  cases hi : s.isOver i with
  | true => rwa [perform_drain_of_over hi]
  | false => rw [perform_drain_of_live hi, isOver_setIfInBounds (lt_size_of_live hi), if_pos rfl]

/-- A new iterator is not over. -/
theorem isOver_new (s : Session) : (perform .iter s).2.isOver s.iters.size = false :=
  (isOver_push s.reader s.iters.size).trans (if_pos rfl)

/-- **Asking for all tokens** is making an iterator and running it to its end. -/
theorem perform_drain_of_new (s : Session) : perform (.drain s.iters.size) (perform .iter s).2
    = ((perform .all s).1, ⟨(perform .all s).2.reader, s.iters.push ⟨true⟩⟩) := by
  have hset : (s.iters.push {}).setIfInBounds s.iters.size ⟨true⟩ = s.iters.push ⟨true⟩ := by
    rw [Array.push_eq_append, Array.push_eq_append,
      Array.setIfInBounds_append_right (Nat.le_refl _), Nat.sub_self]
    rfl
  refine (perform_drain_of_live (isOver_new s)).trans ?_
  exact congrArg (fun iters => (Answer.ofWalk (walk s.reader), Session.mk _ iters)) hset

theorem delivered_all (s : Session) : (delivered .all s).map Event.outcome
    = (delivered (.drain s.iters.size) (perform .iter s).2).map Event.outcome := by
  rw [delivered, delivered, isOver_new, if_neg Bool.false_ne_true, map_outcome_map_mk,
    map_outcome_map_mk]
  rfl

/-- Only making an iterator makes one more of them. -/
theorem size_iters_perform (op : Op) (s : Session) :
    (perform op s).2.iters.size = s.iters.size + if op matches .iter then 1 else 0 := by
  have h := performs_perform op s
  generalize delivered op s = evs, (perform op s).1 = a, (perform op s).2 = s' at h ⊢
  cases h with
  | iter => exact Array.size_push _
  | next | drain => exact Array.size_setIfInBounds
  | scan | text | all | nextOver | drainOver => rfl

theorem size_iters_performAll (ops : List Op) (s : Session) :
    (performAll ops s).2.iters.size = s.iters.size + ops.countP (· matches .iter) := by
  induction ops generalizing s with
  | nil => rfl
  | cons op ops ih =>
    rw [List.countP_cons, performAll]
    refine (ih _).trans ?_
    rw [size_iters_perform]
    omega

/-! ## Sharing -/

/-- **Iterators share one stream of tokens**: what is so of a session after the operations `ops` on
a reader of its own.  Since `ops` may be any run, what is said of the operation that comes next
holds for every operation of a run. -/
structure Shares (start : Reader) (ops : List Op) (evs : List Event) (s : Session) : Prop where
  /-- what was delivered is the front of what direct calls come to, each outcome once -/
  outcomes : evs.map Event.outcome = outcomesOf start evs.length
  /-- a session of its own that is asked for as many tokens answers with these outcomes, and has
  read as far -/
  scans_eq : performAll (List.replicate evs.length .scan) ⟨start, #[]⟩
    = (evs.map (.ofOutcome? ∘ some ∘ Event.outcome), ⟨s.reader, #[]⟩)
  /-- every iterator was asked for -/
  iters_size : s.iters.size = ops.countP (· matches .iter)
  /-- the answer to the next operation tells what it delivers -/
  answer_eq : ∀ op, (perform op s).1
    = .telling op s.reader.text ((delivered op s).map Event.outcome)
  /-- an iterator is finished exactly if the end token or a fault went to it -/
  finished_iff : ∀ i, i < s.iters.size → ((perform (.next i) s).1 = .finished ↔ Ended evs i)
  /-- to ask a finished iterator changes nothing, whatever a stream still holds -/
  idle : ∀ i, (perform (.next i) s).1 = .finished →
    (perform (.next i) s).2 = s ∧ delivered (.next i) s = []
  /-- to run an iterator to its end is to ask it until it is finished -/
  drain_eq : ∀ i, performAll (List.replicate (delivered (.drain i) s).length (.next i)) s
    = ((delivered (.drain i) s).map (.ofOutcome? ∘ some ∘ Event.outcome), (perform (.drain i) s).2)
  drain_finished : ∀ i, (perform (.next i) (perform (.drain i) s).2).1 = .finished
  /-- to ask for all tokens is to run a new iterator to its end -/
  all_eq : perform (.drain s.iters.size) (perform .iter s).2
    = ((perform .all s).1, ⟨(perform .all s).2.reader, s.iters.push ⟨true⟩⟩)
  delivered_all : (delivered .all s).map Event.outcome
    = (delivered (.drain s.iters.size) (perform .iter s).2).map Event.outcome

/-- **Nothing is lost and nothing delivered twice**, whatever is asked in whatever order and
wherever the text fails: the log of a run is the front of what direct calls come to, and an iterator
that the end token or a fault went to leaves the text alone. -/
theorem sharing_session (start : Reader) (ops : List Op) :
    Shares start ops (log ops ⟨start, #[]⟩) (performAll ops ⟨start, #[]⟩).2 where
  outcomes := (log_eq_outcomesOf ops _).1
  scans_eq := by
    obtain ⟨houtcomes, hreader⟩ := log_eq_outcomesOf ops ⟨start, #[]⟩
    rw [performAll_replicate_scan, hreader, ← houtcomes, List.map_map]
    rfl
  iters_size := (size_iters_performAll ops _).trans (Nat.zero_add _)
  answer_eq op := perform_fst_eq_telling op _
  finished_iff i hi := by
    have hnone : Tracks [] ⟨start, #[]⟩ := ⟨by simp, by simp⟩
    exact perform_next_eq_finished_iff.trans ((hnone.performAll ops).over_iff i hi)
  idle i h := by
    have hover := perform_next_eq_finished_iff.1 h
    exact ⟨congrArg Prod.snd (perform_next_of_over hover), if_pos hover⟩
  drain_eq i := performAll_replicate_delivered i _
  drain_finished i := perform_next_eq_finished_iff.2 (isOver_perform_drain i _)
  all_eq := perform_drain_of_new _
  delivered_all := delivered_all _

end Session

end ConfigScript
