import ConfigScript.Source.LineIndex
import Mathlib.Data.List.Induction

/-!
# Proofs/Source/Positions — offsets, positions and the lines of a text

An offset counts the characters that stand before a place; the position of the place is the one
behind these characters.  Three statements are about such positions:

* `Position.after_append_eq_shift` — behind two texts stands the position behind the second, shifted
  by the first;
* `Position.offset?_eq_some_iff` — a position belongs to at most one offset, since a later offset
  has a later position (`Position.after_take_lt`);
* `Source.LineIndex.position_of_lists` — an index that lists the line starts of a text finds the
  position of every offset.

The engine of the last is `rankBetween_eq`: the binary search finds the border between the starts
that lie at or before the offset and the starts behind it.
-/

namespace ConfigScript

namespace Position

/-! ## Later offsets have later positions -/

theorem lt_next (p : Position) (c : Char) : p < p.next c := by
  rw [lt_def, next]
  split
  · exact Or.inl (by simp only; omega)
  · exact Or.inr ⟨rfl, by simp only; omega⟩

theorem lt_trans {p q r : Position} (h₁ : p < q) (h₂ : q < r) : p < r := by
  rw [lt_def] at *
  omega

theorem lt_irrefl (p : Position) : ¬ p < p := by
  rw [lt_def]
  omega

theorem ne_of_lt {p q : Position} (h : p < q) : p ≠ q := by
  rintro rfl
  exact lt_irrefl p h

theorem after_append (cs ds : List Char) : after (cs ++ ds) = ds.foldl next (after cs) := by
  rw [after, after, List.foldl_append]

theorem lt_foldl_next : ∀ (cs : List Char) (p : Position), cs ≠ [] → p < cs.foldl next p
  | [], _, h => absurd rfl h
  | [c], p, _ => lt_next p c
  | c :: d :: cs, p, _ => lt_trans (lt_next p c) (lt_foldl_next (d :: cs) (p.next c) (by simp))

/-- **Reading on leads to a later position.** -/
theorem after_lt_after_append (cs : List Char) {ds : List Char} (h : ds ≠ []) :
    after cs < after (cs ++ ds) := by
  rw [after_append]
  exact lt_foldl_next ds (after cs) h

/-- **A later offset has a later position.** -/
theorem after_take_lt {cs : List Char} {i j : Nat} (hij : i < j) (hj : j ≤ cs.length) :
    after (cs.take i) < after (cs.take j) := by
  have hsplit : cs.take j = cs.take i ++ (cs.drop i).take (j - i) := by
    rw [← List.take_add, Nat.add_sub_cancel' (Nat.le_of_lt hij)]
  rw [hsplit]
  refine after_lt_after_append _ (List.ne_nil_of_length_pos ?_)
  rw [List.length_take, List.length_drop]
  omega

theorem after_take_injective {cs : List Char} {i j : Nat} (hi : i ≤ cs.length) (hj : j ≤ cs.length)
    (h : after (cs.take i) = after (cs.take j)) : i = j := by
  rcases Nat.lt_trichotomy i j with hlt | heq | hgt
  · exact absurd h (ne_of_lt (after_take_lt hlt hj))
  · exact heq
  · exact absurd h.symm (ne_of_lt (after_take_lt hgt hi))

/-- A place in a text is not behind its end. -/
theorem after_le_after_append (cs ds : List Char) : after cs ≤ after (cs ++ ds) := by
  by_cases h : ds = []
  · exact Or.inr (by rw [h, List.append_nil])
  · exact Or.inl (after_lt_after_append cs h)

theorem lt_of_le_of_lt {p q r : Position} (h₁ : p ≤ q) (h₂ : q < r) : p < r := by
  rcases h₁ with h | rfl
  · exact lt_trans h h₂
  · exact h₂

theorem lt_of_lt_of_le {p q r : Position} (h₁ : p < q) (h₂ : q ≤ r) : p < r := by
  rcases h₂ with h | rfl
  · exact lt_trans h₁ h
  · exact h₁

theorem not_le_of_lt {p q : Position} (h : p < q) : ¬ q ≤ p := by
  rintro (hqp | rfl)
  · exact lt_irrefl p (lt_trans h hqp)
  · exact lt_irrefl q h

/-! ## A text behind another -/

/-- **A position of a text that itself starts at `p`**: on the first line of the text columns are
counted from that of `p`, and on all lines the lines are counted from that of `p`. -/
def shift (p q : Position) : Position :=
  if q.line = 1 then ⟨p.line, p.column + q.column - 1⟩ else ⟨p.line + q.line - 1, q.column⟩

theorem shift_first (p : Position) : p.shift first = p := by
  simp [shift, first]

/-- **Reading on and shifting** may change places. -/
theorem shift_next (p q : Position) (c : Char) (h : 1 ≤ q.line) :
    p.shift (q.next c) = (p.shift q).next c := by
  have hnext : ¬ q.line + 1 = 1 := by omega
  by_cases hc : c = '\n'
  · have hlines : p.line + (q.line + 1) - 1 = (p.shift q).line + 1 := by
      rw [shift]
      split <;> simp only <;> omega
    rw [next, if_pos hc, next, if_pos hc, shift, if_neg hnext, hlines]
  · rw [next, if_neg hc, next, if_neg hc, shift, shift]
    split <;> simp only [Position.mk.injEq, true_and]
    omega

theorem shift_after (p : Position) (cs : List Char) : p.shift (after cs) = cs.foldl next p := by
  induction cs using List.reverseRecOn with
  | nil => exact shift_first p
  | append_singleton cs c ih =>
    have hline : 1 ≤ (after cs).line := by
      rw [line_after]
      omega
    rw [after_concat, shift_next p _ c hline, ih, List.foldl_append]
    rfl

/-- **The position behind two texts** is the one behind the second, shifted by the first. -/
theorem after_append_eq_shift (cs ds : List Char) :
    after (cs ++ ds) = (after cs).shift (after ds) := by
  rw [shift_after, after_append]

/-! ## The offset of a position -/

/-- **The offset of a position in a text**; `none` if no place of the text has the position. -/
def offset? (cs : List Char) (p : Position) : Option Nat :=
  (List.range (cs.length + 1)).find? fun i => after (cs.take i) = p

/-- **The offset of a position is the one offset that has it.** -/
theorem offset?_eq_some_iff {cs : List Char} {p : Position} {i : Nat} :
    offset? cs p = some i ↔ i ≤ cs.length ∧ after (cs.take i) = p := by
  constructor
  · intro h
    have hmem := List.mem_of_find?_eq_some h
    have hp := List.find?_some h
    rw [List.mem_range] at hmem
    exact ⟨by omega, by simpa using hp⟩
  · rintro ⟨hi, rfl⟩
    cases hf : offset? cs (after (cs.take i)) with
    | none =>
      have hnone := List.find?_eq_none.1 hf i (List.mem_range.2 (by omega))
      simp at hnone
    | some j =>
      have hmem := List.mem_range.1 (List.mem_of_find?_eq_some hf)
      have hj : after (cs.take j) = after (cs.take i) := by simpa using List.find?_some hf
      rw [after_take_injective (by omega) hi hj]

/-- The offset behind a part of a text that stands at its start. -/
theorem offset?_after (a b : List Char) : offset? (a ++ b) (after a) = some a.length :=
  offset?_eq_some_iff.2 ⟨by simp, by simp⟩

/-- **The characters of a text between two positions**; `none` if one of them is no place of the
text. -/
def between? (cs : List Char) (p q : Position) : Option (List Char) := do
  let i ← offset? cs p
  let j ← offset? cs q
  return (cs.take j).drop i

/-- Between the positions before and behind a part of a text stands that part. -/
theorem between?_after (a x b : List Char) :
    between? (a ++ (x ++ b)) (after a) (after (a ++ x)) = some x := by
  have hi := offset?_after a (x ++ b)
  have hj := offset?_after (a ++ x) b
  rw [List.append_assoc] at hj
  rw [between?, hi, hj]
  simp [← List.append_assoc]

end Position

/-! ## The line index -/

namespace Source

/-- Every line start behind `base` comes from a newline of the text. -/
theorem mem_startsFrom_bounds : ∀ (base : Nat) (cs : List Char) (n : Nat),
    n ∈ startsFrom base cs → base < n ∧ n ≤ base + cs.length
  | _, [], _, h => absurd h (by simp [startsFrom])
  | base, c :: cs, n, h => by
    have ih := mem_startsFrom_bounds (base + 1) cs n
    rw [startsFrom] at h
    rw [List.length_cons]
    split at h
    · rcases List.mem_cons.1 h with rfl | h
      · omega
      · have := ih h
        omega
    · have := ih h
      omega

theorem startsFrom_concat (cs : List Char) (c : Char) :
    startsFrom 0 (cs ++ [c]) = startsFrom 0 cs ++ if c = '\n' then [cs.length + 1] else [] := by
  rw [startsFrom_append]
  by_cases h : c = '\n' <;> simp [startsFrom, h]

/-- **The position behind a text in terms of its line starts**: the number of lines, and the
distance from the last of them. -/
theorem after_eq_lines (cs : List Char) :
    Position.after cs = ⟨((0 :: startsFrom 0 cs).length : Nat),
      (cs.length : Int) - ((0 :: startsFrom 0 cs).getLast (by simp) : Nat) + 1⟩ := by
  induction cs using List.reverseRecOn with
  | nil => rfl
  | append_singleton cs c ih =>
    rw [Position.after_concat, ih]
    by_cases h : c = '\n'
    · subst h
      simp [Position.next, startsFrom_concat, List.getLast_cons]
    · simp only [Position.next, h, if_false, startsFrom_concat, List.append_nil, List.length_append,
        List.length_singleton, Position.mk.injEq, true_and]
      omega

namespace LineIndex

/-- **The index lists the line starts of a text.** -/
def Lists (ix : LineIndex) (cs : List Char) : Prop := ix.starts.toList = 0 :: startsFrom 0 cs

theorem lists_empty : empty.Lists [] := rfl

/-- An index grows with its text. -/
theorem Lists.extend {ix : LineIndex} {cs : List Char} (h : ix.Lists cs) (ds : List Char) :
    (ix.extend cs.length ds).Lists (cs ++ ds) := by
  rw [Lists, toList_starts_extend, h, startsFrom_append, Nat.zero_add, List.cons_append]

/-- **The search finds the border**: with `k` between `lo` and `hi` such that exactly the starts
before `k` lie at or before the offset, it answers `k`. -/
theorem rankBetween_eq {starts : Array Nat} {offset k lo hi : Nat} (hlo : lo ≤ k) (hhi : k ≤ hi)
    (hbelow : ∀ i < k, starts.getD i 0 ≤ offset)
    (habove : ∀ i, k ≤ i → i < hi → offset < starts.getD i 0) :
    rankBetween starts offset lo hi = k := by
  fun_induction rankBetween starts offset lo hi with
  | case1 lo hi hlt mid hmid ih =>
    have hk : k ≤ mid := by
      apply Nat.le_of_not_lt
      intro hmk
      have := hbelow mid hmk
      omega
    exact ih hlo hk fun i hi₁ hi₂ => habove i hi₁ (by omega)
  | case2 lo hi hlt mid hmid ih =>
    have hk : mid < k := by
      apply Nat.lt_of_not_le
      intro hkm
      exact hmid (habove mid hkm (by omega))
    exact ih hk hhi habove
  | case3 lo hi hge => omega

/-- **The rank of an offset** counts the lines that have begun there. -/
theorem rank_of_lists {ix : LineIndex} {a b : List Char} (h : ix.Lists (a ++ b)) :
    ix.rank a.length = (0 :: startsFrom 0 a).length := by
  have hstarts : ix.starts = ((0 :: startsFrom 0 a) ++ startsFrom a.length b).toArray := by
    rw [← ix.starts.toArray_toList, h, startsFrom_append, Nat.zero_add, List.cons_append]
  rw [rank, hstarts]
  refine rankBetween_eq (Nat.zero_le _) (by simp) (fun i hi => ?_) fun i hi₁ hi₂ => ?_
  · rw [Array.getD_eq_getD_getElem?, List.getElem?_toArray, List.getElem?_append_left hi,
      List.getElem?_eq_getElem hi]
    rcases List.mem_cons.1 (List.getElem_mem hi) with h0 | hmem
    · simp [h0]
    · have := (mem_startsFrom_bounds 0 a _ hmem).2
      simpa using this
  · have hlen : i - (0 :: startsFrom 0 a).length < (startsFrom a.length b).length := by
      rw [List.size_toArray, List.length_append] at hi₂
      omega
    rw [Array.getD_eq_getD_getElem?, List.getElem?_toArray, List.getElem?_append_right hi₁,
      List.getElem?_eq_getElem hlen]
    exact (mem_startsFrom_bounds a.length b _ (List.getElem_mem hlen)).1

/-- **The index of a text finds the position of every offset.** -/
theorem position_of_lists {ix : LineIndex} {a b : List Char} (h : ix.Lists (a ++ b)) :
    ix.position a.length = .after a := by
  have hlast : ix.starts.getD ((0 :: startsFrom 0 a).length - 1) 0
      = (0 :: startsFrom 0 a).getLast (by simp) := by
    rw [Array.getD_eq_getD_getElem?, ← Array.getElem?_toList, h, startsFrom_append,
      ← List.cons_append, List.getElem?_append_left (by simp), List.getLast_eq_getElem,
      List.getElem?_eq_getElem (by simp)]
    rfl
  rw [position, rank_of_lists h, after_eq_lines]
  simp only [hlast]

end LineIndex

end Source

end ConfigScript
