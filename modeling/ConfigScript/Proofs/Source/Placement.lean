import ConfigScript.Proofs.Source.Operations
import Mathlib.Data.List.DropRight

/-!
# Proofs/Source/Placement — where a reader in use says it is

A line index grows chunk by chunk, while the cursor also moves back over the ends of lines.  The
main statement, `exact_of_leads`, says of every reader that any run of operations makes of a new
one, whatever its feed delivers, that its index is the one of the text pulled and its position the
one of the text passed; and that a position once given to a place of the text stays.

It rests on `LineIndex.Lists`, which every operation keeps: from an index that lists the line starts
of a text follow the starts in closed form (`Lists.starts_eq`), what the search finds among them
(`Lists.rank_eq`), and the position of every offset (`Lists.position_eq`).
-/

namespace ConfigScript

namespace Position

/-! ## Positions in closed form -/

/-- **The column behind a text** is one more than the characters behind its last newline. -/
theorem column_after_eq (cs : List Char) :
    (after cs).column = 1 + (cs.rtakeWhile (· ≠ '\n')).length := by
  induction cs using List.reverseRecOn with
  | nil => rfl
  | append_singleton cs c ih =>
    rw [after_concat, next]
    by_cases hc : c = '\n'
    · rw [if_pos hc, List.rtakeWhile_concat_neg _ _ _ (by simp [hc])]
      rfl
    · rw [if_neg hc, List.rtakeWhile_concat_pos _ _ _ (by simp [hc]), List.length_append, ih]
      simp only [List.length_singleton]
      omega

theorem after_eq (cs : List Char) :
    after cs = ⟨1 + cs.count '\n', 1 + (cs.rtakeWhile (· ≠ '\n')).length⟩ := by
  rw [← line_after, ← column_after_eq]

end Position

namespace Source

/-! ## What an index of a text holds and finds -/

/-- **The line starts of a text** stand behind its newlines. -/
theorem startsFrom_eq (base : Nat) (cs : List Char) :
    startsFrom base cs = (cs.idxsOf '\n' base).map (· + 1) := by
  induction cs generalizing base with
  | nil => rfl
  | cons c cs ih =>
    rw [startsFrom, List.idxsOf, List.findIdxs_cons]
    by_cases hc : c = '\n'
    · rw [if_pos hc, if_pos (by simp [hc]), ih, List.map_cons, List.idxsOf]
    · rw [if_neg hc, if_neg (by simp [hc]), ih, List.idxsOf]

namespace LineIndex

variable {ix : LineIndex} {cs : List Char} {i : Nat}

theorem Lists.starts_eq (h : ix.Lists cs) :
    ix.starts.toList = 0 :: (cs.idxsOf '\n').map (· + 1) := by
  rw [h, startsFrom_eq]

/-- **Later lines start later.** -/
theorem Lists.pairwise_lt (h : ix.Lists cs) : ix.starts.toList.Pairwise (· < ·) := by
  rw [h.starts_eq, List.pairwise_cons]
  refine ⟨fun n hn => ?_, ?_⟩
  · obtain ⟨m, -, rfl⟩ := List.mem_map.1 hn
    exact Nat.succ_pos m
  · rw [List.pairwise_map]
    exact List.pairwise_findIdxs.imp Nat.succ_lt_succ

/-- **The search counts the lines that start at or before an offset.** -/
theorem Lists.rank_eq (h : ix.Lists cs) (hi : i ≤ cs.length) :
    ix.rank i = ix.starts.toList.countP (· ≤ i) := by
  have hlen : (cs.take i).length = i := List.length_take_of_le hi
  have hcut : ix.Lists (cs.take i ++ cs.drop i) := by rwa [List.take_append_drop]
  have hrank := rank_of_lists hcut
  have hbefore : ∀ n ∈ 0 :: startsFrom 0 (cs.take i), n ≤ i := by
    intro n hn
    rcases List.mem_cons.1 hn with rfl | hn
    · exact Nat.zero_le i
    · have := (mem_startsFrom_bounds 0 _ n hn).2
      omega
  have hbehind : ∀ n ∈ startsFrom i (cs.drop i), ¬ n ≤ i := by
    intro n hn
    exact Nat.not_le_of_lt (mem_startsFrom_bounds i _ n hn).1
  rw [hlen] at hrank
  rw [hrank, hcut, startsFrom_append, hlen, Nat.zero_add, ← List.cons_append, List.countP_append,
    List.countP_eq_length.2 (by simpa using hbefore),
    List.countP_eq_zero.2 (by simpa using hbehind), Nat.add_zero]

/-- **The index of a text finds the position of every offset.** -/
theorem Lists.position_eq (h : ix.Lists cs) (hi : i ≤ cs.length) :
    ix.position i = .after (cs.take i) := by
  have hcut : ix.Lists (cs.take i ++ cs.drop i) := by rwa [List.take_append_drop]
  have hpos := position_of_lists hcut
  rwa [List.length_take_of_le hi] at hpos

end LineIndex

/-! ## Readers in use -/

namespace Reader

variable {start r : Reader}

/-- **What the positions of a reader are worth.** -/
structure Exact (r : Reader) : Prop where
  cursor_le : r.cursor ≤ r.text.length
  /-- the table of the lines holds the start of the text and what follows each newline -/
  starts_eq : r.lines.starts.toList = 0 :: (r.text.idxsOf '\n').map (· + 1)
  starts_increase : r.lines.starts.toList.Pairwise (· < ·)
  /-- the binary search finds how many lines start at or before a place -/
  rank_eq : ∀ i ≤ r.text.length, r.lines.rank i = r.lines.starts.toList.countP (· ≤ i)
  /-- the line counts the newlines of the text passed, the column what is behind the last -/
  position_eq : r.position
    = ⟨1 + r.consumed.count '\n', 1 + (r.consumed.rtakeWhile (· ≠ '\n')).length⟩
  /-- a later place has a later position -/
  increases : ∀ i j, i < j → j ≤ r.text.length → r.lines.position i < r.lines.position j
  injective : ∀ i j, i ≤ r.text.length → j ≤ r.text.length →
    r.lines.position i = r.lines.position j → i = j
  positive : ∀ i ≤ r.text.length, 1 ≤ (r.lines.position i).line ∧ 1 ≤ (r.lines.position i).column
  /-- and has it for ever -/
  lasting : ∀ s, r.Leads s → ∀ i ≤ r.text.length, s.lines.position i = r.lines.position i

/-- The positions of a sound reader are exact. -/
theorem Sound.exact (h : r.Sound) : r.Exact where
  cursor_le := by
    rw [text, Array.length_toList]
    exact h.cursor_le
  starts_eq := h.lists.starts_eq
  starts_increase := h.lists.pairwise_lt
  rank_eq _ hi := h.lists.rank_eq hi
  position_eq := by
    have hle : r.cursor ≤ r.text.length := by
      rw [text, Array.length_toList]
      exact h.cursor_le
    rw [position, h.lists.position_eq hle, ← consumed, Position.after_eq]
  increases i j hij hj := by
    rw [h.lists.position_eq (by omega), h.lists.position_eq hj]
    exact Position.after_take_lt hij hj
  injective i j hi hj heq := by
    rw [h.lists.position_eq hi, h.lists.position_eq hj] at heq
    exact Position.after_take_injective hi hj heq
  positive i hi := by
    rw [h.lists.position_eq hi, Position.after_eq]
    exact ⟨by simp only; omega, by simp only; omega⟩
  lasting s hs i hi := by
    have hkeeps := hs.keeps
    obtain ⟨more, hmore⟩ := hkeeps.isPrefix_text
    have hle : i ≤ s.text.length := by
      rw [← hmore, List.length_append]
      omega
    rw [(hkeeps.sound h).lists.position_eq hle, h.lists.position_eq hi, ← hmore,
      List.take_append_of_le_length hi]

/-- **Every reader in use knows where it is**: behind any run of operations on a new reader, of a
text or of a feed that may fail in between, positions are exact, and they last. -/
theorem exact_of_leads (hnew : start.IsNew) (h : start.Leads r) : r.Exact :=
  (h.keeps.sound hnew.sound).exact

/-- A reader that went back over a newline at the end of a chunk, and failed to read on from
there. -/
theorem exact_of_leads_back_over_newline :
    Exact (perform .peek (perform .read (perform .unread (perform .read
      (ofFeed (.script [.text ['\n'], .failure ⟨some 5, "Input/output error"⟩, .text ['\n', 'a']])
        1)).2).2).2).2 :=
  exact_of_leads (.ofFeed _ Nat.one_pos)
    (((((Leads.refl _).perform .read).perform .unread).perform .read).perform .peek)

end Reader

end Source

end ConfigScript
