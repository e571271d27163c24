import ConfigScript.Position
import ConfigScript.Text.Newline
import Mathlib.Data.List.Basic

/-!
# Proofs/Text/Pairs — carriage returns before newlines

A text is paired if each of its carriage returns stands right before a newline.  In such a text
`unifyPairs` finds all line ends that `unifyNewlines` finds (`unifyNewlines_of_paired`).  What else
is said of `unifyPairs` holds for all texts: it can be done part by part, and commutes with reading
on to a character that is not taken from a line.
-/

namespace ConfigScript.Text

variable {c : Char} {x y cs : List Char}

/-- **Each carriage return of a text stands right before a newline.** -/
def Paired (cs : List Char) : Prop := ∀ u v, cs = u ++ '\r' :: v → v.head? = some '\n'

theorem paired_of_notMem (h : '\r' ∉ cs) : Paired cs := by
  rintro u v rfl
  exact absurd (List.mem_append_right u List.mem_cons_self) h

theorem paired_crlf : Paired ['\r', '\n'] := by
  intro u v h
  cases u with
  | nil => exact (List.cons.inj h).2 ▸ rfl
  | cons d u =>
    have hmem : '\r' ∈ ['\n'] := (List.cons.inj h).2 ▸ List.mem_append_right u List.mem_cons_self
    exact absurd hmem (by decide)

theorem Paired.append (hx : Paired x) (hy : Paired y) : Paired (x ++ y) := by
  intro u v h
  rcases List.append_eq_append_iff.1 h with ⟨z, -, hz⟩ | ⟨z, hz, hr⟩
  · exact hy z v hz
  · cases z with
    | nil => exact hy [] v hr.symm
    | cons d z =>
      obtain ⟨rfl, rfl⟩ := List.cons.inj hr
      obtain ⟨ds, rfl⟩ := List.head?_eq_some_iff.1 (hx u z hz)
      rfl

theorem Paired.of_append (h : Paired (x ++ y)) : Paired y := by
  rintro u v rfl
  exact h (x ++ u) v (List.append_assoc ..).symm

theorem Paired.of_cons (h : Paired (c :: cs)) : Paired cs := Paired.of_append (x := [c]) h

/-- The last line of a paired text holds no carriage return. -/
theorem Paired.notMem (h : Paired (x ++ y)) (hn : '\n' ∉ y) : '\r' ∉ y := by
  intro hr
  obtain ⟨u, v, rfl⟩ := List.append_of_mem hr
  obtain ⟨ds, rfl⟩ := List.head?_eq_some_iff.1 (h.of_append u v rfl)
  exact hn (List.mem_append_right u (List.mem_cons_of_mem _ List.mem_cons_self))

/-- A line of a paired text holds no carriage return before its newline but the last character. -/
theorem Paired.eq_nil_of_cons (h : Paired ('\r' :: x ++ y)) (hn : '\n' ∉ x) : x = [] := by
  cases x with
  | nil => rfl
  | cons d x =>
    obtain rfl : d = '\n' := Option.some.inj (h [] (d :: x ++ y) rfl)
    exact absurd List.mem_cons_self hn

/-! ## Without the carriage returns of pairs -/

theorem unifyPairs_crlf : unifyPairs ('\r' :: '\n' :: cs) = '\n' :: unifyPairs cs := by
  rw [unifyPairs]

theorem unifyPairs_cons (h : c = '\r' → cs.head? ≠ some '\n') :
    unifyPairs (c :: cs) = c :: unifyPairs cs :=
  unifyPairs.eq_3 c cs fun ds hr hds => h hr (by rw [hds]; rfl)

theorem unifyPairs_cons_of_ne (h : c ≠ '\r') : unifyPairs (c :: cs) = c :: unifyPairs cs :=
  unifyPairs_cons fun hr => absurd hr h

/-- A text starts with a pair or with a single character. -/
theorem pair_or_single (c : Char) (cs : List Char) :
    (∃ ds, c = '\r' ∧ cs = '\n' :: ds) ∨ (c = '\r' → cs.head? ≠ some '\n') := by
  by_cases h : c = '\r' ∧ cs.head? = some '\n'
  · obtain ⟨ds, hds⟩ := List.head?_eq_some_iff.1 h.2
    exact Or.inl ⟨ds, h.1, hds⟩
  · exact Or.inr (not_and.1 h)

/-- **A text falls into pairs and single characters.** -/
theorem pairs_induction {P : List Char → Prop} (nil : P [])
    (pair : ∀ cs, P cs → P ('\r' :: '\n' :: cs))
    (single : ∀ c cs, (c = '\r' → cs.head? ≠ some '\n') → P cs → P (c :: cs)) : ∀ cs, P cs := by
  intro cs
  fun_induction unifyPairs cs with
  | case1 => exact nil
  | case2 cs ih => exact pair cs ih
  | case3 c cs hpair ih =>
    rcases pair_or_single c cs with ⟨ds, rfl, rfl⟩ | hc
    · exact absurd rfl (hpair ds rfl)
    · exact single c cs hc ih

/-- **In a paired text there are no other line ends to be unified.** -/
theorem unifyNewlines_of_paired (h : Paired cs) : unifyNewlines cs = unifyPairs cs := by
  induction cs using pairs_induction with
  | nil => rfl
  | pair cs ih => rw [unifyPairs_crlf, unifyNewlines, ih h.of_cons.of_cons]
  | single c cs hc ih =>
    have hr : c ≠ '\r' := by
      rintro rfl
      exact hc rfl (h [] cs rfl)
    rw [unifyPairs_cons hc, unifyNewlines.eq_4 c cs (fun _ he _ => hr he) fun he => hr he,
      ih h.of_cons]

/-- **Part by part**, if the cut parts no pair. -/
theorem unifyPairs_append (hy : y.head? ≠ some '\n') (x : List Char) :
    unifyPairs (x ++ y) = unifyPairs x ++ unifyPairs y := by
  induction x using pairs_induction with
  | nil => rfl
  | pair x ih =>
    rw [List.cons_append, List.cons_append, unifyPairs_crlf, unifyPairs_crlf, ih, List.cons_append]
  | single c x hc ih =>
    have hc' : c = '\r' → (x ++ y).head? ≠ some '\n' := by
      intro hr
      cases x with
      | nil => exact hy
      | cons d x => exact hc hr
    rw [List.cons_append, unifyPairs_cons hc', unifyPairs_cons hc, ih, List.cons_append]

/-- **Reading on** to a character of a class, to which newlines belong. -/
theorem dropWhile_unifyPairs {p : Char → Bool} (hp : p '\n' = false) (cs : List Char) :
    (unifyPairs cs).dropWhile p = unifyPairs (cs.dropWhile p) := by
  induction cs using pairs_induction with
  | nil => rfl
  | pair cs ih =>
    have hstop (ds : List Char) : ('\n' :: ds).dropWhile p = '\n' :: ds :=
      List.dropWhile_cons_of_neg (by rw [hp]; exact Bool.false_ne_true)
    rw [unifyPairs_crlf, hstop]
    cases hr : p '\r' with
    | true => rw [List.dropWhile_cons_of_pos hr, hstop, unifyPairs_cons_of_ne (by decide)]
    | false =>
      rw [List.dropWhile_cons_of_neg (by rw [hr]; exact Bool.false_ne_true), unifyPairs_crlf]
  | single c cs hc ih =>
    rw [unifyPairs_cons hc]
    cases hpc : p c with
    | true => rw [List.dropWhile_cons_of_pos hpc, List.dropWhile_cons_of_pos hpc, ih]
    | false =>
      have hneg : ¬ p c = true := by
        rw [hpc]
        exact Bool.false_ne_true
      rw [List.dropWhile_cons_of_neg hneg, List.dropWhile_cons_of_neg hneg, unifyPairs_cons hc]

end ConfigScript.Text

namespace ConfigScript

open Text

/-- **Positions do not count the carriage return of a pair.** -/
theorem Position.after_unifyPairs (cs : List Char) : after (unifyPairs cs) = after cs := by
  have hfold (p : Position) : (unifyPairs cs).foldl next p = cs.foldl next p := by
    induction cs using pairs_induction generalizing p with
    | nil => rfl
    | pair cs ih =>
      rw [unifyPairs_crlf, List.foldl_cons, List.foldl_cons, List.foldl_cons, ih]
      rfl
    | single c cs hc ih => rw [unifyPairs_cons hc, List.foldl_cons, List.foldl_cons, ih]
  exact hfold first

end ConfigScript
