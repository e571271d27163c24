import ConfigScript.Position
import ConfigScript.Text.Lines
import Mathlib.Data.List.DropRight

/-!
# Proofs/Text/LineEnds — two ways to cut a text into lines

A text can be cut at its newlines alone, or at all characters that end a line (`Text.lines`).  The
second cut is the finer one; `exists_getElem?_lines_iff` says when the two have the same line under
the same number, line ends apart: if the lines before it are **whole**, so that they are numbered
alike, and if it is **unbroken** itself.  Else they agree by chance only, where one of the finer
pieces before it happens to have the same text.
-/

namespace ConfigScript

/-! ## Cutting at newlines -/

/-- Lines with their newlines, one behind the other. -/
def closed (ls : List (List Char)) : List Char := ls.flatMap (· ++ ['\n'])

theorem closed_cons (l : List Char) (ls : List (List Char)) :
    closed (l :: ls) = l ++ '\n' :: closed ls := by
  rw [closed, List.flatMap_cons, List.append_assoc, List.singleton_append, closed]

theorem closed_concat (ls : List (List Char)) (l : List Char) :
    closed (ls ++ [l]) = closed ls ++ (l ++ ['\n']) := by
  rw [closed, List.flatMap_append, List.flatMap_singleton, closed]

/-- **The lines before a place**, and what stands before it on its own line; how many they are is
its position. -/
theorem exists_closed_append (cs : List Char) :
    ∃ ls l, cs = closed ls ++ l ∧ (∀ k ∈ ls, '\n' ∉ k) ∧ '\n' ∉ l ∧
      Position.after cs = ⟨ls.length + 1, l.length + 1⟩ := by
  induction cs using List.reverseRecOn with
  | nil => exact ⟨[], [], rfl, List.forall_mem_nil _, List.not_mem_nil, rfl⟩
  | append_singleton cs c ih =>
    obtain ⟨ls, l, rfl, hls, hl, hafter⟩ := ih
    rw [Position.after_concat, hafter, Position.next]
    by_cases hc : c = '\n'
    · subst hc
      refine ⟨ls ++ [l], [], ?_, ?_, List.not_mem_nil, ?_⟩
      · rw [closed_concat, List.append_assoc, List.append_nil]
      · exact List.forall_mem_append.2 ⟨hls, List.forall_mem_singleton.2 hl⟩
      · rw [if_pos rfl, List.length_append]
        rfl
    · refine ⟨ls, l ++ [c], List.append_assoc .., hls, ?_, ?_⟩
      · rw [List.mem_append, List.mem_singleton]
        exact fun h => h.elim hl fun he => hc he.symm
      · rw [if_neg hc, List.length_append]
        rfl

/-- Closed lines are what a cut at newlines finds. -/
theorem splitOn_closed_append {ls : List (List Char)} (h : ∀ l ∈ ls, '\n' ∉ l) (cs : List Char) :
    (closed ls ++ cs).splitOn '\n' = ls ++ cs.splitOn '\n' := by
  induction ls with
  | nil => rfl
  | cons l ls ih =>
    obtain ⟨hl, hls⟩ := List.forall_mem_cons.1 h
    rw [closed_cons, List.append_assoc, List.cons_append,
      List.splitOn_append_cons_self_of_not_mem hl, ih hls, List.cons_append]

theorem count_closed {ls : List (List Char)} (hn : ∀ l ∈ ls, '\n' ∉ l) :
    (closed ls).count '\n' = ls.length := by
  induction ls with
  | nil => rfl
  | cons l ls ih =>
    obtain ⟨hl, hls⟩ := List.forall_mem_cons.1 hn
    rw [closed_cons, List.count_append, List.count_eq_zero.2 hl, List.count_cons_self, ih hls,
      Nat.zero_add, List.length_cons]

/-- What stands behind closed lines is the last line. -/
theorem rtakeWhile_closed_append (ls : List (List Char)) {l : List Char} (hl : '\n' ∉ l) :
    (closed ls ++ l).rtakeWhile (· ≠ '\n') = l := by
  have hall : ∀ c ∈ l.reverse, decide (c ≠ '\n') = true := fun c hc =>
    decide_eq_true (ne_of_mem_of_not_mem (List.mem_reverse.1 hc) hl)
  rw [List.rtakeWhile, List.reverse_append, List.takeWhile_append_of_pos hall, List.reverse_append,
    List.reverse_reverse]
  rcases List.eq_nil_or_concat' ls with rfl | ⟨ks, k, rfl⟩
  · rfl
  · rw [closed_concat, ← List.append_assoc, List.reverse_concat,
      List.takeWhile_cons_of_neg (by simp)]
    rfl

/-- A text falls into what stands before the first character of a class and the rest. -/
theorem exists_append_of_first (p : Char → Bool) (cs : List Char) :
    ∃ x y, cs = x ++ y ∧ (∀ c ∈ x, p c = false) ∧ ∀ c, y.head? = some c → p c = true := by
  refine ⟨cs.takeWhile (!p ·), cs.dropWhile (!p ·), List.takeWhile_append_dropWhile.symm,
    fun c hc => ?_, fun c hc => ?_⟩
  · simpa using List.mem_takeWhile_imp hc
  · simpa [hc] using List.head?_dropWhile_not (!p ·) cs

/-- **A line starts a text**, closed by the newline behind it, if there is one. -/
theorem exists_line_append (cs : List Char) :
    ∃ l more, cs = l ++ more ∧ '\n' ∉ l ∧ ∀ c, more.head? = some c → c = '\n' := by
  obtain ⟨l, more, hcs, hl, hmore⟩ := exists_append_of_first (· == '\n') cs
  exact ⟨l, more, hcs, fun h => absurd (hl _ h) (by decide), fun c hc => beq_iff_eq.1 (hmore c hc)⟩

/-- A line at the front of a text is the first that a cut at newlines finds. -/
theorem exists_splitOn_eq_cons {l more : List Char} (hl : '\n' ∉ l)
    (hmore : ∀ c, more.head? = some c → c = '\n') :
    ∃ ls, (l ++ more).splitOn '\n' = l :: ls := by
  cases more with
  | nil => exact ⟨[], by rw [List.append_nil, List.splitOn_eq_singleton hl]⟩
  | cons c more =>
    obtain rfl := hmore c rfl
    exact ⟨_, List.splitOn_append_cons_self_of_not_mem hl more⟩

namespace Text

/-! ## Cutting at all line ends -/

section Equations

variable {c : Char} {x cs ds l : List Char} {ls : List (List Char)}

theorem lines_crlf : lines ('\r' :: '\n' :: cs) = ['\r', '\n'] :: lines cs := rfl

theorem lines_of_isLineEnd (hc : isLineEnd c = true) (hn : c = '\r' → cs.head? ≠ some '\n') :
    lines (c :: cs) = [c] :: lines cs := by
  rw [lines.eq_3 c cs fun ds hr hds => hn hr (by rw [hds]; rfl), if_pos hc]

theorem lines_of_not_isLineEnd (hc : isLineEnd c = false) :
    lines (c :: cs) = pushFront c (lines cs) := by
  have hr : c ≠ '\r' := by
    rintro rfl
    exact absurd hc (by decide)
  rw [lines.eq_3 c cs fun ds he => absurd he hr, hc, if_neg Bool.false_ne_true]

theorem lines_ne_nil (h : cs ≠ []) : lines cs ≠ [] := by
  intro hnil
  have hflatten := flatten_lines cs
  rw [hnil] at hflatten
  exact h hflatten.symm

theorem lines_concat_ne_nil (cs : List Char) (c : Char) : lines (cs ++ [c]) ≠ [] :=
  lines_ne_nil (List.append_ne_nil_of_right_ne_nil cs (List.cons_ne_nil c []))

/-- Without line ends a text belongs to the first line of what follows. -/
theorem lines_append_of_cons (hx : ∀ c ∈ x, isLineEnd c = false) (h : lines cs = l :: ls) :
    lines (x ++ cs) = (x ++ l) :: ls := by
  induction x with
  | nil => exact h
  | cons c x ih =>
    obtain ⟨hc, hx⟩ := List.forall_mem_cons.1 hx
    rw [List.cons_append, lines_of_not_isLineEnd hc, ih hx, pushFront, List.cons_append]

/-- **Behind a newline the cut starts anew.** -/
theorem lines_append_newline (cs ds : List Char) :
    lines (cs ++ '\n' :: ds) = lines (cs ++ ['\n']) ++ lines ds := by
  fun_induction lines cs with
  | case1 => rfl
  | case2 cs ih =>
    rw [List.cons_append, List.cons_append, List.cons_append, List.cons_append, lines_crlf,
      lines_crlf, ih, List.cons_append]
  | case3 c cs hn hc ih =>
    rw [List.cons_append, List.cons_append]
    by_cases hlone : c = '\r' ∧ cs = []
    · obtain ⟨rfl, rfl⟩ := hlone
      rfl
    · have hhead (es : List Char) : c = '\r' → (cs ++ '\n' :: es).head? ≠ some '\n' := by
        intro hr hhead
        cases cs with
        | nil => exact hlone ⟨hr, rfl⟩
        | cons d cs =>
          obtain rfl : d = '\n' := Option.some.inj hhead
          exact hn cs hr rfl
      rw [lines_of_isLineEnd hc (hhead ds), lines_of_isLineEnd hc (hhead []), ih, List.cons_append]
  | case4 c cs hn hc ih =>
    rw [Bool.not_eq_true] at hc
    obtain ⟨l, ls, hls⟩ := List.exists_cons_of_ne_nil (lines_concat_ne_nil cs '\n')
    rw [List.cons_append, List.cons_append, lines_of_not_isLineEnd hc, lines_of_not_isLineEnd hc,
      ih, hls]
    rfl

end Equations

/-- The line end at the front of a text. -/
def firstEnd : List Char → List Char
  | '\r' :: '\n' :: _ => ['\r', '\n']
  | c :: _ => [c]
  | [] => []

/-- A line end at the front of a text closes the first line. -/
theorem exists_lines_eq_cons {c : Char} (hc : isLineEnd c = true) (cs : List Char) :
    ∃ ls, lines (c :: cs) = firstEnd (c :: cs) :: ls := by
  by_cases h : c = '\r' ∧ cs.head? = some '\n'
  · obtain ⟨rfl, hhead⟩ := h
    obtain ⟨ds, rfl⟩ := List.head?_eq_some_iff.1 hhead
    exact ⟨lines ds, lines_crlf⟩
  · refine ⟨lines cs, ?_⟩
    rw [lines_of_isLineEnd hc fun hr hhead => h ⟨hr, hhead⟩,
      firstEnd.eq_2 c cs fun ds hr hds => h ⟨hr, by rw [hds]; rfl⟩]

/-- **A line** is text without line ends, closed by the line end behind it, if there is one. -/
structure IsLine (x behind : List Char) : Prop where
  body : ∀ c ∈ x, isLineEnd c = false
  ends : ∀ c, behind.head? = some c → isLineEnd c = true

/-- The first line of a text. -/
theorem head?_lines {x behind : List Char} (h : IsLine x behind) (hne : x ++ behind ≠ []) :
    (lines (x ++ behind)).head? = some (x ++ firstEnd behind) := by
  cases behind with
  | nil =>
    rw [List.append_nil] at hne ⊢
    obtain ⟨y, c, rfl⟩ := (List.eq_nil_or_concat' x).resolve_left hne
    obtain ⟨hy, hc⟩ := List.forall_mem_append.1 h.body
    have hlast : lines [c] = [[c]] := lines_of_not_isLineEnd (hc c (List.mem_singleton_self c))
    rw [lines_append_of_cons hy hlast, List.head?_cons, firstEnd, List.append_nil]
  | cons c cs =>
    obtain ⟨ls, hls⟩ := exists_lines_eq_cons (h.ends c rfl) cs
    rw [lines_append_of_cons h.body hls, List.head?_cons]

/-- **Every line of a text is one.** -/
theorem exists_isLine_of_mem_lines {p cs : List Char} (h : p ∈ lines cs) :
    ∃ x behind, IsLine x behind ∧ p = x ++ firstEnd behind := by
  fun_induction lines cs generalizing p with
  | case1 => exact absurd h List.not_mem_nil
  | case2 cs ih =>
    rcases List.mem_cons.1 h with rfl | h
    · exact ⟨[], ['\r', '\n'], ⟨List.forall_mem_nil _, fun c hc => Option.some.inj hc ▸ rfl⟩, rfl⟩
    · exact ih h
  | case3 c cs hn hc ih =>
    rcases List.mem_cons.1 h with rfl | h
    · refine ⟨[], [c], ⟨List.forall_mem_nil _, fun d hd => Option.some.inj hd ▸ hc⟩, ?_⟩
      exact (firstEnd.eq_2 c [] fun _ _ he => absurd he (List.cons_ne_nil _ _).symm).symm
    · exact ih h
  | case4 c cs hn hc ih =>
    rw [Bool.not_eq_true] at hc
    cases hls : lines cs with
    | nil =>
      rw [hls] at h
      refine ⟨[c], [], ⟨List.forall_mem_singleton.2 hc, fun d hd => ?_⟩, List.mem_singleton.1 h⟩
      exact absurd hd (Option.some_ne_none d).symm
    | cons l ls =>
      rw [hls] at h ih
      rcases List.mem_cons.1 h with rfl | h
      · obtain ⟨x, behind, hline, rfl⟩ := ih List.mem_cons_self
        exact ⟨c :: x, behind, ⟨List.forall_mem_cons.2 ⟨hc, hline.body⟩, hline.ends⟩, rfl⟩
      · exact ih (List.mem_cons_of_mem l h)

/-! ## A line without its end -/

section WithoutEnd

variable {c : Char} {x y behind : List Char}

theorem withoutEnd_eq (l : List Char) :
    withoutEnd l = (l.rdropWhile (· == '\n')).rdropWhile (· == '\r') := by
  rw [withoutEnd, List.rdropWhile, List.rdropWhile, List.reverse_reverse]

theorem rdropWhile_append (p : Char → Bool) (x y : List Char) : (x ++ y).rdropWhile p
    = if y.rdropWhile p = [] then x.rdropWhile p else x ++ y.rdropWhile p := by
  simp only [List.rdropWhile, List.reverse_append, List.dropWhile_append, List.isEmpty_iff,
    List.reverse_eq_nil_iff]
  split
  · rfl
  · rw [List.reverse_append, List.reverse_reverse]

/-- Where a character does not stand, none is taken from the end. -/
theorem rdropWhile_of_notMem (h : c ∉ x) : x.rdropWhile (· == c) = x := by
  rw [List.rdropWhile_eq_self_iff]
  intro hx hlast
  exact h (beq_iff_eq.1 hlast ▸ List.getLast_mem hx)

theorem IsLine.notMem (h : IsLine x behind) (hc : isLineEnd c = true) : c ∉ x := by
  intro hmem
  rw [h.body c hmem] at hc
  exact absurd hc Bool.false_ne_true

/-- What a line shows of its end: all but a newline or a carriage return. -/
def shownEnd : List Char → List Char
  | [] => []
  | c :: _ => if c = '\n' ∨ c = '\r' then [] else [c]

/-- **A line without its end** shows its text, and of the end what is neither newline nor carriage
return. -/
theorem withoutEnd_isLine (h : IsLine x behind) :
    withoutEnd (x ++ firstEnd behind) = x ++ shownEnd behind := by
  have hn : x.rdropWhile (· == '\n') = x := rdropWhile_of_notMem (h.notMem rfl)
  have hr : x.rdropWhile (· == '\r') = x := rdropWhile_of_notMem (h.notMem rfl)
  rw [withoutEnd_eq]
  fun_cases firstEnd behind with
  | case1 cs =>
    have hend : (x ++ ['\r', '\n']).rdropWhile (· == '\n') = x ++ ['\r'] := by
      rw [rdropWhile_append, if_neg (by decide)]
      rfl
    rw [hend, List.rdropWhile_concat_pos _ _ _ rfl, hr, shownEnd, if_pos (Or.inr rfl),
      List.append_nil]
  | case2 c cs hcrlf =>
    by_cases hc : c = '\n'
    · subst hc
      rw [List.rdropWhile_concat_pos _ _ _ rfl, hn, hr, shownEnd, if_pos (Or.inl rfl),
        List.append_nil]
    · rw [List.rdropWhile_concat_neg _ _ _ (by simpa using hc)]
      by_cases hc' : c = '\r'
      · subst hc'
        rw [List.rdropWhile_concat_pos _ _ _ rfl, hr, shownEnd, if_pos (Or.inr rfl),
          List.append_nil]
      · rw [List.rdropWhile_concat_neg _ _ _ (by simpa using hc'), shownEnd,
          if_neg fun h => h.elim hc hc']
  | case3 => rw [shownEnd, List.append_nil, hn, hr]

/-- No newline stands in a line without its end. -/
theorem newline_notMem_withoutEnd {p cs : List Char} (h : p ∈ lines cs) : '\n' ∉ withoutEnd p := by
  obtain ⟨x, behind, hline, rfl⟩ := exists_isLine_of_mem_lines h
  rw [withoutEnd_isLine hline, List.mem_append]
  rintro (hx | hend)
  · exact hline.notMem rfl hx
  · cases behind with
    | nil => exact absurd hend List.not_mem_nil
    | cons c cs =>
      rw [shownEnd] at hend
      split at hend
      · exact absurd hend List.not_mem_nil
      · next hc => exact hc (Or.inl (List.mem_singleton.1 hend).symm)

end WithoutEnd

/-! ## Where the two cuts agree -/

/-- **A line that both cuts end where its newline stands**: it holds no other line end, save a
carriage return right before the newline. -/
def Whole (l : List Char) : Prop :=
  ∃ x, (∀ c ∈ x, isLineEnd c = false) ∧ (l = x ∨ l = x ++ ['\r'])

/-- **A line that shows in one piece**: no line end stands in it before its last character. -/
def Unbroken (l : List Char) : Prop := ∀ c ∈ l.dropLast, isLineEnd c = false

section Numbers

variable {l : List Char} {ls : List (List Char)}

/-- A whole line is one line of the finer cut. -/
theorem lines_whole (h : Whole l) : lines (l ++ ['\n']) = [l ++ ['\n']] := by
  obtain ⟨x, hx, rfl | rfl⟩ := h
  · exact lines_append_of_cons hx rfl
  · rw [List.append_assoc]
    exact lines_append_of_cons hx rfl

/-- A line that is not whole is several lines of the finer cut. -/
theorem two_le_length_lines (hn : '\n' ∉ l) (h : ¬ Whole l) : 2 ≤ (lines (l ++ ['\n'])).length := by
  obtain ⟨x, y, rfl, hx, hy⟩ := exists_append_of_first isLineEnd l
  cases y with
  | nil => exact absurd ⟨x, hx, Or.inl (List.append_nil x)⟩ h
  | cons c y =>
    have hc := hy c rfl
    have hhead : c = '\r' → (y ++ ['\n']).head? ≠ some '\n' := by
      rintro rfl hhead
      cases y with
      | nil => exact h ⟨x, hx, Or.inr rfl⟩
      | cons d y =>
        obtain rfl : d = '\n' := Option.some.inj hhead
        exact hn (by simp)
    rw [List.append_assoc, List.cons_append, lines_append_of_cons hx (lines_of_isLineEnd hc hhead)]
    have hpos := List.length_pos_iff.2 (lines_concat_ne_nil y '\n')
    rw [List.length_cons]
    omega

theorem lines_closed_append (ls : List (List Char)) (cs : List Char) :
    lines (closed ls ++ cs) = lines (closed ls) ++ lines cs := by
  induction ls with
  | nil => rfl
  | cons l ls ih =>
    rw [closed_cons, List.append_assoc, List.cons_append, lines_append_newline, ih,
      lines_append_newline l (closed ls), List.append_assoc]

theorem length_lines_closed_cons (l : List Char) (ls : List (List Char)) :
    (lines (closed (l :: ls))).length
      = (lines (l ++ ['\n'])).length + (lines (closed ls)).length := by
  rw [closed_cons, lines_append_newline, List.length_append]

/-- **Whole lines have the same numbers in both cuts.** -/
theorem length_lines_of_whole (h : ∀ l ∈ ls, Whole l) :
    (lines (closed ls)).length = ls.length := by
  induction ls with
  | nil => rfl
  | cons l ls ih =>
    obtain ⟨hl, hls⟩ := List.forall_mem_cons.1 h
    rw [length_lines_closed_cons, lines_whole hl, List.length_singleton, ih hls, List.length_cons,
      Nat.add_comm]

theorem length_le_length_lines (ls : List (List Char)) :
    ls.length ≤ (lines (closed ls)).length := by
  induction ls with
  | nil => exact Nat.zero_le _
  | cons l ls ih =>
    have hpos := List.length_pos_iff.2 (lines_concat_ne_nil l '\n')
    rw [length_lines_closed_cons, List.length_cons]
    omega

/-- **Where a line is not whole, the finer cut is ahead** in its numbers. -/
theorem length_lt_length_lines (hn : ∀ l ∈ ls, '\n' ∉ l) (h : ¬ ∀ l ∈ ls, Whole l) :
    ls.length < (lines (closed ls)).length := by
  induction ls with
  | nil => exact absurd (List.forall_mem_nil _) h
  | cons l ls ih =>
    obtain ⟨hl, hls⟩ := List.forall_mem_cons.1 hn
    rw [length_lines_closed_cons, List.length_cons]
    by_cases hwhole : Whole l
    · have hlt := ih hls fun hall => h (List.forall_mem_cons.2 ⟨hwhole, hall⟩)
      rw [lines_whole hwhole, List.length_singleton]
      omega
    · have htwo := two_le_length_lines hl hwhole
      have hle := length_le_length_lines ls
      omega

end Numbers

/-- A line is unbroken if its first line end is its last character. -/
theorem unbroken_append_cons_iff {x t : List Char} {c : Char} (hx : ∀ d ∈ x, isLineEnd d = false)
    (hc : isLineEnd c = true) : Unbroken (x ++ c :: t) ↔ t = [] := by
  constructor
  · intro h
    by_contra ht
    have hmem : c ∈ (x ++ c :: t).dropLast := by
      rw [List.dropLast_append_of_ne_nil (List.cons_ne_nil c t), List.dropLast_cons_of_ne_nil ht]
      exact List.mem_append_right x List.mem_cons_self
    rw [h c hmem] at hc
    exact Bool.false_ne_true hc
  · rintro rfl
    rw [Unbroken, List.dropLast_concat]
    exact hx

/-- A line with the carriage returns at its end taken away. -/
def withoutReturns (l : List Char) : List Char := l.rdropWhile (· == '\r')

/-- Up to a character that is no carriage return nothing is taken away. -/
theorem withoutReturns_append_cons {c : Char} (hc : c ≠ '\r') (x y : List Char) :
    withoutReturns (x ++ c :: y) = x ++ c :: withoutReturns y := by
  rw [withoutReturns, withoutReturns, List.append_cons, rdropWhile_append]
  split
  · next hy => rw [hy, List.rdropWhile_concat_neg _ _ _ (by simpa using hc)]
  · rw [List.append_assoc, List.singleton_append]

/-- Up to its first line end a line is a line of the finer cut. -/
theorem isLine_append {x y more : List Char} (hx : ∀ c ∈ x, isLineEnd c = false)
    (hy : ∀ c, y.head? = some c → isLineEnd c = true)
    (hmore : ∀ c, more.head? = some c → c = '\n') : IsLine x (y ++ more) where
  body := hx
  ends c hc := by
    cases y with
    | nil => exact hmore c hc ▸ rfl
    | cons d y => exact hy c hc

/-- **The first piece of a line shows the whole line** if the line is unbroken. -/
theorem withoutEnd_eq_iff {x y more : List Char} (hx : ∀ c ∈ x, isLineEnd c = false)
    (hy : ∀ c, y.head? = some c → isLineEnd c = true) (hn : '\n' ∉ y)
    (hmore : ∀ c, more.head? = some c → c = '\n') :
    withoutEnd (x ++ firstEnd (y ++ more)) = withoutReturns (x ++ y) ↔
      Unbroken (withoutReturns (x ++ y)) := by
  have hr : '\r' ∉ x := fun hmem => absurd (hx _ hmem) (by decide)
  have hxr : x.rdropWhile (· == '\r') = x := rdropWhile_of_notMem hr
  rw [withoutEnd_isLine (isLine_append hx hy hmore), withoutReturns, rdropWhile_append, hxr]
  cases y with
  | nil =>
    have hshown : shownEnd more = [] := by
      cases more with
      | nil => rfl
      | cons c more => rw [shownEnd, if_pos (Or.inl (hmore c rfl))]
    rw [List.rdropWhile_nil, if_pos rfl, List.nil_append, hshown, List.append_nil]
    exact iff_of_true rfl fun c hc => hx c (List.dropLast_subset x hc)
  | cons c y =>
    have hc := hy c rfl
    have hcn : c ≠ '\n' := fun he => hn (he ▸ List.mem_cons_self)
    rw [List.cons_append, shownEnd]
    by_cases hs : (c :: y).rdropWhile (· == '\r') = []
    · have hcr : c = '\r' := by
        simpa using (List.rdropWhile_eq_nil_iff.1 hs) c List.mem_cons_self
      rw [if_pos hs, if_pos (Or.inr hcr), List.append_nil]
      exact iff_of_true rfl fun d hd => hx d (List.dropLast_subset x hd)
    · obtain ⟨t, ht⟩ : ∃ t, (c :: y).rdropWhile (· == '\r') = c :: t := by
        obtain ⟨d, t, ht⟩ := List.exists_cons_of_ne_nil hs
        have hprefix := List.rdropWhile_prefix (· == '\r') (l := c :: y)
        rw [ht] at hprefix ⊢
        exact ⟨t, by rw [(List.cons_prefix_cons.1 hprefix).1]⟩
      rw [if_neg hs, ht, unbroken_append_cons_iff hx hc, List.append_cancel_left_eq]
      by_cases hcr : c = '\r'
      · -- what is left of the line does not end in a carriage return
        rw [if_pos (Or.inr hcr)]
        refine iff_of_false (List.cons_ne_nil c t).symm fun hnil => ?_
        subst hnil hcr
        have hlast := List.rdropWhile_last_not (· == '\r') ('\r' :: y) hs
        simp [ht] at hlast
      · rw [if_neg fun h => h.elim hcn hcr, List.cons.injEq]
        exact ⟨fun h => h.2.symm, fun h => ⟨rfl, h.symm⟩⟩

/-- **Line by number in both cuts.**  Of a line that stands behind closed lines the finer cut shows
under the same number the whole text, if the lines before it are whole and it is unbroken itself, or
if a piece of these lines happens to have that number and that text. -/
theorem exists_getElem?_lines_iff {ls : List (List Char)} {l more : List Char}
    (hls : ∀ k ∈ ls, '\n' ∉ k) (hl : '\n' ∉ l) (hne : l ≠ [])
    (hmore : ∀ c, more.head? = some c → c = '\n') :
    (∃ p, (lines (closed ls ++ (l ++ more)))[ls.length]? = some p ∧
        withoutEnd p = withoutReturns l) ↔
      (∀ k ∈ ls, Whole k) ∧ Unbroken (withoutReturns l) ∨
        ∃ p, (lines (closed ls))[ls.length]? = some p ∧ withoutEnd p = withoutReturns l := by
  rw [lines_closed_append]
  by_cases hwhole : ∀ k ∈ ls, Whole k
  · have hlength := length_lines_of_whole hwhole
    obtain ⟨x, y, rfl, hx, hy⟩ := exists_append_of_first isLineEnd l
    have hn : '\n' ∉ y := fun h => hl (List.mem_append_right x h)
    have hline := isLine_append hx hy hmore
    have hhead := head?_lines hline (by simpa using fun hx' hy' => absurd (by simp [hx', hy']) hne)
    rw [List.append_assoc, List.getElem?_append_right (Nat.le_of_eq hlength), hlength, Nat.sub_self,
      ← List.head?_eq_getElem?, hhead, List.getElem?_eq_none (Nat.le_of_eq hlength)]
    simp only [Option.some.injEq, exists_eq_left', withoutEnd_eq_iff hx hy hn hmore]
    refine ⟨fun h => Or.inl ⟨hwhole, h⟩, ?_⟩
    rintro (h | ⟨p, hp, -⟩)
    · exact h.2
    · exact absurd hp (Option.some_ne_none p).symm
  · have hlt := length_lt_length_lines hls hwhole
    rw [List.getElem?_append_left hlt]
    exact ⟨Or.inr, fun h => h.resolve_left fun h => hwhole h.1⟩

end Text

end ConfigScript
