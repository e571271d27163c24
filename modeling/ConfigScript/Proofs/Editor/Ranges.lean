import ConfigScript.Diagnostics
import ConfigScript.Text.Utf16
import ConfigScript.Proofs.Lexis.Unclosed
import ConfigScript.Proofs.Text.LineEnds
import ConfigScript.Proofs.Text.Pairs

/-!
# Proofs/Editor/Ranges — does a range select its token?

A client that reads a range counts differently: its lines end at carriage returns as well, and its
characters are units of sixteen bits.  `Spot.behind?` is the text behind the place that a client
takes a spot for.  `forall₂_behind?_iff_aligned`, the main statement, says when the range of a
diagnostic starts at the quote of the literal that is left open, and when it ends at the end of the
document: the text before the place has to be **aligned**.  `behind?_other_place` is a document for
which neither is so.

Both parts rest on `behind?_spot_after_iff`, the same for the spot of any place in a text.
-/

namespace ConfigScript

open Text

/-! ## The diagnostic of a document -/

/-- The diagnostic of a literal that is left open. -/
def openDiagnostic (passed literal : List Char) : Diagnostic where
  start := (Position.after passed).spot
  stop := (Position.after (passed ++ literal)).spot
  message := "unterminated string"

/-- Only invalid tokens give diagnostics. -/
theorem diagnostics_eq (document : String) : diagnostics document
    = (invalidTokens (tokenize document)).filterMap Diagnostic.ofToken? := by
  rw [diagnostics, invalidTokens, List.filterMap_filter]
  refine List.filterMap_congr fun t _ => ?_
  split
  · rfl
  · next h => exact if_neg fun hkind => h (beq_iff_eq.2 hkind)

theorem diagnostics_of_unclosed?_eq_none {document : String}
    (h : unclosed? document.toList = none) : diagnostics document = [] := by
  rw [diagnostics_eq, tokenize_eq, invalidTokens_of_unclosed?_eq_none h, List.filterMap_nil]

/-- **A document in which a literal is left open has one diagnostic**, that of the literal. -/
theorem exists_diagnostics_eq {document : String} {literal : List Char}
    (h : unclosed? document.toList = some literal) :
    ∃ a cs, document.toList = a ++ literal ∧ literal = '"' :: cs ∧
      invalidTokens (tokenize document) = [openToken a literal] ∧
      diagnostics document = [openDiagnostic a literal] := by
  obtain ⟨a, cs, htext, hliteral, hinvalid⟩ := exists_of_unclosed?_eq_some h []
  rw [← tokenize_eq, List.nil_append] at hinvalid
  refine ⟨a, cs, htext, hliteral, hinvalid, ?_⟩
  rw [diagnostics_eq, hinvalid]
  rfl

/-! ## How a client reads a spot -/

/-- **The text behind so many line ends**, as a client sees them: a newline, a carriage return, or
both in this order; `none` if there are not so many. -/
def behindLines? : Nat → List Char → Option (List Char)
  | 0, cs => some cs
  | _ + 1, [] => none
  | n + 1, '\r' :: '\n' :: cs => behindLines? n cs
  | n + 1, c :: cs => if c = '\n' ∨ c = '\r' then behindLines? n cs else behindLines? (n + 1) cs

/-- **The text behind so many units of a line.**  On a shorter line it is what stands behind the
line; there is none for a place amid the two units of a character. -/
def behindUnits? : Nat → List Char → Option (List Char)
  | 0, cs => some cs
  | _ + 1, [] => some []
  | n + 1, c :: cs =>
    if c = '\n' ∨ c = '\r' then some (c :: cs)
    else if (utf16Units c).length ≤ n + 1 then behindUnits? (n + 1 - (utf16Units c).length) cs
    else none

/-- **The text behind the place that a client takes a spot for.** -/
def Spot.behind? (s : Spot) (document : List Char) : Option (List Char) :=
  if s.line < 0 ∨ s.character < 0 then none
  else (behindLines? s.line.toNat document).bind (behindUnits? s.character.toNat)

/-! ## Lines -/

section Lines

variable {c : Char} {k x cs m : List Char} {ls : List (List Char)} {n : Nat}

theorem behindLines?_crlf : behindLines? (n + 1) ('\r' :: '\n' :: cs) = behindLines? n cs := by
  rw [behindLines?]

theorem behindLines?_newline : behindLines? (n + 1) ('\n' :: cs) = behindLines? n cs := by
  rw [behindLines?.eq_4 _ _ _ (by simp), if_pos (Or.inl rfl)]

theorem behindLines?_plain (hn : c ≠ '\n') (hr : c ≠ '\r') :
    behindLines? (n + 1) (c :: cs) = behindLines? (n + 1) cs := by
  rw [behindLines?.eq_4 _ _ _ fun _ h _ => absurd h hr, if_neg fun h => h.elim hn hr]

/-- A line whose carriage return stands before its newline is a line to a client. -/
theorem behindLines?_append_newline (hn : '\n' ∉ k) (hpaired : Paired (k ++ '\n' :: x)) :
    behindLines? (n + 1) (k ++ '\n' :: cs) = behindLines? n cs := by
  induction k with
  | nil => exact behindLines?_newline
  | cons c k ih =>
    obtain ⟨hc, hk⟩ := not_or.1 (mt List.mem_cons.2 hn)
    by_cases hr : c = '\r'
    · subst hr
      rw [hpaired.eq_nil_of_cons hk]
      exact behindLines?_crlf
    · rw [List.cons_append, behindLines?_plain (Ne.symm hc) hr, ih hk hpaired.of_cons]

/-- **Where all carriage returns stand before newlines, a client counts the lines by newlines.** -/
theorem behindLines?_closed_append (hn : ∀ l ∈ ls, '\n' ∉ l) (hpaired : Paired (closed ls ++ x))
    (cs : List Char) : behindLines? ls.length (closed ls ++ cs) = some cs := by
  induction ls with
  | nil => rw [closed, List.flatMap_nil, List.nil_append, List.length_nil, behindLines?]
  | cons l ls ih =>
    obtain ⟨hl, hls⟩ := List.forall_mem_cons.1 hn
    rw [closed_cons, List.append_assoc, List.cons_append] at hpaired ⊢
    rw [List.length_cons, behindLines?_append_newline hl hpaired]
    exact ih hls hpaired.of_append.of_cons

/-- A text that a client may count as so many lines: it holds fewer newlines, or as many, and then
each line ends in one and no carriage return stands but before it. -/
def Counted (n : Nat) (x : List Char) : Prop :=
  x.count '\n' < n ∨ ∃ ls, x = closed ls ∧ ls.length = n ∧ (∀ l ∈ ls, '\n' ∉ l) ∧ Paired x

theorem counted_nil : Counted 0 [] :=
  Or.inr ⟨[], rfl, rfl, List.forall_mem_nil _, paired_of_notMem List.not_mem_nil⟩

theorem Counted.line (h : Counted n x) (hn : '\n' ∉ k) (hpaired : Paired (k ++ ['\n'])) :
    Counted (n + 1) (k ++ '\n' :: x) := by
  refine h.imp (fun hlt => ?_) ?_
  · rw [List.count_append, List.count_eq_zero.2 hn, List.count_cons_self]
    omega
  · rintro ⟨ls, rfl, rfl, hls, hx⟩
    refine ⟨k :: ls, (closed_cons k ls).symm, rfl, List.forall_mem_cons.2 ⟨hn, hls⟩, ?_⟩
    rw [List.append_cons]
    exact hpaired.append hx

/-- A carriage return that stands alone is a line without a newline. -/
theorem Counted.lone (h : Counted n x) : Counted (n + 1) ('\r' :: x) := by
  refine Or.inl ?_
  rw [List.count_cons_of_ne (by decide), Nat.lt_succ_iff]
  rcases h with hlt | ⟨ls, rfl, rfl, hls, -⟩
  · exact Nat.le_of_lt hlt
  · exact Nat.le_of_eq (count_closed hls)

theorem Counted.plain (h : Counted (n + 1) x) (hn : c ≠ '\n') (hr : c ≠ '\r') :
    Counted (n + 1) (c :: x) := by
  refine h.imp (fun hlt => by rwa [List.count_cons_of_ne hn]) ?_
  rintro ⟨ls, rfl, hlength, hls, hx⟩
  cases ls with
  | nil => exact absurd hlength (Nat.zero_ne_add_one n)
  | cons l ls =>
    obtain ⟨hl, hls⟩ := List.forall_mem_cons.1 hls
    have hcl : '\n' ∉ c :: l := List.not_mem_cons_of_ne_of_not_mem (Ne.symm hn) hl
    have hc : Paired [c] := paired_of_notMem fun h => hr (List.mem_singleton.1 h).symm
    refine ⟨(c :: l) :: ls, ?_, hlength, List.forall_mem_cons.2 ⟨hcl, hls⟩, hc.append hx⟩
    rw [closed_cons, closed_cons, List.cons_append]

/-- Lines that a client counts as newlines do end at the last newline, too. -/
theorem Counted.eq_of_append {l y : List Char} (h : Counted ls.length x) (hn : ∀ l ∈ ls, '\n' ∉ l)
    (hl : '\n' ∉ l) (hy : '\n' ∉ y) (hsplit : closed ls ++ l = x ++ y) : Paired x ∧ l = y := by
  have hcount : ls.length = x.count '\n' := by
    have hcounts := congrArg (List.count '\n') hsplit
    rwa [List.count_append, List.count_append, count_closed hn, List.count_eq_zero.2 hl,
      List.count_eq_zero.2 hy] at hcounts
  obtain ⟨ks, rfl, -, -, hpaired⟩ := h.resolve_left (Nat.not_lt.2 (Nat.le_of_eq hcount))
  refine ⟨hpaired, ?_⟩
  rw [← rtakeWhile_closed_append ls hl, hsplit, rtakeWhile_closed_append ks hy]

/-- **The lines that a client counts** hold a newline each at most. -/
theorem exists_of_behindLines?_eq_some (h : behindLines? n cs = some m) :
    ∃ x, cs = x ++ m ∧ Counted n x := by
  fun_induction behindLines? n cs with
  | case1 cs => exact ⟨[], Option.some.inj h, counted_nil⟩
  | case2 n => exact absurd h (Option.some_ne_none m).symm
  | case3 n cs ih =>
    obtain ⟨x, rfl, hx⟩ := ih h
    exact ⟨'\r' :: '\n' :: x, rfl, hx.line (k := ['\r']) (by decide) paired_crlf⟩
  | case4 n c cs hcrlf hc ih =>
    obtain ⟨x, rfl, hx⟩ := ih h
    refine ⟨c :: x, rfl, ?_⟩
    rcases hc with rfl | rfl
    · exact hx.line (k := []) List.not_mem_nil (paired_of_notMem (by decide))
    · exact hx.lone
  | case5 n c cs hcrlf hc ih =>
    obtain ⟨x, rfl, hx⟩ := ih h
    obtain ⟨hn, hr⟩ := not_or.1 hc
    exact ⟨c :: x, rfl, hx.plain hn hr⟩

end Lines

/-! ## Units -/

section UnitCounts

variable {c : Char} {x cs rest : List Char} {n : Nat}

theorem length_utf16Units (c : Char) :
    (utf16Units c).length = if c.toNat < 0x10000 then 1 else 2 := by
  rw [utf16Units]
  split <;> rfl

theorem utf16Length_cons (c : Char) (cs : List Char) :
    utf16Length (c :: cs) = (utf16Units c).length + utf16Length cs := by
  rw [utf16Length, List.flatMap_cons, List.length_append, utf16Length]

theorem length_le_utf16Length (cs : List Char) : cs.length ≤ utf16Length cs := by
  induction cs with
  | nil => exact Nat.zero_le _
  | cons c cs ih =>
    rw [utf16Length_cons, length_utf16Units, List.length_cons]
    split <;> omega

/-- **A text has as many units as characters** if each character is one unit. -/
theorem utf16Length_le_length_iff :
    utf16Length cs ≤ cs.length ↔ ∀ c ∈ cs, c.toNat < 0x10000 := by
  induction cs with
  | nil => simp [utf16Length]
  | cons c cs ih =>
    have hle := length_le_utf16Length cs
    rw [List.forall_mem_cons, ← ih, utf16Length_cons, length_utf16Units, List.length_cons]
    split <;> omega

theorem behindUnits?_append (hx : ∀ c ∈ x, c ≠ '\n' ∧ c ≠ '\r') (hunit : ∀ c ∈ x, c.toNat < 0x10000)
    (rest : List Char) : behindUnits? x.length (x ++ rest) = some rest := by
  induction x with
  | nil => rw [List.length_nil, List.nil_append, behindUnits?]
  | cons c x ih =>
    obtain ⟨⟨hn, hr⟩, hx⟩ := List.forall_mem_cons.1 hx
    obtain ⟨hc, hunit⟩ := List.forall_mem_cons.1 hunit
    have hlength : (utf16Units c).length = 1 := by rw [length_utf16Units, if_pos hc]
    rw [List.length_cons, List.cons_append, behindUnits?, if_neg fun h => h.elim hn hr, hlength,
      if_pos (Nat.le_add_left 1 x.length), Nat.add_sub_cancel, ih hx hunit]

/-- **The units that a client counts** belong to one line, and are not more than it was told. -/
theorem exists_of_behindUnits?_eq_some (h : behindUnits? n cs = some rest) :
    ∃ x, cs = x ++ rest ∧ (∀ c ∈ x, c ≠ '\n' ∧ c ≠ '\r') ∧ utf16Length x ≤ n := by
  fun_induction behindUnits? n cs with
  | case1 cs => exact ⟨[], Option.some.inj h, List.forall_mem_nil _, Nat.zero_le _⟩
  | case2 n => exact ⟨[], Option.some.inj h, List.forall_mem_nil _, Nat.zero_le _⟩
  | case3 n c cs hc => exact ⟨[], Option.some.inj h, List.forall_mem_nil _, Nat.zero_le _⟩
  | case4 n c cs hc hle ih =>
    obtain ⟨x, rfl, hx, hlength⟩ := ih h
    refine ⟨c :: x, rfl, List.forall_mem_cons.2 ⟨not_or.1 hc, hx⟩, ?_⟩
    rw [utf16Length_cons]
    omega
  | case5 n c cs hc hlt => exact absurd h (Option.some_ne_none rest).symm

end UnitCounts

/-! ## The spot of a place -/

/-- **A text whose end a client finds by its position**: no carriage return stands in it save before
newlines, and each character of its last line is one unit. -/
structure Aligned (passed : List Char) : Prop where
  paired : Paired passed
  narrow : ∀ c ∈ passed.rtakeWhile (· ≠ '\n'), c.toNat < 0x10000

theorem behind?_spot_after (ls : List (List Char)) (l document : List Char) :
    (⟨ls.length + 1, l.length + 1⟩ : Position).spot.behind? document
      = (behindLines? ls.length document).bind (behindUnits? l.length) := by
  have hline : ((ls.length : Int) + 1 - 1).toNat = ls.length := by omega
  have hcharacter : ((l.length : Int) + 1 - 1).toNat = l.length := by omega
  rw [Position.spot, Spot.behind?, if_neg (by dsimp only; omega), hline, hcharacter]

/-- **When a client finds a place by its spot.** -/
theorem behind?_spot_after_iff (a rest : List Char) :
    (Position.after a).spot.behind? (a ++ rest) = some rest ↔ Aligned a := by
  obtain ⟨ls, l, rfl, hls, hl, hafter⟩ := exists_closed_append a
  rw [hafter, behind?_spot_after, Option.bind_eq_some_iff]
  constructor
  · rintro ⟨m, hm, hrest⟩
    obtain ⟨x, hdocument, hx⟩ := exists_of_behindLines?_eq_some hm
    obtain ⟨y, rfl, hy, hlength⟩ := exists_of_behindUnits?_eq_some hrest
    have hn : '\n' ∉ y := fun h => (hy _ h).1 rfl
    have hr : '\r' ∉ y := fun h => (hy _ h).2 rfl
    have hsplit : closed ls ++ l = x ++ y := by
      rw [← List.append_assoc] at hdocument
      exact List.append_cancel_right hdocument
    obtain ⟨hpaired, rfl⟩ := hx.eq_of_append hls hl hn hsplit
    refine ⟨?_, ?_⟩
    · rw [hsplit]
      exact hpaired.append (paired_of_notMem hr)
    · rw [rtakeWhile_closed_append ls hl]
      exact utf16Length_le_length_iff.1 hlength
  · intro h
    have hnarrow := h.narrow
    rw [rtakeWhile_closed_append ls hl] at hnarrow
    have hr := h.paired.notMem hl
    refine ⟨l ++ rest, ?_, behindUnits?_append (fun c hc => ⟨?_, ?_⟩) hnarrow rest⟩
    · rw [List.append_assoc, behindLines?_closed_append hls h.paired]
    · exact ne_of_mem_of_not_mem hc hl
    · exact ne_of_mem_of_not_mem hc hr

/-! ## The range of a diagnostic -/

/-- **Whether a client selects a token by the range of its diagnostic.**  The token is a literal
that is left open; the range starts at its quote if and only if the text before the quote is
aligned, and ends at the end of the document if and only if the whole document is. -/
theorem forall₂_behind?_iff_aligned (uri document : String) :
    List.Forall₂ (fun d t => t.kind = .invalid ∧ ∃ a cs, document.toList = a ++ '"' :: cs ∧
        t.start = .after a ∧ t.stop = .after document.toList ∧
        (d.start.behind? document.toList = some ('"' :: cs) ↔ Aligned a) ∧
        (d.stop.behind? document.toList = some [] ↔ Aligned document.toList))
      (publish uri document).diagnostics (invalidTokens (tokenize document)) := by
  rw [publish]
  cases hopen : unclosed? document.toList with
  | none =>
    rw [diagnostics_of_unclosed?_eq_none hopen, tokenize_eq,
      invalidTokens_of_unclosed?_eq_none hopen]
    exact .nil
  | some literal =>
    obtain ⟨a, cs, htext, rfl, hinvalid, hdiagnostics⟩ := exists_diagnostics_eq hopen
    rw [hinvalid, hdiagnostics]
    refine .cons ⟨rfl, a, cs, htext, rfl, ?_, ?_, ?_⟩ .nil
    · rw [htext]
      rfl
    · rw [htext]
      exact behind?_spot_after_iff a ('"' :: cs)
    · have hend := behind?_spot_after_iff (a ++ '"' :: cs) []
      rw [List.append_nil] at hend
      rw [htext]
      exact hend

/-- A document that starts with a character of two units: a client takes the range of its literal
for one that starts before the quote and ends before the end. -/
theorem behind?_other_place :
    ∃ d, (publish "file:///a" (String.ofList ['😀', ' ', '"', 'a', 'b'])).diagnostics = [d] ∧
      d.start.behind? ['😀', ' ', '"', 'a', 'b'] = some [' ', '"', 'a', 'b'] ∧
      d.stop.behind? ['😀', ' ', '"', 'a', 'b'] = some ['b'] := by
  have hopen : unclosed? (['😀', ' '] ++ ['"', 'a', 'b']) = some ['"', 'a', 'b'] := by
    refine (unclosed?_word (by decide) (by decide)).trans ((unclosed?_space rfl).trans ?_)
    exact unclosed?_open rfl
  rw [← String.toList_ofList (l := ['😀', ' '] ++ _)] at hopen
  obtain ⟨a, -, htext, -, -, hdiagnostics⟩ := exists_diagnostics_eq hopen
  rw [String.toList_ofList] at htext
  obtain rfl : ['😀', ' '] = a := List.append_cancel_right htext
  exact ⟨_, hdiagnostics, rfl, rfl⟩

end ConfigScript
