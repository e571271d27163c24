import ConfigScript.Dump
import ConfigScript.Proofs.Text.LineEnds
import ConfigScript.Proofs.Text.Spelling

/-!
# Proofs/Text/Dumping — what a printed list says of its tokens

A line shows of a token where it starts and stops, its kind, its value and its message, and of these
only the value is in quotes.  The main statement, `dumpText_tellsApart`, says that this is enough:
two lists are printed alike only if their tokens are the same one by one, and a newline stands at
the end of each line and nowhere else.  Messages alone have to be free of newlines; positions may be
any numbers that can be written, and it does not matter which characters show as themselves.

Whether a list is printed at all depends on its positions alone (`exists_dump_iff`), and these are
the same in tokens that are the same (`dump_eq_ok_iff`).

A line can be taken apart from the left, since each part of it says where it ends: numbers before
the first character that is no digit, labels because none begins another, values at their second
quote (`Text.quotedBy_append_inj`) and messages at the newline.
-/

namespace ConfigScript

variable {c d : Char} {x y : List Char}

/-! ## The parts of a line -/

theorem Position.toList_spelling (p : Position) :
    p.spelling.toList = (toString p.line).toList ++ ':' :: (toString p.column).toList := by
  rw [Position.spelling, String.toList_append, String.toList_append, List.append_assoc]
  rfl

/-- **A position ends before the first character that is no digit.** -/
theorem Position.spelling_append_inj {p q : Position} (hc : c.isDigit = false)
    (hd : d.isDigit = false) (h : p.spelling.toList ++ c :: x = q.spelling.toList ++ d :: y) :
    p = q ∧ c :: x = d :: y := by
  rw [Position.toList_spelling, Position.toList_spelling, List.append_assoc, List.append_assoc,
    List.cons_append, List.cons_append] at h
  obtain ⟨hline, hbehind⟩ := Text.toString_append_inj (by decide) (by decide) h
  obtain ⟨hcolumn, hrest⟩ := Text.toString_append_inj hc hd (List.cons.inj hbehind).2
  obtain ⟨l, k⟩ := p
  obtain ⟨m, n⟩ := q
  obtain rfl : l = m := hline
  obtain rfl : k = n := hcolumn
  exact ⟨rfl, hrest⟩

theorem Position.newline_notMem_spelling (p : Position) : '\n' ∉ p.spelling.toList := by
  rw [Position.toList_spelling, List.mem_append, List.mem_cons]
  rintro (h | h | h)
  · exact Text.newline_notMem_toString p.line h
  · exact absurd h (by decide)
  · exact Text.newline_notMem_toString p.column h

namespace Kind

/-- **No label begins another.** -/
theorem eq_of_isPrefix_label {k l : Kind} (h : k.label.toList <+: l.label.toList) : k = l := by
  have hall : ∀ k ∈ all, ∀ l ∈ all, k.label.toList <+: l.label.toList → k = l := by decide
  exact hall k (mem_all k) l (mem_all l) h

theorem label_append_inj {k l : Kind} (h : k.label.toList ++ x = l.label.toList ++ y) :
    k = l ∧ x = y := by
  have hkl : k = l := by
    have hk : k.label.toList <+: l.label.toList ++ y := h ▸ List.prefix_append _ x
    rcases List.prefix_or_prefix_of_prefix hk (List.prefix_append _ y) with hp | hp
    · exact eq_of_isPrefix_label hp
    · exact (eq_of_isPrefix_label hp).symm
  subst hkl
  exact ⟨rfl, List.append_cancel_left h⟩

theorem newline_notMem_label (k : Kind) : '\n' ∉ k.label.toList := by
  cases k <;> decide

end Kind

namespace Token

/-- What a line says of a fault. -/
def faultText : Option String → String
  | some m => " error: " ++ m
  | none => ""

/-- **A fault ends at the newline**, if its message has none. -/
theorem faultText_append_inj {m n : Option String} (hm : ∀ s ∈ m, '\n' ∉ s.toList)
    (hn : ∀ s ∈ n, '\n' ∉ s.toList)
    (h : (faultText m).toList ++ '\n' :: x = (faultText n).toList ++ '\n' :: y) :
    m = n ∧ x = y := by
  have hsome (s : String) : (faultText (some s)).toList = ' ' :: "error: ".toList ++ s.toList :=
    String.toList_append
  have hplain {s : String} (hs : '\n' ∉ s.toList) : ∀ c ∈ s.toList, (c != '\n') = true :=
    fun c hc => bne_iff_ne.2 (ne_of_mem_of_not_mem hc hs)
  cases m with
  | none =>
    cases n with
    | none => exact ⟨rfl, (List.cons.inj h).2⟩
    | some n =>
      rw [hsome, List.append_assoc, List.cons_append] at h
      exact absurd (List.cons.inj h).1 (by decide)
  | some m =>
    rw [hsome, List.append_assoc, List.cons_append] at h
    cases n with
    | none => exact absurd (List.cons.inj h).1 (by decide)
    | some n =>
      rw [hsome, List.append_assoc, List.cons_append] at h
      obtain ⟨hmn, hrest⟩ := Text.append_cons_inj_of_forall (hplain (hm m rfl)) (hplain (hn n rfl))
        (by decide) (by decide) (List.append_cancel_left (List.cons.inj h).2)
      exact ⟨congrArg some (String.toList_inj.1 hmn), (List.cons.inj hrest).2⟩

/-! ## Lines -/

/-- What is written of a token in its line, where `shows` holds of the characters that stand as
themselves. -/
def spellingBy (shows : Char → Bool) (t : Token) : String :=
  t.start.spelling ++ "-" ++ t.stop.spelling ++ " " ++ t.kind.label ++ " "
    ++ String.ofList (Text.quotedBy shows t.value.toList) ++ faultText t.message?

/-- `spelling` shows what is printable. -/
theorem spellingBy_isPrintable : spellingBy Text.isPrintable = spelling := by
  funext t
  rw [spellingBy, Text.quotedBy_isPrintable, spelling]
  rfl

variable {shows : Char → Bool} {s t : Token}

theorem toList_spellingBy (t : Token) :
    (t.spellingBy shows).toList = t.start.spelling.toList ++ '-' :: (t.stop.spelling.toList
      ++ ' ' :: (t.kind.label.toList ++ ' ' :: (Text.quotedBy shows t.value.toList
        ++ (faultText t.message?).toList))) := by
  have hdash : "-".toList = ['-'] := by decide
  have hblank : " ".toList = [' '] := by decide
  simp only [spellingBy, String.toList_append, String.toList_ofList, hdash, hblank,
    List.append_assoc, List.cons_append, List.nil_append]

/-- **The same tokens have the same line.** -/
theorem spellingBy_eq_of_beq (h : (s == t) = true) : s.spellingBy shows = t.spellingBy shows := by
  obtain ⟨hsignature, hmessage⟩ := (beq_iff s t).1 h
  simp only [signature, Prod.mk.injEq] at hsignature
  obtain ⟨hkind, hvalue, hstart, hstop⟩ := hsignature
  rw [spellingBy, spellingBy, hkind, hvalue, hstart, hstop, hmessage]

/-- **A line ends at its newline**, and up to there it says which token it is of. -/
theorem spellingBy_append_inj (hs : ∀ m ∈ s.message?, '\n' ∉ m.toList)
    (ht : ∀ m ∈ t.message?, '\n' ∉ m.toList)
    (h : (s.spellingBy shows).toList ++ '\n' :: x = (t.spellingBy shows).toList ++ '\n' :: y) :
    (s == t) = true ∧ x = y := by
  simp only [toList_spellingBy, List.append_assoc, List.cons_append] at h
  obtain ⟨hstart, hdash⟩ := Position.spelling_append_inj (by decide) (by decide) h
  obtain ⟨hstop, hblank⟩ :=
    Position.spelling_append_inj (by decide) (by decide) (List.cons.inj hdash).2
  obtain ⟨hkind, hlabel⟩ := Kind.label_append_inj (List.cons.inj hblank).2
  obtain ⟨hvalue, hfault⟩ := Text.quotedBy_append_inj (List.cons.inj hlabel).2
  obtain ⟨hmessage, hrest⟩ := faultText_append_inj hs ht hfault
  refine ⟨(beq_iff s t).2 ⟨?_, hmessage⟩, hrest⟩
  rw [signature, signature, hkind, String.toList_inj.1 hvalue, hstart, hstop]

theorem newline_notMem_spellingBy (ht : ∀ m ∈ t.message?, '\n' ∉ m.toList) :
    '\n' ∉ (t.spellingBy shows).toList := by
  have hfault : '\n' ∉ (faultText t.message?).toList := by
    cases hmessage : t.message? with
    | none => exact List.not_mem_nil
    | some m =>
      rw [faultText, String.toList_append, List.mem_append, not_or]
      exact ⟨by decide, ht m hmessage⟩
  have hdash : '\n' ≠ '-' := by decide
  have hblank : '\n' ≠ ' ' := by decide
  simp only [toList_spellingBy, List.mem_append, List.mem_cons, not_or, hfault, hdash, hblank,
    Position.newline_notMem_spelling, Kind.newline_notMem_label, Text.newline_notMem_quotedBy,
    not_false_eq_true, and_true]

/-- The same tokens have the same numbers. -/
theorem numbers_eq_of_beq (h : (s == t) = true) : s.numbers = t.numbers := by
  have hsignature := signature_eq_of_beq h
  simp only [signature, Prod.mk.injEq] at hsignature
  rw [numbers, numbers, hsignature.2.2.1, hsignature.2.2.2]

/-- **A token that can be printed**: none of its numbers has too many digits. -/
def Writable (t : Token) : Prop :=
  ∀ n ∈ [t.start.line, t.start.column, t.stop.line, t.stop.column],
    n.natAbs < Number.tenTo Number.digitLimit

theorem isShort_numbers_iff : (∀ n ∈ t.numbers, Number.isShort n = true) ↔ t.Writable := by
  simp only [Number.isShort, decide_eq_true_eq]
  rfl

end Token

/-! ## Lists of tokens -/

variable {A B : List Token}

/-- **The same tokens**, one by one. -/
abbrev Same : List Token → List Token → Prop := List.Forall₂ fun s t => (s == t) = true

/-- The same tokens can be printed or cannot. -/
theorem Same.numbers_eq (h : Same A B) : A.flatMap Token.numbers = B.flatMap Token.numbers := by
  induction h with
  | nil => rfl
  | cons hst _ ih => rw [List.flatMap_cons, List.flatMap_cons, Token.numbers_eq_of_beq hst, ih]

section Dumps

variable {print : List Token → String} {dump : List Token → Except Number.TooLong String}
  (hdump : ∀ ts, dump ts = Number.checked (ts.flatMap Token.numbers) (print ts))
include hdump

/-- **Tokens are printed exactly if each of them can be.** -/
theorem exists_dump_iff : (∃ x, dump A = .ok x) ↔ ∀ t ∈ A, t.Writable := by
  simp only [hdump, Number.checked_eq_ok_iff, exists_and_left, exists_eq', and_true,
    List.mem_flatMap, forall_exists_index, and_imp, ← Token.isShort_numbers_iff]
  exact ⟨fun h t ht n hn => h n t ht hn, fun h n t ht hn => h t ht n hn⟩

/-- **What is printed tells lists apart** where the texts to be printed do. -/
theorem dump_eq_ok_iff (hprint : print A = print B ↔ Same A B) {x : String} (hA : dump A = .ok x) :
    dump B = .ok x ↔ Same A B := by
  rw [hdump, Number.checked_eq_ok_iff] at hA ⊢
  obtain ⟨hshort, rfl⟩ := hA
  exact ⟨fun h => hprint.1 h.2.symm, fun h => ⟨h.numbers_eq ▸ hshort, (hprint.2 h).symm⟩⟩

end Dumps

/-! ## The text form -/

/-- The lines of tokens, where `shows` holds of the characters that stand as themselves. -/
def printTextBy (shows : Char → Bool) (ts : List Token) : String :=
  String.join (ts.map fun t => t.spellingBy shows ++ "\n")

/-- `printText` shows what is printable. -/
theorem printTextBy_isPrintable : printTextBy Text.isPrintable = printText := by
  funext ts
  rw [printTextBy, Token.spellingBy_isPrintable, printText]

theorem toList_printTextBy (shows : Char → Bool) (ts : List Token) :
    (printTextBy shows ts).toList = closed (ts.map fun t => (t.spellingBy shows).toList) := by
  have hnewline : "\n".toList = ['\n'] := by decide
  rw [printTextBy, String.toList_join, closed, List.flatMap_map, List.flatMap_map]
  simp only [String.toList_append, hnewline]

/-- **Lines tell lists apart**, if no message has a newline. -/
theorem printTextBy_eq_iff (shows : Char → Bool)
    (hA : ∀ t ∈ A, ∀ m ∈ t.message?, '\n' ∉ m.toList)
    (hB : ∀ t ∈ B, ∀ m ∈ t.message?, '\n' ∉ m.toList) :
    printTextBy shows A = printTextBy shows B ↔ Same A B := by
  constructor
  · intro h
    have hlines := congrArg String.toList h
    rw [toList_printTextBy, toList_printTextBy, closed, closed, List.flatMap_map, List.flatMap_map,
      ← List.append_nil (A.flatMap _), ← List.append_nil (B.flatMap _)] at hlines
    refine (Text.forall₂_of_flatMap_append_eq (fun s hs t ht u v huv => ?_) ?_ ?_ hlines).1
    · rw [List.append_assoc, List.append_assoc] at huv
      exact Token.spellingBy_append_inj (hA s hs) (hB t ht) huv
    · exact fun t _ v he => absurd he (by simp)
    · exact fun t _ v he => absurd he (by simp)
  · intro h
    have hlines : A.map (fun t => t.spellingBy shows ++ "\n")
        = B.map fun t => t.spellingBy shows ++ "\n" :=
      List.forall₂_eq_eq_eq ▸ List.forall₂_map_left_iff.2 (List.forall₂_map_right_iff.2
        (h.imp fun _ _ hst => congrArg (· ++ "\n") (Token.spellingBy_eq_of_beq hst)))
    rw [printTextBy, printTextBy, hlines]

/-- A token in one line, where `shows` holds of the characters that stand as themselves. -/
def Token.lineBy (shows : Char → Bool) (t : Token) : Except Number.TooLong String :=
  Number.checked t.numbers (t.spellingBy shows)

/-- Tokens one a line, where `shows` holds of the characters that stand as themselves. -/
def dumpTextBy (shows : Char → Bool) (ts : List Token) : Except Number.TooLong String :=
  Number.checked (ts.flatMap Token.numbers) (printTextBy shows ts)

/-- **The lines of a printed text**: one for each token, with a newline at its end and nowhere
else. -/
structure Lines (line : Token → Except Number.TooLong String) (ts : List Token) (x : String)
    (lines : List String) : Prop where
  forall₂_line : List.Forall₂ (fun t l => line t = .ok l) ts lines
  eq_closed : x.toList = closed (lines.map String.toList)
  notMem_line : ∀ l ∈ lines, '\n' ∉ l.toList

/-- **A way of printing tokens tells lists apart**, said of two lists; `line` is the line that is
printed of a token.  A list with a number that is too long is not printed. -/
structure TellsApart (dump : List Token → Except Number.TooLong String)
    (line : Token → Except Number.TooLong String) (A B : List Token) : Prop where
  /-- A list is printed exactly if each of its tokens can be. -/
  ok_iff : (∃ x, dump A = .ok x) ↔ ∀ t ∈ A, t.Writable
  /-- The same is printed of lists whose tokens are the same one by one, and of no others. -/
  eq_iff : ∀ x, dump A = .ok x → (dump B = .ok x ↔ Same A B)
  /-- A line is printed for each token. -/
  lines : ∀ x, dump A = .ok x → ∃ lines, Lines line A x lines
  /-- So there are as many newlines as tokens. -/
  count_newline : ∀ x, dump A = .ok x → x.toList.count '\n' = A.length

/-- **Printed lists are told apart**, whichever characters show. -/
theorem dumpTextBy_tellsApart (shows : Char → Bool)
    (hA : ∀ t ∈ A, ∀ m ∈ t.message?, '\n' ∉ m.toList)
    (hB : ∀ t ∈ B, ∀ m ∈ t.message?, '\n' ∉ m.toList) :
    TellsApart (dumpTextBy shows) (Token.lineBy shows) A B := by
  have hdump (ts : List Token) : dumpTextBy shows ts
      = Number.checked (ts.flatMap Token.numbers) (printTextBy shows ts) := rfl
  have hnotMem : ∀ l ∈ A.map (Token.spellingBy shows), '\n' ∉ l.toList :=
    List.forall_mem_map.2 fun t ht => Token.newline_notMem_spellingBy (hA t ht)
  have hclosed : (printTextBy shows A).toList
      = closed ((A.map (Token.spellingBy shows)).map String.toList) := by
    rw [toList_printTextBy, List.map_map]
    rfl
  refine ⟨exists_dump_iff hdump,
    fun x hx => dump_eq_ok_iff hdump (printTextBy_eq_iff shows hA hB) hx, fun x hx => ?_,
    fun x hx => ?_⟩
  all_goals
    rw [hdump, Number.checked_eq_ok_iff] at hx
    obtain ⟨hshort, rfl⟩ := hx
  · refine ⟨_, ?_, hclosed, hnotMem⟩
    refine List.forall₂_map_right_iff.2 (List.forall₂_same.2 fun t ht => ?_)
    exact Number.checked_eq_ok_iff.2
      ⟨fun n hn => hshort n (List.mem_flatMap.2 ⟨t, ht, hn⟩), rfl⟩
  · rw [hclosed, count_closed (List.forall_mem_map.2 hnotMem), List.length_map, List.length_map]

/-- **The text form is unambiguous.**  Whatever the tokens are, as long as their messages have no
newlines, the printed text says how many there are and which they are, and has a newline for each;
and the same holds with any other set of characters that show.  Nothing is printed exactly where a
position has a number in it that is too long to be written. -/
theorem dumpText_tellsApart (hA : ∀ t ∈ A, ∀ m ∈ t.message?, '\n' ∉ m.toList)
    (hB : ∀ t ∈ B, ∀ m ∈ t.message?, '\n' ∉ m.toList) :
    TellsApart (dump .text) Token.line A B ∧
      ∀ shows, TellsApart (dumpTextBy shows) (Token.lineBy shows) A B := by
  have hprintable := dumpTextBy_tellsApart Text.isPrintable hA hB
  have hdump : dumpTextBy Text.isPrintable = dump .text := by
    funext ts
    rw [dump_eq, dumpTextBy, printTextBy_isPrintable]
    rfl
  have hline : Token.lineBy Text.isPrintable = Token.line := by
    funext t
    rw [Token.lineBy, Token.spellingBy_isPrintable, Token.line]
  rw [hdump, hline] at hprintable
  exact ⟨hprintable, fun shows => dumpTextBy_tellsApart shows hA hB⟩

/-- **No message and an empty one print differently**, here behind a value that has line breaks and
both quotes, at positions before the first. -/
theorem dumpText_empty_message :
    ∃ x, dump .text [⟨.word, "a\n'\"\u2028", ⟨0, -1⟩, ⟨-1, 0⟩, none⟩] = .ok x ∧
      dump .text [⟨.word, "a\n'\"\u2028", ⟨0, -1⟩, ⟨-1, 0⟩, some ⟨"", ⟨0, 0⟩⟩⟩] ≠ .ok x := by
  have htells := (dumpText_tellsApart
    (A := [⟨.word, "a\n'\"\u2028", ⟨0, -1⟩, ⟨-1, 0⟩, none⟩])
    (B := [⟨.word, "a\n'\"\u2028", ⟨0, -1⟩, ⟨-1, 0⟩, some ⟨"", ⟨0, 0⟩⟩⟩])
    (by decide) (by decide)).1
  have hwritable : ∀ n ∈ [0, -1, -1, 0], Int.natAbs n < Number.tenTo Number.digitLimit := by
    have hdigit : ∀ n ∈ [0, -1, -1, 0], Int.natAbs n < Number.tenTo 1 := by decide
    exact fun n hn => Nat.lt_of_lt_of_le (hdigit n hn) (Number.tenTo_le_tenTo (by decide))
  obtain ⟨x, hx⟩ := htells.ok_iff.2 (List.forall_mem_singleton.2 hwritable)
  refine ⟨x, hx, fun h => ?_⟩
  rcases (htells.eq_iff x hx).1 h with _ | ⟨hbeq, -⟩
  exact absurd hbeq (by decide)

end ConfigScript
