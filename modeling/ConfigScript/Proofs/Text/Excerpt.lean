import ConfigScript.Proofs.Lexis.Unclosed
import ConfigScript.Proofs.Text.LineEnds
import ConfigScript.Proofs.Text.Spelling

/-!
# Proofs/Text/Excerpt — does an excerpt show the line it is about?

A report counts lines by newlines, while its excerpt takes the line of that number from a cut at all
line ends.  `shows_iff_of_mem_tokenize`, the main statement, says of the report on an open literal
when the excerpt shows the line of its quote, with the caret below the quote:
`Text.exists_getElem?_lines_iff` is the condition, and `excerpt_shows_other_line` a text for which
it fails.

The caret stands in the right column in any case: the gutter above it is as wide as the one beside
it, whatever the number of digits.
-/

namespace ConfigScript.Report

/-! ## The lines of an excerpt -/

/-- The line number of an excerpt with the gutter behind it. -/
def gutter (r : Report) : List Char := (toString r.position.line ++ " | ").toList

/-- What stands in front of the caret. -/
def indent (r : Report) : List Char :=
  (blanks ((toString r.position.line).length + 1) ++ "| " ++ blanks (r.position.column - 1)).toList

/-- The lines of an excerpt. -/
def excerptLines (r : Report) (source filename : String) : List (List Char) :=
  [("error: " ++ r.message).toList,
    (blanks ((toString r.position.line).length + 1) ++ "--> " ++ filename ++ ":"
      ++ r.position.spelling).toList,
    (blanks ((toString r.position.line).length + 1) ++ "|").toList,
    r.gutter ++ (sourceLine source r.position.line).toList,
    r.indent ++ ['^']]

theorem excerpt_eq_intercalate (r : Report) (source filename : String) :
    (r.excerpt source filename).toList = ['\n'].intercalate (r.excerptLines source filename) := by
  have hnewline : "\n".toList = ['\n'] := by decide
  have hbar : "|\n".toList = "|".toList ++ ['\n'] := by decide
  have hcaret : "^".toList = ['^'] := by decide
  have hlines (k l m n o : List Char) : ['\n'].intercalate [k, l, m, n, o]
      = k ++ (['\n'] ++ (l ++ (['\n'] ++ (m ++ (['\n'] ++ (n ++ (['\n'] ++ o))))))) := by
    simp only [List.intercalate, List.intersperse_cons_cons, List.intersperse_singleton,
      List.flatten_cons, List.flatten_nil, List.append_nil]
  unfold excerpt
  simp only [excerptLines, gutter, indent, hlines, String.toList_append, hnewline, hbar, hcaret,
    List.append_assoc]

theorem newline_notMem_blanks (n : Int) : '\n' ∉ (blanks n).toList := by
  simp [blanks]

theorem newline_notMem_sourceLine (source : String) (n : Int) :
    '\n' ∉ (sourceLine source n).toList := by
  rw [sourceLine]
  split
  · simp
  · split
    · next l hl =>
      rw [String.toList_ofList]
      exact Text.newline_notMem_withoutEnd (List.mem_of_getElem? hl)
    · simp

/-- **An excerpt has five lines**, if message and name have one. -/
theorem splitOn_excerpt {r : Report} {filename : String} (hmessage : '\n' ∉ r.message.toList)
    (hname : '\n' ∉ filename.toList) (source : String) :
    (r.excerpt source filename).toList.splitOn '\n' = r.excerptLines source filename := by
  have hlines : ∀ l ∈ r.excerptLines source filename, '\n' ∉ l := by
    have hline := Text.newline_notMem_toString r.position.line
    have hcolumn := Text.newline_notMem_toString r.position.column
    have hsource := newline_notMem_sourceLine source r.position.line
    simp only [excerptLines, gutter, indent, Position.spelling, String.toList_append,
      List.mem_append, List.forall_mem_cons, not_or, hmessage, hname, hline, hcolumn, hsource,
      newline_notMem_blanks, not_false_eq_true, and_true, true_and]
    decide
  rw [excerpt_eq_intercalate, List.splitOn_intercalate '\n' hlines (List.cons_ne_nil _ _)]

theorem length_indent (r : Report) :
    r.indent.length = r.gutter.length + (r.position.column - 1).toNat := by
  have hbar : "| ".toList.length = 2 := by decide
  have hgutter : " | ".toList.length = 3 := by decide
  simp only [indent, gutter, blanks, String.toList_append, String.toList_ofList, List.length_append,
    List.length_replicate, String.length_toList, hbar, hgutter]
  omega

theorem caret_notMem_indent (r : Report) : '^' ∉ r.indent := by
  have hblanks (n : Int) : '^' ∉ (blanks n).toList := by simp [blanks]
  simp only [indent, String.toList_append, List.mem_append, not_or, hblanks, not_false_eq_true,
    and_true, true_and]
  decide

/-! ## The line that is shown -/

/-- **An excerpt shows a line**: its fourth line is the line behind a gutter with the number, and
the caret at the end of its last line stands below the character of the line at an offset. -/
structure Shows (r : Report) (source filename : String) (line : List Char) (offset : Nat) :
    Prop where
  fourth : ((r.excerpt source filename).toList.splitOn '\n')[3]?
    = some ((toString r.position.line ++ " | ").toList ++ line)
  caret : ∃ pad, ((r.excerpt source filename).toList.splitOn '\n').getLast? = some (pad ++ ['^']) ∧
    '^' ∉ pad ∧ pad.length = (toString r.position.line ++ " | ").toList.length + offset

/-- **An excerpt shows a line** exactly when the cut at all line ends has it under the number of the
report. -/
theorem shows_iff_sourceLine {r : Report} {filename : String} (hmessage : '\n' ∉ r.message.toList)
    (hname : '\n' ∉ filename.toList) (source : String) (line : List Char) :
    r.Shows source filename line (r.position.column - 1).toNat ↔
      (sourceLine source r.position.line).toList = line := by
  have hlines := splitOn_excerpt hmessage hname source
  constructor
  · intro h
    have hfourth := h.fourth
    rw [hlines] at hfourth
    exact List.append_cancel_left (Option.some.inj hfourth)
  · rintro rfl
    refine ⟨by rw [hlines]; rfl, r.indent, by rw [hlines]; rfl, r.caret_notMem_indent, ?_⟩
    exact r.length_indent

theorem sourceLine_eq_iff (source : String) (n : Nat) {line : List Char} (hne : line ≠ []) :
    (sourceLine source (n + 1)).toList = line ↔
      ∃ p, (Text.lines source.toList)[n]? = some p ∧ Text.withoutEnd p = line := by
  have hpos : ¬ (n : Int) + 1 < 1 := by omega
  have hindex : ((n : Int) + 1 - 1).toNat = n := by omega
  rw [sourceLine, if_neg hpos, hindex]
  cases hp : (Text.lines source.toList)[n]? with
  | none =>
    refine iff_of_false (fun h => hne h.symm) ?_
    rintro ⟨p, h, -⟩
    exact Option.some_ne_none p h.symm
  | some p =>
    rw [String.toList_ofList]
    constructor
    · rintro rfl
      exact ⟨p, rfl, rfl⟩
    · rintro ⟨q, hq, rfl⟩
      rw [Option.some.inj hq]

/-- **When the report on an open literal shows its line.**  The quote stands in a line of the cut at
newlines, and the excerpt shows this line, with the caret below the quote, if the lines before it
hold no other line ends, save carriage returns before their newlines, and the line itself none
before its last character; or if by chance a piece of the lines before it has its number and its
text. -/
theorem shows_iff_of_mem_tokenize (source filename : String) (hname : '\n' ∉ filename.toList)
    (t : Token) (ht : t ∈ tokenize source) (hkind : t.kind = .invalid) :
    ∃ r before line after, t.error = some r ∧ r.message = "unterminated string" ∧
      source.toList.splitOn '\n' = before ++ line :: after ∧
      t.start.line = before.length + 1 ∧
      (Text.withoutReturns line)[(t.start.column - 1).toNat]? = some '"' ∧
      (r.Shows source filename (Text.withoutReturns line) (t.start.column - 1).toNat ↔
        (∀ l ∈ before, Text.Whole l) ∧ Text.Unbroken (Text.withoutReturns line) ∨
          ∃ p, (Text.lines (closed before))[before.length]? = some p ∧
            Text.withoutEnd p = Text.withoutReturns line) := by
  have hinvalid : t ∈ invalidTokens (tokenize source) :=
    List.mem_filter.2 ⟨ht, beq_iff_eq.2 hkind⟩
  obtain ⟨a, cs, htext, rfl⟩ := exists_of_mem_invalidTokens hinvalid
  obtain ⟨before, start, rfl, hbefore, hstart, hposition⟩ := exists_closed_append a
  obtain ⟨rest, more, rfl, hrest, hmore⟩ := exists_line_append cs
  have hline : '\n' ∉ start ++ '"' :: rest := by
    rw [List.mem_append, List.mem_cons, not_or, not_or]
    exact ⟨hstart, by decide, hrest⟩
  have hsource : source.toList = closed before ++ (start ++ '"' :: rest ++ more) := by
    rw [htext, List.append_assoc, List.append_assoc, List.cons_append]
  have hshown := Text.withoutReturns_append_cons (c := '"') (by decide) start rest
  have hne : Text.withoutReturns (start ++ '"' :: rest) ≠ [] := by
    rw [hshown]
    exact List.append_ne_nil_of_right_ne_nil start (List.cons_ne_nil _ _)
  have hcolumn : ((start.length : Int) + 1 - 1).toNat = start.length := by omega
  have hmessage : '\n' ∉ "unterminated string".toList := by decide
  obtain ⟨after, hafter⟩ := exists_splitOn_eq_cons hline hmore
  rw [openToken, hposition]
  refine ⟨_, before, start ++ '"' :: rest, after, rfl, rfl, ?_, rfl, ?_, ?_⟩
  · rw [hsource, splitOn_closed_append hbefore, hafter]
  · rw [hshown, hcolumn, List.getElem?_append_right (Nat.le_refl _), Nat.sub_self]
    rfl
  · refine (shows_iff_sourceLine hmessage hname source _).trans ?_
    refine (sourceLine_eq_iff source before.length hne).trans ?_
    rw [hsource]
    exact Text.exists_getElem?_lines_iff hbefore hline (by simp) hmore

/-- The text of two lines that end in a carriage return and a newline, and in a carriage return: the
excerpt shows the second, in which a literal is left open. -/
theorem excerpt_shows_line :
    ∃ t ∈ tokenize (String.ofList ['a', '\r', '\n', ' ', '"', 'c', '\r']), ∃ r,
      t.error = some r ∧ r.Shows (String.ofList ['a', '\r', '\n', ' ', '"', 'c', '\r'])
        "app.conf" [' ', '"', 'c'] 1 := by
  have hopen : unclosed? (['a', '\r', '\n', ' '] ++ ['"', 'c', '\r']) = some ['"', 'c', '\r'] := by
    refine (unclosed?_word rfl (by decide)).trans ((unclosed?_space rfl).trans ?_)
    refine (unclosed?_space rfl).trans ((unclosed?_space rfl).trans ?_)
    exact unclosed?_open rfl
  have hmem := openToken_mem_tokenize hopen
  simp only [List.cons_append, List.nil_append] at hmem
  obtain ⟨r, before, line, after, herror, -, hsplit, hnumber, -, hshows⟩ :=
    shows_iff_of_mem_tokenize _ "app.conf" (by decide) _ hmem rfl
  have hcut : [['a', '\r'], [' ', '"', 'c', '\r']] = before ++ line :: after := by
    rw [← hsplit, String.toList_ofList]
    decide
  have hlength : before.length = 1 := by
    have htwo : (2 : Int) = before.length + 1 := hnumber
    omega
  obtain ⟨k, rfl⟩ := List.length_eq_one_iff.1 hlength
  obtain ⟨rfl, hrest⟩ := List.cons.inj hcut
  obtain ⟨rfl, -⟩ := List.cons.inj hrest
  have hwhole : ∀ l ∈ [['a', '\r']], Text.Whole l :=
    List.forall_mem_singleton.2 ⟨['a'], List.forall_mem_singleton.2 rfl, Or.inr rfl⟩
  have hunbroken : Text.Unbroken [' ', '"', 'c'] :=
    List.forall_mem_cons.2 ⟨rfl, List.forall_mem_singleton.2 rfl⟩
  exact ⟨_, hmem, r, herror, hshows.2 (Or.inl ⟨hwhole, hunbroken⟩)⟩

/-- The text of a word, a vertical tab and a word in the first line, and in the second a literal
that is left open: the excerpt shows what stands behind the tab. -/
theorem excerpt_shows_other_line :
    ∃ t ∈ tokenize (String.ofList ['a', '\x0b', 'b', '\n', '"', 'c']), t.kind = .invalid ∧
      t.start = ⟨2, 1⟩ ∧ ∀ r, t.error = some r →
        ¬ r.Shows (String.ofList ['a', '\x0b', 'b', '\n', '"', 'c']) "app.conf" ['"', 'c'] 0 ∧
        r.Shows (String.ofList ['a', '\x0b', 'b', '\n', '"', 'c']) "app.conf" ['b'] 0 := by
  have hopen : unclosed? (['a', '\x0b', 'b', '\n'] ++ ['"', 'c']) = some ['"', 'c'] := by
    refine (unclosed?_word rfl (by decide)).trans ((unclosed?_space rfl).trans ?_)
    refine (unclosed?_word rfl (by decide)).trans ((unclosed?_space rfl).trans ?_)
    exact unclosed?_open rfl
  have hmem := openToken_mem_tokenize hopen
  simp only [List.cons_append, List.nil_append] at hmem
  refine ⟨_, hmem, rfl, by decide, fun r hr => ?_⟩
  obtain rfl := Option.some.inj hr
  have hshows (line : List Char) :
      (unterminated (.after ['a', '\x0b', 'b', '\n'])).Shows
          (String.ofList ['a', '\x0b', 'b', '\n', '"', 'c']) "app.conf" line 0 ↔
        (sourceLine (String.ofList ['a', '\x0b', 'b', '\n', '"', 'c']) 2).toList = line :=
    shows_iff_sourceLine (by decide) (by decide) _ line
  have hsecond :
      (sourceLine (String.ofList ['a', '\x0b', 'b', '\n', '"', 'c']) 2).toList = ['b'] := by
    decide
  refine ⟨fun h => ?_, (hshows ['b']).2 hsecond⟩
  have hquote := (hshows ['"', 'c']).1 h
  exact absurd (hquote.symm.trans hsecond) (by decide)

end ConfigScript.Report
