import ConfigScript.Proofs.Cli.Completion
import ConfigScript.Proofs.Editor.Ranges
import ConfigScript.Proofs.Lexis.Grammar
import ConfigScript.Proofs.Text.Pairs
import Mathlib.Data.List.Forall2

/-!
# Proofs/Editor/Newlines — an editor and a run agree on what is faulty

An editor scans a document as it is; a run scans its text with each line end written as a newline.
`publish_agrees_with_run`, the main statement, says of a text in which carriage returns stand before
newlines only that both find the same faults at the same places, though not the same tokens.

The tokens of the two scans do not correspond: a backslash before a carriage return and a newline is
a word of the document, and in the text of the run it joins two lines.  But the literal that is left
open does (`unclosed?_unifyPairs`), by induction along the coarse reading of `unclosed?`, to which
white space is the same however it is cut into tokens.
-/

namespace ConfigScript

open Text Cli Grammar

/-! ## The literal that is left open -/

/-- **What closes a literal stays where it is**, also if a backslash stands before a pair. -/
theorem afterQuote?_unifyPairs (cs : List Char) :
    afterQuote? (unifyPairs cs) = (afterQuote? cs).map unifyPairs := by
  induction cs using Reach.literal_induction with
  | nil => rfl
  | dangling => rfl
  | pair c cs ih =>
    rw [unifyPairs_cons_of_ne (by decide), afterQuote?_pair]
    rcases pair_or_single c cs with ⟨ds, rfl, rfl⟩ | hc
    -- the backslash takes the carriage return, and the newline without it
    · rw [unifyPairs_cons_of_ne (by decide), afterQuote?_plain (by decide) (by decide)] at ih
      rw [unifyPairs_crlf, afterQuote?_pair, ih]
    · rw [unifyPairs_cons hc, afterQuote?_pair, ih]
  | quote cs =>
    rw [unifyPairs_cons_of_ne (by decide)]
    rfl
  | plain c cs hb hq ih =>
    rw [afterQuote?_plain hb hq]
    rcases pair_or_single c cs with ⟨ds, rfl, rfl⟩ | hc
    · rw [unifyPairs_crlf, ← ih, unifyPairs_cons_of_ne (by decide)]
    · rw [unifyPairs_cons hc, afterQuote?_plain hb hq, ih]

/-- **The literal that is left open is the same**, but for the carriage returns of pairs. -/
theorem unclosed?_unifyPairs (cs : List Char) :
    unclosed? (unifyPairs cs) = (unclosed? cs).map unifyPairs := by
  induction cs using reading_induction with
  | nil => rw [unifyPairs, unclosed?_nil, Option.map_none]
  | space c cs hs ih =>
    rw [unclosed?_space hs]
    rcases pair_or_single c cs with ⟨ds, rfl, rfl⟩ | hc
    · rw [unifyPairs_crlf, ← ih, unifyPairs_cons_of_ne (by decide)]
    · rw [unifyPairs_cons hc, unclosed?_space hs, ih]
  | line c cs hc ih =>
    have hr : c ≠ '\r' := by
      rintro rfl
      exact absurd hc (by decide)
    rw [unifyPairs_cons_of_ne hr, unclosed?_line hc, unclosed?_line hc,
      dropWhile_unifyPairs rfl, ih]
  -- also a backslash before a pair: no join is seen behind a word
  | word c cs hs hc ih =>
    have hr : c ≠ '\r' := by
      rintro rfl
      exact absurd hs (by decide)
    rw [unifyPairs_cons_of_ne hr, unclosed?_word hs hc, unclosed?_word hs hc,
      dropWhile_unifyPairs rfl, ih]
  | closed cs rest h ih =>
    have hrest : afterQuote? (unifyPairs cs) = some (unifyPairs rest) := by
      rw [afterQuote?_unifyPairs, h, Option.map_some]
    rw [unifyPairs_cons_of_ne (by decide), unclosed?_closed h, unclosed?_closed hrest, ih]
  | opened cs h =>
    have hopen : afterQuote? (unifyPairs cs) = none := by
      rw [afterQuote?_unifyPairs, h, Option.map_none]
    rw [unclosed?_open h, Option.map_some, unifyPairs_cons_of_ne (by decide), unclosed?_open hopen]

/-! ## Carriage returns in values -/

section Values

variable {x v : List Char}

theorem cr_mem_iff_of_blanks (h : Blanks x v) : '\r' ∈ x ↔ '\r' ∈ v := by
  induction h with
  | nil => exact Iff.rfl
  | space hs hn _ ih => rw [List.mem_cons, List.mem_cons, ih]
  | join _ ih => simpa using ih

theorem eq_cr_iff_of_escape {c d : Char} (h : Escape c d) : '\r' = c ↔ '\r' = d := by
  cases h with
  | newline => decide
  | tab => decide
  | self => exact Iff.rfl

theorem cr_mem_iff_of_units (h : Units x v) : '\r' ∈ x ↔ '\r' ∈ v := by
  induction h with
  | nil => exact Iff.rfl
  | plain _ _ _ ih => rw [List.mem_cons, List.mem_cons, ih]
  | @pair c d u v he _ ih =>
    have hb : '\r' ≠ '\\' := by decide
    rw [List.mem_cons, List.mem_cons, List.mem_cons, ih, eq_cr_iff_of_escape he,
      or_iff_right hb]

/-- **A carriage return of a lexeme shows in the value**: joins and escapes touch none. -/
theorem cr_mem_iff_of_lexes {text : List Char} {kind : Kind} (h : Lexes text kind x v) :
    '\r' ∈ x ↔ '\r' ∈ v := by
  cases h with
  | eof => exact Iff.rfl
  | terminator => exact Iff.rfl
  | whitespace hs hn hlongest hblanks => exact cr_mem_iff_of_blanks hblanks
  | comment => exact Iff.rfl
  | shellCommand => exact Iff.rfl
  | option hlongest =>
    cases x with
    | nil => exact Iff.rfl
    | cons c x =>
      obtain rfl : c = '-' := (List.cons_prefix_cons.1 hlongest.front).1
      exact List.mem_cons.trans (or_iff_right (by decide))
  | literal hunits =>
    rw [← cr_mem_iff_of_units hunits]
    simp
  | openLiteral => exact Iff.rfl
  | word => exact Iff.rfl

/-- **The tokens of a text show its carriage returns.** -/
theorem exists_cr_mem_value_iff (passed coming : List Char) :
    (∃ t ∈ tokensOf passed coming, '\r' ∈ t.value.toList) ↔ '\r' ∈ coming := by
  have hvalue (passed coming : List Char) :
      '\r' ∈ (tokenAt passed coming).value.toList ↔ '\r' ∈ lexemeAt coming := by
    have hlist : (tokenAt passed coming).value.toList = (frontOf coming).value :=
      String.toList_ofList
    rw [hlist]
    exact (cr_mem_iff_of_lexes (lexes_frontOf coming)).symm
  fun_induction tokensOf passed coming with
  | case1 passed => simp only [List.mem_singleton, exists_eq_left, hvalue, lexemeAt_nil]
  | case2 passed c cs ih =>
    simp only [List.mem_cons, exists_eq_or_imp, hvalue, ih]
    rw [← List.mem_append, lexemeAt_append_restAt, List.mem_cons]

/-- **The tokens of a paired text change with its line ends.** -/
theorem tokenize_eq_unifyPairs_iff {s : String} (h : Paired s.toList) :
    tokenize s = tokenize (String.ofList (unifyPairs s.toList)) ↔ '\r' ∉ s.toList := by
  constructor
  · intro htokens hr
    rw [tokenize_eq, tokenize_eq, String.toList_ofList] at htokens
    have hshown := (exists_cr_mem_value_iff [] s.toList).2 hr
    rw [htokens, exists_cr_mem_value_iff, ← unifyNewlines_of_paired h] at hshown
    exact cr_notMem_unifyNewlines s.toList hshown
  · intro hr
    rw [unifyPairs_of_notMem hr, String.ofList_toList]

end Values

/-! ## Diagnostics and invalid tokens -/

/-- **A diagnostic of a token**: its places with lines and columns counted from zero, and its
message. -/
structure Diagnostic.Marks (d : Diagnostic) (t : Token) : Prop where
  start_eq : d.start = ⟨t.start.line - 1, t.start.column - 1⟩
  stop_eq : d.stop = ⟨t.stop.line - 1, t.stop.column - 1⟩
  message_eq : t.error.map Report.message = some d.message

/-- **The diagnostics of a document are those of the invalid tokens** of its text without the
carriage returns of pairs. -/
theorem forall₂_marks_unifyPairs (s : String) : List.Forall₂ Diagnostic.Marks (diagnostics s)
    (invalidTokens (tokenize (String.ofList (unifyPairs s.toList)))) := by
  have hunified := unclosed?_unifyPairs s.toList
  rw [tokenize_eq, String.toList_ofList]
  cases hopen : unclosed? s.toList with
  | none =>
    rw [hopen, Option.map_none] at hunified
    rw [diagnostics_of_unclosed?_eq_none hopen, invalidTokens_of_unclosed?_eq_none hunified]
    exact .nil
  | some literal =>
    obtain ⟨a, cs, htext, rfl, -, hdiagnostics⟩ := exists_diagnostics_eq hopen
    rw [hopen, Option.map_some] at hunified
    obtain ⟨b, -, hsplit, -, hinvalid⟩ := exists_of_unclosed?_eq_some hunified []
    have hquote : ('"' :: cs).head? ≠ some '\n' := by simp
    obtain rfl : unifyPairs a = b := by
      rw [htext, unifyPairs_append hquote] at hsplit
      exact List.append_cancel_right hsplit
    rw [hdiagnostics, hinvalid, List.nil_append]
    refine .cons ⟨?_, ?_, rfl⟩ .nil
    · rw [openToken, Position.after_unifyPairs]
      rfl
    · rw [openToken, ← unifyPairs_append hquote, Position.after_unifyPairs (a ++ _)]
      rfl

theorem diagnostics_eq_nil_iff (s : String) : diagnostics s = [] ↔
    invalidTokens (tokenize (String.ofList (unifyPairs s.toList))) = [] := by
  have hmarks := forall₂_marks_unifyPairs s
  constructor
  · intro h
    rw [h] at hmarks
    exact List.forall₂_nil_left_iff.1 hmarks
  · intro h
    rw [h] at hmarks
    exact List.forall₂_nil_right_iff.1 hmarks

/-- **An editor and a run agree** on a text whose carriage returns stand before newlines.  The
diagnostics mark the invalid tokens that the run finds, which reads each line end as a newline; so
there is one exactly if the run ends with exit code 1.  All tokens are the same only if there are no
carriage returns. -/
theorem publish_agrees_with_run (s : String) (hpaired : Paired s.toList) (uri : String) :
    List.Forall₂ Diagnostic.Marks (publish uri s).diagnostics
        (invalidTokens (tokenize (String.ofList (unifyPairs s.toList)))) ∧
      (∀ host argv input tree a o pieces ts, Completes host argv input tree a o pieces ts →
        Utf8.decode pieces.flatten = .ok s.toList →
        ts = tokenize (String.ofList (unifyPairs s.toList)) ∧
          ∃ outcome, ((run host argv).inTree input tree).1 = .ok outcome ∧
            (outcome.exit = 1 ↔ (publish uri s).diagnostics ≠ [])) ∧
      (tokenize s = tokenize (String.ofList (unifyPairs s.toList)) ↔ '\r' ∉ s.toList) := by
  refine ⟨forall₂_marks_unifyPairs s, ?_, tokenize_eq_unifyPairs_iff hpaired⟩
  intro host argv input tree a o pieces ts hcompletes hdecode
  have hresult := result_walkInput hdecode
  rw [unifyNewlines_of_paired hpaired, hcompletes.scanned] at hresult
  obtain rfl := Except.ok.inj hresult
  obtain ⟨outcome, hrun, hexit⟩ := exists_outcome_of_completes hcompletes
  refine ⟨rfl, outcome, hrun, ?_⟩
  rw [publish, Ne, diagnostics_eq_nil_iff, hexit]
  split
  · next h => simp [h]
  · next h => simp [h]

/-- A literal that is left open before a carriage return and a newline, which arrive one by one on
the standard input, without settings. -/
theorem publish_agrees_with_run_crlf :
    ∃ outcome, ((run (.common fun _ => "") ["-"]).inTree [[0x22, 0x61, 0x0d], [0x0a]] {}).1
        = .ok outcome ∧
      outcome.exit = 1 ∧
      (publish "file:///a" (String.ofList ['"', 'a', '\r', '\n'])).diagnostics ≠ [] ∧
      tokenize (String.ofList ['"', 'a', '\r', '\n'])
        ≠ tokenize (String.ofList ['"', 'a', '\n']) := by
  have hlist : (String.ofList ['"', 'a', '\r', '\n']).toList = ['"', 'a', '\r', '\n'] :=
    String.toList_ofList
  have hpaired : Paired (String.ofList ['"', 'a', '\r', '\n']).toList := by
    rw [hlist]
    exact Paired.append (x := ['"', 'a']) (paired_of_notMem (by decide)) paired_crlf
  have hdecode : Utf8.decode [[0x22, 0x61, 0x0d], [0x0a]].flatten
      = .ok (String.ofList ['"', 'a', '\r', '\n']).toList := by
    rw [hlist]
    rfl
  have hdiagnostics :
      (publish "file:///a" (String.ofList ['"', 'a', '\r', '\n'])).diagnostics ≠ [] := by
    have hopen : unclosed? (String.ofList ['"', 'a', '\r', '\n']).toList
        = some ['"', 'a', '\r', '\n'] := by
      rw [hlist]
      exact unclosed?_open rfl
    obtain ⟨_, _, _, _, _, h⟩ := exists_diagnostics_eq hopen
    rw [publish, h]
    exact List.cons_ne_nil _ _
  have hcompletes : ∃ a o ts, Completes (.common fun _ => "") ["-"] [[0x22, 0x61, 0x0d], [0x0a]] {}
      a o [[0x22, 0x61, 0x0d], [0x0a]] ts :=
    ⟨_, _, _, by rfl, by rfl, by rfl, result_walkInput hdecode, _, by rfl⟩
  obtain ⟨a, o, ts, hcompletes⟩ := hcompletes
  obtain ⟨-, hagree, htokens⟩ := publish_agrees_with_run _ hpaired "file:///a"
  obtain ⟨-, outcome, hrun, hexit⟩ := hagree _ ["-"] _ {} a o _ ts hcompletes hdecode
  refine ⟨outcome, hrun, hexit.2 hdiagnostics, hdiagnostics, fun heq => ?_⟩
  rw [hlist] at htokens
  exact absurd (htokens.1 heq) (by decide)

end ConfigScript
