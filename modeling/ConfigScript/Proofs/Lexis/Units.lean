import ConfigScript.Lexeme
import ConfigScript.Literal

/-!
# Proofs/Lexis/Units — what blanks and literals are made of

A run of blanks is made of white space and line joins, the inside of a literal of characters and
backslash pairs.  `Blanks` and `Units` say so, and what each of them stands for;
`withoutJoins_of_blanks` and `unescape_of_units` say that this is what the lexer makes of them.
-/

namespace ConfigScript

/-- **A run of blanks and line joins**, and what is left of it without the joins. -/
inductive Blanks : List Char → List Char → Prop where
  | nil : Blanks [] []
  | space {c x v} : isSpace c = true → c ≠ '\n' → Blanks x v → Blanks (c :: x) (c :: v)
  | join {x v} : Blanks x v → Blanks ('\\' :: '\n' :: x) v

/-- What a character behind a backslash stands for. -/
inductive Escape : Char → Char → Prop where
  | newline : Escape 'n' '\n'
  | tab : Escape 't' '\t'
  | self {c} : c ≠ 'n' → c ≠ 't' → Escape c c

/-- **The units of a literal**, between its quotes, and the characters they stand for. -/
inductive Units : List Char → List Char → Prop where
  | nil : Units [] []
  | plain {c u v} : c ≠ '\\' → c ≠ '"' → Units u v → Units (c :: u) (c :: v)
  | pair {c d u v} : Escape c d → Units u v → Units ('\\' :: c :: u) (d :: v)

theorem ne_backslash_of_isSpace {c : Char} (hs : isSpace c = true) : c ≠ '\\' := by
  rintro rfl
  exact absurd hs (by decide)

/-- White space alone is a run of blanks that stands for itself. -/
theorem blanks_of_forall {v : List Char} (h : ∀ c ∈ v, isSpace c = true ∧ c ≠ '\n') :
    Blanks v v := by
  induction v with
  | nil => exact .nil
  | cons c v ih =>
    obtain ⟨⟨hs, hn⟩, hv⟩ := List.forall_mem_cons.1 h
    exact .space hs hn (ih hv)

/-- **Without its joins a run of blanks is white space** with no newline. -/
theorem forall_of_blanks {x v : List Char} (h : Blanks x v) :
    ∀ c ∈ v, isSpace c = true ∧ c ≠ '\n' := by
  induction h with
  | nil => exact List.forall_mem_nil _
  | space hs hn _ ih => exact List.forall_mem_cons.2 ⟨⟨hs, hn⟩, ih⟩
  | join _ ih => exact ih

theorem Blanks.concat {x v : List Char} {c : Char} (h : Blanks x v) (hs : isSpace c = true)
    (hn : c ≠ '\n') : Blanks (x ++ [c]) (v ++ [c]) := by
  induction h with
  | nil => exact .space hs hn .nil
  | space hs' hn' _ ih => exact .space hs' hn' ih
  | join _ ih => exact .join ih

/-- Runs of blanks behind each other make one run. -/
theorem Blanks.append {x v y w : List Char} (h : Blanks x v) (h' : Blanks y w) :
    Blanks (x ++ y) (v ++ w) := by
  induction h with
  | nil => exact h'
  | space hs hn _ ih => exact .space hs hn ih
  | join _ ih => exact .join ih

/-- **The value of a run of blanks** is the run without its joins. -/
theorem withoutJoins_of_blanks {x v : List Char} (h : Blanks x v) : Lexeme.withoutJoins x = v := by
  induction h with
  | nil => rfl
  | @space c x v hs hn _ ih =>
    rw [Lexeme.withoutJoins.eq_2 _ _ fun _ he => absurd he (ne_backslash_of_isSpace hs), ih]
  | join _ ih => rw [Lexeme.withoutJoins, ih]

/-- Every character stands for one behind a backslash. -/
theorem escape_escaped (c : Char) : Escape c (Literal.escaped c) := by
  by_cases hn : c = 'n'
  · subst hn
    exact .newline
  · by_cases ht : c = 't'
    · subst ht
      exact .tab
    · rw [Literal.escaped, if_neg hn, if_neg ht]
      exact .self hn ht

theorem escaped_of_escape {c d : Char} (h : Escape c d) : Literal.escaped c = d := by
  cases h with
  | newline => rfl
  | tab => rfl
  | self hn ht => rw [Literal.escaped, if_neg hn, if_neg ht]

/-- **The value of a literal** is what its units stand for. -/
theorem unescape_of_units {u v : List Char} (h : Units u v) : Literal.unescape false u = v := by
  induction h with
  | nil => rfl
  | plain hb _ _ ih => rw [Literal.unescape, if_neg Bool.false_ne_true, if_neg hb, ih]
  | pair he _ ih =>
    rw [Literal.unescape, if_neg Bool.false_ne_true, if_pos rfl, Literal.unescape, if_pos rfl,
      escaped_of_escape he, ih]

end ConfigScript
