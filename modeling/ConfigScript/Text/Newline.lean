/-!
# Text/Newline — one sign for the end of a line

Files mark the end of a line by a line feed, by a carriage return, or by both.  `unifyNewlines`
writes a line feed for each of the three; `unifyNewlines_idem` and `cr_notMem_unifyNewlines` say
that afterwards no carriage return is left and a second pass changes nothing.
-/

namespace ConfigScript.Text

/-- **Writes each line end as a line feed**; a carriage return with a line feed behind it is one. -/
def unifyNewlines : List Char → List Char
  | [] => []
  | '\r' :: '\n' :: cs => '\n' :: unifyNewlines cs
  | '\r' :: cs => '\n' :: unifyNewlines cs
  | c :: cs => c :: unifyNewlines cs

/-- No carriage return is left. -/
theorem cr_notMem_unifyNewlines (cs : List Char) : '\r' ∉ unifyNewlines cs := by
  fun_induction unifyNewlines cs <;> simp_all [eq_comm]

/-- A text without carriage returns stays as it is. -/
theorem unifyNewlines_of_notMem {cs : List Char} (h : '\r' ∉ cs) : unifyNewlines cs = cs := by
  fun_induction unifyNewlines cs <;> simp_all

/-- **A second pass changes nothing.** -/
theorem unifyNewlines_idem (cs : List Char) :
    unifyNewlines (unifyNewlines cs) = unifyNewlines cs :=
  unifyNewlines_of_notMem (cr_notMem_unifyNewlines cs)

/-- **Writes each carriage return with a line feed behind it as a line feed** and leaves all others.
-/
def unifyPairs : List Char → List Char
  | [] => []
  | '\r' :: '\n' :: cs => '\n' :: unifyPairs cs
  | c :: cs => c :: unifyPairs cs

/-- A text without carriage returns stays as it is. -/
theorem unifyPairs_of_notMem {cs : List Char} (h : '\r' ∉ cs) : unifyPairs cs = cs := by
  fun_induction unifyPairs cs <;> simp_all

end ConfigScript.Text
