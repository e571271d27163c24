import ConfigScript.Source.Fault

/-!
# Literal — quoted words

A literal stands between double quotes.  A backslash takes the character behind it out of its usual
role: `n` stands for a newline, `t` for a tab, any other character for itself.
-/

namespace ConfigScript.Literal

/-- What a character behind a backslash stands for. -/
def escaped (c : Char) : Char :=
  if c = 'n' then '\n' else if c = 't' then '\t' else c

/-- **Decodes what stands between the quotes.**  `armed` says whether a backslash stands before it;
a backslash with nothing behind it stands for nothing. -/
def unescape (armed : Bool) : List Char → List Char
  | [] => []
  | c :: cs =>
    if armed then escaped c :: unescape false cs
    else if c = '\\' then unescape true cs
    else c :: unescape false cs

/-- **Decodes a literal**, quotes included; `none` unless it has a quote at each end. -/
def decode? (raw : List Char) : Option (List Char) :=
  match raw with
  | '"' :: rest => if rest.getLast? = some '"' then some (unescape false rest.dropLast) else none
  | _ => none

/-- Decodes a literal, or says that it is none. -/
def decode (raw : String) : Except Source.Fault String :=
  match decode? raw.toList with
  | some cs => .ok (String.ofList cs)
  | none => .error (.notALiteral raw)

/-- **Between two quotes everything decodes.** -/
theorem decode?_quoted (body : List Char) :
    decode? ('"' :: (body ++ ['"'])) = some (unescape false body) := by
  simp [decode?]

end ConfigScript.Literal
