import ConfigScript.Text.Utf8

/-!
# Source/Feed — where the characters of a text come from

A feed answers each request for characters with a delivery: text, or something that went wrong.  A
text stream hands out at most as many characters as it is asked for; a script plays one delivery per
request, whatever the size asked for.  An empty text means the end.
-/

namespace ConfigScript.Source

/-- A failure of the system below a stream or a file, with the number of the failure if it has one.
-/
structure SystemFailure where
  code? : Option Int
  message : String
deriving DecidableEq

/-- The failure in a sentence, the number in front. -/
def SystemFailure.text (f : SystemFailure) : String :=
  match f.code? with
  | some n => "[Errno " ++ toString n ++ "] " ++ f.message
  | none => f.message

/-- What a stream can hand out in place of text. -/
inductive NonText where
  | bytes
  | null
  | boolean
  | integer
  | float
  | list
  | dictionary
deriving DecidableEq

/-- The name by which a message calls it. -/
def NonText.name : NonText → String
  | bytes => "bytes"
  | null => "NoneType"
  | boolean => "bool"
  | integer => "int"
  | float => "float"
  | list => "list"
  | dictionary => "dict"

/-- **The answer to one request for characters.** -/
inductive Delivery where
  /-- characters; none at all mean the end -/
  | text (cs : List Char)
  /-- bytes that do not decode -/
  | undecodable (fault : Utf8.Fault)
  /-- a failure of the system -/
  | failure (f : SystemFailure)
  /-- something that is not text -/
  | nonText (k : NonText)
  /-- an error that is none of a reader's business -/
  | foreign (message : String)

namespace Delivery

/-- The delivery of bytes that are decoded strictly. -/
def ofBytes (bs : List UInt8) : Delivery :=
  match Utf8.decode bs with
  | .ok cs => .text cs
  | .error f => .undecodable f

/-- One more than the characters delivered. -/
def weight : Delivery → Nat
  | .text cs => cs.length + 1
  | _ => 1

/-- The weights of deliveries, taken together. -/
def weights : List Delivery → Nat
  | [] => 0
  | d :: ds => d.weight + weights ds

end Delivery

/-- **Where characters come from**: a text stream, or a script of deliveries. -/
inductive Feed where
  | stream (left : List Char)
  | script (deliveries : List Delivery)

namespace Feed

/-- The feed that has nothing to deliver. -/
def empty : Feed := .script []

/-- **Answers a request** for `n` characters.  A feed that is used up answers with no text for
ever. -/
def request (n : Nat) : Feed → Delivery × Feed
  | .stream left => (.text (left.take n), .stream (left.drop n))
  | .script [] => (.text [], .script [])
  | .script (d :: ds) => (d, .script ds)

/-- **What is left in a feed**: its characters, and one for each scripted delivery. -/
def weight : Feed → Nat
  | .stream left => left.length
  | .script ds => Delivery.weights ds

/-- **A request uses the feed up** by at least the text it delivers. -/
theorem length_add_weight_request_le {n : Nat} {feed rest : Feed} {cs : List Char}
    (h : feed.request n = (.text cs, rest)) : cs.length + rest.weight ≤ feed.weight := by
  match feed, h with
  | .stream left, h =>
    simp only [request, Prod.mk.injEq, Delivery.text.injEq] at h
    obtain ⟨rfl, rfl⟩ := h
    simp only [weight, List.length_take, List.length_drop]; omega
  | .script [], h =>
    simp only [request, Prod.mk.injEq, Delivery.text.injEq] at h
    obtain ⟨rfl, rfl⟩ := h
    simp [weight]
  | .script (d :: ds), h =>
    simp only [request, Prod.mk.injEq] at h
    obtain ⟨rfl, rfl⟩ := h
    simp only [weight, Delivery.weights, Delivery.weight]; omega

/-- No request makes a feed longer. -/
theorem weight_request_le (n : Nat) (feed : Feed) : (feed.request n).2.weight ≤ feed.weight := by
  match feed with
  | .stream left => simp only [request, weight, List.length_drop]; omega
  | .script [] => simp [request, weight]
  | .script (d :: ds) => simp only [request, weight, Delivery.weights]; omega

end Feed

end ConfigScript.Source
