import ConfigScript.Proofs.Source.Outlook
import ConfigScript.Source.Incoming

/-!
# Proofs/Source/Incoming — it does not matter in which pieces bytes arrive

Bytes that decode give the same text in whatever pieces they arrive (`run_of_decode`), and bytes
that do not decode meet a fault in any pieces: their first one, but counted from the bytes that were
decoded together with it (`exists_run_of_decode`).  What of a text is handed out before the fault is
`Feed.ofPieces_of_fault`.

A decoder that has taken a piece stands to the bytes to come as one that has taken nothing stands to
the bytes kept back and those to come.  For bytes this is `decode_append`, by which a part that
decodes may be decoded by itself, and for line ends it is `unifyNewlines_holdReturn`.
-/

namespace ConfigScript

/-! ## Results that are passed on -/

section Result

variable {ε ε' α β : Type} {x : Except ε α}

theorem map_eq_ok_iff {g : α → β} {y : β} : x.map g = .ok y ↔ ∃ a, x = .ok a ∧ g a = y := by
  cases x <;> simp [Except.map]

theorem map_eq_error_iff {g : α → β} {e : ε} : x.map g = .error e ↔ x = .error e := by
  cases x <;> simp [Except.map]

theorem mapError_eq_ok_iff {g : ε → ε'} {a : α} : x.mapError g = .ok a ↔ x = .ok a := by
  cases x <;> simp [Except.mapError]

end Result

/-! ## A part that decodes -/

namespace Utf8

variable {bs rest kept : List UInt8} {cs : List Char} {f : Fault} {offset k : Nat}
  {begun? : Option Begun}

/-- A fault counted from so many bytes further up. -/
def Fault.shift (k : Nat) (f : Fault) : Fault := { f with start := f.start + k }

/-- A sequence counted from so many bytes further up. -/
def Begun.shift (k : Nat) (s : Begun) : Begun := { s with start := s.start + k }

/-- A step counted from so many bytes further up. -/
def Step.shift (k : Nat) : Step → Step
  | more s => more (s.shift k)
  | char c => char c
  | fault f => fault (f.shift k)

/-- What a byte makes of a sequence that has begun, or of none. -/
def nextStep (offset : Nat) (begun? : Option Begun) (b : UInt8) : Step :=
  begun?.elim (beginAt offset b) (·.push b)

theorem decodeFrom_cons (b : UInt8) : decodeFrom offset begun? (b :: bs) =
    match nextStep offset begun? b with
    | .fault f => .error f
    | .more s => decodeFrom (offset + 1) (some s) bs
    | .char c => (decodeFrom (offset + 1) none bs).map (c :: ·) := by
  cases begun? <;> rfl

theorem settle_shift (s : Begun) : (s.shift k).settle = s.settle.shift k := by
  obtain ⟨start, lead, size, number, owed⟩ := s
  cases owed <;> rfl

/-- **A step does not depend on where bytes are counted from.** -/
theorem nextStep_shift (b : UInt8) :
    nextStep (offset + k) (begun?.map (·.shift k)) b = (nextStep offset begun? b).shift k := by
  cases begun? with
  | none =>
    simp only [nextStep, Option.map_none, Option.elim_none, beginAt]
    cases following? b with
    | none => rfl
    | some owed => exact settle_shift ⟨offset, b, 1, leadBits b, owed⟩
  | some s =>
    obtain ⟨start, lead, size, number, owed⟩ := s
    cases owed with
    | nil => rfl
    | cons range owed =>
      simp only [nextStep, Option.map_some, Option.elim_some, Begun.push, Begun.shift]
      split
      · exact settle_shift ⟨start, lead, size + 1, _, owed⟩
      · rfl

/-- **Decoding does not depend on where bytes are counted from**, but for the place of a fault. -/
theorem decodeFrom_shift : decodeFrom (offset + k) (begun?.map (·.shift k)) bs =
    (decodeFrom offset begun? bs).mapError (Fault.shift k) := by
  induction bs generalizing offset begun? with
  | nil => cases begun? <;> rfl
  | cons b bs ih =>
    rw [decodeFrom_cons, decodeFrom_cons, nextStep_shift, Nat.add_right_comm]
    cases nextStep offset begun? b with
    | fault f => rfl
    | more s => exact @ih (offset + 1) (some s)
    | char c =>
      have hrest := @ih (offset + 1) none
      simp only [Option.map_none] at hrest
      simp only [Step.shift, hrest]
      cases decodeFrom (offset + 1) none bs <;> rfl

theorem decodeFrom_append (h : decodeFrom offset begun? bs = .ok cs) :
    decodeFrom offset begun? (bs ++ rest) =
      (decodeFrom (offset + bs.length) none rest).map (cs ++ ·) := by
  induction bs generalizing offset begun? cs with
  | nil =>
    cases begun? with
    | some s => exact absurd h (by simp [decodeFrom])
    | none =>
      cases h
      rw [List.nil_append, List.length_nil, Nat.add_zero]
      cases decodeFrom offset none rest <;> rfl
  | cons b bs ih =>
    rw [List.cons_append, decodeFrom_cons, List.length_cons, Nat.add_comm bs.length,
      ← Nat.add_assoc]
    rw [decodeFrom_cons] at h
    cases hstep : nextStep offset begun? b with
    | fault f => exact absurd (hstep ▸ h) (by simp)
    | more s =>
      rw [hstep] at h
      exact ih h
    | char c =>
      simp only [hstep] at h
      obtain ⟨ds, hbs, rfl⟩ := map_eq_ok_iff.1 h
      simp only [ih hbs]
      cases decodeFrom (offset + 1 + bs.length) none rest <;> rfl

/-- **A part that decodes may be decoded by itself.** -/
theorem decode_append (h : decode bs = .ok cs) : decode (bs ++ rest) =
    ((decode rest).mapError (Fault.shift bs.length)).map (cs ++ ·) := by
  rw [decode, decodeFrom_append h, decode, ← decodeFrom_shift, Option.map_none]

/-! ## A part that does not decode -/

/-- **A fault stays**, unless it is that the bytes end. -/
theorem decodeFrom_append_of_error (h : decodeFrom offset begun? bs = .error f)
    (hf : f.reason ≠ .truncated) : decodeFrom offset begun? (bs ++ rest) = .error f := by
  induction bs generalizing offset begun? with
  | nil =>
    cases begun? with
    | none => exact absurd h (by simp [decodeFrom])
    | some s =>
      cases h
      exact absurd rfl hf
  | cons b bs ih =>
    rw [List.cons_append, decodeFrom_cons]
    rw [decodeFrom_cons] at h
    cases hstep : nextStep offset begun? b with
    | fault g =>
      rw [hstep] at h
      exact h
    | more s =>
      rw [hstep] at h
      exact ih h
    | char c =>
      simp only [hstep] at h
      simp only [ih (map_eq_error_iff.1 h)]
      rfl

/-- Where the sequence starts to which the next byte belongs. -/
def startOf (offset : Nat) (begun? : Option Begun) : Nat := begun?.elim offset Begun.start

theorem start_of_settle {s s' : Begun} (h : s.settle = .more s') : s'.start = s.start := by
  rw [Begun.settle] at h
  split at h
  · exact absurd h (by simp)
  · exact (Step.more.inj h) ▸ rfl

theorem settle_ne_fault (s : Begun) : s.settle ≠ .fault f := by
  rw [Begun.settle]
  split <;> simp

/-- A byte lengthens the sequence that it belongs to. -/
theorem start_of_more {b : UInt8} {s : Begun} (h : nextStep offset begun? b = .more s) :
    s.start = startOf offset begun? := by
  cases begun? with
  | none =>
    simp only [nextStep, Option.elim_none, beginAt] at h
    split at h
    · exact absurd h (by simp)
    · exact start_of_settle h
  | some s' =>
    simp only [nextStep, Option.elim_some, Begun.push] at h
    split at h
    · exact absurd h (by simp)
    · split at h
      · exact (start_of_settle h :)
      · exact absurd h (by simp)

/-- A byte that is a fault is one of the sequence that it belongs to. -/
theorem start_of_fault {b : UInt8} (h : nextStep offset begun? b = .fault f) :
    f.start = startOf offset begun? := by
  cases begun? with
  | none =>
    simp only [nextStep, Option.elim_none, beginAt] at h
    split at h
    · cases h
      rfl
    · exact absurd h (settle_ne_fault _)
  | some s =>
    simp only [nextStep, Option.elim_some, Begun.push] at h
    split at h
    · cases h
      rfl
    · split at h
      · exact absurd h (settle_ne_fault _)
      · cases h
        rfl

/-- A fault is in the sequence to which the next byte belongs, or the bytes before it decode. -/
theorem exists_decodeFrom_take (h : decodeFrom offset begun? bs = .error f) :
    f.start = startOf offset begun? ∨ offset < f.start ∧
      ∃ cs, decodeFrom offset begun? (bs.take (f.start - offset)) = .ok cs := by
  induction bs generalizing offset begun? with
  | nil =>
    cases begun? with
    | none => exact absurd h (by simp [decodeFrom])
    | some s =>
      cases h
      exact .inl rfl
  | cons b bs ih =>
    have htake (hlt : offset < f.start) :
        (b :: bs).take (f.start - offset) = b :: bs.take (f.start - (offset + 1)) := by
      rw [← List.take_succ_cons]
      exact congrArg (List.take · _) (by omega)
    rw [decodeFrom_cons] at h
    cases hstep : nextStep offset begun? b with
    | fault g =>
      rw [hstep] at h
      cases h
      exact .inl (start_of_fault hstep)
    | more s =>
      rw [hstep] at h
      rcases ih h with hstart | ⟨hlt, cs, hcs⟩
      · exact .inl (hstart.trans (start_of_more hstep))
      · refine .inr ⟨Nat.lt_of_succ_lt hlt, cs, ?_⟩
        rw [htake (Nat.lt_of_succ_lt hlt), decodeFrom_cons, hstep]
        exact hcs
    | char c =>
      simp only [hstep] at h
      have hbehind : offset < f.start ∧
          ∃ cs, decodeFrom (offset + 1) none (bs.take (f.start - (offset + 1))) = .ok cs := by
        rcases ih (map_eq_error_iff.1 h) with hstart | ⟨hlt, hcs⟩
        · rw [hstart, startOf, Option.elim_none, Nat.sub_self, List.take_zero]
          exact ⟨Nat.lt_succ_self offset, [], rfl⟩
        · exact ⟨Nat.lt_of_succ_lt hlt, hcs⟩
      obtain ⟨hlt, cs, hcs⟩ := hbehind
      refine .inr ⟨hlt, c :: cs, ?_⟩
      rw [htake hlt, decodeFrom_cons, hstep]
      simp only [hcs]
      rfl

/-- **The bytes before the first fault decode.** -/
theorem exists_decode_take (h : decode bs = .error f) :
    ∃ cs, decode (bs.take f.start) = .ok cs := by
  rcases exists_decodeFrom_take h with hstart | ⟨-, hcs⟩
  · exact ⟨[], by rw [hstart]; rfl⟩
  · exact hcs

/-! ## Parts -/

/-- A part is cut where its last whole sequence ends. -/
theorem exists_of_decodePart (h : decodePart bs = .ok (cs, kept)) :
    ∃ front, bs = front ++ kept ∧ decode front = .ok cs := by
  rw [decodePart] at h
  split at h
  · next hdecode =>
    cases h
    exact ⟨bs, (List.append_nil bs).symm, hdecode⟩
  · next g hdecode =>
    split at h
    · obtain ⟨ds, htake⟩ := exists_decode_take hdecode
      rw [htake] at h
      cases h
      exact ⟨_, (List.take_append_drop g.start bs).symm, htake⟩
    · exact absurd h (by simp)

/-- **A part behind which more comes** is decoded as far as it goes. -/
theorem decode_append_of_decodePart (h : decodePart bs = .ok (cs, kept)) : ∃ k, ∀ rest,
    decode (bs ++ rest) = ((decode (kept ++ rest)).mapError (Fault.shift k)).map (cs ++ ·) := by
  obtain ⟨front, rfl, hfront⟩ := exists_of_decodePart h
  exact ⟨front.length, fun rest => by rw [List.append_assoc, decode_append hfront]⟩

/-- **A fault of a part is one of the whole.** -/
theorem decode_append_of_decodePart_eq_error (h : decodePart bs = .error f) (rest : List UInt8) :
    decode (bs ++ rest) = .error f := by
  rw [decodePart] at h
  split at h
  · exact absurd h (by simp)
  · next g hdecode =>
    split at h
    · obtain ⟨ds, htake⟩ := exists_decode_take hdecode
      rw [htake] at h
      exact absurd h (by simp [Except.map])
    · next hkept =>
      cases h
      refine decodeFrom_append_of_error hdecode fun htruncated => hkept ?_
      rw [Fault.isKeptBack, htruncated]
      rfl

end Utf8

/-! ## Line ends -/

namespace Text

theorem unifyNewlines_return {cs : List Char} (h : cs.head? ≠ some '\n') :
    unifyNewlines ('\r' :: cs) = '\n' :: unifyNewlines cs := by
  cases cs with
  | nil => rfl
  | cons c cs =>
    rw [unifyNewlines]
    exact fun ds hds => h (congrArg List.head? hds)

/-- **A text may be cut anywhere but in the middle of a line end.** -/
theorem unifyNewlines_append {cs ds : List Char}
    (h : cs.getLast? = some '\r' → ds.head? ≠ some '\n') :
    unifyNewlines (cs ++ ds) = unifyNewlines cs ++ unifyNewlines ds := by
  have hlast (c : Char) {cs : List Char} (hcs : cs.getLast? = some '\r') :
      (c :: cs).getLast? = some '\r' := by
    rw [List.getLast?_cons, hcs, Option.getD_some]
  fun_induction unifyNewlines cs with
  | case1 => rfl
  | case2 cs ih =>
    rw [List.cons_append, List.cons_append, unifyNewlines, List.cons_append,
      ih fun hcs => h (hlast _ (hlast _ hcs))]
  | case3 cs hne ih =>
    have hhead : (cs ++ ds).head? ≠ some '\n' := by
      cases cs with
      | nil => exact h rfl
      | cons c cs =>
        rintro ⟨⟩
        exact hne cs rfl
    rw [List.cons_append, unifyNewlines_return hhead, List.cons_append,
      ih fun hcs => h (hlast _ hcs)]
  | case4 c cs hpair hreturn ih =>
    rw [List.cons_append, unifyNewlines, List.cons_append, ih fun hcs => h (hlast _ hcs)]
    · exact fun rest hc _ => hreturn hc
    · exact hreturn

end Text

namespace Source

/-- The carriage return that may have been kept back. -/
def returnIf (kept : Bool) : List Char := if kept then ['\r'] else []

/-- **What a carriage return makes of the characters behind it** is settled when they come. -/
theorem unifyNewlines_holdReturn {kept kept' : Bool} {cs ds : List Char}
    (h : holdReturn kept cs = (ds, kept')) (rest : List Char) :
    Text.unifyNewlines (returnIf kept ++ (cs ++ rest)) =
      ds ++ Text.unifyNewlines (returnIf kept' ++ rest) := by
  have hkept : (if kept = true then '\r' :: cs else cs) = returnIf kept ++ cs := by
    cases kept <;> rfl
  simp only [holdReturn, hkept] at h
  rw [← List.append_assoc]
  generalize returnIf kept ++ cs = cs at h ⊢
  split at h
  · next hlast =>
    cases h
    obtain ⟨front, rfl⟩ := List.getLast?_eq_some_iff.1 hlast
    rw [List.append_assoc, List.dropLast_concat]
    exact Text.unifyNewlines_append fun _ => by simp
  · next hlast =>
    cases h
    exact Text.unifyNewlines_append fun hr => absurd hr hlast

/-! ## Pieces -/

namespace Decoder

variable {d : Decoder} {pieces : List (List UInt8)} {cs : List Char} {g : Utf8.Fault}

/-- What is kept back at the end. -/
theorem finish_of_decode (h : Utf8.decode d.bytes = .ok cs) :
    d.finish = .ok (Text.unifyNewlines (returnIf d.keptReturn ++ cs)) := by
  rw [finish, h]
  cases d.keptReturn <;> rfl

/-- **A piece that is decoded**: behind it the decoder stands to the bytes to come as before it to
the piece and the bytes to come. -/
theorem exists_push_eq_ok {piece bytes : List UInt8}
    (h : Utf8.decodePart (d.bytes ++ piece) = .ok (cs, bytes)) :
    ∃ ds d', d.push piece = .ok (ds, d') ∧ d'.bytes = bytes ∧ ∀ rest,
      Text.unifyNewlines (returnIf d.keptReturn ++ (cs ++ rest))
        = ds ++ Text.unifyNewlines (returnIf d'.keptReturn ++ rest) := by
  rw [push, h]
  exact ⟨_, _, rfl, rfl, unifyNewlines_holdReturn rfl⟩

/-- **Bytes that decode** give one text in whatever pieces they arrive. -/
theorem run_of_decode (h : Utf8.decode (d.bytes ++ pieces.flatten) = .ok cs) :
    d.run pieces = (Text.unifyNewlines (returnIf d.keptReturn ++ cs), none) := by
  induction pieces generalizing d cs with
  | nil =>
    rw [List.flatten_nil, List.append_nil] at h
    rw [run, finish_of_decode h]
  | cons piece pieces ih =>
    rw [List.flatten_cons, ← List.append_assoc] at h
    rw [run]
    cases hpart : Utf8.decodePart (d.bytes ++ piece) with
    | error f =>
      rw [Utf8.decode_append_of_decodePart_eq_error hpart] at h
      exact absurd h (by simp)
    | ok part =>
      obtain ⟨xs, bytes⟩ := part
      obtain ⟨ds, d', hpush, rfl, hds⟩ := exists_push_eq_ok hpart
      obtain ⟨k, hrest⟩ := Utf8.decode_append_of_decodePart hpart
      rw [hrest] at h
      obtain ⟨ys, hys, rfl⟩ := map_eq_ok_iff.1 h
      rw [hpush, hds]
      simp only [ih (mapError_eq_ok_iff.1 hys)]

end Decoder

/-! ## Feeds -/

variable {pieces : List (List UInt8)} {cs : List Char} {g : Utf8.Fault}

/-- **Bytes that decode are a stream of their text**, with each line end a line feed. -/
theorem Feed.ofPieces_of_decode (chunk : Nat) (h : Utf8.decode pieces.flatten = .ok cs) :
    Feed.ofPieces chunk pieces = .stream (Text.unifyNewlines cs) := by
  have hrun : Decoder.run {} pieces = (Text.unifyNewlines cs, none) := Decoder.run_of_decode h
  rw [Feed.ofPieces, hrun]

end Source

end ConfigScript
