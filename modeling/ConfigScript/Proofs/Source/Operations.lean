import ConfigScript.Proofs.Source.Hearing
import Mathlib.Logic.Relation

/-!
# Proofs/Source/Operations — what the operations leave of a reader

An operation pulls one chunk at most, and then moves the cursor by one character at most.  Two
statements say what stays:

* `Leads.keeps` — behind any run of operations the text pulled before stands at the front of the
  text pulled now, and a sound reader is sound, whatever its feed delivers;
* `eq_requested_of_peek` — all that a fault changes is the feed and the record of requests.

The engine is `fills_fill`: the four ways in which pulling a chunk can end.
-/

namespace ConfigScript.Source.Reader

variable {α : Type} {r r' s : Reader} {e : Fault}

/-! ## Pulling a chunk -/

/-- **What pulling a chunk comes to**: nothing where the end is known, the end, text, or a fault. -/
inductive Fills (r : Reader) : EStateM.Result Fault Reader Unit → Prop
  | known : r.exhausted = true → Fills r (.ok () r)
  | over {feed : Feed} : r.exhausted = false → r.feed.request r.chunk = (.text [], feed) →
      Fills r (.ok () { r.requested feed with exhausted := true })
  | pulled {feed : Feed} {c : Char} {cs : List Char} : r.exhausted = false →
      r.feed.request r.chunk = (.text (c :: cs), feed) →
      Fills r (.ok () ((r.requested feed).append (c :: cs)))
  | failed {feed : Feed} {d : Delivery} {e : Fault} : r.exhausted = false →
      r.feed.request r.chunk = (d, feed) → d.fault? r.position = some e →
      Fills r (.error e (r.requested feed))

/-- **There is no other way for a chunk to be pulled.** -/
theorem fills_fill (r : Reader) : r.Fills (fill r) := by
  by_cases hex : r.exhausted = true
  · rw [fill_of_exhausted hex]
    exact .known hex
  rw [Bool.not_eq_true] at hex
  rcases hq : r.feed.request r.chunk with ⟨d, feed⟩
  rcases hd : d.fault? r.position with _ | e
  · match d, hd with
    | .text [], _ =>
      rw [fill_of_end hex hq]
      exact .over hex hq
    | .text (c :: cs), _ =>
      rw [fill_of_text hex hq]
      exact .pulled hex hq
  · rw [fill_of_fault hex hq hd]
    exact .failed hex hq hd

/-- **A fault changes nothing but the feed** and the record of requests. -/
theorem eq_requested_of_fill (h : fill r = .error e r') : ∃ feed, r' = r.requested feed := by
  have hfills := fills_fill r
  rw [h] at hfills
  rcases hfills with _ | _ | _ | _
  exact ⟨_, rfl⟩

theorem eq_requested_of_peek (h : peek r = .error e r') : ∃ feed, r' = r.requested feed := by
  rw [peek] at h
  split at h
  · exact absurd h (by simp)
  · split at h
    · exact absurd h (by simp)
    · next hfill =>
      obtain ⟨rfl, rfl⟩ := EStateM.Result.error.inj h
      exact eq_requested_of_fill hfill

/-- Reading stops where a look at the next character does, and as that does. -/
theorem read_eq_error_iff : read r = .error e r' ↔ peek r = .error e r' := by
  rw [read]
  rcases peek r with ⟨_ | c, s⟩ | ⟨f, s⟩ <;> simp

/-! ## The right to push back -/

/-- Behind the text there is nothing to push back. -/
theorem canUnread_of_read_none (h : read r = .ok none r') : r'.canUnread = false := by
  rw [read] at h
  split at h
  · exact absurd h (by simp)
  · obtain ⟨-, rfl⟩ := EStateM.Result.ok.inj h
    rfl
  · exact absurd h (by simp)

/-- What was pushed back is not pushed back once more. -/
theorem canUnread_of_unread (h : unread r = .ok () r') : r'.canUnread = false := by
  rw [unread] at h
  split at h
  · obtain ⟨-, rfl⟩ := EStateM.Result.ok.inj h
    rfl
  · exact absurd h (by simp)

/-! ## What stays -/

/-- The reader that a reading leaves, whether it succeeds or stops. -/
def leftBy : EStateM.Result Fault Reader α → Reader
  | .ok _ r | .error _ r => r

/-- **What stays of a reader in a later one**: if it was sound, so is the later one, and the text it
had pulled stands at the front of the text pulled now. -/
structure Keeps (r s : Reader) : Prop where
  sound : r.Sound → s.Sound
  isPrefix_text : r.text <+: s.text

theorem Keeps.refl (r : Reader) : r.Keeps r := ⟨id, List.prefix_rfl⟩

theorem keeps_fill (r : Reader) : r.Keeps (leftBy (fill r)) := by
  have h := fills_fill r
  generalize fill r = result at h ⊢
  rcases h with hex | ⟨hex, hq⟩ | ⟨hex, hq⟩ | ⟨hex, hq, hd⟩
  · exact .refl r
  · exact ⟨fun h => ⟨h.chunk_pos, h.cursor_le, h.lists, h.cursor_pos⟩, List.prefix_rfl⟩
  · refine ⟨fun h => (h.requested _).append _, ?_⟩
    rw [leftBy, text_append]
    exact List.prefix_append _ _
  · exact ⟨fun h => h.requested _, List.prefix_rfl⟩

theorem keeps_peek (r : Reader) : r.Keeps (leftBy (peek r)) := by
  rw [peek]
  split
  · exact .refl r
  · have h := keeps_fill r
    split <;> rename_i hfill <;> rw [hfill] at h <;> exact h

theorem keeps_read (r : Reader) : r.Keeps (leftBy (read r)) := by
  have h := keeps_peek r
  rw [read]
  rcases hpeek : peek r with ⟨_ | c, s⟩ | ⟨e, s⟩ <;> rw [hpeek] at h
  · refine ⟨fun hr => ?_, h.isPrefix_text⟩
    have hs := h.sound hr
    exact ⟨hs.chunk_pos, hs.cursor_le, hs.lists, fun hcan => absurd hcan Bool.false_ne_true⟩
  · refine ⟨fun hr => ?_, h.isPrefix_text⟩
    have hs := h.sound hr
    exact ⟨hs.chunk_pos, cursor_lt_of_peek hpeek, hs.lists, fun _ => Nat.succ_pos _⟩
  · exact h

theorem keeps_unread (r : Reader) : r.Keeps (leftBy (unread r)) := by
  rw [unread]
  split
  · refine ⟨fun hr => ⟨hr.chunk_pos, ?_, hr.lists, fun hcan => absurd hcan Bool.false_ne_true⟩,
      List.prefix_rfl⟩
    exact Nat.le_trans (Nat.sub_le _ _) hr.cursor_le
  · exact .refl r

/-- **What stays of a reader behind one operation.** -/
theorem keeps_perform (op : Op) (r : Reader) : r.Keeps (perform op r).2 := by
  rcases op with _ | _ | _ | _ | _
  · have h := keeps_read r
    rw [perform]
    split <;> rename_i hread <;> rw [hread] at h <;> exact h
  · have h := keeps_peek r
    rw [perform]
    split <;> rename_i hpeek <;> rw [hpeek] at h <;> exact h
  · have h := keeps_unread r
    rw [perform]
    split <;> rename_i hunread <;> rw [hunread] at h <;> exact h
  · exact .refl r
  · exact .refl r

/-! ## Runs of operations -/

/-- **A reader that operations lead to**, one after the other, any number of them. -/
def Leads : Reader → Reader → Prop := Relation.ReflTransGen fun r s => ∃ op, s = (perform op r).2

theorem Leads.refl (r : Reader) : r.Leads r := Relation.ReflTransGen.refl

theorem Leads.trans (h : r.Leads s) (h' : s.Leads r') : r.Leads r' :=
  Relation.ReflTransGen.trans h h'

theorem Leads.perform (h : r.Leads s) (op : Op) : r.Leads (perform op s).2 :=
  Relation.ReflTransGen.tail h ⟨op, rfl⟩

/-- **What stays of a reader behind any run of operations.** -/
theorem Leads.keeps (h : r.Leads s) : r.Keeps s := by
  induction h with
  | refl => exact .refl r
  | @tail s _ _ hstep ih =>
    obtain ⟨op, rfl⟩ := hstep
    have hlast := keeps_perform op s
    exact ⟨fun hr => hlast.sound (ih.sound hr), ih.isPrefix_text.trans hlast.isPrefix_text⟩

end ConfigScript.Source.Reader
