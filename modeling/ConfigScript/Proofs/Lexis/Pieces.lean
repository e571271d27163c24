import ConfigScript.Proofs.Lexis.Scanning
import ConfigScript.Session

/-!
# Proofs/Lexis/Pieces — the pieces in which a text arrives do not show

Two readers are **alike** when they have passed the same text and have the same text to come, with
no fault behind it, however much of it each has pulled.  Alike readers deliver the same token and
are alike behind it (`scan_alike`, `walk_alike`); so sessions over them give the same answers to the
same operations (`perform_alike`, `performAll_alike`).  The main statement is
`performAll_of_supplied`: a session over a text given in any way answers like one over the text
itself.
-/

namespace ConfigScript

open Source (Reader Horizon)

/-- **Readers that cannot be told apart by reading**: where they stand differs in the pulled part of
the text at most. -/
def Source.Reader.Alike (r s : Reader) : Prop :=
  ∃ (passed coming : List Char) (y z : Horizon), r.StandsAt passed coming y ∧
    s.StandsAt passed coming z ∧ y.isOpen = true ∧ z.isOpen = true

variable {r s : Reader}

/-- **Alike readers deliver the same token** and are alike behind it. -/
theorem scan_alike (h : r.Alike s) :
    ∃ t r' s', scan r = .ok t r' ∧ scan s = .ok t s' ∧ r'.Alike s' := by
  obtain ⟨passed, coming, y, z, hr, hs, hy, hz⟩ := h
  obtain ⟨r', hscan, hr'⟩ := scan_of_standsAt hr (Or.inl hy)
  obtain ⟨s', hscan', hs'⟩ := scan_of_standsAt hs (Or.inl hz)
  exact ⟨tokenAt passed coming, r', s', hscan, hscan', _, _, _, _, hr', hs',
    by rwa [Horizon.isOpen_seen], by rwa [Horizon.isOpen_seen]⟩

/-- **Walks over alike readers** deliver the same tokens and end alike. -/
theorem walk_alike (h : r.Alike s) :
    (walk r).result = (walk s).result ∧ (walk r).reader.Alike (walk s).reader := by
  obtain ⟨passed, coming, y, z, hr, hs, hy, hz⟩ := h
  obtain ⟨htokens, hfault, hreader⟩ := walk_of_standsAt hr hy
  obtain ⟨htokens', hfault', hreader'⟩ := walk_of_standsAt hs hz
  refine ⟨?_, passed ++ coming, [], .known, .known, hreader, hreader', rfl, rfl⟩
  rw [Walk.result, Walk.result, hfault, hfault', htokens, htokens']

/-- An iterator delivers the same from alike readers. -/
theorem next_alike (h : r.Alike s) (it : Iter) :
    ∃ outcome it' r' s', it.next r = (outcome, it', r') ∧ it.next s = (outcome, it', s') ∧
      r'.Alike s' := by
  by_cases hit : it.finished = true
  · exact ⟨none, it, r, s, if_pos hit, if_pos hit, h⟩
  · obtain ⟨t, r', s', hscan, hscan', h'⟩ := scan_alike h
    refine ⟨some (.token t), ⟨t.isEof⟩, r', s', ?_, ?_, h'⟩
    · rw [Iter.next, if_neg hit, hscan]
    · rw [Iter.next, if_neg hit, hscan']

namespace Session

/-- **Alike sessions** have made the same iterators over alike readers. -/
structure Alike (s t : Session) : Prop where
  reader : s.reader.Alike t.reader
  iters : s.iters = t.iters

variable {s t : Session}

/-- **An operation is answered alike** by alike sessions, which stay alike; only the text pulled so
far may differ. -/
theorem perform_alike (h : s.Alike t) {op : Op} (hop : op ≠ .text) :
    (perform op s).1 = (perform op t).1 ∧ (perform op s).2.Alike (perform op t).2 := by
  obtain ⟨hreader, hiters⟩ := h
  obtain ⟨hwalk, hend⟩ := walk_alike hreader
  have hanswer : Answer.ofWalk (walk s.reader) = Answer.ofWalk (walk t.reader) := by
    rw [Answer.ofWalk, Answer.ofWalk, hwalk]
  cases op with
  | scan =>
    obtain ⟨token, r', s', hscan, hscan', h'⟩ := scan_alike hreader
    simp only [perform, hscan, hscan']
    exact ⟨trivial, h', hiters⟩
  | iter => exact ⟨rfl, hreader, congrArg (·.push {}) hiters⟩
  | next i =>
    cases hi : t.iters[i]? with
    | none =>
      simp only [perform, hiters, hi]
      exact ⟨trivial, hreader, hiters⟩
    | some it =>
      obtain ⟨outcome, it', r', s', hnext, hnext', h'⟩ := next_alike hreader it
      simp only [perform, hiters, hi, hnext, hnext']
      exact ⟨trivial, h', rfl⟩
  | all => exact ⟨hanswer, hend, hiters⟩
  | drain i =>
    cases hi : t.iters[i]? with
    | none =>
      simp only [perform, hiters, hi]
      exact ⟨trivial, hreader, hiters⟩
    | some it =>
      by_cases hit : it.finished = true
      · simp only [perform, hiters, hi, if_pos hit]
        exact ⟨trivial, hreader, hiters⟩
      · simp only [perform, hiters, hi, if_neg hit, hanswer]
        exact ⟨trivial, hend, rfl⟩
  | text => exact absurd rfl hop

/-- **Operations one after the other are answered alike** by alike sessions. -/
theorem performAll_alike (h : s.Alike t) {ops : List Op} (hops : .text ∉ ops) :
    (performAll ops s).1 = (performAll ops t).1 := by
  induction ops generalizing s t with
  | nil => rfl
  | cons op ops ih =>
    rw [List.mem_cons, not_or] at hops
    obtain ⟨hanswer, hnext⟩ := perform_alike h (Ne.symm hops.1)
    rw [performAll, performAll]
    simp only [hanswer, ih hnext hops.2]

/-- **The pieces in which a text arrives do not show.**  A session over a text that a stream hands
out, in pieces of any sizes and with requests of any size, gives the answers of a session over the
text that is there at once. -/
theorem performAll_of_supplied {text : List Char} {r : Reader} (h : Reader.Supplied text r)
    {ops : List Op} (hops : .text ∉ ops) :
    (performAll ops { reader := r }).1 = (performAll ops { reader := .ofText text }).1 := by
  obtain ⟨y, hr, hy⟩ := Reader.standsAt_of_supplied h
  have hreader : r.Alike (.ofText text) :=
    ⟨[], text, y, .known, hr, Reader.standsAt_ofText text, hy, rfl⟩
  have hsessions : Alike { reader := r } { reader := .ofText text } := ⟨hreader, rfl⟩
  exact performAll_alike hsessions hops

/-- Two iterators and a direct scan over an option whose dashes arrive in two pieces, larger than
the requests, and a literal that is never closed. -/
theorem performAll_of_supplied_two_iterators :
    (performAll [.iter, .next 0, .iter, .scan, .next 1, .drain 0, .next 1, .all]
        { reader := .ofFeed (.script [.text ['a', ' ', '-'], .text ['-', '\n', '"', 'b']]) 1 }).1
      = (performAll [.iter, .next 0, .iter, .scan, .next 1, .drain 0, .next 1, .all]
        { reader := .ofText ['a', ' ', '-', '-', '\n', '"', 'b'] }).1 := by
  have hpieces : ∀ p ∈ [['a', ' ', '-'], ['-', '\n', '"', 'b']], p ≠ [] := by decide
  exact performAll_of_supplied (.pieces (by decide) hpieces rfl) (by simp)

end Session

end ConfigScript
