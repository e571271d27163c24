import ConfigScript.Text.Utf8
import ConfigScript.Toml.Document

/-!
# Proofs/Toml/OneLine — a settings file of one line

A file of one line makes what the statement on it makes (`document_of_line`).  The line here sets
the format of the output to a whole number in base sixteen, which is read whatever its length
(`parse_hexFormat`): only decimal numbers must not be too long.
-/

namespace ConfigScript

/-! ## Bytes -/

/-- The bytes of a text of ASCII characters. -/
def Utf8.asciiBytes (cs : List Char) : List UInt8 := cs.map fun c => UInt8.ofNat c.toNat

/-- A byte below 128 is a character by itself. -/
theorem Utf8.beginAt_of_lt {c : Char} (h : c.toNat < 0x80) (offset : Nat) :
    beginAt offset (UInt8.ofNat c.toNat) = .char c := by
  have hnat : (UInt8.ofNat c.toNat).toNat = c.toNat := by
    rw [UInt8.toNat_ofNat']
    exact Nat.mod_eq_of_lt (by omega)
  have hlt : UInt8.ofNat c.toNat < 0x80 := by
    rw [UInt8.lt_iff_toNat_lt, hnat]
    exact h
  rw [beginAt, following?, if_pos hlt]
  simp only [Begun.settle, List.isEmpty_nil, if_true, leadBits, if_pos hlt, hnat, Char.ofNat_toNat]

/-- **A text of ASCII characters has its bytes decoded.** -/
theorem Utf8.decode_asciiBytes {cs : List Char} (h : ∀ c ∈ cs, c.toNat < 0x80) :
    decode (asciiBytes cs) = .ok cs := by
  have hfrom (offset : Nat) : decodeFrom offset none (asciiBytes cs) = .ok cs := by
    induction cs generalizing offset with
    | nil => rfl
    | cons c cs ih =>
      obtain ⟨hc, hcs⟩ := List.forall_mem_cons.1 h
      have hstep : decodeFrom offset none (asciiBytes (c :: cs))
          = (decodeFrom (offset + 1) none (asciiBytes cs)).map (c :: ·) := by
        rw [asciiBytes, List.map_cons, decodeFrom]
        simp only [beginAt_of_lt hc]
        rfl
      rw [hstep, ih hcs]
      rfl
  exact hfrom 0

namespace Toml

variable {c : Char} {ds cs rest : List Char} {n : Nat}

/-! ## Rules one after the other -/

namespace Rule

variable {α β : Type} {x y : Rule α} {f : α → Rule β} {a : α} {e : Flaw}

theorem bind_eq_of_ok (h : x n cs = .ok (a, rest)) : (x >>= f) n cs = f a n rest := by
  simp only [bind, ReaderT.bind, StateT.bind, h, Except.bind]

theorem bind_eq_of_error (h : x n cs = .error e) : (x >>= f) n cs = .error e := by
  simp only [bind, ReaderT.bind, StateT.bind, h, Except.bind]

theorem map_eq_of_error {g : α → β} (h : x n cs = .error e) : (g <$> x) n cs = .error e := by
  have hdef : (g <$> x) n cs = (x >>= fun a => pure (g a)) n cs := rfl
  rw [hdef, bind_eq_of_error h]

theorem orElse_eq_of_malformed (h : x n cs = .error .malformed) : (x <|> y) n cs = y n cs := by
  have hdef : (x <|> y) n cs = (x n cs <|> y n cs) := rfl
  rw [hdef, h]
  rfl

theorem orElse_eq_of_ok (h : x n cs = .ok (a, rest)) : (x <|> y) n cs = .ok (a, rest) := by
  have hdef : (x <|> y) n cs = (x n cs <|> y n cs) := rfl
  rw [hdef, h]
  rfl

/-- A loop that ends after one step. -/
theorem iterate_eq_of_one {σ : Type} {more : Rule Bool} {step : σ → Rule σ} {s s' : σ}
    (hmore : more (n + 2) cs = .ok (true, cs)) (hstep : step s (n + 2) cs = .ok (s', rest))
    (hend : more (n + 2) rest = .ok (false, rest)) :
    iterate more step s (n + 2) cs = .ok (s', rest) := by
  have hread : (read : Rule Nat) (n + 2) cs = .ok (n + 2, cs) := rfl
  rw [iterate, bind_eq_of_ok hread, steps, bind_eq_of_ok hmore, if_pos rfl, bind_eq_of_ok hstep,
    steps, bind_eq_of_ok hend]
  rfl

end Rule

/-! ## Whole numbers in base sixteen -/

theorem moreDigits_of_forall {p : Char → Bool} (hp : p '_' = false) (h : ∀ c ∈ ds, p c = true) :
    moreDigits p ds = (ds, []) := by
  fun_induction moreDigits p ds with
  | case1 c cs hc ds rest hmore ih =>
    exact absurd (h '_' List.mem_cons_self) (by simp [hp])
  | case2 => exact absurd (h '_' List.mem_cons_self) (by simp [hp])
  | case3 c cs hne hc ds rest hmore ih =>
    have hrest := ih fun d hd => h d (List.mem_cons_of_mem c hd)
    rw [hmore] at hrest
    obtain ⟨rfl, rfl⟩ := Prod.mk.inj hrest
    rfl
  | case4 c cs hne hc => exact absurd (h c List.mem_cons_self) hc
  | case5 => rfl

/-- No day and no time has a letter for its second character. -/
theorem field_of_letter (width lo hi : Nat) :
    field (width + 2) lo hi n ('0' :: 'x' :: cs) = .error .malformed := by
  simp [field, Rule.ofReader]

/-- **A whole number in base sixteen is read, whatever its length.** -/
theorem scalar_hex (h : ∀ d ∈ c :: ds, (Text.hexValue? d).isSome = true) :
    scalar n ('0' :: 'x' :: c :: ds) = .ok (.integer (basedValue 16 (c :: ds)), []) := by
  obtain ⟨hc, hds⟩ := List.forall_mem_cons.1 h
  have hmoment : moment n ('0' :: 'x' :: c :: ds) = .error .malformed :=
    Rule.bind_eq_of_error (Rule.bind_eq_of_error (field_of_letter 2 0 9999))
  have hclock : (Value.clock <$> clock) n ('0' :: 'x' :: c :: ds) = .error .malformed :=
    Rule.map_eq_of_error (Rule.bind_eq_of_error (field_of_letter 0 0 23))
  have hdigits : digits (fun d => (Text.hexValue? d).isSome) n (c :: ds) = .ok (c :: ds, []) := by
    simp only [digits, Rule.ofReader, if_pos hc, moreDigits_of_forall (by decide) hds]
  have hbased : based n ('0' :: 'x' :: c :: ds) = .ok (.integer (basedValue 16 (c :: ds)), []) := by
    have hbase : (Rule.word ['0', 'x'] 16 <|> Rule.word ['0', 'o'] 8 <|> Rule.word ['0', 'b'] 2 :
        Rule Nat) n ('0' :: 'x' :: c :: ds) = .ok (16, c :: ds) := rfl
    rw [based, Rule.bind_eq_of_ok hbase]
    simp only [if_true]
    rw [Rule.bind_eq_of_ok hdigits]
    rfl
  rw [scalar, Rule.orElse_eq_of_malformed rfl, Rule.orElse_eq_of_malformed rfl,
    Rule.orElse_eq_of_malformed hmoment, Rule.orElse_eq_of_malformed hclock,
    Rule.orElse_eq_of_ok hbased]

/-! ## Files of one line -/

/-- **A setting of the format** to a whole number in base sixteen. -/
def hexFormat (ds : List Char) : List Char :=
  ['o', 'u', 't', 'p', 'u', 't', '.', 'f', 'o', 'r', 'm', 'a', 't', '=', '0', 'x'] ++ ds

theorem line_hexFormat (h : ∀ d ∈ c :: ds, (Text.hexValue? d).isSome = true) :
    line (n + 2) (hexFormat (c :: ds))
      = .ok (some (.assign ["output", "format"] (.integer (basedValue 16 (c :: ds)))), []) := by
  have hkey : key (n + 2) (hexFormat (c :: ds))
      = .ok (["output", "format"], '=' :: '0' :: 'x' :: c :: ds) := rfl
  have hvalue : value (n + 2) ('0' :: 'x' :: c :: ds)
      = .ok (.integer (basedValue 16 (c :: ds)), []) := scalar_hex h
  have hpair : pair value (n + 2) (hexFormat (c :: ds))
      = .ok ((["output", "format"], .integer (basedValue 16 (c :: ds))), []) := by
    have hexpect : Rule.expect ['='] (n + 2) ('=' :: '0' :: 'x' :: c :: ds)
        = .ok ((), '0' :: 'x' :: c :: ds) := rfl
    have hskip : Rule.skip isGap (n + 2) ('0' :: 'x' :: c :: ds)
        = .ok ((), '0' :: 'x' :: c :: ds) := rfl
    rw [pair, Rule.bind_eq_of_ok hkey, Rule.bind_eq_of_ok hexpect, Rule.bind_eq_of_ok hskip,
      Rule.bind_eq_of_ok hvalue]
    rfl
  have hskip : Rule.skip isGap (n + 2) (hexFormat (c :: ds)) = .ok ((), hexFormat (c :: ds)) := rfl
  have hget : (get : Rule (List Char)) (n + 2) (hexFormat (c :: ds))
      = .ok (hexFormat (c :: ds), hexFormat (c :: ds)) := rfl
  rw [line, Rule.bind_eq_of_ok hskip, Rule.bind_eq_of_ok hget]
  exact (Rule.bind_eq_of_ok hpair).trans rfl

/-- **A file of one line** is what the statement on it makes. -/
theorem document_of_line {st : Statement} {d : Draft} (hline : line (n + 2) (c :: cs)
    = .ok (some st, [])) (hstep : Draft.step {} st = some d) :
    document (n + 2) (c :: cs) = .ok (d.root, []) := by
  rw [document]
  refine (Rule.bind_eq_of_ok (Rule.iterate_eq_of_one rfl ?_ rfl)).trans rfl
  rw [Rule.bind_eq_of_ok hline]
  simp only [hstep]
  rfl

/-- **A setting of the format to a whole number in base sixteen is read**, whatever its length. -/
theorem parse_hexFormat (h : ∀ d ∈ c :: ds, (Text.hexValue? d).isSome = true) :
    parse (String.ofList (hexFormat (c :: ds)))
      = .ok [("output", .table [("format", .integer (basedValue 16 (c :: ds)))])] := by
  have hcr : '\r' ∉ hexFormat (c :: ds) := by
    intro hmem
    rcases List.mem_append.1 hmem with hmem | hmem
    · exact absurd hmem (by decide)
    · exact absurd (h _ hmem) (by decide)
  rw [parse, String.toList_ofList, Text.unifyPairs_of_notMem hcr, Rule.run]
  have hdocument : document (ds.length + 16 + 2) (hexFormat (c :: ds))
      = .ok ([("output", .table [("format", .integer (basedValue 16 (c :: ds)))])], []) := by
    exact document_of_line (line_hexFormat h) rfl
  exact congrArg (Except.map Prod.fst) hdocument

/-- Digits of base sixteen are ASCII characters. -/
theorem toNat_lt_of_hexValue? (h : (Text.hexValue? c).isSome = true) : c.toNat < 0x80 := by
  have hle (d : Char) (hd : d.toNat < 0x80) (hcd : c ≤ d) : c.toNat < 0x80 :=
    Nat.lt_of_le_of_lt (Char.le_def.1 hcd) hd
  rw [Text.hexValue?] at h
  split at h
  · next hc => exact hle '9' (by decide) hc.2
  · split at h
    · next hc => exact hle 'f' (by decide) hc.2
    · split at h
      · next hc => exact hle 'F' (by decide) hc.2
      · exact absurd h (by simp)

/-- **The line is decoded from its bytes.** -/
theorem decode_hexFormat (h : ∀ d ∈ ds, (Text.hexValue? d).isSome = true) :
    Utf8.decode (Utf8.asciiBytes (hexFormat ds)) = .ok (hexFormat ds) := by
  refine Utf8.decode_asciiBytes (List.forall_mem_append.2 ⟨by simp, fun d hd => ?_⟩)
  exact toNat_lt_of_hexValue? (h d hd)

/-- So many digits, each the highest, make a number one below a power of sixteen. -/
theorem basedValue_replicate (n : Nat) :
    basedValue 16 (List.replicate n 'f') + 1 = Nat.pow 16 n := by
  induction n with
  | zero => rfl
  | succ n ih =>
    have hstep : basedValue 16 (List.replicate (n + 1) 'f')
        = 16 * basedValue 16 (List.replicate n 'f') + 15 := by
      rw [List.replicate_succ', basedValue, List.foldl_append]
      rfl
    have hpow : Nat.pow 16 (n + 1) = Nat.pow 16 n * 16 := rfl
    rw [hstep, hpow, ← ih]
    omega

end Toml

end ConfigScript
