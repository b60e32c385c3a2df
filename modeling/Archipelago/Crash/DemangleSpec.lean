import Archipelago.Crash.Demangle
import Archipelago.Lib.Slots

/-! What the demangler accepts and what it writes.

`SymWriter.ofLog out log` is the writer after the bytes `log` were put into `out`; `put`,
`putView` and `finish` are computed on it (`ofLog_put`, `ofLog_putView`, `ofLog_finish`). The
grammar is `Ident`, `SourceName` and `Mangled`, whose values carry the conditions under which the
code reads them back, and `render` is the text promised for a name. `readSourceName_eq_some`
decodes one field in both directions; three lemmas invert one round of the loop, and the loop
lemmas decode the nested and the plain form from them. `demangle_eq_true_iff` is the whole: a
call returns true exactly on a mangled name of the grammar, followed by anything, whose rendering
fits, and then the span holds the rendering and a NUL.

The grammar is the code's, and goes beyond the Itanium one in two places: a length field counts
modulo `2^64`, so `_Z18446744073709551617a` is the one-byte name `a`, and the nested form may be
empty, so `_ZNE` is accepted as `()`. -/

namespace Archipelago.Crash

open Archipelago.Lib

/-! ### The writer -/

namespace SymWriter

/-- The writer after the bytes `log` were put into `out`: the first `out.size() - 1` of them
stored, the position behind them, and `ok` while all of them fit. -/
def ofLog (out log : List UInt8) : SymWriter :=
  ⟨log.take (out.length - 1) ++ out.drop (min log.length (out.length - 1)),
    min log.length (out.length - 1), decide (log.length < out.length)⟩

@[simp] theorem ofLog_ok (out log : List UInt8) :
    (ofLog out log).ok = decide (log.length < out.length) := rfl

theorem ofLog_of_lt {out log : List UInt8} (h : log.length < out.length) :
    ofLog out log = ⟨log ++ out.drop log.length, log.length, true⟩ := by
  have hk : min log.length (out.length - 1) = log.length := by omega
  simp only [ofLog, hk, List.take_of_length_le (Nat.le_sub_one_of_lt h), decide_eq_true h]

theorem ofLog_of_le {out log : List UInt8} (h : out.length ≤ log.length + 1) :
    ofLog out log = ⟨log.take (out.length - 1) ++ out.drop (out.length - 1), out.length - 1,
      decide (log.length < out.length)⟩ := by
  have hk : min log.length (out.length - 1) = out.length - 1 := by omega
  simp only [ofLog, hk]

theorem init_eq_ofLog {out : List UInt8} (h : 0 < out.length) : init out = ofLog out [] := by
  rw [@ofLog_of_lt out [] h]
  rfl

/-- `put` appends to the log. -/
theorem ofLog_put {out : List UInt8} (hout : 0 < out.length) (log : List UInt8) (c : UInt8) :
    (ofLog out log).put c = ofLog out (log ++ [c]) := by
  by_cases h : log.length + 1 < out.length
  · -- room for `c`: it is stored behind the log
    have hlen : (log ++ out.drop log.length).length = out.length := by simp; omega
    rw [ofLog_of_lt (by omega), put_of_lt (by rw [hlen]; exact h),
      ofLog_of_lt (by rw [List.length_append, List.length_singleton]; exact h)]
    simp only [set_append_drop (by omega : log.length < out.length), List.length_append,
      List.length_singleton, List.append_assoc, List.singleton_append]
  · -- the span is full, and only `ok` changes
    have hlen : (log.take (out.length - 1) ++ out.drop (out.length - 1)).length = out.length := by
      simp; omega
    have hfull : ¬(log ++ [c]).length < out.length := by
      rw [List.length_append, List.length_singleton]
      exact h
    rw [ofLog_of_le (by omega), put_of_le (by dsimp only; rw [hlen]; omega),
      ofLog_of_le (by rw [List.length_append, List.length_singleton]; omega),
      List.take_append_of_le_length (by omega), decide_eq_false hfull]

theorem ofLog_putView {out : List UInt8} (hout : 0 < out.length) (log s : List UInt8) :
    (ofLog out log).putView s = ofLog out (log ++ s) := by
  induction s generalizing log with
  | nil => rw [putView_nil, List.append_nil]
  | cons c s ih =>
    rw [putView_cons, ofLog_put hout, ih, List.append_assoc, List.singleton_append]

/-- `finish` ends the log with a NUL if it fit, and fails otherwise. -/
theorem ofLog_finish {out : List UInt8} (log : List UInt8) :
    (ofLog out log).finish =
      if log.length < out.length then
        (⟨log ++ 0 :: out.drop (log.length + 1), log.length, true⟩, true)
      else (ofLog out log, false) := by
  by_cases h : log.length < out.length
  · rw [if_pos h, ofLog_of_lt h, finish_of_ok rfl]
    simp only [set_append_drop h]
  · rw [if_neg h, finish_of_not_ok (by rw [ofLog_ok, decide_eq_false h])]

end SymWriter

open SymWriter

/-! ### The grammar -/

/-- An identifier that a length field can announce: bytes in front of the NUL, the first of
them not a digit (the digit loop would take it for part of the length). -/
structure Ident where
  bytes : List UInt8
  ne_nil : bytes ≠ []
  no_nul : 0 ∉ bytes
  head_not_digit : isDigit (peek bytes) = false

/-- A `<length><identifier>` field: a run of digits whose value, reduced modulo `2^64` as the
`size_t` holds it, counts the bytes of the identifier. -/
structure SourceName where
  digits : List UInt8
  ident : Ident
  digits_ne_nil : digits ≠ []
  all_digits : ∀ c ∈ digits, isDigit c = true
  counts : decimal 0 digits % 0x10000000000000000 = ident.bytes.length

def SourceName.bytes (f : SourceName) : List UInt8 := f.digits ++ f.ident.bytes

theorem SourceName.bytes_def (f : SourceName) : f.bytes = f.digits ++ f.ident.bytes := rfl

/-- The two forms `demangle` reads: `_ZN <fields> E` and `_Z <field>`. -/
inductive Mangled
  | nested (fields : List SourceName)
  | plain (field : SourceName)

def Mangled.bytes : Mangled → List UInt8
  | .nested fields => ascii "_ZN" ++ (fields.map SourceName.bytes).flatten ++ ascii "E"
  | .plain field => ascii "_Z" ++ field.bytes

/-- The identifiers of the components, outermost first. -/
def Mangled.idents : Mangled → List (List UInt8)
  | .nested fields => fields.map (·.ident.bytes)
  | .plain field => [field.ident.bytes]

/-- The components written so far: their displays joined by `::`. -/
def joined (idents : List (List UInt8)) : List UInt8 :=
  (ascii "::").intercalate (idents.map display)

/-- The text `demangle` promises for a name. -/
def render (idents : List (List UInt8)) : List UInt8 := joined idents ++ ascii "()"

theorem joined_singleton (name : List UInt8) : joined [name] = display name :=
  List.intercalate_singleton

theorem joined_append_singleton {done : List (List UInt8)} (h : done ≠ []) (name : List UInt8) :
    joined (done ++ [name]) = joined done ++ ascii "::" ++ display name := by
  rw [joined, List.map_append, List.map_singleton,
    intercalate_append_singleton _ (by simpa using h)]
  rfl

theorem SourceName.no_nul (f : SourceName) : 0 ∉ f.bytes := by
  rw [SourceName.bytes_def, List.mem_append, not_or]
  exact ⟨fun h => ne_zero_of_isDigit (f.all_digits 0 h) rfl, f.ident.no_nul⟩

theorem SourceName.two_le_length (f : SourceName) : 2 ≤ f.bytes.length := by
  have h₁ := List.length_pos_iff.mpr f.digits_ne_nil
  have h₂ := List.length_pos_iff.mpr f.ident.ne_nil
  rw [SourceName.bytes_def, List.length_append]
  omega

theorem SourceName.isDigit_peek (f : SourceName) (q : List UInt8) :
    isDigit (peek (f.bytes ++ q)) = true := by
  obtain ⟨c, ds, hc⟩ := List.exists_cons_of_ne_nil f.digits_ne_nil
  have := f.all_digits c (by rw [hc]; exact List.mem_cons_self)
  rwa [SourceName.bytes_def, hc, List.cons_append, List.cons_append, peek_cons]

theorem length_le_length_flatten (fields : List SourceName) :
    fields.length ≤ (fields.map SourceName.bytes).flatten.length := by
  induction fields with
  | nil => exact Nat.le_refl 0
  | cons f fields ih =>
    have := f.two_le_length
    rw [List.map_cons, List.flatten_cons, List.length_append, List.length_cons]
    omega

/-! ### One field -/

theorem readLength_eq (len : Nat) (p : List UInt8) :
    readLength len p =
      (decimalWrap 0x10000000000000000 len (p.takeWhile isDigit), p.dropWhile isDigit) := by
  induction p generalizing len with
  | nil => rfl
  | cons c p ih =>
    rw [readLength_cons]
    by_cases h : isDigit c = true
    · rw [if_pos h, ih, List.takeWhile_cons_of_pos h, List.dropWhile_cons_of_pos h]
      rfl
    · rw [if_neg h, List.takeWhile_cons_of_neg h, List.dropWhile_cons_of_neg h]
      rfl

/-- The scan finds no NUL exactly when the string is at least that long. -/
theorem nulWithin_eq_false_iff (p : List UInt8) (n : Nat) :
    nulWithin p n = false ↔ n ≤ (cstr p).length := by
  induction n generalizing p with
  | zero => simp [nulWithin_zero]
  | succ n ih =>
    rw [nulWithin_succ, Bool.or_eq_false_iff, ih]
    by_cases h : peek p = 0
    · simp [h, cstr_eq_nil h]
    · simp [h, cstr_eq_cons h]

theorem takeWhile_isDigit_of_not {p : List UInt8} (h : isDigit (peek p) = false) :
    p.takeWhile isDigit = [] ∧ p.dropWhile isDigit = p := by
  cases p with
  | nil => exact ⟨rfl, rfl⟩
  | cons c p =>
    rw [peek_cons] at h
    exact ⟨List.takeWhile_cons_of_neg (by simp [h]), List.dropWhile_cons_of_neg (by simp [h])⟩

/-- One field is read back as its identifier, whatever follows it. -/
theorem readSourceName_bytes (f : SourceName) (q : List UInt8) :
    readSourceName (f.bytes ++ q) = some (f.ident.bytes, q) := by
  have hrest := takeWhile_isDigit_of_not (p := f.ident.bytes ++ q)
    (by obtain ⟨c, cs, hc⟩ := List.exists_cons_of_ne_nil f.ident.ne_nil
        have := f.ident.head_not_digit
        rw [hc, peek_cons] at this
        rw [hc, List.cons_append, peek_cons, this])
  have hbytes : f.bytes ++ q = f.digits ++ (f.ident.bytes ++ q) := List.append_assoc _ _ _
  have htake : (f.bytes ++ q).takeWhile isDigit = f.digits := by
    rw [hbytes, List.takeWhile_append_of_pos f.all_digits, hrest.1, List.append_nil]
  have hdrop : (f.bytes ++ q).dropWhile isDigit = f.ident.bytes ++ q := by
    rw [hbytes, List.dropWhile_append_of_pos f.all_digits, hrest.2]
  have hlen : decimalWrap 0x10000000000000000 0 f.digits = f.ident.bytes.length := by
    rw [← f.counts, ← decimalWrap_eq]
  have hpos : f.ident.bytes.length ≠ 0 := List.length_pos_iff.mpr f.ident.ne_nil |>.ne'
  have hnul : nulWithin (f.ident.bytes ++ q) f.ident.bytes.length = false := by
    rw [nulWithin_eq_false_iff, cstr_append f.ident.no_nul, List.length_append]
    exact Nat.le_add_right _ _
  rw [readSourceName_eq, if_neg (by rw [f.isDigit_peek q]; decide), readLength_eq, htake, hdrop,
    hlen]
  simp only
  rw [if_neg hpos, if_neg (by rw [hnul]; decide), List.take_left, List.drop_left]

theorem peek_take {p : List UInt8} {n : Nat} (hn : 0 < n) : peek (p.take n) = peek p := by
  obtain ⟨k, rfl⟩ := Nat.exists_eq_add_of_lt hn
  cases p with
  | nil => rfl
  | cons c p => rfl

/-- `read_source_name` succeeds exactly on a field of the grammar. -/
theorem readSourceName_eq_some {p name q : List UInt8} :
    readSourceName p = some (name, q) ↔ ∃ f : SourceName, p = f.bytes ++ q ∧ name = f.ident.bytes := by
  constructor
  · intro h
    rw [readSourceName_eq] at h
    by_cases hd : isDigit (peek p) = true
    · rw [if_neg (by rw [hd]; decide), readLength_eq] at h
      simp only at h
      -- the digits, the rest and the length the loop computed from them
      obtain ⟨c, p', rfl⟩ : ∃ c p', p = c :: p' := by
        cases p with
        | nil => exact absurd hd (by decide)
        | cons c p' => exact ⟨c, p', rfl⟩
      rw [peek_cons] at hd
      have hv := decimalWrap_eq 0x10000000000000000 0 ((c :: p').takeWhile isDigit)
      rw [Nat.zero_mod] at hv
      rw [hv] at h
      by_cases h0 : decimal 0 ((c :: p').takeWhile isDigit) % 0x10000000000000000 = 0
      · rw [if_pos h0] at h
        cases h
      rw [if_neg h0] at h
      by_cases hn : nulWithin ((c :: p').dropWhile isDigit)
          (decimal 0 ((c :: p').takeWhile isDigit) % 0x10000000000000000) = true
      · rw [if_pos hn] at h
        cases h
      rw [if_neg hn] at h
      obtain ⟨rfl, rfl⟩ := Prod.mk.inj (Option.some.inj h)
      rw [Bool.not_eq_true, nulWithin_eq_false_iff] at hn
      set r := (c :: p').dropWhile isDigit
      set len := decimal 0 ((c :: p').takeWhile isDigit) % 0x10000000000000000
      have hlen : (r.take len).length = len :=
        List.length_take_of_le (hn.trans (length_cstr_le r))
      refine ⟨⟨(c :: p').takeWhile isDigit, ⟨r.take len, ?_, ?_, ?_⟩, ?_, ?_, ?_⟩, ?_, rfl⟩
      · exact fun e => h0 (by rw [← hlen, e]; rfl)
      · exact fun e => not_mem_cstr r (List.mem_of_mem_take (take_cstr hn ▸ e))
      · rw [peek_take (Nat.pos_of_ne_zero h0)]
        exact isDigit_peek_dropWhile _
      · rw [List.takeWhile_cons_of_pos hd]
        exact List.cons_ne_nil _ _
      · exact fun a ha => List.mem_takeWhile_imp ha
      · exact hlen.symm
      · rw [SourceName.bytes_def, List.append_assoc, List.take_append_drop,
          List.takeWhile_append_dropWhile]
    · rw [if_pos (by simpa using hd)] at h
      cases h
  · rintro ⟨f, rfl, rfl⟩
    exact readSourceName_bytes f q

/-- A field that is read leaves a shorter string behind. -/
theorem readSourceName_shrinks {p name q : List UInt8} (hr : readSourceName p = some (name, q)) :
    (cstr q).length + 2 ≤ (cstr p).length := by
  obtain ⟨f, rfl, -⟩ := readSourceName_eq_some.mp hr
  have := f.two_le_length
  rw [cstr_append f.no_nul, List.length_append]
  omega

/-- Strings that agree read the same field and leave agreeing strings behind. -/
theorem readSourceName_agree {p p' : List UInt8} (h : Agree p p') {name q : List UInt8}
    (hr : readSourceName p = some (name, q)) :
    ∃ q', readSourceName p' = some (name, q') ∧ Agree q q' := by
  obtain ⟨f, rfl, rfl⟩ := readSourceName_eq_some.mp hr
  obtain ⟨q', rfl, hq⟩ := h.append f.no_nul
  exact ⟨q', readSourceName_bytes f q', hq⟩

theorem readSourceName_agree_none {p p' : List UInt8} (h : Agree p p')
    (hr : readSourceName p = none) : readSourceName p' = none := by
  cases hr' : readSourceName p' with
  | none => rfl
  | some r =>
    obtain ⟨q, hq, -⟩ := readSourceName_agree h.symm hr'
    rw [hr] at hq
    cases hq

/-! ### One round of the loop -/

/-- The writer after a component: `::` unless it is the first, then its display. -/
def advance (first : Bool) (w : SymWriter) (name : List UInt8) : SymWriter :=
  (if !first then w.putView (ascii "::") else w).putView (display name)

/-- Whether a round breaks out of the loop before reading. -/
def breaks (nested first : Bool) (p : List UInt8) : Bool :=
  nested && peek p == 'E'.toUInt8 || !nested && !first

theorem breaks_def (nested first : Bool) (p : List UInt8) :
    breaks nested first p = (nested && peek p == 'E'.toUInt8 || !nested && !first) := rfl

theorem demangleLoop_break {nested first : Bool} {p : List UInt8} (h : breaks nested first p = true)
    (fuel : Nat) (w : SymWriter) : demangleLoop nested (fuel + 1) p first w = (w, true) := by
  rw [demangleLoop_succ]
  by_cases h₁ : (nested && peek p == 'E'.toUInt8) = true
  · rw [if_pos h₁]
  · rw [breaks_def, Bool.or_eq_true] at h
    rw [if_neg h₁, if_pos (h.resolve_left h₁)]

theorem demangleLoop_read {nested first : Bool} {p : List UInt8} (h : breaks nested first p = false)
    {name q : List UInt8} (hr : readSourceName p = some (name, q)) (fuel : Nat) (w : SymWriter) :
    demangleLoop nested (fuel + 1) p first w = demangleLoop nested fuel q false (advance first w name) := by
  rw [breaks_def, Bool.or_eq_false_iff] at h
  rw [demangleLoop_succ, if_neg (by rw [h.1]; decide), if_neg (by rw [h.2]; decide), hr]
  rfl

theorem demangleLoop_fail {nested first : Bool} {p : List UInt8} (h : breaks nested first p = false)
    (hr : readSourceName p = none) (fuel : Nat) (w : SymWriter) :
    demangleLoop nested (fuel + 1) p first w = (w, false) := by
  rw [breaks_def, Bool.or_eq_false_iff] at h
  rw [demangleLoop_succ, if_neg (by rw [h.1]; decide), if_neg (by rw [h.2]; decide), hr]

theorem breaks_agree (nested first : Bool) {p p' : List UInt8} (h : Agree p p') :
    breaks nested first p = breaks nested first p' := by
  rw [breaks_def, breaks_def, h.peek_eq]

/-- The loop depends on the string only, and on no more fuel than one round per byte of it:
it reads nothing past the NUL, and its fuel never runs out. -/
theorem demangleLoop_agree (nested : Bool) :
    ∀ (fuel fuel' : Nat) {p p' : List UInt8}, Agree p p' → (cstr p).length < fuel →
      (cstr p').length < fuel' → ∀ (first : Bool) (w : SymWriter),
      demangleLoop nested fuel p first w = demangleLoop nested fuel' p' first w := by
  intro fuel
  induction fuel with
  | zero => intro _ _ _ _ hf; exact absurd hf (Nat.not_lt_zero _)
  | succ fuel ih =>
    intro fuel' p p' h _ hf' first w
    obtain ⟨k, rfl⟩ : ∃ k, fuel' = k + 1 := ⟨fuel' - 1, by omega⟩
    cases hb : breaks nested first p
    · rw [breaks_agree nested first h] at hb
      cases hr : readSourceName p with
      | none =>
        rw [demangleLoop_fail (by rwa [breaks_agree nested first h]) hr,
          demangleLoop_fail hb (readSourceName_agree_none h hr)]
      | some r =>
        obtain ⟨name, q⟩ := r
        obtain ⟨q', hr', hq⟩ := readSourceName_agree h hr
        have hs := readSourceName_shrinks hr
        have hs' := readSourceName_shrinks hr'
        rw [demangleLoop_read (by rwa [breaks_agree nested first h]) hr, demangleLoop_read hb hr']
        exact ih k hq (by omega) (by omega) false _
    · rw [demangleLoop_break hb, demangleLoop_break (by rwa [← breaks_agree nested first h])]

/-! ### The two forms -/

variable {out : List UInt8}

/-- A component extends the joined text of those before it. -/
theorem advance_ofLog (hout : 0 < out.length) (done : List (List UInt8)) (name : List UInt8) :
    advance done.isEmpty (ofLog out (joined done)) name = ofLog out (joined (done ++ [name])) := by
  cases done with
  | nil =>
    rw [advance, List.isEmpty_nil, if_neg (by decide), ofLog_putView hout, List.nil_append,
      joined_singleton]
    rfl
  | cons a l =>
    rw [advance, List.isEmpty_cons, if_pos (show (!false) = true from rfl), ofLog_putView hout,
      ofLog_putView hout,
      joined_append_singleton (List.cons_ne_nil a l), List.append_assoc]

theorem breaks_nested {p : List UInt8} (h : peek p ≠ 'E'.toUInt8) (first : Bool) :
    breaks true first p = false := by
  simp [breaks_def, h]

theorem isEmpty_append_singleton (done : List (List UInt8)) (name : List UInt8) :
    (done ++ [name]).isEmpty = false := by
  simp

/-- A nested name: the loop reads fields up to the `E` and joins them. -/
theorem demangleLoop_nested (hout : 0 < out.length) (rest : List UInt8) :
    ∀ (fields : List SourceName) (fuel : Nat) (done : List (List UInt8)), fields.length < fuel →
      demangleLoop true fuel ((fields.map SourceName.bytes).flatten ++ 'E'.toUInt8 :: rest)
          done.isEmpty (ofLog out (joined done)) =
        (ofLog out (joined (done ++ fields.map (·.ident.bytes))), true) := by
  intro fields
  induction fields with
  | nil =>
    intro fuel done hf
    obtain ⟨k, rfl⟩ : ∃ k, fuel = k + 1 := ⟨fuel - 1, by rw [List.length_nil] at hf; omega⟩
    rw [demangleLoop_break rfl, List.map_nil, List.append_nil]
  | cons f fields ih =>
    intro fuel done hf
    obtain ⟨k, rfl⟩ : ∃ k, fuel = k + 1 := ⟨fuel - 1, by omega⟩
    have hb : breaks true done.isEmpty (f.bytes ++ ((fields.map SourceName.bytes).flatten ++
        'E'.toUInt8 :: rest)) = false := by
      have hd := f.isDigit_peek ((fields.map SourceName.bytes).flatten ++ 'E'.toUInt8 :: rest)
      refine breaks_nested (fun he => ?_) _
      rw [he] at hd
      exact absurd hd (by decide)
    rw [List.map_cons, List.flatten_cons, List.append_assoc,
      demangleLoop_read hb (readSourceName_bytes f _), advance_ofLog hout,
      ← isEmpty_append_singleton done f.ident.bytes,
      ih k _ (by rw [List.length_cons] at hf; omega), List.map_cons, List.append_assoc,
      List.singleton_append]

/-- A nested run that breaks has read fields up to an `E`. -/
theorem demangleLoop_nested_sound (hout : 0 < out.length) {w : SymWriter} :
    ∀ (fuel : Nat) (p : List UInt8) (done : List (List UInt8)),
      demangleLoop true fuel p done.isEmpty (ofLog out (joined done)) = (w, true) →
      ∃ (fields : List SourceName) (rest : List UInt8),
        p = (fields.map SourceName.bytes).flatten ++ 'E'.toUInt8 :: rest ∧
        w = ofLog out (joined (done ++ fields.map (·.ident.bytes))) := by
  intro fuel
  induction fuel with
  | zero =>
    intro p done h
    rw [demangleLoop_zero] at h
    cases h
  | succ fuel ih =>
    intro p done h
    by_cases hE : peek p = 'E'.toUInt8
    · -- the `E`: the loop breaks with the fields read so far
      rw [demangleLoop_break (by rw [breaks_def, hE]; rfl)] at h
      obtain ⟨rfl, -⟩ := Prod.mk.inj h
      refine ⟨[], p.tail, ?_, by rw [List.map_nil, List.append_nil]⟩
      cases p with
      | nil => exact absurd hE (by decide)
      | cons c p =>
        rw [peek_cons] at hE
        rw [hE]
        rfl
    · have hb := breaks_nested hE done.isEmpty
      cases hr : readSourceName p with
      | none =>
        rw [demangleLoop_fail hb hr] at h
        cases h
      | some r =>
        obtain ⟨name, q⟩ := r
        rw [demangleLoop_read hb hr, advance_ofLog hout,
          ← isEmpty_append_singleton done name] at h
        obtain ⟨f, rfl, rfl⟩ := readSourceName_eq_some.mp hr
        obtain ⟨fields, rest, rfl, rfl⟩ := ih q _ h
        refine ⟨f :: fields, rest, ?_, ?_⟩
        · rw [List.map_cons, List.flatten_cons, List.append_assoc]
        · rw [List.map_cons, List.append_assoc, List.singleton_append]

/-- A plain name: one field, then the loop breaks. -/
theorem demangleLoop_plain (hout : 0 < out.length) (fuel : Nat) (p : List UInt8) :
    demangleLoop false (fuel + 2) p true (ofLog out []) =
      match readSourceName p with
      | none => (ofLog out [], false)
      | some (name, _) => (ofLog out (joined [name]), true) := by
  cases hr : readSourceName p with
  | none => rw [demangleLoop_fail rfl hr]
  | some r =>
    obtain ⟨name, q⟩ := r
    have hw := advance_ofLog hout [] name
    rw [List.nil_append] at hw
    rw [demangleLoop_read rfl hr, demangleLoop_break rfl]
    exact congrArg (·, true) hw

/-! ### The call -/

/-- What a call on a name with the components `idents` gives: the rendering and a NUL if they
fit in the span, and otherwise `false` with the first `out.size() - 1` bytes of the rendering. -/
def outcome (out : List UInt8) (idents : List (List UInt8)) : Bool × List UInt8 :=
  if (render idents).length < out.length then
    (true, render idents ++ 0 :: out.drop ((render idents).length + 1))
  else (false, (render idents).take (out.length - 1) ++ out.drop (out.length - 1))

theorem outcome_def (out : List UInt8) (idents : List (List UInt8)) :
    outcome out idents =
      if (render idents).length < out.length then
        (true, render idents ++ 0 :: out.drop ((render idents).length + 1))
      else (false, (render idents).take (out.length - 1) ++ out.drop (out.length - 1)) := rfl

/-- The code of `demangle` behind the loop: `()`, then `finish()`. -/
def afterLoop : SymWriter × Bool → Bool × List UInt8
  | (w, false) => (false, w.out)
  | (w, true) =>
    let (w, ok) := (w.putView (ascii "()")).finish
    (ok, w.out)

theorem demangle_of_short {s out : List UInt8} (h : out.length < 4) :
    demangle (some s) out = (false, out) := by
  rw [demangle_some, if_pos h]

theorem demangle_of_not_Z {s out : List UInt8} (h : (ascii "_Z").isPrefixOf (cstr s) = false) :
    demangle (some s) out = (false, out) := by
  rw [demangle_some]
  by_cases h4 : out.length < 4
  · rw [if_pos h4]
  · rw [if_neg h4, if_pos (by rw [h]; rfl)]

/-- The name starts with `_Z`. -/
theorem isPrefixOf_cstr {s : List UInt8} :
    (ascii "_Z").isPrefixOf (cstr s) = true ↔ ∃ t, s = ascii "_Z" ++ t := by
  constructor
  · intro h
    obtain ⟨t, ht⟩ := List.isPrefixOf_iff_prefix.mp h
    obtain ⟨u, hu⟩ : cstr s <+: s := List.takeWhile_prefix _
    exact ⟨t ++ u, by rw [← hu, ← ht, List.append_assoc]⟩
  · rintro ⟨t, rfl⟩
    rw [cstr_append (by decide) t]
    exact List.isPrefixOf_iff_prefix.mpr (List.prefix_append _ _)

/-- Past the checks of its arguments, a call runs the loop on what follows `_Z`. -/
theorem demangle_Z {out : List UInt8} (hout : 4 ≤ out.length) (t : List UInt8) :
    demangle (some (ascii "_Z" ++ t)) out =
      afterLoop (demangleLoop (peek t == 'N'.toUInt8)
        ((if peek t == 'N'.toUInt8 then t.tail else t).length + 1)
        (if peek t == 'N'.toUInt8 then t.tail else t) true (ofLog out [])) := by
  rw [demangle_some, if_neg (by omega),
    if_neg (by rw [isPrefixOf_cstr.mpr ⟨t, rfl⟩]; decide), init_eq_ofLog (by omega)]
  rfl

/-- A loop that broke with the components `idents` ends the call with their outcome. -/
theorem afterLoop_ofLog {out : List UInt8} (hout : 0 < out.length) (idents : List (List UInt8)) :
    afterLoop (ofLog out (joined idents), true) = outcome out idents := by
  have hr : joined idents ++ ascii "()" = render idents := rfl
  show (let (w, ok) := ((ofLog out (joined idents)).putView (ascii "()")).finish
    (ok, w.out)) = outcome out idents
  rw [ofLog_putView hout, hr, ofLog_finish, outcome_def]
  by_cases h : (render idents).length < out.length
  · rw [if_pos h, if_pos h]
  · rw [if_neg h, if_neg h, ofLog_of_le (by omega)]

theorem Mangled.bytes_nested (fields : List SourceName) (rest : List UInt8) :
    (Mangled.nested fields).bytes ++ rest =
      ascii "_Z" ++ 'N'.toUInt8 :: ((fields.map SourceName.bytes).flatten ++ 'E'.toUInt8 :: rest) := by
  rw [Mangled.bytes]
  simp only [List.append_assoc]
  rfl

theorem Mangled.bytes_plain (f : SourceName) (rest : List UInt8) :
    (Mangled.plain f).bytes ++ rest = ascii "_Z" ++ (f.bytes ++ rest) :=
  List.append_assoc _ _ _

theorem SourceName.peek_ne_N (f : SourceName) (rest : List UInt8) :
    (peek (f.bytes ++ rest) == 'N'.toUInt8) = false := by
  have hd := f.isDigit_peek rest
  cases h : peek (f.bytes ++ rest) == 'N'.toUInt8
  · rfl
  · rw [beq_iff_eq] at h
    rw [h] at hd
    exact absurd hd (by decide)

/-- A call on a mangled name of the grammar, followed by anything, gives its outcome. -/
theorem demangle_of_mangled (m : Mangled) (rest : List UInt8) {out : List UInt8}
    (hout : 4 ≤ out.length) : demangle (some (m.bytes ++ rest)) out = outcome out m.idents := by
  have hout' : 0 < out.length := by omega
  cases m with
  | nested fields =>
    -- the `N` selects the nested loop, which reads every field and breaks at the `E`
    set body := (fields.map SourceName.bytes).flatten ++ 'E'.toUInt8 :: rest
    have hN : (peek ('N'.toUInt8 :: body) == 'N'.toUInt8) = true := by
      rw [peek_cons]
      exact beq_self_eq_true _
    have hlen := length_le_length_flatten fields
    have hloop : demangleLoop true (body.length + 1) body true (ofLog out []) =
        (ofLog out (joined (fields.map (·.ident.bytes))), true) :=
      demangleLoop_nested hout' rest fields (body.length + 1) []
        (by rw [List.length_append, List.length_cons]; omega)
    rw [Mangled.bytes_nested, demangle_Z hout, hN, if_pos rfl, List.tail_cons, hloop]
    exact afterLoop_ofLog hout' _
  | plain f =>
    -- a digit selects the plain loop, which reads one field
    have hlen := f.two_le_length
    obtain ⟨k, hk⟩ : ∃ k, (f.bytes ++ rest).length + 1 = k + 2 :=
      ⟨(f.bytes ++ rest).length - 1, by rw [List.length_append]; omega⟩
    rw [Mangled.bytes_plain, demangle_Z hout, f.peek_ne_N rest, if_neg (by decide), hk,
      demangleLoop_plain hout', readSourceName_bytes]
    exact afterLoop_ofLog hout' [f.ident.bytes]

/-- A call that returns true was given a mangled name of the grammar. -/
theorem demangle_accepts {s out out' : List UInt8} (h : demangle (some s) out = (true, out')) :
    4 ≤ out.length ∧ ∃ (m : Mangled) (rest : List UInt8), s = m.bytes ++ rest := by
  have h4 : 4 ≤ out.length := by
    by_cases h4 : out.length < 4
    · rw [demangle_of_short h4] at h
      cases h
    · omega
  refine ⟨h4, ?_⟩
  have hz : (ascii "_Z").isPrefixOf (cstr s) = true := by
    cases hz : (ascii "_Z").isPrefixOf (cstr s)
    · rw [demangle_of_not_Z hz] at h
      cases h
    · rfl
  obtain ⟨t, rfl⟩ := isPrefixOf_cstr.mp hz
  rw [demangle_Z h4] at h
  have hout : 0 < out.length := by omega
  by_cases hN : peek t = 'N'.toUInt8
  · -- the nested form: the loop broke at an `E`
    rw [hN, beq_self_eq_true, if_pos rfl] at h
    cases hl : demangleLoop true (t.tail.length + 1) t.tail true (ofLog out []) with
    | mk w b =>
      cases b with
      | false =>
        rw [hl] at h
        cases h
      | true =>
        obtain ⟨fields, rest, ht, -⟩ := demangleLoop_nested_sound hout _ t.tail [] hl
        refine ⟨.nested fields, rest, ?_⟩
        rw [Mangled.bytes_nested, ← ht]
        cases t with
        | nil => exact absurd hN (by decide)
        | cons c t =>
          rw [peek_cons] at hN
          rw [hN, List.tail_cons]
  · -- the plain form: the first round read a field
    have hb : (peek t == 'N'.toUInt8) = false := by simpa using hN
    rw [hb, if_neg (by decide)] at h
    cases hr : readSourceName t with
    | none =>
      rw [demangleLoop_fail rfl hr] at h
      cases h
    | some r =>
      obtain ⟨name, q⟩ := r
      obtain ⟨f, rfl, -⟩ := readSourceName_eq_some.mp hr
      exact ⟨.plain f, q, (Mangled.bytes_plain f q).symm⟩

/-- `demangle` returns true exactly on a mangled name of the grammar, followed by anything,
whose rendering and NUL fit in a span of at least four bytes; the span then starts with them. -/
theorem demangle_eq_true_iff {s out out' : List UInt8} :
    demangle (some s) out = (true, out') ↔
      4 ≤ out.length ∧ ∃ (m : Mangled) (rest : List UInt8), s = m.bytes ++ rest ∧
        (render m.idents).length < out.length ∧
        out' = render m.idents ++ 0 :: out.drop ((render m.idents).length + 1) := by
  constructor
  · intro h
    obtain ⟨hout, m, rest, rfl⟩ := demangle_accepts h
    rw [demangle_of_mangled m rest hout, outcome_def] at h
    by_cases hfit : (render m.idents).length < out.length
    · rw [if_pos hfit] at h
      exact ⟨hout, m, rest, rfl, hfit, (Prod.mk.inj h).2.symm⟩
    · rw [if_neg hfit] at h
      cases h
  · rintro ⟨hout, m, rest, rfl, hfit, rfl⟩
    rw [demangle_of_mangled m rest hout, outcome_def, if_pos hfit]

example : demangle (some (ascii "_Z18446744073709551617a")) (List.replicate 8 0) =
    (true, ascii "a()" ++ List.replicate 5 0) := rfl

example : demangle (some (ascii "_ZNE")) (List.replicate 4 0) = (true, ascii "()" ++ [0, 0]) := rfl

/-- A name whose rendering does not fit is reported false, and the span holds the first
`out.size() - 1` bytes of the rendering and no NUL behind them. -/
theorem demangle_overlong (m : Mangled) (rest : List UInt8) {out : List UInt8}
    (hout : 4 ≤ out.length) (hlong : out.length ≤ (render m.idents).length) :
    demangle (some (m.bytes ++ rest)) out =
      (false, (render m.idents).take (out.length - 1) ++ out.drop (out.length - 1)) := by
  rw [demangle_of_mangled m rest hout, outcome_def, if_neg (Nat.not_lt.mpr hlong)]

/-- The field `6kernel`. -/
def kernelField : SourceName :=
  ⟨ascii "6", ⟨ascii "kernel", by decide, by decide, by decide⟩, by decide, List.all_eq_true.mp rfl,
    by decide⟩

set_option maxRecDepth 4000 in
theorem kernel_overlong_in_four_bytes :
    4 ≤ (List.replicate 4 (0 : UInt8)).length ∧
      (List.replicate 4 (0 : UInt8)).length ≤ (render (Mangled.plain kernelField).idents).length ∧
      demangle (some ((Mangled.plain kernelField).bytes ++ [])) (List.replicate 4 0) =
        (false, (render (Mangled.plain kernelField).idents).take
          ((List.replicate 4 (0 : UInt8)).length - 1) ++
          (List.replicate 4 (0 : UInt8)).drop ((List.replicate 4 (0 : UInt8)).length - 1)) :=
  ⟨by decide, by decide, demangle_overlong _ _ (by decide) (by decide)⟩

/-- The call reads the name only up to its NUL: on the C string alone it returns the same and
leaves the same span. -/
theorem demangle_reads_to_nul (s out : List UInt8) :
    demangle (some (cstr s)) out = demangle (some s) out := by
  by_cases h4 : 4 ≤ out.length
  · by_cases hz : (ascii "_Z").isPrefixOf (cstr s) = true
    · obtain ⟨t, rfl⟩ := isPrefixOf_cstr.mp hz
      have hag : Agree (cstr t) t := (agree_cstr t).symm
      rw [cstr_append (by decide) t, demangle_Z h4, demangle_Z h4, hag.peek_eq]
      by_cases hN : peek t = 'N'.toUInt8
      · -- both run the nested loop on the strings after the `N`
        have htail : Agree (cstr t).tail t.tail := hag.tail (by rw [hag.peek_eq, hN]; decide)
        rw [hN, beq_self_eq_true, if_pos rfl, if_pos rfl,
          demangleLoop_agree true _ _ htail (Nat.lt_add_one_of_le (length_cstr_le _))
            (Nat.lt_add_one_of_le (length_cstr_le _)) true]
      · -- both run the plain loop on the whole string
        have hb : (peek t == 'N'.toUInt8) = false := by simpa using hN
        rw [hb, if_neg (by decide), if_neg (by decide),
          demangleLoop_agree false _ _ hag (Nat.lt_add_one_of_le (length_cstr_le _))
            (Nat.lt_add_one_of_le (length_cstr_le _)) true]
    · -- both fail the `_Z` test, which reads the same string
      rw [Bool.not_eq_true] at hz
      rw [demangle_of_not_Z (by rwa [cstr_cstr]), demangle_of_not_Z hz]
  · rw [demangle_of_short (by omega), demangle_of_short (by omega)]

end Archipelago.Crash
