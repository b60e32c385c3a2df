import Mathlib

/-! C strings as byte lists. A `const char*` is the list of the bytes from it to the end of the
buffer: `*p` of the empty list is the terminator, and a `0` inside the list ends the string
there as it does in memory. `cstr p` is `string_view(p)`, the bytes in front of the first NUL.
Code that stops at the NUL cannot tell two pointers apart whose strings agree (`Agree`); this
is how a proof says that such code reads no byte past the terminator.

The decimal fields of such strings are read by a Horner loop into an unsigned integer of a
fixed width; `decimalWrap` reduces after every step as that loop does, and is the true value
reduced once (`decimalWrap_eq`). -/

namespace Archipelago.Lib

/-- `*p`. -/
def peek (p : List UInt8) : UInt8 := p.headD 0

/-- `string_view(p)`: the bytes in front of the first NUL. -/
def cstr (p : List UInt8) : List UInt8 := p.takeWhile (· != 0)

/-- The strings at `p` and at `q` are the same. -/
def Agree (p q : List UInt8) : Prop := cstr p = cstr q

@[simp] theorem peek_nil : peek [] = 0 := rfl

@[simp] theorem peek_cons (c : UInt8) (p : List UInt8) : peek (c :: p) = c := rfl

@[simp] theorem cstr_nil : cstr [] = [] := rfl

theorem cstr_cons (c : UInt8) (p : List UInt8) :
    cstr (c :: p) = if c = 0 then [] else c :: cstr p := by
  by_cases h : c = 0 <;> simp [cstr, h]

theorem cstr_eq_nil {p : List UInt8} (h : peek p = 0) : cstr p = [] := by
  cases p with
  | nil => rfl
  | cons c p =>
    rw [peek_cons] at h
    rw [cstr_cons, if_pos h]

theorem cstr_eq_cons {p : List UInt8} (h : peek p ≠ 0) : cstr p = peek p :: cstr p.tail := by
  cases p with
  | nil => exact absurd rfl h
  | cons c p =>
    rw [peek_cons] at h
    rw [cstr_cons, if_neg h, peek_cons, List.tail_cons]

theorem cstr_append {xs : List UInt8} (h : 0 ∉ xs) (p : List UInt8) :
    cstr (xs ++ p) = xs ++ cstr p :=
  List.takeWhile_append_of_pos fun a ha => by
    have : a ≠ 0 := fun e => h (e ▸ ha)
    simpa using this

theorem not_mem_cstr (p : List UInt8) : 0 ∉ cstr p := fun h => by
  simpa using List.mem_takeWhile_imp h

theorem cstr_cstr (p : List UInt8) : cstr (cstr p) = cstr p := by
  simpa using cstr_append (not_mem_cstr p) []

theorem length_cstr_le (p : List UInt8) : (cstr p).length ≤ p.length :=
  (List.takeWhile_prefix _).length_le

/-! ### Agreeing strings -/

theorem agree_cstr (p : List UInt8) : Agree p (cstr p) := (cstr_cstr p).symm

theorem Agree.symm {p q : List UInt8} (h : Agree p q) : Agree q p := Eq.symm h

/-- Two strings that agree both end here, or start with the same byte and agree after it. -/
theorem Agree.inv {p q : List UInt8} (h : Agree p q) :
    (peek p = 0 ∧ peek q = 0) ∨
      ∃ c p' q', c ≠ 0 ∧ p = c :: p' ∧ q = c :: q' ∧ Agree p' q' := by
  by_cases hp : peek p = 0 <;> by_cases hq : peek q = 0
  · exact .inl ⟨hp, hq⟩
  · have := (cstr_eq_nil hp).symm.trans (h.trans (cstr_eq_cons hq))
    exact absurd this.symm (List.cons_ne_nil _ _)
  · have := (cstr_eq_cons hp).symm.trans (h.trans (cstr_eq_nil hq))
    exact absurd this (List.cons_ne_nil _ _)
  · have e : peek p :: cstr p.tail = peek q :: cstr q.tail :=
      (cstr_eq_cons hp).symm.trans (h.trans (cstr_eq_cons hq))
    obtain ⟨hc, ht⟩ := List.cons.inj e
    cases p with
    | nil => exact absurd rfl hp
    | cons c p =>
      cases q with
      | nil => exact absurd rfl hq
      | cons d q =>
        simp only [peek_cons] at hc hp
        subst hc
        exact .inr ⟨c, p, q, hp, rfl, rfl, ht⟩

theorem Agree.peek_eq {p q : List UInt8} (h : Agree p q) : peek p = peek q := by
  rcases h.inv with ⟨hp, hq⟩ | ⟨c, p', q', -, rfl, rfl, -⟩
  · rw [hp, hq]
  · rfl

theorem Agree.tail {p q : List UInt8} (h : Agree p q) (hp : peek p ≠ 0) : Agree p.tail q.tail := by
  rcases h.inv with ⟨hp', -⟩ | ⟨c, p', q', -, rfl, rfl, h'⟩
  · exact absurd hp' hp
  · exact h'

/-- What stands in front of the NUL of one string stands in front of that of the other. -/
theorem Agree.append {xs q p' : List UInt8} (h : Agree (xs ++ q) p') (hx : 0 ∉ xs) :
    ∃ q', p' = xs ++ q' ∧ Agree q q' := by
  induction xs generalizing p' with
  | nil => exact ⟨p', rfl, h⟩
  | cons c xs ih =>
    have hc : c ≠ 0 := fun e => hx (e ▸ List.mem_cons_self)
    rcases h.inv with ⟨hp, -⟩ | ⟨d, r, q'', -, hr, rfl, h'⟩
    · exact absurd hp hc
    · obtain ⟨rfl, rfl⟩ := List.cons.inj hr
      obtain ⟨q', rfl, hq⟩ := ih h' (fun e => hx (List.mem_cons_of_mem c e))
      exact ⟨q', rfl, hq⟩

/-- A prefix no longer than the string is part of it. -/
theorem take_cstr {p : List UInt8} {n : Nat} (hn : n ≤ (cstr p).length) :
    p.take n = (cstr p).take n := by
  conv_lhs => rw [← List.takeWhile_append_dropWhile (p := (· != 0)) (l := p)]
  exact List.take_append_of_le_length hn

/-! ### Decimal fields -/

/-- `'0' <= c && c <= '9'`. -/
def isDigit (c : UInt8) : Bool := 48 ≤ c && c ≤ 57

/-- `c - '0'`. -/
def digitVal (c : UInt8) : Nat := c.toNat - 48

/-- The value of the digits `ds` read into the accumulator `v`. -/
def decimal (v : Nat) (ds : List UInt8) : Nat := ds.foldl (fun v c => v * 10 + digitVal c) v

/-- The same loop in an unsigned integer that holds `m` values. -/
def decimalWrap (m v : Nat) (ds : List UInt8) : Nat :=
  ds.foldl (fun v c => (v * 10 + digitVal c) % m) v

theorem ne_zero_of_isDigit {c : UInt8} (h : isDigit c = true) : c ≠ 0 := by
  rintro rfl
  exact absurd h (by decide)

/-- Reducing after every step is reducing once. -/
theorem decimalWrap_eq (m v : Nat) (ds : List UInt8) :
    decimalWrap m (v % m) ds = decimal v ds % m := by
  induction ds generalizing v with
  | nil => rfl
  | cons c ds ih =>
    have step : (v % m * 10 + digitVal c) % m = (v * 10 + digitVal c) % m :=
      ((Nat.mod_modEq v m).mul_right 10).add_right (digitVal c)
    show decimalWrap m ((v % m * 10 + digitVal c) % m) ds = decimal (v * 10 + digitVal c) ds % m
    rw [step, ih]

/-- After a run of digits the string goes on with something that is not a digit. -/
theorem isDigit_peek_dropWhile (p : List UInt8) : isDigit (peek (p.dropWhile isDigit)) = false := by
  induction p with
  | nil => rfl
  | cons c p ih =>
    by_cases h : isDigit c = true
    · rwa [List.dropWhile_cons_of_pos h]
    · rw [List.dropWhile_cons_of_neg h, peek_cons]
      simpa using h

/-! ### Joining strings -/

/-- Joining one more string puts the separator in front of it. -/
theorem intercalate_append_singleton {α : Type*} (sep : List α) {l : List (List α)} (hl : l ≠ [])
    (x : List α) : sep.intercalate (l ++ [x]) = sep.intercalate l ++ sep ++ x := by
  induction l with
  | nil => exact absurd rfl hl
  | cons a l ih =>
    cases l with
    | nil => simp
    | cons b l =>
      rw [List.cons_append, List.cons_append, List.intercalate_cons_cons, ← List.cons_append,
        ih (List.cons_ne_nil _ _), List.intercalate_cons_cons]
      simp

end Archipelago.Lib
