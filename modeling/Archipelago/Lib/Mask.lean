import Mathlib.Data.BitVec

/-! Bit masks as sets of flags. Systems code writes "`a` grants nothing `b` lacks"
in two spellings, `(a & ~b) == 0` and `(b & a) == a`; `Submask a b` names the
notion once, with the lemmas that move between the spellings and the closure
facts (masking only removes flags, a union is below a bound iff both parts are).
Every proof goes bit by bit through `BitVec.eq_of_getLsbD_eq`. -/

namespace Archipelago.Lib

variable {w : Nat}

/-- Every flag of `a` is also a flag of `b`. -/
def Submask (a b : BitVec w) : Prop := a &&& ~~~b = 0

instance (a b : BitVec w) : Decidable (Submask a b) := inferInstanceAs (Decidable (_ = _))

namespace Submask

variable {a b c m : BitVec w}

theorem iff_getLsbD : Submask a b ↔ ∀ i < w, a.getLsbD i = true → b.getLsbD i = true := by
  constructor
  · intro h i hi ha
    have := congrArg (fun v : BitVec w => v.getLsbD i) h
    simp only [BitVec.getLsbD_and, BitVec.getLsbD_not, hi, decide_true, ha, Bool.true_and] at this
    simpa using this
  · intro h
    apply BitVec.eq_of_getLsbD_eq
    intro i hi
    simp only [BitVec.getLsbD_and, BitVec.getLsbD_not, hi, decide_true, Bool.true_and]
    cases ha : a.getLsbD i with
    | false => simp
    | true => simp [h i hi ha]

/-- The second spelling: `(b & a) == a`. -/
theorem iff_and_eq : Submask a b ↔ b &&& a = a := by
  rw [iff_getLsbD]
  constructor
  · intro h
    apply BitVec.eq_of_getLsbD_eq
    intro i hi
    simp only [BitVec.getLsbD_and]
    cases ha : a.getLsbD i with
    | false => simp
    | true => simp [h i hi ha]
  · intro h i hi ha
    have := congrArg (fun v : BitVec w => v.getLsbD i) h
    simp only [BitVec.getLsbD_and, ha, Bool.and_true] at this
    exact this

@[refl] theorem refl (a : BitVec w) : Submask a a := by simp [Submask]

theorem trans (hab : Submask a b) (hbc : Submask b c) : Submask a c := by
  rw [iff_getLsbD] at *
  exact fun i hi ha => hbc i hi (hab i hi ha)

/-- A submask is no larger as a number. -/
theorem toNat_le (h : Submask a b) : a.toNat ≤ b.toNat := by
  rw [← iff_and_eq.1 h, BitVec.toNat_and]
  exact Nat.and_le_left

/-- Masking only removes flags. -/
theorem and_left (a m : BitVec w) : Submask (a &&& m) a := by
  rw [iff_getLsbD]
  intro i _ h
  simp only [BitVec.getLsbD_and, Bool.and_eq_true] at h
  exact h.1

theorem and_not_left (a m : BitVec w) : Submask (a &&& ~~~m) a := and_left a (~~~m)

theorem or_iff : Submask (a ||| b) c ↔ Submask a c ∧ Submask b c := by
  simp only [iff_getLsbD, BitVec.getLsbD_or, Bool.or_eq_true]
  constructor
  · intro h
    exact ⟨fun i hi ha => h i hi (.inl ha), fun i hi hb => h i hi (.inr hb)⟩
  · rintro ⟨ha, hb⟩ i hi (h | h)
    · exact ha i hi h
    · exact hb i hi h

theorem zero (b : BitVec w) : Submask 0 b := by simp [Submask]

/-- A flag of a submask is a flag of the bound. -/
theorem and_flag (h : Submask a b) (hf : a &&& m ≠ 0) : b &&& m ≠ 0 := by
  intro hb
  apply hf
  apply BitVec.eq_of_getLsbD_eq
  intro i hi
  have hbi := congrArg (fun v : BitVec w => v.getLsbD i) hb
  simp only [BitVec.getLsbD_and] at hbi ⊢
  cases ha : a.getLsbD i with
  | false => simp
  | true => simpa [iff_getLsbD.1 h i hi ha] using hbi

/-- A flag the bound lacks is lacked by every submask. -/
theorem and_eq_zero (h : Submask a b) (hm : b &&& m = 0) : a &&& m = 0 := by
  by_contra ha
  exact and_flag h ha hm

theorem or_left (a b : BitVec w) : Submask a (a ||| b) := by
  rw [iff_getLsbD]
  intro i _ ha
  simp [ha]

theorem or_right (a b : BitVec w) : Submask b (a ||| b) := by
  rw [iff_getLsbD]
  intro i _ hb
  simp [hb]

/-- Truncating or widening both sides keeps a submask. -/
theorem setWidth {v : Nat} (h : Submask a b) : Submask (a.setWidth v) (b.setWidth v) := by
  rw [iff_getLsbD] at *
  intro i hi ha
  simp only [BitVec.getLsbD_setWidth, Bool.and_eq_true, decide_eq_true_eq] at ha ⊢
  exact ⟨ha.1, h i (BitVec.lt_of_getLsbD ha.2) ha.2⟩

/-- A single flag is carried exactly when masking with it leaves something. -/
theorem twoPow_iff {k : Nat} (hk : k < w) :
    Submask (BitVec.twoPow w k) a ↔ a &&& BitVec.twoPow w k ≠ 0 := by
  rw [iff_getLsbD, BitVec.and_twoPow]
  constructor
  · intro h
    have ha := h k hk (by simp [hk])
    rw [if_pos ha]
    intro h0
    have := congrArg (fun v : BitVec w => v.getLsbD k) h0
    simp [hk] at this
  · intro h i _ hb
    simp only [BitVec.getLsbD_twoPow, Bool.and_eq_true, decide_eq_true_eq] at hb
    obtain ⟨-, rfl⟩ := hb
    by_contra hc
    exact h (if_neg hc)

end Submask

/-! Setting and clearing flags, as `fetch_or(b)` and `fetch_and(~b)` do to a word of
signal bits: the flags set are there afterwards, the flags cleared are not, and flags
disjoint from them keep their value. -/

section Flags

variable {b c : BitVec w}

theorem or_and_self (s b : BitVec w) : (s ||| b) &&& b = b := by
  apply BitVec.eq_of_getLsbD_eq
  intro i _
  simp only [BitVec.getLsbD_and, BitVec.getLsbD_or]
  cases s.getLsbD i <;> cases b.getLsbD i <;> rfl

theorem and_not_and_self (s b : BitVec w) : (s &&& ~~~b) &&& b = 0 := by
  apply BitVec.eq_of_getLsbD_eq
  intro i hi
  simp only [BitVec.getLsbD_and, BitVec.getLsbD_not, hi, decide_true, Bool.true_and]
  cases s.getLsbD i <;> cases b.getLsbD i <;> simp

theorem or_and_of_disjoint (h : b &&& c = 0) (s : BitVec w) : (s ||| b) &&& c = s &&& c := by
  rw [BitVec.and_or_distrib_right, h]
  exact BitVec.or_zero

theorem and_not_and_of_disjoint (h : b &&& c = 0) (s : BitVec w) :
    (s &&& ~~~b) &&& c = s &&& c := by
  apply BitVec.eq_of_getLsbD_eq
  intro i hi
  have hbc := congrArg (fun v : BitVec w => v.getLsbD i) h
  simp only [BitVec.getLsbD_and] at hbc
  simp only [BitVec.getLsbD_and, BitVec.getLsbD_not, hi, decide_true, Bool.true_and]
  cases hb : b.getLsbD i
  · simp
  · rw [hb, Bool.true_and] at hbc
    simp [hbc]

end Flags

end Archipelago.Lib
