import Mathlib

/-! Bitmaps kept in 64-bit words, as allocators keep their live bits: bit `i` is bit `i % 64`
of word `i / 64`. A bit is set with `|= 1 << k` and cleared with `&= ~(1 << k)`, the
complement taken in 64 bits; `ctz` finds the lowest set bit of a word, so `ctz (~w)` is its
lowest clear one. Counting the set bits among the first `n` is a `countP` over `range n`; the
lemmas say how that count moves when one bit flips, when it falls short of `n`, and that
clear bits past a bound add nothing. Masking with the complement of `2 ^ k - 1` rounds down
to a multiple of `2 ^ k`. -/

namespace Archipelago.Lib

theorem testBit_xor_ones {x i : Nat} (hi : i < 64) :
    (x ^^^ 0xFFFFFFFFFFFFFFFF).testBit i = !x.testBit i := by
  have h : (0xFFFFFFFFFFFFFFFF : Nat) = 2 ^ 64 - 1 := rfl
  rw [Nat.testBit_xor, h, Nat.testBit_two_pow_sub_one]
  simp [hi]

theorem testBit_or_shiftLeft {x k j : Nat} :
    (x ||| 1 <<< k).testBit j = (x.testBit j || decide (j = k)) := by
  rw [Nat.testBit_or, Nat.one_shiftLeft, Nat.testBit_two_pow]
  by_cases h : j = k
  · subst h; simp
  · simp [h, Ne.symm h]

theorem testBit_and_xor_shiftLeft {x k j : Nat} (hj : j < 64) :
    (x &&& (0xFFFFFFFFFFFFFFFF ^^^ 1 <<< k)).testBit j = (x.testBit j && !decide (j = k)) := by
  have h : (0xFFFFFFFFFFFFFFFF : Nat) = 2 ^ 64 - 1 := rfl
  rw [Nat.testBit_and, Nat.testBit_xor, h, Nat.testBit_two_pow_sub_one, Nat.one_shiftLeft, Nat.testBit_two_pow]
  by_cases h : j = k
  · subst h; simp [hj]
  · simp [h, Ne.symm h, hj]

theorem and_xor_ones_eq_sub_mod {x k : Nat} (hx : x < 2 ^ 64) (hk : k ≤ 64) :
    x &&& (0xFFFFFFFFFFFFFFFF ^^^ (2 ^ k - 1)) = x - x % 2 ^ k := by
  have h : (0xFFFFFFFFFFFFFFFF : Nat) = 2 ^ 64 - 1 := rfl
  have hsub : x - x % 2 ^ k = 2 ^ k * (x / 2 ^ k) := by
    have := Nat.div_add_mod x (2 ^ k)
    omega
  rw [hsub]
  apply Nat.eq_of_testBit_eq
  intro i
  rw [Nat.testBit_and, Nat.testBit_xor, h, Nat.testBit_two_pow_sub_one, Nat.testBit_two_pow_sub_one,
    Nat.testBit_two_pow_mul]
  by_cases hik : k ≤ i
  · by_cases hi : i < 64
    · have : x.testBit i = (x / 2 ^ k).testBit (i - k) := by
        rw [Nat.testBit_div_two_pow, Nat.sub_add_cancel hik]
      simp [hik, hi, this]
    · have : x.testBit i = false := Nat.testBit_lt_two_pow (lt_of_lt_of_le hx (Nat.pow_le_pow_right (by omega) (by omega)))
      rw [Nat.testBit_div_two_pow, Nat.sub_add_cancel hik]
      simp [hik, hi, this]
  · simp only [hik, decide_false, Bool.false_and, Bool.and_eq_false_imp]
    intro _
    simp [show i < 64 by omega, show i < k by omega]

/-- A nonzero number that shares no bit with its predecessor is a power of two. -/
theorem eq_two_pow_of_and_pred {x : Nat} (h0 : x ≠ 0) (h : x &&& (x - 1) = 0) :
    x = 2 ^ x.log2 := by
  have hle := Nat.log2_self_le h0
  by_contra hne
  have hlt : x - 1 < 2 ^ (x.log2 + 1) := by
    have := Nat.lt_log2_self (n := x)
    omega
  -- past its top bit, `x - 1` still has that bit
  have hbit : (x - 1).testBit x.log2 = true :=
    Nat.testBit_of_two_pow_le_and_two_pow_add_one_gt (by omega) hlt
  have := congrArg (Nat.testBit · x.log2) h
  simp only [Nat.testBit_and, Nat.testBit_log2 h0, hbit, Nat.zero_testBit] at this
  exact absurd this (by decide)

/-- The trailing zeros of `x` among its low `n` bits. -/
def trailingZeros : Nat → Nat → Nat
  | _, 0 => 0
  | x, n + 1 => if x % 2 = 1 then 0 else trailingZeros (x / 2) n + 1

/-- `__builtin_ctzll`. -/
def ctz (x : Nat) : Nat := trailingZeros x 64

theorem trailingZeros_spec : ∀ (n x : Nat), x ≠ 0 → x < 2 ^ n →
    trailingZeros x n < n ∧ x.testBit (trailingZeros x n) = true ∧
      ∀ j < trailingZeros x n, x.testBit j = false
  | 0, x, hx, hlt => by simp at hlt; exact absurd hlt hx
  | n + 1, x, hx, hlt => by
    by_cases hodd : x % 2 = 1
    · simp [trailingZeros, hodd, Nat.testBit_zero]
    · have hhalf : x / 2 ≠ 0 := by omega
      have hlt' : x / 2 < 2 ^ n := by rw [Nat.pow_succ] at hlt; omega
      obtain ⟨hbound, hset, hclear⟩ := trailingZeros_spec n (x / 2) hhalf hlt'
      simp only [trailingZeros, hodd, if_false]
      refine ⟨by omega, by rwa [Nat.testBit_succ], ?_⟩
      intro j hj
      cases j with
      | zero => simp [Nat.testBit_zero]; omega
      | succ j => rw [Nat.testBit_succ]; exact hclear j (by omega)

theorem ctz_spec {x : Nat} (hx : x ≠ 0) (hlt : x < 2 ^ 64) :
    ctz x < 64 ∧ x.testBit (ctz x) = true ∧ ∀ j < ctz x, x.testBit j = false :=
  trailingZeros_spec 64 x hx hlt


theorem countP_range_congr {f g : Nat → Bool} {n : Nat} (h : ∀ i < n, f i = g i) :
    (List.range n).countP f = (List.range n).countP g :=
  List.countP_congr fun i hi => by rw [h i (List.mem_range.1 hi)]

/-- Turning one bit of the first `n` from clear to set, and no other, adds one to their count. -/
theorem countP_range_flip {f g : Nat → Bool} {i : Nat} (hf : f i = false) (hg : g i = true) :
    ∀ {n}, i < n → (∀ j < n, j ≠ i → f j = g j) →
      (List.range n).countP g = (List.range n).countP f + 1
  | 0, hi, _ => absurd hi (Nat.not_lt_zero i)
  | n + 1, hi, hother => by
    rw [List.range_succ, List.countP_append, List.countP_append]
    by_cases hn : i = n
    · subst hn
      rw [countP_range_congr fun j hj => (hother j (by omega) (by omega)).symm]
      simp [hf, hg]
    · rw [countP_range_flip hf hg (by omega) fun j hj hji => hother j (by omega) hji]
      simp [hother n (by omega) (Ne.symm hn)]
      omega

theorem countP_range_lt_iff {f : Nat → Bool} {n : Nat} :
    (List.range n).countP f < n ↔ ∃ i < n, f i = false := by
  have hle := List.countP_le_length (p := f) (l := List.range n)
  rw [List.length_range] at hle
  constructor
  · intro hlt
    by_contra hall
    push Not at hall
    have heq : (List.range n).countP f = (List.range n).length :=
      List.countP_eq_length.2 fun i hi => by
        have := hall i (List.mem_range.1 hi)
        simpa using this
    rw [List.length_range] at heq
    omega
  · rintro ⟨i, hi, hfi⟩
    have hne : (List.range n).countP f ≠ (List.range n).length := fun heq =>
      absurd (List.countP_eq_length.1 heq i (List.mem_range.2 hi)) (by simp [hfi])
    rw [List.length_range] at hne
    omega

/-- Bits from `k` on that are all clear add nothing to the count. -/
theorem countP_range_of_clear {f : Nat → Bool} {k : Nat} :
    ∀ {n}, k ≤ n → (∀ i, k ≤ i → i < n → f i = false) → (List.range n).countP f = (List.range k).countP f
  | 0, hk, _ => by rw [Nat.le_zero.1 hk]
  | n + 1, hk, hclear => by
    by_cases hkn : k = n + 1
    · rw [hkn]
    · rw [List.range_succ, List.countP_append, countP_range_of_clear (by omega) fun i h₁ h₂ => hclear i h₁ (by omega)]
      simp [hclear n (by omega) (by omega)]

namespace Bitmap

/-- Bit `i` of a bitmap kept in 64-bit words: bit `i % 64` of word `i / 64`. -/
def bit (word : Nat → Nat) (i : Nat) : Bool := (word (i / 64)).testBit (i % 64)

/-- The set bits among the first `n`. -/
def count (word : Nat → Nat) (n : Nat) : Nat := (List.range n).countP (bit word)

theorem bit_of_or {word word' : Nat → Nat} {i : Nat} (j : Nat)
    (hsame : word' (i / 64) = word (i / 64) ||| 1 <<< (i % 64))
    (hother : i / 64 ≠ j / 64 → word' (j / 64) = word (j / 64)) :
    bit word' j = (bit word j || decide (j = i)) := by
  by_cases hw : i / 64 = j / 64
  · have hij : j = i ↔ j % 64 = i % 64 := by omega
    rw [bit, bit, ← hw, hsame, testBit_or_shiftLeft, hw]
    simp [hij]
  · have hij : j ≠ i := fun h => hw (by rw [h])
    simp [bit, hother hw, hij]

theorem bit_of_and {word word' : Nat → Nat} {i : Nat} (j : Nat)
    (hsame : word' (i / 64) = word (i / 64) &&& (0xFFFFFFFFFFFFFFFF ^^^ 1 <<< (i % 64)))
    (hother : i / 64 ≠ j / 64 → word' (j / 64) = word (j / 64)) :
    bit word' j = (bit word j && !decide (j = i)) := by
  by_cases hw : i / 64 = j / 64
  · have hij : j = i ↔ j % 64 = i % 64 := by omega
    rw [bit, bit, ← hw, hsame, testBit_and_xor_shiftLeft (Nat.mod_lt _ (by omega)), hw]
    simp [hij]
  · have hij : j ≠ i := fun h => hw (by rw [h])
    simp [bit, hother hw, hij]

end Bitmap

end Archipelago.Lib
