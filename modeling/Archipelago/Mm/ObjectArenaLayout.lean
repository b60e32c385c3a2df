import Archipelago.Mm.ObjectArena
/-! The constructor's layout. The accepted alignments are the powers of two up to 64, at
which `align_up` rounds up to a multiple unless the sum wraps, and then gives 0: the slot
size of an object within `align - 1` of `SIZE_MAX` is 0 and the constructor's division
traps. Every other accepted layout puts the header and the bitmap words before the slots,
fits every slot in the page, has a bit for every slot, and aligns the slots. -/

namespace Archipelago.Mm.ObjectArena

open Archipelago.Lib

/-- The alignments the constructor accepts are the powers of two up to 64. -/
theorem accepted_align {align : Nat} (h : ¬(align = 0 ∨ align &&& (align - 1) ≠ 0 ∨ 64 < align)) :
    ∃ k ≤ 6, align = 2 ^ k := by
  have hall : ∀ a < 65, a ≠ 0 → a &&& (a - 1) = 0 →
      a = 2 ^ 0 ∨ a = 2 ^ 1 ∨ a = 2 ^ 2 ∨ a = 2 ^ 3 ∨ a = 2 ^ 4 ∨ a = 2 ^ 5 ∨ a = 2 ^ 6 := by
    decide
  push Not at h
  obtain ⟨h0, hmask, h64⟩ := h
  rcases hall align (by omega) h0 hmask with h | h | h | h | h | h | h <;> exact ⟨_, by omega, h⟩

/-- `align_up` at a power of two: the value rounded up to a multiple, or 0 once the sum wraps. -/
theorem alignUp_eq {value k : Nat} (hk : k ≤ 6) :
    alignUp value (2 ^ k) =
      (value + 2 ^ k - 1) % 0x10000000000000000 - (value + 2 ^ k - 1) % 0x10000000000000000 % 2 ^ k := by
  rw [alignUp, SIZE_MAX]
  exact and_xor_ones_eq_sub_mod (Nat.mod_lt _ (by norm_num)) (by omega)

theorem alignUp_spec {value k : Nat} (hk : k ≤ 6) (hv : value + 2 ^ k - 1 < 0x10000000000000000) :
    alignUp value (2 ^ k) % 2 ^ k = 0 ∧ value ≤ alignUp value (2 ^ k) ∧
      alignUp value (2 ^ k) < value + 2 ^ k := by
  rw [alignUp_eq hk, Nat.mod_eq_of_lt hv]
  have hmod := Nat.mod_lt (value + 2 ^ k - 1) (Nat.two_pow_pos k)
  exact ⟨Nat.sub_mod_eq_zero_of_mod_eq (Nat.mod_mod _ _).symm, by omega, by omega⟩

theorem alignUp_eq_zero_of_wrap {value k : Nat} (hk : k ≤ 6) (hv : value < 0x10000000000000000)
    (hwrap : 0x10000000000000000 ≤ value + 2 ^ k - 1) : alignUp value (2 ^ k) = 0 := by
  have h2k : 2 ^ k ≤ 64 := le_trans (Nat.pow_le_pow_right (by norm_num) hk) (by norm_num)
  have hlt : value + 2 ^ k - 1 - 0x10000000000000000 < 2 ^ k := by omega
  rw [alignUp_eq hk, Nat.mod_eq_sub_mod hwrap, Nat.mod_eq_of_lt (by omega), Nat.mod_eq_of_lt hlt,
    Nat.sub_self]

/-- The shrinking loop stops at a count it started at or below, with that count's words and
offset, and what it found fits the page. -/
theorem solveSlots_spec {slotSize align : Nat} :
    ∀ {n slots words offset : Nat}, solveSlots slotSize align n = some (slots, words, offset) →
      0 < slots ∧ slots ≤ n ∧ words = (slots + 63) / 64 ∧
        offset = alignUp (SLAB_BYTES + words * 8) align ∧ offset + slots * slotSize ≤ PAGE
  | 0, _, _, _, h => by simp [solveSlots] at h
  | n + 1, slots, words, offset, h => by
    rw [solveSlots] at h
    split_ifs at h with hfit
    · simp only [Option.some.injEq, Prod.mk.injEq] at h
      obtain ⟨rfl, rfl, rfl⟩ := h
      exact ⟨by omega, Nat.le_refl _, rfl, rfl, hfit⟩
    · obtain ⟨hpos, hle, hw, ho, hfits⟩ := solveSlots_spec h
      exact ⟨hpos, by omega, hw, ho, hfits⟩

/-- What the constructor's layout guarantees, alignment apart: the header and bitmap before
the slots, every slot inside the page, a bit for every slot, an object in every slot. -/
structure Layout.Fits (L : Layout) : Prop where
  header_le : SLAB_BYTES + L.bitmapWords * 8 ≤ L.slotsOffset
  fits : L.slotsOffset + L.slotsPerSlab * L.slotSize ≤ PAGE
  words_cover : L.slotsPerSlab ≤ L.bitmapWords * 64
  slots_pos : 0 < L.slotsPerSlab
  object_pos : 0 < L.objectSize
  object_le : L.objectSize ≤ L.slotSize

/-- Every layout the constructor accepts fits, and its slot offset, its slot size and the page
are multiples of the alignment. -/
theorem create_layout {objectSize align : Nat} {L : Layout} (hsize : objectSize < 0x10000000000000000)
    (h : create objectSize align = some L) :
    L.Fits ∧ L.slotsOffset % align = 0 ∧ L.slotSize % align = 0 ∧ PAGE % align = 0 := by
  unfold create at h
  by_cases hbad : align = 0 ∨ align &&& (align - 1) ≠ 0 ∨ 64 < align
  · rw [if_pos hbad] at h
    exact absurd h (by simp)
  rw [if_neg hbad] at h
  obtain ⟨k, hk, rfl⟩ := accepted_align hbad
  generalize ho : (if objectSize = 0 then 1 else objectSize) = o at h
  have ho_pos : 0 < o := by split_ifs at ho <;> omega
  have ho_lt : o < 0x10000000000000000 := by split_ifs at ho <;> omega
  dsimp only at h
  split_ifs at h with hzero
  split at h
  · exact absurd h (by simp)
  · rename_i slots words offset hsolve
    obtain rfl := Option.some.inj h
    have h2k : 2 ^ k ≤ 64 := le_trans (Nat.pow_le_pow_right (by norm_num) hk) (by norm_num)
    have hnowrap : o + 2 ^ k - 1 < 0x10000000000000000 := by
      by_contra hw
      exact hzero (alignUp_eq_zero_of_wrap hk ho_lt (by omega))
    obtain ⟨hss_mod, hss_ge, -⟩ := alignUp_spec hk hnowrap
    obtain ⟨hpos, hle, hw, hoff, hfit⟩ := solveSlots_spec hsolve
    -- the loop starts at most at `PAGE - sizeof(arena_slab)` slots, so the bitmap has at most 64 words
    have hslots : slots ≤ 4064 := le_trans hle (Nat.div_le_self (PAGE - SLAB_BYTES) _)
    have hsmall : SLAB_BYTES + words * 8 + 2 ^ k - 1 < 0x10000000000000000 := by
      rw [SLAB_BYTES]
      omega
    obtain ⟨hoff_mod, hoff_ge, -⟩ := alignUp_spec hk hsmall
    rw [← hoff] at hoff_mod hoff_ge
    refine ⟨⟨hoff_ge, hfit, by dsimp only; omega, hpos, ho_pos, hss_ge⟩, hoff_mod, hss_mod, ?_⟩
    exact Nat.mod_eq_zero_of_dvd (Nat.pow_dvd_pow 2 (by omega : k ≤ 12))

end Archipelago.Mm.ObjectArena
