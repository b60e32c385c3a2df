import Archipelago.Mm.ObjectArenaLayout
import Archipelago.Lib.DChain
/-! What each piece of the arena's code does to the memory. A field of `arena_slab` or a
bitmap word is a load at its offset in the slab's page; a store into one field leaves every
other field of every page-aligned slab alone, and a store into the header leaves every slot.
The writes of a call are of two kinds: link stores, which keep every byte outside the link
fields of every page (`LinksOnly`), and stores inside one page, which keep every byte of every
other page (`OffPage`). `unlink_partial` is two link stores that bypass the slab and two that
clear its own links. `take_slot`'s loop finds a clear bit whenever there is one below
`m_slots_per_slab`, and the slots of the arena's pages never overlap. -/

namespace Archipelago.Mm

open Archipelago.Lib

namespace ObjectArena

/-! ## Where the fields lie -/

/-- The field ends by page offset `n`. -/
def Field.Below (n : Nat) (f : Field) : Prop := f.offset + f.size ≤ n

theorem Field.disjoint {f g : Field} (h : f ≠ g) :
    f.offset + f.size ≤ g.offset ∨ g.offset + g.size ≤ f.offset := by
  cases f <;> cases g <;> simp_all [Field.offset, Field.size, SLAB_BYTES] <;> omega

theorem field_lt (mem : Nat → UInt8) (slab : Nat) (f : Field) : field mem slab f < 256 ^ f.size :=
  loadLE_lt mem _ _

theorem field_mod (mem : Nat → UInt8) (slab : Nat) (f : Field) :
    field mem slab f % 256 ^ f.size = field mem slab f :=
  Nat.mod_eq_of_lt (field_lt mem slab f)

theorem field_setField_self (mem : Nat → UInt8) (q : Nat) (f : Field) (v : Nat) :
    field (setField mem q f v) q f = v % 256 ^ f.size :=
  loadLE_storeLE_self _ _ _ _

/-- A store into one field of one page leaves every other field of every page alone. -/
theorem field_setField_of_ne {mem : Nat → UInt8} {p q : Nat} {f g : Field} {v : Nat}
    (hp : p % PAGE = 0) (hq : q % PAGE = 0) (hf : f.Below PAGE) (hg : g.Below PAGE)
    (hne : p ≠ q ∨ f ≠ g) : field (setField mem q f v) p g = field mem p g := by
  unfold Field.Below PAGE at *
  apply loadLE_storeLE_of_disjoint
  by_cases hpq : p = q
  · subst hpq
    have := Field.disjoint (hne.resolve_left (not_not.2 rfl))
    omega
  · omega

theorem field_setField {mem : Nat → UInt8} {p q : Nat} {f g : Field} {v : Nat}
    (hp : p % PAGE = 0) (hq : q % PAGE = 0) (hf : f.Below PAGE) (hg : g.Below PAGE) :
    field (setField mem q f v) p g = if p = q ∧ f = g then v % 256 ^ f.size else field mem p g := by
  split_ifs with h
  · obtain ⟨rfl, rfl⟩ := h
    exact field_setField_self mem p f v
  · exact field_setField_of_ne hp hq hf hg (by tauto)

/-- A store into a header field leaves the slot area of every page alone. -/
theorem setField_apply {mem : Nat → UInt8} {q a n : Nat} {f : Field} {v : Nat}
    (hq : q % PAGE = 0) (hf : f.Below n) (hn : n ≤ PAGE) (ha : n ≤ a % PAGE) :
    setField mem q f v a = mem a := by
  unfold Field.Below PAGE at *
  exact storeLE_of_not_mem (by omega)

/-- A byte written into the slot area of a page leaves every header field alone. -/
theorem field_update_of_slots {mem : Nat → UInt8} {r x n : Nat} {g : Field} (v : UInt8)
    (hr : r % PAGE = 0) (hg : g.Below n) (hn : n ≤ PAGE) (hx : n ≤ x % PAGE) :
    field (Function.update mem x v) r g = field mem r g := by
  unfold Field.Below PAGE at *
  exact loadLE_congr fun k hk => Function.update_of_ne (by omega) _ _

/-- A fill inside the slot area of a page leaves every header field alone. -/
theorem field_memset_of_slots {mem : Nat → UInt8} {p d n off : Nat} {g : Field} (v : UInt8)
    (hp : p % PAGE = 0) (hg : g.Below off) (hd : off ≤ d % PAGE) (hdn : d % PAGE + n ≤ PAGE) :
    field (memset mem d v n) p g = field mem p g := by
  unfold Field.Below PAGE at *
  apply loadLE_memset_of_disjoint
  omega

/-! ## What a write keeps

Two kinds of write are enough to say what every call leaves alone: one that keeps every byte
outside the link fields (offsets 16 to 31) of every page, and one that keeps every byte
outside one page. -/

/-- `mem'` differs from `mem` at most in the `next` and `prev` fields of pages. -/
def LinksOnly (mem mem' : Nat → UInt8) : Prop := ∀ x, x % PAGE < 16 ∨ 32 ≤ x % PAGE → mem' x = mem x

/-- `mem'` differs from `mem` at most inside the page at `q`. -/
def OffPage (q : Nat) (mem mem' : Nat → UInt8) : Prop := ∀ x, x / PAGE ≠ q / PAGE → mem' x = mem x

theorem LinksOnly.refl (mem : Nat → UInt8) : LinksOnly mem mem := fun _ _ => rfl

theorem LinksOnly.trans {m₁ m₂ m₃ : Nat → UInt8} (h₁ : LinksOnly m₁ m₂) (h₂ : LinksOnly m₂ m₃) :
    LinksOnly m₁ m₃ := fun x hx => (h₂ x hx).trans (h₁ x hx)

theorem OffPage.refl (q : Nat) (mem : Nat → UInt8) : OffPage q mem mem := fun _ _ => rfl

theorem OffPage.trans {q : Nat} {m₁ m₂ m₃ : Nat → UInt8} (h₁ : OffPage q m₁ m₂) (h₂ : OffPage q m₂ m₃) :
    OffPage q m₁ m₃ := fun x hx => (h₂ x hx).trans (h₁ x hx)

theorem linksOnly_setField {mem : Nat → UInt8} {q : Nat} {f : Field} {v : Nat} (hq : q % PAGE = 0)
    (hf : f = .next ∨ f = .prev) : LinksOnly mem (setField mem q f v) := by
  intro x hx
  unfold PAGE at *
  apply storeLE_of_not_mem
  rcases hf with rfl | rfl <;> simp only [Field.offset, Field.size] <;> omega

theorem offPage_setField {mem : Nat → UInt8} {q : Nat} {f : Field} {v : Nat} (hq : q % PAGE = 0)
    (hf : f.Below PAGE) : OffPage q mem (setField mem q f v) := by
  intro x hx
  unfold PAGE Field.Below at *
  exact storeLE_of_not_mem (by omega)

theorem offPage_memset {mem : Nat → UInt8} {q d n : Nat} (v : UInt8) (hq : q % PAGE = 0)
    (hd : q ≤ d) (hn : d + n ≤ q + PAGE) : OffPage q mem (memset mem d v n) := by
  intro x hx
  unfold PAGE at *
  exact memset_of_not_mem v (by omega)

/-- A field of a page away from the written one reads as before. -/
theorem OffPage.field {q : Nat} {mem mem' : Nat → UInt8} (h : OffPage q mem mem') {p : Nat} {g : Field}
    (hp : p % PAGE = 0) (hq : q % PAGE = 0) (hpq : p ≠ q) (hg : g.Below PAGE) :
    ObjectArena.field mem' p g = ObjectArena.field mem p g :=
  loadLE_congr fun k hk => h _ (by unfold PAGE Field.Below at *; omega)

/-- A field other than the links reads as before. -/
theorem LinksOnly.field {mem mem' : Nat → UInt8} (h : LinksOnly mem mem') {p : Nat} {g : Field}
    (hp : p % PAGE = 0) (hg : g.Below PAGE) (hn : g ≠ .next) (hpr : g ≠ .prev) :
    ObjectArena.field mem' p g = ObjectArena.field mem p g :=
  loadLE_congr fun k hk => h _ (by
    unfold PAGE Field.Below at *
    cases g <;> simp_all [Field.offset, Field.size, SLAB_BYTES] <;> omega)

/-! ## Where the slots lie -/

section Geometry

variable {L : Layout} (hL : L.Fits)
include hL

theorem Layout.Fits.offset_le : L.slotsOffset ≤ PAGE := by
  have := hL.fits
  omega

/-- Slot `i` ends inside the page. -/
theorem Layout.Fits.slot_end {i : Nat} (hi : i < L.slotsPerSlab) :
    L.slotsOffset + i * L.slotSize + L.slotSize ≤ PAGE := by
  have h := Nat.mul_le_mul_right L.slotSize (show i + 1 ≤ L.slotsPerSlab from hi)
  rw [Nat.succ_mul] at h
  have := hL.fits
  omega

/-- A byte of slot `i` lies in the slot area of its slab's page. -/
theorem Layout.Fits.slot_mod {p i k : Nat} (hp : p % PAGE = 0) (hi : i < L.slotsPerSlab)
    (hk : k < L.slotSize) :
    (L.slotAddr p i + k) % PAGE = L.slotsOffset + i * L.slotSize + k ∧
      (L.slotAddr p i + k) / PAGE = p / PAGE := by
  have := hL.slot_end hi
  unfold Layout.slotAddr
  unfold PAGE at *
  omega

/-- Distinct slots of the arena's pages do not overlap. -/
theorem Layout.Fits.slot_disjoint {p q i j : Nat} (hp : p % PAGE = 0) (hq : q % PAGE = 0)
    (hi : i < L.slotsPerSlab) (hj : j < L.slotsPerSlab) (hne : p ≠ q ∨ i ≠ j) :
    L.slotAddr p i + L.slotSize ≤ L.slotAddr q j ∨ L.slotAddr q j + L.slotSize ≤ L.slotAddr p i := by
  have hpi := hL.slot_end hi
  have hqj := hL.slot_end hj
  unfold Layout.slotAddr
  by_cases hpq : p = q
  · subst hpq
    have hij : i ≠ j := hne.resolve_left (not_not.2 rfl)
    rcases Nat.lt_or_gt_of_ne hij with h | h
    · have := Nat.mul_le_mul_right L.slotSize (show i + 1 ≤ j from h)
      rw [Nat.succ_mul] at this
      omega
    · have := Nat.mul_le_mul_right L.slotSize (show j + 1 ≤ i from h)
      rw [Nat.succ_mul] at this
      omega
  · unfold PAGE at *
    omega

theorem Layout.Fits.slotAddr_inj {p q i j : Nat} (hp : p % PAGE = 0) (hq : q % PAGE = 0)
    (hi : i < L.slotsPerSlab) (hj : j < L.slotsPerSlab) (h : L.slotAddr p i = L.slotAddr q j) :
    p = q ∧ i = j := by
  by_contra hne
  have hsz : 0 < L.slotSize := lt_of_lt_of_le hL.object_pos hL.object_le
  rcases hL.slot_disjoint hp hq hi hj (by tauto) with h' | h' <;> omega

/-- The word of a bit below the bitmap's end is one of its words, before the slots. -/
theorem Layout.Fits.word_below {i : Nat} (hi : i < L.bitmapWords * 64) :
    (Field.word (i / 64)).Below L.slotsOffset := by
  have := hL.header_le
  unfold Field.Below
  simp only [Field.offset, Field.size, SLAB_BYTES] at *
  omega

/-- A header field lies before the bitmap, so before the slots. -/
theorem Layout.Fits.header_below {f : Field} (hf : f.Below SLAB_BYTES) : f.Below L.slotsOffset :=
  le_trans hf (le_trans (Nat.le_add_right _ _) hL.header_le)

theorem Layout.Fits.word_below_page {i : Nat} (hi : i < L.bitmapWords * 64) :
    (Field.word (i / 64)).Below PAGE :=
  le_trans (hL.word_below hi) hL.offset_le

end Geometry

/-! ## The bitmap -/

theorem testLive_eq (mem : Nat → UInt8) (slab slot : Nat) :
    testLive mem slab slot = Bitmap.bit (words mem slab) slot := by
  have hshift : slot >>> 6 = slot / 64 := by rw [Nat.shiftRight_eq_div_pow]
  have hmask : slot &&& 63 = slot % 64 := Nat.and_two_pow_sub_one_eq_mod slot 6
  rw [testLive, Bitmap.bit, words, hshift, hmask, Nat.testBit, Nat.and_comm 1, Nat.and_one_is_mod]
  rcases Nat.mod_two_eq_zero_or_one (field mem slab (.word (slot / 64)) >>> (slot % 64)) with h | h <;>
    simp [h]

theorem word_or_lt {x k : Nat} (hx : x < 256 ^ 8) (hk : k < 64) : x ||| 1 <<< k < 256 ^ 8 := by
  have h : (256 : Nat) ^ 8 = 2 ^ 64 := by norm_num
  rw [h] at *
  exact Nat.or_lt_two_pow hx (by rw [Nat.one_shiftLeft]; exact Nat.pow_lt_pow_right (by norm_num) hk)

theorem markLive_eq (mem : Nat → UInt8) (slab slot : Nat) : markLive mem slab slot =
    setField mem slab (.word (slot / 64)) (field mem slab (.word (slot / 64)) ||| 1 <<< (slot % 64)) := by
  rw [markLive, Nat.shiftRight_eq_div_pow, Nat.and_two_pow_sub_one_eq_mod slot 6]

/-- `mark_live` sets the slot's bit and no other of its slab. -/
theorem bit_markLive {mem : Nat → UInt8} {slab slot : Nat} (hslab : slab % PAGE = 0)
    (hslot : (Field.word (slot / 64)).Below PAGE) (j : Nat) (hj : (Field.word (j / 64)).Below PAGE) :
    Bitmap.bit (words (markLive mem slab slot) slab) j = (Bitmap.bit (words mem slab) j || decide (j = slot)) := by
  have hshift : slot >>> 6 = slot / 64 := by rw [Nat.shiftRight_eq_div_pow]
  have hmask : slot &&& 63 = slot % 64 := Nat.and_two_pow_sub_one_eq_mod slot 6
  apply Bitmap.bit_of_or j
  · rw [words, markLive, hshift, hmask, field_setField_self, Nat.mod_eq_of_lt]
    · rfl
    · exact word_or_lt (field_lt _ _ _) (Nat.mod_lt _ (by omega))
  · intro hne
    rw [words, markLive, hshift, field_setField_of_ne hslab hslab hslot hj (.inr (by simpa using hne))]
    rfl

theorem clearLive_eq (mem : Nat → UInt8) (slab slot : Nat) : clearLive mem slab slot =
    setField mem slab (.word (slot / 64))
      (field mem slab (.word (slot / 64)) &&& (SIZE_MAX ^^^ 1 <<< (slot % 64))) := by
  rw [clearLive, Nat.shiftRight_eq_div_pow, Nat.and_two_pow_sub_one_eq_mod slot 6]

/-- `clear_live` clears the slot's bit and no other of its slab. -/
theorem bit_clearLive {mem : Nat → UInt8} {slab slot : Nat} (hslab : slab % PAGE = 0)
    (hslot : (Field.word (slot / 64)).Below PAGE) (j : Nat) (hj : (Field.word (j / 64)).Below PAGE) :
    Bitmap.bit (words (clearLive mem slab slot) slab) j = (Bitmap.bit (words mem slab) j && !decide (j = slot)) := by
  have hshift : slot >>> 6 = slot / 64 := by rw [Nat.shiftRight_eq_div_pow]
  have hmask : slot &&& 63 = slot % 64 := Nat.and_two_pow_sub_one_eq_mod slot 6
  apply Bitmap.bit_of_and j
  · rw [words, clearLive, hshift, hmask, field_setField_self, Nat.mod_eq_of_lt]
    · rfl
    · exact lt_of_le_of_lt Nat.and_le_left (field_lt _ _ _)
  · intro hne
    rw [words, clearLive, hshift, field_setField_of_ne hslab hslab hslot hj (.inr (by simpa using hne))]
    rfl

/-- `take_slot`'s loop finds a clear bit below `slots` whenever the slab has one: scanning
from word `w` with every bit before it set, it stops at the lowest clear bit. -/
theorem findSlot_spec {mem : Nat → UInt8} {slab slots : Nat} :
    ∀ (n w : Nat), (∀ j < w * 64, Bitmap.bit (words mem slab) j = true) →
      (∃ i < slots, i < (w + n) * 64 ∧ Bitmap.bit (words mem slab) i = false) →
      ∃ j, findSlot mem slab slots w n = some j ∧ j < slots ∧ Bitmap.bit (words mem slab) j = false
  | 0, w, hset, ⟨i, _, hi, hclear⟩ => by
    rw [hset i (by omega)] at hclear
    exact absurd hclear (by simp)
  | n + 1, w, hset, hfree => by
    have hbits : field mem slab (.word w) < 2 ^ 64 := field_lt mem slab _
    rw [findSlot]
    by_cases hfull : field mem slab (.word w) = SIZE_MAX
    · -- a full word: every bit up to the next word is set, and the scan moves on
      rw [if_pos hfull]
      refine findSlot_spec n (w + 1) (fun j hj => ?_) (by simpa [Nat.add_right_comm, Nat.add_assoc] using hfree)
      by_cases hjw : j < w * 64
      · exact hset j hjw
      · have hdiv : j / 64 = w := by omega
        have hones : (SIZE_MAX : Nat) = 2 ^ 64 - 1 := rfl
        rw [Bitmap.bit, words, hdiv, hfull, hones, Nat.testBit_two_pow_sub_one]
        simp [Nat.mod_lt j (by omega : 0 < 64)]
    · rw [if_neg hfull]
      have hx : field mem slab (.word w) ^^^ SIZE_MAX ≠ 0 := fun h => hfull (by
        simpa [Nat.xor_assoc, Nat.xor_self] using congrArg (· ^^^ SIZE_MAX) h)
      have hxlt : field mem slab (.word w) ^^^ SIZE_MAX < 2 ^ 64 := Nat.xor_lt_two_pow hbits (by decide)
      obtain ⟨hc, hcset, hbelow⟩ := ctz_spec hx hxlt
      generalize ctz (field mem slab (.word w) ^^^ SIZE_MAX) = c at hc hcset hbelow ⊢
      have hclear : ∀ j < 64, (field mem slab (.word w) ^^^ SIZE_MAX).testBit j =
          !(field mem slab (.word w)).testBit j := fun j hj => testBit_xor_ones hj
      -- the slot found is the lowest clear bit: every bit before it is set
      have hslot : Bitmap.bit (words mem slab) (w * 64 + c) = false := by
        have := hclear _ hc
        rw [hcset] at this
        rw [Bitmap.bit, words, show (w * 64 + c) / 64 = w by omega, show (w * 64 + c) % 64 = c by omega]
        simpa using this
      have hlower : ∀ i < w * 64 + c,
          Bitmap.bit (words mem slab) i = true := by
        intro i hi
        by_cases hiw : i < w * 64
        · exact hset i hiw
        · have := hclear (i % 64) (Nat.mod_lt _ (by omega))
          rw [hbelow (i % 64) (by omega)] at this
          rw [Bitmap.bit, words, show i / 64 = w by omega]
          simpa using this
      obtain ⟨i, hi, -, hiclear⟩ := hfree
      have hlt : w * 64 + c < slots := by
        by_contra hge
        rw [hlower i (by omega)] at hiclear
        exact absurd hiclear (by simp)
      rw [if_neg (by omega)]
      exact ⟨_, rfl, hlt, hslot⟩

/-! ## `unlink_partial` -/

/-- `unlink_partial`'s first store: the node before `slab` linked past it. -/
def skipPrev (mem : Nat → UInt8) (slab : Nat) : Nat → UInt8 :=
  if field mem slab .prev ≠ 0 then setField mem (field mem slab .prev) .next (field mem slab .next) else mem

/-- `unlink_partial`'s first two stores: the neighbours of `slab` linked past it. -/
def bypass (mem : Nat → UInt8) (slab : Nat) : Nat → UInt8 :=
  let mem := skipPrev mem slab
  if field mem slab .next ≠ 0 then setField mem (field mem slab .next) .prev (field mem slab .prev) else mem

section Bypass

variable {mem : Nat → UInt8} {slab : Nat}

theorem live_below : Field.Below PAGE .live := by unfold Field.Below; decide
theorem next_below : Field.Below PAGE .next := by unfold Field.Below; decide
theorem prev_below : Field.Below PAGE .prev := by unfold Field.Below; decide

/-- After the first store, `slab`'s own fields read as before. -/
theorem field_skipPrev_self (hs : slab % PAGE = 0) (hP : field mem slab .prev % PAGE = 0)
    (hPs : field mem slab .prev ≠ slab) {g : Field} (hg : g.Below PAGE) :
    field (skipPrev mem slab) slab g = field mem slab g := by
  unfold skipPrev
  split_ifs
  · exact field_setField_of_ne hs hP next_below hg (.inl (Ne.symm hPs))
  · rfl

theorem bypass_eq (hs : slab % PAGE = 0) (hP : field mem slab .prev % PAGE = 0)
    (hPs : field mem slab .prev ≠ slab) :
    bypass mem slab = if field mem slab .next ≠ 0 then
      setField (skipPrev mem slab) (field mem slab .next) .prev (field mem slab .prev) else skipPrev mem slab := by
  unfold bypass
  dsimp only
  rw [field_skipPrev_self hs hP hPs next_below, field_skipPrev_self hs hP hPs prev_below]

/-- The neighbours' links after the bypass: the node before `slab` points past it, the node
after it points back past it, every other field of every page is as it was. -/
theorem field_bypass (hs : slab % PAGE = 0) (hP : field mem slab .prev % PAGE = 0)
    (hN : field mem slab .next % PAGE = 0) (hPs : field mem slab .prev ≠ slab)
    {q : Nat} {g : Field} (hq : q % PAGE = 0) (hg : g.Below PAGE) :
    field (bypass mem slab) q g =
      if g = .next ∧ q = field mem slab .prev ∧ field mem slab .prev ≠ 0 then field mem slab .next
      else if g = .prev ∧ q = field mem slab .next ∧ field mem slab .next ≠ 0 then field mem slab .prev
      else field mem q g := by
  rw [bypass_eq hs hP hPs, skipPrev]
  cases g <;> by_cases hp0 : field mem slab .prev = 0 <;> by_cases hn0 : field mem slab .next = 0 <;>
    simp [hp0, hn0, field_setField, hq, hP, hN, hg, next_below, prev_below, field_mod]

theorem linksOnly_bypass (hs : slab % PAGE = 0) (hP : field mem slab .prev % PAGE = 0)
    (hN : field mem slab .next % PAGE = 0) (hPs : field mem slab .prev ≠ slab) :
    LinksOnly mem (bypass mem slab) := by
  have h₁ : LinksOnly mem (skipPrev mem slab) := by
    unfold skipPrev
    split_ifs
    · exact linksOnly_setField hP (.inl rfl)
    · exact LinksOnly.refl mem
  rw [bypass_eq hs hP hPs]
  split_ifs
  · exact h₁.trans (linksOnly_setField hN (.inr rfl))
  · exact h₁

end Bypass

end ObjectArena

open ObjectArena

namespace Arena

theorem unlinkPartial_eq (a : Arena) (slab : Nat) :
    a.unlinkPartial slab =
      { a with partialHead := if a.partialHead = slab then field (bypass a.mem slab) slab .next else a.partialHead,
               mem := setField (setField (bypass a.mem slab) slab .next 0) slab .prev 0 } := rfl

@[simp] theorem layout_unlinkPartial (a : Arena) (slab : Nat) : (a.unlinkPartial slab).layout = a.layout := rfl
@[simp] theorem addr_unlinkPartial (a : Arena) (slab : Nat) : (a.unlinkPartial slab).addr = a.addr := rfl
@[simp] theorem slabCount_unlinkPartial (a : Arena) (slab : Nat) :
    (a.unlinkPartial slab).slabCount = a.slabCount := rfl
@[simp] theorem live_unlinkPartial (a : Arena) (slab : Nat) : (a.unlinkPartial slab).live = a.live := rfl

section Unlink

variable {a : Arena} {slab : Nat} (hs : slab % PAGE = 0) (hP : field a.mem slab .prev % PAGE = 0)
  (hN : field a.mem slab .next % PAGE = 0) (hPs : field a.mem slab .prev ≠ slab)
include hs hP hN hPs

theorem linksOnly_unlinkPartial : LinksOnly a.mem (a.unlinkPartial slab).mem := by
  rw [unlinkPartial_eq]
  exact ((linksOnly_bypass hs hP hN hPs).trans (linksOnly_setField hs (.inl rfl))).trans
    (linksOnly_setField hs (.inr rfl))

omit hP hN hPs in
/-- The links after `unlink_partial`: `slab`'s own cleared, its neighbours' bypassing it. -/
theorem field_unlinkPartial {q : Nat} {g : Field} (hq : q % PAGE = 0) (hg : g.Below PAGE) :
    field (a.unlinkPartial slab).mem q g =
      if q = slab ∧ (g = .next ∨ g = .prev) then 0 else field (bypass a.mem slab) q g := by
  rw [unlinkPartial_eq]
  dsimp only
  rw [field_setField hq hs prev_below hg, field_setField hq hs next_below hg]
  by_cases hqs : q = slab <;> cases g <;> simp [hqs]

theorem partialHead_unlinkPartial :
    (a.unlinkPartial slab).partialHead =
      if a.partialHead = slab then field a.mem slab .next else a.partialHead := by
  rw [unlinkPartial_eq]
  dsimp only
  rw [field_bypass hs hP hN hPs hs next_below]
  simp [Ne.symm hPs]

end Unlink

/-- Unlinking a slab whose links are null writes nothing but its own links. -/
theorem field_unlinkPartial_of_null {a : Arena} {slab q : Nat} {g : Field} (hs : slab % PAGE = 0)
    (hs0 : slab ≠ 0) (hn : field a.mem slab .next = 0) (hp : field a.mem slab .prev = 0) (hq : q % PAGE = 0)
    (hg : g.Below PAGE) (hqs : q ≠ slab) : field (a.unlinkPartial slab).mem q g = field a.mem q g := by
  rw [field_unlinkPartial hs hq hg, if_neg (fun h => hqs h.1),
    field_bypass hs (by simp [hp]) (by simp [hn]) (by rw [hp]; exact Ne.symm hs0) hq hg]
  simp [hn, hp]

/-- `take_slot`'s bookkeeping once its loop has found `slot`: the bit set, both live counts
raised. -/
def mark (a : Arena) (slab slot : Nat) : Arena :=
  let mem := markLive a.mem slab slot
  { a with mem := setField mem slab .live (field mem slab .live + 1), live := a.live + 1 }

/-- The arena `take_slot` leaves once its loop has found `slot`. -/
def afterTake (a : Arena) (slab slot : Nat) : Arena :=
  if field (a.mark slab slot).mem slab .live = a.layout.slotsPerSlab then (a.mark slab slot).unlinkPartial slab
  else a.mark slab slot

theorem takeSlot_of_findSlot {a : Arena} {slab slot : Nat}
    (h : findSlot a.mem slab a.layout.slotsPerSlab 0 a.layout.bitmapWords = some slot) :
    a.takeSlot slab = some (a.layout.slotAddr slab slot, a.afterTake slab slot) := by
  simp only [takeSlot, h]
  rfl

@[simp] theorem layout_mark (a : Arena) (slab slot : Nat) : (a.mark slab slot).layout = a.layout := rfl
@[simp] theorem addr_mark (a : Arena) (slab slot : Nat) : (a.mark slab slot).addr = a.addr := rfl
@[simp] theorem partialHead_mark (a : Arena) (slab slot : Nat) :
    (a.mark slab slot).partialHead = a.partialHead := rfl
@[simp] theorem slabCount_mark (a : Arena) (slab slot : Nat) :
    (a.mark slab slot).slabCount = a.slabCount := rfl
@[simp] theorem live_mark (a : Arena) (slab slot : Nat) : (a.mark slab slot).live = a.live + 1 := rfl

section Mark

variable {a : Arena} {slab slot : Nat} (hs : slab % PAGE = 0) (hw : (Field.word (slot / 64)).Below PAGE)
include hs hw

theorem offPage_mark : OffPage slab a.mem (a.mark slab slot).mem := by
  simp only [mark]
  rw [markLive_eq]
  exact (offPage_setField hs hw).trans (offPage_setField hs live_below)

/-- The fields `take_slot` does not write read as before. -/
theorem field_mark_of_ne {g : Field} (hg : g.Below PAGE) (hl : g ≠ .live) (hword : g ≠ .word (slot / 64)) :
    field (a.mark slab slot).mem slab g = field a.mem slab g := by
  simp only [mark]
  rw [field_setField_of_ne hs hs live_below hg (.inr (Ne.symm hl)), markLive_eq,
    field_setField_of_ne hs hs hw hg (.inr (Ne.symm hword))]

theorem field_mark_live : field (a.mark slab slot).mem slab .live = (field a.mem slab .live + 1) % 256 ^ 4 := by
  simp only [mark]
  rw [field_setField_self, markLive_eq, field_setField_of_ne hs hs hw live_below (.inr (by simp))]
  rfl

theorem bit_mark (j : Nat) (hj : (Field.word (j / 64)).Below PAGE) :
    Bitmap.bit (words (a.mark slab slot).mem slab) j = (Bitmap.bit (words a.mem slab) j || decide (j = slot)) := by
  have hword : words (a.mark slab slot).mem slab (j / 64) = words (markLive a.mem slab slot) slab (j / 64) :=
    field_setField_of_ne hs hs live_below hj (.inr (by simp))
  rw [← bit_markLive hs hw j hj]
  simp only [Bitmap.bit]
  rw [hword]

omit hw in
/-- Neither store of `take_slot`'s bookkeeping reaches the slot area. -/
theorem mark_apply {n x : Nat} (hn : n ≤ PAGE) (hl : Field.Below n .live) (hwn : (Field.word (slot / 64)).Below n)
    (hx : n ≤ x % PAGE) : (a.mark slab slot).mem x = a.mem x := by
  simp only [mark]
  rw [setField_apply hs hl hn hx, markLive_eq, setField_apply hs hwn hn hx]

end Mark

section NewSlab

variable {a : Arena} {fresh : Nat} (hf : fresh % PAGE = 0)
include hf

omit hf in
/-- The page after `new_slab`'s fill and value-initialized header: zeros throughout. -/
theorem newSlab_base_apply {x : Nat} (h₁ : fresh ≤ x) (h₂ : x < fresh + PAGE) :
    storeLE (memset a.mem fresh 0 PAGE) fresh 0 SLAB_BYTES x = 0 := by
  rw [storeLE_zero]
  by_cases hx : x < fresh + SLAB_BYTES
  · exact memset_of_mem 0 h₁ hx
  · rw [memset_of_not_mem 0 (by omega)]
    exact memset_of_mem 0 h₁ h₂

theorem offPage_newSlab : OffPage fresh a.mem (a.newSlab fresh) := by
  have hbase : OffPage fresh a.mem (storeLE (memset a.mem fresh 0 PAGE) fresh 0 SLAB_BYTES) := by
    rw [storeLE_zero]
    exact (offPage_memset 0 hf (Nat.le_refl _) (Nat.le_refl _)).trans
      (offPage_memset 0 hf (Nat.le_refl _) (by simp [SLAB_BYTES, PAGE]))
  exact (hbase.trans (offPage_setField hf (by unfold Field.Below; decide))).trans
    (offPage_setField hf (by unfold Field.Below; decide))

/-- The fresh slab's fields: the magic and the owner, every other one zero. -/
theorem field_newSlab {g : Field} (hg : g.Below PAGE) :
    field (a.newSlab fresh) fresh g =
      if g = .magic then ARENA_MAGIC else if g = .owner then a.addr % 256 ^ 8 else 0 := by
  have hmagic : Field.Below PAGE .magic := by unfold Field.Below; decide
  have howner : Field.Below PAGE .owner := by unfold Field.Below; decide
  simp only [newSlab]
  rw [field_setField hf hf howner hg, field_setField hf hf hmagic hg]
  by_cases hgo : g = .owner
  · subst hgo
    simp [Field.size]
  · by_cases hgm : g = .magic
    · subst hgm
      simp [Field.size, ARENA_MAGIC]
    · rw [if_neg (by simp [Ne.symm hgo]), if_neg (by simp [Ne.symm hgm]), if_neg hgm, if_neg hgo]
      unfold Field.Below at hg
      exact loadLE_zero_of_forall fun k hk => newSlab_base_apply (by omega) (by omega)

/-- Past the magic and the owner, the fresh page is zero. -/
theorem newSlab_apply {x : Nat} (h₁ : fresh + 16 ≤ x) (h₂ : x < fresh + PAGE) : a.newSlab fresh x = 0 := by
  simp only [newSlab]
  rw [setField_apply (n := 16) hf (by unfold Field.Below; decide) (by decide) (by unfold PAGE at *; omega),
    setField_apply (n := 16) hf (by unfold Field.Below; decide) (by decide) (by unfold PAGE at *; omega)]
  exact newSlab_base_apply (by omega) h₂

/-- `alloc` with an empty partial list and a fresh page: the new slab pushed onto the list. -/
def adopt (a : Arena) (fresh : Nat) : Arena :=
  { a with mem := setField (a.newSlab fresh) fresh .next 0, partialHead := fresh, slabCount := a.slabCount + 1 }

theorem offPage_adopt : OffPage fresh a.mem (a.adopt fresh).mem :=
  (offPage_newSlab hf).trans (offPage_setField hf next_below)

theorem field_adopt {g : Field} (hg : g.Below PAGE) :
    field (a.adopt fresh).mem fresh g =
      if g = .magic then ARENA_MAGIC else if g = .owner then a.addr % 256 ^ 8 else 0 := by
  simp only [adopt]
  rw [field_setField hf hf next_below hg, field_newSlab hf hg]
  by_cases hgn : g = .next
  · subst hgn
    simp
  · rw [if_neg (by simp [Ne.symm hgn])]

theorem adopt_apply {x : Nat} (h₁ : fresh + 16 ≤ x) (h₂ : x < fresh + PAGE) : (a.adopt fresh).mem x = 0 := by
  simp only [adopt, setField]
  by_cases hx : fresh + 16 + 8 ≤ x
  · rw [storeLE_of_not_mem (by simp only [Field.offset, Field.size]; omega)]
    exact newSlab_apply hf h₁ h₂
  · rw [show Field.next.offset = 16 from rfl, show Field.next.size = 8 from rfl, storeLE_zero,
      memset_of_mem 0 h₁ (by omega)]

end NewSlab

@[simp] theorem layout_adopt (a : Arena) (fresh : Nat) : (a.adopt fresh).layout = a.layout := rfl
@[simp] theorem addr_adopt (a : Arena) (fresh : Nat) : (a.adopt fresh).addr = a.addr := rfl

/-! ## `alloc`, case by case -/

theorem alloc_of_partial {a : Arena} {fresh : Nat} (h : a.partialHead ≠ 0) :
    a.alloc fresh = a.takeSlot a.partialHead := if_pos h

theorem alloc_of_exhausted {a : Arena} (h : a.partialHead = 0) : a.alloc 0 = some (0, a) := by
  simp [alloc, h]

theorem alloc_of_fresh {a : Arena} {fresh : Nat} (h : a.partialHead = 0) (hf : fresh ≠ 0) :
    a.alloc fresh = (a.adopt fresh).takeSlot fresh := by
  simp only [alloc, h, ne_eq, not_true_eq_false, if_false, hf]
  rfl

/-! ## `free`, once its checks pass -/

/-- `free`'s scrub and bookkeeping: the slot zeroed, its bit cleared, both live counts lowered. -/
def scrub (a : Arena) (ptr slab slot : Nat) : Arena :=
  let mem := memset a.mem ptr 0 a.layout.slotSize
  let mem := clearLive mem slab slot
  { a with mem := setField mem slab .live ((field mem slab .live + 0xFFFFFFFF) % 0x100000000),
           live := a.live - 1 }

/-- A slab back onto the front of the partial list. -/
def pushPartial (a : Arena) (slab : Nat) : Arena :=
  let mem := setField a.mem slab .next a.partialHead
  { a with mem := if a.partialHead ≠ 0 then setField mem a.partialHead .prev slab else mem, partialHead := slab }

/-- `free`'s last branch on the lowered count: back onto the partial list when the slab was
full, the page handed back when it is empty. -/
def afterScrub (a : Arena) (slab : Nat) : Option Nat × Arena :=
  let live := field a.mem slab .live
  if (live + 1) % 0x100000000 = a.layout.slotsPerSlab ∧ live ≠ 0 then (none, a.pushPartial slab)
  else if live = 0 then (some slab, { a.unlinkPartial slab with slabCount := a.slabCount - 1 })
  else (none, a)

theorem free_of_checks {a : Arena} {ptr slab slot : Nat} (hptr : ptr ≠ 0)
    (hslab : ptr &&& (SIZE_MAX ^^^ (PAGE - 1)) = slab) (hmagic : field a.mem slab .magic = ARENA_MAGIC)
    (howner : field a.mem slab .owner = a.addr) (hge : slab + a.layout.slotsOffset ≤ ptr)
    (hmod : (ptr - slab - a.layout.slotsOffset) % a.layout.slotSize = 0)
    (hslot : (ptr - slab - a.layout.slotsOffset) / a.layout.slotSize = slot) (hlt : slot < a.layout.slotsPerSlab)
    (hlive : testLive a.mem slab slot = true) :
    a.free ptr = some ((a.scrub ptr slab slot).afterScrub slab) := by
  rw [free, if_neg hptr]
  dsimp only
  rw [hslab, if_neg (by simp [hmagic, howner]), if_neg (by omega), hslot, if_neg (by omega),
    if_neg (by simp [hlive]), afterScrub, apply_ite some, apply_ite some]
  rfl

/-- Every check of `free` passes at the address of a set slot of a slab of the arena. -/
theorem free_slotAddr {a : Arena} {slab slot : Nat} (hL : a.layout.Fits) (hs : slab % PAGE = 0) (hs0 : 0 < slab)
    (hend : slab + PAGE ≤ 0x10000000000000000) (hslot : slot < a.layout.slotsPerSlab)
    (hmagic : field a.mem slab .magic = ARENA_MAGIC) (howner : field a.mem slab .owner = a.addr)
    (hlive : Bitmap.bit (words a.mem slab) slot = true) :
    a.free (a.layout.slotAddr slab slot) =
      some ((a.scrub (a.layout.slotAddr slab slot) slab slot).afterScrub slab) := by
  have hsz : 0 < a.layout.slotSize := lt_of_lt_of_le hL.object_pos hL.object_le
  have hmod := (hL.slot_mod hs hslot hsz).1
  have hend' := hL.slot_end hslot
  have hoff : a.layout.slotAddr slab slot - slab - a.layout.slotsOffset = slot * a.layout.slotSize := by
    unfold Layout.slotAddr
    omega
  -- the mask in `free` clears the low twelve bits, the offset of the slot in its page
  have hmask : a.layout.slotAddr slab slot &&& (SIZE_MAX ^^^ (PAGE - 1)) = slab := by
    have hlt : a.layout.slotAddr slab slot < 2 ^ 64 := by
      unfold Layout.slotAddr PAGE at *
      omega
    rw [show SIZE_MAX ^^^ (PAGE - 1) = 0xFFFFFFFFFFFFFFFF ^^^ (2 ^ 12 - 1) from rfl,
      and_xor_ones_eq_sub_mod hlt (by norm_num), show (2 : Nat) ^ 12 = PAGE from rfl]
    rw [Nat.add_zero] at hmod
    rw [hmod]
    unfold Layout.slotAddr
    omega
  refine free_of_checks ?_ hmask hmagic howner ?_ ?_ ?_ hslot ?_
  · unfold Layout.slotAddr
    omega
  · unfold Layout.slotAddr
    omega
  · rw [hoff, Nat.mul_mod_left]
  · rw [hoff, Nat.mul_div_cancel _ hsz]
  · rw [testLive_eq, hlive]

@[simp] theorem layout_scrub (a : Arena) (ptr slab slot : Nat) : (a.scrub ptr slab slot).layout = a.layout := rfl
@[simp] theorem addr_scrub (a : Arena) (ptr slab slot : Nat) : (a.scrub ptr slab slot).addr = a.addr := rfl
@[simp] theorem partialHead_scrub (a : Arena) (ptr slab slot : Nat) :
    (a.scrub ptr slab slot).partialHead = a.partialHead := rfl
@[simp] theorem slabCount_scrub (a : Arena) (ptr slab slot : Nat) :
    (a.scrub ptr slab slot).slabCount = a.slabCount := rfl
@[simp] theorem live_scrub (a : Arena) (ptr slab slot : Nat) : (a.scrub ptr slab slot).live = a.live - 1 := rfl

section Scrub

variable {a : Arena} {ptr slab slot : Nat} (hs : slab % PAGE = 0) (hL : a.layout.Fits)
  (hslot : slot < a.layout.slotsPerSlab) (hptr : ptr = a.layout.slotAddr slab slot)
include hs hL hslot hptr

omit hs in
/-- The scrubbed slot lies in the slot area of its slab's page. -/
theorem scrub_range :
    0 < a.layout.slotSize ∧ slab + a.layout.slotsOffset ≤ ptr ∧
      ptr + a.layout.slotSize ≤ slab + PAGE := by
  have := hL.slot_end hslot
  have hsz : 0 < a.layout.slotSize := lt_of_lt_of_le hL.object_pos hL.object_le
  subst hptr
  unfold Layout.slotAddr
  omega

theorem offPage_scrub : OffPage slab a.mem (a.scrub ptr slab slot).mem := by
  have hw := hL.word_below_page (lt_of_lt_of_le hslot hL.words_cover)
  obtain ⟨h₀, h₁, h₂⟩ := scrub_range hL hslot hptr
  simp only [scrub]
  rw [clearLive_eq]
  exact ((offPage_memset 0 hs (by omega) h₂).trans (offPage_setField hs hw)).trans
    (offPage_setField hs live_below)

/-- The fields the scrub does not write read as before. -/
theorem field_scrub_of_ne {g : Field} (hg : g.Below a.layout.slotsOffset) (hl : g ≠ .live)
    (hword : g ≠ .word (slot / 64)) : field (a.scrub ptr slab slot).mem slab g = field a.mem slab g := by
  have hw := hL.word_below_page (lt_of_lt_of_le hslot hL.words_cover)
  have hgp : g.Below PAGE := le_trans hg hL.offset_le
  obtain ⟨h₀, h₁, h₂⟩ := scrub_range hL hslot hptr
  simp only [scrub]
  rw [field_setField_of_ne hs hs live_below hgp (.inr (Ne.symm hl)), clearLive_eq,
    field_setField_of_ne hs hs hw hgp (.inr (Ne.symm hword))]
  exact field_memset_of_slots 0 hs hg (by unfold PAGE at *; omega) (by unfold PAGE at *; omega)

theorem field_scrub_live :
    field (a.scrub ptr slab slot).mem slab .live = (field a.mem slab .live + 0xFFFFFFFF) % 0x100000000 := by
  have hw := hL.word_below_page (lt_of_lt_of_le hslot hL.words_cover)
  have hlb : Field.Below a.layout.slotsOffset .live := by
    have := hL.header_le
    unfold Field.Below
    simp only [Field.offset, Field.size, SLAB_BYTES] at *
    omega
  obtain ⟨h₀, h₁, h₂⟩ := scrub_range hL hslot hptr
  simp only [scrub]
  rw [field_setField_self, clearLive_eq, field_setField_of_ne hs hs hw live_below (.inr (by simp)),
    field_memset_of_slots 0 hs hlb (by unfold PAGE at *; omega) (by unfold PAGE at *; omega)]
  simp [Field.size]

theorem bit_scrub (j : Nat) (hj : (Field.word (j / 64)).Below a.layout.slotsOffset) :
    Bitmap.bit (words (a.scrub ptr slab slot).mem slab) j =
      (Bitmap.bit (words a.mem slab) j && !decide (j = slot)) := by
  have hw := hL.word_below_page (lt_of_lt_of_le hslot hL.words_cover)
  have hjp : (Field.word (j / 64)).Below PAGE := le_trans hj hL.offset_le
  obtain ⟨h₀, h₁, h₂⟩ := scrub_range hL hslot hptr
  have hword : words (a.scrub ptr slab slot).mem slab (j / 64) =
      words (clearLive (memset a.mem ptr 0 a.layout.slotSize) slab slot) slab (j / 64) :=
    field_setField_of_ne hs hs live_below hjp (.inr (by simp))
  have hbits : ∀ i, (Field.word (i / 64)).Below a.layout.slotsOffset →
      words (memset a.mem ptr 0 a.layout.slotSize) slab (i / 64) = words a.mem slab (i / 64) :=
    fun i hi => field_memset_of_slots 0 hs hi (by unfold PAGE at *; omega) (by unfold PAGE at *; omega)
  have hclear := @bit_clearLive (memset a.mem ptr 0 a.layout.slotSize) slab slot hs hw j hjp
  simp only [Bitmap.bit] at hclear ⊢
  rw [hword, hclear, hbits j hj]

/-- The scrubbed slot is zero. -/
theorem scrub_apply_of_mem {x : Nat} (h₁ : ptr ≤ x) (h₂ : x < ptr + a.layout.slotSize) :
    (a.scrub ptr slab slot).mem x = 0 := by
  have hlb : Field.Below a.layout.slotsOffset .live := by
    have := hL.header_le
    unfold Field.Below
    simp only [Field.offset, Field.size, SLAB_BYTES] at *
    omega
  obtain ⟨h₀, h₃, h₄⟩ := scrub_range hL hslot hptr
  have hx : a.layout.slotsOffset ≤ x % PAGE := by unfold PAGE at *; omega
  simp only [scrub]
  rw [setField_apply hs hlb hL.offset_le hx, clearLive_eq,
    setField_apply hs (hL.word_below (lt_of_lt_of_le hslot hL.words_cover)) hL.offset_le hx]
  exact memset_of_mem 0 h₁ h₂

omit hptr in
/-- Outside the scrubbed slot, the slot area reads as before. -/
theorem scrub_apply_of_not_mem {x : Nat} (hx : a.layout.slotsOffset ≤ x % PAGE)
    (hout : x < ptr ∨ ptr + a.layout.slotSize ≤ x) : (a.scrub ptr slab slot).mem x = a.mem x := by
  have hlb : Field.Below a.layout.slotsOffset .live := by
    have := hL.header_le
    unfold Field.Below
    simp only [Field.offset, Field.size, SLAB_BYTES] at *
    omega
  simp only [scrub]
  rw [setField_apply hs hlb hL.offset_le hx, clearLive_eq,
    setField_apply hs (hL.word_below (lt_of_lt_of_le hslot hL.words_cover)) hL.offset_le hx]
  exact memset_of_not_mem 0 hout

end Scrub

section Push

variable {a : Arena} {slab : Nat} (hs : slab % PAGE = 0) (hh : a.partialHead % PAGE = 0)
include hs hh

theorem linksOnly_pushPartial : LinksOnly a.mem (a.pushPartial slab).mem := by
  simp only [pushPartial]
  split_ifs
  · exact (linksOnly_setField hs (.inl rfl)).trans (linksOnly_setField hh (.inr rfl))
  · exact linksOnly_setField hs (.inl rfl)

/-- The links after the push: the slab's `next` at the old head, the old head's `prev` back at
the slab, every other field of every page as it was. -/
theorem field_pushPartial (hhlt : a.partialHead < 256 ^ 8) (hslt : slab < 256 ^ 8) {q : Nat} {g : Field}
    (hq : q % PAGE = 0) (hg : g.Below PAGE) :
    field (a.pushPartial slab).mem q g =
      if g = .next ∧ q = slab then a.partialHead
      else if g = .prev ∧ q = a.partialHead ∧ a.partialHead ≠ 0 then slab
      else field a.mem q g := by
  have hh' : a.partialHead % 18446744073709551616 = a.partialHead := Nat.mod_eq_of_lt hhlt
  have hs' : slab % 18446744073709551616 = slab := Nat.mod_eq_of_lt hslt
  unfold pushPartial
  dsimp only
  cases g <;> by_cases h0 : a.partialHead = 0 <;>
    simp [h0, field_setField, hq, hs, hh, hg, next_below, prev_below, Field.size, hh', hs']

end Push

end Arena

end Archipelago.Mm
