import Archipelago.Mm.ObjectArenaInvariant
import Archipelago.Mm.ObjectArenaLayout
import Archipelago.Lib.Run

/-! What the object arena promises its clients, over every run from construction: the
layout the constructor computes fits its page, and through every sequence of calls the
environment may make, live objects are aligned and apart, every other slot is zero, each
slab's count is its bitmap's popcount, the partial list is exactly the slabs with a free
slot, what `alloc` hands out is zero, and no call panics. -/

namespace Archipelago.Mm

open Archipelago.Lib

namespace ObjectArena

/-- The arena's contract in a world with layout `L` and alignment `align`. -/
structure World.Sound (L : Layout) (align : Nat) (w : World) : Prop where
  aligned : ∀ q ∈ w.live, q % align = 0
  apart : w.live.Pairwise fun q q' => q + L.slotSize ≤ q' ∨ q' + L.slotSize ≤ q
  zero : ∀ p ∈ w.pages, ∀ i < L.slotsPerSlab, L.slotAddr p i ∉ w.live →
    ∀ k < L.slotSize, w.arena.mem (L.slotAddr p i + k) = 0
  popcount : ∀ p ∈ w.pages, field w.arena.mem p .live = Bitmap.count (words w.arena.mem p) (L.bitmapWords * 64)
  partial_exact : ∃ xs, DChain (fun p => field w.arena.mem p .next) (fun p => field w.arena.mem p .prev) 0 0
      w.arena.partialHead xs ∧
    ∀ p, p ∈ xs ↔ p ∈ w.pages ∧ ∃ i < L.slotsPerSlab, Bitmap.bit (words w.arena.mem p) i = false
  hands_out_zero : ∀ fresh ptr, w.Allowed (.alloc fresh) → (w.step (.alloc fresh)).2 = .allocated ptr →
    ptr ≠ 0 → ptr % align = 0 ∧ ∀ k < L.slotSize, (w.step (.alloc fresh)).1.arena.mem (ptr + k) = 0

section Sound

variable {L : Layout} {align : Nat} {w : World}

/-- A live pointer is a slot of a page-aligned slab, so it is aligned when the slot offset,
the slot size and the page are. -/
theorem World.Slabs.live_aligned (h : w.Slabs L)
    (halign : L.slotsOffset % align = 0 ∧ L.slotSize % align = 0 ∧ PAGE % align = 0) {q : Nat}
    (hq : q ∈ w.live) : q % align = 0 := by
  obtain ⟨p, hp, i, hi, -, rfl⟩ := (h.live_iff q).1 hq
  obtain ⟨hoff, hsz, hpage⟩ := halign
  have hpd : align ∣ p :=
    Nat.dvd_trans (Nat.dvd_of_mod_eq_zero hpage) (Nat.dvd_of_mod_eq_zero (h.page_aligned p hp))
  unfold Layout.slotAddr
  exact Nat.mod_eq_zero_of_dvd
    (Nat.dvd_add (Nat.dvd_add hpd (Nat.dvd_of_mod_eq_zero hoff)) (Dvd.dvd.mul_left (Nat.dvd_of_mod_eq_zero hsz) i))

/-- Distinct live pointers are distinct slots, so their slots do not overlap. -/
theorem World.Slabs.live_apart (h : w.Slabs L) :
    w.live.Pairwise fun q q' => q + L.slotSize ≤ q' ∨ q' + L.slotSize ≤ q := by
  refine List.Pairwise.imp_of_mem (fun {q q'} hq hq' hne => ?_) h.live_nodup
  obtain ⟨p, hp, i, hi, -, rfl⟩ := (h.live_iff q).1 hq
  obtain ⟨p', hp', i', hi', -, rfl⟩ := (h.live_iff q').1 hq'
  refine h.fits.slot_disjoint (h.page_aligned p hp) (h.page_aligned p' hp') hi hi' ?_
  by_contra hc
  obtain ⟨rfl, rfl⟩ : p = p' ∧ i = i' := by tauto
  exact hne rfl

/-- A slot that is not live has its bit clear, so it is zero. -/
theorem World.Slabs.zero_of_not_live (h : w.Slabs L) {p i : Nat} (hp : p ∈ w.pages) (hi : i < L.slotsPerSlab)
    (hnl : L.slotAddr p i ∉ w.live) {k : Nat} (hk : k < L.slotSize) : w.arena.mem (L.slotAddr p i + k) = 0 := by
  refine (h.slab_ok p hp).zeroed i hi ?_ k hk
  cases hb : Bitmap.bit (words w.arena.mem p) i with
  | false => rfl
  | true => exact absurd ((h.live_iff _).2 ⟨p, hp, i, hi, hb, rfl⟩) hnl

theorem World.Inv.sound (hinv : w.Inv L)
    (halign : L.slotsOffset % align = 0 ∧ L.slotSize % align = 0 ∧ PAGE % align = 0) : w.Sound L align where
  aligned := fun _ hq => hinv.live_aligned halign hq
  apart := hinv.live_apart
  zero := fun _ hp _ hi hnl _ hk => hinv.zero_of_not_live hp hi hnl hk
  popcount := fun p hp => (hinv.slab_ok p hp).count
  partial_exact := by
    obtain ⟨xs, hd, hiff⟩ := hinv.partial_list
    refine ⟨xs, hd, fun p => ?_⟩
    rw [hiff p]
    exact and_congr_right fun hp => (hinv.slab_ok p hp).live_lt_iff hinv.fits
  hands_out_zero := fun fresh ptr hc hr h0 => by
    obtain ⟨ptr', hr', hinv', hout⟩ := hinv.alloc_spec hc
    rw [hr'] at hr
    cases hr
    obtain ⟨hmem, hzero⟩ := hout h0
    exact ⟨hinv'.live_aligned halign hmem, hzero⟩

end Sound

/-- The arena's contract, from the constructor through every run the environment allows. -/
theorem arena_runs_sound {objectSize align : Nat} {L : Layout} (hsize : objectSize < 0x10000000000000000)
    (hcreate : create objectSize align = some L) {addr : Nat} (haddr : addr < 0x10000000000000000)
    (mem : Nat → UInt8) (calls : List Call)
    (hok : Guarded World.step World.Allowed (World.boot L addr mem) calls) :
    (SLAB_BYTES + L.bitmapWords * 8 ≤ L.slotsOffset ∧ L.slotsOffset % align = 0 ∧
      L.slotsOffset + L.slotsPerSlab * L.slotSize ≤ PAGE ∧ L.slotsPerSlab ≤ L.bitmapWords * 64) ∧
    (run World.step (World.boot L addr mem) calls).1.Sound L align ∧
    ∀ r ∈ (run World.step (World.boot L addr mem) calls).2, r ≠ .panicked := by
  obtain ⟨hL, hoff, hsz, hpage⟩ := create_layout hsize hcreate
  have hboot := inv_boot hL haddr mem
  have hinv := run_invariant_guarded World.Allowed (World.Inv L) (fun _ _ hc hs => hs.step hc) hboot calls hok
  refine ⟨⟨hL.header_le, hoff, hL.fits, hL.words_cover⟩, hinv.sound ⟨hoff, hsz, hpage⟩, ?_⟩
  exact run_outputs_guarded World.Allowed (World.Inv L) (· ≠ .panicked) (fun _ _ hc hs => hs.step hc)
    (fun _ _ hc hs => hs.step_ne_panicked hc) hboot calls hok

/-- Eight-byte objects at eight-byte alignment: 500 slots after a 96-byte header, and a first
`alloc` that takes a fresh page. -/
theorem arena_runs_sound_first_alloc :
    create 8 8 = some ⟨8, 8, 500, 8, 96⟩ ∧
      Guarded World.step World.Allowed (World.boot ⟨8, 8, 500, 8, 96⟩ 0x1000 fun _ => 0) [.alloc 0x2000] ∧
      ((SLAB_BYTES + 8 * 8 ≤ 96 ∧ 96 % 8 = 0 ∧ 96 + 500 * 8 ≤ PAGE ∧ 500 ≤ 8 * 64) ∧
        (run World.step (World.boot ⟨8, 8, 500, 8, 96⟩ 0x1000 fun _ => 0) [.alloc 0x2000]).1.Sound
          ⟨8, 8, 500, 8, 96⟩ 8 ∧
        ∀ r ∈ (run World.step (World.boot ⟨8, 8, 500, 8, 96⟩ 0x1000 fun _ => 0) [.alloc 0x2000]).2,
          r ≠ .panicked) := by
  have hcreate : create 8 8 = some ⟨8, 8, 500, 8, 96⟩ := by decide
  have hok : Guarded World.step World.Allowed (World.boot ⟨8, 8, 500, 8, 96⟩ 0x1000 fun _ => 0) [.alloc 0x2000] :=
    ⟨.inr ⟨by decide, by simp [World.boot], by decide⟩, trivial⟩
  exact ⟨hcreate, hok, arena_runs_sound (by decide) hcreate (by decide) _ _ hok⟩

end ObjectArena

end Archipelago.Mm
