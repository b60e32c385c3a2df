import Archipelago.Mm.ObjectArenaSpec

/-! The object arena's invariant over the world of its clients and its page source: every
held page is a well-kept slab, the live pointers are exactly the set bits, the partial list
is exactly the slabs with a free slot, and every held slab has a live slot. Each call the
environment may make keeps it, and none of them panics. -/

namespace Archipelago.Mm

open Archipelago.Lib

namespace ObjectArena

/-- What a slab keeps in its page: its magic and owner, a live count equal to its bitmap's
popcount, no bit set past the last real slot, and zeros in every slot whose bit is clear. -/
structure SlabOk (L : Layout) (arena : Nat) (mem : Nat → UInt8) (p : Nat) : Prop where
  magic : field mem p .magic = ARENA_MAGIC
  owner : field mem p .owner = arena
  count : field mem p .live = Bitmap.count (words mem p) (L.bitmapWords * 64)
  trailing : ∀ i, L.slotsPerSlab ≤ i → i < L.bitmapWords * 64 → Bitmap.bit (words mem p) i = false
  zeroed : ∀ i < L.slotsPerSlab, Bitmap.bit (words mem p) i = false →
    ∀ k < L.slotSize, mem (L.slotAddr p i + k) = 0

section SlabFrame

variable {L : Layout} {arena : Nat} {mem mem' : Nat → UInt8} {p : Nat}

/-- A slab stays well kept when its header, its bitmap and its clear slots read as before. -/
theorem SlabOk.congr (h : SlabOk L arena mem p) (hL : L.Fits)
    (hfield : ∀ g : Field, g.Below L.slotsOffset → g ≠ .next → g ≠ .prev → field mem' p g = field mem p g)
    (hbytes : ∀ i < L.slotsPerSlab, Bitmap.bit (words mem p) i = false →
      ∀ k < L.slotSize, mem' (L.slotAddr p i + k) = mem (L.slotAddr p i + k)) :
    SlabOk L arena mem' p := by
  have below : ∀ f : Field, f = .magic ∨ f = .live ∨ f = .owner → f.Below L.slotsOffset := by
    have := hL.header_le
    rintro f (rfl | rfl | rfl) <;> simp only [Field.Below, Field.offset, Field.size, SLAB_BYTES] at * <;> omega
  have hbits : ∀ i < L.bitmapWords * 64, Bitmap.bit (words mem' p) i = Bitmap.bit (words mem p) i := by
    intro i hi
    simp only [Bitmap.bit, words]
    rw [hfield _ (hL.word_below hi) (by simp) (by simp)]
  refine ⟨?_, ?_, ?_, fun i h₁ h₂ => ?_, fun i hi hclear k hk => ?_⟩
  · rw [hfield .magic (below _ (.inl rfl)) (by simp) (by simp)]
    exact h.magic
  · rw [hfield .owner (below _ (.inr (.inr rfl))) (by simp) (by simp)]
    exact h.owner
  · rw [hfield .live (below _ (.inr (.inl rfl))) (by simp) (by simp), h.count]
    exact countP_range_congr fun i hi => (hbits i hi).symm
  · rw [hbits i h₂]
    exact h.trailing i h₁ h₂
  · have hi' : i < L.bitmapWords * 64 := lt_of_lt_of_le hi hL.words_cover
    rw [hbits i hi'] at hclear
    rw [hbytes i hi hclear k hk]
    exact h.zeroed i hi hclear k hk

theorem SlabOk.of_linksOnly (h : SlabOk L arena mem p) (hL : L.Fits) (hp : p % PAGE = 0)
    (hm : LinksOnly mem mem') : SlabOk L arena mem' p :=
  h.congr hL (fun g hg hn hpr => hm.field hp (le_trans hg hL.offset_le) hn hpr) fun i hi _ k hk => by
    have := hL.slot_mod hp hi hk
    have := hL.header_le
    exact hm _ (.inr (by simp only [SLAB_BYTES] at *; omega))

theorem SlabOk.of_offPage {q : Nat} (h : SlabOk L arena mem p) (hL : L.Fits) (hp : p % PAGE = 0)
    (hq : q % PAGE = 0) (hpq : p ≠ q) (hm : OffPage q mem mem') : SlabOk L arena mem' p :=
  h.congr hL (fun g hg _ _ => hm.field hp hq hpq (le_trans hg hL.offset_le)) fun i hi _ k hk => by
    have := (hL.slot_mod hp hi hk).2
    exact hm _ (by unfold PAGE at *; omega)

/-- A slab's live count stays far below where its `uint32_t` would wrap. -/
theorem SlabOk.live_small (h : SlabOk L arena mem p) (hL : L.Fits) : field mem p .live + 1 < 256 ^ 4 := by
  have hle : Bitmap.count (words mem p) (L.bitmapWords * 64) ≤ L.bitmapWords * 64 := by
    simpa [Bitmap.count] using List.countP_le_length (p := Bitmap.bit (words mem p))
      (l := List.range (L.bitmapWords * 64))
  have := hL.header_le
  have := hL.offset_le
  rw [h.count]
  simp only [SLAB_BYTES, PAGE] at *
  omega

/-- A slab's count falls short of the slots exactly when a real slot is clear. -/
theorem SlabOk.live_lt_iff (h : SlabOk L arena mem p) (hL : L.Fits) :
    field mem p .live < L.slotsPerSlab ↔ ∃ i < L.slotsPerSlab, Bitmap.bit (words mem p) i = false := by
  rw [h.count, Bitmap.count, countP_range_of_clear hL.words_cover h.trailing]
  exact countP_range_lt_iff

theorem SlabOk.exists_clear (h : SlabOk L arena mem p) (hL : L.Fits) (hlt : field mem p .live < L.slotsPerSlab) :
    ∃ i < L.slotsPerSlab, Bitmap.bit (words mem p) i = false :=
  (h.live_lt_iff hL).1 hlt

/-- A slab's count is at most its real slots. -/
theorem SlabOk.live_le (h : SlabOk L arena mem p) (hL : L.Fits) : field mem p .live ≤ L.slotsPerSlab := by
  rw [h.count, Bitmap.count, countP_range_of_clear hL.words_cover h.trailing]
  simpa using List.countP_le_length (p := Bitmap.bit (words mem p)) (l := List.range L.slotsPerSlab)

/-- A slab with a set bit has a positive count. -/
theorem SlabOk.live_pos_of_bit (h : SlabOk L arena mem p) (hL : L.Fits) {i : Nat} (hi : i < L.slotsPerSlab)
    (hset : Bitmap.bit (words mem p) i = true) : 0 < field mem p .live := by
  rw [h.count, Bitmap.count]
  exact List.countP_pos_iff.2 ⟨i, List.mem_range.2 (lt_of_lt_of_le hi hL.words_cover), hset⟩

/-- A slab with a zero count has every bit clear. -/
theorem SlabOk.bit_of_live_zero (h : SlabOk L arena mem p) (hzero : field mem p .live = 0) {i : Nat}
    (hi : i < L.bitmapWords * 64) : Bitmap.bit (words mem p) i = false := by
  rw [h.count, Bitmap.count, List.countP_eq_zero] at hzero
  simpa using hzero i (List.mem_range.2 hi)

end SlabFrame

/-- The slabs and the two ledgers in a world with layout `L`: the pages the arena holds are
distinct, page-aligned, nonzero and inside the address space, each is a well-kept slab, and
the live pointers are exactly the slots whose bit is set, each once. -/
structure World.Slabs (L : Layout) (w : World) : Prop where
  layout : w.arena.layout = L
  fits : L.Fits
  addr_lt : w.arena.addr < 0x10000000000000000
  pages_nodup : w.pages.Nodup
  page_aligned : ∀ p ∈ w.pages, p % PAGE = 0
  page_pos : ∀ p ∈ w.pages, 0 < p
  page_lt : ∀ p ∈ w.pages, p + PAGE ≤ 0x10000000000000000
  slab_ok : ∀ p ∈ w.pages, SlabOk L w.arena.addr w.arena.mem p
  live_iff : ∀ q, q ∈ w.live ↔
    ∃ p ∈ w.pages, ∃ i < L.slotsPerSlab, Bitmap.bit (words w.arena.mem p) i = true ∧ q = L.slotAddr p i
  live_nodup : w.live.Nodup
  slab_count : w.arena.slabCount = w.pages.length
  live_count : w.arena.live = w.live.length

/-- The partial list: doubly linked from `m_partial` through exactly the slabs with a free
slot, and a full slab's links null. -/
structure World.Links (L : Layout) (w : World) : Prop where
  partial_list : ∃ xs, DChain (fun p => field w.arena.mem p .next) (fun p => field w.arena.mem p .prev) 0 0
      w.arena.partialHead xs ∧ ∀ p, p ∈ xs ↔ p ∈ w.pages ∧ field w.arena.mem p .live < L.slotsPerSlab
  unlinked : ∀ p ∈ w.pages, field w.arena.mem p .live = L.slotsPerSlab →
    field w.arena.mem p .next = 0 ∧ field w.arena.mem p .prev = 0

/-- The arena's invariant: every slab it holds has a live slot, since an empty one goes back
to the page source. -/
structure World.Inv (L : Layout) (w : World) : Prop extends World.Slabs L w, World.Links L w where
  live_pos : ∀ p ∈ w.pages, 0 < field w.arena.mem p .live

theorem inv_boot {L : Layout} (hL : L.Fits) {addr : Nat} (haddr : addr < 0x10000000000000000)
    (mem : Nat → UInt8) : (World.boot L addr mem).Inv L where
  layout := rfl
  fits := hL
  addr_lt := haddr
  pages_nodup := List.nodup_nil
  page_aligned := by simp [World.boot]
  page_pos := by simp [World.boot]
  page_lt := by simp [World.boot]
  slab_ok := by simp [World.boot]
  live_iff := by simp [World.boot]
  live_nodup := List.nodup_nil
  slab_count := rfl
  live_count := rfl
  partial_list := ⟨[], rfl, by simp [World.boot]⟩
  unlinked := by simp [World.boot]
  live_pos := by simp [World.boot]

/-- Link stores keep the slabs and the ledgers. -/
theorem World.Slabs.of_linksOnly {L : Layout} {w w' : World} (h : w.Slabs L) (hpages : w'.pages = w.pages)
    (hlive : w'.live = w.live) (hlayout : w'.arena.layout = w.arena.layout) (haddr : w'.arena.addr = w.arena.addr)
    (hcount : w'.arena.slabCount = w.arena.slabCount) (hlc : w'.arena.live = w.arena.live)
    (hm : LinksOnly w.arena.mem w'.arena.mem) : w'.Slabs L := by
  have hbits : ∀ p ∈ w.pages, ∀ i < L.bitmapWords * 64,
      Bitmap.bit (words w'.arena.mem p) i = Bitmap.bit (words w.arena.mem p) i := by
    intro p hp i hi
    simp only [Bitmap.bit, words]
    rw [hm.field (h.page_aligned p hp) (h.fits.word_below_page hi) (by simp) (by simp)]
  refine ⟨hlayout.trans h.layout, h.fits, haddr ▸ h.addr_lt, hpages ▸ h.pages_nodup,
    hpages ▸ h.page_aligned, hpages ▸ h.page_pos, hpages ▸ h.page_lt, fun p hp => ?_, fun q => ?_,
    hlive ▸ h.live_nodup, by rw [hcount, h.slab_count, hpages], by rw [hlc, h.live_count, hlive]⟩
  · rw [hpages] at hp
    rw [haddr]
    exact (h.slab_ok p hp).of_linksOnly h.fits (h.page_aligned p hp) hm
  · rw [hlive, hpages, h.live_iff]
    refine exists_congr fun p => and_congr_right fun hp => exists_congr fun i => and_congr_right fun hi => ?_
    rw [hbits p hp i (lt_of_lt_of_le hi h.fits.words_cover)]

section PartialList

/-- Unlinking a member of the partial list, as `unlink_partial` does, leaves the list without
it. -/
theorem unlinkPartial_dchain {a : Arena} {xs : List Nat} {x : Nat}
    (hd : DChain (fun p => field a.mem p .next) (fun p => field a.mem p .prev) 0 0 a.partialHead xs)
    (hal : ∀ p ∈ xs, p % PAGE = 0) (hx : x ∈ xs) :
    DChain (fun p => field (a.unlinkPartial x).mem p .next) (fun p => field (a.unlinkPartial x).mem p .prev)
      0 0 (a.unlinkPartial x).partialHead (xs.erase x) := by
  have hnd := hd.nodup
  have hx0 : x ≠ 0 := fun e => hd.not_mem_nil (e ▸ hx)
  have hs := hal x hx
  -- the neighbours of `x` are nodes of the list or null: page-aligned, and not `x`
  have hP : field a.mem x .prev % PAGE = 0 ∧ field a.mem x .prev ≠ x := by
    rcases hd.prev_mem hx with h0 | ⟨hm, hne⟩
    · exact ⟨by simp [h0], by simpa [h0] using hx0.symm⟩
    · exact ⟨hal _ hm, hne⟩
  have hN : field a.mem x .next % PAGE = 0 := by
    rcases hd.next_mem hx with h0 | ⟨hm, -⟩
    · simp [h0]
    · exact hal _ hm
  obtain ⟨pre, post, rfl⟩ := List.append_of_mem hx
  have hrest : x ∉ pre ++ post := (List.nodup_cons.1 (List.nodup_middle.1 hnd)).1
  have herase : (pre ++ x :: post).erase x = pre ++ post := by
    rw [List.erase_append_right _ (fun h => hrest (List.mem_append_left _ h)), List.erase_cons_head]
  have hmem : ∀ y ∈ pre ++ post, y ∈ pre ++ x :: post := fun y hy => by
    rcases List.mem_append.1 hy with h | h
    · exact List.mem_append_left _ h
    · exact List.mem_append_right _ (List.mem_cons_of_mem _ h)
  rw [herase, Arena.partialHead_unlinkPartial hs hP.1 hN hP.2]
  refine hd.unlink hd.not_mem_nil (fun y hy => ?_) (fun y hy => ?_)
  · have hyx : y ≠ x := fun e => hrest (e ▸ hy)
    have hy0 : y ≠ 0 := fun e => hd.not_mem_nil (e ▸ hmem y hy)
    have hy := hal y (hmem y hy)
    rw [Arena.field_unlinkPartial hs hy next_below, if_neg (by simp [hyx]),
      field_bypass hs hP.1 hN hP.2 hy next_below]
    by_cases hyP : y = field a.mem x .prev
    · rw [if_pos ⟨rfl, hyP, hyP ▸ hy0⟩, if_pos hyP]
    · rw [if_neg (fun h => hyP h.2.1), if_neg (by simp), if_neg hyP]
  · have hyx : y ≠ x := fun e => hrest (e ▸ hy)
    have hy0 : y ≠ 0 := fun e => hd.not_mem_nil (e ▸ hmem y hy)
    have hy := hal y (hmem y hy)
    rw [Arena.field_unlinkPartial hs hy prev_below, if_neg (by simp [hyx]),
      field_bypass hs hP.1 hN hP.2 hy prev_below]
    by_cases hyN : y = field a.mem x .next
    · rw [if_neg (by simp), if_pos ⟨rfl, hyN, hyN ▸ hy0⟩, if_pos hyN]
    · rw [if_neg (by simp), if_neg (fun h => hyN h.2.1), if_neg hyN]

/-- A page off the partial list keeps its links when a member is unlinked. -/
theorem unlinkPartial_links_of_not_mem {a : Arena} {xs : List Nat} {x p : Nat}
    (hd : DChain (fun p => field a.mem p .next) (fun p => field a.mem p .prev) 0 0 a.partialHead xs)
    (hal : ∀ p ∈ xs, p % PAGE = 0) (hx : x ∈ xs) (hp : p % PAGE = 0) (hp0 : p ≠ 0) (hpx : p ∉ xs) :
    field (a.unlinkPartial x).mem p .next = field a.mem p .next ∧
      field (a.unlinkPartial x).mem p .prev = field a.mem p .prev := by
  have hs := hal x hx
  have hx0 : x ≠ 0 := fun e => hd.not_mem_nil (e ▸ hx)
  have hpx' : p ≠ x := fun e => hpx (e ▸ hx)
  -- the neighbours of `x` are null or on the list, so neither is `p`
  have hP : field a.mem x .prev % PAGE = 0 ∧ field a.mem x .prev ≠ x ∧ p ≠ field a.mem x .prev := by
    rcases hd.prev_mem hx with h0 | ⟨hm, hne⟩
    · exact ⟨by simp [h0], by simpa [h0] using hx0.symm, by simpa [h0] using hp0⟩
    · exact ⟨hal _ hm, hne, fun e => hpx (e ▸ hm)⟩
  have hN : field a.mem x .next % PAGE = 0 ∧ p ≠ field a.mem x .next := by
    rcases hd.next_mem hx with h0 | ⟨hm, -⟩
    · exact ⟨by simp [h0], by simpa [h0] using hp0⟩
    · exact ⟨hal _ hm, fun e => hpx (e ▸ hm)⟩
  constructor
  · rw [Arena.field_unlinkPartial hs hp next_below, if_neg (by simp [hpx']),
      field_bypass hs hP.1 hN.1 hP.2.1 hp next_below, if_neg (fun h => hP.2.2 h.2.1), if_neg (by simp)]
  · rw [Arena.field_unlinkPartial hs hp prev_below, if_neg (by simp [hpx']),
      field_bypass hs hP.1 hN.1 hP.2.1 hp prev_below, if_neg (by simp), if_neg (fun h => hN.2 h.2.1)]

/-- Unlinking a slab that is off the list and has null links leaves the list as it is. -/
theorem unlinkPartial_dchain_of_null {a : Arena} {xs : List Nat} {x : Nat}
    (hd : DChain (fun p => field a.mem p .next) (fun p => field a.mem p .prev) 0 0 a.partialHead xs)
    (hal : ∀ p ∈ xs, p % PAGE = 0) (hs : x % PAGE = 0) (hx0 : x ≠ 0) (hx : x ∉ xs)
    (hn : field a.mem x .next = 0) (hp : field a.mem x .prev = 0) :
    DChain (fun p => field (a.unlinkPartial x).mem p .next) (fun p => field (a.unlinkPartial x).mem p .prev)
      0 0 (a.unlinkPartial x).partialHead xs := by
  have hhead : a.partialHead ≠ x := fun e => by
    rcases eq_or_ne a.partialHead 0 with h0 | h0
    · exact hx0 (e ▸ h0)
    · exact hx (e ▸ hd.chain.head_mem h0)
  rw [Arena.partialHead_unlinkPartial hs (by simp [hp]) (by simp [hn]) (by rw [hp]; exact Ne.symm hx0),
    if_neg hhead]
  exact hd.frame
    (fun y hy => Arena.field_unlinkPartial_of_null hs hx0 hn hp (hal y hy) next_below fun e => hx (e ▸ hy))
    (fun y hy => Arena.field_unlinkPartial_of_null hs hx0 hn hp (hal y hy) prev_below fun e => hx (e ▸ hy))

end PartialList

section Take

variable {L : Layout} {w : World} {slab j : Nat}

theorem World.Slabs.bit_mark (h : w.Slabs L) (hslab : slab ∈ w.pages) (hj : j < L.slotsPerSlab) {p i : Nat}
    (hp : p ∈ w.pages) (hi : i < L.bitmapWords * 64) :
    Bitmap.bit (words (w.arena.mark slab j).mem p) i =
      (Bitmap.bit (words w.arena.mem p) i || decide (p = slab ∧ i = j)) := by
  have hj' : j < L.bitmapWords * 64 := lt_of_lt_of_le hj h.fits.words_cover
  by_cases hps : p = slab
  · subst hps
    rw [Arena.bit_mark (h.page_aligned p hp) (h.fits.word_below_page hj') i (h.fits.word_below_page hi)]
    simp
  · have hword : words (w.arena.mark slab j).mem p (i / 64) = words w.arena.mem p (i / 64) :=
      (Arena.offPage_mark (h.page_aligned slab hslab) (h.fits.word_below_page hj')).field
        (h.page_aligned p hp) (h.page_aligned slab hslab) hps (h.fits.word_below_page hi)
    simp only [Bitmap.bit, hword, hps, false_and, decide_false, Bool.or_false]

/-- `take_slot`'s bookkeeping at a clear real slot keeps its slab well kept. -/
theorem SlabOk.mark {a : Arena} (hok : SlabOk L a.addr a.mem slab) (hL : L.Fits) (hs : slab % PAGE = 0)
    (hj : j < L.slotsPerSlab) (hclear : Bitmap.bit (words a.mem slab) j = false) :
    SlabOk L a.addr (a.mark slab j).mem slab := by
  have hj' : j < L.bitmapWords * 64 := lt_of_lt_of_le hj hL.words_cover
  have hw := hL.word_below_page hj'
  have hbit : ∀ i < L.bitmapWords * 64, Bitmap.bit (words (a.mark slab j).mem slab) i =
      (Bitmap.bit (words a.mem slab) i || decide (i = j)) :=
    fun i hi => Arena.bit_mark hs hw i (hL.word_below_page hi)
  have hsmall := hok.live_small hL
  refine ⟨?_, ?_, ?_, fun i h₁ h₂ => ?_, fun i hi hfree k hk => ?_⟩
  · rw [Arena.field_mark_of_ne hs hw (by unfold Field.Below; decide) (by simp) (by simp)]
    exact hok.magic
  · rw [Arena.field_mark_of_ne hs hw (by unfold Field.Below; decide) (by simp) (by simp)]
    exact hok.owner
  · rw [Arena.field_mark_live hs hw, Nat.mod_eq_of_lt hsmall, hok.count, Bitmap.count, Bitmap.count]
    exact (countP_range_flip hclear (by rw [hbit j hj']; simp) hj'
      fun i hi hij => by rw [hbit i hi]; simp [hij]).symm
  · rw [hbit i h₂, hok.trailing i h₁ h₂]
    simp only [Bool.false_or, decide_eq_false_iff_not]
    omega
  · have hi' : i < L.bitmapWords * 64 := lt_of_lt_of_le hi hL.words_cover
    rw [hbit i hi', Bool.or_eq_false_iff] at hfree
    have hslot := hL.slot_mod hs hi hk
    have := hL.header_le
    rw [Arena.mark_apply hs hL.offset_le (n := L.slotsOffset) ?_ (hL.word_below hj') (by omega)]
    · exact hok.zeroed i hi hfree.1 k hk
    · unfold Field.Below
      simp only [Field.offset, Field.size, SLAB_BYTES] at *
      omega

/-- `take_slot`'s bookkeeping at a clear real slot of a held slab keeps the slabs and the
ledgers, with the slot's address live. -/
theorem World.Slabs.mark (h : w.Slabs L) (hslab : slab ∈ w.pages) (hj : j < L.slotsPerSlab)
    (hclear : Bitmap.bit (words w.arena.mem slab) j = false) :
    World.Slabs L ⟨w.arena.mark slab j, w.pages, L.slotAddr slab j :: w.live⟩ := by
  have hL := h.fits
  have hs := h.page_aligned slab hslab
  have hw := hL.word_below_page (lt_of_lt_of_le hj hL.words_cover)
  refine { h with slab_ok := fun p hp => ?_, live_iff := fun q => ?_, live_nodup := ?_,
                  live_count := by simp [h.live_count] }
  · by_cases hps : p = slab
    · subst hps
      exact (h.slab_ok p hp).mark hL hs hj hclear
    · exact (h.slab_ok p hp).of_offPage hL (h.page_aligned p hp) hs hps (Arena.offPage_mark hs hw)
  · -- a slot is live after the step when it was before or is the one just taken
    constructor
    · intro hq
      rcases List.mem_cons.1 hq with rfl | hq
      · exact ⟨slab, hslab, j, hj, by rw [h.bit_mark hslab hj hslab (lt_of_lt_of_le hj hL.words_cover)]; simp, rfl⟩
      · obtain ⟨p, hp, i, hi, hbit, rfl⟩ := (h.live_iff _).1 hq
        refine ⟨p, hp, i, hi, ?_, rfl⟩
        rw [h.bit_mark hslab hj hp (lt_of_lt_of_le hi hL.words_cover), hbit]
        rfl
    · rintro ⟨p, hp, i, hi, hbit, rfl⟩
      rw [h.bit_mark hslab hj hp (lt_of_lt_of_le hi hL.words_cover), Bool.or_eq_true] at hbit
      rcases hbit with hbit | hbit
      · exact List.mem_cons_of_mem _ ((h.live_iff _).2 ⟨p, hp, i, hi, hbit, rfl⟩)
      · obtain ⟨rfl, rfl⟩ := of_decide_eq_true hbit
        exact List.mem_cons_self
  · -- the slot taken was clear, so its address was not live
    refine List.nodup_cons.2 ⟨fun hmem => ?_, h.live_nodup⟩
    obtain ⟨p, hp, i, hi, hbit, heq⟩ := (h.live_iff _).1 hmem
    obtain ⟨rfl, rfl⟩ := hL.slotAddr_inj hs (h.page_aligned p hp) hj hi heq
    rw [hclear] at hbit
    exact absurd hbit (by simp)

theorem World.Slabs.link_mark (h : w.Slabs L) (hslab : slab ∈ w.pages) (hj : j < L.slotsPerSlab) {p : Nat}
    (hp : p % PAGE = 0) {g : Field} (hg : g = .next ∨ g = .prev) :
    field (w.arena.mark slab j).mem p g = field w.arena.mem p g := by
  have hs := h.page_aligned slab hslab
  have hw := h.fits.word_below_page (lt_of_lt_of_le hj h.fits.words_cover)
  have hgb : g.Below PAGE := by rcases hg with rfl | rfl <;> unfold Field.Below <;> decide
  by_cases hps : p = slab
  · subst hps
    exact Arena.field_mark_of_ne hs hw hgb (by rcases hg with rfl | rfl <;> simp) (by rcases hg with rfl | rfl <;> simp)
  · exact (Arena.offPage_mark hs hw).field hp hs hps hgb

theorem World.Slabs.live_mark (h : w.Slabs L) (hslab : slab ∈ w.pages) (hj : j < L.slotsPerSlab) {p : Nat}
    (hp : p % PAGE = 0) :
    field (w.arena.mark slab j).mem p .live = if p = slab then field w.arena.mem p .live + 1
      else field w.arena.mem p .live := by
  have hs := h.page_aligned slab hslab
  have hw := h.fits.word_below_page (lt_of_lt_of_le hj h.fits.words_cover)
  split_ifs with hps
  · subst hps
    rw [Arena.field_mark_live hs hw, Nat.mod_eq_of_lt ((h.slab_ok p hslab).live_small h.fits)]
  · exact (Arena.offPage_mark hs hw).field hp hs hps live_below

/-- The head of a nonempty partial list is a held slab with a free slot. -/
theorem World.Links.head_mem (hl : w.Links L) (hhead : w.arena.partialHead ≠ 0) :
    w.arena.partialHead ∈ w.pages ∧ field w.arena.mem w.arena.partialHead .live < L.slotsPerSlab := by
  obtain ⟨xs, hd, hiff⟩ := hl.partial_list
  exact (hiff _).1 (hd.chain.head_mem hhead)

/-- `take_slot`'s loop finds a clear real slot in every held slab with a free one. -/
theorem World.Slabs.findSlot_some (h : w.Slabs L) (hslab : slab ∈ w.pages)
    (hlt : field w.arena.mem slab .live < L.slotsPerSlab) :
    ∃ j, findSlot w.arena.mem slab L.slotsPerSlab 0 L.bitmapWords = some j ∧ j < L.slotsPerSlab ∧
      Bitmap.bit (words w.arena.mem slab) j = false := by
  obtain ⟨i, hi, hclear⟩ := (h.slab_ok slab hslab).exists_clear h.fits hlt
  have := h.fits.words_cover
  exact findSlot_spec L.bitmapWords 0 (by simp) ⟨i, hi, by omega, hclear⟩

/-- The neighbours of a slab on the partial list are null or held slabs, so page-aligned,
and not the slab itself. -/
theorem World.Links.neighbours (hl : w.Links L) (h : w.Slabs L) {x : Nat} (hx : x ∈ w.pages)
    (hlt : field w.arena.mem x .live < L.slotsPerSlab) :
    field w.arena.mem x .prev % PAGE = 0 ∧ field w.arena.mem x .next % PAGE = 0 ∧
      field w.arena.mem x .prev ≠ x := by
  obtain ⟨xs, hd, hiff⟩ := hl.partial_list
  have hxs := (hiff x).2 ⟨hx, hlt⟩
  have hal : ∀ p ∈ xs, p % PAGE = 0 := fun p hp => h.page_aligned p ((hiff p).1 hp).1
  have hx0 := h.page_pos x hx
  refine ⟨?_, ?_, ?_⟩
  · rcases hd.prev_mem hxs with h0 | ⟨hm, -⟩
    · simp [h0]
    · exact hal _ hm
  · rcases hd.next_mem hxs with h0 | ⟨hm, -⟩
    · simp [h0]
    · exact hal _ hm
  · rcases hd.prev_mem hxs with h0 | ⟨-, hne⟩
    · rw [h0]
      omega
    · exact hne

/-- `take_slot` after its bookkeeping only writes links. -/
theorem World.Slabs.linksOnly_afterTake (h : w.Slabs L) (hl : w.Links L) (hslab : slab ∈ w.pages)
    (hlt : field w.arena.mem slab .live < L.slotsPerSlab) (hj : j < L.slotsPerSlab) :
    LinksOnly (w.arena.mark slab j).mem (w.arena.afterTake slab j).mem := by
  obtain ⟨hP, hN, hPs⟩ := hl.neighbours h hslab hlt
  unfold Arena.afterTake
  split_ifs
  · refine @Arena.linksOnly_unlinkPartial (w.arena.mark slab j) slab (h.page_aligned slab hslab) ?_ ?_ ?_
    · rw [h.link_mark hslab hj (h.page_aligned slab hslab) (.inr rfl)]
      exact hP
    · rw [h.link_mark hslab hj (h.page_aligned slab hslab) (.inl rfl)]
      exact hN
    · rw [h.link_mark hslab hj (h.page_aligned slab hslab) (.inr rfl)]
      exact hPs
  · exact LinksOnly.refl _

theorem World.Slabs.take (h : w.Slabs L) (hl : w.Links L) (hslab : slab ∈ w.pages)
    (hlt : field w.arena.mem slab .live < L.slotsPerSlab) (hj : j < L.slotsPerSlab)
    (hclear : Bitmap.bit (words w.arena.mem slab) j = false) :
    World.Slabs L ⟨w.arena.afterTake slab j, w.pages, L.slotAddr slab j :: w.live⟩ := by
  have hmark := h.mark hslab hj hclear
  refine hmark.of_linksOnly rfl rfl ?_ ?_ ?_ ?_ (h.linksOnly_afterTake hl hslab hlt hj) <;>
    unfold Arena.afterTake <;> split_ifs <;> rfl

/-- The partial list after `take_slot`: the slab leaves it exactly when its last free slot was
taken, and a slab that becomes full has null links. -/
theorem World.Links.take (hl : w.Links L) (h : w.Slabs L) (hslab : slab ∈ w.pages)
    (hlt : field w.arena.mem slab .live < L.slotsPerSlab) (hj : j < L.slotsPerSlab) (ptrs : List Nat) :
    World.Links L ⟨w.arena.afterTake slab j, w.pages, ptrs⟩ := by
  obtain ⟨xs, hd, hiff⟩ := hl.partial_list
  have hs := h.page_aligned slab hslab
  have hxs := (hiff slab).2 ⟨hslab, hlt⟩
  have hal : ∀ p ∈ xs, p % PAGE = 0 := fun p hp => h.page_aligned p ((hiff p).1 hp).1
  have hlive := fun {p} (hp : p ∈ w.pages) => h.live_mark hslab hj (h.page_aligned p hp)
  -- the bookkeeping writes no link, so the list reads the same through the marked memory
  have hd' : DChain (fun p => field (w.arena.mark slab j).mem p .next)
      (fun p => field (w.arena.mark slab j).mem p .prev) 0 0 (w.arena.mark slab j).partialHead xs :=
    hd.frame (fun p hp => h.link_mark hslab hj (hal p hp) (.inl rfl))
      (fun p hp => h.link_mark hslab hj (hal p hp) (.inr rfl))
  have hkeep := h.linksOnly_afterTake hl hslab hlt hj
  have hlive' : ∀ p ∈ w.pages, field (w.arena.afterTake slab j).mem p .live =
      field (w.arena.mark slab j).mem p .live := fun p hp =>
    hkeep.field (h.page_aligned p hp) live_below (by simp) (by simp)
  by_cases hfull : field (w.arena.mark slab j).mem slab .live = L.slotsPerSlab
  · -- the last free slot: `unlink_partial` takes the slab off the list
    have hA : w.arena.afterTake slab j = (w.arena.mark slab j).unlinkPartial slab := by
      rw [Arena.afterTake, if_pos (by rw [h.layout]; exact hfull)]
    refine ⟨⟨xs.erase slab, ?_, fun p => ?_⟩, fun p hp hpfull => ?_⟩
    · rw [hA]
      exact unlinkPartial_dchain hd' hal hxs
    · rw [hd.nodup.mem_erase_iff]
      constructor
      · rintro ⟨hps, hpx⟩
        obtain ⟨hpp, hplt⟩ := (hiff p).1 hpx
        refine ⟨hpp, ?_⟩
        rw [hlive' p hpp, hlive hpp, if_neg hps]
        exact hplt
      · rintro ⟨hpp, hplt⟩
        rw [hlive' p hpp, hlive hpp] at hplt
        by_cases hps : p = slab
        · subst hps
          rw [if_pos rfl] at hplt
          rw [hlive hslab, if_pos rfl] at hfull
          omega
        · rw [if_neg hps] at hplt
          exact ⟨hps, (hiff p).2 ⟨hpp, hplt⟩⟩
    · rw [hlive' p hp, hlive hp] at hpfull
      by_cases hps : p = slab
      · subst hps
        rw [hA, Arena.field_unlinkPartial hs hs next_below, Arena.field_unlinkPartial hs hs prev_below]
        simp
      · -- a full slab other than this one is off the list, so unlinking leaves its links alone
        rw [if_neg hps] at hpfull
        have hpx : p ∉ xs := fun hx => by
          have := ((hiff p).1 hx).2
          omega
        obtain ⟨hn, hpr⟩ := unlinkPartial_links_of_not_mem hd' hal hxs (h.page_aligned p hp)
          (Nat.pos_iff_ne_zero.1 (h.page_pos p hp)) hpx
        rw [hA, hn, hpr, h.link_mark hslab hj (h.page_aligned p hp) (.inl rfl),
          h.link_mark hslab hj (h.page_aligned p hp) (.inr rfl)]
        exact hl.unlinked p hp hpfull
  · have hA : w.arena.afterTake slab j = w.arena.mark slab j := by
      rw [Arena.afterTake, if_neg (by rw [h.layout]; exact hfull)]
    refine ⟨⟨xs, ?_, fun p => ?_⟩, fun p hp hpfull => ?_⟩
    · rw [hA]
      exact hd'
    · rw [hiff p]
      constructor
      · rintro ⟨hpp, hplt⟩
        refine ⟨hpp, ?_⟩
        rw [hlive' p hpp, hlive hpp]
        by_cases hps : p = slab
        · subst hps
          rw [hlive hslab, if_pos rfl] at hfull
          rw [if_pos rfl]
          omega
        · rw [if_neg hps]
          exact hplt
      · rintro ⟨hpp, hplt⟩
        refine ⟨hpp, ?_⟩
        rw [hlive' p hpp, hlive hpp] at hplt
        split_ifs at hplt <;> omega
    · rw [hlive' p hp, hlive hp] at hpfull
      by_cases hps : p = slab
      · subst hps
        rw [hlive hslab, if_pos rfl] at hfull
        rw [if_pos rfl] at hpfull
        exact absurd hpfull hfull
      · rw [if_neg hps] at hpfull
        rw [hA, h.link_mark hslab hj (h.page_aligned p hp) (.inl rfl),
          h.link_mark hslab hj (h.page_aligned p hp) (.inr rfl)]
        exact hl.unlinked p hp hpfull

end Take

section Fresh

variable {L : Layout} {w : World} {fresh : Nat}

/-- Every bit of a fresh slab is clear. -/
theorem bit_adopt {a : Arena} (hf : fresh % PAGE = 0) {i : Nat} (hi : (Field.word (i / 64)).Below PAGE) :
    Bitmap.bit (words (a.adopt fresh).mem fresh) i = false := by
  simp only [Bitmap.bit, words]
  rw [Arena.field_adopt hf hi]
  simp

/-- A fresh page, zeroed and given its header, joins the held slabs as a well-kept slab with
no slot live. -/
theorem World.Slabs.adopt (h : w.Slabs L) (hf : fresh % PAGE = 0) (hf0 : fresh ≠ 0) (hfp : fresh ∉ w.pages)
    (hflt : fresh + PAGE ≤ 0x10000000000000000) :
    World.Slabs L ⟨w.arena.adopt fresh, fresh :: w.pages, w.live⟩ := by
  have hL := h.fits
  have hoff := Arena.offPage_adopt (a := w.arena) hf
  have hne : ∀ p ∈ w.pages, p ≠ fresh := fun p hp e => hfp (e ▸ hp)
  -- the fresh slab: header written, bitmap and slots zero
  have hfresh : SlabOk L w.arena.addr (w.arena.adopt fresh).mem fresh := by
    have hbits : ∀ i < L.bitmapWords * 64, Bitmap.bit (words (w.arena.adopt fresh).mem fresh) i = false :=
      fun i hi => bit_adopt hf (hL.word_below_page hi)
    refine ⟨?_, ?_, ?_, fun i _ h₂ => hbits i h₂, fun i hi _ k hk => ?_⟩
    · rw [Arena.field_adopt hf (by unfold Field.Below; decide)]
      rfl
    · rw [Arena.field_adopt hf (by unfold Field.Below; decide)]
      simpa using Nat.mod_eq_of_lt h.addr_lt
    · rw [Arena.field_adopt hf live_below]
      simp only [reduceCtorEq, if_false, Bitmap.count]
      exact (List.countP_eq_zero.2 fun i hi => by simp [hbits i (List.mem_range.1 hi)]).symm
    · have := hL.slot_end hi
      have := hL.header_le
      unfold Layout.slotAddr
      exact Arena.adopt_apply hf (by simp only [SLAB_BYTES] at *; omega) (by omega)
  refine ⟨h.layout, hL, h.addr_lt, List.nodup_cons.2 ⟨hfp, h.pages_nodup⟩, ?_, ?_, ?_, ?_, fun q => ?_,
    h.live_nodup, by simp [Arena.adopt, h.slab_count], h.live_count⟩
  · simpa [hf] using h.page_aligned
  · simpa [Nat.pos_iff_ne_zero.2 hf0] using h.page_pos
  · simpa [hflt] using h.page_lt
  · intro p hp
    rcases List.mem_cons.1 hp with rfl | hp
    · exact hfresh
    · exact (h.slab_ok p hp).of_offPage hL (h.page_aligned p hp) hf (hne p hp) hoff
  · -- the fresh slab has no live slot, and the others read as before
    rw [h.live_iff]
    constructor
    · rintro ⟨p, hp, i, hi, hbit, rfl⟩
      refine ⟨p, List.mem_cons_of_mem _ hp, i, hi, ?_, rfl⟩
      have hword : words (w.arena.adopt fresh).mem p (i / 64) = words w.arena.mem p (i / 64) :=
        hoff.field (h.page_aligned p hp) hf (hne p hp) (hL.word_below_page (lt_of_lt_of_le hi hL.words_cover))
      simpa only [Bitmap.bit, hword] using hbit
    · rintro ⟨p, hp, i, hi, hbit, rfl⟩
      rcases List.mem_cons.1 hp with rfl | hp
      · rw [bit_adopt hf (hL.word_below_page (lt_of_lt_of_le hi hL.words_cover))] at hbit
        exact absurd hbit (by simp)
      · refine ⟨p, hp, i, hi, ?_, rfl⟩
        have hword : words (w.arena.adopt fresh).mem p (i / 64) = words w.arena.mem p (i / 64) :=
          hoff.field (h.page_aligned p hp) hf (hne p hp) (hL.word_below_page (lt_of_lt_of_le hi hL.words_cover))
        simpa only [Bitmap.bit, hword] using hbit

/-- With the partial list empty, the fresh slab becomes the whole list. -/
theorem World.Links.adopt (hl : w.Links L) (h : w.Slabs L) (hhead : w.arena.partialHead = 0)
    (hf : fresh % PAGE = 0) (hf0 : fresh ≠ 0) (hfp : fresh ∉ w.pages) :
    World.Links L ⟨w.arena.adopt fresh, fresh :: w.pages, w.live⟩ := by
  have hoff := Arena.offPage_adopt (a := w.arena) hf
  have hne : ∀ p ∈ w.pages, p ≠ fresh := fun p hp e => hfp (e ▸ hp)
  have hpos := h.fits.slots_pos
  obtain ⟨xs, hd, hiff⟩ := hl.partial_list
  -- an empty list: every held slab is full
  have hxs : xs = [] := (hd.chain.eq_nil_iff).1 hhead
  have hfull : ∀ p ∈ w.pages, ¬field w.arena.mem p .live < L.slotsPerSlab := fun p hp hlt =>
    by simpa [hxs] using (hiff p).2 ⟨hp, hlt⟩
  have hlive : ∀ p ∈ w.pages, field (w.arena.adopt fresh).mem p .live = field w.arena.mem p .live :=
    fun p hp => hoff.field (h.page_aligned p hp) hf (hne p hp) live_below
  refine ⟨⟨[fresh], ⟨rfl, hf0, ?_, ?_⟩, fun p => ?_⟩, fun p hp hpfull => ?_⟩
  · show field (w.arena.adopt fresh).mem fresh .prev = 0
    rw [Arena.field_adopt hf prev_below]
    simp
  · show field (w.arena.adopt fresh).mem fresh .next = 0
    rw [Arena.field_adopt hf next_below]
    simp
  · constructor
    · intro hp
      rw [List.mem_singleton.1 hp]
      refine ⟨List.mem_cons_self, ?_⟩
      rw [Arena.field_adopt hf live_below]
      simpa using hpos
    · rintro ⟨hp, hlt⟩
      rcases List.mem_cons.1 hp with rfl | hp
      · exact List.mem_singleton_self _
      · rw [hlive p hp] at hlt
        exact absurd hlt (hfull p hp)
  · rcases List.mem_cons.1 hp with rfl | hp
    · rw [Arena.field_adopt hf live_below] at hpfull
      simp at hpfull
      omega
    · rw [hlive p hp] at hpfull
      rw [hoff.field (h.page_aligned p hp) hf (hne p hp) next_below,
        hoff.field (h.page_aligned p hp) hf (hne p hp) prev_below]
      exact hl.unlinked p hp hpfull

end Fresh

section Free

variable {L : Layout} {w : World} {p i : Nat}

/-- `free`'s bookkeeping at a set real slot keeps its slab well kept: the count one lower, the
slot's bit clear and its bytes zero. -/
theorem SlabOk.scrub {a : Arena} (hok : SlabOk a.layout a.addr a.mem p) (hL : a.layout.Fits) (hs : p % PAGE = 0)
    (hi : i < a.layout.slotsPerSlab) (hset : Bitmap.bit (words a.mem p) i = true) :
    SlabOk a.layout a.addr (a.scrub (a.layout.slotAddr p i) p i).mem p := by
  have hi' : i < a.layout.bitmapWords * 64 := lt_of_lt_of_le hi hL.words_cover
  have hbit : ∀ j < a.layout.bitmapWords * 64,
      Bitmap.bit (words (a.scrub (a.layout.slotAddr p i) p i).mem p) j =
        (Bitmap.bit (words a.mem p) j && !decide (j = i)) :=
    fun j hj => Arena.bit_scrub hs hL hi rfl j (hL.word_below hj)
  -- the bitmap loses exactly bit `i`, so its count falls by one
  have hflip := countP_range_flip (f := Bitmap.bit (words (a.scrub (a.layout.slotAddr p i) p i).mem p))
    (by rw [hbit i hi']; simp) hset hi' fun j hj hji => by
    rw [hbit j hj]
    simp [hji]
  have hsmall := hok.live_small hL
  refine ⟨?_, ?_, ?_, fun j h₁ h₂ => ?_, fun j hj hfree k hk => ?_⟩
  · rw [Arena.field_scrub_of_ne hs hL hi rfl (hL.header_below (by unfold Field.Below; decide)) (by simp) (by simp)]
    exact hok.magic
  · rw [Arena.field_scrub_of_ne hs hL hi rfl (hL.header_below (by unfold Field.Below; decide)) (by simp) (by simp)]
    exact hok.owner
  · rw [Arena.field_scrub_live hs hL hi rfl, Bitmap.count]
    rw [hok.count, Bitmap.count] at hsmall ⊢
    rw [hflip] at hsmall ⊢
    omega
  · rw [hbit j h₂, hok.trailing j h₁ h₂, Bool.false_and]
  · by_cases hji : j = i
    · subst hji
      exact Arena.scrub_apply_of_mem hs hL hi rfl (by omega) (by omega)
    · have hj' : j < a.layout.bitmapWords * 64 := lt_of_lt_of_le hj hL.words_cover
      rw [hbit j hj'] at hfree
      have hslot := hL.slot_mod hs hj hk
      have := hL.slot_disjoint hs hs hj hi (.inr hji)
      rw [Arena.scrub_apply_of_not_mem hs hL hi (by omega) (by omega)]
      exact hok.zeroed j hj (by simpa [hji] using hfree) k hk

/-- The bits after `free`'s bookkeeping: slot `i` of slab `p` cleared, every other bit of every
held slab as it was. -/
theorem World.Slabs.bit_scrub (h : w.Slabs L) (hp : p ∈ w.pages) (hi : i < L.slotsPerSlab) {q j : Nat}
    (hq : q ∈ w.pages) (hj : j < L.bitmapWords * 64) :
    Bitmap.bit (words (w.arena.scrub (L.slotAddr p i) p i).mem q) j =
      (Bitmap.bit (words w.arena.mem q) j && !decide (q = p ∧ j = i)) := by
  have hlay := h.layout
  subst hlay
  have hL := h.fits
  have hs := h.page_aligned p hp
  by_cases hqp : q = p
  · subst hqp
    rw [Arena.bit_scrub hs hL hi rfl j (hL.word_below hj)]
    simp
  · have hword : words (w.arena.scrub (w.arena.layout.slotAddr p i) p i).mem q (j / 64) =
        words w.arena.mem q (j / 64) :=
      (Arena.offPage_scrub hs hL hi rfl).field (h.page_aligned q hq) hs hqp (hL.word_below_page hj)
    simp only [Bitmap.bit, hword, hqp, false_and, decide_false, Bool.not_false, Bool.and_true]

/-- `free`'s bookkeeping at a live slot keeps the slabs and the ledgers, with the slot's
address no longer live. -/
theorem World.Slabs.scrub (h : w.Slabs L) (hp : p ∈ w.pages) (hi : i < L.slotsPerSlab)
    (hset : Bitmap.bit (words w.arena.mem p) i = true) :
    World.Slabs L ⟨w.arena.scrub (L.slotAddr p i) p i, w.pages, w.live.erase (L.slotAddr p i)⟩ := by
  have hL := h.fits
  have hs := h.page_aligned p hp
  have hmem : L.slotAddr p i ∈ w.live := (h.live_iff _).2 ⟨p, hp, i, hi, hset, rfl⟩
  refine { h with slab_ok := fun q hq => ?_, live_iff := fun x => ?_, live_nodup := h.live_nodup.erase _,
                  live_count := ?_ }
  · have hlay := h.layout
    subst hlay
    by_cases hqp : q = p
    · subst hqp
      exact (h.slab_ok q hp).scrub hL hs hi hset
    · exact (h.slab_ok q hq).of_offPage hL (h.page_aligned q hq) hs hqp (Arena.offPage_scrub hs hL hi rfl)
  · -- a slot is live after the step when it was before and is not the one freed
    rw [h.live_nodup.mem_erase_iff, h.live_iff]
    constructor
    · rintro ⟨hne, q, hq, j, hj, hbit, rfl⟩
      refine ⟨q, hq, j, hj, ?_, rfl⟩
      have hqj : ¬(q = p ∧ j = i) := fun e => hne (by rw [e.1, e.2])
      rw [h.bit_scrub hp hi hq (lt_of_lt_of_le hj hL.words_cover), hbit]
      simp [hqj]
    · rintro ⟨q, hq, j, hj, hbit, rfl⟩
      rw [h.bit_scrub hp hi hq (lt_of_lt_of_le hj hL.words_cover), Bool.and_eq_true] at hbit
      refine ⟨fun e => ?_, q, hq, j, hj, hbit.1, rfl⟩
      obtain ⟨rfl, rfl⟩ := hL.slotAddr_inj (h.page_aligned q hq) hs hj hi e
      simp at hbit
  · show w.arena.live - 1 = (w.live.erase (L.slotAddr p i)).length
    rw [List.length_erase_of_mem hmem, h.live_count]

/-- `free`'s bookkeeping writes no link. -/
theorem World.Slabs.link_scrub (h : w.Slabs L) (hp : p ∈ w.pages) (hi : i < L.slotsPerSlab) {q : Nat}
    (hq : q % PAGE = 0) {g : Field} (hg : g = .next ∨ g = .prev) :
    field (w.arena.scrub (L.slotAddr p i) p i).mem q g = field w.arena.mem q g := by
  have hlay := h.layout
  subst hlay
  have hs := h.page_aligned p hp
  have hgb : g.Below SLAB_BYTES := by rcases hg with rfl | rfl <;> unfold Field.Below <;> decide
  by_cases hqp : q = p
  · subst hqp
    exact Arena.field_scrub_of_ne hs h.fits hi rfl (h.fits.header_below hgb)
      (by rcases hg with rfl | rfl <;> simp) (by rcases hg with rfl | rfl <;> simp)
  · exact (Arena.offPage_scrub hs h.fits hi rfl).field hq hs hqp (le_trans (h.fits.header_below hgb) h.fits.offset_le)

/-- `free`'s bookkeeping lowers the freed slot's slab's count by one and no other. -/
theorem World.Slabs.live_scrub (h : w.Slabs L) (hp : p ∈ w.pages) (hi : i < L.slotsPerSlab)
    (hset : Bitmap.bit (words w.arena.mem p) i = true) {q : Nat} (hq : q % PAGE = 0) :
    field (w.arena.scrub (L.slotAddr p i) p i).mem q .live =
      if q = p then field w.arena.mem p .live - 1 else field w.arena.mem q .live := by
  have hlay := h.layout
  subst hlay
  have hs := h.page_aligned p hp
  split_ifs with hqp
  · subst hqp
    have hpos := (h.slab_ok q hp).live_pos_of_bit h.fits hi hset
    have hsmall := (h.slab_ok q hp).live_small h.fits
    rw [Arena.field_scrub_live hs h.fits hi rfl]
    omega
  · exact (Arena.offPage_scrub hs h.fits hi rfl).field hq hs hqp live_below

/-- The partial list reads the same through the scrubbed memory. -/
theorem World.Links.scrub (hl : w.Links L) (h : w.Slabs L) (hp : p ∈ w.pages) (hi : i < L.slotsPerSlab) :
    ∃ xs, DChain (fun q => field (w.arena.scrub (L.slotAddr p i) p i).mem q .next)
        (fun q => field (w.arena.scrub (L.slotAddr p i) p i).mem q .prev) 0 0 w.arena.partialHead xs ∧
      ∀ q, q ∈ xs ↔ q ∈ w.pages ∧ field w.arena.mem q .live < L.slotsPerSlab := by
  obtain ⟨xs, hd, hiff⟩ := hl.partial_list
  have hal : ∀ q ∈ xs, q % PAGE = 0 := fun q hq => h.page_aligned q ((hiff q).1 hq).1
  exact ⟨xs, hd.frame (fun q hq => h.link_scrub hp hi (hal q hq) (.inl rfl))
    (fun q hq => h.link_scrub hp hi (hal q hq) (.inr rfl)), hiff⟩

/-- A held slab with no live slot leaves the held pages; the slabs and the ledgers stay. -/
theorem World.Slabs.release (h : w.Slabs L) (hp : p ∈ w.pages) (hzero : field w.arena.mem p .live = 0) :
    World.Slabs L ⟨{ w.arena with slabCount := w.arena.slabCount - 1 }, w.pages.erase p, w.live⟩ := by
  have hmem : ∀ {q}, q ∈ w.pages.erase p → q ∈ w.pages := fun hq => List.mem_of_mem_erase hq
  refine ⟨h.layout, h.fits, h.addr_lt, h.pages_nodup.erase p, fun q hq => h.page_aligned q (hmem hq),
    fun q hq => h.page_pos q (hmem hq), fun q hq => h.page_lt q (hmem hq), fun q hq => h.slab_ok q (hmem hq),
    fun x => ?_, h.live_nodup, ?_, h.live_count⟩
  · -- the released slab has no set bit, so no live slot is lost
    rw [h.live_iff]
    constructor
    · rintro ⟨q, hq, j, hj, hbit, rfl⟩
      have hqp : q ≠ p := by
        rintro rfl
        rw [(h.slab_ok q hp).bit_of_live_zero hzero (lt_of_lt_of_le hj h.fits.words_cover)] at hbit
        exact absurd hbit (by simp)
      exact ⟨q, List.mem_erase_of_ne hqp |>.2 hq, j, hj, hbit, rfl⟩
    · rintro ⟨q, hq, j, hj, hbit, rfl⟩
      exact ⟨q, hmem hq, j, hj, hbit, rfl⟩
  · show w.arena.slabCount - 1 = (w.pages.erase p).length
    rw [List.length_erase_of_mem hp, h.slab_count]

/-- The head of the partial list is null or a held slab on it. -/
theorem World.Links.head_cases {xs : List Nat} (h : w.Slabs L) {mem : Nat → UInt8}
    (hd : DChain (fun q => field mem q .next) (fun q => field mem q .prev) 0 0 w.arena.partialHead xs)
    (hiff : ∀ q, q ∈ xs ↔ q ∈ w.pages ∧ field w.arena.mem q .live < L.slotsPerSlab) :
    w.arena.partialHead % PAGE = 0 ∧ w.arena.partialHead < 256 ^ 8 ∧
      (w.arena.partialHead = 0 ∨ w.arena.partialHead ∈ xs) := by
  rcases eq_or_ne w.arena.partialHead 0 with h0 | h0
  · rw [h0]
    simp
  · have hm := hd.chain.head_mem h0
    have hpg := ((hiff _).1 hm).1
    have := h.page_lt _ hpg
    refine ⟨h.page_aligned _ hpg, ?_, .inr hm⟩
    unfold PAGE at this
    norm_num
    omega

/-- `free` of a slot of a full slab: the slab goes back onto the front of the partial list. -/
theorem World.Inv.free_push (hinv : w.Inv L) (hp : p ∈ w.pages) (hi : i < L.slotsPerSlab)
    (hset : Bitmap.bit (words w.arena.mem p) i = true) (hfull : field w.arena.mem p .live = L.slotsPerSlab)
    (hone : field w.arena.mem p .live ≠ 1) :
    World.Inv L ⟨(w.arena.scrub (L.slotAddr p i) p i).pushPartial p, w.pages, w.live.erase (L.slotAddr p i)⟩ := by
  have h := hinv.toSlabs
  have hs := h.page_aligned p hp
  have hp0 : p ≠ 0 := Nat.pos_iff_ne_zero.1 (h.page_pos p hp)
  have hslt : p < 256 ^ 8 := by
    have := h.page_lt p hp
    unfold PAGE at this
    norm_num
    omega
  obtain ⟨xs, hd, hiff⟩ := hinv.toLinks.scrub h hp hi
  have hal : ∀ q ∈ xs, q % PAGE = 0 := fun q hq => h.page_aligned q ((hiff q).1 hq).1
  have hpx : p ∉ xs := fun hx => by
    have := ((hiff p).1 hx).2
    omega
  obtain ⟨hh, hhlt, hhead⟩ := World.Links.head_cases h hd hiff
  have hhp : w.arena.partialHead ≠ p := by
    rcases hhead with h0 | hm
    · exact h0 ▸ Ne.symm hp0
    · exact fun e => hpx (e ▸ hm)
  -- the push as it reads at the slabs: the scrub keeps the head
  have hpush : ∀ {q : Nat} {g : Field}, q % PAGE = 0 → g.Below PAGE →
      field ((w.arena.scrub (L.slotAddr p i) p i).pushPartial p).mem q g =
        if g = .next ∧ q = p then w.arena.partialHead
        else if g = .prev ∧ q = w.arena.partialHead ∧ w.arena.partialHead ≠ 0 then p
        else field (w.arena.scrub (L.slotAddr p i) p i).mem q g := fun hq hg =>
    Arena.field_pushPartial (a := w.arena.scrub (L.slotAddr p i) p i) hs hh hhlt hslt hq hg
  have hlinks := fun {q : Nat} {g : Field} (hq : q % PAGE = 0) (hg : g = .next ∨ g = .prev) =>
    h.link_scrub hp hi hq hg
  have hlive := fun {q : Nat} (hq : q % PAGE = 0) => h.live_scrub hp hi hset hq
  have hpl := (h.slab_ok p hp).live_pos_of_bit h.fits hi hset
  have hkeep : LinksOnly (w.arena.scrub (L.slotAddr p i) p i).mem
      ((w.arena.scrub (L.slotAddr p i) p i).pushPartial p).mem := Arena.linksOnly_pushPartial hs hh
  have hlive' := fun {q : Nat} (hq : q % PAGE = 0) => hkeep.field hq live_below (by simp) (by simp)
  refine { toSlabs := (h.scrub hp hi hset).of_linksOnly rfl rfl rfl rfl rfl rfl hkeep,
           partial_list := ⟨p :: xs, ?_, fun q => ?_⟩, unlinked := fun q hq hqfull => ?_,
           live_pos := fun q hq => ?_ }
  · refine hd.push hp0 ?_ ?_ (fun y hy => ?_) (fun y hy => ?_)
    · show field ((w.arena.scrub (L.slotAddr p i) p i).pushPartial p).mem p .next = w.arena.partialHead
      rw [hpush hs next_below, if_pos ⟨rfl, rfl⟩]
    · show field ((w.arena.scrub (L.slotAddr p i) p i).pushPartial p).mem p .prev = 0
      rw [hpush hs prev_below, if_neg (by simp), if_neg (show ¬(_ ∧ p = _ ∧ _) from fun h => hhp h.2.1.symm), hlinks hs (.inr rfl)]
      exact (hinv.unlinked p hp hfull).2
    · have hyp : y ≠ p := fun e => hpx (e ▸ hy)
      show field ((w.arena.scrub (L.slotAddr p i) p i).pushPartial p).mem y .next = _
      rw [hpush (hal y hy) next_below, if_neg (show ¬(_ ∧ y = p) from fun h => hyp h.2), if_neg (by simp)]
    · have hy0 : y ≠ 0 := fun e => hd.not_mem_nil (e ▸ hy)
      show field ((w.arena.scrub (L.slotAddr p i) p i).pushPartial p).mem y .prev = _
      rw [hpush (hal y hy) prev_below, if_neg (by simp)]
      by_cases hyh : y = w.arena.partialHead
      · rw [if_pos ⟨rfl, hyh, hyh ▸ hy0⟩, if_pos hyh]
        rfl
      · rw [if_neg (show ¬(_ ∧ y = _ ∧ _) from fun h => hyh h.2.1), if_neg hyh]
  · -- the slab joins the list with one free slot; every other slab's count is as it was
    rw [List.mem_cons, hiff q]
    constructor
    · rintro (rfl | ⟨hq, hlt⟩)
      · refine ⟨hp, ?_⟩
        rw [hlive' hs, hlive hs, if_pos rfl]
        omega
      · have hqp : q ≠ p := by
          rintro rfl
          omega
        refine ⟨hq, ?_⟩
        rw [hlive' (h.page_aligned q hq), hlive (h.page_aligned q hq), if_neg hqp]
        exact hlt
    · rintro ⟨hq, hlt⟩
      by_cases hqp : q = p
      · exact .inl hqp
      · rw [hlive' (h.page_aligned q hq), hlive (h.page_aligned q hq), if_neg hqp] at hlt
        exact .inr ⟨hq, hlt⟩
  · have hq' := h.page_aligned q hq
    rw [hlive' hq', hlive hq'] at hqfull
    have hqp : q ≠ p := by
      rintro rfl
      rw [if_pos rfl] at hqfull
      omega
    rw [if_neg hqp] at hqfull
    -- a full slab is off the list, so neither the slab pushed nor the old head
    have hqx : q ∉ xs := fun hx => by
      have := ((hiff q).1 hx).2
      omega
    have hqh : q ≠ w.arena.partialHead := fun e => by
      rcases hhead with h0 | hm
      · exact absurd (e.trans h0) (Nat.pos_iff_ne_zero.1 (h.page_pos q hq))
      · exact hqx (e ▸ hm)
    rw [hpush hq' next_below, if_neg (show ¬(_ ∧ q = p) from fun h => hqp h.2), if_neg (by simp),
      hpush hq' prev_below, if_neg (by simp), if_neg (show ¬(_ ∧ q = _ ∧ _) from fun h => hqh h.2.1),
      hlinks hq' (.inl rfl), hlinks hq' (.inr rfl)]
    exact hinv.unlinked q hq hqfull
  · have hq' := h.page_aligned q hq
    show 0 < field ((w.arena.scrub (L.slotAddr p i) p i).pushPartial p).mem q .live
    rw [hlive' hq', hlive hq']
    split_ifs
    · omega
    · exact hinv.live_pos q hq

/-- `free` of the last live slot of a slab: the slab leaves the partial list and its page goes
back to the page source. -/
theorem World.Inv.free_release (hinv : w.Inv L) (hp : p ∈ w.pages) (hi : i < L.slotsPerSlab)
    (hset : Bitmap.bit (words w.arena.mem p) i = true) (hone : field w.arena.mem p .live = 1) :
    World.Inv L ⟨{ (w.arena.scrub (L.slotAddr p i) p i).unlinkPartial p with
        slabCount := (w.arena.scrub (L.slotAddr p i) p i).slabCount - 1 },
      w.pages.erase p, w.live.erase (L.slotAddr p i)⟩ := by
  have h := hinv.toSlabs
  have hs := h.page_aligned p hp
  have hp0 : p ≠ 0 := Nat.pos_iff_ne_zero.1 (h.page_pos p hp)
  obtain ⟨xs, hd, hiff⟩ := hinv.toLinks.scrub h hp hi
  have hal : ∀ q ∈ xs, q % PAGE = 0 := fun q hq => h.page_aligned q ((hiff q).1 hq).1
  have hlinks := fun {q : Nat} {g : Field} (hq : q % PAGE = 0) (hg : g = .next ∨ g = .prev) =>
    h.link_scrub hp hi hq hg
  have hlive := fun {q : Nat} (hq : q % PAGE = 0) => h.live_scrub hp hi hset hq
  -- off the list, the slab is full and its links are null
  have hnull : p ∉ xs → field (w.arena.scrub (L.slotAddr p i) p i).mem p .next = 0 ∧
      field (w.arena.scrub (L.slotAddr p i) p i).mem p .prev = 0 := fun hpx => by
    have hfull : field w.arena.mem p .live = L.slotsPerSlab :=
      le_antisymm ((h.slab_ok p hp).live_le h.fits) (not_lt.1 fun hlt => hpx ((hiff p).2 ⟨hp, hlt⟩))
    rw [hlinks hs (.inl rfl), hlinks hs (.inr rfl)]
    exact hinv.unlinked p hp hfull
  have hnb : field (w.arena.scrub (L.slotAddr p i) p i).mem p .prev % PAGE = 0 ∧
      field (w.arena.scrub (L.slotAddr p i) p i).mem p .next % PAGE = 0 ∧
      field (w.arena.scrub (L.slotAddr p i) p i).mem p .prev ≠ p := by
    by_cases hpx : p ∈ xs
    · rw [hlinks hs (.inl rfl), hlinks hs (.inr rfl)]
      exact hinv.toLinks.neighbours h hp ((hiff p).1 hpx).2
    · obtain ⟨hn, hpr⟩ := hnull hpx
      rw [hn, hpr]
      exact ⟨Nat.zero_mod _, Nat.zero_mod _, Ne.symm hp0⟩
  have hkeep : LinksOnly (w.arena.scrub (L.slotAddr p i) p i).mem
      ((w.arena.scrub (L.slotAddr p i) p i).unlinkPartial p).mem :=
    Arena.linksOnly_unlinkPartial hs hnb.1 hnb.2.1 hnb.2.2
  have hlive' := fun {q : Nat} (hq : q % PAGE = 0) => hkeep.field hq live_below (by simp) (by simp)
  -- the list without the slab; a slab off the list keeps its links
  have hlist : DChain (fun q => field ((w.arena.scrub (L.slotAddr p i) p i).unlinkPartial p).mem q .next)
        (fun q => field ((w.arena.scrub (L.slotAddr p i) p i).unlinkPartial p).mem q .prev) 0 0
        ((w.arena.scrub (L.slotAddr p i) p i).unlinkPartial p).partialHead (xs.erase p) ∧
      ∀ q ∈ w.pages, q ≠ p → q ∉ xs →
        field ((w.arena.scrub (L.slotAddr p i) p i).unlinkPartial p).mem q .next =
            field (w.arena.scrub (L.slotAddr p i) p i).mem q .next ∧
          field ((w.arena.scrub (L.slotAddr p i) p i).unlinkPartial p).mem q .prev =
            field (w.arena.scrub (L.slotAddr p i) p i).mem q .prev := by
    by_cases hpx : p ∈ xs
    · exact ⟨unlinkPartial_dchain hd hal hpx, fun q hq _ hqx =>
        unlinkPartial_links_of_not_mem hd hal hpx (h.page_aligned q hq)
          (Nat.pos_iff_ne_zero.1 (h.page_pos q hq)) hqx⟩
    · obtain ⟨hn, hpr⟩ := hnull hpx
      rw [List.erase_of_not_mem hpx]
      exact ⟨unlinkPartial_dchain_of_null hd hal hs hp0 hpx hn hpr, fun q hq hqp _ =>
        ⟨Arena.field_unlinkPartial_of_null hs hp0 hn hpr (h.page_aligned q hq) next_below hqp,
          Arena.field_unlinkPartial_of_null hs hp0 hn hpr (h.page_aligned q hq) prev_below hqp⟩⟩
  obtain ⟨hd', hoff⟩ := hlist
  have hu : World.Slabs L ⟨(w.arena.scrub (L.slotAddr p i) p i).unlinkPartial p, w.pages,
      w.live.erase (L.slotAddr p i)⟩ := (h.scrub hp hi hset).of_linksOnly rfl rfl rfl rfl rfl rfl hkeep
  have hzero : field ((w.arena.scrub (L.slotAddr p i) p i).unlinkPartial p).mem p .live = 0 := by
    rw [hlive' hs, hlive hs, if_pos rfl, hone]
  have herase : ∀ {q}, q ∈ w.pages.erase p ↔ q ≠ p ∧ q ∈ w.pages := h.pages_nodup.mem_erase_iff
  refine { toSlabs := hu.release hp hzero, partial_list := ⟨xs.erase p, hd', fun q => ?_⟩,
           unlinked := fun q hq hqfull => ?_, live_pos := fun q hq => ?_ }
  · dsimp only
    rw [hd.nodup.mem_erase_iff, herase, hiff q, and_assoc]
    refine and_congr_right fun hqp => and_congr_right fun hq => ?_
    rw [hlive' (h.page_aligned q hq), hlive (h.page_aligned q hq), if_neg hqp]
  · dsimp only at hq hqfull ⊢
    obtain ⟨hqp, hq⟩ := herase.1 hq
    have hq' := h.page_aligned q hq
    rw [hlive' hq', hlive hq', if_neg hqp] at hqfull
    have hqx : q ∉ xs := fun hx => by
      have := ((hiff q).1 hx).2
      omega
    obtain ⟨hn, hpr⟩ := hoff q hq hqp hqx
    rw [hn, hpr, hlinks hq' (.inl rfl), hlinks hq' (.inr rfl)]
    exact hinv.unlinked q hq hqfull
  · dsimp only at hq ⊢
    obtain ⟨hqp, hq⟩ := herase.1 hq
    rw [hlive' (h.page_aligned q hq), hlive (h.page_aligned q hq), if_neg hqp]
    exact hinv.live_pos q hq

/-- `free` of a slot of a slab that keeps others live and was not full: the slab stays where
it is on the partial list. -/
theorem World.Inv.free_keep (hinv : w.Inv L) (hp : p ∈ w.pages) (hi : i < L.slotsPerSlab)
    (hset : Bitmap.bit (words w.arena.mem p) i = true) (hnf : field w.arena.mem p .live ≠ L.slotsPerSlab)
    (hone : field w.arena.mem p .live ≠ 1) :
    World.Inv L ⟨w.arena.scrub (L.slotAddr p i) p i, w.pages, w.live.erase (L.slotAddr p i)⟩ := by
  have h := hinv.toSlabs
  obtain ⟨xs, hd, hiff⟩ := hinv.toLinks.scrub h hp hi
  have hlinks := fun {q : Nat} {g : Field} (hq : q % PAGE = 0) (hg : g = .next ∨ g = .prev) =>
    h.link_scrub hp hi hq hg
  have hlive := fun {q : Nat} (hq : q % PAGE = 0) => h.live_scrub hp hi hset hq
  have hpl := (h.slab_ok p hp).live_pos_of_bit h.fits hi hset
  have hle := (h.slab_ok p hp).live_le h.fits
  refine { toSlabs := h.scrub hp hi hset, partial_list := ⟨xs, hd, fun q => ?_⟩,
           unlinked := fun q hq hqfull => ?_, live_pos := fun q hq => ?_ }
  · -- the slab was partial and stays partial
    rw [hiff q]
    refine and_congr_right fun hq => ?_
    show _ ↔ field (w.arena.scrub (L.slotAddr p i) p i).mem q .live < L.slotsPerSlab
    rw [hlive (h.page_aligned q hq)]
    split_ifs with hqp
    · subst hqp
      omega
    · exact Iff.rfl
  · have hq' := h.page_aligned q hq
    change field (w.arena.scrub (L.slotAddr p i) p i).mem q .live = L.slotsPerSlab at hqfull
    rw [hlive hq'] at hqfull
    split_ifs at hqfull with hqp
    · omega
    · show field (w.arena.scrub (L.slotAddr p i) p i).mem q .next = 0 ∧
        field (w.arena.scrub (L.slotAddr p i) p i).mem q .prev = 0
      rw [hlinks hq' (.inl rfl), hlinks hq' (.inr rfl)]
      exact hinv.unlinked q hq hqfull
  · show 0 < field (w.arena.scrub (L.slotAddr p i) p i).mem q .live
    rw [hlive (h.page_aligned q hq)]
    split_ifs
    · omega
    · exact hinv.live_pos q hq

/-- `free` of a live pointer passes its checks and keeps the invariant. -/
theorem World.Inv.step_free (hinv : w.Inv L) {ptr : Nat} (hptr : ptr ∈ w.live) :
    (w.step (.free ptr)).1.Inv L ∧ (w.step (.free ptr)).2 ≠ .panicked := by
  have h := hinv.toSlabs
  obtain ⟨p, hp, i, hi, hset, rfl⟩ := (h.live_iff ptr).1 hptr
  have hlay := h.layout
  subst hlay
  have hok := h.slab_ok p hp
  have hfree := Arena.free_slotAddr h.fits (h.page_aligned p hp) (h.page_pos p hp) (h.page_lt p hp) hi
    hok.magic hok.owner hset
  have hlive := h.live_scrub hp hi hset (h.page_aligned p hp)
  rw [if_pos rfl] at hlive
  have hpl := hok.live_pos_of_bit h.fits hi hset
  have hsmall := hok.live_small h.fits
  rw [World.step, hfree]
  dsimp only
  unfold Arena.afterScrub
  dsimp only
  rw [hlive, Arena.layout_scrub]
  -- the three ends of `free`, on the slab's count before the call
  by_cases hone : field w.arena.mem p .live = 1
  · rw [if_neg (by omega), if_pos (by omega)]
    exact ⟨hinv.free_release hp hi hset hone, by simp⟩
  · by_cases hfull : field w.arena.mem p .live = w.arena.layout.slotsPerSlab
    · rw [if_pos (by omega)]
      exact ⟨hinv.free_push hp hi hset hfull hone, by simp⟩
    · rw [if_neg (by omega), if_neg (by omega)]
      exact ⟨hinv.free_keep hp hi hset hfull hone, by simp⟩

end Free

section Alloc

variable {L : Layout} {w : World} {slab j : Nat}

/-- `take_slot` keeps the invariant when every other held slab has a live slot. -/
theorem World.Inv.of_take (h : w.Slabs L) (hl : w.Links L) (hslab : slab ∈ w.pages)
    (hlt : field w.arena.mem slab .live < L.slotsPerSlab) (hj : j < L.slotsPerSlab)
    (hclear : Bitmap.bit (words w.arena.mem slab) j = false)
    (hpos : ∀ p ∈ w.pages, p ≠ slab → 0 < field w.arena.mem p .live) :
    World.Inv L ⟨w.arena.afterTake slab j, w.pages, L.slotAddr slab j :: w.live⟩ where
  toSlabs := h.take hl hslab hlt hj hclear
  toLinks := hl.take h hslab hlt hj _
  live_pos := fun p hp => by
    have hkeep := h.linksOnly_afterTake hl hslab hlt hj
    show 0 < field (w.arena.afterTake slab j).mem p .live
    rw [hkeep.field (h.page_aligned p hp) live_below (by simp) (by simp),
      h.live_mark hslab hj (h.page_aligned p hp)]
    split_ifs with hps
    · omega
    · exact hpos p hp hps

/-- The slot `take_slot` hands out is zero: it was clear, and the bookkeeping writes only the
header. -/
theorem World.Slabs.take_zeroed (h : w.Slabs L) (hl : w.Links L) (hslab : slab ∈ w.pages)
    (hlt : field w.arena.mem slab .live < L.slotsPerSlab) (hj : j < L.slotsPerSlab)
    (hclear : Bitmap.bit (words w.arena.mem slab) j = false) {k : Nat} (hk : k < L.slotSize) :
    (w.arena.afterTake slab j).mem (L.slotAddr slab j + k) = 0 := by
  have hs := h.page_aligned slab hslab
  have hL := h.fits
  have hslot := hL.slot_mod hs hj hk
  have := hL.header_le
  have hlb : Field.Below L.slotsOffset .live := hL.header_below (by unfold Field.Below; decide)
  rw [h.linksOnly_afterTake hl hslab hlt hj _ (.inr (by simp only [SLAB_BYTES] at *; omega)),
    Arena.mark_apply hs hL.offset_le hlb (hL.word_below (lt_of_lt_of_le hj hL.words_cover)) (by omega)]
  exact (h.slab_ok slab hslab).zeroed j hj hclear k hk

/-- What `alloc` does from a world with the invariant, under the page source's guarantee: it
replies with a pointer, keeps the invariant, and a nonzero pointer is newly live with its
slot zero. -/
theorem World.Inv.alloc_spec (hinv : w.Inv L) {fresh : Nat} (hfresh : w.Allowed (.alloc fresh)) :
    ∃ ptr, (w.step (.alloc fresh)).2 = .allocated ptr ∧ (w.step (.alloc fresh)).1.Inv L ∧
      (ptr ≠ 0 → ptr ∈ (w.step (.alloc fresh)).1.live ∧
        ∀ k < L.slotSize, (w.step (.alloc fresh)).1.arena.mem (ptr + k) = 0) := by
  have h := hinv.toSlabs
  have hl := hinv.toLinks
  have hlay := h.layout
  subst hlay
  have hslot0 : ∀ {p i}, p ∈ w.pages ∨ p = fresh ∧ fresh ≠ 0 → w.arena.layout.slotAddr p i ≠ 0 := by
    intro p i hp
    have : 0 < p := by
      rcases hp with hp | ⟨rfl, hf⟩
      · exact h.page_pos p hp
      · exact Nat.pos_iff_ne_zero.2 hf
    unfold Layout.slotAddr
    omega
  by_cases hhead : w.arena.partialHead = 0
  · by_cases hf0 : fresh = 0
    · -- the page source is exhausted: a null pointer, nothing changed
      subst hf0
      have hstep : w.step (.alloc 0) = (w, .allocated 0) := by
        rw [World.step, Arena.alloc_of_exhausted hhead]
        simp
      rw [hstep]
      exact ⟨0, rfl, hinv, fun h0 => absurd rfl h0⟩
    · -- a fresh slab, then `take_slot` on it
      obtain ⟨hfal, hfp, hflt⟩ := hfresh.resolve_left hf0
      have h₁ := h.adopt hfal hf0 hfp hflt
      have hl₁ := hl.adopt h hhead hfal hf0 hfp
      have hfl : field (w.arena.adopt fresh).mem fresh .live = 0 := by
        rw [Arena.field_adopt hfal live_below]
        simp
      have hlt : field (w.arena.adopt fresh).mem fresh .live < w.arena.layout.slotsPerSlab := by
        rw [hfl]
        exact h.fits.slots_pos
      obtain ⟨j, hfind, hj, hclear⟩ := h₁.findSlot_some List.mem_cons_self hlt
      have hstep : w.step (.alloc fresh) =
          (⟨(w.arena.adopt fresh).afterTake fresh j, fresh :: w.pages,
            w.arena.layout.slotAddr fresh j :: w.live⟩, .allocated (w.arena.layout.slotAddr fresh j)) := by
        rw [World.step, Arena.alloc_of_fresh hhead hf0, Arena.takeSlot_of_findSlot hfind]
        dsimp only
        rw [Arena.layout_adopt, if_pos ⟨hhead, hf0⟩, if_neg (hslot0 (.inr ⟨rfl, hf0⟩))]
      have hpos : ∀ p ∈ fresh :: w.pages, p ≠ fresh → 0 < field (w.arena.adopt fresh).mem p .live := by
        intro p hp hpf
        have hp := (List.mem_cons.1 hp).resolve_left hpf
        rw [(Arena.offPage_adopt hfal).field (h.page_aligned p hp) hfal hpf live_below]
        exact hinv.live_pos p hp
      rw [hstep]
      refine ⟨_, rfl, ?_, fun _ => ⟨List.mem_cons_self, fun k hk => ?_⟩⟩
      -- stated first: elaborated against the goal, the world would have to be found under `afterTake`
      · have hinv₁ := World.Inv.of_take h₁ hl₁ List.mem_cons_self hlt hj hclear hpos
        exact hinv₁
      · have hzero := h₁.take_zeroed hl₁ List.mem_cons_self hlt hj hclear hk
        exact hzero
  · -- `take_slot` on the head of the partial list
    obtain ⟨hmem, hlt⟩ := hl.head_mem hhead
    obtain ⟨j, hfind, hj, hclear⟩ := h.findSlot_some hmem hlt
    have hstep : w.step (.alloc fresh) =
        (⟨w.arena.afterTake w.arena.partialHead j, w.pages, w.arena.layout.slotAddr w.arena.partialHead j :: w.live⟩,
          .allocated (w.arena.layout.slotAddr w.arena.partialHead j)) := by
      rw [World.step, Arena.alloc_of_partial hhead, Arena.takeSlot_of_findSlot hfind]
      dsimp only
      rw [if_neg (fun h => hhead h.1), if_neg (hslot0 (.inl hmem))]
    rw [hstep]
    refine ⟨_, rfl, ?_, fun _ => ⟨List.mem_cons_self, fun k hk => ?_⟩⟩
    · have hinv₁ := World.Inv.of_take h hl hmem hlt hj hclear fun p hp _ => hinv.live_pos p hp
      exact hinv₁
    · have hzero := h.take_zeroed hl hmem hlt hj hclear hk
      exact hzero

end Alloc

section Store

variable {L : Layout} {w : World} {q addr : Nat}

/-- A byte inside a live slot lies in the slot area of its page. -/
theorem World.Slabs.store_offset (h : w.Slabs L) (hq : q ∈ w.live) (hlo : q ≤ addr) (hhi : addr < q + L.slotSize) :
    L.slotsOffset ≤ addr % PAGE := by
  obtain ⟨p, hp, j, hj, -, rfl⟩ := (h.live_iff q).1 hq
  have := (h.fits.slot_mod (h.page_aligned p hp) hj (show addr - L.slotAddr p j < L.slotSize by omega)).1
  rw [show L.slotAddr p j + (addr - L.slotAddr p j) = addr by omega] at this
  omega

/-- A byte written inside a live slot keeps the slabs and the ledgers: it is neither in a
header nor in a clear slot. -/
theorem World.Slabs.store (h : w.Slabs L) (hq : q ∈ w.live) (hlo : q ≤ addr) (hhi : addr < q + L.slotSize)
    (v : UInt8) : World.Slabs L ⟨{ w.arena with mem := Function.update w.arena.mem addr v }, w.pages, w.live⟩ := by
  have hL := h.fits
  have hx := h.store_offset hq hlo hhi
  have hfield : ∀ r, r % PAGE = 0 → ∀ g : Field, g.Below L.slotsOffset →
      field (Function.update w.arena.mem addr v) r g = field w.arena.mem r g :=
    fun r hr g hg => field_update_of_slots v hr hg hL.offset_le hx
  have hbits : ∀ r ∈ w.pages, ∀ i < L.bitmapWords * 64,
      Bitmap.bit (words (Function.update w.arena.mem addr v) r) i = Bitmap.bit (words w.arena.mem r) i := by
    intro r hr i hi
    simp only [Bitmap.bit, words]
    rw [hfield r (h.page_aligned r hr) _ (hL.word_below hi)]
  obtain ⟨p, hp, j, hj, hset, rfl⟩ := (h.live_iff q).1 hq
  refine { h with slab_ok := fun r hr => ?_, live_iff := fun x => ?_ }
  · refine (h.slab_ok r hr).congr hL (fun g hg _ _ => hfield r (h.page_aligned r hr) g hg)
      fun i hi hclear k hk => Function.update_of_ne ?_ _ _
    -- a clear slot is not the live one the byte is in
    have hne : r ≠ p ∨ i ≠ j := by
      by_contra hc
      obtain ⟨rfl, rfl⟩ : r = p ∧ i = j := by tauto
      rw [hset] at hclear
      exact absurd hclear (by simp)
    have := hL.slot_disjoint (h.page_aligned r hr) (h.page_aligned p hp) hi hj hne
    omega
  · rw [h.live_iff]
    refine exists_congr fun r => and_congr_right fun hr => exists_congr fun i => and_congr_right fun hi => ?_
    show _ ↔ Bitmap.bit (words (Function.update w.arena.mem addr v) r) i = true ∧ _
    rw [hbits r hr i (lt_of_lt_of_le hi hL.words_cover)]

/-- The partial list stays when the held pages, the head, and every link and count of a held
slab read as before. -/
theorem World.Links.congr (hl : w.Links L) {w' : World} (hpages : w'.pages = w.pages)
    (hhead : w'.arena.partialHead = w.arena.partialHead)
    (hfield : ∀ p ∈ w.pages, ∀ g : Field, g = .next ∨ g = .prev ∨ g = .live →
      field w'.arena.mem p g = field w.arena.mem p g) : w'.Links L := by
  obtain ⟨xs, hd, hiff⟩ := hl.partial_list
  refine ⟨⟨xs, ?_, fun p => ?_⟩, fun p hp hfull => ?_⟩
  · rw [hhead]
    exact hd.frame (fun p hp => hfield p ((hiff p).1 hp).1 _ (.inl rfl))
      (fun p hp => hfield p ((hiff p).1 hp).1 _ (.inr (.inl rfl)))
  · rw [hpages, hiff p]
    exact and_congr_right fun hp => by rw [hfield p hp _ (.inr (.inr rfl))]
  · rw [hpages] at hp
    rw [hfield p hp _ (.inr (.inr rfl))] at hfull
    rw [hfield p hp _ (.inl rfl), hfield p hp _ (.inr (.inl rfl))]
    exact hl.unlinked p hp hfull

/-- A client's store inside an object it holds keeps the invariant. -/
theorem World.Inv.step_store (hinv : w.Inv L) {v : UInt8} (hallowed : w.Allowed (.store addr v)) :
    (w.step (.store addr v)).1.Inv L := by
  obtain ⟨q, hq, hlo, hhi⟩ := hallowed
  have h := hinv.toSlabs
  have hhi' : addr < q + L.slotSize := by
    have := h.fits.object_le
    rw [h.layout] at hhi
    omega
  have hx := h.store_offset hq hlo hhi'
  have hfield : ∀ p ∈ w.pages, ∀ g : Field, g = .next ∨ g = .prev ∨ g = .live →
      field (Function.update w.arena.mem addr v) p g = field w.arena.mem p g := by
    intro p hp g hg
    refine field_update_of_slots v (h.page_aligned p hp) (h.fits.header_below ?_) h.fits.offset_le hx
    rcases hg with rfl | rfl | rfl <;> unfold Field.Below <;> decide
  refine { toSlabs := h.store hq hlo hhi' v, toLinks := hinv.toLinks.congr rfl rfl hfield,
           live_pos := fun p hp => ?_ }
  show 0 < field (Function.update w.arena.mem addr v) p .live
  rw [hfield p hp _ (.inr (.inr rfl))]
  exact hinv.live_pos p hp

end Store

section Step

variable {L : Layout} {w : World}

/-- Every allowed call keeps the invariant. -/
theorem World.Inv.step (hinv : w.Inv L) {c : Call} (hc : w.Allowed c) : (w.step c).1.Inv L := by
  cases c with
  | alloc fresh =>
    obtain ⟨_, -, h, -⟩ := hinv.alloc_spec hc
    exact h
  | free ptr => exact (hinv.step_free hc).1
  | store addr v => exact hinv.step_store hc

/-- No allowed call panics: in particular `take_slot` always finds its free slot. -/
theorem World.Inv.step_ne_panicked (hinv : w.Inv L) {c : Call} (hc : w.Allowed c) :
    (w.step c).2 ≠ .panicked := by
  cases c with
  | alloc fresh =>
    obtain ⟨ptr, hr, -⟩ := hinv.alloc_spec hc
    rw [hr]
    exact Reply.noConfusion
  | free ptr => exact (hinv.step_free hc).2
  | store addr v => exact Reply.noConfusion

end Step

end ObjectArena

end Archipelago.Mm
