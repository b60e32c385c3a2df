import Archipelago.Mm.EarlyHeap
import Archipelago.Lib.Tiling
import Archipelago.Lib.Bitmap

/-! What the early heap keeps, and why each call keeps it. A heap is well formed (`Wf`) when its
blocks are laid out over its range (`Laid`): they tile it with no gap, every header fits its
block at header alignment with an allocated block's payload behind it (`Block.Sound`), and no two
neighbours are free (`Coalesced`). `on_boot` builds such a heap away from the top of the address
space; one round of `alloc` replaces a free block by pieces that tile it; each merge of `free`
collapses a run of blocks into one. `used` lists the allocated blocks: `free` takes out exactly
the block it releases, and `stats` of a well-formed heap accounts for every byte of it. -/

namespace Archipelago.Mm.EarlyHeap

open Archipelago.Lib Archipelago.Mm.ObjectArena

/-! ### Machine arithmetic -/

theorem two_pow_64 : (0x10000000000000000 : Nat) = 2 ^ 64 := by norm_num

/-- `align_up` at a power of two, when the sum does not wrap: the next multiple. -/
theorem alignUp_two_pow {v k : Nat} (hk : k ≤ 64) (hv : v + 2 ^ k - 1 < 0x10000000000000000) :
    alignUp v (2 ^ k) % 2 ^ k = 0 ∧ v ≤ alignUp v (2 ^ k) ∧ alignUp v (2 ^ k) < v + 2 ^ k := by
  have heq : alignUp v (2 ^ k) = (v + 2 ^ k - 1) - (v + 2 ^ k - 1) % 2 ^ k := by
    rw [alignUp, SIZE_MAX, Nat.mod_eq_of_lt hv]
    exact and_xor_ones_eq_sub_mod (two_pow_64 ▸ hv) hk
  have hpos := Nat.two_pow_pos k
  have hmod := Nat.mod_lt (v + 2 ^ k - 1) hpos
  rw [heq]
  exact ⟨Nat.sub_mod_eq_zero_of_mod_eq (Nat.mod_mod _ _).symm, by omega, by omega⟩

/-- `align_up` at a power of two below `2^64` gives 0 once the sum wraps. -/
theorem alignUp_two_pow_wrap {v k : Nat} (hk : k < 64) (hv : v < 0x10000000000000000)
    (hw : 0x10000000000000000 ≤ v + 2 ^ k - 1) : alignUp v (2 ^ k) = 0 := by
  have h2k : 2 ^ k < 0x10000000000000000 := two_pow_64 ▸ Nat.pow_lt_pow_right (by norm_num) hk
  have hlt : v + 2 ^ k - 1 - 0x10000000000000000 < 2 ^ k := by omega
  rw [alignUp, SIZE_MAX, Nat.mod_eq_sub_mod hw, Nat.mod_eq_of_lt (by omega),
    and_xor_ones_eq_sub_mod (by rw [← two_pow_64]; omega) hk.le, Nat.mod_eq_of_lt hlt, Nat.sub_self]

theorem sub64_of_le {a b : Nat} (hb : b ≤ a) (ha : a < 0x10000000000000000) : sub64 a b = a - b := by
  rw [sub64, show a + 0x10000000000000000 - b = a - b + 0x10000000000000000 by omega,
    Nat.add_mod_right, Nat.mod_eq_of_lt (by omega)]

theorem sub64_of_lt {a b : Nat} (hab : a < b) :
    sub64 a b = a + 0x10000000000000000 - b := by
  rw [sub64, Nat.mod_eq_of_lt (by omega)]

/-- Header alignment, away from the top of the address space. -/
theorem alignUp_eight {v : Nat} (hv : v + 7 < 0x10000000000000000) :
    alignUp v BLOCK_ALIGN % 8 = 0 ∧ v ≤ alignUp v BLOCK_ALIGN ∧ alignUp v BLOCK_ALIGN < v + 8 :=
  alignUp_two_pow (k := 3) (by norm_num) hv

/-- `align_down` at header alignment, below `2^64`: the multiple of eight at or below. -/
theorem alignDown_eight {v : Nat} (hv : v < 0x10000000000000000) :
    alignDown v BLOCK_ALIGN = v - v % 8 :=
  and_xor_ones_eq_sub_mod (k := 3) (two_pow_64 ▸ hv) (by norm_num)

/-! ### One round of `alloc` -/

/-- A block whose header fits in it at header alignment; an allocated one hands out a payload
behind its header. -/
def Block.Sound (b : Block) : Prop :=
  BLOCK_BYTES < b.size ∧ b.addr % BLOCK_ALIGN = 0 ∧
    (b.free = false → b.addr + BLOCK_BYTES ≤ b.payloadBase ∧ b.payloadBase < b.addr + b.size)

/-- No two neighbours are free. -/
def Coalesced (l : List Block) : Prop := l.IsChain fun a c => a.free = false ∨ c.free = false

/-- Where `alloc` splits when it does: past the request, at header alignment, with all of the
block behind it. -/
theorem splitPoint_spec {addr total remaining E n t r : Nat}
    (hfit : addr + total + remaining ≤ E) (hE : E % 8 = 0) (hE64 : E < 0x10000000000000000)
    (h : splitPoint (addr + total) total remaining = (n, t, r)) :
    r = 0 ∨ (total ≤ t ∧ t + r = total + remaining ∧ n = addr + t ∧ n % 8 = 0) := by
  have hv : addr + total + 7 < 0x10000000000000000 := by omega
  obtain ⟨hal, hge, hlt⟩ := alignUp_eight hv
  unfold splitPoint at h
  rw [sub64_of_le hge (by omega)] at h
  split_ifs at h with h0 hgap hsmall
  · -- a rest inside the gap stays with the allocation
    exact .inl (Prod.mk.inj (Prod.mk.inj h).2).2.symm
  · obtain ⟨rfl, rfl, rfl⟩ := h
    exact .inr ⟨by omega, by omega, by omega, hal⟩
  · obtain ⟨rfl, rfl, rfl⟩ := h
    exact .inr ⟨le_rfl, rfl, rfl, by omega⟩
  · exact .inl ((Prod.mk.inj (Prod.mk.inj h).2).2.symm.trans (by omega))

theorem place_eq_some {size a : Nat} {b : Block} {r : List Block} {p : Nat}
    (h : place size a b = some (r, p)) :
    p = alignUp (b.addr + BLOCK_BYTES) a ∧ sub64 p b.addr ≤ b.size ∧
      size ≤ b.size - sub64 p b.addr ∧
      r = carve b p (splitPoint (b.addr + (sub64 p b.addr + size)) (sub64 p b.addr + size)
        (b.size - (sub64 p b.addr + size))) := by
  unfold place at h
  split_ifs at h with h₁ h₂
  obtain ⟨rfl, rfl⟩ := Prod.mk.inj (Option.some.inj h)
  exact ⟨rfl, by omega, by omega, rfl⟩

/-- What one round of `alloc` hands out of a sound free block: an aligned payload behind the
header with room for the request, in an allocated block at the same place, and perhaps a free
block split off behind it; the pieces tile what the block did. -/
theorem place_spec {size k E : Nat} {b : Block} {r : List Block} {p : Nat}
    (hk : k < 64) (hsize : 0 < size) (hb : b.Sound) (hbE : b.addr + b.size ≤ E) (hE : E % 8 = 0)
    (hE64 : E < 0x10000000000000000) (h : place size (2 ^ k) b = some (r, p)) :
    p % 2 ^ k = 0 ∧ ∃ b₁ rest, r = b₁ :: rest ∧ b₁.addr = b.addr ∧ b₁.free = false ∧
      b₁.payloadBase = p ∧ p + size ≤ b.addr + b₁.size ∧ (∀ x ∈ rest, x.free = true) ∧
      Coalesced r ∧ (∀ x ∈ r, x.Sound) ∧
      ∀ c d, Tiles Block.addr Block.size c d [b] → Tiles Block.addr Block.size c d r := by
  obtain ⟨hp, hpfx, hroom, rfl⟩ := place_eq_some h
  have h2k : 2 ^ k ≤ 2 ^ 63 := Nat.pow_le_pow_right (by norm_num) (by omega)
  have h32 : BLOCK_BYTES = 32 := rfl
  have hbs := hb.1
  have hmin : MIN_SPLIT = 48 := rfl
  -- a wrapped payload is 0, below the block, which no block can hold
  have hnw : b.addr + BLOCK_BYTES + 2 ^ k - 1 < 0x10000000000000000 := by
    by_contra hw
    have hzero : p = 0 := hp.trans (alignUp_two_pow_wrap hk (by omega) (by omega))
    rw [hzero, sub64_of_lt (by omega)] at hpfx
    omega
  obtain ⟨hal, hge, hlt⟩ := alignUp_two_pow hk.le hnw
  rw [← hp] at hal hge hlt
  rw [sub64_of_le (by omega) (by omega)] at hpfx hroom ⊢
  refine ⟨hal, ?_⟩
  rcases hs : splitPoint (b.addr + (p - b.addr + size)) (p - b.addr + size)
    (b.size - (p - b.addr + size)) with ⟨n, t, r⟩
  have hsp := splitPoint_spec (E := E) (by omega) hE hE64 hs
  rw [carve_eq]
  split_ifs with hsplit
  · -- split: the allocation, then a free block at header alignment behind it
    obtain ⟨ht, hsum, hn, hn8⟩ := hsp.resolve_left (by omega)
    refine ⟨_, _, rfl, rfl, rfl, rfl, show p + size ≤ b.addr + t by omega, ?_,
      List.isChain_pair.mpr (.inl rfl), ?_, tiles_split rfl hn (show t + r = b.size by omega)⟩
    · intro x hx
      rw [List.mem_singleton] at hx
      subst hx
      rfl
    · intro x hx
      rcases List.mem_pair.mp hx with rfl | rfl
      · exact ⟨show BLOCK_BYTES < t by omega, hb.2.1, fun _ => ⟨hge, show p < b.addr + t by omega⟩⟩
      · exact ⟨show BLOCK_BYTES < r by omega, hn8, nofun⟩
  · -- no split: the whole block goes to the allocation
    refine ⟨_, [], rfl, rfl, rfl, rfl, show p + size ≤ b.addr + b.size by omega, nofun,
      List.isChain_singleton _, ?_, tiles_same rfl rfl⟩
    intro x hx
    rw [List.mem_singleton] at hx
    subst hx
    exact ⟨hbs, hb.2.1, fun _ => ⟨hge, show p < b.addr + b.size by omega⟩⟩

/-! ### The block list -/

theorem exists_head?_of_ne_nil {l : List Block} (h : l ≠ []) : ∃ z, l.head? = some z := by
  cases l with
  | nil => exact absurd rfl h
  | cons z _ => exact ⟨z, rfl⟩

theorem exists_getLast?_of_ne_nil {l : List Block} (h : l ≠ []) : ∃ z, l.getLast? = some z :=
  ⟨l.getLast h, List.getLast?_eq_some_getLast h⟩

/-- A nonempty run replaced by a coalesced one whose first and last blocks are free only where
the run's were. -/
theorem Coalesced.replace {l₁ m r l₂ : List Block} (h : Coalesced (l₁ ++ m ++ l₂))
    (hr : Coalesced r) (hm : m ≠ []) (hr0 : r ≠ [])
    (hhead : ∀ x ∈ r.head?, x.free = true → ∀ y ∈ m.head?, y.free = true)
    (hlast : ∀ x ∈ r.getLast?, x.free = true → ∀ y ∈ m.getLast?, y.free = true) :
    Coalesced (l₁ ++ r ++ l₂) := by
  unfold Coalesced at *
  obtain ⟨h₁m, h₂, hj₂⟩ := List.isChain_append.mp h
  obtain ⟨h₁, -, hj₁⟩ := List.isChain_append.mp h₁m
  obtain ⟨zh, hzh⟩ := exists_head?_of_ne_nil hm
  obtain ⟨zl, hzl⟩ := exists_getLast?_of_ne_nil hm
  obtain ⟨wl, hwl⟩ := exists_getLast?_of_ne_nil hr0
  refine List.isChain_append.mpr ⟨List.isChain_append.mpr ⟨h₁, hr, fun x hx y hy => ?_⟩, h₂,
    fun x hx y hy => ?_⟩
  · -- the seam before the run
    cases hyf : y.free
    · exact .inr rfl
    · exact (hj₁ x hx zh hzh).imp_right fun hz => absurd (hhead y hy hyf zh hzh) (by rw [hz]; decide)
  · -- the seam after it
    rw [List.getLast?_append, hwl, Option.some_or, Option.mem_some_iff] at hx
    subst hx
    have hml : zl ∈ (l₁ ++ m).getLast? := by rw [List.getLast?_append, hzl, Option.some_or]; rfl
    cases hxf : wl.free
    · exact .inl rfl
    · exact (hj₂ zl hml y hy).imp_left fun hz => absurd (hlast wl hwl hxf zl hzl) (by rw [hz]; decide)

/-- A run of blocks laid out over `[a, e)`: they tile it, every header fits its block, and no
two neighbours are free. -/
structure Laid (a e : Nat) (l : List Block) : Prop where
  tiles : Tiles Block.addr Block.size a e l
  sound : ∀ b ∈ l, b.Sound
  coalesced : Coalesced l

/-- What the heap keeps: its blocks are laid out over its range, which ends below `2^64` at
header alignment. -/
structure Wf (h : EarlyHeap) : Prop where
  end_lt : h.heapEnd < 0x10000000000000000
  end_aligned : h.heapEnd % 8 = 0
  laid : Laid h.heapStart h.heapEnd h.blocks

/-! ### `alloc` -/

theorem allocLoop_skip {size a : Nat} {b : Block} {bs : List Block}
    (h : (if b.free then place size a b else none) = none) :
    allocLoop size a (b :: bs) = (allocLoop size a bs).map (Prod.map (b :: ·) id) := by
  rw [allocLoop_cons, h]

theorem allocLoop_take {size a p : Nat} {b : Block} {bs r : List Block}
    (h : (if b.free then place size a b else none) = some (r, p)) :
    allocLoop size a (b :: bs) = some (r ++ bs, p) := by
  rw [allocLoop_cons, h]

/-- Where `alloc`'s walk stops: a free block that one round takes, the blocks before it passed
over. -/
theorem allocLoop_eq_some {size a : Nat} : ∀ {bs l : List Block} {p : Nat},
    allocLoop size a bs = some (l, p) →
      ∃ l₁ b l₂ r, bs = l₁ ++ b :: l₂ ∧ b.free = true ∧ place size a b = some (r, p) ∧
        l = l₁ ++ r ++ l₂
  | [], _, _, h => by cases h
  | b :: bs, l, p, h => by
    cases hpl : (if b.free then place size a b else none) with
    | none =>
      rw [allocLoop_skip hpl] at h
      obtain ⟨⟨l', p'⟩, hl', he⟩ := Option.map_eq_some_iff.mp h
      obtain ⟨l₁, c, l₂, r, rfl, hc, hpc, rfl⟩ := allocLoop_eq_some hl'
      obtain ⟨rfl, rfl⟩ := Prod.mk.inj he
      exact ⟨b :: l₁, c, l₂, r, rfl, hc, hpc, rfl⟩
    | some rp =>
      obtain ⟨r, p'⟩ := rp
      rw [allocLoop_take hpl] at h
      obtain ⟨rfl, rfl⟩ := Prod.mk.inj (Option.some.inj h)
      split_ifs at hpl with hf
      exact ⟨[], b, bs, r, rfl, hf, hpl, rfl⟩

/-- The alignment `alloc` works at: the one asked, raised to `alignof(max_align_t)`, a power of
two below `2^64`. -/
theorem effective_alignment {a : Nat} (ha : isPowerOfTwo a = true)
    (ha64 : a < 0x10000000000000000) :
    ∃ k < 64, 4 ≤ k ∧ (if a < FALLBACK_ALIGN then FALLBACK_ALIGN else a) = 2 ^ k := by
  unfold isPowerOfTwo at ha
  simp only [Bool.and_eq_true, bne_iff_ne, ne_eq, beq_iff_eq] at ha
  have hpow := eq_two_pow_of_and_pred ha.1 ha.2
  split_ifs with hsmall
  · exact ⟨4, by norm_num, le_rfl, rfl⟩
  · refine ⟨a.log2, ?_, ?_, hpow⟩
    · rw [hpow, two_pow_64] at ha64
      exact (Nat.pow_lt_pow_iff_right (by norm_num)).mp ha64
    · have h16 : 2 ^ 4 ≤ 2 ^ a.log2 := by rw [← hpow]; unfold FALLBACK_ALIGN at hsmall; omega
      exact (Nat.pow_le_pow_iff_right (by norm_num)).mp h16

/-- What a successful `alloc` did: nothing for a zero size; otherwise one round at a free block
took the request at the effective alignment. -/
theorem alloc_eq_ok {h h' : EarlyHeap} {size a p : Nat} (ha64 : a < 0x10000000000000000)
    (hal : h.alloc size a = .ok (h', p)) :
    (size = 0 ∧ h' = h ∧ p = 0) ∨
      (0 < size ∧ isPowerOfTwo a = true ∧
        ∃ k < 64, 4 ≤ k ∧ (if a < FALLBACK_ALIGN then FALLBACK_ALIGN else a) = 2 ^ k ∧
        ∃ l₁ b l₂ r, h.blocks = l₁ ++ b :: l₂ ∧ b.free = true ∧ place size (2 ^ k) b = some (r, p) ∧
          h' = { h with blocks := l₁ ++ r ++ l₂, allocCalls := h.allocCalls + 1 }) := by
  unfold alloc at hal
  by_cases h0 : size = 0
  · rw [if_pos h0] at hal
    obtain ⟨rfl, rfl⟩ := Prod.mk.inj (Except.ok.inj hal)
    exact .inl ⟨h0, rfl, rfl⟩
  rw [if_neg h0] at hal
  by_cases hpow : isPowerOfTwo a = true
  · rw [if_neg (by rw [hpow]; decide)] at hal
    obtain ⟨k, hk, hk4, hkeq⟩ := effective_alignment hpow ha64
    rw [hkeq] at hal
    cases hl : allocLoop size (2 ^ k) h.blocks with
    | none =>
      rw [hl] at hal
      cases hal
    | some lp =>
      obtain ⟨l, p'⟩ := lp
      rw [hl] at hal
      obtain ⟨rfl, rfl⟩ := Prod.mk.inj (Except.ok.inj hal)
      obtain ⟨l₁, b, l₂, r, hbs, hb, hpl, rfl⟩ := allocLoop_eq_some hl
      exact .inr ⟨Nat.pos_of_ne_zero h0, hpow, k, hk, hk4, hkeq, l₁, b, l₂, r, hbs, hb, hpl, rfl⟩
  · rw [if_pos (by simpa using hpow)] at hal
    cases hal

/-- `alloc` keeps what the heap keeps. -/
theorem Wf.alloc {h h' : EarlyHeap} {size a p : Nat} (hw : Wf h) (ha64 : a < 0x10000000000000000)
    (hal : h.alloc size a = .ok (h', p)) : Wf h' := by
  rcases alloc_eq_ok ha64 hal with ⟨-, rfl, -⟩ | ⟨hsize, -, k, hk, -, -, l₁, b, l₂, r, hbs, hb, hpl, rfl⟩
  · exact hw
  have hmem : b ∈ h.blocks := hbs ▸ List.mem_append_right _ List.mem_cons_self
  obtain ⟨-, b₁, rest, rfl, -, hb₁, -, -, -, hco, hsound, htiles⟩ :=
    place_spec hk hsize (hw.laid.sound b hmem) (hw.laid.tiles.inside b hmem).2 hw.end_aligned
      hw.end_lt hpl
  have hsplit : h.blocks = l₁ ++ [b] ++ l₂ := by rw [hbs, List.append_assoc, List.singleton_append]
  refine ⟨hw.end_lt, hw.end_aligned, (hsplit ▸ hw.laid.tiles).replace htiles, fun x hx => ?_,
    (hsplit ▸ hw.laid.coalesced).replace hco (List.cons_ne_nil _ _) (List.cons_ne_nil _ _) ?_ ?_⟩
  · rcases List.mem_append.mp hx with hx | hx
    · rcases List.mem_append.mp hx with hx | hx
      · exact hw.laid.sound x (hbs ▸ List.mem_append_left _ hx)
      · exact hsound x hx
    · exact hw.laid.sound x (hbs ▸ List.mem_append_right _ (List.mem_cons_of_mem _ hx))
  · intro x hx hxf
    rw [List.head?_cons, Option.mem_some_iff] at hx
    subst hx
    rw [hb₁] at hxf
    cases hxf
  · intro _ _ _ y hy
    rw [List.getLast?_singleton, Option.mem_some_iff] at hy
    exact hy ▸ hb

/-! ### `free` -/

/-- What `absorb` merges: the run of free blocks right after `b`, up to one that is not free or
the end. -/
theorem absorb_spec : ∀ (b : Block) (rest : List Block), ∃ taken,
    rest = taken ++ (absorb b rest).2 ∧ (∀ x ∈ taken, x.free = true) ∧
      (absorb b rest).1 = { b with size := b.size + (taken.map Block.size).sum } ∧
      ∀ x ∈ (absorb b rest).2.head?, x.free = false
  | b, [] => ⟨[], rfl, nofun, by rw [absorb_nil]; simp, nofun⟩
  | b, n :: rest => by
    rw [absorb_cons]
    split_ifs with hn
    · obtain ⟨taken, h₁, h₂, h₃, h₄⟩ := absorb_spec { b with size := b.size + n.size } rest
      refine ⟨n :: taken, by rw [List.cons_append, ← h₁], ?_, ?_, h₄⟩
      · intro x hx
        rcases List.mem_cons.mp hx with rfl | hx
        · exact hn
        · exact h₂ x hx
      · rw [h₃, List.map_cons, List.sum_cons, Nat.add_assoc]
    · refine ⟨[], rfl, nofun, by simp, ?_⟩
      intro x hx
      rw [List.head?_cons, Option.mem_some_iff] at hx
      subst hx
      simpa using hn

theorem releaseAt_none {b b' : Block} {rest rest' : List Block}
    (h : absorb { b with free := true, payloadBase := 0 } rest = (b', rest')) :
    releaseAt none b rest = b' :: rest' := by
  unfold releaseAt
  rw [h]

theorem releaseAt_some_used {p b b' : Block} {rest rest' : List Block} (hp : p.free = false)
    (h : absorb { b with free := true, payloadBase := 0 } rest = (b', rest')) :
    releaseAt (some p) b rest = p :: b' :: rest' := by
  unfold releaseAt
  rw [h]
  dsimp only
  rw [if_neg (by rw [hp]; decide)]

theorem releaseAt_some_free {p b b' p' : Block} {rest rest' rest'' : List Block}
    (hp : p.free = true) (h : absorb { b with free := true, payloadBase := 0 } rest = (b', rest'))
    (h' : absorb { p with size := p.size + b'.size } rest' = (p', rest'')) :
    releaseAt (some p) b rest = p' :: rest'' := by
  unfold releaseAt
  rw [h]
  dsimp only
  rw [if_pos hp, h']

/-- A free block merged out of a sound one, where it started, with at least its size. -/
theorem sound_of_merged {b b' : Block} (hb : b.Sound) (haddr : b'.addr = b.addr)
    (hsize : b.size ≤ b'.size) (hfree : b'.free = true) : b'.Sound :=
  ⟨lt_of_lt_of_le hb.1 hsize, haddr ▸ hb.2.1, fun h => absurd (hfree.symm.trans h) (by decide)⟩

/-- Any block may lead a coalesced list whose first block is in use. -/
theorem coalesced_cons_used {b : Block} {rest : List Block}
    (hhead : ∀ x ∈ rest.head?, x.free = false) (hrest : Coalesced rest) : Coalesced (b :: rest) :=
  List.isChain_cons.mpr ⟨fun y hy => .inr (hhead y hy), hrest⟩

/-- `absorb` keeps the tiling and the headers: the merged block starts where `b` did with at
least its size, and what follows it is the rest of `rest`, led by a block that is not free. -/
theorem absorb_laid {a e : Nat} {b b' : Block} {rest rest' : List Block}
    (hab : absorb b rest = (b', rest')) (ht : Tiles Block.addr Block.size a e (b :: rest))
    (hs : ∀ x ∈ rest, x.Sound) (hc : Coalesced rest) :
    Tiles Block.addr Block.size a e (b' :: rest') ∧ (∀ x ∈ rest', x.Sound) ∧ Coalesced rest' ∧
      b'.addr = b.addr ∧ b'.free = b.free ∧ b.size ≤ b'.size ∧ ∀ x ∈ rest'.head?, x.free = false := by
  obtain ⟨taken, h₁, -, h₃, h₄⟩ := absorb_spec b rest
  rw [hab] at h₁ h₃ h₄
  simp only at h₁ h₃ h₄
  subst h₃ h₁
  have hsplit : b :: (taken ++ rest') = [] ++ (b :: taken) ++ rest' := rfl
  have hm : ∀ c d, Tiles Block.addr Block.size c d (b :: taken) →
      Tiles Block.addr Block.size c d [{ b with size := b.size + (taken.map Block.size).sum }] :=
    tiles_collapse rfl rfl
  exact ⟨(hsplit ▸ ht).replace hm, fun x hx => hs x (List.mem_append_right _ hx),
    hc.right_of_append, rfl, rfl, Nat.le_add_right _ _, h₄⟩

/-- `free`'s work at the block of the payload keeps the blocks laid out: the block, turned free,
absorbs the free blocks after it, and a free block before it absorbs the result. -/
theorem releaseAt_laid {a e : Nat} {prev : Option Block} {b : Block} {rest : List Block}
    (h : Laid a e (prev.toList ++ b :: rest)) : Laid a e (releaseAt prev b rest) := by
  rcases hab : absorb { b with free := true, payloadBase := 0 } rest with ⟨b', rest'⟩
  cases prev with
  | none =>
    have hb := h.sound b List.mem_cons_self
    obtain ⟨ht, hs, hc, haddr, hfree, hsize, hhead⟩ :=
      absorb_laid hab h.tiles (fun x hx => h.sound x (List.mem_cons_of_mem _ hx)) h.coalesced.tail
    rw [releaseAt_none hab]
    refine ⟨ht, fun x hx => ?_, coalesced_cons_used hhead hc⟩
    rcases List.mem_cons.mp hx with rfl | hx
    · exact sound_of_merged hb haddr hsize hfree
    · exact hs x hx
  | some p =>
    obtain ⟨hpa, hbt⟩ := h.tiles
    have hp := h.sound p List.mem_cons_self
    have hb := h.sound b (List.mem_cons_of_mem _ List.mem_cons_self)
    obtain ⟨ht, hs, hc, haddr, hfree, hsize, hhead⟩ :=
      absorb_laid hab hbt (fun x hx => h.sound x (List.mem_cons_of_mem _ (List.mem_cons_of_mem _ hx)))
        h.coalesced.tail.tail
    cases hpf : p.free with
    | false =>
      -- the block before is in use: the freed block stands on its own
      rw [releaseAt_some_used hpf hab]
      refine ⟨⟨hpa, ht⟩, fun x hx => ?_, List.isChain_cons.mpr ⟨fun y hy => ?_,
        coalesced_cons_used hhead hc⟩⟩
      · rcases List.mem_cons.mp hx with rfl | hx
        · exact hp
        · rcases List.mem_cons.mp hx with rfl | hx
          · exact sound_of_merged hb haddr hsize hfree
          · exact hs x hx
      · exact .inl hpf
    | true =>
      -- the block before is free: it takes the freed block in, and what follows that
      rcases hab' : absorb { p with size := p.size + b'.size } rest' with ⟨p', rest''⟩
      rw [releaseAt_some_free hpf hab hab']
      obtain ⟨hba, ht'⟩ := ht
      have hpt : Tiles Block.addr Block.size a e ({ p with size := p.size + b'.size } :: rest') :=
        ⟨hpa, by rw [← Nat.add_assoc]; exact ht'⟩
      obtain ⟨ht₂, hs₂, hc₂, haddr₂, hfree₂, hsize₂, hhead₂⟩ := absorb_laid hab' hpt hs hc
      refine ⟨ht₂, fun x hx => ?_, coalesced_cons_used hhead₂ hc₂⟩
      rcases List.mem_cons.mp hx with rfl | hx
      · exact sound_of_merged hp haddr₂ (le_trans (Nat.le_add_right _ _) hsize₂) (hfree₂.trans hpf)
      · exact hs₂ x hx

theorem absorb_free (b : Block) (rest : List Block) : (absorb b rest).1.free = b.free := by
  obtain ⟨_, -, -, h, -⟩ := absorb_spec b rest
  rw [h]

/-- What `free`'s walk returns from a block on starts with that block, or with the block it
merged into, free as the block was. -/
theorem freeLoop_head {target : Nat} {b : Block} {bs r : List Block}
    (h : freeLoop target (some b) bs = some r) : ∃ c rest, r = c :: rest ∧ c.free = b.free := by
  cases bs with
  | nil => cases h
  | cons b₂ bs =>
    rw [freeLoop_cons] at h
    split_ifs at h
    · cases h
      rcases hab : absorb { b₂ with free := true, payloadBase := 0 } bs with ⟨b', rest'⟩
      cases hbf : b.free with
      | false => exact ⟨b, _, releaseAt_some_used hbf hab, hbf⟩
      | true =>
        rcases hab' : absorb { b with size := b.size + b'.size } rest' with ⟨p', rest''⟩
        refine ⟨p', rest'', releaseAt_some_free hbf hab hab', ?_⟩
        have hfree := absorb_free { b with size := b.size + b'.size } rest'
        rw [hab'] at hfree
        exact hfree.trans hbf
    · obtain ⟨r', -, rfl⟩ := Option.map_eq_some_iff.mp h
      exact ⟨b, r', rfl, rfl⟩

theorem Laid.tail {a e : Nat} {b : Block} {l : List Block} (h : Laid a e (b :: l)) :
    Laid (a + b.size) e l :=
  ⟨h.tiles.2, fun x hx => h.sound x (List.mem_cons_of_mem _ hx), h.coalesced.tail⟩

/-- `free`'s walk keeps the blocks laid out, from the block before it on. The induction is on
the blocks walked; a block passed over stays in front of what the rest of the walk returns,
which begins with a block as free as the one it passed. -/
theorem freeLoop_laid {target : Nat} : ∀ {a e : Nat} {prev : Option Block} {bs r : List Block},
    freeLoop target prev bs = some r → Laid a e (prev.toList ++ bs) → Laid a e r
  | _, _, _, [], _, hr, _ => by cases hr
  | a, e, prev, b :: bs, r, hr, h => by
    rw [freeLoop_cons] at hr
    split_ifs at hr
    · cases hr
      exact releaseAt_laid h
    · obtain ⟨r', hr', rfl⟩ := Option.map_eq_some_iff.mp hr
      cases prev with
      | none => exact freeLoop_laid hr' h
      | some p =>
        have ih := freeLoop_laid hr' h.tail
        obtain ⟨c, rest, rfl, hc⟩ := freeLoop_head hr'
        have hseam : p.free = false ∨ b.free = false := (List.isChain_cons_cons.mp h.coalesced).1
        refine ⟨⟨h.tiles.1, ih.tiles⟩, fun x hx => ?_, List.isChain_cons_cons.mpr ⟨hc ▸ hseam, ih.coalesced⟩⟩
        rcases List.mem_cons.mp hx with rfl | hx
        · exact h.sound x List.mem_cons_self
        · exact ih.sound x hx

/-- `free`'s walk finds nothing exactly when no block in use has the pointer as its payload. -/
theorem freeLoop_eq_none {target : Nat} : ∀ {prev : Option Block} {bs : List Block},
    freeLoop target prev bs = none ↔ ∀ b ∈ bs, b.free = false → b.payloadBase ≠ target
  | _, [] => by simp [freeLoop_nil]
  | prev, b :: bs => by
    rw [freeLoop_cons, List.forall_mem_cons]
    split_ifs with hb
    · simp only [Bool.and_eq_true, Bool.not_eq_true', beq_iff_eq] at hb
      simp [hb]
    · have hb' : b.free = false → b.payloadBase ≠ target := by simpa using hb
      rw [Option.map_eq_none_iff, freeLoop_eq_none]
      exact ⟨fun h => ⟨hb', h⟩, And.right⟩

/-- What a successful `free` did: nothing for `nullptr`; otherwise the walk found the block of
the pointer. -/
theorem free_eq_ok {h h' : EarlyHeap} {ptr : Nat} (hf : h.free ptr = .ok h') :
    (ptr = 0 ∧ h' = h) ∨
      (ptr ≠ 0 ∧ ∃ r, freeLoop ptr none h.blocks = some r ∧
        h' = { h with blocks := r, freeCalls := h.freeCalls + 1 }) := by
  unfold free at hf
  split_ifs at hf with h0
  · exact .inl ⟨h0, (Except.ok.inj hf).symm⟩
  · split at hf
    · next r hr => exact .inr ⟨h0, r, hr, (Except.ok.inj hf).symm⟩
    · cases hf

/-- `free` panics exactly on a pointer other than `nullptr` that no block in use has as its
payload. -/
theorem free_eq_error {h : EarlyHeap} {ptr : Nat} {e : String} :
    h.free ptr = .error e ↔
      ptr ≠ 0 ∧ (∀ b ∈ h.blocks, b.free = false → b.payloadBase ≠ ptr) ∧
        e = "Invalid pointer free on early heap" := by
  unfold free
  split_ifs with h0
  · simp [h0]
  · rw [← @freeLoop_eq_none ptr none h.blocks]
    cases freeLoop ptr none h.blocks <;> simp [h0, eq_comm]

/-- `free` keeps what the heap keeps. -/
theorem Wf.free {h h' : EarlyHeap} {ptr : Nat} (hw : Wf h) (hf : h.free ptr = .ok h') : Wf h' := by
  rcases free_eq_ok hf with ⟨-, rfl⟩ | ⟨-, r, hr, rfl⟩
  · exact hw
  · exact ⟨hw.end_lt, hw.end_aligned, freeLoop_laid hr hw.laid⟩

/-! ### `on_boot` -/

/-- `on_boot` on a range away from the top of the address space: one free block over the range
rounded inward to header alignment, larger than its header, and nothing counted yet. -/
theorem onBoot_eq_ok {start end_ : Nat} {h : EarlyHeap} (hs : start + 40 ≤ 0x10000000000000000)
    (he : end_ < 0x10000000000000000) (hb : onBoot start end_ = .ok h) :
    Wf h ∧ start ≤ h.heapStart ∧ h.heapEnd ≤ end_ ∧ h.heapStart + BLOCK_BYTES < h.heapEnd ∧
      h.blocks = [⟨h.heapStart, h.heapEnd - h.heapStart, true, 0⟩] ∧ h.allocCalls = 0 ∧
        h.freeCalls = 0 := by
  obtain ⟨ha8, hle, hlt⟩ := alignUp_eight (v := start) (by omega)
  have h32 : BLOCK_BYTES = 32 := rfl
  unfold onBoot at hb
  dsimp only at hb
  rw [alignDown_eight he, Nat.mod_eq_of_lt (by omega : alignUp start BLOCK_ALIGN + BLOCK_BYTES < _)] at hb
  split_ifs at hb with h₁ h₂
  cases hb
  dsimp only
  have hend : (end_ - end_ % 8) % 8 = 0 := Nat.sub_mod_eq_zero_of_mod_eq (Nat.mod_mod _ _).symm
  have hsize := sub64_of_le (a := end_ - end_ % 8) (b := alignUp start BLOCK_ALIGN) (by omega) (by omega)
  refine ⟨⟨show end_ - end_ % 8 < _ by omega, hend, ⟨?_, ?_, List.isChain_singleton _⟩⟩, hle,
    Nat.sub_le _ _, show alignUp start BLOCK_ALIGN + _ < end_ - end_ % 8 by omega, by rw [hsize], rfl, rfl⟩
  · exact ⟨rfl, show alignUp start BLOCK_ALIGN + sub64 _ _ = end_ - end_ % 8 by omega⟩
  · intro x hx
    rw [List.mem_singleton] at hx
    subst hx
    exact ⟨show BLOCK_BYTES < sub64 _ _ by omega, ha8, nofun⟩

/-! ### The blocks in use -/

/-- The blocks in use, in address order: those whose payloads are handed out. -/
def used (l : List Block) : List Block := l.filter fun b => !b.free

@[simp] theorem used_append (l₁ l₂ : List Block) : used (l₁ ++ l₂) = used l₁ ++ used l₂ :=
  List.filter_append ..

theorem used_cons_of_free {b : Block} (hb : b.free = true) (l : List Block) :
    used (b :: l) = used l := by
  simp [used, hb]

theorem used_cons_of_used {b : Block} (hb : b.free = false) (l : List Block) :
    used (b :: l) = b :: used l := by
  simp [used, hb]

theorem used_eq_nil {l : List Block} (h : ∀ x ∈ l, x.free = true) : used l = [] :=
  List.filter_eq_nil_iff.mpr fun x hx => by simp [h x hx]

theorem used_absorb {b b' : Block} {rest rest' : List Block} (hab : absorb b rest = (b', rest')) :
    used rest' = used rest := by
  obtain ⟨taken, h₁, h₂, -, -⟩ := absorb_spec b rest
  rw [hab] at h₁
  rw [h₁, used_append, used_eq_nil h₂, List.nil_append]

/-- Releasing a block takes it out of the blocks in use and leaves the others. -/
theorem used_releaseAt (prev : Option Block) (b : Block) (rest : List Block) :
    used (releaseAt prev b rest) = used (prev.toList ++ rest) := by
  rcases hab : absorb { b with free := true, payloadBase := 0 } rest with ⟨b', rest'⟩
  have hfree : b'.free = true := by
    have := absorb_free { b with free := true, payloadBase := 0 } rest
    rw [hab] at this
    exact this
  cases prev with
  | none =>
    rw [releaseAt_none hab, used_cons_of_free hfree, used_absorb hab]
    rfl
  | some p =>
    cases hp : p.free with
    | false =>
      rw [releaseAt_some_used hp hab, used_cons_of_used hp, used_cons_of_free hfree, used_absorb hab]
      exact (used_cons_of_used hp rest).symm
    | true =>
      rcases hab' : absorb { p with size := p.size + b'.size } rest' with ⟨p', rest''⟩
      have hfree' : p'.free = true := by
        have := absorb_free { p with size := p.size + b'.size } rest'
        rw [hab'] at this
        exact this.trans hp
      rw [releaseAt_some_free hp hab hab', used_cons_of_free hfree', used_absorb hab', used_absorb hab]
      exact (used_cons_of_free hp rest).symm

/-- Where `free`'s walk stops: a block in use with the payload; the blocks in use afterwards are
the others. -/
theorem freeLoop_eq_some {target : Nat} : ∀ {prev : Option Block} {bs r : List Block},
    freeLoop target prev bs = some r →
      ∃ l₁ b l₂, bs = l₁ ++ b :: l₂ ∧ b.free = false ∧ b.payloadBase = target ∧
        used r = used (prev.toList ++ l₁ ++ l₂)
  | _, [], _, h => by cases h
  | prev, b :: bs, r, h => by
    rw [freeLoop_cons] at h
    split_ifs at h with hb
    · cases h
      simp only [Bool.and_eq_true, Bool.not_eq_true', beq_iff_eq] at hb
      exact ⟨[], b, bs, rfl, hb.1, hb.2, by rw [used_releaseAt, List.append_nil]⟩
    · obtain ⟨r', hr', rfl⟩ := Option.map_eq_some_iff.mp h
      obtain ⟨l₁, c, l₂, rfl, hc, hct, hu⟩ := freeLoop_eq_some hr'
      exact ⟨b :: l₁, c, l₂, rfl, hc, hct, by simp [hu]⟩

/-- The payloads of the blocks in use rise strictly in address order: each lies past its
block's header and before the block ends, and the blocks lie apart. -/
theorem Laid.used_payloads_lt {a e : Nat} {l : List Block} (h : Laid a e l) :
    ((used l).map Block.payloadBase).Pairwise (· < ·) := by
  have hsep : (used l).Pairwise fun x y => x.addr + x.size ≤ y.addr :=
    h.tiles.sep.sublist List.filter_sublist
  rw [List.pairwise_map]
  refine hsep.imp_of_mem fun {x y} hx hy hxy => ?_
  have hxu := (List.mem_filter.mp hx).2
  have hyu := (List.mem_filter.mp hy).2
  simp only [Bool.not_eq_true'] at hxu hyu
  have hxs := (h.sound x (List.mem_filter.mp hx).1).2.2 hxu
  have hys := (h.sound y (List.mem_filter.mp hy).1).2.2 hyu
  have h32 : BLOCK_BYTES = 32 := rfl
  omega

/-! ### `stats` -/

/-- What `stats`' loop adds up over blocks that tile `[a, e)`, each larger than its header: one
count a block, the bytes past the headers of the blocks in use, and with the free bytes every
byte of the range that is not a header. -/
theorem statsLoop_spec : ∀ (s : Stats) {a e : Nat} {l : List Block},
    Tiles Block.addr Block.size a e l → (∀ x ∈ l, BLOCK_BYTES < x.size) →
      (statsLoop s l).blocks = s.blocks + l.length ∧
      (statsLoop s l).usedBytes = s.usedBytes + ((used l).map fun b => b.size - BLOCK_BYTES).sum ∧
      a + BLOCK_BYTES * l.length + (statsLoop s l).usedBytes + (statsLoop s l).freeBytes =
        e + s.usedBytes + s.freeBytes ∧
      (statsLoop s l).allocCalls = s.allocCalls ∧ (statsLoop s l).freeCalls = s.freeCalls
  | s, a, e, [], ht, _ => by
    rw [tiles_nil] at ht
    subst ht
    simp [statsLoop_nil, used]
  | s, a, e, b :: l, ⟨_, ht⟩, hs => by
    have hb := hs b List.mem_cons_self
    have hl := fun x hx => hs x (List.mem_cons_of_mem b hx)
    rw [statsLoop_cons, if_pos hb, List.length_cons, Nat.mul_add_one]
    cases hf : b.free with
    | false =>
      obtain ⟨h₁, h₂, h₃, h₄, h₅⟩ := statsLoop_spec
        { s with blocks := s.blocks + 1, usedBytes := s.usedBytes + (b.size - BLOCK_BYTES) } ht hl
      dsimp only at h₁ h₂ h₃ h₄ h₅
      simp only [Bool.false_eq_true, ↓reduceIte, used_cons_of_used hf, List.map_cons, List.sum_cons]
      refine ⟨by rw [h₁]; omega, by rw [h₂]; omega, by omega, h₄, h₅⟩
    | true =>
      obtain ⟨h₁, h₂, h₃, h₄, h₅⟩ := statsLoop_spec
        { s with blocks := s.blocks + 1, freeBytes := s.freeBytes + (b.size - BLOCK_BYTES) } ht hl
      dsimp only at h₁ h₂ h₃ h₄ h₅
      simp only [↓reduceIte, used_cons_of_free hf]
      refine ⟨by rw [h₁]; omega, h₂, by omega, h₄, h₅⟩

/-- `stats` of a well-formed heap: one count a block, the bytes past the headers of the blocks in
use, and with the free bytes and the headers every byte of the range. -/
theorem Wf.stats_spec {h : EarlyHeap} (hw : Wf h) :
    (stats h).blocks = h.blocks.length ∧
      (stats h).usedBytes = ((used h.blocks).map fun b => b.size - BLOCK_BYTES).sum ∧
      BLOCK_BYTES * (stats h).blocks + (stats h).usedBytes + (stats h).freeBytes =
        h.heapEnd - h.heapStart ∧
      (stats h).allocCalls = h.allocCalls ∧ (stats h).freeCalls = h.freeCalls := by
  obtain ⟨h₁, h₂, h₃, h₄, h₅⟩ := statsLoop_spec ⟨0, 0, 0, h.allocCalls, h.freeCalls⟩ hw.laid.tiles
    fun x hx => (hw.laid.sound x hx).1
  dsimp only at h₁ h₂ h₃ h₄ h₅
  refine ⟨by rw [stats, h₁, Nat.zero_add], by rw [stats, h₂, Nat.zero_add], ?_, h₄, h₅⟩
  rw [stats, h₁, Nat.zero_add]
  omega

end Archipelago.Mm.EarlyHeap
