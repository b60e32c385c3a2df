import Archipelago.Crt.MallocWalk
import Archipelago.Lib.Extents

/-! How the blocks of the heap lie. Every block, free or handed out, is a header at its own
address followed by the rest of its units; `Laid` says the blocks lie apart, are not empty, sit
in the arenas `morecore` mapped, are header-aligned and lie above `g_base`, a block of no units.
The free list is kept from `g_base` on in address order with room between any two blocks
(`Gap`): no free block ends where another starts, since `free` merges those. `Ready` is that
invariant on a heap once `malloc` has linked `g_base` to itself, for the blocks handed out and
the arenas mapped.

The edits the two calls make each get a lemma over `Laid`: a block carved in two (`carve`), two
adjacent blocks merged (`merge`), a fresh arena's block added (`fresh`); moving a block between
the free list and the blocks handed out is a permutation of the one list of all blocks. -/

namespace Archipelago.Crt

open Archipelago.Lib

/-- The bytes of the block at `x`. -/
def span (u : Nat → Nat) (x : Nat) : Nat := HEADER * u x

/-- `x` ends before `y` starts, with room between. -/
def Gap (u : Nat → Nat) (x y : Nat) : Prop := x + span u x < y

theorem HEADER_eq : HEADER = 16 := rfl

theorem span_update_self (u : Nat → Nat) (x n : Nat) : span (Function.update u x n) x = HEADER * n := by
  rw [span, Function.update_self]

theorem span_update_of_ne {u : Nat → Nat} {x y : Nat} (n : Nat) (h : y ≠ x) :
    span (Function.update u x n) y = span u y := by
  rw [span, span, Function.update_of_ne h]

/-- Blocks that keep or lose units keep their gaps. -/
theorem gaps_mono {u u' : Nat → Nat} {l : List Nat} (hl : l.Pairwise (Gap u))
    (hu : ∀ x ∈ l, u' x ≤ u x) : l.Pairwise (Gap u') :=
  hl.imp_of_mem fun {x _} hx _ hxy => by
    have := hu x hx
    unfold Gap span at *
    have := Nat.mul_le_mul_left HEADER this
    omega

/-- Blocks that keep or lose units stay apart. -/
theorem apart_mono {u u' : Nat → Nat} {l : List Nat} (hl : l.Pairwise (Apart (span u)))
    (hu : ∀ x ∈ l, u' x ≤ u x) : l.Pairwise (Apart (span u')) :=
  hl.imp_of_mem fun {x y} hx hy hxy =>
    hxy.mono (Nat.mul_le_mul_left HEADER (hu x hx)) (Nat.mul_le_mul_left HEADER (hu y hy))

/-- The blocks, free and handed out, in the arenas `A`, with `g_base` at `base`. -/
structure Laid (base : Nat) (B : List Nat) (u : Nat → Nat) (A : List (Nat × Nat)) : Prop where
  apart : B.Pairwise (Apart (span u))
  pos : ∀ x ∈ B, 0 < u x
  covered : ∀ x ∈ B, Covered A x (x + span u x)
  aligned : ∀ x ∈ B, HEADER ∣ x
  above : ∀ x ∈ B, base < x
  base_units : u base = 0

namespace Laid

variable {base : Nat} {B B' : List Nat} {u : Nat → Nat} {A : List (Nat × Nat)}

theorem nodup (hl : Laid base B u A) : B.Nodup :=
  hl.apart.imp_of_mem fun {x _} hx _ hxy => hxy.ne (Nat.mul_pos (by decide) (hl.pos x hx))

theorem perm (hl : Laid base B u A) (hB : B.Perm B') : Laid base B' u A where
  apart := (hB.pairwise_iff Apart.symm).mp hl.apart
  pos x hx := hl.pos x (hB.mem_iff.mpr hx)
  covered x hx := hl.covered x (hB.mem_iff.mpr hx)
  aligned x hx := hl.aligned x (hB.mem_iff.mpr hx)
  above x hx := hl.above x (hB.mem_iff.mpr hx)
  base_units := hl.base_units

theorem subset (hl : Laid base B u A) {A' : List (Nat × Nat)} (hA : A ⊆ A') : Laid base B u A' :=
  { hl with covered := fun x hx => (hl.covered x hx).subset hA }

/-- No block starts strictly inside another. -/
theorem not_mem_of_inside (hl : Laid base B u A) {x a : Nat} (hx : x ∈ B) (h₁ : x < a)
    (h₂ : a < x + span u x) : a ∉ B := by
  intro ha
  have hpos := Nat.mul_pos (show 0 < HEADER by decide) (hl.pos a ha)
  obtain ⟨B₁, B₂, rfl⟩ := List.append_of_mem hx
  have hap : Apart (span u) x a := by
    rcases List.mem_append.mp ha with ha | ha
    · exact ((List.pairwise_append.mp hl.apart).2.2 a ha x List.mem_cons_self).symm
    · rcases List.mem_cons.mp ha with rfl | ha
      · omega
      · exact (List.pairwise_cons.mp (List.pairwise_append.mp hl.apart).2.1).1 a ha
  unfold Apart span at hap
  unfold span at hpos h₂
  omega

/-- In arenas below the end of the address space every block ends there too. -/
theorem end_le (hl : Laid base B u A) (hA : ∀ e ∈ A, e.1 + e.2 ≤ 0x10000000000000000) {x : Nat}
    (hx : x ∈ B) : x + span u x ≤ 0x10000000000000000 := by
  have hpos : 0 < span u x := Nat.mul_pos (by decide) (hl.pos x hx)
  obtain ⟨e, he, -, hlt⟩ := hl.covered x hx (x + span u x - 1) (by omega) (by omega)
  have := hA e he
  omega

/-- Two adjacent blocks merge into the first. -/
theorem merge {x y : Nat} (hl : Laid base (x :: y :: B) u A) (hxy : x + span u x = y) :
    Laid base (x :: B) (Function.update u x (u x + u y)) A := by
  obtain ⟨hx, hyB⟩ := List.pairwise_cons.mp hl.apart
  obtain ⟨hy, hB⟩ := List.pairwise_cons.mp hyB
  have hsub : x :: B ⊆ x :: y :: B := List.cons_subset_cons x (List.subset_cons_self y B)
  have hxB : ∀ z ∈ B, z ≠ x := fun z hz =>
    ((hx z (List.mem_cons_of_mem _ hz)).ne (Nat.mul_pos (by decide) (hl.pos x List.mem_cons_self))).symm
  have hu : ∀ z ∈ B, Function.update u x (u x + u y) z = u z :=
    fun z hz => Function.update_of_ne (hxB z hz) _ _
  have hspan : span (Function.update u x (u x + u y)) x = span u x + span u y := by
    rw [span_update_self, Nat.mul_add]
    rfl
  refine ⟨List.pairwise_cons.mpr ⟨fun z hz => ?_, apart_mono hB fun z hz => (hu z hz).le⟩,
    List.forall_mem_cons.mpr ⟨?_, fun z hz => ?_⟩, List.forall_mem_cons.mpr ⟨?_, fun z hz => ?_⟩,
    fun z hz => hl.aligned z (hsub hz), fun z hz => hl.above z (hsub hz), ?_⟩
  · exact (hx z (List.mem_cons_of_mem _ hz)).merge (hy z hz) hxy
      (Nat.mul_pos (by decide) (hl.pos z (by simp [hz]))) hspan (span_update_of_ne _ (hxB z hz))
  · rw [Function.update_self]
    exact Nat.add_pos_left (hl.pos x List.mem_cons_self) _
  · rw [hu z hz]
    exact hl.pos z (by simp [hz])
  · rw [hspan, ← Nat.add_assoc, hxy]
    exact (hl.covered x List.mem_cons_self).append (hxy ▸ hl.covered y (by simp))
  · rw [span_update_of_ne _ (hxB z hz)]
    exact hl.covered z (by simp [hz])
  · rw [Function.update_of_ne (hl.above x List.mem_cons_self).ne]
    exact hl.base_units

/-- A block carved in two: its first `u q - n` units stay, the last `n` become a block of their
own. -/
theorem carve {q n : Nat} (hl : Laid base (q :: B) u A) (hn : 0 < n) (hnq : n < u q) :
    Laid base (q :: (q + HEADER * (u q - n)) :: B)
      (Function.update (Function.update u q (u q - n)) (q + HEADER * (u q - n)) n) A := by
  obtain ⟨hq, hB⟩ := List.pairwise_cons.mp hl.apart
  have hr : 0 < HEADER * (u q - n) := Nat.mul_pos (by decide) (by omega)
  have hqB : ∀ z ∈ B, z ≠ q := fun z hz h => (List.nodup_cons.mp hl.nodup).1 (h ▸ hz)
  have ht : q + HEADER * (u q - n) ∉ q :: B :=
    hl.not_mem_of_inside List.mem_cons_self (by omega)
      (by unfold span; rw [HEADER_eq] at hr ⊢; omega)
  have htB : ∀ z ∈ B, z ≠ q + HEADER * (u q - n) := fun z hz h =>
    ht (List.mem_cons_of_mem _ (h ▸ hz))
  have htq : q + HEADER * (u q - n) ≠ q := by omega
  have hbq := hl.above q List.mem_cons_self
  have hcq := hl.covered q List.mem_cons_self
  have huq : Function.update (Function.update u q (u q - n)) (q + HEADER * (u q - n)) n q = u q - n := by
    rw [Function.update_of_ne htq.symm, Function.update_self]
  have hut : Function.update (Function.update u q (u q - n)) (q + HEADER * (u q - n)) n
      (q + HEADER * (u q - n)) = n := Function.update_self _ _ _
  have huz : ∀ z ∈ B,
      Function.update (Function.update u q (u q - n)) (q + HEADER * (u q - n)) n z = u z := fun z hz => by
    rw [Function.update_of_ne (htB z hz), Function.update_of_ne (hqB z hz)]
  have hend : q + HEADER * (u q - n) + HEADER * n = q + span u q := by
    unfold span
    rw [Nat.add_assoc, ← Nat.mul_add, Nat.sub_add_cancel hnq.le]
  unfold span at hend
  refine ⟨List.pairwise_cons.mpr ⟨List.forall_mem_cons.mpr ⟨?_, fun z hz => ?_⟩,
      List.pairwise_cons.mpr ⟨fun z hz => ?_, apart_mono hB fun z hz => (huz z hz).le⟩⟩,
    List.forall_mem_cons.mpr ⟨by rw [huq]; omega, List.forall_mem_cons.mpr ⟨by rw [hut]; exact hn,
      fun z hz => by rw [huz z hz]; exact hl.pos z (List.mem_cons_of_mem _ hz)⟩⟩,
    List.forall_mem_cons.mpr ⟨?_, List.forall_mem_cons.mpr ⟨?_, fun z hz => ?_⟩⟩,
    List.forall_mem_cons.mpr ⟨hl.aligned q List.mem_cons_self, List.forall_mem_cons.mpr
      ⟨Nat.dvd_add (hl.aligned q List.mem_cons_self) (Nat.dvd_mul_right _ _),
        fun z hz => hl.aligned z (List.mem_cons_of_mem _ hz)⟩⟩,
    List.forall_mem_cons.mpr ⟨hbq, List.forall_mem_cons.mpr ⟨by omega,
      fun z hz => hl.above z (List.mem_cons_of_mem _ hz)⟩⟩, ?_⟩
  · -- the head ends where the tail starts
    unfold Apart span
    rw [huq, hut]
    omega
  · -- the head lies inside the old block, apart from the rest
    have := hq z hz
    unfold Apart span at this ⊢
    rw [huq, huz z hz]
    have := Nat.mul_le_mul_left HEADER (Nat.sub_le (u q) n)
    omega
  · have := hq z hz
    unfold Apart span at this ⊢
    rw [hut, huz z hz]
    omega
  · unfold span
    rw [huq]
    exact hcq.mono le_rfl (by unfold span; omega)
  · unfold span
    rw [hut, hend]
    exact hcq.mono (by omega) le_rfl
  · unfold span
    rw [huz z hz]
    exact hl.covered z (List.mem_cons_of_mem _ hz)
  · rw [Function.update_of_ne (by omega), Function.update_of_ne (by omega)]
    exact hl.base_units

/-- The block of a fresh arena, of all of its whole header units, joins the blocks. -/
theorem fresh {a n : Nat} (hl : Laid base B u A) (ha : HEADER ∣ a) (hba : base < a)
    (hn : HEADER ≤ n) (hA : ∀ e ∈ A, a + n ≤ e.1 ∨ e.1 + e.2 ≤ a) :
    Laid base (a :: B) (Function.update u a (n / HEADER)) ((a, n) :: A) := by
  have h16 := HEADER_eq
  have hpos : ∀ z ∈ B, 0 < span u z := fun z hz => Nat.mul_pos (by decide) (hl.pos z hz)
  -- every block lies wholly before or after the arena
  have hsep : ∀ z ∈ B, z + span u z ≤ a ∨ a + n ≤ z := fun z hz =>
    (hl.covered z hz).apart (by have := hpos z hz; omega) (by omega) hA
  have hza : ∀ z ∈ B, z ≠ a := by
    rintro z hz rfl
    have := hsep z hz
    have := hpos z hz
    omega
  have hspan : span (Function.update u a (n / HEADER)) a ≤ n := by
    rw [span_update_self]
    exact Nat.mul_div_le n HEADER
  have huz : ∀ z ∈ B, span (Function.update u a (n / HEADER)) z = span u z :=
    fun z hz => span_update_of_ne _ (hza z hz)
  refine ⟨List.pairwise_cons.mpr ⟨fun z hz => ?_, apart_mono hl.apart fun z hz => ?_⟩,
    List.forall_mem_cons.mpr ⟨?_, fun z hz => ?_⟩, List.forall_mem_cons.mpr ⟨?_, fun z hz => ?_⟩,
    List.forall_mem_cons.mpr ⟨ha, hl.aligned⟩, List.forall_mem_cons.mpr ⟨hba, hl.above⟩, ?_⟩
  · have := hsep z hz
    unfold Apart
    rw [huz z hz]
    omega
  · rw [Function.update_of_ne (hza z hz)]
  · rw [Function.update_self]
    exact Nat.div_pos hn (by decide)
  · rw [Function.update_of_ne (hza z hz)]
    exact hl.pos z hz
  · exact (covered_extent a n A).mono le_rfl (by omega)
  · rw [huz z hz]
    exact (hl.covered z hz).subset (List.subset_cons_self _ _)
  · rw [Function.update_of_ne hba.ne]
    exact hl.base_units

end Laid

/-! ### The heap once set up -/

/-- A heap once `malloc` has linked `g_base` to itself: the free list runs from `g_base` through
the free blocks in address order with room between, `g_freep` is on it, and the free blocks and
the blocks `L` handed out lie in the arenas `A`. -/
structure Ready (h : Heap) (L : List Nat) (A : List (Nat × Nat)) : Prop where
  ring : h.ring = h.base :: h.ring.tail
  laid : Laid h.base (h.ring.tail ++ L) h.units A
  gaps : h.ring.tail.Pairwise (Gap h.units)
  freep : h.freep ∈ h.ring
  base_pos : 0 < h.base

namespace Ready

variable {h : Heap} {L : List Nat} {A : List (Nat × Nat)}

theorem of_free {F : List Nat} (hF : h.ring = h.base :: F) (hl : Laid h.base (F ++ L) h.units A)
    (hg : F.Pairwise (Gap h.units)) (hf : h.freep ∈ h.ring) (hb : 0 < h.base) : Ready h L A := by
  have ht : h.ring.tail = F := by rw [hF]; rfl
  exact ⟨by rw [ht]; exact hF, ht ▸ hl, ht ▸ hg, hf, hb⟩

/-- The free blocks behind `g_base`, as `of_free` takes them. -/
theorem free_list (hr : Ready h L A) :
    ∃ F, h.ring = h.base :: F ∧ Laid h.base (F ++ L) h.units A ∧ F.Pairwise (Gap h.units) :=
  ⟨h.ring.tail, hr.ring, hr.laid, hr.gaps⟩

/-- The free list in address order, `g_base` first. -/
theorem sorted (hr : Ready h L A) : h.ring.Pairwise (· < ·) := by
  rw [hr.ring]
  exact List.pairwise_cons.mpr ⟨fun x hx => hr.laid.above x (List.mem_append_left _ hx),
    hr.gaps.imp fun hxy => lt_of_le_of_lt (Nat.le_add_right _ _) hxy⟩

theorem nodup (hr : Ready h L A) : h.ring.Nodup := hr.sorted.imp ne_of_lt

theorem perm (hr : Ready h L A) {L' : List Nat} (hL : L.Perm L') : Ready h L' A :=
  { hr with laid := hr.laid.perm (hL.append_left _) }

theorem subset (hr : Ready h L A) {A' : List (Nat × Nat)} (hA : A ⊆ A') : Ready h L A' :=
  { hr with laid := hr.laid.subset hA }

end Ready

/-- The first `malloc` links `g_base` to itself, with nothing handed out. -/
theorem ready_init (h : Heap) (hb : 0 < h.base) (A : List (Nat × Nat)) : Ready h.init [] A :=
  Ready.of_free (F := []) rfl
    ⟨List.Pairwise.nil, nofun, nofun, nofun, nofun, Function.update_self _ _ _⟩
    List.Pairwise.nil List.mem_cons_self hb

/-- The end of a pass at a free block `q` that fits, after `prev`: the block taken whole or its
tail carved off is handed out, a header behind the pointer returned, of exactly the units asked. -/
theorem Ready.take {h h' : Heap} {L : List Nat} {A : List (Nat × Nat)} {n prev q ptr : Nat}
    (hr : Ready h L A) (hprev : prev ∈ h.ring) (hsucc : succOf h.ring prev = q) (hn : 0 < n)
    (hnq : n ≤ h.units q) (ht : h.take n prev q = .found h' ptr) :
    Ready h' ((ptr - HEADER) :: L) A ∧ h'.units (ptr - HEADER) = n ∧ HEADER ≤ ptr := by
  obtain ⟨F, hF, hl, hg⟩ := hr.free_list
  have hq : q ∈ h.ring := hsucc ▸ cycSucc_mem 0 hr.nodup hprev
  have hqb : q ≠ h.base := fun hqb => by
    have := hl.base_units
    rw [← hqb] at this
    omega
  have hqF : q ∈ F := by
    rw [hF] at hq
    exact (List.mem_cons.mp hq).resolve_left hqb
  -- the rest of the free blocks with `q` in front
  have hperm : (F ++ L).Perm (q :: (F.erase q ++ L)) :=
    ((List.perm_cons_erase hqF).append_right L).trans (List.Perm.refl _)
  unfold Heap.take at ht
  split_ifs at ht with he
  · -- the block fits exactly and leaves the list
    cases ht
    rw [Nat.add_sub_cancel]
    have hprevq : prev ≠ q := by
      rintro rfl
      refine cycSucc_ne_self 0 hr.nodup ?_ hprev hsucc
      rw [hF]
      exact Nat.succ_le_succ (List.length_pos_of_mem hqF)
    refine ⟨Ready.of_free (F := F.erase q) ?_ ?_ (hg.sublist List.erase_sublist) ?_ hr.base_pos,
      he, Nat.le_add_left _ _⟩
    · show h.ring.erase q = h.base :: F.erase q
      rw [hF, List.erase_cons_tail (by rw [beq_iff_eq]; exact hqb.symm)]
    · exact hl.perm (hperm.trans List.perm_middle.symm)
    · exact (List.mem_erase_of_ne hprevq).mpr hprev
  · -- the tail of the block is carved off and handed out
    cases ht
    rw [Nat.add_sub_cancel]
    have hc := (hl.perm hperm).carve hn (Nat.lt_of_le_of_ne hnq (Ne.symm he))
    have htF : q + HEADER * (h.units q - n) ∉ F := fun htF =>
      hl.not_mem_of_inside (List.mem_append_left _ hqF) (Nat.lt_add_of_pos_right
        (Nat.mul_pos (by decide) (by omega))) (by
          have : HEADER * (h.units q - n) < HEADER * h.units q :=
            Nat.mul_lt_mul_of_pos_left (Nat.sub_lt (by omega) hn) (by decide)
          unfold span
          omega) (List.mem_append_left _ htF)
    refine ⟨Ready.of_free (F := F) hF (hc.perm ?_) (gaps_mono hg fun x hx => ?_) hprev hr.base_pos,
      Function.update_self _ _ _, Nat.le_add_left _ _⟩
    · calc List.Perm (q :: _ :: (F.erase q ++ L)) (_ :: q :: (F.erase q ++ L)) := List.Perm.swap _ _ _
        List.Perm _ (_ :: (F ++ L)) := (hperm.symm).cons _
        List.Perm _ (F ++ _ :: L) := List.perm_middle.symm
    · dsimp only
      rw [Function.update_of_ne (show x ≠ q + HEADER * (h.units q - n) from fun hxt => htF (hxt ▸ hx))]
      by_cases hxq : x = q
      · rw [hxq, Function.update_self]
        exact Nat.sub_le _ _
      · rw [Function.update_of_ne hxq]

/-! ### `free` -/

/-- The second half of `free` sets the heap up again at `p`: the block `b`, linked in after `p`
with the free blocks `M` behind it, merges into `p` where `p` ends at it. -/
theorem ready_coalesce {h : Heap} {L : List Nat} {A : List (Nat × Nat)} {l₁ F₁ M : List Nat}
    {u : Nat → Nat} {p b : Nat} (hl₁ : h.base :: F₁ = l₁ ++ [p])
    (hl : Laid h.base (F₁ ++ b :: M ++ L) u A) (hg : (F₁ ++ M).Pairwise (Gap u))
    (hF₁ : ∀ x ∈ F₁, x < b) (hM : ∀ y ∈ M, Gap u b y) (hb : 0 < h.base) :
    Ready (coalesceBefore h (l₁ ++ p :: b :: M) u b p) L A := by
  -- the free blocks below `b` end at or before it
  have hxb : ∀ x ∈ F₁, x + span u x ≤ b := fun x hx => by
    have := (List.pairwise_append.mp (List.pairwise_append.mp hl.apart).1).2.2 x hx b
      List.mem_cons_self
    have := hF₁ x hx
    unfold Apart at *
    omega
  have hbase : h.base < b := hl.above b (by simp)
  cases l₁ with
  | nil =>
    -- `p` is `g_base`, which has no units to merge
    obtain ⟨rfl, rfl⟩ : h.base = p ∧ F₁ = [] := by simpa using hl₁
    unfold coalesceBefore
    rw [if_neg (by rw [hl.base_units]; omega)]
    exact Ready.of_free (F := b :: M) rfl hl (pairwise_insert hg nofun hM) List.mem_cons_self hb
  | cons a G =>
    obtain ⟨rfl, rfl⟩ : h.base = a ∧ F₁ = G ++ [p] := by simpa using hl₁
    have hGp : ∀ x ∈ G, Gap u x p := fun x hx =>
      (List.pairwise_append.mp (List.pairwise_append.mp hg).1).2.2 x hx p List.mem_cons_self
    have hpb : p < b := hF₁ p (by simp)
    unfold coalesceBefore
    split_ifs with hm
    · -- `p` ends at `b`: `b` leaves the list and `p` takes its units
      have hpGM : p ∉ G ++ M ++ L := by
        have hp := (List.nodup_cons.mp (List.nodup_middle.mp
          (show (G ++ p :: (b :: M ++ L)).Nodup by simpa using hl.nodup))).1
        exact fun hp' => hp (by simp only [List.mem_append, List.mem_cons] at hp' ⊢; tauto)
      have hu : ∀ x ∈ G ++ M, Function.update u p (u p + u b) x ≤ u x := fun x hx => by
        rw [Function.update_of_ne (fun hxp => hpGM (by rw [← hxp]; simp_all))]
      have hring : (h.base :: G ++ p :: b :: M).erase b = h.base :: (G ++ p :: M) := by
        rw [show h.base :: G ++ p :: b :: M = (h.base :: (G ++ [p])) ++ b :: M by simp,
          List.erase_append_right _ (fun hbm => ?_), List.erase_cons_head]
        · simp
        · rcases List.mem_cons.mp hbm with hbb | hbm
          · omega
          · exact absurd (hF₁ b hbm) (lt_irrefl b)
      refine Ready.of_free (F := G ++ p :: M) hring ?_ (pairwise_insert
        (gaps_mono (hg.sublist ((List.sublist_append_left G [p]).append (List.Sublist.refl M))) hu)
        (fun x hx => ?_) (fun y hy => ?_)) (show p ∈ (h.base :: G ++ p :: b :: M).erase b by rw [hring]; simp) hb
      · have hm' : p + span u p = b := hm
        have hperm : List.Perm (G ++ [p] ++ b :: M ++ L) (p :: b :: (G ++ (M ++ L))) := by
          simp only [List.append_assoc, List.cons_append]
          calc List.Perm (G ++ p :: b :: (M ++ L)) (p :: (G ++ b :: (M ++ L))) := List.perm_middle
            List.Perm _ (p :: b :: (G ++ (M ++ L))) := List.perm_middle.cons p
        refine ((hl.perm hperm).merge hm').perm ?_
        simp only [List.append_assoc, List.cons_append]
        exact List.perm_middle.symm
      · have := hGp x hx
        show x + span (Function.update u p (u p + u b)) x < p
        rwa [span_update_of_ne _ (fun hxp => hpGM (by rw [← hxp]; simp [hx]))]
      · have := hM y hy
        show p + HEADER * Function.update u p (u p + u b) p < y
        unfold Gap span at this
        rw [Function.update_self, Nat.mul_add, ← Nat.add_assoc, hm]
        exact this
    · -- no merge: `b` stays linked after `p`, with room on both sides
      refine Ready.of_free (F := G ++ [p] ++ b :: M) (by simp) hl
        (pairwise_insert hg (fun x hx => ?_) hM) (by simp) hb
      have := hxb x hx
      show x + span u x < b
      rcases List.mem_append.mp hx with hx | hx
      · have := hGp x hx
        unfold Gap at this
        omega
      · rw [List.mem_singleton.mp hx] at this ⊢
        exact Nat.lt_of_le_of_ne this hm

/-- `free` of a block handed out: the search finds the last free block below it, and linking
it there, merged with the free blocks it touches, sets the heap up again. -/
theorem Ready.free_block {h : Heap} {L : List Nat} {A : List (Nat × Nat)} {b : Nat}
    (hr : Ready h (b :: L) A) :
    ∃ p, findSpot h.ring b h.ring.length h.freep = some p ∧ Ready (release h b p) L A := by
  obtain ⟨F, hF, hl, hg⟩ := hr.free_list
  have hbF : b ∉ F := fun hb =>
    (List.nodup_cons.mp (List.nodup_middle.mp hl.nodup)).1 (List.mem_append_left _ hb)
  have hbase : h.base < b := hl.above b (List.mem_append_right _ List.mem_cons_self)
  have hs := hr.sorted
  rw [hF] at hs
  -- the free blocks below `b` and above it
  obtain ⟨F₁, F₂, rfl, h₁, h₂⟩ := exists_split_lt b (List.pairwise_cons.mp hs).2
  have h₂' : ∀ y ∈ F₂, b < y := fun y hy =>
    lt_of_le_of_ne (h₂ y hy) (fun hby => hbF (hby ▸ List.mem_append_right _ hy))
  obtain ⟨l₁, p, hl₁⟩ : ∃ l₁ p, h.base :: F₁ = l₁ ++ [p] :=
    (List.eq_nil_or_concat' _).resolve_left (List.cons_ne_nil _ _)
  have hring : h.ring = l₁ ++ p :: F₂ := by
    rw [hF, ← List.cons_append, hl₁, List.append_assoc, List.singleton_append]
  have hs' : (l₁ ++ p :: F₂).Pairwise (· < ·) := hring ▸ hr.sorted
  have hnd : (l₁ ++ p :: F₂).Nodup := hs'.imp ne_of_lt
  have hp : p < b := by
    have hpm : p ∈ h.base :: F₁ := by
      rw [hl₁]
      exact List.mem_append_right _ List.mem_cons_self
    rcases List.mem_cons.mp hpm with rfl | hpm
    exacts [hbase, h₁ p hpm]
  refine ⟨p, by rw [hring]; exact findSpot_eq hs' hp h₂' (hring ▸ hr.freep), ?_⟩
  have hpl₁ : p ∉ l₁ := (List.nodup_cons.mp (List.nodup_middle.mp hnd)).1 ∘ List.mem_append_left _
  unfold release
  rw [show insertAfter p b h.ring = l₁ ++ p :: b :: F₂ by rw [hring]; exact insertAfter_append hpl₁]
  by_cases hma : b + HEADER * h.units b = succOf h.ring p
  · -- `b` ends at the next free block `s`, which merges into it
    rw [if_pos hma]
    obtain ⟨s, M, rfl⟩ : ∃ s M, F₂ = s :: M := by
      cases F₂ with
      | nil =>
        -- the block after the last is `g_base`, below `b`
        rw [hring, succOf_eq, cycSucc_append_singleton 0 (by simpa using hnd),
          show (l₁ ++ [p]).headD 0 = h.base by rw [← hl₁]; rfl] at hma
        omega
      | cons s M => exact ⟨s, M, rfl⟩
    have hsucc : succOf h.ring p = s := by
      rw [hring, succOf_eq]
      exact cycSucc_append_cons 0 hnd
    rw [hsucc] at hma ⊢
    have hbs : b < s := h₂' s List.mem_cons_self
    rw [show l₁ ++ p :: b :: s :: M = (l₁ ++ [p, b]) ++ s :: M by simp,
      List.erase_append_right _ (fun hsl => ?_), List.erase_cons_head,
      show l₁ ++ [p, b] ++ M = l₁ ++ p :: b :: M by simp]
    · have hm : b + span h.units b = s := hma
      have hperm : List.Perm (F₁ ++ s :: M ++ b :: L) (b :: s :: (F₁ ++ (M ++ L))) := by
        simp only [List.append_assoc, List.cons_append]
        calc List.Perm (F₁ ++ s :: (M ++ b :: L)) (s :: (F₁ ++ (M ++ b :: L))) := List.perm_middle
          List.Perm _ (s :: b :: (F₁ ++ (M ++ L))) := by
            rw [← List.append_assoc, ← List.append_assoc]
            exact List.perm_middle.cons s
          List.Perm _ (b :: s :: (F₁ ++ (M ++ L))) := List.Perm.swap b s _
      have hsM : ∀ y ∈ M, Gap h.units s y :=
        (List.pairwise_cons.mp (List.pairwise_append.mp hg).2.1).1
      refine ready_coalesce hl₁ (((hl.perm hperm).merge hm).perm ?_)
        (gaps_mono (hg.sublist ((List.Sublist.refl F₁).append (List.sublist_cons_self s M)))
          fun x hx => ?_) h₁ (fun y hy => ?_) hr.base_pos
      · simp only [List.append_assoc, List.cons_append]
        exact List.perm_middle.symm
      · rw [Function.update_of_ne (fun hxb => hbF (by
          rw [← hxb]
          rcases List.mem_append.mp hx with hx | hx
          exacts [List.mem_append_left _ hx, List.mem_append_right _ (List.mem_cons_of_mem _ hx)]))]
      · have := hsM y hy
        unfold Gap span at this ⊢
        rw [Function.update_self, Nat.mul_add, ← Nat.add_assoc]
        unfold span at hm
        rw [hm]
        exact this
    · -- `s` lies above everything before it
      rcases List.mem_append.mp hsl with hsl | hsl
      · exact absurd ((List.pairwise_append.mp hs').2.2 s hsl s (by simp)) (lt_irrefl s)
      · simp only [List.mem_cons, List.not_mem_nil, or_false] at hsl
        omega
  · -- no merge after: `b` ends before the next free block
    rw [if_neg hma]
    refine ready_coalesce hl₁ (hl.perm ?_) hg h₁ (fun y hy => ?_) hr.base_pos
    · simp only [List.append_assoc, List.cons_append]
      exact List.perm_middle.append_left F₁
    · cases F₂ with
      | nil => exact absurd hy List.not_mem_nil
      | cons s M =>
        have hsucc : succOf h.ring p = s := by
          rw [hring, succOf_eq]
          exact cycSucc_append_cons 0 hnd
        have hbs : Apart (span h.units) s b :=
          (List.pairwise_append.mp hl.apart).2.2 s (List.mem_append_right _ List.mem_cons_self) b
            List.mem_cons_self
        have hbs' := h₂' s List.mem_cons_self
        have hsy : s ≤ y := by
          rcases List.mem_cons.mp hy with rfl | hy
          · exact le_rfl
          · exact ((List.pairwise_cons.mp (List.pairwise_cons.mp
              (List.pairwise_append.mp hs').2.1).2).1 y hy).le
        rw [hsucc] at hma
        unfold Apart span at hbs
        unfold Gap span
        omega

end Archipelago.Crt
