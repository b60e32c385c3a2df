import Archipelago.Mm.EarlyHeapSpec
import Archipelago.Lib.Run

/-! What the early heap promises the kernel, over every run of calls from `on_boot`. The world
holds the heap and the grants its callers hold: what each `alloc` returned, with the size and
alignment asked, until a `free` of it. Through every such run the blocks stay laid out over the
heap, the blocks in use are the live grants one to one, so live grants lie apart, inside the heap
behind a header, and aligned as asked; `free` panics on exactly the pointers that are neither
`nullptr` nor live; and `stats` accounts for every byte, its used bytes covering every live
grant. -/

namespace Archipelago.Mm.EarlyHeap

open Archipelago.Lib

/-- A call the kernel makes on the early heap, with its `size_t` arguments. -/
inductive Call
  | alloc (size alignment : Nat)
  | free (ptr : Nat)
  deriving DecidableEq, Repr

/-- A payload `alloc` returned, with the size and the alignment asked. -/
structure Grant where
  payload : Nat
  size : Nat
  align : Nat
  deriving DecidableEq, Repr

/-- The heap with the grants its callers hold. -/
structure World where
  heap : EarlyHeap
  live : List Grant

/-- One call: `alloc` of a nonzero size adds its grant, `free` takes the pointer's grant back; a
`panic` stops the run. -/
def World.step (w : World) : Call → Except String (World × Nat)
  | .alloc size alignment =>
    match w.heap.alloc size alignment with
    | .ok (h, p) => .ok (⟨h, if size = 0 then w.live else w.live ++ [⟨p, size, alignment⟩]⟩, p)
    | .error e => .error e
  | .free ptr =>
    match w.heap.free ptr with
    | .ok h => .ok (⟨h, w.live.filter (·.payload != ptr)⟩, 0)
    | .error e => .error e

/-- The arguments are `size_t` values. -/
def World.Allowed (_ : World) : Call → Prop
  | .alloc size alignment => size < 0x10000000000000000 ∧ alignment < 0x10000000000000000
  | .free ptr => ptr < 0x10000000000000000

theorem World.step_alloc {w w' : World} {size alignment o : Nat}
    (hs : w.step (.alloc size alignment) = .ok (w', o)) :
    ∃ h, w.heap.alloc size alignment = .ok (h, o) ∧
      w' = ⟨h, if size = 0 then w.live else w.live ++ [⟨o, size, alignment⟩]⟩ := by
  simp only [World.step] at hs
  split at hs
  · next h p hal =>
    obtain ⟨rfl, rfl⟩ := Prod.mk.inj (Except.ok.inj hs)
    exact ⟨h, hal, rfl⟩
  · cases hs

theorem World.step_free {w w' : World} {ptr o : Nat} (hs : w.step (.free ptr) = .ok (w', o)) :
    ∃ h, w.heap.free ptr = .ok h ∧ w' = ⟨h, w.live.filter (·.payload != ptr)⟩ := by
  simp only [World.step] at hs
  split at hs
  · next h hf =>
    obtain ⟨rfl, -⟩ := Prod.mk.inj (Except.ok.inj hs)
    exact ⟨h, hf, rfl⟩
  · cases hs

/-! ### The invariant -/

/-- Grant `g` is the payload of block `b`: the block is in use with `g`'s payload, and `g` ends
inside it. -/
def Backs (b : Block) (g : Grant) : Prop :=
  b.free = false ∧ b.payloadBase = g.payload ∧ g.payload + g.size ≤ b.addr + b.size

/-- The world's invariant: the heap keeps what it keeps, its blocks in use, in address order,
back the live grants one to one, and each grant is aligned as asked and to
`alignof(max_align_t)`. -/
structure World.Inv (w : World) : Prop where
  wf : Wf w.heap
  backed : ∃ gs, gs.Perm w.live ∧ List.Forall₂ Backs (used w.heap.blocks) gs
  aligned : ∀ g ∈ w.live, g.align ∣ g.payload ∧ FALLBACK_ALIGN ∣ g.payload

theorem forall₂_backs_payloads : ∀ {l : List Block} {gs : List Grant}, List.Forall₂ Backs l gs →
    l.map Block.payloadBase = gs.map Grant.payload
  | _, _, .nil => rfl
  | _, _, .cons hb h => by rw [List.map_cons, List.map_cons, hb.2.1, forall₂_backs_payloads h]

/-- A grant lies behind the header of the block in use that backs it. -/
theorem Backs.inside {b : Block} {g : Grant} (hb : b.Sound) (h : Backs b g) :
    b.addr + BLOCK_BYTES ≤ g.payload ∧ g.payload + g.size ≤ b.addr + b.size :=
  ⟨h.2.1 ▸ (hb.2.2 h.1).1, h.2.2⟩

/-- The alignment asked divides the one `alloc` works at. -/
theorem dvd_effective_alignment {a : Nat} (ha : isPowerOfTwo a = true) :
    a ∣ if a < FALLBACK_ALIGN then FALLBACK_ALIGN else a := by
  unfold isPowerOfTwo at ha
  simp only [Bool.and_eq_true, bne_iff_ne, ne_eq, beq_iff_eq] at ha
  have hpow := eq_two_pow_of_and_pred ha.1 ha.2
  split_ifs with hsmall
  · -- a power of two below sixteen divides sixteen
    have hlt : 2 ^ a.log2 < 2 ^ 4 := by rw [← hpow]; exact hsmall
    rw [hpow]
    exact Nat.pow_dvd_pow 2 ((Nat.pow_lt_pow_iff_right (by norm_num)).mp hlt).le
  · exact dvd_rfl

theorem World.Inv.boot {start end_ : Nat} {h : EarlyHeap} (hs : start + 40 ≤ 0x10000000000000000)
    (he : end_ < 0x10000000000000000) (hb : onBoot start end_ = .ok h) : World.Inv ⟨h, []⟩ := by
  obtain ⟨hw, -, -, -, hblocks, -, -⟩ := onBoot_eq_ok hs he hb
  refine ⟨hw, ⟨[], List.Perm.refl _, ?_⟩, nofun⟩
  rw [hblocks, used_cons_of_free rfl]
  exact .nil

/-- `alloc` keeps the invariant: the block it takes from was free, and the block it hands out
backs the new grant, in that block's place among the blocks in use. -/
theorem World.Inv.alloc {w : World} {h : EarlyHeap} {size alignment p : Nat} (hinv : w.Inv)
    (ha64 : alignment < 0x10000000000000000) (hal : w.heap.alloc size alignment = .ok (h, p)) :
    World.Inv ⟨h, if size = 0 then w.live else w.live ++ [⟨p, size, alignment⟩]⟩ := by
  have hwf := hinv.wf.alloc ha64 hal
  rcases alloc_eq_ok ha64 hal with
    ⟨h0, rfl, -⟩ | ⟨hsize, hpow, k, hk, hk4, hkeq, l₁, b, l₂, r, hbs, hb, hpl, rfl⟩
  · rw [if_pos h0]
    exact hinv
  rw [if_neg hsize.ne']
  have hmem : b ∈ w.heap.blocks := hbs ▸ List.mem_append_right _ List.mem_cons_self
  obtain ⟨hp2k, b₁, rest, rfl, hb₁a, hb₁f, hb₁p, hfit, hrest, -, -, -⟩ :=
    place_spec hk hsize (hinv.wf.laid.sound b hmem) (hinv.wf.laid.tiles.inside b hmem).2
      hinv.wf.end_aligned hinv.wf.end_lt hpl
  obtain ⟨gs, hperm, hback⟩ := hinv.backed
  rw [hbs, used_append, used_cons_of_free hb] at hback
  obtain ⟨gs₁, gs₂, rfl, h₁, h₂⟩ := forall₂_append_left hback
  have hnew : Backs b₁ ⟨p, size, alignment⟩ := ⟨hb₁f, hb₁p, hb₁a ▸ hfit⟩
  refine ⟨hwf, ⟨gs₁ ++ ⟨p, size, alignment⟩ :: gs₂, ?_, ?_⟩, fun g hg => ?_⟩
  · calc List.Perm (gs₁ ++ ⟨p, size, alignment⟩ :: gs₂) (⟨p, size, alignment⟩ :: (gs₁ ++ gs₂)) :=
          List.perm_middle
      List.Perm _ ((gs₁ ++ gs₂) ++ [⟨p, size, alignment⟩]) := (List.perm_append_singleton _ _).symm
      List.Perm _ (w.live ++ [⟨p, size, alignment⟩]) := hperm.append_right _
  · -- the pieces after the handed-out block are free, so it is the only new block in use
    show List.Forall₂ Backs (used (l₁ ++ (b₁ :: rest) ++ l₂)) _
    rw [used_append, used_append, used_cons_of_used hb₁f, used_eq_nil hrest, List.append_assoc]
    exact List.rel_append h₁ (.cons hnew h₂)
  · rcases List.mem_append.mp hg with hg | hg
    · exact hinv.aligned g hg
    · rw [List.mem_singleton] at hg
      subst hg
      have hdvd : 2 ^ k ∣ p := Nat.dvd_of_mod_eq_zero hp2k
      exact ⟨Nat.dvd_trans (hkeq ▸ dvd_effective_alignment hpow) hdvd,
        Nat.dvd_trans (Nat.pow_dvd_pow 2 hk4) hdvd⟩

/-- `free` keeps the invariant: the block it releases backs the one grant with the pointer, since
the payloads of the blocks in use are all different. -/
theorem World.Inv.free {w : World} {h : EarlyHeap} {ptr : Nat} (hinv : w.Inv)
    (hf : w.heap.free ptr = .ok h) : World.Inv ⟨h, w.live.filter (·.payload != ptr)⟩ := by
  have hwf := hinv.wf.free hf
  obtain ⟨gs, hperm, hback⟩ := hinv.backed
  have hpay := forall₂_backs_payloads hback
  have hlt := hinv.wf.laid.used_payloads_lt
  have hal : ∀ g ∈ w.live.filter (·.payload != ptr), g.align ∣ g.payload ∧ FALLBACK_ALIGN ∣ g.payload :=
    fun g hg => hinv.aligned g (List.mem_of_mem_filter hg)
  rcases free_eq_ok hf with ⟨rfl, rfl⟩ | ⟨-, r, hr, rfl⟩
  · -- `nullptr`: no grant has payload 0, since every payload lies behind a header
    refine ⟨hwf, ⟨gs, ?_, hback⟩, hal⟩
    rw [List.filter_eq_self.mpr]
    · exact hperm
    · intro g hg
      obtain ⟨b, hb, hbg⟩ := forall₂_exists_left hback g (hperm.symm.subset hg)
      have := (Backs.inside (hinv.wf.laid.sound b (List.mem_of_mem_filter hb)) hbg).1
      have h32 : BLOCK_BYTES = 32 := rfl
      simp only [bne_iff_ne, ne_eq]
      omega
  obtain ⟨l₁, b, l₂, hbs, hbf, hbp, hu⟩ := freeLoop_eq_some hr
  rw [hbs, used_append, used_cons_of_used hbf] at hback hpay hlt
  obtain ⟨gs₁, gs₂', rfl, h₁, h₂'⟩ := forall₂_append_left hback
  obtain ⟨g, gs₂, hbg, h₂, rfl⟩ := List.forall₂_cons_left_iff.mp h₂'
  -- `ptr` is the payload of `g` and of no other grant
  have hnd : (gs₁.map Grant.payload ++ ptr :: gs₂.map Grant.payload).Nodup := by
    have := hlt.imp Nat.ne_of_lt
    rwa [hpay, List.map_append, List.map_cons, ← hbg.2.1, hbp] at this
  have hout₁ : ∀ x ∈ gs₁, x.payload ≠ ptr := fun x hx hxp =>
    List.disjoint_of_nodup_append hnd (List.mem_map_of_mem hx) (hxp ▸ List.mem_cons_self)
  have hout₂ : ∀ x ∈ gs₂, x.payload ≠ ptr := fun x hx hxp =>
    (List.nodup_cons.mp (List.nodup_append.mp hnd).2.1).1 (hxp ▸ List.mem_map_of_mem hx)
  refine ⟨hwf, ⟨gs₁ ++ gs₂, ?_, ?_⟩, hal⟩
  · have hfil := hperm.filter fun x => x.payload != ptr
    rwa [List.filter_append, List.filter_cons_of_neg (by simp [← hbg.2.1, hbp]),
      List.filter_eq_self.mpr (by simpa using hout₁), List.filter_eq_self.mpr (by simpa using hout₂)]
      at hfil
  · show List.Forall₂ Backs (used r) _
    rw [hu, Option.toList_none, List.nil_append, used_append]
    exact List.rel_append h₁ h₂

theorem World.Inv.step {w w' : World} {c : Call} {o : Nat} (hinv : w.Inv) (hok : w.Allowed c)
    (hs : w.step c = .ok (w', o)) : w'.Inv := by
  cases c with
  | alloc size alignment =>
    obtain ⟨h, hal, rfl⟩ := World.step_alloc hs
    exact hinv.alloc hok.2 hal
  | free ptr =>
    obtain ⟨h, hf, rfl⟩ := World.step_free hs
    exact hinv.free hf

theorem World.Inv.of_reaches {start end_ : Nat} {h₀ : EarlyHeap} {w : World}
    (hs : start + 40 ≤ 0x10000000000000000) (he : end_ < 0x10000000000000000)
    (hb : onBoot start end_ = .ok h₀) (hw : Reaches World.step World.Allowed ⟨h₀, []⟩ w) : w.Inv :=
  Reaches.invariant World.Inv (World.Inv.boot hs he hb) (fun _ _ _ _ hinv hok hst => hinv.step hok hst) hw

/-! ### What the invariant gives the kernel -/

/-- Live grants lie behind a header inside the heap. -/
theorem World.Inv.live_inside {w : World} (hinv : w.Inv) :
    ∀ g ∈ w.live, w.heap.heapStart + BLOCK_BYTES ≤ g.payload ∧ g.payload + g.size ≤ w.heap.heapEnd := by
  intro g hg
  obtain ⟨gs, hperm, hback⟩ := hinv.backed
  obtain ⟨b, hb, hbg⟩ := forall₂_exists_left hback g (hperm.symm.subset hg)
  have hmem := List.mem_of_mem_filter hb
  have hin := Backs.inside (hinv.wf.laid.sound b hmem) hbg
  have hrange := hinv.wf.laid.tiles.inside b hmem
  omega

/-- Live grants lie apart. -/
theorem World.Inv.live_apart {w : World} (hinv : w.Inv) :
    w.live.Pairwise fun g g' => g.payload + g.size ≤ g'.payload ∨ g'.payload + g'.size ≤ g.payload := by
  obtain ⟨gs, hperm, hback⟩ := hinv.backed
  have hsep : Sep Grant.payload Grant.size gs :=
    Sep.of_forall₂ (hinv.wf.laid.tiles.sep.sublist List.filter_sublist) (fun b hb g hbg => by
      have := Backs.inside (hinv.wf.laid.sound b (List.mem_of_mem_filter hb)) hbg
      omega) hback
  exact (List.Perm.pairwise_iff Or.symm hperm).mp (hsep.imp Or.inl)

/-- The payloads of the blocks in use are those of the live grants. -/
theorem World.Inv.payloads_perm {w : World} (hinv : w.Inv) :
    ((used w.heap.blocks).map Block.payloadBase).Perm (w.live.map Grant.payload) := by
  obtain ⟨gs, hperm, hback⟩ := hinv.backed
  rw [forall₂_backs_payloads hback]
  exact hperm.map _

/-- `free` panics on exactly the pointers that are neither `nullptr` nor live. -/
theorem World.Inv.free_error {w : World} (hinv : w.Inv) {ptr : Nat} {e : String} :
    w.heap.free ptr = .error e ↔
      ptr ≠ 0 ∧ ptr ∉ w.live.map Grant.payload ∧ e = "Invalid pointer free on early heap" := by
  rw [free_eq_error, ← hinv.payloads_perm.mem_iff]
  simp only [used, List.mem_map, List.mem_filter, Bool.not_eq_true', not_exists, not_and]
  exact and_congr_right fun _ => and_congr_left fun _ =>
    ⟨fun h b hb => h b hb.1 hb.2, fun h b hb hbf => h b ⟨hb, hbf⟩⟩

theorem sum_size_le : ∀ {l : List Block} {gs : List Grant}, List.Forall₂ Backs l gs →
    (∀ b ∈ l, b.Sound) → (gs.map Grant.size).sum ≤ (l.map fun b => b.size - BLOCK_BYTES).sum
  | _, _, .nil, _ => le_rfl
  | b :: _, _, .cons hb h, hs => by
    rw [List.map_cons, List.map_cons, List.sum_cons, List.sum_cons]
    have hin := Backs.inside (hs b List.mem_cons_self) hb
    have ih := sum_size_le h fun x hx => hs x (List.mem_cons_of_mem _ hx)
    omega

/-- `stats` accounts for every byte of the heap, and its used bytes cover the live grants. -/
theorem World.Inv.stats {w : World} (hinv : w.Inv) :
    BLOCK_BYTES * (EarlyHeap.stats w.heap).blocks + (EarlyHeap.stats w.heap).usedBytes +
        (EarlyHeap.stats w.heap).freeBytes = w.heap.heapEnd - w.heap.heapStart ∧
      (w.live.map Grant.size).sum ≤ (EarlyHeap.stats w.heap).usedBytes := by
  obtain ⟨-, hused, hbytes, -, -⟩ := hinv.wf.stats_spec
  obtain ⟨gs, hperm, hback⟩ := hinv.backed
  refine ⟨hbytes, ?_⟩
  rw [hused, ← (hperm.map Grant.size).sum_eq]
  exact sum_size_le hback fun b hb => hinv.wf.laid.sound b (List.mem_of_mem_filter hb)

/-! ### Over every run from `on_boot` -/

/-- The heap `on_boot` builds over `[0x1000, 0x1100)`. -/
def bootHeap : EarlyHeap := ⟨[⟨0x1000, 0x100, true, 0⟩], 0x1000, 0x1100, 0, 0⟩

/-- That heap after a 24-byte allocation at 64, which splits the rest off behind it. -/
def grantedWorld : World :=
  ⟨⟨[⟨0x1000, 0x58, false, 0x1040⟩, ⟨0x1058, 0xA8, true, 0⟩], 0x1000, 0x1100, 1, 0⟩, [⟨0x1040, 24, 64⟩]⟩

theorem bootHeap_eq : onBoot 0x1000 0x1100 = .ok bootHeap := rfl

theorem grantedWorld_reaches : Reaches World.step World.Allowed ⟨bootHeap, []⟩ grantedWorld :=
  .step (i := .alloc 24 64) (o := 0x1040) .start ⟨by norm_num, by norm_num⟩ rfl

section Runs

variable {start end_ : Nat} {h₀ : EarlyHeap} {w : World}
  (hs : start + 40 ≤ 0x10000000000000000) (he : end_ < 0x10000000000000000)
  (hb : onBoot start end_ = .ok h₀) (hw : Reaches World.step World.Allowed ⟨h₀, []⟩ w)

include hs he hb hw

/-- Through every run the blocks tile the heap, each header fits its block at header alignment
with an allocated block's payload behind it, and no two neighbours are free. -/
theorem heap_laid_out_over_runs : Wf w.heap :=
  (World.Inv.of_reaches hs he hb hw).wf

/-- Through every run the payloads of the blocks in use are those of the live grants, and live
grants lie apart, inside the heap behind a header, aligned as asked and to
`alignof(max_align_t)`. -/
theorem live_grants_apart_inside_aligned :
    ((used w.heap.blocks).map Block.payloadBase).Perm (w.live.map Grant.payload) ∧
      w.live.Pairwise (fun g g' => g.payload + g.size ≤ g'.payload ∨ g'.payload + g'.size ≤ g.payload) ∧
      ∀ g ∈ w.live, w.heap.heapStart + BLOCK_BYTES ≤ g.payload ∧ g.payload + g.size ≤ w.heap.heapEnd ∧
        g.align ∣ g.payload ∧ FALLBACK_ALIGN ∣ g.payload := by
  have hinv := World.Inv.of_reaches hs he hb hw
  exact ⟨hinv.payloads_perm, hinv.live_apart, fun g hg =>
    ⟨(hinv.live_inside g hg).1, (hinv.live_inside g hg).2, hinv.aligned g hg⟩⟩

/-- Through every run `free` panics on exactly the pointers that are neither `nullptr` nor
live. -/
theorem free_panics_iff_not_live (ptr : Nat) (e : String) :
    w.heap.free ptr = .error e ↔
      ptr ≠ 0 ∧ ptr ∉ w.live.map Grant.payload ∧ e = "Invalid pointer free on early heap" :=
  (World.Inv.of_reaches hs he hb hw).free_error

/-- Through every run `stats` accounts for every byte of the heap, a header a block and the rest
used or free, and its used bytes cover the live grants. -/
theorem stats_account_for_heap :
    BLOCK_BYTES * (EarlyHeap.stats w.heap).blocks + (EarlyHeap.stats w.heap).usedBytes +
        (EarlyHeap.stats w.heap).freeBytes = w.heap.heapEnd - w.heap.heapStart ∧
      (w.live.map Grant.size).sum ≤ (EarlyHeap.stats w.heap).usedBytes :=
  (World.Inv.of_reaches hs he hb hw).stats

end Runs

theorem granted_heap_laid_out : Wf grantedWorld.heap :=
  heap_laid_out_over_runs (by norm_num) (by norm_num) bootHeap_eq
    grantedWorld_reaches

theorem granted_grant_apart_inside_aligned :
    ((used grantedWorld.heap.blocks).map Block.payloadBase).Perm (grantedWorld.live.map Grant.payload) ∧
      grantedWorld.live.Pairwise
        (fun g g' => g.payload + g.size ≤ g'.payload ∨ g'.payload + g'.size ≤ g.payload) ∧
      ∀ g ∈ grantedWorld.live, grantedWorld.heap.heapStart + BLOCK_BYTES ≤ g.payload ∧
        g.payload + g.size ≤ grantedWorld.heap.heapEnd ∧ g.align ∣ g.payload ∧ FALLBACK_ALIGN ∣ g.payload :=
  live_grants_apart_inside_aligned (by norm_num) (by norm_num) bootHeap_eq
    grantedWorld_reaches

theorem granted_free_inside_grant_panics :
    grantedWorld.heap.free 0x1050 = .error "Invalid pointer free on early heap" ↔
      0x1050 ≠ 0 ∧ 0x1050 ∉ grantedWorld.live.map Grant.payload ∧
        "Invalid pointer free on early heap" = "Invalid pointer free on early heap" :=
  free_panics_iff_not_live (by norm_num) (by norm_num) bootHeap_eq
    grantedWorld_reaches 0x1050 _

theorem granted_stats_account :
    BLOCK_BYTES * (EarlyHeap.stats grantedWorld.heap).blocks + (EarlyHeap.stats grantedWorld.heap).usedBytes +
        (EarlyHeap.stats grantedWorld.heap).freeBytes = grantedWorld.heap.heapEnd - grantedWorld.heap.heapStart ∧
      (grantedWorld.live.map Grant.size).sum ≤ (EarlyHeap.stats grantedWorld.heap).usedBytes :=
  stats_account_for_heap (by norm_num) (by norm_num) bootHeap_eq
    grantedWorld_reaches

end Archipelago.Mm.EarlyHeap
