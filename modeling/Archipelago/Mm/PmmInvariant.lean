import Mathlib.Data.Multiset.UnionInter
import Mathlib.Algebra.Order.Group.Multiset
import Mathlib.Tactic.Abel
import Archipelago.Lib.Chain
import Archipelago.Mm.Pmm
/-! Where the allocator's frames are, call by call. A region's untouched range is the list of
its frames from `start` up, its zeroed top the last `zeroed_count` of them. Each region loop
of `mm/pmm.cpp` is first inverted into a shape (skip some regions, act on one, keep the
rest), from which what it does to the frames follows region by region. The pools are the
chains of `Lib.Chain` threaded through the link words. `Layout` says that the pools, the
untouched ranges and the frames handed out hold each frame of the allocator once and that
the counters count them; `Zeroes` that the zeroed pool is zero but for its link words and
the zeroed tops are zero. Every call keeps both, and every frame a call hands out is zero. -/

namespace Archipelago.Mm

open Archipelago.Lib

/-! ## Physical memory -/

namespace PhysMem

variable (mem : PhysMem) {a f : Nat}

theorem write_of_ne (i : Fin 512) (v : Nat) (h : f ≠ a) : mem.write a i v f = mem f := by
  simp [write, h]

theorem write_self (i j : Fin 512) (v : Nat) :
    mem.write a i v a j = if j = i then v else mem a j := by
  simp [write, Function.update_apply]

theorem zeroPage_of_ne (h : f ≠ a) : mem.zeroPage a f = mem f := by simp [zeroPage, h]

theorem pageZero_zeroPage_self : (mem.zeroPage a).PageZero a := by
  intro i; simp [zeroPage]

theorem PageZero.zeroPage {mem : PhysMem} (h : mem.PageZero f) (a : Nat) :
    (mem.zeroPage a).PageZero f := by
  by_cases hf : f = a
  · subst hf; exact pageZero_zeroPage_self mem
  · intro i; rw [zeroPage_of_ne mem hf]; exact h i

theorem PageZero.write_of_ne {mem : PhysMem} (h : mem.PageZero f) {i : Fin 512} {v : Nat} (hne : f ≠ a) :
    (mem.write a i v).PageZero f := by
  intro j; rw [PhysMem.write_of_ne _ _ _ hne]; exact h j

theorem zeroPages_of_not_mem {base : Nat} :
    ∀ {n : Nat}, f ∉ List.range' base n frameSize → mem.zeroPages base n f = mem f
  | 0, _ => rfl
  | n + 1, h => by
    rw [← List.range'_append (m := n) (n := 1), List.mem_append, not_or] at h
    have hne : f ≠ base + n * frameSize := by
      intro e; apply h.2; simp [e, Nat.mul_comm]
    rw [zeroPages, zeroPage_of_ne _ hne, zeroPages_of_not_mem h.1]

theorem PageZero.zeroPages {mem : PhysMem} (h : mem.PageZero f) (base : Nat) :
    ∀ n, (mem.zeroPages base n).PageZero f
  | 0 => h
  | n + 1 => (PageZero.zeroPages h base n).zeroPage _

theorem pageZero_zeroPages {base : Nat} :
    ∀ {n : Nat}, f ∈ List.range' base n frameSize → (mem.zeroPages base n).PageZero f
  | 0, h => by simp at h
  | n + 1, h => by
    rw [← List.range'_append (m := n) (n := 1), List.mem_append] at h
    rcases h with h | h
    · exact (pageZero_zeroPages h).zeroPage _
    · have hf : f = base + n * frameSize := by simpa [Nat.mul_comm] using h
      rw [zeroPages, hf]
      exact pageZero_zeroPage_self _

end PhysMem

/-! ## Regions as frames -/

namespace VmPageRegion

/-- The untouched range `[start, start + count*PAGE)`, frame by frame. -/
def frames (r : VmPageRegion) : List Nat := List.range' r.start r.count frameSize

/-- Its top `zeroed_count` frames, the ones already zeroed in place. -/
def zeroedFrames (r : VmPageRegion) : List Nat :=
  List.range' (r.start + frameSize * (r.count - r.zeroedCount)) r.zeroedCount frameSize

/-- `pop_free_page` on the region it takes from: the top page goes. -/
def dropTop (r : VmPageRegion) : VmPageRegion :=
  { r with count := r.count - 1, zeroedCount := r.zeroedCount - 1 }

/-- The top page `pop_free_page` takes. -/
def top (r : VmPageRegion) : Nat := r.start + (r.count - 1) * frameSize

variable {r : VmPageRegion}

theorem frames_dropTop (h : 0 < r.count) : r.frames = r.dropTop.frames ++ [r.top] := by
  obtain ⟨c, hc⟩ : ∃ c, r.count = c + 1 := ⟨r.count - 1, by omega⟩
  simp [frames, dropTop, top, hc, ← List.range'_append (m := c) (n := 1), Nat.mul_comm]

theorem zeroedFrames_dropTop (hz : r.zeroedCount ≤ r.count) (h : 0 < r.zeroedCount) :
    r.zeroedFrames = r.dropTop.zeroedFrames ++ [r.top] := by
  obtain ⟨z, hzc⟩ : ∃ z, r.zeroedCount = z + 1 := ⟨r.zeroedCount - 1, by omega⟩
  simp only [zeroedFrames, dropTop, top, hzc, Nat.add_sub_cancel]
  rw [← List.range'_append (m := z) (n := 1)]
  congr 2
  · congr 2; omega
  · simp only [List.range'_one, List.cons.injEq, and_true]
    rw [Nat.add_assoc, ← Nat.mul_add, Nat.mul_comm]
    congr 2; omega

theorem zeroedFrames_of_zero (h : r.zeroedCount = 0) : r.zeroedFrames = [] := by
  simp [zeroedFrames, h]

theorem zeroedFrames_sublist (hz : r.zeroedCount ≤ r.count) : r.zeroedFrames.Sublist r.frames := by
  have h := @List.range'_append r.start (r.count - r.zeroedCount) r.zeroedCount frameSize
  rw [Nat.sub_add_cancel hz] at h
  rw [frames, ← h]
  exact List.sublist_append_right _ _

theorem frames_nodup (r : VmPageRegion) : r.frames.Nodup := List.nodup_range' _ (by decide)

end VmPageRegion

/-- The regions' untouched ranges together. -/
def untouched (rs : List VmPageRegion) : List Nat := rs.flatMap VmPageRegion.frames

/-- The regions' zeroed tops together. -/
def preZeroed (rs : List VmPageRegion) : List Nat := rs.flatMap VmPageRegion.zeroedFrames

@[simp] theorem untouched_nil : untouched [] = [] := rfl
@[simp] theorem untouched_cons (r : VmPageRegion) (rs : List VmPageRegion) :
    untouched (r :: rs) = r.frames ++ untouched rs := rfl
@[simp] theorem untouched_append (rs rs' : List VmPageRegion) :
    untouched (rs ++ rs') = untouched rs ++ untouched rs' := List.flatMap_append
@[simp] theorem preZeroed_nil : preZeroed [] = [] := rfl
@[simp] theorem preZeroed_cons (r : VmPageRegion) (rs : List VmPageRegion) :
    preZeroed (r :: rs) = r.zeroedFrames ++ preZeroed rs := rfl
@[simp] theorem preZeroed_append (rs rs' : List VmPageRegion) :
    preZeroed (rs ++ rs') = preZeroed rs ++ preZeroed rs' := List.flatMap_append

/-- Regions that have no untouched page contribute no frame. -/
theorem untouched_of_empty {rs : List VmPageRegion} (h : ∀ r ∈ rs, r.count = 0) : untouched rs = [] := by
  simp only [untouched, List.flatMap_eq_nil_iff, VmPageRegion.frames]
  intro r hr; simp [h r hr]

theorem preZeroed_of_empty {rs : List VmPageRegion} (hz : ∀ r ∈ rs, r.zeroedCount ≤ r.count)
    (h : ∀ r ∈ rs, r.count = 0) : preZeroed rs = [] := by
  simp only [preZeroed, List.flatMap_eq_nil_iff]
  intro r hr
  exact VmPageRegion.zeroedFrames_of_zero (by have := hz r hr; have := h r hr; omega)

theorem preZeroed_subset_untouched {rs : List VmPageRegion} (hz : ∀ r ∈ rs, r.zeroedCount ≤ r.count)
    {f : Nat} (hf : f ∈ preZeroed rs) : f ∈ untouched rs := by
  simp only [preZeroed, untouched, List.mem_flatMap] at hf ⊢
  obtain ⟨r, hr, hfr⟩ := hf
  exact ⟨r, hr, (VmPageRegion.zeroedFrames_sublist (hz r hr)).subset hfr⟩

/-! ## The shapes of the region loops -/

/-- `takeTail` pops emptied regions and takes the top of the next one. -/
theorem takeTail_some {a : Nat} {pre : Bool} :
    ∀ {rs rs' : List VmPageRegion}, takeTail rs = (some (a, pre), rs') →
      ∃ skip r rest, rs = skip ++ r :: rest ∧ (∀ e ∈ skip, e.count = 0) ∧ 0 < r.count ∧
        a = r.top ∧ pre = decide (0 < r.zeroedCount) ∧ rs' = r.dropTop :: rest
  | [], _, h => by simp [takeTail] at h
  | r :: rs, rs', h => by
    unfold takeTail at h
    by_cases h0 : r.count = 0
    · rw [if_pos h0] at h
      obtain ⟨skip, r', rest, rfl, hskip, hpos, ha, hpre, hrs'⟩ := takeTail_some h
      refine ⟨r :: skip, r', rest, rfl, ?_, hpos, ha, hpre, hrs'⟩
      simp only [List.mem_cons, forall_eq_or_imp]
      exact ⟨h0, hskip⟩
    · rw [if_neg h0] at h
      refine ⟨[], r, rs, rfl, by simp, by omega, ?_⟩
      by_cases hz : 0 < r.zeroedCount
      · rw [if_pos hz] at h
        cases h
        exact ⟨rfl, by simp [hz], rfl⟩
      · rw [if_neg hz] at h
        cases h
        refine ⟨rfl, by simp [hz], ?_⟩
        simp only [VmPageRegion.dropTop, List.cons.injEq, and_true]
        congr 1; omega

/-- `takeTail` finds nothing only when every region is empty, and pops them all. -/
theorem takeTail_none : ∀ {rs rs' : List VmPageRegion}, takeTail rs = (none, rs') →
    rs' = [] ∧ ∀ r ∈ rs, r.count = 0
  | [], _, h => by simp [takeTail] at h; simp [h]
  | r :: rs, rs', h => by
    unfold takeTail at h
    by_cases h0 : r.count = 0
    · rw [if_pos h0] at h
      obtain ⟨rfl, hrs⟩ := takeTail_none h
      refine ⟨rfl, ?_⟩
      simp only [List.mem_cons, forall_eq_or_imp]
      exact ⟨h0, hrs⟩
    · rw [if_neg h0] at h
      split at h <;> simp at h

/-- What `pop_free_page`'s loop does to the frames: its page leaves the untouched ranges, and
the zeroed tops when it was pre-zeroed. -/
theorem takeTail_frames {rs rs' : List VmPageRegion} {x : Nat} {pre : Bool}
    (hz : ∀ r ∈ rs, r.zeroedCount ≤ r.count) (ht : takeTail rs = (some (x, pre), rs')) :
    (untouched rs : Multiset Nat) = x ::ₘ untouched rs' ∧
      (preZeroed rs).length = (preZeroed rs').length + (if pre then 1 else 0) ∧
      (∀ f ∈ preZeroed rs', f ∈ preZeroed rs) ∧ (pre = true → x ∈ preZeroed rs) ∧
      ∀ r ∈ rs', r.zeroedCount ≤ r.count := by
  obtain ⟨skip, r, rest, rfl, hskip, hpos, rfl, rfl, rfl⟩ := takeTail_some ht
  have hzs : ∀ e ∈ skip, e.zeroedCount ≤ e.count := fun e he => hz e (by simp [he])
  have hzr : r.zeroedCount ≤ r.count := hz r (by simp)
  have hzrest : ∀ e ∈ rest, e.zeroedCount ≤ e.count := fun e he => hz e (by simp [he])
  have hdrop : r.dropTop.zeroedCount ≤ r.dropTop.count := by simp [VmPageRegion.dropTop]; omega
  simp only [untouched_append, untouched_cons, preZeroed_append, preZeroed_cons,
    untouched_of_empty hskip, preZeroed_of_empty hzs hskip, List.nil_append]
  rw [VmPageRegion.frames_dropTop hpos]
  by_cases h0 : 0 < r.zeroedCount
  · rw [VmPageRegion.zeroedFrames_dropTop hzr h0]
    refine ⟨?_, by simp [h0]; omega, fun f hf => ?_, fun _ => by simp, ?_⟩
    · simp [← Multiset.coe_add, ← Multiset.cons_coe]
    · simp only [List.mem_append, List.mem_cons] at hf ⊢; tauto
    · simp only [List.mem_cons, forall_eq_or_imp]; exact ⟨hdrop, hzrest⟩
  · have hr0 : r.zeroedFrames = [] := VmPageRegion.zeroedFrames_of_zero (by omega)
    have hd0 : r.dropTop.zeroedFrames = [] :=
      VmPageRegion.zeroedFrames_of_zero (by simp [VmPageRegion.dropTop]; omega)
    rw [hr0, hd0]
    refine ⟨?_, by simp [h0], fun f hf => hf, fun hp => by simp [h0] at hp, ?_⟩
    · simp [← Multiset.coe_add, ← Multiset.cons_coe]
    · simp only [List.mem_cons, forall_eq_or_imp]; exact ⟨hdrop, hzrest⟩

/-- `alloc_contiguous` on the region it carves from: the top `count` pages go, and the zeroed
top loses the `pre` of them it held. -/
def VmPageRegion.carveTop (count : Nat) (r : VmPageRegion) : VmPageRegion :=
  { r with count := r.count - count,
           zeroedCount := r.zeroedCount - (if r.zeroedCount < count then r.zeroedCount else count) }

/-- `carve` skips the regions too small and carves from the next one. -/
theorem carve_some {n base pre : Nat} :
    ∀ {rs rs' : List VmPageRegion}, carve n rs = some (base, pre, rs') →
      ∃ skip r rest, rs = skip ++ r :: rest ∧ (∀ e ∈ skip, e.count < n) ∧ n ≤ r.count ∧
        base = r.start + (r.count - n) * frameSize ∧
        pre = (if r.zeroedCount < n then r.zeroedCount else n) ∧
        rs' = skip ++ r.carveTop n :: rest
  | [], _, h => by simp [carve] at h
  | r :: rs, rs', h => by
    unfold carve at h
    by_cases hlt : r.count < n
    · rw [if_pos hlt] at h
      obtain ⟨c, hc, hceq⟩ := Option.map_eq_some_iff.1 h
      obtain ⟨skip, r', rest, rfl, hskip, hle, hb, hpre, hrs'⟩ := carve_some hc
      cases hceq
      refine ⟨r :: skip, r', rest, rfl, ?_, hle, hb, hpre, by simp [hrs']⟩
      simp only [List.mem_cons, forall_eq_or_imp]
      exact ⟨hlt, hskip⟩
    · rw [if_neg hlt] at h
      cases h
      exact ⟨[], r, rs, rfl, by simp, by omega, rfl, rfl, rfl⟩

theorem carve_none {n : Nat} : ∀ {rs : List VmPageRegion}, carve n rs = none → ∀ r ∈ rs, r.count < n
  | [], _ => by simp
  | r :: rs, h => by
    unfold carve at h
    by_cases hlt : r.count < n
    · rw [if_pos hlt, Option.map_eq_none_iff] at h
      simp only [List.mem_cons, forall_eq_or_imp]
      exact ⟨hlt, carve_none h⟩
    · rw [if_neg hlt] at h; cases h

/-- `zero_one_page` on the region it zeroes in: the zeroed top grows by one page. -/
def VmPageRegion.zeroOne (r : VmPageRegion) : VmPageRegion := { r with zeroedCount := r.zeroedCount + 1 }

/-- The page `zero_one_page` zeroes in it, just under the zeroed top. -/
def VmPageRegion.nextZero (r : VmPageRegion) : Nat := r.start + (r.count - r.zeroedCount - 1) * frameSize

/-- `zeroTail` skips the regions already all zeroed and zeroes in the next one. -/
theorem zeroTail_some {a : Nat} :
    ∀ {rs rs' : List VmPageRegion}, zeroTail rs = some (a, rs') →
      ∃ skip r rest, rs = skip ++ r :: rest ∧ (∀ e ∈ skip, e.zeroedCount = e.count) ∧
        r.zeroedCount ≠ r.count ∧ a = r.nextZero ∧ rs' = skip ++ r.zeroOne :: rest
  | [], _, h => by simp [zeroTail] at h
  | r :: rs, rs', h => by
    unfold zeroTail at h
    by_cases heq : r.zeroedCount = r.count
    · rw [if_pos heq] at h
      obtain ⟨c, hc, hceq⟩ := Option.map_eq_some_iff.1 h
      obtain ⟨skip, r', rest, rfl, hskip, hne, ha, hrs'⟩ := zeroTail_some hc
      cases hceq
      refine ⟨r :: skip, r', rest, rfl, ?_, hne, ha, by simp [hrs']⟩
      simp only [List.mem_cons, forall_eq_or_imp]
      exact ⟨heq, hskip⟩
    · rw [if_neg heq] at h
      cases h
      exact ⟨[], r, rs, rfl, by simp, heq, rfl, rfl⟩

/-! ## What the loops do to the frames -/

namespace VmPageRegion

variable {r : VmPageRegion}

theorem frames_carveTop {n : Nat} (h : n ≤ r.count) :
    r.frames = (r.carveTop n).frames ++ List.range' (r.start + (r.count - n) * frameSize) n frameSize := by
  simp only [frames, carveTop, Nat.mul_comm (r.count - n)]
  rw [List.range'_append, Nat.sub_add_cancel h]

/-- The zeroed top before a carve is the one after and the `pre` top pages of the run. -/
theorem zeroedFrames_carveTop {n : Nat} (hz : r.zeroedCount ≤ r.count) (h : n ≤ r.count) :
    r.zeroedFrames = (r.carveTop n).zeroedFrames ++
      List.range' (r.start + (r.count - n) * frameSize +
        frameSize * (n - (if r.zeroedCount < n then r.zeroedCount else n)))
        (if r.zeroedCount < n then r.zeroedCount else n) frameSize := by
  simp only [zeroedFrames, carveTop]
  split
  · rename_i hlt
    simp only [Nat.sub_self, List.range'_zero, List.nil_append]
    congr 1
    rw [Nat.mul_comm (r.count - n), Nat.add_assoc, ← Nat.mul_add]
    congr 2; omega
  · rename_i hge
    have h1 : r.count - n - (r.zeroedCount - n) = r.count - r.zeroedCount := by omega
    have h2 : r.start + frameSize * (r.count - r.zeroedCount) + frameSize * (r.zeroedCount - n) =
        r.start + frameSize * (r.count - n) := by
      rw [Nat.add_assoc, ← Nat.mul_add]; congr 2; omega
    rw [Nat.sub_self, Nat.mul_zero, Nat.add_zero, Nat.mul_comm (r.count - n) frameSize, h1, ← h2,
      List.range'_append, Nat.sub_add_cancel (by omega)]

theorem frames_zeroOne : r.zeroOne.frames = r.frames := rfl

theorem zeroedFrames_zeroOne (h : r.zeroedCount < r.count) :
    r.zeroOne.zeroedFrames = r.nextZero :: r.zeroedFrames := by
  have hhead : r.start + frameSize * (r.count - (r.zeroedCount + 1)) =
      r.start + (r.count - r.zeroedCount - 1) * frameSize := by
    rw [Nat.sub_sub, Nat.mul_comm]
  have htail : r.start + frameSize * (r.count - (r.zeroedCount + 1)) + frameSize =
      r.start + frameSize * (r.count - r.zeroedCount) := by
    rw [Nat.add_assoc, ← Nat.mul_add_one]; congr 2; omega
  simp only [zeroedFrames, zeroOne, nextZero]
  rw [List.range'_succ, htail, hhead]

theorem nextZero_mem (h : r.zeroedCount < r.count) : r.nextZero ∈ r.frames := by
  simp only [nextZero, frames, List.mem_range']
  exact ⟨r.count - r.zeroedCount - 1, by omega, by rw [Nat.mul_comm]⟩

end VmPageRegion

/-- What `alloc_contiguous`'s loop does to the frames: the run leaves the untouched ranges,
and its top `pre` pages leave the zeroed tops. -/
theorem carve_frames {rs rs' : List VmPageRegion} {n base pre : Nat}
    (hz : ∀ r ∈ rs, r.zeroedCount ≤ r.count) (hc : carve n rs = some (base, pre, rs')) :
    (untouched rs : Multiset Nat) = ↑(List.range' base n frameSize) + untouched rs' ∧
      (preZeroed rs).length = (preZeroed rs').length + pre ∧
      (∀ f ∈ preZeroed rs', f ∈ preZeroed rs) ∧ pre ≤ n ∧
      (∀ f ∈ List.range' (base + frameSize * (n - pre)) pre frameSize, f ∈ preZeroed rs) ∧
      ∀ r ∈ rs', r.zeroedCount ≤ r.count := by
  obtain ⟨skip, r, rest, rfl, -, hle, rfl, rfl, rfl⟩ := carve_some hc
  have hzr : r.zeroedCount ≤ r.count := hz r (by simp)
  have hzrest : ∀ e ∈ skip ++ rest, e.zeroedCount ≤ e.count := fun e he => hz e (by
    simp only [List.mem_append] at he; simp only [List.mem_append, List.mem_cons]; tauto)
  have hcarve : (r.carveTop n).zeroedCount ≤ (r.carveTop n).count := by
    simp only [VmPageRegion.carveTop]; split <;> omega
  have hF := VmPageRegion.frames_carveTop hle
  have hZ := VmPageRegion.zeroedFrames_carveTop hzr hle
  simp only [untouched_append, untouched_cons, preZeroed_append, preZeroed_cons]
  rw [hF, hZ]
  refine ⟨?_, ?_, fun f hf => ?_, by split <;> omega, fun f hf => ?_, fun e he => ?_⟩
  · simp only [← Multiset.coe_add]
    abel
  · simp only [List.length_append, List.length_range']; omega
  · simp only [List.mem_append] at hf ⊢; tauto
  · simp only [List.mem_append]; tauto
  · simp only [List.mem_append, List.mem_cons] at he
    rcases he with he | rfl | he
    · exact hzrest e (by simp [he])
    · exact hcarve
    · exact hzrest e (by simp [he])

/-- What `zero_one_page`'s loop does to the frames: the page under a zeroed top joins it. -/
theorem zeroTail_frames {rs rs' : List VmPageRegion} {a : Nat}
    (hz : ∀ r ∈ rs, r.zeroedCount ≤ r.count) (ht : zeroTail rs = some (a, rs')) :
    untouched rs' = untouched rs ∧ (preZeroed rs').length = (preZeroed rs).length + 1 ∧
      (∀ f ∈ preZeroed rs', f = a ∨ f ∈ preZeroed rs) ∧ a ∈ untouched rs ∧
      ∀ r ∈ rs', r.zeroedCount ≤ r.count := by
  obtain ⟨skip, r, rest, rfl, -, hne, rfl, rfl⟩ := zeroTail_some ht
  have hlt : r.zeroedCount < r.count := by have := hz r (by simp); omega
  simp only [untouched_append, untouched_cons, preZeroed_append, preZeroed_cons,
    VmPageRegion.frames_zeroOne, VmPageRegion.zeroedFrames_zeroOne hlt]
  refine ⟨trivial, by simp; omega, fun f hf => ?_, by simp [VmPageRegion.nextZero_mem hlt], fun e he => ?_⟩
  · simp only [List.mem_append, List.mem_cons] at hf ⊢; tauto
  · simp only [List.mem_append, List.mem_cons] at he
    rcases he with he | rfl | he
    · exact hz e (by simp [he])
    · simp only [VmPageRegion.zeroOne]; omega
    · exact hz e (by simp [he])

/-! ## The pools -/

/-- The pools' stacks chain `l p` through the link words and `m_count` is its length. -/
def Pools (a : PageFrameAllocator) (mem : PhysMem) (l : Pool → List Nat) : Prop :=
  ∀ p, Chain mem.link FrameStack.NIL (a.pool p).head (l p) ∧ (a.pool p).count = (l p).length

namespace Pools

variable {a a' : PageFrameAllocator} {mem mem' : PhysMem} {l : Pool → List Nat}

/-- The pools survive any change that keeps the stacks and the pooled frames' link words. -/
theorem of_eq (h : Pools a mem l) (hp : ∀ p, a'.pool p = a.pool p)
    (hm : ∀ p, ∀ f ∈ l p, mem' f 0 = mem f 0) : Pools a' mem' l := by
  intro p
  rw [hp p]
  exact ⟨(h p).1.frame (fun y hy => hm p y hy), (h p).2⟩

theorem head_eq_nil_iff (h : Pools a mem l) (p : Pool) : (a.pool p).head = FrameStack.NIL ↔ l p = [] :=
  (h p).1.eq_nil_iff

/-- `frame_stack::push` of a frame in no pool. -/
theorem push (h : Pools a mem l) (p : Pool) {x : Nat} (hx : ∀ q, x ∉ l q) (hnil : x ≠ FrameStack.NIL) :
    Pools (a.setPool p ⟨x, (a.pool p).count + 1⟩) (mem.write x 0 (a.pool p).head)
      (Function.update l p (x :: l p)) := by
  intro q
  have hkeep : ∀ y ∈ l q, (mem.write x 0 (a.pool p).head).link y = mem.link y := fun y hy =>
    by rw [PhysMem.link, PhysMem.write_of_ne _ _ _ (ne_of_mem_of_not_mem hy (hx q))]; rfl
  by_cases hq : q = p
  · subst hq
    simp only [PageFrameAllocator.pool_setPool, if_true, Function.update_self, List.length_cons]
    refine ⟨Chain.push (h q).1 hnil ?_ hkeep, by rw [(h q).2]⟩
    simp [PhysMem.link, PhysMem.write_self]
  · simp only [PageFrameAllocator.pool_setPool, if_neg hq, Function.update_of_ne hq]
    exact ⟨(h q).1.frame hkeep, (h q).2⟩

/-- `frame_stack::pop` of a pool whose frames are in no other pool: the head goes, its link
word becomes the head. -/
theorem pop (h : Pools a mem l) (p : Pool) (hdis : ∀ q, q ≠ p → ∀ x ∈ l p, x ∉ l q)
    (hne : (a.pool p).head ≠ FrameStack.NIL) :
    ∃ xs, l p = (a.pool p).head :: xs ∧
      Pools (a.setPool p ⟨mem.link (a.pool p).head, (a.pool p).count - 1⟩)
        (mem.write (a.pool p).head 0 0) (Function.update l p xs) := by
  obtain ⟨hchain, hcount⟩ := h p
  cases hl : l p with
  | nil => exact absurd ((h.head_eq_nil_iff p).2 hl) hne
  | cons x xs =>
    rw [hl] at hchain hcount
    obtain ⟨rfl, hne', hrest⟩ := hchain
    have hnd : ((a.pool p).head :: xs).Nodup := Chain.nodup ⟨rfl, hne', hrest⟩
    refine ⟨xs, rfl, fun q => ?_⟩
    -- only the popped frame's link word changes, and it is in no other list
    have hkeep : ∀ ys : List Nat, (a.pool p).head ∉ ys →
        ∀ y ∈ ys, (mem.write (a.pool p).head 0 0).link y = mem.link y := fun ys hys y hy => by
      rw [PhysMem.link, PhysMem.write_of_ne _ _ _ (ne_of_mem_of_not_mem hy hys)]; rfl
    by_cases hq : q = p
    · subst hq
      simp only [PageFrameAllocator.pool_setPool, if_true, Function.update_self, hcount,
        List.length_cons, Nat.add_sub_cancel]
      exact ⟨hrest.frame (hkeep xs (List.nodup_cons.1 hnd).1), trivial⟩
    · simp only [PageFrameAllocator.pool_setPool, if_neg hq, Function.update_of_ne hq]
      exact ⟨(h q).1.frame (hkeep (l q) (hdis q hq _ (by simp [hl]))), (h q).2⟩

end Pools

/-! ## The layout of the frames -/

/-- Where every frame the allocator was given is: the pools `l` as their link words chain
them, the regions' untouched ranges and the frames handed out hold each frame of `owned`
once; `m_free_pages` counts the first three, `m_region_zeroed` the zeroed tops, and no zeroed
top is taller than its region. -/
structure Layout (w : Pmm) (l : Pool → List Nat) (owned handed : Multiset Nat) : Prop where
  pools : Pools w.pfa w.mem l
  places : (l .zeroed : Multiset Nat) + l .dirty + untouched w.pfa.regions + handed = owned
  nodup : owned.Nodup
  ne_nil : ∀ f ∈ owned, f ≠ FrameStack.NIL
  free_pages : w.pfa.freePages = (l .zeroed).length + (l .dirty).length + (untouched w.pfa.regions).length
  region_zeroed : w.pfa.regionZeroed = (preZeroed w.pfa.regions).length
  zeroed_le : ∀ r ∈ w.pfa.regions, r.zeroedCount ≤ r.count

/-- The zeroed pool is zero but for the link words, and the zeroed tops are zero. -/
structure Zeroes (w : Pmm) (zs : List Nat) : Prop where
  pool : ∀ f ∈ zs, ∀ i : Fin 512, i ≠ 0 → w.mem f i = 0
  tops : ∀ f ∈ preZeroed w.pfa.regions, w.mem.PageZero f

/-- What a call from `w` to `w'` that hands out `out` keeps: a layout with `handed` handed out
after it, and the zeroes, with every frame of `out` zero. -/
def Kept (w : Pmm) (l : Pool → List Nat) (w' : Pmm) (owned handed : Multiset Nat) (out : List Nat) : Prop :=
  ∃ l', Layout w' l' owned handed ∧
    (Zeroes w (l .zeroed) → Zeroes w' (l' .zeroed) ∧ ∀ f ∈ out, w'.mem.PageZero f)

namespace Layout

variable {w w' : Pmm} {l : Pool → List Nat} {owned handed : Multiset Nat} {x : Nat}

/-- The four places are pairwise disjoint. -/
theorem disjoint (h : Layout w l owned handed) :
    Disjoint (l .zeroed : Multiset Nat) (l .dirty) ∧
      Disjoint ((l .zeroed : Multiset Nat) + l .dirty) (untouched w.pfa.regions) ∧
      Disjoint ((l .zeroed : Multiset Nat) + l .dirty + untouched w.pfa.regions) handed := by
  have hnd := h.places ▸ h.nodup
  obtain ⟨h3, -, d3⟩ := Multiset.nodup_add.1 hnd
  obtain ⟨h2, -, d2⟩ := Multiset.nodup_add.1 h3
  exact ⟨(Multiset.nodup_add.1 h2).2.2, d2, d3⟩

theorem not_mem_of_handed (h : Layout w l owned handed) (hx : x ∈ handed) :
    (∀ p, x ∉ l p) ∧ x ∉ untouched w.pfa.regions := by
  have hx' := Multiset.disjoint_right.1 h.disjoint.2.2 hx
  simp only [Multiset.mem_add, Multiset.mem_coe, not_or] at hx'
  exact ⟨fun p => by cases p <;> simp [hx'], hx'.2⟩

theorem not_mem_pool_of_untouched (h : Layout w l owned handed) (hx : x ∈ untouched w.pfa.regions) (p : Pool) :
    x ∉ l p := by
  have hx' := Multiset.disjoint_right.1 h.disjoint.2.1 (Multiset.mem_coe.2 hx)
  simp only [Multiset.mem_add, Multiset.mem_coe, not_or] at hx'
  cases p <;> simp [hx']

theorem pools_disjoint (h : Layout w l owned handed) : ∀ q p, q ≠ p → ∀ x ∈ l p, x ∉ l q := by
  have hd := h.disjoint.1
  intro q p hqp x hx
  cases p <;> cases q
  · exact absurd rfl hqp
  · exact Multiset.disjoint_left.1 hd (Multiset.mem_coe.2 hx)
  · exact Multiset.disjoint_right.1 hd (Multiset.mem_coe.2 hx)
  · exact absurd rfl hqp

theorem mem_owned_of_handed (h : Layout w l owned handed) (hx : x ∈ handed) : x ∈ owned :=
  h.places ▸ Multiset.mem_add.2 (Or.inr hx)

theorem mem_owned_of_untouched (h : Layout w l owned handed) (hx : x ∈ untouched w.pfa.regions) :
    x ∈ owned :=
  h.places ▸ Multiset.mem_add.2 (Or.inl (Multiset.mem_add.2 (Or.inr (Multiset.mem_coe.2 hx))))

/-- A change that keeps the pools, the regions and the counters, and writes only frames that
are handed out. -/
theorem kept_of_same (h : Layout w l owned handed) (hp : ∀ p, w'.pfa.pool p = w.pfa.pool p)
    (hr : w'.pfa.regions = w.pfa.regions) (hf : w'.pfa.freePages = w.pfa.freePages)
    (hz : w'.pfa.regionZeroed = w.pfa.regionZeroed) (hm : ∀ f, f ∉ handed → w'.mem f = w.mem f) :
    Kept w l w' owned handed [] := by
  have hpool : ∀ p, ∀ f ∈ l p, w'.mem f = w.mem f := fun p f hf =>
    hm f fun hh => (h.not_mem_of_handed hh).1 p hf
  refine ⟨l, ⟨h.pools.of_eq hp fun p f hf => by rw [hpool p f hf], hr ▸ h.places, h.nodup, h.ne_nil,
    by rw [hf, hr, h.free_pages], by rw [hz, hr, h.region_zeroed], hr ▸ h.zeroed_le⟩, fun hz => ⟨⟨?_, ?_⟩, by simp⟩⟩
  · intro f hf i hi
    rw [hpool .zeroed f hf]
    exact hz.pool f hf i hi
  · intro f hf i
    rw [hr] at hf
    rw [hm f fun hh => (h.not_mem_of_handed hh).2 (preZeroed_subset_untouched h.zeroed_le hf)]
    exact hz.tops f hf i

theorem kept_refl (h : Layout w l owned handed) : Kept w l w owned handed [] :=
  h.kept_of_same (fun _ => rfl) rfl rfl rfl fun _ _ => rfl

end Layout

/-! ## `alloc` -/

namespace Pmm

variable {w : Pmm}

theorem pop_of_nil {p : Pool} (h : (w.pfa.pool p).head = FrameStack.NIL) : w.pop p = (none, w) := by
  simp [pop, h]

theorem pop_of_ne {p : Pool} (h : (w.pfa.pool p).head ≠ FrameStack.NIL) :
    w.pop p = (some (w.pfa.pool p).head, w.popped p) := by
  simp [pop, h]

theorem alloc_of_pool (hz : (w.pfa.pool .zeroed).head ≠ FrameStack.NIL) :
    w.alloc = (some (w.pfa.pool .zeroed).head, (w.popped .zeroed).handOut (w.pfa.pool .zeroed).head) := by
  simp [alloc, pop_of_ne hz]

theorem alloc_of_dirty (hz : (w.pfa.pool .zeroed).head = FrameStack.NIL)
    (hd : (w.pfa.pool .dirty).head ≠ FrameStack.NIL) :
    w.alloc = (some (w.pfa.pool .dirty).head,
      ((w.popped .dirty).zeroPage (w.pfa.pool .dirty).head).handOut (w.pfa.pool .dirty).head) := by
  simp [alloc, popFreePage, pop_of_nil hz, pop_of_ne hd]

theorem alloc_of_region (hz : (w.pfa.pool .zeroed).head = FrameStack.NIL)
    (hd : (w.pfa.pool .dirty).head = FrameStack.NIL) {x : Nat} {pre : Bool} {rs : List VmPageRegion}
    (ht : takeTail w.pfa.regions = (some (x, pre), rs)) :
    w.alloc = (some x,
      (if pre then { w with pfa := { w.pfa with regions := rs, regionZeroed := w.pfa.regionZeroed - 1 } }
       else ({ w with pfa := { w.pfa with regions := rs } } : Pmm).zeroPage x).handOut x) := by
  cases pre <;> simp [alloc, popFreePage, pop_of_nil hz, pop_of_nil hd, ht]

theorem alloc_of_none (hz : (w.pfa.pool .zeroed).head = FrameStack.NIL)
    (hd : (w.pfa.pool .dirty).head = FrameStack.NIL) {rs : List VmPageRegion}
    (ht : takeTail w.pfa.regions = (none, rs)) : w.alloc = (none, (w.setRegions rs).countFailure) := by
  simp [alloc, popFreePage, pop_of_nil hz, pop_of_nil hd, ht]

end Pmm

namespace Layout

variable {w : Pmm} {l : Pool → List Nat} {owned handed : Multiset Nat}

/-- `alloc` from the zeroed pool: its head is zero once the link word is cleared. -/
theorem alloc_pool (h : Layout w l owned handed) (hz : (w.pfa.pool .zeroed).head ≠ FrameStack.NIL) :
    Kept w l ((w.popped .zeroed).handOut (w.pfa.pool .zeroed).head) owned
      ((w.pfa.pool .zeroed).head ::ₘ handed) [(w.pfa.pool .zeroed).head] := by
  obtain ⟨xs, hl, hpools⟩ := h.pools.pop .zeroed (h.pools_disjoint · .zeroed) hz
  have hnd : (w.pfa.pool .zeroed).head ∉ xs := by
    have := hl ▸ Chain.nodup (h.pools .zeroed).1; exact (List.nodup_cons.1 this).1
  refine ⟨Function.update l .zeroed xs, ⟨hpools.of_eq (fun p => by simp) fun _ _ _ => rfl, ?_,
    h.nodup, h.ne_nil, ?_, by simpa using h.region_zeroed, by simpa using h.zeroed_le⟩, fun hzs => ?_⟩
  · rw [← h.places, hl]
    simp only [Function.update_self, Function.update_of_ne (by decide : Pool.dirty ≠ .zeroed),
      Pmm.handOut_regions, Pmm.popped_pfa, PageFrameAllocator.regions_setPool, ← Multiset.cons_coe,
      Multiset.cons_add, Multiset.add_cons]
  · have := h.free_pages
    simp only [hl, List.length_cons] at this
    simp only [Pmm.handOut_freePages, Pmm.handOut_regions, Pmm.popped_pfa,
      PageFrameAllocator.freePages_setPool, PageFrameAllocator.regions_setPool, Function.update_self,
      Function.update_of_ne (by decide : Pool.dirty ≠ .zeroed), this]
    omega
  · -- only the popped frame changed, and its one nonzero word is now cleared
    have hpop : ∀ i : Fin 512, i ≠ 0 → w.mem (w.pfa.pool .zeroed).head i = 0 :=
      hzs.pool _ (by simp [hl])
    refine ⟨⟨fun f hf i hi => ?_, fun f hf i => ?_⟩, fun f hf i => ?_⟩
    · simp only [Function.update_self] at hf
      simp only [Pmm.handOut_mem, Pmm.popped_mem]
      rw [PhysMem.write_of_ne _ _ _ (ne_of_mem_of_not_mem hf hnd)]
      exact hzs.pool f (by simp [hl, hf]) i hi
    · simp only [Pmm.handOut_regions, Pmm.popped_pfa, PageFrameAllocator.regions_setPool] at hf
      have hne : f ≠ (w.pfa.pool .zeroed).head := fun e =>
        h.not_mem_pool_of_untouched (preZeroed_subset_untouched h.zeroed_le hf) .zeroed (by simp [hl, e])
      simp only [Pmm.handOut_mem, Pmm.popped_mem]
      rw [PhysMem.write_of_ne _ _ _ hne]
      exact hzs.tops f hf i
    · simp only [List.mem_singleton] at hf
      subst hf
      simp only [Pmm.handOut_mem, Pmm.popped_mem, PhysMem.write_self]
      split
      · rfl
      · exact hpop i ‹_›

/-- `alloc` from the dirty pool: the frame is zeroed whole. -/
theorem alloc_dirty (h : Layout w l owned handed) (hz : (w.pfa.pool .zeroed).head = FrameStack.NIL)
    (hd : (w.pfa.pool .dirty).head ≠ FrameStack.NIL) :
    Kept w l (((w.popped .dirty).zeroPage (w.pfa.pool .dirty).head).handOut (w.pfa.pool .dirty).head)
      owned ((w.pfa.pool .dirty).head ::ₘ handed) [(w.pfa.pool .dirty).head] := by
  obtain ⟨xs, hl, hpools⟩ := h.pools.pop .dirty (h.pools_disjoint · .dirty) hd
  have hl0 : l .zeroed = [] := (h.pools.head_eq_nil_iff .zeroed).1 hz
  have hnd : (w.pfa.pool .dirty).head ∉ xs := by
    have := hl ▸ Chain.nodup (h.pools .dirty).1; exact (List.nodup_cons.1 this).1
  have hnot : ∀ p, (w.pfa.pool .dirty).head ∉ Function.update l .dirty xs p := by
    intro p; cases p <;> simp [hl0, hnd]
  refine ⟨Function.update l .dirty xs, ⟨hpools.of_eq (fun p => by simp) fun p f hf => ?_, ?_,
    h.nodup, h.ne_nil, ?_, by simpa using h.region_zeroed, by simpa using h.zeroed_le⟩, fun hzs => ?_⟩
  · simp only [Pmm.handOut_mem, Pmm.zeroPage_mem]
    rw [PhysMem.zeroPage_of_ne _ (ne_of_mem_of_not_mem hf (hnot p))]
    rfl
  · rw [← h.places, hl]
    simp only [Function.update_self, Function.update_of_ne (by decide : Pool.zeroed ≠ .dirty),
      Pmm.handOut_regions, Pmm.zeroPage_pfa, Pmm.popped_pfa, PageFrameAllocator.regions_setPool,
      ← Multiset.cons_coe, Multiset.cons_add, Multiset.add_cons]
  · have := h.free_pages
    simp only [hl, List.length_cons] at this
    simp only [Pmm.handOut_freePages, Pmm.handOut_regions, Pmm.zeroPage_pfa, Pmm.popped_pfa,
      PageFrameAllocator.freePages_setPool, PageFrameAllocator.regions_setPool, Function.update_self,
      Function.update_of_ne (by decide : Pool.zeroed ≠ .dirty), this]
    omega
  · refine ⟨⟨fun f hf => by simp [hl0] at hf, fun f hf => ?_⟩, fun f hf => ?_⟩
    · simp only [Pmm.handOut_regions, Pmm.zeroPage_pfa, Pmm.popped_pfa,
        PageFrameAllocator.regions_setPool] at hf
      have hne : f ≠ (w.pfa.pool .dirty).head := fun e =>
        h.not_mem_pool_of_untouched (preZeroed_subset_untouched h.zeroed_le hf) .dirty (by simp [hl, e])
      exact ((hzs.tops f hf).write_of_ne hne).zeroPage _
    · simp only [List.mem_singleton] at hf
      subst hf
      exact PhysMem.pageZero_zeroPage_self _

/-- `alloc` from a region's top page, zeroed here unless it was in the zeroed top. -/
theorem alloc_region (h : Layout w l owned handed) {x : Nat} {pre : Bool} {rs : List VmPageRegion}
    (ht : takeTail w.pfa.regions = (some (x, pre), rs)) :
    Kept w l
      ((if pre then { w with pfa := { w.pfa with regions := rs, regionZeroed := w.pfa.regionZeroed - 1 } }
        else ({ w with pfa := { w.pfa with regions := rs } } : Pmm).zeroPage x).handOut x)
      owned (x ::ₘ handed) [x] := by
  obtain ⟨hU, hP, hsub, hpre, hzle⟩ := takeTail_frames h.zeroed_le ht
  have hx : x ∈ untouched w.pfa.regions := by
    rw [← Multiset.mem_coe, hU]; exact Multiset.mem_cons_self _ _
  have hplaces : (l .zeroed : Multiset Nat) + l .dirty + untouched rs + x ::ₘ handed = owned := by
    rw [← h.places, hU]; simp only [Multiset.cons_add, Multiset.add_cons]
  have hlen : (untouched w.pfa.regions).length = (untouched rs).length + 1 := by
    rw [← Multiset.coe_card, hU, Multiset.card_cons, Multiset.coe_card]
  have hfree := h.free_pages
  have hrz := h.region_zeroed
  cases pre with
  | true =>
    simp only [if_pos] at hP ⊢
    refine ⟨l, ⟨h.pools.of_eq (fun p => by cases p <;> rfl) fun _ _ _ => rfl, hplaces, h.nodup,
      h.ne_nil, by simp [hfree, hlen], by simp [hrz, hP], hzle⟩, fun hzs => ?_⟩
    refine ⟨⟨fun f hf i hi => hzs.pool f hf i hi, fun f hf => hzs.tops f (hsub f hf)⟩, fun f hf => ?_⟩
    simp only [List.mem_singleton] at hf
    subst hf
    exact hzs.tops f (hpre rfl)
  | false =>
    simp only [Bool.false_eq_true, if_false] at hP ⊢
    have hnot : ∀ p, ∀ f ∈ l p, f ≠ x := fun p f hf e => h.not_mem_pool_of_untouched hx p (e ▸ hf)
    refine ⟨l, ⟨h.pools.of_eq (fun p => by cases p <;> rfl) fun p f hf => ?_, hplaces, h.nodup,
      h.ne_nil, by simp [hfree, hlen], by simp [hrz, hP], hzle⟩, fun hzs => ?_⟩
    · simp only [Pmm.handOut_mem, Pmm.zeroPage_mem]
      rw [PhysMem.zeroPage_of_ne _ (hnot p f hf)]
    refine ⟨⟨fun f hf i hi => ?_, fun f hf => (hzs.tops f (hsub f hf)).zeroPage x⟩, fun f hf => ?_⟩
    · simp only [Pmm.handOut_mem, Pmm.zeroPage_mem]
      rw [PhysMem.zeroPage_of_ne _ (hnot .zeroed f hf)]
      exact hzs.pool f hf i hi
    · simp only [List.mem_singleton] at hf
      subst hf
      exact PhysMem.pageZero_zeroPage_self _

/-- `alloc` with nothing free: every region was empty and is popped. -/
theorem alloc_none (h : Layout w l owned handed) {rs : List VmPageRegion}
    (ht : takeTail w.pfa.regions = (none, rs)) :
    Kept w l (w.setRegions rs).countFailure owned handed [] := by
  obtain ⟨rfl, hempty⟩ := takeTail_none ht
  have hU := untouched_of_empty hempty
  have hP := preZeroed_of_empty h.zeroed_le hempty
  have hfree := h.free_pages
  have hrz := h.region_zeroed
  rw [hU] at hfree
  rw [hP] at hrz
  refine ⟨l, ⟨h.pools.of_eq (fun p => by cases p <;> rfl) fun _ _ _ => rfl, ?_, h.nodup, h.ne_nil,
    hfree, hrz, by simp [Pmm.countFailure, Pmm.setRegions]⟩, fun hzs => ⟨⟨hzs.pool, by simp [Pmm.countFailure, Pmm.setRegions]⟩, by simp⟩⟩
  rw [← h.places, hU]
  rfl

/-- `alloc` keeps the layout and the zeroes, handing out what it returns, zeroed. -/
theorem alloc (h : Layout w l owned handed) :
    Kept w l w.alloc.2 owned (↑w.alloc.1.toList + handed) w.alloc.1.toList := by
  by_cases hz : (w.pfa.pool .zeroed).head = FrameStack.NIL
  · by_cases hd : (w.pfa.pool .dirty).head = FrameStack.NIL
    · -- both pools empty: a region's top page, or nothing
      rcases ht : takeTail w.pfa.regions with ⟨_ | ⟨x, pre⟩, rs⟩
      · rw [Pmm.alloc_of_none hz hd ht]; simpa using h.alloc_none ht
      · rw [Pmm.alloc_of_region hz hd ht]; simpa using h.alloc_region ht
    · rw [Pmm.alloc_of_dirty hz hd]; simpa using h.alloc_dirty hz hd
  · rw [Pmm.alloc_of_pool hz]; simpa using h.alloc_pool hz

end Layout

/-! ## `free` and `alloc_contiguous` -/

namespace Pmm

variable {w w' : Pmm} {x : Nat}

/-- A `free` that does not panic pushes the frame on the dirty pool and counts it free. -/
theorem free_some (hw : w.free x = some w') :
    w'.mem = w.mem.write x 0 (w.pfa.pool .dirty).head ∧
      (∀ p, w'.pfa.pool p = (w.pfa.setPool .dirty ⟨x, (w.pfa.pool .dirty).count + 1⟩).pool p) ∧
      w'.pfa.regions = w.pfa.regions ∧ w'.pfa.freePages = w.pfa.freePages + 1 ∧
      w'.pfa.regionZeroed = w.pfa.regionZeroed := by
  unfold free at hw
  split at hw
  · cases hw
  · cases hw
  · cases hw
    exact ⟨rfl, fun p => by cases p <;> rfl, by simp [push], by simp [push], by simp [push]⟩

theorem allocContiguous_zero : w.allocContiguous 0 = (none, w) := rfl

theorem allocContiguous_of_none {n : Nat} (hn : n ≠ 0) (hc : carve n w.pfa.regions = none) :
    w.allocContiguous n = (none, w.countFailure) := by
  simp [allocContiguous, hn, hc]

theorem allocContiguous_of_some {n base pre : Nat} {rs : List VmPageRegion} (hn : n ≠ 0)
    (hc : carve n w.pfa.regions = some (base, pre, rs)) :
    w.allocContiguous n = (some base,
      { pfa := { w.pfa with regions := rs, regionZeroed := w.pfa.regionZeroed - pre,
                            freePages := w.pfa.freePages - n },
        mem := w.mem.zeroPages base (n - pre),
        desc := w.desc.setStates base .active n }) := by
  simp [allocContiguous, hn, hc]

end Pmm

namespace Layout

variable {w w' : Pmm} {l : Pool → List Nat} {owned handed : Multiset Nat} {x : Nat}

/-- `free` of a frame handed out moves it onto the dirty pool. -/
theorem free (h : Layout w l owned handed) (hx : x ∈ handed) (hw : w.free x = some w') :
    Kept w l w' owned (handed.erase x) [] := by
  obtain ⟨hmem, hpool, hreg, hfp, hrz⟩ := Pmm.free_some hw
  obtain ⟨hxl, hxu⟩ := h.not_mem_of_handed hx
  have hnil := h.ne_nil x (h.mem_owned_of_handed hx)
  have hpush := h.pools.push .dirty hxl hnil
  refine ⟨Function.update l .dirty (x :: l .dirty), ⟨hpush.of_eq hpool fun p f _ => by rw [hmem], ?_,
    h.nodup, h.ne_nil, ?_, by rw [hrz, hreg, h.region_zeroed], hreg ▸ h.zeroed_le⟩, fun hzs => ?_⟩
  · rw [← h.places, hreg]
    conv_rhs => rw [← Multiset.cons_erase hx]
    simp only [Function.update_self, Function.update_of_ne (by decide : Pool.zeroed ≠ .dirty),
      ← Multiset.cons_coe, Multiset.cons_add, Multiset.add_cons]
  · simp only [hfp, hreg, h.free_pages, Function.update_self,
      Function.update_of_ne (by decide : Pool.zeroed ≠ .dirty), List.length_cons]
    omega
  · -- only the freed frame's link word changed, and it is in no pool and no region
    refine ⟨⟨fun f hf i hi => ?_, fun f hf => ?_⟩, by simp⟩
    · simp only [Function.update_of_ne (by decide : Pool.zeroed ≠ .dirty)] at hf
      rw [hmem, PhysMem.write_of_ne _ _ _ (ne_of_mem_of_not_mem hf (hxl .zeroed))]
      exact hzs.pool f hf i hi
    · rw [hreg] at hf
      rw [hmem]
      exact (hzs.tops f hf).write_of_ne
        (ne_of_mem_of_not_mem (preZeroed_subset_untouched h.zeroed_le hf) hxu)

/-- `alloc_contiguous` that carved a run: the run is handed out, its low pages zeroed here and
its high ones already zeroed. -/
theorem allocContiguous_some (h : Layout w l owned handed) {n base pre : Nat} {rs : List VmPageRegion}
    (hc : carve n w.pfa.regions = some (base, pre, rs)) :
    Kept w l
      { pfa := { w.pfa with regions := rs, regionZeroed := w.pfa.regionZeroed - pre,
                            freePages := w.pfa.freePages - n },
        mem := w.mem.zeroPages base (n - pre),
        desc := w.desc.setStates base .active n }
      owned (↑(List.range' base n frameSize) + handed) (List.range' base n frameSize) := by
  obtain ⟨hU, hP, hsub, hpre, htop, hzle⟩ := carve_frames h.zeroed_le hc
  -- the run is its `n - pre` low pages, zeroed here, then its `pre` high ones
  have hrun : List.range' base n frameSize =
      List.range' base (n - pre) frameSize ++ List.range' (base + frameSize * (n - pre)) pre frameSize := by
    rw [List.range'_append, Nat.sub_add_cancel hpre]
  have hrunU : ∀ f ∈ List.range' base n frameSize, f ∈ untouched w.pfa.regions := fun f hf => by
    rw [← Multiset.mem_coe, hU]; exact Multiset.mem_add.2 (Or.inl (Multiset.mem_coe.2 hf))
  have hlow : ∀ p, ∀ f ∈ l p, f ∉ List.range' base (n - pre) frameSize := fun p f hf hlow =>
    h.not_mem_pool_of_untouched (hrunU f (by rw [hrun]; exact List.mem_append_left _ hlow)) p hf
  have hlen : (untouched w.pfa.regions).length = n + (untouched rs).length := by
    rw [← Multiset.coe_card, hU, Multiset.card_add, Multiset.coe_card, Multiset.coe_card,
      List.length_range']
  have hfree := h.free_pages
  have hrz := h.region_zeroed
  refine ⟨l, ⟨h.pools.of_eq (fun p => by cases p <;> rfl) fun p f hf => by
      simp only; rw [PhysMem.zeroPages_of_not_mem _ (hlow p f hf)], ?_, h.nodup, h.ne_nil,
    by simp only [hfree, hlen]; omega, by simp only [hrz, hP]; omega, hzle⟩, fun hzs => ?_⟩
  · rw [← h.places, hU]
    abel
  · refine ⟨⟨fun f hf i hi => ?_, fun f hf => (hzs.tops f (hsub f hf)).zeroPages _ _⟩, fun f hf => ?_⟩
    · simp only
      rw [PhysMem.zeroPages_of_not_mem _ (hlow .zeroed f hf)]
      exact hzs.pool f hf i hi
    · rw [hrun, List.mem_append] at hf
      rcases hf with hf | hf
      · exact PhysMem.pageZero_zeroPages _ hf
      · exact (hzs.tops f (htop f hf)).zeroPages _ _

/-- `alloc_contiguous` keeps the layout and the zeroes, handing out the run it returns. -/
theorem allocContiguous (h : Layout w l owned handed) (n : Nat) :
    Kept w l (w.allocContiguous n).2 owned
      (↑((w.allocContiguous n).1.elim [] fun base => List.range' base n frameSize) + handed)
      ((w.allocContiguous n).1.elim [] fun base => List.range' base n frameSize) := by
  by_cases hn : n = 0
  · subst hn; rw [Pmm.allocContiguous_zero]; simpa using h.kept_refl
  · rcases hc : carve n w.pfa.regions with _ | ⟨base, pre, rs⟩
    · rw [Pmm.allocContiguous_of_none hn hc]
      have hk : Kept w l w.countFailure owned handed [] :=
        h.kept_of_same (fun p => by cases p <;> rfl) rfl rfl rfl fun _ _ => rfl
      simpa using hk
    · rw [Pmm.allocContiguous_of_some hn hc]
      exact h.allocContiguous_some hc

end Layout

/-! ## `zero_one_page`, `add_region` and writes -/

namespace Pmm

variable {w : Pmm}

theorem zeroOnePage_of_dirty (hd : (w.pfa.pool .dirty).head ≠ FrameStack.NIL) :
    w.zeroOnePage = (true,
      { ((w.popped .dirty).zeroPage (w.pfa.pool .dirty).head).push .zeroed (w.pfa.pool .dirty).head with
        desc := (((w.popped .dirty).zeroPage (w.pfa.pool .dirty).head).push .zeroed
          (w.pfa.pool .dirty).head).desc.setState (w.pfa.pool .dirty).head .zeroed }) := by
  simp [zeroOnePage, pop_of_ne hd]

theorem zeroOnePage_of_tail (hd : (w.pfa.pool .dirty).head = FrameStack.NIL)
    (hf : ¬w.pfa.freePages ≤ w.pfa.zeroedPages) {a : Nat} {rs : List VmPageRegion}
    (ht : zeroTail w.pfa.regions = some (a, rs)) :
    w.zeroOnePage = (true,
      { pfa := { w.pfa with regions := rs, regionZeroed := w.pfa.regionZeroed + 1 },
        mem := w.mem.zeroPage a,
        desc := w.desc.setState a .zeroed }) := by
  simp [zeroOnePage, pop_of_nil hd, hf, ht]

theorem zeroOnePage_of_idle (hd : (w.pfa.pool .dirty).head = FrameStack.NIL)
    (hidle : w.pfa.freePages ≤ w.pfa.zeroedPages ∨ zeroTail w.pfa.regions = none) :
    w.zeroOnePage = (false, w) := by
  rcases hidle with hf | ht
  · simp [zeroOnePage, pop_of_nil hd, hf]
  · by_cases hf : w.pfa.freePages ≤ w.pfa.zeroedPages
    · simp [zeroOnePage, pop_of_nil hd, hf]
    · simp [zeroOnePage, pop_of_nil hd, hf, ht]

end Pmm

namespace Layout

variable {w : Pmm} {l : Pool → List Nat} {owned handed : Multiset Nat}

/-- `zero_one_page` on a dirty page: it is zeroed and pushed on the zeroed pool, so its only
nonzero word is the new link. -/
theorem zeroOnePage_dirty (h : Layout w l owned handed) (hd : (w.pfa.pool .dirty).head ≠ FrameStack.NIL) :
    Kept w l w.zeroOnePage.2 owned handed [] := by
  rw [Pmm.zeroOnePage_of_dirty hd]
  obtain ⟨xs, hl, hpools⟩ := h.pools.pop .dirty (h.pools_disjoint · .dirty) hd
  have hnd : (w.pfa.pool .dirty).head ∉ xs := by
    have := hl ▸ Chain.nodup (h.pools .dirty).1; exact (List.nodup_cons.1 this).1
  have hxz : (w.pfa.pool .dirty).head ∉ l .zeroed :=
    h.pools_disjoint .zeroed .dirty (by decide) _ (by simp [hl])
  have hnot : ∀ p, (w.pfa.pool .dirty).head ∉ Function.update l .dirty xs p := by
    intro p; cases p <;> simp [hxz, hnd]
  -- zeroing the popped frame touches no pooled frame; then it is pushed
  have hzero : Pools (w.popped .dirty).pfa ((w.popped .dirty).mem.zeroPage (w.pfa.pool .dirty).head)
      (Function.update l .dirty xs) :=
    hpools.of_eq (fun _ => rfl) fun p f hf => by
      rw [PhysMem.zeroPage_of_ne _ (ne_of_mem_of_not_mem hf (hnot p))]; rfl
  have hpush := hzero.push .zeroed hnot hd
  have hpz : (w.popped .dirty).pfa.pool .zeroed = w.pfa.pool .zeroed := by simp
  refine ⟨_, ⟨hpush, ?_, h.nodup, h.ne_nil, ?_, by simpa [Pmm.push] using h.region_zeroed,
    by simpa [Pmm.push] using h.zeroed_le⟩, fun hzs => ?_⟩
  · rw [← h.places, hl]
    simp only [Function.update_self, Function.update_of_ne (by decide : Pool.dirty ≠ .zeroed),
      Function.update_of_ne (by decide : Pool.zeroed ≠ .dirty), Pmm.push, Pmm.zeroPage_pfa,
      Pmm.popped_pfa, PageFrameAllocator.regions_setPool, ← Multiset.cons_coe, Multiset.cons_add,
      Multiset.add_cons]
  · have := h.free_pages
    simp only [hl, List.length_cons] at this
    simp only [Pmm.push, Pmm.zeroPage_pfa, Pmm.popped_pfa, PageFrameAllocator.freePages_setPool,
      PageFrameAllocator.regions_setPool, Function.update_self,
      Function.update_of_ne (by decide : Pool.dirty ≠ .zeroed),
      Function.update_of_ne (by decide : Pool.zeroed ≠ .dirty), List.length_cons, this]
    omega
  · refine ⟨⟨fun f hf i hi => ?_, fun f hf => ?_⟩, by simp⟩
    · simp only [Function.update_self, Function.update_of_ne (by decide : Pool.zeroed ≠ .dirty),
        List.mem_cons] at hf
      simp only [Pmm.push, Pmm.zeroPage_mem, Pmm.popped_mem]
      rcases hf with rfl | hf
      · rw [PhysMem.write_self, if_neg hi]
        simp [PhysMem.zeroPage]
      · have hne := ne_of_mem_of_not_mem hf hxz
        rw [PhysMem.write_of_ne _ _ _ hne, PhysMem.zeroPage_of_ne _ hne, PhysMem.write_of_ne _ _ _ hne]
        exact hzs.pool f hf i hi
    · simp only [Pmm.push, Pmm.zeroPage_pfa, Pmm.popped_pfa, PageFrameAllocator.regions_setPool] at hf
      have hne : f ≠ (w.pfa.pool .dirty).head := fun e =>
        h.not_mem_pool_of_untouched (preZeroed_subset_untouched h.zeroed_le hf) .dirty (by simp [hl, e])
      simp only [Pmm.push, Pmm.zeroPage_mem, Pmm.popped_mem]
      exact (((hzs.tops f hf).write_of_ne hne).zeroPage _).write_of_ne hne

/-- `zero_one_page` on a region: the page under its zeroed top is zeroed and joins it. -/
theorem zeroOnePage_tail (h : Layout w l owned handed) {a : Nat} {rs : List VmPageRegion}
    (ht : zeroTail w.pfa.regions = some (a, rs)) :
    Kept w l { pfa := { w.pfa with regions := rs, regionZeroed := w.pfa.regionZeroed + 1 },
               mem := w.mem.zeroPage a, desc := w.desc.setState a .zeroed } owned handed [] := by
  obtain ⟨hU, hP, hsub, ha, hzle⟩ := zeroTail_frames h.zeroed_le ht
  have hnot : ∀ p, ∀ f ∈ l p, f ≠ a := fun p f hf e => h.not_mem_pool_of_untouched ha p (e ▸ hf)
  refine ⟨l, ⟨h.pools.of_eq (fun p => by cases p <;> rfl) fun p f hf => by
      simp only; rw [PhysMem.zeroPage_of_ne _ (hnot p f hf)], by simpa [hU] using h.places, h.nodup,
    h.ne_nil, by simpa [hU] using h.free_pages, by simp [h.region_zeroed, hP], hzle⟩, fun hzs => ?_⟩
  refine ⟨⟨fun f hf i hi => ?_, fun f hf => ?_⟩, by simp⟩
  · simp only
    rw [PhysMem.zeroPage_of_ne _ (hnot .zeroed f hf)]
    exact hzs.pool f hf i hi
  · rcases hsub f hf with rfl | hf
    · exact PhysMem.pageZero_zeroPage_self _
    · exact (hzs.tops f hf).zeroPage _

/-- `zero_one_page` keeps the layout and the zeroes. -/
theorem zeroOnePage (h : Layout w l owned handed) : Kept w l w.zeroOnePage.2 owned handed [] := by
  by_cases hd : (w.pfa.pool .dirty).head = FrameStack.NIL
  · by_cases hf : w.pfa.freePages ≤ w.pfa.zeroedPages
    · rw [Pmm.zeroOnePage_of_idle hd (.inl hf)]; exact h.kept_refl
    · rcases ht : zeroTail w.pfa.regions with _ | ⟨a, rs⟩
      · rw [Pmm.zeroOnePage_of_idle hd (.inr ht)]; exact h.kept_refl
      · rw [Pmm.zeroOnePage_of_tail hd hf ht]; exact h.zeroOnePage_tail ht
  · exact h.zeroOnePage_dirty hd

/-- `add_region` of a fresh region disjoint from the frames there are: its frames join the
untouched ranges, with an empty zeroed top. -/
theorem addRegion (h : Layout w l owned handed) (r : VmPageRegion) (pushed : Bool)
    (hfresh : r.zeroedCount = 0) (hdis : ∀ f ∈ r.frames, f ∉ owned)
    (hnil : ∀ f ∈ r.frames, f ≠ FrameStack.NIL) :
    Kept w l (w.addRegion r pushed) (if pushed then ↑r.frames + owned else owned) handed [] := by
  cases pushed with
  | false => simpa [Pmm.addRegion] using h.kept_refl
  | true =>
    have hz0 : r.zeroedFrames = [] := VmPageRegion.zeroedFrames_of_zero hfresh
    have hlen : (r.frames).length = r.count := List.length_range'
    refine ⟨l, ⟨h.pools.of_eq (fun p => by cases p <;> rfl) fun _ _ _ => rfl, ?_, ?_, ?_, ?_, ?_, ?_⟩,
      fun hzs => ⟨⟨hzs.pool, ?_⟩, by simp⟩⟩
    · simp only [Pmm.addRegion, if_true, untouched_cons, ← Multiset.coe_add, ← h.places]
      abel
    · simp only [if_true]
      exact Multiset.nodup_add.2 ⟨Multiset.coe_nodup.2 r.frames_nodup, h.nodup,
        Multiset.disjoint_left.2 fun hf => hdis _ (Multiset.mem_coe.1 hf)⟩
    · simp only [if_true, Multiset.mem_add, Multiset.mem_coe]
      rintro f (hf | hf)
      · exact hnil f hf
      · exact h.ne_nil f hf
    · simp only [Pmm.addRegion, if_true, untouched_cons, List.length_append, hlen, h.free_pages]
      omega
    · simpa [Pmm.addRegion, hz0] using h.region_zeroed
    · simp only [Pmm.addRegion, if_true, List.mem_cons, forall_eq_or_imp]
      exact ⟨by omega, h.zeroed_le⟩
    · simpa [Pmm.addRegion, hz0] using hzs.tops

/-- A write to a frame handed out: no pool, region or counter sees it. -/
theorem write (h : Layout w l owned handed) {x : Nat} (hx : x ∈ handed) (i : Fin 512) (v : Nat) :
    Kept w l { w with mem := w.mem.write x i v } owned handed [] :=
  h.kept_of_same (fun _ => rfl) rfl rfl rfl fun _ hf =>
    PhysMem.write_of_ne _ _ _ (ne_of_mem_of_not_mem hx hf).symm

theorem addReserved (h : Layout w l owned handed) (pages : Nat) :
    Kept w l (w.addReserved pages) owned handed [] :=
  h.kept_of_same (fun p => by cases p <;> rfl) rfl rfl rfl fun _ _ => rfl

end Layout

end Archipelago.Mm
