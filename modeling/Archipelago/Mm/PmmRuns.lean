import Archipelago.Lib.Run
import Archipelago.Mm.PmmInvariant
/-! The physical page allocator over whole runs: from the empty allocator of boot, any
sequence of `add_region`, `add_reserved`, `alloc`, `alloc_contiguous`, `free`,
`zero_one_page` and stores into frames handed out. Two ghost records ride along: the
regions accepted as they came, whose frames are the frames the allocator owns, and the
frames handed out and not freed since. The calls a state allows are the ones the kernel
makes: a region handed over is fresh, lies in the physical address space and is disjoint
from the ones before; only a frame handed out is freed or written.

Along every such run each frame is in exactly one place with the counters counting them
(`Conserved`), and no call hands out a frame that is already out. From any state where the
zeroed pool and the zeroed tops are zero (`Sound`), every frame a call hands out is zero. -/

namespace Archipelago.Mm

open Archipelago.Lib

/-- The byte ranges of two regions share no address. -/
def VmPageRegion.Disjoint (r r' : VmPageRegion) : Prop :=
  ∀ a, r.start ≤ a → a < r.start + r.count * frameSize →
    ¬(r'.start ≤ a ∧ a < r'.start + r'.count * frameSize)

/-- A frame of a region lies in its byte range. -/
theorem VmPageRegion.mem_frames {r : VmPageRegion} {f : Nat} (hf : f ∈ r.frames) :
    r.start ≤ f ∧ f + frameSize ≤ r.start + r.count * frameSize := by
  obtain ⟨i, hi, rfl⟩ := List.mem_range'.1 hf
  have : (i + 1) * frameSize ≤ r.count * frameSize := Nat.mul_le_mul_right _ hi
  constructor <;> simp only [Nat.add_mul, Nat.one_mul] at this ⊢ <;> rw [Nat.mul_comm] <;> omega

theorem VmPageRegion.Disjoint.frames {r r' : VmPageRegion} (h : r.Disjoint r') {f : Nat}
    (hf : f ∈ r.frames) : f ∉ r'.frames := fun hf' => by
  have h₁ := mem_frames hf
  have h₂ := mem_frames hf'
  have : 0 < frameSize := by decide
  exact h f h₁.1 (by omega) ⟨h₂.1, by omega⟩

/-- A call into the allocator, or a store into a frame by its owner. -/
inductive PmmCall
  | addRegion (region : VmPageRegion) (pushed : Bool)
  | addReserved (pages : Nat)
  | alloc
  | allocContiguous (count : Nat)
  | free (addr : Nat)
  | zeroOnePage
  | write (addr : Nat) (i : Fin 512) (v : Nat)

/-- The allocator with the ghost records of the regions it accepted and the frames it has
handed out and not had back. -/
structure PmmSystem where
  pmm : Pmm
  added : List VmPageRegion
  handed : List Nat

namespace PmmSystem

/-- The allocator of boot, before any region. -/
def boot (mem : PhysMem) (desc : Descriptors) : PmmSystem := ⟨⟨{}, mem, desc⟩, [], []⟩

/-- The frames of the regions accepted. -/
def owned (s : PmmSystem) : List Nat := untouched s.added

/-- A call, with the frames it hands out. A `free` that panics stops the kernel, so the
state stays as it was. -/
def step (s : PmmSystem) : PmmCall → PmmSystem × List Nat
  | .addRegion r pushed =>
    ({ s with pmm := s.pmm.addRegion r pushed, added := if pushed then r :: s.added else s.added }, [])
  | .addReserved n => ({ s with pmm := s.pmm.addReserved n }, [])
  | .alloc => ({ s with pmm := s.pmm.alloc.2, handed := s.pmm.alloc.1.toList ++ s.handed }, s.pmm.alloc.1.toList)
  | .allocContiguous n =>
    let out := (s.pmm.allocContiguous n).1.elim [] fun base => List.range' base n frameSize
    ({ s with pmm := (s.pmm.allocContiguous n).2, handed := out ++ s.handed }, out)
  | .free a =>
    match s.pmm.free a with
    | none => (s, [])
    | some w => ({ s with pmm := w, handed := s.handed.erase a }, [])
  | .zeroOnePage => ({ s with pmm := s.pmm.zeroOnePage.2 }, [])
  | .write a i v => ({ s with pmm := { s.pmm with mem := s.pmm.mem.write a i v } }, [])

/-- The calls the kernel makes: fresh regions (`zeroed_count` 0, as `boot.cpp` builds them)
inside the physical address space and disjoint from the regions before, and `free` and
stores only on frames handed out. -/
def Allowed (s : PmmSystem) : PmmCall → Prop
  | .addRegion r _ => r.zeroedCount = 0 ∧ r.start + r.count * frameSize ≤ 2 ^ 64 ∧ ∀ r' ∈ s.added, r.Disjoint r'
  | .free a => a ∈ s.handed
  | .write a _ _ => a ∈ s.handed
  | _ => True

/-- Each frame the allocator owns is in exactly one place, and the counters count them. -/
def Conserved (s : PmmSystem) : Prop := ∃ l, Layout s.pmm l s.owned s.handed

/-- Conserved, with the zeroed pool and the zeroed tops zero. -/
def Sound (s : PmmSystem) : Prop := ∃ l, Layout s.pmm l s.owned s.handed ∧ Zeroes s.pmm (l .zeroed)

/-- The next call hands out distinct frames, none of them already out. -/
def HandsOutFresh (s : PmmSystem) : Prop :=
  ∀ c, s.Allowed c → (s.step c).2.Nodup ∧ ∀ f ∈ (s.step c).2, f ∉ s.handed

/-- Every frame the next call hands out is zero when it is returned. -/
def HandsOutZeroed (s : PmmSystem) : Prop :=
  ∀ c, ∀ f ∈ (s.step c).2, (s.step c).1.pmm.mem.PageZero f

variable {s : PmmSystem}

/-- A region fresh, in the address space and disjoint from the others brings new frames,
none of them the sentinel. -/
theorem owned_addRegion {r : VmPageRegion} (hin : r.start + r.count * frameSize ≤ 2 ^ 64)
    (hdis : ∀ r' ∈ s.added, r.Disjoint r') :
    (∀ f ∈ r.frames, f ∉ s.owned) ∧ ∀ f ∈ r.frames, f ≠ FrameStack.NIL := by
  refine ⟨fun f hf hown => ?_, fun f hf => ?_⟩
  · obtain ⟨r', hr', hf'⟩ := List.mem_flatMap.1 hown
    exact (hdis r' hr').frames hf hf'
  · have := (VmPageRegion.mem_frames hf).2
    have : frameSize = 4096 := rfl
    simp only [FrameStack.NIL]
    omega

/-- One call keeps the layout and the zeroes, handing out zero frames. -/
theorem step_kept {l : Pool → List Nat} (h : Layout s.pmm l s.owned s.handed) :
    ∀ c, s.Allowed c → Kept s.pmm l (s.step c).1.pmm (s.step c).1.owned (s.step c).1.handed (s.step c).2
  | .addRegion r pushed, ⟨hfresh, hin, hdis⟩ => by
    obtain ⟨hnew, hnil⟩ := owned_addRegion hin hdis
    have := h.addRegion r pushed hfresh hnew hnil
    cases pushed <;> simpa [step, owned] using this
  | .addReserved n, _ => h.addReserved n
  | .alloc, _ => by simpa [step, owned] using h.alloc
  | .allocContiguous n, _ => by simpa [step, owned] using h.allocContiguous n
  | .free a, ha => by
    simp only [step]
    cases hw : s.pmm.free a with
    | none => exact h.kept_refl
    | some w => simpa [owned, Multiset.coe_erase] using h.free ha hw
  | .zeroOnePage, _ => h.zeroOnePage
  | .write a i v, ha => h.write ha i v

theorem conserved_step (hs : s.Conserved) (c : PmmCall) (hc : s.Allowed c) : (s.step c).1.Conserved := by
  obtain ⟨l, h⟩ := hs
  obtain ⟨l', h', -⟩ := step_kept h c hc
  exact ⟨l', h'⟩

theorem sound_step (hs : s.Sound) (c : PmmCall) (hc : s.Allowed c) : (s.step c).1.Sound := by
  obtain ⟨l, h, hz⟩ := hs
  obtain ⟨l', h', hz'⟩ := step_kept h c hc
  exact ⟨l', h', (hz' hz).1⟩

/-- A call hands out nothing, or adds what it hands out to the frames out. -/
theorem step_handed (s : PmmSystem) :
    ∀ c, (s.step c).2 = [] ∨ (s.step c).1.handed = (s.step c).2 ++ s.handed
  | .addRegion _ _ => .inl rfl
  | .addReserved _ => .inl rfl
  | .alloc => .inr rfl
  | .allocContiguous _ => .inr rfl
  | .free a => by simp only [step]; split <;> exact .inl rfl
  | .zeroOnePage => .inl rfl
  | .write _ _ _ => .inl rfl

/-- The frames out are distinct: the layout counts each once. -/
theorem handed_nodup (hs : s.Conserved) : s.handed.Nodup := by
  obtain ⟨l, h⟩ := hs
  exact Multiset.coe_nodup.1 (Multiset.nodup_add.1 (h.places ▸ h.nodup)).2.1

theorem handsOutFresh_of_conserved (hs : s.Conserved) : s.HandsOutFresh := by
  intro c hc
  rcases step_handed s c with hnil | heq
  · simp [hnil]
  · have hnd := heq ▸ handed_nodup (conserved_step hs c hc)
    exact ⟨hnd.of_append_left, fun f hf hout => List.disjoint_of_nodup_append hnd hf hout⟩

theorem handsOutZeroed_of_sound (hs : s.Sound) : s.HandsOutZeroed := by
  intro c f hf
  obtain ⟨l, h, hz⟩ := hs
  -- only `alloc` and `alloc_contiguous` hand anything out, and both are always allowed
  cases c with
  | alloc => exact ((step_kept h .alloc trivial).choose_spec.2 hz).2 f hf
  | allocContiguous n => exact ((step_kept h (.allocContiguous n) trivial).choose_spec.2 hz).2 f hf
  | free a => simp only [step] at hf; split at hf <;> simp at hf
  | _ => simp [step] at hf

theorem boot_sound (mem : PhysMem) (desc : Descriptors) : (boot mem desc).Sound := by
  refine ⟨fun _ => [], ⟨fun p => ?_, by simp [boot, owned], by simp [boot, owned],
    by simp [boot, owned], rfl, rfl, by simp [boot]⟩, ⟨by simp, by simp [boot]⟩⟩
  cases p <;> exact ⟨rfl, rfl⟩

/-- Every allowed run from boot keeps the frames conserved. -/
theorem conserved_run (mem : PhysMem) (desc : Descriptors) (calls : List PmmCall)
    (hok : Guarded step Allowed (boot mem desc) calls) : (run step (boot mem desc) calls).1.Conserved :=
  run_invariant_guarded Allowed Conserved (fun _ c hc hs => conserved_step hs c hc)
    (let ⟨l, h, _⟩ := boot_sound mem desc; ⟨l, h⟩) calls hok

theorem frames_conserved (mem : PhysMem) (desc : Descriptors) (calls : List PmmCall)
    (hok : Guarded step Allowed (boot mem desc) calls) :
    (run step (boot mem desc) calls).1.Conserved ∧ (run step (boot mem desc) calls).1.HandsOutFresh := by
  have hs := conserved_run mem desc calls hok
  exact ⟨hs, handsOutFresh_of_conserved hs⟩

/-- Two pages handed over at boot, one taken by `alloc` and one by `alloc_contiguous`. -/
theorem frames_conserved_two_pages :
    Guarded step Allowed (boot (fun _ _ => 0) fun _ => none)
        [.addRegion ⟨0, 2, 0⟩ true, .alloc, .allocContiguous 1] ∧
      (run step (boot (fun _ _ => 0) fun _ => none)
        [.addRegion ⟨0, 2, 0⟩ true, .alloc, .allocContiguous 1]).1.Conserved ∧
      (run step (boot (fun _ _ => 0) fun _ => none)
        [.addRegion ⟨0, 2, 0⟩ true, .alloc, .allocContiguous 1]).1.HandsOutFresh := by
  have hok : Guarded step Allowed (boot (fun _ _ => 0) fun _ => none)
      [.addRegion ⟨0, 2, 0⟩ true, .alloc, .allocContiguous 1] :=
    ⟨⟨rfl, by decide, by simp [boot]⟩, trivial, trivial, trivial⟩
  exact ⟨hok, frames_conserved _ _ _ hok⟩

/-- `add_region` does not add a region's own `zeroed_count` to `m_region_zeroed`: handed a
region whose top page is already zeroed, the counter misses it. -/
theorem prezeroed_region_uncounted :
    ((boot (fun _ _ => 0) fun _ => none).step (.addRegion ⟨0, 1, 1⟩ true)).1.pmm.pfa.regionZeroed = 0 ∧
      (preZeroed ((boot (fun _ _ => 0) fun _ => none).step
        (.addRegion ⟨0, 1, 1⟩ true)).1.pmm.pfa.regions).length = 1 ∧
      ¬((boot (fun _ _ => 0) fun _ => none).step (.addRegion ⟨0, 1, 1⟩ true)).1.Conserved := by
  have hrz : ((boot (fun _ _ => 0) fun _ => none).step
      (.addRegion ⟨0, 1, 1⟩ true)).1.pmm.pfa.regionZeroed = 0 := rfl
  have hlen : (preZeroed ((boot (fun _ _ => 0) fun _ => none).step
      (.addRegion ⟨0, 1, 1⟩ true)).1.pmm.pfa.regions).length = 1 := by decide
  refine ⟨hrz, hlen, fun ⟨l, h⟩ => ?_⟩
  have := h.region_zeroed
  rw [hrz, hlen] at this
  exact absurd this (by decide)

theorem allocations_zeroed {s : PmmSystem} (hs : s.Sound) (calls : List PmmCall)
    (hok : Guarded step Allowed s calls) : (run step s calls).1.HandsOutZeroed :=
  handsOutZeroed_of_sound
    (run_invariant_guarded Allowed Sound (fun _ c hc hs => sound_step hs c hc) hs calls hok)

/-- Memory full of ones: the region's page comes out of `alloc` zeroed all the same. -/
theorem allocations_zeroed_after_boot :
    (boot (fun _ _ => 1) fun _ => none).Sound ∧
      Guarded step Allowed (boot (fun _ _ => 1) fun _ => none) [.addRegion ⟨0, 2, 0⟩ true] ∧
      (run step (boot (fun _ _ => 1) fun _ => none) [.addRegion ⟨0, 2, 0⟩ true]).1.HandsOutZeroed := by
  have hs := boot_sound (fun _ _ => 1) fun _ => none
  have hok : Guarded step Allowed (boot (fun _ _ => 1) fun _ => none) [.addRegion ⟨0, 2, 0⟩ true] :=
    ⟨⟨rfl, by decide, by simp [boot]⟩, trivial⟩
  exact ⟨hs, hok, allocations_zeroed hs _ hok⟩

end PmmSystem

end Archipelago.Mm
