import Archipelago.Mm.PmmRuns
/-! The page-descriptor table beside the allocator (`mm/page_descriptor.cpp`).
`page_descriptor_table::init` sizes the table from the highest end of the usable and wired
ranges, carves its array with `alloc_contiguous` while the table is still null, and marks the
usable ranges FREE, the wired ranges WIRED and its own frames WIRED. From then on every mutator
of the allocator sets the states of the frames it moves, and `free` reads the state to catch a
double free.

`Mirror` says the descriptors follow the layout: a pooled or zeroed-top frame is ZEROED, a
dirty or untouched one is FREE, a frame handed out is ACTIVE or WIRED, and nothing outside the
allocator's frames is ZEROED. It holds right after `init` and every call after it keeps it; so
at every later state `count(ZEROED)` is `zeroed_pages()` and `free` panics exactly on the
frames not handed out.

The table is keyed by address as `Pmm.desc` is; every address the allocator and `init` set is a
frame base, so the entry of frame `i` is the state at `i * PAGE_SIZE`. -/

namespace Archipelago.Mm

open Archipelago.Lib

/-- `sizeof(page_descriptor)`: the owner pointer, the 64-bit offset, the 32-bit share count and
the state, padded to eight bytes. -/
def descriptorBytes : Nat := 24

/-- The first byte past a region, as `init` computes it. -/
def VmPageRegion.endAddr (r : VmPageRegion) : Nat := r.start + r.count * frameSize

/-- `init`'s two loops: the highest end over the usable ranges, then the wired ones. -/
def maxEnd (usable wired : List VmPageRegion) : Nat :=
  wired.foldl (fun m r => max m r.endAddr) (usable.foldl (fun m r => max m r.endAddr) 0)

namespace Descriptors

/-- The table just carved: its frames arrive zeroed, so every descriptor below `m_count` reads
`{nullptr, 0, 0, MMIO}` and `lookup` finds none past it. -/
def fresh (count : Nat) : Descriptors := fun a => if a / frameSize < count then some .mmio else none

/-- `mark_range` over every region of a list, in order. -/
def markRegions (d : Descriptors) (rs : List VmPageRegion) (st : PageState) : Descriptors :=
  rs.foldl (fun d r => d.setStates r.start st r.count) d

/-- `page_descriptor_table::count`: the frames below `m_count` in state `st`. -/
def count (d : Descriptors) (m : Nat) (st : PageState) : Nat :=
  ((List.range m).filter fun i => d (i * frameSize) = some st).length

variable {d : Descriptors}

theorem setState_of_ne {a f : Nat} (st : PageState) (h : f ≠ a) : d.setState a st f = d f :=
  Function.update_of_ne h _ _

theorem setState_self (a : Nat) (st : PageState) : d.setState a st a = (d a).map fun _ => st :=
  Function.update_self _ _ _

/-- `set_state` changes no frame's coverage. -/
theorem isSome_setState (a : Nat) (st : PageState) (f : Nat) :
    (d.setState a st f).isSome = (d f).isSome := by
  by_cases h : f = a
  · subst h; simp [setState_self]
  · rw [setState_of_ne st h]

/-- A covered frame set to `st` is in `st`. -/
theorem setState_self_of_isSome {a : Nat} (st : PageState) (h : (d a).isSome) :
    d.setState a st a = some st := by
  rw [setState_self]
  obtain ⟨s, hs⟩ := Option.isSome_iff_exists.1 h
  simp [hs]

/-- `mark_range` as a whole: the covered frames of the run take the state. -/
theorem setStates_apply (base : Nat) (st : PageState) (f : Nat) :
    ∀ n, d.setStates base st n f =
      if f ∈ List.range' base n frameSize then (d f).map (fun _ => st) else d f
  | 0 => by simp [setStates]
  | n + 1 => by
    have hlast : ∀ x ∈ List.range' base n frameSize, x ≠ base + n * frameSize := by
      intro x hx e
      obtain ⟨i, hi, rfl⟩ := List.mem_range'.1 hx
      have : frameSize * i < n * frameSize := by rw [Nat.mul_comm]; exact Nat.mul_lt_mul_of_pos_right hi (by decide)
      omega
    have hmem : f ∈ List.range' base (n + 1) frameSize ↔
        f ∈ List.range' base n frameSize ∨ f = base + n * frameSize := by
      rw [List.range'_concat, List.mem_append, List.mem_singleton, Nat.mul_comm frameSize]
    rw [setStates]
    simp only [hmem]
    by_cases hf : f = base + n * frameSize
    · subst hf
      rw [setState_self, setStates_apply base st _ n, if_neg fun h => hlast _ h rfl]
      simp
    · rw [setState_of_ne st hf, setStates_apply base st f n]
      simp [hf]

theorem isSome_setStates (base : Nat) (st : PageState) (n f : Nat) :
    (d.setStates base st n f).isSome = (d f).isSome := by
  rw [setStates_apply]; split <;> simp

/-- `mark_range` over a list of regions: the covered frames of any of them take the state. -/
theorem markRegions_apply (st : PageState) (f : Nat) :
    ∀ (d : Descriptors) (rs : List VmPageRegion), d.markRegions rs st f =
      if f ∈ untouched rs then (d f).map (fun _ => st) else d f
  | d, [] => by simp [markRegions]
  | d, r :: rs => by
    have hstep : d.markRegions (r :: rs) st = (d.setStates r.start st r.count).markRegions rs st := rfl
    rw [hstep, markRegions_apply st f _ rs, setStates_apply, untouched_cons]
    simp only [List.mem_append, VmPageRegion.frames]
    by_cases h₁ : f ∈ List.range' r.start r.count frameSize <;>
      by_cases h₂ : f ∈ untouched rs <;> simp [h₁, h₂, Function.comp_def]

theorem isSome_markRegions (rs : List VmPageRegion) (st : PageState) (f : Nat) :
    (d.markRegions rs st f).isSome = (d f).isSome := by
  rw [markRegions_apply]; split <;> simp

theorem isSome_fresh (m a : Nat) : (fresh m a).isSome ↔ a / frameSize < m := by
  unfold fresh; split <;> simp [*]

end Descriptors

/-- The pools are the chains from the stacks' heads, so they are determined by the state. -/
theorem Pools.unique {a : PageFrameAllocator} {mem : PhysMem} {l l' : Pool → List Nat}
    (h : Pools a mem l) (h' : Pools a mem l') : l = l' :=
  funext fun p => Chain.unique (h p).1 (h' p).1

/-! ## The zeroed tops after each region loop

`PmmInvariant` says what each loop takes from the zeroed tops by counting; with the frames
distinct the count pins the members. -/

/-- A duplicate-free list inside another that is no longer holds all of it. -/
theorem mem_of_length_le {xs ys : List Nat} (hxs : xs.Nodup) (hsub : ∀ a ∈ xs, a ∈ ys)
    (hlen : ys.length ≤ xs.length) {a : Nat} (ha : a ∈ ys) : a ∈ xs :=
  ((hxs.subperm hsub).perm_of_length_le hlen).mem_iff.2 ha

theorem preZeroed_sublist : ∀ {rs : List VmPageRegion}, (∀ r ∈ rs, r.zeroedCount ≤ r.count) →
    (preZeroed rs).Sublist (untouched rs)
  | [], _ => by simp
  | r :: rs, hz => by
    simp only [preZeroed_cons, untouched_cons]
    exact (VmPageRegion.zeroedFrames_sublist (hz r (by simp))).append
      (preZeroed_sublist fun e he => hz e (by simp [he]))

/-- `pop_free_page`'s loop keeps every zeroed top but the page it takes. -/
theorem takeTail_preZeroed {rs rs' : List VmPageRegion} {x f : Nat} {pre : Bool}
    (hz : ∀ r ∈ rs, r.zeroedCount ≤ r.count) (hnd : (untouched rs).Nodup)
    (ht : takeTail rs = (some (x, pre), rs')) (hf : f ∈ preZeroed rs) (hfx : f ≠ x) :
    f ∈ preZeroed rs' := by
  obtain ⟨hU, hP, hsub, hpre, hzle⟩ := takeTail_frames hz ht
  have hnd' : (x :: untouched rs').Nodup := by
    rw [← Multiset.coe_nodup, ← Multiset.cons_coe, ← hU]; exact hnd
  have hpnd : (preZeroed rs').Nodup := (preZeroed_sublist hzle).nodup (List.nodup_cons.1 hnd').2
  cases pre with
  | false => exact mem_of_length_le hpnd hsub (by simp at hP; omega) hf
  | true =>
    have hxp : x ∉ preZeroed rs' := fun hx => (List.nodup_cons.1 hnd').1 ((preZeroed_sublist hzle).subset hx)
    have hall : ∀ a ∈ x :: preZeroed rs', a ∈ preZeroed rs := by
      simp only [List.mem_cons, forall_eq_or_imp]
      exact ⟨hpre rfl, hsub⟩
    have hmem := mem_of_length_le (List.nodup_cons.2 ⟨hxp, hpnd⟩) hall (by simp at hP ⊢; omega) hf
    exact (List.mem_cons.1 hmem).resolve_left hfx

/-- `alloc_contiguous`'s loop keeps every zeroed top outside the run it carves. -/
theorem carve_preZeroed {rs rs' : List VmPageRegion} {n base pre f : Nat}
    (hz : ∀ r ∈ rs, r.zeroedCount ≤ r.count) (hnd : (untouched rs).Nodup)
    (hc : carve n rs = some (base, pre, rs')) (hf : f ∈ preZeroed rs)
    (hfx : f ∉ List.range' base n frameSize) : f ∈ preZeroed rs' := by
  obtain ⟨hU, hP, hsub, hpre, htop, hzle⟩ := carve_frames hz hc
  have hnd' : (List.range' base n frameSize ++ untouched rs').Nodup := by
    rw [← Multiset.coe_nodup, ← Multiset.coe_add, ← hU]; exact hnd
  -- the run's zeroed high pages, then the zeroed tops left
  have htops : List.range' (base + frameSize * (n - pre)) pre frameSize ⊆ List.range' base n frameSize := by
    intro a ha
    obtain ⟨i, hi, rfl⟩ := List.mem_range'.1 ha
    exact List.mem_range'.2 ⟨n - pre + i, by omega, by rw [Nat.mul_add]; omega⟩
  have hxs : (List.range' (base + frameSize * (n - pre)) pre frameSize ++ preZeroed rs').Nodup := by
    refine List.nodup_append.2 ⟨List.nodup_range' _ (by decide), (preZeroed_sublist hzle).nodup
      (List.nodup_append.1 hnd').2.1, fun a ha b hb hab => ?_⟩
    exact (List.nodup_append.1 hnd').2.2 a (htops ha) b ((preZeroed_sublist hzle).subset hb) hab
  have hall : ∀ a ∈ List.range' (base + frameSize * (n - pre)) pre frameSize ++ preZeroed rs',
      a ∈ preZeroed rs := by
    intro a ha
    rcases List.mem_append.1 ha with ha | ha
    · exact htop a ha
    · exact hsub a ha
  have hmem := mem_of_length_le hxs hall (by simp only [List.length_append, List.length_range']; omega) hf
  rcases List.mem_append.1 hmem with ha | ha
  · exact absurd (htops ha) hfx
  · exact ha

/-- `zero_one_page`'s loop keeps every zeroed top and adds the page it zeroes. -/
theorem zeroTail_preZeroed {rs rs' : List VmPageRegion} {a : Nat}
    (hz : ∀ r ∈ rs, r.zeroedCount ≤ r.count) (hnd : (untouched rs).Nodup)
    (ht : zeroTail rs = some (a, rs')) {f : Nat} (hf : f = a ∨ f ∈ preZeroed rs) :
    f ∈ preZeroed rs' := by
  obtain ⟨hU, hP, hsub, -, hzle⟩ := zeroTail_frames hz ht
  have hpnd : (preZeroed rs').Nodup := (preZeroed_sublist hzle).nodup (hU ▸ hnd)
  have hall : ∀ b ∈ preZeroed rs', b ∈ a :: preZeroed rs := fun b hb => List.mem_cons.2 (hsub b hb)
  exact mem_of_length_le hpnd hall (by simp only [List.length_cons]; omega) (List.mem_cons.2 hf)

/-! ## Descriptors that mirror the layout -/

/-- A frame's descriptor fits the place the layout puts it in. -/
structure StateFits (w : Pmm) (l : Pool → List Nat) (handed : Multiset Nat) (f : Nat) : Prop where
  zeroed : f ∈ l .zeroed ∨ f ∈ preZeroed w.pfa.regions → w.desc f = some .zeroed
  free : f ∈ l .dirty ∨ (f ∈ untouched w.pfa.regions ∧ f ∉ preZeroed w.pfa.regions) →
    w.desc f = some .free
  live : f ∈ handed → w.desc f = some .active ∨ w.desc f = some .wired

/-- The table of `m` descriptors mirrors the layout: every frame of the allocator fits its
place and is the base of a covered frame, and no other address reads ZEROED. -/
structure Mirror (w : Pmm) (l : Pool → List Nat) (owned handed : Multiset Nat) (m : Nat) : Prop where
  fits : ∀ f ∈ owned, StateFits w l handed f
  zeroed_owned : ∀ a, w.desc a = some .zeroed → a ∈ owned
  covered : ∀ a, (w.desc a).isSome ↔ a / frameSize < m
  aligned : ∀ f ∈ owned, f % frameSize = 0 ∧ f / frameSize < m

/-- A frame a call does not move: every place that holds it after the call held it before. -/
structure Stays (w : Pmm) (l : Pool → List Nat) (handed : Multiset Nat) (w' : Pmm)
    (l' : Pool → List Nat) (handed' : Multiset Nat) (f : Nat) : Prop where
  pools : ∀ p, f ∈ l' p → f ∈ l p
  tops : f ∈ preZeroed w'.pfa.regions → f ∈ preZeroed w.pfa.regions
  rest : f ∈ untouched w'.pfa.regions → f ∉ preZeroed w'.pfa.regions →
    f ∈ untouched w.pfa.regions ∧ f ∉ preZeroed w.pfa.regions
  handed : f ∈ handed' → f ∈ handed

variable {w w' : Pmm} {l l' : Pool → List Nat} {owned handed handed' : Multiset Nat} {m x : Nat}

theorem StateFits.stay (hf : StateFits w l handed x) (hs : Stays w l handed w' l' handed' x)
    (hd : w'.desc x = w.desc x) : StateFits w' l' handed' x := by
  refine ⟨fun h => ?_, fun h => ?_, fun h => ?_⟩ <;> rw [hd]
  · exact hf.zeroed (h.imp (hs.pools .zeroed) hs.tops)
  · exact hf.free (h.imp (hs.pools .dirty) fun ⟨hu, hnp⟩ => hs.rest hu hnp)
  · exact hf.live (hs.handed h)

namespace Layout

theorem mem_owned_of_pool (h : Layout w l owned handed) {p : Pool} (hx : x ∈ l p) : x ∈ owned := by
  rw [← h.places]
  cases p
  · exact Multiset.mem_add.2 (.inl (Multiset.mem_add.2 (.inl (Multiset.mem_add.2 (.inl hx)))))
  · exact Multiset.mem_add.2 (.inl (Multiset.mem_add.2 (.inl (Multiset.mem_add.2 (.inr hx)))))

theorem untouched_nodup (h : Layout w l owned handed) : (untouched w.pfa.regions).Nodup := by
  have hnd := h.places ▸ h.nodup
  exact Multiset.coe_nodup.1 (Multiset.nodup_add.1 (Multiset.nodup_add.1 hnd).1).2.1

/-- A frame of the allocator is pooled, untouched or handed out. -/
theorem mem_places (h : Layout w l owned handed) (hf : x ∈ owned) :
    x ∈ l .zeroed ∨ x ∈ l .dirty ∨ x ∈ untouched w.pfa.regions ∨ x ∈ handed := by
  rw [← h.places] at hf
  simp only [Multiset.mem_add, Multiset.mem_coe] at hf
  tauto

/-- The head popped off pool `p` is in no pool after the pop. -/
theorem head_not_mem_update (h : Layout w l owned handed) {p : Pool} {xs : List Nat}
    (hl : l p = x :: xs) : ∀ q, x ∉ Function.update l p xs q := by
  have hnd : x ∉ xs := (List.nodup_cons.1 (hl ▸ Chain.nodup (h.pools p).1)).1
  intro q
  by_cases hq : q = p
  · subst hq; rwa [Function.update_self]
  · rw [Function.update_of_ne hq]
    exact h.pools_disjoint q p hq x (by simp [hl])

/-! Each place fixes the only state a frame there can fit. -/

theorem fits_of_handed (h : Layout w l owned handed) (hx : x ∈ handed)
    (hd : w.desc x = some .active ∨ w.desc x = some .wired) : StateFits w l handed x := by
  obtain ⟨hxl, hxu⟩ := h.not_mem_of_handed hx
  refine ⟨?_, ?_, fun _ => hd⟩
  · rintro (hz | hp)
    · exact absurd hz (hxl .zeroed)
    · exact absurd (preZeroed_subset_untouched h.zeroed_le hp) hxu
  · rintro (hdirty | ⟨hu, -⟩)
    · exact absurd hdirty (hxl .dirty)
    · exact absurd hu hxu

theorem fits_of_zeroedPool (h : Layout w l owned handed) (hx : x ∈ l .zeroed)
    (hd : w.desc x = some .zeroed) : StateFits w l handed x := by
  refine ⟨fun _ => hd, ?_, fun hh => absurd hx ((h.not_mem_of_handed hh).1 .zeroed)⟩
  rintro (hdirty | ⟨hu, -⟩)
  · exact absurd hdirty (h.pools_disjoint .dirty .zeroed (by decide) x hx)
  · exact absurd hx (h.not_mem_pool_of_untouched hu .zeroed)

theorem fits_of_dirtyPool (h : Layout w l owned handed) (hx : x ∈ l .dirty)
    (hd : w.desc x = some .free) : StateFits w l handed x := by
  refine ⟨?_, fun _ => hd, fun hh => absurd hx ((h.not_mem_of_handed hh).1 .dirty)⟩
  rintro (hz | hp)
  · exact absurd hz (h.pools_disjoint .zeroed .dirty (by decide) x hx)
  · exact absurd hx (h.not_mem_pool_of_untouched (preZeroed_subset_untouched h.zeroed_le hp) .dirty)

theorem fits_of_preZeroed (h : Layout w l owned handed) (hx : x ∈ preZeroed w.pfa.regions)
    (hd : w.desc x = some .zeroed) : StateFits w l handed x := by
  have hu := preZeroed_subset_untouched h.zeroed_le hx
  refine ⟨fun _ => hd, ?_, fun hh => absurd hu (h.not_mem_of_handed hh).2⟩
  rintro (hdirty | ⟨-, hnp⟩)
  · exact absurd hdirty (h.not_mem_pool_of_untouched hu .dirty)
  · exact absurd hx hnp

theorem fits_of_untouched (h : Layout w l owned handed) (hx : x ∈ untouched w.pfa.regions)
    (hnp : x ∉ preZeroed w.pfa.regions) (hd : w.desc x = some .free) : StateFits w l handed x := by
  refine ⟨?_, fun _ => hd, fun hh => absurd hx (h.not_mem_of_handed hh).2⟩
  rintro (hz | hp)
  · exact absurd hz (h.not_mem_pool_of_untouched hx .zeroed)
  · exact absurd hp hnp

end Layout

/-- A `free` that does not panic sets the frame FREE and no other state. -/
theorem Pmm.free_some_desc (hw : w.free x = some w') : w'.desc = w.desc.setState x .free := by
  unfold Pmm.free at hw
  split at hw
  · cases hw
  · cases hw
  · cases hw; rfl

namespace Mirror

theorem isSome (hm : Mirror w l owned handed m) (hx : x ∈ owned) : (w.desc x).isSome :=
  (hm.covered x).2 (hm.aligned x hx).2

/-- A call that moves the frames `X`, each to a place its new state fits, and changes no
other frame's place or state, keeps the mirror. -/
theorem transfer (hm : Mirror w l owned handed m) (X : List Nat)
    (hmoved : ∀ f ∈ X, StateFits w' l' handed' f) (hXo : ∀ f ∈ X, f ∈ owned)
    (hstay : ∀ f ∈ owned, f ∉ X → Stays w l handed w' l' handed' f)
    (hdesc : ∀ a, a ∉ X → w'.desc a = w.desc a)
    (hcov : ∀ a, (w'.desc a).isSome = (w.desc a).isSome) : Mirror w' l' owned handed' m := by
  refine ⟨fun f hf => ?_, fun a ha => ?_, fun a => ?_, hm.aligned⟩
  · by_cases hx : f ∈ X
    · exact hmoved f hx
    · exact (hm.fits f hf).stay (hstay f hf hx) (hdesc f hx)
  · by_cases hx : a ∈ X
    · exact hXo a hx
    · exact hm.zeroed_owned a (by rw [← hdesc a hx]; exact ha)
  · rw [hcov]; exact hm.covered a

/-- A call that moves no frame: the pools, the regions' frames and the states stay. -/
theorem of_same (hm : Mirror w l owned handed m) (hl : l' = l)
    (hU : untouched w'.pfa.regions = untouched w.pfa.regions)
    (hP : preZeroed w'.pfa.regions = preZeroed w.pfa.regions) (hdesc : w'.desc = w.desc) :
    Mirror w' l' owned handed m := by
  subst hl
  refine hm.transfer [] (by simp) (by simp) (fun f _ _ => ⟨fun _ => id, ?_, ?_, id⟩)
    (fun a _ => by rw [hdesc]) (fun a => by rw [hdesc])
  · rw [hP]; exact id
  · rw [hU, hP]; exact fun hu hnp => ⟨hu, hnp⟩

/-! Each way a call moves a frame. -/

/-- A frame popped off pool `p` goes out ACTIVE. -/
theorem handOut_pool (hm : Mirror w l owned handed m) (h : Layout w l owned handed) {p : Pool}
    {xs : List Nat} (hl : l p = x :: xs) (hl' : l' = Function.update l p xs)
    (hr : w'.pfa.regions = w.pfa.regions) (hx : (w.desc x).isSome → w'.desc x = some .active)
    (hdo : ∀ a, a ≠ x → w'.desc a = w.desc a) (hcov : ∀ a, (w'.desc a).isSome = (w.desc a).isSome)
    (h' : Layout w' l' owned (x ::ₘ handed)) : Mirror w' l' owned (x ::ₘ handed) m := by
  have hxo : x ∈ owned := h.mem_owned_of_pool (p := p) (by simp [hl])
  refine hm.transfer [x] (fun f hf => ?_) (fun f hf => ?_) (fun f _ hfx => ?_)
    (fun a ha => hdo a (by simpa using ha)) hcov
  · rw [List.mem_singleton.1 hf]
    exact h'.fits_of_handed (Multiset.mem_cons_self _ _) (.inl (hx (hm.isSome hxo)))
  · rw [List.mem_singleton.1 hf]; exact hxo
  · have hne : f ≠ x := by simpa using hfx
    refine ⟨fun q hq => ?_, fun hp => hr ▸ hp, fun hu hnp => hr ▸ ⟨hu, hnp⟩,
      fun hh => (Multiset.mem_cons.1 hh).resolve_left hne⟩
    rw [hl'] at hq
    by_cases hqp : q = p
    · subst hqp
      rw [Function.update_self] at hq
      rw [hl]; exact List.mem_cons_of_mem _ hq
    · rwa [Function.update_of_ne hqp] at hq

/-- Frames carved off the regions' untouched ranges go out ACTIVE. -/
theorem handOut_regions (hm : Mirror w l owned handed m) (h : Layout w l owned handed) (X : List Nat)
    (hl' : l' = l) (hU : ∀ f ∈ untouched w'.pfa.regions, f ∈ untouched w.pfa.regions)
    (hsub : ∀ f ∈ preZeroed w'.pfa.regions, f ∈ preZeroed w.pfa.regions)
    (hexact : ∀ f ∈ preZeroed w.pfa.regions, f ∉ X → f ∈ preZeroed w'.pfa.regions)
    (hXu : ∀ f ∈ X, f ∈ untouched w.pfa.regions)
    (hx : ∀ f ∈ X, (w.desc f).isSome → w'.desc f = some .active)
    (hdo : ∀ a, a ∉ X → w'.desc a = w.desc a) (hcov : ∀ a, (w'.desc a).isSome = (w.desc a).isSome)
    (h' : Layout w' l' owned (↑X + handed)) : Mirror w' l' owned (↑X + handed) m := by
  subst hl'
  have hXo : ∀ f ∈ X, f ∈ owned := fun f hf => h.mem_owned_of_untouched (hXu f hf)
  refine hm.transfer X (fun f hf => ?_) hXo (fun f _ hfx => ?_) hdo hcov
  · exact h'.fits_of_handed (Multiset.mem_add.2 (.inl (Multiset.mem_coe.2 hf)))
      (.inl (hx f hf (hm.isSome (hXo f hf))))
  · refine ⟨fun _ => id, hsub f, fun hu hnp => ⟨hU f hu, fun hp => hnp (hexact f hp hfx)⟩, fun hh => ?_⟩
    rcases Multiset.mem_add.1 hh with hX | hh
    · exact absurd (Multiset.mem_coe.1 hX) hfx
    · exact hh

/-- A frame handed back goes on the dirty pool FREE. -/
theorem free_handed (hm : Mirror w l owned handed m) (h : Layout w l owned handed) (hxh : x ∈ handed)
    (hl' : l' = Function.update l .dirty (x :: l .dirty)) (hr : w'.pfa.regions = w.pfa.regions)
    (hx : (w.desc x).isSome → w'.desc x = some .free) (hdo : ∀ a, a ≠ x → w'.desc a = w.desc a)
    (hcov : ∀ a, (w'.desc a).isSome = (w.desc a).isSome) (h' : Layout w' l' owned (handed.erase x)) :
    Mirror w' l' owned (handed.erase x) m := by
  have hxo : x ∈ owned := h.mem_owned_of_handed hxh
  refine hm.transfer [x] (fun f hf => ?_) (fun f hf => ?_) (fun f _ hfx => ?_)
    (fun a ha => hdo a (by simpa using ha)) hcov
  · rw [List.mem_singleton.1 hf]
    exact h'.fits_of_dirtyPool (by rw [hl']; simp) (hx (hm.isSome hxo))
  · rw [List.mem_singleton.1 hf]; exact hxo
  · have hne : f ≠ x := by simpa using hfx
    refine ⟨fun q hq => ?_, fun hp => hr ▸ hp, fun hu hnp => hr ▸ ⟨hu, hnp⟩,
      Multiset.mem_of_mem_erase⟩
    rw [hl'] at hq
    cases q with
    | zeroed => rwa [Function.update_of_ne (by decide)] at hq
    | dirty =>
      rw [Function.update_self] at hq
      exact (List.mem_cons.1 hq).resolve_left hne

/-- A dirty frame zeroed onto the zeroed pool turns ZEROED. -/
theorem zero_dirty (hm : Mirror w l owned handed m) (h : Layout w l owned handed) {xs : List Nat}
    (hl : l .dirty = x :: xs)
    (hl' : l' = Function.update (Function.update l .dirty xs) .zeroed (x :: l .zeroed))
    (hr : w'.pfa.regions = w.pfa.regions) (hx : (w.desc x).isSome → w'.desc x = some .zeroed)
    (hdo : ∀ a, a ≠ x → w'.desc a = w.desc a) (hcov : ∀ a, (w'.desc a).isSome = (w.desc a).isSome)
    (h' : Layout w' l' owned handed) : Mirror w' l' owned handed m := by
  have hxo : x ∈ owned := h.mem_owned_of_pool (p := .dirty) (by simp [hl])
  refine hm.transfer [x] (fun f hf => ?_) (fun f hf => ?_) (fun f _ hfx => ?_)
    (fun a ha => hdo a (by simpa using ha)) hcov
  · rw [List.mem_singleton.1 hf]
    exact h'.fits_of_zeroedPool (by rw [hl']; simp) (hx (hm.isSome hxo))
  · rw [List.mem_singleton.1 hf]; exact hxo
  · have hne : f ≠ x := by simpa using hfx
    refine ⟨fun q hq => ?_, fun hp => hr ▸ hp, fun hu hnp => hr ▸ ⟨hu, hnp⟩, id⟩
    rw [hl'] at hq
    cases q with
    | zeroed =>
      rw [Function.update_self] at hq
      exact (List.mem_cons.1 hq).resolve_left hne
    | dirty =>
      rw [Function.update_of_ne (by decide), Function.update_self] at hq
      rw [hl]; exact List.mem_cons_of_mem _ hq

/-- The page under a region's zeroed top joins it ZEROED. -/
theorem zero_tail (hm : Mirror w l owned handed m) (h : Layout w l owned handed) {a : Nat} (hl' : l' = l)
    (hU : untouched w'.pfa.regions = untouched w.pfa.regions) (ha : a ∈ untouched w.pfa.regions)
    (htops : ∀ f, f ∈ preZeroed w'.pfa.regions ↔ f = a ∨ f ∈ preZeroed w.pfa.regions)
    (hx : (w.desc a).isSome → w'.desc a = some .zeroed) (hdo : ∀ b, b ≠ a → w'.desc b = w.desc b)
    (hcov : ∀ b, (w'.desc b).isSome = (w.desc b).isSome) (h' : Layout w' l' owned handed) :
    Mirror w' l' owned handed m := by
  subst hl'
  have hao : a ∈ owned := h.mem_owned_of_untouched ha
  refine hm.transfer [a] (fun f hf => ?_) (fun f hf => ?_) (fun f _ hfx => ?_)
    (fun b hb => hdo b (by simpa using hb)) hcov
  · rw [List.mem_singleton.1 hf]
    exact h'.fits_of_preZeroed ((htops a).2 (.inl rfl)) (hx (hm.isSome hao))
  · rw [List.mem_singleton.1 hf]; exact hao
  · have hne : f ≠ a := by simpa using hfx
    refine ⟨fun _ => id, fun hp => ((htops f).1 hp).resolve_left hne, fun hu hnp => ?_, id⟩
    exact ⟨hU ▸ hu, fun hp => hnp ((htops f).2 (.inr hp))⟩

/-! Each call of the allocator. -/

theorem alloc_pool (hm : Mirror w l owned handed m) (h : Layout w l owned handed)
    (hz : (w.pfa.pool .zeroed).head ≠ FrameStack.NIL)
    (h' : Layout w.alloc.2 l' owned ((w.pfa.pool .zeroed).head ::ₘ handed)) :
    Mirror w.alloc.2 l' owned ((w.pfa.pool .zeroed).head ::ₘ handed) m := by
  rw [Pmm.alloc_of_pool hz] at h' ⊢
  obtain ⟨xs, hl, hpools⟩ := h.pools.pop .zeroed (h.pools_disjoint · .zeroed) hz
  exact hm.handOut_pool h hl (h'.pools.unique (hpools.of_eq (fun p => by simp) fun _ _ _ => rfl)) rfl
    (Descriptors.setState_self_of_isSome _) (fun a ha => Descriptors.setState_of_ne _ ha)
    (Descriptors.isSome_setState _ _) h'

theorem alloc_dirty (hm : Mirror w l owned handed m) (h : Layout w l owned handed)
    (hz : (w.pfa.pool .zeroed).head = FrameStack.NIL) (hd : (w.pfa.pool .dirty).head ≠ FrameStack.NIL)
    (h' : Layout w.alloc.2 l' owned ((w.pfa.pool .dirty).head ::ₘ handed)) :
    Mirror w.alloc.2 l' owned ((w.pfa.pool .dirty).head ::ₘ handed) m := by
  rw [Pmm.alloc_of_dirty hz hd] at h' ⊢
  obtain ⟨xs, hl, hpools⟩ := h.pools.pop .dirty (h.pools_disjoint · .dirty) hd
  have hnot := h.head_not_mem_update hl
  -- zeroing the popped frame touches no pooled frame's link word
  have hl' := h'.pools.unique (hpools.of_eq (fun p => by simp) fun p f hf => by
    simp only [Pmm.handOut_mem, Pmm.zeroPage_mem]
    rw [PhysMem.zeroPage_of_ne _ (ne_of_mem_of_not_mem hf (hnot p))]
    rfl)
  exact hm.handOut_pool h hl hl' rfl (Descriptors.setState_self_of_isSome _)
    (fun a ha => Descriptors.setState_of_ne _ ha) (Descriptors.isSome_setState _ _) h'

theorem alloc_region (hm : Mirror w l owned handed m) (h : Layout w l owned handed)
    (hz : (w.pfa.pool .zeroed).head = FrameStack.NIL) (hd : (w.pfa.pool .dirty).head = FrameStack.NIL)
    {pre : Bool} {rs : List VmPageRegion} (ht : takeTail w.pfa.regions = (some (x, pre), rs))
    (h' : Layout w.alloc.2 l' owned (x ::ₘ handed)) : Mirror w.alloc.2 l' owned (x ::ₘ handed) m := by
  have hW := Pmm.alloc_of_region hz hd ht
  obtain ⟨hU, -, hsub, -, -⟩ := takeTail_frames h.zeroed_le ht
  have hx : x ∈ untouched w.pfa.regions := by
    rw [← Multiset.mem_coe, hU]; exact Multiset.mem_cons_self _ _
  have hnot : ∀ p, ∀ f ∈ l p, f ≠ x := fun p f hf e => h.not_mem_pool_of_untouched hx p (e ▸ hf)
  -- both shapes of the page, pre-zeroed or zeroed here, leave the same regions and states
  have hreg : w.alloc.2.pfa.regions = rs := by rw [hW]; cases pre <;> rfl
  have hdesc : w.alloc.2.desc = w.desc.setState x .active := by rw [hW]; cases pre <;> rfl
  have hl' : l' = l := h'.pools.unique (by
    rw [hW]
    cases pre with
    | true => exact h.pools.of_eq (fun p => by cases p <;> rfl) fun _ _ _ => rfl
    | false =>
      exact h.pools.of_eq (fun p => by cases p <;> rfl) fun p f hf => by
        simp only [Bool.false_eq_true, if_false, Pmm.handOut_mem, Pmm.zeroPage_mem]
        rw [PhysMem.zeroPage_of_ne _ (hnot p f hf)])
  rw [← Multiset.singleton_add, ← Multiset.coe_singleton] at h' ⊢
  refine hm.handOut_regions h [x] hl' (fun f hf => ?_) (fun f hf => hsub f (hreg ▸ hf))
    (fun f hf hfx => hreg ▸ takeTail_preZeroed h.zeroed_le h.untouched_nodup ht hf (by simpa using hfx))
    (by simpa using hx) (fun f hf hs => ?_) (fun a ha => ?_) (fun a => ?_) h'
  · rw [hreg] at hf
    rw [← Multiset.mem_coe, hU]; exact Multiset.mem_cons_of_mem hf
  · rw [List.mem_singleton.1 hf] at hs ⊢
    rw [hdesc]; exact Descriptors.setState_self_of_isSome _ hs
  · rw [hdesc]; exact Descriptors.setState_of_ne _ (by simpa using ha)
  · rw [hdesc]; exact Descriptors.isSome_setState _ _ _

theorem alloc_none (hm : Mirror w l owned handed m) (h : Layout w l owned handed)
    (hz : (w.pfa.pool .zeroed).head = FrameStack.NIL) (hd : (w.pfa.pool .dirty).head = FrameStack.NIL)
    {rs : List VmPageRegion} (ht : takeTail w.pfa.regions = (none, rs))
    (h' : Layout w.alloc.2 l' owned handed) : Mirror w.alloc.2 l' owned handed m := by
  rw [Pmm.alloc_of_none hz hd ht] at h' ⊢
  obtain ⟨rfl, hempty⟩ := takeTail_none ht
  exact hm.of_same (h'.pools.unique (h.pools.of_eq (fun p => by cases p <;> rfl) fun _ _ _ => rfl))
    (by rw [untouched_of_empty hempty]; rfl) (by rw [preZeroed_of_empty h.zeroed_le hempty]; rfl) rfl

/-- `alloc` keeps the mirror: what it returns goes out ACTIVE. -/
theorem alloc (hm : Mirror w l owned handed m) (h : Layout w l owned handed)
    (h' : Layout w.alloc.2 l' owned (↑w.alloc.1.toList + handed)) :
    Mirror w.alloc.2 l' owned (↑w.alloc.1.toList + handed) m := by
  by_cases hz : (w.pfa.pool .zeroed).head = FrameStack.NIL
  · by_cases hd : (w.pfa.pool .dirty).head = FrameStack.NIL
    · rcases ht : takeTail w.pfa.regions with ⟨_ | ⟨x, pre⟩, rs⟩
      · have h1 : w.alloc.1 = none := by rw [Pmm.alloc_of_none hz hd ht]
        rw [h1] at h' ⊢
        simpa using hm.alloc_none h hz hd ht (by simpa using h')
      · have h1 : w.alloc.1 = some x := by rw [Pmm.alloc_of_region hz hd ht]
        rw [h1] at h' ⊢
        simpa using hm.alloc_region h hz hd ht (by simpa using h')
    · have h1 : w.alloc.1 = some (w.pfa.pool .dirty).head := by rw [Pmm.alloc_of_dirty hz hd]
      rw [h1] at h' ⊢
      simpa using hm.alloc_dirty h hz hd (by simpa using h')
  · have h1 : w.alloc.1 = some (w.pfa.pool .zeroed).head := by rw [Pmm.alloc_of_pool hz]
    rw [h1] at h' ⊢
    simpa using hm.alloc_pool h hz (by simpa using h')

/-- `free` of a frame handed out puts it on the dirty pool FREE. -/
theorem free (hm : Mirror w l owned handed m) (h : Layout w l owned handed) (hx : x ∈ handed)
    (hw : w.free x = some w') (h' : Layout w' l' owned (handed.erase x)) :
    Mirror w' l' owned (handed.erase x) m := by
  obtain ⟨hmem, hpool, hreg, -, -⟩ := Pmm.free_some hw
  have hpush := h.pools.push .dirty (h.not_mem_of_handed hx).1 (h.ne_nil x (h.mem_owned_of_handed hx))
  have hdesc := Pmm.free_some_desc hw
  refine hm.free_handed h hx (h'.pools.unique (hpush.of_eq hpool fun p f _ => by rw [hmem])) hreg
    (fun hs => ?_) (fun a ha => ?_) (fun a => ?_) h'
  · rw [hdesc]; exact Descriptors.setState_self_of_isSome _ hs
  · rw [hdesc]; exact Descriptors.setState_of_ne _ ha
  · rw [hdesc]; exact Descriptors.isSome_setState _ _ _

theorem allocContiguous_some (hm : Mirror w l owned handed m) (h : Layout w l owned handed)
    {n base pre : Nat} {rs : List VmPageRegion} (hn : n ≠ 0)
    (hc : carve n w.pfa.regions = some (base, pre, rs))
    (h' : Layout (w.allocContiguous n).2 l' owned (↑(List.range' base n frameSize) + handed)) :
    Mirror (w.allocContiguous n).2 l' owned (↑(List.range' base n frameSize) + handed) m := by
  rw [Pmm.allocContiguous_of_some hn hc] at h' ⊢
  obtain ⟨hU, -, hsub, hpre, -, -⟩ := carve_frames h.zeroed_le hc
  have hrunU : ∀ f ∈ List.range' base n frameSize, f ∈ untouched w.pfa.regions := fun f hf => by
    rw [← Multiset.mem_coe, hU]; exact Multiset.mem_add.2 (Or.inl (Multiset.mem_coe.2 hf))
  -- the pages zeroed here are the run's low ones, none of them pooled
  have hrun : List.range' base n frameSize =
      List.range' base (n - pre) frameSize ++ List.range' (base + frameSize * (n - pre)) pre frameSize := by
    rw [List.range'_append, Nat.sub_add_cancel hpre]
  have hlow : ∀ p, ∀ f ∈ l p, f ∉ List.range' base (n - pre) frameSize := fun p f hf hlow =>
    h.not_mem_pool_of_untouched (hrunU f (by rw [hrun]; exact List.mem_append_left _ hlow)) p hf
  have hl' := h'.pools.unique (h.pools.of_eq (fun p => by cases p <;> rfl) fun p f hf => by
    simp only
    rw [PhysMem.zeroPages_of_not_mem _ (hlow p f hf)])
  refine hm.handOut_regions h _ hl' (fun f hf => ?_) hsub
    (fun f hf hfx => carve_preZeroed h.zeroed_le h.untouched_nodup hc hf hfx) hrunU
    (fun f hf hs => ?_) (fun a ha => ?_) (fun a => Descriptors.isSome_setStates _ _ _ _) h'
  · rw [← Multiset.mem_coe, hU]; exact Multiset.mem_add.2 (.inr (Multiset.mem_coe.2 hf))
  · obtain ⟨st, hst⟩ := Option.isSome_iff_exists.1 hs
    simp only [Descriptors.setStates_apply, if_pos hf, hst, Option.map_some]
  · simp only [Descriptors.setStates_apply, if_neg ha]

/-- `alloc_contiguous` keeps the mirror: the run it returns goes out ACTIVE. -/
theorem allocContiguous (hm : Mirror w l owned handed m) (h : Layout w l owned handed) (n : Nat)
    (h' : Layout (w.allocContiguous n).2 l' owned
      (↑((w.allocContiguous n).1.elim [] fun base => List.range' base n frameSize) + handed)) :
    Mirror (w.allocContiguous n).2 l' owned
      (↑((w.allocContiguous n).1.elim [] fun base => List.range' base n frameSize) + handed) m := by
  by_cases hn : n = 0
  · subst hn
    rw [Pmm.allocContiguous_zero] at h' ⊢
    simp only [Option.elim, Multiset.coe_nil, zero_add] at h' ⊢
    exact hm.of_same (h'.pools.unique h.pools) rfl rfl rfl
  · rcases hc : carve n w.pfa.regions with _ | ⟨base, pre, rs⟩
    · rw [Pmm.allocContiguous_of_none hn hc] at h' ⊢
      simp only [Option.elim, Multiset.coe_nil, zero_add] at h' ⊢
      exact hm.of_same (h'.pools.unique (h.pools.of_eq (fun p => by cases p <;> rfl) fun _ _ _ => rfl))
        rfl rfl rfl
    · have h1 : (w.allocContiguous n).1 = some base := by rw [Pmm.allocContiguous_of_some hn hc]
      rw [h1] at h' ⊢
      exact hm.allocContiguous_some h hn hc h'

theorem zeroOnePage_dirty (hm : Mirror w l owned handed m) (h : Layout w l owned handed)
    (hd : (w.pfa.pool .dirty).head ≠ FrameStack.NIL) (h' : Layout w.zeroOnePage.2 l' owned handed) :
    Mirror w.zeroOnePage.2 l' owned handed m := by
  rw [Pmm.zeroOnePage_of_dirty hd] at h' ⊢
  obtain ⟨xs, hl, hpools⟩ := h.pools.pop .dirty (h.pools_disjoint · .dirty) hd
  have hnot := h.head_not_mem_update hl
  have hzero : Pools (w.popped .dirty).pfa ((w.popped .dirty).mem.zeroPage (w.pfa.pool .dirty).head)
      (Function.update l .dirty xs) :=
    hpools.of_eq (fun _ => rfl) fun p f hf => by
      rw [PhysMem.zeroPage_of_ne _ (ne_of_mem_of_not_mem hf (hnot p))]; rfl
  have hl' := h'.pools.unique (hzero.push .zeroed hnot hd)
  rw [Function.update_of_ne (by decide : Pool.zeroed ≠ .dirty)] at hl'
  exact hm.zero_dirty h hl hl' rfl (Descriptors.setState_self_of_isSome _)
    (fun a ha => Descriptors.setState_of_ne _ ha) (Descriptors.isSome_setState _ _) h'

theorem zeroOnePage_tail (hm : Mirror w l owned handed m) (h : Layout w l owned handed) {a : Nat}
    {rs : List VmPageRegion} (ht : zeroTail w.pfa.regions = some (a, rs))
    (h' : Layout { pfa := { w.pfa with regions := rs, regionZeroed := w.pfa.regionZeroed + 1 },
                   mem := w.mem.zeroPage a, desc := w.desc.setState a .zeroed } l' owned handed) :
    Mirror { pfa := { w.pfa with regions := rs, regionZeroed := w.pfa.regionZeroed + 1 },
             mem := w.mem.zeroPage a, desc := w.desc.setState a .zeroed } l' owned handed m := by
  obtain ⟨hU, -, hsub, ha, -⟩ := zeroTail_frames h.zeroed_le ht
  have hnot : ∀ p, ∀ f ∈ l p, f ≠ a := fun p f hf e => h.not_mem_pool_of_untouched ha p (e ▸ hf)
  have hl' := h'.pools.unique (h.pools.of_eq (fun p => by cases p <;> rfl) fun p f hf => by
    simp only
    rw [PhysMem.zeroPage_of_ne _ (hnot p f hf)])
  exact hm.zero_tail h hl' hU ha
    (fun f => ⟨hsub f, zeroTail_preZeroed h.zeroed_le h.untouched_nodup ht⟩)
    (Descriptors.setState_self_of_isSome _) (fun b hb => Descriptors.setState_of_ne _ hb)
    (Descriptors.isSome_setState _ _) h'

/-- `zero_one_page` keeps the mirror: what it zeroes turns ZEROED. -/
theorem zeroOnePage (hm : Mirror w l owned handed m) (h : Layout w l owned handed)
    (h' : Layout w.zeroOnePage.2 l' owned handed) : Mirror w.zeroOnePage.2 l' owned handed m := by
  by_cases hd : (w.pfa.pool .dirty).head = FrameStack.NIL
  · by_cases hf : w.pfa.freePages ≤ w.pfa.zeroedPages
    · rw [Pmm.zeroOnePage_of_idle hd (.inl hf)] at h' ⊢
      exact hm.of_same (h'.pools.unique h.pools) rfl rfl rfl
    · rcases ht : zeroTail w.pfa.regions with _ | ⟨a, rs⟩
      · rw [Pmm.zeroOnePage_of_idle hd (.inr ht)] at h' ⊢
        exact hm.of_same (h'.pools.unique h.pools) rfl rfl rfl
      · rw [Pmm.zeroOnePage_of_tail hd hf ht] at h' ⊢
        exact hm.zeroOnePage_tail h ht h'
  · exact hm.zeroOnePage_dirty h hd h'

/-- A store into a frame handed out changes no link word of a pool and no state. -/
theorem write (hm : Mirror w l owned handed m) (h : Layout w l owned handed) (hx : x ∈ handed)
    (i : Fin 512) (v : Nat) (h' : Layout { w with mem := w.mem.write x i v } l' owned handed) :
    Mirror { w with mem := w.mem.write x i v } l' owned handed m :=
  hm.of_same (h'.pools.unique (h.pools.of_eq (fun _ => rfl) fun p f hf => by
    simp only
    rw [PhysMem.write_of_ne _ _ _ (ne_of_mem_of_not_mem hf ((h.not_mem_of_handed hx).1 p))]))
    rfl rfl rfl

theorem addReserved (hm : Mirror w l owned handed m) (h : Layout w l owned handed) (pages : Nat)
    (h' : Layout (w.addReserved pages) l' owned handed) : Mirror (w.addReserved pages) l' owned handed m :=
  hm.of_same (h'.pools.unique (h.pools.of_eq (fun p => by cases p <;> rfl) fun _ _ _ => rfl)) rfl rfl rfl

/-! What the mirror tells. -/

/-- Where a frame of the allocator is, its state says: the three equivalences. -/
theorem agrees (hm : Mirror w l owned handed m) (h : Layout w l owned handed) (hf : x ∈ owned) :
    (w.desc x = some .zeroed ↔ x ∈ l .zeroed ∨ x ∈ preZeroed w.pfa.regions) ∧
      (w.desc x = some .free ↔
        x ∈ l .dirty ∨ (x ∈ untouched w.pfa.regions ∧ x ∉ preZeroed w.pfa.regions)) ∧
      (w.desc x = some .active ∨ w.desc x = some .wired ↔ x ∈ handed) := by
  have hfit := hm.fits x hf
  -- the frame is in exactly one of the four places; each fixes its state
  rcases h.mem_places hf with hz | hd | hu | hh
  · have hdz : x ∉ l .dirty := h.pools_disjoint .dirty .zeroed (by decide) x hz
    have hu : x ∉ untouched w.pfa.regions := fun hu => h.not_mem_pool_of_untouched hu .zeroed hz
    have hh : x ∉ handed := fun hh => (h.not_mem_of_handed hh).1 .zeroed hz
    simp [hfit.zeroed (.inl hz), hz, hdz, hu, hh]
  · have hzd : x ∉ l .zeroed := h.pools_disjoint .zeroed .dirty (by decide) x hd
    have hu : x ∉ untouched w.pfa.regions := fun hu => h.not_mem_pool_of_untouched hu .dirty hd
    have hp : x ∉ preZeroed w.pfa.regions := fun hp => hu (preZeroed_subset_untouched h.zeroed_le hp)
    have hh : x ∉ handed := fun hh => (h.not_mem_of_handed hh).1 .dirty hd
    simp [hfit.free (.inl hd), hd, hzd, hp, hh]
  · have hzd : ∀ p, x ∉ l p := h.not_mem_pool_of_untouched hu
    have hh : x ∉ handed := fun hh => (h.not_mem_of_handed hh).2 hu
    by_cases hp : x ∈ preZeroed w.pfa.regions
    · simp [hfit.zeroed (.inr hp), hzd, hp, hh]
    · simp [hfit.free (.inr ⟨hu, hp⟩), hzd, hu, hp, hh]
  · obtain ⟨hzd, hu⟩ := h.not_mem_of_handed hh
    have hp : x ∉ preZeroed w.pfa.regions := fun hp => hu (preZeroed_subset_untouched h.zeroed_le hp)
    rcases hfit.live hh with hd | hd <;> simp [hd, hzd, hu, hp, hh]

/-- `count(ZEROED)` is `zeroed_pages()`: the ZEROED frames are the zeroed pool and the zeroed
tops, each the base of one covered frame. -/
theorem count_zeroed (hm : Mirror w l owned handed m) (h : Layout w l owned handed) :
    w.desc.count m .zeroed = w.pfa.zeroedPages := by
  have hzero : ∀ a, w.desc a = some .zeroed ↔ a ∈ l .zeroed ++ preZeroed w.pfa.regions := by
    intro a
    constructor
    · intro ha
      exact List.mem_append.2 ((hm.agrees h (hm.zeroed_owned a ha)).1.1 ha)
    · intro ha
      rcases List.mem_append.1 ha with ha | ha
      · exact (hm.fits a (h.mem_owned_of_pool ha)).zeroed (.inl ha)
      · exact (hm.fits a (h.mem_owned_of_untouched (preZeroed_subset_untouched h.zeroed_le ha))).zeroed (.inr ha)
  have hnd : (l .zeroed ++ preZeroed w.pfa.regions).Nodup := by
    refine List.nodup_append.2 ⟨Chain.nodup (h.pools .zeroed).1,
      (preZeroed_sublist h.zeroed_le).nodup h.untouched_nodup, fun a ha b hb hab => ?_⟩
    subst hab
    exact h.not_mem_pool_of_untouched (preZeroed_subset_untouched h.zeroed_le hb) .zeroed ha
  -- the frame numbers counted, as addresses, are those frames
  have hperm : ((List.range m).filter fun i => w.desc (i * frameSize) = some .zeroed).map
      (· * frameSize) |>.Perm (l .zeroed ++ preZeroed w.pfa.regions) := by
    refine (List.perm_ext_iff_of_nodup ((List.nodup_range.filter _).map ?_) hnd).2 fun a => ?_
    · intro i j hij
      exact Nat.eq_of_mul_eq_mul_right (by decide) hij
    · rw [← hzero, List.mem_map]
      constructor
      · rintro ⟨i, hi, rfl⟩
        exact of_decide_eq_true (List.mem_filter.1 hi).2
      · intro ha
        obtain ⟨hal, hlt⟩ := hm.aligned a (hm.zeroed_owned a ha)
        refine ⟨a / frameSize, List.mem_filter.2 ⟨List.mem_range.2 hlt, ?_⟩, ?_⟩
        · rw [Nat.div_mul_cancel (Nat.dvd_of_mod_eq_zero hal)]; exact decide_eq_true ha
        · exact Nat.div_mul_cancel (Nat.dvd_of_mod_eq_zero hal)
  rw [Descriptors.count, ← List.length_map (f := (· * frameSize)), hperm.length_eq, List.length_append,
    PageFrameAllocator.zeroedPages, ← h.region_zeroed]
  exact congrArg (· + _) (h.pools .zeroed).2.symm

/-- `free` panics on exactly the frames of the allocator not handed out. -/
theorem free_eq_none_iff (hm : Mirror w l owned handed m) (h : Layout w l owned handed) (hf : x ∈ owned) :
    w.free x = none ↔ x ∉ handed := by
  have hpanic : w.free x = none ↔ w.desc x = some .free ∨ w.desc x = some .zeroed := by
    unfold Pmm.free
    split <;> simp_all
  obtain ⟨hz, hd, hh⟩ := hm.agrees h hf
  rw [hpanic]
  constructor
  · rintro hfz hx
    rcases hh.2 hx with ha | ha <;> rcases hfz with hb | hb <;> rw [ha] at hb <;> cases hb
  · intro hx
    rcases h.mem_places hf with hp | hp | hu | hp
    · exact .inr (hz.2 (.inl hp))
    · exact .inl (hd.2 (.inl hp))
    · by_cases hp : x ∈ preZeroed w.pfa.regions
      · exact .inr (hz.2 (.inr hp))
      · exact .inl (hd.2 (.inr ⟨hu, hp⟩))
    · exact absurd hp hx

end Mirror

/-! ## `init` and the runs after it -/

/-- `init`'s `array_pages`: the frames that hold `count` descriptors. -/
def arrayPages (count : Nat) : Nat := (count * descriptorBytes + frameSize - 1) / frameSize

/-- The states `init` leaves: the usable ranges FREE, then the wired ranges WIRED, then the
array's own frames WIRED. -/
def Descriptors.initial (count : Nat) (usable wired : List VmPageRegion) (base : Nat) : Descriptors :=
  (((Descriptors.fresh count).markRegions usable .free).markRegions wired .wired).setStates base .wired
    (arrayPages count)

/-- The range a call hands over as usable memory; `init_memory` records each for the table. -/
def PmmCall.region : PmmCall → Option VmPageRegion
  | .addRegion r _ => some r
  | _ => none

/-- The calls `init_memory` makes before `vmm_init`. -/
def PmmCall.atBoot : PmmCall → Bool
  | .addRegion _ _ => true
  | .addReserved _ => true
  | _ => false

theorem le_foldl_max {α : Type} (g : α → Nat) : ∀ (rs : List α) (b : Nat),
    b ≤ rs.foldl (fun m r => max m (g r)) b ∧ ∀ r ∈ rs, g r ≤ rs.foldl (fun m r => max m (g r)) b
  | [], b => by simp
  | r :: rs, b => by
    obtain ⟨h₁, h₂⟩ := le_foldl_max g rs (max b (g r))
    refine ⟨le_trans (le_max_left _ _) h₁, fun r' hr' => ?_⟩
    rcases List.mem_cons.1 hr' with rfl | hr'
    · exact le_trans (le_max_right _ _) h₁
    · exact h₂ r' hr'

/-- `max_end` is past every usable range. -/
theorem endAddr_le_maxEnd {usable wired : List VmPageRegion} {r : VmPageRegion} (hr : r ∈ usable) :
    r.endAddr ≤ maxEnd usable wired :=
  le_trans ((le_foldl_max _ usable 0).2 r hr) (le_foldl_max _ wired _).1

namespace Descriptors

variable {count base f : Nat} {usable wired : List VmPageRegion}

theorem isSome_initial (a : Nat) : (initial count usable wired base a).isSome ↔ a / frameSize < count := by
  rw [initial, isSome_setStates, isSome_markRegions, isSome_markRegions, isSome_fresh]

/-- `init` marks nothing ZEROED. -/
theorem initial_ne_zeroed (a : Nat) : initial count usable wired base a ≠ some .zeroed := by
  simp only [initial, setStates_apply, markRegions_apply, fresh]
  split_ifs <;> simp

/-- The array's own frames read WIRED. -/
theorem initial_of_array (hf : f ∈ List.range' base (arrayPages count) frameSize)
    (hc : f / frameSize < count) : initial count usable wired base f = some .wired := by
  have hs : (((fresh count).markRegions usable .free).markRegions wired .wired f).isSome := by
    rw [isSome_markRegions, isSome_markRegions]; exact (isSome_fresh _ _).2 hc
  obtain ⟨st, hst⟩ := Option.isSome_iff_exists.1 hs
  rw [initial, setStates_apply, if_pos hf, hst, Option.map_some]

/-- A usable frame outside the wired ranges and the array reads FREE. -/
theorem initial_of_usable (hu : f ∈ untouched usable) (hw : f ∉ untouched wired)
    (ha : f ∉ List.range' base (arrayPages count) frameSize) (hc : f / frameSize < count) :
    initial count usable wired base f = some .free := by
  rw [initial, setStates_apply, if_neg ha, markRegions_apply, if_neg hw, markRegions_apply, if_pos hu]
  simp [fresh, hc]

end Descriptors

theorem Pmm.allocContiguous_pool (w : Pmm) (n : Nat) (p : Pool) :
    (w.allocContiguous n).2.pfa.pool p = w.pfa.pool p := by
  unfold Pmm.allocContiguous
  split
  · rfl
  · split <;> cases p <;> rfl

theorem Pmm.allocContiguous_regionZeroed_le (w : Pmm) (n : Nat) :
    (w.allocContiguous n).2.pfa.regionZeroed ≤ w.pfa.regionZeroed := by
  unfold Pmm.allocContiguous
  split
  · exact le_refl _
  · split
    · exact le_refl _
    · exact Nat.sub_le _ _

/-- A layout does not read the descriptors. -/
theorem Layout.setDesc {w : Pmm} {l : Pool → List Nat} {owned handed : Multiset Nat}
    (h : Layout w l owned handed) (d : Descriptors) : Layout { w with desc := d } l owned handed :=
  ⟨h.pools, h.places, h.nodup, h.ne_nil, h.free_pages, h.region_zeroed, h.zeroed_le⟩

namespace PmmSystem

variable {s u : PmmSystem} {m : Nat} {usable wired : List VmPageRegion}

/-- `page_descriptor_table::init` on the allocator: the allocator with the table set up and
the table's `m_count`, `none` where `init` returns false. The array is carved while the
table is null, so `alloc_contiguous` sets no state of its own. -/
def initDescriptors (s : PmmSystem) (usable wired : List VmPageRegion) : Option (PmmSystem × Nat) :=
  if maxEnd usable wired = 0 then none
  else
    match (s.pmm.allocContiguous (arrayPages (maxEnd usable wired / frameSize))).1 with
    | none => none
    | some base =>
      let t := (s.step (.allocContiguous (arrayPages (maxEnd usable wired / frameSize)))).1
      let d := Descriptors.initial (maxEnd usable wired / frameSize) usable wired base
      some ({ t with pmm := { t.pmm with desc := d } }, maxEnd usable wired / frameSize)

/-- The calls after `vmm_init`: those the kernel makes, and no more regions. -/
def AllowedAfterInit (s : PmmSystem) (c : PmmCall) : Prop := s.Allowed c ∧ c.region = none

/-- The layout holds and the table of `m` descriptors mirrors it. -/
def Mirrored (s : PmmSystem) (m : Nat) : Prop :=
  ∃ l, Layout s.pmm l s.owned s.handed ∧ Mirror s.pmm l s.owned s.handed m

theorem mirrored_step (hs : s.Mirrored m) (c : PmmCall) (hc : s.AllowedAfterInit c) :
    (s.step c).1.Mirrored m := by
  obtain ⟨l, h, hm⟩ := hs
  obtain ⟨l', h', -⟩ := step_kept h c hc.1
  refine ⟨l', h', ?_⟩
  cases c with
  | addRegion r pushed => cases hc.2
  | addReserved n => exact hm.addReserved h n h'
  | alloc => simpa [step, owned] using hm.alloc h (by simpa [step, owned] using h')
  | allocContiguous n =>
    simpa [step, owned] using hm.allocContiguous h n (by simpa [step, owned] using h')
  | free a =>
    revert h'
    simp only [step]
    cases hw : s.pmm.free a with
    | none => exact fun h' => hm.of_same (h'.pools.unique h.pools) rfl rfl rfl
    | some w =>
      intro h'
      simpa [owned, Multiset.coe_erase] using
        hm.free h hc.1 hw (by simpa [owned, Multiset.coe_erase] using h')
  | zeroOnePage => exact hm.zeroOnePage h h'
  | write a i v => exact hm.write h hc.1 i v h'

/-- Every call after `init` keeps the mirror. -/
theorem mirrored_run (hs : s.Mirrored m) (calls : List PmmCall)
    (hok : Guarded step AllowedAfterInit s calls) : (run step s calls).1.Mirrored m :=
  run_invariant_guarded AllowedAfterInit (Mirrored · m) (fun _ c hc hs => mirrored_step hs c hc) hs
    calls hok

theorem initDescriptors_some (h : s.initDescriptors usable wired = some (u, m)) :
    m = maxEnd usable wired / frameSize ∧ ∃ base, (s.pmm.allocContiguous (arrayPages m)).1 = some base ∧
      u = { (s.step (.allocContiguous (arrayPages m))).1 with
            pmm := { (s.step (.allocContiguous (arrayPages m))).1.pmm with
                     desc := Descriptors.initial m usable wired base } } := by
  unfold initDescriptors at h
  split_ifs at h
  split at h
  · cases h
  · next base hb =>
    cases h
    exact ⟨rfl, base, hb, rfl⟩

/-- Before `vmm_init` nothing is handed out, both pools are empty and no top is zeroed. -/
structure BootPhase (s : PmmSystem) : Prop where
  handed : s.handed = []
  pools : ∀ p, s.pmm.pfa.pool p = {}
  region_zeroed : s.pmm.pfa.regionZeroed = 0

theorem bootPhase_boot (mem : PhysMem) (desc : Descriptors) : (boot mem desc).BootPhase :=
  ⟨rfl, fun p => by cases p <;> rfl, rfl⟩

theorem BootPhase.step (hs : s.BootPhase) : ∀ c, c.atBoot = true → (s.step c).1.BootPhase
  | .addRegion r pushed, _ => by
    cases pushed
    · exact ⟨hs.handed, hs.pools, hs.region_zeroed⟩
    · refine ⟨hs.handed, fun p => ?_, hs.region_zeroed⟩
      cases p with
      | zeroed => exact hs.pools .zeroed
      | dirty => exact hs.pools .dirty
  | .addReserved n, _ => by
    refine ⟨hs.handed, fun p => ?_, hs.region_zeroed⟩
    cases p with
    | zeroed => exact hs.pools .zeroed
    | dirty => exact hs.pools .dirty
  | .alloc, h | .allocContiguous _, h | .free _, h | .zeroOnePage, h | .write _ _ _, h => by
    simp [PmmCall.atBoot] at h

theorem bootPhase_run (hs : s.BootPhase) (pre : List PmmCall) (hpre : ∀ c ∈ pre, c.atBoot = true) :
    (run step s pre).1.BootPhase :=
  run_invariant_of (fun c => c.atBoot = true) BootPhase (fun _ c hc hs => hs.step c hc) hs pre hpre

/-- A region the allocator accepts is one a call handed over. -/
theorem added_step (s : PmmSystem) : ∀ c, ∀ r ∈ (s.step c).1.added, r ∈ s.added ∨ c.region = some r
  | .addRegion r' pushed, r, hr => by
    cases pushed
    · exact .inl hr
    · rcases List.mem_cons.1 hr with rfl | hr
      · exact .inr rfl
      · exact .inl hr
  | .addReserved _, _, hr => .inl hr
  | .alloc, _, hr => .inl hr
  | .allocContiguous _, _, hr => .inl hr
  | .free a, _, hr => by
    simp only [step] at hr
    split at hr <;> exact .inl hr
  | .zeroOnePage, _, hr => .inl hr
  | .write _ _ _, _, hr => .inl hr

theorem added_run : ∀ (s : PmmSystem) (pre : List PmmCall),
    ∀ r ∈ (run step s pre).1.added, r ∈ s.added ∨ r ∈ pre.filterMap PmmCall.region
  | _, [], _, hr => .inl hr
  | s, c :: pre, r, hr => by
    rcases added_run (s.step c).1 pre r hr with h | h
    · rcases added_step s c r h with h | h
      · exact .inl h
      · exact .inr (List.mem_filterMap.2 ⟨c, List.mem_cons_self, h⟩)
    · obtain ⟨a, ha, hra⟩ := List.mem_filterMap.1 h
      exact .inr (List.mem_filterMap.2 ⟨a, List.mem_cons_of_mem _ ha, hra⟩)

/-- Right after `init` the table mirrors the layout: the ranges accepted are FREE but for the
array's frames, now WIRED, and nothing is pooled or zeroed yet. -/
theorem mirrored_init (hs : s.Conserved) (hb : s.BootPhase)
    (hal : ∀ r ∈ usable, r.start % frameSize = 0) (hadded : ∀ r ∈ s.added, r ∈ usable)
    (hdis : ∀ r ∈ wired, ∀ r' ∈ usable, r.Disjoint r') (hinit : s.initDescriptors usable wired = some (u, m)) :
    u.Mirrored m := by
  obtain ⟨hm, base, hbase, rfl⟩ := initDescriptors_some hinit
  obtain ⟨l, h⟩ := hs
  obtain ⟨l', h', -⟩ := step_kept h (.allocContiguous (arrayPages m)) trivial
  have hhanded : ∀ f, f ∈ ((s.step (.allocContiguous (arrayPages m))).1.handed : Multiset Nat) ↔
      f ∈ List.range' base (arrayPages m) frameSize := by
    intro f; simp [step, hbase, hb.handed]
  -- the pools are still empty and no top is zeroed
  have hpools : ∀ p, l' p = [] := fun p => by
    have hc := (h'.pools p).2
    simp only [step, Pmm.allocContiguous_pool, hb.pools] at hc
    exact List.eq_nil_of_length_eq_zero hc.symm
  have hpz : preZeroed (s.pmm.allocContiguous (arrayPages m)).2.pfa.regions = [] := by
    have hrz := h'.region_zeroed
    have hle := Pmm.allocContiguous_regionZeroed_le s.pmm (arrayPages m)
    simp only [step, hb.region_zeroed] at hrz hle
    exact List.eq_nil_of_length_eq_zero (by omega)
  -- every frame accepted lies in a usable range, aligned and below `max_end`
  have hown : ∀ f ∈ s.owned, ∃ r ∈ usable, f ∈ r.frames := fun f hf => by
    obtain ⟨r, hr, hfr⟩ := List.mem_flatMap.1 hf
    exact ⟨r, hadded r hr, hfr⟩
  have haligned : ∀ f ∈ s.owned, f % frameSize = 0 ∧ f / frameSize < m := fun f hf => by
    obtain ⟨r, hr, hfr⟩ := hown f hf
    have hend := @endAddr_le_maxEnd usable wired r hr
    have hin := VmPageRegion.mem_frames hfr
    obtain ⟨i, -, rfl⟩ := List.mem_range'.1 hfr
    have hst := hal r hr
    rw [hm]
    simp only [VmPageRegion.endAddr, frameSize] at hend hin hst ⊢
    omega
  refine ⟨l', h'.setDesc _, fun f hf => ?_, fun a ha => absurd ha (Descriptors.initial_ne_zeroed a),
    fun a => Descriptors.isSome_initial a, haligned⟩
  have hL := h'.setDesc (Descriptors.initial m usable wired base)
  rcases hL.mem_places hf with hz | hd | hu | hh
  · exact absurd hz (by rw [hpools]; simp)
  · exact absurd hd (by rw [hpools]; simp)
  · have hnp : f ∉ preZeroed (s.pmm.allocContiguous (arrayPages m)).2.pfa.regions := by rw [hpz]; simp
    have ha : f ∉ List.range' base (arrayPages m) frameSize := fun ha =>
      (h'.not_mem_of_handed ((hhanded f).2 ha)).2 hu
    obtain ⟨r', hr', hfr'⟩ := hown f hf
    have hw : f ∉ untouched wired := fun hw => by
      obtain ⟨r, hr, hfr⟩ := List.mem_flatMap.1 hw
      exact (hdis r hr r' hr').frames hfr hfr'
    exact hL.fits_of_untouched hu hnp (Descriptors.initial_of_usable
      (List.mem_flatMap.2 ⟨r', hr', hfr'⟩) hw ha (haligned f hf).2)
  · exact hL.fits_of_handed hh (.inr (Descriptors.initial_of_array ((hhanded f).1 hh)
      (haligned f (h'.mem_owned_of_handed hh)).2))

/-- The descriptor table of `m` entries mirrors the allocator: every frame is in one
place, `count(ZEROED)` is `zeroed_pages()`, and for the pools as their stacks chain them
each frame of the allocator is covered, its state says where it is, and `free` panics on it
exactly when it is not handed out. -/
def DescriptorsAgree (t : PmmSystem) (m : Nat) : Prop :=
  t.Conserved ∧ t.pmm.desc.count m .zeroed = t.pmm.pfa.zeroedPages ∧
    ∀ l, Pools t.pmm.pfa t.pmm.mem l → ∀ f ∈ t.owned, (t.pmm.desc f).isSome ∧
      (t.pmm.desc f = some .zeroed ↔ f ∈ l .zeroed ∨ f ∈ preZeroed t.pmm.pfa.regions) ∧
      (t.pmm.desc f = some .free ↔
        f ∈ l .dirty ∨ (f ∈ untouched t.pmm.pfa.regions ∧ f ∉ preZeroed t.pmm.pfa.regions)) ∧
      (t.pmm.desc f = some .active ∨ t.pmm.desc f = some .wired ↔ f ∈ t.handed) ∧
      (t.pmm.free f = none ↔ f ∉ t.handed)

theorem descriptorsAgree_of_mirrored (hs : s.Mirrored m) : s.DescriptorsAgree m := by
  obtain ⟨l, h, hm⟩ := hs
  refine ⟨⟨l, h⟩, hm.count_zeroed h, fun l₀ hl₀ f hf => ?_⟩
  obtain rfl := h.pools.unique hl₀
  have hf' : f ∈ (s.owned : Multiset Nat) := Multiset.mem_coe.2 hf
  obtain ⟨hz, hd, hh⟩ := hm.agrees h hf'
  have hfree := hm.free_eq_none_iff h hf'
  simp only [Multiset.mem_coe] at hh hfree
  exact ⟨hm.isSome hf', hz, hd, hh, hfree⟩

theorem descriptors_mirror_allocator (mem : PhysMem) (pre : List PmmCall) (wired : List VmPageRegion)
    (hpre : Guarded step Allowed (boot mem fun _ => none) pre) (hboot : ∀ c ∈ pre, c.atBoot = true)
    (haligned : ∀ r ∈ pre.filterMap PmmCall.region, r.start % frameSize = 0)
    (hwired : ∀ r ∈ wired, ∀ r' ∈ pre.filterMap PmmCall.region, r.Disjoint r')
    {s : PmmSystem} {m : Nat}
    (hinit : (run step (boot mem fun _ => none) pre).1.initDescriptors (pre.filterMap PmmCall.region)
      wired = some (s, m))
    (calls : List PmmCall) (hcalls : Guarded step AllowedAfterInit s calls) :
    (run step s calls).1.DescriptorsAgree m := by
  have hcons := conserved_run mem _ pre hpre
  have hb := bootPhase_run (bootPhase_boot mem fun _ => none) pre hboot
  have hadded : ∀ r ∈ (run step (boot mem fun _ => none) pre).1.added, r ∈ pre.filterMap PmmCall.region :=
    fun r hr => (added_run _ pre r hr).resolve_left (by simp [boot])
  exact descriptorsAgree_of_mirrored
    (mirrored_run (mirrored_init hcons hb haligned hadded hwired hinit) calls hcalls)

/-- Four frames of usable memory after one kernel frame: `init` carves one frame of
descriptors from their top, then `alloc` and `zero_one_page` run. -/
theorem descriptors_mirror_four_frames :
    ∃ s m, (run step (boot (fun _ _ => 0) fun _ => none) [.addRegion ⟨0x1000, 4, 0⟩ true]).1.initDescriptors
        ([PmmCall.addRegion ⟨0x1000, 4, 0⟩ true].filterMap PmmCall.region) [⟨0, 1, 0⟩] = some (s, m) ∧
      Guarded step Allowed (boot (fun _ _ => 0) fun _ => none) [.addRegion ⟨0x1000, 4, 0⟩ true] ∧
      (∀ c ∈ [PmmCall.addRegion ⟨0x1000, 4, 0⟩ true], c.atBoot = true) ∧
      (∀ r ∈ [PmmCall.addRegion ⟨0x1000, 4, 0⟩ true].filterMap PmmCall.region, r.start % frameSize = 0) ∧
      (∀ r ∈ [(⟨0, 1, 0⟩ : VmPageRegion)],
        ∀ r' ∈ [PmmCall.addRegion ⟨0x1000, 4, 0⟩ true].filterMap PmmCall.region, r.Disjoint r') ∧
      Guarded step AllowedAfterInit s [.alloc, .zeroOnePage] ∧
      (run step s [.alloc, .zeroOnePage]).1.DescriptorsAgree m := by
  obtain ⟨⟨s, m⟩, hinit⟩ := Option.isSome_iff_exists.1
    (by rfl : ((run step (boot (fun _ _ => 0) fun _ => none)
      [.addRegion ⟨0x1000, 4, 0⟩ true]).1.initDescriptors
        ([PmmCall.addRegion ⟨0x1000, 4, 0⟩ true].filterMap PmmCall.region) [⟨0, 1, 0⟩]).isSome = true)
  have hpre : Guarded step Allowed (boot (fun _ _ => 0) fun _ => none) [.addRegion ⟨0x1000, 4, 0⟩ true] :=
    ⟨⟨rfl, by decide, by simp [boot]⟩, trivial⟩
  have hboot : ∀ c ∈ [PmmCall.addRegion ⟨0x1000, 4, 0⟩ true], c.atBoot = true := by decide
  have hal : ∀ r ∈ [PmmCall.addRegion ⟨0x1000, 4, 0⟩ true].filterMap PmmCall.region,
      r.start % frameSize = 0 := by decide
  have hdis : ∀ r ∈ [(⟨0, 1, 0⟩ : VmPageRegion)],
      ∀ r' ∈ [PmmCall.addRegion ⟨0x1000, 4, 0⟩ true].filterMap PmmCall.region, r.Disjoint r' := by
    intro r hr r' hr'
    simp only [List.mem_singleton] at hr
    simp only [List.filterMap, PmmCall.region, List.mem_singleton] at hr'
    subst hr hr'
    intro a _ ha hb
    simp only [frameSize] at ha hb
    omega
  have hcalls : Guarded step AllowedAfterInit s [.alloc, .zeroOnePage] :=
    ⟨⟨trivial, rfl⟩, ⟨trivial, rfl⟩, trivial⟩
  exact ⟨s, m, hinit, hpre, hboot, hal, hdis, hcalls,
    descriptors_mirror_allocator _ _ _ hpre hboot hal hdis hinit _ hcalls⟩

end PmmSystem

end Archipelago.Mm
