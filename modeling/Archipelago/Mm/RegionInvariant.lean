import Archipelago.Mm.Region

/-! The region-tree invariant, call by call. At every region the range is page-aligned and
does not wrap, and the children are non-empty, page-aligned, sorted and pairwise disjoint
(`Sep` of `Lib.Intervals`), inside the region and within its max protection (`NodeOk`);
`WellFormed` asks this of every region of the tree.

`insert_slot` accepts exactly the slots that fit (`insertSlot_eq_ok`): its single `find_le`
probe at the end of the range sees any overlap because siblings are disjoint
(`exists_meets_iff_lastWhere`). Each call keeps the invariant at the region it is made on and
keeps that region's range and max protection; every failed call returns the region as it
was; a successful `unmap` keeps exactly the children not inside the range. -/

namespace Archipelago.Mm

open Archipelago.Lib Archipelago.Obj

namespace RegionChild

/-- A slot's start, as a number. -/
abbrev lo (c : RegionChild) : Nat := c.base.toNat

/-- A slot's length, as a number. -/
abbrev len (c : RegionChild) : Nat := c.size.toNat

end RegionChild

open RegionChild (lo len)

/-- A child slot of `r` as the invariant wants it: non-empty, page-aligned, inside `r`,
within its max protection. -/
structure SlotOk (r : Region) (c : RegionChild) : Prop where
  pos : 0 < c.size.toNat
  aligned : pageAligned c.base = true ∧ pageAligned c.size = true
  inside : r.base.toNat ≤ c.base.toNat ∧ c.base.toNat + c.size.toNat ≤ r.base.toNat + r.size.toNat
  prot : Submask c.prot r.maxProt

/-- The invariant at one region. -/
structure NodeOk (r : Region) : Prop where
  aligned : pageAligned r.base = true ∧ pageAligned r.size = true
  bounded : r.base.toNat + r.size.toNat < 2 ^ 64
  sep : Sep lo len r.children
  slots : ∀ c ∈ r.children, SlotOk r c

/-- The invariant at every region of the tree. -/
inductive Region.WellFormed : Region → Prop
  | intro {r : Region} (node : NodeOk r)
      (sub : ∀ r', RegionChild.region r' ∈ r.children → r'.WellFormed) : r.WellFormed

/-- `r'` has the range and max protection of `r`: what every call keeps. -/
def SameRange (r r' : Region) : Prop :=
  r'.base = r.base ∧ r'.size = r.size ∧ r'.maxProt = r.maxProt

/-- What `insert_slot` asks of a new slot: non-empty, page-aligned, inside the region,
within its max protection, and meeting no sibling. -/
structure Fits (r : Region) (base size : Word) (prot : VmProt) : Prop where
  pos : 0 < size.toNat
  aligned : pageAligned base = true ∧ pageAligned size = true
  inside : r.base.toNat ≤ base.toNat ∧ base.toNat + size.toNat ≤ r.base.toNat + r.size.toNat
  prot : Submask prot r.maxProt
  free : ∀ c ∈ r.children, ¬ Meets lo len c base.toNat (base.toNat + size.toNat)

section Basics

variable {r r' : Region} {c : RegionChild}

theorem SameRange.refl (r : Region) : SameRange r r := ⟨rfl, rfl, rfl⟩

theorem SameRange.trans {r'' : Region} (h : SameRange r r') (h' : SameRange r' r'') :
    SameRange r r'' :=
  ⟨h'.1.trans h.1, h'.2.1.trans h.2.1, h'.2.2.trans h.2.2⟩

@[simp] theorem sameRange_withChildren (r : Region) (cs : List RegionChild) :
    SameRange r (r.withChildren cs) := ⟨rfl, rfl, rfl⟩

@[simp] theorem sameRange_link (r : Region) (c : RegionChild) : SameRange r (r.link c) :=
  ⟨rfl, rfl, rfl⟩

theorem SlotOk.of_sameRange (h : SlotOk r c) (hr : SameRange r r') : SlotOk r' c := by
  obtain ⟨hb, hs, hp⟩ := hr
  exact ⟨h.pos, h.aligned, by rw [hb, hs]; exact h.inside, by rw [hp]; exact h.prot⟩

theorem Fits.slotOk (h : Fits r c.base c.size c.prot) : SlotOk r c :=
  ⟨h.pos, h.aligned, h.inside, h.prot⟩

/-- A slot of a region whose range does not wrap does not wrap either. -/
theorem SlotOk.noWrap (hr : NodeOk r) (h : SlotOk r c) : c.base.toNat + c.size.toNat < 2 ^ 64 := by
  have := h.inside
  have := hr.bounded
  omega

/-- A slot's end, computed in words, is its end as a number. -/
theorem SlotOk.end_toNat (hr : NodeOk r) (h : SlotOk r c) :
    (c.base + c.size).toNat = c.base.toNat + c.size.toNat :=
  BitVec.toNat_add_of_lt (h.noWrap hr)

theorem Region.WellFormed.node (h : r.WellFormed) : NodeOk r := by
  cases h with
  | intro node _ => exact node

theorem Region.WellFormed.sub (h : r.WellFormed) :
    ∀ r', RegionChild.region r' ∈ r.children → r'.WellFormed := by
  cases h with
  | intro _ sub => exact sub

/-- Keeping only some of the children keeps the invariant. -/
theorem NodeOk.sublist (hr : NodeOk r) {cs : List RegionChild} (hs : cs.Sublist r.children) :
    NodeOk (r.withChildren cs) :=
  ⟨hr.aligned, hr.bounded, hr.sep.sublist hs,
    fun c hc => (hr.slots c (hs.subset hc)).of_sameRange (sameRange_withChildren r cs)⟩

theorem Region.WellFormed.sublist (hr : r.WellFormed) {cs : List RegionChild} (hs : cs.Sublist r.children) :
    (r.withChildren cs).WellFormed :=
  .intro (hr.node.sublist hs) fun r' hr' => hr.sub r' (hs.subset hr')

end Basics

/-! ## Linking a slot that fits -/

section Link

variable {r : Region} {c : RegionChild}

/-- The rb-tree order is the order of the starts as numbers. -/
theorem base_lt_iff (a b : RegionChild) : decide (a.base < b.base) = true ↔ lo a < lo b := by
  simp [BitVec.lt_def]

/-- A slot that fits gets linked: the new child sequence is the old one with the slot added,
still sorted and disjoint. -/
theorem link_children (hr : NodeOk r) (hc : Fits r c.base c.size c.prot) :
    ∃ cs, insertBy (fun a b => decide (a.base < b.base)) c r.children = some cs ∧
      (r.link c).children = cs ∧ cs.Perm (c :: r.children) ∧ Sep lo len cs := by
  have hpos : ∀ a ∈ r.children, 0 < len a := fun a ha => (hr.slots a ha).pos
  obtain ⟨cs, hcs⟩ := Option.isSome_iff_exists.1
    (@insertBy_isSome RegionChild lo len _ base_lt_iff c hc.pos r.children hpos hc.free)
  refine ⟨cs, hcs, by simp [Region.link, hcs], insertBy_perm hcs, ?_⟩
  exact hr.sep.insertBy base_lt_iff hc.pos hpos hc.free hcs

theorem NodeOk.link (hr : NodeOk r) (hc : Fits r c.base c.size c.prot) : NodeOk (r.link c) := by
  obtain ⟨cs, -, hlink, hperm, hsep⟩ := link_children hr hc
  refine ⟨hr.aligned, hr.bounded, by rw [hlink]; exact hsep, fun d hd => ?_⟩
  rw [hlink] at hd
  rcases List.mem_cons.1 (hperm.subset hd) with rfl | hd
  · exact hc.slotOk.of_sameRange (sameRange_link r d)
  · exact (hr.slots d hd).of_sameRange (sameRange_link r c)

theorem mem_link (hr : NodeOk r) (hc : Fits r c.base c.size c.prot) {d : RegionChild} :
    d ∈ (r.link c).children ↔ d = c ∨ d ∈ r.children := by
  obtain ⟨cs, -, hlink, hperm, -⟩ := link_children hr hc
  rw [hlink, hperm.mem_iff, List.mem_cons]

theorem Region.WellFormed.link_binding (hr : r.WellFormed) {b : Binding}
    (hb : Fits r b.base b.size b.prot) : (r.link (.binding b)).WellFormed := by
  refine .intro (hr.node.link hb) fun r' hr' => ?_
  rcases (mem_link (c := .binding b) hr.node hb).1 hr' with h | h
  · cases h
  · exact hr.sub r' h

/-- A fresh sub-region that fits is well formed: its range is a child's, and it has no
children yet. -/
theorem wellFormed_fresh {base size : Word} {maxProt : VmProt} (hr : NodeOk r)
    (hf : Fits r base size maxProt) : (Region.mk base size maxProt []).WellFormed := by
  refine .intro ⟨hf.aligned, by have := hf.inside; have := hr.bounded; simp; omega,
    List.Pairwise.nil, fun c hc => by cases hc⟩ fun r' hr' => by cases hr'

theorem Region.WellFormed.link_region (hr : r.WellFormed) {base size : Word} {maxProt : VmProt}
    (hf : Fits r base size maxProt) : (r.link (.region (.mk base size maxProt []))).WellFormed := by
  refine .intro (hr.node.link hf) fun r' hr' => ?_
  rcases (mem_link (c := .region (.mk base size maxProt [])) hr.node hf).1 hr' with h | h
  · cases h
    exact wellFormed_fresh hr.node hf
  · exact hr.sub r' h

end Link

/-! ## What `insert_slot` accepts -/

section InsertSlot

variable {r : Region} {base size : Word} {prot : VmProt} {alloc : Bool}

/-- The probe key `end - 1`: a slot starts at or below it exactly when it starts below the
end. -/
theorem probe_iff (hs : 0 < size.toNat) (hw : base.toNat + size.toNat < 2 ^ 64) (c : RegionChild) :
    decide (c.base ≤ base + size - 1) = true ↔ lo c < base.toNat + size.toNat := by
  simp only [decide_eq_true_eq, RegionChild.lo]
  bv_omega

/-- The overlap test of `insert_slot`: the last slot starting before the end reaches past the
start exactly when some sibling meets the range. -/
theorem overlap_iff (hr : NodeOk r) (hs : 0 < size.toNat) (hw : base.toNat + size.toNat < 2 ^ 64) :
    ((lastWhere (fun c => decide (c.base ≤ base + size - 1)) r.children).any
        fun c => decide (base < c.base + c.size)) = true ↔
      ∃ c ∈ r.children, Meets lo len c base.toNat (base.toNat + size.toNat) := by
  rw [exists_meets_iff_lastWhere hr.sep (probe_iff hs hw), Option.any_eq_true]
  refine exists_congr fun c => and_congr_right fun hc => ?_
  have hend := (hr.slots c (lastWhere_mem hc).1).end_toNat hr
  simp only [decide_eq_true_eq, BitVec.lt_def, hend, RegionChild.lo, RegionChild.len]

/-- `insert_slot` accepts exactly the slots that fit, when the allocation succeeds. -/
theorem insertSlot_eq_ok (hr : NodeOk r) :
    r.insertSlot base size prot alloc = .ok () ↔ Fits r base size prot ∧ alloc = true := by
  have hbounded := hr.bounded
  have hrend : (r.base + r.size).toNat = r.base.toNat + r.size.toNat :=
    BitVec.toNat_add_of_lt hbounded
  unfold Region.insertSlot
  by_cases h₁ : (decide (size = 0) || !pageAligned base || !pageAligned size) = true
  · -- a size of zero or an unaligned base or size is refused
    rw [if_pos h₁]
    simp only [reduceCtorEq, false_iff, not_and]
    intro hf _
    have := hf.pos
    have := hf.aligned
    simp only [Bool.or_eq_true, decide_eq_true_eq, Bool.not_eq_true'] at h₁
    rcases h₁ with (h | h) | h
    · subst h
      simp at *
    · simp_all
    · simp_all
  rw [if_neg h₁]
  simp only [Bool.or_eq_true, decide_eq_true_eq, Bool.not_eq_true', not_or, Bool.not_eq_false]
    at h₁
  obtain ⟨⟨hsz, hab⟩, has⟩ := h₁
  have hs : 0 < size.toNat := by
    rcases Nat.eq_zero_or_pos size.toNat with h | h
    · exact absurd (BitVec.eq_of_toNat_eq (by simpa using h)) hsz
    · exact h
  dsimp only
  by_cases h₂ : base + size < base
  · -- the range wraps
    rw [if_pos h₂]
    simp only [reduceCtorEq, false_iff, not_and]
    intro hf _
    have := hf.inside
    bv_omega
  rw [if_neg h₂]
  have hw : base.toNat + size.toNat < 2 ^ 64 := by bv_omega
  have hend : (base + size).toNat = base.toNat + size.toNat := BitVec.toNat_add_of_lt hw
  by_cases h₃ : (decide (base < r.base) || decide (r.base + r.size < base + size)) = true
  · -- outside the region
    rw [if_pos h₃]
    simp only [reduceCtorEq, false_iff, not_and]
    intro hf _
    have := hf.inside
    simp only [Bool.or_eq_true, decide_eq_true_eq, BitVec.lt_def, hend, hrend] at h₃
    omega
  rw [if_neg h₃]
  simp only [Bool.or_eq_true, decide_eq_true_eq, BitVec.lt_def, hend, hrend, not_or, not_lt] at h₃
  by_cases h₄ : protWithin prot r.maxProt = true
  · rw [if_neg (by simp [h₄])]
    by_cases h₅ : ((lastWhere (fun c => decide (c.base ≤ base + size - 1)) r.children).any
        fun c => decide (base < c.base + c.size)) = true
    · -- a sibling meets the range
      rw [if_pos h₅]
      simp only [reduceCtorEq, false_iff, not_and]
      intro hf _
      obtain ⟨c, hc, hm⟩ := (overlap_iff hr hs hw).1 h₅
      exact hf.free c hc hm
    · rw [if_neg h₅]
      have hfree : ∀ c ∈ r.children, ¬ Meets lo len c base.toNat (base.toNat + size.toNat) :=
        fun c hc hm => h₅ ((overlap_iff hr hs hw).2 ⟨c, hc, hm⟩)
      have hfits : Fits r base size prot :=
        ⟨hs, ⟨hab, has⟩, ⟨h₃.1, h₃.2⟩, (protWithin_iff _ _).1 h₄, hfree⟩
      cases alloc <;> simp [hfits]
  · -- a protection beyond the region's max
    rw [if_pos (by simpa using h₄)]
    simp only [reduceCtorEq, false_iff, not_and]
    intro hf _
    exact h₄ ((protWithin_iff _ _).2 hf.prot)

end InsertSlot

/-! ## Each call keeps the invariant -/

/-- What every call on a region keeps: the invariant, the region's range and max
protection, and, when it fails, the region itself. -/
structure Keeps (r r' : Region) {α : Type} (res : Except Errc α) : Prop where
  wellFormed : r'.WellFormed
  sameRange : SameRange r r'
  unchanged : ∀ e, res = .error e → r' = r

section Calls

variable {r : Region} {s : VmState}

theorem Keeps.refl (hr : r.WellFormed) {α : Type} (res : Except Errc α) : Keeps r r res :=
  ⟨hr, SameRange.refl r, fun _ _ => rfl⟩

theorem Keeps.of_ok {r' : Region} {α : Type} {a : α} (hr : r'.WellFormed) (h : SameRange r r') :
    Keeps r r' (.ok a : Except Errc α) :=
  ⟨hr, h, fun _ he => by cases he⟩

theorem createChild_keeps (hr : r.WellFormed) (base size : Word) (maxProt : VmProt)
    (allocSlot allocRegion : Bool) :
    Keeps r (r.createChild s base size maxProt allocSlot allocRegion).1
      (r.createChild s base size maxProt allocSlot allocRegion).2.2 := by
  unfold Region.createChild
  cases hi : r.insertSlot base size maxProt allocSlot with
  | error e => exact Keeps.refl hr _
  | ok u =>
    obtain ⟨hf, -⟩ := (insertSlot_eq_ok hr.node).1 hi
    cases allocRegion with
    | true => exact Keeps.of_ok (hr.link_region hf) (sameRange_link _ _)
    | false => exact Keeps.refl hr _

theorem mapLocked_keeps (hr : r.WellFormed) (vaddr size : Word) (vmo : Option Nat)
    (vmoOffset : Word) (prot : VmProt) (cache : VmCacheMode) (allocSlot addOk : Bool) :
    Keeps r (r.mapLocked s vaddr size vmo vmoOffset prot cache allocSlot addOk).1
      (r.mapLocked s vaddr size vmo vmoOffset prot cache allocSlot addOk).2.2 := by
  unfold Region.mapLocked
  dsimp only
  split
  · exact Keeps.refl hr _
  cases hi : r.insertSlot vaddr size prot allocSlot with
  | error e => exact Keeps.refl hr _
  | ok u =>
    obtain ⟨hf, -⟩ := (insertSlot_eq_ok hr.node).1 hi
    -- the bound slot fits, whatever its VMO and cache mode
    cases vmo with
    | none => exact Keeps.of_ok (hr.link_binding hf) (sameRange_link _ _)
    | some id =>
      dsimp only
      split
      · exact Keeps.of_ok (hr.link_binding hf) (sameRange_link _ _)
      · exact Keeps.refl hr _

theorem mapAnywhere_keeps (hr : r.WellFormed) (floor size : Word) (vmo : Option Nat)
    (vmoOffset : Word) (prot : VmProt) (cache : VmCacheMode) (allocSlot addOk : Bool) :
    Keeps r (r.mapAnywhere s floor size vmo vmoOffset prot cache allocSlot addOk).1
      (r.mapAnywhere s floor size vmo vmoOffset prot cache allocSlot addOk).2.2 := by
  unfold Region.mapAnywhere
  split
  · exact Keeps.refl hr _
  dsimp only
  generalize Region.gapScan size (if r.base < floor then floor else r.base) r.children = cursor
  split
  · exact Keeps.refl hr _
  have hm := mapLocked_keeps (s := s) hr cursor size vmo vmoOffset prot cache allocSlot addOk
  split
  · rename_i e h
    rw [h] at hm
    exact ⟨hm.wellFormed, hm.sameRange, fun _ _ => hm.unchanged e rfl⟩
  · rename_i h
    rw [h] at hm
    exact Keeps.of_ok hm.wellFormed hm.sameRange

theorem unmapBinding_keeps (hr : r.WellFormed) (vaddr : Word) :
    Keeps r (r.unmapBinding s vaddr).1 (r.unmapBinding s vaddr).2.2 := by
  unfold Region.unmapBinding
  split
  · rename_i b hb
    split
    · -- the binding found is dropped from the sequence: what is left is a sublist
      obtain ⟨pre, post, hl, he⟩ := eraseLastWhere_of_lastWhere hb
      have hsub : (eraseLastWhere (fun c => decide (c.base ≤ vaddr)) r.children).Sublist r.children := by
        rw [he, hl]
        exact List.Sublist.append_left (List.sublist_cons_self _ _) pre
      exact Keeps.of_ok (hr.sublist hsub) (sameRange_withChildren _ _)
    · exact Keeps.refl hr _
  · exact Keeps.refl hr _

/-- The removal loop keeps exactly the slots from the first one starting at or past the end. -/
theorem unmapRun_snd (rangeEnd : Word) :
    ∀ (s : VmState) (l : List RegionChild),
      (Region.unmapRun rangeEnd s l).2 = l.dropWhile fun c => decide (c.base < rangeEnd)
  | _, [] => rfl
  | s, c :: cs => by
    unfold Region.unmapRun
    by_cases h : c.base < rangeEnd
    · rw [if_pos h, List.dropWhile_cons_of_pos (by simpa using h)]
      exact unmapRun_snd rangeEnd _ cs
    · rw [if_neg h, List.dropWhile_cons_of_neg (by simpa using h)]

theorem unmap_keeps (hr : r.WellFormed) (base size : Word) :
    Keeps r (r.unmap s base size).1 (r.unmap s base size).2.2 := by
  unfold Region.unmap
  dsimp only
  split
  · exact Keeps.refl hr _
  split
  · exact Keeps.refl hr _
  · rw [unmapRun_snd]
    -- the kept slots are the prefix before `base` and a suffix of the rest
    have hsub : (r.children.takeWhile (fun c => decide (c.base < base)) ++
        ((r.children.dropWhile fun c => decide (c.base < base)).dropWhile
          fun c => decide (c.base < base + size))).Sublist r.children := by
      conv_rhs => rw [← List.takeWhile_append_dropWhile (p := fun c => decide (c.base < base))
        (l := r.children)]
      exact List.Sublist.append_left (List.dropWhile_sublist _) _
    exact Keeps.of_ok (hr.sublist hsub) (sameRange_withChildren _ _)

end Calls

/-! ## What `unmap` removes -/

section Unmap

variable {r : Region} {s : VmState} {base size : Word}

/-- On a range that does not wrap, `cut_by` is "meets but is not inside", in numbers. -/
theorem cutBy_iff (hr : NodeOk r) {c : RegionChild} (hc : c ∈ r.children)
    (hw : ¬ base + size < base) :
    Region.cutBy base (base + size) c = true ↔
      Meets lo len c base.toNat (base.toNat + size.toNat) ∧
        ¬ Inside lo len c base.toNat (base.toNat + size.toNat) := by
  have hend := (hr.slots c hc).end_toNat hr
  have hrange : (base + size).toNat = base.toNat + size.toNat := by bv_omega
  simp only [Region.cutBy, Bool.and_eq_true, decide_eq_true_eq, Bool.not_eq_true',
    Bool.and_eq_false_iff, decide_eq_false_iff_not, BitVec.lt_def, BitVec.le_def, hend, hrange,
    Meets, Inside, RegionChild.lo, RegionChild.len]
  omega

/-- A successful `unmap` keeps exactly the children not inside `[base, base+size)`. -/
theorem unmap_children (hr : NodeOk r) (h : (r.unmap s base size).2.2 = .ok ()) :
    (r.unmap s base size).1.children =
      r.children.filter fun c => !decide (Inside lo len c base.toNat (base.toNat + size.toNat)) := by
  unfold Region.unmap at h ⊢
  dsimp only at h ⊢
  by_cases h₁ : (decide (base + size < base) || decide (base < r.base) ||
      decide (r.base + r.size < base + size)) = true
  · rw [if_pos h₁] at h
    cases h
  rw [if_neg h₁] at h ⊢
  by_cases h₂ : r.children.any (Region.cutBy base (base + size)) = true
  · rw [if_pos h₂] at h
    cases h
  rw [if_neg h₂]
  simp only [Bool.or_eq_true, decide_eq_true_eq, not_or] at h₁
  have hrange : (base + size).toNat = base.toNat + size.toNat := by bv_omega
  -- no slot is cut, so every slot the range meets lies inside it
  have hcut : ∀ c ∈ r.children, Meets lo len c base.toNat (base.toNat + size.toNat) →
      Inside lo len c base.toNat (base.toNat + size.toNat) := fun c hc hm => by
    by_contra hin
    exact h₂ (List.any_eq_true.2 ⟨c, hc, (cutBy_iff hr hc h₁.1.1).2 ⟨hm, hin⟩⟩)
  rw [Region.children_withChildren, unmapRun_snd]
  refine (filter_inside hr.sep (fun c hc => (hr.slots c hc).pos) hcut (fun c => ?_) (fun c => ?_)).2
  · simp [BitVec.lt_def]
  · simp [BitVec.lt_def, hrange]

/-- `unmap` refuses a range that cuts through a slot, before removing anything. -/
theorem unmap_of_cut (hr : NodeOk r) {c : RegionChild} (hc : c ∈ r.children)
    (hm : Meets lo len c base.toNat (base.toNat + size.toNat))
    (hin : ¬ Inside lo len c base.toNat (base.toNat + size.toNat)) :
    ∃ e, r.unmap s base size = (r, s, .error e) := by
  unfold Region.unmap
  dsimp only
  by_cases h₁ : (decide (base + size < base) || decide (base < r.base) ||
      decide (r.base + r.size < base + size)) = true
  · exact ⟨_, if_pos h₁⟩
  rw [if_neg h₁]
  simp only [Bool.or_eq_true, decide_eq_true_eq, not_or] at h₁
  refine ⟨.invalidOperation, if_pos ?_⟩
  exact List.any_eq_true.2 ⟨c, hc, (cutBy_iff hr hc h₁.1.1).2 ⟨hm, hin⟩⟩

end Unmap

end Archipelago.Mm
