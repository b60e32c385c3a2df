import Archipelago.Mm.RegionEffects
import Archipelago.Ktl.RbTree

/-! What the calls the VMO syscalls make return, at the region they are made on. A
successful `map_locked` links exactly one binding, the one its arguments describe, after
its VMO range check and `insert_slot` passed; a failed one leaves the tree, the
translations and the VMO table as they were, because a binding refused after its slot was
made covers no translated page and has no back-ref yet (`mapLocked_error`).
`map_anywhere`'s search is `firstFit` of `Lib.Intervals` on the children's numeric ranges
(`gapScan_toNat`), so the base it returns is the lowest one at or above the floor whose
range meets no child. `unmap_binding` succeeds exactly when a direct-child binding
contains the address, and then removes that binding and tears it down. -/

namespace Archipelago.Mm

open Archipelago.Lib Archipelago.Obj
open RegionChild (lo len)

instance (b : Binding) (v : Word) : Decidable (b.Contains v) :=
  inferInstanceAs (Decidable (_ ∧ _))

/-! ## Where covered pages lie -/

section Inside

variable {r : Region} {v : Word}

/-- Every binding below a well-formed region lies inside the region. -/
theorem Region.WellFormed.binding_inside {b : Binding} (hr : r.WellFormed) (hb : r.HasBinding b) :
    r.base.toNat ≤ b.base.toNat ∧ b.base.toNat + b.size.toNat ≤ r.base.toNat + r.size.toNat := by
  induction hb with
  | here hmem => exact (hr.node.slots _ hmem).inside
  | sub hmem _ ih =>
    -- the binding is inside the sub-region, whose slot is inside `r`
    have hin := (hr.node.slots _ hmem).inside
    have hsub := ih (hr.sub _ hmem)
    simp only [RegionChild.base_region, RegionChild.size_region] at hin
    omega

/-- A page that a child of a well-formed region covers lies inside that child's slot. -/
theorem Region.WellFormed.child_covers {c : RegionChild} (hr : r.WellFormed) (hc : c ∈ r.children)
    (h : c.Covers v) : lo c ≤ v.toNat ∧ v.toNat < lo c + len c := by
  cases c with
  | binding b => exact h
  | region r' =>
    obtain ⟨b, hb, hlo, hhi⟩ := h
    have := (hr.sub r' hc).binding_inside hb
    simp only [RegionChild.lo, RegionChild.len, RegionChild.base_region, RegionChild.size_region]
    omega

/-- A range that meets no child of `r` holds no page `r` covers. -/
theorem Region.WellFormed.not_covers_of_free (hr : r.WellFormed) {base size : Word}
    (hfree : ∀ c ∈ r.children, ¬ Meets lo len c base.toNat (base.toNat + size.toNat))
    (hlo : base.toNat ≤ v.toNat) (hhi : v.toNat < base.toNat + size.toNat) : ¬ r.Covers v := by
  intro hv
  obtain ⟨c, hc, hcv⟩ := Region.covers_iff.1 hv
  have hin := hr.child_covers hc hcv
  exact hfree c hc ⟨by omega, by omega⟩

/-- Clearing a range that meets no child changes no translation, when every translation is
covered. -/
theorem zapRange_of_free (hr : r.WellFormed) {pages : PageMap}
    (hback : ∀ v t, pages v = some t → r.Covers v) {base size : Word} (hf : Fits r base size prot) :
    pages.zapRange base size = pages := by
  have hw : base.toNat + size.toNat < 2 ^ 64 := by
    have := hf.inside
    have := hr.node.bounded
    omega
  refine PageMap.zapRange_eq_self hf.aligned.1 hf.aligned.2 hw fun v hlo hhi => ?_
  cases hv : pages v with
  | none => rfl
  | some t => exact absurd (hback v t hv) (hr.not_covers_of_free hf.free hlo hhi)

end Inside

/-! ## `find_binding` -/

/-- `find_binding`'s loop is one `find_le` probe: the last slot starting at or below the
address, descended into when its range reaches past the address. -/
theorem findBindingIn_eq_lastWhere (v : Word) : ∀ cs : List RegionChild,
    findBindingIn cs v = match lastWhere (fun d => decide (d.base ≤ v)) cs with
      | none => none
      | some c => if v < c.base + c.size then c.descend v else none
  | [] => rfl
  | c :: cs => by
    have ih := findBindingIn_eq_lastWhere v cs
    unfold findBindingIn
    cases hl : lastWhere (fun d => decide (d.base ≤ v)) cs with
    | some d =>
      -- a later slot starts at or below the address: the probe is among them
      have hany : cs.any (fun d => decide (d.base ≤ v)) = true := by rw [← lastWhere_isSome, hl]; rfl
      rw [if_pos hany, ih, hl]
      simp only [lastWhere, hl]
    | none =>
      have hany : cs.any (fun d => decide (d.base ≤ v)) = false := by rw [← lastWhere_isSome, hl]; rfl
      rw [if_neg (by rw [hany]; exact Bool.false_ne_true)]
      simp only [lastWhere, hl]
      by_cases hc : c.base ≤ v <;> simp [hc]

/-- In a well-formed region `find_binding` descends into the child whose range holds the
address. -/
theorem Region.WellFormed.findBinding_of_mem {r : Region} (hr : r.WellFormed) {c : RegionChild}
    (hc : c ∈ r.children) {v : Word} (hlo : lo c ≤ v.toNat) (hhi : v.toNat < lo c + len c) :
    r.findBinding v = c.descend v := by
  have hp : ∀ d : RegionChild, decide (d.base ≤ v) = true ↔ lo d ≤ v.toNat := fun d => by
    simp [BitVec.le_def]
  rw [Region.findBinding_eq, findBindingIn_eq_lastWhere, lastWhere_of_contains hr.node.sep hp hc hlo hhi]
  dsimp only
  rw [if_pos (by rw [BitVec.lt_def, (hr.node.slots c hc).end_toNat hr.node]; exact hhi)]

/-- In a well-formed tree `find_binding` finds every binding of the tree at every address of
its range. -/
theorem Region.WellFormed.findBinding_of_hasBinding {r : Region} (hr : r.WellFormed) {b : Binding}
    (hb : r.HasBinding b) {v : Word} (hv : b.Contains v) : r.findBinding v = some b := by
  induction hb with
  | here hmem => exact hr.findBinding_of_mem hmem hv.1 hv.2
  | @sub r r' b hmem hb' ih =>
    -- the sub-region's slot holds the binding, so it holds the address
    have hin := (hr.sub r' hmem).binding_inside hb'
    obtain ⟨hlo, hhi⟩ := hv
    rw [hr.findBinding_of_mem hmem (by simp only [RegionChild.lo, RegionChild.base_region]; omega)
      (by simp only [RegionChild.lo, RegionChild.len, RegionChild.base_region, RegionChild.size_region]; omega)]
    exact ih (hr.sub r' hmem) ⟨hlo, hhi⟩

/-- `find_binding` returns exactly the binding of the tree whose range holds the address, so
there is at most one. -/
theorem Region.WellFormed.findBinding_iff {r : Region} (hr : r.WellFormed) {v : Word} {b : Binding} :
    r.findBinding v = some b ↔ r.HasBinding b ∧ b.Contains v :=
  ⟨hr.findBinding, fun h => hr.findBinding_of_hasBinding h.1 h.2⟩

theorem Region.WellFormed.findBinding_eq_none_iff {r : Region} (hr : r.WellFormed) {v : Word} :
    r.findBinding v = none ↔ ¬ r.Covers v := by
  constructor
  · rintro h ⟨b, hb, hv⟩
    rw [hr.findBinding_of_hasBinding hb hv] at h
    cases h
  · intro h
    cases hf : r.findBinding v with
    | none => rfl
    | some b => exact absurd ⟨b, hr.findBinding hf⟩ h

/-! ## `map_locked` -/

/-- `map_locked`'s checks on the VMO range: an aligned offset, no wrap of
`vmo_offset + size`, and an end within the VMO. -/
structure VmoRangeOk (s : VmState) (id : Nat) (vmoOffset size : Word) : Prop where
  aligned : pageAligned vmoOffset = true
  noWrap : vmoOffset.toNat + size.toNat < 2 ^ 64
  within : (vmoOffset + size) / pageSize ≤ (s.vmo id).pages

/-- The binding `map_locked` makes for a VMO: the next slot identity, the range, the VMO and
its offset, the protection, and the cache mode degraded toward the pager's. -/
def vmoBinding (s : VmState) (vaddr size : Word) (id : Nat) (vmoOffset : Word) (prot : VmProt)
    (cache : VmCacheMode) : Binding :=
  ⟨s.nextSlot, vaddr, size, some id, vmoOffset, prot, stricterCache cache (s.vmo id).pager.cacheMode⟩

section MapLocked

variable {r : Region} {s : VmState} {vaddr size vmoOffset : Word} {id : Nat} {prot : VmProt}
  {cache : VmCacheMode} {allocSlot addOk : Bool}

/-- Everything `map_locked` of a VMO can do: refuse with nothing changed, bind after both
checks and the back-ref, or make the slot and tear it down again when the back-ref fails. -/
theorem mapLocked_cases (hr : NodeOk r) :
    (∃ e, r.mapLocked s vaddr size (some id) vmoOffset prot cache allocSlot addOk = (r, s, .error e)) ∨
    (VmoRangeOk s id vmoOffset size ∧ Fits r vaddr size prot ∧
      ((s.vmo id).addMapping addOk s.aspace s.nextSlot).2 = true ∧
      r.mapLocked s vaddr size (some id) vmoOffset prot cache allocSlot addOk =
        (r.link (.binding (vmoBinding s vaddr size id vmoOffset prot cache)),
          { s with nextSlot := s.nextSlot + 1 }.setVmo id
            ((s.vmo id).addMapping addOk s.aspace s.nextSlot).1, .ok ())) ∨
    (VmoRangeOk s id vmoOffset size ∧ Fits r vaddr size prot ∧
      ((s.vmo id).addMapping addOk s.aspace s.nextSlot).2 = false ∧
      r.mapLocked s vaddr size (some id) vmoOffset prot cache allocSlot addOk =
        (r, (RegionChild.binding (vmoBinding s vaddr size id vmoOffset prot cache)).tearDown
          { s with nextSlot := s.nextSlot + 1 }, .error .oom)) := by
  unfold Region.mapLocked
  dsimp only
  split
  · exact .inl ⟨_, rfl⟩
  rename_i hrc
  -- the range check passed: aligned, not wrapping, within the VMO
  have hrange : VmoRangeOk s id vmoOffset size := by
    split at hrc
    · cases hrc
    split at hrc
    · cases hrc
    rename_i hal hfit
    simp only [Bool.not_eq_true', Bool.not_eq_false, Bool.or_eq_true, decide_eq_true_eq,
      not_or, BitVec.not_lt] at hal hfit
    exact ⟨hal, by bv_omega, hfit.2⟩
  cases hi : r.insertSlot vaddr size prot allocSlot with
  | error e => exact .inl ⟨e, rfl⟩
  | ok u =>
    obtain ⟨hf, -⟩ := (insertSlot_eq_ok hr).1 hi
    dsimp only
    split
    · rename_i v hadd
      have hadd' : (s.vmo id).addMapping addOk s.aspace s.nextSlot = (v, true) := hadd
      rw [hadd']
      exact .inr (.inl ⟨hrange, hf, rfl, rfl⟩)
    · rename_i v hadd
      have hadd' : (s.vmo id).addMapping addOk s.aspace s.nextSlot = (v, false) := hadd
      rw [hadd']
      exact .inr (.inr ⟨hrange, hf, rfl, rfl⟩)

/-- A successful `map_locked` of a VMO passed both checks, left the translations alone and
linked exactly the binding its arguments describe. -/
theorem mapLocked_ok (hr : NodeOk r) {r' : Region} {s' : VmState}
    (h : r.mapLocked s vaddr size (some id) vmoOffset prot cache allocSlot addOk = (r', s', .ok ())) :
    VmoRangeOk s id vmoOffset size ∧ Fits r vaddr size prot ∧ s'.pages = s.pages ∧
      r'.children.Perm (.binding (vmoBinding s vaddr size id vmoOffset prot cache) :: r.children) := by
  rcases mapLocked_cases hr with ⟨e, he⟩ | ⟨hrange, hf, -, he⟩ | ⟨-, -, -, he⟩ <;> rw [he] at h
  · cases h
  · cases h
    obtain ⟨cs, -, hlink, hperm, -⟩ :=
      link_children (c := .binding (vmoBinding s vaddr size id vmoOffset prot cache)) hr hf
    refine ⟨hrange, hf, rfl, ?_⟩
    rw [hlink]
    exact hperm
  · cases h

/-- A failed `map_locked` of a VMO leaves the tree, the translations and the VMO table as
they were, when every translation is covered and every back-ref names an older slot. -/
theorem mapLocked_error (hr : r.WellFormed) (hback : ∀ v t, s.pages v = some t → r.Covers v)
    (hfresh : ∀ m ∈ (s.vmo id).mappings, m.binding < s.nextSlot) {e : Errc}
    (h : (r.mapLocked s vaddr size (some id) vmoOffset prot cache allocSlot addOk).2.2 = .error e) :
    (r.mapLocked s vaddr size (some id) vmoOffset prot cache allocSlot addOk).1 = r ∧
      (r.mapLocked s vaddr size (some id) vmoOffset prot cache allocSlot addOk).2.1.pages = s.pages ∧
      (r.mapLocked s vaddr size (some id) vmoOffset prot cache allocSlot addOk).2.1.vmos = s.vmos := by
  rcases mapLocked_cases hr.node with ⟨e', he⟩ | ⟨-, -, -, he⟩ | ⟨-, hf, -, he⟩ <;> rw [he] at h ⊢
  · exact ⟨rfl, rfl, rfl⟩
  · cases h
  · -- the slot torn down covers no translation, and its VMO holds no back-ref to it
    refine ⟨rfl, ?_, ?_⟩
    · rw [RegionChild.tearDown_binding_pages]
      exact zapRange_of_free hr hback hf
    · have hnot : ∀ m ∈ (s.vmo id).mappings, m.binding ≠ s.nextSlot :=
        fun m hm => Nat.ne_of_lt (hfresh m hm)
      show s.vmos.set id ((s.vmo id).removeMapping s.nextSlot) = s.vmos
      rw [Vmo.removeMapping_of_not_mem hnot]
      exact set_getD_self _ _ _

end MapLocked

/-- `insert_slot` never reports `capacity_exhausted`. -/
theorem insertSlot_ne_capacityExhausted {r : Region} {base size : Word} {prot : VmProt} {alloc : Bool} :
    r.insertSlot base size prot alloc ≠ .error .capacityExhausted := by
  unfold Region.insertSlot
  dsimp only
  split_ifs <;> simp

/-- `map_locked` never reports `capacity_exhausted`: that error is `map_anywhere`'s own. -/
theorem mapLocked_ne_capacityExhausted {r : Region} {s : VmState} {vaddr size vmoOffset : Word}
    {vmo : Option Nat} {prot : VmProt} {cache : VmCacheMode} {allocSlot addOk : Bool} :
    (r.mapLocked s vaddr size vmo vmoOffset prot cache allocSlot addOk).2.2 ≠ .error .capacityExhausted := by
  unfold Region.mapLocked
  dsimp only
  split
  · -- the VMO range check refused: an unaligned offset or a range past the VMO
    rename_i e he
    rintro ⟨⟩
    revert he
    split
    · simp
    · split_ifs <;> simp
  · split
    · rename_i e he
      rintro ⟨⟩
      exact insertSlot_ne_capacityExhausted he
    · split
      · simp
      · split <;> simp

/-! ## `map_anywhere` -/

/-- The search loop computes `firstFit` on the children's numeric ranges, when no child's
range wraps. -/
theorem gapScan_toNat (size : Word) :
    ∀ (cursor : Word) (cs : List RegionChild), (∀ c ∈ cs, lo c + len c < 2 ^ 64) →
      (Region.gapScan size cursor cs).toNat = firstFit lo len size.toNat cursor.toNat cs
  | cursor, [], _ => rfl
  | cursor, c :: cs, hcs => by
    have hend : (c.base + c.size).toNat = lo c + len c :=
      BitVec.toNat_add_of_lt (hcs c List.mem_cons_self)
    have ih := fun cur => gapScan_toNat size cur cs fun d hd => hcs d (List.mem_cons_of_mem _ hd)
    unfold Region.gapScan firstFit
    by_cases hskip : c.base + c.size ≤ cursor
    · -- the slot ends before the cursor
      have : lo c + len c ≤ cursor.toNat := by rw [← hend]; exact hskip
      rw [if_pos hskip, if_pos this, ih]
    have hskip' : ¬ lo c + len c ≤ cursor.toNat := by rw [← hend]; exact hskip
    rw [if_neg hskip, if_neg hskip']
    -- the gap before the slot fits exactly when it does in numbers
    have hfit : (cursor ≤ c.base && size ≤ c.base - cursor) = true ↔
        cursor.toNat ≤ lo c ∧ size.toNat ≤ lo c - cursor.toNat := by
      simp only [Bool.and_eq_true, decide_eq_true_eq, BitVec.le_def]
      constructor
      · rintro ⟨hc, hs⟩
        rw [BitVec.toNat_sub_of_le (BitVec.le_def.2 hc)] at hs
        exact ⟨hc, hs⟩
      · rintro ⟨hc, hs⟩
        rw [BitVec.toNat_sub_of_le (BitVec.le_def.2 hc)]
        exact ⟨hc, hs⟩
    by_cases hgap : (cursor ≤ c.base && size ≤ c.base - cursor) = true
    · rw [if_pos hgap, if_pos (hfit.1 hgap)]
    · rw [if_neg hgap, if_neg (mt hfit.2 hgap), ih, hend]

/-- The search starts at the floor or at the region's base, whichever is higher. -/
theorem start_toNat (r : Region) (floor : Word) :
    (if r.base < floor then floor else r.base).toNat = max floor.toNat r.base.toNat := by
  split
  · rename_i hlt
    rw [BitVec.lt_def] at hlt
    omega
  · rename_i hlt
    rw [BitVec.lt_def] at hlt
    omega

/-- Where `map_anywhere` may put `size` bytes: a page-aligned base at or above the floor and
the region's base, with the range inside the region and meeting no child. -/
def AnywhereFit (r : Region) (floor size a : Word) : Prop :=
  pageAligned a = true ∧ max floor.toNat r.base.toNat ≤ a.toNat ∧
    a.toNat + size.toNat ≤ r.base.toNat + r.size.toNat ∧
    ∀ c ∈ r.children, ¬ Meets lo len c a.toNat (a.toNat + size.toNat)

instance (r : Region) (floor size a : Word) : Decidable (AnywhereFit r floor size a) := by
  unfold AnywhereFit Meets
  infer_instance

section MapAnywhere

variable {r : Region} {s : VmState} {floor size vmoOffset : Word} {vmo : Option Nat} {prot : VmProt}
  {cache : VmCacheMode} {allocSlot addOk : Bool}

/-- Everything `map_anywhere` can do: refuse with nothing changed, or make `map_locked` at
the cursor its search found, when the gap there is large enough, and return the cursor. -/
theorem mapAnywhere_cases :
    (∃ e, r.mapAnywhere s floor size vmo vmoOffset prot cache allocSlot addOk = (r, s, .error e)) ∨
    (let cursor := Region.gapScan size (if r.base < floor then floor else r.base) r.children
     cursor ≤ r.base + r.size ∧ size ≤ r.base + r.size - cursor ∧
     r.mapAnywhere s floor size vmo vmoOffset prot cache allocSlot addOk =
      ((r.mapLocked s cursor size vmo vmoOffset prot cache allocSlot addOk).1,
        (r.mapLocked s cursor size vmo vmoOffset prot cache allocSlot addOk).2.1,
        (r.mapLocked s cursor size vmo vmoOffset prot cache allocSlot addOk).2.2.map fun _ => cursor)) := by
  unfold Region.mapAnywhere
  dsimp only
  generalize Region.gapScan size (if r.base < floor then floor else r.base) r.children = cursor
  by_cases hargs : (decide (size = 0) || !pageAligned size || !pageAligned floor) = true
  · rw [if_pos hargs]
    exact .inl ⟨_, rfl⟩
  rw [if_neg hargs]
  by_cases hroom : (decide (r.base + r.size < cursor) || decide (r.base + r.size - cursor < size)) = true
  · rw [if_pos hroom]
    exact .inl ⟨_, rfl⟩
  rw [if_neg hroom]
  simp only [Bool.or_eq_true, decide_eq_true_eq, not_or, BitVec.not_lt] at hroom
  refine .inr ⟨hroom.1, hroom.2, ?_⟩
  split <;> rename_i h <;> rw [h] <;> rfl

/-- The base `map_anywhere` returns is the first fit: at or above the floor and the region's
base, and every lower start from there has a child meeting the range it would take. -/
theorem mapAnywhere_firstFit (hr : r.WellFormed) {cursor : Word}
    (h : (r.mapAnywhere s floor size vmo vmoOffset prot cache allocSlot addOk).2.2 = .ok cursor) :
    (r.mapLocked s cursor size vmo vmoOffset prot cache allocSlot addOk) =
      ((r.mapAnywhere s floor size vmo vmoOffset prot cache allocSlot addOk).1,
        (r.mapAnywhere s floor size vmo vmoOffset prot cache allocSlot addOk).2.1, .ok ()) ∧
    max floor.toNat r.base.toNat ≤ cursor.toNat ∧
    ∀ x, max floor.toNat r.base.toNat ≤ x → x < cursor.toNat →
      ∃ c ∈ r.children, Meets lo len c x (x + size.toNat) := by
  rcases @mapAnywhere_cases r s floor size vmoOffset vmo prot cache allocSlot addOk with
    ⟨e, he⟩ | ⟨-, -, he⟩
  · rw [he] at h
    cases h
  rw [he] at h ⊢
  dsimp only at h ⊢
  -- the cursor returned is the one searched for
  generalize hm : r.mapLocked s _ size vmo vmoOffset prot cache allocSlot addOk = m at h ⊢
  obtain ⟨r', s', res⟩ := m
  cases res with
  | error e => cases h
  | ok u =>
    simp only [Except.map, Except.ok.injEq] at h
    subst h
    cases u
    have hstart := start_toNat r floor
    have hscan := gapScan_toNat size (if r.base < floor then floor else r.base) r.children
      fun c hc => (hr.node.slots c hc).noWrap hr.node
    rw [hstart] at hscan
    refine ⟨hm, ?_, fun x hx hxc => ?_⟩
    · rw [hscan]
      exact le_firstFit size.toNat _ _
    · rw [hscan] at hxc
      exact exists_meets_of_lt_firstFit size.toNat _ r.children x hx hxc

/-- A failed `map_anywhere` of a VMO leaves the tree, the translations and the VMO table as
they were, under the assumptions of `mapLocked_error`. -/
theorem mapAnywhere_error (hr : r.WellFormed) (hback : ∀ v t, s.pages v = some t → r.Covers v)
    {id : Nat} (hfresh : ∀ m ∈ (s.vmo id).mappings, m.binding < s.nextSlot) {e : Errc}
    (h : (r.mapAnywhere s floor size (some id) vmoOffset prot cache allocSlot addOk).2.2 = .error e) :
    (r.mapAnywhere s floor size (some id) vmoOffset prot cache allocSlot addOk).1 = r ∧
      (r.mapAnywhere s floor size (some id) vmoOffset prot cache allocSlot addOk).2.1.pages = s.pages ∧
      (r.mapAnywhere s floor size (some id) vmoOffset prot cache allocSlot addOk).2.1.vmos = s.vmos := by
  rcases @mapAnywhere_cases r s floor size vmoOffset (some id) prot cache allocSlot addOk with
    ⟨e', he⟩ | ⟨-, -, he⟩ <;> rw [he] at h ⊢
  · exact ⟨rfl, rfl, rfl⟩
  · dsimp only at h ⊢
    cases hm : (r.mapLocked s (Region.gapScan size (if r.base < floor then floor else r.base)
        r.children) size (some id) vmoOffset prot cache allocSlot addOk).2.2 with
    | ok u =>
      rw [hm] at h
      cases h
    | error e'' => exact mapLocked_error hr hback hfresh hm

/-- The cursor of the search as a number: the first fit from the start. -/
theorem gapScan_eq_firstFit (hr : r.WellFormed) :
    (Region.gapScan size (if r.base < floor then floor else r.base) r.children).toNat =
      firstFit lo len size.toNat (max floor.toNat r.base.toNat) r.children := by
  rw [gapScan_toNat size _ r.children fun c hc => (hr.node.slots c hc).noWrap hr.node, start_toNat]

/-- The cursor is page-aligned: it is the aligned start or the end of an aligned slot. -/
theorem gapScan_aligned (hr : r.WellFormed) (hfloor : pageAligned floor = true) :
    pageAligned (Region.gapScan size (if r.base < floor then floor else r.base) r.children) = true := by
  rw [pageAligned_iff, gapScan_eq_firstFit hr]
  rcases firstFit_cases size.toNat (max floor.toNat r.base.toNat) r.children with h | ⟨c, hc, h⟩
  · have hf := (pageAligned_iff floor).1 hfloor
    have hb := (pageAligned_iff r.base).1 hr.node.aligned.1
    rw [h]
    omega
  · obtain ⟨hb, hs⟩ := (hr.node.slots c hc).aligned
    rw [pageAligned_iff] at hb hs
    rw [h]
    simp only [RegionChild.lo, RegionChild.len]
    omega

/-- Every place the bytes fit lies at or after the cursor: the search passes no free range. -/
theorem AnywhereFit.cursor_le (hr : r.WellFormed) {a : Word} (h : AnywhereFit r floor size a) :
    (Region.gapScan size (if r.base < floor then floor else r.base) r.children).toNat ≤ a.toNat := by
  rw [gapScan_eq_firstFit hr]
  by_contra hlt
  obtain ⟨c, hc, hm⟩ := exists_meets_of_lt_firstFit size.toNat _ r.children a.toNat h.2.1 (Nat.lt_of_not_le hlt)
  exact h.2.2.2 c hc hm

/-- The cursor is a place the bytes fit once the region leaves room after it. -/
theorem anywhereFit_cursor (hr : r.WellFormed) (hfloor : pageAligned floor = true)
    (hroom : (Region.gapScan size (if r.base < floor then floor else r.base) r.children).toNat + size.toNat ≤
      r.base.toNat + r.size.toNat) :
    AnywhereFit r floor size (Region.gapScan size (if r.base < floor then floor else r.base) r.children) := by
  refine ⟨gapScan_aligned hr hfloor, ?_, hroom, fun c hc => ?_⟩
  · rw [gapScan_eq_firstFit hr]
    exact le_firstFit size.toNat _ _
  · rw [gapScan_eq_firstFit hr]
    exact firstFit_free size.toNat _ hr.node.sep c hc

/-- With valid arguments `map_anywhere` reports `capacity_exhausted` exactly when the region
leaves no room after the cursor. -/
theorem mapAnywhere_capacity_iff (hr : r.WellFormed) (hfloor : pageAligned floor = true)
    (hsize : pageAligned size = true) (hpos : 0 < size.toNat) :
    (r.mapAnywhere s floor size vmo vmoOffset prot cache allocSlot addOk).2.2 = .error .capacityExhausted ↔
      r.base.toNat + r.size.toNat <
        (Region.gapScan size (if r.base < floor then floor else r.base) r.children).toNat + size.toNat := by
  have hend : (r.base + r.size).toNat = r.base.toNat + r.size.toNat := BitVec.toNat_add_of_lt hr.node.bounded
  have hargs : (decide (size = 0) || !pageAligned size || !pageAligned floor) = false := by
    have : size ≠ 0 := fun e => by rw [e] at hpos; exact absurd hpos (by decide)
    rw [decide_eq_false this, hsize, hfloor]
    rfl
  unfold Region.mapAnywhere
  rw [hargs, if_neg Bool.false_ne_true]
  dsimp only
  generalize Region.gapScan size (if r.base < floor then floor else r.base) r.children = cursor
  by_cases hroom : (decide (r.base + r.size < cursor) || decide (r.base + r.size - cursor < size)) = true
  · -- the room check fails: the cursor is past the end or too close to it
    rw [if_pos hroom]
    simp only [Bool.or_eq_true, decide_eq_true_eq, BitVec.lt_def, hend] at hroom
    simp only [true_iff]
    by_cases hce : cursor.toNat ≤ r.base.toNat + r.size.toNat
    · rcases hroom with h | h
      · omega
      · rw [BitVec.toNat_sub_of_le (by rw [BitVec.le_def, hend]; exact hce), hend] at h
        omega
    · omega
  · rw [if_neg hroom]
    simp only [Bool.or_eq_true, decide_eq_true_eq, not_or, BitVec.not_lt, BitVec.le_def, hend] at hroom
    rw [BitVec.toNat_sub_of_le (by rw [BitVec.le_def, hend]; exact hroom.1), hend] at hroom
    have hne := @mapLocked_ne_capacityExhausted r s cursor size vmoOffset vmo prot cache allocSlot addOk
    constructor
    · intro h
      split at h
      · rename_i e heq
        cases h
        rw [heq] at hne
        exact absurd rfl hne
      · cases h
    · intro h
      omega

end MapAnywhere

/-! ## `unmap_binding` -/

section UnmapBinding

variable {r : Region} {s : VmState} {vaddr : Word}

/-- A successful `unmap_binding` removed one direct-child binding containing the address and
tore it down. -/
theorem unmapBinding_ok (hr : NodeOk r) (h : (r.unmapBinding s vaddr).2.2 = .ok ()) :
    ∃ b pre post, r.children = pre ++ .binding b :: post ∧
      (r.unmapBinding s vaddr).1.children = pre ++ post ∧ b.Contains vaddr ∧
      (r.unmapBinding s vaddr).2.1 = (RegionChild.binding b).tearDown s := by
  unfold Region.unmapBinding at h ⊢
  split at h
  · rename_i b hb
    split at h
    · rename_i hin
      rw [if_pos hin]
      obtain ⟨pre, post, hl, he⟩ := eraseLastWhere_of_lastWhere hb
      have hlo := (lastWhere_mem hb).2
      have hend := (hr.slots _ (lastWhere_mem hb).1).end_toNat hr
      simp only [RegionChild.base_binding, RegionChild.size_binding] at hlo hend
      rw [BitVec.lt_def, hend] at hin
      refine ⟨b, pre, post, hl, ?_, ⟨BitVec.le_def.1 (of_decide_eq_true hlo), hin⟩, rfl⟩
      rw [Region.children_withChildren, he]
    · cases h
  · cases h

/-- Tearing a binding down clears exactly the translations inside it, when translations sit
at aligned pages only. -/
theorem tearDown_binding_apply {b : Binding}
    (hal : pageAligned b.base = true ∧ pageAligned b.size = true)
    (hw : b.base.toNat + b.size.toNat < 2 ^ 64)
    (hs : ∀ v t, s.pages v = some t → pageAligned v = true) (v : Word) :
    ((RegionChild.binding b).tearDown s).pages v = if b.Contains v then none else s.pages v := by
  rw [RegionChild.tearDown_binding_pages, PageMap.zapRange_apply hal.1 hal.2 hw]
  by_cases hc : b.Contains v
  · rw [if_pos hc]
    split
    · rfl
    · -- an unaligned address inside the binding has no translation to clear
      rename_i hn
      cases hv : s.pages v with
      | none => rfl
      | some t => exact absurd ⟨hc.1, hc.2, (pageAligned_iff v).1 (hs v t hv)⟩ hn
  · rw [if_neg hc, if_neg fun h => hc ⟨h.1, h.2.1⟩]

/-- `unmap_binding` at an address inside a direct sub-region fails: sub-regions are not
descended into. -/
theorem unmapBinding_of_region (hr : NodeOk r) {r' : Region} (hc : .region r' ∈ r.children)
    (hlo : r'.base.toNat ≤ vaddr.toNat) (hhi : vaddr.toNat < r'.base.toNat + r'.size.toNat) :
    ∃ e, (r.unmapBinding s vaddr).2.2 = .error e := by
  have hlast : lastWhere (fun c => decide (c.base ≤ vaddr)) r.children = some (.region r') :=
    lastWhere_of_contains hr.sep (fun c => by simp [BitVec.le_def]) hc hlo hhi
  unfold Region.unmapBinding
  rw [hlast]
  exact ⟨_, rfl⟩

/-- `unmap_binding` succeeds, or refuses with `out_of_range` and changes nothing. -/
theorem unmapBinding_cases :
    (r.unmapBinding s vaddr).2.2 = .ok () ∨ r.unmapBinding s vaddr = (r, s, .error .outOfRange) := by
  unfold Region.unmapBinding
  split
  · split
    · exact .inl rfl
    · exact .inr rfl
  · exact .inr rfl

end UnmapBinding

/-! ## First fit and lookup -/

/-- `map_anywhere` is first fit and `find_binding` finds the binding holding an address: a
base returned is the lowest place the bytes fit, `capacity_exhausted` comes exactly when no
place fits, and `find_binding` returns exactly the binding of the tree whose range holds the
address, null exactly when there is none. -/
theorem map_anywhere_first_fit {r : Region} (hr : r.WellFormed) {s : VmState} {floor size vmoOffset : Word}
    {vmo : Option Nat} {prot : VmProt} {cache : VmCacheMode} {allocSlot addOk : Bool}
    (hfloor : pageAligned floor = true) (hsize : pageAligned size = true) (hpos : 0 < size.toNat) :
    (∀ a, (r.mapAnywhere s floor size vmo vmoOffset prot cache allocSlot addOk).2.2 = .ok a →
      AnywhereFit r floor size a ∧ ∀ a', AnywhereFit r floor size a' → a.toNat ≤ a'.toNat) ∧
    ((r.mapAnywhere s floor size vmo vmoOffset prot cache allocSlot addOk).2.2 = .error .capacityExhausted ↔
      ¬ ∃ a, AnywhereFit r floor size a) ∧
    ∀ v, (∀ b, r.findBinding v = some b ↔ r.HasBinding b ∧ b.Contains v) ∧
      (r.findBinding v = none ↔ ¬ r.Covers v) := by
  have hend : (r.base + r.size).toNat = r.base.toNat + r.size.toNat := BitVec.toNat_add_of_lt hr.node.bounded
  refine ⟨fun a ha => ?_, ?_, fun v => ⟨fun b => hr.findBinding_iff, hr.findBinding_eq_none_iff⟩⟩
  · rcases @mapAnywhere_cases r s floor size vmoOffset vmo prot cache allocSlot addOk with
      ⟨e, he⟩ | ⟨hle, hroom, he⟩
    · rw [he] at ha
      cases ha
    · -- a success returns the cursor, and its room check passed
      rw [he] at ha
      dsimp only at ha
      cases hm : (r.mapLocked s (Region.gapScan size (if r.base < floor then floor else r.base) r.children)
          size vmo vmoOffset prot cache allocSlot addOk).2.2 with
      | error e =>
        rw [hm] at ha
        cases ha
      | ok u =>
        rw [hm] at ha
        simp only [Except.map, Except.ok.injEq] at ha
        subst ha
        rw [BitVec.le_def, hend] at hle
        rw [BitVec.le_def, BitVec.toNat_sub_of_le (by rw [BitVec.le_def, hend]; exact hle), hend] at hroom
        exact ⟨anywhereFit_cursor hr hfloor (by omega), fun a' ha' => ha'.cursor_le hr⟩
  · rw [mapAnywhere_capacity_iff hr hfloor hsize hpos]
    constructor
    · -- every place to fit lies at or after the cursor, where no room is left
      rintro hlt ⟨a, ha⟩
      have := ha.cursor_le hr
      have := ha.2.2.1
      omega
    · intro hnone
      by_contra hle
      exact hnone ⟨_, anywhereFit_cursor hr hfloor (by omega)⟩

/-- A first page in the empty root region of an x86-64 address space. -/
theorem map_anywhere_first_fit_root :
    (∀ a, ((makeRoot .x86_64).mapAnywhere demoVm rootBase 0x1000 none 0 rootProt .cached true true).2.2 = .ok a →
      AnywhereFit (makeRoot .x86_64) rootBase 0x1000 a ∧
        ∀ a', AnywhereFit (makeRoot .x86_64) rootBase 0x1000 a' → a.toNat ≤ a'.toNat) ∧
    (((makeRoot .x86_64).mapAnywhere demoVm rootBase 0x1000 none 0 rootProt .cached true true).2.2 =
        .error .capacityExhausted ↔ ¬ ∃ a, AnywhereFit (makeRoot .x86_64) rootBase 0x1000 a) ∧
    ∀ v, (∀ b, (makeRoot .x86_64).findBinding v = some b ↔ (makeRoot .x86_64).HasBinding b ∧ b.Contains v) ∧
      ((makeRoot .x86_64).findBinding v = none ↔ ¬ (makeRoot .x86_64).Covers v) :=
  map_anywhere_first_fit (makeRoot_wellFormed .x86_64) (by decide) (by decide) (by decide)

end Archipelago.Mm
