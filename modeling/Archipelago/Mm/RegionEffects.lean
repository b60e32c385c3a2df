import Archipelago.Mm.RegionRuns

/-! What region calls do besides reshaping the tree: to the translations of the address
space and to the VMO table. A binding covers the pages of its range, and a region what the
bindings below it cover (`Region.Covers`). Tearing a slot down (`remove_slot`, reaching into
an emptied sub-region through `clear_children`) clears exactly the aligned pages its
bindings cover, and drops their back-refs; every region call, on any region of the tree,
only clears translations, leaves VMO residency alone, adds back-refs only for slots it
made, and keeps every translation that survives it covered (`CallEffect`). `find_binding`
returns a binding of the tree containing the address. -/

namespace Archipelago.Mm

open Archipelago.Lib Archipelago.Obj
open RegionChild (lo len)

/-! ## Covered pages -/

/-- The binding's range contains `v`. -/
def Binding.Contains (b : Binding) (v : Word) : Prop :=
  b.base.toNat ≤ v.toNat ∧ v.toNat < b.base.toNat + b.size.toNat

/-- Some binding of `r`, or of a region below it, contains `v`. -/
def Region.Covers (r : Region) (v : Word) : Prop := ∃ b, r.HasBinding b ∧ b.Contains v

/-- A binding slot covers its range; a sub-region slot what its region covers. -/
def RegionChild.Covers : RegionChild → Word → Prop
  | .binding b, v => b.Contains v
  | .region r, v => r.Covers v

section Covers

variable {r r' : Region} {v : Word}

theorem Region.covers_iff : r.Covers v ↔ ∃ c ∈ r.children, c.Covers v := by
  constructor
  · rintro ⟨b, hb, hv⟩
    cases hb with
    | here hmem => exact ⟨.binding b, hmem, hv⟩
    | sub hmem hb' => exact ⟨.region _, hmem, b, hb', hv⟩
  · rintro ⟨c, hc, hcv⟩
    cases c with
    | binding b => exact ⟨b, .here hc, hcv⟩
    | region r'' =>
      obtain ⟨b, hb, hv⟩ := hcv
      exact ⟨b, .sub hc hb, hv⟩

/-- A region holding every child of `r` covers what `r` covers. -/
theorem Region.Covers.mono (h : ∀ c ∈ r.children, c ∈ r'.children) (hv : r.Covers v) :
    r'.Covers v := by
  obtain ⟨c, hc, hcv⟩ := Region.covers_iff.1 hv
  exact Region.covers_iff.2 ⟨c, h c hc, hcv⟩

end Covers

/-! ## `find_binding` -/

theorem Region.findBinding_eq (r : Region) (v : Word) : r.findBinding v = findBindingIn r.children v := by
  cases r
  rfl

/-- The slot `find_binding` descends into starts at or below the address and contains it. -/
theorem findBindingIn_eq_some : ∀ {cs : List RegionChild} {v : Word} {b : Binding},
    findBindingIn cs v = some b → ∃ c ∈ cs, c.base ≤ v ∧ v < c.base + c.size ∧ c.descend v = some b
  | [], _, _, h => by cases h
  | c :: cs, v, b, h => by
    unfold findBindingIn at h
    split at h
    · obtain ⟨c', hc', h'⟩ := findBindingIn_eq_some h
      exact ⟨c', List.mem_cons_of_mem _ hc', h'⟩
    · split at h
      · rename_i _ hin
        exact ⟨c, List.mem_cons_self, hin.1, hin.2, h⟩
      · cases h

/-- In a well-formed tree `find_binding` returns a binding of the tree that contains the
address. -/
theorem Region.WellFormed.findBinding {r : Region} (hr : r.WellFormed) {v : Word} {b : Binding}
    (h : r.findBinding v = some b) : r.HasBinding b ∧ b.Contains v := by
  induction hr generalizing b with
  | @intro r node sub ih =>
    rw [Region.findBinding_eq] at h
    obtain ⟨c, hc, hlo, hhi, hd⟩ := findBindingIn_eq_some h
    cases c with
    | binding b' =>
      simp only [RegionChild.descend, Option.some.injEq] at hd
      subst hd
      have hend := (node.slots _ hc).end_toNat node
      simp only [RegionChild.base_binding, RegionChild.size_binding] at hlo hhi hend
      rw [BitVec.le_def] at hlo
      rw [BitVec.lt_def, hend] at hhi
      exact ⟨.here hc, hlo, hhi⟩
    | region r' =>
      obtain ⟨hb, hv⟩ := ih r' hc hd
      exact ⟨.sub hc hb, hv⟩

/-- Every binding below a well-formed region starts on a page boundary. -/
theorem Region.WellFormed.binding_aligned {r : Region} {b : Binding} (hr : r.WellFormed)
    (hb : r.HasBinding b) : pageAligned b.base = true := by
  induction hb with
  | here hmem => exact (hr.node.slots _ hmem).aligned.1
  | sub hmem _ ih => exact ih (hr.sub _ hmem)

/-! ## What a call does to the state it touches -/

/-- What a region call does to the state it touches: translations are only cleared, a VMO
changes only in its back-refs, a back-ref is only dropped or added for a slot the call
made, and slot identities only advance. -/
structure VmState.Evolves (s s' : VmState) : Prop where
  aspace : s'.aspace = s.aspace
  pages : ∀ v t, s'.pages v = some t → s.pages v = some t
  vmos : ∀ id, s'.vmo id = { s.vmo id with mappings := (s'.vmo id).mappings }
  mappings : ∀ id m, m ∈ (s'.vmo id).mappings →
    m ∈ (s.vmo id).mappings ∨ s.nextSlot ≤ m.binding ∧ m.binding < s'.nextSlot
  nextSlot : s.nextSlot ≤ s'.nextSlot

namespace VmState

variable {s s' s'' : VmState}

theorem vmo_setVmo (s : VmState) (i j : Nat) (v : Vmo) :
    (s.setVmo i v).vmo j = if i = j ∧ i < s.vmos.length then v else s.vmo j :=
  getD_set _ _ _ _ _

theorem Evolves.refl (s : VmState) : s.Evolves s :=
  ⟨rfl, fun _ _ h => h, fun _ => rfl, fun _ _ h => .inl h, Nat.le_refl _⟩

theorem Evolves.trans (h : s.Evolves s') (h' : s'.Evolves s'') : s.Evolves s'' where
  aspace := h'.aspace.trans h.aspace
  pages v t hv := h.pages v t (h'.pages v t hv)
  vmos id := by rw [h'.vmos id, h.vmos id]
  mappings id m hm := by
    have := h.nextSlot
    have := h'.nextSlot
    rcases h'.mappings id m hm with hm' | hm'
    · rcases h.mappings id m hm' with hm'' | hm''
      · exact .inl hm''
      · exact .inr ⟨hm''.1, by omega⟩
    · exact .inr ⟨by omega, hm'.2⟩
  nextSlot := h.nextSlot.trans h'.nextSlot

theorem evolves_zap (s : VmState) (base size : Word) : s.Evolves (s.zap base size) where
  aspace := rfl
  pages v t h := by
    simp only [pages_zap] at h
    exact PageMap.zapRange_some h
  vmos _ := rfl
  mappings _ _ h := .inl h
  nextSlot := Nat.le_refl _

theorem evolves_bump (s : VmState) : s.Evolves { s with nextSlot := s.nextSlot + 1 } where
  aspace := rfl
  pages _ _ h := h
  vmos _ := rfl
  mappings _ _ h := .inl h
  nextSlot := Nat.le_succ _

/-- Making a slot and recording a back-ref to it in VMO `id`. -/
theorem evolves_bump_setVmo (s : VmState) (id : Nat) (v : Vmo)
    (hv : v = { s.vmo id with mappings := v.mappings })
    (hm : ∀ m ∈ v.mappings, m ∈ (s.vmo id).mappings ∨ m.binding = s.nextSlot) :
    s.Evolves ({ s with nextSlot := s.nextSlot + 1 }.setVmo id v) where
  aspace := rfl
  pages _ _ h := h
  vmos j := by
    rw [vmo_setVmo]
    split
    · rename_i h
      obtain ⟨rfl, -⟩ := h
      exact hv
    · rfl
  mappings j m h := by
    change m ∈ (({ s with nextSlot := s.nextSlot + 1 }.setVmo id v).vmo j).mappings at h
    rw [vmo_setVmo] at h
    split at h
    · rename_i hj
      obtain ⟨rfl, -⟩ := hj
      rcases hm m h with h' | h'
      · exact .inl h'
      · exact .inr ⟨h'.ge, by simp [h']⟩
    · exact .inl h
  nextSlot := Nat.le_succ _

theorem evolves_removeMapping (s : VmState) (id slot : Nat) :
    s.Evolves (s.removeMapping id slot) where
  aspace := rfl
  pages _ _ h := h
  vmos j := by
    unfold removeMapping
    rw [vmo_setVmo]
    split
    · rename_i h
      obtain ⟨rfl, -⟩ := h
      exact Vmo.removeMapping_eq _ _
    · rfl
  mappings j m h := by
    unfold removeMapping at h
    rw [vmo_setVmo] at h
    split at h
    · rename_i hj
      obtain ⟨rfl, -⟩ := hj
      exact .inl (Vmo.mem_removeMapping h)
    · exact .inl h
  nextSlot := Nat.le_refl _

end VmState

/-! ## Tearing a slot down -/

theorem RegionChild.tearDown_binding (b : Binding) (s : VmState) :
    (RegionChild.binding b).tearDown s =
      match b.vmo with
      | none => s.zap b.base b.size
      | some id => (s.zap b.base b.size).removeMapping id b.slot := rfl

theorem RegionChild.tearDown_binding_pages (b : Binding) (s : VmState) :
    ((RegionChild.binding b).tearDown s).pages = s.pages.zapRange b.base b.size := by
  rw [RegionChild.tearDown_binding]
  split <;> rfl

theorem Region.clearChildren_eq (r : Region) (s : VmState) :
    r.clearChildren s = tearDownAll r.children s := by
  cases r
  rfl

mutual

theorem RegionChild.tearDown_evolves : ∀ (c : RegionChild) (s : VmState), s.Evolves (c.tearDown s)
  | .binding b, s => by
    rw [RegionChild.tearDown_binding]
    split
    · exact s.evolves_zap _ _
    · exact (s.evolves_zap _ _).trans (VmState.evolves_removeMapping _ _ _)
  | .region r, s => Region.clearChildren_evolves r s

theorem Region.clearChildren_evolves : ∀ (r : Region) (s : VmState), s.Evolves (r.clearChildren s)
  | .mk _ _ _ cs, s => tearDownAll_evolves cs s

theorem tearDownAll_evolves : ∀ (cs : List RegionChild) (s : VmState), s.Evolves (tearDownAll cs s)
  | [], s => VmState.Evolves.refl s
  | c :: cs, s => (c.tearDown_evolves s).trans (tearDownAll_evolves cs _)

end

/-- Tearing down a run of slots, each of which clears only translations and every aligned
page it covers, does the same for the whole run. -/
theorem tearDownAll_pages {cs : List RegionChild} {v : Word}
    (h : ∀ c ∈ cs, ∀ s t, (c.tearDown s).pages v = some t → s.pages v = some t ∧ ¬ c.Covers v) :
    ∀ s t, (tearDownAll cs s).pages v = some t → s.pages v = some t ∧ ∀ c ∈ cs, ¬ c.Covers v := by
  induction cs with
  | nil => exact fun s t hs => ⟨hs, fun c hc => by cases hc⟩
  | cons c cs ih =>
    intro s t hs
    obtain ⟨hmid, hrest⟩ := ih (fun c' hc' => h c' (List.mem_cons_of_mem _ hc')) _ t hs
    obtain ⟨hfirst, hc⟩ := h c List.mem_cons_self s t hmid
    refine ⟨hfirst, fun c' hc' => ?_⟩
    rcases List.mem_cons.1 hc' with rfl | hc'
    · exact hc
    · exact hrest c' hc'

/-- Tearing down a slot of a well-formed region clears only translations, among them every
aligned page its bindings cover. -/
theorem tearDown_pages {r : Region} (hr : r.WellFormed) {c : RegionChild} (hc : c ∈ r.children)
    {v : Word} (hv : pageAligned v = true) {s : VmState} {t : VmTranslation}
    (h : (c.tearDown s).pages v = some t) : s.pages v = some t ∧ ¬ c.Covers v := by
  induction hr generalizing c s t with
  | @intro r node sub ih =>
    cases c with
    | binding b =>
      have hslot := node.slots _ hc
      have hal : pageAligned b.base = true ∧ pageAligned b.size = true := hslot.aligned
      have hw : b.base.toNat + b.size.toNat < 2 ^ 64 := hslot.noWrap node
      rw [RegionChild.tearDown_binding_pages, PageMap.zapRange_apply hal.1 hal.2 hw] at h
      split at h
      · cases h
      · rename_i hout
        exact ⟨h, fun hcv => hout ⟨hcv.1, hcv.2, (pageAligned_iff v).1 hv⟩⟩
    | region r' =>
      -- the sub-region is emptied slot by slot, each slot one of its own children
      rw [RegionChild.tearDown, Region.clearChildren_eq] at h
      obtain ⟨hs, hnot⟩ := tearDownAll_pages (fun c' hc' s' t' h' => ih r' hc hc' h') s t h
      exact ⟨hs, fun hcv => by
        obtain ⟨c', hc', hcv'⟩ := Region.covers_iff.1 hcv
        exact hnot c' hc' hcv'⟩

theorem tearDownAll_pages_of_sub {r : Region} (hr : r.WellFormed) {cs : List RegionChild}
    (hcs : ∀ c ∈ cs, c ∈ r.children) {v : Word} (hv : pageAligned v = true) {s : VmState}
    {t : VmTranslation} (h : (tearDownAll cs s).pages v = some t) :
    s.pages v = some t ∧ ∀ c ∈ cs, ¬ c.Covers v :=
  tearDownAll_pages (fun c hc _ _ h' => tearDown_pages hr (hcs c hc) hv h') s t h

/-! ## Each call -/

/-- What a region call on `r` does besides reshaping it: the state it touches evolves, and
every translation that survives the call and was covered in `r` is covered in the region
the call returns. -/
structure CallEffect (r r' : Region) (s s' : VmState) : Prop where
  evolves : s.Evolves s'
  covers : ∀ v t, pageAligned v = true → s'.pages v = some t → r.Covers v → r'.Covers v

section Calls

variable {r : Region} {s : VmState}

theorem CallEffect.refl (r : Region) (s : VmState) : CallEffect r r s s :=
  ⟨.refl s, fun _ _ _ _ h => h⟩

/-- A call that returns its region. -/
theorem CallEffect.of_same {s' : VmState} (h : s.Evolves s') : CallEffect r r s s' :=
  ⟨h, fun _ _ _ _ hv => hv⟩

/-- A call that links a slot that fits. -/
theorem CallEffect.of_link (hr : NodeOk r) {c : RegionChild} (hc : Fits r c.base c.size c.prot)
    {s' : VmState} (h : s.Evolves s') : CallEffect r (r.link c) s s' :=
  ⟨h, fun _ _ _ _ hv => hv.mono fun _ hd => (mem_link hr hc).2 (.inr hd)⟩

theorem createChild_effect (hr : r.WellFormed) (base size : Word) (maxProt : VmProt)
    (allocSlot allocRegion : Bool) :
    CallEffect r (r.createChild s base size maxProt allocSlot allocRegion).1 s
      (r.createChild s base size maxProt allocSlot allocRegion).2.1 := by
  unfold Region.createChild
  cases hi : r.insertSlot base size maxProt allocSlot with
  | error e => exact .refl r s
  | ok u =>
    obtain ⟨hf, -⟩ := (insertSlot_eq_ok hr.node).1 hi
    cases allocRegion with
    | true => exact .of_link (c := .region (.mk base size maxProt [])) hr.node hf (s.evolves_bump)
    | false => exact .of_same (s.evolves_bump.trans (VmState.evolves_zap _ _ _))

theorem mapLocked_effect (hr : r.WellFormed) (vaddr size : Word) (vmo : Option Nat)
    (vmoOffset : Word) (prot : VmProt) (cache : VmCacheMode) (allocSlot addOk : Bool) :
    CallEffect r (r.mapLocked s vaddr size vmo vmoOffset prot cache allocSlot addOk).1 s
      (r.mapLocked s vaddr size vmo vmoOffset prot cache allocSlot addOk).2.1 := by
  unfold Region.mapLocked
  dsimp only
  split
  · exact .refl r s
  cases hi : r.insertSlot vaddr size prot allocSlot with
  | error e => exact .refl r s
  | ok u =>
    obtain ⟨hf, -⟩ := (insertSlot_eq_ok hr.node).1 hi
    cases vmo with
    | none =>
      refine .of_link hr.node ?_ s.evolves_bump
      exact hf
    | some id =>
      dsimp only
      split
      · -- the one back-ref recorded is to the new slot
        rename_i v hadd
        have hv : v = ((s.vmo id).addMapping addOk s.aspace s.nextSlot).1 :=
          (congrArg Prod.fst hadd).symm
        refine .of_link hr.node ?_ (s.evolves_bump_setVmo id v ?_ ?_)
        · exact hf
        · rw [hv]
          exact Vmo.addMapping_eq _ _ _ _
        · intro m hm
          rw [hv] at hm
          rcases Vmo.mem_addMapping hm with hm | rfl
          · exact .inl hm
          · exact .inr rfl
      · exact .of_same (s.evolves_bump.trans (RegionChild.tearDown_evolves _ _))

theorem mapAnywhere_effect (hr : r.WellFormed) (floor size : Word) (vmo : Option Nat)
    (vmoOffset : Word) (prot : VmProt) (cache : VmCacheMode) (allocSlot addOk : Bool) :
    CallEffect r (r.mapAnywhere s floor size vmo vmoOffset prot cache allocSlot addOk).1 s
      (r.mapAnywhere s floor size vmo vmoOffset prot cache allocSlot addOk).2.1 := by
  unfold Region.mapAnywhere
  split
  · exact .refl r s
  dsimp only
  generalize Region.gapScan size (if r.base < floor then floor else r.base) r.children = cursor
  split
  · exact .refl r s
  have hm := mapLocked_effect (s := s) hr cursor size vmo vmoOffset prot cache allocSlot addOk
  split
  · rename_i h
    rw [h] at hm
    exact hm
  · rename_i h
    rw [h] at hm
    exact hm

theorem unmapBinding_effect (hr : r.WellFormed) (vaddr : Word) :
    CallEffect r (r.unmapBinding s vaddr).1 s (r.unmapBinding s vaddr).2.1 := by
  unfold Region.unmapBinding
  split
  · rename_i b hb
    split
    · obtain ⟨pre, post, hl, he⟩ := eraseLastWhere_of_lastWhere hb
      refine ⟨RegionChild.tearDown_evolves _ s, fun v t hv ht hcov => ?_⟩
      -- the binding removed covers nothing that survived its teardown
      obtain ⟨-, hnot⟩ := tearDown_pages hr (lastWhere_mem hb).1 hv ht
      obtain ⟨c, hc, hcv⟩ := Region.covers_iff.1 hcov
      refine Region.covers_iff.2 ⟨c, ?_, hcv⟩
      rw [Region.children_withChildren, he]
      rw [hl] at hc
      rcases List.mem_append.1 hc with h | h
      · exact List.mem_append_left _ h
      · rcases List.mem_cons.1 h with rfl | h
        · exact absurd hcv hnot
        · exact List.mem_append_right _ h
    · exact .refl r s
  · exact .refl r s

/-- The removal loop tears down exactly the slots starting before the end. -/
theorem unmapRun_fst (rangeEnd : Word) :
    ∀ (s : VmState) (l : List RegionChild),
      (Region.unmapRun rangeEnd s l).1 = tearDownAll (l.takeWhile fun c => decide (c.base < rangeEnd)) s
  | _, [] => rfl
  | s, c :: cs => by
    unfold Region.unmapRun
    by_cases h : c.base < rangeEnd
    · rw [if_pos h, List.takeWhile_cons_of_pos (by simpa using h)]
      exact unmapRun_fst rangeEnd _ cs
    · rw [if_neg h, List.takeWhile_cons_of_neg (by simpa using h)]
      rfl

theorem unmap_effect (hr : r.WellFormed) (base size : Word) :
    CallEffect r (r.unmap s base size).1 s (r.unmap s base size).2.1 := by
  unfold Region.unmap
  dsimp only
  split
  · exact .refl r s
  split
  · exact .refl r s
  · rw [unmapRun_fst]
    -- the slots torn down are the middle run: from the first at `base` to the last before the end
    have hmid : ∀ c ∈ (r.children.dropWhile fun c => decide (c.base < base)).takeWhile
        (fun c => decide (c.base < base + size)), c ∈ r.children :=
      fun c hc => List.dropWhile_subset _ (List.takeWhile_subset _ hc)
    refine ⟨tearDownAll_evolves _ s, fun v t hv ht hcov => ?_⟩
    obtain ⟨-, hnot⟩ := tearDownAll_pages_of_sub hr hmid hv ht
    obtain ⟨c, hc, hcv⟩ := Region.covers_iff.1 hcov
    refine Region.covers_iff.2 ⟨c, ?_, hcv⟩
    have hc' : c ∈ r.children.takeWhile (fun c => decide (c.base < base)) ++
        (((r.children.dropWhile fun c => decide (c.base < base)).takeWhile
          fun c => decide (c.base < base + size)) ++
        ((r.children.dropWhile fun c => decide (c.base < base)).dropWhile
          fun c => decide (c.base < base + size))) := by
      rw [List.takeWhile_append_dropWhile, List.takeWhile_append_dropWhile]
      exact hc
    rw [Region.children_withChildren, unmapRun_snd]
    rcases List.mem_append.1 hc' with h | h
    · exact List.mem_append_left _ h
    · rcases List.mem_append.1 h with h | h
      · exact absurd hcv (hnot c h)
      · exact List.mem_append_right _ h

theorem RegionOp.apply_effect (op : RegionOp) (s : VmState) {r : Region} (hr : r.WellFormed) :
    CallEffect r (op.apply s r).1 s (op.apply s r).2.1 := by
  cases op with
  | createChild => exact createChild_effect hr ..
  | map => exact mapLocked_effect hr ..
  | mapAnywhere => exact mapAnywhere_effect hr ..
  | unmapBinding => exact unmapBinding_effect hr ..
  | unmap => exact unmap_effect hr ..

end Calls

/-! ## A call anywhere in the tree -/

section Tree

variable {β : Type} {f : Region → Region × β}

/-- Replacing the region a path names by one covering at least what it covered keeps every
covered page of the tree covered. -/
theorem covers_modifyAt {v : Word} :
    ∀ (path : List Word) {root root' : Region} {x : β},
      (∀ r, root.find? path = some r → r.Covers v → (f r).1.Covers v) →
      root.modifyAt f path = some (root', x) → root.Covers v → root'.Covers v
  | [], root, root', x, hf, h, hv => by
    simp only [Region.modifyAt, Option.some.injEq] at h
    have := hf root rfl hv
    rw [h] at this
    exact this
  | b :: path, root, root', x, hf, h, hv => by
    obtain ⟨i, r, r', hr, -, hfind, -, hrec, rfl⟩ := modifyAt_cons_eq_some h
    obtain ⟨hlt, hget⟩ := List.getElem?_eq_some_iff.1 hr
    obtain ⟨c, hc, hcv⟩ := Region.covers_iff.1 hv
    obtain ⟨j, hj, rfl⟩ := List.mem_iff_getElem.1 hc
    refine Region.covers_iff.2 ?_
    rw [Region.children_withChildren]
    by_cases hji : j = i
    · -- the covering slot is the one the call descends into
      subst hji
      rw [hget] at hcv
      have hcv' := covers_modifyAt path
        (fun r₁ hr₁ => hf r₁ (by simp only [Region.find?, hfind, hr₁])) hrec hcv
      exact ⟨.region r', List.mem_set hlt _, hcv'⟩
    · have hmem := List.getElem_mem (l := root.children.set i (.region r')) (by simpa using hj)
      rw [List.getElem_set_ne (Ne.symm hji)] at hmem
      exact ⟨_, hmem, hcv⟩

end Tree

namespace Space

variable {t : Space}

/-- A region call anywhere in the tree only evolves the state it touches and keeps every
surviving translation covered by the tree. -/
theorem step_effect (ht : t.root.WellFormed) (op : RegionOp) :
    CallEffect t.root (t.step op).1.root t.vm (t.step op).1.vm := by
  unfold step
  split
  · exact .refl _ _
  · rename_i root vm res h
    obtain ⟨-, r, hr, -, hx⟩ :=
      find?_modifyAt (fun _ hr => (op.apply_keeps t.vm hr).sameRange) op.path ht h
    have he := op.apply_effect t.vm (ht.find? op.path hr)
    have hvm : (op.apply t.vm r).2.1 = vm := congrArg Prod.fst hx
    subst hvm
    refine ⟨he.evolves, fun v tr hv htr hcov => covers_modifyAt op.path (fun r' hr' => ?_) h hcov⟩
    rw [hr] at hr'
    cases hr'
    exact he.covers v tr hv htr

end Space

end Archipelago.Mm
