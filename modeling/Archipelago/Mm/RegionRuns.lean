import Archipelago.Lib.Run
import Archipelago.Mm.RegionInvariant

/-! Region trees over whole runs. A call is made on some region of the tree, which the model
names by the path of sub-region bases leading to it (`Region.modifyAt`); the tree after the
call is the tree with that region replaced. Since every call keeps the invariant and the
range of the region it is made on, the whole tree stays well formed along every run of
`create_child`, `map`, `map_anywhere`, `unmap_binding` and `unmap` from a fresh root
(`vm_aspace::init`'s `make_root`), and every binding's protection stays within the max
protection of every region above it. -/

namespace Archipelago.Mm

open Archipelago.Lib Archipelago.Obj
open RegionChild (lo len)

/-! ## Bindings below a region -/

/-- `b` is a binding slot of `r` or of a region below it. -/
inductive Region.HasBinding : Region → Binding → Prop
  | here {r : Region} {b : Binding} : RegionChild.binding b ∈ r.children → r.HasBinding b
  | sub {r r' : Region} {b : Binding} : RegionChild.region r' ∈ r.children → r'.HasBinding b →
      r.HasBinding b

/-- Every binding below a well-formed region is within its max protection: each slot is
within its parent's, and a sub-region's max protection is its slot's. -/
theorem Region.WellFormed.prot_of_hasBinding {r : Region} {b : Binding} (hr : r.WellFormed)
    (hb : r.HasBinding b) : Submask b.prot r.maxProt := by
  induction hb with
  | here hmem => exact (hr.node.slots _ hmem).prot
  | sub hmem _ ih =>
    exact Submask.trans (ih (hr.sub _ hmem)) (hr.node.slots _ hmem).prot

/-! ## Addressing the tree -/

section Tree

variable {β : Type} {f : Region → Region × β}

/-- The regions a path names are well formed in a well-formed tree. -/
theorem Region.WellFormed.find? :
    ∀ {root : Region} (path : List Word) {r : Region}, root.WellFormed → root.find? path = some r →
      r.WellFormed
  | root, [], r, hroot, h => by
    simp only [Region.find?_nil, Option.some.injEq] at h
    exact h ▸ hroot
  | root, b :: path, r, hroot, h => by
    rw [Region.find?_cons] at h
    obtain ⟨r', hr', h⟩ := Option.bind_eq_some_iff.1 h
    obtain ⟨c, hc, hcr⟩ := List.exists_of_findSome?_eq_some hr'
    cases c with
    | binding _ => cases hcr
    | region r'' =>
      simp only [RegionChild.regionAt, Option.ite_none_right_eq_some, Option.some.injEq] at hcr
      obtain ⟨-, rfl⟩ := hcr
      exact (hroot.sub _ hc).find? path h

/-- A call below the root is made on the first sub-region slot starting at the path's first
base, and that slot is replaced by the result. -/
theorem modifyAt_cons_eq_some {b : Word} {path : List Word} {root root' : Region} {x : β}
    (h : root.modifyAt f (b :: path) = some (root', x)) :
    ∃ i r r', root.children[i]? = some (.region r) ∧ r.base = b ∧
      root.children.findSome? (RegionChild.regionAt b) = some r ∧
      root.children.findIdx? (fun c => (c.regionAt b).isSome) = some i ∧
      r.modifyAt f path = some (r', x) ∧
      root' = root.withChildren (root.children.set i (.region r')) := by
  unfold Region.modifyAt at h
  split at h
  · cases h
  rename_i i hi
  split at h
  · rename_i r hr
    obtain ⟨⟨r', x'⟩, hrec, hout⟩ := Option.map_eq_some_iff.1 h
    simp only [Prod.mk.injEq] at hout
    obtain ⟨rfl, rfl⟩ := hout
    have hat : r.base = b := by
      obtain ⟨hlt, hp, -⟩ := List.findIdx?_eq_some_iff_getElem.1 hi
      rw [(List.getElem?_eq_some_iff.1 hr).2] at hp
      simpa [RegionChild.regionAt] using hp
    refine ⟨i, r, r', hr, hat, ?_, hi, hrec, rfl⟩
    rw [findSome?_of_findIdx? hi hr]
    simp [RegionChild.regionAt, hat]
  · cases h

/-- A call that keeps the invariant and the range of the region it is made on keeps the
invariant of the whole tree, and the root's range. -/
theorem modifyAt_wellFormed (hf : ∀ r, r.WellFormed → (f r).1.WellFormed ∧ SameRange r (f r).1) :
    ∀ (path : List Word) {root root' : Region} {x : β}, root.WellFormed →
      root.modifyAt f path = some (root', x) → root'.WellFormed ∧ SameRange root root'
  | [], root, root', x, hroot, h => by
    simp only [Region.modifyAt_nil, Option.some.injEq] at h
    have := hf root hroot
    rw [h] at this
    exact this
  | b :: path, root, root', x, hroot, h => by
    obtain ⟨i, r', r'', hr', -, -, -, hrec, rfl⟩ := modifyAt_cons_eq_some h
    have hmem : RegionChild.region r' ∈ root.children := List.mem_of_getElem? hr'
    obtain ⟨hwf, hsame⟩ := modifyAt_wellFormed hf path (hroot.sub r' hmem) hrec
    obtain ⟨hb, hs, hp⟩ := hsame
    -- the slot keeps its range, so the children stay sorted and disjoint and inside the root
    have hnode := hroot.node
    refine ⟨.intro ⟨hnode.aligned, hnode.bounded,
      hnode.sep.set hr' (congrArg BitVec.toNat hb) (congrArg BitVec.toNat hs), fun c hc => ?_⟩ fun r₁ hr₁ => ?_,
      sameRange_withChildren _ _⟩
    · rcases List.mem_or_eq_of_mem_set hc with hc | rfl
      · exact (hnode.slots c hc).of_sameRange (sameRange_withChildren _ _)
      · have hslot := hnode.slots _ hmem
        exact ⟨by simpa [hs] using hslot.pos, by simpa [hb, hs] using hslot.aligned,
          by simpa [hb, hs] using hslot.inside, by simpa [hp] using hslot.prot⟩
    · rcases List.mem_or_eq_of_mem_set hr₁ with hr₁ | h₁
      · exact hroot.sub r₁ hr₁
      · cases h₁
        exact hwf

/-- After a call on the region a path names, the path names the region the call returned,
and the root keeps its range. -/
theorem find?_modifyAt (hf : ∀ r, r.WellFormed → SameRange r (f r).1) :
    ∀ (path : List Word) {root root' : Region} {x : β}, root.WellFormed →
      root.modifyAt f path = some (root', x) → SameRange root root' ∧
        ∃ r, root.find? path = some r ∧ root'.find? path = some (f r).1 ∧ (f r).2 = x
  | [], root, root', x, hroot, h => by
    simp only [Region.modifyAt_nil, Option.some.injEq] at h
    have := hf root hroot
    rw [h] at this
    exact ⟨this, root, rfl, by rw [h]; rfl, by rw [h]⟩
  | b :: path, root, root', x, hroot, h => by
    obtain ⟨i, r', r'', hr', hat, hbefore, hi, hrec, rfl⟩ := modifyAt_cons_eq_some h
    have hmem : RegionChild.region r' ∈ root.children := List.mem_of_getElem? hr'
    obtain ⟨hsame, r, hfind, hfind', hx⟩ := find?_modifyAt hf path (hroot.sub r' hmem) hrec
    -- the first sub-region slot at `b` is `r'` before the call and `r''` after it
    have hi' : (root.children.set i (.region r'')).findIdx?
        (fun c => (c.regionAt b).isSome) = some i :=
      findIdx?_set hi (by simp [RegionChild.regionAt, hsame.1, hat])
    have hafter : (root.children.set i (.region r'')).findSome? (RegionChild.regionAt b) =
        some r'' := by
      rw [findSome?_of_findIdx? hi' (List.getElem?_set_self (List.getElem?_eq_some_iff.1 hr').1)]
      simp [RegionChild.regionAt, hsame.1, hat]
    refine ⟨sameRange_withChildren _ _, r, ?_, ?_, hx⟩
    · rw [Region.find?_cons, hbefore, Option.bind_some, hfind]
    · rw [Region.find?_cons, Region.children_withChildren, hafter, Option.bind_some, hfind']

/-- A call that returns the region it was made on leaves the tree as it was. -/
theorem modifyAt_unchanged :
    ∀ (path : List Word) {root root' : Region} {x : β},
      (∀ r, root.find? path = some r → (f r).1 = r) → root.modifyAt f path = some (root', x) →
        root' = root
  | [], root, root', x, hfix, h => by
    simp only [Region.modifyAt_nil, Option.some.injEq] at h
    have := hfix root rfl
    rw [h] at this
    exact this
  | b :: path, root, root', x, hfix, h => by
    obtain ⟨i, r', r'', hr', -, hbefore, -, hrec, rfl⟩ := modifyAt_cons_eq_some h
    have hr'' : r'' = r' := modifyAt_unchanged path
      (fun r hr => hfix r (by rw [Region.find?_cons, hbefore, Option.bind_some, hr])) hrec
    subst hr''
    -- writing a slot's own value back changes nothing
    obtain ⟨hlt, hget⟩ := List.getElem?_eq_some_iff.1 hr'
    rw [← hget, List.set_getElem_self, Region.withChildren_children]

end Tree

/-! ## Runs of region calls -/

/-- A region call, with the region it is made on (the path of sub-region bases from the
root) and the allocation outcomes it meets. -/
inductive RegionOp
  | createChild (path : List Word) (base size : Word) (maxProt : VmProt) (allocSlot allocRegion : Bool)
  | map (path : List Word) (vaddr size : Word) (vmo : Option Nat) (vmoOffset : Word) (prot : VmProt)
      (cache : VmCacheMode) (allocSlot addOk : Bool)
  | mapAnywhere (path : List Word) (floor size : Word) (vmo : Option Nat) (vmoOffset : Word)
      (prot : VmProt) (cache : VmCacheMode) (allocSlot addOk : Bool)
  | unmapBinding (path : List Word) (vaddr : Word)
  | unmap (path : List Word) (base size : Word)

namespace RegionOp

/-- The region the call is made on. -/
def path : RegionOp → List Word
  | createChild path .. => path
  | map path .. => path
  | mapAnywhere path .. => path
  | unmapBinding path _ => path
  | unmap path _ _ => path

/-- The call, on the region it is made on. -/
def apply : RegionOp → VmState → Region → Region × VmState × Except Errc Unit
  | createChild _ base size maxProt allocSlot allocRegion, s, r =>
    r.createChild s base size maxProt allocSlot allocRegion
  | map _ vaddr size vmo vmoOffset prot cache allocSlot addOk, s, r =>
    r.map s vaddr size vmo vmoOffset prot cache allocSlot addOk
  | mapAnywhere _ floor size vmo vmoOffset prot cache allocSlot addOk, s, r =>
    let (r', s', res) := r.mapAnywhere s floor size vmo vmoOffset prot cache allocSlot addOk
    (r', s', res.map fun _ => ())
  | unmapBinding _ vaddr, s, r => r.unmapBinding s vaddr
  | unmap _ base size, s, r => r.unmap s base size

theorem apply_keeps (op : RegionOp) (s : VmState) {r : Region} (hr : r.WellFormed) :
    Keeps r (op.apply s r).1 (op.apply s r).2.2 := by
  cases op with
  | createChild => exact createChild_keeps hr ..
  | map => exact mapLocked_keeps hr ..
  | mapAnywhere _ floor size vmo vmoOffset prot cache allocSlot addOk =>
    -- the address `map_anywhere` returns is dropped; failure is still failure
    have h := mapAnywhere_keeps (s := s) hr floor size vmo vmoOffset prot cache allocSlot addOk
    refine ⟨h.wellFormed, h.sameRange, fun e he => h.unchanged e ?_⟩
    simp only [apply] at he
    cases hres : (r.mapAnywhere s floor size vmo vmoOffset prot cache allocSlot addOk).2.2 with
    | error e' =>
      rw [hres] at he
      cases he
      rfl
    | ok a =>
      rw [hres] at he
      cases he
  | unmapBinding => exact unmapBinding_keeps hr ..
  | unmap => exact unmap_keeps hr ..

end RegionOp

/-- An address space as its region calls see it: the root region and what the calls touch. -/
structure Space where
  root : Region
  vm : VmState

/-- `ROOT_BASE`: the null page stays out of every tree. -/
def rootBase : Word := 0x1000

/-- `ROOT_PROT`. -/
def rootProt : VmProt := vm_prot.READ ||| vm_prot.WRITE ||| vm_prot.EXECUTE ||| vm_prot.USER

/-- `make_root`: the low canonical half minus the null page. -/
def makeRoot (arch : Arch) : Region := .mk rootBase (arch.lowLimit - rootBase) rootProt []

theorem makeRoot_wellFormed (arch : Arch) : (makeRoot arch).WellFormed := by
  refine .intro ⟨?_, ?_, List.Pairwise.nil, fun c hc => by cases hc⟩ fun r hr => by cases hr
  · cases arch <;> decide
  · cases arch <;> decide

namespace Space

/-- A fresh address space (`vm_aspace::init`). -/
def init (arch : Arch) (vm : VmState) : Space := ⟨makeRoot arch, vm⟩

/-- One call, on the region its path names; a path that names no region reaches nothing. -/
def step (t : Space) (op : RegionOp) : Space × Except Errc Unit :=
  match t.root.modifyAt (fun r => ((op.apply t.vm r).1, (op.apply t.vm r).2)) op.path with
  | none => (t, .error .nullArgument)
  | some (root, vm, res) => (⟨root, vm⟩, res)

variable {t : Space} {op : RegionOp}

/-- What a step does: a path that names no region fails and changes nothing; otherwise the
tree and the VM state are the call's. -/
theorem step_cases (t : Space) (op : RegionOp) :
    (t.root.modifyAt (fun r => ((op.apply t.vm r).1, (op.apply t.vm r).2)) op.path = none ∧
        t.step op = (t, .error .nullArgument)) ∨
      ∃ root vm res, t.root.modifyAt (fun r => ((op.apply t.vm r).1, (op.apply t.vm r).2)) op.path =
        some (root, vm, res) ∧ t.step op = (⟨root, vm⟩, res) := by
  unfold step
  split
  · exact .inl ⟨by assumption, rfl⟩
  · exact .inr ⟨_, _, _, by assumption, rfl⟩

theorem step_wellFormed (ht : t.root.WellFormed) (op : RegionOp) : (t.step op).1.root.WellFormed := by
  rcases step_cases t op with ⟨-, hs⟩ | ⟨root, vm, res, h, hs⟩ <;> rw [hs]
  · exact ht
  · exact (modifyAt_wellFormed (fun r hr => ⟨(op.apply_keeps t.vm hr).wellFormed,
      (op.apply_keeps t.vm hr).sameRange⟩) op.path ht h).1

/-- The root keeps its range and max protection. -/
theorem step_sameRange (ht : t.root.WellFormed) (op : RegionOp) :
    SameRange t.root (t.step op).1.root := by
  rcases step_cases t op with ⟨-, hs⟩ | ⟨root, vm, res, h, hs⟩ <;> rw [hs]
  · exact SameRange.refl _
  · exact (modifyAt_wellFormed (fun r hr => ⟨(op.apply_keeps t.vm hr).wellFormed,
      (op.apply_keeps t.vm hr).sameRange⟩) op.path ht h).2

/-- The call on the region a path names, in the tree after the step. -/
theorem step_find? (ht : t.root.WellFormed) {root vm res}
    (h : t.root.modifyAt (fun r => ((op.apply t.vm r).1, (op.apply t.vm r).2)) op.path =
      some (root, vm, res)) :
    ∃ r, t.root.find? op.path = some r ∧ root.find? op.path = some (op.apply t.vm r).1 ∧
      (op.apply t.vm r).2.2 = res :=
  let ⟨_, r, hr, hr', hx⟩ := find?_modifyAt (fun _ hr => (op.apply_keeps t.vm hr).sameRange) op.path ht h
  ⟨r, hr, hr', congrArg Prod.snd hx⟩

/-- A failed call leaves the tree as it was. -/
theorem step_unchanged (ht : t.root.WellFormed) {e : Errc} (he : (t.step op).2 = .error e) :
    (t.step op).1.root = t.root := by
  rcases step_cases t op with ⟨-, hs⟩ | ⟨root, vm, res, h, hs⟩
  · rw [hs]
  · rw [hs] at he ⊢
    obtain ⟨r, hr, -, hres⟩ := step_find? ht h
    have hfix : (op.apply t.vm r).1 = r :=
      (op.apply_keeps t.vm (ht.find? op.path hr)).unchanged e (hres.trans he)
    exact modifyAt_unchanged op.path (fun r' hr' => by
      rw [hr] at hr'
      cases hr'
      exact hfix) h

end Space

/-- A region with the range and max protection of `r` is `r` with other children. -/
theorem eq_withChildren_of_sameRange {r r' : Region} (h : SameRange r r') :
    r' = r.withChildren r'.children := by
  obtain ⟨hb, hs, hp⟩ := h
  cases r'
  simp only [Region.base_mk, Region.size_mk, Region.maxProt_mk] at hb hs hp
  subst hb hs hp
  rfl

namespace Space

variable {t : Space}

/-- The children `unmap` keeps: those not inside the range. -/
def keptBy (r : Region) (base size : Word) : Region :=
  r.withChildren (r.children.filter fun c =>
    !decide (Inside lo len c base.toNat (base.toNat + size.toNat)))

/-- After a successful `unmap` on the region a path names, the path names that region with
exactly the children not inside the range. -/
theorem step_unmap (ht : t.root.WellFormed) {path : List Word} {base size : Word} {r : Region}
    (hr : t.root.find? path = some r) (hok : (t.step (.unmap path base size)).2 = .ok ()) :
    (t.step (.unmap path base size)).1.root.find? path = some (keptBy r base size) := by
  rcases step_cases t (.unmap path base size) with ⟨-, hs⟩ | ⟨root, vm, res, h, hs⟩ <;> rw [hs] at hok ⊢
  · cases hok
  · obtain ⟨r', hr', hfind, hres⟩ := step_find? ht h
    simp only [RegionOp.path] at hr' hfind
    rw [hr] at hr'
    cases hr'
    have hres' : (r.unmap t.vm base size).2.2 = .ok () := hres.trans hok
    have hwf := ht.find? path hr
    rw [hfind]
    simp only [RegionOp.apply, keptBy]
    rw [eq_withChildren_of_sameRange (unmap_keeps (s := t.vm) hwf base size).sameRange,
      unmap_children hwf.node hres']

/-- `unmap` on the region a path names fails when the range cuts through one of its slots. -/
theorem step_unmap_of_cut (ht : t.root.WellFormed) {path : List Word} {base size : Word}
    {r : Region} (hr : t.root.find? path = some r) {c : RegionChild} (hc : c ∈ r.children)
    (hm : Meets lo len c base.toNat (base.toNat + size.toNat))
    (hin : ¬ Inside lo len c base.toNat (base.toNat + size.toNat)) :
    ∃ e, (t.step (.unmap path base size)).2 = .error e := by
  rcases step_cases t (.unmap path base size) with ⟨-, hs⟩ | ⟨root, vm, res, h, hs⟩ <;> rw [hs]
  · exact ⟨_, rfl⟩
  · obtain ⟨r', hr', -, hres⟩ := step_find? ht h
    simp only [RegionOp.path] at hr'
    rw [hr] at hr'
    cases hr'
    obtain ⟨e, he⟩ := unmap_of_cut (s := t.vm) (ht.find? path hr).node hc hm hin
    refine ⟨e, ?_⟩
    rw [← hres]
    simp only [RegionOp.apply, he]

end Space

/-- The region tree of an address space, along every run of region calls from a fresh root:
every region of the tree has non-empty, page-aligned, sorted and pairwise disjoint children
inside its range and within its max protection (`NodeOk`), so every binding's protection is
within the max protection of every region above it; every failed call leaves the tree as it
was; `unmap` refuses a range that cuts through a slot, and a successful `unmap` removes
exactly the children inside its range. -/
theorem region_tree_invariant (arch : Arch) (vm : VmState) (ops : List RegionOp) :
    let t := (run Space.step (Space.init arch vm) ops).1
    t.root.WellFormed ∧
      (∀ path r, t.root.find? path = some r →
        NodeOk r ∧ ∀ b, r.HasBinding b → Submask b.prot r.maxProt) ∧
      (∀ op e, (t.step op).2 = .error e → (t.step op).1.root = t.root) ∧
      (∀ path base size r, t.root.find? path = some r →
        ((∃ c ∈ r.children, Meets lo len c base.toNat (base.toNat + size.toNat) ∧
            ¬ Inside lo len c base.toNat (base.toNat + size.toNat)) →
          ∃ e, (t.step (.unmap path base size)).2 = .error e) ∧
        ((t.step (.unmap path base size)).2 = .ok () →
          (t.step (.unmap path base size)).1.root.find? path = some (Space.keptBy r base size))) := by
  intro t
  have ht : t.root.WellFormed :=
    @run_invariant Space RegionOp (Except Errc Unit) Space.step (fun t => t.root.WellFormed)
      (fun _ op ht => Space.step_wellFormed ht op) _ (makeRoot_wellFormed arch) ops
  refine ⟨ht, fun path r hr => ?_, fun op e he => Space.step_unchanged ht he,
    fun path base size r hr => ⟨fun ⟨c, hc, hm, hin⟩ => Space.step_unmap_of_cut ht hr hc hm hin,
      Space.step_unmap ht hr⟩⟩
  have hwf := ht.find? path hr
  exact ⟨hwf.node, fun b hb => hwf.prot_of_hasBinding hb⟩

/-- An address space with one anonymous VMO of four pages. -/
def demoVm : VmState := ⟨0, PageMap.empty, [Vmo.create 4 .anonymous 1], 0⟩

/-- A sub-region, a binding in it, an overlapping binding, a first-fit binding in the root,
and an `unmap` that cuts through the sub-region. -/
def demoOps : List RegionOp :=
  [.createChild [] 0x100000 0x10000 (vm_prot.READ ||| vm_prot.WRITE) true true,
    .map [0x100000] 0x100000 0x2000 (some 0) 0 vm_prot.READ .cached true true,
    .map [0x100000] 0x101000 0x1000 (some 0) 0 vm_prot.READ .cached true true,
    .mapAnywhere [] 0 0x3000 (some 0) 0x1000 vm_prot.READ .cached true true,
    .unmap [] 0x100000 0x8000]

example : (run Space.step (Space.init .x86_64 demoVm) demoOps).2 =
    [.ok (), .ok (), .error .invalidOperation, .ok (), .error .invalidOperation] := by
  rfl

end Archipelago.Mm
