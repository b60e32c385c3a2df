import Archipelago.Lib.Intervals
import Archipelago.Mm.Vmo

/-! Region trees (`mm/region.cpp`, `kernel/mm/region.h`). A region owns `[base, base+size)`
and a max protection; its children are slots keyed by base in a red-black tree, each a
sub-region or a VMO binding. The tree is modelled by its in-order sequence: `find_le` is
`lastWhere` on it, `lower_bound` is `dropWhile`, `insert` is `insertBy`, and iteration is the
list order.

`insert_slot` links an empty slot that its caller then fills in place (a sub-region, or a
VMO with offset and cache); under the VMM lock nobody sees the empty slot, so the model
links the filled slot, and where the source unwinds with `remove_slot` the model applies
`remove_slot`'s effects (`RegionChild.tearDown`) without linking. A sub-region slot's base,
size and prot are those of the region it holds, so the slot is the region.

Allocation is the environment: `new region_child`, `make_ref<Region>` and the back-ref
`push_back` of `vmo::add_mapping` each take a `Bool` saying whether they succeeded. -/

namespace Archipelago.Mm

open Archipelago.Lib Archipelago.Obj

/-- A `region_child` holding a VMO binding (`child` null): the slot's identity (its
address, which VMO back-refs record), its range, the VMO (`vmo_ref`, null or an index into
the VMO table), the offset, protection and cache mode. -/
structure Binding where
  slot : Nat
  base : Word
  size : Word
  vmo : Option Nat
  vmoOffset : Word
  prot : VmProt
  cache : VmCacheMode
  deriving DecidableEq, Repr

mutual

/-- `Region`: `m_base`, `m_size`, `m_max_prot` and the in-order sequence of `m_children`. -/
inductive Region where
  | mk (base size : Word) (maxProt : VmProt) (children : List RegionChild)

/-- `region_child`: a sub-region slot or a binding slot. -/
inductive RegionChild where
  | region (r : Region)
  | binding (b : Binding)

end

namespace Region

def base : Region → Word
  | mk base _ _ _ => base

def size : Region → Word
  | mk _ size _ _ => size

def maxProt : Region → VmProt
  | mk _ _ maxProt _ => maxProt

def children : Region → List RegionChild
  | mk _ _ _ children => children

/-- The same region with other children. -/
def withChildren (r : Region) (children : List RegionChild) : Region :=
  mk r.base r.size r.maxProt children

@[simp] theorem base_mk (b s : Word) (p : VmProt) (cs : List RegionChild) : (mk b s p cs).base = b := rfl
@[simp] theorem size_mk (b s : Word) (p : VmProt) (cs : List RegionChild) : (mk b s p cs).size = s := rfl
@[simp] theorem maxProt_mk (b s : Word) (p : VmProt) (cs : List RegionChild) :
    (mk b s p cs).maxProt = p := rfl
@[simp] theorem children_mk (b s : Word) (p : VmProt) (cs : List RegionChild) :
    (mk b s p cs).children = cs := rfl
@[simp] theorem base_withChildren (r : Region) (cs : List RegionChild) :
    (r.withChildren cs).base = r.base := rfl
@[simp] theorem size_withChildren (r : Region) (cs : List RegionChild) :
    (r.withChildren cs).size = r.size := rfl
@[simp] theorem maxProt_withChildren (r : Region) (cs : List RegionChild) :
    (r.withChildren cs).maxProt = r.maxProt := rfl
@[simp] theorem children_withChildren (r : Region) (cs : List RegionChild) :
    (r.withChildren cs).children = cs := rfl

theorem withChildren_children (r : Region) : r.withChildren r.children = r := by
  cases r
  rfl

end Region

namespace RegionChild

/-- `region_child::base`. -/
def base : RegionChild → Word
  | region r => r.base
  | binding b => b.base

/-- `region_child::size`. -/
def size : RegionChild → Word
  | region r => r.size
  | binding b => b.size

/-- `region_child::prot`: a binding's protection, a sub-region's max protection. -/
def prot : RegionChild → VmProt
  | region r => r.maxProt
  | binding b => b.prot

/-- `region_child::is_binding`. -/
def isBinding : RegionChild → Bool
  | region _ => false
  | binding _ => true

@[simp] theorem base_region (r : Region) : (region r).base = r.base := rfl
@[simp] theorem base_binding (b : Binding) : (binding b).base = b.base := rfl
@[simp] theorem size_region (r : Region) : (region r).size = r.size := rfl
@[simp] theorem size_binding (b : Binding) : (binding b).size = b.size := rfl
@[simp] theorem prot_region (r : Region) : (region r).prot = r.maxProt := rfl
@[simp] theorem prot_binding (b : Binding) : (binding b).prot = b.prot := rfl

end RegionChild

/-! ## What a region's calls touch besides the region -/

/-- The address space a region belongs to (`m_aspace`: its identity, which back-refs record,
and its translations), the VMO table and the identity the next slot gets. -/
structure VmState where
  aspace : Nat
  pages : PageMap
  vmos : List Vmo
  nextSlot : Nat

namespace VmState

def vmo (s : VmState) (id : Nat) : Vmo := s.vmos.getD id default

def setVmo (s : VmState) (id : Nat) (v : Vmo) : VmState := { s with vmos := s.vmos.set id v }

/-- `Region::zap_range` on the region's address space. -/
def zap (s : VmState) (base size : Word) : VmState := { s with pages := s.pages.zapRange base size }

/-- `vmo::remove_mapping` on a VMO of the table. -/
def removeMapping (s : VmState) (id slot : Nat) : VmState := s.setVmo id ((s.vmo id).removeMapping slot)

@[simp] theorem aspace_zap (s : VmState) (b z : Word) : (s.zap b z).aspace = s.aspace := rfl
@[simp] theorem vmos_zap (s : VmState) (b z : Word) : (s.zap b z).vmos = s.vmos := rfl
@[simp] theorem nextSlot_zap (s : VmState) (b z : Word) : (s.zap b z).nextSlot = s.nextSlot := rfl
@[simp] theorem pages_zap (s : VmState) (b z : Word) : (s.zap b z).pages = s.pages.zapRange b z := rfl
@[simp] theorem aspace_setVmo (s : VmState) (i : Nat) (v : Vmo) : (s.setVmo i v).aspace = s.aspace := rfl
@[simp] theorem pages_setVmo (s : VmState) (i : Nat) (v : Vmo) : (s.setVmo i v).pages = s.pages := rfl
@[simp] theorem nextSlot_setVmo (s : VmState) (i : Nat) (v : Vmo) :
    (s.setVmo i v).nextSlot = s.nextSlot := rfl
@[simp] theorem vmos_setVmo (s : VmState) (i : Nat) (v : Vmo) : (s.setVmo i v).vmos = s.vmos.set i v := rfl
@[simp] theorem aspace_removeMapping (s : VmState) (i b : Nat) :
    (s.removeMapping i b).aspace = s.aspace := rfl
@[simp] theorem pages_removeMapping (s : VmState) (i b : Nat) :
    (s.removeMapping i b).pages = s.pages := rfl
@[simp] theorem nextSlot_removeMapping (s : VmState) (i b : Nat) :
    (s.removeMapping i b).nextSlot = s.nextSlot := rfl

end VmState

/-! ## Tearing a slot down -/

mutual

/-- What `Region::remove_slot` does besides unlinking: a binding's translations are zapped
and its back-ref dropped; a sub-region is emptied (`clear_children`). -/
def RegionChild.tearDown : RegionChild → VmState → VmState
  | .binding b, s =>
    match b.vmo with
    | none => s.zap b.base b.size
    | some id => (s.zap b.base b.size).removeMapping id b.slot
  | .region r, s => r.clearChildren s

/-- `Region::clear_children`: `remove_slot` of the first child until none is left. -/
def Region.clearChildren : Region → VmState → VmState
  | .mk _ _ _ children, s => tearDownAll children s

/-- `remove_slot` of each slot of a run, in order. -/
def tearDownAll : List RegionChild → VmState → VmState
  | [], s => s
  | c :: cs, s => tearDownAll cs (c.tearDown s)

end

/-! ## Lookup -/

mutual

/-- `Region::find_binding`: the deepest binding slot containing `vaddr`. -/
def Region.findBinding : Region → Word → Option Binding
  | .mk _ _ _ children, vaddr => findBindingIn children vaddr

/-- `find_binding` over a child sequence: only the last slot starting at or below `vaddr`
(`find_le`) can contain it. -/
def findBindingIn : List RegionChild → Word → Option Binding
  | [], _ => none
  | c :: cs, vaddr =>
    if cs.any (fun d => d.base ≤ vaddr) then findBindingIn cs vaddr
    else if c.base ≤ vaddr ∧ vaddr < c.base + c.size then c.descend vaddr
    else none

/-- A sub-region slot is descended into; a binding slot is the answer. -/
def RegionChild.descend : RegionChild → Word → Option Binding
  | .region r, vaddr => r.findBinding vaddr
  | .binding b, _ => some b

end

/-! ## The calls -/

namespace Region

/-- `m_children.insert(*slot)`: the rb-tree refuses a duplicate base, and `insert_slot`
ignores the refusal. -/
def link (r : Region) (c : RegionChild) : Region :=
  r.withChildren ((insertBy (fun a b => decide (a.base < b.base)) c r.children).getD r.children)

/-- `Region::insert_slot`'s checks and its `new region_child`: bounds and alignment, the wrap
of `base + size`, containment, protection, and overlap with the last sibling starting
before the end. -/
def insertSlot (r : Region) (base size : Word) (prot : VmProt) (alloc : Bool) : Except Errc Unit :=
  if size = 0 || !pageAligned base || !pageAligned size then .error .invalidOperation
  else
    let rangeEnd := base + size
    if rangeEnd < base then .error .outOfRange
    else if base < r.base || r.base + r.size < rangeEnd then .error .outOfRange
    else if !protWithin prot r.maxProt then .error .rightsViolation
    else if (lastWhere (fun c => c.base ≤ rangeEnd - 1) r.children).any
        (fun c => base < c.base + c.size) then .error .invalidOperation
    else if !alloc then .error .oom
    else .ok ()

/-- `Region::create_child`: a fresh empty sub-region in a new slot; when `make_ref<Region>`
fails the empty slot is removed again. -/
def createChild (s : VmState) (r : Region) (base size : Word) (maxProt : VmProt)
    (allocSlot allocRegion : Bool) : Region × VmState × Except Errc Unit :=
  match r.insertSlot base size maxProt allocSlot with
  | .error e => (r, s, .error e)
  | .ok () =>
    let s := { s with nextSlot := s.nextSlot + 1 }
    if allocRegion then (r.link (.region (mk base size maxProt [])), s, .ok ())
    else (r, s.zap base size, .error .oom)

/-- `Region::map_locked`: the VMO range check (aligned offset, no wrap of
`vmo_offset + size`, ending within the VMO), the slot, the cache mode degraded toward the
pager's, and the back-ref; a failed back-ref removes the slot again. -/
def mapLocked (s : VmState) (r : Region) (vaddr size : Word) (vmo : Option Nat) (vmoOffset : Word)
    (prot : VmProt) (cache : VmCacheMode) (allocSlot addOk : Bool) :
    Region × VmState × Except Errc Unit :=
  let rangeCheck : Except Errc Unit :=
    match vmo with
    | none => .ok ()
    | some id =>
      if !pageAligned vmoOffset then .error .invalidOperation
      else if vmoOffset + size < vmoOffset || (s.vmo id).pages < (vmoOffset + size) / pageSize then
        .error .outOfRange
      else .ok ()
  match rangeCheck with
  | .error e => (r, s, .error e)
  | .ok () =>
    match r.insertSlot vaddr size prot allocSlot with
    | .error e => (r, s, .error e)
    | .ok () =>
      let slot := s.nextSlot
      let s := { s with nextSlot := s.nextSlot + 1 }
      match vmo with
      | none => (r.link (.binding ⟨slot, vaddr, size, none, vmoOffset, prot, cache⟩), s, .ok ())
      | some id =>
        let b : Binding :=
          ⟨slot, vaddr, size, some id, vmoOffset, prot, stricterCache cache (s.vmo id).pager.cacheMode⟩
        match (s.vmo id).addMapping addOk s.aspace slot with
        | (v, true) => (r.link (.binding b), s.setVmo id v, .ok ())
        | (_, false) => (r, (RegionChild.binding b).tearDown s, .error .oom)

/-- `Region::map`: `map_locked` under the VMM lock. -/
def map (s : VmState) (r : Region) (vaddr size : Word) (vmo : Option Nat) (vmoOffset : Word)
    (prot : VmProt) (cache : VmCacheMode) (allocSlot addOk : Bool) :
    Region × VmState × Except Errc Unit :=
  r.mapLocked s vaddr size vmo vmoOffset prot cache allocSlot addOk

/-- The search loop of `Region::map_anywhere`: children in address order, the cursor always
past every slot already seen; the first gap that fits wins. -/
def gapScan (size : Word) : Word → List RegionChild → Word
  | cursor, [] => cursor
  | cursor, c :: cs =>
    let slotEnd := c.base + c.size
    if slotEnd ≤ cursor then gapScan size cursor cs
    else if cursor ≤ c.base && size ≤ c.base - cursor then cursor
    else gapScan size slotEnd cs

/-- `Region::map_anywhere`: bind at the lowest gap at or above `floor` that fits, and return
its base. -/
def mapAnywhere (s : VmState) (r : Region) (floor size : Word) (vmo : Option Nat)
    (vmoOffset : Word) (prot : VmProt) (cache : VmCacheMode) (allocSlot addOk : Bool) :
    Region × VmState × Except Errc Word :=
  if size = 0 || !pageAligned size || !pageAligned floor then (r, s, .error .invalidOperation)
  else
    let cursor := gapScan size (if r.base < floor then floor else r.base) r.children
    let rangeEnd := r.base + r.size
    if rangeEnd < cursor || rangeEnd - cursor < size then (r, s, .error .capacityExhausted)
    else
      match r.mapLocked s cursor size vmo vmoOffset prot cache allocSlot addOk with
      | (r', s', .error e) => (r', s', .error e)
      | (r', s', .ok ()) => (r', s', .ok cursor)

/-- `Region::unmap_binding`: remove the direct-child binding containing `vaddr`; a sub-region
is not descended into. -/
def unmapBinding (s : VmState) (r : Region) (vaddr : Word) : Region × VmState × Except Errc Unit :=
  match lastWhere (fun c => c.base ≤ vaddr) r.children with
  | some (.binding b) =>
    if vaddr < b.base + b.size then
      (r.withChildren (eraseLastWhere (fun c => c.base ≤ vaddr) r.children),
        (RegionChild.binding b).tearDown s, .ok ())
    else (r, s, .error .outOfRange)
  | _ => (r, s, .error .outOfRange)

/-- The removal loop of `Region::unmap` from `lower_bound(base)`: each slot starting before
the end is removed (the iterator advances first), the rest are kept. -/
def unmapRun (rangeEnd : Word) : VmState → List RegionChild → VmState × List RegionChild
  | s, [] => (s, [])
  | s, c :: cs => if c.base < rangeEnd then unmapRun rangeEnd (c.tearDown s) cs else (s, c :: cs)

/-- A slot the range `[base, rangeEnd)` cuts through: it overlaps without being contained. -/
def cutBy (base rangeEnd : Word) (c : RegionChild) : Bool :=
  let slotEnd := c.base + c.size
  (c.base < rangeEnd && base < slotEnd) && !(base ≤ c.base && slotEnd ≤ rangeEnd)

/-- `Region::unmap`: remove every child fully contained in `[base, base+size)`; a range that
cuts through a slot is refused before anything is removed. -/
def unmap (s : VmState) (r : Region) (base size : Word) : Region × VmState × Except Errc Unit :=
  let rangeEnd := base + size
  if rangeEnd < base || base < r.base || r.base + r.size < rangeEnd then (r, s, .error .outOfRange)
  else if r.children.any (cutBy base rangeEnd) then (r, s, .error .invalidOperation)
  else
    let (s', kept) := unmapRun rangeEnd s (r.children.dropWhile fun c => c.base < base)
    (r.withChildren (r.children.takeWhile (fun c => c.base < base) ++ kept), s', .ok ())

end Region

/-! ## Addressing a region of the tree -/

/-- The sub-region a slot holds, when it starts at `b`. -/
def RegionChild.regionAt (b : Word) : RegionChild → Option Region
  | .region r => if r.base = b then some r else none
  | .binding _ => none

namespace Region

/-- The region reached from `r` through the sub-region slots starting at the bases of
`path`: the model's name for a `ktl::ref<Region>` into the tree. -/
def find? : Region → List Word → Option Region
  | r, [] => some r
  | r, b :: path =>
    match r.children.findSome? (RegionChild.regionAt b) with
    | none => none
    | some r' => r'.find? path

/-- Apply a call to the region at `path` and put the result back in its slot. -/
def modifyAt {β : Type} (f : Region → Region × β) : List Word → Region → Option (Region × β)
  | [], r => some (f r)
  | b :: path, r =>
    match r.children.findIdx? (fun c => (c.regionAt b).isSome) with
    | none => none
    | some i =>
      match r.children[i]? with
      | some (.region r') =>
        (modifyAt f path r').map fun (r'', x) => (r.withChildren (r.children.set i (.region r'')), x)
      | _ => none

@[simp] theorem find?_nil (r : Region) : r.find? [] = some r := rfl

/-- One step down a path: the first sub-region slot at its base, then the rest of the path. -/
theorem find?_cons (r : Region) (b : Word) (path : List Word) :
    r.find? (b :: path) = (r.children.findSome? (RegionChild.regionAt b)).bind (·.find? path) := by
  simp only [find?]
  cases r.children.findSome? (RegionChild.regionAt b) <;> rfl

@[simp] theorem modifyAt_nil {β : Type} (f : Region → Region × β) (r : Region) :
    r.modifyAt f [] = some (f r) := rfl

end Region

end Archipelago.Mm
