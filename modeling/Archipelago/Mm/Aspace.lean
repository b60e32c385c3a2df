import Archipelago.Mm.RegionEffects

/-! The VMM's state (`mm/vm_aspace.cpp`, `kernel/mm/vm_aspace.h`): every address space with
its root region, the translations of its user half and its fault counter; the VMO table;
the identity the next slot gets; and the global zero page. The kernel half of each space
(the HHDM and the kernel image, cloned from the boot tables) is not region-managed and is
not part of the map. A region call is made on one address space: the state it touches
(`VmState`) is cut out of the VMM and written back afterwards (`Vmm.writeBack`).

Three facts hold of every VMM state the calls reach (`Vmm.Inv`): each tree is well formed
with the root `make_root` gave it, every translation sits at an aligned page a binding of
its tree covers, and every VMO back-ref names a slot already made. -/

namespace Archipelago.Mm

open Archipelago.Lib Archipelago.Obj
open RegionChild (lo len)

/-- `vm_aspace`: the root region (`m_root`), the user-half translations its tables hold and
`m_faults`. -/
structure Aspace where
  root : Region
  pages : PageMap
  faults : Nat

/-- The VMM: the architecture built for, the address spaces, the VMO table, the next slot
identity and `g_zero_page`. -/
structure Vmm where
  arch : Arch
  aspaces : List Aspace
  vmos : List Vmo
  nextSlot : Nat
  zeroPage : Word

namespace Vmm

variable {w : Vmm}

def vmo (w : Vmm) (id : Nat) : Vmo := w.vmos.getD id default

def setVmo (w : Vmm) (id : Nat) (v : Vmo) : Vmm := { w with vmos := w.vmos.set id v }

def setAspace (w : Vmm) (i : Nat) (a : Aspace) : Vmm := { w with aspaces := w.aspaces.set i a }

/-- The state a call on address space `i` touches. -/
def vmState (w : Vmm) (i : Nat) (a : Aspace) : VmState := ⟨i, a.pages, w.vmos, w.nextSlot⟩

/-- Put back what a call on address space `i` changed: its tree and translations, the VMO
table and the slot counter. -/
def writeBack (w : Vmm) (i : Nat) (a : Aspace) (root : Region) (s : VmState) : Vmm :=
  { w with
    aspaces := w.aspaces.set i { a with root := root, pages := s.pages }
    vmos := s.vmos
    nextSlot := s.nextSlot }

/-- `vmm_init`: the kernel address space, with a fresh root and an empty user half, and the
zero page the PMM handed out. -/
def init (arch : Arch) (zeroPage : Word) : Vmm :=
  ⟨arch, [⟨makeRoot arch, PageMap.empty, 0⟩], [], 0, zeroPage⟩

/-- A kernel region call on address space `i`: `elf::map_image`, the stack and IPC-buffer
mappings of a new task, the IPC buffer's `unmap`. -/
def regionCall (w : Vmm) (i : Nat) (op : RegionOp) : Vmm × Except Errc Unit :=
  match w.aspaces[i]? with
  | none => (w, .error .nullArgument)
  | some a =>
    let (t, res) := Space.step ⟨a.root, w.vmState i a⟩ op
    (w.writeBack i a t.root t.vm, res)

/-- `vm_aspace::init` for a new task: the arch tables (`ok`) and `make_root`; the user half
starts empty. -/
def createAspace (w : Vmm) (ok : Bool) : Vmm × Bool :=
  if ok then ({ w with aspaces := w.aspaces ++ [⟨makeRoot w.arch, PageMap.empty, 0⟩] }, true)
  else (w, false)

/-- `create_anonymous_vmo`, `create_device_vmo`, `create_wired_vmo`: a new VMO at the end of
the table when its `make_ref` succeeds (`ok`), with `pushed` chunk slots. -/
def createVmo (w : Vmm) (pages : Word) (pager : Pager) (pushed : Nat) (ok : Bool) :
    Vmm × Option Nat :=
  if ok then ({ w with vmos := w.vmos ++ [Vmo.create pages pager pushed] }, some w.vmos.length)
  else (w, none)

/-- `vmo::commit` on a VMO of the table. -/
def commitVmo (w : Vmm) (id : Nat) (page count : Word) (frames : List (Option Word × Option Word)) :
    Vmm × Except Errc Unit :=
  let (v, res) := (w.vmo id).commit page count frames
  (w.setVmo id v, res)

@[simp] theorem arch_setVmo (i : Nat) (v : Vmo) : (w.setVmo i v).arch = w.arch := rfl
@[simp] theorem aspaces_setVmo (i : Nat) (v : Vmo) : (w.setVmo i v).aspaces = w.aspaces := rfl
@[simp] theorem nextSlot_setVmo (i : Nat) (v : Vmo) : (w.setVmo i v).nextSlot = w.nextSlot := rfl
@[simp] theorem zeroPage_setVmo (i : Nat) (v : Vmo) : (w.setVmo i v).zeroPage = w.zeroPage := rfl
@[simp] theorem arch_setAspace (i : Nat) (a : Aspace) : (w.setAspace i a).arch = w.arch := rfl
@[simp] theorem vmos_setAspace (i : Nat) (a : Aspace) : (w.setAspace i a).vmos = w.vmos := rfl
@[simp] theorem vmo_setAspace (i j : Nat) (a : Aspace) : (w.setAspace i a).vmo j = w.vmo j := rfl
@[simp] theorem nextSlot_setAspace (i : Nat) (a : Aspace) :
    (w.setAspace i a).nextSlot = w.nextSlot := rfl
@[simp] theorem zeroPage_setAspace (i : Nat) (a : Aspace) :
    (w.setAspace i a).zeroPage = w.zeroPage := rfl
@[simp] theorem aspaces_setAspace (i : Nat) (a : Aspace) :
    (w.setAspace i a).aspaces = w.aspaces.set i a := rfl
@[simp] theorem arch_writeBack (i : Nat) (a : Aspace) (r : Region) (s : VmState) :
    (w.writeBack i a r s).arch = w.arch := rfl
@[simp] theorem zeroPage_writeBack (i : Nat) (a : Aspace) (r : Region) (s : VmState) :
    (w.writeBack i a r s).zeroPage = w.zeroPage := rfl

theorem vmo_setVmo (i j : Nat) (v : Vmo) :
    (w.setVmo i v).vmo j = if i = j ∧ i < w.vmos.length then v else w.vmo j :=
  getD_set _ _ _ _ _

/-- A read past the VMO table finds the empty VMO. -/
theorem vmo_of_length_le {id : Nat} (h : w.vmos.length ≤ id) : w.vmo id = default := by
  simp [vmo, List.getD_eq_getElem?_getD, List.getElem?_eq_none h]

/-- After a new VMO is appended, a VMO of the table is an old one or the new one. -/
theorem vmo_push (v : Vmo) (id : Nat) :
    ({ w with vmos := w.vmos ++ [v] } : Vmm).vmo id = w.vmo id ∨
      ({ w with vmos := w.vmos ++ [v] } : Vmm).vmo id = v :=
  getD_append_singleton _ _ _ _

/-- A region call on an existing space writes back what the call on its tree returned. -/
theorem regionCall_of_some {i : Nat} {a : Aspace} (ha : w.aspaces[i]? = some a) (op : RegionOp) :
    w.regionCall i op =
      (w.writeBack i a (Space.step ⟨a.root, w.vmState i a⟩ op).1.root
        (Space.step ⟨a.root, w.vmState i a⟩ op).1.vm, (Space.step ⟨a.root, w.vmState i a⟩ op).2) := by
  simp [regionCall, ha]

theorem regionCall_of_none {i : Nat} (ha : w.aspaces[i]? = none) (op : RegionOp) :
    w.regionCall i op = (w, .error .nullArgument) := by
  simp [regionCall, ha]

theorem vmo_writeBack (i : Nat) (a : Aspace) (r : Region) (s : VmState) (id : Nat) :
    (w.writeBack i a r s).vmo id = s.vmo id := rfl

/-- The address space `i` after a write-back to it, and every other one unchanged. -/
theorem getElem?_writeBack {i j : Nat} {a : Aspace} (ha : w.aspaces[i]? = some a) (r : Region)
    (s : VmState) :
    (w.writeBack i a r s).aspaces[j]? =
      if i = j then some { a with root := r, pages := s.pages } else w.aspaces[j]? := by
  simp only [writeBack, List.getElem?_set]
  split
  · subst_vars
    simp [(List.getElem?_eq_some_iff.1 ha).1]
  · rfl

/-- Writing back what a call left as it was changes no address space. -/
theorem aspaces_writeBack_of_same {i : Nat} {a : Aspace} (ha : w.aspaces[i]? = some a) {s : VmState}
    (hpages : s.pages = a.pages) : (w.writeBack i a a.root s).aspaces = w.aspaces := by
  obtain ⟨hi, hai⟩ := List.getElem?_eq_some_iff.1 ha
  simp only [writeBack, hpages]
  rw [← hai]
  exact List.set_getElem_self hi

/-- Writing back a call that changed nothing changes nothing. -/
theorem writeBack_self {i : Nat} {a : Aspace} (ha : w.aspaces[i]? = some a) :
    w.writeBack i a a.root (w.vmState i a) = w := by
  have h := aspaces_writeBack_of_same ha (s := w.vmState i a) rfl
  simp only [writeBack, vmState] at h ⊢
  rw [h]

theorem getElem?_setAspace {i j : Nat} {a a' : Aspace} (ha : w.aspaces[i]? = some a) :
    (w.setAspace i a').aspaces[j]? = if i = j then some a' else w.aspaces[j]? := by
  simp only [setAspace, List.getElem?_set]
  split
  · subst_vars
    simp [(List.getElem?_eq_some_iff.1 ha).1]
  · rfl

end Vmm

/-! ## The VMM invariant -/

namespace Vmm

/-- Every tree is well formed and has the range and protection `make_root` gave it. -/
def TreesOk (w : Vmm) : Prop :=
  ∀ (i : Nat) (a : Aspace), w.aspaces[i]? = some a → a.root.WellFormed ∧ SameRange (makeRoot w.arch) a.root

/-- Every translation is at an aligned page some binding of its tree covers. -/
def Backed (w : Vmm) : Prop :=
  ∀ (i : Nat) (a : Aspace), w.aspaces[i]? = some a → ∀ v t, a.pages v = some t → pageAligned v = true ∧ a.root.Covers v

/-- Every VMO back-ref names a slot already made. -/
def SlotsFresh (w : Vmm) : Prop := ∀ id, ∀ m ∈ (w.vmo id).mappings, m.binding < w.nextSlot

/-- What every reachable VMM state satisfies. -/
structure Inv (w : Vmm) : Prop where
  trees : w.TreesOk
  backed : w.Backed
  fresh : w.SlotsFresh

variable {w : Vmm}

theorem inv_init (arch : Arch) (zeroPage : Word) : (init arch zeroPage).Inv where
  trees i a ha := by
    match i, ha with
    | 0, ha =>
      cases ha
      exact ⟨makeRoot_wellFormed arch, SameRange.refl _⟩
  backed i a ha v t hv := by
    match i, ha with
    | 0, ha =>
      cases ha
      cases hv
  fresh id m hm := by
    simp [vmo, init] at hm

/-- Writing back a call on address space `i` keeps the invariant, when the new tree is well
formed with the old range and the call had only the effects `CallEffect` allows: translations
only cleared and still covered, back-refs only to the slots it made. -/
theorem Inv.writeBack (hw : w.Inv) {i : Nat} {a : Aspace} (ha : w.aspaces[i]? = some a)
    {root : Region} {s : VmState} (hwf : root.WellFormed) (hsame : SameRange a.root root)
    (he : CallEffect a.root root (w.vmState i a) s) : (w.writeBack i a root s).Inv := by
  refine ⟨fun j a' ha' => ?_, fun j a' ha' v tr hv => ?_, fun id m hm => ?_⟩
  · rw [getElem?_writeBack ha] at ha'
    split at ha'
    · cases ha'
      exact ⟨hwf, (hw.trees i a ha).2.trans hsame⟩
    · exact hw.trees j a' ha'
  · rw [getElem?_writeBack ha] at ha'
    split at ha'
    · -- a surviving translation was there before, covered by the old tree
      cases ha'
      have hold := he.evolves.pages v tr hv
      obtain ⟨hal, hcov⟩ := hw.backed i a ha v tr hold
      exact ⟨hal, he.covers v tr hal hv hcov⟩
    · exact hw.backed j a' ha' v tr hv
  · rw [vmo_writeBack] at hm
    rcases he.evolves.mappings id m hm with hm | hm
    · exact Nat.lt_of_lt_of_le (hw.fresh id m hm) he.evolves.nextSlot
    · exact hm.2

/-- A region call keeps the invariant: the tree it is made on stays well formed with its
range, translations are only cleared and stay covered, and a back-ref it records names the
slot it made. -/
theorem Inv.regionCall (hw : w.Inv) (i : Nat) (op : RegionOp) : (w.regionCall i op).1.Inv := by
  cases ha : w.aspaces[i]? with
  | none =>
    rw [regionCall_of_none ha]
    exact hw
  | some a =>
    rw [regionCall_of_some ha]
    have ht : (Space.mk a.root (w.vmState i a)).root.WellFormed := (hw.trees i a ha).1
    exact hw.writeBack ha (Space.step_wellFormed ht op) (Space.step_sameRange ht op)
      (Space.step_effect ht op)

theorem Inv.createAspace (hw : w.Inv) (ok : Bool) : (w.createAspace ok).1.Inv := by
  unfold Vmm.createAspace
  split
  · -- the new space is a fresh root with no translations
    refine ⟨fun j a ha => ?_, fun j a ha v t hv => ?_, hw.fresh⟩
    · rcases getElem?_append_singleton ha with ha | rfl
      · exact hw.trees j a ha
      · exact ⟨makeRoot_wellFormed _, SameRange.refl _⟩
    · rcases getElem?_append_singleton ha with ha | rfl
      · exact hw.backed j a ha v t hv
      · cases hv
  · exact hw

theorem Inv.createVmo (hw : w.Inv) (pages : Word) (pager : Pager) (pushed : Nat) (ok : Bool) :
    (w.createVmo pages pager pushed ok).1.Inv := by
  unfold Vmm.createVmo
  split
  · -- the new VMO has no back-refs; the others are the old ones
    refine ⟨hw.trees, hw.backed, fun id m hm => ?_⟩
    rcases vmo_push (Vmo.create pages pager pushed) id with h | h
    · rw [h] at hm
      exact hw.fresh id m hm
    · rw [h, Vmo.create_mappings] at hm
      cases hm
  · exact hw

theorem Inv.commitVmo (hw : w.Inv) (id : Nat) (page count : Word)
    (frames : List (Option Word × Option Word)) : (w.commitVmo id page count frames).1.Inv := by
  refine ⟨hw.trees, hw.backed, fun id' m hm => ?_⟩
  simp only [Vmm.commitVmo, vmo_setVmo] at hm
  split at hm
  · rename_i h
    obtain ⟨rfl, -⟩ := h
    rw [(Vmo.commit_fields _ _ _ _).2.2] at hm
    exact hw.fresh id m hm
  · exact hw.fresh id' m hm

end Vmm

end Archipelago.Mm
