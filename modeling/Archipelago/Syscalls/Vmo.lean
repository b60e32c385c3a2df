import Archipelago.Mm.VmmRuns
import Archipelago.Mm.RegionSpec
import Archipelago.Obj.HandleRights

/-! The VMO syscalls (`syscalls/vmo.cpp`) over a world of tasks, each with a handle table and,
for user tasks, an address space of the VMM. `sys_vmo_create` makes an anonymous VMO and
hands the caller a handle to it; `sys_vmo_map` checks the protection against its whitelist,
turns it into the rights the handle must carry, verifies the handle, and binds the VMO in the
root region of the caller's address space, at the address asked for or at the first fit above
`USER_MAP_FLOOR`; `sys_vmo_unmap` removes the root-level binding containing an address.

A successful map returns a base inside the root region, below `low_limit`, so its return
register is non-negative as a signed word, and every error is `errc_of`, negative: the sign
tells the two apart (`sysVmoMap_ok`, `sysVmoMap_error`).

Modelling choices: each syscall is one step under the VMM lock; a VMO object's id is its
index in the VMM's VMO table; whether an allocation succeeds and how far a handle table can
grow are arguments; a new task comes with an empty table and a fresh address space, and the
kernel's image and stack mappings into it are region calls of the VMM. -/

namespace Archipelago.Syscalls

open Archipelago.Lib Archipelago.Obj Archipelago.Mm
open RegionChild (lo len)

namespace abi

/-- `VM_PROT_READ` of the syscall ABI. -/
def VM_PROT_READ : Word := 1 <<< 0
/-- `VM_PROT_WRITE` of the syscall ABI. -/
def VM_PROT_WRITE : Word := 1 <<< 1

end abi

/-- `MAPPABLE`: the only protection bits a user mapping may ask for. -/
def mappable : Word := abi.VM_PROT_READ ||| abi.VM_PROT_WRITE

/-- `USER_MAP_FLOOR`: where the kernel-picked search starts. -/
def userMapFloor : Word := 0x20000000

/-- `errc_of`: the error code cast to the 64-bit return register. -/
def errcOf (e : Errc) : Word := BitVec.ofInt 64 e.value

/-- The return register of a call that yields a value or an error. -/
def returnValue : Except Errc Word → Word
  | .ok v => v
  | .error e => errcOf e

/-- `sys_vmo_map`'s `needed`: each requested protection needs the matching right. -/
def neededRights (prot : Word) : Rights :=
  (if prot &&& abi.VM_PROT_READ ≠ 0 then rightRead else 0) |||
    (if prot &&& abi.VM_PROT_WRITE ≠ 0 then rightWrite else 0)

/-- `sys_vmo_map`'s `kprot`: the protection as a `vm_prot_t`, with USER. -/
def userProt (prot : Word) : VmProt := prot.setWidth 32 ||| vm_prot.USER

/-- The tasks' handle tables, the address space each task has (none for a kernel task), the
type registry and the VMM. -/
structure VmoWorld where
  vmm : Vmm
  registry : TypeRegistry
  tables : List HandleTable
  aspaceOf : List (Option Nat)

namespace VmoWorld

/-- `task->handles()`. -/
def table (w : VmoWorld) (k : Nat) : HandleTable := w.tables.getD k {}

def setTable (w : VmoWorld) (k : Nat) (t : HandleTable) : VmoWorld :=
  { w with tables := w.tables.set k t }

/-- `task->aspace()`. -/
def aspace (w : VmoWorld) (k : Nat) : Option Nat := w.aspaceOf.getD k none

/-- `sys_vmo_create`: a size of whole pages, an anonymous VMO (`ok` when its `make_ref`
succeeds, with `pushed` chunk slots), and a handle to it with read and write rights. When the
insert fails its only reference drops and the VMO goes with it. -/
def sysVmoCreate (w : VmoWorld) (caller : Nat) (size : Word) (pushed : Nat) (ok : Bool)
    (room : Nat) : VmoWorld × Except Errc HandleId :=
  if size = 0 || size % Mm.pageSize != 0 then (w, .error .invalidOperation)
  else
    match w.vmm.createVmo (size / Mm.pageSize) .anonymous pushed ok with
    | (_, none) => (w, .error .oom)
    | (vmm, some id) =>
      match (w.table caller).insert w.registry (some ⟨id, type_ids.VMO⟩) (rightRead ||| rightWrite)
          room with
      | (t, .error e) => (w.setTable caller t, .error e)
      | (t, .ok h) => ({ w.setTable caller t with vmm := vmm }, .ok h)

/-- `sys_vmo_map`: the protection whitelist, the caller's address space, the handle's type and
rights, then `map_anywhere` from `USER_MAP_FLOOR` when `vaddr` is zero and `map` at `vaddr`
otherwise, on the root region. -/
def sysVmoMap (w : VmoWorld) (caller : Nat) (handle : HandleId) (vaddr vmoOffset length prot : Word)
    (allocSlot addOk : Bool) : VmoWorld × Word :=
  if prot = 0 || prot &&& ~~~mappable != 0 then (w, errcOf .invalidOperation)
  else
    match w.aspace caller with
    | none => (w, errcOf .invalidOperation)
    | some i =>
      match w.vmm.aspaces[i]? with
      | none => (w, errcOf .invalidOperation)
      | some a =>
        match (w.table caller).verify handle (neededRights prot) type_ids.VMO with
        | .error e => (w, errcOf e)
        | .ok v =>
          if vaddr = 0 then
            let (root, s, res) := a.root.mapAnywhere (w.vmm.vmState i a) userMapFloor length
              (some v.object.id) vmoOffset (userProt prot) .cached allocSlot addOk
            ({ w with vmm := w.vmm.writeBack i a root s }, returnValue res)
          else
            let (root, s, res) := a.root.map (w.vmm.vmState i a) vaddr length (some v.object.id)
              vmoOffset (userProt prot) .cached allocSlot addOk
            ({ w with vmm := w.vmm.writeBack i a root s }, returnValue (res.map fun _ => vaddr))

/-- `sys_vmo_unmap`: `unmap_binding` on the root region of the caller's address space. -/
def sysVmoUnmap (w : VmoWorld) (caller : Nat) (vaddr : Word) : VmoWorld × Word :=
  match w.aspace caller with
  | none => (w, errcOf .invalidOperation)
  | some i =>
    match w.vmm.aspaces[i]? with
    | none => (w, errcOf .invalidOperation)
    | some a =>
      let (root, s, res) := a.root.unmapBinding (w.vmm.vmState i a) vaddr
      ({ w with vmm := w.vmm.writeBack i a root s }, returnValue (res.map fun _ => 0))

/-- A new task, as `task_spawn` makes it: an empty handle table and, when `vm_aspace::init`
succeeds, a fresh address space of its own. -/
def addTask (w : VmoWorld) (ok : Bool) : VmoWorld × Bool :=
  match w.vmm.createAspace ok with
  | (vmm, true) =>
    ({ w with
      vmm := vmm
      tables := w.tables ++ [{}]
      aspaceOf := w.aspaceOf ++ [some w.vmm.aspaces.length] }, true)
  | (_, false) => (w, false)

end VmoWorld

/-! ## The return register -/

theorem toInt_errcOf (e : Errc) : (errcOf e).toInt < 0 := by
  cases e <;> decide

theorem errcOf_ne_zero (e : Errc) : errcOf e ≠ 0 := by
  cases e <;> decide

/-- A word below `2 ^ 63` is non-negative as a signed word. -/
theorem toInt_nonneg_of_lt {b : Word} (h : b.toNat < 2 ^ 63) : 0 ≤ b.toInt := by
  rw [BitVec.toInt_eq_toNat_cond]
  split <;> omega

/-- A non-negative return register is a success. -/
theorem returnValue_of_nonneg {r : Except Errc Word} (h : 0 ≤ (returnValue r).toInt) :
    r = .ok (returnValue r) := by
  cases r with
  | error e => exact absurd h (Int.not_le.2 (toInt_errcOf e))
  | ok b => rfl

/-- A negative return register of a call whose values are below `2 ^ 63` is an error. -/
theorem returnValue_of_neg {r : Except Errc Word} (hr : ∀ b, r = .ok b → b.toNat < 2 ^ 63)
    (h : (returnValue r).toInt < 0) : ∃ e, r = .error e := by
  cases r with
  | error e => exact ⟨e, rfl⟩
  | ok b => exact absurd (toInt_nonneg_of_lt (hr b rfl)) (Int.not_le.2 h)

/-- The root's end is `low_limit`, far below `2 ^ 63`. -/
theorem makeRoot_end (arch : Arch) :
    (makeRoot arch).base.toNat + (makeRoot arch).size.toNat = arch.lowLimit.toNat ∧
      (makeRoot arch).base.toNat = 0x1000 ∧ arch.lowLimit.toNat ≤ 2 ^ 47 := by
  cases arch <;> decide

/-! ## Protection and rights -/

/-- The protection passed the whitelist: it is a non-empty submask of `MAPPABLE`. -/
theorem prot_ok_iff {prot : Word} :
    ¬ (decide (prot = 0) || prot &&& ~~~mappable != 0) = true ↔ prot ≠ 0 ∧ Submask prot mappable := by
  simp [Submask]

/-- A whitelisted protection keeps only its READ and WRITE bits, and gets USER. -/
theorem userProt_of_submask {prot : Word} (h : Submask prot mappable) :
    userProt prot = (prot &&& mappable).setWidth 32 ||| vm_prot.USER := by
  have hand : mappable &&& prot = prot := Submask.iff_and_eq.1 h
  rw [BitVec.and_comm] at hand
  rw [hand]
  rfl

/-- A user mapping is never executable: its bits are READ, WRITE and USER at most. -/
theorem userProt_execute {prot : Word} (h : Submask prot mappable) :
    userProt prot &&& vm_prot.EXECUTE = 0 := by
  have hprot : Submask (prot.setWidth 32) (vm_prot.READ ||| vm_prot.WRITE ||| vm_prot.USER) :=
    h.setWidth.trans (by decide)
  have hsub : Submask (userProt prot) (vm_prot.READ ||| vm_prot.WRITE ||| vm_prot.USER) :=
    Submask.or_iff.2 ⟨hprot, by decide⟩
  exact Submask.and_eq_zero hsub (by decide)

/-- The rights `verify` asks for are READ when the protection has READ and WRITE when it has
WRITE. -/
theorem submask_neededRights {prot : Word} {rights : Rights} (h : Submask (neededRights prot) rights) :
    (prot &&& abi.VM_PROT_READ ≠ 0 → Submask rightRead rights) ∧
      (prot &&& abi.VM_PROT_WRITE ≠ 0 → Submask rightWrite rights) := by
  rw [neededRights, Submask.or_iff] at h
  obtain ⟨hread, hwrite⟩ := h
  refine ⟨fun hr => ?_, fun hw => ?_⟩
  · rwa [if_pos hr] at hread
  · rwa [if_pos hw] at hwrite

/-- A slot that fits a root region lies between the null page and `low_limit`. -/
theorem fits_inside_root {arch : Arch} {r : Region} {base size : Word} {prot : VmProt}
    (hsame : SameRange (makeRoot arch) r) (hf : Fits r base size prot) :
    0x1000 ≤ base.toNat ∧ base.toNat + size.toNat ≤ arch.lowLimit.toNat := by
  obtain ⟨hb, hs, -⟩ := hsame
  have hin := hf.inside
  rw [hb, hs] at hin
  have := makeRoot_end arch
  omega

/-! ## `sys_vmo_map` -/

namespace VmoWorld

section Map

variable {w w' : VmoWorld} {caller : Nat} {handle : HandleId} {vaddr vmoOffset length prot ret : Word}
  {allocSlot addOk : Bool}

/-- Everything `sys_vmo_map` can do: refuse before touching anything, or, with a whitelisted
protection, an address space and a verified VMO handle, write back what `map_anywhere` or
`map` did on the root region. -/
theorem sysVmoMap_cases
    (h : w.sysVmoMap caller handle vaddr vmoOffset length prot allocSlot addOk = (w', ret)) :
    (∃ e, w' = w ∧ ret = errcOf e) ∨
    ∃ i a v, prot ≠ 0 ∧ Submask prot mappable ∧ w.aspace caller = some i ∧
      w.vmm.aspaces[i]? = some a ∧
      (w.table caller).verify handle (neededRights prot) type_ids.VMO = .ok v ∧
      ((vaddr = 0 ∧ ∃ root s res,
          a.root.mapAnywhere (w.vmm.vmState i a) userMapFloor length (some v.object.id) vmoOffset
            (userProt prot) .cached allocSlot addOk = (root, s, res) ∧
          w' = { w with vmm := w.vmm.writeBack i a root s } ∧ ret = returnValue res) ∨
        (vaddr ≠ 0 ∧ ∃ root s res,
          a.root.mapLocked (w.vmm.vmState i a) vaddr length (some v.object.id) vmoOffset
            (userProt prot) .cached allocSlot addOk = (root, s, res) ∧
          w' = { w with vmm := w.vmm.writeBack i a root s } ∧
          ret = returnValue (res.map fun _ => vaddr))) := by
  unfold sysVmoMap at h
  by_cases hprot : (decide (prot = 0) || prot &&& ~~~mappable != 0) = true
  · rw [if_pos hprot] at h
    cases h
    exact .inl ⟨_, rfl, rfl⟩
  rw [if_neg hprot] at h
  obtain ⟨hne, hsub⟩ := prot_ok_iff.1 hprot
  cases hi : w.aspace caller with
  | none =>
    simp only [hi] at h
    cases h
    exact .inl ⟨_, rfl, rfl⟩
  | some i =>
  simp only [hi] at h
  cases ha : w.vmm.aspaces[i]? with
  | none =>
    simp only [ha] at h
    cases h
    exact .inl ⟨_, rfl, rfl⟩
  | some a =>
  simp only [ha] at h
  cases hv : (w.table caller).verify handle (neededRights prot) type_ids.VMO with
  | error e =>
    simp only [hv] at h
    cases h
    exact .inl ⟨e, rfl, rfl⟩
  | ok v =>
  simp only [hv] at h
  refine .inr ⟨i, a, v, hne, hsub, rfl, ha, rfl, ?_⟩
  by_cases h0 : vaddr = 0
  · rw [if_pos h0] at h
    cases h
    exact .inl ⟨h0, _, _, _, rfl, rfl, rfl⟩
  · rw [if_neg h0] at h
    cases h
    exact .inr ⟨h0, _, _, _, rfl, rfl, rfl⟩

/-- `sys_vmo_map` keeps the VMM invariant. -/
theorem sysVmoMap_inv (hw : w.vmm.Inv)
    (h : w.sysVmoMap caller handle vaddr vmoOffset length prot allocSlot addOk = (w', ret)) :
    w'.vmm.Inv := by
  rcases sysVmoMap_cases h with ⟨e, rfl, -⟩ |
    ⟨i, a, v, -, -, -, ha, -, ⟨-, root, s, res, hm, rfl, -⟩ | ⟨-, root, s, res, hm, rfl, -⟩⟩
  · exact hw
  · have hwf := (hw.trees i a ha).1
    have hk := mapAnywhere_keeps (s := w.vmm.vmState i a) hwf userMapFloor length
      (some v.object.id) vmoOffset (userProt prot) .cached allocSlot addOk
    have he := mapAnywhere_effect (s := w.vmm.vmState i a) hwf userMapFloor length
      (some v.object.id) vmoOffset (userProt prot) .cached allocSlot addOk
    rw [hm] at hk he
    exact hw.writeBack ha hk.wellFormed hk.sameRange he
  · have hwf := (hw.trees i a ha).1
    have hk := mapLocked_keeps (s := w.vmm.vmState i a) hwf vaddr length (some v.object.id)
      vmoOffset (userProt prot) .cached allocSlot addOk
    have he := mapLocked_effect (s := w.vmm.vmState i a) hwf vaddr length (some v.object.id)
      vmoOffset (userProt prot) .cached allocSlot addOk
    rw [hm] at hk he
    exact hw.writeBack ha hk.wellFormed hk.sameRange he

/-- A `sys_vmo_map` with a non-negative return verified a VMO handle with the rights the
protection needs, and made `map_locked` succeed on the root region of the caller's address
space at the base it returns: the requested address, or the first fit from the floor. -/
theorem sysVmoMap_ok (hw : w.vmm.Inv)
    (h : w.sysVmoMap caller handle vaddr vmoOffset length prot allocSlot addOk = (w', ret))
    (hret : 0 ≤ ret.toInt) :
    ∃ e o, (w.table caller).lookupEntry handle = some e ∧ e.object = some o ∧
      o.typeId = type_ids.VMO ∧ Submask (neededRights prot) e.rights ∧ Submask prot mappable ∧
      ∃ i a root s, w.aspace caller = some i ∧ w.vmm.aspaces[i]? = some a ∧
        a.root.mapLocked (w.vmm.vmState i a) ret length (some o.id) vmoOffset (userProt prot)
          .cached allocSlot addOk = (root, s, .ok ()) ∧
        w' = { w with vmm := w.vmm.writeBack i a root s } ∧
        (vaddr ≠ 0 → ret = vaddr) ∧
        (vaddr = 0 → max userMapFloor.toNat a.root.base.toNat ≤ ret.toNat ∧
          ∀ x, max userMapFloor.toNat a.root.base.toNat ≤ x → x < ret.toNat →
            ∃ c ∈ a.root.children, Meets lo len c x (x + length.toNat)) := by
  rcases sysVmoMap_cases h with ⟨e, -, rfl⟩ | ⟨i, a, v, -, hsub, hi, ha, hv, hbranch⟩
  · exact absurd hret (Int.not_le.2 (toInt_errcOf e))
  obtain ⟨e, o, hlk, hobj, hty, hrights, rfl⟩ := HandleTable.verify_ok_iff.1 hv
  have hty' : o.typeId = type_ids.VMO := hty.resolve_left (by decide)
  refine ⟨e, o, hlk, hobj, hty', hrights, hsub, i, a, ?_⟩
  have hwf := (hw.trees i a ha).1
  rcases hbranch with ⟨h0, root, s, res, hm, rfl, rfl⟩ | ⟨h0, root, s, res, hm, rfl, rfl⟩
  · -- `map_anywhere` returned the cursor of its search, where `map_locked` succeeded
    have hres := returnValue_of_nonneg hret
    have hany : (a.root.mapAnywhere (w.vmm.vmState i a) userMapFloor length (some o.id) vmoOffset
        (userProt prot) .cached allocSlot addOk).2.2 = .ok (returnValue res) := by
      rw [hm]
      exact hres
    obtain ⟨hml, hlo, hfirst⟩ := mapAnywhere_firstFit hwf hany
    rw [hm] at hml
    exact ⟨root, s, hi, ha, hml, rfl, fun hne => absurd h0 hne, fun _ => ⟨hlo, hfirst⟩⟩
  · cases res with
    | error e' => exact absurd hret (Int.not_le.2 (toInt_errcOf e'))
    | ok u => exact ⟨root, s, hi, ha, hm, rfl, fun _ => rfl, fun h0' => absurd h0' h0⟩

/-- Every base a `map_locked` on a root region succeeds at is below `2 ^ 63`. -/
theorem base_lt_of_mapLocked (hw : w.vmm.Inv) {i : Nat} {a : Aspace}
    (ha : w.vmm.aspaces[i]? = some a) {base : Word} {id : Nat} {root : Region} {s : VmState}
    (hm : a.root.mapLocked (w.vmm.vmState i a) base length (some id) vmoOffset (userProt prot)
      .cached allocSlot addOk = (root, s, .ok ())) : base.toNat < 2 ^ 63 := by
  obtain ⟨hwf, hsame⟩ := hw.trees i a ha
  obtain ⟨-, hf, -, -⟩ := mapLocked_ok hwf.node hm
  have hin := fits_inside_root hsame hf
  have := (makeRoot_end w.vmm.arch).2.2
  omega

/-- A `sys_vmo_map` with a negative return returned an error code and left every region
tree, every page table, the VMO table and every handle table as they were. -/
theorem sysVmoMap_error (hw : w.vmm.Inv)
    (h : w.sysVmoMap caller handle vaddr vmoOffset length prot allocSlot addOk = (w', ret))
    (hret : ret.toInt < 0) :
    ∃ e, ret = errcOf e ∧ w'.vmm.aspaces = w.vmm.aspaces ∧ w'.vmm.vmos = w.vmm.vmos ∧
      w'.tables = w.tables := by
  rcases sysVmoMap_cases h with ⟨e, rfl, rfl⟩ | ⟨i, a, v, -, -, -, ha, -, hbranch⟩
  · exact ⟨e, rfl, rfl, rfl, rfl⟩
  have hwf := (hw.trees i a ha).1
  have hback : ∀ v t, (w.vmm.vmState i a).pages v = some t → a.root.Covers v :=
    fun v t hv => (hw.backed i a ha v t hv).2
  have hfresh := hw.fresh v.object.id
  rcases hbranch with ⟨-, root, s, res, hm, rfl, rfl⟩ | ⟨-, root, s, res, hm, rfl, rfl⟩
  · -- a base `map_anywhere` returns is one `map_locked` succeeded at, so it is non-negative
    have hpos : ∀ b, res = .ok b → b.toNat < 2 ^ 63 := by
      intro b hb
      have hany : (a.root.mapAnywhere (w.vmm.vmState i a) userMapFloor length (some v.object.id)
          vmoOffset (userProt prot) .cached allocSlot addOk).2.2 = .ok b := by
        rw [hm]
        exact hb
      exact base_lt_of_mapLocked hw ha (mapAnywhere_firstFit hwf hany).1
    obtain ⟨e, rfl⟩ := returnValue_of_neg hpos hret
    have hany : (a.root.mapAnywhere (w.vmm.vmState i a) userMapFloor length (some v.object.id)
        vmoOffset (userProt prot) .cached allocSlot addOk).2.2 = .error e := by
      rw [hm]
    obtain ⟨hroot, hpages, hvmos⟩ := mapAnywhere_error hwf hback hfresh hany
    rw [hm] at hroot hpages hvmos
    subst hroot
    exact ⟨e, rfl, Vmm.aspaces_writeBack_of_same ha hpages, hvmos, rfl⟩
  · cases res with
    | ok u => exact absurd (toInt_nonneg_of_lt (base_lt_of_mapLocked hw ha hm)) (Int.not_le.2 hret)
    | error e =>
      have hml : (a.root.mapLocked (w.vmm.vmState i a) vaddr length (some v.object.id) vmoOffset
          (userProt prot) .cached allocSlot addOk).2.2 = .error e := by
        rw [hm]
      obtain ⟨hroot, hpages, hvmos⟩ := mapLocked_error hwf hback hfresh hml
      rw [hm] at hroot hpages hvmos
      subst hroot
      exact ⟨e, rfl, Vmm.aspaces_writeBack_of_same ha hpages, hvmos, rfl⟩

end Map

/-! ## `sys_vmo_unmap` -/

section Unmap

variable {w w' : VmoWorld} {caller : Nat} {vaddr ret : Word}

/-- Everything `sys_vmo_unmap` can do: refuse without an address space, or write back what
`unmap_binding` did on the root region. -/
theorem sysVmoUnmap_cases (h : w.sysVmoUnmap caller vaddr = (w', ret)) :
    (w' = w ∧ ret = errcOf .invalidOperation) ∨
    ∃ i a, w.aspace caller = some i ∧ w.vmm.aspaces[i]? = some a ∧
      w' = { w with
        vmm := w.vmm.writeBack i a (a.root.unmapBinding (w.vmm.vmState i a) vaddr).1
          (a.root.unmapBinding (w.vmm.vmState i a) vaddr).2.1 } ∧
      ret = returnValue ((a.root.unmapBinding (w.vmm.vmState i a) vaddr).2.2.map fun _ => 0) := by
  unfold sysVmoUnmap at h
  cases hi : w.aspace caller with
  | none =>
    simp only [hi] at h
    cases h
    exact .inl ⟨rfl, rfl⟩
  | some i =>
  simp only [hi] at h
  cases ha : w.vmm.aspaces[i]? with
  | none =>
    simp only [ha] at h
    cases h
    exact .inl ⟨rfl, rfl⟩
  | some a =>
  simp only [ha] at h
  cases h
  exact .inr ⟨i, a, rfl, ha, rfl, rfl⟩

/-- `sys_vmo_unmap` keeps the VMM invariant. -/
theorem sysVmoUnmap_inv (hw : w.vmm.Inv) (h : w.sysVmoUnmap caller vaddr = (w', ret)) :
    w'.vmm.Inv := by
  rcases sysVmoUnmap_cases h with ⟨rfl, -⟩ | ⟨i, a, -, ha, rfl, -⟩
  · exact hw
  · have hwf := (hw.trees i a ha).1
    have hk := unmapBinding_keeps (s := w.vmm.vmState i a) hwf vaddr
    exact hw.writeBack ha hk.wellFormed hk.sameRange (unmapBinding_effect hwf vaddr)

/-- A `sys_vmo_unmap` that returned zero removed one binding of the root region containing the
address, and exactly its translations; the other address spaces are untouched. -/
theorem sysVmoUnmap_ok (hw : w.vmm.Inv) (h : w.sysVmoUnmap caller vaddr = (w', ret))
    (hret : ret = 0) :
    ∃ i a b pre post, w.aspace caller = some i ∧ w.vmm.aspaces[i]? = some a ∧
      a.root.children = pre ++ .binding b :: post ∧ b.Contains vaddr ∧
      ∃ a', w'.vmm.aspaces[i]? = some a' ∧ a'.root.children = pre ++ post ∧
        (∀ v, a'.pages v = if b.Contains v then none else a.pages v) ∧
        ∀ j, j ≠ i → w'.vmm.aspaces[j]? = w.vmm.aspaces[j]? := by
  rcases sysVmoUnmap_cases h with ⟨-, rfl⟩ | ⟨i, a, hi, ha, rfl, rfl⟩
  · exact absurd hret (errcOf_ne_zero _)
  have hwf := (hw.trees i a ha).1
  cases hres : (a.root.unmapBinding (w.vmm.vmState i a) vaddr).2.2 with
  | error e =>
    rw [hres] at hret
    exact absurd hret (errcOf_ne_zero e)
  | ok u =>
    obtain ⟨b, pre, post, hl, hchildren, hv, hs⟩ := unmapBinding_ok hwf.node hres
    -- the binding is a slot of the root: aligned and not wrapping
    have hmem : RegionChild.binding b ∈ a.root.children := by
      rw [hl]
      simp
    have hslot := hwf.node.slots _ hmem
    have hal : pageAligned b.base = true ∧ pageAligned b.size = true := hslot.aligned
    have hnw : b.base.toNat + b.size.toNat < 2 ^ 64 := hslot.noWrap hwf.node
    refine ⟨i, a, b, pre, post, hi, ha, hl, hv,
      { a with root := (a.root.unmapBinding (w.vmm.vmState i a) vaddr).1,
               pages := (a.root.unmapBinding (w.vmm.vmState i a) vaddr).2.1.pages },
      ?_, hchildren, fun v => ?_, fun j hj => ?_⟩
    · rw [Vmm.getElem?_writeBack ha, if_pos rfl]
    · rw [hs]
      exact tearDown_binding_apply hal hnw (fun v t hv => (hw.backed i a ha v t hv).1) v
    · rw [Vmm.getElem?_writeBack ha, if_neg (Ne.symm hj)]

/-- `sys_vmo_unmap` at an address inside a sub-region of the root fails and changes nothing:
sub-regions are not removable this way. -/
theorem sysVmoUnmap_of_region (hw : w.vmm.Inv) {i : Nat} {a : Aspace} (hi : w.aspace caller = some i)
    (ha : w.vmm.aspaces[i]? = some a) {r' : Region} (hc : .region r' ∈ a.root.children)
    (hlo : r'.base.toNat ≤ vaddr.toNat) (hhi : vaddr.toNat < r'.base.toNat + r'.size.toNat) :
    w.sysVmoUnmap caller vaddr = (w, errcOf .outOfRange) := by
  have hwf := (hw.trees i a ha).1
  obtain ⟨e, he⟩ := unmapBinding_of_region (s := w.vmm.vmState i a) hwf.node hc hlo hhi
  have hres : a.root.unmapBinding (w.vmm.vmState i a) vaddr =
      (a.root, w.vmm.vmState i a, .error .outOfRange) := by
    rcases @unmapBinding_cases a.root (w.vmm.vmState i a) vaddr with hok | hres
    · rw [hok] at he
      cases he
    · exact hres
  simp only [sysVmoUnmap, hi, ha, hres, Vmm.writeBack_self ha]
  rfl

end Unmap

/-! ## New VMOs and new tasks -/

/-- `sys_vmo_create` leaves the VMM as it was or adds the new VMO. -/
theorem sysVmoCreate_vmm (w : VmoWorld) (caller : Nat) (size : Word) (pushed : Nat) (ok : Bool)
    (room : Nat) :
    (w.sysVmoCreate caller size pushed ok room).1.vmm = w.vmm ∨
      (w.sysVmoCreate caller size pushed ok room).1.vmm =
        (w.vmm.createVmo (size / Mm.pageSize) .anonymous pushed ok).1 := by
  unfold sysVmoCreate
  split
  · exact .inl rfl
  split
  · exact .inl rfl
  · rename_i vmm id hc
    split
    · exact .inl rfl
    · exact .inr (congrArg Prod.fst hc).symm

theorem sysVmoCreate_inv {w : VmoWorld} (hw : w.vmm.Inv) (caller : Nat) (size : Word) (pushed : Nat)
    (ok : Bool) (room : Nat) : (w.sysVmoCreate caller size pushed ok room).1.vmm.Inv := by
  rcases sysVmoCreate_vmm w caller size pushed ok room with h | h <;> rw [h]
  · exact hw
  · exact hw.createVmo _ _ _ _

/-- A new task leaves the VMM as it was or adds its address space. -/
theorem addTask_vmm (w : VmoWorld) (ok : Bool) :
    (w.addTask ok).1.vmm = w.vmm ∨ (w.addTask ok).1.vmm = (w.vmm.createAspace ok).1 := by
  unfold addTask
  split
  · rename_i vmm hc
    exact .inr (congrArg Prod.fst hc).symm
  · exact .inl rfl

theorem addTask_inv {w : VmoWorld} (hw : w.vmm.Inv) (ok : Bool) : (w.addTask ok).1.vmm.Inv := by
  rcases addTask_vmm w ok with h | h <;> rw [h]
  · exact hw
  · exact hw.createAspace ok

end VmoWorld

end Archipelago.Syscalls
