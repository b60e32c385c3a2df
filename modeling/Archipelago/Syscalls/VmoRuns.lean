import Archipelago.Lib.Run
import Archipelago.Syscalls.Vmo

/-! The VMO syscalls over whole runs: from `vmm_init`, any interleaving of `sys_vmo_create`,
`sys_vmo_map` and `sys_vmo_unmap` by any task, new tasks, and the kernel's own VMM steps
(new address spaces and VMOs, commits, kernel region calls, demand faults). Every state
reached keeps the VMM invariant (`inv_run`), so in every one of them a mapping a task makes
is one its handle authorizes, a refused map changes nothing, and an unmap removes exactly
one root-level binding. -/

namespace Archipelago.Syscalls

open Archipelago.Lib Archipelago.Obj Archipelago.Mm
open RegionChild (lo len)

/-- One step of the world: a VMO syscall by task `caller`, a new task, or a step of the
VMM the kernel makes. -/
inductive VmoOp
  | create (caller : Nat) (size : Word) (pushed : Nat) (ok : Bool) (room : Nat)
  | map (caller : Nat) (handle : HandleId) (vaddr vmoOffset length prot : Word)
      (allocSlot addOk : Bool)
  | unmap (caller : Nat) (vaddr : Word)
  | addTask (ok : Bool)
  | kernel (op : VmmOp)

/-- What a step returns. -/
inductive VmoOutcome
  | created (r : Except Errc HandleId)
  | returned (value : Word)
  | added (ok : Bool)
  | kernel (r : Except String Bool)
  deriving DecidableEq

namespace VmoWorld

def step (w : VmoWorld) : VmoOp → VmoWorld × VmoOutcome
  | .create caller size pushed ok room =>
    let (w', r) := w.sysVmoCreate caller size pushed ok room
    (w', .created r)
  | .map caller handle vaddr vmoOffset length prot allocSlot addOk =>
    let (w', r) := w.sysVmoMap caller handle vaddr vmoOffset length prot allocSlot addOk
    (w', .returned r)
  | .unmap caller vaddr =>
    let (w', r) := w.sysVmoUnmap caller vaddr
    (w', .returned r)
  | .addTask ok =>
    let (w', r) := w.addTask ok
    (w', .added r)
  | .kernel op =>
    let (vmm, r) := w.vmm.step op
    ({ w with vmm := vmm }, .kernel r)

/-- `vmm_init`: the REGION and VMO types registered, the VMM with the kernel address space,
and the kernel task, with its table and no user address space. -/
def init (arch : Arch) (zeroPage : Word) : VmoWorld where
  vmm := Vmm.init arch zeroPage
  registry :=
    ((({} : TypeRegistry).registerType type_ids.REGION "region" (rightRead ||| rightWrite)
      rightRead).1.registerType type_ids.VMO "vmo" (rightRead ||| rightWrite) rightRead).1
  tables := [{}]
  aspaceOf := [none]

/-- Every step keeps the VMM invariant. -/
theorem inv_step {w : VmoWorld} (hw : w.vmm.Inv) : ∀ op : VmoOp, (w.step op).1.vmm.Inv
  | .create caller size pushed ok room => sysVmoCreate_inv hw caller size pushed ok room
  | .map caller handle vaddr vmoOffset length prot allocSlot addOk =>
    sysVmoMap_inv hw (Prod.mk.eta (p := w.sysVmoMap caller handle vaddr vmoOffset length prot
      allocSlot addOk)).symm
  | .unmap caller vaddr => sysVmoUnmap_inv hw (Prod.mk.eta (p := w.sysVmoUnmap caller vaddr)).symm
  | .addTask ok => addTask_inv hw ok
  | .kernel op => hw.step op

theorem inv_run (arch : Arch) (z : Word) (ops : List VmoOp) :
    (run step (init arch z) ops).1.vmm.Inv :=
  @run_invariant VmoWorld VmoOp VmoOutcome step (fun w => w.vmm.Inv) (fun _ op hw => inv_step hw op)
    (init arch z) (Vmm.inv_init arch z) ops

/-- No step changes the architecture the VMM was built for. -/
theorem arch_step (w : VmoWorld) : ∀ op : VmoOp, (w.step op).1.vmm.arch = w.vmm.arch
  | .create caller size pushed ok room => by
    show (w.sysVmoCreate caller size pushed ok room).1.vmm.arch = w.vmm.arch
    rcases sysVmoCreate_vmm w caller size pushed ok room with h | h <;> rw [h]
    exact Vmm.step_arch w.vmm (.createVmo _ .anonymous pushed ok)
  | .map caller handle vaddr vmoOffset length prot allocSlot addOk => by
    show (w.sysVmoMap caller handle vaddr vmoOffset length prot allocSlot addOk).1.vmm.arch = _
    rcases sysVmoMap_cases (Prod.mk.eta (p := w.sysVmoMap caller handle vaddr vmoOffset length prot
      allocSlot addOk)).symm with ⟨e, h, -⟩ |
      ⟨i, a, v, -, -, -, -, -, ⟨-, root, s, res, -, h, -⟩ | ⟨-, root, s, res, -, h, -⟩⟩ <;>
      rw [h] <;> rfl
  | .unmap caller vaddr => by
    show (w.sysVmoUnmap caller vaddr).1.vmm.arch = _
    rcases sysVmoUnmap_cases (Prod.mk.eta (p := w.sysVmoUnmap caller vaddr)).symm with
      ⟨h, -⟩ | ⟨i, a, -, -, h, -⟩
    · rw [h]
    · rw [h]
      rfl
  | .addTask ok => by
    show (w.addTask ok).1.vmm.arch = _
    rcases addTask_vmm w ok with h | h <;> rw [h]
    exact Vmm.step_arch w.vmm (.createAspace ok)
  | .kernel op => Vmm.step_arch w.vmm op

theorem arch_run (arch : Arch) (z : Word) (ops : List VmoOp) :
    (run step (init arch z) ops).1.vmm.arch = arch :=
  @run_invariant VmoWorld VmoOp VmoOutcome step (fun w => w.vmm.arch = arch)
    (fun w op h => (arch_step w op).trans h) (init arch z) rfl ops

end VmoWorld

/-- A short run: a new task, a VMO of four pages made by it, a map of two pages at the first
fit, a map asking for EXECUTE (refused), and an unmap of the first mapping. -/
def demoVmoOps : List VmoOp :=
  [.addTask true, .create 1 0x4000 1 true 32, .map 1 ⟨0, 0⟩ 0 0 0x2000 3 true true,
    .map 1 ⟨0, 0⟩ 0 0 0x2000 4 true true, .unmap 1 0x20000000]

example : (run VmoWorld.step (VmoWorld.init .x86_64 0x5000) demoVmoOps).2 =
    [.added true, .created (.ok ⟨0, 0⟩), .returned 0x20000000, .returned (errcOf .invalidOperation),
      .returned 0] := by rfl

end Archipelago.Syscalls
