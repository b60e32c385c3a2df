import Archipelago.Syscalls.DispatchSpec

/-! The dispatcher over whole runs. From boot, every world a run of syscalls reaches keeps
`SysWorld.Inv`: each handler writes a task's table only through calls that keep it sound,
registers no type, changes the VMM only through the VMO calls that keep its invariant, and
adds a port binding only when the arena has a slot for it. One lemma per handler says so, the
switch of `syscall_dispatch` is a case analysis over them, and `inv_run` is the induction over
the run. So in every reachable world the sign of the return register classifies the call
(`Reachable.return_sign`). -/

namespace Archipelago.Syscalls

open Archipelago.Lib Archipelago.Obj
open Archipelago.Mm (Word)

/-! ## Ports and VMOs: what a call writes -/

namespace Port

theorem length_bind {p p' : Port} {object : Object} {key : Word} {mask signals : BitVec 32}
    (h : p.bind object key mask signals = .ok p') : p'.bindings.length = p.bindings.length + 1 := by
  unfold bind at h
  split at h
  · cases h
  · cases h
    rfl

theorem length_unbind_le (p : Port) (key : Word) : (p.unbind key).1.bindings.length ≤ p.bindings.length :=
  List.length_filter_le _ _

theorem bindings_dequeue {p p' : Port} {packet : Word × BitVec 32} (h : p.dequeue = some (packet, p')) :
    p'.bindings = p.bindings := by
  unfold dequeue at h
  split at h
  · cases h
  · cases h
    rfl

end Port

namespace VmoWorld

variable {w : VmoWorld}

/-- `sys_vmo_create` registers nothing and writes the caller's table only by an insert. -/
theorem sysVmoCreate_sound (h : HandleTable.TablesSound w.registry w.tables) (caller : Nat) (size : Word)
    (pushed : Nat) (ok : Bool) (room : Nat) :
    (w.sysVmoCreate caller size pushed ok room).1.registry = w.registry ∧
      HandleTable.TablesSound w.registry (w.sysVmoCreate caller size pushed ok room).1.tables := by
  unfold sysVmoCreate
  split
  · exact ⟨rfl, h⟩
  split
  · exact ⟨rfl, h⟩
  next vmm id _ =>
  have hcaller : (w.table caller).Sound w.registry := h caller
  have hins := hcaller.insert (some ⟨id, type_ids.VMO⟩) (rightRead ||| rightWrite) room
  split
  · next t e hc =>
    rw [hc] at hins
    exact ⟨rfl, h.set hins caller⟩
  · next t x hc =>
    rw [hc] at hins
    exact ⟨rfl, h.set hins caller⟩

/-- `sys_vmo_map` writes only the VMM, and keeps its invariant. -/
theorem sysVmoMapOutcome_writes_vmm (hw : w.vmm.Inv) (caller : Nat) (handle : HandleId)
    (vaddr vmoOffset length prot : Word) (allocSlot addOk : Bool) :
    ∃ vmm : Mm.Vmm, (w.sysVmoMapOutcome caller handle vaddr vmoOffset length prot allocSlot addOk).1 =
      { w with vmm := vmm } ∧ vmm.Inv := by
  have hm := sysVmoMap_eq_outcome w caller handle vaddr vmoOffset length prot allocSlot addOk
  refine ⟨_, ?_, sysVmoMap_inv hw hm⟩
  rcases sysVmoMap_cases hm with ⟨e, h, -⟩ |
    ⟨i, a, v, -, -, -, -, -, ⟨-, root, s, res, -, h, -⟩ | ⟨-, root, s, res, -, h, -⟩⟩ <;> rw [h]

theorem sysVmoUnmap_eq_outcome (w : VmoWorld) (caller : Nat) (vaddr : Word) :
    w.sysVmoUnmap caller vaddr =
      ((w.sysVmoUnmapOutcome caller vaddr).1, returnValue (w.sysVmoUnmapOutcome caller vaddr).2) := by
  unfold sysVmoUnmap sysVmoUnmapOutcome
  cases w.aspace caller with
  | none => rfl
  | some i =>
  dsimp only
  cases w.vmm.aspaces[i]? with
  | none => rfl
  | some a => rfl

/-- `sys_vmo_unmap` writes only the VMM, and keeps its invariant. -/
theorem sysVmoUnmapOutcome_writes_vmm (hw : w.vmm.Inv) (caller : Nat) (vaddr : Word) :
    ∃ vmm : Mm.Vmm, (w.sysVmoUnmapOutcome caller vaddr).1 = { w with vmm := vmm } ∧ vmm.Inv := by
  have hm := sysVmoUnmap_eq_outcome w caller vaddr
  refine ⟨_, ?_, sysVmoUnmap_inv hw hm⟩
  rcases sysVmoUnmap_cases hm with ⟨h, -⟩ | ⟨i, a, -, -, h, -⟩ <;> rw [h]

end VmoWorld

namespace SysWorld

variable {w : SysWorld}

/-- Replacing a port trades its bindings for the new port's; past the end of the ports
nothing changes. -/
theorem liveBindings_setPort (w : SysWorld) (n : Nat) (p : Port) :
    (w.setPort n p).liveBindings + (w.port n).bindings.length ≤ w.liveBindings + p.bindings.length := by
  unfold liveBindings setPort port
  by_cases hn : n < w.ports.length
  · have hn' : n < (w.ports.map fun q => q.bindings.length).length := by simpa using hn
    have h := sum_set_add p.bindings.length hn'
    rw [List.getElem_map, ← List.map_set] at h
    rw [List.getD_eq_getElem _ _ hn]
    exact le_of_eq h
  · rw [List.set_eq_of_length_le (Nat.le_of_not_lt hn), List.getD_eq_default _ _ (Nat.le_of_not_lt hn)]
    simp

/-! ## The invariant under each write -/

theorem Inv.table (hw : w.Inv) (k : Nat) : (w.table k).Sound w.registry :=
  ⟨hw.wellFormed k, hw.rightsWithin k⟩

theorem Inv.tablesSound (hw : w.Inv) : HandleTable.TablesSound w.registry w.tables :=
  hw.table

theorem Inv.channelSound (hw : w.Inv) : w.toChannelWorld.Sound :=
  hw.tablesSound

/-- The invariant carried to a world with the same registry and arena, sound tables, a VMM
that keeps its invariant and no more bindings than the arena holds. -/
theorem Inv.of_frame (hw : w.Inv) {w' : SysWorld} (hreg : w'.registry = w.registry)
    (ht : HandleTable.TablesSound w.registry w'.tables) (hvmm : w'.vmm.Inv)
    (hslots : w'.bindingSlots = w.bindingSlots) (hb : w'.liveBindings ≤ w.bindingSlots) : w'.Inv where
  wellFormed k := (ht k).wellFormed
  rightsWithin k := by
    rw [hreg]
    exact (ht k).rightsWithin
  registry_le := by
    rw [hreg]
    exact hw.registry_le
  vmm := hvmm
  bindings_le := by
    rw [hslots]
    exact hb
  slots_lt := by
    rw [hslots]
    exact hw.slots_lt

theorem Inv.setTable (hw : w.Inv) {t : HandleTable} (ht : t.Sound w.registry) (k : Nat) :
    (w.setTable k t).Inv :=
  hw.of_frame rfl (hw.tablesSound.set ht k) hw.vmm rfl hw.bindings_le

theorem Inv.setTask (hw : w.Inv) (k : Nat) (r : TaskRecord) : (w.setTask k r).Inv :=
  hw.of_frame rfl hw.tablesSound hw.vmm rfl hw.bindings_le

theorem Inv.setSocket (hw : w.Inv) (n : Nat) (st : SocketPair) : (w.setSocket n st).Inv :=
  hw.of_frame rfl hw.tablesSound hw.vmm rfl hw.bindings_le

/-- A port may be replaced by one with no more bindings, or with one more while the arena
has a free slot. -/
theorem Inv.setPort (hw : w.Inv) {n : Nat} {p : Port}
    (hp : p.bindings.length ≤ (w.port n).bindings.length ∨
      p.bindings.length = (w.port n).bindings.length + 1 ∧ w.liveBindings < w.bindingSlots) :
    (w.setPort n p).Inv := by
  have hset := w.liveBindings_setPort n p
  have hb := hw.bindings_le
  refine hw.of_frame rfl hw.tablesSound hw.vmm rfl ?_
  rcases hp with hle | ⟨heq, hlt⟩ <;> omega

theorem Inv.withChannelWorld (hw : w.Inv) {c : ChannelWorld} (hc : w.toChannelWorld.KeepsSound c) :
    (w.withChannelWorld c).Inv :=
  hw.of_frame hc.registry_eq hc.tablesSound hw.vmm rfl hw.bindings_le

theorem Inv.withVmoWorld (hw : w.Inv) {v : VmoWorld} (hreg : v.registry = w.registry)
    (ht : HandleTable.TablesSound w.registry v.tables) (hv : v.vmm.Inv) : (w.withVmoWorld v).Inv :=
  hw.of_frame hreg ht hv rfl hw.bindings_le

theorem Inv.withSelf (hw : w.Inv) {self : Option Thread} {k : Thread → SysWorld × Except Errc Word}
    (h : ∀ t, (k t).1.Inv) : (w.withSelf self k).1.Inv := by
  cases self with
  | none => exact hw
  | some t => exact h t

/-! ## Each handler keeps the invariant -/

theorem Inv.sysWrite (hw : w.Inv) (self : Option Thread) (offset length : Word) :
    (w.sysWrite self offset length).1.Inv := by
  refine hw.withSelf fun t => ?_
  split <;> exact hw

theorem Inv.taskKill (hw : w.Inv) (k : Nat) (snapshotOk : Bool) : (w.taskKill k snapshotOk).1.Inv := by
  unfold SysWorld.taskKill
  split
  · exact hw
  split
  · exact hw
  split
  · exact hw
  split
  · exact hw
  · exact hw.setTask _ _

theorem Inv.runOp (hw : w.Inv) (k : Nat) (id : HandleId) (v : VerifiedHandle) (arg : Word) (env : SysInputs) :
    ∀ kind, (w.runOp k id v arg env kind).1.Inv
  | .close => hw.setTable ((hw.table k).close id) k
  | .duplicate => hw.setTable ((hw.table k).duplicate id (arg.setWidth 32) (env.rooms.headD 0)) k
  | .info => hw
  | .taskKill => hw.taskKill _ _
  | .taskStatus => hw

theorem Inv.handleSyscall (hw : w.Inv) (self : Option Thread) (nr a0 a1 : Word) (env : SysInputs) :
    (w.handleSyscall self nr a0 a1 env).1.Inv := by
  refine hw.withSelf fun t => ?_
  unfold dispatchHandleOp
  split
  · exact hw
  · split
    · exact hw
    · exact hw.runOp _ _ _ _ _ _

theorem Inv.channelCreate (hw : w.Inv) (self : Option Thread) (offset : Word) (env : SysInputs) :
    (w.channelCreate self offset env).1.Inv :=
  hw.withSelf fun _ => hw.withChannelWorld (hw.channelSound.sysChannelCreate _ _ _ _ _)

theorem Inv.channelSend (hw : w.Inv) (self : Option Thread) (handle offset length handlesOffset count : Word)
    (env : SysInputs) : (w.channelSend self handle offset length handlesOffset count env).1.Inv :=
  hw.withSelf fun _ => hw.withChannelWorld (hw.channelSound.sysChannelSend _ _ _ _ _ _ _ _)

theorem Inv.channelRecv (hw : w.Inv) (self : Option Thread) (handle offset capacity handlesOffset count : Word)
    (env : SysInputs) : (w.channelRecv self handle offset capacity handlesOffset count env).1.Inv :=
  hw.withSelf fun _ => hw.withChannelWorld (hw.channelSound.sysChannelRecv _ _ _ _ _ _ _)

theorem Inv.vmoCreate (hw : w.Inv) (self : Option Thread) (size : Word) (env : SysInputs) :
    (w.vmoCreate self size env).1.Inv := by
  refine hw.withSelf fun t => ?_
  obtain ⟨hreg, ht⟩ := VmoWorld.sysVmoCreate_sound (w := w.toVmoWorld) hw.tablesSound t.caller.task size
    env.pushed env.allocOk (env.rooms.headD 0)
  exact hw.withVmoWorld hreg ht (VmoWorld.sysVmoCreate_inv hw.vmm _ _ _ _ _)

theorem Inv.vmoMap (hw : w.Inv) (self : Option Thread) (handle vaddr vmoOffset length prot : Word)
    (env : SysInputs) : (w.vmoMap self handle vaddr vmoOffset length prot env).1.Inv := by
  refine hw.withSelf fun t => ?_
  obtain ⟨vmm, h, hv⟩ := VmoWorld.sysVmoMapOutcome_writes_vmm (w := w.toVmoWorld) hw.vmm t.caller.task
    (unpackHandle handle) vaddr vmoOffset length prot env.allocSlot env.addOk
  dsimp only
  rw [h]
  exact hw.withVmoWorld rfl hw.tablesSound hv

theorem Inv.vmoUnmap (hw : w.Inv) (self : Option Thread) (vaddr : Word) : (w.vmoUnmap self vaddr).1.Inv := by
  refine hw.withSelf fun t => ?_
  obtain ⟨vmm, h, hv⟩ := VmoWorld.sysVmoUnmapOutcome_writes_vmm (w := w.toVmoWorld) hw.vmm t.caller.task vaddr
  dsimp only
  rw [h]
  exact hw.withVmoWorld rfl hw.tablesSound hv

theorem Inv.sysObjectWait (hw : w.Inv) (self : Option Thread) (handle mask timeoutNs : Word) (env : SysInputs) :
    (w.sysObjectWait self handle mask timeoutNs env).1.Inv := by
  refine hw.withSelf fun t => ?_
  -- every branch is a poll or a wait: nothing is written
  split
  · exact hw
  split
  · exact hw
  split
  · exact hw
  split
  · exact hw
  split <;> exact hw

theorem Inv.sysPortCreate (hw : w.Inv) (self : Option Thread) (env : SysInputs) :
    (w.sysPortCreate self env).1.Inv := by
  refine hw.withSelf fun t => ?_
  have hs := (hw.table t.caller.task).emplace
    (if env.allocOk then some ⟨w.nextObject, type_ids.PORT⟩ else none) portDefaultRights (env.rooms.headD 0)
  dsimp only
  split
  · next tbl e hc =>
    rw [hc] at hs
    exact hw.setTable hs _
  · next tbl id hc =>
    rw [hc] at hs
    -- the new port starts with no bindings
    refine hw.of_frame rfl (hw.tablesSound.set hs _) hw.vmm rfl ?_
    simpa [liveBindings] using hw.bindings_le

theorem Inv.sysPortBind (hw : w.Inv) (self : Option Thread) (portHandle objectHandle key mask : Word)
    (env : SysInputs) : (w.sysPortBind self portHandle objectHandle key mask env).1.Inv := by
  refine hw.withSelf fun t => ?_
  split
  · exact hw
  split
  · exact hw
  split
  · exact hw
  split
  · exact hw
  next hslot =>
  have hlt : w.liveBindings < w.bindingSlots := by
    simp only [Bool.or_eq_true, Bool.not_eq_true', decide_eq_true_eq, not_or] at hslot
    omega
  split
  · exact hw
  · next p' hb =>
    exact hw.setPort (.inr ⟨Port.length_bind hb, hlt⟩)

theorem Inv.sysPortUnbind (hw : w.Inv) (self : Option Thread) (portHandle key : Word) :
    (w.sysPortUnbind self portHandle key).1.Inv := by
  refine hw.withSelf fun t => ?_
  split
  · exact hw
  · exact hw.setPort (.inl (Port.length_unbind_le _ key))

theorem Inv.sysPortWait (hw : w.Inv) (self : Option Thread) (portHandle offset timeoutNs : Word)
    (env : SysInputs) : (w.sysPortWait self portHandle offset timeoutNs env).1.Inv := by
  refine hw.withSelf fun t => ?_
  split
  · exact hw
  split
  · exact hw
  split
  · next packet p' hd =>
    exact hw.setPort (.inl (le_of_eq (congrArg List.length (Port.bindings_dequeue hd))))
  · exact hw

theorem Inv.sysTaskSpawn (hw : w.Inv) (self : Option Thread) (handle offset : Word) (env : SysInputs) :
    (w.sysTaskSpawn self handle offset env).1.Inv := by
  refine hw.withSelf fun t => ?_
  split
  · exact hw
  dsimp only
  split
  · exact hw
  split
  · exact hw
  -- the child's record and task object come first; the invariant reads neither
  have h₀ : ({ w with
      nextObject := w.nextObject + 2
      tasks := w.tasks ++ [{ state := .running }]
      taskOf := fun x => if x = w.nextObject then w.tasks.length else w.taskOf x } : SysWorld).Inv :=
    hw.of_frame rfl hw.tablesSound hw.vmm rfl hw.bindings_le
  have hs := (hw.table t.caller.task).insert (some ⟨w.nextObject, type_ids.TASK⟩) spawnedTaskRights
    (env.rooms.headD 0)
  split
  · next tbl e hc =>
    rw [show (w.table t.caller.task).insert _ _ _ _ = _ from hc] at hs
    exact (h₀.setTable hs _).taskKill _ _
  · next tbl h₁ hc =>
    rw [show (w.table t.caller.task).insert _ _ _ _ = _ from hc] at hs
    have hs₂ := hs.insert (some ⟨w.nextObject + 1, type_ids.CHANNEL⟩) channelDefaultRights
      (env.rooms.tail.headD 0)
    split
    · next tbl' e hc' =>
      rw [hc'] at hs₂
      exact (h₀.setTable (hs₂.close h₁) _).taskKill _ _
    · next tbl' h₂ hc' =>
      rw [hc'] at hs₂
      exact h₀.setTable hs₂ _

theorem Inv.sysSocketCreate (hw : w.Inv) (self : Option Thread) (offset : Word) (env : SysInputs) :
    (w.sysSocketCreate self offset env).1.Inv := by
  refine hw.withSelf fun t => ?_
  split
  · exact hw
  split
  · exact hw
  have h₀ : ({ w with nextObject := w.nextObject + 2 } : SysWorld).Inv :=
    hw.of_frame rfl hw.tablesSound hw.vmm rfl hw.bindings_le
  have hs := (hw.table t.caller.task).insert (some ⟨w.nextObject, type_ids.SOCKET⟩) socketDefaultRights
    (env.rooms.headD 0)
  dsimp only
  split
  · next tbl e hc =>
    rw [show (w.table t.caller.task).insert _ _ _ _ = _ from hc] at hs
    exact h₀.setTable hs _
  · next tbl h₁ hc =>
    rw [show (w.table t.caller.task).insert _ _ _ _ = _ from hc] at hs
    have hs₂ := hs.insert (some ⟨w.nextObject + 1, type_ids.SOCKET⟩) socketDefaultRights
      (env.rooms.tail.headD 0)
    split
    · next tbl' e hc' =>
      rw [hc'] at hs₂
      exact h₀.setTable (hs₂.close h₁) _
    · next tbl' h₂ hc' =>
      rw [hc'] at hs₂
      -- the new socket pair is not read by the invariant
      have h₁ := h₀.setTable hs₂ t.caller.task
      exact h₁.of_frame rfl h₁.tablesSound h₁.vmm rfl h₁.bindings_le

theorem Inv.sysSocketWrite (hw : w.Inv) (self : Option Thread) (handle offset length : Word)
    (env : SysInputs) : (w.sysSocketWrite self handle offset length env).1.Inv := by
  refine hw.withSelf fun t => ?_
  split
  · exact hw
  split
  · exact hw
  · exact hw.setSocket _ _

theorem Inv.sysSocketRead (hw : w.Inv) (self : Option Thread) (handle offset capacity : Word) :
    (w.sysSocketRead self handle offset capacity).1.Inv := by
  refine hw.withSelf fun t => ?_
  split
  · exact hw
  split
  · exact hw
  · exact hw.setSocket _ _

theorem Inv.recordExitOf (hw : w.Inv) (self : Option Thread) (status : Word) : (w.recordExitOf self status).Inv := by
  unfold SysWorld.recordExitOf
  split
  · split
    · exact hw.setTask _ _
    · exact hw
  · exact hw

/-! ## Every run -/

/-- **Every handler keeps the invariant**, one case per label of the switch. -/
theorem Inv.handle (hw : w.Inv) (self : Option Thread) (nr a0 a1 a2 a3 a4 : Word) (env : SysInputs) :
    (w.handle self nr a0 a1 a2 a3 a4 env).1.Inv := by
  unfold SysWorld.handle
  split
  case h_1 => exact hw.recordExitOf self a0
  case h_2 | h_3 | h_25 => exact hw
  case h_4 => exact hw.sysWrite self a0 a1
  case h_5 | h_6 | h_7 | h_8 | h_9 => exact hw.handleSyscall self nr a0 a1 env
  case h_10 => exact hw.channelCreate self a0 env
  case h_11 => exact hw.channelSend self a0 a1 a2 a3 a4 env
  case h_12 => exact hw.channelRecv self a0 a1 a2 a3 a4 env
  case h_13 => exact hw.sysObjectWait self a0 a1 a2 env
  case h_14 => exact hw.sysPortCreate self env
  case h_15 => exact hw.sysPortBind self a0 a1 a2 a3 env
  case h_16 => exact hw.sysPortUnbind self a0 a1
  case h_17 => exact hw.sysPortWait self a0 a1 a2 env
  case h_18 => exact hw.sysTaskSpawn self a0 a1 env
  case h_19 => exact hw.vmoCreate self a0 env
  case h_20 => exact hw.vmoMap self a0 a1 a2 a3 a4 env
  case h_21 => exact hw.vmoUnmap self a0
  case h_22 => exact hw.sysSocketCreate self a0 env
  case h_23 => exact hw.sysSocketWrite self a0 a1 a2 env
  case h_24 => exact hw.sysSocketRead self a0 a1 a2

/-- `syscall_dispatch` leaves the world its switch left, whether or not the thread returns. -/
theorem step_fst (w : SysWorld) (c : Call) :
    (w.step c).1 = (w.handle c.self c.nr c.a0 c.a1 c.a2 c.a3 c.a4 c.env).1 := by
  unfold step syscallDispatch
  dsimp only
  split <;> rfl

theorem Inv.step (hw : w.Inv) (c : Call) : (w.step c).1.Inv := by
  rw [step_fst]
  exact hw.handle _ _ _ _ _ _ _ _

/-- Every world a run of syscalls reaches from boot keeps the invariant. -/
theorem inv_run (arch : Mm.Arch) (zeroPage : Word) {slots : Nat} (hs : slots < 2 ^ 63) (calls : List Call) :
    (run step (boot arch zeroPage slots) calls).1.Inv :=
  run_invariant Inv (fun _ c hw => hw.step c) (inv_boot arch zeroPage hs) calls

/-- The worlds some run of syscalls reaches from boot, over an arena of fewer than `2 ^ 63`
binding slots. -/
def Reachable (w : SysWorld) : Prop :=
  ∃ (arch : Mm.Arch) (zeroPage : Word) (slots : Nat) (calls : List Call),
    slots < 2 ^ 63 ∧ (run step (boot arch zeroPage slots) calls).1 = w

theorem Reachable.inv (hr : w.Reachable) : w.Inv := by
  obtain ⟨arch, zeroPage, slots, calls, hs, rfl⟩ := hr
  exact inv_run arch zeroPage hs calls

/-- A thread of the kernel task with a one-page IPC buffer. -/
def kernelThread : Thread := ⟨⟨kernelTask, ⟨1⟩⟩, by decide⟩

/-- Inputs under which every allocation succeeds and a table grows by one batch. -/
def ampleInputs : SysInputs := ⟨fun _ => 0, [growBatch], true, 0, true, true, 0, 0, false, .ok ()⟩

/-- Boot, then one `port_create` by the kernel thread. -/
def portCreated : SysWorld :=
  (run step (boot .x86_64 0 1024)
    [⟨some kernelThread, abi.SYS_PORT_CREATE, 0, 0, 0, 0, 0, 0, ampleInputs⟩]).1

end SysWorld

end Archipelago.Syscalls
