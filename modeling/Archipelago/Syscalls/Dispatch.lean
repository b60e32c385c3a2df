import Archipelago.Syscalls.ChannelRuns
import Archipelago.Syscalls.VmoRuns
import Archipelago.Obj.Socket
import Archipelago.Lib.Bytes

/-! `syscall_dispatch` (`syscalls/dispatch.cpp`) and every handler behind it, over one world:
the tasks' handle tables and records, the channel states, the VMM, the sockets and the ports.
The channel and VMO handlers are those of `Syscalls.Channel` and `Syscalls.Vmo`, run on the
part of the world they read. Each handler follows the source's early returns and yields an
error code or its success value; the dispatcher casts that to the return register, answers
an unknown number with `-1`, and at its kill boundary sends a killed thread out through
`exit_current` instead of back to user code.

Modelling choices, beyond those of the modules reused here. What a call cannot know in
advance is an argument of the call (`SysInputs`): the bytes of the caller's IPC buffer, how
far each table insert can grow, whether the call's one allocation succeeds, an object's
signal word when read and what a blocking wait returned (other cores change both), whether a
blocked port wait ends with a packet, and what `create_user_task` returned. What the kernel
writes into the IPC buffer and to the log is left out. A spawned child gets its task record
and its two handles in the caller's table; its own table, address space and threads are
`create_user_task`'s. Port bindings keep their key, mask and object; their pending flag
serves `port_notify`, which is left out with signal delivery, so the ready queue holds
packets. The binding arena hands out at most `bindingSlots` bindings, the number that fit in
kernel memory. A thread is killed exactly when `task_kill` marked its task. -/

namespace Archipelago.Syscalls

open Archipelago.Lib Archipelago.Obj
open Archipelago.Mm (Word)

namespace abi

def SYS_EXIT : Word := 0
def SYS_YIELD : Word := 1
def SYS_SLEEP : Word := 2
def SYS_WRITE : Word := 3
def SYS_HANDLE_CLOSE : Word := 4
def SYS_HANDLE_DUPLICATE : Word := 5
def SYS_OBJ_INFO : Word := 6
def SYS_CHANNEL_CREATE : Word := 7
def SYS_CHANNEL_SEND : Word := 8
def SYS_CHANNEL_RECV : Word := 9
def SYS_OBJECT_WAIT : Word := 10
def SYS_PORT_CREATE : Word := 11
def SYS_PORT_BIND : Word := 12
def SYS_PORT_UNBIND : Word := 13
def SYS_PORT_WAIT : Word := 14
def SYS_TASK_KILL : Word := 15
def SYS_TASK_STATUS : Word := 16
def SYS_TASK_SPAWN : Word := 17
def SYS_VMO_CREATE : Word := 18
def SYS_VMO_MAP : Word := 19
def SYS_VMO_UNMAP : Word := 20
def SYS_SOCKET_CREATE : Word := 21
def SYS_SOCKET_WRITE : Word := 22
def SYS_SOCKET_READ : Word := 23

end abi

open abi

/-! ## Return encodings -/

/-- `static_cast<uint64_t>(low) | (static_cast<uint64_t>(high) << 32)` for two `uint32_t`
fields. -/
def joinHalves (low high : Nat) : Word :=
  BitVec.ofNat 64 (low % 2 ^ 32) ||| BitVec.ofNat 64 (high % 2 ^ 32) <<< 32

/-- `pack_handle`: slot index in the low 32 bits, generation in the high 32. -/
def packHandle (id : HandleId) : Word := joinHalves id.index id.generation

/-- `unpack_handle`. -/
def unpackHandle (handle : Word) : HandleId :=
  ⟨(handle.setWidth 32).toNat, ((handle >>> 32).setWidth 32).toNat⟩

/-- `op_info`: the object's type id in the low 32 bits, the handle's rights in the high 32. -/
def opInfo (v : VerifiedHandle) : Word := joinHalves v.object.typeId v.rights.toNat

/-- `sys_channel_recv`'s `(delivered << 32) | message.size()`, in 64 bits. -/
def recvReturn (delivered size : Nat) : Word := BitVec.ofNat 64 delivered <<< 32 ||| BitVec.ofNat 64 size

/-- `static_cast<uint64_t>(-1)`, the answer to an unknown number. -/
def unknownReturn : Word := BitVec.ofInt 64 (-1)

/-! ## Tasks, ports and the world -/

/-- `task_state`. -/
inductive TaskState
  | new
  | running
  | terminated
  deriving DecidableEq, Repr

/-- The exit causes `record_exit` is called with: `TASK_EXIT_EXITED`, `_KILLED`, `_FAULTED`. -/
inductive ExitCause
  | exited
  | killed
  | faulted
  deriving DecidableEq, Repr

def ExitCause.code : ExitCause → Nat
  | .exited => 0
  | .killed => 1
  | .faulted => 2

/-- A `Task` as the syscalls see it: its state, the exit record, whether `task_kill` marked
its threads, and whether it has a thread that is not DEAD. -/
structure TaskRecord where
  state : TaskState := .new
  exitRecorded : Bool := false
  exitCause : ExitCause := .exited
  exitStatus : BitVec 32 := 0
  killed : Bool := false
  anyLive : Bool := true
  deriving DecidableEq, Repr

namespace TaskRecord

/-- `Task::record_exit`: the first record wins. -/
def recordExit (r : TaskRecord) (cause : ExitCause) (status : BitVec 32) : TaskRecord :=
  if r.exitRecorded then r else { r with exitRecorded := true, exitCause := cause, exitStatus := status }

/-- `Task::exit_code`: `(cause << 32) | status`. -/
def exitCode (r : TaskRecord) : Word := joinHalves r.exitStatus.toNat r.exitCause.code

end TaskRecord

/-- `port_binding`: its key, its mask and the object it watches. -/
structure PortBinding where
  key : Word
  mask : BitVec 32
  object : Object
  deriving DecidableEq, Repr

/-- `Port`: its bindings, newest first as `port_next` links them, and the packets pending on
its ready FIFO. -/
structure Port where
  bindings : List PortBinding := []
  ready : List (Word × BitVec 32) := []
  deriving DecidableEq, Repr

namespace Port

/-- `Port::bind` once its binding slot is allocated: a signal already inside the mask queues
a packet at once. -/
def bind (p : Port) (object : Object) (key : Word) (mask signals : BitVec 32) : Except Errc Port :=
  if mask = 0 then .error .invalidOperation
  else
    .ok { bindings := ⟨key, mask, object⟩ :: p.bindings
          ready := if signals &&& mask ≠ 0 then p.ready ++ [(key, signals &&& mask)] else p.ready }

/-- `Port::unbind`: every binding with `key` goes, with its pending packet; the count of
bindings dropped. -/
def unbind (p : Port) (key : Word) : Port × Nat :=
  ({ bindings := p.bindings.filter (·.key != key), ready := p.ready.filter (·.1 != key) },
    p.bindings.countP (·.key == key))

/-- `Port::dequeue`: the oldest pending packet. -/
def dequeue (p : Port) : Option ((Word × BitVec 32) × Port) :=
  match p.ready with
  | [] => none
  | packet :: rest => some (packet, { p with ready := rest })

end Port

/-- `Socket::DEFAULT_RIGHTS`. -/
def socketDefaultRights : Rights := rightRead ||| rightWrite ||| rightWait

/-- `Port::DEFAULT_RIGHTS`. -/
def portDefaultRights : Rights := rightRead ||| rightWrite ||| rightWait

/-- The rights `task_spawn` gives the caller's handle to the child. -/
def spawnedTaskRights : Rights := rightRead ||| rightWrite ||| rightDuplicate ||| rightWait

/-- `IPC_BUFFER_MAX_PAGES`. -/
def ipcBufferMaxPages : Nat := 16

/-- A thread as the syscalls see it: its task and its IPC buffer, which `ipc_buffer::create`
made of at most `IPC_BUFFER_MAX_PAGES` pages. -/
structure Thread where
  caller : Caller
  pages_le : caller.ipc.pages ≤ ipcBufferMaxPages

/-- Everything the syscalls act on. Task `k`'s table is `tables[k]` and its record
`tasks[k]`; `taskOf`, `portOf` and `socketOf` say which task, port and socket end an object
of that type is. A VMO's object id is its index in the VMM; every other object takes
`nextObject`. -/
structure SysWorld where
  registry : TypeRegistry
  tables : List HandleTable
  tasks : List TaskRecord
  taskOf : ObjectId → Nat
  states : List ChannelState
  endpointOf : ObjectId → Option (Nat × Side)
  nextObject : ObjectId
  vmm : Mm.Vmm
  aspaceOf : List (Option Nat)
  sockets : List SocketPair
  socketOf : ObjectId → Nat × Side
  ports : List Port
  portOf : ObjectId → Nat
  bindingSlots : Nat

/-- What a call finds out only as it runs. -/
structure SysInputs where
  ipc : Nat → UInt8
  rooms : List Nat
  allocOk : Bool
  pushed : Nat
  allocSlot : Bool
  addOk : Bool
  signals : BitVec 32
  woke : BitVec 32
  packetArrives : Bool
  spawned : Except Errc Unit

/-- The little-endian `uint64_t` at `off` of a buffer. -/
def readWord (mem : Nat → UInt8) (off : Nat) : Word :=
  BitVec.ofNat 64 (readLE ((List.range 8).map fun j => mem (off + j)) 0 8)

namespace SysWorld

variable (w : SysWorld)

/-- `task->handles()`. -/
def table (k : Nat) : HandleTable := w.tables.getD k {}

def setTable (k : Nat) (t : HandleTable) : SysWorld := { w with tables := w.tables.set k t }

def task (k : Nat) : TaskRecord := w.tasks.getD k {}

def setTask (k : Nat) (r : TaskRecord) : SysWorld := { w with tasks := w.tasks.set k r }

def port (n : Nat) : Port := w.ports.getD n {}

def setPort (n : Nat) (p : Port) : SysWorld := { w with ports := w.ports.set n p }

def socket (n : Nat) : SocketPair := w.sockets.getD n SocketPair.create

def setSocket (n : Nat) (st : SocketPair) : SysWorld := { w with sockets := w.sockets.set n st }

/-- The bindings held by every port. -/
def liveBindings : Nat := (w.ports.map fun p => p.bindings.length).sum

/-- The part of the world the channel syscalls read. -/
def toChannelWorld : ChannelWorld := ⟨w.registry, w.tables, w.states, w.endpointOf, w.nextObject⟩

def withChannelWorld (c : ChannelWorld) : SysWorld :=
  { w with registry := c.registry, tables := c.tables, states := c.states, endpointOf := c.endpointOf,
           nextObject := c.nextObject }

/-- The part of the world the VMO syscalls read. -/
def toVmoWorld : VmoWorld := ⟨w.vmm, w.registry, w.tables, w.aspaceOf⟩

def withVmoWorld (v : VmoWorld) : SysWorld :=
  { w with vmm := v.vmm, registry := v.registry, tables := v.tables, aspaceOf := v.aspaceOf }

/-- The prologue of every handler that acts for a thread:
`if (!self) return errc_of(errc::invalid_operation)`. -/
def withSelf (self : Option Thread) (k : Thread → SysWorld × Except Errc Word) :
    SysWorld × Except Errc Word :=
  match self with
  | none => (w, .error .invalidOperation)
  | some t => k t

/-- Lift a result that leaves the world as it is. -/
def keep (r : Except Errc Word) : SysWorld × Except Errc Word := (w, r)

end SysWorld

/-! ## `sys_write` and the page-run loops -/

/-- The copy loop of `sys_write` from `written` bytes on: each pass takes what is left of the
page at `offset + written`, or the rest. -/
def writeRuns (offset length : Nat) : Nat → Nat → Nat
  | 0, written => written
  | fuel + 1, written =>
    if written < length then
      writeRuns offset length fuel
        (written + min (pageSize - (offset + written) % pageSize) (length - written))
    else written

/-- The loop `sys_socket_write` and `sys_socket_read` share, from `done` bytes on: each pass
offers `call` what is left of the page at `offset + done`, or the rest; an error after some
bytes moved, or a short count, ends it with the count. -/
def socketRuns (call : SocketPair → Nat → Nat → SocketPair × Except Errc Nat) (offset length : Nat) :
    Nat → Nat → SocketPair → SocketPair × Except Errc Nat
  | 0, done, st => (st, .ok done)
  | fuel + 1, done, st =>
    if done < length then
      let attempt := min (pageSize - (offset + done) % pageSize) (length - done)
      match call st done attempt with
      | (st', .error e) => (st', if done ≠ 0 then .ok done else .error e)
      | (st', .ok moved) =>
        if moved < attempt then (st', .ok (done + moved))
        else socketRuns call offset length fuel (done + moved) st'
    else (st, .ok done)

/-- One pass of `sys_socket_write`: `socket->write` of the `attempt` buffer bytes at
`offset + done`. -/
def socketWriteCall (mem : Nat → UInt8) (side : Side) (offset : Nat) (st : SocketPair) (done attempt : Nat) :
    SocketPair × Except Errc Nat :=
  st.write side ((List.range attempt).map fun j => mem (offset + done + j))

/-- One pass of `sys_socket_read`: `socket->read` of at most `space` bytes. -/
def socketReadCall (side : Side) (st : SocketPair) (_done space : Nat) : SocketPair × Except Errc Nat :=
  let r := st.read side space
  (r.1, r.2.1)

namespace SysWorld

variable (w : SysWorld)

/-- `sys_write`: the range must lie in the caller's IPC buffer; the bytes go to the log. -/
def sysWrite (self : Option Thread) (offset length : Word) : SysWorld × Except Errc Word :=
  w.withSelf self fun t =>
    if !t.caller.ipc.valid || !t.caller.ipc.contains offset.toNat length.toNat then w.keep (.error .outOfRange)
    else w.keep (.ok (BitVec.ofNat 64 (writeRuns offset.toNat length.toNat length.toNat 0)))

/-! ## Handle operations (`obj/handle_dispatch.cpp`) -/

/-- `task_kill` on task `k`: refused for the kernel task, nothing to do for a terminated
task or one whose threads are all dead; otherwise it records KILLED and marks the threads.
`snapshotOk` is whether `snapshot_threads` could allocate. -/
def taskKill (k : Nat) (snapshotOk : Bool) : SysWorld × Except Errc Unit :=
  if k = kernelTask then (w, .error .invalidOperation)
  else if (w.task k).state = .terminated then (w, .ok ())
  else if !snapshotOk then (w, .error .oom)
  else if !(w.task k).anyLive then (w, .ok ())
  else (w.setTask k { (w.task k).recordExit .killed 0 with killed := true }, .ok ())

/-- `op_task_status`. -/
def opTaskStatus (v : VerifiedHandle) : Except Errc Word :=
  let r := w.task (w.taskOf v.object.id)
  if r.state ≠ .terminated then .error .wouldBlock else .ok r.exitCode

end SysWorld

/-- The handlers of the op table. -/
inductive HandleOpKind
  | close
  | duplicate
  | info
  | taskKill
  | taskStatus
  deriving DecidableEq, Repr

/-- `op_spec`: a row of `OPS`. -/
structure OpSpec where
  nr : Word
  expectedType : TypeId
  requiredRights : Rights
  handler : HandleOpKind

/-- `OPS`. -/
def ops : List OpSpec :=
  [⟨SYS_HANDLE_CLOSE, type_ids.INVALID, 0, .close⟩,
   ⟨SYS_HANDLE_DUPLICATE, type_ids.INVALID, rightDuplicate, .duplicate⟩,
   ⟨SYS_OBJ_INFO, type_ids.INVALID, 0, .info⟩,
   ⟨SYS_TASK_KILL, type_ids.TASK, rightWrite, .taskKill⟩,
   ⟨SYS_TASK_STATUS, type_ids.TASK, rightRead, .taskStatus⟩]

namespace SysWorld

variable (w : SysWorld)

/-- A handler of the op table on task `k`'s table, once the handle verified. -/
def runOp (k : Nat) (id : HandleId) (v : VerifiedHandle) (arg : Word) (env : SysInputs) :
    HandleOpKind → SysWorld × Except Errc Word
  | .close =>
    let r := (w.table k).close id
    (w.setTable k r.1, r.2.map fun _ => 0)
  | .duplicate =>
    let r := (w.table k).duplicate w.registry id (arg.setWidth 32) (env.rooms.headD 0)
    (w.setTable k r.1, r.2.map packHandle)
  | .info => w.keep (.ok (opInfo v))
  | .taskKill =>
    let r := w.taskKill (w.taskOf v.object.id) env.allocOk
    (r.1, r.2.map fun _ => 0)
  | .taskStatus => w.keep (w.opTaskStatus v)

/-- `dispatch_handle_op`: the first row for `nr`, the verify pipeline with its type and
rights, then its handler. -/
def dispatchHandleOp (k : Nat) (nr handle arg : Word) (env : SysInputs) : SysWorld × Except Errc Word :=
  match ops.find? (·.nr == nr) with
  | none => w.keep (.error .invalidOperation)
  | some op =>
    match (w.table k).verify (unpackHandle handle) op.requiredRights op.expectedType with
    | .error e => w.keep (.error e)
    | .ok v => w.runOp k (unpackHandle handle) v arg env op.handler

/-- `handle_syscall`: the pipeline on the calling task's table. -/
def handleSyscall (self : Option Thread) (nr a0 a1 : Word) (env : SysInputs) : SysWorld × Except Errc Word :=
  w.withSelf self fun t => w.dispatchHandleOp t.caller.task nr a0 a1 env

/-! ## Channels and VMOs, on the part of the world they read -/

/-- `sys_channel_create`. -/
def channelCreate (self : Option Thread) (offset : Word) (env : SysInputs) : SysWorld × Except Errc Word :=
  w.withSelf self fun t =>
    let r := w.toChannelWorld.sysChannelCreate t.caller offset.toNat env.allocOk (env.rooms.headD 0)
      (env.rooms.tail.headD 0)
    (w.withChannelWorld r.1, r.2.map fun _ => 0)

/-- The handle values `sys_channel_send` reads from the buffer. Past `MAX_HANDLES` the call is
refused before any value is read, so one value beyond it is read here instead of them all. -/
def sendValues (mem : Nat → UInt8) (handlesOffset count : Nat) : List HandleId :=
  (List.range (min count (maxMessageHandles + 1))).map fun i => unpackHandle (readWord mem (handlesOffset + 8 * i))

/-- `sys_channel_send`. -/
def channelSend (self : Option Thread) (handle offset length handlesOffset handleCount : Word)
    (env : SysInputs) : SysWorld × Except Errc Word :=
  w.withSelf self fun t =>
    let r := w.toChannelWorld.sysChannelSend t.caller (unpackHandle handle) offset.toNat length.toNat
      handlesOffset.toNat (sendValues env.ipc handlesOffset.toNat handleCount.toNat) env.allocOk env.rooms
    (w.withChannelWorld r.1, r.2.map fun _ => 0)

/-- `sys_channel_recv`: `(delivered << 32) | size`. -/
def channelRecv (self : Option Thread) (handle offset capacity handlesOffset handleCapacity : Word)
    (env : SysInputs) : SysWorld × Except Errc Word :=
  w.withSelf self fun t =>
    let r := w.toChannelWorld.sysChannelRecv t.caller (unpackHandle handle) offset.toNat capacity.toNat
      handlesOffset.toNat handleCapacity.toNat env.rooms
    (w.withChannelWorld r.1, r.2.map fun m => recvReturn m.1.length m.2)

/-- `sys_vmo_create`. -/
def vmoCreate (self : Option Thread) (size : Word) (env : SysInputs) : SysWorld × Except Errc Word :=
  w.withSelf self fun t =>
    let r := w.toVmoWorld.sysVmoCreate t.caller.task size env.pushed env.allocOk (env.rooms.headD 0)
    (w.withVmoWorld r.1, r.2.map packHandle)

end SysWorld

namespace VmoWorld

/-- `sys_vmo_map` before the cast to the return register: the error of the `return` that ran,
or the base. `sysVmoMap` is this with `returnValue` applied (`sysVmoMap_eq_outcome`). -/
def sysVmoMapOutcome (w : VmoWorld) (caller : Nat) (handle : HandleId) (vaddr vmoOffset length prot : Word)
    (allocSlot addOk : Bool) : VmoWorld × Except Errc Word :=
  if prot = 0 || prot &&& ~~~mappable != 0 then (w, .error .invalidOperation)
  else
    match w.aspace caller with
    | none => (w, .error .invalidOperation)
    | some i =>
      match w.vmm.aspaces[i]? with
      | none => (w, .error .invalidOperation)
      | some a =>
        match (w.table caller).verify handle (neededRights prot) type_ids.VMO with
        | .error e => (w, .error e)
        | .ok v =>
          if vaddr = 0 then
            let (root, s, res) := a.root.mapAnywhere (w.vmm.vmState i a) userMapFloor length
              (some v.object.id) vmoOffset (userProt prot) .cached allocSlot addOk
            ({ w with vmm := w.vmm.writeBack i a root s }, res)
          else
            let (root, s, res) := a.root.map (w.vmm.vmState i a) vaddr length (some v.object.id)
              vmoOffset (userProt prot) .cached allocSlot addOk
            ({ w with vmm := w.vmm.writeBack i a root s }, res.map fun _ => vaddr)

/-- `sys_vmo_unmap` before the cast to the return register. -/
def sysVmoUnmapOutcome (w : VmoWorld) (caller : Nat) (vaddr : Word) : VmoWorld × Except Errc Word :=
  match w.aspace caller with
  | none => (w, .error .invalidOperation)
  | some i =>
    match w.vmm.aspaces[i]? with
    | none => (w, .error .invalidOperation)
    | some a =>
      let (root, s, res) := a.root.unmapBinding (w.vmm.vmState i a) vaddr
      ({ w with vmm := w.vmm.writeBack i a root s }, res.map fun _ => 0)

end VmoWorld

namespace SysWorld

variable (w : SysWorld)

/-- `sys_vmo_map`. -/
def vmoMap (self : Option Thread) (handle vaddr vmoOffset length prot : Word) (env : SysInputs) :
    SysWorld × Except Errc Word :=
  w.withSelf self fun t =>
    let r := w.toVmoWorld.sysVmoMapOutcome t.caller.task (unpackHandle handle) vaddr vmoOffset length prot
      env.allocSlot env.addOk
    (w.withVmoWorld r.1, r.2)

/-- `sys_vmo_unmap`. -/
def vmoUnmap (self : Option Thread) (vaddr : Word) : SysWorld × Except Errc Word :=
  w.withSelf self fun t =>
    let r := w.toVmoWorld.sysVmoUnmapOutcome t.caller.task vaddr
    (w.withVmoWorld r.1, r.2)

/-! ## Object waits and ports -/

/-- `sys_object_wait`: a poll with a zero mask, else a wait, bounded when `timeout_ns` is not
zero. -/
def sysObjectWait (self : Option Thread) (handle mask timeoutNs : Word) (env : SysInputs) :
    SysWorld × Except Errc Word :=
  w.withSelf self fun t =>
    if mask >>> 32 ≠ 0 then w.keep (.error .outOfRange)
    else
      match (w.table t.caller.task).verify (unpackHandle handle) rightWait type_ids.INVALID with
      | .error e => w.keep (.error e)
      | .ok _ =>
        if mask = 0 then w.keep (.ok (env.signals.setWidth 64))
        else if timeoutNs = 0 then w.keep (.ok (env.woke.setWidth 64))
        else if env.woke.setWidth 64 &&& mask = 0 then w.keep (.error .timedOut)
        else w.keep (.ok (env.woke.setWidth 64))

/-- `sys_port_create`: `emplace<Port>` in the caller's table; `allocOk` is whether the port
could be allocated. -/
def sysPortCreate (self : Option Thread) (env : SysInputs) : SysWorld × Except Errc Word :=
  w.withSelf self fun t =>
    let o : Object := ⟨w.nextObject, type_ids.PORT⟩
    match (w.table t.caller.task).emplace w.registry (if env.allocOk then some o else none)
        portDefaultRights (env.rooms.headD 0) with
    | (tbl, .error e) => (w.setTable t.caller.task tbl, .error e)
    | (tbl, .ok id) =>
      ({ w.setTable t.caller.task tbl with
          nextObject := w.nextObject + 1
          ports := w.ports ++ [{}]
          portOf := fun x => if x = o.id then w.ports.length else w.portOf x },
        .ok (packHandle id))

/-- `sys_port_bind`: the mask check, the port (write right) and the object (wait right), the
binding slot from the arena, then `Port::bind`. -/
def sysPortBind (self : Option Thread) (portHandle objectHandle key mask : Word) (env : SysInputs) :
    SysWorld × Except Errc Word :=
  w.withSelf self fun t =>
    if mask = 0 ∨ mask >>> 32 ≠ 0 then w.keep (.error .outOfRange)
    else
      match (w.table t.caller.task).get (unpackHandle portHandle) rightWrite type_ids.PORT with
      | .error e => w.keep (.error e)
      | .ok p =>
        match (w.table t.caller.task).verify (unpackHandle objectHandle) rightWait type_ids.INVALID with
        | .error e => w.keep (.error e)
        | .ok v =>
          if !env.allocOk || w.bindingSlots ≤ w.liveBindings then w.keep (.error .oom)
          else
            match (w.port (w.portOf p.id)).bind v.object key (mask.setWidth 32) env.signals with
            | .error e => w.keep (.error e)
            | .ok p' => (w.setPort (w.portOf p.id) p', .ok 0)

/-- `sys_port_unbind`: the count of bindings dropped. -/
def sysPortUnbind (self : Option Thread) (portHandle key : Word) : SysWorld × Except Errc Word :=
  w.withSelf self fun t =>
    match (w.table t.caller.task).get (unpackHandle portHandle) rightWrite type_ids.PORT with
    | .error e => w.keep (.error e)
    | .ok p =>
      let r := (w.port (w.portOf p.id)).unbind key
      (w.setPort (w.portOf p.id) r.1, .ok (BitVec.ofNat 64 r.2))

/-- `sys_port_wait`: a pending packet is taken at once; otherwise the loop waits, and ends
with a packet or, killed or past the deadline, with `timed_out`. -/
def sysPortWait (self : Option Thread) (portHandle offset _timeoutNs : Word) (env : SysInputs) :
    SysWorld × Except Errc Word :=
  w.withSelf self fun t =>
    if !t.caller.ipc.valid || !t.caller.ipc.contains offset.toNat 16 then w.keep (.error .outOfRange)
    else
      match (w.table t.caller.task).get (unpackHandle portHandle) (rightRead ||| rightWait) type_ids.PORT with
      | .error e => w.keep (.error e)
      | .ok p =>
        match (w.port (w.portOf p.id)).dequeue with
        | some (_, p') => (w.setPort (w.portOf p.id) p', .ok 0)
        | none => w.keep (if env.packetArrives then .ok 0 else .error .timedOut)

/-! ## Tasks and sockets -/

/-- `sys_task_spawn`: the buffer check, the image (a VMO, read right), `create_user_task`, then
the child's handle and its mailbox end into the caller's table; a failed insert kills the
child, closing the first handle if it was the second that failed. -/
def sysTaskSpawn (self : Option Thread) (handle offset : Word) (env : SysInputs) : SysWorld × Except Errc Word :=
  w.withSelf self fun t =>
    if !t.caller.ipc.valid || !t.caller.ipc.contains offset.toNat 16 then w.keep (.error .outOfRange)
    else
      let k := t.caller.task
      match (w.table k).verify (unpackHandle handle) rightRead type_ids.VMO with
      | .error e => w.keep (.error e)
      | .ok _ =>
        match env.spawned with
        | .error e => w.keep (.error e)
        | .ok () =>
          let child := w.tasks.length
          let taskObject : Object := ⟨w.nextObject, type_ids.TASK⟩
          let mailbox : Object := ⟨w.nextObject + 1, type_ids.CHANNEL⟩
          let w₀ : SysWorld :=
            { w with
              nextObject := w.nextObject + 2
              tasks := w.tasks ++ [{ state := .running }]
              taskOf := fun x => if x = taskObject.id then child else w.taskOf x }
          match (w₀.table k).insert w₀.registry (some taskObject) spawnedTaskRights (env.rooms.headD 0) with
          | (tbl, .error e) => (((w₀.setTable k tbl).taskKill child true).1, .error e)
          | (tbl, .ok h₁) =>
            match tbl.insert w₀.registry (some mailbox) channelDefaultRights (env.rooms.tail.headD 0) with
            | (tbl', .error e) => (((w₀.setTable k (tbl'.close h₁).1).taskKill child true).1, .error e)
            | (tbl', .ok _) => (w₀.setTable k tbl', .ok 0)

/-- `sys_socket_create`: the buffer check, `Socket::create` (`allocOk`), and both ends into
the caller's table; if the second insert fails the first is closed again. -/
def sysSocketCreate (self : Option Thread) (offset : Word) (env : SysInputs) : SysWorld × Except Errc Word :=
  w.withSelf self fun t =>
    if !t.caller.ipc.valid || !t.caller.ipc.contains offset.toNat 16 then w.keep (.error .outOfRange)
    else if !env.allocOk then w.keep (.error .oom)
    else
      let k := t.caller.task
      let first : Object := ⟨w.nextObject, type_ids.SOCKET⟩
      let second : Object := ⟨w.nextObject + 1, type_ids.SOCKET⟩
      let w₀ : SysWorld := { w with nextObject := w.nextObject + 2 }
      match (w₀.table k).insert w₀.registry (some first) socketDefaultRights (env.rooms.headD 0) with
      | (tbl, .error e) => (w₀.setTable k tbl, .error e)
      | (tbl, .ok h₁) =>
        match tbl.insert w₀.registry (some second) socketDefaultRights (env.rooms.tail.headD 0) with
        | (tbl', .error e) => (w₀.setTable k (tbl'.close h₁).1, .error e)
        | (tbl', .ok _) =>
          let n := w₀.sockets.length
          ({ w₀.setTable k tbl' with
              sockets := w₀.sockets ++ [SocketPair.create]
              socketOf := fun x =>
                if x = first.id then (n, .first) else if x = second.id then (n, .second) else w₀.socketOf x },
            .ok 0)

/-- `sys_socket_write`: the buffer check, the socket (write right), then the page-run loop. -/
def sysSocketWrite (self : Option Thread) (handle offset length : Word) (env : SysInputs) :
    SysWorld × Except Errc Word :=
  w.withSelf self fun t =>
    if !t.caller.ipc.valid || !t.caller.ipc.contains offset.toNat length.toNat then w.keep (.error .outOfRange)
    else
      match (w.table t.caller.task).verify (unpackHandle handle) rightWrite type_ids.SOCKET with
      | .error e => w.keep (.error e)
      | .ok v =>
        let (n, side) := w.socketOf v.object.id
        let r := socketRuns (socketWriteCall env.ipc side offset.toNat) offset.toNat length.toNat
          length.toNat 0 (w.socket n)
        (w.setSocket n r.1, r.2.map fun done => BitVec.ofNat 64 done)

/-- `sys_socket_read`: the buffer check, the socket (read right), then the page-run loop. -/
def sysSocketRead (self : Option Thread) (handle offset capacity : Word) : SysWorld × Except Errc Word :=
  w.withSelf self fun t =>
    if !t.caller.ipc.valid || !t.caller.ipc.contains offset.toNat capacity.toNat then w.keep (.error .outOfRange)
    else
      match (w.table t.caller.task).verify (unpackHandle handle) rightRead type_ids.SOCKET with
      | .error e => w.keep (.error e)
      | .ok v =>
        let (n, side) := w.socketOf v.object.id
        let r := socketRuns (socketReadCall side) offset.toNat capacity.toNat capacity.toNat 0 (w.socket n)
        (w.setSocket n r.1, r.2.map fun done => BitVec.ofNat 64 done)

/-! ## `syscall_dispatch` -/

/-- `SYS_EXIT`'s record: the low 32 bits of the status on the calling task, unless it is task
zero. -/
def recordExitOf (self : Option Thread) (status : Word) : SysWorld :=
  match self with
  | some t => if t.caller.task ≠ kernelTask then
      w.setTask t.caller.task ((w.task t.caller.task).recordExit .exited (status.setWidth 32))
    else w
  | none => w

/-- Whether the calling thread is marked killed. -/
def killedThread (self : Option Thread) : Bool :=
  match self with
  | some t => (w.task t.caller.task).killed
  | none => false

end SysWorld

/-- The `case` labels of the switch of `syscall_dispatch`. -/
inductive Syscall
  | exit | yield | sleep | write | handleClose | handleDuplicate | objInfo | channelCreate
  | channelSend | channelRecv | objectWait | portCreate | portBind | portUnbind | portWait
  | taskKill | taskStatus | taskSpawn | vmoCreate | vmoMap | vmoUnmap | socketCreate
  | socketWrite | socketRead
  deriving DecidableEq, Repr

namespace Syscall

/-- The label's number in `<abi/syscall.h>`. -/
def nr : Syscall → Word
  | .exit => SYS_EXIT
  | .yield => SYS_YIELD
  | .sleep => SYS_SLEEP
  | .write => SYS_WRITE
  | .handleClose => SYS_HANDLE_CLOSE
  | .handleDuplicate => SYS_HANDLE_DUPLICATE
  | .objInfo => SYS_OBJ_INFO
  | .channelCreate => SYS_CHANNEL_CREATE
  | .channelSend => SYS_CHANNEL_SEND
  | .channelRecv => SYS_CHANNEL_RECV
  | .objectWait => SYS_OBJECT_WAIT
  | .portCreate => SYS_PORT_CREATE
  | .portBind => SYS_PORT_BIND
  | .portUnbind => SYS_PORT_UNBIND
  | .portWait => SYS_PORT_WAIT
  | .taskKill => SYS_TASK_KILL
  | .taskStatus => SYS_TASK_STATUS
  | .taskSpawn => SYS_TASK_SPAWN
  | .vmoCreate => SYS_VMO_CREATE
  | .vmoMap => SYS_VMO_MAP
  | .vmoUnmap => SYS_VMO_UNMAP
  | .socketCreate => SYS_SOCKET_CREATE
  | .socketWrite => SYS_SOCKET_WRITE
  | .socketRead => SYS_SOCKET_READ

def all : List Syscall :=
  [exit, yield, sleep, write, handleClose, handleDuplicate, objInfo, channelCreate, channelSend,
   channelRecv, objectWait, portCreate, portBind, portUnbind, portWait, taskKill, taskStatus,
   taskSpawn, vmoCreate, vmoMap, vmoUnmap, socketCreate, socketWrite, socketRead]

/-- The label `nr` matches, if any. -/
def ofNr (nr : Word) : Option Syscall := all.find? (·.nr == nr)

end Syscall

/-- What the switch of `syscall_dispatch` made of a call. -/
inductive Handled
  | exit
  | returned (r : Except Errc Word)
  | unknown

namespace SysWorld

variable (w : SysWorld)

/-- Lift a handler's result. -/
def ret (r : SysWorld × Except Errc Word) : SysWorld × Handled := (r.1, .returned r.2)

/-- The switch of `syscall_dispatch`. -/
def handle (self : Option Thread) (nr a0 a1 a2 a3 a4 : Word) (env : SysInputs) : SysWorld × Handled :=
  match Syscall.ofNr nr with
  | some .exit => (w.recordExitOf self a0, .exit)
  | some .yield | some .sleep => (w, .returned (.ok 0))
  | some .write => ret (w.sysWrite self a0 a1)
  | some .handleClose | some .handleDuplicate | some .objInfo | some .taskKill | some .taskStatus =>
    ret (w.handleSyscall self nr a0 a1 env)
  | some .channelCreate => ret (w.channelCreate self a0 env)
  | some .channelSend => ret (w.channelSend self a0 a1 a2 a3 a4 env)
  | some .channelRecv => ret (w.channelRecv self a0 a1 a2 a3 a4 env)
  | some .objectWait => ret (w.sysObjectWait self a0 a1 a2 env)
  | some .portCreate => ret (w.sysPortCreate self env)
  | some .portBind => ret (w.sysPortBind self a0 a1 a2 a3 env)
  | some .portUnbind => ret (w.sysPortUnbind self a0 a1)
  | some .portWait => ret (w.sysPortWait self a0 a1 a2 env)
  | some .taskSpawn => ret (w.sysTaskSpawn self a0 a1 env)
  | some .vmoCreate => ret (w.vmoCreate self a0 env)
  | some .vmoMap => ret (w.vmoMap self a0 a1 a2 a3 a4 env)
  | some .vmoUnmap => ret (w.vmoUnmap self a0)
  | some .socketCreate => ret (w.sysSocketCreate self a0 env)
  | some .socketWrite => ret (w.sysSocketWrite self a0 a1 a2 env)
  | some .socketRead => ret (w.sysSocketRead self a0 a1 a2)
  | none => (w, .unknown)

/-- `syscall_dispatch`: the return register, or nothing when the thread leaves through
`exit_current`, at `SYS_EXIT` or at the kill boundary. -/
def syscallDispatch (self : Option Thread) (nr a0 a1 a2 a3 a4 _a5 : Word) (env : SysInputs) :
    SysWorld × Option Word :=
  let r := w.handle self nr a0 a1 a2 a3 a4 env
  match r.2 with
  | .exit => (r.1, none)
  | .returned res => (r.1, if r.1.killedThread self then none else some (returnValue res))
  | .unknown => (r.1, if r.1.killedThread self then none else some unknownReturn)

/-! ## Boot -/

/-- The registrations `obj_init` makes, after `vmm_init`'s: type id, name, valid and default
rights. -/
def objInitTypes : List (TypeId × String × Rights × Rights) :=
  [(type_ids.EVENT, "event", rightRead ||| rightSignal ||| rightDuplicate, rightRead ||| rightSignal),
   (type_ids.CHANNEL, "channel", channelDefaultRights, channelDefaultRights),
   (type_ids.SOCKET, "socket", socketDefaultRights, socketDefaultRights),
   (type_ids.PORT, "port", portDefaultRights, portDefaultRights),
   (type_ids.THREAD, "thread", rightRead ||| rightWait ||| rightDuplicate, rightRead ||| rightWait),
   (type_ids.TASK, "task", spawnedTaskRights, rightRead)]

/-- The world once boot has run `vmm_init` and `obj_init`: every type registered, task zero
with an empty table and no address space, nothing else made yet. `bindingSlots` is how many
bindings the kernel's memory can hold. -/
def boot (arch : Mm.Arch) (zeroPage : Word) (bindingSlots : Nat) : SysWorld where
  registry := objInitTypes.foldl (fun reg d => (reg.registerType d.1 d.2.1 d.2.2.1 d.2.2.2).1)
    (VmoWorld.init arch zeroPage).registry
  tables := [{}]
  tasks := [{ state := .running }]
  taskOf := fun _ => kernelTask
  states := []
  endpointOf := fun _ => none
  nextObject := 0
  vmm := (VmoWorld.init arch zeroPage).vmm
  aspaceOf := [none]
  sockets := []
  socketOf := fun _ => (0, .first)
  ports := []
  portOf := fun _ => 0
  bindingSlots := bindingSlots

end SysWorld

/-! ## The system -/

/-- A trap into `syscall_dispatch`: the calling thread, the number and the six argument
registers, and what the call finds out as it runs. -/
structure Call where
  self : Option Thread
  nr : Word
  a0 : Word
  a1 : Word
  a2 : Word
  a3 : Word
  a4 : Word
  a5 : Word
  env : SysInputs

/-- One step of the system: a call dispatched, and the register user code gets back, if the
thread returns to it. -/
def SysWorld.step (w : SysWorld) (c : Call) : SysWorld × Option Word :=
  w.syscallDispatch c.self c.nr c.a0 c.a1 c.a2 c.a3 c.a4 c.a5 c.env

end Archipelago.Syscalls
