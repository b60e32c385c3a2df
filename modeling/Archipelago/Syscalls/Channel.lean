import Archipelago.Obj.Channel

/-! The channel syscalls (`syscalls/channel.cpp`) over a world of tasks. Each task has
a handle table; task zero, the kernel task, also escrows every handle in flight. A
send takes each listed handle out of the sender's table and inserts its reference
into the kernel table, attaching the new id to the message; a recv moves each
escrowed reference into the receiver's table. Any failure after the first take drops
the message, which closes what it escrowed.

Modelling choices: each syscall is one atomic step (the channel lock and the table
locks make every part atomic, and a race between the pre-check and the write is
covered because the write checks again); the IPC buffer is its page count, and the
handle values a send reads from it are an argument; whether a page or an object can
be allocated, and how many slots each table insert can grow by, are arguments; an
endpoint whose last handle is gone may be destroyed by a separate `destroy` step,
which the source runs inside the call that drops that reference. -/

namespace Archipelago.Syscalls

open Archipelago.Lib Archipelago.Obj

/-- `KERNEL_MINIMUM_PAGE_SIZE`. -/
def pageSize : Nat := 0x1000

/-- A thread's IPC buffer as its bounds checks see it: the number of pages. -/
structure IpcBuffer where
  pages : Nat
  deriving DecidableEq, Repr

namespace IpcBuffer

/-- `ipc_buffer::valid`. -/
def valid (b : IpcBuffer) : Bool := b.pages != 0

/-- `ipc_buffer::size_bytes`. -/
def sizeBytes (b : IpcBuffer) : Nat := b.pages * pageSize

/-- `ipc_buffer::contains`: `[offset, offset + length)` inside the buffer, tested without
forming the sum. -/
def contains (b : IpcBuffer) (offset length : Nat) : Bool :=
  decide (offset ≤ b.sizeBytes) && decide (length ≤ b.sizeBytes - offset)

end IpcBuffer

/-- The calling thread: its task and its IPC buffer. -/
structure Caller where
  task : Nat
  ipc : IpcBuffer
  deriving DecidableEq, Repr

/-- Task zero, whose table holds kernel threads' handles and every handle in flight. -/
def kernelTask : Nat := 0

/-- The tasks' handle tables, every `channel_state` made so far, and which pair and
side each endpoint object is. -/
structure ChannelWorld where
  registry : TypeRegistry
  tables : List HandleTable
  states : List ChannelState
  endpointOf : ObjectId → Option (Nat × Side)
  nextObject : ObjectId

namespace ChannelWorld

/-- `task->handles()`. -/
def table (w : ChannelWorld) (k : Nat) : HandleTable := w.tables.getD k {}

def setTable (w : ChannelWorld) (k : Nat) (t : HandleTable) : ChannelWorld :=
  { w with tables := w.tables.set k t }

def state (w : ChannelWorld) (n : Nat) : ChannelState := w.states.getD n .gone

def setState (w : ChannelWorld) (n : Nat) (st : ChannelState) : ChannelWorld :=
  { w with states := w.states.set n st }

/-- Drop a message: `release_handles` on the kernel table. -/
def releaseEscrow (w : ChannelWorld) (ids : List HandleId) : ChannelWorld :=
  w.setTable kernelTask ((w.table kernelTask).releaseHandles ids)

/-- Every reference any task's table holds. -/
def holdings (w : ChannelWorld) : Multiset (Object × Rights) := (w.tables.map HandleTable.holdings).sum

/-- Every task's table is well formed. -/
def WellFormed (w : ChannelWorld) : Prop := ∀ k, (w.table k).WellFormed

/-- From `w` to `w'` every task's table evolves: handles only turn stale. -/
def Evolves (w w' : ChannelWorld) : Prop := ∀ k, (w.table k).Evolves (w'.table k)

section Accessors

variable (w : ChannelWorld) (k j n m : Nat) (t : HandleTable) (st : ChannelState)

@[simp] theorem length_setTable : (w.setTable k t).tables.length = w.tables.length :=
  List.length_set
@[simp] theorem registry_setTable : (w.setTable k t).registry = w.registry := rfl
@[simp] theorem states_setTable : (w.setTable k t).states = w.states := rfl
@[simp] theorem endpointOf_setTable : (w.setTable k t).endpointOf = w.endpointOf := rfl
@[simp] theorem state_setTable : (w.setTable k t).state n = w.state n := rfl
@[simp] theorem tables_setState : (w.setState n st).tables = w.tables := rfl
@[simp] theorem table_setState : (w.setState n st).table k = w.table k := rfl
@[simp] theorem registry_setState : (w.setState n st).registry = w.registry := rfl
@[simp] theorem endpointOf_setState : (w.setState n st).endpointOf = w.endpointOf := rfl
@[simp] theorem length_setState : (w.setState n st).states.length = w.states.length :=
  List.length_set

theorem table_setTable :
    (w.setTable k t).table j = if k = j ∧ k < w.tables.length then t else w.table j :=
  getD_set w.tables k j t {}

theorem table_setTable_self {k : Nat} (hk : k < w.tables.length) : (w.setTable k t).table k = t :=
  getD_set_self w.tables t {} hk

theorem state_setState :
    (w.setState n st).state m = if n = m ∧ n < w.states.length then st else w.state m :=
  getD_set w.states n m st .gone

theorem resolve_setTable (id : HandleId) :
    ((w.setTable k t).table j).resolve id =
      if k = j ∧ k < w.tables.length then t.resolve id else (w.table j).resolve id := by
  rw [table_setTable]
  split <;> rfl

end Accessors

variable {w : ChannelWorld}

/-- Replacing one table trades its holdings for the new table's. -/
theorem holdings_setTable {k : Nat} (hk : k < w.tables.length) (t : HandleTable) :
    (w.setTable k t).holdings + (w.table k).holdings = w.holdings + t.holdings := by
  have hk' : k < (w.tables.map HandleTable.holdings).length := by simpa using hk
  have hget : (w.tables.map HandleTable.holdings)[k] = (w.table k).holdings := by
    rw [List.getElem_map, table, List.getD_eq_getElem _ _ hk]
  have h := sum_set_add t.holdings hk'
  rw [hget, ← List.map_set] at h
  exact h

theorem holdings_setTable_le {k : Nat} (hk : k < w.tables.length) {t : HandleTable}
    (h : t.holdings ≤ (w.table k).holdings) : (w.setTable k t).holdings ≤ w.holdings := by
  have h2 : (w.setTable k t).holdings + (w.table k).holdings ≤
      w.holdings + (w.table k).holdings := by
    rw [holdings_setTable hk]
    exact add_le_add (le_refl _) h
  exact le_of_add_le_add_right h2

theorem holdings_setTable_of_eq_add {k : Nat} (hk : k < w.tables.length) {t : HandleTable}
    {s : Multiset (Object × Rights)} (h : t.holdings = (w.table k).holdings + s) :
    (w.setTable k t).holdings = w.holdings + s := by
  have h2 := holdings_setTable hk t
  rw [h, ← add_assoc, add_right_comm] at h2
  exact add_right_cancel h2

theorem holdings_setTable_add_eq {k : Nat} (hk : k < w.tables.length) {t : HandleTable}
    {s : Multiset (Object × Rights)} (h : t.holdings + s = (w.table k).holdings) :
    (w.setTable k t).holdings + s = w.holdings := by
  have h2 := holdings_setTable hk t
  rw [← h, ← add_assoc, add_right_comm] at h2
  exact add_right_cancel h2

theorem Evolves.refl (w : ChannelWorld) : w.Evolves w := fun _ => .refl _

theorem Evolves.trans {w₁ w₂ w₃ : ChannelWorld} (h₁ : w₁.Evolves w₂) (h₂ : w₂.Evolves w₃) :
    w₁.Evolves w₃ := fun k => (h₁ k).trans (h₂ k)

theorem evolves_setTable {k : Nat} {t : HandleTable} (h : (w.table k).Evolves t) :
    w.Evolves (w.setTable k t) := by
  intro j
  rw [table_setTable]
  split
  · next hj =>
    obtain ⟨rfl, -⟩ := hj
    exact h
  · exact .refl _

theorem WellFormed.setTable (hw : w.WellFormed) {t : HandleTable} (ht : t.WellFormed) (k : Nat) :
    (w.setTable k t).WellFormed := by
  intro j
  rw [table_setTable]
  split
  · exact ht
  · exact hw j

section Release

variable (w : ChannelWorld) (ids : List HandleId)

@[simp] theorem length_releaseEscrow : (w.releaseEscrow ids).tables.length = w.tables.length :=
  length_setTable _ _ _
@[simp] theorem registry_releaseEscrow : (w.releaseEscrow ids).registry = w.registry := rfl
@[simp] theorem states_releaseEscrow : (w.releaseEscrow ids).states = w.states := rfl
@[simp] theorem state_releaseEscrow (n : Nat) : (w.releaseEscrow ids).state n = w.state n := rfl
@[simp] theorem endpointOf_releaseEscrow : (w.releaseEscrow ids).endpointOf = w.endpointOf := rfl

end Release

/-- Dropping a message removes exactly its handles from the kernel table. -/
theorem resolve_releaseEscrow (hK : kernelTask < w.tables.length) (ids : List HandleId) (j : Nat)
    (id : HandleId) :
    ((w.releaseEscrow ids).table j).resolve id =
      if j = kernelTask ∧ id ∈ ids then none else (w.table j).resolve id := by
  rw [releaseEscrow, resolve_setTable]
  by_cases hj : j = kernelTask
  · subst hj
    rw [if_pos ⟨rfl, hK⟩, HandleTable.resolve_releaseHandles]
    by_cases hid : id ∈ ids <;> simp [hid]
  · rw [if_neg (fun h => hj h.1.symm), if_neg (fun h => hj h.1)]

theorem holdings_releaseEscrow_le (hK : kernelTask < w.tables.length) (ids : List HandleId) :
    (w.releaseEscrow ids).holdings ≤ w.holdings :=
  holdings_setTable_le hK (HandleTable.holdings_releaseHandles_le _ ids)

theorem evolves_releaseEscrow (hw : w.WellFormed) (ids : List HandleId) :
    w.Evolves (w.releaseEscrow ids) :=
  evolves_setTable (HandleTable.releaseHandles_evolves (hw kernelTask) ids)

theorem WellFormed.releaseEscrow (hw : w.WellFormed) (ids : List HandleId) :
    (w.releaseEscrow ids).WellFormed :=
  hw.setTable (HandleTable.releaseHandles_wellFormed (hw kernelTask) ids) kernelTask

/-- `MessageBuffer::carries_endpoint_from_pair`: some escrowed handle names an endpoint
of pair `n`. -/
def carriesEndpointFromPair (w : ChannelWorld) (message : MessageBuffer) (n : Nat) : Bool :=
  message.handles.any fun id =>
    match (w.table kernelTask).verify id 0 type_ids.INVALID with
    | .ok v => v.object.typeId == type_ids.CHANNEL && (w.endpointOf v.object.id).map Prod.fst == some n
    | .error _ => false

/-- `Channel::write` from endpoint `ep`; a refused message is dropped. -/
def channelWrite (w : ChannelWorld) (ep : Nat × Side) (message : MessageBuffer) :
    ChannelWorld × Except Errc Unit :=
  if w.carriesEndpointFromPair message ep.1 then
    (w.releaseEscrow message.handles, .error .invalidOperation)
  else
    match (w.state ep.1).write ep.2 message with
    | (st, .ok ()) => (w.setState ep.1 st, .ok ())
    | (_, .error e) => (w.releaseEscrow message.handles, .error e)

/-- `Channel::read` at endpoint `ep`; a discarded message is dropped. -/
def channelRead (w : ChannelWorld) (ep : Nat × Side) (maxBytes maxHandles : Nat) :
    ChannelWorld × Except Errc MessageBuffer :=
  let r := (w.state ep.1).read ep.2 maxBytes maxHandles
  ((w.setState ep.1 r.1).releaseEscrow r.2.2, r.2.1)

/-- `SIGNAL_PEER_CLOSED` of an endpoint. -/
def signalPeerClosed (st : ChannelState) (side : Side) : Bool := !st.alive side.peer

/-- `SIGNAL_WRITABLE` of an endpoint: the peer is there and its queue has room. -/
def signalWritable (st : ChannelState) (side : Side) : Bool :=
  st.alive side.peer && decide ((st.inbound side.peer).length < queueDepth)

/-- The escrow loop of `sys_channel_send`: take each handle from the sender, insert its
reference into the kernel table, attach the new id. A failed take or insert drops the
message built so far. `rooms` feeds each insert's growth. -/
def sendLoop (task : Nat) :
    ChannelWorld → List HandleId → List Nat → List HandleId → ChannelWorld × Except Errc (List HandleId)
  | w, [], _, attached => (w, .ok attached)
  | w, h :: hs, rooms, attached =>
      match (w.table task).take h with
      | (t, .error e) => ((w.setTable task t).releaseEscrow attached, .error e)
      | (t, .ok moved) =>
          let w₁ := w.setTable task t
          match (w₁.table kernelTask).insert w₁.registry (some moved.object) moved.rights
              (rooms.headD 0) with
          | (k, .error e) => ((w₁.setTable kernelTask k).releaseEscrow attached, .error e)
          | (k, .ok x) => sendLoop task (w₁.setTable kernelTask k) hs rooms.tail (attached ++ [x])

/-- `sys_channel_send`: the bounds checks, then `verify` with `RIGHT_WRITE` (and
`RIGHT_TRANSFER` when handles ride along), the flow-control pre-check, the page, the
escrow loop and the write. -/
def sysChannelSend (w : ChannelWorld) (caller : Caller) (handle : HandleId)
    (offset length handlesOffset : Nat) (handleValues : List HandleId) (pageOk : Bool)
    (rooms : List Nat) : ChannelWorld × Except Errc Unit :=
  let count := handleValues.length
  if !caller.ipc.valid || !caller.ipc.contains offset length then (w, .error .outOfRange)
  else if maxMessageBytes < length then (w, .error .outOfRange)
  else if maxMessageHandles < count then (w, .error .outOfRange)
  else if count ≠ 0 ∧ !caller.ipc.contains handlesOffset (count * 8) then (w, .error .outOfRange)
  else
    let needed := rightWrite ||| if count ≠ 0 then rightTransfer else 0
    match (w.table caller.task).verify handle needed type_ids.CHANNEL with
    | .error e => (w, .error e)
    | .ok verified =>
      match w.endpointOf verified.object.id with
      | none => (w, .error .invalidOperation)
      | some ep =>
        if count ≠ 0 ∧ signalPeerClosed (w.state ep.1) ep.2 then (w, .error .peerClosed)
        else if count ≠ 0 ∧ !signalWritable (w.state ep.1) ep.2 then (w, .error .capacityExhausted)
        else if length ≠ 0 ∧ !pageOk then (w, .error .oom)
        else
          match sendLoop caller.task w handleValues rooms [] with
          | (w', .error e) => (w', .error e)
          | (w', .ok attached) => w'.channelWrite ep ⟨length, attached⟩

/-- The delivery loop of `sys_channel_recv`: take each escrowed handle out of the kernel
table and insert its reference into the receiver's table. A handle already gone is
skipped; a reference the receiver's table cannot take is dropped. -/
def recvLoop (task : Nat) :
    ChannelWorld → List HandleId → List Nat → List HandleId → ChannelWorld × List HandleId
  | w, [], _, delivered => (w, delivered)
  | w, x :: xs, rooms, delivered =>
      match (w.table kernelTask).take x with
      | (k, .error _) => recvLoop task (w.setTable kernelTask k) xs rooms delivered
      | (k, .ok moved) =>
          let w₁ := w.setTable kernelTask k
          match (w₁.table task).insert w₁.registry (some moved.object) moved.rights
              (rooms.headD 0) with
          | (t, .error _) => recvLoop task (w₁.setTable task t) xs rooms.tail delivered
          | (t, .ok y) => recvLoop task (w₁.setTable task t) xs rooms.tail (delivered ++ [y])

/-- `sys_channel_recv`: the bounds checks, `verify` with `RIGHT_READ`, the read, then
delivery. The result is the delivered ids (written to the IPC buffer) and the message
size; the syscall returns `(delivered << 32) | size`. -/
def sysChannelRecv (w : ChannelWorld) (caller : Caller) (handle : HandleId)
    (offset capacity handlesOffset handleCapacity : Nat) (rooms : List Nat) :
    ChannelWorld × Except Errc (List HandleId × Nat) :=
  if !caller.ipc.valid || !caller.ipc.contains offset capacity then (w, .error .outOfRange)
  else if maxMessageHandles < handleCapacity then (w, .error .outOfRange)
  else if handleCapacity ≠ 0 ∧ !caller.ipc.contains handlesOffset (handleCapacity * 8) then
    (w, .error .outOfRange)
  else
    match (w.table caller.task).verify handle rightRead type_ids.CHANNEL with
    | .error e => (w, .error e)
    | .ok verified =>
      match w.endpointOf verified.object.id with
      | none => (w, .error .invalidOperation)
      | some ep =>
        match w.channelRead ep capacity handleCapacity with
        | (w', .error e) => (w', .error e)
        | (w', .ok message) =>
          let r := recvLoop caller.task w' message.handles rooms []
          (r.1, .ok (r.2, message.length))

/-- `sys_channel_create`: a new pair, both endpoints inserted into the caller's table
with `Channel::DEFAULT_RIGHTS`; if the second insert fails the first is closed again.
`allocOk` is whether the state and both endpoints could be allocated. -/
def sysChannelCreate (w : ChannelWorld) (caller : Caller) (offset : Nat) (allocOk : Bool)
    (room₁ room₂ : Nat) : ChannelWorld × Except Errc (HandleId × HandleId) :=
  if !caller.ipc.valid || !caller.ipc.contains offset 16 then (w, .error .outOfRange)
  else if !allocOk then (w, .error .oom)
  else
    let first : Object := ⟨w.nextObject, type_ids.CHANNEL⟩
    let second : Object := ⟨w.nextObject + 1, type_ids.CHANNEL⟩
    let w₀ := { w with nextObject := w.nextObject + 2 }
    match (w₀.table caller.task).insert w₀.registry (some first) channelDefaultRights room₁ with
    | (t, .error e) => (w₀.setTable caller.task t, .error e)
    | (t, .ok h₁) =>
      match t.insert w₀.registry (some second) channelDefaultRights room₂ with
      | (t', .error e) => (w₀.setTable caller.task (t'.close h₁).1, .error e)
      | (t', .ok h₂) =>
        let n := w₀.states.length
        ({ w₀.setTable caller.task t' with
            states := w₀.states ++ [.fresh]
            endpointOf := fun o =>
              if o = first.id then some (n, .first)
              else if o = second.id then some (n, .second) else w₀.endpointOf o },
          .ok (h₁, h₂))

/-- Some live slot of some table holds object `o`. -/
def held (w : ChannelWorld) (o : ObjectId) : Bool :=
  w.tables.any fun t => t.entries.any fun e => e.object.any (·.id == o)

/-- `Channel::~Channel` for an endpoint no handle holds: its end is marked gone, and
once both ends are gone the state goes too, dropping every queued message. -/
def destroyEndpoint (w : ChannelWorld) (o : ObjectId) : ChannelWorld :=
  match w.endpointOf o with
  | none => w
  | some (n, side) =>
    if w.held o || !(w.state n).alive side then w
    else
      let st := w.state n
      let st' : ChannelState := { st with alive := Function.update st.alive side false }
      if st'.alive side.peer then w.setState n st'
      else (w.setState n .gone).releaseEscrow st.attached

/-- `sys_handle_close` on a task's table. -/
def handleClose (w : ChannelWorld) (task : Nat) (id : HandleId) : ChannelWorld × Except Errc Unit :=
  let r := (w.table task).close id
  (w.setTable task r.1, r.2)

end ChannelWorld

/-- The calls and events of a channel run. -/
inductive ChannelOp
  | create (caller : Caller) (offset : Nat) (allocOk : Bool) (room₁ room₂ : Nat)
  | send (caller : Caller) (handle : HandleId) (offset length handlesOffset : Nat)
      (handleValues : List HandleId) (pageOk : Bool) (rooms : List Nat)
  | recv (caller : Caller) (handle : HandleId) (offset capacity handlesOffset handleCapacity : Nat)
      (rooms : List Nat)
  | close (task : Nat) (id : HandleId)
  | destroy (object : ObjectId)

/-- What a call returns. -/
inductive ChannelOutcome
  | created (r : Except Errc (HandleId × HandleId))
  | sent (r : Except Errc Unit)
  | received (r : Except Errc (List HandleId × Nat))
  | closed (r : Except Errc Unit)
  | destroyed
  deriving DecidableEq

namespace ChannelWorld

def step (w : ChannelWorld) : ChannelOp → ChannelWorld × ChannelOutcome
  | .create caller offset allocOk room₁ room₂ =>
      let r := w.sysChannelCreate caller offset allocOk room₁ room₂
      (r.1, .created r.2)
  | .send caller handle offset length handlesOffset handleValues pageOk rooms =>
      let r := w.sysChannelSend caller handle offset length handlesOffset handleValues pageOk rooms
      (r.1, .sent r.2)
  | .recv caller handle offset capacity handlesOffset handleCapacity rooms =>
      let r := w.sysChannelRecv caller handle offset capacity handlesOffset handleCapacity rooms
      (r.1, .received r.2)
  | .close task id =>
      let r := w.handleClose task id
      (r.1, .closed r.2)
  | .destroy object => (w.destroyEndpoint object, .destroyed)

/-- A system of `tasks` tasks (the kernel task included) with empty tables, the channel
type registered, and no channel yet. -/
def init (tasks : Nat) : ChannelWorld where
  registry := ((({} : TypeRegistry).registerType type_ids.CHANNEL "channel"
    channelDefaultRights channelDefaultRights).1)
  tables := List.replicate (tasks + 1) {}
  states := []
  endpointOf := fun _ => none
  nextObject := 0

end ChannelWorld

end Archipelago.Syscalls
