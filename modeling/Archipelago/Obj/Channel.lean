import Archipelago.Obj.HandleMap
import Archipelago.Obj.HandleRights

/-! Channels (`obj/channel.cpp`, `kernel/obj/channel.h`): a pair of endpoints sharing a
`channel_state` that holds, per side, whether the endpoint is alive and the queue of
messages it reads. A message carries its byte length and the handles it escrows in
the kernel task's table; a message that is dropped (a failed write, a truncated read,
a destroyed channel) closes those handles (`MessageBuffer::release_handles`).

Modelling choices: a queue is a list, front first, standing for the ring buffer
`slots`/`head`/`count`; message bytes and pages are left out, only the length is kept;
the endpoint signals are not stored: `WRITABLE` and `PEER_CLOSED` always equal "the peer
is alive and its queue is not full" and "the peer is gone" (`Obj.EndpointPair` keeps the
signal words and proves it), which is how the callers read them. -/

namespace Archipelago.Obj

open Archipelago.Lib

/-- `Channel::MAX_MESSAGE_BYTES`. -/
def maxMessageBytes : Nat := 4096

/-- `Channel::QUEUE_DEPTH`. -/
def queueDepth : Nat := 8

/-- `MessageBuffer::MAX_HANDLES` (`CHANNEL_MAX_MESSAGE_HANDLES`). -/
def maxMessageHandles : Nat := 4

/-- `Channel::DEFAULT_RIGHTS`. -/
def channelDefaultRights : Rights := rightRead ||| rightWrite ||| rightWait ||| rightTransfer

/-- `m_side`: which end of the pair an endpoint is (`Pair::first` is side 0). -/
inductive Side
  | first
  | second
  deriving DecidableEq, Repr

/-- `m_side ^ 1`. -/
def Side.peer : Side → Side
  | .first => .second
  | .second => .first

/-- A message: its length and the escrowed kernel-table handles it carries. -/
structure MessageBuffer where
  length : Nat
  handles : List HandleId
  deriving DecidableEq, Repr

/-- `channel_state`: `ends[side]` as an alive flag and `inbound[side]`, the queue
`side` reads. -/
structure ChannelState where
  alive : Side → Bool
  inbound : Side → List MessageBuffer

namespace ChannelState

/-- The state `Channel::create` sets up: both ends alive, both queues empty. -/
def fresh : ChannelState := ⟨fun _ => true, fun _ => []⟩

/-- A state that is gone: both ends dead, nothing queued. -/
def gone : ChannelState := ⟨fun _ => false, fun _ => []⟩

/-- Every handle escrowed in the state's queues. -/
def attached (st : ChannelState) : List HandleId :=
  (st.inbound .first).flatMap MessageBuffer.handles ++
    (st.inbound .second).flatMap MessageBuffer.handles

@[simp] theorem attached_gone : gone.attached = [] := rfl

/-- `Channel::write` once the message passed the pair check: refused when the peer is
gone or its queue is full, else queued at its back. -/
def write (st : ChannelState) (side : Side) (message : MessageBuffer) :
    ChannelState × Except Errc Unit :=
  if !st.alive side.peer then (st, .error .peerClosed)
  else if (st.inbound side.peer).length = queueDepth then (st, .error .capacityExhausted)
  else
    let queued := Function.update st.inbound side.peer (st.inbound side.peer ++ [message])
    ({ st with inbound := queued }, .ok ())

/-- `Channel::read`: the front message, dequeued. An oversized one is dequeued too
and discarded; the third component is what the discarded message escrowed. -/
def read (st : ChannelState) (side : Side) (maxBytes maxHandles : Nat) :
    ChannelState × Except Errc MessageBuffer × List HandleId :=
  match st.inbound side with
  | [] => (st, .error (if st.alive side.peer then .wouldBlock else .peerClosed), [])
  | m :: rest =>
      let st' := { st with inbound := Function.update st.inbound side rest }
      if maxBytes < m.length ∨ maxHandles < m.handles.length then (st', .error .truncated, m.handles)
      else (st', .ok m, [])

theorem write_of_error {st st' : ChannelState} {side : Side} {message : MessageBuffer} {e : Errc}
    (h : st.write side message = (st', .error e)) : st' = st := by
  unfold write at h
  split at h
  · exact (congrArg Prod.fst h).symm
  split at h
  · exact (congrArg Prod.fst h).symm
  · cases h

theorem write_of_ok {st st' : ChannelState} {side : Side} {message : MessageBuffer} {u : Unit}
    (h : st.write side message = (st', .ok u)) :
    st' = { st with
      inbound := Function.update st.inbound side.peer (st.inbound side.peer ++ [message]) } := by
  unfold write at h
  split at h
  · cases h
  split at h
  · cases h
  · exact (congrArg Prod.fst h).symm

/-- A write that succeeds found the peer alive. -/
theorem alive_of_write_ok {st : ChannelState} {side : Side} {message : MessageBuffer}
    (h : (st.write side message).2 = .ok ()) : st.alive side.peer = true := by
  unfold write at h
  split at h
  · cases h
  · next hp => simpa using hp

/-- A queue after `write`: the message at the back of the peer's queue, or nothing. -/
theorem attached_write {st : ChannelState} {side : Side} {message : MessageBuffer} :
    List.Perm (st.write side message).1.attached (st.attached ++ message.handles) ∨
      (st.write side message).1 = st := by
  unfold write
  split
  · exact .inr rfl
  split
  · exact .inr rfl
  · left
    unfold attached
    cases side with
    | first =>
      simp only [Side.peer, Function.update_self, ne_eq, reduceCtorEq, not_false_eq_true,
        Function.update_of_ne, List.flatMap_append, List.flatMap_singleton, List.append_assoc]
      exact List.Perm.refl _
    | second =>
      simp only [Side.peer, Function.update_self, ne_eq, reduceCtorEq, not_false_eq_true,
        Function.update_of_ne, List.flatMap_append, List.flatMap_singleton, List.append_assoc]
      exact List.Perm.append_left _ List.perm_append_comm

/-- What `read` leaves: the front message gone from its queue. -/
theorem read_cases (st : ChannelState) (side : Side) (maxBytes maxHandles : Nat) :
    ((st.read side maxBytes maxHandles).1 = st ∧ (st.read side maxBytes maxHandles).2.2 = [] ∧
        st.inbound side = []) ∨
      ∃ m rest, st.inbound side = m :: rest ∧
        (st.read side maxBytes maxHandles).1 =
          { st with inbound := Function.update st.inbound side rest } ∧
        ((st.read side maxBytes maxHandles).2 = (.error .truncated, m.handles) ∨
          (st.read side maxBytes maxHandles).2 = (.ok m, [])) := by
  unfold read
  split
  · exact .inl ⟨rfl, rfl, ‹_›⟩
  · rename_i m rest hq
    refine .inr ⟨m, rest, hq, ?_, ?_⟩
    · split <;> rfl
    · split
      · exact .inl rfl
      · exact .inr rfl

/-- Dequeuing a message takes its handles off the state's escrow list. -/
theorem attached_dequeue {st : ChannelState} {side : Side} {m : MessageBuffer}
    {rest : List MessageBuffer} (hq : st.inbound side = m :: rest) :
    List.Perm (m.handles ++
      ({ st with inbound := Function.update st.inbound side rest } : ChannelState).attached)
      st.attached := by
  unfold attached
  cases side with
  | first =>
    simp only [hq, Function.update_self, ne_eq, reduceCtorEq, not_false_eq_true,
      Function.update_of_ne, List.flatMap_cons, List.append_assoc]
    exact List.Perm.refl _
  | second =>
    simp only [hq, Function.update_self, ne_eq, reduceCtorEq, not_false_eq_true,
      Function.update_of_ne, List.flatMap_cons]
    exact List.perm_append_comm_assoc _ _ _

end ChannelState

namespace HandleTable

/-- `MessageBuffer::release_handles` on the kernel table: close each escrowed handle,
ignoring the ones that are already gone. -/
def releaseHandles (t : HandleTable) : List HandleId → HandleTable
  | [] => t
  | id :: ids => (t.close id).1.releaseHandles ids

theorem close_table (t : HandleTable) (id : HandleId) : (t.close id).1 = (t.take id).1 := rfl

theorem releaseHandles_wellFormed {t : HandleTable} (h : t.WellFormed) :
    ∀ ids, (t.releaseHandles ids).WellFormed
  | [] => h
  | _ :: ids => releaseHandles_wellFormed (take_wellFormed h) ids

theorem Sound.releaseHandles {t : HandleTable} {reg : TypeRegistry} (h : t.Sound reg) :
    ∀ ids, (t.releaseHandles ids).Sound reg
  | [] => h
  | id :: ids => (h.close id).releaseHandles ids

theorem releaseHandles_evolves {t : HandleTable} (h : t.WellFormed) :
    ∀ ids, Evolves t (t.releaseHandles ids)
  | [] => .refl t
  | id :: ids => (take_evolves h id).trans (releaseHandles_evolves (take_wellFormed h) ids)

/-- Releasing removes exactly the listed handles. -/
theorem resolve_releaseHandles (t : HandleTable) :
    ∀ (ids : List HandleId) (id : HandleId),
      (t.releaseHandles ids).resolve id = if id ∈ ids then none else t.resolve id
  | [], _ => rfl
  | x :: ids, id => by
    rw [releaseHandles, resolve_releaseHandles _ ids, close_table, resolve_take]
    by_cases hx : id = x
    · subst hx; simp
    · by_cases hid : id ∈ ids <;> simp [hid, hx]

theorem holdings_take_le (t : HandleTable) (id : HandleId) : (t.take id).1.holdings ≤ t.holdings := by
  cases hr : t.resolve id with
  | none => rw [take_of_resolve_none hr]
  | some r =>
    rw [← holdings_take hr]
    exact Multiset.le_add_right _ _

theorem holdings_releaseHandles_le (t : HandleTable) :
    ∀ ids, (t.releaseHandles ids).holdings ≤ t.holdings
  | [] => le_refl _
  | id :: ids => (holdings_releaseHandles_le _ ids).trans (holdings_take_le t id)

end HandleTable

end Archipelago.Obj
