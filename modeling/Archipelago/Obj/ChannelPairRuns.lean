import Archipelago.Obj.ChannelRing
import Archipelago.Lib.Run

/-! Runs of one channel pair: any interleaving of writes, reads and endpoint destruction
on its two endpoints, from `Channel::create`. An endpoint that is destroyed takes no more
calls, since its object is gone. Along every run the rings stay in range, the signal bits
of every live endpoint say what the queues are (`SignalsTrack`), and each side's queue is
a FIFO (`Fifo`): the messages accepted into it are the messages reads took from it, in
order, followed by the messages it still holds. -/

namespace Archipelago.Obj

open Archipelago.Lib

/-- A call on one endpoint of the pair. -/
inductive PairOp
  | write (side : Side) (message : MessageBuffer) (carriesEndpoint : Bool)
  | read (side : Side) (maxBytes maxHandles : Nat)
  | destroy (side : Side)
  deriving DecidableEq

/-- The endpoint a call is on. -/
def PairOp.side : PairOp → Side
  | .write side _ _ | .read side _ _ | .destroy side => side

/-- What a call returned; `gone` for a call on an endpoint already destroyed. -/
inductive PairOutcome
  | wrote (r : Except Errc Unit)
  | read (r : Except Errc MessageBuffer) (discarded : Option MessageBuffer)
  | destroyed
  | gone
  deriving DecidableEq

namespace ChannelPair

/-- One call, with the state lock held throughout. -/
def step (st : ChannelPair) (op : PairOp) : ChannelPair × PairOutcome :=
  if st.ends op.side then
    match op with
    | .write side message carries =>
        let r := st.write side message carries
        (r.1, .wrote r.2)
    | .read side maxBytes maxHandles =>
        let r := st.read side maxBytes maxHandles
        (r.1, .read r.2.1 r.2.2)
    | .destroy side => (st.destroy side, .destroyed)
  else (st, .gone)

def after (st : ChannelPair) (ops : List PairOp) : ChannelPair := (run step st ops).1

/-- The run's calls paired with what they returned. -/
def trace (st : ChannelPair) (ops : List PairOp) : List (PairOp × PairOutcome) :=
  ops.zip (run step st ops).2

variable {st : ChannelPair}

/-- A property kept by every call of a live endpoint is kept by every step. -/
theorem step_preserves {P : ChannelPair → Prop} (hP : P st)
    (hw : ∀ side message c, st.ends side = true → P (st.write side message c).1)
    (hr : ∀ side maxBytes maxHandles, st.ends side = true → P (st.read side maxBytes maxHandles).1)
    (hd : ∀ side, st.ends side = true → P (st.destroy side)) (op : PairOp) : P (st.step op).1 := by
  unfold step
  by_cases ha : st.ends op.side = true
  · rw [if_pos ha]
    cases op with
    | write side message c => exact hw side message c ha
    | read side maxBytes maxHandles => exact hr side maxBytes maxHandles ha
    | destroy side => exact hd side ha
  · rw [if_neg ha]
    exact hP

theorem valid_step (hv : st.Valid) (op : PairOp) : (st.step op).1.Valid :=
  step_preserves hv (fun side message c _ => valid_write hv side message c)
    (fun side maxBytes maxHandles _ => valid_read hv side maxBytes maxHandles)
    (fun side _ => hv.destroy side) op

theorem valid_after (ops : List PairOp) : (create.after ops).Valid :=
  run_invariant EndpointPair.Valid (fun _ op hv => valid_step hv op) valid_create ops

theorem signalsTrack_after (ops : List PairOp) : (create.after ops).SignalsTrack := by
  have h := run_invariant (fun st : ChannelPair => st.Valid ∧ st.SignalsTrack)
    (fun st op hs => ⟨valid_step hs.1 op, step_preserves hs.2
      (fun _ message c ha => signalsTrack_write hs.2 hs.1 ha message c)
      (fun _ maxBytes maxHandles ha => signalsTrack_read hs.2 hs.1 ha maxBytes maxHandles)
      (fun side _ => hs.2.destroy side) op⟩)
    ⟨valid_create, EndpointPair.signalsTrack_create (by decide)⟩ ops
  exact h.2

/-! ### Each queue is a FIFO -/

/-- A write into the ring of `side` that was accepted, with its message. -/
def sentEvent (side : Side) : PairOp × PairOutcome → Option MessageBuffer
  | (.write w message _, .wrote (.ok ())) => if w.peer = side then some message else none
  | _ => none

/-- A read of `side` that dequeued a message: `true` when the read returned it, `false`
when it discarded it with `truncated`. -/
def takenEvent (side : Side) : PairOp × PairOutcome → Option (MessageBuffer × Bool)
  | (.read r _ _, .read (.ok message) _) => if r = side then some (message, true) else none
  | (.read r _ _, .read (.error _) (some message)) => if r = side then some (message, false) else none
  | _ => none

/-- The messages accepted into the ring of `side`, in order. -/
def sentTo (side : Side) (tr : List (PairOp × PairOutcome)) : List MessageBuffer :=
  tr.filterMap (sentEvent side)

/-- The messages reads took from the ring of `side`, in order. -/
def takenFrom (side : Side) (tr : List (PairOp × PairOutcome)) : List (MessageBuffer × Bool) :=
  tr.filterMap (takenEvent side)

/-- Each ring holds what was accepted into it, less what reads took, in order. -/
def Fifo (st : ChannelPair) (tr : List (PairOp × PairOutcome)) : Prop :=
  ∀ s, sentTo s tr = (takenFrom s tr).map Prod.fst ++ (st.inbound s).toList

theorem sentTo_snoc (side : Side) (tr : List (PairOp × PairOutcome)) (x : PairOp × PairOutcome) :
    sentTo side (tr ++ [x]) = sentTo side tr ++ (sentEvent side x).toList := by
  cases h : sentEvent side x <;> simp [sentTo, h]

theorem takenFrom_snoc (side : Side) (tr : List (PairOp × PairOutcome)) (x : PairOp × PairOutcome) :
    takenFrom side (tr ++ [x]) = takenFrom side tr ++ (takenEvent side x).toList := by
  cases h : takenEvent side x <;> simp [takenFrom, h]

theorem fifo_create : create.Fifo [] := fun _ => rfl

theorem Fifo.write {tr : List (PairOp × PairOutcome)} (hf : st.Fifo tr) (hv : st.Valid)
    (side : Side) (message : MessageBuffer) (c : Bool) :
    (st.write side message c).1.Fifo
      (tr ++ [(.write side message c, .wrote (st.write side message c).2)]) := by
  intro s
  rw [sentTo_snoc, takenFrom_snoc, hf s]
  rcases write_cases st side message c with ⟨e, h⟩ | ⟨-, -, hfull, h⟩ <;> rw [h]
  · simp [sentEvent, takenEvent]
  rcases Side.eq_or_eq_peer side.peer s with rfl | rfl
  · -- the peer's ring gains the message at its back
    have hlt := Nat.lt_of_le_of_ne (count_le hv side.peer) hfull
    simp [sentEvent, takenEvent, Ring.toList_push _ _ hlt]
  · simp [sentEvent, takenEvent]

theorem Fifo.read {tr : List (PairOp × PairOutcome)} (hf : st.Fifo tr) (hv : st.Valid)
    (side : Side) (maxBytes maxHandles : Nat) :
    (st.read side maxBytes maxHandles).1.Fifo (tr ++ [(.read side maxBytes maxHandles,
      .read (st.read side maxBytes maxHandles).2.1 (st.read side maxBytes maxHandles).2.2)]) := by
  intro s
  rw [sentTo_snoc, takenFrom_snoc, hf s]
  rcases read_cases st side maxBytes maxHandles with ⟨-, h⟩ | ⟨h0, ⟨-, hr⟩ | ⟨-, hr⟩, h⟩
  · rw [h]
    simp [sentEvent, takenEvent]
  all_goals
    rw [hr, h]
    rcases Side.eq_or_eq_peer side s with rfl | rfl
    · -- the front message leaves the reader's ring
      rw [EndpointPair.inbound_commitRead_self, Ring.toList_eq_front_cons (hv s) h0]
      simp [sentEvent, takenEvent]
    · simp [sentEvent, takenEvent]

theorem Fifo.destroy {tr : List (PairOp × PairOutcome)} (hf : st.Fifo tr) (side : Side) :
    (st.destroy side).Fifo (tr ++ [(.destroy side, .destroyed)]) := by
  intro s
  rw [sentTo_snoc, takenFrom_snoc, hf s]
  simp [sentEvent, takenEvent, ChannelPair.destroy]

theorem Fifo.step {tr : List (PairOp × PairOutcome)} (hf : st.Fifo tr) (hv : st.Valid)
    (op : PairOp) : (st.step op).1.Fifo (tr ++ [(op, (st.step op).2)]) := by
  unfold ChannelPair.step
  by_cases ha : st.ends op.side = true
  · rw [if_pos ha]
    cases op with
    | write side message c => exact hf.write hv side message c
    | read side maxBytes maxHandles => exact hf.read hv side maxBytes maxHandles
    | destroy side => exact hf.destroy side
  · rw [if_neg ha]
    intro s
    rw [sentTo_snoc, takenFrom_snoc, hf s]
    cases op <;> simp [sentEvent, takenEvent]

theorem fifo_after (ops : List PairOp) : (create.after ops).Fifo (create.trace ops) := by
  have h := run_trace (fun (st : ChannelPair) tr => st.Valid ∧ st.Fifo tr)
    (fun _ _ op hs => ⟨valid_step hs.1 op, hs.2.step hs.1 op⟩)
    (⟨valid_create, fifo_create⟩ : create.Valid ∧ create.Fifo []) ops
  simpa [after, trace] using h.2

-- two messages, the second too long for the reader's buffer, then an empty queue
example : (run step create [.write .first ⟨10, []⟩ false, .write .first ⟨20, []⟩ false,
    .read .second 15 4, .read .second 15 4, .read .second 15 4]).2 =
    [.wrote (.ok ()), .wrote (.ok ()), .read (.ok ⟨10, []⟩) none,
      .read (.error .truncated) (some ⟨20, []⟩), .read (.error .wouldBlock) none] := by decide

/-! ### What the next call does -/

/-- A write's errors and their order: `invalid_operation` exactly when the message carries
an endpoint of the pair; past that check `peer_closed` exactly when the peer is destroyed;
past both `capacity_exhausted` exactly when the peer's ring holds `QUEUE_DEPTH` messages.
A refused write changes nothing; an accepted one appends the message to the peer's queue
and leaves the writer's own queue alone. -/
structure WriteSpec (st : ChannelPair) (side : Side) (message : MessageBuffer) (carries : Bool) :
    Prop where
  invalid : (st.write side message carries).2 = .error .invalidOperation ↔ carries = true
  peerClosed : carries = false →
    ((st.write side message carries).2 = .error .peerClosed ↔ st.ends side.peer = false)
  full : carries = false → st.ends side.peer = true →
    ((st.write side message carries).2 = .error .capacityExhausted ↔
      (st.inbound side.peer).count = queueDepth)
  refused : ∀ e, (st.write side message carries).2 = .error e → (st.write side message carries).1 = st
  accepted : (st.write side message carries).2 = .ok () →
    ((st.write side message carries).1.inbound side.peer).toList =
        (st.inbound side.peer).toList ++ [message] ∧
      (st.write side message carries).1.inbound side = st.inbound side

/-- A read of an empty queue returns `would_block` while the peer lives and `peer_closed`
after, changing nothing; any other read removes exactly the front message, returning it or
discarding it with `truncated`, and leaves the peer's queue alone. -/
structure ReadSpec (st : ChannelPair) (side : Side) (maxBytes maxHandles : Nat) : Prop where
  empty : (st.inbound side).toList = [] → st.read side maxBytes maxHandles =
    (st, .error (if st.ends side.peer then .wouldBlock else .peerClosed), none)
  dequeue : ∀ m rest, (st.inbound side).toList = m :: rest →
    ((st.read side maxBytes maxHandles).1.inbound side).toList = rest ∧
      (st.read side maxBytes maxHandles).1.inbound side.peer = st.inbound side.peer ∧
      ((st.read side maxBytes maxHandles).2 = (.ok m, none) ∨
        (st.read side maxBytes maxHandles).2 = (.error .truncated, some m))

theorem writeSpec (hv : st.Valid) (side : Side) (message : MessageBuffer) (carries : Bool) :
    st.WriteSpec side message carries := by
  have hrefused : ∀ e, (st.write side message carries).2 = .error e →
      (st.write side message carries).1 = st := by
    intro e he
    rcases write_cases st side message carries with ⟨e', h⟩ | ⟨-, -, -, h⟩ <;> rw [h] at he ⊢
    cases he
  have haccepted : (st.write side message carries).2 = .ok () →
      ((st.write side message carries).1.inbound side.peer).toList =
          (st.inbound side.peer).toList ++ [message] ∧
        (st.write side message carries).1.inbound side = st.inbound side := by
    intro hok
    rcases write_cases st side message carries with ⟨e, h⟩ | ⟨-, -, hf, h⟩ <;> rw [h] at hok ⊢
    · cases hok
    · refine ⟨?_, EndpointPair.inbound_commitWrite_self⟩
      rw [EndpointPair.inbound_commitWrite_peer,
        Ring.toList_push _ _ (Nat.lt_of_le_of_ne (count_le hv _) hf)]
  -- the three tests, in the order the source makes them
  refine ⟨?_, fun hc => ?_, fun hc hp => ?_, hrefused, haccepted⟩ <;> rw [write_result]
  · split_ifs <;> simp_all
  · split_ifs <;> simp_all
  · split_ifs <;> simp_all

theorem readSpec (hv : st.Valid) (side : Side) (maxBytes maxHandles : Nat) :
    st.ReadSpec side maxBytes maxHandles := by
  refine ⟨fun hnil => ?_, fun m rest hq => ?_⟩
  · rcases read_cases st side maxBytes maxHandles with ⟨-, h⟩ | ⟨h0, -⟩
    · exact h
    · exact absurd (Ring.toList_eq_nil_iff.1 hnil) h0
  · have h0 : (st.inbound side).count ≠ 0 := fun h => by
      rw [Ring.toList_eq_nil_iff.2 h] at hq
      cases hq
    have hfront : (st.inbound side).toList = (st.inbound side).front :: (st.inbound side).pop.toList :=
      Ring.toList_eq_front_cons (hv side) h0
    obtain ⟨rfl, rfl⟩ := List.cons.inj (hq.symm.trans hfront)
    rcases read_cases st side maxBytes maxHandles with ⟨h, -⟩ | ⟨-, ⟨-, hr⟩ | ⟨-, hr⟩, h⟩
    · exact absurd h h0
    all_goals
      refine ⟨by rw [h, EndpointPair.inbound_commitRead_self], inbound_read_peer st side maxBytes maxHandles, ?_⟩
    · exact .inr hr
    · exact .inl hr

/-- Along every interleaving of writes, reads and endpoint destruction from
`Channel::create`: each side's accepted messages are what its reads took, in order, then
what its ring still holds; both rings keep `head` and `count` within `QUEUE_DEPTH`; and the
next write and read behave as `WriteSpec` and `ReadSpec` say. -/
theorem channel_refines_fifo_queues (ops : List PairOp) :
    (∀ s, sentTo s (create.trace ops) =
      (takenFrom s (create.trace ops)).map Prod.fst ++ ((create.after ops).inbound s).toList) ∧
    (∀ s, ((create.after ops).inbound s).head < queueDepth ∧
      ((create.after ops).inbound s).count ≤ queueDepth) ∧
    (∀ side message carries, (create.after ops).WriteSpec side message carries) ∧
    (∀ side maxBytes maxHandles, (create.after ops).ReadSpec side maxBytes maxHandles) := by
  have hv := valid_after ops
  exact ⟨fifo_after ops, fun s => ⟨(hv s).head_lt, (hv s).count_le⟩,
    fun side message carries => writeSpec hv side message carries,
    fun side maxBytes maxHandles => readSpec hv side maxBytes maxHandles⟩

/-- With the peer destroyed after filling its ring, a write returns `peer_closed`, not
`capacity_exhausted`, although the peer's ring holds `QUEUE_DEPTH` messages. -/
theorem channel_full_dead_peer_write :
    ∃ ops, (create.after ops).ends .first = true ∧
      ((create.after ops).inbound .second).count = queueDepth ∧
      ((create.after ops).write .first default false).2 = .error .peerClosed :=
  ⟨List.replicate queueDepth (.write .first default false) ++ [.destroy .second], by decide⟩

end ChannelPair

end Archipelago.Obj
