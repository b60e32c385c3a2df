import Archipelago.Obj.EndpointPair

/-! `Channel::write` and `Channel::read` (`obj/channel.cpp`) on `channel_state` as the
source keeps it: each side's inbound queue is a ring `slots`/`head`/`count` of
`QUEUE_DEPTH` messages, and each call ends with the signal updates of
`EndpointPair.commitWrite` and `EndpointPair.commitRead`.

Reading each ring front first gives the list model `ChannelState` of `Obj.Channel`: the
ring calls refine its `write` and `read`, and `~Channel` its end-of-life update
(`toState_write`, `toState_read`, `toState_destroy`). -/

namespace Archipelago.Obj

open Archipelago.Lib

/-- A moved-from `MessageBuffer`: no bytes, no handles. -/
instance : Inhabited MessageBuffer := ⟨⟨0, []⟩⟩

/-- `channel_state` with the signal words of its two endpoints. -/
abbrev ChannelPair := EndpointPair MessageBuffer queueDepth

namespace ChannelPair

/-- `Channel::create` once the state and both endpoints are allocated. -/
def create : ChannelPair := EndpointPair.create

/-- `Channel::~Channel`. -/
def destroy (st : ChannelPair) (side : Side) : ChannelPair := EndpointPair.destroy st side

/-- `Channel::write` from the endpoint on `side`; `carriesEndpoint` is what
`carries_endpoint_from_pair` found in the message. -/
def write (st : ChannelPair) (side : Side) (message : MessageBuffer) (carriesEndpoint : Bool) :
    ChannelPair × Except Errc Unit :=
  if carriesEndpoint then (st, .error .invalidOperation)
  else if !st.ends side.peer then (st, .error .peerClosed)
  else if (st.inbound side.peer).count = queueDepth then (st, .error .capacityExhausted)
  else (st.commitWrite side ((st.inbound side.peer).push message), .ok ())

/-- `Channel::read` at the endpoint on `side`. The third component is the local
`discarded`: the oversized front message a truncated read consumed. -/
def read (st : ChannelPair) (side : Side) (maxBytes maxHandles : Nat) :
    ChannelPair × Except Errc MessageBuffer × Option MessageBuffer :=
  let queue := st.inbound side
  if queue.count = 0 then
    (st, .error (if st.ends side.peer then .wouldBlock else .peerClosed), none)
  else
    let message := queue.front
    let oversized := decide (maxBytes < message.length) || decide (maxHandles < message.handles.length)
    let st' := st.commitRead side queue.pop (decide (queue.count = queueDepth))
    if oversized then (st', .error .truncated, some message) else (st', .ok message, none)

/-- The rings read front first: the list model of the pair. -/
def toState (st : ChannelPair) : ChannelState := ⟨st.ends, fun s => (st.inbound s).toList⟩

variable {st : ChannelPair}

theorem valid_create : create.Valid := EndpointPair.valid_create (by decide)

theorem count_le (hv : st.Valid) (s : Side) : (st.inbound s).count ≤ queueDepth := (hv s).count_le

/-! ### What each call does -/

/-- A write is refused, leaving everything as it was, or queues the message at the back
of the peer's ring. -/
theorem write_cases (st : ChannelPair) (side : Side) (message : MessageBuffer) (carries : Bool) :
    (∃ e, st.write side message carries = (st, .error e)) ∨
      (carries = false ∧ st.ends side.peer = true ∧ (st.inbound side.peer).count ≠ queueDepth ∧
        st.write side message carries =
          (st.commitWrite side ((st.inbound side.peer).push message), .ok ())) := by
  unfold write
  by_cases hc : carries = true
  · exact .inl ⟨_, by rw [if_pos hc]⟩
  rw [if_neg hc]
  by_cases hp : st.ends side.peer = true
  · rw [if_neg (by simp [hp])]
    by_cases hf : (st.inbound side.peer).count = queueDepth
    · exact .inl ⟨_, by rw [if_pos hf]⟩
    · rw [if_neg hf]
      exact .inr ⟨by simpa using hc, hp, hf, rfl⟩
  · exact .inl ⟨_, by rw [if_pos (by simpa using hp)]⟩

/-- What a write returns: the three tests in order. -/
theorem write_result (st : ChannelPair) (side : Side) (message : MessageBuffer) (carries : Bool) :
    (st.write side message carries).2 =
      if carries then .error .invalidOperation
      else if !st.ends side.peer then .error .peerClosed
      else if (st.inbound side.peer).count = queueDepth then .error .capacityExhausted
      else .ok () := by
  unfold write
  split
  · rfl
  split
  · rfl
  split <;> rfl

/-- A read of an empty ring changes nothing; any other read dequeues the front message,
returning it or, when it is oversized, discarding it with `truncated`. -/
theorem read_cases (st : ChannelPair) (side : Side) (maxBytes maxHandles : Nat) :
    ((st.inbound side).count = 0 ∧ st.read side maxBytes maxHandles =
        (st, .error (if st.ends side.peer then .wouldBlock else .peerClosed), none)) ∨
      ((st.inbound side).count ≠ 0 ∧
        ((maxBytes < (st.inbound side).front.length ∨
              maxHandles < (st.inbound side).front.handles.length) ∧
            (st.read side maxBytes maxHandles).2 = (.error .truncated, some (st.inbound side).front) ∨
          ¬(maxBytes < (st.inbound side).front.length ∨
              maxHandles < (st.inbound side).front.handles.length) ∧
            (st.read side maxBytes maxHandles).2 = (.ok (st.inbound side).front, none)) ∧
        (st.read side maxBytes maxHandles).1 =
          st.commitRead side (st.inbound side).pop (decide ((st.inbound side).count = queueDepth))) := by
  unfold read
  by_cases h0 : (st.inbound side).count = 0
  · exact .inl ⟨h0, by rw [if_pos h0]⟩
  · rw [if_neg h0]
    dsimp only
    -- the oversized test picks the outcome; the new state is the same either way
    cases ho : (decide (maxBytes < (st.inbound side).front.length) ||
        decide (maxHandles < (st.inbound side).front.handles.length))
    · exact .inr ⟨h0, .inr ⟨by simpa using ho, rfl⟩, rfl⟩
    · exact .inr ⟨h0, .inl ⟨by simpa using ho, rfl⟩, rfl⟩

@[simp] theorem ends_write (st : ChannelPair) (side : Side) (message : MessageBuffer) (c : Bool) :
    (st.write side message c).1.ends = st.ends := by
  rcases write_cases st side message c with ⟨e, h⟩ | ⟨-, -, -, h⟩ <;> rw [h]
  rfl

@[simp] theorem ends_read (st : ChannelPair) (side : Side) (maxBytes maxHandles : Nat) :
    (st.read side maxBytes maxHandles).1.ends = st.ends := by
  rcases read_cases st side maxBytes maxHandles with ⟨-, h⟩ | ⟨-, -, h⟩ <;> rw [h]
  rfl

theorem inbound_read_peer (st : ChannelPair) (side : Side) (maxBytes maxHandles : Nat) :
    (st.read side maxBytes maxHandles).1.inbound side.peer = st.inbound side.peer := by
  rcases read_cases st side maxBytes maxHandles with ⟨-, h⟩ | ⟨-, -, h⟩ <;> rw [h]
  exact EndpointPair.inbound_commitRead_peer

/-! ### Refinement of the list model -/

theorem toList_update (st : ChannelPair) (side : Side) (q : Ring MessageBuffer queueDepth) :
    (fun s => (Function.update st.inbound side q s).toList) =
      Function.update (fun s => (st.inbound s).toList) side q.toList := by
  funext s
  exact Function.apply_update (fun _ => Ring.toList) st.inbound side q s

theorem toState_write (hv : st.Valid) (side : Side) (message : MessageBuffer) :
    ((st.write side message false).1.toState, (st.write side message false).2) =
      st.toState.write side message := by
  unfold ChannelState.write
  rcases write_cases st side message false with ⟨e, h⟩ | ⟨-, hp, hf, h⟩
  · -- a refused write: the list model refuses it with the same error
    have hr := write_result st side message false
    rw [h] at hr ⊢
    simp only [Bool.false_eq_true, if_false] at hr
    simp only [toState, Ring.length_toList]
    split_ifs at hr ⊢ <;> simp_all
  · have hlt : (st.inbound side.peer).count < queueDepth := Nat.lt_of_le_of_ne (count_le hv _) hf
    rw [h]
    simp only [toState, hp, Bool.not_true, Bool.false_eq_true, if_false, Ring.length_toList, hf]
    simp only [EndpointPair.commitWrite, toList_update, Ring.toList_push _ _ hlt]

theorem toState_read (hv : st.Valid) (side : Side) (maxBytes maxHandles : Nat) :
    ((st.read side maxBytes maxHandles).1.toState, (st.read side maxBytes maxHandles).2.1,
        ((st.read side maxBytes maxHandles).2.2.map MessageBuffer.handles).getD []) =
      st.toState.read side maxBytes maxHandles := by
  unfold ChannelState.read
  rcases read_cases st side maxBytes maxHandles with ⟨h0, h⟩ | ⟨h0, ⟨ho, hr⟩ | ⟨ho, hr⟩, h⟩
  · rw [h, show st.toState.inbound side = [] from Ring.toList_eq_nil_iff.2 h0]
    rfl
  all_goals
    rw [hr, h, show st.toState.inbound side = _ from Ring.toList_eq_front_cons (hv side) h0]
    simp only [toState, EndpointPair.commitRead, toList_update, ho, if_true, if_false]
    rfl

theorem toState_destroy (st : ChannelPair) (side : Side) :
    (st.destroy side).toState = { st.toState with alive := Function.update st.toState.alive side false } := by
  simp [toState, destroy]

/-! ### The rings stay in range, the signals track them -/

theorem valid_write (hv : st.Valid) (side : Side) (message : MessageBuffer) (c : Bool) :
    (st.write side message c).1.Valid := by
  rcases write_cases st side message c with ⟨e, h⟩ | ⟨-, -, hf, h⟩ <;> rw [h]
  · exact hv
  · exact hv.commitWrite ((hv _).push message (Nat.lt_of_le_of_ne (count_le hv _) hf))

theorem valid_read (hv : st.Valid) (side : Side) (maxBytes maxHandles : Nat) :
    (st.read side maxBytes maxHandles).1.Valid := by
  rcases read_cases st side maxBytes maxHandles with ⟨-, h⟩ | ⟨-, -, h⟩ <;> rw [h]
  · exact hv
  · exact hv.commitRead (hv side).pop

theorem signalsTrack_write (ht : st.SignalsTrack) (hv : st.Valid) {side : Side}
    (hs : st.ends side = true) (message : MessageBuffer) (c : Bool) :
    (st.write side message c).1.SignalsTrack := by
  rcases write_cases st side message c with ⟨e, h⟩ | ⟨-, hp, hf, h⟩ <;> rw [h]
  · exact ht
  · have hlt := Nat.lt_of_le_of_ne (count_le hv side.peer) hf
    exact ht.commitWrite hs hp hlt (by simp)

theorem signalsTrack_read (ht : st.SignalsTrack) (hv : st.Valid) {side : Side}
    (hs : st.ends side = true) (maxBytes maxHandles : Nat) :
    (st.read side maxBytes maxHandles).1.SignalsTrack := by
  rcases read_cases st side maxBytes maxHandles with ⟨-, h⟩ | ⟨h0, -, h⟩ <;> rw [h]
  · exact ht
  · exact ht.commitRead hs (count_le hv side) (by simp; omega)

end ChannelPair

end Archipelago.Obj
