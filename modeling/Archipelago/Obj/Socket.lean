import Archipelago.Obj.ChannelPairRuns

/-! Sockets (`obj/socket.cpp`): a pair of byte-stream endpoints. `socket_state` keeps, per
side, the endpoint pointer and a ring of `BUFFER_BYTES` bytes on its page; a write copies
in at most two runs (tail to the page's edge, then from the front), a read copies out the
same way, and each call ends with the signal updates `Channel` uses
(`EndpointPair.commitWrite`, `EndpointPair.commitRead`). Page allocation in
`Socket::create` is left out: the pair starts once both pages exist.

Along every interleaving of writes, reads and endpoint destruction the bytes in each ring
stay within `BUFFER_BYTES`, and the signal bits of both channel and socket endpoints track
their queues. -/

namespace Archipelago.Obj

open Archipelago.Lib

/-- `Socket::BUFFER_BYTES`. -/
def bufferBytes : Nat := 4096

/-- `socket_state` with the signal words of its two endpoints. -/
abbrev SocketPair := EndpointPair UInt8 bufferBytes

namespace SocketPair

/-- `Socket::create` once the state, both pages and both endpoints are allocated. -/
def create : SocketPair := EndpointPair.create

/-- `Socket::~Socket`, the same code as `Channel::~Channel`. -/
def destroy (st : SocketPair) (side : Side) : SocketPair := EndpointPair.destroy st side

/-- `__builtin_memcpy(page + dst, src, src.length)` into a ring's page. -/
def copyIn (slots : Nat → UInt8) (dst : Nat) (src : List UInt8) : Nat → UInt8 :=
  fun j => if dst ≤ j ∧ j < dst + src.length then src.getD (j - dst) 0 else slots j

/-- `__builtin_memcpy(out, page + src, length)` out of a ring's page. -/
def copyOut (slots : Nat → UInt8) (src length : Nat) : List UInt8 :=
  (List.range length).map fun j => slots (src + j)

/-- `Socket::write` of `data` from the endpoint on `side`: as many bytes as fit, copied
behind the peer's ring tail. -/
def write (st : SocketPair) (side : Side) (data : List UInt8) : SocketPair × Except Errc Nat :=
  if !st.ends side.peer then (st, .error .peerClosed)
  else if data.length = 0 then (st, .ok 0)
  else
    let ring := st.inbound side.peer
    let space := bufferBytes - ring.count
    if space = 0 then (st, .error .capacityExhausted)
    else
      let take := min data.length space
      let tail := (ring.head + ring.count) % bufferBytes
      let firstRun := min take (bufferBytes - tail)
      let slots := copyIn ring.slots tail (data.take firstRun)
      let slots := copyIn slots 0 ((data.drop firstRun).take (take - firstRun))
      (st.commitWrite side { ring with slots := slots, count := ring.count + take }, .ok take)

/-- `Socket::read` of at most `capacity` bytes at the endpoint on `side`; the third
component is what lands in `out`. -/
def read (st : SocketPair) (side : Side) (capacity : Nat) : SocketPair × Except Errc Nat × List UInt8 :=
  let ring := st.inbound side
  if ring.count = 0 then (st, .error (if st.ends side.peer then .wouldBlock else .peerClosed), [])
  else if capacity = 0 then (st, .ok 0, [])
  else
    let take := min capacity ring.count
    let firstRun := min take (bufferBytes - ring.head)
    let out := copyOut ring.slots ring.head firstRun ++ copyOut ring.slots 0 (take - firstRun)
    let ring' := { ring with head := (ring.head + take) % bufferBytes, count := ring.count - take }
    (st.commitRead side ring' (decide (ring.count = bufferBytes)), .ok take, out)

variable {st : SocketPair}

theorem valid_create : create.Valid := EndpointPair.valid_create (by decide)

/-- A write changes nothing, or hands the peer a ring holding `take` more bytes, at least
one and no more than fit. -/
theorem write_cases (st : SocketPair) (side : Side) (data : List UInt8) (hv : st.Valid) :
    (st.write side data).1 = st ∨
      st.ends side.peer = true ∧ ∃ ring : Ring UInt8 bufferBytes,
        (st.write side data).1 = st.commitWrite side ring ∧ ring.head = (st.inbound side.peer).head ∧
          (st.inbound side.peer).count < ring.count ∧ ring.count ≤ bufferBytes := by
  have hle := (hv side.peer).count_le
  unfold write
  by_cases hp : st.ends side.peer = true
  · rw [if_neg (by simp [hp])]
    by_cases h0 : data.length = 0
    · exact .inl (by rw [if_pos h0])
    rw [if_neg h0]
    by_cases hs : bufferBytes - (st.inbound side.peer).count = 0
    · exact .inl (by rw [if_pos hs])
    rw [if_neg hs]
    refine .inr ⟨hp, _, rfl, rfl, ?_, ?_⟩ <;> simp only <;> omega
  · exact .inl (by rw [if_pos (by simpa using hp)])

/-- A read changes nothing, or hands the reader a ring holding `take` fewer bytes, at
least one and no more than it held. -/
theorem read_cases (st : SocketPair) (side : Side) (capacity : Nat) :
    (st.read side capacity).1 = st ∨
      (st.inbound side).count ≠ 0 ∧ ∃ ring : Ring UInt8 bufferBytes,
        (st.read side capacity).1 =
          st.commitRead side ring (decide ((st.inbound side).count = bufferBytes)) ∧
        ring.head = ((st.inbound side).head + ((st.inbound side).count - ring.count)) % bufferBytes ∧
        ring.count < (st.inbound side).count := by
  unfold read
  by_cases h0 : (st.inbound side).count = 0
  · exact .inl (by rw [if_pos h0])
  rw [if_neg h0]
  by_cases hc : capacity = 0
  · exact .inl (by rw [if_pos hc])
  rw [if_neg hc]
  refine .inr ⟨h0, _, rfl, ?_, ?_⟩
  · simp only
    congr 2
    omega
  · simp only
    omega

theorem ends_write (st : SocketPair) (side : Side) (data : List UInt8) (hv : st.Valid) :
    (st.write side data).1.ends = st.ends := by
  rcases write_cases st side data hv with h | ⟨-, ring, h, -⟩ <;> rw [h]
  rfl

theorem ends_read (st : SocketPair) (side : Side) (capacity : Nat) :
    (st.read side capacity).1.ends = st.ends := by
  rcases read_cases st side capacity with h | ⟨-, ring, h, -⟩ <;> rw [h]
  rfl

theorem valid_write (hv : st.Valid) (side : Side) (data : List UInt8) :
    (st.write side data).1.Valid := by
  rcases write_cases st side data hv with h | ⟨-, ring, h, hhead, -, hle⟩ <;> rw [h]
  · exact hv
  · exact hv.commitWrite ⟨hhead ▸ (hv side.peer).head_lt, hle⟩

theorem valid_read (hv : st.Valid) (side : Side) (capacity : Nat) :
    (st.read side capacity).1.Valid := by
  rcases read_cases st side capacity with h | ⟨-, ring, h, hhead, hlt⟩ <;> rw [h]
  · exact hv
  · have hle := (hv side).count_le
    exact hv.commitRead ⟨hhead ▸ Nat.mod_lt _ (by decide), by omega⟩

theorem signalsTrack_write (ht : st.SignalsTrack) (hv : st.Valid) {side : Side}
    (hs : st.ends side = true) (data : List UInt8) : (st.write side data).1.SignalsTrack := by
  rcases write_cases st side data hv with h | ⟨hp, ring, h, -, hlt, hle⟩ <;> rw [h]
  · exact ht
  · exact ht.commitWrite hs hp hle hlt

theorem signalsTrack_read (ht : st.SignalsTrack) (hv : st.Valid) {side : Side}
    (hs : st.ends side = true) (capacity : Nat) : (st.read side capacity).1.SignalsTrack := by
  rcases read_cases st side capacity with h | ⟨-, ring, h, -, hlt⟩ <;> rw [h]
  · exact ht
  · exact ht.commitRead hs (hv side).count_le hlt

end SocketPair

/-! ### Runs -/

/-- A call on one endpoint of a socket pair. -/
inductive SocketOp
  | write (side : Side) (data : List UInt8)
  | read (side : Side) (capacity : Nat)
  | destroy (side : Side)
  deriving DecidableEq

/-- The endpoint a call is on. -/
def SocketOp.side : SocketOp → Side
  | .write side _ | .read side _ | .destroy side => side

/-- What a call returned; `gone` for a call on an endpoint already destroyed. -/
inductive SocketOutcome
  | wrote (r : Except Errc Nat)
  | read (r : Except Errc Nat) (bytes : List UInt8)
  | destroyed
  | gone
  deriving DecidableEq

namespace SocketPair

/-- One call, with the state lock held throughout. -/
def step (st : SocketPair) (op : SocketOp) : SocketPair × SocketOutcome :=
  if st.ends op.side then
    match op with
    | .write side data =>
        let r := st.write side data
        (r.1, .wrote r.2)
    | .read side capacity =>
        let r := st.read side capacity
        (r.1, .read r.2.1 r.2.2)
    | .destroy side => (st.destroy side, .destroyed)
  else (st, .gone)

def after (st : SocketPair) (ops : List SocketOp) : SocketPair := (run step st ops).1

variable {st : SocketPair}

/-- A property kept by every call of a live endpoint is kept by every step. -/
theorem step_preserves {P : SocketPair → Prop} (hP : P st)
    (hw : ∀ side data, st.ends side = true → P (st.write side data).1)
    (hr : ∀ side capacity, st.ends side = true → P (st.read side capacity).1)
    (hd : ∀ side, st.ends side = true → P (st.destroy side)) (op : SocketOp) : P (st.step op).1 := by
  unfold SocketPair.step
  by_cases ha : st.ends op.side = true
  · rw [if_pos ha]
    cases op with
    | write side data => exact hw side data ha
    | read side capacity => exact hr side capacity ha
    | destroy side => exact hd side ha
  · rw [if_neg ha]
    exact hP

theorem valid_step (hv : st.Valid) (op : SocketOp) : (st.step op).1.Valid :=
  step_preserves hv (fun side data _ => valid_write hv side data)
    (fun side capacity _ => valid_read hv side capacity) (fun side _ => hv.destroy side) op

theorem signalsTrack_after (ops : List SocketOp) : (create.after ops).SignalsTrack := by
  have h := run_invariant (fun st : SocketPair => st.Valid ∧ st.SignalsTrack)
    (fun st op hs => ⟨valid_step hs.1 op, step_preserves hs.2
      (fun _ data ha => signalsTrack_write hs.2 hs.1 ha data)
      (fun _ capacity ha => signalsTrack_read hs.2 hs.1 ha capacity)
      (fun side _ => hs.2.destroy side) op⟩)
    ⟨valid_create, EndpointPair.signalsTrack_create (by decide)⟩ ops
  exact h.2

end SocketPair

/-- In every state reachable from `create` by writes, reads and endpoint destruction, the
signal bits of each live channel endpoint and each live socket endpoint track the queues:
`READABLE` iff its inbound ring is non-empty, `WRITABLE` iff the peer is alive and the
peer's ring is below `QUEUE_DEPTH` messages (`BUFFER_BYTES` bytes), `PEER_CLOSED` iff the
peer is destroyed. -/
theorem endpoint_signals_track_queues (channelOps : List PairOp) (socketOps : List SocketOp) :
    (ChannelPair.create.after channelOps).SignalsTrack ∧
      (SocketPair.create.after socketOps).SignalsTrack :=
  ⟨ChannelPair.signalsTrack_after channelOps, SocketPair.signalsTrack_after socketOps⟩

end Archipelago.Obj
