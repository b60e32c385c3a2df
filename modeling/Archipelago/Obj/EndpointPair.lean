import Archipelago.Obj.Channel
import Archipelago.Lib.Ring
import Archipelago.Lib.Mask

/-! The shared half of a channel or socket pair (`channel_state`, `socket_state`): per
side, the endpoint pointer `ends[side]`, kept as an alive flag, and the inbound ring the
endpoint on that side reads, together with the two endpoints' signal words `m_signals`.
The destructors `~Channel` and `~Socket` are the same code, and so are the signal updates
that end every write (`commitWrite`) and every read (`commitRead`): they are defined here
once, for rings of any element type and size.

Along any sequence of these updates the signal bits of every live endpoint track the
queues (`SignalsTrack`). Waking waiters and notifying port bindings from `signal_set` are
left out. -/

namespace Archipelago.Obj

open Archipelago.Lib

@[simp] theorem Side.peer_peer (s : Side) : s.peer.peer = s := by cases s <;> rfl

@[simp] theorem Side.peer_ne (s : Side) : s.peer ≠ s := by cases s <;> decide

@[simp] theorem Side.ne_peer (s : Side) : s ≠ s.peer := (Side.peer_ne s).symm

theorem Side.eq_or_eq_peer (s t : Side) : t = s ∨ t = s.peer := by
  cases s <;> cases t <;> simp [Side.peer]

/-! ## Signal words -/

/-- `CHANNEL_SIGNAL_READABLE` and `SOCKET_SIGNAL_READABLE`, bit 0. -/
def signalReadable : BitVec 32 := 1

/-- `CHANNEL_SIGNAL_WRITABLE` and `SOCKET_SIGNAL_WRITABLE`, bit 1. -/
def signalWritable : BitVec 32 := 2

/-- `CHANNEL_SIGNAL_PEER_CLOSED` and `SOCKET_SIGNAL_PEER_CLOSED`, bit 2. -/
def signalPeerClosed : BitVec 32 := 4

/-- `Object::signal_set`: `m_signals.fetch_or(bits)`. -/
def signalSet (signals bits : BitVec 32) : BitVec 32 := signals ||| bits

/-- `Object::signal_clear`: `m_signals.fetch_and(~bits)`. -/
def signalClear (signals bits : BitVec 32) : BitVec 32 := signals &&& ~~~bits

/-- `(signals() & bits) != 0`. -/
def Asserted (signals bits : BitVec 32) : Prop := signals &&& bits ≠ 0

instance (signals bits : BitVec 32) : Decidable (Asserted signals bits) :=
  inferInstanceAs (Decidable (_ ≠ _))

section Signals

variable {signals bits c : BitVec 32}

@[simp] theorem asserted_signalSet_self (hb : bits ≠ 0#32) : Asserted (signalSet signals bits) bits := by
  rw [Asserted, signalSet, or_and_self]
  exact hb

@[simp] theorem asserted_signalSet (h : bits &&& c = 0) :
    Asserted (signalSet signals bits) c ↔ Asserted signals c := by
  rw [Asserted, Asserted, signalSet, or_and_of_disjoint h]

@[simp] theorem not_asserted_signalClear_self : ¬ Asserted (signalClear signals bits) bits := by
  rw [Asserted, signalClear, and_not_and_self]
  exact fun h => h rfl

@[simp] theorem asserted_signalClear (h : bits &&& c = 0) :
    Asserted (signalClear signals bits) c ↔ Asserted signals c := by
  rw [Asserted, Asserted, signalClear, and_not_and_of_disjoint h]

@[simp] theorem not_asserted_zero (bits : BitVec 32) : ¬ Asserted 0#32 bits := by
  simp [Asserted]

-- the three bits are distinct single bits
@[simp] theorem signalReadable_ne_zero : signalReadable ≠ 0#32 := by decide
@[simp] theorem signalWritable_ne_zero : signalWritable ≠ 0#32 := by decide
@[simp] theorem signalPeerClosed_ne_zero : signalPeerClosed ≠ 0#32 := by decide
@[simp] theorem readable_and_writable : signalReadable &&& signalWritable = 0 := by decide
@[simp] theorem readable_and_peerClosed : signalReadable &&& signalPeerClosed = 0 := by decide
@[simp] theorem writable_and_readable : signalWritable &&& signalReadable = 0 := by decide
@[simp] theorem writable_and_peerClosed : signalWritable &&& signalPeerClosed = 0 := by decide
@[simp] theorem peerClosed_and_readable : signalPeerClosed &&& signalReadable = 0 := by decide
@[simp] theorem peerClosed_and_writable : signalPeerClosed &&& signalWritable = 0 := by decide

end Signals

/-! ## The pair -/

/-- The pair's shared state with its endpoints' signal words; each ring has `n` slots of
`α`. -/
structure EndpointPair (α : Type) (n : Nat) where
  ends : Side → Bool
  inbound : Side → Ring α n
  signals : Side → BitVec 32

namespace EndpointPair

variable {α : Type} {n : Nat}

/-- What `create` sets up once the state and both endpoints are allocated: both ends set,
both rings empty, both endpoints `WRITABLE`. -/
def create [Inhabited α] : EndpointPair α n where
  ends := fun _ => true
  inbound := fun _ => .empty
  signals := fun _ => signalSet 0 signalWritable

/-- The destructor of the endpoint on `side`: its end cleared, and a surviving peer loses
`WRITABLE` and gains `PEER_CLOSED`. -/
def destroy (st : EndpointPair α n) (side : Side) : EndpointPair α n :=
  if st.ends side.peer then
    { st with
      ends := Function.update st.ends side false
      signals := Function.update st.signals side.peer
        (signalSet (signalClear (st.signals side.peer) signalWritable) signalPeerClosed) }
  else { st with ends := Function.update st.ends side false }

/-- The end of a write from `side`: the peer's ring replaced by the grown `ring`,
`peer->signal_set(SIGNAL_READABLE)`, and the writer's `WRITABLE` cleared once the ring is
full. -/
def commitWrite (st : EndpointPair α n) (side : Side) (ring : Ring α n) : EndpointPair α n :=
  let signals := Function.update st.signals side.peer (signalSet (st.signals side.peer) signalReadable)
  { st with
    inbound := Function.update st.inbound side.peer ring
    signals := if ring.count = n then
        Function.update signals side (signalClear (signals side) signalWritable) else signals }

/-- The end of a read at `side`: its ring replaced by the shrunk `ring`, its `READABLE`
cleared once the ring is empty, and a live peer's `WRITABLE` raised when the ring was full
before (`wasFull`). -/
def commitRead (st : EndpointPair α n) (side : Side) (ring : Ring α n) (wasFull : Bool) :
    EndpointPair α n :=
  let signals := if ring.count = 0 then
      Function.update st.signals side (signalClear (st.signals side) signalReadable) else st.signals
  { st with
    inbound := Function.update st.inbound side ring
    signals := if wasFull && st.ends side.peer then
        Function.update signals side.peer (signalSet (signals side.peer) signalWritable) else signals }

/-- Both rings keep `head < n` and `count ≤ n`. -/
def Valid (st : EndpointPair α n) : Prop := ∀ s, (st.inbound s).Valid

/-- The signal bits of the endpoint on `s` say what the queues are: `READABLE` while its
ring holds data, `WRITABLE` while the peer is alive and the peer's ring has room,
`PEER_CLOSED` once the peer is destroyed. -/
structure Tracks (st : EndpointPair α n) (s : Side) : Prop where
  readable : Asserted (st.signals s) signalReadable ↔ (st.inbound s).count ≠ 0
  writable : Asserted (st.signals s) signalWritable ↔
    st.ends s.peer = true ∧ (st.inbound s.peer).count < n
  peerClosed : Asserted (st.signals s) signalPeerClosed ↔ st.ends s.peer = false

/-- Every live endpoint's signal bits track the queues. -/
def SignalsTrack (st : EndpointPair α n) : Prop := ∀ s, st.ends s = true → st.Tracks s

variable {st : EndpointPair α n} {side : Side} {ring : Ring α n} {wasFull : Bool}

/-! ### What each update leaves -/

@[simp] theorem ends_destroy (st : EndpointPair α n) (side : Side) :
    (st.destroy side).ends = Function.update st.ends side false := by
  unfold destroy
  split <;> rfl

@[simp] theorem inbound_destroy (st : EndpointPair α n) (side : Side) :
    (st.destroy side).inbound = st.inbound := by
  unfold destroy
  split <;> rfl

@[simp] theorem ends_commitWrite : (st.commitWrite side ring).ends = st.ends := rfl

@[simp] theorem inbound_commitWrite_peer : (st.commitWrite side ring).inbound side.peer = ring :=
  Function.update_self _ _ _

@[simp] theorem inbound_commitWrite_self : (st.commitWrite side ring).inbound side = st.inbound side :=
  Function.update_of_ne (Side.ne_peer side) _ _

theorem signals_commitWrite_peer :
    (st.commitWrite side ring).signals side.peer = signalSet (st.signals side.peer) signalReadable := by
  unfold commitWrite
  split <;> simp

theorem signals_commitWrite_self :
    (st.commitWrite side ring).signals side =
      if ring.count = n then signalClear (st.signals side) signalWritable else st.signals side := by
  unfold commitWrite
  split <;> simp

@[simp] theorem ends_commitRead : (st.commitRead side ring wasFull).ends = st.ends := rfl

@[simp] theorem inbound_commitRead_self : (st.commitRead side ring wasFull).inbound side = ring :=
  Function.update_self _ _ _

@[simp] theorem inbound_commitRead_peer :
    (st.commitRead side ring wasFull).inbound side.peer = st.inbound side.peer :=
  Function.update_of_ne (Side.peer_ne side) _ _

theorem signals_commitRead_self :
    (st.commitRead side ring wasFull).signals side =
      if ring.count = 0 then signalClear (st.signals side) signalReadable else st.signals side := by
  unfold commitRead
  by_cases h0 : ring.count = 0
  · simp only [h0, if_true]
    split <;> simp
  · simp only [h0, if_false]
    split <;> simp

theorem signals_commitRead_peer :
    (st.commitRead side ring wasFull).signals side.peer =
      if wasFull && st.ends side.peer then signalSet (st.signals side.peer) signalWritable
      else st.signals side.peer := by
  unfold commitRead
  by_cases hw : (wasFull && st.ends side.peer) = true
  · simp only [hw, if_true, Function.update_self]
    split <;> simp
  · simp only [hw, Bool.false_eq_true, if_false]
    split <;> simp

/-! ### The rings stay in range -/

theorem valid_create [Inhabited α] (hn : 0 < n) : (create : EndpointPair α n).Valid :=
  fun _ => Ring.valid_empty hn

theorem Valid.destroy (hv : st.Valid) (side : Side) : (st.destroy side).Valid := by
  intro s
  rw [inbound_destroy]
  exact hv s

theorem Valid.commitWrite (hv : st.Valid) (hr : ring.Valid) : (st.commitWrite side ring).Valid := by
  intro s
  rcases Side.eq_or_eq_peer side.peer s with rfl | rfl
  · rw [inbound_commitWrite_peer]
    exact hr
  · rw [Side.peer_peer, inbound_commitWrite_self]
    exact hv side

theorem Valid.commitRead (hv : st.Valid) (hr : ring.Valid) :
    (st.commitRead side ring wasFull).Valid := by
  intro s
  rcases Side.eq_or_eq_peer side s with rfl | rfl
  · rw [inbound_commitRead_self]
    exact hr
  · rw [inbound_commitRead_peer]
    exact hv _

/-! ### The signal bits track the queues -/

theorem signalsTrack_create [Inhabited α] (hn : 0 < n) : (create : EndpointPair α n).SignalsTrack := by
  intro s _
  constructor <;> simp [create, hn]

theorem SignalsTrack.destroy (ht : st.SignalsTrack) (side : Side) : (st.destroy side).SignalsTrack := by
  intro s hs
  rw [ends_destroy] at hs
  rcases Side.eq_or_eq_peer side s with rfl | rfl
  · simp at hs
  · -- only the survivor is left: `WRITABLE` cleared, `PEER_CLOSED` set
    have ho := ht _ (by simpa using hs)
    unfold EndpointPair.destroy
    rw [if_pos (by simpa using hs)]
    constructor <;> simp [ho.readable]

/-- A write that grew the live peer's ring keeps the signals tracking. -/
theorem SignalsTrack.commitWrite (ht : st.SignalsTrack) (hs : st.ends side = true)
    (hp : st.ends side.peer = true) (hle : ring.count ≤ n)
    (hlt : (st.inbound side.peer).count < ring.count) : (st.commitWrite side ring).SignalsTrack := by
  intro s _
  rcases Side.eq_or_eq_peer side s with rfl | rfl
  · -- the writer: only `WRITABLE` may change, cleared when the ring fills up
    have ho := ht s hs
    constructor <;> simp only [signals_commitWrite_self, inbound_commitWrite_self,
      inbound_commitWrite_peer, ends_commitWrite]
    · split <;> simp [ho.readable]
    · split
      · next hfull => simp [hfull]
      · next hfull =>
        simp only [ho.writable, hp, true_and]
        omega
    · split <;> simp [ho.peerClosed]
  · -- the reader: `READABLE` set, the rest as it was
    have ho := ht side.peer hp
    constructor <;> simp only [signals_commitWrite_peer, inbound_commitWrite_peer, Side.peer_peer,
      inbound_commitWrite_self, ends_commitWrite]
    · simp only [asserted_signalSet_self signalReadable_ne_zero, true_iff]
      omega
    · simp [ho.writable]
    · simp [ho.peerClosed]

/-- A read that shrank the reader's ring keeps the signals tracking. -/
theorem SignalsTrack.commitRead (ht : st.SignalsTrack) (hs : st.ends side = true)
    (hle : (st.inbound side).count ≤ n) (hlt : ring.count < (st.inbound side).count) :
    (st.commitRead side ring (decide ((st.inbound side).count = n))).SignalsTrack := by
  intro s hs'
  rw [ends_commitRead] at hs'
  rcases Side.eq_or_eq_peer side s with rfl | rfl
  · -- the reader: `READABLE` cleared once its ring is empty
    have ho := ht s hs
    constructor <;> simp only [signals_commitRead_self, inbound_commitRead_self,
      inbound_commitRead_peer, ends_commitRead]
    · split
      · next hempty => simp [hempty]
      · next hempty =>
        simp only [ho.readable, ne_eq, hempty, not_false_eq_true, iff_true]
        omega
    · split <;> simp [ho.writable]
    · split <;> simp [ho.peerClosed]
  · -- the peer: `WRITABLE` raised when the reader's ring was full
    have ho := ht side.peer hs'
    constructor <;> simp only [signals_commitRead_peer, inbound_commitRead_peer, Side.peer_peer,
      inbound_commitRead_self, ends_commitRead]
    · split <;> simp [ho.readable]
    · split
      · next hfull =>
        simp only [asserted_signalSet_self signalWritable_ne_zero, hs, true_and, true_iff]
        omega
      · next hfull =>
        have hne : (st.inbound side).count ≠ n := fun h => hfull (by simp [h, hs'])
        simp only [ho.writable, Side.peer_peer, hs, true_and]
        omega
    · split <;> simp [ho.peerClosed]

end EndpointPair

end Archipelago.Obj
