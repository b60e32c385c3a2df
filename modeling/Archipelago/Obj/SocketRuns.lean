import Archipelago.Obj.Socket

/-! Each direction of a socket is a bounded byte FIFO (`obj/socket.cpp`). A write's two
`memcpy` runs, tail to the page's edge and then from the front, append the accepted prefix
of its data behind the bytes already in the peer's ring, for every head position; a read's
two runs hand back the ring's first bytes in order, and moving the head drops them.

So the next write accepts exactly `min(length, BUFFER_BYTES - count)` bytes while the peer
lives (`capacity_exhausted` exactly when that is zero for a non-empty write), a read returns
exactly `min(capacity, count)`, and along every interleaving of writes, reads and endpoint
destruction the bytes reads on a side returned, followed by the bytes its ring still holds,
are the accepted prefixes of the writes into it. -/

namespace Archipelago.Obj

open Archipelago.Lib

namespace SocketPair

variable {r : Ring UInt8 bufferBytes}

/-! ### The two runs of a copy -/

/-- `Socket::write`'s runs: `take` bytes of `data` from the ring's tail to the page's edge,
then the rest from the front of the page, land in the `take` slots behind the live ones. -/
theorem toList_writeRuns (hv : r.Valid) (data : List UInt8) {take : Nat}
    (htake : take ≤ data.length) (hfit : r.count + take ≤ bufferBytes) :
    ({ r with
        slots := copyIn (copyIn r.slots ((r.head + r.count) % bufferBytes)
            (data.take (min take (bufferBytes - (r.head + r.count) % bufferBytes)))) 0
          ((data.drop (min take (bufferBytes - (r.head + r.count) % bufferBytes))).take
            (take - min take (bufferBytes - (r.head + r.count) % bufferBytes))),
        count := r.count + take } : Ring UInt8 bufferBytes).toList = r.toList ++ data.take take := by
  have hhead := hv.head_lt
  have hlen : (data.take take).length = take := by simp [htake]
  have hext := r.toList_extend
    (copyIn (copyIn r.slots ((r.head + r.count) % bufferBytes)
        (data.take (min take (bufferBytes - (r.head + r.count) % bufferBytes)))) 0
      ((data.drop (min take (bufferBytes - (r.head + r.count) % bufferBytes))).take
        (take - min take (bufferBytes - (r.head + r.count) % bufferBytes))))
    (data.take take) ?keep ?new
  · rwa [hlen] at hext
  case keep =>
    -- a live slot lies in neither run: the runs cover the `take` slots behind the count
    intro i hi
    simp only [copyIn, Ring.slot, List.length_take, List.length_drop, bufferBytes] at hhead hfit ⊢
    rw [if_neg (by omega), if_neg (by omega)]
  case new =>
    intro k hk
    rw [hlen] at hk
    simp only [copyIn, Ring.slot, List.length_take, List.length_drop, bufferBytes] at hhead hfit ⊢
    rw [List.getElem_take]
    split_ifs with h₂ h₁
    · -- past the page's edge: the second run, from the front
      rw [List.getD_eq_getElem _ _ (by simp; omega), List.getElem_take, List.getElem_drop]
      congr 1
      omega
    · -- before the edge: the first run, from the tail
      rw [List.getD_eq_getElem _ _ (by simp; omega), List.getElem_take]
      congr 1
      omega
    · omega

/-- `Socket::read`'s runs: from the head to the page's edge, then from the front, they copy
out the first `take` bytes in order. -/
theorem copyOut_readRuns (hv : r.Valid) {take : Nat} (ht : take ≤ r.count) :
    copyOut r.slots r.head (min take (bufferBytes - r.head)) ++
        copyOut r.slots 0 (take - min take (bufferBytes - r.head)) = r.toList.take take := by
  have hhead := hv.head_lt
  have hcount := hv.count_le
  rw [r.take_toList take ht]
  apply List.ext_getElem
    (by simp only [copyOut, List.length_append, List.length_map, List.length_range]; omega)
  intro i h₁ h₂
  have hi₂ : i < take := by simpa using h₂
  simp only [List.getElem_map, List.getElem_range, Ring.slot]
  by_cases hi : i < min take (bufferBytes - r.head)
  · rw [List.getElem_append_left (by simpa [copyOut] using hi)]
    simp only [copyOut, List.getElem_map, List.getElem_range, bufferBytes] at hi hhead hcount ⊢
    congr 1
    omega
  · rw [List.getElem_append_right (by simp only [copyOut, List.length_map, List.length_range]; omega)]
    simp only [copyOut, List.getElem_map, List.getElem_range, List.length_map, List.length_range,
      bufferBytes] at hi hhead hcount ⊢
    congr 1
    omega

/-! ### What the next call does -/

variable {st : SocketPair}

/-- A write's outcome: `peer_closed` once the peer is gone; otherwise it accepts
`min(length, BUFFER_BYTES - count)` bytes, failing with `capacity_exhausted` exactly when that
is zero for a non-empty write. -/
theorem write_outcome (st : SocketPair) (side : Side) (data : List UInt8) :
    (st.write side data).2 =
      if st.ends side.peer then
        if 0 < data.length ∧ min data.length (bufferBytes - (st.inbound side.peer).count) = 0 then
          .error .capacityExhausted
        else .ok (min data.length (bufferBytes - (st.inbound side.peer).count))
      else .error .peerClosed := by
  unfold write
  by_cases hp : st.ends side.peer = true
  · rw [if_neg (by simp [hp]), if_pos hp]
    by_cases h0 : data.length = 0
    · rw [if_pos h0, if_neg (by omega), h0, Nat.zero_min]
    · rw [if_neg h0]
      by_cases hs : bufferBytes - (st.inbound side.peer).count = 0
      · rw [if_pos hs, if_pos (by omega)]
      · rw [if_neg hs, if_neg (by omega)]
  · rw [if_pos (by simpa using hp), if_neg hp]

/-- A write that is refused changes nothing. -/
theorem write_of_error {side : Side} {data : List UInt8} {e : Errc}
    (h : (st.write side data).2 = .error e) : (st.write side data).1 = st := by
  unfold write at h ⊢
  by_cases hp : st.ends side.peer = true
  · rw [if_neg (by simp [hp])] at h ⊢
    by_cases h0 : data.length = 0
    · rw [if_pos h0] at h
      cases h
    · rw [if_neg h0] at h ⊢
      by_cases hs : bufferBytes - (st.inbound side.peer).count = 0
      · rw [if_pos hs]
      · rw [if_neg hs] at h
        cases h
  · rw [if_pos (by simpa using hp)]

/-- A write that returns `m` appends the first `m` bytes of its data to the peer's ring and
leaves the writer's own ring alone. -/
theorem write_of_ok (hv : st.Valid) {side : Side} {data : List UInt8} {m : Nat}
    (h : (st.write side data).2 = .ok m) :
    ((st.write side data).1.inbound side.peer).toList =
        (st.inbound side.peer).toList ++ data.take m ∧
      (st.write side data).1.inbound side = st.inbound side := by
  have hle := (hv side.peer).count_le
  unfold write at h ⊢
  by_cases hp : st.ends side.peer = true
  · rw [if_neg (by simp [hp])] at h ⊢
    by_cases h0 : data.length = 0
    · -- an empty write returns 0 and changes nothing
      rw [if_pos h0] at h ⊢
      cases h
      simp
    · rw [if_neg h0] at h ⊢
      by_cases hs : bufferBytes - (st.inbound side.peer).count = 0
      · rw [if_pos hs] at h
        cases h
      · rw [if_neg hs] at h ⊢
        cases h
        refine ⟨?_, EndpointPair.inbound_commitWrite_self⟩
        rw [EndpointPair.inbound_commitWrite_peer]
        exact toList_writeRuns (hv side.peer) data (Nat.min_le_left _ _) (by omega)
  · rw [if_pos (by simpa using hp)] at h
    cases h

/-- A read returns `min(capacity, count)` bytes, the ring's first ones in order, and the ring
keeps the rest; the peer's ring is left alone. An empty ring gives `would_block` while the
peer lives and `peer_closed` after. -/
theorem read_spec (hv : st.Valid) (side : Side) (capacity : Nat) :
    (st.read side capacity).2.1 =
        (if (st.inbound side).count = 0 then
          .error (if st.ends side.peer then .wouldBlock else .peerClosed)
        else .ok (min capacity (st.inbound side).count)) ∧
      (st.read side capacity).2.2 = (st.inbound side).toList.take (min capacity (st.inbound side).count) ∧
      ((st.read side capacity).1.inbound side).toList =
        (st.inbound side).toList.drop (min capacity (st.inbound side).count) ∧
      (st.read side capacity).1.inbound side.peer = st.inbound side.peer := by
  unfold read
  by_cases h0 : (st.inbound side).count = 0
  · simp [h0, Ring.toList_eq_nil_iff.2 h0]
  rw [if_neg h0, if_neg h0]
  by_cases hc : capacity = 0
  · simp [hc]
  rw [if_neg hc]
  refine ⟨rfl, copyOut_readRuns (hv side) (Nat.min_le_right _ _), ?_, ?_⟩
  · rw [EndpointPair.inbound_commitRead_self]
    exact Ring.toList_advance _ _
  · exact EndpointPair.inbound_commitRead_peer

/-! ### Each direction is a FIFO -/

/-- The run's calls paired with what they returned. -/
def trace (st : SocketPair) (ops : List SocketOp) : List (SocketOp × SocketOutcome) :=
  ops.zip (run step st ops).2

/-- The bytes a call put into the ring of `side`: the accepted prefix of a write from the
peer. -/
def sentEvent (side : Side) : SocketOp × SocketOutcome → List UInt8
  | (.write w data, .wrote (.ok m)) => if w.peer = side then data.take m else []
  | _ => []

/-- The bytes a read of `side` returned. -/
def takenEvent (side : Side) : SocketOp × SocketOutcome → List UInt8
  | (.read r _, .read (.ok _) bytes) => if r = side then bytes else []
  | _ => []

/-- The bytes writes put into the ring of `side`, in order. -/
def sentTo (side : Side) (tr : List (SocketOp × SocketOutcome)) : List UInt8 :=
  tr.flatMap (sentEvent side)

/-- The bytes reads of `side` returned, in order. -/
def takenFrom (side : Side) (tr : List (SocketOp × SocketOutcome)) : List UInt8 :=
  tr.flatMap (takenEvent side)

/-- Each ring holds what was written into it, less what reads took, in order. -/
def Fifo (st : SocketPair) (tr : List (SocketOp × SocketOutcome)) : Prop :=
  ∀ s, sentTo s tr = takenFrom s tr ++ (st.inbound s).toList

theorem sentTo_snoc (side : Side) (tr : List (SocketOp × SocketOutcome)) (x : SocketOp × SocketOutcome) :
    sentTo side (tr ++ [x]) = sentTo side tr ++ sentEvent side x := by
  simp [sentTo]

theorem takenFrom_snoc (side : Side) (tr : List (SocketOp × SocketOutcome)) (x : SocketOp × SocketOutcome) :
    takenFrom side (tr ++ [x]) = takenFrom side tr ++ takenEvent side x := by
  simp [takenFrom]

theorem fifo_create : create.Fifo [] := fun s => by
  simp [sentTo, takenFrom, create, EndpointPair.create]

/-- A call that moves no bytes keeps the invariant. -/
theorem Fifo.of_silent {st' : SocketPair} {tr : List (SocketOp × SocketOutcome)} (hf : st.Fifo tr)
    {x : SocketOp × SocketOutcome} (hinb : st'.inbound = st.inbound)
    (hsent : ∀ s, sentEvent s x = []) (htaken : ∀ s, takenEvent s x = []) :
    st'.Fifo (tr ++ [x]) := fun s => by
  rw [sentTo_snoc, takenFrom_snoc, hsent, htaken, hinb, List.append_nil, List.append_nil, hf s]

theorem Fifo.write {tr : List (SocketOp × SocketOutcome)} (hf : st.Fifo tr) (hv : st.Valid)
    (side : Side) (data : List UInt8) :
    (st.write side data).1.Fifo (tr ++ [(.write side data, .wrote (st.write side data).2)]) := by
  cases hr : (st.write side data).2 with
  | error e =>
    exact Fifo.of_silent hf (by rw [write_of_error hr]) (fun _ => rfl) (fun _ => rfl)
  | ok m =>
    obtain ⟨hpeer, hself⟩ := write_of_ok hv hr
    intro s
    rw [sentTo_snoc, takenFrom_snoc, hf s]
    simp only [sentEvent, takenEvent, List.append_nil]
    rcases Side.eq_or_eq_peer side s with rfl | rfl
    · rw [if_neg (Side.peer_ne s), List.append_nil, hself]
    · rw [if_pos rfl, hpeer, List.append_assoc]

theorem Fifo.read {tr : List (SocketOp × SocketOutcome)} (hf : st.Fifo tr) (hv : st.Valid)
    (side : Side) (capacity : Nat) :
    (st.read side capacity).1.Fifo
      (tr ++ [(.read side capacity, .read (st.read side capacity).2.1 (st.read side capacity).2.2)]) := by
  obtain ⟨hres, hout, hself, hpeer⟩ := read_spec hv side capacity
  intro s
  rw [sentTo_snoc, takenFrom_snoc, hf s]
  simp only [sentEvent, List.append_nil]
  rcases Side.eq_or_eq_peer side s with rfl | rfl
  · -- the reader's own ring: what the read returned moves from the ring to the taken bytes
    have htaken : takenEvent s (.read s capacity,
        .read (st.read s capacity).2.1 (st.read s capacity).2.2) =
        (st.inbound s).toList.take (min capacity (st.inbound s).count) := by
      by_cases h0 : (st.inbound s).count = 0
      · rw [if_pos h0] at hres
        simp [takenEvent, hres, Ring.toList_eq_nil_iff.2 h0]
      · rw [if_neg h0] at hres
        simp [takenEvent, hres, hout]
    rw [htaken, hself, List.append_assoc, List.take_append_drop]
  · have htaken : takenEvent side.peer (.read side capacity,
        .read (st.read side capacity).2.1 (st.read side capacity).2.2) = [] := by
      unfold takenEvent
      split <;> simp_all [Side.ne_peer]
    rw [htaken, hpeer, List.append_nil]

theorem Fifo.step {tr : List (SocketOp × SocketOutcome)} (hf : st.Fifo tr) (hv : st.Valid)
    (op : SocketOp) : (st.step op).1.Fifo (tr ++ [(op, (st.step op).2)]) := by
  unfold SocketPair.step
  by_cases ha : st.ends op.side = true
  · rw [if_pos ha]
    cases op with
    | write side data => exact hf.write hv side data
    | read side capacity => exact hf.read hv side capacity
    | destroy side => exact Fifo.of_silent hf (EndpointPair.inbound_destroy st side) (fun _ => rfl) (fun _ => rfl)
  · rw [if_neg ha]
    exact Fifo.of_silent hf rfl (fun _ => by cases op <;> rfl) (fun _ => by cases op <;> rfl)

theorem valid_after (ops : List SocketOp) : (create.after ops).Valid :=
  run_invariant EndpointPair.Valid (fun _ op hv => valid_step hv op) valid_create ops

theorem fifo_after (ops : List SocketOp) : (create.after ops).Fifo (create.trace ops) := by
  have h := run_trace (fun (st : SocketPair) tr => st.Valid ∧ st.Fifo tr)
    (fun st tr op hs => ⟨valid_step hs.1 op, hs.2.step hs.1 op⟩)
    (⟨valid_create, fifo_create⟩ : create.Valid ∧ create.Fifo []) ops
  simpa [after, trace] using h.2

/-- Along every interleaving of writes, reads and endpoint destruction from
`Socket::create`: the bytes the reads of each side returned, then the bytes its ring still
holds, are the accepted prefixes of the writes into it, so the bytes read are a prefix of
the bytes accepted; the next write accepts exactly `min(length, BUFFER_BYTES - count)` bytes
while the peer lives, failing with `capacity_exhausted` exactly when that is zero for a
non-empty write, and appends them in order; the next read of a non-empty ring returns the count
`min(capacity, count)` and exactly the first that many bytes in order, the ring keeping the
rest, and of an empty ring `would_block` while the peer lives and `peer_closed` after. -/
theorem socket_refines_byte_fifos (ops : List SocketOp) :
    (∀ s, sentTo s (create.trace ops) =
        takenFrom s (create.trace ops) ++ ((create.after ops).inbound s).toList ∧
      takenFrom s (create.trace ops) <+: sentTo s (create.trace ops)) ∧
    (∀ side data, ((create.after ops).write side data).2 =
      (if (create.after ops).ends side.peer then
        if 0 < data.length ∧
            min data.length (bufferBytes - ((create.after ops).inbound side.peer).count) = 0 then
          .error .capacityExhausted
        else .ok (min data.length (bufferBytes - ((create.after ops).inbound side.peer).count))
      else .error .peerClosed) ∧
      ∀ m, ((create.after ops).write side data).2 = .ok m →
        (((create.after ops).write side data).1.inbound side.peer).toList =
          ((create.after ops).inbound side.peer).toList ++ data.take m) ∧
    (∀ side capacity,
      ((create.after ops).read side capacity).2.1 =
          (if ((create.after ops).inbound side).count = 0 then
            .error (if (create.after ops).ends side.peer then .wouldBlock else .peerClosed)
          else .ok (min capacity ((create.after ops).inbound side).count)) ∧
        ((create.after ops).read side capacity).2.2 =
          ((create.after ops).inbound side).toList.take
            (min capacity ((create.after ops).inbound side).count) ∧
        (((create.after ops).read side capacity).1.inbound side).toList =
          ((create.after ops).inbound side).toList.drop
            (min capacity ((create.after ops).inbound side).count)) := by
  have hv := valid_after ops
  have hf := fifo_after ops
  refine ⟨fun s => ⟨hf s, hf s ▸ List.prefix_append _ _⟩, fun side data =>
    ⟨write_outcome _ side data, fun m hm => (write_of_ok hv hm).1⟩, fun side capacity => ?_⟩
  obtain ⟨hret, hout, hself, -⟩ := read_spec hv side capacity
  exact ⟨hret, hout, hself⟩

end SocketPair

end Archipelago.Obj
