import Mathlib.Logic.Function.Basic
import Archipelago.Lib.Run
/-! The kernel's lock-free log ring (`kernel/log_ring.h`): many producers reserve a sequence
with a compare-exchange on `m_write`, write the payload into slot `seq % Capacity` and publish
it; a flusher that wins the `m_flushing` flag drains the `READY` slots in sequence order.

Every atomic access is one step of one party: a producer's place in `reserve` and its caller
is a `Producer`, a flusher's place in `drain` a `Flusher`, and `step` runs the party an `Act`
names. The payload write, which the caller makes through the pointer `reserve` returns, is one
step too, and carries the value written. Each step outputs an `Event`: a reservation, a drop,
a publication with the payload the slot then holds, or a payload passed to `emit`.

`m_write` and `m_read` are `uint64_t` counted in `Nat`: they would wrap after `2^64`
reservations, and runs that long are out of scope. The
fullness check `w - r >= Capacity` is computed in `uint64_t` as the source does, since a stale
`w` can be below the `r` loaded after it. `for_each`, `crash_scan`, `size` and `dropped` only
read the ring and are left out. -/

namespace Archipelago.Log

open Archipelago.Lib

/-- `log_ring::slot_state`. -/
inductive SlotState
  | free
  | writing
  | ready
  | flushed
  deriving DecidableEq, Repr

/-- `log_ring::slot`: its state, the sequence of its occupant, the payload. -/
structure Slot (T : Type) where
  state : SlotState
  seq : Nat
  value : T

/-- Where a producer is in `reserve` and in the caller's payload write and `publish`. -/
inductive Producer
  /-- Before `m_write.load`: outside `reserve`, or retrying after a lost race. -/
  | top
  /-- After `w = m_write.load()`. -/
  | loadedWrite (w : Nat)
  /-- The fullness check failed: next `m_dropped.fetch_add`. -/
  | full
  /-- The fullness check passed: next the compare-exchange of `m_write` from `w`. -/
  | checked (w : Nat)
  /-- Won sequence `w`: next `s.seq.store(w)`. -/
  | won (w : Nat)
  /-- Next `s.state.store(WRITING)`. -/
  | seqStored (w : Nat)
  /-- `reserve` returned `w`: next the caller's payload write. -/
  | reserved (w : Nat)
  /-- The payload is written: next `publish(w)`. -/
  | written (w : Nat)
  deriving DecidableEq, Repr

/-- Where a flusher is in `drain`. -/
inductive Flusher
  /-- Outside `drain`: next `m_flushing.compare_exchange(false, true)`. -/
  | idle
  /-- Holds the flag: next `r = m_read.load()`. -/
  | holding
  /-- At the loop test: next the load of slot `r`'s state. -/
  | scanning (r : Nat)
  /-- Slot `r` was `READY`: next `emit` of its payload. -/
  | emitting (r : Nat)
  /-- Next the store of `FLUSHED` into slot `r`. -/
  | marking (r : Nat)
  /-- `r += 1` done: next `m_read.store(r)`. -/
  | advancing (r : Nat)
  /-- The loop ended: next `m_flushing.store(false)`. -/
  | releasing
  deriving DecidableEq, Repr

/-- `log_ring`, with the places of its producers `ι` and flushers `κ`. -/
structure LogRing (T ι κ : Type) where
  write : Nat
  read : Nat
  dropped : Nat
  flushing : Bool
  slots : Nat → Slot T
  producers : ι → Producer
  flushers : κ → Flusher

/-- The party that takes the next step: a producer, with the payload it writes if its next
step is the payload write, or a flusher. -/
inductive Act (T ι κ : Type)
  | produce (p : ι) (v : T)
  | flush (f : κ)

/-- What a step shows: a sequence reserved, a message dropped, a payload published for a
sequence, a payload passed to `emit`. -/
inductive Event (T : Type)
  | silent
  | reserved (seq : Nat)
  | dropped
  | published (seq : Nat) (v : T)
  | emitted (v : T)

/-- `w - r` in `uint64_t`. -/
def sub64 (w r : Nat) : Nat := (((w : Int) - r) % 0x10000000000000000).toNat

namespace LogRing

variable {T ι κ : Type} [DecidableEq ι] [DecidableEq κ]

/-- The ring as constructed: both indices 0, every slot `FREE` with sequence 0 and a
value-initialized payload, every producer and flusher outside the ring's code. -/
def init [Inhabited T] : LogRing T ι κ where
  write := 0
  read := 0
  dropped := 0
  flushing := false
  slots := fun _ => ⟨.free, 0, default⟩
  producers := fun _ => .top
  flushers := fun _ => .idle

/-- Producer `p` moves to `x`. -/
def setProducer (s : LogRing T ι κ) (p : ι) (x : Producer) : LogRing T ι κ :=
  { s with producers := Function.update s.producers p x }

/-- Flusher `f` moves to `x`. -/
def setFlusher (s : LogRing T ι κ) (f : κ) (x : Flusher) : LogRing T ι κ :=
  { s with flushers := Function.update s.flushers f x }

/-- Slot `i` becomes `x`. -/
def setSlot (s : LogRing T ι κ) (i : Nat) (x : Slot T) : LogRing T ι κ :=
  { s with slots := Function.update s.slots i x }

/-- One step of producer `p` in `reserve` (lines 42-60), the caller's payload write of `v`,
and `publish` (line 63). -/
def reserveStep (capacity : Nat) (s : LogRing T ι κ) (p : ι) (v : T) : LogRing T ι κ × Event T :=
  match s.producers p with
  | .top => (s.setProducer p (.loadedWrite s.write), .silent)
  | .loadedWrite w =>
    -- `r = m_read.load()`, then the fullness check on the two loaded values
    if sub64 w s.read ≥ capacity then (s.setProducer p .full, .silent)
    else (s.setProducer p (.checked w), .silent)
  | .full => ({ s.setProducer p .top with dropped := s.dropped + 1 }, .dropped)
  | .checked w =>
    if s.write = w then ({ s.setProducer p (.won w) with write := w + 1 }, .reserved w)
    else (s.setProducer p .top, .silent)
  | .won w =>
    let sl := s.slots (w % capacity)
    ((s.setSlot (w % capacity) { sl with seq := w }).setProducer p (.seqStored w), .silent)
  | .seqStored w =>
    let sl := s.slots (w % capacity)
    ((s.setSlot (w % capacity) { sl with state := .writing }).setProducer p (.reserved w), .silent)
  | .reserved w =>
    let sl := s.slots (w % capacity)
    ((s.setSlot (w % capacity) { sl with value := v }).setProducer p (.written w), .silent)
  | .written w =>
    let sl := s.slots (w % capacity)
    ((s.setSlot (w % capacity) { sl with state := .ready }).setProducer p .top,
      .published w sl.value)

/-- One step of flusher `f` in `drain` (lines 70-81). -/
def drainStep (capacity : Nat) (s : LogRing T ι κ) (f : κ) : LogRing T ι κ × Event T :=
  match s.flushers f with
  | .idle =>
    -- another flusher holds the flag: `drain` returns at once
    if s.flushing then (s, .silent) else ({ s.setFlusher f .holding with flushing := true }, .silent)
  | .holding => (s.setFlusher f (.scanning s.read), .silent)
  | .scanning r =>
    if (s.slots (r % capacity)).state = .ready then (s.setFlusher f (.emitting r), .silent)
    else (s.setFlusher f .releasing, .silent)
  | .emitting r => (s.setFlusher f (.marking r), .emitted (s.slots (r % capacity)).value)
  | .marking r =>
    let sl := s.slots (r % capacity)
    ((s.setSlot (r % capacity) { sl with state := .flushed }).setFlusher f (.advancing (r + 1)),
      .silent)
  | .advancing r => ({ s.setFlusher f (.scanning r) with read := r }, .silent)
  | .releasing => ({ s.setFlusher f .idle with flushing := false }, .silent)

/-- One atomic step of the party `a` names. -/
def step (capacity : Nat) (s : LogRing T ι κ) : Act T ι κ → LogRing T ι κ × Event T
  | .produce p v => s.reserveStep capacity p v
  | .flush f => s.drainStep capacity f

/-- The ring after the steps `acts` from its construction, and the events they showed. -/
def execute [Inhabited T] (capacity : Nat) (acts : List (Act T ι κ)) : LogRing T ι κ × List (Event T) :=
  run (step capacity) init acts

end LogRing

end Archipelago.Log
