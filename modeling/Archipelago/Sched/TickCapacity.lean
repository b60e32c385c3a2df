import Archipelago.Ktl.DequeRuns

/-! The tick path's reservations (`sched/internal.h`, `task/scheduler.cpp`,
`task/reaper.cpp`). `ensure_tick_capacity` counts a new live thread and grows the run queue
and the zombie list to `live + 2` with `grow_under_sched_lock`: a fresh deque is reserved
outside `g_sched_lock`, and under it the live deque is kept when its `capacity()` already
reaches the target, or else its values move over to the fresh one.

Along every run of spawns, reaps and queue operations both deques keep their layout, lose
no thread, and hold `capacity() ≥ live + 2` slots. Slots are not what a push needs:
`reserve(n)` provisions one block beyond `⌈n / 16⌉` because the front block may hold
consumed slots, and the early return skips that block. The sleeper and timed-wait vectors
and the stack cache are left out. -/

namespace Archipelago.Sched

open Archipelago.Lib Archipelago.Ktl

variable {α : Type}

/-- The loop of `grow_under_sched_lock` for a deque, `live.pop_front()` into
`fresh.push_back` until `live` is empty, for at most `fuel` values. -/
def moveAll : Nat → Deque α → Deque α → Deque α
  | 0, _, fresh => fresh
  | fuel + 1, live, fresh =>
    match live.popFront with
    | (live', some x) => moveAll fuel live' (fresh.pushBack x).1
    | (_, none) => fresh

/-- `grow_under_sched_lock(live, capacity)` for a deque, when `fresh.reserve` succeeds: the
deque it leaves in `live`. -/
def growUnderSchedLock (live : Deque α) (capacity : Nat) : Deque α :=
  let fresh := Deque.empty.reserve capacity
  if live.capacity ≥ capacity then live else moveAll live.size live fresh

/-- Moving every value of a well-formed deque behind those of another keeps them all, in
order, and keeps the receiving deque's blocks. -/
theorem moveAll_spec : ∀ (k : Nat) {live fresh : Deque α}, live.Wf → fresh.Wf → live.size = k →
    (moveAll k live fresh).Wf ∧ (moveAll k live fresh).toList = fresh.toList ++ live.toList ∧
      fresh.blocks.length ≤ (moveAll k live fresh).blocks.length
  | 0, live, fresh, hl, hf, hk => by
    have hnil : live.toList = [] := List.eq_nil_of_length_eq_zero (hl.size_eq ▸ hk)
    exact ⟨hf, by rw [moveAll, hnil, List.append_nil], Nat.le_refl _⟩
  | k + 1, live, fresh, hl, hf, hk => by
    obtain ⟨hl', htail, hhead, -⟩ := hl.popFront
    obtain ⟨x, rest, hxs⟩ : ∃ x rest, live.toList = x :: rest :=
      List.exists_cons_of_length_eq_add_one (hl.size_eq ▸ hk)
    have hpop : live.popFront = (live.popFront.1, some x) := by
      rw [hxs] at hhead
      exact Prod.ext rfl hhead
    obtain ⟨hf', hpush, hlen⟩ := hf.pushBack x
    have hk' : live.popFront.1.size = k := by
      rw [hl'.size_eq, htail, hxs, List.tail_cons]
      have := hl.size_eq
      rw [hxs, List.length_cons] at this
      omega
    obtain ⟨hw, hl₂, hlen₂⟩ := moveAll_spec k hl' hf' hk'
    rw [moveAll, hpop]
    refine ⟨hw, ?_, Nat.le_trans hlen hlen₂⟩
    rw [hl₂, hpush, htail, hxs, List.tail_cons, List.append_assoc, List.singleton_append]

/-- `grow_under_sched_lock` keeps the queue's layout and values; it either kept the deque,
whose `capacity()` reached the target, or left one with `reserve`'s blocks. -/
theorem growUnderSchedLock_spec {live : Deque α} (hw : live.Wf) (capacity : Nat) :
    (growUnderSchedLock live capacity).Wf ∧ (growUnderSchedLock live capacity).toList = live.toList ∧
      (capacity ≤ live.capacity ∧ growUnderSchedLock live capacity = live ∨
        Deque.requiredBlocks capacity ≤ (growUnderSchedLock live capacity).blocks.length) := by
  unfold growUnderSchedLock
  by_cases hc : live.capacity ≥ capacity
  · rw [if_pos hc]
    exact ⟨hw, rfl, .inl ⟨hc, rfl⟩⟩
  · rw [if_neg hc]
    obtain ⟨hfw, hfnil, hflen⟩ := (Deque.wf_empty (α := α)).reserve capacity
    obtain ⟨hmw, hml, hmlen⟩ := moveAll_spec live.size hw hfw rfl
    refine ⟨hmw, by rw [hml, hfnil]; rfl, .inr ?_⟩
    calc Deque.requiredBlocks capacity ≤ (Deque.empty.reserve capacity : Deque α).blocks.length := by
          rw [hflen]; exact Nat.le_max_right _ _
      _ ≤ _ := hmlen

/-- `grow_under_sched_lock` leaves at least `capacity` slots, up to `reserve`'s clamp. -/
theorem capacity_growUnderSchedLock {live : Deque α} (hw : live.Wf) (capacity : Nat) :
    Deque.clampCapacity capacity ≤ (growUnderSchedLock live capacity).capacity := by
  obtain ⟨hgw, -, hcases⟩ := growUnderSchedLock_spec hw capacity
  rcases hcases with ⟨hc, heq⟩ | hblocks
  · rw [heq]; exact Nat.le_trans (Nat.min_le_left _ _) hc
  · rw [hgw.capacity_eq]
    have := Nat.mul_le_mul_left blockCapacity hblocks
    simp only [Deque.requiredBlocks, Deque.clampCapacity, sizeMax, blockCapacity] at this ⊢
    omega

/-! ### Spawns, reaps and the queues -/

/-- `g_live_threads`, `g_run_queue` and `g_zombies`. -/
structure TickState (α : Type) where
  liveThreads : Nat
  runQueue : Deque α
  zombies : Deque α

/-- At boot: no live thread, both deques default-constructed. -/
def TickState.boot : TickState α := ⟨0, .empty, .empty⟩

/-- `ensure_tick_capacity()` when every reservation succeeds. -/
def ensureTickCapacity (st : TickState α) : TickState α :=
  let live := st.liveThreads + 1
  let target := live + 2
  ⟨live, growUnderSchedLock st.runQueue target, growUnderSchedLock st.zombies target⟩

/-- `note_thread_reaped()`. -/
def noteThreadReaped (st : TickState α) : TickState α := { st with liveThreads := st.liveThreads - 1 }

/-- The two deques `ensure_tick_capacity` provisions. -/
inductive Queue
  | runQueue
  | zombies
  deriving DecidableEq

namespace TickState

def queue (st : TickState α) : Queue → Deque α
  | .runQueue => st.runQueue
  | .zombies => st.zombies

def setQueue (st : TickState α) : Queue → Deque α → TickState α
  | .runQueue, d => { st with runQueue := d }
  | .zombies, d => { st with zombies := d }

@[simp] theorem queue_setQueue_self (st : TickState α) (q : Queue) (d : Deque α) :
    (st.setQueue q d).queue q = d := by
  cases q <;> rfl

@[simp] theorem queue_setQueue_of_ne (st : TickState α) {q r : Queue} (d : Deque α) (h : q ≠ r) :
    (st.setQueue q d).queue r = st.queue r := by
  cases q <;> cases r <;> first | rfl | exact absurd rfl h

@[simp] theorem liveThreads_setQueue (st : TickState α) (q : Queue) (d : Deque α) :
    (st.setQueue q d).liveThreads = st.liveThreads := by
  cases q <;> rfl

@[simp] theorem queue_ensureTickCapacity (st : TickState α) (q : Queue) :
    (ensureTickCapacity st).queue q = growUnderSchedLock (st.queue q) (st.liveThreads + 1 + 2) := by
  cases q <;> rfl

@[simp] theorem queue_noteThreadReaped (st : TickState α) (q : Queue) :
    (noteThreadReaped st).queue q = st.queue q := by
  cases q <;> rfl

end TickState

/-- What the scheduler does to these globals: a spawn, a reap, or a call on one of the
deques under `g_sched_lock`. -/
inductive TickOp (α : Type)
  | spawn
  | reap
  | call (q : Queue) (op : DequeOp α)

/-- The calls a run makes on the deque `q`. -/
def TickOp.on (q : Queue) : TickOp α → Option (DequeOp α)
  | .call r op => if r = q then some op else none
  | _ => none

@[simp] theorem TickOp.on_spawn (q : Queue) : (TickOp.spawn : TickOp α).on q = none := rfl
@[simp] theorem TickOp.on_reap (q : Queue) : (TickOp.reap : TickOp α).on q = none := rfl
@[simp] theorem TickOp.on_call (q r : Queue) (op : DequeOp α) :
    (TickOp.call r op).on q = if r = q then some op else none := rfl

namespace TickState

def step (st : TickState α) : TickOp α → TickState α × Option (DequeOutcome α)
  | .spawn => (ensureTickCapacity st, none)
  | .reap => (noteThreadReaped st, none)
  | .call q op => (st.setQueue q ((st.queue q).step op).1, some ((st.queue q).step op).2)

def after (st : TickState α) (ops : List (TickOp α)) : TickState α := (run step st ops).1

/-- Both deques well formed, each with `capacity()` at least `live + 2` (up to `reserve`'s
clamp) once a thread lives. -/
structure Inv (st : TickState α) : Prop where
  wf : ∀ q, (st.queue q).Wf
  capacity : st.liveThreads ≠ 0 → ∀ q, Deque.clampCapacity (st.liveThreads + 2) ≤ (st.queue q).capacity

theorem inv_boot : (boot : TickState α).Inv :=
  ⟨fun q => by cases q <;> exact Deque.wf_empty, fun h => absurd rfl h⟩

/-- A deque operation keeps the layout and never shrinks `capacity()`. -/
theorem capacity_step_le {d : Deque α} (hw : d.Wf) (op : DequeOp α) :
    d.capacity ≤ (d.step op).1.capacity := by
  obtain ⟨hw', -, -, hlen⟩ := hw.step_refines op
  rw [hw.capacity_eq, hw'.capacity_eq]
  exact Nat.mul_le_mul_left _ hlen

theorem clampCapacity_mono {m n : Nat} (h : m ≤ n) : Deque.clampCapacity m ≤ Deque.clampCapacity n := by
  unfold Deque.clampCapacity
  omega

theorem Inv.step {st : TickState α} (hi : st.Inv) (op : TickOp α) : (st.step op).1.Inv := by
  cases op with
  | spawn =>
    refine ⟨fun q => ?_, fun _ q => ?_⟩ <;> simp only [TickState.step, queue_ensureTickCapacity]
    · exact (growUnderSchedLock_spec (hi.wf q) _).1
    · exact capacity_growUnderSchedLock (hi.wf q) _
  | reap =>
    -- one thread fewer: the old bound covers the new one
    refine ⟨fun q => ?_, fun h q => ?_⟩ <;> simp only [TickState.step, queue_noteThreadReaped]
    · exact hi.wf q
    · change st.liveThreads - 1 ≠ 0 at h
      exact Nat.le_trans (clampCapacity_mono (by simp [noteThreadReaped])) (hi.capacity (by omega) q)
  | call q op =>
    -- the called deque keeps its layout and capacity; the other is untouched
    constructor
    · intro r
      by_cases hr : q = r
      · subst hr
        simpa [TickState.step] using ((hi.wf q).step_refines op).1
      · simpa [TickState.step, hr] using hi.wf r
    · intro h r
      simp only [TickState.step, liveThreads_setQueue] at h ⊢
      by_cases hr : q = r
      · subst hr
        simpa using Nat.le_trans (hi.capacity h q) (capacity_step_le (hi.wf q) op)
      · simpa [hr] using hi.capacity h r

/-- Reservations never lose or reorder a queued value: a deque holds what its own calls
leave in a list deque. -/
theorem Inv.queue_after {st : TickState α} (hi : st.Inv) (q : Queue) (ops : List (TickOp α)) :
    ((st.after ops).queue q).toList = (run listStep (st.queue q).toList (ops.filterMap (TickOp.on q))).1 := by
  induction ops generalizing st with
  | nil => rfl
  | cons op ops ih =>
    rw [after, run_cons, ← after, ih (hi.step op)]
    cases op with
    | spawn => simp [TickState.step, List.filterMap_cons, (growUnderSchedLock_spec (hi.wf q) _).2.1]
    | reap => simp [TickState.step, List.filterMap_cons]
    | call r dop =>
      by_cases hr : r = q
      · subst hr
        simp [TickState.step, ((hi.wf r).step_refines dop).2.1]
      · simp [TickState.step, hr]

end TickState

/-- In every state reachable from boot by spawns, reaps and calls on the run queue and the
zombie list, both deques keep their layout, each holds exactly what its own calls leave in
a list deque (the reservations move values without losing or reordering one), and each has
`capacity()` at least `g_live_threads + 2` slots. -/
theorem tick_reservations_keep_queues (ops : List (TickOp α)) (q : Queue) :
    ((TickState.boot.after ops).queue q).Wf ∧
      ((TickState.boot.after ops).queue q).toList = (run listStep [] (ops.filterMap (TickOp.on q))).1 ∧
      ((TickState.boot.after ops).liveThreads ≠ 0 →
        Deque.clampCapacity ((TickState.boot.after ops).liveThreads + 2) ≤
          ((TickState.boot.after ops).queue q).capacity) := by
  have hi : (TickState.boot.after ops : TickState α).Inv :=
    run_invariant TickState.Inv (fun _ op h => h.step op) TickState.inv_boot ops
  refine ⟨hi.wf q, ?_, fun h => hi.capacity h q⟩
  rw [TickState.inv_boot.queue_after q ops]
  cases q <;> rfl

/-! ### A reservation one block short -/

/-- Thirty threads spawned: every reservation after the first, with targets 4 to 32, finds
the two blocks of `reserve(3)`, 32 slots, and returns early. -/
def thirtySpawns : List (TickOp Nat) := List.replicate 30 .spawn

/-- Then, on the run queue: sixteen threads queued, three taken, sixteen more queued. Twenty
nine threads wait, and the front block has three consumed slots. -/
def busyRunQueue : List (TickOp Nat) :=
  (List.range 16).map (fun t => .call .runQueue (.pushBack t)) ++
    List.replicate 3 (.call .runQueue .popFront) ++
    (List.range' 16 16).map (fun t => .call .runQueue (.pushBack t))

/-- With thirty live threads the last `grow_under_sched_lock(g_run_queue, 32)` returns early
on `capacity() = 32`, leaving two blocks where `reserve(32)` provisions three; with 29
threads queued, at most `live + 1`, the next `push_back` allocates. -/
theorem tick_push_allocates_after_early_return :
    (TickState.boot.after (List.replicate 29 .spawn) : TickState Nat).runQueue.capacity = 32 ∧
      (TickState.boot.after thirtySpawns).runQueue =
        (TickState.boot.after (List.replicate 29 .spawn) : TickState Nat).runQueue ∧
      (TickState.boot.after thirtySpawns).runQueue.blocks.length < Deque.requiredBlocks 32 ∧
      (TickState.boot.after (thirtySpawns ++ busyRunQueue)).liveThreads = 30 ∧
      (TickState.boot.after (thirtySpawns ++ busyRunQueue)).runQueue.size ≤ 30 + 1 ∧
      ((TickState.boot.after (thirtySpawns ++ busyRunQueue)).runQueue.pushBack 32).2 = true := by
  decide +kernel

end Archipelago.Sched
