import Archipelago.Sched.Interrupts

/-! What the scheduler's entry points give back to their caller. `yield`,
`service_pending_preemption`, `sleep_ticks` with no ticks or for a thread that is not killed, and
`block_if` when it parks come back with the context they were called in and every save restored
once, for every deferred-preemption hook that does the same, the one the scheduler installs among
them. The two early returns from inside a `sched_guard` do not: a killed thread's `sleep_ticks`
skips its own restore, and `block_if`'s refusal restores the caller's flag before the guard
restores its own, so both come back with interrupts off. -/

namespace Archipelago.Sched

open Archipelago.Lib Archipelago.Lib.Block

section Paths

variable {hook : Block Cpu}

/-- After its save a caller may switch or not: the switch masks a flag that is already off. -/
theorem spec_switchOrStay (hh : Restores True hook) (picked : Bool) :
    Spec True False True (fun c => c.irq = false) id (cond (fun _ => picked) (switchTo hook) skip) := by
  refine spec_cond _ ((spec_switchTo hh (fun _ _ _ => trivial) fun _ _ _ _ => trivial).congr
    fun c hc => ?_) spec_skip
  cases c
  simp_all

theorem spec_yield (hh : Restores True hook) (picked : Bool) : Restores True (yield hook picked) := by
  have hbody : Spec True False True (fun c => c.irq = false) id
      (Block.seq (schedGuard hook skip) (cond (fun _ => picked) (switchTo hook) skip)) :=
    Spec.seq (spec_schedGuard_skip hh fun _ _ _ => trivial) (spec_switchOrStay hh picked) fun _ h => h
  refine (Spec.check_then (N := True) (R := False) _ (Spec.check_then _ ?_ fun _ _ _ => trivial)
    fun _ _ _ => trivial).call
  simp only [← Block.seq_assoc]
  exact (spec_saveRestore (fun _ => hbody) fun _ _ => rfl).congr fun c _ => restoreFlag_id c

theorem spec_servicePendingPreemption (hh : Restores True hook) (picked : Bool) :
    Restores True (servicePendingPreemption hook picked) := by
  -- the decision to exit is a local read off the context after the save
  have hbody (v : Bool) : Spec True False True (fun c => c.irq = false ∧ (c.killed && !c.idle && c.syscallDepth == 0) = v) id
      (Block.seq (Block.seq (schedGuard hook skip) (cond (fun _ => v) halt skip))
        (cond (fun _ => picked) (switchTo hook) skip)) :=
    Spec.seq (Spec.seq (spec_schedGuard_skip hh fun _ _ _ => trivial) (spec_cond _ spec_halt spec_skip)
      fun _ h => h) (spec_switchOrStay hh picked) fun _ h => h.1
  refine (spec_cond_ctx (N := True) (R := True) (fun c => !c.started) spec_ret ?_).call
  simp only [← Block.seq_assoc, bind_seq]
  exact (spec_saveRestore (fun _ => spec_read (fun c => c.killed && !c.idle && c.syscallDepth == 0) hbody)
    fun _ _ => rfl).congr fun c _ => restoreFlag_id c

/-- The hook the scheduler installs gives its caller the context back, however deep it is unfolded. -/
theorem deferredHook_restores (picks : Nat → Bool) (n : Nat) : Restores True (deferredHook picks n) := by
  induction n with
  | zero => exact spec_halt
  | succ n ih => exact spec_servicePendingPreemption ih (picks n)

theorem spec_sleepTicks (hh : Restores True hook) (picked : Bool) (ticks : Nat) :
    Spec True False True (fun c => ticks = 0 ∨ c.killed = false) id (sleepTicks hook picked ticks) := by
  -- the guarded body of a thread that is not killed falls through
  have hguard : Spec True False True (fun c => c.killed = false) id
      (schedGuard hook (Block.seq (check fun s => !s.ctx.idle) (cond (fun s => s.ctx.killed) ret skip))) := by
    refine spec_schedGuard hh (I := fun c => c.killed = false) (Spec.check_then (fun c => !c.idle)
      (spec_cond_ctx (fun c => c.killed) (spec_of_not ?_) spec_skip) fun _ _ _ => trivial)
      (fun _ hc _ => hc) fun _ _ _ => trivial
    rintro c ⟨⟨hk, -⟩, hk'⟩
    simp [hk] at hk'
  have hsleep : Spec True False True (fun c => c.killed = false) (fun c => { c with irq := false })
      (Block.seq (schedGuard hook (Block.seq (check fun s => !s.ctx.idle) (cond (fun s => s.ctx.killed) ret skip)))
        (scheduleOut hook)) :=
    Spec.seq hguard (spec_scheduleOut (P := Any) hh (fun _ _ _ => trivial) fun _ _ _ => trivial) fun _ _ => trivial
  refine (Spec.check_then (N := True) (R := True) _ (Spec.check_then _ (spec_cond_ctx (fun _ => ticks == 0)
    (Spec.seq ((spec_yield hh picked).weaken fun _ _ => trivial) (spec_ret (P := Any)) fun _ _ => trivial) ?_)
    fun _ _ _ => trivial) fun _ _ _ => trivial).call
  simp only [← Block.seq_assoc]
  refine (spec_saveRestore (fun _ => hsleep) ?_).congr fun c _ => ?_
  · rintro c ⟨⟨⟨hk, -⟩, -⟩, ht⟩
    exact hk.resolve_left (by simpa using ht)
  · cases c
    rfl

theorem spec_blockIf (hh : Restores True hook) (mask : Nat) (shouldBlock : Option Bool) :
    Spec True False True (fun c => refuses mask shouldBlock c = false) id (blockIf hook mask shouldBlock) := by
  -- a thread that does not refuse parks: the refusal branch is never entered
  have hpark (f : Saved) : Spec True False True (fun c => refuses mask shouldBlock c = false) (fun c => { c with irq := false })
      (Block.seq (schedGuard hook (lockGuard .queue (cond (fun s => refuses mask shouldBlock s.ctx)
        (Block.seq (act (restoreInterrupts f)) ret) skip))) (scheduleOut hook)) := by
    refine Spec.seq (spec_schedGuard hh (I := fun c => refuses mask shouldBlock c = false)
      (spec_lockGuard (I := fun c => refuses mask shouldBlock c = false) .queue (spec_cond_ctx (refuses mask shouldBlock) (spec_of_not ?_) spec_skip)
        (fun _ hc _ => hc) fun _ _ _ => trivial) (fun _ hc _ => hc) fun _ _ _ => trivial)
      (spec_scheduleOut (P := Any) hh (fun _ _ _ => trivial) fun _ _ _ => trivial) fun _ _ => trivial
    rintro c ⟨hr, hr'⟩
    simp [hr] at hr'
  refine (Spec.check_then (N := True) (R := False) (fun c => !c.idle) ?_ fun _ _ _ => trivial).call
  simp only [← Block.seq_assoc]
  refine (spec_saveRestore hpark fun _ hc => hc.1).congr fun c _ => ?_
  cases c
  rfl

/-- With the hook the scheduler installs, the entry points give their caller its context back,
the interrupt flag among it, and restore every save they make exactly once: `yield` and
`service_pending_preemption` on every path, `sleep_ticks` unless a killed thread sleeps, and
`block_if` unless it refuses to park. -/
theorem entry_points_restore_context (picks : Nat → Bool) (n : Nat) (picked : Bool) (ticks mask : Nat)
    (shouldBlock : Option Bool) :
    Restores True (yield (deferredHook picks n) picked) ∧
      Restores True (servicePendingPreemption (deferredHook picks n) picked) ∧
      Spec True False True (fun c => ticks = 0 ∨ c.killed = false) id
        (sleepTicks (deferredHook picks n) picked ticks) ∧
      Spec True False True (fun c => refuses mask shouldBlock c = false) id
        (blockIf (deferredHook picks n) mask shouldBlock) := by
  have hh := deferredHook_restores picks n
  exact ⟨spec_yield hh picked, spec_servicePendingPreemption hh picked, spec_sleepTicks hh picked ticks,
    spec_blockIf hh mask shouldBlock⟩

/-- A killed thread's guarded body returns from inside the guard. -/
theorem spec_killedSleepGuard {H : Prop} (hh : Restores H hook) :
    Spec False True H (fun c => c.idle = false ∧ c.killed = true ∧ c.schedLock = false) id
      (schedGuard hook (Block.seq (check fun s => !s.ctx.idle) (cond (fun s => s.ctx.killed) ret skip))) := by
  refine spec_schedGuard hh (I := fun c => c.idle = false ∧ c.killed = true) (Spec.check_then (fun c => !c.idle)
    (spec_cond_ctx (fun c => c.killed) spec_ret (spec_of_not ?_)) ?_) (fun _ hc _ => ⟨hc.1, hc.2.1⟩) ?_
  · rintro c ⟨⟨⟨-, hk⟩, -⟩, hk'⟩
    simp [hk] at hk'
  · rintro c ⟨hi, -⟩ h
    simp [hi] at h
  · rintro c ⟨-, -, hl⟩ h
    simp [hl] at h

/-- Two paths break it. A killed thread that calls `sleep_ticks(ticks)` with interrupts on returns
from inside its `sched_guard`: the guard restores the flag it saved, already off, and the
function's own restore never runs, so the caller goes on masked and its save is never restored.
`block_if` refusing to park restores the caller's flag inside the guard, whose destructor then
restores its own saved flag, off, so that caller goes on masked too. Both for every hook that
gives the context back, and returning whenever the hook does (`H = False`). -/
theorem killed_sleep_and_refused_block_return_masked {H : Prop} (hh : Restores H hook) (picked : Bool)
    {ticks mask : Nat} (shouldBlock : Option Bool) (hticks : ticks ≠ 0) (hmask : mask ≠ 0) {s : Cpu}
    (hallowed : blockingAllowed s.ctx = true) (hfree : noLocksHeld s.ctx = true) (hidle : s.ctx.idle = false)
    (hkilled : s.ctx.killed = true) (hirq : s.ctx.irq = true) :
    wp (sleepTicks hook picked ticks) (fun s' => s'.ctx.irq ≠ s.ctx.irq ∧ ¬PairedSince s s') (fun _ => False) H s ∧
      wp (blockIf hook mask shouldBlock) (fun s' => s'.ctx.irq ≠ s.ctx.irq) (fun _ => False) H s := by
  obtain ⟨hsched, hqueue⟩ := (noLocksHeld_eq_true _).1 hfree
  refine ⟨?_, ?_⟩
  · simp only [sleepTicks, wp_call, wp_seq, wp_check, wp_cond, wp_bind, hallowed, hfree, beq_iff_eq, hticks,
      if_true, if_false]
    -- the guard returns, and the return skips the rest of the function with its restore
    refine wp_mono (spec_killedSleepGuard hh _ ⟨hidle, hkilled, hsched⟩) (fun _ h => h.1.elim)
      (fun s' h => ⟨?_, h.2.paired.not_of_save⟩) id
    rw [h.2.ctx, hirq]
    simp [saveAndDisable]
  · simp only [blockIf, wp_call, wp_seq, wp_check, wp_bind, hidle, Bool.not_false, if_true]
    rw [schedGuard, criticalIrqSection]
    refine wp_flagScope (spec_sectionEnter (P := Any)) (spec_sectionExit hh) trivial fun s₂ h₂ => ?_
    have hc₂ := h₂.ctx
    simp only [saveAndDisable_ctx] at hc₂
    rw [wp_lockGuard_free (by simp [hc₂, Ctx.held, hsched]), wp_lockGuard_free (by simp [hc₂, Ctx.held, Ctx.setHeld, hqueue]),
      wp_cond, if_pos (by simp [hc₂, Ctx.setHeld, refuses, hmask, hkilled]), wp_seq, wp_act, wp_ret]
    -- the destructor runs with both depths raised, and its last restore puts back the flag off
    refine ⟨?_, fun s₄ _ => ?_⟩
    · simp [hc₂, Ctx.setHeld]
    · simp [hirq]

/-- A killed user thread in a syscall, with interrupts on and nothing held. -/
def killedCpu : Cpu :=
  ⟨{ irq := true, irqDepth := 0, preemptDepth := 0, interruptDepth := 0, faultDepth := 0, syscallDepth := 1,
     schedLock := false, queueLock := false, killed := true, idle := false, started := true, hookSet := true },
    false, 0, []⟩

theorem killed_sleep_one_tick_returns_masked :
    wp (sleepTicks skip false 1) (fun s' => s'.ctx.irq ≠ killedCpu.ctx.irq ∧ ¬PairedSince killedCpu s')
        (fun _ => False) False killedCpu ∧
      wp (blockIf skip 1 none) (fun s' => s'.ctx.irq ≠ killedCpu.ctx.irq) (fun _ => False) False killedCpu :=
  killed_sleep_and_refused_block_return_masked spec_skip false none (by decide) (by decide) rfl rfl rfl rfl rfl

/-- The run itself: `sleep_ticks(1)` comes back, masked, with the save of token 0 unrestored. -/
example : sleepTicks skip false 1 killedCpu = .next
    ⟨{ killedCpu.ctx with irq := false }, false, 5,
      [.saved 0 true, .saved 1 false, .saved 2 false, .restored 2, .saved 3 false, .restored 3,
        .saved 4 false, .restored 4, .restored 1]⟩ := rfl

end Paths

end Archipelago.Sched
