import Archipelago.Lib.Scope

/-! The interrupt flag across the scheduler's entry points: `sleep_ticks` (`task/sleep.cpp`),
`wait_queue::block_if` (`task/wait_queue.cpp`), `yield`, `schedule_out`, `switch_to` and
`service_pending_preemption` (`task/scheduler.cpp`), over the guards of
`synchronization/guard.h` and `execution_context.h` and the depth counters of
`task/sync/execution_context.cpp`.

`save_and_disable_interrupts` returns the flag and clears it; `restore_interrupts` sets it to a
saved value (`pushfq; cli` and `popfq` on x86-64, the `SIE` bit of `sstatus` on RISC-V).
`critical_irq_section` saves in its constructor and restores last in its destructor, after
`preempt_enable`, which may run the deferred preemption hook; `sched_guard` adds `g_sched_lock`.
The C++ scopes are `withCleanup`, so a `return` inside a guard runs the guard's destructor and
skips the rest of the function.

A save hands out a token and the record `log` lists saves and restores by token: ghost state
beside the flag the source keeps. The run queue, the thread states and the statistics are left
out: they do not touch the flag. `switch_to` comes back when another thread switches to this
one; `arch_context_switch` saves no flags, so the thread goes on with the flag of the thread that
switched to it, which every caller of `switch_to` has cleared. -/

namespace Archipelago.Sched

open Archipelago.Lib Archipelago.Lib.Block

/-- A save or a restore of the interrupt flag; a save is known by the token it hands out. -/
inductive IrqEvent
  | saved (token : Nat) (flag : Bool)
  | restored (token : Nat)
  deriving DecidableEq, Repr

/-- What `save_and_disable_interrupts` returns: the saved flag, with the save's token. -/
structure Saved where
  token : Nat
  flag : Bool
  deriving DecidableEq, Repr

/-- What the entry points must give back to their caller: the interrupt flag, the execution
context's depths, the locks this core holds, and what they read of the current thread. -/
structure Ctx where
  irq : Bool
  irqDepth : Nat
  preemptDepth : Nat
  interruptDepth : Nat
  faultDepth : Nat
  syscallDepth : Nat
  schedLock : Bool
  queueLock : Bool
  killed : Bool
  idle : Bool
  started : Bool
  hookSet : Bool
  deriving DecidableEq, Repr

/-- A core: its context, `preempt_pending`, and the record of saves and restores. -/
structure Cpu where
  ctx : Ctx
  preemptPending : Bool
  nextToken : Nat
  log : List IrqEvent
  deriving DecidableEq, Repr

/-- A statement that changes the context only. -/
def onCtx (f : Ctx → Ctx) : Block Cpu := act fun s => { s with ctx := f s.ctx }

/-- `save_and_disable_interrupts()`. -/
def saveAndDisable (s : Cpu) : Cpu × Saved :=
  ({ s with
      ctx := { s.ctx with irq := false }
      nextToken := s.nextToken + 1
      log := s.log ++ [.saved s.nextToken s.ctx.irq] },
    ⟨s.nextToken, s.ctx.irq⟩)

/-- `restore_interrupts(flags)`. -/
def restoreInterrupts (f : Saved) (s : Cpu) : Cpu :=
  { s with ctx := { s.ctx with irq := f.flag }, log := s.log ++ [.restored f.token] }

@[simp] theorem saveAndDisable_ctx (s : Cpu) : (saveAndDisable s).1.ctx = { s.ctx with irq := false } := rfl

@[simp] theorem saveAndDisable_flag (s : Cpu) : (saveAndDisable s).2.flag = s.ctx.irq := rfl

@[simp] theorem restoreInterrupts_ctx (f : Saved) (s : Cpu) :
    (restoreInterrupts f s).ctx = { s.ctx with irq := f.flag } := rfl

/-- An object that saves the flag as its first member, then runs `enter`; its destructor runs
`exit` and restores the flag last. -/
def flagScope (enter exit body : Block Cpu) : Block Cpu :=
  bind saveAndDisable fun f => seq enter (withCleanup body (seq exit (act (restoreInterrupts f))))

/-- `irq_off` (`execution_context.cpp`). -/
def irqOff (body : Block Cpu) : Block Cpu := flagScope skip skip body

/-- `preempt_disable()`. -/
def preemptDisable : Block Cpu :=
  call (irqOff (onCtx fun c => { c with preemptDepth := c.preemptDepth + 1 }))

/-- `deferred_preemption_eligible`. -/
def deferredPreemptionEligible (c : Ctx) : Bool :=
  c.preemptDepth == 0 && c.interruptDepth == 0 && c.faultDepth == 0

/-- `service_deferred_preemption`: the hook runs once per request, when eligible and installed. -/
def serviceDeferredPreemption (hook : Block Cpu) : Block Cpu :=
  call (cond (fun s => !s.preemptPending || !deferredPreemptionEligible s.ctx || !s.ctx.hookSet) ret
    (seq (act fun s => { s with preemptPending := false }) (call hook)))

/-- `preempt_enable()`: the decrement in one `irq_off` scope, the hook in a second one. -/
def preemptEnable (hook : Block Cpu) : Block Cpu :=
  call (seq
    (irqOff (seq (check fun s => s.ctx.preemptDepth != 0)
      (onCtx fun c => { c with preemptDepth := c.preemptDepth - 1 })))
    (irqOff (serviceDeferredPreemption hook)))

/-- `critical_irq_section` around `body`. -/
def criticalIrqSection (hook body : Block Cpu) : Block Cpu :=
  flagScope (seq (onCtx fun c => { c with irqDepth := c.irqDepth + 1 }) preemptDisable)
    (seq (check fun s => s.ctx.irqDepth != 0)
      (seq (onCtx fun c => { c with irqDepth := c.irqDepth - 1 }) (preemptEnable hook)))
    body

/-- The two spinlocks these paths take. -/
inductive Lock
  | sched
  | queue
  deriving DecidableEq, Repr

def Ctx.held (c : Ctx) : Lock → Bool
  | .sched => c.schedLock
  | .queue => c.queueLock

def Ctx.setHeld (c : Ctx) (b : Bool) : Lock → Ctx
  | .sched => { c with schedLock := b }
  | .queue => { c with queueLock := b }

/-- `lock_guard`: a spinlock this core already holds spins forever. -/
def lockGuard (l : Lock) (body : Block Cpu) : Block Cpu :=
  seq (check fun s => !s.ctx.held l)
    (seq (onCtx (·.setHeld true l)) (withCleanup body (onCtx (·.setHeld false l))))

/-- `sched_guard guard(g_sched_lock)`: the section is constructed before the lock guard and
destroyed after it. -/
def schedGuard (hook body : Block Cpu) : Block Cpu := criticalIrqSection hook (lockGuard .sched body)

/-- `blocking_allowed()`: the same three depths as `deferred_preemption_eligible`. -/
def blockingAllowed (c : Ctx) : Bool := deferredPreemptionEligible c

/-- `assert_no_locks_held`. -/
def noLocksHeld (c : Ctx) : Bool := !c.schedLock && !c.queueLock

/-- `switch_to(next)`: the bookkeeping under the scheduler lock, then the switch; the thread
goes on masked when it is switched back to. -/
def switchTo (hook : Block Cpu) : Block Cpu :=
  call (seq (check fun s => s.ctx.preemptDepth == 0)
    (seq (schedGuard hook skip) (onCtx fun c => { c with irq := false })))

/-- `schedule_out(reason)`: a switch to the next thread, or to idle. -/
def scheduleOut (hook : Block Cpu) : Block Cpu :=
  call (seq (check fun s => blockingAllowed s.ctx) (seq (check fun s => noLocksHeld s.ctx)
    (seq (schedGuard hook skip) (switchTo hook))))

/-- `yield()`; `picked` is whether `pick_next_locked` found a thread. -/
def yield (hook : Block Cpu) (picked : Bool) : Block Cpu :=
  call (seq (check fun s => blockingAllowed s.ctx) (seq (check fun s => noLocksHeld s.ctx)
    (bind saveAndDisable fun flags =>
      seq (schedGuard hook skip)
        (seq (cond (fun _ => picked) (switchTo hook) skip) (act (restoreInterrupts flags))))))

/-- `sleep_ticks(ticks)`: a killed thread returns from inside the guard. -/
def sleepTicks (hook : Block Cpu) (picked : Bool) (ticks : Nat) : Block Cpu :=
  call (seq (check fun s => blockingAllowed s.ctx) (seq (check fun s => noLocksHeld s.ctx)
    (cond (fun _ => ticks == 0) (seq (yield hook picked) ret)
      (bind saveAndDisable fun flags =>
        seq (schedGuard hook (seq (check fun s => !s.ctx.idle) (cond (fun s => s.ctx.killed) ret skip)))
          (seq (scheduleOut hook) (act (restoreInterrupts flags)))))))

/-- Whether `block_if` refuses to park: a killed thread on a signal wait, or a predicate that
says not to block (`shouldBlock` is its answer, `none` for no predicate). -/
def refuses (mask : Nat) (shouldBlock : Option Bool) (c : Ctx) : Bool :=
  (mask != 0 && c.killed) || shouldBlock == some false

/-- `wait_queue::block_if(node, mask, should_block, ctx)`: the refusal restores the flag inside
both guards and returns. -/
def blockIf (hook : Block Cpu) (mask : Nat) (shouldBlock : Option Bool) : Block Cpu :=
  call (seq (check fun s => !s.ctx.idle)
    (bind saveAndDisable fun flags =>
      seq (schedGuard hook (lockGuard .queue
          (cond (fun s => refuses mask shouldBlock s.ctx) (seq (act (restoreInterrupts flags)) ret) skip)))
        (seq (scheduleOut hook) (act (restoreInterrupts flags)))))

/-- `service_pending_preemption()`: a killed thread outside a syscall exits, which does not come
back; otherwise a switch if a thread was picked. -/
def servicePendingPreemption (hook : Block Cpu) (picked : Bool) : Block Cpu :=
  call (cond (fun s => !s.ctx.started) ret
    (bind saveAndDisable fun flags =>
      bind (fun s => (s, s.ctx.killed && !s.ctx.idle && s.ctx.syscallDepth == 0)) fun exitNow =>
        seq (schedGuard hook skip)
          (seq (cond (fun _ => exitNow) halt skip)
            (seq (cond (fun _ => picked) (switchTo hook) skip) (act (restoreInterrupts flags))))))

/-- The hook the scheduler installs, `service_pending_preemption` itself, unfolded `n` calls
deep (`picks k` is what the call `k` levels down picks); a deeper call is not modelled. -/
def deferredHook (picks : Nat → Bool) : Nat → Block Cpu
  | 0 => halt
  | n + 1 => servicePendingPreemption (deferredHook picks n) (picks n)

/-! ### Contracts

`Changes g s₀ s`: from `s₀` to `s` the context went through `g`, and every save made in between
was restored exactly once in between. `Spec P g b`: from a context in `P`, every way out of `b`
changes the context by `g`; a path that does not come back meets every contract. `NoRet b`: `b`
has no `return` that leaves it. -/

namespace IrqEvent

def token : IrqEvent → Nat
  | saved k _ => k
  | restored k => k

def saves (k : Nat) : IrqEvent → Bool
  | saved j _ => j == k
  | restored _ => false

def restores (k : Nat) : IrqEvent → Bool
  | saved _ _ => false
  | restored j => j == k

end IrqEvent

/-- The record grew from `s₀` to `s` by events naming tokens handed out in between, restoring
each save made there exactly once. -/
structure PairedSince (s₀ s : Cpu) : Prop where
  token_le : s₀.nextToken ≤ s.nextToken
  grows : ∃ d, s.log = s₀.log ++ d ∧ (∀ e ∈ d, s₀.nextToken ≤ e.token ∧ e.token < s.nextToken) ∧
    ∀ k, d.countP (·.restores k) = d.countP (·.saves k)

theorem PairedSince.of_eq {s₀ s : Cpu} (hlog : s.log = s₀.log) (ht : s.nextToken = s₀.nextToken) :
    PairedSince s₀ s :=
  ⟨Nat.le_of_eq ht.symm, [], by simp [hlog], by simp, by simp⟩

theorem PairedSince.trans {s₀ s₁ s₂ : Cpu} (h₁ : PairedSince s₀ s₁) (h₂ : PairedSince s₁ s₂) :
    PairedSince s₀ s₂ := by
  obtain ⟨d₁, hl₁, ht₁, hc₁⟩ := h₁.grows
  obtain ⟨d₂, hl₂, ht₂, hc₂⟩ := h₂.grows
  have hle₁ := h₁.token_le
  have hle₂ := h₂.token_le
  refine ⟨Nat.le_trans hle₁ hle₂, d₁ ++ d₂, by rw [hl₂, hl₁, List.append_assoc], fun e he => ?_,
    fun k => by rw [List.countP_append, List.countP_append, hc₁, hc₂]⟩
  rcases List.mem_append.1 he with he | he
  · have := ht₁ e he
    omega
  · have := ht₂ e he
    omega

/-- Events that all name later tokens say nothing of `k`. -/
theorem countP_eq_zero_of_tokens {d : List IrqEvent} {k : Nat} (ht : ∀ e ∈ d, k < e.token)
    (p : IrqEvent → Bool) (hp : ∀ e, p e = true → e.token = k) : d.countP p = 0 :=
  List.countP_eq_zero.2 fun e he hpe => by
    have := ht e he
    have := hp e hpe
    omega

theorem IrqEvent.token_of_saves {k : Nat} : ∀ e : IrqEvent, e.saves k = true → e.token = k
  | saved j _, h => by simpa [saves, token] using h
  | restored _, h => by simp [saves] at h

theorem IrqEvent.token_of_restores {k : Nat} : ∀ e : IrqEvent, e.restores k = true → e.token = k
  | saved _ _, h => by simp [restores] at h
  | restored j, h => by simpa [restores, token] using h

/-- After a save, the record grows by events naming the later tokens only. -/
theorem PairedSince.after_save {s s' : Cpu} (h : PairedSince (saveAndDisable s).1 s') :
    ∃ d, s'.log = s.log ++ .saved s.nextToken s.ctx.irq :: d ∧ (∀ e ∈ d, s.nextToken < e.token) ∧
      (∀ e ∈ d, e.token < s'.nextToken) ∧ ∀ k, d.countP (·.restores k) = d.countP (·.saves k) := by
  obtain ⟨d, hl, ht, hc⟩ := h.grows
  simp only [saveAndDisable] at hl ht
  refine ⟨d, by rw [hl]; simp, fun e he => ?_, fun e he => (ht e he).2, hc⟩
  have := (ht e he).1
  omega

/-- A save and the restore of what it saved close a stretch that pairs its own saves. -/
theorem PairedSince.save_restore {s s' : Cpu} (h : PairedSince (saveAndDisable s).1 s') :
    PairedSince s (restoreInterrupts (saveAndDisable s).2 s') := by
  obtain ⟨d, hl, hlo, hhi, hc⟩ := h.after_save
  have hle : s.nextToken + 1 ≤ s'.nextToken := h.token_le
  refine ⟨by simp only [restoreInterrupts]; omega,
    [.saved s.nextToken s.ctx.irq] ++ d ++ [.restored s.nextToken], ?_, fun e he => ?_, fun k => ?_⟩
  · simp only [restoreInterrupts, saveAndDisable, hl]
    simp
  · simp only [restoreInterrupts]
    simp only [List.mem_append, List.mem_singleton] at he
    rcases he with (rfl | he) | rfl
    · simp only [IrqEvent.token]
      omega
    · have := hlo e he
      have := hhi e he
      omega
    · simp only [IrqEvent.token]
      omega
  · rw [List.countP_append, List.countP_append, List.countP_append, List.countP_append, hc k]
    by_cases hk : s.nextToken = k
    · -- the save's own token is not in `d`, which names later tokens only
      subst hk
      rw [countP_eq_zero_of_tokens hlo _ IrqEvent.token_of_saves]
      simp [IrqEvent.saves, IrqEvent.restores]
    · simp [IrqEvent.saves, IrqEvent.restores, hk]

/-- A save whose restore never comes leaves the stretch from before it unpaired. -/
theorem PairedSince.not_of_save {s s' : Cpu} (h : PairedSince (saveAndDisable s).1 s') :
    ¬PairedSince s s' := by
  intro h'
  obtain ⟨d, hl, hlo, -, -⟩ := h.after_save
  obtain ⟨d', hl', -, hc'⟩ := h'.grows
  -- both records extend `s.log`, so the rest from `s` on is the save followed by `d`
  have hd : d' = .saved s.nextToken s.ctx.irq :: d := List.append_cancel_left (hl'.symm.trans hl)
  have hcount := hc' s.nextToken
  rw [hd, List.countP_cons, List.countP_cons, countP_eq_zero_of_tokens hlo _ IrqEvent.token_of_saves,
    countP_eq_zero_of_tokens hlo _ IrqEvent.token_of_restores] at hcount
  simp [IrqEvent.saves, IrqEvent.restores] at hcount

/-- From `s₀` to `s` the context went through `g`, with every save in between paired. -/
structure Changes (g : Ctx → Ctx) (s₀ s : Cpu) : Prop where
  ctx : s.ctx = g s₀.ctx
  paired : PairedSince s₀ s

theorem Changes.trans {g g' : Ctx → Ctx} {s₀ s₁ s₂ : Cpu} (h₁ : Changes g s₀ s₁) (h₂ : Changes g' s₁ s₂) :
    Changes (g' ∘ g) s₀ s₂ :=
  ⟨by rw [h₂.ctx, h₁.ctx]; rfl, h₁.paired.trans h₂.paired⟩

/-- The flag cleared around `g` and set back to its old value. -/
def restoreFlag (g : Ctx → Ctx) (c : Ctx) : Ctx := { g { c with irq := false } with irq := c.irq }

@[simp] theorem restoreFlag_id (c : Ctx) : restoreFlag id c = c := rfl

theorem Changes.save_restore {g : Ctx → Ctx} {s s' : Cpu} (h : Changes g (saveAndDisable s).1 s') :
    Changes (restoreFlag g) s (restoreInterrupts (saveAndDisable s).2 s') :=
  ⟨by simp only [restoreInterrupts, h.ctx, saveAndDisable, restoreFlag], h.paired.save_restore⟩

/-- From a context in `P`, every way out of `b` changes the context by `g` and pairs the saves
made on the way; `b` falls through only if `N`, returns only if `R`, and stops without coming back
only if `H` (`H = True` is partial correctness). -/
def Spec (N R H : Prop) (P : Ctx → Prop) (g : Ctx → Ctx) (b : Block Cpu) : Prop :=
  ∀ s, P s.ctx → wp b (fun s' => N ∧ Changes g s s') (fun s' => R ∧ Changes g s s') H s

/-- No precondition. -/
abbrev Any : Ctx → Prop := fun _ => True

/-- A hook that gives every caller its context back, and comes back unless `H`. -/
abbrev Restores (H : Prop) (b : Block Cpu) : Prop := Spec True False H Any id b

section Rules

variable {N R H : Prop} {P P' : Ctx → Prop} {g g' : Ctx → Ctx} {a b : Block Cpu}

theorem spec_skip : Spec True R H P id skip := fun _ _ => ⟨trivial, rfl, .of_eq rfl rfl⟩

theorem spec_ret : Spec N True H P id ret := fun _ _ => ⟨trivial, rfl, .of_eq rfl rfl⟩

theorem spec_halt : Spec N R True P g halt := fun _ _ => trivial

theorem spec_onCtx (f : Ctx → Ctx) : Spec True R H P f (onCtx f) := fun _ _ => ⟨trivial, rfl, .of_eq rfl rfl⟩

theorem spec_setPending (v : Bool) : Spec True R H P id (act fun s => { s with preemptPending := v }) :=
  fun _ _ => ⟨trivial, rfl, .of_eq rfl rfl⟩

/-- A block entered from no context at all meets every contract. -/
theorem spec_of_not (hP : ∀ c, ¬P c) : Spec N R H P g b := fun _ hs => (hP _ hs).elim

theorem Spec.weaken (h : Spec N R H P g b) (hP : ∀ c, P' c → P c) : Spec N R H P' g b := fun s hs =>
  h s (hP _ hs)

theorem Spec.congr (h : Spec N R H P g b) (hg : ∀ c, P c → g c = g' c) : Spec N R H P g' b := fun s hs =>
  wp_mono (h s hs) (fun _ h' => ⟨h'.1, h'.2.ctx.trans (hg _ hs), h'.2.paired⟩)
    (fun _ h' => ⟨h'.1, h'.2.ctx.trans (hg _ hs), h'.2.paired⟩) id

/-- Sequencing after a block that has no `return`. -/
theorem Spec.seq (ha : Spec True False H P g a) (hb : Spec N R H P' g' b) (hP : ∀ c, P c → P' (g c)) :
    Spec N R H P (g' ∘ g) (Block.seq a b) := by
  intro s hs
  rw [wp_seq]
  refine wp_mono (ha s hs) (fun s₁ h₁ => ?_) (fun _ h₁ => h₁.1.elim) id
  refine wp_mono (hb s₁ ?_) (fun _ h₂ => ⟨h₂.1, h₁.2.trans h₂.2⟩) (fun _ h₂ => ⟨h₂.1, h₁.2.trans h₂.2⟩) id
  rw [h₁.2.ctx]
  exact hP _ hs

/-- Sequencing before a block that gives the context back: `a` may return. -/
theorem Spec.seq_id (ha : Spec True R H P g a) (hb : Spec N R H P' id b) (hP : ∀ c, P c → P' (g c)) :
    Spec N R H P g (Block.seq a b) := by
  intro s hs
  rw [wp_seq]
  refine wp_mono (ha s hs) (fun s₁ h₁ => ?_) (fun _ h₁ => h₁) id
  refine wp_mono (hb s₁ ?_) (fun _ h₂ => ⟨h₂.1, h₁.2.trans h₂.2⟩) (fun _ h₂ => ⟨h₂.1, h₁.2.trans h₂.2⟩) id
  rw [h₁.2.ctx]
  exact hP _ hs

/-- An assertion on the context: what follows may rely on it, and a failed one stops. -/
theorem Spec.check_then (c : Ctx → Bool) (hb : Spec N R H (fun x => P x ∧ c x = true) g b)
    (hc : ∀ x, P x → c x = false → H) : Spec N R H P g (Block.seq (check fun s => c s.ctx) b) := by
  intro s hs
  rw [wp_seq, wp_check]
  split
  · exact hb s ⟨hs, by assumption⟩
  · exact hc _ hs (by simpa using (by assumption : ¬c s.ctx = true))

theorem spec_cond (c : Cpu → Bool) (ha : Spec N R H P g a) (hb : Spec N R H P g b) :
    Spec N R H P g (cond c a b) := by
  intro s hs
  rw [wp_cond]
  split
  · exact ha s hs
  · exact hb s hs

/-- A branch on the context: each side may rely on the test. -/
theorem spec_cond_ctx (c : Ctx → Bool) (ha : Spec N R H (fun x => P x ∧ c x = true) g a)
    (hb : Spec N R H (fun x => P x ∧ c x = false) g b) : Spec N R H P g (cond (fun s => c s.ctx) a b) := by
  intro s hs
  rw [wp_cond]
  split
  · exact ha s ⟨hs, by assumption⟩
  · exact hb s ⟨hs, by simpa using (by assumption : ¬c s.ctx = true)⟩

/-- A local read off the context. -/
theorem spec_read {α : Type} (e : Ctx → α) {k : α → Block Cpu}
    (h : ∀ v, Spec N R H (fun x => P x ∧ e x = v) g (k v)) : Spec N R H P g (bind (fun s => (s, e s.ctx)) k) :=
  fun s hs => h _ s ⟨hs, rfl⟩

/-- A call comes back wherever its body returns. -/
theorem Spec.call {N' : Prop} (h : Spec N' R H P g b) : Spec True N H P g (Block.call b) := fun s hs => by
  rw [wp_call]
  exact wp_mono (h s hs) (fun _ h' => ⟨trivial, h'.2⟩) (fun _ h' => ⟨trivial, h'.2⟩) id

/-- A destructor runs on both ways out of the body, and the body's way out goes on. -/
theorem Spec.withCleanup {R' : Prop} (hb : Spec N R H P g b) (hc : Spec True R' H P' g' a)
    (hP : ∀ c, P c → P' (g c)) : Spec N R H P (g' ∘ g) (Block.withCleanup b a) := by
  intro s hs
  rw [wp_withCleanup]
  have hclean (s₁ : Cpu) (h₁ : Changes g s s₁) {X : Prop} (hX : X) :
      wp a (fun s' => X ∧ Changes (g' ∘ g) s s') (fun s' => X ∧ Changes (g' ∘ g) s s') H s₁ :=
    wp_mono (hc s₁ (h₁.ctx ▸ hP _ hs)) (fun _ h₂ => ⟨hX, h₁.trans h₂.2⟩) (fun _ h₂ => ⟨hX, h₁.trans h₂.2⟩) id
  exact wp_mono (hb s hs) (fun s₁ h₁ => hclean s₁ h₁.2 h₁.1) (fun s₁ h₁ => hclean s₁ h₁.2 h₁.1) id

/-- A flag scope seen from inside: what the body must leave for the destructor and the final
restore to end in `Qn` or `Qr`. The body may do anything, also restore a flag saved outside. -/
theorem wp_flagScope {P₁ P₃ : Ctx → Prop} {g₁ g₃ : Ctx → Ctx} {enter exit body : Block Cpu}
    {Qn Qr : Cpu → Prop} {s : Cpu} (he : Spec True False H P₁ g₁ enter) (hx : Spec True False H P₃ g₃ exit)
    (hs : P₁ { s.ctx with irq := false })
    (hb : ∀ s₂, Changes g₁ (saveAndDisable s).1 s₂ → wp body
      (fun s₃ => P₃ s₃.ctx ∧ ∀ s₄, Changes g₃ s₃ s₄ → Qn (restoreInterrupts (saveAndDisable s).2 s₄))
      (fun s₃ => P₃ s₃.ctx ∧ ∀ s₄, Changes g₃ s₃ s₄ → Qr (restoreInterrupts (saveAndDisable s).2 s₄)) H s₂) :
    wp (flagScope enter exit body) Qn Qr H s := by
  rw [flagScope, wp_bind, wp_seq]
  refine wp_mono (he _ hs) (fun s₂ h₂ => ?_) (fun _ h₂ => h₂.1.elim) id
  rw [wp_withCleanup]
  -- the destructor runs from wherever the body left, and the restore comes last
  have hclean (Q : Cpu → Prop) (s₃ : Cpu)
      (h₃ : P₃ s₃.ctx ∧ ∀ s₄, Changes g₃ s₃ s₄ → Q (restoreInterrupts (saveAndDisable s).2 s₄)) :
      wp (Block.seq exit (act (restoreInterrupts (saveAndDisable s).2))) Q Q H s₃ := by
    rw [wp_seq]
    exact wp_mono (hx s₃ h₃.1) (fun s₄ h₄ => h₃.2 s₄ h₄.2) (fun _ h₄ => h₄.1.elim) id
  exact wp_mono (hb s₂ h₂.2) (hclean Qn) (hclean Qr) id

/-- An object that saves the flag first and restores it last gives the flag back, whatever its
constructor, body and destructor do in between. -/
theorem spec_flagScope {P₁ P₂ P₃ : Ctx → Prop} {g₁ g₂ g₃ : Ctx → Ctx} {enter exit body : Block Cpu}
    (he : Spec True False H P₁ g₁ enter) (hb : Spec N R H P₂ g₂ body) (hx : Spec True False H P₃ g₃ exit)
    (hP₁ : ∀ c, P c → P₁ { c with irq := false }) (hP₂ : ∀ c, P₁ c → P₂ (g₁ c))
    (hP₃ : ∀ c, P₂ c → P₃ (g₂ c)) :
    Spec N R H P (restoreFlag (g₃ ∘ g₂ ∘ g₁)) (flagScope enter exit body) := by
  intro s hs
  refine wp_flagScope he hx (hP₁ _ hs) fun s₂ h₂ => ?_
  have hs₂ : P₂ s₂.ctx := by
    rw [h₂.ctx]
    exact hP₂ _ (hP₁ _ hs)
  -- both ways out of the body reach the destructor in `P₃`
  have hout (X : Prop) (s₃ : Cpu) (h₃ : X ∧ Changes g₂ s₂ s₃) : P₃ s₃.ctx ∧ ∀ s₄, Changes g₃ s₃ s₄ →
      X ∧ Changes (restoreFlag (g₃ ∘ g₂ ∘ g₁)) s (restoreInterrupts (saveAndDisable s).2 s₄) := by
    refine ⟨?_, fun s₄ h₄ => ⟨h₃.1, ((h₂.trans h₃.2).trans h₄).save_restore⟩⟩
    rw [h₃.2.ctx]
    exact hP₃ _ hs₂
  exact wp_mono (hb s₂ hs₂) (hout N) (hout R) id

/-- A local copy of the flag, saved at the top and restored at the bottom with no `return` in
between, gives the flag back. -/
theorem spec_saveRestore {I : Ctx → Prop} {body : Saved → Block Cpu} (hb : ∀ f, Spec True False H I g (body f))
    (hP : ∀ c, P c → I { c with irq := false }) :
    Spec True R H P (restoreFlag g) (bind saveAndDisable fun f => Block.seq (body f) (act (restoreInterrupts f))) := by
  intro s hs
  rw [wp_bind, wp_seq]
  exact wp_mono (hb _ _ (hP _ hs)) (fun _ h => ⟨trivial, h.2.save_restore⟩) (fun _ h => h.1.elim) id

end Rules

/-! ### The guards -/

section Guards

variable {N R H : Prop} {P I : Ctx → Prop} {hook : Block Cpu}

@[simp] theorem blockingAllowed_eq_true (c : Ctx) :
    blockingAllowed c = true ↔ c.preemptDepth = 0 ∧ c.interruptDepth = 0 ∧ c.faultDepth = 0 := by
  simp [blockingAllowed, deferredPreemptionEligible, and_assoc]

@[simp] theorem noLocksHeld_eq_true (c : Ctx) : noLocksHeld c = true ↔ c.schedLock = false ∧ c.queueLock = false := by
  simp [noLocksHeld]

theorem spec_irqOff {g : Ctx → Ctx} {body : Block Cpu} (hb : Spec N R H I g body)
    (hP : ∀ c, P c → I { c with irq := false }) : Spec N R H P (restoreFlag g) (irqOff body) :=
  spec_flagScope spec_skip hb (spec_skip (P := Any)) hP (fun _ h => h) fun _ _ => trivial

theorem spec_preemptDisable : Spec True R H P (fun c => { c with preemptDepth := c.preemptDepth + 1 }) preemptDisable :=
  (spec_irqOff (R := False) (I := Any) (spec_onCtx _) fun _ _ => trivial).call.congr fun c _ => by cases c; rfl

theorem spec_serviceDeferredPreemption (hh : Restores H hook) :
    Spec True R H P id (serviceDeferredPreemption hook) :=
  (spec_cond (R := True) _ spec_ret ((spec_setPending false).seq_id hh.call fun _ _ => trivial)).call

theorem spec_preemptEnable (hh : Restores H hook) (hp : ∀ c, P c → c.preemptDepth = 0 → H) :
    Spec True R H P (fun c => { c with preemptDepth := c.preemptDepth - 1 }) (preemptEnable hook) := by
  have hdec : Spec True False H P (restoreFlag fun c => { c with preemptDepth := c.preemptDepth - 1 })
      (irqOff (Block.seq (check fun s => s.ctx.preemptDepth != 0)
        (onCtx fun c => { c with preemptDepth := c.preemptDepth - 1 }))) :=
    spec_irqOff (Spec.check_then (P := fun x => x.preemptDepth = 0 → H) (fun x => x.preemptDepth != 0)
      (spec_onCtx _) fun x hx h => hx (by simpa using h)) fun c hc h => hp c hc h
  have hservice : Spec True False H Any (restoreFlag id) (irqOff (serviceDeferredPreemption hook)) :=
    spec_irqOff (I := Any) (spec_serviceDeferredPreemption hh) fun _ _ => trivial
  refine (Spec.seq hdec hservice fun _ _ => trivial).call.congr fun c _ => ?_
  cases c
  rfl

/-- The context a `critical_irq_section` body starts in. -/
def entered (c : Ctx) : Ctx :=
  { c with irq := false, irqDepth := c.irqDepth + 1, preemptDepth := c.preemptDepth + 1 }

/-- The constructor of a `critical_irq_section`, after its save. -/
theorem spec_sectionEnter :
    Spec True False H P (fun c => { c with irqDepth := c.irqDepth + 1, preemptDepth := c.preemptDepth + 1 })
      (Block.seq (onCtx fun c => { c with irqDepth := c.irqDepth + 1 }) preemptDisable) :=
  (Spec.seq (spec_onCtx _) (spec_preemptDisable (P := Any)) fun _ _ => trivial).congr fun _ _ => rfl

/-- The destructor of a `critical_irq_section`, before its restore, run where both depths it
lowers are nonzero. -/
theorem spec_sectionExit (hh : Restores H hook) :
    Spec True False H (fun c => c.irqDepth ≠ 0 ∧ c.preemptDepth ≠ 0)
      (fun c => { c with irqDepth := c.irqDepth - 1, preemptDepth := c.preemptDepth - 1 })
      (Block.seq (check fun s => s.ctx.irqDepth != 0)
        (Block.seq (onCtx fun c => { c with irqDepth := c.irqDepth - 1 }) (preemptEnable hook))) := by
  refine Spec.check_then (fun x => x.irqDepth != 0) ((Spec.seq (spec_onCtx _)
    (spec_preemptEnable (P := fun x => x.preemptDepth ≠ 0) hh fun _ h h' => (h h').elim) ?_).congr
    fun _ _ => rfl) ?_
  · rintro c ⟨⟨-, hp⟩, -⟩
    exact hp
  · rintro c ⟨hi, -⟩ h
    simp [hi] at h

/-- The section gives its caller the context back and passes on how its body leaves: both depths
it raised are nonzero when the destructor checks them. -/
theorem spec_criticalIrqSection {body : Block Cpu} (hh : Restores H hook) (hb : Spec N R H I id body)
    (hP : ∀ c, P c → I (entered c)) : Spec N R H P id (criticalIrqSection hook body) := by
  have hbody : Spec N R H (fun x => I x ∧ x.irqDepth ≠ 0 ∧ x.preemptDepth ≠ 0) id body :=
    hb.weaken fun _ h => h.1
  refine (spec_flagScope (spec_sectionEnter (P := fun x => ∃ c, P c ∧ x = { c with irq := false })) hbody
    (spec_sectionExit hh) (fun c hc => ⟨c, hc, rfl⟩) ?_ fun _ h => h.2).congr fun c _ => ?_
  · rintro _ ⟨c, hc, rfl⟩
    exact ⟨hP c hc, Nat.succ_ne_zero _, Nat.succ_ne_zero _⟩
  · -- the depths go up by one in the constructor and down by one in the destructor
    cases c
    simp [restoreFlag]

theorem spec_lockGuard {body : Block Cpu} (l : Lock) (hb : Spec N R H I id body)
    (hP : ∀ c, P c → c.held l = false → I (c.setHeld true l)) (hl : ∀ c, P c → c.held l = true → H) :
    Spec N R H P id (lockGuard l body) := by
  refine Spec.check_then (fun x => !x.held l) ((Spec.seq (spec_onCtx _)
    (Spec.withCleanup hb (spec_onCtx (R := False) (P := Any) (·.setHeld false l)) fun _ _ => trivial) ?_).congr ?_)
    fun x hx h => hl x hx (by simpa using h)
  · rintro c ⟨hc, hfree⟩
    exact hP c hc (by simpa using hfree)
  · -- a lock taken and let go leaves the context as it was
    rintro c ⟨-, hfree⟩
    cases l <;> cases c <;> simp_all [Ctx.setHeld, Ctx.held]

/-- A lock guard on a free lock runs its body with the lock held and lets it go on both ways out. -/
theorem wp_lockGuard_free {l : Lock} {body : Block Cpu} {Qn Qr : Cpu → Prop} {s : Cpu} (hl : s.ctx.held l = false) :
    wp (lockGuard l body) Qn Qr H s = wp body (fun s' => Qn { s' with ctx := s'.ctx.setHeld false l })
      (fun s' => Qr { s' with ctx := s'.ctx.setHeld false l }) H { s with ctx := s.ctx.setHeld true l } := by
  simp only [lockGuard, wp_seq, wp_check, hl, Bool.not_false, if_true, onCtx, wp_act, wp_withCleanup]
  rfl

theorem spec_schedGuard {body : Block Cpu} (hh : Restores H hook) (hb : Spec N R H I id body)
    (hP : ∀ c, P c → c.schedLock = false → I ((entered c).setHeld true .sched))
    (hl : ∀ c, P c → c.schedLock = true → H) : Spec N R H P id (schedGuard hook body) := by
  have hlock : Spec N R H (fun x => ∃ c, P c ∧ x = entered c) id (lockGuard .sched body) := by
    refine spec_lockGuard .sched hb ?_ ?_
    · rintro _ ⟨c, hc, rfl⟩ hfree
      exact hP c hc hfree
    · rintro _ ⟨c, hc, rfl⟩ hheld
      exact hl c hc hheld
  exact spec_criticalIrqSection hh hlock fun c hc => ⟨c, hc, rfl⟩

theorem spec_schedGuard_skip (hh : Restores H hook) (hl : ∀ c, P c → c.schedLock = true → H) :
    Spec True R H P id (schedGuard hook skip) :=
  spec_schedGuard (I := Any) hh spec_skip (fun _ _ _ => trivial) hl

/-- `switch_to` comes back masked. -/
theorem spec_switchTo (hh : Restores H hook) (hp : ∀ c, P c → c.preemptDepth ≠ 0 → H)
    (hl : ∀ c, P c → c.preemptDepth = 0 → c.schedLock = true → H) :
    Spec True R H P (fun c => { c with irq := false }) (switchTo hook) := by
  refine (Spec.check_then (R := False) (fun x => x.preemptDepth == 0) (Spec.seq (spec_schedGuard_skip hh ?_)
    (spec_onCtx (P := Any) _) fun _ _ => trivial) fun c hc h => hp c hc (by simpa using h)).call
  rintro c ⟨hc, hzero⟩ hheld
  exact hl c hc (by simpa using hzero) hheld

/-- `schedule_out` comes back masked, from a context where scheduling is allowed. -/
theorem spec_scheduleOut (hh : Restores H hook) (hb : ∀ c, P c → blockingAllowed c = false → H)
    (hn : ∀ c, P c → noLocksHeld c = false → H) :
    Spec True R H P (fun c => { c with irq := false }) (scheduleOut hook) := by
  have hfree : ∀ c, (P c ∧ blockingAllowed c = true) ∧ noLocksHeld c = true →
      c.preemptDepth = 0 ∧ c.schedLock = false := by
    rintro c ⟨⟨-, hba⟩, hnl⟩
    simp only [blockingAllowed_eq_true, noLocksHeld_eq_true] at hba hnl
    exact ⟨hba.1, hnl.1⟩
  refine (Spec.check_then (R := False) _ (Spec.check_then _ (Spec.seq (spec_schedGuard_skip hh ?_)
    (spec_switchTo (P := fun c => (P c ∧ blockingAllowed c = true) ∧ noLocksHeld c = true) hh ?_ ?_)
    fun _ h => h) fun c hc => hn c hc.1) hb).call
  · intro c hc hheld
    simp [(hfree c hc).2] at hheld
  · intro c hc hne
    exact absurd (hfree c hc).1 hne
  · intro c hc _ hheld
    simp [(hfree c hc).2] at hheld

end Guards

end Archipelago.Sched
