import Mathlib.Order.Basic
import Archipelago.Lib.CInt

/-! `kernel::time`'s conversion of a timeout to ticks (`core/time.cpp`) and the deadline the
bounded waits compute from it: `sys_object_wait` (`syscalls/object.cpp`) and `sys_port_wait`
(`syscalls/port.cpp`) share the same two lines. `_ns_per_tick` is a `time_ns_t`, an `int64_t`
read as a `uint64_t`; the tick count `now()` and the timeout are `uint64_t`.

Away from the top of the range the deadline is `now` plus the timeout rounded up to ticks,
saturated at `UINT64_MAX`. Within one period of `2^64` the rounding sum `ns + per - 1` wraps,
the ticks come out 0 and the deadline is `now`: a huge timeout expires at once. -/

namespace Archipelago.Core.Time

open Archipelago.Lib

def UINT64_MAX : Nat := 0xFFFFFFFFFFFFFFFF

/-- `ns_to_ticks_ceil`: `(ns + per - 1) / per` in `uint64_t`; with no period configured the
nanoseconds pass through as ticks. -/
def nsToTicksCeil (nsPerTick : Int) (ns : Nat) : Nat :=
  let per := uint64OfInt64 nsPerTick
  if per = 0 then ns else (ns + per - 1) % 0x10000000000000000 / per

/-- The deadline of a bounded wait with a nonzero timeout: `now + ticks`, saturated at
`UINT64_MAX` when the `uint64_t` sum wraps. -/
def waitDeadline (nsPerTick : Int) (now timeoutNs : Nat) : Nat :=
  let ticks := nsToTicksCeil nsPerTick timeoutNs
  if (now + ticks) % 0x10000000000000000 < now then UINT64_MAX else (now + ticks) % 0x10000000000000000

section Ticks

variable {nsPerTick : Int} {ns : Nat}

theorem nsToTicksCeil_lt (hns : ns < 0x10000000000000000) : nsToTicksCeil nsPerTick ns < 0x10000000000000000 := by
  unfold nsToTicksCeil
  dsimp only
  split_ifs
  · exact hns
  · exact Nat.lt_of_le_of_lt (Nat.div_le_self _ _) (Nat.mod_lt _ (by decide : 0 < 0x10000000000000000))

/-- Without a wrap of the rounding sum the ticks are the timeout rounded up to whole periods. -/
theorem nsToTicksCeil_of_lt (hper : uint64OfInt64 nsPerTick ≠ 0)
    (hsum : ns + uint64OfInt64 nsPerTick - 1 < 0x10000000000000000) :
    nsToTicksCeil nsPerTick ns = (ns + uint64OfInt64 nsPerTick - 1) / uint64OfInt64 nsPerTick := by
  unfold nsToTicksCeil
  dsimp only
  rw [if_neg hper, Nat.mod_eq_of_lt hsum]

/-- With a wrap the ticks are 0: what is left of the sum is below one period. -/
theorem nsToTicksCeil_of_wrap (hper : uint64OfInt64 nsPerTick ≠ 0) (hns : ns < 0x10000000000000000)
    (hsum : 0x10000000000000000 ≤ ns + uint64OfInt64 nsPerTick - 1) : nsToTicksCeil nsPerTick ns = 0 := by
  unfold nsToTicksCeil
  dsimp only
  rw [if_neg hper]
  have hrest : (ns + uint64OfInt64 nsPerTick - 1) % 0x10000000000000000 < uint64OfInt64 nsPerTick := by
    have := uint64OfInt64_lt nsPerTick
    omega
  exact Nat.div_eq_of_lt hrest

end Ticks

/-- The saturating sum is the true sum capped at `UINT64_MAX`. -/
theorem waitDeadline_eq {nsPerTick : Int} {now ns : Nat} (hnow : now < 0x10000000000000000)
    (hns : ns < 0x10000000000000000) :
    waitDeadline nsPerTick now ns = min UINT64_MAX (now + nsToTicksCeil nsPerTick ns) := by
  have := @nsToTicksCeil_lt nsPerTick ns hns
  unfold waitDeadline UINT64_MAX
  dsimp only
  split_ifs <;> omega

/-- Away from the top of the range a bounded wait never expires early: the ticks are the
timeout rounded up to whole periods, at least one and covering the whole timeout, and the
deadline is `now` plus them, capped at `UINT64_MAX`. -/
theorem wait_deadline_rounds_up {nsPerTick : Int} (hper : 1 ≤ uint64OfInt64 nsPerTick) {now ns : Nat}
    (hnow : now < 0x10000000000000000) (hns : 1 ≤ ns)
    (hsum : ns + uint64OfInt64 nsPerTick - 1 < 0x10000000000000000) :
    nsToTicksCeil nsPerTick ns = (ns + uint64OfInt64 nsPerTick - 1) / uint64OfInt64 nsPerTick ∧
      1 ≤ nsToTicksCeil nsPerTick ns ∧ ns ≤ nsToTicksCeil nsPerTick ns * uint64OfInt64 nsPerTick ∧
      waitDeadline nsPerTick now ns = min UINT64_MAX (now + nsToTicksCeil nsPerTick ns) := by
  have hticks := nsToTicksCeil_of_lt (by omega) hsum
  -- the quotient of the rounding sum is the least multiple of the period at or above `ns`
  have hone : 1 ≤ (ns + uint64OfInt64 nsPerTick - 1) / uint64OfInt64 nsPerTick :=
    (Nat.le_div_iff_mul_le (by omega)).2 (by omega)
  have hcover := Nat.lt_div_mul_add (a := ns + uint64OfInt64 nsPerTick - 1) (Nat.lt_of_lt_of_le Nat.zero_lt_one hper)
  refine ⟨hticks, hticks ▸ hone, ?_, waitDeadline_eq hnow (by omega)⟩
  rw [hticks]
  omega

/-- A one-nanosecond timeout on the x86 PC's one-millisecond tick waits one tick. -/
theorem wait_deadline_rounds_up_pc :
    nsToTicksCeil 1000000 1 = (1 + uint64OfInt64 1000000 - 1) / uint64OfInt64 1000000 ∧
      1 ≤ nsToTicksCeil 1000000 1 ∧ 1 ≤ nsToTicksCeil 1000000 1 * uint64OfInt64 1000000 ∧
      waitDeadline 1000000 5 1 = min UINT64_MAX (5 + nsToTicksCeil 1000000 1) :=
  wait_deadline_rounds_up (by decide) (by decide) (by decide) (by decide)

/-- A timeout within one period of `2^64`, with a period of two nanoseconds or more: the
ticks wrap to 0 and the deadline is the current tick, so `wait_signals_deadline` returns at
once, where the timeout rounded up would put the deadline at least one tick ahead. -/
theorem huge_timeout_expires_at_once {nsPerTick : Int} (hper : 2 ≤ uint64OfInt64 nsPerTick) {now ns : Nat}
    (hnow : now < UINT64_MAX) (hns : ns < 0x10000000000000000)
    (hbig : 0x10000000000000000 ≤ ns + uint64OfInt64 nsPerTick - 1) :
    nsToTicksCeil nsPerTick ns = 0 ∧ waitDeadline nsPerTick now ns = now ∧
      now < min UINT64_MAX (now + (ns + uint64OfInt64 nsPerTick - 1) / uint64OfInt64 nsPerTick) := by
  have hzero := nsToTicksCeil_of_wrap (by omega) hns hbig
  have hnow' : now < 0x10000000000000000 := by unfold UINT64_MAX at hnow; omega
  -- the true rounded-up quotient is at least one period's worth
  have hone : 1 ≤ (ns + uint64OfInt64 nsPerTick - 1) / uint64OfInt64 nsPerTick :=
    (Nat.le_div_iff_mul_le (by omega)).2 (by have := uint64OfInt64_lt nsPerTick; omega)
  refine ⟨hzero, ?_, ?_⟩
  · rw [waitDeadline_eq hnow' hns, hzero]
    unfold UINT64_MAX at *
    omega
  · unfold UINT64_MAX at *
    omega

/-- The x86 PC's one-millisecond tick and the largest timeout, from tick 0. -/
theorem huge_timeout_expires_at_once_pc :
    nsToTicksCeil 1000000 0xFFFFFFFFFFFFFFFF = 0 ∧ waitDeadline 1000000 0 0xFFFFFFFFFFFFFFFF = 0 ∧
      0 < min UINT64_MAX (0 + (0xFFFFFFFFFFFFFFFF + uint64OfInt64 1000000 - 1) / uint64OfInt64 1000000) :=
  huge_timeout_expires_at_once (by decide) (by decide) (by decide) (by decide)

end Archipelago.Core.Time
