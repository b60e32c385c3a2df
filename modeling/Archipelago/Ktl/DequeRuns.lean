import Archipelago.Ktl.DequeSpec
import Archipelago.Lib.Run

/-! Runs of `ktl::deque` calls. Along any history of `push_back`, `pop_front` and
`pop_back` a deque is a list pushed at the back and popped at either end: no value is lost,
duplicated or reordered. `reserve(n)` returns true only once it provisioned all its blocks,
and blocks are never given back, so after a `reserve(n)` that returned true no push made while
the deque holds at most `n` values allocates, whatever pushes and pops came before: the promise
the scheduler's interrupt-context pushes rest on. -/

namespace Archipelago.Ktl

open Archipelago.Lib

/-- A call on a deque. -/
inductive DequeOp (α : Type)
  | pushBack (x : α)
  | popFront
  | popBack
  deriving DecidableEq, Repr

/-- What a call returned: whether a push allocated, or what a pop took. -/
inductive DequeOutcome (α : Type)
  | pushed (allocated : Bool)
  | popped (value : Option α)
  deriving DecidableEq, Repr

/-- The value a call hands back; a push hands back none. -/
def DequeOutcome.value {α : Type} : DequeOutcome α → Option α
  | .pushed _ => none
  | .popped v => v

/-- The list deque `ktl::deque` implements. -/
def listStep {α : Type} (l : List α) : DequeOp α → List α × Option α
  | .pushBack x => (l ++ [x], none)
  | .popFront => (l.tail, l.head?)
  | .popBack => (l.dropLast, l.getLast?)

namespace Deque

variable {α : Type}

/-- One call. -/
def step (d : Deque α) : DequeOp α → Deque α × DequeOutcome α
  | .pushBack x => ((d.pushBack x).1, .pushed (d.pushBack x).2)
  | .popFront => (d.popFront.1, .popped d.popFront.2)
  | .popBack => (d.popBack.1, .popped d.popBack.2)

def after (d : Deque α) (ops : List (DequeOp α)) : Deque α := (run step d ops).1

variable {d : Deque α}

/-- One call keeps the layout, does to `toList` what the list deque does, returns what it
returns, and keeps every block. -/
theorem Wf.step_refines (hw : d.Wf) (op : DequeOp α) :
    (d.step op).1.Wf ∧ (d.step op).1.toList = (listStep d.toList op).1 ∧
      (d.step op).2.value = (listStep d.toList op).2 ∧ d.blocks.length ≤ (d.step op).1.blocks.length := by
  cases op with
  | pushBack x =>
    obtain ⟨hw', hl, hlen⟩ := hw.pushBack x
    exact ⟨hw', hl, rfl, hlen⟩
  | popFront =>
    obtain ⟨hw', hl, hv, hlen⟩ := hw.popFront
    exact ⟨hw', hl, hv, Nat.le_of_eq hlen.symm⟩
  | popBack =>
    obtain ⟨hw', hl, hv, hlen⟩ := hw.popBack
    exact ⟨hw', hl, hv, Nat.le_of_eq hlen.symm⟩

/-- A run keeps the layout and every block. -/
theorem Wf.after (hw : d.Wf) (ops : List (DequeOp α)) :
    (d.after ops).Wf ∧ d.blocks.length ≤ (d.after ops).blocks.length :=
  run_invariant (fun s : Deque α => s.Wf ∧ d.blocks.length ≤ s.blocks.length)
    (fun _ op h => ⟨(h.1.step_refines op).1, Nat.le_trans h.2 (h.1.step_refines op).2.2.2⟩)
    ⟨hw, Nat.le_refl _⟩ ops

/-- A run refines the list deque: the same values in the same order, and the same values
popped. -/
theorem Wf.run_refines (hw : d.Wf) (ops : List (DequeOp α)) :
    (d.after ops).toList = (run listStep d.toList ops).1 ∧
      (run Deque.step d ops).2.map DequeOutcome.value = (run listStep d.toList ops).2 :=
  run_simulation Wf toList DequeOutcome.value (fun _ op h => (h.step_refines op).1)
    (fun _ op h => ⟨(h.step_refines op).2.1, (h.step_refines op).2.2.1⟩) hw ops

/-! ### Bursts after a successful `reserve` -/

/-- Whether `reserve(n)` can return true. `m_blocks.reserve(required_blocks)` succeeds only
for a count the vector already has room for or one `vector::reallocate` accepts, and
`reallocate` refuses a count past `SIZE_MAX / sizeof(block)`, which also bounds every
capacity a vector ever has. -/
def reserveCanSucceed (n : Nat) : Bool := requiredBlocks n ≤ sizeMax / blockBytes

/-- A reservation that can succeed is below `reserve`'s clamp. -/
theorem clampCapacity_of_reserveCanSucceed {n : Nat} (h : reserveCanSucceed n = true) :
    clampCapacity n = n := by
  simp only [reserveCanSucceed, decide_eq_true_eq] at h
  simp only [requiredBlocks, clampCapacity, blockBytes, sizeMax, blockCapacity] at h ⊢
  omega

/-- `append_empty_block_back`'s loop returns true only once it appended every block. -/
theorem appendBlocks_true {blockOk : Nat → Bool} :
    ∀ {count : Nat} {bs : List (Block α)}, (appendBlocks blockOk count bs).2 = true →
      (appendBlocks blockOk count bs).1 = bs ++ List.replicate count Block.fresh
  | 0, bs, _ => by simp [appendBlocks]
  | count + 1, bs, h => by
    unfold appendBlocks at h ⊢
    split_ifs at h ⊢ with hok
    rw [appendBlocks_true h, List.append_assoc, List.singleton_append, List.replicate_succ]

/-- `reserve(n)` returns true only for a count its vector can hold, and then it has
provisioned every block, as `reserve` does when every allocation succeeds. -/
theorem tryReserve_true {n : Nat} {vectorOk : Bool} {blockOk : Nat → Bool}
    (h : (d.tryReserve n vectorOk blockOk).2 = true) :
    reserveCanSucceed n = true ∧ (d.tryReserve n vectorOk blockOk).1 = d.reserve n := by
  unfold tryReserve at h ⊢
  split_ifs at h ⊢ with hbig hv
  dsimp only at h ⊢
  refine ⟨by simpa [reserveCanSucceed] using hbig, ?_⟩
  rw [appendBlocks_true h]
  rfl

/-- A `reserve(n)` on a default-constructed deque that returned true: `n` was a count its
vector can hold and every block `reserve` wants is there; every later history of pushes and
pops behaves as the list deque, and a push made while the deque holds at most `n` values never
allocates. -/
theorem reserve_promise {n : Nat} {vectorOk : Bool} {blockOk : Nat → Bool}
    (hok : ((empty : Deque α).tryReserve n vectorOk blockOk).2 = true) (ops : List (DequeOp α)) (x : α) :
    reserveCanSucceed n = true ∧ ((empty : Deque α).tryReserve n vectorOk blockOk).1.blocks.length = requiredBlocks n ∧
    ((empty.tryReserve n vectorOk blockOk).1.after ops).toList = (run listStep [] ops).1 ∧
      (run Deque.step (empty.tryReserve n vectorOk blockOk).1 ops).2.map DequeOutcome.value =
        (run listStep [] ops).2 ∧
      (((empty.tryReserve n vectorOk blockOk).1.after ops).size ≤ n →
        (((empty.tryReserve n vectorOk blockOk).1.after ops).pushBack x).2 = false) := by
  obtain ⟨hcan, hres⟩ := tryReserve_true hok
  rw [hres]
  obtain ⟨hw, hnil, hlen⟩ := (wf_empty (α := α)).reserve n
  have hnil' : (empty.reserve n : Deque α).toList = [] := hnil
  obtain ⟨hwa, hblocks⟩ := hw.after ops
  obtain ⟨hl, ho⟩ := hw.run_refines ops
  rw [hnil'] at hl ho
  -- the empty deque has no block, so `reserve` appends exactly the blocks it wants
  have hreq : (empty.reserve n : Deque α).blocks.length = requiredBlocks n := by
    rw [hlen]
    exact Nat.zero_max _
  refine ⟨hcan, hreq, hl, ho, fun hs => hwa.pushBack_within_reserve (n := n) ?_ ?_ x⟩
  · exact Nat.le_trans (Nat.le_of_eq hreq.symm) hblocks
  · rw [clampCapacity_of_reserveCanSucceed hcan]
    exact hs

/-- `reserve(16)` on an empty deque with every allocation succeeding returns true. -/
theorem reserve_sixteen_true :
    ((empty : Deque Nat).tryReserve 16 true fun _ => true).2 = true ∧
      ∀ (ops : List (DequeOp Nat)) (x : Nat),
        reserveCanSucceed 16 = true ∧
        ((empty : Deque Nat).tryReserve 16 true fun _ => true).1.blocks.length = requiredBlocks 16 ∧
        ((empty.tryReserve 16 true fun _ => true).1.after ops).toList = (run listStep [] ops).1 ∧
        (run Deque.step (empty.tryReserve 16 true fun _ => true).1 ops).2.map DequeOutcome.value =
          (run listStep [] ops).2 ∧
        (((empty.tryReserve 16 true fun _ => true).1.after ops).size ≤ 16 →
          (((empty.tryReserve 16 true fun _ => true).1.after ops).pushBack x).2 = false) :=
  ⟨by decide, fun ops x => reserve_promise (by decide) ops x⟩

/-- A push that does not allocate appends no block. -/
theorem pushBack_blocks_length {x : α} (h : (d.pushBack x).2 = false) :
    (d.pushBack x).1.blocks.length = d.blocks.length := by
  simp only [pushBack, Bool.or_eq_false_iff] at h ⊢
  simp [h.1]

/-- One call on a deque holding at most `n` values with the blocks `reserve(n)` provisions:
the layout and the block count are kept and a push does not allocate. -/
theorem Wf.step_within_reserve (hw : d.Wf) {n : Nat} (hok : reserveCanSucceed n = true)
    (hb : requiredBlocks n ≤ d.blocks.length) (hs : d.size ≤ n) (op : DequeOp α) :
    (d.step op).1.Wf ∧ (d.step op).1.blocks.length = d.blocks.length ∧
      (d.step op).2 ≠ .pushed true := by
  cases op with
  | pushBack x =>
    have hflag : (d.pushBack x).2 = false :=
      hw.pushBack_within_reserve hb ((clampCapacity_of_reserveCanSucceed hok).symm ▸ hs) x
    refine ⟨(hw.pushBack x).1, pushBack_blocks_length hflag, ?_⟩
    simp [step, hflag]
  | popFront =>
    obtain ⟨hw', -, -, hlen⟩ := hw.popFront
    exact ⟨hw', hlen, by simp [step]⟩
  | popBack =>
    obtain ⟨hw', -, -, hlen⟩ := hw.popBack
    exact ⟨hw', hlen, by simp [step]⟩

/-- After `reserve(n)` returns true on any deque, every history of pushes and pops that keeps
it within `n` values leaves its blocks in place: no push allocates, no block is appended
and `capacity()` keeps the value `reserve` left. -/
theorem reserve_bursts_never_allocate (hw : d.Wf) {n : Nat} (hok : reserveCanSucceed n = true)
    (hs : d.size ≤ n) (ops : List (DequeOp α))
    (hops : Guarded step (fun s op => (s.step op).1.size ≤ n) (d.reserve n) ops) :
    DequeOutcome.pushed true ∉ (run step (d.reserve n) ops).2 ∧
      ((d.reserve n).after ops).blocks.length = (d.reserve n).blocks.length ∧
      ((d.reserve n).after ops).capacity = (d.reserve n).capacity := by
  obtain ⟨hw', -, hlen⟩ := hw.reserve n
  have hb : requiredBlocks n ≤ (d.reserve n).blocks.length := hlen ▸ Nat.le_max_right _ _
  -- the invariant: the layout, the block count right after `reserve`, and the size bound
  let P : Deque α → Prop := fun s => s.Wf ∧ s.blocks.length = (d.reserve n).blocks.length ∧ s.size ≤ n
  have hP : ∀ s op, (s.step op).1.size ≤ n → P s → P (s.step op).1 := by
    rintro s op hsize ⟨hws, hL, hsn⟩
    obtain ⟨hw₁, hL₁, -⟩ := hws.step_within_reserve hok (hL ▸ hb) hsn op
    exact ⟨hw₁, hL₁.trans hL, hsize⟩
  have hout : ∀ s op, (s.step op).1.size ≤ n → P s → (s.step op).2 ≠ .pushed true := by
    rintro s op - ⟨hws, hL, hsn⟩
    exact (hws.step_within_reserve hok (hL ▸ hb) hsn op).2.2
  have h₀ : P (d.reserve n) := ⟨hw', rfl, hs⟩
  obtain ⟨hwf, hL, -⟩ := run_invariant_guarded _ P hP h₀ ops hops
  refine ⟨fun hmem => run_outputs_guarded _ P (· ≠ .pushed true) hP hout h₀ ops hops _ hmem rfl, hL, ?_⟩
  rw [after, hwf.capacity_eq, hw'.capacity_eq, hL]

/-- `reserve(16)` on an empty deque, then a push and a pop. -/
theorem reserve_sixteen_push_pop :
    (empty : Deque Nat).Wf ∧ reserveCanSucceed 16 = true ∧ (empty : Deque Nat).size ≤ 16 ∧
      Guarded step (fun s op => (s.step op).1.size ≤ 16) (empty.reserve 16)
        [.pushBack 1, .popFront] ∧
      (DequeOutcome.pushed true ∉ (run step (empty.reserve 16) [.pushBack 1, .popFront]).2 ∧
        ((empty.reserve 16).after [.pushBack 1, .popFront]).blocks.length =
          (empty.reserve 16 : Deque Nat).blocks.length ∧
        ((empty.reserve 16).after [.pushBack 1, .popFront]).capacity =
          (empty.reserve 16 : Deque Nat).capacity) :=
  have hg : Guarded step (fun s op => (s.step op).1.size ≤ 16) (empty.reserve 16 : Deque Nat)
      [.pushBack 1, .popFront] := ⟨by decide, by decide, trivial⟩
  ⟨wf_empty, by decide, by decide, hg,
    reserve_bursts_never_allocate wf_empty (by decide) (by decide) _ hg⟩

end Deque

/-! ### Every call -/

/-- A call on a deque: one of the calls above, `back()`, `clear()` or `reserve(n)`. -/
inductive DequeCall (α : Type)
  | op (o : DequeOp α)
  | back
  | clear
  | reserve (n : Nat)
  deriving DecidableEq, Repr

/-- The list deque with every call: `back` reads the last value, `clear` empties the list
and `reserve` leaves it as it is. -/
def listCall {α : Type} (l : List α) : DequeCall α → List α × Option α
  | .op o => listStep l o
  | .back => (l, l.getLast?)
  | .clear => ([], none)
  | .reserve _ => (l, none)

namespace Deque

variable {α : Type}

/-- One call and the value it hands back. Every allocation succeeds: a push, and each block
`reserve` appends. -/
def call (d : Deque α) : DequeCall α → Deque α × Option α
  | .op o => ((d.step o).1, (d.step o).2.value)
  | .back => (d, d.back)
  | .clear => (d.clear, none)
  | .reserve n => (d.reserve n, none)

variable {d : Deque α}

/-- One call keeps the layout, does to `toList` what the list deque does and hands back
what it hands back. -/
theorem Wf.call_refines (hw : d.Wf) (c : DequeCall α) :
    (d.call c).1.Wf ∧ (d.call c).1.toList = (listCall d.toList c).1 ∧
      (d.call c).2 = (listCall d.toList c).2 := by
  cases c with
  | op o =>
    obtain ⟨hw', hl, hv, -⟩ := hw.step_refines o
    exact ⟨hw', hl, hv⟩
  | back => exact ⟨hw, rfl, hw.back⟩
  | clear => exact ⟨(wf_clear d).1, (wf_clear d).2, rfl⟩
  | reserve n =>
    obtain ⟨hw', hl, -⟩ := hw.reserve n
    exact ⟨hw', hl, rfl⟩

/-- Along every history of calls a deque with the layout keeps it and is the list deque:
the same values in the same order, `m_size` their count, and the same values handed back. -/
theorem Wf.calls_refine (hw : d.Wf) (cs : List (DequeCall α)) :
    (run call d cs).1.Wf ∧ (run call d cs).1.toList = (run listCall d.toList cs).1 ∧
      (run call d cs).1.size = (run listCall d.toList cs).1.length ∧
      (run call d cs).2 = (run listCall d.toList cs).2 := by
  have hwf := run_invariant Wf (fun _ c h => (h.call_refines c).1) hw cs
  obtain ⟨hl, ho⟩ := run_simulation Wf toList id (fun _ c h => (h.call_refines c).1)
    (fun _ c h => ⟨(h.call_refines c).2.1, (h.call_refines c).2.2⟩) hw cs
  rw [List.map_id] at ho
  exact ⟨hwf, hl, by rw [hwf.size_eq, hl], ho⟩

/-- A default-constructed deque, through any history of `push_back`, `pop_front`, `pop_back`,
`back`, `clear` and `reserve` in which no allocation fails, is the list deque started
empty, with the layout kept throughout. -/
theorem deque_refines_list (cs : List (DequeCall α)) :
    (run call empty cs).1.Wf ∧ (run call empty cs).1.toList = (run listCall [] cs).1 ∧
      (run call empty cs).1.size = (run listCall [] cs).1.length ∧
      (run call empty cs).2 = (run listCall [] cs).2 :=
  wf_empty.calls_refine cs

example : (run call (empty : Deque Nat)
    [.op (.pushBack 1), .op (.pushBack 2), .back, .op .popFront, .clear, .op .popBack]).2 =
      [none, none, some 2, some 1, none, none] := by decide

end Deque

end Archipelago.Ktl
