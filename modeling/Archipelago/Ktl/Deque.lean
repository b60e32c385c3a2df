import Mathlib.Data.List.Basic
import Mathlib.Algebra.BigOperators.Group.List.Basic

/-! `ktl::deque` (`includes/ktl/deque`): a vector of blocks, each a vector of at most
`k_block_capacity` values and a `head` count of consumed slots. `push_back` fills the last
non-empty block, then the provisioned empty block behind it, and appends a fresh block only
when there is neither; `pop_front` consumes the front slot and rotates a drained front
block to the back; `reserve(n)` provisions `⌈n / 16⌉ + 1` blocks. A vector keeps its storage
across `clear()`, so each block's capacity is kept, and `capacity()` sums them.

`push_back`'s allocations are assumed to succeed, and it reports whether it went to the heap.
`tryReserve` is `reserve` with its refusals: a block count its vector cannot hold, and
allocations that fail; `reserve` is the call when every allocation succeeds. -/

namespace Archipelago.Ktl

/-- `k_block_capacity`. -/
def blockCapacity : Nat := 16

/-- `SIZE_MAX`. -/
def sizeMax : Nat := 2 ^ 64 - 1

/-- `deque::block`: its vector (values and storage capacity) and `head`. -/
structure Block (α : Type) where
  values : List α
  cap : Nat
  head : Nat
  deriving DecidableEq, Repr

namespace Block

variable {α : Type}

/-- A default-constructed block, without storage. -/
instance : Inhabited (Block α) := ⟨⟨[], 0, 0⟩⟩

/-- The block `append_empty_block_back` makes: storage for `k_block_capacity` values. -/
def fresh : Block α := ⟨[], blockCapacity, 0⟩

def size (b : Block α) : Nat := b.values.length - b.head

def empty (b : Block α) : Bool := b.size == 0

/-- `reset()`: `values.clear()` keeps the storage. -/
def reset (b : Block α) : Block α := { b with values := [], head := 0 }

/-- The values not yet consumed. -/
def live (b : Block α) : List α := b.values.drop b.head

/-- `values.push_back(x)`. The vector grows only when full, to `k_initial_capacity = 4`
or to twice its capacity (one doubling always fits one more value). -/
def push (b : Block α) (x : α) : Block α :=
  { b with
    values := b.values ++ [x]
    cap := if b.values.length < b.cap then b.cap else if b.cap = 0 then 4 else 2 * b.cap }

/-- Whether `values.push_back` reallocates. -/
def pushAllocates (b : Block α) : Bool := !decide (b.values.length < b.cap)

@[simp] theorem empty_eq_true {b : Block α} : b.empty = true ↔ b.values.length ≤ b.head := by
  simp only [empty, size, beq_iff_eq]
  omega

@[simp] theorem empty_eq_false {b : Block α} : b.empty = false ↔ b.head < b.values.length := by
  simp only [empty, size, beq_eq_false_iff_ne, ne_eq]
  omega

@[simp] theorem values_reset (b : Block α) : b.reset.values = [] := rfl
@[simp] theorem head_reset (b : Block α) : b.reset.head = 0 := rfl
@[simp] theorem cap_reset (b : Block α) : b.reset.cap = b.cap := rfl
@[simp] theorem values_push (b : Block α) (x : α) : (b.push x).values = b.values ++ [x] := rfl
@[simp] theorem head_push (b : Block α) (x : α) : (b.push x).head = b.head := rfl

theorem cap_push_of_lt {b : Block α} (h : b.values.length < b.cap) (x : α) : (b.push x).cap = b.cap := by
  simp [push, h]

theorem length_live (b : Block α) : b.live.length = b.size := by simp [live, size]

theorem live_push {b : Block α} (h : b.head ≤ b.values.length) (x : α) :
    (b.push x).live = b.live ++ [x] := by
  simp [live, List.drop_append_of_le_length h]

/-- A block holding values, within its storage. -/
structure Live (b : Block α) : Prop where
  head_lt : b.head < b.values.length
  length_le : b.values.length ≤ blockCapacity
  cap_eq : b.cap = blockCapacity

/-- A provisioned empty block, as `reset()` leaves one. -/
structure Spare (b : Block α) : Prop where
  values_eq : b.values = []
  head_eq : b.head = 0
  cap_eq : b.cap = blockCapacity

theorem spare_fresh : (fresh : Block α).Spare := ⟨rfl, rfl, rfl⟩

theorem Spare.reset {b : Block α} (h : b.cap = blockCapacity) : b.reset.Spare := ⟨rfl, rfl, h⟩

theorem Spare.live_eq {b : Block α} (h : b.Spare) : b.live = [] := by simp [live, h.values_eq]

theorem Spare.empty {b : Block α} (h : b.Spare) : b.empty = true := by simp [h.values_eq]

theorem Spare.push {b : Block α} (h : b.Spare) (x : α) : (b.push x).Live where
  head_lt := by simp [h.values_eq, h.head_eq]
  length_le := by simp [h.values_eq, blockCapacity]
  cap_eq := by rw [cap_push_of_lt (by simp [h.values_eq, h.cap_eq, blockCapacity]), h.cap_eq]

theorem Spare.push_live {b : Block α} (h : b.Spare) (x : α) : (b.push x).live = [x] := by
  simp [live, h.values_eq, h.head_eq]

theorem Spare.pushAllocates {b : Block α} (h : b.Spare) : b.pushAllocates = false := by
  simp [Block.pushAllocates, h.values_eq, h.cap_eq, blockCapacity]

theorem Live.not_empty {b : Block α} (h : b.Live) : b.empty = false := by
  have := h.head_lt
  rw [Bool.eq_false_iff, ne_eq, empty_eq_true]
  omega

/-- The last value of a block holding values is live. -/
theorem Live.getLast?_live {b : Block α} (h : b.Live) : b.live.getLast? = b.values.getLast? := by
  rw [live, List.getLast?_drop, if_neg (by have := h.head_lt; omega)]

theorem Live.exists_getLast? {b : Block α} (h : b.Live) : ∃ v, b.values.getLast? = some v :=
  Option.isSome_iff_exists.1 (List.getLast?_isSome.2 (List.ne_nil_of_length_pos
    (Nat.lt_of_le_of_lt (Nat.zero_le _) h.head_lt)))

theorem Live.push {b : Block α} (h : b.Live) (hlt : b.values.length < blockCapacity) (x : α) :
    (b.push x).Live where
  head_lt := by simp; have := h.head_lt; omega
  length_le := by simp; omega
  cap_eq := by rw [cap_push_of_lt (by rw [h.cap_eq]; exact hlt), h.cap_eq]

theorem Live.pushAllocates {b : Block α} (h : b.Live) (hlt : b.values.length < blockCapacity) :
    b.pushAllocates = false := by
  simp [Block.pushAllocates, h.cap_eq, hlt]

end Block

/-- `deque`: its blocks and `m_size`. -/
structure Deque (α : Type) where
  blocks : List (Block α)
  size : Nat
  deriving DecidableEq, Repr

namespace Deque

variable {α : Type}

/-- A default-constructed deque. -/
def empty : Deque α := ⟨[], 0⟩

/-- The values front first. -/
def toList (d : Deque α) : List α := d.blocks.flatMap Block.live

/-- `capacity()`: the storage of all blocks, in values. -/
def capacity (d : Deque α) : Nat := d.blocks.foldl (fun total b => total + b.cap) 0

/-- `first_non_empty_block_index`. -/
def firstNonEmptyBlockIndex (bs : List (Block α)) : Nat :=
  let i := bs.findIdx fun b => !b.empty
  if i < bs.length then i else 0

/-- The loop of `last_non_empty_block_index`, from block `i - 1` down. -/
def lastNonEmptyBelow (bs : List (Block α)) : Nat → Nat
  | 0 => 0
  | i + 1 => if (bs.getD i default).empty then lastNonEmptyBelow bs i else i

/-- `last_non_empty_block_index`: `0` when every block is empty. -/
def lastNonEmptyBlockIndex (bs : List (Block α)) : Nat := lastNonEmptyBelow bs bs.length

/-- `select_back_block`: the block `push_back` fills, and whether a fresh block is
appended for it. -/
def selectBackBlock (bs : List (Block α)) : Nat × Bool :=
  if bs.isEmpty then (0, true)
  else
    let lastLive := lastNonEmptyBlockIndex bs
    if (bs.getD lastLive default).values.length < blockCapacity then (lastLive, false)
    else if lastLive + 1 < bs.length then (lastLive + 1, false)
    else (bs.length, true)

/-- `push_back(x)`, and whether it allocated. -/
def pushBack (d : Deque α) (x : α) : Deque α × Bool :=
  let target := (selectBackBlock d.blocks).1
  let append := (selectBackBlock d.blocks).2
  let bs := if append then d.blocks ++ [Block.fresh] else d.blocks
  (⟨bs.modify target (·.push x), d.size + 1⟩, append || (bs.getD target default).pushAllocates)

/-- The loop of `remove_empty_front_blocks`, for at most `fuel` rotations. -/
def rotateEmptyFront : Nat → List (Block α) → List (Block α)
  | 0, bs => bs
  | _ + 1, [] => []
  | fuel + 1, b :: bs =>
    if 0 < bs.length ∧ b.empty then rotateEmptyFront fuel (bs ++ [b.reset]) else b :: bs

/-- `remove_empty_front_blocks` once `m_size` is `size`. The loop ends when a block holding
values reaches the front, which one of the `bs.length` rotations does whenever `size ≠ 0`
counts values that are there. -/
def removeEmptyFrontBlocks (size : Nat) (bs : List (Block α)) : List (Block α) :=
  if size = 0 then bs else rotateEmptyFront bs.length bs

/-- `pop_front()`. -/
def popFront (d : Deque α) : Deque α × Option α :=
  if d.size = 0 then (d, none)
  else
    let i := firstNonEmptyBlockIndex d.blocks
    let b := d.blocks.getD i default
    let consumed := { b with head := b.head + 1 }
    let b' := if consumed.empty then consumed.reset else consumed
    (⟨removeEmptyFrontBlocks (d.size - 1) (d.blocks.set i b'), d.size - 1⟩, b.values[b.head]?)

/-- `pop_back()`. -/
def popBack (d : Deque α) : Deque α × Option α :=
  if d.size = 0 then (d, none)
  else
    let i := lastNonEmptyBlockIndex d.blocks
    let b := d.blocks.getD i default
    match b.values.getLast? with
    | none => (d, none)
    | some v =>
      let shrunk := { b with values := b.values.dropLast }
      let b' := if shrunk.empty then shrunk.reset else shrunk
      (⟨d.blocks.set i b', d.size - 1⟩, some v)

/-- `back()`: the last value of the last block holding values. -/
def back (d : Deque α) : Option α :=
  if d.size = 0 then none
  else
    let b := d.blocks.getD (lastNonEmptyBlockIndex d.blocks) default
    b.values[b.values.length - 1]?

/-- `clear()`: every block is reset and then dropped, with `m_size` zero: what is left is
a default-constructed deque. -/
def clear (_ : Deque α) : Deque α := empty

/-- `reserve`'s clamp of its argument, so that the rounding below cannot wrap. -/
def clampCapacity (newCapacity : Nat) : Nat := min newCapacity (sizeMax - (blockCapacity - 1))

/-- The blocks `reserve(new_capacity)` provisions: one beyond the size-based need, since the
front block may hold up to `k_block_capacity - 1` consumed slots. -/
def requiredBlocks (newCapacity : Nat) : Nat :=
  (clampCapacity newCapacity + blockCapacity - 1) / blockCapacity + 1

/-- `reserve(new_capacity)` when every allocation succeeds: fresh blocks until there are
`requiredBlocks`. -/
def reserve (d : Deque α) (newCapacity : Nat) : Deque α :=
  { d with blocks := d.blocks ++ List.replicate (requiredBlocks newCapacity - d.blocks.length) Block.fresh }

/-- `sizeof(block)` on the 64-bit targets: the vector's data pointer, size and capacity, and
`head`. -/
def blockBytes : Nat := 32

/-- `reserve`'s loop of `append_empty_block_back`, for `count` more blocks: `blockOk i` is
whether the storage of the block appended at index `i` could be allocated; the loop returns
`false` at the first that could not, keeping the blocks appended before it. -/
def appendBlocks (blockOk : Nat → Bool) : Nat → List (Block α) → List (Block α) × Bool
  | 0, bs => (bs, true)
  | count + 1, bs =>
    if blockOk bs.length then appendBlocks blockOk count (bs ++ [Block.fresh]) else (bs, false)

/-- `reserve(new_capacity)` and what it returns. `m_blocks.reserve(required_blocks)` refuses
a count past `SIZE_MAX / sizeof(block)`, which bounds every capacity a vector has, and
otherwise succeeds when `vectorOk`: the vector has room, or its reallocation gets memory.
`m_blocks.push_back` then has room for every block the loop appends. -/
def tryReserve (d : Deque α) (newCapacity : Nat) (vectorOk : Bool) (blockOk : Nat → Bool) :
    Deque α × Bool :=
  if sizeMax / blockBytes < requiredBlocks newCapacity then (d, false)
  else if vectorOk = false then (d, false)
  else
    let r := appendBlocks blockOk (requiredBlocks newCapacity - d.blocks.length) d.blocks
    ({ d with blocks := r.1 }, r.2)

end Deque

end Archipelago.Ktl
