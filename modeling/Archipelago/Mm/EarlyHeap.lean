import Archipelago.Mm.ObjectArena

/-! The boot-time heap (`mm/early_heap.cpp`, `kernel/mm/early_heap.h`) behind `operator new`
until the slab heap takes over. Its range is carved into blocks, each an `early_heap_block`
header (the block's size with the header, the next block, whether it is free, the payload
handed out from it) followed by its bytes, linked in address order from `m_head`. `alloc` takes
the first free block that holds an aligned payload of the size asked and splits the rest off as
a free block when it is large enough for one; `free` marks the block of a payload free and
merges it with its free neighbours.

Only the heap writes the headers, so the blocks are the list that the `next` links spell from
`m_head`: `blocks` holds the headers in that order, each with its address. Addresses are `Nat`
below `2^64`; `align_up` and the two `size_t` differences of `alloc` can wrap and are computed
modulo `2^64`, as the source computes them, and the other sums stay inside the heap.
`heap_guard` makes each call one step; a `panic` is an error with its message. `g_log` lines
are left out. -/

namespace Archipelago.Mm

open Archipelago.Mm.ObjectArena (alignUp SIZE_MAX)

namespace EarlyHeap

/-- `sizeof(early_heap_block)`: the size, the link, the flag padded to eight bytes, the
payload. -/
def BLOCK_BYTES : Nat := 32

/-- `alignof(early_heap_block)`. -/
def BLOCK_ALIGN : Nat := 8

/-- `heap_alignment_fallback`: `alignof(max_align_t)`. -/
def FALLBACK_ALIGN : Nat := 16

/-- `kMinimumSplitSize`. -/
def MIN_SPLIT : Nat := BLOCK_BYTES + FALLBACK_ALIGN

/-- `a - b` in `size_t`. -/
def sub64 (a b : Nat) : Nat := (a + 0x10000000000000000 - b) % 0x10000000000000000

/-- `ktl::align_down`. -/
def alignDown (value align : Nat) : Nat := value &&& (SIZE_MAX ^^^ (align - 1))

/-- `ktl::is_power_of_two`. -/
def isPowerOfTwo (x : Nat) : Bool := x != 0 && x &&& (x - 1) == 0

/-- `early_heap_block`, with the address of its header; its `next` is the block after it in
the list. -/
structure Block where
  addr : Nat
  size : Nat
  free : Bool
  payloadBase : Nat
  deriving DecidableEq, Repr

end EarlyHeap

open EarlyHeap

/-- `early_heap`: the blocks from `m_head`, the range and the call counters. -/
structure EarlyHeap where
  blocks : List Block
  heapStart : Nat
  heapEnd : Nat
  allocCalls : Nat
  freeCalls : Nat
  deriving DecidableEq, Repr

namespace EarlyHeap

/-- `early_heap::on_boot(start, end)`: one free block over the range, rounded inward to
header alignment. -/
def onBoot (start end_ : Nat) : Except String EarlyHeap :=
  if start ≥ end_ then .error "Invalid early heap range"
  else
    let alignedStart := alignUp start BLOCK_ALIGN
    let alignedEnd := alignDown end_ BLOCK_ALIGN
    if alignedEnd ≤ (alignedStart + BLOCK_BYTES) % 0x10000000000000000 then
      .error "Early heap region too small"
    else .ok ⟨[⟨alignedStart, sub64 alignedEnd alignedStart, true, 0⟩], alignedStart, alignedEnd, 0, 0⟩

/-- Where the allocation ends and what is left behind it, once the payload fits: with
something left, the split point moves up to header alignment, and a rest no larger than the
move stays with the allocation (`alignment_gap`). -/
def splitPoint (newAddr total remaining : Nat) : Nat × Nat × Nat :=
  if remaining > 0 then
    if sub64 (alignUp newAddr BLOCK_ALIGN) newAddr > 0 then
      if remaining ≤ sub64 (alignUp newAddr BLOCK_ALIGN) newAddr then (newAddr, total, 0)
      else (alignUp newAddr BLOCK_ALIGN, total + sub64 (alignUp newAddr BLOCK_ALIGN) newAddr,
        remaining - sub64 (alignUp newAddr BLOCK_ALIGN) newAddr)
    else (newAddr, total, remaining)
  else (newAddr, total, remaining)

/-- The block `alloc` hands out of `b` and the free block split off behind it, if there is
room for one. -/
def carve (b : Block) (payload : Nat) : Nat × Nat × Nat → List Block
  | (newAddr, total, remaining) =>
    if remaining ≥ MIN_SPLIT then
      [{ b with size := total, free := false, payloadBase := payload }, ⟨newAddr, remaining, true, 0⟩]
    else [{ b with free := false, payloadBase := payload }]

/-- One round of `alloc`'s loop at a free block: the blocks that replace it and the payload, or
`none` where the loop goes on (`continue`). -/
def place (size alignment : Nat) (b : Block) : Option (List Block × Nat) :=
  if sub64 (alignUp (b.addr + BLOCK_BYTES) alignment) b.addr > b.size then none
  else if b.size - sub64 (alignUp (b.addr + BLOCK_BYTES) alignment) b.addr < size then none
  else
    let payload := alignUp (b.addr + BLOCK_BYTES) alignment
    let total := sub64 payload b.addr + size
    some (carve b payload (splitPoint (b.addr + total) total (b.size - total)), payload)

/-- `alloc`'s walk from `m_head`: the new list and the payload, or `none` when no block holds
the request. -/
def allocLoop (size alignment : Nat) : List Block → Option (List Block × Nat)
  | [] => none
  | b :: bs =>
    match (if b.free then place size alignment b else none) with
    | some (r, payload) => some (r ++ bs, payload)
    | none => (allocLoop size alignment bs).map (Prod.map (b :: ·) id)

/-- `early_heap::alloc(size, alignment)`: the heap and the pointer returned, 0 for
`nullptr`. -/
def alloc (h : EarlyHeap) (size alignment : Nat) : Except String (EarlyHeap × Nat) :=
  if size = 0 then .ok (h, 0)
  else if !isPowerOfTwo alignment then .error "Early heap allocation alignment error"
  else
    match allocLoop size (if alignment < FALLBACK_ALIGN then FALLBACK_ALIGN else alignment) h.blocks with
    | some (blocks, payload) => .ok ({ h with blocks := blocks, allocCalls := h.allocCalls + 1 }, payload)
    | none => .error "Early heap out of memory"

/-- `while (block->next != nullptr && block->next->free)`: the free blocks right after `b`
merged into it, and what follows them. -/
def absorb (b : Block) : List Block → Block × List Block
  | [] => (b, [])
  | n :: rest => if n.free then absorb { b with size := b.size + n.size } rest else (b, n :: rest)

/-- What `free` does at the block of the payload, given the block before it: the block turns
free and absorbs the free blocks after it; a free block before it then absorbs it, and what
follows. -/
def releaseAt (prev : Option Block) (b : Block) (rest : List Block) : List Block :=
  match absorb { b with free := true, payloadBase := 0 } rest, prev with
  | (b, rest), some p =>
    if p.free then
      match absorb { p with size := p.size + b.size } rest with
      | (p, rest) => p :: rest
    else p :: b :: rest
  | (b, rest), none => b :: rest

/-- `free`'s walk from `m_head`, with `prev` the block before `bs`: the list from `prev` on
after the release, or `none` when no allocated block has the payload. -/
def freeLoop (target : Nat) : Option Block → List Block → Option (List Block)
  | _, [] => none
  | prev, b :: bs =>
    if !b.free && b.payloadBase == target then some (releaseAt prev b bs)
    else (freeLoop target (some b) bs).map (prev.toList ++ ·)

/-- `early_heap::free(ptr)`. -/
def free (h : EarlyHeap) (ptr : Nat) : Except String EarlyHeap :=
  if ptr = 0 then .ok h
  else
    match freeLoop ptr none h.blocks with
    | some blocks => .ok { h with blocks := blocks, freeCalls := h.freeCalls + 1 }
    | none => .error "Invalid pointer free on early heap"

/-- `early_heap::contains(ptr)`. -/
def contains (h : EarlyHeap) (ptr : Nat) : Bool := h.heapStart ≤ ptr && ptr < h.heapEnd

/-- `early_heap_stats`. -/
structure Stats where
  blocks : Nat
  usedBytes : Nat
  freeBytes : Nat
  allocCalls : Nat
  freeCalls : Nat
  deriving DecidableEq, Repr

/-- The loop of `stats()`: each block counted, its payload to the free or the used bytes. -/
def statsLoop : Stats → List Block → Stats
  | s, [] => s
  | s, b :: bs =>
    statsLoop
      (if b.free then
        { s with blocks := s.blocks + 1,
                 freeBytes := s.freeBytes + (if b.size > BLOCK_BYTES then b.size - BLOCK_BYTES else 0) }
      else
        { s with blocks := s.blocks + 1,
                 usedBytes := s.usedBytes + (if b.size > BLOCK_BYTES then b.size - BLOCK_BYTES else 0) })
      bs

/-- `early_heap::stats()`. -/
def stats (h : EarlyHeap) : Stats := statsLoop ⟨0, 0, 0, h.allocCalls, h.freeCalls⟩ h.blocks

/-! The equations the proofs rewrite with. -/

theorem carve_eq (b : Block) (payload newAddr total remaining : Nat) :
    carve b payload (newAddr, total, remaining) =
      if remaining ≥ MIN_SPLIT then
        [{ b with size := total, free := false, payloadBase := payload }, ⟨newAddr, remaining, true, 0⟩]
      else [{ b with free := false, payloadBase := payload }] := rfl

theorem allocLoop_cons (size alignment : Nat) (b : Block) (bs : List Block) :
    allocLoop size alignment (b :: bs) =
      match (if b.free then place size alignment b else none) with
      | some (r, payload) => some (r ++ bs, payload)
      | none => (allocLoop size alignment bs).map (Prod.map (b :: ·) id) := rfl

theorem absorb_nil (b : Block) : absorb b [] = (b, []) := rfl

theorem absorb_cons (b n : Block) (rest : List Block) :
    absorb b (n :: rest) =
      if n.free then absorb { b with size := b.size + n.size } rest else (b, n :: rest) := rfl

theorem freeLoop_nil (target : Nat) (prev : Option Block) : freeLoop target prev [] = none := rfl

theorem freeLoop_cons (target : Nat) (prev : Option Block) (b : Block) (bs : List Block) :
    freeLoop target prev (b :: bs) =
      if !b.free && b.payloadBase == target then some (releaseAt prev b bs)
      else (freeLoop target (some b) bs).map (prev.toList ++ ·) := rfl

theorem statsLoop_nil (s : Stats) : statsLoop s [] = s := rfl

theorem statsLoop_cons (s : Stats) (b : Block) (bs : List Block) :
    statsLoop s (b :: bs) =
      statsLoop
        (if b.free then
          { s with blocks := s.blocks + 1,
                   freeBytes := s.freeBytes + (if b.size > BLOCK_BYTES then b.size - BLOCK_BYTES else 0) }
        else
          { s with blocks := s.blocks + 1,
                   usedBytes := s.usedBytes + (if b.size > BLOCK_BYTES then b.size - BLOCK_BYTES else 0) })
        bs := rfl

/-- A heap of 256 bytes at `0x1000`: a 24-byte allocation at 64 takes the first payload at that
alignment, and the rest of the range is split off as a free block. -/
example : (onBoot 0x1000 0x1100).bind (·.alloc 24 64) =
    .ok (⟨[⟨0x1000, 0x58, false, 0x1040⟩, ⟨0x1058, 0xA8, true, 0⟩], 0x1000, 0x1100, 1, 0⟩, 0x1040) :=
  rfl

/-- Freeing that allocation merges the two blocks back into one. -/
example : ((onBoot 0x1000 0x1100).bind (·.alloc 24 64)).bind (·.1.free 0x1040) =
    .ok ⟨[⟨0x1000, 0x100, true, 0⟩], 0x1000, 0x1100, 1, 1⟩ := rfl

end EarlyHeap

end Archipelago.Mm
