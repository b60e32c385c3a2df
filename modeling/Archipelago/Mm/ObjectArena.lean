import Archipelago.Lib.Bytes
import Archipelago.Lib.Bitmap
/-! The per-type object arenas (`mm/object_arena.cpp`, `kernel/mm/object_arena.h`): exact-size,
always-zero slots of one type, in one-page slabs. A slab's page begins with an `arena_slab`
header (magic, live count, owning arena, the links of the arena's doubly linked list of partial
slabs), then the words of a bitmap with one bit per slot, then the slots at the arena's slot
offset. The bitmap is the whole allocation state: `free` scrubs the slot before it clears the
bit, and a fresh slab is zeroed whole, so every slot whose bit is clear holds zeros.

As in the slab heap, the header and the bitmap are read and written in the memory the page
lives in, at the offsets the struct gives them. Addresses are `Nat` below `2^64`;
`heap_pages_alloc(1)` is an input, the base the page source hands out (0 when exhausted), and
`free` returns the page it gives back to `heap_pages_free`. The arena is used from thread
context with its lock held across each call, so a call is one step; a `panic` is `none`.
The constructor's `align_up` and the complements in the bitmap code are computed in 64 bits
as the source computes them; the counters are `Nat`, and stay far below where `size_t` or the
slab's `uint32_t` count would wrap. -/

namespace Archipelago.Mm

open Archipelago.Lib

namespace ObjectArena

def PAGE : Nat := 0x1000
def ARENA_MAGIC : Nat := 0x41524E41
/-- `sizeof(arena_slab)`. -/
def SLAB_BYTES : Nat := 32
def SIZE_MAX : Nat := 0xFFFFFFFFFFFFFFFF

/-- `align_up` in `size_t`: the sum wraps, and `~(align - 1)` is the 64-bit complement. -/
def alignUp (value align : Nat) : Nat :=
  (value + align - 1) % 0x10000000000000000 &&& (SIZE_MAX ^^^ (align - 1))

/-- The layout the constructor fixes: `m_object_size`, `m_slot_size`, `m_slots_per_slab`,
`m_bitmap_words`, `m_slots_offset`. -/
structure Layout where
  objectSize : Nat
  slotSize : Nat
  slotsPerSlab : Nat
  bitmapWords : Nat
  slotsOffset : Nat
  deriving DecidableEq, Repr

/-- The constructor's shrinking loop from `slots` down: the first count whose header, bitmap
words and slots fit one page, with its word count and slot offset; `none` when it reaches 0. -/
def solveSlots (slotSize align : Nat) : Nat → Option (Nat × Nat × Nat)
  | 0 => none
  | slots + 1 =>
    let words := (slots + 1 + 63) / 64
    let offset := alignUp (SLAB_BYTES + words * 8) align
    if offset + (slots + 1) * slotSize ≤ PAGE then some (slots + 1, words, offset)
    else solveSlots slotSize align slots

/-- `object_arena::object_arena`: the layout, or `none` where it panics. -/
def create (objectSize align : Nat) : Option Layout :=
  if align = 0 ∨ align &&& (align - 1) ≠ 0 ∨ 64 < align then none
  else
    let objectSize := if objectSize = 0 then 1 else objectSize
    let slotSize := alignUp objectSize align
    -- `(PAGE - sizeof(arena_slab)) / m_slot_size` traps when `align_up` wrapped to 0
    if slotSize = 0 then none
    else
      match solveSlots slotSize align ((PAGE - SLAB_BYTES) / slotSize) with
      | none => none
      | some (slots, words, offset) => some ⟨objectSize, slotSize, slots, words, offset⟩

/-- Where slot `i` of the slab at `slab` begins. -/
def Layout.slotAddr (L : Layout) (slab i : Nat) : Nat := slab + L.slotsOffset + i * L.slotSize

/-! ## `arena_slab`, where it lies in memory -/

/-- The fields of `arena_slab` and the bitmap words after it (`bits()[w]`). -/
inductive Field
  | magic
  | live
  | owner
  | next
  | prev
  | word (w : Nat)
  deriving DecidableEq, Repr

def Field.offset : Field → Nat
  | .magic => 0
  | .live => 4
  | .owner => 8
  | .next => 16
  | .prev => 24
  | .word w => SLAB_BYTES + 8 * w

def Field.size : Field → Nat
  | .magic => 4
  | .live => 4
  | _ => 8

/-- `slab->f`. -/
def field (mem : Nat → UInt8) (slab : Nat) (f : Field) : Nat := loadLE mem (slab + f.offset) f.size

/-- `slab->f = v`. -/
def setField (mem : Nat → UInt8) (slab : Nat) (f : Field) (v : Nat) : Nat → UInt8 :=
  storeLE mem (slab + f.offset) v f.size

/-- The slab's bitmap words. -/
def words (mem : Nat → UInt8) (slab : Nat) : Nat → Nat := fun w => field mem slab (.word w)

/-- `arena_slab::test_live`. -/
def testLive (mem : Nat → UInt8) (slab slot : Nat) : Bool :=
  (field mem slab (.word (slot >>> 6)) >>> (slot &&& 63)) &&& 1 == 1

/-- `arena_slab::mark_live`. -/
def markLive (mem : Nat → UInt8) (slab slot : Nat) : Nat → UInt8 :=
  setField mem slab (.word (slot >>> 6)) (field mem slab (.word (slot >>> 6)) ||| 1 <<< (slot &&& 63))

/-- `arena_slab::clear_live`: the word with the bit taken out, `~` in 64 bits. -/
def clearLive (mem : Nat → UInt8) (slab slot : Nat) : Nat → UInt8 :=
  setField mem slab (.word (slot >>> 6))
    (field mem slab (.word (slot >>> 6)) &&& (SIZE_MAX ^^^ 1 <<< (slot &&& 63)))

/-- `take_slot`'s loop from word `word`, with `n` words left: the first word not all ones
gives its lowest clear bit; `none` where the loop breaks on a bit past the last real slot or
runs out of words, both ending in the panic. -/
def findSlot (mem : Nat → UInt8) (slab slots : Nat) : Nat → Nat → Option Nat
  | _, 0 => none
  | word, n + 1 =>
    let bits := field mem slab (.word word)
    if bits = SIZE_MAX then findSlot mem slab slots (word + 1) n
    else
      let slot := word * 64 + ctz (bits ^^^ SIZE_MAX)
      if slots ≤ slot then none else some slot

end ObjectArena

open ObjectArena

/-- `object_arena`'s fields that its calls read and write, and the memory of its pages;
`addr` is `this`, the owner every slab records. -/
structure Arena where
  layout : Layout
  addr : Nat
  partialHead : Nat
  slabCount : Nat
  live : Nat
  mem : Nat → UInt8

namespace Arena

/-- `unlink_partial`: each link read afresh, as the source does. -/
def unlinkPartial (a : Arena) (slab : Nat) : Arena :=
  let mem := a.mem
  let mem := if field mem slab .prev ≠ 0 then setField mem (field mem slab .prev) .next (field mem slab .next)
    else mem
  let mem := if field mem slab .next ≠ 0 then setField mem (field mem slab .next) .prev (field mem slab .prev)
    else mem
  let head := if a.partialHead = slab then field mem slab .next else a.partialHead
  { a with partialHead := head, mem := setField (setField mem slab .next 0) slab .prev 0 }

/-- `take_slot`: the slot's address, the slab leaving the partial list when that was its last
free slot. -/
def takeSlot (a : Arena) (slab : Nat) : Option (Nat × Arena) :=
  match findSlot a.mem slab a.layout.slotsPerSlab 0 a.layout.bitmapWords with
  | none => none
  | some slot =>
    let mem := markLive a.mem slab slot
    let mem := setField mem slab .live (field mem slab .live + 1)
    let a' := { a with mem := mem, live := a.live + 1 }
    let a' := if field a'.mem slab .live = a.layout.slotsPerSlab then a'.unlinkPartial slab else a'
    some (a.layout.slotAddr slab slot, a')

/-- `new_slab` at the base `heap_pages_alloc` returned: the page zeroed, the header
value-initialized, then its magic and owner. -/
def newSlab (a : Arena) (base : Nat) : Nat → UInt8 :=
  let mem := memset a.mem base 0 PAGE
  let mem := storeLE mem base 0 SLAB_BYTES
  let mem := setField mem base .magic ARENA_MAGIC
  setField mem base .owner a.addr

/-- `object_arena::alloc`; `fresh` is what `heap_pages_alloc` hands out if a page is wanted.
The pointer is 0 when the page source is exhausted. -/
def alloc (a : Arena) (fresh : Nat) : Option (Nat × Arena) :=
  if a.partialHead ≠ 0 then a.takeSlot a.partialHead
  else if fresh = 0 then some (0, a)
  else
    -- `new_slab`, then link it at the front of the partial list
    let mem := setField (a.newSlab fresh) fresh .next a.partialHead
    let mem := if a.partialHead ≠ 0 then setField mem a.partialHead .prev fresh else mem
    { a with mem := mem, partialHead := fresh, slabCount := a.slabCount + 1 }.takeSlot fresh

/-- `object_arena::free`: the page handed back to `heap_pages_free`, if any, or `none` for a
panic. -/
def free (a : Arena) (ptr : Nat) : Option (Option Nat × Arena) :=
  if ptr = 0 then some (none, a)
  else
    let L := a.layout
    let slab := ptr &&& (SIZE_MAX ^^^ (PAGE - 1))
    if field a.mem slab .magic ≠ ARENA_MAGIC ∨ field a.mem slab .owner ≠ a.addr then none
    else if ptr < slab + L.slotsOffset ∨ (ptr - slab - L.slotsOffset) % L.slotSize ≠ 0 then none
    else
      let slot := (ptr - slab - L.slotsOffset) / L.slotSize
      if L.slotsPerSlab ≤ slot then none
      else if !testLive a.mem slab slot then none
      else
        let mem := memset a.mem ptr 0 L.slotSize
        let mem := clearLive mem slab slot
        -- `slab->live--` in `uint32_t`
        let mem := setField mem slab .live ((field mem slab .live + 0xFFFFFFFF) % 0x100000000)
        let a := { a with mem := mem, live := a.live - 1 }
        let live := field a.mem slab .live
        if (live + 1) % 0x100000000 = L.slotsPerSlab ∧ live ≠ 0 then
          -- was full: back onto the partial list
          let mem := setField a.mem slab .next a.partialHead
          let mem := if a.partialHead ≠ 0 then setField mem a.partialHead .prev slab else mem
          some (none, { a with mem := mem, partialHead := slab })
        else if live = 0 then
          some (some slab, { a.unlinkPartial slab with slabCount := a.slabCount - 1 })
        else some (none, a)

end Arena

namespace ObjectArena

/-- A call of the arena's clients: `alloc()`, with the page `heap_pages_alloc` hands out if it
is asked; `free(ptr)`; a byte the client writes into an object it holds. -/
inductive Call
  | alloc (fresh : Nat)
  | free (ptr : Nat)
  | store (addr : Nat) (v : UInt8)

/-- What a call shows its caller. -/
inductive Reply
  | allocated (ptr : Nat)
  | freed (page : Option Nat)
  | stored
  | panicked
  deriving DecidableEq, Repr

/-- The arena with the page source's ledger of the pages it has handed the arena and not got
back, and the pointers `alloc` has returned that `free` has not taken back. -/
structure World where
  arena : Arena
  pages : List Nat
  live : List Nat

/-- The arena as constructed with layout `L` at `addr`, over memory `mem`. -/
def World.boot (L : Layout) (addr : Nat) (mem : Nat → UInt8) : World :=
  { arena := { layout := L, addr := addr, partialHead := 0, slabCount := 0, live := 0, mem := mem },
    pages := [], live := [] }

/-- One call. A panic stops the kernel: the world stays as it was and the reply says so. -/
def World.step (w : World) : Call → World × Reply
  | .alloc fresh =>
    match w.arena.alloc fresh with
    | none => (w, .panicked)
    | some (ptr, a) =>
      ({ arena := a,
         pages := if w.arena.partialHead = 0 ∧ fresh ≠ 0 then fresh :: w.pages else w.pages,
         live := if ptr = 0 then w.live else ptr :: w.live }, .allocated ptr)
  | .free ptr =>
    match w.arena.free ptr with
    | none => (w, .panicked)
    | some (page, a) =>
      ({ arena := a, pages := match page with | some p => w.pages.erase p | none => w.pages,
         live := w.live.erase ptr }, .freed page)
  | .store addr v =>
    ({ w with arena := { w.arena with mem := Function.update w.arena.mem addr v } }, .stored)

/-- The calls the environment makes: the page source hands out 0 or a page-aligned page it has
not already handed the arena, `free` takes a pointer `alloc` returned and not yet freed, and
a client writes only inside an object it holds. -/
def World.Allowed (w : World) : Call → Prop
  | .alloc fresh => fresh = 0 ∨ (fresh % PAGE = 0 ∧ fresh ∉ w.pages ∧ fresh + PAGE ≤ 0x10000000000000000)
  | .free ptr => ptr ∈ w.live
  | .store addr _ => ∃ q ∈ w.live, q ≤ addr ∧ addr < q + w.arena.layout.objectSize

end ObjectArena

end Archipelago.Mm
