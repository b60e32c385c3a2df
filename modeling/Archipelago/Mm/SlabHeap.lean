import Archipelago.Lib.Bytes
/-! The kernel heap (`mm/slab_heap.cpp`, `mm/heap_pages.cpp`, `kernel/mm/slab_heap.h`). A request
up to 1024 bytes with alignment up to 64 takes a slot of a size-class slab: a page whose first
64 bytes are a tagged header (`slab_page`) holding the class, a live count, a free list threaded
through freed slots as 16-bit offsets, a bump offset for slots never used, the links of the
class's doubly linked list of partial slabs and a bitmap of live slots. Anything larger is a
large run of whole pages with no header; its page count is recorded in the first frame's page
descriptor. `free` tells the two apart by alignment alone, and trusts the header it finds at
the page of an unaligned pointer once its magic matches.

The header is read and written in the memory the page lives in, byte by byte, exactly where
the struct lays its fields, so a page holding anything else is read as the source reads it.
Addresses are `Nat`; `heap_pages_alloc` is an input, the base the page source hands out (0 when
exhausted), and `free` returns the runs it gives back to `heap_pages_free`. The heap is used
from thread context only, so `check_not_interrupt` never panics; a `panic` is `none`. The
`size_t` counters of each class (`slab_count`, `live`) and of the large runs (`m_large_allocs`,
`m_large_pages`) wrap modulo `2 ^ 64` in both directions, as the source's do; the call and
failure counters only grow and count in `Nat`, runs of `2 ^ 64` calls being out of scope. -/

namespace Archipelago.Mm

open Archipelago.Lib

namespace SlabHeap

def PAGE : Nat := 4096
def HEADER_BYTES : Nat := 64
def SLAB_MAGIC : Nat := 0x42414c53
def CLASS_COUNT : Nat := 7
def MAX_CLASS_BYTES : Nat := 1024
def MAX_SLAB_ALIGN : Nat := 64
def MAX_ALIGN : Nat := 4096
def HEAP_RUN_TAG : Nat := 0x50414548 <<< 32
def RUN_TAG_MASK : Nat := 0xFFFFFFFF <<< 32
def RUN_PAGE_MASK : Nat := 0xFFFFFFFF
def SIZE_MAX : Nat := 0xFFFFFFFFFFFFFFFF

/-- `CLASS_SIZES`. -/
def CLASS_SIZES : List Nat := [16, 32, 64, 128, 256, 512, 1024]

def classSize (i : Nat) : Nat := CLASS_SIZES.getD i 0

/-- `class_for`: the first class that fits. -/
def classFor (bytes : Nat) : Nat := CLASS_SIZES.findIdx (bytes ≤ ·)

/-! ## `slab_page`, where it lies in memory -/

/-- The header fields at their offsets in `slab_page`. -/
def magic (mem : Nat → UInt8) (slab : Nat) : Nat := loadLE mem slab 4
def classIndex (mem : Nat → UInt8) (slab : Nat) : Nat := loadLE mem (slab + 4) 2
def live (mem : Nat → UInt8) (slab : Nat) : Nat := loadLE mem (slab + 6) 2
def freeHead (mem : Nat → UInt8) (slab : Nat) : Nat := loadLE mem (slab + 8) 2
def nextUninit (mem : Nat → UInt8) (slab : Nat) : Nat := loadLE mem (slab + 10) 2
def next (mem : Nat → UInt8) (slab : Nat) : Nat := loadLE mem (slab + 16) 8
def prev (mem : Nat → UInt8) (slab : Nat) : Nat := loadLE mem (slab + 24) 8
def liveBits (mem : Nat → UInt8) (slab k : Nat) : Nat := loadLE mem (slab + 32 + 8 * k) 8

def setLive (mem : Nat → UInt8) (slab v : Nat) : Nat → UInt8 := storeLE mem (slab + 6) v 2
def setFreeHead (mem : Nat → UInt8) (slab v : Nat) : Nat → UInt8 := storeLE mem (slab + 8) v 2
def setNextUninit (mem : Nat → UInt8) (slab v : Nat) : Nat → UInt8 := storeLE mem (slab + 10) v 2
def setNext (mem : Nat → UInt8) (slab v : Nat) : Nat → UInt8 := storeLE mem (slab + 16) v 8
def setPrev (mem : Nat → UInt8) (slab v : Nat) : Nat → UInt8 := storeLE mem (slab + 24) v 8
def setLiveBits (mem : Nat → UInt8) (slab k v : Nat) : Nat → UInt8 := storeLE mem (slab + 32 + 8 * k) v 8

/-- `slab_page::full`. -/
def full (mem : Nat → UInt8) (slab : Nat) : Bool := freeHead mem slab == 0 && nextUninit mem slab == 0

/-- `slab_page::test_live`. -/
def testLive (mem : Nat → UInt8) (slab slot : Nat) : Bool :=
  (liveBits mem slab (slot >>> 6) >>> (slot &&& 63)) &&& 1 == 1

/-- `slab_page::mark_live`. -/
def markLive (mem : Nat → UInt8) (slab slot : Nat) : Nat → UInt8 :=
  setLiveBits mem slab (slot >>> 6) (liveBits mem slab (slot >>> 6) ||| 1 <<< (slot &&& 63))

/-- `slab_page::clear_live`: the bit's word with the bit taken out. -/
def clearLive (mem : Nat → UInt8) (slab slot : Nat) : Nat → UInt8 :=
  setLiveBits mem slab (slot >>> 6)
    ((BitVec.ofNat 64 (liveBits mem slab (slot >>> 6)) &&& ~~~(BitVec.ofNat 64 (1 <<< (slot &&& 63)))).toNat)

/-- `new_slab`'s placement-new: every field zero, then the magic, the class and the first
slot offset. -/
def initHeader (mem : Nat → UInt8) (slab ci : Nat) : Nat → UInt8 :=
  let mem := storeLE mem slab 0 12
  let mem := storeLE mem (slab + 16) 0 48
  let mem := storeLE mem slab SLAB_MAGIC 4
  let mem := storeLE mem (slab + 4) ci 2
  setNextUninit mem slab HEADER_BYTES

end SlabHeap

open SlabHeap

/-- `slab_heap::class_state`; `partialHead` is `partial`, the head of the partial list. -/
structure ClassState where
  partialHead : Nat := 0
  slabCount : Nat := 0
  live : Nat := 0
  deriving Repr

/-- `slab_heap`'s fields, the memory of its pages and the run records of the page descriptors
(`page_descriptor::offset` of each large run's first frame). -/
structure Heap where
  classes : Nat → ClassState
  largeAllocs : Nat
  largePages : Nat
  allocCalls : Nat
  freeCalls : Nat
  failures : Nat
  mem : Nat → UInt8
  runTag : Nat → Nat

namespace Heap

/-- The heap at boot over page memory `mem`: every class empty, every counter zero and no run
recorded in any page descriptor. -/
def boot (mem : Nat → UInt8) : Heap :=
  { classes := fun _ => {}, largeAllocs := 0, largePages := 0, allocCalls := 0, freeCalls := 0,
    failures := 0, mem := mem, runTag := fun _ => 0 }

def setClass (h : Heap) (ci : Nat) (c : ClassState) : Heap :=
  { h with classes := Function.update h.classes ci c }

/-- `unlink_partial`: each link read afresh, as the source does. -/
def unlinkPartial (h : Heap) (ci slab : Nat) : Heap :=
  let mem := h.mem
  let mem := if prev mem slab ≠ 0 then setNext mem (prev mem slab) (next mem slab) else mem
  let mem := if next mem slab ≠ 0 then setPrev mem (next mem slab) (prev mem slab) else mem
  let h := if (h.classes ci).partialHead = slab then h.setClass ci { h.classes ci with partialHead := next mem slab }
    else h
  { h with mem := setPrev (setNext mem slab 0) slab 0 }

/-- `take_slot`: a freed slot if there is one, else the next never-used one; the slab leaves
the partial list when that was its last free slot. -/
def takeSlot (h : Heap) (ci slab : Nat) : Nat × Heap :=
  let cs := classSize ci
  let mem := h.mem
  let offset := if freeHead mem slab ≠ 0 then freeHead mem slab else nextUninit mem slab
  let mem :=
    if freeHead mem slab ≠ 0 then setFreeHead mem slab (loadLE mem (slab + offset) 2)
    else setNextUninit mem slab (if offset + cs + cs ≤ PAGE then offset + cs else 0)
  -- `(offset - HEADER_BYTES) / class_size` is computed in `size_t`
  let mem := markLive mem slab ((offset + 2 ^ 64 - HEADER_BYTES) % 2 ^ 64 / cs)
  let mem := setLive mem slab ((live mem slab + 1) % 2 ^ 16)
  let h := { h.setClass ci { h.classes ci with live := ((h.classes ci).live + 1) % 2 ^ 64 } with mem := mem }
  (slab + offset, if full h.mem slab then h.unlinkPartial ci slab else h)

/-- `alloc_large`: whole pages from the page source, their count noted in the first frame's
descriptor. -/
def allocLarge (h : Heap) (size fresh : Nat) : Nat × Heap :=
  let pages := (size + PAGE - 1) / PAGE
  if SIZE_MAX - (PAGE - 1) < size ∨ 0xFFFFFFFF < pages then
    (0, { h with allocCalls := h.allocCalls + 1, failures := h.failures + 1 })
  else if fresh = 0 then (0, { h with allocCalls := h.allocCalls + 1, failures := h.failures + 1 })
  else
    (fresh, { h with runTag := Function.update h.runTag fresh (HEAP_RUN_TAG ||| pages &&& RUN_PAGE_MASK),
                     allocCalls := h.allocCalls + 1, largeAllocs := (h.largeAllocs + 1) % 2 ^ 64,
                     largePages := (h.largePages + pages) % 2 ^ 64 })

/-- `slab_heap::alloc`; `fresh` is what `heap_pages_alloc` hands out if a page is wanted. -/
def alloc (h : Heap) (size align fresh : Nat) : Option (Nat × Heap) :=
  if align = 0 ∨ align &&& (align - 1) ≠ 0 ∨ MAX_ALIGN < align then none
  else
    let size := if size = 0 then 1 else size
    let need := if size > align then size else align
    if MAX_CLASS_BYTES < need ∨ MAX_SLAB_ALIGN < align then some (h.allocLarge size fresh)
    else
      let ci := classFor need
      let h := { h with allocCalls := h.allocCalls + 1 }
      if (h.classes ci).partialHead ≠ 0 then some (h.takeSlot ci (h.classes ci).partialHead)
      else if fresh = 0 then some (0, { h with failures := h.failures + 1 })
      else
        -- `new_slab`, then link it at the front of the class's partial list
        let mem := setNext (initHeader h.mem fresh ci) fresh (h.classes ci).partialHead
        let mem := if (h.classes ci).partialHead ≠ 0 then setPrev mem (h.classes ci).partialHead fresh else mem
        let h := { h.setClass ci { h.classes ci with partialHead := fresh,
                                                     slabCount := ((h.classes ci).slabCount + 1) % 2 ^ 64 } with
                   mem := mem }
        some (h.takeSlot ci fresh)

/-- `slab_heap::free`: the runs handed back to `heap_pages_free`, or `none` for a panic. -/
def free (h : Heap) (ptr : Nat) : Option (List (Nat × Nat) × Heap) :=
  if ptr &&& (PAGE - 1) = 0 then
    -- `heap_pages_take_run`: the record authenticates the run
    if h.runTag ptr &&& RUN_TAG_MASK ≠ HEAP_RUN_TAG then none
    else
      let pages := h.runTag ptr &&& RUN_PAGE_MASK
      some ([(ptr, pages)],
        { h with runTag := Function.update h.runTag ptr 0, freeCalls := h.freeCalls + 1,
                 largeAllocs := (h.largeAllocs + 2 ^ 64 - 1) % 2 ^ 64,
                 largePages := (h.largePages + 2 ^ 64 - pages) % 2 ^ 64 })
  else
    let page := ptr - ptr % PAGE
    let h : Heap := { h with freeCalls := h.freeCalls + 1 }
    let mem := h.mem
    if magic mem page ≠ SLAB_MAGIC then none
    else if CLASS_COUNT ≤ classIndex mem page then none
    else
      let ci := classIndex mem page
      let wasFull := full mem page
      let cs := classSize ci
      let offset := ptr - page
      if offset < HEADER_BYTES ∨ PAGE - cs < offset ∨ (offset - HEADER_BYTES) % cs ≠ 0 then none
      else
        let slot := (offset - HEADER_BYTES) / cs
        if !testLive mem page slot then none
        else
          let mem := clearLive mem page slot
          let mem := storeLE mem ptr (freeHead mem page) 2
          let mem := setFreeHead mem page offset
          let mem := setLive mem page ((live mem page + 2 ^ 16 - 1) % 2 ^ 16)
          let h : Heap :=
            { h.setClass ci { h.classes ci with live := ((h.classes ci).live + 2 ^ 64 - 1) % 2 ^ 64 } with mem := mem }
          -- a slab that was full goes back on the front of the partial list
          let h : Heap :=
            if wasFull then
              let mem := setPrev (setNext h.mem page (h.classes ci).partialHead) page 0
              let mem := if (h.classes ci).partialHead ≠ 0 then setPrev mem (h.classes ci).partialHead page else mem
              { h.setClass ci { h.classes ci with partialHead := page } with mem := mem }
            else h
          -- an empty slab is given back, unless it is the class's only partial slab
          if live h.mem page = 0 ∧ ¬((h.classes ci).partialHead = page ∧ next h.mem page = 0) then
            let h := h.unlinkPartial ci page
            some ([(page, 1)],
              h.setClass ci { h.classes ci with slabCount := ((h.classes ci).slabCount + 2 ^ 64 - 1) % 2 ^ 64 })
          else some ([], h)

/-- What the owner of a large run at `base` may store in it: bytes that read as the header of
a full class-0 slab whose slot 0 is live. -/
def forgeHeader (h : Heap) (base : Nat) : Heap :=
  { h with mem := setLiveBits (setLive (storeLE h.mem base SLAB_MAGIC 4) base 1) base 0 1 }

/-- A result whose first component is known is `some` of that component and its second. -/
theorem eq_some_of_map_fst {α β : Type} {x : Option (α × β)} {a : α} (d : β)
    (h : x.map Prod.fst = some a) : x = some (a, x.elim d Prod.snd) := by
  cases x with
  | none => cases h
  | some r => cases r; cases h; rfl

/-- `free` tells an interior pointer of a large run from a slot by the header it reads at the
pointer's page, and the run's owner writes that page. After a two-page run at `0x10000` whose
first bytes read as a slab header, freeing the interior pointer `0x10040` returns without a
panic, and the next 16-byte allocation is handed `0x10040`, inside the run still live. -/
theorem free_interior_pointer_reissues_live_run :
    ∃ h₁ h₂ h₃, (boot fun _ => 0).alloc 8192 8 0x10000 = some (0x10000, h₁) ∧
      (h₁.forgeHeader 0x10000).free 0x10040 = some ([], h₂) ∧
      h₂.alloc 16 8 0 = some (0x10040, h₃) :=
  ⟨_, _, _, eq_some_of_map_fst (boot fun _ => 0) (by rfl),
    eq_some_of_map_fst (boot fun _ => 0) (by rfl),
    eq_some_of_map_fst (boot fun _ => 0) (by rfl)⟩

end Heap

end Archipelago.Mm
