import Mathlib.Logic.Function.Basic
/-! The physical page allocator (`mm/pmm.cpp`, `kernel/mm/pmm.h`, `kernel/mm/page.h`). A free
frame is in one of three places: the zeroed pool, the dirty pool, or the untouched range of a
region handed over at boot, whose top `zeroed_count` pages have been zeroed in place. The pools
are intrusive stacks: a pooled frame's first word holds the next frame's address, written
through the physmap. So the model carries physical memory, frame by frame as 512 words, and
the page descriptor states (`g_page_descriptors`) the allocator writes and `free` reads.

Physical addresses and counters are `Nat`: a region handed over lies in the 64-bit physical
address space, so no address computed from it wraps, and every counter stays below the
number of frames. `m_regions` is a list with the back of the vector first: `add_region`
pushes there and every loop of the source walks the vector from its back. -/

namespace Archipelago.Mm

/-- `PAGE_SIZE` (`KERNEL_MINIMUM_PAGE_SIZE`) in bytes. -/
def frameSize : Nat := 4096

/-- Physical memory through the physmap: each frame's 512 words of 64 bits. -/
abbrev PhysMem := Nat → Fin 512 → Nat

namespace PhysMem

/-- A store of one word. -/
def write (mem : PhysMem) (addr : Nat) (i : Fin 512) (v : Nat) : PhysMem :=
  Function.update mem addr (Function.update (mem addr) i v)

/-- `zero_page`: the `memset` of a whole frame. -/
def zeroPage (mem : PhysMem) (addr : Nat) : PhysMem := Function.update mem addr fun _ => 0

/-- `zero_page` on `n` consecutive frames from `base` (`alloc_contiguous`'s loop). -/
def zeroPages (mem : PhysMem) (base : Nat) : Nat → PhysMem
  | 0 => mem
  | n + 1 => (mem.zeroPages base n).zeroPage (base + n * frameSize)

/-- The frame's first word, where a pooled frame links to the next. -/
def link (mem : PhysMem) (addr : Nat) : Nat := mem addr 0

/-- Every word of the frame is zero. -/
def PageZero (mem : PhysMem) (addr : Nat) : Prop := ∀ i, mem addr i = 0

end PhysMem

/-- `page_state`. -/
inductive PageState
  | mmio
  | wired
  | free
  | zeroed
  | active
  deriving DecidableEq, Repr

/-- The descriptor table: a frame's state, `none` where `lookup` finds no descriptor. -/
abbrev Descriptors := Nat → Option PageState

/-- `page_descriptor_table::set_state`: only a covered frame changes. -/
def Descriptors.setState (d : Descriptors) (addr : Nat) (st : PageState) : Descriptors :=
  Function.update d addr ((d addr).map fun _ => st)

/-- `set_state` on `n` consecutive frames from `base`. -/
def Descriptors.setStates (d : Descriptors) (base : Nat) (st : PageState) : Nat → Descriptors
  | 0 => d
  | n + 1 => (d.setStates base st n).setState (base + n * frameSize) st

/-- `vm_page_region`: `count` frames from `start`, the top `zeroed_count` of them zeroed. -/
structure VmPageRegion where
  start : Nat
  count : Nat
  zeroedCount : Nat := 0
  deriving DecidableEq, Repr

/-- `frame_stack::NIL`: the empty stack's head, since physical 0 is a frame. -/
def FrameStack.NIL : Nat := 0xFFFFFFFFFFFFFFFF

/-- `frame_stack`: the head frame and `m_count`. -/
structure FrameStack where
  head : Nat := FrameStack.NIL
  count : Nat := 0
  deriving DecidableEq, Repr

/-- The two pools of `page_frame_allocator`. -/
inductive Pool
  | zeroed
  | dirty
  deriving DecidableEq, Repr

/-- `page_frame_allocator`'s fields. -/
structure PageFrameAllocator where
  totalPages : Nat := 0
  freePages : Nat := 0
  reservedPages : Nat := 0
  regionZeroed : Nat := 0
  allocCount : Nat := 0
  freeCount : Nat := 0
  allocFailures : Nat := 0
  zeroed : FrameStack := {}
  dirty : FrameStack := {}
  regions : List VmPageRegion := []
  deriving Repr

namespace PageFrameAllocator

/-- The stack behind a pool. -/
def pool (a : PageFrameAllocator) : Pool → FrameStack
  | .zeroed => a.zeroed
  | .dirty => a.dirty

def setPool (a : PageFrameAllocator) : Pool → FrameStack → PageFrameAllocator
  | .zeroed, s => { a with zeroed := s }
  | .dirty, s => { a with dirty := s }

@[simp] theorem pool_setPool (a : PageFrameAllocator) (p q : Pool) (s : FrameStack) :
    (a.setPool p s).pool q = if q = p then s else a.pool q := by
  cases p <;> cases q <;> rfl

@[simp] theorem regions_setPool (a : PageFrameAllocator) (p : Pool) (s : FrameStack) :
    (a.setPool p s).regions = a.regions := by cases p <;> rfl

@[simp] theorem freePages_setPool (a : PageFrameAllocator) (p : Pool) (s : FrameStack) :
    (a.setPool p s).freePages = a.freePages := by cases p <;> rfl

@[simp] theorem regionZeroed_setPool (a : PageFrameAllocator) (p : Pool) (s : FrameStack) :
    (a.setPool p s).regionZeroed = a.regionZeroed := by cases p <;> rfl

/-- `zeroed_pages()`: pages ready without a `memset`, pooled or in region tails. -/
def zeroedPages (a : PageFrameAllocator) : Nat := a.zeroed.count + a.regionZeroed

end PageFrameAllocator

/-! ## The region loops -/

/-- `pop_free_page`'s loop: drop emptied regions off the back, then take the top page of the
last one, with whether it was in the zeroed top. -/
def takeTail : List VmPageRegion → Option (Nat × Bool) × List VmPageRegion
  | [] => (none, [])
  | r :: rs =>
    if r.count = 0 then takeTail rs
    else if 0 < r.zeroedCount then
      (some (r.start + (r.count - 1) * frameSize, true),
        { r with count := r.count - 1, zeroedCount := r.zeroedCount - 1 } :: rs)
    else (some (r.start + (r.count - 1) * frameSize, false), { r with count := r.count - 1 } :: rs)

/-- `alloc_contiguous`'s loop: the last region with `count` pages gives up its top `count`;
the run's base, how many of its pages were in the zeroed top, and the regions after. -/
def carve (count : Nat) : List VmPageRegion → Option (Nat × Nat × List VmPageRegion)
  | [] => none
  | r :: rs =>
    if r.count < count then (carve count rs).map fun c => (c.1, c.2.1, r :: c.2.2)
    else
      let left := r.count - count
      let pre := if r.zeroedCount < count then r.zeroedCount else count
      some (r.start + left * frameSize, pre, { r with count := left, zeroedCount := r.zeroedCount - pre } :: rs)

/-- `zero_one_page`'s loop: the last region not yet all zeroed zeroes the page under its
zeroed top. -/
def zeroTail : List VmPageRegion → Option (Nat × List VmPageRegion)
  | [] => none
  | r :: rs =>
    if r.zeroedCount = r.count then (zeroTail rs).map fun c => (c.1, r :: c.2)
    else some (r.start + (r.count - r.zeroedCount - 1) * frameSize,
      { r with zeroedCount := r.zeroedCount + 1 } :: rs)

/-! ## The allocator with the memory and descriptors it touches -/

/-- The allocator, physical memory and the descriptor table. -/
structure Pmm where
  pfa : PageFrameAllocator
  mem : PhysMem
  desc : Descriptors

namespace Pmm

/-- `frame_stack::push`: the frame's first word links to the old head. -/
def push (w : Pmm) (p : Pool) (addr : Nat) : Pmm :=
  { w with pfa := w.pfa.setPool p ⟨addr, (w.pfa.pool p).count + 1⟩,
           mem := w.mem.write addr 0 (w.pfa.pool p).head }

/-- What `frame_stack::pop` leaves when it takes the head: the head's link word is the new
head and is cleared. -/
def popped (w : Pmm) (p : Pool) : Pmm :=
  { w with pfa := w.pfa.setPool p ⟨w.mem.link (w.pfa.pool p).head, (w.pfa.pool p).count - 1⟩,
           mem := w.mem.write (w.pfa.pool p).head 0 0 }

@[simp] theorem popped_pfa (w : Pmm) (p : Pool) :
    (w.popped p).pfa = w.pfa.setPool p ⟨w.mem.link (w.pfa.pool p).head, (w.pfa.pool p).count - 1⟩ := rfl
@[simp] theorem popped_mem (w : Pmm) (p : Pool) :
    (w.popped p).mem = w.mem.write (w.pfa.pool p).head 0 0 := rfl

/-- `frame_stack::pop`: nothing at the sentinel, else the head. -/
def pop (w : Pmm) (p : Pool) : Option Nat × Pmm :=
  if (w.pfa.pool p).head = FrameStack.NIL then (none, w) else (some (w.pfa.pool p).head, w.popped p)

def zeroPage (w : Pmm) (addr : Nat) : Pmm := { w with mem := w.mem.zeroPage addr }

@[simp] theorem zeroPage_pfa (w : Pmm) (a : Nat) : (w.zeroPage a).pfa = w.pfa := rfl
@[simp] theorem zeroPage_mem (w : Pmm) (a : Nat) : (w.zeroPage a).mem = w.mem.zeroPage a := rfl

def setRegions (w : Pmm) (rs : List VmPageRegion) : Pmm := { w with pfa := { w.pfa with regions := rs } }

def countFailure (w : Pmm) : Pmm :=
  { w with pfa := { w.pfa with allocFailures := w.pfa.allocFailures + 1 } }

/-- `pop_free_page`: a dirty page, else a region's top page, with whether it is pre-zeroed. -/
def popFreePage (w : Pmm) : Option (Nat × Bool) × Pmm :=
  match w.pop .dirty with
  | (some p, w) => (some (p, false), w)
  | (none, w) =>
    match takeTail w.pfa.regions with
    | (none, rs) => (none, w.setRegions rs)
    | (some (p, pre), rs) =>
      (some (p, pre),
        { w with pfa := { w.pfa with regions := rs,
                                     regionZeroed := if pre then w.pfa.regionZeroed - 1
                                       else w.pfa.regionZeroed } })

/-- `alloc`'s `inspect`: one free page fewer, one allocation more, the page ACTIVE. -/
def handOut (w : Pmm) (p : Nat) : Pmm :=
  { w with pfa := { w.pfa with freePages := w.pfa.freePages - 1, allocCount := w.pfa.allocCount + 1 },
           desc := w.desc.setState p .active }

@[simp] theorem handOut_mem (w : Pmm) (p : Nat) : (w.handOut p).mem = w.mem := rfl
@[simp] theorem handOut_regions (w : Pmm) (p : Nat) : (w.handOut p).pfa.regions = w.pfa.regions := rfl
@[simp] theorem handOut_pool (w : Pmm) (p : Nat) (q : Pool) : (w.handOut p).pfa.pool q = w.pfa.pool q := by
  cases q <;> rfl
@[simp] theorem handOut_freePages (w : Pmm) (p : Nat) :
    (w.handOut p).pfa.freePages = w.pfa.freePages - 1 := rfl
@[simp] theorem handOut_regionZeroed (w : Pmm) (p : Nat) :
    (w.handOut p).pfa.regionZeroed = w.pfa.regionZeroed := rfl

/-- `page_frame_allocator::alloc`: the zeroed pool, else `pop_free_page` with a `memset`
unless the page was pre-zeroed. -/
def alloc (w : Pmm) : Option Nat × Pmm :=
  match w.pop .zeroed with
  | (some p, w) => (some p, w.handOut p)
  | (none, w) =>
    match w.popFreePage with
    | (some (p, pre), w) => (some p, (if pre then w else w.zeroPage p).handOut p)
    | (none, w) => (none, w.countFailure)

/-- `page_frame_allocator::free`: `none` is the double-free panic on a frame whose
descriptor says it is already free. -/
def free (w : Pmm) (addr : Nat) : Option Pmm :=
  match w.desc addr with
  | some .free | some .zeroed => none
  | _ =>
    let w := w.push .dirty addr
    some { w with pfa := { w.pfa with freePages := w.pfa.freePages + 1, freeCount := w.pfa.freeCount + 1 },
                  desc := w.desc.setState addr .free }

/-- `page_frame_allocator::alloc_contiguous`: carve the run under the lock, then zero its
low pages that were not pre-zeroed. -/
def allocContiguous (w : Pmm) (count : Nat) : Option Nat × Pmm :=
  if count = 0 then (none, w)
  else
    match carve count w.pfa.regions with
    | none => (none, w.countFailure)
    | some (base, pre, rs) =>
      (some base,
        { pfa := { w.pfa with regions := rs, regionZeroed := w.pfa.regionZeroed - pre,
                              freePages := w.pfa.freePages - count },
          mem := w.mem.zeroPages base (count - pre),
          desc := w.desc.setStates base .active count })

/-- `page_frame_allocator::zero_one_page`: drain a dirty page into the zeroed pool, else
zero the next page of a region tail while some free page is not zeroed. -/
def zeroOnePage (w : Pmm) : Bool × Pmm :=
  match w.pop .dirty with
  | (some p, w) =>
    let w := (w.zeroPage p).push .zeroed p
    (true, { w with desc := w.desc.setState p .zeroed })
  | (none, w) =>
    if w.pfa.freePages ≤ w.pfa.zeroedPages then (false, w)
    else
      match zeroTail w.pfa.regions with
      | none => (false, w)
      | some (addr, rs) =>
        (true, { pfa := { w.pfa with regions := rs, regionZeroed := w.pfa.regionZeroed + 1 },
                 mem := w.mem.zeroPage addr,
                 desc := w.desc.setState addr .zeroed })

/-- `add_region`; `pushed` is whether `m_regions.push_back` found room, the region being
dropped when it did not. -/
def addRegion (w : Pmm) (region : VmPageRegion) (pushed : Bool) : Pmm :=
  if pushed then
    { w with pfa := { w.pfa with regions := region :: w.pfa.regions,
                                 freePages := w.pfa.freePages + region.count,
                                 totalPages := w.pfa.totalPages + region.count } }
  else w

/-- `add_reserved`. -/
def addReserved (w : Pmm) (pages : Nat) : Pmm :=
  { w with pfa := { w.pfa with reservedPages := w.pfa.reservedPages + pages,
                               totalPages := w.pfa.totalPages + pages } }

end Pmm

end Archipelago.Mm
