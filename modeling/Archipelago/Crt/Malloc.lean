import Archipelago.Lib.Cyclic

/-! The user-space heap of the C runtime (`lib/crt/malloc.c`): first fit in the manner of K&R
over arenas mapped from anonymous VMOs. The free list is circular, threaded through the headers
of the free blocks from the anchor `g_base`, a block of no units. `free` walks from `g_freep` to
the block's place in address order and links it there, merging it with the free blocks it
touches; `malloc` walks from `g_freep`, takes the first block that fits, the whole of it or its
tail, and maps one more arena with `morecore` when a pass comes back to `g_freep` with nothing.

Only `malloc` and `free` write the headers, so the free list is the cyclic sequence the `next`
links spell, kept from `g_base` on: `ring` holds the addresses of the free blocks in that order
(empty before the first `malloc` links `g_base` to itself), and the `units` field of every header
is memory, a function of the header's address. Addresses are bytes and a `header*` step is
`sizeof(header)` of them; `size_t` arithmetic wraps where the source computes it. The two system
calls of `morecore` are the environment's: each call takes the next outcome, the address the
arena was mapped at or a failure. A walk that would never end gives `none`. -/

namespace Archipelago.Crt

open Archipelago.Lib

/-- `sizeof(header)`: the link and the unit count. -/
def HEADER : Nat := 16

/-- `ARENA_MIN_BYTES`. -/
def ARENA_MIN_BYTES : Nat := 16 * 1024

/-- `ABI_VM_PAGE_SIZE`. -/
def PAGE : Nat := 4096

def SIZE_MAX : Nat := 0xFFFFFFFFFFFFFFFF

/-- The heap's statics and the headers it wrote. -/
structure Heap where
  /-- `&g_base`. -/
  base : Nat
  /-- The free list from `g_base` on, in `next` order. -/
  ring : List Nat
  /-- `g_freep`, 0 for `NULL`. -/
  freep : Nat
  /-- The `units` field of the header at each address. -/
  units : Nat → Nat

/-- `p->next` for a block on the free list: the one after it, back to the first after the last. -/
def succOf (ring : List Nat) (p : Nat) : Nat := cycSucc 0 ring p

/-! ### `free` -/

/-- `free`'s search from `p`, for at most `fuel` blocks, for the block after which `block` goes:
where it lies between a block and the next, or at the wrap of the list. -/
def findSpot (ring : List Nat) (block : Nat) : Nat → Nat → Option Nat
  | 0, _ => none
  | fuel + 1, p =>
    if block > p ∧ block < succOf ring p then some p
    else if p ≥ succOf ring p ∧ (block > p ∨ block < succOf ring p) then some p
    else findSpot ring block fuel (succOf ring p)

/-- The second half of `free` at `p`: `block`, linked after `p` in `ring` with its units, merges
into `p` where `p` ends at it. -/
def coalesceBefore (h : Heap) (ring : List Nat) (units : Nat → Nat) (block p : Nat) : Heap :=
  if p + HEADER * units p = block then
    { h with ring := ring.erase block, units := Function.update units p (units p + units block),
             freep := p }
  else { h with ring := ring, units := units, freep := p }

/-- What `free` does once its search stopped at `p`: link `block` after `p`
(`block->next = p->next; p->next = block`), merging with the block after `p` where `block` ends
at it, then with `p`. -/
def release (h : Heap) (block p : Nat) : Heap :=
  if block + HEADER * h.units block = succOf h.ring p then
    coalesceBefore h ((insertAfter p block h.ring).erase (succOf h.ring p))
      (Function.update h.units block (h.units block + h.units (succOf h.ring p))) block p
  else coalesceBefore h (insertAfter p block h.ring) h.units block p

/-- `free(ptr)`. The search makes one round of the list at most: past that it goes round
again, forever. -/
def free (h : Heap) (ptr : Nat) : Option Heap :=
  if ptr = 0 then some h
  else
    match findSpot h.ring (ptr - HEADER) h.ring.length h.freep with
    | some p => some (release h (ptr - HEADER) p)
    | none => none

/-! ### `malloc` -/

/-- The header units `malloc` asks for, its header included; the sum wraps in `size_t`. -/
def unitsFor (size : Nat) : Nat := (size + HEADER - 1) % 0x10000000000000000 / HEADER + 1

/-- The bytes `morecore` maps for `units`: at least `ARENA_MIN_BYTES`, rounded up to a page, in
`size_t`. -/
def morecoreBytes (units : Nat) : Nat :=
  let bytes := units * HEADER % 0x10000000000000000
  let bytes := if bytes < ARENA_MIN_BYTES then ARENA_MIN_BYTES else bytes
  (bytes + (PAGE - 1)) % 0x10000000000000000 &&& (SIZE_MAX ^^^ (PAGE - 1))

/-- `morecore(units)` once its arena is mapped at `arena`: the arena's one block goes to
`free`. -/
def morecore (h : Heap) (units arena : Nat) : Option Heap :=
  free { h with units := Function.update h.units arena (morecoreBytes units / HEADER) }
    (arena + HEADER)

/-- How a pass of `malloc`'s loop ends. -/
inductive Pass
  /-- A block fit: the heap after carving it, and the pointer returned. -/
  | found (h : Heap) (ptr : Nat)
  /-- Back at `g_freep` with nothing that fits. -/
  | wrapped
  /-- Never back at `g_freep`. -/
  | stuck

/-- One pass of `malloc`'s loop from `prev` and `p`, for at most `fuel` blocks: the first block
with room is taken whole when it fits exactly and loses its tail otherwise, and `g_freep` moves
to the block before it. -/
def pass (h : Heap) (units : Nat) : Nat → Nat → Nat → Pass
  | 0, _, _ => .stuck
  | fuel + 1, prev, p =>
    if h.units p ≥ units then
      if h.units p = units then .found { h with ring := h.ring.erase p, freep := prev } (p + HEADER)
      else
        -- carve the tail so the list stays untouched
        let rest := h.units p - units
        let tail := p + HEADER * rest
        .found { h with units := Function.update (Function.update h.units p rest) tail units,
                        freep := prev } (tail + HEADER)
    else if p = h.freep then .wrapped
    else pass h units fuel p (succOf h.ring p)

/-- `malloc`'s loop from `prev` and `p`, with the outcomes of the `morecore` calls to come: a
pass, and after a pass that wraps an arena and the next pass from the new `g_freep`; `NULL`
when `morecore` fails. The outcomes the loop did not ask for come back with the result. The
list is a prefix of the kernel's answers: where it runs out the loop returns `NULL` as for a
failure, and a prefix of `2^50 + 1` answers the kernel can give holds a failure, at which the
loop has stopped. -/
def mallocLoop (units : Nat) :
    List (Option Nat) → Heap → Nat → Nat → Option (Heap × Nat × List (Option Nat))
  | cores, h, prev, p =>
    match pass h units h.ring.length prev p, cores with
    | .found h' ptr, _ => some (h', ptr, cores)
    | .stuck, _ => none
    | .wrapped, some arena :: cores' =>
      match morecore h units arena with
      | some h' => mallocLoop units cores' h' h'.freep (succOf h'.ring h'.freep)
      | none => none
    | .wrapped, none :: cores' => some (h, 0, cores')
    | .wrapped, [] => some (h, 0, [])

/-- The free list of the first `malloc`: `g_base` alone, linked to itself. -/
def Heap.init (h : Heap) : Heap :=
  { h with ring := [h.base], freep := h.base, units := Function.update h.units h.base 0 }

/-- `malloc(size)`, with the outcomes of its `morecore` calls: the heap, the pointer (0 for
`NULL`) and the outcomes left. -/
def malloc (h : Heap) (size : Nat) (cores : List (Option Nat)) :
    Option (Heap × Nat × List (Option Nat)) :=
  if size = 0 then some (h, 0, cores)
  else
    let h := if h.freep = 0 then h.init else h
    mallocLoop (unitsFor size) cores h h.freep (succOf h.ring h.freep)

/-- A heap before its first `malloc`: `g_base` is zero and `g_freep` is `NULL`. -/
def Heap.boot (base : Nat) : Heap := ⟨base, [], 0, fun _ => 0⟩

/-- A first `malloc(100)` maps a 16 KiB arena and hands out the last eight units of it. -/
example : (malloc (Heap.boot 0x401000) 100 [some 0x20000000]).map (·.2.1) = some 0x20003F90 := rfl

/-- Freeing it merges the tail back: `g_base` and the one arena block of 1024 units. -/
example : ((malloc (Heap.boot 0x401000) 100 [some 0x20000000]).bind (free ·.1 0x20003F90)).map
    (fun h => (h.ring, h.units 0x20000000)) = some ([0x401000, 0x20000000], 1024) := rfl

end Archipelago.Crt
