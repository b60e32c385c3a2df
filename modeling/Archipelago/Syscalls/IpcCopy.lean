import Archipelago.Syscalls.Dispatch

/-! Copies between a thread's IPC buffer and kernel memory (`task/ipc_buffer.cpp`,
`syscalls/handle.cpp`). The buffer's frames are not physically contiguous, so
`buffer_write` and `buffer_read` walk a range page by page: `kernel_at` names the frame of
the page holding `offset + done` and what is left of that page, and one `memcpy` moves the
smaller of that and what is left of the range.

A pass depends only on the offset, the length and the cached frames, never on the bytes
moved, so each loop is its list of passes (`copyRuns`) applied in order. After
`contains(offset, length)` the passes tile `[0, length)` in order, each inside one page of
the buffer and at the frame slot of that page, below `m_pages`; so byte `i` of the range
is copied to or from byte `offset + i` of the buffer, and `contains` itself rules out a
range whose end wraps past `2^64`. -/

namespace Archipelago.Syscalls

open Archipelago.Lib
open Archipelago.Mm (Word)

/-- An `ipc_buffer` as its copies see it: `m_pages` and `m_frames`, the physmap address of
each page's frame as `create` cached it. -/
structure IpcFrames where
  buffer : IpcBuffer
  frames : Nat → Nat

/-- One pass of the copy loops: the slot of `m_frames` that `kernel_at` read, the kernel
address it returned, the bytes done before the pass and the bytes the pass copies. -/
structure CopyRun where
  page : Nat
  addr : Nat
  done : Nat
  take : Nat
  deriving DecidableEq, Repr

namespace IpcFrames

/-- `ipc_buffer::kernel_at`: the slot of `m_frames` it reads, the kernel address of `offset`
and, as `run_out`, what is left of its page. -/
def kernelAt (b : IpcFrames) (offset : Nat) : Nat × Nat × Nat :=
  (offset / pageSize, b.frames (offset / pageSize) + offset % pageSize, pageSize - offset % pageSize)

/-- The passes of the loop `buffer_write` and `buffer_read` share, from `done` bytes on, for
at most `fuel` passes: while bytes are left, take the rest of the page at `offset + done` or
the rest of the range. -/
def copyRuns (b : IpcFrames) (offset length : Nat) : Nat → Nat → List CopyRun
  | 0, _ => []
  | fuel + 1, done =>
    if done < length then
      let take := min (b.kernelAt (offset + done)).2.2 (length - done)
      ⟨(b.kernelAt (offset + done)).1, (b.kernelAt (offset + done)).2.1, done, take⟩ ::
        b.copyRuns offset length fuel (done + take)
    else []

/-- `buffer_write(buffer, offset, src, length)`: each pass copies its bytes of `src` to the
address `kernel_at` gave. `length` passes always suffice (`tiles_copyRuns`). -/
def bufferWrite (b : IpcFrames) (mem : Nat → UInt8) (offset : Nat) (src : Nat → UInt8)
    (length : Nat) : Nat → UInt8 :=
  (b.copyRuns offset length length 0).foldl
    (fun mem r => memcpy mem r.addr (fun k => src (r.done + k)) r.take) mem

/-- `buffer_read(buffer, offset, dst, length)`: each pass copies the bytes at the address
`kernel_at` gave into `dst` from `done` on. -/
def bufferRead (b : IpcFrames) (mem : Nat → UInt8) (offset : Nat) (dst : Nat → UInt8)
    (length : Nat) : Nat → UInt8 :=
  (b.copyRuns offset length length 0).foldl
    (fun dst r => memcpy dst r.done (fun k => mem (r.addr + k)) r.take) dst

/-! ### The buffer's bytes -/

/-- Where byte `x` of the buffer lives: in its page's frame, at its offset in the page. -/
def byteAddr (b : IpcFrames) (x : Nat) : Nat := b.frames (x / pageSize) + x % pageSize

/-- The frames of the buffer's pages do not overlap, as the distinct frames of the committed
VMO `create` caches. -/
def FramesDisjoint (b : IpcFrames) : Prop :=
  ∀ i j, i < b.buffer.pages → j < b.buffer.pages → i ≠ j →
    b.frames i + pageSize ≤ b.frames j ∨ b.frames j + pageSize ≤ b.frames i

/-- Distinct bytes of a buffer whose frames do not overlap live at distinct addresses. -/
theorem byteAddr_injective {b : IpcFrames} (hd : b.FramesDisjoint) {x y : Nat}
    (hx : x < b.buffer.sizeBytes) (hy : y < b.buffer.sizeBytes) (h : b.byteAddr x = b.byteAddr y) :
    x = y := by
  simp only [byteAddr, IpcBuffer.sizeBytes, pageSize] at h hx hy
  by_cases hp : x / 0x1000 = y / 0x1000
  · rw [hp] at h
    omega
  · have := hd (x / 0x1000) (y / 0x1000) (by omega) (by omega) hp
    simp only [pageSize] at this
    omega

/-- A run of passes that copies bytes `done` up to `length` in order, each pass at least one
byte and inside one page, at the frame slot of that page and the address of its first byte. -/
def Tiles (b : IpcFrames) (offset : Nat) : List CopyRun → Nat → Nat → Prop
  | [], done, length => done = length
  | r :: rs, done, length =>
    r.done = done ∧ 0 < r.take ∧ r.page = (offset + done) / pageSize ∧
      r.addr = b.byteAddr (offset + done) ∧ (offset + done) % pageSize + r.take ≤ pageSize ∧
      Tiles b offset rs (done + r.take) length

/-- The loop, from `done ≤ length` with a pass of fuel for every byte left, tiles the rest of
the range: it ends by its own test, having copied exactly `length - done` bytes. -/
theorem tiles_copyRuns (b : IpcFrames) (offset length : Nat) :
    ∀ fuel done, done ≤ length → length - done ≤ fuel →
      Tiles b offset (b.copyRuns offset length fuel done) done length
  | 0, done, hle, hfuel => by
    simp only [copyRuns, Tiles]
    omega
  | fuel + 1, done, hle, hfuel => by
    rw [copyRuns]
    split_ifs with hlt
    · have hrun : 0 < pageSize - (offset + done) % pageSize := by
        simp only [pageSize]
        omega
      refine ⟨rfl, by simp only [kernelAt]; omega, rfl, rfl, ?_, ?_⟩
      · simp only [kernelAt]
        omega
      · exact tiles_copyRuns b offset length fuel _ (by simp only [kernelAt]; omega)
          (by simp only [kernelAt]; omega)
    · simp only [Tiles]
      omega

/-- Every pass of a tiling lies inside the range it tiles. -/
theorem Tiles.mem {b : IpcFrames} {offset : Nat} :
    ∀ {rs : List CopyRun} {done length : Nat}, Tiles b offset rs done length → ∀ r ∈ rs,
      done ≤ r.done ∧ 0 < r.take ∧ r.done + r.take ≤ length ∧ r.page = (offset + r.done) / pageSize
  | [], _, _, _, r, hr => by cases hr
  | r' :: rs, done, length, ⟨hd, hpos, hpage, _, _, hrest⟩, r, hr => by
    rcases List.mem_cons.1 hr with rfl | hr
    · have := Tiles.mem.le hrest
      exact ⟨hd.ge, hpos, by omega, by rw [hd]; exact hpage⟩
    · have := Tiles.mem hrest r hr
      omega
where
  /-- A tiling ends at the end of its range. -/
  le : ∀ {rs : List CopyRun} {done length : Nat}, Tiles b offset rs done length → done ≤ length
    | [], _, _, h => Nat.le_of_eq h
    | _ :: _, _, _, ⟨_, hpos, _, _, _, hrest⟩ => by have := le hrest; omega

/-- Byte `k` of a pass is byte `offset + done + k` of the buffer: a pass stays in its page. -/
theorem byteAddr_add {b : IpcFrames} {x k take : Nat} (hin : x % pageSize + take ≤ pageSize)
    (hk : k < take) : b.byteAddr x + k = b.byteAddr (x + k) := by
  simp only [byteAddr, pageSize] at hin ⊢
  have hdiv : (x + k) / 0x1000 = x / 0x1000 := by omega
  have hmod : (x + k) % 0x1000 = x % 0x1000 + k := by omega
  rw [hdiv, hmod, Nat.add_assoc]

/-! ### What the copies move -/

/-- `buffer_read`'s passes leave the bytes of `dst` outside the tiled range alone. -/
theorem foldl_read_of_not_mem {b : IpcFrames} {offset : Nat} (mem : Nat → UInt8) :
    ∀ {rs : List CopyRun} {done length : Nat} (dst : Nat → UInt8), Tiles b offset rs done length →
      ∀ i, (i < done ∨ length ≤ i) →
        rs.foldl (fun dst r => memcpy dst r.done (fun k => mem (r.addr + k)) r.take) dst i = dst i
  | [], _, _, _, _, _, _ => rfl
  | r :: rs, done, length, dst, ⟨hd, _, _, _, _, hrest⟩, i, hi => by
    have hle := Tiles.mem.le hrest
    rw [List.foldl_cons, foldl_read_of_not_mem mem _ hrest i (by omega)]
    exact memcpy_of_not_mem _ (by omega)

/-- `buffer_read`'s passes put byte `offset + i` of the buffer at byte `i` of `dst`. -/
theorem foldl_read {b : IpcFrames} {offset : Nat} (mem : Nat → UInt8) :
    ∀ {rs : List CopyRun} {done length : Nat} (dst : Nat → UInt8), Tiles b offset rs done length →
      ∀ i, done ≤ i → i < length →
        rs.foldl (fun dst r => memcpy dst r.done (fun k => mem (r.addr + k)) r.take) dst i =
          mem (b.byteAddr (offset + i))
  | [], _, _, _, h, i, h₁, h₂ => by simp only [Tiles] at h; omega
  | r :: rs, done, length, dst, ⟨hd, _, _, haddr, hin, hrest⟩, i, h₁, h₂ => by
    rw [List.foldl_cons]
    by_cases hi : i < done + r.take
    · -- byte `i` is this pass's: no later pass writes it
      rw [foldl_read_of_not_mem mem _ hrest i (.inl hi)]
      have hx : b.byteAddr (offset + i) = r.addr + (i - done) := by
        rw [haddr, byteAddr_add hin (by omega : i - done < r.take)]
        congr 1
        omega
      rw [hx, memcpy_of_mem _ (by omega) (by omega), hd]
    · exact foldl_read mem _ hrest i (by omega) h₂

section Write

variable {b : IpcFrames} {offset : Nat} (src : Nat → UInt8)

/-- `buffer_write`'s passes leave every address that is no byte of the tiled range alone. -/
theorem foldl_write_of_ne :
    ∀ {rs : List CopyRun} {done length : Nat} (mem : Nat → UInt8), Tiles b offset rs done length →
      ∀ a, (∀ i, done ≤ i → i < length → a ≠ b.byteAddr (offset + i)) →
        rs.foldl (fun mem r => memcpy mem r.addr (fun k => src (r.done + k)) r.take) mem a = mem a
  | [], _, _, _, _, _, _ => rfl
  | r :: rs, done, length, mem, ⟨hd, _, _, haddr, hin, hrest⟩, a, ha => by
    have hle := Tiles.mem.le hrest
    rw [List.foldl_cons, foldl_write_of_ne _ hrest a (fun i h₁ h₂ => ha i (by omega) h₂)]
    refine memcpy_of_not_mem _ fun ⟨h₁, h₂⟩ => ?_
    -- an address this pass writes is the buffer's byte `offset + done + (a - addr)`
    have hx := byteAddr_add (b := b) hin (by omega : a - r.addr < r.take)
    rw [← haddr, Nat.add_sub_cancel' h₁] at hx
    exact ha (done + (a - r.addr)) (by omega) (by omega)
      (hx.trans (congrArg b.byteAddr (Nat.add_assoc _ _ _)))

/-- Over frames that do not overlap, `buffer_write`'s passes put byte `i` of `src` at byte
`offset + i` of the buffer. -/
theorem foldl_write (hd : b.FramesDisjoint) :
    ∀ {rs : List CopyRun} {done length : Nat} (mem : Nat → UInt8), Tiles b offset rs done length →
      offset + length ≤ b.buffer.sizeBytes → ∀ i, done ≤ i → i < length →
        rs.foldl (fun mem r => memcpy mem r.addr (fun k => src (r.done + k)) r.take) mem
          (b.byteAddr (offset + i)) = src i
  | [], _, _, _, h, _, i, h₁, h₂ => by simp only [Tiles] at h; omega
  | r :: rs, done, length, mem, ⟨hdone, _, _, haddr, hin, hrest⟩, hfit, i, h₁, h₂ => by
    rw [List.foldl_cons]
    by_cases hi : i < done + r.take
    · -- the later passes write other bytes of the buffer, which live elsewhere
      rw [foldl_write_of_ne src _ hrest _ fun j hj₁ hj₂ heq =>
          absurd (byteAddr_injective hd (by omega) (by omega) heq) (by omega)]
      have hx : b.byteAddr (offset + i) = r.addr + (i - done) := by
        rw [haddr, byteAddr_add hin (by omega : i - done < r.take)]
        congr 1
        omega
      rw [hx, memcpy_of_mem _ (Nat.le_add_right _ _) (by omega), Nat.add_sub_cancel_left, hdone]
      congr 1
      omega
    · exact foldl_write hd _ hrest hfit i (by omega) h₂

end Write

/-! ### The copies of a range `contains` accepts -/

/-- `contains(offset, length)`, computed without forming the sum, is the range's end within
the buffer. -/
theorem contains_iff (b : IpcBuffer) (offset length : Nat) :
    b.contains offset length = true ↔ offset + length ≤ b.sizeBytes := by
  simp only [IpcBuffer.contains, Bool.and_eq_true, decide_eq_true_eq]
  constructor
  · rintro ⟨h₁, h₂⟩
    omega
  · intro h
    exact ⟨by omega, by omega⟩

/-- For every IPC buffer of at most `IPC_BUFFER_MAX_PAGES` pages and every range that
`contains(offset, length)` accepts, offset and length any 64-bit values: the range's end does
not wrap; the copy loops end by their test after passes that tile the range in order, each
inside one page and indexing `m_frames` below `m_pages`; `buffer_read` copies byte
`offset + i` of the buffer to byte `i` of its destination; and `buffer_write`, over the
buffer's non-overlapping frames, copies byte `i` of its source to byte `offset + i`. -/
theorem ipc_buffer_copies_exact (b : IpcFrames) (hpages : b.buffer.pages ≤ ipcBufferMaxPages)
    (offset length : Word) (hc : b.buffer.contains offset.toNat length.toNat = true) :
    (offset + length).toNat = offset.toNat + length.toNat ∧
      Tiles b offset.toNat (b.copyRuns offset.toNat length.toNat length.toNat 0) 0 length.toNat ∧
      (∀ r ∈ b.copyRuns offset.toNat length.toNat length.toNat 0,
        r.page < b.buffer.pages ∧ r.page < ipcBufferMaxPages) ∧
      (∀ mem dst, ∀ i < length.toNat,
        b.bufferRead mem offset.toNat dst length.toNat i = mem (b.byteAddr (offset.toNat + i))) ∧
      (b.FramesDisjoint → ∀ mem src, ∀ i < length.toNat,
        b.bufferWrite mem offset.toNat src length.toNat (b.byteAddr (offset.toNat + i)) = src i) := by
  have hfit := (contains_iff _ _ _).1 hc
  have hsize : b.buffer.sizeBytes ≤ 0x10000 := by
    simp only [IpcBuffer.sizeBytes, pageSize, ipcBufferMaxPages] at hpages ⊢
    omega
  have htiles := tiles_copyRuns b offset.toNat length.toNat length.toNat 0 (Nat.zero_le _)
    (Nat.sub_le _ _)
  refine ⟨?_, htiles, fun r hr => ?_, fun mem dst i hi => foldl_read mem dst htiles i (Nat.zero_le _) hi,
    fun hd mem src i hi => foldl_write src hd mem htiles hfit i (Nat.zero_le _) hi⟩
  · rw [BitVec.toNat_add, Nat.mod_eq_of_lt (by omega)]
  · -- a pass's page holds one of the range's bytes, which lie below `size_bytes()`
    obtain ⟨-, hpos, hend, hpage⟩ := htiles.mem r hr
    simp only [IpcBuffer.sizeBytes, pageSize, ipcBufferMaxPages] at hfit hpages hpage ⊢
    omega

/-- A 32-byte range across the edge of the first page of a two-page buffer. -/
theorem ipc_copy_across_page_edge :
    (⟨⟨2⟩, fun i => 0x10000 + i * 0x1000⟩ : IpcFrames).buffer.pages ≤ ipcBufferMaxPages ∧
      (⟨⟨2⟩, fun i => 0x10000 + i * 0x1000⟩ : IpcFrames).buffer.contains
        (0xFF0 : Word).toNat (0x20 : Word).toNat = true ∧
      ((0xFF0 + 0x20 : Word).toNat = (0xFF0 : Word).toNat + (0x20 : Word).toNat ∧
        Tiles ⟨⟨2⟩, fun i => 0x10000 + i * 0x1000⟩ (0xFF0 : Word).toNat
          ((⟨⟨2⟩, fun i => 0x10000 + i * 0x1000⟩ : IpcFrames).copyRuns (0xFF0 : Word).toNat
            (0x20 : Word).toNat (0x20 : Word).toNat 0) 0 (0x20 : Word).toNat ∧
        (∀ r ∈ (⟨⟨2⟩, fun i => 0x10000 + i * 0x1000⟩ : IpcFrames).copyRuns (0xFF0 : Word).toNat
            (0x20 : Word).toNat (0x20 : Word).toNat 0,
          r.page < (⟨⟨2⟩, fun i => 0x10000 + i * 0x1000⟩ : IpcFrames).buffer.pages ∧
            r.page < ipcBufferMaxPages) ∧
        (∀ mem dst, ∀ i < (0x20 : Word).toNat,
          (⟨⟨2⟩, fun i => 0x10000 + i * 0x1000⟩ : IpcFrames).bufferRead mem (0xFF0 : Word).toNat dst
              (0x20 : Word).toNat i =
            mem ((⟨⟨2⟩, fun i => 0x10000 + i * 0x1000⟩ : IpcFrames).byteAddr ((0xFF0 : Word).toNat + i))) ∧
        ((⟨⟨2⟩, fun i => 0x10000 + i * 0x1000⟩ : IpcFrames).FramesDisjoint → ∀ mem src,
          ∀ i < (0x20 : Word).toNat,
            (⟨⟨2⟩, fun i => 0x10000 + i * 0x1000⟩ : IpcFrames).bufferWrite mem (0xFF0 : Word).toNat src
                (0x20 : Word).toNat
              ((⟨⟨2⟩, fun i => 0x10000 + i * 0x1000⟩ : IpcFrames).byteAddr ((0xFF0 : Word).toNat + i)) =
              src i)) :=
  ⟨by decide, by decide, ipc_buffer_copies_exact _ (by decide) 0xFF0 0x20 (by decide)⟩

end IpcFrames

end Archipelago.Syscalls
