import Archipelago.Lib.Bytes
import Archipelago.Mm.Types

/-! The pure half of the user-binary loader (`elf/elf_parse.cpp`, `kernel/elf.h`,
`kernel/elf_loader.h`): `header_of` and `parse_image` over a blob of bytes at an address.
Header fields are read little-endian at their offsets in `Elf64_Ehdr` and `Elf64_Phdr`;
the unsigned sums that can wrap (`mapped_bytes`, `extent_wraps`, the running total) are
taken modulo `2^64` as the source computes them.

The loop also returns, as a ghost, the offset of every program header it reads, so the
reads themselves can be checked: all of them lie inside the blob, but only the table's
start is tested for alignment. -/

namespace Archipelago.Elf

open Archipelago.Lib Archipelago.Mm

/-- `KERNEL_MINIMUM_PAGE_SIZE`. -/
def pageSize : Nat := 0x1000

/-- `MAX_SEGMENTS`. -/
def maxSegments : Nat := 8

/-- `MAX_IMAGE_BYTES`. -/
def maxImageBytes : Nat := 64 * 1024 * 1024

/-- `sizeof(Elf64_Ehdr)`. -/
def ehdrSize : Nat := 64

/-- `sizeof(Elf64_Phdr)`. -/
def phdrSize : Nat := 56

/-- `alignof(Elf64_Ehdr)` and `alignof(Elf64_Phdr)`. -/
def structAlign : Nat := 8

/-- `ELF_MAGIC`. -/
def elfMagic : List Nat := [0x7f, 0x45, 0x4c, 0x46]

def elfClass64 : Nat := 2
def elfData2Lsb : Nat := 1
def evCurrent : Nat := 1
def etExec : Nat := 2
def ptLoad : Nat := 1
def ptDynamic : Nat := 2
def ptInterp : Nat := 3
def pfX : Nat := 1
def pfW : Nat := 2

/-- `EM_NATIVE`: `EM_X86_64` or `EM_RISCV`, by the target the kernel is built for. -/
def emNative : Arch → Nat
  | .x86_64 => 62
  | .riscv64 => 243

/-- `elf_error`. -/
inductive ElfError
  | notElf
  | wrongMachine
  | notExecutable
  | dynamic
  | truncated
  | badEntry
  | noSegments
  | tooManySegments
  | wxSegment
  | unalignedSegment
  | badSegment
  | imageTooLarge
  deriving DecidableEq, Repr

/-- The `size` bytes at address `data`. -/
structure Blob where
  addr : Nat
  bytes : List UInt8

namespace Blob

def size (b : Blob) : Nat := b.bytes.length

/-- The `n`-byte field at offset `off`. -/
def read (b : Blob) (off n : Nat) : Nat := readLE b.bytes off n

end Blob

/-- The fields of `Elf64_Ehdr` the parser reads. -/
structure Ehdr where
  type : Nat
  machine : Nat
  entry : Nat
  phoff : Nat
  phentsize : Nat
  phnum : Nat

/-- The fields of `Elf64_Phdr` the parser reads. -/
structure Phdr where
  type : Nat
  flags : Nat
  offset : Nat
  vaddr : Nat
  filesz : Nat
  memsz : Nat

namespace Blob

/-- The header at offset 0. -/
def ehdr (b : Blob) : Ehdr :=
  ⟨b.read 16 2, b.read 18 2, b.read 24 8, b.read 32 8, b.read 54 2, b.read 56 2⟩

/-- The program header at offset `off`. -/
def phdr (b : Blob) (off : Nat) : Phdr :=
  ⟨b.read off 4, b.read (off + 4) 4, b.read (off + 8) 8, b.read (off + 16) 8,
    b.read (off + 32) 8, b.read (off + 40) 8⟩

end Blob

/-- `region_in_bounds`: `[offset, offset + size)` inside `elf_size` bytes, tested without
forming the sum. -/
def regionInBounds (offset size elfSize : Nat) : Bool :=
  decide (offset ≤ elfSize) && decide (size ≤ elfSize - offset)

/-- `header_of`: the header of an ELF64 little-endian image, or nothing. -/
def headerOf (b : Blob) : Option Ehdr :=
  if b.addr = 0 ∨ b.size < ehdrSize then none
  else if b.addr % structAlign ≠ 0 then none
  else if !(List.range 4).all (fun i => b.read i 1 == elfMagic.getD i 0) then none
  else if b.read 4 1 ≠ elfClass64 then none
  else if b.read 5 1 ≠ elfData2Lsb then none
  else if b.read 6 1 ≠ evCurrent then none
  else some b.ehdr

/-- `mapped_bytes`: `memsz` rounded up to pages, or nothing when the rounding wraps. -/
def mappedBytes (memsz : Nat) : Option Nat :=
  let rounded := (memsz + (pageSize - 1)) % 2 ^ 64
  -- `rounded & ~(PAGE_SIZE - 1)`
  if rounded < memsz then none else some (rounded / pageSize * pageSize)

/-- `extent_wraps`. -/
def extentWraps (vaddr memsz : Nat) : Bool :=
  match mappedBytes memsz with
  | none => true
  | some bytes => decide ((vaddr + bytes) % 2 ^ 64 < vaddr)

/-- `check_segment`. -/
def checkSegment (ph : Phdr) (size : Nat) : Except ElfError Unit :=
  if ph.flags &&& pfW ≠ 0 ∧ ph.flags &&& pfX ≠ 0 then .error .wxSegment
  else if ph.vaddr % pageSize ≠ 0 then .error .unalignedSegment
  else if ph.filesz > ph.memsz then .error .badSegment
  else if extentWraps ph.vaddr ph.memsz then .error .badSegment
  else if !regionInBounds ph.offset ph.filesz size then .error .truncated
  else .ok ()

/-- `segment`. -/
structure Segment where
  fileOffset : Nat
  vaddr : Nat
  filesz : Nat
  memsz : Nat
  flags : Nat
  deriving DecidableEq, Repr

/-- `image`: its first `count` segments, and the entry point. -/
structure Image where
  segments : List Segment
  entry : Nat
  deriving DecidableEq, Repr

/-- `entry_covered`. -/
def entryCovered (img : Image) : Bool :=
  img.segments.any fun seg => decide (seg.vaddr ≤ img.entry) && decide (img.entry - seg.vaddr < seg.memsz)

/-- One pass of the loop over the program header `ph`, with the segments collected so far
and the running `total`. -/
def loadPhdr (size : Nat) (ph : Phdr) (acc : List Segment × Nat) :
    Except ElfError (List Segment × Nat) :=
  if ph.type = ptInterp ∨ ph.type = ptDynamic then .error .dynamic
  else if ph.type ≠ ptLoad then .ok acc
  else if ph.memsz = 0 then .ok acc
  else
    match checkSegment ph size with
    | .error e => .error e
    | .ok () =>
      if acc.1.length = maxSegments then .error .tooManySegments
      else
        -- `mapped_bytes(ph.p_memsz).value()`: `check_segment` ruled out the wrap
        let bytes := (mappedBytes ph.memsz).getD 0
        if bytes > maxImageBytes then .error .imageTooLarge
        else
          let total := (acc.2 + bytes) % 2 ^ 64
          if total > maxImageBytes then .error .imageTooLarge
          else .ok (acc.1 ++ [⟨ph.offset, ph.vaddr, ph.filesz, ph.memsz, ph.flags⟩], total)

/-- The loop over the header indices `is`; the second component lists the offsets of the
program headers read, in order. -/
def scan (b : Blob) (hdr : Ehdr) :
    List Nat → List Segment × Nat → Except ElfError (List Segment × Nat) × List Nat
  | [], acc => (.ok acc, [])
  | i :: is, acc =>
    let off := hdr.phoff + i * hdr.phentsize
    match loadPhdr b.size (b.phdr off) acc with
    | .error e => (.error e, [off])
    | .ok acc' =>
      let r := scan b hdr is acc'
      (r.1, off :: r.2)

/-- The checks `parse_image` makes before its loop, on a kernel built for `arch`. -/
def checkHeader (b : Blob) (arch : Arch) : Except ElfError Ehdr :=
  match headerOf b with
  | none => .error .notElf
  | some hdr =>
    if hdr.machine ≠ emNative arch then .error .wrongMachine
    else if hdr.type ≠ etExec then .error .notExecutable
    else if hdr.phoff = 0 ∨ hdr.phentsize < phdrSize then .error .truncated
    else if !regionInBounds hdr.phoff (hdr.phnum * hdr.phentsize) b.size then .error .truncated
    -- the address sum wraps modulo `2^64`, a multiple of 8, so its remainder is this one
    else if (b.addr + hdr.phoff) % structAlign ≠ 0 then .error .truncated
    else .ok hdr

/-- What `parse_image` returns once the loop is done: the segments, unless there are none
or the entry point lies outside all of them. -/
def finish (entry : Nat) : Except ElfError (List Segment × Nat) → Except ElfError Image
  | .error e => .error e
  | .ok (segments, _) =>
    if segments.length = 0 then .error .noSegments
    else if !entryCovered ⟨segments, entry⟩ then .error .badEntry
    else .ok ⟨segments, entry⟩

/-- `parse_image` on a kernel built for `arch`, with the offsets of the program headers it
read. -/
def parseImageTraced (b : Blob) (arch : Arch) : Except ElfError Image × List Nat :=
  match checkHeader b arch with
  | .error e => (.error e, [])
  | .ok hdr =>
    let r := scan b hdr (List.range hdr.phnum) ([], 0)
    (finish hdr.entry r.1, r.2)

/-- `parse_image`. -/
def parseImage (b : Blob) (arch : Arch) : Except ElfError Image := (parseImageTraced b arch).1

/-- The offsets at which `parse_image` read a program header. -/
def phdrReads (b : Blob) (arch : Arch) : List Nat := (parseImageTraced b arch).2

end Archipelago.Elf
