import Archipelago.Lib.Mask
import Archipelago.Obj.Types

/-! The memory-management vocabulary (`kernel/mm/paging.h`, `kernel/mm/page.h`): machine
words for addresses and sizes, protection masks, cache modes, the page size and the
translation a page table holds.

`uintptr_t`, `size_t`, `uint64_t` and `vm_paddr_t` are all 64 bits wide, so they are one
type `Word := BitVec 64`: the wrap of `base + size` that the region checks test for is then
the model's own arithmetic. `vm_prot_t` is a 32-bit mask like the object rights. -/

namespace Archipelago.Mm

open Archipelago.Lib

/-- `uintptr_t`, `size_t`, `uint64_t`, `vm_paddr_t`. -/
abbrev Word := BitVec 64

/-- `vm_prot_t`. -/
abbrev VmProt := BitVec 32

namespace vm_prot

def NONE : VmProt := 0
def READ : VmProt := 1 <<< 0
def WRITE : VmProt := 1 <<< 1
def EXECUTE : VmProt := 1 <<< 2
def USER : VmProt := 1 <<< 3

end vm_prot

/-- `vm_cache_mode`. -/
inductive VmCacheMode
  | cached
  | device
  | writeCombining
  deriving DecidableEq, Repr

/-- `KERNEL_MINIMUM_PAGE_SIZE`. -/
def pageSize : Word := 0x1000

/-- `page_aligned` (`mm/region.cpp`). -/
def pageAligned (value : Word) : Bool := value &&& (pageSize - 1) == 0

/-- `prot_within`: `prot` sets no flag `limit` lacks. -/
def protWithin (prot limit : VmProt) : Bool := prot &&& ~~~limit == 0

/-- `stricter_cache`: DEVICE beats WRITE_COMBINING beats CACHED. -/
def stricterCache (a b : VmCacheMode) : VmCacheMode :=
  if a = .device ∨ b = .device then .device
  else if a = .writeCombining ∨ b = .writeCombining then .writeCombining
  else .cached

/-- The architectures the kernel builds for (`kernel/mm/arch_paging.h`). -/
inductive Arch
  | x86_64
  | riscv64
  deriving DecidableEq, Repr

/-- `arch::PT_LEVELS`. -/
def Arch.ptLevels : Arch → Nat
  | x86_64 => 4
  | riscv64 => 3

/-- `arch::VA_BITS`: the bits a walk consumes. -/
def Arch.vaBits (a : Arch) : Nat := 12 + 9 * a.ptLevels

/-- `vm_aspace::low_limit`: the end of the canonical low half. -/
def Arch.lowLimit (a : Arch) : Word := 1 <<< (a.vaBits - 1)

/-- `vm_translation`: what a virtual page resolves to. -/
structure VmTranslation where
  paddr : Word
  prot : VmProt
  cache : VmCacheMode
  deriving DecidableEq, Repr

/-- The offset of an address in its page. -/
theorem toNat_and_pageMask (v : Word) : (v &&& (pageSize - 1)).toNat = v.toNat % 4096 := by
  rw [BitVec.toNat_and]
  exact Nat.and_two_pow_sub_one_eq_mod v.toNat 12

theorem pageAligned_iff (v : Word) : pageAligned v = true ↔ v.toNat % 4096 = 0 := by
  simp only [pageAligned, beq_iff_eq, ← BitVec.toNat_inj, toNat_and_pageMask]
  rfl

theorem protWithin_iff (prot limit : VmProt) : protWithin prot limit = true ↔ Submask prot limit := by
  simp [protWithin, Submask]

/-- Masking a flag off leaves a submask without it. -/
theorem and_not_and_self {w : Nat} (a m : BitVec w) : a &&& ~~~m &&& m = 0 := by
  apply BitVec.eq_of_getLsbD_eq
  intro i _
  simp only [BitVec.getLsbD_and, BitVec.getLsbD_not]
  cases a.getLsbD i <;> cases m.getLsbD i <;> simp

/-- A word is the sum of its bits outside a mask and its bits inside it. -/
theorem toNat_and_not_add_toNat_and {w : Nat} (x m : BitVec w) :
    (x &&& ~~~m).toNat + (x &&& m).toNat = x.toNat := by
  have hdis : (x &&& ~~~m) &&& (x &&& m) = 0 := by
    apply BitVec.eq_of_getLsbD_eq
    intro i _
    simp only [BitVec.getLsbD_and, BitVec.getLsbD_not]
    cases x.getLsbD i <;> cases m.getLsbD i <;> simp
  have hor : (x &&& ~~~m) ||| (x &&& m) = x := by
    apply BitVec.eq_of_getLsbD_eq
    intro i hi
    simp only [BitVec.getLsbD_and, BitVec.getLsbD_not, BitVec.getLsbD_or]
    cases x.getLsbD i <;> cases m.getLsbD i <;> simp [hi]
  rw [← BitVec.toNat_add_of_and_eq_zero hdis, BitVec.add_eq_or_of_and_eq_zero _ _ hdis, hor]

end Archipelago.Mm
