import Mathlib.Data.Int.Init
/-! C's 32-bit integers over `Int` and `Nat`. An `int` holds a value in `[-2^31, 2^31)` and its
arithmetic wraps as two's complement, which is what the kernel's targets do; ISO C++ leaves a
signed overflow undefined, and the kernel is not built with `-fwrapv`, so the wrap is the
model's reading of such an overflow. A `uint32_t` is a `Nat` below `2^32`; converting between
the two keeps the 32 bits. -/

namespace Archipelago.Lib

/-- An `int` result: the value in `[-2^31, 2^31)` congruent to `x` mod `2^32`. -/
def wrapInt32 (x : Int) : Int := (x + 0x80000000) % 0x100000000 - 0x80000000

/-- `static_cast<int>` of a `uint32_t`. -/
def int32OfUInt32 (n : Nat) : Int := wrapInt32 n

/-- `static_cast<uint32_t>` of an `int`. -/
def uint32OfInt32 (v : Int) : Nat := (v % 0x100000000).toNat

/-- `static_cast<uint64_t>` of an `int64_t`. -/
def uint64OfInt64 (v : Int) : Nat := (v % 0x10000000000000000).toNat

/-- `static_cast<uint8_t>` of an `int`. -/
def uint8OfInt (v : Int) : UInt8 := UInt8.ofNat (v % 0x100).toNat

/-- `static_cast<int>(n) - 1`, back as a `uint32_t`, is `n - 1` for every `n` from 1 up, even
where the `int` is negative. -/
theorem uint32OfInt32_pred {n : Nat} (h : 0 < n) (hn : n < 0x100000000) :
    uint32OfInt32 (wrapInt32 (int32OfUInt32 n - 1)) = n - 1 := by
  unfold uint32OfInt32 int32OfUInt32 wrapInt32; omega

/-- A `uint64_t` read of an `int64_t` is below `2^64`. -/
theorem uint64OfInt64_lt (v : Int) : uint64OfInt64 v < 0x10000000000000000 := by
  unfold uint64OfInt64; omega

end Archipelago.Lib
