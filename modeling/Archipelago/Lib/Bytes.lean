import Mathlib

/-! Little-endian fields of a byte string, as a C struct laid over the bytes reads them: the
`n`-byte field at offset `off` is `∑ j < n, bytes[off + j] * 256 ^ j`. A byte past the end
reads as zero, so the reader is total; a parser that checks its bounds never reaches one.
A memory, a function from addresses to bytes, is read and written the same way, and
`memset` fills a range of it; a load sees a store or a fill exactly where their ranges meet.
The other way round, a 64-bit word packed from two 32-bit halves is their sum. -/

namespace Archipelago.Lib

/-- The little-endian number in the `n` bytes from `off`. -/
def readLE (bytes : List UInt8) (off : Nat) : Nat → Nat
  | 0 => 0
  | n + 1 => (bytes.getD off 0).toNat + 256 * readLE bytes (off + 1) n

/-- An `n`-byte field holds less than `256 ^ n`. -/
theorem readLE_lt (bytes : List UInt8) (off : Nat) : ∀ n, readLE bytes off n < 256 ^ n
  | 0 => by simp [readLE]
  | n + 1 => by
    have hb := (bytes.getD off 0).toNat_lt
    have ih := readLE_lt bytes (off + 1) n
    have hmul : 256 * readLE bytes (off + 1) n + 256 ≤ 256 ^ n * 256 := by
      rw [Nat.mul_comm (256 ^ n)]
      exact Nat.mul_le_mul_left _ ih
    rw [readLE, Nat.pow_succ]
    omega

/-- The little-endian number in the `n` bytes of a memory from `addr`: a field of a struct
the memory holds there. -/
def loadLE (mem : Nat → UInt8) (addr : Nat) : Nat → Nat
  | 0 => 0
  | n + 1 => (mem addr).toNat + 256 * loadLE mem (addr + 1) n

/-- A store of the low `n` bytes of `v` from `addr`, little-endian. -/
def storeLE (mem : Nat → UInt8) (addr v : Nat) : Nat → Nat → UInt8
  | 0 => mem
  | n + 1 => storeLE (Function.update mem addr (UInt8.ofNat v)) (addr + 1) (v / 256) n

/-- `memcpy(dst, src, n)` into a memory: byte `k < n` of `src` lands at `dst + k`. -/
def memcpy (mem : Nat → UInt8) (dst : Nat) (src : Nat → UInt8) (n : Nat) : Nat → UInt8 :=
  fun a => if dst ≤ a ∧ a < dst + n then src (a - dst) else mem a

theorem memcpy_of_mem {mem : Nat → UInt8} {dst n a : Nat} (src : Nat → UInt8) (h₁ : dst ≤ a)
    (h₂ : a < dst + n) : memcpy mem dst src n a = src (a - dst) := if_pos ⟨h₁, h₂⟩

theorem memcpy_of_not_mem {mem : Nat → UInt8} {dst n a : Nat} (src : Nat → UInt8)
    (h : ¬(dst ≤ a ∧ a < dst + n)) : memcpy mem dst src n a = mem a := if_neg h

/-- `memset(dst, v, n)` on a memory. -/
def memset (mem : Nat → UInt8) (dst : Nat) (v : UInt8) (n : Nat) : Nat → UInt8 :=
  fun a => if dst ≤ a ∧ a < dst + n then v else mem a

theorem memset_of_mem {mem : Nat → UInt8} {dst n a : Nat} (v : UInt8) (h₁ : dst ≤ a)
    (h₂ : a < dst + n) : memset mem dst v n a = v := if_pos ⟨h₁, h₂⟩

theorem memset_of_not_mem {mem : Nat → UInt8} {dst n a : Nat} (v : UInt8)
    (h : a < dst ∨ dst + n ≤ a) : memset mem dst v n a = mem a := if_neg (by omega)

/-- A store leaves every byte outside its range alone. -/
theorem storeLE_of_not_mem {addr n a : Nat} (h : a < addr ∨ addr + n ≤ a) :
    ∀ {mem : Nat → UInt8} {v}, storeLE mem addr v n a = mem a := by
  induction n generalizing addr with
  | zero => intro mem v; rfl
  | succ n ih =>
    intro mem v
    rw [storeLE, ih (by omega), Function.update_of_ne (by omega)]

/-- Storing zero is filling with zero bytes. -/
theorem storeLE_zero (mem : Nat → UInt8) (addr n : Nat) : storeLE mem addr 0 n = memset mem addr 0 n := by
  induction n generalizing mem addr with
  | zero =>
    funext a
    simp [storeLE, memset]
  | succ n ih =>
    funext a
    rw [storeLE, Nat.zero_div, ih]
    by_cases ha : a = addr
    · subst ha
      simp [memset]
    · simp only [memset, Function.update_of_ne ha]
      split_ifs <;> first | rfl | omega

/-- A load reads only its own bytes. -/
theorem loadLE_congr {mem mem' : Nat → UInt8} {addr : Nat} :
    ∀ {n}, (∀ k < n, mem' (addr + k) = mem (addr + k)) → loadLE mem' addr n = loadLE mem addr n := by
  intro n
  induction n generalizing addr with
  | zero => intro _; rfl
  | succ n ih =>
    intro h
    have h0 := h 0 (by omega)
    have hrest : ∀ k < n, mem' (addr + 1 + k) = mem (addr + 1 + k) := fun k hk => by
      have := h (k + 1) (by omega)
      rwa [← Nat.add_assoc, Nat.add_right_comm] at this
    rw [loadLE, loadLE, ih hrest]
    simpa using congrArg (fun b => b.toNat + 256 * loadLE mem (addr + 1) n) h0

theorem loadLE_lt (mem : Nat → UInt8) (addr : Nat) : ∀ n, loadLE mem addr n < 256 ^ n := by
  intro n
  induction n generalizing addr with
  | zero => simp [loadLE]
  | succ n ih =>
    have hb := (mem addr).toNat_lt
    have := ih (addr + 1)
    rw [loadLE, Nat.pow_succ]
    omega

theorem loadLE_storeLE_of_disjoint {mem : Nat → UInt8} {a b n m v : Nat}
    (h : a + n ≤ b ∨ b + m ≤ a) :
    loadLE (storeLE mem a v n) b m = loadLE mem b m :=
  loadLE_congr fun k hk => storeLE_of_not_mem (by omega)

/-- A load of what was just stored reads the stored value's low bytes. -/
theorem loadLE_storeLE_self (a : Nat) :
    ∀ (n : Nat) (mem : Nat → UInt8) (v : Nat), loadLE (storeLE mem a v n) a n = v % 256 ^ n := by
  intro n
  induction n generalizing a with
  | zero => intro mem v; simp [loadLE, Nat.mod_one]
  | succ n ih =>
    intro mem v
    rw [storeLE, loadLE, ih, storeLE_of_not_mem (by omega), Function.update_self, UInt8.toNat_ofNat',
      show (2 : Nat) ^ 8 = 256 from rfl, Nat.pow_succ', Nat.mod_mul]

theorem loadLE_memset_of_disjoint {mem : Nat → UInt8} {a b n m : Nat} (v : UInt8)
    (h : a + n ≤ b ∨ b + m ≤ a) :
    loadLE (memset mem a v n) b m = loadLE mem b m :=
  loadLE_congr fun k hk => memset_of_not_mem v (by omega)

theorem loadLE_zero_of_forall {mem : Nat → UInt8} {b : Nat} :
    ∀ {m}, (∀ k < m, mem (b + k) = 0) → loadLE mem b m = 0 := by
  intro m
  induction m generalizing b with
  | zero => intro _; rfl
  | succ m ih =>
    intro h
    have hrest : ∀ k < m, mem (b + 1 + k) = 0 := fun k hk => by
      have := h (k + 1) (by omega)
      rwa [← Nat.add_assoc, Nat.add_right_comm] at this
    rw [loadLE, ih hrest]
    have h0 : mem b = 0 := by simpa using h 0 (by omega)
    simp [h0]

/-- Two 32-bit fields laid side by side in a 64-bit word, as `low | (high << 32)` forms it. -/
theorem toNat_or_shiftLeft {a b : Nat} (ha : a < 2 ^ 32) (hb : b < 2 ^ 32) :
    (BitVec.ofNat 64 a ||| BitVec.ofNat 64 b <<< 32).toNat = a + b * 2 ^ 32 := by
  have hb' : b * 2 ^ 32 < 2 ^ 64 := by omega
  rw [BitVec.toNat_or, BitVec.toNat_shiftLeft, BitVec.toNat_ofNat, BitVec.toNat_ofNat,
    Nat.mod_eq_of_lt (by omega : a < 2 ^ 64), Nat.mod_eq_of_lt (by omega : b < 2 ^ 64),
    Nat.shiftLeft_eq, Nat.mod_eq_of_lt hb', Nat.lor_comm, Nat.mul_comm, ← Nat.two_pow_add_eq_or_of_lt ha]
  omega

end Archipelago.Lib
