import Archipelago.Lib.CStr

/-! The crash path's demangler (`crash/demangle.cpp`): the bounded writer `sym_writer`,
`read_source_name` and `demangle`, over the C strings of `Lib.CStr`: `p++` is `List.tail` and
`p += len` is `List.drop len`. The output span is a list whose length is `out.size()`, stored
into with `List.set`. `len` is a `size_t`, so the digit loop accumulates it modulo `2^64`.

A round of the `while (true)` loop that does not break reads a length and a nonempty name, so
the loop ends after at most one round per byte of the name; `demangleLoop` is given that many
rounds of fuel, and `demangleLoop_fuel` in `DemangleSpec` shows that no run uses them up. -/

namespace Archipelago.Crash

open Archipelago.Lib

/-- The bytes of an ASCII literal. -/
def ascii (s : String) : List UInt8 := s.toList.map Char.toUInt8

/-- `sym_writer`: the span, the next free position, and whether every byte fit. -/
structure SymWriter where
  out : List UInt8
  pos : Nat
  ok : Bool
  deriving DecidableEq, Repr

namespace SymWriter

/-- `sym_writer w{out}`. -/
def init (out : List UInt8) : SymWriter := ⟨out, 0, true⟩

/-- `put(char)`: a byte is stored only while one is left over for the NUL. -/
def put (w : SymWriter) (c : UInt8) : SymWriter :=
  if w.pos + 1 ≥ w.out.length then { w with ok := false }
  else { w with out := w.out.set w.pos c, pos := w.pos + 1 }

/-- `put(string_view)`. -/
def putView (w : SymWriter) : List UInt8 → SymWriter
  | [] => w
  | c :: s => (w.put c).putView s

/-- `finish()`: the NUL, and whether the whole name fit. -/
def finish (w : SymWriter) : SymWriter × Bool :=
  if w.ok then ({ w with out := w.out.set w.pos 0 }, true) else (w, false)

theorem put_of_lt {w : SymWriter} (h : w.pos + 1 < w.out.length) (c : UInt8) :
    w.put c = { w with out := w.out.set w.pos c, pos := w.pos + 1 } :=
  if_neg (Nat.not_le.mpr h)

theorem put_of_le {w : SymWriter} (h : w.out.length ≤ w.pos + 1) (c : UInt8) :
    w.put c = { w with ok := false } :=
  if_pos h

theorem finish_of_ok {w : SymWriter} (h : w.ok = true) :
    w.finish = ({ w with out := w.out.set w.pos 0 }, true) :=
  if_pos h

theorem finish_of_not_ok {w : SymWriter} (h : w.ok = false) : w.finish = (w, false) :=
  if_neg (by rw [h]; decide)

@[simp] theorem putView_nil (w : SymWriter) : w.putView [] = w := rfl

theorem putView_cons (w : SymWriter) (c : UInt8) (s : List UInt8) :
    w.putView (c :: s) = (w.put c).putView s := rfl

end SymWriter

/-- The digit loop of `read_source_name`: `len = len * 10 + (*p - '0'); p++`. -/
def readLength (len : Nat) : List UInt8 → Nat × List UInt8
  | [] => (len, [])
  | c :: p =>
    if isDigit c then readLength ((len * 10 + digitVal c) % 0x10000000000000000) p
    else (len, c :: p)

/-- The scan `for (i < len) if (p[i] == '\0') return nothing;`: whether a NUL comes within
`len` bytes. -/
def nulWithin (p : List UInt8) : Nat → Bool
  | 0 => false
  | n + 1 => peek p == 0 || nulWithin p.tail n

/-- `read_source_name`: the name and the pointer past it, or `nothing` on a missing or zero
length or on one that runs past the NUL. -/
def readSourceName (p : List UInt8) : Option (List UInt8 × List UInt8) :=
  if !isDigit (peek p) then none
  else
    let (len, p) := readLength 0 p
    if len = 0 then none
    else if nulWithin p len then none
    else some (p.take len, p.drop len)

/-- `_GLOBAL__N_1`, the source name of an anonymous namespace. -/
def globalAnon : List UInt8 := ascii "_GLOBAL__N_1"

/-- What `demangle` writes for a component. -/
def display (name : List UInt8) : List UInt8 :=
  if name = globalAnon then ascii "(anonymous namespace)" else name

/-- The `while (true)` loop of `demangle`, from the pointer `p`: the writer, and `true` at a
`break` or `false` at `return false`. -/
def demangleLoop (nested : Bool) : Nat → List UInt8 → Bool → SymWriter → SymWriter × Bool
  | 0, _, _, w => (w, false)
  | fuel + 1, p, first, w =>
    if nested && peek p == 'E'.toUInt8 then (w, true)
    else if !nested && !first then (w, true)
    else
      match readSourceName p with
      | none => (w, false)
      | some (name, p) =>
        let w := if !first then w.putView (ascii "::") else w
        demangleLoop nested fuel p false (w.putView (display name))

/-- `demangle(mangled, out)`: the result, and the bytes of the span afterwards. -/
def demangle (mangled : Option (List UInt8)) (out : List UInt8) : Bool × List UInt8 :=
  match mangled with
  | none => (false, out)
  | some s =>
    if out.length < 4 then (false, out)
    else if !(ascii "_Z").isPrefixOf (cstr s) then (false, out)
    else
      let p := s.drop 2
      let nested := peek p == 'N'.toUInt8
      let p := if nested then p.tail else p
      match demangleLoop nested (p.length + 1) p true (SymWriter.init out) with
      | (w, false) => (false, w.out)
      | (w, true) =>
        let (w, ok) := (w.putView (ascii "()")).finish
        (ok, w.out)

/-! The equations that the proofs rewrite with, so that none of them unfolds a definition. -/

theorem readLength_cons (len : Nat) (c : UInt8) (p : List UInt8) :
    readLength len (c :: p) =
      if isDigit c then readLength ((len * 10 + digitVal c) % 0x10000000000000000) p
      else (len, c :: p) := rfl

theorem nulWithin_zero (p : List UInt8) : nulWithin p 0 = false := rfl

theorem nulWithin_succ (p : List UInt8) (n : Nat) :
    nulWithin p (n + 1) = (peek p == 0 || nulWithin p.tail n) := rfl

theorem readSourceName_eq (p : List UInt8) :
    readSourceName p =
      if !isDigit (peek p) then none
      else
        let (len, p) := readLength 0 p
        if len = 0 then none
        else if nulWithin p len then none
        else some (p.take len, p.drop len) := rfl

theorem demangleLoop_zero (nested : Bool) (p : List UInt8) (first : Bool) (w : SymWriter) :
    demangleLoop nested 0 p first w = (w, false) := rfl

theorem demangleLoop_succ (nested : Bool) (fuel : Nat) (p : List UInt8) (first : Bool)
    (w : SymWriter) :
    demangleLoop nested (fuel + 1) p first w =
      if nested && peek p == 'E'.toUInt8 then (w, true)
      else if !nested && !first then (w, true)
      else
        match readSourceName p with
        | none => (w, false)
        | some (name, p) =>
          let w := if !first then w.putView (ascii "::") else w
          demangleLoop nested fuel p false (w.putView (display name)) := rfl

theorem demangle_some (s out : List UInt8) :
    demangle (some s) out =
      if out.length < 4 then (false, out)
      else if !(ascii "_Z").isPrefixOf (cstr s) then (false, out)
      else
        let p := s.drop 2
        let nested := peek p == 'N'.toUInt8
        let p := if nested then p.tail else p
        match demangleLoop nested (p.length + 1) p true (SymWriter.init out) with
        | (w, false) => (false, w.out)
        | (w, true) =>
          let (w, ok) := (w.putView (ascii "()")).finish
          (ok, w.out) := rfl

example : demangle (some (ascii "_ZN6kernel5shell10shell_mainEv")) (List.replicate 30 0) =
    (true, ascii "kernel::shell::shell_main()" ++ List.replicate 3 0) := by decide

set_option maxRecDepth 2000 in
example : demangle (some (ascii "_ZN12_GLOBAL__N_112execute_testERN6kernel5shell11ShellOutputE"))
    (List.replicate 40 0) =
    (true, ascii "(anonymous namespace)::execute_test()" ++ List.replicate 3 0) := rfl

example : (demangle (some (ascii "_ZN6kernelD1Ev")) (List.replicate 64 0)).1 = false := rfl

end Archipelago.Crash
