import Mathlib.Logic.Function.Basic
import Mathlib.Tactic.SplitIfs
import Archipelago.Lib.CInt
/-! The framebuffer terminal's painter (`core/console.cpp`): the character grid in RAM and the
VT-ish escape parser `render` feeds byte by byte. A cell is a byte and two palette indices;
the grid is the array of `rows * cols` cells, here a function of the index, and every store
into it or into `params` is also returned as a `Write`, so the bounds of each store can be
stated. The framebuffer, the shadow grid and the flush that diffs them are left out: nothing
here reads them.

`cols`, `rows`, `cx` and `cy` are `uint32_t` values; the cursor stays below the grid's sizes,
so its increments never wrap, and grid indices are computed in `size_t`, which holds
`rows * cols`. The cursor moves of `dispatch` compute in `int` and are modelled with the wrap
of `Lib.CInt`. The tab loop of `render` does not end when its tab stop is past the last
column; `render` runs it with the fuel it needs when it ends and returns `none` otherwise. -/

namespace Archipelago.Core

open Archipelago.Lib

/-- `cell`: a byte and its 256-colour palette indices. -/
structure Cell where
  ch : UInt8
  fg : UInt8
  bg : UInt8
  deriving DecidableEq, Repr

/-- `DEFAULT_FG`: xterm light grey. -/
def defaultFg : UInt8 := 7

/-- `DEFAULT_BG`: black. -/
def defaultBg : UInt8 := 0

/-- `term::esc`: normal, after ESC, inside a CSI sequence. -/
inductive Esc
  | normal
  | escape
  | csi
  deriving DecidableEq, Repr

/-- A store the painter makes: the grid cells `[lo, hi)`, or slot `i` of `params`. -/
inductive Write
  | grid (lo hi : Nat)
  | param (i : Nat)
  deriving DecidableEq, Repr

/-- `term`'s pen. -/
structure Pen where
  fg : UInt8
  bg : UInt8
  bold : Bool
  reverse : Bool

/-- The pen SGR 0 and a bare `CSI m` reset to. -/
def Pen.reset : Pen := ⟨defaultFg, defaultBg, false, false⟩

/-- The pen colour `(n == 38 ? t.fg : t.bg) = idx` sets. -/
def Pen.setColour (p : Pen) (isFg : Bool) (idx : UInt8) : Pen :=
  if isFg then { p with fg := idx } else { p with bg := idx }

/-- `term`, without the framebuffer and the shadow grid. -/
structure Term where
  cols : Nat
  rows : Nat
  cx : Nat
  cy : Nat
  grid : Nat → Cell
  dirty : Bool
  hold : Bool
  pen : Pen
  esc : Esc
  params : Nat → Int
  nparams : Nat
  cur : Int
  haveCur : Bool
  priv : Nat

/-- `clampi`. -/
def clampi (v lo hi : Int) : Int := if v < lo then lo else if v > hi then hi else v

/-- `(n ? n : 1)`: a parameter 0 counts as 1. -/
def orOne (n : Int) : Int := if n ≠ 0 then n else 1

/-- A cursor coordinate set from an `int`:
`static_cast<uint32_t>(clampi(v, 0, static_cast<int>(limit) - 1))`. -/
def clampCoord (v : Int) (limit : Nat) : Nat :=
  uint32OfInt32 (clampi v 0 (wrapInt32 (int32OfUInt32 limit - 1)))

/-- `rgb_to_256`: the nearest cube colour, `(v * 5 + 127) / 255` per channel, truncating. -/
def rgbTo256 (r g b : Int) : UInt8 :=
  let q := fun v : Int => (wrapInt32 (wrapInt32 (v * 5) + 127)).tdiv 255
  uint8OfInt (16 + 36 * q r + 6 * q g + q b)

namespace Term

/-- `init`'s state for a grid of `cols` by `rows` cells: blank on black, the pen reset, the
parser idle; `params` is zero as the global `t` starts. -/
def init (cols rows : Nat) : Term :=
  { cols, rows, cx := 0, cy := 0, grid := fun _ => ⟨0x20, defaultFg, defaultBg⟩, dirty := false,
    hold := false, pen := Pen.reset, esc := .normal, params := fun _ => 0, nparams := 0, cur := 0,
    haveCur := false, priv := 0 }

/-- `blank_cell`: a space in the default foreground on the current background. -/
def blankCell (t : Term) : Cell := ⟨0x20, defaultFg, t.pen.bg⟩

/-- `scroll`: `memmove` the rows up by one, then blank the last row. -/
def scroll (t : Term) : Term × List Write :=
  ({ t with
     grid := fun i =>
       if i < (t.rows - 1) * t.cols then t.grid (i + t.cols)
       else if i < (t.rows - 1) * t.cols + t.cols then t.blankCell else t.grid i,
     dirty := true },
   [.grid 0 ((t.rows - 1) * t.cols), .grid ((t.rows - 1) * t.cols) ((t.rows - 1) * t.cols + t.cols)])

/-- `newline`: a line break is CR+LF, scrolling at the bottom. -/
def newline (t : Term) : Term × List Write :=
  if t.cy + 1 ≥ t.rows then
    let r := ({ t with cx := 0, cy := t.cy + 1 } : Term).scroll
    ({ r.1 with cy := t.rows - 1 }, r.2)
  else ({ t with cx := 0, cy := t.cy + 1 }, [])

/-- `put`: the byte in the pen's colours at the cursor, bold brightening the low eight,
reverse swapping; the cursor advances and wraps. -/
def put (t : Term) (ch : UInt8) : Term × List Write :=
  let fg := if t.pen.bold && decide (t.pen.fg < 8) then t.pen.fg + 8 else t.pen.fg
  let cell : Cell := if t.pen.reverse then ⟨ch, t.pen.bg, fg⟩ else ⟨ch, fg, t.pen.bg⟩
  let i := t.cy * t.cols + t.cx
  let t' := { t with grid := Function.update t.grid i cell, dirty := true, cx := t.cx + 1 }
  if t'.cx ≥ t'.cols then
    let r := t'.newline
    (r.1, .grid i (i + 1) :: r.2)
  else (t', [.grid i (i + 1)])

/-- `erase_cells`: blank `[lo, hi)`. -/
def eraseCells (t : Term) (lo hi : Nat) : Term × List Write :=
  ({ t with grid := fun i => if lo ≤ i ∧ i < hi then t.blankCell else t.grid i, dirty := true },
   [.grid lo hi])

/-- `param`: parameter `i`, or the default when fewer were given. -/
def param (t : Term) (i : Nat) (dflt : Int) : Int := if i < t.nparams then t.params i else dflt

/-- One SGR parameter of `do_sgr`'s loop, at `i`: the pen after it. -/
def sgrParam (t : Term) (i : Nat) : Pen :=
  let p := t.pen
  let n := t.params i
  if n = 0 then Pen.reset
  else if n = 1 then { p with bold := true }
  else if n = 22 then { p with bold := false }
  else if n = 7 then { p with reverse := true }
  else if n = 27 then { p with reverse := false }
  else if 30 ≤ n ∧ n ≤ 37 then { p with fg := uint8OfInt (n - 30) }
  else if n = 39 then { p with fg := defaultFg }
  else if 40 ≤ n ∧ n ≤ 47 then { p with bg := uint8OfInt (n - 40) }
  else if n = 49 then { p with bg := defaultBg }
  else if 90 ≤ n ∧ n ≤ 97 then { p with fg := uint8OfInt (n - 90 + 8) }
  else if 100 ≤ n ∧ n ≤ 107 then { p with bg := uint8OfInt (n - 100 + 8) }
  else if (n = 38 ∨ n = 48) ∧ i + 2 < t.nparams ∧ t.params (i + 1) = 5 then
    p.setColour (n = 38) (uint8OfInt (t.params (i + 2)))
  else if (n = 38 ∨ n = 48) ∧ i + 4 < t.nparams ∧ t.params (i + 1) = 2 then
    p.setColour (n = 38) (rgbTo256 (t.params (i + 2)) (t.params (i + 3)) (t.params (i + 4)))
  else p

/-- How far `do_sgr`'s `i` moves past parameter `i`: the loop's `++i`, after the `i += 2` of
`38;5;n` and the `i += 4` of `38;2;r;g;b` (a parameter 38 or 48 matches no branch before
those two). -/
def sgrSkip (t : Term) (i : Nat) : Nat :=
  if (t.params i = 38 ∨ t.params i = 48) ∧ i + 2 < t.nparams ∧ t.params (i + 1) = 5 then 3
  else if (t.params i = 38 ∨ t.params i = 48) ∧ i + 4 < t.nparams ∧ t.params (i + 1) = 2 then 5
  else 1

theorem sgrSkip_pos (t : Term) (i : Nat) : 0 < t.sgrSkip i := by
  unfold sgrSkip
  split_ifs <;> decide

/-- `do_sgr`'s loop from parameter `i`: the pen it leaves. -/
def sgrLoop (t : Term) (i : Nat) : Pen :=
  if i < t.nparams then ({ t with pen := t.sgrParam i } : Term).sgrLoop (i + t.sgrSkip i)
  else t.pen
termination_by t.nparams - i
decreasing_by
  have := sgrSkip_pos t i
  omega

/-- `do_sgr`: a bare `CSI m` resets the pen. -/
def doSgr (t : Term) : Term := { t with pen := if t.nparams = 0 then Pen.reset else t.sgrLoop 0 }

/-- `dispatch`: a private-mode sequence only toggles synchronized output; the others move the
cursor, erase or set the pen. -/
def dispatch (t : Term) (final : UInt8) : Term × List Write :=
  if t.priv ≠ 0 then
    (if t.priv = 0x3f ∧ t.param 0 0 = 2026 ∧ (final = 0x68 ∨ final = 0x6c) then
      { t with hold := decide (final = 0x68) } else t, [])
  else
    match Char.ofNat final.toNat with
    | 'H' | 'f' =>
      ({ t with cy := clampCoord (wrapInt32 (orOne (t.param 0 1) - 1)) t.rows,
                cx := clampCoord (wrapInt32 (orOne (t.param 1 1) - 1)) t.cols }, [])
    | 'A' => ({ t with cy := clampCoord (wrapInt32 (int32OfUInt32 t.cy - orOne (t.param 0 1))) t.rows }, [])
    | 'B' => ({ t with cy := clampCoord (wrapInt32 (int32OfUInt32 t.cy + orOne (t.param 0 1))) t.rows }, [])
    | 'C' => ({ t with cx := clampCoord (wrapInt32 (int32OfUInt32 t.cx + orOne (t.param 0 1))) t.cols }, [])
    | 'D' => ({ t with cx := clampCoord (wrapInt32 (int32OfUInt32 t.cx - orOne (t.param 0 1))) t.cols }, [])
    | 'G' => ({ t with cx := clampCoord (wrapInt32 (orOne (t.param 0 1) - 1)) t.cols }, [])
    | 'd' => ({ t with cy := clampCoord (wrapInt32 (orOne (t.param 0 1) - 1)) t.rows }, [])
    | 'J' =>
      let total := t.rows * t.cols
      let cursor := t.cy * t.cols + t.cx
      if t.param 0 0 = 0 then t.eraseCells cursor total
      else if t.param 0 0 = 1 then t.eraseCells 0 (cursor + 1)
      else t.eraseCells 0 total
    | 'K' =>
      let row := t.cy * t.cols
      if t.param 0 0 = 0 then t.eraseCells (row + t.cx) (row + t.cols)
      else if t.param 0 0 = 1 then t.eraseCells row (row + t.cx + 1)
      else t.eraseCells row (row + t.cols)
    | 'm' => (t.doSgr, [])
    | _ => (t, [])

/-- `t.params[t.nparams++] = t.cur`. -/
def storeParam (t : Term) : Term × List Write :=
  ({ t with params := Function.update t.params t.nparams t.cur, nparams := t.nparams + 1 },
   [.param t.nparams])

/-- `csi_byte`: a private marker first, digits into `cur`, `;` ending a parameter, a final
byte ending the sequence; intermediate bytes are skipped. -/
def csiByte (t : Term) (c : UInt8) : Term × List Write :=
  if t.nparams = 0 ∧ t.haveCur = false ∧ 0x3c ≤ c ∧ c ≤ 0x3f then ({ t with priv := c.toNat }, [])
  else if 0x30 ≤ c ∧ c ≤ 0x39 then
    ({ t with cur := wrapInt32 (wrapInt32 (t.cur * 10) + (c.toNat - 0x30 : Nat)), haveCur := true }, [])
  else if c = 0x3b then
    let r := if t.nparams < 16 then t.storeParam else (t, [])
    ({ r.1 with cur := 0, haveCur := false }, r.2)
  else if 0x40 ≤ c ∧ c ≤ 0x7e then
    let r := if t.haveCur = true ∧ t.nparams < 16 then t.storeParam else (t, [])
    let d := r.1.dispatch c
    ({ d.1 with esc := .normal }, r.2 ++ d.2)
  else (t, [])

/-- `render`'s tab loop: `put(' ')` while the cursor is before the stop and inside the row;
`none` once the fuel runs out. -/
def tabFill (next : Nat) : Nat → Term → Option Term × List Write
  | 0, _ => (none, [])
  | fuel + 1, t =>
    if t.cx < next ∧ t.cx < t.cols then
      let r := t.put 0x20
      let s := tabFill next fuel r.1
      (s.1, r.2 ++ s.2)
    else (some t, [])

/-- The tab loop's longest run when it ends: eight spaces and the test that stops it. -/
def tabFuel : Nat := 9

/-- `(t.cx & ~7u) + 8` in `uint32_t`. -/
def tabStop (t : Term) : Nat := (t.cx / 8 * 8 + 8) % 0x100000000

/-- `render`: one byte through the escape parser or onto the grid; `none` where the tab loop
never returns. -/
def render (t : Term) (c : UInt8) : Option Term × List Write :=
  match t.esc with
  | .escape =>
    if c = 0x5b then (some { t with esc := .csi, nparams := 0, cur := 0, haveCur := false, priv := 0 }, [])
    else (some { t with esc := .normal }, [])
  | .csi =>
    let r := t.csiByte c
    (some r.1, r.2)
  | .normal =>
    if c = 0x1b then (some { t with esc := .escape }, [])
    else if c = 0x0a then
      let r := t.newline
      (some r.1, r.2)
    else if c = 0x0d then (some { t with cx := 0 }, [])
    else if c = 0x08 then (some (if t.cx > 0 then { t with cx := t.cx - 1 } else t), [])
    else if c = 0x09 then tabFill t.tabStop tabFuel t
    else if c < 0x20 then (some t, [])
    else
      let r := t.put c
      (some r.1, r.2)

end Term

/-- The painter fed one byte: once it is stuck in a tab loop nothing more is rendered. -/
def feed : Option Term → UInt8 → Option Term × List Write
  | none, _ => (none, [])
  | some t, c => t.render c

end Archipelago.Core
