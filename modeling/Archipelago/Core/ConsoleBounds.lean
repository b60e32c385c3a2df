import Mathlib.Tactic.SplitIfs
import Archipelago.Lib.Run
import Archipelago.Core.Console
/-! The painter stays inside its grid. `Term.Inv` is the cursor inside a grid whose sizes fit
a `uint32_t` and at most sixteen parameters stored; `Keeps` says what one call of the painter
may do from a state with the invariant: keep the sizes and the invariant, and store only into
the grid's `rows * cols` cells and below `params[16]`. Each function of `console.cpp` gets
its `Keeps` lemma, citing those of the functions it calls, and `feed_bounded` carries the
invariant over every byte sequence from `init`'s state. -/

namespace Archipelago.Core

open Archipelago.Lib

/-- `g_palette[256]`: the palette a cell's colours index. -/
def paletteSize : Nat := 256

/-- A store inside a grid of `cols` by `rows` cells, or inside `params[16]`. -/
def Write.Within (cols rows : Nat) : Write → Prop
  | .grid _ hi => hi ≤ rows * cols
  | .param i => i < 16

theorem row_end_le {y rows : Nat} (cols : Nat) (hy : y < rows) : y * cols + cols ≤ rows * cols :=
  calc y * cols + cols = (y + 1) * cols := (Nat.succ_mul y cols).symm
    _ ≤ rows * cols := Nat.mul_le_mul_right cols hy

theorem cell_index_lt {x y cols rows : Nat} (hx : x < cols) (hy : y < rows) :
    y * cols + x < rows * cols :=
  Nat.lt_of_lt_of_le (Nat.add_lt_add_left hx _) (row_end_le cols hy)

/-- `static_cast<uint32_t>(clampi(v, 0, static_cast<int>(limit) - 1))` is a coordinate below
`limit`, for every `int` `v` and every `uint32_t` limit from 1 up: past `INT_MAX` the upper
bound is negative, and `clampi` then returns it, which converts back to `limit - 1`. -/
theorem clampCoord_lt (v : Int) {limit : Nat} (h0 : 0 < limit) (h : limit < 0x100000000) :
    clampCoord v limit < limit := by
  unfold clampCoord clampi
  have hpred := uint32OfInt32_pred h0 h
  split_ifs with hlo hhi
  · unfold uint32OfInt32; omega
  · omega
  · unfold uint32OfInt32 at hpred ⊢
    unfold int32OfUInt32 wrapInt32 at hpred hhi
    omega

namespace Term

/-- The painter's bounds: the cursor inside the grid, grid sizes that are `uint32_t` values,
and no more parameters than `params` holds. -/
structure Inv (t : Term) : Prop where
  cols_lt : t.cols < 0x100000000
  rows_lt : t.rows < 0x100000000
  cx_lt : t.cx < t.cols
  cy_lt : t.cy < t.rows
  nparams_le : t.nparams ≤ 16

theorem Inv.cols_pos {t : Term} (h : t.Inv) : 0 < t.cols := Nat.lt_of_le_of_lt (Nat.zero_le _) h.cx_lt

theorem Inv.rows_pos {t : Term} (h : t.Inv) : 0 < t.rows := Nat.lt_of_le_of_lt (Nat.zero_le _) h.cy_lt

theorem init_inv {cols rows : Nat} (hc : 0 < cols) (hr : 0 < rows) (hc' : cols < 0x100000000)
    (hr' : rows < 0x100000000) : (init cols rows).Inv :=
  ⟨hc', hr', hc, hr, Nat.zero_le _⟩

/-- What a call of the painter may do from `t`: every state it leaves has `t`'s sizes and the
invariant, and every store it makes is inside `t`'s grid or `params`. -/
structure Keeps (t : Term) (r : Option Term × List Write) : Prop where
  after : ∀ t' ∈ r.1, t'.cols = t.cols ∧ t'.rows = t.rows ∧ t'.Inv
  within : ∀ w ∈ r.2, w.Within t.cols t.rows

variable {t t' : Term}

theorem keeps_some {ws : List Write} (hc : t'.cols = t.cols) (hr : t'.rows = t.rows) (hi : t'.Inv)
    (hw : ∀ w ∈ ws, w.Within t.cols t.rows) : Keeps t (some t', ws) where
  after := by
    intro s hs
    obtain rfl : t' = s := Option.some.inj hs
    exact ⟨hc, hr, hi⟩
  within := hw

/-- A change that leaves the sizes and the cursor alone and stores inside the grid. -/
theorem keeps_update {ws : List Write} (h : t.Inv) (hc : t'.cols = t.cols) (hr : t'.rows = t.rows)
    (hx : t'.cx = t.cx) (hy : t'.cy = t.cy) (hn : t'.nparams ≤ t.nparams)
    (hw : ∀ w ∈ ws, w.Within t.cols t.rows) : Keeps t (some t', ws) :=
  keeps_some hc hr ⟨hc ▸ h.cols_lt, hr ▸ h.rows_lt, hx ▸ hc ▸ h.cx_lt, hy ▸ hr ▸ h.cy_lt,
    Nat.le_trans hn h.nparams_le⟩ hw

/-- A cursor move that stores nothing, to a cell of the grid. -/
theorem keeps_cursor (h : t.Inv) {x y : Nat} (hx : x < t.cols) (hy : y < t.rows) :
    Keeps t (some { t with cx := x, cy := y }, []) :=
  keeps_some rfl rfl ⟨h.cols_lt, h.rows_lt, hx, hy, h.nparams_le⟩ (by simp)

theorem Keeps.of_none : Keeps t (none, []) := ⟨by simp, by simp⟩

theorem Keeps.inv {ws : List Write} (h : Keeps t (some t', ws)) : t'.Inv := (h.after t' rfl).2.2

/-- `Keeps` reads only the sizes of the state it starts from. -/
theorem Keeps.of_dims {r : Option Term × List Write} (h : Keeps t' r) (hc : t'.cols = t.cols)
    (hr : t'.rows = t.rows) : Keeps t r where
  after s hs := by
    obtain ⟨hc', hr', hi⟩ := h.after s hs
    exact ⟨hc'.trans hc, hr'.trans hr, hi⟩
  within w hw := hc ▸ hr ▸ h.within w hw

/-- One store before a call. -/
theorem Keeps.cons {o : Option Term} {ws : List Write} {w : Write} (h : Keeps t (o, ws))
    (hw : w.Within t.cols t.rows) : Keeps t (o, w :: ws) where
  after := h.after
  within v hv := by
    rcases List.mem_cons.1 hv with rfl | hv
    · exact hw
    · exact h.within v hv

/-- One call after another: the stores of both, the state of the second. -/
theorem Keeps.seq {t₁ : Term} {o : Option Term} {ws₁ ws₂ : List Write} (h₁ : Keeps t (some t₁, ws₁))
    (h₂ : Keeps t₁ (o, ws₂)) : Keeps t (o, ws₁ ++ ws₂) := by
  obtain ⟨hc, hr, -⟩ := h₁.after t₁ rfl
  have h₂' := h₂.of_dims hc hr
  constructor
  · exact h₂'.after
  · intro w hw
    rcases List.mem_append.1 hw with hw | hw
    · exact h₁.within w hw
    · exact h₂'.within w hw

/-- A later change of the fields the bounds do not read. -/
theorem Keeps.congr {t'' : Term} {ws : List Write} (h : Keeps t (some t', ws)) (hc : t''.cols = t'.cols)
    (hr : t''.rows = t'.rows) (hx : t''.cx = t'.cx) (hy : t''.cy = t'.cy)
    (hn : t''.nparams ≤ t'.nparams) : Keeps t (some t'', ws) := by
  have h₂ : Keeps t' (some t'', []) := keeps_update h.inv hc hr hx hy hn (by simp)
  simpa using h.seq h₂

/-- `newline` reads no column: from any state whose row is inside the grid. -/
theorem newline_keeps (h : ({ t with cx := 0 } : Term).Inv) : Keeps t (some t.newline.1, t.newline.2) := by
  unfold newline
  split
  · -- the bottom row scrolls up and the cursor stays on it
    have hlast := row_end_le t.cols (Nat.sub_lt h.rows_pos Nat.one_pos)
    refine keeps_some rfl rfl ⟨h.cols_lt, h.rows_lt, h.cols_pos, Nat.sub_lt h.rows_pos Nat.one_pos,
      h.nparams_le⟩ ?_
    simp only [scroll, List.mem_cons, List.not_mem_nil, or_false]
    rintro w (rfl | rfl)
    · exact Nat.le_trans (Nat.le_add_right _ _) hlast
    · exact hlast
  · -- the cursor moves to the start of the next row
    rename_i hlow
    exact keeps_some rfl rfl ⟨h.cols_lt, h.rows_lt, h.cols_pos, Nat.lt_of_not_le hlow, h.nparams_le⟩
      (by simp)

theorem put_keeps (h : t.Inv) (ch : UInt8) : Keeps t (some (t.put ch).1, (t.put ch).2) := by
  have hcell : t.cy * t.cols + t.cx + 1 ≤ t.rows * t.cols := cell_index_lt h.cx_lt h.cy_lt
  unfold put
  dsimp only
  split
  · -- past the last column: the cell is stored, then `newline`
    exact Keeps.of_dims (Keeps.cons (newline_keeps ⟨h.cols_lt, h.rows_lt, h.cols_pos, h.cy_lt,
      h.nparams_le⟩) hcell) rfl rfl
  · rename_i hin
    exact keeps_some rfl rfl ⟨h.cols_lt, h.rows_lt, Nat.lt_of_not_le hin, h.cy_lt, h.nparams_le⟩
      (by simpa [Write.Within] using hcell)

theorem eraseCells_keeps (h : t.Inv) {lo hi : Nat} (hhi : hi ≤ t.rows * t.cols) :
    Keeps t (some (t.eraseCells lo hi).1, (t.eraseCells lo hi).2) :=
  keeps_update h rfl rfl rfl rfl (Nat.le_refl _) (by simpa [eraseCells, Write.Within] using hhi)

theorem dispatch_keeps (h : t.Inv) (final : UInt8) :
    Keeps t (some (t.dispatch final).1, (t.dispatch final).2) := by
  have hx (v : Int) := clampCoord_lt v h.cols_pos h.cols_lt
  have hy (v : Int) := clampCoord_lt v h.rows_pos h.rows_lt
  have hcell : t.cy * t.cols + t.cx + 1 ≤ t.rows * t.cols := cell_index_lt h.cx_lt h.cy_lt
  unfold dispatch
  split
  · -- a private mode sets `hold` at most
    split_ifs <;> exact keeps_update h rfl rfl rfl rfl (Nat.le_refl _) (by simp)
  · split
    · exact keeps_cursor h (hx _) (hy _)
    · exact keeps_cursor h (hx _) (hy _)
    · exact keeps_cursor h h.cx_lt (hy _)
    · exact keeps_cursor h h.cx_lt (hy _)
    · exact keeps_cursor h (hx _) h.cy_lt
    · exact keeps_cursor h (hx _) h.cy_lt
    · exact keeps_cursor h (hx _) h.cy_lt
    · exact keeps_cursor h h.cx_lt (hy _)
    · -- `J`: from the cursor, up to it, or the whole grid
      dsimp only
      split_ifs
      · exact eraseCells_keeps h (Nat.le_refl _)
      · exact eraseCells_keeps h hcell
      · exact eraseCells_keeps h (Nat.le_refl _)
    · -- `K`: the same within the cursor's row
      have hrow := row_end_le t.cols h.cy_lt
      dsimp only
      split_ifs
      · exact eraseCells_keeps h hrow
      · exact eraseCells_keeps h hcell
      · exact eraseCells_keeps h hrow
    · exact keeps_update h rfl rfl rfl rfl (Nat.le_refl _) (by simp)
    · exact keeps_update h rfl rfl rfl rfl (Nat.le_refl _) (by simp)

theorem storeParam_keeps (h : t.Inv) (hn : t.nparams < 16) :
    Keeps t (some t.storeParam.1, t.storeParam.2) :=
  keeps_some rfl rfl ⟨h.cols_lt, h.rows_lt, h.cx_lt, h.cy_lt, hn⟩ (by simpa [storeParam, Write.Within])

theorem csiByte_keeps (h : t.Inv) (c : UInt8) : Keeps t (some (t.csiByte c).1, (t.csiByte c).2) := by
  unfold csiByte
  dsimp only
  split_ifs with hpriv hdigit hsemi hstore hfinal hfinalStore
  · exact keeps_update h rfl rfl rfl rfl (Nat.le_refl _) (by simp)
  · exact keeps_update h rfl rfl rfl rfl (Nat.le_refl _) (by simp)
  · -- `;` stores the parameter while there is room
    exact (storeParam_keeps h hstore).congr rfl rfl rfl rfl (Nat.le_refl _)
  · exact keeps_update h rfl rfl rfl rfl (Nat.le_refl _) (by simp)
  · -- a final byte stores the last parameter, then dispatches
    have hs := storeParam_keeps h hfinalStore.2
    exact (hs.seq (dispatch_keeps hs.inv c)).congr rfl rfl rfl rfl (Nat.le_refl _)
  · exact (dispatch_keeps h c).congr rfl rfl rfl rfl (Nat.le_refl _)
  · exact keeps_update h rfl rfl rfl rfl (Nat.le_refl _) (by simp)

/-- Every store of the tab loop is inside the grid, for any number of rounds: the loop that
never ends stays inside too. -/
theorem tabFill_keeps (next fuel : Nat) (h : t.Inv) : Keeps t (tabFill next fuel t) := by
  induction fuel generalizing t with
  | zero => exact Keeps.of_none
  | succ fuel ih =>
    unfold tabFill
    split_ifs
    · have hput := put_keeps h 0x20
      exact hput.seq (ih hput.inv)
    · exact keeps_update h rfl rfl rfl rfl (Nat.le_refl _) (by simp)

theorem render_keeps (h : t.Inv) (c : UInt8) : Keeps t (t.render c) := by
  unfold render
  split
  · -- after ESC: a CSI sequence starts with no parameters
    split_ifs
    · exact keeps_update h rfl rfl rfl rfl (Nat.zero_le _) (by simp)
    · exact keeps_update h rfl rfl rfl rfl (Nat.le_refl _) (by simp)
  · exact csiByte_keeps h c
  · dsimp only
    split_ifs with hesc hlf hcr hbs hpos htab hctl
    · exact keeps_update h rfl rfl rfl rfl (Nat.le_refl _) (by simp)
    · exact newline_keeps ⟨h.cols_lt, h.rows_lt, h.cols_pos, h.cy_lt, h.nparams_le⟩
    · exact keeps_cursor h h.cols_pos h.cy_lt
    · exact keeps_cursor h (Nat.lt_of_le_of_lt (Nat.sub_le _ _) h.cx_lt) h.cy_lt
    · exact keeps_update h rfl rfl rfl rfl (Nat.le_refl _) (by simp)
    · exact tabFill_keeps _ _ h
    · exact keeps_update h rfl rfl rfl rfl (Nat.le_refl _) (by simp)
    · exact put_keeps h c

/-- A `put` that does not reach the row's end only advances the cursor. -/
theorem put_cx_of_lt (ch : UInt8) (hlt : t.cx + 1 < t.cols) : (t.put ch).1.cx = t.cx + 1 := by
  unfold put
  dsimp only
  rw [if_neg (Nat.not_le_of_lt hlt)]

/-- With the stop inside the row the loop ends after its `next - cx` spaces. -/
theorem tabFill_isSome {next : Nat} (hnext : next < t.cols) (h : t.Inv) {fuel : Nat}
    (hfuel : next - t.cx < fuel) : (tabFill next fuel t).1.isSome := by
  induction fuel generalizing t with
  | zero => omega
  | succ fuel ih =>
    unfold tabFill
    split_ifs with hgo
    · have hput := put_keeps h 0x20
      have hcx := put_cx_of_lt 0x20 (Nat.lt_of_le_of_lt hgo.1 hnext)
      have hcols := (hput.after _ rfl).1
      exact ih (hcols ▸ hnext) hput.inv (by omega)
    · rfl

/-- With the stop at or past the row's end the loop never ends: the cursor stays below the
stop, since `put` wraps it to column 0 when it reaches the end. -/
theorem tabFill_eq_none {next : Nat} (hnext : t.cols ≤ next) (h : t.Inv) (fuel : Nat) :
    (tabFill next fuel t).1 = none := by
  induction fuel generalizing t with
  | zero => rfl
  | succ fuel ih =>
    unfold tabFill
    have hput := put_keeps h 0x20
    have hcols := (hput.after _ rfl).1
    rw [if_pos ⟨Nat.lt_of_lt_of_le h.cx_lt hnext, h.cx_lt⟩]
    exact ih (hcols ▸ hnext) hput.inv

/-- The tab stop `(cx & ~7) + 8` is at most eight columns on, or wraps to 0. -/
theorem tabStop_sub_le (h : t.Inv) : t.tabStop - t.cx ≤ 8 := by
  have := Nat.lt_trans h.cx_lt h.cols_lt
  unfold tabStop
  omega

theorem render_tab (hesc : t.esc = .normal) : t.render 0x09 = tabFill t.tabStop tabFuel t := by
  unfold render
  rw [hesc]
  rfl

/-- A tab returns from `render` exactly when its stop is before the row's end, and otherwise
the loop runs for ever: a tab in the last tab stop of a row never returns. -/
theorem render_tab_returns_iff (h : t.Inv) (hesc : t.esc = .normal) :
    ((t.render 0x09).1.isSome ↔ t.tabStop < t.cols) ∧
      (t.cols ≤ t.tabStop → ∀ fuel, (tabFill t.tabStop fuel t).1 = none) := by
  have hloop (hstop : t.cols ≤ t.tabStop) (fuel : Nat) := tabFill_eq_none hstop h fuel
  refine ⟨⟨fun hsome => ?_, fun hstop => ?_⟩, hloop⟩
  · -- a stop past the row's end leaves the loop without a result
    refine Nat.lt_of_not_le fun hstop => ?_
    rw [render_tab hesc, hloop hstop] at hsome
    exact Bool.false_ne_true hsome
  · rw [render_tab hesc]
    exact tabFill_isSome hstop h (Nat.lt_succ_of_le (tabStop_sub_le h))

/-- On an 80-column console a tab at column 75 never returns. -/
theorem tab_at_column_75_hangs : (({ Term.init 80 25 with cx := 75 } : Term).render 0x09).1 = none := by
  have hinv : ({ Term.init 80 25 with cx := 75 } : Term).Inv :=
    ⟨by decide, by decide, by decide, by decide, by decide⟩
  have hstop : ¬({ Term.init 80 25 with cx := 75 } : Term).tabStop < 80 := by decide
  exact Option.not_isSome_iff_eq_none.1
    fun hs => hstop ((render_tab_returns_iff hinv rfl).1.1 (by simpa using hs))

/-- On every grid whose last tab stop does not wrap `uint32_t`, the painter can stand where a
tab never returns: in the row's last column the loop puts a space, wraps to column 0 through
`newline` and starts over. -/
theorem tab_in_last_stop_never_returns {cols rows : Nat} (hcols : 0 < cols) (hrows : 0 < rows)
    (hcols' : cols ≤ 0xFFFFFFF8) (hrows' : rows < 0x100000000) :
    ∃ t : Term, t.Inv ∧ t.cols = cols ∧ t.rows = rows ∧ t.esc = .normal ∧ (t.render 0x09).1 = none ∧
      ∀ fuel, (tabFill t.tabStop fuel t).1 = none := by
  have hinit := init_inv hcols hrows (by omega) hrows'
  -- the cursor in the row's last column, everything else as `init` leaves it
  have hinv : ({ init cols rows with cx := cols - 1 } : Term).Inv :=
    { hinit with cx_lt := show cols - 1 < cols by omega }
  have hstop : cols ≤ ({ init cols rows with cx := cols - 1 } : Term).tabStop := by
    show cols ≤ ((cols - 1) / 8 * 8 + 8) % 0x100000000
    omega
  refine ⟨_, hinv, rfl, rfl, rfl, ?_, tabFill_eq_none hstop hinv⟩
  rw [render_tab rfl]
  exact tabFill_eq_none hstop hinv tabFuel

/-- On the 80 by 25 grid of a 640 by 400 framebuffer. -/
theorem tab_in_last_stop_never_returns_80_by_25 :
    ∃ t : Term, t.Inv ∧ t.cols = 80 ∧ t.rows = 25 ∧ t.esc = .normal ∧ (t.render 0x09).1 = none ∧
      ∀ fuel, (tabFill t.tabStop fuel t).1 = none :=
  tab_in_last_stop_never_returns (by decide) (by decide) (by decide) (by decide)

end Term

/-- The bounds of a painter on a grid of `cols` by `rows`, unless it is stuck. -/
def Bounded (cols rows : Nat) (o : Option Term) : Prop :=
  ∀ t ∈ o, t.cols = cols ∧ t.rows = rows ∧ t.Inv

theorem feed_bounded {cols rows : Nat} {o : Option Term} (h : Bounded cols rows o) (c : UInt8) :
    Bounded cols rows (feed o c).1 ∧ ∀ w ∈ (feed o c).2, w.Within cols rows := by
  cases o with
  | none => simp [feed, Bounded]
  | some t =>
    obtain ⟨rfl, rfl, ht⟩ := h t rfl
    have hk := Term.render_keeps ht c
    exact ⟨hk.after, hk.within⟩

theorem palette_index_lt (x : UInt8) : x.toNat < paletteSize := x.toNat_lt

/-- From `init`'s state on a grid of `cols` by `rows` cells, whatever bytes are rendered: the
cursor stays inside the grid, the pen and every cell hold palette indices, and every store the
model records is inside the grid or below `params[16]`. Of a tab loop that never returns the
model records the stores of its first `tabFuel` rounds only, and stops the run there. -/
theorem painter_stays_in_bounds (cols rows : Nat) (hcols : 0 < cols) (hrows : 0 < rows)
    (hcols' : cols < 0x100000000) (hrows' : rows < 0x100000000) (bytes : List UInt8) :
    (∀ t ∈ (run feed (some (Term.init cols rows)) bytes).1,
      t.cx < cols ∧ t.cy < rows ∧ t.pen.fg.toNat < paletteSize ∧ t.pen.bg.toNat < paletteSize ∧
        ∀ i, (t.grid i).fg.toNat < paletteSize ∧ (t.grid i).bg.toNat < paletteSize) ∧
      ∀ ws ∈ (run feed (some (Term.init cols rows)) bytes).2, ∀ w ∈ ws, w.Within cols rows := by
  have hinit : Bounded cols rows (some (Term.init cols rows)) := by
    intro t ht
    obtain rfl : Term.init cols rows = t := Option.some.inj ht
    exact ⟨rfl, rfl, Term.init_inv hcols hrows hcols' hrows'⟩
  have hstep : ∀ o c, Bounded cols rows o → Bounded cols rows (feed o c).1 :=
    fun o c h => (feed_bounded h c).1
  constructor
  · intro t ht
    obtain ⟨rfl, rfl, hi⟩ := run_invariant (Bounded cols rows) hstep hinit bytes t ht
    exact ⟨hi.cx_lt, hi.cy_lt, palette_index_lt _, palette_index_lt _,
      fun i => ⟨palette_index_lt _, palette_index_lt _⟩⟩
  · exact run_outputs (Bounded cols rows) _ hstep (fun o c h => (feed_bounded h c).2) hinit bytes

/-- The bounds after a cursor move of 99 columns right on an 80 by 25 console. -/
theorem painter_bounds_on_80_by_25 :
    (∀ t ∈ (run feed (some (Term.init 80 25)) [0x1b, 0x5b, 0x39, 0x39, 0x43]).1,
      t.cx < 80 ∧ t.cy < 25 ∧ t.pen.fg.toNat < paletteSize ∧ t.pen.bg.toNat < paletteSize ∧
        ∀ i, (t.grid i).fg.toNat < paletteSize ∧ (t.grid i).bg.toNat < paletteSize) ∧
      ∀ ws ∈ (run feed (some (Term.init 80 25)) [0x1b, 0x5b, 0x39, 0x39, 0x43]).2, ∀ w ∈ ws,
        w.Within 80 25 :=
  painter_stays_in_bounds 80 25 (by decide) (by decide) (by decide) (by decide) _

end Archipelago.Core
