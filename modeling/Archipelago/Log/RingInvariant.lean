import Mathlib.Logic.Function.Basic
import Archipelago.Lib.Ring
import Archipelago.Log.Ring
/-! What every interleaving of the log ring's producers and flushers keeps. A sequence `k`
below `m_write` is, from its winning compare-exchange to its `publish`, held by one producer,
whose slot shows an old state and then `WRITING`; once published and until `m_read` passes it,
its slot is `READY` with the payload published for it, except the one a flusher has just
marked `FLUSHED`. A sequence from `m_write` to `m_read + Capacity` has a slot that is not
`READY`, and none has been published. The flag is held by at most one flusher, which drains
from `m_read`. `Inv` states this together with what the run has output: the reservations are
`0, 1, ...`, and the payloads emitted are those published for `0, 1, ...`. -/

namespace Archipelago.Log

open Archipelago.Lib

variable {T ι κ : Type}

/-- The sequence a reservation event hands out. -/
def Event.reservation : Event T → Option Nat
  | .reserved w => some w
  | _ => none

/-- The payload an event passes to `emit`. -/
def Event.emission : Event T → Option T
  | .emitted v => some v
  | _ => none

/-- The payload an event publishes for sequence `k`. -/
def Event.publication (k : Nat) : Event T → Option T
  | .published j v => if j = k then some v else none
  | _ => none

/-- The sequences `reserve` handed out, in order. -/
def reservations (os : List (Event T)) : List Nat := os.filterMap Event.reservation

/-- The payloads passed to `emit`, in order. -/
def emits (os : List (Event T)) : List T := os.filterMap Event.emission

/-- The payload first published for sequence `k`. -/
def publishedValue (os : List (Event T)) (k : Nat) : Option T := os.findSome? (Event.publication k)

/-- An event that reserves, emits and publishes nothing. -/
def Event.Quiet (e : Event T) : Prop :=
  e.reservation = none ∧ e.emission = none ∧ ∀ k, e.publication k = none

theorem Event.quiet_silent : (Event.silent : Event T).Quiet := ⟨rfl, rfl, fun _ => rfl⟩

theorem Event.quiet_dropped : (Event.dropped : Event T).Quiet := ⟨rfl, rfl, fun _ => rfl⟩

section History

variable {os : List (Event T)} {e : Event T}

theorem reservations_append (os : List (Event T)) (e : Event T) :
    reservations (os ++ [e]) = reservations os ++ e.reservation.toList := by
  cases h : e.reservation <;> simp [reservations, h]

theorem emits_append (os : List (Event T)) (e : Event T) :
    emits (os ++ [e]) = emits os ++ e.emission.toList := by
  cases h : e.emission <;> simp [emits, h]

theorem publishedValue_append (os : List (Event T)) (e : Event T) (k : Nat) :
    publishedValue (os ++ [e]) k = (publishedValue os k).or (e.publication k) := by
  simp [publishedValue, List.findSome?_append]

/-- A payload once published for a sequence stays the one published for it. -/
theorem publishedValue_append_of_some {k : Nat} {v : T} (h : publishedValue os k = some v) :
    publishedValue (os ++ [e]) k = some v := by
  rw [publishedValue_append, h, Option.some_or]

theorem publishedValue_append_of_ne {k w : Nat} {v : T} (hne : w ≠ k) :
    publishedValue (os ++ [.published w v]) k = publishedValue os k := by
  rw [publishedValue_append]
  simp [Event.publication, hne]

theorem publishedValue_append_of_none (os : List (Event T)) (e : Event T) (he : ∀ k, e.publication k = none)
    (k : Nat) :
    publishedValue (os ++ [e]) k = publishedValue os k := by
  rw [publishedValue_append, he k, Option.or_none]

theorem emits_append_of_none (he : e.emission = none) : emits (os ++ [e]) = emits os := by
  rw [emits_append, he, Option.toList_none, List.append_nil]

end History

namespace Producer

/-- The sequence a producer holds, from its winning compare-exchange to its `publish`. -/
def held : Producer → Option Nat
  | .won w | .seqStored w | .reserved w | .written w => some w
  | _ => none

/-- The slot of the sequence a producer holds: an old state until it stores `WRITING`. -/
def SlotFits (x : Producer) (sl : Slot T) : Prop :=
  match x with
  | .won _ | .seqStored _ => sl.state ≠ .ready
  | .reserved _ | .written _ => sl.state = .writing
  | _ => True

theorem SlotFits.not_ready {x : Producer} {sl : Slot T} {k : Nat} (hx : x.held = some k)
    (h : x.SlotFits sl) : sl.state ≠ .ready := by
  cases x <;> simp only [held, reduceCtorEq] at hx <;> simp only [SlotFits] at h
  all_goals first | exact h | (rw [h]; decide)

end Producer

namespace Flusher

/-- A flusher that has emitted the payload at `m_read` and not yet stored the next `m_read`. -/
def HasEmitted : Flusher → Prop
  | .marking _ | .advancing _ => True
  | _ => False

theorem not_hasEmitted_idle : ¬ HasEmitted .idle := id

end Flusher

namespace LogRing

variable {s : LogRing T ι κ} {capacity : Nat}

@[simp] theorem setSlot_slots (s : LogRing T ι κ) (i : Nat) (x : Slot T) :
    (s.setSlot i x).slots = Function.update s.slots i x := rfl
@[simp] theorem setSlot_producers (s : LogRing T ι κ) (i : Nat) (x : Slot T) :
    (s.setSlot i x).producers = s.producers := rfl
@[simp] theorem setSlot_flushers (s : LogRing T ι κ) (i : Nat) (x : Slot T) :
    (s.setSlot i x).flushers = s.flushers := rfl
@[simp] theorem setSlot_write (s : LogRing T ι κ) (i : Nat) (x : Slot T) :
    (s.setSlot i x).write = s.write := rfl
@[simp] theorem setSlot_read (s : LogRing T ι κ) (i : Nat) (x : Slot T) :
    (s.setSlot i x).read = s.read := rfl
@[simp] theorem setSlot_flushing (s : LogRing T ι κ) (i : Nat) (x : Slot T) :
    (s.setSlot i x).flushing = s.flushing := rfl
section

variable [DecidableEq ι]

@[simp] theorem setProducer_producers (s : LogRing T ι κ) (p : ι) (x : Producer) :
    (s.setProducer p x).producers = Function.update s.producers p x := rfl
@[simp] theorem setProducer_flushers (s : LogRing T ι κ) (p : ι) (x : Producer) :
    (s.setProducer p x).flushers = s.flushers := rfl
@[simp] theorem setProducer_slots (s : LogRing T ι κ) (p : ι) (x : Producer) :
    (s.setProducer p x).slots = s.slots := rfl
@[simp] theorem setProducer_write (s : LogRing T ι κ) (p : ι) (x : Producer) :
    (s.setProducer p x).write = s.write := rfl
@[simp] theorem setProducer_read (s : LogRing T ι κ) (p : ι) (x : Producer) :
    (s.setProducer p x).read = s.read := rfl
@[simp] theorem setProducer_flushing (s : LogRing T ι κ) (p : ι) (x : Producer) :
    (s.setProducer p x).flushing = s.flushing := rfl

end

section

variable [DecidableEq κ]

@[simp] theorem setFlusher_flushers (s : LogRing T ι κ) (f : κ) (x : Flusher) :
    (s.setFlusher f x).flushers = Function.update s.flushers f x := rfl
@[simp] theorem setFlusher_producers (s : LogRing T ι κ) (f : κ) (x : Flusher) :
    (s.setFlusher f x).producers = s.producers := rfl
@[simp] theorem setFlusher_slots (s : LogRing T ι κ) (f : κ) (x : Flusher) :
    (s.setFlusher f x).slots = s.slots := rfl
@[simp] theorem setFlusher_write (s : LogRing T ι κ) (f : κ) (x : Flusher) :
    (s.setFlusher f x).write = s.write := rfl
@[simp] theorem setFlusher_read (s : LogRing T ι κ) (f : κ) (x : Flusher) :
    (s.setFlusher f x).read = s.read := rfl
@[simp] theorem setFlusher_flushing (s : LogRing T ι κ) (f : κ) (x : Flusher) :
    (s.setFlusher f x).flushing = s.flushing := rfl

end

/-- What a flusher's place says about the ring: it scans from `m_read`; the slot it emits
from is `READY`; after marking it `FLUSHED` the flusher holds `m_read + 1`. -/
def FlusherFits (capacity : Nat) (s : LogRing T ι κ) : Flusher → Prop
  | .scanning r => r = s.read
  | .emitting r | .marking r => r = s.read ∧ r < s.write ∧ (s.slots (r % capacity)).state = .ready
  | .advancing r =>
    r = s.read + 1 ∧ s.read < s.write ∧ (∀ p, (s.producers p).held ≠ some s.read) ∧
      (s.slots (s.read % capacity)).state = .flushed
  | _ => True

/-- The invariant of the ring and the events of the run that reached it (module doc). -/
structure Inv (capacity : Nat) (s : LogRing T ι κ) (os : List (Event T)) : Prop where
  read_le : s.read ≤ s.write
  write_le : s.write ≤ s.read + capacity
  reservations_eq : reservations os = List.range s.write
  emits_published : ∀ i < (emits os).length, publishedValue os i = (emits os)[i]?
  emitted_of_active : ∀ f, (s.flushers f).HasEmitted → (emits os).length = s.read + 1
  emitted_of_idle : (∀ f, ¬(s.flushers f).HasEmitted) → (emits os).length = s.read
  loaded_le : ∀ p w, s.producers p = .loadedWrite w → w ≤ s.write
  checked_lt : ∀ p w, s.producers p = .checked w → w < s.read + capacity
  held_window : ∀ p k, (s.producers p).held = some k → s.read ≤ k ∧ k < s.write
  held_unique : ∀ p q k, (s.producers p).held = some k → (s.producers q).held = some k → p = q
  held_unpublished : ∀ p k, (s.producers p).held = some k → publishedValue os k = none
  held_slot : ∀ p k, (s.producers p).held = some k → (s.producers p).SlotFits (s.slots (k % capacity))
  ahead_unpublished : ∀ k, s.write ≤ k → publishedValue os k = none
  ahead_not_ready : ∀ k, s.write ≤ k → k < s.read + capacity → (s.slots (k % capacity)).state ≠ .ready
  published : ∀ k, s.read ≤ k → k < s.write → (∀ p, (s.producers p).held ≠ some k) →
    publishedValue os k = some (s.slots (k % capacity)).value ∧
      ((s.slots (k % capacity)).state = .ready ∨ ∃ f, s.flushers f = .advancing (k + 1))
  flag : s.flushing = true ↔ ∃ f, s.flushers f ≠ .idle
  flusher_unique : ∀ f g, s.flushers f ≠ .idle → s.flushers g ≠ .idle → f = g
  flusher_fits : ∀ f, s.FlusherFits capacity (s.flushers f)

theorem inv_init [Inhabited T] : Inv capacity (init : LogRing T ι κ) [] where
  read_le := Nat.le_refl _
  write_le := Nat.le_add_right _ _
  reservations_eq := rfl
  emits_published i hi := absurd hi (Nat.not_lt_zero _)
  emitted_of_active f h := absurd h Flusher.not_hasEmitted_idle
  emitted_of_idle _ := rfl
  loaded_le p w h := by cases h
  checked_lt p w h := by cases h
  held_window p k h := by cases h
  held_unique p q k h := by cases h
  held_unpublished p k h := by cases h
  held_slot p k h := by cases h
  ahead_unpublished _ _ := rfl
  ahead_not_ready _ _ _ := by simp [init]
  published k _ hk := absurd hk (Nat.not_lt_zero _)
  flag := by simp [init]
  flusher_unique f g hf := absurd rfl hf
  flusher_fits _ := trivial

variable {os : List (Event T)} {p : ι} {f : κ}

/-- An event that reserves, emits and publishes nothing keeps the invariant. -/
theorem Inv.append_quiet {e : Event T} (h : Inv capacity s os) (he : e.Quiet) :
    Inv capacity s (os ++ [e]) := by
  have hres : reservations (os ++ [e]) = reservations os := by
    rw [reservations_append, he.1, Option.toList_none, List.append_nil]
  have hem : emits (os ++ [e]) = emits os := emits_append_of_none he.2.1
  have hpub := publishedValue_append_of_none os e he.2.2
  exact { h with
    reservations_eq := hres ▸ h.reservations_eq
    emits_published := by simpa only [hem, hpub] using h.emits_published
    emitted_of_active := by simpa only [hem] using h.emitted_of_active
    emitted_of_idle := by simpa only [hem] using h.emitted_of_idle
    held_unpublished := by simpa only [hpub] using h.held_unpublished
    ahead_unpublished := by simpa only [hpub] using h.ahead_unpublished
    published := by simpa only [hpub] using h.published }

theorem Inv.setDropped (h : Inv capacity s os) (d : Nat) : Inv capacity { s with dropped := d } os :=
  { h with }

/-- A store into the slot of sequence `w` leaves the slot of every other sequence of the window
`[m_read, m_read + Capacity)` alone. -/
theorem Inv.slot_update_of_ne (h : Inv capacity s os) {w k : Nat} (sl : Slot T) (hw : s.read ≤ w)
    (hw' : w < s.write) (hk : s.read ≤ k) (hk' : k < s.read + capacity) (hne : k ≠ w) :
    Function.update s.slots (w % capacity) sl (k % capacity) = s.slots (k % capacity) :=
  Function.update_of_ne (fun heq => hne (eq_of_mod_eq_of_window hk hk' hw
    (Nat.lt_of_lt_of_le hw' h.write_le) heq)) _ _

/-- The payload published for `i` once it was emitted stays published. -/
theorem Inv.emits_published_append (h : Inv capacity s os) {e : Event T} (he : e.emission = none) :
    ∀ i < (emits (os ++ [e])).length, publishedValue (os ++ [e]) i = (emits (os ++ [e]))[i]? := by
  intro i hi
  rw [emits_append_of_none he] at hi ⊢
  have hpub := h.emits_published i hi
  rw [List.getElem?_eq_getElem hi] at hpub ⊢
  exact publishedValue_append_of_some hpub

/-- Every flusher but the active one is idle. -/
theorem Inv.idle_of_ne (h : Inv capacity s os) {g : κ} (hf : s.flushers f ≠ .idle) (hg : g ≠ f) :
    s.flushers g = .idle :=
  Classical.byContradiction fun hg' => hg (h.flusher_unique g f hg' hf)

/-- A `READY` slot of the window is not the slot of a held sequence. -/
theorem Inv.not_held_of_ready (h : Inv capacity s os) {k : Nat}
    (hready : (s.slots (k % capacity)).state = .ready) (q : ι) : (s.producers q).held ≠ some k :=
  fun hq => Producer.SlotFits.not_ready hq (h.held_slot q k hq) hready

section Producers

variable [DecidableEq ι]

theorem held_update_of_none {y : Producer} (hy : y.held = none) {q : ι} {k : Nat}
    (h : (Function.update s.producers p y q).held = some k) : q ≠ p ∧ (s.producers q).held = some k := by
  rcases eq_or_ne q p with rfl | hq
  · rw [Function.update_self, hy] at h
    cases h
  · rw [Function.update_of_ne hq] at h
    exact ⟨hq, h⟩

theorem not_held_update {y : Producer} (hy : y.held = none) {k : Nat}
    (h : ∀ q, (s.producers q).held ≠ some k) (q : ι) : (Function.update s.producers p y q).held ≠ some k :=
  fun hq => h q (held_update_of_none hy hq).2

theorem not_held_of_update {y : Producer} (hx : (s.producers p).held = none) {k : Nat}
    (h : ∀ q, (Function.update s.producers p y q).held ≠ some k) (q : ι) : (s.producers q).held ≠ some k := by
  rcases eq_or_ne q p with rfl | hq
  · rw [hx]
    exact Option.some_ne_none k ∘ Eq.symm
  · simpa [Function.update_of_ne hq] using h q

/-- A producer that holds no sequence moving to a place that holds none keeps the invariant,
when its new place keeps the facts `Inv` states of it. -/
theorem Inv.setProducer_free (h : Inv capacity s os) {y : Producer} (hx : (s.producers p).held = none)
    (hy : y.held = none) (hload : ∀ w, y = .loadedWrite w → w ≤ s.write)
    (hcheck : ∀ w, y = .checked w → w < s.read + capacity) : Inv capacity (s.setProducer p y) os where
  read_le := h.read_le
  write_le := h.write_le
  reservations_eq := h.reservations_eq
  emits_published := h.emits_published
  emitted_of_active := h.emitted_of_active
  emitted_of_idle := h.emitted_of_idle
  loaded_le q w hq := by
    rcases eq_or_ne q p with rfl | hne
    · exact hload w (by simpa using hq)
    · exact h.loaded_le q w (by simpa [Function.update_of_ne hne] using hq)
  checked_lt q w hq := by
    rcases eq_or_ne q p with rfl | hne
    · exact hcheck w (by simpa using hq)
    · exact h.checked_lt q w (by simpa [Function.update_of_ne hne] using hq)
  held_window q k hq := h.held_window q k (held_update_of_none hy hq).2
  held_unique q q' k hq hq' := h.held_unique q q' k (held_update_of_none hy hq).2 (held_update_of_none hy hq').2
  held_unpublished q k hq := h.held_unpublished q k (held_update_of_none hy hq).2
  held_slot q k hq := by
    obtain ⟨hne, hq⟩ := held_update_of_none hy hq
    simpa [Function.update_of_ne hne] using h.held_slot q k hq
  ahead_unpublished := h.ahead_unpublished
  ahead_not_ready := h.ahead_not_ready
  published k hk hk' hfree := h.published k hk hk' (not_held_of_update hx hfree)
  flag := h.flag
  flusher_unique := h.flusher_unique
  flusher_fits g := by
    have hg := h.flusher_fits g
    simp only [setProducer_flushers]
    cases hf : s.flushers g <;> rw [hf] at hg <;> simp only [FlusherFits] at hg ⊢
    all_goals first | trivial | exact hg | exact ⟨hg.1, hg.2.1, not_held_update hy hg.2.2.1, hg.2.2.2⟩

/-- The winning compare-exchange: `p` holds `w = m_write`, and `m_write` moves past it. -/
theorem Inv.cas {w : Nat} (h : Inv capacity s os) (hp : s.producers p = .checked w) (hw : s.write = w) :
    Inv capacity { s.setProducer p (.won w) with write := w + 1 } (os ++ [.reserved w]) := by
  have hlt := h.checked_lt p w hp
  have hem : emits (os ++ [Event.reserved w]) = emits os := emits_append_of_none rfl
  have hpub := publishedValue_append_of_none os (.reserved w) fun _ => rfl
  -- every sequence held before is below `w`
  have hbelow : ∀ q k, (s.producers q).held = some k → k < w := fun q k hq =>
    hw ▸ (h.held_window q k hq).2
  have hheld : ∀ q k, (Function.update s.producers p (.won w) q).held = some k →
      (q = p ∧ k = w) ∨ (q ≠ p ∧ (s.producers q).held = some k) := by
    intro q k hq
    rcases eq_or_ne q p with rfl | hne
    · simp only [Function.update_self, Producer.held, Option.some.injEq] at hq
      exact .inl ⟨rfl, hq.symm⟩
    · exact .inr ⟨hne, by simpa [Function.update_of_ne hne] using hq⟩
  exact {
    read_le := show s.read ≤ w + 1 by have := h.read_le; omega
    write_le := show w + 1 ≤ s.read + capacity by omega
    reservations_eq := by
      show reservations (os ++ [.reserved w]) = List.range (w + 1)
      rw [reservations_append, h.reservations_eq, hw, List.range_succ]
      rfl
    emits_published := by simpa only [hem, hpub] using h.emits_published
    emitted_of_active := by simpa only [hem, setProducer_flushers, setProducer_read] using h.emitted_of_active
    emitted_of_idle := by simpa only [hem, setProducer_flushers, setProducer_read] using h.emitted_of_idle
    loaded_le := fun q v hq => by
      rcases eq_or_ne q p with rfl | hne
      · simp at hq
      · have := h.loaded_le q v (by simpa [Function.update_of_ne hne] using hq)
        show v ≤ w + 1
        omega
    checked_lt := fun q v hq => by
      rcases eq_or_ne q p with rfl | hne
      · simp at hq
      · exact h.checked_lt q v (by simpa [Function.update_of_ne hne] using hq)
    held_window := fun q k hq => by
      show s.read ≤ k ∧ k < w + 1
      rcases hheld q k hq with ⟨-, rfl⟩ | ⟨-, hq⟩
      · exact ⟨hw ▸ h.read_le, Nat.lt_succ_self _⟩
      · exact ⟨(h.held_window q k hq).1, Nat.lt_succ_of_lt (hbelow q k hq)⟩
    held_unique := fun q q' k hq hq' => by
      rcases hheld q k hq with ⟨rfl, rfl⟩ | ⟨-, hq⟩
      · rcases hheld q' _ hq' with ⟨rfl, -⟩ | ⟨-, hq'⟩
        · rfl
        · exact absurd (hbelow q' _ hq') (Nat.lt_irrefl _)
      · rcases hheld q' k hq' with ⟨-, hkw⟩ | ⟨-, hq'⟩
        · exact absurd (hbelow q _ hq) (hkw ▸ Nat.lt_irrefl _)
        · exact h.held_unique q q' k hq hq'
    held_unpublished := fun q k hq => by
      rw [hpub]
      rcases hheld q k hq with ⟨-, rfl⟩ | ⟨-, hq⟩
      · exact h.ahead_unpublished _ hw.le
      · exact h.held_unpublished q k hq
    held_slot := fun q k hq => by
      rcases hheld q k hq with ⟨rfl, rfl⟩ | ⟨hne, hq⟩
      · simpa [Producer.SlotFits] using h.ahead_not_ready _ hw.le hlt
      · simpa [Function.update_of_ne hne] using h.held_slot q k hq
    ahead_unpublished := fun k hk => by
      rw [hpub]
      exact h.ahead_unpublished k (by simp at hk; omega)
    ahead_not_ready := fun k hk hk' => h.ahead_not_ready k (by simp at hk; omega) hk'
    published := fun k hk hk' hfree => by
      have hne : k ≠ w := fun hkw => hfree p (by simp [Producer.held, hkw])
      rw [hpub]
      refine h.published k hk (by simp at hk'; omega) fun q hq => ?_
      rcases eq_or_ne q p with rfl | hne'
      · simp [hp, Producer.held] at hq
      · exact hfree q (by simpa [Function.update_of_ne hne'] using hq)
    flag := h.flag
    flusher_unique := h.flusher_unique
    flusher_fits := fun g => by
      have hg := h.flusher_fits g
      cases hf : s.flushers g <;> rw [hf] at hg <;>
        simp only [FlusherFits, hf, setProducer_flushers, setProducer_read, setProducer_slots,
          setProducer_producers] at hg ⊢
      all_goals first | trivial | exact hg | skip
      · exact ⟨hg.1, Nat.lt_succ_of_lt (hw ▸ hg.2.1), hg.2.2⟩
      · exact ⟨hg.1, Nat.lt_succ_of_lt (hw ▸ hg.2.1), hg.2.2⟩
      · refine ⟨hg.1, Nat.lt_succ_of_lt (hw ▸ hg.2.1), fun q hq => ?_, hg.2.2.2⟩
        rcases hheld q _ hq with ⟨-, hrw⟩ | ⟨-, hq⟩
        · exact absurd hg.2.1 (by omega)
        · exact hg.2.2.1 q hq }

/-- The producer of sequence `w` storing into its slot: it moves from `x` to `y`, both holding
`w`, and the slot becomes `sl`, which `y` expects. -/
theorem Inv.holderStore (h : Inv capacity s os) {w : Nat} {y : Producer} (sl : Slot T)
    (hx : (s.producers p).held = some w) (hy : y.held = some w) (hfit : y.SlotFits sl) :
    Inv capacity ((s.setSlot (w % capacity) sl).setProducer p y) os := by
  obtain ⟨hw, hw'⟩ := h.held_window p w hx
  have hheld : ∀ q, (Function.update s.producers p y q).held = (s.producers q).held := by
    intro q
    rcases eq_or_ne q p with rfl | hne
    · rw [Function.update_self, hx, hy]
    · rw [Function.update_of_ne hne]
  -- a sequence not held by `p` is not `w`
  have hother : ∀ k, (∀ q, (s.producers q).held ≠ some k) → k ≠ w := fun k hk hkw =>
    hk p (hkw ▸ hx)
  have hslot : ∀ {k}, s.read ≤ k → k < s.read + capacity → k ≠ w →
      Function.update s.slots (w % capacity) sl (k % capacity) = s.slots (k % capacity) :=
    fun hk hk' hne => h.slot_update_of_ne sl hw hw' hk hk' hne
  exact {
    read_le := h.read_le
    write_le := h.write_le
    reservations_eq := h.reservations_eq
    emits_published := h.emits_published
    emitted_of_active := h.emitted_of_active
    emitted_of_idle := h.emitted_of_idle
    loaded_le := fun q v hq => by
      rcases eq_or_ne q p with rfl | hne
      · simp only [setProducer_producers, Function.update_self] at hq
        simp [hq, Producer.held] at hy
      · exact h.loaded_le q v (by simpa [Function.update_of_ne hne] using hq)
    checked_lt := fun q v hq => by
      rcases eq_or_ne q p with rfl | hne
      · simp only [setProducer_producers, Function.update_self] at hq
        simp [hq, Producer.held] at hy
      · exact h.checked_lt q v (by simpa [Function.update_of_ne hne] using hq)
    held_window := fun q k hq => h.held_window q k (by simpa [hheld] using hq)
    held_unique := fun q q' k hq hq' => h.held_unique q q' k (by simpa [hheld] using hq)
      (by simpa [hheld] using hq')
    held_unpublished := fun q k hq => h.held_unpublished q k (by simpa [hheld] using hq)
    held_slot := fun q k hq => by
      rcases eq_or_ne q p with rfl | hne
      · simp only [setProducer_producers, Function.update_self, hy, Option.some.injEq] at hq
        subst hq
        simpa using hfit
      · have hq' : (s.producers q).held = some k := by simpa [Function.update_of_ne hne] using hq
        have hkw : k ≠ w := fun hkw => hne (h.held_unique q p k hq' (hkw ▸ hx))
        obtain ⟨hk, hk'⟩ := h.held_window q k hq'
        simpa [Function.update_of_ne hne, hslot hk (by have := h.write_le; omega) hkw] using
          h.held_slot q k hq'
    ahead_unpublished := h.ahead_unpublished
    ahead_not_ready := fun k (hk : s.write ≤ k) (hk' : k < s.read + capacity) => by
      simpa [hslot (by have := h.read_le; omega) hk' (by omega)] using h.ahead_not_ready k hk hk'
    published := fun k (hk : s.read ≤ k) (hk' : k < s.write) hfree => by
      have hfree' : ∀ q, (s.producers q).held ≠ some k := fun q => by simpa [hheld] using hfree q
      simpa [hslot hk (by have := h.write_le; omega) (hother k hfree')] using h.published k hk hk' hfree'
    flag := h.flag
    flusher_unique := h.flusher_unique
    flusher_fits := fun g => by
      have hg := h.flusher_fits g
      cases hf : s.flushers g <;> rw [hf] at hg <;>
        simp only [FlusherFits, hf, setProducer_flushers, setProducer_read, setProducer_slots,
          setProducer_producers, setSlot_flushers, setSlot_read, setSlot_slots, setSlot_producers,
          setSlot_write, setProducer_write] at hg ⊢
      all_goals first | trivial | exact hg | skip
      -- the slot a flusher reads is `READY` or `FLUSHED`, so it is not the slot of `w`
      · have hrw : _ ≠ w := fun hrw => (Producer.SlotFits.not_ready hx (h.held_slot p w hx))
          (hrw ▸ hg.2.2)
        exact ⟨hg.1, hg.2.1, by rw [hslot (hg.1 ▸ Nat.le_refl _) (by have := h.write_le; omega) hrw]; exact hg.2.2⟩
      · have hrw : _ ≠ w := fun hrw => (Producer.SlotFits.not_ready hx (h.held_slot p w hx))
          (hrw ▸ hg.2.2)
        exact ⟨hg.1, hg.2.1, by rw [hslot (hg.1 ▸ Nat.le_refl _) (by have := h.write_le; omega) hrw]; exact hg.2.2⟩
      · have hrw : s.read ≠ w := fun hrw => hg.2.2.1 p (hrw ▸ hx)
        refine ⟨hg.1, hg.2.1, fun q => by simpa [hheld] using hg.2.2.1 q, ?_⟩
        rw [hslot (Nat.le_refl _) (by have := h.write_le; omega) hrw]
        exact hg.2.2.2 }

/-- `publish(w)`: the slot of `w` becomes `READY` with the payload the producer wrote, and the
producer leaves the ring's code. -/
theorem Inv.publish {w : Nat} (h : Inv capacity s os) (hp : s.producers p = .written w) :
    Inv capacity ((s.setSlot (w % capacity) { s.slots (w % capacity) with state := .ready }).setProducer p .top)
      (os ++ [.published w (s.slots (w % capacity)).value]) := by
  have hx : (s.producers p).held = some w := by rw [hp]; rfl
  obtain ⟨hw, hw'⟩ := h.held_window p w hx
  have hwriting : (s.slots (w % capacity)).state = .writing := by
    simpa [hp, Producer.SlotFits] using h.held_slot p w hx
  have hem : emits (os ++ [Event.published w (s.slots (w % capacity)).value]) = emits os :=
    emits_append_of_none rfl
  have hpub : ∀ k, k ≠ w → publishedValue (os ++ [.published w (s.slots (w % capacity)).value]) k =
      publishedValue os k := fun k hk => publishedValue_append_of_ne (Ne.symm hk)
  have hslot : ∀ {k}, s.read ≤ k → k < s.read + capacity → k ≠ w →
      Function.update s.slots (w % capacity) { s.slots (w % capacity) with state := .ready } (k % capacity) =
        s.slots (k % capacity) :=
    fun hk hk' hne => h.slot_update_of_ne _ hw hw' hk hk' hne
  have htop : (Producer.top).held = none := rfl
  -- a sequence another producer holds is not `w`
  have hne_of_held : ∀ q k, (Function.update s.producers p .top q).held = some k →
      (s.producers q).held = some k ∧ k ≠ w := fun q k hq => by
    obtain ⟨hne, hq⟩ := held_update_of_none htop hq
    exact ⟨hq, fun hkw => hne (h.held_unique q p k hq (hkw ▸ hx))⟩
  exact {
    read_le := h.read_le
    write_le := h.write_le
    reservations_eq := by
      rw [reservations_append]
      exact h.reservations_eq ▸ (List.append_nil _)
    emits_published := h.emits_published_append rfl
    emitted_of_active := by
      simpa only [hem, setProducer_flushers, setProducer_read, setSlot_flushers, setSlot_read] using
        h.emitted_of_active
    emitted_of_idle := by
      simpa only [hem, setProducer_flushers, setProducer_read, setSlot_flushers, setSlot_read] using
        h.emitted_of_idle
    loaded_le := fun q v hq => by
      rcases eq_or_ne q p with rfl | hne
      · simp at hq
      · exact h.loaded_le q v (by simpa [Function.update_of_ne hne] using hq)
    checked_lt := fun q v hq => by
      rcases eq_or_ne q p with rfl | hne
      · simp at hq
      · exact h.checked_lt q v (by simpa [Function.update_of_ne hne] using hq)
    held_window := fun q k hq => h.held_window q k (hne_of_held q k hq).1
    held_unique := fun q q' k hq hq' => h.held_unique q q' k (hne_of_held q k hq).1 (hne_of_held q' k hq').1
    held_unpublished := fun q k hq => by
      obtain ⟨hq, hkw⟩ := hne_of_held q k hq
      rw [hpub k hkw]
      exact h.held_unpublished q k hq
    held_slot := fun q k hq => by
      obtain ⟨hq', hkw⟩ := hne_of_held q k hq
      obtain ⟨hk, hk'⟩ := h.held_window q k hq'
      have hne : q ≠ p := (held_update_of_none htop hq).1
      simpa [Function.update_of_ne hne, hslot hk (by have := h.write_le; omega) hkw] using h.held_slot q k hq'
    ahead_unpublished := fun k (hk : s.write ≤ k) => by
      rw [hpub k (by omega)]
      exact h.ahead_unpublished k hk
    ahead_not_ready := fun k (hk : s.write ≤ k) (hk' : k < s.read + capacity) => by
      simpa [hslot (by have := h.read_le; omega) hk' (by omega)] using h.ahead_not_ready k hk hk'
    published := fun k (hk : s.read ≤ k) (hk' : k < s.write) hfree => by
      rcases eq_or_ne k w with rfl | hkw
      · -- the sequence just published
        have hnone := h.held_unpublished p k hx
        simp [publishedValue_append, hnone, Event.publication]
      · rw [hpub k hkw]
        have hfree' : ∀ q, (s.producers q).held ≠ some k := by
          intro q hq
          rcases eq_or_ne q p with rfl | hne
          · exact hkw (Option.some.inj (hq.symm.trans hx))
          · exact hfree q (by simpa [Function.update_of_ne hne] using hq)
        simpa [hslot hk (by have := h.write_le; omega) hkw] using h.published k hk hk' hfree'
    flag := h.flag
    flusher_unique := h.flusher_unique
    flusher_fits := fun g => by
      have hg := h.flusher_fits g
      cases hf : s.flushers g <;> rw [hf] at hg <;>
        simp only [FlusherFits, hf, setProducer_flushers, setProducer_read, setProducer_slots,
          setProducer_producers, setSlot_flushers, setSlot_read, setSlot_slots, setSlot_producers,
          setSlot_write, setProducer_write] at hg ⊢
      all_goals first | trivial | exact hg | skip
      -- the slot a flusher reads is `READY`, the slot of `w` is `WRITING`
      · rename_i r
        have hrw : r ≠ w := fun hrw => by rw [hrw, hwriting] at hg; exact absurd hg.2.2 (by decide)
        exact ⟨hg.1, hg.2.1, by rw [hslot (hg.1 ▸ Nat.le_refl _) (by have := h.write_le; omega) hrw]; exact hg.2.2⟩
      · rename_i r
        have hrw : r ≠ w := fun hrw => by rw [hrw, hwriting] at hg; exact absurd hg.2.2 (by decide)
        exact ⟨hg.1, hg.2.1, by rw [hslot (hg.1 ▸ Nat.le_refl _) (by have := h.write_le; omega) hrw]; exact hg.2.2⟩
      · have hrw : s.read ≠ w := fun hrw => hg.2.2.1 p (hrw ▸ hx)
        refine ⟨hg.1, hg.2.1, not_held_update htop hg.2.2.1, ?_⟩
        rw [hslot (Nat.le_refl _) (by have := h.write_le; omega) hrw]
        exact hg.2.2.2 }

end Producers

section Flushers

variable [DecidableEq κ]

/-- `FlusherFits` reads only the ring's fields that a flusher's own move leaves alone. -/
theorem flusherFits_setFlusher {g : κ} {y : Flusher} (x : Flusher) :
    (s.setFlusher g y).FlusherFits capacity x ↔ s.FlusherFits capacity x := by
  cases x <;> simp [FlusherFits]

/-- An active flusher moving to another active place that has emitted nothing, with the
ring as that place expects it. -/
theorem Inv.setFlusher_move (h : Inv capacity s os) {x y : Flusher} (hf : s.flushers f = x)
    (hx : x ≠ .idle) (hy : y ≠ .idle) (hxe : ¬x.HasEmitted) (hye : ¬y.HasEmitted)
    (hfit : s.FlusherFits capacity y) : Inv capacity (s.setFlusher f y) os := by
  have hothers : ∀ g, g ≠ f → s.flushers g = .idle := fun g hg => h.idle_of_ne (hf ▸ hx) hg
  -- no flusher is advancing, before or after
  have hadv : ∀ g r, Function.update s.flushers f y g = .advancing r ↔ s.flushers g = .advancing r := by
    intro g r
    rcases eq_or_ne g f with rfl | hne
    · rw [Function.update_self, hf]
      constructor
      · rintro rfl; exact absurd trivial hye
      · rintro rfl; exact absurd trivial hxe
    · rw [Function.update_of_ne hne]
  exact {
    read_le := h.read_le
    write_le := h.write_le
    reservations_eq := h.reservations_eq
    emits_published := h.emits_published
    emitted_of_active := fun g hg => by
      rcases eq_or_ne g f with rfl | hne
      · simp [hye] at hg
      · simp [Function.update_of_ne hne, hothers g hne, Flusher.HasEmitted] at hg
    emitted_of_idle := fun _ => h.emitted_of_idle fun g hg => by
      rcases eq_or_ne g f with rfl | hne
      · exact hxe (hf ▸ hg)
      · rw [hothers g hne] at hg
        exact hg
    loaded_le := h.loaded_le
    checked_lt := h.checked_lt
    held_window := h.held_window
    held_unique := h.held_unique
    held_unpublished := h.held_unpublished
    held_slot := h.held_slot
    ahead_unpublished := h.ahead_unpublished
    ahead_not_ready := h.ahead_not_ready
    published := fun k hk hk' hfree => by simpa [hadv] using h.published k hk hk' hfree
    flag := by
      simp only [setFlusher_flushing, h.flag]
      constructor
      · rintro -
        exact ⟨f, by simpa using hy⟩
      · rintro -
        exact ⟨f, hf ▸ hx⟩
    flusher_unique := fun g g' hg hg' => by
      have key : ∀ g, Function.update s.flushers f y g ≠ .idle → g = f := fun g hg =>
        Classical.byContradiction fun hne => hg (by rw [Function.update_of_ne hne]; exact hothers g hne)
      exact (key g hg).trans (key g' hg').symm
    flusher_fits := fun g => by
      rw [flusherFits_setFlusher]
      rcases eq_or_ne g f with rfl | hne
      · simpa using hfit
      · simpa [Function.update_of_ne hne] using h.flusher_fits g }

/-- Winning the flag: with no flusher active, `f` starts to hold it. -/
theorem Inv.takeFlag (h : Inv capacity s os) (hf : s.flushers f = .idle) (hfl : s.flushing = false) :
    Inv capacity { s.setFlusher f .holding with flushing := true } os := by
  have hidle : ∀ g, s.flushers g = .idle := fun g =>
    Classical.byContradiction fun hg => absurd (h.flag.2 ⟨g, hg⟩) (by simp [hfl])
  have hupd : ∀ g, g ≠ f → Function.update s.flushers f .holding g = .idle := fun g hne => by
    rw [Function.update_of_ne hne, hidle g]
  exact {
    read_le := h.read_le
    write_le := h.write_le
    reservations_eq := h.reservations_eq
    emits_published := h.emits_published
    emitted_of_active := fun g hg => by
      rcases eq_or_ne g f with rfl | hne
      · simp [Flusher.HasEmitted] at hg
      · simp [hupd g hne, Flusher.HasEmitted] at hg
    emitted_of_idle := fun _ => h.emitted_of_idle fun g hg => by
      rw [hidle g] at hg
      exact hg
    loaded_le := h.loaded_le
    checked_lt := h.checked_lt
    held_window := h.held_window
    held_unique := h.held_unique
    held_unpublished := h.held_unpublished
    held_slot := h.held_slot
    ahead_unpublished := h.ahead_unpublished
    ahead_not_ready := h.ahead_not_ready
    published := fun k hk hk' hfree => by
      obtain ⟨hv, hst⟩ := h.published k hk hk' hfree
      refine ⟨hv, hst.imp_right ?_⟩
      rintro ⟨g, hg⟩
      rw [hidle g] at hg
      cases hg
    flag := by
      simp only [true_iff]
      exact ⟨f, by simp⟩
    flusher_unique := fun g g' hg hg' => by
      have key : ∀ g, Function.update s.flushers f .holding g ≠ .idle → g = f := fun g hg =>
        Classical.byContradiction fun hne => hg (hupd g hne)
      exact (key g hg).trans (key g' hg').symm
    flusher_fits := fun g => by
      show (s.setFlusher f .holding).FlusherFits capacity _
      rw [flusherFits_setFlusher]
      rcases eq_or_ne g f with rfl | hne
      · simp [FlusherFits]
      · simpa [Function.update_of_ne hne] using h.flusher_fits g }

/-- Clearing the flag: the flusher that held it leaves `drain`. -/
theorem Inv.releaseFlag (h : Inv capacity s os) (hf : s.flushers f = .releasing) :
    Inv capacity { s.setFlusher f .idle with flushing := false } os := by
  have hothers : ∀ g, g ≠ f → s.flushers g = .idle := fun g hg =>
    h.idle_of_ne (by rw [hf]; exact Flusher.noConfusion) hg
  have hidle : ∀ g, Function.update s.flushers f .idle g = .idle := fun g => by
    rcases eq_or_ne g f with rfl | hne
    · exact Function.update_self ..
    · rw [Function.update_of_ne hne, hothers g hne]
  exact {
    read_le := h.read_le
    write_le := h.write_le
    reservations_eq := h.reservations_eq
    emits_published := h.emits_published
    emitted_of_active := fun g hg => by
      have := hidle g
      simp only [setFlusher_flushers] at hg
      rw [this] at hg
      exact absurd hg Flusher.not_hasEmitted_idle
    emitted_of_idle := fun _ => h.emitted_of_idle fun g hg => by
      rcases eq_or_ne g f with rfl | hne
      · rw [hf] at hg
        exact hg
      · rw [hothers g hne] at hg
        exact hg
    loaded_le := h.loaded_le
    checked_lt := h.checked_lt
    held_window := h.held_window
    held_unique := h.held_unique
    held_unpublished := h.held_unpublished
    held_slot := h.held_slot
    ahead_unpublished := h.ahead_unpublished
    ahead_not_ready := h.ahead_not_ready
    published := fun k hk hk' hfree => by
      obtain ⟨hv, hst⟩ := h.published k hk hk' hfree
      refine ⟨hv, hst.imp_right ?_⟩
      rintro ⟨g, hg⟩
      rcases eq_or_ne g f with rfl | hne
      · rw [hf] at hg
        cases hg
      · rw [hothers g hne] at hg
        cases hg
    flag := by
      simp only [Bool.false_eq_true, false_iff, not_exists, not_not]
      exact hidle
    flusher_unique := fun g _ hg => absurd (hidle g) hg
    flusher_fits := fun g => by
      show (s.setFlusher f .idle).FlusherFits capacity (Function.update s.flushers f .idle g)
      rw [hidle g]
      trivial }

/-- `emit`: the payload of slot `m_read`, the one published for `m_read`, is the next one out. -/
theorem Inv.emit {r : Nat} (h : Inv capacity s os) (hf : s.flushers f = .emitting r) :
    Inv capacity (s.setFlusher f (.marking r)) (os ++ [.emitted (s.slots (r % capacity)).value]) := by
  have hfit := h.flusher_fits f
  rw [hf] at hfit
  obtain ⟨hr, hrw, hready⟩ := hfit
  have hothers : ∀ g, g ≠ f → s.flushers g = .idle := fun g hg =>
    h.idle_of_ne (by rw [hf]; exact Flusher.noConfusion) hg
  have hpubr := (h.published r (hr ▸ Nat.le_refl _) hrw (h.not_held_of_ready hready)).1
  have hlen : (emits os).length = r := hr ▸ h.emitted_of_idle fun g hg => by
    rcases eq_or_ne g f with rfl | hne
    · rw [hf] at hg
      exact hg
    · rw [hothers g hne] at hg
      exact hg
  have hem : emits (os ++ [Event.emitted (s.slots (r % capacity)).value]) =
      emits os ++ [(s.slots (r % capacity)).value] := by
    rw [emits_append]
    rfl
  have hpub := publishedValue_append_of_none os (.emitted (s.slots (r % capacity)).value)
    fun _ => rfl
  have hadv : ∀ g k, Function.update s.flushers f (.marking r) g = .advancing k ↔
      s.flushers g = .advancing k := by
    intro g k
    rcases eq_or_ne g f with rfl | hne
    · simp [hf]
    · rw [Function.update_of_ne hne]
  exact {
    read_le := h.read_le
    write_le := h.write_le
    reservations_eq := by
      rw [reservations_append]
      exact h.reservations_eq ▸ (List.append_nil _)
    emits_published := fun i hi => by
      rw [hem, List.length_append, List.length_singleton, hlen] at hi
      rw [hpub, hem]
      rcases Nat.lt_succ_iff_lt_or_eq.1 hi with hi | rfl
      · rw [List.getElem?_append_left (hlen ▸ hi)]
        exact h.emits_published i (hlen ▸ hi)
      · rw [List.getElem?_append_right (Nat.le_of_eq hlen), hlen, Nat.sub_self]
        exact hpubr
    emitted_of_active := fun g hg => by
      rcases eq_or_ne g f with rfl | hne
      · rw [hem, List.length_append, hlen, hr]
        rfl
      · simp [Function.update_of_ne hne, hothers g hne, Flusher.HasEmitted] at hg
    emitted_of_idle := fun hall => absurd (show (Flusher.marking r).HasEmitted from trivial)
      (by simpa using hall f)
    loaded_le := h.loaded_le
    checked_lt := h.checked_lt
    held_window := h.held_window
    held_unique := h.held_unique
    held_unpublished := fun q k hq => (hpub k).trans (h.held_unpublished q k hq)
    held_slot := h.held_slot
    ahead_unpublished := fun k hk => (hpub k).trans (h.ahead_unpublished k hk)
    ahead_not_ready := h.ahead_not_ready
    published := fun k hk hk' hfree => by simpa [hadv, hpub] using h.published k hk hk' hfree
    flag := by
      simp only [setFlusher_flushing, h.flag]
      exact ⟨fun _ => ⟨f, by simp⟩, fun _ => ⟨f, by rw [hf]; exact Flusher.noConfusion⟩⟩
    flusher_unique := fun g g' hg hg' => by
      have key : ∀ g, Function.update s.flushers f (.marking r) g ≠ .idle → g = f := fun g hg =>
        Classical.byContradiction fun hne => hg (by rw [Function.update_of_ne hne]; exact hothers g hne)
      exact (key g hg).trans (key g' hg').symm
    flusher_fits := fun g => by
      rw [flusherFits_setFlusher]
      rcases eq_or_ne g f with rfl | hne
      · simpa using ⟨hr, hrw, hready⟩
      · simpa [Function.update_of_ne hne] using h.flusher_fits g }

/-- Storing `FLUSHED` into the emitted slot: the flusher then holds `m_read + 1`. -/
theorem Inv.markFlushed {r : Nat} (h : Inv capacity s os) (hf : s.flushers f = .marking r) :
    Inv capacity ((s.setSlot (r % capacity) { s.slots (r % capacity) with state := .flushed }).setFlusher f
      (.advancing (r + 1))) os := by
  have hfit := h.flusher_fits f
  rw [hf] at hfit
  obtain ⟨hr, hrw, hready⟩ := hfit
  have hothers : ∀ g, g ≠ f → s.flushers g = .idle := fun g hg =>
    h.idle_of_ne (by rw [hf]; exact Flusher.noConfusion) hg
  have hnot := h.not_held_of_ready hready
  have hslot : ∀ {k}, s.read ≤ k → k < s.read + capacity → k ≠ r →
      Function.update s.slots (r % capacity) { s.slots (r % capacity) with state := .flushed } (k % capacity) =
        s.slots (k % capacity) :=
    fun hk hk' hne => h.slot_update_of_ne _ (hr ▸ Nat.le_refl _) hrw hk hk' hne
  exact {
    read_le := h.read_le
    write_le := h.write_le
    reservations_eq := h.reservations_eq
    emits_published := h.emits_published
    emitted_of_active := fun g hg => by
      rcases eq_or_ne g f with rfl | hne
      · exact h.emitted_of_active g (by rw [hf]; trivial)
      · simp [Function.update_of_ne hne, hothers g hne, Flusher.HasEmitted] at hg
    emitted_of_idle := fun hall => absurd (show (Flusher.advancing (r + 1)).HasEmitted from trivial)
      (by simpa using hall f)
    loaded_le := h.loaded_le
    checked_lt := h.checked_lt
    held_window := h.held_window
    held_unique := h.held_unique
    held_unpublished := h.held_unpublished
    held_slot := fun q k hq => by
      obtain ⟨hk, hk'⟩ := h.held_window q k hq
      have hkr : k ≠ r := fun hkr => hnot q (hkr ▸ hq)
      simpa [hslot hk (by have := h.write_le; omega) hkr] using h.held_slot q k hq
    ahead_unpublished := h.ahead_unpublished
    ahead_not_ready := fun k (hk : s.write ≤ k) (hk' : k < s.read + capacity) => by
      simpa [hslot (by have := h.read_le; omega) hk' (by omega)] using h.ahead_not_ready k hk hk'
    published := fun k (hk : s.read ≤ k) (hk' : k < s.write) hfree => by
      obtain ⟨hv, hst⟩ := h.published k hk hk' hfree
      rcases eq_or_ne k r with rfl | hkr
      · -- the slot just marked: the flusher advancing past it is the witness
        refine ⟨by simpa using hv, .inr ⟨f, by simp⟩⟩
      · rw [show (((s.setSlot (r % capacity) _).setFlusher f _).slots (k % capacity)) = s.slots (k % capacity)
          from hslot hk (by have := h.write_le; omega) hkr]
        refine ⟨hv, hst.imp_right ?_⟩
        rintro ⟨g, hg⟩
        have hne : g ≠ f := fun hgf => by rw [hgf, hf] at hg; cases hg
        exact ⟨g, by simpa [Function.update_of_ne hne] using hg⟩
    flag := by
      simp only [setFlusher_flushing, setSlot_flushing, h.flag]
      exact ⟨fun _ => ⟨f, by simp⟩, fun _ => ⟨f, by rw [hf]; exact Flusher.noConfusion⟩⟩
    flusher_unique := fun g g' hg hg' => by
      have key : ∀ g, Function.update s.flushers f (.advancing (r + 1)) g ≠ .idle → g = f := fun g hg =>
        Classical.byContradiction fun hne => hg (by rw [Function.update_of_ne hne]; exact hothers g hne)
      exact (key g hg).trans (key g' hg').symm
    flusher_fits := fun g => by
      rw [flusherFits_setFlusher]
      rcases eq_or_ne g f with rfl | hne
      · simp only [setFlusher_flushers, Function.update_self, FlusherFits, setSlot_read, setSlot_write,
          setSlot_producers, setSlot_slots]
        refine ⟨hr ▸ rfl, hr ▸ hrw, hr ▸ hnot, ?_⟩
        rw [← hr, Function.update_self]
      · simp only [setFlusher_flushers, setSlot_flushers, Function.update_of_ne hne, hothers g hne]
        exact True.intro }

/-- `m_read.store(r)`: the emitted sequence leaves the window, and its slot, `FLUSHED`, is the
one the window takes in. -/
theorem Inv.advanceRead {r : Nat} (h : Inv capacity s os) (hf : s.flushers f = .advancing r) :
    Inv capacity { s.setFlusher f (.scanning r) with read := r } os := by
  have hfit := h.flusher_fits f
  rw [hf] at hfit
  obtain ⟨hr, hrw, hnot, hflushed⟩ := hfit
  have hothers : ∀ g, g ≠ f → s.flushers g = .idle := fun g hg =>
    h.idle_of_ne (by rw [hf]; exact Flusher.noConfusion) hg
  have hlen := h.emitted_of_active f (by rw [hf]; trivial)
  have hupd : ∀ g, g ≠ f → Function.update s.flushers f (.scanning r) g = .idle := fun g hne => by
    rw [Function.update_of_ne hne, hothers g hne]
  exact {
    read_le := show r ≤ s.write by omega
    write_le := show s.write ≤ r + capacity by have := h.write_le; omega
    reservations_eq := h.reservations_eq
    emits_published := h.emits_published
    emitted_of_active := fun g hg => by
      rcases eq_or_ne g f with rfl | hne
      · simp [Flusher.HasEmitted] at hg
      · simp [hupd g hne, Flusher.HasEmitted] at hg
    emitted_of_idle := fun _ => show (emits os).length = r by omega
    loaded_le := h.loaded_le
    checked_lt := fun q w hq => show w < r + capacity by have := h.checked_lt q w hq; omega
    held_window := fun q k hq => by
      obtain ⟨hk, hk'⟩ := h.held_window q k hq
      have hne : k ≠ s.read := fun hkr => hnot q (hkr ▸ hq)
      exact ⟨show r ≤ k by omega, hk'⟩
    held_unique := h.held_unique
    held_unpublished := h.held_unpublished
    held_slot := h.held_slot
    ahead_unpublished := h.ahead_unpublished
    ahead_not_ready := fun k (hk : s.write ≤ k) (hk' : k < r + capacity) => by
      show (s.slots (k % capacity)).state ≠ .ready
      rcases Nat.lt_or_ge k (s.read + capacity) with hlt | hge
      · exact h.ahead_not_ready k hk hlt
      · -- the one sequence the window takes in shares the emitted slot
        have hk : k = s.read + capacity := by omega
        rw [hk, Nat.add_mod_right, hflushed]
        decide
    published := fun k (hk : r ≤ k) (hk' : k < s.write) hfree => by
      obtain ⟨hv, hst⟩ := h.published k (by omega) hk' hfree
      refine ⟨hv, .inl (hst.resolve_right ?_)⟩
      rintro ⟨g, hg⟩
      rcases eq_or_ne g f with rfl | hne
      · rw [hf] at hg
        cases hg
        omega
      · rw [hothers g hne] at hg
        cases hg
    flag := by
      show s.flushing = true ↔ ∃ g, Function.update s.flushers f (.scanning r) g ≠ .idle
      rw [h.flag]
      exact ⟨fun _ => ⟨f, by simp⟩, fun _ => ⟨f, by rw [hf]; exact Flusher.noConfusion⟩⟩
    flusher_unique := fun g g' hg hg' => by
      have key : ∀ g, Function.update s.flushers f (.scanning r) g ≠ .idle → g = f := fun g hg =>
        Classical.byContradiction fun hne => hg (hupd g hne)
      exact (key g hg).trans (key g' hg').symm
    flusher_fits := fun g => by
      rcases eq_or_ne g f with rfl | hne
      · show FlusherFits capacity _ (Function.update s.flushers g (.scanning r) g)
        rw [Function.update_self]
        rfl
      · show FlusherFits capacity _ (Function.update s.flushers f (.scanning r) g)
        rw [hupd g hne]
        exact True.intro }

end Flushers

end LogRing

end Archipelago.Log
