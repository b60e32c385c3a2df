import Archipelago.Log.RingInvariant
/-! Every step of every party keeps `Inv`, so every interleaving from the ring's construction
does: the indices stay ordered with at most `Capacity` sequences between them, no sequence is
reserved twice or published twice, a producer holds a slot only once its previous occupant is
drained, and `emit` sees exactly the payloads published for `0, 1, 2, ...`, in that order. -/

namespace Archipelago.Log

open Archipelago.Lib

variable {T ι κ : Type}

/-- The sequence an event publishes. -/
def Event.publishedSeq : Event T → Option Nat
  | .published j _ => some j
  | _ => none

/-- The sequences published, in order. -/
def publications (os : List (Event T)) : List Nat := os.filterMap Event.publishedSeq

theorem publication_eq_none_iff (e : Event T) (k : Nat) :
    e.publication k = none ↔ e.publishedSeq ≠ some k := by
  cases e <;> simp [Event.publication, Event.publishedSeq]

theorem not_mem_publications_iff {os : List (Event T)} {k : Nat} :
    k ∉ publications os ↔ publishedValue os k = none := by
  simp only [publications, publishedValue, List.findSome?_eq_none_iff, List.mem_filterMap,
    publication_eq_none_iff]
  constructor
  · intro h e he hek
    exact h ⟨e, he, hek⟩
  · rintro h ⟨e, he, hek⟩
    exact h e he hek

namespace LogRing

variable {s : LogRing T ι κ} {os : List (Event T)} {capacity : Nat}

/-- `r = m_read.load()` and the fullness check: a `w` that passes it is below
`m_read + Capacity`, also when `w` is stale and below the `r` loaded after it. -/
theorem checked_of_not_full (h : Inv capacity s os) (hcap : capacity < 0x10000000000000000) {p : ι}
    {w : Nat} (hp : s.producers p = .loadedWrite w) (hfull : ¬sub64 w s.read ≥ capacity) :
    w < s.read + capacity := by
  have hw := h.loaded_le p w hp
  have := h.write_le
  unfold sub64 at hfull
  omega

section

variable [DecidableEq ι]

theorem Inv.reserveStep (h : Inv capacity s os) (hcap : capacity < 0x10000000000000000) (p : ι)
    (v : T) : Inv capacity (s.reserveStep capacity p v).1 (os ++ [(s.reserveStep capacity p v).2]) := by
  have hfree (x : Producer) (hx : x.held = none) (hload : ∀ w, x = .loadedWrite w → w ≤ s.write)
      (hcheck : ∀ w, x = .checked w → w < s.read + capacity) (hp : (s.producers p).held = none) :
      Inv capacity (s.setProducer p x) os := h.setProducer_free hp hx hload hcheck
  unfold LogRing.reserveStep
  split
  · -- `top`: load `m_write`
    rename_i hp
    refine (hfree _ rfl (fun w hw => ?_) (fun w hw => by cases hw) (by rw [hp]; rfl)).append_quiet
      Event.quiet_silent
    cases hw
    exact Nat.le_refl _
  · -- `loadedWrite`: load `m_read` and check for room
    rename_i w hp
    split
    · exact (hfree _ rfl (fun w hw => by cases hw) (fun w hw => by cases hw) (by rw [hp]; rfl)).append_quiet
        Event.quiet_silent
    · rename_i hfull
      refine (hfree _ rfl (fun w hw => by cases hw) (fun w' hw' => ?_) (by rw [hp]; rfl)).append_quiet
        Event.quiet_silent
      cases hw'
      exact checked_of_not_full h hcap hp hfull
  · -- `full`: count the drop
    rename_i hp
    exact ((hfree _ rfl (fun w hw => by cases hw) (fun w hw => by cases hw) (by rw [hp]; rfl)).setDropped
      _).append_quiet Event.quiet_dropped
  · -- `checked`: the compare-exchange
    rename_i w hp
    split
    · rename_i hw
      exact h.cas hp hw
    · exact (hfree _ rfl (fun w hw => by cases hw) (fun w hw => by cases hw) (by rw [hp]; rfl)).append_quiet
        Event.quiet_silent
  · rename_i w hp
    have hfit := h.held_slot p w (by rw [hp]; rfl)
    rw [hp] at hfit
    exact (h.holderStore { s.slots (w % capacity) with seq := w } (by rw [hp]; rfl) rfl hfit).append_quiet
      Event.quiet_silent
  · rename_i w hp
    exact (h.holderStore { s.slots (w % capacity) with state := .writing } (y := .reserved w)
      (by rw [hp]; rfl) rfl rfl).append_quiet Event.quiet_silent
  · rename_i w hp
    have hfit := h.held_slot p w (by rw [hp]; rfl)
    rw [hp] at hfit
    exact (h.holderStore { s.slots (w % capacity) with value := v } (y := .written w) (by rw [hp]; rfl) rfl
      hfit).append_quiet Event.quiet_silent
  · rename_i w hp
    exact h.publish hp

end

section

variable [DecidableEq κ]

theorem Inv.drainStep (h : Inv capacity s os) (hcap : 0 < capacity) (f : κ) :
    Inv capacity (s.drainStep capacity f).1 (os ++ [(s.drainStep capacity f).2]) := by
  unfold LogRing.drainStep
  split
  · -- `idle`: try to take the flag
    rename_i hf
    split
    · exact h.append_quiet Event.quiet_silent
    · rename_i hfl
      exact (h.takeFlag hf (by simpa using hfl)).append_quiet Event.quiet_silent
  · rename_i hf
    exact (h.setFlusher_move (y := .scanning s.read) hf Flusher.noConfusion Flusher.noConfusion id id
      rfl).append_quiet Event.quiet_silent
  · -- `scanning`: test the slot at `m_read`
    rename_i r hf
    have hr : r = s.read := by simpa [hf, FlusherFits] using h.flusher_fits f
    split
    · rename_i hready
      -- a `READY` slot at `m_read` is a published sequence below `m_write`
      have hrw : r < s.write := Nat.lt_of_not_le fun hge =>
        h.ahead_not_ready r hge (by omega) hready
      exact (h.setFlusher_move (y := .emitting r) hf Flusher.noConfusion Flusher.noConfusion id id
        ⟨hr, hrw, hready⟩).append_quiet Event.quiet_silent
    · exact (h.setFlusher_move (y := .releasing) hf Flusher.noConfusion Flusher.noConfusion id id
        trivial).append_quiet Event.quiet_silent
  · rename_i r hf
    exact h.emit hf
  · rename_i r hf
    exact (h.markFlushed hf).append_quiet Event.quiet_silent
  · rename_i r hf
    exact (h.advanceRead hf).append_quiet Event.quiet_silent
  · rename_i hf
    exact (h.releaseFlag hf).append_quiet Event.quiet_silent

end

variable [DecidableEq ι] [DecidableEq κ]

theorem Inv.step (h : Inv capacity s os) (hcap : 0 < capacity) (hcap' : capacity < 0x10000000000000000)
    (a : Act T ι κ) : Inv capacity (s.step capacity a).1 (os ++ [(s.step capacity a).2]) := by
  cases a with
  | produce p v => exact h.reserveStep hcap' p v
  | flush f => exact h.drainStep hcap f

/-- Only `publish` publishes, and only a sequence its producer holds, which has not been
published. -/
theorem Inv.step_publishedSeq (h : Inv capacity s os) {a : Act T ι κ} {w : Nat}
    (he : (s.step capacity a).2.publishedSeq = some w) : publishedValue os w = none := by
  cases a with
  | produce p v =>
    simp only [LogRing.step, LogRing.reserveStep] at he
    split at he <;> try split at he
    all_goals simp only [Event.publishedSeq, reduceCtorEq, Option.some.injEq] at he
    -- what is left is `publish`
    rename_i w' hp
    subst he
    exact h.held_unpublished p _ (by rw [hp]; rfl)
  | flush f =>
    simp only [LogRing.step, LogRing.drainStep] at he
    split at he
    all_goals first | (split at he <;> cases he) | cases he

theorem publications_append (os : List (Event T)) (e : Event T) :
    publications (os ++ [e]) = publications os ++ e.publishedSeq.toList := by
  cases h : e.publishedSeq <;> simp [publications, h]

/-- Every run from the ring's construction keeps `Inv`, and publishes each sequence once. -/
theorem inv_execute [Inhabited T] (hcap : 0 < capacity) (hcap' : capacity < 0x10000000000000000)
    (acts : List (Act T ι κ)) :
    Inv capacity (execute capacity acts).1 (execute capacity acts).2 ∧
      (publications (execute capacity acts).2).Nodup := by
  have hrun := @run_history _ _ _ (step capacity) (fun s os => Inv capacity s os ∧ (publications os).Nodup)
    (fun s os a ⟨h, hnd⟩ => ⟨h.step hcap hcap' a, by
      rw [publications_append]
      cases hw : (s.step capacity a).2.publishedSeq with
      | none => simpa using hnd
      | some w =>
        have hnot := not_mem_publications_iff.2 (h.step_publishedSeq hw)
        rw [Option.toList_some, List.nodup_append]
        refine ⟨hnd, List.nodup_cons.2 ⟨List.not_mem_nil, List.nodup_nil⟩, fun a ha b hb hab => ?_⟩
        rw [List.mem_singleton] at hb
        exact hnot (hb ▸ hab ▸ ha)⟩)
    init [] ⟨inv_init, List.nodup_nil⟩ acts
  exact hrun

end LogRing

variable [DecidableEq ι] [DecidableEq κ]

theorem map_some_eq_map_range {α : Type} {l : List α} {f : Nat → Option α} (h : ∀ i < l.length, f i = l[i]?) :
    l.map some = (List.range l.length).map f := by
  apply List.ext_getElem?
  intro i
  rcases Nat.lt_or_ge i l.length with hi | hi
  · simp only [List.getElem?_map, List.getElem?_range hi, Option.map_some, h i hi,
      List.getElem?_eq_getElem hi]
  · rw [List.getElem?_map, List.getElem?_map, List.getElem?_eq_none hi,
      List.getElem?_eq_none (by simpa using hi)]
    rfl

open LogRing in
/-- Every interleaving of the producers' and flushers' atomic steps from the ring's
construction: `m_read <= m_write <= m_read + Capacity`; `reserve` hands out no sequence twice;
a producer holding sequence `w` has `w < m_read + Capacity`, so the previous occupant
`w - Capacity` of its slot is drained; no sequence is published twice; and the payloads passed
to `emit` are those published for `0, 1, 2, ...`, in order, each once. -/
theorem log_ring_emits_published_in_order [Inhabited T] (capacity : Nat) (hcap : 0 < capacity)
    (hcap' : capacity < 0x10000000000000000) (acts : List (Act T ι κ)) :
    (execute capacity acts).1.read ≤ (execute capacity acts).1.write ∧
      (execute capacity acts).1.write ≤ (execute capacity acts).1.read + capacity ∧
      (reservations (execute capacity acts).2).Nodup ∧
      (∀ p w, ((execute capacity acts).1.producers p).held = some w →
        w < (execute capacity acts).1.read + capacity) ∧
      (publications (execute capacity acts).2).Nodup ∧
      (emits (execute capacity acts).2).map some =
        (List.range (emits (execute capacity acts).2).length).map (publishedValue (execute capacity acts).2) := by
  obtain ⟨h, hnd⟩ := inv_execute hcap hcap' acts
  refine ⟨h.read_le, h.write_le, h.reservations_eq ▸ List.nodup_range, fun p w hp => ?_, hnd,
    map_some_eq_map_range h.emits_published⟩
  have := (h.held_window p w hp).2
  have := h.write_le
  omega

/-- One producer reserving, writing and publishing 7 into a ring of two slots, then one
flusher draining it. -/
def oneMessage : List (Act Nat Unit Unit) :=
  List.replicate 7 (.produce () 7) ++ List.replicate 8 (.flush ())

example : emits (LogRing.execute 2 oneMessage).2 = [7] := by decide

theorem log_ring_one_message :
    (LogRing.execute 2 oneMessage).1.read ≤ (LogRing.execute 2 oneMessage).1.write ∧
      (LogRing.execute 2 oneMessage).1.write ≤ (LogRing.execute 2 oneMessage).1.read + 2 ∧
      (reservations (LogRing.execute 2 oneMessage).2).Nodup ∧
      (∀ p w, ((LogRing.execute 2 oneMessage).1.producers p).held = some w →
        w < (LogRing.execute 2 oneMessage).1.read + 2) ∧
      (publications (LogRing.execute 2 oneMessage).2).Nodup ∧
      (emits (LogRing.execute 2 oneMessage).2).map some =
        (List.range (emits (LogRing.execute 2 oneMessage).2).length).map
          (publishedValue (LogRing.execute 2 oneMessage).2) :=
  log_ring_emits_published_in_order 2 (by decide) (by decide) oneMessage

end Archipelago.Log
