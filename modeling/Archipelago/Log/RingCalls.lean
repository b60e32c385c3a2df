import Archipelago.Lib.Run
import Archipelago.Log.RingInvariant

/-! The log ring's calls run one at a time: `reserve`, the caller's payload write, `publish`,
`drain`, and the read-only `for_each` and `crash_scan` (`kernel/log_ring.h`, lines 93-129).
Each call is one function of the ring, the body of the source's member function with no
other party moving; producers and flushers keep their places.

Over every such run from construction, `Window` holds: the sequences of the last lap,
`[write - Capacity, write)`, each own their slot (its stored `seq` is theirs), and a slot is
`WRITING` while its sequence is unpublished and `READY` or `FLUSHED`, with the published
payload, after. `for_each` then visits exactly the published messages of its window, and
`crash_scan` the whole lap, the unpublished ones as in progress. -/

namespace Archipelago.Log

open Archipelago.Lib

namespace LogRing

variable {T ι κ : Type}

/-- The oldest sequence of the last lap: `(w > Capacity) ? (w - Capacity) : 0`. -/
def lapStart (capacity w : Nat) : Nat := if w > capacity then w - capacity else 0

/-- `reserve(seq)`: the sequence, or `none` when the ring is full and the message dropped. -/
def reserveCall (capacity : Nat) (s : LogRing T ι κ) : LogRing T ι κ × Option Nat :=
  if sub64 s.write s.read ≥ capacity then ({ s with dropped := s.dropped + 1 }, none)
  else
    ({ s.setSlot (s.write % capacity) { s.slots (s.write % capacity) with seq := s.write, state := .writing }
        with write := s.write + 1 }, some s.write)

/-- The caller's write of payload `v` through the pointer `reserve` returned for `seq`. -/
def fillCall (capacity : Nat) (s : LogRing T ι κ) (seq : Nat) (v : T) : LogRing T ι κ :=
  s.setSlot (seq % capacity) { s.slots (seq % capacity) with value := v }

/-- `publish(seq)`. -/
def publishCall (capacity : Nat) (s : LogRing T ι κ) (seq : Nat) : LogRing T ι κ :=
  s.setSlot (seq % capacity) { s.slots (seq % capacity) with state := .ready }

/-- `drain`'s loop from `r`: emit each `READY` slot, mark it `FLUSHED` and store `r + 1`;
`fuel` bounds the rounds. -/
def drainLoop (capacity : Nat) : Nat → LogRing T ι κ → Nat → LogRing T ι κ × List T
  | 0, s, _ => (s, [])
  | fuel + 1, s, r =>
    if (s.slots (r % capacity)).state = .ready then
      let rest := drainLoop capacity fuel
        { s.setSlot (r % capacity) { s.slots (r % capacity) with state := .flushed } with read := r + 1 } (r + 1)
      (rest.1, (s.slots (r % capacity)).value :: rest.2)
    else (s, [])

/-- `drain(emit)`: nothing when another flusher holds the flag, else the loop from `m_read`;
the flag it takes is released at the end. -/
def drainCall (capacity : Nat) (s : LogRing T ι κ) : LogRing T ι κ × List T :=
  if s.flushing then (s, []) else drainLoop capacity (capacity + 1) s s.read

/-- One round of `for_each`'s loop at `seq`: skip a `FREE` or `WRITING` slot and a stale
occupant, else visit it and set `next = seq + 1`. -/
def forEachStep (capacity : Nat) (s : LogRing T ι κ) (acc : List (Nat × T) × Nat) (seq : Nat) :
    List (Nat × T) × Nat :=
  if (s.slots (seq % capacity)).state ≠ .ready ∧ (s.slots (seq % capacity)).state ≠ .flushed then acc
  else if (s.slots (seq % capacity)).seq ≠ seq then acc
  else (acc.1 ++ [(seq, (s.slots (seq % capacity)).value)], seq + 1)

/-- `for_each(min_seq, visit)`: the sequences and payloads visited, in order, and the value
returned. -/
def forEach (capacity : Nat) (s : LogRing T ι κ) (minSeq : Nat) : List (Nat × T) × Nat :=
  let start := max (lapStart capacity s.write) minSeq
  (List.range' start (s.write - start)).foldl (forEachStep capacity s) ([], minSeq)

/-- What `crash_scan` passes to `visit` for the slot of `seq`: the payload and whether it is
in progress; nothing for a `FREE` slot or a stale occupant. -/
def crashVisit (capacity : Nat) (s : LogRing T ι κ) (seq : Nat) : Option (Nat × T × Bool) :=
  if (s.slots (seq % capacity)).state = .writing then some (seq, (s.slots (seq % capacity)).value, true)
  else if (s.slots (seq % capacity)).state = .free then none
  else if (s.slots (seq % capacity)).seq ≠ seq then none
  else some (seq, (s.slots (seq % capacity)).value, false)

/-- `crash_scan(visit)`: the flag forced, then the last lap visited in order. -/
def crashScan (capacity : Nat) (s : LogRing T ι κ) : LogRing T ι κ × List (Nat × T × Bool) :=
  ({ s with flushing := true },
    (List.range' (lapStart capacity s.write) (s.write - lapStart capacity s.write)).filterMap
      (crashVisit capacity s))

/-- A call of the ring's interface. -/
inductive Call (T : Type)
  | reserve
  | fill (seq : Nat) (v : T)
  | publish (seq : Nat)
  | drain
  | crashScan

/-- One call and the events it shows, as the interleaved model's steps show them. -/
def callStep (capacity : Nat) (s : LogRing T ι κ) : Call T → LogRing T ι κ × List (Event T)
  | .reserve =>
    match s.reserveCall capacity with
    | (s', some w) => (s', [.reserved w])
    | (s', none) => (s', [.dropped])
  | .fill seq v => (s.fillCall capacity seq v, [])
  | .publish seq => (s.publishCall capacity seq, [.published seq (s.slots (seq % capacity)).value])
  | .drain => ((s.drainCall capacity).1, (s.drainCall capacity).2.map .emitted)
  | .crashScan => ((s.crashScan capacity).1, [])

/-- The caller's contract: the payload write and `publish` name a sequence `reserve` returned
that is not yet published, so its slot is still `WRITING` in the last lap. -/
def Allowed (capacity : Nat) (s : LogRing T ι κ) : Call T → Prop
  | .fill seq _ => seq < s.write ∧ s.write ≤ seq + capacity ∧ (s.slots (seq % capacity)).state = .writing
  | .publish seq => seq < s.write ∧ s.write ≤ seq + capacity ∧ (s.slots (seq % capacity)).state = .writing
  | _ => True

instance (capacity : Nat) (s : LogRing T ι κ) (c : Call T) : Decidable (s.Allowed capacity c) := by
  cases c <;> unfold Allowed <;> infer_instance

/-- The published messages with sequences in `[lo, hi)`, in order: what a history scan of
that window should visit. -/
def publishedIn (es : List (Event T)) (lo hi : Nat) : List (Nat × T) :=
  (List.range' lo (hi - lo)).filterMap fun k => (publishedValue es k).map (k, ·)

theorem lapStart_eq (capacity w : Nat) : lapStart capacity w = w - capacity := by
  unfold lapStart
  split <;> omega

/-- No event a call shows other than a publication publishes anything. -/
theorem publishedValue_append_emitted (es : List (Event T)) (vs : List T) (k : Nat) :
    publishedValue (es ++ vs.map Event.emitted) k = publishedValue es k := by
  have hnone : (vs.map Event.emitted).findSome? (Event.publication k) = none :=
    List.findSome?_eq_none_iff.2 (by simp [Event.publication])
  rw [publishedValue, List.findSome?_append, hnone, Option.or_none]
  rfl

section Window

variable {capacity : Nat}

/-- A store into the slot of sequence `j` is seen, within a lap holding `j`, at `j` only. -/
theorem update_lap (f : Nat → Slot T) (x : Slot T) {a j k : Nat} (hj : a ≤ j) (hj' : j < a + capacity)
    (hk : a ≤ k) (hk' : k < a + capacity) :
    Function.update f (j % capacity) x (k % capacity) = if k = j then x else f (k % capacity) := by
  split_ifs with h
  · rw [h, Function.update_self]
  · exact Function.update_of_ne (fun heq => h (eq_of_mod_eq_of_window hk hk' hj hj' heq)) _ _

/-- Below `Capacity`, the slots from `m_write` on are apart from the slot of any sequence
reserved so far. -/
theorem fresh_ne_slot {i j w : Nat} (hi : i < w) (hj : w ≤ j) (hjc : j < capacity) :
    j ≠ i % capacity := by
  rw [Nat.mod_eq_of_lt (by omega)]
  omega

/-- What sequential calls keep, of the ring and the events shown so far. The last lap
`[m_write - Capacity, m_write)` owns its slots; there an unpublished sequence has a `WRITING`
slot at or past `m_read`, a published one its payload in a slot `READY` from `m_read` on and
`FLUSHED` below. Every earlier sequence is published, and none from `m_write` on; below
`Capacity`, the slots from `m_write` on were never written. -/
structure Window (capacity : Nat) (s : LogRing T ι κ) (es : List (Event T)) : Prop where
  read_le : s.read ≤ s.write
  write_le : s.write ≤ s.read + capacity
  seq_eq : ∀ k, s.write - capacity ≤ k → k < s.write → (s.slots (k % capacity)).seq = k
  unpublished : ∀ k, s.write - capacity ≤ k → k < s.write → publishedValue es k = none →
    (s.slots (k % capacity)).state = .writing ∧ s.read ≤ k
  published : ∀ k v, s.write - capacity ≤ k → k < s.write → publishedValue es k = some v →
    (s.slots (k % capacity)).value = v ∧
      ((s.slots (k % capacity)).state = .ready ∧ s.read ≤ k ∨
        (s.slots (k % capacity)).state = .flushed ∧ k < s.read)
  settled : ∀ k, k + capacity < s.write → publishedValue es k ≠ none
  fresh : ∀ j, s.write ≤ j → j < capacity → (s.slots j).state = .free
  ahead : ∀ k, s.write ≤ k → publishedValue es k = none

variable {s : LogRing T ι κ} {es : List (Event T)}

theorem window_init [Inhabited T] : Window capacity (init : LogRing T ι κ) [] where
  read_le := Nat.le_refl 0
  write_le := Nat.zero_le _
  seq_eq _ _ h := absurd h (Nat.not_lt_zero _)
  unpublished _ _ h := absurd h (Nat.not_lt_zero _)
  published _ _ _ h := absurd h (Nat.not_lt_zero _)
  settled _ h := absurd h (Nat.not_lt_zero _)
  fresh _ _ _ := rfl
  ahead _ _ := rfl

/-- The invariant reads the events only through what they publish. -/
theorem Window.of_publishedValue (h : Window capacity s es) {es' : List (Event T)}
    (he : ∀ k, publishedValue es' k = publishedValue es k) : Window capacity s es' where
  read_le := h.read_le
  write_le := h.write_le
  seq_eq := h.seq_eq
  unpublished k h1 h2 h3 := h.unpublished k h1 h2 (he k ▸ h3)
  published k v h1 h2 h3 := h.published k v h1 h2 (he k ▸ h3)
  settled k hk := he k ▸ h.settled k hk
  fresh := h.fresh
  ahead k hk := (he k).trans (h.ahead k hk)

/-- A `WRITING` slot of the lap belongs to an unpublished sequence. -/
theorem Window.unpublished_of_writing (h : Window capacity s es) {k : Nat} (h1 : s.write - capacity ≤ k)
    (h2 : k < s.write) (hw : (s.slots (k % capacity)).state = .writing) : publishedValue es k = none := by
  cases hp : publishedValue es k with
  | none => rfl
  | some v =>
    rcases (h.published k v h1 h2 hp).2 with ⟨hr, -⟩ | ⟨hf, -⟩
    · rw [hw] at hr; cases hr
    · rw [hw] at hf; cases hf

/-- A full ring drops the message and changes nothing else. -/
theorem Window.dropped (h : Window capacity s es) :
    Window capacity { s with dropped := s.dropped + 1 } (es ++ [.dropped]) :=
  (show Window capacity { s with dropped := s.dropped + 1 } es from { h with }).of_publishedValue
    (publishedValue_append_of_none es (.dropped : Event T) fun _ => rfl)

/-- A reservation that passes the fullness check: the slot of `w = m_write` takes `w` as its
sequence and goes `WRITING`, and the lap moves on by one. -/
theorem Window.reserve (h : Window capacity s es) (hcap : 0 < capacity)
    (hcap' : capacity < 0x10000000000000000) (hroom : ¬sub64 s.write s.read ≥ capacity) :
    Window capacity
      { s.setSlot (s.write % capacity) { s.slots (s.write % capacity) with seq := s.write, state := .writing }
        with write := s.write + 1 } (es ++ [.reserved s.write]) := by
  have hlt : s.write < s.read + capacity := by
    have := h.read_le
    have := h.write_le
    unfold sub64 at hroom
    omega
  have he := publishedValue_append_of_none es (.reserved s.write : Event T) fun _ => rfl
  -- the new lap is `[w + 1 - Capacity, w + 1)`, and `w` is its only sequence in slot `w % Capacity`
  have hslot (x : Slot T) (k : Nat) (h1 : s.write + 1 - capacity ≤ k) (h2 : k < s.write + 1) :
      Function.update s.slots (s.write % capacity) x (k % capacity) =
        if k = s.write then x else s.slots (k % capacity) :=
    update_lap _ _ (a := s.write + 1 - capacity) (by omega) (by omega) h1 (by omega)
  refine ⟨by simp only [setSlot_read]; have := h.read_le; omega, by simp only [setSlot_read]; omega,
    ?_, ?_, ?_, ?_, ?_, ?_⟩
  · intro k h1 h2
    simp only [setSlot_slots] at h1 h2 ⊢
    rw [hslot _ k h1 h2]
    split_ifs with hk
    · exact hk.symm
    · exact h.seq_eq k (by omega) (by omega)
  · intro k h1 h2 hp
    simp only [setSlot_slots, setSlot_read] at h1 h2 ⊢
    rw [hslot _ k h1 h2]
    rw [he] at hp
    split_ifs with hk
    · exact ⟨rfl, by have := h.read_le; omega⟩
    · exact h.unpublished k (by omega) (by omega) hp
  · intro k v h1 h2 hp
    simp only [setSlot_slots, setSlot_read] at h1 h2 ⊢
    rw [hslot _ k h1 h2]
    rw [he] at hp
    split_ifs with hk
    · rw [hk, h.ahead s.write (Nat.le_refl _)] at hp
      cases hp
    · exact h.published k v (by omega) (by omega) hp
  · intro k hk hp
    simp only at hk
    rw [he] at hp
    by_cases hk' : k + capacity < s.write
    · exact h.settled k hk' hp
    · -- the sequence leaving the lap is below `m_read`, so it was published and drained
      have hr := (h.unpublished k (by omega) (by omega) hp).2
      omega
  · intro j hj hjc
    simp only [setSlot_slots] at hj ⊢
    rw [Function.update_of_ne (fresh_ne_slot (Nat.lt_succ_self _) hj hjc)]
    exact h.fresh j (by omega) hjc
  · intro k hk
    simp only at hk
    rw [he]
    exact h.ahead k (by omega)

section Publish

variable {seq : Nat} (hseq : s.write - capacity ≤ seq) (hseq' : seq < s.write)
  (hw : (s.slots (seq % capacity)).state = .writing)
include hseq hseq' hw

/-- The payload write into a `WRITING` slot of the lap touches no state and no sequence, and no
published payload. -/
theorem Window.fill (h : Window capacity s es) (v : T) : Window capacity (s.fillCall capacity seq v) es := by
  have hsame (i : Nat) : ((s.fillCall capacity seq v).slots i).seq = (s.slots i).seq ∧
      ((s.fillCall capacity seq v).slots i).state = (s.slots i).state := by
    unfold fillCall
    by_cases hi : i = seq % capacity
    · subst hi
      simp
    · simp [Function.update_of_ne hi]
  refine ⟨h.read_le, h.write_le, fun k h1 h2 => ?_, fun k h1 h2 hp => ?_,
    fun k v' (h1 : s.write - capacity ≤ k) (h2 : k < s.write) hp => ?_, h.settled, fun j hj hjc => ?_,
    h.ahead⟩
  · rw [(hsame _).1]
    exact h.seq_eq k h1 h2
  · rw [(hsame _).2]
    exact h.unpublished k h1 h2 hp
  · -- a published sequence of the lap is not `seq`, whose slot is still `WRITING`
    have hk : k ≠ seq := by
      rintro rfl
      rw [h.unpublished_of_writing h1 h2 hw] at hp
      cases hp
    unfold fillCall
    rw [setSlot_slots, update_lap _ _ (a := s.write - capacity) hseq (by omega) h1 (by omega), if_neg hk]
    exact h.published k v' h1 h2 hp
  · rw [(hsame _).2]
    exact h.fresh j hj hjc

/-- `publish(seq)` of a `WRITING` slot of the lap: the slot goes `READY` with the payload the
event publishes. -/
theorem Window.publish (h : Window capacity s es) :
    Window capacity (s.publishCall capacity seq) (es ++ [.published seq (s.slots (seq % capacity)).value]) := by
  have hp0 := h.unpublished_of_writing hseq hseq' hw
  have he (k : Nat) : publishedValue (es ++ [.published seq (s.slots (seq % capacity)).value]) k =
      if k = seq then some (s.slots (seq % capacity)).value else publishedValue es k := by
    rw [publishedValue_append]
    by_cases hk : k = seq
    · subst hk
      simp [Event.publication, hp0]
    · simp [Event.publication, hk, Ne.symm hk]
  have hslot (k : Nat) (h1 : s.write - capacity ≤ k) (h2 : k < s.write) :
      (s.publishCall capacity seq).slots (k % capacity) =
        if k = seq then { s.slots (seq % capacity) with state := .ready } else s.slots (k % capacity) :=
    update_lap _ _ hseq (by omega) h1 (by omega)
  refine ⟨h.read_le, h.write_le, fun k (h1 : s.write - capacity ≤ k) (h2 : k < s.write) => ?_,
    fun k (h1 : s.write - capacity ≤ k) (h2 : k < s.write) hp => ?_,
    fun k v (h1 : s.write - capacity ≤ k) (h2 : k < s.write) hp => ?_,
    fun k hk => ?_, fun j (hj : s.write ≤ j) hjc => ?_, fun k (hk : s.write ≤ k) => ?_⟩
  · rw [hslot k h1 h2]
    split_ifs with hk
    · rw [hk]
      exact h.seq_eq seq hseq hseq'
    · exact h.seq_eq k h1 h2
  · rw [he] at hp
    rw [hslot k h1 h2]
    split_ifs at hp ⊢ with hk
    exact h.unpublished k h1 h2 hp
  · rw [he] at hp
    rw [hslot k h1 h2]
    split_ifs at hp ⊢ with hk
    · cases hp
      exact ⟨rfl, .inl ⟨rfl, hk ▸ (h.unpublished seq hseq hseq' hp0).2⟩⟩
    · exact h.published k v h1 h2 hp
  · rw [he]
    split_ifs with hk'
    · exact Option.some_ne_none _
    · exact h.settled k hk
  · simp only [publishCall, setSlot_slots]
    rw [Function.update_of_ne (fresh_ne_slot hseq' hj hjc)]
    exact h.fresh j hj hjc
  · rw [he, if_neg (by omega)]
    exact h.ahead k hk

end Publish

section Drain

variable (hcap : 0 < capacity)
include hcap

/-- `drain` finds the slot at `m_read` `READY` only below `m_write`: from `m_write` on, the slot
there is fresh or holds the drained sequence of the lap before. -/
theorem Window.read_lt_of_ready (h : Window capacity s es)
    (hr : (s.slots (s.read % capacity)).state = .ready) : s.read < s.write := by
  by_contra hge
  have hrw : s.read = s.write := by
    have := h.read_le
    omega
  by_cases hw : s.write < capacity
  · have hfree := h.fresh s.read (by omega) (by omega)
    rw [Nat.mod_eq_of_lt (by omega), hfree] at hr
    cases hr
  · -- the slot of `m_write` is that of `m_write - Capacity`, which `m_read` has passed
    have hmod : s.read % capacity = (s.write - capacity) % capacity := by
      rw [hrw]
      conv_lhs => rw [show s.write = s.write - capacity + capacity by omega]
      exact Nat.add_mod_right _ _
    have h1 : s.write - capacity ≤ s.write - capacity := Nat.le_refl _
    have h2 : s.write - capacity < s.write := by omega
    cases hp : publishedValue es (s.write - capacity) with
    | none =>
      have := (h.unpublished _ h1 h2 hp).2
      omega
    | some v =>
      rcases (h.published _ v h1 h2 hp).2 with ⟨-, hle⟩ | ⟨hf, -⟩
      · omega
      · rw [hmod, hf] at hr
        cases hr

/-- One round of `drain`'s loop: the `READY` slot at `m_read` goes `FLUSHED` and `m_read` passes it. -/
theorem Window.drainRound (h : Window capacity s es) (hr : (s.slots (s.read % capacity)).state = .ready) :
    Window capacity
      { s.setSlot (s.read % capacity) { s.slots (s.read % capacity) with state := .flushed }
        with read := s.read + 1 } es := by
  have hlt := h.read_lt_of_ready hcap hr
  have hread := h.write_le
  have hslot (k : Nat) (h1 : s.write - capacity ≤ k) (h2 : k < s.write) :
      Function.update s.slots (s.read % capacity) { s.slots (s.read % capacity) with state := .flushed }
          (k % capacity) =
        if k = s.read then { s.slots (s.read % capacity) with state := .flushed } else s.slots (k % capacity) :=
    update_lap _ _ (a := s.write - capacity) (by omega) (by omega) h1 (by omega)
  refine ⟨hlt, by simp only [setSlot_write]; omega, fun k (h1 : s.write - capacity ≤ k) (h2 : k < s.write) => ?_,
    fun k (h1 : s.write - capacity ≤ k) (h2 : k < s.write) hp => ?_,
    fun k v (h1 : s.write - capacity ≤ k) (h2 : k < s.write) hp => ?_, h.settled,
    fun j (hj : s.write ≤ j) hjc => ?_, h.ahead⟩
  · simp only [setSlot_slots]
    rw [hslot k h1 h2]
    split_ifs with hk
    · rw [← hk]
      exact h.seq_eq k h1 h2
    · exact h.seq_eq k h1 h2
  · -- the drained slot is `READY`, so its sequence is published
    have hk : k ≠ s.read := by
      rintro rfl
      rw [(h.unpublished _ h1 h2 hp).1] at hr
      cases hr
    simp only [setSlot_slots]
    rw [hslot k h1 h2, if_neg hk]
    have := h.unpublished k h1 h2 hp
    exact ⟨this.1, by omega⟩
  · obtain ⟨hv, hst⟩ := h.published k v h1 h2 hp
    simp only [setSlot_slots]
    rw [hslot k h1 h2]
    split_ifs with hk
    · exact ⟨hk ▸ hv, .inr ⟨rfl, by omega⟩⟩
    · refine ⟨hv, ?_⟩
      rcases hst with ⟨hst, hle⟩ | ⟨hst, hle⟩
      · exact .inl ⟨hst, by omega⟩
      · exact .inr ⟨hst, by omega⟩
  · simp only [setSlot_slots]
    rw [Function.update_of_ne (fresh_ne_slot hlt hj hjc)]
    exact h.fresh j hj hjc

/-- `drain`'s loop keeps the invariant, however many rounds it runs. -/
theorem Window.drainLoop (h : Window capacity s es) (fuel : Nat) :
    Window capacity (s.drainLoop capacity fuel s.read).1 es := by
  induction fuel generalizing s with
  | zero => exact h
  | succ fuel ih =>
    unfold LogRing.drainLoop
    split_ifs with hr
    · exact ih (h.drainRound hcap hr)
    · exact h

/-- `drain` keeps the invariant; the payloads it emits publish nothing. -/
theorem Window.drain (h : Window capacity s es) :
    Window capacity (s.drainCall capacity).1 (es ++ (s.drainCall capacity).2.map .emitted) := by
  refine Window.of_publishedValue ?_ (publishedValue_append_emitted es _)
  unfold drainCall
  split
  · exact h
  · exact h.drainLoop hcap _

end Drain

/-- One call the caller's contract allows keeps the invariant, with the events it shows. -/
theorem Window.callStep (h : Window capacity s es) (hcap : 0 < capacity)
    (hcap' : capacity < 0x10000000000000000) (c : Call T) (hc : s.Allowed capacity c) :
    Window capacity (s.callStep capacity c).1 (es ++ (s.callStep capacity c).2) := by
  cases c with
  | reserve =>
    by_cases hroom : sub64 s.write s.read ≥ capacity
    · simp only [LogRing.callStep, reserveCall, if_pos hroom]
      exact h.dropped
    · simp only [LogRing.callStep, reserveCall, if_neg hroom]
      exact h.reserve hcap hcap' hroom
  | fill seq v =>
    obtain ⟨h1, h2, hw⟩ := hc
    rw [LogRing.callStep, List.append_nil]
    exact h.fill (by omega) h1 hw v
  | publish seq =>
    obtain ⟨h1, h2, hw⟩ := hc
    exact h.publish (by omega) h1 hw
  | drain => exact h.drain hcap
  | crashScan =>
    rw [LogRing.callStep, List.append_nil]
    exact { h with }

/-- `for_each`'s round at a sequence of the lap visits it exactly when it is published, with
the published payload. -/
theorem Window.forEachStep_eq (h : Window capacity s es) {k : Nat} (h1 : s.write - capacity ≤ k)
    (h2 : k < s.write) (acc : List (Nat × T) × Nat) :
    s.forEachStep capacity acc k = ((publishedValue es k).map (k, ·)).elim acc fun y => (acc.1 ++ [y], y.1 + 1) := by
  cases hp : publishedValue es k with
  | none =>
    have hw := (h.unpublished k h1 h2 hp).1
    simp [forEachStep, hw]
  | some v =>
    obtain ⟨hv, hst⟩ := h.published k v h1 h2 hp
    have hs := h.seq_eq k h1 h2
    rcases hst with ⟨hst, -⟩ | ⟨hst, -⟩ <;> simp [forEachStep, hst, hs, hv]

/-- `for_each(min_seq)` visits the published messages of `[max(m_write - Capacity, min_seq),
m_write)` and returns one past the last of them, or `min_seq`. -/
theorem Window.forEach_eq (h : Window capacity s es) (minSeq : Nat) :
    s.forEach capacity minSeq =
      (publishedIn es (max (s.write - capacity) minSeq) s.write,
        ((publishedIn es (max (s.write - capacity) minSeq) s.write).getLast?.map fun p => p.1 + 1).getD minSeq) := by
  unfold forEach publishedIn
  rw [lapStart_eq]
  dsimp only
  rw [List.foldl_ext _ (fun acc x => ((publishedValue es x).map (x, ·)).elim acc fun y => (acc.1 ++ [y], y.1 + 1))
    _ fun acc k hk => ?_, foldl_visit]
  · rfl
  · rw [List.mem_range'_1] at hk
    exact h.forEachStep_eq (by omega) (by omega) acc

/-- `crash_scan` passes every sequence of the lap: a published one with its payload, an
unpublished one as in progress. -/
theorem Window.crashVisit_eq (h : Window capacity s es) {k : Nat} (h1 : s.write - capacity ≤ k)
    (h2 : k < s.write) :
    s.crashVisit capacity k =
      some ((publishedValue es k).elim (k, (s.slots (k % capacity)).value, true) fun v => (k, v, false)) := by
  cases hp : publishedValue es k with
  | none =>
    have hw := (h.unpublished k h1 h2 hp).1
    simp [crashVisit, hw]
  | some v =>
    obtain ⟨hv, hst⟩ := h.published k v h1 h2 hp
    have hs := h.seq_eq k h1 h2
    rcases hst with ⟨hst, -⟩ | ⟨hst, -⟩ <;> simp [crashVisit, hst, hs, hv]

theorem Window.crashScan_eq (h : Window capacity s es) :
    (s.crashScan capacity).2 =
      (List.range' (s.write - capacity) (s.write - (s.write - capacity))).map fun k =>
        (publishedValue es k).elim (k, (s.slots (k % capacity)).value, true) fun v => (k, v, false) := by
  unfold crashScan
  rw [lapStart_eq]
  refine List.filterMap_eq_map_iff_forall_eq_some.2 fun k hk => ?_
  rw [List.mem_range'_1] at hk
  exact h.crashVisit_eq (by omega) (by omega)

/-- Every run of calls the contract allows keeps the invariant, with the events it has shown. -/
theorem window_run [Inhabited T] (hcap : 0 < capacity) (hcap' : capacity < 0x10000000000000000)
    {cs : List (Call T)} (hcs : Guarded (LogRing.callStep capacity) (Allowed capacity) (init : LogRing T ι κ) cs) :
    Window capacity (run (LogRing.callStep capacity) (init : LogRing T ι κ) cs).1
      (run (LogRing.callStep capacity) (init : LogRing T ι κ) cs).2.flatten := by
  have h0 : Window capacity (init : LogRing T ι κ) ([] : List (List (Event T))).flatten := window_init
  have := run_history_guarded (Allowed capacity) (fun s os => Window capacity s os.flatten)
    (fun s os c hc hs => by
      rw [List.flatten_append, List.flatten_singleton]
      exact hs.callStep hcap hcap' c hc) cs hcs h0
  simpa using this

end Window

/-- The history scans over any sequential run from construction: `for_each(min_seq)` visits, in
increasing order, exactly the published messages with sequences in
`[max(m_write - Capacity, min_seq), m_write)`, `FLUSHED` or not, and returns one past the last
one visited or `min_seq`; `crash_scan` passes every sequence of `[m_write - Capacity, m_write)`
once, in order, the unpublished ones as in progress. -/
theorem sequential_scans_visit_window [Inhabited T] {capacity : Nat} (hcap : 0 < capacity)
    (hcap' : capacity < 0x10000000000000000) {cs : List (Call T)}
    (hcs : Guarded (LogRing.callStep capacity) (Allowed capacity) (init : LogRing T ι κ) cs)
    {s : LogRing T ι κ} {os : List (List (Event T))} (hrun : run (LogRing.callStep capacity) init cs = (s, os))
    (minSeq : Nat) :
    (s.forEach capacity minSeq).1 = publishedIn os.flatten (max (s.write - capacity) minSeq) s.write ∧
      ((s.forEach capacity minSeq).1.map Prod.fst).Pairwise (· < ·) ∧
      (s.forEach capacity minSeq).2 =
        ((publishedIn os.flatten (max (s.write - capacity) minSeq) s.write).getLast?.map fun p => p.1 + 1).getD
          minSeq ∧
      (s.crashScan capacity).2 =
        (List.range' (s.write - capacity) (s.write - (s.write - capacity))).map fun k =>
          (publishedValue os.flatten k).elim (k, (s.slots (k % capacity)).value, true) fun v => (k, v, false) := by
  have h := window_run hcap hcap' hcs
  rw [hrun] at h
  have hfe := h.forEach_eq minSeq
  refine ⟨by rw [hfe], ?_, by rw [hfe], h.crashScan_eq⟩
  -- the visited sequences are a sublist of the window's, which ascend
  rw [hfe, publishedIn, List.map_filterMap, List.pairwise_filterMap]
  refine (List.pairwise_lt_range' 1).imp fun {a a'} hlt b hb b' hb' => ?_
  simp only [Option.map_map, Function.comp_def, Option.map_eq_some_iff] at hb hb'
  obtain ⟨_, -, rfl⟩ := hb
  obtain ⟨_, -, rfl⟩ := hb'
  exact hlt

/-- Two laps of a ring of two: sequences `0` and `1` published and drained, then `2` reserved
and filled but not published and `3` published. -/
def wrapCalls : List (Call Nat) :=
  [.reserve, .fill 0 10, .publish 0, .reserve, .fill 1 11, .publish 1, .drain,
    .reserve, .fill 2 12, .reserve, .fill 3 13, .publish 3]

example : ((run (LogRing.callStep 2) (init : LogRing Nat Unit Unit) wrapCalls).1.forEach 2 0) = ([(3, 13)], 4) := by
  decide

example : ((run (LogRing.callStep 2) (init : LogRing Nat Unit Unit) wrapCalls).1.crashScan 2).2 =
    [(2, 12, true), (3, 13, false)] := by
  decide

/-- The scans after `wrapCalls`, from sequence `0`. -/
theorem sequential_scans_visit_window_after_wrap :
    Guarded (LogRing.callStep 2) (Allowed 2) (init : LogRing Nat Unit Unit) wrapCalls ∧
      ((run (LogRing.callStep 2) (init : LogRing Nat Unit Unit) wrapCalls).1.forEach 2 0).1 =
          publishedIn (run (LogRing.callStep 2) (init : LogRing Nat Unit Unit) wrapCalls).2.flatten
            (max ((run (LogRing.callStep 2) (init : LogRing Nat Unit Unit) wrapCalls).1.write - 2) 0)
            (run (LogRing.callStep 2) (init : LogRing Nat Unit Unit) wrapCalls).1.write ∧
        (((run (LogRing.callStep 2) (init : LogRing Nat Unit Unit) wrapCalls).1.forEach 2 0).1.map
          Prod.fst).Pairwise (· < ·) ∧
        ((run (LogRing.callStep 2) (init : LogRing Nat Unit Unit) wrapCalls).1.forEach 2 0).2 =
          ((publishedIn (run (LogRing.callStep 2) (init : LogRing Nat Unit Unit) wrapCalls).2.flatten
            (max ((run (LogRing.callStep 2) (init : LogRing Nat Unit Unit) wrapCalls).1.write - 2) 0)
            (run (LogRing.callStep 2) (init : LogRing Nat Unit Unit) wrapCalls).1.write).getLast?.map
              fun p => p.1 + 1).getD 0 ∧
        ((run (LogRing.callStep 2) (init : LogRing Nat Unit Unit) wrapCalls).1.crashScan 2).2 =
          (List.range' ((run (LogRing.callStep 2) (init : LogRing Nat Unit Unit) wrapCalls).1.write - 2)
            ((run (LogRing.callStep 2) (init : LogRing Nat Unit Unit) wrapCalls).1.write -
              ((run (LogRing.callStep 2) (init : LogRing Nat Unit Unit) wrapCalls).1.write - 2))).map fun k =>
            (publishedValue (run (LogRing.callStep 2) (init : LogRing Nat Unit Unit) wrapCalls).2.flatten k).elim
              (k, ((run (LogRing.callStep 2) (init : LogRing Nat Unit Unit) wrapCalls).1.slots (k % 2)).value, true)
              fun v => (k, v, false) := by
  have hcs : Guarded (LogRing.callStep 2) (Allowed 2) (init : LogRing Nat Unit Unit) wrapCalls := by decide
  exact ⟨hcs, sequential_scans_visit_window (by decide) (by decide) hcs rfl 0⟩

end LogRing

end Archipelago.Log
