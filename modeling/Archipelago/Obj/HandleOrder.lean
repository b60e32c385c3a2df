import Archipelago.Obj.HandleInvariant
import Archipelago.Lib.Run

/-! The order in which `create_handle` hands out slots. `grow` runs only on an empty free
list and links its batch ascending; `clear` rebuilds the list ascending from the top down.
So from a fresh table, or right after `clear`, a run of `create_handle` calls with no
release in between hands out slots in strictly ascending order across any number of
batches (`AscendsFrom`). When every call succeeds, the slots are exactly the free list and
then the fresh slots from the end of the vector, in order (`Queue`). -/

namespace Archipelago.Obj

open Archipelago.Lib

namespace HandleTable

/-- One `create_handle(object, rights)`: the registry it consults and the room `grow` has. -/
structure CreateCall where
  reg : TypeRegistry
  object : Option Object
  rights : Rights
  room : Nat

def createCall (t : HandleTable) (c : CreateCall) : HandleTable × Except Errc HandleId :=
  t.createHandle c.reg c.object c.rights c.room

/-- The slots the successful calls handed out, in call order. -/
def handedOut : List (Except Errc HandleId) → List Nat
  | [] => []
  | .ok id :: rs => id.index :: handedOut rs
  | .error _ :: rs => handedOut rs

/-- `create_handle` on an object it accepts: grow an empty free list first, then pop. -/
theorem createHandle_of_accepted {t : HandleTable} {reg : TypeRegistry} {o : Object}
    {d : TypeDescriptor} {rights : Rights} {room : Nat} (hd : reg.lookup o.typeId = some d)
    (hr : ¬rights &&& ~~~d.validRights ≠ 0) :
    t.createHandle reg (some o) rights room =
      if t.freeHead = -1 then
        (if room < growBatch then ((t.grow room).1, .error .oom) else (t.grow room).1.popFree o rights)
      else t.popFree o rights := by
  unfold createHandle
  simp only [hd, if_neg hr]
  by_cases hh : t.freeHead = -1
  · by_cases hroom : room < growBatch
    · simp [hh, hroom, grow_of_lt hroom]
    · simp [hh, hroom, grow_of_le hroom]
  · simp [hh]

/-- The calls `create_handle` refuses before the lock leave the table as it was. -/
theorem createHandle_of_refused {t : HandleTable} {reg : TypeRegistry} {object : Option Object}
    {rights : Rights} {room : Nat}
    (h : ∀ o d, object = some o → reg.lookup o.typeId = some d → rights &&& ~~~d.validRights ≠ 0) :
    ∃ e, t.createHandle reg object rights room = (t, .error e) := by
  cases object with
  | none => exact ⟨.nullArgument, by simp [createHandle]⟩
  | some o =>
    cases hd : reg.lookup o.typeId with
    | none => exact ⟨.wrongType, by simp [createHandle, hd]⟩
    | some d =>
      have hr : ¬rights &&& ~~~d.validRights = 0#32 := h o d rfl hd
      exact ⟨.rightsViolation, by simp [createHandle, hd, hr]⟩

/-- After a `grow` on an empty list, the free list is the new batch. -/
theorem grow_freeList_of_empty {t : HandleTable} (hl : t.FreeList []) {room : Nat} (hr : ¬room < growBatch) :
    (t.grow room).1.FreeList ((List.range growBatch).map fun j => ((t.entries.length + j : Nat) : Int)) := by
  simpa [hr] using grow_freeList hl room

theorem freeList_nil_of_head {t : HandleTable} {l : List Int} (hl : t.FreeList l) (hh : t.freeHead = -1) :
    l = [] :=
  (hl.1.eq_nil_iff).1 hh

/-! ### Ascending from any start the list ascends from -/

/-- Every slot a later call can hand out is at least `lo`: the free list ascends from `lo`
on, and the vector ends at or above `lo`. -/
def AscendsFrom (t : HandleTable) (lo : Nat) : Prop :=
  ∃ l, t.FreeList l ∧ l.Pairwise (· < ·) ∧ (∀ x ∈ l, (lo : Int) ≤ x) ∧ lo ≤ t.entries.length

theorem AscendsFrom.popFree {t : HandleTable} {lo : Nat} (h : t.AscendsFrom lo) (hh : t.freeHead ≠ -1)
    (o : Object) (rights : Rights) :
    lo ≤ t.freeHead.toNat ∧ (t.popFree o rights).1.AscendsFrom (t.freeHead.toNat + 1) := by
  obtain ⟨l, hl, hsort, hlo, hlen⟩ := h
  cases l with
  | nil => exact absurd (hl.1 : t.freeHead = -1) hh
  | cons x l =>
    obtain ⟨hx, -, -⟩ := hl.1
    subst hx
    obtain ⟨hx0, hxlt, -⟩ := hl.2 t.freeHead (by simp)
    obtain ⟨hxl, hsort'⟩ := List.pairwise_cons.1 hsort
    have hlo' := hlo t.freeHead (by simp)
    refine ⟨by omega, l, popFree_freeList hl o rights, hsort', fun y hy => ?_, ?_⟩
    · have := hxl y hy
      omega
    · simp only [HandleTable.popFree, List.length_set]
      omega

theorem AscendsFrom.grow_short {t : HandleTable} {lo : Nat} (h : t.AscendsFrom lo) {room : Nat}
    (hr : room < growBatch) : (t.grow room).1.AscendsFrom lo := by
  obtain ⟨l, hl, hsort, hlo, hlen⟩ := h
  have hl' := grow_freeList hl room
  simp only [hr, ↓reduceIte] at hl'
  refine ⟨l, hl', hsort, hlo, ?_⟩
  rw [grow_length]
  omega

theorem AscendsFrom.grow {t : HandleTable} {lo : Nat} (h : t.AscendsFrom lo) (hh : t.freeHead = -1)
    {room : Nat} (hr : ¬room < growBatch) :
    (t.grow room).1.freeHead ≠ -1 ∧ (t.grow room).1.AscendsFrom lo := by
  obtain ⟨l, hl, -, -, hlen⟩ := h
  have hl₀ := freeList_nil_of_head hl hh
  subst hl₀
  have hg := grow_freeList_of_empty hl hr
  refine ⟨fun e => ?_, _, hg, ?_, fun x hx => ?_, ?_⟩
  · have := (hg.1.eq_nil_iff).1 e
    simp [growBatch] at this
  · refine List.pairwise_map.2 (List.Pairwise.imp (fun {a b} (hab : a < b) => ?_) (List.pairwise_lt_range))
    omega
  · obtain ⟨j, -, rfl⟩ := List.mem_map.1 hx
    omega
  · rw [grow_length, if_neg hr]
    omega

/-- The step lemma: a successful call hands out a slot at least `lo`, and every later slot
is above it; a failed one keeps the bound. -/
theorem AscendsFrom.step {t : HandleTable} {lo : Nat} (h : t.AscendsFrom lo) (c : CreateCall) :
    match (t.createCall c).2 with
    | .ok id => lo ≤ id.index ∧ (t.createCall c).1.AscendsFrom (id.index + 1)
    | .error _ => (t.createCall c).1.AscendsFrom lo := by
  by_cases hacc : ∃ o d, c.object = some o ∧ c.reg.lookup o.typeId = some d ∧
      ¬c.rights &&& ~~~d.validRights ≠ 0
  · obtain ⟨o, d, ho, hd, hr⟩ := hacc
    have hc : t.createHandle c.reg (some o) c.rights c.room = _ := createHandle_of_accepted hd hr
    rw [← ho] at hc
    unfold HandleTable.createCall
    rw [hc]
    by_cases hh : t.freeHead = -1
    · by_cases hroom : c.room < growBatch
      · simpa [hh, hroom] using h.grow_short hroom
      · obtain ⟨hne, hg⟩ := h.grow hh hroom
        obtain ⟨hle, hnext⟩ := hg.popFree hne o c.rights
        simpa [hh, hroom, popFree_result] using ⟨hle, hnext⟩
    · obtain ⟨hle, hnext⟩ := h.popFree hh o c.rights
      simpa [hh, popFree_result] using ⟨hle, hnext⟩
  · obtain ⟨e, he⟩ : ∃ e, t.createHandle c.reg c.object c.rights c.room = (t, .error e) :=
      createHandle_of_refused fun o d ho hd => by
        intro hr
        exact hacc ⟨o, d, ho, hd, fun hne => hne hr⟩
    unfold HandleTable.createCall
    simpa [he] using h

/-- The run lemma: the slots a run hands out ascend strictly, all at least `lo`. -/
theorem AscendsFrom.run {t : HandleTable} {lo : Nat} (h : t.AscendsFrom lo) (cs : List CreateCall) :
    (handedOut (Lib.run HandleTable.createCall t cs).2).Pairwise (· < ·) ∧ ∀ x ∈ handedOut (Lib.run HandleTable.createCall t cs).2, lo ≤ x := by
  induction cs generalizing t lo with
  | nil => simp [handedOut]
  | cons c cs ih =>
    have hstep := h.step c
    simp only [run_cons]
    cases hr : (t.createCall c).2 with
    | ok id =>
      rw [hr] at hstep
      obtain ⟨hle, hnext⟩ := hstep
      obtain ⟨hsort, hge⟩ := ih hnext
      refine ⟨List.pairwise_cons.2 ⟨fun x hx => by have := hge x hx; omega, hsort⟩, fun x hx => ?_⟩
      rcases List.mem_cons.1 hx with rfl | hx
      · exact hle
      · have := hge x hx
        omega
    | error e =>
      rw [hr] at hstep
      exact ih hstep

theorem ascendsFrom_empty : ({} : HandleTable).AscendsFrom 0 :=
  ⟨[], ⟨rfl, by simp⟩, .nil, by simp, le_rfl⟩

/-- `clear` leaves the non-retired slots on the list, ascending. -/
theorem ascendsFrom_clear (t : HandleTable) : t.clear.AscendsFrom 0 := by
  refine ⟨_, clear_freeList t, ?_, fun x hx => ?_, Nat.zero_le _⟩
  · refine List.pairwise_map.2 (List.Pairwise.imp (fun {a b} (hab : a < b) => ?_)
      (List.pairwise_lt_range.filter _))
    omega
  · obtain ⟨j, -, rfl⟩ := List.mem_map.1 hx
    omega

/-! ### The exact slots when every call succeeds -/

/-- The slots the next successful calls hand out, one for each: the free list, then the
fresh slots from the end of the vector. -/
def Queue (t : HandleTable) (q : Nat → Nat) : Prop :=
  ∃ l, t.FreeList l ∧ ∀ i, q i = (l.map Int.toNat).getD i (t.entries.length + (i - l.length))

theorem Queue.popFree {t : HandleTable} {q : Nat → Nat} (h : t.Queue q) (hh : t.freeHead ≠ -1)
    (o : Object) (rights : Rights) :
    t.freeHead.toNat = q 0 ∧ (t.popFree o rights).1.Queue fun i => q (i + 1) := by
  obtain ⟨l, hl, hq⟩ := h
  cases l with
  | nil => exact absurd (hl.1 : t.freeHead = -1) hh
  | cons x l =>
    obtain ⟨hx, -, -⟩ := hl.1
    subst hx
    refine ⟨by simp [hq 0], l, popFree_freeList hl o rights, fun i => ?_⟩
    show q (i + 1) = _
    rw [hq (i + 1)]
    simp only [HandleTable.popFree, List.length_set, List.map_cons, List.length_cons,
      List.getD_cons_succ]
    congr 2
    omega

theorem Queue.grow {t : HandleTable} {q : Nat → Nat} (h : t.Queue q) (hh : t.freeHead = -1)
    {room : Nat} (hr : ¬room < growBatch) : (t.grow room).1.freeHead ≠ -1 ∧ (t.grow room).1.Queue q := by
  obtain ⟨l, hl, hq⟩ := h
  have hl₀ := freeList_nil_of_head hl hh
  subst hl₀
  have hg := grow_freeList_of_empty hl hr
  refine ⟨fun e => by simpa [growBatch] using (hg.1.eq_nil_iff).1 e, _, hg, fun i => ?_⟩
  rw [hq i, grow_length, if_neg hr]
  simp only [List.map_nil, List.getD_nil, List.length_nil, List.map_map, List.length_map,
    List.length_range]
  by_cases hi : i < growBatch
  · simp [List.getD_eq_getElem?_getD, hi]
    omega
  · rw [List.getD_eq_default _ _ (by simpa using hi)]
    omega

/-- A successful call hands out the head of the queue and leaves the rest. -/
theorem Queue.step {t : HandleTable} {q : Nat → Nat} (h : t.Queue q) (c : CreateCall)
    {id : HandleId} (hok : (t.createCall c).2 = .ok id) :
    id.index = q 0 ∧ (t.createCall c).1.Queue fun i => q (i + 1) := by
  by_cases hacc : ∃ o d, c.object = some o ∧ c.reg.lookup o.typeId = some d ∧
      ¬c.rights &&& ~~~d.validRights ≠ 0
  · obtain ⟨o, d, ho, hd, hr⟩ := hacc
    have hc : t.createHandle c.reg (some o) c.rights c.room = _ := createHandle_of_accepted hd hr
    rw [← ho] at hc
    unfold HandleTable.createCall at hok ⊢
    rw [hc] at hok ⊢
    by_cases hh : t.freeHead = -1
    · by_cases hroom : c.room < growBatch
      · simp [hh, hroom] at hok
      · obtain ⟨hne, hg⟩ := h.grow hh hroom
        obtain ⟨hidx, hnext⟩ := hg.popFree hne o c.rights
        simp only [hh, hroom, ↓reduceIte, popFree_result, Except.ok.injEq] at hok ⊢
        subst hok
        exact ⟨hidx, hnext⟩
    · obtain ⟨hidx, hnext⟩ := h.popFree hh o c.rights
      simp only [hh, ↓reduceIte, popFree_result, Except.ok.injEq] at hok ⊢
      subst hok
      exact ⟨hidx, hnext⟩
  · obtain ⟨e, he⟩ : ∃ e, t.createHandle c.reg c.object c.rights c.room = (t, .error e) :=
      createHandle_of_refused fun o d ho hd => by
        intro hr
        exact hacc ⟨o, d, ho, hd, fun hne => hne hr⟩
    unfold HandleTable.createCall at hok
    simp [he] at hok

/-- The run lemma: a run in which every call succeeds hands out the queue, in order. -/
theorem Queue.run {t : HandleTable} {q : Nat → Nat} (h : t.Queue q) (cs : List CreateCall)
    (hok : ∀ r ∈ (Lib.run HandleTable.createCall t cs).2, r.isOk = true) :
    handedOut (Lib.run HandleTable.createCall t cs).2 = (List.range cs.length).map q := by
  induction cs generalizing t q with
  | nil => simp [handedOut]
  | cons c cs ih =>
    simp only [run_cons, List.mem_cons] at hok ⊢
    obtain ⟨id, hid⟩ : ∃ id, (t.createCall c).2 = .ok id := by
      have := hok _ (.inl rfl)
      cases hr : (t.createCall c).2 with
      | ok id => exact ⟨id, rfl⟩
      | error e => simp [hr, Except.isOk, Except.toBool] at this
    obtain ⟨hidx, hnext⟩ := h.step c hid
    rw [hid, handedOut, ih hnext fun r hr => hok r (.inr hr), hidx, List.length_cons,
      List.range_succ_eq_map, List.map_cons, List.map_map]
    rfl

theorem queue_empty : ({} : HandleTable).Queue id :=
  ⟨[], ⟨rfl, by simp⟩, fun i => by simp⟩

theorem queue_clear (t : HandleTable) :
    t.clear.Queue fun i =>
      ((List.range t.entries.length).filter fun j => (t.clear.entry j).generation != maxGeneration).getD i
        (t.entries.length + (i -
          ((List.range t.entries.length).filter fun j => (t.clear.entry j).generation != maxGeneration).length)) :=
  ⟨_, clear_freeList t, fun i => by
    rw [List.map_map, show (Int.toNat ∘ fun (j : Nat) => (j : Int)) = id from funext Int.toNat_natCast,
      List.map_id, clear_length, List.length_map]⟩

/-- From a fresh table, and right after `clear`, successive `create_handle` calls with no
release in between hand out strictly ascending slots, across any number of `grow` batches.
When every call succeeds, a fresh table hands out `0, 1, 2, ...`, and a cleared one its
non-retired slots in ascending order, then the slots of new batches from the end of the
vector. -/
theorem create_handle_slots_ascend (t : HandleTable) (cs : List CreateCall) :
    (handedOut (Lib.run HandleTable.createCall {} cs).2).Pairwise (· < ·) ∧
    (handedOut (Lib.run HandleTable.createCall t.clear cs).2).Pairwise (· < ·) ∧
    ((∀ r ∈ (Lib.run HandleTable.createCall {} cs).2, r.isOk = true) →
      handedOut (Lib.run HandleTable.createCall {} cs).2 = List.range cs.length) ∧
    ((∀ r ∈ (Lib.run HandleTable.createCall t.clear cs).2, r.isOk = true) →
      handedOut (Lib.run HandleTable.createCall t.clear cs).2 = (List.range cs.length).map fun i =>
        ((List.range t.entries.length).filter fun j => (t.clear.entry j).generation != maxGeneration).getD i
          (t.entries.length + (i -
            ((List.range t.entries.length).filter fun j => (t.clear.entry j).generation != maxGeneration).length))) := by
  refine ⟨(ascendsFrom_empty.run cs).1, ((ascendsFrom_clear t).run cs).1, fun hok => ?_,
    fun hok => (queue_clear t).run cs hok⟩
  rw [queue_empty.run cs hok, List.map_id]

/-- Inserting an event object with a registry that knows its type and room for a batch. -/
def eventCall : CreateCall :=
  ⟨{ types := [⟨type_ids.EVENT, "event", rightsAll, rightsAll⟩] }, some ⟨0, type_ids.EVENT⟩, 0, growBatch⟩

/-- Thirty-three inserts into a fresh table, the last from a second batch: slots 0 to 32. -/
theorem create_handle_slots_ascend_two_batches :
    (∀ r ∈ (Lib.run HandleTable.createCall {} (List.replicate 33 eventCall)).2, r.isOk = true) ∧
      handedOut (Lib.run HandleTable.createCall {} (List.replicate 33 eventCall)).2 = List.range 33 := by
  have hok : ∀ r ∈ (Lib.run HandleTable.createCall {} (List.replicate 33 eventCall)).2, r.isOk = true := by
    decide +kernel
  exact ⟨hok, (create_handle_slots_ascend {} (List.replicate 33 eventCall)).2.2.1 hok⟩

end HandleTable

end Archipelago.Obj
