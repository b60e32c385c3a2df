import Archipelago.Obj.HandleRuns

/-! How exact the free list is. Besides `WellFormed` (`m_count` counts the live slots; the
list from `m_free_head` is an acyclic chain of distinct, in-range dead slots), every dead slot
that has been handed out and is not retired is on the list (`Complete`): a dead slot off the
list has generation zero, pushed by a `grow` whose batch allocation failed and never handed
out, or the saturated generation. Every call keeps this (`Exact`), so it holds after every
run.

The list can still hold a slot at the saturated generation: `take` tests the generation
before raising it, so a slot taken at `MAX_GENERATION - 1` goes back on the list at
`MAX_GENERATION`, is handed out once more, and only its next release retires it. A failed
call leaves the table as it was, except that a `grow` whose allocation failed leaves the
slots it pushed appended. -/

namespace Archipelago.Obj

open Archipelago.Lib

namespace HandleTable

/-- Every dead slot off the free list `l` was never handed out (generation zero) or is
retired (generation saturated). -/
def Complete (t : HandleTable) (l : List Int) : Prop :=
  ∀ i, i < t.entries.length → (t.entry i).object = none → (i : Int) ∉ l →
    (t.entry i).generation = 0 ∨ (t.entry i).generation = maxGeneration

/-- The representation invariant with a complete free list. -/
structure Exact (t : HandleTable) : Prop where
  wellFormed : t.WellFormed
  complete : ∀ l, t.FreeList l → t.Complete l

variable {t : HandleTable}

/-- The free list is unique, so completeness of one chain is completeness of all. -/
theorem Exact.of_freeList {l : List Int} (hw : t.WellFormed) (hl : t.FreeList l)
    (hc : t.Complete l) : t.Exact :=
  ⟨hw, fun _ hl' => hl.unique hl' ▸ hc⟩

theorem exact_empty : ({} : HandleTable).Exact :=
  .of_freeList (l := []) wellFormed_empty ⟨rfl, by simp⟩ fun i hi => by simp at hi

/-- `grow` keeps the old list in the new one, and its new slots are at generation zero. -/
theorem grow_complete {l : List Int} (hc : t.Complete l) (room : Nat) :
    (t.grow room).1.Complete
      (if room < growBatch then l
       else (List.range growBatch).map (fun j => ((t.entries.length + j : Nat) : Int)) ++ l) := by
  intro i _ hdead hoff
  obtain ⟨hobj, -, hgen⟩ := grow_entry t room i
  rw [hgen]
  rw [hobj] at hdead
  by_cases hlt : i < t.entries.length
  · -- an old slot, off the old list as well
    refine hc i hlt hdead fun hmem => hoff ?_
    split
    · exact hmem
    · exact List.mem_append_right _ hmem
  · rw [entry_eq_default (Nat.le_of_not_lt hlt)]
    exact .inl rfl

theorem grow_exact (h : t.Exact) (room : Nat) : (t.grow room).1.Exact := by
  obtain ⟨l, hl⟩ := h.wellFormed.free
  exact .of_freeList (grow_wellFormed h.wellFormed room) (grow_freeList hl room)
    (grow_complete (h.complete l hl) room)

/-- Popping the head makes it live and leaves every other slot where it was. -/
theorem popFree_complete {x : Int} {l : List Int} (hl : t.FreeList (x :: l))
    (hc : t.Complete (x :: l)) (o : Object) (rights : Rights) :
    (t.popFree o rights).1.Complete l := by
  intro i hi hdead hoff
  have hlen : (t.popFree o rights).1.entries.length = t.entries.length := by simp [popFree]
  have hx : t.freeHead = x := hl.1.1
  rw [popFree_entry] at hdead ⊢
  by_cases hpop : t.freeHead.toNat = i ∧ t.freeHead.toNat < t.entries.length
  · rw [if_pos hpop] at hdead
    cases hdead
  rw [if_neg hpop] at hdead ⊢
  refine hc i (hlen ▸ hi) hdead fun hmem => ?_
  rcases List.mem_cons.1 hmem with heq | hmem
  · -- the popped slot is `x`, which is live now
    refine hpop ⟨?_, ?_⟩
    · rw [hx, ← heq, Int.toNat_natCast]
    · rw [hx, ← heq, Int.toNat_natCast]
      exact hlen ▸ hi
  · exact hoff hmem

/-- A failed `create_handle` changed nothing, or only appended the slots a failed `grow`
pushed. -/
theorem createHandle_error_grown {t' : HandleTable} {reg : TypeRegistry} {object : Option Object}
    {rights : Rights} {room : Nat} {err : Errc}
    (hc : t.createHandle reg object rights room = (t', .error err)) :
    t' = t ∨ room < growBatch ∧ t' = { t with entries := t.entries ++ List.replicate room .fresh } := by
  rcases createHandle_error hc with rfl | rfl
  · exact .inl rfl
  by_cases hr : room < growBatch
  · exact .inr ⟨hr, by rw [grow_of_lt hr]⟩
  -- a `grow` that succeeded made the table longer, and left a slot to pop
  exfalso
  have hlen := grow_length t room
  rw [if_neg hr] at hlen
  have hne : t ≠ (t.grow room).1 := fun heq => by
    have := congrArg (fun t : HandleTable => t.entries.length) heq
    unfold growBatch at hlen
    omega
  unfold createHandle at hc
  cases object with
  | none => exact hne (congrArg Prod.fst hc)
  | some o =>
  cases hd : reg.lookup o.typeId with
  | none =>
    simp only [hd] at hc
    exact hne (congrArg Prod.fst hc)
  | some d =>
  simp only [hd] at hc
  split at hc
  · exact hne (congrArg Prod.fst hc)
  by_cases hhead : t.freeHead = -1
  · simp only [hhead, ↓reduceIte, grow_of_le hr] at hc
    simp [popFree] at hc
  · simp [hhead, popFree] at hc

theorem createHandle_exact (h : t.Exact) (reg : TypeRegistry) (object : Option Object)
    (rights : Rights) (room : Nat) : (t.createHandle reg object rights room).1.Exact := by
  have hw := createHandle_wellFormed h.wellFormed reg object rights room
  cases hc : t.createHandle reg object rights room with
  | mk t' r =>
  rw [hc] at hw
  cases r with
  | ok id =>
    -- the head popped came from the old list, or from the list `grow` made
    obtain ⟨o, -, t₁, x, l, -, -, -, ht₁, hl, rfl, -⟩ := createHandle_ok h.wellFormed hc
    have h₁ : t₁.Exact := by
      rcases ht₁ with rfl | rfl
      exacts [h, grow_exact h room]
    exact .of_freeList hw (popFree_freeList hl o rights)
      (popFree_complete hl (h₁.complete _ hl) o rights)
  | error err =>
    rcases createHandle_error hc with rfl | rfl
    exacts [h, grow_exact h room]

/-- A released slot goes back on the list unless it was saturated. -/
theorem take_complete {id : HandleId} {e : HandleEntry} {l : List Int} (hc : t.Complete l)
    (h : t.lookupEntry id = some e) :
    (t.take id).1.Complete (if e.generation = maxGeneration then l else (id.index : Int) :: l) := by
  obtain ⟨-, rfl, -, ho⟩ := lookupEntry_eq_some.1 h
  obtain ⟨o, ho⟩ := Option.isSome_iff_exists.1 ho
  have hlen : (t.take id).1.entries.length = t.entries.length := by
    rw [take_of_some h ho]
    simp
  intro i hi hdead hoff
  rw [take_entry h ho] at hdead ⊢
  by_cases hidx : id.index = i
  · subst hidx
    rw [if_pos rfl]
    by_cases hmax : (t.entry id.index).generation = maxGeneration
    · exact .inr (by simp [releaseEntry, hmax])
    · rw [if_neg hmax] at hoff
      exact absurd List.mem_cons_self hoff
  · rw [if_neg hidx] at hdead ⊢
    refine hc i (hlen ▸ hi) hdead fun hmem => hoff ?_
    split
    · exact hmem
    · exact List.mem_cons_of_mem _ hmem

theorem take_exact (h : t.Exact) (id : HandleId) : (t.take id).1.Exact := by
  cases hlk : t.lookupEntry id with
  | none =>
    rw [take_of_none hlk]
    exact h
  | some e =>
    obtain ⟨l, hl⟩ := h.wellFormed.free
    exact .of_freeList (take_wellFormed h.wellFormed) (take_freeList hl hlk)
      (take_complete (h.complete l hl) hlk)

/-- `clear` puts every slot that is not retired on the list. -/
theorem clear_complete (t : HandleTable) :
    t.clear.Complete (((List.range t.entries.length).filter
      fun j => (t.clear.entry j).generation != maxGeneration).map fun (j : Nat) => (j : Int)) := by
  intro i hi _ hoff
  refine .inr (Classical.byContradiction fun hne => hoff ?_)
  rw [clear_length] at hi
  exact List.mem_map.2 ⟨i, List.mem_filter.2 ⟨List.mem_range.2 hi, by simpa using hne⟩, rfl⟩

theorem clear_exact (h : t.Exact) : t.clear.Exact :=
  .of_freeList (clear_wellFormed h.wellFormed) (clear_freeList t) (clear_complete t)

end HandleTable

/-- A call that failed. -/
def HandleOutcome.failed : HandleOutcome → Bool
  | .created (.error _) | .taken (.error _) | .closed (.error _) | .verified (.error _)
  | .got (.error _) | .registered (.error _) => true
  | _ => false

namespace HandleWorld

theorem step_exact {w : HandleWorld} (h : w.table.Exact) (op : HandleOp) :
    (w.step op).1.table.Exact := by
  rcases step_table w op with ht | ⟨object, rights, room, ht⟩ | ⟨id, ht⟩ | ht <;> rw [ht]
  · exact h
  · exact HandleTable.createHandle_exact h _ _ _ _
  · exact HandleTable.take_exact h id
  · exact HandleTable.clear_exact h

theorem after_exact (ops : List HandleOp) : (init.after ops).table.Exact :=
  run_invariant (fun w : HandleWorld => w.table.Exact) (fun _ op hw => step_exact hw op)
    HandleTable.exact_empty ops

/-- A failed call leaves the table as it was, or appends the slots a failed `grow` pushed. -/
theorem step_failed {w : HandleWorld} {op : HandleOp} (h : (w.step op).2.failed = true) :
    (w.step op).1.table = w.table ∨
      ∃ room, room < growBatch ∧
        (w.step op).1.table = { w.table with entries := w.table.entries ++ List.replicate room .fresh } := by
  -- the calls that end in a failed `create_handle`
  have hcreate : ∀ {object : Option Object} {rights : Rights} {room : Nat},
      (HandleOutcome.created (w.table.createHandle w.registry object rights room).2).failed = true →
      (w.table.createHandle w.registry object rights room).1 = w.table ∨
        ∃ room', room' < growBatch ∧ (w.table.createHandle w.registry object rights room).1 =
          { w.table with entries := w.table.entries ++ List.replicate room' .fresh } := by
    intro object rights room hf
    cases hc : w.table.createHandle w.registry object rights room with
    | mk t' r =>
    rw [hc] at hf
    cases r with
    | ok id => cases hf
    | error err =>
      rcases HandleTable.createHandle_error_grown hc with rfl | ⟨hr, rfl⟩
      · exact .inl rfl
      · exact .inr ⟨room, hr, rfl⟩
  -- the calls that end in a failed `take`
  have htake : ∀ {id : HandleId}, (w.table.take id).2.isOk = false →
      (w.table.take id).1 = w.table := by
    intro id hf
    cases ht : w.table.take id with
    | mk t' r =>
    rw [ht] at hf
    cases r with
    | ok v => cases hf
    | error e => exact HandleTable.take_error ht
  cases op with
  | insert object rights room => exact hcreate h
  | emplace object rights room =>
    cases object with
    | none => exact .inl rfl
    | some o => exact hcreate h
  | duplicate source mask room =>
    cases hlk : w.table.lookupEntry source with
    | none => exact .inl (by simp [step, HandleTable.duplicate_of_none hlk])
    | some e =>
      obtain ⟨o, ho⟩ := Option.isSome_iff_exists.1 (HandleTable.lookupEntry_eq_some.1 hlk).2.2.2
      simp only [step, HandleTable.duplicate_of_some hlk ho] at h ⊢
      by_cases hdup : e.rights &&& rightDuplicate = 0
      · rw [if_pos hdup]
        exact .inl rfl
      · rw [if_neg hdup] at h ⊢
        exact hcreate h
  | close id =>
    refine .inl (htake ?_)
    simp only [step, HandleTable.close] at h
    cases hr : (w.table.take id).2 with
    | ok v => rw [hr] at h; cases h
    | error e => rfl
  | take id =>
    refine .inl (htake ?_)
    simp only [step] at h
    cases hr : (w.table.take id).2 with
    | ok v => rw [hr] at h; cases h
    | error e => rfl
  | clear => cases h
  | verify | get | isValid | registerType => exact .inl rfl

/-- After every run from the empty table, `m_count` counts the live slots, the free list is
an acyclic chain of distinct, in-range dead slots, every dead slot off it has generation zero
or the saturated one, and the next call, if it fails, leaves the table as it was but for the
slots a failed `grow` appended. -/
theorem handle_table_free_list_exact (ops : List HandleOp) (op : HandleOp) :
    (init.after ops).table.count =
        (init.after ops).table.entries.countP (fun e => e.object.isSome) ∧
      (∃ l, (init.after ops).table.FreeList l ∧ l.Nodup ∧ (init.after ops).table.Complete l) ∧
      (((init.after ops).step op).2.failed = true →
        ((init.after ops).step op).1.table = (init.after ops).table ∨
          ∃ room, room < growBatch ∧ ((init.after ops).step op).1.table =
            { (init.after ops).table with
              entries := (init.after ops).table.entries ++ List.replicate room .fresh }) := by
  have h := after_exact ops
  obtain ⟨l, hl⟩ := h.wellFormed.free
  exact ⟨h.wellFormed.count_eq, ⟨l, hl, hl.nodup, h.complete l hl⟩, step_failed⟩

/-- The list holds a saturated slot: slot 0 taken at `MAX_GENERATION - 1` goes back on it at
`MAX_GENERATION`. And an insert whose `grow` ran out of memory fails but leaves its pushed
slots in the table. -/
theorem handle_free_list_saturated_and_oom :
    (∃ ops l, (init.after ops).table.FreeList l ∧
      ∃ x ∈ l, ((init.after ops).table.entry x.toNat).generation = maxGeneration) ∧
    ∃ ops op, ((init.after ops).step op).2.failed = true ∧
      ((init.after ops).step op).1.table.entries ≠ (init.after ops).table.entries := by
  refine ⟨⟨reuseSetup ++ reuseRounds 0 (maxGeneration - 1) ++ [.take ⟨0, maxGeneration - 1⟩], ?_⟩,
    [.registerType type_ids.EVENT "event" rightsAll rightsAll], .insert (some reuseObject) 0 5, by decide +kernel⟩
  obtain ⟨l, hl⟩ := (after_exact (reuseSetup ++ reuseRounds 0 (maxGeneration - 1) ++
    [.take ⟨0, maxGeneration - 1⟩])).wellFormed.free
  refine ⟨l, hl, 0, ?_⟩
  rw [after_append, after_append, reuseSetup_after, reuseRounds_after (by omega), Nat.zero_add]
    at hl ⊢
  have hlk : (reuseWorld (maxGeneration - 1)).table.lookupEntry ⟨0, maxGeneration - 1⟩ =
      some { object := some reuseObject, generation := maxGeneration - 1 } := by
    rw [HandleTable.lookupEntry_eq_some]
    exact ⟨by simp [reuseWorld], rfl, rfl, rfl⟩
  -- the released slot is the new head of the list
  have hstep : (reuseWorld (maxGeneration - 1)).after [.take ⟨0, maxGeneration - 1⟩] =
      ((reuseWorld (maxGeneration - 1)).step (.take ⟨0, maxGeneration - 1⟩)).1 := rfl
  rw [hstep] at hl ⊢
  simp only [step, HandleTable.take_of_some hlk rfl] at hl ⊢
  refine ⟨hl.1.head_mem (by simp [maxGeneration]), ?_⟩
  simp [reuseWorld, HandleTable.entry, HandleTable.releaseEntry, maxGeneration]

end HandleWorld

end Archipelago.Obj
