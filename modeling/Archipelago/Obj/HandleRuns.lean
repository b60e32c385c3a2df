import Archipelago.Obj.HandleInvariant
import Archipelago.Lib.Run

/-! Runs of handle-table calls, and the use-after-free protection the generation
counters give. A handle is *stale* once its slot's generation has moved past it, or
the slot has been retired at that generation; `Evolves` says what any call may do to
the slots (grow the table, raise generations, keep retired slots retired, turn a live
handle stale). Every call evolves the table, so a stale handle stays stale for the
rest of the run and every call on it fails. The ids `create_handle` returns are
recorded in the run's outputs; a history invariant shows they never repeat. -/

namespace Archipelago.Obj

open Archipelago.Lib

namespace HandleTable

/-- A retired slot: its generation is saturated, it is dead and it is off the free
list, so no call can make it live again. -/
def Retired (t : HandleTable) (i : Nat) : Prop :=
  i < t.entries.length ∧ (t.entry i).generation = maxGeneration ∧ (t.entry i).object = none ∧
    ∀ l, t.FreeList l → (i : Int) ∉ l

/-- A stale handle: its slot's generation has moved past it, or the slot was retired
at its generation. -/
def Stale (t : HandleTable) (id : HandleId) : Prop :=
  id.index < t.entries.length ∧
    (id.generation < (t.entry id.index).generation ∨
      id.generation = (t.entry id.index).generation ∧ t.Retired id.index)

theorem isValid_iff {t : HandleTable} {id : HandleId} :
    t.isValid id = true ↔ id.index < t.entries.length ∧
      (t.entry id.index).generation = id.generation ∧ (t.entry id.index).object.isSome := by
  rw [isValid, lookupEntry_eq]
  split <;> simp_all

/-- Validity reads only the length and the slot's generation and object. -/
theorem isValid_of_slot {t t' : HandleTable} {id : HandleId} (hv : t.isValid id = true)
    (hlen : t.entries.length ≤ t'.entries.length)
    (hg : (t'.entry id.index).generation = (t.entry id.index).generation)
    (ho : (t'.entry id.index).object = (t.entry id.index).object) : t'.isValid id = true := by
  obtain ⟨hi, hgen, hobj⟩ := isValid_iff.1 hv
  exact isValid_iff.2 ⟨by omega, hg.trans hgen, ho ▸ hobj⟩

theorem Stale.lookupEntry_eq_none {t : HandleTable} {id : HandleId} (h : t.Stale id) :
    t.lookupEntry id = none := by
  rw [HandleTable.lookupEntry_eq_none]
  intro _ hg
  rcases h.2 with hlt | ⟨-, hr⟩
  · omega
  · exact hr.2.2.1

/-- In a well-formed table a stale handle at the saturated generation names a retired
slot. -/
theorem Stale.retired {t : HandleTable} {id : HandleId} (hw : t.WellFormed) (h : t.Stale id)
    (hmax : id.generation = maxGeneration) : t.Retired id.index := by
  rcases h.2 with hlt | ⟨-, hr⟩
  · have := hw.generation_le id.index
    omega
  · exact hr

/-- No handle on a retired slot is valid, whatever its generation. -/
theorem Retired.isValid_eq_false {t : HandleTable} {i : Nat} (hr : t.Retired i) (g : Nat) :
    t.isValid ⟨i, g⟩ = false := by
  cases hv : t.isValid ⟨i, g⟩ with
  | false => rfl
  | true =>
    have := (isValid_iff.1 hv).2.2
    rw [hr.2.2.1] at this
    cases this

/-- Every call on `id` fails with `handle_invalid` and changes nothing. -/
def Rejects (t : HandleTable) (id : HandleId) : Prop :=
  t.lookupEntry id = none ∧ t.isValid id = false ∧
    (∀ required expected, t.verify id required expected = .error .handleInvalid) ∧
    (∀ required typeId, t.get id required typeId = .error .handleInvalid) ∧
    t.take id = (t, .error .handleInvalid) ∧ t.close id = (t, .error .handleInvalid) ∧
    ∀ reg mask room, t.duplicate reg id mask room = (t, .error .handleInvalid)

theorem rejects_of_lookupEntry {t : HandleTable} {id : HandleId} (h : t.lookupEntry id = none) :
    t.Rejects id := by
  refine ⟨h, by simp [isValid, h], fun _ _ => by simp [verify, h], fun _ _ => by simp [get, verify, h, Except.map],
    take_of_none h, by simp [close, take_of_none h, Except.map], fun _ _ _ => duplicate_of_none h⟩

/-! ## What a call may do to the slots -/

/-- A call's effect as the handles see it: the table only grows, generations only
rise, retired slots stay retired, and a live handle stays live or turns stale. -/
structure Evolves (t t' : HandleTable) : Prop where
  length_le : t.entries.length ≤ t'.entries.length
  generation_le : ∀ i, (t.entry i).generation ≤ (t'.entry i).generation
  retired : ∀ i, t.Retired i → t'.Retired i
  valid : ∀ id, t.isValid id = true → t'.isValid id = true ∨ t'.Stale id

theorem Stale.evolves {t t' : HandleTable} {id : HandleId} (h : t.Stale id) (he : Evolves t t') :
    t'.Stale id := by
  obtain ⟨hi, hlt | ⟨hg, hr⟩⟩ := h
  · exact ⟨lt_of_lt_of_le hi he.length_le, .inl (lt_of_lt_of_le hlt (he.generation_le _))⟩
  · have hr' := he.retired _ hr
    exact ⟨hr'.1, .inr ⟨by rw [hr'.2.1, hg, hr.2.1], hr'⟩⟩

theorem Evolves.refl (t : HandleTable) : Evolves t t :=
  ⟨le_refl _, fun _ => le_refl _, fun _ h => h, fun _ h => .inl h⟩

theorem Evolves.trans {t₁ t₂ t₃ : HandleTable} (h₁ : Evolves t₁ t₂) (h₂ : Evolves t₂ t₃) :
    Evolves t₁ t₃ where
  length_le := h₁.length_le.trans h₂.length_le
  generation_le i := (h₁.generation_le i).trans (h₂.generation_le i)
  retired i h := h₂.retired i (h₁.retired i h)
  valid id h := by
    rcases h₁.valid id h with hv | hs
    · exact h₂.valid id hv
    · exact .inr (hs.evolves h₂)

/-- A call that keeps every slot and keeps retired slots off the free list evolves
the table. -/
theorem Evolves.of_sameSlots {t t' : HandleTable} (hs : SameSlots t t')
    (hlen : t.entries.length ≤ t'.entries.length)
    (hfree : ∀ i, t.Retired i → ∀ l, t'.FreeList l → (i : Int) ∉ l) : Evolves t t' where
  length_le := hlen
  generation_le i := le_of_eq (hs i).2.2.symm
  retired i hr :=
    ⟨lt_of_lt_of_le hr.1 hlen, by rw [(hs i).2.2]; exact hr.2.1, by rw [(hs i).1]; exact hr.2.2.1,
      hfree i hr⟩
  valid id h := .inl (isValid_of_slot h hlen (hs _).2.2 (hs _).1)

theorem grow_evolves {t : HandleTable} (h : t.WellFormed) (room : Nat) :
    Evolves t (t.grow room).1 := by
  refine .of_sameSlots (grow_sameSlots t room) (by rw [grow_length]; omega) ?_
  intro i hr l hl
  obtain ⟨l₀, hl₀⟩ := h.free
  rw [(grow_freeList hl₀ room).unique hl |>.symm]
  have hold := hr.2.2.2 l₀ hl₀
  split
  · exact hold
  · -- the new slots all lie past the old end, and a retired slot lies before it
    simp only [List.mem_append, List.mem_map, List.mem_range, not_or]
    refine ⟨?_, hold⟩
    rintro ⟨j, -, hj⟩
    have := hr.1
    omega

theorem popFree_evolves {t : HandleTable} {x : Int} {l : List Int} (hl : t.FreeList (x :: l))
    (o : Object) (rights : Rights) : Evolves t (t.popFree o rights).1 := by
  obtain ⟨hx0, -, hxo⟩ := hl.2 x (by simp)
  have hx : t.freeHead = x := hl.1.1
  -- every slot but the popped one reads as before
  have hkeep : ∀ i, x.toNat ≠ i → (t.popFree o rights).1.entry i = t.entry i := by
    intro i hi
    rw [popFree_entry, if_neg (fun h => hi (hx ▸ h.1))]
  have hlen : (t.popFree o rights).1.entries.length = t.entries.length := by simp [popFree]
  refine ⟨hlen.ge, fun i => ?_, fun i hr => ?_, fun id hv => .inl ?_⟩
  · rw [popFree_entry]
    split <;> exact le_refl _
  · have hne : x.toNat ≠ i := by
      intro hxi
      exact hr.2.2.2 _ hl (by simp [← hxi, Int.toNat_of_nonneg hx0])
    refine ⟨hlen ▸ hr.1, by rw [hkeep i hne]; exact hr.2.1, by rw [hkeep i hne]; exact hr.2.2.1, ?_⟩
    intro l' hl'
    rw [← (popFree_freeList hl o rights).unique hl']
    exact fun hi => hr.2.2.2 _ hl (List.mem_cons_of_mem _ hi)
  · have hne : x.toNat ≠ id.index := by
      intro hxi
      have := (isValid_iff.1 hv).2.2
      rw [← hxi, hxo] at this
      cases this
    exact isValid_of_slot hv hlen.ge (by rw [hkeep _ hne]) (by rw [hkeep _ hne])

theorem createHandle_evolves {t : HandleTable} (h : t.WellFormed) (reg : TypeRegistry)
    (object : Option Object) (rights : Rights) (room : Nat) :
    Evolves t (t.createHandle reg object rights room).1 := by
  cases hc : t.createHandle reg object rights room with
  | mk t' r =>
  cases r with
  | ok id =>
    obtain ⟨o, -, t₁, x, l, -, -, -, ht₁, hl, rfl, -⟩ := createHandle_ok h hc
    have h₁ : Evolves t t₁ := by
      rcases ht₁ with rfl | rfl
      exacts [.refl _, grow_evolves h room]
    exact h₁.trans (popFree_evolves hl o rights)
  | error err =>
    rcases createHandle_error hc with rfl | rfl
    exacts [.refl _, grow_evolves h room]

/-- The ids `create_handle` returns are live, and differ from every id that was live
or stale before: the popped slot was free, so neither live nor retired. -/
theorem createHandle_fresh {t t' : HandleTable} {reg : TypeRegistry} {object : Option Object}
    {rights : Rights} {room : Nat} {id : HandleId} (h : t.WellFormed)
    (hc : t.createHandle reg object rights room = (t', .ok id)) :
    t'.isValid id = true ∧ ∀ id', t.isValid id' = true ∨ t.Stale id' → id' ≠ id := by
  obtain ⟨o, -, t₁, x, l, -, -, -, ht₁, hl, rfl, rfl⟩ := createHandle_ok h hc
  have he : Evolves t t₁ := by
    rcases ht₁ with rfl | rfl
    exacts [.refl _, grow_evolves h room]
  obtain ⟨hx0, -, hxo⟩ := hl.2 x (by simp)
  refine ⟨by simp [isValid, popFree_lookupEntry hl], ?_⟩
  rintro id' hid' rfl
  rcases hid' with hv | hs
  · rcases he.valid _ hv with hv | hs
    · have := (isValid_iff.1 hv).2.2
      rw [hxo] at this
      cases this
    · rcases hs.2 with hlt | ⟨-, hr⟩
      · exact lt_irrefl _ hlt
      · exact hr.2.2.2 _ hl (by simp [Int.toNat_of_nonneg hx0])
  · rcases (hs.evolves he).2 with hlt | ⟨-, hr⟩
    · exact lt_irrefl _ hlt
    · exact hr.2.2.2 _ hl (by simp [Int.toNat_of_nonneg hx0])

/-- `take` of a live handle leaves it stale. -/
theorem take_stale {t : HandleTable} {id : HandleId} {e : HandleEntry} (h : t.WellFormed)
    (hv : t.lookupEntry id = some e) : (t.take id).1.Stale id := by
  obtain ⟨hi, rfl, hg, ho⟩ := lookupEntry_eq_some.1 hv
  obtain ⟨o, ho⟩ := Option.isSome_iff_exists.1 ho
  have hslot := take_entry hv ho id.index
  rw [if_pos rfl] at hslot
  have hlen : (t.take id).1.entries.length = t.entries.length := by
    rw [take_of_some hv ho]; simp
  refine ⟨hlen ▸ hi, ?_⟩
  rw [hslot]
  show id.generation < (releaseEntry _).generation ∨ id.generation = (releaseEntry _).generation ∧ _
  rw [releaseEntry_generation, hg]
  by_cases hmax : id.generation = maxGeneration
  · -- saturated: the slot is retired, its generation unchanged
    obtain ⟨l, hl⟩ := h.free
    have hfree := take_freeList hl hv
    rw [if_pos (hg.trans hmax)] at hfree
    refine .inr ⟨by simp [hmax], hlen ▸ hi, by rw [hslot]; simp [releaseEntry_generation, hg, hmax],
      by rw [hslot]; rfl, fun l' hl' => ?_⟩
    rw [← hfree.unique hl']
    intro hmem
    have := (hl.2 _ hmem).2.2
    rw [Int.toNat_natCast, ho] at this
    cases this
  · exact .inl (by simp [hmax])

theorem take_evolves {t : HandleTable} (h : t.WellFormed) (id : HandleId) :
    Evolves t (t.take id).1 := by
  cases hlk : t.lookupEntry id with
  | none => rw [take_of_none hlk]; exact .refl t
  | some e =>
  obtain ⟨hi, rfl, hg, ho⟩ := lookupEntry_eq_some.1 hlk
  obtain ⟨o, ho⟩ := Option.isSome_iff_exists.1 ho
  have hlen : (t.take id).1.entries.length = t.entries.length := by
    rw [take_of_some hlk ho]; simp
  have hkeep : ∀ i, id.index ≠ i → (t.take id).1.entry i = t.entry i := by
    intro i hi
    rw [take_entry hlk ho, if_neg hi]
  refine ⟨hlen.ge, fun i => ?_, fun i hr => ?_, fun id' hv => ?_⟩
  · rw [take_entry hlk ho]
    split
    · rename_i hi; subst hi
      exact (releaseEntry_generation_bounds (h.generation_le id.index)).1
    · exact le_refl _
  · -- a retired slot is dead, so it is not the taken one
    have hne : id.index ≠ i := by
      rintro rfl
      rw [hr.2.2.1] at ho
      cases ho
    refine ⟨hlen ▸ hr.1, by rw [hkeep i hne]; exact hr.2.1, by rw [hkeep i hne]; exact hr.2.2.1, ?_⟩
    intro l' hl'
    obtain ⟨l, hl⟩ := h.free
    rw [← (take_freeList hl hlk).unique hl']
    split
    · exact hr.2.2.2 l hl
    · simp only [List.mem_cons, Nat.cast_inj, not_or]
      exact ⟨fun h => hne h.symm, hr.2.2.2 l hl⟩
  · by_cases hsame : id'.index = id.index
    · -- the only live handle on the taken slot is the taken one
      have hid : id' = id := by
        obtain ⟨-, hg', -⟩ := isValid_iff.1 hv
        cases id'; cases id
        simp only at hsame; subst hsame
        simp only at hg' hg
        rw [← hg', ← hg]
      subst hid
      exact .inr (take_stale h hlk)
    · exact .inl (isValid_of_slot hv hlen.ge (by rw [hkeep _ (Ne.symm hsame)])
        (by rw [hkeep _ (Ne.symm hsame)]))

theorem mem_clear_freeList {t : HandleTable} {i : Nat} :
    (i : Int) ∈ (((List.range t.entries.length).filter
        fun j => (t.clear.entry j).generation != maxGeneration).map fun (j : Nat) => (j : Int)) ↔
      i < t.entries.length ∧ (t.clear.entry i).generation ≠ maxGeneration := by
  simp

/-- `clear` leaves every handle that was live stale. -/
theorem clear_stale {t : HandleTable} {id : HandleId} (hv : t.isValid id = true) :
    t.clear.Stale id := by
  obtain ⟨hi, hg, ho⟩ := isValid_iff.1 hv
  obtain ⟨hobj, -, hgen⟩ := clear_entry t id.index
  rw [if_pos ho, releaseEntry_generation, hg] at hgen
  refine ⟨by rw [clear_length]; exact hi, ?_⟩
  rw [hgen]
  by_cases hmax : id.generation = maxGeneration
  · refine .inr ⟨by simp [hmax], by rw [clear_length]; exact hi, by simp [hgen, hmax], hobj, ?_⟩
    intro l hl
    rw [← (clear_freeList t).unique hl, mem_clear_freeList]
    simp [hgen, hmax]
  · exact .inl (by simp [hmax])

theorem clear_evolves {t : HandleTable} (h : t.WellFormed) : Evolves t t.clear where
  length_le := (clear_length t).ge
  generation_le i := by
    rw [(clear_entry t i).2.2]
    split
    · exact (releaseEntry_generation_bounds (h.generation_le i)).1
    · exact le_refl _
  retired i hr := by
    -- a retired slot is dead, so `clear` does not touch its generation
    have hgen : (t.clear.entry i).generation = maxGeneration := by
      rw [(clear_entry t i).2.2, hr.2.2.1]
      exact hr.2.1
    refine ⟨by rw [clear_length]; exact hr.1, hgen, (clear_entry t i).1, fun l hl => ?_⟩
    rw [← (clear_freeList t).unique hl, mem_clear_freeList]
    exact fun h => h.2 hgen
  valid _ hv := .inr (clear_stale hv)

end HandleTable

/-! ## Runs -/

/-- What handle calls act on: one task's table and the global type registry
(`g_type_registry`) that `create_handle` consults. -/
structure HandleWorld where
  registry : TypeRegistry := {}
  table : HandleTable := {}
  deriving DecidableEq, Repr

/-- The calls of a run; `testing_set_generation`, a test-only seam, is left out. -/
inductive HandleOp
  | insert (object : Option Object) (rights : Rights) (room : Nat)
  | emplace (object : Option Object) (rights : Rights) (room : Nat)
  | duplicate (source : HandleId) (mask : Rights) (room : Nat)
  | close (id : HandleId)
  | take (id : HandleId)
  | verify (id : HandleId) (required : Rights) (expected : TypeId)
  | get (id : HandleId) (required : Rights) (typeId : TypeId)
  | isValid (id : HandleId)
  | clear
  | registerType (id : TypeId) (name : String) (validRights defaultRights : Rights)
  deriving DecidableEq, Repr

/-- What a call returns. -/
inductive HandleOutcome
  | created (r : Except Errc HandleId)
  | taken (r : Except Errc VerifiedHandle)
  | closed (r : Except Errc Unit)
  | verified (r : Except Errc VerifiedHandle)
  | got (r : Except Errc Object)
  | valid (b : Bool)
  | cleared
  | registered (r : Except Errc Unit)

/-- The ids a call handed out: one for a successful `insert`, `emplace` or
`duplicate`. -/
def HandleOutcome.issued : HandleOutcome → List HandleId
  | .created (.ok id) => [id]
  | _ => []

/-- Every id handed out along a run's outputs, in order. -/
def issuedIds (os : List HandleOutcome) : List HandleId := os.flatMap HandleOutcome.issued

namespace HandleWorld

def init : HandleWorld := {}

/-- One call, with the lock held throughout. -/
def step (w : HandleWorld) : HandleOp → HandleWorld × HandleOutcome
  | .insert object rights room =>
      let r := w.table.insert w.registry object rights room
      ({ w with table := r.1 }, .created r.2)
  | .emplace object rights room =>
      let r := w.table.emplace w.registry object rights room
      ({ w with table := r.1 }, .created r.2)
  | .duplicate source mask room =>
      let r := w.table.duplicate w.registry source mask room
      ({ w with table := r.1 }, .created r.2)
  | .close id =>
      let r := w.table.close id
      ({ w with table := r.1 }, .closed r.2)
  | .take id =>
      let r := w.table.take id
      ({ w with table := r.1 }, .taken r.2)
  | .verify id required expected => (w, .verified (w.table.verify id required expected))
  | .get id required typeId => (w, .got (w.table.get id required typeId))
  | .isValid id => (w, .valid (w.table.isValid id))
  | .clear => ({ w with table := w.table.clear }, .cleared)
  | .registerType id name validRights defaultRights =>
      let r := w.registry.registerType id name validRights defaultRights
      ({ w with registry := r.1 }, .registered r.2)

/-- The world after the calls `ops`. -/
def after (w : HandleWorld) (ops : List HandleOp) : HandleWorld := (run step w ops).1

theorem after_append (w : HandleWorld) (ops ops' : List HandleOp) :
    w.after (ops ++ ops') = (w.after ops).after ops' := by
  simp [after, run_append]

/-- The call releases `id`: a successful `take` or `close` of it, or a `clear` while
it is live. -/
def Releases (t : HandleTable) : HandleOp → HandleId → Prop
  | .take id', id => id' = id ∧ t.isValid id = true
  | .close id', id => id' = id ∧ t.isValid id = true
  | .clear, id => t.isValid id = true
  | _, _ => False

instance (t : HandleTable) (id : HandleId) : (op : HandleOp) → Decidable (Releases t op id)
  | .take id' => inferInstanceAs (Decidable (id' = id ∧ t.isValid id = true))
  | .close id' => inferInstanceAs (Decidable (id' = id ∧ t.isValid id = true))
  | .clear => inferInstanceAs (Decidable (t.isValid id = true))
  | .insert .. | .emplace .. | .duplicate .. | .verify .. | .get .. | .isValid _
  | .registerType .. => isFalse fun h => h

/-- **What a call does to the table**: nothing, or what `create_handle`, `take` or
`clear` does. -/
theorem step_table (w : HandleWorld) (op : HandleOp) :
    (w.step op).1.table = w.table ∨
    (∃ object rights room,
      (w.step op).1.table = (w.table.createHandle w.registry object rights room).1) ∨
    (∃ id, (w.step op).1.table = (w.table.take id).1) ∨
    (w.step op).1.table = w.table.clear := by
  cases op with
  | insert object rights room => exact .inr (.inl ⟨object, rights, room, rfl⟩)
  | emplace object rights room =>
    cases object with
    | none => exact .inl rfl
    | some o => exact .inr (.inl ⟨some o, rights, room, rfl⟩)
  | duplicate source mask room =>
    cases hlk : w.table.lookupEntry source with
    | none => exact .inl (by simp [step, HandleTable.duplicate_of_none hlk])
    | some e =>
      obtain ⟨o, ho⟩ := Option.isSome_iff_exists.1 (HandleTable.lookupEntry_eq_some.1 hlk).2.2.2
      simp only [step, HandleTable.duplicate_of_some hlk ho]
      split
      · exact .inl rfl
      · exact .inr (.inl ⟨_, _, _, rfl⟩)
  | close id => exact .inr (.inr (.inl ⟨id, rfl⟩))
  | take id => exact .inr (.inr (.inl ⟨id, rfl⟩))
  | verify | get | isValid => exact .inl rfl
  | clear => exact .inr (.inr (.inr rfl))
  | registerType => exact .inl rfl

/-- **What a call hands out**: nothing, or the id of a successful `create_handle`. -/
theorem step_issued (w : HandleWorld) (op : HandleOp) :
    (w.step op).2.issued = [] ∨
    ∃ id object rights room, (w.step op).2.issued = [id] ∧
      w.table.createHandle w.registry object rights room = ((w.step op).1.table, .ok id) := by
  -- the three calls that end in `create_handle` hand out what it returns
  have hcreate : ∀ object rights room,
      (HandleOutcome.created (w.table.createHandle w.registry object rights room).2).issued = [] ∨
      ∃ id, (HandleOutcome.created (w.table.createHandle w.registry object rights room).2).issued =
          [id] ∧ (w.table.createHandle w.registry object rights room).2 = .ok id := by
    intro object rights room
    cases (w.table.createHandle w.registry object rights room).2 with
    | error => exact .inl rfl
    | ok id => exact .inr ⟨id, rfl, rfl⟩
  have hlift : ∀ object rights room,
      (w.step op).1.table = (w.table.createHandle w.registry object rights room).1 →
      (w.step op).2 = .created (w.table.createHandle w.registry object rights room).2 →
      (w.step op).2.issued = [] ∨
      ∃ id object rights room, (w.step op).2.issued = [id] ∧
        w.table.createHandle w.registry object rights room = ((w.step op).1.table, .ok id) := by
    intro object rights room ht ho
    rw [ho]
    rcases hcreate object rights room with h | ⟨id, h, hok⟩
    · exact .inl h
    · exact .inr ⟨id, object, rights, room, h, by rw [ht, ← hok]⟩
  cases op with
  | insert object rights room => exact hlift object rights room rfl rfl
  | emplace object rights room =>
    cases object with
    | none => exact .inl rfl
    | some o => exact hlift (some o) rights room rfl rfl
  | duplicate source mask room =>
    cases hlk : w.table.lookupEntry source with
    | none => exact .inl (by simp [step, HandleTable.duplicate_of_none hlk, HandleOutcome.issued])
    | some e =>
      obtain ⟨o, ho⟩ := Option.isSome_iff_exists.1 (HandleTable.lookupEntry_eq_some.1 hlk).2.2.2
      by_cases hdup : e.rights &&& rightDuplicate = 0
      · exact .inl (by simp [step, HandleTable.duplicate_of_some hlk ho, hdup, HandleOutcome.issued])
      · exact hlift (some o) (e.rights &&& mask) room
          (by simp only [step]; rw [HandleTable.duplicate_of_some hlk ho, if_neg hdup])
          (by simp only [step]; rw [HandleTable.duplicate_of_some hlk ho, if_neg hdup])
  | close | take | verify | get | isValid | clear | registerType => exact .inl rfl

theorem step_wellFormed {w : HandleWorld} (h : w.table.WellFormed) (op : HandleOp) :
    (w.step op).1.table.WellFormed := by
  rcases step_table w op with ht | ⟨object, rights, room, ht⟩ | ⟨id, ht⟩ | ht <;> rw [ht]
  · exact h
  · exact HandleTable.createHandle_wellFormed h _ _ _ _
  · exact HandleTable.take_wellFormed h
  · exact HandleTable.clear_wellFormed h

theorem step_evolves {w : HandleWorld} (h : w.table.WellFormed) (op : HandleOp) :
    HandleTable.Evolves w.table (w.step op).1.table := by
  rcases step_table w op with ht | ⟨object, rights, room, ht⟩ | ⟨id, ht⟩ | ht <;> rw [ht]
  · exact .refl _
  · exact HandleTable.createHandle_evolves h _ _ _ _
  · exact HandleTable.take_evolves h id
  · exact HandleTable.clear_evolves h

/-- Along any run from a well-formed table the table stays well formed and evolves. -/
theorem after_evolves {w : HandleWorld} (h : w.table.WellFormed) (ops : List HandleOp) :
    (w.after ops).table.WellFormed ∧ HandleTable.Evolves w.table (w.after ops).table :=
  run_invariant (fun w' : HandleWorld => w'.table.WellFormed ∧ HandleTable.Evolves w.table w'.table)
    (fun _ _ hw => ⟨step_wellFormed hw.1 _, hw.2.trans (step_evolves hw.1 _)⟩)
    ⟨h, .refl _⟩ ops

/-- A released id is stale right after the call that released it. -/
theorem step_stale_of_releases {w : HandleWorld} {op : HandleOp} {id : HandleId}
    (h : w.table.WellFormed) (hr : Releases w.table op id) : (w.step op).1.table.Stale id := by
  cases op with
  | take id' | close id' =>
    obtain ⟨rfl, hv⟩ := hr
    obtain ⟨e, he⟩ := Option.isSome_iff_exists.1 hv
    exact HandleTable.take_stale h he
  | clear => exact HandleTable.clear_stale hr
  | _ => exact hr.elim

/-- The generation a release leaves behind: the slot's own, bumped unless saturated. -/
theorem step_generation_of_releases {w : HandleWorld} {op : HandleOp} {id : HandleId}
    (hr : Releases w.table op id) :
    ((w.step op).1.table.entry id.index).generation =
      (HandleTable.releaseEntry (w.table.entry id.index)).generation := by
  cases op with
  | take id' | close id' =>
    obtain ⟨rfl, hv⟩ := hr
    obtain ⟨e, he⟩ := Option.isSome_iff_exists.1 hv
    obtain ⟨-, rfl, -, ho⟩ := HandleTable.lookupEntry_eq_some.1 he
    obtain ⟨o, ho⟩ := Option.isSome_iff_exists.1 ho
    show ((w.table.take id').1.entry id'.index).generation = _
    rw [HandleTable.take_entry he ho, if_pos rfl]
  | clear =>
    show (w.table.clear.entry id.index).generation = _
    rw [(HandleTable.clear_entry w.table id.index).2.2, if_pos (HandleTable.isValid_iff.1 hr).2.2]
  | _ => exact hr.elim

/-! ## The history invariant -/

/-- What holds of a world and the ids handed out so far: the table is well formed,
no id was handed out twice, and each one is still live or has gone stale. -/
structure Sound (w : HandleWorld) (issued : List HandleId) : Prop where
  wellFormed : w.table.WellFormed
  nodup : issued.Nodup
  settled : ∀ id ∈ issued, w.table.isValid id = true ∨ w.table.Stale id

theorem sound_init : Sound init [] :=
  ⟨HandleTable.wellFormed_empty, List.nodup_nil, by simp⟩

theorem step_sound {w : HandleWorld} {issued : List HandleId} (hs : Sound w issued)
    (op : HandleOp) : Sound (w.step op).1 (issued ++ (w.step op).2.issued) := by
  have he := step_evolves hs.wellFormed op
  -- ids handed out before stay live or stale
  have hold : ∀ id ∈ issued, (w.step op).1.table.isValid id = true ∨ (w.step op).1.table.Stale id := by
    intro id hid
    rcases hs.settled id hid with hv | hst
    · exact he.valid id hv
    · exact .inr (hst.evolves he)
  refine ⟨step_wellFormed hs.wellFormed op, ?_, ?_⟩
  · rcases step_issued w op with hnew | ⟨id, object, rights, room, hnew, hc⟩ <;> rw [hnew]
    · simpa using hs.nodup
    · have hfresh := (HandleTable.createHandle_fresh hs.wellFormed hc).2
      refine List.nodup_append.2 ⟨hs.nodup, List.nodup_singleton id, ?_⟩
      intro a ha b hb
      rw [List.mem_singleton] at hb
      subst hb
      exact hfresh a (hs.settled a ha)
  · intro id hid
    rcases List.mem_append.1 hid with hid | hid
    · exact hold id hid
    · rcases step_issued w op with hnew | ⟨id', object, rights, room, hnew, hc⟩ <;>
        rw [hnew] at hid
      · cases hid
      · rw [List.mem_singleton] at hid
        subst hid
        exact .inl (HandleTable.createHandle_fresh hs.wellFormed hc).1

/-- Every run from the empty world keeps the history invariant. -/
theorem after_sound (ops : List HandleOp) :
    Sound (init.after ops) (issuedIds (run step init ops).2) := by
  have := @run_history _ _ _ step (fun w os => Sound w (issuedIds os))
    (fun w os op hs => by simpa [issuedIds] using step_sound hs op) init [] sound_init ops
  simpa [after] using this

/-! ## Stale handles never revalidate -/

/-- After a call releases `id`, every call on it fails, however the run goes on. -/
theorem rejects_after_releases {w : HandleWorld} {op : HandleOp} {id : HandleId}
    (h : w.table.WellFormed) (hr : Releases w.table op id) (rest : List HandleOp) :
    ((w.step op).1.after rest).table.Rejects id := by
  have hstale := step_stale_of_releases h hr
  have hev := (after_evolves (step_wellFormed h op) rest).2
  exact HandleTable.rejects_of_lookupEntry (hstale.evolves hev).lookupEntry_eq_none

/-- A call never lowers a generation and never raises one past `MAX_GENERATION`. -/
theorem step_generation_bounds {w : HandleWorld} (h : w.table.WellFormed) (op : HandleOp)
    (i : Nat) :
    (w.table.entry i).generation ≤ ((w.step op).1.table.entry i).generation ∧
      ((w.step op).1.table.entry i).generation ≤ maxGeneration :=
  ⟨(step_evolves h op).generation_le i, (step_wellFormed h op).generation_le i⟩

/-- A release bumps the generation of the released id, unless it is saturated; then
the generation stays and no handle on the slot is ever valid again. -/
theorem releases_generation {w : HandleWorld} {op : HandleOp} {id : HandleId}
    (h : w.table.WellFormed) (hr : Releases w.table op id) :
    (id.generation < maxGeneration →
      ((w.step op).1.table.entry id.index).generation = id.generation + 1) ∧
    (id.generation = maxGeneration →
      ((w.step op).1.table.entry id.index).generation = maxGeneration ∧
      ∀ rest g, ((w.step op).1.after rest).table.isValid ⟨id.index, g⟩ = false) := by
  -- a released id was live, so it carries its slot's generation
  have hvalid : w.table.isValid id = true := by
    cases op with
    | take | close => exact hr.2
    | clear => exact hr
    | _ => exact hr.elim
  have hg := (HandleTable.isValid_iff.1 hvalid).2.1
  have hgen := step_generation_of_releases hr
  rw [HandleTable.releaseEntry_generation, hg] at hgen
  refine ⟨fun hlt => by rw [hgen, if_pos (by omega)], fun hmax => ⟨by rw [hgen, hmax]; rfl, ?_⟩⟩
  intro rest g
  have hret := (step_stale_of_releases h hr).retired (step_wellFormed h op) hmax
  exact ((after_evolves (step_wellFormed h op) rest).2.retired _ hret).isValid_eq_false g

/-- The object the rounds store. -/
def reuseObject : Object := ⟨0, type_ids.EVENT⟩

/-- Register its type, then insert it into the empty table. -/
def reuseSetup : List HandleOp :=
  [.registerType type_ids.EVENT "event" rightsAll rightsAll, .insert (some reuseObject) 0 growBatch]

/-- The world between rounds: slot 0 live at generation `g`, the other slots of the
first batch on the free list. -/
def reuseWorld (g : Nat) : HandleWorld where
  registry := { types := [⟨type_ids.EVENT, "event", rightsAll, rightsAll⟩] }
  table :=
    { entries := { object := some reuseObject, generation := g } ::
        (({} : HandleTable).grow growBatch).1.entries.tail
      count := 1
      freeHead := 1 }

theorem reuseSetup_after : init.after reuseSetup = reuseWorld 0 := by decide +kernel

/-- A close right after the setup releases the inserted id. -/
theorem reuseSetup_close_releases :
    Releases (init.after reuseSetup).table (.close ⟨0, 0⟩) ⟨0, 0⟩ := by
  rw [reuseSetup_after]
  exact ⟨rfl, rfl⟩

/-- One round: take the handle at generation `g`, insert the object again. -/
def reuseRound (g : Nat) : List HandleOp := [.take ⟨0, g⟩, .insert (some reuseObject) 0 0]

theorem reuseRound_after {g : Nat} (hg : g < maxGeneration) :
    (reuseWorld g).after (reuseRound g) = reuseWorld (g + 1) := by
  have hlk : (reuseWorld g).table.lookupEntry ⟨0, g⟩ =
      some { object := some reuseObject, generation := g } := by
    rw [HandleTable.lookupEntry_eq_some]
    exact ⟨by simp [reuseWorld], rfl, rfl, rfl⟩
  have hne : g ≠ maxGeneration := by omega
  have hreg : (reuseWorld g).registry.lookup reuseObject.typeId =
      some ⟨type_ids.EVENT, "event", rightsAll, rightsAll⟩ := rfl
  -- the take pushes slot 0 back on the free list, the insert pops it again
  simp only [after, reuseRound, run_cons, run_nil, step, HandleTable.take_of_some hlk rfl,
    HandleTable.insert, HandleTable.createHandle, hreg]
  simp [hne, HandleTable.popFree, reuseWorld, HandleTable.entry, HandleTable.releaseEntry, rightsAll]

/-- `k` rounds from generation `g`. -/
def reuseRounds (g : Nat) : Nat → List HandleOp
  | 0 => []
  | k + 1 => reuseRounds g k ++ reuseRound (g + k)

theorem reuseRounds_after {g : Nat} :
    ∀ {k : Nat}, g + k ≤ maxGeneration → (reuseWorld g).after (reuseRounds g k) = reuseWorld (g + k)
  | 0, _ => rfl
  | k + 1, hk => by
    rw [reuseRounds, after_append, reuseRounds_after (by omega), reuseRound_after (by omega)]
    rfl

end HandleWorld

end Archipelago.Obj
