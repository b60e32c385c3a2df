import Archipelago.Obj.HandleTable

/-! The handle table's representation invariant and what each operation does to
slots. `FreeList t l` says the free list is the chain `l` of in-range dead slots;
`WellFormed` adds the generation bound and `m_count`. For every operation there are
three facts: the invariant is kept, the free list afterwards is named exactly, and
each slot's object, rights and generation change as the source says and no other
way. The run-level results in `Obj.HandleRuns` are assembled from these. -/

namespace Archipelago.Obj

open Archipelago.Lib

namespace HandleTable

/-- `next_free` as the link function of the free list. -/
def next (t : HandleTable) : Int → Int := nextOf t.entries

/-- `l` is the free list: the chain from `m_free_head`, over dead slots in range. -/
def FreeList (t : HandleTable) (l : List Int) : Prop :=
  Chain t.next (-1) t.freeHead l ∧
    ∀ x ∈ l, 0 ≤ x ∧ x.toNat < t.entries.length ∧ (t.entry x.toNat).object = none

/-- The representation invariant every operation keeps. -/
structure WellFormed (t : HandleTable) : Prop where
  free : ∃ l, t.FreeList l
  generation_le : ∀ i, (t.entry i).generation ≤ maxGeneration
  count_eq : t.count = t.entries.countP fun e => e.object.isSome

theorem FreeList.unique {t : HandleTable} {l l' : List Int} (h : t.FreeList l)
    (h' : t.FreeList l') : l = l' :=
  Chain.unique h.1 h'.1

theorem FreeList.nodup {t : HandleTable} {l : List Int} (h : t.FreeList l) : l.Nodup :=
  h.1.nodup

/-- The empty table: no slots, empty free list. -/
theorem wellFormed_empty : WellFormed ({} : HandleTable) where
  free := ⟨[], rfl, by simp⟩
  generation_le := by simp [entry, maxGeneration, HandleEntry.fresh]
  count_eq := rfl

theorem entry_eq_default {t : HandleTable} {i : Nat} (h : t.entries.length ≤ i) :
    t.entry i = .fresh := List.getD_eq_default _ _ h

/-! ## `grow` -/

theorem nextOf_append_replicate (es : List HandleEntry) (n : Nat) :
    nextOf (es ++ List.replicate n .fresh) = nextOf es := by
  funext x
  simp only [nextOf, getD_append_replicate]

theorem keptSlots_all (es : List HandleEntry) (lo k : Nat) :
    keptSlots (fun _ => true) es lo k = (List.range k).map fun j => ((lo + j : Nat) : Int) := by
  simp [keptSlots]

theorem grow_of_lt {t : HandleTable} {room : Nat} (h : room < growBatch) :
    t.grow room = ({ t with entries := t.entries ++ List.replicate room .fresh }, .error .oom) := by
  rw [grow, if_pos h]

theorem grow_of_le {t : HandleTable} {room : Nat} (h : ¬room < growBatch) :
    t.grow room =
      ({ t with
          entries := (linkDown (fun _ => true) t.entries.length growBatch
            (t.entries ++ List.replicate growBatch .fresh) t.freeHead).1
          freeHead := (linkDown (fun _ => true) t.entries.length growBatch
            (t.entries ++ List.replicate growBatch .fresh) t.freeHead).2 }, .ok ()) := by
  rw [grow, if_neg h]

/-- `grow` keeps every slot's object, rights and generation; new slots read as the
default entry, which the old vector also returned past its end. -/
theorem grow_entry (t : HandleTable) (room i : Nat) :
    ((t.grow room).1.entry i).object = (t.entry i).object ∧
    ((t.grow room).1.entry i).rights = (t.entry i).rights ∧
    ((t.grow room).1.entry i).generation = (t.entry i).generation := by
  by_cases hr : room < growBatch
  · rw [grow_of_lt hr]
    simp only [entry, getD_append_replicate, and_self]
  · rw [grow_of_le hr]
    obtain ⟨h1, h2, h3⟩ := linkDown_getD (fun _ => true) t.entries.length growBatch
      (t.entries ++ List.replicate growBatch .fresh) t.freeHead i
    simp only [entry, h1, h2, h3, getD_append_replicate, and_self]

theorem grow_length (t : HandleTable) (room : Nat) :
    (t.grow room).1.entries.length =
      t.entries.length + if room < growBatch then room else growBatch := by
  by_cases hr : room < growBatch
  · rw [grow_of_lt hr]; simp [hr]
  · rw [grow_of_le hr]; simp [hr, linkDown_length]

/-- A successful `grow` puts the `GROW_BATCH` new slots, ascending, in front of the
old free list; a failed one leaves the free list alone. -/
theorem grow_freeList {t : HandleTable} {l : List Int} (hl : t.FreeList l) (room : Nat) :
    (t.grow room).1.FreeList
      (if room < growBatch then l
       else (List.range growBatch).map (fun j => ((t.entries.length + j : Nat) : Int)) ++ l) := by
  have hlen := grow_length t room
  have hdead : ∀ i, ((t.grow room).1.entry i).object = (t.entry i).object :=
    fun i => (grow_entry t room i).1
  obtain ⟨hc, hmem⟩ := hl
  -- every old free slot is still in range and dead
  have hold : ∀ x ∈ l, 0 ≤ x ∧ x.toNat < (t.grow room).1.entries.length ∧
      ((t.grow room).1.entry x.toNat).object = none := by
    intro x hx
    obtain ⟨h0, hlt, ho⟩ := hmem x hx
    exact ⟨h0, by omega, by rw [hdead, ho]⟩
  by_cases hr : room < growBatch
  · simp only [hr, ↓reduceIte]
    refine ⟨?_, hold⟩
    rw [grow_of_lt hr]
    show Chain (nextOf _) _ _ _
    rwa [nextOf_append_replicate]
  · simp only [hr, ↓reduceIte] at hlen ⊢
    refine ⟨?_, fun x hx => ?_⟩
    · have hchain := @linkDown_chain (fun _ => true) (fun _ _ => rfl) t.entries.length growBatch
        (t.entries ++ List.replicate growBatch .fresh) t.freeHead l
        (by simp) (by rwa [nextOf_append_replicate])
        (fun x hx => ⟨(hmem x hx).1, .inl (hmem x hx).2.1⟩)
      rw [keptSlots_all] at hchain
      rw [grow_of_le hr]
      -- keep the 32-step loop folded, or unification unrolls it
      generalize linkDown (fun _ => true) t.entries.length growBatch
        (t.entries ++ List.replicate growBatch .fresh) t.freeHead = r at hchain ⊢
      exact hchain
    · rcases List.mem_append.1 hx with hx | hx
      · obtain ⟨j, hj, rfl⟩ := List.mem_map.1 hx
        have hj : j < growBatch := List.mem_range.1 hj
        refine ⟨by omega, by rw [Int.toNat_natCast]; omega, ?_⟩
        rw [Int.toNat_natCast, hdead, entry_eq_default (by omega)]
        rfl
      · exact hold x hx

theorem grow_wellFormed {t : HandleTable} (h : t.WellFormed) (room : Nat) :
    (t.grow room).1.WellFormed where
  free := by obtain ⟨l, hl⟩ := h.free; exact ⟨_, grow_freeList hl room⟩
  generation_le := fun i => by rw [(grow_entry t room i).2.2]; exact h.generation_le i
  count_eq := by
    by_cases hr : room < growBatch
    · rw [grow_of_lt hr]
      simp [List.countP_append, h.count_eq, HandleEntry.fresh]
    · rw [grow_of_le hr]
      simp only
      rw [countP_eq_of_getD (d := .fresh) (linkDown_length _ _ _ _ _)
        (fun j => by rw [(linkDown_getD _ _ _ _ _ j).1])]
      simp [List.countP_append, h.count_eq, HandleEntry.fresh]

/-! ## Slots that an operation leaves alone -/

/-- Object, rights and generation of every slot agree (links may differ). -/
def SameSlots (t t' : HandleTable) : Prop :=
  ∀ i, (t'.entry i).object = (t.entry i).object ∧ (t'.entry i).rights = (t.entry i).rights ∧
    (t'.entry i).generation = (t.entry i).generation

theorem SameSlots.refl (t : HandleTable) : SameSlots t t := fun _ => ⟨rfl, rfl, rfl⟩

theorem grow_sameSlots (t : HandleTable) (room : Nat) : SameSlots t (t.grow room).1 :=
  grow_entry t room

/-! ## `create_handle` -/

theorem popFree_result (t : HandleTable) (o : Object) (rights : Rights) :
    (t.popFree o rights).2 = .ok ⟨t.freeHead.toNat, (t.entry t.freeHead.toNat).generation⟩ := rfl

theorem popFree_entry (t : HandleTable) (o : Object) (rights : Rights) (i : Nat) :
    (t.popFree o rights).1.entry i =
      if t.freeHead.toNat = i ∧ t.freeHead.toNat < t.entries.length then
        { t.entry i with object := some o, rights := rights, nextFree := -1 }
      else t.entry i := by
  simp only [popFree, entry, getD_set]
  split
  · rename_i h; obtain ⟨rfl, -⟩ := h; rfl
  · rfl

/-- Popping the head of a free list `x :: l` leaves `l` as the free list. -/
theorem popFree_freeList {t : HandleTable} {x : Int} {l : List Int} (hl : t.FreeList (x :: l))
    (o : Object) (rights : Rights) : (t.popFree o rights).1.FreeList l := by
  obtain ⟨⟨hx, hxnil, hc⟩, hmem⟩ := hl
  subst hx
  have hnd := (Chain.nodup ⟨rfl, hxnil, hc⟩ : (t.freeHead :: l).Nodup)
  obtain ⟨hx0, -, -⟩ := hmem t.freeHead (by simp)
  -- the other free slots have indices different from the popped one
  have hne : ∀ y ∈ l, t.freeHead.toNat ≠ y.toNat := by
    intro y hy heq
    have hy0 := (hmem y (by simp [hy])).1
    have hxy : t.freeHead = y := by omega
    exact (List.nodup_cons.1 hnd).1 (hxy ▸ hy)
  refine ⟨?_, fun y hy => ?_⟩
  · refine hc.frame (fun y hy => ?_)
    simp only [next, nextOf, popFree]
    rw [getD_set_ne _ _ _ (hne y hy)]
  · obtain ⟨hy0, hylt, hyo⟩ := hmem y (by simp [hy])
    refine ⟨hy0, by simpa [popFree] using hylt, ?_⟩
    rw [popFree_entry, if_neg (fun h => hne y hy h.1), hyo]

theorem popFree_wellFormed {t : HandleTable} {x : Int} {l : List Int} (h : t.WellFormed)
    (hl : t.FreeList (x :: l)) (o : Object) (rights : Rights) :
    (t.popFree o rights).1.WellFormed := by
  obtain ⟨hx0, hxlt, hxo⟩ := hl.2 x (by simp)
  have hfree := popFree_freeList hl o rights
  obtain ⟨⟨hx, -, -⟩, -⟩ := hl
  subst hx
  refine ⟨⟨l, hfree⟩, fun i => ?_, ?_⟩
  · rw [popFree_entry]; split <;> exact h.generation_le i
  · simp only [popFree]
    rw [List.countP_set hxlt, h.count_eq]
    have : t.entries[t.freeHead.toNat].object = none := by
      rw [← List.getD_eq_getElem _ HandleEntry.fresh hxlt]; exact hxo
    simp [this]

/-- A popped slot is live under the id `create_handle` reports. -/
theorem popFree_lookupEntry {t : HandleTable} {x : Int} {l : List Int} (hl : t.FreeList (x :: l))
    (o : Object) (rights : Rights) :
    (t.popFree o rights).1.lookupEntry ⟨x.toNat, (t.entry x.toNat).generation⟩ =
      some { t.entry x.toNat with object := some o, rights := rights, nextFree := -1 } := by
  obtain ⟨-, hxlt, -⟩ := hl.2 x (by simp)
  have hx : t.freeHead = x := hl.1.1
  have he := popFree_entry t o rights x.toNat
  rw [if_pos ⟨by rw [hx], by rw [hx]; exact hxlt⟩] at he
  rw [lookupEntry_eq_some]
  exact ⟨by simpa [popFree] using hxlt, he, rfl, rfl⟩

/-- **What a successful `create_handle` did.** It popped the head `x` of the free list
of `t`, or of `t` grown when that list was empty, after checking the rights against
the registered type. -/
theorem createHandle_ok {t t' : HandleTable} {reg : TypeRegistry} {object : Option Object}
    {rights : Rights} {room : Nat} {id : HandleId}
    (h : t.WellFormed) (hc : t.createHandle reg object rights room = (t', .ok id)) :
    ∃ o d t₁ x l, object = some o ∧ reg.lookup o.typeId = some d ∧
      Submask rights d.validRights ∧ (t₁ = t ∨ t₁ = (t.grow room).1) ∧ t₁.FreeList (x :: l) ∧
      t' = (t₁.popFree o rights).1 ∧ id = ⟨x.toNat, (t₁.entry x.toNat).generation⟩ := by
  obtain ⟨l₀, hl₀⟩ := h.free
  unfold createHandle at hc
  cases object with
  | none => simp at hc
  | some o =>
  cases hd : reg.lookup o.typeId with
  | none => simp [hd] at hc
  | some d =>
  simp only [hd] at hc
  split at hc
  · simp at hc
  rename_i hsub
  by_cases hhead : t.freeHead = -1
  · -- empty free list: grow first
    simp only [hhead, ↓reduceIte] at hc
    by_cases hr : room < growBatch
    · rw [grow_of_lt hr] at hc; simp at hc
    have hgl := grow_freeList hl₀ room
    simp only [hr, ↓reduceIte] at hgl
    have hl₀nil : l₀ = [] := (hl₀.1.eq_nil_iff).1 hhead
    subst hl₀nil
    have hg : (t.grow room).2 = .ok () := by rw [grow_of_le hr]
    simp only [hg] at hc
    obtain ⟨x, l, hxl⟩ : ∃ x l, (List.range growBatch).map
        (fun j => ((t.entries.length + j : Nat) : Int)) ++ [] = x :: l :=
      ⟨_, _, rfl⟩
    rw [hxl] at hgl
    refine ⟨o, d, (t.grow room).1, x, l, rfl, hd, by simpa [Submask] using hsub,
      .inr rfl, hgl, (congrArg Prod.fst hc).symm, ?_⟩
    have := congrArg Prod.snd hc
    rw [popFree_result, hgl.1.1] at this
    exact (Except.ok.inj this).symm
  · simp only [hhead, ↓reduceIte] at hc
    cases l₀ with
    | nil => exact absurd hl₀.1 hhead
    | cons x l =>
      refine ⟨o, d, t, x, l, rfl, hd, by simpa [Submask] using hsub, .inl rfl, hl₀,
        (congrArg Prod.fst hc).symm, ?_⟩
      have := congrArg Prod.snd hc
      rw [popFree_result, hl₀.1.1] at this
      exact (Except.ok.inj this).symm

/-- A failed `create_handle` changed nothing, or only grew the table part way. -/
theorem createHandle_error {t t' : HandleTable} {reg : TypeRegistry} {object : Option Object}
    {rights : Rights} {room : Nat} {err : Errc}
    (hc : t.createHandle reg object rights room = (t', .error err)) :
    t' = t ∨ t' = (t.grow room).1 := by
  unfold createHandle at hc
  cases object with
  | none => exact .inl (congrArg Prod.fst hc).symm
  | some o =>
  cases hd : reg.lookup o.typeId with
  | none => simp only [hd] at hc; exact .inl (congrArg Prod.fst hc).symm
  | some d =>
  simp only [hd] at hc
  split at hc
  · exact .inl (congrArg Prod.fst hc).symm
  by_cases hhead : t.freeHead = -1
  · simp only [hhead, ↓reduceIte] at hc
    cases hg : (t.grow room).2 with
    | error e => simp only [hg] at hc; exact .inr (congrArg Prod.fst hc).symm
    | ok u => simp [hg, popFree] at hc
  · simp [hhead, popFree] at hc

theorem createHandle_wellFormed {t : HandleTable} (h : t.WellFormed) (reg : TypeRegistry)
    (object : Option Object) (rights : Rights) (room : Nat) :
    (t.createHandle reg object rights room).1.WellFormed := by
  cases hc : t.createHandle reg object rights room with
  | mk t' r =>
  cases r with
  | ok id =>
    obtain ⟨o, -, t₁, x, l, -, -, -, ht₁, hl, rfl, -⟩ := createHandle_ok h hc
    have h₁ : t₁.WellFormed := by rcases ht₁ with rfl | rfl; exacts [h, grow_wellFormed h room]
    exact popFree_wellFormed h₁ hl o rights
  | error err =>
    rcases createHandle_error hc with rfl | rfl
    exacts [h, grow_wellFormed h room]

/-! ## `duplicate` -/

theorem duplicate_of_none {t : HandleTable} {reg : TypeRegistry} {source : HandleId}
    {mask : Rights} {room : Nat} (h : t.lookupEntry source = none) :
    t.duplicate reg source mask room = (t, .error .handleInvalid) := by
  simp [duplicate, h]

theorem duplicate_of_some {t : HandleTable} {reg : TypeRegistry} {source : HandleId}
    {mask : Rights} {room : Nat} {e : HandleEntry} {o : Object}
    (h : t.lookupEntry source = some e) (ho : e.object = some o) :
    t.duplicate reg source mask room =
      if e.rights &&& rightDuplicate = 0 then (t, .error .rightsViolation)
      else t.createHandle reg (some o) (e.rights &&& mask) room := by
  simp [duplicate, h, ho]

/-! ## `take` -/

@[simp] theorem releaseEntry_object (e : HandleEntry) : (releaseEntry e).object = none := rfl

@[simp] theorem releaseEntry_rights (e : HandleEntry) : (releaseEntry e).rights = 0 := rfl

theorem releaseEntry_generation (e : HandleEntry) :
    (releaseEntry e).generation =
      if e.generation ≠ maxGeneration then e.generation + 1 else e.generation := rfl

/-- A release never lowers the generation and never pushes it past `MAX_GENERATION`. -/
theorem releaseEntry_generation_bounds {e : HandleEntry} (h : e.generation ≤ maxGeneration) :
    e.generation ≤ (releaseEntry e).generation ∧ (releaseEntry e).generation ≤ maxGeneration := by
  rw [releaseEntry_generation]
  split <;> omega

theorem take_of_none {t : HandleTable} {id : HandleId} (h : t.lookupEntry id = none) :
    t.take id = (t, .error .handleInvalid) := by
  simp [take, h]

/-- A successful `take` on the live entry `e`: the slot is released and, unless its
generation is saturated, pushed on the free list. -/
theorem take_of_some {t : HandleTable} {id : HandleId} {e : HandleEntry} {o : Object}
    (h : t.lookupEntry id = some e) (ho : e.object = some o) :
    t.take id =
      ({ entries := t.entries.set id.index
            { releaseEntry e with
              nextFree := if e.generation = maxGeneration then -1 else t.freeHead }
         count := t.count - 1
         freeHead := if e.generation = maxGeneration then t.freeHead else id.index },
       .ok ⟨o, e.rights⟩) := by
  simp [take, h, ho]

/-- A failed `take` changes nothing. -/
theorem take_error {t t' : HandleTable} {id : HandleId} {e : Errc}
    (h : t.take id = (t', .error e)) : t' = t := by
  unfold take at h
  split at h
  · exact (congrArg Prod.fst h).symm
  split at h
  · exact (congrArg Prod.fst h).symm
  · cases h

theorem take_entry {t : HandleTable} {id : HandleId} {e : HandleEntry} {o : Object}
    (h : t.lookupEntry id = some e) (ho : e.object = some o) (i : Nat) :
    (t.take id).1.entry i =
      if id.index = i then
        { releaseEntry e with nextFree := if e.generation = maxGeneration then -1 else t.freeHead }
      else t.entry i := by
  have hi := (lookupEntry_eq_some.1 h).1
  rw [take_of_some h ho]
  simp only [entry, getD_set]
  by_cases hj : id.index = i
  · rw [if_pos ⟨hj, hi⟩, if_pos hj]
  · rw [if_neg (fun h => hj h.1), if_neg hj]

/-- `take` on a live slot: the free list loses nothing and gains the slot unless the
slot is retired. -/
theorem take_freeList {t : HandleTable} {id : HandleId} {e : HandleEntry} {l : List Int}
    (hl : t.FreeList l) (h : t.lookupEntry id = some e) :
    (t.take id).1.FreeList (if e.generation = maxGeneration then l else (id.index : Int) :: l) := by
  obtain ⟨hi, rfl, -, ho⟩ := lookupEntry_eq_some.1 h
  obtain ⟨o, ho⟩ := Option.isSome_iff_exists.1 ho
  obtain ⟨hc, hmem⟩ := hl
  -- the taken slot was live, so no free slot shares its index
  have hne : ∀ y ∈ l, id.index ≠ y.toNat := by
    intro y hy heq
    have := (hmem y hy).2.2
    rw [← heq, ho] at this
    cases this
  have hframe : ∀ y ∈ l, (t.take id).1.next y = t.next y := by
    intro y hy
    simp only [next, nextOf]
    rw [take_of_some h ho]
    simp only
    rw [getD_set_ne _ _ _ (hne y hy)]
  have hold : ∀ y ∈ l, 0 ≤ y ∧ y.toNat < (t.take id).1.entries.length ∧
      ((t.take id).1.entry y.toNat).object = none := by
    intro y hy
    obtain ⟨h0, hlt, hyo⟩ := hmem y hy
    refine ⟨h0, by rw [take_of_some h ho]; simpa using hlt, ?_⟩
    rw [take_entry h ho, if_neg (hne y hy), hyo]
  by_cases hmax : (t.entry id.index).generation = maxGeneration
  · -- retired: the head is unchanged
    simp only [hmax, ↓reduceIte]
    refine ⟨?_, hold⟩
    have hhead : (t.take id).1.freeHead = t.freeHead := by rw [take_of_some h ho]; simp [hmax]
    rw [hhead]
    exact hc.frame hframe
  · simp only [hmax, ↓reduceIte]
    refine ⟨?_, fun y hy => ?_⟩
    · have hhead : (t.take id).1.freeHead = id.index := by rw [take_of_some h ho]; simp [hmax]
      rw [hhead]
      refine Chain.push hc (by omega) ?_ hframe
      simp only [next, nextOf, Int.toNat_natCast]
      rw [take_of_some h ho]
      dsimp only
      rw [getD_set_self _ _ _ hi]
      simp [hmax]
    · rcases List.mem_cons.1 hy with rfl | hy
      · refine ⟨by omega, by rw [take_of_some h ho]; simpa using hi, ?_⟩
        rw [Int.toNat_natCast, take_entry h ho, if_pos rfl]
        rfl
      · exact hold y hy

theorem take_wellFormed {t : HandleTable} {id : HandleId} (h : t.WellFormed) :
    (t.take id).1.WellFormed := by
  cases hlk : t.lookupEntry id with
  | none => rw [take_of_none hlk]; exact h
  | some e =>
    obtain ⟨hi, rfl, -, ho⟩ := lookupEntry_eq_some.1 hlk
    obtain ⟨o, ho⟩ := Option.isSome_iff_exists.1 ho
    obtain ⟨l, hl⟩ := h.free
    refine ⟨⟨_, take_freeList hl hlk⟩, fun i => ?_, ?_⟩
    · rw [take_entry hlk ho]
      split
      · exact (releaseEntry_generation_bounds (h.generation_le id.index)).2
      · exact h.generation_le i
    · rw [take_of_some hlk ho]
      simp only
      rw [List.countP_set hi, h.count_eq]
      have : t.entries[id.index].object = some o := by
        rw [← List.getD_eq_getElem _ HandleEntry.fresh hi]; exact ho
      simp [this]

/-! ## `clear` -/

theorem clear_getD (t : HandleTable) (i : Nat) :
    (t.entries.map fun e => if e.object.isSome then releaseEntry e else e).getD i .fresh =
      if (t.entry i).object.isSome then releaseEntry (t.entry i) else t.entry i :=
  List.getD_map t.entries HandleEntry.fresh _

/-- After `clear` every slot is dead; a slot that was live has been released. -/
theorem clear_entry (t : HandleTable) (i : Nat) :
    (t.clear.entry i).object = none ∧
    (t.clear.entry i).rights =
      (if (t.entry i).object.isSome then releaseEntry (t.entry i) else t.entry i).rights ∧
    (t.clear.entry i).generation =
      (if (t.entry i).object.isSome then releaseEntry (t.entry i) else t.entry i).generation := by
  obtain ⟨h1, h2, h3⟩ := linkDown_getD (fun e => e.object.isNone && e.generation != maxGeneration)
    0 _ (t.entries.map fun e => if e.object.isSome then releaseEntry e else e) (-1) i
  simp only [clear, entry] at h1 h2 h3 ⊢
  rw [h1, h2, h3, clear_getD]
  refine ⟨?_, rfl, rfl⟩
  cases ho : (t.entry i).object <;> simp [ho]

theorem clear_length (t : HandleTable) : t.clear.entries.length = t.entries.length := by
  simp [clear, linkDown_length]

/-- `clear` rebuilds the free list as every slot that is not retired, in ascending
order. -/
theorem clear_freeList (t : HandleTable) :
    t.clear.FreeList (((List.range t.entries.length).filter
      fun j => (t.clear.entry j).generation != maxGeneration).map fun (j : Nat) => (j : Int)) := by
  set es := t.entries.map fun e => if e.object.isSome then releaseEntry e else e with hes
  have hlen : es.length = t.entries.length := by simp [es]
  have hchain := @linkDown_chain (fun e => e.object.isNone && e.generation != maxGeneration)
    (fun _ _ => rfl) 0 es.length es (-1) [] (by simp) rfl (by simp)
  -- the loop keeps exactly the non-retired slots: after the release all are dead
  have hkept : keptSlots (fun e => e.object.isNone && e.generation != maxGeneration) es 0 es.length =
      ((List.range t.entries.length).filter
        fun j => (t.clear.entry j).generation != maxGeneration).map fun (j : Nat) => (j : Int) := by
    unfold keptSlots
    rw [hlen]
    simp only [Nat.zero_add]
    congr 1
    apply List.filter_congr
    intro j _
    have hg : (t.clear.entry j).generation = (es.getD j .fresh).generation :=
      (linkDown_getD _ 0 es.length es (-1) j).2.2
    have h0 : (es.getD j .fresh).object = none := by
      rw [hes, clear_getD]
      cases ho : (t.entry j).object <;> simp [ho]
    rw [hg, h0]
    rfl
  rw [List.append_nil, hkept] at hchain
  refine ⟨hchain, fun x hx => ?_⟩
  obtain ⟨j, hj, rfl⟩ := List.mem_map.1 hx
  have hj := (List.mem_range.1 (List.mem_filter.1 hj).1)
  exact ⟨by omega, by rw [Int.toNat_natCast, clear_length]; exact hj,
    by rw [Int.toNat_natCast]; exact (clear_entry t j).1⟩

theorem clear_wellFormed {t : HandleTable} (h : t.WellFormed) : t.clear.WellFormed where
  free := ⟨_, clear_freeList t⟩
  generation_le := fun i => by
    rw [(clear_entry t i).2.2]
    split
    · exact (releaseEntry_generation_bounds (h.generation_le i)).2
    · exact h.generation_le i
  count_eq := by
    have hdead : t.clear.entries.countP (fun e => e.object.isSome) = 0 := by
      rw [List.countP_eq_zero]
      intro e he
      obtain ⟨i, hi, rfl⟩ := List.getElem_of_mem he
      have := (clear_entry t i).1
      rw [entry, List.getD_eq_getElem _ _ hi] at this
      simp [this]
    rw [hdead]
    simp [clear, h.count_eq]

end HandleTable

end Archipelago.Obj
