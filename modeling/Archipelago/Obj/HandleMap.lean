import Archipelago.Obj.HandleRuns

/-! The table as what its handles mean. `resolve` maps a handle to the object
reference and rights it stands for, and `holdings` is every reference the table
holds, counted with its rights. Each call is a plain update of this view: `take`
and `close` remove one handle, a successful `create_handle` adds one under its new
id, a failed one and `grow` change nothing, and `clear` removes all. Proofs about
callers that move references between tables (channels) use this view and never the
slots. -/

namespace Archipelago.Obj

open Archipelago.Lib

/-- The reference a live slot holds, with its rights. -/
def HandleEntry.ref (e : HandleEntry) : Option (Object × Rights) := e.object.map fun o => (o, e.rights)

namespace HandleTable

/-- What a handle stands for. -/
def resolve (t : HandleTable) (id : HandleId) : Option (Object × Rights) :=
  (t.lookupEntry id).bind HandleEntry.ref

/-- Every reference the table holds. -/
def holdings (t : HandleTable) : Multiset (Object × Rights) := t.entries.filterMap HandleEntry.ref

/-- A handle resolves through its slot alone: the generation must match and the slot
must be live. Past the end the slot reads as empty, so no bound is needed. -/
theorem resolve_eq (t : HandleTable) (id : HandleId) :
    t.resolve id =
      if (t.entry id.index).generation = id.generation then (t.entry id.index).ref else none := by
  rw [resolve, lookupEntry_eq]
  by_cases hi : id.index < t.entries.length
  · by_cases hg : (t.entry id.index).generation = id.generation <;>
      cases ho : (t.entry id.index).object <;> simp [hi, hg, ho, HandleEntry.ref]
  · have hd := entry_eq_default (t := t) (Nat.le_of_not_lt hi)
    have hfresh : HandleEntry.fresh.ref = none := rfl
    rw [if_neg (fun h => hi h.1), hd, hfresh, ite_self]
    rfl

theorem resolve_eq_none_iff {t : HandleTable} {id : HandleId} :
    t.resolve id = none ↔ t.isValid id = false := by
  rw [resolve, isValid]
  cases h : t.lookupEntry id with
  | none => simp
  | some e =>
    obtain ⟨o, ho⟩ := Option.isSome_iff_exists.1 (lookupEntry_eq_some.1 h).2.2.2
    simp [HandleEntry.ref, ho]

theorem resolve_of_sameSlots {t t' : HandleTable} (hs : SameSlots t t') : t'.resolve = t.resolve := by
  funext id
  obtain ⟨ho, hr, hg⟩ := hs id.index
  rw [resolve_eq, resolve_eq, hg, HandleEntry.ref, HandleEntry.ref, ho, hr]

theorem resolve_grow (t : HandleTable) (room : Nat) : (t.grow room).1.resolve = t.resolve :=
  resolve_of_sameSlots (grow_sameSlots t room)

/-- Popping a free slot makes exactly its new id resolve. -/
theorem resolve_popFree {t : HandleTable} {x : Int} {l : List Int} (hl : t.FreeList (x :: l))
    (o : Object) (rights : Rights) :
    (t.popFree o rights).1.resolve =
      Function.update t.resolve ⟨x.toNat, (t.entry x.toNat).generation⟩ (some (o, rights)) := by
  obtain ⟨-, hxlt, hxo⟩ := hl.2 x (by simp)
  have hx : t.freeHead = x := hl.1.1
  have hslot : (t.popFree o rights).1.entry x.toNat =
      { t.entry x.toNat with object := some o, rights := rights, nextFree := -1 } := by
    rw [popFree_entry, hx, if_pos ⟨rfl, hxlt⟩]
  have hother : ∀ i, x.toNat ≠ i → (t.popFree o rights).1.entry i = t.entry i := by
    intro i hi
    rw [popFree_entry, hx, if_neg (fun h => hi h.1)]
  funext id
  by_cases hid : id = ⟨x.toNat, (t.entry x.toNat).generation⟩
  · -- the popped slot under its own generation: the new id
    subst hid
    rw [Function.update_self, resolve_eq, hslot]
    simp [HandleEntry.ref]
  rw [Function.update_of_ne hid, resolve_eq, resolve_eq]
  by_cases hidx : x.toNat = id.index
  · -- the popped slot under another generation resolves to nothing, before and after
    have hg : (t.entry id.index).generation ≠ id.generation := by
      intro hg
      apply hid
      cases id
      simp only at hidx hg ⊢
      rw [hidx, hg]
    rw [← hidx, hslot]
    rw [← hidx] at hg
    simp [hg]
  · rw [hother _ hidx]

theorem resolve_createHandle_ok {t t' : HandleTable} {reg : TypeRegistry} {object : Option Object}
    {rights : Rights} {room : Nat} {id : HandleId} (h : t.WellFormed)
    (hc : t.createHandle reg object rights room = (t', .ok id)) :
    ∃ o, object = some o ∧ t'.resolve = Function.update t.resolve id (some (o, rights)) := by
  obtain ⟨o, -, t₁, x, l, rfl, -, -, ht₁, hl, rfl, rfl⟩ := createHandle_ok h hc
  have h₁ : t₁.resolve = t.resolve := by
    rcases ht₁ with rfl | rfl
    exacts [rfl, resolve_grow t room]
  exact ⟨o, rfl, by rw [resolve_popFree hl, h₁]⟩

theorem resolve_createHandle_error {t t' : HandleTable} {reg : TypeRegistry}
    {object : Option Object} {rights : Rights} {room : Nat} {err : Errc}
    (hc : t.createHandle reg object rights room = (t', .error err)) : t'.resolve = t.resolve := by
  rcases createHandle_error hc with rfl | rfl
  exacts [rfl, resolve_grow t room]

/-- `take` removes exactly the taken handle; on a handle that does not resolve it
changes nothing, which is the same update. -/
theorem resolve_take (t : HandleTable) (id : HandleId) :
    (t.take id).1.resolve = Function.update t.resolve id none := by
  cases hlk : t.lookupEntry id with
  | none =>
    rw [take_of_none hlk]
    have : t.resolve id = none := by simp [resolve, hlk]
    rw [← this, Function.update_eq_self]
  | some e =>
  obtain ⟨hi, rfl, hg, ho⟩ := lookupEntry_eq_some.1 hlk
  obtain ⟨o, ho⟩ := Option.isSome_iff_exists.1 ho
  funext id'
  rw [resolve_eq, take_entry hlk ho]
  by_cases hidx : id.index = id'.index
  · -- the taken slot is dead now, under every generation
    rw [if_pos hidx]
    have hdead : ({ releaseEntry (t.entry id.index) with
        nextFree := if (t.entry id.index).generation = maxGeneration then -1 else t.freeHead } :
          HandleEntry).ref = none := rfl
    rw [hdead, ite_self]
    by_cases hid : id' = id
    · subst hid; simp
    · rw [Function.update_of_ne hid, resolve_eq, ← hidx]
      have : (t.entry id.index).generation ≠ id'.generation := by
        intro h'
        apply hid
        cases id; cases id'
        simp only at hidx hg h' ⊢
        rw [hidx, ← h', hg]
      simp [this]
  · rw [if_neg hidx]
    have hid : id' ≠ id := fun h => hidx (h ▸ rfl)
    rw [Function.update_of_ne hid, resolve_eq]

/-! ## Holdings -/

theorem holdings_grow (t : HandleTable) (room : Nat) : (t.grow room).1.holdings = t.holdings := by
  have hfresh : (List.replicate room HandleEntry.fresh).filterMap HandleEntry.ref = [] := by
    simp [HandleEntry.ref, HandleEntry.fresh, List.filterMap_replicate]
  by_cases hr : room < growBatch
  · rw [grow_of_lt hr]
    simp only [holdings, List.filterMap_append, hfresh, List.append_nil]
  · rw [grow_of_le hr]
    simp only [holdings]
    -- the loop writes links only, so every slot's reference stays
    rw [filterMap_eq_of_getD (d := .fresh) (linkDown_length _ _ _ _ _) (fun j => by
      obtain ⟨h1, h2, -⟩ := linkDown_getD (fun _ => true) t.entries.length growBatch
        (t.entries ++ List.replicate growBatch .fresh) t.freeHead j
      rw [HandleEntry.ref, HandleEntry.ref, h1, h2])]
    have hfresh' : (List.replicate growBatch HandleEntry.fresh).filterMap HandleEntry.ref = [] := by
      simp [HandleEntry.ref, HandleEntry.fresh, List.filterMap_replicate]
    rw [List.filterMap_append, hfresh', List.append_nil]

theorem holdings_popFree {t : HandleTable} {x : Int} {l : List Int} (hl : t.FreeList (x :: l))
    (o : Object) (rights : Rights) :
    (t.popFree o rights).1.holdings = t.holdings + {(o, rights)} := by
  obtain ⟨-, hxlt, hxo⟩ := hl.2 x (by simp)
  have hx : t.freeHead = x := hl.1.1
  have hb : t.freeHead.toNat < t.entries.length := hx ▸ hxlt
  have hset := coe_filterMap_set HandleEntry.ref
    { t.entry t.freeHead.toNat with object := some o, rights := rights, nextFree := -1 } hb
  -- the popped slot held nothing before
  have hold : t.entries[t.freeHead.toNat].ref = none := by
    rw [← List.getD_eq_getElem _ HandleEntry.fresh, HandleEntry.ref, ← entry, hx, hxo]
    rfl
  rw [hold] at hset
  simpa [holdings, popFree, HandleEntry.ref] using hset

theorem holdings_createHandle_ok {t t' : HandleTable} {reg : TypeRegistry}
    {object : Option Object} {rights : Rights} {room : Nat} {id : HandleId} (h : t.WellFormed)
    (hc : t.createHandle reg object rights room = (t', .ok id)) :
    ∃ o, object = some o ∧ t'.holdings = t.holdings + {(o, rights)} := by
  obtain ⟨o, -, t₁, x, l, rfl, -, -, ht₁, hl, rfl, -⟩ := createHandle_ok h hc
  have h₁ : t₁.holdings = t.holdings := by
    rcases ht₁ with rfl | rfl
    exacts [rfl, holdings_grow t room]
  exact ⟨o, rfl, by rw [holdings_popFree hl, h₁]⟩

theorem holdings_createHandle_error {t t' : HandleTable} {reg : TypeRegistry}
    {object : Option Object} {rights : Rights} {room : Nat} {err : Errc}
    (hc : t.createHandle reg object rights room = (t', .error err)) : t'.holdings = t.holdings := by
  rcases createHandle_error hc with rfl | rfl
  exacts [rfl, holdings_grow t room]

/-- `take` of a handle that resolves gives up exactly that reference. -/
theorem holdings_take {t : HandleTable} {id : HandleId} {r : Object × Rights}
    (h : t.resolve id = some r) : (t.take id).1.holdings + {r} = t.holdings := by
  cases hlk : t.lookupEntry id with
  | none => simp [resolve, hlk] at h
  | some e =>
  obtain ⟨hi, rfl, -, ho⟩ := lookupEntry_eq_some.1 hlk
  obtain ⟨o, ho⟩ := Option.isSome_iff_exists.1 ho
  have hr : r = (o, (t.entry id.index).rights) := by
    simp [resolve, hlk, HandleEntry.ref, ho] at h
    exact h.symm
  have hset := coe_filterMap_set HandleEntry.ref
    { releaseEntry (t.entry id.index) with
      nextFree := if (t.entry id.index).generation = maxGeneration then -1 else t.freeHead } hi
  have hnow : t.entries[id.index].ref = some r := by
    rw [← List.getD_eq_getElem _ HandleEntry.fresh, HandleEntry.ref, ← entry, ho, hr]
    rfl
  rw [hnow] at hset
  rw [take_of_some hlk ho]
  simpa [holdings, HandleEntry.ref] using hset

theorem take_of_resolve_none {t : HandleTable} {id : HandleId} (h : t.resolve id = none) :
    t.take id = (t, .error .handleInvalid) := by
  apply take_of_none
  cases hlk : t.lookupEntry id with
  | none => rfl
  | some e =>
    obtain ⟨o, ho⟩ := Option.isSome_iff_exists.1 (lookupEntry_eq_some.1 hlk).2.2.2
    simp [resolve, hlk, HandleEntry.ref, ho] at h

/-- The reference `take` hands back is the one the handle resolved to. -/
theorem take_ok_resolve {t t' : HandleTable} {id : HandleId} {v : VerifiedHandle}
    (hc : t.take id = (t', .ok v)) : t.resolve id = some (v.object, v.rights) := by
  cases hlk : t.lookupEntry id with
  | none => rw [take_of_none hlk] at hc; cases hc
  | some e =>
    obtain ⟨o, ho⟩ := Option.isSome_iff_exists.1 (lookupEntry_eq_some.1 hlk).2.2.2
    rw [take_of_some hlk ho] at hc
    cases hc
    simp [resolve, hlk, HandleEntry.ref, ho]

end HandleTable

end Archipelago.Obj
