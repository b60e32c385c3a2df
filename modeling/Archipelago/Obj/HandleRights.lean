import Archipelago.Obj.HandleRuns

/-! Rights are only ever attenuated. The type registry fixes, per type, the rights a
handle to an object of that type may carry: `create_handle` refuses more,
`duplicate` needs `RIGHT_DUPLICATE` and masks the source's rights, `take` hands back
exactly the rights the slot held, and `verify` reports the first failed check in the
order lookup, type, rights. Along every run each live slot's rights stay within its
type's registered `valid_rights` (`RightsWithin`): the registry only grows, and no
call writes rights into a slot without that check. -/

namespace Archipelago.Obj

open Archipelago.Lib

namespace HandleTable

/-- Every live slot carries only rights its type's registered descriptor allows. -/
def RightsWithin (t : HandleTable) (reg : TypeRegistry) : Prop :=
  ∀ i o, (t.entry i).object = some o →
    ∃ d, reg.lookup o.typeId = some d ∧ Submask (t.entry i).rights d.validRights

section RightsWithin

variable {t t' : HandleTable} {reg reg' : TypeRegistry}

theorem RightsWithin.of_sameSlots (h : t.RightsWithin reg) (hs : SameSlots t t') :
    t'.RightsWithin reg := by
  intro i o ho
  rw [(hs i).1] at ho
  rw [(hs i).2.1]
  exact h i o ho

theorem RightsWithin.registry_mono (h : t.RightsWithin reg)
    (hreg : ∀ id d, reg.lookup id = some d → reg'.lookup id = some d) : t.RightsWithin reg' := by
  intro i o ho
  obtain ⟨d, hd, hsub⟩ := h i o ho
  exact ⟨d, hreg _ _ hd, hsub⟩

theorem createHandle_rightsWithin (hw : t.WellFormed) (h : t.RightsWithin reg)
    (object : Option Object) (rights : Rights) (room : Nat) :
    (t.createHandle reg object rights room).1.RightsWithin reg := by
  cases hc : t.createHandle reg object rights room with
  | mk t' r =>
  cases r with
  | ok id =>
    obtain ⟨o, d, t₁, x, l, -, hd, hsub, ht₁, -, rfl, -⟩ := createHandle_ok hw hc
    have h₁ : t₁.RightsWithin reg := by
      rcases ht₁ with rfl | rfl
      exacts [h, h.of_sameSlots (grow_sameSlots _ _)]
    intro i o' ho'
    rw [popFree_entry] at ho' ⊢
    by_cases hi : t₁.freeHead.toNat = i ∧ t₁.freeHead.toNat < t₁.entries.length
    · -- the popped slot carries the rights just checked against the descriptor
      rw [if_pos hi] at ho' ⊢
      cases ho'
      exact ⟨d, hd, hsub⟩
    · rw [if_neg hi] at ho' ⊢
      exact h₁ i o' ho'
  | error err =>
    rcases createHandle_error hc with rfl | rfl
    exacts [h, h.of_sameSlots (grow_sameSlots _ _)]

theorem take_rightsWithin (h : t.RightsWithin reg) (id : HandleId) :
    (t.take id).1.RightsWithin reg := by
  cases hlk : t.lookupEntry id with
  | none => rw [take_of_none hlk]; exact h
  | some e =>
    obtain ⟨o, ho⟩ := Option.isSome_iff_exists.1 (lookupEntry_eq_some.1 hlk).2.2.2
    intro i o' ho'
    rw [take_entry hlk ho] at ho' ⊢
    by_cases hi : id.index = i
    · rw [if_pos hi] at ho'
      cases ho'
    · rw [if_neg hi] at ho' ⊢
      exact h i o' ho'

theorem clear_rightsWithin (t : HandleTable) (reg : TypeRegistry) : t.clear.RightsWithin reg := by
  intro i o ho
  rw [(clear_entry t i).1] at ho
  cases ho

end RightsWithin

/-! ## The calls that hand rights out -/

/-- **What a successful `duplicate` did.** The source was live and carried
`RIGHT_DUPLICATE`, and the new handle names the same object with the source's rights
masked. -/
theorem duplicate_ok {t t' : HandleTable} {reg : TypeRegistry} {source : HandleId}
    {mask : Rights} {room : Nat} {id : HandleId} (hw : t.WellFormed)
    (hc : t.duplicate reg source mask room = (t', .ok id)) :
    ∃ e o, t.lookupEntry source = some e ∧ e.object = some o ∧ Submask rightDuplicate e.rights ∧
      ∃ e', t'.lookupEntry id = some e' ∧ e'.object = some o ∧ e'.rights = e.rights &&& mask := by
  cases hlk : t.lookupEntry source with
  | none => rw [duplicate_of_none hlk] at hc; cases hc
  | some e =>
  obtain ⟨o, ho⟩ := Option.isSome_iff_exists.1 (lookupEntry_eq_some.1 hlk).2.2.2
  rw [duplicate_of_some hlk ho] at hc
  split at hc
  · cases hc
  rename_i hdup
  obtain ⟨o', -, t₁, x, l, ho', -, -, -, hl, rfl, rfl⟩ := createHandle_ok hw hc
  cases ho'
  -- `RIGHT_DUPLICATE` is the single flag `1 << 2`
  have hflag : Submask (BitVec.twoPow 32 2) e.rights := (Submask.twoPow_iff (by decide)).2 hdup
  exact ⟨e, o, rfl, ho, hflag, _, popFree_lookupEntry hl o _, rfl, rfl⟩

/-- `take` hands back exactly the rights the live slot held. -/
theorem take_ok {t t' : HandleTable} {id : HandleId} {v : VerifiedHandle}
    (hc : t.take id = (t', .ok v)) :
    ∃ e, t.lookupEntry id = some e ∧ e.object = some v.object ∧ v.rights = e.rights := by
  cases hlk : t.lookupEntry id with
  | none => rw [take_of_none hlk] at hc; cases hc
  | some e =>
    obtain ⟨o, ho⟩ := Option.isSome_iff_exists.1 (lookupEntry_eq_some.1 hlk).2.2.2
    rw [take_of_some hlk ho] at hc
    cases hc
    exact ⟨e, rfl, ho, rfl⟩

/-! ## `verify` -/

section Verify

variable {t : HandleTable} {id : HandleId} {required : Rights} {expected : TypeId}

theorem verify_of_none (h : t.lookupEntry id = none) :
    t.verify id required expected = .error .handleInvalid := by
  simp [verify, h]

/-- `verify` on a live slot: the type check first, then the rights, with the rights
test `(rights & required) == required` read as `Submask`. -/
theorem verify_of_some {e : HandleEntry} {o : Object} (h : t.lookupEntry id = some e)
    (ho : e.object = some o) :
    t.verify id required expected =
      if expected ≠ type_ids.INVALID ∧ o.typeId ≠ expected then .error .wrongType
      else if ¬Submask required e.rights then .error .rightsViolation
      else .ok ⟨o, e.rights⟩ := by
  simp only [verify, h, ho, Submask.iff_and_eq]

/-- On a live slot the lookup has one answer, so the existential over it collapses. -/
theorem exists_live_iff {e : HandleEntry} {o : Object} (ho : e.object = some o)
    {P : HandleEntry → Object → Prop} :
    (∃ e' o', some e = some e' ∧ e'.object = some o' ∧ P e' o') ↔ P e o := by
  constructor
  · rintro ⟨_, _, ⟨⟩, ho', hp⟩
    rw [ho] at ho'
    cases ho'
    exact hp
  · exact fun hp => ⟨e, o, rfl, ho, hp⟩

theorem typeOk_of_not_wrongType {o : Object}
    (h : ¬(expected ≠ type_ids.INVALID ∧ o.typeId ≠ expected)) :
    expected = type_ids.INVALID ∨ o.typeId = expected :=
  (not_and_or.1 h).imp not_not.1 not_not.1

theorem not_typeOk_of_wrongType {o : Object}
    (h : expected ≠ type_ids.INVALID ∧ o.typeId ≠ expected) :
    ¬(expected = type_ids.INVALID ∨ o.typeId = expected) := by
  rintro (h' | h')
  exacts [h.1 h', h.2 h']

/-- `verify` succeeds exactly when the slot is live, the type matches (or any type is
accepted) and the handle carries every required right. -/
theorem verify_ok_iff {v : VerifiedHandle} :
    t.verify id required expected = .ok v ↔
      ∃ e o, t.lookupEntry id = some e ∧ e.object = some o ∧
        (expected = type_ids.INVALID ∨ o.typeId = expected) ∧ Submask required e.rights ∧
        v = ⟨o, e.rights⟩ := by
  cases hlk : t.lookupEntry id with
  | none => simp [verify_of_none hlk]
  | some e =>
    obtain ⟨o, ho⟩ := Option.isSome_iff_exists.1 (lookupEntry_eq_some.1 hlk).2.2.2
    rw [verify_of_some hlk ho, exists_live_iff ho]
    by_cases hty : expected ≠ type_ids.INVALID ∧ o.typeId ≠ expected
    · rw [if_pos hty]
      exact iff_of_false (by simp) (fun h => not_typeOk_of_wrongType hty h.1)
    rw [if_neg hty]
    by_cases hr : Submask required e.rights
    · rw [if_neg (not_not.2 hr)]
      constructor
      · intro h
        cases h
        exact ⟨typeOk_of_not_wrongType hty, hr, rfl⟩
      · rintro ⟨-, -, rfl⟩
        rfl
    · rw [if_pos hr]
      exact iff_of_false (by simp) (fun h => hr h.2.1)

/-- `handle_invalid` is reported exactly when the lookup fails. -/
theorem verify_handleInvalid_iff :
    t.verify id required expected = .error .handleInvalid ↔ t.lookupEntry id = none := by
  cases hlk : t.lookupEntry id with
  | none => exact iff_of_true (verify_of_none hlk) rfl
  | some e =>
    obtain ⟨o, ho⟩ := Option.isSome_iff_exists.1 (lookupEntry_eq_some.1 hlk).2.2.2
    rw [verify_of_some hlk ho]
    refine iff_of_false ?_ (by simp)
    split
    · simp
    · split <;> simp

/-- `wrong_type` is reported exactly when the slot is live and its type is not the
expected one, whatever the rights. -/
theorem verify_wrongType_iff :
    t.verify id required expected = .error .wrongType ↔
      ∃ e o, t.lookupEntry id = some e ∧ e.object = some o ∧
        expected ≠ type_ids.INVALID ∧ o.typeId ≠ expected := by
  cases hlk : t.lookupEntry id with
  | none => simp [verify_of_none hlk]
  | some e =>
    obtain ⟨o, ho⟩ := Option.isSome_iff_exists.1 (lookupEntry_eq_some.1 hlk).2.2.2
    rw [verify_of_some hlk ho, exists_live_iff ho]
    by_cases hty : expected ≠ type_ids.INVALID ∧ o.typeId ≠ expected
    · rw [if_pos hty]
      exact iff_of_true rfl hty
    · rw [if_neg hty]
      refine iff_of_false ?_ hty
      split <;> simp

/-- `rights_violation` is reported exactly when the slot is live, its type passes,
and a required right is missing. -/
theorem verify_rightsViolation_iff :
    t.verify id required expected = .error .rightsViolation ↔
      ∃ e o, t.lookupEntry id = some e ∧ e.object = some o ∧
        (expected = type_ids.INVALID ∨ o.typeId = expected) ∧ ¬Submask required e.rights := by
  cases hlk : t.lookupEntry id with
  | none => simp [verify_of_none hlk]
  | some e =>
    obtain ⟨o, ho⟩ := Option.isSome_iff_exists.1 (lookupEntry_eq_some.1 hlk).2.2.2
    rw [verify_of_some hlk ho, exists_live_iff ho]
    by_cases hty : expected ≠ type_ids.INVALID ∧ o.typeId ≠ expected
    · rw [if_pos hty]
      exact iff_of_false (by simp) (fun h => not_typeOk_of_wrongType hty h.1)
    rw [if_neg hty]
    by_cases hr : Submask required e.rights
    · rw [if_neg (not_not.2 hr)]
      exact iff_of_false (by simp) (fun h => h.2 hr)
    · rw [if_pos hr]
      exact iff_of_true rfl ⟨typeOk_of_not_wrongType hty, hr⟩

end Verify

/-! ## Sound tables

What every syscall may assume of every task's table, and leaves true: the table is well
formed and its live slots carry only registered rights. Each call that writes a table keeps
it, whatever object, rights or growth it is handed, because `create_handle` checks the
rights itself. -/

/-- A well-formed table whose live slots carry only their types' registered rights. -/
structure Sound (t : HandleTable) (reg : TypeRegistry) : Prop where
  wellFormed : t.WellFormed
  rightsWithin : t.RightsWithin reg

/-- Every table of a list, and the empty table a read past its end gives, is sound. -/
def TablesSound (reg : TypeRegistry) (ts : List HandleTable) : Prop := ∀ k, (ts.getD k {}).Sound reg

section Sound

variable {t : HandleTable} {reg : TypeRegistry}

theorem Sound.createHandle (h : t.Sound reg) (object : Option Object) (rights : Rights) (room : Nat) :
    (t.createHandle reg object rights room).1.Sound reg :=
  ⟨createHandle_wellFormed h.wellFormed reg object rights room,
    createHandle_rightsWithin h.wellFormed h.rightsWithin object rights room⟩

theorem Sound.insert (h : t.Sound reg) (object : Option Object) (rights : Rights) (room : Nat) :
    (t.insert reg object rights room).1.Sound reg :=
  h.createHandle object rights room

theorem Sound.emplace (h : t.Sound reg) (object : Option Object) (rights : Rights) (room : Nat) :
    (t.emplace reg object rights room).1.Sound reg := by
  cases object with
  | none => exact h
  | some o => exact h.createHandle (some o) rights room

theorem Sound.take (h : t.Sound reg) (id : HandleId) : (t.take id).1.Sound reg :=
  ⟨take_wellFormed h.wellFormed, take_rightsWithin h.rightsWithin id⟩

theorem Sound.close (h : t.Sound reg) (id : HandleId) : (t.close id).1.Sound reg :=
  h.take id

/-- A `duplicate` that passes its checks is a `create_handle`; one that fails leaves the
table as it was. -/
theorem Sound.duplicate (h : t.Sound reg) (source : HandleId) (mask : Rights) (room : Nat) :
    (t.duplicate reg source mask room).1.Sound reg := by
  cases hlk : t.lookupEntry source with
  | none => rw [duplicate_of_none hlk]; exact h
  | some e =>
    obtain ⟨o, ho⟩ := Option.isSome_iff_exists.1 (lookupEntry_eq_some.1 hlk).2.2.2
    rw [duplicate_of_some hlk ho]
    split
    · exact h
    · exact h.createHandle _ _ _

theorem TablesSound.set {ts : List HandleTable} (h : TablesSound reg ts) (ht : t.Sound reg) (k : Nat) :
    TablesSound reg (ts.set k t) := by
  intro j
  rw [getD_set]
  split
  · exact ht
  · exact h j

end Sound

end HandleTable

namespace HandleWorld

/-- Registration only adds descriptors; no other call touches the registry. -/
theorem step_registry_lookup (w : HandleWorld) (op : HandleOp) {id : TypeId}
    {d : TypeDescriptor} (h : w.registry.lookup id = some d) :
    (w.step op).1.registry.lookup id = some d := by
  cases op with
  | registerType => exact TypeRegistry.lookup_registerType h
  | _ => exact h

theorem step_rightsWithin {w : HandleWorld} (hw : w.table.WellFormed)
    (h : w.table.RightsWithin w.registry) (op : HandleOp) :
    (w.step op).1.table.RightsWithin (w.step op).1.registry := by
  apply HandleTable.RightsWithin.registry_mono _ (fun _ _ => step_registry_lookup w op)
  rcases step_table w op with ht | ⟨object, rights, room, ht⟩ | ⟨id, ht⟩ | ht <;> rw [ht]
  · exact h
  · exact HandleTable.createHandle_rightsWithin hw h _ _ _
  · exact HandleTable.take_rightsWithin h id
  · exact HandleTable.clear_rightsWithin _ _

theorem after_rightsWithin (ops : List HandleOp) :
    (init.after ops).table.RightsWithin (init.after ops).registry :=
  (run_invariant (fun w : HandleWorld => w.table.WellFormed ∧ w.table.RightsWithin w.registry)
    (fun _ _ hw => ⟨step_wellFormed hw.1 _, step_rightsWithin hw.1 hw.2 _⟩)
    ⟨HandleTable.wellFormed_empty, fun i o ho => by simp [init, HandleTable.entry, HandleEntry.fresh] at ho⟩ ops).2

/-- **Rights are only attenuated.** Along every run from the empty world: every live
slot's rights lie within its type's registered `valid_rights`; a successful
`duplicate` needs a live source carrying `RIGHT_DUPLICATE` and yields a live handle on
the same object with exactly the source's rights masked; `take` returns exactly the
slot's rights; and `verify` succeeds only on a live slot of the expected type carrying
the required rights, otherwise reporting `handle_invalid`, then `wrong_type`, then
`rights_violation`. -/
theorem rights_only_attenuate (ops : List HandleOp) :
    (init.after ops).table.RightsWithin (init.after ops).registry ∧
    (∀ source mask room t' id,
      (init.after ops).table.duplicate (init.after ops).registry source mask room = (t', .ok id) →
      ∃ e o, (init.after ops).table.lookupEntry source = some e ∧ e.object = some o ∧
        Submask rightDuplicate e.rights ∧
        ∃ e', t'.lookupEntry id = some e' ∧ e'.object = some o ∧ e'.rights = e.rights &&& mask) ∧
    (∀ id t' v, (init.after ops).table.take id = (t', .ok v) →
      ∃ e, (init.after ops).table.lookupEntry id = some e ∧ e.object = some v.object ∧
        v.rights = e.rights) ∧
    (∀ id required expected,
      (∀ v, (init.after ops).table.verify id required expected = .ok v ↔
        ∃ e o, (init.after ops).table.lookupEntry id = some e ∧ e.object = some o ∧
          (expected = type_ids.INVALID ∨ o.typeId = expected) ∧ Submask required e.rights ∧
          v = ⟨o, e.rights⟩) ∧
      ((init.after ops).table.verify id required expected = .error .handleInvalid ↔
        (init.after ops).table.lookupEntry id = none) ∧
      ((init.after ops).table.verify id required expected = .error .wrongType ↔
        ∃ e o, (init.after ops).table.lookupEntry id = some e ∧ e.object = some o ∧
          expected ≠ type_ids.INVALID ∧ o.typeId ≠ expected) ∧
      ((init.after ops).table.verify id required expected = .error .rightsViolation ↔
        ∃ e o, (init.after ops).table.lookupEntry id = some e ∧ e.object = some o ∧
          (expected = type_ids.INVALID ∨ o.typeId = expected) ∧ ¬Submask required e.rights)) :=
  ⟨after_rightsWithin ops,
    fun _ _ _ _ _ hc => HandleTable.duplicate_ok (after_sound ops).wellFormed hc,
    fun _ _ _ hc => HandleTable.take_ok hc,
    fun _ _ _ => ⟨fun _ => HandleTable.verify_ok_iff, HandleTable.verify_handleInvalid_iff,
      HandleTable.verify_wrongType_iff, HandleTable.verify_rightsViolation_iff⟩⟩

end HandleWorld

end Archipelago.Obj
