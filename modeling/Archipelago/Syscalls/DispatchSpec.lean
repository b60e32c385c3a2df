import Archipelago.Syscalls.Dispatch

/-! What `syscall_dispatch` hands back. User code tells failure from success by the sign of
the return register alone (`sys_is_error`), so every success value has to keep bit 63
clear. Each encoding does, given what the kernel keeps true: a packed handle because no slot
generation passes `MAX_GENERATION = 2^31 - 1`, `op_info` because every live slot's rights lie
within its type's registered rights and those within `RIGHTS_ALL`, the exit code because the
cause is one of three, recv's pair because a message carries at most `MAX_HANDLES` handles
and fits the IPC buffer, byte counts because they fit the IPC buffer, a port's unbind count
because the binding arena is finite, and a mapped base because it lies below `low_limit`.
Every error is `errc_of` of a `ktl::errc`, in `-15 .. -2`, and an unknown number gets `-1`:
the sign of the register tells exactly whether the call failed (`Inv.dispatch_sign`). That every
world a run reaches keeps the invariant is `DispatchRuns`. -/

namespace Archipelago.Syscalls

open Archipelago.Lib Archipelago.Obj
open Archipelago.Mm (Word)

/-! ## The encodings -/

theorem toNat_joinHalves (low high : Nat) :
    (joinHalves low high).toNat = low % 2 ^ 32 + high % 2 ^ 32 * 2 ^ 32 :=
  toNat_or_shiftLeft (Nat.mod_lt _ (by decide)) (Nat.mod_lt _ (by decide))

/-- Bit 63 of the pair is bit 31 of the high half. -/
theorem joinHalves_lt {low high : Nat} (h : high % 2 ^ 32 < 2 ^ 31) : (joinHalves low high).toNat < 2 ^ 63 := by
  have hl := Nat.mod_lt low (show 0 < 2 ^ 32 by decide)
  rw [toNat_joinHalves]
  omega

theorem packHandle_lt {id : HandleId} (h : id.generation ≤ maxGeneration) : (packHandle id).toNat < 2 ^ 63 :=
  joinHalves_lt (by unfold maxGeneration at h; omega)

theorem opInfo_lt {v : VerifiedHandle} (h : Submask v.rights rightsAll) : (opInfo v).toNat < 2 ^ 63 := by
  have hle := h.toNat_le
  have hall : rightsAll.toNat = 63 := rfl
  exact joinHalves_lt (by omega)

theorem exitCode_lt (r : TaskRecord) : r.exitCode.toNat < 2 ^ 63 :=
  joinHalves_lt (by cases r.exitCause <;> decide)

theorem recvReturn_lt {delivered size : Nat} (hd : delivered < 2 ^ 31) (hs : size < 2 ^ 32) :
    (recvReturn delivered size).toNat < 2 ^ 63 := by
  rw [recvReturn, BitVec.or_comm, toNat_or_shiftLeft hs (by omega)]
  omega

theorem toInt_unknownReturn : unknownReturn.toInt = -1 := by decide

/-- The `ktl::errc` band. -/
theorem toInt_errcOf_mem (e : Errc) : -15 ≤ (errcOf e).toInt ∧ (errcOf e).toInt ≤ -2 := by
  cases e <;> decide

theorem toNat_ofNat_lt {n : Nat} (h : n < 2 ^ 63) : (BitVec.ofNat 64 n).toNat < 2 ^ 63 := by
  rw [BitVec.toNat_ofNat, Nat.mod_eq_of_lt (by omega)]
  exact h

theorem toNat_setWidth_lt (x : BitVec 32) : (x.setWidth 64).toNat < 2 ^ 63 := by
  rw [BitVec.toNat_setWidth, Nat.mod_eq_of_lt (by omega)]
  exact Nat.lt_trans x.isLt (by decide)

/-! ## Results whose success value keeps bit 63 clear -/

/-- A handler's result whose success value is non-negative as a signed word. -/
def Bounded (r : Except Errc Word) : Prop := ∀ b, r = .ok b → b.toNat < 2 ^ 63

theorem bounded_error (e : Errc) : Bounded (.error e) := fun _ h => by cases h

theorem bounded_ok {b : Word} (h : b.toNat < 2 ^ 63) : Bounded (.ok b) := fun _ hb => by
  cases hb
  exact h

theorem bounded_map {α : Type} {r : Except Errc α} {f : α → Word} (hf : ∀ a, r = .ok a → (f a).toNat < 2 ^ 63) :
    Bounded (r.map f) := by
  intro b hb
  cases r with
  | error e => cases hb
  | ok a =>
    cases hb
    exact hf a rfl

theorem bounded_zero {α : Type} (r : Except Errc α) : Bounded (r.map fun _ => 0) :=
  bounded_map fun _ _ => by decide

/-- The register of a bounded result is negative exactly for an error. -/
theorem Bounded.toInt_neg_iff {r : Except Errc Word} (h : Bounded r) :
    (returnValue r).toInt < 0 ↔ ∃ e, r = .error e := by
  cases r with
  | error e => exact iff_of_true (toInt_errcOf e) ⟨e, rfl⟩
  | ok b => exact iff_of_false (Int.not_lt.2 (toInt_nonneg_of_lt (h b rfl))) (fun ⟨_, he⟩ => by cases he)

/-! ## Loop and callee bounds -/

theorem writeRuns_le {offset length : Nat} :
    ∀ fuel written, written ≤ length → writeRuns offset length fuel written ≤ length
  | 0, _, h => h
  | fuel + 1, written, h => by
    rw [writeRuns]
    split
    · exact writeRuns_le fuel _ (by omega)
    · exact h

/-- The page-run loop never reports more than it was asked to move, when no pass does. -/
theorem socketRuns_le {call : SocketPair → Nat → Nat → SocketPair × Except Errc Nat} {offset length : Nat}
    (hcall : ∀ st done attempt n, (call st done attempt).2 = .ok n → n ≤ attempt) :
    ∀ fuel done st n, done ≤ length → (socketRuns call offset length fuel done st).2 = .ok n → n ≤ length
  | 0, done, st, n, h, hr => by
    cases hr
    exact h
  | fuel + 1, done, st, n, h, hr => by
    rw [socketRuns] at hr
    split at hr
    · next hlt =>
      dsimp only at hr
      split at hr
      · next st' e hc =>
        split at hr
        · cases hr
          exact h
        · cases hr
      · next st' moved hc =>
        have hm := hcall st done _ moved (by rw [hc])
        split at hr
        · cases hr
          omega
        · exact socketRuns_le hcall fuel _ st' n (by omega) hr
    · cases hr
      exact h

theorem SocketPair.write_le {st : SocketPair} {side : Side} {data : List UInt8} {n : Nat}
    (h : (st.write side data).2 = .ok n) : n ≤ data.length := by
  unfold SocketPair.write at h
  split at h
  · cases h
  split at h
  · cases h
    exact Nat.zero_le _
  dsimp only at h
  split at h
  · cases h
  · cases h
    exact Nat.min_le_left _ _

theorem SocketPair.read_le {st : SocketPair} {side : Side} {capacity n : Nat}
    (h : (st.read side capacity).2.1 = .ok n) : n ≤ capacity := by
  unfold SocketPair.read at h
  dsimp only at h
  split at h
  · cases h
  split at h
  · cases h
    exact Nat.zero_le _
  · cases h
    exact Nat.min_le_left _ _

theorem socketWriteCall_le (mem : Nat → UInt8) (side : Side) (offset : Nat) :
    ∀ st done attempt n, (socketWriteCall mem side offset st done attempt).2 = .ok n → n ≤ attempt := by
  intro st done attempt n h
  have := SocketPair.write_le h
  simpa using this

theorem socketReadCall_le (side : Side) :
    ∀ st done space n, (socketReadCall side st done space).2 = .ok n → n ≤ space :=
  fun _ _ _ _ h => SocketPair.read_le h

/-- A range inside a thread's IPC buffer is at most 64 KiB. -/
theorem Thread.le_of_contains (t : Thread) {offset length : Nat}
    (h : t.caller.ipc.contains offset length = true) : length ≤ 65536 := by
  have hp := t.pages_le
  simp only [IpcBuffer.contains, Bool.and_eq_true, decide_eq_true_eq] at h
  simp only [IpcBuffer.sizeBytes, pageSize, ipcBufferMaxPages] at h hp
  omega

theorem IpcBuffer.contains_of_checked {b : IpcBuffer} {offset length : Nat}
    (h : ¬(!b.valid || !b.contains offset length) = true) : b.contains offset length = true :=
  (by simpa using h : b.valid = true ∧ _).2

/-! ## Callees that hand back handles -/

section Handles

variable {t t' : HandleTable} {reg : TypeRegistry} {id : HandleId}

/-- The id `create_handle` returns carries the generation of a slot of a well-formed table. -/
theorem createHandle_generation_le (hw : t.WellFormed) {object : Option Object} {rights : Rights} {room : Nat}
    (h : (t.createHandle reg object rights room).2 = .ok id) : id.generation ≤ maxGeneration := by
  obtain ⟨o, d, t₁, x, l, -, -, -, ht₁, -, -, rfl⟩ :=
    HandleTable.createHandle_ok hw (show t.createHandle reg object rights room = (_, .ok id) from Prod.ext rfl h)
  rcases ht₁ with rfl | rfl
  · exact hw.generation_le _
  · exact (HandleTable.grow_wellFormed hw room).generation_le _

theorem duplicate_generation_le (hw : t.WellFormed) {source : HandleId} {mask : Rights} {room : Nat}
    (h : (t.duplicate reg source mask room).2 = .ok id) : id.generation ≤ maxGeneration := by
  cases hlk : t.lookupEntry source with
  | none => rw [HandleTable.duplicate_of_none hlk] at h; cases h
  | some e =>
    obtain ⟨o, ho⟩ := Option.isSome_iff_exists.1 (HandleTable.lookupEntry_eq_some.1 hlk).2.2.2
    rw [HandleTable.duplicate_of_some hlk ho] at h
    split at h
    · cases h
    · exact createHandle_generation_le hw h

theorem emplace_generation_le (hw : t.WellFormed) {object : Option Object} {rights : Rights} {room : Nat}
    (h : (t.emplace reg object rights room).2 = .ok id) : id.generation ≤ maxGeneration := by
  cases object with
  | none => cases h
  | some o => exact createHandle_generation_le hw h

end Handles

/-! ## The callees of the channel and VMO handlers -/

namespace ChannelWorld

/-- A message `Channel::read` hands over fits both capacities it was read with. -/
theorem channelRead_ok_le {w w' : ChannelWorld} {ep : Nat × Side} {maxBytes maxHandles : Nat}
    {m : MessageBuffer} (h : w.channelRead ep maxBytes maxHandles = (w', .ok m)) :
    m.length ≤ maxBytes ∧ m.handles.length ≤ maxHandles := by
  have h2 := congrArg Prod.snd h
  unfold channelRead ChannelState.read at h2
  dsimp only at h2
  split at h2
  · cases h2
  · split at h2
    · cases h2
    · next hfits =>
      cases h2
      omega

/-- Delivery hands back at most one new handle per escrowed one. -/
theorem length_recvLoop (task : Nat) :
    ∀ (w : ChannelWorld) (xs : List HandleId) (rooms : List Nat) (delivered : List HandleId),
      (recvLoop task w xs rooms delivered).2.length ≤ delivered.length + xs.length
  | w, [], rooms, delivered => by simp [recvLoop]
  | w, x :: xs, rooms, delivered => by
    rw [recvLoop]
    split
    · refine Nat.le_trans (length_recvLoop task _ xs rooms delivered) ?_
      simp only [List.length_cons]
      omega
    · dsimp only
      split
      · refine Nat.le_trans (length_recvLoop task _ xs rooms.tail delivered) ?_
        simp only [List.length_cons]
        omega
      · refine Nat.le_trans (length_recvLoop task _ xs rooms.tail _) ?_
        simp only [List.length_append, List.length_cons, List.length_nil]
        omega

/-- What a successful `sys_channel_recv` hands back: at most `MAX_HANDLES` handles and a
message no longer than the buffer range it was read into. -/
theorem sysChannelRecv_ok_le {w : ChannelWorld} {caller : Caller} {handle : HandleId}
    {offset capacity handlesOffset handleCapacity : Nat} {rooms : List Nat} {ds : List HandleId} {size : Nat}
    (h : (w.sysChannelRecv caller handle offset capacity handlesOffset handleCapacity rooms).2 = .ok (ds, size)) :
    ds.length ≤ maxMessageHandles ∧ size ≤ capacity ∧ caller.ipc.contains offset capacity = true := by
  unfold sysChannelRecv at h
  split at h
  · cases h
  next hbuf =>
  split at h
  · cases h
  next hcap =>
  split at h
  · cases h
  split at h
  · cases h
  split at h
  · cases h
  split at h
  · cases h
  next w₁ m hc =>
  simp only [Except.ok.injEq, Prod.mk.injEq] at h
  obtain ⟨rfl, rfl⟩ := h
  obtain ⟨hlen, hhandles⟩ := channelRead_ok_le hc
  have hd := length_recvLoop caller.task w₁ m.handles rooms []
  simp only [List.length_nil, Nat.zero_add] at hd
  exact ⟨by omega, hlen, IpcBuffer.contains_of_checked hbuf⟩

end ChannelWorld

namespace VmoWorld

variable {w : VmoWorld} {caller : Nat} {handle : HandleId} {vaddr vmoOffset length prot : Word}
  {allocSlot addOk : Bool}

/-- `sysVmoMap` is its outcome cast to the return register. -/
theorem sysVmoMap_eq_outcome (w : VmoWorld) (caller : Nat) (handle : HandleId) (vaddr vmoOffset length prot : Word)
    (allocSlot addOk : Bool) :
    w.sysVmoMap caller handle vaddr vmoOffset length prot allocSlot addOk =
      ((w.sysVmoMapOutcome caller handle vaddr vmoOffset length prot allocSlot addOk).1,
        returnValue (w.sysVmoMapOutcome caller handle vaddr vmoOffset length prot allocSlot addOk).2) := by
  unfold sysVmoMap sysVmoMapOutcome
  split
  · rfl
  cases w.aspace caller with
  | none => rfl
  | some i =>
  dsimp only
  cases w.vmm.aspaces[i]? with
  | none => rfl
  | some a =>
  dsimp only
  cases (w.table caller).verify handle (neededRights prot) type_ids.VMO with
  | error e => rfl
  | ok v =>
  dsimp only
  split
  · rcases a.root.mapAnywhere (w.vmm.vmState i a) userMapFloor length (some v.object.id) vmoOffset
      (userProt prot) .cached allocSlot addOk with ⟨root, s, res⟩
    rfl
  · rcases a.root.map (w.vmm.vmState i a) vaddr length (some v.object.id) vmoOffset (userProt prot) .cached
      allocSlot addOk with ⟨root, s, res⟩
    rfl

/-- Every base a successful map returns is one `map_locked` succeeded at on a root region:
below `2 ^ 63`. -/
theorem sysVmoMapOutcome_lt (hw : w.vmm.Inv) {b : Word}
    (h : (w.sysVmoMapOutcome caller handle vaddr vmoOffset length prot allocSlot addOk).2 = .ok b) :
    b.toNat < 2 ^ 63 := by
  unfold sysVmoMapOutcome at h
  split at h
  · cases h
  split at h
  · cases h
  next i hi =>
  split at h
  · cases h
  next a ha =>
  split at h
  · cases h
  next v hv =>
  have hwf := (hw.trees i a ha).1
  split at h
  · split at h
    next root s res hm =>
    have hany : (a.root.mapAnywhere (w.vmm.vmState i a) userMapFloor length (some v.object.id) vmoOffset
        (userProt prot) .cached allocSlot addOk).2.2 = .ok b := by
      rw [hm]
      exact h
    exact base_lt_of_mapLocked hw ha (Mm.mapAnywhere_firstFit hwf hany).1
  · split at h
    next root s res hm =>
    cases res with
    | error e => cases h
    | ok u =>
      cases h
      exact base_lt_of_mapLocked hw ha hm

theorem bounded_sysVmoUnmapOutcome (w : VmoWorld) (caller : Nat) (vaddr : Word) :
    Bounded (w.sysVmoUnmapOutcome caller vaddr).2 := by
  unfold sysVmoUnmapOutcome
  split
  · exact bounded_error _
  split
  · exact bounded_error _
  · split
    exact bounded_zero _

/-- The handle `sys_vmo_create` returns comes from an insert into the caller's table. -/
theorem sysVmoCreate_generation_le (hw : (w.table caller).WellFormed) {size : Word} {pushed : Nat} {ok : Bool}
    {room : Nat} {id : HandleId} (h : (w.sysVmoCreate caller size pushed ok room).2 = .ok id) :
    id.generation ≤ maxGeneration := by
  unfold sysVmoCreate at h
  split at h
  · cases h
  split at h
  · cases h
  split at h
  · cases h
  next t h₁ hc =>
  cases h
  exact createHandle_generation_le hw (by rw [show (w.table caller).createHandle _ _ _ _ = _ from hc])

end VmoWorld

/-! ## The world invariant, and each handler's result -/

namespace SysWorld

variable {w : SysWorld}

@[simp] theorem keep_fst (w : SysWorld) (r : Except Errc Word) : (w.keep r).1 = w := rfl
@[simp] theorem keep_snd (w : SysWorld) (r : Except Errc Word) : (w.keep r).2 = r := rfl

/-- What the kernel keeps true that return values rest on: every table is well formed, its
live slots' rights lie within their types' registered rights and those within `RIGHTS_ALL`,
the VMM's invariant holds, and the ports hold no more bindings than the arena has slots, of
which there are fewer than `2 ^ 63`. -/
structure Inv (w : SysWorld) : Prop where
  wellFormed : ∀ k, (w.table k).WellFormed
  rightsWithin : ∀ k, (w.table k).RightsWithin w.registry
  registry_le : ∀ id d, w.registry.lookup id = some d → Submask d.validRights rightsAll
  vmm : w.vmm.Inv
  bindings_le : w.liveBindings ≤ w.bindingSlots
  slots_lt : w.bindingSlots < 2 ^ 63

/-- `verify` hands back rights within `RIGHTS_ALL`. -/
theorem Inv.verify_rights (hw : w.Inv) {k : Nat} {id : HandleId} {required : Rights} {expected : TypeId}
    {v : VerifiedHandle} (hv : (w.table k).verify id required expected = .ok v) : Submask v.rights rightsAll := by
  obtain ⟨e, o, hlk, ho, -, -, rfl⟩ := HandleTable.verify_ok_iff.1 hv
  obtain ⟨-, rfl, -, -⟩ := HandleTable.lookupEntry_eq_some.1 hlk
  obtain ⟨d, hd, hsub⟩ := hw.rightsWithin k id.index o ho
  exact hsub.trans (hw.registry_le _ d hd)

theorem bindings_le_liveBindings (w : SysWorld) (n : Nat) : (w.port n).bindings.length ≤ w.liveBindings := by
  unfold port liveBindings
  by_cases hn : n < w.ports.length
  · rw [List.getD_eq_getElem _ _ hn]
    exact List.le_sum_of_mem (List.mem_map.2 ⟨_, List.getElem_mem hn, rfl⟩)
  · rw [List.getD_eq_default _ _ (Nat.le_of_not_lt hn)]
    exact Nat.zero_le _

theorem bounded_withSelf (w : SysWorld) {self : Option Thread} {k : Thread → SysWorld × Except Errc Word}
    (h : ∀ t, Bounded (k t).2) : Bounded (w.withSelf self k).2 := by
  cases self with
  | none => exact bounded_error _
  | some t => exact h t

theorem bounded_sysWrite (w : SysWorld) (self : Option Thread) (offset length : Word) :
    Bounded (w.sysWrite self offset length).2 := by
  refine w.bounded_withSelf fun t => ?_
  split
  · exact bounded_error _
  · next hc =>
    have hlen := t.le_of_contains (IpcBuffer.contains_of_checked hc)
    have hrun := @writeRuns_le offset.toNat length.toNat length.toNat 0 (Nat.zero_le length.toNat)
    exact bounded_ok (toNat_ofNat_lt (by omega))

theorem Inv.bounded_runOp (hw : w.Inv) {k : Nat} {id : HandleId} {v : VerifiedHandle} {arg : Word}
    {env : SysInputs} (hv : Submask v.rights rightsAll) : ∀ kind, Bounded (w.runOp k id v arg env kind).2
  | .close => bounded_zero _
  | .duplicate => bounded_map fun _ h => packHandle_lt (duplicate_generation_le (hw.wellFormed k) h)
  | .info => bounded_ok (opInfo_lt hv)
  | .taskKill => bounded_zero _
  | .taskStatus => by
    show Bounded (w.opTaskStatus v)
    unfold opTaskStatus
    dsimp only
    split
    · exact bounded_error _
    · exact bounded_ok (exitCode_lt _)

theorem Inv.bounded_handleSyscall (hw : w.Inv) (self : Option Thread) (nr a0 a1 : Word) (env : SysInputs) :
    Bounded (w.handleSyscall self nr a0 a1 env).2 := by
  refine w.bounded_withSelf fun t => ?_
  unfold dispatchHandleOp
  split
  · exact bounded_error _
  · split
    · exact bounded_error _
    · next v hv => exact hw.bounded_runOp (hw.verify_rights hv) _

theorem bounded_channelCreate (w : SysWorld) (self : Option Thread) (offset : Word) (env : SysInputs) :
    Bounded (w.channelCreate self offset env).2 :=
  w.bounded_withSelf fun _ => bounded_zero _

theorem bounded_channelSend (w : SysWorld) (self : Option Thread) (handle offset length handlesOffset count : Word)
    (env : SysInputs) : Bounded (w.channelSend self handle offset length handlesOffset count env).2 :=
  w.bounded_withSelf fun _ => bounded_zero _

theorem bounded_channelRecv (w : SysWorld) (self : Option Thread) (handle offset capacity handlesOffset count : Word)
    (env : SysInputs) : Bounded (w.channelRecv self handle offset capacity handlesOffset count env).2 := by
  refine w.bounded_withSelf fun t => bounded_map ?_
  rintro ⟨ds, size⟩ h
  obtain ⟨hd, hs, hc⟩ := ChannelWorld.sysChannelRecv_ok_le h
  have hcap := t.le_of_contains hc
  dsimp only
  exact recvReturn_lt (by unfold maxMessageHandles at hd; omega) (by omega)

theorem Inv.bounded_vmoCreate (hw : w.Inv) (self : Option Thread) (size : Word) (env : SysInputs) :
    Bounded (w.vmoCreate self size env).2 :=
  w.bounded_withSelf fun t =>
    bounded_map fun _ h => packHandle_lt (VmoWorld.sysVmoCreate_generation_le (w := w.toVmoWorld) (hw.wellFormed t.caller.task) h)

theorem Inv.bounded_vmoMap (hw : w.Inv) (self : Option Thread) (handle vaddr vmoOffset length prot : Word)
    (env : SysInputs) : Bounded (w.vmoMap self handle vaddr vmoOffset length prot env).2 :=
  w.bounded_withSelf fun _ _ h => VmoWorld.sysVmoMapOutcome_lt hw.vmm h

theorem bounded_vmoUnmap (w : SysWorld) (self : Option Thread) (vaddr : Word) :
    Bounded (w.vmoUnmap self vaddr).2 :=
  w.bounded_withSelf fun t => VmoWorld.bounded_sysVmoUnmapOutcome _ t.caller.task vaddr

theorem bounded_sysObjectWait (w : SysWorld) (self : Option Thread) (handle mask timeoutNs : Word)
    (env : SysInputs) : Bounded (w.sysObjectWait self handle mask timeoutNs env).2 := by
  refine w.bounded_withSelf fun t => ?_
  split
  · exact bounded_error _
  split
  · exact bounded_error _
  -- a poll hands back the signal word, a wait what it woke with: both are 32-bit
  split
  · exact bounded_ok (toNat_setWidth_lt _)
  split
  · exact bounded_ok (toNat_setWidth_lt _)
  split
  · exact bounded_error _
  · exact bounded_ok (toNat_setWidth_lt _)

theorem Inv.bounded_sysPortCreate (hw : w.Inv) (self : Option Thread) (env : SysInputs) :
    Bounded (w.sysPortCreate self env).2 := by
  refine w.bounded_withSelf fun t => ?_
  dsimp only
  split
  · exact bounded_error _
  · next tbl id he =>
    exact bounded_ok (packHandle_lt (emplace_generation_le (hw.wellFormed t.caller.task) (by rw [he])))

theorem bounded_sysPortBind (w : SysWorld) (self : Option Thread) (portHandle objectHandle key mask : Word)
    (env : SysInputs) : Bounded (w.sysPortBind self portHandle objectHandle key mask env).2 := by
  refine w.bounded_withSelf fun t => ?_
  split
  · exact bounded_error _
  split
  · exact bounded_error _
  split
  · exact bounded_error _
  split
  · exact bounded_error _
  split
  · exact bounded_error _
  · exact bounded_ok (by decide)

/-- An unbind count is at most the port's bindings, which the arena bounds. -/
theorem Inv.bounded_sysPortUnbind (hw : w.Inv) (self : Option Thread) (portHandle key : Word) :
    Bounded (w.sysPortUnbind self portHandle key).2 := by
  refine w.bounded_withSelf fun t => ?_
  split
  · exact bounded_error _
  · next p _ =>
    have hcount := List.countP_le_length (p := fun b : PortBinding => b.key == key)
      (l := (w.port (w.portOf p.id)).bindings)
    have hlive := w.bindings_le_liveBindings (w.portOf p.id)
    have := hw.bindings_le
    have := hw.slots_lt
    exact bounded_ok (toNat_ofNat_lt (by simp only [Port.unbind]; omega))

theorem bounded_sysPortWait (w : SysWorld) (self : Option Thread) (portHandle offset timeoutNs : Word)
    (env : SysInputs) : Bounded (w.sysPortWait self portHandle offset timeoutNs env).2 := by
  refine w.bounded_withSelf fun t => ?_
  split
  · exact bounded_error _
  split
  · exact bounded_error _
  split
  · exact bounded_ok (by decide)
  · split
    · exact bounded_ok (by decide)
    · exact bounded_error _

theorem bounded_sysTaskSpawn (w : SysWorld) (self : Option Thread) (handle offset : Word) (env : SysInputs) :
    Bounded (w.sysTaskSpawn self handle offset env).2 := by
  refine w.bounded_withSelf fun t => ?_
  split
  · exact bounded_error _
  dsimp only
  split
  · exact bounded_error _
  split
  · exact bounded_error _
  split
  · exact bounded_error _
  split
  · exact bounded_error _
  · exact bounded_ok (by decide)

theorem bounded_sysSocketCreate (w : SysWorld) (self : Option Thread) (offset : Word) (env : SysInputs) :
    Bounded (w.sysSocketCreate self offset env).2 := by
  refine w.bounded_withSelf fun t => ?_
  split
  · exact bounded_error _
  split
  · exact bounded_error _
  dsimp only
  split
  · exact bounded_error _
  split
  · exact bounded_error _
  · exact bounded_ok (by decide)

theorem bounded_sysSocketWrite (w : SysWorld) (self : Option Thread) (handle offset length : Word)
    (env : SysInputs) : Bounded (w.sysSocketWrite self handle offset length env).2 := by
  refine w.bounded_withSelf fun t => ?_
  split
  · exact bounded_error _
  · next hc =>
    have hlen := t.le_of_contains (IpcBuffer.contains_of_checked hc)
    split
    · exact bounded_error _
    · dsimp only
      exact bounded_map fun done h => toNat_ofNat_lt (by
        have := socketRuns_le (socketWriteCall_le env.ipc _ offset.toNat) _ 0 _ done (Nat.zero_le _) h
        omega)

theorem bounded_sysSocketRead (w : SysWorld) (self : Option Thread) (handle offset capacity : Word) :
    Bounded (w.sysSocketRead self handle offset capacity).2 := by
  refine w.bounded_withSelf fun t => ?_
  split
  · exact bounded_error _
  · next hc =>
    have hlen := t.le_of_contains (IpcBuffer.contains_of_checked hc)
    split
    · exact bounded_error _
    · dsimp only
      exact bounded_map fun done h => toNat_ofNat_lt (by
        have := socketRuns_le (socketReadCall_le _) _ 0 _ done (Nat.zero_le _) h
        omega)

/-- Every handler's result keeps bit 63 clear on success. -/
theorem Inv.bounded_handle (hw : w.Inv) (self : Option Thread) (nr a0 a1 a2 a3 a4 : Word) (env : SysInputs)
    {r : Except Errc Word} (h : (w.handle self nr a0 a1 a2 a3 a4 env).2 = .returned r) : Bounded r := by
  unfold handle at h
  -- one goal per label of the switch, in its order, and the default last
  split at h <;> cases h
  case h_2 | h_3 => exact bounded_ok (by decide)
  case h_4 => exact w.bounded_sysWrite self a0 a1
  case h_5 | h_6 | h_7 | h_8 | h_9 => exact hw.bounded_handleSyscall self nr a0 a1 env
  case h_10 => exact w.bounded_channelCreate self a0 env
  case h_11 => exact w.bounded_channelSend self a0 a1 a2 a3 a4 env
  case h_12 => exact w.bounded_channelRecv self a0 a1 a2 a3 a4 env
  case h_13 => exact w.bounded_sysObjectWait self a0 a1 a2 env
  case h_14 => exact hw.bounded_sysPortCreate self env
  case h_15 => exact w.bounded_sysPortBind self a0 a1 a2 a3 env
  case h_16 => exact hw.bounded_sysPortUnbind self a0 a1
  case h_17 => exact w.bounded_sysPortWait self a0 a1 a2 env
  case h_18 => exact w.bounded_sysTaskSpawn self a0 a1 env
  case h_19 => exact hw.bounded_vmoCreate self a0 env
  case h_20 => exact hw.bounded_vmoMap self a0 a1 a2 a3 a4 env
  case h_21 => exact w.bounded_vmoUnmap self a0
  case h_22 => exact w.bounded_sysSocketCreate self a0 env
  case h_23 => exact w.bounded_sysSocketWrite self a0 a1 a2 env
  case h_24 => exact w.bounded_sysSocketRead self a0 a1 a2

end SysWorld

/-- The call took an error `return`, or named no syscall. -/
def Handled.Failed : Handled → Prop
  | .exit => False
  | .returned r => ∃ e, r = .error e
  | .unknown => True

namespace SysWorld

variable {w : SysWorld}

/-- **The sign of the return register classifies every call.** In a world that keeps the
invariant, whatever the thread, the syscall number and the arguments: when
`syscall_dispatch` returns to user code at all, its register is negative exactly when the
call failed, `-1` for an unknown number, `errc_of(e)` in `-15 .. -2` for an error `e`, and
the success value itself otherwise. -/
theorem Inv.dispatch_sign (hw : w.Inv) (self : Option Thread) (nr a0 a1 a2 a3 a4 a5 : Word) (env : SysInputs)
    {v : Word} (hv : (w.syscallDispatch self nr a0 a1 a2 a3 a4 a5 env).2 = some v) :
    (v.toInt < 0 ↔ (w.handle self nr a0 a1 a2 a3 a4 env).2.Failed) ∧
      ((w.handle self nr a0 a1 a2 a3 a4 env).2 = .unknown → v.toInt = -1) ∧
      (∀ e, (w.handle self nr a0 a1 a2 a3 a4 env).2 = .returned (.error e) →
        v = errcOf e ∧ -15 ≤ v.toInt ∧ v.toInt ≤ -2) ∧
      (∀ b, (w.handle self nr a0 a1 a2 a3 a4 env).2 = .returned (.ok b) → v = b) := by
  have hb : ∀ r, (w.handle self nr a0 a1 a2 a3 a4 env).2 = .returned r → Bounded r :=
    fun _ h => hw.bounded_handle self nr a0 a1 a2 a3 a4 env h
  unfold syscallDispatch at hv
  dsimp only at hv
  generalize w.handle self nr a0 a1 a2 a3 a4 env = r at hv hb ⊢
  obtain ⟨w', h⟩ := r
  cases h with
  | exit => cases hv
  | returned res =>
    dsimp only at hv
    split at hv
    · cases hv
    · cases hv
      refine ⟨(hb res rfl).toInt_neg_iff, fun h => (by cases h), fun e he => ?_, fun b hb' => ?_⟩
      · cases he
        exact ⟨rfl, toInt_errcOf_mem e⟩
      · cases hb'
        rfl
  | unknown =>
    dsimp only at hv
    split at hv
    · cases hv
    · cases hv
      refine ⟨iff_of_true (by rw [toInt_unknownReturn]; decide) trivial, fun _ => toInt_unknownReturn,
        fun e he => (by cases he), fun b hb' => (by cases hb')⟩

/-- Every type boot registers allows only rights within `RIGHTS_ALL`. -/
theorem boot_registry_le (arch : Mm.Arch) (zeroPage : Word) (slots : Nat) :
    ∀ id d, (boot arch zeroPage slots).registry.lookup id = some d → Submask d.validRights rightsAll := by
  intro id d h
  have hmem := List.mem_of_find?_eq_some h
  -- the registry is the same whatever the architecture, zero page and arena
  have hreg : (boot arch zeroPage slots).registry = (boot .x86_64 0 0).registry := rfl
  have hall : ∀ d ∈ (boot .x86_64 0 0).registry.types, Submask d.validRights rightsAll := by decide
  rw [hreg] at hmem
  exact hall d hmem

theorem inv_boot (arch : Mm.Arch) (zeroPage : Word) {slots : Nat} (hs : slots < 2 ^ 63) :
    (boot arch zeroPage slots).Inv where
  wellFormed k := by
    have h : (boot arch zeroPage slots).table k = {} := by
      simp only [table, boot, List.getD_eq_getElem?_getD]
      cases k <;> simp
    rw [h]
    exact HandleTable.wellFormed_empty
  rightsWithin k i o ho := by
    have h : (boot arch zeroPage slots).table k = {} := by
      simp only [table, boot, List.getD_eq_getElem?_getD]
      cases k <;> simp
    rw [h] at ho
    cases ho
  registry_le := boot_registry_le arch zeroPage slots
  vmm := Mm.Vmm.inv_init arch zeroPage
  bindings_le := by simp [liveBindings, boot]
  slots_lt := hs

end SysWorld

end Archipelago.Syscalls
