import Archipelago.Syscalls.ChannelSpec

/-! Channels over whole runs. Every reachable world keeps the escrow honest: each
handle escrowed by a queued message was issued by the kernel table, and no two queued
messages (nor one message twice) escrow the same handle. So every escrow entry backs
at most one message, and together with the send and recv specifications of
`ChannelSpec` every transferred reference is in exactly one place: the sender's table
before the send, one escrow entry of one queued message after it, one new handle of the
receiver after the recv, or nowhere once dropped. -/

namespace Archipelago.Syscalls

open Archipelago.Lib Archipelago.Obj

/-- The calls of a run come from the tasks `0 .. tasks`. -/
def ChannelOp.From (tasks : Nat) : ChannelOp → Prop
  | .create caller .. => caller.task ≤ tasks
  | .send caller .. => caller.task ≤ tasks
  | .recv caller .. => caller.task ≤ tasks
  | .close task _ => task ≤ tasks
  | .destroy _ => True

instance (tasks : Nat) : DecidablePred (ChannelOp.From tasks)
  | .create caller .. => inferInstanceAs (Decidable (caller.task ≤ tasks))
  | .send caller .. => inferInstanceAs (Decidable (caller.task ≤ tasks))
  | .recv caller .. => inferInstanceAs (Decidable (caller.task ≤ tasks))
  | .close task _ => inferInstanceAs (Decidable (task ≤ tasks))
  | .destroy _ => inferInstanceAs (Decidable True)

namespace ChannelWorld

/-- The world after a run. -/
def after (w : ChannelWorld) (ops : List ChannelOp) : ChannelWorld := (run step w ops).1

/-- Every handle escrowed by a queued message, over every channel. -/
def escrowed (w : ChannelWorld) : List HandleId := w.states.flatMap ChannelState.attached

/-- What every reachable world of a system of `tasks + 1` tasks satisfies: the tables
are well formed, and the escrowed handles are distinct and issued by the kernel table. -/
structure Inv (tasks : Nat) (w : ChannelWorld) : Prop where
  wellFormed : w.WellFormed
  tables_length : w.tables.length = tasks + 1
  issued : ∀ x ∈ w.escrowed, (w.table kernelTask).isValid x = true ∨ (w.table kernelTask).Stale x
  nodup : w.escrowed.Nodup

variable {tasks : Nat} {w w' : ChannelWorld}

theorem Inv.kernel_lt (hi : w.Inv tasks) : kernelTask < w.tables.length := by
  rw [hi.tables_length]
  exact Nat.succ_pos tasks

@[simp] theorem escrowed_releaseEscrow (ids : List HandleId) :
    (w.releaseEscrow ids).escrowed = w.escrowed := rfl

theorem mem_escrowed {n : Nat} {x : HandleId} (hx : x ∈ (w.state n).attached) : x ∈ w.escrowed := by
  by_cases hn : n < w.states.length
  · rw [state, List.getD_eq_getElem _ _ hn] at hx
    exact List.mem_flatMap.2 ⟨_, List.getElem_mem hn, hx⟩
  · rw [state, List.getD_eq_default _ _ (Nat.le_of_not_lt hn)] at hx
    simp [ChannelState.gone, ChannelState.attached] at hx

theorem escrowed_setState {n : Nat} (hn : n < w.states.length) (st : ChannelState) :
    List.Perm ((w.setState n st).escrowed ++ (w.state n).attached) (w.escrowed ++ st.attached) := by
  rw [state, List.getD_eq_getElem _ _ hn]
  exact flatMap_set_perm ChannelState.attached st hn

/-- Dequeuing a message takes exactly its handles off the escrow list. -/
theorem escrowed_dequeue {n : Nat} {side : Side} {m : MessageBuffer} {rest : List MessageBuffer}
    (hq : (w.state n).inbound side = m :: rest) :
    List.Perm ((w.setState n { w.state n with
      inbound := Function.update (w.state n).inbound side rest }).escrowed ++ m.handles) w.escrowed := by
  have h := escrowed_setState (lt_of_inbound_eq_cons hq)
    { w.state n with inbound := Function.update (w.state n).inbound side rest }
  have hd := ChannelState.attached_dequeue hq
  -- cancel the dequeued state's remaining escrow on both sides
  rw [← List.perm_append_right_iff (l := ({ w.state n with
    inbound := Function.update (w.state n).inbound side rest } : ChannelState).attached)]
  calc List.Perm (_ ++ m.handles ++ _) (_ ++ (w.state n).attached) := by
        rw [List.append_assoc]
        exact hd.append_left _
    List.Perm _ _ := h

/-- The invariant carried over a step in which every table evolves and the escrow list
goes from `w.escrowed ++ added` to `w'.escrowed ++ removed`, up to order, where the
added handles are distinct, fresh before the step and issued after it. -/
theorem Inv.of_perm (hi : w.Inv tasks) (hwf : w'.WellFormed)
    (hlen : w'.tables.length = w.tables.length) (hev : w.Evolves w')
    {removed added : List HandleId} (hperm : List.Perm (w'.escrowed ++ removed) (w.escrowed ++ added))
    (hadded : ∀ x ∈ added, (w'.table kernelTask).isValid x = true ∨ (w'.table kernelTask).Stale x)
    (hfresh : ∀ x ∈ added, (w.table kernelTask).Unissued x) (hnodup : added.Nodup) :
    w'.Inv tasks where
  wellFormed := hwf
  tables_length := hlen.trans hi.tables_length
  issued x hx := by
    rcases List.mem_append.1 (hperm.subset (List.mem_append_left _ hx)) with hx | hx
    · exact (hev kernelTask).issued (hi.issued x hx)
    · exact hadded x hx
  nodup := by
    have h : (w.escrowed ++ added).Nodup :=
      List.nodup_append.2 ⟨hi.nodup, hnodup, fun a ha b hb => (hfresh b hb).ne (hi.issued a ha)⟩
    exact (hperm.nodup_iff.2 h).of_append_left

/-- A step that leaves every queue as it was and lets every table evolve. -/
theorem Inv.of_tables (hi : w.Inv tasks) (hwf : w'.WellFormed)
    (hlen : w'.tables.length = w.tables.length) (hev : w.Evolves w') (hst : w'.states = w.states) :
    w'.Inv tasks :=
  hi.of_perm hwf hlen hev
    (show List.Perm (w'.escrowed ++ []) (w.escrowed ++ []) by rw [escrowed, escrowed, hst])
    (by simp) (by simp) List.nodup_nil

/-! ## Each call keeps the invariant -/

theorem handleClose_inv (hi : w.Inv tasks) (task : Nat) (id : HandleId) :
    (w.handleClose task id).1.Inv tasks :=
  hi.of_tables (hi.wellFormed.setTable (HandleTable.take_wellFormed (hi.wellFormed task)) task)
    (length_setTable _ _ _) (evolves_setTable (HandleTable.take_evolves (hi.wellFormed task) id)) rfl

/-- Creating a pair inserts two endpoints into the caller's table (closing the first
again if the second does not fit) and adds a state with nothing queued. -/
theorem sysChannelCreate_inv (hi : w.Inv tasks) (caller : Caller) (offset : Nat) (allocOk : Bool)
    (room₁ room₂ : Nat) : (w.sysChannelCreate caller offset allocOk room₁ room₂).1.Inv tasks := by
  unfold sysChannelCreate
  split
  · exact hi
  split
  · exact hi
  have hwf := hi.wellFormed caller.task
  dsimp only
  split
  · next t e hc =>
    obtain ⟨hev, hwf'⟩ := HandleTable.insert_evolves hwf hc
    exact hi.of_tables (hi.wellFormed.setTable hwf' _) (length_setTable _ _ _) (evolves_setTable hev) rfl
  · next t h₁ hc =>
    obtain ⟨hev₁, hwf₁⟩ := HandleTable.insert_evolves hwf hc
    split
    · next t' e hc' =>
      obtain ⟨hev₂, hwf₂⟩ := HandleTable.insert_evolves hwf₁ hc'
      exact hi.of_tables (hi.wellFormed.setTable (HandleTable.take_wellFormed hwf₂) _)
        (length_setTable _ _ _)
        (evolves_setTable ((hev₁.trans hev₂).trans (HandleTable.take_evolves hwf₂ h₁))) rfl
    · next t' h₂ hc' =>
      obtain ⟨hev₂, hwf₂⟩ := HandleTable.insert_evolves hwf₁ hc'
      refine hi.of_perm (hi.wellFormed.setTable hwf₂ _) (length_setTable _ _ _)
        (evolves_setTable (hev₁.trans hev₂))
        (show List.Perm (_ ++ []) (w.escrowed ++ []) by
          simp [escrowed, ChannelState.attached, ChannelState.fresh])
        (by simp) (by simp) List.nodup_nil

theorem sysChannelSend_inv (hi : w.Inv tasks) {caller : Caller} (hS : caller.task < w.tables.length)
    {handle : HandleId} {offset length handlesOffset : Nat} {hs : List HandleId} {pageOk : Bool}
    {rooms : List Nat} {res : Except Errc Unit}
    (hr : w.sysChannelSend caller handle offset length handlesOffset hs pageOk rooms = (w', res)) :
    w'.Inv tasks := by
  have hloop := sendLoop_spec hS hi.kernel_lt hs rooms w [] [] (Escrowing.init hi.wellFormed caller.task) rfl
  rcases sysChannelSend_exits hr with ⟨rfl, -⟩ | ⟨e, hl, -⟩ | ⟨ep, w₁, xs, hl, ⟨rfl, -⟩ | ⟨rfl, hok, -⟩⟩
  · exact hi
  · obtain ⟨taken, -, he, -⟩ := hloop.2 w' e hl
    exact hi.of_tables he.wellFormed he.tablesOnly.2 he.evolves he.tablesOnly.states_eq
  · have he := (hloop.1 w₁ xs hl).1.release hi.kernel_lt
    exact hi.of_tables he.wellFormed he.tablesOnly.2 he.evolves he.tablesOnly.states_eq
  -- the message joins the peer's queue, escrowing exactly the new handles
  obtain ⟨he, -⟩ := hloop.1 w₁ xs hl
  rw [List.nil_append] at he
  have hlt : ep.1 < w₁.states.length := lt_of_alive (ChannelState.alive_of_write_ok hok)
  have hperm := escrowed_setState hlt ((w₁.state ep.1).write ep.2 ⟨length, xs⟩).1
  have hw₁ : w₁.escrowed = w.escrowed := by rw [escrowed, escrowed, he.tablesOnly.states_eq]
  rcases @ChannelState.attached_write (w₁.state ep.1) ep.2 ⟨length, xs⟩ with hp | hsame
  · have h2 : List.Perm (w₁.escrowed ++ ((w₁.state ep.1).write ep.2 ⟨length, xs⟩).1.attached)
        ((w₁.escrowed ++ xs) ++ (w₁.state ep.1).attached) :=
      calc List.Perm _ (w₁.escrowed ++ ((w₁.state ep.1).attached ++ xs)) := hp.append_left _
        List.Perm _ (w₁.escrowed ++ (xs ++ (w₁.state ep.1).attached)) :=
          List.perm_append_comm.append_left _
        _ = _ := (List.append_assoc _ _ _).symm
    have h3 := (List.perm_append_right_iff _).1 (hperm.trans h2)
    refine hi.of_perm he.wellFormed he.tablesOnly.2 he.evolves
      (show List.Perm (_ ++ []) (w.escrowed ++ xs) by rw [List.append_nil, ← hw₁]; exact h3)
      he.issued he.fresh he.nodup
  · rw [hsame, setState_state]
    exact hi.of_tables he.wellFormed he.tablesOnly.2 he.evolves he.tablesOnly.states_eq

theorem sysChannelRecv_inv (hi : w.Inv tasks) {caller : Caller} (hR : caller.task < w.tables.length)
    {handle : HandleId} {offset capacity handlesOffset handleCapacity : Nat} {rooms : List Nat}
    {res : Except Errc (List HandleId × Nat)}
    (hr : w.sysChannelRecv caller handle offset capacity handlesOffset handleCapacity rooms =
      (w', res)) :
    w'.Inv tasks := by
  rcases sysChannelRecv_exits hr with ⟨rfl, -⟩ | ⟨n, side, m, rest, st, hq, rfl, ⟨rfl, -⟩ | ⟨rfl, -⟩⟩
  · exact hi
  · -- the message is dropped: off the queue, its escrow handles closed
    exact hi.of_perm (WellFormed.releaseEscrow (w := w.setState n _) hi.wellFormed m.handles)
      (length_releaseEscrow _ _) (evolves_releaseEscrow (w := w.setState n _) hi.wellFormed m.handles)
      (show List.Perm (_ ++ m.handles) (w.escrowed ++ []) by
        rw [List.append_nil]; exact escrowed_dequeue hq)
      (by simp) (by simp) List.nodup_nil
  · -- the message is delivered: off the queue, its escrow handles taken
    let w₁ := w.setState n { w.state n with inbound := Function.update (w.state n).inbound side rest }
    have hiss : ∀ x ∈ m.handles, (w₁.table kernelTask).isValid x = true ∨
        (w₁.table kernelTask).Stale x :=
      fun x hx => hi.issued x (mem_escrowed (mem_attached hq hx))
    obtain ⟨pairs, d⟩ := @recvLoop_spec w₁ caller.task hR hi.kernel_lt m.handles rooms _ [] [] [] hiss
      (Delivering.init (w := w₁) (fun k => hi.wellFormed k) caller.task)
    have hst : (recvLoop caller.task w₁ m.handles rooms []).1.escrowed = w₁.escrowed := by
      rw [escrowed, escrowed, d.tablesOnly.states_eq]
    exact hi.of_perm d.wellFormed d.tablesOnly.2 d.evolves
      (show List.Perm (_ ++ m.handles) (w.escrowed ++ []) by
        rw [List.append_nil, hst]; exact escrowed_dequeue hq)
      (by simp) (by simp) List.nodup_nil

/-- Destroying an endpoint marks its end gone; the last one takes the state with it and
drops every message still queued. -/
theorem destroyEndpoint_inv (hi : w.Inv tasks) (o : ObjectId) : (w.destroyEndpoint o).Inv tasks := by
  unfold destroyEndpoint
  split
  · exact hi
  · next n side _ =>
    split
    · exact hi
    · next hguard =>
      have halive : (w.state n).alive side = true := (by simpa using hguard : _ ∧ _).2
      have hn := lt_of_alive halive
      dsimp only
      split
      · -- the peer lives on: only the flag changes, the queues stay
        have hperm := escrowed_setState hn
          { w.state n with alive := Function.update (w.state n).alive side false }
        exact hi.of_perm hi.wellFormed rfl (.refl w)
          (show List.Perm (_ ++ []) (w.escrowed ++ []) by
            rw [List.append_nil, List.append_nil]; exact (List.perm_append_right_iff _).1 hperm)
          (by simp) (by simp) List.nodup_nil
      · -- both ends gone: every queued message is dropped
        have hperm := escrowed_setState hn ChannelState.gone
        rw [ChannelState.attached_gone] at hperm
        exact hi.of_perm (WellFormed.releaseEscrow (w := w.setState n _) hi.wellFormed _)
          (length_releaseEscrow _ _) (evolves_releaseEscrow (w := w.setState n _) hi.wellFormed _)
          hperm (by simp) (by simp) List.nodup_nil

/-- Destroying an endpoint drops at most the messages queued on its state. -/
theorem destroyEndpoint_drops (hK : kernelTask < w.tables.length) (o : ObjectId) :
    ∃ dropped, Drops w (w.destroyEndpoint o) dropped := by
  unfold destroyEndpoint
  split
  · exact ⟨[], Drops.refl w⟩
  · next n side _ =>
    split
    · exact ⟨[], Drops.refl w⟩
    · dsimp only
      split
      · exact ⟨[], Drops.refl w⟩
      · exact ⟨_, releaseEscrow_drops (w := w.setState n .gone) hK _⟩

/-- Every step keeps the invariant, for calls from the system's tasks. -/
theorem step_inv (hi : w.Inv tasks) {op : ChannelOp} (hop : op.From tasks) : (w.step op).1.Inv tasks := by
  have hlt : ∀ k, k ≤ tasks → k < w.tables.length := fun k hk => by
    rw [hi.tables_length]
    exact Nat.lt_succ_of_le hk
  cases op with
  | create caller offset allocOk room₁ room₂ => exact sysChannelCreate_inv hi caller offset allocOk room₁ room₂
  | send caller handle offset length handlesOffset handleValues pageOk rooms =>
    exact sysChannelSend_inv hi (hlt _ hop) rfl
  | recv caller handle offset capacity handlesOffset handleCapacity rooms =>
    exact sysChannelRecv_inv hi (hlt _ hop) rfl
  | close task id => exact handleClose_inv hi task id
  | destroy o => exact destroyEndpoint_inv hi o

theorem init_inv (tasks : Nat) : (init tasks).Inv tasks where
  wellFormed k := by
    have h : (init tasks).table k = {} := by
      simp only [table, init, List.getD_eq_getElem?_getD, List.getElem?_getD_replicate_default_eq]
    rw [h]
    exact HandleTable.wellFormed_empty
  tables_length := List.length_replicate
  issued := by simp [escrowed, init]
  nodup := by simp [escrowed, init]

/-- Every world a run reaches satisfies the invariant. -/
theorem after_inv (tasks : Nat) (ops : List ChannelOp) (hops : ∀ op ∈ ops, op.From tasks) :
    ((init tasks).after ops).Inv tasks :=
  run_invariant_of (ChannelOp.From tasks) (Inv tasks) (fun _ _ hop hi => step_inv hi hop)
    (init_inv tasks) ops hops

/-! ## The tables stay sound

The channel calls write tables only by `take`, `insert` and `release_handles`, and none of
them registers a type. So from a world whose tables are all sound, every call reaches one
with the same registry and sound tables again (`KeepsSound`), whatever task calls. The
dispatcher's invariant rests on this. -/

/-- Every task's table is sound for the world's registry. -/
def Sound (w : ChannelWorld) : Prop := HandleTable.TablesSound w.registry w.tables

/-- `w'` has `w`'s registry and sound tables. -/
structure KeepsSound (w w' : ChannelWorld) : Prop where
  registry_eq : w'.registry = w.registry
  sound : w'.Sound

section Sound

variable {w w' w₁ w₂ : ChannelWorld}

theorem Sound.table (h : w.Sound) (k : Nat) : (w.table k).Sound w.registry := h k

theorem KeepsSound.refl (h : w.Sound) : KeepsSound w w := ⟨rfl, h⟩

theorem KeepsSound.trans (h₁ : KeepsSound w w₁) (h₂ : KeepsSound w₁ w₂) : KeepsSound w w₂ :=
  ⟨h₂.registry_eq.trans h₁.registry_eq, h₂.sound⟩

theorem KeepsSound.tablesSound (h : KeepsSound w w') : HandleTable.TablesSound w.registry w'.tables :=
  h.registry_eq ▸ h.sound

theorem Sound.setTable (h : w.Sound) {t : HandleTable} (ht : t.Sound w.registry) (k : Nat) :
    KeepsSound w (w.setTable k t) :=
  ⟨rfl, HandleTable.TablesSound.set h ht k⟩

theorem Sound.releaseEscrow (h : w.Sound) (ids : List HandleId) : KeepsSound w (w.releaseEscrow ids) :=
  h.setTable ((h.table kernelTask).releaseHandles ids) kernelTask

theorem Sound.setState (h : w.Sound) (n : Nat) (st : ChannelState) : KeepsSound w (w.setState n st) :=
  ⟨rfl, h⟩

/-- The escrow loop, by induction on the handles still to move: each take from the sender
and each insert into the kernel table keeps the tables sound. -/
theorem sendLoop_keepsSound (task : Nat) :
    ∀ (w : ChannelWorld) (hs : List HandleId) (rooms : List Nat) (attached : List HandleId),
      w.Sound → KeepsSound w (sendLoop task w hs rooms attached).1
  | w, [], _, _, h => .refl h
  | w, x :: hs, rooms, attached, h => by
    have ht := (h.table task).take x
    cases htake : (w.table task).take x with
    | mk t r =>
    rw [htake] at ht
    have h₁ := h.setTable ht task
    cases r with
    | error e =>
      simp only [sendLoop, htake]
      exact h₁.trans (h₁.sound.releaseEscrow attached)
    | ok moved =>
      have hk := (h₁.sound.table kernelTask).insert (some moved.object) moved.rights (rooms.headD 0)
      cases hins : ((w.setTable task t).table kernelTask).insert (w.setTable task t).registry
          (some moved.object) moved.rights (rooms.headD 0) with
      | mk k r' =>
      rw [hins] at hk
      have h₂ := h₁.trans (h₁.sound.setTable hk kernelTask)
      cases r' with
      | error e =>
        simp only [sendLoop, htake, hins]
        exact h₂.trans (h₂.sound.releaseEscrow attached)
      | ok y =>
        simp only [sendLoop, htake, hins]
        exact h₂.trans (sendLoop_keepsSound task _ hs rooms.tail _ h₂.sound)

/-- The delivery loop, by induction on the escrow handles still to deliver. -/
theorem recvLoop_keepsSound (task : Nat) :
    ∀ (w : ChannelWorld) (xs : List HandleId) (rooms : List Nat) (delivered : List HandleId),
      w.Sound → KeepsSound w (recvLoop task w xs rooms delivered).1
  | w, [], _, _, h => .refl h
  | w, x :: xs, rooms, delivered, h => by
    have ht := (h.table kernelTask).take x
    cases htake : (w.table kernelTask).take x with
    | mk k r =>
    rw [htake] at ht
    have h₁ := h.setTable ht kernelTask
    cases r with
    | error e =>
      simp only [recvLoop, htake]
      exact h₁.trans (recvLoop_keepsSound task _ xs rooms delivered h₁.sound)
    | ok moved =>
      have hk := (h₁.sound.table task).insert (some moved.object) moved.rights (rooms.headD 0)
      cases hins : ((w.setTable kernelTask k).table task).insert (w.setTable kernelTask k).registry
          (some moved.object) moved.rights (rooms.headD 0) with
      | mk t r' =>
      rw [hins] at hk
      -- delivered or dropped, the receiver's table took the insert's result
      have h₂ := h₁.trans (h₁.sound.setTable hk task)
      cases r' with
      | error e =>
        simp only [recvLoop, htake, hins]
        exact h₂.trans (recvLoop_keepsSound task _ xs rooms.tail delivered h₂.sound)
      | ok y =>
        simp only [recvLoop, htake, hins]
        exact h₂.trans (recvLoop_keepsSound task _ xs rooms.tail (delivered ++ [y]) h₂.sound)

theorem Sound.sysChannelSend (h : w.Sound) (caller : Caller) (handle : HandleId)
    (offset length handlesOffset : Nat) (hs : List HandleId) (pageOk : Bool) (rooms : List Nat) :
    KeepsSound w (w.sysChannelSend caller handle offset length handlesOffset hs pageOk rooms).1 := by
  have hloop := sendLoop_keepsSound caller.task w hs rooms [] h
  rcases sysChannelSend_exits (Prod.mk.eta
      (p := w.sysChannelSend caller handle offset length handlesOffset hs pageOk rooms)).symm with
    ⟨he, -⟩ | ⟨e, hl, -⟩ | ⟨ep, w₁, xs, hl, ⟨he, -⟩ | ⟨he, -, -⟩⟩
  · rw [he]
    exact .refl h
  · rwa [hl] at hloop
  · rw [hl] at hloop
    rw [he]
    exact hloop.trans (hloop.sound.releaseEscrow xs)
  · rw [hl] at hloop
    rw [he]
    exact hloop.trans (hloop.sound.setState _ _)

theorem Sound.sysChannelRecv (h : w.Sound) (caller : Caller) (handle : HandleId)
    (offset capacity handlesOffset handleCapacity : Nat) (rooms : List Nat) :
    KeepsSound w (w.sysChannelRecv caller handle offset capacity handlesOffset handleCapacity rooms).1 := by
  rcases sysChannelRecv_exits (Prod.mk.eta
      (p := w.sysChannelRecv caller handle offset capacity handlesOffset handleCapacity rooms)).symm with
    ⟨he, -⟩ | ⟨n, side, m, rest, st, -, -, ⟨he, -⟩ | ⟨he, -⟩⟩ <;> rw [he]
  · exact .refl h
  · have h₁ := h.setState n st
    exact h₁.trans (h₁.sound.releaseEscrow m.handles)
  · have h₁ := h.setState n st
    exact h₁.trans (recvLoop_keepsSound caller.task _ m.handles rooms [] h₁.sound)

theorem Sound.sysChannelCreate (h : w.Sound) (caller : Caller) (offset : Nat) (allocOk : Bool)
    (room₁ room₂ : Nat) : KeepsSound w (w.sysChannelCreate caller offset allocOk room₁ room₂).1 := by
  unfold ChannelWorld.sysChannelCreate
  split
  · exact .refl h
  split
  · exact .refl h
  -- beside the caller's table the new pair changes only the object counter, the states and the
  -- endpoint map
  have h₀ : KeepsSound w { w with nextObject := w.nextObject + 2 } := ⟨rfl, h⟩
  have hins := (h.table caller.task).insert (some ⟨w.nextObject, type_ids.CHANNEL⟩)
    channelDefaultRights room₁
  dsimp only
  split
  · next t e hc =>
    rw [show ((w.table caller.task).insert _ _ _ _) = _ from hc] at hins
    exact h₀.trans (h₀.sound.setTable hins caller.task)
  · next t h₁ hc =>
    rw [show ((w.table caller.task).insert _ _ _ _) = _ from hc] at hins
    have hins₂ := hins.insert (some ⟨w.nextObject + 1, type_ids.CHANNEL⟩) channelDefaultRights room₂
    split
    · next t' e hc' =>
      rw [hc'] at hins₂
      exact h₀.trans (h₀.sound.setTable (hins₂.close h₁) caller.task)
    · next t' h₂ hc' =>
      rw [hc'] at hins₂
      exact ⟨rfl, (h₀.sound.setTable hins₂ caller.task).sound⟩

end Sound

/-! ## Transfer conserves references -/

/-- **Handle transfer never duplicates or amplifies a reference.** In every world a run
from the initial system reaches: the escrowed handles are distinct and issued by the
kernel table, so each escrow entry backs at most one queued message. A send either
takes every listed handle out of the sender's table and escrows its reference, with
its rights, in one new kernel entry attached to the queued message, or takes a prefix
of them, drops what it took and leaves every other handle and every queue as it was. A
recv moves the front message's escrowed references into fresh handles of the receiver,
with the same rights, or drops them. Destroying an endpoint only drops escrowed
references. No call leaves anything held that was not held before. -/
theorem channel_transfer_conserves_references (tasks : Nat) (ops : List ChannelOp)
    (hops : ∀ op ∈ ops, op.From tasks) :
    let w := (init tasks).after ops
    w.Inv tasks ∧
      (∀ (caller : Caller) (handle : HandleId) (offset length handlesOffset : Nat)
          (hs : List HandleId) (pageOk : Bool) (rooms : List Nat) (w' : ChannelWorld)
          (res : Except Errc Unit),
        caller.task ≤ tasks →
        w.sysChannelSend caller handle offset length handlesOffset hs pageOk rooms = (w', res) →
        (res = .ok () → Sent w w' caller.task hs length) ∧
          (∀ e, res = .error e → SendFailed w w' caller.task hs)) ∧
      (∀ (caller : Caller) (handle : HandleId) (offset capacity handlesOffset handleCapacity : Nat)
          (rooms : List Nat) (w' : ChannelWorld) (res : Except Errc (List HandleId × Nat)),
        caller.task ≤ tasks →
        w.sysChannelRecv caller handle offset capacity handlesOffset handleCapacity rooms =
          (w', res) →
        (∀ ys size, res = .ok (ys, size) → Received w w' caller.task ys size) ∧
          (∀ e, res = .error e → RecvFailed w w')) ∧
      ∀ o, ∃ dropped, Drops w (w.destroyEndpoint o) dropped := by
  intro w
  have hi : w.Inv tasks := after_inv tasks ops hops
  have hlt : ∀ k, k ≤ tasks → k < w.tables.length := fun k hk => by
    rw [hi.tables_length]
    exact Nat.lt_succ_of_le hk
  refine ⟨hi, ?_, ?_, fun o => destroyEndpoint_drops hi.kernel_lt o⟩
  · intro caller handle offset length handlesOffset hs pageOk rooms w' res hS hr
    exact sysChannelSend_spec hi.wellFormed hi.kernel_lt (hlt _ hS) hr
  · intro caller handle offset capacity handlesOffset handleCapacity rooms w' res hR hr
    exact sysChannelRecv_spec hi.wellFormed hi.kernel_lt (hlt _ hR)
      (fun _ x hx => hi.issued x (mem_escrowed hx)) hr

/-- A run of task 1 (one IPC page): two pairs, an endpoint of the second sent over the
first, and received at the other end of the first. -/
def transferRun : List ChannelOp :=
  [.create ⟨1, ⟨1⟩⟩ 0 true growBatch growBatch,
    .create ⟨1, ⟨1⟩⟩ 0 true growBatch growBatch,
    .send ⟨1, ⟨1⟩⟩ ⟨0, 0⟩ 0 0 16 [⟨2, 0⟩] true [growBatch],
    .recv ⟨1, ⟨1⟩⟩ ⟨1, 0⟩ 0 0 16 maxMessageHandles [growBatch]]

/-- The run's calls return the two pairs, then send, then deliver the endpoint under a
new handle of task 1: slot 2, freed by the send, at its next generation. -/
example : (run step (init 1) transferRun).2 =
    [.created (.ok (⟨0, 0⟩, ⟨1, 0⟩)), .created (.ok (⟨2, 0⟩, ⟨3, 0⟩)), .sent (.ok ()),
      .received (.ok ([⟨2, 1⟩], 0))] := by
  rfl

/-- The run's world keeps the invariant. -/
theorem transferRun_inv :
    (∀ op ∈ transferRun, op.From 1) ∧ ((init 1).after transferRun).Inv 1 :=
  ⟨by decide, (channel_transfer_conserves_references 1 transferRun (by decide)).1⟩

end ChannelWorld

end Archipelago.Syscalls
