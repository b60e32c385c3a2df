import Archipelago.Syscalls.ChannelTransfer

/-! The specifications of `sys_channel_send` and `sys_channel_recv`. Each syscall first
gets an inversion lemma saying which of its exits it took; the specifications then
follow from the loop invariants of `ChannelTransfer`. -/

namespace Archipelago.Syscalls

open Archipelago.Lib Archipelago.Obj

namespace ChannelWorld

variable {w w' : ChannelWorld}

theorem setState_state (w : ChannelWorld) (n : Nat) : w.setState n (w.state n) = w := by
  by_cases hn : n < w.states.length
  · simp only [setState, state, List.getD_eq_getElem _ _ hn, List.set_getElem_self hn]
  · simp only [setState, List.set_eq_of_length_le (Nat.le_of_not_lt hn)]

theorem releaseEscrow_nil (w : ChannelWorld) : w.releaseEscrow [] = w := by
  rw [releaseEscrow, HandleTable.releaseHandles, setTable_table]

/-- A state a queue is read from exists. -/
theorem lt_of_inbound_eq_cons {n : Nat} {side : Side} {m : MessageBuffer} {rest : List MessageBuffer}
    (h : (w.state n).inbound side = m :: rest) : n < w.states.length := by
  by_contra hn
  rw [state, List.getD_eq_default _ _ (Nat.le_of_not_lt hn)] at h
  cases h

/-- A state with a live end exists. -/
theorem lt_of_alive {n : Nat} {side : Side} (h : (w.state n).alive side = true) :
    n < w.states.length := by
  by_contra hn
  rw [state, List.getD_eq_default _ _ (Nat.le_of_not_lt hn)] at h
  cases h

theorem mem_attached {st : ChannelState} {side : Side} {m : MessageBuffer}
    {rest : List MessageBuffer} (hq : st.inbound side = m :: rest) {x : HandleId}
    (hx : x ∈ m.handles) : x ∈ st.attached := by
  unfold ChannelState.attached
  cases side with
  | first => simp [hq, hx]
  | second => simp [hq, hx]

/-! ## Inversion lemmas -/

/-- `channelWrite` either drops the message or queues it. -/
theorem channelWrite_cases (w : ChannelWorld) (ep : Nat × Side) (message : MessageBuffer) :
    (∃ e, w.channelWrite ep message = (w.releaseEscrow message.handles, .error e)) ∨
      (w.channelWrite ep message = (w.setState ep.1 ((w.state ep.1).write ep.2 message).1, .ok ()) ∧
        ((w.state ep.1).write ep.2 message).2 = .ok ()) := by
  unfold channelWrite
  split
  · exact .inl ⟨_, rfl⟩
  · match hwr : (w.state ep.1).write ep.2 message with
    | (st, .ok ()) => exact .inr ⟨rfl, rfl⟩
    | (st, .error e) => exact .inl ⟨e, rfl⟩

/-- `channelRead` finds the queue empty and changes nothing, or dequeues the front
message and either hands it over or drops it. -/
theorem channelRead_cases (w : ChannelWorld) (ep : Nat × Side) (maxBytes maxHandles : Nat) :
    (∃ e, w.channelRead ep maxBytes maxHandles = (w, .error e)) ∨
      ∃ m rest st, (w.state ep.1).inbound ep.2 = m :: rest ∧
        st = { w.state ep.1 with inbound := Function.update (w.state ep.1).inbound ep.2 rest } ∧
        (w.channelRead ep maxBytes maxHandles =
            ((w.setState ep.1 st).releaseEscrow m.handles, .error .truncated) ∨
          w.channelRead ep maxBytes maxHandles = (w.setState ep.1 st, .ok m)) := by
  unfold channelRead ChannelState.read
  match hq : (w.state ep.1).inbound ep.2 with
  | [] =>
    exact .inl ⟨if (w.state ep.1).alive ep.2.peer then .wouldBlock else .peerClosed,
      by simp only [setState_state, releaseEscrow_nil]⟩
  | m :: rest =>
    refine .inr ⟨m, rest, _, rfl, rfl, ?_⟩
    by_cases hbig : maxBytes < m.length ∨ maxHandles < m.handles.length
    · exact .inl (by simp only [if_pos hbig])
    · exact .inr (by simp only [if_neg hbig, releaseEscrow_nil])

/-- `sys_channel_send` fails before it touches anything, fails in the escrow loop, or
hands the escrowed message to `channelWrite`. -/
theorem sysChannelSend_cases {caller : Caller} {handle : HandleId}
    {offset length handlesOffset : Nat} {hs : List HandleId} {pageOk : Bool} {rooms : List Nat}
    {res : Except Errc Unit}
    (hr : w.sysChannelSend caller handle offset length handlesOffset hs pageOk rooms = (w', res)) :
    (w' = w ∧ ∃ e, res = .error e) ∨
      (∃ e, sendLoop caller.task w hs rooms [] = (w', .error e) ∧ res = .error e) ∨
      ∃ ep w₁ xs, sendLoop caller.task w hs rooms [] = (w₁, .ok xs) ∧
        w₁.channelWrite ep ⟨length, xs⟩ = (w', res) := by
  unfold sysChannelSend at hr
  dsimp only at hr
  -- the checks before the escrow loop all return the world as it was
  have early : ∀ e, (w, Except.error e) = (w', res) → w' = w ∧ ∃ e, res = .error e :=
    fun e h => ⟨(Prod.mk.inj h).1.symm, e, (Prod.mk.inj h).2.symm⟩
  split at hr
  · exact .inl (early _ hr)
  split at hr
  · exact .inl (early _ hr)
  split at hr
  · exact .inl (early _ hr)
  split at hr
  · exact .inl (early _ hr)
  split at hr
  · exact .inl (early _ hr)
  split at hr
  · exact .inl (early _ hr)
  split at hr
  · exact .inl (early _ hr)
  split at hr
  · exact .inl (early _ hr)
  split at hr
  · exact .inl (early _ hr)
  split at hr
  · next w₁ e hl =>
    obtain ⟨rfl, rfl⟩ := Prod.mk.inj hr
    exact .inr (.inl ⟨e, hl, rfl⟩)
  · next w₁ xs hl => exact .inr (.inr ⟨_, w₁, xs, hl, hr⟩)

/-- `sys_channel_recv` fails before it touches anything, fails in the read, or delivers
the message it read. -/
theorem sysChannelRecv_cases {caller : Caller} {handle : HandleId}
    {offset capacity handlesOffset handleCapacity : Nat} {rooms : List Nat}
    {res : Except Errc (List HandleId × Nat)}
    (hr : w.sysChannelRecv caller handle offset capacity handlesOffset handleCapacity rooms =
      (w', res)) :
    (w' = w ∧ ∃ e, res = .error e) ∨
      (∃ ep e, w.channelRead ep capacity handleCapacity = (w', .error e) ∧ res = .error e) ∨
      ∃ ep w₁ m, w.channelRead ep capacity handleCapacity = (w₁, .ok m) ∧
        w' = (recvLoop caller.task w₁ m.handles rooms []).1 ∧
        res = .ok ((recvLoop caller.task w₁ m.handles rooms []).2, m.length) := by
  unfold sysChannelRecv at hr
  have early : ∀ e, (w, Except.error e) = (w', res) → w' = w ∧ ∃ e, res = .error e :=
    fun e h => ⟨(Prod.mk.inj h).1.symm, e, (Prod.mk.inj h).2.symm⟩
  split at hr
  · exact .inl (early _ hr)
  split at hr
  · exact .inl (early _ hr)
  split at hr
  · exact .inl (early _ hr)
  split at hr
  · exact .inl (early _ hr)
  split at hr
  · exact .inl (early _ hr)
  split at hr
  · next w₁ e hc =>
    obtain ⟨rfl, rfl⟩ := Prod.mk.inj hr
    exact .inr (.inl ⟨_, e, hc, rfl⟩)
  · next w₁ m hc =>
    obtain ⟨rfl, rfl⟩ := Prod.mk.inj hr
    exact .inr (.inr ⟨_, w₁, m, hc, rfl, rfl⟩)

/-- The exits of `sys_channel_send`, with the write resolved. -/
theorem sysChannelSend_exits {caller : Caller} {handle : HandleId}
    {offset length handlesOffset : Nat} {hs : List HandleId} {pageOk : Bool} {rooms : List Nat}
    {res : Except Errc Unit}
    (hr : w.sysChannelSend caller handle offset length handlesOffset hs pageOk rooms = (w', res)) :
    (w' = w ∧ ∃ e, res = .error e) ∨
      (∃ e, sendLoop caller.task w hs rooms [] = (w', .error e) ∧ res = .error e) ∨
      ∃ (ep : Nat × Side) (w₁ : ChannelWorld) (xs : List HandleId),
        sendLoop caller.task w hs rooms [] = (w₁, .ok xs) ∧
        (w' = w₁.releaseEscrow xs ∧ (∃ e, res = .error e) ∨
          w' = w₁.setState ep.1 ((w₁.state ep.1).write ep.2 ⟨length, xs⟩).1 ∧
            ((w₁.state ep.1).write ep.2 ⟨length, xs⟩).2 = .ok () ∧ res = .ok ()) := by
  rcases sysChannelSend_cases hr with h | h | ⟨ep, w₁, xs, hl, hwr⟩
  · exact .inl h
  · exact .inr (.inl h)
  refine .inr (.inr ⟨ep, w₁, xs, hl, ?_⟩)
  rcases channelWrite_cases w₁ ep ⟨length, xs⟩ with ⟨e, hc⟩ | ⟨hc, hok⟩
  · rw [hc] at hwr
    obtain ⟨rfl, rfl⟩ := Prod.mk.inj hwr
    exact .inl ⟨rfl, e, rfl⟩
  · rw [hc] at hwr
    obtain ⟨rfl, rfl⟩ := Prod.mk.inj hwr
    exact .inr ⟨rfl, hok, rfl⟩

/-- The exits of `sys_channel_recv`, with the read resolved: nothing changed, or the
front message `m` of a queue left it and was either dropped or delivered. -/
theorem sysChannelRecv_exits {caller : Caller} {handle : HandleId}
    {offset capacity handlesOffset handleCapacity : Nat} {rooms : List Nat}
    {res : Except Errc (List HandleId × Nat)}
    (hr : w.sysChannelRecv caller handle offset capacity handlesOffset handleCapacity rooms =
      (w', res)) :
    (w' = w ∧ ∃ e, res = .error e) ∨
      ∃ n side m rest st, (w.state n).inbound side = m :: rest ∧
        st = { w.state n with inbound := Function.update (w.state n).inbound side rest } ∧
        (w' = (w.setState n st).releaseEscrow m.handles ∧ res = .error .truncated ∨
          w' = (recvLoop caller.task (w.setState n st) m.handles rooms []).1 ∧
            res = .ok ((recvLoop caller.task (w.setState n st) m.handles rooms []).2, m.length)) := by
  rcases sysChannelRecv_cases hr with h | ⟨ep, e, hc, rfl⟩ | ⟨ep, w₁, m, hc, rfl, rfl⟩
  · exact .inl h
  · rcases channelRead_cases w ep capacity handleCapacity with
      ⟨e', hc'⟩ | ⟨m, rest, st, hq, hst, hc' | hc'⟩
    · rw [hc'] at hc
      obtain ⟨rfl, -⟩ := Prod.mk.inj hc
      exact .inl ⟨rfl, e, rfl⟩
    · rw [hc'] at hc
      obtain ⟨rfl, he⟩ := Prod.mk.inj hc
      cases he
      exact .inr ⟨ep.1, ep.2, m, rest, st, hq, hst, .inl ⟨rfl, rfl⟩⟩
    · rw [hc'] at hc
      cases (Prod.mk.inj hc).2
  · rcases channelRead_cases w ep capacity handleCapacity with
      ⟨e', hc'⟩ | ⟨m', rest, st, hq, hst, hc' | hc'⟩
    · rw [hc'] at hc
      cases (Prod.mk.inj hc).2
    · rw [hc'] at hc
      cases (Prod.mk.inj hc).2
    · rw [hc'] at hc
      obtain ⟨rfl, hm⟩ := Prod.mk.inj hc
      obtain rfl : m' = m := Except.ok.inj hm
      exact .inr ⟨ep.1, ep.2, m', rest, st, hq, hst, .inr ⟨rfl, rfl⟩⟩

/-! ## Specifications -/

/-- What a successful send did: the references are all still held; every listed handle
is gone from the sender; the handles changed only as the transfer into the kernel
table changes them; each escrow handle holds the reference of a listed handle, or
nothing if the sender (the kernel task) moved it on; and the message with one escrow
handle per listed handle sits at the back of one queue, every other queue as it was. -/
def Sent (w w' : ChannelWorld) (S : Nat) (hs : List HandleId) (length : Nat) : Prop :=
  w'.holdings = w.holdings ∧ (∀ h ∈ hs, (w'.table S).resolve h = none) ∧
    ∃ xs, w.Transfers w' S hs kernelTask xs ∧ xs.length = hs.length ∧
      (∀ x ∈ xs, (w'.table kernelTask).resolve x = none ∨
        ∃ h ∈ hs, (w'.table kernelTask).resolve x = (w.table S).resolve h ∧
          (w.table S).resolve h ≠ none) ∧
      ∃ n side, (w'.state n).inbound side = (w.state n).inbound side ++ [⟨length, xs⟩] ∧
        ∀ n' side', (n', side') ≠ (n, side) → (w'.state n').inbound side' = (w.state n').inbound side'

/-- What a failed send did: no queue changed, nothing is held that was not held before,
and the handles changed only as taking a prefix of the listed handles out of the
sender's table changes them. -/
def SendFailed (w w' : ChannelWorld) (S : Nat) (hs : List HandleId) : Prop :=
  w'.holdings ≤ w.holdings ∧ w'.states = w.states ∧
    ∃ taken, taken <+: hs ∧ (∀ h ∈ taken, (w'.table S).resolve h = none) ∧
      w.Transfers w' S taken kernelTask []

/-- What a successful recv did, for the message `m` at the front of a queue: the message
left its queue; nothing is held that was not held before; the handles changed only as
the transfer out of the kernel table into the receiver's changes them; every escrow
handle of the message is gone; and the delivered handles, all distinct, hold exactly
the references and rights that escrow handles of the message held, in order. -/
def Received (w w' : ChannelWorld) (R : Nat) (ys : List HandleId) (size : Nat) : Prop :=
  w'.holdings ≤ w.holdings ∧
    ∃ n side m rest, (w.state n).inbound side = m :: rest ∧ (w'.state n).inbound side = rest ∧
      size = m.length ∧ w.Transfers w' kernelTask m.handles R ys ∧
      (∀ x ∈ m.handles, (w'.table kernelTask).resolve x = none) ∧ ys.Nodup ∧
      ∃ xs, xs.Sublist m.handles ∧ List.Forall₂ (fun y x =>
        (w'.table R).resolve y = (w.table kernelTask).resolve x ∧
          (w.table kernelTask).resolve x ≠ none) ys xs

/-- What closing the escrow handles `dropped` did: nothing is held that was not held
before, the handles changed only as closing `dropped` in the kernel table changes them,
and those are gone. -/
def Drops (w w' : ChannelWorld) (dropped : List HandleId) : Prop :=
  w'.holdings ≤ w.holdings ∧ w.Transfers w' kernelTask dropped kernelTask [] ∧
    ∀ x ∈ dropped, (w'.table kernelTask).resolve x = none

/-- What a failed recv did: nothing, or it dropped the front message of a queue and
closed the message's escrow handles. -/
def RecvFailed (w w' : ChannelWorld) : Prop :=
  ∃ dropped, Drops w w' dropped ∧
    (dropped = [] ∧ w'.states = w.states ∨
      ∃ n side m rest, (w.state n).inbound side = m :: rest ∧ (w'.state n).inbound side = rest ∧
        dropped = m.handles)

theorem Drops.refl (w : ChannelWorld) : Drops w w [] :=
  ⟨le_refl _, fun _ _ => .inl rfl, by simp⟩

theorem releaseEscrow_drops (hK : kernelTask < w.tables.length) (ids : List HandleId) :
    Drops w (w.releaseEscrow ids) ids := by
  refine ⟨holdings_releaseEscrow_le hK ids, fun j id => ?_, fun x hx => ?_⟩
  · rw [resolve_releaseEscrow hK]
    split
    · next h => exact .inr (.inl ⟨h.1, h.2, rfl⟩)
    · exact .inl rfl
  · rw [resolve_releaseEscrow hK, if_pos ⟨rfl, hx⟩]

theorem SendFailed.refl (w : ChannelWorld) (S : Nat) (hs : List HandleId) : SendFailed w w S hs :=
  ⟨le_refl _, rfl, [], List.nil_prefix, by simp, fun _ _ => .inl rfl⟩

theorem Escrowing.sendFailed {S : Nat} {taken hs : List HandleId} (e : Escrowing w S w' taken [])
    (hle : w'.holdings ≤ w.holdings) (hp : taken <+: hs) : SendFailed w w' S hs :=
  ⟨hle, e.tablesOnly.states_eq, taken, hp, fun h hh => (e.taken h hh).resolve_eq_none, e.transfers⟩

/-- A message queued by `channelWrite`: appended to the peer's queue, nothing else. -/
theorem Escrowing.sent {S : Nat} {hs xs : List HandleId} {ep : Nat × Side} {length : Nat}
    (e : Escrowing w S w' hs xs) (hh : w'.holdings = w.holdings) (hlen : xs.length = hs.length)
    (hok : ((w'.state ep.1).write ep.2 ⟨length, xs⟩).2 = .ok ()) :
    Sent w (w'.setState ep.1 ((w'.state ep.1).write ep.2 ⟨length, xs⟩).1) S hs length := by
  have hlt : ep.1 < w'.states.length := lt_of_alive (ChannelState.alive_of_write_ok hok)
  have hwr := ChannelState.write_of_ok (Prod.ext rfl hok : (w'.state ep.1).write ep.2 ⟨length, xs⟩ =
    (((w'.state ep.1).write ep.2 ⟨length, xs⟩).1, .ok ()))
  refine ⟨hh, fun h hh => (e.taken h hh).resolve_eq_none, xs, e.transfers, hlen, e.derived,
    ep.1, ep.2.peer, ?_, ?_⟩
  · rw [state_setState, if_pos ⟨rfl, hlt⟩, hwr, e.tablesOnly.state_eq]
    simp
  · intro n' side' hne
    rw [state_setState]
    split
    · next hn =>
      obtain ⟨rfl, -⟩ := hn
      have hside : side' ≠ ep.2.peer := fun hs => hne (by rw [hs])
      rw [hwr]
      simp [Function.update_of_ne hside, e.tablesOnly.state_eq]
    · rw [e.tablesOnly.state_eq]

/-- `sys_channel_send`: on success the message escrows every listed handle and nothing
is lost; on failure the queues are as they were and a prefix of the listed handles is
taken, its references dropped. -/
theorem sysChannelSend_spec (hw : w.WellFormed) (hK : kernelTask < w.tables.length)
    {caller : Caller} (hS : caller.task < w.tables.length) {handle : HandleId}
    {offset length handlesOffset : Nat} {hs : List HandleId} {pageOk : Bool} {rooms : List Nat}
    {res : Except Errc Unit}
    (hr : w.sysChannelSend caller handle offset length handlesOffset hs pageOk rooms = (w', res)) :
    (res = .ok () → Sent w w' caller.task hs length) ∧
      (∀ e, res = .error e → SendFailed w w' caller.task hs) := by
  have hloop := sendLoop_spec hS hK hs rooms w [] [] (Escrowing.init hw caller.task) rfl
  rcases sysChannelSend_exits hr with ⟨rfl, e, rfl⟩ | ⟨e, hl, rfl⟩ | ⟨ep, w₁, xs, hl, hwr⟩
  · exact ⟨(fun h => by cases h), fun _ _ => SendFailed.refl _ _ hs⟩
  · obtain ⟨taken, hp, he, hle⟩ := hloop.2 w' e hl
    rw [List.nil_append] at he
    exact ⟨(fun h => by cases h), fun _ _ => he.sendFailed hle hp⟩
  · obtain ⟨he, hh⟩ := hloop.1 w₁ xs hl
    rw [List.nil_append] at he
    have hlen : xs.length = hs.length := by
      rw [sendLoop_length caller.task w hs rooms [] hl, List.length_nil, Nat.zero_add]
    rcases hwr with ⟨rfl, e, rfl⟩ | ⟨rfl, hok, rfl⟩
    · -- the write refused the message: its escrow handles are closed
      exact ⟨(fun h => by cases h), fun _ _ => (he.release hK).sendFailed
        ((holdings_releaseEscrow_le (he.tablesOnly.2 ▸ hK) xs).trans hh.le) (List.prefix_refl hs)⟩
    · exact ⟨fun _ => he.sent hh hlen hok, fun _ h => by cases h⟩

theorem RecvFailed.refl (w : ChannelWorld) : RecvFailed w w :=
  ⟨[], Drops.refl w, .inl ⟨rfl, rfl⟩⟩

/-- Dropping the front message `m` of a queue closes its escrow handles. -/
theorem recvFailed_truncated (hK : kernelTask < w.tables.length) {n : Nat} {side : Side}
    {m : MessageBuffer} {rest : List MessageBuffer} (hq : (w.state n).inbound side = m :: rest)
    {st : ChannelState} (hst : st.inbound side = rest) :
    RecvFailed w ((w.setState n st).releaseEscrow m.handles) := by
  refine ⟨m.handles, releaseEscrow_drops (w := w.setState n st) hK m.handles,
    .inr ⟨n, side, m, rest, hq, ?_, rfl⟩⟩
  rw [state_releaseEscrow, state_setState, if_pos ⟨rfl, lt_of_inbound_eq_cons hq⟩, hst]

/-- `sys_channel_recv`: on success the front message's escrowed references now sit in
the receiver's table, each under one new handle with the same rights; on failure at most
the front message was dropped. Either way nothing is held that was not held before. The
escrow handles must have been issued, which every reachable world guarantees. -/
theorem sysChannelRecv_spec (hw : w.WellFormed) (hK : kernelTask < w.tables.length)
    {caller : Caller} (hR : caller.task < w.tables.length)
    (hiss : ∀ n, ∀ x ∈ (w.state n).attached,
      (w.table kernelTask).isValid x = true ∨ (w.table kernelTask).Stale x)
    {handle : HandleId} {offset capacity handlesOffset handleCapacity : Nat} {rooms : List Nat}
    {res : Except Errc (List HandleId × Nat)}
    (hr : w.sysChannelRecv caller handle offset capacity handlesOffset handleCapacity rooms =
      (w', res)) :
    (∀ ys size, res = .ok (ys, size) → Received w w' caller.task ys size) ∧
      (∀ e, res = .error e → RecvFailed w w') := by
  rcases sysChannelRecv_exits hr with ⟨rfl, e, rfl⟩ | ⟨n, side, m, rest, st, hq, rfl, hexit⟩
  · exact ⟨(fun _ _ h => by cases h), fun _ _ => RecvFailed.refl _⟩
  rcases hexit with ⟨rfl, rfl⟩ | ⟨rfl, rfl⟩
  · exact ⟨(fun _ _ h => by cases h), fun _ _ => recvFailed_truncated hK hq (by simp)⟩
  refine ⟨fun ys size h => ?_, (fun _ h => by cases h)⟩
  obtain ⟨rfl, rfl⟩ := Prod.mk.inj (Except.ok.inj h)
  -- the message is dequeued; deliver its escrow handles
  let w₁ := w.setState n { w.state n with inbound := Function.update (w.state n).inbound side rest }
  have hiss' : ∀ x ∈ m.handles, (w₁.table kernelTask).isValid x = true ∨
      (w₁.table kernelTask).Stale x :=
    fun x hx => hiss n x (mem_attached hq hx)
  obtain ⟨pairs, d⟩ := @recvLoop_spec w₁ caller.task hR hK m.handles rooms _ [] [] []
    hiss' (Delivering.init (w := w₁) (fun k => hw k) caller.task)
  rw [List.nil_append] at d
  refine ⟨d.holdings, n, side, m, rest, hq, ?_, rfl, d.transfers,
    fun x hx => (d.gone x hx).resolve_eq_none, d.nodup, pairs, d.sublist, d.pairs⟩
  rw [d.tablesOnly.state_eq, state_setState, if_pos ⟨rfl, lt_of_inbound_eq_cons hq⟩]
  simp

end ChannelWorld

end Archipelago.Syscalls
