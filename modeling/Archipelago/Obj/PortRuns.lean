import Archipelago.Obj.PortRemove
import Archipelago.Obj.PortNotify

/-! Every call of the port subsystem, from every world the kernel can reach. Between calls
the pointers spell the lists of `World.view` (`Inv`): no victim waits, no FIFO is dropped,
and `READABLE` says on every port whether its FIFO is empty. Each call keeps that, never
runs out of fuel, and does to the FIFOs, the pending flags and the packets what
`CallSpec` says: FIFO order, packets queued only on edges or at bind, coalescing, and
`dequeue` handing out the oldest packet. -/

namespace Archipelago.Obj.PortWorld

open Archipelago.Lib Function World

/-- The lists the pointers spell, each walked for at most `fuel` steps. -/
def World.view (w : World) : View :=
  ⟨fun p => Chain.walk w.portNext 0 w.fuel (w.portBindings p),
    fun p => Chain.walk w.readyNext 0 w.fuel (w.readyHead p),
    fun o => Chain.walk w.objNext 0 w.fuel (w.objBindings o)⟩

variable {w : World} {v : View}

/-- The lists a world spells are the ones its walks meet. -/
theorem Links.Spells.view_eq (h : w.links.Spells v [] none) : w.view = v := by
  obtain ⟨bindings, ready, watchers⟩ := v
  simp only [World.view, View.mk.injEq]
  refine ⟨funext fun p => ?_, funext fun p => ?_, funext fun o => ?_⟩
  · exact (h.bindings p).walk_eq (h.bindings_length_lt p)
  · exact (h.ready p (by simp)).walk_eq (h.ready_length_lt (by simp))
  · exact (h.watchers o).chain.walk_eq (h.watchers_length_lt o)

theorem World.Wf.clearSignals (hw : w.Wf) (o : Nat) (bits : BitVec 32) : (w.clearSignals o bits).Wf :=
  ⟨hw.nodup, hw.zero_not_live, hw.kind_zero, hw.port_kind, hw.object_kind⟩

/-- What holds between calls. -/
structure Inv (w : World) (v : View) : Prop where
  links : w.links.Spells v [] none
  wf : w.Wf
  readable : Readable w.kind w.signals v

/-- Nothing bound yet: every list empty, every port's signals clear. -/
theorem init_inv (kind : Nat → Kind) (signals : Nat → BitVec 32) :
    Inv (World.init kind signals) ⟨fun _ => [], fun _ => [], fun _ => []⟩ where
  links := ⟨fun _ => rfl, fun _ => rfl, fun _ _ => rfl, fun _ _ => rfl, fun _ _ => by simp [World.init],
    fun _ _ => by simp [World.init], fun _ _ _ => by simp [World.init]⟩
  wf := ⟨List.nodup_nil, List.not_mem_nil, by simp [World.init], fun _ hb => absurd hb List.not_mem_nil,
    fun _ hb => absurd hb List.not_mem_nil⟩
  readable p hp := by
    have hp' : kind p = .port := by
      by_cases h0 : p = 0 <;> simp_all [World.init]
    simp [World.init, hp', Obj.Asserted]

/-- Erasing bindings from a FIFO without repeats filters them out. -/
theorem View.eraseAll_ready {q : Nat} (hnd : (v.ready q).Nodup) (xs : List Nat) :
    (v.eraseAll xs).ready q = (v.ready q).filter (· ∉ xs) := by
  induction xs generalizing v with
  | nil => simp
  | cons x xs ih =>
    rw [View.eraseAll_cons, ih (by exact hnd.erase x)]
    show ((v.ready q).erase x).filter _ = _
    rw [hnd.erase_eq_filter, List.filter_filter]
    congr 1
    funext y
    by_cases hyx : y = x <;> simp [hyx]

/-- What one call does to the FIFOs, the pending flags and the packets, and what `dequeue`
hands out. -/
structure CallSpec (c : Call) (w w' : World) (v v' : View) (out : Outcome) : Prop where
  /-- a FIFO keeps its packets still pending, in order, and grows at its tail -/
  fifo : ∀ p, ∃ new, v'.ready p = (v.ready p).filter (fun b => b ∈ w'.live ∧ w'.pending b = true) ++ new
  /-- a binding turns pending only when bound on signals hitting its mask, or on an edge -/
  fresh : ∀ b ∈ w'.live, w'.pending b = true → ¬ (b ∈ w.live ∧ w.pending b = true) →
    (∃ port obj key mask, c = .bind port obj key mask b ∧ w.signals obj &&& mask ≠ 0) ∨
    (b ∈ w.live ∧ w.signals (w.object b) &&& w.mask b = 0 ∧ w'.signals (w.object b) &&& w.mask b ≠ 0)
  /-- a pending packet only gains, and gains the hits of a `signal_set` on its object -/
  coalesce : ∀ b ∈ w.live, w.pending b = true → b ∈ w'.live → w'.pending b = true →
    Submask (w.pendingSignals b) (w'.pendingSignals b) ∧
    ∀ obj bits, c = .signalSet obj bits → w.object b = obj →
      Submask ((w.signals obj ||| bits) &&& w.mask b) (w'.pendingSignals b)
  /-- `dequeue` hands out the oldest packet and re-arms its binding -/
  dequeue : ∀ p, c = .dequeue p →
    (v.ready p = [] → out = .dequeued none) ∧
    ∀ b rest, v.ready p = b :: rest → out = .dequeued (some ⟨w.key b, w.pendingSignals b⟩) ∧
      w'.pending b = false ∧ w'.pendingSignals b = 0 ∧ v'.ready p = rest

/-- The packets of a FIFO are live and pending. -/
theorem Inv.ready_filter (h : Inv w v) {w' : World} (hw' : ∀ b ∈ w.live, w.pending b = true →
    b ∈ w'.live ∧ w'.pending b = true) (p : Nat) :
    (v.ready p).filter (fun b => b ∈ w'.live ∧ w'.pending b = true) = v.ready p := by
  refine List.filter_eq_self.2 fun b hb => ?_
  obtain ⟨hl, -, -, hp⟩ := (h.links.mem_ready p (by simp) b).1 hb
  simpa using hw' b hl hp

/-! ### Signals from other objects -/

theorem Inv.signalClear (h : Inv w v) {obj : Nat} (hobj : w.kind obj = .other) (bits : BitVec 32) :
    Inv (w.clearSignals obj bits) v ∧ CallSpec (.signalClear obj bits) w (w.clearSignals obj bits) v v .done := by
  have hne : ∀ p, w.kind p = .port → p ≠ obj := fun p hp e => by simp [e, hobj] at hp
  refine ⟨⟨h.links, h.wf.clearSignals obj bits, fun p hp => ?_⟩, ⟨fun p => ⟨[], ?_⟩,
    fun b hb hp hn => absurd ⟨hb, hp⟩ hn, fun b _ _ _ _ => ⟨Submask.refl _, fun _ _ hc => by cases hc⟩,
    fun _ hc => by cases hc⟩⟩
  · simpa [World.clearSignals, update_of_ne (hne p hp)] using h.readable p hp
  · rw [h.ready_filter ?_ p, List.append_nil]
    exact fun b hb hp => ⟨hb, hp⟩

theorem Inv.signalSet (h : Inv w v) {obj : Nat} (hobj : w.kind obj = .other) (bits : BitVec 32) :
    ∃ w' v', World.signalSet w.fuel w obj bits = some w' ∧ Inv w' v' ∧
      CallSpec (.signalSet obj bits) w w' v v' .done := by
  have hne : ∀ p, w.kind p = .port → p ≠ obj := fun p hp e => by simp [e, hobj] at hp
  obtain ⟨w', v', hset, d, e, a, r⟩ := signalSet_spec w.fuel w v obj bits h.links h.wf
    (Nat.lt_succ_of_le (List.length_filter_le _ _))
  refine ⟨w', v', hset, ⟨d.links, d.wf h.wf, r fun p hp => ?_⟩, ⟨fun p => ?_, fun b hb hp hn => ?_,
    fun b hb hp _ _ => ⟨d.pendingSignals b hp, fun o bs hc hob => ?_⟩, fun _ hc => by cases hc⟩⟩
  · simpa [update_of_ne (hne p hp)] using h.readable p hp
  · obtain ⟨new, hnew⟩ := d.ready p
    exact ⟨new, by rw [hnew, h.ready_filter (fun b hb hp => ⟨d.live ▸ hb, d.pending b hp⟩) p]⟩
  · have hb' : b ∈ w.live := d.live ▸ hb
    have hpf : w.pending b = false := by simpa [hb'] using hn
    exact .inr ⟨hb', e b hb' hpf hp⟩
  · cases hc
    exact a b ((h.links.mem_watchers _ b).2 ⟨hb, List.not_mem_nil, hob⟩) hp

/-! ### `dequeue` -/

/-- `dequeue` on a non-empty FIFO: the head leaves it re-armed, the tail is cleared with the
last packet, and `READABLE` with it. -/
theorem dequeue_of_ne {p : Nat} (hb : w.readyHead p ≠ 0) :
    w.dequeue p =
      (if w.readyNext (w.readyHead p) = 0 then
        ({ w with readyHead := update w.readyHead p (w.readyNext (w.readyHead p)),
                  readyTail := update w.readyTail p 0,
                  readyNext := update w.readyNext (w.readyHead p) 0,
                  pending := update w.pending (w.readyHead p) false,
                  pendingSignals := update w.pendingSignals (w.readyHead p) 0 }).clearSignals p portSignalReadable
      else
        { w with readyHead := update w.readyHead p (w.readyNext (w.readyHead p)),
                 readyNext := update w.readyNext (w.readyHead p) 0,
                 pending := update w.pending (w.readyHead p) false,
                 pendingSignals := update w.pendingSignals (w.readyHead p) 0 },
        some ⟨w.key (w.readyHead p), w.pendingSignals (w.readyHead p)⟩) := by
  by_cases hn : w.readyNext (w.readyHead p) = 0 <;> simp [World.dequeue, hb, hn]

theorem Inv.dequeue (h : Inv w v) {p : Nat} (hp : w.kind p = .port) :
    ∃ v', Inv (w.dequeue p).1 v' ∧ CallSpec (.dequeue p) w (w.dequeue p).1 v v' (.dequeued (w.dequeue p).2) := by
  by_cases hb0 : w.readyHead p = 0
  · -- an empty FIFO: `READABLE` is cleared and nothing else changes
    have hnil : v.ready p = [] := (h.links.ready p (by simp)).eq_nil_iff.1 hb0
    have hdq : w.dequeue p = (w.clearSignals p portSignalReadable, none) := by simp [World.dequeue, hb0]
    rw [hdq]
    refine ⟨v, ⟨h.links, h.wf.clearSignals _ _, fun q hq => ?_⟩, ⟨fun q => ⟨[], ?_⟩,
      fun b hb hp hn => absurd ⟨hb, hp⟩ hn, fun b _ _ _ _ => ⟨Submask.refl _, fun _ _ hc => by cases hc⟩,
      fun q hc => ?_⟩⟩
    · by_cases hqp : q = p
      · subst hqp
        simp [World.clearSignals, hnil]
      · simpa [World.clearSignals, update_of_ne hqp] using h.readable q hq
    · rw [h.ready_filter ?_ q, List.append_nil]
      exact fun b hb hp => ⟨hb, hp⟩
    · cases hc
      exact ⟨fun _ => rfl, fun b rest he => by simp [hnil] at he⟩
  · -- the head leaves the FIFO
    set b := w.readyHead p with hbdef
    have hcons : v.ready p = b :: (v.ready p).tail := h.links.ready_cons (p := p) (by simp) hb0
    have hchain : Chain w.readyNext 0 (w.readyNext b) (v.ready p).tail := by
      have := h.links.ready p (by simp)
      rw [hcons] at this
      exact this.2.2
    have hbt : b ∉ (v.ready p).tail := (List.nodup_cons.1 (hcons ▸ (h.links.ready p (by simp)).nodup)).1
    have hbp : w.port b = p := h.links.port_of_mem_ready (by simp) (hcons ▸ List.mem_cons_self)
    rw [dequeue_of_ne hb0]
    set W := (if w.readyNext b = 0 then
        ({ w with readyHead := update w.readyHead p (w.readyNext b), readyTail := update w.readyTail p 0,
                  readyNext := update w.readyNext b 0, pending := update w.pending b false,
                  pendingSignals := update w.pendingSignals b 0 }).clearSignals p portSignalReadable
      else
        { w with readyHead := update w.readyHead p (w.readyNext b), readyNext := update w.readyNext b 0,
                 pending := update w.pending b false, pendingSignals := update w.pendingSignals b 0 }) with hW
    set v' : View := { v with ready := update v.ready p (v.ready p).tail }
    have hlive : W.live = w.live := by rw [hW]; split_ifs <;> rfl
    have hpend : W.pending = update w.pending b false := by rw [hW]; split_ifs <;> rfl
    have hps : W.pendingSignals = update w.pendingSignals b 0 := by rw [hW]; split_ifs <;> rfl
    have hkind : W.kind = w.kind := by rw [hW]; split_ifs <;> rfl
    have hsig : W.signals = if w.readyNext b = 0 then
        update w.signals p (Obj.signalClear (w.signals p) portSignalReadable) else w.signals := by
      rw [hW]
      split_ifs <;> rfl
    have hlinks : W.links.Spells v' [] none := by
      have e : W.links = ({ w with
          readyHead := update w.readyHead p (w.readyNext b),
          readyTail := if w.readyNext b = 0 then update w.readyTail p 0 else w.readyTail,
          readyNext := update w.readyNext b 0, pending := update w.pending b false }).links := by
        rw [hW]
        split_ifs with hn <;> simp [World.links, World.clearSignals, hn]
      rw [e]
      exact h.links.pop (p := p) (by simp) hb0
    -- the other FIFOs hold no `b`, so they keep every packet
    have hkeep : ∀ q y, y ∈ v.ready q → y ≠ b → y ∈ W.live ∧ W.pending y = true := fun q y hy hyb => by
      obtain ⟨hl, -, -, hpy⟩ := (h.links.mem_ready q (by simp) y).1 hy
      exact ⟨hlive ▸ hl, by rw [hpend, update_of_ne hyb]; exact hpy⟩
    refine ⟨v', ⟨hlinks, ⟨hlive ▸ h.wf.nodup, hlive ▸ h.wf.zero_not_live, hkind ▸ h.wf.kind_zero,
      fun y hy => ?_, fun y hy => ?_⟩, fun q hq => ?_⟩, ⟨fun q => ⟨[], ?_⟩, fun y hy hp hn => ?_,
      fun y _ hpy _ hpy' => ⟨?_, fun _ _ hc => by cases hc⟩, fun q hc => ?_⟩⟩
    · rw [hkind, show W.port = w.port by rw [hW]; split_ifs <;> rfl]
      exact h.wf.port_kind y (hlive ▸ hy)
    · rw [hkind, show W.object = w.object by rw [hW]; split_ifs <;> rfl]
      exact h.wf.object_kind y (hlive ▸ hy)
    · -- `READABLE` on the port is cleared exactly with its last packet
      rw [hkind] at hq
      by_cases hqp : q = p
      · subst hqp
        have hv' : v'.ready q = (v.ready q).tail := by simp only [v', update_self]
        rw [hsig, hv']
        by_cases hn : w.readyNext b = 0
        · rw [if_pos hn, update_self, hchain.eq_nil_iff.1 hn]
          simp
        · rw [if_neg hn]
          exact ⟨fun _ => mt hchain.eq_nil_iff.2 hn, fun _ => (h.readable q hq).2 (by rw [hcons]; simp)⟩
      · have := h.readable q hq
        split_ifs at hsig <;> simpa [hsig, v', update_of_ne hqp] using this
    · -- FIFO order: the head leaves, the rest stay
      rw [List.append_nil]
      by_cases hqp : q = p
      · subst hqp
        conv_rhs => rw [hcons]
        rw [List.filter_cons_of_neg (by simp [hpend]), List.filter_eq_self.2 fun y hy => by
          simpa using hkeep q y (List.mem_of_mem_tail hy) fun e => hbt (e ▸ hy)]
        simp [v']
      · rw [List.filter_eq_self.2 fun y hy => by
          simpa using hkeep q y hy fun e => hqp ((h.links.port_of_mem_ready (by simp) hy).symm.trans (e ▸ hbp))]
        simp [v', hqp]
    · rw [hpend] at hp
      have hyb : y ≠ b := fun e => by simp [e] at hp
      rw [update_of_ne hyb] at hp
      exact absurd ⟨hlive ▸ hy, hp⟩ hn
    · have hyb : y ≠ b := fun e => by simp [hpend, e] at hpy'
      rw [hps, update_of_ne hyb]
    · cases hc
      refine ⟨fun he => by simp [he] at hcons, fun y rest he => ?_⟩
      rw [hcons] at he
      obtain ⟨rfl, rfl⟩ := List.cons.inj he
      exact ⟨rfl, by simp [hpend], by simp [hps], by simp [v']⟩

/-! ### `unbind` and `~Port` -/

/-- A packet on one port's FIFO is not a binding of another port. -/
theorem Inv.not_mem_bindings (h : Inv w v) {p q y : Nat} (hy : y ∈ v.ready q) (hqp : q ≠ p) :
    y ∉ v.bindings p := fun hm =>
  hqp ((h.links.port_of_mem_ready (by simp) hy).symm.trans ((h.links.mem_bindings p y).1 hm).2.2)

/-- After taking bindings of port `p` off the lists, another port's FIFO is as it was. -/
theorem Inv.eraseAll_ready_of_ne (h : Inv w v) {p q : Nat} {xs : List Nat} (hxs : ∀ x ∈ xs, x ∈ v.bindings p)
    (hqp : q ≠ p) : (v.eraseAll xs).ready q = v.ready q := by
  rw [View.eraseAll_ready (h.links.ready q (by simp)).nodup]
  exact List.filter_eq_self.2 fun y hy => by
    simpa using fun hm => h.not_mem_bindings hy hqp (hxs y hm)

theorem Inv.unbind (h : Inv w v) (p k : Nat) :
    ∃ w' n v', w.unbind p k = some (w', n) ∧ Inv w' v' ∧ CallSpec (.unbind p k) w w' v v' (.unbound n) := by
  obtain ⟨w', hun, hs, hlive, hsig, hrel⟩ := h.links.unbind p k
  set L := (v.bindings p).filter (w.key · = k)
  have hL : ∀ x ∈ L, x ∈ v.bindings p := fun x hx => (List.mem_filter.1 hx).1
  have hpend : w'.pending = w.pending := hrel.pending
  have hkind : w'.kind = w.kind := hrel.kind
  have hready : ∀ q, (v.eraseAll L).ready q = (v.ready q).filter (· ∉ L) := fun q =>
    View.eraseAll_ready (h.links.ready q (by simp)).nodup L
  refine ⟨w', _, _, hun, ⟨hs, ⟨hlive ▸ h.wf.nodup.filter _,
    fun h0 => h.wf.zero_not_live (List.mem_of_mem_filter (hlive ▸ h0)),
    hkind ▸ h.wf.kind_zero, fun b hb => ?_, fun b hb => ?_⟩, fun q hq => ?_⟩,
    ⟨fun q => ⟨[], ?_⟩, fun b hb hp hn => ?_, fun b _ _ _ _ => ⟨by rw [hrel.pendingSignals],
      fun _ _ hc => by cases hc⟩, fun _ hc => by cases hc⟩⟩
  · rw [hkind, hrel.port]
    exact h.wf.port_kind b (List.mem_of_mem_filter (hlive ▸ hb))
  · rw [hkind, hrel.object]
    exact h.wf.object_kind b (List.mem_of_mem_filter (hlive ▸ hb))
  · -- `READABLE` is cleared when the unbound packets were the last of `p`'s FIFO
    rw [hkind] at hq
    by_cases hqp : q = p
    · subst hqp
      by_cases he : (v.eraseAll L).ready q = []
      · simp [hsig, he]
      · rw [hsig, if_neg he]
        refine ⟨fun _ => he, fun _ => (h.readable q hq).2 fun hnil => he ?_⟩
        rw [hready, hnil, List.filter_nil]
    · rw [h.eraseAll_ready_of_ne hL hqp]
      split_ifs at hsig <;> simpa [hsig, update_of_ne hqp] using h.readable q hq
  · -- FIFO order: the unbound packets leave, the others stay
    rw [hready, List.append_nil]
    refine List.filter_congr fun y hy => ?_
    obtain ⟨hl, -, -, hp⟩ := (h.links.mem_ready q (by simp) y).1 hy
    simp only [links_live, links_pending] at hl hp
    simp [hlive, hpend, hl, hp]
  · have hb' : b ∈ w.live := List.mem_of_mem_filter (hlive ▸ hb)
    exact absurd ⟨hb', hpend ▸ hp⟩ hn

theorem Inv.destroy (h : Inv w v) {p : Nat} (hp : w.kind p = .port) (hfree : ∀ b ∈ w.live, w.object b ≠ p) :
    ∃ w' v', w.destroy p = some w' ∧ Inv w' v' ∧ CallSpec (.destroy p) w w' v v' .done := by
  obtain ⟨w', hdes, hs, hlive, hkind, hrel⟩ := h.links.destroy p
  set L := v.bindings p
  have hpend : w'.pending = w.pending := hrel.pending
  have hp0 : p ≠ 0 := fun e => by simp [e, h.wf.kind_zero] at hp
  -- every live binding of `p` was a victim
  have hgone : ∀ b ∈ w'.live, w.port b ≠ p := fun b hb e => by
    rw [hlive, List.mem_filter] at hb
    exact (by simpa using hb.2 : b ∉ L) ((h.links.mem_bindings p b).2 ⟨hb.1, List.not_mem_nil, e⟩)
  have hlive' : ∀ b ∈ w'.live, b ∈ w.live := fun b hb => List.mem_of_mem_filter (hlive ▸ hb)
  refine ⟨w', _, hdes, ⟨hs, ⟨hlive ▸ h.wf.nodup.filter _, fun h0 => h.wf.zero_not_live (hlive' 0 h0),
    by rw [hkind, update_of_ne hp0.symm]; exact h.wf.kind_zero, fun b hb => ?_, fun b hb => ?_⟩, fun q hq => ?_⟩,
    ⟨fun q => ⟨[], ?_⟩, fun b hb hp' hn => absurd ⟨hlive' b hb, hpend ▸ hp'⟩ hn,
      fun b _ _ _ _ => ⟨by rw [hrel.pendingSignals], fun _ _ hc => by cases hc⟩,
      fun _ hc => by cases hc⟩⟩
  · rw [hkind, hrel.port, update_of_ne (hgone b hb)]
    exact h.wf.port_kind b (hlive' b hb)
  · rw [hkind, hrel.object, update_of_ne (hfree b (hlive' b hb))]
    exact h.wf.object_kind b (hlive' b hb)
  · -- the port is dead; every other port keeps its FIFO and its signals
    have hqp : q ≠ p := fun e => by simp [hkind, e] at hq
    rw [hkind, update_of_ne hqp] at hq
    have hv : update (v.eraseAll L).ready p [] q = v.ready q := by
      rw [update_of_ne hqp]
      exact h.eraseAll_ready_of_ne (fun x hx => hx) hqp
    have hsig : w'.signals = w.signals := hrel.signals
    show Obj.Asserted (w'.signals q) _ ↔ update (v.eraseAll L).ready p [] q ≠ []
    rw [hv, hsig]
    exact h.readable q hq
  · rw [List.append_nil]
    by_cases hqp : q = p
    · -- the dropped FIFO held only victims
      subst hqp
      simp only [update_self]
      refine (List.filter_eq_nil_iff.2 fun y hy => ?_).symm
      simp only [decide_eq_true_eq, not_and]
      exact fun hyl => absurd (h.links.port_of_mem_ready (by simp) hy) (hgone y hyl)
    · simp only [update_of_ne hqp]
      rw [h.eraseAll_ready_of_ne (fun x hx => hx) hqp]
      refine (List.filter_eq_self.2 fun y hy => ?_).symm
      obtain ⟨hl, -, -, hpy⟩ := (h.links.mem_ready q (by simp) y).1 hy
      simp only [links_live, links_pending] at hl hpy
      simpa [hlive, hpend, hl, hpy, L] using h.not_mem_bindings hy hqp

/-! ### `bind` -/

theorem World.Wf.enqueueReady (hw : w.Wf) (p b : Nat) : (w.enqueueReady p b).Wf := by
  rw [enqueueReady_eq]
  exact ⟨hw.nodup, hw.zero_not_live, hw.kind_zero, hw.port_kind, hw.object_kind⟩

/-- A call that changes nothing. -/
theorem Inv.callSpec_refl (h : Inv w v) {c : Call} (out : Outcome) (hdq : ∀ p, c ≠ .dequeue p)
    (hset : ∀ o bits, c ≠ .signalSet o bits) : CallSpec c w w v v out :=
  ⟨fun p => ⟨[], by rw [h.ready_filter (fun b hb hp => ⟨hb, hp⟩) p, List.append_nil]⟩,
    fun b hb hp hn => absurd ⟨hb, hp⟩ hn, fun b _ _ _ _ => ⟨Submask.refl _, fun o bits hc => absurd hc (hset o bits)⟩,
    fun p hc => absurd hc (hdq p)⟩

theorem Inv.bind (h : Inv w v) {port obj key slot : Nat} {mask : BitVec 32}
    (hok : w.Allowed (.bind port obj key mask slot)) :
    ∃ w' r v', w.bind port obj key mask slot = some (w', r) ∧ Inv w' v' ∧
      CallSpec (.bind port obj key mask slot) w w' v v' (.bound r) := by
  obtain ⟨hport, hobj, hslot⟩ := hok
  have hrefl : ∀ out, CallSpec (.bind port obj key mask slot) w w v v out := fun out =>
    h.callSpec_refl out (fun _ hc => by cases hc) (fun _ _ hc => by cases hc)
  -- the three refusals change nothing
  by_cases h0 : obj = 0
  · exact ⟨w, .error .nullArgument, v, by simp [World.bind, h0], h, hrefl _⟩
  by_cases hm : mask = 0#32
  · exact ⟨w, .error .invalidOperation, v, by simp [World.bind, h0, hm], h, hrefl _⟩
  by_cases hs0 : slot = 0
  · exact ⟨w, .error .oom, v, by simp [World.bind, h0, hm, hs0], h, hrefl _⟩
  have hobj' : w.kind obj ≠ .dead := hobj.resolve_left h0
  -- the fresh binding on its two lists
  set W₀ := w.link port obj key mask slot
  have hs₀ : (w.link port obj key mask slot).links.Spells _ [] none := h.links.link hs0 hslot List.not_mem_nil
  have hw₀ : W₀.Wf := ⟨by simpa [W₀, link_eq] using ⟨hslot, h.wf.nodup⟩,
    by simpa [W₀, link_eq] using ⟨Ne.symm hs0, h.wf.zero_not_live⟩, by simpa [W₀, link_eq] using h.wf.kind_zero,
    fun b hb => ?_, fun b hb => ?_⟩
  rotate_left
  · simp only [W₀, link_eq, List.mem_cons] at hb ⊢
    rcases hb with rfl | hb
    · simpa using hport
    · rw [update_of_ne (fun (e : b = slot) => hslot (e ▸ hb))]
      exact h.wf.port_kind b hb
  · simp only [W₀, link_eq, List.mem_cons] at hb ⊢
    rcases hb with rfl | hb
    · simpa using hobj'
    · rw [update_of_ne (fun (e : b = slot) => hslot (e ▸ hb))]
      exact h.wf.object_kind b hb
  have hne : ∀ b ∈ w.live, b ≠ slot := fun b hb e => hslot (e ▸ hb)
  have hkeep : ∀ b ∈ w.live, W₀.pending b = w.pending b ∧ W₀.pendingSignals b = w.pendingSignals b ∧
      W₀.object b = w.object b ∧ W₀.mask b = w.mask b := fun b hb => by
    simp [W₀, link_eq, update_of_ne (hne b hb)]
  by_cases ha : w.signals obj &&& mask = 0
  · -- no signal of the mask asserted: bound, not pending
    refine ⟨W₀, .ok (), _, by simp [World.bind, h0, hm, hs0, W₀, link_eq, ha], ⟨hs₀, hw₀, ?_⟩,
      ⟨fun q => ⟨[], ?_⟩, fun b hb hp hn => ?_, fun b hb hp _ _ => ⟨?_, fun _ _ hc => by cases hc⟩,
        fun _ hc => by cases hc⟩⟩
    · have hk : W₀.kind = w.kind := by simp [W₀, link_eq]
      have hsg : W₀.signals = w.signals := by simp [W₀, link_eq]
      rw [hk, hsg]
      exact h.readable
    · rw [List.append_nil]
      exact (h.ready_filter (fun b hb hp => ⟨by simp [W₀, link_eq, hb], by rw [(hkeep b hb).1]; exact hp⟩) q).symm
    · simp only [W₀, link_eq, List.mem_cons] at hb hp
      rcases hb with rfl | hb
      · simp at hp
      · rw [update_of_ne (hne b hb)] at hp
        exact absurd ⟨hb, hp⟩ hn
    · rw [(hkeep b hb).2.1]
  · -- asserted at bind: pending at once, queued, and the port signalled
    set W₁ := ({ W₀ with
        pending := update W₀.pending slot true,
        pendingSignals := update W₀.pendingSignals slot (W₀.signals obj &&& mask) }).enqueueReady port slot
    have hps : W₀.port slot = port := by simp [W₀, link_eq]
    have hs₁ := hs₀.enqueue hw₀ (b := slot) (update W₀.pendingSignals slot (W₀.signals obj &&& mask))
      (by simp [link_eq]) List.not_mem_nil (by simp) (by simp [link_eq])
    rw [hps] at hs₁
    have hw₁ : W₁.Wf := World.Wf.enqueueReady
      (⟨hw₀.nodup, hw₀.zero_not_live, hw₀.kind_zero, hw₀.port_kind, hw₀.object_kind⟩ : World.Wf { W₀ with
        pending := update W₀.pending slot true,
        pendingSignals := update W₀.pendingSignals slot (W₀.signals obj &&& mask) }) port slot
    obtain ⟨w', v', hset, d, e, -, r⟩ := signalSet_spec W₁.fuel W₁ _ port portSignalReadable hs₁ hw₁
      (Nat.lt_succ_of_le (List.length_filter_le _ _))
    have hW₁ : ∀ b ∈ w.live, W₁.pending b = w.pending b ∧ W₁.pendingSignals b = w.pendingSignals b ∧
        W₁.object b = w.object b ∧ W₁.mask b = w.mask b := fun b hb => by
      simp [W₁, enqueueReady_eq, update_of_ne (hne b hb), hkeep b hb]
    have hsig₁ : W₁.signals = w.signals := by simp [W₁, enqueueReady_eq, W₀, link_eq]
    refine ⟨w', .ok (), v', ?_, ⟨d.links, d.wf hw₁, r ?_⟩, ⟨fun q => ?_, fun b hb hp hn => ?_,
      fun b hb hp _ _ => ⟨?_, fun _ _ hc => by cases hc⟩, fun _ hc => by cases hc⟩⟩
    · have hfuel : ({ W₀ with
          pending := update W₀.pending slot true,
          pendingSignals := update W₀.pendingSignals slot (W₀.signals obj &&& mask) } : World).fuel = W₁.fuel := by
        simp [W₁, World.fuel, enqueueReady_eq]
      have ha' : W₀.signals obj &&& mask ≠ 0 := by simpa [W₀, link_eq] using ha
      have hm' : ¬mask = 0 := hm
      rw [World.bind, if_neg h0, if_neg hm', if_neg hs0]
      dsimp only
      rw [if_pos ha', hfuel, hset]
      rfl
    · have hk₁ : W₁.kind = w.kind := by simp [W₁, W₀, link_eq]
      rw [hk₁, hsig₁]
      exact readable_enqueue h.readable port slot
    · obtain ⟨new, hnew⟩ := d.ready q
      refine ⟨(if q = port then [slot] else []) ++ new, ?_⟩
      rw [hnew, ← List.append_assoc, h.ready_filter (fun b hb hp => ⟨d.live ▸ by simp [W₁, enqueueReady_eq,
        W₀, link_eq, hb], d.pending b (by rw [(hW₁ b hb).1]; exact hp)⟩) q]
      by_cases hq : q = port
      · subst hq
        simp
      · simp [hq]
    · have hb₁ : b ∈ W₁.live := d.live ▸ hb
      simp only [W₁, enqueueReady_eq, W₀, link_eq, List.mem_cons] at hb₁
      rcases hb₁ with rfl | hb'
      · exact .inl ⟨port, obj, key, mask, rfl, ha⟩
      · have hpf : w.pending b = false := by simpa [hb'] using hn
        obtain ⟨hz, hnz⟩ := e b (by simp [W₁, enqueueReady_eq, W₀, link_eq, hb']) (by rw [(hW₁ b hb').1, hpf]) hp
        rw [(hW₁ b hb').2.2.1, (hW₁ b hb').2.2.2, hsig₁] at hz
        rw [(hW₁ b hb').2.2.1, (hW₁ b hb').2.2.2] at hnz
        exact .inr ⟨hb', hz, hnz⟩
    · have := d.pendingSignals b (by rw [(hW₁ b hb).1]; exact hp)
      rwa [(hW₁ b hb).2.1] at this

/-! ### Runs -/

/-- Every allowed call returns, keeps the invariant and does what `CallSpec` says. -/
theorem Inv.call (h : Inv w v) {c : Call} (hc : w.Allowed c) :
    ∃ w' out v', w.call c = some (w', out) ∧ Inv w' v' ∧ CallSpec c w w' v v' out := by
  cases c with
  | bind port obj key mask slot =>
    obtain ⟨w', r, v', hb, hi, hs⟩ := h.bind hc
    exact ⟨w', .bound r, v', by simp [World.call, hb], hi, hs⟩
  | unbind port key =>
    obtain ⟨w', n, v', hu, hi, hs⟩ := h.unbind port key
    exact ⟨w', .unbound n, v', by simp [World.call, hu], hi, hs⟩
  | dequeue port =>
    obtain ⟨v', hi, hs⟩ := h.dequeue hc
    exact ⟨_, _, v', rfl, hi, hs⟩
  | destroy port =>
    obtain ⟨w', v', hd, hi, hs⟩ := h.destroy hc.1 hc.2
    exact ⟨w', .done, v', by simp [World.call, hd], hi, hs⟩
  | signalSet obj bits =>
    obtain ⟨w', v', hset, hi, hs⟩ := h.signalSet hc bits
    exact ⟨w', .done, v', by simp [World.call, hset], hi, hs⟩
  | signalClear obj bits =>
    obtain ⟨hi, hs⟩ := h.signalClear hc bits
    exact ⟨_, .done, v, rfl, hi, hs⟩

/-- The step lemma: from a world that keeps the invariant an allowed call never gets stuck,
and the world after it spells its own view. -/
theorem Inv.step (h : Inv w v) {c : Call} (hc : w.Allowed c) :
    w.call c ≠ none ∧ Inv (w.step c).1 (w.step c).1.view ∧
      CallSpec c w (w.step c).1 v (w.step c).1.view (w.step c).2 := by
  obtain ⟨w', out, v', hcall, hi, hs⟩ := h.call hc
  have hstep : w.step c = (w', out) := by simp [World.step, hcall]
  rw [hstep, hi.links.view_eq]
  exact ⟨by simp [hcall], hi, hs⟩

/-- The worlds a run of the kernel reaches: from an initial world, by allowed calls. -/
inductive Reachable : World → Prop
  | init (kind : Nat → Kind) (signals : Nat → BitVec 32) : Reachable (World.init kind signals)
  | step {w : World} (c : Call) : Reachable w → w.Allowed c → Reachable (w.step c).1

/-- The run lemma: every reachable world spells its view and keeps the invariant. -/
theorem Reachable.inv (hr : Reachable w) : Inv w w.view := by
  induction hr with
  | init kind signals =>
    have h := init_inv kind signals
    rw [h.links.view_eq]
    exact h
  | step c _ hc ih => exact (ih.step hc).2.1

/-- Every call of a run, from every reachable world: the lists stay well formed, `READABLE`
stays "FIFO non-empty", and the call does what `CallSpec` says. -/
theorem port_edge_triggered_delivery (w : World) (hr : Reachable w) :
    Inv w w.view ∧ ∀ c, w.Allowed c →
      w.call c ≠ none ∧ CallSpec c w (w.step c).1 w.view (w.step c).1.view (w.step c).2 := by
  refine ⟨hr.inv, fun c hc => ?_⟩
  obtain ⟨hnone, -, hspec⟩ := hr.inv.step hc
  exact ⟨hnone, hspec⟩

/-- Ports 1 and 2 bound to each other's `READABLE`, and port 1 watching bit 0 of object 5. -/
def cycleWorld : World :=
  let kind : Nat → Kind := fun o => if o = 1 ∨ o = 2 then .port else .other
  let w := World.init kind fun _ => 0
  let w := (w.step (.bind 1 2 10 portSignalReadable 3)).1
  let w := (w.step (.bind 2 1 20 portSignalReadable 4)).1
  (w.step (.bind 1 5 30 1 6)).1

theorem cycleWorld_reachable : Reachable cycleWorld :=
  .step _ (.step _ (.step _ (.init _ _) (by decide)) (by decide)) (by decide)

theorem port_edge_triggered_delivery_cycle :
    Reachable cycleWorld ∧ Inv cycleWorld cycleWorld.view ∧ ∀ c, cycleWorld.Allowed c →
      cycleWorld.call c ≠ none ∧
        CallSpec c cycleWorld (cycleWorld.step c).1 cycleWorld.view (cycleWorld.step c).1.view
          (cycleWorld.step c).2 :=
  ⟨cycleWorld_reachable, port_edge_triggered_delivery cycleWorld cycleWorld_reachable⟩

theorem port_notify_rounds_bounded_cycle :
    cycleWorld.links.Spells cycleWorld.view [] none ∧ cycleWorld.Wf ∧ cycleWorld.armed < cycleWorld.fuel ∧
      (∃ w', World.notifyLoop (fun w p => World.signalSet cycleWorld.fuel w p portSignalReadable) 1 0 1
          ((cycleWorld.view.watchers 1).length + 1) cycleWorld = some w' ∧
        World.portNotify (fun w p => World.signalSet cycleWorld.fuel w p portSignalReadable) cycleWorld 1 0 1 =
          some w') ∧
      ∃ w', World.signalSet cycleWorld.fuel cycleWorld 1 1 = some w' := by
  have h := cycleWorld_reachable.inv
  have hd : cycleWorld.armed < cycleWorld.fuel := Nat.lt_succ_of_le (List.length_filter_le _ _)
  exact ⟨h.links, h.wf, hd,
    port_notify_rounds_bounded cycleWorld cycleWorld.view h.links h.wf cycleWorld.fuel hd 1 0 1 1⟩

end Archipelago.Obj.PortWorld
