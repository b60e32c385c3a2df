import Archipelago.Obj.Port
import Archipelago.Lib.DChain

/-! What the port pointers spell. A `View` names, for every port, its binding list and its
ready FIFO, and for every object the bindings watching it; `Links.Spells` says the pointers
are those lists (`Lib.Chain`, `Lib.DChain`), the ready tail is the last ready binding, and
the lists hold exactly the bindings their fields name: every live binding is on its own
port's list and its own object's list, and on its port's ready FIFO exactly while pending.
Inside `unbind` and `~Port` bindings already taken off every list (`gone`) wait for
`destroy_binding`, and `~Port` drops its ready FIFO whole (`stale`).

Each code path that rewrites links gets one lemma saying which lists it changes:
`enqueue_ready` appends (`Spells.enqueue`), `dequeue` pops the head (`Spells.pop`), `bind`
pushes on two lists (`Spells.link`), `unlink_from_object` takes a binding off its object's
list and the ready excise takes it off its FIFO (`Spells.unlink`, `Spells.excise`). -/

namespace Archipelago.Obj.PortWorld

open Archipelago.Lib Function

/-- The fields the lists are made of: links, list heads, and the fields that say which
lists a binding belongs on. -/
structure Links where
  portNext : Nat → Nat
  readyNext : Nat → Nat
  objNext : Nat → Nat
  objPrev : Nat → Nat
  portBindings : Nat → Nat
  readyHead : Nat → Nat
  readyTail : Nat → Nat
  objBindings : Nat → Nat
  live : List Nat
  port : Nat → Nat
  object : Nat → Nat
  pending : Nat → Bool

/-- The lists: each port's own bindings, each port's ready FIFO, and the bindings watching
each object. -/
structure View where
  bindings : Nat → List Nat
  ready : Nat → List Nat
  watchers : Nat → List Nat

/-- The links spell the view, and the view holds every live binding outside `gone` where
its fields put it. -/
structure Links.Spells (l : Links) (v : View) (gone : List Nat) (stale : Option Nat) : Prop where
  bindings : ∀ p, Chain l.portNext 0 (l.portBindings p) (v.bindings p)
  watchers : ∀ o, DChain l.objNext l.objPrev 0 0 (l.objBindings o) (v.watchers o)
  ready : ∀ p, stale ≠ some p → Chain l.readyNext 0 (l.readyHead p) (v.ready p)
  tail : ∀ p, stale ≠ some p → l.readyTail p = ((v.ready p).getLast?).getD 0
  mem_bindings : ∀ p b, b ∈ v.bindings p ↔ b ∈ l.live ∧ b ∉ gone ∧ l.port b = p
  mem_watchers : ∀ o b, b ∈ v.watchers o ↔ b ∈ l.live ∧ b ∉ gone ∧ l.object b = o
  mem_ready : ∀ p, stale ≠ some p →
    ∀ b, b ∈ v.ready p ↔ b ∈ l.live ∧ b ∉ gone ∧ l.port b = p ∧ l.pending b = true

namespace World

/-- The list fields of a world. -/
def links (w : World) : Links :=
  ⟨w.portNext, w.readyNext, w.objNext, w.objPrev, w.portBindings, w.readyHead, w.readyTail,
    w.objBindings, w.live, w.port, w.object, w.pending⟩

/-- What holds of the arena and the objects: live slots are distinct and non-null, and a
live binding's port is a live port and its object is alive. -/
structure Wf (w : World) : Prop where
  nodup : w.live.Nodup
  zero_not_live : 0 ∉ w.live
  kind_zero : w.kind 0 = .dead
  port_kind : ∀ b ∈ w.live, w.kind (w.port b) = .port
  object_kind : ∀ b ∈ w.live, w.kind (w.object b) ≠ .dead

variable {w : World} {v : View} {gone : List Nat} {stale : Option Nat}

theorem Wf.ne_zero (hw : w.Wf) {b : Nat} (hb : b ∈ w.live) : b ≠ 0 :=
  fun e => hw.zero_not_live (e ▸ hb)

/-! ### Field lemmas of the writes -/

section Writes

variable (w) {p b : Nat}

@[simp] theorem links_portNext : w.links.portNext = w.portNext := rfl
@[simp] theorem links_readyNext : w.links.readyNext = w.readyNext := rfl
@[simp] theorem links_objNext : w.links.objNext = w.objNext := rfl
@[simp] theorem links_objPrev : w.links.objPrev = w.objPrev := rfl
@[simp] theorem links_portBindings : w.links.portBindings = w.portBindings := rfl
@[simp] theorem links_readyHead : w.links.readyHead = w.readyHead := rfl
@[simp] theorem links_readyTail : w.links.readyTail = w.readyTail := rfl
@[simp] theorem links_objBindings : w.links.objBindings = w.objBindings := rfl
@[simp] theorem links_live : w.links.live = w.live := rfl
@[simp] theorem links_port : w.links.port = w.port := rfl
@[simp] theorem links_object : w.links.object = w.object := rfl
@[simp] theorem links_pending : w.links.pending = w.pending := rfl

theorem enqueueReady_readyNext : (w.enqueueReady p b).readyNext =
    if w.readyTail p ≠ 0 then update (update w.readyNext b 0) (w.readyTail p) b else update w.readyNext b 0 := by
  by_cases hc : w.readyTail p = 0 <;> simp [enqueueReady, hc]

theorem enqueueReady_readyHead : (w.enqueueReady p b).readyHead =
    if w.readyTail p ≠ 0 then w.readyHead else update w.readyHead p b := by
  by_cases hc : w.readyTail p = 0 <;> simp [enqueueReady, hc]

@[simp] theorem enqueueReady_readyTail : (w.enqueueReady p b).readyTail = update w.readyTail p b := by
  by_cases hc : w.readyTail p = 0 <;> simp [enqueueReady, hc]

theorem enqueueReady_eq : w.enqueueReady p b =
    { w with readyNext := if w.readyTail p ≠ 0 then update (update w.readyNext b 0) (w.readyTail p) b
                          else update w.readyNext b 0,
             readyHead := if w.readyTail p ≠ 0 then w.readyHead else update w.readyHead p b,
             readyTail := update w.readyTail p b } := by
  by_cases hc : w.readyTail p = 0 <;> simp [enqueueReady, hc]

/-- `enqueue_ready` writes only the ready links and the FIFO's head and tail. -/
theorem enqueueReady_links : (w.enqueueReady p b).links =
    { w.links with readyNext := (w.enqueueReady p b).readyNext,
                   readyHead := (w.enqueueReady p b).readyHead, readyTail := update w.readyTail p b } := by
  by_cases hc : w.readyTail p = 0 <;> simp [enqueueReady, hc, links]

@[simp] theorem enqueueReady_signals : (w.enqueueReady p b).signals = w.signals := by
  by_cases hc : w.readyTail p = 0 <;> simp [enqueueReady, hc]

@[simp] theorem enqueueReady_pendingSignals : (w.enqueueReady p b).pendingSignals = w.pendingSignals := by
  by_cases hc : w.readyTail p = 0 <;> simp [enqueueReady, hc]

@[simp] theorem enqueueReady_kind : (w.enqueueReady p b).kind = w.kind := by
  by_cases hc : w.readyTail p = 0 <;> simp [enqueueReady, hc]

@[simp] theorem enqueueReady_mask : (w.enqueueReady p b).mask = w.mask := by
  by_cases hc : w.readyTail p = 0 <;> simp [enqueueReady, hc]

@[simp] theorem enqueueReady_key : (w.enqueueReady p b).key = w.key := by
  by_cases hc : w.readyTail p = 0 <;> simp [enqueueReady, hc]

end Writes

end World

open World

variable {w : World} {v : View} {gone : List Nat} {stale : Option Nat}

/-! ### `enqueue_ready` -/

/-- The tail pointer is null exactly when the FIFO is empty. -/
theorem Links.Spells.tail_eq_zero (h : w.links.Spells v gone stale) {p : Nat} (hst : stale ≠ some p) :
    w.readyTail p = 0 ↔ v.ready p = [] := by
  rw [show w.readyTail p = _ from h.tail p hst]
  have hnil := (h.ready p hst).not_mem_nil
  rcases List.eq_nil_or_concat' (v.ready p) with he | ⟨l, t, he⟩
  · simp [he]
  · rw [he, List.getLast?_concat, Option.getD_some]
    exact ⟨fun e => absurd (e ▸ (he ▸ List.mem_concat_self : t ∈ v.ready p)) hnil, fun e => by simp at e⟩

/-- Marking a live, not yet pending binding pending and queueing it on its port appends it
to that port's FIFO and changes no other list. -/
theorem Links.Spells.enqueue (h : w.links.Spells v gone stale) (hw : w.Wf) {b : Nat} (ps : Nat → BitVec 32)
    (hb : b ∈ w.live) (hbg : b ∉ gone) (hst : stale ≠ some (w.port b)) (hpend : w.pending b = false) :
    ({ w with pending := update w.pending b true, pendingSignals := ps }.enqueueReady (w.port b) b).links.Spells
      { v with ready := update v.ready (w.port b) (v.ready (w.port b) ++ [b]) } gone stale := by
  set p := w.port b with hp
  have hb0 : b ≠ 0 := hw.ne_zero hb
  have hbnot : b ∉ v.ready p := fun hm => by
    have hpb := ((h.mem_ready p hst) b).1 hm |>.2.2.2
    rw [links_pending, hpend] at hpb
    exact Bool.false_ne_true hpb
  have hport : ∀ q, stale ≠ some q → ∀ y ∈ v.ready q, w.port y = q := fun q hq y hy =>
    ((h.mem_ready q hq) y).1 hy |>.2.2.1
  -- the old tail `t` is the last ready binding of `p`, or null
  set t := w.readyTail p with ht
  have htl : t = ((v.ready p).getLast?).getD 0 := h.tail p hst
  have htb : t ≠ b := fun e => by
    rcases List.eq_nil_or_concat' (v.ready p) with he | ⟨l, z, he⟩
    · rw [htl, he] at e
      exact hb0 e.symm
    · rw [htl, he, List.getLast?_concat, Option.getD_some] at e
      exact hbnot (by rw [he, ← e]; exact List.mem_concat_self)
  have hnext : ∀ y, y ≠ b → y ≠ t →
      (if t ≠ 0 then update (update w.readyNext b 0) t b else update w.readyNext b 0) y = w.readyNext y := by
    intro y hyb hyt
    split <;> simp [update_of_ne hyb, update_of_ne hyt]
  rw [enqueueReady_links]
  refine ⟨h.bindings, h.watchers, fun q hq => ?_, fun q hq => ?_, h.mem_bindings, h.mem_watchers,
    fun q hq y => ?_⟩ <;> dsimp only
  · simp only [enqueueReady_readyNext, enqueueReady_readyHead]
    by_cases hqp : q = p
    · -- the FIFO of `p` grows by `b` at the tail
      subst hqp
      rw [update_self]
      have hsnoc : Chain (if t ≠ 0 then update (update w.readyNext b 0) t b else update w.readyNext b 0) 0 _ _ :=
        (h.ready _ hq).snoc hbnot hb0
        (by split <;> simp [update_of_ne htb.symm]) (fun y hy => by
          have hyt : y = t := by rw [htl, Option.mem_def.1 hy]; rfl
          have ht0 : t ≠ 0 := by rw [← hyt]; exact (h.ready _ hq).not_mem_nil ∘ (· ▸ List.mem_of_getLast? hy)
          simp [ht0, hyt])
        (fun y hy hyl => hnext y (fun e => hbnot (e ▸ hy)) fun e => hyl (by
          rcases List.eq_nil_or_concat' (v.ready p) with he | ⟨l, z, he⟩
          · simp [he] at hy
          · rw [htl, he, List.getLast?_concat, Option.getD_some] at e
            rw [he, List.getLast?_concat, e]; rfl))
      have hhead : (if t ≠ 0 then w.readyHead else update w.readyHead p b) p =
          if v.ready p = [] then b else w.readyHead p := by
        by_cases ht0 : t = 0
        · simp [ht0, (h.tail_eq_zero hq).1 ht0]
        · simp [ht0, mt (h.tail_eq_zero hq).2 ht0]
      rw [hhead]
      exact hsnoc
    · -- another port's FIFO holds neither `b` nor the old tail of `p`
      rw [update_of_ne hqp]
      have hhead : (if t ≠ 0 then w.readyHead else update w.readyHead p b) q = w.readyHead q := by
        split <;> simp [update_of_ne hqp]
      rw [hhead]
      refine (h.ready q hq).frame fun y hy => hnext y (fun e => hqp ?_) fun e => hqp ?_
      · rw [← hport q hq y hy, e]
      · have ht0 : t ≠ 0 := fun e0 => (h.ready q hq).not_mem_nil (e0 ▸ e ▸ hy)
        obtain ⟨l, z, he⟩ := (List.eq_nil_or_concat' (v.ready p)).resolve_left
          (mt (h.tail_eq_zero hst).2 ht0)
        rw [htl, he, List.getLast?_concat, Option.getD_some] at e
        rw [← hport q hq y hy, e, hport p hst z (by rw [he]; exact List.mem_concat_self)]
  · by_cases hqp : q = p
    · subst hqp
      simp
    · rw [update_of_ne hqp, update_of_ne hqp]
      exact h.tail q hq
  · by_cases hqp : q = p
    · subst hqp
      by_cases hyb : y = b
      · subst hyb
        simp [hb, hbg, hp]
      · simp [(h.mem_ready _ hq) y, hyb]
    · rw [update_of_ne hqp]
      by_cases hyb : y = b
      · subst hyb
        have hy : y ∉ v.ready q := fun hm => hqp ((hport q hq y hm).symm.trans hp.symm)
        simp only [hy, false_iff, not_and]
        intro _ _ e
        exact absurd (e.symm.trans hp.symm) hqp
      · rw [(h.mem_ready q hq) y]
        simp [update_of_ne hyb]

/-! ### `dequeue` -/

theorem Links.Spells.port_of_mem_ready {l : Links} (h : l.Spells v gone stale) {q y : Nat}
    (hq : stale ≠ some q) (hy : y ∈ v.ready q) : l.port y = q :=
  ((h.mem_ready q hq) y).1 hy |>.2.2.1

/-- A non-null ready head is the first of the FIFO. -/
theorem Links.Spells.ready_cons {l : Links} (h : l.Spells v gone stale) {p : Nat} (hst : stale ≠ some p)
    (hb : l.readyHead p ≠ 0) : v.ready p = l.readyHead p :: (v.ready p).tail := by
  have hc := h.ready p hst
  cases hr : v.ready p with
  | nil => rw [hr] at hc; exact absurd hc hb
  | cons x xs => rw [hr] at hc; rw [hc.1]; rfl

/-- Popping the ready head, as `dequeue` does: the FIFO loses its first binding, which is no
longer pending; no other list changes. -/
theorem Links.Spells.pop {l : Links} (h : l.Spells v gone stale) {p : Nat} (hst : stale ≠ some p)
    (hb : l.readyHead p ≠ 0) :
    { l with readyHead := update l.readyHead p (l.readyNext (l.readyHead p)),
             readyTail := if l.readyNext (l.readyHead p) = 0 then update l.readyTail p 0 else l.readyTail,
             readyNext := update l.readyNext (l.readyHead p) 0,
             pending := update l.pending (l.readyHead p) false }.Spells
      { v with ready := update v.ready p (v.ready p).tail } gone stale := by
  set b := l.readyHead p
  have hcons := h.ready_cons hst hb
  have hchain : Chain l.readyNext 0 b (b :: (v.ready p).tail) := hcons ▸ h.ready p hst
  have hnd := hchain.nodup
  have hbrest : b ∉ (v.ready p).tail := (List.nodup_cons.1 hnd).1
  have hbp : l.port b = p := h.port_of_mem_ready hst (hcons ▸ List.mem_cons_self)
  have hrest : Chain l.readyNext 0 (l.readyNext b) (v.ready p).tail := hchain.2.2
  refine ⟨h.bindings, h.watchers, fun q hq => ?_, fun q hq => ?_, h.mem_bindings, h.mem_watchers,
    fun q hq y => ?_⟩ <;> dsimp only
  · by_cases hqp : q = p
    · subst hqp
      rw [update_self, update_self]
      exact hrest.frame fun y hy => update_of_ne (fun e => hbrest (by rw [← e]; exact hy)) _ _
    · rw [update_of_ne hqp, update_of_ne hqp]
      refine (h.ready q hq).frame fun y hy => update_of_ne (fun e => hqp ?_) _ _
      rw [← h.port_of_mem_ready hq hy, e, hbp]
  · by_cases hqp : q = p
    · subst hqp
      rw [update_self]
      by_cases hn : l.readyNext b = 0
      · rw [if_pos hn, update_self, (hrest.eq_nil_iff).1 hn]
        rfl
      · rw [if_neg hn, h.tail q hq, hcons]
        obtain ⟨y, ys, hys⟩ := List.exists_cons_of_ne_nil (mt (hrest.eq_nil_iff).2 hn)
        rw [List.tail_cons, hys, List.getLast?_cons_cons]
    · rw [update_of_ne hqp]
      split
      · rw [update_of_ne hqp]
        exact h.tail q hq
      · exact h.tail q hq
  · by_cases hyb : y = b
    · rw [hyb]
      have hy : b ∉ update v.ready p (v.ready p).tail q := by
        by_cases hqp : q = p
        · rw [hqp, update_self]
          exact hbrest
        · rw [update_of_ne hqp]
          exact fun hm => hqp ((h.port_of_mem_ready hq hm).symm.trans hbp)
      simp [hy]
    · rw [update_of_ne hyb]
      by_cases hqp : q = p
      · rw [hqp, update_self, ← (h.mem_ready p hst) y, hcons, List.tail_cons, List.mem_cons]
        exact ⟨Or.inr, fun h' => h'.resolve_left hyb⟩
      · rw [update_of_ne hqp, (h.mem_ready q hq) y]

/-! ### `bind` -/

theorem link_eq (w : World) (port obj key : Nat) (mask : BitVec 32) (b : Nat) :
    w.link port obj key mask b =
      { w with key := update w.key b key, mask := update w.mask b mask, pending := update w.pending b false,
               pendingSignals := update w.pendingSignals b 0, object := update w.object b obj,
               port := update w.port b port, live := b :: w.live,
               readyNext := update w.readyNext b 0,
               objNext := update w.objNext b (w.objBindings obj),
               objPrev := if w.objBindings obj ≠ 0 then update (update w.objPrev b 0) (w.objBindings obj) b
                 else update w.objPrev b 0,
               objBindings := update w.objBindings obj b,
               portNext := update w.portNext b (w.portBindings port),
               portBindings := update w.portBindings port b } := by
  by_cases hc : w.objBindings obj = 0 <;> simp [link, hc]

theorem link_links (w : World) (port obj key : Nat) (mask : BitVec 32) (b : Nat) :
    (w.link port obj key mask b).links =
      { portNext := update w.portNext b (w.portBindings port),
        readyNext := update w.readyNext b 0,
        objNext := update w.objNext b (w.objBindings obj),
        objPrev := if w.objBindings obj ≠ 0 then update (update w.objPrev b 0) (w.objBindings obj) b
          else update w.objPrev b 0,
        portBindings := update w.portBindings port b,
        readyHead := w.readyHead, readyTail := w.readyTail,
        objBindings := update w.objBindings obj b,
        live := b :: w.live, port := update w.port b port, object := update w.object b obj,
        pending := update w.pending b false } := by
  by_cases hc : w.objBindings obj = 0 <;> simp [link, hc, links]

/-- `bind`'s links: a fresh binding pushed on its port's list and on its object's list. -/
theorem Links.Spells.link (h : w.links.Spells v gone stale) {port obj key : Nat} {mask : BitVec 32}
    {b : Nat} (hb0 : b ≠ 0) (hb : b ∉ w.live) (hbg : b ∉ gone) :
    (w.link port obj key mask b).links.Spells
      { v with bindings := update v.bindings port (b :: v.bindings port),
               watchers := update v.watchers obj (b :: v.watchers obj) } gone stale := by
  -- a slot not yet handed out is on no list
  have hnotb : ∀ q, b ∉ v.bindings q := fun q hm => hb (((h.mem_bindings q b).1 hm).1)
  have hnotw : ∀ o, b ∉ v.watchers o := fun o hm => hb (((h.mem_watchers o b).1 hm).1)
  have hnotr : ∀ q, stale ≠ some q → b ∉ v.ready q := fun q hq hm => hb (((h.mem_ready q hq b).1 hm).1)
  have hne : ∀ {l : List Nat} {y : Nat}, b ∉ l → y ∈ l → y ≠ b := fun hl hy e => hl (e ▸ hy)
  have hhead : w.objBindings obj ≠ 0 → w.objBindings obj ∈ v.watchers obj := fun h0 =>
    (h.watchers obj).chain.head_mem h0
  rw [link_links]
  refine ⟨fun q => ?_, fun o => ?_, fun q hq => ?_, fun q hq => h.tail q hq, fun q y => ?_, fun o y => ?_,
    fun q hq y => ?_⟩ <;> dsimp only
  · by_cases hqp : q = port
    · rw [hqp, update_self, update_self]
      exact (h.bindings port).push hb0 (update_self ..) fun y hy => update_of_ne (hne (hnotb _) hy) _ _
    · rw [update_of_ne hqp, update_of_ne hqp]
      exact (h.bindings q).frame fun y hy => update_of_ne (hne (hnotb _) hy) _ _
  · have hprev : ∀ y, y ≠ b → y ≠ w.objBindings obj →
        (if w.objBindings obj ≠ 0 then update (update w.objPrev b 0) (w.objBindings obj) b
          else update w.objPrev b 0) y = w.objPrev y := by
      intro y hyb hyh
      split <;> simp [update_of_ne hyb, update_of_ne hyh]
    by_cases hoo : o = obj
    · rw [hoo, update_self, update_self]
      refine (h.watchers obj).push hb0 (update_self ..) ?_ (fun y hy => update_of_ne (hne (hnotw _) hy) _ _)
        fun y hy => ?_
      · by_cases h0 : w.objBindings obj = 0
        · simp [h0]
        · simp [h0, update_of_ne (hne (hnotw obj) (hhead h0)).symm]
      · by_cases hyh : y = w.objBindings obj
        · have h0 : w.objBindings obj ≠ 0 := fun e => (h.watchers obj).not_mem_nil (e ▸ hyh ▸ hy)
          simp [h0, hyh]
        · rw [links_objBindings, links_objPrev, if_neg hyh]
          exact hprev y (hne (hnotw _) hy) hyh
    · rw [update_of_ne hoo, update_of_ne hoo]
      refine (h.watchers o).frame (fun y hy => update_of_ne (hne (hnotw _) hy) _ _) fun y hy => ?_
      refine hprev y (hne (hnotw _) hy) fun e => hoo ?_
      -- the old head watches `obj`, and `y` watches `o`
      have h0 : w.objBindings obj ≠ 0 := fun e0 => (h.watchers o).not_mem_nil (e0 ▸ e ▸ hy)
      rw [← ((h.mem_watchers o y).1 hy).2.2, e, ((h.mem_watchers obj _).1 (hhead h0)).2.2]
  · exact (h.ready q hq).frame fun y hy => update_of_ne (hne (hnotr q hq) hy) _ _
  · by_cases hyb : y = b
    · rw [hyb]
      by_cases hqp : q = port
      · simp [hqp, hbg]
      · simp [update_of_ne hqp, hnotb q, Ne.symm hqp]
    · by_cases hqp : q = port <;> simp [hqp, hyb, h.mem_bindings]
  · by_cases hyb : y = b
    · rw [hyb]
      by_cases hoo : o = obj
      · simp [hoo, hbg]
      · simp [update_of_ne hoo, hnotw o, Ne.symm hoo]
    · by_cases hoo : o = obj <;> simp [hoo, hyb, h.mem_watchers]
  · by_cases hyb : y = b
    · rw [hyb]
      simp [hnotr q hq]
    · rw [(h.mem_ready q hq) y]
      simp [hyb]

/-! ### `unlink_from_object` -/

section Unlink

variable (w) {b : Nat}

/-- `unlink_from_object` when the node before `b` is not `b` itself: the neighbours are
linked past `b`, the object's head moves on if it was `b`, and `b`'s links are cleared. -/
theorem unlinkFromObject_eq (hpr : w.objPrev b ≠ b) :
    (w.unlinkFromObject b).links =
      { w.links with
        objNext := update (if w.objPrev b ≠ 0 then update w.objNext (w.objPrev b) (w.objNext b) else w.objNext) b 0,
        objPrev := update (if w.objNext b ≠ 0 then update w.objPrev (w.objNext b) (w.objPrev b) else w.objPrev) b 0,
        objBindings := if w.objBindings (w.object b) = b then update w.objBindings (w.object b) (w.objNext b)
          else w.objBindings } := by
  have hnb : (if w.objPrev b ≠ 0 then update w.objNext (w.objPrev b) (w.objNext b) else w.objNext) b = w.objNext b := by
    split <;> simp [update_of_ne (Ne.symm hpr)]
  unfold unlinkFromObject
  by_cases h₁ : w.objPrev b = 0 <;> by_cases h₂ : w.objNext b = 0 <;>
    by_cases h₃ : w.objBindings (w.object b) = b <;> simp_all [links, update_of_ne (Ne.symm hpr)]

@[simp] theorem unlinkFromObject_pending : (w.unlinkFromObject b).pending = w.pending := by
  unfold unlinkFromObject; dsimp only; split_ifs <;> rfl

@[simp] theorem unlinkFromObject_port : (w.unlinkFromObject b).port = w.port := by
  unfold unlinkFromObject; dsimp only; split_ifs <;> rfl

@[simp] theorem unlinkFromObject_object : (w.unlinkFromObject b).object = w.object := by
  unfold unlinkFromObject; dsimp only; split_ifs <;> rfl

@[simp] theorem unlinkFromObject_live : (w.unlinkFromObject b).live = w.live := by
  unfold unlinkFromObject; dsimp only; split_ifs <;> rfl

@[simp] theorem unlinkFromObject_portNext : (w.unlinkFromObject b).portNext = w.portNext := by
  unfold unlinkFromObject; dsimp only; split_ifs <;> rfl

@[simp] theorem unlinkFromObject_portBindings : (w.unlinkFromObject b).portBindings = w.portBindings := by
  unfold unlinkFromObject; dsimp only; split_ifs <;> rfl

@[simp] theorem unlinkFromObject_readyNext : (w.unlinkFromObject b).readyNext = w.readyNext := by
  unfold unlinkFromObject; dsimp only; split_ifs <;> rfl

@[simp] theorem unlinkFromObject_readyHead : (w.unlinkFromObject b).readyHead = w.readyHead := by
  unfold unlinkFromObject; dsimp only; split_ifs <;> rfl

@[simp] theorem unlinkFromObject_readyTail : (w.unlinkFromObject b).readyTail = w.readyTail := by
  unfold unlinkFromObject; dsimp only; split_ifs <;> rfl

@[simp] theorem unlinkFromObject_key : (w.unlinkFromObject b).key = w.key := by
  unfold unlinkFromObject; dsimp only; split_ifs <;> rfl

@[simp] theorem unlinkFromObject_mask : (w.unlinkFromObject b).mask = w.mask := by
  unfold unlinkFromObject; dsimp only; split_ifs <;> rfl

@[simp] theorem unlinkFromObject_pendingSignals : (w.unlinkFromObject b).pendingSignals = w.pendingSignals := by
  unfold unlinkFromObject; dsimp only; split_ifs <;> rfl

@[simp] theorem unlinkFromObject_signals : (w.unlinkFromObject b).signals = w.signals := by
  unfold unlinkFromObject; dsimp only; split_ifs <;> rfl

@[simp] theorem unlinkFromObject_kind : (w.unlinkFromObject b).kind = w.kind := by
  unfold unlinkFromObject; dsimp only; split_ifs <;> rfl

end Unlink

/-- `unlink_from_object` takes a watching binding off its object's list and leaves every
other object's list as it was. -/
theorem watchers_unlink {W : Nat → List Nat} (hW : ∀ o, DChain w.objNext w.objPrev 0 0 (w.objBindings o) (W o))
    (hobj : ∀ o y, y ∈ W o → w.object y = o) {b : Nat} (hb : b ∈ W (w.object b)) (o : Nat) :
    DChain (w.unlinkFromObject b).objNext (w.unlinkFromObject b).objPrev 0 0
      ((w.unlinkFromObject b).objBindings o) (update W (w.object b) ((W (w.object b)).erase b) o) := by
  set x := w.object b
  have hd := hW x
  obtain ⟨pre, post, hsplit⟩ := List.append_of_mem hb
  rw [hsplit] at hd
  have hnd := hd.nodup
  have hb0 : b ≠ 0 := fun e => hd.not_mem_nil (e ▸ List.mem_append_right _ List.mem_cons_self)
  have hpr : w.objPrev b ≠ b := by
    rcases hd.prev_mem (List.mem_append_right _ List.mem_cons_self) with e | ⟨-, e⟩
    · exact fun e' => hb0 (e'.symm.trans e)
    · exact e
  have hfields := unlinkFromObject_eq w hpr
  have hnext : (w.unlinkFromObject b).objNext = _ := congrArg Links.objNext hfields
  have hprev : (w.unlinkFromObject b).objPrev = _ := congrArg Links.objPrev hfields
  have hhead : (w.unlinkFromObject b).objBindings = _ := congrArg Links.objBindings hfields
  dsimp only at hnext hprev hhead
  have hnd' := List.nodup_middle.1 hnd
  have hnotin : ∀ y ∈ pre ++ post, y ≠ b := fun y hy e => (List.nodup_cons.1 hnd').1 (e ▸ hy)
  have hbpre : b ∉ pre := fun hm => (List.nodup_cons.1 hnd').1 (List.mem_append_left _ hm)
  -- the neighbours of `b` are on `x`'s list, or null
  have hmemx : ∀ y, y ≠ 0 → (y = w.objPrev b ∨ y = w.objNext b) → y ∈ W x := by
    rintro y hy0 (rfl | rfl)
    · rcases hd.prev_mem (List.mem_append_right _ List.mem_cons_self) with e | ⟨hm, -⟩
      · exact absurd e hy0
      · rw [hsplit]; exact hm
    · rcases hd.next_mem (List.mem_append_right _ List.mem_cons_self) with e | ⟨hm, -⟩
      · exact absurd e hy0
      · rw [hsplit]; exact hm
  have hnext' : ∀ y, y ≠ b → y ≠ 0 →
      update (if w.objPrev b ≠ 0 then update w.objNext (w.objPrev b) (w.objNext b) else w.objNext) b 0 y =
        if y = w.objPrev b then w.objNext b else w.objNext y := by
    intro y hyb hy0
    rw [update_of_ne hyb]
    by_cases hyp : y = w.objPrev b
    · rw [if_pos hyp, if_pos (hyp ▸ hy0), hyp, update_self]
    · rw [if_neg hyp]
      split <;> simp [update_of_ne hyp]
  have hprev' : ∀ y, y ≠ b → y ≠ 0 →
      update (if w.objNext b ≠ 0 then update w.objPrev (w.objNext b) (w.objPrev b) else w.objPrev) b 0 y =
        if y = w.objNext b then w.objPrev b else w.objPrev y := by
    intro y hyb hy0
    rw [update_of_ne hyb]
    by_cases hyn : y = w.objNext b
    · rw [if_pos hyn, if_pos (hyn ▸ hy0), hyn, update_self]
    · rw [if_neg hyn]
      split <;> simp [update_of_ne hyn]
  rw [hnext, hprev, hhead]
  by_cases hox : o = x
  · have herase : (pre ++ b :: post).erase b = pre ++ post := by
      rw [List.erase_append_right _ hbpre, List.erase_cons_head]
    have hh : (if w.objBindings x = b then update w.objBindings x (w.objNext b) else w.objBindings) x =
        if w.objBindings x = b then w.objNext b else w.objBindings x := by
      split <;> simp
    rw [hox, update_self, hsplit, herase, hh]
    exact hd.unlink hd.not_mem_nil
      (fun y hy => hnext' y (hnotin y hy) fun e => hd.not_mem_nil (e ▸ List.mem_append.2
        ((List.mem_append.1 hy).imp id (List.mem_cons_of_mem b))))
      (fun y hy => hprev' y (hnotin y hy) fun e => hd.not_mem_nil (e ▸ List.mem_append.2
        ((List.mem_append.1 hy).imp id (List.mem_cons_of_mem b))))
  · -- another object's list holds neither `b` nor its neighbours
    rw [update_of_ne hox]
    have hobj : ∀ y ∈ W o, ∀ z ∈ W x, y ≠ z := fun y hy z hz e => hox (by
      rw [← hobj o y hy, e, hobj x z hz])
    have hhd : (if w.objBindings x = b then update w.objBindings x (w.objNext b) else w.objBindings) o =
        w.objBindings o := by
      split <;> simp [update_of_ne hox]
    rw [hhd]
    have hdo := hW o
    refine hdo.frame (fun y hy => ?_) fun y hy => ?_
    · have hy0 : y ≠ 0 := fun e => hdo.not_mem_nil (e ▸ hy)
      rw [hnext' y (hobj y hy b hb) hy0, if_neg fun e => hobj y hy _ (hmemx _ (e ▸ hy0) (.inl rfl)) e]
    · have hy0 : y ≠ 0 := fun e => hdo.not_mem_nil (e ▸ hy)
      rw [hprev' y (hobj y hy b hb) hy0, if_neg fun e => hobj y hy _ (hmemx _ (e ▸ hy0) (.inr rfl)) e]

/-! ### Writes through a link -/

/-- Where a link sits in a list: `.head` before the first node, `.next y` right after `y`. -/
def LinkAt : Link → List Nat → Prop
  | .head, pre => pre = []
  | .next y, pre => pre.getLast? = some y

/-- The link fields after `*l = v`. -/
def Link.setNext : Link → (Nat → Nat) → Nat → Nat → Nat
  | .head, f, _ => f
  | .next y, f, v => update f y v

/-- The list heads after `*l = v` on the list of port `p`. -/
def Link.setHead : Link → (Nat → Nat) → Nat → Nat → Nat → Nat
  | .head, f, p, v => update f p v
  | .next _, f, _, _ => f

section WriteLink

variable (w) (p : Nat) (l : Link) (x : Nat)

theorem writeLink_eq : w.writeLink p l x =
    { w with portNext := l.setNext w.portNext x, portBindings := l.setHead w.portBindings p x } := by
  cases l <;> rfl

@[simp] theorem writeLink_pending : (w.writeLink p l x).pending = w.pending := by cases l <;> rfl
@[simp] theorem writeLink_key : (w.writeLink p l x).key = w.key := by cases l <;> rfl
@[simp] theorem writeLink_object : (w.writeLink p l x).object = w.object := by cases l <;> rfl
@[simp] theorem writeLink_signals : (w.writeLink p l x).signals = w.signals := by cases l <;> rfl
@[simp] theorem writeLink_kind : (w.writeLink p l x).kind = w.kind := by cases l <;> rfl
@[simp] theorem writeReady_signals : (w.writeReady p l x).signals = w.signals := by cases l <;> rfl
@[simp] theorem writeReady_kind : (w.writeReady p l x).kind = w.kind := by cases l <;> rfl
@[simp] theorem writeReady_readyTail : (w.writeReady p l x).readyTail = w.readyTail := by cases l <;> rfl

end WriteLink

/-- Writing, through the link before `b` on port `p`'s list, the node after `b` takes `b`
out of that list; a list of another port, which holds nothing of `p`'s, stays as it was. -/
theorem chain_remove {head next : Nat → Nat} {L : Nat → List Nat} {p b q : Nat}
    (hp : Chain next 0 (head p) (L p)) (hq : Chain next 0 (head q) (L q))
    (hdisj : q ≠ p → ∀ y ∈ L p, y ∉ L q) {pre post : List Nat}
    (hsplit : L p = pre ++ b :: post) {l : Link} (hl : LinkAt l pre) :
    Chain (l.setNext next (next b)) 0 (l.setHead head p (next b) q) (update L p (pre ++ post) q) := by
  by_cases hqp : q = p
  · rw [hqp, update_self]
    rw [hsplit] at hp
    have hx : Chain (l.setNext next (next b)) 0 _ _ := hp.excise fun y hy => by
      cases l with
      | head =>
        simp only [LinkAt] at hl
        simp [hl, Link.setNext]
      | next z =>
        simp only [Link.setNext, LinkAt] at hl ⊢
        by_cases hyz : y = z
        · simp [hyz, hl]
        · simp [update_of_ne hyz, hl, Ne.symm hyz]
    cases l with
    | head =>
      simp only [LinkAt] at hl
      simpa [Link.setHead, hl] using hx
    | next z =>
      have hpre : pre ≠ [] := fun e => by simp [LinkAt, e] at hl
      simpa [Link.setHead, hpre] using hx
  · rw [update_of_ne hqp]
    cases l with
    | head => simpa [Link.setNext, Link.setHead, update_of_ne hqp] using hq
    | next z =>
      -- `z` sits before `b` on `p`'s list, so on no list of another port
      have hz : z ∉ L q := hdisj hqp z (by rw [hsplit]; exact List.mem_append_left _ (List.mem_of_getLast? hl))
      exact hq.frame fun y hy => update_of_ne (fun e => hz (by rw [← e]; exact hy)) _ _

/-- `findReady` walks the ready FIFO from a link at `pre0` to the link right before `b`. -/
theorem findReady_eq (port b : Nat) (hb0 : b ≠ 0) : ∀ (mid post pre0 : List Nat) (l : Link) (fuel : Nat),
    Chain w.readyNext 0 (w.readReady port l) (mid ++ b :: post) → b ∉ mid → LinkAt l pre0 →
      mid.length < fuel → ∃ l', World.findReady port b fuel w l = some l' ∧ LinkAt l' (pre0 ++ mid)
  | _, _, _, _, 0, _, _, _, hf => absurd hf (Nat.not_lt_zero _)
  | [], post, pre0, l, fuel + 1, hc, _, hl, _ => ⟨l, by simp [World.findReady, hc.1], by simpa using hl⟩
  | c :: mid, post, pre0, l, fuel + 1, hc, hbm, _, hf => by
    obtain ⟨hcl, hc0, hrest⟩ := hc
    have hcb : c ≠ b := fun e => hbm (e ▸ List.mem_cons_self)
    obtain ⟨l', hfind, hl'⟩ := findReady_eq port b hb0 mid post (pre0 ++ [c]) (.next c) fuel hrest
      (fun hm => hbm (List.mem_cons_of_mem c hm)) (by simp [LinkAt]) (by simpa using hf)
    refine ⟨l', ?_, by simpa using hl'⟩
    rw [World.findReady, if_neg (hcl ▸ hcb), if_neg (hcl ▸ hc0), hcl]
    exact hfind

/-- `readyTailWalk` from the head of a chain stops at its last node, or null when it is
empty. -/
theorem readyTailWalk_eq : ∀ (xs : List Nat) (t fuel : Nat), Chain w.readyNext 0 t xs → xs.length < fuel →
    World.readyTailWalk fuel w t = some (xs.getLast?.getD 0)
  | _, _, 0, _, hf => absurd hf (Nat.not_lt_zero _)
  | [], t, fuel + 1, hc, _ => by simp [World.readyTailWalk, show t = 0 from hc]
  | [x], t, fuel + 1, hc, _ => by
    obtain ⟨rfl, hx, hn⟩ := hc
    simp [World.readyTailWalk, show w.readyNext t = 0 from hn]
  | x :: y :: ys, t, fuel + 1, hc, hf => by
    obtain ⟨rfl, hx, hn⟩ := hc
    have hy0 : w.readyNext t ≠ 0 := by rw [hn.1]; exact hn.2.1
    rw [World.readyTailWalk, if_pos ⟨hx, hy0⟩, readyTailWalk_eq (y :: ys) _ fuel hn (by simpa using hf),
      List.getLast?_cons_cons]

/-- `unbind`'s excise of a binding from its port's FIFO: the FIFO without it, the tail
rescanned when it was the tail, and nothing else written. -/
theorem exciseReady_spec {R : Nat → List Nat}
    (hR : ∀ q, stale ≠ some q → Chain w.readyNext 0 (w.readyHead q) (R q))
    (htail : ∀ q, stale ≠ some q → w.readyTail q = ((R q).getLast?).getD 0)
    (hport : ∀ q, stale ≠ some q → ∀ y ∈ R q, w.port y = q)
    {p b : Nat} (hst : stale ≠ some p) (hb : b ∈ R p) (hlen : (R p).length < w.fuel) :
    ∃ rn rh rt, w.exciseReady p b = some { w with readyNext := rn, readyHead := rh, readyTail := rt } ∧
      (∀ q, stale ≠ some q → Chain rn 0 (rh q) (update R p ((R p).erase b) q)) ∧
      (∀ q, stale ≠ some q → rt q = ((update R p ((R p).erase b) q).getLast?).getD 0) := by
  obtain ⟨pre, post, hsplit⟩ := List.append_of_mem hb
  have hc := hR p hst
  rw [hsplit] at hc
  have hnd := List.nodup_middle.1 hc.nodup
  have hb0 : b ≠ 0 := fun e => hc.not_mem_nil (e ▸ List.mem_append_right _ List.mem_cons_self)
  have hbpre : b ∉ pre := fun hm => (List.nodup_cons.1 hnd).1 (List.mem_append_left _ hm)
  have herase : (R p).erase b = pre ++ post := by
    rw [hsplit, List.erase_append_right _ hbpre, List.erase_cons_head]
  have hlen' : pre.length < w.fuel := by
    rw [hsplit] at hlen
    simp only [List.length_append, List.length_cons] at hlen
    omega
  obtain ⟨l, hfind, hl⟩ := findReady_eq p b hb0 pre post [] .head w.fuel hc hbpre rfl hlen'
  simp only [List.nil_append] at hl
  set rn := l.setNext w.readyNext (w.readyNext b)
  set rh := l.setHead w.readyHead p (w.readyNext b)
  have hchains : ∀ q, stale ≠ some q → Chain rn 0 (rh q) (update R p (pre ++ post) q) := fun q hq =>
    chain_remove (hR p hst) (hR q hq)
      (fun hqp y hy hyq => hqp ((hport q hq y hyq).symm.trans (hport p hst y hy))) hsplit hl
  have hw1 : w.writeReady p l (w.readyNext b) = { w with readyNext := rn, readyHead := rh } := by
    cases l <;> rfl
  rw [herase]
  by_cases htb : w.readyTail p = b
  · -- `b` was the tail: the walk from the new head finds the new last binding
    have hlen'' : (pre ++ post).length < w.fuel := by
      rw [hsplit] at hlen
      simp only [List.length_append, List.length_cons] at hlen ⊢
      omega
    have hwalk := readyTailWalk_eq (w := { w with readyNext := rn, readyHead := rh }) (pre ++ post) (rh p)
      w.fuel (by simpa using hchains p hst) hlen''
    refine ⟨rn, rh, update w.readyTail p ((pre ++ post).getLast?.getD 0), ?_, hchains, fun q hq => ?_⟩
    · simp only [World.exciseReady, hfind, Option.bind_eq_bind, Option.bind_some, hw1, htb, if_true]
      simp only [World.fuel] at hwalk ⊢
      simp [hwalk]
    · by_cases hqp : q = p
      · rw [hqp, update_self, update_self]
      · rw [update_of_ne hqp, update_of_ne hqp]
        exact htail q hq
  · -- another binding stays the tail: `b` was not last, so the last binding is unchanged
    refine ⟨rn, rh, w.readyTail, ?_, hchains, fun q hq => ?_⟩
    · simp only [World.exciseReady, hfind, Option.bind_eq_bind, Option.bind_some, hw1]
      simp [htb]
    · by_cases hqp : q = p
      · rw [hqp, update_self, htail p hst, hsplit]
        obtain ⟨z, zs, hz⟩ := List.exists_cons_of_ne_nil (show post ≠ [] from fun e => htb (by
          rw [htail p hst, hsplit, e]; simp))
        rw [hz, List.getLast?_append_of_ne_nil _ (List.cons_ne_nil _ _),
          List.getLast?_append_of_ne_nil _ (List.cons_ne_nil _ _), List.getLast?_cons_cons]
      · rw [update_of_ne hqp]
        exact htail q hq

end Archipelago.Obj.PortWorld
