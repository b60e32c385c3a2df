import Archipelago.Obj.PortSpec

/-! `port_notify` and `Object::signal_set`. One round's scan coalesces the hits into the
pending packets it passes and queues at most one binding, the first with an edge
(`scan_eq`). The restart loop and the `signal_set(SIGNAL_READABLE)` each queueing makes on
a port are bounded by the bindings not yet pending (`World.armed`), which every queueing
lowers: a call ends after at most one round more than its object has bindings, however
ports are bound to each other. Across a whole call the lists only grow at the FIFO tails,
pending flags only rise, signals and packets only gain bits (`Delivered`), and a binding
turns pending only on an edge of its object's signals (`EdgeTriggered`). -/

namespace Archipelago.Obj.PortWorld

open Archipelago.Lib Function World

/-! ### Measures and predicates -/

/-- The live bindings not pending: each can be queued once more. -/
def World.armed (w : World) : Nat := (w.live.filter fun b => !w.pending b).length

/-- The same among the bindings watching `obj`. -/
def World.armedOn (w : World) (obj : Nat) : Nat :=
  (w.live.filter fun b => w.object b = obj && !w.pending b).length

theorem length_filter_le_of_imp {α : Type*} (l : List α) {p q : α → Bool}
    (hpq : ∀ a, p a = true → q a = true) : (l.filter p).length ≤ (l.filter q).length :=
  (List.monotone_filter_right l hpq).length_le

theorem length_filter_lt_of_mem {α : Type*} {l : List α} {p q : α → Bool}
    (hpq : ∀ a, p a = true → q a = true) {a : α} (ha : a ∈ l) (hq : q a = true) (hp : p a = false) :
    (l.filter p).length < (l.filter q).length := by
  have hsub := List.monotone_filter_right l hpq
  refine lt_of_le_of_ne hsub.length_le fun he => ?_
  have hmem : a ∈ l.filter p := (hsub.eq_of_length he).symm ▸ List.mem_filter.2 ⟨ha, hq⟩
  rw [List.mem_filter, hp] at hmem
  exact Bool.false_ne_true hmem.2

/-- `READABLE` on every port says whether its FIFO holds a packet. -/
def Readable (kind : Nat → Kind) (signals : Nat → BitVec 32) (v : View) : Prop :=
  ∀ p, kind p = .port → (Obj.Asserted (signals p) portSignalReadable ↔ v.ready p ≠ [])

/-- A binding `port_notify(previous, current)` queues: a hit, not yet pending, and no hit
in the previous signals. -/
def Edge (previous current : BitVec 32) (w : World) (b : Nat) : Prop :=
  current &&& w.mask b ≠ 0 ∧ w.pending b = false ∧ previous &&& w.mask b = 0

instance (previous current : BitVec 32) (w : World) (b : Nat) : Decidable (Edge previous current w b) :=
  inferInstanceAs (Decidable (_ ∧ _ ∧ _))

/-- Every binding that turned pending saw its object's signals go from missing its mask to
hitting it. -/
def EdgeTriggered (w w' : World) : Prop :=
  ∀ b ∈ w.live, w.pending b = false → w'.pending b = true →
    w.signals (w.object b) &&& w.mask b = 0 ∧ w'.signals (w.object b) &&& w.mask b ≠ 0

/-- What a `signal_set` may do: the lists stay, save FIFOs growing at their tails; no
binding is born, moved or freed; pending flags, signals and pending packets only gain; and
no more bindings are left to queue. -/
structure Delivered (w w' : World) (v v' : View) : Prop where
  links : w'.links.Spells v' [] none
  bindings : v'.bindings = v.bindings
  watchers : v'.watchers = v.watchers
  ready : ∀ p, ∃ new, v'.ready p = v.ready p ++ new
  key : w'.key = w.key
  mask : w'.mask = w.mask
  object : w'.object = w.object
  port : w'.port = w.port
  live : w'.live = w.live
  kind : w'.kind = w.kind
  pending : ∀ b, w.pending b = true → w'.pending b = true
  pendingSignals : ∀ b, w.pending b = true → Submask (w.pendingSignals b) (w'.pendingSignals b)
  signals : ∀ o, Submask (w.signals o) (w'.signals o)
  armed : w'.armed ≤ w.armed

variable {w w' w'' : World} {v v' v'' : View}

namespace Delivered

theorem trans (h₁ : Delivered w w' v v') (h₂ : Delivered w' w'' v' v'') : Delivered w w'' v v'' where
  links := h₂.links
  bindings := h₂.bindings.trans h₁.bindings
  watchers := h₂.watchers.trans h₁.watchers
  ready p := by
    obtain ⟨n₁, e₁⟩ := h₁.ready p
    obtain ⟨n₂, e₂⟩ := h₂.ready p
    exact ⟨n₁ ++ n₂, by rw [e₂, e₁, List.append_assoc]⟩
  key := h₂.key.trans h₁.key
  mask := h₂.mask.trans h₁.mask
  object := h₂.object.trans h₁.object
  port := h₂.port.trans h₁.port
  live := h₂.live.trans h₁.live
  kind := h₂.kind.trans h₁.kind
  pending b hb := h₂.pending b (h₁.pending b hb)
  pendingSignals b hb := (h₁.pendingSignals b hb).trans (h₂.pendingSignals b (h₁.pending b hb))
  signals o := (h₁.signals o).trans (h₂.signals o)
  armed := h₂.armed.trans h₁.armed

theorem wf (h : Delivered w w' v v') (hw : w.Wf) : w'.Wf where
  nodup := h.live ▸ hw.nodup
  zero_not_live := h.live ▸ hw.zero_not_live
  kind_zero := h.kind ▸ hw.kind_zero
  port_kind b hb := by
    rw [h.kind, h.port]
    exact hw.port_kind b (h.live ▸ hb)
  object_kind b hb := by
    rw [h.kind, h.object]
    exact hw.object_kind b (h.live ▸ hb)

/-- Pending flags only rise, so no more bindings of `obj` are left to queue. -/
theorem armedOn_le (h : Delivered w w' v v') (obj : Nat) : w'.armedOn obj ≤ w.armedOn obj := by
  rw [World.armedOn, World.armedOn, h.live]
  refine length_filter_le_of_imp _ fun b hb => ?_
  rw [h.object] at hb
  cases hp : w.pending b
  · simp at hb ⊢
    exact hb.1
  · simp [h.pending b hp] at hb

/-- A change of signals alone. -/
theorem signals_only (h : w.links.Spells v [] none) (s : Nat → BitVec 32) (hs : ∀ o, Submask (w.signals o) (s o)) :
    Delivered w { w with signals := s } v v :=
  ⟨h, rfl, rfl, fun _ => ⟨[], by simp⟩, rfl, rfl, rfl, rfl, rfl, rfl, fun _ hb => hb,
    fun _ _ => Submask.refl _, hs, le_refl _⟩

end Delivered

theorem EdgeTriggered.trans (h₁ : EdgeTriggered w w') (d₁ : Delivered w w' v v') (h₂ : EdgeTriggered w' w'')
    (d₂ : Delivered w' w'' v' v'') : EdgeTriggered w w'' := by
  intro b hb hp hp''
  cases hp' : w'.pending b
  · obtain ⟨hz, hnz⟩ := h₂ b (d₁.live ▸ hb) hp' hp''
    rw [d₁.object, d₁.mask] at hz hnz
    exact ⟨(d₁.signals _).and_eq_zero hz, hnz⟩
  · obtain ⟨hz, hnz⟩ := h₁ b hb hp hp'
    exact ⟨hz, (d₂.signals _).and_flag hnz⟩

/-! ### One round's scan -/

/-- The pending packets of `xs` after a scan passed them: each gained its hits. -/
def World.coalesce (w : World) (current : BitVec 32) (xs : List Nat) : World :=
  { w with pendingSignals := fun y =>
      if y ∈ xs ∧ w.pending y = true then w.pendingSignals y ||| (current &&& w.mask y) else w.pendingSignals y }

/-- The binding `b` marked pending with its hits and queued on its port. -/
def World.mark (w : World) (current : BitVec 32) (b : Nat) : World :=
  ({ w with pending := update w.pending b true,
            pendingSignals := update w.pendingSignals b (current &&& w.mask b) }).enqueueReady (w.port b) b

section Coalesce

variable (w) (current : BitVec 32) {x : Nat} (xs : List Nat)

@[simp] theorem coalesce_nil : w.coalesce current [] = w := by
  simp [World.coalesce]

@[simp] theorem coalesce_links : (w.coalesce current xs).links = w.links := rfl

@[simp] theorem coalesce_armed : (w.coalesce current xs).armed = w.armed := rfl

@[simp] theorem coalesce_armedOn (obj : Nat) : (w.coalesce current xs).armedOn obj = w.armedOn obj := rfl

@[simp] theorem coalesce_object : (w.coalesce current xs).object = w.object := rfl

@[simp] theorem coalesce_port : (w.coalesce current xs).port = w.port := rfl

@[simp] theorem coalesce_pending_eq : (w.coalesce current xs).pending = w.pending := rfl

@[simp] theorem coalesce_signals : (w.coalesce current xs).signals = w.signals := rfl

@[simp] theorem coalesce_kind : (w.coalesce current xs).kind = w.kind := rfl

theorem coalesce_pending (hp : w.pending x = true) :
    ({ w with pendingSignals := update w.pendingSignals x (w.pendingSignals x ||| (current &&& w.mask x)) }).coalesce
      current xs = w.coalesce current (x :: xs) := by
  simp only [World.coalesce, World.mk.injEq, true_and, and_true]
  funext y
  by_cases hyx : y = x
  · subst hyx
    simp [hp, BitVec.or_assoc]
  · simp [hyx]

theorem coalesce_skip (h : w.pending x = false ∨ current &&& w.mask x = 0) :
    w.coalesce current (x :: xs) = w.coalesce current xs := by
  simp only [World.coalesce, World.mk.injEq, true_and, and_true]
  funext y
  by_cases hyx : y = x
  · subst hyx
    rcases h with h | h <;> simp [h]
  · simp [hyx]

theorem submask_coalesce (y : Nat) : Submask (w.pendingSignals y) ((w.coalesce current xs).pendingSignals y) := by
  simp only [World.coalesce]
  split_ifs
  · exact Submask.or_left _ _
  · exact Submask.refl _

end Coalesce

theorem World.Wf.coalesce (hw : w.Wf) (current : BitVec 32) (xs : List Nat) : (w.coalesce current xs).Wf :=
  ⟨hw.nodup, hw.zero_not_live, hw.kind_zero, hw.port_kind, hw.object_kind⟩

/-- What one round's scan over the list `xs` from the object's head returns: the first
binding with an edge marked and queued, the ones before it coalesced; or, with no edge, the
whole list coalesced. -/
def ScanResult (previous current : BitVec 32) (w : World) (xs : List Nat) (r : Option (World × Option Nat)) :
    Prop :=
  (∃ pre e post, xs = pre ++ e :: post ∧ (∀ x ∈ pre, ¬ Edge previous current w x) ∧
    Edge previous current w e ∧ r = some ((w.coalesce current pre).mark current e, some (w.port e))) ∨
  ((∀ x ∈ xs, ¬ Edge previous current w x) ∧ r = some (w.coalesce current xs, none))

/-- Passing one binding with no edge, with the world `w₁` the scan goes on in. -/
theorem ScanResult.cons {previous current : BitVec 32} {w₁ : World} {x : Nat} {xs : List Nat}
    {r : Option (World × Option Nat)} (h : ScanResult previous current w₁ xs r)
    (hE : ∀ y, Edge previous current w₁ y ↔ Edge previous current w y)
    (hC : ∀ ys, w₁.coalesce current ys = w.coalesce current (x :: ys)) (hport : w₁.port = w.port)
    (hx : ¬ Edge previous current w x) : ScanResult previous current w (x :: xs) r := by
  rcases h with ⟨pre, e, post, rfl, hpre, he, rfl⟩ | ⟨hall, rfl⟩
  · refine Or.inl ⟨x :: pre, e, post, rfl, ?_, (hE e).1 he, by rw [hC, hport]⟩
    rintro y (_ | ⟨_, hy⟩)
    · exact hx
    · exact fun hy' => hpre y hy ((hE y).2 hy')
  · refine Or.inr ⟨?_, by rw [hC]⟩
    rintro y (_ | ⟨_, hy⟩)
    · exact hx
    · exact fun hy' => hall y hy ((hE y).2 hy')

/-- The scan walks the object's list `xs` and does what `ScanResult` says. -/
theorem scan_eq (previous current : BitVec 32) : ∀ (xs : List Nat) (fuel : Nat) (w : World) (b : Nat),
    Chain w.objNext 0 b xs → xs.length < fuel →
    ScanResult previous current w xs (World.scan previous current fuel w b)
  | _, 0, _, _, _, hf => absurd hf (Nat.not_lt_zero _)
  | [], fuel + 1, w, b, hc, _ => Or.inr ⟨by simp, by simp [World.scan, show b = 0 from hc]⟩
  | x :: xs, fuel + 1, w, b, hc, hf => by
    obtain ⟨hbx, hx0, hc'⟩ := hc
    subst b
    have hf' : xs.length < fuel := by simpa using hf
    by_cases hhit : current &&& w.mask x = 0#32
    · -- no hit: passed over
      have hscan : World.scan previous current (fuel + 1) w x = World.scan previous current fuel w (w.objNext x) := by
        simp [World.scan, hx0, hhit]
      rw [hscan]
      exact (scan_eq previous current xs fuel w _ hc' hf').cons (fun _ => Iff.rfl)
        (fun ys => (coalesce_skip w current ys (.inr hhit)).symm) rfl (fun he => he.1 hhit)
    by_cases hp : w.pending x = true
    · -- a hit on a pending packet coalesces into it
      let w₁ : World :=
        { w with pendingSignals := update w.pendingSignals x (w.pendingSignals x ||| (current &&& w.mask x)) }
      have hscan : World.scan previous current (fuel + 1) w x = World.scan previous current fuel w₁ (w.objNext x) := by
        simp [World.scan, hx0, hhit, hp, w₁]
      rw [hscan]
      exact (scan_eq previous current xs fuel w₁ _ hc' hf').cons (fun _ => Iff.rfl)
        (fun ys => coalesce_pending w current ys hp) rfl (fun he => by simp [he.2.1] at hp)
    have hpf : w.pending x = false := by simpa using hp
    by_cases hprev : previous &&& w.mask x = 0#32
    · -- the edge: queued, and the scan ends
      refine Or.inl ⟨[], x, xs, rfl, by simp, ⟨hhit, hpf, hprev⟩, ?_⟩
      simp [World.scan, hx0, hhit, hpf, hprev, World.mark]
    · -- the previous signals already hit: no edge
      have hscan : World.scan previous current (fuel + 1) w x = World.scan previous current fuel w (w.objNext x) := by
        simp [World.scan, hx0, hhit, hpf, hprev]
      rw [hscan]
      exact (scan_eq previous current xs fuel w _ hc' hf').cons (fun _ => Iff.rfl)
        (fun ys => (coalesce_skip w current ys (.inl hpf)).symm) rfl (fun he => hprev he.2.2)

/-! ### One round -/

theorem Links.Spells.watchers_length_lt (h : w.links.Spells v [] none) (obj : Nat) :
    (v.watchers obj).length < w.fuel :=
  Nat.lt_succ_of_le ((h.watchers obj).nodup.length_le_of_subset fun _ hy => ((h.mem_watchers obj _).1 hy).1)

theorem delivered_coalesce (h : w.links.Spells v [] none) (current : BitVec 32) (xs : List Nat) :
    Delivered w (w.coalesce current xs) v v :=
  ⟨h, rfl, rfl, fun _ => ⟨[], by simp⟩, rfl, rfl, rfl, rfl, rfl, rfl, fun _ hb => hb,
    fun b _ => submask_coalesce w current xs b, fun _ => Submask.refl _, le_refl _⟩

section Mark

variable {e : Nat} (current : BitVec 32)

theorem mark_pending : (w.mark current e).pending = update w.pending e true := by
  simp [World.mark, enqueueReady_eq]

theorem mark_armed_lt (he : e ∈ w.live) (hpe : w.pending e = false) : (w.mark current e).armed < w.armed := by
  rw [World.armed, World.armed, mark_pending, show (w.mark current e).live = w.live by simp [World.mark, enqueueReady_eq]]
  refine length_filter_lt_of_mem (fun b hb => ?_) he (by simp [hpe]) (by simp)
  by_cases hbe : b = e
  · simp [hbe] at hb
  · simpa [update_of_ne hbe] using hb

theorem mark_armedOn_lt (he : e ∈ w.live) (hpe : w.pending e = false) :
    (w.mark current e).armedOn (w.object e) < w.armedOn (w.object e) := by
  rw [World.armedOn, World.armedOn, mark_pending,
    show (w.mark current e).live = w.live by simp [World.mark, enqueueReady_eq],
    show (w.mark current e).object = w.object by simp [World.mark, enqueueReady_eq]]
  refine length_filter_lt_of_mem (fun b hb => ?_) he (by simp [hpe]) (by simp)
  by_cases hbe : b = e
  · simp [hbe] at hb
  · simpa [update_of_ne hbe] using hb

/-- Queueing a binding with an edge: its port's FIFO gains it at the tail. -/
theorem delivered_mark (h : w.links.Spells v [] none) (hw : w.Wf) (he : e ∈ w.live) (hpe : w.pending e = false) :
    Delivered w (w.mark current e) v { v with ready := update v.ready (w.port e) (v.ready (w.port e) ++ [e]) } where
  links := h.enqueue hw _ he List.not_mem_nil (by simp) hpe
  bindings := rfl
  watchers := rfl
  ready p := by
    by_cases hp : p = w.port e
    · exact ⟨[e], by simp [hp]⟩
    · exact ⟨[], by simp [hp]⟩
  key := by simp [World.mark]
  mask := by simp [World.mark]
  object := by simp [World.mark, enqueueReady_eq]
  port := by simp [World.mark, enqueueReady_eq]
  live := by simp [World.mark, enqueueReady_eq]
  kind := by simp [World.mark]
  pending b hb := by
    rw [mark_pending]
    by_cases hbe : b = e
    · simp [hbe]
    · simpa [update_of_ne hbe] using hb
  pendingSignals b hb := by
    have hbe : b ≠ e := fun hbe => by simp [hbe, hpe] at hb
    simpa [World.mark, update_of_ne hbe] using Submask.refl _
  signals o := by simpa [World.mark] using Submask.refl _
  armed := le_of_lt (mark_armed_lt current he hpe)

end Mark

/-- The port a round queued on may lack `READABLE` until its `signal_set`: every other port
is as it was, and that one has a packet. -/
theorem readable_enqueue {kind : Nat → Kind} {signals : Nat → BitVec 32} (hR : Readable kind signals v)
    (q e : Nat) : Readable kind (update signals q (Obj.signalSet (signals q) portSignalReadable))
      { v with ready := update v.ready q (v.ready q ++ [e]) } := by
  intro p hp
  by_cases hpq : p = q
  · subst hpq
    simp [Obj.asserted_signalSet_self (show portSignalReadable ≠ 0#32 by decide)]
  · simpa [update_of_ne hpq] using hR p hp

/-! ### The restart loop -/

/-- What a `signal_set(SIGNAL_READABLE)` on a port may do, for worlds with fewer than `n`
bindings left to queue. -/
def SignalSpec (n : Nat) (signal : World → Nat → Option World) : Prop :=
  ∀ w v p, w.links.Spells v [] none → w.Wf → w.armed < n →
    ∃ w' v', signal w p = some w' ∧ Delivered w w' v v' ∧ EdgeTriggered w w' ∧
      (Readable w.kind (update w.signals p (Obj.signalSet (w.signals p) portSignalReadable)) v →
        Readable w'.kind w'.signals v')

/-- The bindings a `port_notify(obj, previous, current)` turned pending: those of `obj` with
an edge, and those the nested `signal_set` calls turned pending on edges of their own. -/
def LoopEdges (obj : Nat) (previous current : BitVec 32) (w w' : World) : Prop :=
  ∀ b ∈ w.live, w.pending b = false → w'.pending b = true →
    (w.object b = obj ∧ Edge previous current w b) ∨
    (w.signals (w.object b) &&& w.mask b = 0 ∧ w'.signals (w.object b) &&& w.mask b ≠ 0)

/-- A round's edges: the one binding the scan queued, then the nested call's, then the later
rounds'. -/
theorem LoopEdges.round {obj e : Nat} {previous current : BitVec 32} {W w₂ w₃ : World} {vW v₂ v₃ : View}
    (hW : ∀ b, w.pending b = false → W.pending b = true → b = e)
    (he : w.object e = obj ∧ Edge previous current w e) (dW : Delivered w W v vW)
    (e₂ : EdgeTriggered W w₂) (d₂ : Delivered W w₂ vW v₂)
    (e₃ : LoopEdges obj previous current w₂ w₃) (d₃ : Delivered w₂ w₃ v₂ v₃) :
    LoopEdges obj previous current w w₃ := by
  intro b hb hp hp₃
  have hlive : b ∈ w₂.live := d₂.live ▸ dW.live ▸ hb
  have hmask : w₂.mask = w.mask := d₂.mask.trans dW.mask
  have hobj : w₂.object = w.object := d₂.object.trans dW.object
  cases hpW : W.pending b
  · cases hp₂ : w₂.pending b
    · -- turned pending in a later round
      rcases e₃ b hlive hp₂ hp₃ with ⟨hob, hE⟩ | ⟨hz, hnz⟩
      · rw [hobj] at hob
        rw [Edge, hmask] at hE
        exact .inl ⟨hob, hE.1, hp, hE.2.2⟩
      · rw [hobj, hmask] at hz hnz
        exact .inr ⟨((dW.signals _).trans (d₂.signals _)).and_eq_zero hz, hnz⟩
    · -- turned pending in the nested `signal_set`
      obtain ⟨hz, hnz⟩ := e₂ b (dW.live ▸ hb) hpW hp₂
      rw [dW.object, dW.mask] at hz hnz
      exact .inr ⟨(dW.signals _).and_eq_zero hz, (d₃.signals _).and_flag hnz⟩
  · -- queued by this round's scan
    rw [hW b hp hpW]
    exact .inl he

/-- `port_notify`'s restart loop from any well-formed world, given what the `signal_set`
on a port does: it returns within one round more than `obj` has bindings left to queue,
with a world its calls may produce (`Delivered`), every binding of `obj` pending before
holding the hits, and `READABLE` tracking every FIFO again. -/
theorem notifyLoop_spec {n : Nat} {signal : World → Nat → Option World} (hsig : SignalSpec n signal)
    (obj : Nat) (previous current : BitVec 32) : ∀ (rounds : Nat) (w : World) (v : View),
    w.links.Spells v [] none → w.Wf → w.armed ≤ n → w.armedOn obj < rounds →
    ∃ w' v', World.notifyLoop signal obj previous current rounds w = some w' ∧ Delivered w w' v v' ∧
      LoopEdges obj previous current w w' ∧
      (∀ b ∈ v.watchers obj, w.pending b = true → Submask (current &&& w.mask b) (w'.pendingSignals b)) ∧
      (Readable w.kind w.signals v → Readable w'.kind w'.signals v')
  | 0, _, _, _, _, _, hr => absurd hr (Nat.not_lt_zero _)
  | rounds + 1, w, v, hs, hw, hn, hr => by
    have hc : Chain w.objNext 0 (w.objBindings obj) (v.watchers obj) := (hs.watchers obj).chain
    rcases scan_eq previous current _ w.fuel w _ hc (hs.watchers_length_lt obj) with
      ⟨pre, e, post, hsplit, -, he, hscan⟩ | ⟨-, hscan⟩
    · -- the scan queued `e`; the port it went on is signalled, and the loop restarts
      obtain ⟨hel, -, heo⟩ := (hs.mem_watchers obj e).1 (by rw [hsplit]; simp)
      have dW := (delivered_coalesce hs current pre).trans
        (delivered_mark (w := w.coalesce current pre) current hs (hw.coalesce current pre) hel he.2.1)
      have hlt := mark_armed_lt (w := w.coalesce current pre) current hel he.2.1
      have hltOn := mark_armedOn_lt (w := w.coalesce current pre) current hel he.2.1
      obtain ⟨w₂, v₂, hsig₂, d₂, e₂, r₂⟩ := hsig _ _ (w.port e) dW.links (dW.wf hw) (by simp at hlt; omega)
      obtain ⟨w₃, v₃, hrun, d₃, e₃, a₃, r₃⟩ := notifyLoop_spec hsig obj previous current rounds w₂ v₂ d₂.links
        (d₂.wf (dW.wf hw)) (by have := d₂.armed; simp at hlt; omega)
        (by have := d₂.armedOn_le obj; simp only [links_object] at heo; simp only [coalesce_object, heo,
          coalesce_armedOn] at hltOn; omega)
      refine ⟨w₃, v₃, by simp [World.notifyLoop, hscan, hsig₂, hrun], dW.trans (d₂.trans d₃),
        LoopEdges.round (fun b hp hp' => ?_) ⟨heo, he⟩ dW e₂ d₂ e₃ d₃, fun b hb hp => ?_,
        fun hR => r₃ (r₂ ?_)⟩
      · by_contra hbe
        simp [mark_pending, World.coalesce, update_of_ne hbe, hp] at hp'
      · have := a₃ b (by rw [d₂.watchers]; exact hb) (d₂.pending b (dW.pending b hp))
        rwa [d₂.mask, dW.mask] at this
      · simpa [World.mark, World.coalesce] using readable_enqueue hR (w.port e) e
    · -- no edge: the last round, everything coalesced
      refine ⟨w.coalesce current (v.watchers obj), v, by simp [World.notifyLoop, hscan],
        delivered_coalesce hs current _, fun b _ hp hp' => ?_, fun b hb hp => ?_, fun hR => hR⟩
      · simp [World.coalesce, hp] at hp'
      · simpa [World.coalesce, hb, hp] using Submask.or_right _ _

/-! ### `signal_set` -/

/-- `Object::signal_set(bits)` on `obj`, from any well-formed world with fewer than `depth`
bindings left to queue: it returns, every binding turned pending on an edge, every binding
of `obj` pending before holds the hits of the new signals, and `READABLE` tracks every FIFO
once it tracked them with `obj`'s new signals. -/
theorem signalSet_spec : ∀ (depth : Nat) (w : World) (v : View) (obj : Nat) (bits : BitVec 32),
    w.links.Spells v [] none → w.Wf → w.armed < depth →
    ∃ w' v', World.signalSet depth w obj bits = some w' ∧ Delivered w w' v v' ∧ EdgeTriggered w w' ∧
      (∀ b ∈ v.watchers obj, w.pending b = true →
        Submask (Obj.signalSet (w.signals obj) bits &&& w.mask b) (w'.pendingSignals b)) ∧
      (Readable w.kind (update w.signals obj (Obj.signalSet (w.signals obj) bits)) v →
        Readable w'.kind w'.signals v')
  | 0, _, _, _, _, _, _, hd => absurd hd (Nat.not_lt_zero _)
  | depth + 1, w, v, obj, bits, hs, hw, hd => by
    let w₁ : World := { w with signals := update w.signals obj (Obj.signalSet (w.signals obj) bits) }
    have d₁ : Delivered w w₁ v v := Delivered.signals_only hs _ fun o => by
      by_cases ho : o = obj
      · subst ho
        simpa [w₁, Obj.signalSet] using Submask.or_left _ _
      · simpa [w₁, update_of_ne ho] using Submask.refl _
    have hsig₁ : w₁.signals obj = Obj.signalSet (w.signals obj) bits := by simp [w₁]
    by_cases hb : w.objBindings obj = 0
    · -- nobody watches `obj`: the signals change and nothing else
      have hnil : v.watchers obj = [] := (hs.watchers obj).chain.eq_nil_iff.1 hb
      refine ⟨w₁, v, by simp [World.signalSet, hb, w₁], d₁, fun b _ hp hp' => absurd hp' (by simp [w₁, hp]),
        fun b hb' => by simp [hnil] at hb', fun hR => hR⟩
    · obtain ⟨w', v', hrun, d', e', a', r'⟩ := notifyLoop_spec (n := depth)
        (fun w v p hs hw ha => by
          obtain ⟨w', v', h₁, h₂, h₃, -, h₅⟩ := signalSet_spec depth w v p portSignalReadable hs hw ha
          exact ⟨w', v', h₁, h₂, h₃, h₅⟩)
        obj (w.signals obj) (Obj.signalSet (w.signals obj) bits) w₁.fuel w₁ v d₁.links (d₁.wf hw) (by
          have := d₁.armed; omega) (Nat.lt_succ_of_le (List.length_filter_le _ _))
      refine ⟨w', v', by simpa [World.signalSet, hb, World.portNotify] using hrun, d₁.trans d', ?_,
        fun b hb' hp => a' b hb' hp, r'⟩
      intro b hbl hp hp'
      rcases e' b hbl hp hp' with ⟨hob, hE⟩ | ⟨hz, hnz⟩
      · -- an edge of `obj` itself
        rw [show w₁.object = w.object from rfl] at hob
        refine ⟨by rw [hob]; exact hE.2.2, ?_⟩
        rw [hob]
        exact (d'.signals obj).and_flag (by rw [hsig₁]; exact hE.1)
      · -- an edge of a port signalled on the way
        exact ⟨(d₁.signals _).and_eq_zero hz, hnz⟩

/-- More rounds change nothing once the loop has returned. -/
theorem notifyLoop_mono {signal : World → Nat → Option World} {obj : Nat} {previous current : BitVec 32} :
    ∀ (rounds : Nat) (w w' : World), World.notifyLoop signal obj previous current rounds w = some w' →
      ∀ rounds', rounds ≤ rounds' → World.notifyLoop signal obj previous current rounds' w = some w'
  | 0, _, _, h, _, _ => by simp [World.notifyLoop] at h
  | _ + 1, _, _, _, 0, hle => absurd hle (by omega)
  | rounds + 1, w, w', h, rounds' + 1, hle => by
    rcases hsc : World.scan previous current w.fuel w (w.objBindings obj) with _ | ⟨W, _ | p⟩
    · simp [World.notifyLoop, hsc] at h
    · simpa [World.notifyLoop, hsc] using h
    · simp only [World.notifyLoop, hsc] at h ⊢
      rcases hsg : signal W p with _ | W'
      · simp [hsg] at h
      · simp only [hsg] at h ⊢
        exact notifyLoop_mono rounds W' w' h rounds' (by omega)

theorem port_notify_rounds_bounded (w : World) (v : View) (hs : w.links.Spells v [] none) (hw : w.Wf)
    (depth : Nat) (hd : w.armed < depth) (obj : Nat) (previous current bits : BitVec 32) :
    (∃ w', World.notifyLoop (fun w p => World.signalSet depth w p portSignalReadable) obj previous current
        ((v.watchers obj).length + 1) w = some w' ∧
      World.portNotify (fun w p => World.signalSet depth w p portSignalReadable) w obj previous current = some w') ∧
    ∃ w', World.signalSet depth w obj bits = some w' := by
  have hsig : SignalSpec depth fun w p => World.signalSet depth w p portSignalReadable := fun w v p hs hw ha => by
    obtain ⟨w', v', h₁, h₂, h₃, -, h₅⟩ := signalSet_spec depth w v p portSignalReadable hs hw ha
    exact ⟨w', v', h₁, h₂, h₃, h₅⟩
  -- the bindings of `obj` left to queue are among the ones on its list
  have hon : w.armedOn obj ≤ (v.watchers obj).length :=
    ((hw.nodup.filter _).length_le_of_subset fun b hb => by
      simp only [List.mem_filter, Bool.and_eq_true, decide_eq_true_eq] at hb
      exact (hs.mem_watchers obj b).2 ⟨hb.1, List.not_mem_nil, hb.2.1⟩)
  obtain ⟨w', -, hrun, -⟩ := notifyLoop_spec hsig obj previous current _ w v hs hw hd.le (Nat.lt_succ_of_le hon)
  obtain ⟨w'', -, hset, -⟩ := signalSet_spec depth w v obj bits hs hw hd
  exact ⟨⟨w', hrun, notifyLoop_mono _ w w' hrun _ (Nat.succ_le_of_lt (hs.watchers_length_lt obj))⟩, w'', hset⟩

end Archipelago.Obj.PortWorld
