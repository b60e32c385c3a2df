import Archipelago.Obj.PortSpec

/-! `Port::unbind` and `Port::~Port`. Each victim leaves its port's list through the link
before it, its object's list and its FIFO (`Spells.remove`); the loops take exactly the
bindings they match, in list order, and change nothing but links and list heads
(`World.Relinked`). The victims wait in `gone` until the slots go back to the arena. -/

namespace Archipelago.Obj.PortWorld

open Archipelago.Lib Function World

/-- The view without one binding, on every list. -/
def View.erase (v : View) (b : Nat) : View :=
  ⟨fun p => (v.bindings p).erase b, fun p => (v.ready p).erase b, fun o => (v.watchers o).erase b⟩

/-- The view without the bindings of `xs`, erased in order. -/
def View.eraseAll (v : View) (xs : List Nat) : View := xs.foldl View.erase v

@[simp] theorem View.eraseAll_nil (v : View) : v.eraseAll [] = v := rfl

@[simp] theorem View.eraseAll_cons (v : View) (b : Nat) (xs : List Nat) :
    v.eraseAll (b :: xs) = (v.erase b).eraseAll xs := rfl

/-- Only list links and list heads differ. -/
structure World.Relinked (w w' : World) : Prop where
  key : w'.key = w.key
  mask : w'.mask = w.mask
  pending : w'.pending = w.pending
  pendingSignals : w'.pendingSignals = w.pendingSignals
  object : w'.object = w.object
  port : w'.port = w.port
  signals : w'.signals = w.signals
  live : w'.live = w.live
  kind : w'.kind = w.kind

theorem World.Relinked.refl (w : World) : w.Relinked w := ⟨rfl, rfl, rfl, rfl, rfl, rfl, rfl, rfl, rfl⟩

theorem World.Relinked.trans {w₁ w₂ w₃ : World} (h₁ : w₁.Relinked w₂) (h₂ : w₂.Relinked w₃) :
    w₁.Relinked w₃ :=
  ⟨h₂.key.trans h₁.key, h₂.mask.trans h₁.mask, h₂.pending.trans h₁.pending,
    h₂.pendingSignals.trans h₁.pendingSignals, h₂.object.trans h₁.object, h₂.port.trans h₁.port,
    h₂.signals.trans h₁.signals, h₂.live.trans h₁.live, h₂.kind.trans h₁.kind⟩

/-- A binding found on one list only: erasing it there is erasing it everywhere. -/
theorem update_erase {L : Nat → List Nat} {p b : Nat} (hb : ∀ q, b ∈ L q → q = p) (q : Nat) :
    update L p ((L p).erase b) q = (L q).erase b := by
  by_cases hqp : q = p
  · rw [hqp, update_self]
  · rw [update_of_ne hqp, List.erase_of_not_mem fun hm => hqp (hb q hm)]

variable {w : World} {v : View} {gone : List Nat} {stale : Option Nat}

/-- Following the link at position `kept` of a port's list reaches the rest of it. -/
theorem chain_readLink {p : Nat} {kept rest : List Nat} {l : Link}
    (hc : Chain w.portNext 0 (w.portBindings p) (kept ++ rest)) (hl : LinkAt l kept) :
    Chain w.portNext 0 (w.readLink p l) rest := by
  cases l with
  | head =>
    simp only [LinkAt] at hl
    subst hl
    exact hc
  | next y =>
    obtain ⟨ks, rfl⟩ := List.getLast?_eq_some_iff.1 hl
    rw [List.append_assoc, List.singleton_append] at hc
    exact hc.of_append.2.2

theorem Links.Spells.ready_length_lt (h : w.links.Spells v gone stale) {p : Nat} (hst : stale ≠ some p) :
    (v.ready p).length < w.fuel :=
  Nat.lt_succ_of_le ((h.ready p hst).nodup.length_le_of_subset fun _ hy => ((h.mem_ready p hst _).1 hy).1)

theorem Links.Spells.bindings_length_lt (h : w.links.Spells v gone stale) (p : Nat) :
    (v.bindings p).length < w.fuel :=
  Nat.lt_succ_of_le ((h.bindings p).nodup.length_le_of_subset fun _ hy => ((h.mem_bindings p _).1 hy).1)

/-- The victims' slots go back to the arena: they leave `gone` and the live slots together. -/
theorem Links.Spells.free {l : Links} {vs : List Nat} (h : l.Spells v (vs ++ gone) stale) :
    ({ l with live := l.live.filter (· ∉ vs) }).Spells v gone stale := by
  refine ⟨h.bindings, h.watchers, h.ready, h.tail, fun p b => ?_, fun o b => ?_, fun p hp b => ?_⟩
  · rw [h.mem_bindings]
    simp only [List.mem_append, not_or, List.mem_filter, decide_eq_true_eq]
    tauto
  · rw [h.mem_watchers]
    simp only [List.mem_append, not_or, List.mem_filter, decide_eq_true_eq]
    tauto
  · rw [h.mem_ready p hp]
    simp only [List.mem_append, not_or, List.mem_filter, decide_eq_true_eq]
    tauto

/-! ### Taking a binding off every list -/

/-- One victim of `unbind` or `~Port`: taken off its port's list through the link before
it, off its object's list by `unlink_from_object`, off its FIFO by whatever the caller did
to the ready fields (`rn`, `rh`, `rt`), and its `port_next` reused for the victim chain. It
joins `gone`. -/
theorem Links.Spells.remove (h : w.links.Spells v gone stale) {b : Nat} (hb : b ∈ w.live) (hbg : b ∉ gone)
    {l : Link} {kept post : List Nat} (hsplit : v.bindings (w.port b) = kept ++ b :: post) (hl : LinkAt l kept)
    {rn rh rt : Nat → Nat} (x : Nat)
    (hready : ∀ q, stale ≠ some q → Chain rn 0 (rh q) ((v.ready q).erase b))
    (htail : ∀ q, stale ≠ some q → rt q = (((v.ready q).erase b).getLast?).getD 0) :
    ({ ((w.writeLink (w.port b) l (w.portNext b)).unlinkFromObject b) with
        readyNext := rn, readyHead := rh, readyTail := rt,
        portNext := update ((w.writeLink (w.port b) l (w.portNext b)).unlinkFromObject b).portNext b x }).links.Spells
      (v.erase b) (b :: gone) stale := by
  set p := w.port b
  have hnd := (h.bindings p).nodup
  rw [hsplit] at hnd
  have hbk : b ∉ kept := fun hm => (List.nodup_cons.1 (List.nodup_middle.1 hnd)).1 (List.mem_append_left _ hm)
  have hportq : ∀ q y, y ∈ v.bindings q → w.port y = q := fun q y hy => ((h.mem_bindings q y).1 hy).2.2
  have hbind : ∀ q, update v.bindings p (kept ++ post) q = (v.bindings q).erase b := fun q => by
    have he : (v.bindings p).erase b = kept ++ post := by
      rw [hsplit, List.erase_append_right _ hbk, List.erase_cons_head]
    rw [← he]
    exact update_erase (fun q hm => (hportq q b hm).symm) q
  -- the port lists after the write through the link, which later writes leave alone but for `b`
  have hports : ∀ q, Chain (l.setNext w.portNext (w.portNext b)) 0
      (l.setHead w.portBindings p (w.portNext b) q) ((v.bindings q).erase b) := fun q => by
    rw [← hbind q]
    exact chain_remove (h.bindings p) (h.bindings q)
      (fun hqp y hy hyq => hqp ((hportq q y hyq).symm.trans (hportq p y hy))) hsplit hl
  have hbw : b ∈ v.watchers (w.object b) := (h.mem_watchers _ b).2 ⟨hb, hbg, rfl⟩
  have hu := watchers_unlink (w := w.writeLink p l (w.portNext b)) (W := v.watchers)
    (fun o => by simpa [writeLink_eq] using h.watchers o)
    (fun o y hy => by simpa [writeLink_eq] using ((h.mem_watchers o y).1 hy).2.2)
    (by simpa [writeLink_eq] using hbw)
  refine ⟨fun q => ?_, fun o => ?_, hready, htail, fun q y => ?_, fun o y => ?_, fun q hq y => ?_⟩
  · simp only [links_portNext, links_portBindings, unlinkFromObject_portNext,
      unlinkFromObject_portBindings, writeLink_eq]
    exact (hports q).frame fun y hy =>
      update_of_ne (fun (e : y = b) => (h.bindings q).nodup.not_mem_erase (e ▸ hy)) _ _
  · show DChain _ _ 0 0 _ ((v.watchers o).erase b)
    rw [← update_erase (fun o hm => ((h.mem_watchers o b).1 hm).2.2.symm) o]
    simpa [writeLink_eq] using hu o
  · show y ∈ (v.bindings q).erase b ↔ _
    rw [(h.bindings q).nodup.mem_erase_iff, h.mem_bindings q y]
    simp [writeLink_eq]
    tauto
  · show y ∈ (v.watchers o).erase b ↔ _
    rw [(h.watchers o).nodup.mem_erase_iff, h.mem_watchers o y]
    simp [writeLink_eq]
    tauto
  · show y ∈ (v.ready q).erase b ↔ _
    rw [(h.ready q hq).nodup.mem_erase_iff, h.mem_ready q hq y]
    simp [writeLink_eq]
    tauto

/-! ### `unbind` -/

/-- One victim of `unbind`: off the port's list and its object's list, off the FIFO when
pending, and its `port_next` reused for the victim chain. -/
theorem Links.Spells.unbind_victim (h : w.links.Spells v gone none) {p b : Nat} (hbl : b ∈ w.live)
    (hbg : b ∉ gone) (hpb : w.port b = p) {l : Link} {kept post : List Nat}
    (hsplit : v.bindings p = kept ++ b :: post) (hl : LinkAt l kept) (x : Nat) :
    ∃ w₂, (∀ f : World → Option (World × List Nat),
        (if ((w.writeLink p l (w.portNext b)).unlinkFromObject b).pending b then
          ((w.writeLink p l (w.portNext b)).unlinkFromObject b).exciseReady p b >>= f
        else pure ((w.writeLink p l (w.portNext b)).unlinkFromObject b) >>= f) = f w₂) ∧
      ({ w₂ with portNext := update w₂.portNext b x }).links.Spells (v.erase b) (b :: gone) none ∧
      w.Relinked { w₂ with portNext := update w₂.portNext b x } := by
  subst hpb
  set w₁ := (w.writeLink (w.port b) l (w.portNext b)).unlinkFromObject b
  have hrel : w.Relinked w₁ := by
    constructor <;> simp [w₁, writeLink_eq]
  have hready : ∀ q, Chain w₁.readyNext 0 (w₁.readyHead q) (v.ready q) := fun q => by
    simpa [w₁, writeLink_eq] using h.ready q (by simp)
  have htail : ∀ q, w₁.readyTail q = ((v.ready q).getLast?).getD 0 := fun q => by
    simpa [w₁, writeLink_eq] using h.tail q (by simp)
  have hport : ∀ q y, y ∈ v.ready q → w.port y = q := fun q y hy => (h.mem_ready q (by simp) y |>.1 hy).2.2.1
  by_cases hpend : w.pending b
  · -- pending: the FIFO excise runs
    have hbr : b ∈ v.ready (w.port b) := (h.mem_ready _ (by simp) b).2 ⟨hbl, hbg, rfl, hpend⟩
    obtain ⟨rn, rh, rt, hex, hch, htl⟩ := exciseReady_spec (w := w₁) (R := v.ready)
      (fun q (_ : (none : Option Nat) ≠ some q) => hready q) (fun q _ => htail q) (fun q _ y hy => by simpa [w₁, writeLink_eq] using hport q y hy)
      (by simp) hbr (by simpa [w₁, World.fuel, writeLink_eq] using h.ready_length_lt (p := w.port b) (by simp))
    have herase := update_erase (fun q hm => (hport q b hm).symm)
    refine ⟨{ w₁ with readyNext := rn, readyHead := rh, readyTail := rt },
      fun f => by rw [if_pos (by rw [hrel.pending]; exact hpend), hex]; rfl, ?_, hrel.trans ⟨rfl, rfl, rfl, rfl, rfl, rfl, rfl, rfl, rfl⟩⟩
    exact h.remove hbl hbg hsplit hl x (fun q hq => herase q ▸ hch q hq) (fun q hq => herase q ▸ htl q hq)
  · -- not pending: on no FIFO, so the ready fields stay
    have hnot : ∀ q, (v.ready q).erase b = v.ready q := fun q =>
      List.erase_of_not_mem fun hm => hpend ((h.mem_ready q (by simp) b).1 hm).2.2.2
    refine ⟨w₁, fun f => by rw [if_neg (by rw [hrel.pending]; exact hpend)]; rfl, ?_, hrel.trans ⟨rfl, rfl, rfl, rfl, rfl, rfl, rfl, rfl, rfl⟩⟩
    exact h.remove hbl hbg hsplit hl x (fun q _ => (hnot q).symm ▸ hready q)
      (fun q _ => (hnot q).symm ▸ htail q)

/-- `unbind(k)`'s loop from the link at position `kept` of port `p`'s list: it takes the
bindings of the rest keyed `k`, in list order, onto the front of the victims, and keeps the
others. -/
theorem unbindLoop_spec (p k : Nat) : ∀ (rest : List Nat) (fuel : Nat) (w : World) (v : View) (l : Link)
    (kept victims : List Nat), w.links.Spells v victims none → v.bindings p = kept ++ rest →
    LinkAt l kept → rest.length < fuel →
    ∃ w', World.unbindLoop p k fuel w l victims =
        some (w', (rest.filter (w.key · = k)).reverse ++ victims) ∧
      w'.links.Spells (v.eraseAll (rest.filter (w.key · = k)))
        ((rest.filter (w.key · = k)).reverse ++ victims) none ∧ w.Relinked w'
  | _, 0, _, _, _, _, _, _, _, _, hf => absurd hf (Nat.not_lt_zero _)
  | [], fuel + 1, w, v, l, kept, victims, h, hsplit, hl, _ => by
    have hc : w.readLink p l = 0 :=
      (chain_readLink (by rw [← hsplit]; exact h.bindings p) hl : Chain w.portNext 0 (w.readLink p l) [])
    exact ⟨w, by simp [World.unbindLoop, hc], by simpa using h, .refl w⟩
  | b :: post, fuel + 1, w, v, l, kept, victims, h, hsplit, hl, hf => by
    obtain ⟨hrb, hb0, -⟩ :=
      (chain_readLink (by rw [← hsplit]; exact h.bindings p) hl : Chain w.portNext 0 (w.readLink p l) (b :: post))
    obtain ⟨hbl, hbg, hpb⟩ := (h.mem_bindings p b).1 (by rw [hsplit]; simp)
    have hf' : post.length < fuel := by simpa using hf
    by_cases hk : w.key b = k
    · -- a victim: off every list, then on with the same link
      obtain ⟨w₂, hw₂, hs, hrel⟩ := h.unbind_victim hbl hbg hpb hsplit hl (victims.headD 0)
      have hbk : b ∉ kept := fun hm => (List.nodup_cons.1 (List.nodup_middle.1
        (hsplit ▸ (h.bindings p).nodup))).1 (List.mem_append_left _ hm)
      have hsplit' : (v.erase b).bindings p = kept ++ post := by
        show (v.bindings p).erase b = _
        rw [hsplit, List.erase_append_right _ hbk, List.erase_cons_head]
      obtain ⟨w', hrun, hs', hrel'⟩ := unbindLoop_spec p k post fuel _ _ l kept (b :: victims) hs hsplit' hl hf'
      have hkeys : post.filter (fun y => w₂.key y = k) = post.filter (w.key · = k) := by
        rw [show w₂.key = w.key from hrel.key]
      rw [hkeys] at hrun hs'
      refine ⟨w', ?_, ?_, hrel.trans hrel'⟩
      · rw [World.unbindLoop]
        dsimp only
        rw [hrb, if_neg hb0, if_neg (not_not.2 hk), hw₂]
        simpa [List.filter_cons_of_pos, hk] using hrun
      · simpa [List.filter_cons_of_pos, hk] using hs'
    · -- kept: the walk moves on through `b`'s link
      obtain ⟨w', hrun, hs', hrel'⟩ := unbindLoop_spec p k post fuel w v (.next b) (kept ++ [b]) victims h
        (by simp [hsplit]) List.getLast?_concat hf'
      refine ⟨w', ?_, ?_, hrel'⟩
      · simp only [World.unbindLoop, hrb, hb0, hk, ne_eq, not_false_eq_true, if_false, if_true]
        simpa [List.filter_cons_of_neg, hk] using hrun
      · simpa [List.filter_cons_of_neg, hk] using hs'

/-- `Port::unbind(k)`: the bindings of port `p` keyed `k` leave every list and the arena,
the count is theirs, and `READABLE` is cleared when the FIFO is left empty. -/
theorem Links.Spells.unbind (h : w.links.Spells v [] none) (p k : Nat) :
    ∃ w', w.unbind p k = some (w', ((v.bindings p).filter (w.key · = k)).length) ∧
      w'.links.Spells (v.eraseAll ((v.bindings p).filter (w.key · = k))) [] none ∧
      w'.live = w.live.filter (· ∉ (v.bindings p).filter (w.key · = k)) ∧
      w'.signals = (if (v.eraseAll ((v.bindings p).filter (w.key · = k))).ready p = [] then
        update w.signals p (Obj.signalClear (w.signals p) portSignalReadable) else w.signals) ∧
      w.Relinked { w' with live := w.live, signals := w.signals } := by
  obtain ⟨w₁, hrun, hs, hrel⟩ := unbindLoop_spec p k (v.bindings p) w.fuel w v .head [] [] h (by simp) rfl
    (h.bindings_length_lt p)
  have hhead : w₁.readyHead p = 0 ↔ (v.eraseAll ((v.bindings p).filter (w.key · = k))).ready p = [] :=
    (hs.ready p (by simp)).eq_nil_iff
  have hfuel : w₁.fuel = w.fuel := by simp [World.fuel, hrel.live]
  rw [List.append_nil] at hrun
  refine ⟨{ (if w₁.readyHead p = 0 then w₁.clearSignals p portSignalReadable else w₁) with
      live := (if w₁.readyHead p = 0 then w₁.clearSignals p portSignalReadable else w₁).live.filter
        (· ∉ ((v.bindings p).filter (w.key · = k)).reverse) }, ?_, ?_, ?_, ?_, ?_⟩
  · rw [World.unbind, hrun]
    simp
  · have hf := Links.Spells.free hs
    split_ifs <;> exact hf
  · split_ifs <;> simp [World.clearSignals, hrel.live]
  · by_cases he : w₁.readyHead p = 0
    · simp [he, hhead.1 he, World.clearSignals, hrel.signals]
    · simp [he, mt hhead.2 he, hrel.signals]
  · split_ifs <;> exact ⟨hrel.key, hrel.mask, hrel.pending, hrel.pendingSignals, hrel.object, hrel.port, rfl,
      rfl, hrel.kind⟩

/-! ### `~Port` -/

theorem Links.Spells.dropReady {l : Links} (h : l.Spells v gone none) (p : Nat) : l.Spells v gone (some p) :=
  ⟨h.bindings, h.watchers, fun q _ => h.ready q (by simp), fun q _ => h.tail q (by simp), h.mem_bindings,
    h.mem_watchers, fun q _ => h.mem_ready q (by simp)⟩

/-- `~Port`'s loop: it takes every binding of port `p` from the head, each off its object's
list too, while the FIFO of `p`, dropped whole afterwards, is left as it is. -/
theorem destroyLoop_spec (p : Nat) : ∀ (rest : List Nat) (fuel : Nat) (w : World) (v : View)
    (victims : List Nat), w.links.Spells v victims (some p) → v.bindings p = rest → rest.length < fuel →
    ∃ w', World.destroyLoop p fuel w victims = some (w', rest.reverse ++ victims) ∧
      w'.links.Spells (v.eraseAll rest) (rest.reverse ++ victims) (some p) ∧ w.Relinked w'
  | _, 0, _, _, _, _, _, hf => absurd hf (Nat.not_lt_zero _)
  | [], fuel + 1, w, v, victims, h, hsplit, _ => by
    have hc : w.portBindings p = 0 := by simpa [hsplit] using h.bindings p
    exact ⟨w, by simp [World.destroyLoop, hc], by simpa using h, .refl w⟩
  | b :: post, fuel + 1, w, v, victims, h, hsplit, hf => by
    obtain ⟨hrb, hb0, -⟩ : w.portBindings p = b ∧ b ≠ 0 ∧ _ := by simpa [hsplit] using h.bindings p
    obtain ⟨hbl, hbg, hpb⟩ := (h.mem_bindings p b).1 (by rw [hsplit]; simp)
    -- `b` is on no other port's FIFO, and `p`'s is stale
    have hnot : ∀ q, some p ≠ some q → (v.ready q).erase b = v.ready q := fun q hq =>
      List.erase_of_not_mem fun hm => hq (by rw [← ((h.mem_ready q hq b).1 hm).2.2.1, hpb])
    have hready : ∀ q, some p ≠ some q →
        Chain ((w.writeLink (w.port b) .head (w.portNext b)).unlinkFromObject b).readyNext 0
          (((w.writeLink (w.port b) .head (w.portNext b)).unlinkFromObject b).readyHead q)
          ((v.ready q).erase b) := fun q hq => by
      rw [hnot q hq]
      simpa [writeLink_eq] using h.ready q hq
    have htail : ∀ q, some p ≠ some q →
        ((w.writeLink (w.port b) .head (w.portNext b)).unlinkFromObject b).readyTail q =
          (((v.ready q).erase b).getLast?).getD 0 := fun q hq => by
      rw [hnot q hq]
      simpa [writeLink_eq] using h.tail q hq
    have hs := h.remove (l := .head) hbl hbg
      (by rw [show w.port b = p from hpb, hsplit]; rfl) rfl (victims.headD 0) hready htail
    rw [show w.port b = p from hpb] at hs
    have hsplit' : (v.erase b).bindings p = post := by
      show (v.bindings p).erase b = post
      rw [hsplit, List.erase_cons_head]
    obtain ⟨w', hrun, hs', hrel'⟩ := destroyLoop_spec p post fuel _ _ (b :: victims) hs hsplit' (by simpa using hf)
    refine ⟨w', ?_, by simpa using hs', Relinked.trans ?_ hrel'⟩
    · rw [World.destroyLoop]
      dsimp only
      rw [hrb, if_neg hb0, List.reverse_cons, List.append_assoc, List.singleton_append]
      exact hrun
    · constructor <;> simp [writeLink_eq]

/-- `Port::~Port` and then the port is dead: its bindings leave every list and the arena,
and its FIFO is dropped. -/
theorem Links.Spells.destroy (h : w.links.Spells v [] none) (p : Nat) :
    ∃ w', w.destroy p = some w' ∧
      w'.links.Spells { v.eraseAll (v.bindings p) with ready := update (v.eraseAll (v.bindings p)).ready p [] }
        [] none ∧
      w'.live = w.live.filter (· ∉ v.bindings p) ∧ w'.kind = update w.kind p .dead ∧
      w.Relinked { w' with live := w.live, kind := w.kind } := by
  obtain ⟨w₁, hrun, hs, hrel⟩ := destroyLoop_spec p (v.bindings p) w.fuel w v [] (h.dropReady p) rfl
    (h.bindings_length_lt p)
  rw [List.append_nil] at hrun
  have hf := Links.Spells.free hs
  refine ⟨{ w₁ with
      readyHead := update w₁.readyHead p 0, readyTail := update w₁.readyTail p 0,
      live := w₁.live.filter (· ∉ (v.bindings p).reverse), kind := update w₁.kind p .dead },
    by simp [World.destroy, hrun], ?_, by simp [hrel.live], by rw [hrel.kind],
    ⟨hrel.key, hrel.mask, hrel.pending, hrel.pendingSignals, hrel.object, hrel.port, hrel.signals, rfl, rfl⟩⟩
  refine ⟨hf.bindings, hf.watchers, fun q _ => ?_, fun q _ => ?_, hf.mem_bindings, hf.mem_watchers,
    fun q _ y => ?_⟩
  · by_cases hqp : q = p
    · subst hqp
      simp
    · simpa [hqp] using hf.ready q (by simpa [eq_comm] using hqp)
  · by_cases hqp : q = p
    · subst hqp
      simp
    · simpa [hqp] using hf.tail q (by simpa [eq_comm] using hqp)
  · by_cases hqp : q = p
    · -- every binding of `p` was a victim
      subst hqp
      have hgone : ∀ y ∈ w₁.live, w₁.port y = q → y ∈ v.bindings q := fun y hy hyq =>
        (h.mem_bindings q y).2 ⟨show y ∈ w.live from hrel.live ▸ hy, List.not_mem_nil,
          show w.port y = q from hrel.port ▸ hyq⟩
      simp only [update_self, List.not_mem_nil, false_iff]
      simp only [links_live, links_port, links_pending, List.mem_filter, List.mem_reverse,
        decide_eq_true_eq, not_and, not_false_eq_true, true_and]
      exact fun hy hyq _ => hy.2 (hgone y hy.1 hyq)
    · simpa [hqp] using hf.mem_ready q (by simpa [eq_comm] using hqp) y

end Archipelago.Obj.PortWorld
