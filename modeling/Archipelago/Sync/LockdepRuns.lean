import Archipelago.Sync.LockdepPath
import Archipelago.Lib.Run

/-! The lockdep tables over whole runs. `EdgesInv` says what the edge table keeps: its edges join
registered identities, no edge is there twice, and the graph is acyclic. `learn_edge` keeps it,
since it adds an edge only when `path_exists` finds no path back (`pathExists_iff`);
`release_identity` keeps it, since its swap-remove loop leaves the edges that do not name the
identity, in some order (`purgeEdges_perm`). Every call that does not panic keeps the invariant
of the system (`Inv.step`), which holds at boot.

Under proper use, where an identity is released only while it is live, the free list also stays
free of repeats and of live identities (`IdentInv`), so `allocate_identity` never hands out a live
identity and `g_free_list` never overflows. -/

namespace Archipelago.Sync

open Archipelago.Lib Relation

/-! ### Identities and edges -/

/-- An identity that `record` accepts. -/
def Registered (t : Tables) (identity : Nat) : Prop :=
  identity ≠ 0 ∧ identity < t.nextIdentity ∧ identity ≤ maxLocks

theorem record_of_registered {t : Tables} {identity : Nat} (h : Registered t identity) :
    t.record identity = .ok (t.locks.getD (identity - 1) {}) :=
  if_neg (by have := h.2.1; have := h.2.2; have := h.1; omega)

theorem registered_of_record {t : Tables} {identity : Nat} {r : LockRecord}
    (h : t.record identity = .ok r) : Registered t identity := by
  unfold Tables.record at h
  split_ifs at h with hbad
  exact ⟨fun e => hbad (.inl e), by omega, by omega⟩

theorem record_eq_ok {t : Tables} {identity : Nat} {r : LockRecord}
    (h : t.record identity = .ok r) : r = t.locks.getD (identity - 1) {} := by
  rw [record_of_registered (registered_of_record h)] at h
  exact (Except.ok.inj h).symm

theorem links_append_singleton {es : List Edge} {a b u v : Nat} :
    Links (es ++ [⟨a, b⟩]) u v ↔ Links es u v ∨ (u = a ∧ v = b) := by
  constructor
  · rintro ⟨e, he, rfl, rfl⟩
    rcases List.mem_append.mp he with he | he
    · exact .inl ⟨e, he, rfl, rfl⟩
    · rw [List.mem_singleton] at he
      subst he
      exact .inr ⟨rfl, rfl⟩
  · rintro (⟨e, he, rfl, rfl⟩ | ⟨rfl, rfl⟩)
    · exact ⟨e, List.mem_append_left _ he, rfl, rfl⟩
    · exact ⟨⟨u, v⟩, List.mem_append_right _ (List.mem_singleton_self _), rfl, rfl⟩

/-- What the edge table keeps. -/
structure EdgesInv (t : Tables) : Prop where
  next_pos : 1 ≤ t.nextIdentity
  next_le : t.nextIdentity ≤ maxLocks + 1
  registered : ∀ e ∈ t.edges, 1 ≤ e.src ∧ e.src < t.nextIdentity ∧ 1 ≤ e.dst ∧
    e.dst < t.nextIdentity
  nodup : t.edges.Nodup
  acyclic : Acyclic (Links t.edges)
  bounded : t.edges.length ≤ maxEdges

theorem EdgesInv.inRange {t : Tables} (h : EdgesInv t) : InRange t.edges := by
  intro e he
  have := h.registered e he
  have := h.next_le
  omega

/-- The fields besides the edges are the same. -/
def SameIds (t t' : Tables) : Prop :=
  t'.nextIdentity = t.nextIdentity ∧ t'.locks = t.locks ∧ t'.freeList = t.freeList

theorem SameIds.refl (t : Tables) : SameIds t t := ⟨rfl, rfl, rfl⟩

theorem SameIds.trans {t₁ t₂ t₃ : Tables} (h₁ : SameIds t₁ t₂) (h₂ : SameIds t₂ t₃) :
    SameIds t₁ t₃ :=
  ⟨h₂.1.trans h₁.1, h₂.2.1.trans h₁.2.1, h₂.2.2.trans h₁.2.2⟩

/-! ### `learn_edge` -/

/-- The log line before a cycle panic ends in the panic, whatever `record` does. -/
theorem cycleReport_ne_ok (t : Tables) (src dst : Nat) (t' : Tables) :
    (do
      let _ ← t.record src
      let _ ← t.record dst
      (.error .dependencyCycle : Except Fault Tables)) ≠ .ok t' := by
  cases t.record src <;> cases t.record dst <;> intro h <;> cases h

/-- What `learn_edge` does when it does not panic: nothing, or record a new edge for which the
search found no path back, into a table with room. -/
theorem learnEdge_ok {t t' : Tables} {src dst : Nat} (h : learnEdge t src dst = .ok t') :
    t' = t ∨ (src ≠ 0 ∧ dst ≠ 0 ∧ (⟨src, dst⟩ : Edge) ∉ t.edges ∧
      (pathExists t.edges (maxLocks + 1) dst src (List.replicate maxLocks false)).1 = false ∧
      t.edges.length ≠ maxEdges ∧ t' = { t with edges := t.edges ++ [⟨src, dst⟩] }) := by
  unfold learnEdge at h
  split_ifs at h with h0 hdup hp hfull
  · exact .inl (Except.ok.inj h).symm
  · exact .inl (Except.ok.inj h).symm
  · exact absurd h (cycleReport_ne_ok t src dst t')
  · refine .inr ⟨fun e => h0 (.inl e), fun e => h0 (.inr e), fun hm => hdup ?_, by simpa using hp,
      hfull, (Except.ok.inj h).symm⟩
    exact List.any_eq_true.mpr ⟨_, hm, by simp⟩

theorem learnEdge_sameIds {t t' : Tables} {src dst : Nat} (h : learnEdge t src dst = .ok t') :
    SameIds t t' := by
  rcases learnEdge_ok h with rfl | ⟨-, -, -, -, -, rfl⟩
  · exact SameIds.refl _
  · exact ⟨rfl, rfl, rfl⟩

/-- `learn_edge` between registered identities keeps the edge table's invariant. -/
theorem EdgesInv.of_learnEdge {t t' : Tables} {src dst : Nat} (hi : EdgesInv t)
    (hs : src ≠ 0 → src < t.nextIdentity) (hd : dst ≠ 0 → dst < t.nextIdentity)
    (h : learnEdge t src dst = .ok t') : EdgesInv t' := by
  rcases learnEdge_ok h with rfl | ⟨hs0, hd0, hnew, hp, hroom, rfl⟩
  · exact hi
  have hback : ¬ReflTransGen (Links t.edges) dst src := fun hreach => by
    rw [← pathExists_iff hi.inRange (Nat.lt_succ_self _) hd0, hp] at hreach
    cases hreach
  refine ⟨hi.next_pos, hi.next_le, fun e he => ?_, ?_, ?_, ?_⟩
  · rcases List.mem_append.mp he with he | he
    · exact hi.registered e he
    · rw [List.mem_singleton] at he
      subst he
      exact ⟨Nat.one_le_iff_ne_zero.mpr hs0, hs hs0, Nat.one_le_iff_ne_zero.mpr hd0, hd hd0⟩
  · exact List.nodup_append.mpr ⟨hi.nodup, List.nodup_singleton _,
      fun a ha b hb => by rw [List.mem_singleton] at hb; subst hb; exact fun e => hnew (e ▸ ha)⟩
  · exact (hi.acyclic.insert hback).mono fun u v huv => links_append_singleton.mp huv
  · have := hi.bounded
    rw [List.length_append, List.length_singleton]
    omega

/-- A cycle panic of `learn_edge` between registered identities: the edge is new and its target
reaches its source. -/
theorem learnEdge_eq_cycle_iff {t : Tables} {src dst : Nat} (hr : InRange t.edges)
    (hs : Registered t src) (hd : Registered t dst) :
    learnEdge t src dst = .error .dependencyCycle ↔
      (⟨src, dst⟩ : Edge) ∉ t.edges ∧ ReflTransGen (Links t.edges) dst src := by
  rw [← pathExists_iff hr (Nat.lt_succ_self _) hd.1]
  unfold learnEdge
  rw [if_neg (by have := hs.1; have := hd.1; omega)]
  by_cases hdup : t.edges.any (fun e => e.src == src && e.dst == dst) = true
  · rw [if_pos hdup]
    obtain ⟨e, he, hee⟩ := List.any_eq_true.mp hdup
    have : e = ⟨src, dst⟩ := by
      simp only [Bool.and_eq_true, beq_iff_eq] at hee
      rw [← hee.1, ← hee.2]
    constructor
    · intro h
      cases h
    · rintro ⟨hnew, -⟩
      exact absurd (this ▸ he) hnew
  rw [if_neg hdup]
  have hnew : (⟨src, dst⟩ : Edge) ∉ t.edges := fun hm =>
    hdup (List.any_eq_true.mpr ⟨_, hm, by simp⟩)
  cases hp : (pathExists t.edges (maxLocks + 1) dst src (List.replicate maxLocks false)).1 with
  | true =>
    rw [if_pos rfl, record_of_registered hs, record_of_registered hd]
    exact ⟨fun _ => ⟨hnew, rfl⟩, fun _ => rfl⟩
  | false =>
    rw [if_neg (by decide)]
    constructor
    · intro h
      split_ifs at h
      cases h
    · rintro ⟨-, h⟩
      cases h

/-! ### The loops of `acquired` and `release_identity` -/

theorem learnFromHeld_sameIds {address identity : Nat} :
    ∀ {t t' : Tables} (hs : List HeldLock), learnFromHeld address identity t hs = .ok t' →
      SameIds t t' := by
  intro t t' hs
  induction hs generalizing t with
  | nil =>
    intro h
    rw [learnFromHeld_nil] at h
    rw [← Except.ok.inj h]
    exact SameIds.refl t
  | cons h hs ih =>
    intro hl
    rw [learnFromHeld_cons] at hl
    split_ifs at hl with ha
    obtain ⟨t₁, h₁, h₂⟩ := bind_eq_ok hl
    exact (learnEdge_sameIds h₁).trans (ih h₂)

/-- The edges `acquired` learns from the held locks keep the edge table's invariant, when the
identity acquired and those held are registered. -/
theorem EdgesInv.of_learnFromHeld {address identity : Nat} :
    ∀ {t t' : Tables} (hs : List HeldLock), EdgesInv t →
      (identity ≠ 0 → identity < t.nextIdentity) →
      (∀ h ∈ hs, h.identity ≠ 0 → h.identity < t.nextIdentity) →
      learnFromHeld address identity t hs = .ok t' → EdgesInv t' := by
  intro t t' hs
  induction hs generalizing t with
  | nil =>
    intro hi _ _ h
    rw [learnFromHeld_nil] at h
    rwa [← Except.ok.inj h]
  | cons h hs ih =>
    intro hi hd hheld hl
    rw [learnFromHeld_cons] at hl
    split_ifs at hl with ha
    obtain ⟨t₁, h₁, h₂⟩ := bind_eq_ok hl
    have hsame := learnEdge_sameIds h₁
    refine ih (hi.of_learnEdge (hheld h List.mem_cons_self) hd h₁) ?_ ?_ h₂
    · rw [hsame.1]
      exact hd
    · intro h' hm
      rw [hsame.1]
      exact hheld h' (List.mem_cons_of_mem h hm)

/-- The swap-remove loop keeps the edges that do not name the identity, in some order. -/
theorem purgeEdges_perm (identity : Nat) :
    ∀ (n i : Nat) (es : List Edge), es.length = i + n →
      (∀ e ∈ es.take i, e.names identity = false) →
      List.Perm (purgeEdges identity n i es) (es.filter fun e => !e.names identity) := by
  intro n
  induction n with
  | zero =>
    intro i es hlen hkeep
    rw [purgeEdges_zero, List.filter_eq_self.mpr]
    intro e he
    rw [List.take_of_length_le (by omega)] at hkeep
    rw [hkeep e he]
    rfl
  | succ n ih =>
    intro i es hlen hkeep
    have hi : i < es.length := by omega
    rw [purgeEdges_succ, List.getD_eq_getElem _ _ hi]
    by_cases hn : es[i].names identity = true
    · -- the edge at `i` goes, and the last one takes its slot
      rw [if_pos hn]
      refine (ih i _ (by rw [length_swapRemove hi]; omega)
        (by rwa [take_swapRemove hi])).trans ?_
      refine ((swapRemove_perm hi).filter _).trans (List.Perm.of_eq ?_)
      rw [List.eraseIdx_eq_take_drop_succ, List.filter_append]
      conv_rhs => rw [← List.take_append_drop i es, List.drop_eq_getElem_cons hi]
      rw [List.filter_append, List.filter_cons_of_neg (by rw [hn]; decide)]
    · -- the edge at `i` stays, and the loop looks at the next one
      rw [if_neg hn]
      refine ih (i + 1) es (by omega) fun e he => ?_
      rw [List.take_add_one, List.getElem?_eq_getElem hi] at he
      rcases List.mem_append.mp he with he | he
      · exact hkeep e he
      · rw [Option.mem_toList] at he
        rw [← Option.some.inj he]
        simpa using hn

/-- `release_identity` keeps the edge table's invariant. -/
theorem EdgesInv.of_releaseIdentity {t : Tables} (hi : EdgesInv t) (identity : Nat) :
    EdgesInv (releaseIdentity t identity) := by
  unfold releaseIdentity
  split_ifs with h0
  · exact hi
  have hp := purgeEdges_perm identity t.edges.length 0 t.edges (by omega) (by simp)
  have hsub : ∀ e ∈ purgeEdges identity t.edges.length 0 t.edges, e ∈ t.edges := fun e he =>
    List.mem_of_mem_filter (hp.mem_iff.mp he)
  refine ⟨hi.next_pos, hi.next_le, fun e he => hi.registered e (hsub e he), ?_, ?_, ?_⟩
  · exact hp.nodup_iff.mpr (hi.nodup.filter _)
  · exact hi.acyclic.mono fun u v ⟨e, he, hs, hd⟩ => ⟨e, hsub e he, hs, hd⟩
  · exact hp.length_eq.trans_le ((List.length_filter_le _ _).trans hi.bounded)

/-! ### The entry points -/

theorem acquired_ok {t t' : Tables} {c c' : Context} {address identity : Nat}
    (h : acquired t c address identity = .ok (t', c')) :
    ∃ t₁, learnFromHeld address identity t c.held = .ok t₁ ∧ c.held.length ≠ maxHeld ∧
      c' = { c with held := c.held ++ [⟨address, identity⟩] } ∧
      ((identity = 0 ∧ t' = t₁) ∨
        (Registered t₁ identity ∧ (t₁.locks.getD (identity - 1) {}).owned = false ∧
          t' = t₁.setRecord identity { ownerThread := c.threadId, owned := true })) := by
  unfold acquired at h
  cases h₁ : learnFromHeld address identity t c.held with
  | error f =>
    rw [h₁] at h
    cases h
  | ok t₁ =>
    rw [h₁] at h
    simp only [bind, Except.bind, throw, throwThe, MonadExceptOf.throw, pure, Except.pure] at h
    refine ⟨t₁, rfl, ?_⟩
    split_ifs at h with hc h0
    · obtain ⟨rfl, rfl⟩ := Prod.mk.inj (Except.ok.inj h)
      exact ⟨hc, rfl, .inl ⟨h0, rfl⟩⟩
    cases hr : t₁.record identity with
    | error f =>
      rw [hr] at h
      cases h
    | ok lock =>
      rw [hr] at h
      dsimp only at h
      have hlock := record_eq_ok hr
      cases ho : lock.owned with
      | true =>
        rw [ho] at h
        cases h
      | false =>
        rw [ho] at h
        obtain ⟨rfl, rfl⟩ := Prod.mk.inj (Except.ok.inj h)
        exact ⟨hc, rfl, .inr ⟨registered_of_record hr, hlock ▸ ho, rfl⟩⟩

theorem released_ok {t t' : Tables} {c c' : Context} {address identity : Nat}
    (h : released t c address identity = .ok (t', c')) :
    c.held.getLast?.map (·.address) = some address ∧ c' = { c with held := c.held.dropLast } ∧
      (identity = 0 ∧ t' = t ∨
        (Registered t identity ∧ t' = t.setRecord identity { t.locks.getD (identity - 1) {} with owned := false })) := by
  unfold released at h
  simp only [bind, Except.bind, throw, throwThe, MonadExceptOf.throw, pure, Except.pure] at h
  split_ifs at h with hl h0
  · obtain ⟨rfl, rfl⟩ := Prod.mk.inj (Except.ok.inj h)
    exact ⟨not_not.mp hl, rfl, .inl ⟨h0, rfl⟩⟩
  refine ⟨not_not.mp hl, ?_⟩
  cases hr : t.record identity with
  | error f =>
    rw [hr] at h
    cases h
  | ok lock =>
    rw [hr] at h
    dsimp only at h
    have hlock := record_eq_ok hr
    split_ifs at h
    obtain ⟨rfl, rfl⟩ := Prod.mk.inj (Except.ok.inj h)
    exact ⟨rfl, .inr ⟨registered_of_record hr, hlock ▸ rfl⟩⟩

theorem allocateIdentity_ok {t t' : Tables} {identity : Nat}
    (h : allocateIdentity t = .ok (t', identity)) :
    t'.edges = t.edges ∧ t'.locks = t.locks.set (identity - 1) {} ∧
      ((t.freeList = t'.freeList ++ [identity] ∧ t'.nextIdentity = t.nextIdentity) ∨
        (t.freeList = [] ∧ identity = t.nextIdentity ∧ t.nextIdentity ≤ maxLocks ∧
          t'.freeList = [] ∧ t'.nextIdentity = t.nextIdentity + 1)) := by
  unfold allocateIdentity at h
  cases hl : t.freeList.getLast? with
  | some x =>
    rw [hl] at h
    obtain ⟨rfl, rfl⟩ := Prod.mk.inj (Except.ok.inj h)
    exact ⟨rfl, rfl, .inl ⟨(List.dropLast_append_getLast? _ hl).symm, rfl⟩⟩
  | none =>
    rw [hl] at h
    have hnil := List.getLast?_eq_none_iff.mp hl
    split_ifs at h with hfull
    obtain ⟨rfl, rfl⟩ := Prod.mk.inj (Except.ok.inj h)
    exact ⟨rfl, rfl, .inr ⟨hnil, rfl, by omega, hnil, rfl⟩⟩


/-! ### One call of the system -/

theorem step_allocateIdentity {w w' : World} {o : Option Nat}
    (h : w.step .allocateIdentity = .ok (w', o)) :
    ∃ identity, allocateIdentity w.tables = .ok (w'.tables, identity) ∧ w'.contexts = w.contexts ∧
      o = some identity := by
  obtain ⟨⟨t, identity⟩, ha, hw⟩ := bind_eq_ok h
  obtain ⟨rfl, rfl⟩ := Prod.mk.inj (Except.ok.inj hw)
  exact ⟨identity, ha, rfl, rfl⟩

theorem step_releaseIdentity {w w' : World} {identity : Nat} {o : Option Nat}
    (h : w.step (.releaseIdentity identity) = .ok (w', o)) :
    w' = { w with tables := releaseIdentity w.tables identity } :=
  (Prod.mk.inj (Except.ok.inj h)).1.symm

theorem step_assertNotOwned {w w' : World} {identity : Nat} {o : Option Nat}
    (h : w.step (.assertNotOwned identity) = .ok (w', o)) : w' = w := by
  obtain ⟨u, -, hw⟩ := bind_eq_ok h
  exact (Prod.mk.inj (Except.ok.inj hw)).1.symm

theorem step_acquired {w w' : World} {ctx address identity : Nat} {o : Option Nat}
    (h : w.step (.acquired ctx address identity) = .ok (w', o)) :
    ∃ c', acquired w.tables (w.contexts ctx) address identity = .ok (w'.tables, c') ∧
      w'.contexts = Function.update w.contexts ctx c' := by
  obtain ⟨⟨t, c⟩, ha, hw⟩ := bind_eq_ok h
  obtain ⟨rfl, rfl⟩ := Prod.mk.inj (Except.ok.inj hw)
  exact ⟨c, ha, rfl⟩

theorem step_released {w w' : World} {ctx address identity : Nat} {o : Option Nat}
    (h : w.step (.released ctx address identity) = .ok (w', o)) :
    ∃ c', released w.tables (w.contexts ctx) address identity = .ok (w'.tables, c') ∧
      w'.contexts = Function.update w.contexts ctx c' := by
  obtain ⟨⟨t, c⟩, ha, hw⟩ := bind_eq_ok h
  obtain ⟨rfl, rfl⟩ := Prod.mk.inj (Except.ok.inj hw)
  exact ⟨c, ha, rfl⟩


/-! ### The invariant of the system -/

theorem EdgesInv.setRecord {t : Tables} (hi : EdgesInv t) (identity : Nat) (r : LockRecord) :
    EdgesInv (t.setRecord identity r) :=
  ⟨hi.next_pos, hi.next_le, hi.registered, hi.nodup, hi.acyclic, hi.bounded⟩

theorem releaseIdentity_nextIdentity (t : Tables) (identity : Nat) :
    (releaseIdentity t identity).nextIdentity = t.nextIdentity := by
  unfold releaseIdentity
  split_ifs <;> rfl

theorem acyclic_nil : Acyclic (Links []) := by
  intro a h
  obtain ⟨b, ⟨e, he, -⟩, -⟩ := TransGen.head'_iff.mp h
  cases he

/-- The loop of `acquired` gets through only when the lock is not held yet. -/
theorem learnFromHeld_not_held {address identity : Nat} :
    ∀ {t t' : Tables} (hs : List HeldLock), learnFromHeld address identity t hs = .ok t' →
      address ∉ hs.map (·.address) := by
  intro t t' hs
  induction hs generalizing t with
  | nil => exact fun _ => List.not_mem_nil
  | cons h hs ih =>
    intro hl
    rw [learnFromHeld_cons] at hl
    split_ifs at hl with ha
    obtain ⟨t₁, -, h₂⟩ := bind_eq_ok hl
    rw [List.map_cons, List.mem_cons, not_or]
    exact ⟨Ne.symm ha, ih h₂⟩

/-- What the held-lock stack of a context keeps: it fits `held`, holds no lock twice, and names
identities handed out below `next`. -/
structure HeldInv (next : Nat) (c : Context) : Prop where
  length_le : c.held.length ≤ maxHeld
  nodup : (c.held.map (·.address)).Nodup
  registered : ∀ h ∈ c.held, h.identity ≠ 0 → h.identity < next

theorem HeldInv.mono {next next' : Nat} {c : Context} (hc : HeldInv next c) (hn : next ≤ next') :
    HeldInv next' c :=
  ⟨hc.length_le, hc.nodup, fun h hm h0 => lt_of_lt_of_le (hc.registered h hm h0) hn⟩

/-- The stack `acquired` pushes onto: the lock was not held, and the stack had room. -/
theorem HeldInv.push {next : Nat} {c : Context} (hc : HeldInv next c) {address identity : Nat}
    (hnew : address ∉ c.held.map (·.address)) (hroom : c.held.length ≠ maxHeld)
    (hd : identity ≠ 0 → identity < next) :
    HeldInv next { c with held := c.held ++ [⟨address, identity⟩] } := by
  refine ⟨?_, ?_, fun h hm h0 => ?_⟩
  · have := hc.length_le
    rw [List.length_append, List.length_singleton]
    omega
  · rw [List.map_append, List.map_singleton]
    exact hc.nodup.append (List.nodup_singleton _) (List.disjoint_singleton.mpr hnew)
  · rcases List.mem_append.mp hm with hm | hm
    · exact hc.registered h hm h0
    · rw [List.mem_singleton] at hm
      subst hm
      exact hd h0

/-- The stack `released` pops. -/
theorem HeldInv.pop {next : Nat} {c : Context} (hc : HeldInv next c) :
    HeldInv next { c with held := c.held.dropLast } :=
  ⟨(List.dropLast_sublist _).length_le.trans hc.length_le,
    ((List.dropLast_sublist _).map _).nodup hc.nodup,
    fun h hm => hc.registered h (List.dropLast_subset _ hm)⟩

/-- What every world reached keeps: the edge table's invariant, and every context's stack. -/
structure Inv (w : World) : Prop where
  edges : EdgesInv w.tables
  held : ∀ i, HeldInv w.tables.nextIdentity (w.contexts i)

theorem Inv.init (threads : Nat → Nat) : Inv (World.init threads) where
  edges := ⟨le_rfl, (by decide : 1 ≤ maxLocks + 1), nofun, List.nodup_nil, acyclic_nil,
    Nat.zero_le _⟩
  held _ := ⟨Nat.zero_le _, List.nodup_nil, nofun⟩

/-- Updating one context keeps a property every context has, when the new one has it. -/
theorem forall_update {p : Context → Prop} {f : Nat → Context} {ctx : Nat} {c : Context}
    (hf : ∀ i, p (f i)) (hc : p c) : ∀ i, p (Function.update f ctx c i) := by
  intro i
  by_cases hi : i = ctx
  · subst hi
    rwa [Function.update_self]
  · rw [Function.update_of_ne hi]
    exact hf i

/-- Every call that does not panic keeps the invariant. -/
theorem Inv.step {w w' : World} {c : Call} {o : Option Nat} (hi : Inv w)
    (h : w.step c = .ok (w', o)) : Inv w' := by
  cases c with
  | allocateIdentity =>
    obtain ⟨identity, ha, hc, -⟩ := step_allocateIdentity h
    obtain ⟨hedges, -, hcase⟩ := allocateIdentity_ok ha
    -- the next identity stays, or grows by one from at most `maxLocks`
    have hnext : w.tables.nextIdentity ≤ w'.tables.nextIdentity ∧
        w'.tables.nextIdentity ≤ maxLocks + 1 := by
      rcases hcase with ⟨-, hn⟩ | ⟨-, -, hle, -, hn⟩
      · exact ⟨hn.ge, hn ▸ hi.edges.next_le⟩
      · omega
    refine ⟨⟨by have := hi.edges.next_pos; omega, hnext.2, fun e he => ?_, hedges ▸ hi.edges.nodup,
      hedges ▸ hi.edges.acyclic, hedges ▸ hi.edges.bounded⟩, fun i => ?_⟩
    · have := hi.edges.registered e (hedges ▸ he)
      omega
    · rw [hc]
      exact (hi.held i).mono hnext.1
  | releaseIdentity identity =>
    rw [step_releaseIdentity h]
    refine ⟨hi.edges.of_releaseIdentity identity, fun i => ?_⟩
    show HeldInv (releaseIdentity w.tables identity).nextIdentity (w.contexts i)
    rw [releaseIdentity_nextIdentity]
    exact hi.held i
  | assertNotOwned identity =>
    rw [step_assertNotOwned h]
    exact hi
  | acquired ctx address identity =>
    obtain ⟨c', ha, hc⟩ := step_acquired h
    obtain ⟨t₁, hl, hroom, rfl, hcase⟩ := acquired_ok ha
    have hsame := learnFromHeld_sameIds _ hl
    -- the identity acquired is checked by `record` only after the loop, which keeps the next one
    have hd : identity ≠ 0 → identity < w.tables.nextIdentity := fun h0 => by
      rcases hcase with ⟨h0', -⟩ | ⟨hreg, -, -⟩
      · exact absurd h0' h0
      · exact hsame.1 ▸ hreg.2.1
    have h₁ := hi.edges.of_learnFromHeld _ hd (hi.held ctx).registered hl
    have hnext : w'.tables.nextIdentity = w.tables.nextIdentity := by
      rcases hcase with ⟨-, ht⟩ | ⟨-, -, ht⟩ <;> rw [ht] <;> exact hsame.1
    refine ⟨?_, ?_⟩
    · rcases hcase with ⟨-, ht⟩ | ⟨-, -, ht⟩ <;> rw [ht]
      · exact h₁
      · exact h₁.setRecord _ _
    · rw [hc, hnext]
      exact forall_update hi.held ((hi.held ctx).push (learnFromHeld_not_held _ hl) hroom hd)
  | released ctx address identity =>
    obtain ⟨c', ha, hc⟩ := step_released h
    obtain ⟨-, rfl, hcase⟩ := released_ok ha
    have hnext : w'.tables.nextIdentity = w.tables.nextIdentity := by
      rcases hcase with ⟨-, ht⟩ | ⟨-, ht⟩
      · rw [ht]
      · rw [ht]
        rfl
    refine ⟨?_, ?_⟩
    · rcases hcase with ⟨-, ht⟩ | ⟨-, ht⟩ <;> rw [ht]
      · exact hi.edges
      · exact hi.edges.setRecord _ _
    · rw [hc, hnext]
      exact forall_update hi.held (hi.held ctx).pop

/-! ### Whole runs -/

instance (t : Tables) (identity : Nat) : Decidable (Registered t identity) :=
  inferInstanceAs (Decidable (_ ∧ _ ∧ _))

/-- In every world a run of lockdep calls reaches from boot without a panic, the learned order is
acyclic and has no edge twice, fits `g_edges`, and joins identities handed out so far. -/
theorem Inv.of_reaches {threads : Nat → Nat} {w : World}
    (hw : Reaches World.step (fun _ _ => True) (World.init threads) w) : Inv w :=
  Reaches.invariant Inv (Inv.init threads) (fun _ _ _ _ hs _ hst => hs.step hst) hw

theorem lockdep_order_acyclic {threads : Nat → Nat} {w : World}
    (hw : Reaches World.step (fun _ _ => True) (World.init threads) w) :
    Acyclic (Links w.tables.edges) ∧ w.tables.edges.Nodup ∧ w.tables.edges.length ≤ maxEdges ∧
      ∀ e ∈ w.tables.edges, 1 ≤ e.src ∧ e.src < w.tables.nextIdentity ∧ 1 ≤ e.dst ∧
        e.dst < w.tables.nextIdentity := by
  have hi := Inv.of_reaches hw
  exact ⟨hi.edges.acyclic, hi.edges.nodup, hi.edges.bounded, hi.edges.registered⟩

/-- In every such world, `learn_edge` between identities handed out panics with a dependency
cycle exactly when the edge is new and its target already reaches its source. -/
theorem learn_edge_cycle_exactly {threads : Nat → Nat} {w : World}
    (hw : Reaches World.step (fun _ _ => True) (World.init threads) w) {src dst : Nat}
    (hs : Registered w.tables src) (hd : Registered w.tables dst) :
    learnEdge w.tables src dst = .error .dependencyCycle ↔
      (⟨src, dst⟩ : Edge) ∉ w.tables.edges ∧ ReflTransGen (Links w.tables.edges) dst src := by
  exact learnEdge_eq_cycle_iff (Inv.of_reaches hw).edges.inRange hs hd

/-- In every such world, no context holds more than `CONFIG_LOCKDEP_MAX_HELD` locks or one lock
twice, and every identity it holds, but 0, has been handed out. -/
theorem held_stacks_fit {threads : Nat → Nat} {w : World}
    (hw : Reaches World.step (fun _ _ => True) (World.init threads) w) (i : Nat) :
    (w.contexts i).held.length ≤ maxHeld ∧ ((w.contexts i).held.map (·.address)).Nodup ∧
      ∀ h ∈ (w.contexts i).held, h.identity ≠ 0 → h.identity < w.tables.nextIdentity := by
  have hc := (Inv.of_reaches hw).held i
  exact ⟨hc.length_le, hc.nodup, hc.registered⟩

/-- Context 0 takes lock 1 and then lock 2. -/
def nestedRun : List Call :=
  [.allocateIdentity, .allocateIdentity, .acquired 0 16 1, .acquired 0 32 2]

/-- The world that run ends in: the edge `1 → 2` learned, both locks owned by thread 0. -/
def nestedWorld : World where
  tables := ⟨[⟨0, true⟩, ⟨0, true⟩] ++ List.replicate (maxLocks - 2) {}, [⟨1, 2⟩], [], 3⟩
  contexts := Function.update (Function.update (fun _ => ⟨[], 0⟩) 0 ⟨[⟨16, 1⟩], 0⟩) 0
    ⟨[⟨16, 1⟩, ⟨32, 2⟩], 0⟩

theorem nestedWorld_reaches :
    Reaches World.step (fun _ _ => True) (World.init fun _ => 0) nestedWorld :=
  reaches_of_runOk nestedRun .start rfl

theorem nested_order_acyclic :
    Acyclic (Links nestedWorld.tables.edges) ∧ nestedWorld.tables.edges.Nodup ∧
      nestedWorld.tables.edges.length ≤ maxEdges ∧
      ∀ e ∈ nestedWorld.tables.edges, 1 ≤ e.src ∧ e.src < nestedWorld.tables.nextIdentity ∧
        1 ≤ e.dst ∧ e.dst < nestedWorld.tables.nextIdentity :=
  lockdep_order_acyclic nestedWorld_reaches

theorem nested_reverse_edge_is_cycle :
    Registered nestedWorld.tables 2 ∧ Registered nestedWorld.tables 1 ∧
      (learnEdge nestedWorld.tables 2 1 = .error .dependencyCycle ↔
        (⟨2, 1⟩ : Edge) ∉ nestedWorld.tables.edges ∧
          ReflTransGen (Links nestedWorld.tables.edges) 1 2) :=
  ⟨by decide, by decide, learn_edge_cycle_exactly nestedWorld_reaches (by decide) (by decide)⟩

theorem nested_held_stack_fits :
    (nestedWorld.contexts 0).held.length ≤ maxHeld ∧
      ((nestedWorld.contexts 0).held.map (·.address)).Nodup ∧
      ∀ h ∈ (nestedWorld.contexts 0).held, h.identity ≠ 0 →
        h.identity < nestedWorld.tables.nextIdentity :=
  held_stacks_fit nestedWorld_reaches 0


/-! ### Identities under proper use -/

/-- An identity handed out and not released since. -/
def Live (t : Tables) (identity : Nat) : Prop :=
  identity ≠ 0 ∧ identity < t.nextIdentity ∧ identity ∉ t.freeList

instance (t : Tables) (identity : Nat) : Decidable (Live t identity) :=
  inferInstanceAs (Decidable (_ ∧ _ ∧ _))

/-- Proper use of the interface: an identity is released only while it is live. -/
def ProperUse (w : World) : Call → Prop
  | .releaseIdentity identity => Live w.tables identity
  | _ => True

/-- What the free list keeps under proper use: no identity twice, and only identities handed
out. -/
structure IdentInv (t : Tables) : Prop where
  next_pos : 1 ≤ t.nextIdentity
  next_le : t.nextIdentity ≤ maxLocks + 1
  nodup : t.freeList.Nodup
  free_lt : ∀ x ∈ t.freeList, x ≠ 0 ∧ x < t.nextIdentity

theorem IdentInv.init : IdentInv Tables.init :=
  ⟨le_rfl, by decide, List.nodup_nil, nofun⟩

theorem IdentInv.of_eq {t t' : Tables} (hi : IdentInv t) (hn : t'.nextIdentity = t.nextIdentity)
    (hf : t'.freeList = t.freeList) : IdentInv t' :=
  ⟨hn ▸ hi.next_pos, hn ▸ hi.next_le, hf ▸ hi.nodup, hn ▸ hf ▸ hi.free_lt⟩

theorem releaseIdentity_freeList {t : Tables} {identity : Nat} (h0 : identity ≠ 0) :
    (releaseIdentity t identity).freeList = t.freeList ++ [identity] := by
  unfold releaseIdentity
  rw [if_neg h0]

/-- The lock-record calls change neither the free list nor the next identity. -/
theorem acquired_sameIds {t t' : Tables} {c c' : Context} {address identity : Nat}
    (h : acquired t c address identity = .ok (t', c')) :
    t'.nextIdentity = t.nextIdentity ∧ t'.freeList = t.freeList := by
  obtain ⟨t₁, hl, -, -, hcase⟩ := acquired_ok h
  have hsame := learnFromHeld_sameIds _ hl
  rcases hcase with ⟨-, rfl⟩ | ⟨-, -, rfl⟩
  · exact ⟨hsame.1, hsame.2.2⟩
  · exact ⟨hsame.1, hsame.2.2⟩

theorem released_sameIds {t t' : Tables} {c c' : Context} {address identity : Nat}
    (h : released t c address identity = .ok (t', c')) :
    t'.nextIdentity = t.nextIdentity ∧ t'.freeList = t.freeList := by
  obtain ⟨-, -, ⟨-, rfl⟩ | ⟨-, rfl⟩⟩ := released_ok h
  · exact ⟨rfl, rfl⟩
  · exact ⟨rfl, rfl⟩

/-- Every properly used call that does not panic keeps the free list's invariant. -/
theorem IdentInv.step {w w' : World} {c : Call} {o : Option Nat} (hi : IdentInv w.tables)
    (hp : ProperUse w c) (h : w.step c = .ok (w', o)) : IdentInv w'.tables := by
  cases c with
  | allocateIdentity =>
    obtain ⟨identity, ha, -, -⟩ := step_allocateIdentity h
    obtain ⟨-, -, ⟨hf, hn⟩ | ⟨-, -, hle, hf, hn⟩⟩ := allocateIdentity_ok ha
    · -- the identity on top of the free list leaves it
      have hnd : (w'.tables.freeList ++ [identity]).Nodup := hf ▸ hi.nodup
      refine ⟨hn ▸ hi.next_pos, hn ▸ hi.next_le, (List.nodup_append.mp hnd).1, fun x hx => ?_⟩
      rw [hn]
      exact hi.free_lt x (hf ▸ List.mem_append_left _ hx)
    · exact ⟨by omega, by omega, hf ▸ List.nodup_nil, fun x hx => nomatch hf ▸ hx⟩
  | releaseIdentity identity =>
    -- proper use releases a live identity, which is not on the free list yet
    obtain ⟨h0, hlt, hfree⟩ := hp
    rw [step_releaseIdentity h]
    show IdentInv (releaseIdentity w.tables identity)
    have hn := releaseIdentity_nextIdentity w.tables identity
    have hf := releaseIdentity_freeList (t := w.tables) h0
    refine ⟨hn ▸ hi.next_pos, hn ▸ hi.next_le, ?_, fun x hx => ?_⟩
    · rw [hf]
      exact hi.nodup.append (List.nodup_singleton _) (List.disjoint_singleton.mpr hfree)
    · rw [hf] at hx
      rw [hn]
      rcases List.mem_append.mp hx with hx | hx
      · exact hi.free_lt x hx
      · rw [List.mem_singleton] at hx
        exact hx ▸ ⟨h0, hlt⟩
  | assertNotOwned identity =>
    rw [step_assertNotOwned h]
    exact hi
  | acquired ctx address identity =>
    obtain ⟨c', ha, -⟩ := step_acquired h
    obtain ⟨hn, hf⟩ := acquired_sameIds ha
    exact hi.of_eq hn hf
  | released ctx address identity =>
    obtain ⟨c', ha, -⟩ := step_released h
    obtain ⟨hn, hf⟩ := released_sameIds ha
    exact hi.of_eq hn hf

/-- While an identity is live, the free list has room for it: it holds identities handed out,
each once, and not this one. -/
theorem IdentInv.length_freeList_lt {t : Tables} (hi : IdentInv t) {identity : Nat}
    (hl : Live t identity) : t.freeList.length < maxLocks := by
  have hsub : t.freeList.toFinset ⊆ (Finset.Ico 1 t.nextIdentity).erase identity := by
    intro x hx
    rw [List.mem_toFinset] at hx
    obtain ⟨hx0, hxlt⟩ := hi.free_lt x hx
    rw [Finset.mem_erase, Finset.mem_Ico]
    exact ⟨fun e => hl.2.2 (e ▸ hx), Nat.one_le_iff_ne_zero.mpr hx0, hxlt⟩
  have hmem : identity ∈ Finset.Ico 1 t.nextIdentity :=
    Finset.mem_Ico.mpr ⟨Nat.one_le_iff_ne_zero.mpr hl.1, hl.2.1⟩
  have hcard := Finset.card_le_card hsub
  rw [List.toFinset_card_of_nodup hi.nodup, Finset.card_erase_of_mem hmem, Nat.card_Ico] at hcard
  have := hi.next_le
  have := hl.1
  have := hl.2.1
  omega

/-- What `allocate_identity` hands out under the free list's invariant: an identity inside
`g_locks` that is not live, and is live afterwards. -/
theorem IdentInv.allocateIdentity {t t' : Tables} {identity : Nat} (hi : IdentInv t)
    (h : allocateIdentity t = .ok (t', identity)) :
    1 ≤ identity ∧ identity ≤ maxLocks ∧ ¬Live t identity ∧ Live t' identity := by
  obtain ⟨-, -, ⟨hf, hn⟩ | ⟨hf, rfl, hle, hf', hn⟩⟩ := allocateIdentity_ok h
  · -- reused from the top of the free list, where it stood once
    have hmem : identity ∈ t.freeList := hf ▸ List.mem_append_right _ (List.mem_singleton_self _)
    obtain ⟨h0, hlt⟩ := hi.free_lt identity hmem
    have hnot : identity ∉ t'.freeList := fun hm =>
      List.disjoint_of_nodup_append (hf ▸ hi.nodup) hm (List.mem_singleton_self _)
    have := hi.next_le
    exact ⟨Nat.one_le_iff_ne_zero.mpr h0, by omega, fun hl => hl.2.2 hmem,
      ⟨h0, hn ▸ hlt, hnot⟩⟩
  · -- fresh, one past every identity handed out
    have := hi.next_pos
    exact ⟨this, hle, fun hl => lt_irrefl _ hl.2.1, ⟨by omega, by omega, hf' ▸ List.not_mem_nil⟩⟩

/-- Under proper use, where an identity is released only while it is live, a release writes
`g_locks[identity - 1]` and `g_free_list[g_free_count]` inside their tables, and
`allocate_identity` hands out an identity inside `g_locks` that is not live, and makes it live:
no two locks share an identity. -/
theorem proper_use_identities {threads : Nat → Nat} {w : World}
    (hw : Reaches World.step ProperUse (World.init threads) w) :
    (∀ identity, Live w.tables identity →
      identity - 1 < maxLocks ∧ w.tables.freeList.length < maxLocks) ∧
    ∀ t' identity, allocateIdentity w.tables = .ok (t', identity) →
      1 ≤ identity ∧ identity ≤ maxLocks ∧ ¬Live w.tables identity ∧ Live t' identity := by
  have hi : IdentInv w.tables :=
    Reaches.invariant (fun w => IdentInv w.tables) IdentInv.init
      (fun _ _ _ _ hs hp hst => hs.step hp hst) hw
  refine ⟨fun identity hl => ⟨?_, hi.length_freeList_lt hl⟩, fun t' identity h => hi.allocateIdentity h⟩
  have := hl.1
  have := hl.2.1
  have := hi.next_le
  omega

/-- Two locks registered, the first released, and a third registered in its place. -/
def reuseWorld : World :=
  ⟨⟨List.replicate maxLocks {}, [], [], 3⟩, fun _ => ⟨[], 0⟩⟩

theorem reuseWorld_reaches :
    Reaches World.step ProperUse (World.init fun _ => 0) reuseWorld :=
  .step (i := .allocateIdentity) (o := some 1)
    (.step (i := .releaseIdentity 1) (o := none)
      (.step (i := .allocateIdentity) (o := some 2)
        (.step (i := .allocateIdentity) (o := some 1) .start trivial rfl) trivial rfl)
      (by show Live _ 1; decide) rfl) trivial rfl

theorem reuse_identities :
    (∀ identity, Live reuseWorld.tables identity →
      identity - 1 < maxLocks ∧ reuseWorld.tables.freeList.length < maxLocks) ∧
    ∀ t' identity, allocateIdentity reuseWorld.tables = .ok (t', identity) →
      1 ≤ identity ∧ identity ≤ maxLocks ∧ ¬Live reuseWorld.tables identity ∧ Live t' identity :=
  proper_use_identities reuseWorld_reaches


end Archipelago.Sync
