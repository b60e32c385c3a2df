import Archipelago.Sync.Lockdep
import Archipelago.Lib.Graph

/-! `path_exists` decides reachability in the graph of `g_edges`. A search that answers true has
followed edges to the goal (`pathExists_sound`). A search that answers false leaves an array in
which every node it marked is not the goal and has all its successors marked (`Explored`), so
from a fresh array the marked nodes and the start form a closed set without the goal. Each call
that goes deeper marks a node first, so the recursion never goes deeper than the array has
slots: any bound above `maxLocks` gives the same answer (`pathExists_iff`). All of this needs
every endpoint to name a slot of the array, which the lockdep tables keep (`LockdepRuns`). -/

namespace Archipelago.Sync

open Archipelago.Lib Relation

/-- The graph of an edge list. -/
def Links (edges : List Edge) (a b : Nat) : Prop := ∃ e ∈ edges, e.src = a ∧ e.dst = b

/-- Every endpoint names a slot of the visited array. -/
def InRange (edges : List Edge) : Prop :=
  ∀ e ∈ edges, 1 ≤ e.src ∧ e.src ≤ maxLocks ∧ 1 ≤ e.dst ∧ e.dst ≤ maxLocks

/-- `visited[a - 1]`. -/
def marked (visited : List Bool) (a : Nat) : Bool := visited.getD (a - 1) false

theorem marked_set_self {visited : List Bool} {a : Nat} (h : a - 1 < visited.length) :
    marked (visited.set (a - 1) true) a = true :=
  getD_set_self visited true false h

theorem marked_set_ne {visited : List Bool} {a u : Nat} (ha : 1 ≤ a) (hu : 1 ≤ u) (h : u ≠ a)
    (v : Bool) : marked (visited.set (a - 1) v) u = marked visited u :=
  getD_set_ne visited v false (by omega)

theorem marked_set_true {visited : List Bool} (a u : Nat) (h : marked visited u = true) :
    marked (visited.set (a - 1) true) u = true := by
  rw [marked, getD_set]
  split_ifs
  · rfl
  · exact h

theorem marked_replicate (a : Nat) : marked (List.replicate maxLocks false) a = false := by
  rw [marked, List.getD_eq_getElem?_getD, List.getElem?_replicate]
  split_ifs <;> rfl

/-! ### Answers true -/

theorem scanEdges_true {visit : Nat → List Bool → Bool × List Bool} {src : Nat} :
    ∀ {es : List Edge} {visited visited' : List Bool},
      scanEdges visit src es visited = (true, visited') →
      ∃ e ∈ es, e.src = src ∧ ∃ v₁ v₂, visit e.dst v₁ = (true, v₂) := by
  intro es
  induction es with
  | nil => intro _ _ h; cases h
  | cons e es ih =>
    intro visited visited' h
    rw [scanEdges_cons] at h
    by_cases he : e.src = src
    · rw [if_pos he] at h
      cases hv : visit e.dst visited with
      | mk b v =>
        rw [hv] at h
        cases b with
        | true => exact ⟨e, List.mem_cons_self, he, visited, v, hv⟩
        | false =>
          obtain ⟨e', he', hs, hv'⟩ := ih h
          exact ⟨e', List.mem_cons_of_mem e he', hs, hv'⟩
    · rw [if_neg he] at h
      obtain ⟨e', he', hs, hv'⟩ := ih h
      exact ⟨e', List.mem_cons_of_mem e he', hs, hv'⟩

/-- A search that answers true has found a path. -/
theorem pathExists_sound {edges : List Edge} {b : Nat} :
    ∀ {fuel a : Nat} {visited visited' : List Bool},
      pathExists edges fuel a b visited = (true, visited') → ReflTransGen (Links edges) a b := by
  intro fuel
  induction fuel with
  | zero => intro _ _ _ h; cases h
  | succ fuel ih =>
    intro a visited visited' h
    rw [pathExists_succ] at h
    by_cases hab : a = b
    · rw [hab]
    · rw [if_neg hab] at h
      by_cases hm : visited.getD (a - 1) false = true
      · rw [if_pos hm] at h
        cases h
      · rw [if_neg hm] at h
        obtain ⟨e, he, hs, v₁, v₂, hv⟩ := scanEdges_true h
        exact ReflTransGen.head ⟨e, he, hs, rfl⟩ (ih hv)

/-! ### Answers false -/

/-- What a search that answered false did to the visited array: it marked more and unmarked
nothing, and every node it marked is not the goal and has all its successors marked. -/
structure Explored (edges : List Edge) (b : Nat) (visited visited' : List Bool) : Prop where
  length_eq : visited'.length = visited.length
  count_le : visited'.count false ≤ visited.count false
  mono : ∀ u, marked visited u = true → marked visited' u = true
  closed : ∀ u, 1 ≤ u → marked visited' u = true → marked visited u = false →
    u ≠ b ∧ ∀ w, Links edges u w → marked visited' w = true

theorem Explored.refl (edges : List Edge) (b : Nat) (visited : List Bool) :
    Explored edges b visited visited :=
  ⟨rfl, Nat.le_refl _, fun _ h => h, fun _ _ h h' => absurd h (by rw [h']; decide)⟩

theorem Explored.trans {edges : List Edge} {b : Nat} {v₁ v₂ v₃ : List Bool}
    (h₁ : Explored edges b v₁ v₂) (h₂ : Explored edges b v₂ v₃) : Explored edges b v₁ v₃ where
  length_eq := h₂.length_eq.trans h₁.length_eq
  count_le := h₂.count_le.trans h₁.count_le
  mono u h := h₂.mono u (h₁.mono u h)
  closed u hu h₃ h₁u := by
    cases h₂u : marked v₂ u with
    | true =>
      obtain ⟨hb, hw⟩ := h₁.closed u hu h₂u h₁u
      exact ⟨hb, fun w hl => h₂.mono w (hw w hl)⟩
    | false => exact h₂.closed u hu h₃ h₂u

/-- The loop over the edges, when each search it starts from a successor answers false as a
search does. -/
theorem scanEdges_false {edges : List Edge} {visit : Nat → List Bool → Bool × List Bool}
    {src b c : Nat} :
    ∀ (es : List Edge),
      (∀ e ∈ es, e.src = src → ∀ v₁ v₂, v₁.length = maxLocks → v₁.count false ≤ c →
        visit e.dst v₁ = (false, v₂) → Explored edges b v₁ v₂ ∧ marked v₂ e.dst = true) →
      ∀ (visited visited' : List Bool), visited.length = maxLocks → visited.count false ≤ c →
      scanEdges visit src es visited = (false, visited') →
      Explored edges b visited visited' ∧ ∀ e ∈ es, e.src = src → marked visited' e.dst = true := by
  intro es
  induction es with
  | nil =>
    intro _ visited visited' _ _ h
    rw [scanEdges_nil] at h
    cases h
    exact ⟨Explored.refl edges b visited, fun _ he => absurd he List.not_mem_nil⟩
  | cons e es ih =>
    intro hv visited visited' hlen hc h
    have hv' := fun e' (he' : e' ∈ es) => hv e' (List.mem_cons_of_mem e he')
    rw [scanEdges_cons] at h
    by_cases he : e.src = src
    · rw [if_pos he] at h
      cases hvis : visit e.dst visited with
      | mk r v =>
        rw [hvis] at h
        cases r with
        | true => cases h
        | false =>
          -- the search from the target of `e` answered false; the rest of the loop goes on
          obtain ⟨hx, hm⟩ := hv e List.mem_cons_self he visited v hlen hc hvis
          obtain ⟨hx', hm'⟩ := ih hv' v visited' (hx.length_eq.trans hlen)
            (hx.count_le.trans hc) h
          refine ⟨hx.trans hx', fun e' he' hs => ?_⟩
          rcases List.mem_cons.mp he' with rfl | he'
          · exact hx'.mono _ hm
          · exact hm' e' he' hs
    · rw [if_neg he] at h
      obtain ⟨hx, hm⟩ := ih hv' visited visited' hlen hc h
      refine ⟨hx, fun e' he' hs => ?_⟩
      rcases List.mem_cons.mp he' with rfl | he'
      · exact absurd hs he
      · exact hm e' he' hs

theorem scanEdges_of_none {visit : Nat → List Bool → Bool × List Bool} {src : Nat} :
    ∀ {es : List Edge}, (∀ e ∈ es, e.src ≠ src) → ∀ visited,
      scanEdges visit src es visited = (false, visited) := by
  intro es
  induction es with
  | nil => intro _ visited; rfl
  | cons e es ih =>
    intro h visited
    rw [scanEdges_cons, if_neg (h e List.mem_cons_self)]
    exact ih (fun e' he' => h e' (List.mem_cons_of_mem e he')) visited

/-- Marking a slot that was clear takes one clear slot away. -/
theorem count_mark {visited : List Bool} {a : Nat} (hlt : a - 1 < visited.length)
    (hm : marked visited a = false) :
    (visited.set (a - 1) true).count false + 1 = visited.count false := by
  have hf : visited[a - 1] = false := by
    rw [marked, List.getD_eq_getElem?_getD, List.getElem?_eq_getElem hlt] at hm
    exact hm
  have hpos : 0 < visited.count false :=
    List.count_pos_iff.mpr (hf ▸ List.getElem_mem hlt)
  rw [List.count_set hlt, hf, if_pos (by decide : (false == false) = true),
    if_neg (by decide : ¬(true == false) = true)]
  omega

/-- Marking a node that is not the goal, and then marking all its successors, explores it. -/
theorem Explored.of_mark {edges : List Edge} {a b : Nat} {visited v' : List Bool} (ha : 1 ≤ a)
    (hab : a ≠ b) (hm : marked visited a = false) (hlen : a - 1 < visited.length)
    (hx : Explored edges b (visited.set (a - 1) true) v')
    (hsucc : ∀ e ∈ edges, e.src = a → marked v' e.dst = true) : Explored edges b visited v' where
  length_eq := by rw [hx.length_eq, List.length_set]
  count_le := by
    have := hx.count_le
    have := count_mark hlen hm
    omega
  mono u h := hx.mono u (marked_set_true a u h)
  closed u hu h₃ h₁ := by
    by_cases hua : u = a
    · subst hua
      exact ⟨hab, fun w ⟨e, he, hs, hd⟩ => hd ▸ hsucc e he hs⟩
    · exact hx.closed u hu h₃ (by rw [marked_set_ne ha hu hua]; exact h₁)

/-- A search that answers false has explored what it marked, and marked its start. -/
theorem pathExists_false {edges : List Edge} (hr : InRange edges) {b : Nat} :
    ∀ (fuel a : Nat) (visited visited' : List Bool), visited.length = maxLocks →
      visited.count false < fuel → 1 ≤ a → pathExists edges fuel a b visited = (false, visited') →
      Explored edges b visited visited' ∧ a ≠ b ∧ (a ≤ maxLocks → marked visited' a = true) := by
  intro fuel
  induction fuel with
  | zero => intro _ _ _ _ hc; exact absurd hc (Nat.not_lt_zero _)
  | succ fuel ih =>
    intro a visited visited' hlen hc ha h
    rw [pathExists_succ] at h
    by_cases hab : a = b
    · rw [if_pos hab] at h
      cases h
    rw [if_neg hab] at h
    cases hm : marked visited a with
    | true =>
      -- already marked: the search gives up at once
      rw [show visited.getD (a - 1) false = true from hm, if_pos rfl] at h
      cases h
      exact ⟨Explored.refl edges b visited, hab, fun _ => hm⟩
    | false =>
      rw [show visited.getD (a - 1) false = false from hm, if_neg (by decide)] at h
      by_cases hin : a ≤ maxLocks
      · -- mark `a`, then every search from a successor runs with a slot fewer left
        have hlt : a - 1 < visited.length := by rw [hlen]; omega
        have hcount := count_mark hlt hm
        obtain ⟨hx, hsucc⟩ := scanEdges_false (c := (visited.set (a - 1) true).count false) edges
          (fun e he _ v₁ v₂ hl₁ hc₁ hv =>
            let r := ih e.dst v₁ v₂ hl₁ (by omega) (hr e he).2.2.1 hv
            ⟨r.1, r.2.2 (hr e he).2.2.2⟩)
          (visited.set (a - 1) true) visited' (by rw [List.length_set, hlen]) (Nat.le_refl _) h
        exact ⟨Explored.of_mark ha hab hm hlt hx hsucc, hab,
          fun _ => hx.mono a (marked_set_self hlt)⟩
      · -- `a` has no slot and, the edges being in range, no successor
        rw [List.set_eq_of_length_le (by rw [hlen]; omega),
          scanEdges_of_none (fun e he hs => hin (by rw [← hs]; exact (hr e he).2.1))] at h
        cases h
        exact ⟨Explored.refl edges b visited, hab, fun h => absurd h hin⟩

/-- From a fresh visited array, with any bound on the recursion above `maxLocks`, `path_exists`
answers whether the goal is reachable. -/
theorem pathExists_iff {edges : List Edge} (hr : InRange edges) {fuel a b : Nat}
    (hfuel : maxLocks < fuel) (ha : a ≠ 0) :
    (pathExists edges fuel a b (List.replicate maxLocks false)).1 = true ↔
      ReflTransGen (Links edges) a b := by
  constructor
  · intro h
    exact pathExists_sound (Prod.ext_iff.mpr ⟨h, rfl⟩ : pathExists edges fuel a b _ = (true, _))
  · intro hreach
    cases hp : pathExists edges fuel a b (List.replicate maxLocks false) with
    | mk r visited' =>
      cases r with
      | true => rfl
      | false =>
        exfalso
        obtain ⟨hx, hab, hma⟩ := pathExists_false hr fuel a _ visited' List.length_replicate
          (by rw [List.count_replicate_self]; exact hfuel) (Nat.one_le_iff_ne_zero.mpr ha) hp
        -- the start and the marked nodes are closed under the edges and miss the goal
        have hclosed : ∀ u ∈ {u | u = a ∨ (1 ≤ u ∧ marked visited' u = true)}, ∀ w,
            Links edges u w → w ∈ {u | u = a ∨ (1 ≤ u ∧ marked visited' u = true)} := by
          rintro u hu w ⟨e, he, hs, hd⟩
          have hmu : 1 ≤ u ∧ marked visited' u = true := by
            rcases hu with hu | hu
            · subst hu
              exact ⟨Nat.one_le_iff_ne_zero.mpr ha, hma (by rw [← hs]; exact (hr e he).2.1)⟩
            · exact hu
          refine .inr ⟨by rw [← hd]; exact (hr e he).2.2.1, ?_⟩
          exact (hx.closed u hmu.1 hmu.2 (marked_replicate u)).2 w ⟨e, he, hs, hd⟩
        have hb := mem_of_reflTransGen_closed hclosed hreach (Or.inl rfl)
        rcases hb with hb | ⟨hb₁, hb₂⟩
        · exact hab hb.symm
        · exact (hx.closed b hb₁ hb₂ (marked_replicate b)).1 rfl

end Archipelago.Sync
