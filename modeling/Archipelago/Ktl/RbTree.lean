import Archipelago.Lib.Intervals
import Mathlib.Order.RelClasses

/-! The searches of `ktl::rb_tree` (`ktl/rb_tree`). `bound` descends from the root once,
remembering the last node whose key is not past the probe in the direction asked, so on a
tree whose in-order keys increase it returns the first element not below the probe
(`lower_bound`) or the last one not above it (`find_le`). On the in-order sequence these are
`List.find?` and `lastWhere` (`lowerBound_eq_find?`, `findLe_eq_lastWhere`), which is how
the region model reads its children. Insertion, erasure and the colour fixups are not
modelled here: the searches read only the child links. -/

namespace Archipelago.Ktl

open Archipelago.Lib

/-- A subtree: `child[0]`, the element the hook sits in, `red`, `child[1]`. -/
inductive RbTree (α : Type) where
  | nil
  | node (left : RbTree α) (elem : α) (red : Bool) (right : RbTree α)
  deriving DecidableEq, Repr

/-- The comparator's two heterogeneous calls, `m_comp(element, key)` and
`m_comp(key, element)`. -/
structure Compare (α κ : Type) where
  elemLess : α → κ → Bool
  keyLess : κ → α → Bool

/-- A comparator through a key of each element, as `region_child_less` compares bases. -/
def Compare.byKey {α β : Type} (lt : β → β → Prop) [DecidableRel lt] (key : α → β) : Compare α β :=
  ⟨fun x k => decide (lt (key x) k), fun k x => decide (lt k (key x))⟩

@[simp] theorem Compare.byKey_elemLess {α β : Type} {lt : β → β → Prop} [DecidableRel lt] {key : α → β}
    (x : α) (k : β) : (Compare.byKey lt key).elemLess x k = decide (lt (key x) k) := rfl

@[simp] theorem Compare.byKey_keyLess {α β : Type} {lt : β → β → Prop} [DecidableRel lt] {key : α → β}
    (k : β) (x : α) : (Compare.byKey lt key).keyLess k x = decide (lt k (key x)) := rfl

namespace RbTree

variable {α κ : Type}

/-- The elements in order, as iteration from `begin()` by `successor` visits them. -/
def toList : RbTree α → List α
  | nil => []
  | node l x _ r => l.toList ++ x :: r.toList

/-- `bound(key, dir)` from the subtree at `cur` with `result` so far: `dir = false` for
`lower_bound`, `true` for `find_le`. A node past `key` sends the descent to `child[1 - dir]`;
any other node becomes the result and the descent goes on to `child[dir]`. -/
def bound (comp : Compare α κ) (key : κ) (dir : Bool) : RbTree α → Option α → Option α
  | nil, result => result
  | node l x _ r, result =>
    match dir with
    | false => if comp.elemLess x key then bound comp key dir r result else bound comp key dir l (some x)
    | true => if comp.keyLess key x then bound comp key dir l result else bound comp key dir r (some x)

/-- `lower_bound(key)`: the first element whose key is not less than `key`. -/
def lowerBound (comp : Compare α κ) (key : κ) (t : RbTree α) : Option α := bound comp key false t none

/-- `find_le(key)`: the last element whose key is not greater than `key`. -/
def findLe (comp : Compare α κ) (key : κ) (t : RbTree α) : Option α := bound comp key true t none

/-- `find(key)`: what `lower_bound` returns, unless `key` is less than it. -/
def find (comp : Compare α κ) (key : κ) (t : RbTree α) : Option α :=
  match lowerBound comp key t with
  | some x => if comp.keyLess key x then none else some x
  | none => none

example : findLe (.byKey (· < ·) id) 5 (node (node nil 2 false nil) 4 false (node nil 7 true nil)) = some 4 := by
  decide

/-! ### Searches on an ordered tree -/

section Sorted

variable {β : Type} (lt : β → β → Prop) (key : α → β)

/-- BST order, the last check of `validate()`: the in-order keys strictly increase. -/
def Sorted (t : RbTree α) : Prop := t.toList.Pairwise fun a b => lt (key a) (key b)

variable {lt key}

theorem Sorted.node {l r : RbTree α} {x : α} {red : Bool} (h : (node l x red r).Sorted lt key) :
    l.Sorted lt key ∧ r.Sorted lt key ∧ (∀ y ∈ l.toList, lt (key y) (key x)) ∧
      ∀ y ∈ r.toList, lt (key x) (key y) := by
  unfold Sorted toList at h
  rw [List.pairwise_append, List.pairwise_cons] at h
  exact ⟨h.1, h.2.1.2, fun y hy => h.2.2 y hy x (by simp), h.2.1.1⟩

variable [DecidableRel lt] [IsTrans β lt]

/-- The descent toward `child[0]` is the first in-order element not less than `key`, or the
result so far when there is none. -/
theorem bound_false_eq {t : RbTree α} (ht : t.Sorted lt key) (k : β) (result : Option α) :
    bound (.byKey lt key) k false t result = (t.toList.find? fun x => !decide (lt (key x) k)).or result := by
  induction t generalizing result with
  | nil => rfl
  | node l x red r ihl ihr =>
    obtain ⟨hl, hr, hlx, -⟩ := ht.node
    simp only [bound, Compare.byKey_elemLess, toList, List.find?_append]
    by_cases hx : lt (key x) k
    · -- `x` and, by the order, all of `l` are below `k`: the answer is in `r`
      have hnone : l.toList.find? (fun y => !decide (lt (key y) k)) = none :=
        List.find?_eq_none.2 fun y hy => by simp [IsTrans.trans _ _ _ (hlx y hy) hx]
      simp only [hx, decide_true, ↓reduceIte]
      rw [ihr hr, hnone, Option.none_or, List.find?_cons_of_neg (by simp [hx])]
    · simp only [hx, decide_false, Bool.false_eq_true, ↓reduceIte]
      rw [ihl hl, List.find?_cons_of_pos (by simp [hx])]
      cases l.toList.find? (fun y => !decide (lt (key y) k)) <;> rfl

/-- The descent toward `child[1]` is the last in-order element not greater than `key`, or
the result so far when there is none. -/
theorem bound_true_eq {t : RbTree α} (ht : t.Sorted lt key) (k : β) (result : Option α) :
    bound (.byKey lt key) k true t result = (lastWhere (fun x => !decide (lt k (key x))) t.toList).or result := by
  induction t generalizing result with
  | nil => rfl
  | node l x red r ihl ihr =>
    obtain ⟨hl, hr, -, hxr⟩ := ht.node
    simp only [bound, Compare.byKey_keyLess, toList, lastWhere_append]
    by_cases hx : lt k (key x)
    · -- `k` is below `x` and, by the order, below all of `r`: the answer is in `l`
      have hnone : lastWhere (fun y => !decide (lt k (key y))) (x :: r.toList) = none :=
        lastWhere_eq_none.2 fun y hy => by
          rcases List.mem_cons.1 hy with rfl | hy
          · simp [hx]
          · simp [IsTrans.trans _ _ _ hx (hxr y hy)]
      simp only [hx, decide_true, ↓reduceIte]
      rw [ihl hl, hnone, Option.none_or]
    · simp only [hx, decide_false, Bool.false_eq_true, ↓reduceIte]
      rw [ihr hr]
      simp only [lastWhere]
      cases lastWhere (fun y => !decide (lt k (key y))) r.toList <;> simp [hx]

theorem lowerBound_eq_find? {t : RbTree α} (ht : t.Sorted lt key) (k : β) :
    lowerBound (.byKey lt key) k t = t.toList.find? fun x => !decide (lt (key x) k) := by
  rw [lowerBound, bound_false_eq ht, Option.or_none]

theorem findLe_eq_lastWhere {t : RbTree α} (ht : t.Sorted lt key) (k : β) :
    findLe (.byKey lt key) k t = lastWhere (fun x => !decide (lt k (key x))) t.toList := by
  rw [findLe, bound_true_eq ht, Option.or_none]

end Sorted

/-! ### What the searches return -/

section Extremes

variable {β : Type} {lt : β → β → Prop} [DecidableRel lt] [IsStrictOrder β lt] {key : α → β}
  {t : RbTree α}

theorem Sorted.lowerBound_least (ht : t.Sorted lt key) (k : β) {x : α}
    (h : lowerBound (.byKey lt key) k t = some x) :
    x ∈ t.toList ∧ ¬ lt (key x) k ∧ ∀ y ∈ t.toList, ¬ lt (key y) k → ¬ lt (key y) (key x) := by
  rw [lowerBound_eq_find? ht] at h
  obtain ⟨hx, hpx, hleast⟩ := find?_least ht (fun _ _ => asymm) h
  exact ⟨hx, by simpa using hpx, fun y hy hyk => hleast y hy (by simpa using hyk)⟩

theorem Sorted.lowerBound_eq_none (ht : t.Sorted lt key) (k : β) :
    lowerBound (.byKey lt key) k t = none ↔ ∀ y ∈ t.toList, lt (key y) k := by
  rw [lowerBound_eq_find? ht, List.find?_eq_none]
  simp

theorem Sorted.findLe_greatest (ht : t.Sorted lt key) (k : β) {x : α}
    (h : findLe (.byKey lt key) k t = some x) :
    x ∈ t.toList ∧ ¬ lt k (key x) ∧ ∀ y ∈ t.toList, ¬ lt k (key y) → ¬ lt (key x) (key y) := by
  rw [findLe_eq_lastWhere ht] at h
  obtain ⟨hx, hpx, hgreatest⟩ := lastWhere_greatest ht (fun _ _ => asymm) h
  exact ⟨hx, by simpa using hpx, fun y hy hyk => hgreatest y hy (by simpa using hyk)⟩

theorem Sorted.findLe_eq_none (ht : t.Sorted lt key) (k : β) :
    findLe (.byKey lt key) k t = none ↔ ∀ y ∈ t.toList, lt k (key y) := by
  rw [findLe_eq_lastWhere ht, lastWhere_eq_none]
  simp

end Extremes

/-! ### Interval queries -/

section Intervals

variable {base size : α → Nat} {t : RbTree α}

/-- On a tree of non-empty, pairwise disjoint intervals keyed by their start, `find_le(a)`
is the member containing `a` whenever one does. -/
theorem Sorted.findLe_of_contains (ht : t.Sorted (· < ·) base) (hpos : ∀ c ∈ t.toList, 0 < size c)
    (hdisj : ∀ c ∈ t.toList, ∀ d ∈ t.toList, c ≠ d →
      ∀ a, ¬ (base c ≤ a ∧ a < base c + size c ∧ base d ≤ a ∧ a < base d + size d))
    {c : α} (hc : c ∈ t.toList) {a : Nat} (hca : base c ≤ a) (hac : a < base c + size c) :
    findLe (.byKey (· < ·) base) a t = some c := by
  cases hf : findLe (.byKey (· < ·) base) a t with
  | none => exact absurd hca (Nat.not_le.2 ((ht.findLe_eq_none a).1 hf c hc))
  | some d =>
    obtain ⟨hd, hda, hgreatest⟩ := ht.findLe_greatest a hf
    have hcd : ¬ base d < base c := hgreatest c hc (Nat.not_lt.2 hca)
    by_contra hne
    -- `d` starts after `c` and no later than `a`, so inside `c`: its first address is in both
    rcases rel_or_rel_of_pairwise ht hd hc (fun e => hne (congrArg some e)) with h | h
    · exact hcd h
    · exact hdisj c hc d hd (fun e => hne (congrArg some e.symm)) (base d)
        ⟨Nat.le_of_lt h, by omega, Nat.le_refl _, Nat.lt_add_of_pos_right (hpos d hd)⟩

/-- On every tree ordered by a strict order, `lower_bound(k)` is the least member not less
than `k` and `find_le(k)` the greatest not greater than `k`, each `end()` exactly when there is
no such member; on a tree of non-empty, pairwise disjoint intervals keyed by start, the
member containing an address is `find_le` of it. -/
theorem lower_bound_find_le_extremal :
    (∀ {α β : Type} {lt : β → β → Prop} [DecidableRel lt] [IsStrictOrder β lt] {key : α → β}
        {t : RbTree α}, t.Sorted lt key → ∀ k : β,
      (∀ x, lowerBound (.byKey lt key) k t = some x →
        x ∈ t.toList ∧ ¬ lt (key x) k ∧ ∀ y ∈ t.toList, ¬ lt (key y) k → ¬ lt (key y) (key x)) ∧
      (lowerBound (.byKey lt key) k t = none ↔ ∀ y ∈ t.toList, lt (key y) k) ∧
      (∀ x, findLe (.byKey lt key) k t = some x →
        x ∈ t.toList ∧ ¬ lt k (key x) ∧ ∀ y ∈ t.toList, ¬ lt k (key y) → ¬ lt (key x) (key y)) ∧
      (findLe (.byKey lt key) k t = none ↔ ∀ y ∈ t.toList, lt k (key y))) ∧
    ∀ {α : Type} {base size : α → Nat} {t : RbTree α}, t.Sorted (· < ·) base →
      (∀ c ∈ t.toList, 0 < size c) →
      (∀ c ∈ t.toList, ∀ d ∈ t.toList, c ≠ d →
        ∀ a, ¬ (base c ≤ a ∧ a < base c + size c ∧ base d ≤ a ∧ a < base d + size d)) →
      ∀ c ∈ t.toList, ∀ a, base c ≤ a → a < base c + size c →
        findLe (.byKey (· < ·) base) a t = some c :=
  ⟨fun ht k => ⟨fun _ h => ht.lowerBound_least k h, ht.lowerBound_eq_none k,
      fun _ h => ht.findLe_greatest k h, ht.findLe_eq_none k⟩,
    fun ht hpos hdisj _ hc _ hca hac => ht.findLe_of_contains hpos hdisj hc hca hac⟩

/-- Two slots `[0, 4)` and `[8, 12)`: `find_le(9)` is the second, and `lower_bound(9)` is
`end()` because both start below 9. -/
theorem find_le_on_two_slots :
    findLe (.byKey (· < ·) Prod.fst) 9 (node nil (0, 4) false (node nil (8, 4) true nil)) = some (8, 4) ∧
      (lowerBound (.byKey (· < ·) Prod.fst) 9 (node nil (0, 4) false (node nil (8, 4) true nil)) = none ↔
        ∀ y ∈ (node nil (0, 4) false (node nil (8, 4) true nil) : RbTree (Nat × Nat)).toList, y.1 < 9) := by
  have hs : (node nil (0, 4) false (node nil (8, 4) true nil) : RbTree (Nat × Nat)).Sorted (· < ·) Prod.fst := by
    simp [Sorted, toList]
  have hpos : ∀ c ∈ (node nil (0, 4) false (node nil (8, 4) true nil) : RbTree (Nat × Nat)).toList,
      0 < c.2 := by
    simp [toList]
  have hdisj : ∀ c ∈ (node nil (0, 4) false (node nil (8, 4) true nil) : RbTree (Nat × Nat)).toList,
      ∀ d ∈ (node nil (0, 4) false (node nil (8, 4) true nil) : RbTree (Nat × Nat)).toList, c ≠ d →
        ∀ a, ¬ (c.1 ≤ a ∧ a < c.1 + c.2 ∧ d.1 ≤ a ∧ a < d.1 + d.2) := by
    simp only [toList, List.nil_append, List.mem_cons, List.not_mem_nil, or_false]
    rintro c (rfl | rfl) d (rfl | rfl) hne a <;> simp at hne ⊢ <;> omega
  exact ⟨lower_bound_find_le_extremal.2 hs hpos hdisj (8, 4) (by simp [toList]) 9 (by decide) (by decide),
    (lower_bound_find_le_extremal.1 hs 9).2.1⟩

/-- An empty slot `[5, 5)` is disjoint from `[0, 10)` but starts inside it: `find_le(7)`
returns the empty slot, not the one containing 7. -/
theorem empty_member_hides_container :
    (node nil (0, 10) false (node nil (5, 0) true nil) : RbTree (Nat × Nat)).Sorted (· < ·) Prod.fst ∧
      (∀ c ∈ (node nil (0, 10) false (node nil (5, 0) true nil) : RbTree (Nat × Nat)).toList,
        ∀ d ∈ (node nil (0, 10) false (node nil (5, 0) true nil) : RbTree (Nat × Nat)).toList, c ≠ d →
          ∀ a, ¬ (c.1 ≤ a ∧ a < c.1 + c.2 ∧ d.1 ≤ a ∧ a < d.1 + d.2)) ∧
      (0, 10) ∈ (node nil (0, 10) false (node nil (5, 0) true nil) : RbTree (Nat × Nat)).toList ∧
      0 ≤ 7 ∧ 7 < 0 + 10 ∧
      findLe (.byKey (· < ·) Prod.fst) 7 (node nil (0, 10) false (node nil (5, 0) true nil)) = some (5, 0) := by
  refine ⟨by simp [Sorted, toList], ?_, by simp [toList], by decide, by decide, by decide⟩
  simp only [toList, List.nil_append, List.mem_cons, List.not_mem_nil, or_false]
  rintro c (rfl | rfl) d (rfl | rfl) hne a <;> simp at hne ⊢
  omega

end Intervals

end RbTree

end Archipelago.Ktl
