import Mathlib

/-! Lists read as cycles: a circular linked list kept as the sequence of its links from an
anchor. The successor of an element is the next one, and the first after the last
(`cycSucc`); in a list with no repeats the successor of the element at `i` is the one at
`i + 1` modulo the length, so a walk of successors from any element meets every element once
before it is back. In an increasing cycle the successor of an element is the least one above
it, or the first after the greatest. `insertAfter` links an element in right after another. -/

namespace Archipelago.Lib

variable {α : Type*} [DecidableEq α]

/-- The element after `x` in `l` read as a cycle; `d` off the list. -/
def cycSucc (d : α) (l : List α) (x : α) : α := (l ++ l.take 1).getD (l.idxOf x + 1) d

/-- `x` linked in right after the first `p`. -/
def insertAfter (p x : α) : List α → List α
  | [] => []
  | y :: ys => if y = p then y :: x :: ys else y :: insertAfter p x ys

section Succ

variable (d : α) {l : List α}

theorem cycSucc_getD (hl : l.Nodup) {i : Nat} (hi : i < l.length) :
    cycSucc d l (l.getD i d) = l.getD ((i + 1) % l.length) d := by
  unfold cycSucc
  rw [List.getD_eq_getElem _ _ hi, hl.idxOf_getElem i hi]
  rcases Nat.lt_or_ge (i + 1) l.length with h | h
  · rw [Nat.mod_eq_of_lt h, List.getD_append _ _ _ _ h]
  · -- the last element: its successor is the first
    have hn : i + 1 = l.length := by omega
    rw [hn, Nat.mod_self, List.getD_append_right _ _ _ _ le_rfl, Nat.sub_self]
    cases l with
    | nil => simp at hi
    | cons a l => rfl

/-- Walking `k` successors from the element at `i` gives the one at `i + k` modulo the length. -/
theorem cycSucc_iterate (hl : l.Nodup) {i : Nat} (hi : i < l.length) :
    ∀ k, (cycSucc d l)^[k] (l.getD i d) = l.getD ((i + k) % l.length) d
  | 0 => by rw [Function.iterate_zero_apply, Nat.add_zero, Nat.mod_eq_of_lt hi]
  | k + 1 => by
    have hk : (i + k) % l.length < l.length := Nat.mod_lt _ (by omega)
    rw [Function.iterate_succ_apply', cycSucc_iterate hl hi k, cycSucc_getD d hl hk,
      Nat.mod_add_mod, Nat.add_assoc]

omit [DecidableEq α] in
theorem getD_mem {i : Nat} (hi : i < l.length) : l.getD i d ∈ l := by
  rw [List.getD_eq_getElem _ _ hi]
  exact List.getElem_mem hi

omit [DecidableEq α] in
theorem exists_getD_of_mem {x : α} (hx : x ∈ l) : ∃ i < l.length, l.getD i d = x := by
  obtain ⟨i, hi, rfl⟩ := List.mem_iff_getElem.mp hx
  exact ⟨i, hi, List.getD_eq_getElem _ _ hi⟩

/-- A walk of successors stays on the list. -/
theorem cycSucc_iterate_mem (hl : l.Nodup) {x : α} (hx : x ∈ l) (k : Nat) :
    (cycSucc d l)^[k] x ∈ l := by
  obtain ⟨i, hi, rfl⟩ := exists_getD_of_mem d hx
  rw [cycSucc_iterate d hl hi]
  exact getD_mem d (Nat.mod_lt _ (by omega))

theorem cycSucc_mem (hl : l.Nodup) {x : α} (hx : x ∈ l) : cycSucc d l x ∈ l :=
  cycSucc_iterate_mem d hl hx 1

/-- A walk from any element meets every element within one round. -/
theorem cycSucc_reach (hl : l.Nodup) {x y : α} (hx : x ∈ l) (hy : y ∈ l) :
    ∃ k < l.length, (cycSucc d l)^[k] x = y := by
  obtain ⟨i, hi, rfl⟩ := exists_getD_of_mem d hx
  obtain ⟨j, hj, rfl⟩ := exists_getD_of_mem d hy
  refine ⟨(j + l.length - i) % l.length, Nat.mod_lt _ (by omega), ?_⟩
  rw [cycSucc_iterate d hl hi, Nat.add_mod_mod, show i + (j + l.length - i) = j + l.length by omega,
    Nat.add_mod_right, Nat.mod_eq_of_lt hj]

/-- One round leads back. -/
theorem cycSucc_iterate_length (hl : l.Nodup) {x : α} (hx : x ∈ l) :
    (cycSucc d l)^[l.length] x = x := by
  obtain ⟨i, hi, rfl⟩ := exists_getD_of_mem d hx
  rw [cycSucc_iterate d hl hi, Nat.add_mod_right, Nat.mod_eq_of_lt hi]

/-- Within one round a walk is not back where it started. -/
theorem cycSucc_iterate_ne_self (hl : l.Nodup) {x : α} (hx : x ∈ l) {m : Nat} (h0 : 0 < m)
    (hm : m < l.length) : (cycSucc d l)^[m] x ≠ x := by
  obtain ⟨i, hi, rfl⟩ := exists_getD_of_mem d hx
  have hj : (i + m) % l.length < l.length := Nat.mod_lt _ (by omega)
  have hne : (i + m) % l.length ≠ i := by
    rcases Nat.lt_or_ge (i + m) l.length with h | h
    · rw [Nat.mod_eq_of_lt h]
      omega
    · rw [Nat.mod_eq_sub_mod h, Nat.mod_eq_of_lt (by omega)]
      omega
  rw [cycSucc_iterate d hl hi, List.getD_eq_getElem _ _ hj, List.getD_eq_getElem _ _ hi]
  exact fun h => hne ((hl.getElem_inj_iff).mp h)

/-- On a cycle of two or more no element is its own successor. -/
theorem cycSucc_ne_self (hl : l.Nodup) (h2 : 2 ≤ l.length) {x : α} (hx : x ∈ l) :
    cycSucc d l x ≠ x :=
  cycSucc_iterate_ne_self d hl hx (m := 1) Nat.one_pos h2

/-- A walk of one round from `x` meets every element at a step before it is back at `x`. -/
theorem cycSucc_round (hl : l.Nodup) {x y : α} (hx : x ∈ l) (hy : y ∈ l) :
    ∃ j < l.length, (cycSucc d l)^[j + 1] x = y ∧ ∀ i < j, (cycSucc d l)^[i + 1] x ≠ x := by
  obtain ⟨k, hk, rfl⟩ := cycSucc_reach d hl hx hy
  have hne : ∀ i, i + 1 < l.length → (cycSucc d l)^[i + 1] x ≠ x := fun i hi =>
    cycSucc_iterate_ne_self d hl hx (Nat.succ_pos i) hi
  cases k with
  | zero =>
    -- `y` is `x` itself, met at the end of the round
    refine ⟨l.length - 1, by omega, ?_, fun i hi => hne i (by omega)⟩
    rw [Nat.sub_add_cancel hk]
    exact cycSucc_iterate_length d hl hx
  | succ k => exact ⟨k, by omega, rfl, fun i hi => hne i (by omega)⟩

/-- The successor of an element with one after it is that one. -/
theorem cycSucc_append_cons {l₁ l₂ : List α} {x y : α} (hl : (l₁ ++ x :: y :: l₂).Nodup) :
    cycSucc d (l₁ ++ x :: y :: l₂) x = y := by
  have hi : l₁.length < (l₁ ++ x :: y :: l₂).length := by simp
  have hx : (l₁ ++ x :: y :: l₂).getD l₁.length d = x := by
    rw [List.getD_append_right _ _ _ _ le_rfl, Nat.sub_self]
    rfl
  have hy : (l₁.length + 1) % (l₁ ++ x :: y :: l₂).length = l₁.length + 1 :=
    Nat.mod_eq_of_lt (by simp)
  have h := cycSucc_getD d hl hi
  rw [hx, hy, List.getD_append_right _ _ _ _ (Nat.le_add_right _ 1),
    Nat.add_sub_cancel_left] at h
  exact h

/-- The successor of the last element is the first. -/
theorem cycSucc_append_singleton {l₁ : List α} {x : α} (hl : (l₁ ++ [x]).Nodup) :
    cycSucc d (l₁ ++ [x]) x = (l₁ ++ [x]).headD d := by
  have hi : l₁.length < (l₁ ++ [x]).length := by simp
  have hx : (l₁ ++ [x]).getD l₁.length d = x := by
    rw [List.getD_append_right _ _ _ _ le_rfl, Nat.sub_self]
    rfl
  have hn : (l₁.length + 1) % (l₁ ++ [x]).length = 0 := by simp
  have h := cycSucc_getD d hl hi
  rw [hx, hn] at h
  rw [h]
  cases l₁ <;> rfl

end Succ

/-! ### Sorted cycles

A cycle kept in increasing order from its least element: the successor of an element is the
least one above it, and the first element after the greatest. -/

section Sorted

variable {β : Type*} [LinearOrder β]

theorem getD_lt_getD {l : List β} (d : β) (hl : l.Pairwise (· < ·)) {i j : Nat}
    (hj : j < l.length) (hij : i < j) : l.getD i d < l.getD j d := by
  rw [List.getD_eq_getElem _ _ (by omega), List.getD_eq_getElem _ _ hj]
  exact List.pairwise_iff_getElem.mp hl i j _ hj hij

theorem getD_le_getD {l : List β} (d : β) (hl : l.Pairwise (· < ·)) {i j : Nat}
    (hj : j < l.length) (hij : i ≤ j) : l.getD i d ≤ l.getD j d := by
  rcases Nat.lt_or_eq_of_le hij with h | rfl
  · exact (getD_lt_getD d hl hj h).le
  · exact le_rfl

/-- In an increasing cycle an element is below its successor, which is the least element above
it, unless it is the greatest, whose successor is the first. -/
theorem cycSucc_sorted [DecidableEq β] {l : List β} (d : β) (hl : l.Pairwise (· < ·)) {x : β}
    (hx : x ∈ l) :
    (x < cycSucc d l x ∧ ∀ y ∈ l, x < y → cycSucc d l x ≤ y) ∨
      (cycSucc d l x = l.headD d ∧ ∀ y ∈ l, y ≤ x) := by
  have hnd : l.Nodup := hl.imp ne_of_lt
  obtain ⟨i, hi, rfl⟩ := exists_getD_of_mem d hx
  rw [cycSucc_getD d hnd hi]
  rcases Nat.lt_or_ge (i + 1) l.length with h | h
  · -- an element below it comes later, at or after the next index
    refine .inl ⟨?_, fun y hy hxy => ?_⟩
    · rw [Nat.mod_eq_of_lt h]
      exact getD_lt_getD d hl h (Nat.lt_succ_self i)
    · obtain ⟨j, hj, rfl⟩ := exists_getD_of_mem d hy
      have hij : i < j := by
        by_contra hji
        exact absurd hxy (not_lt.mpr (getD_le_getD d hl hi (not_lt.mp hji)))
      rw [Nat.mod_eq_of_lt h]
      exact getD_le_getD d hl hj hij
  · refine .inr ⟨?_, fun y hy => ?_⟩
    · rw [show i + 1 = l.length by omega, Nat.mod_self]
      cases l <;> rfl
    · obtain ⟨j, hj, rfl⟩ := exists_getD_of_mem d hy
      exact getD_le_getD d hl hi (by omega)

/-- An increasing list splits at any point into what lies below it and what does not. -/
theorem exists_split_lt (b : β) :
    ∀ {l : List β}, l.Pairwise (· < ·) →
      ∃ l₁ l₂, l = l₁ ++ l₂ ∧ (∀ x ∈ l₁, x < b) ∧ ∀ y ∈ l₂, b ≤ y
  | [], _ => ⟨[], [], rfl, nofun, nofun⟩
  | x :: xs, hl => by
    obtain ⟨hx, hxs⟩ := List.pairwise_cons.mp hl
    by_cases hxb : x < b
    · obtain ⟨l₁, l₂, rfl, h₁, h₂⟩ := exists_split_lt b hxs
      refine ⟨x :: l₁, l₂, rfl, fun y hy => ?_, h₂⟩
      rcases List.mem_cons.mp hy with rfl | hy
      exacts [hxb, h₁ y hy]
    · refine ⟨[], x :: xs, rfl, nofun, fun y hy => ?_⟩
      rcases List.mem_cons.mp hy with rfl | hy
      exacts [not_lt.mp hxb, (not_lt.mp hxb).trans (hx y hy).le]

end Sorted

section Insert

theorem insertAfter_append {p x : α} {l₁ l₂ : List α} (hp : p ∉ l₁) :
    insertAfter p x (l₁ ++ p :: l₂) = l₁ ++ p :: x :: l₂ := by
  induction l₁ with
  | nil => simp [insertAfter]
  | cons y l₁ ih =>
    have hy : y ≠ p := fun h => hp (h ▸ List.mem_cons_self)
    rw [List.cons_append, insertAfter, if_neg hy, ih (fun h => hp (List.mem_cons_of_mem _ h)),
      List.cons_append]

/-- Linking in keeps every element. -/
theorem sublist_insertAfter (p x : α) : ∀ l : List α, l.Sublist (insertAfter p x l)
  | [] => List.Sublist.slnil
  | y :: ys => by
    unfold insertAfter
    split_ifs
    · exact (List.sublist_cons_self x ys).cons_cons y
    · exact (sublist_insertAfter p x ys).cons_cons y

/-- The element linked in is on the list once `p` is. -/
theorem mem_insertAfter_self {p x : α} : ∀ {l : List α}, p ∈ l → x ∈ insertAfter p x l
  | [], hp => nomatch hp
  | y :: ys, hp => by
    unfold insertAfter
    split_ifs with hy
    · exact List.mem_cons_of_mem _ List.mem_cons_self
    · exact List.mem_cons_of_mem _
        (mem_insertAfter_self ((List.mem_cons.mp hp).resolve_left fun h => hy h.symm))

omit [DecidableEq α] in
/-- An element related to all before it and all after it can go between. -/
theorem pairwise_insert {R : α → α → Prop} {l₁ l₂ : List α} {x : α} (hl : (l₁ ++ l₂).Pairwise R)
    (h₁ : ∀ y ∈ l₁, R y x) (h₂ : ∀ y ∈ l₂, R x y) : (l₁ ++ x :: l₂).Pairwise R := by
  rw [List.pairwise_append] at hl ⊢
  obtain ⟨hl₁, hl₂, h₁₂⟩ := hl
  refine ⟨hl₁, List.pairwise_cons.mpr ⟨h₂, hl₂⟩, fun a ha y hy => ?_⟩
  rcases List.mem_cons.mp hy with rfl | hy
  exacts [h₁ a ha, h₁₂ a ha y hy]

end Insert

end Archipelago.Lib
