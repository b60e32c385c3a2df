import Archipelago.Lib.Chain
/-! Doubly linked chains: a `Chain` along `next` whose every node's `prev` is the node before
it, the shape of an intrusive doubly linked list. A node pushed at the head, and a node
unlinked from anywhere with its neighbours' links written as the code writes them, give the
chain with the node added or taken out; links written outside the chain leave it alone. -/

namespace Archipelago.Lib

variable {α : Type*}

/-- Following `next` from `hd` visits `xs` in order and then reaches `nil`, and the `prev` of
each node is the node before it, `before` for the first. -/
def DChain (next prev : α → α) (nil : α) : α → α → List α → Prop
  | _, hd, [] => hd = nil
  | before, hd, x :: xs => hd = x ∧ x ≠ nil ∧ prev x = before ∧ DChain next prev nil x (next x) xs

namespace DChain

variable {next prev next' prev' : α → α} {nil before hd x : α} {xs pre post : List α}

@[simp] theorem nil_iff : DChain next prev nil before hd [] ↔ hd = nil := Iff.rfl

@[simp] theorem cons_iff :
    DChain next prev nil before hd (x :: xs) ↔
      hd = x ∧ x ≠ nil ∧ prev x = before ∧ DChain next prev nil x (next x) xs := Iff.rfl

/-- Forgetting the back links leaves a chain. -/
theorem chain (h : DChain next prev nil before hd xs) : Chain next nil hd xs := by
  induction xs generalizing before hd with
  | nil => exact h
  | cons y ys ih =>
    obtain ⟨rfl, hy, -, h⟩ := h
    exact ⟨rfl, hy, ih h⟩

theorem nodup (h : DChain next prev nil before hd xs) : xs.Nodup := h.chain.nodup

theorem not_mem_nil (h : DChain next prev nil before hd xs) : nil ∉ xs := h.chain.not_mem_nil

/-- Links written outside the chain's nodes leave it intact. -/
theorem frame (h : DChain next prev nil before hd xs)
    (hnext : ∀ y ∈ xs, next' y = next y) (hprev : ∀ y ∈ xs, prev' y = prev y) :
    DChain next' prev' nil before hd xs := by
  induction xs generalizing before hd with
  | nil => exact h
  | cons y ys ih =>
    obtain ⟨rfl, hy, hback, h⟩ := h
    refine ⟨rfl, hy, by rw [hprev hd (by simp), hback], ?_⟩
    rw [hnext hd (by simp)]
    exact ih h (fun z hz => hnext z (by simp [hz])) (fun z hz => hprev z (by simp [hz]))

/-- The node before `x`: the last of those before it, or `before`. -/
theorem prev_eq (h : DChain next prev nil before hd (pre ++ x :: post)) :
    prev x = (before :: pre).getLast (List.cons_ne_nil _ _) := by
  induction pre generalizing before hd with
  | nil => exact h.2.2.1
  | cons y ys ih =>
    obtain ⟨-, -, -, h⟩ := h
    rw [ih h, List.getLast_cons_cons]

/-- The node after `x`: the first of those after it, or `nil`. -/
theorem next_eq (h : DChain next prev nil before hd (pre ++ x :: post)) :
    next x = post.head?.getD nil := by
  induction pre generalizing before hd with
  | nil =>
    obtain ⟨-, -, -, h⟩ := h
    cases post with
    | nil => exact h
    | cons z zs => exact h.1
  | cons y ys ih => exact ih h.2.2.2

/-- A node's `prev` is `before` or another node of the chain. -/
theorem prev_mem (h : DChain next prev nil before hd xs) (hx : x ∈ xs) :
    prev x = before ∨ (prev x ∈ xs ∧ prev x ≠ x) := by
  obtain ⟨pre, post, rfl⟩ := List.append_of_mem hx
  have hnd := h.nodup
  rw [h.prev_eq]
  rcases List.eq_nil_or_concat pre with rfl | ⟨ys, y, rfl⟩
  · exact .inl rfl
  · right
    simp only [List.concat_eq_append] at *
    have hy : (before :: (ys ++ [y])).getLast (List.cons_ne_nil _ _) = y := by
      rw [List.getLast_cons (by simp), List.getLast_append_singleton]
    rw [hy]
    refine ⟨by simp, fun e => ?_⟩
    subst e
    simp [List.nodup_append] at hnd

/-- A node's `next` is `nil` or another node of the chain. -/
theorem next_mem (h : DChain next prev nil before hd xs) (hx : x ∈ xs) :
    next x = nil ∨ (next x ∈ xs ∧ next x ≠ x) := by
  obtain ⟨pre, post, rfl⟩ := List.append_of_mem hx
  have hnd := h.nodup
  rw [h.next_eq]
  cases post with
  | nil => exact .inl rfl
  | cons z zs =>
    right
    refine ⟨by simp, fun e => ?_⟩
    simp only [List.head?_cons, Option.getD_some] at e
    subst e
    simp [List.nodup_append] at hnd

section Update

variable [DecidableEq α]

/-- The same chain behind another node: only the first node's `prev` changes. -/
theorem rebase {before' : α} (h : DChain next prev nil before hd xs)
    (hnext : ∀ y ∈ xs, next' y = next y)
    (hprev : ∀ y ∈ xs, prev' y = if y = hd then before' else prev y) :
    DChain next' prev' nil before' hd xs := by
  cases xs with
  | nil => exact h
  | cons y ys =>
    have hnd := h.nodup
    obtain ⟨rfl, hy, -, hrest⟩ := h
    have hyys : hd ∉ ys := (List.nodup_cons.1 hnd).1
    refine ⟨rfl, hy, by simpa using hprev hd (by simp), ?_⟩
    rw [hnext hd (by simp)]
    refine hrest.frame (fun z hz => hnext z (by simp [hz])) fun z hz => ?_
    rw [hprev z (by simp [hz]), if_neg (fun (e : z = hd) => hyys (e ▸ hz))]

/-- A node pushed at the head, its `next` the old head and the old head's `prev` the node. -/
theorem push {a : α} (h : DChain next prev nil nil hd xs) (ha : a ≠ nil)
    (hna : next' a = hd) (hpa : prev' a = nil) (hnext : ∀ y ∈ xs, next' y = next y)
    (hprev : ∀ y ∈ xs, prev' y = if y = hd then a else prev y) :
    DChain next' prev' nil nil a (a :: xs) :=
  ⟨rfl, ha, hpa, by rw [hna]; exact h.rebase hnext hprev⟩

/-- `x` unlinked as an intrusive list does it: the node before it pointed past it, the node
after it pointed back past it, and the head moved on if it was `x`. -/
theorem unlink (h : DChain next prev nil before hd (pre ++ x :: post))
    (hb : before ∉ pre ++ x :: post)
    (hnext : ∀ y ∈ pre ++ post, next' y = if y = prev x then next x else next y)
    (hprev : ∀ y ∈ pre ++ post, prev' y = if y = next x then prev x else prev y) :
    DChain next' prev' nil before (if hd = x then next x else hd) (pre ++ post) := by
  induction pre generalizing before hd with
  | nil =>
    obtain ⟨rfl, -, hback, hrest⟩ := h
    rw [if_pos rfl]
    refine hrest.rebase (fun y hy => ?_) (fun y hy => ?_)
    · rw [hnext y hy, hback, if_neg (fun (e : y = before) => hb (by simp [← e, hy]))]
    · rw [hprev y hy, hback]
  | cons y ys ih =>
    have hnd := h.nodup
    obtain ⟨rfl, hy, hback, hrest⟩ := h
    have hyx : hd ≠ x := fun e => by simp [e] at hnd
    have hnotin : hd ∉ ys ++ x :: post := (List.nodup_cons.1 hnd).1
    rw [if_neg hyx]
    have hnextx : hd ≠ next x := by
      rw [hrest.next_eq]
      cases post with
      | nil => exact hy
      | cons z zs => exact fun e => hnotin (by simp [e])
    refine ⟨rfl, hy, by rw [hprev hd (by simp), if_neg hnextx, hback], ?_⟩
    have hlink : (if hd = prev x then next x else next hd) = (if next hd = x then next x else next hd) := by
      rw [hrest.prev_eq]
      cases ys with
      | nil =>
        have : next hd = x := hrest.1
        simp [this]
      | cons z zs =>
        have hz : next hd = z := hrest.1
        have hlast : hd ≠ (hd :: z :: zs).getLast (List.cons_ne_nil _ _) := by
          rw [List.getLast_cons_cons]
          exact fun e => hnotin (List.mem_append_left _ (by rw [e]; exact List.getLast_mem _))
        have hzx : z ≠ x := fun e => by simp [e] at hnd
        rw [if_neg hlast, hz, if_neg hzx]
    rw [hnext hd (by simp), hlink]
    exact ih hrest hnotin (fun z hz => hnext z (by simp [hz])) (fun z hz => hprev z (by simp [hz]))

end Update

end DChain

end Archipelago.Lib
