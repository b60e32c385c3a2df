import Mathlib.Data.List.Nodup

/-! Singly linked chains threaded through a successor function and ended by a
sentinel: the shape of every intrusive free list and frame stack. `Chain next nil
head xs` says that following `next` from `head` meets exactly `xs`, in order, and
then the sentinel. The lemmas here are the ones an allocator proof needs: a chain
is determined by its head, never repeats a node, survives writes outside its
nodes, and grows or shrinks at the head. -/

namespace Archipelago.Lib

variable {α : Type*}

/-- Following `next` from the head visits `xs` in order and then reaches `nil`. -/
def Chain (next : α → α) (nil : α) : α → List α → Prop
  | h, [] => h = nil
  | h, x :: xs => h = x ∧ x ≠ nil ∧ Chain next nil (next x) xs

namespace Chain

variable {next next' : α → α} {nil hd x : α} {xs ys : List α}

@[simp] theorem nil_iff : Chain next nil hd [] ↔ hd = nil := Iff.rfl

@[simp] theorem cons_iff :
    Chain next nil hd (x :: xs) ↔ hd = x ∧ x ≠ nil ∧ Chain next nil (next x) xs := Iff.rfl

/-- A chain is determined by its head. -/
theorem unique (h₁ : Chain next nil hd xs) (h₂ : Chain next nil hd ys) : xs = ys := by
  induction xs generalizing hd ys with
  | nil =>
      cases ys with
      | nil => rfl
      | cons y ys => exact (h₂.2.1 (h₂.1.symm.trans h₁)).elim
  | cons x xs ih =>
      cases ys with
      | nil => exact (h₁.2.1 (h₁.1.symm.trans h₂)).elim
      | cons y ys =>
          obtain ⟨rfl, -, h₁⟩ := h₁
          obtain ⟨rfl, -, h₂⟩ := h₂
          rw [ih h₁ h₂]

theorem not_mem_nil (h : Chain next nil hd xs) : nil ∉ xs := by
  induction xs generalizing hd with
  | nil => simp
  | cons x xs ih =>
      obtain ⟨-, hx, h⟩ := h
      simp only [List.mem_cons, not_or]
      exact ⟨fun e => hx e.symm, ih h⟩

/-- The part of a chain after a prefix is again a chain, from the node that follows. -/
theorem of_append (h : Chain next nil hd (xs ++ y :: ys)) : Chain next nil y (y :: ys) := by
  induction xs generalizing hd with
  | nil => obtain ⟨rfl, hy, h⟩ := h; exact ⟨rfl, hy, h⟩
  | cons x xs ih => exact ih h.2.2

/-- A chain never visits a node twice: it would then loop and never reach `nil`. -/
theorem nodup (h : Chain next nil hd xs) : xs.Nodup := by
  induction xs generalizing hd with
  | nil => exact List.nodup_nil
  | cons x xs ih =>
      obtain ⟨rfl, hx, hrest⟩ := h
      refine List.nodup_cons.2 ⟨fun hmem => ?_, ih hrest⟩
      obtain ⟨pre, post, rfl⟩ := List.append_of_mem hmem
      have hsuffix := of_append hrest
      have hwhole : Chain next nil hd (hd :: (pre ++ hd :: post)) := ⟨rfl, hx, hrest⟩
      have hlen := congrArg List.length (unique hwhole hsuffix)
      simp only [List.length_cons, List.length_append] at hlen
      omega

/-- Writes to `next` outside the chain's nodes leave the chain intact. -/
theorem frame (h : Chain next nil hd xs) (hsame : ∀ y ∈ xs, next' y = next y) :
    Chain next' nil hd xs := by
  induction xs generalizing hd with
  | nil => exact h
  | cons x xs ih =>
      obtain ⟨rfl, hx, h⟩ := h
      refine ⟨rfl, hx, ?_⟩
      rw [hsame hd (by simp)]
      exact ih h (fun y hy => hsame y (by simp [hy]))

/-- Pushing a fresh node: its link is the old head and every other link is kept. -/
theorem push {a : α} (h : Chain next nil hd xs) (hanil : a ≠ nil)
    (hlink : next' a = hd) (hsame : ∀ y ∈ xs, next' y = next y) :
    Chain next' nil a (a :: xs) :=
  ⟨rfl, hanil, hlink ▸ frame h hsame⟩

/-- Appending a fresh node at the tail: its link is `nil`, the old last node links to it,
and every other link is kept. The head moves to the node only when the chain was empty. -/
theorem snoc {a : α} (h : Chain next nil hd xs) (ha : a ∉ xs) (hanil : a ≠ nil)
    (hna : next' a = nil) (hlast : ∀ y ∈ xs.getLast?, next' y = a)
    (hsame : ∀ y ∈ xs, y ∉ xs.getLast? → next' y = next y) :
    Chain next' nil (if xs = [] then a else hd) (xs ++ [a]) := by
  induction xs generalizing hd with
  | nil =>
    rw [if_pos rfl]
    exact ⟨rfl, hanil, hna⟩
  | cons x xs ih =>
    have hnd := h.nodup
    obtain ⟨rfl, hx, hrest⟩ := h
    rw [if_neg (List.cons_ne_nil _ _)]
    refine ⟨rfl, hx, ?_⟩
    cases xs with
    | nil =>
      rw [hlast hd (by simp)]
      exact ⟨rfl, hanil, hna⟩
    | cons z zs =>
      -- `hd` is not the last node, so its link is kept
      have hlasthd : hd ∉ (hd :: z :: zs).getLast? := by
        rw [List.getLast?_cons_cons]
        exact fun e => (List.nodup_cons.1 hnd).1 (List.mem_of_getLast? e)
      have ih' := ih hrest (fun e => ha (List.mem_cons_of_mem hd e))
        (fun y hy => hlast y (by rwa [List.getLast?_cons_cons]))
        (fun y hy hyl => hsame y (List.mem_cons_of_mem hd hy) (by rwa [List.getLast?_cons_cons]))
      rw [if_neg (List.cons_ne_nil _ _)] at ih'
      rw [hsame hd (by simp) hlasthd]
      exact ih'

section Excise

variable [DecidableEq α]

/-- A node taken out by pointing what pointed at it (the head, or the node before it) at the
node after it; every other link is kept. -/
theorem excise {pre post : List α} (h : Chain next nil hd (pre ++ x :: post))
    (hnext : ∀ y ∈ pre ++ post, next' y = if pre.getLast? = some y then next x else next y) :
    Chain next' nil (if pre = [] then next x else hd) (pre ++ post) := by
  induction pre generalizing hd with
  | nil =>
    obtain ⟨rfl, -, hrest⟩ := h
    rw [if_pos rfl]
    exact hrest.frame fun y hy => by simpa using hnext y (by simpa using hy)
  | cons y ys ih =>
    have hnd := h.nodup
    obtain ⟨rfl, hy, hrest⟩ := h
    rw [if_neg (List.cons_ne_nil _ _)]
    refine ⟨rfl, hy, ?_⟩
    cases ys with
    | nil =>
      -- `hd` was the node before `x`: it now links past `x`
      obtain ⟨-, -, hpost⟩ := hrest
      rw [hnext hd (by simp), List.getLast?_singleton, if_pos rfl]
      refine hpost.frame fun z hz => ?_
      have hzhd : hd ≠ z := fun e => (List.nodup_cons.1 hnd).1 (by simp [e, hz])
      rw [hnext z (by simp [hz]), List.getLast?_singleton, if_neg (fun e => hzhd (Option.some.inj e))]
    | cons z zs =>
      have hlasthd : (hd :: z :: zs).getLast? ≠ some hd := by
        rw [List.getLast?_cons_cons]
        exact fun e => (List.nodup_cons.1 hnd).1 (List.mem_append_left _ (List.mem_of_getLast? e))
      have ih' := ih hrest fun u hu => by
        rw [hnext u (List.mem_cons_of_mem hd hu), List.getLast?_cons_cons]
      rw [if_neg (List.cons_ne_nil _ _)] at ih'
      rw [hnext hd (by simp), if_neg hlasthd]
      exact ih'

end Excise

section Walk

variable [DecidableEq α]

/-- The nodes met following `next` from `hd`, for at most `fuel` steps, before `nil`. -/
def walk (next : α → α) (nil : α) : Nat → α → List α
  | 0, _ => []
  | fuel + 1, hd => if hd = nil then [] else hd :: walk next nil fuel (next hd)

/-- A chain shorter than the fuel is what the walk meets. -/
theorem walk_eq (h : Chain next nil hd xs) {fuel : Nat} (hf : xs.length < fuel) : walk next nil fuel hd = xs := by
  induction xs generalizing hd fuel with
  | nil =>
    cases fuel with
    | zero => rfl
    | succ fuel => simp [walk, show hd = nil from h]
  | cons x xs ih =>
    obtain ⟨rfl, hx, h'⟩ := h
    cases fuel with
    | zero => simp at hf
    | succ fuel => simp [walk, hx, ih h' (by simpa using hf)]

end Walk

theorem head_mem (h : Chain next nil hd xs) (hne : hd ≠ nil) : hd ∈ xs := by
  cases xs with
  | nil => exact absurd h hne
  | cons x xs => simp [h.1]

theorem eq_nil_iff (h : Chain next nil hd xs) : hd = nil ↔ xs = [] := by
  cases xs with
  | nil => simpa using h
  | cons x xs => simpa [h.1] using h.2.1

end Chain

end Archipelago.Lib
