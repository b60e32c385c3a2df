import Mathlib

/-! Relations read as directed graphs, and the facts a cycle check rests on. A set closed under
the relation that holds `a` but not `b` shows that no path leads from `a` to `b`; this is how a
depth-first search that gives up justifies its answer. A relation stays acyclic when an edge is
added whose target cannot reach its source, and when edges are taken away. -/

namespace Archipelago.Lib

open Relation

variable {α : Type*}

/-- No nonempty path leads from a node back to itself. -/
def Acyclic (r : α → α → Prop) : Prop := ∀ a, ¬TransGen r a a

/-- Every path that starts in a closed set stays in it. -/
theorem mem_of_reflTransGen_closed {r : α → α → Prop} {S : Set α}
    (hS : ∀ u ∈ S, ∀ w, r u w → w ∈ S) {a b : α} (h : ReflTransGen r a b) (ha : a ∈ S) : b ∈ S := by
  induction h with
  | refl => exact ha
  | tail _ hbc ih => exact hS _ ih _ hbc

theorem Acyclic.mono {r s : α → α → Prop} (hs : Acyclic s) (h : ∀ a b, r a b → s a b) :
    Acyclic r :=
  fun a hc => hs a (TransGen.mono h _ _ hc)

/-- A path in a relation with one more edge `a → b` does not use it, or goes to `a` before its
first use and from `b` after its last. -/
theorem reflTransGen_insert {r : α → α → Prop} {a b x y : α}
    (h : ReflTransGen (fun u v => r u v ∨ (u = a ∧ v = b)) x y) :
    ReflTransGen r x y ∨ (ReflTransGen r x a ∧ ReflTransGen r b y) := by
  induction h with
  | refl => exact .inl .refl
  | tail _ hyz ih =>
    rcases hyz with hyz | ⟨rfl, rfl⟩
    · rcases ih with hxy | ⟨hxa, hby⟩
      · exact .inl (hxy.tail hyz)
      · exact .inr ⟨hxa, hby.tail hyz⟩
    · rcases ih with hxy | ⟨hxa, -⟩
      · exact .inr ⟨hxy, .refl⟩
      · exact .inr ⟨hxa, .refl⟩

/-- Adding an edge `a → b` keeps a relation acyclic when `b` does not reach `a`. -/
theorem Acyclic.insert {r : α → α → Prop} (hr : Acyclic r) {a b : α}
    (hba : ¬ReflTransGen r b a) : Acyclic (fun u v => r u v ∨ (u = a ∧ v = b)) := by
  intro x hx
  obtain ⟨y, hxy, hyx⟩ := TransGen.head'_iff.mp hx
  rcases hxy with hxy | ⟨rfl, rfl⟩
  · -- the cycle leaves `x` by an old edge: either it is old throughout, or it closes `b → a`
    rcases reflTransGen_insert hyx with hyx | ⟨hya, hbx⟩
    · exact hr x (TransGen.head'_iff.mpr ⟨y, hxy, hyx⟩)
    · exact hba ((hbx.tail hxy).trans hya)
  · -- the cycle starts with the new edge, so its rest leads from `b` back to `a`
    rcases reflTransGen_insert hyx with hyx | ⟨hya, -⟩
    · exact hba hyx
    · exact hba hya

end Archipelago.Lib
