import Mathlib

/-! Address ranges measured by a length function, and the memory a list of extents maps. A
range `[x, x + len x)` starts at its own address; two lie apart when one ends at or before the
other starts. `Covered E lo hi` says every address of `[lo, hi)` lies in one of the extents
`(start, size)` of `E`. The lemmas are the ones a heap over mapped arenas rests on: ranges that
shrink stay apart and covered, two adjacent covered ranges make one, a range apart from two
adjacent ones is apart from their union, and a covered range lies apart from an extent that
meets none of `E`. Extents that lie apart below `N` have sizes adding up to at most `N`
(`sum_le_of_apart`), which bounds how many arenas an address space holds. -/

namespace Archipelago.Lib

/-- `[x, x + len x)` and `[y, y + len y)` do not overlap. -/
def Apart (len : Nat → Nat) (x y : Nat) : Prop := x + len x ≤ y ∨ y + len y ≤ x

instance (len : Nat → Nat) (x y : Nat) : Decidable (Apart len x y) :=
  inferInstanceAs (Decidable (_ ∨ _))

section Apart

variable {len len' : Nat → Nat} {x y z : Nat}

theorem Apart.symm (h : Apart len x y) : Apart len y x := Or.symm h

/-- Ranges that shrink stay apart. -/
theorem Apart.mono (h : Apart len x y) (hx : len' x ≤ len x) (hy : len' y ≤ len y) :
    Apart len' x y := by
  unfold Apart at *
  omega

/-- A non-empty range apart from two adjacent ranges is apart from the range they make. -/
theorem Apart.merge (hxz : Apart len x z) (hyz : Apart len y z) (hxy : x + len x = y)
    (hz : 0 < len z) (hlen : len' x = len x + len y) (hlz : len' z = len z) : Apart len' x z := by
  unfold Apart at *
  omega

/-- A range never lies apart from itself unless it is empty. -/
theorem Apart.ne (h : Apart len x y) (hx : 0 < len x) : x ≠ y := by
  rintro rfl
  unfold Apart at h
  omega

end Apart

/-- Every address of `[lo, hi)` lies in one of the extents of `E`. -/
def Covered (E : List (Nat × Nat)) (lo hi : Nat) : Prop :=
  ∀ a, lo ≤ a → a < hi → ∃ e ∈ E, e.1 ≤ a ∧ a < e.1 + e.2

section Covered

variable {E E' : List (Nat × Nat)} {lo hi : Nat}

theorem Covered.mono (h : Covered E lo hi) {lo' hi' : Nat} (hlo : lo ≤ lo') (hhi : hi' ≤ hi) :
    Covered E lo' hi' :=
  fun a ha₁ ha₂ => h a (hlo.trans ha₁) (lt_of_lt_of_le ha₂ hhi)

theorem Covered.append (h₁ : Covered E lo hi) {hi' : Nat} (h₂ : Covered E hi hi') :
    Covered E lo hi' := by
  intro a ha₁ ha₂
  rcases Nat.lt_or_ge a hi with h | h
  · exact h₁ a ha₁ h
  · exact h₂ a h ha₂

theorem Covered.subset (h : Covered E lo hi) (hE : E ⊆ E') : Covered E' lo hi := by
  intro a ha₁ ha₂
  obtain ⟨e, he, hea⟩ := h a ha₁ ha₂
  exact ⟨e, hE he, hea⟩

theorem covered_extent (s n : Nat) (E : List (Nat × Nat)) : Covered ((s, n) :: E) s (s + n) :=
  fun _ ha₁ ha₂ => ⟨(s, n), List.mem_cons_self, ha₁, ha₂⟩

/-- A non-empty covered range lies apart from a non-empty extent that meets none of the
extents. -/
theorem Covered.apart (h : Covered E lo hi) (hne : lo < hi) {s n : Nat} (hn : 0 < n)
    (hs : ∀ e ∈ E, s + n ≤ e.1 ∨ e.1 + e.2 ≤ s) : hi ≤ s ∨ s + n ≤ lo := by
  by_contra hmeet
  -- the later of the two starts lies in both
  obtain ⟨e, he, hea⟩ := h (max lo s) (le_max_left _ _) (by omega)
  have := hs e he
  omega

end Covered

/-! ### Packing -/

/-- The extents `(start, size)` `e` and `f` do not overlap. -/
def Separate (e f : Nat × Nat) : Prop := e.1 + e.2 ≤ f.1 ∨ f.1 + f.2 ≤ e.1

/-- The addresses the extents cover. -/
def cover : List (Nat × Nat) → Finset Nat
  | [] => ∅
  | e :: E => Finset.Ico e.1 (e.1 + e.2) ∪ cover E

theorem mem_cover {a : Nat} :
    ∀ {E : List (Nat × Nat)}, a ∈ cover E ↔ ∃ e ∈ E, e.1 ≤ a ∧ a < e.1 + e.2
  | [] => by simp [cover]
  | e :: E => by simp [cover, mem_cover]

/-- Extents that lie apart cover as many addresses as their sizes add up to. -/
theorem card_cover :
    ∀ {E : List (Nat × Nat)}, E.Pairwise Separate → (cover E).card = (E.map Prod.snd).sum
  | [] => fun _ => rfl
  | e :: E => fun h => by
    obtain ⟨he, hE⟩ := List.pairwise_cons.mp h
    have hdisj : Disjoint (Finset.Ico e.1 (e.1 + e.2)) (cover E) := by
      rw [Finset.disjoint_left]
      intro a ha haE
      obtain ⟨f, hf, hfa⟩ := mem_cover.mp haE
      have hsep := he f hf
      rw [Finset.mem_Ico] at ha
      unfold Separate at hsep
      omega
    rw [cover, Finset.card_union_of_disjoint hdisj, Nat.card_Ico, card_cover hE, List.map_cons,
      List.sum_cons]
    omega

/-- **Packing.** Extents that lie apart below `N` have sizes adding up to at most `N`. -/
theorem sum_le_of_apart {E : List (Nat × Nat)} {N : Nat} (h : E.Pairwise Separate)
    (hN : ∀ e ∈ E, e.1 + e.2 ≤ N) : (E.map Prod.snd).sum ≤ N := by
  have hsub : cover E ⊆ Finset.range N := by
    intro a ha
    obtain ⟨e, he, hea⟩ := mem_cover.mp ha
    have := hN e he
    rw [Finset.mem_range]
    omega
  rw [← card_cover h]
  simpa using Finset.card_le_card hsub

end Archipelago.Lib
