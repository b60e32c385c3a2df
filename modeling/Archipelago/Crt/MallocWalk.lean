import Archipelago.Crt.Malloc

/-! The two walks over the free list and where they stop. `free`'s search stops at the first
block of its walk where the block to free has its spot (`SpotAt`), `malloc`'s pass at the first
block that fits or back at `g_freep`; a walk that meets such a block within its fuel stops there.
On a list kept in increasing order from `g_base` the spot is one block, the last one below the
block freed, and a search from any block of the list finds it within one round. -/

namespace Archipelago.Crt

open Archipelago.Lib

theorem succOf_eq (ring : List Nat) : succOf ring = cycSucc 0 ring := rfl

/-! ### `free`'s search -/

/-- Where `free`'s search stops: `block` lies between `p` and the block after it, or past the
wrap of the list at `p`. -/
def SpotAt (ring : List Nat) (block p : Nat) : Prop :=
  (block > p ∧ block < succOf ring p) ∨ (p ≥ succOf ring p ∧ (block > p ∨ block < succOf ring p))

instance (ring : List Nat) (block p : Nat) : Decidable (SpotAt ring block p) :=
  inferInstanceAs (Decidable (_ ∨ _))

theorem findSpot_succ (ring : List Nat) (block fuel p : Nat) :
    findSpot ring block (fuel + 1) p =
      if SpotAt ring block p then some p else findSpot ring block fuel (succOf ring p) := by
  rw [findSpot]
  by_cases h₁ : block > p ∧ block < succOf ring p
  · rw [if_pos h₁, if_pos (show SpotAt ring block p from Or.inl h₁)]
  · by_cases h₂ : p ≥ succOf ring p ∧ (block > p ∨ block < succOf ring p)
    · rw [if_neg h₁, if_pos h₂, if_pos (show SpotAt ring block p from Or.inr h₂)]
    · rw [if_neg h₁, if_neg h₂, if_neg (show ¬SpotAt ring block p from fun h => h.elim h₁ h₂)]

/-- A search whose walk meets a spot within its fuel stops, at a spot of the walk. -/
theorem findSpot_of_spot {ring : List Nat} {block : Nat} :
    ∀ (fuel p : Nat), (∃ k < fuel, SpotAt ring block ((succOf ring)^[k] p)) →
      ∃ k < fuel, SpotAt ring block ((succOf ring)^[k] p) ∧
        findSpot ring block fuel p = some ((succOf ring)^[k] p)
  | 0, _, ⟨k, hk, _⟩ => absurd hk (Nat.not_lt_zero k)
  | fuel + 1, p, ⟨k, hk, hs⟩ => by
    rw [findSpot_succ]
    by_cases hp : SpotAt ring block p
    · exact ⟨0, Nat.succ_pos fuel, hp, if_pos hp⟩
    · rw [if_neg hp]
      -- the walk's spot lies further on
      obtain ⟨k', rfl⟩ : ∃ k', k = k' + 1 :=
        Nat.exists_eq_succ_of_ne_zero (by rintro rfl; exact hp hs)
      obtain ⟨j, hj, hsj, he⟩ := findSpot_of_spot fuel (succOf ring p) ⟨k', by omega, hs⟩
      exact ⟨j + 1, by omega, hsj, he⟩

section Sorted

variable {l₁ l₂ : List Nat} {p block : Nat}

/-- On an increasing list split at `p`, with `block` above `p` and below all after it, the spot
of `block` is `p` alone. -/
theorem spotAt_iff (hs : (l₁ ++ p :: l₂).Pairwise (· < ·)) (hp : p < block)
    (h₂ : ∀ y ∈ l₂, block < y) {x : Nat} (hx : x ∈ l₁ ++ p :: l₂) :
    SpotAt (l₁ ++ p :: l₂) block x ↔ x = p := by
  have hmem : p ∈ l₁ ++ p :: l₂ := List.mem_append_right _ List.mem_cons_self
  -- nothing of the list lies between `p` and `block`
  have hsplit : ∀ y ∈ l₁ ++ p :: l₂, y ≤ p ∨ block < y := by
    intro y hy
    rcases List.mem_append.mp hy with hy | hy
    · exact .inl ((List.pairwise_append.mp hs).2.2 y hy p List.mem_cons_self).le
    · rcases List.mem_cons.mp hy with rfl | hy
      exacts [.inl le_rfl, .inr (h₂ y hy)]
  have hhead : (l₁ ++ p :: l₂).headD 0 ≤ p := by
    cases l₁ with
    | nil => exact le_rfl
    | cons a l => exact ((List.pairwise_cons.mp hs).1 p (List.mem_append_right _ List.mem_cons_self)).le
  unfold SpotAt
  rw [succOf_eq]
  rcases cycSucc_sorted 0 hs hx with ⟨hlt, hleast⟩ | ⟨hfirst, hgreatest⟩
  · -- `x` has a successor above it, the least block above it
    have hsx := hsplit _ (cycSucc_mem 0 (hs.imp ne_of_lt) hx)
    constructor
    · rintro (⟨h₁, h₂'⟩ | ⟨h₁, -⟩)
      · rcases hsplit x hx with hxp | hxb
        · rcases Nat.lt_or_eq_of_le hxp with hxp | hxp
          · have := hleast p hmem hxp
            omega
          · exact hxp
        · omega
      · omega
    · rintro rfl
      exact .inl ⟨hp, by omega⟩
  · -- `x` is the greatest, followed by the first
    rw [hfirst]
    have hpx := hgreatest p hmem
    constructor
    · rintro (⟨-, h₁⟩ | ⟨-, h₁ | h₁⟩)
      · omega
      · rcases hsplit x hx with hxp | hxb
        · omega
        · omega
      · omega
    · rintro rfl
      exact .inr ⟨hhead, .inl hp⟩

/-- From any block of the list, `free`'s search for a block above `p` and below all after it
stops at `p`. -/
theorem findSpot_eq (hs : (l₁ ++ p :: l₂).Pairwise (· < ·)) (hp : p < block)
    (h₂ : ∀ y ∈ l₂, block < y) {f : Nat} (hf : f ∈ l₁ ++ p :: l₂) :
    findSpot (l₁ ++ p :: l₂) block (l₁ ++ p :: l₂).length f = some p := by
  have hnd := hs.imp ne_of_lt
  obtain ⟨k, hk, hkp⟩ := cycSucc_reach 0 hnd hf (List.mem_append_right _ List.mem_cons_self)
  have hspot : SpotAt (l₁ ++ p :: l₂) block ((succOf (l₁ ++ p :: l₂))^[k] f) := by
    rw [succOf_eq, hkp]
    exact (spotAt_iff hs hp h₂ (List.mem_append_right _ List.mem_cons_self)).mpr rfl
  obtain ⟨j, -, hj, he⟩ := findSpot_of_spot _ f ⟨k, hk, hspot⟩
  rw [he, (spotAt_iff hs hp h₂ (succOf_eq _ ▸ cycSucc_iterate_mem 0 hnd hf j)).mp hj]

end Sorted

/-! ### `malloc`'s pass -/

/-- The end of a pass at a block that fits: taken whole when it fits exactly, its tail carved
off otherwise. -/
def Heap.take (h : Heap) (units prev p : Nat) : Pass :=
  if h.units p = units then .found { h with ring := h.ring.erase p, freep := prev } (p + HEADER)
  else
    let rest := h.units p - units
    let tail := p + HEADER * rest
    .found { h with units := Function.update (Function.update h.units p rest) tail units,
                    freep := prev } (tail + HEADER)

theorem pass_succ (h : Heap) (units fuel prev p : Nat) :
    pass h units (fuel + 1) prev p =
      if units ≤ h.units p then h.take units prev p
      else if p = h.freep then .wrapped else pass h units fuel p (succOf h.ring p) := rfl

/-- A pass whose walk comes back to `g_freep` within its fuel ends at the first block of the
walk that fits, or wraps. -/
theorem pass_cases (h : Heap) (units : Nat) :
    ∀ (fuel prev : Nat), (∃ k < fuel, (succOf h.ring)^[k + 1] prev = h.freep) →
      (∃ k < fuel, units ≤ h.units ((succOf h.ring)^[k + 1] prev) ∧
          pass h units fuel prev (succOf h.ring prev) =
            h.take units ((succOf h.ring)^[k] prev) ((succOf h.ring)^[k + 1] prev)) ∨
        pass h units fuel prev (succOf h.ring prev) = .wrapped
  | 0, _, ⟨k, hk, _⟩ => absurd hk (Nat.not_lt_zero k)
  | fuel + 1, prev, ⟨k, hk, hf⟩ => by
    rw [pass_succ]
    by_cases hu : units ≤ h.units (succOf h.ring prev)
    · exact .inl ⟨0, Nat.succ_pos fuel, hu, if_pos hu⟩
    · rw [if_neg hu]
      by_cases hp : succOf h.ring prev = h.freep
      · exact .inr (if_pos hp)
      · rw [if_neg hp]
        obtain ⟨k', rfl⟩ : ∃ k', k = k' + 1 :=
          Nat.exists_eq_succ_of_ne_zero (by rintro rfl; exact hp hf)
        rcases pass_cases h units fuel (succOf h.ring prev) ⟨k', by omega, hf⟩ with
          ⟨j, hj, hu', he⟩ | hw
        · exact .inl ⟨j + 1, by omega, hu', he⟩
        · exact .inr hw

theorem take_ne_wrapped (h : Heap) (units prev p : Nat) : h.take units prev p ≠ .wrapped := by
  unfold Heap.take
  split <;> nofun

/-- A pass that wraps met no block that fits on its walk back to `g_freep`. -/
theorem pass_wrapped (h : Heap) (units : Nat) :
    ∀ (fuel prev : Nat), pass h units fuel prev (succOf h.ring prev) = .wrapped →
      ∀ k < fuel, (∀ i < k, (succOf h.ring)^[i + 1] prev ≠ h.freep) →
        h.units ((succOf h.ring)^[k + 1] prev) < units
  | 0, _, _, k, hk, _ => absurd hk (Nat.not_lt_zero k)
  | fuel + 1, prev, hw, k, hk, hne => by
    rw [pass_succ] at hw
    have hu : ¬units ≤ h.units (succOf h.ring prev) := fun hu =>
      take_ne_wrapped h units prev _ (by rw [if_pos hu] at hw; exact hw)
    rw [if_neg hu] at hw
    cases k with
    | zero => exact Nat.lt_of_not_le hu
    | succ k =>
      -- the walk went on past the first block, which is not `g_freep`
      rw [if_neg (show succOf h.ring prev ≠ h.freep from hne 0 (Nat.succ_pos k))] at hw
      have := pass_wrapped h units fuel (succOf h.ring prev) hw k (by omega) fun i hi => by
        rw [← Function.iterate_succ_apply]
        exact hne (i + 1) (by omega)
      rwa [← Function.iterate_succ_apply] at this

end Archipelago.Crt
