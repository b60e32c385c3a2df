import Archipelago.Lib.Intervals
import Mathlib

/-! Lists of pieces that tile a range: the first piece starts at `a`, each next one where the
one before it ends, and the last ends at `b`. A block allocator that keeps its blocks in address
order with no gap keeps such a list. Replacing a run of pieces by another tiling of the same
range keeps the tiling (a split, a merge); the pieces lie inside the range, in order and apart
(`Tiles.sep`), and their lengths add up to the range. Ranges carried inside pieces that lie
apart lie apart too (`Sep.of_forall₂`). -/

namespace Archipelago.Lib

variable {α : Type*} (lo len : α → Nat)

/-- `l` tiles `[a, b)`. -/
def Tiles : Nat → Nat → List α → Prop
  | a, b, [] => a = b
  | a, b, x :: xs => lo x = a ∧ Tiles (a + len x) b xs

variable {lo len}

@[simp] theorem tiles_nil {a b : Nat} : Tiles lo len a b ([] : List α) ↔ a = b := Iff.rfl

@[simp] theorem tiles_cons {a b : Nat} {x : α} {xs : List α} :
    Tiles lo len a b (x :: xs) ↔ lo x = a ∧ Tiles lo len (a + len x) b xs := Iff.rfl

theorem tiles_append {a c : Nat} :
    ∀ {l₁ l₂ : List α}, Tiles lo len a c (l₁ ++ l₂) ↔ ∃ m, Tiles lo len a m l₁ ∧ Tiles lo len m c l₂
  | [], l₂ => by simp
  | x :: l₁, l₂ => by
    rw [List.cons_append, tiles_cons, tiles_append]
    constructor
    · rintro ⟨hx, m, h₁, h₂⟩
      exact ⟨m, ⟨hx, h₁⟩, h₂⟩
    · rintro ⟨m, ⟨hx, h₁⟩, h₂⟩
      exact ⟨hx, m, h₁, h₂⟩

/-- The lengths of a tiling add up to its range. -/
theorem Tiles.sum_len : ∀ {a b : Nat} {l : List α}, Tiles lo len a b l → a + (l.map len).sum = b
  | _, _, [], h => by
    rw [List.map_nil, List.sum_nil, Nat.add_zero]
    exact h
  | a, _, x :: xs, ⟨_, h⟩ => by
    rw [List.map_cons, List.sum_cons, ← Nat.add_assoc]
    exact h.sum_len

theorem Tiles.le {a b : Nat} {l : List α} (h : Tiles lo len a b l) : a ≤ b :=
  h.sum_len ▸ Nat.le_add_right _ _

/-- Every piece lies inside the range. -/
theorem Tiles.inside : ∀ {a b : Nat} {l : List α}, Tiles lo len a b l → ∀ x ∈ l,
    a ≤ lo x ∧ lo x + len x ≤ b
  | _, _, [], _, _, hx => nomatch hx
  | a, b, y :: ys, ⟨hy, h⟩, x, hx => by
    rcases List.mem_cons.mp hx with rfl | hx
    · exact ⟨hy.ge, hy ▸ h.le⟩
    · have := h.inside x hx
      omega

/-- The pieces come in address order and apart: each ends where or before every later one
starts. -/
theorem Tiles.sep : ∀ {a b : Nat} {l : List α}, Tiles lo len a b l → Sep lo len l
  | _, _, [], _ => List.Pairwise.nil
  | _, _, _ :: _, ⟨hy, h⟩ => List.Pairwise.cons (fun x hx => hy ▸ (h.inside x hx).1) h.sep

/-- A run of pieces may be replaced by any list that tiles whatever range the run tiles. -/
theorem Tiles.replace {a b : Nat} {l₁ m r l₂ : List α} (h : Tiles lo len a b (l₁ ++ m ++ l₂))
    (hr : ∀ c d, Tiles lo len c d m → Tiles lo len c d r) : Tiles lo len a b (l₁ ++ r ++ l₂) := by
  obtain ⟨d, hm₁, h₂⟩ := tiles_append.mp h
  obtain ⟨c, h₁, hm⟩ := tiles_append.mp hm₁
  exact tiles_append.mpr ⟨d, tiles_append.mpr ⟨c, h₁, hr c d hm⟩, h₂⟩

/-- A piece split in two at `n` of its length. -/
theorem tiles_split {x y z : α} (hy : lo y = lo x) (hz : lo z = lo x + len y)
    (hlen : len y + len z = len x) : ∀ c d, Tiles lo len c d [x] → Tiles lo len c d [y, z] := by
  rintro c d ⟨hx, rfl⟩
  refine ⟨hy.trans hx, by rw [hz, hx], ?_⟩
  show c + len y + len z = c + len x
  omega

/-- A piece and the run behind it merged into one. -/
theorem tiles_collapse {x z : α} {ys : List α} (hz : lo z = lo x)
    (hlen : len z = len x + (ys.map len).sum) :
    ∀ c d, Tiles lo len c d (x :: ys) → Tiles lo len c d [z] := by
  rintro c d ⟨hx, h⟩
  refine ⟨hz.trans hx, ?_⟩
  have := h.sum_len
  show c + len z = d
  omega

/-- A piece whose start and length stay. -/
theorem tiles_same {x y : α} (hlo : lo y = lo x) (hlen : len y = len x) :
    ∀ c d, Tiles lo len c d [x] → Tiles lo len c d [y] := by
  rintro c d ⟨hx, rfl⟩
  exact ⟨hlo.trans hx, show c + len y = c + len x by rw [hlen]⟩

/-! ### Ranges carried by pieces

An allocator hands out a range inside each piece in use. The pieces in use and the ranges
correspond one to one (`List.Forall₂`), each range inside its piece; the ranges then lie apart in
the order the pieces do. -/

section Carried

variable {β : Type*}

/-- A correspondence with a concatenation splits where the concatenation does. -/
theorem forall₂_append_left {R : α → β → Prop} :
    ∀ {l₁ l₂ : List α} {m : List β}, List.Forall₂ R (l₁ ++ l₂) m →
      ∃ m₁ m₂, m = m₁ ++ m₂ ∧ List.Forall₂ R l₁ m₁ ∧ List.Forall₂ R l₂ m₂
  | [], _, m, h => ⟨[], m, rfl, .nil, h⟩
  | _ :: _, _, _, .cons hx h => by
    obtain ⟨m₁, m₂, rfl, h₁, h₂⟩ := forall₂_append_left h
    exact ⟨_ :: m₁, m₂, rfl, .cons hx h₁, h₂⟩

theorem forall₂_exists_left {R : α → β → Prop} :
    ∀ {l : List α} {m : List β}, List.Forall₂ R l m → ∀ y ∈ m, ∃ x ∈ l, R x y
  | _, _, .nil, _, hy => nomatch hy
  | x :: _, _, .cons hx h, y, hy => by
    rcases List.mem_cons.mp hy with rfl | hy
    · exact ⟨x, List.mem_cons_self, hx⟩
    · obtain ⟨z, hz, hzy⟩ := forall₂_exists_left h y hy
      exact ⟨z, List.mem_cons_of_mem _ hz, hzy⟩

/-- Ranges inside pieces that lie apart lie apart, in the same order. -/
theorem Sep.of_forall₂ {R : α → β → Prop} {lo' len' : β → Nat} :
    ∀ {l : List α} {m : List β}, Sep lo len l →
      (∀ x ∈ l, ∀ y, R x y → lo x ≤ lo' y ∧ lo' y + len' y ≤ lo x + len x) →
      List.Forall₂ R l m → Sep lo' len' m
  | _, _, _, _, .nil => List.Pairwise.nil
  | x :: _, _, hs, hin, .cons hx h => by
    obtain ⟨hx₁, hs₁⟩ := List.pairwise_cons.mp hs
    refine List.Pairwise.cons (fun w hw => ?_)
      (Sep.of_forall₂ hs₁ (fun z hz => hin z (List.mem_cons_of_mem _ hz)) h)
    obtain ⟨z, hz, hzw⟩ := forall₂_exists_left h w hw
    have hy := hin x List.mem_cons_self _ hx
    have hw' := hin z (List.mem_cons_of_mem _ hz) w hzw
    have := hx₁ z hz
    omega

end Carried

end Archipelago.Lib
