import Mathlib.Logic.Function.Basic
import Mathlib.Data.List.Range

/-! Bounded ring buffers as systems code writes them: `n` slots, a `head` index and a
`count`, the element `i` places behind the head in slot `(head + i) % n`. `toList` reads
the live slots front first. `push` is an enqueue of that list while the count is below
`n`, `pop` a dequeue of its front while the count is positive, and both keep `head < n`
and `count ≤ n` (`Valid`). A window of `n` consecutive positions sits in distinct slots, and
a scan over one that visits the positions holding a value ends with those values in order. -/

namespace Archipelago.Lib

/-- A ring of `n` slots holding `count` elements from slot `head` on. -/
structure Ring (α : Type*) (n : Nat) where
  slots : Nat → α
  head : Nat
  count : Nat

namespace Ring

variable {α : Type*} {n : Nat}

/-- The empty ring: every slot holds the default. -/
def empty [Inhabited α] : Ring α n := ⟨fun _ => default, 0, 0⟩

/-- The slot of the element `i` places behind the head. -/
def slot (r : Ring α n) (i : Nat) : Nat := (r.head + i) % n

/-- The elements, front first. -/
def toList (r : Ring α n) : List α := (List.range r.count).map fun i => r.slots (r.slot i)

/-- `slots[(head + count) % n] = x; count++`. -/
def push (r : Ring α n) (x : α) : Ring α n :=
  { r with slots := Function.update r.slots (r.slot r.count) x, count := r.count + 1 }

/-- `slots[head]`. -/
def front (r : Ring α n) : α := r.slots r.head

/-- Move the front out, `head = (head + 1) % n; count--`; the vacated slot holds the
default. -/
def pop [Inhabited α] (r : Ring α n) : Ring α n where
  slots := Function.update r.slots r.head default
  head := (r.head + 1) % n
  count := r.count - 1

/-- The head is a slot and the count fits. -/
structure Valid (r : Ring α n) : Prop where
  head_lt : r.head < n
  count_le : r.count ≤ n

variable {r : Ring α n}

@[simp] theorem count_push (r : Ring α n) (x : α) : (r.push x).count = r.count + 1 := rfl

@[simp] theorem count_pop [Inhabited α] (r : Ring α n) : r.pop.count = r.count - 1 := rfl

@[simp] theorem count_empty [Inhabited α] : (empty : Ring α n).count = 0 := rfl

@[simp] theorem length_toList (r : Ring α n) : r.toList.length = r.count := by
  simp [toList]

@[simp] theorem toList_empty [Inhabited α] : (empty : Ring α n).toList = [] := rfl

theorem toList_eq_nil_iff : r.toList = [] ↔ r.count = 0 := by
  simp [toList]

theorem valid_empty [Inhabited α] (hn : 0 < n) : (empty : Ring α n).Valid := ⟨hn, Nat.zero_le _⟩

/-- Positions fewer than `n` apart sit in different slots. -/
theorem slot_ne (r : Ring α n) {i j : Nat} (hij : i < j) (hj : j < n) : r.slot i ≠ r.slot j := by
  intro h
  have h0 := Nat.sub_mod_eq_zero_of_mod_eq h.symm
  rw [show r.head + j - (r.head + i) = j - i by omega, Nat.mod_eq_of_lt (by omega)] at h0
  omega

theorem slot_zero (hv : r.Valid) : r.slot 0 = r.head := Nat.mod_eq_of_lt hv.head_lt

theorem toList_push (r : Ring α n) (x : α) (hc : r.count < n) :
    (r.push x).toList = r.toList ++ [x] := by
  simp only [toList, count_push, List.range_succ, List.map_append, List.map_cons, List.map_nil]
  congr 1
  · refine List.map_congr_left fun i hi => ?_
    exact Function.update_of_ne (r.slot_ne (List.mem_range.1 hi) hc) _ _
  · exact congrArg (fun f => [f]) (Function.update_self _ _ _)

/-- A ring with elements is its front followed by what `pop` leaves. -/
theorem toList_eq_front_cons [Inhabited α] (hv : r.Valid) (hc : r.count ≠ 0) :
    r.toList = r.front :: r.pop.toList := by
  obtain ⟨c, hcount⟩ := Nat.exists_eq_succ_of_ne_zero hc
  have hpop : r.pop.count = c := by simp [hcount]
  simp only [toList, hcount, hpop, List.range_succ_eq_map, List.map_cons, List.map_map]
  congr 1
  · rw [slot_zero hv]
    rfl
  · refine List.map_congr_left fun i hi => ?_
    -- the element `i + 1` behind the old head is the element `i` behind the new one
    have hslot : r.pop.slot i = r.slot (i + 1) := by
      simp only [slot, pop, Nat.mod_add_mod]
      rw [Nat.add_assoc, Nat.add_comm 1 i]
    have hne : r.slot (i + 1) ≠ r.head := by
      rw [← slot_zero hv]
      exact (r.slot_ne (Nat.succ_pos i) (by have := hv.count_le; simp at hi; omega)).symm
    simp only [Function.comp_apply, hslot]
    exact (Function.update_of_ne hne _ _).symm

/-- The first `t` elements, read slot by slot. -/
theorem take_toList (r : Ring α n) (t : Nat) (ht : t ≤ r.count) :
    r.toList.take t = (List.range t).map fun k => r.slots (r.slot k) := by
  rw [toList, ← List.map_take, List.take_range, Nat.min_eq_left ht]

/-- Moving the head on `t` slots drops the first `t` elements. -/
theorem toList_advance (r : Ring α n) (t : Nat) :
    ({ r with head := (r.head + t) % n, count := r.count - t } : Ring α n).toList = r.toList.drop t := by
  apply List.ext_getElem (by simp)
  intro i h₁ h₂
  simp only [toList, slot, List.getElem_drop, List.getElem_map, List.getElem_range, Nat.mod_add_mod]
  rw [Nat.add_assoc]

/-- Filling the `xs.length` slots behind the live ones while keeping the live ones appends
`xs`. -/
theorem toList_extend (r : Ring α n) (slots : Nat → α) (xs : List α)
    (hkeep : ∀ i < r.count, slots (r.slot i) = r.slots (r.slot i))
    (hnew : ∀ k (hk : k < xs.length), slots (r.slot (r.count + k)) = xs[k]) :
    ({ r with slots := slots, count := r.count + xs.length } : Ring α n).toList = r.toList ++ xs := by
  apply List.ext_getElem (by simp [toList])
  intro i h₁ h₂
  have hslot : ({ r with slots := slots, count := r.count + xs.length } : Ring α n).slot i = r.slot i := rfl
  simp only [toList, List.getElem_map, List.getElem_range, hslot] at h₁ ⊢
  by_cases hi : i < r.count
  · rw [List.getElem_append_left (by simpa using hi)]
    simp [hkeep i hi]
  · rw [List.getElem_append_right (by simpa using hi)]
    have hk : i - r.count < xs.length := by simp at h₁; omega
    have := hnew (i - r.count) hk
    rw [Nat.add_sub_cancel' (by omega)] at this
    simpa using this

theorem Valid.push (hv : r.Valid) (x : α) (hc : r.count < n) : (r.push x).Valid :=
  ⟨hv.head_lt, hc⟩

theorem Valid.pop [Inhabited α] (hv : r.Valid) : r.pop.Valid :=
  ⟨Nat.mod_lt _ (Nat.zero_lt_of_lt hv.head_lt), Nat.le_trans (Nat.sub_le _ _) hv.count_le⟩

end Ring

/-- Positions of one window of `n` consecutive positions sit in distinct slots of `n`. -/
theorem eq_of_mod_eq_of_window {n a j k : Nat} (hj : a ≤ j) (hj' : j < a + n) (hk : a ≤ k)
    (hk' : k < a + n) (h : j % n = k % n) : j = k := by
  rcases Nat.lt_trichotomy j k with hlt | heq | hgt
  · have hdvd := Nat.dvd_of_mod_eq_zero (Nat.sub_mod_eq_zero_of_mod_eq h.symm)
    have := Nat.eq_zero_of_dvd_of_lt hdvd (by omega)
    omega
  · exact heq
  · have hdvd := Nat.dvd_of_mod_eq_zero (Nat.sub_mod_eq_zero_of_mod_eq h)
    have := Nat.eq_zero_of_dvd_of_lt hdvd (by omega)
    omega

/-- A scan over a window that visits the positions holding a value (`f x = some y`) and keeps a
cursor derived from the last one visited ends with the values in order and the cursor of the
last of them, or the cursor it started with when there is none. -/
theorem foldl_visit {α β γ : Type*} (f : α → Option β) (g : β → γ) :
    ∀ (l : List α) (acc : List β × γ),
      l.foldl (fun acc x => (f x).elim acc fun y => (acc.1 ++ [y], g y)) acc =
        (acc.1 ++ l.filterMap f, ((l.filterMap f).getLast?.map g).getD acc.2)
  | [], acc => by simp
  | x :: l, acc => by
    rw [List.foldl_cons, foldl_visit f g l]
    cases hx : f x with
    | none => simp only [Option.elim, List.filterMap_cons_none hx]
    | some y =>
      -- the cursor of `y` is the fallback for the cursor of the rest
      rw [List.filterMap_cons_some hx, List.getLast?_cons]
      cases (l.filterMap f).getLast? <;> simp

end Archipelago.Lib
