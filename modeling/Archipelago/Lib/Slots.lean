import Mathlib.Data.List.GetD
import Mathlib.Algebra.Order.Group.Multiset

/-! Arrays modelled as lists read with a default (`getD`) and written with `set`:
the read-after-write rule and the reads of a grown array. The default is what a
freshly pushed slot holds, so reads past the end agree with the source's view of
newly created slots. -/

namespace Archipelago.Lib

variable {α : Type*}

theorem getD_set (l : List α) (i j : Nat) (a d : α) :
    (l.set i a).getD j d = if i = j ∧ i < l.length then a else l.getD j d := by
  simp only [List.getD_eq_getElem?_getD, List.getElem?_set]
  by_cases hij : i = j
  · subst hij
    by_cases hi : i < l.length
    · simp [hi]
    · simp [hi]
  · simp [hij]

theorem getD_set_self (l : List α) {i : Nat} (a d : α) (hi : i < l.length) :
    (l.set i a).getD i d = a := by
  simp [hi]

theorem getD_set_ne (l : List α) {i j : Nat} (a d : α) (hij : i ≠ j) :
    (l.set i a).getD j d = l.getD j d := by
  simp [hij]

/-- Writing back what was read changes nothing. -/
theorem set_getD_self (l : List α) (i : Nat) (d : α) : l.set i (l.getD i d) = l := by
  by_cases hi : i < l.length
  · rw [List.getD_eq_getElem _ _ hi, List.set_getElem_self]
  · exact List.set_eq_of_length_le (Nat.le_of_not_lt hi)

/-- Reads of an array grown by `n` default slots. -/
theorem getD_append_replicate (l : List α) (n j : Nat) (d : α) :
    (l ++ List.replicate n d).getD j d = l.getD j d := by
  by_cases hj : j < l.length
  · exact List.getD_append l _ d j hj
  · rw [List.getD_append_right l _ d j (Nat.le_of_not_lt hj)]
    simp only [List.getD_eq_getElem?_getD, List.getElem?_getD_replicate_default_eq]
    rw [List.getElem?_eq_none (Nat.le_of_not_lt hj)]
    rfl

/-- A slot read after a `push_back` is the old slot there or the one pushed. -/
theorem getD_append_singleton (l : List α) (x d : α) (j : Nat) :
    (l ++ [x]).getD j d = l.getD j d ∨ (l ++ [x]).getD j d = x := by
  by_cases hj : j < l.length
  · exact .inl (List.getD_append l _ d j hj)
  · rw [List.getD_append_right l _ d j (Nat.le_of_not_lt hj)]
    by_cases hj' : j - l.length = 0
    · exact .inr (by simp [hj'])
    · -- past the new end both reads give the default
      left
      simp only [List.getD_eq_getElem?_getD, List.getElem?_eq_none (Nat.le_of_not_lt hj),
        List.getElem?_singleton, hj', if_false, Option.getD_none]

/-- Two arrays of one length that agree on `p` slot by slot count `p` alike. -/
theorem countP_eq_of_getD {p : α → Bool} {d : α} :
    ∀ {l₁ l₂ : List α}, l₁.length = l₂.length → (∀ j, p (l₁.getD j d) = p (l₂.getD j d)) →
      l₁.countP p = l₂.countP p
  | [], [], _, _ => rfl
  | a :: as, b :: bs, hlen, h => by
      have hab : p a = p b := h 0
      have hrest := countP_eq_of_getD (show as.length = bs.length by simpa using hlen)
        (fun j => h (j + 1))
      simp only [List.countP_cons, hab, hrest]

/-- Two arrays of one length that agree on `f` slot by slot filter-map alike. -/
theorem filterMap_eq_of_getD {β : Type*} {f : α → Option β} {d : α} :
    ∀ {l₁ l₂ : List α}, l₁.length = l₂.length → (∀ j, f (l₁.getD j d) = f (l₂.getD j d)) →
      l₁.filterMap f = l₂.filterMap f
  | [], [], _, _ => rfl
  | a :: as, b :: bs, hlen, h => by
      have hab : f a = f b := h 0
      have hrest := filterMap_eq_of_getD (show as.length = bs.length by simpa using hlen)
        (fun j => h (j + 1))
      simp only [List.filterMap_cons, hab, hrest]

theorem coe_filterMap_cons {β : Type*} (f : α → Option β) (a : α) (l : List α) :
    ((a :: l).filterMap f : Multiset β) = ((f a).toList : Multiset β) + (l.filterMap f : Multiset β) := by
  cases h : f a <;> simp [h]

/-- Overwriting slot `i` trades the image of the old element for that of the new one,
counted as a multiset. -/
theorem coe_filterMap_set {β : Type*} (f : α → Option β) (a : α) :
    ∀ {l : List α} {i : Nat} (hi : i < l.length),
      ((l.set i a).filterMap f : Multiset β) + ((f l[i]).toList : Multiset β) =
        (l.filterMap f : Multiset β) + ((f a).toList : Multiset β)
  | x :: xs, 0, _ => by
      simp only [List.set_cons_zero, coe_filterMap_cons, List.getElem_cons_zero]
      simp only [add_comm, add_left_comm, add_assoc]
  | x :: xs, k + 1, hk => by
      simp only [List.set_cons_succ, coe_filterMap_cons, List.getElem_cons_succ]
      rw [add_assoc, coe_filterMap_set f a (i := k) (by simpa using hk), add_assoc]

/-- Overwriting entry `i` of a list of summands trades the old entry for the new one in
the sum. -/
theorem sum_set_add {M : Type*} [AddCommMonoid M] (x : M) :
    ∀ {l : List M} {i : Nat} (hi : i < l.length), (l.set i x).sum + l[i] = l.sum + x
  | y :: ys, 0, _ => by
      simp only [List.set_cons_zero, List.sum_cons, List.getElem_cons_zero]
      simp only [add_comm, add_left_comm]
  | y :: ys, k + 1, hk => by
      simp only [List.set_cons_succ, List.sum_cons, List.getElem_cons_succ]
      rw [add_assoc, sum_set_add x (i := k) (by simpa using hk), add_assoc]

/-- Overwriting entry `i` trades its image for the new entry's in a flat map, up to
order: the list form of `sum_set_add`. -/
theorem flatMap_set_perm {β : Type*} (f : α → List β) (a : α) :
    ∀ {l : List α} {i : Nat} (hi : i < l.length),
      List.Perm ((l.set i a).flatMap f ++ f l[i]) (l.flatMap f ++ f a)
  | x :: xs, 0, _ => by
      simp only [List.set_cons_zero, List.flatMap_cons, List.getElem_cons_zero, List.append_assoc]
      calc List.Perm (f a ++ (xs.flatMap f ++ f x)) ((xs.flatMap f ++ f x) ++ f a) :=
            List.perm_append_comm
        List.Perm _ ((f x ++ xs.flatMap f) ++ f a) := List.perm_append_comm.append_right _
        _ = f x ++ (xs.flatMap f ++ f a) := List.append_assoc _ _ _
  | x :: xs, k + 1, hk => by
      simp only [List.set_cons_succ, List.flatMap_cons, List.getElem_cons_succ, List.append_assoc]
      exact (flatMap_set_perm f a (i := k) (by simpa using hk)).append_left (f x)

/-- An element read from a list after a `push_back` is an old one or the one pushed. -/
theorem getElem?_append_singleton {l : List α} {x y : α} {j : Nat} (h : (l ++ [x])[j]? = some y) :
    l[j]? = some y ∨ y = x := by
  rw [List.getElem?_append] at h
  split at h
  · rename_i hj
    rw [List.getElem?_eq_getElem hj] at h ⊢
    exact .inl h
  · rw [List.getElem?_singleton] at h
    split at h
    · cases h
      exact .inr rfl
    · cases h

/-- `vector::swap_remove`: the last element moves into slot `i` and the vector shrinks by
one; an index past the end changes nothing. -/
def swapRemove (l : List α) (i : Nat) : List α :=
  if i < l.length then
    match l.getLast? with
    | some x => (l.set i x).dropLast
    | none => l
  else l

/-- Removing by swap keeps only elements that were there. -/
theorem mem_of_mem_swapRemove {l : List α} {i : Nat} {a : α} (h : a ∈ swapRemove l i) : a ∈ l := by
  unfold swapRemove at h
  split at h
  · split at h
    · rename_i x hx
      have hxl : x ∈ l := List.mem_of_getLast? hx
      rcases List.mem_or_eq_of_mem_set (List.dropLast_subset _ h) with h | rfl
      exacts [h, hxl]
    · exact h
  · exact h

/-- Overwriting the first element passing a test with another that passes keeps it first. -/
theorem findIdx?_set {p : α → Bool} {l : List α} {i : Nat} {x : α} (h : l.findIdx? p = some i)
    (hx : p x = true) : (l.set i x).findIdx? p = some i := by
  obtain ⟨hi, -, hbefore⟩ := List.findIdx?_eq_some_iff_getElem.1 h
  refine List.findIdx?_eq_some_iff_getElem.2 ⟨by simpa using hi, by simpa using hx, fun j hji => ?_⟩
  rw [List.getElem_set_ne (by omega)]
  exact hbefore j hji

/-- The first element a partial map is defined on is the one at `findIdx?` of definedness. -/
theorem findSome?_of_findIdx? {β : Type*} {g : α → Option β} :
    ∀ {l : List α} {i : Nat}, l.findIdx? (fun a => (g a).isSome) = some i →
      ∀ {a : α}, l[i]? = some a → l.findSome? g = g a
  | [], _, h, _, _ => by simp at h
  | x :: xs, i, h, a, ha => by
    rw [List.findIdx?_cons] at h
    cases hx : g x with
    | some b =>
      simp only [hx, Option.isSome_some, ↓reduceIte, Option.some.injEq] at h
      subst h
      simp only [List.getElem?_cons_zero, Option.some.injEq] at ha
      subst ha
      simp [hx]
    | none =>
      simp only [hx, Option.isSome_none, Bool.false_eq_true, ↓reduceIte, Option.map_eq_some_iff] at h
      obtain ⟨j, hj, rfl⟩ := h
      simp only [List.getElem?_cons_succ] at ha
      rw [List.findSome?_cons, hx]
      exact findSome?_of_findIdx? hj ha

/-- A buffer written in order from its start: storing at the first position not yet written. -/
theorem set_append_drop {xs l : List α} (h : xs.length < l.length) (a : α) :
    (xs ++ l.drop xs.length).set xs.length a = xs ++ a :: l.drop (xs.length + 1) := by
  rw [List.set_append_right _ _ (Nat.le_refl _), Nat.sub_self, List.drop_eq_getElem_cons h,
    List.set_cons_zero]

theorem swapRemove_append_singleton {l : List α} {x : α} {i : Nat} (h : i < l.length) :
    swapRemove (l ++ [x]) i = l.set i x := by
  rw [swapRemove, if_pos (by simp; omega), List.getLast?_append_of_ne_nil _ (List.cons_ne_nil _ _)]
  simp [List.set_append_left _ _ h]

theorem swapRemove_last (l : List α) (x : α) : swapRemove (l ++ [x]) l.length = l := by
  rw [swapRemove, if_pos (by simp)]
  simp

theorem exists_eq_append_singleton {l : List α} (h : 0 < l.length) : ∃ l' x, l = l' ++ [x] :=
  ⟨l.dropLast, l.getLast (List.ne_nil_of_length_pos h), (List.dropLast_append_getLast _).symm⟩

/-- Removing by swap removes the element, up to the order of the rest. -/
theorem swapRemove_perm {l : List α} {i : Nat} (h : i < l.length) :
    List.Perm (swapRemove l i) (l.eraseIdx i) := by
  obtain ⟨l', x, rfl⟩ := exists_eq_append_singleton (Nat.lt_of_le_of_lt (Nat.zero_le i) h)
  rw [List.length_append, List.length_singleton] at h
  rcases Nat.lt_or_ge i l'.length with hi | hi
  · -- the last element moves into slot `i`
    rw [swapRemove_append_singleton hi, List.eraseIdx_append_of_lt_length hi,
      List.set_eq_take_append_cons_drop, if_pos hi, List.eraseIdx_eq_take_drop_succ]
    simp only [List.append_assoc]
    exact List.Perm.append_left _ (List.perm_append_singleton _ _).symm
  · -- slot `i` is the last one
    obtain rfl : i = l'.length := by omega
    rw [swapRemove_last, List.eraseIdx_append_of_length_le (Nat.le_refl _), Nat.sub_self]
    exact List.Perm.of_eq (List.append_nil l').symm

/-- Removing by swap leaves the slots in front of `i` alone. -/
theorem take_swapRemove {l : List α} {i : Nat} (h : i < l.length) :
    (swapRemove l i).take i = l.take i := by
  obtain ⟨l', x, rfl⟩ := exists_eq_append_singleton (Nat.lt_of_le_of_lt (Nat.zero_le i) h)
  rw [List.length_append, List.length_singleton] at h
  rcases Nat.lt_or_ge i l'.length with hi | hi
  · rw [swapRemove_append_singleton hi, List.take_append_of_le_length hi.le,
      List.take_set_of_le (Nat.le_refl _)]
  · obtain rfl : i = l'.length := by omega
    rw [swapRemove_last, List.take_left' rfl]
    simp

theorem length_swapRemove {l : List α} {i : Nat} (h : i < l.length) :
    (swapRemove l i).length = l.length - 1 :=
  (swapRemove_perm h).length_eq.trans (List.length_eraseIdx_of_lt h)

end Archipelago.Lib
