import Mathlib.Data.List.TakeWhile

/-! Address-ordered sets of ranges, as an ordered tree of disjoint intervals keeps them. An
element `a` covers `[lo a, lo a + len a)`; the in-order sequence of the tree is a list in
which every element ends at or before every later one starts (`Sep`), which is being sorted
by start and pairwise disjoint at once.

The operations are the tree's own (`lastWhere`, the last element passing a test, which is
`find_le` when the test is "starts at or below `k`"; `insertBy`, insertion in key order that
refuses a duplicate key) and two scans over the sequence (`firstFit`, the lowest gap that
fits; the split of a range into the elements inside it and the rest). The lemmas are the
ones a search over such a set rests on: one probe at the last start below the end of a range
finds any overlap, the last start at or below a point is the only element that can contain
it, inserting a disjoint interval keeps the order, the first-fit scan returns the lowest free
position, and a range no element straddles splits the sequence into three runs. -/

namespace Archipelago.Lib

variable {α : Type*}

/-! ## The last element passing a test -/

/-- The last element of the list that passes `p`. -/
def lastWhere (p : α → Bool) : List α → Option α
  | [] => none
  | a :: as =>
    match lastWhere p as with
    | some b => some b
    | none => if p a then some a else none

section LastWhere

variable {p : α → Bool}

@[simp] theorem lastWhere_nil : lastWhere p ([] : List α) = none := rfl

/-- One step of `lastWhere`: a passing element further on wins over the head. -/
theorem lastWhere_cons (a : α) (as : List α) :
    lastWhere p (a :: as) = (lastWhere p as).or (if p a then some a else none) := by
  cases h : lastWhere p as <;> simp [lastWhere, h]

theorem lastWhere_mem : ∀ {l : List α} {a : α}, lastWhere p l = some a → a ∈ l ∧ p a = true
  | [], _, h => by simp at h
  | b :: bs, a, h => by
    rw [lastWhere_cons] at h
    cases hc : lastWhere p bs with
    | some c =>
      rw [hc, Option.some_or] at h
      cases h
      exact ⟨List.mem_cons_of_mem _ (lastWhere_mem hc).1, (lastWhere_mem hc).2⟩
    | none =>
      rw [hc, Option.none_or] at h
      split at h
      · cases h
        exact ⟨List.mem_cons_self, by assumption⟩
      · cases h

theorem lastWhere_eq_none : ∀ {l : List α}, lastWhere p l = none ↔ ∀ a ∈ l, p a = false
  | [] => by simp
  | b :: bs => by
    rw [lastWhere_cons]
    cases hc : lastWhere p bs with
    | some c =>
      have hmem := lastWhere_mem hc
      simp only [Option.some_or, reduceCtorEq, false_iff, not_forall]
      exact ⟨c, List.mem_cons_of_mem _ hmem.1, by simp [hmem.2]⟩
    | none =>
      have hbs := lastWhere_eq_none.1 hc
      cases hb : p b with
      | false =>
        simp only [Option.none_or, Bool.false_eq_true, ↓reduceIte, List.mem_cons, true_iff]
        rintro a (rfl | ha)
        exacts [hb, hbs a ha]
      | true =>
        simp only [Option.none_or, ↓reduceIte, reduceCtorEq, false_iff, not_forall]
        exact ⟨b, List.mem_cons_self, by simp [hb]⟩

/-- `lastWhere` finds `a` exactly when `a` passes and nothing after it does. -/
theorem lastWhere_eq_some : ∀ {l : List α} {a : α},
    lastWhere p l = some a ↔ ∃ pre post, l = pre ++ a :: post ∧ p a = true ∧ ∀ b ∈ post, p b = false
  | [], a => by simp
  | b :: bs, a => by
    rw [lastWhere_cons]
    cases hc : lastWhere p bs with
    | some c =>
      rw [Option.some_or]
      constructor
      · rintro ⟨⟩
        obtain ⟨pre, post, rfl, hp, hpost⟩ := lastWhere_eq_some.1 hc
        exact ⟨b :: pre, post, rfl, hp, hpost⟩
      · rintro ⟨pre, post, hl, hp, hpost⟩
        cases pre with
        | nil =>
          -- `a = b` heads the list, so nothing in `bs` passes: contradicts `hc`
          simp only [List.nil_append, List.cons.injEq] at hl
          obtain ⟨rfl, rfl⟩ := hl
          rw [lastWhere_eq_none.2 hpost] at hc
          cases hc
        | cons d pre =>
          simp only [List.cons_append, List.cons.injEq] at hl
          obtain ⟨rfl, rfl⟩ := hl
          rw [lastWhere_eq_some.2 ⟨pre, post, rfl, hp, hpost⟩] at hc
          exact hc.symm
    | none =>
      rw [Option.none_or]
      have hbs := lastWhere_eq_none.1 hc
      constructor
      · intro h
        split at h
        · cases h
          exact ⟨[], bs, rfl, by assumption, hbs⟩
        · cases h
      · rintro ⟨pre, post, hl, hp, hpost⟩
        cases pre with
        | nil =>
          simp only [List.nil_append, List.cons.injEq] at hl
          obtain ⟨rfl, rfl⟩ := hl
          simp [hp]
        | cons d pre =>
          simp only [List.cons_append, List.cons.injEq] at hl
          obtain ⟨rfl, rfl⟩ := hl
          have := hbs a (by simp)
          rw [hp] at this
          cases this

theorem lastWhere_isSome : ∀ {l : List α}, (lastWhere p l).isSome = l.any p
  | [] => rfl
  | b :: bs => by
    rw [lastWhere_cons, Option.isSome_or, lastWhere_isSome, List.any_cons]
    cases p b <;> simp

/-- The list without the element `lastWhere` finds: an ordered tree's `erase` of what its
`find_le` returned. -/
def eraseLastWhere (p : α → Bool) : List α → List α
  | [] => []
  | a :: as => if as.any p then a :: eraseLastWhere p as else if p a then as else a :: as

theorem eraseLastWhere_cons (a : α) (as : List α) :
    eraseLastWhere p (a :: as) = if as.any p then a :: eraseLastWhere p as else if p a then as else a :: as :=
  rfl

theorem eraseLastWhere_of_lastWhere : ∀ {l : List α} {a : α}, lastWhere p l = some a →
    ∃ pre post, l = pre ++ a :: post ∧ eraseLastWhere p l = pre ++ post
  | [], _, h => by simp at h
  | b :: bs, a, h => by
    rw [lastWhere_cons] at h
    rw [eraseLastWhere_cons]
    cases hc : lastWhere p bs with
    | some c =>
      rw [hc, Option.some_or] at h
      cases h
      have hany : bs.any p = true := by rw [← lastWhere_isSome, hc]; rfl
      obtain ⟨pre, post, rfl, he⟩ := eraseLastWhere_of_lastWhere hc
      exact ⟨b :: pre, post, rfl, by simp [hany, he]⟩
    | none =>
      rw [hc, Option.none_or] at h
      have hany : bs.any p = false := by rw [← lastWhere_isSome, hc]; rfl
      split at h
      · cases h
        exact ⟨[], bs, rfl, by simp [*]⟩
      · cases h

theorem lastWhere_append (l₁ l₂ : List α) :
    lastWhere p (l₁ ++ l₂) = (lastWhere p l₂).or (lastWhere p l₁) := by
  induction l₁ with
  | nil => simp
  | cons a l₁ ih => rw [List.cons_append, lastWhere_cons, lastWhere_cons, ih, Option.or_assoc]

end LastWhere

/-! ## Extremes of a sorted list

An ordered tree's in-order sequence is sorted by its strict order `R`; the first element
passing a test then has no passing element below it, and the last none above it. -/

section Sorted

variable {R : α → α → Prop} {p : α → Bool} {l : List α}

/-- Two different elements of a sorted list are ordered one way or the other. -/
theorem rel_or_rel_of_pairwise (hl : l.Pairwise R) {x y : α} (hx : x ∈ l) (hy : y ∈ l) (hne : x ≠ y) :
    R x y ∨ R y x := by
  obtain ⟨pre, post, rfl⟩ := List.append_of_mem hx
  rcases List.mem_append.1 hy with hy | hy
  · exact .inr ((List.pairwise_append.1 hl).2.2 y hy x (by simp))
  rcases List.mem_cons.1 hy with rfl | hy
  · exact absurd rfl hne
  · exact .inl ((List.pairwise_cons.1 (List.pairwise_append.1 hl).2.1).1 y hy)

theorem find?_least (hl : l.Pairwise R) (hR : ∀ a b, R a b → ¬ R b a) {x : α} (h : l.find? p = some x) :
    x ∈ l ∧ p x = true ∧ ∀ y ∈ l, p y = true → ¬ R y x := by
  obtain ⟨hpx, pre, post, rfl, hpre⟩ := List.find?_eq_some_iff_append.1 h
  refine ⟨by simp, hpx, fun y hy hpy hyx => ?_⟩
  rcases List.mem_append.1 hy with hy | hy
  · simpa [hpy] using hpre y hy
  rcases List.mem_cons.1 hy with rfl | hy
  · exact hR y y hyx hyx
  · exact hR x y ((List.pairwise_cons.1 (List.pairwise_append.1 hl).2.1).1 y hy) hyx

theorem lastWhere_greatest (hl : l.Pairwise R) (hR : ∀ a b, R a b → ¬ R b a) {x : α}
    (h : lastWhere p l = some x) : x ∈ l ∧ p x = true ∧ ∀ y ∈ l, p y = true → ¬ R x y := by
  obtain ⟨pre, post, rfl, hpx, hpost⟩ := lastWhere_eq_some.1 h
  refine ⟨by simp, hpx, fun y hy hpy hxy => ?_⟩
  rcases List.mem_append.1 hy with hy | hy
  · exact hR y x ((List.pairwise_append.1 hl).2.2 y hy x (by simp)) hxy
  rcases List.mem_cons.1 hy with rfl | hy
  · exact hR y y hxy hxy
  · simp [hpost y hy] at hpy

end Sorted

/-! ## Insertion in key order -/

/-- Insertion into a list ordered by `lt`, refused (`none`) when an element with an equal key
is already there: an ordered tree's insert, on its in-order sequence. -/
def insertBy (lt : α → α → Bool) (x : α) : List α → Option (List α)
  | [] => some [x]
  | a :: as =>
    if lt x a then some (x :: a :: as)
    else if lt a x then (insertBy lt x as).map (a :: ·)
    else none

theorem insertBy_nil (lt : α → α → Bool) (x : α) : insertBy lt x [] = some [x] := rfl

theorem insertBy_cons (lt : α → α → Bool) (x a : α) (as : List α) :
    insertBy lt x (a :: as) =
      if lt x a then some (x :: a :: as) else if lt a x then (insertBy lt x as).map (a :: ·) else none :=
  rfl

theorem insertBy_perm {lt : α → α → Bool} {x : α} :
    ∀ {l l' : List α}, insertBy lt x l = some l' → l'.Perm (x :: l)
  | [], l', h => by
    simp only [insertBy_nil, Option.some.injEq] at h
    subst h
    rfl
  | a :: as, l', h => by
    rw [insertBy_cons] at h
    split at h
    · cases h
      rfl
    · split at h
      · obtain ⟨l'', hl'', rfl⟩ := Option.map_eq_some_iff.1 h
        exact ((insertBy_perm hl'').cons a).trans (List.Perm.swap x a as)
      · cases h

/-! ## Sorted disjoint intervals -/

section Intervals

variable (lo len : α → Nat)

/-- Every element ends at or before every later one starts. -/
def Sep (l : List α) : Prop := l.Pairwise (fun a c => lo a + len a ≤ lo c)

/-- `a` overlaps the range `[b, e)`. -/
def Meets (a : α) (b e : Nat) : Prop := lo a < e ∧ b < lo a + len a

theorem meets_iff {a : α} {b e : Nat} : Meets lo len a b e ↔ lo a < e ∧ b < lo a + len a := Iff.rfl

/-- `a` lies inside the range `[b, e)`. -/
def Inside (a : α) (b e : Nat) : Prop := b ≤ lo a ∧ lo a + len a ≤ e

instance (a : α) (b e : Nat) : Decidable (Meets lo len a b e) :=
  inferInstanceAs (Decidable (_ ∧ _))

instance (a : α) (b e : Nat) : Decidable (Inside lo len a b e) :=
  inferInstanceAs (Decidable (_ ∧ _))

variable {lo len}

theorem Sep.sublist {l l' : List α} (h : Sep lo len l) (hs : l'.Sublist l) : Sep lo len l' :=
  List.Pairwise.sublist hs h

theorem sep_cons {a : α} {l : List α} :
    Sep lo len (a :: l) ↔ (∀ c ∈ l, lo a + len a ≤ lo c) ∧ Sep lo len l :=
  List.pairwise_cons

/-- With no empty element, `Sep` orders the starts strictly. -/
theorem Sep.lo_lt {l : List α} (h : Sep lo len l) (hpos : ∀ a ∈ l, 0 < len a) :
    l.Pairwise (fun a c => lo a < lo c) :=
  List.Pairwise.imp_of_mem (fun {a _} ha _ hac => by have := hpos a ha; omega) h

/-- `Sep` reads only the intervals: replacing an element by one with the same interval
keeps it. -/
theorem Sep.set {l : List α} {i : Nat} {a x : α} (h : Sep lo len l) (ha : l[i]? = some a)
    (hlo : lo x = lo a) (hlen : len x = len a) : Sep lo len (l.set i x) := by
  have hmap : (l.set i x).map (fun c => (lo c, len c)) = l.map (fun c => (lo c, len c)) := by
    apply List.ext_getElem?
    intro j
    simp only [List.getElem?_map, List.getElem?_set]
    by_cases hij : i = j
    · subst hij
      obtain ⟨hi, hai⟩ := List.getElem?_eq_some_iff.1 ha
      simp [hi, hai, hlo, hlen]
    · simp [hij]
  have key : ∀ m : List α, m.Pairwise (fun a c => lo a + len a ≤ lo c) ↔
      (m.map (fun c => (lo c, len c))).Pairwise (fun p q => p.1 + p.2 ≤ q.1) :=
    fun m => (List.pairwise_map (f := fun c => (lo c, len c)) (R := fun p q => p.1 + p.2 ≤ q.1)).symm
  refine (key _).2 ?_
  rw [hmap]
  exact (key l).1 h

/-- One probe finds any overlap: among sorted disjoint intervals, some element meets `[b, e)`
exactly when the last one starting below `e` reaches past `b`. -/
theorem exists_meets_iff_lastWhere {l : List α} (hl : Sep lo len l) {p : α → Bool} {b e : Nat}
    (hp : ∀ a, p a = true ↔ lo a < e) :
    (∃ a ∈ l, Meets lo len a b e) ↔ ∃ a, lastWhere p l = some a ∧ b < lo a + len a := by
  constructor
  · rintro ⟨c, hc, hce, hcb⟩
    cases hd : lastWhere p l with
    | none =>
      have := lastWhere_eq_none.1 hd c hc
      rw [(hp c).2 hce] at this
      cases this
    | some d =>
      refine ⟨d, rfl, ?_⟩
      obtain ⟨pre, post, rfl, -, hpost⟩ := lastWhere_eq_some.1 hd
      simp only [List.mem_append, List.mem_cons] at hc
      rcases hc with hc | rfl | hc
      · -- `c` comes before `d`, so `d` starts after `c` ends
        have hcd : lo c + len c ≤ lo d := (List.pairwise_append.1 hl).2.2 c hc d List.mem_cons_self
        omega
      · exact hcb
      · have := hpost c hc
        rw [(hp c).2 hce] at this
        cases this
  · rintro ⟨d, hd, hdb⟩
    have hmem := lastWhere_mem hd
    exact ⟨d, hmem.1, (hp d).1 hmem.2, hdb⟩

/-- The only element that can contain a point is the last one starting at or below it. -/
theorem lastWhere_of_contains {l : List α} (hl : Sep lo len l) {p : α → Bool} {v : Nat}
    (hp : ∀ c, p c = true ↔ lo c ≤ v) {a : α} (ha : a ∈ l) (hlo : lo a ≤ v)
    (hv : v < lo a + len a) : lastWhere p l = some a := by
  obtain ⟨pre, post, rfl⟩ := List.append_of_mem ha
  refine lastWhere_eq_some.2 ⟨pre, post, rfl, (hp a).2 hlo, fun c hc => ?_⟩
  have hac : lo a + len a ≤ lo c :=
    (List.pairwise_cons.1 (List.pairwise_append.1 hl).2.1).1 c hc
  cases hpc : p c with
  | false => rfl
  | true => have := (hp c).1 hpc; omega

/-- An interval meeting none of `l` that starts after `a` starts also starts after `a` ends. -/
theorem le_lo_of_not_meets {a x : α} (hax : lo a < lo x) (hx : 0 < len x)
    (h : ¬ Meets lo len a (lo x) (lo x + len x)) : lo a + len a ≤ lo x := by
  rw [meets_iff] at h
  omega

theorem lo_add_le_of_not_meets {a x : α} (hxa : lo x < lo a) (ha : 0 < len a)
    (h : ¬ Meets lo len a (lo x) (lo x + len x)) : lo x + len x ≤ lo a := by
  rw [meets_iff] at h
  omega

section InsertBy

variable {lt : α → α → Bool} (hlt : ∀ a c, lt a c = true ↔ lo a < lo c)
include hlt

/-- Inserting a non-empty interval that meets nothing keeps the sequence sorted and disjoint. -/
theorem Sep.insertBy {x : α} (hx : 0 < len x) :
    ∀ {l l' : List α}, Sep lo len l → (∀ a ∈ l, 0 < len a) →
      (∀ a ∈ l, ¬ Meets lo len a (lo x) (lo x + len x)) → insertBy lt x l = some l' →
      Sep lo len l'
  | [], l', _, _, _, h => by
    simp only [insertBy_nil, Option.some.injEq] at h
    subst h
    exact List.pairwise_singleton _ _
  | a :: as, l', hl, hpos, hmeet, h => by
    rw [insertBy_cons] at h
    split at h
    · -- `x` goes first: it ends before `a` and everything after `a` starts
      rename_i hxa
      cases h
      refine sep_cons.2 ⟨fun c hc => ?_, hl⟩
      have hxc : lo x < lo c := by
        rcases List.mem_cons.1 hc with rfl | hc
        · exact (hlt x c).1 hxa
        · have := (sep_cons.1 hl).1 c hc
          have := (hlt x a).1 hxa
          have := hpos a List.mem_cons_self
          omega
      exact lo_add_le_of_not_meets hxc (hpos c hc) (hmeet c hc)
    · split at h
      · rename_i _ hax
        obtain ⟨l'', hl'', rfl⟩ := Option.map_eq_some_iff.1 h
        have hperm := insertBy_perm hl''
        refine sep_cons.2 ⟨fun c hc => ?_, ?_⟩
        · rcases List.mem_cons.1 (hperm.subset hc) with rfl | hc
          · exact le_lo_of_not_meets ((hlt a c).1 hax) hx (hmeet a List.mem_cons_self)
          · exact (sep_cons.1 hl).1 c hc
        · exact Sep.insertBy hx (sep_cons.1 hl).2 (fun c hc => hpos c (List.mem_cons_of_mem _ hc))
            (fun c hc => hmeet c (List.mem_cons_of_mem _ hc)) hl''
      · cases h

/-- A non-empty interval meeting no non-empty element has a key of its own: the insert goes
through. -/
theorem insertBy_isSome {x : α} (hx : 0 < len x) :
    ∀ {l : List α}, (∀ a ∈ l, 0 < len a) → (∀ a ∈ l, ¬ Meets lo len a (lo x) (lo x + len x)) →
      (Lib.insertBy lt x l).isSome
  | [], _, _ => rfl
  | a :: as, hpos, hmeet => by
    rw [insertBy_cons]
    split
    · rfl
    · split
      · rw [Option.isSome_map]
        exact insertBy_isSome hx (fun c hc => hpos c (List.mem_cons_of_mem _ hc))
          (fun c hc => hmeet c (List.mem_cons_of_mem _ hc))
      · -- neither key is below the other: equal starts, and two non-empty intervals meet
        rename_i hxa hax
        rw [hlt] at hxa hax
        have := hpos a List.mem_cons_self
        exact absurd ⟨by omega, by omega⟩ (hmeet a List.mem_cons_self)

end InsertBy

/-! ## The first gap that fits -/

variable (lo len) in
/-- Walk the elements in order with a cursor: skip those ending at or before it, stop at one
starting far enough past it, otherwise move the cursor to the element's end. -/
def firstFit (size : Nat) : Nat → List α → Nat
  | cursor, [] => cursor
  | cursor, a :: as =>
    if lo a + len a ≤ cursor then firstFit size cursor as
    else if cursor ≤ lo a ∧ size ≤ lo a - cursor then cursor
    else firstFit size (lo a + len a) as

theorem firstFit_nil (size cursor : Nat) : firstFit lo len size cursor ([] : List α) = cursor := rfl

theorem firstFit_cons (size cursor : Nat) (a : α) (as : List α) :
    firstFit lo len size cursor (a :: as) =
      if lo a + len a ≤ cursor then firstFit lo len size cursor as
      else if cursor ≤ lo a ∧ size ≤ lo a - cursor then cursor
      else firstFit lo len size (lo a + len a) as :=
  rfl

theorem le_firstFit (size : Nat) : ∀ (cursor : Nat) (l : List α), cursor ≤ firstFit lo len size cursor l
  | cursor, [] => Nat.le_refl _
  | cursor, a :: as => by
    rw [firstFit_cons]
    split
    · exact le_firstFit size cursor as
    · split
      · exact Nat.le_refl _
      · have := le_firstFit size (lo a + len a) as
        omega

/-- The gap found meets no element. -/
theorem firstFit_free (size : Nat) :
    ∀ (cursor : Nat) {l : List α}, Sep lo len l →
      ∀ a ∈ l, ¬ Meets lo len a (firstFit lo len size cursor l) (firstFit lo len size cursor l + size)
  | cursor, [], _, a, ha => by cases ha
  | cursor, c :: cs, hl, a, ha => by
    have hcs := firstFit_free size cursor (sep_cons.1 hl).2
    rw [firstFit_cons]
    split
    · -- `c` ends at or before the cursor, which never moves back
      rename_i hskip
      rcases List.mem_cons.1 ha with rfl | ha
      · have := @le_firstFit _ lo len size cursor cs
        rw [meets_iff]
        omega
      · exact hcs a ha
    · split
      · -- the scan stops in front of `c`; everything later starts after `c` ends
        rename_i _ hfit
        rw [meets_iff]
        rcases List.mem_cons.1 ha with rfl | ha
        · omega
        · have := (sep_cons.1 hl).1 a ha
          omega
      · rcases List.mem_cons.1 ha with rfl | ha
        · have := @le_firstFit _ lo len size (lo a + len a) cs
          rw [meets_iff]
          omega
        · exact firstFit_free size (lo c + len c) (sep_cons.1 hl).2 a ha

/-- The gap found is the lowest: every position between the start and it meets an element. -/
theorem exists_meets_of_lt_firstFit (size : Nat) :
    ∀ (cursor : Nat) (l : List α) (v : Nat), cursor ≤ v → v < firstFit lo len size cursor l →
      ∃ a ∈ l, Meets lo len a v (v + size)
  | cursor, [], v, hcv, hv => by rw [firstFit_nil] at hv; omega
  | cursor, c :: cs, v, hcv, hv => by
    rw [firstFit_cons] at hv
    split at hv
    · obtain ⟨a, ha, hm⟩ := exists_meets_of_lt_firstFit size cursor cs v hcv hv
      exact ⟨a, List.mem_cons_of_mem _ ha, hm⟩
    · split at hv
      · omega
      · rename_i hend hfit
        by_cases hvc : v < lo c + len c
        · -- the cursor jumped over `v`: `c` covers it, or starts too close after the cursor
          refine ⟨c, List.mem_cons_self, ?_, hvc⟩
          omega
        · obtain ⟨a, ha, hm⟩ :=
            exists_meets_of_lt_firstFit size (lo c + len c) cs v (by omega) hv
          exact ⟨a, List.mem_cons_of_mem _ ha, hm⟩

/-- The scan only ever stops at its start or at an element's end. -/
theorem firstFit_cases (size : Nat) : ∀ (cursor : Nat) (l : List α),
    firstFit lo len size cursor l = cursor ∨ ∃ a ∈ l, firstFit lo len size cursor l = lo a + len a
  | cursor, [] => .inl rfl
  | cursor, c :: cs => by
    rw [firstFit_cons]
    split
    · rcases firstFit_cases size cursor cs with h | ⟨a, ha, h⟩
      · exact .inl h
      · exact .inr ⟨a, List.mem_cons_of_mem _ ha, h⟩
    · split
      · exact .inl rfl
      · rcases firstFit_cases size (lo c + len c) cs with h | ⟨a, ha, h⟩
        · exact .inr ⟨c, List.mem_cons_self, h⟩
        · exact .inr ⟨a, List.mem_cons_of_mem _ ha, h⟩

/-! ## A range no element straddles -/

theorem takeWhile_eq_filter {p : α → Bool} :
    ∀ {l : List α}, l.Pairwise (fun a c => p c = true → p a = true) → l.takeWhile p = l.filter p
  | [], _ => rfl
  | a :: as, h => by
    cases hpa : p a with
    | true => simp [hpa, takeWhile_eq_filter h.of_cons]
    | false =>
      simp only [List.takeWhile_cons, hpa, List.filter_cons, Bool.false_eq_true, ↓reduceIte]
      refine (List.filter_eq_nil_iff.2 fun c hc hpc => ?_).symm
      have := List.rel_of_pairwise_cons h hc hpc
      rw [hpa] at this
      cases this

theorem dropWhile_fails {p : α → Bool} :
    ∀ {l : List α}, l.Pairwise (fun a c => p c = true → p a = true) →
      ∀ a ∈ l.dropWhile p, p a = false
  | [], _, a, ha => by cases ha
  | b :: bs, h, a, ha => by
    cases hpb : p b with
    | true =>
      rw [List.dropWhile_cons_of_pos (by simp [hpb])] at ha
      exact dropWhile_fails h.of_cons a ha
    | false =>
      rw [List.dropWhile_cons_of_neg (by simp [hpb])] at ha
      rcases List.mem_cons.1 ha with rfl | ha
      · exact hpb
      · cases hpa : p a with
        | false => rfl
        | true =>
          have := List.rel_of_pairwise_cons h ha hpa
          rw [hpb] at this
          cases this

/-- A range that straddles no element splits the sequence into the elements before it, those
inside it and those after it; the run from the first start at or past `b` up to the first
start at or past `e` is exactly the elements inside. -/
theorem filter_inside {l : List α} (hl : Sep lo len l) (hpos : ∀ a ∈ l, 0 < len a) {b e : Nat}
    (hcut : ∀ a ∈ l, Meets lo len a b e → Inside lo len a b e) {pb pe : α → Bool}
    (hb : ∀ a, pb a = true ↔ lo a < b) (he : ∀ a, pe a = true ↔ lo a < e) :
    (l.dropWhile pb).takeWhile pe = l.filter (fun a => decide (Inside lo len a b e)) ∧
      l.takeWhile pb ++ (l.dropWhile pb).dropWhile pe =
        l.filter (fun a => !decide (Inside lo len a b e)) := by
  have hlt := hl.lo_lt hpos
  -- a start test "below k" holds of a prefix
  have hmono : ∀ {q : α → Bool} {k : Nat}, (∀ a, q a = true ↔ lo a < k) →
      ∀ {m : List α}, m.Sublist l → m.Pairwise (fun a c => q c = true → q a = true) :=
    fun hq _ hm => (hlt.sublist hm).imp fun hac hc => (hq _).2 (by have := (hq _).1 hc; omega)
  set mid := l.dropWhile pb
  have hmid : mid.Sublist l := List.dropWhile_sublist pb
  have hmidb : ∀ a ∈ mid, b ≤ lo a := fun a ha => by
    have := dropWhile_fails (hmono hb (List.Sublist.refl l)) a ha
    by_contra hab
    rw [(hb a).2 (by omega)] at this
    cases this
  have hsplit : l = l.takeWhile pb ++ (mid.takeWhile pe ++ mid.dropWhile pe) := by
    rw [List.takeWhile_append_dropWhile, List.takeWhile_append_dropWhile]
  -- before: starts below `b`; inside: starts in `[b, e)`; after: starts at or past `e`
  have hpre : ∀ a ∈ l.takeWhile pb, ¬ Inside lo len a b e := fun a ha hin => by
    have := (hb a).1 (List.mem_takeWhile_imp ha)
    exact absurd hin.1 (by omega)
  have hin : ∀ a ∈ mid.takeWhile pe, Inside lo len a b e := fun a ha => by
    have hsub : mid.takeWhile pe ⊆ l := fun x hx => hmid.subset (List.takeWhile_subset pe hx)
    have hae := (he a).1 (List.mem_takeWhile_imp ha)
    have hab := hmidb a (List.takeWhile_subset pe ha)
    exact hcut a (hsub ha) ⟨hae, by have := hpos a (hsub ha); omega⟩
  have hpost : ∀ a ∈ mid.dropWhile pe, ¬ Inside lo len a b e := fun a ha hin => by
    have hsub : (mid.dropWhile pe).Sublist l := (List.dropWhile_sublist pe).trans hmid
    have hpe := dropWhile_fails (hmono he hmid) a ha
    have := hpos a (hsub.subset ha)
    have : ¬ lo a < e := fun h => by rw [(he a).2 h] at hpe; cases hpe
    exact absurd hin.2 (by omega)
  have hfilter : ∀ f : α → Bool, l.filter f =
      (l.takeWhile pb).filter f ++ ((mid.takeWhile pe).filter f ++ (mid.dropWhile pe).filter f) :=
    fun f => by rw [← List.filter_append, ← List.filter_append, ← hsplit]
  constructor
  · rw [hfilter, List.filter_eq_nil_iff.2 (fun a ha => by simpa using hpre a ha),
      List.filter_eq_self.2 (fun a ha => by simpa using hin a ha),
      List.filter_eq_nil_iff.2 (fun a ha => by simpa using hpost a ha)]
    simp
  · rw [hfilter, List.filter_eq_self.2 (fun a ha => by simpa using hpre a ha),
      List.filter_eq_nil_iff.2 (fun a ha => by simpa using hin a ha),
      List.filter_eq_self.2 (fun a ha => by simpa using hpost a ha)]
    simp

end Intervals

end Archipelago.Lib
