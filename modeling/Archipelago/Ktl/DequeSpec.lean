import Archipelago.Ktl.Deque

/-! What `ktl::deque` keeps: its blocks are a chain of blocks holding values (only the
first with consumed slots, all but the last full) followed by spare blocks with their
storage (`Layout`), and `m_size` counts the values (`Wf`). On that layout each operation
is the list operation on `toList`; `push_back` allocates only when every block holds
values and the last is full, which needs at least `16 · blocks - 15` values; blocks are
never given back. So after a `reserve(n)` that provisioned its blocks no push made while the
deque holds at most `n` values allocates, whatever pushes and pops came before. -/

namespace Archipelago.Ktl

namespace Deque

variable {α : Type}

theorem modify_append_cons {β : Type} (l r : List β) (b : β) (f : β → β) :
    (l ++ b :: r).modify l.length f = l ++ f b :: r := by
  induction l with
  | nil => simp
  | cons a l ih => simp [ih]

theorem getD_append_cons {β : Type} (l r : List β) (b d : β) : (l ++ b :: r).getD l.length d = b := by
  simp [List.getD_eq_getElem?_getD]

/-! ### The layout -/

/-- The blocks holding values: each within its storage, only the first with consumed
slots, all but the last full. -/
structure Chain (cs : List (Block α)) : Prop where
  live : ∀ b ∈ cs, b.Live
  head_eq : ∀ b ∈ cs.tail, b.head = 0
  full : ∀ b ∈ cs.dropLast, b.values.length = blockCapacity

/-- `bs` is the chain `live` followed by the spare blocks `spare`. -/
structure Layout (bs live spare : List (Block α)) : Prop where
  blocks_eq : bs = live ++ spare
  chain : Chain live
  spare : ∀ b ∈ spare, b.Spare

/-- What every operation keeps. -/
structure Wf (d : Deque α) : Prop where
  layout : ∃ live spare, Layout d.blocks live spare
  size_eq : d.size = d.toList.length

theorem chain_nil : Chain ([] : List (Block α)) := ⟨by simp, by simp, by simp⟩

theorem chain_singleton {b : Block α} (h : b.Live) : Chain [b] := ⟨by simpa using h, by simp, by simp⟩

theorem Chain.tail {F : Block α} {rest : List (Block α)} (h : Chain (F :: rest)) : Chain rest where
  live b hb := h.live b (List.mem_cons_of_mem F hb)
  head_eq b hb := h.head_eq b (List.mem_of_mem_tail hb)
  full b hb := h.full b (by
    cases rest with
    | nil => simp at hb
    | cons c rest => exact List.mem_cons_of_mem F hb)

theorem Chain.dropLast {init : List (Block α)} {L : Block α} (h : Chain (init ++ [L])) : Chain init where
  live b hb := h.live b (by simp [hb])
  head_eq b hb := h.head_eq b (by
    cases init with
    | nil => simp at hb
    | cons c init => simp only [List.cons_append, List.tail_cons] at hb ⊢; simp [hb])
  full b hb := h.full b (by simp [List.dropLast_subset _ hb])

/-- A block pushed onto a chain whose last block is full. -/
theorem Chain.snoc {live : List (Block α)} {b : Block α} (h : Chain live)
    (hfull : ∀ L ∈ live.getLast?, L.values.length = blockCapacity) (hb : b.Live) (hhead : b.head = 0) :
    Chain (live ++ [b]) where
  live c hc := by
    rcases List.mem_append.1 hc with hc | hc
    · exact h.live c hc
    · simp at hc; exact hc ▸ hb
  head_eq c hc := by
    cases live with
    | nil => simp at hc
    | cons a live =>
      simp only [List.cons_append, List.tail_cons, List.mem_append, List.mem_singleton] at hc
      rcases hc with hc | rfl
      · exact h.head_eq c hc
      · exact hhead
  full c hc := by
    rw [List.dropLast_concat] at hc
    rcases List.eq_nil_or_concat' live with rfl | ⟨init, L, rfl⟩
    · simp at hc
    · rw [List.mem_append, List.mem_singleton] at hc
      rcases hc with hc | rfl
      · exact h.full c (by simpa using hc)
      · exact hfull c (by simp)

/-- The last block of a chain replaced by another holding values from the same head. -/
theorem Chain.replace_last {init : List (Block α)} {L b : Block α} (h : Chain (init ++ [L]))
    (hb : b.Live) (hhead : b.head = L.head) : Chain (init ++ [b]) := by
  rcases List.eq_nil_or_concat' init with rfl | ⟨init, K, rfl⟩
  · exact chain_singleton hb
  · refine h.dropLast.snoc ?_ hb (hhead.trans (h.head_eq L ?_))
    · intro c hc
      simp only [List.getLast?_concat, Option.mem_def, Option.some.injEq] at hc
      exact hc ▸ h.full K (by simp)
    · cases init <;> simp

/-- A push into the last block of a chain, while it has room. -/
theorem Chain.push_last {init : List (Block α)} {L : Block α} (h : Chain (init ++ [L]))
    (hlt : L.values.length < blockCapacity) (x : α) : Chain (init ++ [L.push x]) :=
  h.replace_last ((h.live L (by simp)).push hlt x) rfl

/-- The front block of a chain with one more slot consumed, while it keeps a value. -/
theorem Chain.consume {F : Block α} {rest : List (Block α)} (h : Chain (F :: rest))
    (hlt : F.head + 1 < F.values.length) : Chain ({ F with head := F.head + 1 } :: rest) where
  live b hb := by
    rcases List.mem_cons.1 hb with rfl | hb
    · have hF := h.live F (by simp)
      exact ⟨hlt, hF.length_le, hF.cap_eq⟩
    · exact h.live b (List.mem_cons_of_mem F hb)
  head_eq b hb := h.head_eq b hb
  full b hb := by
    cases rest with
    | nil => simp at hb
    | cons c rest =>
      rw [List.dropLast_cons_cons, List.mem_cons] at hb
      rcases hb with rfl | hb
      · exact h.full F (by simp)
      · exact h.full b (by rw [List.dropLast_cons_cons]; exact List.mem_cons_of_mem F hb)

theorem Layout.toList {bs live spare : List (Block α)} (hl : Layout bs live spare) :
    bs.flatMap Block.live = live.flatMap Block.live := by
  have : spare.flatMap Block.live = [] := List.flatMap_eq_nil_iff.2 fun b hb => (hl.spare b hb).live_eq
  rw [hl.blocks_eq, List.flatMap_append, this, List.append_nil]

theorem getD_default_empty {bs : List (Block α)} (h : ∀ b ∈ bs, b.empty = true) (i : Nat) :
    (bs.getD i default).empty = true := by
  rw [List.getD_eq_getElem?_getD]
  cases hi : bs[i]? with
  | none => rfl
  | some b => exact h b (List.mem_of_getElem? hi)

theorem lastNonEmptyBelow_of_empty {bs : List (Block α)} (h : ∀ b ∈ bs, b.empty = true) :
    ∀ i, lastNonEmptyBelow bs i = 0
  | 0 => rfl
  | i + 1 => by
    rw [lastNonEmptyBelow, if_pos (getD_default_empty h i)]
    exact lastNonEmptyBelow_of_empty h i

/-- The loop stops at the last block holding values, from anywhere behind it. -/
theorem lastNonEmptyBelow_of_last {init spare : List (Block α)} {L : Block α} (hL : L.empty = false)
    (hs : ∀ b ∈ spare, b.empty = true) :
    ∀ j, j ≤ spare.length → lastNonEmptyBelow (init ++ L :: spare) (init.length + 1 + j) = init.length
  | 0, _ => by simp [lastNonEmptyBelow, hL]
  | j + 1, hj => by
    have hblock : (init ++ L :: spare).getD (init.length + 1 + j) default = spare.getD j default := by
      simp [List.getD_eq_getElem?_getD, List.getElem?_append_right, Nat.add_assoc, Nat.add_comm 1 j]
    have hempty : (spare.getD j default).empty = true := getD_default_empty hs j
    rw [show init.length + 1 + (j + 1) = init.length + 1 + j + 1 by omega, lastNonEmptyBelow, hblock,
      if_pos hempty]
    exact lastNonEmptyBelow_of_last hL hs j (by omega)

theorem lastNonEmptyBlockIndex_of_last {init spare : List (Block α)} {L : Block α} (hL : L.empty = false)
    (hs : ∀ b ∈ spare, b.empty = true) : lastNonEmptyBlockIndex (init ++ L :: spare) = init.length := by
  have := @lastNonEmptyBelow_of_last α init spare L hL hs spare.length (Nat.le_refl _)
  rwa [lastNonEmptyBlockIndex, List.length_append, List.length_cons, Nat.add_comm spare.length,
    ← Nat.add_assoc]

theorem Layout.spare_empty {bs live spare : List (Block α)} (hl : Layout bs live spare) :
    ∀ b ∈ spare, b.empty = true := fun b hb => (hl.spare b hb).empty

/-! ### `push_back` -/

theorem selectBackBlock_of_last {bs : List (Block α)} {t : Nat} {b : Block α} (hne : bs ≠ [])
    (ht : lastNonEmptyBlockIndex bs = t) (hb : bs.getD t default = b) :
    selectBackBlock bs = if b.values.length < blockCapacity then (t, false)
      else if t + 1 < bs.length then (t + 1, false) else (bs.length, true) := by
  simp only [selectBackBlock]
  rw [ht, hb, if_neg (by simpa using hne)]

theorem pushBack_of_select {d : Deque α} {t : Nat} (x : α) (h : selectBackBlock d.blocks = (t, false)) :
    d.pushBack x = (⟨d.blocks.modify t (·.push x), d.size + 1⟩, (d.blocks.getD t default).pushAllocates) := by
  simp [pushBack, h]

theorem pushBack_of_select_append {d : Deque α} {t : Nat} (x : α) (h : selectBackBlock d.blocks = (t, true)) :
    d.pushBack x = (⟨(d.blocks ++ [Block.fresh]).modify t (·.push x), d.size + 1⟩, true) := by
  simp [pushBack, h]

/-- What `push_back` does on each layout: it fills the last block holding values while it
has room, then the first spare block, and appends a fresh block only when there is none,
the one case that allocates. -/
theorem pushBack_layout {d : Deque α} {live spare : List (Block α)} (hl : Layout d.blocks live spare)
    (x : α) : ∃ live' spare', Layout (d.pushBack x).1.blocks live' spare' ∧
      live'.flatMap Block.live = live.flatMap Block.live ++ [x] ∧
      d.blocks.length ≤ (d.pushBack x).1.blocks.length ∧
      ((d.pushBack x).2 = true → spare = [] ∧ ∀ b ∈ live, b.values.length = blockCapacity) := by
  obtain ⟨bs, n⟩ := d
  obtain rfl : bs = live ++ spare := hl.blocks_eq
  have hs := hl.spare_empty
  rcases List.eq_nil_or_concat' live with rfl | ⟨init, L, rfl⟩
  · cases spare with
    | nil =>
      -- no blocks at all: a fresh one is appended
      rw [pushBack_of_select_append (t := 0) x (by simp [selectBackBlock])]
      refine ⟨[Block.fresh.push x], [], ⟨by simp, chain_singleton (Block.spare_fresh.push x), by simp⟩,
        by simp [Block.spare_fresh.push_live], by simp, fun _ => ⟨rfl, by simp⟩⟩
    | cons s sp =>
      -- every block is spare: the loop finds none holding values and fills block 0
      have hss : s.Spare := hl.spare s (by simp)
      have hsel : selectBackBlock ([] ++ s :: sp) = (0, false) := by
        rw [List.nil_append, selectBackBlock_of_last (by simp) (lastNonEmptyBelow_of_empty hs _) rfl]
        simp [hss.values_eq, blockCapacity]
      rw [pushBack_of_select x hsel]
      refine ⟨[s.push x], sp, ⟨by simp, chain_singleton (hss.push x), fun b hb => hl.spare b (by simp [hb])⟩,
        by simp [hss.push_live], by simp, fun h => ?_⟩
      simp [hss.pushAllocates] at h
  · have hL : L.Live := hl.chain.live L (by simp)
    rw [List.append_assoc, List.singleton_append] at hl ⊢
    have hlast : lastNonEmptyBlockIndex (init ++ L :: spare) = init.length :=
      lastNonEmptyBlockIndex_of_last hL.not_empty hs
    have hsel := selectBackBlock_of_last (by simp) hlast (getD_append_cons init spare L default)
    by_cases hroom : L.values.length < blockCapacity
    · -- the last live block has room
      rw [if_pos hroom] at hsel
      rw [pushBack_of_select x hsel, getD_append_cons]
      simp only [modify_append_cons]
      refine ⟨init ++ [L.push x], spare, ⟨by simp, hl.chain.push_last hroom x, hl.spare⟩,
        by simp [Block.live_push (Nat.le_of_lt hL.head_lt)], by simp, fun h => ?_⟩
      simp [hL.pushAllocates hroom] at h
    · rw [if_neg hroom] at hsel
      have hfull : L.values.length = blockCapacity := by have := hL.length_le; omega
      have hchain : ∀ b : Block α, b.Spare → Chain (init ++ [L] ++ [b.push x]) := fun b hb =>
        hl.chain.snoc (by simpa using hfull) (hb.push x) hb.head_eq
      cases spare with
      | nil =>
        -- every block holds values and the last is full: a fresh block is appended
        rw [if_neg (by simp)] at hsel
        rw [pushBack_of_select_append x hsel]
        refine ⟨init ++ [L] ++ [Block.fresh.push x], [], ⟨?_, hchain _ Block.spare_fresh, by simp⟩,
          by simp [Block.spare_fresh.push_live], by simp, fun _ => ⟨rfl, fun b hb => ?_⟩⟩
        · simpa using modify_append_cons (init ++ [L]) [] Block.fresh (·.push x)
        · rcases List.mem_append.1 hb with hb | hb
          · exact hl.chain.full b (by simpa using hb)
          · simp at hb; exact hb ▸ hfull
      | cons s sp =>
        -- the spare block behind the last live one is filled
        have hss : s.Spare := hl.spare s (by simp)
        rw [if_pos (by simp)] at hsel
        have hgets : (init ++ L :: s :: sp).getD (init.length + 1) default = s := by
          simp
        rw [pushBack_of_select x hsel, hgets]
        refine ⟨init ++ [L] ++ [s.push x], sp, ⟨?_, hchain s hss, fun b hb => hl.spare b (by simp [hb])⟩,
          by simp [hss.push_live], by simp, fun h => ?_⟩
        · simpa using modify_append_cons (init ++ [L]) sp s (·.push x)
        · simp [hss.pushAllocates] at h

/-! ### `pop_front` -/

theorem firstNonEmptyBlockIndex_cons {F : Block α} (bs : List (Block α)) (hF : F.empty = false) :
    firstNonEmptyBlockIndex (F :: bs) = 0 := by
  simp [firstNonEmptyBlockIndex, List.findIdx_cons, hF]

theorem rotateEmptyFront_of_live {b : Block α} (bs : List (Block α)) (hb : b.empty = false) (k : Nat) :
    rotateEmptyFront (k + 1) (b :: bs) = b :: bs := by
  simp [rotateEmptyFront, hb]

/-- `pop_front` on blocks whose front block `F` holds values: `F` gives up its front slot,
and is reset once drained. -/
theorem popFront_cons {F : Block α} {bs : List (Block α)} {n : Nat} (hn : n ≠ 0) (hF : F.empty = false) :
    popFront ⟨F :: bs, n⟩ =
      let consumed := { F with head := F.head + 1 }
      (⟨removeEmptyFrontBlocks (n - 1) ((if consumed.empty then consumed.reset else consumed) :: bs), n - 1⟩,
        F.values[F.head]?) := by
  simp [popFront, hn, firstNonEmptyBlockIndex_cons bs hF]

theorem live_consume {F : Block α} : ({ F with head := F.head + 1 } : Block α).live = F.live.tail := by
  simp [Block.live, List.tail_drop]

/-- What `pop_front` does on a layout holding values: the front value goes, and a drained
front block rotates to the back as a spare one. -/
theorem popFront_layout {d : Deque α} {F : Block α} {rest spare : List (Block α)}
    (hl : Layout d.blocks (F :: rest) spare) (hsize : d.size = ((F :: rest).flatMap Block.live).length) :
    ∃ live' spare', Layout (d.popFront).1.blocks live' spare' ∧
      live'.flatMap Block.live = ((F :: rest).flatMap Block.live).tail ∧
      (d.popFront).2 = ((F :: rest).flatMap Block.live).head? ∧
      (d.popFront).1.blocks.length = d.blocks.length ∧ (d.popFront).1.size = d.size - 1 := by
  obtain ⟨bs, n⟩ := d
  obtain rfl : bs = F :: rest ++ spare := hl.blocks_eq
  change n = _ at hsize
  rw [List.flatMap_cons, List.length_append] at hsize
  have hF : F.Live := hl.chain.live F (by simp)
  have hFlive : F.live ≠ [] := by simp [Block.live, hF.head_lt]
  have hFpos := List.length_pos_of_ne_nil hFlive
  have hval : F.values[F.head]? = ((F :: rest).flatMap Block.live).head? := by
    rw [List.flatMap_cons, List.head?_append_of_ne_nil _ hFlive, Block.live, List.head?_drop]
  have htail : ((F :: rest).flatMap Block.live).tail = F.live.tail ++ rest.flatMap Block.live := by
    rw [List.flatMap_cons, List.tail_append_of_ne_nil hFlive]
  rw [List.cons_append, popFront_cons (by omega) hF.not_empty, htail]
  by_cases hmore : F.head + 1 < F.values.length
  · -- the front block keeps a value: nothing rotates
    have hc : ({ F with head := F.head + 1 } : Block α).empty = false := Block.empty_eq_false.2 hmore
    have hrot : removeEmptyFrontBlocks (n - 1) ({ F with head := F.head + 1 } :: (rest ++ spare)) =
        { F with head := F.head + 1 } :: (rest ++ spare) := by
      unfold removeEmptyFrontBlocks
      split
      · rfl
      · exact rotateEmptyFront_of_live _ hc _
    simp only [hc, Bool.false_eq_true, if_false, hrot]
    exact ⟨_ :: rest, spare, ⟨by simp, hl.chain.consume hmore, hl.spare⟩, by simp [live_consume],
      hval, by simp, by simp⟩
  · -- the front block held one value: it is reset, and rotated behind the spare blocks
    have hone : F.live.tail = [] := by
      simp only [Block.live, List.tail_drop, List.drop_eq_nil_iff]
      omega
    have hc : ({ F with head := F.head + 1 } : Block α).empty = true := Block.empty_eq_true.2 (by simp; omega)
    have hreset : ({ F with head := F.head + 1 } : Block α).reset.Spare := Block.Spare.reset hF.cap_eq
    simp only [hc, if_true, hone, List.nil_append]
    generalize ({ F with head := F.head + 1 } : Block α).reset = c at hreset ⊢
    cases rest with
    | nil =>
      -- the deque is now empty
      have hn1 : n - 1 = 0 := by
        rw [Block.length_live, Block.size] at hsize
        simp at hsize
        omega
      simp only [removeEmptyFrontBlocks, hn1, if_true]
      refine ⟨[], c :: spare, ⟨by simp, chain_nil, ?_⟩, by simp, hval, by simp, by simp⟩
      intro b hb
      rcases List.mem_cons.1 hb with rfl | hb
      · exact hreset
      · exact hl.spare b hb
    | cons R rest =>
      have hR : R.Live := hl.chain.live R (by simp)
      have hn1 : n - 1 ≠ 0 := by
        have hRpos : 0 < R.live.length := by rw [Block.length_live, Block.size]; have := hR.head_lt; omega
        rw [List.flatMap_cons, List.length_append] at hsize
        omega
      have hrot : removeEmptyFrontBlocks (n - 1) (c :: (R :: rest ++ spare)) =
          R :: rest ++ spare ++ [c.reset] := by
        simp only [removeEmptyFrontBlocks, hn1, if_false, List.length_cons]
        rw [rotateEmptyFront, if_pos ⟨by simp, hreset.empty⟩, List.cons_append, List.cons_append,
          List.length_cons, rotateEmptyFront_of_live _ hR.not_empty]
      simp only [hrot]
      refine ⟨R :: rest, spare ++ [c.reset], ⟨by simp, hl.chain.tail, ?_⟩, rfl, hval, by simp; omega,
        by simp⟩
      intro b hb
      rcases List.mem_append.1 hb with hb | hb
      · exact hl.spare b hb
      · simp at hb; exact hb ▸ Block.Spare.reset hreset.cap_eq

/-! ### `pop_back` -/

theorem set_append_cons {β : Type} (l r : List β) (b c : β) : (l ++ b :: r).set l.length c = l ++ c :: r := by
  simp

theorem dropLast_drop {β : Type} (l : List β) (n : Nat) : l.dropLast.drop n = (l.drop n).dropLast := by
  simp only [List.dropLast_eq_take, List.drop_take, List.length_drop]
  congr 1
  omega

/-- `pop_back` on blocks whose last block holding values is `L`, at index `t`: `L` gives up
its last value, and is reset once drained. -/
theorem popBack_of_last {bs : List (Block α)} {n t : Nat} {L : Block α} {v : α} (hn : n ≠ 0)
    (ht : lastNonEmptyBlockIndex bs = t) (hL : bs.getD t default = L) (hv : L.values.getLast? = some v) :
    popBack ⟨bs, n⟩ =
      let shrunk := { L with values := L.values.dropLast }
      (⟨bs.set t (if shrunk.empty then shrunk.reset else shrunk), n - 1⟩, some v) := by
  simp only [popBack, hn, if_false]
  rw [ht, hL, hv]

/-- What `pop_back` does on a layout holding values: the back value goes, and a drained
last block becomes a spare one in place. -/
theorem popBack_layout {d : Deque α} {init spare : List (Block α)} {L : Block α}
    (hl : Layout d.blocks (init ++ [L]) spare) (hsize : d.size = ((init ++ [L]).flatMap Block.live).length) :
    ∃ live' spare', Layout (d.popBack).1.blocks live' spare' ∧
      live'.flatMap Block.live = ((init ++ [L]).flatMap Block.live).dropLast ∧
      (d.popBack).2 = ((init ++ [L]).flatMap Block.live).getLast? ∧
      (d.popBack).1.blocks.length = d.blocks.length ∧ (d.popBack).1.size = d.size - 1 := by
  obtain ⟨bs, n⟩ := d
  obtain rfl : bs = init ++ [L] ++ spare := hl.blocks_eq
  change n = _ at hsize
  have hL : L.Live := hl.chain.live L (by simp)
  have hLlive : L.live ≠ [] := by simp [Block.live, hL.head_lt]
  have hflat : (init ++ [L]).flatMap Block.live = init.flatMap Block.live ++ L.live := by simp
  rw [hflat, List.length_append] at hsize
  have hLpos := List.length_pos_of_ne_nil hLlive
  obtain ⟨v, hv⟩ := hL.exists_getLast?
  have hval : some v = ((init ++ [L]).flatMap Block.live).getLast? := by
    rw [hflat, List.getLast?_append, hL.getLast?_live, hv]
    rfl
  have hdrop : ((init ++ [L]).flatMap Block.live).dropLast = init.flatMap Block.live ++ L.live.dropLast := by
    rw [hflat, List.dropLast_append_of_ne_nil hLlive]
  have hlast : lastNonEmptyBlockIndex (init ++ L :: spare) = init.length :=
    lastNonEmptyBlockIndex_of_last hL.not_empty hl.spare_empty
  rw [List.append_assoc, List.singleton_append] at hl ⊢
  rw [popBack_of_last (by omega) hlast (getD_append_cons init spare L default) hv, hdrop]
  dsimp only
  rw [set_append_cons]
  have hshrunk : ({ L with values := L.values.dropLast } : Block α).live = L.live.dropLast := by
    simp [Block.live, dropLast_drop]
  by_cases hmore : L.head + 1 < L.values.length
  · -- the last block keeps a value
    have hc : ({ L with values := L.values.dropLast } : Block α).empty = false :=
      Block.empty_eq_false.2 (by simp; omega)
    have hlive : ({ L with values := L.values.dropLast } : Block α).Live :=
      ⟨by simp; omega, by simp; have := hL.length_le; omega, hL.cap_eq⟩
    simp only [hc, Bool.false_eq_true, if_false]
    refine ⟨init ++ [_], spare, ⟨by simp, hl.chain.replace_last hlive rfl, hl.spare⟩, ?_, hval, by simp,
      by simp⟩
    rw [List.flatMap_append, List.flatMap_singleton, hshrunk]
  · -- the last block held one value: it is reset in place
    have hc : ({ L with values := L.values.dropLast } : Block α).empty = true :=
      Block.empty_eq_true.2 (by simp; omega)
    have hone : L.live.dropLast = [] := by
      rw [← hshrunk]
      simpa [Block.live] using hc
    simp only [hc, if_true, hone, List.append_nil]
    refine ⟨init, _ :: spare, ⟨rfl, hl.chain.dropLast, ?_⟩, rfl, hval, by simp, by simp⟩
    intro b hb
    rcases List.mem_cons.1 hb with rfl | hb
    · exact Block.Spare.reset hL.cap_eq
    · exact hl.spare b hb

/-! ### The operations keep the layout and implement a list deque -/

variable {d : Deque α}

theorem toList_of_layout {live spare : List (Block α)} (hl : Layout d.blocks live spare) :
    d.toList = live.flatMap Block.live := hl.toList

theorem wf_empty : (empty : Deque α).Wf := ⟨⟨[], [], ⟨rfl, chain_nil, by simp⟩⟩, rfl⟩

theorem Wf.pushBack (hw : d.Wf) (x : α) :
    (d.pushBack x).1.Wf ∧ (d.pushBack x).1.toList = d.toList ++ [x] ∧
      d.blocks.length ≤ (d.pushBack x).1.blocks.length := by
  obtain ⟨⟨live, spare, hl⟩, hsize⟩ := hw
  obtain ⟨live', spare', hl', hflat, hlen, -⟩ := pushBack_layout hl x
  have hsize' : (d.pushBack x).1.size = d.size + 1 := rfl
  refine ⟨⟨⟨live', spare', hl'⟩, ?_⟩, by rw [toList_of_layout hl', hflat, toList_of_layout hl], hlen⟩
  rw [hsize', hsize, toList_of_layout hl', hflat, toList_of_layout hl, List.length_append,
    List.length_singleton]

theorem Wf.popFront (hw : d.Wf) :
    (d.popFront).1.Wf ∧ (d.popFront).1.toList = d.toList.tail ∧ (d.popFront).2 = d.toList.head? ∧
      (d.popFront).1.blocks.length = d.blocks.length := by
  obtain ⟨⟨live, spare, hl⟩, hsize⟩ := hw
  rw [toList_of_layout hl] at hsize ⊢
  cases live with
  | nil =>
    -- an empty deque: `m_size` is zero and nothing changes
    have hn : d.size = 0 := by simpa using hsize
    simp only [Deque.popFront, hn, if_true]
    exact ⟨⟨⟨[], spare, hl⟩, by rw [toList_of_layout hl, hn]; rfl⟩, toList_of_layout hl, rfl, trivial⟩
  | cons F rest =>
    obtain ⟨live', spare', hl', hflat, hval, hlen, hsize'⟩ := popFront_layout hl hsize
    refine ⟨⟨⟨live', spare', hl'⟩, ?_⟩, by rw [toList_of_layout hl', hflat], hval, hlen⟩
    rw [hsize', hsize, toList_of_layout hl', hflat, List.length_tail]

theorem Wf.popBack (hw : d.Wf) :
    (d.popBack).1.Wf ∧ (d.popBack).1.toList = d.toList.dropLast ∧ (d.popBack).2 = d.toList.getLast? ∧
      (d.popBack).1.blocks.length = d.blocks.length := by
  obtain ⟨⟨live, spare, hl⟩, hsize⟩ := hw
  rw [toList_of_layout hl] at hsize ⊢
  rcases List.eq_nil_or_concat' live with rfl | ⟨init, L, rfl⟩
  · have hn : d.size = 0 := by simpa using hsize
    simp only [Deque.popBack, hn, if_true]
    exact ⟨⟨⟨[], spare, hl⟩, by rw [toList_of_layout hl, hn]; rfl⟩, toList_of_layout hl, rfl, trivial⟩
  · obtain ⟨live', spare', hl', hflat, hval, hlen, hsize'⟩ := popBack_layout hl hsize
    refine ⟨⟨⟨live', spare', hl'⟩, ?_⟩, by rw [toList_of_layout hl', hflat], hval, hlen⟩
    rw [hsize', hsize, toList_of_layout hl', hflat, List.length_dropLast]

theorem Wf.back (hw : d.Wf) : d.back = d.toList.getLast? := by
  obtain ⟨⟨live, spare, hl⟩, hsize⟩ := hw
  rw [toList_of_layout hl] at hsize ⊢
  rcases List.eq_nil_or_concat' live with rfl | ⟨init, L, rfl⟩
  · have hn : d.size = 0 := by simpa using hsize
    simp [Deque.back, hn]
  · -- the last block holding values is the last of the chain, and its last value is live
    have hL : L.Live := hl.chain.live L (by simp)
    have hflat : (init ++ [L]).flatMap Block.live = init.flatMap Block.live ++ L.live := by simp
    have hn : d.size ≠ 0 := by
      rw [hsize, hflat, List.length_append, Block.length_live, Block.size]
      have := hL.head_lt
      omega
    have hblocks : d.blocks = init ++ L :: spare := by simp [hl.blocks_eq]
    rw [hblocks] at hl
    unfold Deque.back
    rw [if_neg hn, hblocks, lastNonEmptyBlockIndex_of_last hL.not_empty hl.spare_empty,
      getD_append_cons, hflat, List.getLast?_append, hL.getLast?_live, ← List.getLast?_eq_getElem?]
    obtain ⟨v, hv⟩ := hL.exists_getLast?
    rw [hv]
    rfl

theorem wf_clear (d : Deque α) : d.clear.Wf ∧ d.clear.toList = [] :=
  ⟨wf_empty, rfl⟩

theorem Wf.reserve (hw : d.Wf) (n : Nat) :
    (d.reserve n).Wf ∧ (d.reserve n).toList = d.toList ∧
      (d.reserve n).blocks.length = max d.blocks.length (requiredBlocks n) := by
  obtain ⟨⟨live, spare, hl⟩, hsize⟩ := hw
  have hl' : Layout (d.reserve n).blocks live
      (spare ++ List.replicate (requiredBlocks n - d.blocks.length) Block.fresh) :=
    ⟨by simp [Deque.reserve, hl.blocks_eq], hl.chain, fun b hb => by
      rcases List.mem_append.1 hb with hb | hb
      · exact hl.spare b hb
      · exact (List.eq_of_mem_replicate hb) ▸ Block.spare_fresh⟩
  have htoList : (d.reserve n).toList = d.toList := by rw [toList_of_layout hl', toList_of_layout hl]
  refine ⟨⟨⟨_, _, hl'⟩, by rw [htoList, ← hsize]; rfl⟩, htoList, ?_⟩
  simp only [Deque.reserve, List.length_append, List.length_replicate]
  omega

/-- The loop of `capacity()` over blocks of equal storage. -/
theorem foldl_cap_of_eq {c : Nat} : ∀ {bs : List (Block α)}, (∀ b ∈ bs, b.cap = c) → ∀ t,
    bs.foldl (fun total b => total + b.cap) t = t + c * bs.length
  | [], _, t => by simp
  | b :: bs, h, t => by
    rw [List.foldl_cons, foldl_cap_of_eq (fun b' hb' => h b' (List.mem_cons_of_mem b hb')),
      h b (List.mem_cons_self ..), List.length_cons, Nat.mul_succ]
    omega

/-- Every block has the storage `append_empty_block_back` gave it. -/
theorem Wf.capacity_eq (hw : d.Wf) : d.capacity = blockCapacity * d.blocks.length := by
  obtain ⟨⟨live, spare, hl⟩, -⟩ := hw
  have hcap : ∀ b ∈ d.blocks, b.cap = blockCapacity := by
    intro b hb
    rw [hl.blocks_eq] at hb
    rcases List.mem_append.1 hb with hb | hb
    · exact (hl.chain.live b hb).cap_eq
    · exact (hl.spare b hb).cap_eq
  rw [capacity, foldl_cap_of_eq hcap, Nat.zero_add]

/-! ### When `push_back` allocates -/

/-- A chain of full blocks holds all their slots but the consumed ones of the front block. -/
theorem Chain.length_flatMap_of_full {cs : List (Block α)} (h : Chain cs)
    (hfull : ∀ b ∈ cs, b.values.length = blockCapacity) :
    blockCapacity * cs.length ≤ (cs.flatMap Block.live).length + (blockCapacity - 1) := by
  cases cs with
  | nil => simp
  | cons F rest =>
    have hF := h.live F (by simp)
    have hrest : (rest.flatMap Block.live).length = blockCapacity * rest.length := by
      have hb16 : ∀ b ∈ rest, b.live.length = blockCapacity := fun b hb => by
        rw [Block.length_live, Block.size, hfull b (by simp [hb]), h.head_eq b hb, Nat.sub_zero]
      rw [List.length_flatMap, List.map_congr_left hb16]
      simp [Nat.mul_comm]
    have hFlen : F.live.length = blockCapacity - F.head := by
      rw [Block.length_live, Block.size, hfull F (by simp)]
    rw [List.flatMap_cons, List.length_append, hrest, hFlen, List.length_cons]
    have := hF.head_lt
    rw [hfull F (by simp)] at this
    simp only [blockCapacity] at this ⊢
    omega

/-- `push_back` allocates only when every block is full but for the front block's consumed
slots: the deque then holds at least `16 · blocks - 15` values. -/
theorem Wf.size_of_pushBack_allocates (hw : d.Wf) {x : α} (h : (d.pushBack x).2 = true) :
    blockCapacity * d.blocks.length ≤ d.size + (blockCapacity - 1) := by
  obtain ⟨⟨live, spare, hl⟩, hsize⟩ := hw
  obtain ⟨-, -, -, -, -, halloc⟩ := pushBack_layout hl x
  obtain ⟨rfl, hfull⟩ := halloc h
  rw [hsize, toList_of_layout hl, hl.blocks_eq, List.append_nil]
  exact hl.chain.length_flatMap_of_full hfull

/-- On a deque with `reserve(n)`'s blocks, a push made while it holds at most `n` values
never allocates. -/
theorem Wf.pushBack_within_reserve (hw : d.Wf) {n : Nat} (hb : requiredBlocks n ≤ d.blocks.length)
    (hs : d.size ≤ clampCapacity n) (x : α) : (d.pushBack x).2 = false := by
  rw [Bool.eq_false_iff]
  intro h
  have hle := hw.size_of_pushBack_allocates h
  have hmul := Nat.mul_le_mul_left blockCapacity hb
  simp only [requiredBlocks, blockCapacity] at hle hmul
  omega

end Deque

end Archipelago.Ktl
