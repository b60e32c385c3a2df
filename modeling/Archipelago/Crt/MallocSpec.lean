import Archipelago.Crt.MallocLayout
import Archipelago.Lib.Bitmap

/-! The two calls on a heap that is set up. `free` of a block handed out finds its place and
sets the heap up again; `morecore` with an arena the kernel mapped where nothing else is adds the
arena's block through `free`; `malloc`'s loop then never hangs, and hands out a block of exactly
the units asked, or returns `NULL` when a `morecore` fails. The size arithmetic is `size_t`:
the units asked have room for the size unless the sum wraps, which happens for the sixteen
largest sizes and gives a block of its header alone. -/

namespace Archipelago.Crt

open Archipelago.Lib

/-! ### Sizes -/

theorem unitsFor_pos (size : Nat) : 0 < unitsFor size := Nat.succ_pos _

/-- Unless the rounding wraps, the block's units after its header have room for the size. -/
theorem unitsFor_room {size : Nat} (hs : size + HEADER ≤ 0x10000000000000000) :
    size ≤ HEADER * (unitsFor size - 1) := by
  unfold unitsFor
  rw [HEADER_eq] at hs ⊢
  omega

/-- The sixteen largest sizes wrap the rounding to a block of its header alone. -/
theorem unitsFor_wrap {size : Nat} (h₁ : 0x10000000000000000 - 15 ≤ size)
    (h₂ : size < 0x10000000000000000) : unitsFor size = 1 := by
  unfold unitsFor
  rw [HEADER_eq]
  omega

/-- The sixteen sizes just under the wrap ask for `2^60` units, the whole address space. -/
theorem unitsFor_near_max {size : Nat} (h₁ : 0x10000000000000000 - 31 ≤ size)
    (h₂ : size ≤ 0x10000000000000000 - 16) : unitsFor size = 0x1000000000000000 := by
  unfold unitsFor
  rw [HEADER_eq]
  omega

/-- Two headers and a page under the end of the address space, the arena's bytes do not wrap. -/
theorem unitsFor_bytes {size : Nat} (hs : size + 2 * HEADER + PAGE ≤ 0x10000000000000000) :
    unitsFor size * HEADER + PAGE ≤ 0x10000000000000000 := by
  unfold unitsFor
  unfold PAGE at *
  rw [HEADER_eq] at *
  omega

/-- The rounding mask of `morecore` clears the offset into the page. -/
theorem and_page_mask {x : Nat} (hx : x < 0x10000000000000000) :
    x &&& (SIZE_MAX ^^^ (PAGE - 1)) = x - x % PAGE :=
  and_xor_ones_eq_sub_mod (k := 12) (lt_of_lt_of_eq hx (by norm_num)) (by norm_num)

/-- `morecore` maps whole pages. -/
theorem morecoreBytes_page (units : Nat) : PAGE ∣ morecoreBytes units := by
  unfold morecoreBytes
  dsimp only
  rw [and_page_mask (Nat.mod_lt _ (by norm_num))]
  exact Nat.dvd_sub_mod _

/-- Unless the byte count wraps, `morecore` maps room for the units asked. -/
theorem morecoreBytes_ge {units : Nat} (hu : units * HEADER + PAGE ≤ 0x10000000000000000) :
    units * HEADER ≤ morecoreBytes units := by
  unfold morecoreBytes
  dsimp only
  rw [and_page_mask (Nat.mod_lt _ (by norm_num))]
  unfold ARENA_MIN_BYTES PAGE at *
  split_ifs <;> omega

/-- For `2^60` units the byte count wraps to zero, and `morecore` maps the least arena. -/
theorem morecoreBytes_near_max : morecoreBytes 0x1000000000000000 = ARENA_MIN_BYTES := by
  unfold morecoreBytes
  dsimp only
  rw [and_page_mask (Nat.mod_lt _ (by norm_num))]
  unfold ARENA_MIN_BYTES PAGE HEADER
  norm_num

/-- `morecore` asks for no bytes or for at least `ARENA_MIN_BYTES`. -/
theorem morecoreBytes_min {units : Nat} (hb : 0 < morecoreBytes units) :
    ARENA_MIN_BYTES ≤ morecoreBytes units := by
  revert hb
  unfold morecoreBytes
  dsimp only
  rw [and_page_mask (Nat.mod_lt _ (by norm_num))]
  unfold ARENA_MIN_BYTES PAGE
  split_ifs <;> omega

theorem header_le_of_pos {units : Nat} (hb : 0 < morecoreBytes units) :
    HEADER ≤ morecoreBytes units := by
  obtain ⟨k, hk⟩ := morecoreBytes_page units
  rw [hk] at hb ⊢
  unfold PAGE at *
  rw [HEADER_eq]
  omega

/-! ### The environment's arenas -/

/-- An arena the kernel may map for `bytes`: at a page, above `g_base`, inside the address
space, and meeting none of the arenas `A`; the kernel makes no mapping of no bytes. -/
def Fresh (base : Nat) (A : List (Nat × Nat)) (a bytes : Nat) : Prop :=
  PAGE ∣ a ∧ base < a ∧ 0 < bytes ∧ a + bytes ≤ 0x10000000000000000 ∧
    ∀ e ∈ A, a + bytes ≤ e.1 ∨ e.1 + e.2 ≤ a

/-- Outcomes of the `morecore` calls of one `malloc`, each arena fresh among those before it. -/
def Offers (base bytes : Nat) : List (Nat × Nat) → List (Option Nat) → Prop
  | A, some a :: cores => Fresh base A a bytes ∧ Offers base bytes ((a, bytes) :: A) cores
  | A, none :: cores => Offers base bytes A cores
  | _, [] => True

/-- The arenas of the outcomes `morecore` took. -/
def arenasOf (bytes : Nat) (used : List (Option Nat)) : List (Nat × Nat) :=
  (used.filterMap id).map (·, bytes)

theorem header_dvd_of_page {a : Nat} (ha : PAGE ∣ a) : HEADER ∣ a :=
  Nat.dvd_trans (by decide) ha

/-! ### `free` and `morecore` -/

theorem coalesceBefore_base (h : Heap) (ring : List Nat) (u : Nat → Nat) (b p : Nat) :
    (coalesceBefore h ring u b p).base = h.base := by
  unfold coalesceBefore
  split <;> rfl

theorem release_base (h : Heap) (b p : Nat) : (release h b p).base = h.base := by
  unfold release
  split <;> exact coalesceBefore_base _ _ _ _ _

theorem coalesceBefore_units_of_ne (h : Heap) (ring : List Nat) (u : Nat → Nat) {b p x : Nat}
    (hx : x ≠ p) : (coalesceBefore h ring u b p).units x = u x := by
  unfold coalesceBefore
  split
  · exact Function.update_of_ne hx _ _
  · rfl

/-- `free` writes only the headers of the block freed and of the block it goes after. -/
theorem release_units_of_ne (h : Heap) {b p x : Nat} (hxp : x ≠ p) (hxb : x ≠ b) :
    (release h b p).units x = h.units x := by
  unfold release
  split
  · rw [coalesceBefore_units_of_ne _ _ _ hxp, Function.update_of_ne hxb]
  · rw [coalesceBefore_units_of_ne _ _ _ hxp]

/-- `free` keeps the units of the block freed on the free list: in the block itself, or in the
block before it that it merged into. -/
theorem release_fits (h : Heap) {b p : Nat} (hp : p ∈ h.ring) (hpb : p ≠ b) (hb : 0 < h.units b) :
    ∃ x ∈ (release h b p).ring, h.units b ≤ (release h b p).units x := by
  unfold release
  split_ifs with hs
  · -- `b` took in the block after `p`
    have hsb : succOf h.ring p ≠ b := fun he => by
      rw [he, HEADER_eq] at hs
      omega
    unfold coalesceBefore
    split_ifs with hm
    · have hps : p ≠ succOf h.ring p := fun he => by
        rw [← he, HEADER_eq] at hs
        rw [Function.update_of_ne hpb, HEADER_eq] at hm
        omega
      refine ⟨p, (List.mem_erase_of_ne hpb).mpr ((List.mem_erase_of_ne hps).mpr
        ((sublist_insertAfter p b h.ring).subset hp)), ?_⟩
      simp only [Function.update_self]
      omega
    · refine ⟨b, (List.mem_erase_of_ne hsb.symm).mpr (mem_insertAfter_self hp), ?_⟩
      simp only [Function.update_self]
      omega
  · unfold coalesceBefore
    split_ifs
    · refine ⟨p, (List.mem_erase_of_ne hpb).mpr ((sublist_insertAfter p b h.ring).subset hp), ?_⟩
      simp only [Function.update_self]
      omega
    · exact ⟨b, mem_insertAfter_self hp, le_rfl⟩

/-- The search stops on the list. -/
theorem findSpot_mem {ring : List Nat} (hnd : ring.Nodup) {block p : Nat} :
    ∀ (fuel f : Nat), f ∈ ring → findSpot ring block fuel f = some p → p ∈ ring
  | 0, _, _, hs => nomatch hs
  | fuel + 1, f, hf, hs => by
    rw [findSpot_succ] at hs
    split_ifs at hs
    · cases hs
      exact hf
    · exact findSpot_mem hnd fuel _ (succOf_eq ring ▸ cycSucc_mem 0 hnd hf) hs

/-- Off the free list, `free` writes no header but that of the block freed. -/
theorem free_units_of_not_mem {h h' : Heap} {ptr x : Nat} (hf : h.freep ∈ h.ring) (hnd : h.ring.Nodup)
    (he : Crt.free h ptr = some h') (hx : x ∉ h.ring) (hxb : x ≠ ptr - HEADER) :
    h'.units x = h.units x := by
  unfold Crt.free at he
  split_ifs at he
  · cases he
    rfl
  · split at he
    · next p hp =>
      cases he
      exact release_units_of_ne h (fun hxp => hx (hxp ▸ findSpot_mem hnd _ _ hf hp)) hxb
    · cases he

theorem take_units_of_ne {h h' : Heap} {n prev q ptr x : Nat} (ht : h.take n prev q = .found h' ptr)
    (hxq : x ≠ q) (hxt : x ≠ ptr - HEADER) : h'.units x = h.units x := by
  unfold Heap.take at ht
  split_ifs at ht
  · cases ht
    rfl
  · cases ht
    rw [Nat.add_sub_cancel] at hxt
    exact (Function.update_of_ne hxt _ _).trans (Function.update_of_ne hxq _ _)

/-- A block handed out is not on the free list. -/
theorem Ready.not_mem_ring {h : Heap} {L : List Nat} {A : List (Nat × Nat)} (hr : Ready h L A)
    {x : Nat} (hx : x ∈ L) : x ∉ h.ring := by
  rw [hr.ring]
  rintro (_ | ⟨_, hxF⟩)
  · exact absurd (hr.laid.above _ (List.mem_append_right _ hx)) (lt_irrefl _)
  · exact (List.nodup_append.mp hr.laid.nodup).2.2 x hxF x hx rfl

/-- `free` of a pointer behind the header of a block handed out links the block in after a free
block `p`, which sets the heap up again without it. -/
theorem Ready.free_release {h : Heap} {L L' : List Nat} {A : List (Nat × Nat)} {ptr : Nat}
    (hr : Ready h L A) (hL : L.Perm ((ptr - HEADER) :: L')) :
    ∃ p ∈ h.ring, p ≠ ptr - HEADER ∧ Crt.free h ptr = some (release h (ptr - HEADER) p) ∧
      Ready (release h (ptr - HEADER) p) L' A := by
  have hr' := hr.perm hL
  obtain ⟨p, hp, hready⟩ := hr'.free_block
  have hptr : ptr ≠ 0 := by
    rintro rfl
    have := hr'.laid.above 0 (List.mem_append_right _ List.mem_cons_self)
    omega
  have hpr : p ∈ h.ring := findSpot_mem hr.nodup _ _ hr.freep hp
  refine ⟨p, hpr, fun he => hr'.not_mem_ring List.mem_cons_self (he ▸ hpr), ?_, hready⟩
  unfold Crt.free
  rw [if_neg hptr, hp]

/-- `free` of a pointer behind the header of a block handed out sets the heap up again without
it, and writes no header of the other blocks handed out. -/
theorem Ready.free {h : Heap} {L L' : List Nat} {A : List (Nat × Nat)} {ptr : Nat}
    (hr : Ready h L A) (hL : L.Perm ((ptr - HEADER) :: L')) :
    ∃ h', Crt.free h ptr = some h' ∧ Ready h' L' A ∧ h'.base = h.base ∧
      ∀ x ∈ L', h'.units x = h.units x := by
  obtain ⟨p, -, -, hf, hready⟩ := hr.free_release hL
  refine ⟨_, hf, hready, release_base _ _ _, fun x hx => ?_⟩
  have hr' := hr.perm hL
  have hnd := (List.nodup_append.mp hr'.laid.nodup).2.1
  exact free_units_of_not_mem hr.freep hr.nodup hf
    (hr'.not_mem_ring (List.mem_cons_of_mem _ hx))
    (fun hxb => (List.nodup_cons.mp hnd).1 (hxb ▸ hx))

/-- `morecore` with a fresh arena: the arena's block, of all its whole units, is freed into the
heap, and its units stay on the free list. -/
theorem Ready.morecore {h : Heap} {L : List Nat} {A : List (Nat × Nat)} {units a : Nat}
    (hr : Ready h L A) (ha : Fresh h.base A a (morecoreBytes units)) :
    ∃ h', Crt.morecore h units a = some h' ∧ Ready h' L ((a, morecoreBytes units) :: A) ∧
      h'.base = h.base ∧ (∀ x ∈ L, h'.units x = h.units x) ∧
      ∃ x ∈ h'.ring, morecoreBytes units / HEADER ≤ h'.units x := by
  obtain ⟨hpage, hba, hpos, -, hA⟩ := ha
  have hl := hr.laid.fresh (header_dvd_of_page hpage) hba (header_le_of_pos hpos) hA
  have hnd := List.nodup_cons.mp hl.nodup
  -- the arena's header, its units written, is a block handed out to `free`
  have hr₀ : Ready { h with units := Function.update h.units a (morecoreBytes units / HEADER) }
      (a :: L) ((a, morecoreBytes units) :: A) := by
    refine ⟨hr.ring, hl.perm List.perm_middle.symm, gaps_mono hr.gaps fun x hx => ?_, hr.freep,
      hr.base_pos⟩
    show Function.update h.units a _ x ≤ h.units x
    rw [Function.update_of_ne (show x ≠ a from fun hxa => hnd.1
      (by rw [← hxa]; exact List.mem_append_left _ hx))]
  have hperm : List.Perm (a :: L) ((a + HEADER - HEADER) :: L) := by rw [Nat.add_sub_cancel]
  obtain ⟨h', hf, hready, hbase, hu⟩ := hr₀.free hperm
  obtain ⟨p, hp, hpa, hf', -⟩ := hr₀.free_release hperm
  have hunits : ({ h with units := Function.update h.units a (morecoreBytes units / HEADER) } : Heap).units
      (a + HEADER - HEADER) = morecoreBytes units / HEADER := by
    show Function.update h.units a _ (a + HEADER - HEADER) = _
    rw [Nat.add_sub_cancel, Function.update_self]
  refine ⟨h', hf, hready, hbase, fun x hx => (hu x hx).trans ?_, ?_⟩
  · exact Function.update_of_ne (fun hxa => hnd.1 (by rw [← hxa]; exact List.mem_append_right _ hx)) _ _
  · obtain rfl : h' = _ := Option.some.inj (hf.symm.trans hf')
    have := release_fits _ hp hpa (by rw [hunits]; exact Nat.div_pos (header_le_of_pos hpos) (by decide))
    rwa [hunits] at this

/-! ### `malloc` -/

theorem take_found (h : Heap) (n prev q : Nat) :
    ∃ h' ptr, h.take n prev q = .found h' ptr ∧ h'.base = h.base := by
  unfold Heap.take
  split <;> exact ⟨_, _, rfl, rfl⟩

/-- A pass from `g_freep` goes round the list: it hands out a block of the units asked, writing
no header of the other blocks handed out, or wraps. -/
theorem Ready.pass {h : Heap} {L : List Nat} {A : List (Nat × Nat)} {n : Nat} (hr : Ready h L A)
    (hn : 0 < n) :
    (∃ h' ptr, Crt.pass h n h.ring.length h.freep (succOf h.ring h.freep) = .found h' ptr ∧
        Ready h' ((ptr - HEADER) :: L) A ∧ h'.units (ptr - HEADER) = n ∧ HEADER ≤ ptr ∧
        h'.base = h.base ∧ ∀ x ∈ L, h'.units x = h.units x) ∨
      Crt.pass h n h.ring.length h.freep (succOf h.ring h.freep) = .wrapped := by
  have hlen := List.length_pos_of_mem hr.freep
  -- the walk is back at `g_freep` after one round
  have hround : ∃ k < h.ring.length, (succOf h.ring)^[k + 1] h.freep = h.freep :=
    ⟨h.ring.length - 1, by omega, by
      rw [Nat.sub_add_cancel hlen, succOf_eq]
      exact cycSucc_iterate_length 0 hr.nodup hr.freep⟩
  rcases pass_cases h n _ _ hround with ⟨k, -, hu, hp⟩ | hw
  · obtain ⟨h', ptr, ht, hb⟩ := take_found h n ((succOf h.ring)^[k] h.freep)
      ((succOf h.ring)^[k + 1] h.freep)
    have hprev : (succOf h.ring)^[k] h.freep ∈ h.ring := by
      rw [succOf_eq]
      exact cycSucc_iterate_mem 0 hr.nodup hr.freep k
    obtain ⟨hr', hu', hptr⟩ :=
      hr.take hprev (Function.iterate_succ_apply' _ _ _).symm hn hu ht
    refine .inl ⟨h', ptr, hp.trans ht, hr', hu', hptr, hb, fun x hx => ?_⟩
    refine take_units_of_ne ht (fun hxq => hr.not_mem_ring hx ?_) ?_
    · rw [hxq, succOf_eq]
      exact cycSucc_iterate_mem 0 hr.nodup hr.freep (k + 1)
    · exact fun hxt => (List.nodup_cons.mp (List.nodup_append.mp hr'.laid.nodup).2.1).1 (hxt ▸ hx)
  · exact .inr hw

/-- A pass from `g_freep` that wraps went round the whole free list: no free block fits. -/
theorem Ready.units_lt_of_wrapped {h : Heap} {L : List Nat} {A : List (Nat × Nat)} {n : Nat}
    (hr : Ready h L A) (hw : Crt.pass h n h.ring.length h.freep (succOf h.ring h.freep) = .wrapped) :
    ∀ x ∈ h.ring, h.units x < n := by
  intro x hx
  obtain ⟨j, hj, rfl, hne⟩ := cycSucc_round 0 hr.nodup hr.freep hx
  exact pass_wrapped h n _ _ hw j hj hne

/-- `malloc`'s loop never hangs: it hands out a block of exactly the units asked, or returns
`NULL` once a `morecore` fails, with the arenas of the outcomes it took mapped, and writes no
header of the other blocks handed out. -/
theorem ready_mallocLoop {n : Nat} {L : List Nat} (hn : 0 < n) :
    ∀ (cores : List (Option Nat)) (h : Heap) (A : List (Nat × Nat)), Ready h L A →
      Offers h.base (morecoreBytes n) A cores →
      ∃ h' ptr used rest,
        Crt.mallocLoop n cores h h.freep (succOf h.ring h.freep) = some (h', ptr, rest) ∧
        cores = used ++ rest ∧ h'.base = h.base ∧ (∀ x ∈ L, h'.units x = h.units x) ∧
        ((ptr = 0 ∧ Ready h' L (arenasOf (morecoreBytes n) used ++ A)) ∨
          (HEADER ≤ ptr ∧ h'.units (ptr - HEADER) = n ∧
            Ready h' ((ptr - HEADER) :: L) (arenasOf (morecoreBytes n) used ++ A)))
  | cores, h, A, hr, ho => by
    unfold Crt.mallocLoop
    rcases hr.pass hn with ⟨h', ptr, hp, hr', hu, hptr, hb, hx⟩ | hw
    · rw [hp]
      exact ⟨h', ptr, [], cores, rfl, rfl, hb, hx, .inr ⟨hptr, hu, hr'⟩⟩
    · rw [hw]
      match cores, ho with
      | [], _ => exact ⟨h, 0, [], [], rfl, rfl, rfl, fun _ _ => rfl, .inl ⟨rfl, hr⟩⟩
      | none :: cores', _ => exact ⟨h, 0, [none], cores', rfl, rfl, rfl, fun _ _ => rfl, .inl ⟨rfl, hr⟩⟩
      | some a :: cores', ⟨ha, ho'⟩ =>
        -- a wrapped pass maps an arena and goes round again
        obtain ⟨h₁, hm, hr₁, hb₁, hx₁, -⟩ := hr.morecore ha
        rw [← hb₁] at ho'
        obtain ⟨h', ptr, used, rest, he, hc, hb, hx, hres⟩ := ready_mallocLoop hn cores' h₁ _ hr₁ ho'
        have hsub : arenasOf (morecoreBytes n) used ++ (a, morecoreBytes n) :: A ⊆
            arenasOf (morecoreBytes n) (some a :: used) ++ A :=
          List.perm_middle.subset
        refine ⟨h', ptr, some a :: used, rest, by dsimp only; rw [hm]; exact he, by rw [hc]; rfl,
          hb.trans hb₁,
          fun x hxL => (hx x hxL).trans (hx₁ x hxL), ?_⟩
        rcases hres with ⟨h0, hr'⟩ | ⟨hptr, hu, hr'⟩
        exacts [.inl ⟨h0, hr'.subset hsub⟩, .inr ⟨hptr, hu, hr'.subset hsub⟩]

/-- The loop asks for no outcome after one that fails: what follows it is handed back as it
was. -/
theorem mallocLoop_append (n : Nat) (extra : List (Option Nat)) :
    ∀ {cores : List (Option Nat)} (h : Heap) (prev p : Nat), none ∈ cores →
      Crt.mallocLoop n (cores ++ extra) h prev p =
        (Crt.mallocLoop n cores h prev p).map fun r => (r.1, r.2.1, r.2.2 ++ extra)
  | [], _, _, _, hn => nomatch hn
  | c :: cs, h, prev, p, hn => by
    rw [List.cons_append]
    unfold Crt.mallocLoop
    cases pass h n h.ring.length prev p with
    | found h' ptr => rfl
    | stuck => rfl
    | wrapped =>
      cases c with
      | none => rfl
      | some a =>
        have hcs : none ∈ cs := (List.mem_cons.mp hn).resolve_left nofun
        dsimp only
        cases morecore h n a with
        | none => rfl
        | some h₁ => exact mallocLoop_append n extra h₁ _ _ hcs

/-- A loop that returns `NULL` began with a pass that wrapped: a pass that finds room returns a
pointer past a header. -/
theorem Ready.wrapped_of_mallocLoop_null {h h' : Heap} {L : List Nat} {A : List (Nat × Nat)}
    {n : Nat} {cores rest : List (Option Nat)} (hr : Ready h L A) (hn : 0 < n)
    (he : Crt.mallocLoop n cores h h.freep (succOf h.ring h.freep) = some (h', 0, rest)) :
    Crt.pass h n h.ring.length h.freep (succOf h.ring h.freep) = .wrapped := by
  rcases hr.pass hn with ⟨h₁, ptr, hp, -, -, hptr, -⟩ | hw
  · unfold Crt.mallocLoop at he
    rw [hp] at he
    simp only [Option.some.injEq, Prod.mk.injEq] at he
    rw [he.2.1, HEADER_eq] at hptr
    omega
  · exact hw

/-- Where the arena `morecore` maps holds the units asked, `malloc`'s loop returns `NULL` only
when the first `morecore` fails: the pass after a mapped arena finds room. -/
theorem ready_mallocLoop_null {n : Nat} {L : List Nat} {A : List (Nat × Nat)} {h h' : Heap}
    {rest : List (Option Nat)} (hn : 0 < n) (hroom : n * HEADER + PAGE ≤ 0x10000000000000000)
    (hr : Ready h L A) :
    ∀ {cores : List (Option Nat)}, Offers h.base (morecoreBytes n) A cores →
      Crt.mallocLoop n cores h h.freep (succOf h.ring h.freep) = some (h', 0, rest) →
      cores = [] ∨ cores.head? = some none
  | [], _, _ => .inl rfl
  | none :: _, _, _ => .inr rfl
  | some a :: cs, ho, he => by
    exfalso
    have hw := hr.wrapped_of_mallocLoop_null hn he
    -- the pass wrapped: the arena mapped is freed into the heap and the loop goes on from there
    obtain ⟨h₁, hm, hr₁, -, -, x, hx, hfit⟩ := hr.morecore ho.1
    unfold Crt.mallocLoop at he
    rw [hw] at he
    dsimp only at he
    rw [hm] at he
    dsimp only at he
    have hlt := hr₁.units_lt_of_wrapped (hr₁.wrapped_of_mallocLoop_null hn he) x hx
    have hge : n ≤ morecoreBytes n / HEADER :=
      (Nat.le_div_iff_mul_le (by decide)).mpr (morecoreBytes_ge hroom)
    omega

/-- A request for `2^60` units or more, which no block under the end of the address space holds:
every pass wraps, so `malloc`'s loop maps an arena for each outcome until one fails and returns
`NULL`. -/
theorem ready_mallocLoop_starved {n : Nat} {L : List Nat} (hn : 0x1000000000000000 ≤ n) :
    ∀ (cores : List (Option Nat)) (h : Heap) (A : List (Nat × Nat)), Ready h L A →
      (∀ e ∈ A, e.1 + e.2 ≤ 0x10000000000000000) → Offers h.base (morecoreBytes n) A cores →
      ∃ h' used rest,
        Crt.mallocLoop n cores h h.freep (succOf h.ring h.freep) = some (h', 0, rest) ∧
        cores = used ++ rest ∧ used.filterMap id = (cores.takeWhile Option.isSome).filterMap id
  | cores, h, A, hr, hfit, ho => by
    have hn0 : 0 < n := by omega
    unfold Crt.mallocLoop
    rcases hr.pass hn0 with ⟨h', ptr, -, hr', hu, -⟩ | hw
    · -- the block handed out would end past the address space
      have hin : ptr - HEADER ∈ h'.ring.tail ++ (ptr - HEADER) :: L :=
        List.mem_append_right _ List.mem_cons_self
      have hend := hr'.laid.end_le hfit hin
      have habove := hr'.laid.above _ hin
      unfold span at hend
      rw [hu, HEADER_eq] at hend
      rw [HEADER_eq] at habove
      omega
    rw [hw]
    match cores, ho with
    | [], _ => exact ⟨h, [], [], rfl, rfl, rfl⟩
    | none :: cores', _ => exact ⟨h, [none], cores', rfl, rfl, rfl⟩
    | some a :: cores', ⟨ha, ho'⟩ =>
      obtain ⟨h₁, hm, hr₁, hb₁, -⟩ := hr.morecore ha
      rw [← hb₁] at ho'
      obtain ⟨h', used, rest, he, hc, hused⟩ := ready_mallocLoop_starved hn cores' h₁ _ hr₁
        (List.forall_mem_cons.mpr ⟨ha.2.2.2.1, hfit⟩) ho'
      refine ⟨h', some a :: used, rest, by dsimp only; rw [hm]; exact he, by rw [hc]; rfl, ?_⟩
      show a :: used.filterMap id = a :: (cores'.takeWhile Option.isSome).filterMap id
      rw [hused]

/-- `malloc` of a nonzero size runs its loop on the heap it set up. -/
theorem malloc_of_ne_zero (h : Heap) {size : Nat} (hs : size ≠ 0) (cores : List (Option Nat)) :
    malloc h size cores =
      Crt.mallocLoop (unitsFor size) cores (if h.freep = 0 then h.init else h)
        (if h.freep = 0 then h.init else h).freep
        (succOf (if h.freep = 0 then h.init else h).ring (if h.freep = 0 then h.init else h).freep) := by
  unfold malloc
  rw [if_neg hs]

theorem Ready.freep_ne_zero {h : Heap} {L : List Nat} {A : List (Nat × Nat)} (hr : Ready h L A) :
    h.freep ≠ 0 := by
  have := hr.freep
  rw [hr.ring] at this
  rcases List.mem_cons.mp this with hf | hf
  · rw [hf]
    exact hr.base_pos.ne'
  · have := hr.laid.above _ (List.mem_append_left _ hf)
    omega

end Archipelago.Crt
