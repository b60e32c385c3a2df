import Archipelago.Crt.MallocSpec
import Archipelago.Lib.Run

/-! What the heap of the C runtime promises a program over every run of calls from the image's
start, with the kernel answering each `morecore` with a fresh arena or a failure. The world holds
the heap, the grants the program holds (what each `malloc` returned, with the size asked, until
a `free` of it) and the arenas `morecore` mapped. Through every such run the blocks, free and
handed out, lie apart and inside the arenas, the free list stays in address order with no two
free blocks touching, and every grant has room for its size behind a header, at a multiple of
sixteen. No call hangs on any stream of the kernel's answers: `free`'s search ends within one
round, and since the arenas the kernel can map for one `malloc` lie apart in the address space,
each of at least `ARENA_MIN_BYTES`, at most `2^50` answers are arenas and `malloc`'s loop stops
at the first that fails. A size whose rounding wraps is given a block of its header alone. -/

namespace Archipelago.Crt

open Archipelago.Lib

/-- A call a program makes on the heap: `malloc` with the kernel's answers to the `morecore`
calls it may make, and `free`. -/
inductive Call
  | malloc (size : Nat) (cores : List (Option Nat))
  | free (ptr : Nat)
  deriving DecidableEq, Repr

/-- A pointer `malloc` returned, with the size asked. -/
structure Grant where
  ptr : Nat
  size : Nat
  deriving DecidableEq, Repr

/-- The heap, the grants the program holds and the arenas mapped. -/
structure World where
  heap : Heap
  live : List Grant
  arenas : List (Nat × Nat)

/-- The headers of the grants. -/
def World.blocks (w : World) : List Nat := w.live.map (·.ptr - HEADER)

/-- One call: `malloc` adds its grant unless it returned `NULL` and records the arenas of the
answers it took, `free` takes the pointer's grant back; a call that never returns stops the
run. -/
def World.step (w : World) : Call → Except Unit (World × Nat)
  | .malloc size cores =>
    match malloc w.heap size cores with
    | some (h, ptr, rest) =>
      .ok (⟨h, if ptr = 0 then w.live else ⟨ptr, size⟩ :: w.live,
        arenasOf (morecoreBytes (unitsFor size)) (cores.take (cores.length - rest.length)) ++
          w.arenas⟩, ptr)
    | none => .error ()
  | .free ptr =>
    match Crt.free w.heap ptr with
    | some h => .ok (⟨h, w.live.filter (·.ptr != ptr), w.arenas⟩, 0)
    | none => .error ()

/-- A `size_t` size with the kernel's answers fresh arenas or failures; `free` of `NULL` or of a
pointer held. -/
def World.Allowed (w : World) : Call → Prop
  | .malloc size cores =>
    size < 0x10000000000000000 ∧ Offers w.heap.base (morecoreBytes (unitsFor size)) w.arenas cores
  | .free ptr => ptr = 0 ∨ ptr ∈ w.live.map Grant.ptr

/-- The image's start: `g_base` at `base`, nothing handed out, nothing mapped. -/
def World.boot (base : Nat) : World := ⟨Heap.boot base, [], []⟩

theorem World.step_malloc {w w' : World} {size : Nat} {cores : List (Option Nat)} {o : Nat}
    (hs : w.step (.malloc size cores) = .ok (w', o)) :
    ∃ h rest, malloc w.heap size cores = some (h, o, rest) ∧
      w' = ⟨h, if o = 0 then w.live else ⟨o, size⟩ :: w.live,
        arenasOf (morecoreBytes (unitsFor size)) (cores.take (cores.length - rest.length)) ++
          w.arenas⟩ := by
  simp only [World.step] at hs
  split at hs
  · next h ptr rest hm =>
    obtain ⟨rfl, rfl⟩ := Prod.mk.inj (Except.ok.inj hs)
    exact ⟨h, rest, hm, rfl⟩
  · cases hs

theorem World.step_free {w w' : World} {ptr o : Nat} (hs : w.step (.free ptr) = .ok (w', o)) :
    ∃ h, Crt.free w.heap ptr = some h ∧ w' = ⟨h, w.live.filter (·.ptr != ptr), w.arenas⟩ := by
  simp only [World.step] at hs
  split at hs
  · next h hf =>
    obtain ⟨rfl, rfl⟩ := Prod.mk.inj (Except.ok.inj hs)
    exact ⟨h, hf, rfl⟩
  · cases hs

/-! ### The invariant -/

/-- Before the first `malloc` the heap is as the image started it; after, it is set up for the
grants and arenas. Every grant has room for its size behind its header unless the rounding
wrapped, and every arena lies in the address space. -/
structure World.Inv (w : World) : Prop where
  heap : (w.heap.freep = 0 ∧ w.live = [] ∧ w.arenas = []) ∨ Ready w.heap w.blocks w.arenas
  base_pos : 0 < w.heap.base
  room : ∀ g ∈ w.live, HEADER ≤ g.ptr ∧
    (g.size + HEADER ≤ 0x10000000000000000 → g.size ≤ HEADER * (w.heap.units (g.ptr - HEADER) - 1))
  fit : ∀ e ∈ w.arenas, e.1 + e.2 ≤ 0x10000000000000000

theorem World.Inv.boot {base : Nat} (hb : 0 < base) : (World.boot base).Inv :=
  ⟨.inl ⟨rfl, rfl, rfl⟩, hb, nofun, nofun⟩

/-- The arenas of the answers taken lie in the address space. -/
theorem offers_fit {base bytes : Nat} :
    ∀ {A : List (Nat × Nat)} {used rest : List (Option Nat)}, Offers base bytes A (used ++ rest) →
      ∀ e ∈ arenasOf bytes used, e.1 + e.2 ≤ 0x10000000000000000
  | _, [], _, _, _, he => nomatch he
  | _, none :: used, _, ho, e, he =>
    (offers_fit ho : ∀ e ∈ arenasOf bytes used, e.1 + e.2 ≤ 0x10000000000000000) e he
  | _, some a :: used, rest, ⟨ha, ho⟩, e, he => by
    rcases List.mem_cons.mp he with rfl | he
    · exact ha.2.2.2.1
    · exact offers_fit ho e he

/-- The answers a `malloc` could be given, cut anywhere. -/
theorem Offers.of_append {base bytes : Nat} :
    ∀ {A : List (Nat × Nat)} {cores extra : List (Option Nat)}, Offers base bytes A (cores ++ extra) →
      Offers base bytes A cores
  | _, [], _, _ => trivial
  | _, none :: cores, _, ho => (Offers.of_append ho : Offers base bytes _ cores)
  | _, some _ :: _, _, ⟨ha, ho⟩ => ⟨ha, Offers.of_append ho⟩

/-- Failures may come first. -/
theorem offers_failures_first {base bytes : Nat} {A : List (Nat × Nat)} {cores : List (Option Nat)}
    (ho : Offers base bytes A cores) : ∀ {l : List (Option Nat)}, (∀ c ∈ l, c = none) →
      Offers base bytes A (l ++ cores)
  | [], _ => ho
  | c :: l, hl => by
    rw [hl c List.mem_cons_self]
    exact (offers_failures_first ho fun c' hc' => hl c' (List.mem_cons_of_mem _ hc') :
      Offers base bytes A (l ++ cores))

/-- The arenas of the answers lie apart, and apart from those mapped before. -/
theorem offers_apart {base bytes : Nat} :
    ∀ {A : List (Nat × Nat)} {cores : List (Option Nat)}, Offers base bytes A cores →
      (arenasOf bytes cores).Pairwise Lib.Separate ∧ ∀ e ∈ arenasOf bytes cores, ∀ f ∈ A, Lib.Separate e f
  | _, [], _ => ⟨List.Pairwise.nil, nofun⟩
  | _, none :: cores, ho =>
    (offers_apart ho : (arenasOf bytes cores).Pairwise Lib.Separate ∧
      ∀ e ∈ arenasOf bytes cores, ∀ f ∈ _, Lib.Separate e f)
  | A, some a :: cores, ⟨ha, ho⟩ => by
    obtain ⟨hp, hs⟩ := offers_apart ho
    refine ⟨List.pairwise_cons.mpr ⟨fun e he => ?_, hp⟩, fun e he f hf => ?_⟩
    · -- every later arena was fresh against this one
      have := hs e he (a, bytes) List.mem_cons_self
      unfold Lib.Separate at this ⊢
      dsimp only at this ⊢
      omega
    · rcases List.mem_cons.mp he with rfl | he
      · exact ha.2.2.2.2 f hf
      · exact hs e he f (List.mem_cons_of_mem _ hf)

theorem sum_arenasOf (bytes : Nat) (used : List (Option Nat)) :
    ((arenasOf bytes used).map Prod.snd).sum = (used.filterMap id).length * bytes := by
  unfold arenasOf
  generalize used.filterMap id = l
  induction l with
  | nil => simp
  | cons a l ih =>
    rw [List.map_cons, List.map_cons, List.sum_cons, ih, List.length_cons, Nat.succ_mul]
    omega

theorem length_filterMap_id : ∀ {l : List (Option Nat)}, none ∉ l → (l.filterMap id).length = l.length
  | [], _ => rfl
  | none :: _, h => absurd List.mem_cons_self h
  | some _ :: _, h => congrArg Nat.succ (length_filterMap_id fun hl => h (List.mem_cons_of_mem _ hl))

/-- At most `2^50` of the kernel's answers to one `malloc` are arenas: they lie apart in the
address space, each of at least `ARENA_MIN_BYTES`. So any `2^50 + 1` answers hold a failure. -/
theorem none_mem_of_offers {base units : Nat} {A : List (Nat × Nat)} {cores : List (Option Nat)}
    (ho : Offers base (morecoreBytes units) A cores) (hlen : 0x4000000000000 < cores.length) :
    none ∈ cores := by
  by_contra hn
  obtain ⟨c, cs, rfl⟩ : ∃ c cs, cores = c :: cs := List.exists_cons_of_length_pos (by omega)
  obtain ⟨a, rfl⟩ : ∃ a, c = some a := Option.ne_none_iff_exists'.mp fun hc => hn (hc ▸ List.mem_cons_self)
  have hmin := morecoreBytes_min ho.1.2.2.1
  have hsum := sum_le_of_apart (offers_apart ho).1
    (offers_fit (show Offers _ _ _ (some a :: cs ++ []) by rw [List.append_nil]; exact ho))
  have hcount := sum_arenasOf (morecoreBytes units) (some a :: cs)
  rw [length_filterMap_id hn] at hcount
  have := Nat.mul_le_mul_left (some a :: cs).length hmin
  unfold ARENA_MIN_BYTES at this
  omega

/-- Answers after a failure change nothing of a `malloc`. -/
theorem World.step_malloc_append (w : World) (size : Nat) {cores : List (Option Nat)}
    (extra : List (Option Nat)) (hn : none ∈ cores) :
    w.step (.malloc size (cores ++ extra)) = w.step (.malloc size cores) := by
  simp only [World.step]
  by_cases h0 : size = 0
  · subst h0
    have hm : ∀ cs, Crt.malloc w.heap 0 cs = some (w.heap, 0, cs) := fun cs => by
      unfold Crt.malloc
      rw [if_pos rfl]
    simp only [hm, Nat.sub_self, List.take_zero]
  · rw [malloc_of_ne_zero _ h0, malloc_of_ne_zero _ h0, mallocLoop_append _ extra _ _ _ hn]
    cases Crt.mallocLoop (unitsFor size) cores _ _ _ with
    | none => rfl
    | some r =>
      obtain ⟨h, ptr, rest⟩ := r
      have htake : (cores ++ extra).take ((cores ++ extra).length - (rest ++ extra).length) =
          cores.take (cores.length - rest.length) := by
        rw [List.length_append, List.length_append, Nat.add_sub_add_right,
          List.take_append_of_le_length (Nat.sub_le _ _)]
      simp only [Option.map_some, htake]

/-- The headers of the grants without the one at `ptr`, when pointers are not repeated. -/
theorem blocks_perm_filter {ptr : Nat} :
    ∀ {live : List Grant}, (live.map Grant.ptr).Nodup → ptr ∈ live.map Grant.ptr →
      (live.map (·.ptr - HEADER)).Perm ((ptr - HEADER) :: (live.filter (·.ptr != ptr)).map (·.ptr - HEADER))
  | [], _, hp => nomatch hp
  | g :: gs, hnd, hp => by
    obtain ⟨hg, hnd⟩ := List.nodup_cons.mp hnd
    by_cases hgp : g.ptr = ptr
    · -- `g` is the grant freed; no other grant has its pointer
      have hgs : gs.filter (·.ptr != ptr) = gs :=
        List.filter_eq_self.mpr fun g' hg' => by
          rw [bne_iff_ne, ← hgp]
          exact fun he => hg (he ▸ List.mem_map_of_mem hg')
      rw [List.filter_cons_of_neg (by simp [hgp]), hgs, List.map_cons, hgp]
    · rw [List.filter_cons_of_pos (by simp [hgp]), List.map_cons, List.map_cons]
      have hp' : ptr ∈ gs.map Grant.ptr := by
        rcases List.mem_cons.mp hp with hp | hp
        exacts [absurd hp.symm hgp, hp]
      exact ((blocks_perm_filter hnd hp').cons _).trans (List.Perm.swap _ _ _)

theorem World.Inv.ready_of_mem {w : World} (hinv : w.Inv) {g : Grant} (hg : g ∈ w.live) :
    Ready w.heap w.blocks w.arenas := by
  rcases hinv.heap with ⟨-, hl, -⟩ | hr
  · rw [hl] at hg
    exact nomatch hg
  · exact hr

/-- A pointer granted is freed from the heap set up: its header is one of the blocks handed out,
and the others are the headers of the grants kept. -/
theorem World.Inv.free_perm {w : World} (hinv : w.Inv) {ptr : Nat} (hp : ptr ∈ w.live.map Grant.ptr) :
    Ready w.heap w.blocks w.arenas ∧
      w.blocks.Perm ((ptr - HEADER) :: (w.live.filter (·.ptr != ptr)).map (·.ptr - HEADER)) := by
  obtain ⟨g, hg, rfl⟩ := List.mem_map.mp hp
  have hr := hinv.ready_of_mem hg
  have hnd : w.blocks.Nodup := (List.nodup_append.mp hr.laid.nodup).2.1
  refine ⟨hr, blocks_perm_filter (List.Nodup.of_map (· - HEADER) ?_) hp⟩
  rw [List.map_map]
  exact hnd

/-- The heap `malloc`'s loop starts from is set up, by the first `malloc` if need be, with the
grants' headers as they were. -/
theorem World.Inv.start_ready {w : World} (hinv : w.Inv) :
    Ready (if w.heap.freep = 0 then w.heap.init else w.heap) w.blocks w.arenas ∧
      (if w.heap.freep = 0 then w.heap.init else w.heap).base = w.heap.base ∧
      ∀ x ∈ w.blocks, (if w.heap.freep = 0 then w.heap.init else w.heap).units x = w.heap.units x := by
  rcases hinv.heap with ⟨hf, hl, -⟩ | hr
  · rw [if_pos hf, World.blocks, hl, List.map_nil]
    exact ⟨ready_init _ hinv.base_pos _, rfl, nofun⟩
  · rw [if_neg hr.freep_ne_zero]
    exact ⟨hr, rfl, fun _ _ => rfl⟩

/-- `malloc` of a nonzero size on the world: the loop runs on the heap the first `malloc` set
up, hands out a block of the units asked or returns `NULL`, and writes no header of the grants
held. -/
theorem World.Inv.malloc_eq {w : World} {size : Nat} {cores : List (Option Nat)} (hinv : w.Inv)
    (h0 : size ≠ 0) (ho : Offers w.heap.base (morecoreBytes (unitsFor size)) w.arenas cores) :
    ∃ h' ptr used rest, malloc w.heap size cores = some (h', ptr, rest) ∧ cores = used ++ rest ∧
      h'.base = w.heap.base ∧ (∀ x ∈ w.blocks, h'.units x = w.heap.units x) ∧
      ((ptr = 0 ∧ Ready h' w.blocks (arenasOf (morecoreBytes (unitsFor size)) used ++ w.arenas)) ∨
        (HEADER ≤ ptr ∧ h'.units (ptr - HEADER) = unitsFor size ∧
          Ready h' ((ptr - HEADER) :: w.blocks)
            (arenasOf (morecoreBytes (unitsFor size)) used ++ w.arenas))) := by
  rw [malloc_of_ne_zero _ h0]
  obtain ⟨hr₀, hb₀, hx₀⟩ := hinv.start_ready
  obtain ⟨h', ptr, used, rest, he, hc, hb, hx, hres⟩ :=
    ready_mallocLoop (unitsFor_pos size) cores _ w.arenas hr₀ (hb₀ ▸ ho)
  exact ⟨h', ptr, used, rest, he, hc, hb.trans hb₀, fun x hxb => (hx x hxb).trans (hx₀ x hxb), hres⟩

theorem World.Inv.malloc {w w' : World} {size : Nat} {cores : List (Option Nat)} {o : Nat}
    (hinv : w.Inv) (ha : w.Allowed (.malloc size cores)) (hs : w.step (.malloc size cores) = .ok (w', o)) :
    w'.Inv := by
  obtain ⟨h, rest, hm, rfl⟩ := World.step_malloc hs
  obtain ⟨hsz, ho⟩ := ha
  by_cases h0 : size = 0
  · -- `malloc(0)` returns `NULL` and changes nothing
    rw [h0] at hm
    unfold Crt.malloc at hm
    rw [if_pos rfl] at hm
    cases hm
    simp only [if_pos, Nat.sub_self, List.take_zero]
    exact hinv
  obtain ⟨h', ptr, used, rest', he, hc, hb, hx, hres⟩ := hinv.malloc_eq h0 ho
  rw [he] at hm
  simp only [Option.some.injEq, Prod.mk.injEq] at hm
  obtain ⟨rfl, rfl, rfl⟩ := hm
  have htake : cores.take (cores.length - rest'.length) = used := by
    rw [hc, List.length_append, Nat.add_sub_cancel, List.take_left]
  rw [htake]
  have hfit : ∀ e ∈ arenasOf (morecoreBytes (unitsFor size)) used ++ w.arenas,
      e.1 + e.2 ≤ 0x10000000000000000 := by
    intro e he
    rcases List.mem_append.mp he with he | he
    exacts [offers_fit (hc ▸ ho) e he, hinv.fit e he]
  -- the grants held before keep their headers
  have hold : ∀ g ∈ w.live, HEADER ≤ g.ptr ∧ (g.size + HEADER ≤ 0x10000000000000000 →
      g.size ≤ HEADER * (h'.units (g.ptr - HEADER) - 1)) := fun g hg => by
    rw [hx _ (List.mem_map_of_mem hg)]
    exact hinv.room g hg
  rcases hres with ⟨rfl, hr'⟩ | ⟨hptr, hu, hr'⟩
  · rw [if_pos rfl]
    exact ⟨.inr hr', hb ▸ hinv.base_pos, hold, hfit⟩
  · rw [if_neg (show ptr ≠ 0 by rw [HEADER_eq] at hptr; omega)]
    refine ⟨.inr hr', hb ▸ hinv.base_pos, fun g hg => ?_, hfit⟩
    rcases List.mem_cons.mp hg with rfl | hg
    · exact ⟨hptr, fun hsz' => hu ▸ unitsFor_room hsz'⟩
    · exact hold g hg

theorem World.Inv.free {w w' : World} {ptr o : Nat} (hinv : w.Inv) (ha : w.Allowed (.free ptr))
    (hs : w.step (.free ptr) = .ok (w', o)) : w'.Inv := by
  obtain ⟨h, hf, rfl⟩ := World.step_free hs
  rcases ha with rfl | hp
  · -- `free(NULL)` changes nothing
    unfold Crt.free at hf
    rw [if_pos rfl] at hf
    cases hf
    have hkeep : w.live.filter (·.ptr != 0) = w.live := List.filter_eq_self.mpr fun g hg => by
      have := (hinv.room g hg).1
      rw [bne_iff_ne]
      rw [HEADER_eq] at this
      omega
    rw [hkeep]
    exact hinv
  · obtain ⟨hr, hperm⟩ := hinv.free_perm hp
    obtain ⟨h', hf', hr', hb, hx⟩ := hr.free hperm
    rw [hf] at hf'
    cases hf'
    refine ⟨.inr hr', hb ▸ hinv.base_pos, fun g' hg' => ?_, hinv.fit⟩
    have hg'' := (List.mem_filter.mp hg').1
    rw [hx _ (List.mem_map_of_mem hg')]
    exact hinv.room g' hg''

theorem World.Inv.step {w w' : World} {c : Call} {o : Nat} (hinv : w.Inv) (ha : w.Allowed c)
    (hs : w.step c = .ok (w', o)) : w'.Inv := by
  cases c with
  | malloc size cores => exact hinv.malloc ha hs
  | free ptr => exact hinv.free ha hs

theorem World.Inv.of_reaches {base : Nat} {w : World} (hb : 0 < base)
    (hw : Reaches World.step World.Allowed (World.boot base) w) : w.Inv :=
  Reaches.invariant World.Inv (World.Inv.boot hb) (fun _ _ _ _ hinv ha hs => hinv.step ha hs) hw

/-! ### What the invariant gives a program -/

/-- No call allowed on the world hangs. -/
theorem World.Inv.step_ok {w : World} {c : Call} (hinv : w.Inv) (ha : w.Allowed c) :
    ∃ w' o, w.step c = .ok (w', o) := by
  cases c with
  | malloc size cores =>
    have hm : ∃ r, Crt.malloc w.heap size cores = some r := by
      by_cases h0 : size = 0
      · exact ⟨_, by unfold Crt.malloc; rw [if_pos h0]⟩
      · obtain ⟨h', ptr, -, rest, he, -⟩ := hinv.malloc_eq h0 ha.2
        exact ⟨_, he⟩
    obtain ⟨⟨h', ptr, rest⟩, he⟩ := hm
    exact ⟨_, _, by simp only [World.step, he]; rfl⟩
  | free ptr =>
    have hf : ∃ h', Crt.free w.heap ptr = some h' := by
      rcases ha with rfl | hp
      · exact ⟨_, by unfold Crt.free; rw [if_pos rfl]⟩
      · obtain ⟨hr, hperm⟩ := hinv.free_perm hp
        obtain ⟨h', he, -⟩ := hr.free hperm
        exact ⟨h', he⟩
    obtain ⟨h', he⟩ := hf
    exact ⟨_, _, by simp only [World.step, he]; rfl⟩

/-- A grant whose rounding did not wrap lies in its block, after the header. -/
theorem World.Inv.grant_inside {w : World} (hinv : w.Inv) {g : Grant} (hg : g ∈ w.live)
    (hsz : g.size + HEADER ≤ 0x10000000000000000) :
    HEADER ≤ g.ptr ∧ g.ptr + g.size ≤ g.ptr - HEADER + span w.heap.units (g.ptr - HEADER) := by
  have hr := hinv.ready_of_mem hg
  have hb : g.ptr - HEADER ∈ w.blocks := List.mem_map_of_mem hg
  have hpos := hr.laid.pos _ (List.mem_append_right _ hb)
  obtain ⟨hptr, hroom⟩ := hinv.room g hg
  have := hroom hsz
  unfold span
  rw [HEADER_eq] at *
  refine ⟨hptr, ?_⟩
  omega

section Runs

variable {base : Nat} {w : World} (hb : 0 < base)
  (hw : Reaches World.step World.Allowed (World.boot base) w)

include hb hw

/-- Through every run the heap is as the image started it, before the first `malloc`, or set up:
the free list runs from `g_base` through the free blocks in address order with room between
(no two free blocks touch), `g_freep` is on it, and the blocks, free and handed out, lie apart,
are not empty, sit in the arenas mapped, at multiples of sixteen above `g_base`. -/
theorem heap_ready_over_runs :
    (w.heap.freep = 0 ∧ w.live = []) ∨ Ready w.heap w.blocks w.arenas := by
  rcases (World.Inv.of_reaches hb hw).heap with ⟨hf, hl, -⟩ | hr
  exacts [.inl ⟨hf, hl⟩, .inr hr]

/-- Through every run what a program may write through a grant whose rounding did not wrap is
its own: the bytes of two grants lie apart, and each grant's bytes lie in the arenas mapped and
apart from every free block header included; every grant is a multiple of sixteen. -/
theorem grants_apart_inside_over_runs :
    w.live.Pairwise (fun g g' => g.size + HEADER ≤ 0x10000000000000000 →
        g'.size + HEADER ≤ 0x10000000000000000 → g.ptr + g.size ≤ g'.ptr ∨ g'.ptr + g'.size ≤ g.ptr) ∧
      ∀ g ∈ w.live, HEADER ∣ g.ptr ∧ (g.size + HEADER ≤ 0x10000000000000000 →
        Covered w.arenas g.ptr (g.ptr + g.size) ∧
          ∀ x ∈ w.heap.ring.tail, x + span w.heap.units x ≤ g.ptr - HEADER ∨ g.ptr + g.size ≤ x) := by
  have hinv := World.Inv.of_reaches hb hw
  rcases hinv.heap with ⟨-, hl, -⟩ | hr
  · rw [hl]
    exact ⟨List.Pairwise.nil, nofun⟩
  have hap := List.pairwise_append.mp hr.laid.apart
  have hmem : ∀ g ∈ w.live, g.ptr - HEADER ∈ w.heap.ring.tail ++ w.blocks :=
    fun g hg => List.mem_append_right _ (List.mem_map_of_mem hg)
  refine ⟨(List.pairwise_map.mp hap.2.1).imp_of_mem fun {g g'} hg hg' happ hsz hsz' => ?_,
    fun g hg => ⟨?_, fun hsz => ⟨?_, fun x hx => ?_⟩⟩⟩
  · have := hinv.grant_inside hg hsz
    have := hinv.grant_inside hg' hsz'
    unfold Apart at happ
    omega
  · obtain ⟨k, hk⟩ := hr.laid.aligned _ (hmem g hg)
    have := (hinv.room g hg).1
    rw [HEADER_eq] at *
    exact ⟨k + 1, by omega⟩
  · have := hinv.grant_inside hg hsz
    exact (hr.laid.covered _ (hmem g hg)).mono (by omega) this.2
  · have hx' := hap.2.2 x hx _ (List.mem_map_of_mem hg)
    have := hinv.grant_inside hg hsz
    unfold Apart at hx'
    omega

/-- Through every run no allowed call hangs, whatever stream of answers the kernel gives.
`free`'s search finds its spot within one round of the free list. One `malloc` can be given
at most `2^50` arenas, since they lie apart in the address space, each of at least
`ARENA_MIN_BYTES`, and its loop asks for no answer after one that fails: the first `2^50 + 1`
answers of any stream decide the call, and on them it returns. -/
theorem calls_end_on_any_answers :
    (∀ ptr, w.Allowed (.free ptr) → ∃ w' o, w.step (.free ptr) = .ok (w', o)) ∧
      ∀ size cores extra, w.Allowed (.malloc size (cores ++ extra)) → 0x4000000000000 < cores.length →
        w.step (.malloc size (cores ++ extra)) = w.step (.malloc size cores) ∧
          ∃ w' o, w.step (.malloc size cores) = .ok (w', o) := by
  have hinv := World.Inv.of_reaches hb hw
  refine ⟨fun ptr ha => hinv.step_ok ha, fun size cores extra ha hlen => ?_⟩
  have ho := Offers.of_append ha.2
  exact ⟨World.step_malloc_append w size extra (none_mem_of_offers ho hlen), hinv.step_ok ⟨ha.1, ho⟩⟩

/-- Through every run the sixteen largest sizes wrap `malloc`'s rounding: what it hands out is a
block of its header alone, which ends at the pointer returned. -/
theorem huge_malloc_gets_header_only {size ptr : Nat} {cores : List (Option Nat)} {w' : World}
    (hsz : 0x10000000000000000 - 15 ≤ size) (ha : w.Allowed (.malloc size cores))
    (hs : w.step (.malloc size cores) = .ok (w', ptr)) (hp : ptr ≠ 0) :
    ptr - HEADER + span w'.heap.units (ptr - HEADER) = ptr := by
  have hinv := World.Inv.of_reaches hb hw
  obtain ⟨h, rest, hm, rfl⟩ := World.step_malloc hs
  obtain ⟨h', ptr', used, rest', he, -, -, -, hres⟩ := hinv.malloc_eq (by omega) ha.2
  rw [he] at hm
  simp only [Option.some.injEq, Prod.mk.injEq] at hm
  obtain ⟨rfl, rfl, rfl⟩ := hm
  rcases hres with ⟨h0, -⟩ | ⟨hptr, hu, -⟩
  · exact absurd h0 hp
  · show ptr' - HEADER + HEADER * h'.units (ptr' - HEADER) = ptr'
    rw [hu, unitsFor_wrap hsz ha.1, HEADER_eq] at *
    omega

/-- Through every run `malloc` of a nonzero size whose arena does not wrap returns `NULL` only
when the first `morecore` it makes fails, or the kernel gives no answer: an arena mapped always
holds the block asked. -/
theorem malloc_null_only_when_morecore_fails {size : Nat} {cores : List (Option Nat)} {w' : World}
    (h0 : size ≠ 0) (hsz : size + 2 * HEADER + PAGE ≤ 0x10000000000000000)
    (ha : w.Allowed (.malloc size cores)) (hs : w.step (.malloc size cores) = .ok (w', 0)) :
    cores = [] ∨ cores.head? = some none := by
  obtain ⟨h, rest, hm, -⟩ := World.step_malloc hs
  obtain ⟨hr₀, hb₀, -⟩ := (World.Inv.of_reaches hb hw).start_ready
  rw [malloc_of_ne_zero _ h0] at hm
  exact ready_mallocLoop_null (unitsFor_pos size) (unitsFor_bytes hsz) hr₀ (hb₀ ▸ ha.2) hm

/-- Through every run the sixteen sizes just under the wrap ask for `2^60` units, more than any
block under the end of the address space holds: every pass wraps, so `malloc` maps an arena of
`ARENA_MIN_BYTES` for each answer the kernel gives until one fails, keeps them all, and returns
`NULL`. -/
theorem near_max_malloc_maps_every_arena {size ptr : Nat} {cores : List (Option Nat)} {w' : World}
    (h₁ : 0x10000000000000000 - 31 ≤ size) (h₂ : size ≤ 0x10000000000000000 - 16)
    (ha : w.Allowed (.malloc size cores)) (hs : w.step (.malloc size cores) = .ok (w', ptr)) :
    ptr = 0 ∧ w'.arenas = arenasOf ARENA_MIN_BYTES (cores.takeWhile Option.isSome) ++ w.arenas := by
  have hinv := World.Inv.of_reaches hb hw
  have hu := unitsFor_near_max h₁ h₂
  obtain ⟨h, rest, hm, rfl⟩ := World.step_malloc hs
  obtain ⟨hr₀, hb₀, -⟩ := hinv.start_ready
  rw [malloc_of_ne_zero _ (by omega), hu] at hm
  have ho := ha.2
  rw [hu, ← hb₀] at ho
  obtain ⟨h', used, rest', he, hc, hused⟩ :=
    ready_mallocLoop_starved le_rfl cores _ _ hr₀ hinv.fit ho
  rw [he] at hm
  simp only [Option.some.injEq, Prod.mk.injEq] at hm
  obtain ⟨rfl, rfl, rfl⟩ := hm
  have htake : cores.take (cores.length - rest'.length) = used := by
    rw [hc, List.length_append, Nat.add_sub_cancel, List.take_left]
  refine ⟨rfl, ?_⟩
  show arenasOf (morecoreBytes (unitsFor size)) (cores.take (cores.length - rest'.length)) ++
    w.arenas = _
  rw [htake, hu, morecoreBytes_near_max]
  unfold arenasOf
  rw [hused]

end Runs

/-- The world after a first `malloc(100)`, with `g_base` at `0x401000` and the kernel mapping
the arena at `0x20000000`. -/
def grantedWorld : World :=
  match (World.boot 0x401000).step (.malloc 100 [some 0x20000000]) with
  | .ok (w, _) => w
  | .error _ => World.boot 0x401000

theorem grantedWorld_reaches : Reaches World.step World.Allowed (World.boot 0x401000) grantedWorld :=
  .step (i := .malloc 100 [some 0x20000000]) (o := 0x20003F90) .start
    ⟨by norm_num, ⟨by decide, by decide, by decide, by decide, nofun⟩, trivial⟩ rfl

/-- The world after a `malloc(SIZE_MAX)` on the first. -/
def hugeWorld : World :=
  match grantedWorld.step (.malloc 0xFFFFFFFFFFFFFFFF []) with
  | .ok (w, _) => w
  | .error _ => grantedWorld

/-- The world after a `malloc(20000)` on the first, which finds no room and whose `morecore`
fails. -/
def nullWorld : World :=
  match grantedWorld.step (.malloc 20000 [none]) with
  | .ok (w, _) => w
  | .error _ => grantedWorld

/-- The world after a `malloc(SIZE_MAX - 19)` on the first, the kernel mapping one arena at
`0x30000000` and then failing. -/
def starvedWorld : World :=
  match grantedWorld.step (.malloc 0xFFFFFFFFFFFFFFEC [some 0x30000000, none]) with
  | .ok (w, _) => w
  | .error _ => grantedWorld

/-- The kernel failing `2^50 + 1` times in a row: more answers than the address space has
arenas. Kept whole, so that no proof unfolds it cell by cell. -/
@[irreducible] def failingAnswers : List (Option Nat) := List.replicate 0x4000000000001 none

theorem granted_heap_ready :
    (grantedWorld.heap.freep = 0 ∧ grantedWorld.live = []) ∨
      Ready grantedWorld.heap grantedWorld.blocks grantedWorld.arenas :=
  heap_ready_over_runs (by norm_num) grantedWorld_reaches

theorem granted_grants_apart_inside :
    grantedWorld.live.Pairwise (fun g g' => g.size + HEADER ≤ 0x10000000000000000 →
        g'.size + HEADER ≤ 0x10000000000000000 → g.ptr + g.size ≤ g'.ptr ∨ g'.ptr + g'.size ≤ g.ptr) ∧
      ∀ g ∈ grantedWorld.live, HEADER ∣ g.ptr ∧ (g.size + HEADER ≤ 0x10000000000000000 →
        Covered grantedWorld.arenas g.ptr (g.ptr + g.size) ∧
          ∀ x ∈ grantedWorld.heap.ring.tail,
            x + span grantedWorld.heap.units x ≤ g.ptr - HEADER ∨ g.ptr + g.size ≤ x) :=
  grants_apart_inside_over_runs (by norm_num) grantedWorld_reaches

theorem granted_calls_end_on_any_answers :
    (∃ w' o, grantedWorld.step (.free 0x20003F90) = .ok (w', o)) ∧
      grantedWorld.step (.malloc 100 (failingAnswers ++ [some 0x30000000])) =
          grantedWorld.step (.malloc 100 failingAnswers) ∧
        ∃ w' o, grantedWorld.step (.malloc 100 failingAnswers) = .ok (w', o) := by
  have ho : Offers grantedWorld.heap.base (morecoreBytes (unitsFor 100)) grantedWorld.arenas
      [some 0x30000000] := ⟨⟨by decide, by decide, by decide, by decide, by decide⟩, trivial⟩
  have hnone : ∀ c ∈ failingAnswers, c = none := fun c hc => by
    unfold failingAnswers at hc
    exact List.eq_of_mem_replicate hc
  have hlen : 0x4000000000000 < failingAnswers.length := by
    unfold failingAnswers
    rw [List.length_replicate]
    decide
  exact ⟨(calls_end_on_any_answers (by norm_num) grantedWorld_reaches).1 0x20003F90 (.inr (by decide)),
    (calls_end_on_any_answers (by norm_num) grantedWorld_reaches).2 100 failingAnswers
      [some 0x30000000] ⟨by norm_num, offers_failures_first ho hnone⟩ hlen⟩

theorem granted_huge_malloc_header_only :
    0x20003F80 - HEADER + span hugeWorld.heap.units (0x20003F80 - HEADER) = 0x20003F80 :=
  @huge_malloc_gets_header_only 0x401000 grantedWorld (by norm_num) grantedWorld_reaches
    0xFFFFFFFFFFFFFFFF 0x20003F80 [] hugeWorld (by norm_num) ⟨by norm_num, trivial⟩ rfl (by decide)

theorem granted_null_only_when_morecore_fails :
    ([none] : List (Option Nat)) = [] ∨ ([none] : List (Option Nat)).head? = some none :=
  @malloc_null_only_when_morecore_fails 0x401000 grantedWorld (by norm_num) grantedWorld_reaches
    20000 [none] nullWorld (by decide) (by decide) ⟨by norm_num, trivial⟩ rfl

theorem granted_near_max_maps_every_arena :
    0 = 0 ∧ starvedWorld.arenas = arenasOf ARENA_MIN_BYTES
      ([some 0x30000000, none].takeWhile Option.isSome) ++ grantedWorld.arenas :=
  @near_max_malloc_maps_every_arena 0x401000 grantedWorld (by norm_num) grantedWorld_reaches
    0xFFFFFFFFFFFFFFEC 0 [some 0x30000000, none] starvedWorld (by norm_num) (by norm_num)
    ⟨by norm_num, ⟨by decide, by decide, by decide, by decide, by decide⟩, trivial⟩ rfl

end Archipelago.Crt
