import Archipelago.Lib.Slots
import Archipelago.Mm.PageMap

/-! Virtual memory objects (`mm/vmo.cpp`, `kernel/mm/pager.h`): a page-granular container
whose pages materialize through a pager. The residency index is a vector of chunks of 512
entries, each an allocated PMM frame (zeroed, so every entry starts absent) holding a frame
address or 0; chunks are allocated on first touch. `g_page_frame_allocator.alloc()` is the
environment, so every call that may allocate takes the frame it would get (`none` for an
exhausted allocator). `maybe::value` on an absent frame panics; the model returns the
panic message (`Except String`). -/

namespace Archipelago.Mm

open Archipelago.Lib Archipelago.Obj

/-- A VMO's backing store: the shared zero-fill pager, or a fixed physical window. -/
inductive Pager
  | anonymous
  | device (base : Word) (mode : VmCacheMode)
  deriving DecidableEq, Repr

namespace Pager

/-- `pager::owns_frames`: frames come from the PMM. -/
def ownsFrames : Pager → Bool
  | anonymous => true
  | device _ _ => false

/-- `pager::cache_mode`. -/
def cacheMode : Pager → VmCacheMode
  | anonymous => .cached
  | device _ mode => mode

/-- `anonymous_pager::fill` hands out the PMM's frame; `device_pager::fill` translates the
page into the window. -/
def fill : Pager → Option Word → Word → Except Errc Word
  | anonymous, frame, _ =>
    match frame with
    | none => .error .oom
    | some f => .ok f
  | device base _, _, page => .ok (base + page * pageSize)

/-- The frames the pager hands out for the pages of a VMO of `pages` pages avoid `z`: a
device window holds no page at `z`. -/
def Avoids (p : Pager) (pages z : Word) : Prop :=
  ∀ base mode, p = device base mode → ∀ page, page < pages → base + page * pageSize ≠ z

theorem avoids_anonymous (pages z : Word) : anonymous.Avoids pages z :=
  fun _ _ h => by cases h

/-- A fill from a PMM frame other than `z`, of a page in range, is not `z`. -/
theorem fill_ne {p : Pager} {pages z page x : Word} {frame : Option Word} (hp : p.Avoids pages z)
    (hf : frame ≠ some z) (hpage : page < pages) (h : p.fill frame page = .ok x) : x ≠ z := by
  cases p with
  | anonymous =>
    cases frame with
    | none => cases h
    | some f =>
      cases h
      exact fun hx => hf (by rw [hx])
  | device base mode =>
    cases h
    exact hp base mode rfl page hpage

end Pager

/-- `vmo::mapping`: a back-ref to a binding slot of an address space. -/
structure Mapping where
  aspace : Nat
  binding : Nat
  deriving DecidableEq, Repr

/-- `CHUNK_ENTRIES`. -/
def chunkEntries : Nat := 512

/-- `vmo`: `m_pages`, `m_pager`, the chunk vector (each allocated chunk's entries, 0 for
absent), the mapping back-refs and the residency counters. -/
structure Vmo where
  pages : Word
  pager : Pager
  chunks : List (Option (Nat → Word))
  mappings : List Mapping
  resident : Nat
  fills : Nat

namespace Vmo

/-- `vmo::vmo`: one null chunk pointer per 512 pages; a failed `push_back` is ignored, so
the vector holds as many as succeeded (`pushed`). -/
def create (pages : Word) (pager : Pager) (pushed : Nat) : Vmo where
  pages := pages
  pager := pager
  chunks := List.replicate (min pushed ((pages + 511) / 512).toNat) none
  mappings := []
  resident := 0
  fills := 0

/-- What a read past the VMO table finds: an empty anonymous VMO. -/
instance : Inhabited Vmo := ⟨create 0 .anonymous 0⟩

@[simp] theorem default_pages : (default : Vmo).pages = 0 := rfl
@[simp] theorem default_pager : (default : Vmo).pager = .anonymous := rfl
@[simp] theorem default_mappings : (default : Vmo).mappings = [] := rfl
@[simp] theorem create_mappings (pages : Word) (pager : Pager) (pushed : Nat) :
    (create pages pager pushed).mappings = [] := rfl
@[simp] theorem create_pages (pages : Word) (pager : Pager) (pushed : Nat) :
    (create pages pager pushed).pages = pages := rfl
@[simp] theorem create_pager (pages : Word) (pager : Pager) (pushed : Nat) :
    (create pages pager pushed).pager = pager := rfl

/-- `vmo::resident_frame`. -/
def residentFrame (v : Vmo) (page : Word) : Option Word :=
  if v.pages ≤ page then none
  else
    match v.chunks.getD (page.toNat / chunkEntries) none with
    | none => none
    | some chunk =>
      let entry := chunk (page.toNat % chunkEntries)
      if entry = 0 then none else some entry

/-- `vmo::chunk_for(page, true)`: the chunk of `page`, allocated from `frame` on first touch;
`none` past the vector or when the allocator is exhausted. -/
def chunkFor (v : Vmo) (frame : Option Word) (page : Word) : Option (Vmo × (Nat → Word)) :=
  let index := page.toNat / chunkEntries
  if v.chunks.length ≤ index then none
  else
    match v.chunks.getD index none with
    | some chunk => some (v, chunk)
    | none =>
      match frame with
      | none => none
      | some _ => some ({ v with chunks := v.chunks.set index (some fun _ => 0) }, fun _ => 0)

/-- `vmo::fill_page`: a resident page stays; otherwise the pager's frame is recorded. A failed
fill keeps a chunk it allocated. -/
def fillPage (v : Vmo) (chunkFrame fillFrame : Option Word) (page : Word) : Vmo × Except Errc Unit :=
  match v.chunkFor chunkFrame page with
  | none => (v, .error .oom)
  | some (v, chunk) =>
    let i := page.toNat % chunkEntries
    if chunk i ≠ 0 then (v, .ok ())
    else
      match v.pager.fill fillFrame page with
      | .error e => (v, .error e)
      | .ok frame =>
        ({ v with
            chunks := v.chunks.set (page.toNat / chunkEntries) (some (Function.update chunk i frame))
            resident := v.resident + 1
            fills := v.fills + 1 }, .ok ())

/-- `vmo::get_or_fill_page`: fill, then read the frame back; `maybe::value` panics when the
pager produced frame 0, which the index cannot tell from absent. -/
def getOrFillPage (v : Vmo) (chunkFrame fillFrame : Option Word) (page : Word) :
    Except String (Vmo × Except Errc Word) :=
  if v.pages ≤ page then .ok (v, .error .outOfRange)
  else
    match v.fillPage chunkFrame fillFrame page with
    | (v', .error e) => .ok (v', .error e)
    | (v', .ok ()) =>
      match v'.residentFrame page with
      | none => .error "maybe::value on empty maybe"
      | some frame => .ok (v', .ok frame)

/-- The loop of `vmo::commit` from `page`, for `count` pages; each fill takes the frames
it is given, and the first failure stops the loop. -/
def commitFrom (v : Vmo) : Nat → Word → List (Option Word × Option Word) → Vmo × Except Errc Unit
  | 0, _, _ => (v, .ok ())
  | count + 1, page, frames =>
    let (chunkFrame, fillFrame) := frames.headD (none, none)
    match v.fillPage chunkFrame fillFrame page with
    | (v', .error e) => (v', .error e)
    | (v', .ok ()) => commitFrom v' count (page + 1) frames.tail

/-- `vmo::commit`: eager population of `[page, page + count)`. -/
def commit (v : Vmo) (page count : Word) (frames : List (Option Word × Option Word)) :
    Vmo × Except Errc Unit :=
  if page + count < page || v.pages < page + count then (v, .error .outOfRange)
  else v.commitFrom count.toNat page frames

/-- `vmo::add_mapping`: `push_back` of the back-ref, which may fail. -/
def addMapping (v : Vmo) (ok : Bool) (aspace binding : Nat) : Vmo × Bool :=
  if ok then ({ v with mappings := v.mappings ++ [⟨aspace, binding⟩] }, true) else (v, false)

/-- `vmo::remove_mapping`: swap-remove the first back-ref to the binding. -/
def removeMapping (v : Vmo) (binding : Nat) : Vmo :=
  match v.mappings.findIdx? (fun m => m.binding == binding) with
  | none => v
  | some i => { v with mappings := swapRemove v.mappings i }

/-! ## What the operations keep and change -/

@[simp] theorem removeMapping_pages (v : Vmo) (b : Nat) : (v.removeMapping b).pages = v.pages := by
  unfold removeMapping; split <;> rfl

@[simp] theorem removeMapping_pager (v : Vmo) (b : Nat) : (v.removeMapping b).pager = v.pager := by
  unfold removeMapping; split <;> rfl

@[simp] theorem removeMapping_residentFrame (v : Vmo) (b : Nat) (page : Word) :
    (v.removeMapping b).residentFrame page = v.residentFrame page := by
  unfold removeMapping; split <;> rfl

/-- Removing a back-ref changes only the back-refs. -/
theorem removeMapping_eq (v : Vmo) (b : Nat) :
    v.removeMapping b = { v with mappings := (v.removeMapping b).mappings } := by
  unfold removeMapping
  split <;> rfl

/-- Removing a back-ref no entry carries changes nothing. -/
theorem removeMapping_of_not_mem {v : Vmo} {b : Nat} (h : ∀ m ∈ v.mappings, m.binding ≠ b) :
    v.removeMapping b = v := by
  unfold removeMapping
  split
  · rfl
  · rename_i i hi
    obtain ⟨hlt, hb, -⟩ := List.findIdx?_eq_some_iff_getElem.1 hi
    exact absurd (by simpa using hb) (h _ (List.getElem_mem hlt))

theorem mem_removeMapping {v : Vmo} {b : Nat} {m : Mapping} (h : m ∈ (v.removeMapping b).mappings) :
    m ∈ v.mappings := by
  unfold removeMapping at h
  split at h
  · exact h
  · exact mem_of_mem_swapRemove h

@[simp] theorem addMapping_pages (v : Vmo) (ok : Bool) (a b : Nat) :
    (v.addMapping ok a b).1.pages = v.pages := by
  unfold addMapping; split <;> rfl

@[simp] theorem addMapping_pager (v : Vmo) (ok : Bool) (a b : Nat) :
    (v.addMapping ok a b).1.pager = v.pager := by
  unfold addMapping; split <;> rfl

@[simp] theorem addMapping_residentFrame (v : Vmo) (ok : Bool) (a b : Nat) (page : Word) :
    (v.addMapping ok a b).1.residentFrame page = v.residentFrame page := by
  unfold addMapping; split <;> rfl

/-- Recording a back-ref changes only the back-refs. -/
theorem addMapping_eq (v : Vmo) (ok : Bool) (a b : Nat) :
    (v.addMapping ok a b).1 = { v with mappings := (v.addMapping ok a b).1.mappings } := by
  unfold addMapping
  split <;> rfl

theorem mem_addMapping {v : Vmo} {ok : Bool} {a b : Nat} {m : Mapping}
    (h : m ∈ (v.addMapping ok a b).1.mappings) : m ∈ v.mappings ∨ m = ⟨a, b⟩ := by
  unfold addMapping at h
  split at h
  · simpa using h
  · exact .inl h

/-! ## Filling pages -/

section Fill

variable {v v' : Vmo} {frame c f : Option Word} {page q x : Word} {chunk : Nat → Word}

/-- A page is resident when it is in range and its chunk holds a non-zero entry for it. -/
theorem residentFrame_eq_some :
    v.residentFrame q = some x ↔
      q < v.pages ∧ ∃ ch, v.chunks.getD (q.toNat / chunkEntries) none = some ch ∧
        ch (q.toNat % chunkEntries) = x ∧ x ≠ 0 := by
  unfold residentFrame
  by_cases hp : v.pages ≤ q
  · simp [hp]
  · rw [if_neg hp]
    have hlt : q < v.pages := by simpa using hp
    cases hget : v.chunks.getD (q.toNat / chunkEntries) none with
    | none => simp
    | some ch =>
      by_cases h0 : ch (q.toNat % chunkEntries) = 0
      · simp only [h0, ↓reduceIte, reduceCtorEq, Option.some.injEq, exists_eq_left', false_iff]
        rintro ⟨-, rfl, hx⟩
        exact hx rfl
      · simp only [h0, ↓reduceIte, Option.some.injEq, exists_eq_left', hlt, true_and]
        constructor
        · rintro rfl
          exact ⟨rfl, h0⟩
        · rintro ⟨rfl, -⟩
          rfl

/-- A new VMO has no resident page: every chunk slot is null. -/
@[simp] theorem create_residentFrame (pages : Word) (pager : Pager) (pushed : Nat) (q : Word) :
    (create pages pager pushed).residentFrame q = none := by
  cases h : (create pages pager pushed).residentFrame q with
  | none => rfl
  | some x =>
    obtain ⟨-, ch, hch, -⟩ := residentFrame_eq_some.1 h
    simp only [create, List.getD_eq_getElem?_getD, List.getElem?_replicate] at hch
    split at hch <;> cases hch

/-- Only the back-refs change: residency is what it was. -/
@[simp] theorem residentFrame_withMappings (v : Vmo) (ms : List Mapping) (q : Word) :
    ({ v with mappings := ms } : Vmo).residentFrame q = v.residentFrame q := rfl

/-- `chunk_for` returns the chunk recorded at the page's index: the one already there, or a
fresh zeroed one it records. -/
theorem chunkFor_eq_some (h : v.chunkFor frame page = some (v', chunk)) :
    page.toNat / chunkEntries < v.chunks.length ∧
      (v' = v ∧ v.chunks.getD (page.toNat / chunkEntries) none = some chunk ∨
        v' = { v with chunks := v.chunks.set (page.toNat / chunkEntries) (some fun _ => 0) } ∧
          chunk = fun _ => 0) := by
  unfold chunkFor at h
  dsimp only at h
  by_cases hlen : v.chunks.length ≤ page.toNat / chunkEntries
  · rw [if_pos hlen] at h
    cases h
  rw [if_neg hlen] at h
  refine ⟨Nat.lt_of_not_le hlen, ?_⟩
  cases hget : v.chunks.getD (page.toNat / chunkEntries) none with
  | some chunk' =>
    rw [hget] at h
    cases h
    exact .inl ⟨rfl, rfl⟩
  | none =>
    rw [hget] at h
    cases frame with
    | none => cases h
    | some _ =>
      cases h
      exact .inr ⟨rfl, rfl⟩

/-- Recording a fresh zeroed chunk makes no page resident. -/
theorem residentFrame_of_chunkFor (h : v.chunkFor frame page = some (v', chunk))
    (hq : v'.residentFrame q = some x) : v.residentFrame q = some x := by
  obtain ⟨hlen, ⟨rfl, -⟩ | ⟨rfl, -⟩⟩ := chunkFor_eq_some h
  · exact hq
  · obtain ⟨hlt, ch, hch, hx, hx0⟩ := residentFrame_eq_some.1 hq
    simp only [getD_set] at hch
    split at hch
    · cases hch
      exact absurd hx.symm hx0
    · exact residentFrame_eq_some.2 ⟨hlt, ch, hch, hx, hx0⟩

/-- The fields `fill_page` never touches. -/
theorem fillPage_eq (v : Vmo) (c f : Option Word) (page : Word) :
    ∃ chunks resident fills,
      (v.fillPage c f page).1 = { v with chunks := chunks, resident := resident, fills := fills } := by
  unfold fillPage
  cases hc : v.chunkFor c page with
  | none => exact ⟨v.chunks, v.resident, v.fills, rfl⟩
  | some p =>
    obtain ⟨v₁, chunk⟩ := p
    obtain ⟨-, ⟨rfl, -⟩ | ⟨rfl, -⟩⟩ := chunkFor_eq_some hc
    all_goals
      dsimp only
      split
      · exact ⟨_, _, _, rfl⟩
      · split
        · exact ⟨_, _, _, rfl⟩
        · exact ⟨_, _, _, rfl⟩

@[simp] theorem fillPage_pages (v : Vmo) (c f : Option Word) (page : Word) :
    (v.fillPage c f page).1.pages = v.pages := by
  obtain ⟨_, _, _, h⟩ := fillPage_eq v c f page
  rw [h]

@[simp] theorem fillPage_pager (v : Vmo) (c f : Option Word) (page : Word) :
    (v.fillPage c f page).1.pager = v.pager := by
  obtain ⟨_, _, _, h⟩ := fillPage_eq v c f page
  rw [h]

@[simp] theorem fillPage_mappings (v : Vmo) (c f : Option Word) (page : Word) :
    (v.fillPage c f page).1.mappings = v.mappings := by
  obtain ⟨_, _, _, h⟩ := fillPage_eq v c f page
  rw [h]

/-- A page resident after `fill_page` was resident before, or is the page filled, holding the
frame the pager handed out. -/
theorem residentFrame_fillPage (h : (v.fillPage c f page).1.residentFrame q = some x) :
    v.residentFrame q = some x ∨ q = page ∧ q < v.pages ∧ v.pager.fill f page = .ok x := by
  unfold fillPage at h
  cases hc : v.chunkFor c page with
  | none =>
    rw [hc] at h
    exact .inl h
  | some p =>
    obtain ⟨v₁, chunk⟩ := p
    rw [hc] at h
    dsimp only at h
    have hv₁ := residentFrame_of_chunkFor hc (q := q) (x := x)
    split at h
    · exact .inl (hv₁ h)
    split at h
    · exact .inl (hv₁ h)
    rename_i frame' hfill
    obtain ⟨hlen, hcase⟩ := chunkFor_eq_some hc
    have hpager : v₁.pager = v.pager := by rcases hcase with ⟨rfl, -⟩ | ⟨rfl, -⟩ <;> rfl
    have hpages : v₁.pages = v.pages := by rcases hcase with ⟨rfl, -⟩ | ⟨rfl, -⟩ <;> rfl
    obtain ⟨hlt, ch, hch, hx, hx0⟩ := residentFrame_eq_some.1 h
    simp only [getD_set] at hch
    split at hch
    · -- the chunk of the page filled: the entry filled, or another of the chunk's
      rename_i hidx
      cases hch
      by_cases hi : q.toNat % chunkEntries = page.toNat % chunkEntries
      · have hqp : q = page := by
          apply BitVec.eq_of_toNat_eq
          rw [← Nat.div_add_mod q.toNat chunkEntries, ← Nat.div_add_mod page.toNat chunkEntries,
            ← hidx.1, hi]
        subst hqp
        simp only [Function.update_self] at hx
        subst hx
        exact .inr ⟨rfl, hpages ▸ hlt, hpager ▸ hfill⟩
      · simp only [Function.update_of_ne hi] at hx
        rcases hcase with ⟨rfl, hchunk⟩ | ⟨rfl, rfl⟩
        · exact .inl (residentFrame_eq_some.2 ⟨hlt, chunk, hidx.1 ▸ hchunk, hx, hx0⟩)
        · exact absurd hx.symm hx0
    · exact .inl (hv₁ (residentFrame_eq_some.2 ⟨hlt, ch, hch, hx, hx0⟩))

/-- `get_or_fill_page` leaves the VMO as it was or as `fill_page` left it. -/
theorem getOrFillPage_fst {r : Except Errc Word} (h : v.getOrFillPage c f page = .ok (v', r)) :
    v' = v ∨ v' = (v.fillPage c f page).1 := by
  unfold getOrFillPage at h
  split at h
  · cases h
    exact .inl rfl
  split at h
  · rename_i v₁ e hv
    cases h
    exact .inr (by rw [hv])
  · rename_i v₁ hv
    split at h
    · cases h
    · cases h
      exact .inr (by rw [hv])

/-- The frame `get_or_fill_page` returns is the page's resident frame afterwards. -/
theorem getOrFillPage_frame (h : v.getOrFillPage c f page = .ok (v', .ok x)) :
    v'.residentFrame page = some x := by
  unfold getOrFillPage at h
  split at h
  · cases h
  split at h
  · cases h
  · split at h
    · cases h
    · rename_i hres
      cases h
      exact hres

/-- The commit loop is a sequence of `fill_page`s. -/
theorem commitFrom_fields (v : Vmo) :
    ∀ (count : Nat) (page : Word) (frames : List (Option Word × Option Word)),
      (v.commitFrom count page frames).1.pages = v.pages ∧
        (v.commitFrom count page frames).1.pager = v.pager ∧
        (v.commitFrom count page frames).1.mappings = v.mappings
  | 0, _, _ => ⟨rfl, rfl, rfl⟩
  | count + 1, page, frames => by
    unfold commitFrom
    dsimp only
    split
    · rename_i v₁ e hv
      rw [← congrArg Prod.fst hv]
      simp
    · rename_i v₁ hv
      obtain ⟨h₁, h₂, h₃⟩ := commitFrom_fields v₁ count (page + 1) frames.tail
      have hv₁ : v₁ = (v.fillPage _ _ page).1 := (congrArg Prod.fst hv).symm
      subst hv₁
      simp only [fillPage_pages, fillPage_pager, fillPage_mappings] at h₁ h₂ h₃
      exact ⟨h₁, h₂, h₃⟩

theorem commit_fields (v : Vmo) (page count : Word) (frames : List (Option Word × Option Word)) :
    (v.commit page count frames).1.pages = v.pages ∧ (v.commit page count frames).1.pager = v.pager ∧
      (v.commit page count frames).1.mappings = v.mappings := by
  unfold commit
  split
  · exact ⟨rfl, rfl, rfl⟩
  · exact commitFrom_fields v _ _ _

/-- A page resident after the commit loop was resident before, or was filled with a frame the
pager handed out for it, from one of the frames given. -/
theorem residentFrame_commitFrom :
    ∀ (v : Vmo) (count : Nat) (page : Word) (frames : List (Option Word × Option Word)),
      (v.commitFrom count page frames).1.residentFrame q = some x →
        v.residentFrame q = some x ∨
          q < v.pages ∧ ∃ fr, (fr = (none, none) ∨ fr ∈ frames) ∧ v.pager.fill fr.2 q = .ok x
  | v, 0, _, _, h => .inl h
  | v, count + 1, page, frames, h => by
    unfold commitFrom at h
    dsimp only at h
    have hhead : frames.headD (none, none) = (none, none) ∨ frames.headD (none, none) ∈ frames := by
      cases frames with
      | nil => exact .inl rfl
      | cons fr frs => exact .inr List.mem_cons_self
    -- one fill, then the rest of the loop on the VMO it left
    have hstep : ∀ {v₁ : Vmo}, v₁ = (v.fillPage (frames.headD (none, none)).1
        (frames.headD (none, none)).2 page).1 → v₁.residentFrame q = some x →
        v.residentFrame q = some x ∨
          q < v.pages ∧ ∃ fr, (fr = (none, none) ∨ fr ∈ frames) ∧ v.pager.fill fr.2 q = .ok x := by
      intro v₁ hv₁ h₁
      subst hv₁
      rcases residentFrame_fillPage h₁ with h₁ | ⟨rfl, hlt, hfill⟩
      · exact .inl h₁
      · exact .inr ⟨hlt, _, hhead, hfill⟩
    split at h
    · rename_i v₁ e hv
      exact hstep (congrArg Prod.fst hv).symm h
    · rename_i v₁ hv
      have hv₁ := (congrArg Prod.fst hv).symm
      rcases residentFrame_commitFrom v₁ count (page + 1) frames.tail h with h' | ⟨hlt, fr, hfr, hfill⟩
      · exact hstep hv₁ h'
      · subst hv₁
        simp only [fillPage_pages, fillPage_pager] at hlt hfill
        refine .inr ⟨hlt, fr, ?_, hfill⟩
        rcases hfr with hfr | hfr
        · exact .inl hfr
        · exact .inr (List.mem_of_mem_tail hfr)

theorem residentFrame_commit {v : Vmo} {page count : Word} {frames : List (Option Word × Option Word)}
    (h : (v.commit page count frames).1.residentFrame q = some x) :
    v.residentFrame q = some x ∨
      q < v.pages ∧ ∃ fr, (fr = (none, none) ∨ fr ∈ frames) ∧ v.pager.fill fr.2 q = .ok x := by
  unfold commit at h
  split at h
  · exact .inl h
  · exact residentFrame_commitFrom v _ _ _ h

end Fill

end Vmo

end Archipelago.Mm
