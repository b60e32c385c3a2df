import Archipelago.Mm.Aspace

/-! The demand-fault handler (`mm/fault.cpp`). A fault on the active address space is
resolved against the binding `find_binding` returns, and only when the access fits the
binding's protection and the page it touches is inside the VMO. There are three ways to
resolve it: a read of an unpopulated page of a frame-owning VMO shares the global zero page
without WRITE; a write through a present translation (the copy-on-write case) replaces the
zero page by a frame the pager fills; anything else installs the frame the VMO holds for the
page, filling it first.

What the handler's allocations meet is its environment (`FaultEnv`): the frame `chunk_for`
and `anonymous_pager::fill` would get from the PMM, and whether `map_page` finds room for its
intermediate tables. `assert` and `maybe::value` on an absent frame panic; the model returns
the message (`Except String`). -/

namespace Archipelago.Mm

open Archipelago.Lib Archipelago.Obj

/-- `vm_fault`: the faulting address, whether the access was a write, whether a translation
existed, and whether it came from user mode. -/
structure VmFault where
  vaddr : Word
  write : Bool
  present : Bool
  user : Bool
  deriving DecidableEq, Repr

/-- The PMM frames the handler's allocations would get, and whether `map_page` finds room. -/
structure FaultEnv where
  chunkFrame : Option Word
  fillFrame : Option Word
  mapOk : Bool
  deriving DecidableEq, Repr

/-- The protection an access needs: READ, WRITE for a write, USER from user mode. -/
def VmFault.needed (fault : VmFault) : VmProt :=
  vm_prot.READ ||| (if fault.write then vm_prot.WRITE else 0) ||| (if fault.user then vm_prot.USER else 0)

/-- The VMO page an address of the binding falls in: `(vaddr - base + vmo_offset) / PAGE_SIZE`. -/
def Binding.pageOf (b : Binding) (vaddr : Word) : Word := (vaddr - b.base + b.vmoOffset) / pageSize

/-- `page_vaddr`: the address rounded down to its page. -/
def pageBase (vaddr : Word) : Word := vaddr &&& ~~~(pageSize - 1)

theorem pageBase_toNat (v : Word) : (pageBase v).toNat = v.toNat - v.toNat % 4096 := by
  have := toNat_and_not_add_toNat_and v (pageSize - 1)
  rw [toNat_and_pageMask] at this
  unfold pageBase
  omega

/-- A binding starting on a page boundary contains the page of every address it contains. -/
theorem Binding.Contains.pageBase {b : Binding} {v : Word} (hb : pageAligned b.base = true)
    (h : b.Contains v) : b.Contains (pageBase v) := by
  have hal := (pageAligned_iff _).1 hb
  have := pageBase_toNat v
  have := Nat.mod_le v.toNat 4096
  unfold Binding.Contains at h ⊢
  constructor
  · -- the base is a multiple of the page size at or below the address
    have hdiv : b.base.toNat ≤ v.toNat / 4096 * 4096 := by
      have := Nat.div_mul_le_self v.toNat 4096
      have h4 : b.base.toNat / 4096 ≤ v.toNat / 4096 := Nat.div_le_div_right h.1
      have := Nat.div_add_mod b.base.toNat 4096
      omega
    have := Nat.div_add_mod v.toNat 4096
    omega
  · omega

/-- `vm_aspace::count_fault`. -/
def Aspace.countFault (a : Aspace) : Aspace := { a with faults := a.faults + 1 }

namespace Vmm

/-- The tail of both frame-installing paths: `get_or_fill_page`, then `map_page` of its frame
with the binding's protection into `pt` (the space's translations, with the page's old one
already cleared on the copy-on-write path). A failed fill returns false. -/
def mapFilled (w : Vmm) (i : Nat) (a : Aspace) (pt : PageMap) (b : Binding) (id : Nat)
    (page pageVaddr : Word) (env : FaultEnv) : Except String (Vmm × Bool) :=
  match (w.vmo id).getOrFillPage env.chunkFrame env.fillFrame page with
  | .error msg => .error msg
  | .ok (v, .error _) => .ok (w.setVmo id v, false)
  | .ok (v, .ok frame) =>
    let (pt', ok) := pt.mapPage env.mapOk pageVaddr frame b.prot b.cache
    .ok ((w.setVmo id v).setAspace i { a with pages := pt' }, ok)

/-- `resolve_cow`: the present translation must be the zero page (the only frame shared until
VMO clone exists); it is replaced by the frame the pager fills, mapped writable. -/
def resolveCow (w : Vmm) (i : Nat) (a : Aspace) (b : Binding) (id : Nat) (page pageVaddr : Word)
    (env : FaultEnv) : Except String (Vmm × Bool) :=
  match a.pages.walk pageVaddr with
  | none => .ok (w, false)
  | some old =>
    if old &&& ~~~(pageSize - 1) ≠ w.zeroPage then
      .error "CoW write on a non-zero-page frame before VMO clone exists"
    else w.mapFilled i a (a.pages.unmapPage pageVaddr).1 b id page pageVaddr env

/-- `vmm_handle_fault` on the space active on this CPU (`none` before `vmm_init`). -/
def vmmHandleFault (w : Vmm) (active : Option Nat) (fault : VmFault) (env : FaultEnv) :
    Except String (Vmm × Bool) :=
  match active with
  | none => .ok (w, false)
  | some i =>
    match w.aspaces[i]? with
    | none => .ok (w, false)
    | some a =>
      let a := a.countFault
      let w := w.setAspace i a
      match a.root.findBinding fault.vaddr with
      | none => .ok (w, false)
      | some b =>
        match b.vmo with
        | none => .ok (w, false)
        | some id =>
          if fault.needed &&& ~~~b.prot ≠ 0 then .ok (w, false)
          else
            let obj := w.vmo id
            let page := b.pageOf fault.vaddr
            let pageVaddr := pageBase fault.vaddr
            if obj.pages ≤ page then .ok (w, false)
            else if fault.present then
              if !fault.write then .ok (w, false)
              else w.resolveCow i a b id page pageVaddr env
            else if !fault.write && (obj.residentFrame page).isNone && obj.pager.ownsFrames then
              let (pt, ok) :=
                a.pages.mapPage env.mapOk pageVaddr w.zeroPage (b.prot &&& ~~~vm_prot.WRITE) b.cache
              .ok (w.setAspace i { a with pages := pt }, ok)
            else w.mapFilled i a a.pages b id page pageVaddr env

@[simp] theorem countFault_root (a : Aspace) : a.countFault.root = a.root := rfl
@[simp] theorem countFault_pages (a : Aspace) : a.countFault.pages = a.pages := rfl

theorem setAspace_setAspace (w : Vmm) (i : Nat) (a a' : Aspace) :
    (w.setAspace i a).setAspace i a' = w.setAspace i a' := by
  simp [setAspace]

/-! ## The exits of the handler -/

variable {w w' : Vmm} {i id : Nat} {a : Aspace} {pt : PageMap} {b : Binding} {page pv : Word}
  {env : FaultEnv} {ok : Bool}

/-- The fill-and-map tail either stops at the fill, keeping what the fill did to the VMO, or
maps the frame the fill produced. -/
theorem mapFilled_eq_ok (h : w.mapFilled i a pt b id page pv env = .ok (w', ok)) :
    ∃ v r, (w.vmo id).getOrFillPage env.chunkFrame env.fillFrame page = .ok (v, r) ∧
      (w' = w.setVmo id v ∧ ok = false ∨
        ∃ frame pt', r = .ok frame ∧ pt.mapPage env.mapOk pv frame b.prot b.cache = (pt', ok) ∧
          w' = (w.setVmo id v).setAspace i { a with pages := pt' }) := by
  unfold mapFilled at h
  split at h
  · cases h
  · rename_i v e hfill
    cases h
    exact ⟨v, _, hfill, .inl ⟨rfl, rfl⟩⟩
  · rename_i v frame hfill
    generalize hm : pt.mapPage env.mapOk pv frame b.prot b.cache = m at h
    obtain ⟨pt', ok'⟩ := m
    cases h
    exact ⟨v, _, hfill, .inr ⟨frame, pt', rfl, hm, rfl⟩⟩

/-- `resolve_cow` stops when nothing is mapped, panics on a frame other than the zero page,
and otherwise fills and maps over the cleared translation. -/
theorem resolveCow_eq_ok (h : w.resolveCow i a b id page pv env = .ok (w', ok)) :
    w' = w ∧ ok = false ∨ w.mapFilled i a (a.pages.unmapPage pv).1 b id page pv env = .ok (w', ok) := by
  unfold resolveCow at h
  split at h
  · cases h
    exact .inl ⟨rfl, rfl⟩
  · split at h
    · cases h
    · exact .inr h

/-- The exits of `vmm_handle_fault`: no active space; the fault counted and nothing else;
or, on the binding covering the address with an access it allows and a page inside its VMO,
one of the three resolution paths. -/
theorem vmmHandleFault_cases {active : Option Nat} {fault : VmFault}
    (h : w.vmmHandleFault active fault env = .ok (w', ok)) :
    (w' = w ∧ ok = false) ∨
      ∃ i a, active = some i ∧ w.aspaces[i]? = some a ∧
        ((w' = w.setAspace i a.countFault ∧ ok = false) ∨
          ∃ b id, a.root.findBinding fault.vaddr = some b ∧ b.vmo = some id ∧
            Submask fault.needed b.prot ∧ b.pageOf fault.vaddr < (w.vmo id).pages ∧
            ((fault.present = true ∧
                (w.setAspace i a.countFault).resolveCow i a.countFault b id (b.pageOf fault.vaddr)
                  (pageBase fault.vaddr) env = .ok (w', ok)) ∨
              (fault.present = false ∧ fault.write = false ∧
                (w.vmo id).residentFrame (b.pageOf fault.vaddr) = none ∧
                (w.vmo id).pager.ownsFrames = true ∧
                ∃ pt, a.pages.mapPage env.mapOk (pageBase fault.vaddr) w.zeroPage
                    (b.prot &&& ~~~vm_prot.WRITE) b.cache = (pt, ok) ∧
                  w' = w.setAspace i { a.countFault with pages := pt }) ∨
              (fault.present = false ∧
                (w.setAspace i a.countFault).mapFilled i a.countFault a.pages b id
                  (b.pageOf fault.vaddr) (pageBase fault.vaddr) env = .ok (w', ok)))) := by
  unfold vmmHandleFault at h
  split at h
  · cases h
    exact .inl ⟨rfl, rfl⟩
  rename_i i
  split at h
  · cases h
    exact .inl ⟨rfl, rfl⟩
  rename_i a ha
  -- from here on the fault is counted; every early exit returns false
  refine .inr ⟨i, a, rfl, ha, ?_⟩
  dsimp only at h
  split at h
  · cases h
    exact .inl ⟨rfl, rfl⟩
  rename_i b hb
  split at h
  · cases h
    exact .inl ⟨rfl, rfl⟩
  rename_i id hid
  split at h
  · cases h
    exact .inl ⟨rfl, rfl⟩
  rename_i hneed
  have hsub : Submask fault.needed b.prot := not_not.1 hneed
  simp only [vmo_setAspace, zeroPage_setAspace, countFault_pages, countFault_root,
    setAspace_setAspace] at h hb
  by_cases hpage : (w.vmo id).pages ≤ b.pageOf fault.vaddr
  · rw [if_pos hpage] at h
    cases h
    exact .inl ⟨rfl, rfl⟩
  rw [if_neg hpage] at h
  have hlt : b.pageOf fault.vaddr < (w.vmo id).pages := by simpa using hpage
  cases hpresent : fault.present with
  | true =>
    rw [if_pos hpresent] at h
    by_cases hread : fault.write = false
    · rw [if_pos (by simpa using hread)] at h
      cases h
      exact .inl ⟨rfl, rfl⟩
    · rw [if_neg (by simpa using hread)] at h
      exact .inr ⟨b, id, hb, hid, hsub, hlt, .inl ⟨rfl, h⟩⟩
  | false =>
    rw [if_neg (by simp [hpresent])] at h
    refine .inr ⟨b, id, hb, hid, hsub, hlt, .inr ?_⟩
    by_cases hzero : (!fault.write && ((w.vmo id).residentFrame (b.pageOf fault.vaddr)).isNone &&
        (w.vmo id).pager.ownsFrames) = true
    · rw [if_pos hzero] at h
      simp only [Bool.and_eq_true, Bool.not_eq_true', Option.isNone_iff_eq_none] at hzero
      cases h
      exact .inl ⟨rfl, hzero.1.1, hzero.1.2, hzero.2, _, rfl, rfl⟩
    · rw [if_neg hzero] at h
      exact .inr ⟨rfl, h⟩

/-- A VMO page in range is a page of a VMO in the table. -/
theorem lt_length_of_lt_pages {p : Word} (h : p < (w.vmo id).pages) : id < w.vmos.length := by
  by_contra hlen
  rw [vmo_of_length_le (Nat.le_of_not_lt hlen), Vmo.default_pages] at h
  exact absurd h (by simp)

/-! ## What a fault does -/

/-- What a fault may do to the VMM: the active space keeps its tree, and its only new
translation is at the faulting page of the binding covering the address, an aligned page
now holding the zero page without WRITE or the frame the binding's VMO holds for the page;
the only VMO that changes is that one, by a fill. -/
structure FaultStep (w w' : Vmm) (fault : VmFault) (env : FaultEnv) : Prop where
  arch : w'.arch = w.arch
  nextSlot : w'.nextSlot = w.nextSlot
  zeroPage : w'.zeroPage = w.zeroPage
  aspaces : ∀ (j : Nat) (a' : Aspace), w'.aspaces[j]? = some a' → ∃ a, w.aspaces[j]? = some a ∧
    a'.root = a.root ∧ ∀ v t, a'.pages v = some t → a.pages v = some t ∨
      ∃ b id, a.root.findBinding fault.vaddr = some b ∧ b.vmo = some id ∧
        v = pageBase fault.vaddr ∧ pageAligned v = true ∧
        (t.paddr = w.zeroPage ∧ t.prot &&& vm_prot.WRITE = 0 ∨
          (w'.vmo id).residentFrame (b.pageOf fault.vaddr) = some t.paddr)
  vmos : ∀ id', w'.vmo id' = w.vmo id' ∨
    ∃ page, w'.vmo id' = ((w.vmo id').fillPage env.chunkFrame env.fillFrame page).1

section Effect

variable {fault : VmFault}

theorem FaultStep.refl (w : Vmm) (fault : VmFault) (env : FaultEnv) : FaultStep w w fault env :=
  ⟨rfl, rfl, rfl, fun _ a' ha' => ⟨a', ha', rfl, fun _ _ h => .inl h⟩, fun _ => .inl rfl⟩

/-- Replacing the active space by one with the same tree whose translations are the old ones
or allowed new ones, and changing at most one VMO by a fill. -/
theorem FaultStep.of_setAspace (vmos : List Vmo) (ha : w.aspaces[i]? = some a) {a' : Aspace}
    (hroot : a'.root = a.root)
    (hpages : ∀ v t, a'.pages v = some t → a.pages v = some t ∨
      ∃ b id, a.root.findBinding fault.vaddr = some b ∧ b.vmo = some id ∧
        v = pageBase fault.vaddr ∧ pageAligned v = true ∧
        (t.paddr = w.zeroPage ∧ t.prot &&& vm_prot.WRITE = 0 ∨
          (({ w with vmos := vmos } : Vmm).vmo id).residentFrame (b.pageOf fault.vaddr) = some t.paddr))
    (hvmos : ∀ id', ({ w with vmos := vmos } : Vmm).vmo id' = w.vmo id' ∨
      ∃ page, ({ w with vmos := vmos } : Vmm).vmo id' =
        ((w.vmo id').fillPage env.chunkFrame env.fillFrame page).1) :
    FaultStep w ({ w with vmos := vmos }.setAspace i a') fault env where
  arch := rfl
  nextSlot := rfl
  zeroPage := rfl
  aspaces j a'' ha'' := by
    have hget : ({ w with vmos := vmos } : Vmm).aspaces[i]? = some a := ha
    rw [getElem?_setAspace hget] at ha''
    split at ha''
    · subst_vars
      cases ha''
      exact ⟨a, ha, hroot, hpages⟩
    · exact ⟨a'', ha'', rfl, fun _ _ h => .inl h⟩
  vmos := hvmos

/-- The fill-and-map tail over translations `pt` that hold no more than the space's. -/
theorem FaultStep.mapFilled (ha : w.aspaces[i]? = some a) {b : Binding}
    (hb : a.root.findBinding fault.vaddr = some b) (hid : b.vmo = some id)
    (hlt : b.pageOf fault.vaddr < (w.vmo id).pages) {pt : PageMap}
    (hpt : ∀ v t, pt v = some t → a.pages v = some t)
    (h : (w.setAspace i a.countFault).mapFilled i a.countFault pt b id (b.pageOf fault.vaddr)
      (pageBase fault.vaddr) env = .ok (w', ok)) : FaultStep w w' fault env := by
  obtain ⟨v, r, hfill, hout⟩ := mapFilled_eq_ok h
  simp only [vmo_setAspace] at hfill
  have hidlt := lt_length_of_lt_pages hlt
  -- the VMO of the binding changes by the fill, and no other
  have hvmos : ∀ id', ((w.setAspace i a.countFault).setVmo id v).vmo id' = w.vmo id' ∨
      ∃ page, ((w.setAspace i a.countFault).setVmo id v).vmo id' =
        ((w.vmo id').fillPage env.chunkFrame env.fillFrame page).1 := by
    intro id'
    rw [vmo_setVmo]
    split
    · rename_i hh
      obtain ⟨rfl, -⟩ := hh
      rcases Vmo.getOrFillPage_fst hfill with rfl | rfl
      · exact .inl rfl
      · exact .inr ⟨_, rfl⟩
    · exact .inl rfl
  have hself : ((w.setAspace i a.countFault).setVmo id v).vmo id = v := by
    rw [vmo_setVmo, if_pos ⟨rfl, hidlt⟩]
  rcases hout with ⟨rfl, -⟩ | ⟨frame, pt', rfl, hm, rfl⟩
  · -- the fill failed: only the count and the fill stay
    have hw' : (w.setAspace i a.countFault).setVmo id v =
        ({ w with vmos := w.vmos.set id v } : Vmm).setAspace i a.countFault := rfl
    rw [hw']
    exact FaultStep.of_setAspace _ ha rfl (fun v t h => .inl h) hvmos
  · have hw' : ((w.setAspace i a.countFault).setVmo id v).setAspace i { a.countFault with pages := pt' } =
        ({ w with vmos := w.vmos.set id v } : Vmm).setAspace i { a.countFault with pages := pt' } := by
      simp [setVmo, setAspace]
    rw [hw']
    refine FaultStep.of_setAspace (w.vmos.set id v) ha rfl (fun v' t ht => ?_) hvmos
    have ht' : (pt.mapPage env.mapOk (pageBase fault.vaddr) frame b.prot b.cache).1 v' = some t := by
      rw [hm]
      exact ht
    rcases PageMap.mapPage_fst_apply_some ht' with ht' | ⟨rfl, rfl, hcan⟩
    · exact .inl (hpt v' t ht')
    · refine .inr ⟨b, id, hb, hid, rfl, hcan.1, .inr ?_⟩
      change (((w.setAspace i a.countFault).setVmo id v).vmo id).residentFrame _ = _
      rw [hself]
      exact Vmo.getOrFillPage_frame hfill

/-- Everything a fault can do (`FaultStep`). -/
theorem vmmHandleFault_effect {active : Option Nat}
    (h : w.vmmHandleFault active fault env = .ok (w', ok)) : FaultStep w w' fault env := by
  rcases vmmHandleFault_cases h with ⟨rfl, -⟩ | ⟨i, a, -, ha, hcase⟩
  · exact FaultStep.refl _ fault env
  rcases hcase with ⟨rfl, -⟩ | ⟨b, id, hb, hid, -, hlt, hpath⟩
  · exact FaultStep.of_setAspace w.vmos ha rfl (fun v t h => .inl h) (fun _ => .inl rfl)
  rcases hpath with ⟨-, hcow⟩ | ⟨-, -, -, -, pt, hm, rfl⟩ | ⟨-, hdirect⟩
  · rcases resolveCow_eq_ok hcow with ⟨rfl, -⟩ | hfill
    · exact FaultStep.of_setAspace w.vmos ha rfl (fun v t h => .inl h) (fun _ => .inl rfl)
    · exact FaultStep.mapFilled ha hb hid hlt (fun v t h => PageMap.unmapPage_fst_some h) hfill
  · -- the zero page, without WRITE
    refine FaultStep.of_setAspace w.vmos ha rfl (fun v t ht => ?_) (fun _ => .inl rfl)
    have ht' : (a.pages.mapPage env.mapOk (pageBase fault.vaddr) w.zeroPage
        (b.prot &&& ~~~vm_prot.WRITE) b.cache).1 v = some t := by
      rw [hm]
      exact ht
    rcases PageMap.mapPage_fst_apply_some ht' with ht' | ⟨rfl, rfl, hcan⟩
    · exact .inl ht'
    · exact .inr ⟨b, id, hb, hid, rfl, hcan.1, .inl ⟨rfl, and_not_and_self _ _⟩⟩
  · exact FaultStep.mapFilled ha hb hid hlt (fun v t h => h) hdirect

/-! ## What the handler guarantees -/

/-- The handler counts the fault and does nothing else when no binding covers the address,
the binding has no VMO, the access needs a protection the binding lacks, or the page is
past the end of the VMO. -/
theorem vmmHandleFault_of_refused (ha : w.aspaces[i]? = some a)
    (h : a.root.findBinding fault.vaddr = none ∨
      ∃ b, a.root.findBinding fault.vaddr = some b ∧
        (b.vmo = none ∨ ¬ Submask fault.needed b.prot ∨
          ∃ id, b.vmo = some id ∧ (w.vmo id).pages ≤ b.pageOf fault.vaddr)) :
    w.vmmHandleFault (some i) fault env = .ok (w.setAspace i a.countFault, false) := by
  unfold vmmHandleFault
  simp only [ha, countFault_root]
  rcases h with hb | ⟨b, hb, hvmo | hneed | ⟨id, hid, hpage⟩⟩
  · rw [hb]
  · rw [hb]
    dsimp only
    rw [hvmo]
  · rw [hb]
    dsimp only
    -- with or without a VMO the access is refused
    cases b.vmo with
    | none => rfl
    | some id =>
      dsimp only
      rw [if_pos (show fault.needed &&& ~~~b.prot ≠ 0 from hneed)]
  · rw [hb]
    dsimp only
    rw [hid]
    dsimp only
    by_cases hneed : fault.needed &&& ~~~b.prot ≠ 0
    · rw [if_pos hneed]
    · rw [if_neg hneed, vmo_setAspace, if_pos hpage]

/-- Frame-installing tail that reports success: the page holds the filled frame with the
binding's protection, and no other translation changed. -/
theorem mapFilled_installs (ha : w.aspaces[i]? = some a) {b : Binding}
    (hlt : b.pageOf fault.vaddr < (w.vmo id).pages) {pt : PageMap}
    (hpt : ∀ v, v ≠ pageBase fault.vaddr → pt v = a.pages v)
    (h : (w.setAspace i a.countFault).mapFilled i a.countFault pt b id (b.pageOf fault.vaddr)
      (pageBase fault.vaddr) env = .ok (w', true)) :
    ∃ a' t, w'.aspaces[i]? = some a' ∧ a'.root = a.root ∧ a'.pages (pageBase fault.vaddr) = some t ∧
      t.prot = b.prot ∧ (w'.vmo id).residentFrame (b.pageOf fault.vaddr) = some t.paddr ∧
      ∀ v, v ≠ pageBase fault.vaddr → a'.pages v = a.pages v := by
  obtain ⟨v, r, hfill, hout⟩ := mapFilled_eq_ok h
  simp only [vmo_setAspace] at hfill
  rcases hout with ⟨-, hf⟩ | ⟨frame, pt', rfl, hm, rfl⟩
  · cases hf
  have hcan := PageMap.canMap_of_snd_true (by rw [hm] : (pt.mapPage env.mapOk (pageBase fault.vaddr)
    frame b.prot b.cache).2 = true)
  have hpt' : pt' = Function.update pt (pageBase fault.vaddr) (some ⟨frame, b.prot, b.cache⟩) := by
    rw [PageMap.mapPage_of_canMap hcan] at hm
    exact (congrArg Prod.fst hm).symm
  have hget : ((w.setAspace i a.countFault).setVmo id v).aspaces[i]? = some a.countFault := by
    simp only [aspaces_setVmo]
    rw [getElem?_setAspace ha, if_pos rfl]
  refine ⟨{ a.countFault with pages := pt' }, ⟨frame, b.prot, b.cache⟩, ?_, rfl, ?_, rfl, ?_, ?_⟩
  · rw [getElem?_setAspace hget, if_pos rfl]
  · simp [hpt']
  · change (((w.setAspace i a.countFault).setVmo id v).vmo id).residentFrame _ = _
    rw [vmo_setVmo, if_pos ⟨rfl, lt_length_of_lt_pages hlt⟩]
    exact Vmo.getOrFillPage_frame hfill
  · intro v' hv'
    simp only [hpt', Function.update_of_ne hv']
    exact hpt v' hv'

/-- When the handler reports success it has installed, at the faulting page and nowhere
else, a translation within the protection of the binding covering the address: the zero
page without WRITE, or the frame the binding's VMO now holds for the page. -/
theorem vmmHandleFault_installs (ha : w.aspaces[i]? = some a)
    (h : w.vmmHandleFault (some i) fault env = .ok (w', true)) :
    ∃ b id, a.root.findBinding fault.vaddr = some b ∧ b.vmo = some id ∧
      ∃ a' t, w'.aspaces[i]? = some a' ∧ a'.root = a.root ∧ a'.pages (pageBase fault.vaddr) = some t ∧
      Submask t.prot b.prot ∧
      (t.paddr = w.zeroPage ∧ t.prot &&& vm_prot.WRITE = 0 ∨
        (w'.vmo id).residentFrame (b.pageOf fault.vaddr) = some t.paddr) ∧
      ∀ v, v ≠ pageBase fault.vaddr → a'.pages v = a.pages v := by
  rcases vmmHandleFault_cases h with ⟨-, hf⟩ | ⟨i', a₀, hi, ha₀, hcase⟩
  · cases hf
  cases hi
  rw [ha] at ha₀
  cases ha₀
  rcases hcase with ⟨-, hf⟩ | ⟨b, id, hb, hid, -, hlt, hpath⟩
  · cases hf
  -- a frame the fill produced, with exactly the binding's protection
  have framed : ∀ {pt : PageMap}, (∀ v, v ≠ pageBase fault.vaddr → pt v = a.pages v) →
      (w.setAspace i a.countFault).mapFilled i a.countFault pt b id (b.pageOf fault.vaddr)
        (pageBase fault.vaddr) env = .ok (w', true) →
      ∃ a' t, w'.aspaces[i]? = some a' ∧ a'.root = a.root ∧ a'.pages (pageBase fault.vaddr) = some t ∧
        Submask t.prot b.prot ∧
        (t.paddr = w.zeroPage ∧ t.prot &&& vm_prot.WRITE = 0 ∨
          (w'.vmo id).residentFrame (b.pageOf fault.vaddr) = some t.paddr) ∧
        ∀ v, v ≠ pageBase fault.vaddr → a'.pages v = a.pages v := fun hpt hfill => by
    obtain ⟨a', t, hget, hroot, ht, hprot, hres, hrest⟩ := mapFilled_installs ha hlt hpt hfill
    exact ⟨a', t, hget, hroot, ht, hprot ▸ Submask.refl _, .inr hres, hrest⟩
  rcases hpath with ⟨-, hcow⟩ | ⟨-, -, -, -, pt, hm, rfl⟩ | ⟨-, hdirect⟩
  · rcases resolveCow_eq_ok hcow with ⟨-, hf⟩ | hfill
    · cases hf
    · exact ⟨b, id, hb, hid, framed (fun v hv => PageMap.unmapPage_fst_of_ne hv) hfill⟩
  · -- the zero page, read-only
    have hcan := PageMap.canMap_of_snd_true (by rw [hm] : (a.pages.mapPage env.mapOk
      (pageBase fault.vaddr) w.zeroPage (b.prot &&& ~~~vm_prot.WRITE) b.cache).2 = true)
    have hpt : pt = Function.update a.pages (pageBase fault.vaddr)
        (some ⟨w.zeroPage, b.prot &&& ~~~vm_prot.WRITE, b.cache⟩) := by
      rw [PageMap.mapPage_of_canMap hcan] at hm
      exact (congrArg Prod.fst hm).symm
    refine ⟨b, id, hb, hid, { a.countFault with pages := pt },
      ⟨w.zeroPage, b.prot &&& ~~~vm_prot.WRITE, b.cache⟩, ?_, rfl, by simp [hpt], Submask.and_not_left _ _,
      .inl ⟨rfl, and_not_and_self _ _⟩, fun v hv => by simp [hpt, Function.update_of_ne hv]⟩
    rw [getElem?_setAspace ha, if_pos rfl]
  · exact ⟨b, id, hb, hid, framed (fun v _ => rfl) hdirect⟩

end Effect

end Vmm

end Archipelago.Mm
