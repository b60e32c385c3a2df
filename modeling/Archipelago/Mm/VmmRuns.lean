import Archipelago.Lib.Run
import Archipelago.Mm.Fault

/-! The VMM over whole runs: from `vmm_init`, any sequence of new address spaces, new VMOs,
commits, kernel region calls and demand faults. Every state reached keeps the VMM invariant
(`Vmm.Inv`); and, when the PMM never hands the zero page out again and no device or wired
window contains it (`VmmOp.Sane`), no address space ever maps the zero page writable
(`Vmm.ZeroSafe`): the zero-page path masks WRITE off, and the two frame paths map a frame
the VMO holds, which is never the zero page. -/

namespace Archipelago.Mm

open Archipelago.Lib Archipelago.Obj

/-- An operation of the VMM, with the allocation outcomes it meets. -/
inductive VmmOp
  | createAspace (ok : Bool)
  | createVmo (pages : Word) (pager : Pager) (pushed : Nat) (ok : Bool)
  | commit (vmo : Nat) (page count : Word) (frames : List (Option Word × Option Word))
  | region (aspace : Nat) (op : RegionOp)
  | fault (active : Option Nat) (fault : VmFault) (env : FaultEnv)

/-- What the environment guarantees about the zero page `z`: a new device or wired window
holds no page at `z`, and the PMM never hands `z` out again. -/
def VmmOp.Sane (z : Word) : VmmOp → Prop
  | .createVmo pages pager _ _ => pager.Avoids pages z
  | .commit _ _ _ frames => ∀ fr ∈ frames, fr.2 ≠ some z
  | .fault _ _ env => env.fillFrame ≠ some z
  | _ => True

namespace Vmm

/-- One operation; the outcome is whether it succeeded (for a fault, whether it was
resolved), or the panic message, after which the state is the one the panic stopped. -/
def step (w : Vmm) : VmmOp → Vmm × Except String Bool
  | .createAspace ok => let (w', r) := w.createAspace ok; (w', .ok r)
  | .createVmo pages pager pushed ok =>
    let (w', r) := w.createVmo pages pager pushed ok
    (w', .ok r.isSome)
  | .commit id page count frames =>
    let (w', r) := w.commitVmo id page count frames
    (w', .ok r.isOk)
  | .region i op => let (w', r) := w.regionCall i op; (w', .ok r.isOk)
  | .fault active fault env =>
    match w.vmmHandleFault active fault env with
    | .error msg => (w, .error msg)
    | .ok (w', handled) => (w', .ok handled)

/-- No address space maps the zero page writable. -/
def ZeroPageReadOnly (w : Vmm) : Prop :=
  ∀ (i : Nat) (a : Aspace), w.aspaces[i]? = some a → ∀ v t, a.pages v = some t →
    t.paddr = w.zeroPage → t.prot &&& vm_prot.WRITE = 0

/-- The zero page is mapped read-only wherever it is mapped, no VMO holds it as a frame, and
no VMO's pager can hand it out for a page in range. -/
structure ZeroSafe (w : Vmm) : Prop where
  readOnly : w.ZeroPageReadOnly
  frames : ∀ id page f, (w.vmo id).residentFrame page = some f → f ≠ w.zeroPage
  pagers : ∀ id, (w.vmo id).pager.Avoids (w.vmo id).pages w.zeroPage

variable {w : Vmm}

/-! ## The invariant along a run -/

/-- A fault keeps the invariant: trees are untouched, the one page it maps is an aligned page
of the binding covering the address, and a fill records no back-ref. -/
theorem Inv.fault (hw : w.Inv) {active : Option Nat} {fault : VmFault} {env : FaultEnv}
    {w' : Vmm} {ok : Bool} (h : w.vmmHandleFault active fault env = .ok (w', ok)) : w'.Inv := by
  have he := vmmHandleFault_effect h
  refine ⟨fun j a' ha' => ?_, fun j a' ha' v t hv => ?_, fun id m hm => ?_⟩
  · obtain ⟨a, ha, hroot, -⟩ := he.aspaces j a' ha'
    rw [hroot, he.arch]
    exact hw.trees j a ha
  · obtain ⟨a, ha, hroot, hpages⟩ := he.aspaces j a' ha'
    have hwf := (hw.trees j a ha).1
    rw [hroot]
    rcases hpages v t hv with hold | ⟨b, id, hb, -, rfl, hal, -⟩
    · exact hw.backed j a ha v t hold
    · -- the faulting page lies in the binding `find_binding` returned
      obtain ⟨hhas, hcont⟩ := hwf.findBinding hb
      exact ⟨hal, b, hhas, hcont.pageBase (hwf.binding_aligned hhas)⟩
  · rw [he.nextSlot]
    rcases he.vmos id with hv | ⟨page, hv⟩
    · rw [hv] at hm
      exact hw.fresh id m hm
    · rw [hv, Vmo.fillPage_mappings] at hm
      exact hw.fresh id m hm

theorem Inv.step (hw : w.Inv) : ∀ op : VmmOp, (w.step op).1.Inv
  | .createAspace ok => hw.createAspace ok
  | .createVmo pages pager pushed ok => hw.createVmo pages pager pushed ok
  | .commit id page count frames => hw.commitVmo id page count frames
  | .region i op => hw.regionCall i op
  | .fault active fault env => by
    simp only [Vmm.step]
    split
    · exact hw
    · rename_i w' handled h
      exact hw.fault h

theorem inv_run (arch : Arch) (z : Word) (ops : List VmmOp) :
    (run Vmm.step (init arch z) ops).1.Inv :=
  @run_invariant Vmm VmmOp (Except String Bool) Vmm.step Inv (fun _ op hw => hw.step op) _
    (inv_init arch z) ops

/-! ## The zero page along a run -/

theorem zeroSafe_init (arch : Arch) (z : Word) : (init arch z).ZeroSafe where
  readOnly i a ha v t hv _ := by
    match i, ha with
    | 0, ha =>
      cases ha
      cases hv
  frames id page f h := by
    simp [vmo, init, Vmo.residentFrame] at h
  pagers id := by
    simpa [vmo, init] using Pager.avoids_anonymous _ _

theorem ZeroSafe.createAspace (hz : w.ZeroSafe) (ok : Bool) : (w.createAspace ok).1.ZeroSafe := by
  unfold Vmm.createAspace
  split
  · refine ⟨fun j a ha v t hv => ?_, hz.frames, hz.pagers⟩
    rcases getElem?_append_singleton ha with ha | rfl
    · exact hz.readOnly j a ha v t hv
    · cases hv
  · exact hz

theorem ZeroSafe.createVmo (hz : w.ZeroSafe) {pages : Word} {pager : Pager} (pushed : Nat) (ok : Bool)
    (hp : pager.Avoids pages w.zeroPage) : (w.createVmo pages pager pushed ok).1.ZeroSafe := by
  unfold Vmm.createVmo
  split
  · -- the new VMO holds no frame yet, and its window avoids the zero page
    refine ⟨hz.readOnly, fun id page f h => ?_, fun id => ?_⟩
    · rcases vmo_push (Vmo.create pages pager pushed) id with hv | hv
      · rw [hv] at h
        exact hz.frames id page f h
      · rw [hv, Vmo.create_residentFrame] at h
        cases h
    · rcases vmo_push (Vmo.create pages pager pushed) id with hv | hv
      · rw [hv]
        exact hz.pagers id
      · rw [hv, Vmo.create_pager, Vmo.create_pages]
        exact hp
  · exact hz

/-- A fill of a page keeps the VMO's frames and pager clear of the zero page, when the PMM
frame it may take is not the zero page. -/
theorem ZeroSafe.fillPage_frame (hz : w.ZeroSafe) {id : Nat} {c f : Option Word}
    (hf : f ≠ some w.zeroPage) {page q x : Word}
    (h : ((w.vmo id).fillPage c f page).1.residentFrame q = some x) : x ≠ w.zeroPage := by
  rcases Vmo.residentFrame_fillPage h with h | ⟨rfl, hlt, hfill⟩
  · exact hz.frames id q x h
  · exact Pager.fill_ne (hz.pagers id) hf hlt hfill

theorem ZeroSafe.commitVmo (hz : w.ZeroSafe) (id : Nat) (page count : Word)
    {frames : List (Option Word × Option Word)} (hfr : ∀ fr ∈ frames, fr.2 ≠ some w.zeroPage) :
    (w.commitVmo id page count frames).1.ZeroSafe := by
  refine ⟨hz.readOnly, fun id' q x h => ?_, fun id' => ?_⟩
  · simp only [Vmm.commitVmo, vmo_setVmo] at h
    split at h
    · rename_i hid
      obtain ⟨rfl, -⟩ := hid
      rcases Vmo.residentFrame_commit h with h | ⟨hlt, fr, hfr', hfill⟩
      · exact hz.frames id q x h
      · -- a frame the pager handed out for a page in range
        have hne : fr.2 ≠ some w.zeroPage := by
          rcases hfr' with rfl | hmem
          · simp
          · exact hfr fr hmem
        exact Pager.fill_ne (hz.pagers id) hne hlt hfill
    · exact hz.frames id' q x h
  · simp only [Vmm.commitVmo, vmo_setVmo]
    split
    · rename_i hid
      obtain ⟨rfl, -⟩ := hid
      obtain ⟨hpages, hpager, -⟩ := Vmo.commit_fields (w.vmo id) page count frames
      rw [hpages, hpager]
      exact hz.pagers id
    · exact hz.pagers id'

/-- A region call only clears translations and changes VMOs only in their back-refs. -/
theorem ZeroSafe.regionCall (hw : w.Inv) (hz : w.ZeroSafe) (i : Nat) (op : RegionOp) :
    (w.regionCall i op).1.ZeroSafe := by
  cases ha : w.aspaces[i]? with
  | none =>
    rw [regionCall_of_none ha]
    exact hz
  | some a =>
  rw [regionCall_of_some ha]
  have ht : (Space.mk a.root (w.vmState i a)).root.WellFormed := (hw.trees i a ha).1
  have he := (Space.step_effect ht op).evolves
  refine ⟨fun j a' ha' v t hv => ?_, fun id q x h => ?_, fun id => ?_⟩
  · rw [getElem?_writeBack ha] at ha'
    split at ha'
    · cases ha'
      exact hz.readOnly i a ha v t (he.pages v t hv)
    · exact hz.readOnly j a' ha' v t hv
  · rw [vmo_writeBack, he.vmos id, Vmo.residentFrame_withMappings] at h
    exact hz.frames id q x h
  · rw [vmo_writeBack, he.vmos id]
    exact hz.pagers id

/-- A fault keeps the zero page read-only: what it maps is the zero page without WRITE, or a
frame the VMO holds, which a fill from a PMM frame other than the zero page never makes the
zero page. -/
theorem ZeroSafe.fault (hz : w.ZeroSafe) {active : Option Nat} {fault : VmFault} {env : FaultEnv}
    (henv : env.fillFrame ≠ some w.zeroPage) {w' : Vmm} {ok : Bool}
    (h : w.vmmHandleFault active fault env = .ok (w', ok)) : w'.ZeroSafe := by
  have he := vmmHandleFault_effect h
  have hframes : ∀ id q x, (w'.vmo id).residentFrame q = some x → x ≠ w'.zeroPage := by
    intro id q x hx
    rw [he.zeroPage]
    rcases he.vmos id with hv | ⟨page, hv⟩
    · rw [hv] at hx
      exact hz.frames id q x hx
    · rw [hv] at hx
      exact hz.fillPage_frame henv hx
  refine ⟨fun j a' ha' v t hv hzero => ?_, hframes, fun id => ?_⟩
  · obtain ⟨a, ha, -, hpages⟩ := he.aspaces j a' ha'
    rw [he.zeroPage] at hzero
    rcases hpages v t hv with hold | ⟨b, id, -, -, -, -, hnew | hres⟩
    · exact hz.readOnly j a ha v t hold hzero
    · exact hnew.2
    · exact absurd (hzero.trans he.zeroPage.symm) (hframes id _ _ hres)
  · rw [he.zeroPage]
    rcases he.vmos id with hv | ⟨page, hv⟩
    · rw [hv]
      exact hz.pagers id
    · rw [hv, Vmo.fillPage_pages, Vmo.fillPage_pager]
      exact hz.pagers id

/-- No step changes the architecture or the zero page. -/
theorem step_fixed (w : Vmm) :
    ∀ op : VmmOp, (w.step op).1.arch = w.arch ∧ (w.step op).1.zeroPage = w.zeroPage
  | .createAspace ok => by simp only [Vmm.step, Vmm.createAspace]; split <;> exact ⟨rfl, rfl⟩
  | .createVmo pages pager pushed ok => by
    simp only [Vmm.step, Vmm.createVmo]; split <;> exact ⟨rfl, rfl⟩
  | .commit id page count frames => ⟨rfl, rfl⟩
  | .region i op => by
    simp only [Vmm.step]
    cases ha : w.aspaces[i]? with
    | none => rw [regionCall_of_none ha]; exact ⟨rfl, rfl⟩
    | some a => rw [regionCall_of_some ha]; exact ⟨rfl, rfl⟩
  | .fault active fault env => by
    simp only [Vmm.step]
    split
    · exact ⟨rfl, rfl⟩
    · rename_i w' handled h
      exact ⟨(vmmHandleFault_effect h).arch, (vmmHandleFault_effect h).zeroPage⟩

@[simp] theorem step_zeroPage (w : Vmm) (op : VmmOp) : (w.step op).1.zeroPage = w.zeroPage :=
  (step_fixed w op).2

@[simp] theorem step_arch (w : Vmm) (op : VmmOp) : (w.step op).1.arch = w.arch :=
  (step_fixed w op).1

theorem ZeroSafe.step (hw : w.Inv) (hz : w.ZeroSafe) :
    ∀ op : VmmOp, op.Sane w.zeroPage → (w.step op).1.ZeroSafe
  | .createAspace ok, _ => hz.createAspace ok
  | .createVmo pages pager pushed ok, hp => hz.createVmo pushed ok hp
  | .commit id page count frames, hfr => hz.commitVmo id page count hfr
  | .region i op, _ => hz.regionCall hw i op
  | .fault active fault env, henv => by
    simp only [Vmm.step]
    split
    · exact hz
    · rename_i w' handled h
      exact hz.fault henv h

/-- Along every run whose environment never hands out the zero page, the zero page stays
read-only in every address space. -/
theorem zeroSafe_run (arch : Arch) (z : Word) :
    ∀ ops : List VmmOp, (∀ op ∈ ops, op.Sane z) → (run Vmm.step (init arch z) ops).1.ZeroSafe := by
  intro ops hops
  have := @run_invariant_of Vmm VmmOp (Except String Bool) Vmm.step (VmmOp.Sane z)
    (fun w => w.Inv ∧ w.ZeroSafe ∧ w.zeroPage = z)
    (fun w op hop ⟨hw, hz, hzero⟩ =>
      ⟨hw.step op, hz.step hw op (hzero ▸ hop), (step_zeroPage w op).trans hzero⟩)
    _ ⟨inv_init arch z, zeroSafe_init arch z, rfl⟩ ops hops
  exact this.2.1

end Vmm

/-- Demand faults are authorized by the binding they land in, in every state the VMM
reaches from `vmm_init`. A fault the handler reports resolved installed, at the faulting
page and nowhere else, a translation within the protection of the binding covering the
address, hence within the max protection of every region above that binding, and it is
the zero page without WRITE or the frame the binding's VMO holds for the page the address
falls in. A fault with no binding or no VMO at the address, an access the binding's
protection does not allow, or a page past the VMO's end is only counted. And when the
environment never hands out the zero page, no address space maps it writable. -/
theorem demand_fault_authorized (arch : Arch) (z : Word) (ops : List VmmOp) (i : Nat)
    (fault : VmFault) (env : FaultEnv) :
    let w := (run Vmm.step (Vmm.init arch z) ops).1
    (∀ a w', w.aspaces[i]? = some a → w.vmmHandleFault (some i) fault env = .ok (w', true) →
      ∃ b id, a.root.findBinding fault.vaddr = some b ∧ a.root.HasBinding b ∧
        b.Contains fault.vaddr ∧ b.vmo = some id ∧
        ∃ a' t, w'.aspaces[i]? = some a' ∧ a'.root = a.root ∧
          a'.pages (pageBase fault.vaddr) = some t ∧ Submask t.prot b.prot ∧
          (∀ path r, a.root.find? path = some r → r.HasBinding b → Submask t.prot r.maxProt) ∧
          (t.paddr = w.zeroPage ∧ t.prot &&& vm_prot.WRITE = 0 ∨
            (w'.vmo id).residentFrame (b.pageOf fault.vaddr) = some t.paddr) ∧
          ∀ v, v ≠ pageBase fault.vaddr → a'.pages v = a.pages v) ∧
    (∀ a, w.aspaces[i]? = some a →
      (a.root.findBinding fault.vaddr = none ∨
        ∃ b, a.root.findBinding fault.vaddr = some b ∧
          (b.vmo = none ∨ ¬ Submask fault.needed b.prot ∨
            ∃ id, b.vmo = some id ∧ (w.vmo id).pages ≤ b.pageOf fault.vaddr)) →
      w.vmmHandleFault (some i) fault env = .ok (w.setAspace i a.countFault, false)) ∧
    ((∀ op ∈ ops, op.Sane z) → w.ZeroPageReadOnly) := by
  intro w
  have hw : w.Inv := Vmm.inv_run arch z ops
  refine ⟨fun a w' ha h => ?_, fun a ha href => Vmm.vmmHandleFault_of_refused ha href,
    fun hops => (Vmm.zeroSafe_run arch z ops hops).readOnly⟩
  have hwf := (hw.trees i a ha).1
  obtain ⟨b, id, hb, hid, a', t, hget, hroot, ht, hprot, hkind, hrest⟩ :=
    Vmm.vmmHandleFault_installs ha h
  obtain ⟨hhas, hcont⟩ := hwf.findBinding hb
  -- the binding's protection is within the max protection of every region above it
  have hup : ∀ path r, a.root.find? path = some r → r.HasBinding b → Submask t.prot r.maxProt :=
    fun path r hr hrb => hprot.trans ((hwf.find? path hr).prot_of_hasBinding hrb)
  exact ⟨b, id, hb, hhas, hcont, hid, a', t, hget, hroot, ht, hprot, hup, hkind, hrest⟩

/-- A short run: one anonymous VMO mapped at 0x100000 in the boot address space, a read fault
that shares the zero page, a write fault on it that replaces the zero page by a fresh frame, and
a fault outside every binding that is refused. -/
def demoVmmOps : List VmmOp :=
  [.createVmo 4 .anonymous 1 true,
    .region 0 (.map [] 0x100000 0x4000 (some 0) 0
      (vm_prot.READ ||| vm_prot.WRITE ||| vm_prot.USER) .cached true true),
    .fault (some 0) ⟨0x101234, false, false, true⟩ ⟨some 0x8000, some 0x9000, true⟩,
    .fault (some 0) ⟨0x101234, true, true, true⟩ ⟨some 0x8000, some 0x9000, true⟩,
    .fault (some 0) ⟨0x200000, false, false, true⟩ ⟨some 0x8000, some 0x9000, true⟩]

example : (run Vmm.step (Vmm.init .x86_64 0x5000) demoVmmOps).2 =
    [.ok true, .ok true, .ok true, .ok true, .ok false] := by rfl

end Archipelago.Mm
