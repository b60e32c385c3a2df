import Mathlib.Logic.Function.Basic
import Archipelago.Mm.Types

/-! An address space's translations as the map its page tables stand for: page-aligned
virtual address to translation. The portable VMM (`mm/region.cpp`, `mm/fault.cpp`) calls
`vm_aspace::map_page`, `unmap_page` and `walk` and relies on them behaving as this map does;
the page-table code of the two architectures is not modelled, only this map it stands for.

`map_page` never replaces a present translation, so a mapped page is refused; whether the
tables had room for the levels above the leaf is the caller's `ok`. `zap_range` is the loop
of `unmap_page` over a slot's pages that `Region::remove_slot` runs. -/

namespace Archipelago.Mm

/-- The translations of an address space, keyed by page-aligned virtual address. -/
abbrev PageMap := Word → Option VmTranslation

namespace PageMap

/-- No translations: the user half of a fresh address space. -/
def empty : PageMap := fun _ => none

/-- `vm_aspace::map_page`: an unaligned address or frame and a protection without READ are
refused, a present translation is never replaced, and `ok` is whether the intermediate
tables could be allocated. -/
def mapPage (pt : PageMap) (ok : Bool) (vaddr paddr : Word) (prot : VmProt)
    (cache : VmCacheMode) : PageMap × Bool :=
  if !pageAligned vaddr || !pageAligned paddr || prot &&& vm_prot.READ == 0 then (pt, false)
  else if (pt vaddr).isSome then (pt, false)
  else if !ok then (pt, false)
  else (Function.update pt vaddr (some ⟨paddr, prot, cache⟩), true)

/-- `vm_aspace::unmap_page`: clears the translation of an aligned address and returns its
frame. -/
def unmapPage (pt : PageMap) (vaddr : Word) : PageMap × Option Word :=
  if pageAligned vaddr then (Function.update pt vaddr none, (pt vaddr).map (·.paddr))
  else (pt, none)

/-- `vm_aspace::walk`: the frame of the page holding `vaddr`, with the offset kept. -/
def walk (pt : PageMap) (vaddr : Word) : Option Word :=
  (pt (vaddr &&& ~~~(pageSize - 1))).map fun t => t.paddr ||| (vaddr &&& (pageSize - 1))

/-- The loop of `Region::zap_range` from `vaddr` up to `limit`, for at most `fuel` pages. -/
def zapFrom (limit : Word) : Nat → Word → PageMap → PageMap
  | 0, _, pt => pt
  | fuel + 1, vaddr, pt =>
    if vaddr < limit then zapFrom limit fuel (vaddr + pageSize) (pt.unmapPage vaddr).1 else pt

/-- `Region::zap_range`: `unmap_page` at `base`, `base + PAGE`, ... while below `base + size`.
The fuel is the range's page count, which is how often the loop runs on the page-aligned,
non-wrapping ranges that slots have. -/
def zapRange (pt : PageMap) (base size : Word) : PageMap :=
  zapFrom (base + size) (size.toNat / 4096) base pt

/-! ## What each operation does to the map -/

section

variable {pt : PageMap} {ok : Bool} {vaddr paddr : Word} {prot : VmProt} {cache : VmCacheMode}

/-- The conditions under which `map_page` installs a translation. -/
def CanMap (pt : PageMap) (ok : Bool) (vaddr paddr : Word) (prot : VmProt) : Prop :=
  pageAligned vaddr = true ∧ pageAligned paddr = true ∧ prot &&& vm_prot.READ ≠ 0 ∧
    pt vaddr = none ∧ ok = true

theorem mapPage_of_canMap (h : CanMap pt ok vaddr paddr prot) :
    pt.mapPage ok vaddr paddr prot cache =
      (Function.update pt vaddr (some ⟨paddr, prot, cache⟩), true) := by
  obtain ⟨hv, hp, hr, hnone, rfl⟩ := h
  simp only [mapPage, hv, hp, hnone]
  simp only [Bool.not_true, Bool.false_or, beq_iff_eq, Option.isSome_none, Bool.false_eq_true,
    ↓reduceIte, Bool.not_true]
  exact if_neg hr

theorem mapPage_of_not_canMap (h : ¬ CanMap pt ok vaddr paddr prot) :
    pt.mapPage ok vaddr paddr prot cache = (pt, false) := by
  unfold mapPage
  unfold CanMap at h
  by_cases hv : pageAligned vaddr <;> by_cases hp : pageAligned paddr <;>
    by_cases hr : prot &&& vm_prot.READ = 0 <;> cases hnone : pt vaddr <;> cases ok <;>
    simp_all

/-- A call that reports success installed exactly the requested translation at an unmapped
page. -/
theorem canMap_of_snd_true (h : (pt.mapPage ok vaddr paddr prot cache).2 = true) :
    CanMap pt ok vaddr paddr prot := by
  by_contra hc
  rw [mapPage_of_not_canMap hc] at h
  cases h

/-- What `map_page` leaves at an address: the old translation, or the one it installed. -/
theorem mapPage_fst_apply_some {v : Word} {t : VmTranslation}
    (h : (pt.mapPage ok vaddr paddr prot cache).1 v = some t) :
    pt v = some t ∨ v = vaddr ∧ t = ⟨paddr, prot, cache⟩ ∧ CanMap pt ok vaddr paddr prot := by
  by_cases hc : CanMap pt ok vaddr paddr prot
  · rw [mapPage_of_canMap hc] at h
    dsimp only at h
    by_cases hv : v = vaddr
    · subst hv
      simp only [Function.update_self, Option.some.injEq] at h
      exact .inr ⟨rfl, h.symm, hc⟩
    · rw [Function.update_of_ne hv] at h
      exact .inl h
  · rw [mapPage_of_not_canMap hc] at h
    exact .inl h

theorem unmapPage_fst_apply (v : Word) :
    (pt.unmapPage vaddr).1 v = if pageAligned vaddr = true ∧ v = vaddr then none else pt v := by
  unfold unmapPage
  by_cases hv : pageAligned vaddr
  · by_cases h : v = vaddr
    · subst h
      simp [hv]
    · simp [hv, h]
  · simp [hv]

theorem unmapPage_fst_of_ne {v : Word} (hv : v ≠ vaddr) : (pt.unmapPage vaddr).1 v = pt v := by
  rw [unmapPage_fst_apply]
  simp [hv]

/-- `unmap_page` only clears. -/
theorem unmapPage_fst_some {v : Word} {t : VmTranslation} (h : (pt.unmapPage vaddr).1 v = some t) :
    pt v = some t := by
  rw [unmapPage_fst_apply] at h
  split at h
  · cases h
  · exact h

end

/-- The zap loop only clears. -/
theorem zapFrom_some (limit : Word) :
    ∀ (fuel : Nat) (vaddr : Word) (pt : PageMap) {v : Word} {t : VmTranslation},
      zapFrom limit fuel vaddr pt v = some t → pt v = some t
  | 0, _, _, _, _, h => h
  | fuel + 1, vaddr, pt, v, t, h => by
    unfold zapFrom at h
    split at h
    · exact unmapPage_fst_some (zapFrom_some limit fuel _ _ h)
    · exact h

theorem zapRange_some {pt : PageMap} {base size v : Word} {t : VmTranslation}
    (h : pt.zapRange base size v = some t) : pt v = some t :=
  zapFrom_some _ _ _ _ h

/-- The zap loop clears exactly the aligned pages of `[vaddr, limit)` when it starts aligned
and its fuel reaches `limit` without wrapping. -/
theorem zapFrom_apply (limit : Word) (hlimit : limit.toNat < 2 ^ 64) :
    ∀ (fuel : Nat) (vaddr : Word) (pt : PageMap), vaddr.toNat % 4096 = 0 →
      vaddr.toNat + fuel * 4096 = limit.toNat → ∀ v,
        zapFrom limit fuel vaddr pt v =
          if vaddr.toNat ≤ v.toNat ∧ v.toNat < limit.toNat ∧ v.toNat % 4096 = 0 then none
          else pt v
  | 0, vaddr, pt, _, hfuel, v => by
    simp only [zapFrom]
    rw [if_neg (by omega)]
  | fuel + 1, vaddr, pt, hal, hfuel, v => by
    have hlt : vaddr < limit := by rw [BitVec.lt_def]; omega
    have hnext : (vaddr + pageSize).toNat = vaddr.toNat + 4096 := by
      rw [BitVec.toNat_add]
      exact Nat.mod_eq_of_lt (by simp [pageSize]; omega)
    simp only [zapFrom, hlt, ↓reduceIte]
    rw [zapFrom_apply limit hlimit fuel (vaddr + pageSize) _ (by omega) (by omega) v,
      unmapPage_fst_apply, hnext]
    have haligned : pageAligned vaddr = true := (pageAligned_iff vaddr).2 hal
    by_cases hv : v = vaddr
    · subst hv
      simp [haligned]
      omega
    · have hne : v.toNat ≠ vaddr.toNat := fun h => hv (BitVec.eq_of_toNat_eq h)
      simp only [haligned, hv, and_false, ↓reduceIte]
      by_cases hin : vaddr.toNat + 4096 ≤ v.toNat ∧ v.toNat < limit.toNat ∧ v.toNat % 4096 = 0
      · rw [if_pos hin, if_pos (by omega)]
      · rw [if_neg hin, if_neg (by omega)]

/-- `zap_range` on a page-aligned range that does not wrap clears exactly its aligned pages. -/
theorem zapRange_apply {base size : Word} (hb : pageAligned base = true)
    (hs : pageAligned size = true) (hw : base.toNat + size.toNat < 2 ^ 64) (pt : PageMap)
    (v : Word) :
    pt.zapRange base size v =
      if base.toNat ≤ v.toNat ∧ v.toNat < base.toNat + size.toNat ∧ v.toNat % 4096 = 0 then none
      else pt v := by
  rw [pageAligned_iff] at hb hs
  have hend : (base + size).toNat = base.toNat + size.toNat := by
    rw [BitVec.toNat_add]
    exact Nat.mod_eq_of_lt hw
  unfold zapRange
  rw [zapFrom_apply (base + size) (BitVec.isLt _) _ base pt hb (by omega) v, hend]

/-- Zapping a range that holds no translation changes nothing. -/
theorem zapRange_eq_self {base size : Word} (hb : pageAligned base = true)
    (hs : pageAligned size = true) (hw : base.toNat + size.toNat < 2 ^ 64) {pt : PageMap}
    (hnone : ∀ v : Word, base.toNat ≤ v.toNat → v.toNat < base.toNat + size.toNat → pt v = none) :
    pt.zapRange base size = pt := by
  funext v
  rw [zapRange_apply hb hs hw]
  split
  · rename_i h
    exact (hnone v h.1 h.2.1).symm
  · rfl

end PageMap

end Archipelago.Mm
