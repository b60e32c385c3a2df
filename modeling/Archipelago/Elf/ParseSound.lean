import Archipelago.Elf.Parse

/-! What `parse_image` guarantees. An accepted image has between one and `MAX_SEGMENTS`
segments, each non-empty, no larger in the file than in memory, page-aligned, not both
writable and executable, inside the blob, and mapped without wrapping; their rounded sizes
sum to at most `MAX_IMAGE_BYTES`, and the entry point lies in one of them (`Image.Ok`).
The loop's accumulator carries this as `AccOk`, kept by every pass.

Whatever `parse_image` returns, every program header it read lies inside the blob; it is
aligned when `e_phentsize` is a multiple of 8, and only then: the alignment test covers
the table's start, not its stride. -/

namespace Archipelago.Elf

open Archipelago.Lib Archipelago.Mm

/-- `round_up(memsz, PAGE_SIZE)`. -/
def roundUp (memsz : Nat) : Nat := (memsz + (pageSize - 1)) / pageSize * pageSize

/-- A segment the loader can map from a blob of `size` bytes: not empty, no more file bytes than
memory bytes, page-aligned, not both writable and executable, inside the file, and with its
rounded end inside the address space. -/
structure Segment.Ok (seg : Segment) (size : Nat) : Prop where
  memsz_pos : 0 < seg.memsz
  filesz_le : seg.filesz ≤ seg.memsz
  vaddr_aligned : seg.vaddr % pageSize = 0
  not_wx : ¬ (seg.flags &&& pfW ≠ 0 ∧ seg.flags &&& pfX ≠ 0)
  in_file : seg.fileOffset + seg.filesz ≤ size
  no_wrap : seg.vaddr + roundUp seg.memsz < 2 ^ 64

/-- An image the loader can map from a blob of `size` bytes: one to `MAX_SEGMENTS` mappable
segments, at most `MAX_IMAGE_BYTES` in all once rounded to pages, and an entry point inside one
of them. -/
structure Image.Ok (img : Image) (size : Nat) : Prop where
  count_pos : 0 < img.segments.length
  count_le : img.segments.length ≤ maxSegments
  segments_ok : ∀ seg ∈ img.segments, seg.Ok size
  total_le : (img.segments.map fun seg => roundUp seg.memsz).sum ≤ maxImageBytes
  entry_covered : ∃ seg ∈ img.segments, seg.vaddr ≤ img.entry ∧ img.entry < seg.vaddr + seg.memsz

/-- The loop's accumulator: at most `MAX_SEGMENTS` accepted segments, and a running total
that is their rounded size and within `MAX_IMAGE_BYTES`. -/
structure AccOk (size : Nat) (acc : List Segment × Nat) : Prop where
  length_le : acc.1.length ≤ maxSegments
  segments_ok : ∀ seg ∈ acc.1, seg.Ok size
  total_eq : acc.2 = (acc.1.map fun seg => roundUp seg.memsz).sum
  total_le : acc.2 ≤ maxImageBytes

/-! ### Rounding and wrapping -/

theorem roundUp_le (memsz : Nat) : roundUp memsz ≤ memsz + (pageSize - 1) :=
  Nat.div_mul_le_self _ _

/-- `mapped_bytes` answers only when the rounding does not wrap, and then with the rounded
size. -/
theorem mappedBytes_eq_some {memsz bytes : Nat} (hm : memsz < 2 ^ 64)
    (h : mappedBytes memsz = some bytes) :
    memsz + (pageSize - 1) < 2 ^ 64 ∧ bytes = roundUp memsz := by
  unfold mappedBytes at h
  by_cases hw : memsz + (pageSize - 1) < 2 ^ 64
  · rw [Nat.mod_eq_of_lt hw, if_neg (by omega)] at h
    exact ⟨hw, (Option.some.inj h).symm⟩
  · -- the sum wrapped, so the remainder fell below `memsz`
    rw [if_pos (by simp only [pageSize] at hw ⊢; omega)] at h
    cases h

/-- A segment `extent_wraps` accepts maps below `2^64`. -/
theorem not_extentWraps {vaddr memsz : Nat} (hv : vaddr < 2 ^ 64) (hm : memsz < 2 ^ 64)
    (h : extentWraps vaddr memsz = false) :
    mappedBytes memsz = some (roundUp memsz) ∧ vaddr + roundUp memsz < 2 ^ 64 := by
  unfold extentWraps at h
  cases hb : mappedBytes memsz with
  | none => rw [hb] at h; cases h
  | some bytes =>
    rw [hb] at h
    obtain ⟨hw, rfl⟩ := mappedBytes_eq_some hm hb
    have hle := roundUp_le memsz
    simp only [decide_eq_false_iff_not] at h
    exact ⟨rfl, by omega⟩

/-! ### One program header -/

/-- The fields of a program header read from a blob fit their 64 bits. -/
structure Phdr.Fits (ph : Phdr) : Prop where
  vaddr_lt : ph.vaddr < 2 ^ 64
  memsz_lt : ph.memsz < 2 ^ 64

theorem Blob.phdr_fits (b : Blob) (off : Nat) : (b.phdr off).Fits where
  vaddr_lt := lt_of_lt_of_eq (readLE_lt _ _ 8) rfl
  memsz_lt := lt_of_lt_of_eq (readLE_lt _ _ 8) rfl

/-- A program header `check_segment` accepts makes a mappable segment. -/
theorem checkSegment_ok {ph : Phdr} {size : Nat} (hf : ph.Fits) (hpos : 0 < ph.memsz)
    (h : checkSegment ph size = .ok ()) :
    (Segment.mk ph.offset ph.vaddr ph.filesz ph.memsz ph.flags).Ok size ∧
      mappedBytes ph.memsz = some (roundUp ph.memsz) := by
  unfold checkSegment at h
  split_ifs at h with hwx hal hfs hwrap hin
  obtain ⟨hmb, hnw⟩ := not_extentWraps hf.vaddr_lt hf.memsz_lt (by simpa using hwrap)
  simp only [regionInBounds, Bool.not_eq_true', Bool.and_eq_false_iff, decide_eq_false_iff_not,
    not_le, not_or, not_lt] at hin
  exact ⟨⟨hpos, Nat.le_of_not_lt hfs, by simpa using hal, hwx,
    show ph.offset + ph.filesz ≤ size by omega, hnw⟩, hmb⟩

theorem accOk_nil (size : Nat) : AccOk size ([], 0) where
  length_le := Nat.zero_le _
  segments_ok := by simp
  total_eq := rfl
  total_le := Nat.zero_le _

/-- One pass of the loop keeps the accumulator in bounds. -/
theorem AccOk.loadPhdr {size : Nat} {ph : Phdr} {acc acc' : List Segment × Nat}
    (hacc : AccOk size acc) (hf : ph.Fits) (h : loadPhdr size ph acc = .ok acc') :
    AccOk size acc' := by
  unfold Elf.loadPhdr at h
  by_cases hdyn : ph.type = ptInterp ∨ ph.type = ptDynamic
  · rw [if_pos hdyn] at h
    cases h
  rw [if_neg hdyn] at h
  by_cases hload : ph.type ≠ ptLoad
  · rw [if_pos hload] at h
    cases h
    exact hacc
  rw [if_neg hload] at h
  by_cases hzero : ph.memsz = 0
  · rw [if_pos hzero] at h
    cases h
    exact hacc
  rw [if_neg hzero] at h
  cases hcs : checkSegment ph size with
  | error e => simp only [hcs] at h; cases h
  | ok u =>
    obtain ⟨hseg, hmb⟩ := checkSegment_ok hf (Nat.pos_of_ne_zero hzero) hcs
    simp only [hcs, hmb, Option.getD_some] at h
    split_ifs at h with hfull hbig htotal
    -- the sum is below `2 * MAX_IMAGE_BYTES`, so taking it modulo `2^64` changes nothing
    have hsum : (acc.2 + roundUp ph.memsz) % 2 ^ 64 = acc.2 + roundUp ph.memsz := by
      have := hacc.total_le
      simp only [maxImageBytes] at this hbig
      exact Nat.mod_eq_of_lt (by omega)
    cases h
    refine ⟨?_, ?_, ?_, ?_⟩
    · have := hacc.length_le
      simp only [List.length_append, List.length_singleton]
      omega
    · intro seg hmem
      rcases List.mem_append.1 hmem with hmem | hmem
      · exact hacc.segments_ok seg hmem
      · rw [List.mem_singleton.1 hmem]
        exact hseg
    · show (acc.2 + roundUp ph.memsz) % 2 ^ 64 = _
      rw [hsum, hacc.total_eq]
      simp only [List.map_append, List.map_singleton, List.sum_append, List.sum_singleton]
    · show (acc.2 + roundUp ph.memsz) % 2 ^ 64 ≤ maxImageBytes
      exact Nat.le_of_not_lt htotal

/-! ### The loop -/

theorem scan_ok {b : Blob} {hdr : Ehdr} :
    ∀ (is : List Nat) (acc acc' : List Segment × Nat), AccOk b.size acc →
      (scan b hdr is acc).1 = .ok acc' → AccOk b.size acc'
  | [], acc, acc', hacc, h => by
    simp only [scan, Except.ok.injEq] at h
    exact h ▸ hacc
  | i :: is, acc, acc', hacc, h => by
    simp only [scan] at h
    cases hl : loadPhdr b.size (b.phdr (hdr.phoff + i * hdr.phentsize)) acc with
    | error e => simp only [hl] at h; cases h
    | ok acc₁ =>
      simp only [hl] at h
      exact scan_ok is acc₁ acc' (hacc.loadPhdr (b.phdr_fits _) hl) h

/-- Every header the loop reads is at `e_phoff + i * e_phentsize` for one of its indices. -/
theorem mem_scan_reads {b : Blob} {hdr : Ehdr} :
    ∀ (is : List Nat) (acc : List Segment × Nat) {off : Nat}, off ∈ (scan b hdr is acc).2 →
      ∃ i ∈ is, off = hdr.phoff + i * hdr.phentsize
  | [], acc, off, h => by simp [scan] at h
  | i :: is, acc, off, h => by
    simp only [scan] at h
    cases hl : loadPhdr b.size (b.phdr (hdr.phoff + i * hdr.phentsize)) acc with
    | error e =>
      simp only [hl, List.mem_singleton] at h
      exact ⟨i, List.mem_cons_self, h⟩
    | ok acc₁ =>
      simp only [hl, List.mem_cons] at h
      rcases h with rfl | h
      · exact ⟨i, List.mem_cons_self, rfl⟩
      · obtain ⟨j, hj, rfl⟩ := mem_scan_reads is acc₁ h
        exact ⟨j, List.mem_cons_of_mem _ hj, rfl⟩

/-! ### The header checks -/

theorem headerOf_eq_some {b : Blob} {hdr : Ehdr} (h : headerOf b = some hdr) : hdr = b.ehdr := by
  unfold headerOf at h
  split_ifs at h
  exact (Option.some.inj h).symm

/-- What the checks before the loop establish: a table of `e_phnum` entries of at least
`sizeof(Elf64_Phdr)` bytes inside the blob, starting at an aligned address. -/
theorem checkHeader_ok {b : Blob} {arch : Arch} {hdr : Ehdr} (h : checkHeader b arch = .ok hdr) :
    hdr = b.ehdr ∧ phdrSize ≤ hdr.phentsize ∧ hdr.phoff + hdr.phnum * hdr.phentsize ≤ b.size ∧
      (b.addr + hdr.phoff) % structAlign = 0 := by
  unfold checkHeader at h
  cases hh : headerOf b with
  | none => simp only [hh] at h; cases h
  | some hdr₀ =>
    simp only [hh] at h
    split_ifs at h with hm ht hent hin hal
    cases h
    simp only [regionInBounds, Bool.not_eq_true', Bool.and_eq_false_iff, decide_eq_false_iff_not,
      not_le, not_or, not_lt] at hin
    exact ⟨headerOf_eq_some hh, by omega, by omega, by simpa using hal⟩

/-! ### What `parse_image` guarantees -/

/-- An image `parse_image` accepts is mappable. -/
theorem parseImage_ok {b : Blob} {arch : Arch} {img : Image} (h : parseImage b arch = .ok img) :
    img.Ok b.size := by
  unfold parseImage parseImageTraced at h
  cases hc : checkHeader b arch with
  | error e => simp only [hc] at h; cases h
  | ok hdr =>
    simp only [hc] at h
    cases hs : (scan b hdr (List.range hdr.phnum) ([], 0)).1 with
    | error e => rw [hs] at h; cases h
    | ok acc =>
      rw [hs] at h
      have hacc := scan_ok _ _ _ (accOk_nil b.size) hs
      obtain ⟨segments, total⟩ := acc
      simp only [finish] at h
      split_ifs at h with h0 hcov
      cases h
      -- `entry_covered` found a segment holding the entry point
      simp only [entryCovered, Bool.not_eq_true', Bool.not_eq_false, List.any_eq_true,
        Bool.and_eq_true, decide_eq_true_eq] at hcov
      obtain ⟨seg, hmem, hlo, hhi⟩ := hcov
      exact ⟨Nat.pos_of_ne_zero h0, hacc.length_le, hacc.segments_ok,
        hacc.total_eq ▸ hacc.total_le,
        ⟨seg, hmem, hlo, show hdr.entry < seg.vaddr + seg.memsz by omega⟩⟩

/-- Every program header `parse_image` reads lies inside the blob. -/
theorem phdrReads_in_bounds {b : Blob} {arch : Arch} {off : Nat} (h : off ∈ phdrReads b arch) :
    off + phdrSize ≤ b.size := by
  unfold phdrReads parseImageTraced at h
  cases hc : checkHeader b arch with
  | error e => simp [hc] at h
  | ok hdr =>
    simp only [hc] at h
    obtain ⟨-, hsize, htable, -⟩ := checkHeader_ok hc
    obtain ⟨i, hi, rfl⟩ := mem_scan_reads _ _ h
    have hi' : i + 1 ≤ hdr.phnum := List.mem_range.1 hi
    calc hdr.phoff + i * hdr.phentsize + phdrSize
        ≤ hdr.phoff + (i + 1) * hdr.phentsize := by rw [Nat.succ_mul]; omega
      _ ≤ hdr.phoff + hdr.phnum * hdr.phentsize := by
        have := Nat.mul_le_mul_right hdr.phentsize hi'
        omega
      _ ≤ b.size := htable

/-- `parse_image` accepts only images the loader can map (`Image.Ok`), and whatever it returns
it reads program headers only inside the blob. -/
theorem elf_acceptance_sound (b : Blob) (arch : Arch) :
    (∀ img, parseImage b arch = .ok img → img.Ok b.size) ∧
      ∀ off ∈ phdrReads b arch, off + phdrSize ≤ b.size :=
  ⟨fun _ h => parseImage_ok h, fun _ h => phdrReads_in_bounds h⟩

/-- An 8-aligned blob with `e_phentsize = 57` and two program headers, the first `PT_NULL`:
its second header is read at offset 121. -/
def misalignedBlob : Blob where
  addr := 8
  bytes := [0x7f, 0x45, 0x4c, 0x46, 2, 1, 1] ++ List.replicate 9 0 ++ [2, 0, 62, 0] ++
    List.replicate 12 0 ++ [64] ++ List.replicate 21 0 ++ [57, 0, 2, 0] ++ List.replicate 6 0 ++
    List.replicate 114 0

set_option maxRecDepth 10000 in
/-- On that blob `parse_image` reads a program header at an address that is not a multiple
of `alignof(Elf64_Phdr)`. -/
theorem parse_image_reads_misaligned_phdr :
    misalignedBlob.addr % structAlign = 0 ∧
      ∃ off ∈ phdrReads misalignedBlob .x86_64, (misalignedBlob.addr + off) % structAlign ≠ 0 :=
  ⟨rfl, 121, by decide, by decide⟩

end Archipelago.Elf
