import Mathlib

/-! `includes/ktl/utf8`: byte-level UTF-8 helpers over the bytes at `s`, read as a function
from index to byte, as through the pointer. `utf8_trim_partial(s, len)` shortens `len` past an
incomplete multibyte sequence at the end: it scans back over at most three continuation bytes
and compares the lead byte's announced length with what is left.

What it is measured against: the UTF-8 grammar of RFC 3629 §4 (`Utf8Char` for one encoded
character, `Valid` for a string of them), and the codepoint boundaries of a string, the cuts
into two valid strings. -/

namespace Archipelago.Ktl

/-- `utf8_is_continuation(c)`: `0b10xxxxxx`. -/
def utf8IsContinuation (c : UInt8) : Bool := c &&& 0xC0 == 0x80

/-- `while (lead > 0 && len - lead < 3 && utf8_is_continuation(s[lead - 1])) { --lead; }` -/
def scanLead (s : Nat → UInt8) (len : Nat) : Nat → Nat
  | 0 => 0
  | lead + 1 => if len - (lead + 1) < 3 ∧ utf8IsContinuation (s lead) = true then scanLead s len lead
    else lead + 1

/-- `expected`: the length a lead byte announces. -/
def expectedLength (c : UInt8) : Nat :=
  if c ≥ 0xF0 then 4 else if c ≥ 0xE0 then 3 else if c ≥ 0xC0 then 2 else 1

/-- `utf8_trim_partial(s, len)`. -/
def utf8TrimPartial (s : Nat → UInt8) (len : Nat) : Nat :=
  let lead := scanLead s len len
  if lead = 0 then len
  else if s (lead - 1) ≥ 0xC0 ∧ len - (lead - 1) < expectedLength (s (lead - 1)) then lead - 1
  else len

/-! ### The grammar -/

/-- `UTF8-tail = %x80-BF`. -/
def Utf8Tail (b : UInt8) : Prop := 0x80 ≤ b ∧ b ≤ 0xBF

/-- `UTF8-char = UTF8-1 / UTF8-2 / UTF8-3 / UTF8-4`, an alternative each. -/
inductive Utf8Char : List UInt8 → Prop
  /-- `UTF8-1 = %x00-7F` -/
  | one {a : UInt8} : a ≤ 0x7F → Utf8Char [a]
  /-- `UTF8-2 = %xC2-DF UTF8-tail` -/
  | two {a b : UInt8} : 0xC2 ≤ a → a ≤ 0xDF → Utf8Tail b → Utf8Char [a, b]
  /-- `UTF8-3 = %xE0 %xA0-BF UTF8-tail` -/
  | e0 {b c : UInt8} : 0xA0 ≤ b → b ≤ 0xBF → Utf8Tail c → Utf8Char [0xE0, b, c]
  /-- `/ %xE1-EC 2( UTF8-tail )` -/
  | e1ec {a b c : UInt8} : 0xE1 ≤ a → a ≤ 0xEC → Utf8Tail b → Utf8Tail c → Utf8Char [a, b, c]
  /-- `/ %xED %x80-9F UTF8-tail` -/
  | ed {b c : UInt8} : 0x80 ≤ b → b ≤ 0x9F → Utf8Tail c → Utf8Char [0xED, b, c]
  /-- `/ %xEE-EF 2( UTF8-tail )` -/
  | eeef {a b c : UInt8} : 0xEE ≤ a → a ≤ 0xEF → Utf8Tail b → Utf8Tail c → Utf8Char [a, b, c]
  /-- `UTF8-4 = %xF0 %x90-BF 2( UTF8-tail )` -/
  | f0 {b c d : UInt8} : 0x90 ≤ b → b ≤ 0xBF → Utf8Tail c → Utf8Tail d → Utf8Char [0xF0, b, c, d]
  /-- `/ %xF1-F3 3( UTF8-tail )` -/
  | f1f3 {a b c d : UInt8} : 0xF1 ≤ a → a ≤ 0xF3 → Utf8Tail b → Utf8Tail c → Utf8Tail d →
      Utf8Char [a, b, c, d]
  /-- `/ %xF4 %x80-8F 2( UTF8-tail )` -/
  | f4 {b c d : UInt8} : 0x80 ≤ b → b ≤ 0x8F → Utf8Tail c → Utf8Tail d → Utf8Char [0xF4, b, c, d]

/-- `UTF8-octets = *( UTF8-char )`. -/
inductive Valid : List UInt8 → Prop
  | nil : Valid []
  | cons {c t : List UInt8} : Utf8Char c → Valid t → Valid (c ++ t)

/-- A codepoint boundary: a cut of `t` into two strings of whole characters. -/
def Boundary (t : List UInt8) (i : Nat) : Prop := Valid (t.take i) ∧ Valid (t.drop i)

/-- The bytes of `t`, as the pointer reads them. -/
def bytesOf (t : List UInt8) (i : Nat) : UInt8 := t.getD i 0

/-- An incomplete trailing sequence starting at `r`: a lead byte of at least `0xC0`, then up to
`len` continuation bytes only, fewer than the lead byte announces. -/
def IncompleteTail (s : Nat → UInt8) (len r : Nat) : Prop :=
  r < len ∧ 0xC0 ≤ s r ∧ (∀ i, r < i → i < len → utf8IsContinuation (s i) = true) ∧
    len - r < expectedLength (s r)

/-! ### Bytes -/

/-- Masking with `0xC0` keeps the top two bits of the low byte. -/
theorem land_0xC0 (n : Nat) : n &&& 0xC0 = n / 64 % 4 * 64 := by
  have h192 : (0xC0 : Nat) = (2 ^ 2 - 1) * 2 ^ 6 := rfl
  have h64 : (64 : Nat) = 2 ^ 6 := rfl
  have h4 : (4 : Nat) = 2 ^ 2 := rfl
  apply Nat.eq_of_testBit_eq
  intro i
  rw [Nat.testBit_and, h192, h64, h4, Nat.testBit_mul_two_pow, Nat.testBit_mul_two_pow,
    Nat.testBit_mod_two_pow, Nat.testBit_div_two_pow, Nat.testBit_two_pow_sub_one]
  -- both sides are bit `i` of `n` for `i = 6, 7` and clear elsewhere
  by_cases hi : 6 ≤ i
  · rw [Nat.sub_add_cancel hi]
    simp [hi, Bool.and_comm]
  · simp [hi]

/-- The continuation bytes are `0x80 ..= 0xBF`. -/
theorem utf8IsContinuation_iff (c : UInt8) :
    utf8IsContinuation c = true ↔ 0x80 ≤ c.toNat ∧ c.toNat < 0xC0 := by
  have hc := c.toNat_lt
  rw [utf8IsContinuation, beq_iff_eq, ← UInt8.toNat_inj, UInt8.toNat_and]
  simp only [UInt8.reduceToNat]
  rw [land_0xC0]
  omega

theorem not_continuation_of_toNat {c : UInt8} (h : c.toNat < 0x80 ∨ 0xC0 ≤ c.toNat) :
    utf8IsContinuation c = false := by
  rw [Bool.eq_false_iff, ne_eq, utf8IsContinuation_iff]
  omega

theorem expectedLength_toNat (c : UInt8) :
    expectedLength c =
      if 0xF0 ≤ c.toNat then 4 else if 0xE0 ≤ c.toNat then 3 else if 0xC0 ≤ c.toNat then 2 else 1 := by
  simp only [expectedLength, ge_iff_le, UInt8.le_iff_toNat_le, UInt8.reduceToNat]

theorem utf8IsContinuation_of_ge (c : UInt8) (h : 0xC0 ≤ c) : utf8IsContinuation c = false := by
  rw [UInt8.le_iff_toNat_le] at h
  exact not_continuation_of_toNat (.inr h)

theorem expectedLength_le (c : UInt8) : expectedLength c ≤ 4 := by
  unfold expectedLength
  split_ifs <;> omega

theorem Utf8Tail.continuation {b : UInt8} (h : Utf8Tail b) : utf8IsContinuation b = true := by
  obtain ⟨h₁, h₂⟩ := h
  rw [UInt8.le_iff_toNat_le] at h₁ h₂
  rw [utf8IsContinuation_iff]
  simp only [UInt8.reduceToNat] at h₁ h₂
  omega

theorem utf8Tail_of {b lo hi : UInt8} (h₁ : lo ≤ b) (h₂ : b ≤ hi) (hlo : 0x80 ≤ lo) (hhi : hi ≤ 0xBF) :
    Utf8Tail b :=
  ⟨UInt8.le_trans hlo h₁, UInt8.le_trans h₂ hhi⟩

/-- The lead bytes of the four lengths: none is a continuation, each announces its length, and
all but the one-byte ones are at least `0xC0`. -/
theorem lead_one : ∀ a : UInt8, a ≤ 0x7F → utf8IsContinuation a = false ∧ expectedLength a = 1 := by
  intro a h
  simp only [UInt8.le_iff_toNat_le, UInt8.reduceToNat] at h
  refine ⟨not_continuation_of_toNat (by omega), ?_⟩
  rw [expectedLength_toNat, if_neg (by omega), if_neg (by omega), if_neg (by omega)]

/-- The multi-byte leads of `[lo, hi]`, all announcing length `k`. -/
theorem lead_of_range {lo hi : UInt8} {k : Nat} (hlo : 0xC0 ≤ lo.toNat)
    (hk : ∀ n, lo.toNat ≤ n → n ≤ hi.toNat →
      (if 0xF0 ≤ n then 4 else if 0xE0 ≤ n then 3 else if 0xC0 ≤ n then 2 else 1) = k) :
    ∀ a : UInt8, lo ≤ a → a ≤ hi → utf8IsContinuation a = false ∧ expectedLength a = k ∧ 0xC0 ≤ a := by
  intro a h₁ h₂
  rw [UInt8.le_iff_toNat_le] at h₁ h₂
  refine ⟨not_continuation_of_toNat (by omega), ?_, ?_⟩
  · rw [expectedLength_toNat]
    exact hk _ h₁ h₂
  · rw [UInt8.le_iff_toNat_le]
    simp only [UInt8.reduceToNat]
    omega

theorem lead_two : ∀ a : UInt8, 0xC2 ≤ a → a ≤ 0xDF →
    utf8IsContinuation a = false ∧ expectedLength a = 2 ∧ 0xC0 ≤ a :=
  lead_of_range (by decide) fun n h₁ h₂ => by
    simp only [UInt8.reduceToNat] at h₁ h₂
    rw [if_neg (by omega), if_neg (by omega), if_pos (by omega)]

theorem lead_three : ∀ a : UInt8, 0xE0 ≤ a → a ≤ 0xEF →
    utf8IsContinuation a = false ∧ expectedLength a = 3 ∧ 0xC0 ≤ a :=
  lead_of_range (by decide) fun n h₁ h₂ => by
    simp only [UInt8.reduceToNat] at h₁ h₂
    rw [if_neg (by omega), if_pos (by omega)]

theorem lead_four : ∀ a : UInt8, 0xF0 ≤ a → a ≤ 0xF4 →
    utf8IsContinuation a = false ∧ expectedLength a = 4 ∧ 0xC0 ≤ a :=
  lead_of_range (by decide) fun n h₁ h₂ => by
    simp only [UInt8.reduceToNat] at h₁ h₂
    rw [if_pos (by omega)]

/-! ### Characters and strings -/

/-- What the scan reads of a character: a lead byte that is no continuation and announces the
character's length, at least `0xC0` unless it stands alone, then continuation bytes. -/
theorem Utf8Char.shape {c : List UInt8} (h : Utf8Char c) : ∃ a rest, c = a :: rest ∧
    utf8IsContinuation a = false ∧ expectedLength a = c.length ∧ (rest ≠ [] → 0xC0 ≤ a) ∧
    ∀ b ∈ rest, utf8IsContinuation b = true := by
  cases h with
  | one ha =>
    obtain ⟨h₁, h₂⟩ := lead_one _ ha
    exact ⟨_, [], rfl, h₁, h₂, fun h => absurd rfl h, by simp⟩
  | two ha₁ ha₂ hb =>
    obtain ⟨h₁, h₂, h₃⟩ := lead_two _ ha₁ ha₂
    exact ⟨_, _, rfl, h₁, h₂, fun _ => h₃, by simp [hb.continuation]⟩
  | e0 hb₁ hb₂ hc =>
    obtain ⟨h₁, h₂, h₃⟩ := lead_three 0xE0 (by decide) (by decide)
    have hb := utf8Tail_of hb₁ hb₂ (by decide) (by decide)
    exact ⟨_, _, rfl, h₁, h₂, fun _ => h₃, by simp [hb.continuation, hc.continuation]⟩
  | e1ec ha₁ ha₂ hb hc =>
    obtain ⟨h₁, h₂, h₃⟩ := lead_three _ (UInt8.le_trans (by decide) ha₁) (UInt8.le_trans ha₂ (by decide))
    exact ⟨_, _, rfl, h₁, h₂, fun _ => h₃, by simp [hb.continuation, hc.continuation]⟩
  | ed hb₁ hb₂ hc =>
    obtain ⟨h₁, h₂, h₃⟩ := lead_three 0xED (by decide) (by decide)
    have hb := utf8Tail_of hb₁ hb₂ (by decide) (by decide)
    exact ⟨_, _, rfl, h₁, h₂, fun _ => h₃, by simp [hb.continuation, hc.continuation]⟩
  | eeef ha₁ ha₂ hb hc =>
    obtain ⟨h₁, h₂, h₃⟩ := lead_three _ (UInt8.le_trans (by decide) ha₁) ha₂
    exact ⟨_, _, rfl, h₁, h₂, fun _ => h₃, by simp [hb.continuation, hc.continuation]⟩
  | f0 hb₁ hb₂ hc hd =>
    obtain ⟨h₁, h₂, h₃⟩ := lead_four 0xF0 (by decide) (by decide)
    have hb := utf8Tail_of hb₁ hb₂ (by decide) (by decide)
    exact ⟨_, _, rfl, h₁, h₂, fun _ => h₃, by simp [hb.continuation, hc.continuation, hd.continuation]⟩
  | f1f3 ha₁ ha₂ hb hc hd =>
    obtain ⟨h₁, h₂, h₃⟩ := lead_four _ (UInt8.le_trans (by decide) ha₁) (UInt8.le_trans ha₂ (by decide))
    exact ⟨_, _, rfl, h₁, h₂, fun _ => h₃, by simp [hb.continuation, hc.continuation, hd.continuation]⟩
  | f4 hb₁ hb₂ hc hd =>
    obtain ⟨h₁, h₂, h₃⟩ := lead_four 0xF4 (by decide) (by decide)
    have hb := utf8Tail_of hb₁ hb₂ (by decide) (by decide)
    exact ⟨_, _, rfl, h₁, h₂, fun _ => h₃, by simp [hb.continuation, hc.continuation, hd.continuation]⟩

theorem Valid.append {t u : List UInt8} (ht : Valid t) (hu : Valid u) : Valid (t ++ u) := by
  induction ht with
  | nil => exact hu
  | cons hc _ ih => simpa [List.append_assoc] using Valid.cons hc ih

/-- A valid string never starts inside a character. -/
theorem Valid.head_not_continuation {b : UInt8} {t : List UInt8} (h : Valid (b :: t)) :
    utf8IsContinuation b = false := by
  generalize hbt : b :: t = u at h
  cases h with
  | nil => cases hbt
  | cons hc _ =>
    obtain ⟨a, rest, rfl, ha, -⟩ := hc.shape
    simp only [List.cons_append, List.cons.injEq] at hbt
    exact hbt.1 ▸ ha

/-- The character of a valid string that a position `0 < k ≤ |t|` falls in or ends. -/
theorem Valid.split_at {t : List UInt8} (ht : Valid t) {k : Nat} (hk : 0 < k) (hkt : k ≤ t.length) :
    ∃ pre c post, t = pre ++ c ++ post ∧ Valid pre ∧ Utf8Char c ∧ Valid post ∧
      pre.length < k ∧ k ≤ pre.length + c.length := by
  induction ht generalizing k with
  | nil => simp at hkt; omega
  | @cons c u hc hu ih =>
    by_cases hkc : k ≤ c.length
    · exact ⟨[], c, u, rfl, .nil, hc, hu, hk, by simpa using hkc⟩
    · obtain ⟨pre, c', post, rfl, hpre, hc', hpost, h₁, h₂⟩ :=
        ih (k := k - c.length) (by omega) (by simp at hkt; omega)
      refine ⟨c ++ pre, c', post, by simp, Valid.cons hc hpre, hc', hpost, ?_, ?_⟩ <;> simp <;> omega

/-! ### The backward scan -/

section Scan

variable (s : Nat → UInt8) (len : Nat)

/-- The scan stops at `j` when every byte from `j` up to `lead` keeps it going and the byte
before `j` (if any) does not. -/
theorem scanLead_eq {j : Nat} : ∀ lead, j ≤ lead →
    (∀ i, j ≤ i → i < lead → len - (i + 1) < 3 ∧ utf8IsContinuation (s i) = true) →
    (j = 0 ∨ ¬(len - j < 3 ∧ utf8IsContinuation (s (j - 1)) = true)) → scanLead s len lead = j
  | 0, hj, _, _ => by rw [scanLead]; omega
  | lead + 1, hj, hrun, hstop => by
    rcases Nat.eq_or_lt_of_le hj with rfl | hlt
    · rw [scanLead, if_neg (by simpa using hstop)]
    · rw [scanLead, if_pos (hrun lead (by omega) (by omega))]
      exact scanLead_eq lead (by omega) (fun i h₁ h₂ => hrun i h₁ (by omega)) hstop

/-- Where the scan stops: below `lead`, after only continuation bytes within three of `len`,
and at the start of `s` or at a byte that stops it. -/
theorem scanLead_spec : ∀ lead, scanLead s len lead ≤ lead ∧
    (∀ i, scanLead s len lead ≤ i → i < lead → len - (i + 1) < 3 ∧ utf8IsContinuation (s i) = true) ∧
    (scanLead s len lead = 0 ∨
      ¬(len - scanLead s len lead < 3 ∧ utf8IsContinuation (s (scanLead s len lead - 1)) = true))
  | 0 => by simp [scanLead]
  | lead + 1 => by
    by_cases hc : len - (lead + 1) < 3 ∧ utf8IsContinuation (s lead) = true
    · obtain ⟨hle, hrun, hstop⟩ := scanLead_spec lead
      rw [scanLead, if_pos hc]
      refine ⟨by omega, fun i h₁ h₂ => ?_, hstop⟩
      rcases Nat.lt_succ_iff_lt_or_eq.1 h₂ with h | rfl
      · exact hrun i h₁ h
      · exact hc
    · rw [scanLead, if_neg hc]
      exact ⟨le_rfl, fun i h₁ h₂ => absurd h₂ (by omega), .inr (by simpa using hc)⟩

end Scan

/-! ### Any bytes: only an incomplete tail goes -/

/-- `utf8_trim_partial` keeps `len`, or cuts at most three bytes, and then what it cuts is an
incomplete trailing sequence. -/
theorem utf8TrimPartial_cases (s : Nat → UInt8) (len : Nat) :
    utf8TrimPartial s len = len ∨
      len - 3 ≤ utf8TrimPartial s len ∧ IncompleteTail s len (utf8TrimPartial s len) := by
  obtain ⟨hle, hrun, -⟩ := scanLead_spec s len len
  unfold utf8TrimPartial
  dsimp only
  split_ifs with h0 hcut
  · exact .inl rfl
  · have h4 := expectedLength_le (s (scanLead s len len - 1))
    refine .inr ⟨by omega, by omega, hcut.1, fun i h₁ h₂ => (hrun i (by omega) h₂).2, hcut.2⟩
  · exact .inl rfl

/-- An incomplete trailing sequence is exactly what `utf8_trim_partial` cuts. -/
theorem utf8TrimPartial_of_incompleteTail {s : Nat → UInt8} {len r : Nat} (h : IncompleteTail s len r) :
    utf8TrimPartial s len = r := by
  obtain ⟨hr, hlead, hcont, hshort⟩ := h
  have h4 := expectedLength_le (s r)
  have hscan : scanLead s len len = r + 1 :=
    scanLead_eq s len len (by omega) (fun i h₁ h₂ => ⟨by omega, hcont i (by omega) h₂⟩)
      (.inr fun h => by simp [utf8IsContinuation_of_ge _ hlead] at h)
  unfold utf8TrimPartial
  simp only [hscan, Nat.add_sub_cancel]
  rw [if_neg (by omega), if_pos ⟨hlead, hshort⟩]

/-! ### Valid strings: the largest boundary at or below `k` -/

theorem boundary_zero {t : List UInt8} (ht : Valid t) : Boundary t 0 := by
  simpa [Boundary] using ⟨Valid.nil, ht⟩

theorem bytesOf_mid (pre c post : List UInt8) {i : Nat} (hi : i < c.length) :
    bytesOf (pre ++ c ++ post) (pre.length + i) = c.getD i 0 := by
  simp [bytesOf, List.getD_eq_getElem?_getD, List.append_assoc, List.getElem?_append_right,
    List.getElem?_append_left hi]

/-- No boundary falls strictly inside a character. -/
theorem not_boundary_inside {pre c post : List UInt8} (hc : Utf8Char c) {j : Nat}
    (h₁ : pre.length < j) (h₂ : j < pre.length + c.length) : ¬Boundary (pre ++ c ++ post) j := by
  rintro ⟨-, hv⟩
  obtain ⟨a, rest, rfl, -, -, -, hrest⟩ := hc.shape
  obtain ⟨m, rfl⟩ : ∃ m, j = pre.length + 1 + m := ⟨j - pre.length - 1, by omega⟩
  have hm : m < rest.length := by simp at h₂; omega
  have hdrop : (pre ++ (a :: rest) ++ post).drop (pre.length + 1 + m) =
      rest[m] :: (rest.drop (m + 1) ++ post) := by
    rw [List.append_assoc, List.drop_append, List.drop_eq_nil_of_le (by omega), List.nil_append,
      show pre.length + 1 + m - pre.length = m + 1 by omega, List.cons_append, List.drop_succ_cons,
      List.drop_append_of_le_length hm.le, List.drop_eq_getElem_cons hm, List.cons_append]
  rw [hdrop] at hv
  have hhead := hv.head_not_continuation
  rw [hrest _ (List.getElem_mem hm)] at hhead
  exact Bool.noConfusion hhead

/-- Once the scan has stopped just after `p`, the lead byte at `p` decides. -/
theorem utf8TrimPartial_of_scanLead {s : Nat → UInt8} {len p : Nat} (h : scanLead s len len = p + 1) :
    utf8TrimPartial s len = if 0xC0 ≤ s p ∧ len - p < expectedLength (s p) then p else len := by
  simp [utf8TrimPartial, h]

theorem boundary_split {pre post : List UInt8} (hpre : Valid pre) (hpost : Valid post) :
    Boundary (pre ++ post) pre.length := by
  simpa [Boundary] using ⟨hpre, hpost⟩

/-- From a valid string, `utf8_trim_partial` at `k ≤ |t|` returns the largest codepoint
boundary at or below `k`. -/
theorem utf8TrimPartial_largest_boundary {t : List UInt8} (ht : Valid t) {k : Nat} (hk : k ≤ t.length) :
    Boundary t (utf8TrimPartial (bytesOf t) k) ∧ utf8TrimPartial (bytesOf t) k ≤ k ∧
      ∀ j, Boundary t j → j ≤ k → j ≤ utf8TrimPartial (bytesOf t) k := by
  rcases Nat.eq_zero_or_pos k with rfl | hk0
  · have h0 : utf8TrimPartial (bytesOf t) 0 = 0 := by simp [utf8TrimPartial, scanLead]
    rw [h0]
    exact ⟨boundary_zero ht, le_rfl, fun j _ hj => hj⟩
  -- `k` falls in, or ends, the character `a :: rest` after `pre`
  obtain ⟨pre, c, post, rfl, hpre, hc, hpost, h₁, h₂⟩ := ht.split_at hk0 hk
  obtain ⟨a, rest, rfl, ha, hlen, hlead, hrest⟩ := hc.shape
  have hlen4 : (a :: rest).length ≤ 4 := hlen ▸ expectedLength_le a
  have hread : bytesOf (pre ++ a :: rest ++ post) pre.length = a := by
    simpa using bytesOf_mid pre (a :: rest) post (i := 0) (by simp)
  -- the scan runs back over the continuation bytes before `k` to the lead byte
  have hscan : scanLead (bytesOf (pre ++ a :: rest ++ post)) k k = pre.length + 1 := by
    refine scanLead_eq _ k k (by omega) (fun i hi₁ hi₂ => ⟨by omega, ?_⟩) (.inr ?_)
    · obtain ⟨m, rfl⟩ : ∃ m, i = pre.length + (m + 1) := ⟨i - pre.length - 1, by omega⟩
      have hm : m < rest.length := by simp at h₂; omega
      rw [bytesOf_mid _ _ _ (by simp; omega)]
      simpa [List.getD_eq_getElem?_getD, hm] using hrest _ (List.getElem_mem hm)
    · rw [Nat.add_sub_cancel, hread, ha]
      simp
  rw [utf8TrimPartial_of_scanLead hscan, hread, hlen]
  rcases Nat.eq_or_lt_of_le h₂ with hend | hin
  · -- `k` ends the character: nothing to cut
    rw [if_neg (by omega)]
    refine ⟨?_, le_rfl, fun j _ hj => hj⟩
    simpa [hend, List.append_assoc] using boundary_split (hpre.append (Valid.cons hc .nil)) hpost
  · -- `k` is inside the character: cut back to its start
    have hrest0 : rest ≠ [] := fun h => by simp [h] at hin; omega
    rw [if_pos ⟨hlead hrest0, by omega⟩]
    refine ⟨by simpa [List.append_assoc] using boundary_split hpre (Valid.cons hc hpost), by omega,
      fun j hj hjk => ?_⟩
    by_contra hlt
    exact not_boundary_inside hc (by omega) (by omega) hj

example : utf8TrimPartial (bytesOf [0x41, 0xE2, 0x82, 0xAC]) 3 = 1 := by decide
example : utf8TrimPartial (bytesOf [0x80, 0x80, 0x80, 0x80]) 4 = 4 := by decide

/-- `utf8_trim_partial` cuts exactly the incomplete tail: on a valid string at `k ≤ |t|` it
returns the largest codepoint boundary at or below `k`; on any bytes it keeps `len` or cuts
at most three bytes, and it cuts them exactly when they form an incomplete trailing sequence. -/
theorem utf8_trim_partial_cuts_incomplete_tail :
    (∀ t : List UInt8, Valid t → ∀ k ≤ t.length,
      Boundary t (utf8TrimPartial (bytesOf t) k) ∧ utf8TrimPartial (bytesOf t) k ≤ k ∧
        ∀ j, Boundary t j → j ≤ k → j ≤ utf8TrimPartial (bytesOf t) k) ∧
    ∀ (s : Nat → UInt8) (len : Nat),
      (utf8TrimPartial s len = len ∨
        len - 3 ≤ utf8TrimPartial s len ∧ IncompleteTail s len (utf8TrimPartial s len)) ∧
      ∀ r, IncompleteTail s len r → utf8TrimPartial s len = r :=
  ⟨fun _ ht _ hk => utf8TrimPartial_largest_boundary ht hk,
    fun s len => ⟨utf8TrimPartial_cases s len, fun _ h => utf8TrimPartial_of_incompleteTail h⟩⟩

/-- "A€" cut after its third byte: the euro sign's first two bytes go. -/
theorem utf8_trim_partial_cuts_euro :
    Valid [0x41, 0xE2, 0x82, 0xAC] ∧ Boundary [0x41, 0xE2, 0x82, 0xAC] 1 ∧
      ∀ j, Boundary [0x41, 0xE2, 0x82, 0xAC] j → j ≤ 3 → j ≤ 1 := by
  have hv : Valid [0x41, 0xE2, 0x82, 0xAC] :=
    Valid.cons (c := [0x41]) (.one (by decide))
      (Valid.cons (c := [0xE2, 0x82, 0xAC]) (.e1ec (by decide) (by decide) ⟨by decide, by decide⟩
        ⟨by decide, by decide⟩) .nil)
  have h := utf8_trim_partial_cuts_incomplete_tail.1 _ hv 3 (by decide)
  have hval : utf8TrimPartial (bytesOf [0x41, 0xE2, 0x82, 0xAC]) 3 = 1 := by decide
  rw [hval] at h
  exact ⟨hv, h.1, h.2.2⟩

end Archipelago.Ktl
