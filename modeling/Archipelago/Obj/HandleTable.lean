import Archipelago.Obj.Types
import Archipelago.Lib.Chain
import Archipelago.Lib.Slots

/-! The per-task handle table (`obj/handle_table.cpp`). Slots sit in a vector; each has
a generation counter and, while dead, a link `next_free` of the free list that starts
at `m_free_head` (`-1` ends it). A `HandleId` names a slot together with the
generation the slot had when the handle was made. Releasing a slot bumps its
generation, so every older handle stops matching; a slot whose generation has reached
`MAX_GENERATION` is retired instead of recycled.

Modelling choices: the vector is a `List` read with `getD` (a fresh slot is the
default entry); the source's `object` (marks the slot live) and `strong` (the table's
reference) are set and cleared together, so they are one field; the lock is dropped,
each call being one atomic step; the allocator behind `grow`'s `push_back` is the
number `room` of slots it manages to add before failing. -/

namespace Archipelago.Obj

open Archipelago.Lib

/-- `MAX_GENERATION`: a slot whose generation reaches it is never recycled. -/
def maxGeneration : Nat := 0x7FFFFFFF

/-- `HandleTable::GROW_BATCH`. -/
def growBatch : Nat := 32

/-- `HandleId`: slot index and generation (both uint32_t). -/
structure HandleId where
  index : Nat
  generation : Nat
  deriving DecidableEq, Repr

/-- `VerifiedHandle`: the object reference and the rights the handle carries. -/
structure VerifiedHandle where
  object : Object
  rights : Rights
  deriving DecidableEq, Repr

/-- `HandleTable::HandleEntry`, with the source's default member values. -/
structure HandleEntry where
  object : Option Object := none
  rights : Rights := 0
  generation : Nat := 0
  nextFree : Int := -1
  deriving DecidableEq, Repr

/-- The slot `grow` pushes (`HandleEntry entry;`), also what the model reads past the
end of the vector. -/
def HandleEntry.fresh : HandleEntry := {}

/-- `HandleTable`: `m_entries`, `m_count`, `m_free_head`. -/
structure HandleTable where
  entries : List HandleEntry := []
  count : Nat := 0
  freeHead : Int := -1
  deriving DecidableEq, Repr

namespace HandleTable

/-- `m_entries[i]`. -/
def entry (t : HandleTable) (i : Nat) : HandleEntry := t.entries.getD i .fresh

/-- The loop shared by `grow` and `clear`: visit slots `lo + k - 1` down to `lo`, link
each slot that `keep` accepts in front of the free list and unlink the others, so the
accepted slots end up on the list in ascending order. -/
def linkDown (keep : HandleEntry → Bool) (lo : Nat) :
    Nat → List HandleEntry → Int → List HandleEntry × Int
  | 0, es, head => (es, head)
  | k + 1, es, head =>
      let e := es.getD (lo + k) .fresh
      if keep e then linkDown keep lo k (es.set (lo + k) { e with nextFree := head }) (lo + k)
      else linkDown keep lo k (es.set (lo + k) { e with nextFree := -1 }) head

/-- `HandleTable::grow`: push `GROW_BATCH` empty slots and chain them, in ascending
order, in front of the free list. When `push_back` fails after `room` slots the pushed
slots stay in the vector, unlinked. -/
def grow (t : HandleTable) (room : Nat) : HandleTable × Except Errc Unit :=
  if room < growBatch then
    ({ t with entries := t.entries ++ List.replicate room .fresh }, .error .oom)
  else
    let r := linkDown (fun _ => true) t.entries.length growBatch
      (t.entries ++ List.replicate growBatch .fresh) t.freeHead
    ({ t with entries := r.1, freeHead := r.2 }, .ok ())

/-- `HandleTable::lookup_entry`: the slot, if the index is in range, the generation
matches and the slot is live. -/
def lookupEntry (t : HandleTable) (id : HandleId) : Option HandleEntry :=
  if id.index < t.entries.length then
    if (t.entry id.index).generation ≠ id.generation then none
    else if (t.entry id.index).object.isNone then none
    else some (t.entry id.index)
  else none

/-- The tail of `create_handle`: pop the free head and make it live. -/
def popFree (t : HandleTable) (o : Object) (rights : Rights) :
    HandleTable × Except Errc HandleId :=
  let slot := t.freeHead.toNat
  let e := t.entry slot
  ({ entries := t.entries.set slot { e with object := some o, rights := rights, nextFree := -1 }
     count := t.count + 1
     freeHead := e.nextFree },
   .ok ⟨slot, e.generation⟩)

/-- `HandleTable::create_handle`: the rights must stay within the type's registered
`valid_rights`; an empty free list is grown first. -/
def createHandle (t : HandleTable) (reg : TypeRegistry) (object : Option Object)
    (rights : Rights) (room : Nat) : HandleTable × Except Errc HandleId :=
  match object with
  | none => (t, .error .nullArgument)
  | some o =>
      match reg.lookup o.typeId with
      | none => (t, .error .wrongType)
      | some d =>
          if rights &&& ~~~d.validRights ≠ 0 then (t, .error .rightsViolation)
          else
            let g := if t.freeHead = -1 then t.grow room else (t, .ok ())
            match g.2 with
            | .error e => (g.1, .error e)
            | .ok () => g.1.popFree o rights

/-- `HandleTable::insert`. -/
def insert (t : HandleTable) (reg : TypeRegistry) (object : Option Object) (rights : Rights)
    (room : Nat) : HandleTable × Except Errc HandleId :=
  t.createHandle reg object rights room

/-- `HandleTable::emplace`: `object` is what `make_ref` returned (`none` when the
allocation failed). -/
def emplace (t : HandleTable) (reg : TypeRegistry) (object : Option Object) (rights : Rights)
    (room : Nat) : HandleTable × Except Errc HandleId :=
  match object with
  | none => (t, .error .oom)
  | some o => t.createHandle reg (some o) rights room

/-- The release shared by `take` and `clear`: drop the reference and the rights and
bump the generation unless it is saturated. -/
def releaseEntry (e : HandleEntry) : HandleEntry :=
  { e with
    object := none
    rights := 0
    generation := if e.generation ≠ maxGeneration then e.generation + 1 else e.generation }

/-- `HandleTable::clear`: close every live slot, then rebuild the free list over the
dead, non-retired slots in ascending order. -/
def clear (t : HandleTable) : HandleTable :=
  let es := t.entries.map fun e => if e.object.isSome then releaseEntry e else e
  let r := linkDown (fun e => e.object.isNone && e.generation != maxGeneration) 0
    es.length es (-1)
  { entries := r.1
    count := t.count - t.entries.countP fun e => e.object.isSome
    freeHead := r.2 }

/-- `HandleTable::take`: remove a live entry, handing its reference and rights to the
caller; a saturated slot is retired, any other goes back on the free list. -/
def take (t : HandleTable) (id : HandleId) : HandleTable × Except Errc VerifiedHandle :=
  match t.lookupEntry id with
  | none => (t, .error .handleInvalid)
  | some e =>
      match e.object with
      | none => (t, .error .handleInvalid)
      | some o =>
          let retire := e.generation = maxGeneration
          ({ entries := t.entries.set id.index
                { releaseEntry e with nextFree := if retire then -1 else t.freeHead }
             count := t.count - 1
             freeHead := if retire then t.freeHead else id.index },
           .ok ⟨o, e.rights⟩)

/-- `HandleTable::close`: `take`, dropping the reference. -/
def close (t : HandleTable) (id : HandleId) : HandleTable × Except Errc Unit :=
  let r := t.take id
  (r.1, r.2.map fun _ => ())

/-- `HandleTable::duplicate`: the source must carry `RIGHT_DUPLICATE`; the copy carries
the source's rights masked by `rights_mask`. -/
def duplicate (t : HandleTable) (reg : TypeRegistry) (source : HandleId) (mask : Rights)
    (room : Nat) : HandleTable × Except Errc HandleId :=
  match t.lookupEntry source with
  | none => (t, .error .handleInvalid)
  | some e =>
      match e.object with
      | none => (t, .error .handleInvalid)
      | some o =>
          if e.rights &&& rightDuplicate = 0 then (t, .error .rightsViolation)
          else t.createHandle reg (some o) (e.rights &&& mask) room

/-- `HandleTable::verify`: lookup, then type, then rights, reported in that order.
`expected` `type_ids::INVALID` accepts any type. -/
def verify (t : HandleTable) (id : HandleId) (required : Rights) (expected : TypeId) :
    Except Errc VerifiedHandle :=
  match t.lookupEntry id with
  | none => .error .handleInvalid
  | some e =>
      match e.object with
      | none => .error .handleInvalid
      | some o =>
          if expected ≠ type_ids.INVALID ∧ o.typeId ≠ expected then .error .wrongType
          else if e.rights &&& required ≠ required then .error .rightsViolation
          else .ok ⟨o, e.rights⟩

/-- `HandleTable::get<T>`: `verify` against `T::TYPE_ID`, keeping the object. -/
def get (t : HandleTable) (id : HandleId) (required : Rights) (typeId : TypeId) :
    Except Errc Object :=
  (t.verify id required typeId).map VerifiedHandle.object

/-- `HandleTable::is_valid`. -/
def isValid (t : HandleTable) (id : HandleId) : Bool := (t.lookupEntry id).isSome

/-! ## Slot reads after writes -/

@[simp] theorem entry_set (t : HandleTable) (i j : Nat) (e : HandleEntry) :
    (t.entries.set i e).getD j .fresh = if i = j ∧ i < t.entries.length then e else t.entry j :=
  getD_set _ _ _ _ _

/-- The three checks of `lookup_entry` as one condition. -/
theorem lookupEntry_eq (t : HandleTable) (id : HandleId) :
    t.lookupEntry id =
      if id.index < t.entries.length ∧ (t.entry id.index).generation = id.generation ∧
          (t.entry id.index).object.isSome
      then some (t.entry id.index) else none := by
  unfold lookupEntry
  by_cases hi : id.index < t.entries.length <;>
    by_cases hg : (t.entry id.index).generation = id.generation <;>
    cases ho : (t.entry id.index).object <;> simp_all

theorem lookupEntry_eq_some {t : HandleTable} {id : HandleId} {e : HandleEntry} :
    t.lookupEntry id = some e ↔
      id.index < t.entries.length ∧ t.entry id.index = e ∧ e.generation = id.generation ∧
        e.object.isSome := by
  rw [lookupEntry_eq]
  constructor
  · intro h
    split at h
    · obtain ⟨hi, hg, ho⟩ := ‹_ ∧ _›
      cases h
      exact ⟨hi, rfl, hg, ho⟩
    · cases h
  · rintro ⟨hi, rfl, hg, ho⟩
    simp [hi, hg, ho]

theorem lookupEntry_eq_none {t : HandleTable} {id : HandleId} :
    t.lookupEntry id = none ↔
      id.index < t.entries.length → (t.entry id.index).generation = id.generation →
        (t.entry id.index).object = none := by
  rw [lookupEntry_eq]
  by_cases hi : id.index < t.entries.length <;>
    by_cases hg : (t.entry id.index).generation = id.generation <;>
    cases ho : (t.entry id.index).object <;> simp_all

/-! ## The free-list loop -/

/-- `next_free` read as the link of a chain over slot indices. -/
def nextOf (es : List HandleEntry) (x : Int) : Int := (es.getD x.toNat .fresh).nextFree

/-- The slots of `[lo, lo + k)` that `linkDown` links, in ascending order. -/
def keptSlots (keep : HandleEntry → Bool) (es : List HandleEntry) (lo k : Nat) : List Int :=
  ((List.range k).filter fun j => keep (es.getD (lo + j) .fresh)).map fun j => ((lo + j : Nat) : Int)

theorem linkDown_length (keep : HandleEntry → Bool) (lo k : Nat) (es : List HandleEntry)
    (head : Int) : (linkDown keep lo k es head).1.length = es.length := by
  induction k generalizing es head with
  | zero => rfl
  | succ k ih =>
      simp only [linkDown]
      split <;> rw [ih, List.length_set]

/-- The loop writes only links: object, rights and generation of every slot stay. -/
theorem linkDown_getD (keep : HandleEntry → Bool) (lo k : Nat) (es : List HandleEntry)
    (head : Int) (j : Nat) :
    ((linkDown keep lo k es head).1.getD j .fresh).object = (es.getD j .fresh).object ∧
    ((linkDown keep lo k es head).1.getD j .fresh).rights = (es.getD j .fresh).rights ∧
    ((linkDown keep lo k es head).1.getD j .fresh).generation = (es.getD j .fresh).generation := by
  induction k generalizing es head with
  | zero => exact ⟨rfl, rfl, rfl⟩
  | succ k ih =>
      simp only [linkDown]
      split <;>
      · obtain ⟨h1, h2, h3⟩ := ih (es.set (lo + k) _) _
        rw [h1, h2, h3, getD_set]
        split
        · rename_i h; obtain ⟨rfl, -⟩ := h; exact ⟨rfl, rfl, rfl⟩
        · exact ⟨rfl, rfl, rfl⟩

theorem keptSlots_set {keep : HandleEntry → Bool} {es : List HandleEntry} {lo k : Nat}
    (e : HandleEntry) : keptSlots keep (es.set (lo + k) e) lo k = keptSlots keep es lo k := by
  unfold keptSlots
  congr 1
  apply List.filter_congr
  intro j hj
  rw [getD_set_ne _ _ _ (by simp at hj; omega)]

theorem keptSlots_succ (keep : HandleEntry → Bool) (es : List HandleEntry) (lo k : Nat) :
    keptSlots keep es lo (k + 1) =
      keptSlots keep es lo k ++ if keep (es.getD (lo + k) .fresh) then [((lo + k : Nat) : Int)] else [] := by
  unfold keptSlots
  rw [List.range_succ, List.filter_append, List.map_append]
  cases h : keep (es.getD (lo + k) .fresh) <;>
    simp only [List.filter_cons, List.filter_nil, h, Bool.false_eq_true, ↓reduceIte,
      List.map_nil, List.map_cons]

/-- **The loop's free list.** Started from a chain `old` whose slots lie outside
`[lo, lo + k)`, `linkDown` leaves the kept slots of `[lo, lo + k)` in ascending
order in front of `old`. -/
theorem linkDown_chain {keep : HandleEntry → Bool}
    (hkeep : ∀ e f, keep { e with nextFree := f } = keep e) {lo : Nat} :
    ∀ {k : Nat} {es : List HandleEntry} {head : Int} {old : List Int},
      lo + k ≤ es.length → Chain (nextOf es) (-1) head old →
      (∀ x ∈ old, 0 ≤ x ∧ (x.toNat < lo ∨ lo + k ≤ x.toNat)) →
      Chain (nextOf (linkDown keep lo k es head).1) (-1) (linkDown keep lo k es head).2
        (keptSlots keep es lo k ++ old)
  | 0, _, _, _, _, hc, _ => by simpa [linkDown, keptSlots] using hc
  | k + 1, es, head, old, hk, hc, hold => by
      have hlt : lo + k < es.length := by omega
      -- links of `old` are outside the written slot
      have hframe : ∀ f : Int, ∀ x ∈ old,
          nextOf (es.set (lo + k) { es.getD (lo + k) .fresh with nextFree := f }) x = nextOf es x := by
        intro f x hx
        obtain ⟨-, hout⟩ := hold x hx
        simp only [nextOf]
        rw [getD_set_ne _ _ _ (by omega)]
      have hold' : ∀ x ∈ old, 0 ≤ x ∧ (x.toNat < lo ∨ lo + k ≤ x.toNat) := by
        intro x hx
        obtain ⟨h0, h⟩ := hold x hx
        exact ⟨h0, by omega⟩
      simp only [linkDown, keptSlots_succ]
      split
      · rename_i hkept
        have hpush : Chain (nextOf (es.set (lo + k) { es.getD (lo + k) .fresh with nextFree := head }))
            (-1) ((lo + k : Nat) : Int) (((lo + k : Nat) : Int) :: old) :=
          Chain.push hc (by omega)
            (by rw [nextOf, Int.toNat_natCast, getD_set_self _ _ _ hlt]) (hframe head)
        have := linkDown_chain hkeep (k := k) (by simpa using hk.trans' (Nat.le_succ _)) hpush
          (by
            intro x hx
            simp only [List.mem_cons] at hx
            rcases hx with rfl | hx
            · exact ⟨by omega, by omega⟩
            · exact hold' x hx)
        simpa [keptSlots_set, hkept] using this
      · rename_i hkept
        have hsame := hc.frame (hframe (-1))
        have := linkDown_chain hkeep (k := k) (by simpa using hk.trans' (Nat.le_succ _)) hsame hold'
        simpa [keptSlots_set, hkept] using this

end HandleTable

end Archipelago.Obj
