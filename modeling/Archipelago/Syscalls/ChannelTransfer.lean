import Archipelago.Obj.HandleRights
import Archipelago.Syscalls.Channel

/-! What the channel syscalls do to the handles, read through `resolve` and `holdings`.
The unit of work in both loops is one move: `take` a handle out of one task's table and
insert its reference into another's (`Moved`), or lose the reference when the insert
fails (`Dropped`). The loops' invariants are stated over whole prefixes of the handle
list, and `Transfers` is the frame the syscalls' specifications use: every handle of
every task resolves as before, except the ones taken out and the fresh ones put in. -/

namespace Archipelago.Obj.HandleTable

/-- A handle no call has issued yet: neither live nor stale. -/
def Unissued (t : HandleTable) (id : HandleId) : Prop := t.isValid id = false ∧ ¬t.Stale id

theorem Unissued.resolve_eq_none {t : HandleTable} {id : HandleId} (h : t.Unissued id) :
    t.resolve id = none :=
  resolve_eq_none_iff.2 h.1

/-- A handle not issued now was not issued earlier either. -/
theorem Unissued.of_evolves {t t' : HandleTable} {id : HandleId} (he : t.Evolves t')
    (h : t'.Unissued id) : t.Unissued id := by
  constructor
  · cases hv : t.isValid id with
    | false => rfl
    | true =>
      rcases he.valid id hv with hv' | hs'
      · rw [h.1] at hv'; cases hv'
      · exact absurd hs' h.2
  · exact fun hs => h.2 (hs.evolves he)

theorem Stale.resolve_eq_none {t : HandleTable} {id : HandleId} (h : t.Stale id) :
    t.resolve id = none := by
  rw [resolve, h.lookupEntry_eq_none]
  rfl

theorem Unissued.ne {t : HandleTable} {id id' : HandleId} (h : t.Unissued id)
    (h' : t.isValid id' = true ∨ t.Stale id') : id' ≠ id := by
  rintro rfl
  rcases h' with hv | hs
  · rw [h.1] at hv; cases hv
  · exact h.2 hs

/-- An issued handle stays issued: live, or stale once released. -/
theorem Evolves.issued {t t' : HandleTable} {id : HandleId} (he : t.Evolves t')
    (h : t.isValid id = true ∨ t.Stale id) : t'.isValid id = true ∨ t'.Stale id := by
  rcases h with hv | hs
  · exact he.valid id hv
  · exact .inr (hs.evolves he)

/-- The id `create_handle` returns was not issued before. -/
theorem createHandle_unissued {t t' : HandleTable} {reg : TypeRegistry} {object : Option Object}
    {rights : Rights} {room : Nat} {id : HandleId} (h : t.WellFormed)
    (hc : t.createHandle reg object rights room = (t', .ok id)) : t.Unissued id := by
  have hfresh := (createHandle_fresh h hc).2
  constructor
  · cases hv : t.isValid id with
    | false => rfl
    | true => exact absurd rfl (hfresh id (.inl hv))
  · exact fun hs => hfresh id (.inr hs) rfl

/-- An insert, successful or not, evolves the table and keeps it well formed. -/
theorem insert_evolves {t t' : HandleTable} {reg : TypeRegistry} {object : Option Object}
    {rights : Rights} {room : Nat} {r : Except Errc HandleId} (h : t.WellFormed)
    (hc : t.insert reg object rights room = (t', r)) : t.Evolves t' ∧ t'.WellFormed := by
  have he := createHandle_evolves h reg object rights room
  have hw := createHandle_wellFormed h reg object rights room
  unfold insert at hc
  rw [hc] at he hw
  exact ⟨he, hw⟩

theorem take_error_resolve {t t' : HandleTable} {id : HandleId} {e : Errc}
    (h : t.take id = (t', .error e)) : t.resolve id = none := by
  cases hlk : t.lookupEntry id with
  | none => simp [resolve, hlk]
  | some e' =>
    obtain ⟨o, ho⟩ := Option.isSome_iff_exists.1 (lookupEntry_eq_some.1 hlk).2.2.2
    rw [take_of_some hlk ho] at h
    cases h

end Archipelago.Obj.HandleTable

namespace Archipelago.Syscalls

open Archipelago.Lib Archipelago.Obj

namespace ChannelWorld

variable {w : ChannelWorld}

theorem setTable_table (w : ChannelWorld) (k : Nat) : w.setTable k (w.table k) = w := by
  by_cases hk : k < w.tables.length
  · simp only [setTable, table, List.getD_eq_getElem _ _ hk, List.set_getElem_self hk]
  · simp only [setTable, List.set_eq_of_length_le (Nat.le_of_not_lt hk)]

/-- `w'` differs from `w` in what the tables hold only. -/
def TablesOnly (w w' : ChannelWorld) : Prop :=
  w' = { w with tables := w'.tables } ∧ w'.tables.length = w.tables.length

theorem TablesOnly.refl (w : ChannelWorld) : w.TablesOnly w := ⟨rfl, rfl⟩

theorem TablesOnly.trans {w₁ w₂ w₃ : ChannelWorld} (h₁ : w₁.TablesOnly w₂) (h₂ : w₂.TablesOnly w₃) :
    w₁.TablesOnly w₃ := by
  refine ⟨?_, h₂.2.trans h₁.2⟩
  rw [h₂.1, h₁.1]

theorem TablesOnly.setTable (w : ChannelWorld) (k : Nat) (t : HandleTable) :
    w.TablesOnly (w.setTable k t) :=
  ⟨rfl, length_setTable w k t⟩

theorem TablesOnly.releaseEscrow (w : ChannelWorld) (ids : List HandleId) :
    w.TablesOnly (w.releaseEscrow ids) :=
  TablesOnly.setTable w _ _

theorem TablesOnly.states_eq {w w' : ChannelWorld} (h : w.TablesOnly w') : w'.states = w.states := by
  rw [h.1]

theorem TablesOnly.state_eq {w w' : ChannelWorld} (h : w.TablesOnly w') (n : Nat) :
    w'.state n = w.state n := by
  rw [state, state, h.states_eq]

/-! ## One move -/

section Move

variable {src dst : Nat} {h x : HandleId} {t k : HandleTable} {moved : VerifiedHandle}
  {reg : TypeRegistry} {o : Object} {rights : Rights} {room : Nat}

/-- Taking a handle out of task `src`'s table: that handle alone stops resolving. -/
theorem resolve_setTable_take (hsrc : src < w.tables.length) (h : HandleId) (j : Nat)
    (id : HandleId) :
    ((w.setTable src ((w.table src).take h).1).table j).resolve id =
      if j = src ∧ id = h then none else (w.table j).resolve id := by
  rw [resolve_setTable, HandleTable.resolve_take]
  by_cases hj : src = j
  · subst hj
    rw [if_pos ⟨rfl, hsrc⟩, Function.update_apply]
    by_cases hid : id = h <;> simp [hid]
  · rw [if_neg (fun h' => hj h'.1), if_neg (fun h' => hj h'.1.symm)]

/-- A successful insert into task `dst`'s table: the new handle alone starts resolving. -/
theorem resolve_setTable_createHandle (hw : (w.table dst).WellFormed) (hdst : dst < w.tables.length)
    (hc : (w.table dst).createHandle reg (some o) rights room = (k, .ok x)) (j : Nat)
    (id : HandleId) :
    ((w.setTable dst k).table j).resolve id =
      if j = dst ∧ id = x then some (o, rights) else (w.table j).resolve id := by
  obtain ⟨o', ho', hres⟩ := HandleTable.resolve_createHandle_ok hw hc
  cases ho'
  rw [resolve_setTable]
  by_cases hj : dst = j
  · subst hj
    rw [if_pos ⟨rfl, hdst⟩, hres, Function.update_apply]
    by_cases hid : id = x <;> simp [hid]
  · rw [if_neg (fun h' => hj h'.1), if_neg (fun h' => hj h'.1.symm)]

/-- What moving handle `h` of task `src` into task `dst`, as the new handle `x`, does
for the reference `r` that `h` held. -/
structure Moved (w w' : ChannelWorld) (src : Nat) (h : HandleId) (dst : Nat) (x : HandleId)
    (r : Object × Rights) : Prop where
  source : (w.table src).resolve h = some r
  resolve : ∀ j id, (w'.table j).resolve id =
    if j = dst ∧ id = x then some r else if j = src ∧ id = h then none else (w.table j).resolve id
  unissued : (w.table dst).Unissued x
  valid : (w'.table dst).isValid x = true
  stale : (w'.table src).Stale h
  holdings : w'.holdings = w.holdings
  evolves : w.Evolves w'
  wellFormed : w'.WellFormed
  tablesOnly : w.TablesOnly w'

/-- What taking handle `h` of task `src` and then failing to insert its reference `r`
does: the handle is gone and so is the reference. -/
structure Dropped (w w' : ChannelWorld) (src : Nat) (h : HandleId) (r : Object × Rights) : Prop where
  source : (w.table src).resolve h = some r
  resolve : ∀ j id, (w'.table j).resolve id =
    if j = src ∧ id = h then none else (w.table j).resolve id
  stale : (w'.table src).Stale h
  holdings : w'.holdings + {r} = w.holdings
  evolves : w.Evolves w'
  wellFormed : w'.WellFormed
  tablesOnly : w.TablesOnly w'

/-- The first half of a move: the taken handle is stale and its reference has left
the tables. -/
theorem take_ok_world (hw : w.WellFormed) (hsrc : src < w.tables.length)
    (htake : (w.table src).take h = (t, .ok moved)) :
    let w₁ := w.setTable src t
    (w.table src).resolve h = some (moved.object, moved.rights) ∧
      (∀ j id, (w₁.table j).resolve id = if j = src ∧ id = h then none else (w.table j).resolve id) ∧
      (w₁.table src).Stale h ∧ w₁.holdings + {(moved.object, moved.rights)} = w.holdings ∧
      w.Evolves w₁ ∧ w₁.WellFormed := by
  have ht : t = ((w.table src).take h).1 := by rw [htake]
  subst ht
  have hr := HandleTable.take_ok_resolve htake
  obtain ⟨e, hlk, -, -⟩ := HandleTable.take_ok htake
  refine ⟨hr, resolve_setTable_take hsrc h, ?_, ?_, ?_, ?_⟩
  · rw [table_setTable_self w _ hsrc]
    exact HandleTable.take_stale (hw src) hlk
  · exact holdings_setTable_add_eq hsrc (HandleTable.holdings_take hr)
  · exact evolves_setTable (HandleTable.take_evolves (hw src) h)
  · exact hw.setTable (HandleTable.take_wellFormed (hw src)) src

theorem move_ok (hw : w.WellFormed) (hsrc : src < w.tables.length) (hdst : dst < w.tables.length)
    (htake : (w.table src).take h = (t, .ok moved))
    (hins : ((w.setTable src t).table dst).insert reg (some moved.object) moved.rights room =
      (k, .ok x)) :
    Moved w ((w.setTable src t).setTable dst k) src h dst x (moved.object, moved.rights) := by
  obtain ⟨hr, hres₁, hstale₁, hhold₁, hev₁, hwf₁⟩ := take_ok_world hw hsrc htake
  have hdst₁ : dst < (w.setTable src t).tables.length := by simpa using hdst
  have hins' := hins
  unfold HandleTable.insert at hins'
  have hev₂ : (w.setTable src t).Evolves ((w.setTable src t).setTable dst k) := by
    apply evolves_setTable
    have := HandleTable.createHandle_evolves (hwf₁ dst) reg (some moved.object) moved.rights room
    rwa [hins'] at this
  refine ⟨hr, ?_, ?_, ?_, hstale₁.evolves (hev₂ src), ?_, hev₁.trans hev₂, ?_, ?_⟩
  · intro j id
    rw [resolve_setTable_createHandle (hwf₁ dst) hdst₁ hins', hres₁]
  · exact (HandleTable.createHandle_unissued (hwf₁ dst) hins').of_evolves (hev₁ dst)
  · rw [table_setTable_self _ _ hdst₁]
    exact (HandleTable.createHandle_fresh (hwf₁ dst) hins').1
  · obtain ⟨o', ho', hh⟩ := HandleTable.holdings_createHandle_ok (hwf₁ dst) hins'
    cases ho'
    rw [holdings_setTable_of_eq_add hdst₁ hh, hhold₁]
  · apply hwf₁.setTable _ dst
    have := HandleTable.createHandle_wellFormed (hwf₁ dst) reg (some moved.object) moved.rights room
    rwa [hins'] at this
  · exact (TablesOnly.setTable _ _ _).trans (TablesOnly.setTable _ _ _)

theorem drop_ok (hw : w.WellFormed) (hsrc : src < w.tables.length) (hdst : dst < w.tables.length)
    (htake : (w.table src).take h = (t, .ok moved)) {e : Errc}
    (hins : ((w.setTable src t).table dst).insert reg (some moved.object) moved.rights room =
      (k, .error e)) :
    Dropped w ((w.setTable src t).setTable dst k) src h (moved.object, moved.rights) := by
  obtain ⟨hr, hres₁, hstale₁, hhold₁, hev₁, hwf₁⟩ := take_ok_world hw hsrc htake
  have hdst₁ : dst < (w.setTable src t).tables.length := by simpa using hdst
  have hins' := hins
  unfold HandleTable.insert at hins'
  -- a failed insert at most grows the table, which no handle sees
  have hk : k = (w.setTable src t).table dst ∨ k = (((w.setTable src t).table dst).grow room).1 :=
    HandleTable.createHandle_error hins'
  have hev₂ : (w.setTable src t).Evolves ((w.setTable src t).setTable dst k) := by
    apply evolves_setTable
    rcases hk with rfl | rfl
    exacts [.refl _, HandleTable.grow_evolves (hwf₁ dst) room]
  refine ⟨hr, ?_, hstale₁.evolves (hev₂ src), ?_, hev₁.trans hev₂, ?_, ?_⟩
  · intro j id
    rw [resolve_setTable, HandleTable.resolve_createHandle_error hins', ← resolve_setTable,
      setTable_table, hres₁]
  · rw [← hhold₁, holdings_setTable_of_eq_add hdst₁ (s := 0)
      (by rw [HandleTable.holdings_createHandle_error hins', add_zero]), add_zero]
  · apply hwf₁.setTable _ dst
    rcases hk with rfl | rfl
    exacts [hwf₁ dst, HandleTable.grow_wellFormed (hwf₁ dst) room]
  · exact (TablesOnly.setTable _ _ _).trans (TablesOnly.setTable _ _ _)

end Move

/-! ## The send loop -/

/-- Between `w` and `w'` the handles changed only as a transfer out of task `src` into
task `dst` changes them: every handle of every task resolves as before, except handles
in `removed` of `src`, which resolve to nothing now, and handles in `added` of `dst`,
which resolved to nothing before. -/
def Transfers (w w' : ChannelWorld) (src : Nat) (removed : List HandleId) (dst : Nat)
    (added : List HandleId) : Prop :=
  ∀ k id, (w'.table k).resolve id = (w.table k).resolve id ∨
    k = src ∧ id ∈ removed ∧ (w'.table k).resolve id = none ∨
    k = dst ∧ id ∈ added ∧ (w.table k).resolve id = none

/-- The escrow loop's invariant once the handles `done` of task `S` have been moved into
the kernel table as `attached`: the frame of the transfer, the moved handles stale, the
escrow handles issued now and fresh at the start, and each escrow handle holding the
reference of a moved handle, unless it was itself moved on (a kernel sender may name
it). -/
structure Escrowing (w₀ : ChannelWorld) (S : Nat) (w : ChannelWorld)
    (done attached : List HandleId) : Prop where
  wellFormed : w.WellFormed
  evolves : w₀.Evolves w
  tablesOnly : w₀.TablesOnly w
  transfers : w₀.Transfers w S done kernelTask attached
  taken : ∀ h ∈ done, (w.table S).Stale h
  issued : ∀ x ∈ attached, (w.table kernelTask).isValid x = true ∨ (w.table kernelTask).Stale x
  fresh : ∀ x ∈ attached, (w₀.table kernelTask).Unissued x
  nodup : attached.Nodup
  derived : ∀ x ∈ attached, (w.table kernelTask).resolve x = none ∨
    ∃ h ∈ done, (w.table kernelTask).resolve x = (w₀.table S).resolve h ∧
      (w₀.table S).resolve h ≠ none

namespace Escrowing

variable {w₀ : ChannelWorld} {S : Nat} {done attached : List HandleId}

theorem init (hw : w.WellFormed) (S : Nat) : Escrowing w S w [] [] where
  wellFormed := hw
  evolves := .refl w
  tablesOnly := .refl w
  transfers _ _ := .inl rfl
  taken := by simp
  issued := by simp
  fresh := by simp
  nodup := List.nodup_nil
  derived := by simp

/-- Dropping the message built so far: the escrow handles resolve to nothing again. -/
theorem release (e : Escrowing w₀ S w done attached) (hK : kernelTask < w₀.tables.length) :
    Escrowing w₀ S (w.releaseEscrow attached) done [] where
  wellFormed := e.wellFormed.releaseEscrow attached
  evolves := e.evolves.trans (evolves_releaseEscrow e.wellFormed attached)
  tablesOnly := e.tablesOnly.trans (.releaseEscrow _ _)
  transfers j id := by
    rw [resolve_releaseEscrow (e.tablesOnly.2 ▸ hK)]
    by_cases hx : j = kernelTask ∧ id ∈ attached
    · rw [if_pos hx]
      obtain ⟨rfl, hx⟩ := hx
      exact .inl (e.fresh id hx).resolve_eq_none.symm
    · rw [if_neg hx]
      rcases e.transfers j id with h | h | ⟨rfl, hin, -⟩
      · exact .inl h
      · exact .inr (.inl h)
      · exact absurd ⟨rfl, hin⟩ hx
  taken h hh := (e.taken h hh).evolves (evolves_releaseEscrow e.wellFormed attached S)
  issued := by simp
  fresh := by simp
  nodup := List.nodup_nil
  derived := by simp

/-- A handle taken whose reference the kernel table could not take. -/
theorem drop (e : Escrowing w₀ S w done attached) {w' : ChannelWorld} {h : HandleId}
    {r : Object × Rights} (d : Dropped w w' S h r) : Escrowing w₀ S w' (done ++ [h]) attached where
  wellFormed := d.wellFormed
  evolves := e.evolves.trans d.evolves
  tablesOnly := e.tablesOnly.trans d.tablesOnly
  transfers j id := by
    rw [d.resolve]
    by_cases hx : j = S ∧ id = h
    · rw [if_pos hx]
      obtain ⟨rfl, rfl⟩ := hx
      exact .inr (.inl ⟨rfl, by simp, rfl⟩)
    · rw [if_neg hx]
      rcases e.transfers j id with h | ⟨hj, hin, h0⟩ | h
      · exact .inl h
      · exact .inr (.inl ⟨hj, List.mem_append_left _ hin, h0⟩)
      · exact .inr (.inr h)
  taken h' hh := by
    rcases List.mem_append.1 hh with hh | hh
    · exact (e.taken h' hh).evolves (d.evolves S)
    · rw [List.mem_singleton.1 hh]
      exact d.stale
  issued x hx := (d.evolves kernelTask).issued (e.issued x hx)
  fresh := e.fresh
  nodup := e.nodup
  derived x hx := by
    rw [d.resolve]
    by_cases hy : kernelTask = S ∧ x = h
    · exact .inl (if_pos hy)
    · rw [if_neg hy]
      rcases e.derived x hx with h0 | ⟨h', hh', hr⟩
      · exact .inl h0
      · exact .inr ⟨h', List.mem_append_left _ hh', hr⟩

/-- A handle moved into the kernel table and attached. -/
theorem move (e : Escrowing w₀ S w done attached) {w' : ChannelWorld} {h x : HandleId}
    {r : Object × Rights} (m : Moved w w' S h kernelTask x r) :
    Escrowing w₀ S w' (done ++ [h]) (attached ++ [x]) where
  wellFormed := m.wellFormed
  evolves := e.evolves.trans m.evolves
  tablesOnly := e.tablesOnly.trans m.tablesOnly
  transfers j id := by
    rw [m.resolve]
    by_cases hx : j = kernelTask ∧ id = x
    · rw [if_pos hx]
      obtain ⟨rfl, rfl⟩ := hx
      exact .inr (.inr ⟨rfl, by simp, (m.unissued.of_evolves (e.evolves _)).resolve_eq_none⟩)
    rw [if_neg hx]
    by_cases hy : j = S ∧ id = h
    · rw [if_pos hy]
      obtain ⟨rfl, rfl⟩ := hy
      exact .inr (.inl ⟨rfl, by simp, rfl⟩)
    rw [if_neg hy]
    rcases e.transfers j id with h | ⟨hj, hin, h0⟩ | ⟨hj, hin, h0⟩
    · exact .inl h
    · exact .inr (.inl ⟨hj, List.mem_append_left _ hin, h0⟩)
    · exact .inr (.inr ⟨hj, List.mem_append_left _ hin, h0⟩)
  taken h' hh := by
    rcases List.mem_append.1 hh with hh | hh
    · exact (e.taken h' hh).evolves (m.evolves S)
    · rw [List.mem_singleton.1 hh]
      exact m.stale
  issued x' hx := by
    rcases List.mem_append.1 hx with hx | hx
    · exact (m.evolves kernelTask).issued (e.issued x' hx)
    · rw [List.mem_singleton.1 hx]
      exact .inl m.valid
  fresh x' hx := by
    rcases List.mem_append.1 hx with hx | hx
    · exact e.fresh x' hx
    · rw [List.mem_singleton.1 hx]
      exact m.unissued.of_evolves (e.evolves _)
  nodup := by
    refine List.nodup_append.2 ⟨e.nodup, List.nodup_singleton x, ?_⟩
    intro a ha b hb
    rw [List.mem_singleton.1 hb]
    exact m.unissued.ne (e.issued a ha)
  derived x' hx := by
    rw [m.resolve]
    rcases List.mem_append.1 hx with hx | hx
    · -- an earlier escrow handle: the new one is fresh, so it is not that
      rw [if_neg (fun h' => m.unissued.ne (e.issued x' hx) h'.2)]
      by_cases hy : kernelTask = S ∧ x' = h
      · exact .inl (if_pos hy)
      · rw [if_neg hy]
        rcases e.derived x' hx with h0 | ⟨h', hh', hr⟩
        · exact .inl h0
        · exact .inr ⟨h', List.mem_append_left _ hh', hr⟩
    · -- the new escrow handle holds what the moved handle held; that was the
      -- reference of a handle of the sender at the start, or of an earlier escrow
      rw [List.mem_singleton.1 hx, if_pos ⟨rfl, rfl⟩]
      right
      rcases e.transfers S h with h0 | ⟨-, -, h0⟩ | ⟨hS, hin, -⟩
      · exact ⟨h, by simp, by rw [← h0, m.source], by rw [← h0, m.source]; simp⟩
      · rw [m.source] at h0; cases h0
      · subst hS
        rcases e.derived h hin with h0 | ⟨h', hh', hr, hne⟩
        · rw [m.source] at h0; cases h0
        · exact ⟨h', List.mem_append_left _ hh', by rw [← hr, m.source], hne⟩

end Escrowing

/-- The escrow loop, by induction on the handles still to move: it ends with every
handle moved and the references all still held, or with a prefix of them taken, the
message dropped and nothing gained. -/
theorem sendLoop_spec {w₀ : ChannelWorld} {S : Nat} (hS : S < w₀.tables.length)
    (hK : kernelTask < w₀.tables.length) :
    ∀ (hs : List HandleId) (rooms : List Nat) (w : ChannelWorld) (done attached : List HandleId),
      Escrowing w₀ S w done attached → w.holdings = w₀.holdings →
      (∀ w' xs, sendLoop S w hs rooms attached = (w', .ok xs) →
        Escrowing w₀ S w' (done ++ hs) xs ∧ w'.holdings = w₀.holdings) ∧
      (∀ w' err, sendLoop S w hs rooms attached = (w', .error err) →
        ∃ taken, taken <+: hs ∧ Escrowing w₀ S w' (done ++ taken) [] ∧ w'.holdings ≤ w₀.holdings)
  | [], _, w, done, attached, he, hh => by
    refine ⟨fun w' xs hr => ?_, fun w' err hr => ?_⟩
    · simp only [sendLoop, Prod.mk.injEq, Except.ok.injEq] at hr
      obtain ⟨rfl, rfl⟩ := hr
      rw [List.append_nil]
      exact ⟨he, hh⟩
    · simp [sendLoop] at hr
  | h :: hs, rooms, w, done, attached, he, hh => by
    have hS' : S < w.tables.length := he.tablesOnly.2 ▸ hS
    have hK' : kernelTask < w.tables.length := he.tablesOnly.2 ▸ hK
    match htake : (w.table S).take h with
    | (t, .error _) =>
      -- the take failed: the table is as it was and the message so far is dropped
      rw [HandleTable.take_error htake] at htake
      refine ⟨fun w' xs hr => ?_, fun w' err hr => ?_⟩ <;>
        simp only [sendLoop, htake, setTable_table] at hr <;> cases hr
      refine ⟨[], List.nil_prefix, ?_, (holdings_releaseEscrow_le hK' _).trans hh.le⟩
      rw [List.append_nil]
      exact he.release hK
    | (t, .ok moved) =>
    match hins : ((w.setTable S t).table kernelTask).insert (w.setTable S t).registry
      (some moved.object) moved.rights (rooms.headD 0) with
    | (k, .error _) =>
      -- the kernel table could not take the reference: it is lost with the message
      have d := drop_ok he.wellFormed hS' hK' htake hins
      refine ⟨fun w' xs hr => ?_, fun w' err hr => ?_⟩ <;>
        simp only [sendLoop, htake, hins] at hr <;> cases hr
      have hle : ((w.setTable S t).setTable kernelTask k).holdings ≤ w.holdings := by
        rw [← d.holdings]
        exact Multiset.le_add_right _ _
      refine ⟨[h], (List.prefix_cons_inj h).2 List.nil_prefix, (he.drop d).release hK,
        (holdings_releaseEscrow_le (d.tablesOnly.2 ▸ hK') _).trans (hle.trans hh.le)⟩
    | (k, .ok x) =>
      have m := move_ok he.wellFormed hS' hK' htake hins
      have ih := sendLoop_spec hS hK hs rooms.tail _ (done ++ [h]) (attached ++ [x]) (he.move m)
        (m.holdings.trans hh)
      refine ⟨fun w' xs hr => ?_, fun w' err hr => ?_⟩ <;> simp only [sendLoop, htake, hins] at hr
      · have := ih.1 w' xs hr
        rwa [List.append_assoc, List.singleton_append] at this
      · obtain ⟨taken, hp, he', hle⟩ := ih.2 w' err hr
        refine ⟨h :: taken, (List.prefix_cons_inj h).2 hp, ?_, hle⟩
        rwa [List.append_assoc, List.singleton_append] at he'

/-- One escrow handle for each handle the loop moved. -/
theorem sendLoop_length (task : Nat) :
    ∀ (w : ChannelWorld) (hs : List HandleId) (rooms : List Nat) (attached : List HandleId)
      {w' : ChannelWorld} {xs : List HandleId},
      sendLoop task w hs rooms attached = (w', .ok xs) → xs.length = attached.length + hs.length
  | w, [], _, attached, _, _, hr => by
    simp only [sendLoop, Prod.mk.injEq, Except.ok.injEq] at hr
    rw [← hr.2, List.length_nil, Nat.add_zero]
  | w, h :: hs, rooms, attached, w', xs, hr => by
    unfold sendLoop at hr
    split at hr
    · cases hr
    · dsimp only at hr
      split at hr
      · cases hr
      · have := sendLoop_length task _ hs rooms.tail _ hr
        rw [this, List.length_append, List.length_singleton, List.length_cons]
        omega

/-! ## The delivery loop -/

/-- The delivery loop's invariant once the escrow handles `seen` have been handled:
the frame of the transfer, every seen escrow handle stale, the receiver's new handles
`delivered` issued now and fresh at the start, and each of them holding what one escrow
handle of `pairs`, in order, held at the start. -/
structure Delivering (w₀ : ChannelWorld) (R : Nat) (w : ChannelWorld)
    (seen delivered pairs : List HandleId) : Prop where
  wellFormed : w.WellFormed
  evolves : w₀.Evolves w
  tablesOnly : w₀.TablesOnly w
  transfers : w₀.Transfers w kernelTask seen R delivered
  gone : ∀ x ∈ seen, (w.table kernelTask).Stale x
  issued : ∀ y ∈ delivered, (w.table R).isValid y = true ∨ (w.table R).Stale y
  fresh : ∀ y ∈ delivered, (w₀.table R).Unissued y
  nodup : delivered.Nodup
  sublist : pairs.Sublist seen
  pairs : List.Forall₂ (fun y x => (w.table R).resolve y = (w₀.table kernelTask).resolve x ∧
    (w₀.table kernelTask).resolve x ≠ none) delivered pairs
  holdings : w.holdings ≤ w₀.holdings

namespace Delivering

variable {w₀ : ChannelWorld} {R : Nat} {seen delivered pairs : List HandleId} {x : HandleId}

theorem init (hw : w.WellFormed) (R : Nat) : Delivering w R w [] [] [] where
  wellFormed := hw
  evolves := .refl w
  tablesOnly := .refl w
  transfers _ _ := .inl rfl
  gone := by simp
  issued := by simp
  fresh := by simp
  nodup := List.nodup_nil
  sublist := List.Sublist.slnil
  pairs := .nil
  holdings := le_refl _

/-- A delivered handle is no escrow handle: one was fresh at the start, the other was
issued by then. -/
theorem ne_of_issued (d : Delivering w₀ R w seen delivered pairs) {y : HandleId}
    (hy : y ∈ delivered) (hx : (w₀.table kernelTask).isValid x = true ∨ (w₀.table kernelTask).Stale x)
    (hR : R = kernelTask) : y ≠ x := by
  subst hR
  exact fun h => (d.fresh y hy).ne hx h.symm

/-- An escrow handle already gone is skipped. -/
theorem skip (d : Delivering w₀ R w seen delivered pairs)
    (hx : (w₀.table kernelTask).isValid x = true ∨ (w₀.table kernelTask).Stale x)
    (hnone : (w.table kernelTask).resolve x = none) :
    Delivering w₀ R w (seen ++ [x]) delivered pairs where
  wellFormed := d.wellFormed
  evolves := d.evolves
  tablesOnly := d.tablesOnly
  transfers j id := by
    rcases d.transfers j id with h | ⟨hj, hin, h0⟩ | h
    · exact .inl h
    · exact .inr (.inl ⟨hj, List.mem_append_left _ hin, h0⟩)
    · exact .inr (.inr h)
  gone x' hx' := by
    rcases List.mem_append.1 hx' with hx' | hx'
    · exact d.gone x' hx'
    · rw [List.mem_singleton.1 hx']
      rcases (d.evolves kernelTask).issued hx with hv | hs
      · rw [HandleTable.resolve_eq_none_iff.1 hnone] at hv; cases hv
      · exact hs
  issued := d.issued
  fresh := d.fresh
  nodup := d.nodup
  sublist := d.sublist.trans (List.sublist_append_left _ _)
  pairs := d.pairs
  holdings := d.holdings

/-- An escrow handle whose reference the receiver's table could not take. -/
theorem drop (d : Delivering w₀ R w seen delivered pairs)
    (hx : (w₀.table kernelTask).isValid x = true ∨ (w₀.table kernelTask).Stale x)
    {w' : ChannelWorld} {r : Object × Rights} (dr : Dropped w w' kernelTask x r) :
    Delivering w₀ R w' (seen ++ [x]) delivered pairs where
  wellFormed := dr.wellFormed
  evolves := d.evolves.trans dr.evolves
  tablesOnly := d.tablesOnly.trans dr.tablesOnly
  transfers j id := by
    rw [dr.resolve]
    by_cases hy : j = kernelTask ∧ id = x
    · rw [if_pos hy]
      obtain ⟨rfl, rfl⟩ := hy
      exact .inr (.inl ⟨rfl, by simp, rfl⟩)
    · rw [if_neg hy]
      rcases d.transfers j id with h | ⟨hj, hin, h0⟩ | h
      · exact .inl h
      · exact .inr (.inl ⟨hj, List.mem_append_left _ hin, h0⟩)
      · exact .inr (.inr h)
  gone x' hx' := by
    rcases List.mem_append.1 hx' with hx' | hx'
    · exact (d.gone x' hx').evolves (dr.evolves kernelTask)
    · rw [List.mem_singleton.1 hx']
      exact dr.stale
  issued y hy := (dr.evolves R).issued (d.issued y hy)
  fresh := d.fresh
  nodup := d.nodup
  sublist := d.sublist.trans (List.sublist_append_left _ _)
  pairs := by
    refine ((List.forall₂_and_left _ _).2 ⟨fun y hy => hy, d.pairs⟩).imp ?_
    rintro y x' ⟨hy, hr, hne⟩
    refine ⟨?_, hne⟩
    rw [dr.resolve, if_neg (fun h => d.ne_of_issued hy hx h.1 h.2), hr]
  holdings := by
    refine le_trans ?_ d.holdings
    rw [← dr.holdings]
    exact Multiset.le_add_right _ _

/-- An escrow handle moved into the receiver's table as `y`. -/
theorem move (d : Delivering w₀ R w seen delivered pairs)
    (hx : (w₀.table kernelTask).isValid x = true ∨ (w₀.table kernelTask).Stale x)
    {w' : ChannelWorld} {y : HandleId} {r : Object × Rights} (m : Moved w w' kernelTask x R y r) :
    Delivering w₀ R w' (seen ++ [x]) (delivered ++ [y]) (pairs ++ [x]) where
  wellFormed := m.wellFormed
  evolves := d.evolves.trans m.evolves
  tablesOnly := d.tablesOnly.trans m.tablesOnly
  transfers j id := by
    rw [m.resolve]
    by_cases hy : j = R ∧ id = y
    · rw [if_pos hy]
      obtain ⟨rfl, rfl⟩ := hy
      exact .inr (.inr ⟨rfl, by simp, (m.unissued.of_evolves (d.evolves _)).resolve_eq_none⟩)
    rw [if_neg hy]
    by_cases hz : j = kernelTask ∧ id = x
    · rw [if_pos hz]
      obtain ⟨rfl, rfl⟩ := hz
      exact .inr (.inl ⟨rfl, by simp, rfl⟩)
    rw [if_neg hz]
    rcases d.transfers j id with h | ⟨hj, hin, h0⟩ | ⟨hj, hin, h0⟩
    · exact .inl h
    · exact .inr (.inl ⟨hj, List.mem_append_left _ hin, h0⟩)
    · exact .inr (.inr ⟨hj, List.mem_append_left _ hin, h0⟩)
  gone x' hx' := by
    rcases List.mem_append.1 hx' with hx' | hx'
    · exact (d.gone x' hx').evolves (m.evolves kernelTask)
    · rw [List.mem_singleton.1 hx']
      exact m.stale
  issued y' hy' := by
    rcases List.mem_append.1 hy' with hy' | hy'
    · exact (m.evolves R).issued (d.issued y' hy')
    · rw [List.mem_singleton.1 hy']
      exact .inl m.valid
  fresh y' hy' := by
    rcases List.mem_append.1 hy' with hy' | hy'
    · exact d.fresh y' hy'
    · rw [List.mem_singleton.1 hy']
      exact m.unissued.of_evolves (d.evolves _)
  nodup := by
    refine List.nodup_append.2 ⟨d.nodup, List.nodup_singleton y, ?_⟩
    intro a ha b hb
    rw [List.mem_singleton.1 hb]
    exact m.unissued.ne (d.issued a ha)
  sublist := d.sublist.append (List.Sublist.refl _)
  pairs := by
    refine List.rel_append ?_ (.cons ?_ .nil)
    · -- the earlier deliveries are neither the new handle nor the moved escrow handle
      refine ((List.forall₂_and_left _ _).2 ⟨fun y' hy' => hy', d.pairs⟩).imp ?_
      rintro y' x' ⟨hy', hr, hne⟩
      refine ⟨?_, hne⟩
      rw [m.resolve, if_neg (fun h => m.unissued.ne (d.issued y' hy') h.2),
        if_neg (fun h => d.ne_of_issued hy' hx h.1 h.2), hr]
    · -- the new handle holds what the escrow handle held at the start
      rw [m.resolve, if_pos ⟨rfl, rfl⟩]
      rcases d.transfers kernelTask x with h0 | ⟨-, -, h0⟩ | ⟨hR, hin, -⟩
      · exact ⟨by rw [← h0, m.source], by rw [← h0, m.source]; simp⟩
      · rw [m.source] at h0; cases h0
      · exact absurd rfl (d.ne_of_issued hin hx hR.symm)
  holdings := m.holdings ▸ d.holdings

end Delivering

/-- The delivery loop, by induction on the escrow handles still to deliver. -/
theorem recvLoop_spec {w₀ : ChannelWorld} {R : Nat} (hR : R < w₀.tables.length)
    (hK : kernelTask < w₀.tables.length) :
    ∀ (xs : List HandleId) (rooms : List Nat) (w : ChannelWorld) (seen delivered pairs : List HandleId),
      (∀ x ∈ xs, (w₀.table kernelTask).isValid x = true ∨ (w₀.table kernelTask).Stale x) →
      Delivering w₀ R w seen delivered pairs →
      ∃ pairs', Delivering w₀ R (recvLoop R w xs rooms delivered).1 (seen ++ xs)
        (recvLoop R w xs rooms delivered).2 pairs'
  | [], _, w, seen, delivered, pairs, _, d => ⟨pairs, by simpa [recvLoop] using d⟩
  | x :: xs, rooms, w, seen, delivered, pairs, hxs, d => by
    have hR' : R < w.tables.length := d.tablesOnly.2 ▸ hR
    have hK' : kernelTask < w.tables.length := d.tablesOnly.2 ▸ hK
    have hx := hxs x (by simp)
    have hrest : ∀ x' ∈ xs, (w₀.table kernelTask).isValid x' = true ∨
        (w₀.table kernelTask).Stale x' := fun x' hx' => hxs x' (by simp [hx'])
    match htake : (w.table kernelTask).take x with
    | (t, .error _) =>
      -- already gone: skipped
      have hnone := HandleTable.take_error_resolve htake
      rw [HandleTable.take_error htake] at htake
      obtain ⟨pairs', d'⟩ := recvLoop_spec hR hK xs rooms w (seen ++ [x]) delivered pairs hrest
        (d.skip hx hnone)
      refine ⟨pairs', ?_⟩
      simp only [recvLoop, htake, setTable_table]
      rwa [List.append_assoc, List.singleton_append] at d'
    | (t, .ok moved) =>
    match hins : ((w.setTable kernelTask t).table R).insert (w.setTable kernelTask t).registry
      (some moved.object) moved.rights (rooms.headD 0) with
    | (k, .error _) =>
      -- the receiver's table could not take it: dropped
      obtain ⟨pairs', d'⟩ := recvLoop_spec hR hK xs rooms.tail _ (seen ++ [x]) delivered pairs hrest
        (d.drop hx (drop_ok d.wellFormed hK' hR' htake hins))
      refine ⟨pairs', ?_⟩
      simp only [recvLoop, htake, hins]
      rwa [List.append_assoc, List.singleton_append] at d'
    | (k, .ok y) =>
      obtain ⟨pairs', d'⟩ := recvLoop_spec hR hK xs rooms.tail _ (seen ++ [x]) (delivered ++ [y])
        (pairs ++ [x]) hrest (d.move hx (move_ok d.wellFormed hK' hR' htake hins))
      refine ⟨pairs', ?_⟩
      simp only [recvLoop, htake, hins]
      rwa [List.append_assoc, List.singleton_append] at d'

end ChannelWorld

end Archipelago.Syscalls
