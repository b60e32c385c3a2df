import Archipelago.Lib.Slots

/-! The lock-order checker of debug builds (`task/sync/lockdep.cpp`, `synchronization/lockdep.h`).
Every lock has an identity. `acquired` records an edge from each held lock to the one being
taken, and panics when that edge would close a cycle, which `path_exists` looks for by a
depth-first search over `g_edges`. `release_identity` drops the edges that name an identity and
puts it on the free list for reuse.

The tables live behind `table_guard` (interrupts off and a spin lock), so a call is one step on
them. A panic ends the run, so a call returns `Except Fault`. The held-lock stack belongs to the
calling execution context, which is passed in. `owner_cpu` and the `address` and `name` of a lock
record are written, and read only by the log line before a cycle panic: they are left out, but
the two `record` calls of that line stay, since they may panic first. The log line is compiled for
both kernel targets, so it is modelled unconditionally. -/

namespace Archipelago.Sync

open Archipelago.Lib

/-- `CONFIG_LOCKDEP_MAX_LOCKS`. -/
def maxLocks : Nat := 128

/-- `CONFIG_LOCKDEP_MAX_EDGES`. -/
def maxEdges : Nat := 512

/-- `CONFIG_LOCKDEP_MAX_HELD`. -/
def maxHeld : Nat := 16

/-- The panics of lockdep. -/
inductive Fault
  | invalidIdentity
  | dependencyCycle
  | edgeCapacity
  | lockCapacity
  | recursiveAcquisition
  | heldCapacity
  | alreadyOwned
  | unbalancedRelease
  | releasedByNonOwner
  | destroyingOwned
  deriving DecidableEq, Repr

/-- The text each panic prints. -/
def Fault.message : Fault → String
  | .invalidIdentity => "lockdep: invalid lock identity"
  | .dependencyCycle => "lockdep: dependency cycle detected"
  | .edgeCapacity => "lockdep: dependency edge capacity exhausted"
  | .lockCapacity => "lockdep: registered lock capacity exhausted"
  | .recursiveAcquisition => "lockdep: recursive lock acquisition"
  | .heldCapacity => "lockdep: held-lock capacity exhausted"
  | .alreadyOwned => "lockdep: lock already owned"
  | .unbalancedRelease => "lockdep: unbalanced or out-of-order lock release"
  | .releasedByNonOwner => "lockdep: lock released by non-owner"
  | .destroyingOwned => "lockdep: destroying an owned lock"

/-- `lock_record`, with the fields a decision reads. -/
structure LockRecord where
  ownerThread : Nat := 0
  owned : Bool := false
  deriving DecidableEq, Repr

/-- `edge_record{from, to}`: the lock held (`src`) when the other (`dst`) was acquired. -/
structure Edge where
  src : Nat
  dst : Nat
  deriving DecidableEq, Repr

/-- `held_lock`. -/
structure HeldLock where
  address : Nat
  identity : Nat
  deriving DecidableEq, Repr

/-- The lockdep part of an `execution_context`: the held-lock stack, oldest first, and the
thread that runs in it. -/
structure Context where
  held : List HeldLock
  threadId : Nat
  deriving DecidableEq, Repr

/-- `g_locks`, `g_edges[0 .. g_edge_count)`, `g_free_list[0 .. g_free_count)` and
`g_next_identity`. -/
structure Tables where
  locks : List LockRecord
  edges : List Edge
  freeList : List Nat
  nextIdentity : Nat
  deriving DecidableEq, Repr

/-- The tables at boot. -/
def Tables.init : Tables := ⟨List.replicate maxLocks {}, [], [], 1⟩

/-- `record(identity)`: the record of an identity handed out so far. -/
def Tables.record (t : Tables) (identity : Nat) : Except Fault LockRecord :=
  if identity = 0 ∨ identity ≥ t.nextIdentity ∨ identity > maxLocks then .error .invalidIdentity
  else .ok (t.locks.getD (identity - 1) {})

/-- `g_locks[identity - 1] = r`. -/
def Tables.setRecord (t : Tables) (identity : Nat) (r : LockRecord) : Tables :=
  { t with locks := t.locks.set (identity - 1) r }

/-! ### The cycle check -/

/-- The loop of `path_exists` over `g_edges`: the search `visit` goes on from the target of each
edge leaving `src`, until one finds the goal. -/
def scanEdges (visit : Nat → List Bool → Bool × List Bool) (src : Nat) :
    List Edge → List Bool → Bool × List Bool
  | [], visited => (false, visited)
  | e :: es, visited =>
    if e.src = src then
      match visit e.dst visited with
      | (true, visited) => (true, visited)
      | (false, visited) => scanEdges visit src es visited
    else scanEdges visit src es visited

/-- `path_exists(from, to, visited)`: depth-first search, marking `visited[from - 1]`. The fuel
bounds the depth of the recursion; `LockdepPath` shows that a search from a fresh array never
needs more than `maxLocks + 1`. -/
def pathExists (edges : List Edge) : Nat → Nat → Nat → List Bool → Bool × List Bool
  | 0, _, _, visited => (false, visited)
  | fuel + 1, src, dst, visited =>
    if src = dst then (true, visited)
    else if visited.getD (src - 1) false then (false, visited)
    else
      scanEdges (fun w visited => pathExists edges fuel w dst visited) src edges
        (visited.set (src - 1) true)

/-- `learn_edge(from, to)`. -/
def learnEdge (t : Tables) (src dst : Nat) : Except Fault Tables :=
  if src = 0 ∨ dst = 0 then .ok t
  else if t.edges.any (fun e => e.src == src && e.dst == dst) then .ok t
  else if (pathExists t.edges (maxLocks + 1) dst src (List.replicate maxLocks false)).1 then do
    -- the log line reads both records before the panic
    let _ ← t.record src
    let _ ← t.record dst
    .error .dependencyCycle
  else if t.edges.length = maxEdges then .error .edgeCapacity
  else .ok { t with edges := t.edges ++ [⟨src, dst⟩] }

/-! ### The entry points -/

/-- `allocate_identity`: the identity on top of the free list, or the next fresh one. -/
def allocateIdentity (t : Tables) : Except Fault (Tables × Nat) :=
  match t.freeList.getLast? with
  | some identity => .ok (({ t with freeList := t.freeList.dropLast } : Tables).setRecord identity {}, identity)
  | none =>
    if t.nextIdentity > maxLocks then .error .lockCapacity
    else .ok (({ t with nextIdentity := t.nextIdentity + 1 } : Tables).setRecord t.nextIdentity {},
      t.nextIdentity)

/-- Whether an edge names the identity. -/
def Edge.names (e : Edge) (identity : Nat) : Bool := e.src == identity || e.dst == identity

/-- The loop of `release_identity` from index `i`, with `n = g_edge_count - i` rounds left: an
edge naming the identity is overwritten by the last one, which is looked at next. -/
def purgeEdges (identity : Nat) : Nat → Nat → List Edge → List Edge
  | 0, _, es => es
  | n + 1, i, es =>
    if (es.getD i ⟨0, 0⟩).names identity then purgeEdges identity n i (swapRemove es i)
    else purgeEdges identity n (i + 1) es

/-- `release_identity(identity)`. -/
def releaseIdentity (t : Tables) (identity : Nat) : Tables :=
  if identity = 0 then t
  else
    { t with edges := purgeEdges identity t.edges.length 0 t.edges,
             locks := t.locks.set (identity - 1) {},
             freeList := t.freeList ++ [identity] }

/-- The loop of `acquired` over the held locks: the same lock twice panics, and every held lock
gets an edge to the new one. -/
def learnFromHeld (address identity : Nat) : Tables → List HeldLock → Except Fault Tables
  | t, [] => .ok t
  | t, h :: hs =>
    if h.address = address then .error .recursiveAcquisition
    else do
      let t ← learnEdge t h.identity identity
      learnFromHeld address identity t hs

/-- `acquired(address, identity)` in the context `c`. -/
def acquired (t : Tables) (c : Context) (address identity : Nat) :
    Except Fault (Tables × Context) := do
  let t ← learnFromHeld address identity t c.held
  if c.held.length = maxHeld then throw .heldCapacity
  let c : Context := { c with held := c.held ++ [⟨address, identity⟩] }
  if identity = 0 then return (t, c)
  let lock ← t.record identity
  if lock.owned then throw .alreadyOwned
  return (t.setRecord identity { ownerThread := c.threadId, owned := true }, c)

/-- `released(address, identity)` in the context `c`. -/
def released (t : Tables) (c : Context) (address identity : Nat) :
    Except Fault (Tables × Context) := do
  if c.held.getLast?.map (·.address) ≠ some address then throw .unbalancedRelease
  let c : Context := { c with held := c.held.dropLast }
  if identity = 0 then return (t, c)
  let lock ← t.record identity
  if !lock.owned || lock.ownerThread ≠ c.threadId then throw .releasedByNonOwner
  return (t.setRecord identity { lock with owned := false }, c)

/-- `assert_not_owned(address, identity)`. -/
def assertNotOwned (t : Tables) (identity : Nat) : Except Fault Unit :=
  if identity = 0 then pure ()
  else do
    let lock ← t.record identity
    if lock.owned then throw .destroyingOwned

/-! ### The system -/

/-- The tables and every execution context. -/
structure World where
  tables : Tables
  contexts : Nat → Context

/-- Boot: no lock registered, every context holding nothing; `threads` gives the thread of each. -/
def World.init (threads : Nat → Nat) : World := ⟨Tables.init, fun i => ⟨[], threads i⟩⟩

/-- A call of the lockdep interface, from the context it names. -/
inductive Call
  | allocateIdentity
  | releaseIdentity (identity : Nat)
  | assertNotOwned (identity : Nat)
  | acquired (ctx address identity : Nat)
  | released (ctx address identity : Nat)
  deriving DecidableEq, Repr

/-- One call: the next world and the identity `allocate_identity` returns. -/
def World.step (w : World) : Call → Except Fault (World × Option Nat)
  | .allocateIdentity => do
    let (t, identity) ← allocateIdentity w.tables
    return ({ w with tables := t }, some identity)
  | .releaseIdentity identity => return ({ w with tables := releaseIdentity w.tables identity }, none)
  | .assertNotOwned identity => do
    assertNotOwned w.tables identity
    return (w, none)
  | .acquired ctx address identity => do
    let (t, c) ← acquired w.tables (w.contexts ctx) address identity
    return (⟨t, Function.update w.contexts ctx c⟩, none)
  | .released ctx address identity => do
    let (t, c) ← released w.tables (w.contexts ctx) address identity
    return (⟨t, Function.update w.contexts ctx c⟩, none)

/-! The equations the proofs rewrite with. -/

theorem scanEdges_nil (visit : Nat → List Bool → Bool × List Bool) (src : Nat)
    (visited : List Bool) : scanEdges visit src [] visited = (false, visited) := rfl

theorem scanEdges_cons (visit : Nat → List Bool → Bool × List Bool) (src : Nat) (e : Edge)
    (es : List Edge) (visited : List Bool) :
    scanEdges visit src (e :: es) visited =
      if e.src = src then
        match visit e.dst visited with
        | (true, visited) => (true, visited)
        | (false, visited) => scanEdges visit src es visited
      else scanEdges visit src es visited := rfl

theorem pathExists_succ (edges : List Edge) (fuel src dst : Nat) (visited : List Bool) :
    pathExists edges (fuel + 1) src dst visited =
      if src = dst then (true, visited)
      else if visited.getD (src - 1) false then (false, visited)
      else
        scanEdges (fun w visited => pathExists edges fuel w dst visited) src edges
          (visited.set (src - 1) true) := rfl

theorem purgeEdges_zero (identity i : Nat) (es : List Edge) : purgeEdges identity 0 i es = es := rfl

theorem purgeEdges_succ (identity n i : Nat) (es : List Edge) :
    purgeEdges identity (n + 1) i es =
      if (es.getD i ⟨0, 0⟩).names identity then purgeEdges identity n i (swapRemove es i)
      else purgeEdges identity n (i + 1) es := rfl

theorem learnFromHeld_nil (address identity : Nat) (t : Tables) :
    learnFromHeld address identity t [] = .ok t := rfl

theorem learnFromHeld_cons (address identity : Nat) (t : Tables) (h : HeldLock)
    (hs : List HeldLock) :
    learnFromHeld address identity t (h :: hs) =
      if h.address = address then .error .recursiveAcquisition
      else (learnEdge t h.identity identity).bind (learnFromHeld address identity · hs) := rfl

example : (pathExists [⟨1, 2⟩, ⟨2, 3⟩, ⟨3, 1⟩] (maxLocks + 1) 1 3
    (List.replicate maxLocks false)).1 = true := rfl

example : (pathExists [⟨1, 2⟩, ⟨2, 1⟩, ⟨3, 1⟩] (maxLocks + 1) 1 3
    (List.replicate maxLocks false)).1 = false := rfl

end Archipelago.Sync
