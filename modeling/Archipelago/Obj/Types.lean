import Archipelago.Lib.Mask

/-! The kernel object vocabulary: type ids and rights (`kernel/obj/types.h`), the error
codes every fallible call returns (`ktl/errc`), objects as handle tables see them,
and the type registry (`obj/type_registry.cpp`) that fixes, per type, which rights a
handle to an object of that type may ever carry.

Type and object ids are only compared for equality, so they are `Nat`; rights are
bit masks combined with `&`, `|` and `~`, so they are 32-bit vectors as in the
source. -/

namespace Archipelago.Obj

open Archipelago.Lib

/-- `TypeId` (uint32_t), compared only for equality. -/
abbrev TypeId := Nat
/-- `ObjectId` (uint64_t), compared only for equality. -/
abbrev ObjectId := Nat
/-- `Rights` (uint32_t). -/
abbrev Rights := BitVec 32

namespace type_ids

def INVALID : TypeId := 0
def EVENT : TypeId := 1
def REGION : TypeId := 3
def VMO : TypeId := 4
def THREAD : TypeId := 5
def TASK : TypeId := 6
def CHANNEL : TypeId := 8
def PORT : TypeId := 9
def SOCKET : TypeId := 10

end type_ids

def rightRead : Rights := 1 <<< 0
def rightWrite : Rights := 1 <<< 1
def rightDuplicate : Rights := 1 <<< 2
def rightTransfer : Rights := 1 <<< 3
def rightSignal : Rights := 1 <<< 4
def rightWait : Rights := 1 <<< 5
def rightsAll : Rights := 0x3F

/-- `ktl::errc`: the kernel's error codes; `value` is the integer the enum carries. -/
inductive Errc
  | nullArgument
  | invalidOperation
  | oom
  | wrongType
  | handleInvalid
  | alreadyRegistered
  | rightsViolation
  | registryFull
  | capacityExhausted
  | outOfRange
  | truncated
  | wouldBlock
  | peerClosed
  | timedOut
  deriving DecidableEq, Repr

def Errc.value : Errc → Int
  | .nullArgument => -2
  | .invalidOperation => -3
  | .oom => -4
  | .wrongType => -5
  | .handleInvalid => -6
  | .alreadyRegistered => -7
  | .rightsViolation => -8
  | .registryFull => -9
  | .capacityExhausted => -10
  | .outOfRange => -11
  | .truncated => -12
  | .wouldBlock => -13
  | .peerClosed => -14
  | .timedOut => -15

/-- A kernel object as the handle layer sees it: its identity and its type. What an
object does lives in the modules of its type. -/
structure Object where
  id : ObjectId
  typeId : TypeId
  deriving DecidableEq, Repr

/-- `TypeDescriptor`. -/
structure TypeDescriptor where
  id : TypeId
  name : String
  validRights : Rights
  defaultRights : Rights
  deriving DecidableEq, Repr

/-- `CONFIG_MAX_OBJECT_TYPES`. -/
def maxTypes : Nat := 64

/-- `TypeRegistry`: the registered descriptors `m_types[0 .. m_count)`, in order. -/
structure TypeRegistry where
  types : List TypeDescriptor := []
  deriving DecidableEq, Repr

namespace TypeRegistry

/-- `TypeRegistry::lookup`: the first descriptor with this id. -/
def lookup (reg : TypeRegistry) (id : TypeId) : Option TypeDescriptor :=
  reg.types.find? (fun t => t.id == id)

/-- `TypeRegistry::register_type`: refused when full, or when the id or the name is
already taken; otherwise appended. -/
def registerType (reg : TypeRegistry) (id : TypeId) (name : String)
    (validRights defaultRights : Rights) : TypeRegistry × Except Errc Unit :=
  if maxTypes ≤ reg.types.length then (reg, .error .registryFull)
  else if (reg.types.find? (fun t => t.id == id || t.name == name)).isSome then
    (reg, .error .alreadyRegistered)
  else ({ types := reg.types ++ [⟨id, name, validRights, defaultRights⟩] }, .ok ())

/-- Registration never changes what an already registered id looks up to: a new
descriptor is only appended when its id is fresh. -/
theorem lookup_registerType {reg : TypeRegistry} {id id' : TypeId} {name : String}
    {v d : Rights} {desc : TypeDescriptor} (h : reg.lookup id' = some desc) :
    (reg.registerType id name v d).1.lookup id' = some desc := by
  unfold registerType
  split
  · exact h
  split
  · exact h
  · simp only [lookup, List.find?_append] at h ⊢
    rw [h]
    rfl

end TypeRegistry

end Archipelago.Obj
