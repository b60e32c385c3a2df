import Archipelago.Lib.Chain
import Archipelago.Lib.Run
import Archipelago.Lib.Mask
import Archipelago.Lib.Slots
import Archipelago.Lib.Ring
import Archipelago.Lib.Bytes
import Archipelago.Obj.Types
import Archipelago.Obj.HandleTable
import Archipelago.Obj.HandleInvariant
import Archipelago.Obj.HandleRuns
import Archipelago.Obj.HandleRights
import Archipelago.Obj.HandleMap
import Archipelago.Obj.HandleFreeList
import Archipelago.Obj.Channel
import Archipelago.Obj.EndpointPair
import Archipelago.Obj.ChannelRing
import Archipelago.Obj.ChannelPairRuns
import Archipelago.Obj.Socket
import Archipelago.Syscalls.Channel
import Archipelago.Syscalls.ChannelTransfer
import Archipelago.Syscalls.ChannelSpec
import Archipelago.Syscalls.ChannelRuns
import Archipelago.Lib.Intervals
import Archipelago.Mm.Types
import Archipelago.Mm.PageMap
import Archipelago.Mm.Vmo
import Archipelago.Mm.Region
import Archipelago.Mm.RegionInvariant
import Archipelago.Mm.RegionRuns
import Archipelago.Mm.RegionEffects
import Archipelago.Mm.Aspace
import Archipelago.Mm.Fault
import Archipelago.Mm.VmmRuns
import Archipelago.Mm.RegionSpec
import Archipelago.Syscalls.Vmo
import Archipelago.Syscalls.VmoRuns
import Archipelago.Elf.Parse
import Archipelago.Elf.ParseSound
import Archipelago.Ktl.Deque
import Archipelago.Ktl.DequeSpec
import Archipelago.Ktl.DequeRuns
import Archipelago.Ktl.RbTree
import Archipelago.Sched.TickCapacity
import Archipelago.Syscalls.Dispatch
import Archipelago.Syscalls.DispatchSpec
import Archipelago.Syscalls.DispatchRuns
import Archipelago.Mm.Pmm
import Archipelago.Mm.PmmInvariant
import Archipelago.Mm.PmmRuns
import Archipelago.Mm.SlabHeap
import Archipelago.Obj.SocketRuns
import Archipelago.Syscalls.IpcCopy
import Archipelago.Mm.PmmDescriptors
import Archipelago.Lib.CInt
import Archipelago.Core.Console
import Archipelago.Core.ConsoleBounds
import Archipelago.Log.Ring
import Archipelago.Log.RingInvariant
import Archipelago.Log.RingRuns
import Archipelago.Lib.Bitmap
import Archipelago.Lib.DChain
import Archipelago.Mm.ObjectArena
import Archipelago.Mm.ObjectArenaLayout
import Archipelago.Mm.ObjectArenaSpec
import Archipelago.Mm.ObjectArenaInvariant
import Archipelago.Mm.ObjectArenaRuns
import Archipelago.Core.Time
import Archipelago.Obj.Port
import Archipelago.Obj.PortSpec
import Archipelago.Obj.PortRemove
import Archipelago.Obj.PortNotify
import Archipelago.Obj.PortRuns
import Archipelago.Ktl.Utf8
import Archipelago.Obj.HandleOrder
import Archipelago.Log.RingCalls
import Archipelago.Lib.Scope
import Archipelago.Sched.Interrupts
import Archipelago.Sched.InterruptPaths
import Archipelago.Lib.CStr
import Archipelago.Crash.Demangle
import Archipelago.Crash.DemangleSpec
import Archipelago.Lib.Graph
import Archipelago.Sync.Lockdep
import Archipelago.Sync.LockdepPath
import Archipelago.Sync.LockdepRuns
import Archipelago.Lib.Tiling
import Archipelago.Mm.EarlyHeap
import Archipelago.Mm.EarlyHeapSpec
import Archipelago.Mm.EarlyHeapRuns
import Archipelago.Lib.Cyclic
import Archipelago.Lib.Extents
import Archipelago.Crt.Malloc
import Archipelago.Crt.MallocWalk
import Archipelago.Crt.MallocLayout
import Archipelago.Crt.MallocSpec
import Archipelago.Crt.MallocRuns
