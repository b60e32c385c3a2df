import Archipelago.Obj.EndpointPair

/-! Ports (`obj/port.cpp`, `kernel/obj/port.h`, `Object::signal_set` of `obj/object.cpp`).
A `port_binding` subscribes one object's signals, under a mask, to one port; it sits on
three intrusive lists at once: the watched object's doubly linked `m_bindings`
(`obj_next`, `obj_prev`), the port's singly linked `m_bindings` (`port_next`), and, while
a packet is pending, the port's ready FIFO (`ready_next`, with `m_ready_head` and
`m_ready_tail`).

The bindings live in `g_binding_arena`; the model keeps one map per field of
`port_binding`, by the binding's address, and one per field of `Object` and `Port`, by the
object's address, with `0` for `nullptr`. Every loop that follows a link is run for at most
`fuel` steps and gives `none` past that, or where the source would follow a null link; one
`g_port_lock` makes each locked section atomic, and the calls are taken one at a time.
`port_notify` re-enters itself through `signal_set(SIGNAL_READABLE)` on a port; the depth
of that recursion and the rounds of its restart loop are bounded by fuel too.

Waking threads parked on an object (`object_signal_wake`) and the object references a
binding holds are left out: an object is alive while bound, so the environment destroys a
port only once no binding watches it. -/

namespace Archipelago.Obj.PortWorld

open Archipelago.Lib

/-- `Port::SIGNAL_READABLE`: `PORT_SIGNAL_READABLE`, bit 0. -/
def portSignalReadable : BitVec 32 := 1

/-- What lives at an object address. -/
inductive Kind
  | port
  | other
  | dead
  deriving DecidableEq, Repr

/-- The bindings, the objects and the ports. Keys (`uint64_t`) are only compared, so they
are numbers. -/
structure World where
  key : Nat → Nat
  mask : Nat → BitVec 32
  pending : Nat → Bool
  pendingSignals : Nat → BitVec 32
  object : Nat → Nat
  port : Nat → Nat
  objNext : Nat → Nat
  objPrev : Nat → Nat
  portNext : Nat → Nat
  readyNext : Nat → Nat
  /-- `Object::m_signals`. -/
  signals : Nat → BitVec 32
  /-- `Object::m_bindings`: the bindings watching the object. -/
  objBindings : Nat → Nat
  /-- `Port::m_bindings`: the port's own bindings. -/
  portBindings : Nat → Nat
  readyHead : Nat → Nat
  readyTail : Nat → Nat
  /-- The slots `g_binding_arena` has handed out and not taken back. -/
  live : List Nat
  kind : Nat → Kind

/-- A packet `dequeue` hands out. -/
structure Packet where
  key : Nat
  signals : BitVec 32
  deriving DecidableEq, Repr

/-- A place a binding pointer is stored: a list head of the port, or a binding's link. -/
inductive Link
  | head
  | next (b : Nat)
  deriving DecidableEq, Repr

namespace World

open Function (update)

/-- Steps every walk is allowed: each list holds each live binding at most once. -/
def fuel (w : World) : Nat := w.live.length + 1

/-- `Object::signal_clear(bits)`. -/
def clearSignals (w : World) (obj : Nat) (bits : BitVec 32) : World :=
  { w with signals := update w.signals obj (Obj.signalClear (w.signals obj) bits) }

/-- `*link` on the port's binding list. -/
def readLink (w : World) (port : Nat) : Link → Nat
  | .head => w.portBindings port
  | .next b => w.portNext b

/-- `*link = v` on the port's binding list. -/
def writeLink (w : World) (port : Nat) : Link → Nat → World
  | .head, v => { w with portBindings := update w.portBindings port v }
  | .next b, v => { w with portNext := update w.portNext b v }

/-- `*ready` on the port's ready list. -/
def readReady (w : World) (port : Nat) : Link → Nat
  | .head => w.readyHead port
  | .next b => w.readyNext b

/-- `*ready = v` on the port's ready list. -/
def writeReady (w : World) (port : Nat) : Link → Nat → World
  | .head, v => { w with readyHead := update w.readyHead port v }
  | .next b, v => { w with readyNext := update w.readyNext b v }

/-- `Port::unlink_from_object`. -/
def unlinkFromObject (w : World) (b : Nat) : World :=
  let watched := w.object b
  let w := if w.objPrev b ≠ 0 then { w with objNext := update w.objNext (w.objPrev b) (w.objNext b) } else w
  let w := if w.objNext b ≠ 0 then { w with objPrev := update w.objPrev (w.objNext b) (w.objPrev b) } else w
  let w := if w.objBindings watched = b then { w with objBindings := update w.objBindings watched (w.objNext b) } else w
  { w with objNext := update w.objNext b 0, objPrev := update w.objPrev b 0 }

/-- `Port::enqueue_ready` on `port`. -/
def enqueueReady (w : World) (port b : Nat) : World :=
  let w := { w with readyNext := update w.readyNext b 0 }
  let w := if w.readyTail port ≠ 0 then { w with readyNext := update w.readyNext (w.readyTail port) b }
    else { w with readyHead := update w.readyHead port b }
  { w with readyTail := update w.readyTail port b }

/-! ### `bind` -/

/-- `bind`'s work once the slot is allocated: the constructed binding, then, under the lock,
its push on the object's list and on the port's list. -/
def link (w : World) (port obj key : Nat) (mask : BitVec 32) (b : Nat) : World :=
  let w := { w with key := update w.key b key, mask := update w.mask b mask,
                    pending := update w.pending b false, pendingSignals := update w.pendingSignals b 0,
                    object := update w.object b obj, port := update w.port b port,
                    objPrev := update w.objPrev b 0, readyNext := update w.readyNext b 0,
                    live := b :: w.live }
  let w := { w with objNext := update w.objNext b (w.objBindings obj) }
  let w := if w.objBindings obj ≠ 0 then { w with objPrev := update w.objPrev (w.objBindings obj) b } else w
  let w := { w with objBindings := update w.objBindings obj b }
  { w with portNext := update w.portNext b (w.portBindings port),
           portBindings := update w.portBindings port b }

/-! ### `port_notify` and `signal_set` -/

/-- One round's scan of `port_notify` under the lock, from the binding `b` on: a hit on a
pending binding coalesces into its packet, a hit the previous signals already had is no
edge, and the first edge makes its binding pending, queues it on its port and ends the
scan with that port. -/
def scan (previous current : BitVec 32) : Nat → World → Nat → Option (World × Option Nat)
  | 0, _, _ => none
  | fuel + 1, w, b =>
    if b = 0 then some (w, none)
    else
      let hits := current &&& w.mask b
      if hits = 0 then scan previous current fuel w (w.objNext b)
      else if w.pending b then
        scan previous current fuel
          { w with pendingSignals := update w.pendingSignals b (w.pendingSignals b ||| hits) } (w.objNext b)
      else if previous &&& w.mask b ≠ 0 then scan previous current fuel w (w.objNext b)
      else
        let w' := { w with pending := update w.pending b true, pendingSignals := update w.pendingSignals b hits }
        some (w'.enqueueReady (w.port b) b, some (w.port b))

/-- The restart loop of `port_notify(obj, previous, current)` for at most `rounds` rounds;
`signal w p` is the `signal_set(SIGNAL_READABLE)` on the port a round queued on. -/
def notifyLoop (signal : World → Nat → Option World) (obj : Nat) (previous current : BitVec 32) :
    Nat → World → Option World
  | 0, _ => none
  | rounds + 1, w =>
    match scan previous current w.fuel w (w.objBindings obj) with
    | none => none
    | some (w, none) => some w
    | some (w, some p) =>
      match signal w p with
      | none => none
      | some w => notifyLoop signal obj previous current rounds w

/-- `port_notify(obj, previous, current)`. -/
def portNotify (signal : World → Nat → Option World) (w : World) (obj : Nat) (previous current : BitVec 32) :
    Option World :=
  notifyLoop signal obj previous current w.fuel w

/-- `Object::signal_set(bits)` with at most `depth` nested `signal_set` calls. -/
def signalSet : Nat → World → Nat → BitVec 32 → Option World
  | 0, _, _, _ => none
  | depth + 1, w, obj, bits =>
    let previous := w.signals obj
    let w := { w with signals := update w.signals obj (Obj.signalSet previous bits) }
    if w.objBindings obj ≠ 0 then
      portNotify (fun w p => signalSet depth w p portSignalReadable) w obj previous (Obj.signalSet previous bits)
    else some w

/-- `Port::bind(object, key, mask)` on `port`, where `slot` is what `g_binding_arena.alloc()`
returned. -/
def bind (w : World) (port obj key : Nat) (mask : BitVec 32) (slot : Nat) : Option (World × Except Errc Unit) :=
  if obj = 0 then some (w, .error .nullArgument)
  else if mask = 0 then some (w, .error .invalidOperation)
  else if slot = 0 then some (w, .error .oom)
  else
    let w := w.link port obj key mask slot
    let asserted := w.signals obj &&& mask
    if asserted ≠ 0 then
      let w := { w with pending := update w.pending slot true, pendingSignals := update w.pendingSignals slot asserted }
      (w.enqueueReady port slot).signalSet w.fuel port portSignalReadable |>.map fun w => (w, .ok ())
    else some (w, .ok ())

/-! ### `unbind`, `~Port` and `dequeue` -/

/-- `while (*ready != binding) ready = &(*ready)->ready_next;` on the port's ready list. -/
def findReady (port b : Nat) : Nat → World → Link → Option Link
  | 0, _, _ => none
  | fuel + 1, w, l =>
    if w.readReady port l = b then some l
    else if w.readReady port l = 0 then none
    else findReady port b fuel w (.next (w.readReady port l))

/-- `while (m_ready_tail != nullptr && m_ready_tail->ready_next != nullptr) ...`, from `t`. -/
def readyTailWalk : Nat → World → Nat → Option Nat
  | 0, _, _ => none
  | fuel + 1, w, t => if t ≠ 0 ∧ w.readyNext t ≠ 0 then readyTailWalk fuel w (w.readyNext t) else some t

/-- `unbind`'s removal of a pending binding from the ready FIFO, and the tail rescan when it
was the tail. -/
def exciseReady (w : World) (port b : Nat) : Option World := do
  let l ← findReady port b w.fuel w .head
  let w := w.writeReady port l (w.readyNext b)
  if w.readyTail port = b then
    let t ← readyTailWalk w.fuel w (w.readyHead port)
    pure { w with readyTail := update w.readyTail port t }
  else pure w

/-- `unbind(key)`'s loop under the lock from `link`, with the victims unlinked so far. -/
def unbindLoop (port key : Nat) : Nat → World → Link → List Nat → Option (World × List Nat)
  | 0, _, _, _ => none
  | fuel + 1, w, l, victims =>
    let b := w.readLink port l
    if b = 0 then some (w, victims)
    else if w.key b ≠ key then unbindLoop port key fuel w (.next b) victims
    else do
      let w := (w.writeLink port l (w.portNext b)).unlinkFromObject b
      let w ← if w.pending b then w.exciseReady port b else pure w
      let w := { w with portNext := update w.portNext b (victims.headD 0) }
      unbindLoop port key fuel w l (b :: victims)

/-- `Port::unbind(key)`: the victims are destroyed after the lock, their slots going back to
the arena. -/
def unbind (w : World) (port key : Nat) : Option (World × Nat) := do
  let (w, victims) ← unbindLoop port key w.fuel w .head []
  let w := if w.readyHead port = 0 then w.clearSignals port portSignalReadable else w
  pure ({ w with live := w.live.filter (· ∉ victims) }, victims.length)

/-- `~Port`'s loop under the lock, with the victims unlinked so far. -/
def destroyLoop (port : Nat) : Nat → World → List Nat → Option (World × List Nat)
  | 0, _, _ => none
  | fuel + 1, w, victims =>
    let b := w.portBindings port
    if b = 0 then some (w, victims)
    else
      let w := { w with portBindings := update w.portBindings port (w.portNext b) }
      let w := w.unlinkFromObject b
      let w := { w with portNext := update w.portNext b (victims.headD 0) }
      destroyLoop port fuel w (b :: victims)

/-- `Port::~Port`, then the port is gone. -/
def destroy (w : World) (port : Nat) : Option World := do
  let (w, victims) ← destroyLoop port w.fuel w []
  let w := { w with readyHead := update w.readyHead port 0, readyTail := update w.readyTail port 0 }
  pure { w with live := w.live.filter (· ∉ victims), kind := update w.kind port .dead }

/-- `Port::dequeue(out)`: the packet written to `out`, if any. -/
def dequeue (w : World) (port : Nat) : World × Option Packet :=
  let b := w.readyHead port
  if b = 0 then (w.clearSignals port portSignalReadable, none)
  else
    let w := { w with readyHead := update w.readyHead port (w.readyNext b) }
    let w := if w.readyHead port = 0 then { w with readyTail := update w.readyTail port 0 } else w
    let w := { w with readyNext := update w.readyNext b 0 }
    let packet : Packet := ⟨w.key b, w.pendingSignals b⟩
    let w := { w with pending := update w.pending b false, pendingSignals := update w.pendingSignals b 0 }
    let w := if w.readyHead port = 0 then w.clearSignals port portSignalReadable else w
    (w, some packet)

end World

/-! ### Calls -/

/-- A call into the port subsystem. -/
inductive Call
  | bind (port obj key : Nat) (mask : BitVec 32) (slot : Nat)
  | unbind (port key : Nat)
  | dequeue (port : Nat)
  | destroy (port : Nat)
  /-- `signal_set` by another object's code (a channel, a socket, a task or a thread). -/
  | signalSet (obj : Nat) (bits : BitVec 32)
  | signalClear (obj : Nat) (bits : BitVec 32)
  deriving DecidableEq, Repr

/-- What a call returned; `stuck` when a walk ran out of fuel or off its list. -/
inductive Outcome
  | bound (r : Except Errc Unit)
  | unbound (count : Nat)
  | dequeued (packet : Option Packet)
  | done
  | stuck
  deriving DecidableEq, Repr

namespace World

/-- One call. -/
def call (w : World) : Call → Option (World × Outcome)
  | .bind port obj key mask slot => (w.bind port obj key mask slot).map fun r => (r.1, .bound r.2)
  | .unbind port key => (w.unbind port key).map fun r => (r.1, .unbound r.2)
  | .dequeue port => some ((w.dequeue port).1, .dequeued (w.dequeue port).2)
  | .destroy port => (w.destroy port).map fun w => (w, .done)
  | .signalSet obj bits => (w.signalSet w.fuel obj bits).map fun w => (w, .done)
  | .signalClear obj bits => some (w.clearSignals obj bits, .done)

/-- One call as a step of a run. -/
def step (w : World) (c : Call) : World × Outcome := (w.call c).getD (w, .stuck)

/-- The calls the rest of the kernel can make: on a live port through a handle, binding a
live object into a slot the arena handed out, destroying a port no binding holds, and
signals of objects other than ports, whose signals only the port code changes. -/
def Allowed (w : World) : Call → Prop
  | .bind port obj _ _ slot => w.kind port = .port ∧ (obj = 0 ∨ w.kind obj ≠ .dead) ∧ slot ∉ w.live
  | .unbind port _ => w.kind port = .port
  | .dequeue port => w.kind port = .port
  | .destroy port => w.kind port = .port ∧ ∀ b ∈ w.live, w.object b ≠ port
  | .signalSet obj _ => w.kind obj = .other
  | .signalClear obj _ => w.kind obj = .other

instance (w : World) (c : Call) : Decidable (w.Allowed c) := by
  cases c <;> unfold Allowed <;> infer_instance

/-- Ports and other objects, none bound: signals as given, ports' all clear. -/
def init (kind : Nat → Kind) (signals : Nat → BitVec 32) : World where
  key _ := 0
  mask _ := 0
  pending _ := false
  pendingSignals _ := 0
  object _ := 0
  port _ := 0
  objNext _ := 0
  objPrev _ := 0
  portNext _ := 0
  readyNext _ := 0
  signals o := if kind o = .port then 0 else signals o
  objBindings _ := 0
  portBindings _ := 0
  readyHead _ := 0
  readyTail _ := 0
  live := []
  kind o := if o = 0 then .dead else kind o

end World

end Archipelago.Obj.PortWorld
