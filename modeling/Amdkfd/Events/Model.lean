import Mathlib.Data.UInt
import Amdkfd.Basic
import Amdkfd.Lib.Bitmap
import Amdkfd.Lib.Run

/-!
# Events of a process

The events of `kfd_events.c`: the table of their ids, the page with a slot for each
signal event, and the interrupts by which the GPU signals them. Whether an
allocation succeeds is an argument.
-/

namespace Amdkfd.Events

open Lib Function

/-- `KFD_SIGNAL_EVENT_LIMIT` of the UAPI header. -/
def signalEventLimit : Nat := 4096

def firstNonsignalEventId : Nat := 2 ^ 30

/-- `INT_MAX + 1`. -/
def intEnd : Nat := 2 ^ 31

def unsignaledEventSlot : UInt64 := 0xffffffffffffffff

/-- The event types of `kfd_events.h`. -/
inductive EventType
  | signal
  | hwException
  | debug
  | memory
  | other (type : Nat)
  deriving DecidableEq

/-- `struct kfd_event`. Its id is its place in the table. `waiters` has the
`activated` flag of each waiter. -/
structure Event where
  type : EventType
  autoReset : Bool
  signaled : Bool
  eventAge : UInt64
  waiters : List Bool
  deriving DecidableEq

def Event.canBeGpuSignaled (ev : Event) : Bool :=
  match ev.type with
  | .signal => true
  | .debug => true
  | _ => false

/-- `struct kfd_signal_page` with the memory at its kernel address, `size` bytes long.
`outside` tells whether the driver has written beyond its end. -/
structure Page where
  size : Nat
  slots : Nat → UInt64
  outside : Bool

def Page.write (page : Page) (id : Nat) (value : UInt64) : Page :=
  { page with
    slots := update page.slots id value
    outside := page.outside || decide (page.size < 8 * (id + 1)) }

def Page.clear (page : Page) : Page :=
  { page with
    slots := fun id => if id < signalEventLimit then unsignaledEventSlot else page.slots id
    outside := page.outside || decide (page.size < 8 * signalEventLimit) }

/-- The event state of `struct kfd_process`. `idr` has the ids that are taken, and
`event` what they point to; the first is taken by a null pointer. `unseen` has the ids
whose slot the GPU has written, with no `set_event` since then. -/
structure Process where
  idr : Bitmap
  event : Nat → Option Event
  signalPage : Option Page
  signalMappedSize : Nat
  signalEventCount : Nat
  unseen : Bitmap

def kfdEventInitProcess : Process :=
  { idr := {0}
    event := fun _ => none
    signalPage := none
    signalMappedSize := 0
    signalEventCount := 1
    unseen := ∅ }

structure Alloc where
  event : Bool
  page : Bool
  idr : Bool

/-! ## Creation -/

/-- `idr_alloc` of the event between `start` and `last`. A bound that is not positive
stands for `INT_MAX + 1`. -/
def idrAlloc (p : Process) (ev : Event) (start last : Int) (ok : Bool) :
    Except Errno (Process × Nat) :=
  if start < 0 then .error .einval
  else
    let max := if 0 < last then last.toNat else intEnd
    let id := findNextZeroBit p.idr max start.toNat
    if max ≤ id then .error .enospc
    else if ok = false then .error .enomem
    else .ok ({ p with
      idr := insert id p.idr
      event := update p.event id (some ev) }, id)

/-- A number as an `int`. -/
def toInt32 (n : Nat) : Int :=
  (BitVec.ofNat 32 n).toInt

def driverPage : Page :=
  Page.clear { size := 8 * signalEventLimit, slots := fun _ => 0, outside := false }

def ensureSignalPage (p : Process) (ok : Bool) : Option Process :=
  match p.signalPage with
  | some _ => some p
  | none =>
    if ok then some { p with signalPage := some driverPage, signalMappedSize := 256 * 8 } else none

def idrAllocAt (p : Process) (ev : Event) (restoreId : UInt32) (ok : Bool) :
    Except Errno (Process × Nat) :=
  idrAlloc p ev (toInt32 restoreId.toNat) (toInt32 (restoreId.toNat + 1)) ok

def allocateEventNotificationSlot (p : Process) (ev : Event) (restoreId : Option UInt32)
    (a : Alloc) : Process × Except Errno Nat :=
  match ensureSignalPage p a.page with
  | none => (p, .error .enomem)
  | some p =>
    let r :=
      match restoreId with
      | some restoreId => idrAllocAt p ev restoreId a.idr
      | none => idrAlloc p ev 0 (toInt32 (p.signalMappedSize / 8)) a.idr
    match r with
    | .error e => (p, .error e)
    | .ok (p, id) =>
      ({ p with signalPage := p.signalPage.map (·.write id unsignaledEventSlot) }, .ok id)

def createSignalEvent (p : Process) (ev : Event) (restoreId : Option UInt32) (a : Alloc) :
    Process × Except Errno Nat :=
  if p.signalMappedSize ≠ 0 ∧ p.signalEventCount = p.signalMappedSize / 8 then
    (p, .error .enospc)
  else
    match allocateEventNotificationSlot p ev restoreId a with
    | (p, .error e) => (p, .error e)
    | (p, .ok id) => ({ p with signalEventCount := p.signalEventCount + 1 }, .ok id)

def createOtherEvent (p : Process) (ev : Event) (restoreId : Option UInt32) (a : Alloc) :
    Process × Except Errno Nat :=
  let r :=
    match restoreId with
    | some restoreId => idrAllocAt p ev restoreId a.idr
    | none => idrAlloc p ev firstNonsignalEventId (toInt32 intEnd) a.idr
  match r with
  | .error e => (p, .error e)
  | .ok (p, id) => (p, .ok id)

def kfdEventCreate (p : Process) (type : EventType) (autoReset : Bool) (a : Alloc) :
    Process × Except Errno Nat :=
  if a.event = false then (p, .error .enomem)
  else
    let ev : Event :=
      { type := type, autoReset := autoReset, signaled := false, eventAge := 1, waiters := [] }
    match type with
    | .signal => createSignalEvent p ev none a
    | .debug => createSignalEvent p ev none a
    | _ => createOtherEvent p ev none a

/-! ## The event page -/

/-- A buffer that the user gives for the page, as the kernel maps it. -/
structure Bo where
  size : Nat
  content : Nat → UInt64

def kfdEventPageSet (p : Process) (bo : Bo) (ok : Bool) : Process × Option Errno :=
  match p.signalPage with
  | some _ => (p, some .ebusy)
  | none =>
    if ok = false then (p, some .enomem)
    else
      ({ p with
          signalPage := some (Page.clear { size := bo.size, slots := bo.content, outside := false })
          signalMappedSize := bo.size }, none)

/-- `kfd_kmap_event_page`. `bo` is the buffer, or the error in finding or mapping
it. -/
def kfdKmapEventPage (p : Process) (bo : Except Errno Bo) (ok : Bool) : Process × Option Errno :=
  match p.signalPage with
  | some _ => (p, some .einval)
  | none =>
    match bo with
    | .error e => (p, some e)
    | .ok bo => kfdEventPageSet p bo ok

/-! ## Checkpoints -/

/-- `struct kfd_criu_event_priv_data`, with the buffer of a handle that is not 0. -/
structure EventPriv where
  userHandle : Option (Except Errno Bo)
  eventId : UInt32
  type : EventType
  autoReset : Bool
  signaled : Bool

def restorePage (p : Process) (priv : EventPriv) (a : Alloc) : Process × Option Errno :=
  match priv.userHandle with
  | none => (p, none)
  | some bo => kfdKmapEventPage p bo a.page

/-- `kfd_criu_restore_event`. `early` is an error before the data is read. An event of
an unknown type is not entered in the table. -/
def kfdCriuRestoreEvent (p : Process) (priv : EventPriv) (early : Option Errno) (a : Alloc) :
    Process × Option Errno :=
  match early with
  | some e => (p, some e)
  | none =>
    match restorePage p priv a with
    | (p, some e) => (p, some e)
    | (p, none) =>
      let ev : Event :=
        { type := priv.type
          autoReset := priv.autoReset
          signaled := priv.signaled
          eventAge := 0
          waiters := [] }
      let done := fun r : Process × Except Errno Nat =>
        match r with
        | (p, .error e) => (p, some e)
        | (p, .ok _) => (p, none)
      match priv.type with
      | .signal => done (createSignalEvent p ev (some priv.eventId) a)
      | .debug => done (createSignalEvent p ev (some priv.eventId) a)
      | .memory => done (createOtherEvent p ev (some priv.eventId) a)
      | .hwException => done (createOtherEvent p ev (some priv.eventId) a)
      | .other _ => (p, none)

/-! ## Destruction -/

def kfdEventDestroy (p : Process) (id : Nat) : Process × Option Errno :=
  match p.event id with
  | none => (p, some .einval)
  | some ev =>
    ({ p with
        idr := p.idr.erase id
        event := update p.event id none
        signalEventCount :=
          if ev.canBeGpuSignaled then p.signalEventCount - 1 else p.signalEventCount
        unseen := p.unseen.erase id }, none)

/-! ## Interrupts -/

def setEvent (ev : Event) : Event :=
  let age := ev.eventAge + 1
  { ev with
    signaled := !ev.autoReset || ev.waiters.isEmpty
    eventAge := if age = 0 then 2 else age
    waiters := ev.waiters.map fun _ => true }

def setEventFromInterrupt (p : Process) (id : Nat) : Process :=
  match p.event id with
  | none => p
  | some ev =>
    if ev.canBeGpuSignaled then
      { p with
        signalPage := p.signalPage.map (·.write id unsignaledEventSlot)
        event := update p.event id (some (setEvent ev))
        unseen := p.unseen.erase id }
    else p

/-- The loop of `lookup_signaled_event_by_partial_id`, with a bound on its rounds. It
returns the id of the event. -/
def lookupLoop (p : Process) (page : Page) (bits : Nat) : Nat → Nat → Option Nat
  | 0, _ => none
  | rounds + 1, id =>
    if signalEventLimit ≤ id then none
    else if page.slots id = unsignaledEventSlot then lookupLoop p page bits rounds (id + 2 ^ bits)
    else if (p.event id).isSome then some id
    else lookupLoop p page bits rounds (id + 2 ^ bits)

def lookupSignaledEventByPartialId (p : Process) (page : Page) (id bits : Nat) : Option Nat :=
  if signalEventLimit ≤ id then none
  else if 31 < bits ∨ signalEventLimit ≤ 2 ^ bits then
    if page.slots id = unsignaledEventSlot then none
    else if (p.event id).isSome then some id else none
  else lookupLoop p page bits signalEventLimit id

def slotIsSignaled (p : Process) (id : Nat) : Bool :=
  match p.signalPage with
  | none => false
  | some page => decide (page.slots id ≠ unsignaledEventSlot)

def scanSlot (p : Process) (id : Nat) : Process :=
  if slotIsSignaled p id then setEventFromInterrupt p id else p

/-- The exhaustive search: over the table when there are few events, else over the
slots. -/
def scanSlots (p : Process) : Process :=
  if p.signalEventCount < signalEventLimit / 64 then
    ((List.range signalEventLimit).filter fun id => (p.event id).isSome).foldl scanSlot p
  else (List.range' 1 (signalEventLimit - 1)).foldl scanSlot p

def kfdSignalEventInterrupt (p : Process) (partialId validIdBits : Nat) : Process :=
  match p.signalPage with
  | none => p
  | some page =>
    match if validIdBits ≠ 0 then lookupSignaledEventByPartialId p page partialId validIdBits
      else none with
    | some id => setEventFromInterrupt p id
    | none => scanSlots p

end Amdkfd.Events
