import Amdkfd.Events.Model

/-!
# Waiting on events

`kfd_wait_on_events` of `kfd_events.c`, beside `set_event`, `kfd_reset_event` and
`kfd_event_destroy` of other threads. A call takes `event_mutex` to initialize its waiters and
to return, and holds no lock in between. `ev->lock` is held while the queue of an event is
walked, so `set_event`, `destroy_event` and the setup or removal of one waiter are one step
each. The pointer and the flag of a waiter are read without a lock, so each of these reads is
a step.

A wait queue entry whose task is woken leaves the queue (`autoremove_wake_function`); which of
them do is an argument of the steps that wake.
-/

namespace Amdkfd.EventWait

open Events (EventType)

/-! ## Data -/

/-- An entry of a wait queue: the call and the index of the waiter. -/
abbrev Entry := Nat × Nat

/-- `struct kfd_event`. -/
structure Event where
  type : EventType
  autoReset : Bool
  signaled : Bool
  eventAge : UInt64
  wq : List Entry
  deriving DecidableEq

/-- `struct kfd_event_data`, what a waiter uses of it. -/
structure EventData where
  eventId : Nat
  lastEventAge : UInt64
  deriving DecidableEq

/-- `struct kfd_event_waiter`, with the entry of the user's array that it is for. Events are
named by their address. `waited` is the event that was found for it, which the code does not
keep: it stays when `event` is cleared. -/
structure Waiter where
  data : EventData
  event : Option Nat
  activated : Bool
  eventAgeEnabled : Bool
  waited : Option Nat
  deriving DecidableEq

inductive WaitResult
  | complete
  | timeout
  | fail
  deriving DecidableEq

/-- Where a call is. `scan` is `test_event_condition`, `first` for the check with the mutex
held and `seen` after the pointer of the waiter is read. `src` of `copy` is what
`copy_signaled_event_data` has copied from last. -/
inductive Phase
  | lock
  | init (i : Nat)
  | scan (first : Bool) (i count : Nat) (seen : Bool)
  | loop
  | relock
  | copy (i : Nat) (src : Option Nat)
  | free (i : Nat)
  | done
  deriving DecidableEq

/-- A call of `kfd_wait_on_events`. -/
structure Wait where
  all : Bool
  waiters : List Waiter
  phase : Phase
  ret : Option Errno
  result : WaitResult
  deriving DecidableEq

/-- The events of the process: the objects by address, the table from ids to addresses, the
holder of `event_mutex`, and the calls so far. An address is used for one event only. -/
structure State where
  heap : List Event
  idr : List (Nat × Nat)
  mutex : Option Nat
  waits : List Wait

def init : State :=
  { heap := [], idr := [], mutex := none, waits := [] }

def State.Live (s : State) (a : Nat) : Prop :=
  a ∈ s.idr.map (·.2)
  deriving Decidable

def lookupEventById (s : State) (id : Nat) : Option Nat :=
  (s.idr.find? (·.1 = id)).map (·.2)

def State.mapQueued (s : State) (wq : List Entry) (f : Waiter → Waiter) : State :=
  { s with
    waits := s.waits.mapIdx fun t w =>
      { w with waiters := w.waiters.mapIdx fun i x => if (t, i) ∈ wq then f x else x } }

def State.setWait (s : State) (t : Nat) (w : Wait) : State :=
  { s with waits := s.waits.set t w }

/-! ## Events -/

/-- `++ev->event_age`, which leaves out the reserved ages. -/
def nextAge (age : UInt64) : UInt64 :=
  if age + 1 = 0 then 2 else age + 1

def setEvent (s : State) (a : Nat) (ev : Event) (woken : List Entry) : State :=
  { s with
    heap := s.heap.set a
      { ev with
        signaled := !ev.autoReset || ev.wq.isEmpty
        eventAge := nextAge ev.eventAge
        wq := ev.wq.filter (· ∉ woken) } }.mapQueued ev.wq ({ · with activated := true })

def kfdEventDestroy (s : State) (id : Nat) (woken : List Entry) : State :=
  match s.mutex, lookupEventById s id with
  | none, some a =>
    match s.heap[a]? with
    | none => s
    | some ev =>
      { s with
        heap := s.heap.set a { ev with wq := ev.wq.filter (· ∉ woken) }
        idr := s.idr.filter (·.1 ≠ id) }.mapQueued ev.wq ({ · with event := none })
  | _, _ => s

/-- An event with the id `id` that is free. One of `kfd_event_create` has age 1 and is not
signaled; one of `kfd_criu_restore_event` has age 0. -/
def eventCreate (s : State) (id : Nat) (type : EventType) (autoReset signaled : Bool)
    (eventAge : UInt64) : State :=
  match s.mutex, lookupEventById s id with
  | none, none =>
    { s with
      heap := s.heap ++ [{ type, autoReset, signaled, eventAge, wq := [] }]
      idr := (id, s.heap.length) :: s.idr }
  | _, _ => s

/-! ## A call -/

/-- What the environment decides in a step of a call: a fault of a copy from or to the user, a
signal (`true` for a fatal one), whether the timeout has expired, and the entries that a wake-up
takes from a queue. -/
structure Choice where
  fault : Bool
  signal : Option Bool
  expired : Bool
  woken : List Entry

def Waiter.initialized (x : Waiter) (a : Nat) (ev : Event) : Waiter :=
  let enabled := decide (ev.type = .signal) && decide (x.data.lastEventAge ≠ 0)
  { x with
    event := some a
    activated := ev.signaled || (enabled && decide (ev.eventAge ≠ x.data.lastEventAge))
    eventAgeEnabled := enabled
    waited := some a }

def initEventWaiter (s : State) (t i : Nat) (w : Wait) (x : Waiter) : Except Errno State :=
  match lookupEventById s x.data.eventId with
  | none => .error .einval
  | some a =>
    match s.heap[a]? with
    | none => .error .einval
    | some ev =>
      let x := x.initialized a ev
      let ev :=
        { ev with
          signaled := ev.signaled && !ev.autoReset
          wq := if x.activated then ev.wq else (t, i) :: ev.wq }
      .ok ({ s with heap := s.heap.set a ev }.setWait t
        { w with waiters := w.waiters.set i x, phase := .init (i + 1) })

/-- What follows a check with the result `r`. -/
def afterScan (s : State) (t : Nat) (w : Wait) (first : Bool) (r : WaitResult) (expired : Bool) :
    State :=
  let w := { w with result := r }
  match first, r with
  | true, .complete => s.setWait t { w with phase := .copy 0 none }
  | true, .fail => s.setWait t { w with phase := .free 0 }
  | true, .timeout => { s with mutex := none }.setWait t { w with phase := .loop }
  | false, .timeout => s.setWait t { w with phase := if expired then .relock else .loop }
  | false, _ => s.setWait t { w with phase := .relock }

/-- What `copy_signaled_event_data` copies from for an activated waiter; `src` and its size are
kept from the waiter before. -/
def copySource (a : Nat) (ev : Event) (x : Waiter) (src : Option Nat) : Option Nat :=
  match ev.type with
  | .memory => some a
  | .hwException => some a
  | .signal => if x.eventAgeEnabled then some a else src
  | _ => src

/-- The event that `free_waiters` sets again for the waiter. -/
def undoneBy (s : State) (w : Wait) (x : Waiter) : Option Nat :=
  x.event.filter fun a =>
    decide (w.ret = some .erestartsys) && x.activated && (s.heap[a]?).any (·.autoReset)

def freeWaiter (s : State) (t i : Nat) (w : Wait) (x : Waiter) (woken : List Entry) : State :=
  let next := { w with phase := .free (i + 1) }
  match x.event with
  | none => s.setWait t next
  | some a =>
    match s.heap[a]? with
    | none => s.setWait t next
    | some ev =>
      let ev := { ev with wq := ev.wq.filter (· ≠ (t, i)) }
      let s' := { s with heap := s.heap.set a ev }.setWait t next
      if (undoneBy s w x).isSome then setEvent s' a ev woken else s'

/-- The label `out`. -/
def Wait.finish (w : Wait) : Wait :=
  { w with
    waiters := []
    phase := .done
    ret := if w.ret = none ∧ w.result = .fail then some .eio else w.ret
    result := if w.ret = none then w.result else .fail }

def callStep (s : State) (t : Nat) (w : Wait) (c : Choice) : State :=
  match w.phase with
  | .lock =>
    match s.mutex with
    | none => { s with mutex := some t }.setWait t { w with phase := .init 0 }
    | some _ => s
  | .init i =>
    match w.waiters[i]? with
    | none => s.setWait t { w with phase := .scan true 0 0 false }
    | some x =>
      if c.fault then s.setWait t { w with ret := some .efault, phase := .free 0 }
      else
        match initEventWaiter s t i w x with
        | .error e => s.setWait t { w with ret := some e, phase := .free 0 }
        | .ok s => s
  | .scan first i count seen =>
    match w.waiters[i]? with
    | none =>
      afterScan s t w first (if count = w.waiters.length then .complete else .timeout) c.expired
    | some x =>
      if seen = false then
        if x.event = none then afterScan s t w first .fail c.expired
        else s.setWait t { w with phase := .scan first i count true }
      else if x.activated = false then
        s.setWait t { w with phase := .scan first (i + 1) count false }
      else if w.all = false then afterScan s t w first .complete c.expired
      else s.setWait t { w with phase := .scan first (i + 1) (count + 1) false }
  | .loop =>
    match c.signal with
    -- -EINTR
    | some true => s.setWait t { w with ret := some .other, phase := .relock }
    | some false => s.setWait t { w with ret := some .erestartsys, phase := .relock }
    | none => s.setWait t { w with phase := .scan false 0 0 false }
  | .relock =>
    match s.mutex with
    | none =>
      let copies := w.ret = none ∧ w.result = .complete
      { s with mutex := some t }.setWait t
        { w with phase := if copies then .copy 0 none else .free 0 }
    | some _ => s
  | .copy i src =>
    match w.waiters[i]? with
    | none => s.setWait t { w with phase := .free 0 }
    | some x =>
      match x.event with
      | none => s.setWait t { w with ret := some .einval, phase := .free 0 }
      | some a =>
        match s.heap[a]? with
        | none => s
        | some ev =>
          if x.activated = false then s.setWait t { w with phase := .copy (i + 1) src }
          else if (copySource a ev x src).isSome ∧ c.fault then
            s.setWait t { w with ret := some .efault, phase := .free 0 }
          else s.setWait t { w with phase := .copy (i + 1) (copySource a ev x src) }
  | .free i =>
    match w.waiters[i]? with
    | none => { s with mutex := none }.setWait t w.finish
    | some x => freeWaiter s t i w x c.woken
  | .done => s

/-- The call before anything is done, with zeroed waiters. -/
def newWait (all : Bool) (data : List EventData) : Wait :=
  { all := all
    waiters := data.map fun d =>
      { data := d, event := none, activated := false, eventAgeEnabled := false, waited := none }
    phase := .lock
    ret := none
    result := .timeout }

/-! ## Steps -/

/-- A step. `set` and `reset` name the object: it was looked up before, and may have been
destroyed since then. -/
inductive Op
  | create (id : Nat) (type : EventType) (autoReset signaled : Bool) (eventAge : UInt64)
  | set (a : Nat) (woken : List Entry)
  | reset (a : Nat)
  | destroy (id : Nat) (woken : List Entry)
  | start (all : Bool) (data : List EventData)
  | call (t : Nat) (c : Choice)

def step (s : State) : Op → State
  | .create id type autoReset signaled eventAge => eventCreate s id type autoReset signaled eventAge
  | .set a woken =>
    match s.heap[a]? with
    | none => s
    | some ev => setEvent s a ev woken
  | .reset a =>
    match s.heap[a]? with
    | none => s
    | some ev => { s with heap := s.heap.set a { ev with signaled := false } }
  | .destroy id woken => kfdEventDestroy s id woken
  | .start all data => { s with waits := s.waits ++ [newWait all data] }
  | .call t c =>
    match s.waits[t]? with
    | none => s
    | some w => callStep s t w c

/-- The events that the next step of the call `t` reads or writes. -/
def accesses (s : State) (t : Nat) : List Nat :=
  match s.waits[t]? with
  | none => []
  | some w =>
    match w.phase with
    | .init i => ((w.waiters[i]?).bind fun x => lookupEventById s x.data.eventId).toList
    | .copy i src =>
      match w.waiters[i]? with
      | none => []
      | some x => if x.event ≠ none ∧ x.activated then x.event.toList ++ src.toList else []
    | .free i => ((w.waiters[i]?).bind (·.event)).toList
    | _ => []

def setsEvent (s : State) : Op → Option Nat
  | .set a _ => some a
  | .call t _ =>
    match s.waits[t]? with
    | none => none
    | some w =>
      match w.phase with
      | .free i => (w.waiters[i]?).bind (undoneBy s w)
      | _ => none
  | _ => none

end Amdkfd.EventWait
