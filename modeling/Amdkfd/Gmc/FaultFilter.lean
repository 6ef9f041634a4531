import Amdkfd.Basic
import Amdkfd.Lib.Newest
import Amdkfd.Lib.Run

/-!
# The filter of retry faults

`amdgpu_gmc_filter_faults` and `amdgpu_gmc_filter_faults_remove` of `amdgpu_gmc.c`: the recent
faults are in a ring, and those of one hash value are linked from the newest to the oldest. A slot
of the ring is used again without unlinking it. The faults that were let through are numbered in
a ghost history.
-/

namespace Amdkfd.FaultFilter

open Lib

/-- `AMDGPU_GMC_FAULT_RING_ORDER`, `AMDGPU_GMC_FAULT_HASH_ORDER` and
`AMDGPU_GMC_FAULT_TIMEOUT`. -/
def ringOrder : Nat := 8
def hashOrder : Nat := 8
def timeout : Nat := 5000

/-- `AMDGPU_GMC_FAULT_RING_SIZE`. -/
def ringSize : Nat := 2 ^ ringOrder

/-- `amdgpu_ih_ts_after`: the time stamp `t2` is after `t1`, with 48 bits that wrap around. -/
def tsAfter (t1 t2 : Nat) : Bool :=
  let d := (t2 % 2 ^ 48 + 2 ^ 48 - t1 % 2 ^ 48) % 2 ^ 48
  0 < d && d < 2 ^ 47

/-- `amdgpu_gmc_fault_key`. -/
def faultKey (addr pasid : Nat) : Nat := addr * 2 ^ 4 % 2 ^ 64 ||| pasid

/-- `hash_64(key, AMDGPU_GMC_FAULT_HASH_ORDER)`. -/
def keyHash (key : Nat) : Nat := hash64 key hashOrder

/-- `struct amdgpu_gmc_fault`. -/
structure Fault where
  timestamp : Nat
  next : Nat
  key : Nat
  timestampExpiry : Nat
  deriving DecidableEq

/-- A fault that was let through. `inherited` is the expiry that it found in its slot, `expired`
the one of the last removal since. -/
structure Passed where
  addr : Nat
  pasid : Nat
  timestamp : Nat
  inherited : Nat
  expired : Option Nat
  deriving DecidableEq

def Passed.key (p : Passed) : Nat := faultKey p.addr p.pasid

/-- The fault log of `struct amdgpu_gmc`. `passed`, `count` and `now`, the time stamp of the last
call, are ghosts. -/
structure Gmc where
  faultRing : Nat → Fault
  faultHash : Nat → Nat
  lastFault : Nat
  passed : Nat → Passed
  count : Nat
  now : Nat

def init : Gmc :=
  { faultRing := fun _ => ⟨0, 0, 0, 0⟩, faultHash := fun _ => 0, lastFault := 0
    passed := fun _ => ⟨0, 0, 0, 0, none⟩, count := 0, now := 0 }

/-- The walk over a chain: from the slot `i` to the first fault with the key that is not older
than `stamp`. It ends where the next slot is not older, which was used again then. -/
def chainWalk (ring : Nat → Fault) (key stamp i : Nat) : Option Nat :=
  if (ring i).timestamp < stamp then none
  else if (ring i).key = key then some i
  else if _h : (ring i).timestamp ≤ (ring (ring i).next).timestamp then none
  else chainWalk ring key stamp (ring i).next
termination_by (ring i).timestamp
decreasing_by omega

/-- The start of `amdgpu_gmc_filter_faults`: whether the fault is not to be added. -/
def isFiltered (s : Gmc) (addr pasid timestamp processed : Nat) : Bool :=
  let key := faultKey addr pasid
  let stamp := max timestamp (timeout + 1) - timeout
  if tsAfter timestamp processed then true
  else if stamp ≤ (s.faultRing s.lastFault).timestamp then true
  else
    match chainWalk s.faultRing key stamp (s.faultHash (keyHash key)) with
    | none => false
    | some i =>
      let expiry := (s.faultRing i).timestampExpiry
      ¬ (expiry ≠ 0 ∧ tsAfter expiry timestamp)

/-- The end of `amdgpu_gmc_filter_faults`. The expiry of the slot stays. -/
def addFault (s : Gmc) (addr pasid timestamp : Nat) : Gmc :=
  let key := faultKey addr pasid
  let hash := keyHash key
  let fault := s.faultRing s.lastFault
  { s with
    faultRing := fun i =>
      if i = s.lastFault then
        { fault with key := key, timestamp := timestamp % 2 ^ 48, next := s.faultHash hash }
      else s.faultRing i
    faultHash := fun i => if i = hash then s.lastFault else s.faultHash i
    lastFault := (s.lastFault + 1) % ringSize
    passed := fun n =>
      if n = s.count then ⟨addr, pasid, timestamp, fault.timestampExpiry, none⟩ else s.passed n
    count := s.count + 1 }

def filterFaults (s : Gmc) (addr pasid timestamp processed : Nat) : Gmc × Bool :=
  if isFiltered s addr pasid timestamp processed then (s, true)
  else (addFault s addr pasid timestamp, false)

def Gmc.latest (s : Gmc) (key : Nat) : Option Nat :=
  newest (fun n => (s.passed n).key = key) s.count

/-- The removal is noted in the history. -/
def Gmc.expire (s : Gmc) (key lastTs : Nat) : Gmc :=
  match s.latest key with
  | none => s
  | some p => { s with
      passed := fun n =>
        if n = p then { s.passed p with expired := some lastTs } else s.passed n }

/-- `amdgpu_gmc_filter_faults_remove`. `lastTs` is the time stamp of the last entry of the
interrupt ring. -/
def filterFaultsRemove (s : Gmc) (addr pasid : Nat) (retryCamEnabled : Bool) (lastTs : Nat) :
    Gmc :=
  if retryCamEnabled then s
  else
    let key := faultKey addr pasid
    match chainWalk s.faultRing key 0 (s.faultHash (keyHash key)) with
    | none => s.expire key lastTs
    | some i =>
      { s.expire key lastTs with
        faultRing := fun k =>
          if k = i then { s.faultRing i with timestampExpiry := lastTs % 2 ^ 48 }
          else s.faultRing k }

/-- The calls. -/
inductive Op
  | filter (addr pasid timestamp processed : Nat)
  | remove (addr pasid : Nat) (retryCamEnabled : Bool) (lastTs : Nat)
  deriving DecidableEq

def step (s : Gmc) : Op → Gmc
  | .filter addr pasid timestamp processed =>
    { (filterFaults s addr pasid timestamp processed).1 with now := timestamp }
  | .remove addr pasid retryCamEnabled lastTs =>
    filterFaultsRemove s addr pasid retryCamEnabled lastTs

/-! ## What is to be shown -/

def Valid (addr pasid : Nat) : Prop := addr % 2 ^ 12 = 0 ∧ addr < 2 ^ 48 ∧ pasid < 2 ^ 16
  deriving Decidable

/-- The time stamps are of 48 bits and not zero, those of the faults do not decrease, and none is
older than the last one that its interrupt ring has processed. -/
def InTime (s : Gmc) : Op → Prop
  | .filter addr pasid timestamp processed =>
    Valid addr pasid ∧ s.now ≤ timestamp ∧ 0 < timestamp ∧ timestamp < 2 ^ 48 ∧
      tsAfter timestamp processed = false
  | .remove _ _ _ lastTs => 0 < lastTs ∧ lastTs < 2 ^ 48

instance (s : Gmc) (op : Op) : Decidable (InTime s op) := by
  cases op <;> unfold InTime <;> infer_instance

/-- A fault of the time `ts` is not timed out at `t`. -/
def Young (t ts : Nat) : Prop := t ≤ ts + timeout
  deriving Decidable

def RingFull (s : Gmc) (t : Nat) : Prop :=
  ringSize ≤ s.count ∧ ∀ n < s.count, s.count ≤ n + ringSize → Young t (s.passed n).timestamp

instance (s : Gmc) (t : Nat) : Decidable (RingFull s t) := inferInstanceAs (Decidable (_ ∧ _))

/-- The last fault of the address and PASID that was let through. -/
def Gmc.same (s : Gmc) (addr pasid : Nat) : Option Nat :=
  newest (fun n => (s.passed n).addr = addr ∧ (s.passed n).pasid = pasid) s.count

/-- The fault was removed since, with an expiry older than `t`. -/
def Passed.removed (p : Passed) (t : Nat) : Bool := p.expired.any fun x => tsAfter x t

/-- The fault was let through within the timeout and not removed since. -/
def Known (s : Gmc) (addr pasid t : Nat) : Prop :=
  ∃ p ∈ s.same addr pasid, Young t (s.passed p).timestamp ∧ (s.passed p).removed t = false
  deriving Decidable

/-- The faults `m` and `n` come at one time, in the chain of `p` and not before it. -/
def SameTime (s : Gmc) (p m n : Nat) : Prop :=
  p ≤ m ∧ keyHash (s.passed m).key = keyHash (s.passed p).key ∧
    keyHash (s.passed n).key = keyHash (s.passed p).key ∧
    (s.passed m).timestamp = (s.passed n).timestamp
  deriving Decidable

/-- No two faults of the hash value of `p` that were let through since `p` have one time stamp. -/
def Apart (s : Gmc) (p : Nat) : Prop := ∀ n < s.count, ∀ m < n, ¬ SameTime s p m n

instance (s : Gmc) (p : Nat) : Decidable (Apart s p) := by
  unfold Apart
  infer_instance

/-- The last fault `p` of an address, asked for at `t`, is seen for what it is: it did not take
over an older expiry, and it is not cut off its chain by two faults of one time stamp. -/
def SeenAt (s : Gmc) (t p : Nat) : Prop :=
  if Apart s p then
    (s.passed p).expired ≠ none ∨
      ¬ ((s.passed p).inherited ≠ 0 ∧ tsAfter (s.passed p).inherited t = true)
  else (s.passed p).removed t = true
  deriving Decidable

def Seen (s : Gmc) (addr pasid t : Nat) : Prop :=
  RingFull s t ∨ ∀ p ∈ s.same addr pasid, Young t (s.passed p).timestamp → SeenAt s t p
  deriving Decidable

end Amdkfd.FaultFilter
