import Mathlib.Data.UInt
import Amdkfd.Basic
import Amdkfd.Lib.Bitmap
import Amdkfd.Lib.Run

/-!
# Watch points

`kfd_dbg_trap_set_dev_address_watch` and `kfd_dbg_trap_clear_dev_address_watch` of
`kfd_debug.c`. A device has four watch points. It keeps the ones in use in
`alloc_watch_ids`, and so does each process for its own. Both bitmaps change under
a lock, but the hardware is programmed outside of it, so the calls of different
processes interleave.

A shift by an id takes its count modulo 32, as the processor does; C leaves a
shift by a negative `int` open.
-/

namespace Amdkfd.Debug

open Lib Function Finset

def maxWatchAddresses : Nat := 4

def invalidWatchPointId : UInt32 := 0xffffffff

/-- A call that a process has begun, with the watch point that it is about. -/
inductive Call
  | set (watchId : Nat)
  | clear (watchId : UInt32)
  deriving DecidableEq

/-- The watch points of a process on the device. `watchPoints` is the memory at
`watch_points`, by index. -/
structure Pdd where
  allocWatchIds : Bitmap
  watchPoints : Nat → UInt32
  call : Option Call

/-- The device with its processes. -/
structure Device where
  enableMes : Bool
  allocWatchIds : Bitmap
  pdds : Nat → Pdd

def Device.setPdd (dev : Device) (p : Nat) (pdd : Pdd) : Device :=
  { dev with pdds := update dev.pdds p pdd }

def watchBit (watchId : UInt32) : Nat :=
  watchId.toNat % 32

/-! ## The critical sections -/

def kfdDbgGetDevWatchId (dev : Device) (p : Nat) : Device × Option Nat :=
  match (List.range maxWatchAddresses).find? (· ∉ dev.allocWatchIds) with
  | none => (dev, none)
  | some i =>
    ({ dev.setPdd p { dev.pdds p with
          allocWatchIds := bitmapSet (dev.pdds p).allocWatchIds i 1 } with
        allocWatchIds := bitmapSet dev.allocWatchIds i 1 }, some i)

def kfdDbgClearDevWatchId (dev : Device) (p bit : Nat) : Device :=
  if bit ∈ (dev.pdds p).allocWatchIds then
    { dev.setPdd p { dev.pdds p with
        allocWatchIds := bitmapClear (dev.pdds p).allocWatchIds bit 1 } with
      allocWatchIds := bitmapClear dev.allocWatchIds bit 1 }
  else dev

def kfdDbgOwnsDevWatchId (dev : Device) (p : Nat) (watchId : UInt32) : Bool :=
  watchId.toBitVec.toInt < maxWatchAddresses && watchBit watchId ∈ (dev.pdds p).allocWatchIds

def Device.setCall (dev : Device) (p : Nat) (call : Option Call) : Device :=
  dev.setPdd p { dev.pdds p with call := call }

/-- The hardware's answer goes to `watch_points[watch_id]`. -/
def Device.program (dev : Device) (p index : Nat) (value : UInt32) : Device :=
  dev.setPdd p
    { dev.pdds p with watchPoints := update (dev.pdds p).watchPoints index value }

/-! ## The calls -/

/-- What a call gives back: the error, and the id in the caller's memory. -/
structure Ret where
  err : Option Errno
  watchId : UInt32
  deriving DecidableEq

/-- The steps of the calls of the process `p`. The second step of a call has the
outcome of `debug_lock_and_unmap`, that of `debug_map_and_unlock` or of
`kfd_dbg_set_mes_debug_mode`, and the value that the hardware reports. -/
inductive Act
  | setStart (p : Nat)
  | setFinish (p : Nat) (unmap map : Option Errno) (value : UInt32)
  | clearStart (p : Nat) (watchId : UInt32)
  | clearFinish (p : Nat) (unmap map : Option Errno) (value : UInt32)

def setStart (dev : Device) (p : Nat) : Device × Option Ret :=
  match kfdDbgGetDevWatchId dev p with
  | (dev, none) => (dev, some { err := some .enomem, watchId := invalidWatchPointId })
  | (dev, some i) => (dev.setCall p (some (.set i)), none)

/-- `kfd_dbg_trap_set_dev_address_watch` from the hardware on. The error of the last
step is not returned. -/
def setFinish (dev : Device) (p i : Nat) (unmap map : Option Errno) (value : UInt32) :
    Device × Option Ret :=
  if dev.enableMes = false ∧ unmap ≠ none then
    ((kfdDbgClearDevWatchId dev p i).setCall p none,
      some { err := unmap, watchId := UInt32.ofNat i })
  else
    let dev := dev.program p i value
    let dev := if map ≠ none then kfdDbgClearDevWatchId dev p i else dev
    (dev.setCall p none, some { err := none, watchId := UInt32.ofNat i })

def clearStart (dev : Device) (p : Nat) (watchId : UInt32) : Device × Option Ret :=
  if kfdDbgOwnsDevWatchId dev p watchId then (dev.setCall p (some (.clear watchId)), none)
  else (dev, some { err := some .einval, watchId := watchId })

def clearFinish (dev : Device) (p : Nat) (watchId : UInt32) (unmap map : Option Errno)
    (value : UInt32) : Device × Option Ret :=
  if dev.enableMes = false ∧ unmap ≠ none then
    (dev.setCall p none, some { err := unmap, watchId := watchId })
  else
    let dev := dev.program p watchId.toNat value
    ((kfdDbgClearDevWatchId dev p (watchBit watchId)).setCall p none,
      some { err := map, watchId := watchId })

/-- A step. A process has one call at a time, under its mutex. -/
def act (dev : Device) : Act → Device × Option Ret
  | .setStart p => if (dev.pdds p).call = none then setStart dev p else (dev, none)
  | .setFinish p unmap map value =>
    match (dev.pdds p).call with
    | some (.set i) => setFinish dev p i unmap map value
    | _ => (dev, none)
  | .clearStart p watchId =>
    if (dev.pdds p).call = none then clearStart dev p watchId else (dev, none)
  | .clearFinish p unmap map value =>
    match (dev.pdds p).call with
    | some (.clear watchId) => clearFinish dev p watchId unmap map value
    | _ => (dev, none)

def next (dev : Device) (a : Act) : Device :=
  (act dev a).1

def Device.start (enableMes : Bool) : Device :=
  { enableMes := enableMes
    allocWatchIds := ∅
    pdds := fun _ => { allocWatchIds := ∅, watchPoints := fun _ => 0, call := none } }

/-! ## The promises -/

def Owns (dev : Device) (p : Nat) (watchId : UInt32) : Prop :=
  watchId.toNat < maxWatchAddresses ∧ watchId.toNat ∈ (dev.pdds p).allocWatchIds
  deriving Decidable

/-- The watch points in use are the disjoint union of those of the processes, and are
watch points of the hardware. -/
structure Partition (dev : Device) : Prop where
  mem_iff : ∀ i, i ∈ dev.allocWatchIds ↔ ∃ p, i ∈ (dev.pdds p).allocWatchIds
  disjoint : ∀ p q, p ≠ q → Disjoint (dev.pdds p).allocWatchIds (dev.pdds q).allocWatchIds
  lt : ∀ i ∈ dev.allocWatchIds, i < maxWatchAddresses
  set_mem : ∀ p i, (dev.pdds p).call = some (.set i) → i ∈ (dev.pdds p).allocWatchIds

/-- What a step promises. A set call that returns gives 0 exactly when the process
then owns the id it got; a clear call for an id that the process does not own fails
and changes nothing. -/
def Act.Keeps (dev : Device) (a : Act) : Prop :=
  match a, (act dev a).2 with
  | .setStart p, some ret => ret.err = none ↔ Owns (next dev a) p ret.watchId
  | .setFinish p _ _ _, some ret => ret.err = none ↔ Owns (next dev a) p ret.watchId
  | .clearStart p watchId, ret =>
    (dev.pdds p).call = none → ¬Owns dev p watchId →
      (∃ e, ret = some { err := some e, watchId := watchId }) ∧ next dev a = dev
  | _, _ => True

/-- The last step of a set call does not fail, and a clear call has no id from
`2 ^ 31` on that a shift takes for one that the process owns. -/
def Act.Ok (dev : Device) : Act → Prop
  | .setFinish p unmap map _ =>
    ∀ i, (dev.pdds p).call = some (.set i) → (dev.enableMes = false ∧ unmap ≠ none) ∨ map = none
  | .clearStart p watchId =>
    (dev.pdds p).call = none →
      watchId.toNat < 2 ^ 31 ∨ watchBit watchId ∉ (dev.pdds p).allocWatchIds
  | _ => True

/-! ## The partition is kept -/

section Partition
variable {dev : Device} {p : Nat}

@[simp] theorem setPdd_self (dev : Device) (p : Nat) (pdd : Pdd) :
    (dev.setPdd p pdd).pdds p = pdd :=
  update_self ..

theorem setPdd_of_ne {q : Nat} (h : q ≠ p) (pdd : Pdd) :
    (dev.setPdd p pdd).pdds q = dev.pdds q :=
  update_of_ne h _ _

theorem Partition.take (h : Partition dev) {i : Nat} (hfree : i ∉ dev.allocWatchIds)
    (hlt : i < maxWatchAddresses) :
    Partition { dev.setPdd p { dev.pdds p with
        allocWatchIds := bitmapSet (dev.pdds p).allocWatchIds i 1 } with
      allocWatchIds := bitmapSet dev.allocWatchIds i 1 } := by
  have hother : ∀ q, i ∉ (dev.pdds q).allocWatchIds := fun q hq =>
    hfree ((h.mem_iff i).mpr ⟨q, hq⟩)
  have hself : ∀ j, j ∈ bitmapSet (dev.pdds p).allocWatchIds i 1 ↔
      j ∈ (dev.pdds p).allocWatchIds ∨ j = i := by
    intro j
    rw [mem_bitmapSet]
    refine or_congr_right ⟨fun hj => by omega, fun hj => by omega⟩
  constructor
  · intro j
    rw [mem_bitmapSet, h.mem_iff]
    constructor
    · rintro (⟨q, hq⟩ | hj)
      · by_cases hqp : q = p
        · refine ⟨p, ?_⟩
          rw [setPdd_self]
          exact (hself j).mpr (.inl (hqp ▸ hq))
        · refine ⟨q, ?_⟩
          rw [setPdd_of_ne hqp]
          exact hq
      · refine ⟨p, ?_⟩
        rw [setPdd_self]
        exact (hself j).mpr (.inr (by omega))
    · rintro ⟨q, hq⟩
      by_cases hqp : q = p
      · rw [hqp, setPdd_self] at hq
        rcases (hself j).mp hq with hj | rfl
        · exact .inl ⟨p, hj⟩
        · exact .inr (by omega)
      · rw [setPdd_of_ne hqp] at hq
        exact .inl ⟨q, hq⟩
  · intro q r hne
    rw [disjoint_left]
    intro j hj hj'
    by_cases hqp : q = p
    · rw [hqp, setPdd_self] at hj
      rw [setPdd_of_ne (fun hrp => hne (hqp.trans hrp.symm))] at hj'
      rcases (hself j).mp hj with hj | rfl
      · exact disjoint_left.mp (h.disjoint p r (hqp ▸ hne)) hj hj'
      · exact hother r hj'
    · rw [setPdd_of_ne hqp] at hj
      by_cases hrp : r = p
      · rw [hrp, setPdd_self] at hj'
        rcases (hself j).mp hj' with hj' | rfl
        · exact disjoint_left.mp (h.disjoint q p hqp) hj hj'
        · exact hother q hj
      · rw [setPdd_of_ne hrp] at hj'
        exact disjoint_left.mp (h.disjoint q r hne) hj hj'
  · intro j hj
    rcases mem_bitmapSet.mp hj with hj | hj
    · exact h.lt j hj
    · omega
  · intro q j hcall
    by_cases hqp : q = p
    · rw [hqp, setPdd_self] at hcall ⊢
      exact (hself j).mpr (.inl (h.set_mem p j hcall))
    · rw [setPdd_of_ne hqp] at hcall ⊢
      exact h.set_mem q j hcall

theorem Partition.congr (h : Partition dev) {dev' : Device}
    (hdev : dev'.allocWatchIds = dev.allocWatchIds)
    (hpdds : ∀ q, (dev'.pdds q).allocWatchIds = (dev.pdds q).allocWatchIds)
    (hcall : ∀ q i, (dev'.pdds q).call = some (.set i) → i ∈ (dev.pdds q).allocWatchIds) :
    Partition dev' := by
  constructor
  · intro i
    rw [hdev, h.mem_iff]
    simp only [hpdds]
  · intro q r hne
    rw [hpdds, hpdds]
    exact h.disjoint q r hne
  · rw [hdev]
    exact h.lt
  · intro q i hq
    rw [hpdds]
    exact hcall q i hq

theorem Partition.setCall (h : Partition dev) {call : Option Call}
    (hcall : ∀ i, call = some (.set i) → i ∈ (dev.pdds p).allocWatchIds) :
    Partition (dev.setCall p call) := by
  refine h.congr rfl (fun q => ?_) fun q i hq => ?_
  · by_cases hqp : q = p
    · rw [hqp, Device.setCall, setPdd_self]
    · rw [Device.setCall, setPdd_of_ne hqp]
  · by_cases hqp : q = p
    · rw [hqp, Device.setCall, setPdd_self] at hq
      rw [hqp]
      exact hcall i hq
    · rw [Device.setCall, setPdd_of_ne hqp] at hq
      exact h.set_mem q i hq

theorem Partition.program (h : Partition dev) (index : Nat) (value : UInt32) :
    Partition (dev.program p index value) := by
  refine h.congr rfl (fun q => ?_) fun q i hq => ?_
  · by_cases hqp : q = p
    · rw [hqp, Device.program, setPdd_self]
    · rw [Device.program, setPdd_of_ne hqp]
  · by_cases hqp : q = p
    · rw [hqp, Device.program, setPdd_self] at hq
      rw [hqp]
      exact h.set_mem p i hq
    · rw [Device.program, setPdd_of_ne hqp] at hq
      exact h.set_mem q i hq

theorem mem_clear {bit i : Nat} :
    i ∈ ((kfdDbgClearDevWatchId dev p bit).pdds p).allocWatchIds ↔
      i ∈ (dev.pdds p).allocWatchIds ∧ i ≠ bit := by
  unfold kfdDbgClearDevWatchId
  split
  · rw [setPdd_self, mem_bitmapClear]
    refine and_congr_right fun _ => ⟨fun hi => by omega, fun hi => by omega⟩
  · next hbit =>
    refine ⟨fun hi => ⟨hi, fun heq => hbit (heq ▸ hi)⟩, And.left⟩

theorem clear_other {q bit : Nat} (h : q ≠ p) :
    (kfdDbgClearDevWatchId dev p bit).pdds q = dev.pdds q := by
  unfold kfdDbgClearDevWatchId
  split
  · exact setPdd_of_ne h _
  · rfl

theorem Partition.drop (h : Partition dev) (bit : Nat) :
    Partition ((kfdDbgClearDevWatchId dev p bit).setCall p none) := by
  by_cases hbit : bit ∈ (dev.pdds p).allocWatchIds
  · have hdev : ∀ i, i ∈ (kfdDbgClearDevWatchId dev p bit).allocWatchIds ↔
        i ∈ dev.allocWatchIds ∧ i ≠ bit := by
      intro i
      rw [kfdDbgClearDevWatchId, if_pos hbit]
      rw [mem_bitmapClear]
      refine and_congr_right fun _ => ⟨fun hi => by omega, fun hi => by omega⟩
    -- Before the call ends, the watch point of a set call may be the one given back.
    have hpart : ∀ q, ∀ i ∈ ((kfdDbgClearDevWatchId dev p bit).pdds q).allocWatchIds,
        i ∈ (dev.pdds q).allocWatchIds := by
      intro q i hi
      by_cases hqp : q = p
      · rw [hqp] at hi ⊢
        exact (mem_clear.mp hi).1
      · rwa [clear_other hqp] at hi
    have hbits : ∀ q, ((kfdDbgClearDevWatchId dev p bit).setCall p none).pdds q =
        { (kfdDbgClearDevWatchId dev p bit).pdds q with
          call := if q = p then none else (dev.pdds q).call } := by
      intro q
      by_cases hqp : q = p
      · rw [hqp, Device.setCall, setPdd_self, if_pos rfl]
      · rw [Device.setCall, setPdd_of_ne hqp, if_neg hqp, clear_other hqp]
    constructor
    · intro i
      refine (hdev i).trans ?_
      simp only [hbits]
      rw [h.mem_iff]
      constructor
      · rintro ⟨⟨q, hq⟩, hne⟩
        by_cases hqp : q = p
        · exact ⟨p, mem_clear.mpr ⟨hqp ▸ hq, hne⟩⟩
        · exact ⟨q, by rwa [clear_other hqp]⟩
      · rintro ⟨q, hq⟩
        refine ⟨⟨q, hpart q i hq⟩, fun heq => ?_⟩
        by_cases hqp : q = p
        · rw [hqp] at hq
          exact (mem_clear.mp hq).2 heq
        · have := hpart q i hq
          rw [heq] at this
          exact disjoint_left.mp (h.disjoint q p hqp) this hbit
    · intro q r hne
      simp only [hbits]
      exact (h.disjoint q r hne).mono (hpart q) (hpart r)
    · intro i hi
      exact h.lt i ((hdev i).mp hi).1
    · intro q i hq
      rw [hbits] at hq ⊢
      by_cases hqp : q = p
      · rw [if_pos hqp] at hq
        cases hq
      · rw [if_neg hqp] at hq
        rw [clear_other hqp]
        exact h.set_mem q i hq
  · rw [kfdDbgClearDevWatchId, if_neg hbit]
    exact h.setCall fun i hi => nomatch hi

theorem act_partition (h : Partition dev) (a : Act) : Partition (next dev a) := by
  cases a with
  | setStart p =>
    simp only [next, act]
    split
    · unfold setStart kfdDbgGetDevWatchId
      cases hfind : (List.range maxWatchAddresses).find? (· ∉ dev.allocWatchIds) with
      | none => exact h
      | some i =>
        have hfree : i ∉ dev.allocWatchIds := by simpa using List.find?_some hfind
        have hlt : i < maxWatchAddresses := List.mem_range.mp (List.mem_of_find?_eq_some hfind)
        refine (h.take hfree hlt).setCall fun j hj => ?_
        cases hj
        rw [setPdd_self, mem_bitmapSet]
        exact .inr (by omega)
    · exact h
  | setFinish p unmap map value =>
    simp only [next, act]
    split
    · next i hcall =>
      unfold setFinish
      split
      · exact h.drop i
      · dsimp only
        split
        · exact (h.program i value).drop i
        · exact (h.program i value).setCall fun j hj => nomatch hj
    · exact h
  | clearStart p watchId =>
    simp only [next, act]
    split
    · unfold clearStart
      split
      · exact h.setCall fun j hj => nomatch hj
      · exact h
    · exact h
  | clearFinish p unmap map value =>
    simp only [next, act]
    split
    · next watchId hcall =>
      unfold clearFinish
      split
      · exact h.setCall fun j hj => nomatch hj
      · exact (h.program _ value).drop _
    · exact h

theorem Partition.start (enableMes : Bool) : Partition (Device.start enableMes) := by
  constructor
  · simp [Device.start]
  · simp [Device.start]
  · simp [Device.start]
  · intro p i h
    cases h

end Partition

/-! ## The promises are kept -/

section Keeps
variable {dev : Device}

theorem toInt_lt_iff (watchId : UInt32) :
    watchId.toBitVec.toInt < maxWatchAddresses ↔
      watchId.toNat < maxWatchAddresses ∨ 2 ^ 31 ≤ watchId.toNat := by
  have hlt := watchId.toNat_lt
  rw [BitVec.toInt_eq_toNat_cond]
  change (if 2 * watchId.toNat < 2 ^ 32 then (watchId.toNat : Int)
    else (watchId.toNat : Int) - (2 ^ 32 : Nat)) < (4 : Nat) ↔ watchId.toNat < 4 ∨ _
  split
  · omega
  · omega

theorem ownsDevWatchId_iff (p : Nat) (watchId : UInt32) :
    kfdDbgOwnsDevWatchId dev p watchId = true ↔ Owns dev p watchId ∨
      2 ^ 31 ≤ watchId.toNat ∧ watchBit watchId ∈ (dev.pdds p).allocWatchIds := by
  unfold kfdDbgOwnsDevWatchId
  rw [Bool.and_eq_true, decide_eq_true_iff, decide_eq_true_iff, toInt_lt_iff, or_and_right]
  refine or_congr_left (and_congr_right fun hlt => ?_)
  have hbit : watchBit watchId = watchId.toNat :=
    Nat.mod_eq_of_lt (Nat.lt_of_lt_of_le hlt (by decide))
  rw [hbit]

theorem setStart_keeps (p : Nat) : Act.Keeps dev (.setStart p) := by
  simp only [Act.Keeps, next, act]
  by_cases hcall : (dev.pdds p).call = none
  · simp only [if_pos hcall, setStart, kfdDbgGetDevWatchId]
    cases (List.range maxWatchAddresses).find? (· ∉ dev.allocWatchIds) with
    | none =>
      refine ⟨fun h => (nomatch h), fun h => ?_⟩
      exact absurd h.1 (by decide)
    | some i => trivial
  · simp only [if_neg hcall]

theorem setFinish_keeps_iff (h : Partition dev) (p : Nat) (unmap map : Option Errno)
    (value : UInt32) :
    Act.Keeps dev (.setFinish p unmap map value) ↔ Act.Ok dev (.setFinish p unmap map value) := by
  simp only [Act.Keeps, Act.Ok, next, act]
  cases hcall : (dev.pdds p).call with
  | none => simp
  | some call =>
    cases call with
    | clear watchId => simp
    | set i =>
      have hmem := h.set_mem p i hcall
      have hlt := h.lt i ((h.mem_iff i).mpr ⟨p, hmem⟩)
      have hid : (UInt32.ofNat i).toNat = i :=
        UInt32.toNat_ofNat_of_lt' (Nat.lt_of_lt_of_le hlt (by decide))
      have hcalls : ∀ j, some (Call.set i) = some (Call.set j) ↔ i = j := by simp
      simp only [hcalls, forall_eq', setFinish]
      by_cases hunmap : dev.enableMes = false ∧ unmap ≠ none
      · -- The id is given back and the error is returned.
        simp only [if_pos hunmap]
        refine iff_of_true ⟨fun h => absurd h hunmap.2, fun hown => ?_⟩ (.inl hunmap)
        have hmem' := hown.2
        rw [hid, Device.setCall, setPdd_self] at hmem'
        exact absurd rfl (mem_clear.mp hmem').2
      · simp only [if_neg hunmap]
        by_cases hmap : map = none
        · rw [if_neg (not_not_intro hmap)]
          refine iff_of_true ⟨fun _ => ⟨hid.symm ▸ hlt, ?_⟩, fun _ => trivial⟩ (.inr hmap)
          rw [hid, Device.setCall, setPdd_self, Device.program, setPdd_self]
          exact hmem
        · rw [if_pos hmap]
          refine iff_of_false (fun hkeep => ?_) fun hok => ?_
          · have hmem' := (hkeep.mp trivial).2
            rw [hid, Device.setCall, setPdd_self] at hmem'
            exact absurd rfl (mem_clear.mp hmem').2
          · exact hok.elim hunmap hmap

theorem clearStart_keeps_iff (p : Nat) (watchId : UInt32) :
    Act.Keeps dev (.clearStart p watchId) ↔ Act.Ok dev (.clearStart p watchId) := by
  simp only [Act.Keeps, Act.Ok, next, act]
  refine forall_congr' fun hcall => ?_
  simp only [if_pos hcall, clearStart]
  by_cases hpass : kfdDbgOwnsDevWatchId dev p watchId = true
  · simp only [if_pos hpass]
    rcases (ownsDevWatchId_iff p watchId).mp hpass with hown | ⟨hge, hbit⟩
    · refine iff_of_true (fun hnot => absurd hown hnot) (.inl ?_)
      exact Nat.lt_of_lt_of_le hown.1 (by decide)
    · have hnot : ¬Owns dev p watchId := fun hown => by
        have := Nat.lt_of_lt_of_le hown.1 (show maxWatchAddresses ≤ 2 ^ 31 by decide)
        omega
      refine iff_of_false (fun hkeep => ?_) fun hok => ?_
      · obtain ⟨⟨e, he⟩, -⟩ := hkeep hnot
        cases he
      · rcases hok with hlt | hfree
        · omega
        · exact hfree hbit
  · simp only [if_neg hpass]
    refine iff_of_true (fun _ => ⟨⟨_, rfl⟩, trivial⟩) ?_
    by_contra hno
    rw [not_or, not_lt, not_not] at hno
    exact hpass ((ownsDevWatchId_iff p watchId).mpr (.inr hno))

/-- In every state that calls of any processes can reach, the device's watch points are
the disjoint union of those of the processes, and a step keeps its promise exactly when
it meets its condition. -/
theorem watchPoints_run (enableMes : Bool) (acts : List Act) :
    Partition (run next (Device.start enableMes) acts) ∧
      ∀ a, Act.Keeps (run next (Device.start enableMes) acts) a ↔
        Act.Ok (run next (Device.start enableMes) acts) a := by
  have h : Partition (run next (Device.start enableMes) acts) :=
    run_inv (P := Partition) (fun _ a h => act_partition h a) (Partition.start enableMes) acts
  refine ⟨h, fun a => ?_⟩
  cases a with
  | setStart p => exact iff_of_true (setStart_keeps p) trivial
  | setFinish p unmap map value => exact setFinish_keeps_iff h p unmap map value
  | clearStart p watchId => exact clearStart_keeps_iff p watchId
  | clearFinish p unmap map value => exact iff_of_true trivial trivial

def exSetBegun : List Act :=
  [.setStart 0]

/-- The queues cannot be mapped again: the call returns 0, but the process does not own
watch point 0. A clear call for `2 ^ 31` passes the check when the process owns watch
point 0. -/
theorem watchPoints_run_broken :
    ¬Act.Keeps (run next (Device.start false) exSetBegun) (.setFinish 0 none (some .etime) 0) ∧
      ¬Act.Keeps (run next (Device.start false) [.setStart 0, .setFinish 0 none none 0])
        (.clearStart 0 (2 ^ 31)) := by
  constructor
  · intro h
    exact absurd (h.mp rfl).2 (by decide)
  · intro h
    obtain ⟨⟨e, he⟩, -⟩ := h rfl (by decide)
    cases he

end Keeps

end Amdkfd.Debug
