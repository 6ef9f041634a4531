import Amdkfd.Basic
import Amdkfd.Lib.FirstError
import Amdkfd.Lib.Run
import Mathlib.Data.Nat.Count

/-!
# Setting the debug flags of a process

`kfd_dbg_trap_set_flags`: the flags of the process are set and every device that has the debug
settings of a process by VMID is refreshed with them, by a new run list or by MES. When that fails
the flags are set back and the devices refreshed before are refreshed again. The loop that does so
goes over the first devices of the process, as many as have been refreshed.
-/

namespace Amdkfd.SetFlags

open Lib List Option Finset

/-! ## Model -/

def singleMemOp : BitVec 32 := 1

/-- `struct kfd_process_device` and its device: `kfd_dbg_is_per_vmid_supported`, `enable_mes`,
whether queues are run without a hardware scheduler, whether MES has `misc_op`, whether the process
context is allocated, and the debug settings of the process on the device. -/
structure Pdd where
  perVmid : Bool
  enableMes : Bool
  noHws : Bool
  miscOp : Bool
  procCtx : Bool
  spiDbgOverride : BitVec 32
  spiDbgLaunchMode : BitVec 32
  watchPoints : List (BitVec 32)
  deriving DecidableEq

/-- `set_shader_debugger` of `struct mes_misc_op_input`. -/
structure MesOp where
  spiGdbgPerVmidCntl : BitVec 32
  tcpWatchCntl : List (BitVec 32)
  flags : BitVec 32
  trapEn : Bool
  deriving DecidableEq

/-- A refresh of a device: its place in `pdds`, the flags of the process, what MES is told, and the
error. -/
structure Refresh where
  pdd : Nat
  dbgFlags : BitVec 32
  op : Option MesOp
  error : Option Errno
  deriving DecidableEq

/-- `struct kfd_process`, with the refreshes of its devices so far. -/
structure Process where
  dbgFlags : BitVec 32
  pdds : List Pdd
  refreshes : List Refresh

/-- How a device answers: to unmapping the queues or allocating the process context, and then to
mapping them or to the call of MES. -/
structure Answer where
  first : Option Errno
  second : Option Errno

def debugRefreshRunlist (pdd : Pdd) (answer : Answer) : Option Errno :=
  if pdd.noHws then some .einval
  else if pdd.perVmid then answer.first.or answer.second
  else none

def amdgpuMesSetShaderDebugger (pdd : Pdd) (op : MesOp) (answer : Answer) : Option Errno :=
  if pdd.miscOp = false then some .einval
  else if op.flags.msb then some .einval
  else answer.second

def kfdDbgSetMesDebugMode (dbgFlags : BitVec 32) (pdd : Pdd) (sqTrapEn : Bool) (answer : Answer) :
    Pdd × Option MesOp × Option Errno :=
  if pdd.perVmid = false then (pdd, none, none)
  else if pdd.procCtx = false ∧ answer.first ≠ none then (pdd, none, answer.first)
  else
    let op : MesOp :=
      ⟨pdd.spiDbgOverride ||| pdd.spiDbgLaunchMode, pdd.watchPoints, dbgFlags, sqTrapEn⟩
    ({ pdd with procCtx := true }, some op, amdgpuMesSetShaderDebugger pdd op answer)

def refreshDevice (dbgFlags : BitVec 32) (pdd : Pdd) (answer : Answer) :
    Pdd × Option MesOp × Option Errno :=
  if pdd.enableMes = false then (pdd, none, debugRefreshRunlist pdd answer)
  else kfdDbgSetMesDebugMode dbgFlags pdd true answer

def refresh (i : Nat) (answer : Answer) (p : Process) : Process × Option Errno :=
  match p.pdds[i]? with
  | none => (p, none)
  | some pdd =>
    if pdd.perVmid = false then (p, none)
    else
      let r := refreshDevice p.dbgFlags pdd answer
      ({ p with
          pdds := p.pdds.set i r.1
          refreshes := p.refreshes ++ [⟨i, p.dbgFlags, r.2.1, r.2.2⟩] }, r.2.2)

/-- `kfd_dbg_is_per_vmid_supported` of the device at `i`. -/
def Process.Supported (p : Process) (i : Nat) : Prop := ∃ pdd ∈ p.pdds[i]?, pdd.perVmid = true

instance (p : Process) : DecidablePred p.Supported :=
  fun i => inferInstanceAs (Decidable (∃ pdd ∈ p.pdds[i]?, pdd.perVmid = true))

/-- The variables of the first loop. -/
structure Walk where
  process : Process
  i : Nat
  rewindCount : Nat

/-- A round of the first loop. -/
def setRound (forward : Nat → Answer) (prevFlags : BitVec 32) (w : Walk) : Walk × Option Errno :=
  if w.process.Supported w.i then
    match refresh w.i (forward w.i) w.process with
    | (p, some e) => ({ w with process := { p with dbgFlags := prevFlags } }, some e)
    | (p, none) => (⟨p, w.i + 1, w.rewindCount + 1⟩, none)
  else ({ w with i := w.i + 1 }, none)

def rewind (again : Nat → Answer) (rewindCount : Nat) (p : Process) : Process :=
  (List.range rewindCount).foldl (fun p i => (refresh i (again i) p).1) p

/-- What the devices answer in the first loop and in the second. -/
structure Answers where
  forward : Nat → Answer
  again : Nat → Answer

def Process.Denied (p : Process) (flags : BitVec 32) : Prop :=
  flags &&& singleMemOp ≠ 0 ∧ ∃ pdd ∈ p.pdds, pdd.perVmid = false
  deriving Decidable

def kfdDbgTrapSetFlags (a : Answers) (target : Process) (flags : BitVec 32) :
    Process × BitVec 32 × Option Errno :=
  let prevFlags := target.dbgFlags
  if target.Denied flags then (target, prevFlags, some .eacces)
  else
    let p := { target with dbgFlags := flags &&& singleMemOp }
    let r := timesUntil (setRound a.forward prevFlags) p.pdds.length ⟨p, 0, 0⟩
    match r with
    | (w, none) => (w.process, prevFlags, none)
    | (w, some e) =>
      (rewind a.again w.rewindCount { w.process with dbgFlags := prevFlags }, prevFlags, some e)

/-! ## Sweeping over the devices -/

/-- The refresh of the device at `i` in a loop that begins with `p`. -/
def sweepCall (answer : Nat → Answer) (p : Process) (i : Nat) : Option Refresh :=
  match p.pdds[i]? with
  | none => none
  | some pdd =>
    if pdd.perVmid = false then none
    else
      let r := refreshDevice p.dbgFlags pdd (answer i)
      some ⟨i, p.dbgFlags, r.2.1, r.2.2⟩

/-- The refreshes of the devices before `n`. -/
def sweep (answer : Nat → Answer) (p : Process) (n : Nat) : List Refresh :=
  (List.range n).filterMap (sweepCall answer p)

def sweptPdd (answer : Nat → Answer) (dbgFlags : BitVec 32) (n i : Nat) (pdd : Pdd) : Pdd :=
  if i < n ∧ pdd.perVmid = true then (refreshDevice dbgFlags pdd (answer i)).1 else pdd

/-- `p` after a loop over the devices before `n`, from `p0` on. -/
structure Swept (answer : Nat → Answer) (p0 : Process) (n : Nat) (p : Process) : Prop where
  dbgFlags : p.dbgFlags = p0.dbgFlags
  pdds : ∀ i, p.pdds[i]? = p0.pdds[i]?.map (sweptPdd answer p0.dbgFlags n i)
  refreshes : p.refreshes = p0.refreshes ++ sweep answer p0 n

section
variable {answer : Nat → Answer} {p p0 : Process} {n i : Nat}

theorem perVmid_refreshDevice (dbgFlags : BitVec 32) (pdd : Pdd) (a : Answer) :
    (refreshDevice dbgFlags pdd a).1.perVmid = pdd.perVmid := by
  unfold refreshDevice kfdDbgSetMesDebugMode
  split
  · rfl
  · split
    · rfl
    · split <;> rfl

theorem perVmid_sweptPdd (dbgFlags : BitVec 32) (pdd : Pdd) :
    (sweptPdd answer dbgFlags n i pdd).perVmid = pdd.perVmid := by
  unfold sweptPdd
  split
  · exact perVmid_refreshDevice dbgFlags pdd (answer i)
  · rfl

theorem Swept.start : Swept answer p0 0 p0 := by
  refine ⟨rfl, fun i => ?_, by simp [sweep]⟩
  have hid : sweptPdd answer p0.dbgFlags 0 i = id := by
    funext pdd
    simp [sweptPdd]
  rw [hid, Option.map_id, id]

theorem Swept.supported (h : Swept answer p0 n p) (i : Nat) : p.Supported i ↔ p0.Supported i := by
  unfold Process.Supported
  rw [h.pdds i]
  cases p0.pdds[i]? with
  | none => rfl
  | some pdd => simp [perVmid_sweptPdd]

theorem perVmid_of_unsupported {pdd : Pdd} (h : ¬ p.Supported i) (hpdd : p.pdds[i]? = some pdd) :
    pdd.perVmid = false := by
  cases hper : pdd.perVmid with
  | false => rfl
  | true => exact absurd ⟨pdd, hpdd, hper⟩ h

theorem refresh_unsupported (h : ¬ p.Supported i) (a : Answer) : refresh i a p = (p, none) := by
  unfold refresh
  cases hpdd : p.pdds[i]? with
  | none => rfl
  | some pdd => simp only [perVmid_of_unsupported h hpdd, if_true]

theorem sweepCall_unsupported (h : ¬ p.Supported i) : sweepCall answer p i = none := by
  unfold sweepCall
  cases hpdd : p.pdds[i]? with
  | none => rfl
  | some pdd => simp only [perVmid_of_unsupported h hpdd, if_true]

theorem sweepCall_supported (h : p.Supported i) :
    ∃ c, sweepCall answer p i = some c ∧ c.pdd = i ∧ c.dbgFlags = p.dbgFlags ∧
      c.error = (refresh i (answer i) p).2 := by
  obtain ⟨pdd, hpdd, hper⟩ := h
  have hpdd : p.pdds[i]? = some pdd := hpdd
  unfold sweepCall refresh
  simp only [hpdd, hper, Bool.true_eq_false, if_false]
  exact ⟨_, rfl, rfl, rfl, rfl⟩

theorem sweep_succ :
    sweep answer p (n + 1) = sweep answer p n ++ (sweepCall answer p n).toList := by
  unfold sweep
  rw [range_succ, filterMap_append]
  cases h : sweepCall answer p n <;> simp [h]

theorem mem_sweep {c : Refresh} :
    c ∈ sweep answer p n ↔ ∃ i < n, sweepCall answer p i = some c := by
  simp [sweep]

theorem Swept.next (h : Swept answer p0 n p) : p.pdds[n]? = p0.pdds[n]? := by
  have hid : sweptPdd answer p0.dbgFlags n n = id := by
    funext pdd
    simp [sweptPdd]
  rw [h.pdds, hid, Option.map_id, id]

theorem sweptPdd_succ_ne (hne : i ≠ n) (dbgFlags : BitVec 32) :
    sweptPdd answer dbgFlags (n + 1) i = sweptPdd answer dbgFlags n i := by
  funext pdd
  have hlt : i < n + 1 ↔ i < n := by omega
  simp only [sweptPdd, hlt]

theorem Swept.step (h : Swept answer p0 n p) :
    Swept answer p0 (n + 1) (refresh n (answer n) p).1 := by
  by_cases hsup : p0.Supported n
  · obtain ⟨pdd, hmem, hper⟩ := hsup
    have hpdd0 : p0.pdds[n]? = some pdd := hmem
    have hpdd : p.pdds[n]? = some pdd := h.next.trans hpdd0
    have hlt : n < p.pdds.length := (List.getElem?_eq_some_iff.mp hpdd).1
    unfold refresh
    simp only [hpdd, hper, Bool.true_eq_false, if_false]
    refine ⟨h.dbgFlags, fun i => ?_, ?_⟩
    · by_cases hi : n = i
      · subst hi
        simp [hlt, hpdd0, sweptPdd, hper, h.dbgFlags]
      · rw [getElem?_set_ne hi, h.pdds, sweptPdd_succ_ne (Ne.symm hi)]
    · rw [h.refreshes, append_assoc, sweep_succ, sweepCall]
      simp only [hpdd0, hper, Bool.true_eq_false, if_false, h.dbgFlags, toList_some]
  · have hnot : ¬ p.Supported n := fun hp => hsup ((h.supported n).mp hp)
    rw [refresh_unsupported hnot]
    refine ⟨h.dbgFlags, fun i => ?_, ?_⟩
    · by_cases hi : i = n
      · subst hi
        rw [h.next]
        cases hpdd : p0.pdds[i]? with
        | none => rfl
        | some pdd =>
          have hper : ¬ pdd.perVmid = true := fun hper => hsup ⟨pdd, hpdd, hper⟩
          simp [sweptPdd, hper]
      · rw [sweptPdd_succ_ne hi, h.pdds]
    · rw [h.refreshes, sweep_succ, sweepCall_unsupported hsup]
      simp

/-- What a refresh returns does not depend on the devices before. -/
theorem Swept.refresh_error (h : Swept answer p0 n p) (a : Answer) :
    (refresh n a p).2 = (refresh n a p0).2 := by
  unfold refresh
  rw [h.next, h.dbgFlags]
  cases p0.pdds[n]? with
  | none => rfl
  | some pdd =>
    dsimp only
    split <;> rfl

theorem rewind_swept (again : Nat → Answer) (p : Process) (count : Nat) :
    Swept again p count (rewind again count p) := by
  unfold rewind
  induction count with
  | zero => exact Swept.start
  | succ count ih =>
    rw [range_succ, foldl_append]
    exact ih.step

end

/-! ## The first loop -/

/-- The first loop before the device at `k`, with the devices so far refreshed. -/
structure Walking (forward : Nat → Answer) (p : Process) (k : Nat) (w : Walk) : Prop where
  i : w.i = k
  rewindCount : w.rewindCount = Nat.count p.Supported k
  swept : Swept forward p k w.process

/-- The first loop when it is left at the device at `k`. -/
structure LeftAt (forward : Nat → Answer) (prevFlags : BitVec 32) (p : Process) (k : Nat)
    (w : Walk) : Prop where
  rewindCount : w.rewindCount = Nat.count p.Supported k
  process : ∃ p', Swept forward p (k + 1) p' ∧ w.process = { p' with dbgFlags := prevFlags }

def RefreshFails (forward : Nat → Answer) (p : Process) (k : Nat) : Prop :=
  p.Supported k ∧ (refresh k (forward k) p).2 ≠ none

section
variable {forward : Nat → Answer} {p : Process} {k : Nat} {w : Walk}

theorem setRound_cases (prevFlags : BitVec 32) (h : Walking forward p k w) :
    (¬ RefreshFails forward p k ∧
      ∃ w', setRound forward prevFlags w = (w', none) ∧ Walking forward p (k + 1) w') ∨
    (RefreshFails forward p k ∧
      ∃ w' e, setRound forward prevFlags w = (w', some e) ∧ LeftAt forward prevFlags p k w') := by
  obtain ⟨q, i, count⟩ := w
  obtain ⟨hi, hcount, hswept⟩ := h
  obtain rfl : i = k := hi
  have hstep := hswept.step
  have herror := hswept.refresh_error (forward i)
  unfold setRound
  dsimp only at hcount hswept hstep herror ⊢
  by_cases hsup : p.Supported i
  · rw [if_pos ((hswept.supported i).mpr hsup)]
    generalize refresh i (forward i) q = r at hstep herror
    obtain ⟨q', res⟩ := r
    cases res with
    | none =>
      refine .inl ⟨fun hf => hf.2 herror.symm, _, rfl, rfl, ?_, hstep⟩
      rw [Nat.count_succ, if_pos hsup, ← hcount]
    | some e =>
      have hfails : (refresh i (forward i) p).2 ≠ none := by
        rw [← herror]
        exact nofun
      exact .inr ⟨⟨hsup, hfails⟩, _, e, rfl, hcount, q', hstep, rfl⟩
  · have hnot : ¬ q.Supported i := fun hq => hsup ((hswept.supported i).mp hq)
    rw [if_neg hnot]
    rw [refresh_unsupported hnot] at hstep
    refine .inl ⟨fun hf => hsup hf.1, _, rfl, rfl, ?_, hstep⟩
    rw [Nat.count_succ, if_neg hsup, Nat.add_zero]
    exact hcount

theorem setRounds_cases (forward : Nat → Answer) (prevFlags : BitVec 32) (p : Process) (n : Nat) :
    ((∀ k < n, ¬ RefreshFails forward p k) ∧
      ∃ w, timesUntil (setRound forward prevFlags) n ⟨p, 0, 0⟩ = (w, none) ∧
        Walking forward p n w) ∨
    ∃ k < n, (∀ j < k, ¬ RefreshFails forward p j) ∧ RefreshFails forward p k ∧
      ∃ w e, timesUntil (setRound forward prevFlags) n ⟨p, 0, 0⟩ = (w, some e) ∧
        LeftAt forward prevFlags p k w := by
  have hstart : Walking forward p 0 ⟨p, 0, 0⟩ := ⟨rfl, (Nat.count_zero _).symm, Swept.start⟩
  have hround : ∀ k < n, ∀ w, Walking forward p k w → _ := fun k _ w hw =>
    setRound_cases prevFlags hw
  rcases timesUntil_first hround hstart with
    ⟨hall, w, heq, hw⟩ | hleft
  · exact .inl ⟨hall, w, heq, hw⟩
  · exact .inr hleft

end

/-! ## When the devices counted are the first ones -/

theorem lt_count_iff (s : Nat → Prop) [DecidablePred s] (k : Nat) :
    (∀ i < k, s i → i < Nat.count s k) ↔ ∀ i < k, s i → ∀ j < i, s j := by
  have hcard : ((Finset.range k).filter s).card = Nat.count s k :=
    (Nat.count_eq_card_filter_range s k).symm
  constructor
  · intro h i hi hs j hj
    have hsub : (Finset.range k).filter s ⊆ Finset.range (Nat.count s k) := by
      intro x hx
      obtain ⟨hx, hsx⟩ := Finset.mem_filter.mp hx
      exact Finset.mem_range.mpr (h x (Finset.mem_range.mp hx) hsx)
    have heq := eq_of_subset_of_card_le hsub (by rw [card_range, hcard])
    have hmem : j ∈ (Finset.range k).filter s := by
      rw [heq]
      exact Finset.mem_range.mpr (hj.trans (h i hi hs))
    exact (Finset.mem_filter.mp hmem).2
  · intro h i hi hs
    have hsub : Finset.range (i + 1) ⊆ (Finset.range k).filter s := by
      intro x hx
      have hx := Finset.mem_range.mp hx
      refine Finset.mem_filter.mpr ⟨Finset.mem_range.mpr (by omega), ?_⟩
      rcases Nat.lt_succ_iff_lt_or_eq.mp hx with hlt | rfl
      · exact h i hi hs x hlt
      · exact hs
    have hle := card_le_card hsub
    rw [card_range, hcard] at hle
    exact hle

/-! ## What is refreshed again -/

def callsOf (p p' : Process) : List Refresh := p'.refreshes.drop p.refreshes.length

def Refresh.well (c : Refresh) : Bool := c.error.isNone

def beforeFailure (calls : List Refresh) : List Refresh := calls.takeWhile Refresh.well

/-- Those behind it: they come after the flags have been set back. -/
def afterFailure (calls : List Refresh) : List Refresh :=
  (calls.dropWhile Refresh.well).tail

/-- After an error the flags are as before, and every device that was refreshed is refreshed again
with them; `ok` says what is asked of that refresh. -/
def RewoundWith (ok : Refresh → Prop) (p : Process) (r : Process × BitVec 32 × Option Errno) :
    Prop :=
  r.2.2 ≠ none →
    r.1.dbgFlags = p.dbgFlags ∧
    ∀ c ∈ beforeFailure (callsOf p r.1), ∃ d ∈ afterFailure (callsOf p r.1),
      d.pdd = c.pdd ∧ d.dbgFlags = p.dbgFlags ∧ ok d

/-- Every device that was refreshed is refreshed again, whatever it answers. -/
def Rewound (p : Process) (r : Process × BitVec 32 × Option Errno) : Prop :=
  RewoundWith (fun _ => True) p r

/-- Every device that was refreshed is refreshed again without an error. -/
def RewoundWell (p : Process) (r : Process × BitVec 32 × Option Errno) : Prop :=
  RewoundWith (fun d => d.error = none) p r

def Process.withFlags (p : Process) (flags : BitVec 32) : Process :=
  { p with dbgFlags := flags &&& singleMemOp }

/-- The device at `k` is the first at which a refresh with the new flags fails. -/
def FailsAt (a : Answers) (p : Process) (flags : BitVec 32) (k : Nat) : Prop :=
  ¬ p.Denied flags ∧ RefreshFails a.forward (p.withFlags flags) k ∧
    ∀ j < k, ¬ RefreshFails a.forward (p.withFlags flags) j

/-- No device without support by VMID stands before one that is refreshed before the failure. -/
def SupportedInFront (a : Answers) (p : Process) (flags : BitVec 32) : Prop :=
  ∀ k, FailsAt a p flags k → ∀ i < k, p.Supported i → ∀ j < i, p.Supported j

def AnswersAgain (a : Answers) (p : Process) (flags : BitVec 32) : Prop :=
  ∀ k, FailsAt a p flags k → ∀ i < k, ∀ pdd ∈ p.pdds[i]?, pdd.perVmid = true →
    (refreshDevice p.dbgFlags (refreshDevice (flags &&& singleMemOp) pdd (a.forward i)).1
      (a.again i)).2.2 = none

section
variable {a : Answers} {p : Process} {flags : BitVec 32} {k : Nat}

theorem FailsAt.unique {k' : Nat} (h : FailsAt a p flags k) (h' : FailsAt a p flags k') :
    k' = k := by
  rcases Nat.lt_trichotomy k' k with hlt | heq | hgt
  · exact absurd h'.2.1 (h.2.2 k' hlt)
  · exact heq
  · exact absurd h.2.1 (h'.2.2 k hgt)

theorem supported_lt {i : Nat} (h : p.Supported i) : i < p.pdds.length := by
  obtain ⟨pdd, hpdd, -⟩ := h
  exact (List.getElem?_eq_some_iff.mp hpdd).1

theorem setFlags_cases (a : Answers) (p : Process) (flags : BitVec 32) :
    (kfdDbgTrapSetFlags a p flags = (p, p.dbgFlags, some .eacces) ∧ p.Denied flags) ∨
    ((kfdDbgTrapSetFlags a p flags).2.2 = none ∧ (∀ k, ¬ FailsAt a p flags k) ∧ ¬ p.Denied flags ∧
      Swept a.forward (p.withFlags flags) p.pdds.length (kfdDbgTrapSetFlags a p flags).1) ∨
    ∃ k p' e, FailsAt a p flags k ∧ Swept a.forward (p.withFlags flags) (k + 1) p' ∧
      kfdDbgTrapSetFlags a p flags =
        (rewind a.again (Nat.count p.Supported k) { p' with dbgFlags := p.dbgFlags },
          p.dbgFlags, some e) := by
  unfold kfdDbgTrapSetFlags
  dsimp only
  by_cases hdenied : p.Denied flags
  · rw [if_pos hdenied]
    exact .inl ⟨rfl, hdenied⟩
  · rw [if_neg hdenied]
    rcases setRounds_cases a.forward p.dbgFlags (p.withFlags flags) p.pdds.length with
      ⟨hall, w, heq, hw⟩ | ⟨k, -, hbefore, hfails, w, e, heq, hcount, p', hswept, hleft⟩
    · have hnone : ∀ k, ¬ FailsAt a p flags k :=
        fun k hk => hall k (supported_lt hk.2.1.1) hk.2.1
      have hswept := hw.swept
      unfold Process.withFlags at heq hswept
      rw [heq]
      exact .inr (.inl ⟨rfl, hnone, hdenied, hswept⟩)
    · refine .inr (.inr ⟨k, p', e, ⟨hdenied, hfails, hbefore⟩, hswept, ?_⟩)
      unfold Process.withFlags at heq
      rw [heq]
      dsimp only
      rw [hcount, hleft]
      rfl

theorem calls_of_failsAt {p' : Process} (hfails : FailsAt a p flags k)
    (hswept : Swept a.forward (p.withFlags flags) (k + 1) p') (n : Nat) :
    let p1 := { p' with dbgFlags := p.dbgFlags }
    let calls := callsOf p (rewind a.again n p1)
    beforeFailure calls = sweep a.forward (p.withFlags flags) k ∧
      afterFailure calls = sweep a.again p1 n := by
  intro p1 calls
  obtain ⟨-, hfail, hbefore⟩ := hfails
  obtain ⟨c, hc, -, -, herror⟩ := @sweepCall_supported a.forward _ _ hfail.1
  have hcalls : calls =
      sweep a.forward (p.withFlags flags) k ++ c :: sweep a.again p1 n := by
    have hrefreshes : p1.refreshes = p.refreshes ++ sweep a.forward (p.withFlags flags) (k + 1) :=
      hswept.refreshes
    simp only [calls, callsOf, (rewind_swept a.again p1 n).refreshes, hrefreshes, sweep_succ, hc,
      append_assoc, drop_left, toList_some, cons_append, nil_append]
  have hgood : ∀ d ∈ sweep a.forward (p.withFlags flags) k, d.well = true := by
    intro d hd
    obtain ⟨i, hi, hd⟩ := mem_sweep.mp hd
    by_cases hsup : (p.withFlags flags).Supported i
    · obtain ⟨d', hd', -, -, herr⟩ := @sweepCall_supported a.forward _ _ hsup
      obtain rfl : d' = d := some.inj (hd'.symm.trans hd)
      rw [Refresh.well, herr, isNone_iff_eq_none]
      exact not_not.mp fun hne => hbefore i hi ⟨hsup, hne⟩
    · rw [sweepCall_unsupported hsup] at hd
      cases hd
  have hbad : ¬ c.well = true := by
    rw [Refresh.well, herror, isNone_iff_eq_none]
    exact hfail.2
  unfold beforeFailure afterFailure
  rw [hcalls, takeWhile_append_of_pos hgood, dropWhile_append_of_pos hgood,
    takeWhile_cons_of_neg hbad, dropWhile_cons_of_neg hbad, append_nil]
  exact ⟨rfl, rfl⟩

theorem sweep_again_iff {ok : Refresh → Prop} {forward again : Nat → Answer} {p0 p1 : Process}
    (hsup : ∀ i, p1.Supported i ↔ p0.Supported i) (n : Nat) :
    (∀ c ∈ sweep forward p0 k, ∃ d ∈ sweep again p1 n,
      d.pdd = c.pdd ∧ d.dbgFlags = p1.dbgFlags ∧ ok d) ↔
    ∀ i < k, p0.Supported i → i < n ∧ ∀ d ∈ sweepCall again p1 i, ok d := by
  constructor
  · intro h i hi hs
    obtain ⟨c, hc, hci, -⟩ := @sweepCall_supported forward _ _ hs
    obtain ⟨d, hd, hdc, -, hok⟩ := h c (mem_sweep.mpr ⟨i, hi, hc⟩)
    obtain ⟨j, hj, hdj⟩ := mem_sweep.mp hd
    have hsj : p1.Supported j := by
      by_contra hns
      rw [sweepCall_unsupported hns] at hdj
      cases hdj
    obtain ⟨d', hd', hpdd, -⟩ := @sweepCall_supported again _ _ hsj
    obtain rfl : d' = d := some.inj (hd'.symm.trans hdj)
    obtain rfl : j = i := hpdd.symm.trans (hdc.trans hci)
    refine ⟨hj, fun e he => ?_⟩
    obtain rfl : d' = e := some.inj (hd'.symm.trans he)
    exact hok
  · intro h c hc
    obtain ⟨i, hi, hc⟩ := mem_sweep.mp hc
    have hs : p0.Supported i := by
      by_contra hns
      rw [sweepCall_unsupported hns] at hc
      cases hc
    obtain ⟨c', hc', hci, -⟩ := @sweepCall_supported forward _ _ hs
    obtain rfl : c' = c := some.inj (hc'.symm.trans hc)
    obtain ⟨hn, hok⟩ := h i hi hs
    obtain ⟨d, hd, hdi, hdflags, -⟩ := @sweepCall_supported again _ _ ((hsup i).mpr hs)
    exact ⟨d, mem_sweep.mpr ⟨i, hn, hd⟩, hdi.trans hci.symm, hdflags, hok d hd⟩

theorem rewoundWith_of_none (ok : Refresh → Prop) (h : ∀ k, ¬ FailsAt a p flags k) :
    RewoundWith ok p (kfdDbgTrapSetFlags a p flags) := by
  rcases setFlags_cases a p flags with ⟨heq, -⟩ | ⟨hnone, -, -, -⟩ | ⟨k, -, -, hfails, -⟩
  · rw [heq]
    refine fun _ => ⟨rfl, fun c hc => ?_⟩
    rw [callsOf, drop_length] at hc
    cases hc
  · exact fun hne => absurd hnone hne
  · exact absurd hfails (h k)

theorem rewoundWith_of_failsAt (ok : Refresh → Prop) (h : FailsAt a p flags k) :
    ∃ p1 : Process, p1.dbgFlags = p.dbgFlags ∧
      (∀ i < k, p1.pdds[i]? =
        p.pdds[i]?.map (sweptPdd a.forward (flags &&& singleMemOp) (k + 1) i)) ∧
      (RewoundWith ok p (kfdDbgTrapSetFlags a p flags) ↔
        ∀ i < k, p.Supported i → i < Nat.count p.Supported k ∧
          ∀ d ∈ sweepCall a.again p1 i, ok d) := by
  rcases setFlags_cases a p flags with ⟨-, hdenied⟩ | ⟨-, hnone, -, -⟩ |
    ⟨k', p', e, hfails, hswept, heq⟩
  · exact absurd hdenied h.1
  · exact absurd h (hnone k)
  · obtain rfl : k' = k := h.unique hfails
    refine ⟨{ p' with dbgFlags := p.dbgFlags }, rfl, fun i _ => hswept.pdds i, ?_⟩
    obtain ⟨hbefore, hafter⟩ := calls_of_failsAt hfails hswept (Nat.count p.Supported k')
    have hagain := @sweep_again_iff k' ok a.forward a.again (p.withFlags flags)
      { p' with dbgFlags := p.dbgFlags } hswept.supported (Nat.count p.Supported k')
    have hflags := (rewind_swept a.again { p' with dbgFlags := p.dbgFlags }
      (Nat.count p.Supported k')).dbgFlags
    unfold RewoundWith
    rw [heq]
    dsimp only at hflags ⊢
    rw [hbefore, hafter]
    constructor
    · intro hre
      exact hagain.mp (hre nofun).2
    · intro hall _
      exact ⟨hflags, hagain.mpr hall⟩

theorem again_ok_iff {p1 : Process} {i : Nat} (hi : i < k) (hflags : p1.dbgFlags = p.dbgFlags)
    (hpdds : p1.pdds[i]? = p.pdds[i]?.map (sweptPdd a.forward (flags &&& singleMemOp) (k + 1) i)) :
    (∀ d ∈ sweepCall a.again p1 i, d.error = none) ↔
      ∀ pdd ∈ p.pdds[i]?, pdd.perVmid = true →
        (refreshDevice p.dbgFlags (refreshDevice (flags &&& singleMemOp) pdd (a.forward i)).1
          (a.again i)).2.2 = none := by
  have hlt : i < k + 1 := Nat.lt_succ_of_lt hi
  unfold sweepCall
  rw [hpdds, hflags]
  cases hpdd : p.pdds[i]? with
  | none => simp
  | some pdd =>
    cases hper : pdd.perVmid with
    | false => simp [sweptPdd, hper]
    | true => simp [sweptPdd, hper, hlt, perVmid_refreshDevice]

theorem supportedInFront_iff (h : FailsAt a p flags k) :
    SupportedInFront a p flags ↔ ∀ i < k, p.Supported i → i < Nat.count p.Supported k := by
  rw [lt_count_iff]
  refine ⟨fun hfront => hfront k h, fun hfront k' h' => ?_⟩
  obtain rfl := h.unique h'
  exact hfront

theorem answersAgain_iff (h : FailsAt a p flags k) :
    AnswersAgain a p flags ↔ ∀ i < k, ∀ pdd ∈ p.pdds[i]?, pdd.perVmid = true →
      (refreshDevice p.dbgFlags (refreshDevice (flags &&& singleMemOp) pdd (a.forward i)).1
        (a.again i)).2.2 = none := by
  refine ⟨fun hagain => hagain k h, fun hagain k' h' => ?_⟩
  obtain rfl := h.unique h'
  exact hagain

theorem rewound_iff (a : Answers) (p : Process) (flags : BitVec 32) :
    Rewound p (kfdDbgTrapSetFlags a p flags) ↔ SupportedInFront a p flags := by
  by_cases hsome : ∃ k, FailsAt a p flags k
  · obtain ⟨k, hfails⟩ := hsome
    obtain ⟨p1, -, -, hiff⟩ := rewoundWith_of_failsAt (fun _ => True) hfails
    rw [supportedInFront_iff hfails]
    refine hiff.trans ⟨fun h i hi hs => (h i hi hs).1, fun h i hi hs => ⟨h i hi hs, ?_⟩⟩
    exact fun _ _ => trivial
  · have hnone : ∀ k, ¬ FailsAt a p flags k := fun k hk => hsome ⟨k, hk⟩
    exact iff_of_true (rewoundWith_of_none _ hnone) fun k hk => absurd hk (hnone k)

theorem rewoundWell_iff (a : Answers) (p : Process) (flags : BitVec 32) :
    RewoundWell p (kfdDbgTrapSetFlags a p flags) ↔
      SupportedInFront a p flags ∧ AnswersAgain a p flags := by
  by_cases hsome : ∃ k, FailsAt a p flags k
  · obtain ⟨k, hfails⟩ := hsome
    obtain ⟨p1, hflags, hpdds, hiff⟩ := rewoundWith_of_failsAt (fun d => d.error = none) hfails
    rw [supportedInFront_iff hfails, answersAgain_iff hfails]
    refine hiff.trans ⟨fun h => ⟨fun i hi hs => (h i hi hs).1, fun i hi pdd hpdd hper => ?_⟩,
      fun h i hi hs => ⟨h.1 i hi hs, ?_⟩⟩
    · exact (again_ok_iff hi hflags (hpdds i hi)).mp (h i hi ⟨pdd, hpdd, hper⟩).2 pdd hpdd hper
    · exact (again_ok_iff hi hflags (hpdds i hi)).mpr (h.2 i hi)
  · have hnone : ∀ k, ¬ FailsAt a p flags k := fun k hk => hsome ⟨k, hk⟩
    exact iff_of_true (rewoundWith_of_none _ hnone)
      ⟨fun k hk => absurd hk (hnone k), fun k hk => absurd hk (hnone k)⟩

/-- When setting the flags of a process fails, the flags are as before and every device that was
refreshed with the new ones is refreshed again, exactly when no device without support by VMID
stands before one of those. These refreshes succeed if the devices answer. -/
theorem set_flags_rewind (a : Answers) (p : Process) (flags : BitVec 32) :
    (Rewound p (kfdDbgTrapSetFlags a p flags) ↔ SupportedInFront a p flags) ∧
    (RewoundWell p (kfdDbgTrapSetFlags a p flags) ↔
      SupportedInFront a p flags ∧ AnswersAgain a p flags) :=
  ⟨rewound_iff a p flags, rewoundWell_iff a p flags⟩

end

def exPdd (perVmid : Bool) : Pdd := ⟨perVmid, false, false, false, false, 0, 0, []⟩

def exMixed : Process := ⟨0, [exPdd false, exPdd true, exPdd true], []⟩

def exAnswers : Answers :=
  ⟨fun i => if i = 2 then ⟨some .etime, none⟩ else ⟨none, none⟩, fun _ => ⟨none, none⟩⟩

/-- The second device is not refreshed again. -/
theorem set_flags_not_rewound :
    ¬ ∀ (a : Answers) (p : Process) (flags : BitVec 32),
      Rewound p (kfdDbgTrapSetFlags a p flags) := by
  intro h
  obtain ⟨-, hagain⟩ := h exAnswers exMixed 0 (by decide)
  have hnil : afterFailure (callsOf exMixed (kfdDbgTrapSetFlags exAnswers exMixed 0).1) = [] := by
    decide
  obtain ⟨d, hd, -⟩ := hagain ⟨1, 0, none, none⟩ (by decide)
  rw [hnil] at hd
  cases hd

/-! ## What a call that fails leaves on the devices -/

section
variable {p : Process}

def FlagsFit (p : Process) : Prop := p.dbgFlags = 0 ∨ ∀ pdd ∈ p.pdds, pdd.perVmid = true

theorem Swept.perVmid {answer : Nat → Answer} {p' : Process} {n : Nat} (h : Swept answer p n p')
    (hall : ∀ pdd ∈ p.pdds, pdd.perVmid = true) : ∀ pdd ∈ p'.pdds, pdd.perVmid = true := by
  intro pdd hpdd
  obtain ⟨i, hi⟩ := mem_iff_getElem?.mp hpdd
  rw [h.pdds] at hi
  obtain ⟨pdd0, h0, rfl⟩ := map_eq_some_iff.mp hi
  rw [perVmid_sweptPdd]
  exact hall pdd0 (mem_of_getElem? h0)

theorem flagsFit_setFlags (a : Answers) (h : FlagsFit p) (flags : BitVec 32) :
    FlagsFit (kfdDbgTrapSetFlags a p flags).1 := by
  rcases setFlags_cases a p flags with ⟨heq, -⟩ | ⟨-, -, hallowed, hswept⟩ |
    ⟨k, p', e, -, hswept, heq⟩
  · rw [heq]
    exact h
  · by_cases hzero : flags &&& singleMemOp = 0
    · exact .inl (hswept.dbgFlags.trans hzero)
    · refine .inr (hswept.perVmid fun pdd hpdd => ?_)
      by_contra hper
      exact hallowed ⟨hzero, pdd, hpdd, Bool.eq_false_iff.mpr hper⟩
  · have hagain := rewind_swept a.again { p' with dbgFlags := p.dbgFlags }
      (Nat.count p.Supported k)
    rw [heq]
    rcases h with hzero | hall
    · exact .inl (hagain.dbgFlags.trans hzero)
    · exact .inr (hagain.perVmid (hswept.perVmid hall))

def setFlagsStep (p : Process) (c : Answers × BitVec 32) : Process :=
  (kfdDbgTrapSetFlags c.1 p c.2).1

/-- Where a call does not put its devices back, it asks for the flags that the process has. -/
theorem rewound_or_same (pdds : List Pdd) (calls : List (Answers × BitVec 32)) (a : Answers)
    (flags : BitVec 32) :
    let p := run setFlagsStep ⟨0, pdds, []⟩ calls
    Rewound p (kfdDbgTrapSetFlags a p flags) ∨ flags &&& singleMemOp = p.dbgFlags := by
  intro p
  have hstart : FlagsFit ⟨0, pdds, []⟩ := .inl rfl
  have hstep : ∀ q c, FlagsFit q → FlagsFit (setFlagsStep q c) :=
    fun q c hq => flagsFit_setFlags c.1 hq c.2
  have hfit : FlagsFit p := run_inv hstep hstart calls
  rw [rewound_iff]
  by_cases hall : ∀ pdd ∈ p.pdds, pdd.perVmid = true
  · refine .inl fun k hk i hi hs j hj => ?_
    have hlt : j < p.pdds.length := hj.trans (supported_lt hs)
    exact ⟨p.pdds[j], getElem?_eq_getElem hlt, hall _ (getElem_mem hlt)⟩
  · by_cases hdenied : p.Denied flags
    · exact .inl fun k hk => absurd hdenied hk.1
    · obtain ⟨pdd, hpdd, hper⟩ : ∃ pdd ∈ p.pdds, pdd.perVmid = false := by simpa using hall
      have hzero : p.dbgFlags = 0 := hfit.resolve_right hall
      refine .inr (hzero ▸ ?_)
      by_contra hne
      exact hdenied ⟨hne, pdd, hpdd, hper⟩

end

end Amdkfd.SetFlags
