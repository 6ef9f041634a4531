import Amdkfd.ProcessEviction

/-!
# Pausing the queues of a process for a checkpoint

`criu_process_info` evicts the queues of a process and sets `queues_paused`;
`criu_unpause` restores them. The error path of the first restores the queues too,
whether or not the eviction was made. The calls hold the lock of the process, but other
sources evict and restore its queues device by device at any time.
-/

namespace Amdkfd.Eviction

open Lib QueueManager Function List

/-! ## Counters of a device -/

/-- `qpd->evicted` of the process on a device. -/
def Pdd.evicted (pdd : Pdd) : Nat :=
  pdd.ctx.qpd.evicted

section Counter

theorem executeUnlessMes_evicted (hw : Hw) (c : Ctx) (r : Option Errno) :
    (c.executeUnlessMes hw r).1.qpd.evicted = c.qpd.evicted := by
  unfold Ctx.executeUnlessMes
  split
  · rfl
  · rfl

theorem evictProcessQueues_evicted (a : Answers) (pdd : Pdd) :
    (evictProcessQueues a pdd).1.evicted = pdd.evicted + 1 := by
  unfold evictProcessQueues Pdd.evicted
  cases pdd.cpsch with
  | true =>
    simp only [if_true, evictProcessQueuesCpsch]
    split
    · rfl
    · split
      · rfl
      · rw [executeUnlessMes_evicted]
        exact (foldl_range_inv (f := evictQueue a.hw)
          (P := fun i s => s.1.qpd.EvictedBelow i
            { pdd.ctx.qpd with evicted := pdd.ctx.qpd.evicted + 1 })
          (fun i s hs => evictQueue_evictedBelow a.hw hs) (.start _)
          pdd.ctx.qpd.queues.length).evicted
  | false =>
    simp only [Bool.false_eq_true, if_false, evictProcessQueuesNocpsch]
    split
    · rfl
    · exact (foldl_range_inv (f := evictQueueNocpsch a)
        (P := fun i s => s.1.qpd.EvictedBelow i
          { pdd.ctx.qpd with evicted := pdd.ctx.qpd.evicted + 1 })
        (fun i s hs => evictQueueNocpsch_evictedBelow a hs) (.start _)
        pdd.ctx.qpd.queues.length).evicted

theorem restoreQueue_evicted (hw : Hw) (s : Ctx × Option Errno) (i : Nat) :
    (restoreQueue hw s i).1.qpd.evicted = s.1.qpd.evicted := by
  unfold restoreQueue
  split
  · dsimp only
    split
    · rfl
    · rfl
  · rfl

theorem restoreProcessQueues_evicted (a : Answers) (pdd : Pdd) :
    ((restoreProcessQueues a pdd).1.evicted = pdd.evicted ∨
      (restoreProcessQueues a pdd).1.evicted + 1 = pdd.evicted) ∧
    ((restoreProcessQueues a pdd).2 = none →
      (restoreProcessQueues a pdd).1.evicted = pdd.evicted - 1) := by
  unfold restoreProcessQueues Pdd.evicted
  cases pdd.cpsch with
  | true =>
    simp only [if_true, restoreProcessQueuesCpsch]
    split
    · next hzero => exact ⟨.inl rfl, fun _ => by rw [hzero]⟩
    · split
      · exact ⟨.inr (by dsimp only; omega), fun _ => rfl⟩
      · have hone : pdd.ctx.qpd.evicted = 1 := by omega
        split
        · exact ⟨.inr (by rw [hone]), fun _ => by rw [hone]⟩
        · have hloop := foldl_range_inv (f := restoreQueue a.hw)
            (P := fun _ s => s.1.qpd.evicted = pdd.ctx.qpd.evicted)
            (fun i s hs => (restoreQueue_evicted a.hw s i).trans hs) (s := (pdd.ctx, none)) rfl
            pdd.ctx.qpd.queues.length
          generalize (range pdd.ctx.qpd.queues.length).foldl (restoreQueue a.hw)
            (pdd.ctx, none) = s at hloop
          obtain ⟨c, e⟩ := s
          cases e with
          | some e => exact ⟨.inl hloop, fun hok => by cases hok⟩
          | none => exact ⟨.inr (by dsimp only; omega), fun _ => by dsimp only; omega⟩
  | false =>
    simp only [Bool.false_eq_true, if_false, restoreProcessQueuesNocpsch]
    split
    · next hzero => exact ⟨.inl rfl, fun _ => by rw [hzero]⟩
    · split
      · exact ⟨.inr (by dsimp only; omega), fun _ => rfl⟩
      · split
        · exact ⟨.inl rfl, fun hok => by cases hok⟩
        · exact ⟨.inr (by dsimp only; omega), fun _ => by dsimp only; omega⟩

end Counter

/-! ## Model -/

/-- Where an operation of CRIU stands: in the loop of `kfd_process_evict_queues`, with
the last answer, in the loop that rolls back the first devices, in the loop of
`kfd_process_restore_queues` in the error path of `criu_process_info`, or in that of
`criu_unpause`, with the first error. -/
inductive CriuPhase
  | idle
  | evicting (i : Nat) (r : Option Errno)
  | rollingBack (i nEvicted : Nat)
  | infoRestoring (i : Nat)
  | unpausing (i : Nat) (ret : Option Errno)
  deriving DecidableEq

/-- A process, with the evictions of each device that CRIU made and that other sources
made, less those they undid. -/
structure CriuProc where
  pdds : List Pdd
  queuesPaused : Bool
  phase : CriuPhase
  criu : Nat → Int
  others : Nat → Int

/-- The arguments of `criu_checkpoint`: whether the addresses are given, and the first
error of the steps after the check of `queues_paused`. -/
structure CheckpointArgs where
  given : Bool
  later : Option Errno

inductive CriuAct
  /-- `KFD_CRIU_OP_PROCESS_INFO`. -/
  | processInfo
  /-- `KFD_CRIU_OP_CHECKPOINT`. -/
  | checkpoint (args : CheckpointArgs)
  /-- `KFD_CRIU_OP_UNPAUSE`. -/
  | unpause
  /-- The operation goes on with its next device, or returns. `objectInfo` is the
  result of `criu_get_process_object_info`. -/
  | advance (a : Answers) (objectInfo : Option Errno)
  /-- Another source evicts a device, or restores one that it has evicted. -/
  | otherEvict (j : Nat) (a : Answers)
  | otherRestore (j : Nat) (a : Answers)
  /-- Anything else that happens on a device. -/
  | device (j : Nat) (pdd : Pdd)

/-- `criu_checkpoint`, as far as the state of the process is concerned. -/
def criuCheckpoint (s : CriuProc) (args : CheckpointArgs) : CriuProc × Option Errno :=
  if args.given = false then (s, some .einval)
  else if s.pdds.length = 0 then (s, some .enodev)
  else if s.queuesPaused = false then (s, some .einval)
  else (s, args.later)

/-- CRIU makes a device call. -/
def CriuProc.call (s : CriuProc) (i : Nat) (f : Pdd → Pdd × Option Errno)
    (next : Option Errno → CriuPhase) : CriuProc :=
  match s.pdds[i]? with
  | none => s
  | some pdd =>
    { s with
      pdds := s.pdds.set i (f pdd).1
      phase := next (f pdd).2
      criu := update s.criu i (s.criu i + ((f pdd).1.evicted - pdd.evicted)) }

/-- Another source makes a device call. -/
def CriuProc.otherCall (s : CriuProc) (j : Nat) (f : Pdd → Pdd × Option Errno) : CriuProc :=
  match s.pdds[j]? with
  | none => s
  | some pdd =>
    { s with
      pdds := s.pdds.set j (f pdd).1
      others := update s.others j (s.others j + ((f pdd).1.evicted - pdd.evicted)) }

def CriuProc.advance (s : CriuProc) (a : Answers) (objectInfo : Option Errno) : CriuProc :=
  match s.phase with
  | .idle => s
  | .evicting i r =>
    if i < s.pdds.length then
      s.call i (evictProcessQueues a) fun r =>
        if r = none ∨ r = some .eio then .evicting (i + 1) r else .rollingBack 0 i
    else
      match r with
      | some _ => { s with phase := .infoRestoring 0 }
      | none =>
        let s := { s with queuesPaused := true }
        match objectInfo with
        | some _ => { s with phase := .infoRestoring 0 }
        | none => { s with phase := .idle }
  | .rollingBack i nEvicted =>
    if nEvicted = 0 ∨ s.pdds.length ≤ i then { s with phase := .infoRestoring 0 }
    else s.call i (restoreProcessQueues a) fun _ => .rollingBack (i + 1) (nEvicted - 1)
  | .infoRestoring i =>
    if i < s.pdds.length then
      s.call i (restoreProcessQueues a) fun _ => .infoRestoring (i + 1)
    else { s with queuesPaused := false, phase := .idle }
  | .unpausing i ret =>
    if i < s.pdds.length then
      s.call i (restoreProcessQueues a) fun r => .unpausing (i + 1) (ret.or r)
    else
      match ret with
      | some _ => { s with phase := .idle }
      | none => { s with queuesPaused := false, phase := .idle }

def criuAct (s : CriuProc) : CriuAct → CriuProc
  | .processInfo =>
    if s.phase = .idle then
      if s.pdds.length = 0 then { s with phase := .infoRestoring 0 }
      else { s with phase := .evicting 0 none }
    else s
  | .checkpoint args => if s.phase = .idle then (criuCheckpoint s args).1 else s
  | .unpause =>
    if s.phase = .idle ∧ s.queuesPaused then { s with phase := .unpausing 0 none } else s
  | .advance a objectInfo => s.advance a objectInfo
  | .otherEvict j a => s.otherCall j (evictProcessQueues a)
  | .otherRestore j a => if 0 < s.others j then s.otherCall j (restoreProcessQueues a) else s
  | .device j pdd =>
    if (s.pdds[j]?).map Pdd.evicted = some pdd.evicted then { s with pdds := s.pdds.set j pdd }
    else s

/-- A process with devices that other sources may have evicted. -/
def CriuProc.start (pdds : List Pdd) : CriuProc :=
  { pdds := pdds
    queuesPaused := false
    phase := .idle
    criu := fun _ => 0
    others := fun j => ((pdds[j]?).map fun pdd => (pdd.evicted : Int)).getD 0 }

/-- The condition on a step. `PROCESS_INFO` comes while the queues are not paused, the
restores of CRIU do not fail, and its error path does not come to a device that only
other sources have evicted. -/
def CriuAct.Ok (s : CriuProc) : CriuAct → Prop
  | .processInfo => s.queuesPaused = false
  | .advance a _ =>
    match s.phase with
    | .rollingBack i nEvicted =>
      0 < nEvicted → ∀ pdd ∈ s.pdds[i]?, (restoreProcessQueues a pdd).2 = none
    | .infoRestoring i => ∀ pdd ∈ s.pdds[i]?,
      if s.criu i = 0 then pdd.evicted = 0 else (restoreProcessQueues a pdd).2 = none
    | .unpausing i _ => ∀ pdd ∈ s.pdds[i]?, (restoreProcessQueues a pdd).2 = none
    | _ => True
  | _ => True

instance (s : CriuProc) (x : CriuAct) : Decidable (x.Ok s) := by
  unfold CriuAct.Ok
  split
  · infer_instance
  · split
    all_goals infer_instance
  · infer_instance

/-! ## The evictions that CRIU holds -/

theorem getElem?_set_cases {α : Type} {l : List α} {i j : Nat} {v x : α}
    (h : (l.set i v)[j]? = some x) : (j = i ∧ x = v) ∨ (j ≠ i ∧ l[j]? = some x) := by
  rw [getElem?_set] at h
  split at h
  · next heq =>
    split at h
    · cases h
      exact .inl ⟨heq.symm, rfl⟩
    · cases h
  · next hne => exact .inr ⟨Ne.symm hne, h⟩

structure Counters (s : CriuProc) : Prop where
  counter : ∀ j pdd, s.pdds[j]? = some pdd → (pdd.evicted : Int) = s.others j + s.criu j
  others : ∀ j, 0 ≤ s.others j

def CriuPhase.Holds (n : Nat) (queuesPaused : Bool) (criu : Nat → Int) : CriuPhase → Prop
  | .idle => ∀ j < n, criu j = if queuesPaused then 1 else 0
  | .evicting i _ => ∀ j < n, criu j = if j < i then 1 else 0
  | .rollingBack i nEvicted => i + nEvicted < n ∧
    ∀ j < n, criu j = if i ≤ j ∧ j ≤ i + nEvicted then 1 else 0
  | .infoRestoring i => ∀ j < n, (j < i → criu j = 0) ∧ (criu j = 0 ∨ criu j = 1)
  | .unpausing i ret => ret = none ∧ ∀ j < n, criu j = if j < i then 0 else 1

def CriuProc.Holds (s : CriuProc) : Prop :=
  s.phase.Holds s.pdds.length s.queuesPaused s.criu

section Step
variable {s : CriuProc} {i : Nat} {pdd : Pdd}

theorem Counters.call (h : Counters s) (f : Pdd → Pdd × Option Errno)
    (next : Option Errno → CriuPhase) : Counters (s.call i f next) := by
  unfold CriuProc.call
  cases hpdd : s.pdds[i]? with
  | none => exact h
  | some pdd =>
    refine ⟨fun j x hj => ?_, h.others⟩
    dsimp only
    rcases getElem?_set_cases hj with ⟨rfl, rfl⟩ | ⟨hne, hj⟩
    · rw [update_self]
      have := h.counter j pdd hpdd
      omega
    · rw [update_of_ne hne]
      exact h.counter j x hj

/-- A device call of another source that keeps what it holds from being negative. -/
theorem Counters.otherCall (h : Counters s) (f : Pdd → Pdd × Option Errno)
    (hf : ∀ pdd, s.pdds[i]? = some pdd → 0 ≤ s.others i + ((f pdd).1.evicted - pdd.evicted)) :
    Counters (s.otherCall i f) := by
  unfold CriuProc.otherCall
  cases hpdd : s.pdds[i]? with
  | none => exact h
  | some pdd =>
    refine ⟨fun j x hj => ?_, fun j => ?_⟩
    · dsimp only
      rcases getElem?_set_cases hj with ⟨rfl, rfl⟩ | ⟨hne, hj⟩
      · rw [update_self]
        have := h.counter j pdd hpdd
        omega
      · rw [update_of_ne hne]
        exact h.counter j x hj
    · dsimp only
      by_cases hji : j = i
      · subst hji
        rw [update_self]
        exact hf pdd hpdd
      · rw [update_of_ne hji]
        exact h.others j

/-- The other sources do not change what CRIU holds. -/
theorem CriuProc.Holds.otherCall (h : s.Holds) (f : Pdd → Pdd × Option Errno) :
    (s.otherCall i f).Holds := by
  unfold CriuProc.otherCall
  cases s.pdds[i]? with
  | none => exact h
  | some pdd => simpa only [CriuProc.Holds, length_set] using h

theorem call_holds (f : Pdd → Pdd × Option Errno) (next : Option Errno → CriuPhase) (d : Int)
    (hpdd : s.pdds[i]? = some pdd) (hd : ((f pdd).1.evicted : Int) = pdd.evicted + d)
    (h : (next (f pdd).2).Holds s.pdds.length s.queuesPaused
      fun j => if j = i then s.criu i + d else s.criu j) : (s.call i f next).Holds := by
  have hcriu : update s.criu i (s.criu i + ((f pdd).1.evicted - pdd.evicted)) =
      fun j => if j = i then s.criu i + d else s.criu j := by
    funext j
    by_cases hji : j = i
    · subst hji
      rw [update_self, if_pos rfl]
      omega
    · rw [update_of_ne hji, if_neg hji]
  simp only [CriuProc.Holds, CriuProc.call, hpdd, length_set, hcriu]
  exact h

theorem Counters.restore (h : Counters s) {a : Answers} (hpdd : s.pdds[i]? = some pdd)
    (hheld : s.criu i = 1) (hok : (restoreProcessQueues a pdd).2 = none) :
    ((restoreProcessQueues a pdd).1.evicted : Int) = pdd.evicted + -1 := by
  have hcounter := h.counter i pdd hpdd
  have hothers := h.others i
  have hless := (restoreProcessQueues_evicted a pdd).2 hok
  omega

/-- CRIU restores a device that no source has evicted. -/
theorem restore_of_zero {a : Answers} (hzero : pdd.evicted = 0) :
    ((restoreProcessQueues a pdd).1.evicted : Int) = pdd.evicted + 0 := by
  rcases (restoreProcessQueues_evicted a pdd).1 with heq | heq
  · omega
  · omega

theorem advance_counters (h : Counters s) (a : Answers) (objectInfo : Option Errno) :
    Counters (s.advance a objectInfo) := by
  unfold CriuProc.advance
  split
  · exact h
  · split
    · exact h.call _ _
    · split
      · exact ⟨h.counter, h.others⟩
      · dsimp only
        split
        · exact ⟨h.counter, h.others⟩
        · exact ⟨h.counter, h.others⟩
  · split
    · exact ⟨h.counter, h.others⟩
    · exact h.call _ _
  · split
    · exact h.call _ _
    · exact ⟨h.counter, h.others⟩
  · split
    · exact h.call _ _
    · split
      · exact ⟨h.counter, h.others⟩
      · exact ⟨h.counter, h.others⟩

theorem advance_holds (hc : Counters s) (h : s.Holds) {a : Answers} {objectInfo : Option Errno}
    (hok : (CriuAct.advance a objectInfo).Ok s) : (s.advance a objectInfo).Holds := by
  unfold CriuProc.Holds at h
  unfold CriuAct.Ok at hok
  unfold CriuProc.advance
  cases hphase : s.phase with
  | idle =>
    dsimp only
    unfold CriuProc.Holds
    rwa [hphase] at h ⊢
  | evicting i r =>
    rw [hphase] at h
    dsimp only
    split
    · next hlt =>
      obtain ⟨pdd, hpdd⟩ : ∃ pdd, s.pdds[i]? = some pdd := ⟨_, getElem?_eq_getElem hlt⟩
      refine call_holds _ _ 1 hpdd (by rw [evictProcessQueues_evicted]; rfl) ?_
      split
      · intro j hj
        dsimp only
        rw [h j hj, h i hlt]
        split <;> split <;> omega
      · refine ⟨by omega, fun j hj => ?_⟩
        dsimp only
        rw [h j hj, h i hlt]
        split <;> split <;> omega
    · next hge =>
      have hall : ∀ j < s.pdds.length, s.criu j = 1 := by
        intro j hj
        rw [h j hj, if_pos (by omega)]
      have hrestore : (CriuPhase.infoRestoring 0).Holds s.pdds.length s.queuesPaused s.criu :=
        fun j hj => ⟨fun hlt => absurd hlt (Nat.not_lt_zero j), .inr (hall j hj)⟩
      cases r with
      | some e => exact hrestore
      | none =>
        cases objectInfo with
        | some e => exact hrestore
        | none => exact hall
  | rollingBack i nEvicted =>
    rw [hphase] at h hok
    obtain ⟨hbound, h⟩ := h
    dsimp only
    split
    · next hend =>
      intro j hj
      refine ⟨fun hlt => absurd hlt (Nat.not_lt_zero j), ?_⟩
      rw [h j hj]
      split
      · exact .inr rfl
      · exact .inl rfl
    · next hmore =>
      rw [not_or, not_le] at hmore
      obtain ⟨pdd, hpdd⟩ : ∃ pdd, s.pdds[i]? = some pdd := ⟨_, getElem?_eq_getElem hmore.2⟩
      have hheld : s.criu i = 1 := by rw [h i hmore.2, if_pos (by omega)]
      refine call_holds _ _ (-1) hpdd (hc.restore hpdd hheld (hok (by omega) pdd hpdd)) ?_
      refine ⟨by omega, fun j hj => ?_⟩
      dsimp only
      rw [h j hj, hheld]
      repeat' split
      all_goals omega
  | infoRestoring i =>
    rw [hphase] at h hok
    dsimp only
    split
    · next hlt =>
      obtain ⟨pdd, hpdd⟩ : ∃ pdd, s.pdds[i]? = some pdd := ⟨_, getElem?_eq_getElem hlt⟩
      have hpddOk := hok pdd hpdd
      -- the call takes what CRIU holds of the device, if it does
      obtain ⟨d, hd, hzero⟩ : ∃ d : Int,
          ((restoreProcessQueues a pdd).1.evicted : Int) = pdd.evicted + d ∧ s.criu i + d = 0 := by
        split at hpddOk
        · next hno => exact ⟨0, restore_of_zero hpddOk, by omega⟩
        · next hheld =>
          have hone : s.criu i = 1 := (h i hlt).2.resolve_left hheld
          exact ⟨-1, hc.restore hpdd hone hpddOk, by omega⟩
      refine call_holds _ _ d hpdd hd fun j hj => ?_
      obtain ⟨hbelow, hbit⟩ := h j hj
      dsimp only
      rw [hzero]
      split
      · exact ⟨fun _ => rfl, .inl rfl⟩
      · next hne => exact ⟨fun hji => hbelow (by omega), hbit⟩
    · next hge =>
      intro j hj
      exact (h j hj).1 (hj.trans_le (not_lt.mp hge))
  | unpausing i ret =>
    rw [hphase] at h hok
    obtain ⟨rfl, h⟩ := h
    dsimp only
    split
    · next hlt =>
      obtain ⟨pdd, hpdd⟩ : ∃ pdd, s.pdds[i]? = some pdd := ⟨_, getElem?_eq_getElem hlt⟩
      have hpddOk := hok pdd hpdd
      have hheld : s.criu i = 1 := by rw [h i hlt, if_neg (Nat.lt_irrefl i)]
      refine call_holds _ _ (-1) hpdd (hc.restore hpdd hheld hpddOk) ?_
      rw [hpddOk]
      refine ⟨rfl, fun j hj => ?_⟩
      dsimp only
      rw [h j hj, hheld]
      repeat' split
      all_goals omega
    · next hge =>
      intro j hj
      rw [h j hj, if_pos (hj.trans_le (not_lt.mp hge))]
      rfl

theorem criuAct_holds (hc : Counters s) (h : s.Holds) {x : CriuAct} (hok : x.Ok s) :
    Counters (criuAct s x) ∧ (criuAct s x).Holds := by
  cases x with
  | processInfo =>
    simp only [criuAct]
    split
    · next hidle =>
      have hnone : ∀ j < s.pdds.length, s.criu j = 0 := by
        intro j hj
        unfold CriuProc.Holds at h
        rw [hidle, hok] at h
        exact h j hj
      split
      · next hempty =>
        refine ⟨⟨hc.counter, hc.others⟩, fun j hj => ?_⟩
        exact ⟨fun _ => hnone j hj, .inl (hnone j hj)⟩
      · refine ⟨⟨hc.counter, hc.others⟩, fun j hj => ?_⟩
        rw [if_neg (Nat.not_lt_zero j)]
        exact hnone j hj
    · exact ⟨hc, h⟩
  | checkpoint args =>
    have hsame : (criuCheckpoint s args).1 = s := by
      unfold criuCheckpoint
      split
      · rfl
      · split
        · rfl
        · split
          · rfl
          · rfl
    simp only [criuAct, hsame, ite_self]
    exact ⟨hc, h⟩
  | unpause =>
    simp only [criuAct]
    split
    · next hpaused =>
      refine ⟨⟨hc.counter, hc.others⟩, rfl, fun j hj => ?_⟩
      unfold CriuProc.Holds at h
      rw [hpaused.1, hpaused.2] at h
      exact h j hj
    · exact ⟨hc, h⟩
  | advance a objectInfo => exact ⟨advance_counters hc a objectInfo, advance_holds hc h hok⟩
  | otherEvict j a =>
    refine ⟨hc.otherCall _ fun pdd hpdd => ?_, h.otherCall _⟩
    have := hc.others j
    rw [evictProcessQueues_evicted]
    omega
  | otherRestore j a =>
    simp only [criuAct]
    split
    · next hpos =>
      refine ⟨hc.otherCall _ fun pdd hpdd => ?_, h.otherCall _⟩
      rcases (restoreProcessQueues_evicted a pdd).1 with heq | heq
      · omega
      · omega
    · exact ⟨hc, h⟩
  | device j pdd =>
    simp only [criuAct]
    split
    · next hsame =>
      refine ⟨⟨fun k x hk => ?_, hc.others⟩, ?_⟩
      · rcases getElem?_set_cases hk with ⟨rfl, rfl⟩ | ⟨-, hk⟩
        · obtain ⟨old, hold, heq⟩ := Option.map_eq_some_iff.mp hsame
          rw [← heq]
          exact hc.counter k old hold
        · exact hc.counter k x hk
      · simpa only [CriuProc.Holds, length_set] using h
    · exact ⟨hc, h⟩

/-- CRIU holds one eviction of each device exactly while the queues are paused, and those
of other sources are not undone. -/
def Balanced (s : CriuProc) : Prop :=
  s.phase = .idle → ∀ j pdd, s.pdds[j]? = some pdd →
    s.criu j = (if s.queuesPaused then 1 else 0) ∧
      (pdd.evicted : Int) = s.others j + if s.queuesPaused then 1 else 0

/-- In every run whose steps meet their conditions, with any steps of other sources
between them, the evictions of CRIU are balanced whenever none of its operations is
under way. -/
theorem criuPause_balanced (pdds : List Pdd) (acts : List CriuAct)
    (hok : StepsOk criuAct (fun s x => x.Ok s) (CriuProc.start pdds) acts) :
    Balanced (run criuAct (CriuProc.start pdds) acts) := by
  have hstart : Counters (CriuProc.start pdds) ∧ (CriuProc.start pdds).Holds := by
    refine ⟨⟨fun j pdd hj => ?_, fun j => ?_⟩, fun j hj => rfl⟩
    · simp only [CriuProc.start] at hj ⊢
      rw [hj]
      exact (add_zero _).symm
    · simp only [CriuProc.start]
      cases pdds[j]? with
      | none => exact Int.le_refl 0
      | some pdd => exact Int.natCast_nonneg _
  obtain ⟨hc, h⟩ := run_inv_of_stepsOk (P := fun s => Counters s ∧ s.Holds)
    (fun s x hs hx => criuAct_holds hs.1 hs.2 hx) hstart hok
  intro hidle j pdd hj
  obtain ⟨hlt, -⟩ := List.getElem?_eq_some_iff.mp hj
  unfold CriuProc.Holds at h
  rw [hidle] at h
  have hcounter := hc.counter j pdd hj
  rw [h j hlt] at hcounter
  exact ⟨h j hlt, hcounter⟩

/-- A process of two devices is paused, with an eviction by another source meanwhile, and
then unpaused. -/
def exPause : List CriuAct :=
  [.processInfo, .advance .good none, .otherEvict 0 .good, .advance .good none, .advance .good none,
    .checkpoint { given := true, later := none }, .unpause, .advance .good none,
    .advance .good none, .advance .good none]

theorem criuPause_balanced_exPause :
    (run criuAct (CriuProc.start [exPdd, exPdd]) exPause).phase = .idle ∧
      Balanced (run criuAct (CriuProc.start [exPdd, exPdd]) exPause) := by
  exact ⟨by decide, criuPause_balanced [exPdd, exPdd] exPause (by decide)⟩

def exRemoveFails : Answers :=
  { Answers.good with hw := { Hw.good with removeHwQueue := fun _ => some .etime } }

def exTwice : List CriuAct :=
  [.processInfo, .advance .good none, .advance .good none, .processInfo, .advance .good none,
    .advance .good none, .unpause, .advance .good none, .advance .good none]

/-- Another source has evicted the first device when `PROCESS_INFO` fails on the second
one. -/
def exInfoFails : List CriuAct :=
  [.otherEvict 0 .good, .processInfo, .advance .good none, .advance exRemoveFails none,
    .advance .good none, .advance .good none, .advance .good none, .advance .good none,
    .advance .good none]

/-- After two `PROCESS_INFO` the queues stay evicted, and a failed one undoes the eviction
of another source. -/
theorem criuPause_unbalanced :
    ¬Balanced (run criuAct (CriuProc.start [exPdd]) exTwice) ∧
      ¬Balanced (run criuAct (CriuProc.start [exPdd, exPdd]) exInfoFails) := by
  constructor
  · intro h
    have hone := (h (by decide) 0 _ rfl).1
    exact absurd hone (by decide)
  · intro h
    have hone := (h (by decide) 0 _ rfl).1
    exact absurd hone (by decide)

end Step

end Amdkfd.Eviction
