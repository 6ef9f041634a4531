import Amdkfd.CriuPause

/-!
# An eviction that fails on one device

`kfd_process_evict_queues` alone: the walk over the devices, and the walk that takes back the
evictions of those before the one that failed. Each device answers an eviction from its own state
only, so what the call returns can be read off the state before it.
-/

namespace Amdkfd.Eviction

open Lib QueueManager List

/-! ## Model -/

structure Device where
  pdd : Pdd
  evict : Answers
  restore : Answers

/-- The first loop of `kfd_process_evict_queues` from a device on, with `r` and `n_evicted`: the
devices, `r`, and `n_evicted` when it goes to `fail`. -/
def evictLoop : List Device → Option Errno → Nat → List Pdd × Option Errno × Option Nat
  | [], r, _ => ([], r, none)
  | d :: ds, _, nEvicted =>
    let e := evictProcessQueues d.evict d.pdd
    if Tolerated e.2 then
      let rest := evictLoop ds e.2 (nEvicted + 1)
      (e.1 :: rest.1, rest.2)
    else (e.1 :: ds.map (·.pdd), e.2, some nEvicted)

/-- The label `fail`. -/
def rollBack : List Answers → List Pdd → Nat → List Pdd
  | a :: as, pdd :: pdds, nEvicted + 1 =>
    (restoreProcessQueues a pdd).1 :: rollBack as pdds nEvicted
  | _, pdds, _ => pdds

def kfdProcessEvictQueues (ds : List Device) : List Pdd × Option Errno :=
  let s := evictLoop ds none 0
  match s.2.2 with
  | none => (s.1, s.2.1)
  | some nEvicted => (rollBack (ds.map (·.restore)) s.1 nEvicted, s.2.1)

/-! ## The promise -/

/-- `qpd->evicted`, and `is_evicted` and `is_active` of each queue. -/
def flags (pdd : Pdd) : Nat × List (Bool × Bool) :=
  (pdd.ctx.qpd.evicted, pdd.ctx.qpd.queues.map fun q => (q.isEvicted, q.isActive))

def AllOrNothing (ds : List Device) : Prop :=
  (kfdProcessEvictQueues ds).2 ≠ none →
    (kfdProcessEvictQueues ds).1.map flags = ds.map (flags ·.pdd)

/-! ## When the eviction of one device fails -/

def activeBelow (queues : List Queue) (n : Nat) : List Nat :=
  (range n).filter fun i => (queues[i]?).any (·.isActive)

/-- MES is asked to remove one more queue: whether it hangs, and the last error. -/
def mesAnswer (remove : Nat → Option Errno) (s : Bool × Option Errno) (i : Nat) :
    Bool × Option Errno :=
  if s.1 then (true, some .eio)
  else
    match remove i with
    | none => s
    | some e => (true, some e)

def uncount (queues : List Queue) (dqm : Dqm) (i : Nat) : Dqm :=
  match queues[i]? with
  | none => dqm
  | some q =>
    { dqm with
      activeQueueCount := dqm.activeQueueCount - 1
      activeCpQueueCount :=
        if q.type.isCp then dqm.activeCpQueueCount - 1 else dqm.activeCpQueueCount
      gwsQueueCount := if q.isGws then dqm.gwsQueueCount - 1 else dqm.gwsQueueCount }

/-- The error of the eviction. Only the first eviction of a device asks for anything: MES to remove
each active queue, the scheduler to map what is left, or each MQD to be unloaded. -/
def evictError (a : Answers) (pdd : Pdd) : Option Errno :=
  let queues := pdd.ctx.qpd.queues
  let active := activeBelow queues queues.length
  let dqm := pdd.ctx.dqm
  if 0 < pdd.ctx.qpd.evicted then none
  else if pdd.cpsch then
    if pdd.ctx.qpd.drmPriv = false then none
    else if dqm.enableMes then
      (active.foldl (mesAnswer a.hw.removeHwQueue) (dqm.isHwsHang, none)).2
    else (executeQueuesCpsch a.hw (active.foldl (uncount queues) dqm)).2
  else if dqm.schedRunning = false then none
  else active.findSome? a.destroyMqd

theorem activeBelow_succ (queues : List Queue) (n : Nat) :
    activeBelow queues (n + 1) =
      activeBelow queues n ++ if (queues[n]?).any (·.isActive) then [n] else [] := by
  rw [activeBelow, activeBelow, range_succ, filter_append]
  congr 1
  cases h : (queues[n]?).any (·.isActive) <;> simp [h]

section Loops
variable {queues : List Queue} {n : Nat} {q : Queue}

theorem activeBelow_succ_none (h : queues[n]? = none) :
    activeBelow queues (n + 1) = activeBelow queues n := by
  simp [activeBelow_succ, h]

theorem activeBelow_succ_active (h : queues[n]? = some q) (ha : q.isActive = true) :
    activeBelow queues (n + 1) = activeBelow queues n ++ [n] := by
  simp [activeBelow_succ, h, ha]

theorem activeBelow_succ_inactive (h : queues[n]? = some q) (ha : ¬ q.isActive = true) :
    activeBelow queues (n + 1) = activeBelow queues n := by
  simp [activeBelow_succ, h, ha]

/-- The queues from `i` on are those of the start. -/
def Ahead (queues : List Queue) (i : Nat) (c : Ctx) : Prop :=
  ∀ j, i ≤ j → c.qpd.queues[j]? = queues[j]?

theorem Ahead.start (c : Ctx) : Ahead c.qpd.queues 0 c := fun _ _ => rfl

variable {c : Ctx} {i : Nat} {s : Ctx × Option Errno}

theorem Ahead.skip (h : Ahead queues n c) : Ahead queues (n + 1) c :=
  fun j hj => h j (Nat.le_of_succ_le hj)

theorem Ahead.set {c c' : Ctx} (h : Ahead queues n c)
    (hc : c'.qpd.queues = c.qpd.queues.set n q) : Ahead queues (n + 1) c' := by
  intro j hj
  rw [hc, getElem?_set_ne (by omega)]
  exact h j (Nat.le_of_succ_le hj)

/-- What the loop of `evict_process_queues_nocpsch` has met before `i`. -/
structure UnloadedBelow (a : Answers) (c : Ctx) (i : Nat) (s : Ctx × Option Errno) : Prop where
  ahead : Ahead c.qpd.queues i s.1
  running : s.1.dqm.schedRunning = c.dqm.schedRunning
  error : s.2 = if c.dqm.schedRunning = false then none
    else (activeBelow c.qpd.queues i).findSome? a.destroyMqd

theorem evictQueueNocpsch_unloadedBelow {a : Answers} (h : UnloadedBelow a c i s) :
    UnloadedBelow a c (i + 1) (evictQueueNocpsch a s i) := by
  unfold evictQueueNocpsch
  have hi := h.ahead i (le_refl i)
  split
  · next hnone =>
    refine ⟨h.ahead.skip, h.running, ?_⟩
    rw [activeBelow_succ_none (hi.symm.trans hnone)]
    exact h.error
  · next q hq =>
    have hq' := hi.symm.trans hq
    split
    · next hactive =>
      have hrun : s.1.dqm.schedRunning = c.dqm.schedRunning := h.running
      have herr := h.error
      simp only
      split
      · next hstop =>
        refine ⟨h.ahead.set rfl, hrun, ?_⟩
        have hstop' : c.dqm.schedRunning = false := hrun.symm.trans hstop
        rw [if_pos hstop'] at herr ⊢
        exact herr
      · next hstop =>
        refine ⟨h.ahead.set rfl, hrun, ?_⟩
        have hstop' : ¬ c.dqm.schedRunning = false := fun hc => hstop (hrun.trans hc)
        rw [if_neg hstop'] at herr ⊢
        rw [activeBelow_succ_active hq' hactive, findSome?_append, ← herr]
        simp
    · next hactive =>
      refine ⟨h.ahead.set rfl, h.running, ?_⟩
      rw [activeBelow_succ_inactive hq' hactive]
      exact h.error

/-- What the loop of `evict_process_queues_cpsch` has met before `i`, with MES. -/
structure RemovedBelow (hw : Hw) (c : Ctx) (i : Nat) (s : Ctx × Option Errno) : Prop where
  ahead : Ahead c.qpd.queues i s.1
  mes : s.1.dqm.enableMes = true
  answers : (s.1.dqm.isHwsHang, s.2) =
    (activeBelow c.qpd.queues i).foldl (mesAnswer hw.removeHwQueue) (c.dqm.isHwsHang, none)

theorem removeQueueIfMes_answer (hw : Hw) (i : Nat) (dqm : Dqm) (hmes : dqm.enableMes = true)
    (r : Option Errno) :
    (removeQueueIfMes hw i dqm).1.enableMes = true ∧
      ((removeQueueIfMes hw i dqm).1.isHwsHang,
        if (removeQueueIfMes hw i dqm).2 = none then r else (removeQueueIfMes hw i dqm).2) =
      mesAnswer hw.removeHwQueue (dqm.isHwsHang, r) i := by
  unfold removeQueueIfMes removeQueueMes mesAnswer
  rw [if_pos hmes]
  cases hhang : dqm.isHwsHang with
  | true => exact ⟨hmes, by simp [hhang]⟩
  | false =>
    cases hw.removeHwQueue i with
    | none => exact ⟨hmes, by simp [hhang]⟩
    | some e => exact ⟨hmes, rfl⟩

theorem evictQueue_removedBelow {hw : Hw} (h : RemovedBelow hw c i s) :
    RemovedBelow hw c (i + 1) (evictQueue hw s i) := by
  unfold evictQueue
  have hi := h.ahead i (le_refl i)
  split
  · next hnone =>
    refine ⟨h.ahead.skip, h.mes, ?_⟩
    rw [activeBelow_succ_none (hi.symm.trans hnone)]
    exact h.answers
  · next q hq =>
    have hq' := hi.symm.trans hq
    split
    · next hactive =>
      obtain ⟨hmes, hanswer⟩ := removeQueueIfMes_answer hw i
        (decrementQueueCount (s.1.setQueue (.listed i)
          { q with isEvicted := true, isActive := false }) q.type q.isGws).dqm h.mes s.2
      refine ⟨h.ahead.set rfl, hmes, ?_⟩
      rw [activeBelow_succ_active hq' hactive, foldl_append, ← h.answers]
      exact hanswer
    · next hactive =>
      refine ⟨h.ahead.set rfl, h.mes, ?_⟩
      rw [activeBelow_succ_inactive hq' hactive]
      exact h.answers

/-- What the loop of `evict_process_queues_cpsch` has done before `i`, without MES. -/
structure UncountedBelow (c : Ctx) (i : Nat) (s : Ctx × Option Errno) : Prop where
  ahead : Ahead c.qpd.queues i s.1
  mes : s.1.dqm.enableMes = false
  dqm : s.1.dqm = (activeBelow c.qpd.queues i).foldl (uncount c.qpd.queues) c.dqm

theorem evictQueue_uncountedBelow {hw : Hw} (h : UncountedBelow c i s) :
    UncountedBelow c (i + 1) (evictQueue hw s i) := by
  unfold evictQueue
  have hi := h.ahead i (le_refl i)
  split
  · next hnone =>
    refine ⟨h.ahead.skip, h.mes, ?_⟩
    rw [activeBelow_succ_none (hi.symm.trans hnone)]
    exact h.dqm
  · next q hq =>
    have hq' := hi.symm.trans hq
    split
    · next hactive =>
      have hskip : ∀ dqm : Dqm, dqm.enableMes = false → removeQueueIfMes hw i dqm = (dqm, none) :=
        fun dqm hmes => by rw [removeQueueIfMes, hmes]; rfl
      simp only [hskip (decrementQueueCount (s.1.setQueue (.listed i)
          { q with isEvicted := true, isActive := false }) q.type q.isGws).dqm h.mes]
      refine ⟨h.ahead.set rfl, h.mes, ?_⟩
      rw [activeBelow_succ_active hq' hactive, foldl_append, ← h.dqm, foldl_cons,
        foldl_nil, uncount, hq']
      rfl
    · next hactive =>
      refine ⟨h.ahead.set rfl, h.mes, ?_⟩
      rw [activeBelow_succ_inactive hq' hactive]
      exact h.dqm

end Loops

theorem evictProcessQueues_error (a : Answers) (pdd : Pdd) :
    (evictProcessQueues a pdd).2 = evictError a pdd := by
  unfold evictProcessQueues evictError
  cases hc : pdd.cpsch with
  | true =>
    simp only [if_true]
    unfold evictProcessQueuesCpsch
    simp only
    split
    · rfl
    · split
      · rfl
      · unfold Ctx.executeUnlessMes
        cases hmes : pdd.ctx.dqm.enableMes with
        | true =>
          have hloop := foldl_range_inv (f := evictQueue a.hw)
            (P := RemovedBelow a.hw { pdd.ctx with qpd :=
              { pdd.ctx.qpd with evicted := pdd.ctx.qpd.evicted + 1 } })
            (fun i s hs => evictQueue_removedBelow hs)
            (s := ({ pdd.ctx with qpd :=
              { pdd.ctx.qpd with evicted := pdd.ctx.qpd.evicted + 1 } }, none))
            ⟨.start _, hmes, rfl⟩ pdd.ctx.qpd.queues.length
          rw [if_pos hloop.mes, if_pos rfl]
          exact congrArg Prod.snd hloop.answers
        | false =>
          have hloop := foldl_range_inv (f := evictQueue a.hw)
            (P := UncountedBelow { pdd.ctx with qpd :=
              { pdd.ctx.qpd with evicted := pdd.ctx.qpd.evicted + 1 } })
            (fun i s hs => evictQueue_uncountedBelow hs)
            (s := ({ pdd.ctx with qpd :=
              { pdd.ctx.qpd with evicted := pdd.ctx.qpd.evicted + 1 } }, none))
            ⟨.start _, hmes, rfl⟩ pdd.ctx.qpd.queues.length
          rw [if_neg (by rw [hloop.mes]; nofun), if_neg nofun]
          exact congrArg (fun dqm => (executeQueuesCpsch a.hw dqm).2) hloop.dqm
  | false =>
    simp only [Bool.false_eq_true, if_false]
    unfold evictProcessQueuesNocpsch
    simp only
    split
    · rfl
    · have hloop := foldl_range_inv (f := evictQueueNocpsch a)
        (P := UnloadedBelow a { pdd.ctx with qpd :=
          { pdd.ctx.qpd with evicted := pdd.ctx.qpd.evicted + 1 } })
        (fun i s hs => evictQueueNocpsch_unloadedBelow hs)
        (s := ({ pdd.ctx with qpd :=
          { pdd.ctx.qpd with evicted := pdd.ctx.qpd.evicted + 1 } }, none))
        ⟨.start _, rfl, by split <;> rfl⟩ pdd.ctx.qpd.queues.length
      exact hloop.error

/-! ## The walk -/

def Device.error (d : Device) : Option Errno := evictError d.evict d.pdd

def Device.evicted (d : Device) : Pdd := (evictProcessQueues d.evict d.pdd).1

/-- The error of the last device, which the call returns if it comes to the end. -/
def lastError (ds : List Device) (r : Option Errno) : Option Errno :=
  match ds.getLast? with
  | none => r
  | some d => d.error

theorem evictLoop_cases (ds : List Device) (r : Option Errno) (n : Nat) :
    ((∀ d ∈ ds, Tolerated d.error) ∧
      evictLoop ds r n = (ds.map (·.evicted), lastError ds r, none)) ∨
    ∃ k d, ds[k]? = some d ∧ ¬ Tolerated d.error ∧
      (evictLoop ds r n).1[k]? = some d.evicted ∧
      (evictLoop ds r n).2 = (d.error, some (n + k)) := by
  induction ds generalizing r n with
  | nil => exact .inl ⟨fun _ hd => absurd hd not_mem_nil, rfl⟩
  | cons d ds ih =>
    have herror : (evictProcessQueues d.evict d.pdd).2 = d.error :=
      evictProcessQueues_error d.evict d.pdd
    unfold evictLoop
    simp only [herror]
    split
    · next ht =>
      rcases ih d.error (n + 1) with ⟨hall, heq⟩ | ⟨k, x, hk, hx, hdev, hret⟩
      · refine .inl ⟨forall_mem_cons.mpr ⟨ht, hall⟩, ?_⟩
        rw [heq]
        cases ds with
        | nil => rfl
        | cons d' ds => simp only [lastError, getLast?_cons_cons, map_cons]; rfl
      · refine .inr ⟨k + 1, x, hk, hx, hdev, ?_⟩
        rw [hret, add_assoc, add_comm 1 k]
    · next ht => exact .inr ⟨0, d, rfl, ht, rfl, rfl⟩

theorem rollBack_getElem? (as : List Answers) (pdds : List Pdd) {n k : Nat} (h : n ≤ k) :
    (rollBack as pdds n)[k]? = pdds[k]? := by
  induction n generalizing as pdds k with
  | zero => cases as <;> cases pdds <;> rfl
  | succ n ih =>
    cases as with
    | nil => rfl
    | cons a as =>
      cases pdds with
      | nil => rfl
      | cons pdd pdds =>
        cases k with
        | zero => exact absurd h (Nat.not_succ_le_zero n)
        | succ k => exact ih as pdds (Nat.le_of_succ_le_succ h)

theorem evicted_flags_ne (d : Device) : flags d.evicted ≠ flags d.pdd := by
  intro h
  have := congrArg Prod.fst h
  have hcount : d.evicted.ctx.qpd.evicted = d.pdd.ctx.qpd.evicted + 1 :=
    evictProcessQueues_evicted d.evict d.pdd
  simp only [flags] at this
  omega

/-- The call keeps its promise only by not failing: each device that it evicts first answers, or
refuses with `-EIO`, and the last one answers. -/
theorem allOrNothing_iff (ds : List Device) :
    AllOrNothing ds ↔
      (∀ d ∈ ds, Tolerated (evictError d.evict d.pdd)) ∧
        ∀ d ∈ ds.getLast?, evictError d.evict d.pdd = none := by
  show AllOrNothing ds ↔ (∀ d ∈ ds, Tolerated d.error) ∧ ∀ d ∈ ds.getLast?, d.error = none
  unfold AllOrNothing kfdProcessEvictQueues
  rcases evictLoop_cases ds none 0 with ⟨hall, heq⟩ | ⟨k, d, hk, hd, hdev, hret⟩
  · rw [heq]
    simp only
    constructor
    · intro h
      refine ⟨hall, fun d hd => ?_⟩
      by_contra he
      have hlast : lastError ds none = d.error := by
        rw [lastError, hd]
      have hflags := h (by rwa [hlast])
      rw [map_map] at hflags
      exact evicted_flags_ne d (map_inj_left.mp hflags d (mem_of_mem_getLast? hd))
    · rintro ⟨-, hlast⟩ he
      refine absurd ?_ he
      unfold lastError
      split
      · rfl
      · next d hd => exact hlast d hd
  · have hne : d.error ≠ none := fun he => hd (.inl he)
    obtain ⟨pdds, hloop⟩ : ∃ pdds, evictLoop ds none 0 = (pdds, d.error, some k) :=
      ⟨_, Prod.ext rfl (hret.trans (by rw [zero_add]))⟩
    rw [hloop] at hdev ⊢
    simp only at hdev ⊢
    constructor
    · intro h
      have hflags := congrArg (·[k]?) (h hne)
      simp only [getElem?_map, rollBack_getElem? _ _ (le_refl k), hdev, hk,
        Option.map_some] at hflags
      exact absurd (Option.some.inj hflags) (evicted_flags_ne d)
    · rintro ⟨hall, -⟩
      exact absurd (hall d (mem_of_getElem? hk)) hd

def exTimesOut : List Device :=
  [{ pdd := exPdd, evict := .good, restore := .good },
    { pdd := exPdd, evict := { Answers.good with hw :=
        { Hw.good with removeHwQueue := fun _ => some .etime } }, restore := .good }]

/-- The first device is restored; the second stays evicted, although the call has failed. -/
theorem allOrNothing_broken : ¬ ∀ ds, AllOrNothing ds := by
  intro h
  have hflags := h exTimesOut (by decide)
  revert hflags
  decide

end Amdkfd.Eviction
