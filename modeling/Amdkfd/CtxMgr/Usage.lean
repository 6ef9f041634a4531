import Amdkfd.CtxMgr.History
import Amdkfd.Lib.Count

/-!
# The engine time of a manager

The sum of the manager has the time of the fences that have left the slots, and of those of the
contexts that have ended. With the slots of the contexts that have a handle it is the usage.
-/

namespace Amdkfd.CtxMgr

open Lib Function List Option

/-! ## What the usage is to be -/

def SFence.runTime (t : Nat) (f : SFence) : Nat :=
  f.scheduled.elim 0 fun began => min t (f.finished.getD t) - began

def runTime (fences : List SFence) (t n : Nat) : Nat := (fences[n]?).elim 0 (SFence.runTime t)

def runTimes (fences : List SFence) (t : Nat) (ns : List Nat) : Nat :=
  (ns.map (runTime fences t)).sum

def Ctx.time (fences : List SFence) (t hwIp : Nat) (c : Ctx) : Nat :=
  rowSum (fun e => runTimes fences t e.history) (c.entities hwIp)

def Ctx.timeReplaced (j : SchedJobs) (fences : List SFence) (t hwIp : Nat) (c : Ctx) : Nat :=
  rowSum (fun e => runTimes fences t (e.history.take (e.history.length - j.jobs)))
    (c.entities hwIp)

/-- All fences count with the time that they have run, or had run when their context ended. A
context that has lost its handle but not its last reference counts for what is not in its slots. -/
def Ctx.counted (j : SchedJobs) (s : Mgr) (hwIp : Nat) (c : Ctx) : Nat :=
  match c.endedAt with
  | some t => c.time s.fences t hwIp
  | none =>
    if c.handle then c.time s.fences s.now hwIp else c.timeReplaced j s.fences s.now hwIp

def UsageRight (j : SchedJobs) (s : Mgr) : Prop :=
  ∀ hwIp < hwIpNum, amdgpuCtxMgrUsage s hwIp = (s.ctxs.map (Ctx.counted j s hwIp)).sum

/-- The queries on entities whose counter has not wrapped. -/
def AnswersRight (j : SchedJobs) (s : Mgr) : Prop :=
  ∀ c ∈ s.ctxs, ∀ hwIp ring e, c.entity? hwIp ring = some e →
    e.history.length + j.jobs < 2 ^ 64 →
      ∀ seq, FenceAnswer s.fences e seq (amdgpuCtxGetFence j e seq)

def UsageWhole (s : Mgr) : Prop :=
  ∀ hwIp < hwIpNum, amdgpuCtxMgrUsage s hwIp = (s.ctxs.map (Ctx.time s.fences s.now hwIp)).sum

def AnswersWhole (j : SchedJobs) (s : Mgr) : Prop :=
  ∀ c ∈ s.ctxs, ∀ hwIp ring e, c.entity? hwIp ring = some e →
    ∀ seq < 2 ^ 64, FenceAnswer s.fences e seq (amdgpuCtxGetFence j e seq)

/-! ## Rows of entities -/

section
variable {f g : Entity → Nat} {row : List (Option Entity)} {ring : Nat} {e e' : Entity}

theorem rowSum_congr (h : ∀ (ring : Nat) e, (row[ring]?).join = some e → f e = g e) :
    rowSum f row = rowSum g row := by
  unfold rowSum
  congr 1
  refine map_congr_left fun o ho => ?_
  obtain ⟨ring, hring⟩ := getElem?_of_mem ho
  cases o with
  | none => rfl
  | some e => exact h ring e (by rw [hring]; rfl)

theorem rowSum_add : rowSum (fun e => f e + g e) row = rowSum f row + rowSum g row := by
  unfold rowSum
  rw [← sum_map_add]
  congr 1
  refine map_congr_left fun o _ => ?_
  cases o <;> rfl

theorem rowSum_set (h : (row[ring]?).join = some e) :
    rowSum f (row.set ring (some e')) + f e = rowSum f row + f e' := by
  have hget : row[ring]? = some (some e) := by
    cases hrow : row[ring]? with
    | none => rw [hrow] at h; cases h
    | some o => rw [hrow] at h; exact congrArg some h
  have hset := sum_map_set (b := some e') (fun o => o.elim 0 f) hget
  have herase := sum_map_eraseIdx_add (fun o => o.elim 0 f) hget
  unfold rowSum
  simp only [elim_some] at hset herase
  omega

theorem rowSum_set_of_none (h : (row[ring]?).join = none) (hf : f e' = 0) :
    rowSum f (row.set ring (some e')) = rowSum f row := by
  cases hrow : row[ring]? with
  | none => rw [set_eq_of_length_le (getElem?_eq_none_iff.mp hrow)]
  | some o =>
    obtain rfl : o = none := by rw [hrow] at h; exact h
    have hset := sum_map_set (b := some e') (fun o => o.elim 0 f) hrow
    have herase := sum_map_eraseIdx_add (fun o => o.elim 0 f) hrow
    unfold rowSum
    simp only [elim_some, elim_none, hf] at hset herase
    omega

theorem rowSum_take {n : Nat} (h : ∀ (ring : Nat) e, (row[ring]?).join = some e → ring < n) :
    rowSum f (row.take n) = rowSum f row := by
  have hdrop : rowSum f (row.drop n) = 0 := by
    refine sum_eq_zero fun x hx => ?_
    obtain ⟨o, ho, rfl⟩ := mem_map.mp hx
    obtain ⟨k, hk⟩ := getElem?_of_mem ho
    cases o with
    | none => rfl
    | some e =>
      rw [getElem?_drop] at hk
      have := h (n + k) e (by rw [hk]; rfl)
      omega
  have hsplit : rowSum f row = rowSum f (row.take n) + rowSum f (row.drop n) := by
    unfold rowSum
    rw [← sum_append, ← map_append, take_append_drop]
  rw [hsplit, hdrop, add_zero]

end

theorem Ctx.entity?_setEntity {c : Ctx} {hwIp ring hwIp' ring' : Nat} {e e' : Entity}
    (h : (c.setEntity hwIp ring e').entity? hwIp' ring' = some e) :
    (hwIp' = hwIp ∧ ring' = ring ∧ e = e') ∨ c.entity? hwIp' ring' = some e := by
  unfold Ctx.entity? Ctx.setEntity at h
  dsimp only at h
  rcases Nat.decEq hwIp' hwIp with hip | rfl
  · rw [update_of_ne hip] at h
    exact .inr h
  · rw [update_self, getElem?_set] at h
    split at h
    · next hring =>
      split at h
      · exact .inl ⟨rfl, hring.symm, (some.inj h).symm⟩
      · cases h
    · exact .inr h

/-! ## Run times -/

section
variable {s : Mgr} {fences fences' : List SFence} {j : SchedJobs} {e : Entity} {t : Nat}

theorem fenceTime_eq (h : ∀ f ∈ s.fences, ∀ t, f.finished = some t → t ≤ s.now) (n : Nat) :
    amdgpuCtxFenceTime s (some n) = runTime s.fences s.now n := by
  unfold amdgpuCtxFenceTime runTime SFence.runTime
  rw [bind_some]
  cases hn : s.fences[n]? with
  | none => rfl
  | some f =>
    have hf := h f (mem_of_getElem? hn)
    rcases f with ⟨_ | began, _ | ended⟩
    · rfl
    · rfl
    · simp
    · simp [min_eq_right (hf ended rfl)]

theorem runTime_of_signalled (h : ∀ f ∈ fences, ∀ t, f.finished = some t → t ≤ t0) {n : Nat}
    (hn : signalled fences n) (hle : t0 ≤ t) : runTime fences t n = runTime fences t0 n := by
  unfold signalled at hn
  unfold runTime SFence.runTime
  cases hget : fences[n]? with
  | none => rfl
  | some f =>
    rw [hget] at hn
    obtain ⟨ended, hended⟩ := isSome_iff_exists.mp hn
    have hle' := h f (mem_of_getElem? hget) ended hended
    simp only [elim_some, show f.finished = some ended from hended, getD_some,
      min_eq_right hle', min_eq_right (le_trans hle' hle)]

theorem runTimes_split (t k : Nat) (ns : List Nat) :
    runTimes fences t (ns.take k) + runTimes fences t (ns.drop k) = runTimes fences t ns := by
  unfold runTimes
  rw [← sum_append, ← map_append, take_append_drop]

theorem Entity.Inv.time (h : e.Inv j s.fences)
    (hfin : ∀ f ∈ s.fences, ∀ t, f.finished = some t → t ≤ s.now) :
    amdgpuCtxEntityTime s e =
      runTimes s.fences s.now (e.history.drop (e.history.length - j.jobs)) := by
  have hperm := ((rotate_perm e.fences (e.history.length + 1)).map
    (amdgpuCtxFenceTime s)).sum_nat
  rw [amdgpuCtxEntityTime, ← hperm, h.slots, lastSlots_sum rfl]
  simp only [fenceTime_eq hfin]
  rfl

end

/-! ## The invariant -/

structure Ctx.Inv (j : SchedJobs) (fences : List SFence) (now : Nat) (c : Ctx) : Prop where
  entity : ∀ hwIp ring e, c.entity? hwIp ring = some e →
    ring < numEntities hwIp ∧ e.hwIp = hwIp ∧ e.Inv j fences
  ended : ∀ t, c.endedAt = some t → t ≤ now ∧ c.refcount = 0 ∧ c.handle = false

/-- What `time_spend` has of a context. -/
def Ctx.settled (j : SchedJobs) (fences : List SFence) (now hwIp : Nat) (c : Ctx) : Nat :=
  match c.endedAt with
  | some t => c.time fences t hwIp
  | none => c.timeReplaced j fences now hwIp

structure Mgr.Inv (j : SchedJobs) (s : Mgr) : Prop where
  finished : ∀ f ∈ s.fences, ∀ t, f.finished = some t → t ≤ s.now
  ctx : ∀ c ∈ s.ctxs, c.Inv j s.fences s.now
  spend : ∀ hwIp, s.timeSpend hwIp = (s.ctxs.map (Ctx.settled j s.fences s.now hwIp)).sum

variable {j : SchedJobs} {s : Mgr} {c : Ctx}

theorem Ctx.Inv.time (h : c.Inv j s.fences s.now)
    (hfin : ∀ f ∈ s.fences, ∀ t, f.finished = some t → t ≤ s.now) (hwIp : Nat) :
    c.timeReplaced j s.fences s.now hwIp + rowSum (amdgpuCtxEntityTime s) (c.entities hwIp) =
      c.time s.fences s.now hwIp := by
  unfold Ctx.timeReplaced Ctx.time
  rw [← rowSum_add]
  refine rowSum_congr fun ring e he => ?_
  rw [(h.entity hwIp ring e he).2.2.time hfin, runTimes_split]

theorem Mgr.Inv.usage (h : s.Inv j) : UsageRight j s := by
  intro hwIp _
  unfold amdgpuCtxMgrUsage
  rw [h.spend hwIp, ← sum_map_add]
  congr 1
  refine map_congr_left fun c hc => ?_
  have hctx := h.ctx c hc
  unfold Ctx.settled Ctx.counted
  cases hend : c.endedAt with
  | some t => simp only [(hctx.ended t hend).2.2, Bool.false_eq_true, if_false, add_zero]
  | none =>
    simp only
    split
    · rw [rowSum_take fun ring e he => (hctx.entity hwIp ring e he).1]
      exact hctx.time h.finished hwIp
    · rfl

theorem Mgr.Inv.answers (h : s.Inv j) : AnswersRight j s :=
  fun c hc hwIp ring e he hlen seq =>
    fenceAnswer_getFence ((h.ctx c hc).entity hwIp ring e he).2.2 hlen seq

/-! ## Steps of the scheduler and the clock -/

theorem Mgr.Inv.tick (h : s.Inv j) (ns : Nat) : Mgr.Inv j { s with now := s.now + ns } where
  finished f hf t ht := le_trans (h.finished f hf t ht) (Nat.le_add_right ..)
  ctx c hc :=
    { entity := (h.ctx c hc).entity
      ended := fun t ht =>
        have hend := (h.ctx c hc).ended t ht
        ⟨le_trans hend.1 (Nat.le_add_right ..), hend.2⟩ }
  spend hwIp := by
    rw [show ({ s with now := s.now + ns } : Mgr).timeSpend hwIp = s.timeSpend hwIp from rfl,
      h.spend hwIp]
    congr 1
    refine map_congr_left fun c hc => ?_
    unfold Ctx.settled
    cases c.endedAt with
    | some t => rfl
    | none =>
      refine rowSum_congr fun ring e he => ?_
      have hinv := ((h.ctx c hc).entity hwIp ring e he).2.2
      unfold runTimes
      congr 1
      exact map_congr_left fun n hn =>
        (runTime_of_signalled h.finished (hinv.replaced n hn) (Nat.le_add_right ..)).symm

theorem Mgr.Inv.setFences (h : s.Inv j) {fences : List SFence}
    (hfin : ∀ f ∈ fences, ∀ t, f.finished = some t → t ≤ s.now)
    (hsig : ∀ n, signalled s.fences n → signalled fences n)
    (htime : ∀ t ≤ s.now, ∀ n, runTime fences t n = runTime s.fences t n) :
    Mgr.Inv j { s with fences := fences } where
  finished := hfin
  ctx c hc :=
    { entity := fun hwIp ring e he =>
        have hent := (h.ctx c hc).entity hwIp ring e he
        ⟨hent.1, hent.2.1, hent.2.2.mono hsig⟩
      ended := (h.ctx c hc).ended }
  spend hwIp := by
    have htimes (t : Nat) (ht : t ≤ s.now) (ns : List Nat) :
        runTimes s.fences t ns = runTimes fences t ns := by
      unfold runTimes
      congr 1
      exact map_congr_left fun n _ => (htime t ht n).symm
    rw [show ({ s with fences := fences } : Mgr).timeSpend hwIp = s.timeSpend hwIp from rfl,
      h.spend hwIp]
    congr 1
    refine map_congr_left fun c hc => ?_
    unfold Ctx.settled
    cases hend : c.endedAt with
    | some t => exact rowSum_congr fun _ _ _ => htimes t ((h.ctx c hc).ended t hend).1 _
    | none => exact rowSum_congr fun _ _ _ => htimes s.now (le_refl _) _

variable {i : Nat}

theorem Mgr.Inv.setFence (h : s.Inv j) {f f' : SFence} (hget : s.fences[i]? = some f)
    (hfin : ∀ t, f'.finished = some t → t ≤ s.now) (hsig : f.finished.isSome → f'.finished.isSome)
    (htime : ∀ t ≤ s.now, f'.runTime t = f.runTime t) :
    Mgr.Inv j { s with fences := s.fences.set i f' } := by
  have hi := of_getElem?_eq_some hget
  refine h.setFences (fun g hg => ?_) (fun n hn => ?_) (fun t ht n => ?_)
  · rcases mem_or_eq_of_mem_set hg with hold | rfl
    · exact h.finished g hold
    · exact hfin
  · unfold signalled at hn ⊢
    rcases Nat.decEq i n with hne | rfl
    · rwa [getElem?_set_ne hne]
    · rw [hget] at hn
      rw [getElem?_set_self hi]
      exact hsig hn
  · unfold runTime
    rcases Nat.decEq i n with hne | rfl
    · rw [getElem?_set_ne hne]
    · rw [getElem?_set_self hi, hget]
      exact htime t ht

theorem Mgr.Inv.schedule (h : s.Inv j) {f : SFence} (hget : s.fences[i]? = some f) :
    (drmSchedFenceScheduled s i f).Inv j := by
  unfold drmSchedFenceScheduled
  rcases f with ⟨_ | began, _ | ended⟩
  · refine h.setFence hget (fun t ht => by cases ht) id fun t ht => ?_
    simp only [SFence.runTime, elim_some, elim_none, getD_none]
    omega
  all_goals exact h

theorem Mgr.Inv.finish (h : s.Inv j) {f : SFence} (hget : s.fences[i]? = some f) :
    (drmSchedFenceFinished s i f).Inv j := by
  unfold drmSchedFenceFinished
  rcases f with ⟨began, _ | ended⟩
  · refine h.setFence hget (fun t ht => ?_) (fun _ => rfl) fun t ht => ?_
    · exact le_of_eq (some.inj ht).symm
    · simp only [SFence.runTime, getD_some, getD_none, Nat.min_self,
        min_eq_left ht]
  · exact h

/-! ## Calls on a context -/

section
variable (h : s.Inv j)
include h

theorem Mgr.Inv.setCtx (hget : s.ctxs[i]? = some c) (c' : Ctx) (hinv : c'.Inv j s.fences s.now)
    (d : Nat → Nat)
    (hd : ∀ hwIp, c'.settled j s.fences s.now hwIp = c.settled j s.fences s.now hwIp + d hwIp) :
    Mgr.Inv j { s with
      ctxs := s.ctxs.set i c', timeSpend := fun hwIp => s.timeSpend hwIp + d hwIp } where
  finished := h.finished
  ctx x hx := by
    rcases mem_or_eq_of_mem_set hx with hold | rfl
    · exact h.ctx x hold
    · exact hinv
  spend hwIp := by
    have hset := sum_map_set (b := c') (Ctx.settled j s.fences s.now hwIp) hget
    have herase := sum_map_eraseIdx_add (Ctx.settled j s.fences s.now hwIp) hget
    have := h.spend hwIp
    have := hd hwIp
    simp only
    omega

theorem Mgr.Inv.alloc : Mgr.Inv j { s with ctxs := s.ctxs ++ [Ctx.init] } where
  finished := h.finished
  ctx c hc := by
    rcases mem_append.mp hc with hold | hnew
    · exact h.ctx c hold
    · rw [mem_singleton.mp hnew]
      refine ⟨fun hwIp ring e he => ?_, fun t ht => by cases ht⟩
      simp only [Ctx.entity?, Ctx.init, getElem?_replicate] at he
      split at he <;> cases he
  spend hwIp := by
    have hzero : Ctx.init.settled j s.fences s.now hwIp = 0 := by
      simp [Ctx.settled, Ctx.init, Ctx.timeReplaced, rowSum]
    rw [map_append, sum_append, map_singleton, sum_singleton, hzero]
    exact h.spend hwIp

theorem Mgr.Inv.fini (hget : s.ctxs[i]? = some c) (halive : c.endedAt = none) :
    (amdgpuCtxFini s i { c with handle := false }).Inv j := by
  have hinv := h.ctx c (mem_of_getElem? hget)
  refine h.setCtx hget { c with refcount := 0, handle := false, endedAt := some s.now }
    ⟨hinv.entity, fun t ht => ?_⟩ _ fun hwIp => ?_
  · exact ⟨le_of_eq (some.inj ht).symm, rfl, rfl⟩
  · have hsettled : c.settled j s.fences s.now hwIp = c.timeReplaced j s.fences s.now hwIp := by
      rw [Ctx.settled, halive]
    rw [hsettled]
    exact (hinv.time h.finished hwIp).symm

theorem Mgr.Inv.setRefs (hget : s.ctxs[i]? = some c) (halive : c.endedAt = none) (n : Nat)
    (b : Bool) :
    Mgr.Inv j { s with ctxs := s.ctxs.set i { c with refcount := n, handle := b } } := by
  have hinv := h.ctx c (mem_of_getElem? hget)
  refine h.setCtx hget { c with refcount := n, handle := b } ⟨hinv.entity, fun t ht => ?_⟩
    (fun _ => 0) fun hwIp => rfl
  rw [show c.endedAt = some t from ht] at halive
  cases halive

theorem Mgr.Inv.put (hget : s.ctxs[i]? = some c) (halive : c.endedAt = none) {b : Bool}
    (hb : c.refcount = 1 → b = false) : (krefPut s i { c with handle := b }).Inv j := by
  unfold krefPut
  split
  · next hone => rw [hb hone]; exact h.fini hget halive
  · exact h.setRefs hget halive _ b

theorem Mgr.Inv.getEntity (hget : s.ctxs[i]? = some c) {c' : Ctx} {hwIp inst ring : Nat}
    {r : Option Errno} (hok : amdgpuCtxGetEntity j c hwIp inst ring r = .ok c') :
    Mgr.Inv j { s with ctxs := s.ctxs.set i c' } := by
  have hinv := h.ctx c (mem_of_getElem? hget)
  unfold amdgpuCtxGetEntity at hok
  split at hok
  · cases hok
  split at hok
  · cases hok
  split at hok
  · cases hok
  next hring =>
  split at hok
  · obtain rfl := Except.ok.inj hok
    exact h.setCtx hget c hinv (fun _ => 0) fun _ => rfl
  · cases hok
  next hnone =>
  obtain rfl := Except.ok.inj hok
  refine h.setCtx hget (c.setEntity hwIp ring (Entity.init j hwIp))
    ⟨fun hwIp' ring' e he => ?_, hinv.ended⟩ (fun _ => 0) fun hwIp' => ?_
  · rcases Ctx.entity?_setEntity he with ⟨rfl, rfl, rfl⟩ | hold
    · exact ⟨not_le.mp hring, rfl, Entity.inv_init hwIp'⟩
    · exact hinv.entity hwIp' ring' e hold
  · have hrow (f : Entity → Nat) (hf : f (Entity.init j hwIp) = 0) :
        rowSum f ((c.setEntity hwIp ring (Entity.init j hwIp)).entities hwIp') =
          rowSum f (c.entities hwIp') := by
      unfold Ctx.setEntity
      dsimp only
      rcases Nat.decEq hwIp' hwIp with hip | rfl
      · rw [update_of_ne hip]
      · rw [update_self]
        exact rowSum_set_of_none hnone hf
    unfold Ctx.settled
    rw [show (c.setEntity hwIp ring (Entity.init j hwIp)).endedAt = c.endedAt from rfl]
    cases c.endedAt with
    | some t => exact hrow _ rfl
    | none => exact hrow _ (by simp [Entity.init, runTimes])

theorem Mgr.Inv.newFence : Mgr.Inv j { s with fences := s.fences ++ [⟨none, none⟩] } := by
  refine h.setFences (fun f hf => ?_) (fun n hn => ?_) (fun t _ n => ?_)
  · rcases mem_append.mp hf with hold | hnew
    · exact h.finished f hold
    · rw [mem_singleton.mp hnew]
      exact fun t ht => (by cases ht)
  · unfold signalled at hn ⊢
    rw [getElem?_append_left]
    · exact hn
    · exact Nat.lt_of_not_le fun hge => by simp [getElem?_eq_none hge] at hn
  · unfold runTime
    rcases lt_or_ge n s.fences.length with hlt | hge
    · rw [getElem?_append_left hlt]
    · rw [getElem?_append_right hge, getElem?_eq_none hge]
      cases n - s.fences.length <;> rfl

end

theorem Ctx.rowSum_setEntity {hwIp ring : Nat} {e e' : Entity} {f : Entity → Nat} {d : Nat}
    (he : c.entity? hwIp ring = some e) (hd : f e' = f e + d) (hwIp' : Nat) :
    rowSum f ((c.setEntity hwIp ring e').entities hwIp') =
      rowSum f (c.entities hwIp') + if hwIp' = hwIp then d else 0 := by
  unfold Ctx.setEntity
  dsimp only
  rcases Nat.decEq hwIp' hwIp with hip | rfl
  · rw [update_of_ne hip, if_neg hip, add_zero]
  · have hset : rowSum f ((c.entities hwIp').set ring (some e')) + f e =
        rowSum f (c.entities hwIp') + f e' := rowSum_set he
    rw [update_self, if_pos rfl]
    omega

theorem Mgr.Inv.submit (h : s.Inv j) {i hwIp ring : Nat} {e : Entity}
    (hget : s.ctxs[i]? = some c) (halive : c.endedAt = none)
    (he : c.entity? hwIp ring = some e) : (submit j s i c hwIp ring e).Inv j := by
  unfold CtxMgr.submit
  split
  · next hwait =>
    have hctx := h.ctx c (mem_of_getElem? hget)
    obtain ⟨hring, rfl, hinv⟩ := hctx.entity hwIp ring e he
    let added := amdgpuCtxAddFence j s e s.fences.length
    have htime : runTimes s.fences s.now
          (added.1.history.take (added.1.history.length - j.jobs)) =
        runTimes s.fences s.now (e.history.take (e.history.length - j.jobs)) + added.2.1 := by
      rw [show added.1.history = e.history ++ [s.fences.length] from rfl, length_append,
        length_singleton, e.take_concat j, show added.2.1 = amdgpuCtxFenceTime s
          (e.fences[e.sequence &&& (j.jobs - 1)]?).join from rfl, hinv.next_slot]
      unfold runTimes
      rw [map_append, sum_append]
      cases e.numbered (e.history.length + 1 - j.jobs) with
      | none => rfl
      | some n => rw [fenceTime_eq h.finished]; rfl
    have hset := h.setCtx hget (c.setEntity e.hwIp ring added.1)
      ⟨fun hwIp' ring' e' he' => ?_, hctx.ended⟩ (fun ip => if ip = e.hwIp then added.2.1 else 0)
      fun hwIp' => ?_
    · have hspend : update s.timeSpend e.hwIp (s.timeSpend e.hwIp + added.2.1) =
          fun ip => s.timeSpend ip + if ip = e.hwIp then added.2.1 else 0 := by
        funext ip
        rcases Nat.decEq ip e.hwIp with hip | rfl
        · rw [update_of_ne hip, if_neg hip, add_zero]
        · rw [update_self, if_pos rfl]
      rw [← hspend] at hset
      exact hset.newFence
    · rcases Ctx.entity?_setEntity he' with ⟨rfl, rfl, rfl⟩ | hother
      · exact ⟨hring, rfl, hinv.add (fun n hn => hinv.waited hwait hn) s _⟩
      · exact hctx.entity hwIp' ring' e' hother
    · unfold Ctx.settled
      rw [show (c.setEntity e.hwIp ring added.1).endedAt = c.endedAt from rfl, halive]
      exact Ctx.rowSum_setEntity he htime hwIp'
  · exact h

theorem Mgr.Inv.ctxStep (h : s.Inv j) (hget : s.ctxs[i]? = some c) (halive : c.endedAt = none)
    (op : CtxOp) : (ctxStep j s i c op).Inv j := by
  cases op with
  | get =>
    dsimp only [CtxMgr.ctxStep]
    split
    · exact h.setRefs hget halive _ _
    · exact h
  | put =>
    dsimp only [CtxMgr.ctxStep]
    split
    · exact h
    · next hlast =>
      exact h.put hget halive fun hone => Bool.eq_false_iff.mpr fun hhandle => hlast ⟨hhandle, hone⟩
  | free =>
    dsimp only [CtxMgr.ctxStep]
    split
    · exact h.put hget halive fun _ => rfl
    · exact h
  | getEntity hwIp inst ring r =>
    dsimp only [CtxMgr.ctxStep]
    split
    · next hok => exact h.getEntity hget hok
    · exact h
  | addFence hwIp ring =>
    dsimp only [CtxMgr.ctxStep]
    split
    · next he => exact h.submit hget halive he
    · exact h

theorem Mgr.Inv.step (h : s.Inv j) (op : Op) : (step j s op).Inv j := by
  cases op with
  | tick ns => exact h.tick ns
  | schedule i =>
    dsimp only [CtxMgr.step]
    cases hget : s.fences[i]? with
    | none => exact h
    | some f => exact h.schedule hget
  | finish i =>
    dsimp only [CtxMgr.step]
    cases hget : s.fences[i]? with
    | none => exact h
    | some f => exact h.finish hget
  | alloc => exact h.alloc
  | ctx i op =>
    dsimp only [CtxMgr.step]
    split
    · next c hget =>
      split
      · exact h
      · next href =>
        refine h.ctxStep hget ?_ op
        cases hend : c.endedAt with
        | none => rfl
        | some t => exact absurd ((h.ctx c (mem_of_getElem? hget)).ended t hend).2.1 href
    · exact h

theorem Mgr.inv_init : Mgr.init.Inv j where
  finished f hf := by cases hf
  ctx c hc := by cases hc
  spend hwIp := rfl

/-! ## Runs -/

/-- In every run, the usage counts each fence once and the queries answer by its number. -/
theorem ctxMgr_right (j : SchedJobs) (ops : List Op) :
    UsageRight j (run (step j) Mgr.init ops) ∧ AnswersRight j (run (step j) Mgr.init ops) := by
  have h : (run (step j) Mgr.init ops).Inv j := run_inv (fun _ op hs => hs.step op) Mgr.inv_init ops
  exact ⟨h.usage, h.answers⟩

def runningOps : List Op :=
  [.alloc, .ctx 0 (.getEntity 0 0 0 none), .ctx 0 (.addFence 0 0), .schedule 0, .tick 5,
    .ctx 0 .free, .tick 4, .finish 0]

def heldOps : List Op :=
  [.alloc, .ctx 0 (.getEntity 0 0 0 none), .ctx 0 (.addFence 0 0), .schedule 0, .tick 5,
    .finish 0, .ctx 0 .get, .ctx 0 .free]

def rounds : Nat → List Op
  | 0 => [.alloc, .ctx 0 (.getEntity 0 0 0 none)]
  | n + 1 => rounds n ++ [.ctx 0 (.addFence 0 0), .finish n]

/-- The state behind `rounds n`. -/
structure Rounds (n : Nat) (s : Mgr) (c : Ctx) (e : Entity) : Prop where
  ctx : s.ctxs[0]? = some c
  refcount : c.refcount ≠ 0
  entity : c.entity? 0 0 = some e
  history : e.history = range n
  fences : s.fences = replicate n ⟨none, some 0⟩
  now : s.now = 0

theorem Rounds.next {n : Nat} {e : Entity} (h : Rounds n s c e) (hinv : s.Inv j) :
    Rounds (n + 1) (run (step j) s [.ctx 0 (.addFence 0 0), .finish n])
      (c.setEntity 0 0 (amdgpuCtxAddFence j s e n).1) (amdgpuCtxAddFence j s e n).1 := by
  have hentity := (hinv.ctx c (mem_of_getElem? h.ctx)).entity 0 0 e h.entity
  have hwait : amdgpuCtxWaitPrevFence j s e := by
    unfold amdgpuCtxWaitPrevFence
    rw [hentity.2.2.next_slot]
    cases hother : e.numbered (e.history.length + 1 - j.jobs) with
    | none => rfl
    | some m =>
      unfold Entity.numbered at hother
      split at hother
      · cases hother
      · have hm := mem_of_getElem? hother
        rw [h.history, mem_range] at hm
        simp [signalled, h.fences, hm]
  have hlen : s.fences.length = n := by rw [h.fences, length_replicate]
  have hget : (s.fences ++ [(⟨none, none⟩ : SFence)])[n]? = some ⟨none, none⟩ := by
    rw [getElem?_append_right hlen.le, hlen, Nat.sub_self]
    rfl
  have hsubmit : step j s (.ctx 0 (.addFence 0 0)) = submit j s 0 c 0 0 e := by
    simp only [step, h.ctx, if_neg h.refcount, ctxStep, h.entity]
  have hzero := of_getElem?_eq_some h.ctx
  have hring : 0 < (c.entities 0).length := by
    by_contra hnil
    have hentity := h.entity
    rw [Ctx.entity?, getElem?_eq_none (by omega)] at hentity
    cases hentity
  rw [run_cons, hsubmit, run_cons, run_nil]
  simp only [submit, hwait, if_true, step, hget, elim_some, drmSchedFenceFinished, hlen]
  constructor
  · exact getElem?_set_self hzero
  · exact h.refcount
  · simp only [Ctx.entity?, Ctx.setEntity, update_self, getElem?_set_self hring]
    rfl
  · rw [range_succ, ← h.history]
    rfl
  · rw [set_append_right _ _ hlen.le, hlen, Nat.sub_self, h.fences, h.now,
      replicate_succ']
    rfl
  · exact h.now

theorem exists_rounds (j : SchedJobs) (n : Nat) :
    ∃ c e, Rounds n (run (step j) Mgr.init (rounds n)) c e := by
  induction n with
  | zero => exact ⟨_, Entity.init j 0, rfl, Nat.one_ne_zero, rfl, rfl, rfl, rfl⟩
  | succ n ih =>
    obtain ⟨c, e, h⟩ := ih
    rw [rounds, run_append]
    exact ⟨_, _, h.next (run_inv (fun _ op hs => hs.step op) Mgr.inv_init _)⟩

theorem not_answersWhole_of_wrap (j : SchedJobs) {n : Nat} (hn : n + 1 = 2 ^ 64) :
    ¬ AnswersWhole j (run (step j) Mgr.init (rounds n)) := by
  intro h
  obtain ⟨c, e, hr⟩ := exists_rounds j n
  have hinv : (run (step j) Mgr.init (rounds n)).Inv j :=
    run_inv (fun _ op hs => hs.step op) Mgr.inv_init _
  have hc := mem_of_getElem? hr.ctx
  have hlen : e.history.length = n := by rw [hr.history, length_range]
  have hsequence : e.sequence = 0 := by
    rw [((hinv.ctx c hc).entity 0 0 e hr.entity).2.2.sequence, hlen, hn, Nat.mod_self]
  have hanswer := h c hc 0 0 e hr.entity 1 (by omega)
  unfold FenceAnswer amdgpuCtxGetFence at hanswer
  rw [if_neg (by decide), hsequence] at hanswer
  have := ((hanswer.1 .einval).mp rfl).2
  omega

theorem ctxMgr_not_whole :
    ¬ UsageWhole (run (step .default) Mgr.init runningOps) ∧
      ¬ UsageWhole (run (step .default) Mgr.init heldOps) ∧
      ¬ AnswersWhole .default (run (step .default) Mgr.init (rounds (2 ^ 64 - 1))) :=
  ⟨fun h => absurd (h 0 (by decide)) (by decide), fun h => absurd (h 0 (by decide)) (by decide),
    not_answersWhole_of_wrap .default (Nat.sub_add_cancel (by decide))⟩

end Amdkfd.CtxMgr
