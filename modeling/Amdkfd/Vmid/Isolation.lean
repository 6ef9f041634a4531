import Amdkfd.Vmid.Model

/-!
# Jobs that share a VMID

Two jobs of different VMs or page directories can hold one VMID at the same time only on one ring,
and then the ring flushes the VMID between them. A job that does not flush runs on a VMID whose
last flush was its own VM's.
-/

namespace Amdkfd.Vmid

open Lib Function List Bool

/-! ## What is to be shown -/

def Differ (j k : Job) : Prop := j.req.vm ≠ k.req.vm ∨ j.req.pd ≠ k.req.pd
  deriving Decidable

/-- The flush loaded the page directory of the job, after the updates that the job saw. -/
def Job.ServedBy (j : Job) (f : Flush) : Prop :=
  f.vm = j.req.vm ∧ f.pd = j.req.pd ∧ j.updates ≤ f.seq

/-- The VMIDs keep the jobs apart. -/
structure Isolated (d : Device) (s : State) : Prop where
  /-- Unfinished jobs of one VMID are of one VM and page directory, or they are on one ring, and
  the later one or a job of its VM and page directory before it flushes on that ring. -/
  shared : ∀ m n, m < n → n < s.jobs → (s.job m).vmid = (s.job n).vmid →
    s.finished m = false → s.finished n = false → Differ (s.job m) (s.job n) →
    (s.job m).req.ring = (s.job n).req.ring ∧ d.concurrentFlush = false ∧
      ∃ k, m < k ∧ k ≤ n ∧ (s.job k).vmid = (s.job n).vmid ∧
        (s.job k).req.ring = (s.job n).req.ring ∧ ¬ Differ (s.job k) (s.job n) ∧
        (s.job k).vmNeedsFlush = true
  /-- When a job is given a VMID without a flush, the last flush of the VMID serves it, and was on
  its ring or is signalled. -/
  grabbed : ∀ n < s.jobs, (s.job n).vmNeedsFlush = false →
    ∃ f, (s.job n).flushBefore = some f ∧ (s.job n).ServedBy f ∧
      (f.ring = (s.job n).req.ring ∨ (s.job n).flushSignaled = true)
  /-- When a job without a flush is put on its ring, the last flush of the VMID serves it. -/
  ran : ∀ n < s.jobs, s.scheduled n = true → (s.job n).vmNeedsFlush = false →
    ∃ f, (s.job n).ranOn = some f ∧ (s.job n).ServedBy f

/-! ## The invariant -/

structure IdOk (d : Device) (s : State) (v pd : Nat) : Prop where
  /-- A VM that waits for the reserved VMID leaves no page directory. -/
  pdGpuAddr : (s.ids v).pdGpuAddr = pd ∨ (s.ids v).pdGpuAddr = 0
  /-- A job that is not on its ring yet is of the owner. -/
  granted : ∀ n < s.jobs, (s.job n).vmid = v → s.scheduled n = false →
    (s.job n).req.vm = (s.ids v).owner ∧ (s.job n).req.pd = pd
  /-- Unfinished jobs of others are on one ring with all that are unfinished, and the flushes since
  are behind them. -/
  others : ∀ m < s.jobs, (s.job m).vmid = v → s.finished m = false →
    (s.job m).req.vm ≠ (s.ids v).owner ∨ (s.job m).req.pd ≠ pd →
    d.concurrentFlush = false ∧
      (∀ f, (s.ids v).lastFlush = some f → f.ring = (s.job m).req.ring ∧
        ∀ p, (s.job m).progress = .running p → p < f.pos) ∧
      (∀ n < s.jobs, (s.job n).vmid = v → s.finished n = false →
        (s.job n).req.ring = (s.job m).req.ring) ∧
      ∃ k, m < k ∧ k < s.jobs ∧ (s.job k).vmid = v ∧
        (s.job k).req.ring = (s.job m).req.ring ∧ (s.job k).req.vm = (s.ids v).owner ∧
        (s.job k).req.pd = pd ∧ (s.job k).vmNeedsFlush = true
  lastFlush : ∀ f, (s.ids v).lastFlush = some f →
    (s.ids v).lastEmitted = some f ∧ f.vm = (s.ids v).owner ∧ f.pd = pd ∧
      (s.ids v).flushedUpdates ≤ f.seq
  flushedUpdates : (s.ids v).flushedUpdates ≤ s.tlbSeq (s.ids v).owner
  /-- The last flush serves a job that is not on its ring yet. -/
  lastEmitted : ∀ n < s.jobs, (s.job n).vmid = v → s.scheduled n = false →
    (s.job n).vmNeedsFlush = false →
    ∃ f, (s.ids v).lastEmitted = some f ∧ (s.job n).ServedBy f
  /-- An unfinished job is in `active`, or a later one of its entity on its ring. -/
  active : ∀ n < s.jobs, (s.job n).vmid = v → s.finished n = false →
    ∃ e ∈ (s.ids v).active, n ≤ e ∧
      (s.job e).req.entity = (s.job n).req.entity ∧ (s.job e).req.ring = (s.job n).req.ring
  active_lt : ∀ e ∈ (s.ids v).active, e < s.jobs

structure Inv (d : Device) (s : State) : Prop where
  ids : ∀ v, ∃ pd, IdOk d s v pd
  /-- A ring runs its jobs in order. -/
  order : ∀ m n, m < n → n < s.jobs → (s.job m).req.ring = (s.job n).req.ring →
    ∃ p, (s.job m).progress = .running p ∧ ∀ q, (s.job n).progress = .running q → p < q
  emitted : ∀ n < s.jobs, ∀ p, (s.job n).progress = .running p → p ≤ s.emitted (s.job n).req.ring
  completed : ∀ ring, s.completed ring ≤ s.emitted ring
  updates : ∀ n < s.jobs, (s.job n).updates ≤ s.tlbSeq (s.job n).req.vm
  isolated : Isolated d s

/-! ## Searches -/

/-- A step that gives no VMID: it drops finished jobs from `active` and page directories. -/
structure Quiet (s s' : State) : Prop where
  job : s'.job = s.job
  jobs : s'.jobs = s.jobs
  emitted : s'.emitted = s.emitted
  completed : s'.completed = s.completed
  tlbSeq : s'.tlbSeq = s.tlbSeq
  lastFlush : ∀ v, (s'.ids v).lastFlush = (s.ids v).lastFlush
  owner : ∀ v, (s'.ids v).owner = (s.ids v).owner
  flushedUpdates : ∀ v, (s'.ids v).flushedUpdates = (s.ids v).flushedUpdates
  lastEmitted : ∀ v, (s'.ids v).lastEmitted = (s.ids v).lastEmitted
  pdGpuAddr : ∀ v, (s'.ids v).pdGpuAddr = (s.ids v).pdGpuAddr ∨ (s'.ids v).pdGpuAddr = 0
  active : ∀ v, ∀ n ∈ (s.ids v).active, s.finished n = false → n ∈ (s'.ids v).active
  active_subset : ∀ v, ∀ n ∈ (s'.ids v).active, n ∈ (s.ids v).active

theorem Quiet.refl (s : State) : Quiet s s :=
  ⟨rfl, rfl, rfl, rfl, rfl, fun _ => rfl, fun _ => rfl, fun _ => rfl, fun _ => rfl,
    fun _ => .inl rfl, fun _ _ hn _ => hn, fun _ _ hn => hn⟩

theorem Quiet.finished {s s' : State} (h : Quiet s s') (n : Nat) :
    s'.finished n = s.finished n := by
  rw [State.finished, State.finished, h.job, h.completed]

theorem Quiet.scheduled {s s' : State} (h : Quiet s s') (n : Nat) :
    s'.scheduled n = s.scheduled n := by
  rw [State.scheduled, State.scheduled, h.job]

theorem Quiet.trans {s s' s'' : State} (h : Quiet s s') (h' : Quiet s' s'') : Quiet s s'' where
  job := h'.job.trans h.job
  jobs := h'.jobs.trans h.jobs
  emitted := h'.emitted.trans h.emitted
  completed := h'.completed.trans h.completed
  tlbSeq := h'.tlbSeq.trans h.tlbSeq
  lastFlush v := (h'.lastFlush v).trans (h.lastFlush v)
  owner v := (h'.owner v).trans (h.owner v)
  flushedUpdates v := (h'.flushedUpdates v).trans (h.flushedUpdates v)
  lastEmitted v := (h'.lastEmitted v).trans (h.lastEmitted v)
  pdGpuAddr v := by
    rcases h'.pdGpuAddr v with heq | hzero
    · rw [heq]
      exact h.pdGpuAddr v
    · exact .inr hzero
  active v n hn hun := h'.active v n (h.active v n hn hun) (by rw [h.finished, hun])
  active_subset v n hn := h.active_subset v n (h'.active_subset v n hn)

@[simp] theorem State.setId_self (s : State) (v : Nat) (id : Id) : (s.setId v id).ids v = id :=
  update_self v _ _

theorem State.setId_ne (s : State) {v w : Nat} (h : w ≠ v) (id : Id) :
    (s.setId v id).ids w = s.ids w :=
  update_of_ne h _ _

theorem Quiet.setId (s : State) {v : Nat} {pd : Nat} {active : List Nat}
    (hpd : pd = (s.ids v).pdGpuAddr ∨ pd = 0)
    (hactive : ∀ n ∈ (s.ids v).active, s.finished n = false → n ∈ active)
    (hsubset : ∀ n ∈ active, n ∈ (s.ids v).active) :
    Quiet s (s.setId v { s.ids v with pdGpuAddr := pd, active := active }) := by
  refine ⟨rfl, rfl, rfl, rfl, rfl, fun w => ?_, fun w => ?_, fun w => ?_, fun w => ?_,
    fun w => ?_, fun w => ?_, fun w => ?_⟩ <;> by_cases hw : w = v
  all_goals first
    | rw [State.setId_ne s hw]
    | rw [hw, State.setId_self]
  · exact hpd
  · exact .inl rfl
  · exact hactive
  · exact fun n hn _ => hn
  · exact hsubset
  · exact fun n hn => hn

variable {s : State} {n : Nat} {d : Device}

theorem mem_peekFence (ring : Option Nat) {ns : List Nat} (hn : n ∈ ns)
    (hun : s.finished n = false) : n ∈ (peekFence s ring ns).2 := by
  induction ns with
  | nil => exact hn
  | cons m ns ih =>
    rw [peekFence]
    by_cases hfin : s.finished m = true
    · rw [if_pos hfin]
      rcases mem_cons.1 hn with rfl | hn
      · rw [hun] at hfin
        cases hfin
      · exact ih hn
    · rw [if_neg hfin]
      split
      · split
        · rcases mem_cons.1 hn with rfl | hn
          · exact mem_cons_self
          · exact mem_cons_of_mem _ (ih hn)
        · exact hn
      · exact hn

theorem peekFence_none {ring : Option Nat} {ns : List Nat} (h : (peekFence s ring ns).1 = none)
    (hn : n ∈ ns) (hun : s.finished n = false) :
    ring = some (s.job n).req.ring ∧ s.scheduled n = true := by
  induction ns with
  | nil => cases hn
  | cons m ns ih =>
    rw [peekFence] at h
    by_cases hfin : s.finished m = true
    · rw [if_pos hfin] at h
      rcases mem_cons.1 hn with rfl | hn
      · rw [hun] at hfin
        cases hfin
      · exact ih h hn
    · rw [if_neg hfin] at h
      by_cases hring : ring = some (s.job m).req.ring
      · rw [if_pos hring] at h
        by_cases hsched : s.scheduled m = true
        · rw [if_pos hsched] at h
          rcases mem_cons.1 hn with rfl | hn
          · exact ⟨hring, hsched⟩
          · exact ih h hn
        · rw [if_neg hsched] at h
          cases h
      · rw [if_neg hring] at h
        cases h

/-- The users of the VMID are finished, or on the ring where they need not be. -/
def State.Free (d : Device) (s : State) (ring v : Nat) : Prop :=
  ∀ n ∈ (s.ids v).active, s.finished n = false →
    d.concurrentFlush = false ∧ (s.job n).req.ring = ring ∧ s.scheduled n = true

theorem free_of_peekFence {s s' : State} {ring v : Nat} (hquiet : Quiet s s')
    (h : (peekFence s (d.peekRing ring) (s.ids v).active).1 = none)
    (hactive : ∀ n ∈ (s'.ids v).active, n ∈ (s.ids v).active) : s'.Free d ring v := by
  intro n hn hun
  rw [hquiet.finished] at hun
  obtain ⟨hring, hsched⟩ := peekFence_none h (hactive n hn) hun
  rw [hquiet.scheduled, hquiet.job]
  unfold Device.peekRing at hring
  split at hring
  · cases hring
  · cases hring
    exact ⟨by simpa using ‹¬ d.concurrentFlush = true›, rfl, hsched⟩

theorem peekFence_subset (ring : Option Nat) (ns : List Nat) :
    ∀ n ∈ (peekFence s ring ns).2, n ∈ ns := by
  induction ns with
  | nil => exact fun n hn => hn
  | cons m ns ih =>
    intro n hn
    rw [peekFence] at hn
    split at hn
    · exact mem_cons_of_mem _ (ih n hn)
    · split at hn
      · split at hn
        · rcases mem_cons.1 hn with rfl | hn
          · exact mem_cons_self
          · exact mem_cons_of_mem _ (ih n hn)
        · exact hn
      · exact hn

theorem Quiet.peek (s : State) (v : Nat) (ring : Option Nat) :
    Quiet s (s.setId v { s.ids v with active := (peekFence s ring (s.ids v).active).2 }) :=
  Quiet.setId s (.inl rfl) (fun _ hn hun => mem_peekFence ring hn hun) (peekFence_subset _ _)

theorem free_setId {ring v : Nat} {id : Id} (hquiet : Quiet s (s.setId v id))
    (hid : id.active = (peekFence s (d.peekRing ring) (s.ids v).active).2)
    (h : (peekFence s (d.peekRing ring) (s.ids v).active).1 = none) :
    (s.setId v id).Free d ring v := by
  refine free_of_peekFence hquiet h fun n hn => ?_
  rw [State.setId_self, hid] at hn
  exact peekFence_subset _ _ n hn

theorem idleLoop_spec (d : Device) (ring : Nat) (s : State) (vs : List Nat) :
    Quiet s (idleLoop (d.peekRing ring) s vs).1 ∧
      ∀ v, (idleLoop (d.peekRing ring) s vs).2.1 = some v →
        (idleLoop (d.peekRing ring) s vs).1.Free d ring v := by
  induction vs generalizing s with
  | nil => exact ⟨.refl s, nofun⟩
  | cons w vs ih =>
    have hpeek := Quiet.peek s w (d.peekRing ring)
    rw [idleLoop]
    cases hnone : (peekFence s (d.peekRing ring) (s.ids w).active).1 with
    | none =>
      refine ⟨hpeek, fun v hv => ?_⟩
      cases hv
      exact free_setId hpeek rfl hnone
    | some f =>
      obtain ⟨hq, hfree⟩ := ih
        (s.setId w { s.ids w with active := (peekFence s (d.peekRing ring) (s.ids w).active).2 })
      exact ⟨hpeek.trans hq, hfree⟩

theorem vmidGrabIdle_spec (d : Device) (s : State) (ring : Nat) (alloc : Alloc) :
    Quiet s (vmidGrabIdle d s ring alloc).1 ∧
      ∀ v, (vmidGrabIdle d s ring alloc).2 = .id v →
        (vmidGrabIdle d s ring alloc).1.Free d ring v := by
  obtain ⟨hquiet, hfree⟩ := idleLoop_spec d ring s s.idsLru
  rw [vmidGrabIdle]
  split
  · exact ⟨.refl s, nofun⟩
  split
  case isFalse => exact ⟨.refl s, nofun⟩
  split
  case h_1 s' v fs heq =>
    rw [heq] at hquiet hfree
    refine ⟨hquiet, fun w hw => ?_⟩
    cases hw
    exact hfree v rfl
  case h_2 s' fs heq =>
    rw [heq] at hquiet
    split
    · refine ⟨hquiet.trans ?_, nofun⟩
      exact ⟨rfl, rfl, rfl, rfl, rfl, fun _ => rfl, fun _ => rfl, fun _ => rfl, fun _ => rfl,
        fun _ => .inl rfl, fun _ _ hn _ => hn, fun _ _ hn => hn⟩
    · exact ⟨hquiet, nofun⟩

/-- The VMID can be given to the job: it is free and will be flushed, or it is of the VM and the
page directory. -/
def GrantOk (d : Device) (s : State) (req : Request) (v : Nat) (needsFlush : Bool) : Prop :=
  needsFlush = true ∧ s.Free d req.ring v ∨
    (s.ids v).owner = req.vm ∧ (s.ids v).pdGpuAddr = req.pd ∧
      (d.concurrentFlush = true ∨ s.flushOrdered (s.ids v) req.ring = true) ∧
      (needsFlush = false →
        s.tlbSeq req.vm ≤ (s.ids v).flushedUpdates ∧ s.flushOrdered (s.ids v) req.ring = true)

theorem vmidGrabReserved_spec (d : Device) (s : State) (req : Request) (v : Nat) :
    Quiet s (vmidGrabReserved d s req v).1 ∧
      ∀ needsFlush, (vmidGrabReserved d s req v).2 = .ok needsFlush →
        GrantOk d (vmidGrabReserved d s req v).1 req v needsFlush := by
  rw [vmidGrabReserved]
  split
  case isTrue hfits =>
    refine ⟨.refl s, fun needsFlush heq => .inr ?_⟩
    simp only [State.reservedFits, Id.compatible, and_eq_true, decide_eq_true_eq,
      not_eq_true', decide_eq_false_iff_not, not_lt] at hfits
    obtain ⟨⟨⟨howner, hpd, -⟩, hseq⟩, hordered⟩ := hfits
    exact ⟨howner, hpd, .inr hordered, fun _ => ⟨hseq, hordered⟩⟩
  case isFalse =>
    have hquiet : Quiet s (s.setId v
        { s.ids v with
          pdGpuAddr := 0
          active := (peekFence s (d.peekRing req.ring) (s.ids v).active).2 }) :=
      Quiet.setId s (.inr rfl) (fun _ hn hun => mem_peekFence _ hn hun) (peekFence_subset _ _)
    simp only
    split
    case h_1 => exact ⟨hquiet, nofun⟩
    case h_2 hnone =>
      refine ⟨hquiet, fun needsFlush heq => .inl ?_⟩
      cases heq
      exact ⟨rfl, free_setId hquiet rfl hnone⟩

theorem vmidGrabUsed_spec {req : Request} {v : Nat} (h : vmidGrabUsed d s req = some v) :
    GrantOk d s req v (s.usedNeedsFlush (s.ids v) req) := by
  have husable := find?_some h
  simp only [State.usable, Id.compatible, and_eq_true, decide_eq_true_eq, not_eq_true',
    and_eq_false_iff, not_eq_false'] at husable
  obtain ⟨⟨howner, hpd, -⟩, hflush⟩ := husable
  have hclear (hf : s.usedNeedsFlush (s.ids v) req = false) :
      s.tlbSeq req.vm ≤ (s.ids v).flushedUpdates ∧
        s.flushOrdered (s.ids v) req.ring = true := by
    simp only [State.usedNeedsFlush, or_eq_false_iff, not_eq_false',
      decide_eq_false_iff_not, not_lt] at hf
    exact ⟨hf.2, hf.1.2⟩
  refine .inr ⟨howner, hpd, ?_, hclear⟩
  rcases hflush with hf | hconc
  · exact .inr (hclear hf).2
  · exact .inl hconc

theorem usedOrIdle_spec {req : Request} {idle : Nat} (hfree : s.Free d req.ring idle) :
    GrantOk d s req (s.usedOrIdle d req idle).1 (s.usedOrIdle d req idle).2 := by
  rw [State.usedOrIdle]
  split
  · exact vmidGrabUsed_spec ‹_›
  · exact .inl ⟨rfl, hfree⟩

theorem Quiet.idsLru (s : State) (lru : List Nat) : Quiet s { s with idsLru := lru } :=
  ⟨rfl, rfl, rfl, rfl, rfl, fun _ => rfl, fun _ => rfl, fun _ => rfl, fun _ => rfl,
    fun _ => .inl rfl, fun _ _ hn _ => hn, fun _ _ hn => hn⟩

theorem vmidGrab_cases (d : Device) (s : State) (req : Request) (alloc : Alloc) :
    Quiet s (vmidGrab d s req alloc).1 ∨
      ∃ s1 v needsFlush active, Quiet s s1 ∧ GrantOk d s1 req v needsFlush ∧
        syncFence s1 req.entity s1.jobs (s1.ids v).active alloc.entry = .ok active ∧
        Quiet (s1.grant req v needsFlush active) (vmidGrab d s req alloc).1 := by
  have huse (s1 : State) (v : Nat) (needsFlush : Bool) (hquiet : Quiet s s1)
      (hok : GrantOk d s1 req v needsFlush) :
      Quiet s (s1.use req v needsFlush alloc).1 ∧
          (∀ w, (s1.use req v needsFlush alloc).2 ≠ .id w) ∨
        ∃ active, syncFence s1 req.entity s1.jobs (s1.ids v).active alloc.entry = .ok active ∧
          s1.use req v needsFlush alloc = (s1.grant req v needsFlush active, .id v) := by
    rw [State.use]
    split
    · exact .inl ⟨hquiet, nofun⟩
    · exact .inr ⟨_, ‹_›, rfl⟩
  obtain ⟨hidle, hfree⟩ := vmidGrabIdle_spec d s req.ring alloc
  rw [vmidGrab]
  split
  case h_1 s1 e heq =>
    rw [heq] at hidle
    exact .inl hidle
  case h_2 s1 fs heq =>
    rw [heq] at hidle
    exact .inl hidle
  case h_3 s1 idle heq =>
    rw [heq] at hidle hfree
    split
    · split
      · exact .inl hidle
      next v hres =>
        obtain ⟨hquiet, hok⟩ := vmidGrabReserved_spec d s1 req v
        split
        case h_1 s2 f heq2 =>
          rw [heq2] at hquiet
          exact .inl (hidle.trans hquiet)
        case h_2 s2 needsFlush heq2 =>
          rw [heq2] at hquiet hok
          rcases huse s2 v needsFlush (hidle.trans hquiet) (hok needsFlush rfl) with
            ⟨hq, -⟩ | ⟨active, hsync, heq3⟩
          · exact .inl hq
          · rw [heq3]
            exact .inr ⟨s2, v, needsFlush, active, hidle.trans hquiet, hok needsFlush rfl, hsync,
              .refl _⟩
    · have hok := usedOrIdle_spec (hfree idle rfl)
      rcases huse s1 _ _ hidle hok with ⟨hq, hno⟩ | ⟨active, hsync, heq3⟩
      · split
        case h_1 s2 w heq2 => exact absurd (by rw [heq2]) (hno w)
        case h_2 s2 r hne heq2 =>
          rw [heq2] at hq
          exact .inl hq
      · rw [heq3]
        exact .inr ⟨s1, _, _, active, hidle, hok, hsync, Quiet.idsLru _ _⟩

/-! ## The steps keep the invariant -/

theorem State.finished_running {n p : Nat} (h : (s.job n).progress = .running p) :
    s.finished n = decide (p ≤ s.completed (s.job n).req.ring) := by
  rw [State.finished, h]

theorem State.unfinished_of_unscheduled (h : s.scheduled n = false) : s.finished n = false := by
  have hgranted : (s.job n).progress = .granted := by
    simpa only [State.scheduled, ne_eq, decide_not, not_eq_false', decide_eq_true_eq] using h
  rw [State.finished, hgranted]

theorem State.running_of_scheduled (h : s.scheduled n = true) :
    ∃ p, (s.job n).progress = .running p := by
  cases hp : (s.job n).progress with
  | granted =>
    rw [State.scheduled, hp] at h
    cases h
  | running p => exact ⟨p, rfl⟩

theorem State.scheduled_of_running {n p : Nat} (h : (s.job n).progress = .running p) :
    s.scheduled n = true := by
  rw [State.scheduled, h]
  rfl

section Invariant

variable {d : Device} {s : State}

theorem Inv.unfinished_of_le (h : Inv d s) {n e : Nat} (hle : n ≤ e) (he : e < s.jobs)
    (hring : (s.job e).req.ring = (s.job n).req.ring) (hun : s.finished n = false) :
    s.finished e = false := by
  rcases eq_or_lt_of_le hle with rfl | hlt
  · exact hun
  obtain ⟨p, hp, hbefore⟩ := h.order n e hlt he hring.symm
  rw [State.finished_running hp, decide_eq_false_iff_not] at hun
  cases hq : (s.job e).progress with
  | granted => rw [State.finished, hq]
  | running q =>
    have hpq := hbefore q hq
    rw [State.finished_running hq, decide_eq_false_iff_not, hring]
    omega

theorem Inv.scheduled_of_le (h : Inv d s) {n e : Nat} (hle : n ≤ e) (he : e < s.jobs)
    (hring : (s.job e).req.ring = (s.job n).req.ring) (hsched : s.scheduled e = true) :
    s.scheduled n = true := by
  rcases eq_or_lt_of_le hle with rfl | hlt
  · exact hsched
  obtain ⟨p, hp, -⟩ := h.order n e hlt he hring.symm
  exact State.scheduled_of_running hp

theorem IdOk.quiet {s' : State} {v pd : Nat} (hinv : Inv d s) (h : IdOk d s v pd)
    (hq : Quiet s s') : IdOk d s' v pd where
  pdGpuAddr := by
    rcases hq.pdGpuAddr v with heq | hzero
    · rw [heq]
      exact h.pdGpuAddr
    · exact .inr hzero
  granted := by simpa only [hq.jobs, hq.job, hq.scheduled, hq.owner] using h.granted
  others := by
    simpa only [hq.jobs, hq.job, hq.finished, hq.owner, hq.lastFlush] using h.others
  lastFlush := by
    simpa only [hq.lastFlush, hq.lastEmitted, hq.owner, hq.flushedUpdates] using h.lastFlush
  flushedUpdates := by
    simpa only [hq.flushedUpdates, hq.owner, hq.tlbSeq] using h.flushedUpdates
  lastEmitted := by
    simpa only [hq.jobs, hq.job, hq.scheduled, hq.lastEmitted] using h.lastEmitted
  active := by
    intro n hn hv hun
    rw [hq.jobs] at hn
    rw [hq.job] at hv ⊢
    rw [hq.finished] at hun
    obtain ⟨e, he, hle, hent, hring⟩ := h.active n hn hv hun
    have hfin := hinv.unfinished_of_le hle (h.active_lt e he) hring hun
    exact ⟨e, hq.active v e he hfin, hle, hent, hring⟩
  active_lt := fun e he => hq.jobs ▸ h.active_lt e (hq.active_subset v e he)

theorem Inv.quiet {s' : State} (h : Inv d s) (hq : Quiet s s') : Inv d s' where
  ids v := by
    obtain ⟨pd, hpd⟩ := h.ids v
    exact ⟨pd, hpd.quiet h hq⟩
  order := by simpa only [hq.jobs, hq.job] using h.order
  emitted := by simpa only [hq.jobs, hq.job, hq.emitted] using h.emitted
  completed := by simpa only [hq.completed, hq.emitted] using h.completed
  updates := by simpa only [hq.jobs, hq.job, hq.tlbSeq] using h.updates
  isolated :=
    { shared := by simpa only [hq.jobs, hq.job, hq.finished] using h.isolated.shared
      grabbed := by simpa only [hq.jobs, hq.job] using h.isolated.grabbed
      ran := by simpa only [hq.jobs, hq.job, hq.scheduled] using h.isolated.ran }

/-! ### Giving a VMID -/

theorem Inv.unfinished_of_free (h : Inv d s) {v pd : Nat} (hid : IdOk d s v pd) {ring : Nat}
    (hfree : s.Free d ring v) {n : Nat} (hn : n < s.jobs) (hv : (s.job n).vmid = v)
    (hun : s.finished n = false) :
    d.concurrentFlush = false ∧ (s.job n).req.ring = ring ∧ s.scheduled n = true := by
  obtain ⟨e, he, hle, -, hring⟩ := hid.active n hn hv hun
  have he' := hid.active_lt e he
  obtain ⟨hconc, hering, hsched⟩ := hfree e he (h.unfinished_of_le hle he' hring hun)
  exact ⟨hconc, hring.symm.trans hering, h.scheduled_of_le hle he' hring hsched⟩

theorem IdOk.pd_eq {v pd : Nat} (h : IdOk d s v pd) {req : Request} (hreq : req.pd ≠ 0)
    (heq : (s.ids v).pdGpuAddr = req.pd) : pd = req.pd := by
  rcases h.pdGpuAddr with hpd | hzero
  · exact hpd.symm.trans heq
  · exact absurd (heq.symm.trans hzero) hreq

theorem Inv.ring_of_grant (h : Inv d s) {v pd : Nat} (hid : IdOk d s v pd) {req : Request}
    (hreq : req.pd ≠ 0) {needsFlush : Bool} (hok : GrantOk d s req v needsFlush) {m : Nat}
    (hm : m < s.jobs) (hv : (s.job m).vmid = v) (hun : s.finished m = false)
    (hne : (s.job m).req.vm ≠ req.vm ∨ (s.job m).req.pd ≠ req.pd) :
    d.concurrentFlush = false ∧ (s.job m).req.ring = req.ring := by
  rcases hok with ⟨-, hfree⟩ | ⟨howner, hpd, hordered, -⟩
  · obtain ⟨hconc, hring, -⟩ := h.unfinished_of_free hid hfree hm hv hun
    exact ⟨hconc, hring⟩
  have hpd' := hid.pd_eq hreq hpd
  rw [← howner, ← hpd'] at hne
  obtain ⟨hconc, hflush, -, -⟩ := hid.others m hm hv hun hne
  refine ⟨hconc, ?_⟩
  rcases hordered with hon | hordered
  · rw [hconc] at hon
    cases hon
  -- The last flush is behind the job on the ring of the job.
  unfold State.flushOrdered at hordered
  split at hordered
  · cases hordered
  next f hf =>
    obtain ⟨hring, hbefore⟩ := hflush f hf
    rcases or_eq_true_iff.1 hordered with heq | hsig
    · exact hring.symm.trans (of_decide_eq_true heq)
    · have hsched : s.scheduled m = true := by
        by_contra hnot
        obtain ⟨hvm, hpdm⟩ := hid.granted m hm hv (by simpa using hnot)
        rcases hne with hne | hne
        · exact hne hvm
        · exact hne hpdm
      obtain ⟨p, hp⟩ := State.running_of_scheduled hsched
      have hpf := hbefore p hp
      rw [State.finished_running hp, decide_eq_false_iff_not, ← hring] at hun
      have hle : f.pos ≤ s.completed f.ring := of_decide_eq_true hsig
      omega

theorem syncFence_spec {entity n : Nat} {active active' : List Nat} {alloc : Bool}
    (hlt : ∀ e ∈ active, e < n) (h : syncFence s entity n active alloc = .ok active') :
    n ∈ active' ∧ (∀ e ∈ active', e ∈ active ∨ e = n) ∧
      ∀ e ∈ active, e ∈ active' ∨ (s.job e).req.entity = entity := by
  have hlater : ∀ {active active' : List Nat}, (∀ e ∈ active, e < n) →
      addLater s entity n active = some active' →
      n ∈ active' ∧ (∀ e ∈ active', e ∈ active ∨ e = n) ∧
        ∀ e ∈ active, e ∈ active' ∨ (s.job e).req.entity = entity := by
    intro active
    induction active with
    | nil => exact nofun
    | cons a as ih =>
      intro active' hlt h
      rw [addLater] at h
      split at h
      case isTrue hent =>
        rw [if_neg (lt_asymm (hlt a mem_cons_self))] at h
        cases h
        refine ⟨mem_cons_self, fun e he => ?_, fun e he => ?_⟩
        · rcases mem_cons.1 he with rfl | he
          · exact .inr rfl
          · exact .inl (mem_cons_of_mem _ he)
        · rcases mem_cons.1 he with rfl | he
          · exact .inr hent
          · exact .inl (mem_cons_of_mem _ he)
      case isFalse =>
        obtain ⟨as', has, rfl⟩ := Option.map_eq_some_iff.1 h
        obtain ⟨hn, hsub, hkeep⟩ := ih (fun e he => hlt e (mem_cons_of_mem _ he)) has
        refine ⟨mem_cons_of_mem _ hn, fun e he => ?_, fun e he => ?_⟩
        · rcases mem_cons.1 he with rfl | he
          · exact .inl mem_cons_self
          · exact (hsub e he).imp_left (mem_cons_of_mem _)
        · rcases mem_cons.1 he with rfl | he
          · exact .inl mem_cons_self
          · exact (hkeep e he).imp_left (mem_cons_of_mem _)
  rw [syncFence] at h
  split at h
  case h_1 hadd =>
    cases h
    exact hlater hlt hadd
  case h_2 =>
    split at h
    · cases h
      refine ⟨mem_cons_self, fun e he => ?_, fun e he => .inl (mem_cons_of_mem _ he)⟩
      rcases mem_cons.1 he with rfl | he
      · exact .inr rfl
      · exact .inl he
    · cases h

section Grant

variable {req : Request} {v : Nat} {needsFlush : Bool} {active : List Nat}

variable {n : Nat} {pd : Nat}

theorem grant_job_of_lt (hn : n < s.jobs) : (s.grant req v needsFlush active).job n = s.job n :=
  update_of_ne (ne_of_lt hn) _ _

theorem grant_job_self :
    (s.grant req v needsFlush active).job s.jobs = s.newJob req v needsFlush :=
  update_self ..

theorem grant_finished_of_lt (hn : n < s.jobs) :
    (s.grant req v needsFlush active).finished n = s.finished n := by
  rw [State.finished, State.finished, grant_job_of_lt hn]
  rfl

theorem grant_scheduled_of_lt (hn : n < s.jobs) :
    (s.grant req v needsFlush active).scheduled n = s.scheduled n := by
  rw [State.scheduled, State.scheduled, grant_job_of_lt hn]

theorem grant_scheduled_self : (s.grant req v needsFlush active).scheduled s.jobs = false := by
  rw [State.scheduled, grant_job_self]
  rfl

theorem grant_ids_of_ne {w : Nat} (hw : w ≠ v) :
    (s.grant req v needsFlush active).ids w = s.ids w :=
  update_of_ne hw _ _

theorem grant_ids_self :
    (s.grant req v needsFlush active).ids v =
      { s.ids v with
        active := active
        lastFlush := if needsFlush then none else (s.ids v).lastFlush
        owner := req.vm
        pdGpuAddr := req.pd
        flushedUpdates := if needsFlush then s.tlbSeq req.vm else (s.ids v).flushedUpdates
        gds := req.gds } :=
  update_self ..

theorem IdOk.grant_of_ne {w pd : Nat} (hw : w ≠ v) (h : IdOk d s w pd) :
    IdOk d (s.grant req v needsFlush active) w pd := by
  have hlt {n : Nat} (hn : n < (s.grant req v needsFlush active).jobs)
      (hv : ((s.grant req v needsFlush active).job n).vmid = w) :
      n < s.jobs ∧ (s.job n).vmid = w := by
    rcases eq_or_lt_of_le (Nat.le_of_lt_succ hn) with rfl | hn
    · rw [grant_job_self] at hv
      exact absurd hv.symm hw
    · rw [grant_job_of_lt hn] at hv
      exact ⟨hn, hv⟩
  constructor
  case pdGpuAddr =>
    rw [grant_ids_of_ne hw]
    exact h.pdGpuAddr
  case granted =>
    intro n hn hv hsched
    obtain ⟨hn, hv⟩ := hlt hn hv
    rw [grant_scheduled_of_lt hn] at hsched
    rw [grant_job_of_lt hn, grant_ids_of_ne hw]
    exact h.granted n hn hv hsched
  case others =>
    intro m hm hv hun hne
    obtain ⟨hm, hv⟩ := hlt hm hv
    rw [grant_finished_of_lt hm] at hun
    rw [grant_job_of_lt hm, grant_ids_of_ne hw] at *
    obtain ⟨hconc, hflush, hunf, k, hmk, hk, hkv, hkring, hkvm, hkpd, hkf⟩ :=
      h.others m hm hv hun hne
    refine ⟨hconc, hflush, fun n hn hnv hnun => ?_, k, hmk, Nat.lt_succ_of_lt hk, ?_⟩
    · obtain ⟨hn, hnv⟩ := hlt hn hnv
      rw [grant_finished_of_lt hn] at hnun
      rw [grant_job_of_lt hn]
      exact hunf n hn hnv hnun
    · rw [grant_job_of_lt hk]
      exact ⟨hkv, hkring, hkvm, hkpd, hkf⟩
  case lastFlush =>
    rw [grant_ids_of_ne hw]
    exact h.lastFlush
  case flushedUpdates =>
    rw [grant_ids_of_ne hw]
    exact h.flushedUpdates
  case lastEmitted =>
    intro n hn hv hsched hflush
    obtain ⟨hn, hv⟩ := hlt hn hv
    rw [grant_scheduled_of_lt hn] at hsched
    rw [grant_job_of_lt hn] at hflush ⊢
    rw [grant_ids_of_ne hw]
    exact h.lastEmitted n hn hv hsched hflush
  case active =>
    intro n hn hv hun
    obtain ⟨hn, hv⟩ := hlt hn hv
    rw [grant_finished_of_lt hn] at hun
    rw [grant_ids_of_ne hw]
    obtain ⟨e, he, hle, hent, hring⟩ := h.active n hn hv hun
    refine ⟨e, he, hle, ?_⟩
    rw [grant_job_of_lt hn, grant_job_of_lt (h.active_lt e he)]
    exact ⟨hent, hring⟩
  case active_lt =>
    intro e he
    rw [grant_ids_of_ne hw] at he
    exact Nat.lt_succ_of_lt (h.active_lt e he)

theorem IdOk.served (h : IdOk d s v pd) (hreq : req.pd ≠ 0) (hok : GrantOk d s req v false) :
    ∃ f, (s.ids v).lastEmitted = some f ∧ (s.newJob req v false).ServedBy f ∧
      (f.ring = req.ring ∨ s.flushSignaled f = true) := by
  rcases hok with ⟨hflush, -⟩ | ⟨howner, hpd, -, hclear⟩
  · cases hflush
  obtain ⟨hseq, hordered⟩ := hclear rfl
  unfold State.flushOrdered at hordered
  split at hordered
  · cases hordered
  next f hf =>
    obtain ⟨hemit, hvm, hfpd, hfseq⟩ := h.lastFlush f hf
    refine ⟨f, hemit, ⟨hvm.trans howner, hfpd.trans (h.pd_eq hreq hpd), hseq.trans hfseq⟩, ?_⟩
    exact (or_eq_true_iff.1 hordered).imp_left of_decide_eq_true

theorem Inv.granted_of_grant (h : Inv d s) (hid : IdOk d s v pd) (hreq : req.pd ≠ 0)
    (hok : GrantOk d s req v needsFlush) (hn : n < s.jobs) (hv : (s.job n).vmid = v)
    (hsched : s.scheduled n = false) :
    (s.job n).req.vm = req.vm ∧ (s.job n).req.pd = req.pd := by
  rcases hok with ⟨-, hfree⟩ | ⟨howner, hpd, -, -⟩
  · obtain ⟨-, -, hs⟩ :=
      h.unfinished_of_free hid hfree hn hv (State.unfinished_of_unscheduled hsched)
    rw [hsched] at hs
    cases hs
  · obtain ⟨hvm, hpdn⟩ := hid.granted n hn hv hsched
    exact ⟨hvm.trans howner, hpdn.trans (hid.pd_eq hreq hpd)⟩

theorem Inv.flush_of_grant (h : Inv d s) (active : List Nat) (hid : IdOk d s v pd)
    (hreq : req.pd ≠ 0) (hok : GrantOk d s req v needsFlush) {m : Nat} (hm : m < s.jobs)
    (hv : (s.job m).vmid = v) (hun : s.finished m = false)
    (hne : (s.job m).req.vm ≠ req.vm ∨ (s.job m).req.pd ≠ req.pd) :
    ∃ k, m < k ∧ k < (s.grant req v needsFlush active).jobs ∧
      ((s.grant req v needsFlush active).job k).vmid = v ∧
      ((s.grant req v needsFlush active).job k).req.ring = req.ring ∧
      ((s.grant req v needsFlush active).job k).req.vm = req.vm ∧
      ((s.grant req v needsFlush active).job k).req.pd = req.pd ∧
      ((s.grant req v needsFlush active).job k).vmNeedsFlush = true := by
  have hring := (h.ring_of_grant hid hreq hok hm hv hun hne).2
  rcases hok with ⟨hflush, -⟩ | ⟨howner, hpd, -, -⟩
  · refine ⟨s.jobs, hm, Nat.lt_succ_self _, ?_⟩
    rw [grant_job_self]
    exact ⟨rfl, rfl, rfl, rfl, hflush⟩
  · have hpd' := hid.pd_eq hreq hpd
    rw [← howner, ← hpd'] at hne
    obtain ⟨-, -, -, k, hmk, hk, hkv, hkring, hkvm, hkpd, hkf⟩ := hid.others m hm hv hun hne
    refine ⟨k, hmk, Nat.lt_succ_of_lt hk, ?_⟩
    rw [grant_job_of_lt hk]
    exact ⟨hkv, hkring.trans hring, hkvm.trans howner, hkpd.trans hpd', hkf⟩

theorem IdOk.grant_self (hinv : Inv d s) (h : IdOk d s v pd) (hreq : req.pd ≠ 0)
    (hok : GrantOk d s req v needsFlush)
    (hentity : ∀ n < s.jobs, (s.job n).req.entity = req.entity → s.finished n = false →
      (s.job n).req.ring = req.ring) {alloc : Bool}
    (hsync : syncFence s req.entity s.jobs (s.ids v).active alloc = .ok active) :
    IdOk d (s.grant req v needsFlush active) v req.pd := by
  obtain ⟨hnew, hsubset, hkeep⟩ := syncFence_spec h.active_lt hsync
  constructor
  case pdGpuAddr =>
    rw [grant_ids_self]
    exact .inl rfl
  case granted =>
    intro n hn hv hsched
    rw [grant_ids_self]
    rcases eq_or_lt_of_le (Nat.le_of_lt_succ hn) with rfl | hn
    · rw [grant_job_self]
      exact ⟨rfl, rfl⟩
    · rw [grant_scheduled_of_lt hn] at hsched
      rw [grant_job_of_lt hn] at hv ⊢
      exact hinv.granted_of_grant h hreq hok hn hv hsched
  case others =>
    intro m hle hv hun hne
    rw [grant_ids_self] at hne
    rcases eq_or_lt_of_le (Nat.le_of_lt_succ hle) with rfl | hm
    · rw [grant_job_self] at hne
      rcases hne with hne | hne
      · exact absurd rfl hne
      · exact absurd rfl hne
    rw [grant_finished_of_lt hm] at hun
    rw [grant_job_of_lt hm] at hv hne ⊢
    -- The job of another one is on the same ring, so the new flush is behind it.
    obtain ⟨hconc, hring⟩ := hinv.ring_of_grant h hreq hok hm hv hun hne
    refine ⟨hconc, fun f hf => ?_, fun n hn hnv hnun => ?_, ?_⟩
    · rw [grant_ids_self] at hf
      cases needsFlush with
      | true => cases hf
      | false =>
        rcases hok with ⟨hflush, -⟩ | ⟨howner, hpd, -, -⟩
        · cases hflush
        rw [← howner, ← h.pd_eq hreq hpd] at hne
        exact (h.others m hm hv hun hne).2.1 f hf
    · rcases eq_or_lt_of_le (Nat.le_of_lt_succ hn) with rfl | hn
      · rw [grant_job_self]
        exact hring.symm
      rw [grant_finished_of_lt hn] at hnun
      rw [grant_job_of_lt hn] at hnv ⊢
      rcases hok with ⟨-, hfree⟩ | ⟨howner, hpd, -, -⟩
      · exact (hinv.unfinished_of_free h hfree hn hnv hnun).2.1.trans hring.symm
      · rw [← howner, ← h.pd_eq hreq hpd] at hne
        exact (h.others m hm hv hun hne).2.2.1 n hn hnv hnun
    · obtain ⟨k, hmk, hk, hkv, hkring, hkvm, hkpd, hkf⟩ :=
        hinv.flush_of_grant active h hreq hok hm hv hun hne
      rw [grant_ids_self]
      exact ⟨k, hmk, hk, hkv, hkring.trans hring.symm, hkvm, hkpd, hkf⟩
  case lastFlush =>
    intro f hf
    rw [grant_ids_self] at hf ⊢
    cases needsFlush with
    | true => cases hf
    | false =>
      rcases hok with ⟨hflush, -⟩ | ⟨howner, hpd, -, -⟩
      · cases hflush
      obtain ⟨hemit, hvm, hfpd, hseq⟩ := h.lastFlush f hf
      exact ⟨hemit, hvm.trans howner, hfpd.trans (h.pd_eq hreq hpd), hseq⟩
  case flushedUpdates =>
    rw [grant_ids_self]
    cases needsFlush with
    | true => exact le_refl _
    | false =>
      rcases hok with ⟨hflush, -⟩ | ⟨howner, -, -, -⟩
      · cases hflush
      · exact howner ▸ h.flushedUpdates
  case lastEmitted =>
    intro n hn hv hsched hflush
    rw [grant_ids_self]
    rcases eq_or_lt_of_le (Nat.le_of_lt_succ hn) with rfl | hn
    · rw [grant_job_self] at hflush ⊢
      cases hflush
      obtain ⟨f, hf, hserved, -⟩ := h.served hreq hok
      exact ⟨f, hf, hserved⟩
    · rw [grant_scheduled_of_lt hn] at hsched
      rw [grant_job_of_lt hn] at hv hflush ⊢
      exact h.lastEmitted n hn hv hsched hflush
  case active =>
    intro n hn hv hun
    rw [grant_ids_self]
    rcases eq_or_lt_of_le (Nat.le_of_lt_succ hn) with rfl | hn
    · exact ⟨s.jobs, hnew, le_refl _, rfl, rfl⟩
    rw [grant_finished_of_lt hn] at hun
    rw [grant_job_of_lt hn] at hv ⊢
    obtain ⟨e, he, hle, hent, hring⟩ := h.active n hn hv hun
    -- A fence that left `active` was replaced by one of its entity: that of the new job.
    rcases hkeep e he with he' | hreplaced
    · refine ⟨e, he', hle, ?_⟩
      rw [grant_job_of_lt (h.active_lt e he)]
      exact ⟨hent, hring⟩
    · refine ⟨s.jobs, hnew, le_of_lt hn, ?_⟩
      rw [grant_job_self]
      have hent' := hent.symm.trans hreplaced
      exact ⟨hent'.symm, (hentity n hn hent' hun).symm⟩
  case active_lt =>
    intro e he
    rw [grant_ids_self] at he
    rcases hsubset e he with he | rfl
    · exact Nat.lt_succ_of_lt (h.active_lt e he)
    · exact Nat.lt_succ_self _

theorem Isolated.grant (hinv : Inv d s) (hid : IdOk d s v pd) (hreq : req.pd ≠ 0)
    (hok : GrantOk d s req v needsFlush) :
    Isolated d (s.grant req v needsFlush active) := by
  have h := hinv.isolated
  refine ⟨?_, ?_, ?_⟩
  · intro m n hmn hn hv hmun hnun hdiff
    rcases eq_or_lt_of_le (Nat.le_of_lt_succ hn) with rfl | hn
    · rw [grant_finished_of_lt hmn] at hmun
      rw [grant_job_of_lt hmn, grant_job_self] at *
      obtain ⟨hconc, hring⟩ := hinv.ring_of_grant hid hreq hok hmn hv hmun hdiff
      obtain ⟨k, hmk, hk, hkv, hkring, hkvm, hkpd, hkf⟩ :=
        hinv.flush_of_grant active hid hreq hok hmn hv hmun hdiff
      refine ⟨hring, hconc, k, hmk, Nat.le_of_lt_succ hk, hkv, hkring, ?_, hkf⟩
      rintro (hne | hne)
      · exact hne hkvm
      · exact hne hkpd
    · have hm := hmn.trans hn
      rw [grant_finished_of_lt hm] at hmun
      rw [grant_finished_of_lt hn] at hnun
      rw [grant_job_of_lt hm, grant_job_of_lt hn] at *
      obtain ⟨hring, hconc, k, hmk, hkn, hk⟩ := h.shared m n hmn hn hv hmun hnun hdiff
      refine ⟨hring, hconc, k, hmk, hkn, ?_⟩
      rw [grant_job_of_lt (hkn.trans_lt hn)]
      exact hk
  · intro n hn hflush
    rcases eq_or_lt_of_le (Nat.le_of_lt_succ hn) with rfl | hn
    · rw [grant_job_self] at hflush ⊢
      cases hflush
      obtain ⟨f, hf, hserved, hordered⟩ := hid.served hreq hok
      refine ⟨f, hf, hserved, hordered.imp_right fun hsig => ?_⟩
      simp only [State.newJob, hf, Option.any_some, hsig]
    · rw [grant_job_of_lt hn] at hflush ⊢
      exact h.grabbed n hn hflush
  · intro n hn hsched hflush
    rcases eq_or_lt_of_le (Nat.le_of_lt_succ hn) with rfl | hn
    · rw [grant_scheduled_self] at hsched
      cases hsched
    · rw [grant_scheduled_of_lt hn] at hsched
      rw [grant_job_of_lt hn] at hflush ⊢
      exact h.ran n hn hsched hflush

theorem Inv.grant (h : Inv d s) (hreq : req.pd ≠ 0)
    (hring : ∀ n < s.jobs, (s.job n).req.ring = req.ring → s.scheduled n = true)
    (hentity : ∀ n < s.jobs, (s.job n).req.entity = req.entity → s.finished n = false →
      (s.job n).req.ring = req.ring)
    (hok : GrantOk d s req v needsFlush) {alloc : Bool}
    (hsync : syncFence s req.entity s.jobs (s.ids v).active alloc = .ok active) :
    Inv d (s.grant req v needsFlush active) := by
  obtain ⟨pd, hid⟩ := h.ids v
  refine ⟨fun w => ?_, ?_, ?_, h.completed, ?_, Isolated.grant h hid hreq hok⟩
  · by_cases hw : w = v
    · subst hw
      exact ⟨req.pd, hid.grant_self h hreq hok hentity hsync⟩
    · obtain ⟨pd', hid'⟩ := h.ids w
      exact ⟨pd', hid'.grant_of_ne hw⟩
  · intro m n hmn hn hring'
    rcases eq_or_lt_of_le (Nat.le_of_lt_succ hn) with rfl | hn
    · rw [grant_job_of_lt hmn, grant_job_self] at *
      obtain ⟨p, hp⟩ := State.running_of_scheduled (hring m hmn hring')
      exact ⟨p, hp, nofun⟩
    · rw [grant_job_of_lt (hmn.trans hn), grant_job_of_lt hn] at *
      exact h.order m n hmn hn hring'
  · intro n hn p hp
    rcases eq_or_lt_of_le (Nat.le_of_lt_succ hn) with rfl | hn
    · rw [grant_job_self] at hp
      cases hp
    · rw [grant_job_of_lt hn] at hp ⊢
      exact h.emitted n hn p hp
  · intro n hn
    rcases eq_or_lt_of_le (Nat.le_of_lt_succ hn) with rfl | hn
    · rw [grant_job_self]
      exact le_refl _
    · rw [grant_job_of_lt hn]
      exact h.updates n hn

end Grant

theorem Inv.grab (h : Inv d s) {req : Request} {alloc : Alloc}
    (hallow : Allowed s (.grab req alloc)) : Inv d (vmidGrab d s req alloc).1 := by
  obtain ⟨hreq, hring, hentity⟩ := hallow
  rcases vmidGrab_cases d s req alloc with hquiet | ⟨s1, v, needsFlush, active, hq, hok, hsync, hq'⟩
  · exact h.quiet hquiet
  · have hring1 : ∀ n < s1.jobs, (s1.job n).req.ring = req.ring → s1.scheduled n = true := by
      simpa only [hq.jobs, hq.job, hq.scheduled] using hring
    have hentity1 : ∀ n < s1.jobs, (s1.job n).req.entity = req.entity → s1.finished n = false →
        (s1.job n).req.ring = req.ring := by
      simpa only [hq.jobs, hq.job, hq.finished, not_eq_true] using hentity
    exact ((h.quiet hq).grant hreq hring1 hentity1 hok hsync).quiet hq'

/-! ### Running a job -/

structure Ran (s s' : State) (n0 : Nat) : Prop where
  jobs : s'.jobs = s.jobs
  completed : s'.completed = s.completed
  tlbSeq : s'.tlbSeq = s.tlbSeq
  emitted : ∀ ring, s.emitted ring ≤ s'.emitted ring
  job : ∀ n, n ≠ n0 → s'.job n = s.job n
  self : ∃ q, s'.job n0 =
      { s.job n0 with
        ranOn := (s.ids (s.job n0).vmid).lastEmitted, progress := .running q } ∧
    s.emitted (s.job n0).req.ring < q ∧ q ≤ s'.emitted (s.job n0).req.ring
  active : ∀ v, (s'.ids v).active = (s.ids v).active
  owner : ∀ v, (s'.ids v).owner = (s.ids v).owner
  pdGpuAddr : ∀ v, (s'.ids v).pdGpuAddr = (s.ids v).pdGpuAddr
  flushedUpdates : ∀ v, (s'.ids v).flushedUpdates = (s.ids v).flushedUpdates
  flush : ∀ v,
    (s'.ids v).lastFlush = (s.ids v).lastFlush ∧ (s'.ids v).lastEmitted = (s.ids v).lastEmitted ∨
    v = (s.job n0).vmid ∧ ∃ f, (s'.ids v).lastFlush = some f ∧ (s'.ids v).lastEmitted = some f ∧
      f.ring = (s.job n0).req.ring ∧ s.emitted f.ring < f.pos ∧ f.vm = (s.job n0).req.vm ∧
      f.pd = (s.job n0).req.pd ∧ f.seq = s.tlbSeq f.vm

theorem vmFlush_ran (d : Device) (s : State) (n0 : Nat) : Ran s (vmFlush d s n0) n0 := by
  have hemit (ring k : Nat) : ∀ r, s.emitted r ≤
      update s.emitted ring (s.emitted ring + k) r := by
    intro r
    by_cases hr : r = ring
    · rw [hr, update_self]
      exact Nat.le_add_right _ _
    · rw [update_of_ne hr]
  have hend (ring k : Nat) :
      s.emitted ring + k ≤ update s.emitted ring (s.emitted ring + k) ring := by
    rw [update_self]
  rw [vmFlush]
  simp only
  split
  case isFalse =>
    exact ⟨rfl, rfl, rfl, hemit _ 1, fun n hn => update_of_ne hn _ _,
      ⟨_, update_self .., Nat.lt_succ_self _, hend _ 1⟩, fun _ => rfl, fun _ => rfl,
      fun _ => rfl, fun _ => rfl, fun _ => .inl ⟨rfl, rfl⟩⟩
  case isTrue =>
    refine ⟨rfl, rfl, rfl, hemit _ 2, fun n hn => update_of_ne hn _ _,
      ⟨_, update_self .., Nat.lt_add_of_pos_right (by decide), hend _ 2⟩,
      fun v => ?_, fun v => ?_, fun v => ?_, fun v => ?_, fun v => ?_⟩ <;> dsimp only
    all_goals by_cases hv : v = (s.job n0).vmid
    all_goals first
      | rw [hv, update_self]
      | rw [update_of_ne hv]
    · exact .inr ⟨rfl, _, rfl, rfl, rfl, Nat.lt_succ_self _, rfl, rfl, rfl⟩
    · exact .inl ⟨rfl, rfl⟩

section Run

variable {s' : State} {n0 : Nat}

section
variable (hr : Ran s s' n0)
include hr

theorem Ran.fields (n : Nat) : ∃ r p, s'.job n = { s.job n with ranOn := r, progress := p } := by
  by_cases hn : n = n0
  · obtain ⟨q, hq, -⟩ := hr.self
    rw [hn]
    exact ⟨_, _, hq⟩
  · exact ⟨(s.job n).ranOn, (s.job n).progress, hr.job n hn⟩

theorem Ran.req (n : Nat) : (s'.job n).req = (s.job n).req := by
  obtain ⟨r, p, heq⟩ := hr.fields n
  rw [heq]

theorem Ran.vmid (n : Nat) : (s'.job n).vmid = (s.job n).vmid := by
  obtain ⟨r, p, heq⟩ := hr.fields n
  rw [heq]

theorem Ran.vmNeedsFlush (n : Nat) : (s'.job n).vmNeedsFlush = (s.job n).vmNeedsFlush := by
  obtain ⟨r, p, heq⟩ := hr.fields n
  rw [heq]

theorem Ran.updates (n : Nat) : (s'.job n).updates = (s.job n).updates := by
  obtain ⟨r, p, heq⟩ := hr.fields n
  rw [heq]

theorem Ran.servedBy (n : Nat) (f : Flush) : (s'.job n).ServedBy f ↔ (s.job n).ServedBy f := by
  rw [Job.ServedBy, Job.ServedBy, hr.req, hr.updates]

theorem Ran.differ (m n : Nat) : Differ (s'.job m) (s'.job n) ↔ Differ (s.job m) (s.job n) := by
  rw [Differ, Differ, hr.req, hr.req]

theorem Ran.finished (h : Inv d s) (hgranted : s.scheduled n0 = false) (n : Nat) :
    s'.finished n = s.finished n := by
  by_cases hn : n = n0
  · subst hn
    obtain ⟨q, hq, hlt, -⟩ := hr.self
    have hle := h.completed (s.job n).req.ring
    have hprog : (s'.job n).progress = .running q := by rw [hq]
    rw [State.unfinished_of_unscheduled hgranted, State.finished_running hprog,
      decide_eq_false_iff_not, hr.completed, hr.req]
    omega
  · rw [State.finished, State.finished, hr.job n hn, hr.completed]

theorem Ran.scheduled_of_ne {n : Nat} (hn : n ≠ n0) : s'.scheduled n = s.scheduled n := by
  rw [State.scheduled, State.scheduled, hr.job n hn]

theorem Ran.scheduled_self : s'.scheduled n0 = true := by
  obtain ⟨q, hq, -⟩ := hr.self
  exact State.scheduled_of_running (p := q) (by rw [hq])

theorem Ran.ne_of_unscheduled {n : Nat} (h : s'.scheduled n = false) : n ≠ n0 := by
  rintro rfl
  rw [hr.scheduled_self] at h
  cases h

end

theorem IdOk.ran {v pd : Nat} (hinv : Inv d s) (h : IdOk d s v pd) (hr : Ran s s' n0)
    (hn0 : n0 < s.jobs) (hgranted : s.scheduled n0 = false) : IdOk d s' v pd := by
  constructor
  case pdGpuAddr =>
    rw [hr.pdGpuAddr]
    exact h.pdGpuAddr
  case granted =>
    intro n hn hv hsched
    have hne := hr.ne_of_unscheduled hsched
    rw [hr.jobs] at hn
    rw [hr.vmid] at hv
    rw [hr.scheduled_of_ne hne] at hsched
    rw [hr.req, hr.owner]
    exact h.granted n hn hv hsched
  case others =>
    intro m hm hv hun hne
    rw [hr.jobs] at hm
    rw [hr.vmid] at hv
    rw [hr.finished hinv hgranted] at hun
    rw [hr.req, hr.owner] at hne
    -- The job that runs now is of the owner.
    have hm0 : m ≠ n0 := by
      rintro rfl
      obtain ⟨hvm, hpd⟩ := h.granted m hm hv hgranted
      rcases hne with hne | hne
      · exact hne hvm
      · exact hne hpd
    obtain ⟨hconc, hflush, hunf, k, hmk, hk, hkv, hkring, hkvm, hkpd, hkf⟩ :=
      h.others m hm hv hun hne
    refine ⟨hconc, fun f hf => ?_, fun n hn hnv hnun => ?_, k, hmk, hr.jobs.symm ▸ hk, ?_⟩
    · rw [hr.req, hr.job m hm0]
      rcases hr.flush v with ⟨hlast, -⟩ | ⟨hv0, f', hlast, -, hring, hpos, -⟩
      · exact hflush f (hlast.symm.trans hf)
      · cases hlast.symm.trans hf
        have hring' := hunf n0 hn0 hv0.symm (State.unfinished_of_unscheduled hgranted)
        refine ⟨hring.trans hring', fun p hp => ?_⟩
        have hle := hinv.emitted m hm p hp
        rw [← hring', ← hring] at hle
        omega
    · rw [hr.jobs] at hn
      rw [hr.vmid] at hnv
      rw [hr.finished hinv hgranted] at hnun
      rw [hr.req, hr.req]
      exact hunf n hn hnv hnun
    · rw [hr.vmid, hr.req, hr.req, hr.owner, hr.vmNeedsFlush]
      exact ⟨hkv, hkring, hkvm, hkpd, hkf⟩
  case lastFlush =>
    intro f hf
    rw [hr.owner, hr.flushedUpdates]
    rcases hr.flush v with ⟨hlast, hemit⟩ | ⟨hv0, f', hlast, hemit, -, -, hvm, hpd, hseq⟩
    · rw [hemit]
      exact h.lastFlush f (hlast.symm.trans hf)
    · cases hlast.symm.trans hf
      obtain ⟨hvm0, hpd0⟩ := h.granted n0 hn0 hv0.symm hgranted
      have hown := hvm.trans hvm0
      refine ⟨hemit, hown, hpd.trans hpd0, ?_⟩
      rw [hseq, hown]
      exact h.flushedUpdates
  case flushedUpdates =>
    rw [hr.flushedUpdates, hr.owner, hr.tlbSeq]
    exact h.flushedUpdates
  case lastEmitted =>
    intro n hn hv hsched hflush
    have hne := hr.ne_of_unscheduled hsched
    rw [hr.jobs] at hn
    rw [hr.vmid] at hv
    rw [hr.scheduled_of_ne hne] at hsched
    rw [hr.vmNeedsFlush] at hflush
    simp only [hr.servedBy]
    rcases hr.flush v with ⟨-, hemit⟩ | ⟨hv0, f, -, hemit, -, -, hvm, hpd, hseq⟩
    · rw [hemit]
      exact h.lastEmitted n hn hv hsched hflush
    · obtain ⟨hvm0, hpd0⟩ := h.granted n0 hn0 hv0.symm hgranted
      obtain ⟨hvmn, hpdn⟩ := h.granted n hn hv hsched
      have hfvm := hvm.trans (hvm0.trans hvmn.symm)
      refine ⟨f, hemit, hfvm, hpd.trans (hpd0.trans hpdn.symm), ?_⟩
      rw [hseq, hfvm]
      exact hinv.updates n hn
  case active =>
    intro n hn hv hun
    rw [hr.jobs] at hn
    rw [hr.vmid] at hv
    rw [hr.finished hinv hgranted] at hun
    rw [hr.active]
    obtain ⟨e, he, hle, hent, hring⟩ := h.active n hn hv hun
    refine ⟨e, he, hle, ?_⟩
    rw [hr.req, hr.req]
    exact ⟨hent, hring⟩
  case active_lt =>
    intro e he
    rw [hr.active] at he
    rw [hr.jobs]
    exact h.active_lt e he

theorem Isolated.ran_of_ran (hinv : Inv d s) (hr : Ran s s' n0) (hn0 : n0 < s.jobs)
    (hgranted : s.scheduled n0 = false) : Isolated d s' := by
  have h := hinv.isolated
  refine ⟨?_, ?_, ?_⟩
  · simpa only [hr.jobs, hr.vmid, hr.finished hinv hgranted, hr.differ, hr.req, hr.vmNeedsFlush]
      using h.shared
  · intro n hn hflush
    obtain ⟨r, p, heq⟩ := hr.fields n
    rw [heq] at hflush ⊢
    exact h.grabbed n (hr.jobs ▸ hn) hflush
  · intro n hn hsched hflush
    rw [hr.jobs] at hn
    rw [hr.vmNeedsFlush] at hflush
    simp only [hr.servedBy]
    by_cases hne : n = n0
    · subst hne
      obtain ⟨q, hq, -⟩ := hr.self
      obtain ⟨pd, hid⟩ := hinv.ids (s.job n).vmid
      rw [hq]
      exact hid.lastEmitted n hn rfl hgranted hflush
    · rw [hr.scheduled_of_ne hne] at hsched
      rw [hr.job n hne]
      exact h.ran n hn hsched hflush

theorem Inv.ran (h : Inv d s) (hr : Ran s s' n0) (hn0 : n0 < s.jobs)
    (hgranted : s.scheduled n0 = false) : Inv d s' := by
  obtain ⟨q0, hq0, hlt0, hle0⟩ := hr.self
  refine ⟨fun v => ?_, ?_, ?_, ?_, ?_, Isolated.ran_of_ran h hr hn0 hgranted⟩
  · obtain ⟨pd, hid⟩ := h.ids v
    exact ⟨pd, hid.ran h hr hn0 hgranted⟩
  · intro m n hmn hn hring
    rw [hr.jobs] at hn
    rw [hr.req, hr.req] at hring
    obtain ⟨p, hp, hbefore⟩ := h.order m n hmn hn hring
    have hm0 : m ≠ n0 := by
      rintro rfl
      rw [State.scheduled_of_running hp] at hgranted
      cases hgranted
    refine ⟨p, by rw [hr.job m hm0, hp], fun q hq => ?_⟩
    by_cases hne : n = n0
    · subst hne
      rw [hq0] at hq
      cases hq
      have hle := h.emitted m (hmn.trans hn) p hp
      rw [hring] at hle
      omega
    · rw [hr.job n hne] at hq
      exact hbefore q hq
  · intro n hn p hp
    rw [hr.req]
    by_cases hne : n = n0
    · subst hne
      rw [hq0] at hp
      cases hp
      exact hle0
    · rw [hr.job n hne] at hp
      exact (h.emitted n (hr.jobs ▸ hn) p hp).trans (hr.emitted _)
  · intro ring
    rw [hr.completed]
    exact (h.completed ring).trans (hr.emitted ring)
  · intro n hn
    rw [hr.updates, hr.tlbSeq, hr.req]
    exact h.updates n (hr.jobs ▸ hn)

end Run

/-! ### Completion, updates and reservations -/

/-- Rings get further, and page tables are updated. -/
structure Later (s s' : State) : Prop where
  ids : s'.ids = s.ids
  job : s'.job = s.job
  jobs : s'.jobs = s.jobs
  emitted : s'.emitted = s.emitted
  completed_le : ∀ ring, s.completed ring ≤ s'.completed ring
  completed : ∀ ring, s'.completed ring ≤ s.emitted ring
  tlbSeq : ∀ vm, s.tlbSeq vm ≤ s'.tlbSeq vm

variable {s' : State}

theorem Later.unfinished (hl : Later s s') {n : Nat} (h : s'.finished n = false) :
    s.finished n = false := by
  cases hp : (s.job n).progress with
  | granted => rw [State.finished, hp]
  | running p =>
    have hp' : (s'.job n).progress = .running p := by rw [hl.job, hp]
    have hle := hl.completed_le (s.job n).req.ring
    rw [State.finished_running hp', hl.job, decide_eq_false_iff_not] at h
    rw [State.finished_running hp, decide_eq_false_iff_not]
    omega

theorem Later.scheduled (hl : Later s s') (n : Nat) : s'.scheduled n = s.scheduled n := by
  rw [State.scheduled, State.scheduled, hl.job]

theorem IdOk.later {v pd : Nat} (h : IdOk d s v pd) (hl : Later s s') :
    IdOk d s' v pd where
  pdGpuAddr := by simpa only [hl.ids] using h.pdGpuAddr
  granted := by simpa only [hl.jobs, hl.job, hl.scheduled, hl.ids] using h.granted
  others := by
    rw [hl.jobs, hl.job, hl.ids]
    intro m hm hv hun hne
    obtain ⟨hconc, hflush, hunf, hk⟩ := h.others m hm hv (hl.unfinished hun) hne
    exact ⟨hconc, hflush, fun n hn hnv hnun => hunf n hn hnv (hl.unfinished hnun), hk⟩
  lastFlush := by simpa only [hl.ids] using h.lastFlush
  flushedUpdates := by
    rw [hl.ids]
    exact h.flushedUpdates.trans (hl.tlbSeq _)
  lastEmitted := by simpa only [hl.jobs, hl.job, hl.scheduled, hl.ids] using h.lastEmitted
  active := by
    rw [hl.jobs, hl.job, hl.ids]
    exact fun n hn hv hun => h.active n hn hv (hl.unfinished hun)
  active_lt := by simpa only [hl.jobs, hl.ids] using h.active_lt

theorem Inv.later (h : Inv d s) (hl : Later s s') : Inv d s' where
  ids v := by
    obtain ⟨pd, hid⟩ := h.ids v
    exact ⟨pd, hid.later hl⟩
  order := by simpa only [hl.jobs, hl.job] using h.order
  emitted := by simpa only [hl.jobs, hl.job, hl.emitted] using h.emitted
  completed ring := (hl.completed ring).trans_eq (congrFun hl.emitted ring).symm
  updates := by
    rw [hl.jobs, hl.job]
    exact fun n hn => (h.updates n hn).trans (hl.tlbSeq _)
  isolated :=
    { shared := by
        rw [hl.jobs, hl.job]
        exact fun m n hmn hn hv hm hn' =>
          h.isolated.shared m n hmn hn hv (hl.unfinished hm) (hl.unfinished hn')
      grabbed := by simpa only [hl.jobs, hl.job] using h.isolated.grabbed
      ran := by simpa only [hl.jobs, hl.job, hl.scheduled] using h.isolated.ran }

theorem later_complete (h : Inv d s) (ring pos : Nat) :
    Later s (step d s (.complete ring pos)) := by
  refine ⟨rfl, rfl, rfl, rfl, fun r => ?_, fun r => ?_, fun _ => le_refl _⟩
  all_goals
    simp only [step]
    by_cases hr : r = ring
  · rw [hr, update_self]
    exact le_max_left _ _
  · rw [update_of_ne hr]
  · rw [hr, update_self]
    exact Nat.max_le.2 ⟨h.completed ring, min_le_right _ _⟩
  · rw [update_of_ne hr]
    exact h.completed r

theorem later_update (h : Inv d s) (vm : Nat) : Later s (step d s (.update vm)) := by
  refine ⟨rfl, rfl, rfl, rfl, fun _ => le_refl _, h.completed, fun w => ?_⟩
  simp only [step]
  by_cases hw : w = vm
  · rw [hw, update_self]
    exact Nat.le_succ _
  · rw [update_of_ne hw]

theorem Quiet.reservation (s : State) (lru : List Nat) (res : Option Nat) (count : Nat)
    (vms : Nat → Bool) :
    Quiet s
      { s with idsLru := lru, reserved := res, reservedUseCount := count, reservedVmid := vms } :=
  ⟨rfl, rfl, rfl, rfl, rfl, fun _ => rfl, fun _ => rfl, fun _ => rfl, fun _ => rfl,
    fun _ => .inl rfl, fun _ _ hn _ => hn, fun _ _ hn => hn⟩

theorem quiet_allocReserved (s : State) (vms : Nat → Bool) :
    Quiet s { vmidAllocReserved s with reservedVmid := vms } := by
  rw [vmidAllocReserved]
  simp only
  split
  · exact Quiet.reservation s _ _ _ vms
  · exact Quiet.reservation s _ _ _ vms

theorem quiet_freeReserved (s : State) (vms : Nat → Bool) :
    Quiet s { vmidFreeReserved s with reservedVmid := vms } := by
  rw [vmidFreeReserved]
  simp only
  split
  · exact Quiet.reservation s _ _ _ vms
  · exact Quiet.reservation s _ _ _ vms

theorem Inv.step (h : Inv d s) {op : Op} (hallow : Allowed s op) : Inv d (step d s op) := by
  cases op with
  | grab req alloc => exact h.grab hallow
  | run n =>
    obtain ⟨hn, hsched⟩ := hallow
    exact h.ran (vmFlush_ran d s n) hn (by simpa using hsched)
  | complete ring pos => exact h.later (later_complete h ring pos)
  | update vm => exact h.later (later_update h vm)
  | reserve vm =>
    show Inv d (vmReserve s vm)
    rw [vmReserve]
    split
    · exact h
    · exact h.quiet (quiet_allocReserved s _)
  | unreserve vm =>
    show Inv d (vmUnreserve s vm)
    rw [vmUnreserve]
    split
    · exact h.quiet (quiet_freeReserved s _)
    · exact h

end Invariant

theorem Inv.init (d : Device) (numIds : Nat) (tlbSeq : Nat → Nat) :
    Inv d (State.init d numIds tlbSeq) := by
  have hfresh : Inv d
      { ids := fun _ => Id.init, idsLru := (range numIds).tail, reserved := none
        reservedUseCount := 0, reservedVmid := fun _ => false, tlbSeq := tlbSeq
        vmidWait := fun _ => none, job := fun _ => Job.none, jobs := 0
        emitted := fun _ => 0, completed := fun _ => 0 } := by
    refine ⟨fun v => ⟨0, ?_⟩, nofun, nofun, fun _ => le_refl _, nofun, nofun, nofun, nofun⟩
    exact ⟨.inl rfl, nofun, nofun, nofun, Nat.zero_le _, nofun, nofun, nofun⟩
  rw [State.init]
  split
  · exact hfresh.quiet (quiet_allocReserved _ _)
  · exact hfresh

/-- **The VMIDs of a hub keep jobs apart.** After any run of grabs, flushes, completions, page
table updates and reservations, unfinished jobs of different VMs or page directories that share a
VMID are on one ring, concurrent flushes are off, and the ring flushes the VMID for the later one
behind the earlier one. A job without a flush runs on a VMID that was last flushed for its VM and
page directory, after the updates that it saw, on its ring or with a fence that is signalled. -/
theorem vmids_isolated (d : Device) (numIds : Nat) (tlbSeq : Nat → Nat) (ops : List Op)
    (h : StepsOk (step d) Allowed (State.init d numIds tlbSeq) ops) :
    Isolated d (run (step d) (State.init d numIds tlbSeq) ops) := by
  have hinv : Inv d (run (step d) (State.init d numIds tlbSeq) ops) :=
    run_inv_of_stepsOk (P := Inv d) (fun _ _ hs hok => Inv.step hs hok)
      (Inv.init d numIds tlbSeq) h
  exact hinv.isolated

def exDevice : Device :=
  { concurrentFlush := false, enforceIsolation := false, gpuResetCounter := 0
    emitVmFlush := fun _ => true }

def exRequest (vm : Nat) : Request :=
  { vm := vm, pd := vm + 1, gds := ⟨0, 0, 0, 0, 0, 0⟩, entity := vm, ring := 0
    useCpuForUpdate := false }

def exJobs : List Op :=
  [0, 1, 2, 2].zipIdx.flatMap fun (vm, n) => [.grab (exRequest vm) ⟨true, true, true⟩, .run n]

theorem vmids_isolated_exJobs :
    StepsOk (step exDevice) Allowed (State.init exDevice 3 fun _ => 0) exJobs ∧
      Isolated exDevice (run (step exDevice) (State.init exDevice 3 fun _ => 0) exJobs) := by
  have hok : StepsOk (step exDevice) Allowed (State.init exDevice 3 fun _ => 0) exJobs := by decide
  exact ⟨hok, vmids_isolated exDevice 3 (fun _ => 0) exJobs hok⟩

/-- The first job and the last share a VMID, and the last one does not flush: the third did. -/
theorem vmids_later_unflushed :
    StepsOk (step exDevice) Allowed (State.init exDevice 3 fun _ => 0) exJobs ∧
      ∃ s, s = run (step exDevice) (State.init exDevice 3 fun _ => 0) exJobs ∧ s.jobs = 4 ∧
        (s.job 0).vmid = (s.job 3).vmid ∧ s.finished 0 = false ∧ s.finished 3 = false ∧
        Differ (s.job 0) (s.job 3) ∧ (s.job 3).vmNeedsFlush = false := by
  refine ⟨by decide, _, rfl, ?_⟩
  decide

end Amdkfd.Vmid
