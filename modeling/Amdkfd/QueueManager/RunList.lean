import Mathlib.Tactic.Ring
import Amdkfd.QueueManager.QueueCounts

/-!
# The run list

`pm_create_runlist_ib` of `kfd_packet_manager.c` writes the packets of the run
list into a buffer whose size `pm_calc_rlib_size` computes from the counters of
the queue manager: a map-process packet for each process, a map-queues packet
for each active queue, and a run-list packet that chains back to the start when
the device is oversubscribed.
-/

namespace Amdkfd.QueueManager

open Lib List

/-! ## Model -/

/-- The three `struct packet_manager_funcs` that `pm_init` chooses from. -/
inductive PmFuncs
  | vi
  | v9
  | aldebaran
  deriving DecidableEq, Repr

/-- `sizeof(struct pm4_mes_map_process)`, or of its aldebaran version. -/
def PmFuncs.mapProcessSize : PmFuncs → Nat
  | .vi => 64
  | .v9 => 64
  | .aldebaran => 84

/-- `sizeof(struct pm4_mes_map_queues)`. -/
def PmFuncs.mapQueuesSize : PmFuncs → Nat
  | .vi => 28
  | .v9 => 28
  | .aldebaran => 28

/-- `sizeof(struct pm4_mes_runlist)`. -/
def PmFuncs.runlistSize : PmFuncs → Nat
  | .vi => 16
  | .v9 => 16
  | .aldebaran => 16

/-- What `pm_create_runlist_ib` reads of the device besides its queues. -/
structure PacketManager where
  pmf : PmFuncs
  allocated : Bool
  cpQueuesNum : UInt32
  maxProcPerQuantum : UInt32

inductive Packet
  | mapProcess (qpd : Qpd)
  | mapKernelQueue (kq : PrivQueue) (isStatic : Bool)
  | mapQueue (q : Queue) (isStatic : Bool)
  | runlist (ibDwords : Nat)
  deriving DecidableEq, Repr

def Packet.bytes (pmf : PmFuncs) : Packet → Nat
  | .mapProcess _ => pmf.mapProcessSize
  | .mapKernelQueue _ _ => pmf.mapQueuesSize
  | .mapQueue _ _ => pmf.mapQueuesSize
  | .runlist _ => pmf.runlistSize

/-- The over-subscription flag of `pm_calc_rlib_size`. -/
def overSubscription (pm : PacketManager) (dqm : Dqm) : Bool :=
  let maxProcPerQuantum := if 1 < pm.maxProcPerQuantum then pm.maxProcPerQuantum else 1
  maxProcPerQuantum < dqm.processesCount || pm.cpQueuesNum < dqm.activeCpQueueCount ||
    1 < dqm.gwsQueueCount

def rlibSize (pm : PacketManager) (dqm : Dqm) : UInt32 :=
  let size := dqm.processesCount * UInt32.ofNat pm.pmf.mapProcessSize +
    dqm.activeQueueCount * UInt32.ofNat pm.pmf.mapQueuesSize
  if overSubscription pm dqm then size + UInt32.ofNat pm.pmf.runlistSize else size

/-- The state of the loops: the write position in dwords, the packets written,
whether `inc_wptr` has warned, the processes mapped and the error that ended the
loops. -/
structure Writer where
  rlWptr : UInt32
  packets : List Packet
  warned : Bool
  processesMapped : Nat
  result : Option Errno

/-- What the loops of `pm_create_runlist_ib` start from. -/
def Writer.start : Writer :=
  { rlWptr := 0, packets := [], warned := false, processesMapped := 0, result := none }

/-- A packet function that succeeds, then `inc_wptr`. -/
def Writer.emit (pmf : PmFuncs) (size : UInt32) (w : Writer) (p : Packet) : Writer :=
  let temp := w.rlWptr + UInt32.ofNat (p.bytes pmf / 4)
  { w with
    packets := w.packets ++ [p]
    warned := w.warned || size.toNat < temp.toNat * 4
    rlWptr := temp }

/-- A round of the loop over `priv_queue_list`. -/
def writeKernelQueue (pmf : PmFuncs) (size : UInt32) (isDebug : Bool) (w : Writer)
    (kq : PrivQueue) : Writer :=
  if w.result.isSome then w
  else if kq.isActive then w.emit pmf size (.mapKernelQueue kq isDebug)
  else w

/-- A round of the loop over `queues_list`. `map_queues` rejects a HIQ. -/
def writeQueue (pmf : PmFuncs) (size : UInt32) (isDebug : Bool) (w : Writer) (q : Queue) :
    Writer :=
  if w.result.isSome then w
  else if q.isActive then
    if q.type = .hiq then { w with result := some .einval }
    else w.emit pmf size (.mapQueue q isDebug)
  else w

/-- A round of the loop over `dqm->queues`. -/
def writeProcess (pmf : PmFuncs) (size : UInt32) (dqm : Dqm) (w : Writer) (qpd : Qpd) : Writer :=
  if w.result.isSome then w
  else if dqm.processesCount.toNat ≤ w.processesMapped then { w with result := some .enomem }
  else
    let w := w.emit pmf size (.mapProcess qpd)
    let w := { w with processesMapped := w.processesMapped + 1 }
    let w := qpd.privQueues.foldl (writeKernelQueue pmf size qpd.isDebug) w
    qpd.queues.foldl (writeQueue pmf size qpd.isDebug) w

/-- `pm_create_runlist_ib`. `gttAlloc` is the result of the buffer allocation
and `ib` the buffer's GPU address, which the VI run-list packet rejects when it
is zero. -/
def pmCreateRunlistIb (pm : PacketManager) (gttAlloc : Option Errno) (ib : Nat) (dqm : Dqm)
    (queues : List Qpd) : Writer :=
  if pm.allocated then { Writer.start with result := some .einval }
  else
    match gttAlloc with
    | some e => { Writer.start with result := some e }
    | none =>
      let size := rlibSize pm dqm
      let w := queues.foldl (writeProcess pm.pmf size dqm) .start
      if w.result.isSome then w
      else if overSubscription pm dqm then
        if pm.pmf = .vi ∧ ib = 0 then { w with result := some .efault }
        else { w with packets := w.packets ++ [.runlist (size.toNat / 4)] }
      else w

/-! ## The packets of a run list -/

/-- The packets for one process: the process, its active kernel queues and its
active user queues. -/
def processPackets (qpd : Qpd) : List Packet :=
  .mapProcess qpd ::
    ((qpd.privQueues.filter (·.isActive)).map (.mapKernelQueue · qpd.isDebug) ++
      (qpd.queues.filter (·.isActive)).map (.mapQueue · qpd.isDebug))

def runlistPackets (pm : PacketManager) (dqm : Dqm) (queues : List Qpd) : List Packet :=
  queues.flatMap processPackets ++
    if overSubscription pm dqm then [.runlist ((rlibSize pm dqm).toNat / 4)] else []

def totalBytes (pmf : PmFuncs) (ps : List Packet) : Nat :=
  (ps.map (Packet.bytes pmf)).sum

@[simp] theorem totalBytes_nil (pmf : PmFuncs) : totalBytes pmf [] = 0 := rfl

@[simp] theorem totalBytes_cons (pmf : PmFuncs) (p : Packet) (ps : List Packet) :
    totalBytes pmf (p :: ps) = p.bytes pmf + totalBytes pmf ps := by
  simp [totalBytes]

@[simp] theorem totalBytes_append (pmf : PmFuncs) (ps qs : List Packet) :
    totalBytes pmf (ps ++ qs) = totalBytes pmf ps + totalBytes pmf qs := by
  simp [totalBytes]

theorem Packet.four_dvd_bytes (pmf : PmFuncs) (p : Packet) : 4 ∣ p.bytes pmf := by
  have hprocess : 4 ∣ pmf.mapProcessSize := by cases pmf <;> decide
  have hqueues : 4 ∣ pmf.mapQueuesSize := by cases pmf <;> decide
  have hrunlist : 4 ∣ pmf.runlistSize := by cases pmf <;> decide
  cases p with
  | mapProcess => exact hprocess
  | mapKernelQueue | mapQueue => exact hqueues
  | runlist => exact hrunlist

/-! ## The writer -/

section Writer
variable {pmf : PmFuncs} {size : UInt32}

structure Writer.Ok (pmf : PmFuncs) (w : Writer) : Prop where
  wptr : w.rlWptr.toNat * 4 = totalBytes pmf w.packets
  quiet : w.warned = false

/-- A round `f` emits at most the packets `out a`, and all of them unless it
fails; a round after a failure does nothing. -/
def Emits {α : Type} (pmf : PmFuncs) (size : UInt32) (f : Writer → α → Writer)
    (out : α → List Packet) : Prop :=
  ∀ w a, w.Ok pmf → totalBytes pmf (w.packets ++ out a) ≤ size.toNat →
    (f w a).Ok pmf ∧ totalBytes pmf (f w a).packets ≤ totalBytes pmf (w.packets ++ out a) ∧
    ((f w a).result = none → w.result = none ∧ (f w a).packets = w.packets ++ out a)

theorem Writer.Ok.emit {w : Writer} (h : w.Ok pmf) {p : Packet}
    (hfit : totalBytes pmf (w.packets ++ [p]) ≤ size.toNat) : (w.emit pmf size p).Ok pmf := by
  have hsize := size.toNat_lt
  have hdvd := p.four_dvd_bytes pmf
  have hptr := h.wptr
  have htemp : (w.rlWptr + UInt32.ofNat (p.bytes pmf / 4)).toNat * 4 =
      totalBytes pmf (w.packets ++ [p]) := by
    rw [totalBytes_append, totalBytes_cons, totalBytes_nil, add_zero] at hfit ⊢
    rw [UInt32.toNat_add, UInt32.toNat_ofNat_of_lt' (by simp only [UInt32.size]; omega),
      Nat.mod_eq_of_lt (by omega)]
    omega
  refine ⟨htemp, ?_⟩
  simp only [Writer.emit, h.quiet, Bool.false_or, decide_eq_false_iff_not, htemp]
  exact not_lt.mpr hfit

variable {α : Type}

theorem emits_of_running {f : Writer → α → Writer} {out : α → List Packet}
    (hstop : ∀ w a, w.result.isSome → f w a = w)
    (hrun : ∀ w a, w.result = none → w.Ok pmf → totalBytes pmf (w.packets ++ out a) ≤ size.toNat → (f w a).Ok pmf ∧ totalBytes pmf (f w a).packets ≤ totalBytes pmf (w.packets ++ out a) ∧ ((f w a).result = none → (f w a).packets = w.packets ++ out a)) :
    Emits pmf size f out := by
  intro w a hw hfit
  cases hr : w.result with
  | some e =>
    rw [hstop w a (by rw [hr]; rfl), totalBytes_append]
    exact ⟨hw, Nat.le_add_right _ _, fun h => by rw [hr] at h; cases h⟩
  | none =>
    obtain ⟨hok, hle, hpackets⟩ := hrun w a hr hw hfit
    exact ⟨hok, hle, fun h => ⟨rfl, hpackets h⟩⟩

theorem forEach_spec {f : Writer → α → Writer} {out : α → List Packet} (hf : Emits pmf size f out) :
    Emits pmf size (fun w l => l.foldl f w) (fun l : List α => l.flatMap out) := by
  intro w l hw hfit
  simp only at hfit ⊢
  induction l generalizing w with
  | nil => exact ⟨hw, by simp, fun h => ⟨h, by simp⟩⟩
  | cons a l ih =>
    rw [flatMap_cons, ← append_assoc, totalBytes_append] at hfit
    obtain ⟨hw1, hle1, hall1⟩ := hf w a hw (by omega)
    obtain ⟨hw2, hle2, hall2⟩ := ih (f w a) hw1 (by rw [totalBytes_append]; omega)
    refine ⟨hw2, ?_, fun hnone => ?_⟩
    · rw [totalBytes_append] at hle2
      rw [flatMap_cons, ← append_assoc, totalBytes_append, foldl_cons]
      omega
    · obtain ⟨h1, h2⟩ := hall2 hnone
      obtain ⟨h3, h4⟩ := hall1 h1
      refine ⟨h3, ?_⟩
      rw [foldl_cons, h2, h4, flatMap_cons, append_assoc]

theorem writeKernelQueue_emits (isDebug : Bool) :
    Emits pmf size (writeKernelQueue pmf size isDebug)
      (fun kq => if kq.isActive then [.mapKernelQueue kq isDebug] else []) := by
  refine emits_of_running (fun w kq h => if_pos h) fun w kq hr hw hfit => ?_
  unfold writeKernelQueue
  rw [if_neg (by simp [hr])]
  split
  · next hactive =>
    rw [if_pos hactive] at hfit
    exact ⟨hw.emit hfit, le_rfl, fun _ => rfl⟩
  · next hactive => exact ⟨hw, by simp, fun _ => by simp⟩

theorem writeQueue_emits (isDebug : Bool) :
    Emits pmf size (writeQueue pmf size isDebug)
      (fun q => if q.isActive then [.mapQueue q isDebug] else []) := by
  refine emits_of_running (fun w q h => if_pos h) fun w q hr hw hfit => ?_
  unfold writeQueue
  rw [if_neg (by simp [hr])]
  split
  · next hactive =>
    rw [if_pos hactive] at hfit
    split
    · exact ⟨⟨hw.wptr, hw.quiet⟩, by simp, fun h => by simp at h⟩
    · exact ⟨hw.emit hfit, le_rfl, fun _ => rfl⟩
  · next hactive => exact ⟨hw, by simp, fun _ => by simp⟩

theorem Emits.andThen {f g : Writer → α → Writer} {outF outG : α → List Packet}
    (hf : Emits pmf size f outF) (hg : Emits pmf size g outG) :
    Emits pmf size (fun w a => g (f w a) a) (fun a => outF a ++ outG a) := by
  intro w a hw hfit
  simp only at hfit ⊢
  rw [← append_assoc, totalBytes_append] at hfit
  obtain ⟨hwF, hleF, hallF⟩ := hf w a hw (by omega)
  obtain ⟨hwG, hleG, hallG⟩ := hg (f w a) a hwF (by rw [totalBytes_append]; omega)
  refine ⟨hwG, ?_, fun hnone => ?_⟩
  · rw [totalBytes_append] at hleG
    rw [← append_assoc, totalBytes_append]
    omega
  · obtain ⟨hnoneF, hpacketsG⟩ := hallG hnone
    obtain ⟨hnone0, hpacketsF⟩ := hallF hnoneF
    refine ⟨hnone0, ?_⟩
    rw [hpacketsG, hpacketsF, append_assoc]

theorem flatMap_ite (p : α → Bool) (g : α → Packet) (l : List α) :
    l.flatMap (fun a => if p a then [g a] else []) = (l.filter p).map g := by
  induction l with
  | nil => rfl
  | cons a l ih =>
    rw [flatMap_cons, ih, filter_cons]
    split <;> simp

theorem writeKernelQueues_emits :
    Emits pmf size
      (fun w qpd => qpd.privQueues.foldl (writeKernelQueue pmf size qpd.isDebug) w)
      (fun qpd : Qpd =>
        (qpd.privQueues.filter (·.isActive)).map (.mapKernelQueue · qpd.isDebug)) := by
  intro w qpd hw hfit
  have h : Emits pmf size _ _ := forEach_spec (writeKernelQueue_emits qpd.isDebug)
  simp only [Emits, flatMap_ite] at h
  exact h w _ hw hfit

theorem writeQueues_emits :
    Emits pmf size (fun w qpd => qpd.queues.foldl (writeQueue pmf size qpd.isDebug) w)
      (fun qpd : Qpd => (qpd.queues.filter (·.isActive)).map (.mapQueue · qpd.isDebug)) := by
  intro w qpd hw hfit
  have h : Emits pmf size _ _ := forEach_spec (writeQueue_emits qpd.isDebug)
  simp only [Emits, flatMap_ite] at h
  exact h w _ hw hfit

theorem writeProcess_emits (dqm : Dqm) :
    Emits pmf size (writeProcess pmf size dqm) processPackets := by
  have hstart : Emits pmf size
      (fun w qpd => { w.emit pmf size (.mapProcess qpd) with
        processesMapped := w.processesMapped + 1 })
      (fun qpd => [.mapProcess qpd]) := fun w qpd hw hfit =>
    ⟨⟨(hw.emit hfit).wptr, (hw.emit hfit).quiet⟩, le_refl _, fun h => ⟨h, rfl⟩⟩
  refine emits_of_running (fun w qpd h => if_pos h) fun w qpd hr hw hfit => ?_
  unfold writeProcess
  rw [if_neg (by simp [hr])]
  split
  · exact ⟨⟨hw.wptr, hw.quiet⟩, by simp, fun h => by simp at h⟩
  · obtain ⟨hok, hle, hpackets⟩ :=
      hstart.andThen (writeKernelQueues_emits.andThen writeQueues_emits) w qpd hw hfit
    exact ⟨hok, hle, fun h => (hpackets h).2⟩

end Writer

/-! ## The size -/

theorem totalBytes_processPackets (pmf : PmFuncs) (qpd : Qpd) :
    totalBytes pmf (processPackets qpd) ≤ pmf.mapProcessSize + qpd.active * pmf.mapQueuesSize := by
  have hmap : ∀ {α : Type} (g : α → Packet) (l : List α),
      (∀ a, (g a).bytes pmf = pmf.mapQueuesSize) →
      totalBytes pmf (l.map g) = l.length * pmf.mapQueuesSize := by
    intro α g l hg
    induction l with
    | nil => simp
    | cons a l ih => rw [map_cons, totalBytes_cons, ih, hg, length_cons]; ring
  have hpriv : (qpd.privQueues.filter (·.isActive)).length ≤ qpd.privQueues.length :=
    length_filter_le _ _
  rw [processPackets, totalBytes_cons, totalBytes_append, hmap _ _ fun _ => rfl,
    hmap _ _ fun _ => rfl, ← add_mul, Qpd.active, countP_eq_length_filter]
  refine Nat.add_le_add_left (Nat.mul_le_mul_right _ ?_) _
  omega

theorem totalBytes_flatMap (pmf : PmFuncs) (queues : List Qpd) :
    totalBytes pmf (queues.flatMap processPackets) ≤
      queues.length * pmf.mapProcessSize + (queues.map Qpd.active).sum * pmf.mapQueuesSize := by
  induction queues with
  | nil => simp
  | cons qpd queues ih =>
    have hqpd := totalBytes_processPackets pmf qpd
    rw [flatMap_cons, totalBytes_append, length_cons, map_cons, sum_cons]
    calc totalBytes pmf (processPackets qpd) + totalBytes pmf (queues.flatMap processPackets)
        ≤ (pmf.mapProcessSize + qpd.active * pmf.mapQueuesSize) +
          (queues.length * pmf.mapProcessSize +
            (queues.map Qpd.active).sum * pmf.mapQueuesSize) := Nat.add_le_add hqpd ih
      _ = _ := by ring

/-- The queue-count invariant of a manager whose process list is `queues`. The
processes have different 16-bit PASIDs. -/
structure ListCounted (dqm : Dqm) (queues : List Qpd) : Prop where
  inv : Inv ⟨dqm, queues⟩
  processes : dqm.processesCount.toNat = queues.length
  pasids : queues.length < 2 ^ 16

variable {dqm : Dqm} {w : Writer}

variable {queues : List Qpd}

theorem rlibSize_eq (pm : PacketManager) (h : ListCounted dqm queues) :
    (rlibSize pm dqm).toNat = queues.length * pm.pmf.mapProcessSize +
      (queues.map Qpd.active).sum * pm.pmf.mapQueuesSize +
      if overSubscription pm dqm then pm.pmf.runlistSize else 0 := by
  have hactive := h.inv.counted.active
  have hprocesses := h.processes
  have hpasids := h.pasids
  have hbound := h.inv.bound
  have hmax := dqm.maxQueues.isLt
  have hle : (queues.map Qpd.active).sum ≤ (queues.map Qpd.live).sum :=
    sum_le_sum fun qpd _ => by
      have := countP_le_length (p := fun q : Queue => q.isActive) (l := qpd.queues)
      simp only [Qpd.active, Qpd.live]
      omega
  simp only at hactive hbound hle
  unfold rlibSize
  cases hpmf : pm.pmf
  all_goals
    split
    all_goals
      simp only [PmFuncs.mapProcessSize, PmFuncs.mapQueuesSize, PmFuncs.runlistSize,
        UInt32.toNat_add, UInt32.toNat_mul, UInt32.toNat_ofNat', hactive, hprocesses]
      omega

/-! ## Success -/

theorem foldl_result {α : Type} {f : Writer → α → Writer} {l : List α}
    (hf : ∀ w : Writer, ∀ a ∈ l, w.result = none →
      (f w a).result = none ∧ (f w a).processesMapped = w.processesMapped) (hw : w.result = none) :
    (l.foldl f w).result = none ∧ (l.foldl f w).processesMapped = w.processesMapped := by
  induction l generalizing w with
  | nil => exact ⟨hw, rfl⟩
  | cons a l ih =>
    obtain ⟨hnone, hmapped⟩ := hf w a mem_cons_self hw
    obtain ⟨hnone', hmapped'⟩ := ih (fun w b hb => hf w b (mem_cons_of_mem a hb)) hnone
    exact ⟨hnone', hmapped'.trans hmapped⟩

theorem writeKernelQueue_result (pmf : PmFuncs) (size : UInt32) (isDebug : Bool) (kq : PrivQueue)
    (hw : w.result = none) :
    (writeKernelQueue pmf size isDebug w kq).result = none ∧
      (writeKernelQueue pmf size isDebug w kq).processesMapped = w.processesMapped := by
  unfold writeKernelQueue
  rw [if_neg (by simp [hw])]
  split
  · exact ⟨hw, rfl⟩
  · exact ⟨hw, rfl⟩

theorem writeQueue_result (pmf : PmFuncs) (size : UInt32) (isDebug : Bool) {q : Queue}
    (hq : q.type ≠ .hiq) (hw : w.result = none) :
    (writeQueue pmf size isDebug w q).result = none ∧
      (writeQueue pmf size isDebug w q).processesMapped = w.processesMapped := by
  unfold writeQueue
  rw [if_neg (by simp [hw]), if_neg hq]
  split
  · exact ⟨hw, rfl⟩
  · exact ⟨hw, rfl⟩

theorem writeProcess_result (pmf : PmFuncs) (size : UInt32) {qpd : Qpd} (hw : w.result = none)
    (hroom : w.processesMapped < dqm.processesCount.toNat)
    (huser : ∀ q ∈ qpd.queues, q.type ≠ .hiq) :
    (writeProcess pmf size dqm w qpd).result = none ∧
      (writeProcess pmf size dqm w qpd).processesMapped = w.processesMapped + 1 := by
  unfold writeProcess
  rw [if_neg (by simp [hw]), if_neg (not_le.mpr hroom)]
  have hkernel := foldl_result (f := writeKernelQueue pmf size qpd.isDebug) (l := qpd.privQueues)
    (w := { w.emit pmf size (.mapProcess qpd) with processesMapped := w.processesMapped + 1 })
    (fun _ kq _ hw => writeKernelQueue_result pmf size qpd.isDebug kq hw) hw
  have hqueue := foldl_result (f := writeQueue pmf size qpd.isDebug) (l := qpd.queues)
    (fun _ q hq hw => writeQueue_result pmf size qpd.isDebug (huser q hq) hw) hkernel.1
  exact ⟨hqueue.1, hqueue.2.trans hkernel.2⟩

theorem writeProcesses_result (pmf : PmFuncs) (size : UInt32)
    (huser : ∀ qpd ∈ queues, ∀ q ∈ qpd.queues, q.type ≠ .hiq) (hw : w.result = none)
    (hroom : w.processesMapped + queues.length ≤ dqm.processesCount.toNat) :
    (queues.foldl (writeProcess pmf size dqm) w).result = none := by
  induction queues generalizing w with
  | nil => exact hw
  | cons qpd queues ih =>
    rw [length_cons] at hroom
    have hlt : w.processesMapped < dqm.processesCount.toNat := by omega
    obtain ⟨hnone, hmapped⟩ := writeProcess_result pmf size hw hlt (huser qpd mem_cons_self)
    rw [foldl_cons]
    exact ih (fun p hp => huser p (mem_cons_of_mem qpd hp)) hnone (by omega)

/-! ## The run list -/

theorem writeProcesses_spec (pm : PacketManager) (h : ListCounted dqm queues)
    (hw : queues.foldl (writeProcess pm.pmf (rlibSize pm dqm) dqm) .start = w) :
    w.warned = false ∧
      totalBytes pm.pmf w.packets + (if overSubscription pm dqm then pm.pmf.runlistSize else 0) ≤
        (rlibSize pm dqm).toNat ∧
      (w.result = none → w.packets = queues.flatMap processPackets) := by
  subst hw
  have hsize := rlibSize_eq pm h
  have hbytes := totalBytes_flatMap pm.pmf queues
  have hemits : Emits pm.pmf (rlibSize pm dqm) _ _ := forEach_spec (writeProcess_emits dqm)
  obtain ⟨hok, hle, hall⟩ := hemits .start queues ⟨rfl, rfl⟩ (by
    simp only [Writer.start, nil_append]
    omega)
  simp only [Writer.start, nil_append] at hle hall
  refine ⟨hok.quiet, ?_, fun hnone => (hall hnone).2⟩
  simp only [Writer.start]
  omega

/-- The packets that `pm_create_runlist_ib` writes take no more bytes than
`pm_calc_rlib_size` computes and `inc_wptr` does not warn, whether the run list
is completed or not. When no error is returned they are the packets of the
active queues, grouped under their process, and the chain packet when the device
is oversubscribed. Once the buffer is allocated there is no error. -/
theorem runlist_fits (pm : PacketManager) (gttAlloc : Option Errno) (ib : Nat) (dqm : Dqm)
    (queues : List Qpd) (h : ListCounted dqm queues) :
    let w := pmCreateRunlistIb pm gttAlloc ib dqm queues
    w.warned = false ∧ totalBytes pm.pmf w.packets ≤ (rlibSize pm dqm).toNat ∧
      (w.result = none → w.packets = runlistPackets pm dqm queues) ∧
      (pm.allocated = false → gttAlloc = none → ib ≠ 0 →
        (∀ qpd ∈ queues, ∀ q ∈ qpd.queues, q.type ≠ .hiq) → w.result = none) := by
  unfold pmCreateRunlistIb
  cases hallocated : pm.allocated with
  | true => simp [Writer.start]
  | false =>
    cases gttAlloc with
    | some e => simp [Writer.start]
    | none =>
      simp only [Bool.false_eq_true, if_false]
      generalize hw : queues.foldl (writeProcess pm.pmf (rlibSize pm dqm) dqm) _ = w
      obtain ⟨hquiet, hbytes, hall⟩ := writeProcesses_spec pm h hw
      have hnone : (∀ qpd ∈ queues, ∀ q ∈ qpd.queues, q.type ≠ .hiq) → w.result = none := by
        intro huser
        rw [← hw]
        exact writeProcesses_result pm.pmf _ huser rfl (by simp [Writer.start, h.processes])
      unfold runlistPackets
      split
      · next hsome => exact ⟨hquiet, by omega, fun h => by simp [h] at hsome, fun _ _ _ => hnone⟩
      · next hresult =>
        have hresult : w.result = none := by simpa using hresult
        split
        · next hover =>
          rw [if_pos hover] at hbytes
          split
          · next hvi =>
            refine ⟨hquiet, ?_, fun h => by simp at h, fun _ _ hib => absurd hvi.2 hib⟩
            exact (Nat.le_add_right _ _).trans hbytes
          · refine ⟨hquiet, ?_, fun _ => ?_, fun _ _ _ => hnone⟩
            · rw [totalBytes_append, totalBytes_cons, totalBytes_nil]
              exact hbytes
            · rw [hall hresult]
        · exact ⟨hquiet, by omega, fun h => by rw [hall h, append_nil], fun _ _ _ => hnone⟩

def exTwoProcesses : List Op :=
  [.start .good,
    .newProcess true, .proc 0 (.register true),
    .proc 0 (.createQueue .good none false .compute 4096 0x1000 100),
    .newProcess true, .proc 1 (.register true),
    .proc 1 (.createQueue .good none false .sdma 4096 0x1000 100)]

def exPm : PacketManager :=
  { pmf := .v9, allocated := false, cpQueuesNum := 24, maxProcPerQuantum := 1 }

theorem runlist_fits_exTwoProcesses :
    let s := run step (init false 127) exTwoProcesses
    let w := pmCreateRunlistIb exPm none 0x1000 s.dqm s.qpds
    w.packets.length = 5 ∧ w.result = none ∧ w.packets = runlistPackets exPm s.dqm s.qpds ∧
      totalBytes .v9 w.packets ≤ (rlibSize exPm s.dqm).toNat := by
  have hinv : Inv (run step (init false 127) exTwoProcesses) :=
    run_inv_of_stepsOk step_inv (init_inv false 127) (by decide)
  have hfits := runlist_fits exPm none 0x1000 _ _ ⟨hinv, by decide, by decide⟩
  have hresult := hfits.2.2.2 rfl rfl (by decide) (by decide)
  exact ⟨by decide, hresult, hfits.2.2.1 hresult, hfits.2.1⟩

end Amdkfd.QueueManager
