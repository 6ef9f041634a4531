import Amdkfd.Lib.Run
import Amdkfd.Mes.Operations

/-!
# The books of the MES

The id maps and the lists of the MES hold exactly the live objects after every sequence of
operations, and a failed operation changes nothing. The bitmap of the doorbells is exact as long as
no process is destroyed while it has queues: `amdgpu_mes_destroy_process` takes their ids and frees
them, but leaves their doorbells set.
-/

namespace Amdkfd.Mes

open Function Lib List

/-! ## The promise -/

def InUse (cfg : Config) (m : AmdgpuMes) (doorbell : Nat) : Prop :=
  doorbell ∈ aggregatedDoorbells cfg ∨
    ∃ a queue, m.queues a = some queue ∧ queue.doorbellOff = doorbell

def Distinct (queues : Nat → Option Queue) : Prop :=
  ∀ a b q r, queues a = some q → queues b = some r → q.doorbellOff = r.doorbellOff → a = b

/-- The books are right: links, distinct doorbells, and exactly their bits set. -/
structure Books (cfg : Config) (m : AmdgpuMes) : Prop extends Linked m where
  distinct : Distinct m.queues
  bitmap : ∀ i, i ∈ m.doorbellBitmap ↔ ∃ doorbell, InUse cfg m doorbell ∧ relIndex cfg doorbell = i

/-! ## The doorbells of the live queues -/

/-- The bits of the aggregated doorbells and of the live queues are set, and no two are one. -/
structure Held (cfg : Config) (queues : Nat → Option Queue) (map : Bitmap) : Prop where
  aggregated : ∀ i < priorityNumLevels, i ∈ map
  live : ∀ a queue, queues a = some queue → ∃ i, priorityNumLevels ≤ i ∧ i < cfg.numMesDbs ∧
    i ∈ map ∧ queue.doorbellOff = doorbellIndex cfg i
  distinct : Distinct queues

def Exact (cfg : Config) (queues : Nat → Option Queue) (map : Bitmap) : Prop :=
  ∀ i ∈ map, i < priorityNumLevels ∨
    ∃ a queue, queues a = some queue ∧ relIndex cfg queue.doorbellOff = i

section
variable {cfg : Config} {queues : Nat → Option Queue} {map : Bitmap} {a b : Nat} {q r : Queue}

section
variable (h : Held cfg queues map)
include h

theorem Held.bit_inj (ha : queues a = some q) (hb : queues b = some r)
    (hbit : relIndex cfg q.doorbellOff = relIndex cfg r.doorbellOff) : a = b := by
  obtain ⟨i, -, hi, -, hqi⟩ := h.live a q ha
  obtain ⟨j, -, hj, -, hrj⟩ := h.live b r hb
  rw [hqi, hrj, relIndex_doorbellIndex hi, relIndex_doorbellIndex hj] at hbit
  exact h.distinct a b q r ha hb (by rw [hqi, hrj, hbit])

theorem Held.bit_live (ha : queues a = some q) :
    priorityNumLevels ≤ relIndex cfg q.doorbellOff ∧ relIndex cfg q.doorbellOff ∈ map := by
  obtain ⟨i, hge, hlt, hmem, hoff⟩ := h.live a q ha
  rw [hoff, relIndex_doorbellIndex hlt]
  exact ⟨hge, hmem⟩

theorem Held.add {found : Nat} (hlt : found < cfg.numMesDbs) (hclear : found ∉ map)
    (hq : q.doorbellOff = doorbellIndex cfg found) :
    Held cfg (update queues a (some q)) (insert found map) := by
  have hbit : relIndex cfg q.doorbellOff = found := by rw [hq, relIndex_doorbellIndex hlt]
  have hother : ∀ {c r}, queues c = some r → q.doorbellOff ≠ r.doorbellOff := by
    intro c r hc heq
    have hmem := (h.bit_live hc).2
    rw [← heq, hbit] at hmem
    exact hclear hmem
  have hsplit : ∀ {c r}, update queues a (some q) c = some r →
      (c = a ∧ r = q) ∨ (c ≠ a ∧ queues c = some r) := by
    intro c r hc
    by_cases hca : c = a
    · subst hca
      exact .inl ⟨rfl, by simpa using hc.symm⟩
    · exact .inr ⟨hca, by rwa [update_of_ne hca] at hc⟩
  refine ⟨fun i hi => Finset.mem_insert_of_mem (h.aggregated i hi), fun c r hc => ?_,
    fun c d r s hc hd heq => ?_⟩
  · rcases hsplit hc with ⟨-, rfl⟩ | ⟨-, hc⟩
    · refine ⟨found, ?_, hlt, Finset.mem_insert_self .., hq⟩
      by_contra hsmall
      exact hclear (h.aggregated found (by omega))
    · obtain ⟨i, hge, hi, hmem, hoff⟩ := h.live c r hc
      exact ⟨i, hge, hi, Finset.mem_insert_of_mem hmem, hoff⟩
  · rcases hsplit hc with ⟨hca, rfl⟩ | ⟨-, hc'⟩ <;> rcases hsplit hd with ⟨hda, rfl⟩ | ⟨-, hd'⟩
    · rw [hca, hda]
    · exact absurd heq (hother hd')
    · exact absurd heq.symm (hother hc')
    · exact h.distinct c d r s hc' hd' heq

theorem Held.remove (ha : queues a = some q) :
    Held cfg (update queues a none) (mesKernelDoorbellFree cfg q.doorbellOff map) := by
  have hsub : ∀ {c r}, update queues a none c = some r → c ≠ a ∧ queues c = some r := by
    intro c r hc
    by_cases hca : c = a
    · subst hca
      rw [update_self] at hc
      cases hc
    · exact ⟨hca, by rwa [update_of_ne hca] at hc⟩
  refine ⟨fun i hi => Finset.mem_erase.mpr ⟨?_, h.aggregated i hi⟩, fun c r hc => ?_,
    fun c d r s hc hd heq => h.distinct c d r s (hsub hc).2 (hsub hd).2 heq⟩
  · have hge := (h.bit_live ha).1
    omega
  · obtain ⟨hca, hc⟩ := hsub hc
    obtain ⟨i, hge, hi, hmem, hoff⟩ := h.live c r hc
    refine ⟨i, hge, hi, Finset.mem_erase.mpr ⟨fun hbit => hca ?_, hmem⟩, hoff⟩
    refine h.bit_inj hc ha ?_
    rw [hoff, relIndex_doorbellIndex hi, hbit]

theorem Held.freeAll (as : List Nat) : Held cfg (freeAll as queues) map :=
  ⟨h.aggregated, fun c r hc => h.live c r (freeAll_some.mp hc).2,
    fun c d r s hc hd heq =>
      h.distinct c d r s (freeAll_some.mp hc).2 (freeAll_some.mp hd).2 heq⟩

end

theorem Exact.add (h : Exact cfg queues map) {found : Nat} (hlt : found < cfg.numMesDbs)
    (ha : queues a = none) (hq : q.doorbellOff = doorbellIndex cfg found) :
    Exact cfg (update queues a (some q)) (insert found map) := by
  intro i hi
  rcases Finset.mem_insert.mp hi with rfl | hi
  · exact .inr ⟨a, q, update_self .., by rw [hq, relIndex_doorbellIndex hlt]⟩
  · refine (h i hi).imp id ?_
    rintro ⟨c, r, hc, hbit⟩
    refine ⟨c, r, ?_, hbit⟩
    rwa [update_of_ne]
    rintro rfl
    rw [ha] at hc
    cases hc

theorem Exact.remove (h : Exact cfg queues map) (ha : queues a = some q) :
    Exact cfg (update queues a none) (mesKernelDoorbellFree cfg q.doorbellOff map) := by
  intro i hi
  obtain ⟨hne, hi⟩ := Finset.mem_erase.mp hi
  refine (h i hi).imp id ?_
  rintro ⟨c, r, hc, hbit⟩
  refine ⟨c, r, ?_, hbit⟩
  rwa [update_of_ne]
  rintro rfl
  rw [ha] at hc
  cases hc
  exact hne hbit.symm

theorem exact_freeAll_iff (hheld : Held cfg queues map) (h : Exact cfg queues map) {as : List Nat}
    (hlive : ∀ a ∈ as, ∃ q, queues a = some q) : Exact cfg (freeAll as queues) map ↔ as = [] := by
  constructor
  · intro hexact
    refine eq_nil_iff_forall_not_mem.mpr fun a ha => ?_
    obtain ⟨q, hq⟩ := hlive a ha
    obtain ⟨hge, hmem⟩ := hheld.bit_live hq
    rcases hexact _ hmem with hlt | ⟨c, r, hc, hbit⟩
    · omega
    · obtain ⟨hfree, hc⟩ := freeAll_some.mp hc
      rw [hheld.bit_inj hc hq hbit] at hfree
      exact hfree ha
  · rintro rfl
    exact h

end

/-! ## What every operation keeps -/

/-- The links, the doorbells, and that nothing lives where the next object goes. -/
structure Inv (cfg : Config) (m : AmdgpuMes) : Prop extends Linked m where
  processesBelow : Below m.next m.processes
  gangsBelow : Below m.next m.gangs
  queuesBelow : Below m.next m.queues
  held : Held cfg m.queues m.doorbellBitmap

section
variable {cfg : Config} {m : AmdgpuMes}

theorem Inv.init (cfg : Config) : Inv cfg init :=
  { pasids := .empty
    gangIds := .empty
    queueIds := .empty
    gangLists := .empty
    queueLists := .empty
    processesBelow := fun _ _ => rfl
    gangsBelow := fun _ _ => rfl
    queuesBelow := fun _ _ => rfl
    held := ⟨fun _ hi => mem_mesDoorbellInit.mpr hi, nofun, nofun⟩ }

section
variable (h : Inv cfg m)
include h

theorem Inv.createProcess (ans : Answers) (pasid : Int) :
    Inv cfg (mesCreateProcess cfg ans pasid m).1 := by
  rcases mesCreateProcess_cases cfg ans m pasid with
    ⟨e, he⟩ | ⟨process, hid, hlist, heq⟩
  · rw [he]
    exact h
  · have hnew := h.processesBelow m.next le_rfl
    rw [heq]
    exact
      { pasids := h.pasids.add hnew hid
        gangIds := h.gangIds
        queueIds := h.queueIds
        gangLists := h.gangLists.addParent hnew hlist
        queueLists := h.queueLists
        processesBelow := h.processesBelow.add _
        gangsBelow := h.gangsBelow.succ
        queuesBelow := h.queuesBelow.succ
        held := h.held }

theorem Inv.addGang (ans : Answers) (pasid : Int) (gprops : GangProperties) :
    Inv cfg (mesAddGang cfg ans pasid gprops m).1 := by
  rcases mesAddGang_cases cfg ans m pasid gprops with
    ⟨e, he⟩ | ⟨gang, process, hp, hid, hlist, heq⟩
  · rw [he]
    exact h
  · have hnew := h.gangsBelow m.next le_rfl
    rw [heq]
    exact
      { pasids := h.pasids.modify hp rfl
        gangIds := h.gangIds.add hnew hid
        queueIds := h.queueIds
        gangLists := h.gangLists.addKid hnew hp rfl
        queueLists := h.queueLists.addParent hnew hlist
        processesBelow := (h.processesBelow.change hp _).succ
        gangsBelow := h.gangsBelow.add _
        queuesBelow := h.queuesBelow.succ
        held := h.held }

theorem Inv.removeGang (gangId : Int) : Inv cfg (mesRemoveGang gangId m).1 := by
  rcases mesRemoveGang_cases h.toLinked gangId with
    ⟨e, he⟩ | ⟨a, gang, process, ha, hlist, hp, heq⟩
  · rw [he]
    exact h
  · have hqueues := h.queueLists.removeParent ha
    rw [hlist] at hqueues
    rw [heq]
    exact
      { pasids := h.pasids.modify hp rfl
        gangIds := h.gangIds.remove ha
        queueIds := h.queueIds
        gangLists := h.gangLists.removeKid ha hp rfl
        queueLists := hqueues
        processesBelow := h.processesBelow.change hp _
        gangsBelow := h.gangsBelow.change ha _
        queuesBelow := h.queuesBelow
        held := h.held }

theorem Inv.addHwQueue (ans : Answers) (gangId : Int) (qprops : QueueProperties) :
    Inv cfg (mesAddHwQueue cfg ans gangId qprops m).1 := by
  rcases mesAddHwQueue_cases cfg ans m gangId qprops with
    ⟨e, he⟩ | ⟨queue, gang, found, hg, hid, hlt, hclear, hoff, heq⟩
  · rw [he]
    exact h
  · have hnew := h.queuesBelow m.next le_rfl
    rw [heq]
    exact
      { pasids := h.pasids
        gangIds := h.gangIds.modify hg rfl
        queueIds := h.queueIds.add hnew hid
        gangLists := h.gangLists.modifyKid hg rfl
        queueLists := h.queueLists.addKid hnew hg rfl
        processesBelow := h.processesBelow.succ
        gangsBelow := (h.gangsBelow.change hg _).succ
        queuesBelow := h.queuesBelow.add _
        held := h.held.add hlt hclear hoff }

theorem Inv.removeHwQueue (queueId : Int) : Inv cfg (mesRemoveHwQueue cfg queueId m).1 := by
  rcases mesRemoveHwQueue_cases cfg h.toLinked queueId with
    ⟨e, he⟩ | ⟨a, queue, gang, ha, hg, heq⟩
  · rw [he]
    exact h
  · rw [heq]
    exact
      { pasids := h.pasids
        gangIds := h.gangIds.modify hg rfl
        queueIds := h.queueIds.remove ha
        gangLists := h.gangLists.modifyKid hg rfl
        queueLists := h.queueLists.removeKid ha hg rfl
        processesBelow := h.processesBelow
        gangsBelow := h.gangsBelow.change hg _
        queuesBelow := h.queuesBelow.change ha _
        held := h.held.remove ha }

theorem Inv.destroyProcess (pasid : Int) : Inv cfg (mesDestroyProcess pasid m) := by
  cases hfind : find m.pasidIdr m.processes pasid with
  | none =>
    rw [mesDestroyProcess, hfind]
    exact h
  | some found =>
    obtain ⟨p, process⟩ := found
    have hp := (find_some hfind).2
    rw [mesDestroyProcess_eq h.toLinked hfind]
    exact
      { pasids := h.pasids.remove hp
        gangIds := h.gangIds.removeAll _
        queueIds := h.queueIds.removeAll _
        gangLists := h.gangLists.removeParent hp
        queueLists := h.queueLists.removeParents _
        processesBelow := h.processesBelow.change hp _
        gangsBelow := h.gangsBelow.freeAll _
        queuesBelow := h.queuesBelow.freeAll _
        held := h.held.freeAll _ }

theorem Inv.step (op : Op) : Inv cfg (step cfg m op) := by
  cases op with
  | createProcess ans pasid => exact h.createProcess ans pasid
  | destroyProcess pasid => exact h.destroyProcess pasid
  | addGang ans pasid gprops => exact h.addGang ans pasid gprops
  | removeGang gangId => exact h.removeGang gangId
  | addHwQueue ans gangId qprops => exact h.addHwQueue ans gangId qprops
  | removeHwQueue queueId => exact h.removeHwQueue queueId

end

/-- Also where processes go that have queues. -/
theorem linked_run (cfg : Config) (ops : List Op) :
    let m := run (Mes.step cfg) Mes.init ops
    Linked m ∧ Held cfg m.queues m.doorbellBitmap := by
  have h : Inv cfg (run (Mes.step cfg) Mes.init ops) :=
    run_inv (fun _ op h => h.step op) (Inv.init cfg) ops
  exact ⟨h.toLinked, h.held⟩

theorem books_iff (h : Inv cfg m) : Books cfg m ↔ Exact cfg m.queues m.doorbellBitmap := by
  have hagg : ∀ i < priorityNumLevels, InUse cfg m (doorbellIndex cfg i) :=
    fun i hi => .inl (mem_map.mpr ⟨i, mem_range.mpr hi, rfl⟩)
  have hlevels := priorityNumLevels_lt cfg
  constructor
  · intro hbooks i hi
    obtain ⟨d, hd | ⟨a, q, hq, rfl⟩, hbit⟩ := (hbooks.bitmap i).mp hi
    · obtain ⟨j, hj, rfl⟩ := mem_map.mp hd
      have hj := mem_range.mp hj
      rw [relIndex_doorbellIndex (by omega)] at hbit
      exact .inl (by omega)
    · exact .inr ⟨a, q, hq, hbit⟩
  · intro hexact
    refine { h.toLinked with distinct := h.held.distinct, bitmap := fun i => ⟨fun hi => ?_, ?_⟩ }
    · rcases hexact i hi with hlt | ⟨a, q, hq, hbit⟩
      · exact ⟨_, hagg i hlt, relIndex_doorbellIndex (by omega)⟩
      · exact ⟨_, .inr ⟨a, q, hq, rfl⟩, hbit⟩
    · rintro ⟨d, hd | ⟨a, q, hq, rfl⟩, rfl⟩
      · obtain ⟨j, hj, rfl⟩ := mem_map.mp hd
        have hj := mem_range.mp hj
        rw [relIndex_doorbellIndex (by omega)]
        exact h.held.aggregated j hj
      · exact (h.held.bit_live hq).2

end

/-! ## Runs -/

def queuesOf (m : AmdgpuMes) (pasid : Int) : List Nat :=
  match find m.pasidIdr m.processes pasid with
  | none => []
  | some (_, process) => process.gangList.flatMap (listOf m.gangs Gang.queueList)

def Emptied (m : AmdgpuMes) : Op → Prop
  | .destroyProcess pasid => queuesOf m pasid = []
  | _ => True

instance (m : AmdgpuMes) : ∀ op, Decidable (Emptied m op)
  | .destroyProcess pasid => inferInstanceAs (Decidable (queuesOf m pasid = []))
  | .createProcess .. | .addGang .. | .removeGang .. | .addHwQueue .. | .removeHwQueue .. =>
    isTrue trivial

theorem exec_error (cfg : Config) (m : AmdgpuMes) (h : Linked m) (op : Op) (e : Errno)
    (herr : (exec cfg m op).2 = .error e) : step cfg m op = m := by
  unfold step
  cases op with
  | createProcess ans pasid =>
    rcases mesCreateProcess_cases cfg ans m pasid with
      ⟨e, he⟩ | ⟨process, hid, hlist, heq⟩
    · simp [exec, he]
    · simp [exec, heq, Except.map] at herr
  | destroyProcess pasid => simp [exec] at herr
  | addGang ans pasid gprops =>
    rcases mesAddGang_cases cfg ans m pasid gprops with
      ⟨e, he⟩ | ⟨gang, process, hp, hid, hlist, heq⟩
    · simp [exec, he]
    · simp [exec, heq] at herr
  | removeGang gangId =>
    rcases mesRemoveGang_cases h gangId with ⟨e, he⟩ | ⟨a, gang, process, ha, hlist, hp, heq⟩
    · simp [exec, he]
    · simp [exec, heq, Except.map] at herr
  | addHwQueue ans gangId qprops =>
    rcases mesAddHwQueue_cases cfg ans m gangId qprops with
      ⟨e, he⟩ | ⟨queue, gang, found, hg, hid, hlt, hclear, hoff, heq⟩
    · simp [exec, he]
    · simp [exec, heq] at herr
  | removeHwQueue queueId =>
    rcases mesRemoveHwQueue_cases cfg h queueId with
      ⟨e, he⟩ | ⟨a, queue, gang, ha, hg, heq⟩
    · simp [exec, he]
    · simp [exec, heq, Except.map] at herr

theorem exact_step_iff {cfg : Config} {m : AmdgpuMes} (h : Inv cfg m)
    (hexact : Exact cfg m.queues m.doorbellBitmap) (op : Op) :
    Exact cfg (step cfg m op).queues (step cfg m op).doorbellBitmap ↔ Emptied m op := by
  unfold step
  cases op with
  | createProcess ans pasid =>
    refine iff_of_true ?_ trivial
    dsimp only [exec]
    rcases mesCreateProcess_cases cfg ans m pasid with
      ⟨e, he⟩ | ⟨process, hid, hlist, heq⟩
    · rwa [he]
    · rwa [heq]
  | destroyProcess pasid =>
    dsimp only [exec, Emptied]
    unfold queuesOf
    cases hfind : find m.pasidIdr m.processes pasid with
    | none =>
      rw [mesDestroyProcess, hfind]
      exact iff_of_true hexact rfl
    | some found =>
      obtain ⟨p, process⟩ := found
      rw [mesDestroyProcess_eq h.toLinked hfind]
      refine exact_freeAll_iff h.held hexact fun q hq => ?_
      obtain ⟨a, -, hmem⟩ := mem_flatMap.mp hq
      obtain ⟨gang, hg, hmem⟩ := mem_listOf.mp hmem
      obtain ⟨queue, hqueue, -⟩ := h.queueLists.live a gang hg q hmem
      exact ⟨queue, hqueue⟩
  | addGang ans pasid gprops =>
    refine iff_of_true ?_ trivial
    dsimp only [exec]
    rcases mesAddGang_cases cfg ans m pasid gprops with
      ⟨e, he⟩ | ⟨gang, process, hp, hid, hlist, heq⟩
    · rwa [he]
    · rwa [heq]
  | removeGang gangId =>
    refine iff_of_true ?_ trivial
    dsimp only [exec]
    rcases mesRemoveGang_cases h.toLinked gangId with
      ⟨e, he⟩ | ⟨a, gang, process, ha, hlist, hp, heq⟩
    · rwa [he]
    · rwa [heq]
  | addHwQueue ans gangId qprops =>
    refine iff_of_true ?_ trivial
    dsimp only [exec]
    rcases mesAddHwQueue_cases cfg ans m gangId qprops with
      ⟨e, he⟩ | ⟨queue, gang, found, hg, hid, hlt, hclear, hoff, heq⟩
    · rwa [he]
    · rw [heq]
      exact hexact.add hlt (h.queuesBelow m.next le_rfl) hoff
  | removeHwQueue queueId =>
    refine iff_of_true ?_ trivial
    dsimp only [exec]
    rcases mesRemoveHwQueue_cases cfg h.toLinked queueId with
      ⟨e, he⟩ | ⟨a, queue, gang, ha, hg, heq⟩
    · rwa [he]
    · rw [heq]
      exact hexact.remove ha

/-- In every state of a run the books are right and a failed operation changes nothing, exactly
when no process is destroyed that still has a queue. -/
theorem books_iff_emptied (cfg : Config) (ops : List Op) :
    (∀ n, Books cfg (run (step cfg) init (ops.take n)) ∧
      ∀ op e, (exec cfg (run (step cfg) init (ops.take n)) op).2 = .error e →
        step cfg (run (step cfg) init (ops.take n)) op = run (step cfg) init (ops.take n)) ↔
    StepsOk (step cfg) Emptied init ops := by
  have hinv : ∀ n, Inv cfg (run (step cfg) init (ops.take n)) :=
    fun n => run_inv (fun m op h => h.step op) (Inv.init cfg) (ops.take n)
  have hexact0 : Exact cfg init.queues init.doorbellBitmap :=
    fun i hi => .inl (mem_mesDoorbellInit.mp hi)
  have hiff : _ ↔ StepsOk (step cfg) Emptied init ops := stepsOk_iff_take
    (P := fun m => Inv cfg m ∧ Exact cfg m.queues m.doorbellBitmap)
    (fun m op h => by
      rw [← exact_step_iff h.1 h.2 op]
      exact and_iff_right (h.1.step op))
    ⟨Inv.init cfg, hexact0⟩ ops
  rw [← hiff]
  refine forall_congr' fun n => ?_
  rw [and_iff_right (hinv n), ← books_iff (hinv n)]
  exact and_iff_left fun op e => exec_error cfg _ (hinv n).toLinked op e

/-! ## A process that goes with its queue -/

theorem exPageShift_ge : 12 ≤ 12 := by decide

theorem exPageShift_le : 12 ≤ 16 := by decide

def exConfig : Config :=
  { dbStartDwOffset := 0x100
    pageShift := 12
    pageShift_ge := exPageShift_ge
    pageShift_le := exPageShift_le
    sdmaEngine0 := 0x100
    defaultProcessQuantum := 1000
    defaultGangQuantum := 1000 }

def exAnswers : Answers := ⟨true, none, true, none⟩

def exOps : List Op :=
  [.createProcess exAnswers 7, .addGang exAnswers 7 ⟨0, 0, 0, 0⟩,
    .addHwQueue exAnswers 1 ⟨.compute, 0, false⟩, .destroyProcess 7]

/-- The bit of the queue's doorbell stays set. -/
theorem books_broken :
    ¬ ∀ (cfg : Config) (ops : List Op) (n : Nat), Books cfg (run (step cfg) init (ops.take n)) := by
  intro h
  have hinv : Inv exConfig (run (step exConfig) init exOps) :=
    run_inv (fun m op h => h.step op) (Inv.init exConfig) exOps
  have hexact := (books_iff hinv).mp (h exConfig exOps 4)
  have hset : 5 ∈ (run (step exConfig) init exOps).doorbellBitmap := by decide
  have hnext : (run (step exConfig) init exOps).next = 3 := by decide
  have hgone : ∀ a < 3, (run (step exConfig) init exOps).queues a = none := by decide
  rcases hexact 5 hset with hlt | ⟨a, q, hq, -⟩
  · exact absurd hlt (by decide)
  · have hnone : (run (step exConfig) init exOps).queues a = none := by
      by_cases ha : a < 3
      · exact hgone a ha
      · exact hinv.queuesBelow a (by omega)
    rw [hnone] at hq
    cases hq

end Amdkfd.Mes
