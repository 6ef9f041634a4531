import Amdkfd.Mes.Model

/-!
# What the operations of the MES do

One lemma for each operation: it fails and changes nothing, or it adds or removes one object with
its id, its place on a list and its doorbell. Destroying a process is the exception: it tears down
all gangs and queues under it in two passes of its own.
-/

namespace Amdkfd.Mes

open Function Lib List

/-- The id maps hold exactly the live objects, and every gang and queue is on its list. -/
structure Linked (m : AmdgpuMes) : Prop where
  pasids : Indexed m.pasidIdr m.processes Process.pasid
  gangIds : Indexed m.gangIdIdr m.gangs Gang.gangId
  queueIds : Indexed m.queueIdIdr m.queues Queue.queueId
  gangLists : Nested m.processes Process.gangList m.gangs Gang.process
  queueLists : Nested m.gangs Gang.queueList m.queues Queue.gang

/-! ## Doorbells -/

section
variable {cfg : Config} {i j : Nat}

theorem numMesDbs_le (cfg : Config) : cfg.numMesDbs ≤ 8192 := by
  have h : 2 ^ cfg.pageShift ≤ 2 ^ 16 := Nat.pow_le_pow_right (by omega) cfg.pageShift_le
  unfold Config.numMesDbs
  omega

theorem priorityNumLevels_lt (cfg : Config) : priorityNumLevels < cfg.numMesDbs := by
  have h : 2 ^ 12 ≤ 2 ^ cfg.pageShift := Nat.pow_le_pow_right (by omega) cfg.pageShift_ge
  unfold Config.numMesDbs priorityNumLevels
  omega

theorem relIndex_doorbellIndex (h : i < cfg.numMesDbs) :
    relIndex cfg (doorbellIndex cfg i) = i := by
  have hle := numMesDbs_le cfg
  have hstart := cfg.dbStartDwOffset.toNat_lt
  unfold relIndex doorbellIndex
  omega

theorem mem_mesDoorbellInit : i ∈ mesDoorbellInit ↔ i < priorityNumLevels := by
  have h : mesDoorbellInit = Finset.range priorityNumLevels := by decide
  rw [h, Finset.mem_range]

theorem mesKernelDoorbellGet_ok {ipType : RingType} {map map' : Bitmap} {off : Nat}
    (h : mesKernelDoorbellGet cfg ipType map = .ok (off, map')) :
    ∃ found < cfg.numMesDbs, found ∉ map ∧ off = doorbellIndex cfg found ∧
      map' = insert found map := by
  unfold mesKernelDoorbellGet at h
  dsimp only at h
  generalize (if ipType = .sdma then cfg.sdmaEngine0 else 0) = offset at h
  split at h
  · cases h
  · next hlt =>
    cases h
    exact ⟨_, by omega, findNextZeroBit_clear (by omega), rfl, rfl⟩

end

/-! ## Ids -/

section
variable {β : Type} {idr : Nat → Option Nat} {heap : Nat → Option β} {key : β → Nat} {id a : Nat}
  {b : β}

theorem idrAllocAt_ok {memory : Bool} {pasid : Int} (h : idrAllocAt memory idr pasid = .ok id) :
    idr id = none := by
  unfold idrAllocAt at h
  split_ifs at h with h1 h2 h3
  cases h
  simpa using h3

theorem idrAlloc_ok {memory : Bool} (h : idrAlloc memory idr = .ok id) : idr id = none := by
  unfold idrAlloc at h
  split at h
  · cases h
  · split at h
    · cases h
    · next hfind =>
      cases h
      simpa using find?_some hfind

theorem find_some {i : Int} (h : find idr heap i = some (a, b)) :
    idr i.toNat = some a ∧ heap a = some b := by
  obtain ⟨a', ha', hb⟩ := Option.bind_eq_some_iff.mp h
  obtain ⟨b', hb', heq⟩ := Option.map_eq_some_iff.mp hb
  cases heq
  refine ⟨?_, hb'⟩
  unfold idrFind at ha'
  split at ha'
  · cases ha'
  · exact ha'

theorem find_key (hidr : Indexed idr heap key) {i : Int} (h : find idr heap i = some (a, b)) :
    key b = i.toNat := by
  obtain ⟨hid, hb⟩ := find_some h
  obtain ⟨b', hb', hkey⟩ := (hidr _ _).mp hid
  rw [hb] at hb'
  cases hb'
  exact hkey

theorem modifyAt_some (h : heap a = some b) (f : β → β) :
    modifyAt heap a f = update heap a (some (f b)) := by
  rw [modifyAt, h]
  rfl

end

/-! ## The teardown of a process -/

theorem unlinkQueues_eq (qs : List Nat) (m : AmdgpuMes) :
    qs.foldl unlinkQueue m =
      { m with queueIdIdr := unindex m.queues Queue.queueId qs m.queueIdIdr } := by
  induction qs generalizing m with
  | nil => rfl
  | cons q qs ih =>
    rw [foldl_cons, ih, unlinkQueue]
    cases hq : m.queues q with
    | none => simp [unindex, hq]
    | some queue => simp [unindex, hq]

theorem unlinkGangs_eq (gs : List Nat) (m : AmdgpuMes) :
    gs.foldl unlinkGang m =
      { m with
        gangIdIdr := unindex m.gangs Gang.gangId gs m.gangIdIdr
        queueIdIdr := unindex m.queues Queue.queueId
          (gs.flatMap (listOf m.gangs Gang.queueList)) m.queueIdIdr } := by
  induction gs generalizing m with
  | nil => rfl
  | cons a gs ih =>
    rw [foldl_cons, ih, flatMap_cons, unindex_append, unlinkGang]
    cases ha : m.gangs a with
    | none => simp [unindex, listOf, ha]
    | some gang =>
      dsimp only
      rw [unlinkQueues_eq, listOf_some ha]
      simp [unindex, ha]

theorem freeQueues_eq (a : Nat) (qs : List Nat) (m : AmdgpuMes) :
    ∃ o, qs.foldl (freeQueue a) m =
      { m with gangs := update m.gangs a o, queues := freeAll qs m.queues } := by
  induction qs generalizing m with
  | nil => exact ⟨m.gangs a, by simp [freeAll]⟩
  | cons q qs ih =>
    obtain ⟨o, ho⟩ := ih (freeQueue a m q)
    exact ⟨o, by rw [foldl_cons, ho]; simp [freeQueue, modifyAt, freeAll]⟩

theorem freeGang_eq (p : Nat) (m : AmdgpuMes) (a : Nat) :
    ∃ o, freeGang p m a =
      { m with
        processes := update m.processes p o
        gangs := update m.gangs a none
        queues := freeAll (listOf m.gangs Gang.queueList a) m.queues } := by
  unfold freeGang
  cases ha : m.gangs a with
  | none =>
    refine ⟨m.processes p, ?_⟩
    have hg : update m.gangs a none = m.gangs := by rw [← ha, update_eq_self]
    simp [listOf, ha, freeAll, hg]
  | some gang =>
    dsimp only
    obtain ⟨o, ho⟩ := freeQueues_eq a gang.queueList m
    rw [ho, listOf_some ha]
    refine ⟨(m.processes p).map fun r => { r with gangList := r.gangList.erase a }, ?_⟩
    simp only [modifyAt, update_idem]

theorem freeGangs_eq (p : Nat) (gs : List Nat) (hnodup : gs.Nodup) (m : AmdgpuMes) :
    ∃ o, gs.foldl (freeGang p) m =
      { m with
        processes := update m.processes p o
        gangs := freeAll gs m.gangs
        queues := freeAll (gs.flatMap (listOf m.gangs Gang.queueList)) m.queues } := by
  induction gs generalizing m with
  | nil => exact ⟨m.processes p, by simp [freeAll]⟩
  | cons a gs ih =>
    obtain ⟨ha, hgs⟩ := nodup_cons.mp hnodup
    obtain ⟨o, ho⟩ := freeGang_eq p m a
    obtain ⟨o', ho'⟩ := ih hgs (freeGang p m a)
    -- The gangs still to come keep their queues.
    have hlist : gs.flatMap (listOf (update m.gangs a none) Gang.queueList) =
        gs.flatMap (listOf m.gangs Gang.queueList) := by
      refine flatMap_congr fun b hb => ?_
      have hne : b ≠ a := fun h => ha (h ▸ hb)
      rw [listOf, listOf, update_of_ne hne]
    refine ⟨o', ?_⟩
    rw [foldl_cons, ho', ho]
    dsimp only
    rw [hlist, update_idem, flatMap_cons, freeAll_append]
    rfl

theorem mesDestroyProcess_eq {m : AmdgpuMes} (h : Linked m) {pasid : Int} {p : Nat}
    {process : Process} (hfind : find m.pasidIdr m.processes pasid = some (p, process)) :
    mesDestroyProcess pasid m =
      let qs := process.gangList.flatMap (listOf m.gangs Gang.queueList)
      { m with
        processes := update m.processes p none
        gangs := freeAll process.gangList m.gangs
        queues := freeAll qs m.queues
        pasidIdr := update m.pasidIdr process.pasid none
        gangIdIdr := unindex m.gangs Gang.gangId process.gangList m.gangIdIdr
        queueIdIdr := unindex m.queues Queue.queueId qs m.queueIdIdr } := by
  have hnodup := h.gangLists.nodup p process (find_some hfind).2
  have hpasid := find_key h.pasids hfind
  unfold mesDestroyProcess
  rw [hfind, hpasid]
  dsimp only
  rw [unlinkGangs_eq]
  obtain ⟨o, ho⟩ := freeGangs_eq p process.gangList hnodup
    { m with
      gangIdIdr := unindex m.gangs Gang.gangId process.gangList m.gangIdIdr
      queueIdIdr := unindex m.queues Queue.queueId
        (process.gangList.flatMap (listOf m.gangs Gang.queueList)) m.queueIdIdr
      pasidIdr := update m.pasidIdr pasid.toNat none }
  rw [ho]
  simp only [update_idem]

/-! ## The other operations -/

section
variable (cfg : Config) (ans : Answers) {m : AmdgpuMes}

theorem mesCreateProcess_cases (m : AmdgpuMes) (pasid : Int) :
    (∃ e, mesCreateProcess cfg ans pasid m = (m, .error e)) ∨
    ∃ process : Process, m.pasidIdr process.pasid = none ∧ process.gangList = [] ∧
      mesCreateProcess cfg ans pasid m =
        ({ m with
            processes := update m.processes m.next (some process)
            next := m.next + 1
            pasidIdr := update m.pasidIdr process.pasid (some m.next) }, .ok ()) := by
  unfold mesCreateProcess
  split
  · exact .inl ⟨_, rfl⟩
  · split
    · exact .inl ⟨_, rfl⟩
    · split
      · exact .inl ⟨_, rfl⟩
      · next hid => exact .inr ⟨⟨_, cfg.defaultProcessQuantum, []⟩, idrAllocAt_ok hid, rfl, rfl⟩

theorem mesAddGang_cases (m : AmdgpuMes) (pasid : Int) (gprops : GangProperties) :
    (∃ e, mesAddGang cfg ans pasid gprops m = (m, .error e)) ∨
    ∃ (gang : Gang) (process : Process), m.processes gang.process = some process ∧
      m.gangIdIdr gang.gangId = none ∧ gang.queueList = [] ∧
      mesAddGang cfg ans pasid gprops m =
        ({ m with
            processes := update m.processes gang.process
              (some { process with gangList := process.gangList ++ [m.next] })
            gangs := update m.gangs m.next (some gang)
            next := m.next + 1
            gangIdIdr := update m.gangIdIdr gang.gangId (some m.next) }, .ok gang.gangId) := by
  unfold mesAddGang
  split
  · exact .inl ⟨_, rfl⟩
  · split
    · exact .inl ⟨_, rfl⟩
    · split
      · exact .inl ⟨_, rfl⟩
      · next p process hfind =>
        split
        · exact .inl ⟨_, rfl⟩
        · next id hid =>
          have hp := (find_some hfind).2
          refine .inr ⟨newGang cfg gprops id p, process, hp, idrAlloc_ok hid, rfl, ?_⟩
          rw [modifyAt_some hp]
          rfl

theorem mesRemoveGang_cases (h : Linked m) (gangId : Int) :
    (∃ e, mesRemoveGang gangId m = (m, .error e)) ∨
    ∃ (a : Nat) (gang : Gang) (process : Process), m.gangs a = some gang ∧
      gang.queueList = [] ∧ m.processes gang.process = some process ∧
      mesRemoveGang gangId m =
        ({ m with
            processes := update m.processes gang.process
              (some { process with gangList := process.gangList.erase a })
            gangs := update m.gangs a none
            gangIdIdr := update m.gangIdIdr gang.gangId none }, .ok ()) := by
  unfold mesRemoveGang
  split
  · exact .inl ⟨_, rfl⟩
  · next a gang hfind =>
    split
    · exact .inl ⟨_, rfl⟩
    · next hempty =>
      have ha := (find_some hfind).2
      obtain ⟨process, hp, -⟩ := h.gangLists.listed a gang ha
      refine .inr ⟨a, gang, process, ha, not_not.mp hempty, hp, ?_⟩
      rw [modifyAt_some hp]

theorem mesAddHwQueue_cases (m : AmdgpuMes) (gangId : Int) (qprops : QueueProperties) :
    (∃ e, mesAddHwQueue cfg ans gangId qprops m = (m, .error e)) ∨
    ∃ (queue : Queue) (gang : Gang) (found : Nat), m.gangs queue.gang = some gang ∧
      m.queueIdIdr queue.queueId = none ∧ found < cfg.numMesDbs ∧ found ∉ m.doorbellBitmap ∧
      queue.doorbellOff = doorbellIndex cfg found ∧
      mesAddHwQueue cfg ans gangId qprops m =
        ({ m with
            gangs := update m.gangs queue.gang
              (some { gang with queueList := gang.queueList ++ [m.next] })
            queues := update m.queues m.next (some queue)
            next := m.next + 1
            queueIdIdr := update m.queueIdIdr queue.queueId (some m.next)
            doorbellBitmap := insert found m.doorbellBitmap }, .ok queue.queueId) := by
  unfold mesAddHwQueue
  split
  · exact .inl ⟨_, rfl⟩
  · split
    · exact .inl ⟨_, rfl⟩
    · split
      · exact .inl ⟨_, rfl⟩
      · next g gang hfind =>
        split
        · exact .inl ⟨_, rfl⟩
        · next id hid =>
          have hfree := idrAlloc_ok hid
          have hback : update (update m.queueIdIdr id (some m.next)) id none = m.queueIdIdr := by
            rw [update_idem, ← hfree, update_eq_self]
          dsimp only
          split
          · next e _ => exact .inl ⟨e, by rw [hback]⟩
          · next off map hget =>
            obtain ⟨found, hlt, hclear, rfl, rfl⟩ := mesKernelDoorbellGet_ok hget
            split
            · next e _ =>
              refine .inl ⟨e, ?_⟩
              rw [hback, mesKernelDoorbellFree, relIndex_doorbellIndex hlt,
                Finset.erase_insert hclear]
            · have hg := (find_some hfind).2
              refine .inr ⟨newQueue qprops id g (doorbellIndex cfg found), gang, found, hg, hfree,
                hlt, hclear, rfl, ?_⟩
              rw [modifyAt_some hg]
              rfl

theorem mesRemoveHwQueue_cases (h : Linked m) (queueId : Int) :
    (∃ e, mesRemoveHwQueue cfg queueId m = (m, .error e)) ∨
    ∃ (a : Nat) (queue : Queue) (gang : Gang), m.queues a = some queue ∧
      m.gangs queue.gang = some gang ∧
      mesRemoveHwQueue cfg queueId m =
        ({ m with
            queueIdIdr := update m.queueIdIdr queue.queueId none
            gangs := update m.gangs queue.gang
              (some { gang with queueList := gang.queueList.erase a })
            doorbellBitmap := mesKernelDoorbellFree cfg queue.doorbellOff m.doorbellBitmap
            queues := update m.queues a none }, .ok ()) := by
  unfold mesRemoveHwQueue
  split
  · exact .inl ⟨_, rfl⟩
  · next a queue hfind =>
    have ha := (find_some hfind).2
    obtain ⟨gang, hg, -⟩ := h.queueLists.listed a queue ha
    refine .inr ⟨a, queue, gang, ha, hg, ?_⟩
    rw [modifyAt_some hg, find_key h.queueIds hfind]

end

end Amdkfd.Mes
