import Amdkfd.QueueManager.RestoreIds

/-!
# Where SDMA queues live

`allocate_sdma_queue` takes a bit of one of two bitmaps and makes an engine and a queue number of
it, `allocate_doorbell` has a fixed doorbell for each of these pairs, and `allocate_sdma_mqd` a part
of the buffer of `allocate_hiq_sdma_mqd`. The numbers of engines and queues are arbitrary; the bits
are those of the memory from the start of each bitmap on, as for restored ids.
-/

namespace Amdkfd.SdmaPlacement

open Lib List Finset
open QueueManager (QueueType)
open NoHws (isSdma maxSdmaQueues doorbellMirrorOffset)
open RestoreIds (SdmaIds takeSdma takeSdma_cases splice mem_splice)

/-! ## The node -/

/-- What the three functions read of a node: `kfd_get_num_sdma_engines`,
`kfd_get_num_xgmi_sdma_engines`, the fields of `device_info`, the table of the doorbells, the sizes
of an MQD, and `NUM_XCC(xcc_mask)`. -/
structure Node where
  sdmaEngines : Nat
  xgmiEngines : Nat
  queuesPerEngine : Nat
  reservedSdma : Bitmap
  soc15 : Bool
  nodeId : Nat
  sdmaDoorbellIdx : Nat → Nat
  sdmaMqdSize : Nat
  hiqMqdSize : Nat
  numXcc : Nat

def Node.engines (d : Node) (type : QueueType) : Nat :=
  if type = .sdma then d.sdmaEngines else d.xgmiEngines

/-- `get_num_sdma_queues` and `get_num_xgmi_sdma_queues`. -/
def Node.numQueues (d : Node) (type : QueueType) : Nat :=
  d.engines type * d.queuesPerEngine

def Node.numAllEngines (d : Node) : Nat :=
  d.sdmaEngines + d.xgmiEngines

/-- The first doorbell of an engine, `idx_offset[...]`. -/
def Node.idxOffset (d : Node) (engineId : Nat) : Nat :=
  d.sdmaDoorbellIdx (d.nodeId * d.numAllEngines + engineId)

/-- The set bits of the memory from the start of `sdma_bitmap` and of `xgmi_sdma_bitmap` on. A set
bit is free. -/
structure Bits where
  sdma : Bitmap
  xgmi : Bitmap

def Bits.map (b : Bits) (type : QueueType) : Bitmap :=
  if type = .sdma then b.sdma else b.xgmi

def Bits.setMap (b : Bits) (type : QueueType) (map : Bitmap) : Bits :=
  if type = .sdma then { b with sdma := map } else { b with xgmi := map }

/-! ## Ids -/

/-- The engine and the queue number of a bit. The first engines are the PCIe-optimized ones. -/
def sdmaIds (d : Node) (type : QueueType) (id : Nat) : SdmaIds :=
  { sdmaId := id
    engineId := (if type = .sdma then 0 else d.sdmaEngines) + id % d.engines type
    queueId := id / d.engines type }

def allocateSdmaQueue (d : Node) (b : Bits) (type : QueueType) (restoreSdmaId : Option Nat) :
    Bits × Except Errno (Option SdmaIds) :=
  if isSdma type then
    let r := takeSdma (b.map type) (d.numQueues type) restoreSdmaId
    (b.setMap type r.1, r.2.map fun id => some (sdmaIds d type id))
  else (b, .ok none)

def deallocateSdmaQueue (d : Node) (b : Bits) (type : QueueType) (sdmaId : Nat) : Bits :=
  if isSdma type then
    if d.numQueues type ≤ sdmaId then b else b.setMap type (insert sdmaId (b.map type))
  else b

structure SdmaQueue where
  process : Nat
  queueId : Nat
  type : QueueType
  ids : SdmaIds

def validId (d : Node) (q : SdmaQueue) : Nat :=
  if d.soc15 = false then q.queueId
  else d.idxOffset q.ids.engineId + q.ids.queueId % 2 * doorbellMirrorOffset + q.ids.queueId / 2

def allocateDoorbell (d : Node) (q : SdmaQueue) (restoreId : Option Nat) : Except Errno Nat :=
  if restoreId.any (· ≠ validId d q) then .error .einval else .ok (validId d q)

/-- The offset that `allocate_sdma_mqd` adds. Both products are of 32-bit numbers. -/
def mqdOffset (d : Node) (ids : SdmaIds) : Nat :=
  (ids.engineId * d.queuesPerEngine + ids.queueId) * d.sdmaMqdSize % 2 ^ 32 +
    d.hiqMqdSize * d.numXcc % 2 ^ 32

def hiqSdmaMqdSize (d : Node) : Nat :=
  (d.sdmaMqdSize * d.numAllEngines * d.queuesPerEngine + d.hiqMqdSize * d.numXcc) % 2 ^ 32

def Node.ofDevice (dev : NoHws.Device) (sdmaMqdSize hiqMqdSize numXcc : Nat) : Node :=
  { dev with sdmaMqdSize, hiqMqdSize, numXcc }

theorem allocateSdmaQueue_restoreIds (dev : NoHws.Device) (sdmaMqdSize hiqMqdSize numXcc : Nat)
    (b : RestoreIds.Bits) (type : QueueType) (restoreId : Option Nat) :
    allocateSdmaQueue (.ofDevice dev sdmaMqdSize hiqMqdSize numXcc) ⟨b.sdma, b.xgmiSdma⟩ type
        restoreId =
      let r := RestoreIds.allocateSdmaQueue dev b type restoreId
      (⟨r.1.sdma, r.1.xgmiSdma⟩, r.2) := by
  have hsdma (id : Nat) : sdmaIds (.ofDevice dev sdmaMqdSize hiqMqdSize numXcc) .sdma id =
      RestoreIds.sdmaIds dev id := by
    simp [sdmaIds, RestoreIds.sdmaIds, Node.engines, Node.ofDevice]
  have hxgmi (id : Nat) : sdmaIds (.ofDevice dev sdmaMqdSize hiqMqdSize numXcc) .sdmaXgmi id =
      RestoreIds.xgmiSdmaIds dev id := by
    simp [sdmaIds, RestoreIds.xgmiSdmaIds, Node.engines, Node.ofDevice]
  cases type with
  | sdma =>
    simp only [allocateSdmaQueue, hsdma]
    rfl
  | sdmaXgmi =>
    simp only [allocateSdmaQueue, hxgmi]
    rfl
  | compute | hiq | diq => rfl

/-! ## Runs -/

structure State where
  bits : Bits
  live : List SdmaQueue

def init (d : Node) (m : Bits) : State :=
  { bits :=
      { sdma := splice maxSdmaQueues (Finset.range (d.numQueues .sdma) \ d.reservedSdma) m.sdma
        xgmi := splice maxSdmaQueues (Finset.range (d.numQueues .sdmaXgmi)) m.xgmi }
    live := [] }

inductive Op
  | allocate (process queueId : Nat) (type : QueueType) (restoreSdmaId : Option Nat)
  | deallocate (i : Nat)
  /-- The memory after the bitmaps changes. -/
  | beyond (m : Bits)

/-- One call. A queue that lives is given back. -/
def step (d : Node) (s : State) : Op → State
  | .allocate process queueId type restoreSdmaId =>
    match allocateSdmaQueue d s.bits type restoreSdmaId with
    | (b, .ok (some ids)) => { bits := b, live := ⟨process, queueId, type, ids⟩ :: s.live }
    | (b, _) => { s with bits := b }
  | .deallocate i =>
    match s.live[i]? with
    | some q =>
      { bits := deallocateSdmaQueue d s.bits q.type q.ids.sdmaId, live := s.live.eraseIdx i }
    | none => s
  | .beyond m =>
    { s with
      bits :=
        { sdma := splice maxSdmaQueues s.bits.sdma m.sdma
          xgmi := splice maxSdmaQueues s.bits.xgmi m.xgmi } }

def RestoreOk (map : Bitmap) (restoreSdmaId : Option Nat) : Prop :=
  map.filter (· < maxSdmaQueues) ≠ ∅ → ∀ id ∈ restoreSdmaId, id < maxSdmaQueues ∨ id ∉ map
  deriving Decidable

/-- A restored id is good, and the process has no other queue with the id of the queue, which
`pqm_create_queue` has taken from a bitmap of its own. -/
def StepOk (s : State) : Op → Prop
  | .allocate process queueId type restoreSdmaId =>
    (isSdma type = true → RestoreOk (s.bits.map type) restoreSdmaId) ∧
      ∀ q ∈ s.live, q.process = process → q.queueId ≠ queueId
  | _ => True

instance : ∀ s op, Decidable (StepOk s op)
  | s, .allocate process queueId type restoreSdmaId =>
    inferInstanceAs (Decidable ((isSdma type = true → RestoreOk (s.bits.map type) restoreSdmaId) ∧
      ∀ q ∈ s.live, q.process = process → q.queueId ≠ queueId))
  | _, .deallocate _ => isTrue trivial
  | _, .beyond _ => isTrue trivial

def InRange (d : Node) (q : SdmaQueue) : Prop :=
  (if q.type = .sdma then q.ids.engineId < d.sdmaEngines
    else d.sdmaEngines ≤ q.ids.engineId ∧ q.ids.engineId < d.numAllEngines) ∧
  q.ids.queueId < d.queuesPerEngine

/-- The numbers of two queues do not clash: engine and queue number, the doorbells (those of one
process only, when the doorbell is the id of the queue) and the places of the MQDs. -/
structure Apart (d : Node) (q r : SdmaQueue) : Prop where
  ids : ¬(q.ids.engineId = r.ids.engineId ∧ q.ids.queueId = r.ids.queueId)
  doorbell : d.soc15 = true ∨ q.process = r.process → ∀ qid rid x y,
    allocateDoorbell d q qid = .ok x → allocateDoorbell d r rid = .ok y → x ≠ y
  mqd : mqdOffset d q.ids ≠ mqdOffset d r.ids ∧
    (mqdOffset d q.ids + d.sdmaMqdSize ≤ mqdOffset d r.ids ∨
      mqdOffset d r.ids + d.sdmaMqdSize ≤ mqdOffset d q.ids)

/-- All queues that live are in range, apart from each other, and have their MQDs in the buffer,
after those of the HIQ. -/
structure Placed (d : Node) (s : State) : Prop where
  inRange : ∀ q ∈ s.live, InRange d q
  apart : s.live.Pairwise (Apart d)
  inside : ∀ q ∈ s.live, d.hiqMqdSize * d.numXcc ≤ mqdOffset d q.ids ∧
    mqdOffset d q.ids + d.sdmaMqdSize ≤ hiqSdmaMqdSize d

/-- On SOC15 the table has room for half of the queues of each engine, below the doorbells of the
other half; and the size of the buffer is a 32-bit number. -/
structure Fits (d : Node) : Prop where
  spaced : d.soc15 = true → ∀ e < d.numAllEngines, ∀ e' < e,
    d.idxOffset e + (d.queuesPerEngine + 1) / 2 ≤ d.idxOffset e' ∨
      d.idxOffset e' + (d.queuesPerEngine + 1) / 2 ≤ d.idxOffset e
  below : d.soc15 = true → ∀ e < d.numAllEngines,
    d.idxOffset e + (d.queuesPerEngine + 1) / 2 ≤ doorbellMirrorOffset
  mqd_pos : 0 < d.sdmaMqdSize
  size_lt : d.sdmaMqdSize * d.numAllEngines * d.queuesPerEngine + d.hiqMqdSize * d.numXcc < 2 ^ 32

/-! ## The bits -/

section Bits
variable {d : Node} {b : Bits} {s : State} {type type' : QueueType} {mem map : Bitmap} {id : Nat}

theorem isSdma_iff : isSdma type = true ↔ type = .sdma ∨ type = .sdmaXgmi := by
  cases type <;> simp [isSdma]

@[simp] theorem Bits.map_setMap (b : Bits) (type : QueueType) (map : Bitmap) :
    (b.setMap type map).map type = map := by
  unfold Bits.map Bits.setMap
  split <;> rfl

@[simp] theorem Bits.setMap_map (b : Bits) (type : QueueType) : b.setMap type (b.map type) = b := by
  unfold Bits.map Bits.setMap
  split <;> rfl

theorem Bits.map_setMap_of_ne (h : isSdma type = true) (h' : isSdma type' = true)
    (hne : type' ≠ type) : (b.setMap type map).map type' = b.map type' := by
  rcases isSdma_iff.mp h with rfl | rfl
  · rcases isSdma_iff.mp h' with rfl | rfl
    · exact absurd rfl hne
    · rfl
  · rcases isSdma_iff.mp h' with rfl | rfl
    · rfl
    · exact absurd rfl hne

theorem takeSdma_inside {size : Nat} {restoreId : Option Nat}
    (hsize : ∀ i ∈ mem, i < maxSdmaQueues → i < size)
    (hrestore : RestoreOk mem restoreId) :
    (∃ e, takeSdma mem size restoreId = (mem, .error e)) ∨
      ∃ id ∈ mem, id < maxSdmaQueues ∧ takeSdma mem size restoreId = (mem.erase id, .ok id) := by
  refine (takeSdma_cases hsize restoreId).imp_right ?_
  rintro ⟨hne, id, hmem, hgiven, heq⟩
  refine ⟨id, hmem, ?_, heq⟩
  rcases hgiven with rfl | hlt
  · exact (hrestore hne id rfl).resolve_right (not_not_intro hmem)
  · exact hlt

end Bits

/-! ## The invariant -/

/-- Set bits of a bitmap are those of queues of the node. A queue that lives has the numbers of its
bit, which is clear and one of those of the node. -/
structure Ok (d : Node) (s : State) : Prop where
  bits : ∀ type, isSdma type = true → ∀ i ∈ s.bits.map type, i < maxSdmaQueues →
    i < d.numQueues type
  type : ∀ q ∈ s.live, isSdma q.type = true
  ids : ∀ q ∈ s.live, q.ids = sdmaIds d q.type q.ids.sdmaId
  lt : ∀ q ∈ s.live, q.ids.sdmaId < maxSdmaQueues ∧ q.ids.sdmaId < d.numQueues q.type
  taken : ∀ q ∈ s.live, q.ids.sdmaId ∉ s.bits.map q.type
  apart : s.live.Pairwise fun q r => (q.type = r.type → q.ids.sdmaId ≠ r.ids.sdmaId) ∧
    (q.process = r.process → q.queueId ≠ r.queueId)

section Run
variable {d : Node} {s : State} {type : QueueType} {id : Nat}

theorem init_ok (d : Node) (m : Bits) : Ok d (init d m) where
  bits type htype i hi hlt := by
    rcases isSdma_iff.mp htype with rfl | rfl
    · have hi : i ∈ splice maxSdmaQueues _ _ := hi
      rcases mem_splice.mp hi with ⟨-, hi⟩ | ⟨hge, -⟩
      · exact Finset.mem_range.mp (mem_sdiff.mp hi).1
      · exact absurd hlt hge.not_gt
    · have hi : i ∈ splice maxSdmaQueues _ _ := hi
      rcases mem_splice.mp hi with ⟨-, hi⟩ | ⟨hge, -⟩
      · exact Finset.mem_range.mp hi
      · exact absurd hlt hge.not_gt
  type _ hq := absurd hq not_mem_nil
  ids _ hq := absurd hq not_mem_nil
  lt _ hq := absurd hq not_mem_nil
  taken _ hq := absurd hq not_mem_nil
  apart := .nil

theorem allocate_cases (h : Ok d s) {process queueId : Nat} {restoreId : Option Nat}
    (hrestore : isSdma type = true → RestoreOk (s.bits.map type) restoreId) :
    step d s (.allocate process queueId type restoreId) = s ∨
      ∃ id ∈ s.bits.map type, id < maxSdmaQueues ∧ isSdma type = true ∧
        step d s (.allocate process queueId type restoreId) =
          { bits := s.bits.setMap type ((s.bits.map type).erase id)
            live := ⟨process, queueId, type, sdmaIds d type id⟩ :: s.live } := by
  cases htype : isSdma type with
  | false => exact .inl (by simp [step, allocateSdmaQueue, htype])
  | true =>
    rcases takeSdma_inside (h.bits type htype) (hrestore htype) with ⟨e, heq⟩ | ⟨id, hid, hlt, heq⟩
    · exact .inl (by simp [step, allocateSdmaQueue, htype, heq, Except.map])
    · exact .inr ⟨id, hid, hlt, rfl, by simp [step, allocateSdmaQueue, htype, heq, Except.map]⟩

theorem Ok.allocate (h : Ok d s) {process queueId : Nat} {restoreId : Option Nat}
    (hok : StepOk s (.allocate process queueId type restoreId)) :
    Ok d (step d s (.allocate process queueId type restoreId)) := by
  rcases allocate_cases h hok.1 with heq | ⟨id, hid, hlt, htype, heq⟩
  · rwa [heq]
  have hmap {t : QueueType} (ht : isSdma t = true) {i : Nat}
      (hi : i ∈ (s.bits.setMap type ((s.bits.map type).erase id)).map t) :
      i ∈ s.bits.map t ∧ (t = type → i ≠ id) := by
    by_cases hsame : t = type
    · subst hsame
      rw [Bits.map_setMap] at hi
      exact ⟨mem_of_mem_erase hi, fun _ => ne_of_mem_erase hi⟩
    · rw [Bits.map_setMap_of_ne htype ht hsame] at hi
      exact ⟨hi, fun h => absurd h hsame⟩
  rw [heq]
  refine ⟨fun t ht i hi => h.bits t ht i (hmap ht hi).1, ?_, ?_, ?_, ?_, ?_⟩
  · exact forall_mem_cons.mpr ⟨htype, h.type⟩
  · exact forall_mem_cons.mpr ⟨rfl, h.ids⟩
  · exact forall_mem_cons.mpr ⟨⟨hlt, h.bits type htype id hid hlt⟩, h.lt⟩
  · refine forall_mem_cons.mpr ⟨fun hi => (hmap htype hi).2 rfl rfl, fun q hq hi => ?_⟩
    exact h.taken q hq (hmap (h.type q hq) hi).1
  · refine pairwise_cons.mpr ⟨fun r hr => ⟨fun htype hsame => ?_, fun hproc => ?_⟩, h.apart⟩
    · -- the bit was set, and that of `r` was clear
      have hsame : id = r.ids.sdmaId := hsame
      have htype : type = r.type := htype
      exact h.taken r hr (hsame ▸ htype ▸ hid)
    · exact (hok.2 r hr hproc.symm).symm

theorem forall_eraseIdx {α : Type} {R : α → α → Prop} (hsymm : ∀ x y, R x y → R y x) {xs : List α}
    (h : xs.Pairwise R) {i : Nat} {x : α} (hx : xs[i]? = some x) : ∀ y ∈ xs.eraseIdx i, R x y := by
  induction xs generalizing i with
  | nil => simp at hx
  | cons z zs ih =>
    obtain ⟨hz, hzs⟩ := pairwise_cons.mp h
    cases i with
    | zero =>
      obtain rfl : z = x := by simpa using hx
      simpa using hz
    | succ i =>
      have hx : zs[i]? = some x := by simpa using hx
      refine forall_mem_cons.mpr ⟨?_, ih hzs hx⟩
      exact hsymm _ _ (hz x (mem_of_getElem? hx))

theorem Ok.deallocate (h : Ok d s) (i : Nat) : Ok d (step d s (.deallocate i)) := by
  show Ok d (match s.live[i]? with
    | some q => _
    | none => s)
  cases hq : s.live[i]? with
  | none => exact h
  | some q =>
    have hmem := mem_of_getElem? hq
    have htype := h.type q hmem
    have hrest {r : SdmaQueue} (hr : r ∈ s.live.eraseIdx i) : r ∈ s.live :=
      mem_of_mem_eraseIdx hr
    have hbits : deallocateSdmaQueue d s.bits q.type q.ids.sdmaId =
        s.bits.setMap q.type (insert q.ids.sdmaId (s.bits.map q.type)) := by
      rw [deallocateSdmaQueue, if_pos htype, if_neg (h.lt q hmem).2.not_ge]
    have hmap {t : QueueType} (ht : isSdma t = true) {j : Nat}
        (hj : j ∈ (s.bits.setMap q.type (insert q.ids.sdmaId (s.bits.map q.type))).map t) :
        j ∈ s.bits.map t ∨ t = q.type ∧ j = q.ids.sdmaId := by
      by_cases hsame : t = q.type
      · subst hsame
        rw [Bits.map_setMap] at hj
        exact (mem_insert.mp hj).symm.imp_right fun hj => ⟨rfl, hj⟩
      · rw [Bits.map_setMap_of_ne htype ht hsame] at hj
        exact .inl hj
    have hapart := forall_eraseIdx (fun x y hxy => ⟨fun ht => (hxy.1 ht.symm).symm,
      fun hp => (hxy.2 hp.symm).symm⟩) h.apart hq
    simp only [hbits]
    refine ⟨fun t ht j hj hlt => ?_, fun r hr => h.type r (hrest hr),
      fun r hr => h.ids r (hrest hr), fun r hr => h.lt r (hrest hr), fun r hr hj => ?_,
      h.apart.sublist (eraseIdx_sublist _ _)⟩
    · rcases hmap ht hj with hj | ⟨rfl, rfl⟩
      · exact h.bits t ht j hj hlt
      · exact (h.lt q hmem).2
    · rcases hmap (h.type r (hrest hr)) hj with hj | ⟨ht, hid⟩
      · exact h.taken r (hrest hr) hj
      · exact (hapart r hr).1 ht.symm hid.symm

theorem Ok.beyond (h : Ok d s) (m : Bits) : Ok d (step d s (.beyond m)) := by
  have hmap {t : QueueType} (ht : isSdma t = true) {i : Nat} (hlt : i < maxSdmaQueues)
      (hi : i ∈ (step d s (.beyond m)).bits.map t) : i ∈ s.bits.map t := by
    rcases isSdma_iff.mp ht with rfl | rfl
    · rcases mem_splice.mp (show i ∈ splice _ _ _ from hi) with ⟨-, hi⟩ | ⟨hge, -⟩
      · exact hi
      · exact absurd hlt hge.not_gt
    · rcases mem_splice.mp (show i ∈ splice _ _ _ from hi) with ⟨-, hi⟩ | ⟨hge, -⟩
      · exact hi
      · exact absurd hlt hge.not_gt
  refine ⟨fun t ht i hi hlt => h.bits t ht i (hmap ht hlt hi) hlt, h.type, h.ids, h.lt,
    fun q hq hi => ?_, h.apart⟩
  exact h.taken q hq (hmap (h.type q hq) (h.lt q hq).1 hi)

theorem Ok.step (h : Ok d s) {op : Op} (hok : StepOk s op) : Ok d (step d s op) := by
  cases op with
  | allocate process queueId type restoreId => exact h.allocate hok
  | deallocate i => exact h.deallocate i
  | beyond m => exact h.beyond m

theorem ok_run {ops : List Op} (h : Ok d s) (hok : StepsOk (step d) StepOk s ops) :
    Ok d (run (step d) s ops) :=
  run_inv_of_stepsOk (fun _ _ h hop => h.step hop) h hok

end Run

/-! ## The numbers of a bit -/

theorem eq_of_mod_div {n i j : Nat} (hmod : i % n = j % n) (hdiv : i / n = j / n) : i = j := by
  rw [← Nat.div_add_mod i n, ← Nat.div_add_mod j n, hmod, hdiv]

theorem cell_inj {n row row' col col' : Nat} (hcol : col < n) (hcol' : col' < n)
    (h : row * n + col = row' * n + col') : row = row' ∧ col = col' := by
  have hn : 0 < n := Nat.zero_lt_of_lt hcol
  have hrow (row col : Nat) (hcol : col < n) : (row * n + col) / n = row := by
    rw [mul_comm, Nat.mul_add_div hn, Nat.div_eq_of_lt hcol, add_zero]
  have hsame : row = row' := by rw [← hrow row col hcol, h, hrow row' col' hcol']
  subst hsame
  exact ⟨rfl, Nat.add_left_cancel h⟩

theorem cell_lt {n rows row col : Nat} (hrow : row < rows) (hcol : col < n) :
    row * n + col < rows * n :=
  calc row * n + col < row * n + n := Nat.add_lt_add_left hcol _
    _ = (row + 1) * n := (Nat.succ_mul row n).symm
    _ ≤ rows * n := Nat.mul_le_mul_right n hrow

section Numbers
variable {d : Node} {s : State} {q r : SdmaQueue}

theorem Ok.inRange (h : Ok d s) (hq : q ∈ s.live) : InRange d q := by
  have hlt := (h.lt q hq).2
  have hpos : 0 < d.engines q.type := Nat.pos_of_mul_pos_right (Nat.zero_lt_of_lt hlt)
  have hmod : q.ids.sdmaId % d.engines q.type < d.engines q.type := Nat.mod_lt _ hpos
  have hdiv : q.ids.sdmaId / d.engines q.type < d.queuesPerEngine :=
    Nat.div_lt_of_lt_mul hlt
  have hids := h.ids q hq
  unfold InRange
  rw [hids]
  refine ⟨?_, hdiv⟩
  rcases isSdma_iff.mp (h.type q hq) with ht | ht
  · simpa [sdmaIds, ht, Node.engines] using hmod
  · simpa [sdmaIds, ht, Node.engines, Node.numAllEngines] using hmod

theorem InRange.engine_lt (h : InRange d q) : q.ids.engineId < d.numAllEngines := by
  obtain ⟨hengine, -⟩ := h
  split at hengine
  · exact lt_of_lt_of_le hengine (Nat.le_add_right _ _)
  · exact hengine.2

theorem ids_ne (h : Ok d s) (hq : q ∈ s.live) (hr : r ∈ s.live)
    (hbit : q.type = r.type → q.ids.sdmaId ≠ r.ids.sdmaId) :
    ¬(q.ids.engineId = r.ids.engineId ∧ q.ids.queueId = r.ids.queueId) := by
  rintro ⟨hengine, hqueue⟩
  by_cases ht : q.type = r.type
  · refine hbit ht ?_
    have hidq := h.ids q hq
    have hidr := h.ids r hr
    rw [hidq, hidr, ht] at hengine hqueue
    exact eq_of_mod_div (Nat.add_left_cancel hengine) hqueue
  · -- the engines of the two types have different numbers
    obtain ⟨hq', -⟩ := h.inRange hq
    obtain ⟨hr', -⟩ := h.inRange hr
    rcases isSdma_iff.mp (h.type q hq) with htq | htq
    · rcases isSdma_iff.mp (h.type r hr) with htr | htr
      · exact ht (htq.trans htr.symm)
      · rw [htq, if_pos rfl] at hq'
        rw [htr, if_neg (by decide)] at hr'
        omega
    · rcases isSdma_iff.mp (h.type r hr) with htr | htr
      · rw [htq, if_neg (by decide)] at hq'
        rw [htr, if_pos rfl] at hr'
        omega
      · exact ht (htq.trans htr.symm)

theorem mirror_inj {x x' k k' : Nat} (hx : x + k / 2 < doorbellMirrorOffset)
    (hx' : x' + k' / 2 < doorbellMirrorOffset)
    (h : x + k % 2 * doorbellMirrorOffset + k / 2 = x' + k' % 2 * doorbellMirrorOffset + k' / 2) :
    k % 2 = k' % 2 ∧ x + k / 2 = x' + k' / 2 := by
  have hrow : k % 2 * doorbellMirrorOffset + (x + k / 2) =
      k' % 2 * doorbellMirrorOffset + (x' + k' / 2) := by omega
  exact cell_inj hx hx' hrow

theorem doorbell_ne (hfits : Fits d) (hsoc : d.soc15 = true) {e e' k k' : Nat}
    (he : e < d.numAllEngines) (he' : e' < d.numAllEngines) (hk : k < d.queuesPerEngine)
    (hk' : k' < d.queuesPerEngine) (hne : ¬(e = e' ∧ k = k')) :
    d.idxOffset e + k % 2 * doorbellMirrorOffset + k / 2 ≠
      d.idxOffset e' + k' % 2 * doorbellMirrorOffset + k' / 2 := by
  intro heq
  have hbelow := hfits.below hsoc e he
  have hbelow' := hfits.below hsoc e' he'
  obtain ⟨hhalf, hnum⟩ := mirror_inj (by omega) (by omega) heq
  rcases lt_trichotomy e e' with hlt | rfl | hlt
  · have hspaced := hfits.spaced hsoc e' he' e hlt
    omega
  · exact hne ⟨rfl, by omega⟩
  · have hspaced := hfits.spaced hsoc e he e' hlt
    omega

/-- The offset of an MQD, without overflow. -/
theorem mqdOffset_eq (hfits : Fits d) (h : InRange d q) :
    mqdOffset d q.ids =
        (q.ids.engineId * d.queuesPerEngine + q.ids.queueId) * d.sdmaMqdSize +
          d.hiqMqdSize * d.numXcc ∧
      mqdOffset d q.ids + d.sdmaMqdSize ≤ hiqSdmaMqdSize d := by
  have hlin := cell_lt h.engine_lt h.2
  have hle : (q.ids.engineId * d.queuesPerEngine + q.ids.queueId) * d.sdmaMqdSize + d.sdmaMqdSize ≤
      d.sdmaMqdSize * d.numAllEngines * d.queuesPerEngine := by
    calc (q.ids.engineId * d.queuesPerEngine + q.ids.queueId) * d.sdmaMqdSize + d.sdmaMqdSize
        = (q.ids.engineId * d.queuesPerEngine + q.ids.queueId + 1) * d.sdmaMqdSize :=
          (Nat.succ_mul _ _).symm
      _ ≤ d.numAllEngines * d.queuesPerEngine * d.sdmaMqdSize := Nat.mul_le_mul_right _ hlin
      _ = d.sdmaMqdSize * d.numAllEngines * d.queuesPerEngine := by
          rw [mul_comm, ← mul_assoc]
  have hsize := hfits.size_lt
  unfold mqdOffset hiqSdmaMqdSize
  rw [Nat.mod_eq_of_lt (by omega), Nat.mod_eq_of_lt (by omega), Nat.mod_eq_of_lt hsize]
  omega

theorem mqd_apart (hfits : Fits d) (hq : InRange d q) (hr : InRange d r)
    (hne : ¬(q.ids.engineId = r.ids.engineId ∧ q.ids.queueId = r.ids.queueId)) :
    mqdOffset d q.ids + d.sdmaMqdSize ≤ mqdOffset d r.ids ∨
      mqdOffset d r.ids + d.sdmaMqdSize ≤ mqdOffset d q.ids := by
  have hlin : q.ids.engineId * d.queuesPerEngine + q.ids.queueId ≠
      r.ids.engineId * d.queuesPerEngine + r.ids.queueId := fun h => hne (cell_inj hq.2 hr.2 h)
  have hstep {i j : Nat} (hlt : i < j) : i * d.sdmaMqdSize + d.sdmaMqdSize ≤ j * d.sdmaMqdSize := by
    rw [← Nat.succ_mul]
    exact Nat.mul_le_mul_right _ hlt
  rw [(mqdOffset_eq hfits hq).1, (mqdOffset_eq hfits hr).1]
  rcases Nat.lt_or_gt_of_ne hlin with hlt | hlt
  · have := hstep hlt
    omega
  · have := hstep hlt
    omega

theorem allocateDoorbell_ok {restoreId : Option Nat} {x : Nat}
    (h : allocateDoorbell d q restoreId = .ok x) : x = validId d q := by
  unfold allocateDoorbell at h
  split at h
  · cases h
  · exact (Except.ok.inj h).symm

theorem Ok.apart_of (h : Ok d s) (hfits : Fits d) (hq : q ∈ s.live) (hr : r ∈ s.live)
    (hbit : q.type = r.type → q.ids.sdmaId ≠ r.ids.sdmaId)
    (hqueue : q.process = r.process → q.queueId ≠ r.queueId) : Apart d q r := by
  have hne := ids_ne h hq hr hbit
  have hrq := h.inRange hq
  have hrr := h.inRange hr
  have hmqd := mqd_apart hfits hrq hrr hne
  refine ⟨hne, fun hproc qid rid x y hx hy => ?_, ?_, hmqd⟩
  · rw [allocateDoorbell_ok hx, allocateDoorbell_ok hy]
    unfold validId
    cases hsoc : d.soc15 with
    | false => exact hqueue (hproc.resolve_left (by simp [hsoc]))
    | true => exact doorbell_ne hfits hsoc hrq.engine_lt hrr.engine_lt hrq.2 hrr.2 hne
  · have hpos := hfits.mqd_pos
    omega

theorem Ok.placed (h : Ok d s) (hfits : Fits d) : Placed d s where
  inRange _ hq := h.inRange hq
  apart := h.apart.imp_of_mem fun hq hr hqr => h.apart_of hfits hq hr hqr.1 hqr.2
  inside _ hq := by
    obtain ⟨heq, hle⟩ := mqdOffset_eq hfits (h.inRange hq)
    exact ⟨heq ▸ Nat.le_add_left _ _, hle⟩

end Numbers

/-- Along every run that restores no set bit beyond the bitmaps, the queues that live have their
own engine and queue number in range, their own doorbell, and their own place in the buffer. -/
theorem sdma_placement (d : Node) (hfits : Fits d) (m : Bits) (ops : List Op)
    (hok : StepsOk (step d) StepOk (init d m) ops) : Placed d (run (step d) (init d m) ops) :=
  (ok_run (init_ok d m) hok).placed hfits

/-! ## The tables of the driver -/

/-- Doorbells of `sdma_engine[i]` from `start` on, `range` for each engine. -/
def doorbellTable (start range i : Nat) : Nat :=
  start + i * range

def vega10Table : Nat → Nat := doorbellTable 0xf0 2
def vega20Table : Nat → Nat := doorbellTable 0x100 10
/-- `sdma_doorbell_range` is 20, in units of 4 bytes. -/
def aquaVanjaramTable : Nat → Nat := doorbellTable 0x100 (20 / 2)

section
variable {d : Node} (hmqd : 0 < d.sdmaMqdSize)
  (hsize : d.sdmaMqdSize * d.numAllEngines * d.queuesPerEngine + d.hiqMqdSize * d.numXcc < 2 ^ 32)
include hmqd hsize

theorem table_fits {start range : Nat} (htable : d.sdmaDoorbellIdx = doorbellTable start range)
    (hrange : (d.queuesPerEngine + 1) / 2 ≤ range)
    (hend : doorbellTable start range ((d.nodeId + 1) * d.numAllEngines) ≤ doorbellMirrorOffset) :
    Fits d := by
  -- the doorbells of an engine end where those of the next one start
  have hnext {e e' : Nat} (hlt : e < e') :
      d.idxOffset e + (d.queuesPerEngine + 1) / 2 ≤ d.idxOffset e' := by
    unfold Node.idxOffset
    rw [htable]
    calc start + (d.nodeId * d.numAllEngines + e) * range + (d.queuesPerEngine + 1) / 2
        ≤ start + (d.nodeId * d.numAllEngines + e) * range + range :=
          Nat.add_le_add_left hrange _
      _ = start + (d.nodeId * d.numAllEngines + e + 1) * range := by
          rw [Nat.succ_mul, add_assoc]
      _ ≤ start + (d.nodeId * d.numAllEngines + e') * range :=
          Nat.add_le_add_left (Nat.mul_le_mul_right _ (Nat.add_le_add_left hlt _)) _
  refine ⟨fun _ e _ e' hlt => .inr (hnext hlt), fun _ e he => ?_, hmqd, hsize⟩
  refine (hnext he).trans ?_
  rw [Node.idxOffset, htable, ← Nat.succ_mul]
  exact hend

theorem vega10_fits (htable : d.sdmaDoorbellIdx = vega10Table) (hqueues : d.queuesPerEngine = 2)
    (hnode : d.nodeId = 0) (hengines : d.numAllEngines ≤ 2) : Fits d := by
  refine table_fits hmqd hsize htable (by omega) ?_
  unfold doorbellTable doorbellMirrorOffset
  rw [hnode]
  omega

theorem vega20_fits (htable : d.sdmaDoorbellIdx = vega20Table) (hqueues : d.queuesPerEngine ≤ 8)
    (hnode : d.nodeId = 0) (hengines : d.numAllEngines ≤ 8) : Fits d := by
  refine table_fits hmqd hsize htable (by omega) ?_
  unfold doorbellTable doorbellMirrorOffset
  rw [hnode]
  omega

theorem aquaVanjaram_fits (htable : d.sdmaDoorbellIdx = aquaVanjaramTable)
    (hqueues : d.queuesPerEngine ≤ 8) (hengines : (d.nodeId + 1) * d.numAllEngines ≤ 16) :
    Fits d := by
  refine table_fits hmqd hsize htable (by omega) ?_
  unfold doorbellTable doorbellMirrorOffset
  omega

end

/-! ## An example -/

def exNode : Node where
  sdmaEngines := 2
  xgmiEngines := 6
  queuesPerEngine := 8
  reservedSdma := ∅
  soc15 := true
  nodeId := 0
  sdmaDoorbellIdx := vega20Table
  sdmaMqdSize := 512
  hiqMqdSize := 2048
  numXcc := 1

def exRun : List Op :=
  [.allocate 1 0 .sdma none, .allocate 1 1 .sdmaXgmi none, .allocate 2 0 .sdma (some 5),
    .deallocate 1, .allocate 2 1 .sdmaXgmi (some 7)]

theorem sdma_placement_exRun :
    ((run (step exNode) (init exNode ⟨∅, ∅⟩) exRun).live.map fun q =>
      (q.ids.engineId, q.ids.queueId)) = [(3, 1), (1, 2), (0, 0)] ∧
    Placed exNode (run (step exNode) (init exNode ⟨∅, ∅⟩) exRun) := by
  refine ⟨by decide +kernel, sdma_placement exNode ?_ _ _ ?_⟩
  · exact vega20_fits (by decide) (by decide) rfl (by decide) rfl (by decide)
  · decide +kernel

/-- A queue is restored with the bit after `sdma_bitmap`, which is that of the first XGMI queue and
set. -/
def exBeyond : List Op :=
  [.beyond ⟨{128}, ∅⟩, .allocate 1 0 .sdma (some 128)]

theorem sdma_placement_broken :
    ¬ ∀ (d : Node) (m : Bits) (ops : List Op), Fits d → Placed d (run (step d) (init d m) ops) := by
  intro h
  have hfits := vega20_fits (d := exNode) (by decide) (by decide) rfl (by decide) rfl (by decide)
  have hplaced := h exNode ⟨∅, ∅⟩ exBeyond hfits
  have hbeyond : ∃ q ∈ (run (step exNode) (init exNode ⟨∅, ∅⟩) exBeyond).live,
      exNode.queuesPerEngine ≤ q.ids.queueId := by decide +kernel
  obtain ⟨q, hq, hge⟩ := hbeyond
  exact absurd (hplaced.inRange q hq).2 hge.not_gt

end Amdkfd.SdmaPlacement
