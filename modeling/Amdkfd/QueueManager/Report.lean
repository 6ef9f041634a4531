import Amdkfd.QueueManager.Model
import Mathlib.Data.Finset.Card

/-!
# What suspending and resuming report

`suspend_queues` and `resume_queues` with the array of queue ids that they are given and that is
copied back with two flags in it. All ids are flagged as invalid first. On every device the queues
that are in the array are tried one by one, then a run list is executed for those that need one.
-/

namespace Amdkfd.QueueReport

open QueueManager List

/-! ## Model -/

def kfdDbgQueueErrorMask : BitVec 32 := BitVec.twoPow 32 30
def kfdDbgQueueInvalidMask : BitVec 32 := BitVec.twoPow 32 31

structure Device where
  ctx : Ctx
  queueIds : List (BitVec 32)

def qArrayInvalidate (queueIds : List (BitVec 32)) : List (BitVec 32) :=
  queueIds.map (· ||| kfdDbgQueueInvalidMask)

/-- `q_array_get_index`. An entry with an error is not found. -/
def qArrayGetIndex (queueId : BitVec 32) (queueIds : List (BitVec 32)) : Option Nat :=
  queueIds.findIdx? fun e => queueId == e &&& ~~~kfdDbgQueueInvalidMask

/-- `queue_ids[q_idx] &= ~KFD_DBG_QUEUE_INVALID_MASK` and `|= KFD_DBG_QUEUE_ERROR_MASK`. -/
def markValid (idx : Nat) (queueIds : List (BitVec 32)) : List (BitVec 32) :=
  queueIds.modify idx (· &&& ~~~kfdDbgQueueInvalidMask)
def markError (idx : Nat) (queueIds : List (BitVec 32)) : List (BitVec 32) :=
  queueIds.modify idx (· ||| kfdDbgQueueErrorMask)

/-- What comes of trying a queue: its entry is valid, it is passed over, or it is an error that ends
the loop. -/
inductive Verdict
  | done
  | skip
  | stop
  deriving DecidableEq

/-- What the two calls do in their own way: try a queue, and settle the queues of the array once a
run list was executed. -/
structure Request where
  attempt : Hw → Ctx → Nat → Queue → Ctx × Verdict
  settle : Queue → Queue

/-- The state of the queue loop: `total` is the number that is returned, `perDevice` what waits for
the run list. -/
structure Loop where
  ctx : Ctx
  queueIds : List (BitVec 32)
  total : Nat
  perDevice : Nat
  stopped : Bool

def visit (r : Request) (hw : Hw) (mes : Bool) (ids : List (BitVec 32)) (s : Loop) (i : Nat) :
    Loop :=
  match s.stopped, ids[i]?, s.ctx.qpd.queues[i]? with
  | false, some id, some q =>
    match qArrayGetIndex id s.queueIds with
    | none => s
    | some idx =>
      let tried := r.attempt hw s.ctx i q
      match tried.2 with
      | .done =>
        { s with
          ctx := tried.1
          queueIds := markValid idx s.queueIds
          total := if mes then s.total + 1 else s.total
          perDevice := if mes then s.perDevice else s.perDevice + 1 }
      | .skip => { s with ctx := tried.1 }
      | .stop => { s with ctx := tried.1, queueIds := markError idx s.queueIds, stopped := true }
  | _, _, _ => s

/-- The loop that flags the queues of a device whose run list failed. -/
def markAllError (ids queueIds : List (BitVec 32)) : List (BitVec 32) :=
  ids.foldl
    (fun queueIds id =>
      match qArrayGetIndex id queueIds with
      | none => queueIds
      | some idx => markError idx queueIds)
    queueIds

/-- The loop over the queues of a device whose run list was executed. -/
def settleAll (settle : Queue → Queue) (ids queueIds : List (BitVec 32)) (c : Ctx) : Ctx :=
  { c with qpd := { c.qpd with
    queues := c.qpd.queues.mapIdx fun i q =>
      if (ids[i]?.bind (qArrayGetIndex · queueIds)).isSome then settle q else q } }

def onDevice (r : Request) (hw : Hw) (d : Device) (queueIds : List (BitVec 32)) (total : Nat) :
    Device × List (BitVec 32) × Nat :=
  let s := (range d.ctx.qpd.queues.length).foldl
    (visit r hw d.ctx.dqm.enableMes d.queueIds) ⟨d.ctx, queueIds, total, 0, false⟩
  if s.perDevice = 0 then ({ d with ctx := s.ctx }, s.queueIds, s.total)
  else
    let executed := executeQueuesCpsch hw s.ctx.dqm
    let ctx := { s.ctx with dqm := executed.1 }
    match executed.2 with
    | some _ => ({ d with ctx := ctx }, markAllError d.queueIds s.queueIds, s.total)
    | none =>
      ({ d with ctx := settleAll r.settle d.queueIds s.queueIds ctx }, s.queueIds,
        s.total + s.perDevice)

/-- The loop over the devices, each with the answers of its hardware. -/
def onDevices (r : Request) : List (Hw × Device) → List (BitVec 32) → Nat →
    List Device × List (BitVec 32) × Nat
  | [], queueIds, total => ([], queueIds, total)
  | (hw, d) :: ds, queueIds, total =>
    let one := onDevice r hw d queueIds total
    let rest := onDevices r ds one.2.1 one.2.2
    (one.1 :: rest.1, rest.2)

/-- `exception_status &= ~exception_clear_mask`, of which `EC_QUEUE_NEW` is looked at here. -/
def clearException (clearNew : Bool) (q : Queue) : Queue :=
  if clearNew then { q with isNew := false } else q

/-- `suspend_queues`: a queue that is busy is passed over. With MES its exceptions are cleared at
once. `clearNew` says that `exception_clear_mask` has `EC_QUEUE_NEW`. -/
def suspendRequest (clearNew : Bool) : Request :=
  { attempt := fun hw c i q =>
      let r := suspendSingleQueue hw c i q
      match r.2 with
      | none =>
        if c.dqm.enableMes then
          ({ r.1 with qpd := { r.1.qpd with
              queues := r.1.qpd.queues.modify i (clearException clearNew) } }, .done)
        else (r.1, .done)
      | some e => (r.1, if e = .ebusy then .skip else .stop)
    settle := clearException clearNew }

def resumeRequest : Request :=
  { attempt := fun hw c i q =>
      let r := resumeSingleQueue hw c i q
      (r.1, if r.2 = none then .done else .stop)
    settle := id }

/-- Both calls. `userIds` is the array of the caller, or the error of copying it. The array that is
returned is the one that is copied back. -/
def requestQueues (r : Request) (devices : List (Hw × Device))
    (userIds : Except Errno (List (BitVec 32))) :
    Except Errno (List Device × List (BitVec 32) × Nat) :=
  match userIds with
  | .error e => .error e
  | .ok queueIds => .ok (onDevices r devices (qArrayInvalidate queueIds) 0)

def suspendQueues (clearNew : Bool) (devices : List (Hw × Device))
    (userIds : Except Errno (List (BitVec 32))) :=
  requestQueues (suspendRequest clearNew) devices userIds

def resumeQueues (devices : List (Hw × Device)) (userIds : Except Errno (List (BitVec 32))) :=
  requestQueues resumeRequest devices userIds

/-! ## The array -/

def isClear (e : BitVec 32) : Bool :=
  e &&& kfdDbgQueueErrorMask == 0 && e &&& kfdDbgQueueInvalidMask == 0

def entryId (e : BitVec 32) : BitVec 32 := e &&& ~~~kfdDbgQueueInvalidMask

theorem getLsbD_error (k : Nat) : kfdDbgQueueErrorMask.getLsbD k = decide (k = 30) := by
  rw [kfdDbgQueueErrorMask, BitVec.getLsbD_twoPow]
  by_cases h : k = 30
  · subst h
    decide
  · simp [h, Ne.symm h]

theorem getLsbD_invalid (k : Nat) : kfdDbgQueueInvalidMask.getLsbD k = decide (k = 31) := by
  rw [kfdDbgQueueInvalidMask, BitVec.getLsbD_twoPow]
  by_cases h : k = 31
  · subst h
    decide
  · simp [h, Ne.symm h]

theorem and_twoPow_eq_zero (e : BitVec 32) (b : Nat) :
    (e &&& BitVec.twoPow 32 b == 0) = !e.getLsbD b := by
  rw [BitVec.and_twoPow]
  cases h : e.getLsbD b with
  | false => rfl
  | true =>
    have hb : b < 32 := BitVec.lt_of_getLsbD h
    have hne : BitVec.twoPow 32 b ≠ 0 := by
      intro hzero
      have hbit := congrArg (BitVec.getLsbD · b) hzero
      simp [hb] at hbit
    simpa using hne

theorem isClear_iff (e : BitVec 32) :
    isClear e = true ↔ e.getLsbD 30 = false ∧ e.getLsbD 31 = false := by
  unfold isClear kfdDbgQueueErrorMask kfdDbgQueueInvalidMask
  rw [and_twoPow_eq_zero, and_twoPow_eq_zero, Bool.and_eq_true_iff, Bool.not_eq_true',
    Bool.not_eq_true']

theorem getLsbD_entryId (e : BitVec 32) {k : Nat} (hk : k < 32) :
    (entryId e).getLsbD k = (e.getLsbD k && !decide (k = 31)) := by
  simp only [entryId, BitVec.getLsbD_and, BitVec.getLsbD_not, getLsbD_invalid, hk, decide_true,
    Bool.true_and]

theorem entryId_of_isClear {e : BitVec 32} (h : isClear e = true) : entryId e = e := by
  apply BitVec.eq_of_getLsbD_eq
  intro k hk
  rw [getLsbD_entryId e hk]
  by_cases hk31 : k = 31
  · subst hk31
    rw [((isClear_iff e).mp h).2, Bool.false_and]
  · simp [hk31]

theorem entryId_entryId (e : BitVec 32) : entryId (entryId e) = entryId e := by
  simp only [entryId, BitVec.and_assoc, BitVec.and_self]

theorem not_isClear_error (e : BitVec 32) : isClear (e ||| kfdDbgQueueErrorMask) = false := by
  by_contra h
  have hbit := ((isClear_iff _).mp (Bool.eq_true_of_not_eq_false h)).1
  rw [BitVec.getLsbD_or, getLsbD_error] at hbit
  simp at hbit

theorem not_isClear_invalid (e : BitVec 32) : isClear (e ||| kfdDbgQueueInvalidMask) = false := by
  by_contra h
  have hbit := ((isClear_iff _).mp (Bool.eq_true_of_not_eq_false h)).2
  rw [BitVec.getLsbD_or, getLsbD_invalid] at hbit
  simp at hbit

theorem entryId_error_ne {e v : BitVec 32} (h : isClear v = true) :
    entryId (e ||| kfdDbgQueueErrorMask) ≠ v := by
  rintro rfl
  have hbit := ((isClear_iff _).mp h).1
  rw [getLsbD_entryId _ (by decide), BitVec.getLsbD_or, getLsbD_error] at hbit
  simp at hbit

def clearIds (a : List (BitVec 32)) : Finset (BitVec 32) := (a.filter isClear).toFinset

variable {a : List (BitVec 32)}

theorem mem_clearIds {v : BitVec 32} : v ∈ clearIds a ↔ v ∈ a ∧ isClear v = true := by
  rw [clearIds, mem_toFinset, mem_filter]

def First (a : List (BitVec 32)) (idx : Nat) (v : BitVec 32) : Prop :=
  ∀ k < idx, ∀ e, a[k]? = some e → entryId e ≠ v

/-- An entry without a flag is the one that the search for its id finds. -/
def Found (a : List (BitVec 32)) : Prop :=
  ∀ idx v, a[idx]? = some v → isClear v = true → First a idx v

theorem qArrayGetIndex_eq_some {id : BitVec 32} {idx : Nat} :
    qArrayGetIndex id a = some idx ↔ (∃ e, a[idx]? = some e ∧ entryId e = id) ∧ First a idx id := by
  unfold qArrayGetIndex
  rw [findIdx?_eq_some_iff_getElem]
  constructor
  · rintro ⟨hlt, hmatch, hbefore⟩
    refine ⟨⟨a[idx], getElem?_eq_getElem hlt, (beq_iff_eq.mp hmatch).symm⟩, ?_⟩
    intro k hk e he hid
    obtain ⟨hk', rfl⟩ := List.getElem?_eq_some_iff.mp he
    exact hbefore k hk (beq_iff_eq.mpr hid.symm)
  · rintro ⟨⟨e, he, hid⟩, hfirst⟩
    obtain ⟨hlt, rfl⟩ := List.getElem?_eq_some_iff.mp he
    refine ⟨hlt, beq_iff_eq.mpr hid.symm, fun k hk hmatch => ?_⟩
    exact hfirst k hk _ (getElem?_eq_getElem _) (beq_iff_eq.mp hmatch).symm

theorem qArrayGetIndex_eq_none {id : BitVec 32} :
    qArrayGetIndex id a = none ↔ ∀ e ∈ a, entryId e ≠ id := by
  unfold qArrayGetIndex
  rw [findIdx?_eq_none_iff]
  refine forall₂_congr fun e _ => ?_
  rw [beq_eq_false_iff_ne]
  exact ne_comm

section
variable {a : List (BitVec 32)} {id : BitVec 32} {idx : Nat}

variable {f : BitVec 32 → BitVec 32}

theorem getElem?_modify_self {e : BitVec 32} (he : a[idx]? = some e) :
    (a.modify idx f)[idx]? = some (f e) := by
  rw [getElem?_modify_eq, he]
  rfl

theorem found_modify (ha : Found a) (hidx : qArrayGetIndex id a = some idx)
    (hf : ∀ v e, isClear v = true → entryId e = id → entryId (f e) = v → v = id) :
    Found (a.modify idx f) := by
  obtain ⟨⟨e, he, hid⟩, hfirst⟩ := qArrayGetIndex_eq_some.mp hidx
  have hsame : ∀ k, k ≠ idx → (a.modify idx f)[k]? = a[k]? := fun k hk =>
    getElem?_modify_ne f a (Ne.symm hk)
  have hnew := getElem?_modify_self (f := f) he
  intro k v hk hv l hl e' he'
  rcases eq_or_ne k idx with rfl | hk'
  · rw [hnew] at hk
    obtain rfl := Option.some.inj hk
    have hvid := hf _ e hv hid (entryId_of_isClear hv)
    rw [hsame l (ne_of_lt hl)] at he'
    rw [hvid]
    exact hfirst l hl e' he'
  · rw [hsame k hk'] at hk
    have hbefore := ha k v hk hv
    rcases eq_or_ne l idx with rfl | hl'
    · rw [hnew] at he'
      obtain rfl := Option.some.inj he'
      intro hev
      have hvid := hf v e hv hid hev
      exact hbefore l hl e he (hid.trans hvid.symm)
    · rw [hsame l hl'] at he'
      exact hbefore l hl e' he'

theorem mem_clearIds_modify {e : BitVec 32} (he : a[idx]? = some e) {v : BitVec 32} :
    v ∈ clearIds (a.modify idx f) ↔
      isClear v = true ∧ (v = f e ∨ ∃ k, k ≠ idx ∧ a[k]? = some v) := by
  rw [mem_clearIds, and_comm, mem_iff_getElem?]
  refine and_congr_right fun _ => ⟨?_, ?_⟩
  · rintro ⟨k, hk⟩
    rcases eq_or_ne k idx with rfl | hk'
    · rw [getElem?_modify_self he] at hk
      exact .inl (Option.some.inj hk).symm
    · rw [getElem?_modify_ne f a (Ne.symm hk')] at hk
      exact .inr ⟨k, hk', hk⟩
  · rintro (rfl | ⟨k, hk', hk⟩)
    · exact ⟨idx, getElem?_modify_self he⟩
    · exact ⟨k, by rw [getElem?_modify_ne f a (Ne.symm hk'), hk]⟩

theorem mem_iff_exists_ne {e v : BitVec 32} (he : a[idx]? = some e) (hv : isClear v = true)
    (hne : v ≠ entryId e) : v ∈ a ↔ ∃ k, k ≠ idx ∧ a[k]? = some v := by
  rw [mem_iff_getElem?]
  refine ⟨fun ⟨k, hk⟩ => ⟨k, ?_, hk⟩, fun ⟨k, _, hk⟩ => ⟨k, hk⟩⟩
  rintro rfl
  rw [he] at hk
  obtain rfl := Option.some.inj hk
  exact hne (entryId_of_isClear hv).symm

theorem markValid_clearIds (ha : Found a) (hid : isClear id = true)
    (hidx : qArrayGetIndex id a = some idx) :
    Found (markValid idx a) ∧ clearIds (markValid idx a) = insert id (clearIds a) := by
  obtain ⟨⟨e, he, rfl⟩, hfirst⟩ := qArrayGetIndex_eq_some.mp hidx
  constructor
  · refine found_modify ha hidx fun v e' _ he' hv => ?_
    rw [← hv, ← he']
    exact entryId_entryId e'
  · ext v
    unfold markValid
    rw [mem_clearIds_modify he, Finset.mem_insert, mem_clearIds]
    show isClear v = true ∧ (v = entryId e ∨ _) ↔ _
    rcases eq_or_ne v (entryId e) with rfl | hne
    · exact iff_of_true ⟨hid, .inl rfl⟩ (.inl rfl)
    · rw [or_iff_right hne, or_iff_right hne, and_comm]
      exact and_congr_left fun hv => (mem_iff_exists_ne he hv hne).symm

theorem markError_clearIds (ha : Found a) (hid : isClear id = true)
    (hidx : qArrayGetIndex id a = some idx) :
    Found (markError idx a) ∧ clearIds (markError idx a) = (clearIds a).erase id := by
  obtain ⟨⟨e, he, rfl⟩, hfirst⟩ := qArrayGetIndex_eq_some.mp hidx
  constructor
  · exact found_modify ha hidx fun v e' hv _ he' => absurd he' (entryId_error_ne hv)
  · ext v
    unfold markError
    rw [mem_clearIds_modify he, Finset.mem_erase, mem_clearIds]
    constructor
    · rintro ⟨hv, rfl | ⟨k, hk', hk⟩⟩
      · rw [not_isClear_error] at hv
        cases hv
      · refine ⟨?_, mem_iff_getElem?.mpr ⟨k, hk⟩, hv⟩
        rintro rfl
        -- two entries for one id: the search finds the first of them only
        rcases Nat.lt_or_gt_of_ne hk' with hlt | hgt
        · exact hfirst k hlt _ hk (entryId_entryId e)
        · exact ha k _ hk hv idx hgt e he rfl
    · rintro ⟨hne, hmem, hv⟩
      exact ⟨hv, .inr ((mem_iff_exists_ne he hv hne).mp hmem)⟩

theorem countP_isClear (ha : Found a) : a.countP isClear = (clearIds a).card := by
  have hnodup : (a.filter isClear).Nodup := by
    refine pairwise_filter.mpr (pairwise_iff_getElem.mpr ?_)
    intro j k hj hk hlt hclear hclear' heq
    refine ha k _ (getElem?_eq_getElem hk) hclear' j hlt _ (getElem?_eq_getElem hj) ?_
    rw [entryId_of_isClear hclear, heq]
  rw [clearIds, toFinset_card_of_nodup hnodup, countP_eq_length_filter]

end

def withoutFlags (e : BitVec 32) : BitVec 32 :=
  e &&& ~~~(kfdDbgQueueErrorMask ||| kfdDbgQueueInvalidMask)

theorem withoutFlags_congr {e e' : BitVec 32}
    (h : ∀ k < 32, k ≠ 30 → k ≠ 31 → e.getLsbD k = e'.getLsbD k) :
    withoutFlags e = withoutFlags e' := by
  apply BitVec.eq_of_getLsbD_eq
  intro k hk
  simp only [withoutFlags, BitVec.getLsbD_and, BitVec.getLsbD_not, BitVec.getLsbD_or,
    getLsbD_error, getLsbD_invalid]
  by_cases hflag : k = 30 ∨ k = 31
  · rcases hflag with rfl | rfl <;> simp
  · rw [h k hk (fun hk30 => hflag (.inl hk30)) fun hk31 => hflag (.inr hk31)]

theorem withoutFlags_error (e : BitVec 32) :
    withoutFlags (e ||| kfdDbgQueueErrorMask) = withoutFlags e :=
  withoutFlags_congr fun k _ h30 _ => by rw [BitVec.getLsbD_or, getLsbD_error]; simp [h30]

theorem withoutFlags_invalid (e : BitVec 32) :
    withoutFlags (e ||| kfdDbgQueueInvalidMask) = withoutFlags e :=
  withoutFlags_congr fun k _ _ h31 => by rw [BitVec.getLsbD_or, getLsbD_invalid]; simp [h31]

theorem withoutFlags_entryId (e : BitVec 32) : withoutFlags (entryId e) = withoutFlags e :=
  withoutFlags_congr fun k hk _ h31 => by rw [getLsbD_entryId e hk]; simp [h31]

theorem map_modify_same {f g : BitVec 32 → BitVec 32} (h : ∀ e, g (f e) = g e)
    (a : List (BitVec 32)) (idx : Nat) : (a.modify idx f).map g = a.map g := by
  apply ext_getElem?
  intro k
  rw [getElem?_map, getElem?_map, getElem?_modify]
  cases a[k]? with
  | none => rfl
  | some e =>
    show some (g (if idx = k then f e else e)) = some (g e)
    split_ifs
    · rw [h]
    · rfl

theorem markValid_withoutFlags (a : List (BitVec 32)) (idx : Nat) :
    (markValid idx a).map withoutFlags = a.map withoutFlags :=
  map_modify_same withoutFlags_entryId a idx

theorem markError_withoutFlags (a : List (BitVec 32)) (idx : Nat) :
    (markError idx a).map withoutFlags = a.map withoutFlags :=
  map_modify_same withoutFlags_error a idx

theorem qArrayInvalidate_withoutFlags (a : List (BitVec 32)) :
    (qArrayInvalidate a).map withoutFlags = a.map withoutFlags := by
  rw [qArrayInvalidate, map_map]
  exact map_congr_left fun e _ => withoutFlags_invalid e

theorem not_isClear_of_mem_invalidate {a : List (BitVec 32)} {v : BitVec 32}
    (h : v ∈ qArrayInvalidate a) : isClear v ≠ true := by
  obtain ⟨e, -, rfl⟩ := mem_map.mp h
  rw [not_isClear_invalid]
  decide

theorem qArrayInvalidate_clearIds (a : List (BitVec 32)) :
    Found (qArrayInvalidate a) ∧ clearIds (qArrayInvalidate a) = ∅ := by
  constructor
  · exact fun idx v hv hclear =>
      absurd hclear (not_isClear_of_mem_invalidate (mem_of_getElem? hv))
  · refine Finset.eq_empty_of_forall_notMem fun v hv => ?_
    exact not_isClear_of_mem_invalidate (mem_clearIds.mp hv).1 (mem_clearIds.mp hv).2

theorem markAllError_clearIds {a : List (BitVec 32)} {ids : List (BitVec 32)} (ha : Found a)
    (hids : ∀ id ∈ ids, isClear id = true) :
    Found (markAllError ids a) ∧ clearIds (markAllError ids a) = clearIds a \ ids.toFinset ∧
      (markAllError ids a).map withoutFlags = a.map withoutFlags := by
  induction ids generalizing a with
  | nil => exact ⟨ha, by simp [markAllError], rfl⟩
  | cons id ids ih =>
    have hrest : ∀ id ∈ ids, isClear id = true := fun id h => hids id (mem_cons_of_mem _ h)
    cases hidx : qArrayGetIndex id a with
    | none =>
      obtain ⟨hfound, hclear, hsame⟩ := ih ha hrest
      have hid : id ∉ clearIds a := fun h =>
        qArrayGetIndex_eq_none.mp hidx id (mem_clearIds.mp h).1
          (entryId_of_isClear (mem_clearIds.mp h).2)
      simp only [markAllError, foldl_cons, hidx] at hfound hclear hsame ⊢
      refine ⟨hfound, ?_, hsame⟩
      rw [hclear, toFinset_cons, Finset.sdiff_insert_of_notMem hid]
    | some idx =>
      obtain ⟨hfound', hclear'⟩ := markError_clearIds ha (hids id mem_cons_self) hidx
      obtain ⟨hfound, hclear, hsame⟩ := ih hfound' hrest
      simp only [markAllError, foldl_cons, hidx] at hfound hclear hsame ⊢
      refine ⟨hfound, ?_, hsame.trans (markError_withoutFlags a idx)⟩
      rw [hclear, hclear', toFinset_cons, Finset.erase_sdiff_comm, Finset.sdiff_insert]

/-! ## One device -/

/-- No run list can be executed: MES is not used, and the scheduler hangs or is being reset. -/
def NoRunlist (dqm : Dqm) : Prop :=
  dqm.enableMes = false ∧
    (dqm.isHwsHang = true ∨ dqm.schedRunning = true ∧ dqm.isResetting = true)

theorem executeQueuesCpsch_noRunlist (hw : Hw) {dqm : Dqm} (h : NoRunlist dqm) :
    (executeQueuesCpsch hw dqm).2 ≠ none := by
  unfold executeQueuesCpsch unmapQueuesCpsch
  rcases h.2 with hhang | ⟨hrun, hreset⟩
  · simp [hhang]
  · cases hhang : dqm.isHwsHang <;> simp [hrun, hreset]

theorem executeQueuesCpsch_good {dqm : Dqm} (hmes : dqm.enableMes = false)
    (h : ¬ NoRunlist dqm) : (executeQueuesCpsch .good dqm).2 = none := by
  unfold NoRunlist at h
  unfold executeQueuesCpsch unmapQueuesCpsch mapQueuesCpsch Hw.good
  grind

/-- What trying a queue does: it changes that queue alone, to one that stands in `Done` to what it
was if the queue is done. Settling a queue that is done keeps it so. -/
structure Request.Does (r : Request) (Done : Queue → Queue → Prop) : Prop where
  attempt : ∀ hw c i q, c.qpd.queues[i]? = some q →
    ∃ q', (r.attempt hw c i q).1.qpd.queues = c.qpd.queues.set i q' ∧
      ((r.attempt hw c i q).2 = .done → Done q q')
  noRunlist : ∀ hw c i q, NoRunlist c.dqm → NoRunlist (r.attempt hw c i q).1.dqm
  settle : ∀ q q', Done q q' → Done q (r.settle q')

def DoneAt (Done : Queue → Queue → Prop) (d : Device) (c : Ctx) (k : Nat) (id : BitVec 32) : Prop :=
  d.queueIds[k]? = some id ∧
    ∃ q q', d.ctx.qpd.queues[k]? = some q ∧ c.qpd.queues[k]? = some q' ∧ Done q q'

/-- The queue loop before place `i`: `done` are the ids it has made valid. -/
structure LoopInv (Done : Queue → Queue → Prop) (d : Device) (mes : Bool) (a : List (BitVec 32))
    (total : Nat) (i : Nat) (s : Loop) (done : Finset (BitVec 32)) : Prop where
  found : Found s.queueIds
  clear : clearIds s.queueIds = clearIds a ∪ done
  doneAt : ∀ id ∈ done, ∃ k < i, DoneAt Done d s.ctx k id
  rest : ∀ k, i ≤ k → s.ctx.qpd.queues[k]? = d.ctx.qpd.queues[k]?
  noRunlist : NoRunlist d.ctx.dqm → NoRunlist s.ctx.dqm
  total : s.total = if mes then total + done.card else total
  perDevice : s.perDevice = if mes then 0 else done.card
  same : s.queueIds.map withoutFlags = a.map withoutFlags

theorem visit_cases (r : Request) (hw : Hw) (mes : Bool) (ids : List (BitVec 32)) (s : Loop)
    (i : Nat) :
    visit r hw mes ids s i = s ∨
      ∃ id q idx, ids[i]? = some id ∧ s.ctx.qpd.queues[i]? = some q ∧
        qArrayGetIndex id s.queueIds = some idx ∧
        (((r.attempt hw s.ctx i q).2 = .done ∧ visit r hw mes ids s i =
            { s with
              ctx := (r.attempt hw s.ctx i q).1
              queueIds := markValid idx s.queueIds
              total := if mes then s.total + 1 else s.total
              perDevice := if mes then s.perDevice else s.perDevice + 1 }) ∨
          (visit r hw mes ids s i = { s with ctx := (r.attempt hw s.ctx i q).1 }) ∨
          (visit r hw mes ids s i =
            { s with
              ctx := (r.attempt hw s.ctx i q).1
              queueIds := markError idx s.queueIds
              stopped := true })) := by
  unfold visit
  split
  case h_1 id q _ hid hq =>
    cases hidx : qArrayGetIndex id s.queueIds with
    | none => exact .inl rfl
    | some idx =>
      refine .inr ⟨id, q, idx, hid, hq, hidx, ?_⟩
      cases hv : (r.attempt hw s.ctx i q).2 with
      | done => exact .inl ⟨rfl, by simp [hv]⟩
      | skip => exact .inr (.inl (by simp [hv]))
      | stop => exact .inr (.inr (by simp [hv]))
  case h_2 => exact .inl rfl

section
variable {r : Request} {Done : Queue → Queue → Prop} {d : Device} {mes : Bool}
  {a : List (BitVec 32)} {total i : Nat} {s : Loop} {done : Finset (BitVec 32)}

section
variable (h : LoopInv Done d mes a total i s done)
include h

theorem LoopInv.setQueue {c : Ctx} {q' : Queue} (hc : c.qpd.queues = s.ctx.qpd.queues.set i q')
    (hkeep : NoRunlist s.ctx.dqm → NoRunlist c.dqm) :
    LoopInv Done d mes a total (i + 1) { s with ctx := c } done := by
  refine ⟨h.found, h.clear, ?_, ?_, fun hno => hkeep (h.noRunlist hno), h.total, h.perDevice,
    h.same⟩
  · intro id hid
    obtain ⟨k, hk, hat, q, q1, hq, hq1, hdone⟩ := h.doneAt id hid
    refine ⟨k, Nat.lt_succ_of_lt hk, hat, q, q1, hq, ?_, hdone⟩
    rw [hc, getElem?_set_ne (ne_of_gt hk)]
    exact hq1
  · intro k hk
    show c.qpd.queues[k]? = _
    rw [hc, getElem?_set_ne (ne_of_lt hk)]
    exact h.rest k (Nat.le_of_succ_le hk)

theorem LoopInv.skip : LoopInv Done d mes a total (i + 1) s done := by
  refine ⟨h.found, h.clear, ?_, fun k hk => h.rest k (Nat.le_of_succ_le hk), h.noRunlist, h.total,
    h.perDevice, h.same⟩
  intro id hid
  obtain ⟨k, hk, hat⟩ := h.doneAt id hid
  exact ⟨k, Nat.lt_succ_of_lt hk, hat⟩

theorem LoopInv.id_not_done (hids : d.queueIds.Nodup) {id : BitVec 32}
    (hid : d.queueIds[i]? = some id) : id ∉ done := by
  intro hdone
  obtain ⟨k, hk, hat, -⟩ := h.doneAt id hdone
  have hlt : i < d.queueIds.length := (List.getElem?_eq_some_iff.mp hid).1
  exact nodup_iff_getElem?_ne_getElem?.mp hids k i hk hlt (hat.trans hid.symm)

end

theorem LoopInv.visit (hr : r.Does Done) (hw : Hw) (hids : d.queueIds.Nodup)
    (hclear : ∀ id ∈ d.queueIds, isClear id = true) (hnew : ∀ id ∈ d.queueIds, id ∉ clearIds a)
    (h : LoopInv Done d mes a total i s done) :
    ∃ done', LoopInv Done d mes a total (i + 1) (visit r hw mes d.queueIds s i) done' := by
  rcases visit_cases r hw mes d.queueIds s i with he | ⟨id, q, idx, hid, hq, hidx, hcases⟩
  · rw [he]
    exact ⟨done, h.skip⟩
  have hmem : id ∈ d.queueIds := mem_of_getElem? hid
  obtain ⟨q', hset, hdone⟩ := hr.attempt hw s.ctx i q hq
  have hnext := h.setQueue hset (hr.noRunlist hw s.ctx i q)
  have hnotDone := h.id_not_done hids hid
  rcases hcases with ⟨hverdict, he⟩ | he | he <;> rw [he]
  · obtain ⟨hfound', hclear'⟩ := markValid_clearIds h.found (hclear id hmem) hidx
    refine ⟨insert id done, hfound', ?_, ?_, hnext.rest, hnext.noRunlist, ?_, ?_,
      (markValid_withoutFlags _ idx).trans h.same⟩
    · rw [hclear', h.clear, Finset.union_insert]
    · intro id' hid'
      rcases Finset.mem_insert.mp hid' with rfl | hid'
      · have hlt : i < s.ctx.qpd.queues.length := (List.getElem?_eq_some_iff.mp hq).1
        refine ⟨i, Nat.lt_succ_self i, hid, q, q', (h.rest i (le_refl i)).symm.trans hq, ?_,
          hdone hverdict⟩
        rw [hset, getElem?_set_self hlt]
      · exact hnext.doneAt id' hid'
    · rw [Finset.card_insert_of_notMem hnotDone]
      show (if mes then s.total + 1 else s.total) = _
      rw [h.total]
      cases mes <;> rfl
    · rw [Finset.card_insert_of_notMem hnotDone]
      show (if mes then s.perDevice else s.perDevice + 1) = _
      rw [h.perDevice]
      cases mes <;> rfl
  · exact ⟨done, hnext⟩
  · obtain ⟨hfound', hclear'⟩ := markError_clearIds h.found (hclear id hmem) hidx
    refine ⟨done, hfound', ?_, hnext.doneAt, hnext.rest, hnext.noRunlist, h.total, h.perDevice,
      (markError_withoutFlags _ idx).trans h.same⟩
    have hnot : id ∉ clearIds a ∪ done := by
      rw [Finset.mem_union, not_or]
      exact ⟨hnew id hmem, hnotDone⟩
    rw [hclear', h.clear, Finset.erase_eq_of_notMem hnot]

theorem DoneAt.settleAll (hr : r.Does Done) {c : Ctx} {k : Nat} {id : BitVec 32}
    (h : DoneAt Done d c k id) (dqm : Dqm) (queueIds : List (BitVec 32)) :
    DoneAt Done d (settleAll r.settle d.queueIds queueIds { c with dqm := dqm }) k id := by
  obtain ⟨hat, q, q', hq, hq', hdone⟩ := h
  let settled :=
    if (d.queueIds[k]?.bind (qArrayGetIndex · queueIds)).isSome then r.settle q' else q'
  refine ⟨hat, q, settled, hq, ?_, ?_⟩
  · show (c.qpd.queues.mapIdx _)[k]? = _
    rw [getElem?_mapIdx, hq']
    rfl
  · show Done q (if _ then _ else _)
    split_ifs
    · exact hr.settle q q' hdone
    · exact hdone

theorem report_device (hr : r.Does Done) (hw : Hw) (d : Device) (ha : Found a)
    (hids : d.queueIds.Nodup) (hclear : ∀ id ∈ d.queueIds, isClear id = true)
    (hnew : ∀ id ∈ d.queueIds, id ∉ clearIds a) (total : Nat) :
    ∃ done : Finset (BitVec 32), Found (onDevice r hw d a total).2.1 ∧
      clearIds (onDevice r hw d a total).2.1 = clearIds a ∪ done ∧
      (∀ id ∈ done, ¬ NoRunlist d.ctx.dqm ∧
        ∃ k, DoneAt Done d (onDevice r hw d a total).1.ctx k id) ∧
      (onDevice r hw d a total).1.queueIds = d.queueIds ∧
      (onDevice r hw d a total).2.2 = total + done.card ∧
      (onDevice r hw d a total).2.1.map withoutFlags = a.map withoutFlags := by
  have hstart : LoopInv Done d d.ctx.dqm.enableMes a total 0 ⟨d.ctx, a, total, 0, false⟩ ∅ := by
    refine ⟨ha, by simp, by simp, fun _ _ => rfl, id, ?_, ?_, rfl⟩
    · cases d.ctx.dqm.enableMes <;> rfl
    · cases d.ctx.dqm.enableMes <;> rfl
  obtain ⟨done, h⟩ := Lib.foldl_range_inv
    (f := visit r hw d.ctx.dqm.enableMes d.queueIds)
    (P := fun i s => ∃ done, LoopInv Done d d.ctx.dqm.enableMes a total i s done)
    (fun i s ⟨done, h⟩ => h.visit hr hw hids hclear hnew) ⟨∅, hstart⟩ d.ctx.qpd.queues.length
  unfold onDevice
  generalize (range d.ctx.qpd.queues.length).foldl _ _ = s at h ⊢
  have hat : ∀ id ∈ done, ∃ k, DoneAt Done d s.ctx k id := fun id hid =>
    let ⟨k, _, hat⟩ := h.doneAt id hid
    ⟨k, hat⟩
  by_cases hnone : s.perDevice = 0
  · simp only [hnone, if_true]
    have hcount := h.perDevice
    rw [hnone] at hcount
    cases hmes : d.ctx.dqm.enableMes with
    | true =>
      refine ⟨done, h.found, h.clear, fun id hid => ⟨fun hno => ?_, hat id hid⟩, trivial, ?_,
        h.same⟩
      · rw [hno.1] at hmes
        cases hmes
      · rw [h.total, hmes]
        rfl
    | false =>
      rw [hmes] at hcount
      obtain rfl : done = ∅ := Finset.card_eq_zero.mp hcount.symm
      refine ⟨∅, h.found, h.clear, by simp, trivial, ?_, h.same⟩
      rw [h.total, hmes]
      rfl
  · have hmes : d.ctx.dqm.enableMes = false := by
      by_contra hmes
      rw [Bool.eq_true_of_not_eq_false hmes] at h
      exact hnone h.perDevice
    rw [hmes] at h
    have htotal : s.total = total := h.total
    have hcount : s.perDevice = done.card := h.perDevice
    simp only [hnone, if_false]
    cases hrunlist : (executeQueuesCpsch hw s.ctx.dqm).2 with
    | some e =>
      obtain ⟨hfound, hclear', hsame⟩ := markAllError_clearIds h.found hclear
      refine ⟨∅, hfound, ?_, by simp, rfl, htotal, hsame.trans h.same⟩
      -- the run list failed: all that the device made valid is taken back
      ext v
      rw [hclear', h.clear]
      simp only [Finset.mem_sdiff, Finset.mem_union, mem_toFinset, Finset.notMem_empty,
        or_false]
      constructor
      · rintro ⟨hv | hv, hnot⟩
        · exact hv
        · obtain ⟨k, hid, -⟩ := hat v hv
          exact absurd (mem_of_getElem? hid) hnot
      · exact fun hv => ⟨.inl hv, fun hid => hnew v hid hv⟩
    | none =>
      refine ⟨done, h.found, h.clear, fun id hid => ⟨fun hno => ?_, ?_⟩, rfl, ?_, h.same⟩
      · exact executeQueuesCpsch_noRunlist hw (h.noRunlist hno) hrunlist
      · obtain ⟨k, hdone⟩ := hat id hid
        exact ⟨k, hdone.settleAll hr _ _⟩
      · show s.total + s.perDevice = _
        rw [htotal, hcount]

end

/-! ## All devices -/

/-- The id names a queue of a device with a run list, before and after the call. -/
def DoneIn (Done : Queue → Queue → Prop) (devices : List (Hw × Device)) (devices' : List Device)
    (id : BitVec 32) : Prop :=
  ∃ one ∈ devices, ∃ d' ∈ devices', d'.queueIds = one.2.queueIds ∧ ¬ NoRunlist one.2.ctx.dqm ∧
    ∃ k, DoneAt Done one.2 d'.ctx k id

variable {Done : Queue → Queue → Prop} {i : Nat} {q : Queue}

theorem DoneIn.cons {devices : List (Hw × Device)} {devices' : List Device} {id : BitVec 32}
    (h : DoneIn Done devices devices' id) (one : Hw × Device) (one' : Device) :
    DoneIn Done (one :: devices) (one' :: devices') id := by
  obtain ⟨d, hd, d', hd', hdone⟩ := h
  exact ⟨d, mem_cons_of_mem _ hd, d', mem_cons_of_mem _ hd', hdone⟩

theorem report_devices {r : Request} (hr : r.Does Done) {devices : List (Hw × Device)}
    {a : List (BitVec 32)} (ha : Found a) (hids : (devices.flatMap fun d => d.2.queueIds).Nodup)
    (hclear : ∀ d ∈ devices, ∀ id ∈ d.2.queueIds, isClear id = true)
    (hnew : ∀ d ∈ devices, ∀ id ∈ d.2.queueIds, id ∉ clearIds a) (total : Nat) :
    ∃ done : Finset (BitVec 32), Found (onDevices r devices a total).2.1 ∧
      clearIds (onDevices r devices a total).2.1 = clearIds a ∪ done ∧ Disjoint (clearIds a) done ∧
      (∀ id ∈ done, DoneIn Done devices (onDevices r devices a total).1 id) ∧
      (onDevices r devices a total).2.2 = total + done.card ∧
      (onDevices r devices a total).2.1.map withoutFlags = a.map withoutFlags := by
  induction devices generalizing a total with
  | nil => exact ⟨∅, ha, by simp [onDevices], by simp, by simp, rfl, rfl⟩
  | cons one devices ih =>
    obtain ⟨hw, d⟩ := one
    rw [flatMap_cons, nodup_append] at hids
    obtain ⟨hidsOne, hidsRest, happart⟩ := hids
    have hnewOne : ∀ id ∈ d.queueIds, id ∉ clearIds a := hnew _ mem_cons_self
    obtain ⟨done1, hfound1, hclear1, hat1, hkeep1, htotal1, hsame1⟩ :=
      report_device hr hw d ha hidsOne (hclear _ mem_cons_self) hnewOne total
    have hmem1 : ∀ id ∈ done1, id ∈ d.queueIds := fun id hid =>
      let ⟨_, _, hat, _⟩ := hat1 id hid
      mem_of_getElem? hat
    -- The ids of the devices that follow are still flagged.
    have hnewRest : ∀ d' ∈ devices, ∀ id ∈ d'.2.queueIds,
        id ∉ clearIds (onDevice r hw d a total).2.1 := by
      intro d' hd' id hid hmem
      rw [hclear1, Finset.mem_union] at hmem
      rcases hmem with hmem | hmem
      · exact hnew d' (mem_cons_of_mem _ hd') id hid hmem
      · exact happart id (hmem1 id hmem) id (mem_flatMap.mpr ⟨d', hd', hid⟩) rfl
    obtain ⟨done2, hfound, hclear2, hdisjoint, hat2, htotal2, hsame2⟩ :=
      ih hfound1 hidsRest (fun d' hd' => hclear d' (mem_cons_of_mem _ hd')) hnewRest
        (onDevice r hw d a total).2.2
    rw [hclear1] at hdisjoint
    obtain ⟨hdisjoint1, hdisjoint2⟩ := Finset.disjoint_union_left.mp hdisjoint
    refine ⟨done1 ∪ done2, hfound, ?_, ?_, ?_, ?_, hsame2.trans hsame1⟩
    · show clearIds (onDevices r devices _ _).2.1 = _
      rw [hclear2, hclear1, Finset.union_assoc]
    · refine Finset.disjoint_union_right.mpr
        ⟨Finset.disjoint_right.mpr fun id hid => ?_, hdisjoint1⟩
      exact hnewOne id (hmem1 id hid)
    · intro id hid
      rcases Finset.mem_union.mp hid with hid | hid
      · obtain ⟨hrun, hat⟩ := hat1 id hid
        exact ⟨_, mem_cons_self, _, mem_cons_self, hkeep1, hrun, hat⟩
      · exact (hat2 id hid).cons _ _
    · show (onDevices r devices _ _).2.2 = _
      rw [htotal2, htotal1, Finset.card_union_of_disjoint hdisjoint2, add_assoc]

/-! ## One id -/

section
variable {r : Request} {d : Device} {e v : BitVec 32} {k : Nat}

theorem qArrayGetIndex_singleton (id e : BitVec 32) :
    qArrayGetIndex id [e] = if entryId e = id then some 0 else none := by
  by_cases h : entryId e = id
  · simp [qArrayGetIndex, ← h, entryId]
  · rw [if_neg h, qArrayGetIndex_eq_none]
    simpa using h

theorem entryId_invalid (hv : isClear v = true) :
    entryId (v ||| kfdDbgQueueInvalidMask) = v := by
  apply BitVec.eq_of_getLsbD_eq
  intro i hi
  rw [getLsbD_entryId _ hi, BitVec.getLsbD_or, getLsbD_invalid]
  by_cases h31 : i = 31
  · subst h31
    rw [((isClear_iff v).mp hv).2]
    simp
  · simp [h31]

theorem visit_other (r : Request) (hw : Hw) (mes : Bool) {ids : List (BitVec 32)} {s : Loop}
    (hs : s.queueIds = [e]) {i : Nat} (h : ids[i]? ≠ some (entryId e)) :
    visit r hw mes ids s i = s := by
  rcases visit_cases r hw mes ids s i with he | ⟨id, q, idx, hid, -, hidx, -⟩
  · exact he
  · rw [hs, qArrayGetIndex_singleton] at hidx
    split_ifs at hidx with heq
    exact absurd (heq ▸ hid) h

theorem onDevice_other (r : Request) (hw : Hw) (h : entryId e ∉ d.queueIds) (total : Nat) :
    onDevice r hw d [e] total = (d, [e], total) := by
  have hfold := Lib.foldl_range_inv
    (P := fun _ s => s = (⟨d.ctx, [e], total, 0, false⟩ : Loop))
    (f := visit r hw d.ctx.dqm.enableMes d.queueIds)
    (fun i s hs => by
      rw [hs]
      exact visit_other r hw _ rfl fun hi => h (mem_of_getElem? hi))
    rfl d.ctx.qpd.queues.length
  simp only [onDevice, hfold, if_true]

theorem onDevices_other (r : Request) (before : List (Hw × Device))
    (h : ∀ one ∈ before, entryId e ∉ one.2.queueIds) (devices : List (Hw × Device)) (total : Nat) :
    onDevices r (before ++ devices) [e] total =
      (before.map Prod.snd ++ (onDevices r devices [e] total).1,
        (onDevices r devices [e] total).2) := by
  induction before with
  | nil => rfl
  | cons one before ih =>
    have hone := onDevice_other r one.1 (h one mem_cons_self) total
    simp only [cons_append, onDevices, hone, map_cons,
      ih fun x hx => h x (mem_cons_of_mem _ hx)]

theorem settleAll_queues {settle : Queue → Queue} (h : ∀ q, settle q = q)
    (ids queueIds : List (BitVec 32)) (c : Ctx) :
    (settleAll settle ids queueIds c).qpd.queues = c.qpd.queues := by
  apply ext_getElem?
  intro k
  simp [settleAll, h]

/-- A queue that trying leaves as it is makes its entry valid. -/
theorem onDevice_asked (hnodup : d.queueIds.Nodup) (hid : d.queueIds[k]? = some v)
    (hv : isClear v = true) {q : Queue} (hq : d.ctx.qpd.queues[k]? = some q)
    (hdone : r.attempt .good d.ctx k q = (d.ctx, .done)) (hsettle : ∀ q, r.settle q = q)
    (hrun : ¬ NoRunlist d.ctx.dqm) (total : Nat) :
    ∃ d' total', onDevice r .good d (qArrayInvalidate [v]) total = (d', [v], total') ∧
      d'.queueIds = d.queueIds ∧ d'.ctx.qpd.queues = d.ctx.qpd.queues := by
  have hentry := entryId_invalid hv
  have hother : ∀ i, i ≠ k → d.queueIds[i]? ≠ some v := by
    intro i hne hi
    have hlt : i < d.queueIds.length := (List.getElem?_eq_some_iff.mp hi).1
    exact hne ((getElem?_inj hlt hnodup).mp (hi.trans hid.symm))
  obtain ⟨mes, hmes⟩ : ∃ mes, d.ctx.dqm.enableMes = mes := ⟨_, rfl⟩
  let s0 : Loop := ⟨d.ctx, qArrayInvalidate [v], total, 0, false⟩
  let s1 : Loop :=
    ⟨d.ctx, [v], if mes then total + 1 else total, if mes then 0 else 1, false⟩
  have hvisit : visit r .good mes d.queueIds s0 k = s1 := by
    have hidx : qArrayGetIndex v s0.queueIds = some 0 := by
      simp [s0, qArrayInvalidate, qArrayGetIndex_singleton, hentry]
    have hmark : markValid 0 s0.queueIds = [v] := congrArg ([·]) hentry
    simp only [visit, s0, hid, hq] at hidx hmark ⊢
    simp only [hidx, hdone, hmark, s1, zero_add]
  have hfold := Lib.foldl_range_inv (P := fun i s => s = if i ≤ k then s0 else s1)
    (f := visit r .good mes d.queueIds) (fun i s hs => by
      rcases lt_trichotomy i k with hlt | rfl | hgt
      · rw [hs, if_pos hlt.le, if_pos (Nat.succ_le_of_lt hlt)]
        exact visit_other r _ _ rfl (hentry.symm ▸ hother i hlt.ne)
      · rw [hs, if_pos le_rfl, if_neg (Nat.not_succ_le_self i), hvisit]
      · rw [hs, if_neg hgt.not_ge, if_neg (by omega)]
        exact visit_other r _ _ rfl ((entryId_of_isClear hv).symm ▸ hother i hgt.ne'))
    (if_pos (Nat.zero_le k)).symm d.ctx.qpd.queues.length
  rw [if_neg (List.getElem?_eq_some_iff.mp hq).1.not_ge] at hfold
  unfold onDevice
  rw [hmes, hfold]
  cases mes with
  | true => exact ⟨_, _, rfl, rfl, rfl⟩
  | false =>
    simp only [s1, executeQueuesCpsch_good hmes hrun, Bool.false_eq_true, if_false,
      Nat.one_ne_zero]
    exact ⟨_, _, rfl, rfl, settleAll_queues hsettle _ _ _⟩

end

/-! ## Both calls -/

/-- A process, by its devices. The ids are those of `pqm_create_queue`, below
`KFD_MAX_NUM_OF_QUEUES_PER_PROCESS` and each given once. -/
structure Process where
  devices : List Device
  named : ∀ d ∈ devices, d.queueIds.length = d.ctx.qpd.queues.length
  nodup : (devices.flatMap fun d => d.queueIds).Nodup
  small : ∀ d ∈ devices, ∀ id ∈ d.queueIds, id.toNat < 1024

def Suspended (q : Queue) : Prop := q.isSuspended = true ∧ q.isActive = false

def Resumed (q : Queue) : Prop :=
  q.isSuspended = false ∧ (queueIsActive q = true → q.isActive = true)

/-- The total is the number of entries without a flag, each of those names a queue that is `Good`
now, and every entry is for the id that it had. -/
structure Reported (Good : Queue → Prop) (ids : List (BitVec 32))
    (out : List Device × List (BitVec 32) × Nat) : Prop where
  total : out.2.2 = out.2.1.countP isClear
  done : ∀ e ∈ out.2.1, isClear e = true → ∃ d ∈ out.1, ∃ (k : Nat) (q : Queue),
    d.queueIds[k]? = some e ∧ d.ctx.qpd.queues[k]? = some q ∧ Good q
  ids : out.2.1.map withoutFlags = ids.map withoutFlags

/-- The report of a call is right, whatever the hardware answers and whatever is asked for. -/
def Reports
    (call : List (Hw × Device) → Except Errno (List (BitVec 32)) →
      Except Errno (List Device × List (BitVec 32) × Nat))
    (Good : Queue → Prop) (p : Process) : Prop :=
  ∀ devices : List (Hw × Device), devices.map Prod.snd = p.devices → ∀ ids,
    ∃ out, call devices (.ok ids) = .ok out ∧ Reported Good ids out

theorem isClear_of_small {id : BitVec 32} (h : id.toNat < 1024) : isClear id = true := by
  have hbit : ∀ k, 10 ≤ k → id.getLsbD k = false := fun k hk => by
    rw [← BitVec.testBit_toNat]
    exact Nat.testBit_lt_two_pow (lt_of_lt_of_le h (Nat.pow_le_pow_right Nat.two_pos hk))
  exact (isClear_iff id).mpr ⟨hbit 30 (by decide), hbit 31 (by decide)⟩

section
variable {r : Request} {Held Good : Queue → Prop} {p : Process}

/-- The queues of the devices that have a run list are `Good` if they are `Held`, as those are that
the call leaves alone. -/
def Steady (Held Good : Queue → Prop) (p : Process) : Prop :=
  ∀ d ∈ p.devices, NoRunlist d.ctx.dqm ∨ ∀ q ∈ d.ctx.qpd.queues, Held q → Good q

theorem reports_of_steady (hr : r.Does fun q q' => (Held q → Good q) → Good q')
    (h : Steady Held Good p) : Reports (requestQueues r) Good p := by
  intro devices hdevices ids
  have hmem : ∀ one ∈ devices, one.2 ∈ p.devices := fun one hone =>
    hdevices ▸ mem_map_of_mem hone
  have hnodup : (devices.flatMap fun one => one.2.queueIds).Nodup := by
    have hp := p.nodup
    rwa [← hdevices, flatMap_map] at hp
  obtain ⟨hfound, hempty⟩ := qArrayInvalidate_clearIds ids
  obtain ⟨done, hfound', hclear, -, hdone, htotal, hsame⟩ := report_devices hr hfound hnodup
    (fun d hd id hid => isClear_of_small (p.small d.2 (hmem d hd) id hid))
    (fun _ _ id _ => by simp [hempty]) 0
  rw [hempty, Finset.empty_union] at hclear
  refine ⟨_, rfl, ?_, fun e he hclearE => ?_, hsame.trans (qArrayInvalidate_withoutFlags ids)⟩
  · rw [countP_isClear hfound', hclear, htotal, zero_add]
  · obtain ⟨one, hone, d', hd', hids, hrun, k, hid, q, q', hq, hq', hgood⟩ :=
      hdone e (hclear ▸ mem_clearIds.mpr ⟨he, hclearE⟩)
    have hheld := (h one.2 (hmem one hone)).resolve_left hrun q (mem_of_getElem? hq)
    exact ⟨d', hd', k, q', hids ▸ hid, hq', hgood hheld⟩

theorem steady_of_reports
    (hr : ∀ c i q, c.qpd.queues[i]? = some q → Held q → r.attempt .good c i q = (c, .done))
    (hsettle : ∀ q, r.settle q = q) (h : Reports (requestQueues r) Good p) :
    Steady Held Good p := by
  intro d hd
  refine or_iff_not_imp_left.mpr fun hrun q hq hheld => ?_
  obtain ⟨k, hq⟩ := mem_iff_getElem?.mp hq
  obtain ⟨v, hid⟩ : ∃ v, d.queueIds[k]? = some v := by
    refine ⟨_, getElem?_eq_getElem ?_⟩
    rw [p.named d hd]
    exact (List.getElem?_eq_some_iff.mp hq).1
  have hv : isClear v = true := isClear_of_small (p.small d hd v (mem_of_getElem? hid))
  obtain ⟨before, after, hsplit⟩ := append_of_mem hd
  have hnodup := p.nodup
  rw [hsplit, flatMap_append, flatMap_cons, nodup_append, nodup_append]
    at hnodup
  obtain ⟨-, ⟨hnodup, -, hafter⟩, hbefore⟩ := hnodup
  have hmem := mem_of_getElem? hid
  have hbefore : ∀ x ∈ before, v ∉ x.queueIds := fun x hx hvx =>
    hbefore v (mem_flatMap.mpr ⟨x, hx, hvx⟩) v (mem_append_left _ hmem) rfl
  have hafter : ∀ x ∈ after, v ∉ x.queueIds := fun x hx hvx =>
    hafter v hmem v (mem_flatMap.mpr ⟨x, hx, hvx⟩) rfl
  have hentry := entryId_invalid hv
  obtain ⟨d', total, hone, hids, hqueues⟩ :=
    onDevice_asked hnodup hid hv hq (hr d.ctx k q hq hheld) hsettle hrun 0
  obtain ⟨out, hout, hreport⟩ := h (p.devices.map (Hw.good, ·)) (by simp) [v]
  have hcall : out = (before ++ d' :: after, [v], total) := by
    have hrest := onDevices_other (e := v) r (after.map (Hw.good, ·))
      (by simpa [entryId_of_isClear hv] using hafter) [] total
    have hall := onDevices_other (e := v ||| kfdDbgQueueInvalidMask) r
      (before.map (Hw.good, ·)) (by simpa [hentry] using hbefore)
      ((Hw.good, d) :: after.map (Hw.good, ·)) 0
    cases hout
    rw [hsplit, map_append, map_cons]
    refine hall.trans ?_
    simp [onDevices, qArrayInvalidate] at hone hrest ⊢
    simp [hone, hrest]
  subst hcall
  obtain ⟨x, hx, k', q', hid', hq', hgood⟩ := hreport.done v (mem_singleton_self v) hv
  have hmem' : v ∈ x.queueIds := mem_of_getElem? hid'
  rcases mem_append.mp hx with hx | hx
  · exact absurd hmem' (hbefore x hx)
  rcases mem_cons.mp hx with rfl | hx
  · rw [hids] at hid'
    rw [hqueues] at hq'
    have hlt : k' < d.queueIds.length := (List.getElem?_eq_some_iff.mp hid').1
    obtain rfl := (getElem?_inj hlt hnodup).mp (hid'.trans hid.symm)
    obtain rfl := Option.some.inj (hq'.symm.trans hq)
    exact hgood
  · exact absurd hmem' (hafter x hx)

end

theorem set_self {i : Nat} {q : Queue} {l : List Queue} (h : l[i]? = some q) : l = l.set i q := by
  obtain ⟨hlt, rfl⟩ := List.getElem?_eq_some_iff.mp h
  rw [set_getElem_self]

theorem modify_set {i : Nat} {l : List Queue} (q : Queue) (f : Queue → Queue) :
    (l.set i q).modify i f = l.set i (f q) := by
  apply ext_getElem?
  intro k
  rw [getElem?_modify, getElem?_set, getElem?_set]
  by_cases hk : i = k
  · subst hk
    by_cases hlt : i < l.length
    · simp [hlt]
    · simp [hlt]
  · simp [hk]

variable {i : Nat} {q : Queue}

theorem suspendSingleQueue_does (hw : Hw) {c : Ctx} (hq : c.qpd.queues[i]? = some q) :
    ∃ q', (suspendSingleQueue hw c i q).1.qpd.queues = c.qpd.queues.set i q' ∧
      ((suspendSingleQueue hw c i q).2 = none → (q.isSuspended = true → Suspended q) →
        Suspended q') := by
  unfold suspendSingleQueue
  split
  · next hsuspended => exact ⟨q, set_self hq, fun _ hsteady => hsteady hsuspended⟩
  · split
    · exact ⟨q, set_self hq, fun h => by cases h⟩
    · simp only
      split
      · split
        · exact ⟨{ q with isSuspended := true }, rfl, fun h => by cases h⟩
        · refine ⟨{ q with isSuspended := true, isActive := false }, ?_, fun _ _ => ⟨rfl, rfl⟩⟩
          exact set_set _
      · next hactive =>
        exact ⟨{ q with isSuspended := true }, rfl, fun _ _ => ⟨rfl, by simpa using hactive⟩⟩

theorem clearException_suspended {q : Queue} (clearNew : Bool) (h : Suspended q) :
    Suspended (clearException clearNew q) := by
  unfold clearException
  split_ifs
  · exact h
  · exact h

theorem suspendSingleQueue_noRunlist (hw : Hw) {c : Ctx} (h : NoRunlist c.dqm) :
    NoRunlist (suspendSingleQueue hw c i q).1.dqm := by
  unfold suspendSingleQueue removeQueueIfMes decrementQueueCount Ctx.setQueue
  simp only [h.1, Bool.false_eq_true, if_false]
  split_ifs <;> first | exact h | exact ⟨rfl, h.2⟩

theorem suspendRequest_does (clearNew : Bool) :
    (suspendRequest clearNew).Does fun q q' =>
      (q.isSuspended = true → Suspended q) → Suspended q' := by
  refine ⟨fun hw c i q hq => ?_, fun hw c i q h => ?_,
    fun q q' h hsteady => clearException_suspended clearNew (h hsteady)⟩
  · obtain ⟨q', hset, hdone⟩ := suspendSingleQueue_does hw hq
    cases hret : (suspendSingleQueue hw c i q).2 with
    | some e =>
      refine ⟨q', by simp [suspendRequest, hret, hset], fun hverdict => ?_⟩
      simp only [suspendRequest, hret] at hverdict
      split_ifs at hverdict
    | none =>
      cases hmes : c.dqm.enableMes with
      | true =>
        refine ⟨clearException clearNew q', ?_,
          fun _ hsteady => clearException_suspended clearNew (hdone hret hsteady)⟩
        simp [suspendRequest, hret, hmes, hset, modify_set]
      | false =>
        refine ⟨q', ?_, fun _ => hdone hret⟩
        simp [suspendRequest, hret, hmes, hset]
  · have hkeep := suspendSingleQueue_noRunlist (i := i) (q := q) hw h
    unfold suspendRequest
    dsimp only
    split
    · split_ifs <;> exact hkeep
    · exact hkeep

theorem resumeSingleQueue_does (hw : Hw) {c : Ctx} (hq : c.qpd.queues[i]? = some q) :
    ∃ q', (resumeSingleQueue hw c i q).1.qpd.queues = c.qpd.queues.set i q' ∧
      ((resumeSingleQueue hw c i q).2 = none → (q.isSuspended = false → Resumed q) →
        Resumed q') := by
  unfold resumeSingleQueue
  split
  · simp only
    split
    · split
      · exact ⟨{ q with isSuspended := false }, rfl, fun h => by cases h⟩
      · refine ⟨{ q with isSuspended := false, isActive := true }, ?_,
          fun _ _ => ⟨rfl, fun _ => rfl⟩⟩
        exact set_set _
    · next hactive =>
      exact ⟨{ q with isSuspended := false }, rfl, fun _ _ => ⟨rfl, fun h => absurd h hactive⟩⟩
  · next hresumed =>
    exact ⟨q, set_self hq, fun _ hsteady => hsteady (by simpa using hresumed)⟩

theorem resumeRequest_does :
    resumeRequest.Does fun q q' => (q.isSuspended = false → Resumed q) → Resumed q' := by
  refine ⟨fun hw c i q hq => ?_, fun hw c i q h => ?_, fun q q' h => h⟩
  · obtain ⟨q', hset, hdone⟩ := resumeSingleQueue_does hw hq
    refine ⟨q', hset, fun hverdict => hdone ?_⟩
    simp only [resumeRequest] at hverdict
    split_ifs at hverdict with hnone
    exact hnone
  · unfold resumeRequest resumeSingleQueue addQueueIfMes incrementQueueCount Ctx.setQueue
    simp only [h.1, Bool.false_eq_true, if_false]
    split_ifs <;> first | exact h | exact ⟨rfl, h.2⟩

/-- What `suspend_queues` and `resume_queues` report is right exactly when, on every device that has
a run list, a queue that is flagged as suspended is not active, or one that is not flagged is active
if it can be. A queue that is flagged already gets a clear entry with nothing done to it. -/
theorem queue_reports (p : Process) :
    ((∀ clearNew, Reports (suspendQueues clearNew) Suspended p) ↔
      ∀ d ∈ p.devices, NoRunlist d.ctx.dqm ∨
        ∀ q ∈ d.ctx.qpd.queues, q.isSuspended = true → q.isActive = false) ∧
    (Reports resumeQueues Resumed p ↔
      ∀ d ∈ p.devices, NoRunlist d.ctx.dqm ∨
        ∀ q ∈ d.ctx.qpd.queues, q.isSuspended = false → queueIsActive q = true →
          q.isActive = true) := by
  constructor
  · have hsteady : Steady (·.isSuspended = true) Suspended p ↔ ∀ d ∈ p.devices,
        NoRunlist d.ctx.dqm ∨ ∀ q ∈ d.ctx.qpd.queues, q.isSuspended = true → q.isActive = false :=
      forall₂_congr fun d _ => or_congr_right <| forall₂_congr fun q _ =>
        forall_congr' fun hheld => and_iff_right hheld
    rw [← hsteady]
    refine ⟨fun h => steady_of_reports (fun c i q hq hheld => ?_) (fun q => rfl) (h false),
      fun h clearNew => reports_of_steady (suspendRequest_does clearNew) h⟩
    have hkeep : c.qpd.queues.modify i (clearException false) = c.qpd.queues :=
      (congrArg (c.qpd.queues.modify i) (funext fun _ => rfl)).trans (modify_id _ _)
    simp [suspendRequest, suspendSingleQueue, hheld, hkeep]
  · have hsteady : Steady (·.isSuspended = false) Resumed p ↔ ∀ d ∈ p.devices,
        NoRunlist d.ctx.dqm ∨ ∀ q ∈ d.ctx.qpd.queues, q.isSuspended = false →
          queueIsActive q = true → q.isActive = true :=
      forall₂_congr fun d _ => or_congr_right <| forall₂_congr fun q _ =>
        forall_congr' fun hheld => and_iff_right hheld
    rw [← hsteady]
    refine ⟨fun h => steady_of_reports (fun c i q hq hheld => ?_) (fun q => rfl) h,
      fun h => reports_of_steady resumeRequest_does h⟩
    simp [resumeRequest, resumeSingleQueue, hheld]

def exQueue : Queue :=
  ⟨.compute, 4096, 4096, 100, true, false, false, false, false, false, false⟩

def exDevice : Device :=
  { ctx :=
      { dqm := ⟨true, 4096, true, false, false, false, [0], 1, 1, 1, 0, 1⟩
        qpd := ⟨true, [exQueue], [], [], 1, 0, true, false, 0⟩ }
    queueIds := [3] }

/-- MES does not take the queue off. -/
def exHangs : Hw := { Hw.good with removeHwQueue := fun _ => some .etime }

/-- The device after `suspend_queues` has failed on its queue. -/
def exAfter : Device :=
  { exDevice with ctx :=
      { dqm := { exDevice.ctx.dqm with isHwsHang := true }
        qpd := { exDevice.ctx.qpd with queues := [{ exQueue with isSuspended := true }] } } }

def exProcess : Process where
  devices := [exAfter]
  named := by decide
  nodup := by decide
  small := by simp [exAfter, exDevice]

/-- The first call flags the queue and reports the error, and the second reports that a queue is
suspended that is still active. -/
theorem queue_reports_broken :
    suspendQueues false [(exHangs, exDevice)] (.ok [3]) =
        .ok ([exAfter], [3 ||| kfdDbgQueueInvalidMask ||| kfdDbgQueueErrorMask], 0) ∧
      ¬ Reports (suspendQueues false) Suspended exProcess := by
  refine ⟨rfl, fun h => ?_⟩
  obtain ⟨out, hout, hreport⟩ := h [(.good, exAfter)] rfl [3]
  have hentry : out.2.1 = [3] ∧ out.1 = [exAfter] := by
    cases hout
    exact ⟨rfl, rfl⟩
  obtain ⟨d, hd, k, q, -, hq, hgood⟩ := hreport.done 3 (by simp [hentry.1]) rfl
  rw [hentry.2, mem_singleton] at hd
  subst hd
  obtain rfl := mem_singleton.mp (mem_of_getElem? hq)
  cases hgood.2

end Amdkfd.QueueReport
