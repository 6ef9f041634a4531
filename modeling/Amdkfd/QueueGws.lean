import Amdkfd.QueueSlots

/-!
# The GWS of a process

`pqm_set_gws` of `kfd_process_queue_manager.c` gives the global wave sync of a device to one
queue of a process, or takes it back. The queue has a pointer, and the device data of the
process a count, which the creation and the destruction of queues also change.
-/

namespace Amdkfd.QueueSlots

open Lib Function List

/-- `adev->gds.gws_size`, which is the same in all versions of the GFX block. -/
def gwsSize : Nat := 64

/-- The queues of a process with `q->gws`, by the id of the queue, and `qpd->num_gws`, by
device. Of the pointer it matters whether it is NULL. -/
structure GwsState where
  pqm : Pqm
  gws : Nat → Bool
  numGws : Nat → Nat

def gwsInit (pid : Nat) (pdds : List Pdd) : GwsState :=
  { pqm := pqmInit pid pdds, gws := fun _ => false, numGws := fun _ => 0 }

/-- The device has GWS to give, and does not only go through the formality. -/
def Pdd.usesGws (pdd : Pdd) : Bool :=
  !pdd.isGfx943 && !pdd.enableMes

/-- The arguments of `pqm_set_gws`, and the results of `amdgpu_amdkfd_add_gws_to_process` or
`amdgpu_amdkfd_remove_gws_from_process` and of `update_queue`. -/
structure SetGwsArgs where
  qid : Nat
  gws : Bool
  process : Option Errno
  update : Option Errno

/-- The pointer of the queue and the count after they are written. -/
def GwsState.write (s : GwsState) (pqn : Pqn) (gws : Bool) : GwsState :=
  { s with
    gws := update s.gws pqn.qid gws
    numGws := update s.numGws pqn.dev (if gws then gwsSize else 0) }

/-- `pqm_set_gws`. There is no result when NULL is passed to
`amdgpu_amdkfd_remove_gws_from_process`, which reads it. -/
def pqmSetGws (s : GwsState) (a : SetGwsArgs) : Option (GwsState × Option Errno) :=
  match s.pqm.queues.find? (·.qid = a.qid) with
  | none => some (s, some .einval)
  | some pqn =>
    if pqn.kernel then some (s, some .enodev)
    else
      match s.pqm.pdds[pqn.dev]? with
      | none => some (s, some .einval)
      | some pdd =>
        if a.gws ∧ s.numGws pqn.dev ≠ 0 then some (s, some .ebusy)
        else if a.gws = false ∧ s.numGws pqn.dev = 0 then some (s, some .einval)
        else if pdd.usesGws then
          if a.gws = false ∧ s.gws pqn.qid = false then none
          else
            match a.process with
            | some e => some (s, some e)
            | none => some (s.write pqn a.gws, a.update)
        else some (s.write pqn a.gws, a.update)

def pqmCreateQueueGws (s : GwsState) (c : CreateArgs) : GwsState :=
  match pqmCreateQueue s.pqm c with
  | (pqm, .ok qid) => { s with pqm := pqm, gws := update s.gws qid false }
  | (pqm, .error _) => { s with pqm := pqm }

/-- `pqm_clean_queue_resource`. The result of `amdgpu_amdkfd_remove_gws_from_process` is not
used. -/
def pqmCleanQueueResource (s : GwsState) (pqn : Pqn) : GwsState :=
  if s.gws pqn.qid then { s with numGws := update s.numGws pqn.dev 0 } else s

def pqmDestroyQueueGws (s : GwsState) (qid : Nat) (d : DestroyArgs) : GwsState :=
  let r := pqmDestroyQueue s.pqm qid d
  match s.pqm.queues.find? (·.qid = qid) with
  | none => s
  | some pqn =>
    if pqn.kernel = false ∧ (r.2 = none ∨ r.2 = some .etime ∨ r.2 = some .eio) then
      pqmCleanQueueResource { s with pqm := r.1 } pqn
    else { s with pqm := r.1 }

def pqmUninitGws (s : GwsState) : GwsState :=
  let s' := (s.pqm.queues.filter fun pqn => !pqn.kernel).foldl pqmCleanQueueResource s
  { s' with pqm := pqmUninit s'.pqm }

/-! ## Runs -/

inductive GwsOp
  | setGws (a : SetGwsArgs)
  | create (c : CreateArgs)
  | destroy (qid : Nat) (d : DestroyArgs)
  | uninit
  /-- Anything else that happens to the process on a device, or to the device. -/
  | device (dev : Nat) (pdd : Pdd)

def gwsStep (s : GwsState) : GwsOp → GwsState
  | .setGws a => ((pqmSetGws s a).map (·.1)).getD s
  | .create c => pqmCreateQueueGws s c
  | .destroy qid d => pqmDestroyQueueGws s qid d
  | .uninit => pqmUninitGws s
  | .device dev pdd => { s with pqm := step s.pqm (.device dev pdd) }

def GwsState.holders (s : GwsState) (dev : Nat) : List Pqn :=
  s.pqm.queues.filter fun pqn => pqn.dev = dev && s.gws pqn.qid

/-- At most one queue of each device has the GWS, and the count tells whether one has. -/
def GwsState.Exclusive (s : GwsState) : Prop :=
  ∀ dev, (s.holders dev).length ≤ 1 ∧ (s.numGws dev ≠ 0 ↔ (s.holders dev).length = 1)

/-- The queue and the device with which a call gets past its checks. -/
def SetGwsArgs.starts (a : SetGwsArgs) (s : GwsState) : Option (Pqn × Pdd) :=
  match s.pqm.queues.find? (·.qid = a.qid) with
  | none => none
  | some pqn =>
    if pqn.kernel then none
    else
      match s.pqm.pdds[pqn.dev]? with
      | none => none
      | some pdd => if a.gws = decide (s.numGws pqn.dev = 0) then some (pqn, pdd) else none

def SetGwsArgs.processFails (a : SetGwsArgs) (pdd : Pdd) : Option Errno :=
  if pdd.usesGws then a.process else none

/-- The condition on a call: the GWS is taken from the queue that has it, and the queue manager
does not fail. -/
def SetGwsArgs.Ok (a : SetGwsArgs) (s : GwsState) : Prop :=
  ∀ pqn pdd, a.starts s = some (pqn, pdd) →
    (a.gws = false → s.gws pqn.qid = true) ∧ (a.processFails pdd = none → a.update = none)

/-- The call returns, the GWS is still exclusive, and an error has changed nothing. -/
def SetGwsArgs.Safe (a : SetGwsArgs) (s : GwsState) : Prop :=
  ∃ r, pqmSetGws s a = some r ∧ r.1.Exclusive ∧
    (r.2 ≠ none → r.1.gws = s.gws ∧ r.1.numGws = s.numGws)

def GwsOp.Ok (s : GwsState) : GwsOp → Prop
  | .setGws a => a.Ok s
  | _ => True

/-- The queues have different ids, which are taken. The pointers and the counts agree. -/
structure GwsState.Inv (s : GwsState) : Prop where
  taken : ∀ map, s.pqm.queueSlotBitmap = some map → ∀ pqn ∈ s.pqm.queues, pqn.qid ∈ map
  distinct : (s.pqm.queues.map (·.qid)).Nodup
  user : ∀ pqn ∈ s.pqm.queues, s.gws pqn.qid = true → pqn.kernel = false
  unique : ∀ x ∈ s.pqm.queues, ∀ y ∈ s.pqm.queues, x.dev = y.dev → s.gws x.qid = true →
    s.gws y.qid = true → x = y
  count : ∀ dev, s.numGws dev ≠ 0 ↔ ∃ x ∈ s.pqm.queues, x.dev = dev ∧ s.gws x.qid = true

section SetGws
variable {s : GwsState} {a : SetGwsArgs} {pqn : Pqn} {pdd : Pdd}

theorem setGws_starts (h : a.starts s = some (pqn, pdd)) :
    pqn ∈ s.pqm.queues ∧ pqn.kernel = false ∧ a.gws = decide (s.numGws pqn.dev = 0) := by
  unfold SetGwsArgs.starts at h
  split at h
  · cases h
  · next pqn' hfind =>
    split at h
    · cases h
    · next huser =>
      split at h
      · cases h
      · split at h
        · next hcount =>
          cases h
          exact ⟨mem_of_find?_eq_some hfind, Bool.not_eq_true _ ▸ huser, hcount⟩
        · cases h

theorem setGws_cases (s : GwsState) (a : SetGwsArgs) :
    (a.starts s = none ∧ ∃ e, pqmSetGws s a = some (s, some e)) ∨
    ∃ pqn pdd, a.starts s = some (pqn, pdd) ∧
      ((pdd.usesGws = true ∧ a.gws = false ∧ s.gws pqn.qid = false ∧ pqmSetGws s a = none) ∨
      (¬(a.gws = false ∧ s.gws pqn.qid = false) ∧
        ∃ e, a.processFails pdd = some e ∧ pqmSetGws s a = some (s, some e)) ∨
      (a.processFails pdd = none ∧ pqmSetGws s a = some (s.write pqn a.gws, a.update))) := by
  unfold SetGwsArgs.starts pqmSetGws
  cases hfind : s.pqm.queues.find? (·.qid = a.qid) with
  | none => exact .inl ⟨rfl, _, rfl⟩
  | some pqn =>
    dsimp only
    by_cases hkernel : pqn.kernel = true
    · rw [if_pos hkernel, if_pos hkernel]
      exact .inl ⟨rfl, _, rfl⟩
    rw [if_neg hkernel, if_neg hkernel]
    cases hpdd : s.pqm.pdds[pqn.dev]? with
    | none => exact .inl ⟨rfl, _, rfl⟩
    | some pdd =>
      dsimp only
      by_cases hbusy : a.gws = true ∧ s.numGws pqn.dev ≠ 0
      · rw [if_neg (by simp [hbusy]), if_pos hbusy]
        exact .inl ⟨rfl, _, rfl⟩
      by_cases hnone : a.gws = false ∧ s.numGws pqn.dev = 0
      · rw [if_neg (by simp [hnone]), if_neg hbusy, if_pos hnone]
        exact .inl ⟨rfl, _, rfl⟩
      -- neither a second queue of the device nor a device without GWS
      have hstarts : a.gws = decide (s.numGws pqn.dev = 0) := by
        cases hgws : a.gws with
        | true => simpa [hgws] using hbusy
        | false => simpa [hgws] using hnone
      rw [if_pos hstarts, if_neg hbusy, if_neg hnone]
      refine .inr ⟨pqn, pdd, rfl, ?_⟩
      unfold SetGwsArgs.processFails
      by_cases huses : pdd.usesGws = true
      · rw [if_pos huses, if_pos huses]
        by_cases hnull : a.gws = false ∧ s.gws pqn.qid = false
        · rw [if_pos hnull]
          exact .inl ⟨huses, hnull.1, hnull.2, rfl⟩
        · rw [if_neg hnull]
          cases hprocess : a.process with
          | some e => exact .inr (.inl ⟨hnull, e, rfl, rfl⟩)
          | none => exact .inr (.inr ⟨rfl, rfl⟩)
      · rw [if_neg huses, if_neg huses]
        exact .inr (.inr ⟨rfl, rfl⟩)

end SetGws

/-! ## The invariant -/

section Inv
variable {s : GwsState} {a : SetGwsArgs} {pqn x : Pqn} {pdd : Pdd}

theorem mem_holders {dev : Nat} :
    x ∈ s.holders dev ↔ x ∈ s.pqm.queues ∧ x.dev = dev ∧ s.gws x.qid = true := by
  simp [GwsState.holders]

theorem GwsState.Inv.exclusive (h : s.Inv) : s.Exclusive := by
  intro dev
  have hnodup : (s.holders dev).Nodup := (Nodup.of_map _ h.distinct).filter _
  have hone : (s.holders dev).length ≤ 1 := by
    match hlist : s.holders dev with
    | [] => exact Nat.zero_le _
    | [_] => exact Nat.le_refl _
    | x :: y :: rest =>
      obtain ⟨hx, hxdev, hxgws⟩ := mem_holders.mp (hlist ▸ mem_cons_self)
      obtain ⟨hy, hydev, hygws⟩ :=
        mem_holders.mp (hlist ▸ mem_cons_of_mem x mem_cons_self)
      have heq := h.unique x hx y hy (hxdev.trans hydev.symm) hxgws hygws
      rw [hlist, heq] at hnodup
      exact absurd mem_cons_self (nodup_cons.mp hnodup).1
  refine ⟨hone, (h.count dev).trans ?_⟩
  constructor
  · rintro ⟨x, hx⟩
    have hpos := length_pos_of_mem (mem_holders.mpr hx)
    omega
  · intro hlen
    obtain ⟨x, hx⟩ := exists_mem_of_length_pos (Nat.lt_of_lt_of_eq Nat.zero_lt_one hlen.symm)
    exact ⟨x, mem_holders.mp hx⟩

theorem GwsState.Inv.eq_of_qid (h : s.Inv) (hx : x ∈ s.pqm.queues) (hpqn : pqn ∈ s.pqm.queues)
    (heq : x.qid = pqn.qid) : x = pqn :=
  inj_on_of_nodup_map h.distinct hx hpqn heq

theorem GwsState.Inv.write_gws (h : s.Inv) (hx : x ∈ s.pqm.queues) (hpqn : pqn ∈ s.pqm.queues)
    (gws : Bool) :
    (s.write pqn gws).gws x.qid = if x = pqn then gws else s.gws x.qid := by
  unfold GwsState.write
  by_cases heq : x = pqn
  · rw [if_pos heq, heq]
    exact update_self ..
  · rw [if_neg heq]
    exact update_of_ne (fun hqid => heq (h.eq_of_qid hx hpqn hqid)) ..

theorem GwsState.Inv.setGws (h : s.Inv) (hstarts : a.starts s = some (pqn, pdd))
    (hholds : a.gws = false → s.gws pqn.qid = true) : (s.write pqn a.gws).Inv := by
  obtain ⟨hpqn, huser, hcount⟩ := setGws_starts hstarts
  -- the other queues of the device do not have it
  have hother : ∀ x ∈ s.pqm.queues, x ≠ pqn → x.dev = pqn.dev → s.gws x.qid ≠ true := by
    intro x hx hne hdev hgws
    cases ha : a.gws with
    | true =>
      rw [ha, eq_comm, decide_eq_true_eq] at hcount
      exact (h.count pqn.dev).mpr ⟨x, hx, hdev, hgws⟩ hcount
    | false => exact hne (h.unique x hx pqn hpqn hdev hgws (hholds ha))
  refine ⟨h.taken, h.distinct, fun x hx hgws => ?_, fun x hx y hy hdev hxgws hygws => ?_,
    fun dev => ?_⟩
  · rw [h.write_gws hx hpqn] at hgws
    split at hgws
    · next heq => rw [heq, huser]
    · exact h.user x hx hgws
  · rw [h.write_gws hx hpqn] at hxgws
    rw [h.write_gws hy hpqn] at hygws
    split at hxgws
    · next hxeq =>
      split at hygws
      · next hyeq => exact hxeq.trans hyeq.symm
      · next hyne => exact absurd hygws (hother y hy hyne (hdev.symm.trans (hxeq ▸ rfl)))
    · next hxne =>
      split at hygws
      · next hyeq => exact absurd hxgws (hother x hx hxne (hdev.trans (hyeq ▸ rfl)))
      · exact h.unique x hx y hy hdev hxgws hygws
  · -- the count of the device says whether this queue has the GWS, since no other has it
    by_cases hdev : dev = pqn.dev
    · have hnum : (s.write pqn a.gws).numGws dev = if a.gws then gwsSize else 0 := by
        rw [hdev]
        exact update_self ..
      rw [hnum]
      constructor
      · intro hne
        have hgws : a.gws = true := by
          by_contra hfalse
          exact hne (if_neg hfalse)
        exact ⟨pqn, hpqn, hdev.symm, by rw [h.write_gws hpqn hpqn, if_pos rfl, hgws]⟩
      · rintro ⟨x, hx, hxdev, hgws⟩
        rw [h.write_gws hx hpqn] at hgws
        split at hgws
        · rw [if_pos hgws]
          decide
        · next hne => exact absurd hgws (hother x hx hne (hxdev.trans hdev))
    · have hnum : (s.write pqn a.gws).numGws dev = s.numGws dev := update_of_ne hdev ..
      rw [hnum, h.count dev]
      refine exists_congr fun x => and_congr_right fun hx => and_congr_right fun hxdev => ?_
      rw [h.write_gws hx hpqn, if_neg fun heq => hdev (hxdev.symm.trans (congrArg Pqn.dev heq))]

theorem GwsState.Inv.congr {pqm : Pqm} (h : s.Inv) (hqueues : pqm.queues = s.pqm.queues)
    (htaken : ∀ map, pqm.queueSlotBitmap = some map → ∀ pqn ∈ s.pqm.queues, pqn.qid ∈ map) :
    { s with pqm := pqm : GwsState }.Inv := by
  obtain ⟨pid, pdds, map, queues⟩ := pqm
  obtain ⟨⟨pid', pdds', map', queues'⟩, gws, numGws⟩ := s
  cases hqueues
  exact ⟨htaken, h.distinct, h.user, h.unique, h.count⟩

theorem GwsState.Inv.create (h : s.Inv) (c : CreateArgs) : (pqmCreateQueueGws s c).Inv := by
  unfold pqmCreateQueueGws
  rcases createQueue_cases s.pqm c with ⟨-, e, heq⟩ |
    ⟨pdd, map, map', qid, -, hmap, -, hfree, -, hmap', hcases⟩
  · rw [heq]
    exact h
  have htaken : ∀ pqn ∈ s.pqm.queues, pqn.qid ∈ map := h.taken map hmap
  rcases hcases with ⟨e, -, heq⟩ | ⟨e, -, -, heq⟩ | ⟨pdd', -, -, heq⟩
  · rw [heq]
    refine h.congr rfl ?_
    rintro _ ⟨⟩ pqn hpqn
    rw [hmap']
    exact Finset.mem_insert_of_mem (htaken pqn hpqn)
  · rw [heq]
    refine h.congr rfl ?_
    rintro _ ⟨⟩ pqn hpqn
    rw [hmap', Finset.erase_insert hfree]
    exact htaken pqn hpqn
  · rw [heq]
    -- the slot was free, so that no queue on the list has its number
    have hne : ∀ x ∈ s.pqm.queues, x.qid ≠ qid := fun x hx hqid => hfree (hqid ▸ htaken x hx)
    have hold : ∀ x ∈ s.pqm.queues, update s.gws qid false x.qid = s.gws x.qid :=
      fun x hx => update_of_ne (hne x hx) ..
    have hnew : update s.gws qid false qid ≠ true := by
      rw [update_self]
      exact Bool.false_ne_true
    refine ⟨?_, ?_, ?_, ?_, fun dev => ?_⟩
    · rintro _ ⟨⟩ x hx
      rw [hmap']
      rcases mem_cons.mp hx with rfl | hx
      · exact Finset.mem_insert_self _ _
      · exact Finset.mem_insert_of_mem (htaken x hx)
    · refine nodup_cons.mpr ⟨fun hmem => ?_, h.distinct⟩
      obtain ⟨x, hx, hqid⟩ := mem_map.mp hmem
      exact hne x hx hqid
    · intro x hx hgws
      rcases mem_cons.mp hx with rfl | hx
      · exact absurd hgws hnew
      · exact h.user x hx ((hold x hx).symm.trans hgws)
    · intro x hx y hy hdev hxgws hygws
      rcases mem_cons.mp hx with rfl | hx
      · exact absurd hxgws hnew
      rcases mem_cons.mp hy with rfl | hy
      · exact absurd hygws hnew
      · exact h.unique x hx y hy hdev ((hold x hx).symm.trans hxgws) ((hold y hy).symm.trans hygws)
    · refine (h.count dev).trans ⟨?_, ?_⟩
      · rintro ⟨x, hx, hdev, hgws⟩
        exact ⟨x, mem_cons_of_mem _ hx, hdev, (hold x hx).trans hgws⟩
      · rintro ⟨x, hx, hdev, hgws⟩
        rcases mem_cons.mp hx with rfl | hx
        · exact absurd hgws hnew
        · exact ⟨x, hx, hdev, (hold x hx).symm.trans hgws⟩

theorem destroyQueue_cases (s : Pqm) {qid : Nat} (d : DestroyArgs)
    (hfind : s.queues.find? (·.qid = qid) = some pqn) :
    let r := pqmDestroyQueue s qid d
    (¬(r.2 = none ∨ r.2 = some .etime ∨ r.2 = some .eio) ∧ r.1.queues = s.queues ∧
      r.1.queueSlotBitmap = s.queueSlotBitmap) ∨
    (r.2 = none ∨ r.2 = some .etime ∨ r.2 = some .eio) ∧
      r.1.queues = s.queues.eraseP (·.qid = qid) ∧
      r.1.queueSlotBitmap = s.queueSlotBitmap.map (·.erase qid) := by
  unfold pqmDestroyQueue
  rw [hfind]
  dsimp only
  cases hpdd : s.pdds[pqn.dev]? with
  | none => exact .inl ⟨by simp, rfl, rfl⟩
  | some pdd =>
    dsimp only
    by_cases herr : (pdd.destroyQueue pqn d).2 ≠ none ∧
        (pdd.destroyQueue pqn d).2 ≠ some .etime ∧ (pdd.destroyQueue pqn d).2 ≠ some .eio
    · rw [if_pos herr]
      refine .inl ⟨?_, rfl, rfl⟩
      rintro (h | h | h)
      · exact herr.1 h
      · exact herr.2.1 h
      · exact herr.2.2 h
    · rw [if_neg herr]
      refine .inr ⟨?_, rfl, rfl⟩
      by_contra hnot
      rw [not_or, not_or] at hnot
      exact herr hnot

theorem GwsState.Inv.remove (h : s.Inv) {pqm : Pqm} (hpqn : pqn ∈ s.pqm.queues)
    (hqueues : pqm.queues = s.pqm.queues.eraseP (·.qid = pqn.qid))
    (hmap : pqm.queueSlotBitmap = s.pqm.queueSlotBitmap.map (·.erase pqn.qid)) :
    (pqmCleanQueueResource { s with pqm := pqm } pqn).Inv := by
  have hmem : ∀ x, x ∈ pqm.queues ↔ x ∈ s.pqm.queues ∧ x.qid ≠ pqn.qid := by
    intro x
    rw [hqueues]
    exact mem_eraseP_iff h.distinct pqn.qid x
  have hclean : pqmCleanQueueResource { s with pqm := pqm } pqn =
      { pqm := pqm
        gws := s.gws
        numGws := if s.gws pqn.qid then update s.numGws pqn.dev 0 else s.numGws } := by
    unfold pqmCleanQueueResource
    dsimp only
    split
    · rfl
    · rfl
  rw [hclean]
  refine ⟨fun map hmap' x hx => ?_, ?_, fun x hx => h.user x ((hmem x).mp hx).1,
    fun x hx y hy => h.unique x ((hmem x).mp hx).1 y ((hmem y).mp hy).1, fun dev => ?_⟩
  · rw [hmap] at hmap'
    obtain ⟨map0, hmap0, rfl⟩ := Option.map_eq_some_iff.mp hmap'
    obtain ⟨hin, hne⟩ := (hmem x).mp hx
    exact Finset.mem_erase.mpr ⟨hne, h.taken map0 hmap0 x hin⟩
  · dsimp only
    rw [hqueues]
    exact h.distinct.sublist (eraseP_sublist.map _)
  · dsimp only
    by_cases hgws : s.gws pqn.qid = true
    · rw [if_pos hgws]
      by_cases hdev : dev = pqn.dev
      · -- no queue of the device is left with it: the removed one was the only one
        rw [hdev, update_self]
        refine iff_of_false (fun hne => hne rfl) ?_
        rintro ⟨x, hx, hxdev, hxgws⟩
        obtain ⟨hin, hne⟩ := (hmem x).mp hx
        exact hne (congrArg Pqn.qid (h.unique x hin pqn hpqn hxdev hxgws hgws))
      · rw [update_of_ne hdev, h.count dev]
        refine exists_congr fun x => ?_
        rw [hmem]
        refine ⟨fun ⟨hx, hxdev, hxgws⟩ => ⟨⟨hx, fun hqid => ?_⟩, hxdev, hxgws⟩,
          fun ⟨⟨hx, _⟩, hxdev, hxgws⟩ => ⟨hx, hxdev, hxgws⟩⟩
        exact hdev (hxdev.symm.trans (congrArg Pqn.dev (h.eq_of_qid hx hpqn hqid)))
    · rw [if_neg hgws, h.count dev]
      refine exists_congr fun x => ?_
      rw [hmem]
      exact ⟨fun ⟨hx, hxdev, hxgws⟩ => ⟨⟨hx, fun hqid => hgws (hqid ▸ hxgws)⟩, hxdev, hxgws⟩,
        fun ⟨⟨hx, _⟩, hxdev, hxgws⟩ => ⟨hx, hxdev, hxgws⟩⟩

theorem GwsState.Inv.destroy (h : s.Inv) (qid : Nat) (d : DestroyArgs) :
    (pqmDestroyQueueGws s qid d).Inv := by
  unfold pqmDestroyQueueGws
  dsimp only
  cases hfind : s.pqm.queues.find? (·.qid = qid) with
  | none => exact h
  | some pqn =>
    have hpqn := mem_of_find?_eq_some hfind
    obtain rfl : pqn.qid = qid := by simpa using find?_some hfind
    dsimp only
    rcases destroyQueue_cases s.pqm d hfind with ⟨herr, hqueues, hmap⟩ | ⟨hok, hqueues, hmap⟩
    · rw [if_neg fun hcond => herr hcond.2]
      refine h.congr hqueues ?_
      rw [hmap]
      exact h.taken
    · have hremove := h.remove hpqn hqueues hmap
      by_cases huser : pqn.kernel = false
      · rw [if_pos ⟨huser, hok⟩]
        exact hremove
      · rw [if_neg fun hcond => huser hcond.1]
        have hgws : ¬s.gws pqn.qid = true := fun hgws => huser (h.user pqn hpqn hgws)
        unfold pqmCleanQueueResource at hremove
        rwa [if_neg hgws] at hremove

theorem clean_spec (s : GwsState) (pqn : Pqn) :
    (pqmCleanQueueResource s pqn).pqm = s.pqm ∧ (pqmCleanQueueResource s pqn).gws = s.gws ∧
      ∀ dev, (pqmCleanQueueResource s pqn).numGws dev ≠ 0 →
        s.numGws dev ≠ 0 ∧ (pqn.dev = dev → s.gws pqn.qid = false) := by
  unfold pqmCleanQueueResource
  by_cases hgws : s.gws pqn.qid = true
  · rw [if_pos hgws]
    refine ⟨rfl, rfl, fun dev hne => ?_⟩
    dsimp only at hne
    have hdev : dev ≠ pqn.dev := by
      rintro rfl
      exact hne (update_self ..)
    rw [update_of_ne hdev] at hne
    exact ⟨hne, fun heq => absurd heq.symm hdev⟩
  · rw [if_neg hgws]
    exact ⟨rfl, rfl, fun dev hne => ⟨hne, fun _ => Bool.not_eq_true _ ▸ hgws⟩⟩

theorem foldl_clean (queues : List Pqn) : ∀ (s : GwsState) (dev : Nat),
    (queues.foldl pqmCleanQueueResource s).numGws dev ≠ 0 →
      s.numGws dev ≠ 0 ∧ ∀ x ∈ queues, x.dev = dev → s.gws x.qid = false := by
  induction queues with
  | nil => exact fun s dev hne => ⟨hne, nofun⟩
  | cons pqn queues ih =>
    intro s dev hne
    obtain ⟨-, hgws, hclean⟩ := clean_spec s pqn
    obtain ⟨hcount, hqueues⟩ := ih (pqmCleanQueueResource s pqn) dev hne
    obtain ⟨hcount, hpqn⟩ := hclean dev hcount
    refine ⟨hcount, fun x hx hdev => ?_⟩
    rcases mem_cons.mp hx with rfl | hx
    · exact hpqn hdev
    · rw [← hgws]
      exact hqueues x hx hdev

theorem GwsState.Inv.uninit (h : s.Inv) : (pqmUninitGws s).Inv := by
  refine ⟨nofun, nodup_nil, nofun, nofun, fun dev => ?_⟩
  refine iff_of_false (fun hne => ?_) (fun ⟨x, hx, _⟩ => absurd hx not_mem_nil)
  obtain ⟨hcount, hqueues⟩ := foldl_clean (s.pqm.queues.filter fun pqn => !pqn.kernel) s dev hne
  obtain ⟨x, hx, hdev, hgws⟩ := (h.count dev).mp hcount
  have huser := h.user x hx hgws
  have hfalse := hqueues x (mem_filter.mpr ⟨hx, by rw [huser]; rfl⟩) hdev
  rw [hgws] at hfalse
  cases hfalse

end Inv

/-! ## Safe calls -/

section Safe
variable {s : GwsState} {a : SetGwsArgs}

theorem not_exclusive_of_clear (h : s.Inv) {pqn : Pqn} {pdd : Pdd}
    (hstarts : a.starts s = some (pqn, pdd)) (hclear : a.gws = false)
    (hnot : s.gws pqn.qid = false) : ¬(s.write pqn a.gws).Exclusive := by
  intro hex
  obtain ⟨hpqn, -, hcount⟩ := setGws_starts hstarts
  rw [hclear, eq_comm, decide_eq_false_iff_not] at hcount
  obtain ⟨x, hx, hdev, hgws⟩ := (h.count pqn.dev).mp hcount
  have hsame : (s.write pqn a.gws).gws = s.gws := by
    unfold GwsState.write
    rw [hclear, ← hnot]
    exact update_eq_self ..
  have hholder : x ∈ (s.write pqn a.gws).holders pqn.dev :=
    mem_holders.mpr ⟨hx, hdev, hsame.symm ▸ hgws⟩
  obtain ⟨hle, hiff⟩ := hex pqn.dev
  have hpos := length_pos_of_mem hholder
  have hnum : (s.write pqn a.gws).numGws pqn.dev = 0 := by
    rw [hclear]
    exact update_self ..
  exact hiff.mpr (by omega) hnum

theorem setGws_safe_iff (h : s.Inv) : a.Safe s ↔ a.Ok s := by
  unfold SetGwsArgs.Safe SetGwsArgs.Ok
  rcases setGws_cases s a with ⟨hnone, e, heq⟩ | ⟨pqn, pdd, hstarts, hcases⟩
  · rw [heq, hnone]
    exact iff_of_true ⟨_, rfl, h.exclusive, fun _ => ⟨rfl, rfl⟩⟩ nofun
  have hone : (∀ pqn' pdd', a.starts s = some (pqn', pdd') →
        (a.gws = false → s.gws pqn'.qid = true) ∧
          (a.processFails pdd' = none → a.update = none)) ↔
      (a.gws = false → s.gws pqn.qid = true) ∧ (a.processFails pdd = none → a.update = none) := by
    refine ⟨fun hok => hok pqn pdd hstarts, fun hok pqn' pdd' hstarts' => ?_⟩
    obtain ⟨rfl, rfl⟩ := Prod.mk.inj (Option.some.inj (hstarts.symm.trans hstarts'))
    exact hok
  rw [hone]
  rcases hcases with ⟨-, hclear, hnot, heq⟩ | ⟨hnull, e, hprocess, heq⟩ | ⟨hprocess, heq⟩
  · -- NULL is read
    rw [heq]
    refine iff_of_false nofun fun hok => ?_
    have := hok.1 hclear
    rw [hnot] at this
    cases this
  · rw [heq]
    refine iff_of_true ⟨_, rfl, h.exclusive, fun _ => ⟨rfl, rfl⟩⟩ ⟨fun hclear => ?_, fun hp => ?_⟩
    · by_contra hgws
      exact hnull ⟨hclear, Bool.not_eq_true _ ▸ hgws⟩
    · rw [hprocess] at hp
      cases hp
  · rw [heq]
    constructor
    · rintro ⟨r, ⟨⟩, hex, hkept⟩
      refine ⟨fun hclear => ?_, fun _ => ?_⟩
      · by_contra hgws
        exact not_exclusive_of_clear h hstarts hclear (Bool.not_eq_true _ ▸ hgws) hex
      · by_contra hupdate
        have hnum := congrFun (hkept hupdate).2 pqn.dev
        have hwritten : (s.write pqn a.gws).numGws pqn.dev = if a.gws then gwsSize else 0 :=
          update_self ..
        have hcount := (setGws_starts hstarts).2.2
        dsimp only at hnum
        rw [hwritten] at hnum
        cases ha : a.gws with
        | true =>
          rw [ha, eq_comm, decide_eq_true_eq] at hcount
          rw [ha, if_pos rfl, hcount] at hnum
          cases hnum
        | false =>
          rw [ha, eq_comm, decide_eq_false_iff_not] at hcount
          rw [ha, if_neg Bool.false_ne_true] at hnum
          exact hcount hnum.symm
    · intro hok
      exact ⟨_, rfl, (h.setGws hstarts hok.1).exclusive, fun hne => absurd (hok.2 hprocess) hne⟩

theorem GwsState.Inv.init (pid : Nat) (pdds : List Pdd) : (gwsInit pid pdds).Inv where
  taken := fun _ _ => nofun
  distinct := nodup_nil
  user := nofun
  unique := nofun
  count := fun _ => iff_of_false (fun hne => hne rfl) nofun

theorem GwsState.Inv.step (h : s.Inv) {op : GwsOp} (hok : op.Ok s) : (gwsStep s op).Inv := by
  cases op with
  | setGws a =>
    rcases setGws_cases s a with ⟨-, e, heq⟩ | ⟨pqn, pdd, hstarts, hcases⟩
    · rw [gwsStep, heq]
      exact h
    rcases hcases with ⟨-, -, -, heq⟩ | ⟨-, e, -, heq⟩ | ⟨-, heq⟩
    · rw [gwsStep, heq]
      exact h
    · rw [gwsStep, heq]
      exact h
    · rw [gwsStep, heq]
      exact h.setGws hstarts (hok pqn pdd hstarts).1
  | create c => exact h.create c
  | destroy qid d => exact h.destroy qid d
  | uninit => exact h.uninit
  | device dev pdd => exact h.congr rfl h.taken

/-- In every run whose calls meet their condition, at most one queue of each device has the GWS
and the count tells whether one has; and in the state that is reached, a call is safe exactly
when it meets the condition. -/
theorem gws_run (pid : Nat) (pdds : List Pdd) (ops : List GwsOp)
    (hok : StepsOk gwsStep (fun s op => op.Ok s) (gwsInit pid pdds) ops) :
    (run gwsStep (gwsInit pid pdds) ops).Exclusive ∧
      ∀ a : SetGwsArgs, a.Safe (run gwsStep (gwsInit pid pdds) ops) ↔
        a.Ok (run gwsStep (gwsInit pid pdds) ops) := by
  have hinv : (run gwsStep (gwsInit pid pdds) ops).Inv :=
    run_inv_of_stepsOk (P := GwsState.Inv) (fun _ _ h hok => h.step hok)
      (GwsState.Inv.init pid pdds) hok
  exact ⟨hinv.exclusive, fun _ => setGws_safe_iff hinv⟩

def exSetGws (qid : Nat) (gws : Bool) : GwsOp :=
  .setGws { qid := qid, gws := gws, process := none, update := none }

theorem gws_run_exSetGws :
    (run gwsStep (gwsInit 0 [exPdd]) [.create exCreate, exSetGws 0 true]).Exclusive :=
  (gws_run 0 [exPdd] [.create exCreate, exSetGws 0 true]
    ⟨trivial, fun _ _ _ => ⟨nofun, fun _ => rfl⟩, trivial⟩).1

/-- The first queue gets the GWS, and it is taken from the second one: the count is zero, and the
first queue still has it. -/
theorem gws_run_clear_other :
    ¬(run gwsStep (gwsInit 0 [exPdd]) [.create exCreate, .create exCreate, exSetGws 0 true,
      exSetGws 1 false]).Exclusive := by
  intro h
  obtain ⟨-, hiff⟩ := h 0
  exact hiff.mpr (by decide) (by decide)

end Safe

end Amdkfd.QueueSlots
