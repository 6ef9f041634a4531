import Amdkfd.Events.Ids

/-!
# Signals of the GPU

The GPU writes a slot and raises an interrupt, with some bits of the event's id or with
none. The driver finds one signaled event that matches the bits, or else looks at all
slots. The interrupts come in any order, and between them the process may create and
destroy events.
-/

namespace Amdkfd.Events

open Lib List Option

/-- The process, and the interrupts that have not been handled: the partial id of each
and the number of its valid bits. -/
structure Machine where
  p : Process
  pending : List (Nat × Nat)

/-- What can happen: an operation of the process, a signal of the GPU with the interrupt
that it raises, and the delivery of an interrupt. -/
inductive Act
  | op (op : Op)
  | signal (id : Nat) (value : UInt64) (partialId validIdBits : Nat)
  | deliver (k : Nat)

def act (s : Machine) : Act → Machine
  | .op op => { s with p := step s.p op }
  | .signal id value partialId validIdBits =>
    { p := gpuWrite s.p id value, pending := (partialId, validIdBits) :: s.pending }
  | .deliver k =>
    match s.pending[k]? with
    | none => s
    | some irq =>
      { p := kfdSignalEventInterrupt s.p irq.1 irq.2, pending := s.pending.eraseIdx k }

def Machine.start : Machine :=
  { p := kfdEventInitProcess, pending := [] }

/-- The GPU only writes the slots of signal events, which are in the page, and it raises
an interrupt each time. -/
def Act.Valid (s : Machine) : Act → Prop
  | .op (.gpuWrite _ _) => False
  | .signal id value _ _ => gpuAt s.p id = true ∧ value ≠ unsignaledEventSlot ∧
    ∀ page, s.p.signalPage = some page → 8 * (id + 1) ≤ page.size
  | _ => True

/-- The condition on an act. An event whose slot is beyond the limit is not signaled, and
no event of another type is restored at an id whose slot is signaled. -/
def Act.Ok (s : Machine) : Act → Prop
  | .op (.restore priv _ _) => priv.type = .memory ∨ priv.type = .hwException →
    slotIsSignaled s.p priv.eventId.toNat = true → signalEventLimit ≤ priv.eventId.toNat
  | .signal id _ _ _ => id < signalEventLimit
  | _ => True

/-! ## Signaled slots -/

/-- The slots of signal events are signaled when the event has not been set since, and
those of other events are not. -/
structure Tracked (p : Process) : Prop extends Table p where
  page : ∀ id, gpuAt p id = true → p.signalPage ≠ none
  unseen : ∀ id ∈ p.unseen, gpuAt p id = true ∧ id < signalEventLimit
  signaled : ∀ id, gpuAt p id = true → (slotIsSignaled p id = true ↔ id ∈ p.unseen)
  other : ∀ id, id < signalEventLimit → p.event id ≠ none → gpuAt p id = false →
    slotIsSignaled p id = false

section Tracked
variable {p p1 : Process} {id : Nat} {ev : Event}

theorem slotIsSignaled_of_page {page : Page} (h : p.signalPage = some page) :
    slotIsSignaled p id = decide (page.slots id ≠ unsignaledEventSlot) := by
  rw [slotIsSignaled, h]

theorem slotIsSignaled_congr (h : p1.signalPage = p.signalPage) (id : Nat) :
    slotIsSignaled p1 id = slotIsSignaled p id := by
  unfold slotIsSignaled
  rw [h]

theorem slotIsSignaled_write (h : p1.signalPage = p.signalPage.map (·.write id unsignaledEventSlot))
    (x : Nat) : slotIsSignaled p1 x = if x = id then false else slotIsSignaled p x := by
  unfold slotIsSignaled
  rw [h]
  cases p.signalPage with
  | none => simp
  | some page =>
    simp only [map_some, Page.write]
    by_cases hx : x = id
    · subst hx
      simp
    · simp [hx]

theorem setEventFromInterrupt_of_gpuAt (h : gpuAt p id = true) :
    (setEventFromInterrupt p id).signalPage = p.signalPage.map (·.write id unsignaledEventSlot) ∧
      (setEventFromInterrupt p id).unseen = p.unseen.erase id := by
  unfold setEventFromInterrupt
  cases hev : p.event id with
  | none => exact absurd hev (live_of_gpuAt h)
  | some ev =>
    rw [gpuAt, hev, any_some] at h
    dsimp only
    rw [if_pos h]
    exact ⟨rfl, rfl⟩

theorem setEventFromInterrupt_of_not (h : gpuAt p id = false) : setEventFromInterrupt p id = p := by
  unfold setEventFromInterrupt
  cases hev : p.event id with
  | none => rfl
  | some ev =>
    rw [gpuAt, hev, any_some] at h
    dsimp only
    rw [if_neg (Bool.eq_false_iff.mp h)]

theorem setEventFromInterrupt_tracked (h : Tracked p) (id : Nat) :
    Tracked (setEventFromInterrupt p id) := by
  cases hgpu : gpuAt p id with
  | false => rwa [setEventFromInterrupt_of_not hgpu]
  | true =>
    have hsame := setEventFromInterrupt_same p id
    obtain ⟨hpage, hunseen⟩ := setEventFromInterrupt_of_gpuAt hgpu
    have hslot := slotIsSignaled_write hpage
    refine { h.toTable.same hsame with page := ?_, unseen := ?_, signaled := ?_, other := ?_ }
    · intro x hx hnone
      rw [hpage, map_eq_none_iff] at hnone
      exact h.page x ((hsame.gpu x).symm.trans hx) hnone
    · intro x hx
      rw [hunseen] at hx
      rw [hsame.gpu]
      exact h.unseen x (Finset.mem_of_mem_erase hx)
    · intro x hx
      rw [hslot, hunseen, Finset.mem_erase]
      split
      · next heq => exact iff_of_false Bool.false_ne_true fun hmem => hmem.1 heq
      · next hne =>
        rw [h.signaled x ((hsame.gpu x).symm.trans hx)]
        exact (and_iff_right hne).symm
    · intro x hlt hlive hx
      rw [hslot]
      split
      · rfl
      · exact h.other x hlt (mt (hsame.live x).mpr hlive) ((hsame.gpu x).symm.trans hx)

theorem kfdSignalEventInterrupt_tracked (h : Tracked p) (partialId validIdBits : Nat) :
    Tracked (kfdSignalEventInterrupt p partialId validIdBits) :=
  kfdSignalEventInterrupt_keeps (P := Tracked) (fun _ id h => setEventFromInterrupt_tracked h id) h
    partialId validIdBits

end Tracked

/-! ## An interrupt -/

section Interrupt
variable {p : Process} {page : Page} {id : Nat}

theorem lookupLoop_some {bits rounds start : Nat}
    (h : lookupLoop p page bits rounds start = some id) :
    id < signalEventLimit ∧ page.slots id ≠ unsignaledEventSlot ∧ p.event id ≠ none := by
  induction rounds generalizing start with
  | zero => cases h
  | succ rounds ih =>
    unfold lookupLoop at h
    split at h
    · cases h
    · next hlt =>
      split at h
      · exact ih h
      · next hslot =>
        split at h
        · next hlive =>
          cases h
          exact ⟨not_le.mp hlt, hslot, isSome_iff_ne_none.mp hlive⟩
        · exact ih h

theorem lookupSignaledEventByPartialId_some {partialId bits : Nat}
    (h : lookupSignaledEventByPartialId p page partialId bits = some id) :
    id < signalEventLimit ∧ page.slots id ≠ unsignaledEventSlot ∧ p.event id ≠ none := by
  unfold lookupSignaledEventByPartialId at h
  split at h
  · cases h
  · next hlt =>
    split at h
    · split at h
      · cases h
      · next hslot =>
        split at h
        · next hlive =>
          cases h
          exact ⟨not_le.mp hlt, hslot, isSome_iff_ne_none.mp hlive⟩
        · cases h
    · exact lookupLoop_some h

theorem Tracked.mem_unseen (h : Tracked p) (hlt : id < signalEventLimit)
    (hslot : slotIsSignaled p id = true) (hlive : p.event id ≠ none) :
    gpuAt p id = true ∧ id ∈ p.unseen := by
  cases hgpu : gpuAt p id with
  | false => cases (h.other id hlt hlive hgpu).symm.trans hslot
  | true => exact ⟨rfl, (h.signaled id hgpu).mp hslot⟩

theorem setEventFromInterrupt_unseen_subset (p : Process) (id : Nat) :
    (setEventFromInterrupt p id).unseen ⊆ p.unseen := by
  cases hgpu : gpuAt p id with
  | false => rw [setEventFromInterrupt_of_not hgpu]
  | true =>
    rw [(setEventFromInterrupt_of_gpuAt hgpu).2]
    exact Finset.erase_subset _ _

theorem scanSlot_unseen (h : Tracked p) (id : Nat) :
    (scanSlot p id).unseen ⊆ p.unseen.erase id := by
  intro x hx
  unfold scanSlot at hx
  split at hx
  · next hslot =>
    refine Finset.mem_erase.mpr ⟨?_, setEventFromInterrupt_unseen_subset p id hx⟩
    rintro rfl
    cases hgpu : gpuAt p x with
    | false =>
      rw [setEventFromInterrupt_of_not hgpu] at hx
      cases hgpu.symm.trans (h.unseen x hx).1
    | true =>
      rw [(setEventFromInterrupt_of_gpuAt hgpu).2] at hx
      exact Finset.notMem_erase x _ hx
  · next hslot =>
    refine Finset.mem_erase.mpr ⟨?_, hx⟩
    rintro rfl
    exact hslot ((h.signaled x (h.unseen x hx).1).mpr hx)

theorem scanSlot_tracked (h : Tracked p) (id : Nat) : Tracked (scanSlot p id) := by
  unfold scanSlot
  split
  · exact setEventFromInterrupt_tracked h id
  · exact h

theorem scan_unseen (h : Tracked p) (ids : List Nat) :
    ∀ x ∈ (ids.foldl scanSlot p).unseen, x ∈ p.unseen ∧ x ∉ ids := by
  induction ids generalizing p with
  | nil => exact fun x hx => ⟨hx, not_mem_nil⟩
  | cons id ids ih =>
    intro x hx
    obtain ⟨hmem, hnot⟩ := ih (scanSlot_tracked h id) x hx
    obtain ⟨hne, hold⟩ := Finset.mem_erase.mp (scanSlot_unseen h id hmem)
    exact ⟨hold, fun hin => (mem_cons.mp hin).elim hne hnot⟩

theorem scanSlots_eq (p : Process) :
    ∃ ids : List Nat, scanSlots p = ids.foldl scanSlot p ∧ (∀ x ∈ ids, x < signalEventLimit) ∧
      ∀ x, x ≠ 0 → x < signalEventLimit → p.event x ≠ none → x ∈ ids := by
  unfold scanSlots
  have hpos : 0 < signalEventLimit := by decide
  generalize signalEventLimit = limit at hpos ⊢
  split
  · refine ⟨_, rfl, fun x hx => ?_, fun x _ hlt hlive => ?_⟩
    · exact mem_range.mp (mem_of_mem_filter hx)
    · exact mem_filter.mpr ⟨mem_range.mpr hlt, isSome_iff_ne_none.mpr hlive⟩
  · refine ⟨_, rfl, fun x hx => ?_, fun x hne hlt _ => ?_⟩
    · have := (mem_range'_1.mp hx).2
      omega
    · exact mem_range'_1.mpr ⟨by omega, by omega⟩

theorem scanSlots_unseen (h : Tracked p) : (scanSlots p).unseen = ∅ := by
  obtain ⟨ids, heq, -, hall⟩ := scanSlots_eq p
  rw [heq]
  refine Finset.eq_empty_of_forall_notMem fun x hx => ?_
  obtain ⟨hold, hnot⟩ := scan_unseen h ids x hx
  obtain ⟨hgpu, hlt⟩ := h.unseen x hold
  exact hnot (hall x (h.mem_of_gpuAt hgpu).1 hlt (live_of_gpuAt hgpu))

theorem kfdSignalEventInterrupt_fewer (h : Tracked p) (partialId validIdBits : Nat) :
    (kfdSignalEventInterrupt p partialId validIdBits).unseen.card ≤ p.unseen.card - 1 := by
  unfold kfdSignalEventInterrupt
  cases hpage : p.signalPage with
  | none =>
    have hempty : p.unseen = ∅ :=
      Finset.eq_empty_of_forall_notMem fun x hx => h.page x (h.unseen x hx).1 hpage
    dsimp only
    rw [hempty]
    exact Nat.le_refl _
  | some page =>
    dsimp only
    split
    · next id hfound =>
      split at hfound
      · obtain ⟨hlt, hslot, hlive⟩ := lookupSignaledEventByPartialId_some hfound
        have hsig : slotIsSignaled p id = true := by
          rw [slotIsSignaled_of_page hpage]
          exact decide_eq_true hslot
        obtain ⟨hgpu, hmem⟩ := h.mem_unseen hlt hsig hlive
        rw [(setEventFromInterrupt_of_gpuAt hgpu).2, Finset.card_erase_of_mem hmem]
      · cases hfound
    · rw [scanSlots_unseen h]
      exact Nat.zero_le _

theorem kfdSignalEventInterrupt_beyond (hid : signalEventLimit ≤ id) (hmem : id ∈ p.unseen)
    (partialId validIdBits : Nat) :
    id ∈ (kfdSignalEventInterrupt p partialId validIdBits).unseen := by
  have hset : ∀ q x, x < signalEventLimit → id ∈ q.unseen →
      id ∈ (setEventFromInterrupt q x).unseen := by
    intro q x hx hq
    cases hgpu : gpuAt q x with
    | false => rwa [setEventFromInterrupt_of_not hgpu]
    | true =>
      rw [(setEventFromInterrupt_of_gpuAt hgpu).2]
      exact Finset.mem_erase.mpr ⟨by omega, hq⟩
  have hscan : ∀ (ids : List Nat) q, (∀ x ∈ ids, x < signalEventLimit) → id ∈ q.unseen →
      id ∈ (ids.foldl scanSlot q).unseen := by
    intro ids
    induction ids with
    | nil => exact fun q _ hq => hq
    | cons x ids ih =>
      intro q hids hq
      refine ih _ (fun y hy => hids y (mem_cons_of_mem x hy)) ?_
      unfold scanSlot
      split
      · exact hset q x (hids x mem_cons_self) hq
      · exact hq
  unfold kfdSignalEventInterrupt
  cases hpage : p.signalPage with
  | none => exact hmem
  | some page =>
    dsimp only
    split
    · next x hfound =>
      split at hfound
      · exact hset p x (lookupSignaledEventByPartialId_some hfound).1 hmem
      · cases hfound
    · obtain ⟨ids, heq, hlt, -⟩ := scanSlots_eq p
      rw [heq]
      exact hscan ids p hlt hmem

end Interrupt

/-! ## Runs -/

section Run
variable {p p1 : Process} {ev : Event}

theorem Tracked.setPage (h : Tracked p) (hnone : p.signalPage = none) {page : Page} {mapped : Nat}
    (hclear : ∀ id, id < signalEventLimit → page.slots id = unsignaledEventSlot) :
    Tracked { p with signalPage := some page, signalMappedSize := mapped } := by
  have hno : ∀ id, gpuAt p id ≠ true := fun id hid => h.page id hid hnone
  refine { h.toTable.congr rfl rfl rfl with page := ?_, unseen := ?_, signaled := ?_, other := ?_ }
  · exact fun id hid => absurd hid (hno id)
  · exact h.unseen
  · exact fun id hid => absurd hid (hno id)
  · intro id hlt _ _
    exact decide_eq_false fun hne => hne (hclear id hlt)

variable {id : Nat} {s : Machine}

theorem Page.clear_slots (page : Page) (h : id < signalEventLimit) :
    page.clear.slots id = unsignaledEventSlot :=
  if_pos h

section
variable (h : Tracked p)
include h

theorem ensureSignalPage_tracked {ok : Bool} (hp : ensureSignalPage p ok = some p1) :
    Tracked p1 := by
  rcases ensureSignalPage_cases hp with ⟨-, rfl⟩ | ⟨hnone, rfl⟩
  · exact h
  · exact h.setPage hnone fun id hlt => Page.clear_slots _ hlt

theorem createSignalEvent_tracked (hev : ev.canBeGpuSignaled = true) (restoreId : Option UInt32)
    (a : Alloc) : Tracked (createSignalEvent p ev restoreId a).1 := by
  have htable := createSignalEvent_table h.toTable hev restoreId a
  rcases createSignalEvent_cases p ev restoreId a with heq | ⟨p1, hp, heq | ⟨id, hfree, -, heq⟩⟩
  · rwa [heq]
  · rw [heq]
    exact ensureSignalPage_tracked h hp
  · have h1 := ensureSignalPage_tracked h hp
    have hfree1 : id ∉ p1.idr := ensureSignalPage_idr hp ▸ hfree
    have hnot : id ∉ p1.unseen := fun hmem => hfree1 (h1.mem_of_gpuAt (h1.unseen id hmem).1).2
    rw [heq] at htable ⊢
    have hslot : ∀ x, slotIsSignaled
        { p1.enter id ev with
          signalPage := p1.signalPage.map (·.write id unsignaledEventSlot)
          signalEventCount := p1.signalEventCount + 1 } x =
        if x = id then false else slotIsSignaled p1 x := slotIsSignaled_write rfl
    refine { htable with page := ?_, unseen := ?_, signaled := ?_, other := ?_ }
    · intro x hx hnone
      exact ensureSignalPage_some hp (map_eq_none_iff.mp hnone)
    · intro x hx
      obtain ⟨hgpu, hlt⟩ := h1.unseen x hx
      have hne : x ≠ id := fun heq => hnot (heq ▸ hx)
      exact ⟨(gpuAt_enter_of_ne hne).trans hgpu, hlt⟩
    · intro x hx
      rw [hslot]
      split
      · next heq => exact iff_of_false Bool.false_ne_true fun hmem => hnot (heq ▸ hmem)
      · next hne => exact h1.signaled x ((gpuAt_enter_of_ne hne).symm.trans hx)
    · intro x hlt hlive hx
      rw [hslot]
      split
      · rfl
      · next hne =>
        exact h1.other x hlt (enter_event_of_ne hne ▸ hlive) ((gpuAt_enter_of_ne hne).symm.trans hx)

theorem createOtherEvent_tracked (hev : ev.canBeGpuSignaled = false) (restoreId : Option UInt32)
    (a : Alloc)
    (hid : ∀ id, IdOk p restoreId firstNonsignalEventId intEnd id → id < signalEventLimit → slotIsSignaled p id = false)
    : Tracked (createOtherEvent p ev restoreId a).1 := by
  have htable := createOtherEvent_table h.toTable hev restoreId a
  rcases createOtherEvent_cases p ev restoreId a with heq | ⟨id, hfree, hok, heq⟩
  · rwa [heq]
  · have hnot : ∀ x, gpuAt p x = true → x ≠ id := by
      rintro x hx rfl
      exact hfree (h.mem_of_gpuAt hx).2
    have hgpu : ∀ x, gpuAt (p.enter id ev) x = true → x ≠ id ∧ gpuAt p x = true := by
      intro x hx
      have hne : x ≠ id := by
        rintro rfl
        cases hev.symm.trans (gpuAt_enter_self.symm.trans hx)
      exact ⟨hne, (gpuAt_enter_of_ne hne).symm.trans hx⟩
    rw [heq] at htable ⊢
    refine { htable with page := ?_, unseen := ?_, signaled := ?_, other := ?_ }
    · exact fun x hx => h.page x (hgpu x hx).2
    · intro x hx
      obtain ⟨hx', hlt⟩ := h.unseen x hx
      exact ⟨(gpuAt_enter_of_ne (hnot x hx')).trans hx', hlt⟩
    · exact fun x hx => h.signaled x (hgpu x hx).2
    · intro x hlt hlive hx
      by_cases hxid : x = id
      · exact hxid ▸ hid id hok (hxid ▸ hlt)
      · exact h.other x hlt (enter_event_of_ne hxid ▸ hlive)
          ((gpuAt_enter_of_ne hxid).symm.trans hx)

theorem kfdKmapEventPage_tracked (bo : Except Errno Bo) (ok : Bool) :
    Tracked (kfdKmapEventPage p bo ok).1 := by
  rcases kfdKmapEventPage_cases p bo ok with ⟨e, heq⟩ | ⟨b, hnone, -, -, heq⟩
  · rwa [heq]
  · rw [heq]
    exact h.setPage hnone fun id hlt => Page.clear_slots _ hlt

theorem kfdEventDestroy_tracked (id : Nat) : Tracked (kfdEventDestroy p id).1 := by
  cases hev : p.event id with
  | none => simpa only [kfdEventDestroy, hev] using h
  | some ev =>
    obtain ⟨-, hpage, -, hunseen⟩ := kfdEventDestroy_spec hev
    have hslot := slotIsSignaled_congr hpage
    refine { h.toTable.remove hev with page := ?_, unseen := ?_, signaled := ?_, other := ?_ }
    · intro x hx
      obtain ⟨-, hgpu, -⟩ := kfdEventDestroy_live hev (live_of_gpuAt hx)
      rw [hpage]
      exact h.page x (hgpu.symm.trans hx)
    · intro x hx
      rw [hunseen] at hx
      obtain ⟨hne, hmem⟩ := Finset.mem_erase.mp hx
      rw [gpuAt, (kfdEventDestroy_spec hev).1, Function.update_of_ne hne]
      exact h.unseen x hmem
    · intro x hx
      obtain ⟨-, hgpu, hne⟩ := kfdEventDestroy_live hev (live_of_gpuAt hx)
      rw [hslot, hunseen, Finset.mem_erase, and_iff_right hne]
      exact h.signaled x (hgpu.symm.trans hx)
    · intro x hlt hlive hx
      obtain ⟨hold, hgpu, -⟩ := kfdEventDestroy_live hev hlive
      rw [hslot]
      exact h.other x hlt hold (hgpu.symm.trans hx)

theorem gpuWrite_tracked (hgpu : gpuAt p id = true) (hlt : id < signalEventLimit) {value : UInt64}
    (hvalue : value ≠ unsignaledEventSlot) : Tracked (gpuWrite p id value) := by
  obtain ⟨page, hpage⟩ := ne_none_iff_exists'.mp (h.page id hgpu)
  have hslot : ∀ x, slotIsSignaled (gpuWrite p id value) x =
      if x = id then true else slotIsSignaled p x := by
    intro x
    simp only [slotIsSignaled, gpuWrite, hpage, map_some]
    by_cases hx : x = id
    · subst hx
      simp [hvalue]
    · simp [hx]
  refine { h.toTable.congr rfl rfl rfl with page := ?_, unseen := ?_, signaled := ?_, other := ?_ }
  · intro x hx hnone
    exact h.page x hx (map_eq_none_iff.mp hnone)
  · intro x hx
    rcases Finset.mem_insert.mp hx with rfl | hx
    · exact ⟨hgpu, hlt⟩
    · exact h.unseen x hx
  · intro x hx
    rw [hslot]
    show _ ↔ x ∈ insert id p.unseen
    rw [Finset.mem_insert]
    split
    · next heq => exact iff_of_true rfl (.inl heq)
    · next hne =>
      rw [or_iff_right hne]
      exact h.signaled x hx
  · intro x hx hlive hx'
    rw [hslot]
    split
    · next heq => cases hgpu.symm.trans (heq ▸ hx')
    · exact h.other x hx hlive hx'

end

theorem op_tracked (h : Tracked s.p) {op : Op} (hvalid : (Act.op op).Valid s)
    (hok : (Act.op op).Ok s) : Tracked (step s.p op) := by
  cases op with
  | create type autoReset a =>
    have hother : ∀ id, IdOk s.p none firstNonsignalEventId intEnd id → id < signalEventLimit →
        slotIsSignaled s.p id = false := by
      intro id hid hlt
      have hlimit : signalEventLimit ≤ firstNonsignalEventId := by decide
      exact absurd (hid.1.trans_lt hlt) (not_lt.mpr hlimit)
    simp only [step, kfdEventCreate]
    split
    · exact h
    · cases type with
      | signal => exact createSignalEvent_tracked h rfl none a
      | debug => exact createSignalEvent_tracked h rfl none a
      | hwException => exact createOtherEvent_tracked h rfl none a hother
      | memory => exact createOtherEvent_tracked h rfl none a hother
      | other type => exact createOtherEvent_tracked h rfl none a hother
  | destroy id => exact kfdEventDestroy_tracked h id
  | kmap bo ok => exact kfdKmapEventPage_tracked h bo ok
  | restore priv early a =>
    -- a page that comes with the event has no signaled slot
    have hpage : Tracked (restorePage s.p priv a).1 ∧ ∀ id, id < signalEventLimit →
        slotIsSignaled (restorePage s.p priv a).1 id = true → slotIsSignaled s.p id = true := by
      unfold restorePage
      cases priv.userHandle with
      | none => exact ⟨h, fun id _ hslot => hslot⟩
      | some bo =>
        refine ⟨kfdKmapEventPage_tracked h bo a.page, fun id hlt hslot => ?_⟩
        dsimp only at hslot
        rcases kfdKmapEventPage_cases s.p bo a.page with ⟨e, heq⟩ | ⟨b, -, -, -, heq⟩
        · rwa [heq] at hslot
        · rw [heq, slotIsSignaled_of_page rfl, Page.clear_slots _ hlt] at hslot
          exact absurd rfl (of_decide_eq_true hslot)
    refine kfdCriuRestoreEvent_keeps h hpage.1 ?_ ?_ early
    · exact fun ev _ _ hev => createSignalEvent_tracked hpage.1 hev (some priv.eventId) a
    · intro ev _ htype hev
      refine createOtherEvent_tracked hpage.1 hev (some priv.eventId) a ?_
      rintro id ⟨-, rfl⟩ hlt
      by_contra hslot
      rw [Bool.not_eq_false] at hslot
      exact absurd (hok htype (hpage.2 _ hlt hslot)) (not_le.mpr hlt)
  | gpuWrite id value => exact hvalid.elim
  | interrupt partialId validIdBits =>
    exact kfdSignalEventInterrupt_tracked h partialId validIdBits

/-- There are as many interrupts as events that were not set. -/
structure Counted (s : Machine) : Prop extends Tracked s.p where
  pending : s.p.unseen.card ≤ s.pending.length

theorem Counted.start : Counted Machine.start :=
  { Inv.init.toTable with
    page := nofun
    unseen := nofun
    signaled := nofun
    other := fun _ _ h => absurd rfl h
    pending := Nat.le_refl 0 }

theorem createSignalEvent_unseen (p : Process) (ev : Event) (restoreId : Option UInt32)
    (a : Alloc) : (createSignalEvent p ev restoreId a).1.unseen = p.unseen := by
  have hpage : ∀ p1, ensureSignalPage p a.page = some p1 → p1.unseen = p.unseen := by
    intro p1 hp
    rcases ensureSignalPage_cases hp with ⟨-, rfl⟩ | ⟨-, rfl⟩
    · rfl
    · rfl
  rcases createSignalEvent_cases p ev restoreId a with heq | ⟨p1, hp, heq | ⟨id, -, -, heq⟩⟩
  · rw [heq]
  · rw [heq, hpage p1 hp]
  · rw [heq]
    exact hpage p1 hp

theorem createOtherEvent_unseen (p : Process) (ev : Event) (restoreId : Option UInt32)
    (a : Alloc) : (createOtherEvent p ev restoreId a).1.unseen = p.unseen := by
  rcases createOtherEvent_cases p ev restoreId a with heq | ⟨id, -, -, heq⟩
  · rw [heq]
  · rw [heq]
    rfl

theorem kfdKmapEventPage_unseen (p : Process) (bo : Except Errno Bo) (ok : Bool) :
    (kfdKmapEventPage p bo ok).1.unseen = p.unseen := by
  rcases kfdKmapEventPage_cases p bo ok with ⟨e, heq⟩ | ⟨b, -, -, -, heq⟩
  · rw [heq]
  · rw [heq]

theorem step_unseen_subset (p : Process) {op : Op} (hop : ∀ id value, op ≠ .gpuWrite id value) :
    (step p op).unseen ⊆ p.unseen := by
  cases op with
  | create type autoReset a =>
    simp only [step, kfdEventCreate]
    split
    · exact subset_rfl
    · cases type with
      | signal => exact (createSignalEvent_unseen ..).subset
      | debug => exact (createSignalEvent_unseen ..).subset
      | hwException => exact (createOtherEvent_unseen ..).subset
      | memory => exact (createOtherEvent_unseen ..).subset
      | other type => exact (createOtherEvent_unseen ..).subset
  | destroy id =>
    simp only [step]
    cases hev : p.event id with
    | none => simp only [kfdEventDestroy, hev, subset_rfl]
    | some ev =>
      rw [(kfdEventDestroy_spec hev).2.2.2]
      exact Finset.erase_subset id _
  | kmap bo ok => exact (kfdKmapEventPage_unseen p bo ok).subset
  | restore priv early a =>
    have hpage : (restorePage p priv a).1.unseen = p.unseen := by
      unfold restorePage
      cases priv.userHandle with
      | none => rfl
      | some bo => exact kfdKmapEventPage_unseen p bo a.page
    refine (kfdCriuRestoreEvent_keeps (P := fun q => q.unseen = p.unseen) rfl hpage ?_ ?_
      early).subset
    · exact fun ev _ _ _ => (createSignalEvent_unseen ..).trans hpage
    · exact fun ev _ _ _ => (createOtherEvent_unseen ..).trans hpage
  | gpuWrite id value => exact absurd rfl (hop id value)
  | interrupt partialId validIdBits =>
    exact kfdSignalEventInterrupt_keeps (P := fun q => q.unseen ⊆ p.unseen)
      (fun q id hq => (setEventFromInterrupt_unseen_subset q id).trans hq) subset_rfl
      partialId validIdBits

theorem act_counted (h : Counted s) {x : Act} (hvalid : x.Valid s) (hok : x.Ok s) :
    Counted (act s x) := by
  cases x with
  | op op =>
    refine { op_tracked h.toTracked hvalid hok with pending := ?_ }
    have hop : ∀ id value, op ≠ .gpuWrite id value := by
      rintro id value rfl
      exact hvalid
    exact (Finset.card_le_card (step_unseen_subset s.p hop)).trans h.pending
  | signal id value partialId validIdBits =>
    obtain ⟨hgpu, hvalue, -⟩ := hvalid
    refine { gpuWrite_tracked h.toTracked hgpu hok hvalue with pending := ?_ }
    exact (Finset.card_insert_le id s.p.unseen).trans (Nat.succ_le_succ h.pending)
  | deliver k =>
    simp only [act]
    cases hirq : s.pending[k]? with
    | none => exact h
    | some irq =>
      refine { kfdSignalEventInterrupt_tracked h.toTracked irq.1 irq.2 with pending := ?_ }
      obtain ⟨hk, -⟩ := List.getElem?_eq_some_iff.mp hirq
      dsimp only
      rw [length_eraseIdx_of_lt hk]
      exact (kfdSignalEventInterrupt_fewer h.toTracked irq.1 irq.2).trans
        (Nat.sub_le_sub_right h.pending 1)

theorem deliver_beyond (hid : signalEventLimit ≤ id) (hmem : id ∈ s.p.unseen) (k : Nat) :
    id ∈ (act s (.deliver k)).p.unseen := by
  simp only [act]
  cases s.pending[k]? with
  | none => exact hmem
  | some irq => exact kfdSignalEventInterrupt_beyond hid hmem irq.1 irq.2

/-- Every event whose slot was written has been set since, and its slot is cleared. -/
def AllSeen (p : Process) : Prop :=
  p.unseen = ∅ ∧ ∀ id, gpuAt p id = true → slotIsSignaled p id = false

/-- In every run whose acts meet their conditions, all signals are seen when no interrupt
is left. A signal of an event beyond the limit is not seen by any interrupts. -/
theorem signals_seen (acts : List Act)
    (hok : StepsOk act (fun s x => x.Valid s ∧ x.Ok s) Machine.start acts) :
    ((run act Machine.start acts).pending = [] → AllSeen (run act Machine.start acts).p) ∧
      ∀ id value partialId validIdBits, signalEventLimit ≤ id → ∀ ks : List Nat,
        id ∈ (run act (run act Machine.start acts)
          (.signal id value partialId validIdBits :: ks.map .deliver)).p.unseen := by
  have h : Counted (run act Machine.start acts) :=
    run_inv_of_stepsOk (P := Counted) (fun _ _ h hok => act_counted h hok.1 hok.2) Counted.start hok
  constructor
  · intro hdone
    have hcard := h.pending
    rw [hdone] at hcard
    have hempty : (run act Machine.start acts).p.unseen = ∅ :=
      Finset.card_eq_zero.mp (Nat.le_zero.mp hcard)
    refine ⟨hempty, fun id hid => ?_⟩
    have hiff := h.signaled id hid
    rw [hempty] at hiff
    exact Bool.eq_false_iff.mpr fun hslot => Finset.notMem_empty id (hiff.mp hslot)
  · intro id value partialId validIdBits hid ks
    rw [run_cons]
    have hmem : id ∈ (act (run act Machine.start acts)
        (.signal id value partialId validIdBits)).p.unseen := Finset.mem_insert_self id _
    generalize
      act (run act Machine.start acts) (.signal id value partialId validIdBits) = s at hmem ⊢
    induction ks generalizing s with
    | nil => exact hmem
    | cons k ks ih => exact ih (act s (.deliver k)) (deliver_beyond hid hmem k)

def exSignals : List Act :=
  [.op (.create .signal true exAlloc), .op (.create .debug true exAlloc), .signal 1 1 1 12,
    .signal 2 2 2 12, .deliver 1, .deliver 0]

theorem signals_seen_exSignals :
    StepsOk act (fun s x => x.Valid s ∧ x.Ok s) Machine.start exSignals ∧
      AllSeen (run act Machine.start exSignals).p := by
  have hok : StepsOk act (fun s x => x.Valid s ∧ x.Ok s) Machine.start exSignals := by
    refine ⟨⟨trivial, trivial⟩, ⟨trivial, trivial⟩, ⟨⟨rfl, by decide, ?_⟩, (by decide : 1 < 4096)⟩,
      ⟨⟨rfl, by decide, ?_⟩, (by decide : 2 < 4096)⟩, ⟨trivial, trivial⟩, ⟨trivial, trivial⟩,
        trivial⟩
    · rintro page ⟨⟩
      decide
    · rintro page ⟨⟩
      decide
  exact ⟨hok, (signals_seen exSignals hok).1 rfl⟩

def exRestoreBeyond : EventPriv :=
  { userHandle := some (.ok { size := 65536, content := fun _ => 0 })
    eventId := 5000
    type := .signal
    autoReset := false
    signaled := false }

def exSignalBeyond : List Act :=
  [.op (.restore exRestoreBeyond none exAlloc), .signal 5000 5000 5000 16]

def exBeyond : List Act :=
  exSignalBeyond ++ [.deliver 0]

def exRestoreMemory : EventPriv :=
  { userHandle := none
    eventId := 1
    type := .memory
    autoReset := false
    signaled := false }

/-- Event 1 is signaled and destroyed, and a memory event takes its id. Then event 2 is
signaled, with an interrupt that has the wrong id. -/
def exStale : List Act :=
  [.op (.create .signal true exAlloc), .op (.create .signal true exAlloc), .signal 1 1 1 12,
    .op (.destroy 1), .op (.restore exRestoreMemory none exAlloc), .signal 2 2 1 12, .deliver 0,
    .deliver 0]

/-- All interrupts are handled, but event 5000 was not set, and neither was event 2. -/
theorem signals_seen_broken :
    (StepsOk act (fun s x => x.Valid s) Machine.start exBeyond ∧
      (run act Machine.start exBeyond).pending = [] ∧
      ¬AllSeen (run act Machine.start exBeyond).p) ∧
    StepsOk act (fun s x => x.Valid s) Machine.start exStale ∧
      (run act Machine.start exStale).pending = [] ∧
      ¬AllSeen (run act Machine.start exStale).p := by
  refine ⟨⟨⟨trivial, ⟨rfl, by decide, ?_⟩, trivial, trivial⟩, rfl, fun h => ?_⟩,
    ⟨trivial, trivial, ⟨rfl, by decide, ?_⟩, trivial, trivial, ⟨rfl, by decide, ?_⟩, trivial,
      trivial, trivial⟩, rfl, fun h => ?_⟩
  · rintro page ⟨⟩
    decide
  · have hmem : 5000 ∈ (run act Machine.start exSignalBeyond).p.unseen := by decide
    have hempty := h.1
    rw [exBeyond, run_append, run_cons, run_nil] at hempty
    generalize run act Machine.start exSignalBeyond = s at hmem hempty
    have hlost := deliver_beyond (by decide) hmem 0
    rw [hempty] at hlost
    exact Finset.notMem_empty 5000 hlost
  · rintro page ⟨⟩
    decide
  · rintro page ⟨⟩
    decide
  · have hmem : 2 ∈ (run act Machine.start exStale).p.unseen := by decide
    exact absurd (h.1 ▸ hmem) (Finset.notMem_empty 2)

end Run

end Amdkfd.Events
