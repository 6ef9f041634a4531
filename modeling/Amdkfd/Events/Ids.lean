import Amdkfd.Events.Model

/-!
# Ids and slots of events

Signal events get the low ids, which index the slots of the signal page; all others get
ids from `KFD_FIRST_NONSIGNAL_EVENT_ID` on. `kfd_criu_restore_event` enters an event at
the id of the checkpoint without looking at it, and `kfd_event_page_set` takes a buffer
of any size for the page.
-/

namespace Amdkfd.Events

open Lib Function Option Finset

/-- The operations of a process, and what the GPU does. -/
inductive Op
  | create (type : EventType) (autoReset : Bool) (a : Alloc)
  | destroy (id : Nat)
  | kmap (bo : Except Errno Bo) (ok : Bool)
  | restore (priv : EventPriv) (early : Option Errno) (a : Alloc)
  | gpuWrite (id : Nat) (value : UInt64)
  | interrupt (partialId validIdBits : Nat)

def gpuWrite (p : Process) (id : Nat) (value : UInt64) : Process :=
  { p with
    signalPage := p.signalPage.map fun page =>
      { page with slots := update page.slots id value }
    unseen := insert id p.unseen }

def step (p : Process) : Op → Process
  | .create type autoReset a => (kfdEventCreate p type autoReset a).1
  | .destroy id => (kfdEventDestroy p id).1
  | .kmap bo ok => (kfdKmapEventPage p bo ok).1
  | .restore priv early a => (kfdCriuRestoreEvent p priv early a).1
  | .gpuWrite id value => gpuWrite p id value
  | .interrupt partialId validIdBits => kfdSignalEventInterrupt p partialId validIdBits

def gpuAt (p : Process) (id : Nat) : Bool :=
  (p.event id).any Event.canBeGpuSignaled

def slotCount (p : Process) : Nat :=
  min (p.signalMappedSize / 8) signalEventLimit

/-! ## The table -/

/-- The ids that are taken are 0 and those of live events, and the counter is one more
than the number of signal events. -/
structure Table (p : Process) : Prop where
  zero : p.event 0 = none
  zero_mem : 0 ∈ p.idr
  live : ∀ id, id ≠ 0 → (id ∈ p.idr ↔ p.event id ≠ none)
  count : p.signalEventCount = 1 + (p.idr.filter (gpuAt p ·)).card

def Process.enter (p : Process) (id : Nat) (ev : Event) : Process :=
  { p with idr := insert id p.idr, event := update p.event id (some ev) }

section Table
variable {p : Process} {id : Nat} {ev : Event}

variable {p' : Process}

theorem gpuAt_congr (h : p'.event = p.event) (id : Nat) : gpuAt p' id = gpuAt p id := by
  unfold gpuAt
  rw [h]

theorem enter_event_self : (p.enter id ev).event id = some ev :=
  update_self ..

variable {x : Nat}

theorem enter_event_of_ne (h : x ≠ id) : (p.enter id ev).event x = p.event x :=
  update_of_ne h _ _

theorem gpuAt_enter_self : gpuAt (p.enter id ev) id = ev.canBeGpuSignaled := by
  rw [gpuAt, enter_event_self, any_some]

theorem gpuAt_enter_of_ne (h : x ≠ id) : gpuAt (p.enter id ev) x = gpuAt p x := by
  rw [gpuAt, gpuAt, enter_event_of_ne h]

theorem Table.mem_of_gpuAt (h : Table p) (hid : gpuAt p id = true) : id ≠ 0 ∧ id ∈ p.idr := by
  have hne : id ≠ 0 := by
    rintro rfl
    rw [gpuAt, h.zero] at hid
    cases hid
  refine ⟨hne, (h.live id hne).mpr fun hnone => ?_⟩
  rw [gpuAt, hnone] at hid
  cases hid

theorem Table.congr (h : Table p) (hidr : p'.idr = p.idr) (hevent : p'.event = p.event)
    (hcount : p'.signalEventCount = p.signalEventCount) :
    Table p' := by
  constructor
  · rw [hevent]
    exact h.zero
  · rw [hidr]
    exact h.zero_mem
  · rw [hidr, hevent]
    exact h.live
  · rw [hcount, hidr, h.count]
    simp only [gpuAt_congr hevent]

theorem Table.enter (h : Table p) (hid : id ∉ p.idr) (hidr : p'.idr = (p.enter id ev).idr)
    (hevent : p'.event = (p.enter id ev).event) (hcount : p'.signalEventCount =
      if ev.canBeGpuSignaled then p.signalEventCount + 1 else p.signalEventCount) : Table p' := by
  have hne : (0 : Nat) ≠ id := fun heq => hid (heq ▸ h.zero_mem)
  have hother : ∀ x, x ≠ id → p'.event x = p.event x := by
    intro x hx
    rw [hevent]
    exact update_of_ne hx _ _
  have hself : p'.event id = some ev := by
    rw [hevent]
    exact update_self ..
  have hgpu : ∀ x, gpuAt p' x = gpuAt (p.enter id ev) x := gpuAt_congr hevent
  constructor
  · rw [hother 0 hne]
    exact h.zero
  · rw [hidr]
    exact mem_insert_of_mem h.zero_mem
  · intro x hx
    rw [hidr]
    change x ∈ insert id p.idr ↔ _
    by_cases hxid : x = id
    · rw [hxid, hself]
      simp
    · rw [mem_insert, or_iff_right hxid, hother x hxid]
      exact h.live x hx
  · have hold : (p.idr.filter fun x => gpuAt p' x = true) =
        p.idr.filter fun x => gpuAt p x = true := by
      refine filter_congr fun x hx => ?_
      have hxid : x ≠ id := fun heq => hid (heq ▸ hx)
      rw [hgpu, gpuAt_enter_of_ne hxid]
    rw [hcount, hidr]
    change _ = 1 + ((insert id p.idr).filter _).card
    rw [filter_insert, hold, hgpu, gpuAt_enter_self]
    split
    · rw [card_insert_of_notMem fun hmem => hid (mem_of_mem_filter _ hmem), h.count]
      omega
    · exact h.count

theorem Table.remove (h : Table p) (hev : p.event id = some ev) :
    Table (kfdEventDestroy p id).1 := by
  have hne : id ≠ 0 := by
    rintro rfl
    rw [h.zero] at hev
    cases hev
  have hmem : id ∈ p.idr := (h.live id hne).mpr (by simp [hev])
  have hgpu : gpuAt p id = ev.canBeGpuSignaled := by rw [gpuAt, hev, any_some]
  unfold kfdEventDestroy
  simp only [hev]
  constructor
  · exact (update_of_ne hne.symm _ _).trans h.zero
  · exact mem_erase.mpr ⟨hne.symm, h.zero_mem⟩
  · intro x hx
    by_cases hxid : x = id
    · subst hxid
      simp
    · simp only [mem_erase, update_of_ne hxid]
      exact ⟨fun hm => (h.live x hx).mp hm.2, fun hm => ⟨hxid, (h.live x hx).mpr hm⟩⟩
  · have hold : ((p.idr.erase id).filter fun x => (update p.event id none x).any
        Event.canBeGpuSignaled = true) = (p.idr.filter fun x => gpuAt p x = true).erase id := by
      ext x
      simp only [mem_filter, mem_erase]
      constructor
      · rintro ⟨⟨hxid, hx⟩, hgx⟩
        rw [update_of_ne hxid] at hgx
        exact ⟨hxid, hx, hgx⟩
      · rintro ⟨hxid, hx, hgx⟩
        refine ⟨⟨hxid, hx⟩, ?_⟩
        rw [update_of_ne hxid]
        exact hgx
    change (if _ then _ else _) = 1 + ((p.idr.erase id).filter _).card
    refine Eq.trans ?_ (congrArg (fun t : Finset Nat => 1 + t.card) hold.symm)
    have hcount := h.count
    split
    · next hg =>
      have hin : id ∈ p.idr.filter fun x => gpuAt p x = true :=
        mem_filter.mpr ⟨hmem, hgpu.trans hg⟩
      have hpos := card_pos.mpr ⟨id, hin⟩
      rw [card_erase_of_mem hin, hcount]
      exact Nat.add_sub_assoc hpos 1
    · next hg =>
      have hout : id ∉ p.idr.filter fun x => gpuAt p x = true := fun hin =>
        hg (hgpu.symm.trans (mem_filter.mp hin).2)
      rw [erase_eq_of_notMem hout]
      exact hcount

end Table

/-! ## What a creation does -/

section Create
variable {p p' : Process} {id : Nat} {ev : Event}

variable {ok : Bool} {n : Nat}

theorem idrAlloc_ok {start last : Int} (h : idrAlloc p ev start last ok = .ok (p', id)) :
    0 ≤ start ∧ p' = p.enter id ev ∧ id ∉ p.idr ∧ start.toNat ≤ id ∧
      id < (if 0 < last then last.toNat else intEnd) ∧
      ∀ i, start.toNat ≤ i → i < id → i ∈ p.idr := by
  unfold idrAlloc at h
  split at h
  · cases h
  · next hstart =>
    simp only at h
    generalize (if 0 < last then last.toNat else intEnd) = max at h ⊢
    split at h
    · cases h
    · next hfound =>
      split at h
      · cases h
      · cases h
        have hlt : findNextZeroBit p.idr max start.toNat < max := by omega
        have hoff : start.toNat < max := by
          by_contra hge
          rw [findNextZeroBit, if_neg hge] at hlt
          omega
        refine ⟨by omega, rfl, findNextZeroBit_clear hlt, findNextZeroBit_ge hoff.le, hlt,
          fun i hi hlt' => findNextZeroBit_set hi hlt' hoff⟩

theorem toInt32_of_lt (h : n < 2 ^ 31) : toInt32 n = n := by
  unfold toInt32
  rw [BitVec.toInt_eq_toNat_cond, BitVec.toNat_ofNat, Nat.mod_eq_of_lt (by omega),
    if_pos (by omega)]

theorem toInt32_neg (h : 2 ^ 31 ≤ n) (hlt : n < 2 ^ 32) : toInt32 n < 0 := by
  unfold toInt32
  rw [BitVec.toInt_eq_toNat_cond, BitVec.toNat_ofNat, Nat.mod_eq_of_lt hlt, if_neg (by omega)]
  omega

theorem idrAllocAt_ok {restoreId : UInt32} (h : idrAllocAt p ev restoreId ok = .ok (p', id)) :
    restoreId.toNat < 2 ^ 31 ∧ id = restoreId.toNat ∧ p' = p.enter id ev ∧ id ∉ p.idr := by
  obtain ⟨hpos, hp', hfree, hge, hlt, -⟩ := idrAlloc_ok h
  have hbound := restoreId.toNat_lt
  have hsmall : restoreId.toNat < 2 ^ 31 := by
    by_contra hbig
    have := toInt32_neg (by omega : 2 ^ 31 ≤ restoreId.toNat) hbound
    omega
  rw [toInt32_of_lt hsmall] at hge
  have hle : id ≤ restoreId.toNat := by
    by_cases hlast : restoreId.toNat + 1 < 2 ^ 31
    · rw [toInt32_of_lt hlast, if_pos (by omega)] at hlt
      omega
    · have := toInt32_neg (by omega : 2 ^ 31 ≤ restoreId.toNat + 1) (by omega)
      rw [if_neg (by omega), intEnd] at hlt
      omega
  exact ⟨hsmall, by omega, hp', hfree⟩

/-- The id that a creation may use: that of the checkpoint, or the first free one from
`start` on and before `last`. -/
def IdOk (p : Process) (restoreId : Option UInt32) (start last id : Nat) : Prop :=
  match restoreId with
  | some restoreId => restoreId.toNat < 2 ^ 31 ∧ id = restoreId.toNat
  | none => start ≤ id ∧ id < last ∧ ∀ i, start ≤ i → i < id → i ∈ p.idr

/-- The bound that `idr_alloc` takes from a size. -/
def idrEnd (n : Nat) : Nat :=
  if 0 < toInt32 n then (toInt32 n).toNat else intEnd

theorem createSignalEvent_cases (p : Process) (ev : Event) (restoreId : Option UInt32) (a : Alloc) :
    (createSignalEvent p ev restoreId a).1 = p ∨
      ∃ p1, ensureSignalPage p a.page = some p1 ∧
        ((createSignalEvent p ev restoreId a).1 = p1 ∨
          ∃ id, id ∉ p.idr ∧ IdOk p restoreId 0 (idrEnd (p1.signalMappedSize / 8)) id ∧
            (createSignalEvent p ev restoreId a).1 =
              { p1.enter id ev with
                signalPage := p1.signalPage.map (·.write id unsignaledEventSlot)
                signalEventCount := p1.signalEventCount + 1 }) := by
  unfold createSignalEvent allocateEventNotificationSlot
  split
  · exact .inl rfl
  · cases hpage : ensureSignalPage p a.page with
    | none => exact .inl rfl
    | some p1 =>
      have hidr : p1.idr = p.idr := by
        unfold ensureSignalPage at hpage
        split at hpage
        · cases hpage
          rfl
        · split at hpage
          · cases hpage
            rfl
          · cases hpage
      right
      refine ⟨p1, rfl, ?_⟩
      dsimp only
      cases restoreId with
      | some restoreId =>
        dsimp only
        cases hr : idrAllocAt p1 ev restoreId a.idr with
        | error e => exact .inl rfl
        | ok r =>
          obtain ⟨p2, id⟩ := r
          obtain ⟨hsmall, hid, rfl, hfree⟩ := idrAllocAt_ok hr
          exact .inr ⟨id, hidr ▸ hfree, ⟨hsmall, hid⟩, rfl⟩
      | none =>
        dsimp only
        cases hr : idrAlloc p1 ev 0 (toInt32 (p1.signalMappedSize / 8)) a.idr with
        | error e => exact .inl rfl
        | ok r =>
          obtain ⟨p2, id⟩ := r
          obtain ⟨-, rfl, hfree, hge, hlt, hset⟩ := idrAlloc_ok hr
          exact .inr ⟨id, hidr ▸ hfree, ⟨hge, hlt, fun i hi hi' => hidr ▸ hset i hi hi'⟩, rfl⟩

theorem createOtherEvent_cases (p : Process) (ev : Event) (restoreId : Option UInt32) (a : Alloc) :
    (createOtherEvent p ev restoreId a).1 = p ∨
      ∃ id, id ∉ p.idr ∧ IdOk p restoreId firstNonsignalEventId intEnd id ∧
        (createOtherEvent p ev restoreId a).1 = p.enter id ev := by
  unfold createOtherEvent
  cases restoreId with
  | some restoreId =>
    dsimp only
    cases hr : idrAllocAt p ev restoreId a.idr with
    | error e => exact .inl rfl
    | ok r =>
      obtain ⟨p2, id⟩ := r
      obtain ⟨hsmall, hid, rfl, hfree⟩ := idrAllocAt_ok hr
      exact .inr ⟨id, hfree, ⟨hsmall, hid⟩, rfl⟩
  | none =>
    dsimp only
    cases hr : idrAlloc p ev firstNonsignalEventId (toInt32 intEnd) a.idr with
    | error e => exact .inl rfl
    | ok r =>
      obtain ⟨p2, id⟩ := r
      obtain ⟨-, rfl, hfree, hge, hlt, hset⟩ := idrAlloc_ok hr
      refine .inr ⟨id, hfree, ⟨hge, ?_, hset⟩, rfl⟩
      rwa [if_neg (by decide)] at hlt

end Create

/-! ## The invariant -/

/-- The ids are in their ranges, the page has all of its slots, and nothing outside of
it was written. -/
structure Inv (p : Process) : Prop extends Table p where
  signal : ∀ id, gpuAt p id = true → id < slotCount p
  other : ∀ id, p.event id ≠ none → gpuAt p id = false → firstNonsignalEventId ≤ id
  page : ∀ page, p.signalPage = some page → page.outside = false ∧
    8 * signalEventLimit ≤ page.size ∧ 256 ≤ p.signalMappedSize / 8
  noPage : p.signalPage = none → p.signalMappedSize = 0

/-- The page is as good as before, and only the state of events has changed. -/
structure SameIds (p p' : Process) : Prop where
  idr : p'.idr = p.idr
  mapped : p'.signalMappedSize = p.signalMappedSize
  count : p'.signalEventCount = p.signalEventCount
  live : ∀ id, p'.event id = none ↔ p.event id = none
  gpu : ∀ id, gpuAt p' id = gpuAt p id

section Same
variable {p p' p'' : Process}

theorem SameIds.refl (p : Process) : SameIds p p :=
  ⟨rfl, rfl, rfl, fun _ => Iff.rfl, fun _ => rfl⟩

theorem SameIds.trans (h : SameIds p p') (h' : SameIds p' p'') : SameIds p p'' :=
  ⟨h'.idr.trans h.idr, h'.mapped.trans h.mapped, h'.count.trans h.count,
    fun id => (h'.live id).trans (h.live id), fun id => (h'.gpu id).trans (h.gpu id)⟩

theorem SameIds.slotCount_eq (h : SameIds p p') : slotCount p' = slotCount p := by
  unfold slotCount
  rw [h.mapped]

theorem Table.same (ht : Table p) (h : SameIds p p') : Table p' := by
  constructor
  · rw [h.live]
    exact ht.zero
  · rw [h.idr]
    exact ht.zero_mem
  · intro id hid
    rw [h.idr, ht.live id hid, not_iff_not, h.live id]
  · rw [h.count, h.idr, ht.count]
    simp only [h.gpu]

theorem Inv.same (hi : Inv p) (h : SameIds p p')
    (hpage : ∀ page, p'.signalPage = some page → page.outside = false ∧
      8 * signalEventLimit ≤ page.size ∧ 256 ≤ p.signalMappedSize / 8)
    (hnone : p'.signalPage = none → p.signalPage = none) : Inv p' := by
  refine { hi.toTable.same h with signal := ?_, other := ?_, page := ?_, noPage := ?_ }
  · intro id hid
    rw [h.slotCount_eq]
    exact hi.signal id ((h.gpu id).symm.trans hid)
  · intro id hlive hgpu
    exact hi.other id (mt (h.live id).mpr hlive) ((h.gpu id).symm.trans hgpu)
  · rw [h.mapped]
    exact hpage
  · intro hp
    rw [h.mapped]
    exact hi.noPage (hnone hp)

theorem Inv.write_inside (hi : Inv p) {page : Page} (hp : p.signalPage = some page) {id : Nat}
    (hid : id < slotCount p) (value : UInt64) : (page.write id value).outside = false := by
  obtain ⟨hout, hsize, -⟩ := hi.page page hp
  have hlt : id < signalEventLimit := lt_of_lt_of_le hid (min_le_right _ _)
  simp only [Page.write, hout, Bool.false_or, decide_eq_false_iff_not]
  omega

end Same

/-! ## Interrupts -/

section Interrupt
variable {p : Process}

theorem setEventFromInterrupt_same (p : Process) (id : Nat) :
    SameIds p (setEventFromInterrupt p id) := by
  unfold setEventFromInterrupt
  cases hev : p.event id with
  | none => exact .refl p
  | some ev =>
    dsimp only
    split
    · refine ⟨rfl, rfl, rfl, fun x => ?_, fun x => ?_⟩
      · dsimp only
        by_cases hx : x = id
        · subst hx
          rw [update_self, hev]
          exact iff_of_false nofun nofun
        · rw [update_of_ne hx]
      · unfold gpuAt
        dsimp only
        by_cases hx : x = id
        · subst hx
          rw [update_self, hev]
          rfl
        · rw [update_of_ne hx]
    · exact .refl p

theorem setEventFromInterrupt_inv (h : Inv p) (id : Nat) : Inv (setEventFromInterrupt p id) := by
  have hsame := setEventFromInterrupt_same p id
  unfold setEventFromInterrupt at hsame ⊢
  cases hev : p.event id with
  | none => exact h
  | some ev =>
    simp only [hev] at hsame ⊢
    split at hsame
    · next hgpu =>
      rw [if_pos hgpu]
      refine h.same hsame (fun page' hpage => ?_) fun hnone => map_eq_none_iff.mp hnone
      obtain ⟨page, hp, rfl⟩ := map_eq_some_iff.mp hpage
      refine ⟨h.write_inside hp (h.signal id ?_) _, (h.page page hp).2⟩
      rw [gpuAt, hev, any_some]
      exact hgpu
    · next hgpu =>
      rw [if_neg hgpu]
      exact h

theorem kfdSignalEventInterrupt_keeps {P : Process → Prop}
    (hset : ∀ q id, P q → P (setEventFromInterrupt q id)) (h : P p) (partialId validIdBits : Nat) :
    P (kfdSignalEventInterrupt p partialId validIdBits) := by
  have hscan : ∀ q id, P q → P (scanSlot q id) := by
    intro q id hq
    unfold scanSlot
    split
    · exact hset q id hq
    · exact hq
  unfold kfdSignalEventInterrupt
  cases p.signalPage with
  | none => exact h
  | some page =>
    dsimp only
    split
    · exact hset p _ h
    · have hall : ∀ ids : List Nat, P (ids.foldl scanSlot p) := run_inv hscan h
      unfold scanSlots
      split
      · exact hall _
      · exact hall _

theorem kfdSignalEventInterrupt_same (p : Process) (partialId validIdBits : Nat) :
    SameIds p (kfdSignalEventInterrupt p partialId validIdBits) :=
  kfdSignalEventInterrupt_keeps (P := SameIds p)
    (fun q id h => h.trans (setEventFromInterrupt_same q id)) (.refl p) partialId validIdBits

end Interrupt

/-! ## One operation -/

section Step
variable {p p1 : Process} {ev : Event} {restoreId : Option UInt32} {a : Alloc}

variable {ok : Bool}

theorem ensureSignalPage_cases (h : ensureSignalPage p ok = some p1) :
    (p.signalPage ≠ none ∧ p1 = p) ∨
      (p.signalPage = none ∧
        p1 = { p with signalPage := some driverPage, signalMappedSize := 256 * 8 }) := by
  unfold ensureSignalPage at h
  split at h
  · next page hpage =>
    cases h
    exact .inl ⟨by rw [hpage]; nofun, rfl⟩
  · next hpage =>
    split at h
    · cases h
      exact .inr ⟨hpage, rfl⟩
    · cases h

theorem Inv.no_signal (h : Inv p) (hpage : p.signalPage = none) (id : Nat) :
    gpuAt p id = false := by
  by_contra hgpu
  have hlt := h.signal id (Bool.not_eq_false _ ▸ hgpu)
  rw [slotCount, h.noPage hpage] at hlt
  omega

theorem Inv.setPage (h : Inv p) (hpage : p.signalPage = none) {page : Page} {mapped : Nat}
    (hout : page.outside = false) (hsize : 8 * signalEventLimit ≤ page.size)
    (hmapped : 256 ≤ mapped / 8) :
    Inv { p with signalPage := some page, signalMappedSize := mapped } := by
  refine { h.toTable.congr rfl rfl rfl with signal := ?_, other := ?_, page := ?_, noPage := ?_ }
  · intro id hid
    have hno : gpuAt p id = false := h.no_signal hpage id
    cases hno.symm.trans hid
  · exact h.other
  · rintro page' ⟨⟩
    exact ⟨hout, hsize, hmapped⟩
  · nofun

theorem ensureSignalPage_inv (h : Inv p) (hp : ensureSignalPage p ok = some p1) : Inv p1 := by
  rcases ensureSignalPage_cases hp with ⟨-, rfl⟩ | ⟨hnone, rfl⟩
  · exact h
  · exact h.setPage hnone rfl le_rfl (by decide)

theorem ensureSignalPage_table (h : Table p) (hp : ensureSignalPage p ok = some p1) : Table p1 := by
  rcases ensureSignalPage_cases hp with ⟨-, rfl⟩ | ⟨-, rfl⟩
  · exact h
  · exact h.congr rfl rfl rfl

theorem ensureSignalPage_idr (hp : ensureSignalPage p ok = some p1) : p1.idr = p.idr := by
  rcases ensureSignalPage_cases hp with ⟨-, rfl⟩ | ⟨-, rfl⟩
  · rfl
  · rfl

theorem ensureSignalPage_some (hp : ensureSignalPage p ok = some p1) : p1.signalPage ≠ none := by
  rcases ensureSignalPage_cases hp with ⟨hsome, rfl⟩ | ⟨-, rfl⟩
  · exact hsome
  · nofun

theorem createSignalEvent_table (h : Table p) (hev : ev.canBeGpuSignaled = true)
    (restoreId : Option UInt32) (a : Alloc) : Table (createSignalEvent p ev restoreId a).1 := by
  rcases createSignalEvent_cases p ev restoreId a with heq | ⟨p1, hp, heq | ⟨id, hid, -, heq⟩⟩
  · rwa [heq]
  · rw [heq]
    exact ensureSignalPage_table h hp
  · rw [heq]
    refine (ensureSignalPage_table h hp).enter (ensureSignalPage_idr hp ▸ hid) rfl rfl ?_
    rw [if_pos hev]

theorem createOtherEvent_table (h : Table p) (hev : ev.canBeGpuSignaled = false)
    (restoreId : Option UInt32) (a : Alloc) : Table (createOtherEvent p ev restoreId a).1 := by
  rcases createOtherEvent_cases p ev restoreId a with heq | ⟨id, hid, -, heq⟩
  · rwa [heq]
  · rw [heq]
    refine h.enter hid rfl rfl ?_
    rw [hev]
    rfl

theorem createSignalEvent_inv (h : Inv p) (hev : ev.canBeGpuSignaled = true)
    (hid : ∀ p1 id, ensureSignalPage p a.page = some p1 → id ∉ p.idr →
      IdOk p restoreId 0 (idrEnd (p1.signalMappedSize / 8)) id → id < slotCount p1) :
    Inv (createSignalEvent p ev restoreId a).1 := by
  have htable := createSignalEvent_table h.toTable hev restoreId a
  rcases createSignalEvent_cases p ev restoreId a with heq | ⟨p1, hp, heq | ⟨id, hfree, hok, heq⟩⟩
  · rwa [heq]
  · rw [heq]
    exact ensureSignalPage_inv h hp
  · have h1 := ensureSignalPage_inv h hp
    have hlt := hid p1 id hp hfree hok
    rw [heq] at htable ⊢
    refine { htable with signal := ?_, other := ?_, page := ?_, noPage := ?_ }
    · intro x hx
      by_cases hxid : x = id
      · exact hxid ▸ hlt
      · exact h1.signal x ((gpuAt_enter_of_ne hxid).symm.trans hx)
    · intro x hlive hx
      by_cases hxid : x = id
      · subst hxid
        cases hev.symm.trans (gpuAt_enter_self.symm.trans hx)
      · exact h1.other x (enter_event_of_ne hxid ▸ hlive) ((gpuAt_enter_of_ne hxid).symm.trans hx)
    · intro page' hpage'
      obtain ⟨page, hpage, rfl⟩ := map_eq_some_iff.mp hpage'
      exact ⟨h1.write_inside hpage hlt _, (h1.page page hpage).2⟩
    · intro hnone
      exact absurd (map_eq_none_iff.mp hnone) (ensureSignalPage_some hp)

theorem createOtherEvent_inv (h : Inv p) (hev : ev.canBeGpuSignaled = false)
    (hid : ∀ id, id ∉ p.idr → IdOk p restoreId firstNonsignalEventId intEnd id →
      firstNonsignalEventId ≤ id) :
    Inv (createOtherEvent p ev restoreId a).1 := by
  have htable := createOtherEvent_table h.toTable hev restoreId a
  rcases createOtherEvent_cases p ev restoreId a with heq | ⟨id, hfree, hok, heq⟩
  · rwa [heq]
  · rw [heq] at htable ⊢
    refine { htable with signal := ?_, other := ?_, page := h.page, noPage := h.noPage }
    · intro x hx
      by_cases hxid : x = id
      · subst hxid
        cases hev.symm.trans (gpuAt_enter_self.symm.trans hx)
      · exact h.signal x ((gpuAt_enter_of_ne hxid).symm.trans hx)
    · intro x hlive hx
      by_cases hxid : x = id
      · exact hxid ▸ hid id hfree hok
      · exact h.other x (enter_event_of_ne hxid ▸ hlive) ((gpuAt_enter_of_ne hxid).symm.trans hx)

theorem Inv.firstFree_lt (h : Inv p) (hcount : p.signalEventCount < signalEventLimit) {id : Nat}
    (hset : ∀ i, i < id → i ∈ p.idr) : id < signalEventLimit := by
  by_contra hge
  have hsub : Finset.Ico 1 signalEventLimit ⊆ p.idr.filter fun x => gpuAt p x = true := by
    intro i hi
    obtain ⟨hpos, hlt⟩ := mem_Ico.mp hi
    have hmem : i ∈ p.idr := hset i (by omega)
    refine mem_filter.mpr ⟨hmem, ?_⟩
    by_contra hgpu
    have hbig := h.other i ((h.live i (by omega)).mp hmem) (Bool.not_eq_true _ ▸ hgpu)
    have : signalEventLimit ≤ firstNonsignalEventId := by decide
    omega
  have hcard := card_le_card hsub
  rw [Nat.card_Ico] at hcard
  have := h.count
  omega

end Step

/-! ## Runs -/

def BoOk (p : Process) (bo : Except Errno Bo) : Prop :=
  ∀ b, p.signalPage = none → bo = .ok b → 8 * signalEventLimit ≤ b.size

/-- The number of slots of the page that a restored event finds. -/
def slotsFor (p : Process) (priv : EventPriv) : Nat :=
  match p.signalPage with
  | some _ => slotCount p
  | none =>
    match priv.userHandle with
    | some (.ok bo) => min (bo.size / 8) signalEventLimit
    | _ => 256

/-- The id of the checkpoint is in the range for its type. -/
def IdFits (p : Process) (priv : EventPriv) : Prop :=
  match priv.type with
  | .signal => priv.eventId.toNat < slotsFor p priv
  | .debug => priv.eventId.toNat < slotsFor p priv
  | .memory => firstNonsignalEventId ≤ priv.eventId.toNat
  | .hwException => firstNonsignalEventId ≤ priv.eventId.toNat
  | .other _ => True

/-- No slot beyond the last one that the driver knows is left for a new event. -/
def SlotLeft (p : Process) : Prop :=
  p.signalMappedSize / 8 ≤ signalEventLimit ∨ p.signalEventCount < signalEventLimit

/-- The condition on an operation, where it gets to what the condition is about. -/
def Op.Ok (p : Process) : Op → Prop
  | .create type _ a => a.event = true → type = .signal ∨ type = .debug → SlotLeft p
  | .kmap bo ok => ok = true → BoOk p bo
  | .restore priv early a =>
    early = none →
      (∀ bo, priv.userHandle = some bo → a.page = true → BoOk p bo) ∧
        ((restorePage p priv a).2 = none →
          IdFits p priv ∨ priv.eventId.toNat ∈ p.idr ∨ 2 ^ 31 ≤ priv.eventId.toNat)
  | _ => True

section Run
variable {p p1 : Process}

theorem kfdKmapEventPage_cases (p : Process) (bo : Except Errno Bo) (ok : Bool) :
    (∃ e, kfdKmapEventPage p bo ok = (p, some e)) ∨
      ∃ b, p.signalPage = none ∧ bo = .ok b ∧ ok = true ∧ kfdKmapEventPage p bo ok =
        ({ p with
            signalPage := some (Page.clear { size := b.size, slots := b.content, outside := false })
            signalMappedSize := b.size }, none) := by
  unfold kfdKmapEventPage
  cases hpage : p.signalPage with
  | some page => exact .inl ⟨_, rfl⟩
  | none =>
    cases bo with
    | error e => exact .inl ⟨_, rfl⟩
    | ok b =>
      unfold kfdEventPageSet
      rw [hpage]
      cases ok with
      | false => exact .inl ⟨_, rfl⟩
      | true => exact .inr ⟨b, rfl, rfl, rfl, rfl⟩

theorem kfdKmapEventPage_table (h : Table p) (bo : Except Errno Bo) (ok : Bool) :
    Table (kfdKmapEventPage p bo ok).1 := by
  rcases kfdKmapEventPage_cases p bo ok with ⟨e, heq⟩ | ⟨b, -, -, -, heq⟩
  · rwa [heq]
  · rw [heq]
    exact h.congr rfl rfl rfl

theorem kfdKmapEventPage_inv (h : Inv p) {bo : Except Errno Bo} {ok : Bool}
    (hbo : ok = true → BoOk p bo) : Inv (kfdKmapEventPage p bo ok).1 := by
  rcases kfdKmapEventPage_cases p bo ok with ⟨e, heq⟩ | ⟨b, hnone, hb, hok, heq⟩
  · rwa [heq]
  · rw [heq]
    have hsize := hbo hok b hnone hb
    have hlimit : signalEventLimit = 4096 := rfl
    refine h.setPage hnone ?_ hsize (by omega)
    simpa [Page.clear] using hsize

theorem restored_fst (r : Process × Except Errno Nat) :
    (match r with
      | (p, .error e) => (p, some e)
      | (p, .ok _) => (p, (none : Option Errno))).1 = r.1 := by
  obtain ⟨q, e | id⟩ := r
  · rfl
  · rfl

variable {priv : EventPriv} {a : Alloc} {ev : Event} {ok : Bool}

theorem kfdCriuRestoreEvent_keeps {P : Process → Prop} (h : P p)
    (hpage : P (restorePage p priv a).1)
    (hsignal : ∀ ev, (restorePage p priv a).2 = none → priv.type = .signal ∨ priv.type = .debug →
      ev.canBeGpuSignaled = true →
      P (createSignalEvent (restorePage p priv a).1 ev (some priv.eventId) a).1)
    (hother : ∀ ev, (restorePage p priv a).2 = none →
      priv.type = .memory ∨ priv.type = .hwException → ev.canBeGpuSignaled = false →
      P (createOtherEvent (restorePage p priv a).1 ev (some priv.eventId) a).1)
    (early : Option Errno) : P (kfdCriuRestoreEvent p priv early a).1 := by
  unfold kfdCriuRestoreEvent
  cases early with
  | some e => exact h
  | none =>
    generalize hr : restorePage p priv a = r at *
    obtain ⟨p1, e⟩ := r
    cases e with
    | some e => exact hpage
    | none =>
      cases htype : priv.type with
      | signal => exact restored_fst _ ▸ hsignal _ rfl (.inl htype) rfl
      | debug => exact restored_fst _ ▸ hsignal _ rfl (.inr htype) rfl
      | memory => exact restored_fst _ ▸ hother _ rfl (.inl htype) rfl
      | hwException => exact restored_fst _ ▸ hother _ rfl (.inr htype) rfl
      | other type => exact hpage

theorem step_table (h : Table p) (op : Op) : Table (step p op) := by
  cases op with
  | create type autoReset a =>
    simp only [step, kfdEventCreate]
    split
    · exact h
    · cases type with
      | signal => exact createSignalEvent_table h rfl none a
      | debug => exact createSignalEvent_table h rfl none a
      | hwException => exact createOtherEvent_table h rfl none a
      | memory => exact createOtherEvent_table h rfl none a
      | other type => exact createOtherEvent_table h rfl none a
  | destroy id =>
    simp only [step]
    cases hev : p.event id with
    | none => simpa only [kfdEventDestroy, hev] using h
    | some ev => exact h.remove hev
  | kmap bo ok => exact kfdKmapEventPage_table h bo ok
  | restore priv early a =>
    have hpage : Table (restorePage p priv a).1 := by
      unfold restorePage
      cases priv.userHandle with
      | none => exact h
      | some bo => exact kfdKmapEventPage_table h bo a.page
    exact kfdCriuRestoreEvent_keeps h hpage (fun _ _ _ hev => createSignalEvent_table hpage hev _ _)
      (fun _ _ _ hev => createOtherEvent_table hpage hev _ _) early
  | gpuWrite id value => exact h.congr rfl rfl rfl
  | interrupt partialId validIdBits =>
    exact h.same (kfdSignalEventInterrupt_same p partialId validIdBits)

variable {id : Nat}

theorem kfdEventDestroy_spec (hev : p.event id = some ev) :
    (kfdEventDestroy p id).1.event = update p.event id none ∧
      (kfdEventDestroy p id).1.signalPage = p.signalPage ∧
      (kfdEventDestroy p id).1.signalMappedSize = p.signalMappedSize ∧
      (kfdEventDestroy p id).1.unseen = p.unseen.erase id := by
  simp only [kfdEventDestroy, hev, and_self]

theorem kfdEventDestroy_live {id x : Nat} (hev : p.event id = some ev)
    (hx : (kfdEventDestroy p id).1.event x ≠ none) :
    p.event x ≠ none ∧ gpuAt (kfdEventDestroy p id).1 x = gpuAt p x ∧ x ≠ id := by
  have hevent := (kfdEventDestroy_spec hev).1
  have hne : x ≠ id := by
    rintro rfl
    rw [hevent] at hx
    exact hx (update_self ..)
  have hsame : (kfdEventDestroy p id).1.event x = p.event x := by
    rw [hevent, update_of_ne hne]
  rw [hsame] at hx
  refine ⟨hx, ?_, hne⟩
  rw [gpuAt, gpuAt, hsame]

theorem live_of_gpuAt (h : gpuAt p id = true) : p.event id ≠ none := by
  intro hnone
  rw [gpuAt, hnone] at h
  cases h

theorem kfdEventDestroy_inv (h : Inv p) (id : Nat) : Inv (kfdEventDestroy p id).1 := by
  cases hev : p.event id with
  | none => simpa only [kfdEventDestroy, hev] using h
  | some ev =>
    obtain ⟨-, hpage, hmapped, -⟩ := kfdEventDestroy_spec hev
    refine { h.toTable.remove hev with signal := ?_, other := ?_, page := ?_, noPage := ?_ }
    · intro x hx
      obtain ⟨-, hgpu, -⟩ := kfdEventDestroy_live hev (live_of_gpuAt hx)
      rw [slotCount, hmapped]
      exact h.signal x (hgpu.symm.trans hx)
    · intro x hlive hx
      obtain ⟨hold, hgpu, -⟩ := kfdEventDestroy_live hev hlive
      exact h.other x hold (hgpu.symm.trans hx)
    · rw [hpage, hmapped]
      exact h.page
    · rw [hpage, hmapped]
      exact h.noPage

theorem Inv.newSignal (h : Inv p) (hleft : SlotLeft p) (hp : ensureSignalPage p ok = some p1)
    (hid : IdOk p none 0 (idrEnd (p1.signalMappedSize / 8)) id) : id < slotCount p1 := by
  obtain ⟨-, hlt, hset⟩ := hid
  have h1 := ensureSignalPage_inv h hp
  obtain ⟨page, hpage⟩ := ne_none_iff_exists'.mp (ensureSignalPage_some hp)
  have hmapped := (h1.page page hpage).2.2
  have hleft1 : SlotLeft p1 := by
    rcases ensureSignalPage_cases hp with ⟨-, rfl⟩ | ⟨-, rfl⟩
    · exact hleft
    · exact .inl (show 256 * 8 / 8 ≤ signalEventLimit by decide)
  have hlimit : signalEventLimit = 4096 := rfl
  unfold slotCount
  by_cases hsmall : p1.signalMappedSize / 8 ≤ signalEventLimit
  · rw [idrEnd, toInt32_of_lt (by omega), if_pos (by omega)] at hlt
    omega
  · have hcount : p1.signalEventCount < signalEventLimit := hleft1.resolve_left hsmall
    have := h1.firstFree_lt hcount fun i hi => ensureSignalPage_idr hp ▸ hset i (Nat.zero_le i) hi
    omega

theorem slotCount_restorePage (h : Inv p) (hnoerr : (restorePage p priv a).2 = none)
    (hp : ensureSignalPage (restorePage p priv a).1 ok = some p1) :
    slotCount p1 = slotsFor p priv := by
  unfold restorePage at hnoerr hp
  unfold slotsFor
  cases hhandle : priv.userHandle with
  | none =>
    rw [hhandle] at hp
    rcases ensureSignalPage_cases hp with ⟨hsome, rfl⟩ | ⟨hnone, rfl⟩
    · obtain ⟨page, hpage⟩ := ne_none_iff_exists'.mp hsome
      dsimp only at hpage ⊢
      rw [hpage]
    · dsimp only at hnone ⊢
      rw [hnone]
      show min (256 * 8 / 8) signalEventLimit = 256
      decide
  | some bo =>
    rw [hhandle] at hp hnoerr
    dsimp only at hp hnoerr
    rcases kfdKmapEventPage_cases p bo a.page with ⟨e, heq⟩ | ⟨b, hnone, rfl, -, heq⟩
    · rw [heq] at hnoerr
      cases hnoerr
    · rw [heq] at hp
      rcases ensureSignalPage_cases hp with ⟨-, rfl⟩ | ⟨hno, -⟩
      · rw [hnone]
        rfl
      · cases hno

theorem step_inv (h : Inv p) {op : Op} (hok : op.Ok p) : Inv (step p op) := by
  cases op with
  | create type autoReset a =>
    simp only [step, kfdEventCreate]
    split
    · exact h
    · next hev =>
      have hleft := hok (by simpa using hev)
      cases type with
      | signal =>
        exact createSignalEvent_inv h rfl fun p1 id hp _ hid =>
          h.newSignal (hleft (.inl rfl)) hp hid
      | debug =>
        exact createSignalEvent_inv h rfl fun p1 id hp _ hid =>
          h.newSignal (hleft (.inr rfl)) hp hid
      | hwException => exact createOtherEvent_inv h rfl fun id _ hid => hid.1
      | memory => exact createOtherEvent_inv h rfl fun id _ hid => hid.1
      | other type => exact createOtherEvent_inv h rfl fun id _ hid => hid.1
  | destroy id => exact kfdEventDestroy_inv h id
  | kmap bo ok => exact kfdKmapEventPage_inv h hok
  | restore priv early a =>
    cases early with
    | some e => exact h
    | none =>
    obtain ⟨hbo, hfits⟩ := hok rfl
    have hpage : Inv (restorePage p priv a).1 ∧ (restorePage p priv a).1.idr = p.idr := by
      unfold restorePage
      cases hhandle : priv.userHandle with
      | none => exact ⟨h, rfl⟩
      | some bo =>
        refine ⟨kfdKmapEventPage_inv h (hbo bo hhandle), ?_⟩
        dsimp only
        rcases kfdKmapEventPage_cases p bo a.page with ⟨e, heq⟩ | ⟨b, -, -, -, heq⟩
        · rw [heq]
        · rw [heq]
    -- the event is entered at this id, so that it was free and is an `int`
    have hfit : ∀ id, (restorePage p priv a).2 = none → id ∉ (restorePage p priv a).1.idr →
        priv.eventId.toNat < 2 ^ 31 ∧ id = priv.eventId.toNat → IdFits p priv := by
      rintro id hnoerr hfree ⟨hsmall, rfl⟩
      rcases hfits hnoerr with hfits | htaken | hbig
      · exact hfits
      · exact absurd (hpage.2.symm ▸ htaken) hfree
      · omega
    refine kfdCriuRestoreEvent_keeps h hpage.1 ?_ ?_ none
    · intro ev hnoerr htype hev
      refine createSignalEvent_inv hpage.1 hev fun p1 id hp hfree hid => ?_
      have hlt := hfit id hnoerr hfree hid
      rw [slotCount_restorePage h hnoerr hp, hid.2]
      rcases htype with htype | htype
      · rwa [IdFits, htype] at hlt
      · rwa [IdFits, htype] at hlt
    · intro ev hnoerr htype hev
      refine createOtherEvent_inv hpage.1 hev fun id hfree hid => ?_
      have hge := hfit id hnoerr hfree hid
      rw [hid.2]
      rcases htype with htype | htype
      · rwa [IdFits, htype] at hge
      · rwa [IdFits, htype] at hge
  | gpuWrite id value =>
    refine h.same ⟨rfl, rfl, rfl, fun _ => Iff.rfl, fun _ => rfl⟩ ?_ map_eq_none_iff.mp
    intro page' hpage'
    obtain ⟨page, hpage, rfl⟩ := map_eq_some_iff.mp hpage'
    exact h.page page hpage
  | interrupt partialId validIdBits =>
    exact kfdSignalEventInterrupt_keeps (P := Inv) (fun _ id h => setEventFromInterrupt_inv h id) h
      partialId validIdBits

theorem Inv.init : Inv kfdEventInitProcess where
  zero := rfl
  zero_mem := mem_singleton_self 0
  live := by
    intro id hid
    exact iff_of_false (mt mem_singleton.mp hid) fun h => h rfl
  count := rfl
  signal := nofun
  other := fun _ h => absurd rfl h
  page := nofun
  noPage := fun _ => rfl

/-- With any id that is restored and any page. -/
theorem table_run (ops : List Op) : Table (run step kfdEventInitProcess ops) :=
  run_inv (P := Table) (fun _ op h => step_table h op) Inv.init.toTable ops

/-- The ids of live events are in their ranges, the counter is right, and every write of
the driver was inside of the page. -/
structure Sound (p : Process) : Prop where
  signal : ∀ id ev, p.event id = some ev → ev.canBeGpuSignaled = true → id ≠ 0 ∧ id < slotCount p
  other : ∀ id ev, p.event id = some ev → ev.canBeGpuSignaled = false → firstNonsignalEventId ≤ id
  count : ∃ ids : Finset Nat, (∀ id, id ∈ ids ↔ gpuAt p id = true) ∧
    p.signalEventCount = 1 + ids.card
  inside : ∀ page, p.signalPage = some page → page.outside = false

theorem Inv.sound (h : Inv p) : Sound p := by
  refine ⟨fun id ev hev hgpu => ?_, fun id ev hev hgpu => ?_, ?_, fun page hp => (h.page page hp).1⟩
  · have hat : gpuAt p id = true := by rwa [gpuAt, hev, any_some]
    exact ⟨(h.mem_of_gpuAt hat).1, h.signal id hat⟩
  · exact h.other id (by rw [hev]; nofun) (by rwa [gpuAt, hev, any_some])
  · refine ⟨p.idr.filter fun id => gpuAt p id = true, fun id => ?_, h.count⟩
    rw [mem_filter]
    exact and_iff_right_of_imp fun hat => (h.mem_of_gpuAt hat).2

/-- In every run whose operations meet their conditions, the ids and slots are sound. -/
theorem ids_sound (ops : List Op)
    (hok : StepsOk step (fun p op => op.Ok p) kfdEventInitProcess ops) :
    Sound (run step kfdEventInitProcess ops) := by
  have hinv : Inv (run step kfdEventInitProcess ops) :=
    run_inv_of_stepsOk (P := Inv) (fun _ _ h hok => step_inv h hok) Inv.init hok
  exact hinv.sound

def exAlloc : Alloc := { event := true, page := true, idr := true }

def exIds : List Op :=
  [.create .signal true exAlloc, .create .memory false exAlloc, .destroy 1]

theorem ids_sound_exIds :
    StepsOk step (fun p op => op.Ok p) kfdEventInitProcess exIds ∧
      Sound (run step kfdEventInitProcess exIds) := by
  have hok : StepsOk step (fun p op => op.Ok p) kfdEventInitProcess exIds :=
    ⟨fun _ _ => .inl (by decide), fun _ h => (by rcases h with h | h <;> cases h), trivial,
      trivial⟩
  exact ⟨hok, ids_sound exIds hok⟩

def exRestore : EventPriv :=
  { userHandle := none
    eventId := 5000
    type := .signal
    autoReset := false
    signaled := false }

def exBo : Bo := { size := 4096, content := fun _ => 0 }

/-- The slot of the restored event is not in the page of 4096 slots that the driver makes,
and a buffer of one page is cleared beyond its end. -/
theorem ids_sound_broken :
    ¬Sound (run step kfdEventInitProcess [.restore exRestore none exAlloc]) ∧
      ¬Sound (run step kfdEventInitProcess [.kmap (.ok exBo) true]) := by
  constructor
  · intro h
    have hid := h.signal 5000 _ rfl rfl
    exact absurd hid.2 (by decide)
  · intro h
    have hout := h.inside _ rfl
    exact absurd hout (by decide)

end Run

end Amdkfd.Events
