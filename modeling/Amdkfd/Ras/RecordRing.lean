import Amdkfd.Ras.Persist

/-!
# The ring of records, slot by slot

`amdgpu_ras_eeprom_append_table` on a bus whose transfers can end early: which slots of the ring it
writes, which it leaves, and where the first record and the count stand afterwards.
-/

namespace Amdkfd.Ras

open Lib List

/-! ## Appending on a bus that can fail -/

/-- What the bus answers to a transfer: all bytes have gone, or only so many. -/
inductive Transfer
  | complete
  | stopped (e : Errno) (bytes : Nat)
  deriving DecidableEq, Repr

def amdgpuRasEepromTryWriteAt (answer : Transfer) (t : Table) (buf : List UInt8) (fri : Nat) :
    Table × Option Errno :=
  match answer with
  | .complete => (amdgpuRasEepromWriteAt t buf fri, none)
  | .stopped e bytes => (amdgpuRasEepromWriteAt t (buf.take bytes) fri, some e)

/-- The two writes of a run that wraps: `g0` records from `a` on, the rest from the start. -/
def tryWriteWrapped (first second : Transfer) (t : Table) (buf : List UInt8) (a g0 : Nat) :
    Table × Option Errno :=
  match amdgpuRasEepromTryWriteAt first t (buf.take (g0 * rasTableRecordSize)) a with
  | (t, some e) => (t, some e)
  | (t, none) => amdgpuRasEepromTryWriteAt second t (buf.drop (g0 * rasTableRecordSize)) 0

/-- The index of the first record, and the count read off it and the place of the last. -/
def Table.withRing (t : Table) (fri b : Nat) : Table :=
  { t with
    control :=
      { t.control with
        rasFri := fri
        rasNumRecs :=
          1 + (t.control.rasMaxRecordCount + b - fri) % t.control.rasMaxRecordCount } }

/-- `goto Out` with an error, or the end of the function. -/
def outOr (r : Table × Option Errno) (fri b : Nat) : Table × Option Errno :=
  match r with
  | (t, some e) => (t, some e)
  | (t, none) => (t.withRing fri b, none)

/-- The writes of `amdgpu_ras_eeprom_append_table`, with the answers to its transfers. The first
case has no `goto Out`: the count moves on also when its write fails. -/
def appendRingOn (first second : Transfer) (t : Table) (buf : List UInt8) (num : Nat) :
    Table × Option Errno :=
  let n := t.control.rasMaxRecordCount
  let fri := t.control.rasFri
  let a := fri + t.control.rasNumRecs
  let b := a + num - 1
  if b < n then
    let r := amdgpuRasEepromTryWriteAt first t buf a
    (r.1.withRing fri b, r.2)
  else if a < n then
    let g0 := n - a
    let g1 := b % n + 1
    outOr (tryWriteWrapped first second t buf a g0) (if fri < g1 then g1 % n else fri) b
  else
    let a := a % n
    let b := b % n
    if a ≤ b then
      outOr (amdgpuRasEepromTryWriteAt first t buf a) (if fri ≤ b then (b + 1) % n else fri) b
    else
      let g0 := n - a
      let g1 := b + 1
      outOr (tryWriteWrapped first second t buf a g0) (g1 % n) b

def amdgpuRasEepromAppendTableOn (first second : Transfer) (t : Table) (record : List Record) :
    Table × Option Errno :=
  appendRingOn first second { t with control := record.foldl noteChannel t.control }
    (record.flatMap encodeTableRecordToBuf) record.length

/-! ## Without an error -/

section
variable {first second : Transfer} {t : Table} {buf : List UInt8} {record : List Record}

theorem tryWriteAt_none {fri : Nat} (h : (amdgpuRasEepromTryWriteAt first t buf fri).2 = none) :
    amdgpuRasEepromTryWriteAt first t buf fri = (amdgpuRasEepromWriteAt t buf fri, none) := by
  cases first with
  | complete => rfl
  | stopped e bytes => cases h

theorem tryWriteWrapped_none {a g0 : Nat} (h : (tryWriteWrapped first second t buf a g0).2 = none) :
    tryWriteWrapped first second t buf a g0 =
      (amdgpuRasEepromWriteAt
        (amdgpuRasEepromWriteAt t (buf.take (g0 * rasTableRecordSize)) a)
        (buf.drop (g0 * rasTableRecordSize)) 0, none) := by
  cases first with
  | complete => exact tryWriteAt_none h
  | stopped e bytes => cases h

theorem outOr_none {r : Table × Option Errno} {fri b : Nat} (h : (outOr r fri b).2 = none) :
    r.2 = none ∧ outOr r fri b = (r.1.withRing fri b, none) := by
  obtain ⟨t', res⟩ := r
  cases res with
  | none => exact ⟨rfl, rfl⟩
  | some e => cases h

theorem appendTableOn_eq
    (h : (amdgpuRasEepromAppendTableOn first second t record).2 = none) :
    amdgpuRasEepromAppendTableOn first second t record =
      (amdgpuRasEepromAppendTable t record, none) := by
  unfold amdgpuRasEepromAppendTableOn appendRingOn at h ⊢
  unfold amdgpuRasEepromAppendTable appendRing
  dsimp only at h ⊢
  split at h
  next hb =>
    rw [if_pos hb, if_pos hb, tryWriteAt_none h]
    rfl
  next hb =>
    rw [if_neg hb, if_neg hb]
    split at h
    next ha =>
      obtain ⟨hwrite, hout⟩ := outOr_none h
      rw [if_pos ha, if_pos ha, hout, tryWriteWrapped_none hwrite]
      rfl
    next ha =>
      rw [if_neg ha, if_neg ha]
      split at h
      next hle =>
        obtain ⟨hwrite, hout⟩ := outOr_none h
        rw [if_pos hle, if_pos hle, hout, tryWriteAt_none hwrite]
        rfl
      next hle =>
        obtain ⟨hwrite, hout⟩ := outOr_none h
        rw [if_neg hle, if_neg hle, hout, tryWriteWrapped_none hwrite]
        rfl

end

/-! ## What is outside of the ring -/

/-- Nothing has changed but the `size` bytes from `off` on. -/
def SameOutside (off size : Nat) (e e' : Eeprom) : Prop :=
  ∀ addr, addr < off ∨ off + size ≤ addr → e' addr = e addr

theorem SameOutside.refl (off size : Nat) (e : Eeprom) : SameOutside off size e e :=
  fun _ _ => rfl

theorem SameOutside.write {off size addr : Nat} {e e' : Eeprom} {buf : List UInt8}
    (h : SameOutside off size e e') (hge : off ≤ addr) (hle : addr + buf.length ≤ off + size) :
    SameOutside off size e (amdgpuEepromWrite e' addr buf) := by
  intro x hx
  rw [← h x hx]
  unfold amdgpuEepromWrite ringWrite
  rw [dif_neg (by omega)]

def SameOutsideRing (c : Control) (e e' : Eeprom) : Prop :=
  SameOutside c.rasRecordOffset (c.rasMaxRecordCount * rasTableRecordSize) e e'

section
variable {first second : Transfer} {t : Table} {buf : List UInt8} {record : List Record}
  {c : Control} {e : Eeprom}

@[simp] theorem tryWriteAt_control (fri : Nat) :
    (amdgpuRasEepromTryWriteAt first t buf fri).1.control = t.control := by
  cases first with
  | complete | stopped err bytes => rfl

@[simp] theorem tryWriteWrapped_control (a g0 : Nat) :
    (tryWriteWrapped first second t buf a g0).1.control = t.control := by
  cases first with
  | complete => exact tryWriteAt_control 0
  | stopped err bytes => rfl

theorem tryWriteAt_outside {fri : Nat} (h : SameOutsideRing t.control e t.eeprom)
    (hfit : fri * rasTableRecordSize + buf.length ≤
      t.control.rasMaxRecordCount * rasTableRecordSize) :
    SameOutsideRing t.control e (amdgpuRasEepromTryWriteAt first t buf fri).1.eeprom := by
  have hge : t.control.rasRecordOffset ≤ rasIndexToOffset t.control fri := Nat.le_add_right ..
  have hoff : rasIndexToOffset t.control fri =
    t.control.rasRecordOffset + fri * rasTableRecordSize := rfl
  cases first with
  | complete => exact h.write hge (by omega)
  | stopped err bytes =>
    have htake := length_take_le' bytes buf
    exact h.write hge (by omega)

theorem tryWriteWrapped_outside {a : Nat} (h : SameOutsideRing t.control e t.eeprom)
    (ha : a < t.control.rasMaxRecordCount)
    (hfit : buf.length ≤ t.control.rasMaxRecordCount * rasTableRecordSize) :
    SameOutsideRing t.control e
      (tryWriteWrapped first second t buf a (t.control.rasMaxRecordCount - a)).1.eeprom := by
  have htake := length_take_le ((t.control.rasMaxRecordCount - a) * rasTableRecordSize) buf
  have hroom : a * rasTableRecordSize + (t.control.rasMaxRecordCount - a) * rasTableRecordSize =
      t.control.rasMaxRecordCount * rasTableRecordSize := by
    rw [← Nat.add_mul, Nat.add_sub_cancel' ha.le]
  have hfirst : SameOutsideRing t.control e (amdgpuRasEepromTryWriteAt first t
      (buf.take ((t.control.rasMaxRecordCount - a) * rasTableRecordSize)) a).1.eeprom :=
    tryWriteAt_outside h (by omega)
  cases first with
  | stopped err bytes => exact hfirst
  | complete =>
    have hdrop : 0 * rasTableRecordSize +
        (buf.drop ((t.control.rasMaxRecordCount - a) * rasTableRecordSize)).length ≤
          t.control.rasMaxRecordCount * rasTableRecordSize := by
      rw [length_drop]
      omega
    exact @tryWriteAt_outside second (amdgpuRasEepromTryWriteAt .complete t
      (buf.take ((t.control.rasMaxRecordCount - a) * rasTableRecordSize)) a).1 _ e 0 hfirst hdrop

/-- Nothing is written outside of the ring, and the ring stays where it is. -/
structure RingFrame (t t' : Table) : Prop where
  rasRecordOffset : t'.control.rasRecordOffset = t.control.rasRecordOffset
  rasMaxRecordCount : t'.control.rasMaxRecordCount = t.control.rasMaxRecordCount
  outside : SameOutsideRing t.control t.eeprom t'.eeprom

theorem RingFrame.withRing {t' : Table} (h : RingFrame t t') (fri b : Nat) :
    RingFrame t (t'.withRing fri b) :=
  ⟨h.rasRecordOffset, h.rasMaxRecordCount, h.outside⟩

theorem RingFrame.outOr {r : Table × Option Errno} (h : RingFrame t r.1) (fri b : Nat) :
    RingFrame t (outOr r fri b).1 := by
  obtain ⟨t', res⟩ := r
  cases res with
  | none => exact h.withRing fri b
  | some err => exact h

theorem RingFrame.of_control {t' : Table} (hcontrol : t'.control = t.control)
    (h : SameOutsideRing t.control t.eeprom t'.eeprom) : RingFrame t t' :=
  ⟨by rw [hcontrol], by rw [hcontrol], h⟩

theorem appendRingOn_frame (hring : InRing t.control) {num : Nat} (hpos : 0 < num)
    (hlen : num ≤ t.control.rasMaxRecordCount) (hbuf : buf.length = num * rasTableRecordSize) :
    RingFrame t (appendRingOn first second t buf num).1 := by
  obtain ⟨hfri, hnum⟩ := hring
  have hn : 0 < t.control.rasMaxRecordCount := by omega
  have hself := SameOutside.refl t.control.rasRecordOffset
    (t.control.rasMaxRecordCount * rasTableRecordSize) t.eeprom
  have hfits := Nat.mul_le_mul_right rasTableRecordSize hlen
  -- A run of records that ends in the ring is `num` slots of it.
  have hrun : ∀ a, a + num ≤ t.control.rasMaxRecordCount → a * rasTableRecordSize + buf.length ≤
      t.control.rasMaxRecordCount * rasTableRecordSize := by
    intro a ha
    have hle := Nat.mul_le_mul_right rasTableRecordSize ha
    rw [Nat.add_mul] at hle
    omega
  unfold appendRingOn
  dsimp only
  split
  next hb =>
    have hfit := hrun (t.control.rasFri + t.control.rasNumRecs) (by omega)
    exact (RingFrame.of_control (tryWriteAt_control _) (tryWriteAt_outside hself hfit)).withRing ..
  next hb =>
    split
    next ha =>
      have hsize : buf.length ≤ t.control.rasMaxRecordCount * rasTableRecordSize := by omega
      exact (RingFrame.of_control (tryWriteWrapped_control ..)
        (tryWriteWrapped_outside hself ha hsize)).outOr ..
    next ha =>
      have hmoda := Nat.mod_lt (t.control.rasFri + t.control.rasNumRecs) hn
      split
      next hle =>
        obtain ⟨hturn, -⟩ := fri_next hfri hnum (by omega) hpos hlen hle
        have hmod : (t.control.rasFri + t.control.rasNumRecs) % t.control.rasMaxRecordCount =
            t.control.rasFri + t.control.rasNumRecs - t.control.rasMaxRecordCount := by
          rw [Nat.mod_eq_sub_mod (by omega), Nat.mod_eq_of_lt (by omega)]
        have hfit := hrun ((t.control.rasFri + t.control.rasNumRecs) %
          t.control.rasMaxRecordCount) (by omega)
        exact (RingFrame.of_control (tryWriteAt_control _) (tryWriteAt_outside hself hfit)).outOr ..
      next hle =>
        have hsize : buf.length ≤ t.control.rasMaxRecordCount * rasTableRecordSize := by omega
        exact (RingFrame.of_control (tryWriteWrapped_control ..)
          (tryWriteWrapped_outside hself hmoda hsize)).outOr ..

theorem appendTableOn_frame (hring : InRing t.control) (hpos : 0 < record.length)
    (hlen : record.length ≤ t.control.rasMaxRecordCount) :
    RingFrame t (amdgpuRasEepromAppendTableOn first second t record).1 := by
  have hbuf : (record.flatMap encodeTableRecordToBuf).length =
      record.length * rasTableRecordSize := by
    simp [length_flatMap]
  unfold amdgpuRasEepromAppendTableOn
  rw [foldl_noteChannel_eq]
  generalize (record.foldl noteChannel t.control).badChannelBitmap = channels
  generalize (record.foldl noteChannel t.control).updateChannelFlag = flag
  have h := @appendRingOn_frame first second { t with control :=
    { t.control with badChannelBitmap := channels, updateChannelFlag := flag } } _
      ⟨hring.fri_lt, hring.numRecs_le⟩ _ hpos hlen hbuf
  exact ⟨h.rasRecordOffset, h.rasMaxRecordCount, h.outside⟩

end

/-! ## The state of the ring -/

/-- The condition that the ring keeps: it begins at slot 0 as long as it is not full. -/
structure RingState (c : Control) : Prop extends InRing c where
  full_of_moved : c.rasFri = 0 ∨ c.rasNumRecs = c.rasMaxRecordCount

section
variable {first second : Transfer} {t : Table} {buf : List UInt8} {record : List Record}

theorem outOr_error {r : Table × Option Errno} {fri b : Nat} {e : Errno}
    (h : (outOr r fri b).2 = some e) : (outOr r fri b).1 = r.1 := by
  obtain ⟨t', res⟩ := r
  cases res with
  | none => cases h
  | some err => rfl

theorem RingState.of_append {t' : Table} (hring : RingState t.control)
    (hpos : 0 < record.length) (h : TableAppended t record t') : RingState t'.control := by
  obtain ⟨⟨hfri, hnum⟩, hfull⟩ := hring
  have hnext := @nextFri_lt _ _ t.control.rasNumRecs record.length hfri
  refine ⟨⟨?_, ?_⟩, ?_⟩
  · rw [h.rasFri, h.rasMaxRecordCount]
    exact hnext
  · rw [h.rasNumRecs, h.rasMaxRecordCount]
    exact Nat.min_le_right ..
  · rw [h.rasFri, h.rasNumRecs, h.rasMaxRecordCount]
    unfold nextFri
    split
    next hfits =>
      rcases hfull with hzero | hall
      · exact .inl hzero
      · omega
    next hfits => exact .inr (Nat.min_eq_right (by omega))

theorem appendRingOn_error {num : Nat} {e : Errno} (hring : RingState t.control) (hpos : 0 < num)
    (h : (appendRingOn first second t buf num).2 = some e) :
    RingState (appendRingOn first second t buf num).1.control := by
  obtain ⟨⟨hfri, hnum⟩, hfull⟩ := hring
  have hkept : RingState t.control := ⟨⟨hfri, hnum⟩, hfull⟩
  unfold appendRingOn at h ⊢
  dsimp only at h ⊢
  split at h
  next hb =>
    rw [if_pos hb]
    have hzero : t.control.rasFri = 0 := by omega
    have hcount : t.control.rasMaxRecordCount +
        (t.control.rasFri + t.control.rasNumRecs + num - 1) - t.control.rasFri =
          t.control.rasMaxRecordCount + (t.control.rasNumRecs + num - 1) := by omega
    have hmod : (t.control.rasNumRecs + num - 1) % t.control.rasMaxRecordCount =
        t.control.rasNumRecs + num - 1 := Nat.mod_eq_of_lt (by omega)
    have hle : 1 + (t.control.rasNumRecs + num - 1) ≤ t.control.rasMaxRecordCount := by omega
    simp only [Table.withRing, tryWriteAt_control, hcount, Nat.add_mod_left, hmod]
    exact ⟨⟨hfri, hle⟩, .inl hzero⟩
  next hb =>
    rw [if_neg hb]
    split at h
    next ha =>
      rw [if_pos ha, outOr_error h, tryWriteWrapped_control]
      exact hkept
    next ha =>
      rw [if_neg ha]
      split at h
      next hle =>
        rw [if_pos hle, outOr_error h, tryWriteAt_control]
        exact hkept
      next hle =>
        rw [if_neg hle, outOr_error h, tryWriteWrapped_control]
        exact hkept

theorem appendTableOn_ringState (hring : RingState t.control) (hpos : 0 < record.length)
    (hlen : record.length ≤ t.control.rasMaxRecordCount) :
    RingState (amdgpuRasEepromAppendTableOn first second t record).1.control := by
  cases hres : (amdgpuRasEepromAppendTableOn first second t record).2 with
  | none =>
    rw [appendTableOn_eq hres]
    exact hring.of_append hpos (append_spec hring.toInRing hpos hlen)
  | some e =>
    unfold amdgpuRasEepromAppendTableOn at hres ⊢
    refine appendRingOn_error ?_ hpos hres
    rw [foldl_noteChannel_eq]
    exact ⟨⟨hring.fri_lt, hring.numRecs_le⟩, hring.full_of_moved⟩

end

/-! ## The slots -/

section
variable {t : Table} {record : List Record}

theorem append_slots (hring : InRing t.control) (hpos : 0 < record.length)
    (hlen : record.length ≤ t.control.rasMaxRecordCount) {i : Nat}
    (hi : i < t.control.rasMaxRecordCount) :
    slots (amdgpuRasEepromAppendTable t record) i =
      ringPut t.control.rasMaxRecordCount (slots t) (t.control.rasFri + t.control.rasNumRecs)
        (record.map encodeTableRecordToBuf) i := by
  have hcells : ∀ c ∈ record.map encodeTableRecordToBuf, c.length = rasTableRecordSize := by
    intro c hc
    obtain ⟨r, -, rfl⟩ := mem_map.mp hc
    exact length_encodeTableRecordToBuf r
  unfold amdgpuRasEepromAppendTable
  rw [foldl_noteChannel_eq]
  generalize (record.foldl noteChannel t.control).badChannelBitmap = channels
  generalize (record.foldl noteChannel t.control).updateChannelFlag = flag
  have happ := @appendRing_spec { t with control :=
    { t.control with badChannelBitmap := channels, updateChannelFlag := flag } } _
      ⟨hring.fri_lt, hring.numRecs_le⟩ hcells (by simpa using hpos) (by simpa using hlen)
  rw [length_map, ← flatMap_def] at happ
  exact happ.ring i hi

structure RingAppended (t : Table) (record : List Record) (t' : Table) : Prop where
  /-- Each new record is in the slot behind those before it. -/
  written : ∀ i (hi : i < record.length),
    slots t' ((t.control.rasFri + t.control.rasNumRecs + i) % t.control.rasMaxRecordCount) =
      encodeTableRecordToBuf record[i]
  /-- The other slots are as before. -/
  kept : ∀ s < t.control.rasMaxRecordCount,
    (∀ i < record.length,
      s ≠ (t.control.rasFri + t.control.rasNumRecs + i) % t.control.rasMaxRecordCount) →
    slots t' s = slots t s
  rasNumRecs : t'.control.rasNumRecs =
    min (t.control.rasNumRecs + record.length) t.control.rasMaxRecordCount
  /-- From the first record on, modulo the size of the ring, there are the last records. -/
  records : tableRecords t' =
    lastN (min (t.control.rasNumRecs + record.length) t.control.rasMaxRecordCount)
      (tableRecords t ++ record.map Record.stored)

theorem ringAppended (hring : InRing t.control) (hpos : 0 < record.length)
    (hlen : record.length ≤ t.control.rasMaxRecordCount) :
    RingAppended t record (amdgpuRasEepromAppendTable t record) := by
  have happ := append_spec hring hpos hlen
  have hslots := fun i hi => @append_slots t record hring hpos hlen i hi
  have hn : 0 < t.control.rasMaxRecordCount := by omega
  refine ⟨fun i hi => ?_, fun s hs hother => ?_, happ.rasNumRecs, ?_⟩
  · have hput := @ringPut_at _ t.control.rasMaxRecordCount (slots t)
      (t.control.rasFri + t.control.rasNumRecs) i (record.map encodeTableRecordToBuf)
      (by simpa using hlen) (by simpa using hi)
    rw [hslots _ (Nat.mod_lt _ hn), hput, getElem_map]
  · rw [hslots s hs]
    exact ringPut_other hs (by simpa using hother)
  · have hcount : (tableRecords t ++ record.map Record.stored).length =
        t.control.rasNumRecs + record.length := by
      simp [tableRecords]
    rw [happ.records, lastN, hcount]
    congr 1
    omega

def ReadsInOrder (t : Table) : Prop :=
  ∀ num, 0 < num → num ≤ t.control.rasNumRecs →
    (amdgpuRasEepromRead t num).2 = .ok ((tableRecords t).take num)

/-- Appending to the ring writes the slots behind the last record and nothing else, keeps the last
records that there is room for, and keeps the condition of the ring. Where a transfer fails, the
condition holds and what is outside of the ring is as before. -/
theorem record_ring (first second : Transfer) (hring : RingState t.control)
    (hpos : 0 < record.length) (hlen : record.length ≤ t.control.rasMaxRecordCount) :
    let r := amdgpuRasEepromAppendTableOn first second t record
    RingState r.1.control ∧
    RingFrame t r.1 ∧
    (r.2 = none → RingAppended t record r.1) ∧
    ReadsInOrder t ∧ ReadsInOrder r.1 := by
  have hstate := @appendTableOn_ringState first second t record hring hpos hlen
  refine ⟨hstate, appendTableOn_frame hring.toInRing hpos hlen, fun hres => ?_,
    fun num => read_first hring.toInRing, fun num => read_first hstate.toInRing⟩
  rw [appendTableOn_eq hres]
  exact ringAppended hring.toInRing hpos hlen

end

def exRing : Table :=
  { control :=
      { tblHdr := ⟨rasTableHdrVal, rasTableVerV1, 20, 92, 0⟩
        tblRai := ⟨0, 0, 0⟩
        rasRecordOffset := 20
        rasNumRecs := 3
        rasFri := 1
        rasMaxRecordCount := 3
        badChannelBitmap := 0
        updateChannelFlag := false }
    eeprom := fun _ => 0 }

/-- Three more records wrap again, and are all that is left. -/
theorem record_ring_exRing :
    let r := amdgpuRasEepromAppendTableOn .complete .complete exRing
      [exRecord, { exRecord with retiredPage := 6 }, { exRecord with retiredPage := 7 }]
    RingAppended exRing
        [exRecord, { exRecord with retiredPage := 6 }, { exRecord with retiredPage := 7 }] r.1 ∧
      RingState r.1.control := by
  have h := @record_ring exRing
    [exRecord, { exRecord with retiredPage := 6 }, { exRecord with retiredPage := 7 }]
    .complete .complete ⟨⟨by decide, by decide⟩, .inr rfl⟩ (by decide) (by decide)
  exact ⟨h.2.2.1 rfl, h.1⟩

end Amdkfd.Ras
