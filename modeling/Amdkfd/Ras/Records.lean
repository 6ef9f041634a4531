import Amdkfd.Ras.Eeprom

/-!
# The ring of records

Appending to the table and reading it, with the records of the EEPROM seen as the cells of a ring.
Whether the new records fit before the end of the ring, wrap, or overwrite the oldest ones is one
statement: the ring holds the last records that there is room for.
-/

namespace Amdkfd.Ras

open Lib List

/-! ## Records as bytes -/

@[simp] theorem length_encodeTableRecordToBuf (record : Record) :
    (encodeTableRecordToBuf record).length = rasTableRecordSize := by
  simp [encodeTableRecordToBuf, rasTableRecordSize]

theorem decode_encode (record : Record) :
    decodeTableRecordFromBuf (encodeTableRecordToBuf record) = record.stored := by
  have hlast : ∀ v, readAt (toBytes 6 v) 0 6 = v % 256 ^ 6 := fun v => by
    simpa using readAt_field 6 v []
  simp [decodeTableRecordFromBuf, encodeTableRecordToBuf, readAt_skip, hlast, Record.stored]

theorem decode_append {buf : List UInt8} (h : buf.length = rasTableRecordSize)
    (rest : List UInt8) :
    decodeTableRecordFromBuf (buf ++ rest) = decodeTableRecordFromBuf buf := by
  have hlen : buf.length = 24 := h
  simp only [decodeTableRecordFromBuf, readAt_append_left, hlen, Nat.reduceAdd, Nat.reduceLeDiff]

theorem decodeTableRecords_flatten {cells : List (List UInt8)}
    (h : ∀ c ∈ cells, c.length = rasTableRecordSize) :
    decodeTableRecords cells.flatten cells.length = cells.map decodeTableRecordFromBuf := by
  refine ext_getElem (by simp [decodeTableRecords]) fun i h1 h2 => ?_
  have hi : i < cells.length := by simpa using h2
  simp only [decodeTableRecords, getElem_map, getElem_range]
  rw [drop_flatten_cells h hi.le, drop_eq_getElem_cons hi, flatten_cons]
  exact decode_append (h _ (getElem_mem hi)) _

/-! ## The ring -/

def slots (t : Table) : Nat → List UInt8 :=
  cell rasTableRecordSize t.control.rasRecordOffset t.eeprom

def tableRecords (t : Table) : List Record :=
  (ringWindow t.control.rasMaxRecordCount (slots t) t.control.rasFri t.control.rasNumRecs).map
    decodeTableRecordFromBuf

/-- The first record is in the ring, and there are not more than there is room for. -/
structure InRing (c : Control) : Prop where
  fri_lt : c.rasFri < c.rasMaxRecordCount
  numRecs_le : c.rasNumRecs ≤ c.rasMaxRecordCount

/-- Nothing before `off` has changed. -/
def SameBelow (off : Nat) (e e' : Eeprom) : Prop :=
  ∀ addr n, addr + n ≤ off → readRun e' addr n = readRun e addr n

theorem SameBelow.refl (off : Nat) (e : Eeprom) : SameBelow off e e := fun _ _ _ => rfl

theorem SameBelow.write {off addr : Nat} {e e' : Eeprom} (h : SameBelow off e e')
    (ha : off ≤ addr) (buf : List UInt8) : SameBelow off e (amdgpuEepromWrite e' addr buf) := by
  intro addr' n hn
  rw [← h addr' n hn]
  exact readRun_write_of_disjoint (.inl (by omega))

section
variable {t : Table} {data : List (List UInt8)}

theorem writeAt_slots (h : ∀ c ∈ data, c.length = rasTableRecordSize) (a i : Nat) :
    slots (amdgpuRasEepromWriteAt t data.flatten a) i = ringWrite (slots t) a data i :=
  cell_write h

/-- The two writes of a run of records that wraps. -/
theorem writeAt_wrap_slots (h : ∀ c ∈ data, c.length = rasTableRecordSize) {n a i : Nat}
    (ha : a < n) (hwrap : n ≤ a + data.length) (hlen : data.length ≤ n) (hi : i < n) :
    slots (amdgpuRasEepromWriteAt
      (amdgpuRasEepromWriteAt t (data.flatten.take ((n - a) * rasTableRecordSize)) a)
      (data.flatten.drop ((n - a) * rasTableRecordSize)) 0) i =
      ringPut n (slots t) a data i := by
  have htake : ∀ c ∈ data.take (n - a), c.length = rasTableRecordSize :=
    fun c hc => h c (mem_of_mem_take hc)
  have hdrop : ∀ c ∈ data.drop (n - a), c.length = rasTableRecordSize :=
    fun c hc => h c (mem_of_mem_drop hc)
  rw [take_flatten_cells h (by omega), drop_flatten_cells h (by omega), writeAt_slots hdrop,
    ringPut_eq_wrap ha hwrap hlen hi]
  congr 1
  funext j
  exact writeAt_slots htake a j

end

/-! ## The places of the new records -/

section
variable {n fri num len b : Nat}

/-- The first record after `len` more: the same as before, or the one behind the last. -/
def nextFri (n fri num len : Nat) : Nat :=
  if num + len ≤ n then fri else (fri + num + len) % n

theorem nextFri_lt (hfri : fri < n) : nextFri n fri num len < n := by
  unfold nextFri
  split
  · exact hfri
  · exact Nat.mod_lt _ (by omega)

theorem count_eq (hfri : fri < n) (hpos : 0 < len) (hlen : len ≤ n)
    (hb : b % n = (fri + num + len - 1) % n) :
    1 + (n + b - nextFri n fri num len) % n = min (num + len) n := by
  have hn : 0 < n := by omega
  have hreduce : ∀ f < n, (n + b - f) % n = (b % n + n - f) % n := by
    intro f hf
    have hdiv := Nat.div_add_mod b n
    have hsplit : n + b - f = b % n + n - f + n * (b / n) := by omega
    rw [hsplit, Nat.add_mul_mod_self_left]
  unfold nextFri
  by_cases hover : num + len ≤ n
  · have hdist := slot_dist (q := n) (x := fri) (y := fri + num + len - 1) (by omega) (by omega)
    rw [if_pos hover, hreduce fri hfri, hb]
    rw [Nat.mod_eq_of_lt hfri] at hdist
    omega
  · have hdist := slot_dist (q := n) (x := fri + num + len) (y := fri + num + len - 1 + n)
      (by omega) (by omega)
    rw [Nat.add_mod_right] at hdist
    rw [if_neg hover, hreduce _ (Nat.mod_lt _ hn), hb]
    omega

/-- The index of the first record when the new ones wrap. -/
theorem fri_wrap (hfri : fri < n) (ha : fri + num < n) (hwrap : n ≤ fri + num + len - 1)
    (hlen : len ≤ n) :
    (if fri < (fri + num + len - 1) % n + 1 then ((fri + num + len - 1) % n + 1) % n else fri) =
      nextFri n fri num len := by
  have hmod : (fri + num + len - 1) % n = fri + num + len - 1 - n := by
    rw [Nat.mod_eq_sub_mod hwrap, Nat.mod_eq_of_lt (by omega)]
  unfold nextFri
  by_cases hover : num + len ≤ n
  · rw [if_pos hover, if_neg (by omega)]
  · rw [if_neg hover, if_pos (by omega), Nat.mod_add_mod, Nat.sub_add_cancel (by omega)]

theorem fri_next (hfri : fri < n) (hnum : num ≤ n) (ha : n ≤ fri + num) (hpos : 0 < len)
    (hlen : len ≤ n) (hle : (fri + num) % n ≤ (fri + num + len - 1) % n) :
    fri + num + len - 1 < 2 * n ∧
    (if fri ≤ (fri + num + len - 1) % n then ((fri + num + len - 1) % n + 1) % n else fri) =
      nextFri n fri num len := by
  have hmoda : (fri + num) % n = fri + num - n := by
    rw [Nat.mod_eq_sub_mod ha, Nat.mod_eq_of_lt (by omega)]
  have hmod : (fri + num + len - 1) % n = (fri + num + len - 1 - n) % n :=
    Nat.mod_eq_sub_mod (by omega)
  have hturn : fri + num + len - 1 < 2 * n := by
    by_contra hge
    have hmod2 : (fri + num + len - 1 - n) % n = fri + num + len - 1 - n - n := by
      rw [Nat.mod_eq_sub_mod (by omega), Nat.mod_eq_of_lt (by omega)]
    omega
  have hmod1 : (fri + num + len - 1 - n) % n = fri + num + len - 1 - n :=
    Nat.mod_eq_of_lt (by omega)
  refine ⟨hturn, ?_⟩
  unfold nextFri
  by_cases hover : num + len ≤ n
  · rw [if_pos hover, if_neg (by omega)]
  · rw [if_neg hover, if_pos (by omega), Nat.mod_add_mod, Nat.sub_add_cancel (by omega)]

theorem fri_over (hfri : fri < n) (hnum : num ≤ n) (ha : n ≤ fri + num) (hpos : 0 < len)
    (hlt : (fri + num + len - 1) % n < (fri + num) % n) :
    2 * n ≤ fri + num + len - 1 ∧
    ((fri + num + len - 1) % n + 1) % n = nextFri n fri num len := by
  have hmoda : (fri + num) % n = fri + num - n := by
    rw [Nat.mod_eq_sub_mod ha, Nat.mod_eq_of_lt (by omega)]
  have hturn : 2 * n ≤ fri + num + len - 1 := by
    by_contra hge
    rw [hmoda, Nat.mod_eq_sub_mod (by omega), Nat.mod_eq_of_lt (by omega)] at hlt
    omega
  refine ⟨hturn, ?_⟩
  unfold nextFri
  rw [if_neg (by omega), Nat.mod_add_mod, Nat.sub_add_cancel (by omega)]

end

/-! ## Appending -/

section
variable {t : Table} {data : List (List UInt8)}

structure Appended (t : Table) (data : List (List UInt8)) (r : Table × Nat × Nat) : Prop where
  control : r.1.control = t.control
  ring : ∀ i < t.control.rasMaxRecordCount, slots r.1 i =
    ringPut t.control.rasMaxRecordCount (slots t) (t.control.rasFri + t.control.rasNumRecs) data i
  below : SameBelow t.control.rasRecordOffset t.eeprom r.1.eeprom
  fri : r.2.1 =
    nextFri t.control.rasMaxRecordCount t.control.rasFri t.control.rasNumRecs data.length
  last : r.2.2 % t.control.rasMaxRecordCount =
    (t.control.rasFri + t.control.rasNumRecs + data.length - 1) % t.control.rasMaxRecordCount

theorem appendRing_spec (hring : InRing t.control)
    (h : ∀ c ∈ data, c.length = rasTableRecordSize) (hpos : 0 < data.length)
    (hlen : data.length ≤ t.control.rasMaxRecordCount) :
    Appended t data (appendRing t data.flatten (t.control.rasFri + t.control.rasNumRecs)
      (t.control.rasFri + t.control.rasNumRecs + data.length - 1)) := by
  obtain ⟨hfri, hnum⟩ := hring
  have hbelow := SameBelow.refl t.control.rasRecordOffset t.eeprom
  have hoff : ∀ k, t.control.rasRecordOffset ≤ rasIndexToOffset t.control k :=
    fun k => Nat.le_add_right ..
  have hn : 0 < t.control.rasMaxRecordCount := by omega
  unfold appendRing
  dsimp only
  by_cases hb : t.control.rasFri + t.control.rasNumRecs + data.length - 1 <
      t.control.rasMaxRecordCount
  · -- The new records fit before the end of the ring.
    rw [if_pos hb]
    refine ⟨rfl, fun i hi => ?_, hbelow.write (hoff _) _, ?_, rfl⟩
    · rw [writeAt_slots h, ringPut_eq_write (by omega) (by omega) hi]
    · rw [nextFri, if_pos (by omega)]
  · rw [if_neg hb]
    by_cases ha : t.control.rasFri + t.control.rasNumRecs < t.control.rasMaxRecordCount
    · rw [if_pos ha]
      exact ⟨rfl, fun i hi => writeAt_wrap_slots h ha (by omega) hlen hi,
        (hbelow.write (hoff _) _).write (hoff _) _, fri_wrap hfri ha (by omega) hlen, rfl⟩
    · rw [if_neg ha]
      have hmoda := Nat.mod_lt (t.control.rasFri + t.control.rasNumRecs) hn
      have hmod : (t.control.rasFri + t.control.rasNumRecs) % t.control.rasMaxRecordCount =
          t.control.rasFri + t.control.rasNumRecs - t.control.rasMaxRecordCount := by
        rw [Nat.mod_eq_sub_mod (by omega), Nat.mod_eq_of_lt (by omega)]
      by_cases hle : (t.control.rasFri + t.control.rasNumRecs) % t.control.rasMaxRecordCount ≤
          (t.control.rasFri + t.control.rasNumRecs + data.length - 1) % t.control.rasMaxRecordCount
      · rw [if_pos hle]
        obtain ⟨hturn, hnext⟩ := fri_next hfri hnum (by omega) hpos hlen hle
        refine ⟨rfl, fun i hi => ?_, hbelow.write (hoff _) _, hnext, Nat.mod_mod ..⟩
        rw [writeAt_slots h, ← ringPut_mod, ringPut_eq_write hmoda (by omega) hi]
      · rw [if_neg hle]
        obtain ⟨hturn, hnext⟩ := fri_over hfri hnum (by omega) hpos (by omega)
        refine ⟨rfl, fun i hi => ?_, (hbelow.write (hoff _) _).write (hoff _) _, hnext,
          Nat.mod_mod ..⟩
        rw [writeAt_wrap_slots h hmoda (by omega) hlen hi, ringPut_mod]

theorem noteChannel_eq (c : Control) (record : Record) :
    noteChannel c record =
      { c with
        badChannelBitmap := (noteChannel c record).badChannelBitmap
        updateChannelFlag := (noteChannel c record).updateChannelFlag } := by
  unfold noteChannel
  split <;> rfl

theorem foldl_noteChannel_eq (c : Control) (record : List Record) :
    record.foldl noteChannel c =
      { c with
        badChannelBitmap := (record.foldl noteChannel c).badChannelBitmap
        updateChannelFlag := (record.foldl noteChannel c).updateChannelFlag } := by
  induction record generalizing c with
  | nil => rfl
  | cons r rs ih =>
    rw [foldl_cons, ih, noteChannel_eq c r]

structure TableAppended (t : Table) (record : List Record) (t' : Table) : Prop where
  tblHdr : t'.control.tblHdr = t.control.tblHdr
  rasRecordOffset : t'.control.rasRecordOffset = t.control.rasRecordOffset
  rasMaxRecordCount : t'.control.rasMaxRecordCount = t.control.rasMaxRecordCount
  rasNumRecs : t'.control.rasNumRecs =
    min (t.control.rasNumRecs + record.length) t.control.rasMaxRecordCount
  rasFri : t'.control.rasFri =
    nextFri t.control.rasMaxRecordCount t.control.rasFri t.control.rasNumRecs record.length
  records : tableRecords t' = (tableRecords t ++ record.map Record.stored).drop
    (t.control.rasNumRecs + record.length - t.control.rasMaxRecordCount)
  below : SameBelow t.control.rasRecordOffset t.eeprom t'.eeprom

theorem window_append {n fri num : Nat} {ring ring' : Nat → List UInt8} (hfri : fri < n)
    (hnum : num ≤ n) (hlen : data.length ≤ n)
    (hput : ∀ i < n, ring' i = ringPut n ring (fri + num) data i) :
    ringWindow n ring' (nextFri n fri num data.length) (min (num + data.length) n) =
      (ringWindow n ring fri num ++ data).drop (num + data.length - n) := by
  rw [ringWindow_congr (by omega) hput]
  unfold nextFri
  by_cases hfits : num + data.length ≤ n
  · have hwindow := @ringWindow_put _ n ring fri num 0 data hnum (Nat.zero_le _) hlen (by omega)
    rw [if_pos hfits, Nat.min_eq_left hfits, Nat.sub_eq_zero_of_le hfits]
    simpa using hwindow
  · have hwindow := @ringWindow_put _ n ring fri num (num + data.length - n) data hnum (by omega)
      hlen (by omega)
    have hplace : fri + num + data.length = fri + (num + data.length - n) + n := by omega
    have hcount : num - (num + data.length - n) + data.length = n := by omega
    rw [hcount] at hwindow
    rw [if_neg hfits, Nat.min_eq_right (by omega), ringWindow_mod, hplace, ← ringWindow_mod,
      Nat.add_mod_right, ringWindow_mod]
    exact hwindow

theorem appendRing_records (hring : InRing t.control) {record : List Record}
    (hpos : 0 < record.length) (hlen : record.length ≤ t.control.rasMaxRecordCount) :
    let a := t.control.rasFri + t.control.rasNumRecs
    let r := appendRing t (record.flatMap encodeTableRecordToBuf) a (a + record.length - 1)
    let n := t.control.rasMaxRecordCount
    TableAppended t record
      { r.1 with
        control := { r.1.control with
          rasFri := r.2.1
          rasNumRecs := 1 + (n + r.2.2 - r.2.1) % n } } := by
  have hcells : ∀ c ∈ record.map encodeTableRecordToBuf, c.length = rasTableRecordSize := by
    intro c hc
    obtain ⟨r, -, rfl⟩ := mem_map.mp hc
    exact length_encodeTableRecordToBuf r
  have happ := appendRing_spec hring hcells (by simpa using hpos) (by simpa using hlen)
  rw [length_map] at happ
  obtain ⟨hfri, hnum⟩ := hring
  rw [← flatMap_def] at happ
  dsimp only
  generalize appendRing t (record.flatMap encodeTableRecordToBuf) _ _ = r at happ
  obtain ⟨t', fri, b⟩ := r
  obtain ⟨hcontrol, hput, hbelow, hnext, hlast⟩ := happ
  rw [length_map] at hnext hlast
  dsimp only at hcontrol hput hbelow hnext hlast ⊢
  have hcount := count_eq hfri hpos hlen hlast
  rw [← hnext] at hcount
  rw [hcount, hcontrol]
  refine ⟨rfl, rfl, rfl, rfl, hnext, ?_, hbelow⟩
  have hslots : slots { t' with control := { t.control with
      rasFri := fri, rasNumRecs := min (t.control.rasNumRecs + record.length)
        t.control.rasMaxRecordCount } } = slots t' := by
    unfold slots
    rw [hcontrol]
  have hwindow := window_append hfri hnum (by simpa using hlen) hput
  unfold tableRecords
  rw [hslots]
  simp only [length_map] at hwindow
  dsimp only
  rw [hnext, hwindow, map_drop, map_append, map_map]
  simp only [Function.comp_def, decode_encode]

theorem append_spec (hring : InRing t.control) {record : List Record} (hpos : 0 < record.length)
    (hlen : record.length ≤ t.control.rasMaxRecordCount) :
    TableAppended t record (amdgpuRasEepromAppendTable t record) := by
  unfold amdgpuRasEepromAppendTable
  rw [foldl_noteChannel_eq]
  generalize (record.foldl noteChannel t.control).badChannelBitmap = channels
  generalize (record.foldl noteChannel t.control).updateChannelFlag = flag
  have happ := appendRing_records (t := { t with control :=
    { t.control with badChannelBitmap := channels, updateChannelFlag := flag } })
    ⟨hring.fri_lt, hring.numRecs_le⟩ hpos hlen
  exact ⟨happ.tblHdr, happ.rasRecordOffset, happ.rasMaxRecordCount, happ.rasNumRecs, happ.rasFri,
    happ.records, happ.below⟩

/-! ## Reading -/

theorem readAt_slots (a n : Nat) :
    amdgpuRasEepromReadAt t a n = ((range n).map fun i => slots t (a + i)).flatten :=
  read_cells _ a n _

theorem readAt_window {n fri num : Nat} (hfri : fri < n) (hnum : num ≤ n) (hpos : 0 < num) :
    (amdgpuRasEepromReadAt t fri (if fri + num - 1 < n then num else n - fri) ++
      if (if fri + num - 1 < n then 0 else (fri + num - 1) % n + 1) ≠ 0 then
        amdgpuRasEepromReadAt t 0 (if fri + num - 1 < n then 0 else (fri + num - 1) % n + 1)
      else []) =
    (ringWindow n (slots t) fri num).flatten := by
  by_cases hlast : fri + num - 1 < n
  · simp only [hlast, if_true, ne_eq, not_true_eq_false, if_false, append_nil]
    rw [readAt_slots, ringWindow_eq_run (by omega)]
  · have hmod : (fri + num - 1) % n + 1 = fri + num - n := by
      rw [Nat.mod_eq_sub_mod (by omega), Nat.mod_eq_of_lt (by omega)]
      omega
    simp only [hlast, if_false]
    rw [hmod, if_pos (by omega), readAt_slots, readAt_slots,
      ringWindow_eq_wrap hfri.le hnum (by omega), flatten_append]
    simp

theorem read_first (hring : InRing t.control) {num : Nat} (hpos : 0 < num)
    (hnum : num ≤ t.control.rasNumRecs) :
    (amdgpuRasEepromRead t num).2 = .ok ((tableRecords t).take num) := by
  obtain ⟨hfri, hcount⟩ := hring
  have hlen := @ringWindow_length _ t.control.rasMaxRecordCount (slots t) t.control.rasFri num
  have hdecode := @decodeTableRecords_flatten (ringWindow t.control.rasMaxRecordCount
    (slots t) t.control.rasFri num) fun c hc => by
      obtain ⟨i, -, rfl⟩ := mem_map.mp hc
      exact length_cell ..
  rw [hlen] at hdecode
  unfold amdgpuRasEepromRead tableRecords
  dsimp only
  rw [if_neg (by omega), if_neg (by omega), readAt_window hfri (by omega) hpos, hdecode,
    ← map_take, ringWindow_take _ hnum]

theorem read_spec (hring : InRing t.control) (hpos : 0 < t.control.rasNumRecs) :
    (amdgpuRasEepromRead t t.control.rasNumRecs).2 = .ok (tableRecords t) := by
  rw [read_first hring hpos (Nat.le_refl _), take_of_length_le]
  simp [tableRecords]

end

end Amdkfd.Ras
