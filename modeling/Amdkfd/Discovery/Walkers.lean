import Mathlib.Algebra.Order.Group.Nat
import Mathlib.Data.List.Nodup

/-!
# The walkers of the IP table

`amdgpu_discovery_reg_base_init` stores the base addresses of each entry in place, as words.
`amdgpu_discovery_sysfs_ips` walks the same table after that, once for each hardware id, and reads
64-bit addresses where there are words.
-/

namespace Amdkfd.Discovery

open Function List

/-! ## The table -/

/-- The table of a die: the words behind the header of the die. -/
abbrev Bin := Nat → UInt32

structure Ip where
  hwId : Nat
  instanceNumber : Nat
  numBaseAddress : Nat

/-- `struct ip_v4` begins with a header of `size` words. The base addresses are behind it, and
`base_address` and `base_address_64` are in one place. -/
structure Layout where
  size : Nat
  decode : (Fin size → UInt32) → Ip

def hwIdMax : Nat := 300

def hwipMaxInstance : Nat := 44

def validateIp (ip : Ip) : Bool := ip.instanceNumber < hwipMaxInstance && ip.hwId < hwIdMax

section
variable (L : Layout) (base64 : Bool)

def Layout.ip (bin : Bin) (off : Nat) : Ip := L.decode fun i => bin (off + i)

/-- `struct_size` of an entry leads to the next one. -/
def nextIp (bin : Bin) (off : Nat) : Nat :=
  off + L.size + (if base64 then 2 else 1) * (L.ip bin off).numBaseAddress

def baseAddress (bin : Bin) (off k : Nat) : UInt32 := bin (off + L.size + k)

/-- What both walkers make of an address of 64 bits, whose lower half comes first. -/
def baseAddress64 (bin : Bin) (off k : Nat) : UInt32 := bin (off + L.size + 2 * k) &&& 0x3FFFFFFF

/-! ## `amdgpu_discovery_reg_base_init` -/

/-- The first addresses of an entry are stored as words. -/
def storeBases (off : Nat) (bin : Bin) : Nat → Bin
  | 0 => bin
  | k + 1 =>
    let bin := storeBases off bin k
    if base64 then update bin (off + L.size + k) (baseAddress64 L bin off k) else bin

def regBaseIp (bin : Bin) (off : Nat) : Bin :=
  if validateIp (L.ip bin off) then
    storeBases L base64 off bin (L.ip bin off).numBaseAddress
  else bin

def regBaseIps : Nat → Nat → Bin → Bin
  | 0, _, bin => bin
  | n + 1, off, bin =>
    let bin := regBaseIp L base64 bin off
    regBaseIps n (nextIp L base64 bin off) bin

structure Die where
  dieId : Nat
  numIps : Nat
  bin : Bin

def regBaseDie (die : Die) : Die :=
  { die with bin := regBaseIps L base64 die.numIps 0 die.bin }

/-- A die that is not under its id is an error. -/
def regBaseInit : Nat → List Die → Option (List Die)
  | _, [] => some []
  | i, die :: dies =>
    if die.dieId = i then (regBaseInit (i + 1) dies).map (regBaseDie L base64 die :: ·) else none

/-! ## `amdgpu_discovery_sysfs_ips` -/

structure HwInstance where
  hwId : Nat
  numInstance : Nat
  baseAddr : List UInt32
  deriving DecidableEq

/-- An instance whose name is taken is not added, and the caller does not look at the error. -/
def kobjectAdd (kset : List HwInstance) (x : HwInstance) : List HwInstance :=
  if x.numInstance ∈ kset.map HwInstance.numInstance then kset else kset ++ [x]

def hwInstance (bin : Bin) (off : Nat) : HwInstance :=
  let ip := L.ip bin off
  { hwId := ip.hwId
    numInstance := ip.instanceNumber
    baseAddr := (range ip.numBaseAddress).map fun kk =>
      if base64 then baseAddress64 L bin off kk else baseAddress L bin off kk }

def matchIp (bin : Bin) (ii off : Nat) : Bool :=
  validateIp (L.ip bin off) && (L.ip bin off).hwId == ii

def sysfsHwId (bin : Bin) (ii : Nat) : Nat → Nat → List HwInstance → List HwInstance
  | 0, _, kset => kset
  | n + 1, off, kset =>
    sysfsHwId bin ii n (nextIp L base64 bin off)
      (if matchIp L bin ii off then kobjectAdd kset (hwInstance L base64 bin off) else kset)

/-- The instances under a hardware id. -/
def sysfsIps (die : Die) (ii : Nat) : List HwInstance :=
  sysfsHwId L base64 die.bin ii die.numIps 0 []

/-! ## What is registered -/

def ipOffsets (bin : Bin) : Nat → Nat → List Nat
  | 0, _ => []
  | n + 1, off => off :: ipOffsets bin n (nextIp L base64 bin off)

/-- The valid entries of a hardware id. -/
def Die.validIps (die : Die) (ii : Nat) : List Nat :=
  (ipOffsets L base64 die.bin die.numIps 0).filter (matchIp L die.bin ii)

/-- The entry with the addresses to which `reg_offset` points. -/
def published (bin : Bin) (off : Nat) : HwInstance :=
  let ip := L.ip bin off
  { hwId := ip.hwId
    numInstance := ip.instanceNumber
    baseAddr := (range ip.numBaseAddress).map (baseAddress L bin off) }

/-- Each valid entry of `die` is registered once, under its id and as `die'` has it. -/
def Agree (die die' : Die) : Prop :=
  ∀ ii < hwIdMax, sysfsIps L base64 die' ii = (die.validIps L base64 ii).map (published L die'.bin)

/-- The names of the instances differ, and the words that the second walker takes for an address
are the address. -/
def Readable (die : Die) : Prop :=
  ∀ ii < hwIdMax,
    ((die.validIps L base64 ii).map fun off => (L.ip die.bin off).instanceNumber).Nodup ∧
      ∀ off ∈ die.validIps L base64 ii, base64 → ∀ kk,
        2 * kk < (L.ip die.bin off).numBaseAddress →
          baseAddress64 L die.bin off (2 * kk) = baseAddress64 L die.bin off kk

end

/-! ## The first walker -/

section
variable {L : Layout} {base64 : Bool} {bin bin' : Bin} {off a n : Nat}

theorem storeBases_apply (k : Nat) :
    storeBases L base64 off bin k a =
      if base64 ∧ off + L.size ≤ a ∧ a < off + L.size + k then
        baseAddress64 L bin off (a - (off + L.size))
      else bin a := by
  induction k generalizing a with
  | zero => exact (if_neg (by omega)).symm
  | succ k ih =>
    unfold storeBases
    cases base64 with
    | false => simpa using ih
    | true =>
      have hread : baseAddress64 L (storeBases L true off bin k) off k =
          baseAddress64 L bin off k := by
        unfold baseAddress64
        rw [ih, if_neg (by omega)]
      simp only [if_true, hread, update_apply, ih, true_and]
      split
      · next h => rw [if_pos (by omega), h, Nat.add_sub_cancel_left]
      · next h => exact if_congr (by omega) rfl rfl

/-- Only the addresses of a valid entry change. -/
theorem regBaseIp_apply :
    regBaseIp L base64 bin off a =
      if validateIp (L.ip bin off) ∧ base64 ∧ off + L.size ≤ a ∧
          a < off + L.size + (L.ip bin off).numBaseAddress then
        baseAddress64 L bin off (a - (off + L.size))
      else bin a := by
  unfold regBaseIp
  by_cases hvalid : validateIp (L.ip bin off)
  · rw [if_pos hvalid, storeBases_apply]
    simp only [hvalid, true_and]
  · rw [if_neg hvalid, if_neg fun h => hvalid h.1]

theorem ip_congr (h : ∀ i < L.size, bin (off + i) = bin' (off + i)) :
    L.ip bin off = L.ip bin' off :=
  congrArg L.decode (funext fun i => h i i.isLt)

theorem nextIp_congr (h : L.ip bin off = L.ip bin' off) :
    nextIp L base64 bin off = nextIp L base64 bin' off := by
  unfold nextIp
  rw [h]

theorem regBaseIp_ip : L.ip (regBaseIp L base64 bin off) off = L.ip bin off :=
  ip_congr fun i hi => by rw [regBaseIp_apply, if_neg (by omega)]

theorem regBaseIp_of_ge (h : nextIp L base64 bin off ≤ a) :
    regBaseIp L base64 bin off a = bin a := by
  rw [regBaseIp_apply, if_neg]
  rintro ⟨-, hb, -, hlt⟩
  unfold nextIp at h
  rw [if_pos hb] at h
  omega

theorem le_nextIp : off + L.size ≤ nextIp L base64 bin off := Nat.le_add_right _ _

theorem le_of_mem_ipOffsets {o : Nat} (h : o ∈ ipOffsets L base64 bin n off) : off ≤ o := by
  induction n generalizing off with
  | zero => cases h
  | succ n ih =>
    rcases mem_cons.mp h with rfl | h
    · exact le_refl _
    · exact (Nat.le_add_right off L.size).trans (le_nextIp.trans (ih h))

theorem ipOffsets_congr (h : ∀ a, off ≤ a → bin a = bin' a) :
    ipOffsets L base64 bin n off = ipOffsets L base64 bin' n off := by
  induction n generalizing off with
  | zero => rfl
  | succ n ih =>
    have hip : L.ip bin off = L.ip bin' off := ip_congr fun i _ => h _ (Nat.le_add_right off i)
    unfold ipOffsets
    rw [← nextIp_congr hip,
      ih fun a ha => h a ((Nat.le_add_right off L.size).trans (le_nextIp.trans ha))]

theorem regBaseIps_of_lt (h : a < off) : regBaseIps L base64 n off bin a = bin a := by
  induction n generalizing off bin with
  | zero => rfl
  | succ n ih =>
    unfold regBaseIps
    dsimp only
    rw [ih ((Nat.lt_add_right L.size h).trans_le le_nextIp), regBaseIp_apply, if_neg (by omega)]

/-- The entries stay where they are, and each is changed as it is found. -/
theorem regBaseIps_spec (n off : Nat) (bin : Bin) :
    ipOffsets L base64 (regBaseIps L base64 n off bin) n off = ipOffsets L base64 bin n off ∧
      ∀ o ∈ ipOffsets L base64 bin n off, ∀ a, o ≤ a → a < nextIp L base64 bin o →
        regBaseIps L base64 n off bin a = regBaseIp L base64 bin o a := by
  induction n generalizing off bin with
  | zero => exact ⟨rfl, fun o ho => absurd ho not_mem_nil⟩
  | succ n ih =>
    have hnext : nextIp L base64 (regBaseIp L base64 bin off) off = nextIp L base64 bin off :=
      nextIp_congr regBaseIp_ip
    have hrest : ∀ a, nextIp L base64 bin off ≤ a → regBaseIp L base64 bin off a = bin a :=
      fun a ha => regBaseIp_of_ge ha
    have hout (a : Nat) (ha : a < nextIp L base64 bin off) :
        regBaseIps L base64 (n + 1) off bin a = regBaseIp L base64 bin off a :=
      regBaseIps_of_lt (ha.trans_eq hnext.symm)
    obtain ⟨hoffsets, hentries⟩ := ih (nextIp L base64 bin off) (regBaseIp L base64 bin off)
    rw [ipOffsets_congr hrest] at hoffsets hentries
    have hout' : regBaseIps L base64 (n + 1) off bin =
        regBaseIps L base64 n (nextIp L base64 bin off) (regBaseIp L base64 bin off) := by
      rw [← hnext]
      rfl
    have hip : L.ip (regBaseIps L base64 (n + 1) off bin) off = L.ip bin off :=
      (ip_congr fun i hi => hout _ ((Nat.add_lt_add_left hi off).trans_le le_nextIp)).trans
        regBaseIp_ip
    refine ⟨?_, fun o ho a hle hlt => ?_⟩
    · unfold ipOffsets
      rw [nextIp_congr hip, hout', hoffsets]
    · rcases mem_cons.mp ho with rfl | ho
      · exact hout a hlt
      · have hge := le_of_mem_ipOffsets ho
        have hsame : ∀ a, o ≤ a → regBaseIp L base64 bin off a = bin a :=
          fun a ha => hrest a (hge.trans ha)
        have hip : L.ip (regBaseIp L base64 bin off) o = L.ip bin o :=
          ip_congr fun i _ => hsame _ (Nat.le_add_right o i)
        rw [hout', hentries o ho a hle (by rwa [nextIp_congr hip]), regBaseIp_apply, hip,
          hsame a hle, regBaseIp_apply]
        refine if_congr Iff.rfl ?_ rfl
        unfold baseAddress64
        rw [hsame _ (by omega)]

end

/-! ## The second walker -/

section
variable {L : Layout} {base64 : Bool}

theorem sysfsHwId_eq (bin : Bin) (ii n off : Nat) (kset : List HwInstance) :
    sysfsHwId L base64 bin ii n off kset =
      (((ipOffsets L base64 bin n off).filter (matchIp L bin ii)).map
        (hwInstance L base64 bin)).foldl kobjectAdd kset := by
  induction n generalizing off kset with
  | zero => rfl
  | succ n ih =>
    unfold sysfsHwId ipOffsets
    rw [ih, filter_cons]
    split <;> rfl

theorem foldl_kobjectAdd {k xs : List HwInstance}
    (h : ((k ++ xs).map HwInstance.numInstance).Nodup) :
    xs.foldl kobjectAdd k = k ++ xs := by
  induction xs generalizing k with
  | nil => exact (append_nil k).symm
  | cons x xs ih =>
    have hnew : x.numInstance ∉ k.map HwInstance.numInstance := by
      rw [map_append, map_cons, nodup_middle, nodup_cons] at h
      exact fun hmem => h.1 (mem_append_left _ hmem)
    rw [foldl_cons, kobjectAdd, if_neg hnew, ih (by rwa [append_assoc]),
      append_assoc]
    rfl

theorem foldl_kobjectAdd_nodup {k : List HwInstance} (xs : List HwInstance)
    (h : (k.map HwInstance.numInstance).Nodup) :
    ((xs.foldl kobjectAdd k).map HwInstance.numInstance).Nodup := by
  induction xs generalizing k with
  | nil => exact h
  | cons x xs ih =>
    refine ih ?_
    unfold kobjectAdd
    split
    · exact h
    · next hnew =>
      rw [map_append]
      exact h.append (nodup_singleton _) (disjoint_singleton.mpr hnew)

theorem mem_foldl_kobjectAdd {k xs : List HwInstance} {n : Nat} :
    n ∈ (xs.foldl kobjectAdd k).map HwInstance.numInstance ↔
      n ∈ (k ++ xs).map HwInstance.numInstance := by
  induction xs generalizing k with
  | nil => rw [append_nil, foldl_nil]
  | cons x xs ih =>
    rw [foldl_cons, ih, kobjectAdd]
    split <;> grind

/-- Whatever is in the table, each number of a valid entry is registered once. -/
theorem sysfsIps_names (die : Die) (ii : Nat) :
    let names := (sysfsIps L base64 die ii).map HwInstance.numInstance
    names.Nodup ∧ ∀ n, n ∈ names ↔
      ∃ off ∈ die.validIps L base64 ii, (L.ip die.bin off).instanceNumber = n := by
  rw [sysfsIps, sysfsHwId_eq]
  refine ⟨foldl_kobjectAdd_nodup _ nodup_nil, fun n => ?_⟩
  rw [mem_foldl_kobjectAdd, nil_append, map_map]
  exact mem_map

/-- The instances come out as wanted when no two have one name and each is as wanted. -/
theorem foldl_kobjectAdd_iff {xs ys : List HwInstance}
    (hnames : xs.map HwInstance.numInstance = ys.map HwInstance.numInstance) :
    xs.foldl kobjectAdd [] = ys ↔ (ys.map HwInstance.numInstance).Nodup ∧ xs = ys := by
  constructor
  · intro h
    have hnodup := foldl_kobjectAdd_nodup (k := []) xs nodup_nil
    rw [h] at hnodup
    exact ⟨hnodup, (foldl_kobjectAdd (k := []) (by rwa [nil_append, hnames])).symm.trans h⟩
  · rintro ⟨hnodup, rfl⟩
    exact foldl_kobjectAdd (k := []) hnodup

/-- Both walkers read one address in an entry when the word at twice its place is the word at its
place. Behind the words that are stored, the addresses are as they were. -/
theorem hwInstance_eq_iff {bin out : Bin} {off : Nat} (hvalid : validateIp (L.ip bin off))
    (hout : ∀ a, off ≤ a → a < nextIp L base64 bin off → out a = regBaseIp L base64 bin off a) :
    hwInstance L base64 out off = published L out off ↔ (base64 →
      ∀ kk, 2 * kk < (L.ip bin off).numBaseAddress →
        baseAddress64 L bin off (2 * kk) = baseAddress64 L bin off kk) := by
  have hip : L.ip out off = L.ip bin off :=
    (ip_congr fun i hi => hout _ (Nat.le_add_right off i)
      ((Nat.add_lt_add_left hi off).trans_le le_nextIp)).trans regBaseIp_ip
  unfold hwInstance published
  simp only [HwInstance.mk.injEq, true_and, map_inj_left, mem_range, hip]
  cases base64 with
  | false => simp
  | true =>
    have hword (k : Nat) (hk : k < 2 * (L.ip bin off).numBaseAddress) :
        out (off + L.size + k) = if k < (L.ip bin off).numBaseAddress then
          baseAddress64 L bin off k else bin (off + L.size + k) := by
      rw [hout _ (by omega) (by unfold nextIp; simp; omega), regBaseIp_apply,
        Nat.add_sub_cancel_left]
      exact if_congr (by simp [hvalid]) rfl rfl
    have hread (kk : Nat) (hkk : kk < (L.ip bin off).numBaseAddress) :
        baseAddress64 L out off kk = if 2 * kk < (L.ip bin off).numBaseAddress then
          baseAddress64 L bin off (2 * kk) else baseAddress64 L bin off kk := by
      rw [baseAddress64, hword (2 * kk) (by omega)]
      split
      · rw [baseAddress64, UInt32.and_assoc, UInt32.and_self]
      · rfl
    have hstored (kk : Nat) (hkk : kk < (L.ip bin off).numBaseAddress) :
        baseAddress L out off kk = baseAddress64 L bin off kk := by
      rw [baseAddress, hword kk (by omega), if_pos hkk]
    simp only [if_true, true_implies]
    constructor
    · intro h kk hkk
      have := h kk (by omega)
      rwa [hread kk (by omega), hstored kk (by omega), if_pos hkk] at this
    · intro h kk hkk
      rw [hread kk hkk, hstored kk hkk]
      split
      · next hlt => exact h kk hlt
      · rfl

theorem agree_iff (die : Die) :
    Agree L base64 die (regBaseDie L base64 die) ↔ Readable L base64 die := by
  obtain ⟨hoffsets, hentries⟩ : ipOffsets L base64 (regBaseDie L base64 die).bin
      (regBaseDie L base64 die).numIps 0 = _ ∧ _ := regBaseIps_spec die.numIps 0 die.bin
  have hip : ∀ off ∈ ipOffsets L base64 die.bin die.numIps 0,
      L.ip (regBaseDie L base64 die).bin off = L.ip die.bin off := fun off hoff =>
    (ip_congr fun i hi => hentries off hoff _ (Nat.le_add_right off i)
      ((Nat.add_lt_add_left hi off).trans_le le_nextIp)).trans
      regBaseIp_ip
  refine forall₂_congr fun ii _ => ?_
  have hlist : sysfsIps L base64 (regBaseDie L base64 die) ii = ((die.validIps L base64 ii).map
      (hwInstance L base64 (regBaseDie L base64 die).bin)).foldl kobjectAdd [] := by
    unfold sysfsIps Die.validIps
    rw [sysfsHwId_eq, hoffsets, filter_congr fun off hoff => ?_]
    unfold matchIp
    rw [hip off hoff]
  rw [hlist, foldl_kobjectAdd_iff (by simp only [map_map]; rfl), map_inj_left,
    map_map]
  refine and_congr ?_ ?_
  · rw [map_congr_left fun off hoff => ?_]
    exact congrArg Ip.instanceNumber (hip off (mem_filter.mp hoff).1)
  · refine forall₂_congr fun off hoff => ?_
    obtain ⟨hmem, hmatch⟩ := mem_filter.mp hoff
    exact hwInstance_eq_iff (Bool.and_eq_true_iff.mp hmatch).1 (hentries off hmem)

theorem regBaseInit_eq {i : Nat} {dies dies' : List Die}
    (h : regBaseInit L base64 i dies = some dies') : dies' = dies.map (regBaseDie L base64) := by
  induction dies generalizing i dies' with
  | nil => exact (Option.some.inj h).symm
  | cons die dies ih =>
    unfold regBaseInit at h
    split at h
    · obtain ⟨rest, hrest, rfl⟩ := Option.map_eq_some_iff.mp h
      rw [ih hrest, map_cons]
    · cases h

end

/-- The walkers agree exactly on the tables that are readable when they are stored. -/
theorem walkers_agree_iff (L : Layout) (base64 : Bool) {dies dies' : List Die}
    (h : regBaseInit L base64 0 dies = some dies') :
    Forall₂ (Agree L base64) dies dies' ↔ ∀ die ∈ dies, Readable L base64 die := by
  rw [regBaseInit_eq h, forall₂_map_right_iff, forall₂_same]
  exact forall₂_congr fun die _ => agree_iff die

/-! ## Three addresses of 64 bits -/

def exLayout : Layout where
  size := 2
  decode hdr := ⟨(hdr 0).toNat % 2 ^ 16, (hdr 0).toNat / 2 ^ 16 % 2 ^ 8, (hdr 0).toNat / 2 ^ 24⟩

/-- One entry, with the addresses 1, 2 and 3. -/
def exDie : Die :=
  { dieId := 0
    numIps := 1
    bin := fun a => [0x03000001, 0, 1, 0, 2, 0, 3, 0].getD a 0 }

theorem walkers_agree_exDie :
    Forall₂ (Agree exLayout true) [exDie] [regBaseDie exLayout true exDie] ↔
      ∀ die ∈ [exDie], Readable exLayout true die :=
  walkers_agree_iff exLayout true rfl

/-- The second walker finds the addresses 1, 3 and 3. -/
theorem walkers_disagree :
    regBaseInit exLayout true 0 [exDie] = some [regBaseDie exLayout true exDie] ∧
      ¬Forall₂ (Agree exLayout true) [exDie] [regBaseDie exLayout true exDie] := by
  refine ⟨rfl, fun h => ?_⟩
  have hlist := (forall₂_cons.mp h).1 1 (by decide)
  revert hlist
  decide

end Amdkfd.Discovery
