import Amdkfd.Lib.Bitmap
import Amdkfd.Lib.FirstError

/-!
# Masks of compute units

`mqd_symmetrically_map_cu_mask` spreads the bits of a user's mask over the compute units of the
shader engines: CU by CU, array by array, engine by engine, and in turn over the XCC instances of
the node. Both arrays that it indexes are lists, and an index outside of them is an outcome of its
own. From GC 10.0 on two CUs are a WGP and go together.
-/

namespace Amdkfd.CuMask

open Lib List

/-! ## Model -/

def maxNumSe : Nat := 8
def maxNumShPerSe : Nat := 2

def ipVersion (mj mn rv : Nat) : Nat := mj * 2 ^ 24 + mn * 2 ^ 16 + rv * 2 ^ 8

/-- What is read of the node: `KFD_GC_VERSION`, `gfx.config`, `gfx.cu_info`, `num_nodes`, and of
`xcc_mask` the number of bits and the first one. -/
structure Config where
  gcVersion : Nat
  maxShaderEngines : Nat
  maxShPerSe : Nat
  /-- By XCC, and then four by four. -/
  bitmap : Nat → Nat → Nat → BitVec 32
  number : Nat
  numNodes : Nat
  numXcc : Nat
  firstXcc : Nat

section Model
variable (cfg : Config) (inst : Nat)

def Config.wgpMode : Bool := ipVersion 10 0 0 ≤ cfg.gcVersion

def Config.enMask : BitVec 32 := if cfg.wgpMode then 0x3 else 0x1

def Config.cuInc : Nat := if cfg.wgpMode then 2 else 1

def Config.inc : Nat := cfg.cuInc * cfg.numXcc

/-- `cu_bitmap_sh_mul`. -/
def Config.shMul : Nat :=
  if ipVersion 11 0 0 ≤ cfg.gcVersion ∧ cfg.gcVersion < ipVersion 12 0 0 then 2 else 1

def Config.activePerNode : Nat := cfg.number / cfg.numNodes

def hweight32 (word : BitVec 32) : Nat := (range 32).countP word.getLsbD

/-- `cu_per_sh[se][sh]` of an instance. -/
def Config.cuPerSh (se sh : Nat) : Nat :=
  hweight32 (cfg.bitmap (inst + cfg.firstXcc) (se % 4) (sh + se / 4 * cfg.shMul))

/-- A place in the masks: bit `cu` of the half `sh` of `se_mask[se]`. -/
structure CuPos where
  cu : Nat
  sh : Nat
  se : Nat
  deriving DecidableEq

structure MapState where
  i : Nat
  seMask : List (BitVec 32)

/-- Ways to leave the loops. -/
inductive Exit
  | returned
  | outOfBounds
  deriving DecidableEq

/-- A write to `se_mask[se]`. -/
def setSe (se : Nat) (f : BitVec 32 → BitVec 32) (s : MapState) : MapState × Option Exit :=
  match s.seMask[se]? with
  | none => (s, some .outOfBounds)
  | some word => ({ s with seMask := s.seMask.set se (f word) }, none)

/-- The body of the innermost loop. -/
def mapUnit (cuMask : List (BitVec 32)) (cuMaskCount : Nat) (u : CuPos) (s : MapState) :
    MapState × Option Exit :=
  if u.cu < cfg.cuPerSh inst u.se u.sh then
    match cuMask[s.i / 32]? with
    | none => (s, some .outOfBounds)
    | some word =>
      let r :=
        if word &&& (cfg.enMask <<< (s.i % 32)) ≠ 0 then
          setSe u.se (· ||| (cfg.enMask <<< (u.cu + u.sh * 16))) s
        else (s, none)
      andThen r fun s =>
        let i := s.i + cfg.inc
        ({ s with i := i }, if cuMaskCount ≤ i then some .returned else none)
  else
    -- a CU that is not there uses up no bit
    (s, none)

/-- The values of `cu` in the outermost loop. -/
def Config.cuSteps : List Nat := (range (16 / cfg.cuInc)).map (· * cfg.cuInc)

def mapCuMask (cuMask : List (BitVec 32)) (cuMaskCount : Nat) (seMask : List (BitVec 32)) :
    Option (List (BitVec 32)) :=
  let cuMaskCount := min cuMaskCount cfg.activePerNode
  -- "Exceeding these bounds corrupts the stack", and the caller gets what it gave
  if maxNumSe < cfg.maxShaderEngines then some seMask
  else if maxNumShPerSe < cfg.maxShPerSe then some seMask
  else
    let r :=
      andThen (eachUntil (fun se => setSe se fun _ => 0) (range cfg.maxShaderEngines)
        { i := inst, seMask := seMask }) <|
      eachUntil (fun cu =>
        eachUntil (fun sh =>
          eachUntil (fun se => mapUnit cfg inst cuMask cuMaskCount ⟨cu, sh, se⟩)
            (range cfg.maxShaderEngines))
          (range cfg.maxShPerSe))
        cfg.cuSteps
    match r with
    | (_, some .outOfBounds) => none
    | (s, _) => some s.seMask

/-! ## What it is for -/

def Config.allUnits : List CuPos :=
  cfg.cuSteps.flatMap fun cu => (range cfg.maxShPerSe).flatMap fun sh =>
    (range cfg.maxShaderEngines).map fun se => ⟨cu, sh, se⟩

/-- The CUs of an instance in this order, from GC 10.0 on the WGPs. -/
def Config.units : List CuPos :=
  cfg.allUnits.filter fun u => u.cu < cfg.cuPerSh inst u.se u.sh

def Config.cusOf (u : CuPos) : List CuPos :=
  (range cfg.cuInc).map fun c => { u with cu := u.cu + c }

/-- The CUs of an instance in this order, those of a WGP one after the other. -/
def Config.cus : List CuPos := (cfg.units inst).flatMap cfg.cusOf

def userBit (cuMask : List (BitVec 32)) (b : Nat) : Bool :=
  (cuMask[b / 32]?.getD 0).getLsbD (b % 32)

/-- The check of `pqm_update_mqd` from GC 10.0 on: "CUs must be adjacent pairwise enabled". -/
def pairwiseEnabled (cuMask : List (BitVec 32)) (count : Nat) : Bool :=
  (range ((count + 1) / 2)).all fun j =>
    let i := 2 * j
    let cuPair := ((cuMask[i / 32]?.getD 0) >>> (i % 32)) &&& 0x3
    !(cuPair ≠ 0 && cuPair ≠ 0x3)

def cuBit (seMask : List (BitVec 32)) (p : CuPos) : Bool :=
  (seMask[p.se]?.getD 0).getLsbD (p.cu + p.sh * 16)

end Model

/-! ## One unit -/

section Unit
variable {cfg : Config} {inst : Nat} {cuMask : List (BitVec 32)} {cuMaskCount : Nat} {u p : CuPos}
  {s : MapState}

theorem cuInc_pos : 0 < cfg.cuInc := by
  unfold Config.cuInc
  split <;> decide

theorem enMask_getLsbD (j : Nat) : cfg.enMask.getLsbD j = decide (j < cfg.cuInc) := by
  unfold Config.enMask Config.cuInc
  split
  · exact @Nat.testBit_two_pow_sub_one 2 j
  · exact @Nat.testBit_two_pow_sub_one 1 j

/-- One of the user's bits from `i` on that a unit looks at, in one word, is set. -/
def Hit (cfg : Config) (cuMask : List (BitVec 32)) (i : Nat) : Prop :=
  ∃ c < cfg.cuInc, i % 32 + c < 32 ∧ userBit cuMask (i + c) = true

/-- The test of the source. -/
theorem hit_iff {i : Nat} {word : BitVec 32} (hword : cuMask[i / 32]? = some word) :
    word &&& (cfg.enMask <<< (i % 32)) ≠ 0 ↔ Hit cfg cuMask i := by
  have hbit {c : Nat} (hc : i % 32 + c < 32) :
      userBit cuMask (i + c) = word.getLsbD (i % 32 + c) := by
    have hdiv : (i + c) / 32 = i / 32 := by omega
    have hmod : (i + c) % 32 = i % 32 + c := by omega
    rw [userBit, hdiv, hmod, hword]
    rfl
  rw [word_ne_zero_iff]
  constructor
  · rintro ⟨b, hset⟩
    have hb : b < 32 := BitVec.lt_of_getLsbD hset
    rw [BitVec.getLsbD_and, BitVec.getLsbD_shiftLeft, enMask_getLsbD] at hset
    simp only [Bool.and_eq_true, decide_eq_true_eq, Bool.not_eq_true', decide_eq_false_iff_not]
      at hset
    obtain ⟨hword, ⟨-, hge⟩, hlt⟩ := hset
    have hsplit : i % 32 + (b - i % 32) = b := by omega
    refine ⟨b - i % 32, hlt, by omega, ?_⟩
    rw [hbit (by omega), hsplit]
    exact hword
  · rintro ⟨c, hc, hlt, hset⟩
    rw [hbit hlt] at hset
    refine ⟨i % 32 + c, ?_⟩
    rw [BitVec.getLsbD_and, BitVec.getLsbD_shiftLeft, enMask_getLsbD, Nat.add_sub_cancel_left]
    simp [hset, hlt, hc]

theorem mem_cusOf : p ∈ cfg.cusOf u ↔
    ∃ c < cfg.cuInc, p.cu = u.cu + c ∧ p.sh = u.sh ∧ p.se = u.se := by
  simp only [Config.cusOf, mem_map, mem_range]
  constructor
  · rintro ⟨c, hc, rfl⟩
    exact ⟨c, hc, rfl, rfl, rfl⟩
  · rintro ⟨c, hc, hcu, hsh, hse⟩
    refine ⟨c, hc, ?_⟩
    cases p
    simp_all

theorem enMask_shift (hp : p.cu < 16) (hsh : p.sh < maxNumShPerSe) (hu : u.cu + cfg.cuInc ≤ 16)
    (hse : p.se = u.se) :
    (cfg.enMask <<< (u.cu + u.sh * 16)).getLsbD (p.cu + p.sh * 16) = true ↔ p ∈ cfg.cusOf u := by
  unfold maxNumShPerSe at hsh
  rw [mem_cusOf, BitVec.getLsbD_shiftLeft, enMask_getLsbD]
  simp only [Bool.and_eq_true, decide_eq_true_eq, Bool.not_eq_true', decide_eq_false_iff_not]
  constructor
  · rintro ⟨⟨-, hge⟩, hlt⟩
    exact ⟨p.cu + p.sh * 16 - (u.cu + u.sh * 16), hlt, by omega, by omega, hse⟩
  · rintro ⟨c, hc, hcu, hsh', -⟩
    rw [hcu, hsh']
    omega

theorem cuBit_set {seMask : List (BitVec 32)} {word : BitVec 32}
    (hword : seMask[u.se]? = some word) (bits : BitVec 32) :
    cuBit (seMask.set u.se (word ||| bits)) p = true ↔
      cuBit seMask p = true ∨ p.se = u.se ∧ bits.getLsbD (p.cu + p.sh * 16) = true := by
  unfold cuBit
  obtain ⟨hlt, -⟩ := List.getElem?_eq_some_iff.mp hword
  by_cases hse : p.se = u.se
  · rw [hse, getElem?_set_self hlt, hword]
    simp
  · rw [getElem?_set_ne (Ne.symm hse)]
    simp [hse]

theorem mapUnit_spec (hcount : cuMaskCount ≤ 32 * cuMask.length) (hi : s.i < cuMaskCount)
    (hu : u.cu < cfg.cuPerSh inst u.se u.sh) (hse : u.se < s.seMask.length)
    (hinc : u.cu + cfg.cuInc ≤ 16) :
    ∃ s', mapUnit cfg inst cuMask cuMaskCount u s =
        (s', if cuMaskCount ≤ s.i + cfg.inc then some .returned else none) ∧
      s'.i = s.i + cfg.inc ∧ s'.seMask.length = s.seMask.length ∧
      ∀ p : CuPos, p.cu < 16 → p.sh < maxNumShPerSe → (cuBit s'.seMask p = true ↔
        cuBit s.seMask p = true ∨ Hit cfg cuMask s.i ∧ p ∈ cfg.cusOf u) := by
  have hin : s.i / 32 < cuMask.length := by omega
  -- both arrays are long enough
  have hword : cuMask[s.i / 32]? = some cuMask[s.i / 32] := getElem?_eq_getElem hin
  have hold : s.seMask[u.se]? = some s.seMask[u.se] := getElem?_eq_getElem hse
  unfold mapUnit
  rw [if_pos hu, hword]
  dsimp only
  by_cases hhit : Hit cfg cuMask s.i
  · rw [if_pos ((hit_iff hword).mpr hhit), setSe, hold]
    refine ⟨_, rfl, rfl, length_set, fun p hp hsh => ?_⟩
    dsimp only
    rw [cuBit_set hold, and_iff_right hhit]
    refine or_congr_right ⟨fun ⟨hpse, hbit⟩ => ?_, fun hmem => ?_⟩
    · exact (enMask_shift hp hsh hinc hpse).mp hbit
    · obtain ⟨-, -, -, -, hpse⟩ := mem_cusOf.mp hmem
      exact ⟨hpse, (enMask_shift hp hsh hinc hpse).mpr hmem⟩
  · rw [if_neg (mt (hit_iff hword).mp hhit)]
    refine ⟨_, rfl, rfl, rfl, fun p _ _ => ?_⟩
    simp [hhit]

end Unit

/-! ## The loops -/

section Loops
variable {cfg : Config} {inst : Nat} {cuMask : List (BitVec 32)} {cuMaskCount : Nat}
  {us : List CuPos} {u p : CuPos} {s : MapState} {i : Nat}

/-- Some unit of a place is hit, when the first one looks at the bits from `i` on. -/
def Reached (cfg : Config) (cuMask : List (BitVec 32)) (cuMaskCount : Nat) (us : List CuPos)
    (i : Nat) (p : CuPos) : Prop :=
  ∃ k u, us[k]? = some u ∧ p ∈ cfg.cusOf u ∧ i + k * cfg.inc < cuMaskCount ∧
    Hit cfg cuMask (i + k * cfg.inc)

theorem reached_cons (hi : i < cuMaskCount) : Reached cfg cuMask cuMaskCount (u :: us) i p ↔
    (Hit cfg cuMask i ∧ p ∈ cfg.cusOf u) ∨ Reached cfg cuMask cuMaskCount us (i + cfg.inc) p := by
  have hnext (k : Nat) : i + (k + 1) * cfg.inc = i + cfg.inc + k * cfg.inc := by
    rw [Nat.succ_mul, add_right_comm, ← add_assoc]
  constructor
  · rintro ⟨k, v, hk, hmem, hlt, hhit⟩
    cases k with
    | zero =>
      obtain rfl : u = v := Option.some.inj hk
      rw [Nat.zero_mul, add_zero] at hhit
      exact .inl ⟨hhit, hmem⟩
    | succ k =>
      rw [hnext] at hlt hhit
      exact .inr ⟨k, v, hk, hmem, hlt, hhit⟩
  · rintro (⟨hhit, hmem⟩ | ⟨k, v, hk, hmem, hlt, hhit⟩)
    · refine ⟨0, u, rfl, hmem, ?_, ?_⟩
      · rwa [Nat.zero_mul, add_zero]
      · rwa [Nat.zero_mul, add_zero]
    · refine ⟨k + 1, v, hk, hmem, ?_, ?_⟩
      · rwa [hnext]
      · rwa [hnext]

theorem not_reached (hi : cuMaskCount ≤ i) : ¬Reached cfg cuMask cuMaskCount us i p := by
  rintro ⟨k, -, -, -, hlt, -⟩
  exact absurd (lt_of_le_of_lt (Nat.le_add_right i _) hlt) (not_lt.mpr hi)

theorem mapUnits_spec (hcount : cuMaskCount ≤ 32 * cuMask.length) (hi : s.i < cuMaskCount)
    (hus : ∀ u ∈ us, u.cu < cfg.cuPerSh inst u.se u.sh ∧ u.se < s.seMask.length ∧
      u.cu + cfg.cuInc ≤ 16) :
    ∃ s' r, eachUntil (mapUnit cfg inst cuMask cuMaskCount) us s = (s', r) ∧
      r ≠ some .outOfBounds ∧ s'.seMask.length = s.seMask.length ∧
      ∀ p : CuPos, p.cu < 16 → p.sh < maxNumShPerSe → (cuBit s'.seMask p = true ↔
        cuBit s.seMask p = true ∨ Reached cfg cuMask cuMaskCount us s.i p) := by
  induction us generalizing s with
  | nil =>
    refine ⟨s, none, rfl, (fun h => by cases h), rfl, fun p _ _ => ?_⟩
    simp [Reached]
  | cons u us ih =>
    obtain ⟨⟨hu, hse, hinc⟩, hus⟩ := forall_mem_cons.mp hus
    obtain ⟨s1, hstep, hi1, hlen1, hbits1⟩ := mapUnit_spec hcount hi hu hse hinc
    rw [eachUntil, hstep]
    by_cases hend : cuMaskCount ≤ s.i + cfg.inc
    · -- the source returns, and no later unit has a bit below the count
      rw [if_pos hend]
      refine ⟨s1, _, rfl, (fun h => by cases h), hlen1, fun p hp hsh => ?_⟩
      rw [hbits1 p hp hsh, reached_cons hi, or_iff_left (not_reached hend)]
    · rw [if_neg hend, andThen_none rfl]
      obtain ⟨s', r, heq, hr, hlen, hbits⟩ := ih (s := s1) (by omega) fun v hv => by
        rw [hlen1]
        exact hus v hv
      refine ⟨s', r, heq, hr, hlen.trans hlen1, fun p hp hsh => ?_⟩
      rw [hbits p hp hsh, hbits1 p hp hsh, hi1, reached_cons hi, or_assoc]

theorem zero_spec (s : MapState) {n : Nat} (hn : n ≤ s.seMask.length) :
    ∃ s', eachUntil (fun se => setSe se fun _ => 0) (range n) s = (s', none) ∧ s'.i = s.i ∧
      s'.seMask.length = s.seMask.length ∧
      ∀ p : CuPos, cuBit s'.seMask p = if p.se < n then false else cuBit s.seMask p := by
  induction n with
  | zero => exact ⟨s, rfl, rfl, rfl, fun _ => rfl⟩
  | succ n ih =>
    obtain ⟨s1, heq, hi, hlen, hbits⟩ := ih (by omega)
    have hold : s1.seMask[n]? = some s1.seMask[n] := getElem?_eq_getElem (by omega)
    have hset : setSe n (fun _ => 0) s1 = ({ s1 with seMask := s1.seMask.set n 0 }, none) := by
      rw [setSe, hold]
    refine ⟨{ s1 with seMask := s1.seMask.set n 0 }, ?_, hi, length_set.trans hlen,
      fun p => ?_⟩
    · rw [range_succ, eachUntil_append, heq, andThen_none rfl, eachUntil, hset]
      rfl
    · have hold := hbits p
      unfold cuBit at hold ⊢
      rcases lt_trichotomy p.se n with hlt | hpn | hgt
      · rw [getElem?_set_ne (ne_of_gt hlt), hold, if_pos hlt,
          if_pos (Nat.lt_succ_of_lt hlt)]
      · subst hpn
        rw [getElem?_set_self (by omega), if_pos (Nat.lt_succ_self p.se)]
        simp
      · rw [getElem?_set_ne (ne_of_lt hgt), hold, if_neg (Nat.not_lt_of_gt hgt),
          if_neg (not_lt.mpr hgt)]

theorem loops_eq (s : MapState) :
    eachUntil (fun cu =>
      eachUntil (fun sh =>
        eachUntil (fun se => mapUnit cfg inst cuMask cuMaskCount ⟨cu, sh, se⟩)
          (range cfg.maxShaderEngines))
        (range cfg.maxShPerSe))
      cfg.cuSteps s =
    eachUntil (mapUnit cfg inst cuMask cuMaskCount) (cfg.units inst) s := by
  have hinner (cu : Nat) :
      eachUntil (fun sh =>
        eachUntil (fun se => mapUnit cfg inst cuMask cuMaskCount ⟨cu, sh, se⟩)
          (range cfg.maxShaderEngines))
        (range cfg.maxShPerSe) =
      eachUntil (mapUnit cfg inst cuMask cuMaskCount)
        ((range cfg.maxShPerSe).flatMap fun sh =>
          (range cfg.maxShaderEngines).map fun se => ⟨cu, sh, se⟩) := by
    funext s
    rw [← eachUntil_flatMap]
    congr 1
    funext sh s
    exact (eachUntil_map ..).symm
  simp only [hinner]
  -- the outermost loop, and then the units that are not there
  rw [eachUntil_flatMap]
  refine eachUntil_filter (fun u s hu => ?_) _ s
  exact if_neg (of_decide_eq_false hu)

theorem mem_units (h : u ∈ cfg.units inst) : u.cu < cfg.cuPerSh inst u.se u.sh ∧
    u.se < cfg.maxShaderEngines ∧ u.sh < cfg.maxShPerSe ∧ cfg.cuInc ∣ u.cu ∧
      u.cu + cfg.cuInc ≤ 16 := by
  obtain ⟨hall, hcu⟩ := mem_filter.mp h
  simp only [Config.allUnits, Config.cuSteps, mem_flatMap, mem_map, mem_range]
    at hall
  obtain ⟨cu, ⟨j, hj, rfl⟩, sh, hsh, se, hse, rfl⟩ := hall
  refine ⟨of_decide_eq_true hcu, hse, hsh, Nat.dvd_mul_left _ _, ?_⟩
  calc j * cfg.cuInc + cfg.cuInc = (j + 1) * cfg.cuInc := (Nat.succ_mul ..).symm
    _ ≤ 16 / cfg.cuInc * cfg.cuInc := Nat.mul_le_mul_right _ hj
    _ ≤ 16 := Nat.div_mul_le_self ..

end Loops

/-! ## The CU of a bit -/

theorem getElem?_flatMap_const {α β : Type*} {f : α → List β} {n k c : Nat} {as : List α}
    (hlen : ∀ a ∈ as, (f a).length = n) (hc : c < n) :
    (as.flatMap f)[k * n + c]? = as[k]?.bind fun a => (f a)[c]? := by
  induction as generalizing k with
  | nil => simp
  | cons a as ih =>
    obtain ⟨ha, has⟩ := forall_mem_cons.mp hlen
    rw [flatMap_cons]
    cases k with
    | zero =>
      rw [Nat.zero_mul, zero_add, getElem?_append_left (ha ▸ hc)]
      rfl
    | succ k =>
      have hskip : (k + 1) * n + c = k * n + c + n := by rw [Nat.succ_mul, add_right_comm]
      rw [getElem?_append_right (by omega), hskip, ha, Nat.add_sub_cancel, ih has]
      rfl

theorem nodup_flatMap_of {α β : Type*} {f : α → List β} {as : List α} (has : as.Nodup)
    (hf : ∀ a ∈ as, (f a).Nodup)
    (hdisjoint : ∀ a ∈ as, ∀ b ∈ as, ∀ x, x ∈ f a → x ∈ f b → a = b) : (as.flatMap f).Nodup := by
  refine nodup_flatMap.mpr ⟨hf, has.pairwise_of_forall_ne fun a ha b hb hne => ?_⟩
  exact fun x hxa hxb => hne (hdisjoint a ha b hb x hxa hxb)

section Bits
variable {cfg : Config} {inst : Nat} {cuMask : List (BitVec 32)} {N : Nat} {u p : CuPos}

theorem cusOf_getElem? {c : Nat} (hc : c < cfg.cuInc) :
    (cfg.cusOf u)[c]? = some { u with cu := u.cu + c } := by
  rw [Config.cusOf, getElem?_map, getElem?_range hc]
  rfl

theorem cus_getElem? {k c : Nat} (hc : c < cfg.cuInc) :
    (cfg.cus inst)[k * cfg.cuInc + c]? =
      (cfg.units inst)[k]?.map fun u => { u with cu := u.cu + c } := by
  rw [Config.cus, getElem?_flatMap_const (fun u _ => by simp [Config.cusOf]) hc]
  cases (cfg.units inst)[k]? with
  | none => rfl
  | some u => exact cusOf_getElem? hc

theorem allUnits_nodup : cfg.allUnits.Nodup := by
  have hsteps : cfg.cuSteps.Nodup := nodup_range.map fun a b h => by
    exact Nat.eq_of_mul_eq_mul_right cuInc_pos h
  have hcu (cu : Nat) : ((range cfg.maxShPerSe).flatMap fun sh =>
      (range cfg.maxShaderEngines).map (CuPos.mk cu sh)).Nodup := by
    refine nodup_flatMap_of nodup_range (fun sh _ => ?_) fun a _ b _ x ha hb => ?_
    · exact nodup_range.map fun a b h => congrArg CuPos.se h
    · obtain ⟨se, -, hxa⟩ := mem_map.mp ha
      obtain ⟨se', -, hxb⟩ := mem_map.mp hb
      exact congrArg CuPos.sh (hxa.trans hxb.symm)
  refine nodup_flatMap_of hsteps (fun cu _ => hcu cu) fun a _ b _ x ha hb => ?_
  obtain ⟨sh, -, ha⟩ := mem_flatMap.mp ha
  obtain ⟨sh', -, hb⟩ := mem_flatMap.mp hb
  obtain ⟨se, -, hxa⟩ := mem_map.mp ha
  obtain ⟨se', -, hxb⟩ := mem_map.mp hb
  exact congrArg CuPos.cu (hxa.trans hxb.symm)

theorem cus_nodup : (cfg.cus inst).Nodup := by
  refine nodup_flatMap_of (allUnits_nodup.filter _) (fun u _ => ?_) fun u hu v hv p hpu hpv => ?_
  · refine nodup_range.map fun a b h => ?_
    exact Nat.add_left_cancel (congrArg CuPos.cu h)
  · obtain ⟨-, -, -, hu, -⟩ := mem_units hu
    obtain ⟨-, -, -, hv, -⟩ := mem_units hv
    obtain ⟨c, hc, hcu, hsh, hse⟩ := mem_cusOf.mp hpu
    obtain ⟨d, hd, hcu', hsh', hse'⟩ := mem_cusOf.mp hpv
    -- both are the multiple of `cu_inc` below the CU
    obtain ⟨a, ha⟩ := hu
    obtain ⟨b, hb⟩ := hv
    have hab : a = b := by
      calc a = p.cu / cfg.cuInc := by
            rw [hcu, ha, Nat.mul_add_div cuInc_pos, Nat.div_eq_of_lt hc, add_zero]
        _ = b := by rw [hcu', hb, Nat.mul_add_div cuInc_pos, Nat.div_eq_of_lt hd, add_zero]
    cases u
    cases v
    simp_all

def Uses (cfg : Config) (b inst : Nat) (p : CuPos) : Prop :=
  ∃ m, b = inst + m * cfg.numXcc ∧ (cfg.cus inst)[m]? = some p

theorem bit_unique {b : Nat} (hxcc : 0 < cfg.numXcc)
    (henough : b / cfg.numXcc < (cfg.cus (b % cfg.numXcc)).length) :
    ∃! u : Nat × CuPos, u.1 < cfg.numXcc ∧ Uses cfg b u.1 u.2 := by
  refine ⟨(b % cfg.numXcc, (cfg.cus (b % cfg.numXcc))[b / cfg.numXcc]), ⟨Nat.mod_lt _ hxcc, ?_⟩, ?_⟩
  · exact ⟨b / cfg.numXcc, (Nat.mod_add_div' b cfg.numXcc).symm, getElem?_eq_getElem henough⟩
  · rintro ⟨inst, p⟩ ⟨hinst, m, rfl, hm⟩
    have hmod : (inst + m * cfg.numXcc) % cfg.numXcc = inst := by
      rw [Nat.add_mul_mod_self_right, Nat.mod_eq_of_lt hinst]
    have hdiv : (inst + m * cfg.numXcc) / cfg.numXcc = m := by
      rw [Nat.add_mul_div_right _ _ hxcc, Nat.div_eq_of_lt hinst, zero_add]
    refine Prod.ext hmod.symm ?_
    dsimp only
    rw [← Option.some_inj, ← hm, ← getElem?_eq_getElem, hmod, hdiv]

theorem cu_unique (hp : p ∈ cfg.cus inst) : ∃! b, Uses cfg b inst p := by
  obtain ⟨m, hm⟩ := mem_iff_getElem?.mp hp
  refine ⟨inst + m * cfg.numXcc, ⟨m, rfl, hm⟩, ?_⟩
  rintro b ⟨j, rfl, hj⟩
  obtain ⟨hlt, -⟩ := List.getElem?_eq_some_iff.mp hj
  rw [(getElem?_inj hlt cus_nodup).mp (hj.trans hm.symm)]

end Bits

/-! ## The masks of an instance -/

section Right
variable {cfg : Config} {inst : Nat} {cuMask seMask : List (BitVec 32)} {count N i k c : Nat}
  {p : CuPos}

theorem pair_eq (hpairs : pairwiseEnabled cuMask count = true) {j : Nat} (hj : 2 * j < count) :
    userBit cuMask (2 * j + 1) = userBit cuMask (2 * j) := by
  have hpair := all_eq_true.mp hpairs j (mem_range.mpr (by omega))
  dsimp only at hpair
  unfold userBit
  have hdiv : (2 * j + 1) / 32 = 2 * j / 32 := by omega
  have hmod : (2 * j + 1) % 32 = 2 * j % 32 + 1 := by omega
  rw [hdiv, hmod]
  generalize (cuMask[2 * j / 32]?.getD 0) = word at hpair ⊢
  have hbit {b : Nat} (hb : b < 2) :
      ((word >>> (2 * j % 32)) &&& 0x3).getLsbD b = word.getLsbD (2 * j % 32 + b) := by
    have h3 : (0x3 : BitVec 32).getLsbD b = true := by
      rcases Nat.lt_succ_iff_lt_or_eq.mp hb with h0 | rfl
      · rw [Nat.lt_one_iff.mp h0]
        rfl
      · rfl
    rw [BitVec.getLsbD_and, h3, Bool.and_true, BitVec.getLsbD_ushiftRight]
  have h0 := hbit Nat.zero_lt_two
  have h1 := hbit Nat.one_lt_two
  rw [add_zero] at h0
  rw [← h0, ← h1]
  have hcases : (word >>> (2 * j % 32)) &&& 0x3 = 0 ∨ (word >>> (2 * j % 32)) &&& 0x3 = 0x3 := by
    simpa using hpair
  rcases hcases with hnone | hboth
  · rw [hnone]
    rfl
  · rw [hboth]
    rfl

def Paired (cfg : Config) (cuMask : List (BitVec 32)) (count : Nat) : Prop :=
  cfg.wgpMode = true → cfg.numXcc = 1 ∧ 2 ∣ min count cfg.activePerNode ∧
    pairwiseEnabled cuMask count = true

theorem unit_hit_iff (hpaired : Paired cfg cuMask count) (hinst : inst < cfg.numXcc)
    (hc : c < cfg.cuInc) (hN : N = min count cfg.activePerNode) :
    inst + k * cfg.inc < N ∧ Hit cfg cuMask (inst + k * cfg.inc) ↔
      inst + (k * cfg.cuInc + c) * cfg.numXcc < N ∧
        userBit cuMask (inst + (k * cfg.cuInc + c) * cfg.numXcc) = true := by
  unfold Hit Config.inc
  cases hwgp : cfg.wgpMode with
  | false =>
    have hone : cfg.cuInc = 1 := by rw [Config.cuInc, hwgp]; rfl
    rw [hone] at hc ⊢
    obtain rfl : c = 0 := Nat.lt_one_iff.mp hc
    rw [one_mul, mul_one, add_zero]
    refine and_congr_right fun _ => ⟨?_, fun h => ⟨0, Nat.one_pos, by omega, h⟩⟩
    rintro ⟨d, hd, -, hset⟩
    obtain rfl : d = 0 := Nat.lt_one_iff.mp hd
    exact hset
  | true =>
    obtain ⟨hxcc, heven, hpairs⟩ := hpaired hwgp
    have htwo : cfg.cuInc = 2 := by rw [Config.cuInc, hwgp]; rfl
    rw [hxcc] at hinst ⊢
    rw [htwo] at hc ⊢
    -- with one XCC the pairs start at even bits, so none is cut by the end of a word
    obtain rfl : inst = 0 := Nat.lt_one_iff.mp hinst
    rw [zero_add, zero_add, mul_one, mul_one, mul_comm k 2]
    have hlt : 2 * k < N ↔ 2 * k + c < N := by omega
    rw [← hlt]
    refine and_congr_right fun hk => ?_
    -- both CUs of the WGP have the same bit
    have hsame {d : Nat} (hd : d < 2) :
        userBit cuMask (2 * k + d) = userBit cuMask (2 * k) := by
      rcases Nat.lt_succ_iff_lt_or_eq.mp hd with h0 | rfl
      · rw [Nat.lt_one_iff.mp h0, add_zero]
      · exact pair_eq hpairs (by omega)
    constructor
    · rintro ⟨d, hd, -, hset⟩
      rw [hsame hc, ← hsame hd]
      exact hset
    · intro hset
      exact ⟨c, hc, by omega, hset⟩

theorem reached_iff (hpaired : Paired cfg cuMask count) (hinst : inst < cfg.numXcc)
    (hN : N = min count cfg.activePerNode) :
    Reached cfg cuMask N (cfg.units inst) inst p ↔
      ∃ b < N, Uses cfg b inst p ∧ userBit cuMask b = true := by
  constructor
  · rintro ⟨k, u, hk, hmem, hhit⟩
    obtain ⟨c, hget⟩ := mem_iff_getElem?.mp hmem
    have hc : c < cfg.cuInc := by
      simpa [Config.cusOf] using (of_getElem?_eq_some hget)
    obtain ⟨hlt, hset⟩ := (unit_hit_iff hpaired hinst hc hN).mp hhit
    refine ⟨_, hlt, ⟨k * cfg.cuInc + c, rfl, ?_⟩, hset⟩
    rw [cus_getElem? hc, hk, ← hget, cusOf_getElem? hc]
    rfl
  · rintro ⟨b, hlt, ⟨m, rfl, hm⟩, hset⟩
    have hc : m % cfg.cuInc < cfg.cuInc := Nat.mod_lt m cuInc_pos
    rw [← Nat.div_add_mod' m cfg.cuInc] at hm hlt hset
    rw [cus_getElem? hc] at hm
    obtain ⟨u, hu, rfl⟩ := Option.map_eq_some_iff.mp hm
    refine ⟨m / cfg.cuInc, u, hu, ?_, (unit_hit_iff hpaired hinst hc hN).mpr ⟨hlt, hset⟩⟩
    exact mem_cusOf.mpr ⟨m % cfg.cuInc, hc, rfl, rfl, rfl⟩

structure MaskRight (cfg : Config) (inst : Nat) (cuMask : List (BitVec 32)) (count : Nat)
    (seMask out : List (BitVec 32)) : Prop where
  length : out.length = seMask.length
  frame (p : CuPos) : p.cu < 16 → p.sh < maxNumShPerSe → cfg.maxShaderEngines ≤ p.se →
    cuBit out p = cuBit seMask p
  units (p : CuPos) : p.cu < 16 → p.sh < maxNumShPerSe → p.se < cfg.maxShaderEngines →
    (cuBit out p = true ↔ Reached cfg cuMask (min count cfg.activePerNode) (cfg.units inst) inst p)
  cus (p : CuPos) : p.cu < 16 → p.sh < maxNumShPerSe → p.se < cfg.maxShaderEngines →
    Paired cfg cuMask count →
    (cuBit out p = true ↔
      ∃ b < min count cfg.activePerNode, Uses cfg b inst p ∧ userBit cuMask b = true)
  exist (p : CuPos) : p.cu < 16 → p.sh < maxNumShPerSe → p.se < cfg.maxShaderEngines →
    (∀ se < cfg.maxShaderEngines, ∀ sh < cfg.maxShPerSe, cfg.cuInc ∣ cfg.cuPerSh inst se sh) →
    cuBit out p = true → p.sh < cfg.maxShPerSe ∧ p.cu < cfg.cuPerSh inst p.se p.sh

theorem cu_lt {u : CuPos} (hu : u ∈ cfg.units inst) (hp : p ∈ cfg.cusOf u)
    (hwhole : cfg.cuInc ∣ cfg.cuPerSh inst u.se u.sh) : p.cu < cfg.cuPerSh inst p.se p.sh := by
  obtain ⟨hlt, -, -, ⟨a, ha⟩, -⟩ := mem_units hu
  obtain ⟨c, hc, hcu, hsh, hse⟩ := mem_cusOf.mp hp
  obtain ⟨b, hb⟩ := hwhole
  rw [hcu, hse, hsh, hb, ha]
  rw [ha, hb] at hlt
  have hab : a + 1 ≤ b := Nat.lt_of_mul_lt_mul_left hlt
  calc cfg.cuInc * a + c < cfg.cuInc * a + cfg.cuInc := Nat.add_lt_add_left hc _
    _ = cfg.cuInc * (a + 1) := (Nat.mul_succ ..).symm
    _ ≤ cfg.cuInc * b := Nat.mul_le_mul_left _ hab

theorem reached_mem {us : List CuPos} (h : Reached cfg cuMask N us i p) :
    ∃ u ∈ us, p ∈ cfg.cusOf u := by
  obtain ⟨k, u, hk, hmem, -⟩ := h
  exact ⟨u, mem_of_getElem? hk, hmem⟩

theorem mapCuMask_spec (hse : cfg.maxShaderEngines ≤ maxNumSe)
    (hsh : cfg.maxShPerSe ≤ maxNumShPerSe) (hlen : cfg.maxShaderEngines ≤ seMask.length)
    (hcount : count ≤ 32 * cuMask.length) (hinst : inst < cfg.numXcc)
    (hlow : inst < min count cfg.activePerNode) :
    ∃ out, mapCuMask cfg inst cuMask count seMask = some out ∧
      MaskRight cfg inst cuMask count seMask out := by
  obtain ⟨s1, hzero, hi, hlen1, hbits1⟩ := zero_spec ⟨inst, seMask⟩ hlen
  have hus : ∀ u ∈ cfg.units inst, u.cu < cfg.cuPerSh inst u.se u.sh ∧
      u.se < s1.seMask.length ∧ u.cu + cfg.cuInc ≤ 16 := by
    intro u hu
    obtain ⟨hcu, hse, -, -, hinc⟩ := mem_units hu
    exact ⟨hcu, hlen1 ▸ lt_of_lt_of_le hse hlen, hinc⟩
  have hlow1 : s1.i < min count cfg.activePerNode := hi ▸ hlow
  obtain ⟨s', r, hloops, hr, hlen', hbits⟩ :=
    mapUnits_spec (le_trans (min_le_left _ _) hcount) hlow1 hus
  have hout : mapCuMask cfg inst cuMask count seMask = some s'.seMask := by
    unfold mapCuMask
    rw [if_neg (not_lt.mpr hse), if_neg (not_lt.mpr hsh), hzero, andThen_none rfl,
      loops_eq, hloops]
    cases r with
    | none => rfl
    | some e =>
      cases e with
      | returned => rfl
      | outOfBounds => exact absurd rfl hr
  have hunits (p : CuPos) (hcu : p.cu < 16) (hsh : p.sh < maxNumShPerSe)
      (hse : p.se < cfg.maxShaderEngines) : cuBit s'.seMask p = true ↔
        Reached cfg cuMask (min count cfg.activePerNode) (cfg.units inst) inst p := by
    rw [hbits p hcu hsh, hbits1, if_pos hse, hi]
    simp
  refine ⟨s'.seMask, hout, hlen'.trans hlen1, fun p hcu hsh hse => ?_, hunits,
    fun p hcu hsh hse hpaired => ?_, fun p hcu hsh hse hwhole hset => ?_⟩
  · -- the units are of the engines that there are
    have hnot : ¬Reached cfg cuMask (min count cfg.activePerNode) (cfg.units inst) s1.i p := by
      intro h
      obtain ⟨u, hu, hmem⟩ := reached_mem h
      obtain ⟨-, hlt, -⟩ := mem_units hu
      obtain ⟨-, -, -, -, hpse⟩ := mem_cusOf.mp hmem
      omega
    rw [Bool.eq_iff_iff, hbits p hcu hsh, or_iff_left hnot, hbits1, if_neg (not_lt.mpr hse)]
  · rw [hunits p hcu hsh hse, reached_iff hpaired hinst rfl]
  · obtain ⟨u, hu, hmem⟩ := reached_mem ((hunits p hcu hsh hse).mp hset)
    obtain ⟨-, huse, hush, -, -⟩ := mem_units hu
    obtain ⟨-, -, -, hpsh, -⟩ := mem_cusOf.mp hmem
    exact ⟨hpsh ▸ hush, cu_lt hu hmem (hwhole u.se huse u.sh hush)⟩

/-- The masks of all instances: what each one gets, and that each bit is for one CU. -/
theorem mapCuMask_right (cfg : Config) (cuMask : List (BitVec 32)) (count : Nat)
    (hse : cfg.maxShaderEngines ≤ maxNumSe) (hsh : cfg.maxShPerSe ≤ maxNumShPerSe)
    (hxcc : 0 < cfg.numXcc) (hcount : count ≤ 32 * cuMask.length) :
    (∀ inst < cfg.numXcc, inst < min count cfg.activePerNode →
      ∀ seMask : List (BitVec 32), cfg.maxShaderEngines ≤ seMask.length →
        ∃ out, mapCuMask cfg inst cuMask count seMask = some out ∧
          MaskRight cfg inst cuMask count seMask out) ∧
    (∀ b, b / cfg.numXcc < (cfg.cus (b % cfg.numXcc)).length →
      ∃! u : Nat × CuPos, u.1 < cfg.numXcc ∧ Uses cfg b u.1 u.2) ∧
    ∀ inst, ∀ p ∈ cfg.cus inst, ∃! b, Uses cfg b inst p :=
  ⟨fun _ hinst hlow _ hlen => mapCuMask_spec hse hsh hlen hcount hinst hlow,
    fun _ henough => bit_unique hxcc henough, fun _ _ hp => cu_unique hp⟩

/-- GC 9.4.3: two XCCs of one engine, the first one with three CUs and the other one with one. -/
def exHarvested : Config where
  gcVersion := ipVersion 9 4 3
  maxShaderEngines := 1
  maxShPerSe := 1
  bitmap := fun xcc se sh =>
    if (xcc, se, sh) = (0, 0, 0) then 0b1011 else if (xcc, se, sh) = (1, 0, 0) then 0b10 else 0
  number := 4
  numNodes := 1
  numXcc := 2
  firstXcc := 0

def exWgp : Config where
  gcVersion := ipVersion 10 1 0
  maxShaderEngines := 1
  maxShPerSe := 1
  bitmap := fun xcc se sh => if (xcc, se, sh) = (0, 0, 0) then 0b11 else 0
  number := 2
  numNodes := 1
  numXcc := 1
  firstXcc := 0

theorem mapCuMask_right_exHarvested : ∃ out,
    mapCuMask exHarvested 0 [0xffffffff] 32 (replicate 8 0) = some out ∧
      MaskRight exHarvested 0 [0xffffffff] 32 (replicate 8 0) out :=
  (mapCuMask_right exHarvested [0xffffffff] 32 (by decide) (by decide) (by decide)
    (by decide)).1 0 (by decide) (by decide) (replicate 8 0) (by decide)

/-- The third CU of the first XCC, whose bit 4 is beyond the active CUs; and a WGP of which only
one CU is asked for. -/
theorem mapCuMask_broken :
    (∃ out, mapCuMask exHarvested 0 [0xffffffff] 32 (replicate 8 0) = some out ∧
      (exHarvested.cus 0)[2]? = some ⟨2, 0, 0⟩ ∧ 0 + 2 * exHarvested.numXcc < 32 ∧
        userBit [0xffffffff] (0 + 2 * exHarvested.numXcc) = true ∧ cuBit out ⟨2, 0, 0⟩ = false) ∧
    ∃ out, mapCuMask exWgp 0 [0b01] 32 (replicate 8 0) = some out ∧
      (exWgp.cus 0)[1]? = some ⟨1, 0, 0⟩ ∧
        userBit [0b01] (0 + 1 * exWgp.numXcc) = false ∧ cuBit out ⟨1, 0, 0⟩ = true := by
  have hharvested : mapCuMask exHarvested 0 [0xffffffff] 32 (replicate 8 0) =
      some [0b11, 0, 0, 0, 0, 0, 0, 0] := by decide
  have hwgp : mapCuMask exWgp 0 [0b01] 32 (replicate 8 0) =
      some [0b11, 0, 0, 0, 0, 0, 0, 0] := by decide
  exact ⟨⟨_, hharvested, by decide⟩, _, hwgp, by decide⟩

end Right

end Amdkfd.CuMask
