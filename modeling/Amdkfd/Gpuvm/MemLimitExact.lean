import Amdkfd.Gpuvm.MemLimit

/-!
# Checks against the memory limits

`amdgpu_amdkfd_reserve_mem_limit` compares sums of a signed counter and an unsigned size with a
limit, in 64 bits, and for VRAM the limit is itself a difference that can be negative.
`amdgpu_amdkfd_get_available_memory` rounds such differences down and takes the least of them.
-/

namespace Amdkfd.MemLimit

open Lib

/-! ## Model -/

def alignDown (x a : Nat) : Nat := x / a * a

/-- `amdgpu_amdkfd_get_available_memory`. The result is an `ssize_t` until it has been compared
with 0. -/
def getAvailableMemory (s : State) (dev : Dev) (xcp : Nat) (l : Limits) : Nat :=
  let vramAvailable := toU64 ((l.xcpMemorySize xcp : Int) - s.vramUsedAligned dev.num xcp -
    l.vramPinSize - estimatePtSize l.totalMemSize)
  let available :=
    if dev.apu then
      let systemMemAvailable :=
        if l.noSystemMemLimit then l.maxSystemMemLimit
        else toU64 (l.maxSystemMemLimit - s.systemMemUsed)
      let ttmMemAvailable := toU64 (l.maxTtmMemLimit - s.ttmMemUsed)
      alignDown (min systemMemAvailable (min ttmMemAvailable vramAvailable)) pageSize
    else alignDown vramAvailable vramAvailabilityAlign
  if 2 ^ 63 ≤ available then 0 else available

/-! ## Comparisons in 64 bits -/

/-- The sum leaves 64 bits, and what is left of it is within the limit. -/
def WrapsInto (sum limit : Int) : Prop := 2 ^ 64 ≤ sum ∧ sum - 2 ^ 64 ≤ limit
  deriving Decidable

/-- A sum passes a limit that is a difference: it leaves 64 bits, or the difference is negative and
far enough below 2 ^ 64 when it is read as unsigned. -/
def PassesRoom (sum room : Int) : Prop :=
  if 0 ≤ room then WrapsInto sum room
  else sum ≤ room + 2 ^ 64 ∨ WrapsInto sum (room + 2 ^ 64)
  deriving Decidable

theorem toU64_le_iff {sum limit : Int} (hsum : 0 ≤ sum) (hlt : sum < 2 ^ 65) (hlimit : 0 ≤ limit)
    (hfits : limit < 2 ^ 64) :
    toU64 sum ≤ limit.toNat ↔ sum ≤ limit ∨ WrapsInto sum limit := by
  unfold toU64 WrapsInto
  omega

theorem toU64_le_room_iff {sum room : Int} (hsum : 0 ≤ sum) (hlt : sum < 2 ^ 65)
    (hroom : -2 ^ 64 ≤ room) (hfits : room < 2 ^ 64) :
    toU64 sum ≤ toU64 room ↔ sum ≤ room ∨ PassesRoom sum room := by
  unfold toU64 PassesRoom WrapsInto
  split
  · omega
  · omega

/-! ## The checks of a reservation -/

/-- The values fit the types of their variables, and no counter is negative. -/
structure InRange (s : State) (l : Limits) : Prop where
  system : 0 ≤ s.systemMemUsed ∧ s.systemMemUsed < 2 ^ 63
  ttm : 0 ≤ s.ttmMemUsed ∧ s.ttmMemUsed < 2 ^ 63
  vram : ∀ d x, 0 ≤ s.vramUsed d x ∧ s.vramUsed d x < 2 ^ 63
  aligned : ∀ d x, 0 ≤ s.vramUsedAligned d x ∧ s.vramUsedAligned d x < 2 ^ 63
  maxSystem : l.maxSystemMemLimit < 2 ^ 64
  maxTtm : l.maxTtmMemLimit < 2 ^ 64
  memorySize : ∀ x, l.xcpMemorySize x < 2 ^ 64
  totalSize : l.totalMemSize < 2 ^ 64
  pinned : l.vramPinSize < 2 ^ 63

/-- The VRAM of a size without the reserve for page tables and what is pinned. -/
def vramRoom (l : Limits) (vramSize : Nat) : Int :=
  (vramSize : Int) - estimatePtSize l.totalMemSize - l.vramPinSize

structure Within (s : State) (dev : Dev) (n : Needed) (flags : Flags) (xcp : Option Nat)
    (l : Limits) : Prop where
  system : l.noSystemMemLimit = true ∨ s.systemMemUsed + n.system ≤ l.maxSystemMemLimit
  ttm : s.ttmMemUsed + n.ttm ≤ l.maxTtmMemLimit
  vram : ∀ x, xcp = some x → flags.gtt = false → flags.vram = true →
    s.vramUsed dev.num x + n.vram ≤ vramRoom l (l.xcpMemorySize x)

def ReserveExact (s : State) (dev : Dev) (size : Nat) (flags : Flags) (xcp : Option Nat)
    (l : Limits) : Prop :=
  (∃ s', reserveMemLimit s dev size flags xcp l = .ok s') →
    ∃ n, needed dev size flags xcp l = .ok n ∧ Within s dev n flags xcp l

/-- A limit is exceeded and the comparison in 64 bits does not see it. -/
def Unseen (s : State) (dev : Dev) (n : Needed) (flags : Flags) (xcp : Option Nat) (l : Limits) :
    Prop :=
  (l.noSystemMemLimit = false ∧ WrapsInto (s.systemMemUsed + n.system) l.maxSystemMemLimit) ∨
  WrapsInto (s.ttmMemUsed + n.ttm) l.maxTtmMemLimit ∨
  ∃ x, xcp = some x ∧ flags.gtt = false ∧ flags.vram = true ∧
    PassesRoom (s.vramUsed dev.num x + n.vram) (vramRoom l n.vramSize)

/-- A limit is exceeded and the comparison in 64 bits sees it. -/
def Refused (s : State) (dev : Dev) (n : Needed) (xcp : Option Nat) (l : Limits) : Prop :=
  (l.noSystemMemLimit = false ∧ l.maxSystemMemLimit < s.systemMemUsed + n.system ∧
    ¬ WrapsInto (s.systemMemUsed + n.system) l.maxSystemMemLimit) ∨
  (l.maxTtmMemLimit < s.ttmMemUsed + n.ttm ∧ ¬ WrapsInto (s.ttmMemUsed + n.ttm) l.maxTtmMemLimit) ∨
  ∃ x, xcp = some x ∧ vramRoom l n.vramSize < s.vramUsed dev.num x + n.vram ∧
    ¬ PassesRoom (s.vramUsed dev.num x + n.vram) (vramRoom l n.vramSize)

section
variable {s : State} {dev : Dev} {size : Nat} {flags : Flags} {xcp : Option Nat} {l : Limits}
  {n : Needed}

theorem estimatePtSize_le (h : l.totalMemSize < 2 ^ 64) :
    estimatePtSize l.totalMemSize ≤ 2 ^ 50 := by
  unfold estimatePtSize reservedVram
  omega

theorem vramRoom_bounds (hr : InRange s l) {vramSize : Nat} (h : vramSize < 2 ^ 64) :
    -2 ^ 64 ≤ vramRoom l vramSize ∧ vramRoom l vramSize < 2 ^ 64 := by
  have hpt := estimatePtSize_le hr.totalSize
  have hpin := hr.pinned
  unfold vramRoom
  omega

theorem lt_of_passesRoom {sum room : Int} (hsum : 0 ≤ sum) (hfits : room < 2 ^ 64)
    (h : PassesRoom sum room) : room < sum := by
  unfold PassesRoom WrapsInto at h
  split at h
  · omega
  · omega

theorem needed_le (h : needed dev size flags xcp l = .ok n) :
    n.system ≤ size ∧ n.ttm ≤ size ∧ n.vram ≤ size := by
  unfold needed at h
  split at h
  · cases h
    exact ⟨le_rfl, le_rfl, Nat.zero_le _⟩
  · split at h
    · split at h
      · cases h
      · dsimp only at h
        split at h <;> cases h
        · exact ⟨le_rfl, le_rfl, le_rfl⟩
        · exact ⟨Nat.zero_le _, Nat.zero_le _, le_rfl⟩
    · split at h
      · cases h
        exact ⟨le_rfl, Nat.zero_le _, Nat.zero_le _⟩
      · split at h <;> cases h
        exact ⟨Nat.zero_le _, Nat.zero_le _, Nat.zero_le _⟩

theorem needed_vramSize (h : needed dev size flags xcp l = .ok n) :
    (n.vramSize = 0 ∨ ∃ x, xcp = some x ∧ n.vramSize = l.xcpMemorySize x) ∧
    (flags.gtt = false → flags.vram = true → ∀ x, xcp = some x →
      n.vramSize = l.xcpMemorySize x) := by
  unfold needed at h
  split at h
  next hgtt =>
    cases h
    exact ⟨.inl rfl, fun hno => absurd (hgtt.symm.trans hno) nofun⟩
  next hgtt =>
    split at h
    next hvram =>
      cases xcp with
      | none => cases h
      | some x =>
        dsimp only at h
        split at h <;> cases h
        all_goals exact ⟨.inr ⟨x, rfl, rfl⟩, fun _ _ y hy => by rw [Option.some.inj hy]⟩
    next hvram =>
      split at h
      · cases h
        exact ⟨.inl rfl, fun _ hyes => absurd hyes hvram⟩
      · split at h <;> cases h
        exact ⟨.inl rfl, fun _ hyes => absurd hyes hvram⟩

theorem reserve_ok_iff :
    (∃ s', reserveMemLimit s dev size flags xcp l = .ok s') ↔
      ∃ n, needed dev size flags xcp l = .ok n ∧ exceeds s dev n xcp l = false := by
  unfold reserveMemLimit
  cases needed dev size flags xcp l with
  | error e => simp
  | ok n =>
    dsimp only
    cases hex : exceeds s dev n xcp l with
    | true => simp [hex]
    | false => simp [hex]

theorem exceeds_false_iff (hr : InRange s l) (hsize : size < 2 ^ 64)
    (h : needed dev size flags xcp l = .ok n) :
    exceeds s dev n xcp l = false ↔
      (l.noSystemMemLimit = true ∨ s.systemMemUsed + n.system ≤ l.maxSystemMemLimit ∨
        WrapsInto (s.systemMemUsed + n.system) l.maxSystemMemLimit) ∧
      (s.ttmMemUsed + n.ttm ≤ l.maxTtmMemLimit ∨
        WrapsInto (s.ttmMemUsed + n.ttm) l.maxTtmMemLimit) ∧
      ∀ x, xcp = some x → s.vramUsed dev.num x + n.vram ≤ vramRoom l n.vramSize ∨
        PassesRoom (s.vramUsed dev.num x + n.vram) (vramRoom l n.vramSize) := by
  obtain ⟨hns, hnt, hnv⟩ := needed_le h
  have hvramSize : n.vramSize < 2 ^ 64 := by
    rcases (needed_vramSize h).1 with hzero | ⟨x, -, heq⟩
    · omega
    · rw [heq]
      exact hr.memorySize x
  have hroom := vramRoom_bounds hr hvramSize
  have hsystem := @toU64_le_iff (s.systemMemUsed + n.system) l.maxSystemMemLimit
    (by have := hr.system; omega) (by have := hr.system; omega) (by omega)
    (by have := hr.maxSystem; omega)
  have httm := @toU64_le_iff (s.ttmMemUsed + n.ttm) l.maxTtmMemLimit
    (by have := hr.ttm; omega) (by have := hr.ttm; omega) (by omega)
    (by have := hr.maxTtm; omega)
  have hvram : ∀ x, toU64 (s.vramUsed dev.num x + n.vram) ≤ toU64 (vramRoom l n.vramSize) ↔ _ :=
    fun x => toU64_le_room_iff (by have := hr.vram dev.num x; omega)
      (by have := hr.vram dev.num x; omega) hroom.1 hroom.2
  rw [Int.toNat_natCast] at hsystem httm
  unfold exceeds
  rw [Bool.or_eq_false_iff, Bool.or_eq_false_iff, and_assoc]
  refine and_congr ?_ (and_congr ?_ ?_)
  · rw [← hsystem]
    cases l.noSystemMemLimit <;> simp
  · rw [← httm]
    simp
  · cases xcp with
    | none => simp
    | some x =>
      simp only [Option.some.injEq, forall_eq']
      rw [← hvram x]
      unfold vramRoom
      simp

theorem exceeds_false_iff_not_refused (hr : InRange s l) (hsize : size < 2 ^ 64)
    (h : needed dev size flags xcp l = .ok n) :
    exceeds s dev n xcp l = false ↔ ¬ Refused s dev n xcp l := by
  rw [exceeds_false_iff hr hsize h]
  unfold Refused
  constructor
  · rintro ⟨hsystem, httm, hvram⟩ (⟨hno, hlt, hwrap⟩ | ⟨hlt, hwrap⟩ | ⟨x, hx, hlt, hpass⟩)
    · rcases hsystem with hyes | hle | hw
      · exact absurd (hyes.symm.trans hno) nofun
      · omega
      · exact hwrap hw
    · rcases httm with hle | hw
      · omega
      · exact hwrap hw
    · rcases hvram x hx with hle | hp
      · omega
      · exact hpass hp
  · intro hnot
    push Not at hnot
    obtain ⟨hsystem, httm, hvram⟩ := hnot
    refine ⟨?_, ?_, fun x hx => ?_⟩
    · cases hno : l.noSystemMemLimit with
      | true => exact .inl rfl
      | false => exact .inr (or_iff_not_imp_left.mpr fun hgt => hsystem hno (not_le.mp hgt))
    · exact or_iff_not_imp_left.mpr fun hgt => httm (not_le.mp hgt)
    · exact or_iff_not_imp_left.mpr fun hgt => hvram x hx (not_le.mp hgt)

/-- What passes the comparisons is within the limits unless one is exceeded unseen. -/
theorem within_iff_not_unseen (hr : InRange s l) (hsize : size < 2 ^ 64)
    (h : needed dev size flags xcp l = .ok n) (hpass : exceeds s dev n xcp l = false) :
    Within s dev n flags xcp l ↔ ¬ Unseen s dev n flags xcp l := by
  obtain ⟨hsystem, httm, hvram⟩ := (exceeds_false_iff hr hsize h).mp hpass
  have hmaxSystem := hr.maxSystem
  have hmaxTtm := hr.maxTtm
  constructor
  · rintro hw (⟨hno, hwrap⟩ | hwrap | ⟨x, hx, hgtt, hflag, hpasses⟩)
    · have hle := hw.system.resolve_left (by rw [hno]; exact nofun)
      have hge := hwrap.1
      omega
    · have hle := hw.ttm
      have hge := hwrap.1
      omega
    · have hle := hw.vram x hx hgtt hflag
      have hbound := (vramRoom_bounds hr (hr.memorySize x)).2
      have hused := (hr.vram dev.num x).1
      rw [(needed_vramSize h).2 hgtt hflag x hx] at hpasses
      have hlt := lt_of_passesRoom (by omega) hbound hpasses
      omega
  · intro hnot
    refine ⟨?_, ?_, fun x hx hgtt hflag => ?_⟩
    · rcases hsystem with hyes | hle | hwrap
      · exact .inl hyes
      · exact .inr hle
      · cases hno : l.noSystemMemLimit with
        | true => exact .inl rfl
        | false => exact absurd (.inl ⟨hno, hwrap⟩) hnot
    · exact httm.resolve_right fun hwrap => hnot (.inr (.inl hwrap))
    · rw [← (needed_vramSize h).2 hgtt hflag x hx]
      exact (hvram x hx).resolve_right fun hpasses =>
        hnot (.inr (.inr ⟨x, hx, hgtt, hflag, hpasses⟩))

theorem reserveExact_iff (hr : InRange s l) (hsize : size < 2 ^ 64) :
    ReserveExact s dev size flags xcp l ↔
      ∀ n, needed dev size flags xcp l = .ok n →
        ¬ Unseen s dev n flags xcp l ∨ Refused s dev n xcp l := by
  unfold ReserveExact
  rw [reserve_ok_iff]
  constructor
  · intro h n hn
    refine or_iff_not_imp_right.mpr fun hrefused => ?_
    have hpass := (exceeds_false_iff_not_refused hr hsize hn).mpr hrefused
    obtain ⟨n', hn', hwithin⟩ := h ⟨n, hn, hpass⟩
    obtain rfl : n' = n := Except.ok.inj (hn'.symm.trans hn)
    exact (within_iff_not_unseen hr hsize hn hpass).mp hwithin
  · rintro h ⟨n, hn, hpass⟩
    have hrefused := (exceeds_false_iff_not_refused hr hsize hn).mp hpass
    exact ⟨n, hn, (within_iff_not_unseen hr hsize hn hpass).mpr ((h n hn).resolve_right hrefused)⟩

end

/-! ## What is reported as available -/

def AvailableReserves (s : State) (dev : Dev) (x : Nat) (l : Limits) : Prop :=
  0 < getAvailableMemory s dev x l →
    ∃ s', reserveMemLimit s dev (getAvailableMemory s dev x l) { vram := true } (some x) l = .ok s'

def vramLeft (s : State) (dev : Dev) (x : Nat) (l : Limits) : Int :=
  (l.xcpMemorySize x : Int) - s.vramUsedAligned dev.num x - l.vramPinSize -
    estimatePtSize l.totalMemSize

def HostWithin (s : State) (l : Limits) : Prop :=
  (l.noSystemMemLimit = true ∨ s.systemMemUsed ≤ l.maxSystemMemLimit) ∧
    s.ttmMemUsed ≤ l.maxTtmMemLimit

/-- On a discrete GPU: less than 2 MiB of VRAM are left, or more than a `ssize_t` holds, in 64 bits;
or the memory in use is within its limits, and the VRAM in use is at most what the aligned counter
and the rounding say. -/
def DiscreteFits (s : State) (dev : Dev) (x : Nat) (l : Limits) : Prop :=
  toU64 (vramLeft s dev x l) < vramAvailabilityAlign ∨ 2 ^ 63 ≤ toU64 (vramLeft s dev x l) ∨
    (HostWithin s l ∧
      s.vramUsed dev.num x ≤
        s.vramUsedAligned dev.num x + vramLeft s dev x l % vramAvailabilityAlign)

def leastLeft (s : State) (dev : Dev) (x : Nat) (l : Limits) : Nat :=
  min (if l.noSystemMemLimit then l.maxSystemMemLimit
    else toU64 (l.maxSystemMemLimit - s.systemMemUsed))
    (min (toU64 (l.maxTtmMemLimit - s.ttmMemUsed)) (toU64 (vramLeft s dev x l)))

/-- On an APU: less than a page is left, or more than a `ssize_t` holds, in 64 bits; or the memory
in use is within its limits, and with whole pages of what is left the VRAM in use does not exceed
its room, in 64 bits. -/
def ApuFits (s : State) (dev : Dev) (x : Nat) (l : Limits) : Prop :=
  leastLeft s dev x l < pageSize ∨ 2 ^ 63 ≤ leastLeft s dev x l ∨
    (HostWithin s l ∧
      s.vramUsed dev.num x + alignDown (leastLeft s dev x l) pageSize ≤
        toU64 (vramRoom l (l.xcpMemorySize x)))

section
variable {s : State} {dev : Dev} {x : Nat} {l : Limits}

theorem toU64_of_lt {v : Int} (h : 0 ≤ v) (hlt : v < 2 ^ 64) : (toU64 v : Int) = v := by
  unfold toU64
  omega

theorem reserve_vram_iff (hr : InRange s l) {n : Nat} (hn : n < 2 ^ 63) :
    (∃ s', reserveMemLimit s dev n { vram := true } (some x) l = .ok s') ↔
      (l.noSystemMemLimit = true ∨
        s.systemMemUsed + (if dev.apu then n else 0 : Nat) ≤ l.maxSystemMemLimit) ∧
      s.ttmMemUsed + (if dev.apu then n else 0 : Nat) ≤ l.maxTtmMemLimit ∧
      s.vramUsed dev.num x + n ≤ toU64 (vramRoom l (l.xcpMemorySize x)) := by
  have hneeded : needed dev n { vram := true } (some x) l =
      .ok ⟨if dev.apu then n else 0, if dev.apu then n else 0, n, l.xcpMemorySize x⟩ := by
    unfold needed
    cases dev.apu <;> rfl
  have hcharge : (if dev.apu then n else 0 : Nat) < 2 ^ 63 := by
    split
    · exact hn
    · decide
  rw [reserve_ok_iff, hneeded]
  simp only [Except.ok.injEq, exists_eq_left']
  generalize (if dev.apu then n else 0 : Nat) = k at hcharge
  have hsystem := @toU64_of_lt (s.systemMemUsed + k) (by have := hr.system; omega)
    (by have := hr.system; omega)
  have httm := @toU64_of_lt (s.ttmMemUsed + k) (by have := hr.ttm; omega)
    (by have := hr.ttm; omega)
  have hvram := @toU64_of_lt (s.vramUsed dev.num x + n) (by have := hr.vram dev.num x; omega)
    (by have := hr.vram dev.num x; omega)
  unfold exceeds vramRoom
  rw [Bool.or_eq_false_iff, Bool.or_eq_false_iff, and_assoc]
  refine and_congr ?_ (and_congr ?_ ?_)
  · cases l.noSystemMemLimit with
    | true => simp
    | false =>
      simp only [Bool.not_false, Bool.and_true, decide_eq_false_iff_not, Bool.false_eq_true,
        false_or]
      omega
  · simp only [decide_eq_false_iff_not]
    omega
  · simp only [decide_eq_false_iff_not]
    omega

theorem vramRoom_eq : vramRoom l (l.xcpMemorySize x) =
    vramLeft s dev x l + s.vramUsedAligned dev.num x := by
  unfold vramRoom vramLeft
  omega

theorem rounded_fits_iff {left used aligned : Int} (hsmall : toU64 left < 2 ^ 63)
    (haligned : 0 ≤ aligned ∧ aligned < 2 ^ 63) :
    used + alignDown (toU64 left) vramAvailabilityAlign ≤ toU64 (left + aligned) ↔
      used ≤ aligned + left % vramAvailabilityAlign := by
  have halign : alignDown (toU64 left) vramAvailabilityAlign = toU64 left / 2 ^ 21 * 2 ^ 21 := rfl
  have hmod : left % (vramAvailabilityAlign : Nat) = left % 2 ^ 21 := rfl
  rw [halign, hmod]
  unfold toU64 at hsmall ⊢
  omega

/-- What is left is rounded down to `unit` and reported unless it is negative as an `ssize_t`. -/
theorem availableReserves_rounded {v unit : Nat} {F : Prop} (hunit : 0 < unit)
    (hdvd : unit ∣ 2 ^ 63) (havailable : getAvailableMemory s dev x l =
      if 2 ^ 63 ≤ alignDown v unit then 0 else alignDown v unit)
    (h : v < 2 ^ 63 → alignDown v unit < 2 ^ 63 →
      ((∃ s', reserveMemLimit s dev (alignDown v unit) { vram := true } (some x) l = .ok s') ↔ F)) :
    AvailableReserves s dev x l ↔ v < unit ∨ 2 ^ 63 ≤ v ∨ F := by
  unfold AvailableReserves
  rw [havailable]
  have hround : alignDown v unit ≤ v := Nat.div_mul_le_self ..
  by_cases hbig : 2 ^ 63 ≤ v
  · have hle : 2 ^ 63 ≤ alignDown v unit :=
      (Nat.div_mul_cancel hdvd).ge.trans (Nat.mul_le_mul_right unit (Nat.div_le_div_right hbig))
    rw [if_pos hle]
    exact iff_of_true (fun h => absurd h (lt_irrefl 0)) (.inr (.inl hbig))
  · have hsmall := Nat.lt_of_not_le hbig
    rw [if_neg fun hle => hbig (hle.trans hround), h hsmall (hround.trans_lt hsmall)]
    by_cases hfew : v < unit
    · refine iff_of_true (fun h => ?_) (.inl hfew)
      rw [alignDown, Nat.div_eq_of_lt hfew, zero_mul] at h
      exact absurd h (lt_irrefl 0)
    · have hpos : 0 < alignDown v unit :=
        Nat.mul_pos (Nat.div_pos (Nat.le_of_not_lt hfew) hunit) hunit
      simp only [hpos, true_imp_iff, hfew, hbig, false_or]

theorem availableReserves_discrete_iff (hr : InRange s l) (hapu : dev.apu = false) :
    AvailableReserves s dev x l ↔ DiscreteFits s dev x l := by
  have havailable : getAvailableMemory s dev x l =
      if 2 ^ 63 ≤ alignDown (toU64 (vramLeft s dev x l)) vramAvailabilityAlign then 0
      else alignDown (toU64 (vramLeft s dev x l)) vramAvailabilityAlign := by
    unfold getAvailableMemory vramLeft
    rw [hapu]
    rfl
  refine availableReserves_rounded (by decide) (by decide) havailable fun hsmall hlt => ?_
  rw [reserve_vram_iff hr (by omega), hapu, @vramRoom_eq s dev x l,
    rounded_fits_iff hsmall (hr.aligned dev.num x)]
  simp only [HostWithin, and_assoc, Bool.false_eq_true, if_false, Int.natCast_zero, Int.add_zero]

theorem toU64_sub_of_le {limit : Nat} {used : Int} (hlimit : limit < 2 ^ 64) (hused : 0 ≤ used)
    (h : used ≤ limit) : (toU64 (limit - used) : Int) = limit - used :=
  toU64_of_lt (by omega) (by omega)

theorem host_fits_iff (hr : InRange s l) {n : Nat} (hn : n ≤ leastLeft s dev x l) {P : Prop} :
    (l.noSystemMemLimit = true ∨ s.systemMemUsed + n ≤ l.maxSystemMemLimit) ∧
      s.ttmMemUsed + n ≤ l.maxTtmMemLimit ∧ P ↔
    (l.noSystemMemLimit = true ∨ s.systemMemUsed ≤ l.maxSystemMemLimit) ∧
      s.ttmMemUsed ≤ l.maxTtmMemLimit ∧ P := by
  unfold leastLeft at hn
  obtain ⟨hsystem, hrest⟩ := Nat.le_min.mp hn
  have httm := (Nat.le_min.mp hrest).1
  refine and_congr ?_ (and_congr ?_ Iff.rfl)
  · cases hno : l.noSystemMemLimit with
    | true => simp
    | false =>
      simp only [Bool.false_eq_true, false_or]
      refine ⟨fun h => by omega, fun h => ?_⟩
      have heq := toU64_sub_of_le hr.maxSystem hr.system.1 h
      simp only [hno, Bool.false_eq_true, if_false] at hsystem
      omega
  · refine ⟨fun h => by omega, fun h => ?_⟩
    have heq := toU64_sub_of_le hr.maxTtm hr.ttm.1 h
    omega

theorem availableReserves_apu_iff (hr : InRange s l) (hapu : dev.apu = true) :
    AvailableReserves s dev x l ↔ ApuFits s dev x l := by
  have havailable : getAvailableMemory s dev x l =
      if 2 ^ 63 ≤ alignDown (leastLeft s dev x l) pageSize then 0
      else alignDown (leastLeft s dev x l) pageSize := by
    unfold getAvailableMemory leastLeft vramLeft
    rw [hapu]
    rfl
  refine availableReserves_rounded (by decide) (by decide) havailable fun _ hlt => ?_
  rw [reserve_vram_iff hr (by omega), hapu]
  simp only [if_true, HostWithin, and_assoc]
  exact host_fits_iff hr (Nat.div_mul_le_self ..)

def AvailableFits (s : State) (dev : Dev) (x : Nat) (l : Limits) : Prop :=
  if dev.apu then ApuFits s dev x l else DiscreteFits s dev x l

theorem availableReserves_iff (hr : InRange s l) :
    AvailableReserves s dev x l ↔ AvailableFits s dev x l := by
  unfold AvailableFits
  cases hapu : dev.apu with
  | true => exact availableReserves_apu_iff hr hapu
  | false => exact availableReserves_discrete_iff hr hapu

end

/-- The checks against the limits are exact and what is reported as available can be reserved, just
under these conditions. -/
theorem mem_limit_checks (s : State) (dev : Dev) (l : Limits) (hr : InRange s l) :
    (∀ (size : BitVec 64) (flags : Flags) (xcp : Option Nat),
      ReserveExact s dev size.toNat flags xcp l ↔
        ∀ n, needed dev size.toNat flags xcp l = .ok n →
          ¬ Unseen s dev n flags xcp l ∨ Refused s dev n xcp l) ∧
    ∀ x, AvailableReserves s dev x l ↔ AvailableFits s dev x l :=
  ⟨fun size _ _ => reserveExact_iff hr size.isLt, fun _ => availableReserves_iff hr⟩

def exLimits (vramPinSize : Nat) : Limits :=
  { maxSystemMemLimit := 2 ^ 30
    maxTtmMemLimit := 2 ^ 30
    noSystemMemLimit := false
    xcpMemorySize := fun _ => 2 ^ 36
    totalMemSize := 2 ^ 36
    vramPinSize := vramPinSize }

def exUsed : State := { init with systemMemUsed := 8192, ttmMemUsed := 8192 }

theorem exUsed_inRange : InRange exUsed (exLimits 0) := by
  constructor <;> simp [exUsed, init, exLimits]

theorem mem_limit_checks_exUsed :
    AvailableReserves exUsed ⟨0, true, false⟩ 0 (exLimits 0) ↔
      AvailableFits exUsed ⟨0, true, false⟩ 0 (exLimits 0) :=
  (mem_limit_checks exUsed ⟨0, true, false⟩ (exLimits 0) exUsed_inRange).2 0

/-- A page less than 2 ^ 64 bytes of GTT pass both checks. -/
theorem mem_limit_checks_broken :
    ¬ ∀ (s : State) (dev : Dev) (l : Limits), InRange s l →
      ∀ (size : BitVec 64) (flags : Flags) (xcp : Option Nat),
        ReserveExact s dev size.toNat flags xcp l := by
  intro h
  have hexact := h exUsed ⟨0, false, false⟩ (exLimits 0) exUsed_inRange
    (BitVec.ofNat 64 (2 ^ 64 - 4096)) { gtt := true } none
  obtain ⟨n, hn, hwithin⟩ := hexact ⟨_, rfl⟩
  obtain rfl := Except.ok.inj hn
  exact absurd hwithin.ttm (by decide)

end Amdkfd.MemLimit
