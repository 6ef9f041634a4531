import Amdkfd.Lib.Align
import Mathlib.Tactic.Push

/-!
# The apertures of the memory controller

`amdgpu_gmc_gart_location` puts the GART before or behind the frame buffer, and
`amdgpu_gmc_agp_location` puts the AGP aperture into the larger hole that is left. The sizes of the
holes are differences of 64-bit addresses that are rounded to 4 GiB and to 16 GiB.
-/

namespace Amdkfd.GmcLocation

open Lib

/-! ## Model -/

def gmcHoleStart : Nat := 0x0000800000000000

def fourGb : Nat := 0x100000000

def sixteenGb : Nat := 1 <<< 34

/-- `x & ~(a - 1)`, for a power of two. -/
def maskDown (x a : Nat) : Nat := alignDown x a

/-- `ALIGN(x, a)`, for a power of two. -/
def align (x a : Nat) : Nat := maskDown ((x + (a - 1)) % 2 ^ 64) a

def sub64 (x y : Nat) : Nat := (x + 2 ^ 64 - y) % 2 ^ 64

/-- `struct amdgpu_gmc` before: the bits of the MC address space (40 or 48 on the devices), the
frame buffer, and the size of the GART that is asked for. -/
structure Mc where
  addressBits : Nat
  fbStart : Nat
  fbEnd : Nat
  gartSize : Nat
  addressBits_ge : 34 ≤ addressBits
  addressBits_lt : addressBits < 63
  fb_le : fbStart ≤ fbEnd
  fbEnd_lt : fbEnd < 2 ^ addressBits
  gartSize_lt : gartSize < 2 ^ 64

def Mc.mcMask (mc : Mc) : Nat := 2 ^ mc.addressBits - 1

def Mc.maxMcAddress (mc : Mc) : Nat := min mc.mcMask (gmcHoleStart - 1)

inductive GartPlacement
  | bestFit
  | high
  | low
  deriving DecidableEq

structure Gart where
  gartStart : Nat
  gartSize : Nat
  deriving DecidableEq

def Gart.gartEnd (g : Gart) : Nat := sub64 (g.gartStart + g.gartSize) 1

def amdgpuGmcGartLocation (mc : Mc) (placement : GartPlacement) : Gart :=
  let sizeBf := mc.fbStart
  let sizeAf := sub64 (mc.maxMcAddress + 1) (align (mc.fbEnd + 1) fourGb)
  let gartSize := if max sizeBf sizeAf < mc.gartSize then max sizeBf sizeAf else mc.gartSize
  let high := sub64 (mc.maxMcAddress + 1) gartSize
  let gartStart :=
    match placement with
    | .high => high
    | .low => 0
    | .bestFit =>
      if (gartSize ≤ sizeBf ∧ sizeBf < sizeAf) ∨ sizeAf < gartSize then 0 else high
  ⟨maskDown gartStart fourGb, gartSize⟩

structure Agp where
  agpStart : Nat
  agpSize : Nat
  deriving DecidableEq

def amdgpuGmcAgpLocation (mc : Mc) (g : Gart) : Agp :=
  let sizes :=
    if g.gartStart < mc.fbStart then
      (sub64 (maskDown mc.fbStart sixteenGb) (align ((g.gartEnd + 1) % 2 ^ 64) sixteenGb),
        sub64 (mc.mcMask + 1) (align (mc.fbEnd + 1) sixteenGb))
    else
      (maskDown mc.fbStart sixteenGb,
        sub64 (maskDown g.gartStart sixteenGb) (align (mc.fbEnd + 1) sixteenGb))
  let sizeBf := sizes.1
  let sizeAf := sizes.2
  if sizeAf < sizeBf then ⟨maskDown (sub64 mc.fbStart sizeBf) sixteenGb, sizeBf⟩
  else ⟨align (mc.fbEnd + 1) sixteenGb, sizeAf⟩

/-! ## What the apertures should be -/

def Apart (start size start' size' : Nat) : Prop :=
  ∀ addr, start ≤ addr → addr < start + size → ¬ (start' ≤ addr ∧ addr < start' + size')

def Mc.fbSize (mc : Mc) : Nat := mc.fbEnd + 1 - mc.fbStart

/-- The GART starts on a boundary of 4 GiB, ends at the address limit or below, is no larger than
asked for and does not overlap the frame buffer. An empty GART overlaps nothing. -/
structure GartRight (mc : Mc) (g : Gart) : Prop where
  aligned : fourGb ∣ g.gartStart
  below : g.gartStart + g.gartSize ≤ mc.maxMcAddress + 1
  size_le : g.gartSize ≤ mc.gartSize
  apart : Apart g.gartStart g.gartSize mc.fbStart mc.fbSize

/-- The AGP aperture starts on a boundary of 16 GiB, lies in the address space (so its size is a
difference that has not wrapped) and overlaps neither the frame buffer nor the GART. -/
structure AgpRight (mc : Mc) (g : Gart) (agp : Agp) : Prop where
  aligned : sixteenGb ∣ agp.agpStart
  inside : agp.agpStart + agp.agpSize ≤ mc.mcMask + 1
  apartFb : Apart agp.agpStart agp.agpSize mc.fbStart mc.fbSize
  apartGart : Apart agp.agpStart agp.agpSize g.gartStart g.gartSize

/-- A GART of this size at the last boundary of 4 GiB that leaves room for it ends before the frame
buffer. -/
def Mc.EndsBefore (mc : Mc) (size : Nat) : Prop :=
  maskDown (mc.maxMcAddress + 1 - size) fourGb + size ≤ mc.fbStart

/-- When the GART has a place of its own. Where the frame buffer ends below the limit: always for
the best fit; at 0 when it fits before the frame buffer, or is cut to the hole there because that is
the larger one; at the top when it fits behind the frame buffer, or is cut to the hole there, or
ends before the frame buffer. Otherwise it has to fit before the frame buffer. -/
def GartCond (mc : Mc) (placement : GartPlacement) : Prop :=
  if mc.fbEnd ≤ mc.maxMcAddress then
    let behind := mc.maxMcAddress + 1 - alignUp (mc.fbEnd + 1) fourGb
    match placement with
    | .bestFit => True
    | .low => mc.gartSize ≤ mc.fbStart ∨ behind ≤ mc.fbStart
    | .high =>
      mc.gartSize ≤ behind ∨ mc.fbStart ≤ behind ∨ mc.EndsBefore (min mc.gartSize mc.fbStart)
  else
    mc.gartSize ≤ mc.maxMcAddress + 1 ∧
      match placement with
      | .high => mc.gartSize = 0 ∨ mc.EndsBefore mc.gartSize
      | _ => mc.gartSize ≤ mc.fbStart

/-- A boundary of 16 GiB lies between the GART and the frame buffer. -/
def AgpCond (mc : Mc) (g : Gart) : Prop :=
  if g.gartStart < mc.fbStart then alignUp (g.gartStart + g.gartSize) sixteenGb ≤ mc.fbStart
  else alignUp (mc.fbEnd + 1) sixteenGb ≤ g.gartStart

section
variable {mc : Mc} {g : Gart} {x y size : Nat}

theorem apart_iff {start start' size' : Nat} (hpos : 0 < size') :
    Apart start size start' size' ↔ size = 0 ∨ start + size ≤ start' ∨ start' + size' ≤ start := by
  constructor
  · intro h
    by_contra hno
    push Not at hno
    obtain ⟨hsize, hlt, hlt'⟩ := hno
    exact h (max start start') (by omega) (by omega) (by omega)
  · intro h addr hge hlt hmem
    omega

theorem Mc.fbSize_pos (mc : Mc) : 0 < mc.fbSize := by
  have hle := mc.fb_le
  unfold Mc.fbSize
  omega

theorem Mc.fb_end (mc : Mc) : mc.fbStart + mc.fbSize = mc.fbEnd + 1 := by
  have hle := mc.fb_le
  unfold Mc.fbSize
  omega

theorem Mc.space (mc : Mc) :
    ∃ n, mc.mcMask + 1 = n * sixteenGb ∧ 0 < n ∧ n ≤ 2 ^ 28 ∧ mc.fbEnd ≤ mc.mcMask := by
  obtain ⟨k, hk⟩ := Nat.exists_eq_add_of_le mc.addressBits_ge
  have hlt := mc.addressBits_lt
  have hmask : mc.mcMask + 1 = 2 ^ mc.addressBits :=
    Nat.sub_add_cancel (Nat.one_le_two_pow)
  refine ⟨2 ^ k, ?_, Nat.two_pow_pos k, Nat.pow_le_pow_right (by decide) (by omega), ?_⟩
  · rw [hmask, hk, Nat.pow_add, mul_comm]
    rfl
  · have hlast := mc.fbEnd_lt
    omega

theorem Mc.limit (mc : Mc) :
    ∃ n, mc.maxMcAddress + 1 = n * sixteenGb ∧ 0 < n ∧ n ≤ 2 ^ 13 ∧
      mc.maxMcAddress ≤ mc.mcMask := by
  obtain ⟨n, hspace, hpos, -⟩ := mc.space
  have hhole : gmcHoleStart = 2 ^ 13 * sixteenGb := by decide
  have hblock : 0 < sixteenGb := by decide
  unfold Mc.maxMcAddress
  rcases le_total n (2 ^ 13) with hle | hle
  · have hmul := Nat.mul_le_mul_right sixteenGb hle
    exact ⟨n, by omega, hpos, hle, by omega⟩
  · have hmul := Nat.mul_le_mul_right sixteenGb hle
    exact ⟨2 ^ 13, by omega, by decide, le_refl _, by omega⟩

theorem fourGb_eq : fourGb = 4294967296 := rfl

theorem sixteenGb_eq : sixteenGb = 17179869184 := rfl

/-- The size of the GART after the limit, with the holes before and behind the frame buffer. -/
def Mc.limited (mc : Mc) (behind : Nat) : Nat :=
  min mc.gartSize (max mc.fbStart behind)

theorem sub64_of_le (hle : y ≤ x) (hlt : x < 2 ^ 64) : sub64 x y = x - y := by
  unfold sub64
  omega

theorem align_eq (hlt : x + (y - 1) < 2 ^ 64) : align x y = alignUp x y := by
  unfold align maskDown
  rw [Nat.mod_eq_of_lt hlt]
  rfl

/-- Where the GART starts, of its size and the size of the hole behind the frame buffer. -/
def gartStartOf (mc : Mc) (placement : GartPlacement) (behind size : Nat) : Nat :=
  match placement with
  | .high => sub64 (mc.maxMcAddress + 1) size
  | .low => 0
  | .bestFit =>
    if (size ≤ mc.fbStart ∧ mc.fbStart < behind) ∨ behind < size then 0
    else sub64 (mc.maxMcAddress + 1) size

theorem gartLocation_eq (mc : Mc) (placement : GartPlacement) :
    let behind := sub64 (mc.maxMcAddress + 1) (align (mc.fbEnd + 1) fourGb)
    amdgpuGmcGartLocation mc placement =
      ⟨maskDown (gartStartOf mc placement behind (mc.limited behind)) fourGb,
        mc.limited behind⟩ := by
  intro behind
  have hsize : (if max mc.fbStart behind < mc.gartSize then max mc.fbStart behind
      else mc.gartSize) = mc.limited behind := by
    unfold Mc.limited
    split
    · omega
    · omega
  unfold amdgpuGmcGartLocation
  dsimp only
  rw [hsize]
  cases placement <;> rfl

theorem gartRight_zero (hsize : size ≤ mc.gartSize) :
    GartRight mc ⟨maskDown 0 fourGb, size⟩ ↔ size ≤ mc.maxMcAddress + 1 ∧ size ≤ mc.fbStart := by
  have hzero : maskDown 0 fourGb = 0 := rfl
  have hend := mc.fb_end
  rw [hzero]
  constructor
  · intro h
    have hbelow := h.below
    have hapart := (apart_iff mc.fbSize_pos).mp h.apart
    dsimp only at hbelow hapart
    omega
  · rintro ⟨hlimit, hle⟩
    refine ⟨Nat.dvd_zero _, ?_, hsize, (apart_iff mc.fbSize_pos).mpr (.inr (.inl ?_))⟩
    · dsimp only
      omega
    · dsimp only
      omega

theorem gartRight_high (hsize : size ≤ mc.gartSize) :
    GartRight mc ⟨maskDown (sub64 (mc.maxMcAddress + 1) size) fourGb, size⟩ ↔
      size ≤ mc.maxMcAddress + 1 ∧
        (size = 0 ∨ alignUp (mc.fbEnd + 1) fourGb + size ≤ mc.maxMcAddress + 1 ∨
          mc.EndsBefore size) := by
  obtain ⟨n, hn, -, hle, -⟩ := mc.limit
  have hend := mc.fb_end
  have hlt := mc.gartSize_lt
  have hpos : 0 < fourGb := by decide
  have hmul := Nat.mul_le_mul_right sixteenGb hle
  rw [← hn] at hmul
  change _ ≤ 140737488355328 at hmul
  by_cases hfit : size ≤ mc.maxMcAddress + 1
  · rw [sub64_of_le hfit (by omega)]
    have hbehind : mc.fbEnd + 1 ≤ maskDown (mc.maxMcAddress + 1 - size) fourGb ↔
        alignUp (mc.fbEnd + 1) fourGb + size ≤ mc.maxMcAddress + 1 := by
      rw [maskDown, ← alignUp_le hpos dvd_alignDown, le_alignDown hpos dvd_alignUp]
      omega
    have hdown : maskDown (mc.maxMcAddress + 1 - size) fourGb ≤ mc.maxMcAddress + 1 - size :=
      alignDown_le
    constructor
    · intro h
      have hapart := (apart_iff mc.fbSize_pos).mp h.apart
      dsimp only at hapart
      rw [hend, hbehind] at hapart
      exact ⟨hfit, hapart.imp_right Or.symm⟩
    · rintro ⟨-, hroom⟩
      refine ⟨dvd_alignDown, ?_, hsize, (apart_iff mc.fbSize_pos).mpr ?_⟩
      · dsimp only
        omega
      · dsimp only
        rw [hend, hbehind]
        exact hroom.imp_right Or.symm
  · -- The difference wraps, so the GART starts far behind the limit.
    refine iff_of_false (fun h => ?_) fun h => hfit h.1
    have hbelow := h.below
    have hup := @lt_alignDown_add (sub64 (mc.maxMcAddress + 1) size) fourGb hpos
    dsimp only at hbelow
    unfold maskDown at hbelow
    have hwrap : sub64 (mc.maxMcAddress + 1) size = mc.maxMcAddress + 1 + 2 ^ 64 - size :=
      Nat.mod_eq_of_lt (by omega)
    rw [hwrap] at hup hbelow
    rw [fourGb_eq] at hup hbelow
    omega

theorem Mc.EndsBefore.le (h : mc.EndsBefore size) : size ≤ mc.fbStart :=
  le_trans (Nat.le_add_left ..) h

theorem Mc.limit_lt (mc : Mc) : mc.maxMcAddress < 2 ^ 47 := by
  have hle := min_le_right mc.mcMask (gmcHoleStart - 1)
  change mc.maxMcAddress ≤ 2 ^ 47 - 1 at hle
  omega

theorem Mc.fbEnd_succ_lt (mc : Mc) : mc.fbEnd + 1 ≤ 2 ^ 63 := by
  have hlast := mc.fbEnd_lt
  have hbits := mc.addressBits_lt
  have hpow : 2 ^ mc.addressBits ≤ 2 ^ 63 := Nat.pow_le_pow_right (by decide) (by omega)
  omega

theorem behind_of_le (h : mc.fbEnd ≤ mc.maxMcAddress) :
    alignUp (mc.fbEnd + 1) fourGb ≤ mc.maxMcAddress + 1 ∧
      sub64 (mc.maxMcAddress + 1) (align (mc.fbEnd + 1) fourGb) =
        mc.maxMcAddress + 1 - alignUp (mc.fbEnd + 1) fourGb := by
  obtain ⟨n, hn, -⟩ := mc.limit
  have hlt := mc.limit_lt
  have hdvd : fourGb ∣ mc.maxMcAddress + 1 := by
    rw [hn]
    exact Nat.dvd_trans (by decide) (Nat.dvd_mul_left sixteenGb n)
  have hle : alignUp (mc.fbEnd + 1) fourGb ≤ mc.maxMcAddress + 1 :=
    (alignUp_le (by decide) hdvd).mpr (Nat.succ_le_succ h)
  refine ⟨hle, ?_⟩
  rw [align_eq, sub64_of_le hle (by omega)]
  rw [fourGb_eq]
  omega

/-- Where the frame buffer reaches over the limit, the size of the hole wraps. -/
theorem behind_of_lt (h : mc.maxMcAddress < mc.fbEnd) :
    mc.maxMcAddress + 1 < alignUp (mc.fbEnd + 1) fourGb ∧
      2 ^ 63 ≤ sub64 (mc.maxMcAddress + 1) (align (mc.fbEnd + 1) fourGb) := by
  have hle := mc.fbEnd_succ_lt
  have hge : mc.fbEnd + 1 ≤ alignUp (mc.fbEnd + 1) fourGb := le_alignUp (by decide)
  have hup : alignUp (mc.fbEnd + 1) fourGb ≤ 2 ^ 63 := (alignUp_le (by decide) (by decide)).mpr hle
  refine ⟨by omega, ?_⟩
  rw [align_eq]
  · unfold sub64
    omega
  · rw [fourGb_eq]
    omega

theorem gartRight_iff (mc : Mc) (placement : GartPlacement) :
    GartRight mc (amdgpuGmcGartLocation mc placement) ↔ GartCond mc placement := by
  rw [gartLocation_eq]
  unfold GartCond
  split
  · next hfb =>
    obtain ⟨hroom, hbehind⟩ := behind_of_le hfb
    rw [hbehind]
    generalize hb : mc.maxMcAddress + 1 - alignUp (mc.fbEnd + 1) fourGb = behind
    have hstart := mc.fb_le
    have hsize : mc.limited behind ≤ mc.gartSize := min_le_left ..
    have hmax : mc.limited behind ≤ max mc.fbStart behind := min_le_right ..
    have hfit : alignUp (mc.fbEnd + 1) fourGb + mc.limited behind ≤ mc.maxMcAddress + 1 ↔
        mc.limited behind ≤ behind := by omega
    have hlimit : mc.limited behind ≤ mc.maxMcAddress + 1 := by omega
    cases placement with
    | low =>
      rw [gartStartOf, gartRight_zero hsize, and_iff_right hlimit]
      unfold Mc.limited
      omega
    | high =>
      rw [gartStartOf, gartRight_high hsize, hfit, and_iff_right hlimit]
      by_cases hsmall : mc.gartSize ≤ behind ∨ mc.fbStart ≤ behind
      · refine iff_of_true (.inr (.inl ?_)) (hsmall.elim .inl fun hle => .inr (.inl hle))
        unfold Mc.limited
        omega
      · rw [not_or] at hsmall
        have heq : mc.limited behind = min mc.gartSize mc.fbStart := by
          unfold Mc.limited
          omega
        have hsome : ¬ min mc.gartSize mc.fbStart = 0 := by omega
        have hlarge : ¬ min mc.gartSize mc.fbStart ≤ behind := by omega
        simp only [heq, hsome, hlarge, hsmall.1, hsmall.2, false_or]
    | bestFit =>
      refine iff_of_true ?_ trivial
      rw [gartStartOf]
      split
      · next hzero =>
        rw [gartRight_zero hsize, and_iff_right hlimit]
        omega
      · next hhigh =>
        rw [gartRight_high hsize, hfit, and_iff_right hlimit]
        omega
  · next hfb =>
    obtain ⟨hover, hwrap⟩ := behind_of_lt (not_le.mp hfb)
    generalize sub64 (mc.maxMcAddress + 1) (align (mc.fbEnd + 1) fourGb) = behind at hwrap ⊢
    have hlt := mc.limit_lt
    have hlast := mc.fbEnd_succ_lt
    have hstart := mc.fb_le
    have hsize : mc.limited behind ≤ mc.gartSize := min_le_left ..
    have hfit : mc.limited behind ≤ mc.maxMcAddress + 1 ↔ mc.gartSize ≤ mc.maxMcAddress + 1 := by
      unfold Mc.limited
      omega
    have heq : mc.gartSize ≤ mc.maxMcAddress + 1 → mc.limited behind = mc.gartSize := by
      unfold Mc.limited
      omega
    have hno : ¬ alignUp (mc.fbEnd + 1) fourGb + mc.limited behind ≤ mc.maxMcAddress + 1 := by
      omega
    cases placement with
    | low =>
      rw [gartStartOf, gartRight_zero hsize, hfit]
      exact and_congr_right fun hle => by rw [heq hle]
    | high =>
      rw [gartStartOf, gartRight_high hsize, hfit, or_iff_right hno]
      exact and_congr_right fun hle => by rw [heq hle]
    | bestFit =>
      rw [gartStartOf]
      split
      · next hzero =>
        rw [gartRight_zero hsize, hfit]
        exact and_congr_right fun hle => by rw [heq hle]
      · next hhigh =>
        rw [gartRight_high hsize, hfit, or_iff_right hno]
        refine and_congr_right fun hle => ?_
        rw [heq hle] at hhigh ⊢
        refine iff_of_false (fun hends => ?_) (by omega)
        rcases hends with hzero | hends
        · omega
        · have hle := hends.le
          omega

/-! ## The AGP aperture -/

theorem sub64_of_lt (hlt : x < y) (hy : y < 2 ^ 64) : sub64 x y = x + 2 ^ 64 - y := by
  unfold sub64
  omega

theorem agpLocation_eq (sizeBf sizeAf : Nat)
    (h : (if g.gartStart < mc.fbStart then
      (sub64 (maskDown mc.fbStart sixteenGb) (align ((g.gartEnd + 1) % 2 ^ 64) sixteenGb),
        sub64 (mc.mcMask + 1) (align (mc.fbEnd + 1) sixteenGb))
      else
        (maskDown mc.fbStart sixteenGb,
          sub64 (maskDown g.gartStart sixteenGb) (align (mc.fbEnd + 1) sixteenGb))) =
      (sizeBf, sizeAf)) :
    amdgpuGmcAgpLocation mc g =
      if sizeAf < sizeBf then ⟨maskDown (sub64 mc.fbStart sizeBf) sixteenGb, sizeBf⟩
      else ⟨align (mc.fbEnd + 1) sixteenGb, sizeAf⟩ := by
  unfold amdgpuGmcAgpLocation
  rw [h]

theorem agpRight_before (hfb : x + size ≤ mc.fbStart) (hx : sixteenGb ∣ x)
    (hgart : g.gartStart + g.gartSize ≤ x ∨ mc.fbStart ≤ g.gartStart) :
    AgpRight mc g ⟨x, size⟩ := by
  obtain ⟨-, -, -, -, hlast⟩ := mc.space
  have hle := mc.fb_le
  refine ⟨hx, ?_, ?_, ?_⟩
  · dsimp only
    omega
  · exact fun addr hge hlt hmem => by dsimp only at hge hlt; omega
  · exact fun addr hge hlt hmem => by dsimp only at hge hlt; omega

theorem agpRight_behind (hfb : mc.fbEnd + 1 ≤ x) (hx : sixteenGb ∣ x)
    (hinside : x + size ≤ mc.mcMask + 1)
    (hgart : g.gartStart + g.gartSize ≤ x ∨ x + size ≤ g.gartStart) :
    AgpRight mc g ⟨x, size⟩ := by
  have hend := mc.fb_end
  refine ⟨hx, hinside, ?_, ?_⟩
  · exact fun addr hge hlt hmem => by dsimp only at hge hlt; omega
  · exact fun addr hge hlt hmem => by dsimp only at hge hlt; omega

theorem gartEnd_succ (h : g.gartStart + g.gartSize < 2 ^ 64) :
    (g.gartEnd + 1) % 2 ^ 64 = g.gartStart + g.gartSize := by
  unfold Gart.gartEnd sub64
  omega

theorem agpRight_iff (h : GartRight mc g) :
    AgpRight mc g (amdgpuGmcAgpLocation mc g) ↔ AgpCond mc g := by
  obtain ⟨n, hn, -, hle, hlast⟩ := mc.space
  have hblock : 0 < sixteenGb := by decide
  have hdvd : sixteenGb ∣ mc.mcMask + 1 := hn ▸ Nat.dvd_mul_left ..
  have hspace : mc.mcMask + 1 ≤ 2 ^ 62 := by
    rw [hn]
    exact Nat.mul_le_mul_right sixteenGb hle
  have hlimit : g.gartStart + g.gartSize ≤ mc.mcMask + 1 := by
    obtain ⟨-, -, -, -, hlimit⟩ := mc.limit
    exact le_trans h.below (Nat.succ_le_succ hlimit)
  have hfb := mc.fb_le
  have hdown : maskDown mc.fbStart sixteenGb ≤ mc.fbStart := alignDown_le
  -- The first address behind the frame buffer that is aligned.
  have halign : align (mc.fbEnd + 1) sixteenGb = alignUp (mc.fbEnd + 1) sixteenGb :=
    align_eq (by rw [sixteenGb_eq]; omega)
  have hbehind : alignUp (mc.fbEnd + 1) sixteenGb ≤ mc.mcMask + 1 :=
    (alignUp_le hblock hdvd).mpr (Nat.succ_le_succ hlast)
  have hafter : mc.fbEnd + 1 ≤ alignUp (mc.fbEnd + 1) sixteenGb := le_alignUp hblock
  unfold AgpCond
  by_cases hbefore : g.gartStart < mc.fbStart
  · have haf : sub64 (mc.mcMask + 1) (align (mc.fbEnd + 1) sixteenGb) =
        mc.mcMask + 1 - alignUp (mc.fbEnd + 1) sixteenGb := by
      rw [halign, sub64_of_le hbehind (by omega)]
    have hgart : align ((g.gartEnd + 1) % 2 ^ 64) sixteenGb =
        alignUp (g.gartStart + g.gartSize) sixteenGb := by
      rw [gartEnd_succ (by omega)]
      exact align_eq (by rw [sixteenGb_eq]; omega)
    have hgartLe : alignUp (g.gartStart + g.gartSize) sixteenGb ≤ mc.mcMask + 1 :=
      (alignUp_le hblock hdvd).mpr hlimit
    have hover : g.gartStart + g.gartSize ≤ alignUp (g.gartStart + g.gartSize) sixteenGb :=
      le_alignUp hblock
    rw [if_pos hbefore, agpLocation_eq _ _ (if_pos hbefore), haf, hgart]
    by_cases hcond : alignUp (g.gartStart + g.gartSize) sixteenGb ≤ mc.fbStart
    · have hmask : alignUp (g.gartStart + g.gartSize) sixteenGb ≤ maskDown mc.fbStart sixteenGb :=
        (le_alignDown hblock dvd_alignUp).mpr hcond
      rw [sub64_of_le hmask (by omega)]
      refine iff_of_true ?_ hcond
      split
      · have hup := @lt_alignDown_add mc.fbStart sixteenGb hblock
        have hstart : maskDown (sub64 mc.fbStart (maskDown mc.fbStart sixteenGb -
            alignUp (g.gartStart + g.gartSize) sixteenGb)) sixteenGb =
            alignUp (g.gartStart + g.gartSize) sixteenGb := by
          rw [sub64_of_le (by omega) (by omega)]
          refine alignDown_unique dvd_alignUp (by omega) ?_
          unfold maskDown at hmask ⊢
          omega
        rw [hstart]
        exact agpRight_before (by omega) dvd_alignUp (.inl hover)
      · rw [halign]
        exact agpRight_behind hafter dvd_alignUp (by omega) (.inl (by omega))
    · -- The size of the hole before the frame buffer wraps, and is the larger one.
      rw [sub64_of_lt (by omega) (by omega), if_pos (by omega)]
      refine iff_of_false (fun hright => ?_) hcond
      have hinside := hright.inside
      dsimp only at hinside
      omega
  · rw [if_neg hbefore, agpLocation_eq _ _ (if_neg hbefore), halign]
    have hgartDown : maskDown g.gartStart sixteenGb ≤ g.gartStart := alignDown_le
    by_cases hcond : alignUp (mc.fbEnd + 1) sixteenGb ≤ g.gartStart
    · have hmask : alignUp (mc.fbEnd + 1) sixteenGb ≤ maskDown g.gartStart sixteenGb :=
        (le_alignDown hblock dvd_alignUp).mpr hcond
      rw [sub64_of_le hmask (by omega)]
      refine iff_of_true ?_ hcond
      split
      · have hstart :
            maskDown (sub64 mc.fbStart (maskDown mc.fbStart sixteenGb)) sixteenGb = 0 := by
          have hup := @lt_alignDown_add mc.fbStart sixteenGb hblock
          rw [sub64_of_le hdown (by omega)]
          refine alignDown_unique (Nat.dvd_zero _) (Nat.zero_le _) ?_
          unfold maskDown
          omega
        rw [hstart]
        exact agpRight_before (by omega) (Nat.dvd_zero _) (.inr (not_lt.mp hbefore))
      · exact agpRight_behind hafter dvd_alignUp (by omega) (.inr (by omega))
    · -- The size of the hole behind it wraps.
      rw [sub64_of_lt (by omega) (by omega), if_neg (by omega)]
      refine iff_of_false (fun hright => ?_) hcond
      have hinside := hright.inside
      dsimp only at hinside
      omega

end

/-- The GART is right exactly under its condition, and for every GART that is right the AGP aperture
exactly when a boundary of 16 GiB lies between the GART and the frame buffer. -/
theorem locations_right_iff (mc : Mc) (placement : GartPlacement) :
    (GartRight mc (amdgpuGmcGartLocation mc placement) ↔ GartCond mc placement) ∧
      ∀ g, GartRight mc g → (AgpRight mc g (amdgpuGmcAgpLocation mc g) ↔ AgpCond mc g) :=
  ⟨gartRight_iff mc placement, fun _ h => agpRight_iff h⟩

/-- 40 bits, with a frame buffer of 8 GiB at this address and a GART of 512 MiB. -/
def exMc (fbStart : Nat) (h : fbStart + 0x200000000 ≤ 2 ^ 40) : Mc :=
  { addressBits := 40
    fbStart := fbStart
    fbEnd := fbStart + 0x1ffffffff
    gartSize := 0x20000000
    addressBits_ge := by decide
    addressBits_lt := by decide
    fb_le := Nat.le_add_right ..
    fbEnd_lt := by omega
    gartSize_lt := by decide }

/-- A GART at 0 and a frame buffer at 32 GiB, with the AGP aperture behind it. -/
theorem locations_right_at32 :
    GartRight (exMc 0x800000000 (by decide)) ⟨0, 0x20000000⟩ ∧
      AgpRight (exMc 0x800000000 (by decide)) ⟨0, 0x20000000⟩ ⟨0xc00000000, 0xf400000000⟩ := by
  obtain ⟨hgart, hagp⟩ := locations_right_iff (exMc 0x800000000 (by decide)) .bestFit
  have hright := hgart.mpr trivial
  exact ⟨hright, (hagp _ hright).mpr (by decide : _ ≤ _)⟩

/-- At the top the GART overlaps a frame buffer in the last 8 GiB. With the best fit and a frame
buffer at 8 GiB, the size of the hole between them wraps, and the AGP aperture is larger than the
address space. -/
theorem locations_wrong :
    ¬ GartRight (exMc 0xfe00000000 (by decide))
      (amdgpuGmcGartLocation (exMc 0xfe00000000 (by decide)) .high) ∧
    ¬ AgpRight (exMc 0x200000000 (by decide))
      (amdgpuGmcGartLocation (exMc 0x200000000 (by decide)) .bestFit)
      (amdgpuGmcAgpLocation (exMc 0x200000000 (by decide))
        (amdgpuGmcGartLocation (exMc 0x200000000 (by decide)) .bestFit)) := by
  constructor
  · intro h
    exact h.apart 0xff00000000 (by decide) (by decide) (by decide)
  · intro h
    exact absurd h.inside (by decide)

end Amdkfd.GmcLocation
