import Amdkfd.Gpuvm.MemLimit
import Mathlib.Data.Int.Cast.Lemmas

/-!
# The accounts of the KFD memory limits

The counters are the sums over the live BOs of what their allocation types are charged. An
allocation that fails after its BO is created and before the BO is linked to its `kgd_mem` gives
back nothing.
-/

namespace Amdkfd.MemLimit

open Lib List Option

/-! ## Charges -/

theorem bump_eq (f : Nat → Nat → Int) (d x : Nat) (n : Int) :
    bump f d x n = f + charge d (some x) n := by
  funext d' x'
  show _ = f d' x' + charge d (some x) n d' x'
  by_cases h : d' = d ∧ x' = x
  · obtain ⟨rfl, rfl⟩ := h
    simp [bump, charge]
  · have h' : ¬ (d' = d ∧ some x = some x') := fun hc => h ⟨hc.1, (some.inj hc.2).symm⟩
    simp only [bump, charge, if_neg h, if_neg h', add_zero]

theorem charge_zero (d : Nat) (xcp : Option Nat) : charge d xcp 0 = 0 := by
  funext d' x
  simp [charge]

theorem charge_neg (d : Nat) (xcp : Option Nat) (n : Int) :
    charge d xcp (-n) = -charge d xcp n := by
  funext d' x
  show _ = -charge d xcp n d' x
  unfold charge
  split <;> simp

theorem charge_inj {d : Nat} {n : Int} (hn : n ≠ 0) {x y : Nat} :
    charge d (some x) n = charge d (some y) n ↔ x = y := by
  constructor
  · intro h
    have hx := congrFun (congrFun h d) x
    by_contra hne
    have hne' : ¬ (some y = some x) := fun he => hne (some.inj he).symm
    simp only [charge, hne', and_false, if_false, true_and, if_true] at hx
    exact hn hx
  · exact fun h => h ▸ rfl

theorem align_align (x : Nat) : align (align x pageSize) pageSize = align x pageSize := by
  simp only [align, pageSize]
  omega

def HasPartition (flags : Flags) (xcp : Option Nat) : Prop :=
  flags.gtt = false → flags.vram = true → xcp ≠ none

/-- What is booked for the needs `n`. -/
def Needed.charge (n : Needed) (dev : Dev) (xcp : Option Nat) : Used :=
  (n.system, n.ttm, MemLimit.charge dev.num xcp n.vram,
    MemLimit.charge dev.num xcp
      (if dev.apu then n.vram else align n.vram vramAvailabilityAlign : Nat))

theorem charge_none (d : Nat) (n : Int) : charge d none n = 0 := by
  funext d' x
  simp [charge]

variable {flags : Flags} {xcp : Option Nat} {a : Args} {s : State} {b : Bo}

theorem needed_charge {dev : Dev} {size : Nat} {l : Limits} {n : Needed}
    (h : needed dev size flags xcp l = .ok n) :
    n.charge dev xcp = contribution dev size flags xcp := by
  have hzero : align 0 vramAvailabilityAlign = 0 := by decide
  have hnone : ∀ m : Nat, (⟨m, 0, 0, 0⟩ : Needed).charge dev xcp =
      ((m : Int), (0 : Int), (0 : Nat → Nat → Int), (0 : Nat → Nat → Int)) := by
    intro m
    simp only [Needed.charge, hzero, ite_self, Nat.cast_zero, charge_zero]
  unfold needed at h
  unfold contribution
  by_cases hg : flags.gtt = true
  · rw [if_pos hg] at h ⊢
    obtain rfl := Except.ok.inj h
    simp only [Needed.charge, hzero, ite_self, Nat.cast_zero, charge_zero]
  · rw [if_neg hg] at h ⊢
    by_cases hv : flags.vram = true
    · rw [if_pos hv] at h ⊢
      cases xcp with
      | none => cases h
      | some x =>
        by_cases ha : dev.apu = true
        · simp only [if_pos ha] at h ⊢
          obtain rfl := Except.ok.inj h
          simp only [Needed.charge, if_pos ha]
        · simp only [if_neg ha] at h ⊢
          obtain rfl := Except.ok.inj h
          simp only [Needed.charge, if_neg ha, Nat.cast_zero]
    · rw [if_neg hv] at h ⊢
      by_cases hu : flags.userptr = true
      · rw [if_pos hu] at h ⊢
        obtain rfl := Except.ok.inj h
        exact hnone size
      · rw [if_neg hu] at h ⊢
        split at h
        · cases h
        · obtain rfl := Except.ok.inj h
          exact hnone 0

theorem reserveMemLimit_used {s s' : State} {dev : Dev} {size : Nat} {l : Limits}
    (h : reserveMemLimit s dev size flags xcp l = .ok s') :
    s'.used = s.used + contribution dev size flags xcp ∧ s'.live = s.live ∧ s'.lost = s.lost ∧
      s'.next = s.next := by
  unfold reserveMemLimit at h
  split at h
  · cases h
  case h_2 n hn =>
    rw [← needed_charge hn]
    split at h
    · cases h
    · obtain rfl := Except.ok.inj h
      cases xcp with
      | none =>
        refine ⟨?_, rfl, rfl, rfl⟩
        simp only [Needed.charge, charge_none]
        simp only [State.used, Prod.mk_add_mk, add_zero]
      | some x =>
        refine ⟨?_, rfl, rfl, rfl⟩
        simp only [Needed.charge, ← bump_eq, State.used, Prod.mk_add_mk]

theorem unreserveMemLimit_used (s : State) (dev : Dev) (size : Nat) (h : HasPartition flags xcp) :
    (unreserveMemLimit s dev size flags xcp).used = s.used - contribution dev size flags xcp := by
  unfold unreserveMemLimit contribution
  by_cases hg : flags.gtt = true
  · simp only [if_pos hg, State.used, Prod.mk_sub_mk, sub_zero]
  · rw [if_neg hg, if_neg hg]
    by_cases hv : flags.vram = true
    · rw [if_pos hv, if_pos hv]
      cases xcp with
      | none => exact absurd rfl (h (Bool.eq_false_iff.mpr hg) hv)
      | some x =>
        by_cases ha : dev.apu = true
        · simp only [if_pos ha, State.used, Prod.mk_sub_mk, bump_eq, charge_neg, ← sub_eq_add_neg]
        · simp only [if_neg ha, State.used, Prod.mk_sub_mk, bump_eq, charge_neg, ← sub_eq_add_neg,
            sub_zero]
    · rw [if_neg hv, if_neg hv]
      by_cases hu : flags.userptr = true
      · simp only [if_pos hu, State.used, Prod.mk_sub_mk, sub_zero]
      · rw [if_neg hu, if_neg hu, sub_zero]

theorem unreserveMemLimit_fixed (s : State) (dev : Dev) (size : Nat) (flags : Flags)
    (xcp : Option Nat) : (unreserveMemLimit s dev size flags xcp).live = s.live ∧
      (unreserveMemLimit s dev size flags xcp).lost = s.lost ∧
      (unreserveMemLimit s dev size flags xcp).next = s.next := by
  unfold unreserveMemLimit
  split
  · exact ⟨rfl, rfl, rfl⟩
  · split
    · split
      · exact ⟨rfl, rfl, rfl⟩
      · dsimp only
        split <;> exact ⟨rfl, rfl, rfl⟩
    · split <;> exact ⟨rfl, rfl, rfl⟩

theorem contribution_inj {dev : Dev} {size : Nat} {x y : Option Nat} (hx : HasPartition flags x)
    (hy : HasPartition flags y) :
    contribution dev size flags x = contribution dev size flags y ↔
      (flags.gtt = false → flags.vram = true → size ≠ 0 → x = y) := by
  constructor
  · intro h hg hv hs
    obtain ⟨a, rfl⟩ := ne_none_iff_exists'.mp (hx hg hv)
    obtain ⟨b, rfl⟩ := ne_none_iff_exists'.mp (hy hg hv)
    have hcharge : charge dev.num (some a) size = charge dev.num (some b) size := by
      have h3 := congrArg (fun u : Used => u.2.2.1) h
      simp only [contribution, hg, hv, Bool.false_eq_true, if_false, if_true] at h3
      split at h3 <;> exact h3
    rw [(charge_inj (Int.natCast_ne_zero.mpr hs)).mp hcharge]
  · intro h
    by_cases hg : flags.gtt = true
    · simp only [contribution, if_pos hg]
    · by_cases hv : flags.vram = true
      · by_cases hs : size = 0
        · have hzero : align 0 vramAvailabilityAlign = 0 := by decide
          simp only [contribution, hs, hzero, Nat.cast_zero, charge_zero]
        · rw [h (Bool.eq_false_iff.mpr hg) hv hs]
      · simp only [contribution, if_neg hg, if_neg hv]

/-! ## The invariant -/

/-- The accounts are right, and those of VRAM are of a partition. -/
structure Inv (s : State) : Prop where
  accounted : Accounted s
  reserved : ∀ b ∈ s.live, HasPartition b.mem.allocFlags b.reservedXcp
  released : ∀ b ∈ s.live, HasPartition b.mem.allocFlags b.xcpId

theorem inv_init : Inv init := by
  refine ⟨⟨?_, rfl⟩, fun b hb => absurd hb not_mem_nil, fun b hb => absurd hb not_mem_nil⟩
  rw [show init.live = [] from rfl, map_nil, sum_nil]
  rfl

theorem place_hasPartition {domain : Domain} (h : place a = .ok (domain, xcp)) :
    HasPartition a.flags xcp := by
  intro _ hv
  rw [place, if_pos hv] at h
  have hx := (Prod.mk.inj (Except.ok.inj h)).2
  rw [← hx]
  exact some_ne_none _

theorem bo_hasPartition {id : Nat} {domain : Domain} (h : HasPartition a.flags xcp) :
    HasPartition a.flags (a.bo id domain xcp).xcpId := by
  intro hg hv
  show (if a.dev.memPartitions then xcp else some 0) ≠ none
  split
  · exact h hg hv
  · exact some_ne_none 0

theorem releaseNotify_used (h : HasPartition b.mem.allocFlags b.xcpId) :
    (releaseNotify s b).used =
      s.used - MemLimit.contribution b.dev b.size b.mem.allocFlags b.xcpId :=
  unreserveMemLimit_used s b.dev b.size h

theorem samePartition_iff (hr : HasPartition b.mem.allocFlags b.reservedXcp)
    (hx : HasPartition b.mem.allocFlags b.xcpId) :
    MemLimit.contribution b.dev b.size b.mem.allocFlags b.xcpId = b.contribution ↔
      b.SamePartition :=
  contribution_inj hx hr

theorem sum_erase (hb : b ∈ s.live) :
    (s.live.map Bo.contribution).sum =
      b.contribution + ((s.live.erase b).map Bo.contribution).sum := by
  rw [((perm_cons_erase hb).map _).sum_eq, map_cons, sum_cons]

/-! ## Allocation -/

theorem allocMemoryOfGpu_of_creates {s s1 : State} {domain : Domain}
    (hp : place a = .ok (domain, xcp)) (hk : a.kzalloc = true)
    (hr : reserveMemLimit s a.dev (alignedSize a) a.flags xcp a.limits = .ok s1)
    (hc : a.gemObjectCreate = none) : allocMemoryOfGpu s a =
      match a.vmaNodeAllow, a.gemHandleCreate, a.prepare with
      | some e, _, _ => ({ s1 with lost := a.mem s.next :: s1.lost }, .error e)
      | none, some e, _ => ({ s1 with lost := a.mem s.next :: s1.lost }, .error e)
      | none, none, some e => (releaseNotify s1 (a.bo s.next domain xcp), .error e)
      | none, none, none =>
        ({ s1 with live := a.bo s.next domain xcp :: s1.live, next := s.next + 1 },
          .ok s.next) := by
  have hn := (reserveMemLimit_used hr).2.2.2
  simp only [allocMemoryOfGpu, hp, hk, hr, hc, not_true_eq_false, if_false, hn]
  rcases a.vmaNodeAllow with _ | e
  · rcases a.gemHandleCreate with _ | e
    · rcases a.prepare with _ | e <;> rfl
    · rfl
  · rfl

theorem allocMemoryOfGpu_of_not_creates (h : ¬ Creates s a) :
    (allocMemoryOfGpu s a).1.used = s.used ∧ (allocMemoryOfGpu s a).1.live = s.live ∧
      (allocMemoryOfGpu s a).1.lost = s.lost := by
  unfold allocMemoryOfGpu
  split
  · exact ⟨rfl, rfl, rfl⟩
  case h_2 domain xcp hp =>
    split
    · exact ⟨rfl, rfl, rfl⟩
    case isFalse hk =>
      dsimp only
      split
      · exact ⟨rfl, rfl, rfl⟩
      case h_2 s1 hr =>
        split
        case h_1 e hc =>
          obtain ⟨hu, hl, ho, -⟩ := reserveMemLimit_used hr
          obtain ⟨hl', ho', -⟩ := unreserveMemLimit_fixed s1 a.dev (alignedSize a) a.flags xcp
          refine ⟨?_, hl'.trans hl, ho'.trans ho⟩
          rw [unreserveMemLimit_used _ _ _ (place_hasPartition hp), hu, add_sub_cancel_right]
        case h_2 hc => exact absurd ⟨domain, xcp, s1, hp, not_not.mp hk, hr, hc⟩ h

theorem bo_contribution (a : Args) (id : Nat) (domain : Domain) (xcp : Option Nat) :
    (a.bo id domain xcp).contribution = contribution a.dev (alignedSize a) a.flags xcp := by
  show contribution a.dev (align (alignedSize a) pageSize) a.flags xcp = _
  rw [alignedSize, align_align]

theorem alloc_right_iff (h : Inv s) (a : Args) :
    StepRight s (.alloc a) ↔ (Creates s a → a.vmaNodeAllow = none ∧ a.gemHandleCreate = none ∧
      (a.prepare ≠ none → ∀ domain xcp, place a = .ok (domain, xcp) →
        (a.bo s.next domain xcp).SamePartition)) := by
  obtain ⟨⟨hused, hlost⟩, -, -⟩ := h
  by_cases hc : Creates s a
  · simp only [hc, true_imp_iff]
    obtain ⟨domain, xcp, s1, hp, hk, hr, hcr⟩ := hc
    obtain ⟨hu, hl, ho, -⟩ := reserveMemLimit_used hr
    have halloc := allocMemoryOfGpu_of_creates hp hk hr hcr
    have hpart := place_hasPartition hp
    have hsame : ∀ domain' xcp', place a = .ok (domain', xcp') → domain' = domain ∧ xcp' = xcp := by
      intro domain' xcp' hp'
      exact Prod.mk.inj (Except.ok.inj (hp'.symm.trans hp))
    simp only [StepRight, step, Fails, halloc]
    rcases hv : a.vmaNodeAllow with _ | e
    · rcases hg : a.gemHandleCreate with _ | e
      · rcases hpr : a.prepare with _ | e
        · -- the allocation succeeds
          refine iff_of_true ⟨⟨?_, ho.trans hlost⟩, ?_⟩ ⟨rfl, rfl, fun hne => absurd rfl hne⟩
          · show s1.used = _
            rw [hu, hused, map_cons, sum_cons, bo_contribution, hl, add_comm]
          · rintro ⟨e, he⟩
            cases he
        · -- it fails, and the BO is released
          have hbo := @bo_hasPartition xcp a s.next domain hpart
          have hrel : (releaseNotify s1 (a.bo s.next domain xcp)).used = s.used +
              ((a.bo s.next domain xcp).contribution - contribution a.dev
                (a.bo s.next domain xcp).size a.flags (a.bo s.next domain xcp).xcpId) := by
            rw [releaseNotify_used hbo, hu, ← bo_contribution a s.next domain xcp, add_sub_assoc]
            rfl
          obtain ⟨hl', ho', -⟩ := unreserveMemLimit_fixed s1 a.dev
            (a.bo s.next domain xcp).size a.flags (a.bo s.next domain xcp).xcpId
          have hiff : (releaseNotify s1 (a.bo s.next domain xcp)).used = s.used ↔
              (a.bo s.next domain xcp).SamePartition := by
            rw [hrel, add_eq_left, sub_eq_zero, eq_comm]
            exact @samePartition_iff (a.bo s.next domain xcp) hpart hbo
          constructor
          · rintro ⟨⟨hacc, -⟩, -⟩
            refine ⟨rfl, rfl, fun _ domain' xcp' hp' => ?_⟩
            obtain ⟨rfl, rfl⟩ := hsame _ _ hp'
            refine hiff.mp ?_
            rw [hacc, hused]
            show ((releaseNotify s1 _).live.map _).sum = _
            rw [show (releaseNotify s1 (a.bo s.next domain' xcp')).live = s.live from hl'.trans hl]
          · rintro ⟨-, -, hall⟩
            have hkeep := hiff.mpr (hall (some_ne_none e) domain xcp hp)
            refine ⟨⟨?_, (ho'.trans ho).trans hlost⟩, fun _ => hkeep⟩
            show (releaseNotify s1 _).used = ((releaseNotify s1 _).live.map _).sum
            rw [hkeep, hused,
              show (releaseNotify s1 (a.bo s.next domain xcp)).live = s.live from hl'.trans hl]
      · exact iff_of_false (fun hs => nomatch hs.1.lost) (fun hs => nomatch hs.2.1)
    · exact iff_of_false (fun hs => nomatch hs.1.lost) (fun hs => nomatch hs.1)
  · obtain ⟨hu, hl, ho⟩ := allocMemoryOfGpu_of_not_creates hc
    refine iff_of_true ⟨⟨?_, ho.trans hlost⟩, fun _ => hu⟩ fun hcr => absurd hcr hc
    show (allocMemoryOfGpu s a).1.used = ((allocMemoryOfGpu s a).1.live.map _).sum
    rw [hu, hl, hused]

/-! ## Releasing -/

theorem putBo_live (s : State) (b : Bo) (n : Nat) (freed : Bool) :
    (putBo s b n freed).live =
      if b.refs ≤ n then s.live.erase b
      else { b with refs := b.refs - n, freed := freed } :: s.live.erase b := by
  unfold putBo
  dsimp only
  split
  · exact (unreserveMemLimit_fixed _ b.dev b.size b.mem.allocFlags b.xcpId).1
  · rfl

theorem putBo_lost (s : State) (b : Bo) (n : Nat) (freed : Bool) :
    (putBo s b n freed).lost = s.lost := by
  unfold putBo
  dsimp only
  split
  · exact (unreserveMemLimit_fixed _ b.dev b.size b.mem.allocFlags b.xcpId).2.1
  · rfl

theorem inv_putBo_of_lt (h : Inv s) (hb : b ∈ s.live) {n : Nat} (hn : n < b.refs) (freed : Bool) :
    Inv (putBo s b n freed) := by
  have hlive := putBo_live s b n freed
  rw [if_neg (not_le.mpr hn)] at hlive
  have hmem : ∀ c ∈ (putBo s b n freed).live, ∃ c' ∈ s.live,
      c.mem.allocFlags = c'.mem.allocFlags ∧ c.reservedXcp = c'.reservedXcp ∧
        c.xcpId = c'.xcpId := by
    intro c hc
    rw [hlive] at hc
    rcases mem_cons.mp hc with rfl | hc
    · exact ⟨b, hb, rfl, rfl, rfl⟩
    · exact ⟨c, mem_of_mem_erase hc, rfl, rfl, rfl⟩
  refine ⟨⟨?_, (putBo_lost s b n freed).trans h.accounted.lost⟩, fun c hc => ?_, fun c hc => ?_⟩
  · have hused : (putBo s b n freed).used = s.used := by
      unfold putBo
      dsimp only
      rw [if_neg (not_le.mpr hn)]
      rfl
    rw [hused, hlive, h.accounted.used, sum_erase hb, map_cons, sum_cons]
    rfl
  · obtain ⟨c', hc', hf, hr, -⟩ := hmem c hc
    rw [hf, hr]
    exact h.reserved c' hc'
  · obtain ⟨c', hc', hf, -, hx⟩ := hmem c hc
    rw [hf, hx]
    exact h.released c' hc'

theorem accounted_release_iff (h : Inv s) (hb : b ∈ s.live) {n : Nat} (hn : b.refs ≤ n)
    (freed : Bool) : Accounted (putBo s b n freed) ↔ b.SamePartition := by
  have hlive := putBo_live s b n freed
  rw [if_pos hn] at hlive
  have hused : (putBo s b n freed).used = s.used -
      MemLimit.contribution b.dev b.size b.mem.allocFlags b.xcpId := by
    unfold putBo
    dsimp only
    rw [if_pos hn]
    exact releaseNotify_used (h.released b hb)
  rw [← samePartition_iff (h.reserved b hb) (h.released b hb)]
  constructor
  · intro hacc
    have hsum := hacc.used
    rw [hused, hlive, h.accounted.used, sum_erase hb, sub_eq_iff_eq_add, add_comm] at hsum
    exact (add_left_cancel hsum).symm
  · intro heq
    refine ⟨?_, (putBo_lost s b n freed).trans h.accounted.lost⟩
    rw [hused, hlive, h.accounted.used, sum_erase hb, heq, add_sub_cancel_left]

theorem hasPartition_release (h : Inv s) {n : Nat} (hn : b.refs ≤ n) (freed : Bool)
    (hacc : Accounted (putBo s b n freed)) : Inv (putBo s b n freed) := by
  have hlive := putBo_live s b n freed
  rw [if_pos hn] at hlive
  refine ⟨hacc, fun c hc => ?_, fun c hc => ?_⟩
  · rw [hlive] at hc
    exact h.reserved c (mem_of_mem_erase hc)
  · rw [hlive] at hc
    exact h.released c (mem_of_mem_erase hc)

theorem putBo_right_iff (h : Inv s) (hb : b ∈ s.live) (n : Nat) (freed : Bool) :
    Accounted (putBo s b n freed) ↔ (b.refs ≤ n → b.SamePartition) := by
  rcases Nat.lt_or_ge n b.refs with hn | hn
  · exact iff_of_true (inv_putBo_of_lt h hb hn freed).accounted fun hle =>
      absurd hle (not_le.mpr hn)
  · rw [accounted_release_iff h hb hn freed]
    exact ⟨fun hs _ => hs, fun hs => hs hn⟩

theorem inv_putBo (h : Inv s) (hb : b ∈ s.live) (n : Nat) (freed : Bool)
    (hacc : Accounted (putBo s b n freed)) : Inv (putBo s b n freed) := by
  rcases Nat.lt_or_ge n b.refs with hn | hn
  · exact inv_putBo_of_lt h hb hn freed
  · exact hasPartition_release h hn freed hacc

theorem inv_get (h : Inv s) (hb : b ∈ s.live) :
    Inv { s with live := { b with refs := b.refs + 1 } :: s.live.erase b } := by
  refine ⟨⟨?_, h.accounted.lost⟩, ?_, ?_⟩
  · show s.used = _
    rw [h.accounted.used, sum_erase hb, map_cons, sum_cons]
    rfl
  · exact forall_mem_cons.mpr
      ⟨h.reserved b hb, fun c hc => h.reserved c (mem_of_mem_erase hc)⟩
  · exact forall_mem_cons.mpr
      ⟨h.released b hb, fun c hc => h.released c (mem_of_mem_erase hc)⟩

/-! ## Runs -/

theorem stepRight_of_not_alloc {op : Op} (h : ∀ a, op ≠ .alloc a) :
    StepRight s op ↔ Accounted (step s op) := by
  refine and_iff_left fun hf => ?_
  cases op with
  | alloc a => exact absurd rfl (h a)
  | _ => cases hf

theorem stepRight_iff (s : State) (op : Op) (h : Inv s) : StepRight s op ↔ Linked s op := by
  cases op with
  | alloc a =>
    rw [alloc_right_iff h a]
    constructor
    · intro ha
      refine ⟨fun a' he => ?_, fun b _ hr => hr.elim⟩
      cases he
      exact ha
    · exact fun hl => hl.1 a rfl
  | free b mapped reserve =>
    rw [stepRight_of_not_alloc (by rintro a ⟨⟩)]
    have hl : Linked s (.free b mapped reserve) ↔ (b ∈ s.live → b.freed = false →
        mapped = false → reserve = none → b.refs ≤ 2 → b.SamePartition) := by
      constructor
      · exact fun hl hb h1 h2 h3 h4 => hl.2 b hb ⟨rfl, h1, h2, h3, h4⟩
      · rintro hl
        refine ⟨by rintro a ⟨⟩, ?_⟩
        rintro b' hb' ⟨rfl, h1, h2, h3, h4⟩
        exact hl hb' h1 h2 h3 h4
    rw [hl]
    simp only [step]
    split
    case isTrue hb =>
      simp only [freeMemoryOfGpu]
      split
      case isTrue hm =>
        exact iff_of_true h.accounted fun _ _ hm' => absurd (hm.symm.trans hm') nofun
      case isFalse hm =>
        split
        · exact iff_of_true h.accounted fun _ _ _ hr => nomatch hr
        · rw [putBo_right_iff h hb.1]
          exact ⟨fun hs _ _ _ _ => hs, fun hs => hs hb.1 hb.2 (Bool.eq_false_iff.mpr hm) rfl⟩
    case isFalse hb =>
      exact iff_of_true h.accounted fun h1 h2 => absurd ⟨h1, h2⟩ hb
  | get b =>
    rw [stepRight_of_not_alloc (by rintro a ⟨⟩)]
    refine iff_of_true ?_ ⟨by rintro a ⟨⟩, fun b' _ hr => hr.elim⟩
    simp only [step]
    split
    case isTrue hb => exact (inv_get h hb).accounted
    case isFalse => exact h.accounted
  | put b =>
    rw [stepRight_of_not_alloc (by rintro a ⟨⟩)]
    have hl : Linked s (.put b) ↔ (b ∈ s.live → b.held = true → b.refs ≤ 1 →
        b.SamePartition) := by
      constructor
      · exact fun hl hb h1 h2 => hl.2 b hb ⟨rfl, h1, h2⟩
      · intro hl
        refine ⟨by rintro a ⟨⟩, ?_⟩
        rintro b' hb' ⟨rfl, h1, h2⟩
        exact hl hb' h1 h2
    rw [hl]
    simp only [step]
    split
    case isTrue hb =>
      rw [putBo_right_iff h hb.1]
      exact ⟨fun hs _ _ => hs, fun hs => hs hb.1 hb.2⟩
    case isFalse hb => exact iff_of_true h.accounted fun h1 h2 => absurd ⟨h1, h2⟩ hb

theorem inv_alloc (h : Inv s) (hr : StepRight s (.alloc a)) : Inv (step s (.alloc a)) := by
  have hmem : ∀ b ∈ (allocMemoryOfGpu s a).1.live, b ∈ s.live ∨ ∃ domain xcp,
      place a = .ok (domain, xcp) ∧ b = a.bo s.next domain xcp := by
    intro b hb
    by_cases hc : Creates s a
    · obtain ⟨domain, xcp, s1, hp, hk, hres, hcr⟩ := hc
      obtain ⟨-, hl, -, -⟩ := reserveMemLimit_used hres
      rw [allocMemoryOfGpu_of_creates hp hk hres hcr] at hb
      rcases hv : a.vmaNodeAllow with _ | e <;> rcases hg : a.gemHandleCreate with _ | e <;>
        rcases hpr : a.prepare with _ | e <;> simp only [hv, hg, hpr] at hb
      · rcases mem_cons.mp hb with rfl | hb
        · exact .inr ⟨domain, xcp, hp, rfl⟩
        · exact .inl (hl ▸ hb)
      · have hl' := (unreserveMemLimit_fixed s1 a.dev (a.bo s.next domain xcp).size a.flags
          (a.bo s.next domain xcp).xcpId).1
        exact .inl (hl ▸ hl' ▸ hb)
      all_goals exact .inl (hl ▸ hb)
    · rw [(allocMemoryOfGpu_of_not_creates hc).2.1] at hb
      exact .inl hb
  refine ⟨hr.1, fun b hb => ?_, fun b hb => ?_⟩
  · rcases hmem b hb with hb | ⟨domain, xcp, hp, rfl⟩
    · exact h.reserved b hb
    · exact place_hasPartition hp
  · rcases hmem b hb with hb | ⟨domain, xcp, hp, rfl⟩
    · exact h.released b hb
    · exact bo_hasPartition (place_hasPartition hp)

theorem inv_step (s : State) (op : Op) (h : Inv s) (hop : Linked s op) : Inv (step s op) := by
  have hr := (stepRight_iff s op h).mpr hop
  cases op with
  | alloc a => exact inv_alloc h hr
  | free b mapped reserve =>
    have hacc := hr.1
    simp only [step] at hacc ⊢
    split
    case isTrue hb =>
      rw [if_pos hb] at hacc
      simp only [freeMemoryOfGpu] at hacc ⊢
      split
      · exact h
      case isFalse hm =>
        rw [if_neg hm] at hacc
        split
        · exact h
        · exact inv_putBo h hb.1 2 true hacc
    case isFalse => exact h
  | get b =>
    simp only [step]
    split
    case isTrue hb => exact inv_get h hb
    case isFalse => exact h
  | put b =>
    have hacc := hr.1
    simp only [step] at hacc ⊢
    split
    case isTrue hb =>
      rw [if_pos hb] at hacc
      exact inv_putBo h hb.1 1 b.freed hacc
    case isFalse => exact h

/-- In a run, every call leaves the counters at the sums over the live BOs, with no `kgd_mem` lost,
and an allocation that fails leaves them alone, exactly when no allocation fails between the
creation of its BO and the link to its `kgd_mem`, and every BO is released for the partition that
its memory was reserved for. -/
theorem memLimit_accounted_iff (ops : List Op) :
    StepsOk step StepRight init ops ↔ StepsOk step Linked init ops :=
  stepsOk_congr stepRight_iff inv_step inv_init ops

def exArgs : Args :=
  { dev := { num := 0, apu := false, memPartitions := false }
    size := 0x1000
    flags := { gtt := true }
    xcp := none
    offset := none
    limits :=
      { maxSystemMemLimit := 0x100000, maxTtmMemLimit := 0x100000, noSystemMemLimit := false
        xcpMemorySize := fun _ => 0, totalMemSize := 0, vramPinSize := 0 }
    sgTable := true
    kzalloc := true
    gemObjectCreate := none
    vmaNodeAllow := none
    gemHandleCreate := some .enomem
    prepare := none }

/-- The page stays charged, and the `kgd_mem` is lost. -/
theorem memLimit_leaks : ¬ ∀ ops, StepsOk step StepRight init ops := by
  intro h
  have hlost := (h [.alloc exArgs]).1.1.lost
  exact absurd hlost (by decide)

end Amdkfd.MemLimit
