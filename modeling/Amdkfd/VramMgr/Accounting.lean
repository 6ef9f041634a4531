import Amdkfd.VramMgr.Model
import Mathlib.Algebra.Order.BigOperators.Group.List
import Mathlib.Tactic.Ring

/-!
# The accounts of the VRAM manager

A committed reservation adds the visible part of its first block to `vis_usage`, whatever the
number of its blocks.
-/

namespace Amdkfd.VramMgr

open Lib List

/-! ## What is to be shown -/

/-- The accounts are right. -/
structure Accounted (adev : Adev) (s : Mgr) : Prop where
  /-- `vis_usage` is the number of visible bytes in blocks of live resources and of committed
  reservations. -/
  vis : s.visUsage = (Extent.bytesBelow adev.visibleVramSize (s.held.map Block.extent)).card
  /-- Apart from the live resources, `usage` is what the reservations on `reserved_pages` have. -/
  usage : s.usage - (s.live.map fun v => v.size).sum = (s.reserved.map fun r => r.size).sum
  /-- Every reservation is on exactly one of the lists. -/
  lists : ((s.pending ++ s.reserved).map fun r => r.id).Perm (range s.nextRsv)
  /-- A page that is said to be reserved is in no live resource. -/
  status : ∀ a, queryPageStatus s a = none → ∀ v ∈ s.live, ∀ b ∈ v.blocks, ¬ b.extent.Contains a

def FirstBlockOnly (adev : Adev) (s : Mgr) : Prop :=
  ∀ r ∈ s.reserved, ∀ b ∈ r.allocated.tail, adev.visibleVramSize ≤ b.extent.start
  deriving Decidable

/-! ## Visible sizes -/

theorem visSize_eq (adev : Adev) (b : Block) :
    visSize adev b = b.extent.below adev.visibleVramSize := by
  simp only [visSize, Extent.below]
  split
  · omega
  · split <;> omega

variable {adev : Adev} {s : Mgr} {answers : List Answer}

theorem visSize_eq_zero {b : Block} :
    visSize adev b = 0 ↔ adev.visibleVramSize ≤ b.extent.start := by
  have := b.size_pos
  rw [visSize_eq, Extent.below]
  omega

def visTotal (adev : Adev) (bs : List Block) : Nat := (bs.map (visSize adev)).sum

theorem visTotal_append (adev : Adev) (bs cs : List Block) :
    visTotal adev (bs ++ cs) = visTotal adev bs + visTotal adev cs := by
  simp [visTotal]

theorem visTotal_flatMap {α : Type} (adev : Adev) (f : α → List Block) (xs : List α) :
    visTotal adev (xs.flatMap f) = (xs.map fun x => visTotal adev (f x)).sum := by
  induction xs with
  | nil => rfl
  | cons x xs ih => rw [flatMap_cons, visTotal_append, ih, map_cons, sum_cons]

variable {bs : List Block} {v : Vres}

theorem visTotal_eq_zero :
    visTotal adev bs = 0 ↔ ∀ b ∈ bs, adev.visibleVramSize ≤ b.extent.start := by
  induction bs with
  | nil => simp [visTotal]
  | cons b bs ih =>
    rw [forall_mem_cons, ← ih, ← visSize_eq_zero]
    exact Nat.add_eq_zero_iff

/-- What a committed reservation added to `vis_usage`. -/
def Rsv.counted (adev : Adev) (r : Rsv) : Nat := visTotal adev r.allocated.head?.toList

theorem visTotal_allocated (adev : Adev) (bs : List Block) :
    visTotal adev bs = visTotal adev bs.head?.toList + visTotal adev bs.tail := by
  cases bs with
  | nil => rfl
  | cons b bs => simp [visTotal]

/-! ## The invariant -/

/-- The invariant of the runs. `dv` and `du` are what the counters still have of a resource that is
being freed. -/
structure Inv (adev : Adev) (dv du : Int) (s : Mgr) : Prop where
  apart : (s.held.map Block.extent).Pairwise Extent.Apart
  vis : s.visUsage = visTotal adev (s.live.flatMap fun v => v.blocks) +
    ((s.reserved.map (Rsv.counted adev)).sum : Nat) + dv
  usage : s.usage = (s.live.map fun v => v.size).sum + (s.reserved.map fun r => r.size).sum + du
  lists : ((s.pending ++ s.reserved).map fun r => r.id).Perm (range s.nextRsv)
  covered : ∀ r ∈ s.reserved, ∀ a, r.start ≤ a → a < (r.start + r.size) % 2 ^ 64 →
    ∃ b ∈ r.allocated, b.extent.Contains a

theorem inv_init (adev : Adev) : Inv adev 0 0 init :=
  { apart := List.Pairwise.nil
    vis := rfl
    usage := rfl
    lists := List.Perm.nil
    covered := nofun }

theorem apart_append {c : Call} (h : (s.held.map Block.extent).Pairwise Extent.Apart)
    (hb : HandsOut s c (.ok bs)) :
    ((bs ++ s.held).map Block.extent).Pairwise Extent.Apart := by
  obtain ⟨hbs, hheld, -, -⟩ := hb
  rw [map_append, pairwise_append]
  refine ⟨hbs, h, ?_⟩
  intro e he f hf
  obtain ⟨b, hb, rfl⟩ := mem_map.mp he
  obtain ⟨c, hc, rfl⟩ := mem_map.mp hf
  exact hheld b hb c hc

theorem apart_perm {bs cs : List Block} (h : bs.Perm cs)
    (hb : (bs.map Block.extent).Pairwise Extent.Apart) :
    (cs.map Block.extent).Pairwise Extent.Apart :=
  hb.perm (h.map _) fun hab => hab.symm

theorem filter_id_perm {xs : List Rsv} {x : Rsv} (hx : x ∈ xs)
    (hnd : (xs.map fun r => r.id).Nodup) :
    (x :: xs.filter fun r => r.id ≠ x.id).Perm xs := by
  induction xs with
  | nil => cases hx
  | cons y ys ih =>
    obtain ⟨hy, hys⟩ := nodup_cons.mp hnd
    rcases mem_cons.mp hx with rfl | hx
    · have hall : ∀ r ∈ ys, decide (r.id ≠ x.id) = true := fun r hr =>
        decide_eq_true fun he => hy (mem_map.mpr ⟨r, hr, he⟩)
      rw [filter_cons_of_neg (by simp), filter_eq_self.mpr hall]
    · have hne : y.id ≠ x.id := fun he => hy (mem_map.mpr ⟨x, hx, he.symm⟩)
      simp only [filter_cons, ne_eq, hne, not_false_eq_true, decide_true, if_true]
      exact (List.Perm.swap y x _).trans ((ih hx hys).cons y)

variable {dv du : Int}

theorem inv_reserveOne {r : Rsv} {ans : Answer} (h : Inv adev dv du s) (hr : r ∈ s.pending)
    (hans : HandsOut s r.call ans) : Inv adev dv du (reserveOne adev s (r, ans)) := by
  rcases ans with e | bs
  · exact h
  · rcases hbs : bs with _ | ⟨block, rest⟩
    · exact h
    · rw [← hbs]
      have hhead : bs.head? = some block := by rw [hbs]; rfl
      have hnd : ((s.pending ++ s.reserved).map fun r => r.id).Nodup :=
        h.lists.nodup_iff.mpr nodup_range
      have hpend : (s.pending.map fun r => r.id).Nodup := by
        rw [map_append] at hnd
        exact hnd.of_append_left
      simp only [reserveOne, hhead]
      refine
        { apart := apart_perm ?_ (apart_append h.apart hans)
          vis := ?_, usage := ?_, lists := ?_, covered := ?_ }
      · simp only [Mgr.held, flatMap_cons]
        exact perm_append_comm_assoc _ _ _
      · have hc : Rsv.counted adev { r with allocated := bs } = visSize adev block := by
          simp [Rsv.counted, hhead, visTotal]
        rw [map_cons, sum_cons, hc, h.vis]
        push_cast
        ring
      · rw [map_cons, sum_cons, h.usage]
        push_cast
        ring
      · refine Perm.trans ?_ h.lists
        rw [map_append, map_append, map_cons]
        have hp := (filter_id_perm hr hpend).map fun r => r.id
        exact (perm_middle).trans (hp.append_right _)
      · intro q hq a ha hlt
        rcases mem_cons.mp hq with rfl | hq
        · obtain ⟨hapart, -, hsum, hin⟩ := hans
          have hend : (r.start + r.size) % 2 ^ 64 ≤ r.start + r.size := Nat.mod_le _ _
          have hin' : ∀ e ∈ bs.map Block.extent,
              r.start ≤ e.start ∧ e.start + e.size ≤ r.start + r.size := by
            intro e he
            obtain ⟨b, hb, rfl⟩ := mem_map.mp he
            obtain ⟨h1, h2⟩ := hin rfl b hb
            exact ⟨h1, h2.trans hend⟩
          have hsum' : ((bs.map Block.extent).map Extent.size).sum = r.size := by
            rw [map_map]
            exact hsum
          have hcover : ∃ e ∈ bs.map Block.extent, e.Contains a :=
            Extent.contains_of_sum hapart hin' hsum' ha (lt_of_lt_of_le hlt hend)
          obtain ⟨e, he, hc⟩ := hcover
          obtain ⟨b, hb, rfl⟩ := mem_map.mp he
          exact ⟨b, hb, hc⟩
        · exact h.covered q hq a ha hlt

theorem mem_pending_reserveOne {r q : Rsv} {ans : Answer} (hq : q ∈ s.pending) (hne : q.id ≠ r.id) :
    q ∈ (reserveOne adev s (r, ans)).pending := by
  rcases ans with e | bs
  · exact hq
  · simp only [reserveOne]
    split
    · exact hq
    · exact mem_filter.mpr ⟨hq, decide_eq_true hne⟩

theorem inv_reserveRun (rs : List Rsv) (answers : List Answer) (h : Inv adev dv du s)
    (hrs : ∀ r ∈ rs, r ∈ s.pending) (hnd : (rs.map fun r => r.id).Nodup)
    (hok : StepsOk (reserveOne adev) (fun s x => HandsOut s x.1.call x.2) s (rs.zip answers)) :
    Inv adev dv du (run (reserveOne adev) s (rs.zip answers)) := by
  induction rs generalizing answers s with
  | nil => exact h
  | cons r rs ih =>
    cases answers with
    | nil => exact h
    | cons ans answers =>
      obtain ⟨hans, hrest⟩ := hok
      obtain ⟨hr, hnd⟩ := nodup_cons.mp hnd
      refine ih answers (inv_reserveOne h (hrs r mem_cons_self) hans) ?_ hnd hrest
      intro q hq
      refine mem_pending_reserveOne (hrs q (mem_cons_of_mem _ hq)) fun he => hr ?_
      exact mem_map.mpr ⟨q, hq, he⟩

theorem inv_doReserve (h : Inv adev dv du s) (hok : ReservesOk adev s answers) :
    Inv adev dv du (doReserve adev s answers) := by
  refine inv_reserveRun s.pending answers h (fun _ hr => hr) ?_ hok
  have hnd : ((s.pending ++ s.reserved).map fun r => r.id).Nodup :=
    h.lists.nodup_iff.mpr nodup_range
  rw [map_append] at hnd
  exact hnd.of_append_left

theorem inv_addPending (h : Inv adev dv du s) (start size : Nat) :
    Inv adev dv du (addPending s start size) := by
  refine { apart := h.apart, vis := h.vis, usage := h.usage, lists := ?_, covered := h.covered }
  have hl := h.lists
  simp only [addPending, map_append, map_cons, map_nil] at hl ⊢
  rw [range_succ, append_assoc]
  have hmid : (s.pending.map (fun r => r.id) ++ ([s.nextRsv] ++ s.reserved.map fun r => r.id)).Perm
      ((s.pending.map (fun r => r.id) ++ s.reserved.map fun r => r.id) ++ [s.nextRsv]) := by
    rw [append_assoc]
    exact (perm_append_comm).append_left _
  exact hmid.trans (hl.append_right _)

/-- What is held besides a resource that is freed. -/
theorem held_erase (hv : v ∈ s.live) :
    (v.blocks ++ ({ s with live := s.live.erase v } : Mgr).held).Perm s.held := by
  simp only [Mgr.held]
  rw [← append_assoc, ← flatMap_cons]
  exact ((perm_cons_erase hv).symm.flatMap_right _).append_right _

theorem allocLoop_eq {remaining : Nat} (h : allocLoop remaining [] answers = .ok bs) :
    remaining = 0 ∧ bs = [] ∨ answers.head? = some (.ok bs) := by
  unfold allocLoop at h
  split at h
  · next hzero => exact .inl ⟨hzero, (Except.ok.inj h).symm⟩
  · split at h
    · cases h
    · cases h
    · simp only [lt_irrefl, if_false, Nat.sub_self, nil_append] at h
      unfold allocLoop at h
      rw [dif_pos rfl] at h
      obtain rfl := Except.ok.inj h
      exact .inr rfl

theorem inv_new (h : Inv adev 0 0 s) (tbo : Tbo) (place : Place) (alloc : Bool)
    (hok : ∀ a ∈ answers.head?, HandsOut s (allocCall adev tbo place tbo.size) a) :
    Inv adev 0 0 (vramMgrNew adev s tbo place alloc answers).1 := by
  have hback : Inv adev 0 0 { s with usage := s.usage + tbo.size - tbo.size } := by
    rw [Int.add_sub_cancel]
    exact h
  simp only [vramMgrNew]
  split
  · exact h
  · split
    · exact hback
    · split
      · exact hback
      case h_2 bs hbs =>
        have hbuddy : HandsOut s (allocCall adev tbo place tbo.size) (.ok bs) ∨ bs = [] :=
          (allocLoop_eq hbs).symm.imp (fun hh => hok _ hh) And.right
        have hnew : ((bs ++ s.held).map Block.extent).Pairwise Extent.Apart := by
          rcases hbuddy with hb | rfl
          · exact apart_append h.apart hb
          · exact h.apart
        refine { apart := ?_, vis := ?_, usage := ?_, lists := h.lists, covered := h.covered }
        · simpa only [Mgr.held, flatMap_cons, append_assoc] using hnew
        · simp only [flatMap_cons, visTotal_append, h.vis]
          simp only [visTotal]
          push_cast
          ring
        · simp only [map_cons, sum_cons, h.usage]
          push_cast
          ring

/-- While the pending reservations are tried, the counters still have the resource that is freed. -/
theorem inv_del (h : Inv adev 0 0 s) (hv : v ∈ s.live)
    (hok : ReservesOk adev { s with live := s.live.erase v } answers) :
    Inv adev 0 0 (vramMgrDel adev s v answers) := by
  have hperm := perm_cons_erase hv
  have ht : Inv adev (visTotal adev v.blocks) v.size { s with live := s.live.erase v } := by
    refine { apart := ?_, vis := ?_, usage := ?_, lists := h.lists, covered := h.covered }
    · have happ := apart_perm (held_erase hv).symm h.apart
      rw [map_append] at happ
      exact (pairwise_append.mp happ).2.1
    · have hsplit : visTotal adev (s.live.flatMap fun v => v.blocks) = visTotal adev v.blocks +
          visTotal adev ((s.live.erase v).flatMap fun v => v.blocks) := by
        rw [visTotal_flatMap, visTotal_flatMap, (hperm.map _).sum_eq, map_cons, sum_cons]
      show s.visUsage = _
      rw [h.vis, hsplit]
      push_cast
      ring
    · have hsplit : (s.live.map fun v => v.size).sum =
          v.size + ((s.live.erase v).map fun v => v.size).sum := by
        rw [(hperm.map _).sum_eq, map_cons, sum_cons]
      show s.usage = _
      rw [h.usage, hsplit]
      push_cast
      ring
  have hres := inv_doReserve ht hok
  refine { apart := hres.apart, vis := ?_, usage := ?_, lists := hres.lists,
           covered := hres.covered }
  · show (doReserve adev _ answers).visUsage - (visTotal adev v.blocks : Nat) = _
    rw [hres.vis]
    simp only [vramMgrDel]
    ring
  · show (doReserve adev _ answers).usage - (v.size : Nat) = _
    rw [hres.usage]
    simp only [vramMgrDel]
    ring

theorem inv_step (adev : Adev) (s : Mgr) (op : Op) (h : Inv adev 0 0 s) (hop : BuddyOk adev s op) :
    Inv adev 0 0 (step adev s op) := by
  cases op with
  | new tbo place alloc answers => exact inv_new h tbo place alloc hop
  | del v answers =>
    simp only [step]
    split
    case isTrue hv => exact inv_del h hv hop
    case isFalse => exact h
  | reserveRange start size alloc answers =>
    simp only [step, reserveRange]
    split
    · exact inv_doReserve (inv_addPending h start size) hop
    · exact h

/-! ## The accounts -/

theorem visTotal_held (h : Inv adev 0 0 s) :
    (Extent.bytesBelow adev.visibleVramSize (s.held.map Block.extent)).card =
      visTotal adev s.held := by
  rw [Extent.card_bytesBelow _ h.apart, map_map, visTotal]
  exact congrArg List.sum (map_congr_left fun b _ => (visSize_eq adev b).symm)

theorem vis_iff (h : Inv adev 0 0 s) :
    s.visUsage = (Extent.bytesBelow adev.visibleVramSize (s.held.map Block.extent)).card ↔
      FirstBlockOnly adev s := by
  have hsplit : visTotal adev (s.reserved.flatMap fun r => r.allocated) =
      (s.reserved.map (Rsv.counted adev)).sum +
        (s.reserved.map fun r => visTotal adev r.allocated.tail).sum := by
    rw [visTotal_flatMap, ← sum_map_add]
    exact congrArg List.sum (map_congr_left fun r _ => visTotal_allocated adev r.allocated)
  have htail : (s.reserved.map fun r => visTotal adev r.allocated.tail).sum = 0 ↔
      FirstBlockOnly adev s := by
    rw [sum_eq_zero_iff, forall_mem_map]
    exact forall₂_congr fun r _ => visTotal_eq_zero
  have hcast : ∀ a b c : Nat, (a : Int) + b + 0 = ((a + (b + c) : Nat) : Int) ↔ c = 0 := by
    intro a b c
    omega
  rw [visTotal_held h, Mgr.held, visTotal_append, h.vis, hsplit, ← htail]
  exact hcast _ _ _

/-- A page in a committed reservation is in no live resource. -/
theorem status_sound (h : Inv adev 0 0 s) {a : Nat} (ha : queryPageStatus s a = none)
    (hv : v ∈ s.live) {b : Block} (hb : b ∈ v.blocks) :
    ¬ b.extent.Contains a := by
  unfold queryPageStatus at ha
  split at ha
  · cases ha
  · split at ha
    case isTrue hany =>
      obtain ⟨r, hr, hin⟩ := any_eq_true.mp hany
      obtain ⟨hle, hlt⟩ : r.start ≤ a ∧ a < (r.start + r.size) % 2 ^ 64 := by
        simpa [Rsv.inRange] using hin
      obtain ⟨c, hc, hca⟩ := h.covered r hr a hle hlt
      have happ := h.apart
      rw [Mgr.held, map_append, pairwise_append] at happ
      have hbc := happ.2.2 b.extent
        (mem_map_of_mem (mem_flatMap.mpr ⟨v, hv, hb⟩)) c.extent
        (mem_map_of_mem (mem_flatMap.mpr ⟨r, hr, hc⟩))
      exact fun hba => hbc.not_contains hba hca
    · cases ha

/-- In a run in which the `drm_buddy` hands out free blocks, the accounts are right exactly when no
committed reservation has a visible byte past its first block. -/
theorem accounted_iff (adev : Adev) (ops : List Op)
    (hops : StepsOk (step adev) (BuddyOk adev) init ops) :
    Accounted adev (run (step adev) init ops) ↔ FirstBlockOnly adev (run (step adev) init ops) := by
  have h : Inv adev 0 0 (run (step adev) init ops) :=
    run_inv_of_stepsOk (inv_step adev) (inv_init adev) hops
  constructor
  · exact fun hacc => (vis_iff h).mp hacc.vis
  · intro hfirst
    refine { vis := (vis_iff h).mpr hfirst, usage := ?_, lists := h.lists
             status := fun a ha v hv b hb => status_sound h ha hv hb }
    rw [h.usage]
    ring

def exAdev : Adev :=
  { visibleVramSize := 0x8000, mcVramSize := 0x1000000, connectedToCpu := false
    manSize := 0x10000, mmSize := 0x10000, hpagePmdNr := 512 }

/-- A buffer object of a page, and a reservation of three pages, which takes two blocks. -/
def exOps : List Op :=
  [.new ⟨0x1000, true, 0⟩ ⟨0, 0, false, false⟩ true [.ok [⟨0, 0⟩]],
    .reserveRange 0x1000 0x3000 true [.ok [⟨0x1000, 0⟩, ⟨0x2000, 1⟩]]]

theorem accounted_iff_exOps :
    Accounted exAdev (run (step exAdev) init exOps) ↔
      FirstBlockOnly exAdev (run (step exAdev) init exOps) :=
  accounted_iff exAdev exOps (by decide +kernel)

/-- Of the three visible pages of the reservation only the first is counted. -/
theorem accounted_fails :
    ¬ ∀ adev ops, StepsOk (step adev) (BuddyOk adev) init ops →
      Accounted adev (run (step adev) init ops) := by
  intro h
  have hops : StepsOk (step exAdev) (BuddyOk exAdev) init exOps := by decide +kernel
  have hinv : Inv exAdev 0 0 (run (step exAdev) init exOps) :=
    run_inv_of_stepsOk (inv_step exAdev) (inv_init exAdev) hops
  exact absurd ((vis_iff hinv).mp (h exAdev exOps hops).vis) (by decide +kernel)

end Amdkfd.VramMgr
