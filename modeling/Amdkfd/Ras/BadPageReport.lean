import Amdkfd.Ras.BadPages
import Amdkfd.VramMgr.Model

/-!
# The report of bad pages

`amdgpu_ras_badpages_read` asks the VRAM manager about the number of a page, where
`amdgpu_ras_add_bad_pages` has reserved the page at its address.

Result: `badpagesRead_right_iff`.
-/

namespace Amdkfd.Ras.BadPages

open Lib VramMgr List

/-! ## Model -/

/-- `enum amdgpu_ras_retire_page_reservation`. -/
inductive RetirePage
  | reserved | pending | fault
  deriving DecidableEq

structure RasBadpage where
  bp : Nat
  size : Nat
  flags : RetirePage
  deriving DecidableEq

def flagsOf (mgr : Mgr) (start : Nat) : RetirePage :=
  match queryPageStatus mgr start with
  | some .ebusy => .pending
  | some .enoent => .fault
  | _ => .reserved

/-- `retired_page` has 64 bits, and `bp` is an `unsigned int`. -/
def badpage (mgr : Mgr) (bp : Record) : RasBadpage :=
  { bp := bp.retiredPage % 2 ^ 32, size := 4096, flags := flagsOf mgr bp.retiredPage }

/-- `memory` is what `kmalloc` does. -/
def amdgpuRasBadpagesRead (mgr : Mgr) (data : EhData) (memory : Bool) :
    Except Errno (List RasBadpage) :=
  if data.bps.length = 0 then .error .einval
  else if !memory then .error .enomem
  else .ok (data.bps.map (badpage mgr))

/-! ## What is to be shown -/

def Pending (mgr : Mgr) (addr : Nat) : Prop := ∃ r ∈ mgr.pending, r.inRange addr = true

def Committed (mgr : Mgr) (addr : Nat) : Prop := ∃ r ∈ mgr.reserved, r.inRange addr = true

structure RightEntry (mgr : Mgr) (bp : Record) (b : RasBadpage) : Prop where
  page : b.bp = bp.retiredPage
  pending : b.flags = .pending ↔ Pending mgr (pageAddr bp.retiredPage)
  reserved : b.flags = .reserved ↔
    ¬Pending mgr (pageAddr bp.retiredPage) ∧ Committed mgr (pageAddr bp.retiredPage)
  fault : b.flags = .fault ↔
    ¬Pending mgr (pageAddr bp.retiredPage) ∧ ¬Committed mgr (pageAddr bp.retiredPage)

/-- The byte whose address is the number of the page has the status of the page. -/
structure SameStatus (mgr : Mgr) (page : Nat) : Prop where
  fits : page < 2 ^ 32
  pending : Pending mgr page ↔ Pending mgr (pageAddr page)
  committed : ¬Pending mgr page → (Committed mgr page ↔ Committed mgr (pageAddr page))

/-! ## The report -/

section
variable {mgr : Mgr}

theorem flagsOf_cases (start : Nat) :
    (Pending mgr start ∧ flagsOf mgr start = .pending) ∨
      (¬Pending mgr start ∧ Committed mgr start ∧ flagsOf mgr start = .reserved) ∨
      (¬Pending mgr start ∧ ¬Committed mgr start ∧ flagsOf mgr start = .fault) := by
  unfold flagsOf queryPageStatus Pending Committed
  rw [← any_eq_true, ← any_eq_true]
  cases mgr.pending.any fun r => r.inRange start
  · cases mgr.reserved.any fun r => r.inRange start <;> simp
  · simp

theorem flagsOf_eq_pending {start : Nat} : flagsOf mgr start = .pending ↔ Pending mgr start := by
  rcases @flagsOf_cases mgr start with ⟨h, hf⟩ | ⟨h, _, hf⟩ | ⟨h, _, hf⟩ <;> simp [h, hf]

theorem flagsOf_eq_reserved {start : Nat} :
    flagsOf mgr start = .reserved ↔ ¬Pending mgr start ∧ Committed mgr start := by
  rcases @flagsOf_cases mgr start with ⟨h, hf⟩ | ⟨h, hc, hf⟩ | ⟨h, hc, hf⟩ <;> simp [*]

theorem flagsOf_eq_fault {start : Nat} :
    flagsOf mgr start = .fault ↔ ¬Pending mgr start ∧ ¬Committed mgr start := by
  rcases @flagsOf_cases mgr start with ⟨h, hf⟩ | ⟨h, hc, hf⟩ | ⟨h, hc, hf⟩ <;> simp [*]

theorem rightEntry_iff (bp : Record) :
    RightEntry mgr bp (badpage mgr bp) ↔ SameStatus mgr bp.retiredPage := by
  have hmod : bp.retiredPage % 2 ^ 32 = bp.retiredPage ↔ bp.retiredPage < 2 ^ 32 :=
    ⟨fun h => h ▸ Nat.mod_lt _ (by decide), Nat.mod_eq_of_lt⟩
  constructor
  · intro h
    have hpending := flagsOf_eq_pending.symm.trans h.pending
    refine ⟨hmod.mp h.page, hpending, fun hnot => ?_⟩
    have hreserved := flagsOf_eq_reserved.symm.trans h.reserved
    rw [← hpending] at hreserved
    exact and_congr_right_iff.mp hreserved hnot
  · intro h
    refine ⟨hmod.mpr h.fits, flagsOf_eq_pending.trans h.pending, ?_, ?_⟩
    · rw [← h.pending]
      exact flagsOf_eq_reserved.trans (and_congr_right h.committed)
    · rw [← h.pending]
      exact flagsOf_eq_fault.trans (and_congr_right fun hnot => not_congr (h.committed hnot))

end

/-- What a list of bad pages is reported as is right exactly when every page has the status that
the byte at its number has. -/
theorem badpagesRead_right_iff (mgr : Mgr) (data : EhData) :
    (∀ memory bps, amdgpuRasBadpagesRead mgr data memory = .ok bps →
      Forall₂ (RightEntry mgr) data.bps bps) ↔
      ∀ bp ∈ data.bps, SameStatus mgr bp.retiredPage := by
  have hall : Forall₂ (RightEntry mgr) data.bps (data.bps.map (badpage mgr)) ↔
      ∀ bp ∈ data.bps, SameStatus mgr bp.retiredPage := by
    rw [forall₂_map_right_iff, forall₂_same]
    exact forall₂_congr fun bp _ => rightEntry_iff bp
  rw [← hall]
  constructor
  · intro h
    by_cases hempty : data.bps.length = 0
    · rw [length_eq_zero_iff.mp hempty]
      exact .nil
    · exact h true _ (by simp [amdgpuRasBadpagesRead, hempty])
  · intro h memory bps hread
    unfold amdgpuRasBadpagesRead at hread
    split at hread
    · cases hread
    · split at hread
      · cases hread
      · cases hread
        exact h

def exVram : VramMgr.Adev := ⟨2 ^ 26, 2 ^ 26, false, 2 ^ 26, 2 ^ 26, 512⟩

/-- Page 5 was added, and its reservation is committed. It is reported as one that cannot be
reserved. -/
theorem badpagesRead_not_right :
    let s := amdgpuRasAddBadPages exGpu (start exBadParams exTwice) [exPage 5]
    let mgr := run (VramMgr.step exVram) VramMgr.init
      [.reserveRange (pageAddr 5) 4096 true [.ok [⟨pageAddr 5, 0⟩]]]
    s.data.bps = [exPage 5] ∧ Committed mgr (pageAddr 5) ∧
      amdgpuRasBadpagesRead mgr s.data true = .ok [⟨5, 4096, .fault⟩] ∧
      ¬∀ memory bps, amdgpuRasBadpagesRead mgr s.data memory = .ok bps →
        Forall₂ (RightEntry mgr) s.data.bps bps := by
  intro s mgr
  have hlist : s.data.bps = [exPage 5] := by decide +kernel
  have hcommitted : Committed mgr (pageAddr 5) := by
    unfold Committed
    decide +kernel
  have hread : amdgpuRasBadpagesRead mgr s.data true = .ok [⟨5, 4096, .fault⟩] := by
    decide +kernel
  refine ⟨hlist, hcommitted, hread, fun h => ?_⟩
  have hright := h true _ hread
  rw [hlist] at hright
  exact ((forall₂_cons.mp hright).1.fault.mp rfl).2 hcommitted

end Amdkfd.Ras.BadPages
