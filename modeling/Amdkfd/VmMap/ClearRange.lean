import Amdkfd.VmMap.Clear
import Mathlib.Data.List.Pairwise
import Mathlib.Data.Nat.Prime.Basic

/-!
# What a cleared interval leaves of the mappings

`amdgpu_vm_bo_clear_mappings` page by page: what is mapped after it, to which byte of which BO, what
is on `freed`, and the count of PRT users. A mapping that goes on after the interval is cut there,
and the offset of the rest is moved by pages of the CPU, not of the GPU.
-/

namespace Amdkfd.VmMap

open List

/-! ## PRT users -/

def Mapping.isPrt (m : Mapping) : Bool := m.flags &&& ptePrt != 0

def vmPrtGet (setPrt : Bool) (users : Nat) : Nat := if setPrt then users + 1 else users

/-- A piece that is left goes in the tree, and is a user if it is for PRT. -/
def insertPieceGet (setPrt : Bool) (s : Vm × Nat) : Option Mapping → Vm × Nat
  | none => s
  | some m => (insertPiece s.1 (some m), if m.isPrt then vmPrtGet setPrt s.2 else s.2)

/-- The loop of `amdgpu_vm_bo_clear_mappings` that gathers the mappings to remove. -/
def gathered (pageShift : Nat) (vm : Vm) (saddr eaddr : Nat) : ClearState :=
  (vm.va.filter (·.overlaps saddr eaddr)).foldl (gather pageShift saddr eaddr)
    { vm := vm, before := none, after := none, removed := [] }

/-- `amdgpu_vm_bo_clear_mappings` after the allocations, with the PRT users. -/
def clearPagesPrt (pageShift : Nat) (setPrt : Bool) (vm : Vm) (users saddr eaddr : Nat) :
    Vm × Nat :=
  let c := gathered pageShift vm saddr eaddr
  let vm := c.removed.foldl (freeRemoved saddr eaddr) c.vm
  insertPieceGet setPrt (insertPieceGet setPrt (vm, users) c.before) c.after

def boClearMappingsPrt (dev : Device) (setPrt : Bool) (vm : Vm) (users : Nat) (saddr size : UInt64)
    (beforeOk afterOk : Bool) : (Vm × Nat) × Option Errno :=
  match verifyParameters dev none saddr 0 size with
  | some e => ((vm, users), some e)
  | none =>
    if beforeOk = false ∨ afterOk = false then ((vm, users), some .enomem)
    else
      (clearPagesPrt dev.pageShift setPrt vm users (startPage saddr) (lastPage saddr size), none)

theorem insertPieceGet_vm (setPrt : Bool) (s : Vm × Nat) (p : Option Mapping) :
    (insertPieceGet setPrt s p).1 = insertPiece s.1 p := by
  cases p <;> rfl

theorem clearPagesPrt_vm (pageShift : Nat) (setPrt : Bool) (vm : Vm) (users saddr eaddr : Nat) :
    (clearPagesPrt pageShift setPrt vm users saddr eaddr).1 =
      clearPages pageShift vm saddr eaddr := by
  simp only [clearPagesPrt, insertPieceGet_vm]
  rfl

/-! ## The tree and the freed mappings -/

section
variable {vm : Vm} {pageShift saddr eaddr : Nat}

theorem itInsert_perm (m : Mapping) (ms : List Mapping) : (itInsert m ms).Perm (m :: ms) := by
  induction ms with
  | nil => exact .refl _
  | cons x xs ih =>
    unfold itInsert
    split
    · exact (ih.cons x).trans (.swap m x xs)
    · exact .refl _

theorem insertPiece_perm (vm : Vm) (p : Option Mapping) :
    (insertPiece vm p).va.Perm (p.toList ++ vm.va) := by
  cases p with
  | none => exact .refl _
  | some m => exact itInsert_perm m vm.va

theorem addPiece_tree (vm : Vm) (m : Mapping) :
    (addPiece vm m).va = vm.va ∧ (addPiece vm m).freed = vm.freed := by
  unfold addPiece
  split
  · exact ⟨rfl, rfl⟩
  · exact ⟨rfl, rfl⟩

theorem gather_tree (c : ClearState) (t : Mapping) :
    (gather pageShift saddr eaddr c t).vm.va = c.vm.va ∧
      (gather pageShift saddr eaddr c t).vm.freed = c.vm.freed := by
  have hdel : ∀ (vm : Vm) (b : Nat), (listDel vm b t).va = vm.va ∧
      (listDel vm b t).freed = vm.freed := fun _ _ => ⟨rfl, rfl⟩
  unfold gather
  cases t.boVa with
  | none => by_cases h1 : t.start < saddr <;> by_cases h₂ : eaddr < t.last <;>
      simp [h1, h₂, addPiece_tree]
  | some b => by_cases h1 : t.start < saddr <;> by_cases h₂ : eaddr < t.last <;>
      simp [h1, h₂, addPiece_tree, hdel]

theorem foldl_gather_tree (ts : List Mapping) (c : ClearState) :
    (ts.foldl (gather pageShift saddr eaddr) c).vm.va = c.vm.va ∧
      (ts.foldl (gather pageShift saddr eaddr) c).vm.freed = c.vm.freed := by
  induction ts generalizing c with
  | nil => exact ⟨rfl, rfl⟩
  | cons t ts ih =>
    obtain ⟨hva, hfreed⟩ := @gather_tree pageShift saddr eaddr c t
    obtain ⟨hva', hfreed'⟩ := ih (gather pageShift saddr eaddr c t)
    exact ⟨hva'.trans hva, hfreed'.trans hfreed⟩

theorem foldl_freeRemoved_tree (ts : List Mapping) (vm : Vm) :
    (ts.foldl (freeRemoved saddr eaddr) vm).va = vm.va.filter (· ∉ ts) ∧
      (ts.foldl (freeRemoved saddr eaddr) vm).freed =
        (ts.map (·.clip saddr eaddr)).reverse ++ vm.freed := by
  induction ts generalizing vm with
  | nil => simp
  | cons t ts ih =>
    obtain ⟨hva, hfreed⟩ := ih (freeRemoved saddr eaddr vm t)
    rw [foldl_cons, hva, hfreed]
    constructor
    · show (remove t vm.va).filter _ = _
      rw [remove, filter_filter]
      refine filter_congr fun x _ => ?_
      simp [Bool.and_comm]
    · show _ ++ (t.clip saddr eaddr :: vm.freed) = _
      simp

theorem clearPages_tree (pageShift : Nat) (vm : Vm) (saddr eaddr : Nat) :
    (clearPages pageShift vm saddr eaddr).va.Perm
        ((gathered pageShift vm saddr eaddr).after.toList ++
          ((gathered pageShift vm saddr eaddr).before.toList ++
            vm.va.filter (!·.overlaps saddr eaddr))) ∧
      (clearPages pageShift vm saddr eaddr).freed =
        (vm.va.filter (·.overlaps saddr eaddr)).map (·.clip saddr eaddr) ++ vm.freed := by
  let c := gathered pageShift vm saddr eaddr
  obtain ⟨hva, hfreed⟩ := @foldl_gather_tree pageShift saddr eaddr
    (vm.va.filter (·.overlaps saddr eaddr))
    { vm := vm, before := none, after := none, removed := [] }
  change c.vm.va = vm.va at hva
  change c.vm.freed = vm.freed at hfreed
  have hremoved : c.removed = (vm.va.filter (·.overlaps saddr eaddr)).reverse := by
    show (gathered pageShift vm saddr eaddr).removed = _
    rw [gathered, foldl_gather_removed, append_nil]
  obtain ⟨hva', hfreed'⟩ := @foldl_freeRemoved_tree saddr eaddr c.removed c.vm
  have hrest : (c.removed.foldl (freeRemoved saddr eaddr) c.vm).va =
      vm.va.filter (!·.overlaps saddr eaddr) := by
    rw [hva', hva]
    refine filter_congr fun x hx => ?_
    rw [hremoved]
    simp [hx]
  constructor
  · show (insertPiece (insertPiece (c.removed.foldl (freeRemoved saddr eaddr) c.vm) c.before)
      c.after).va.Perm _
    refine (insertPiece_perm _ _).trans (Perm.append_left _ ?_)
    rw [← hrest]
    exact insertPiece_perm _ _
  · show (insertPiece (insertPiece (c.removed.foldl (freeRemoved saddr eaddr) c.vm) c.before)
      c.after).freed = _
    rw [(insertPiece_spec _ _).2.2.1, (insertPiece_spec _ _).2.2.1, hfreed', hfreed, hremoved,
      map_reverse, reverse_reverse]

end

/-! ## Page by page -/

def Mapping.byteOffset (m : Mapping) (x : Nat) : Nat :=
  (m.offset + (x - m.start) * gpuPageSize) % 2 ^ 64

def MapsTo (ms : List Mapping) (x : Nat) (boVa : Option Nat) (offset : Nat) (flags : BitVec 64) :
    Prop :=
  ∃ m ∈ ms, m.Covers x ∧ m.boVa = boVa ∧ m.byteOffset x = offset ∧ m.flags = flags

def Vm.prtCount (vm : Vm) : Nat := vm.va.countP Mapping.isPrt + vm.freed.countP Mapping.isPrt

def Vm.Disjoint (vm : Vm) : Prop := vm.va.Pairwise Mapping.Apart

/-- The interval has been cleared, and nothing else. `other` are the PRT users of other VMs and of
fences. -/
structure RangeCleared (setPrt : Bool) (saddr eaddr : Nat) (vm vm' : Vm) (users users' : Nat) :
    Prop where
  apart : vm'.Disjoint
  inside : ∀ x, saddr ≤ x → x ≤ eaddr → ¬ Covered vm'.va x
  outside : ∀ x, x < saddr ∨ eaddr < x → ∀ boVa offset flags,
    MapsTo vm'.va x boVa offset flags ↔ MapsTo vm.va x boVa offset flags
  freed : ∃ new, vm'.freed = new ++ vm.freed ∧
    ∀ x, Covered new x ↔ (saddr ≤ x ∧ x ≤ eaddr) ∧ Covered vm.va x
  prt : ∀ other, (setPrt = true → users = other + vm.prtCount) →
    setPrt = true → users' = other + vm'.prtCount

section
variable {vm : Vm} {pageShift saddr eaddr : Nat}

theorem Vm.Disjoint.apart_of_ne (h : vm.Disjoint) :
    ∀ t ∈ vm.va, ∀ u ∈ vm.va, t ≠ u → t.Apart u := by
  intro t ht u hu hne
  have hsymm : Std.Symm Mapping.Apart := ⟨fun _ _ => Mapping.Apart.symm⟩
  exact List.Pairwise.forall h ht hu hne

theorem mem_clearPages_va (h : vm.Disjoint) {x : Mapping} :
    x ∈ (clearPages pageShift vm saddr eaddr).va ↔
      (∃ t ∈ vm.va, t.overlaps saddr eaddr = true ∧ x ∈ piecesOf pageShift saddr eaddr t) ∨
        x ∈ vm.va ∧ x.overlaps saddr eaddr = false := by
  rw [(clearPages_tree pageShift vm saddr eaddr).1.mem_iff, mem_append, mem_append,
    ← or_assoc, Option.mem_toList, Option.mem_toList, mem_filter, Bool.not_eq_true']
  exact or_congr_left (@gathered_pieces vm pageShift saddr eaddr h.apart_of_ne x)

theorem piece_within {t p : Mapping} (hov : t.overlaps saddr eaddr = true)
    (hp : p ∈ piecesOf pageShift saddr eaddr t) :
    t.start ≤ p.start ∧ p.last ≤ t.last ∧ (p.last < saddr ∨ eaddr < p.start) := by
  obtain ⟨hlo, hhi⟩ := overlaps_iff.mp hov
  rcases mem_piecesOf.mp hp with ⟨hlast, rfl⟩ | ⟨hstart, rfl⟩
  · exact ⟨Nat.le_succ_of_le hhi, le_refl _, .inr (Nat.lt_succ_self _)⟩
  · have hlt : saddr - 1 < saddr := by omega
    exact ⟨le_refl _, le_trans (le_of_lt hlt) hlo, .inl hlt⟩

theorem piece_covers {t p : Mapping} (hov : t.overlaps saddr eaddr = true)
    (hp : p ∈ piecesOf pageShift saddr eaddr t) {x : Nat} (hx : p.Covers x) : t.Covers x :=
  have ⟨hstart, hlast, _⟩ := piece_within hov hp
  ⟨le_trans hstart hx.1, le_trans hx.2 hlast⟩

theorem exists_piece_covers {t : Mapping} {x : Nat} (hx : t.Covers x)
    (hout : x < saddr ∨ eaddr < x) : ∃ p ∈ piecesOf pageShift saddr eaddr t, p.Covers x := by
  obtain ⟨hlo, hhi⟩ := hx
  rcases hout with hbefore | hafter
  · have hlt : t.start < saddr := lt_of_le_of_lt hlo hbefore
    exact ⟨t.before saddr, mem_piecesOf.mpr (.inr ⟨hlt, rfl⟩), hlo, Nat.le_sub_one_of_lt hbefore⟩
  · have hlast : eaddr < t.last := lt_of_lt_of_le hafter hhi
    exact ⟨t.after pageShift eaddr, mem_piecesOf.mpr (.inl ⟨hlast, rfl⟩), hafter, hhi⟩

theorem covers_outside {m : Mapping} (h : m.overlaps saddr eaddr = false) {x : Nat}
    (hx : m.Covers x) : x < saddr ∨ eaddr < x := by
  by_contra hin
  push Not at hin
  rw [overlaps_iff.mpr ⟨le_trans hin.1 hx.2, le_trans hx.1 hin.2⟩] at h
  cases h

theorem clearPages_apart (h : vm.Disjoint) (hle : saddr ≤ eaddr) :
    (clearPages pageShift vm saddr eaddr).Disjoint := by
  have hpieces := @gathered_pieces vm pageShift saddr eaddr h.apart_of_ne
  change ∀ x, ((gathered pageShift vm saddr eaddr).after = some x ∨
    (gathered pageShift vm saddr eaddr).before = some x) ↔ _ at hpieces
  have hside : ∀ p, (gathered pageShift vm saddr eaddr).after = some p ∨
      (gathered pageShift vm saddr eaddr).before = some p →
      ∀ u ∈ vm.va.filter (!·.overlaps saddr eaddr), p.Apart u := by
    intro p hp u hu
    obtain ⟨t, ht, hov, hpt⟩ := (hpieces p).mp hp
    obtain ⟨hmem, hout⟩ := mem_filter.mp hu
    have hne : t ≠ u := by
      rintro rfl
      rw [hov] at hout
      cases hout
    obtain ⟨hstart, hlast, -⟩ := piece_within hov hpt
    exact (h.apart_of_ne t ht u hmem hne).mono hstart hlast (le_refl _) (le_refl _)
  -- The two rests lie on the two sides of the interval.
  have hafter : ∀ p, (gathered pageShift vm saddr eaddr).after = some p → eaddr < p.start := by
    intro p hp
    rcases (foldl_lastSet gather_after _ _).1 p hp with hnone | ⟨t, -, hsel⟩
    · cases hnone
    · obtain ⟨-, heq⟩ := Option.ite_none_right_eq_some.mp hsel
      cases heq
      exact Nat.lt_succ_self eaddr
  have hbefore : ∀ p, (gathered pageShift vm saddr eaddr).before = some p → p.last ≤ eaddr := by
    intro p hp
    rcases (foldl_lastSet gather_before _ _).1 p hp with hnone | ⟨t, -, hsel⟩
    · cases hnone
    · obtain ⟨-, heq⟩ := Option.ite_none_right_eq_some.mp hsel
      cases heq
      exact le_trans (Nat.sub_le saddr 1) hle
  rw [Vm.Disjoint, (clearPages_tree pageShift vm saddr eaddr).1.pairwise_iff Mapping.Apart.symm,
    pairwise_append, pairwise_append]
  have hone : ∀ o : Option Mapping, o.toList.Pairwise Mapping.Apart := by
    intro o
    cases o with
    | none => exact .nil
    | some m => exact pairwise_singleton _ m
  refine ⟨hone _, ⟨hone _, List.Pairwise.filter _ h, ?_⟩, ?_⟩
  · exact fun p hp u hu => hside p (.inr (Option.mem_toList.mp hp)) u hu
  · intro p hp u hu
    have hp := Option.mem_toList.mp hp
    rcases mem_append.mp hu with hu | hu
    · have hlt := lt_of_le_of_lt (hbefore u (Option.mem_toList.mp hu)) (hafter p hp)
      exact .inr hlt
    · exact hside p (.inl hp) u hu

theorem clearPages_inside (h : vm.Disjoint) {x : Nat} (hlo : saddr ≤ x) (hhi : x ≤ eaddr) :
    ¬ Covered (clearPages pageShift vm saddr eaddr).va x := by
  rintro ⟨m, hm, hx⟩
  have hout : x < saddr ∨ eaddr < x := by
    rcases (mem_clearPages_va h).mp hm with ⟨t, -, hov, hp⟩ | ⟨-, hov⟩
    · obtain ⟨-, -, hside⟩ := piece_within hov hp
      exact hside.imp (lt_of_le_of_lt hx.2) fun hlt => lt_of_lt_of_le hlt hx.1
    · exact covers_outside hov hx
  omega

theorem after_byteOffset (t : Mapping) {x : Nat} (hstart : t.start ≤ eaddr) (hx : eaddr < x) :
    (t.after 12 eaddr).byteOffset x = t.byteOffset x := by
  show ((t.offset + (eaddr + 1 - t.start) * 2 ^ 12) % 2 ^ 64 + (x - (eaddr + 1)) * gpuPageSize) %
    2 ^ 64 = (t.offset + (x - t.start) * gpuPageSize) % 2 ^ 64
  simp only [gpuPageSize]
  omega

theorem clearPages_outside (h : vm.Disjoint)
    (hshift : pageShift = 12 ∨ ∀ m ∈ vm.va, m.overlaps saddr eaddr = true → m.last ≤ eaddr)
    {x : Nat} (hx : x < saddr ∨ eaddr < x) (boVa : Option Nat) (offset : Nat) (flags : BitVec 64) :
    MapsTo (clearPages pageShift vm saddr eaddr).va x boVa offset flags ↔
      MapsTo vm.va x boVa offset flags := by
  have hpiece : ∀ t ∈ vm.va, t.overlaps saddr eaddr = true →
      ∀ p ∈ piecesOf pageShift saddr eaddr t, p.Covers x →
        p.boVa = t.boVa ∧ p.byteOffset x = t.byteOffset x ∧ p.flags = t.flags := by
    intro t ht hov p hp hcovers
    rcases mem_piecesOf.mp hp with ⟨hlast, rfl⟩ | ⟨-, rfl⟩
    · rcases hshift with rfl | hnone
      · exact ⟨rfl, after_byteOffset t (overlaps_iff.mp hov).2 hcovers.1, rfl⟩
      · exact absurd hlast (not_lt.mpr (hnone t ht hov))
    · exact ⟨rfl, rfl, rfl⟩
  constructor
  · rintro ⟨m, hm, hcovers, rfl, rfl, rfl⟩
    rcases (mem_clearPages_va h).mp hm with ⟨t, ht, hov, hp⟩ | ⟨hmem, -⟩
    · obtain ⟨hboVa, hoffset, hflags⟩ := hpiece t ht hov m hp hcovers
      exact ⟨t, ht, piece_covers hov hp hcovers, hboVa.symm, hoffset.symm, hflags.symm⟩
    · exact ⟨m, hmem, hcovers, rfl, rfl, rfl⟩
  · rintro ⟨t, ht, hcovers, rfl, rfl, rfl⟩
    cases hov : t.overlaps saddr eaddr with
    | false => exact ⟨t, (mem_clearPages_va h).mpr (.inr ⟨ht, hov⟩), hcovers, rfl, rfl, rfl⟩
    | true =>
      obtain ⟨p, hp, hpx⟩ := @exists_piece_covers pageShift saddr eaddr t x hcovers hx
      exact ⟨p, (mem_clearPages_va h).mpr (.inl ⟨t, ht, hov, hp⟩), hpx, hpiece t ht hov p hp hpx⟩

theorem clearPages_freed (pageShift : Nat) (vm : Vm) (saddr eaddr : Nat) :
    ∃ new, (clearPages pageShift vm saddr eaddr).freed = new ++ vm.freed ∧
      ∀ x, Covered new x ↔ (saddr ≤ x ∧ x ≤ eaddr) ∧ Covered vm.va x := by
  refine ⟨_, (clearPages_tree pageShift vm saddr eaddr).2, fun x => ⟨?_, ?_⟩⟩
  · rintro ⟨m, hm, hlo, hhi⟩
    obtain ⟨t, ht, rfl⟩ := mem_map.mp hm
    obtain ⟨hlo1, hlo2⟩ := Nat.max_le.mp hlo
    obtain ⟨hhi1, hhi2⟩ := Nat.le_min.mp hhi
    exact ⟨⟨hlo2, hhi2⟩, t, (mem_filter.mp ht).1, hlo1, hhi1⟩
  · rintro ⟨⟨hlo, hhi⟩, t, ht, hcovers⟩
    have hov : t.overlaps saddr eaddr = true :=
      overlaps_iff.mpr ⟨le_trans hlo hcovers.2, le_trans hcovers.1 hhi⟩
    exact ⟨t.clip saddr eaddr, mem_map_of_mem (mem_filter.mpr ⟨ht, hov⟩),
      Nat.max_le.mpr ⟨hcovers.1, hlo⟩, Nat.le_min.mpr ⟨hcovers.2, hhi⟩⟩

theorem clearPagesPrt_users (pageShift : Nat) (setPrt : Bool) (vm : Vm) (users saddr eaddr : Nat)
    {other : Nat} (h : setPrt = true → users = other + vm.prtCount) (hset : setPrt = true) :
    (clearPagesPrt pageShift setPrt vm users saddr eaddr).2 =
      other + (clearPages pageShift vm saddr eaddr).prtCount := by
  obtain ⟨hva, hfreed⟩ := clearPages_tree pageShift vm saddr eaddr
  have hclip : ((vm.va.filter (·.overlaps saddr eaddr)).map (·.clip saddr eaddr)).countP
      Mapping.isPrt = (vm.va.filter (·.overlaps saddr eaddr)).countP Mapping.isPrt := by
    rw [countP_map]
    rfl
  have hsplit : vm.va.countP Mapping.isPrt =
      (vm.va.filter (·.overlaps saddr eaddr)).countP Mapping.isPrt +
        (vm.va.filter (!·.overlaps saddr eaddr)).countP Mapping.isPrt := by
    rw [← countP_append]
    exact ((filter_append_perm (·.overlaps saddr eaddr) vm.va).countP_eq _).symm
  have hget : ∀ (s : Vm × Nat) (p : Option Mapping),
      (insertPieceGet setPrt s p).2 = s.2 + p.toList.countP Mapping.isPrt := by
    intro s p
    cases p with
    | none => rfl
    | some m =>
      show (if m.isPrt then vmPrtGet setPrt s.2 else s.2) = s.2 + [m].countP Mapping.isPrt
      rw [countP_singleton, vmPrtGet, if_pos hset]
      split <;> rfl
  rw [Vm.prtCount, hva.countP_eq, hfreed, countP_append, countP_append,
    countP_append, hclip]
  show (insertPieceGet setPrt (insertPieceGet setPrt (_, users) _) _).2 = _
  rw [hget, hget, h hset, Vm.prtCount, hsplit]
  simp only [add_assoc, add_left_comm, add_comm]

theorem rangeCleared (h : vm.Disjoint) (hle : saddr ≤ eaddr)
    (hshift : pageShift = 12 ∨ ∀ m ∈ vm.va, m.overlaps saddr eaddr = true → m.last ≤ eaddr)
    (setPrt : Bool) (users : Nat) :
    RangeCleared setPrt saddr eaddr vm (clearPagesPrt pageShift setPrt vm users saddr eaddr).1 users
      (clearPagesPrt pageShift setPrt vm users saddr eaddr).2 := by
  rw [clearPagesPrt_vm]
  exact ⟨clearPages_apart h hle, fun x hlo hhi => clearPages_inside h hlo hhi,
    fun x hx => clearPages_outside h hshift hx, clearPages_freed pageShift vm saddr eaddr,
    fun other hother hset => clearPagesPrt_users pageShift setPrt vm users saddr eaddr hother hset⟩

theorem offset_ne (offset : Nat) {k : Nat} (d : Nat) (hpos : 0 < k) (hlt : k < 2 ^ 52) :
    (offset + k * 2 ^ (12 + (d + 1))) % 2 ^ 64 ≠ (offset + k * 2 ^ 12) % 2 ^ 64 := by
  intro heq
  rw [Nat.pow_add, ← mul_assoc] at heq
  have hmod : k * 2 ^ 12 * 2 ^ (d + 1) ≡ k * 2 ^ 12 [MOD 2 ^ 64] :=
    Nat.ModEq.add_left_cancel' offset heq
  have hdvd : 2 ^ 64 ∣ k * 2 ^ 12 * (2 ^ (d + 1) - 1) := by
    have hle : k * 2 ^ 12 ≤ k * 2 ^ 12 * 2 ^ (d + 1) :=
      Nat.le_mul_of_pos_right _ (Nat.two_pow_pos _)
    rw [Nat.mul_sub_one]
    exact (Nat.modEq_iff_dvd' hle).mp hmod.symm
  have hdvd' : 2 ^ 52 ∣ k * (2 ^ (d + 1) - 1) := by
    refine Nat.dvd_of_mul_dvd_mul_left (k := 2 ^ 12) (by decide) ?_
    rw [← mul_assoc, mul_comm _ k]
    exact hdvd
  have hodd : Nat.Coprime (2 ^ 52) (2 ^ (d + 1) - 1) := by
    refine Nat.Coprime.pow_left 52 ?_
    rw [Nat.coprime_two_left, Nat.odd_iff]
    have h2 : 2 ^ (d + 1) = 2 * 2 ^ d := Nat.pow_succ'
    have hd := Nat.two_pow_pos d
    omega
  exact absurd (Nat.le_of_dvd hpos (hodd.dvd_of_dvd_mul_right hdvd')) (not_le.mpr hlt)

theorem after_byteOffset_ne (t : Mapping) (hshift : 12 < pageShift) (hstart : t.start ≤ eaddr)
    (hlt : eaddr + 1 < 2 ^ 52) :
    (t.after pageShift eaddr).byteOffset (eaddr + 1) ≠ t.byteOffset (eaddr + 1) := by
  obtain ⟨d, rfl⟩ : ∃ d, pageShift = 12 + (d + 1) := Nat.exists_eq_add_of_lt hshift
  have hpos : 0 < eaddr + 1 - t.start := Nat.sub_pos_of_lt (Nat.lt_succ_of_le hstart)
  have hpages : eaddr + 1 - t.start < 2 ^ 52 := lt_of_le_of_lt (Nat.sub_le _ _) hlt
  have hafter : (t.after (12 + (d + 1)) eaddr).byteOffset (eaddr + 1) =
      (t.offset + (eaddr + 1 - t.start) * 2 ^ (12 + (d + 1))) % 2 ^ 64 := by
    rw [Mapping.byteOffset]
    show (_ % 2 ^ 64 + (eaddr + 1 - (eaddr + 1)) * _) % _ = _
    rw [Nat.sub_self, zero_mul, add_zero, Nat.mod_mod]
  rw [hafter]
  exact offset_ne t.offset d hpos hpages

theorem Vm.Disjoint.eq_of_covers (h : vm.Disjoint) {t u : Mapping} (ht : t ∈ vm.va) (hu : u ∈ vm.va)
    {x : Nat} (htx : t.Covers x) (hux : u.Covers x) : t = u := by
  by_contra hne
  obtain ⟨htlo, hthi⟩ := htx
  obtain ⟨hulo, huhi⟩ := hux
  rcases h.apart_of_ne t ht u hu hne with hlt | hlt
  · exact absurd (lt_of_lt_of_le hlt hulo) (not_lt.mpr hthi)
  · exact absurd (lt_of_lt_of_le hlt htlo) (not_lt.mpr huhi)

theorem not_mapsTo_after (h : vm.Disjoint) (hshift : 12 < pageShift) (hle : saddr ≤ eaddr)
    (hlt : eaddr + 1 < 2 ^ 52) {t : Mapping} (ht : t ∈ vm.va)
    (hov : t.overlaps saddr eaddr = true) (hlast : eaddr < t.last) :
    ¬ MapsTo (clearPages pageShift vm saddr eaddr).va (eaddr + 1) t.boVa
      (t.byteOffset (eaddr + 1)) t.flags := by
  rintro ⟨m, hm, hcovers, -, hoffset, -⟩
  have hstart : t.start ≤ eaddr := (overlaps_iff.mp hov).2
  have htx : t.Covers (eaddr + 1) := ⟨Nat.le_succ_of_le hstart, hlast⟩
  rcases (mem_clearPages_va h).mp hm with ⟨u, hu, hovu, hp⟩ | ⟨hmem, hout⟩
  · obtain rfl : t = u := h.eq_of_covers ht hu htx (piece_covers hovu hp hcovers)
    rcases mem_piecesOf.mp hp with ⟨-, rfl⟩ | ⟨-, rfl⟩
    · exact after_byteOffset_ne t hshift hstart hlt hoffset
    · have hbefore : eaddr + 1 ≤ saddr - 1 := hcovers.2
      omega
  · obtain rfl : t = m := h.eq_of_covers ht hmem htx hcovers
    rw [hov] at hout
    cases hout

end

/-! ## The call -/

/-- The call clears the interval and keeps the rest, or fails and changes nothing. -/
def ClearRight (dev : Device) (setPrt : Bool) (vm : Vm) (users : Nat) (saddr size : UInt64)
    (beforeOk afterOk : Bool) : Prop :=
  match boClearMappingsPrt dev setPrt vm users saddr size beforeOk afterOk with
  | (s, some _) => s = (vm, users)
  | (s, none) =>
    RangeCleared setPrt (startPage saddr) (lastPage saddr size) vm s.1 users s.2

theorem lastPage_succ_lt {dev : Device} {saddr size : UInt64}
    (h : verifyParameters dev none saddr 0 size = none) : lastPage saddr size + 1 < 2 ^ 52 := by
  unfold verifyParameters at h
  split_ifs at h with halign hrange hany hpfn
  rw [not_or, not_or] at halign hrange
  have hsize : size.toNat ≠ 0 := fun hzero => hrange.2.2 (UInt64.toNat_inj.mp hzero)
  have hsum := hrange.1
  unfold lastPage
  simp only [gpuPageSize] at halign ⊢
  omega

/-- The mappings are right after `amdgpu_vm_bo_clear_mappings` exactly where it fails, where CPU
pages are 4 KiB, or where no mapping of the interval goes on after it. -/
theorem clear_mappings_right_iff (dev : Device) (setPrt : Bool) {vm : Vm} (h : vm.Disjoint)
    (users : Nat) (saddr size : UInt64) (beforeOk afterOk : Bool) :
    ClearRight dev setPrt vm users saddr size beforeOk afterOk ↔
      (verifyParameters dev none saddr 0 size = none → beforeOk = true → afterOk = true →
        dev.pageShift = 12 ∨ ∀ m ∈ vm.va, m.overlaps (startPage saddr) (lastPage saddr size) →
          m.last ≤ lastPage saddr size) := by
  unfold ClearRight boClearMappingsPrt
  cases hverify : verifyParameters dev none saddr 0 size with
  | some e => simp
  | none =>
    dsimp only
    split_ifs with hfail
    · refine iff_of_true rfl fun _ hbefore hafter => ?_
      rw [hbefore, hafter] at hfail
      rcases hfail with hfail | hfail <;> cases hfail
    · have hok : beforeOk = true ∧ afterOk = true := by simpa using hfail
      have hle := startPage_le_lastPage saddr size
      have hlt := lastPage_succ_lt hverify
      constructor
      · intro hcleared _ _ _
        rcases eq_or_lt_of_le dev.pageShift_ge with h12 | h12
        · exact .inl h12.symm
        · refine .inr fun m hm hov => not_lt.mp fun hlast => ?_
          refine not_mapsTo_after h h12 hle hlt hm hov hlast ?_
          rw [← clearPagesPrt_vm]
          refine (hcleared.outside _ (.inr (Nat.lt_succ_self _)) _ _ _).mpr
            ⟨m, hm, ⟨?_, hlast⟩, rfl, rfl, rfl⟩
          exact Nat.le_succ_of_le (overlaps_iff.mp hov).2
      · exact fun hright => rangeCleared h hle (hright rfl hok.1 hok.2) setPrt users

def exClearDevice (pageShift : Nat) (h : 12 ≤ pageShift) : Device :=
  { pageShift := pageShift
    maxPfn := 1024
    gartPteFlags := 0
    keepsValid := fun _ => true
    getVmPte := fun _ _ flags => flags
    pageShift_ge := h
    gartPteFlags_valid := rfl
    getVmPte_valid := fun _ _ _ => (Bool.and_true _).symm }

def exClearVm : Vm :=
  { va := [{ boVa := some 0, start := 0, last := 15, offset := 0, flags := 0 }]
    freed := []
    boVa := fun _ => none
    pteSupportAts := false
    pte := fun _ => 0 }

theorem exClearVm_disjoint : exClearVm.Disjoint := pairwise_singleton _ _

/-- A mapping is split in three with CPU pages of 4 KiB. -/
theorem clear_mappings_right_split :
    ClearRight (exClearDevice 12 (by decide)) true exClearVm 0 0x4000 0x4000 true true :=
  (clear_mappings_right_iff _ true exClearVm_disjoint 0 0x4000 0x4000 true true).mpr
    fun _ _ _ => .inl rfl

/-- With CPU pages of 64 KiB, the fifth GPU page is mapped to byte `0x40000` when the four before it
are cleared. -/
theorem clear_mappings_moves_bytes :
    ¬ ClearRight (exClearDevice 16 (by decide)) true exClearVm 0 0 0x4000 true true := by
  intro h
  have hcleared : RangeCleared true 0 3 exClearVm (clearPagesPrt 16 true exClearVm 0 0 3).1 0
    (clearPagesPrt 16 true exClearVm 0 0 3).2 := h
  have hmaps : MapsTo (clearPagesPrt 16 true exClearVm 0 0 3).1.va 4 (some 0) 0x4000 0 :=
    (hcleared.outside 4 (.inr (by decide)) (some 0) 0x4000 0).mpr
      ⟨_, mem_singleton_self _, ⟨by decide, by decide⟩, rfl, rfl, rfl⟩
  rw [clearPagesPrt_vm] at hmaps
  exact not_mapsTo_after exClearVm_disjoint (by decide) (by decide) (by decide)
    (mem_singleton_self _) (by decide) (by decide) hmaps

end Amdkfd.VmMap
