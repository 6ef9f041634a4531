import Amdkfd.VmMap.Clear

/-!
# No orphan mapping
-/

namespace Amdkfd.VmMap

open Lib Function List Option

/-! ## Filling -/

section Fill
variable {dev : Device} {vm : Vm} {b : Nat} {v : BoVa}

theorem isValid_zero : isValid 0 = false := by decide

theorem isValid_or (x y : BitVec 64) : isValid (x ||| y) = (isValid x || isValid y) :=
  BitVec.getLsbD_or

theorem isValid_and_not {x y : BitVec 64} (hy : isValid y = false) :
    isValid (x &&& ~~~y) = isValid x := by
  unfold isValid at *
  rw [BitVec.getLsbD_and, BitVec.getLsbD_not, hy]
  simp

theorem isValid_boFlags (dev : Device) (bo : Option Bo) (clear : Bool) :
    isValid (boFlags dev bo clear) = (!clear && Backed bo) := by
  cases bo with
  | none => cases clear <;> exact isValid_zero
  | some bo =>
    have htmz : isValid (if bo.encrypted then pteTmz else 0) = false := by
      split <;> rfl
    have hwrite : isValid (if bo.readonly then 0 else pteWriteable) = false := by
      split <;> rfl
    have hread : isValid pteReadable = false := rfl
    have hpde : ∀ mem, isValid (ttmTtPdeFlags bo mem) =
        mem.any fun mem => decide (mem.memType ≠ .system) := by
      intro mem
      cases mem with
      | none => exact isValid_zero
      | some mem =>
        have hsystem : isValid (if mem.memType = .tt ∨ mem.memType = .doorbell ∨
            mem.memType = .preempt then pteSystem ||| if bo.ttCached then pteSnooped else 0
          else 0) = false := by
          split
          · split <;> rfl
          · rfl
        have hsnooped : isValid (if mem.memType = .vram ∧ mem.cached then pteSnooped else 0) =
            false := by
          split <;> rfl
        unfold ttmTtPdeFlags
        rw [isValid_or, isValid_or, hsystem, hsnooped]
        by_cases hmem : mem.memType = .system
        · simp only [hmem, ne_eq, not_true_eq_false, if_false, isValid_zero, Bool.or_false,
            Option.any_some, decide_false]
        · simp only [ne_eq, hmem, not_false_eq_true, if_true, Option.any_some, decide_true]
          rfl
    unfold boFlags ttmTtPteFlags Backed
    simp only [isValid_or, htmz, hwrite, hread, dev.gartPteFlags_valid, hpde, Bool.or_false]
    cases clear with
    | true => rfl
    | false => rfl

theorem isValid_updateFlags (dev : Device) (bo : Option Bo) (clear : Bool) (m : Mapping) :
    isValid (updateFlags dev bo clear m) = (!clear && Backed bo && dev.keepsValid m) := by
  have hmask : ∀ x y : BitVec 64, isValid y = false →
      isValid (if m.flags &&& y = 0 then x &&& ~~~y else x) = isValid x := by
    intro x y hy
    split
    · exact isValid_and_not hy
    · rfl
  unfold updateFlags
  rw [dev.getVmPte_valid, hmask _ _ rfl, hmask _ _ rfl, isValid_boFlags]

theorem Inv.relist (h : Inv dev vm) (hv : vm.boVa b = some v) {f : BoVa → BoVa}
    (hmem : ∀ m, m ∈ (f v).valids ∨ m ∈ (f v).invalids ↔ m ∈ v.valids ∨ m ∈ v.invalids)
    (honce : ∀ m ∈ (f v).valids, m ∉ (f v).invalids)
    (hshown : (f v).Current → ∀ m ∈ (f v).valids, ∀ x, m.Covers x →
      isValid (vm.pte x) = (f v).Shows dev m)
    (hsettled : ∀ m ∈ (f v).valids, ∀ fr ∈ vm.freed, m.Apart fr) : Inv dev (vm.modify b f) := by
  have hcases : ∀ {c w}, (vm.modify b f).boVa c = some w →
      (c = b ∧ w = f v) ∨ vm.boVa c = some w := by
    intro c w hw
    rcases modify_cases hw with ⟨hc, v0, hv0, rfl⟩ | ⟨-, hw⟩
    · obtain rfl := some.inj (hv.symm.trans hv0)
      exact .inl ⟨hc, rfl⟩
    · exact .inr hw
  refine ⟨⟨h.apart, h.nonempty, ?_, ?_, ?_⟩, h.covered, ?_, ?_⟩
  · intro m hm
    obtain ⟨c, w, hc, hw, hlist⟩ := h.owned m hm
    by_cases hcb : c = b
    · subst hcb
      obtain rfl := some.inj (hv.symm.trans hw)
      exact ⟨c, f v, hc, by rw [modify_boVa_self, hv]; rfl, (hmem m).mpr hlist⟩
    · exact ⟨c, w, hc, by rw [modify_boVa_of_ne f hcb, hw], hlist⟩
  · intro c w hw m hm
    rcases hcases hw with ⟨rfl, rfl⟩ | hw
    · exact h.listed c v hv m ((hmem m).mp hm)
    · exact h.listed c w hw m hm
  · intro c w hw m hm
    rcases hcases hw with ⟨rfl, rfl⟩ | hw
    · exact honce m hm
    · exact h.once c w hw m hm
  · intro c w hw hcur m hm
    rcases hcases hw with ⟨rfl, rfl⟩ | hw
    · exact hshown hcur m hm
    · exact h.shown c w hw hcur m hm
  · intro c w hw m hm
    rcases hcases hw with ⟨rfl, rfl⟩ | hw
    · exact hsettled m hm
    · exact h.settled c w hw m hm

theorem updateRange_spec (vm : Vm) (start last : Nat) (flags : BitVec 64) (o : Outcome) :
    ∃ pte', (updateRange vm start last flags o).1 = { vm with pte := pte' } ∧
      (∀ x, ¬(start ≤ x ∧ x ≤ last) → pte' x = vm.pte x) ∧
      ((updateRange vm start last flags o).2 = none →
        ∀ x, start ≤ x ∧ x ≤ last → pte' x = flags) := by
  cases o with
  | ok => exact ⟨_, rfl, fun x hx => if_neg hx, fun _ x hx => if_pos hx⟩
  | fail e written => exact ⟨_, rfl, fun x hx => if_neg hx, fun h => nomatch h⟩

theorem Inv.setPte (h : Inv dev vm) {m : Mapping} (hm : m ∈ vm.va)
    (hinvalid : ∀ b v, vm.boVa b = some v → m ∉ v.valids) {pte' : Nat → BitVec 64}
    (hsame : ∀ x, ¬m.Covers x → pte' x = vm.pte x) : Inv dev { vm with pte := pte' } := by
  refine ⟨⟨h.apart, h.nonempty, h.owned, h.listed, h.once⟩, ?_, ?_, h.settled⟩
  · intro x hx
    by_cases hcov : m.Covers x
    · exact .inl ⟨m, hm, hcov⟩
    · refine h.covered x ?_
      rw [← hsame x hcov]
      exact hx
  · intro b v hv hcur n hn x hx
    have hne : n ≠ m := fun heq => hinvalid b v hv (heq ▸ hn)
    have hapart := h.apart n (h.listed b v hv n (.inl hn)).1 m hm hne
    show isValid (pte' x) = _
    rw [hsame x (hapart.not_covers hx)]
    exact h.shown b v hv hcur n hn x hx

theorem updateLoop_spec (bo : Option Bo) (clear : Bool) (outcome : Nat → Outcome)
    (ms : List Mapping) : ∀ (i : Nat) {vm : Vm}, Inv dev vm →
    (∀ m ∈ ms, m ∈ vm.va ∧ ∀ b v, vm.boVa b = some v → m ∉ v.valids) →
    let r := updateLoop dev bo clear outcome ms i vm
    ∃ pte', r.1 = { vm with pte := pte' } ∧ Inv dev r.1 ∧
      (∀ x, ¬Covered ms x → pte' x = vm.pte x) ∧
      (r.2 = none → ∀ m ∈ ms, ∀ x, m.Covers x → pte' x = updateFlags dev bo clear m) := by
  induction ms with
  | nil => exact fun i vm h _ => ⟨vm.pte, rfl, h, fun _ _ => rfl, fun _ _ hm => nomatch hm⟩
  | cons m ms ih =>
    intro i vm h hms
    obtain ⟨hmva, hinvalid⟩ := hms m mem_cons_self
    obtain ⟨pte1, heq, hout, hin⟩ := updateRange_spec vm m.start m.last
      (updateFlags dev bo clear m) (outcome i)
    have hinv : Inv dev { vm with pte := pte1 } := h.setPte hmva hinvalid hout
    unfold updateLoop
    cases hres : updateRange vm m.start m.last (updateFlags dev bo clear m) (outcome i) with
    | mk vm1 e =>
      rw [hres] at heq hin
      obtain rfl : vm1 = { vm with pte := pte1 } := heq
      cases e with
      | some e =>
        refine ⟨pte1, rfl, hinv, fun x hx => hout x fun hcov => hx ?_, fun h => nomatch h⟩
        exact ⟨m, mem_cons_self, hcov⟩
      | none =>
        obtain ⟨pte', heq', hinv', hout', hin'⟩ := ih (i + 1) hinv fun n hn =>
          hms n (mem_cons_of_mem _ hn)
        refine ⟨pte', heq', hinv', fun x hx => ?_, fun hnone n hn x hx => ?_⟩
        · have hrest : ¬Covered ms x := fun ⟨n, hn, hcov⟩ =>
            hx ⟨n, mem_cons_of_mem _ hn, hcov⟩
          exact (hout' x hrest).trans (hout x fun hcov => hx ⟨m, mem_cons_self, hcov⟩)
        · by_cases hlater : n ∈ ms
          · exact hin' hnone n hlater x hx
          · -- The mapping is the first one, and no later one has its pages.
            obtain rfl : n = m := (mem_cons.mp hn).resolve_right hlater
            have hrest : ¬Covered ms x := by
              rintro ⟨k, hk, hcov⟩
              have hne : n ≠ k := fun heq => hlater (heq ▸ hk)
              exact (h.apart n hmva k (hms k (mem_cons_of_mem _ hk)).1 hne).not_covers hx hcov
            exact (hout' x hrest).trans (hin rfl x hx)

theorem splice_cases (v : BoVa) (clear : Bool) :
    (splice v clear = v ∧ v.cleared = clear ∧ v.Current) ∨
      splice v clear = { v with valids := [], invalids := v.valids ++ v.invalids } := by
  unfold splice
  split
  · exact .inr rfl
  · next h =>
    rw [not_or, not_not, not_and] at h
    refine .inl ⟨rfl, h.2, ?_⟩
    cases hclear : clear with
    | false => exact .inl (Bool.eq_false_iff.mpr (h.1 hclear))
    | true => exact .inr (h.2.trans hclear)

theorem Inv.boUpdate (h : Inv dev vm) (clear : Bool) (outcome : Nat → Outcome)
    (hok : ∀ v, vm.boVa b = some v → ∀ m ∈ (splice v clear).invalids, ∀ f ∈ vm.freed, m.Apart f) :
    Inv dev (boUpdate dev vm b clear outcome).1 := by
  unfold VmMap.boUpdate
  cases hv : vm.boVa b with
  | none => exact h
  | some v =>
    dsimp only
    generalize hv1 : splice v clear = v1
    have hcases := splice_cases v clear
    rw [hv1] at hcases
    have hmem : ∀ m, m ∈ v1.valids ∨ m ∈ v1.invalids ↔ m ∈ v.valids ∨ m ∈ v.invalids := by
      intro m
      rcases hcases with ⟨rfl, -⟩ | rfl
      · rfl
      · simp
    have hvalids : ∀ m ∈ v1.valids, v1 = v ∧ v.cleared = clear ∧ v.Current := by
      intro m hm
      rcases hcases with ⟨rfl, hrest⟩ | rfl
      · exact ⟨rfl, hrest⟩
      · exact absurd hm not_mem_nil
    have honce : ∀ m ∈ v1.valids, m ∉ v1.invalids := by
      intro m hm
      obtain ⟨rfl, -⟩ := hvalids m hm
      exact h.once b v1 hv m hm
    have hsettled : ∀ m ∈ v1.valids, ∀ f ∈ vm.freed, m.Apart f := by
      intro m hm
      obtain ⟨rfl, -⟩ := hvalids m hm
      exact h.settled b v1 hv m hm
    have hspliced : Inv dev (vm.modify b fun _ => v1) := by
      refine h.relist hv hmem honce (fun hcur m hm x hx => ?_) hsettled
      obtain ⟨rfl, -⟩ := hvalids m hm
      exact h.shown b v1 hv hcur m hm x hx
    have hself : (vm.modify b fun _ => v1).boVa b = some v1 := by
      rw [modify_boVa_self, hv]
      rfl
    obtain ⟨pte', heq, hinv, hout, hin⟩ := updateLoop_spec v1.bo clear outcome v1.invalids 0
      hspliced fun m hm => by
        obtain ⟨hva, hown⟩ := hspliced.listed b v1 hself m (.inr hm)
        refine ⟨hva, fun c w hw hmw => ?_⟩
        obtain rfl := some.inj (hown.symm.trans (hspliced.listed c w hw m (.inl hmw)).2)
        obtain rfl := some.inj (hself.symm.trans hw)
        exact honce m hmw hm
    generalize updateLoop dev v1.bo clear outcome v1.invalids 0 _ = r at heq hinv hin
    obtain ⟨vm', e⟩ := r
    cases e with
    | some e => exact hinv
    | none =>
      have hself' : vm'.boVa b = some v1 := by
        rw [show vm' = _ from heq]
        exact hself
      have hpte : vm'.pte = pte' := by rw [show vm' = _ from heq]
      have hfreed : vm'.freed = vm.freed := by
        rw [show vm' = _ from heq]
        rfl
      refine hinv.relist hself' (fun m => ?_) (fun m _ hm => absurd hm not_mem_nil) ?_ ?_
      · simp [or_comm]
      · intro _ m hm x hx
        show isValid (vm'.pte x) = _
        rcases mem_append.mp hm with hm | hm
        · rw [hpte, hin rfl m hm x hx]
          exact isValid_updateFlags dev v1.bo clear m
        · obtain ⟨rfl, hcleared, hcur⟩ := hvalids m hm
          refine (hinv.shown b v1 hself' hcur m hm x hx).trans ?_
          unfold BoVa.Shows
          rw [hcleared]
      · intro m hm f hf
        rw [hfreed] at hf
        rcases mem_append.mp hm with hm | hm
        · exact hok v hv m (hv1 ▸ hm) f hf
        · exact hsettled m hm f hf

theorem clearFreedLoop_inv {outcome : Nat → Outcome} (ms : List Mapping) :
    ∀ (i : Nat) (initPteValue : BitVec 64) {vm : Vm}, Inv dev vm → vm.freed = ms →
    isValid initPteValue = false → (∀ j < ms.length, outcome (i + j) = .ok) →
    Inv dev (clearFreedLoop outcome ms i initPteValue vm).1 := by
  induction ms with
  | nil => exact fun _ _ _ h _ _ _ => h
  | cons m ms ih =>
    intro i initPteValue vm h hfreed hinit hok
    have hvalue : isValid (if vm.pteSupportAts ∧ m.start < gmcHoleStart then pteDefaultAtc
        else initPteValue) = false := by
      split
      · decide
      · exact hinit
    have hfirst : outcome i = .ok := hok 0 (Nat.zero_lt_succ _)
    unfold clearFreedLoop
    rw [hfirst]
    refine ih (i + 1) _ ?_ rfl hvalue fun j hj => ?_
    · refine ⟨⟨h.apart, h.nonempty, h.owned, h.listed, h.once⟩, fun x hx => ?_,
        fun b v hv hcur n hn x hx => ?_, fun b v hv n hn f hf => ?_⟩
      · -- A page that is still valid is not one of the mapping that has been cleared.
        have hout : ¬(m.start ≤ x ∧ x ≤ m.last) := by
          intro hin
          dsimp only at hx
          rw [if_pos hin, hvalue] at hx
          cases hx
        dsimp only at hx
        rw [if_neg hout] at hx
        refine (h.covered x hx).imp id fun ⟨f, hf, hcov⟩ => ?_
        rw [hfreed] at hf
        rcases mem_cons.mp hf with rfl | hf
        · exact absurd hcov hout
        · exact ⟨f, hf, hcov⟩
      · have hapart := h.settled b v hv n hn m (hfreed ▸ mem_cons_self)
        have hout : ¬(m.start ≤ x ∧ x ≤ m.last) := hapart.not_covers hx
        dsimp only
        rw [if_neg hout]
        exact h.shown b v hv hcur n hn x hx
      · exact h.settled b v hv n hn f (hfreed ▸ mem_cons_of_mem _ hf)
    · have := hok (j + 1) (Nat.succ_lt_succ hj)
      rwa [show i + (j + 1) = i + 1 + j by omega] at this

theorem Inv.clearFreed (h : Inv dev vm) {outcome : Nat → Outcome}
    (hok : ∀ j < vm.freed.length, outcome j = .ok) : Inv dev (clearFreed vm outcome).1 :=
  clearFreedLoop_inv vm.freed 0 0 h rfl isValid_zero fun j hj => by
    rw [Nat.zero_add]
    exact hok j hj

theorem Inv.boAdd (h : Inv dev vm) (b : Nat) (bo : Option Bo) (moved : Bool) :
    Inv dev (boAdd vm b bo moved) := by
  unfold VmMap.boAdd
  cases hb : vm.boVa b with
  | some v => exact h
  | none =>
    dsimp only
    generalize hnew : (⟨bo, moved, false, [], []⟩ : BoVa) = new
    have hempty : new.valids = [] ∧ new.invalids = [] := by
      rw [← hnew]
      exact ⟨rfl, rfl⟩
    have hcases : ∀ {c w}, update vm.boVa b (some new) c = some w →
        w = new ∨ vm.boVa c = some w := by
      intro c w hw
      rw [update_apply] at hw
      split at hw
      · exact .inl (some.inj hw).symm
      · exact .inr hw
    refine ⟨⟨h.apart, h.nonempty, fun m hm => ?_, fun c w hw m hm => ?_, fun c w hw m hm => ?_⟩,
      h.covered, fun c w hw hcur m hm => ?_, fun c w hw m hm => ?_⟩
    · obtain ⟨c, w, hc, hw, hlist⟩ := h.owned m hm
      refine ⟨c, w, hc, ?_, hlist⟩
      have hcb : c ≠ b := by
        rintro rfl
        rw [hb] at hw
        cases hw
      exact (update_of_ne hcb ..).trans hw
    · rcases hcases hw with rfl | hw
      · rw [hempty.1, hempty.2] at hm
        exact absurd hm (by simp)
      · exact h.listed c w hw m hm
    · rcases hcases hw with rfl | hw
      · rw [hempty.1] at hm
        exact absurd hm not_mem_nil
      · exact h.once c w hw m hm
    · rcases hcases hw with rfl | hw
      · rw [hempty.1] at hm
        exact absurd hm not_mem_nil
      · exact h.shown c w hw hcur m hm
    · rcases hcases hw with rfl | hw
      · rw [hempty.1] at hm
        exact absurd hm not_mem_nil
      · exact h.settled c w hw m hm

theorem Inv.boMove (h : Inv dev vm) (b : Nat) (resource : Option Resource) :
    Inv dev (boMove vm b resource) := by
  cases hv : vm.boVa b with
  | none =>
    have hsame : VmMap.boMove vm b resource = vm := by
      unfold VmMap.boMove Vm.modify
      rw [hv, Option.map_none, ← hv, update_eq_self]
    rw [hsame]
    exact h
  | some v =>
    refine h.relist hv (fun _ => Iff.rfl) (h.once b v hv) (fun hcur m hm x hx => ?_)
      (h.settled b v hv)
    have hcleared : v.cleared = true := by
      rcases hcur with hmoved | hcleared
      · cases hmoved
      · exact hcleared
    refine (h.shown b v hv (.inr hcleared) m hm x hx).trans ?_
    unfold BoVa.Shows
    rw [hcleared]
    rfl

end Fill

/-! ## Runs -/

section Run
variable {dev : Device} {vm : Vm}

/-- What a step must not do: `amdgpu_vm_bo_unmap` and `amdgpu_vm_bo_del` drop no invalid mapping
whose entries are valid, `amdgpu_vm_bo_update` writes no mapping that overlaps one on `freed`, and
the updates of `amdgpu_vm_clear_freed` succeed. -/
def StepOk (vm : Vm) : Op → Prop
  | .boUnmap b saddr => ∀ v m, vm.boVa b = some v →
    unmapTarget v (startPage saddr) = some (m, false) →
    ∀ x, m.Covers x → isValid (vm.pte x) = true → Covered vm.freed x
  | .boDel b => ∀ v, vm.boVa b = some v → ∀ m ∈ v.invalids,
    ∀ x, m.Covers x → isValid (vm.pte x) = true → Covered vm.freed x
  | .boUpdate b clear _ => ∀ v, vm.boVa b = some v → ∀ m ∈ (splice v clear).invalids,
    ∀ f ∈ vm.freed, m.Apart f
  | .clearFreed outcome => ∀ i < vm.freed.length, outcome i = .ok
  | _ => True

theorem Inv.step (h : Inv dev vm) (op : Op) (hok : StepOk vm op) : Inv dev (step dev vm op) := by
  cases op with
  | boAdd b bo moved => exact h.boAdd b bo moved
  | boMap b saddr offset size flags kmalloc =>
    show Inv dev (if (vm.boVa b).isSome then _ else vm)
    split
    · exact h.boMap ‹_› ..
    · exact h
  | boReplaceMap b saddr offset size flags kmalloc beforeOk afterOk =>
    show Inv dev (if (vm.boVa b).isSome then _ else vm)
    split
    · exact h.boReplaceMap ‹_› ..
    · exact h
  | boUnmap b saddr => exact h.boUnmap hok
  | boClearMappings saddr size beforeOk afterOk => exact h.boClearMappings ..
  | boDel b => exact h.boDel hok
  | boUpdate b clear outcome => exact h.boUpdate clear outcome hok
  | clearFreed outcome => exact h.clearFreed hok
  | boMove b resource => exact h.boMove b resource

/-- A VM without mappings, whose entries are not valid. -/
structure Vm.Fresh (vm : Vm) : Prop where
  va : vm.va = []
  freed : vm.freed = []
  boVa : ∀ b, vm.boVa b = none
  pte : ∀ x, isValid (vm.pte x) = false

theorem Vm.Fresh.inv (h : vm.Fresh) : Inv dev vm := by
  have hnone : ∀ {P : Prop} {b v}, vm.boVa b = some v → P := by
    intro P b v hv
    rw [h.boVa] at hv
    cases hv
  refine ⟨⟨?_, ?_, ?_, fun _ _ hv => hnone hv, fun _ _ hv => hnone hv⟩, fun x hx => ?_,
    fun _ _ hv => hnone hv, fun _ _ hv => hnone hv⟩
  · simp [h.va]
  · simp [h.va]
  · simp [h.va]
  · rw [h.pte] at hx
    cases hx

/-- Every page with a valid entry lies in a mapping of the VM or in one on `freed`. -/
def NoOrphan (vm : Vm) : Prop :=
  ∀ x, isValid (vm.pte x) = true → Covered vm.va x ∨ Covered vm.freed x

def Vm.Settled (vm : Vm) : Prop :=
  vm.freed = [] ∧ ∀ b v, vm.boVa b = some v → v.invalids = []

/-- The pages with a valid entry are those of the mappings whose `amdgpu_bo_va` was last filled and
not cleared, with a BO that has memory, save for mappings whose entries are never valid. -/
def TablesShow (dev : Device) (vm : Vm) : Prop :=
  ∀ x, isValid (vm.pte x) = true ↔
    ∃ m ∈ vm.va, m.Covers x ∧ ∃ b v, m.boVa = some b ∧ vm.boVa b = some v ∧ v.Shows dev m = true

theorem Inv.tablesShow (h : Inv dev vm) (hsettled : vm.Settled)
    (hcur : ∀ b v, vm.boVa b = some v → v.Current) : TablesShow dev vm := by
  obtain ⟨hfreed, hinvalids⟩ := hsettled
  have hvalids : ∀ m ∈ vm.va, ∃ b v, m.boVa = some b ∧ vm.boVa b = some v ∧ m ∈ v.valids := by
    intro m hm
    obtain ⟨b, v, hb, hv, hlist⟩ := h.owned m hm
    refine ⟨b, v, hb, hv, hlist.resolve_right ?_⟩
    rw [hinvalids b v hv]
    exact not_mem_nil
  intro x
  constructor
  · intro hx
    rcases h.covered x hx with ⟨m, hm, hcov⟩ | ⟨f, hf, -⟩
    · obtain ⟨b, v, hb, hv, hmem⟩ := hvalids m hm
      refine ⟨m, hm, hcov, b, v, hb, hv, ?_⟩
      rw [← h.shown b v hv (hcur b v hv) m hmem x hcov]
      exact hx
    · rw [hfreed] at hf
      exact absurd hf not_mem_nil
  · rintro ⟨m, hm, hcov, b, v, hb, hv, hshows⟩
    obtain ⟨c, w, hc, hw, hmem⟩ := hvalids m hm
    obtain rfl := some.inj (hb.symm.trans hc)
    obtain rfl := some.inj (hv.symm.trans hw)
    rw [h.shown b v hv (hcur b v hv) m hmem x hcov]
    exact hshows

/-- After every run of calls that meet `StepOk` no valid entry is without a mapping, and when
nothing waits to be cleared or filled the valid entries are those of the mappings. -/
theorem noOrphan_run (hfresh : vm.Fresh) {ops : List Op}
    (hok : StepsOk (step dev) StepOk vm ops) :
    NoOrphan (run (step dev) vm ops) ∧
      ((run (step dev) vm ops).Settled →
        (∀ b v, (run (step dev) vm ops).boVa b = some v → v.Current) →
        TablesShow dev (run (step dev) vm ops)) := by
  have hinv : Inv dev (run (step dev) vm ops) :=
    run_inv_of_stepsOk (fun _ op h hok => h.step op hok) hfresh.inv hok
  exact ⟨hinv.covered, hinv.tablesShow⟩

def exGetVmPte (m : Mapping) (flags : BitVec 64) : BitVec 64 :=
  let flags := flags &&& ~~~pteExecutable ||| (m.flags &&& pteExecutable)
  if m.flags &&& ptePrt = 0 then flags
  else (flags ||| ptePrt ||| pteSnooped ||| pteSystem) &&& ~~~pteValid

theorem exGetVmPte_valid (m : Mapping) (flags : BitVec 64) :
    isValid (exGetVmPte m flags) = (isValid flags && decide (m.flags &&& ptePrt = 0)) := by
  have hexec : isValid (m.flags &&& pteExecutable) = false := by
    unfold isValid
    rw [BitVec.getLsbD_and]
    exact Bool.and_false _
  have hflags : isValid (flags &&& ~~~pteExecutable ||| (m.flags &&& pteExecutable)) =
      isValid flags := by
    rw [isValid_or, hexec, Bool.or_false]
    exact isValid_and_not rfl
  unfold exGetVmPte
  split
  · next h => rw [hflags, decide_eq_true h, Bool.and_true]
  · next h =>
    rw [decide_eq_false h, Bool.and_false]
    unfold isValid
    rw [BitVec.getLsbD_and]
    exact Bool.and_false _

def exDevice : Device :=
  { pageShift := 12
    maxPfn := 1024
    gartPteFlags := 0
    keepsValid := fun m => m.flags &&& ptePrt = 0
    getVmPte := fun _ => exGetVmPte
    pageShift_ge := Nat.le_refl 12
    gartPteFlags_valid := isValid_zero
    getVmPte_valid := fun _ => exGetVmPte_valid }

def exBo : Bo :=
  { size := 0x4000
    resource := some { memType := .vram, cached := false }
    ttCached := false
    readonly := false
    encrypted := false }

def exVm : Vm :=
  { va := [], freed := [], boVa := fun _ => none, pteSupportAts := false, pte := fun _ => 0 }

theorem exVm_fresh : exVm.Fresh :=
  ⟨rfl, rfl, fun _ => rfl, fun _ => isValid_zero⟩

def exMap : List Op :=
  [.boAdd 0 (some exBo) false, .boMap 0 0 0 0x3000 (pteReadable ||| pteWriteable) true]

def exOk : Nat → Outcome :=
  fun _ => .ok

/-- Page 1 of a mapping that has been filled is cleared, and both pieces are filled again. -/
def exOps : List Op :=
  exMap ++ [.boUpdate 0 false exOk, .boClearMappings 0x1000 0x1000 true true, .clearFreed exOk,
    .boUpdate 0 false exOk]

theorem exOps_ok : StepsOk (step exDevice) StepOk exVm exOps := by
  refine ⟨trivial, trivial, fun _ _ _ _ f hf => ?_, trivial, fun _ _ => rfl,
    fun _ _ _ _ f hf => ?_, trivial⟩
  · exact absurd hf not_mem_nil
  · exact absurd hf not_mem_nil

/-- The two pieces that are left are what the page table shows. -/
theorem noOrphan_run_exOps : NoOrphan (run (step exDevice) exVm exOps) ∧
    ((run (step exDevice) exVm exOps).Settled →
      (∀ b v, (run (step exDevice) exVm exOps).boVa b = some v → v.Current) →
      TablesShow exDevice (run (step exDevice) exVm exOps)) :=
  noOrphan_run exVm_fresh exOps_ok

/-- The page table shows the pages of the mappings, when nothing waits. -/
def TablesMatch (vm : Vm) : Prop :=
  vm.Settled → ∀ x, isValid (vm.pte x) = true ↔ Covered vm.va x

def exClear : List Op :=
  exMap ++ [.boUpdate 0 true exOk]

def exUnmapPiece : List Op :=
  exMap ++ [.boUpdate 0 false exOk, .boClearMappings 0x1000 0x1000 true true, .boUnmap 0 0]

def exClearFails : List Op :=
  exMap ++ [.boUpdate 0 false exOk, .boUnmap 0 0, .clearFreed fun _ => .fail .ebusy fun _ => false]

/-- After a clear the mappings of the VM are not valid. A piece that is unmapped before it is
filled again, and a mapping whose clearing fails, leave valid entries behind. -/
theorem noOrphan_fails : exVm.Fresh ∧ ¬TablesMatch (run (step exDevice) exVm exClear) ∧
    ¬NoOrphan (run (step exDevice) exVm exUnmapPiece) ∧
    ¬NoOrphan (run (step exDevice) exVm exClearFails) := by
  refine ⟨exVm_fresh, fun h => ?_, fun h => ?_, fun h => ?_⟩
  · have hsettled : (run (step exDevice) exVm exClear).Settled := by
      refine ⟨rfl, fun b v hv => ?_⟩
      by_cases hb : b = 0
      · subst hb
        obtain rfl := some.inj hv
        rfl
      · have hnone : (run (step exDevice) exVm exClear).boVa b = none := by
          -- Every call has changed the `amdgpu_bo_va` at 0 only.
          refine (modify_boVa_of_ne _ hb).trans ((modify_boVa_of_ne _ hb).trans ?_)
          exact (modify_boVa_of_ne _ hb).trans (update_of_ne hb ..)
        rw [hnone] at hv
        cases hv
    have hvalid := (h hsettled 0).mpr (by decide)
    revert hvalid
    decide
  · rcases h 0 (by decide) with hcov | hcov <;> revert hcov <;> decide
  · rcases h 0 (by decide) with hcov | hcov <;> revert hcov <;> decide

end Run

end Amdkfd.VmMap
