import Amdkfd.Vm.Status

/-!
# The status lists survive failures

A `vm_bo` is on one status list at most, and what is not up to date in the page tables is on a
list from which it is brought up to date.
-/

namespace Amdkfd.VmStatus

open List
open Function (update_self update_of_ne update_eq_self update_idem)

/-! ## The invariant -/

def VmBo.PteStale (b : VmBo) : Prop :=
  ∃ m ∈ b.valids ++ b.invalids, m.stale = true

def VmBo.isRoot (b : VmBo) : Bool :=
  b.kernel && !b.hasParent

/-- `on` is where a `vm_bo` may be: a table with a stale parent entry is on `relocated`, or on
`evicted` until it is validated; a BO with stale entries is on `moved`, `invalidated` or
`evicted`; one that is marked as moved is on one of these; and each list has what it is for. -/
structure VmBo.Placed (b : VmBo) (on : Status → Prop) : Prop where
  table : b.kernel = true → b.hasParent = true → b.pdeStale = true → on .relocated ∨ on .evicted
  entries : b.kernel = false → b.PteStale → on .moved ∨ on .invalidated ∨ on .evicted
  marked : b.moved = true → b.isRoot = false →
    on .evicted ∨ on .relocated ∨ on .moved ∨ on .invalidated
  valids : ∀ m ∈ b.valids, m.stale = true → b.moved = true ∧ b.cleared = false
  relocated : on .relocated → b.kernel = true ∧ b.hasParent = true
  evicted : on .evicted → b.hasBo = true
  kernel : b.kernel = true →
    b.hasBo = true ∧ b.valids = [] ∧ ¬ on .moved ∧ ¬ on .invalidated ∧ ¬ on .done

structure Vm.Ok (vm : Vm) : Prop where
  nodup : ∀ st, (vm.lists st).Nodup
  apart : ∀ id st st', id ∈ vm.lists st → id ∈ vm.lists st' → st = st'
  placed : ∀ id, (vm.bo id).Placed fun st => id ∈ vm.lists st

def Vm.Tracks (vm : Vm) (id : Nat) : Prop :=
  ∃ st, id ∈ vm.lists st

/-- What is on a list of `vm` is on exactly one of `vm'`, and what is not up to date is where it
is brought up to date. -/
structure Survives (vm vm' : Vm) : Prop where
  ok : vm'.Ok
  tracks : ∀ id, vm.Tracks id → vm'.Tracks id

section Lists
variable {vm : Vm} {id x : Nat} {st s : Status} {b : VmBo}

theorem Survives.refl (h : vm.Ok) : Survives vm vm :=
  ⟨h, fun _ hid => hid⟩

theorem Survives.trans {vm' vm'' : Vm} (h : Survives vm vm') (h' : Survives vm' vm'') :
    Survives vm vm'' :=
  ⟨h'.ok, fun id hid => h'.tracks id (h.tracks id hid)⟩

structure MovedTo (old : Status → List Nat) (id : Nat) (st : Status)
    (new : Status → List Nat) : Prop where
  nodup : ∀ s, (new s).Nodup
  mem : ∀ x s, x ∈ new s ↔ (x = id ∧ s = st) ∨ (x ≠ id ∧ x ∈ old s)

theorem movedTo_listMove (h : ∀ s, (vm.lists s).Nodup) (id : Nat) (st : Status) :
    MovedTo vm.lists id st (vm.listMove id st).lists := by
  refine ⟨fun s => ?_, fun x s => ?_⟩
  · simp only [Vm.listMove]
    split
    · exact nodup_cons.mpr ⟨(h s).not_mem_erase, (h s).erase id⟩
    · exact (h s).erase id
  · simp only [Vm.listMove]
    split
    · next hs => rw [mem_cons, (h s).mem_erase_iff, and_iff_left hs]
    · next hs =>
      rw [(h s).mem_erase_iff]
      exact ⟨Or.inr, fun hx => hx.resolve_left fun heq => hs heq.2⟩

theorem movedTo_listMoveTail (h : ∀ s, (vm.lists s).Nodup) (id : Nat) (st : Status) :
    MovedTo vm.lists id st (vm.listMoveTail id st).lists := by
  have hfront := movedTo_listMove h id st
  have hperm : ∀ s, ((vm.listMoveTail id st).lists s).Perm ((vm.listMove id st).lists s) := by
    intro s
    simp only [Vm.listMoveTail, Vm.listMove]
    split
    · exact perm_append_singleton id _
    · exact Perm.refl _
  exact ⟨fun s => (hperm s).nodup_iff.mpr (hfront.nodup s),
    fun x s => (hperm s).mem_iff.trans (hfront.mem x s)⟩

theorem Vm.Ok.place {vm' : Vm} (h : vm.Ok) (hlists : MovedTo vm.lists id st vm'.lists)
    (hbo : vm'.bo = Function.update vm.bo id b) (hb : b.Placed (· = st)) : Survives vm vm' := by
  refine ⟨⟨hlists.nodup, fun x s s' hs hs' => ?_, fun x => ?_⟩, fun x ⟨s, hx⟩ => ?_⟩
  · rcases (hlists.mem x s).mp hs with ⟨rfl, rfl⟩ | ⟨hne, hs⟩
    · exact ((hlists.mem x s').mp hs').elim (·.2.symm) fun hx => absurd rfl hx.1
    · rcases (hlists.mem x s').mp hs' with ⟨heq, -⟩ | ⟨-, hs'⟩
      · exact absurd heq hne
      · exact h.apart x s s' hs hs'
  · rcases eq_or_ne x id with rfl | hne
    · rw [hbo, update_self]
      have hon : (fun st => x ∈ vm'.lists st) = (· = st) := by
        funext s
        exact propext ((hlists.mem x s).trans ⟨fun hx => hx.elim (·.2) fun hx => absurd rfl hx.1,
          fun hs => Or.inl ⟨rfl, hs⟩⟩)
      rw [hon]
      exact hb
    · rw [hbo, update_of_ne hne]
      have hon : (fun st => x ∈ vm'.lists st) = fun st => x ∈ vm.lists st := by
        funext s
        exact propext ((hlists.mem x s).trans ⟨fun hx => hx.elim (fun hx => absurd hx.1 hne) (·.2),
          fun hs => Or.inr ⟨hne, hs⟩⟩)
      rw [hon]
      exact h.placed x
  · rcases eq_or_ne x id with rfl | hne
    · exact ⟨st, (hlists.mem x st).mpr (Or.inl ⟨rfl, rfl⟩)⟩
    · exact ⟨s, (hlists.mem x s).mpr (Or.inr ⟨hne, hx⟩)⟩

theorem Vm.Ok.setBo (h : vm.Ok) (hb : b.Placed fun st => id ∈ vm.lists st) :
    Survives vm (vm.setBo id b) := by
  refine ⟨⟨h.nodup, h.apart, fun x => ?_⟩, fun x hx => hx⟩
  show VmBo.Placed (Function.update vm.bo id b x) _
  rcases eq_or_ne x id with rfl | hne
  · rw [update_self]
    exact hb
  · rw [update_of_ne hne]
    exact h.placed x

theorem Vm.Ok.listMove (h : vm.Ok) (hb : b.Placed (· = st)) :
    Survives vm ((vm.setBo id b).listMove id st) :=
  h.place (@movedTo_listMove (vm.setBo id b) h.nodup id st) rfl hb

theorem Vm.Ok.listMove_same (h : vm.Ok) (hb : (vm.bo id).Placed (· = st)) :
    Survives vm (vm.listMove id st) :=
  h.place (movedTo_listMove h.nodup id st) (update_eq_self id vm.bo).symm hb

end Lists

/-! ## The state machine -/

section Machine
variable {vm : Vm} {id : Nat}

variable {b : VmBo}

theorem boEvicted_survives (h : vm.Ok) (hb : VmBo.Placed { b with moved := true } (· = .evicted)) :
    Survives vm (boEvicted (vm.setBo id b) id) := by
  unfold boEvicted
  simp only [Vm.setBo, update_self, update_idem]
  split
  · exact h.place (movedTo_listMove h.nodup id .evicted) rfl hb
  · exact h.place (movedTo_listMoveTail h.nodup id .evicted) rfl hb

theorem boIdle_survives (h : vm.Ok)
    (hb : VmBo.Placed { vm.bo id with moved := false } (· = .idle)) : Survives vm (boIdle vm id) :=
  h.listMove hb

theorem boRelocated_survives (h : vm.Ok) (hkernel : (vm.bo id).kernel = true)
    (hb : (vm.bo id).hasBo = true ∧ (vm.bo id).valids = []) : Survives vm (boRelocated vm id) := by
  unfold boRelocated
  split
  · next hparent =>
    refine h.listMove_same ⟨fun _ _ _ => Or.inl rfl, fun hno => ?_, fun _ _ => Or.inr (Or.inl rfl),
      fun m hm => ?_, fun _ => ⟨hkernel, hparent⟩, nofun,
        fun _ => ⟨hb.1, hb.2, nofun, nofun, nofun⟩⟩
    · rw [hkernel] at hno
      cases hno
    · rw [hb.2] at hm
      cases hm
  · next hroot =>
    refine boIdle_survives h ⟨fun _ hparent => absurd hparent hroot, fun hno => ?_, nofun,
      fun m hm => ?_, nofun, nofun, fun _ => ⟨hb.1, hb.2, nofun, nofun, nofun⟩⟩
    · rw [hkernel] at hno
      cases hno
    · rw [hb.2] at hm
      cases hm

variable {on : Status → Prop}

theorem VmBo.Placed.toMoved (h : b.Placed on) (hkernel : b.kernel = false) :
    b.Placed (· = .moved) where
  table hk := by rw [hkernel] at hk; cases hk
  entries _ _ := Or.inl rfl
  marked _ _ := Or.inr (Or.inr (Or.inl rfl))
  valids := h.valids
  relocated := nofun
  evicted := nofun
  kernel hk := by rw [hkernel] at hk; cases hk

theorem resetIdle_survives (h : vm.Ok) (id : Nat) : Survives vm (resetIdle vm id) := by
  have hb := h.placed id
  have hvalids : ∀ m ∈ (vm.bo id).valids, m.stale = true →
      true = true ∧ (vm.bo id).cleared = false :=
    fun m hm hstale => ⟨rfl, (hb.valids m hm hstale).2⟩
  unfold resetIdle
  simp only
  split
  · next hother =>
    have hkernel : (vm.bo id).kernel = false := by
      cases hk : (vm.bo id).kernel with
      | false => rfl
      | true =>
        rcases hother with hno | hno
        · rw [(hb.kernel hk).1] at hno
          cases hno
        · rw [hk] at hno
          cases hno
    refine h.listMove ⟨fun hk => ?_, fun _ _ => Or.inl rfl, fun _ _ => Or.inr (Or.inr (Or.inl rfl)),
      hvalids, nofun, nofun, fun hk => ?_⟩
    · rw [hkernel] at hk
      cases hk
    · rw [hkernel] at hk
      cases hk
  · next hother =>
    have hkernel : (vm.bo id).kernel = true := by
      cases hk : (vm.bo id).kernel with
      | true => rfl
      | false => exact absurd (Or.inr hk) hother
    have hkeep := hb.kernel hkernel
    have hnotBo : ¬ (vm.bo id).kernel = false := by rw [hkernel]; nofun
    split
    · next hparent =>
      exact h.listMove ⟨fun _ _ _ => Or.inl rfl, fun hno => absurd hno hnotBo,
        fun _ _ => Or.inr (Or.inl rfl), hvalids, fun _ => ⟨hkernel, hparent⟩, nofun,
        fun _ => ⟨hkeep.1, hkeep.2.1, nofun, nofun, nofun⟩⟩
    · next hroot =>
      refine h.setBo ⟨fun _ hparent => absurd hparent hroot, fun hno => absurd hno hnotBo,
        fun _ hno => ?_, hvalids, hb.relocated, hb.evicted, fun _ => hkeep⟩
      simp [VmBo.isRoot, hkernel, hroot] at hno

theorem resetFold_survives (h : vm.Ok) (ids : List Nat) : Survives vm (ids.foldl resetIdle vm) := by
  induction ids generalizing vm with
  | nil => exact Survives.refl h
  | cons id ids ih =>
    have hone := resetIdle_survives h id
    exact hone.trans (ih hone.ok)

theorem spliceDone_survives (h : vm.Ok) : Survives vm (spliceDone vm) := by
  have hmem : ∀ id st, id ∈ (spliceDone vm).lists st →
      (st = .invalidated ∧ id ∈ vm.lists .done) ∨ (st ≠ .done ∧ id ∈ vm.lists st) := by
    intro id st hid
    cases st with
    | invalidated =>
      rcases mem_append.mp hid with hdone | hinv
      · exact Or.inl ⟨rfl, hdone⟩
      · exact Or.inr ⟨nofun, hinv⟩
    | done => cases hid
    | _ => exact Or.inr ⟨nofun, hid⟩
  have hback : ∀ id st, st ≠ .done → id ∈ vm.lists st → id ∈ (spliceDone vm).lists st := by
    intro id st hst hid
    cases st with
    | invalidated => exact mem_append_right _ hid
    | done => exact absurd rfl hst
    | _ => exact hid
  refine ⟨⟨fun st => ?_, fun id st st' hid hid' => ?_, fun id => ?_⟩, fun id ⟨st, hid⟩ => ?_⟩
  · cases st with
    | invalidated =>
      refine Nodup.append (h.nodup _) (h.nodup _) fun id hdone hinv => ?_
      cases h.apart id _ _ hdone hinv
    | done => exact nodup_nil
    | _ => exact h.nodup _
  · rcases hmem id st hid with ⟨rfl, hdone⟩ | ⟨hne, hold⟩
    · rcases hmem id st' hid' with ⟨rfl, -⟩ | ⟨hne', hold'⟩
      · rfl
      · exact absurd (h.apart id _ _ hold' hdone) hne'
    · rcases hmem id st' hid' with ⟨rfl, hdone'⟩ | ⟨-, hold'⟩
      · exact absurd (h.apart id _ _ hold hdone') hne
      · exact h.apart id _ _ hold hold'
  · have hb := h.placed id
    show VmBo.Placed (if id ∈ vm.lists .done ++ vm.lists .invalidated then _ else _) _
    split
    · next hin =>
      -- a `vm_bo` of `done` or `invalidated` is not a table
      have hkernel : ¬ (vm.bo id).kernel = true := by
        intro hk
        obtain ⟨-, -, -, hinv, hdone⟩ := hb.kernel hk
        rcases mem_append.mp hin with hid | hid
        · exact hdone hid
        · exact hinv hid
      refine ⟨fun hk => absurd hk hkernel, fun _ _ => Or.inr (Or.inl hin),
        fun _ _ => Or.inr (Or.inr (Or.inr hin)), fun m hm hs => ⟨rfl, (hb.valids m hm hs).2⟩,
        fun hon => ?_, fun hon => ?_, fun hk => absurd hk hkernel⟩
      · exact absurd (hb.relocated hon).1 hkernel
      · exact hb.evicted hon
    · next hout =>
      have hon : (fun st => id ∈ (spliceDone vm).lists st) = fun st => id ∈ vm.lists st := by
        funext st
        refine propext ⟨fun hid => ?_, fun hid => hback id st ?_ hid⟩
        · rcases hmem id st hid with ⟨-, hdone⟩ | ⟨-, hold⟩
          · exact absurd (mem_append_left _ hdone) hout
          · exact hold
        · rintro rfl
          exact hout (mem_append_left _ hid)
      rw [hon]
      exact hb
  · rcases eq_or_ne st .done with rfl | hne
    · exact ⟨.invalidated, mem_append_left _ hid⟩
    · exact ⟨st, hback id st hne hid⟩

theorem boResetStateMachine_survives (h : vm.Ok) : Survives vm (boResetStateMachine vm) :=
  (spliceDone_survives h).trans (resetFold_survives (spliceDone_survives h).ok _)

theorem VmBo.displace_valids (hb : b.Placed on) :
    ∀ m ∈ b.displace.valids, m.stale = true → b.cleared = false := by
  intro m hm hstale
  obtain ⟨m0, hm0, rfl⟩ := mem_map.mp hm
  cases hc : b.cleared with
  | false => rfl
  | true =>
    simp only [hc, Bool.not_true, Bool.or_false] at hstale
    exact (hb.valids m0 hm0 hstale).2.symm.trans hc |>.symm

theorem boInvalidate_survives (h : vm.Ok) (id : Nat) (evicted : Bool) :
    Survives vm (boInvalidate vm id evicted) := by
  have hb := h.placed id
  have hvalids := VmBo.displace_valids hb
  have hkernel : (vm.bo id).kernel = true → (vm.bo id).displace.valids = [] := fun hk => by
    rw [VmBo.displace, (hb.kernel hk).2.1]
    rfl
  unfold boInvalidate
  simp only
  split
  · exact Survives.refl h
  next hbo =>
  have hhas : (vm.bo id).hasBo = true := by simpa using hbo
  split
  · have hplaced : VmBo.Placed { (vm.bo id).displace with moved := true } (· = .evicted) :=
      ⟨fun _ _ _ => Or.inr rfl, fun _ _ => Or.inr (Or.inr rfl), fun _ _ => Or.inl rfl,
        fun m hm hs => ⟨rfl, hvalids m hm hs⟩, nofun, fun _ => hhas,
        fun hk => ⟨hhas, hkernel hk, nofun, nofun, nofun⟩⟩
    exact boEvicted_survives h hplaced
  · split
    · next hmoved =>
      refine h.setBo ⟨fun hk hparent _ => ?_, fun hk _ => ?_, hb.marked,
        fun m hm hs => ⟨hmoved, hvalids m hm hs⟩, hb.relocated, hb.evicted, fun hk => ?_⟩
      · obtain ⟨-, -, hno, hno', -⟩ := hb.kernel hk
        have hroot : (vm.bo id).isRoot = false := by
          simp only [VmBo.displace] at hparent
          simp [VmBo.isRoot, hparent]
        rcases hb.marked hmoved hroot with hon | hon | hon | hon
        · exact Or.inr hon
        · exact Or.inl hon
        · exact absurd hon hno
        · exact absurd hon hno'
      · have hk' : (vm.bo id).kernel = false := hk
        rcases hb.marked hmoved (by simp [VmBo.isRoot, hk']) with hon | hon | hon | hon
        · exact Or.inr (Or.inr hon)
        · rw [(hb.relocated hon).1] at hk'
          cases hk'
        · exact Or.inl hon
        · exact Or.inr (Or.inl hon)
      · obtain ⟨-, -, hrest⟩ := hb.kernel hk
        exact ⟨hhas, hkernel hk, hrest⟩
    · have hmarked : ∀ st, (st = .moved ∨ st = .invalidated) → (vm.bo id).kernel = false →
          VmBo.Placed { (vm.bo id).displace with moved := true } (· = st) := by
        intro st hst hk
        have hnot : ¬ (vm.bo id).kernel = true := by rw [hk]; nofun
        refine ⟨fun hk => absurd hk hnot, fun _ _ => ?_, fun _ _ => ?_,
          fun m hm hs => ⟨rfl, hvalids m hm hs⟩, ?_, ?_, fun hk => absurd hk hnot⟩
        · rcases hst with rfl | rfl
          · exact Or.inl rfl
          · exact Or.inr (Or.inl rfl)
        · rcases hst with rfl | rfl
          · exact Or.inr (Or.inr (Or.inl rfl))
          · exact Or.inr (Or.inr (Or.inr rfl))
        · rcases hst with rfl | rfl <;> nofun
        · rcases hst with rfl | rfl <;> nofun
      split
      · next hk =>
        have hnot : ¬ (vm.bo id).kernel = false := by rw [hk]; nofun
        unfold boRelocated boIdle
        simp only [Vm.setBo, update_self, update_idem]
        split
        · next hparent =>
          refine h.place (movedTo_listMove h.nodup id .relocated) rfl ?_
          exact ⟨fun _ _ _ => Or.inl rfl, fun hno => absurd hno hnot,
            fun _ _ => Or.inr (Or.inl rfl),
            fun m hm hs => ⟨rfl, hvalids m hm hs⟩, fun _ => ⟨hk, hparent⟩, nofun,
            fun _ => ⟨hhas, hkernel hk, nofun, nofun, nofun⟩⟩
        · next hroot =>
          refine h.place (movedTo_listMove h.nodup id .idle) rfl ?_
          refine ⟨fun _ hparent => absurd hparent hroot, fun hno => absurd hno hnot, nofun,
            fun m hm => ?_, nofun, nofun, fun _ => ⟨hhas, hkernel hk, nofun, nofun, nofun⟩⟩
          rw [show VmBo.valids _ = [] from hkernel hk] at hm
          cases hm
      · next hk =>
        have hk' : (vm.bo id).kernel = false := by simpa using hk
        simp only [Vm.setBo, update_self, update_idem]
        split
        · exact h.place (movedTo_listMove h.nodup id .moved) rfl (hmarked _ (Or.inl rfl) hk')
        · exact h.place (movedTo_listMove h.nodup id .invalidated) rfl (hmarked _ (Or.inr rfl) hk')

end Machine

/-! ## Validation -/

variable {vm : Vm}

theorem Validation.call_survives (h : vm.Ok) (v : Validation) (k : Nat) :
    Survives vm (v.call k vm) := by
  unfold Validation.call
  generalize v.moves k = moves
  induction moves generalizing vm with
  | nil => exact Survives.refl h
  | cons e moves ih =>
    have hone := boInvalidate_survives h e.1 e.2
    exact hone.trans (ih hone.ok)

variable {v : Validation} {r : Vm × Option Errno}

theorem validateLoop_survives {n k : Nat} (h : vm.Ok) (hr : validateLoop v n k vm = some r) :
    Survives vm r.1 := by
  induction n generalizing k vm with
  | zero => cases hr
  | succ n ih =>
    unfold validateLoop at hr
    split at hr
    · cases hr
      exact ⟨⟨h.nodup, h.apart, h.placed⟩, fun _ hid => hid⟩
    next id _ _ =>
    have hfirst := v.call_survives h k
    simp only at hr
    split at hr
    · cases hr
      exact hfirst
    have hshadow :
      Survives vm (if v.shadowed id then v.call (k + 1) (v.call k vm) else v.call k vm) := by
      split
      · exact hfirst.trans (v.call_survives hfirst.ok (k + 1))
      · exact hfirst
    split at hr
    · cases hr
      exact hshadow
    generalize
      (if v.shadowed id then v.call (k + 1) (v.call k vm) else v.call k vm) = vm' at hr hshadow
    have hb := hshadow.ok.placed id
    have hnext : Survives vm' (if (vm'.bo id).kernel = false then boMoved vm' id
        else boRelocated vm' id) := by
      split
      · next hk => exact hshadow.ok.listMove_same (hb.toMoved hk)
      · next hk =>
        have hk' : (vm'.bo id).kernel = true := by simpa using hk
        exact boRelocated_survives hshadow.ok hk' ⟨(hb.kernel hk').1, (hb.kernel hk').2.1⟩
    exact hshadow.trans (hnext.trans (ih hnext.ok hr))

theorem validatePtBos_survives {n : Nat} (h : vm.Ok) (hr : validatePtBos v n vm = some r) :
    Survives vm r.1 := by
  unfold validatePtBos at hr
  split at hr
  · exact validateLoop_survives h hr
  · have hreset := @boResetStateMachine_survives { vm with generation := v.newGeneration }
      ⟨h.nodup, h.apart, h.placed⟩
    have hreset' : Survives vm (boResetStateMachine { vm with generation := v.newGeneration }) :=
      ⟨hreset.ok, hreset.tracks⟩
    simp only at hr
    split at hr
    · cases hr
      exact hreset'
    · exact hreset'.trans (validateLoop_survives hreset.ok hr)

/-! ## Page directories -/

structure Vm.OkExcept (vm : Vm) (todo : List Nat) : Prop where
  nodup : ∀ st, (vm.lists st).Nodup
  apart : ∀ id st st', id ∈ vm.lists st → id ∈ vm.lists st' → st = st'
  placed : ∀ id, id ∉ todo → (vm.bo id).Placed fun st => id ∈ vm.lists st
  off : ∀ id ∈ todo, ∀ st, id ∉ vm.lists st
  ready : ∀ id ∈ todo, VmBo.Placed { vm.bo id with moved := false } (· = .idle)

section Directories
variable {vm : Vm}

variable {id : Nat} {todo : List Nat}

theorem boIdle_okExcept (h : vm.OkExcept (id :: todo)) (hid : id ∉ todo) :
    (boIdle vm id).OkExcept todo := by
  have hlists := @movedTo_listMove vm h.nodup id .idle
  have hbo : ∀ x, x ≠ id → (boIdle vm id).bo x = vm.bo x := fun x hx => update_of_ne hx ..
  refine ⟨hlists.nodup, fun x st st' hst hst' => ?_, fun x hx => ?_, fun x hx st hst => ?_,
    fun x hx => ?_⟩
  · rcases (hlists.mem x st).mp hst with ⟨rfl, rfl⟩ | ⟨hne, hst⟩
    · exact ((hlists.mem x st').mp hst').elim (·.2.symm) fun hx => absurd rfl hx.1
    · rcases (hlists.mem x st').mp hst' with ⟨heq, -⟩ | ⟨-, hst'⟩
      · exact absurd heq hne
      · exact h.apart x st st' hst hst'
  · rcases eq_or_ne x id with rfl | hne
    · have hon : (fun st => x ∈ (boIdle vm x).lists st) = (· = .idle) := by
        funext st
        refine propext ((hlists.mem x st).trans ⟨fun hx => ?_, fun hst => Or.inl ⟨rfl, hst⟩⟩)
        exact hx.elim (·.2) fun hx => absurd rfl hx.1
      rw [hon, show (boIdle vm x).bo x = _ from update_self ..]
      exact h.ready x mem_cons_self
    · have hon : (fun st => x ∈ (boIdle vm id).lists st) = fun st => x ∈ vm.lists st := by
        funext st
        refine propext ((hlists.mem x st).trans ⟨fun hx => ?_, fun hst => Or.inr ⟨hne, hst⟩⟩)
        exact hx.elim (fun hx => absurd hx.1 hne) (·.2)
      rw [hon, hbo x hne]
      exact h.placed x fun hin => (mem_cons.mp hin).elim hne hx
  · rcases (hlists.mem x st).mp hst with ⟨rfl, -⟩ | ⟨-, hst⟩
    · exact hid hx
    · exact h.off x (mem_cons_of_mem _ hx) st hst
  · rw [hbo x fun heq => hid (heq ▸ hx)]
    exact h.ready x (mem_cons_of_mem _ hx)

theorem foldl_boIdle (h : vm.OkExcept todo) (hnodup : todo.Nodup) :
    (todo.foldl boIdle vm).Ok ∧
      ∀ id, vm.Tracks id ∨ id ∈ todo → (todo.foldl boIdle vm).Tracks id := by
  induction todo generalizing vm with
  | nil =>
    refine ⟨⟨h.nodup, h.apart, fun id => h.placed id not_mem_nil⟩, fun id hid => ?_⟩
    exact hid.resolve_right not_mem_nil
  | cons id todo ih =>
    obtain ⟨hid, hrest⟩ := nodup_cons.mp hnodup
    obtain ⟨hok, htracks⟩ := ih (boIdle_okExcept h hid) hrest
    have hlists := @movedTo_listMove vm h.nodup id .idle
    refine ⟨hok, fun x hx => htracks x ?_⟩
    rcases eq_or_ne x id with rfl | hne
    · exact Or.inl ⟨.idle, (hlists.mem x .idle).mpr (Or.inl ⟨rfl, rfl⟩)⟩
    · rcases hx with ⟨st, hst⟩ | hx
      · exact Or.inl ⟨st, (hlists.mem x st).mpr (Or.inr ⟨hne, hst⟩)⟩
      · exact Or.inr ((mem_cons.mp hx).resolve_left hne)

theorem relocated_off (h : vm.Ok) (hid : id ∈ vm.lists .relocated) (st : Status) :
    id ∉ Function.update vm.lists .relocated [] st := by
  intro hst
  rcases eq_or_ne st .relocated with rfl | hne
  · rw [update_self] at hst
    cases hst
  · rw [update_of_ne hne] at hst
    exact hne (h.apart id _ _ hst hid)

/-- Everything that can fail in `amdgpu_vm_update_pdes` succeeds. -/
def PdeUpdate.Succeeds (u : PdeUpdate) (entries : List Nat) : Prop :=
  u.devEnter = true ∧ u.prepare = none ∧ (∀ id ∈ entries, u.pdeUpdate id = none) ∧ u.commit = none
  deriving Decidable

theorem updatePdes_lost (h : vm.Ok) {vm' : Vm} (hne : vm.lists .relocated ≠ [])
    (hlists : vm'.lists = Function.update vm.lists .relocated []) : ¬ Survives vm vm' := by
  intro hs
  obtain ⟨id, hid⟩ := exists_mem_of_ne_nil _ hne
  obtain ⟨st, hst⟩ := hs.tracks id ⟨.relocated, hid⟩
  rw [hlists] at hst
  exact relocated_off h hid st hst

theorem updatePdes_done (h : vm.Ok) (u : PdeUpdate) (hne : vm.lists .relocated ≠ [])
    (hu : u.Succeeds (vm.lists .relocated)) : Survives vm (updatePdes u vm).1 := by
  obtain ⟨henter, hprepare, hupdate, hcommit⟩ := hu
  have hupdates : u.updates (vm.lists .relocated) = none := findSome?_eq_none_iff.mpr hupdate
  unfold updatePdes
  simp only [if_neg hne, henter, Bool.true_eq_false, if_false, hprepare, hupdates, hcommit]
  generalize hvm' : Vm.mk _ _ _ _ _ = vm'
  have hlists : vm'.lists = Function.update vm.lists .relocated [] := hvm' ▸ rfl
  have hbo : ∀ id, vm'.bo id =
      if id ∈ vm.lists .relocated then { vm.bo id with pdeStale := false } else vm.bo id :=
    fun id => hvm' ▸ rfl
  have hout : ∀ id st, id ∉ vm.lists .relocated →
      (id ∈ vm'.lists st ↔ id ∈ vm.lists st) := by
    intro id st hid
    rw [hlists]
    rcases eq_or_ne st .relocated with rfl | hst
    · rw [update_self]
      exact ⟨fun hin => absurd hin not_mem_nil, fun hin => absurd hin hid⟩
    · rw [update_of_ne hst]
  have hexcept : vm'.OkExcept (vm.lists .relocated) := by
    refine ⟨fun st => ?_, fun id st st' hst hst' => ?_, fun id hid => ?_, fun id hid st => ?_,
      fun id hid => ?_⟩
    · rw [hlists]
      rcases eq_or_ne st .relocated with rfl | hst
      · rw [update_self]
        exact nodup_nil
      · rw [update_of_ne hst]
        exact h.nodup st
    · have hid : id ∉ vm.lists .relocated := fun hid => by
        rw [hlists] at hst
        exact relocated_off h hid st hst
      exact h.apart id st st' ((hout id st hid).mp hst) ((hout id st' hid).mp hst')
    · have hon : (fun st => id ∈ vm'.lists st) = fun st => id ∈ vm.lists st := by
        funext st
        exact propext (hout id st hid)
      rw [hon, hbo, if_neg hid]
      exact h.placed id
    · rw [hlists]
      exact relocated_off h hid st
    · rw [hbo, if_pos hid]
      have hb := h.placed id
      obtain ⟨hk, -⟩ := hb.relocated hid
      have hnot : ¬ (vm.bo id).kernel = false := by rw [hk]; nofun
      refine ⟨nofun, fun hno => absurd hno hnot, nofun, fun m hm => ?_, nofun, nofun,
        fun _ => ⟨(hb.kernel hk).1, (hb.kernel hk).2.1, nofun, nofun, nofun⟩⟩
      rw [show VmBo.valids _ = [] from (hb.kernel hk).2.1] at hm
      cases hm
  obtain ⟨hok, htracks⟩ := foldl_boIdle hexcept (h.nodup _)
  refine ⟨hok, fun id ⟨st, hid⟩ => htracks id ?_⟩
  rcases Classical.em (id ∈ vm.lists .relocated) with hin | hnot
  · exact Or.inr hin
  · exact Or.inl ⟨st, (hout id st hnot).mpr hid⟩

theorem updatePdes_survives_iff (h : vm.Ok) (u : PdeUpdate) :
    Survives vm (updatePdes u vm).1 ↔
      vm.lists .relocated = [] ∨ u.Succeeds (vm.lists .relocated) := by
  rcases Classical.em (vm.lists .relocated = []) with hnil | hne
  · refine ⟨fun _ => Or.inl hnil, fun _ => ?_⟩
    unfold updatePdes
    simp only [if_pos hnil]
    rw [← hnil, update_eq_self]
    exact Survives.refl h
  · refine ⟨fun hs => Or.inr ?_, fun hu => updatePdes_done h u hne (hu.resolve_left hne)⟩
    by_contra hfails
    have hupdates : u.updates (vm.lists .relocated) = none → ∀ id ∈ vm.lists .relocated,
        u.pdeUpdate id = none := findSome?_eq_none_iff.mp
    unfold updatePdes at hs
    simp only [if_neg hne] at hs
    split at hs
    · exact updatePdes_lost h hne rfl hs
    next henter =>
    split at hs
    · exact updatePdes_lost h hne rfl hs
    next hprepare =>
    split at hs
    · exact updatePdes_lost h hne rfl hs
    next hupdate =>
    split at hs
    · exact updatePdes_lost h hne rfl hs
    next hcommit =>
    exact hfails ⟨by simpa using henter, hprepare, hupdates hupdate, hcommit⟩

end Directories

/-! ## Updates of page tables -/

section Updates
variable {vm : Vm} {id : Nat} {clear : Bool} {failAt : Option Nat}

variable {m : Mapping} {b : VmBo}

theorem writeFirst_stale {n : Nat} {l : List Mapping} (hm : m ∈ writeFirst n l)
    (hs : m.stale = true) : m ∈ l.drop n := by
  rcases mem_append.mp hm with hm | hm
  · obtain ⟨m0, -, rfl⟩ := mem_map.mp hm
    cases hs
  · exact hm

theorem VmBo.spliced_valids {on : Status → Prop} (hb : b.Placed on) (clear : Bool) :
    ∀ m ∈ (b.spliced clear).valids, m.stale = false := by
  intro m hm
  unfold VmBo.spliced at hm
  split at hm
  · cases hm
  next hnot =>
  cases hs : m.stale with
  | false => rfl
  | true =>
    obtain ⟨hmoved, hcleared⟩ := hb.valids m hm hs
    refine absurd ?_ hnot
    cases clear with
    | false => exact Or.inl ⟨rfl, hmoved⟩
    | true => exact Or.inr (by rw [hcleared]; nofun)

theorem VmBo.spliced_mem :
    m ∈ (b.spliced clear).valids ++ (b.spliced clear).invalids ↔ m ∈ b.valids ++ b.invalids := by
  unfold VmBo.spliced
  split
  · rfl
  · rfl

theorem VmBo.spliced_eq (b : VmBo) (clear : Bool) :
    b.spliced clear =
      { b with valids := (b.spliced clear).valids, invalids := (b.spliced clear).invalids } := by
  unfold VmBo.spliced
  split
  · rfl
  · rfl

theorem boUpdate_fails (h : vm.Ok) (hf : (vm.bo id).updateFails clear failAt = true) :
    ∃ vm', boUpdate vm id clear failAt = (vm', some .einval) ∧ Survives vm vm' := by
  unfold VmBo.updateFails at hf
  cases failAt with
  | none => cases hf
  | some n =>
    have hlt : (some n).filter (· < ((vm.bo id).spliced clear).invalids.length) = some n := by
      simpa using hf
    unfold boUpdate
    simp only [hlt]
    refine ⟨_, rfl, ?_⟩
    have hb := h.placed id
    have hvalids := VmBo.spliced_valids hb clear
    rw [VmBo.spliced_eq (vm.bo id) clear]
    simp only
    refine h.setBo ⟨hb.table, fun hk ⟨m, hm, hs⟩ => ?_, hb.marked, fun m hm hs => ?_, hb.relocated,
      hb.evicted, fun hk => ?_⟩
    · refine hb.entries hk ⟨m, ?_, hs⟩
      rw [← @VmBo.spliced_mem clear]
      rcases mem_append.mp hm with hm | hm
      · exact mem_append_left _ hm
      · exact mem_append_right _ (mem_of_mem_drop (writeFirst_stale hm hs))
    · rw [hvalids m hm] at hs
      cases hs
    · obtain ⟨hhas, hnil, hrest⟩ := hb.kernel hk
      refine ⟨hhas, ?_, hrest⟩
      unfold VmBo.spliced
      split
      · rfl
      · exact hnil

theorem boUpdate_ok (h : vm.Ok) (hkernel : (vm.bo id).kernel = false)
    (hf : (vm.bo id).updateFails clear failAt = false) :
    ∃ vm', boUpdate vm id clear failAt = (vm', none) ∧ Survives vm vm' ∧
      (∀ st, st = .moved ∨ st = .invalidated → vm'.lists st = (vm.lists st).erase id) ∧
      ∀ x, x ≠ id → vm'.bo x = vm.bo x := by
  have hnone : failAt.filter (· < ((vm.bo id).spliced clear).invalids.length) = none := by
    unfold VmBo.updateFails at hf
    cases failAt with
    | none => rfl
    | some n => simpa using hf
  have hb := h.placed id
  have hvalids := VmBo.spliced_valids hb clear
  unfold boUpdate
  simp only [hnone]
  generalize hl : writeFirst ((vm.bo id).spliced clear).invalids.length
    ((vm.bo id).spliced clear).invalids = written
  have hwritten : ∀ m ∈ written, m.stale = false := by
    intro m hm
    cases hs : m.stale with
    | false => rfl
    | true =>
      have hin := writeFirst_stale (hl ▸ hm) hs
      rw [drop_length] at hin
      cases hin
  rw [VmBo.spliced_eq (vm.bo id) clear]
  generalize ((vm.bo id).spliced clear).valids = valids at hvalids
  generalize ((vm.bo id).spliced clear).invalids = invalids
  have hplaced : ∀ (st : Status) (b : VmBo), (st = .evicted → b.hasBo = true) → st ≠ .relocated →
      b.kernel = false → b.moved = false → b.valids = written ++ valids → b.invalids = [] →
      b.Placed (· = st) := by
    intro st b hst hne hk hmoved hv hi
    have hclean : ∀ m ∈ b.valids, m.stale = false := by
      intro m hm
      rw [hv] at hm
      rcases mem_append.mp hm with hm | hm
      · exact hwritten m hm
      · exact hvalids m hm
    have hnot : ¬ b.kernel = true := by rw [hk]; nofun
    have hstill : ¬ b.moved = true := by rw [hmoved]; nofun
    refine ⟨fun hk => absurd hk hnot, fun _ ⟨m, hm, hs⟩ => ?_, fun hm => absurd hm hstill,
      fun m hm hs => ?_, fun hrel => absurd hrel.symm hne, fun hev => hst hev.symm,
      fun hk => absurd hk hnot⟩
    · rw [hi, append_nil] at hm
      rw [hclean m hm] at hs
      cases hs
    · rw [hclean m hm] at hs
      cases hs
  have hother : ∀ (b : VmBo) (x : Nat), x ≠ id → Function.update vm.bo id b x = vm.bo x :=
    fun b x hx => update_of_ne hx ..
  split
  · next hper =>
    split
    · unfold boEvicted
      simp only [Vm.setBo, update_self, hkernel, Bool.false_eq_true, if_false,
        Vm.listMoveTail, update_idem]
      refine ⟨_, rfl, h.place (movedTo_listMoveTail h.nodup id .evicted) rfl
        (hplaced _ _ (fun _ => hper.1) nofun rfl rfl rfl rfl), fun st hst => ?_, hother _⟩
      rcases hst with rfl | rfl
      · rfl
      · rfl
    · unfold boIdle
      simp only [Vm.setBo, update_self, Vm.listMove, update_idem]
      refine ⟨_, rfl, h.place (movedTo_listMove h.nodup id .idle) rfl
        (hplaced _ _ nofun nofun hkernel rfl rfl rfl), fun st hst => ?_, hother _⟩
      rcases hst with rfl | rfl
      · rfl
      · rfl
  · unfold boDone
    simp only [Vm.setBo, update_self, Vm.listMove, update_idem]
    refine ⟨_, rfl, h.place (movedTo_listMove h.nodup id .done) rfl
      (hplaced _ _ nofun nofun hkernel rfl rfl rfl), fun st hst => ?_, hother _⟩
    rcases hst with rfl | rfl
    · rfl
    · rfl

end Updates

/-! ## Moved BOs -/

section Moving
variable {e : Moving} {vm : Vm}

theorem Vm.Ok.not_kernel (h : vm.Ok) {id : Nat}
    (hid : id ∈ vm.lists .moved ∨ id ∈ vm.lists .invalidated) : (vm.bo id).kernel = false := by
  cases hk : (vm.bo id).kernel with
  | false => rfl
  | true =>
    obtain ⟨-, -, hmoved, hinv, -⟩ := (h.placed id).kernel hk
    rcases hid with hid | hid
    · exact absurd hid hmoved
    · exact absurd hid hinv

def Moving.fails (e : Moving) (vm : Vm) (id : Nat) : Bool :=
  (vm.bo id).updateFails false (e.failAt id)

variable {ids : List Nat}

theorem movedLoop_spec (h : vm.Ok) (hids : vm.lists .moved = ids) :
    (ids.any (e.fails vm) = true ∧
      ∃ vm', movedLoop e ids.length vm = (vm', some .einval) ∧ Survives vm vm') ∨
    (ids.any (e.fails vm) = false ∧
      ∃ vm', movedLoop e ids.length vm = (vm', none) ∧ Survives vm vm' ∧
        vm'.lists .invalidated = vm.lists .invalidated ∧ ∀ x, x ∉ ids → vm'.bo x = vm.bo x) := by
  induction ids generalizing vm with
  | nil => exact Or.inr ⟨rfl, vm, rfl, Survives.refl h, rfl, fun _ _ => rfl⟩
  | cons id ids ih =>
    have hmem : id ∈ vm.lists .moved := by rw [hids]; exact mem_cons_self
    simp only [length_cons, movedLoop, hids, any_cons]
    cases hf : e.fails vm id with
    | true =>
      obtain ⟨vm', heq, hs⟩ := boUpdate_fails h hf
      rw [heq]
      exact Or.inl ⟨rfl, vm', rfl, hs⟩
    | false =>
      obtain ⟨vm', heq, hs, hlists, hbo⟩ := boUpdate_ok h (h.not_kernel (Or.inl hmem)) hf
      rw [heq]
      have hnot : id ∉ ids := (nodup_cons.mp (hids ▸ h.nodup .moved)).1
      have hids' : vm'.lists .moved = ids := by
        rw [hlists .moved (Or.inl rfl), hids, erase_cons_head]
      have hsame : ids.any (e.fails vm') = ids.any (e.fails vm) := by
        rw [Bool.eq_iff_iff, any_eq_true, any_eq_true]
        have hx : ∀ x ∈ ids, e.fails vm' x = e.fails vm x := fun x hx => by
          rw [Moving.fails, hbo x fun heq => hnot (heq ▸ hx), Moving.fails]
        exact ⟨fun ⟨x, hin, ht⟩ => ⟨x, hin, hx x hin ▸ ht⟩,
          fun ⟨x, hin, ht⟩ => ⟨x, hin, hx x hin ▸ ht⟩⟩
      rw [Bool.false_or, ← hsame]
      rcases ih hs.ok hids' with ⟨hany, vm'', heq', hs'⟩ | ⟨hany, vm'', heq', hs', hinv, hbo'⟩
      · exact Or.inl ⟨hany, vm'', heq', hs.trans hs'⟩
      · refine Or.inr ⟨hany, vm'', heq', hs.trans hs', ?_, fun x hx => ?_⟩
        · rw [hinv, hlists .invalidated (Or.inr rfl), erase_of_not_mem]
          exact fun hin => nomatch h.apart id _ _ hmem hin
        · rw [mem_cons, not_or] at hx
          exact (hbo' x hx.2).trans (hbo x hx.1)

/-- The condition of the second loop on the BOs of `invalidated`, in their order: each that it
reaches has a BO, and the first whose update fails is not one whose reservation it took. -/
def Moving.Releases (e : Moving) (vm : Vm) : List Nat → Prop
  | [] => True
  | id :: ids =>
    (vm.bo id).hasBo = true ∧
      if (vm.bo id).updateFails (e.clear id) (e.failAt id) then e.taken id = false
      else e.Releases vm ids

instance Moving.Releases.decidable (e : Moving) (vm : Vm) : ∀ ids, Decidable (e.Releases vm ids)
  | [] => isTrue trivial
  | _ :: ids =>
    have := Moving.Releases.decidable e vm ids
    inferInstanceAs (Decidable (_ ∧ ite _ _ _))

theorem Moving.releases_congr {vm' : Vm} (h : ∀ x ∈ ids, vm'.bo x = vm.bo x) :
    e.Releases vm' ids ↔ e.Releases vm ids := by
  induction ids with
  | nil => exact Iff.rfl
  | cons id ids ih =>
    have hrest := ih fun x hx => h x (mem_cons_of_mem _ hx)
    simp only [Moving.Releases, h id mem_cons_self, hrest]

/-- The call returns, with the lists kept and no reservation held. -/
def Returns (vm : Vm) (o : Option Outcome) : Prop :=
  ∃ out, o = some out ∧ Survives vm out.vm ∧ out.held = []

theorem invalidatedLoop_iff (h : vm.Ok) (hids : vm.lists .invalidated = ids) {vm0 : Vm}
    (h0 : Survives vm0 vm) :
    Returns vm0 (invalidatedLoop e ids.length vm) ↔ e.Releases vm ids := by
  induction ids generalizing vm with
  | nil => exact ⟨fun _ => trivial, fun _ => ⟨_, rfl, h0, rfl⟩⟩
  | cons id ids ih =>
    have hmem : id ∈ vm.lists .invalidated := by rw [hids]; exact mem_cons_self
    simp only [length_cons, invalidatedLoop, hids, Moving.Releases]
    split
    · next hno =>
      refine ⟨fun ⟨_, heq, _⟩ => (nomatch heq), fun hr => ?_⟩
      rw [hno] at hr
      cases hr.1
    next hbo =>
    have hhas : (vm.bo id).hasBo = true := by simpa using hbo
    cases hf : (vm.bo id).updateFails (e.clear id) (e.failAt id) with
    | true =>
      obtain ⟨vm', heq, hs⟩ := boUpdate_fails h hf
      rw [heq]
      simp only [if_true]
      cases ht : e.taken id with
      | true =>
        refine ⟨fun ⟨out, heq, _, hheld⟩ => ?_, fun hr => nomatch hr.2⟩
        cases heq
        cases hheld
      | false => exact ⟨fun _ => ⟨hhas, rfl⟩, fun _ => ⟨_, rfl, h0.trans hs, rfl⟩⟩
    | false =>
      obtain ⟨vm', heq, hs, hlists, hother⟩ := boUpdate_ok h (h.not_kernel (Or.inr hmem)) hf
      rw [heq]
      have hnot : id ∉ ids := (nodup_cons.mp (hids ▸ h.nodup .invalidated)).1
      have hids' : vm'.lists .invalidated = ids := by
        rw [hlists .invalidated (Or.inr rfl), hids, erase_cons_head]
      have hcongr := Moving.releases_congr (e := e) fun x hx => hother x fun heq => hnot (heq ▸ hx)
      simp only [Bool.false_eq_true, if_false, hhas, true_and]
      exact (ih hs.ok hids' (h0.trans hs)).trans hcongr

theorem handleMoved_survives_iff (h : vm.Ok) (e : Moving) :
    Returns vm (handleMoved e vm) ↔
      (vm.lists .moved).any (e.fails vm) = true ∨ e.Releases vm (vm.lists .invalidated) := by
  unfold handleMoved
  rcases movedLoop_spec (e := e) h rfl with ⟨hany, vm', heq, hs⟩ | ⟨hany, vm', heq, hs, hinv, hbo⟩
  · rw [heq]
    exact ⟨fun _ => Or.inl hany, fun _ => ⟨_, rfl, hs, rfl⟩⟩
  · rw [heq, hany]
    have hcongr :
      e.Releases vm' (vm'.lists .invalidated) ↔ e.Releases vm (vm.lists .invalidated) := by
      rw [hinv]
      refine Moving.releases_congr fun x hx => hbo x fun hmoved => ?_
      cases h.apart x _ _ hmoved hx
    simp only [Bool.false_eq_true, false_or]
    exact (invalidatedLoop_iff hs.ok rfl hs).trans hcongr

end Moving

/-- The status lists survive failures: `amdgpu_vm_validate_pt_bos` keeps them wherever it
returns, `amdgpu_vm_update_pdes` if and only if there is nothing to do or nothing fails, and
`amdgpu_vm_handle_moved` keeps them and releases what it takes if and only if an update of a
moved BO fails, or no invalidated one that it reaches lacks a BO or fails with its reservation
taken. -/
theorem statusLists_survive (vm : Vm) (h : vm.Ok) (v : Validation) (n : Nat) (u : PdeUpdate)
    (e : Moving) :
    (∀ r, validatePtBos v n vm = some r → Survives vm r.1) ∧
    (Survives vm (updatePdes u vm).1 ↔
      vm.lists .relocated = [] ∨ u.Succeeds (vm.lists .relocated)) ∧
    (Returns vm (handleMoved e vm) ↔
      (vm.lists .moved).any (e.fails vm) = true ∨ e.Releases vm (vm.lists .invalidated)) :=
  ⟨fun _ hr => validatePtBos_survives h hr, updatePdes_survives_iff h u,
    handleMoved_survives_iff h e⟩

def exBo : VmBo :=
  { hasBo := true, kernel := false, hasParent := false, perVm := true, displaced := false
    moved := false, cleared := false, valids := [], invalids := [], pdeStale := false }

/-- The root, a table that has moved, a BO of the VM that has moved, and one with a reservation
of its own that was invalidated. -/
def exVm : Vm :=
  { lists := fun
      | .idle => [0]
      | .relocated => [1]
      | .moved => [2]
      | .invalidated => [3]
      | _ => []
    bo := fun
      | 0 => { exBo with kernel := true }
      | 1 => { exBo with kernel := true, hasParent := true, moved := true, pdeStale := true }
      | 2 => { exBo with moved := true, valids := [⟨true⟩] }
      | 3 => { exBo with perVm := false, moved := true, valids := [⟨true⟩] }
      | _ => exBo
    generation := 0
    tlbSeq := 0
    evicting := false }

theorem exVm_ok : exVm.Ok := by
  refine ⟨fun st => ?_, fun id st st' hst hst' => ?_, fun id => ?_⟩
  · cases st <;> decide
  · cases st <;> cases st' <;> simp_all [exVm]
  · match id with
    | 0 => constructor <;> simp [exVm, exBo, VmBo.PteStale, VmBo.isRoot]
    | 1 => constructor <;> simp [exVm, exBo, VmBo.PteStale, VmBo.isRoot]
    | 2 => constructor <;> simp [exVm, exBo, VmBo.PteStale, VmBo.isRoot]
    | 3 => constructor <;> simp [exVm, exBo, VmBo.PteStale, VmBo.isRoot]
    | n + 4 => constructor <;> simp [exVm, exBo, VmBo.PteStale, VmBo.isRoot]

def exPdeUpdate : PdeUpdate :=
  { devEnter := true, prepare := none, pdeUpdate := fun _ => none, commit := none }

def exMoving : Moving :=
  { failAt := fun _ => none, debugVm := false, trylock := fun _ => true,
    ticketHeld := fun _ => false }

def exValidation : Validation :=
  { moves := fun _ => [], result := fun _ => none, shadowed := fun _ => false, newGeneration := 1
    initEntities := none }

theorem statusLists_survive_exVm :
    Survives exVm (updatePdes exPdeUpdate exVm).1 ∧ Returns exVm (handleMoved exMoving exVm) :=
  have h := statusLists_survive exVm exVm_ok exValidation 1 exPdeUpdate exMoving
  ⟨h.2.1.mpr (by decide), h.2.2.mpr (by decide)⟩

/-- The commit of the new directory entries fails, and the update of the invalidated BO after
its reservation was taken. The table is on no list then, and the reservation is held. -/
theorem statusLists_lost :
    ¬ Survives exVm (updatePdes { exPdeUpdate with commit := some .enomem } exVm).1 ∧
    ¬ Returns exVm (handleMoved
        { exMoving with failAt := fun id => if id = 3 then some 0 else none }
      exVm) := by
  refine ⟨fun h => ?_, fun h => ?_⟩
  · exact absurd ((updatePdes_survives_iff exVm_ok _).mp h) (by decide)
  · exact absurd ((handleMoved_survives_iff exVm_ok _).mp h) (by decide)

end Amdkfd.VmStatus
