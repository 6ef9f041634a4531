import Amdkfd.Gpuvm.Userptr

/-!
# What stays true of the userptr BOs

`Inv` says of each list what its BOs may be mapped to, and of each part of the worker what it has
done for the BOs behind it, as long as `evicted_bos` is what it was when the worker started. This
module shows that the notifications and all the calls keep it.
-/

namespace Amdkfd.Userptr

open Lib List

@[simp] theorem setMem_self (s : State) (b : Nat) (m : Mem) : (s.setMem b m).mem b = m := by
  simp [State.setMem]

theorem setMem_ne {s : State} {b i : Nat} (m : Mem) (h : i ≠ b) :
    (s.setMem b m).mem i = s.mem i := by
  simp [State.setMem, h]

theorem forall_setMem {s : State} {b : Nat} {m : Mem} {P : Nat → Mem → Prop}
    (h : ∀ i, P i (s.mem i)) (hm : P b m) : ∀ i, P i ((s.setMem b m).mem i) := by
  intro i
  by_cases hi : i = b
  · rw [hi, setMem_self]
    exact hm
  · rw [setMem_ne m hi]
    exact h i

/-! ## One BO -/

namespace Mem

/-- A BO that is not in the system domain has the DMA addresses of its pages. -/
def BoundOk (m : Mem) : Prop := m.inSystem = false → m.bound = m.pages ∧ m.pages ≠ none

def mapped (m : Mem) : List Att := m.atts.filter (·.isMapped)

/-- On the valid list: no range, and a BO that is not marked is mapped to its pages only. -/
def ValidOk (m : Mem) : Prop :=
  m.range = none ∧
    (m.invalid = 0 → (∀ n, m.pages = some n → n = m.gen) ∧ ∀ a ∈ m.mapped, m.Leads a.pte)

/-- On the other list: the range goes with the pages, and a BO without one is marked. -/
def InvalOk (m : Mem) : Prop :=
  (∀ q, m.range = some q → m.pages ≠ none ∧ (m.invalid = 0 → m.pages = some m.gen ∧ q = m.seq)) ∧
  (m.range = none → m.invalid ≠ 0)

def Cleared (m : Mem) : Prop := m.invalid ≠ 0 → ∀ a ∈ m.mapped, a.pte = .clear

/-- The BO was looked after in `update_invalid_user_pages`. -/
def Fetched (m : Mem) : Prop :=
  (m.range ≠ none → m.invalid = 0) ∧
  (m.range = none → m.pages = none ∧ ∀ a ∈ m.mapped, a.type = .shared)

/-- The BO was looked after in `validate_invalid_user_pages`. -/
def Updated (m : Mem) : Prop :=
  ∀ a ∈ m.mapped, (m.pages = none → a.type = .shared → a.pte = .clear) ∧
    ∀ n, m.pages = some n → a.pte = .page n

end Mem

/-! ## The invariant -/

def Quiet (s : State) (saved : Nat) (p : Nat → Prop) : Prop :=
  s.evictedBos = saved →
    (∀ b ∈ s.validList, (s.mem b).invalid = 0) ∧ ∀ b ∈ s.invalList, p b → (s.mem b).Fetched

def Saved (s : State) (saved : Nat) : Prop := saved ≠ 0 ∧ saved ≤ s.evictedBos

def WorkerOk (s : State) : Worker → Prop
  | .idle => True
  | .started saved => Saved s saved
  | .update saved todo => Saved s saved ∧ (∀ b ∈ todo, b ∈ s.invalList) ∧ Quiet s saved (· ∉ todo)
  | .fetching saved b inv todo => Saved s saved ∧ (∀ i ∈ b :: todo, i ∈ s.invalList) ∧
      Quiet s saved (fun i => i ∉ todo ∧ i ≠ b) ∧ inv ≠ 0 ∧ inv ≤ (s.mem b).invalid ∧
      (s.mem b).range = none
  | .fetched saved b inv todo => Saved s saved ∧ (∀ i ∈ b :: todo, i ∈ s.invalList) ∧
      Quiet s saved (fun i => i ∉ todo ∧ i ≠ b) ∧ inv ≠ 0 ∧ inv ≤ (s.mem b).invalid ∧
      (∀ q, (s.mem b).range = some q → (s.mem b).invalid = inv →
        (s.mem b).pages = some (s.mem b).gen ∧ q = (s.mem b).seq) ∧
      ((s.mem b).range = none → (s.mem b).pages = none ∧ ∀ a ∈ (s.mem b).mapped, a.type = .shared)
  | .validate saved todo => Saved s saved ∧ (∀ b ∈ todo, b ∈ s.invalList) ∧
      Quiet s saved (fun _ => True) ∧ ∀ b ∈ s.invalList, b ∉ todo → (s.mem b).Updated
  | .final saved => Saved s saved ∧ Quiet s saved (fun _ => True) ∧
      ∀ b ∈ s.invalList, (s.mem b).Updated

def TaskOk (s : State) : Task → Prop
  | .none => True
  | .map b _ _ isInvalid => isInvalid = false → (s.mem b).invalid = 0 ∨ s.evictedBos ≠ 0
  | .init b => b ∈ s.validList ∧ (s.mem b).pages = none
  | .initFetched b => b ∈ s.validList ∧ (s.mem b).pages ≠ none

/-- No restore updates the entries of the attachment. -/
def Stuck (s : State) (b : Nat) (a : Att) : Prop :=
  (Live s b ∧ a.isMapped = false) ∨ b ∈ s.detached

structure Inv (s : State) : Prop where
  disjoint : ∀ b ∈ s.validList, b ∉ s.invalList
  detached : ∀ b ∈ s.detached, ¬ Live s b
  stuck : ∀ b, ∀ a ∈ (s.mem b).atts, Stuck s b a → (s.mem b).Leads a.pte
  bound : ∀ b, (s.mem b).BoundOk
  validOk : ∀ b ∈ s.validList, (s.mem b).ValidOk
  invalOk : ∀ b ∈ s.invalList, (s.mem b).InvalOk
  -- an eviction, a block and a CRIU restore on its way each stop the queues
  refs : (if s.evictedBos = 0 then 0 else 1) + s.blocked.toNat + s.credits ≤ s.refs
  cleared : s.evictedBos = 0 → ∀ b, Live s b → (s.mem b).Cleared
  marked : s.evictedBos = 0 → ∀ b ∈ s.invalList, (s.mem b).invalid ≠ 0
  restoring : s.evictedBos ≠ 0 → s.pending = true ∨ s.worker ≠ .idle ∨ s.gone = true
  outstanding : s.outstanding = true → s.evictedBos ≠ 0
  lock : s.worker.Locked = true → s.task = .none
  task : TaskOk s s.task
  worker : WorkerOk s s.worker

/-! ## The gaps -/

/-- What a step must not meet. A notification that is the first stops the queues, and the counters
do not overflow; one that CRIU blocks is about a BO that is marked invalid and whose pages the
worker has not just fetched. A CRIU resume is rejected only while BOs are evicted. Where
`amdgpu_ttm_tt_get_user_pages` fails with `-EFAULT`, the BO had no pages before and is mapped only
through its own DMA mapping. Entries that no restore updates are clear when the pages of their BO go,
and a call that writes such entries writes none to pages that have gone. -/
def StepOk (s : State) : Op → Prop
  | .evict b quiesceOk => (∀ a ∈ (s.mem b).atts, Stuck s b a → a.pte = .clear) ∧
      if s.blocked then Live s b →
        (s.mem b).invalid ≠ 0 ∧ ∀ saved inv todo, s.worker ≠ .fetched saved b inv todo
      else Notified s b → (s.evictedBos = 0 → quiesceOk = true) ∧ s.evictedBos + 1 < 2 ^ 32 ∧
        (s.mem b).invalid + 1 < 2 ^ 32
  | .mapEnd r => ∀ b vm type inv, s.task = .map b vm type inv →
      ¬ (r = .fails ∨ (s.mem b).atts.any (·.vm = vm)) → r = .pdsFails ∨ b ∈ s.detached →
      (s.mem b).Leads ((s.mem b).mapPte type inv)
  | .criuResume => Unlocked s → s.evictedBos + 1 < 2 ^ 32 ∧ (s.blocked = false → s.evictedBos ≠ 0)
  | .workerFetch .fault => ∀ saved b inv todo, s.worker = .fetching saved b inv todo →
      (s.mem b).pages = none ∧ ∀ a ∈ (s.mem b).mapped, a.type = .shared
  | .workerValidate (.pteFails _) => ∀ saved b todo, s.worker = .validate saved (b :: todo) →
      (s.mem b).invalid + 1 < 2 ^ 32
  | _ => True

theorem Inv.init : Inv init where
  disjoint b hb := by simp [Userptr.init] at hb
  detached b hb := by simp [Userptr.init] at hb
  stuck b a ha := by simp [Userptr.init, Mem.empty] at ha
  bound _ h := by simp [Userptr.init, Mem.empty] at h
  validOk b hb := by simp [Userptr.init] at hb
  invalOk b hb := by simp [Userptr.init] at hb
  refs := by simp [Userptr.init]
  cleared _ b hb := by simp [Userptr.init, Live] at hb
  marked _ b hb := by simp [Userptr.init] at hb
  restoring h := absurd rfl h
  outstanding h := by simp [Userptr.init] at h
  lock h := by simp [Userptr.init, Worker.Locked] at h
  task := trivial
  worker := trivial

/-! ## What a BO keeps -/

section
variable {m m' : Mem}

theorem Mem.mapped_sub (ha : ∀ a ∈ m'.atts, a ∈ m.atts) : ∀ a ∈ m'.mapped, a ∈ m.mapped := by
  intro a hm
  obtain ⟨hm, hmap⟩ := mem_filter.mp hm
  exact mem_filter.mpr ⟨ha a hm, hmap⟩

theorem Mem.mapped_eq (ha : m'.atts = m.atts) : m'.mapped = m.mapped :=
  congrArg (filter Att.isMapped) ha

theorem Mem.Fetched.sub (h : m.Fetched) (hi : m'.invalid = m.invalid) (hr : m'.range = m.range)
    (hp : m'.pages = m.pages) (ha : ∀ a ∈ m'.mapped, ∃ a' ∈ m.mapped, a'.type = a.type) :
    m'.Fetched := by
  refine ⟨fun hne => ?_, fun hnone => ?_⟩
  · rw [hi]
    exact h.1 (hr ▸ hne)
  · obtain ⟨hpages, hatts⟩ := h.2 (hr ▸ hnone)
    refine ⟨hp.trans hpages, fun a hm => ?_⟩
    obtain ⟨a', hm', ht⟩ := ha a hm
    exact ht ▸ hatts a' hm'

theorem Mem.Updated.sub (h : m.Updated) (hp : m'.pages = m.pages)
    (ha : ∀ a ∈ m'.atts, a ∈ m.atts) : m'.Updated := by
  intro a hm
  rw [hp]
  exact h a (Mem.mapped_sub ha a hm)

theorem Mem.InvalOk.congr (h : m.InvalOk) (hg : m'.gen = m.gen) (hs : m'.seq = m.seq)
    (hi : m'.invalid = m.invalid) (hr : m'.range = m.range) (hp : m'.pages = m.pages) :
    m'.InvalOk := by
  unfold Mem.InvalOk
  rw [hg, hs, hi, hr, hp]
  exact h

theorem Mem.InvalOk.of_marked (hi : m.invalid ≠ 0) (hp : m.range ≠ none → m.pages ≠ none) :
    m.InvalOk :=
  ⟨fun q hq => ⟨hp (hq ▸ by nofun), fun h0 => absurd h0 hi⟩, fun _ => hi⟩

theorem Mem.BoundOk.inSystem (h : m.BoundOk) (hp : m.pages = none) : m.inSystem = true := by
  cases hs : m.inSystem with
  | true => rfl
  | false => exact absurd hp (h hs).2

theorem Mem.BoundOk.bind (h : m.BoundOk) (hp : m.pages ≠ none) : m.bind.BoundOk := by
  unfold Mem.bind
  split
  · exact fun _ => ⟨rfl, hp⟩
  · exact h

theorem Mem.BoundOk.pte (h : m.BoundOk) (hs : m.inSystem = false) (t : AttType) :
    ∃ n, m.pages = some n ∧ m.pte t = .page n := by
  obtain ⟨hb, hp⟩ := h hs
  obtain ⟨n, hn⟩ := Option.ne_none_iff_exists'.mp hp
  refine ⟨n, hn, ?_⟩
  cases t with
  | shared => simp only [Mem.pte, hs, hb, hn, Bool.false_eq_true, if_false]
  | userptr => simp only [Mem.pte, hn]

end

/-! ## What the worker keeps -/

section
variable {s s' : State} {w : Worker}

theorem WorkerOk.unlocked (h : WorkerOk s w) (hl : w.Locked = false)
    (he : s.evictedBos ≤ s'.evictedBos) : WorkerOk s' w := by
  cases w with
  | idle => trivial
  | started saved => exact ⟨h.1, le_trans h.2 he⟩
  | _ => cases hl

theorem WorkerOk.saved (h : WorkerOk s w) (hl : w.Locked = true) : ∃ saved, Saved s saved := by
  cases w with
  | idle | started saved => cases hl
  | update saved todo | fetching saved b inv todo | fetched saved b inv todo => exact ⟨saved, h.1⟩
  | validate saved todo | final saved => exact ⟨saved, h.1⟩

theorem Inv.evicted (h : Inv s) (hl : s.worker.Locked = true) : s.evictedBos ≠ 0 := by
  obtain ⟨saved, h0, hle⟩ := h.worker.saved hl
  omega

theorem Quiet.setMem {saved b : Nat} {m : Mem} {p p' : Nat → Prop} (h : Quiet s saved p)
    (hv : b ∈ s.validList → m.invalid = (s.mem b).invalid)
    (hp : ∀ i ∈ s.invalList, i ≠ b → p' i → p i)
    (hf : b ∈ s.invalList → s.evictedBos = saved → p' b → m.Fetched) :
    Quiet (s.setMem b m) saved p' := by
  intro he
  obtain ⟨hvalid, hinval⟩ := h he
  constructor
  · intro i hi
    by_cases hib : i = b
    · subst hib
      rw [setMem_self, hv hi]
      exact hvalid i hi
    · rw [setMem_ne m hib]
      exact hvalid i hi
  · intro i hi hpi
    by_cases hib : i = b
    · subst hib
      rw [setMem_self]
      exact hf hi he hpi
    · rw [setMem_ne m hib]
      exact hinval i hi (hp i hi hib hpi)

end

variable {s : State} {b : Nat} {m : Mem} {t : Task}

/-- What the worker holds of a BO from one state to the next. -/
structure Mem.Carries (m m' : Mem) (fetched : Prop) : Prop where
  range : m'.range = m.range
  pages : m'.pages = m.pages
  atts : ∀ a ∈ m'.atts, a ∈ m.atts
  invalid : m.invalid ≤ m'.invalid
  fetched : fetched → m'.invalid = m.invalid → m'.gen = m.gen ∧ m'.seq = m.seq

theorem Mem.Carries.refl (m : Mem) (fetched : Prop) : m.Carries m fetched :=
  ⟨rfl, rfl, fun _ => id, le_refl _, fun _ _ => ⟨rfl, rfl⟩⟩

theorem WorkerOk.carry {s' : State} {w : Worker} (h : WorkerOk s w)
    (hl : s'.invalList = s.invalList) (he : s.evictedBos ≤ s'.evictedBos)
    (hq : ∀ {saved p}, Saved s saved → Quiet s saved p → Quiet s' saved p)
    (hc : ∀ i, (s.mem i).Carries (s'.mem i) (∃ saved inv todo, w = .fetched saved i inv todo)) :
    WorkerOk s' w := by
  have hs : ∀ {saved}, Saved s saved → Saved s' saved := fun hs => ⟨hs.1, le_trans hs.2 he⟩
  have hu : ∀ {i}, (s.mem i).Updated → (s'.mem i).Updated :=
    fun {i} hu => hu.sub (hc i).pages (hc i).atts
  cases w with
  | idle => trivial
  | started saved => exact hs h
  | update saved todo => exact ⟨hs h.1, hl ▸ h.2.1, hq h.1 h.2.2⟩
  | fetching saved c inv todo =>
    obtain ⟨hsaved, htodo, hquiet, h0, hle, hnone⟩ := h
    exact ⟨hs hsaved, hl ▸ htodo, hq hsaved hquiet, h0, le_trans hle (hc c).invalid,
      (hc c).range.trans hnone⟩
  | fetched saved c inv todo =>
    obtain ⟨hsaved, htodo, hquiet, h0, hle, hsome, hnone⟩ := h
    refine ⟨hs hsaved, hl ▸ htodo, hq hsaved hquiet, h0, le_trans hle (hc c).invalid, ?_, ?_⟩
    · intro q hr hi
      have hsame : (s.mem c).invalid = inv := le_antisymm (hi ▸ (hc c).invalid) hle
      obtain ⟨hgen, hseq⟩ := (hc c).fetched ⟨_, _, _, rfl⟩ (hi.trans hsame.symm)
      rw [(hc c).pages, hgen, hseq]
      exact hsome q ((hc c).range ▸ hr) hsame
    · intro hr
      obtain ⟨hp, ht⟩ := hnone ((hc c).range ▸ hr)
      exact ⟨(hc c).pages.trans hp, fun a ha => ht a (Mem.mapped_sub (hc c).atts a ha)⟩
  | validate saved todo =>
    obtain ⟨hsaved, htodo, hquiet, hup⟩ := h
    exact ⟨hs hsaved, hl ▸ htodo, hq hsaved hquiet, fun i hi hni => hu (hup i (hl ▸ hi) hni)⟩
  | final saved =>
    obtain ⟨hsaved, hquiet, hup⟩ := h
    exact ⟨hs hsaved, hq hsaved hquiet, fun i hi => hu (hup i (hl ▸ hi))⟩

theorem WorkerOk.setMem {w : Worker} (h : WorkerOk s w) (hi : m.invalid = (s.mem b).invalid)
    (hr : m.range = (s.mem b).range) (hp : m.pages = (s.mem b).pages)
    (ha : ∀ a ∈ m.atts, a ∈ (s.mem b).atts)
    (hg : (m.gen = (s.mem b).gen ∧ m.seq = (s.mem b).seq) ∨
      ∀ saved inv todo, w ≠ .fetched saved b inv todo) : WorkerOk (s.setMem b m) w := by
  refine h.carry rfl (le_refl _) (fun _ hq => ?_) (forall_setMem
    (P := fun i m => (s.mem i).Carries m (∃ saved inv todo, w = .fetched saved i inv todo))
    (fun i => .refl _ _) ⟨hr, hp, ha, le_of_eq hi.symm, fun ⟨saved, inv, todo, hw⟩ _ =>
      hg.resolve_right fun hne => hne saved inv todo hw⟩)
  refine hq.setMem (fun _ => hi) (fun _ _ _ hpi => hpi) fun hb he hpb => ?_
  exact ((hq he).2 b hb hpb).sub hi hr hp fun a hm => ⟨a, Mem.mapped_sub ha a hm, rfl⟩

theorem TaskOk.setMem (h : TaskOk s t) (hi : m.invalid = (s.mem b).invalid)
    (hp : m.pages = (s.mem b).pages) :
    TaskOk (s.setMem b m) t := by
  have hsame := forall_setMem (s := s) (b := b) (m := m)
    (P := fun i m => m.invalid = (s.mem i).invalid ∧ m.pages = (s.mem i).pages)
    (fun _ => ⟨rfl, rfl⟩) ⟨hi, hp⟩
  cases t with
  | none => trivial
  | map c vm type isInvalid => exact fun hf => (hsame c).1 ▸ h hf
  | init c | initFetched c => exact ⟨h.1, (hsame c).2 ▸ h.2⟩

theorem TaskOk.of_none (ht : t = .none) : TaskOk s t := by
  rw [ht]
  trivial

theorem Inv.setMem (h : Inv s) (hbound : m.BoundOk)
    (hstuck : ∀ a ∈ m.atts, Stuck s b a → m.Leads a.pte) (hvalid : b ∈ s.validList → m.ValidOk)
    (hinval : b ∈ s.invalList → m.InvalOk) (hcleared : s.evictedBos = 0 → Live s b → m.Cleared)
    (hmarked : s.evictedBos = 0 → b ∈ s.invalList → m.invalid ≠ 0)
    (ht : TaskOk (s.setMem b m) s.task) (hw : WorkerOk (s.setMem b m) s.worker) :
    Inv (s.setMem b m) where
  disjoint := h.disjoint
  detached := h.detached
  stuck := forall_setMem (P := fun i m => ∀ a ∈ m.atts, Stuck s i a → m.Leads a.pte) h.stuck hstuck
  bound := forall_setMem (P := fun _ m => m.BoundOk) h.bound hbound
  validOk := forall_setMem (P := fun i m => i ∈ s.validList → m.ValidOk) h.validOk hvalid
  invalOk := forall_setMem (P := fun i m => i ∈ s.invalList → m.InvalOk) h.invalOk hinval
  refs := h.refs
  cleared he := forall_setMem (P := fun i m => Live s i → m.Cleared) (h.cleared he) (hcleared he)
  marked he :=
    forall_setMem (P := fun i m => i ∈ s.invalList → m.invalid ≠ 0) (h.marked he) (hmarked he)
  restoring := h.restoring
  outstanding := h.outstanding
  lock := h.lock
  task := ht
  worker := hw

/-! ## Calls -/

theorem Inv.unmap (h : Inv s) (b vm : Nat) : Inv (unmap s b vm) := by
  have hsub : ∀ a ∈ (s.mem b).atts.filter fun a => ¬ (a.vm = vm ∧ a.isMapped = true),
      a ∈ (s.mem b).atts := fun a ha => (mem_filter.mp ha).1
  refine h.setMem (h.bound b) (fun a ha => h.stuck b a (hsub a ha)) (fun hb => ?_) (fun hb => ?_)
    (fun he hb hi a ha => ?_) (fun he hb => h.marked he b hb) (h.task.setMem rfl rfl)
    (h.worker.setMem rfl rfl rfl hsub (.inl ⟨rfl, rfl⟩))
  · obtain ⟨hr, hv⟩ := h.validOk b hb
    exact ⟨hr, fun hi => ⟨(hv hi).1, fun a ha => (hv hi).2 a (Mem.mapped_sub hsub a ha)⟩⟩
  · exact (h.invalOk b hb).congr rfl rfl rfl rfl rfl
  · exact h.cleared he b hb hi a (Mem.mapped_sub hsub a ha)

theorem Inv.unlocked_of_task (h : Inv s) (ht : s.task ≠ .none) : s.worker.Locked = false := by
  by_contra hl
  exact ht (h.lock (by simpa using hl))

theorem live_removeBo {i : Nat} (h : Live (removeBo s b) i) : Live s i ∧ i ≠ b := by
  rcases h with h | h
  · exact ⟨.inl (mem_filter.mp h).1, of_decide_eq_true (mem_filter.mp h).2⟩
  · exact ⟨.inr (mem_filter.mp h).1, of_decide_eq_true (mem_filter.mp h).2⟩

/-- A BO that goes may join the detached ones: no attachment of it is mapped. -/
theorem Inv.removeBo (h : Inv s) (b : Nat) (hl : s.worker.Locked = false) {d : List Nat}
    {f : Option Nat} (hd : ∀ i ∈ d, i ∈ s.detached ∨
      i = b ∧ Live s b ∧ ∀ a ∈ (s.mem b).atts, a.isMapped = false) :
    Inv { removeBo s b with task := .none, detached := d, freeing := f } where
  disjoint i hi hin :=
    h.disjoint i (mem_filter.mp hi).1 (mem_filter.mp hin).1
  detached i hi hlive := by
    obtain ⟨hlive, hib⟩ := live_removeBo hlive
    rcases hd i hi with hold | ⟨rfl, -⟩
    · exact h.detached i hold hlive
    · exact hib rfl
  stuck i a ha hs := by
    rcases hs with ⟨hlive, hm⟩ | hs
    · exact h.stuck i a ha (.inl ⟨(live_removeBo hlive).1, hm⟩)
    · rcases hd i hs with hold | ⟨rfl, hlive, hm⟩
      · exact h.stuck i a ha (.inr hold)
      · exact h.stuck i a ha (.inl ⟨hlive, hm a ha⟩)
  bound := h.bound
  validOk i hi := h.validOk i (mem_filter.mp hi).1
  invalOk i hi := h.invalOk i (mem_filter.mp hi).1
  refs := h.refs
  cleared he i hi := h.cleared he i (live_removeBo hi).1
  marked he i hi := h.marked he i (mem_filter.mp hi).1
  restoring := h.restoring
  outstanding := h.outstanding
  lock _ := rfl
  task := trivial
  worker := h.worker.unlocked hl (le_refl _)

theorem Inv.addBo {s s' : State} (h : Inv s) (hb : ¬ Live s b) (hd : b ∉ s.detached)
    (hu : Unlocked s)
    (hs : m.inSystem = true) (hr : m.range = none) (hp : m.pages = none) (ha : m.atts = [])
    (hs' : s' = { s with validList := s.validList ++ [b], task := t }.setMem b m)
    (ht : TaskOk s' t) : Inv s' := by
  subst hs'
  obtain ⟨hbv, hbi⟩ := not_or.mp hb
  have hold : ∀ i ∈ s.validList ++ [b], i ≠ b → i ∈ s.validList := by
    intro i hi hib
    exact (mem_append.mp hi).resolve_right fun hv => hib (mem_singleton.mp hv)
  have hne : ∀ i ∈ s.invalList, i ≠ b := fun i hi hib => hbi (hib ▸ hi)
  exact {
    disjoint := by
      intro i hi hin
      by_cases hib : i = b
      · exact hbi (hib ▸ hin)
      · exact h.disjoint i (hold i hi hib) hin
    detached := fun i hi hlive =>
      h.detached i hi (hlive.imp (hold i · fun hib => hd (hib ▸ hi)) id)
    stuck := by
      intro i a hm hstuck
      by_cases hib : i = b
      · subst hib
        rw [setMem_self, ha] at hm
        cases hm
      · rw [setMem_ne m hib] at hm ⊢
        exact h.stuck i a hm (hstuck.imp_left fun hs => ⟨hs.1.imp (hold i · hib) id, hs.2⟩)
    bound := forall_setMem (P := fun _ m => m.BoundOk) h.bound fun hf => by simp [hs] at hf
    validOk := by
      intro i hi
      by_cases hib : i = b
      · subst hib
        rw [setMem_self]
        refine ⟨hr, fun _ => ⟨fun n hn => ?_, fun a hm => ?_⟩⟩
        · rw [hp] at hn
          cases hn
        · rw [Mem.mapped, ha] at hm
          cases hm
      · rw [setMem_ne m hib]
        exact h.validOk i (hold i hi hib)
    invalOk := by
      intro i hi
      rw [setMem_ne m (hne i hi)]
      exact h.invalOk i hi
    refs := h.refs
    cleared := by
      intro he i hi
      by_cases hib : i = b
      · subst hib
        rw [setMem_self]
        intro _ a hm
        rw [Mem.mapped, ha] at hm
        cases hm
      · rw [setMem_ne m hib]
        exact h.cleared he i (hi.imp (hold i · hib) id)
    marked := by
      intro he i hi
      rw [setMem_ne m (hne i hi)]
      exact h.marked he i hi
    restoring := h.restoring
    outstanding := h.outstanding
    lock := fun hl => absurd (hu.1.symm.trans hl) nofun
    task := ht
    worker := h.worker.unlocked hu.1 (le_refl _) }

theorem Inv.initBegin (h : Inv s) (b : Nat) (criu : Bool) : Inv (initBegin s b criu) := by
  unfold Userptr.initBegin
  split
  · exact h
  · rename_i hc
    simp only [not_or, not_not] at hc
    obtain ⟨hb, hd, -, hu⟩ := hc
    cases criu with
    | true =>
      refine h.addBo (m := { Mem.empty with invalid := 1 }) (t := .none) hb hd hu rfl rfl rfl rfl ?_
        trivial
      rw [← hu.2]
      rfl
    | false =>
      refine h.addBo (m := Mem.empty) (t := .init b) hb hd hu rfl rfl rfl rfl rfl ⟨?_, ?_⟩
      · exact mem_append_right _ (mem_singleton_self b)
      · exact congrArg Mem.pages (setMem_self _ b Mem.empty)

theorem Inv.setTask (h : Inv s) (ht : TaskOk s t) (hl : s.worker.Locked = false) :
    Inv { s with task := t } :=
  { h with
    lock := fun hw => absurd (hl.symm.trans hw) nofun
    task := by cases t <;> exact ht
    worker := h.worker.unlocked hl (le_refl _) }

theorem Inv.taskSetMem (h : Inv s) (ht : s.task ≠ .none) (hbound : m.BoundOk)
    (hstuck : ∀ a ∈ m.atts, Stuck s b a → m.Leads a.pte)
    (hvalid : b ∈ s.validList → m.ValidOk) (hinval : b ∈ s.invalList → m.InvalOk)
    (hcleared : s.evictedBos = 0 → Live s b → m.Cleared)
    (hmarked : s.evictedBos = 0 → b ∈ s.invalList → m.invalid ≠ 0) (ht' : TaskOk (s.setMem b m) t) :
    Inv { s.setMem b m with task := t } := by
  have hl := h.unlocked_of_task ht
  have hnone : Inv { s with task := .none } := h.setTask trivial hl
  exact (hnone.setMem hbound hstuck hvalid hinval hcleared hmarked trivial
    (h.worker.unlocked hl (le_refl _))).setTask ht' hl

theorem Inv.initFetch (h : Inv s) (ok : Bool) : Inv (initFetch s ok) := by
  unfold Userptr.initFetch
  split
  · rename_i b ht
    have htask := h.task
    rw [ht] at htask
    obtain ⟨hb, hp⟩ := htask
    split
    · refine h.taskSetMem (ht ▸ nofun) (fun hs => ?_) (h.stuck b) (fun hv => ?_) (fun hi => ?_)
        (fun he hb => h.cleared he b hb) (fun he hb => h.marked he b hb) ⟨hb, ?_⟩
      · exact absurd ((h.bound b).inSystem hp) (by rw [hs]; nofun)
      · obtain ⟨hr, hok⟩ := h.validOk b hv
        exact ⟨hr, fun hi => ⟨fun n hn => (Option.some.inj hn).symm, (hok hi).2⟩⟩
      · exact absurd hi (h.disjoint b hb)
      · rw [setMem_self]
        nofun
    · exact h.removeBo b (h.unlocked_of_task (ht ▸ nofun)) fun _ => .inl
  · exact h

section
variable (m : Mem)

@[simp] theorem bind_gen : m.bind.gen = m.gen := by unfold Mem.bind; split <;> rfl

@[simp] theorem bind_seq : m.bind.seq = m.seq := by unfold Mem.bind; split <;> rfl

@[simp] theorem bind_invalid : m.bind.invalid = m.invalid := by unfold Mem.bind; split <;> rfl

@[simp] theorem bind_range : m.bind.range = m.range := by unfold Mem.bind; split <;> rfl

@[simp] theorem bind_pages : m.bind.pages = m.pages := by unfold Mem.bind; split <;> rfl

@[simp] theorem bind_atts : m.bind.atts = m.atts := by unfold Mem.bind; split <;> rfl

theorem bind_inSystem : m.bind.inSystem = false := by
  unfold Mem.bind
  split
  · rfl
  · exact Bool.eq_false_iff.mpr ‹_›

end

variable {s : State}

theorem Inv.initValidate (h : Inv s) (ok : Bool) : Inv (initValidate s ok) := by
  unfold Userptr.initValidate
  split
  · rename_i b ht
    have htask := h.task
    rw [ht] at htask
    obtain ⟨hb, hp⟩ := htask
    split
    · refine h.taskSetMem (ht ▸ nofun) ((h.bound b).bind hp) (fun a ha hs => ?_) (fun hv => ?_)
        (fun hi => absurd hi (h.disjoint b hb)) (fun he hb => ?_) (fun he hb => ?_) trivial
      · rw [bind_atts] at ha
        rw [Mem.Leads, bind_gen]
        exact h.stuck b a ha hs
      · obtain ⟨hr, hok⟩ := h.validOk b hv
        refine ⟨(bind_range _).trans hr, fun hi => ?_⟩
        rw [bind_invalid] at hi
        unfold Mem.Leads
        rw [bind_pages, bind_gen, Mem.mapped_eq (bind_atts _)]
        exact hok hi
      · unfold Mem.Cleared
        rw [bind_invalid, Mem.mapped_eq (bind_atts _)]
        exact h.cleared he b hb
      · rw [bind_invalid]
        exact h.marked he b hb
    · exact h.removeBo b (h.unlocked_of_task (ht ▸ nofun)) fun _ => .inl
  · exact h

theorem Inv.freeBegin (h : Inv s) (b : Nat) : Inv (freeBegin s b) := by
  unfold Userptr.freeBegin
  split
  · rename_i hc
    obtain ⟨hlive, hu, -, hm⟩ := hc
    have := h.removeBo b hu.1 (d := b :: s.detached) (f := some b) fun i hi =>
      (mem_cons.mp hi).symm.imp_right fun hib => ⟨hib, hlive, hm⟩
    rwa [← hu.2] at this
  · exact h

theorem Inv.mapBegin (h : Inv s) (b vm : Nat) (type : AttType) : Inv (mapBegin s b vm type) := by
  unfold Userptr.mapBegin
  split
  · rename_i hc
    refine h.setTask (fun hf => .inl ?_) hc.2.2.1
    simpa using hf
  · exact h

theorem Inv.mapEnd (h : Inv s) (r : MapEnd) (hok : StepOk s (.mapEnd r)) : Inv (mapEnd s r) := by
  unfold Userptr.mapEnd
  split
  · rename_i b vm type isInvalid ht
    have hmark := h.task
    rw [ht] at hmark
    simp only
    split
    · exact h.setTask trivial (h.unlocked_of_task (ht ▸ nofun))
    · rename_i hr
      have hend := hok b vm type isInvalid ht hr
      refine h.taskSetMem (ht ▸ nofun) (h.bound b) (fun a ha hs => ?_) (fun hv => ?_) (fun hi => ?_)
        (fun he hb => ?_) (fun he hb => h.marked he b hb) trivial
      · rcases mem_cons.mp ha with rfl | hold
        · refine hend (hs.imp_left fun hm => ?_)
          -- the call has not succeeded, and it has not failed early
          have hne : r ≠ .ok := of_decide_eq_false hm.2
          cases r with
          | fails => exact absurd (.inl rfl) hr
          | pdsFails => rfl
          | ok => exact absurd rfl hne
        · exact h.stuck b a hold hs
      · obtain ⟨hrange, hok⟩ := h.validOk b hv
        refine ⟨hrange, fun hi => ⟨(hok hi).1, fun a ha => ?_⟩⟩
        obtain ⟨ha, hm⟩ := mem_filter.mp ha
        rcases mem_cons.mp ha with rfl | hold
        · show (s.mem b).Leads (if (isInvalid || (s.mem b).inSystem) = true then .clear else _)
          split
          · exact .inl rfl
          · rename_i hc
            have hs : (s.mem b).inSystem = false :=
              Bool.eq_false_iff.mpr fun ht => hc (by rw [ht, Bool.or_true])
            obtain ⟨n, hn, hpte⟩ := (h.bound b).pte hs type
            exact .inr (hpte.trans (congrArg Pte.page ((hok hi).1 n hn)))
        · exact (hok hi).2 a (mem_filter.mpr ⟨hold, hm⟩)
      · exact (h.invalOk b hi).congr rfl rfl rfl rfl rfl
      · intro hi a ha
        obtain ⟨ha, hm⟩ := mem_filter.mp ha
        rcases mem_cons.mp ha with rfl | hold
        · -- the call has seen the mark, as no BO was marked since it looked
          have hinv : isInvalid = true := by
            by_contra hf
            exact (hmark (by simpa using hf)).elim hi (absurd he)
          show (if (isInvalid || (s.mem b).inSystem) = true then Pte.clear else _) = _
          rw [hinv, Bool.true_or, if_pos rfl]
        · exact h.cleared he b hb hi a (mem_filter.mpr ⟨hold, hm⟩)
  · exact h

theorem Inv.congr {s s' : State} (h : Inv s) (hv : s'.validList = s.validList)
    (hi : s'.invalList = s.invalList) (hm : s'.mem = s.mem) (he : s'.evictedBos = s.evictedBos)
    (hw : s'.worker = s.worker) (ht : s'.task = s.task) (ho : s'.outstanding = s.outstanding)
    (hp : s.evictedBos ≠ 0 → s.pending = true → s'.pending = true ∨ s'.gone = true)
    (hg : s.gone = true → s'.gone = true) (hd : ∀ i ∈ s'.detached, i ∈ s.detached)
    (hr : (if s.evictedBos = 0 then 0 else 1) + s'.blocked.toNat + s'.credits ≤ s'.refs) :
    Inv s' := by
  cases s
  cases s'
  subst hv hi hm he hw ht ho
  exact { h with
    detached := fun i hi => h.detached i (hd i hi)
    stuck := fun i a ha hs => h.stuck i a ha (hs.imp_right (hd i))
    refs := hr
    restoring := fun he => by
      rcases h.restoring he with hpend | hwork | hgone
      · exact (hp he hpend).imp_right .inr
      · exact .inr (.inl hwork)
      · exact .inr (.inr (hg hgone)) }

theorem Inv.criuRestore (h : Inv s) : Inv (criuRestore s) := by
  refine h.congr rfl rfl rfl rfl rfl rfl rfl (fun _ => .inl) id (fun _ => id) ?_
  have := h.refs
  show _ + s.blocked.toNat + (s.credits + 1) ≤ s.refs + 1
  omega

theorem Inv.block (h : Inv s) : Inv (blockMmuNotifications s) := by
  unfold blockMmuNotifications
  split
  · rename_i hc
    refine h.congr rfl rfl rfl rfl rfl rfl rfl (fun _ => .inl) id (fun _ => id) ?_
    have := h.refs
    show _ + 1 + (s.credits - 1) ≤ s.refs
    omega
  · exact h

theorem Inv.exit (h : Inv s) : Inv { s with gone := true } :=
  h.congr rfl rfl rfl rfl rfl rfl rfl (fun _ => .inl) (fun _ => rfl) (fun _ => id) h.refs

theorem Inv.freeEnd (h : Inv s) (ok : Bool) : Inv (freeEnd s ok) := by
  unfold Userptr.freeEnd
  split
  · refine h.congr rfl rfl rfl rfl rfl rfl rfl (fun _ => .inl) id (fun i hi => ?_) h.refs
    cases ok with
    | true => exact (mem_filter.mp hi).1
    | false => exact hi
  · exact h

theorem Inv.criuResume (h : Inv s) (hok : StepOk s .criuResume) : Inv (criuResume s) := by
  unfold Userptr.criuResume
  split
  · exact h
  · rename_i hu
    rw [not_not] at hu
    obtain ⟨hlt, hrej⟩ := hok hu
    simp only [Nat.mod_eq_of_lt hlt]
    have hrefs := h.refs
    have hw : WorkerOk { s with evictedBos := s.evictedBos + 1 } s.worker :=
      h.worker.unlocked hu.1 (Nat.le_succ _)
    split
    · rename_i hb
      rw [Bool.not_eq_true] at hb
      have he := hrej hb
      rw [if_neg he] at hrefs
      exact { h with
        refs := by rw [if_neg (Nat.succ_ne_zero _)]; exact hrefs
        cleared := nofun
        marked := nofun
        restoring := fun _ => h.restoring he
        outstanding := fun _ => Nat.succ_ne_zero _
        task := .of_none hu.2
        worker := hw }
    · rename_i hb
      rw [not_not] at hb
      exact { h with
        refs := by
          rw [hb] at hrefs
          rw [if_neg (Nat.succ_ne_zero _)]
          show 1 + 0 + s.credits ≤ s.refs
          rw [show true.toNat = 1 from rfl] at hrefs
          omega
        cleared := nofun
        marked := nofun
        restoring := fun _ => .inl rfl
        outstanding := fun _ => Nat.succ_ne_zero _
        task := .of_none hu.2
        worker := hw }

/-! ## Notifications -/

/-- The pages of a BO go without a notification. -/
theorem Inv.pagesGo (h : Inv s) {b : Nat}
    (hstuck : ∀ a ∈ (s.mem b).atts, Stuck s b a → a.pte = .clear)
    (hlive : Live s b → (s.mem b).invalid ≠ 0 ∧
      ∀ saved inv todo, s.worker ≠ .fetched saved b inv todo) :
    Inv (s.setMem b { s.mem b with gen := (s.mem b).gen + 1 }) := by
  refine h.setMem (h.bound b) (fun a ha hs => .inl (hstuck a ha hs))
    (fun hv => ⟨(h.validOk b hv).1, fun h0 => absurd h0 (hlive (.inl hv)).1⟩)
    (fun hin => .of_marked (hlive (.inr hin)).1 fun hr => ?_) (fun he hb => h.cleared he b hb)
    (fun _ hin => (hlive (.inr hin)).1) (h.task.setMem rfl rfl)
    (h.worker.setMem rfl rfl rfl (fun _ ha => ha) (.inr fun saved inv todo hw => ?_))
  · obtain ⟨q, hq⟩ := Option.ne_none_iff_exists'.mp hr
    exact ((h.invalOk b hin).1 q hq).1
  · have hworker := h.worker
    rw [hw] at hworker
    exact (hlive (.inr (hworker.2.1 b mem_cons_self))).2 saved inv todo hw

def Mem.marked (m : Mem) : Mem :=
  { m with gen := m.gen + 1, seq := m.seq + 1, invalid := m.invalid + 1 }

theorem WorkerOk.mark {w : Worker} {b e : Nat} (h : WorkerOk s w) (he : s.evictedBos < e) :
    WorkerOk { s.setMem b (s.mem b).marked with evictedBos := e } w := by
  refine h.carry rfl (le_of_lt he) (fun hs _ hne => ?_) (forall_setMem
    (P := fun i m => (s.mem i).Carries m (∃ saved inv todo, w = .fetched saved i inv todo))
    (fun i => .refl _ _) ⟨rfl, rfl, fun _ => id, Nat.le_succ _, fun _ hi => ?_⟩)
  · exact absurd hs.2 (not_le.mpr (hne ▸ he))
  · exact absurd hi (Nat.succ_ne_self _)

theorem TaskOk.mark {t : Task} {b e : Nat} (h : TaskOk s t) (he : e ≠ 0) :
    TaskOk { s.setMem b (s.mem b).marked with evictedBos := e } t := by
  have hpages := forall_setMem (s := s) (b := b) (m := (s.mem b).marked)
    (P := fun i m => m.pages = (s.mem i).pages) (fun _ => rfl) rfl
  cases t with
  | none => trivial
  | map c vm type isInvalid => exact fun _ => .inr he
  | init c => exact ⟨h.1, (hpages c).trans h.2⟩
  | initFetched c => exact ⟨h.1, fun hn => h.2 ((hpages c).symm.trans hn)⟩

theorem Inv.evictMark (h : Inv s) (b : Nat) {p : Bool} {r : Nat}
    (hstuck : ∀ a ∈ (s.mem b).atts, Stuck s b a → a.pte = .clear)
    (hp : p = true ∨ p = s.pending ∧ s.evictedBos ≠ 0) (hr : 1 + s.blocked.toNat + s.credits ≤ r) :
    Inv { s.setMem b (s.mem b).marked with
          evictedBos := s.evictedBos + 1, outstanding := true, pending := p, refs := r } where
  disjoint := h.disjoint
  detached := h.detached
  stuck := forall_setMem (P := fun i m => ∀ a ∈ m.atts, Stuck s i a → m.Leads a.pte) h.stuck
    fun a ha hs => .inl (hstuck a ha hs)
  bound := forall_setMem (P := fun _ m => m.BoundOk) h.bound (h.bound b)
  validOk := forall_setMem (P := fun i m => i ∈ s.validList → m.ValidOk) h.validOk
    fun hv => ⟨(h.validOk b hv).1, nofun⟩
  invalOk := forall_setMem (P := fun i m => i ∈ s.invalList → m.InvalOk) h.invalOk
    fun hi => .of_marked nofun fun hne => by
      obtain ⟨q, hq⟩ := Option.ne_none_iff_exists'.mp hne
      exact ((h.invalOk b hi).1 q hq).1
  refs := by rw [if_neg (Nat.succ_ne_zero _)]; exact hr
  cleared := nofun
  marked := nofun
  restoring _ := by
    rcases hp with hp | ⟨hp, he⟩
    · exact .inl hp
    · exact (h.restoring he).imp_left hp.trans
  outstanding _ := Nat.succ_ne_zero _
  lock := h.lock
  task := (h.task.mark (Nat.succ_ne_zero _) : TaskOk _ s.task)
  worker := (h.worker.mark (Nat.lt_succ_self _) : WorkerOk _ s.worker)

theorem Inv.evict (h : Inv s) (b : Nat) (quiesceOk : Bool) (hok : StepOk s (.evict b quiesceOk)) :
    Inv (evictUserptr s b quiesceOk) := by
  unfold evictUserptr
  obtain ⟨hstuck, hgap⟩ := hok
  simp only
  split
  · rename_i hc
    refine h.pagesGo hstuck fun hlive => ?_
    have hblk := hc.resolve_left (not_not.mpr (.inl hlive))
    rw [if_pos hblk] at hgap
    exact hgap hlive
  · rename_i hc
    obtain ⟨hb, hblk⟩ := not_or.mp hc
    rw [if_neg hblk] at hgap
    obtain ⟨hq, he, hi⟩ := hgap (not_not.mp hb)
    have hrefs := h.refs
    simp only [Nat.mod_eq_of_lt he, Nat.mod_eq_of_lt hi]
    split
    · rename_i h1
      have h0 : s.evictedBos = 0 := Nat.succ.inj h1
      refine h.evictMark b hstuck (.inl rfl) ?_
      rw [if_pos (hq h0)]
      rw [if_pos h0] at hrefs
      show _ ≤ s.refs + 1
      omega
    · rename_i h1
      have h0 : s.evictedBos ≠ 0 := fun h0 => h1 (congrArg (· + 1) h0)
      rw [if_neg h0] at hrefs
      exact h.evictMark b hstuck (.inr ⟨rfl, h0⟩) hrefs

end Amdkfd.Userptr
