import Amdkfd.Gpuvm.UserptrInv

/-!
# The user queues stop before user pages go

The worker keeps `Inv`: with the `evicted_bos` it has read at its start it has fetched the pages of
every BO that was marked, and written them to the page tables.
-/

namespace Amdkfd.Userptr

open Lib List Option

/-! ## The worker -/

variable {s : State}

section
variable (h : Inv s)
include h

theorem Inv.setWorker {w : Worker} {p : Bool} (ht : s.task = .none) (hw : WorkerOk s w)
    (hp : s.evictedBos ≠ 0 → p = true ∨ w ≠ .idle ∨ s.gone = true) :
    Inv { s with worker := w, pending := p } :=
  { h with
    restoring := hp
    lock := fun _ => ht
    task := .of_none ht
    worker := by cases w <;> exact hw }

theorem Inv.retry (ht : s.task = .none) : Inv (retry s) :=
  h.setWorker ht trivial fun _ => .inl rfl

theorem Inv.workerSetMem (hl : s.worker.Locked = true) {b : Nat} {m : Mem} {w : Worker} {p : Bool}
    (hb : b ∈ s.invalList) (hbound : m.BoundOk) (hinval : m.InvalOk)
    (hstuck : ∀ a ∈ m.atts, a.isMapped = false → m.Leads a.pte) (hw : WorkerOk (s.setMem b m) w)
    (hp : p = true ∨ w ≠ .idle) : Inv { s.setMem b m with worker := w, pending := p } := by
  have he := h.evicted hl
  have ht := h.lock hl
  have hnv : b ∉ s.validList := fun hv => h.disjoint b hv hb
  have h' : Inv { s with worker := .idle, pending := true } := h.retry ht
  have hset : Inv ({ s with worker := .idle, pending := true }.setMem b m) :=
    h'.setMem hbound (fun a ha hs => hstuck a ha (hs.resolve_right (h.detached b · (.inr hb))).2)
      (fun hv => absurd hv hnv) (fun _ => hinval) (fun h0 => absurd h0 he)
      (fun h0 => absurd h0 he) (.of_none ht) trivial
  exact hset.setWorker ht (by cases w <;> exact hw) fun _ => hp.imp_right .inl

theorem Inv.unmapped {b : Nat} (hb : b ∈ s.invalList) :
    ∀ a ∈ (s.mem b).atts, a.isMapped = false → (s.mem b).Leads a.pte :=
  fun a ha hm => h.stuck b a ha (.inl ⟨.inr hb, hm⟩)

theorem Inv.workerStart : Inv (workerStart s) := by
  unfold Userptr.workerStart
  split
  · rename_i hw
    split
    · exact h
    · split
      · rename_i hc
        exact h.congr rfl rfl rfl rfl rfl rfl rfl (fun he _ => .inr (hc.resolve_left he)) id
          (fun _ => id) h.refs
      · rename_i hc
        have h0 : s.evictedBos ≠ 0 := (not_or.mp hc).1
        exact { h with
          restoring := fun _ => .inr (.inl nofun)
          lock := nofun
          worker := ⟨h0, Nat.le_refl _⟩ }
  · exact h

theorem Inv.workerLock : Inv (workerLock s) := by
  unfold Userptr.workerLock
  split
  · rename_i saved hw
    have hsaved := h.worker
    rw [hw] at hsaved
    split
    · exact h
    · rename_i ht
      rw [not_not] at ht
      have he : s.evictedBos ≠ 0 := by
        obtain ⟨h0, hle⟩ : Saved s saved := hsaved
        omega
      have hmem : ∀ i ∈ s.invalList ++ s.validList.filter fun b => (s.mem b).invalid ≠ 0,
          i ∈ s.invalList ∨ i ∈ s.validList ∧ (s.mem i).invalid ≠ 0 := by
        intro i hi
        refine (mem_append.mp hi).imp_right fun hv => ?_
        obtain ⟨hv, hm⟩ := mem_filter.mp hv
        exact ⟨hv, of_decide_eq_true hm⟩
      have hlive' : ∀ i, i ∈ s.validList.filter (fun b => (s.mem b).invalid = 0) ∨
          i ∈ s.invalList ++ s.validList.filter (fun b => (s.mem b).invalid ≠ 0) → Live s i := by
        intro i hi
        rcases hi with hv | hin
        · exact .inl (mem_filter.mp hv).1
        · exact (hmem i hin).symm.imp_left And.left
      exact {
        disjoint := by
          intro i hi hin
          obtain ⟨hv, hm⟩ := mem_filter.mp hi
          rcases hmem i hin with hold | ⟨-, hmark⟩
          · exact h.disjoint i hv hold
          · exact hmark (of_decide_eq_true hm)
        detached := fun i hi hlive => h.detached i hi (hlive' i hlive)
        stuck := fun i a ha hs => h.stuck i a ha (hs.imp_left fun hm => ⟨hlive' i hm.1, hm.2⟩)
        bound := h.bound
        validOk := fun i hi => h.validOk i (mem_filter.mp hi).1
        invalOk := by
          intro i hi
          rcases hmem i hi with hold | ⟨hv, hmark⟩
          · exact h.invalOk i hold
          · exact .of_marked hmark fun hr => absurd (h.validOk i hv).1 hr
        refs := h.refs
        cleared := fun h0 => absurd h0 he
        marked := fun h0 => absurd h0 he
        restoring := fun _ => .inr (.inl nofun)
        outstanding := h.outstanding
        lock := fun _ => ht
        task := .of_none ht
        worker := ⟨hsaved, fun _ hi => hi, fun _ =>
          ⟨fun i hi => of_decide_eq_true (mem_filter.mp hi).2,
            fun i hi hni => absurd hi hni⟩⟩ }
  · exact h

theorem Inv.workerNext : Inv (workerNext s) := by
  unfold Userptr.workerNext
  split
  · rename_i saved hw
    have hok := h.worker
    rw [hw] at hok
    obtain ⟨hsaved, -, hq⟩ := hok
    have hall : Quiet s saved fun _ => True :=
      fun he => ⟨(hq he).1, fun i hi _ => (hq he).2 i hi not_mem_nil⟩
    refine h.setWorker (h.lock (by rw [hw]; rfl)) ?_ fun _ => .inr (.inl ?_)
    · split
      · rename_i hnil
        exact ⟨hsaved, hall, fun i hi => absurd (hnil ▸ hi) not_mem_nil⟩
      · exact ⟨hsaved, fun _ hi => hi, hall, fun i hi hni => absurd hi hni⟩
    · split <;> nofun
  · rename_i saved b todo hw
    have hok := h.worker
    rw [hw] at hok
    obtain ⟨hsaved, htodo, hq⟩ := hok
    have hb : b ∈ s.invalList := htodo b mem_cons_self
    have hl : s.worker.Locked = true := by rw [hw]; rfl
    simp only
    split
    · rename_i hi
      refine h.setWorker (h.lock hl) ⟨hsaved, fun i hit => htodo i (mem_cons_of_mem b hit),
        fun he => ⟨(hq he).1, fun i hin hni => ?_⟩⟩ fun _ => .inr (.inl nofun)
      by_cases hib : i = b
      · subst hib
        exact ⟨fun _ => hi, fun hr => absurd hi ((h.invalOk i hin).2 hr)⟩
      · exact (hq he).2 i hin fun hm => (mem_cons.mp hm).elim hib hni
    · rename_i hi
      refine h.workerSetMem hl hb (h.bound b) (.of_marked hi fun hr => absurd rfl hr)
        (h.unmapped hb) ⟨hsaved, htodo, hq.setMem (fun _ => rfl) ?_ ?_, hi, ?_⟩ (.inr nofun)
      · intro i _ hib hni hm
        exact (mem_cons.mp hm).elim hib hni.1
      · intro _ _ hni
        exact absurd rfl hni.2
      · rw [setMem_self]
        exact ⟨Nat.le_refl _, rfl⟩
  · exact h

/-- The move and the fetch of the pages. A notification since the BO was looked at has marked it
again. -/
theorem Inv.workerFetch (r : Fetch) (hok : StepOk s (.workerFetch r)) : Inv (workerFetch s r) := by
  unfold Userptr.workerFetch
  split
  · rename_i saved b inv todo hw
    have hworker := h.worker
    rw [hw] at hworker
    obtain ⟨hsaved, htodo, hq, h0, hle, hnone⟩ := hworker
    have hb : b ∈ s.invalList := htodo b mem_cons_self
    have hl : s.worker.Locked = true := by rw [hw]; rfl
    have hi : (s.mem b).invalid ≠ 0 := by omega
    -- the move leaves the BO marked and without a range
    have hmoved : { s.mem b with inSystem := true, bound := none : Mem }.InvalOk :=
      .of_marked hi fun hr => absurd hnone hr
    have hquiet : ∀ m, Quiet (s.setMem b m) saved fun i => i ∉ todo ∧ i ≠ b := fun m =>
      hq.setMem (fun hv => absurd hb (h.disjoint b hv)) (fun _ _ _ hp => hp)
        fun _ _ hp => absurd rfl hp.2
    simp only
    cases r with
    | moveFails => exact h.retry (h.lock hl)
    | fails => exact h.workerSetMem hl hb nofun hmoved (h.unmapped hb) trivial (.inl rfl)
    | fault =>
      refine h.workerSetMem hl hb nofun hmoved (h.unmapped hb)
        ⟨hsaved, htodo, hquiet _, h0, ?_⟩ (.inr nofun)
      rw [setMem_self]
      refine ⟨hle, fun q hqr => ?_, fun _ => hok saved b inv todo hw⟩
      rw [show (s.mem b).range = some q from hqr] at hnone
      cases hnone
    | ok =>
      refine h.workerSetMem hl hb nofun ⟨fun q hqr => ⟨nofun, fun _ => ⟨rfl, ?_⟩⟩, nofun⟩
        (h.unmapped hb) ⟨hsaved, htodo, hquiet _, h0, ?_⟩ (.inr nofun)
      · exact (some.inj hqr).symm
      · rw [setMem_self]
        exact ⟨hle, fun q hqr _ => ⟨rfl, (some.inj hqr).symm⟩, nofun⟩
  · exact h

theorem Inv.workerRelock : Inv (workerRelock s) := by
  unfold Userptr.workerRelock
  split
  · rename_i saved b inv todo hw
    have hworker := h.worker
    rw [hw] at hworker
    obtain ⟨hsaved, htodo, hq, h0, hle, hsome, hnone⟩ := hworker
    have hb : b ∈ s.invalList := htodo b mem_cons_self
    have hl : s.worker.Locked = true := by rw [hw]; rfl
    have htl : ∀ i ∈ todo, i ∈ s.invalList := fun i hi => htodo i (mem_cons_of_mem b hi)
    simp only
    split
    · exact h.retry (h.lock hl)
    · rename_i hinv
      rw [not_not] at hinv
      split
      · rename_i hr
        obtain ⟨q, hqr⟩ := Option.ne_none_iff_exists'.mp hr
        have hpages := hsome q hqr hinv
        refine h.workerSetMem hl hb (h.bound b) ⟨fun q' hq' => ?_, fun hn => absurd hn hr⟩
          (h.unmapped hb) ⟨hsaved, htl, hq.setMem (fun hv => absurd hb (h.disjoint b hv)) ?_ ?_⟩ (.inr nofun)
        · have hseq := hsome q' hq' hinv
          exact ⟨fun hn => absurd (hseq.1.symm.trans hn) nofun, fun _ => hseq⟩
        · exact fun i _ hib hni => ⟨hni, hib⟩
        · exact fun _ _ _ => ⟨fun _ => rfl, fun hn => absurd hn hr⟩
      · rename_i hr
        rw [not_not] at hr
        refine h.setWorker (h.lock hl) ⟨hsaved, htl, fun he => ⟨(hq he).1, fun i hi hni => ?_⟩⟩
          fun _ => .inr (.inl nofun)
        by_cases hib : i = b
        · subst hib
          exact ⟨fun hne => absurd hr hne, fun _ => hnone hr⟩
        · exact (hq he).2 i hi ⟨hni, hib⟩
  · exact h

end

section
variable {m : Mem}

theorem Mem.validated_eq (m : Mem) : m.validated = m ∨ m.validated = m.bind := by
  unfold Mem.validated
  split
  · exact .inl rfl
  · exact .inr rfl

theorem Mem.BoundOk.validated (h : m.BoundOk) : m.validated.BoundOk := by
  unfold Mem.validated
  split
  · exact h
  · rename_i hp
    exact h.bind hp

theorem Mem.InvalOk.validated (h : m.InvalOk) : m.validated.InvalOk := by
  rcases m.validated_eq with he | he
  · rwa [he]
  · rw [he]
    exact h.congr (bind_gen m) (bind_seq m) (bind_invalid m) (bind_range m) (bind_pages m)

theorem Mem.Fetched.validated (h : m.Fetched) : m.validated.Fetched := by
  rcases m.validated_eq with he | he
  · rwa [he]
  · rw [he]
    refine h.sub (bind_invalid m) (bind_range m) (bind_pages m) fun a ha => ⟨a, ?_, rfl⟩
    rwa [Mem.mapped_eq (bind_atts m)] at ha

theorem validated_invalid (m : Mem) : m.validated.invalid = m.invalid := by
  rcases m.validated_eq with he | he
  · rw [he]
  · rw [he, bind_invalid]

theorem validated_atts (m : Mem) : m.validated.atts = m.atts := by
  rcases m.validated_eq with he | he
  · rw [he]
  · rw [he, bind_atts]

theorem validated_gen (m : Mem) : m.validated.gen = m.gen := by
  rcases m.validated_eq with he | he
  · rw [he]
  · rw [he, bind_gen]

/-- Only mapped attachments get new entries. -/
theorem mem_updatePtes {n : Nat} {a : Att} (ha : a ∈ (m.validated.updatePtes n).atts) :
    ∃ a' ∈ m.atts, a'.type = a.type ∧ a'.isMapped = a.isMapped ∧
      (a.isMapped = false → a' = a) := by
  have hatts : (m.validated.updatePtes n).atts = (m.atts.take n).map (fun a =>
      if a.isMapped then { a with pte := m.validated.pte a.type } else a) ++ m.atts.drop n := by
    rw [Mem.updatePtes, validated_atts]
  rw [hatts] at ha
  rcases mem_append.mp ha with hm | hm
  · obtain ⟨a', ha', rfl⟩ := mem_map.mp hm
    refine ⟨a', mem_of_mem_take ha', ?_⟩
    split
    · next hmap => exact ⟨rfl, rfl, fun hf => absurd (hmap.symm.trans hf) nofun⟩
    · exact ⟨rfl, rfl, fun _ => rfl⟩
  · exact ⟨a, mem_of_mem_drop hm, rfl, rfl, fun _ => rfl⟩

theorem Mem.BoundOk.updated (h : m.BoundOk) (n : Nat) (hn : m.validated.atts.length ≤ n) :
    (m.validated.updatePtes n).Updated := by
  intro a ha
  obtain ⟨ha, hmap⟩ := mem_filter.mp ha
  simp only [Mem.updatePtes, take_of_length_le hn, drop_of_length_le hn,
    append_nil] at ha
  obtain ⟨a', -, rfl⟩ := mem_map.mp ha
  have hmap' : a'.isMapped = true := by
    by_contra hf
    rw [if_neg hf] at hmap
    exact hf hmap
  rw [if_pos hmap']
  show (m.validated.pages = none → a'.type = .shared → m.validated.pte a'.type = .clear) ∧
    ∀ k, m.validated.pages = some k → m.validated.pte a'.type = .page k
  by_cases hp : m.pages = none
  · rw [show m.validated = m from if_pos hp]
    refine ⟨fun _ ht => ?_, fun k hk => ?_⟩
    · rw [ht, Mem.pte, h.inSystem hp, if_pos rfl]
    · rw [hp] at hk
      cases hk
  · rw [show m.validated = m.bind from if_neg hp]
    obtain ⟨k, hk, hpte⟩ := (h.bind hp).pte (bind_inSystem m) a'.type
    refine ⟨fun hn => ?_, fun k' hk' => ?_⟩
    · rw [hk] at hn
      cases hn
    · rw [hpte]
      exact congrArg Pte.page (some.inj (hk.symm.trans hk'))

end

variable {s : State} {m : Mem}

theorem Inv.workerValidate (h : Inv s) (r : Validate) (hok : StepOk s (.workerValidate r)) :
    Inv (workerValidate s r) := by
  unfold Userptr.workerValidate
  split
  · exact h
  · rename_i saved b todo hw
    have hworker := h.worker
    rw [hw] at hworker
    obtain ⟨hsaved, htodo, hq, hu⟩ := hworker
    have hb : b ∈ s.invalList := htodo b mem_cons_self
    have hl : s.worker.Locked = true := by rw [hw]; rfl
    have hbound := (h.bound b).validated
    have hinval := (h.invalOk b hb).validated
    have hstuck : ∀ n, ∀ a ∈ ((s.mem b).validated.updatePtes n).atts, a.isMapped = false →
        (s.mem b).validated.Leads a.pte := by
      intro n a ha hm
      obtain ⟨a', ha', -, hmap, heq⟩ := mem_updatePtes ha
      rw [← heq hm, Mem.Leads, validated_gen]
      exact h.unmapped hb a' ha' (hmap.trans hm)
    simp only
    cases r with
    | boFails => exact h.retry (h.lock hl)
    | pteFails n =>
      have hlt : (s.mem b).validated.invalid + 1 < 2 ^ 32 := by
        rw [validated_invalid]
        exact hok saved b todo hw
      have hm : ((s.mem b).validated.invalid + 1) % 2 ^ 32 ≠ 0 := by
        rw [Nat.mod_eq_of_lt hlt]
        exact Nat.succ_ne_zero _
      refine h.workerSetMem hl hb hbound (.of_marked hm fun hr => ?_) (hstuck n) trivial (.inl rfl)
      obtain ⟨q, hqr⟩ := Option.ne_none_iff_exists'.mp hr
      exact (hinval.1 q hqr).1
    | ok =>
      have hlen : (s.mem b).validated.atts.length ≤ (s.mem b).atts.length :=
        Nat.le_of_eq (congrArg List.length (validated_atts _))
      refine h.workerSetMem hl hb hbound (hinval.congr rfl rfl rfl rfl rfl) (hstuck _)
        ⟨hsaved, fun i hi => htodo i (mem_cons_of_mem b hi),
          hq.setMem (fun hv => absurd hb (h.disjoint b hv))
            (fun _ _ _ hp => hp) ?_, ?_⟩ (.inr (by simp))
      · intro _ he _
        refine ((hq he).2 b hb trivial).validated.sub rfl rfl rfl fun a ha => ?_
        obtain ⟨ha, hm⟩ := mem_filter.mp ha
        obtain ⟨a', ha', ht, hmap, -⟩ := mem_updatePtes ha
        refine ⟨a', mem_filter.mpr ⟨?_, hmap.trans hm⟩, ht⟩
        rwa [validated_atts]
      · intro i hi hni
        by_cases hib : i = b
        · subst hib
          rw [setMem_self]
          exact (h.bound i).updated _ hlen
        · rw [setMem_ne _ hib]
          exact hu i hi fun hm => (mem_cons.mp hm).elim hib hni
  · exact h

theorem Inv.workerTables (h : Inv s) (ok : Bool) : Inv (workerTables s ok) := by
  unfold Userptr.workerTables
  split
  · rename_i saved todo hw
    have hworker := h.worker
    rw [hw] at hworker
    obtain ⟨hsaved, -, hq, hu⟩ := hworker
    have ht : s.task = .none := h.lock (by rw [hw]; rfl)
    split
    · exact h.retry ht
    · split
      · rename_i hnil
        exact h.setWorker ht ⟨hsaved, hq, fun i hi => hu i hi (by simp [hnil])⟩
          fun _ => .inr (.inl nofun)
      · exact h
  · exact h

theorem confirmed_iff : m.confirmed = true ↔ m.range = some m.seq ∧ m.invalid = 0 :=
  decide_eq_true_iff

theorem Mem.InvalOk.confirmed (h : m.InvalOk) (hf : m.Fetched) (hr : m.range ≠ none) :
    m.confirmed = true := by
  obtain ⟨q, hq⟩ := Option.ne_none_iff_exists'.mp hr
  have hi := hf.1 hr
  exact confirmed_iff.mpr ⟨hq.trans (congrArg some ((h.1 q hq).2 hi).2), hi⟩

theorem Mem.InvalOk.valid (h : m.InvalOk) (hu : m.Updated) (hc : m.confirmed = true) :
    { m with range := none : Mem }.ValidOk := by
  obtain ⟨hr, hi⟩ := confirmed_iff.mp hc
  have hp := ((h.1 _ hr).2 hi).1
  refine ⟨rfl, fun _ => ⟨fun n hn => ?_, fun a ha => .inr ((hu a ha).2 _ hp)⟩⟩
  exact some.inj (hn.symm.trans hp)

theorem Mem.Updated.cleared (h : m.Updated) (hf : m.Fetched) (hr : m.range = none) :
    ∀ a ∈ m.mapped, a.pte = .clear := fun a ha =>
  (h a ha).1 (hf.2 hr).1 ((hf.2 hr).2 a ha)

theorem confirm_mem (s : State) (b : Nat) : (confirmValidUserPages s).mem b =
    if b ∈ s.invalList then { s.mem b with range := none } else s.mem b := rfl

theorem Inv.confirm (h : Inv s) (hvalid : ∀ b ∈ s.validList, (s.mem b).invalid = 0)
    (hfetched : ∀ b ∈ s.invalList, (s.mem b).Fetched)
    (hupdated : ∀ b ∈ s.invalList, (s.mem b).Updated) (ht : s.task = .none) {r : Nat}
    (hr : s.blocked.toNat + s.credits ≤ r) :
    Inv { confirmValidUserPages s with
          evictedBos := 0, refs := r, outstanding := false, worker := .idle } := by
  -- a BO that stays on the list has no range
  have hstay : ∀ b ∈ (confirmValidUserPages s).invalList,
      b ∈ s.invalList ∧ (s.mem b).range = none := by
    intro b hb
    obtain ⟨hin, hn⟩ := mem_filter.mp hb
    refine ⟨hin, ?_⟩
    by_contra hne
    exact of_decide_eq_true hn ((h.invalOk b hin).confirmed (hfetched b hin) hne)
  have hvalid' : ∀ b ∈ (confirmValidUserPages s).validList,
      (b ∈ s.validList ∧ b ∉ s.invalList) ∨ b ∈ s.invalList ∧ (s.mem b).confirmed = true := by
    intro b hb
    rcases mem_append.mp hb with hv | hm
    · exact .inl ⟨hv, h.disjoint b hv⟩
    · exact .inr (mem_filter.mp hm)
  have hlive : ∀ b, Live (confirmValidUserPages s) b → Live s b := by
    intro b hb
    rcases hb with hv | hin
    · exact (hvalid' b hv).imp And.left And.left
    · exact .inr (hstay b hin).1
  have hmem : ∀ b, ((confirmValidUserPages s).mem b).atts = (s.mem b).atts ∧
      ((confirmValidUserPages s).mem b).gen = (s.mem b).gen := by
    intro b
    rw [confirm_mem]
    split <;> exact ⟨rfl, rfl⟩
  exact {
    detached := fun b hb hl => h.detached b hb (hlive b hl)
    stuck := by
      intro b a ha hs
      show ((confirmValidUserPages s).mem b).Leads a.pte
      rw [Mem.Leads, (hmem b).2]
      exact h.stuck b a ((hmem b).1 ▸ ha) (hs.imp_left fun hm => ⟨hlive b hm.1, hm.2⟩)
    disjoint := by
      intro b hb hin
      obtain ⟨hold, hn⟩ := hstay b hin
      rcases hvalid' b hb with ⟨-, hni⟩ | ⟨-, hc⟩
      · exact hni hold
      · rw [(confirmed_iff.mp hc).1] at hn
        cases hn
    bound := by
      intro b
      show ((confirmValidUserPages s).mem b).BoundOk
      rw [confirm_mem]
      split <;> exact h.bound b
    validOk := by
      intro b hb
      show ((confirmValidUserPages s).mem b).ValidOk
      rw [confirm_mem]
      rcases hvalid' b hb with ⟨hv, hni⟩ | ⟨hin, hc⟩
      · rw [if_neg hni]
        exact h.validOk b hv
      · rw [if_pos hin]
        exact (h.invalOk b hin).valid (hupdated b hin) hc
    invalOk := by
      intro b hb
      show ((confirmValidUserPages s).mem b).InvalOk
      obtain ⟨hin, hn⟩ := hstay b hb
      rw [confirm_mem, if_pos hin]
      exact .of_marked ((h.invalOk b hin).2 hn) fun hne => absurd rfl hne
    refs := by
      show 0 + s.blocked.toNat + s.credits ≤ r
      rwa [Nat.zero_add]
    cleared := by
      intro _ b hb
      show ((confirmValidUserPages s).mem b).Cleared
      rw [confirm_mem]
      intro hi a ha
      rcases hb with hv | hin
      · rcases hvalid' b hv with ⟨hv, hni⟩ | ⟨hin, hc⟩
        · rw [if_neg hni] at hi
          exact absurd (hvalid b hv) hi
        · rw [if_pos hin] at hi
          exact absurd (confirmed_iff.mp hc).2 hi
      · obtain ⟨hin, hn⟩ := hstay b hin
        rw [if_pos hin] at ha
        exact (hupdated b hin).cleared (hfetched b hin) hn a ha
    marked := by
      intro _ b hb
      show ((confirmValidUserPages s).mem b).invalid ≠ 0
      obtain ⟨hin, hn⟩ := hstay b hb
      rw [confirm_mem, if_pos hin]
      exact (h.invalOk b hin).2 hn
    restoring := fun he => absurd rfl he
    outstanding := nofun
    lock := nofun
    task := .of_none ht
    worker := trivial }

theorem Inv.workerFinal (h : Inv s) (resumeOk : Bool) : Inv (workerFinal s resumeOk) := by
  unfold Userptr.workerFinal
  split
  · rename_i saved hw
    have hworker := h.worker
    rw [hw] at hworker
    obtain ⟨-, hq, hu⟩ := hworker
    have hl : s.worker.Locked = true := by rw [hw]; rfl
    split
    · exact h.retry (h.lock hl)
    · rename_i he
      obtain ⟨hvalid, hfetched⟩ := hq (not_not.mp he)
      split
      · rename_i hc
        obtain ⟨b, hb, hr, hnc⟩ := hc
        exact absurd ((h.invalOk b hb).confirmed (hfetched b hb trivial) hr) hnc
      · have hrefs := h.refs
        rw [if_neg (h.evicted hl)] at hrefs
        refine h.confirm hvalid (fun b hb => hfetched b hb trivial) hu (h.lock hl) ?_
        split <;> omega
  · exact h

theorem Inv.step (h : Inv s) (op : Op) (hok : StepOk s op) : Inv (step s op) := by
  cases op with
  | evict b quiesceOk => exact h.evict b quiesceOk hok
  | initBegin b criu => exact h.initBegin b criu
  | initFetch ok => exact h.initFetch ok
  | initValidate ok => exact h.initValidate ok
  | freeBegin b => exact h.freeBegin b
  | freeEnd ok => exact h.freeEnd ok
  | mapBegin b vm type => exact h.mapBegin b vm type
  | mapEnd r => exact h.mapEnd r hok
  | unmap b vm => exact h.unmap b vm
  | criuRestore => exact h.criuRestore
  | block => exact h.block
  | criuResume => exact h.criuResume hok
  | exit => exact h.exit
  | workerStart => exact h.workerStart
  | workerLock => exact h.workerLock
  | workerNext => exact h.workerNext
  | workerFetch r => exact h.workerFetch r hok
  | workerRelock => exact h.workerRelock
  | workerValidate r => exact h.workerValidate r hok
  | workerTables ok => exact h.workerTables ok
  | workerFinal resumeOk => exact h.workerFinal resumeOk

/-! ## Runs -/

theorem Inv.right (h : Inv s) : Right s where
  safe hr b hb a ha := by
    have he : s.evictedBos = 0 := by
      by_contra hne
      have := h.refs
      rw [if_neg hne] at this
      omega
    rcases hb with hlive | hd
    · cases hm : a.isMapped with
      | false => exact h.stuck b a ha (.inl ⟨hlive, hm⟩)
      | true =>
        have ha : a ∈ (s.mem b).mapped := mem_filter.mpr ⟨ha, hm⟩
        by_cases hi : (s.mem b).invalid = 0
        · rcases hlive with hv | hv
          · exact ((h.validOk b hv).2 hi).2 a ha
          · exact absurd hi (h.marked he b hv)
        · exact .inl (h.cleared he b hlive hi a ha)
    · exact h.stuck b a ha (.inr hd)
  quiesced ho := by
    have := h.refs
    rw [if_neg (h.outstanding ho)] at this
    omega
  restoring ho := h.restoring (h.outstanding ho)

theorem userptr_fault :
    let s := run step init [.initBegin 0 false, .initFetch true, .initValidate true,
      .mapBegin 0 0 .shared, .mapEnd .ok, .evict 0 true, .workerStart, .workerLock, .workerNext,
      .workerFetch .fault, .workerRelock, .workerNext, .workerValidate .ok, .workerTables true,
      .workerFinal true]
    s.refs = 0 ∧ (s.mem 0).gen = 1 ∧ (s.mem 0).atts = [⟨0, .shared, .page 0, true⟩] := by
  decide

/-- A BO whose free has failed is mapped without a notifier. -/
theorem userptr_detached :
    let s := run step init [.initBegin 0 false, .initFetch true, .initValidate true, .freeBegin 0,
      .freeEnd false, .mapBegin 0 0 .shared, .mapEnd .ok, .evict 0 true]
    s.refs = 0 ∧ (s.mem 0).gen = 1 ∧ (s.mem 0).atts = [⟨0, .shared, .page 0, true⟩] := by
  decide

end Amdkfd.Userptr
