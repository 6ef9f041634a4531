import Amdkfd.Events.WaitSafe

/-!
# Waits, destruction and wake-ups

What becomes of a call whose event is destroyed, and of a waiter whose event is set.
-/

namespace Amdkfd.EventWait

open Lib List Option

/-! ## Calls that fail -/

/-- The call is past its checks and does not succeed. -/
def Wait.Fails (w : Wait) : Prop :=
  match w.phase with
  | .relock => w.ret ≠ none ∨ w.result = .fail
  | .free _ => w.ret ≠ none ∨ w.result = .fail
  | .done => w.ret ≠ none ∧ w.result = .fail
  | _ => False

/-- The call has yet to look at the pointer of the waiter at `i`. -/
def Wait.Unchecked (w : Wait) (i : Nat) : Prop :=
  match w.phase with
  | .scan _ j _ seen => j < i ∨ j = i ∧ seen = false
  | .loop => True
  | .relock => w.ret = none ∧ w.result = .complete
  | .copy j _ => j ≤ i
  | _ => False

def Wait.Doomed (w : Wait) : Prop :=
  w.Fails ∨ ∃ i x, w.waiters[i]? = some x ∧ x.event = none ∧ w.Unchecked i

/-- What others do to a call. -/
structure Wait.Same (w w' : Wait) : Prop where
  phase : w'.phase = w.phase
  ret : w'.ret = w.ret
  result : w'.result = w.result
  cleared : ∀ (i : Nat) (x : Waiter), w.waiters[i]? = some x → x.event = none →
    ∃ x', w'.waiters[i]? = some x' ∧ x'.event = none

theorem Wait.Same.refl (w : Wait) : w.Same w :=
  ⟨rfl, rfl, rfl, fun _ x hx hnone => ⟨x, hx, hnone⟩⟩

theorem Wait.Same.doomed {w w' : Wait} (h : w.Same w') (hw : w.Doomed) : w'.Doomed := by
  rcases hw with hfails | ⟨i, x, hx, hnone, hi⟩
  · left
    unfold Wait.Fails at hfails ⊢
    rw [h.phase, h.ret, h.result]
    exact hfails
  · obtain ⟨x', hx', hnone'⟩ := h.cleared i x hx hnone
    refine Or.inr ⟨i, x', hx', hnone', ?_⟩
    unfold Wait.Unchecked at hi ⊢
    rw [h.phase, h.ret, h.result]
    exact hi

section Doomed
variable {s : State} {t : Nat} {w w' : Wait}

theorem setWait_self (ht : s.waits[t]? = some w) : (s.setWait t w').waits[t]? = some w' :=
  getElem?_set_self (List.getElem?_eq_some_iff.mp ht).1

theorem mapQueued_same {wq : List Entry} {f : Waiter → Waiter} (hf : ∀ x, x.event = none →
    (f x).event = none) (ht : s.waits[t]? = some w) :
    ∃ w', (s.mapQueued wq f).waits[t]? = some w' ∧ w.Same w' := by
  have hw' : (s.mapQueued wq f).waits[t]? = some { w with
      waiters := w.waiters.mapIdx fun i x => if (t, i) ∈ wq then f x else x } := by
    rw [State.mapQueued, getElem?_mapIdx, ht]
    rfl
  refine ⟨_, hw', rfl, rfl, rfl, fun i x hx hnone => ?_⟩
  refine ⟨if (t, i) ∈ wq then f x else x, ?_, ?_⟩
  · rw [getElem?_mapIdx, hx]
    rfl
  · split
    · exact hf x hnone
    · exact hnone

theorem setEvent_same {a : Nat} {ev : Event} {woken : List Entry} (ht : s.waits[t]? = some w) :
    ∃ w', (setEvent s a ev woken).waits[t]? = some w' ∧ w.Same w' :=
  mapQueued_same (fun _ hnone => hnone) ht

variable {i : Nat}

section
variable (ht : s.waits[t]? = some w)
include ht

theorem doomed_afterScan {x : Waiter} (hx : w.waiters[i]? = some x) (hnone : x.event = none)
    (first : Bool) {r : WaitResult} (hr : r ≠ .timeout) (expired : Bool) :
    ∃ w', (afterScan s t w first r expired).waits[t]? = some w' ∧ w'.Doomed := by
  unfold afterScan
  split
  · exact ⟨_, setWait_self ht, Or.inr ⟨i, x, hx, hnone, Nat.zero_le i⟩⟩
  · exact ⟨_, setWait_self ht, Or.inl (Or.inr rfl)⟩
  · exact absurd rfl hr
  · exact absurd rfl hr
  · refine ⟨_, setWait_self ht, ?_⟩
    cases r with
    | timeout => exact absurd rfl hr
    | fail => exact Or.inl (Or.inr rfl)
    | complete =>
      cases hret : w.ret with
      | none => exact Or.inr ⟨i, x, hx, hnone, rfl, rfl⟩
      | some e => exact Or.inl (Or.inl (by simp))

theorem doomed_freeWaiter (hw : w.ret ≠ none ∨ w.result = .fail) (x : Waiter) (woken : List Entry) :
    ∃ w', (freeWaiter s t i w x woken).waits[t]? = some w' ∧ w'.Doomed := by
  have hnext : Wait.Doomed { w with phase := .free (i + 1) } := Or.inl hw
  unfold freeWaiter
  simp only
  split
  · exact ⟨_, setWait_self ht, hnext⟩
  next a _ =>
  split
  · exact ⟨_, setWait_self ht, hnext⟩
  next ev _ =>
  have hself := @setWait_self { s with heap := s.heap.set a { ev with
    wq := ev.wq.filter (· ≠ (t, i)) } } t w { w with phase := .free (i + 1) } ht
  split
  · obtain ⟨w', hw', hsame⟩ := setEvent_same hself
    exact ⟨w', hw', hsame.doomed hnext⟩
  · exact ⟨_, hself, hnext⟩

theorem doomed_self {m : Option Nat} {w' : Wait} (hw' : w'.Doomed) :
    ∃ u, ({ s with mutex := m }.setWait t w').waits[t]? = some u ∧ u.Doomed :=
  ⟨w', setWait_self (s := { s with mutex := m }) ht, hw'⟩

theorem fails_callStep (hfails : w.Fails) (c : Choice) :
    ∃ w', (callStep s t w c).waits[t]? = some w' ∧ w'.Doomed := by
  have hstay : ∃ u, s.waits[t]? = some u ∧ u.Doomed := ⟨w, ht, Or.inl hfails⟩
  unfold Wait.Fails at hfails
  unfold callStep
  split at hfails
  · next hp =>
    rw [hp]
    simp only
    split
    · refine doomed_self ht (Or.inl ?_)
      have hno : ¬ (w.ret = none ∧ w.result = WaitResult.complete) := by
        rintro ⟨hret, hres⟩
        rcases hfails with hne | hfail
        · exact hne hret
        · cases hres.symm.trans hfail
      simp only [if_neg hno]
      exact hfails
    · exact hstay
  · next k hp =>
    rw [hp]
    simp only
    split
    · refine doomed_self ht (Or.inl ?_)
      show (_ ≠ none ∧ _ = WaitResult.fail)
      simp only [Wait.finish]
      cases hret : w.ret with
      | none =>
        have hfail : w.result = .fail := hfails.resolve_left fun hne => hne hret
        simp [hfail]
      | some e => simp
    · next y _ => exact doomed_freeWaiter ht hfails y _
  · next hp =>
    rw [hp]
    exact hstay
  · cases hfails

theorem unchecked_callStep {x : Waiter} (hx : w.waiters[i]? = some x) (hnone : x.event = none)
    (hi : w.Unchecked i) (c : Choice) :
    ∃ w', (callStep s t w c).waits[t]? = some w' ∧ w'.Doomed := by
  have hstay : ∃ u, s.waits[t]? = some u ∧ u.Doomed := ⟨w, ht, Or.inr ⟨i, x, hx, hnone, hi⟩⟩
  unfold Wait.Unchecked at hi
  unfold callStep
  split at hi
  · next first j count seen hp =>
    rw [hp]
    simp only
    have hlt : j < w.waiters.length := by
      have := (List.getElem?_eq_some_iff.mp hx).1
      rcases hi with hlt | ⟨rfl, -⟩
      · exact lt_trans hlt this
      · exact this
    split
    · next hend => exact absurd hlt (not_lt.mpr (getElem?_eq_none_iff.mp hend))
    next y hy =>
    split
    · next hseen =>
      split
      · exact doomed_afterScan ht hx hnone first (r := .fail) nofun _
      · next hsome =>
        rcases hi with hlt | ⟨rfl, -⟩
        · exact doomed_self ht (Or.inr ⟨i, x, hx, hnone, Or.inl hlt⟩)
        · cases hx.symm.trans hy
          exact absurd hnone hsome
    next hseen =>
    -- The scan has still to come to the waiter without an event.
    have hlt : j < i := hi.resolve_right fun h => hseen h.2
    have hmore : ∀ n, Wait.Doomed { w with phase := .scan first (j + 1) n false } := by
      intro n
      refine Or.inr ⟨i, x, hx, hnone, ?_⟩
      rcases Nat.lt_or_eq_of_le (Nat.succ_le_of_lt hlt) with h | h
      · exact Or.inl h
      · exact Or.inr ⟨h, rfl⟩
    split
    · exact doomed_self ht (hmore _)
    · split
      · exact doomed_afterScan ht hx hnone first (r := .complete) nofun _
      · exact doomed_self ht (hmore _)
  · next hp =>
    rw [hp]
    simp only
    split
    · exact doomed_self ht (Or.inl (Or.inl nofun))
    · exact doomed_self ht (Or.inl (Or.inl nofun))
    · refine doomed_self ht (Or.inr ⟨i, x, hx, hnone, ?_⟩)
      rcases Nat.eq_zero_or_pos i with rfl | hpos
      · exact Or.inr ⟨rfl, rfl⟩
      · exact Or.inl hpos
  · next hp =>
    rw [hp]
    simp only
    split
    · refine doomed_self ht (Or.inr ⟨i, x, hx, hnone, ?_⟩)
      simp only [Wait.Unchecked, if_pos hi]
      exact Nat.zero_le i
    · exact hstay
  · next j src hp =>
    rw [hp]
    simp only
    have hfail : ∀ e, Wait.Doomed { w with ret := some e, phase := .free 0 } := fun e =>
      Or.inl (Or.inl nofun)
    split
    · next hend =>
      have hlt := (List.getElem?_eq_some_iff.mp hx).1
      exact absurd (lt_of_le_of_lt hi hlt)
        (not_lt.mpr (getElem?_eq_none_iff.mp hend))
    next y hy =>
    split
    · exact doomed_self ht (hfail _)
    next a ha =>
    have hlt : j < i := by
      rcases Nat.lt_or_eq_of_le hi with h | rfl
      · exact h
      · cases hx.symm.trans hy
        cases hnone.symm.trans ha
    have hmore : ∀ src', Wait.Doomed { w with phase := .copy (j + 1) src' } := fun src' =>
      Or.inr ⟨i, x, hx, hnone, hlt⟩
    split
    · exact hstay
    split
    · exact doomed_self ht (hmore _)
    · split
      · exact doomed_self ht (hfail _)
      · exact doomed_self ht (hmore _)
  · cases hi

theorem doomed_callStep (hw : w.Doomed) (c : Choice) :
    ∃ w', (callStep s t w c).waits[t]? = some w' ∧ w'.Doomed := by
  rcases hw with hfails | ⟨i, x, hx, hnone, hi⟩
  · exact fails_callStep ht hfails c
  · exact unchecked_callStep ht hx hnone hi c

end

theorem callStep_other {t' : Nat} (h : Inv s) (hne : t' ≠ t) (ht : s.waits[t]? = some w)
    (ht' : s.waits[t']? = some w') (c : Choice) :
    ∃ u, (callStep s t' w' c).waits[t]? = some u ∧ w.Same u := by
  have hkeep : ∀ {s1 : State} (u : Wait), s1.waits = s.waits →
      (s1.setWait t' u).waits[t]? = some w := by
    intro s1 u hwaits
    show (s1.waits.set t' u)[t]? = some w
    rw [getElem?_set_ne hne, hwaits]
    exact ht
  have hsame : ∀ {s1 : State} (u : Wait), s1.waits = s.waits →
      ∃ u', (s1.setWait t' u).waits[t]? = some u' ∧ w.Same u' := fun u hwaits =>
    ⟨w, hkeep u hwaits, Wait.Same.refl w⟩
  have hcase := callStep_cases h ht' c
  generalize callStep s t' w' c = s' at hcase
  cases hcase with
  | stay => exact ⟨w, ht, Wait.Same.refl w⟩
  | move => exact hsame _ rfl
  | setUp hp hx hs' =>
    obtain ⟨a, ev, -, -, rfl⟩ := initEventWaiter_ok hs'
    exact hsame _ rfl
  | free =>
    unfold freeWaiter
    simp only
    split
    · exact hsame _ rfl
    · split
      · exact hsame _ rfl
      · split
        · exact setEvent_same (hkeep _ rfl)
        · exact hsame _ rfl

end Doomed

theorem doomed_step {s : State} (hinv : Inv s) {t : Nat} (op : Op)
    (h : ∃ w, s.waits[t]? = some w ∧ w.Doomed) :
    ∃ w, (step s op).waits[t]? = some w ∧ w.Doomed := by
  obtain ⟨w, ht, hw⟩ := h
  have hsame : (∃ w', (step s op).waits[t]? = some w' ∧ w.Same w') →
      ∃ w', (step s op).waits[t]? = some w' ∧ w'.Doomed := by
    rintro ⟨w', ht', hsame⟩
    exact ⟨w', ht', hsame.doomed hw⟩
  have hstay : ∃ w', s.waits[t]? = some w' ∧ w.Same w' := ⟨w, ht, Wait.Same.refl w⟩
  cases op with
  | create id type autoReset signaled eventAge =>
    refine hsame ?_
    simp only [step, eventCreate]
    split
    · exact hstay
    · exact hstay
  | set a woken =>
    refine hsame ?_
    simp only [step]
    split
    · exact hstay
    · exact setEvent_same ht
  | reset a =>
    refine hsame ?_
    simp only [step]
    split
    · exact hstay
    · exact hstay
  | destroy id woken =>
    refine hsame ?_
    simp only [step, kfdEventDestroy]
    split
    · split
      · exact hstay
      · exact mapQueued_same (fun _ _ => rfl) ht
    · exact hstay
  | start all data =>
    refine hsame ⟨w, ?_, Wait.Same.refl w⟩
    exact (getElem?_append_left (List.getElem?_eq_some_iff.mp ht).1).trans ht
  | call t' c =>
    rcases eq_or_ne t' t with rfl | hne
    · simp only [step, ht]
      exact doomed_callStep ht hw c
    · refine hsame ?_
      simp only [step]
      split
      · exact hstay
      · next ht' => exact callStep_other hinv hne ht ht' c

/-! ## Ages -/

theorem lt_nextAge {age : UInt64} (h : age ≠ lastAge) : age < nextAge age := by
  have hne : age.toNat ≠ 2 ^ 64 - 1 := fun heq => h (UInt64.toNat_inj.mp heq)
  have hlt := age.toNat_lt
  have hsucc : (age + 1).toNat = age.toNat + 1 := by
    rw [UInt64.toNat_add]
    exact Nat.mod_eq_of_lt (by simpa using by omega)
  have hpos : age + 1 ≠ 0 := by
    intro hzero
    rw [hzero] at hsucc
    cases hsucc
  rw [nextAge, if_neg hpos, UInt64.lt_iff_toNat_lt, hsucc]
  exact Nat.lt_succ_self _

def AgesRise (s s' : State) : Prop :=
  ∀ (a : Nat) (ev : Event), s.heap[a]? = some ev →
    ∃ ev', s'.heap[a]? = some ev' ∧ ev'.type = ev.type ∧ ev.eventAge ≤ ev'.eventAge

section Ages
variable {s s' : State} {a : Nat} {ev ev' : Event}

theorem AgesRise.of_heap (h : s'.heap = s.heap) : AgesRise s s' := by
  intro a ev hev
  exact ⟨ev, h ▸ hev, rfl, UInt64.le_refl _⟩

theorem AgesRise.of_set (hev : s.heap[a]? = some ev) (h : s'.heap = s.heap.set a ev')
    (htype : ev'.type = ev.type) (hage : ev.eventAge ≤ ev'.eventAge) : AgesRise s s' := by
  intro b e hb
  rcases eq_or_ne b a with rfl | hne
  · cases hev.symm.trans hb
    refine ⟨ev', ?_, htype, hage⟩
    rw [h]
    exact getElem?_set_self (List.getElem?_eq_some_iff.mp hb).1
  · refine ⟨e, ?_, rfl, UInt64.le_refl _⟩
    rw [h, getElem?_set_ne hne.symm]
    exact hb

theorem freeWaiter_heap (s : State) (t i : Nat) (w : Wait) (x : Waiter) (woken : List Entry) :
    ((freeWaiter s t i w x woken).heap = s.heap ∧ undoneBy s w x = none) ∨
    ∃ a ev ev', x.event = some a ∧ s.heap[a]? = some ev ∧
      (freeWaiter s t i w x woken).heap = s.heap.set a ev' ∧ ev'.type = ev.type ∧
      (undoneBy s w x = none ∧ ev'.eventAge = ev.eventAge ∨
        undoneBy s w x = some a ∧ ev'.eventAge = nextAge ev.eventAge) := by
  unfold freeWaiter
  simp only
  split
  · next hnone => exact Or.inl ⟨rfl, by simp [undoneBy, hnone]⟩
  next a ha =>
  split
  · next hnone => exact Or.inl ⟨rfl, by simp [undoneBy, ha, hnone]⟩
  next ev hev =>
  right
  split
  · next hundone =>
    have hsome : undoneBy s w x = some a := by
      obtain ⟨b, hb⟩ := isSome_iff_exists.mp hundone
      have hmem := (filter_eq_some_iff.mp hb).1
      cases ha.symm.trans hmem
      exact hb
    refine ⟨a, ev, _, ha, hev, set_set _, rfl, Or.inr ⟨hsome, rfl⟩⟩
  · next hnot =>
    exact ⟨a, ev, _, ha, hev, rfl, rfl, Or.inl ⟨not_isSome_iff_eq_none.mp hnot, rfl⟩⟩

theorem set_rises (hev : s.heap[a]? = some ev) (h : s'.heap = s.heap.set a ev')
    (hage : ev'.eventAge = nextAge ev.eventAge) (hlast : ev.eventAge ≠ lastAge) :
    ∃ e, s'.heap[a]? = some e ∧ ev.eventAge < e.eventAge := by
  refine ⟨ev', ?_, hage ▸ lt_nextAge hlast⟩
  rw [h]
  exact getElem?_set_self (List.getElem?_eq_some_iff.mp hev).1

theorem callStep_age (h : Inv s) {t : Nat} {w : Wait} (ht : s.waits[t]? = some w) (c : Choice)
    (hok : (Op.call t c).Ok s) :
    AgesRise s (callStep s t w c) ∧
    ∀ e ev, setsEvent s (.call t c) = some e → s.heap[e]? = some ev →
      ∃ ev', (callStep s t w c).heap[e]? = some ev' ∧ ev.eventAge < ev'.eventAge := by
  have hquiet : (∀ i, w.phase = .free i → w.waiters[i]? = none) →
      setsEvent s (.call t c) = none := by
    intro hp
    simp only [setsEvent, ht]
    split
    · next i hi => rw [hp i hi, bind_none]
    · rfl
  replace hok : ∀ a ∈ setsEvent s (.call t c), ∀ ev ∈ s.heap[a]?, ev.eventAge ≠ lastAge := hok
  have hcase := callStep_cases h ht c
  generalize callStep s t w c = s' at hcase
  cases hcase with
  | stay hp =>
    rw [hquiet fun i hi => absurd hi (hp i)]
    exact ⟨AgesRise.of_heap rfl, nofun⟩
  | move _ hp =>
    rw [hquiet hp]
    exact ⟨AgesRise.of_heap rfl, nofun⟩
  | setUp hp hx hs' =>
    rw [hquiet fun i hi => by cases hp.symm.trans hi]
    refine ⟨?_, nofun⟩
    obtain ⟨a, ev, -, hev, rfl⟩ := initEventWaiter_ok hs'
    exact AgesRise.of_set hev rfl rfl (UInt64.le_refl _)
  | @free i x hp hx =>
    have hsets : setsEvent s (.call t c) = undoneBy s w x := by
      simp only [setsEvent, ht, hp, hx, bind_some]
    rw [hsets] at hok ⊢
    rcases freeWaiter_heap s t i w x c.woken with
      ⟨hheap, hno⟩ | ⟨a, ev, ev', -, hev, hheap, htype, ⟨hno, hage⟩ | ⟨hyes, hage⟩⟩
    · rw [hno]
      exact ⟨AgesRise.of_heap hheap, nofun⟩
    · rw [hno]
      exact ⟨AgesRise.of_set hev hheap htype (hage ▸ UInt64.le_refl _), nofun⟩
    · rw [hyes] at hok ⊢
      have hlast := hok a rfl ev hev
      refine ⟨AgesRise.of_set hev hheap htype (hage ▸ UInt64.le_of_lt (lt_nextAge hlast)),
        fun e ev1 he hev1 => ?_⟩
      cases he
      cases hev.symm.trans hev1
      exact set_rises hev hheap hage hlast

theorem step_age (h : Inv s) (op : Op) (hok : op.Ok s) :
    AgesRise s (step s op) ∧
    ∀ e ev, setsEvent s op = some e → s.heap[e]? = some ev →
      ∃ ev', (step s op).heap[e]? = some ev' ∧ ev.eventAge < ev'.eventAge := by
  cases op with
  | create id type autoReset signaled eventAge =>
    refine ⟨?_, fun e ev he => by cases he⟩
    simp only [step, eventCreate]
    split
    · intro a ev hev
      refine ⟨ev, ?_, rfl, UInt64.le_refl _⟩
      exact (getElem?_append_left (List.getElem?_eq_some_iff.mp hev).1).trans hev
    · exact AgesRise.of_heap rfl
  | set a woken =>
    simp only [step]
    split
    · next hnone =>
      refine ⟨AgesRise.of_heap rfl, fun e ev he hev => ?_⟩
      cases he
      cases hnone.symm.trans hev
    · next ev hev =>
      have hlast := hok a rfl ev hev
      refine ⟨AgesRise.of_set hev rfl rfl (UInt64.le_of_lt (lt_nextAge hlast)),
        fun e ev1 he hev1 => ?_⟩
      cases he
      cases hev.symm.trans hev1
      exact set_rises hev rfl rfl hlast
  | reset a =>
    refine ⟨?_, fun e ev he => by cases he⟩
    simp only [step]
    split
    · exact AgesRise.of_heap rfl
    · next hev => exact AgesRise.of_set hev rfl rfl (UInt64.le_refl _)
  | destroy id woken =>
    refine ⟨?_, fun e ev he => by cases he⟩
    simp only [step, kfdEventDestroy]
    split
    · split
      · exact AgesRise.of_heap rfl
      · next hev => exact AgesRise.of_set hev rfl rfl (UInt64.le_refl _)
    · exact AgesRise.of_heap rfl
  | start all data => exact ⟨AgesRise.of_heap rfl, fun e ev he => by cases he⟩
  | call t c =>
    simp only [step]
    split
    · next hnone =>
      refine ⟨AgesRise.of_heap rfl, fun e ev he => ?_⟩
      simp [setsEvent, hnone] at he
    · next w ht => exact callStep_age h ht c hok

theorem run_ages (h : Inv s) {ops : List Op} (hok : StepsOk step (fun s op => op.Ok s) s ops) :
    AgesRise s (run step s ops) := by
  induction ops generalizing s with
  | nil => exact AgesRise.of_heap rfl
  | cons op ops ih =>
    intro a ev hev
    obtain ⟨ev1, hev1, htype1, hage1⟩ := (step_age h op hok.1).1 a ev hev
    obtain ⟨ev2, hev2, htype2, hage2⟩ := ih (inv_step s op h hok.1) hok.2 a ev1 hev1
    exact ⟨ev2, hev2, htype2.trans htype1, UInt64.le_trans hage1 hage2⟩

end Ages

/-! ## Wake-ups -/

section Noticed
variable {s : State} {e : Nat} {age : UInt64}

structure Noticed (s : State) (e : Nat) (age : UInt64) : Prop where
  later : ∃ ev, s.heap[e]? = some ev ∧ ev.type = .signal ∧ age < ev.eventAge
  activated : ∀ t i p x, s.At t i p x → p.freeing = false → x.waited = some e →
    x.data.lastEventAge = age → x.activated = true

/-- Where a waiter of the next state comes from. -/
inductive From (s : State) (t i : Nat) (p : Phase) (x : Waiter) : Prop
  | kept {y : Waiter} {p' : Phase} (hy : s.At t i p' y)
      (hfree : p.freeing = false → p'.freeing = false) (hwaited : x.waited = y.waited)
      (hdata : x.data = y.data) (hact : y.activated = true → x.activated = true)
  | zeroed (hnone : x.waited = none)
  | setUp {y : Waiter} {a : Nat} {ev : Event} (hev : s.heap[a]? = some ev)
      (hx : x = y.initialized a ev)

variable {t i : Nat} {p : Phase} {x : Waiter}

theorem State.At.from (h : s.At t i p x) : From s t i p x :=
  .kept h id rfl rfl id

theorem mapQueued_from {s1 : State} {wq : List Entry} {f : Waiter → Waiter}
    (hx : (s1.mapQueued wq f).At t i p x)
    (hprev : ∀ y, s1.At t i p y → ∃ p', s.At t i p' y ∧ (p.freeing = false → p'.freeing = false))
    (hwaited : ∀ y, (f y).waited = y.waited) (hdata : ∀ y, (f y).data = y.data)
    (hact : ∀ y : Waiter, y.activated = true → (f y).activated = true) : From s t i p x := by
  obtain ⟨y, hy, rfl⟩ := mapQueued_at hx
  obtain ⟨p', hy', hfree⟩ := hprev y hy
  split
  · exact .kept hy' hfree (hwaited y) (hdata y) (hact y)
  · exact .kept hy' hfree rfl rfl id

theorem callStep_from (h : Inv s) {t' : Nat} {w : Wait} (ht : s.waits[t']? = some w) (c : Choice)
    (hx : (callStep s t' w c).At t i p x) : From s t i p x := by
  have hcase := callStep_cases h ht c
  generalize callStep s t' w c = s' at hcase hx
  have hmove : ∀ (m : Option Nat) (heap : List Event) (w' : Wait),
      (∀ (i : Nat) (x : Waiter), w'.waiters[i]? = some x → w.waiters[i]? = some x) →
      (w'.phase.freeing = false → w.phase.freeing = false) → ∀ x : Waiter,
      ({ s with heap := heap, mutex := m }.setWait t' w').At t i p x →
      ∃ p', s.At t i p' x ∧ (p.freeing = false → p'.freeing = false) := by
    intro m heap w' hwaiters hfree x hx
    obtain ⟨p', hx', hp⟩ := setWait_at (s := { s with heap := heap }) ht hwaiters hx
    refine ⟨p', hx', ?_⟩
    rcases hp with ⟨-, rfl, rfl⟩ | rfl
    · exact hfree
    · exact id
  cases hcase with
  | stay => exact hx.from
  | move hw =>
    obtain ⟨p', hx', hfree⟩ := hmove _ _ _ hw.waiters hw.freeing x hx
    exact .kept hx' hfree rfl rfl id
  | setUp hp hy hs' =>
    obtain ⟨a, ev, -, hev, rfl⟩ := initEventWaiter_ok hs'
    rcases initialized_at ht hp hx with ⟨-, -, -, rfl⟩ | ⟨-, p', hx', -, hfree⟩
    · exact .setUp hev rfl
    · exact .kept hx' hfree rfl rfl id
  | @free j y hp hy =>
    have hnext : ∀ (heap : List Event) (x : Waiter),
        (State.setWait { s with heap := heap } t' { w with phase := .free (j + 1) }).At t i p x →
        ∃ p', s.At t i p' x ∧ (p.freeing = false → p'.freeing = false) := fun heap x hx =>
      hmove s.mutex heap { w with phase := .free (j + 1) } (fun _ _ hi => hi) nofun x hx
    have hkept : ∀ (heap : List Event),
        (State.setWait { s with heap := heap } t' { w with phase := .free (j + 1) }).At t i p x →
        From s t i p x := by
      intro heap hx
      obtain ⟨p', hx', hfree⟩ := hnext heap x hx
      exact .kept hx' hfree rfl rfl id
    unfold freeWaiter at hx
    simp only at hx
    split at hx
    · exact hkept s.heap hx
    · split at hx
      · exact hkept s.heap hx
      · split at hx
        · exact mapQueued_from hx (hnext _) (fun _ => rfl) (fun _ => rfl) fun _ _ => rfl
        · exact hkept _ hx

theorem step_from (h : Inv s) (op : Op) (hx : (step s op).At t i p x) : From s t i p x := by
  cases op with
  | create id type autoReset signaled eventAge =>
    simp only [step, eventCreate] at hx
    split at hx
    · exact State.At.from (s := s) hx
    · exact hx.from
  | set a woken =>
    simp only [step] at hx
    split at hx
    · exact hx.from
    · exact mapQueued_from hx (fun y hy => ⟨p, hy, fun hp => hp⟩) (fun _ => rfl)
        (fun _ => rfl) fun _ _ => rfl
  | reset a =>
    simp only [step] at hx
    split at hx
    · exact hx.from
    · exact State.At.from (s := s) hx
  | destroy id woken =>
    simp only [step, kfdEventDestroy] at hx
    split at hx
    · split at hx
      · exact hx.from
      · exact mapQueued_from hx (fun y hy => ⟨p, hy, fun hp => hp⟩) (fun _ => rfl) (fun _ => rfl)
          fun _ ha => ha
    · exact hx.from
  | start all data =>
    obtain ⟨w, ht, hp, hi⟩ := hx
    rcases lt_or_ge t s.waits.length with hlt | hge
    · refine State.At.from ⟨w, ?_, hp, hi⟩
      exact (getElem?_append_left hlt).symm.trans ht
    · have hw : w = newWait all data :=
        mem_singleton.mp
          (mem_of_getElem? ((getElem?_append_right hge).symm.trans ht))
      rw [hw] at hi
      obtain ⟨d, -, rfl⟩ := map_eq_some_iff.mp ((getElem?_map ..).symm.trans hi)
      exact .zeroed rfl
  | call t' c =>
    simp only [step] at hx
    split at hx
    · exact hx.from
    · next ht => exact callStep_from h ht c hx

theorem noticed_step (h : Inv s) (op : Op) (hok : op.Ok s) (hage : age ≠ 0) (hn : Noticed s e age) :
    Noticed (step s op) e age := by
  obtain ⟨ev, hev, htype, hlt⟩ := hn.later
  obtain ⟨ev', hev', htype', hle⟩ := (step_age h op hok).1 e ev hev
  refine ⟨⟨ev', hev', htype'.trans htype, UInt64.lt_of_lt_of_le hlt hle⟩,
    fun t i p x hx hp hwaited hlast => ?_⟩
  cases step_from h op hx with
  | @kept y p' hy hfree hw hd hact =>
    exact hact (hn.activated t i p' y hy (hfree hp) (hw ▸ hwaited) (hd ▸ hlast))
  | zeroed hnone => cases hnone.symm.trans hwaited
  | @setUp y a ev1 ha hx =>
    subst hx
    cases hwaited
    cases hev.symm.trans ha
    have hdata : y.data.lastEventAge = age := hlast
    have hne : ev.eventAge ≠ age := fun heq => absurd (heq ▸ hlt) (UInt64.lt_irrefl _)
    simp [Waiter.initialized, htype, hdata, hage, hne]

theorem Inv.noticed (h : Inv s) (hlive : s.Live e) {ev : Event} (hev : s.heap[e]? = some ev)
    (htype : ev.type = .signal) (hage : age ≠ 0) (hlt : age < ev.eventAge) : Noticed s e age := by
  refine ⟨⟨ev, hev, htype, hlt⟩, fun t i p x hx hp hwaited hlast => ?_⟩
  have hok := h.waiter t i p x hx
  cases hevent : x.event with
  | none => exact absurd hlive (hok.cleared e hwaited hevent)
  | some a =>
    cases (hok.live a hevent).2.symm.trans hwaited
    rcases hok.seen e ev hevent hev hp with hact | ⟨-, hequal⟩
    · exact hact
    · have heq := hequal htype (hlast ▸ hage)
      rw [heq, hlast] at hlt
      exact absurd hlt (UInt64.lt_irrefl _)

end Noticed

/-! ## Runs -/

/-- The run from `s` whose steps meet their conditions. -/
def RunsOk (s : State) (ops : List Op) : Prop :=
  StepsOk step (fun s op => op.Ok s) s ops
  deriving Decidable

def PointersLive (s : State) : Prop :=
  ∀ t i p x a, s.At t i p x → x.event = some a → s.Live a

variable {s : State} {ops : List Op}

theorem RunsOk.inv (h : Inv s) (hok : RunsOk s ops) : Inv (run step s ops) :=
  run_inv_of_stepsOk inv_step h hok

theorem doomed_run (h : Inv s) (hok : RunsOk s ops) {t : Nat}
    (hdoomed : ∃ w, s.waits[t]? = some w ∧ w.Doomed) :
    ∃ w, (run step s ops).waits[t]? = some w ∧ w.Doomed :=
  (run_inv_of_stepsOk (P := fun s => Inv s ∧ ∃ w, s.waits[t]? = some w ∧ w.Doomed)
    (fun s op hs hop => ⟨inv_step s op hs.1 hop, doomed_step hs.1 op hs.2⟩) ⟨h, hdoomed⟩ hok).2

theorem noticed_run (h : Inv s) (hok : RunsOk s ops) {e : Nat} {age : UInt64} (hage : age ≠ 0)
    (hn : Noticed s e age) : Noticed (run step s ops) e age :=
  (run_inv_of_stepsOk (P := fun s => Inv s ∧ Noticed s e age)
    (fun s op hs hop => ⟨inv_step s op hs.1 hop, noticed_step hs.1 op hop hage hs.2⟩) ⟨h, hn⟩ hok).2

theorem setsEvent_idr {op : Op} {e : Nat} (h : setsEvent s op = some e) (hinv : Inv s) :
    (step s op).idr = s.idr := by
  cases op with
  | set a woken =>
    simp only [step]
    split
    · rfl
    · rfl
  | call t c =>
    simp only [step]
    split
    · rfl
    · next w ht =>
      have hcase := callStep_cases hinv ht c
      generalize callStep s t w c = s' at hcase
      cases hcase with
      | stay => rfl
      | move => rfl
      | setUp hp hx hs' =>
        obtain ⟨a, ev, -, -, rfl⟩ := initEventWaiter_ok hs'
        rfl
      | free =>
        unfold freeWaiter
        simp only
        repeat' split
        all_goals rfl
  | create => cases h
  | reset => cases h
  | destroy => cases h
  | start => cases h

/-- Waiting is safe against destruction and loses no wake-up. In every run whose steps meet
their conditions, a pointer of a waiter is to an event of the table and calls touch no other
events; a call one of whose events was destroyed before it has made its final check of it fails
if it returns; and once an event has been set, after its age was `age`, every waiter for it with
that age is activated, in the calls that are not past their checks. -/
theorem waits_safe (ops1 ops2 : List Op) (op : Op) (ops3 : List Op) :
    (RunsOk init ops1 → PointersLive (run step init ops1) ∧
      ∀ t, ∀ a ∈ accesses (run step init ops1) t, (run step init ops1).Live a) ∧
    (RunsOk init (ops1 ++ ops2) → ∀ (t i : Nat) (w : Wait) (x : Waiter) (e : Nat),
      (run step init ops1).waits[t]? = some w → w.waiters[i]? = some x → x.waited = some e →
      ¬ (run step init ops1).Live e → w.Unchecked i →
      ∃ w', (run step init (ops1 ++ ops2)).waits[t]? = some w' ∧
        (w'.phase = .done → w'.ret ≠ none ∧ w'.result = .fail)) ∧
    (RunsOk init (ops1 ++ ops2 ++ op :: ops3) →
      ∀ (e : Nat) (ev : Event), (run step init ops1).heap[e]? = some ev → ev.type = .signal →
      ev.eventAge ≠ 0 → setsEvent (run step init (ops1 ++ ops2)) op = some e →
      (run step init (ops1 ++ ops2)).Live e →
      ∀ t i p x, (run step init (ops1 ++ ops2 ++ op :: ops3)).At t i p x → p.freeing = false →
        x.waited = some e → x.data.lastEventAge = ev.eventAge → x.activated = true) := by
  refine ⟨fun hok => ?_, fun hok t i w x e ht hx hwaited hdead hi => ?_,
    fun hok e ev hev htype hage hsets hlive t i p x hx hp hwaited hlast => ?_⟩
  · have hinv := hok.inv inv_init
    exact ⟨fun t i p x a hx ha => ((hinv.waiter t i p x hx).live a ha).1, hinv.accesses_live⟩
  · obtain ⟨hok1, hok2⟩ := (stepsOk_append step).mp hok
    have hinv : Inv (run step init ops1) := RunsOk.inv inv_init hok1
    have hnone : x.event = none := by
      cases hevent : x.event with
      | none => rfl
      | some a =>
        obtain ⟨hlive, hsame⟩ := (hinv.waiter t i w.phase x ⟨w, ht, rfl, hx⟩).live a hevent
        cases hsame.symm.trans hwaited
        exact absurd hlive hdead
    obtain ⟨w', ht', hw'⟩ := doomed_run hinv hok2 ⟨w, ht, Or.inr ⟨i, x, hx, hnone, hi⟩⟩
    rw [run_append]
    refine ⟨w', ht', fun hdone => ?_⟩
    unfold Wait.Doomed Wait.Fails Wait.Unchecked at hw'
    rw [hdone] at hw'
    exact hw'.resolve_right fun ⟨_, _, _, _, hfalse⟩ => hfalse
  · obtain ⟨hok12, hop, hok3⟩ := (stepsOk_append step).mp hok
    obtain ⟨hok1, hok2⟩ := (stepsOk_append step).mp hok12
    have hinv1 : Inv (run step init ops1) := RunsOk.inv inv_init hok1
    have hinv2 : Inv (run step init (ops1 ++ ops2)) := RunsOk.inv inv_init hok12
    obtain ⟨ev2, hev2, htype2, hage2⟩ := run_ages hinv1 hok2 e ev hev
    rw [← run_append] at hev2
    obtain ⟨ev3, hev3, htype3, -⟩ := (step_age hinv2 op hop).1 e ev2 hev2
    obtain ⟨ev3', hev3', hlt⟩ := (step_age hinv2 op hop).2 e ev2 hsets hev2
    cases hev3.symm.trans hev3'
    have hinv3 := inv_step _ op hinv2 hop
    have hlive3 : (step (run step init (ops1 ++ ops2)) op).Live e := by
      rw [State.Live, setsEvent_idr hsets hinv2]
      exact hlive
    have hnoticed := hinv3.noticed hlive3 hev3 (htype3.trans (htype2.trans htype)) hage
      (UInt64.lt_of_le_of_lt hage2 hlt)
    have hfinal := noticed_run hinv3 hok3 hage hnoticed
    rw [run_append, run_cons] at hx
    exact hfinal.activated t i p x hx hp hwaited hlast

def exChoice : Choice :=
  { fault := false, signal := none, expired := false, woken := [] }

def exSleeps : List Op :=
  [.create 1 .signal false false 1, .start true [⟨1, 1⟩]] ++ replicate 6 (.call 0 exChoice)

def exReturns : List Op :=
  replicate 5 (.call 0 exChoice)

theorem waits_safe_exSleeps :
    PointersLive (run step init exSleeps) ∧
    (∃ w', (run step init (exSleeps ++ [.destroy 1 [(0, 0)]] ++ exReturns)).waits[0]? = some w' ∧
      w'.phase = .done ∧ (w'.phase = .done → w'.ret ≠ none ∧ w'.result = .fail)) ∧
    ∃ p x, (run step init (exSleeps ++ [.set 0 [(0, 0)]])).At 0 0 p x ∧ x.activated = true := by
  refine ⟨((waits_safe exSleeps [] (.reset 0) []).1 (by decide)).1, ?_, ?_⟩
  · obtain ⟨w', hw', hfails⟩ := (waits_safe (exSleeps ++ [.destroy 1 [(0, 0)]]) exReturns
      (.reset 0) []).2.1 (by decide) 0 0 _ _ 0 rfl rfl rfl (by decide) (by exact trivial)
    refine ⟨w', hw', ?_, hfails⟩
    cases hw'
    rfl
  · refine ⟨_, _, ⟨_, rfl, rfl, rfl⟩, ?_⟩
    exact (waits_safe (exSleeps.take 1) (exSleeps.drop 1) (.set 0 [(0, 0)]) []).2.2 (by decide) 0 _
      rfl rfl (by decide) rfl (by decide) 0 0 _ _ ⟨_, rfl, rfl, rfl⟩ rfl rfl rfl

/-- A call waits for two events, of which the first is set already, and so not queued. -/
def exDangling : List Op :=
  [.create 1 .signal false false 1, .set 0 [], .create 2 .signal false false 1,
    .start true [⟨1, 0⟩, ⟨2, 0⟩]] ++ replicate 9 (.call 0 exChoice) ++ [.destroy 1 []]

/-- The call keeps the pointer to the destroyed event, and reads it when the other is set. -/
theorem waits_safe_broken :
    ¬ PointersLive (run step init exDangling) ∧
    ¬ ∀ a ∈ accesses (run step init (exDangling ++ [.set 1 [(0, 1)]] ++
        replicate 7 (.call 0 exChoice))) 0,
      (run step init (exDangling ++ [.set 1 [(0, 1)]] ++
        replicate 7 (.call 0 exChoice))).Live a := by
  refine ⟨fun h => ?_, by decide⟩
  have hlive := h 0 0 _ _ 0 ⟨_, rfl, rfl, rfl⟩ rfl
  revert hlive
  decide

end Amdkfd.EventWait
