import Amdkfd.Events.Wait

/-!
# The pointers of waiters

A waiter that is activated when it is set up is not queued, and one whose task is woken leaves
the queue. `destroy_event` clears the pointers of the queued waiters only.
-/

namespace Amdkfd.EventWait

open Lib List Option

/-! ## The invariant -/

/-- The call holds `event_mutex`. -/
def Phase.holds : Phase → Bool
  | .init _ => true
  | .scan first _ _ _ => first
  | .copy _ _ => true
  | .free _ => true
  | _ => false

/-- The call is past its checks. -/
def Phase.freeing : Phase → Bool
  | .free _ => true
  | .done => true
  | _ => false

/-- The waiter at `i` is not set up. -/
def Phase.before (i : Nat) : Phase → Bool
  | .lock => true
  | .init k => k ≤ i
  | _ => false

structure WaiterOk (s : State) (t i : Nat) (p : Phase) (x : Waiter) : Prop where
  live : ∀ a, x.event = some a → s.Live a ∧ x.waited = some a
  known : ∀ a, x.waited = some a → a < s.heap.length
  cleared : ∀ a, x.waited = some a → x.event = none → ¬ s.Live a
  seen : ∀ a ev, x.event = some a → s.heap[a]? = some ev → p.freeing = false →
    x.activated = true ∨ (t, i) ∈ ev.wq ∧
      (ev.type = .signal → x.data.lastEventAge ≠ 0 → ev.eventAge = x.data.lastEventAge)
  fresh : p.before i = true → x.waited = none

def State.At (s : State) (t i : Nat) (p : Phase) (x : Waiter) : Prop :=
  ∃ w, s.waits[t]? = some w ∧ w.phase = p ∧ w.waiters[i]? = some x

structure Inv (s : State) : Prop where
  ids : (s.idr.map (·.1)).Nodup
  addrs : (s.idr.map (·.2)).Nodup
  inHeap : ∀ a, s.Live a → a < s.heap.length
  holder : ∀ t w, s.waits[t]? = some w → w.phase.holds = true → s.mutex = some t
  waiter : ∀ t i p x, s.At t i p x → WaiterOk s t i p x
  queued : ∀ a ev t i p x, s.heap[a]? = some ev → (t, i) ∈ ev.wq → s.At t i p x → x.waited = some a
  entries : ∀ (a : Nat) (ev : Event) (t i : Nat), s.heap[a]? = some ev → (t, i) ∈ ev.wq →
    t < s.waits.length
  source : ∀ (t : Nat) (w : Wait) (i a : Nat), s.waits[t]? = some w → w.phase = .copy i (some a) →
    s.Live a

theorem inv_init : Inv init where
  ids := nodup_nil
  addrs := nodup_nil
  inHeap := fun a ha => absurd ha not_mem_nil
  holder := fun t w ht => by cases ht
  waiter := fun t i p x ⟨w, ht, _⟩ => by cases ht
  queued := fun a ev t i p x ha => by cases ha
  entries := fun a ev t i ha => by cases ha
  source := fun t w i a ht => by cases ht

/-! ## Lookups after a change -/

section Lookups
variable {s : State} {t i : Nat} {p : Phase} {x : Waiter} {w w' : Wait}

theorem setWait_waits {t' : Nat} (h : (s.setWait t w').waits[t']? = some w) :
    (t' = t ∧ w = w') ∨ (t' ≠ t ∧ s.waits[t']? = some w) := by
  unfold State.setWait at h
  rw [getElem?_set] at h
  split at h
  · next heq =>
    split at h
    · cases h
      exact Or.inl ⟨heq.symm, rfl⟩
    · cases h
  · next hne => exact Or.inr ⟨fun heq => hne heq.symm, h⟩

theorem heap_set {heap : List Event} {a b : Nat} {ev ev' : Event}
    (h : (heap.set a ev')[b]? = some ev) : (b = a ∧ ev = ev') ∨ (b ≠ a ∧ heap[b]? = some ev) := by
  rw [getElem?_set] at h
  split at h
  · next heq =>
    split at h
    · cases h
      exact Or.inl ⟨heq.symm, rfl⟩
    · cases h
  · next hne => exact Or.inr ⟨fun heq => hne heq.symm, h⟩

theorem mapQueued_waits {wq : List Entry} {f : Waiter → Waiter}
    (h : (s.mapQueued wq f).waits[t]? = some w') :
    ∃ w, s.waits[t]? = some w ∧ w'.phase = w.phase ∧ w'.ret = w.ret ∧ w'.result = w.result ∧
      w'.waiters = w.waiters.mapIdx fun i x => if (t, i) ∈ wq then f x else x := by
  simp only [State.mapQueued, getElem?_mapIdx] at h
  obtain ⟨w, hw, rfl⟩ := map_eq_some_iff.mp h
  exact ⟨w, hw, rfl, rfl, rfl, rfl⟩

theorem mapQueued_at {wq : List Entry} {f : Waiter → Waiter} (h : (s.mapQueued wq f).At t i p x) :
    ∃ y, s.At t i p y ∧ x = if (t, i) ∈ wq then f y else y := by
  obtain ⟨w', hw', hp, hx⟩ := h
  obtain ⟨w, hw, hphase, -, -, hwaiters⟩ := mapQueued_waits hw'
  rw [hwaiters, getElem?_mapIdx] at hx
  obtain ⟨y, hy, rfl⟩ := map_eq_some_iff.mp hx
  exact ⟨y, ⟨w, hw, hphase ▸ hp, hy⟩, rfl⟩

theorem lookupEventById_live {id a : Nat} (h : lookupEventById s id = some a) : s.Live a := by
  obtain ⟨e, he, rfl⟩ := map_eq_some_iff.mp h
  exact mem_map.mpr ⟨e, mem_of_find?_eq_some he, rfl⟩

end Lookups

/-! ## Steps of events -/

section Events
variable {s s' : State} {a : Nat} {ev ev' : Event}

theorem WaiterOk.setHeap {t i : Nat} {p : Phase} {x y : Waiter} (h : WaiterOk s t i p y)
    (hidr : s'.idr = s.idr) (hheap : s'.heap = s.heap.set a ev') (hevent : x.event = y.event)
    (hwaited : x.waited = y.waited) (hdata : x.data = y.data)
    (hactive : y.activated = true → x.activated = true)
    (hseen : x.event = some a → p.freeing = false → x.activated = true ∨ (t, i) ∈ ev'.wq ∧
      (ev'.type = .signal → x.data.lastEventAge ≠ 0 → ev'.eventAge = x.data.lastEventAge)) :
    WaiterOk s' t i p x where
  live b hb := by
    rw [State.Live, hidr, hwaited]
    exact h.live b (hevent ▸ hb)
  known b hb := by
    rw [hheap, length_set]
    exact h.known b (hwaited ▸ hb)
  cleared b hb hnone := by
    rw [State.Live, hidr]
    exact h.cleared b (hwaited ▸ hb) (hevent ▸ hnone)
  seen b e hb he hp := by
    rw [hheap] at he
    rcases heap_set he with ⟨rfl, rfl⟩ | ⟨-, he⟩
    · exact hseen hb hp
    · rcases h.seen b e (hevent ▸ hb) he hp with hact | hq
      · exact Or.inl (hactive hact)
      · exact Or.inr (hdata ▸ hq)
  fresh hp := hwaited ▸ h.fresh hp

theorem inv_setEvent (h : Inv s) (hev : s.heap[a]? = some ev) (woken : List Entry) :
    Inv (setEvent s a ev woken) where
  ids := h.ids
  addrs := h.addrs
  inHeap b hb := by
    rw [setEvent, State.mapQueued, length_set]
    exact h.inHeap b hb
  holder t w ht hp := by
    obtain ⟨w', hw', hphase, -⟩ := mapQueued_waits ht
    exact h.holder t w' hw' (hphase ▸ hp)
  waiter t i p x hx := by
    obtain ⟨y, hy, rfl⟩ := mapQueued_at hx
    have hok := h.waiter t i p y hy
    split
    · exact hok.setHeap rfl rfl rfl rfl rfl (fun _ => rfl) fun _ _ => Or.inl rfl
    · next hnot =>
      refine hok.setHeap rfl rfl rfl rfl rfl id fun hb hp => ?_
      rcases hok.seen a ev hb hev hp with hact | ⟨hq, -⟩
      · exact Or.inl hact
      · exact absurd hq hnot
  queued b e t i p x hb hq hx := by
    obtain ⟨y, hy, rfl⟩ := mapQueued_at hx
    have hwaited : y.waited = some b := by
      rcases heap_set hb with ⟨rfl, rfl⟩ | ⟨-, hb⟩
      · exact h.queued b ev t i p y hev (mem_filter.mp hq).1 hy
      · exact h.queued b e t i p y hb hq hy
    split
    · exact hwaited
    · exact hwaited
  entries b e t i hb hq := by
    rw [setEvent, State.mapQueued, length_mapIdx]
    rcases heap_set hb with ⟨rfl, rfl⟩ | ⟨-, hb⟩
    · exact h.entries b ev t i hev (mem_filter.mp hq).1
    · exact h.entries b e t i hb hq
  source t w i b ht hp := by
    obtain ⟨w', hw', hphase, -⟩ := mapQueued_waits ht
    exact h.source t w' i b hw' (hphase ▸ hp)

theorem Inv.setHeap (h : Inv s) (hev : s.heap[a]? = some ev) (htype : ev'.type = ev.type)
    (hage : ev'.eventAge = ev.eventAge) (hwq : ev'.wq ⊆ ev.wq)
    (hkeep : ∀ t i p x, s.At t i p x → p.freeing = false → (t, i) ∈ ev.wq → (t, i) ∈ ev'.wq) :
    Inv { s with heap := s.heap.set a ev' } where
  ids := h.ids
  addrs := h.addrs
  inHeap b hb := by
    rw [length_set]
    exact h.inHeap b hb
  holder := h.holder
  waiter t i p x hx := by
    refine (h.waiter t i p x hx).setHeap rfl rfl rfl rfl rfl id fun hb hp => ?_
    rcases (h.waiter t i p x hx).seen a ev hb hev hp with hact | ⟨hq, hsignal⟩
    · exact Or.inl hact
    · refine Or.inr ⟨hkeep t i p x hx hp hq, ?_⟩
      rw [htype, hage]
      exact hsignal
  queued b e t i p x hb hq hx := by
    rcases heap_set hb with ⟨rfl, rfl⟩ | ⟨-, hb⟩
    · exact h.queued b ev t i p x hev (hwq hq) hx
    · exact h.queued b e t i p x hb hq hx
  entries b e t i hb hq := by
    rcases heap_set hb with ⟨rfl, rfl⟩ | ⟨-, hb⟩
    · exact h.entries b ev t i hev (hwq hq)
    · exact h.entries b e t i hb hq
  source := h.source

def State.OffQueue (s : State) (a : Nat) : Prop :=
  ∃ t : Fin s.waits.length, ∃ i : Fin (s.waits.get t).waiters.length,
    ((s.waits.get t).waiters.get i).event = some a ∧
      ∀ ev ∈ s.heap[a]?, ((t : Nat), (i : Nat)) ∉ ev.wq
  deriving Decidable

theorem State.At.onQueue {t i : Nat} {p : Phase} {x : Waiter} (hx : s.At t i p x)
    (hoff : ¬ s.OffQueue a) (hev : s.heap[a]? = some ev) (ha : x.event = some a) :
    (t, i) ∈ ev.wq := by
  obtain ⟨w, hw, -, hi⟩ := hx
  obtain ⟨ht, rfl⟩ := List.getElem?_eq_some_iff.mp hw
  obtain ⟨hi', rfl⟩ := List.getElem?_eq_some_iff.mp hi
  by_contra hnot
  refine hoff ⟨⟨t, ht⟩, ⟨i, hi'⟩, ha, fun e he => ?_⟩
  cases hev.symm.trans he
  exact hnot

theorem filter_live {id : Nat} (h : Inv s) (ha : lookupEventById s id = some a) (b : Nat) :
    b ∈ (s.idr.filter (·.1 ≠ id)).map (·.2) ↔ s.Live b ∧ b ≠ a := by
  obtain ⟨e, he, rfl⟩ := map_eq_some_iff.mp ha
  have hmem := mem_of_find?_eq_some he
  have hid : e.1 = id := by simpa using find?_some he
  constructor
  · intro hb
    obtain ⟨e', he', rfl⟩ := mem_map.mp hb
    obtain ⟨hin, hne⟩ := mem_filter.mp he'
    refine ⟨mem_map.mpr ⟨e', hin, rfl⟩, fun heq => ?_⟩
    have hsame := inj_on_of_nodup_map h.addrs hin hmem heq
    simp [hsame, hid] at hne
  · rintro ⟨hb, hne⟩
    obtain ⟨e', he', rfl⟩ := mem_map.mp hb
    refine mem_map.mpr ⟨e', mem_filter.mpr ⟨he', ?_⟩, rfl⟩
    have hkey : e'.1 ≠ id := by
      intro hsame
      exact hne (congrArg (·.2) (inj_on_of_nodup_map h.ids he' hmem (hsame.trans hid.symm)))
    simpa using hkey

theorem inv_kfdEventDestroy (h : Inv s) {id : Nat} (woken : List Entry)
    (hoff : s.mutex = none → ∀ a ∈ lookupEventById s id, ¬ s.OffQueue a) :
    Inv (kfdEventDestroy s id woken) := by
  unfold kfdEventDestroy
  split
  · next a hmutex ha =>
    split
    · exact h
    next ev hev =>
    have hqueued : ∀ t i p x, s.At t i p x → (t, i) ∈ ev.wq → x.waited = some a :=
      fun t i p x hx hq => h.queued a ev t i p x hev hq hx
    refine
      { ids := ?_
        addrs := ?_
        inHeap := ?_
        holder := ?_
        waiter := ?_
        queued := ?_
        entries := ?_
        source := ?_ }
    · exact h.ids.sublist (filter_sublist.map _)
    · exact h.addrs.sublist (filter_sublist.map _)
    · intro b hb
      rw [State.mapQueued, length_set]
      exact h.inHeap b ((filter_live h ha b).mp hb).1
    · intro t w ht hp
      obtain ⟨w', hw', hphase, -⟩ := mapQueued_waits ht
      exact h.holder t w' hw' (hphase ▸ hp)
    · intro t i p x hx
      obtain ⟨y, hy, rfl⟩ := mapQueued_at hx
      have hok := h.waiter t i p y hy
      split
      · next hq =>
        refine ⟨fun b hb => (nomatch hb), fun b hb => ?_, fun b hb _ hlive => ?_,
          fun b e hb => (nomatch hb), hok.fresh⟩
        · rw [State.mapQueued, length_set]
          exact hok.known b hb
        · have hsame : some b = some a := hb.symm.trans (hqueued t i p y hy hq)
          exact ((filter_live h ha b).mp hlive).2 (some.inj hsame)
      · next hnot =>
        have hother : ∀ b, y.event = some b → b ≠ a := by
          intro b hb heq
          exact hnot (State.At.onQueue (s := s) hy (hoff hmutex a ha) hev (heq ▸ hb))
        refine ⟨fun b hb => ?_, fun b hb => ?_, fun b hb hnone hlive => ?_,
          fun b e hb he hp => ?_, hok.fresh⟩
        · exact ⟨(filter_live h ha b).mpr ⟨(hok.live b hb).1, hother b hb⟩, (hok.live b hb).2⟩
        · rw [State.mapQueued, length_set]
          exact hok.known b hb
        · exact hok.cleared b hb hnone ((filter_live h ha b).mp hlive).1
        · rcases heap_set he with ⟨heq, -⟩ | ⟨-, he⟩
          · exact absurd heq (hother b hb)
          · exact hok.seen b e hb he hp
    · intro b e t i p x hb hq hx
      obtain ⟨y, hy, rfl⟩ := mapQueued_at hx
      have hwaited : y.waited = some b := by
        rcases heap_set hb with ⟨rfl, rfl⟩ | ⟨-, hb⟩
        · exact hqueued t i p y hy (mem_filter.mp hq).1
        · exact h.queued b e t i p y hb hq hy
      split
      · exact hwaited
      · exact hwaited
    · intro b e t i hb hq
      rw [State.mapQueued, length_mapIdx]
      rcases heap_set hb with ⟨rfl, rfl⟩ | ⟨-, hb⟩
      · exact h.entries b ev t i hev (mem_filter.mp hq).1
      · exact h.entries b e t i hb hq
    · intro t w i b ht hp
      -- a call that copies holds the mutex
      obtain ⟨w', hw', hphase, -⟩ := mapQueued_waits ht
      have hheld := h.holder t w' hw' (by rw [← hphase, hp]; rfl)
      cases hmutex.symm.trans hheld
  · exact h

theorem inv_eventCreate (h : Inv s) (id : Nat) (type : Events.EventType) (autoReset signaled : Bool)
    (eventAge : UInt64) : Inv (eventCreate s id type autoReset signaled eventAge) := by
  unfold eventCreate
  split
  · next hfree =>
    have hnew : ∀ b, b < s.heap.length → ∀ e,
        (s.heap ++ [Event.mk type autoReset signaled eventAge []])[b]? = some e →
        s.heap[b]? = some e := by
      intro b hb e he
      rwa [getElem?_append_left hb] at he
    have hempty : ∀ (b : Nat) (e : Event) (t i : Nat),
        (s.heap ++ [Event.mk type autoReset signaled eventAge []])[b]? = some e →
        (t, i) ∈ e.wq → s.heap[b]? = some e := by
      intro b e t i he hq
      rcases lt_or_ge b s.heap.length with hlt | hge
      · exact hnew b hlt e he
      · rw [getElem?_append_right hge] at he
        rw [mem_singleton.mp (mem_of_getElem? he)] at hq
        cases hq
    refine
      { ids := ?_
        addrs := ?_
        inHeap := ?_
        holder := h.holder
        waiter := ?_
        queued := fun b e t i p x hb hq hx => h.queued b e t i p x (hempty b e t i hb hq) hq hx
        entries := fun b e t i hb hq => h.entries b e t i (hempty b e t i hb hq) hq
        source := fun t w i b ht hp => mem_cons_of_mem _ (h.source t w i b ht hp) }
    · refine nodup_cons.mpr ⟨fun hin => ?_, h.ids⟩
      obtain ⟨e, he, heq⟩ := mem_map.mp hin
      have hnone := find?_eq_none.mp (map_eq_none_iff.mp hfree) e he
      exact hnone (decide_eq_true heq)
    · exact nodup_cons.mpr ⟨fun hin => lt_irrefl _ (h.inHeap _ hin), h.addrs⟩
    · intro b hb
      rw [length_append]
      rcases mem_cons.mp hb with rfl | hb
      · exact Nat.lt_succ_self _
      · exact Nat.lt_succ_of_lt (h.inHeap b hb)
    · intro t i p x hx
      have hok := h.waiter t i p x hx
      refine ⟨fun b hb => ?_, fun b hb => ?_, fun b hb hnone hlive => ?_,
        fun b e hb he hp => ?_, hok.fresh⟩
      · exact ⟨mem_cons_of_mem _ (hok.live b hb).1, (hok.live b hb).2⟩
      · rw [length_append]
        exact Nat.lt_succ_of_lt (hok.known b hb)
      · rcases mem_cons.mp hlive with rfl | hlive
        · exact lt_irrefl _ (hok.known _ hb)
        · exact hok.cleared b hb hnone hlive
      · exact hok.seen b e hb (hnew b (h.inHeap b (hok.live b hb).1) e he) hp
  · exact h

end Events

/-! ## Steps of calls -/

section Calls
variable {s : State} {t i : Nat} {w w' : Wait} {m : Option Nat}

/-- What a call goes on to, with its waiters as they are or freed. -/
structure Wait.Moves (s : State) (t : Nat) (w : Wait) (m : Option Nat) (w' : Wait) : Prop where
  waiters : ∀ (i : Nat) (x : Waiter), w'.waiters[i]? = some x → w.waiters[i]? = some x
  holds : w'.phase.holds = true → m = some t
  others : m = s.mutex ∨ s.mutex = none ∨ s.mutex = some t
  freeing : w'.phase.freeing = false → w.phase.freeing = false
  before : ∀ i, w'.phase.before i = true → w.phase.before i = true
  source : ∀ i a, w'.phase = .copy i (some a) → s.Live a

variable {x : Waiter}

theorem setWait_at (ht : s.waits[t]? = some w)
    (hwaiters : ∀ (i : Nat) (x : Waiter), w'.waiters[i]? = some x → w.waiters[i]? = some x)
    {t' i : Nat} {p : Phase} (hx : ({ s with mutex := m }.setWait t w').At t' i p x) :
    ∃ p', s.At t' i p' x ∧ ((t' = t ∧ p = w'.phase ∧ p' = w.phase) ∨ p = p') := by
  obtain ⟨u, hu, rfl, hi⟩ := hx
  rcases setWait_waits hu with ⟨rfl, rfl⟩ | ⟨-, hu⟩
  · exact ⟨w.phase, ⟨w, ht, rfl, hwaiters i x hi⟩, Or.inl ⟨rfl, rfl, rfl⟩⟩
  · exact ⟨u.phase, ⟨u, hu, rfl, hi⟩, Or.inr rfl⟩

theorem Inv.setWait (h : Inv s) (ht : s.waits[t]? = some w) (hw : w.Moves s t m w') :
    Inv ({ s with mutex := m }.setWait t w') where
  ids := h.ids
  addrs := h.addrs
  inHeap := h.inHeap
  holder t' u hu hp := by
    rcases setWait_waits hu with ⟨rfl, rfl⟩ | ⟨hne, hu⟩
    · exact hw.holds hp
    · have hheld := h.holder t' u hu hp
      rcases hw.others with hm | hm | hm
      · exact hm.trans hheld
      · cases hm.symm.trans hheld
      · exact absurd (some.inj (hheld.symm.trans hm)) hne
  waiter t' i p x hx := by
    obtain ⟨p', hx', hp⟩ := setWait_at ht hw.waiters hx
    have hok := h.waiter t' i p' x hx'
    rcases hp with ⟨-, rfl, rfl⟩ | rfl
    · exact ⟨hok.live, hok.known, hok.cleared, fun a ev ha hev hp => hok.seen a ev ha hev
        (hw.freeing hp), fun hp => hok.fresh (hw.before i hp)⟩
    · exact ⟨hok.live, hok.known, hok.cleared, hok.seen, hok.fresh⟩
  queued a ev t' i p x ha hq hx := by
    obtain ⟨p', hx', -⟩ := setWait_at ht hw.waiters hx
    exact h.queued a ev t' i p' x ha hq hx'
  entries a ev t' i ha hq := by
    show t' < (s.waits.set t w').length
    rw [length_set]
    exact h.entries a ev t' i ha hq
  source t' u i a hu hp := by
    rcases setWait_waits hu with ⟨rfl, rfl⟩ | ⟨-, hu⟩
    · exact hw.source i a hp
    · exact h.source t' u i a hu hp

theorem Inv.moves (h : Inv s) (ht : s.waits[t]? = some w) (hwaiters : w'.waiters = w.waiters)
    (hholds : w'.phase.holds = true → w.phase.holds = true)
    (hfreeing : w'.phase.freeing = false → w.phase.freeing = false)
    (hbefore : ∀ i, w'.phase.before i = false)
    (hsource : ∀ i a, w'.phase = .copy i (some a) → s.Live a) : w.Moves s t s.mutex w' where
  waiters := fun _ _ hi => hwaiters ▸ hi
  holds := fun hp => h.holder t w ht (hholds hp)
  others := Or.inl rfl
  freeing := hfreeing
  before := fun i hi => by rw [hbefore i] at hi; cases hi
  source := hsource

theorem afterScan_moves (h : Inv s) (ht : s.waits[t]? = some w) {first : Bool} {count : Nat}
    {seen : Bool} (hp : w.phase = .scan first i count seen) (r : WaitResult) (expired : Bool) :
    ∃ m w', w.Moves s t m w' ∧
      afterScan s t w first r expired = { s with mutex := m }.setWait t w' := by
  have hfree : w.phase.freeing = false := by rw [hp]; rfl
  have hmove : ∀ w', w.Moves s t s.mutex w' →
      ∃ m w'', w.Moves s t m w'' ∧ s.setWait t w' = { s with mutex := m }.setWait t w'' :=
    fun w' hw' => ⟨s.mutex, w', hw', rfl⟩
  unfold afterScan
  split
  · exact hmove _ (h.moves ht rfl (fun _ => by rw [hp]; rfl) (fun _ => hfree) (fun _ => rfl) nofun)
  · exact hmove _ (h.moves ht rfl (fun _ => by rw [hp]; rfl) (fun _ => hfree) (fun _ => rfl) nofun)
  · refine ⟨none, _, ?_, rfl⟩
    exact
      { waiters := fun _ _ hi => hi
        holds := nofun
        others := Or.inr (Or.inr (h.holder t w ht (by rw [hp]; rfl)))
        freeing := fun _ => hfree
        before := nofun
        source := nofun }
  · refine hmove _ (h.moves ht rfl ?_ (fun _ => hfree) ?_ ?_)
    · simp only
      split <;> nofun
    · intro i
      simp only
      split <;> rfl
    · intro i a
      simp only
      split <;> nofun
  · exact hmove _ (h.moves ht rfl nofun (fun _ => hfree) (fun _ => rfl) nofun)

inductive CallStep (s : State) (t : Nat) (w : Wait) (woken : List Entry) : State → Prop
  | stay (hp : ∀ i, w.phase ≠ .free i) : CallStep s t w woken s
  | move {m : Option Nat} {w' : Wait} (hw : w.Moves s t m w')
      (hp : ∀ i, w.phase = .free i → w.waiters[i]? = none) :
      CallStep s t w woken ({ s with mutex := m }.setWait t w')
  | setUp {i : Nat} {x : Waiter} {s' : State} (hp : w.phase = .init i)
      (hx : w.waiters[i]? = some x) (hs' : initEventWaiter s t i w x = .ok s') :
      CallStep s t w woken s'
  | free {i : Nat} {x : Waiter} (hp : w.phase = .free i) (hx : w.waiters[i]? = some x) :
      CallStep s t w woken (freeWaiter s t i w x woken)

theorem callStep_scan (h : Inv s) (ht : s.waits[t]? = some w) {first : Bool} {count : Nat}
    {seen : Bool} (hp : w.phase = .scan first i count seen) (c : Choice) :
    CallStep s t w c.woken (callStep s t w c) := by
  unfold callStep
  rw [hp]
  dsimp only
  have hno : ∀ i, w.phase = .free i → w.waiters[i]? = none := by rw [hp]; nofun
  have hend : ∀ r expired, CallStep s t w c.woken (afterScan s t w first r expired) := by
    intro r expired
    obtain ⟨m, w', hw', heq⟩ := afterScan_moves h ht hp r expired
    rw [heq]
    exact .move hw' hno
  have hnext : ∀ j n b,
      CallStep s t w c.woken (s.setWait t { w with phase := .scan first j n b }) :=
    fun j n b => .move (h.moves ht rfl (fun hholds => by rw [hp]; exact hholds)
      (fun _ => by rw [hp]; rfl) (fun _ => rfl) nofun) hno
  split
  · exact hend _ _
  · split
    · split
      · exact hend _ _
      · exact hnext _ _ _
    · split
      · exact hnext _ _ _
      · split
        · exact hend _ _
        · exact hnext _ _ _

theorem callStep_copy (h : Inv s) (ht : s.waits[t]? = some w) {src : Option Nat}
    (hp : w.phase = .copy i src) (c : Choice) :
    CallStep s t w c.woken (callStep s t w c) := by
  unfold callStep
  rw [hp]
  dsimp only
  have hno : ∀ i, w.phase ≠ .free i := by rw [hp]; nofun
  have hfree : w.phase.freeing = false := by rw [hp]; rfl
  have hholds : w.phase.holds = true := by rw [hp]; rfl
  have hsrc : ∀ b, src = some b → s.Live b := fun b hb => h.source t w i b ht (hb ▸ hp)
  have hleave : ∀ e, CallStep s t w c.woken (s.setWait t { w with ret := e, phase := .free 0 }) :=
    fun _ => .move (h.moves ht rfl (fun _ => hholds) nofun (fun _ => rfl) nofun)
      fun i hi => absurd hi (hno i)
  have hnext : ∀ src', (∀ b, src' = some b → s.Live b) →
      CallStep s t w c.woken (s.setWait t { w with phase := .copy (i + 1) src' }) :=
    fun src' hlive => .move (h.moves ht rfl (fun _ => hholds) (fun _ => hfree) (fun _ => rfl)
      fun _ b hb => hlive b (Phase.copy.inj hb).2) fun i hi => absurd hi (hno i)
  split
  · exact hleave _
  next x hx =>
  split
  · exact hleave _
  next a ha =>
  have hlive : s.Live a := ((h.waiter t i _ x ⟨w, ht, hp, hx⟩).live a ha).1
  split
  · exact .stay hno
  next ev _ =>
  split
  · exact hnext _ hsrc
  · split
    · exact hleave _
    · refine hnext _ fun b hb => ?_
      unfold copySource at hb
      repeat' split at hb
      · exact some.inj hb ▸ hlive
      · exact some.inj hb ▸ hlive
      · exact some.inj hb ▸ hlive
      · exact hsrc b hb
      · exact hsrc b hb

theorem callStep_cases (h : Inv s) (ht : s.waits[t]? = some w) (c : Choice) :
    CallStep s t w c.woken (callStep s t w c) := by
  cases hp : w.phase with
  | scan first i count seen => exact callStep_scan h ht hp c
  | copy i src => exact callStep_copy h ht hp c
  | lock =>
    unfold callStep
    rw [hp]
    dsimp only
    have hno : ∀ i, w.phase ≠ .free i := by rw [hp]; nofun
    split
    · next hmutex =>
      refine .move ?_ fun i hi => absurd hi (hno i)
      exact
        { waiters := fun _ _ hi => hi
          holds := fun _ => rfl
          others := Or.inr (Or.inl hmutex)
          freeing := fun _ => by rw [hp]; rfl
          before := fun i _ => by rw [hp]; rfl
          source := nofun }
    · exact .stay hno
  | init i =>
    unfold callStep
    rw [hp]
    dsimp only
    have hno : ∀ i, w.phase = .free i → w.waiters[i]? = none := by rw [hp]; nofun
    have hfree : w.phase.freeing = false := by rw [hp]; rfl
    have hholds : w.phase.holds = true := by rw [hp]; rfl
    split
    · exact .move (h.moves ht rfl (fun _ => hholds) (fun _ => hfree) (fun _ => rfl) nofun) hno
    · next x hx =>
      split
      · exact .move (h.moves ht rfl (fun _ => hholds) nofun (fun _ => rfl) nofun) hno
      · split
        · exact .move (h.moves ht rfl (fun _ => hholds) nofun (fun _ => rfl) nofun) hno
        · next s' hs' => exact .setUp hp hx hs'
  | loop =>
    unfold callStep
    rw [hp]
    dsimp only
    have hno : ∀ i, w.phase = .free i → w.waiters[i]? = none := by rw [hp]; nofun
    have hfree : w.phase.freeing = false := by rw [hp]; rfl
    split
    · exact .move (h.moves ht rfl nofun (fun _ => hfree) (fun _ => rfl) nofun) hno
    · exact .move (h.moves ht rfl nofun (fun _ => hfree) (fun _ => rfl) nofun) hno
    · exact .move (h.moves ht rfl nofun (fun _ => hfree) (fun _ => rfl) nofun) hno
  | relock =>
    unfold callStep
    rw [hp]
    dsimp only
    have hno : ∀ i, w.phase ≠ .free i := by rw [hp]; nofun
    split
    · next hmutex =>
      refine .move ?_ fun i hi => absurd hi (hno i)
      refine
        { waiters := fun _ _ hi => hi
          holds := fun _ => rfl
          others := Or.inr (Or.inl hmutex)
          freeing := fun _ => by rw [hp]; rfl
          before := ?_
          source := ?_ }
      · intro i
        simp only
        split
        · nofun
        · nofun
      · intro i a
        simp only
        split
        · nofun
        · nofun
    · exact .stay hno
  | free i =>
    unfold callStep
    rw [hp]
    dsimp only
    have hheld : s.mutex = some t := h.holder t w ht (by rw [hp]; rfl)
    split
    · next hend =>
      refine .move ?_ fun j hj => ?_
      · exact
          { waiters := fun _ _ hi => (nomatch hi)
            holds := nofun
            others := Or.inr (Or.inr hheld)
            freeing := nofun
            before := nofun
            source := nofun }
      · cases hp.symm.trans hj
        exact hend
    · next x hx => exact .free hp hx
  | done =>
    unfold callStep
    rw [hp]
    exact .stay (by rw [hp]; nofun)

theorem initialized_at {heap : List Event} (ht : s.waits[t]? = some w) (hp : w.phase = .init i)
    {t' j : Nat} {p : Phase} {y : Waiter} (hy : (State.setWait { s with heap := heap } t
      { w with waiters := w.waiters.set i x, phase := .init (i + 1) }).At t' j p y) :
    (t' = t ∧ j = i ∧ p = .init (i + 1) ∧ y = x) ∨
    ((t', j) ≠ (t, i) ∧ ∃ p', s.At t' j p' y ∧ (p.before j = true → p'.before j = true) ∧
      (p.freeing = false → p'.freeing = false)) := by
  obtain ⟨u, hu, rfl, hj⟩ := hy
  rcases setWait_waits hu with ⟨rfl, rfl⟩ | ⟨hne, hu⟩
  · simp only at hj
    rw [getElem?_set] at hj
    split at hj
    · next heq =>
      split at hj
      · cases hj
        exact Or.inl ⟨rfl, heq.symm, rfl, rfl⟩
      · cases hj
    · next hne =>
      refine Or.inr ⟨fun heq => hne (congrArg Prod.snd heq).symm, w.phase, ⟨w, ht, rfl, hj⟩, ?_, ?_⟩
      · rw [hp]
        intro hle
        exact decide_eq_true (Nat.le_of_succ_le (of_decide_eq_true hle))
      · rw [hp]
        exact fun _ => rfl
  · exact Or.inr ⟨fun heq => hne (congrArg Prod.fst heq), u.phase, ⟨u, hu, rfl, hj⟩, id, id⟩

theorem Waiter.initialized_seen (x : Waiter) (a : Nat) (ev : Event)
    (h : (x.initialized a ev).activated = false) :
    ev.type = .signal → x.data.lastEventAge ≠ 0 → ev.eventAge = x.data.lastEventAge := by
  intro htype hlast
  by_contra hne
  simp [Waiter.initialized, htype, hlast, hne] at h

theorem initEventWaiter_ok {s' : State} (h : initEventWaiter s t i w x = .ok s') :
    ∃ a ev, lookupEventById s x.data.eventId = some a ∧ s.heap[a]? = some ev ∧
      s' = State.setWait
        { s with
          heap := s.heap.set a
            { ev with
              signaled := ev.signaled && !ev.autoReset
              wq := if (x.initialized a ev).activated then ev.wq else (t, i) :: ev.wq } }
        t { w with waiters := w.waiters.set i (x.initialized a ev), phase := .init (i + 1) } := by
  unfold initEventWaiter at h
  split at h
  · cases h
  · next a ha =>
    split at h
    · cases h
    · next ev hev => exact ⟨a, ev, ha, hev, (Except.ok.inj h).symm⟩

theorem inv_initEventWaiter (h : Inv s) (ht : s.waits[t]? = some w) (hp : w.phase = .init i)
    (hx : w.waiters[i]? = some x) {s' : State} (hs' : initEventWaiter s t i w x = .ok s') :
    Inv s' := by
  obtain ⟨a, ev, ha, hev, rfl⟩ := initEventWaiter_ok hs'
  have hfresh : x.waited = none := (h.waiter t i _ x ⟨w, ht, hp, hx⟩).fresh (by simp [Phase.before])
  have hnot : ∀ (b : Nat) (e : Event), s.heap[b]? = some e → (t, i) ∉ e.wq := by
    intro b e hb hq
    cases hfresh.symm.trans (h.queued b e t i _ x hb hq ⟨w, ht, hp, hx⟩)
  have hlive : s.Live a := lookupEventById_live ha
  -- the queue of the event, with or without the new entry
  have hwq : ∀ e : Entry, e ∈ (if (x.initialized a ev).activated then ev.wq else (t, i) :: ev.wq) →
      e = (t, i) ∨ e ∈ ev.wq := by
    intro e he
    split at he
    · exact Or.inr he
    · exact mem_cons.mp he
  have hkeep : ∀ e ∈ ev.wq,
      e ∈ (if (x.initialized a ev).activated then ev.wq else (t, i) :: ev.wq) := by
    intro e he
    split
    · exact he
    · exact mem_cons_of_mem _ he
  refine
    { ids := h.ids
      addrs := h.addrs
      inHeap := ?_
      holder := ?_
      waiter := ?_
      queued := ?_
      entries := ?_
      source := ?_ }
  · intro b hb
    show b < (s.heap.set a _).length
    rw [length_set]
    exact h.inHeap b hb
  · intro t' u hu hholds
    rcases setWait_waits hu with ⟨rfl, rfl⟩ | ⟨-, hu⟩
    · exact h.holder t' w ht (by rw [hp]; rfl)
    · exact h.holder t' u hu hholds
  · intro t' j p y hy
    rcases initialized_at ht hp hy with ⟨rfl, rfl, rfl, rfl⟩ | ⟨hne, p', hy', hbefore, hfreeing⟩
    · refine ⟨fun b hb => ?_, fun b hb => ?_, fun b _ hnone => (nomatch hnone),
        fun b e hb he _ => ?_, fun hlt => ?_⟩
      · cases hb
        exact ⟨hlive, rfl⟩
      · cases hb
        show a < (s.heap.set a _).length
        rw [length_set]
        exact h.inHeap a hlive
      · cases hb
        rcases heap_set he with ⟨-, rfl⟩ | ⟨hne, -⟩
        · cases hact : (x.initialized a ev).activated with
          | true => exact Or.inl rfl
          | false =>
            refine Or.inr ⟨?_, x.initialized_seen a ev hact⟩
            simp
        · exact absurd rfl hne
      · exact absurd (of_decide_eq_true hlt) (Nat.not_succ_le_self _)
    · have hok := h.waiter t' j p' y hy'
      refine ⟨hok.live, fun b hb => ?_, hok.cleared, fun b e hb he hp => ?_,
        fun hb => hok.fresh (hbefore hb)⟩
      · show b < (s.heap.set a _).length
        rw [length_set]
        exact hok.known b hb
      · rcases heap_set he with ⟨rfl, rfl⟩ | ⟨-, he⟩
        · rcases hok.seen b ev hb hev (hfreeing hp) with hact | ⟨hq, hage⟩
          · exact Or.inl hact
          · exact Or.inr ⟨hkeep _ hq, hage⟩
        · exact hok.seen b e hb he (hfreeing hp)
  · intro b e t' j p y hb hq hy
    rcases initialized_at ht hp hy with ⟨rfl, rfl, rfl, rfl⟩ | ⟨hne, p', hy', -⟩
    · rcases heap_set hb with ⟨rfl, -⟩ | ⟨-, hb⟩
      · rfl
      · exact absurd hq (hnot b e hb)
    · rcases heap_set hb with ⟨rfl, rfl⟩ | ⟨-, hb⟩
      · rcases hwq _ hq with heq | hq
        · exact absurd heq hne
        · exact h.queued b ev t' j p' y hev hq hy'
      · exact h.queued b e t' j p' y hb hq hy'
  · intro b e t' j hb hq
    show t' < (s.waits.set t _).length
    rw [length_set]
    rcases heap_set hb with ⟨rfl, rfl⟩ | ⟨-, hb⟩
    · rcases hwq _ hq with heq | hq
      · cases heq
        exact (List.getElem?_eq_some_iff.mp ht).1
      · exact h.entries b ev t' j hev hq
    · exact h.entries b e t' j hb hq
  · intro t' u k b hu hcopy
    rcases setWait_waits hu with ⟨rfl, rfl⟩ | ⟨-, hu⟩
    · cases hcopy
    · exact h.source t' u k b hu hcopy

theorem inv_freeWaiter (h : Inv s) (ht : s.waits[t]? = some w) (hp : w.phase = .free i)
    (x : Waiter) (woken : List Entry) : Inv (freeWaiter s t i w x woken) := by
  have hnext : ∀ s1 : State, Inv s1 → s1.waits = s.waits →
      Inv (s1.setWait t { w with phase := .free (i + 1) }) := by
    intro s1 h1 hwaits
    have ht1 : s1.waits[t]? = some w := hwaits ▸ ht
    exact h1.setWait ht1 (h1.moves ht1 rfl (fun _ => by rw [hp]; rfl) nofun (fun _ => rfl) nofun)
  unfold freeWaiter
  simp only
  split
  · exact hnext s h rfl
  next a _ =>
  split
  · exact hnext s h rfl
  next ev hev =>
  have hremoved :
      Inv { s with heap := s.heap.set a { ev with wq := ev.wq.filter (· ≠ (t, i)) } } := by
    refine h.setHeap hev rfl rfl (fun _ he => (mem_filter.mp he).1)
      fun t' j p y hy hfree hq => ?_
    refine mem_filter.mpr ⟨hq, ?_⟩
    have hne : (t', j) ≠ (t, i) := by
      intro heq
      obtain ⟨u, hu, rfl, -⟩ := hy
      cases heq
      cases ht.symm.trans hu
      rw [hp] at hfree
      cases hfree
    exact decide_eq_true hne
  have hset := hnext _ hremoved rfl
  split
  · refine inv_setEvent hset ?_ woken
    exact getElem?_set_self (List.getElem?_eq_some_iff.mp hev).1
  · exact hset

theorem inv_callStep (h : Inv s) (ht : s.waits[t]? = some w) (c : Choice) :
    Inv (callStep s t w c) := by
  have hcase := callStep_cases h ht c
  generalize callStep s t w c = s' at hcase
  cases hcase with
  | stay => exact h
  | move hw => exact h.setWait ht hw
  | setUp hp hx hs' => exact inv_initEventWaiter h ht hp hx hs'
  | free hp hx => exact inv_freeWaiter h ht hp _ _

end Calls

/-! ## Every step -/

/-- The age before `event_age` wraps around. -/
def lastAge : UInt64 := 0xffffffffffffffff

/-- The condition of a step: an event is destroyed while its waiters are all on its queue, and
the age of an event that is set does not wrap around. -/
def Op.Ok (s : State) : Op → Prop
  | .destroy id _ => s.mutex = none → ∀ a ∈ lookupEventById s id, ¬ s.OffQueue a
  | op => ∀ a ∈ setsEvent s op, ∀ ev ∈ s.heap[a]?, ev.eventAge ≠ lastAge

instance Op.Ok.decidable (s : State) (op : Op) : Decidable (op.Ok s) := by
  cases op <;> unfold Op.Ok <;> infer_instance

theorem inv_start {s : State} (h : Inv s) (all : Bool) (data : List EventData) :
    Inv { s with waits := s.waits ++ [newWait all data] } := by
  have hnew : ∀ (t : Nat) (w : Wait), (s.waits ++ [newWait all data])[t]? = some w →
      s.waits[t]? = some w ∨ (t = s.waits.length ∧ w = newWait all data) := by
    intro t w ht
    rcases lt_or_ge t s.waits.length with hlt | hge
    · rw [getElem?_append_left hlt] at ht
      exact Or.inl ht
    · rw [getElem?_append_right hge, getElem?_singleton] at ht
      split at ht
      · cases ht
        exact Or.inr ⟨by omega, rfl⟩
      · cases ht
  have hzero : ∀ (i : Nat) (x : Waiter), (newWait all data).waiters[i]? = some x →
      x.event = none ∧ x.waited = none := by
    intro i x hx
    obtain ⟨d, -, rfl⟩ := map_eq_some_iff.mp ((getElem?_map ..).symm.trans hx)
    exact ⟨rfl, rfl⟩
  refine
    { ids := h.ids
      addrs := h.addrs
      inHeap := h.inHeap
      holder := ?_
      waiter := ?_
      queued := ?_
      entries := ?_
      source := ?_ }
  · intro t w ht hp
    rcases hnew t w ht with ht | ⟨-, rfl⟩
    · exact h.holder t w ht hp
    · cases hp
  · rintro t i p x ⟨w, ht, hp, hx⟩
    rcases hnew t w ht with ht | ⟨-, rfl⟩
    · have hok := h.waiter t i p x ⟨w, ht, hp, hx⟩
      exact ⟨hok.live, hok.known, hok.cleared, hok.seen, hok.fresh⟩
    · obtain ⟨hevent, hwaited⟩ := hzero i x hx
      refine ⟨fun a ha => ?_, fun a ha => ?_, fun a ha => ?_, fun a ev ha => ?_, fun _ => hwaited⟩
      · cases hevent.symm.trans ha
      · cases hwaited.symm.trans ha
      · cases hwaited.symm.trans ha
      · cases hevent.symm.trans ha
  · rintro a ev t i p x ha hq ⟨w, ht, hp, hx⟩
    rcases hnew t w ht with ht | ⟨rfl, -⟩
    · exact h.queued a ev t i p x ha hq ⟨w, ht, hp, hx⟩
    · exact absurd (h.entries a ev _ i ha hq) (lt_irrefl _)
  · intro a ev t i ha hq
    rw [length_append]
    exact Nat.lt_succ_of_lt (h.entries a ev t i ha hq)
  · intro t w i a ht hp
    rcases hnew t w ht with ht | ⟨-, rfl⟩
    · exact h.source t w i a ht hp
    · cases hp

theorem inv_step (s : State) (op : Op) (h : Inv s) (hok : op.Ok s) : Inv (step s op) := by
  cases op with
  | create id type autoReset signaled eventAge =>
    exact inv_eventCreate h id type autoReset signaled eventAge
  | set a woken =>
    simp only [step]
    split
    · exact h
    · next ev hev => exact inv_setEvent h hev woken
  | reset a =>
    simp only [step]
    split
    · exact h
    · next ev hev =>
      exact h.setHeap hev rfl rfl (Subset.refl _) fun _ _ _ _ _ _ hq => hq
  | destroy id woken => exact inv_kfdEventDestroy h woken hok
  | start all data => exact inv_start h all data
  | call t c =>
    simp only [step]
    split
    · exact h
    · next w ht => exact inv_callStep h ht c

theorem Inv.accesses_live {s : State} (h : Inv s) (t : Nat) : ∀ a ∈ accesses s t, s.Live a := by
  intro a ha
  unfold accesses at ha
  split at ha
  · cases ha
  next w ht =>
  split at ha
  · next i hp =>
    obtain ⟨x, -, hlookup⟩ := bind_eq_some_iff.mp (mem_toList.mp ha)
    exact lookupEventById_live hlookup
  · next i src hp =>
    split at ha
    · cases ha
    next x hx =>
    split at ha
    · rcases mem_append.mp ha with ha | ha
      · exact ((h.waiter t i _ x ⟨w, ht, hp, hx⟩).live a (mem_toList.mp ha)).1
      · exact h.source t w i a ht (mem_toList.mp ha ▸ hp)
    · cases ha
  · next i hp =>
    obtain ⟨x, hx, hevent⟩ := bind_eq_some_iff.mp (mem_toList.mp ha)
    exact ((h.waiter t i _ x ⟨w, ht, hp, hx⟩).live a hevent).1
  · cases ha

end Amdkfd.EventWait
