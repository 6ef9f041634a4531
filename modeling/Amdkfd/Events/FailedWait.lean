import Amdkfd.Events.WaitSafe

/-!
# What a failed wait has consumed

A call takes the signal of an auto-reset event when it sets up the waiter for it, or when the event
is set while the waiter is queued. A call that does not report `COMPLETE` should give it back:
`free_waiters` sets the event again, which leaves it signaled or activates the waiters that are
queued then. Which calls have a signal to give back is followed beside the state.
-/

namespace Amdkfd.EventWait

open Lib List Option Bool
open Events (EventType)

/-! ## Signals that are taken -/

abbrev Taken := Nat → Nat → Bool

/-- `set_event` reaches the calls that have a waiter on the queue. -/
def Taken.deliver (k : Taken) (a : Nat) (wq : List Entry) : Taken := fun t b =>
  k t b || decide (b = a) && wq.any (·.1 = t)

def Taken.set (k : Taken) (t a : Nat) (v : Bool) : Taken := fun t' b =>
  if t' = t ∧ b = a then v else k t' b

def moveSignals (s : State) (k : Taken) : Op → Taken
  | .set a _ =>
    match s.heap[a]? with
    | none => k
    | some ev => if ev.autoReset then k.deliver a ev.wq else k
  | .call t c =>
    match s.waits[t]? with
    | none => k
    | some w =>
      match w.phase with
      | .init i =>
        match w.waiters[i]? with
        | none => k
        | some x =>
          if c.fault then k
          else
            match lookupEventById s x.data.eventId with
            | none => k
            | some a =>
              match s.heap[a]? with
              | none => k
              | some ev => if ev.signaled && ev.autoReset then k.set t a true else k
      | .free i =>
        match w.waiters[i]? with
        | none => k
        | some x =>
          match undoneBy s w x with
          | none => k
          | some a =>
            match s.heap[a]? with
            | none => k
            -- free_waiters has taken its own waiter off the queue
            | some ev => (k.set t a false).deliver a (ev.wq.filter (· ≠ (t, i)))
      | _ => k
  | _ => k

def stepTaken (s : State × Taken) (op : Op) : State × Taken :=
  (step s.1 op, moveSignals s.1 s.2 op)

def initTaken : State × Taken := (init, fun _ _ => false)

/-- A call that has returned without `COMPLETE` has no signal of an auto-reset event. -/
def GivesBack (s : State × Taken) : Prop :=
  ∀ t w, s.1.waits[t]? = some w → w.phase = .done → w.result ≠ .complete →
    ∀ a, s.1.Live a → s.2 t a = false

/-- A signal that a call gives back leaves its event signaled, or has activated a waiter of another
call on the queue of the event. -/
def StepGives (s : State × Taken) (op : Op) : Prop :=
  ∀ t a ev, s.1.Live a → s.1.heap[a]? = some ev → s.2 t a = true → (stepTaken s op).2 t a = false →
    (∃ ev', (step s.1 op).heap[a]? = some ev' ∧ ev'.signaled = true) ∨
      ∃ e ∈ ev.wq, e.1 ≠ t ∧ ∃ v y, (step s.1 op).waits[e.1]? = some v ∧
        v.waiters[e.2]? = some y ∧ y.activated = true

def freed (s : State) (t : Nat) : Option (Wait × Waiter × Nat) :=
  match s.waits[t]? with
  | none => none
  | some w =>
    match w.phase with
    | .free i => (w.waiters[i]?).bind fun x => x.event.map fun a => (w, x, a)
    | _ => none

/-- A waiter that has taken a signal is freed only by a call that reports `COMPLETE`, or was
interrupted and will be restarted. -/
def StepKeeps (s : State × Taken) : Op → Prop
  | .call t _ => ∀ f ∈ freed s.1 t, f.2.1.activated = true → s.2 t f.2.2 = true →
      f.1.ret = some .erestartsys ∨ (f.1.ret = none ∧ f.1.result = .complete)
  | _ => True

instance (s : State × Taken) : ∀ op, Decidable (StepKeeps s op)
  | .call t _ => inferInstanceAs (Decidable (∀ f ∈ freed s.1 t, _ → _))
  | .create _ _ _ _ _ => isTrue trivial
  | .set _ _ => isTrue trivial
  | .reset _ => isTrue trivial
  | .destroy _ _ => isTrue trivial
  | .start _ _ => isTrue trivial

/-! ## The invariant -/

/-- The waiter at `i` is set up, and not freed. -/
def Phase.pending (i : Nat) : Phase → Bool
  | .lock => false
  | .init k => i < k
  | .free k => k ≤ i
  | .done => false
  | _ => true

/-- The call reports `COMPLETE`, and only frees its waiters. -/
def Wait.Completes (w : Wait) : Prop :=
  w.phase.freeing = true ∧ w.ret = none ∧ w.result = .complete

def Wait.Waits (w : Wait) (i a : Nat) (x : Waiter) : Prop :=
  w.waiters[i]? = some x ∧ x.event = some a ∧ w.phase.pending i = true

structure Kept (s : State) (k : Taken) : Prop where
  addrs : (s.idr.map (·.2)).Nodup
  inHeap : ∀ a, s.Live a → a < s.heap.length
  known : ∀ t a, k t a = true → a < s.heap.length
  autoReset : ∀ t a ev, k t a = true → s.heap[a]? = some ev → ev.autoReset = true
  entry : ∀ a ev t i, s.Live a → s.heap[a]? = some ev → (t, i) ∈ ev.wq →
    ∃ w x, s.waits[t]? = some w ∧ w.Waits i a x
  taken : ∀ t a, k t a = true → s.Live a → ∃ w, s.waits[t]? = some w ∧
    (w.Completes ∨ ∃ i x, w.Waits i a x ∧ x.activated = true)

theorem Kept.init : Kept EventWait.init fun _ _ => false where
  addrs := nodup_nil
  inHeap a ha := absurd ha not_mem_nil
  known t a h := by cases h
  autoReset t a ev h := by cases h
  entry a ev t i ha := absurd ha not_mem_nil
  taken t a h := by cases h

section Steps
variable {s : State} {k : Taken}

variable {t : Nat} {a : Nat} {ev : Event} {w : Wait} {x : Waiter}

theorem Kept.setWait (h : Kept s k) {w w' : Wait} {mutex : Option Nat} (hw : s.waits[t]? = some w)
    (hwaits : ∀ i a x, w.Waits i a x → w'.Waits i a x) (hcompletes : w.Completes → w'.Completes) :
    Kept ({ s with mutex := mutex }.setWait t w') k where
  addrs := h.addrs
  inHeap := h.inHeap
  known := h.known
  autoReset := h.autoReset
  entry a ev t' i ha hev hq := by
    obtain ⟨v, x, hv, hx⟩ := h.entry a ev t' i ha hev hq
    by_cases heq : t' = t
    · subst heq
      obtain rfl := some.inj (hv.symm.trans hw)
      exact ⟨w', x, getElem?_set_self (List.getElem?_eq_some_iff.mp hw).1, hwaits i a x hx⟩
    · exact ⟨v, x, (getElem?_set_ne fun hne => heq hne.symm).trans hv, hx⟩
  taken t' a hk ha := by
    obtain ⟨v, hv, hcase⟩ := h.taken t' a hk ha
    by_cases heq : t' = t
    · subst heq
      obtain rfl := some.inj (hv.symm.trans hw)
      refine ⟨w', getElem?_set_self (List.getElem?_eq_some_iff.mp hw).1, ?_⟩
      refine hcase.imp hcompletes ?_
      rintro ⟨i, x, hx, hact⟩
      exact ⟨i, x, hwaits i a x hx, hact⟩
    · exact ⟨v, (getElem?_set_ne fun hne => heq hne.symm).trans hv, hcase⟩

theorem Kept.setPhase (h : Kept s k) {w w' : Wait} {mutex : Option Nat}
    (hw : s.waits[t]? = some w) (hwaiters : w'.waiters = w.waiters)
    (hpending : ∀ i, w.phase.pending i = true → w'.phase.pending i = true)
    (hfreeing : w.phase.freeing = false) : Kept ({ s with mutex := mutex }.setWait t w') k :=
  h.setWait hw (fun i _ _ hx => ⟨hwaiters ▸ hx.1, hx.2.1, hpending i hx.2.2⟩)
    fun hc => absurd (hfreeing.symm.trans hc.1) false_ne_true

theorem Kept.setHeap (h : Kept s k) (ev' : Event) (hev : s.heap[a]? = some ev)
    (hreset : ev'.autoReset = ev.autoReset)
    (hwq : ∀ e ∈ ev'.wq, e ∈ ev.wq ∨ ∃ w x, s.waits[e.1]? = some w ∧ w.Waits e.2 a x) :
    Kept { s with heap := s.heap.set a ev' } k where
  addrs := h.addrs
  inHeap b hb := by
    rw [length_set]
    exact h.inHeap b hb
  known t b hk := by
    rw [length_set]
    exact h.known t b hk
  autoReset t b e hk he := by
    rcases heap_set he with ⟨rfl, rfl⟩ | ⟨-, he⟩
    · exact hreset.trans (h.autoReset t b ev hk hev)
    · exact h.autoReset t b e hk he
  entry b e t i hb he hq := by
    rcases heap_set he with ⟨rfl, rfl⟩ | ⟨-, he⟩
    · rcases hwq (t, i) hq with hold | hnew
      · exact h.entry b ev t i hb hev hold
      · exact hnew
    · exact h.entry b e t i hb he hq
  taken := h.taken

theorem deliver_eq_true {t a b : Nat} {wq : List Entry} :
    k.deliver a wq t b = true ↔ k t b = true ∨ b = a ∧ ∃ i, (t, i) ∈ wq := by
  simp only [Taken.deliver, or_eq_true, and_eq_true, decide_eq_true_eq, List.any_eq_true]
  refine or_congr Iff.rfl (and_congr Iff.rfl ⟨?_, ?_⟩)
  · rintro ⟨⟨t', i⟩, hmem, rfl⟩
    exact ⟨i, hmem⟩
  · rintro ⟨i, hmem⟩
    exact ⟨(t, i), hmem, rfl⟩

theorem set_eq_true {t t' a b : Nat} {v : Bool} (h : k.set t a v t' b = true) :
    (t' = t ∧ b = a ∧ v = true) ∨ (¬ (t' = t ∧ b = a) ∧ k t' b = true) := by
  unfold Taken.set at h
  split at h
  · next heq => exact .inl ⟨heq.1, heq.2, h⟩
  · next hne => exact .inr ⟨hne, h⟩

def Wait.mapQueued (w : Wait) (t : Nat) (wq : List Entry) (f : Waiter → Waiter) : Wait :=
  { w with waiters := w.waiters.mapIdx fun i x => if (t, i) ∈ wq then f x else x }

theorem mapQueued_waits_eq (hw : s.waits[t]? = some w) (wq : List Entry) (f : Waiter → Waiter) :
    (s.mapQueued wq f).waits[t]? = some (w.mapQueued t wq f) := by
  simp only [State.mapQueued, getElem?_mapIdx, hw]
  rfl

theorem Wait.Waits.mapQueued {i a t : Nat} (h : w.Waits i a x) {wq : List Entry}
    {f : Waiter → Waiter} (hf : (t, i) ∈ wq → (f x).event = x.event) :
    (w.mapQueued t wq f).Waits i a (if (t, i) ∈ wq then f x else x) := by
  obtain ⟨hx, hxa, hp⟩ := h
  refine ⟨?_, ?_, hp⟩
  · rw [Wait.mapQueued, getElem?_mapIdx, hx]
    rfl
  · split
    · next hmem => exact (hf hmem).trans hxa
    · exact hxa

section
variable (h : Kept s k)
include h

theorem Kept.activate (wq : List Entry) :
    Kept (s.mapQueued wq ({ · with activated := true })) k where
  addrs := h.addrs
  inHeap := h.inHeap
  known := h.known
  autoReset := h.autoReset
  entry b e t i hb he hq := by
    obtain ⟨w, x, hw, hx⟩ := h.entry b e t i hb he hq
    exact ⟨_, _, mapQueued_waits_eq hw wq _, hx.mapQueued fun _ => rfl⟩
  taken t b hk hb := by
    obtain ⟨w, hw, hcase⟩ := h.taken t b hk hb
    refine ⟨_, mapQueued_waits_eq hw wq _, hcase.imp id ?_⟩
    rintro ⟨i, x, hx, hact⟩
    refine ⟨i, _, hx.mapQueued fun _ => rfl, ?_⟩
    split
    · rfl
    · exact hact

theorem Kept.setEvent (hev : s.heap[a]? = some ev) (woken : List Entry) :
    Kept (setEvent s a ev woken) k :=
  Kept.activate (h.setHeap { ev with
    signaled := !ev.autoReset || ev.wq.isEmpty
    eventAge := nextAge ev.eventAge
    wq := ev.wq.filter (· ∉ woken) } hev rfl fun _ he => .inl (mem_filter.mp he).1) ev.wq

theorem Kept.deliver (hev : s.heap[a]? = some ev) (hreset : ev.autoReset = true)
    (woken : List Entry) : Kept (EventWait.setEvent s a ev woken) (k.deliver a ev.wq) := by
  have hset := h.setEvent hev woken
  have hlt : a < (EventWait.setEvent s a ev woken).heap.length := by
    rw [EventWait.setEvent, State.mapQueued, length_set]
    exact (List.getElem?_eq_some_iff.mp hev).1
  refine { hset with known := ?_, autoReset := ?_, taken := ?_ }
  · intro t b hk
    rcases deliver_eq_true.mp hk with hk | ⟨rfl, -⟩
    · exact hset.known t b hk
    · exact hlt
  · intro t b e hk he
    rcases deliver_eq_true.mp hk with hk | ⟨rfl, -⟩
    · exact hset.autoReset t b e hk he
    · rcases heap_set he with ⟨-, rfl⟩ | ⟨hne, -⟩
      · exact hreset
      · exact absurd rfl hne
  · intro t b hk hb
    rcases deliver_eq_true.mp hk with hk | ⟨rfl, i, hi⟩
    · exact hset.taken t b hk hb
    · obtain ⟨w, x, hw, hx⟩ := h.entry b ev t i hb hev hi
      refine ⟨_, mapQueued_waits_eq (s := { s with heap := _ }) hw ev.wq _,
        .inr ⟨i, _, hx.mapQueued fun _ => rfl, ?_⟩⟩
      rw [if_pos hi]

theorem Kept.eventCreate (id : Nat) (type : EventType) (autoReset signaled : Bool)
    (eventAge : UInt64) : Kept (eventCreate s id type autoReset signaled eventAge) k := by
  unfold EventWait.eventCreate
  split
  · have hold : ∀ a ev, a ≠ s.heap.length →
        (s.heap ++ [{ type, autoReset, signaled, eventAge, wq := [] }])[a]? = some ev →
        s.heap[a]? = some ev := by
      intro a ev hne hev
      rcases Nat.lt_or_gt_of_ne hne with hlt | hgt
      · rwa [getElem?_append_left hlt] at hev
      · rw [getElem?_eq_none (by simp; omega)] at hev
        cases hev
    have hlive : ∀ a, a ∈ (s.heap.length :: s.idr.map (·.2)) → a ≠ s.heap.length → s.Live a :=
      fun a ha hne => (mem_cons.mp ha).resolve_left hne
    exact {
      addrs := by
        refine nodup_cons.mpr ⟨fun hmem => ?_, h.addrs⟩
        exact absurd (h.inHeap _ hmem) (lt_irrefl _)
      inHeap := by
        intro a ha
        rw [length_append]
        rcases mem_cons.mp ha with rfl | ha
        · exact Nat.lt_succ_self _
        · exact Nat.lt_add_right _ (h.inHeap a ha)
      known := by
        intro t a hk
        rw [length_append]
        exact Nat.lt_add_right _ (h.known t a hk)
      autoReset := by
        intro t a ev hk hev
        exact h.autoReset t a ev hk (hold a ev (ne_of_lt (h.known t a hk)) hev)
      entry := by
        intro a ev t i ha hev hq
        by_cases hne : a = s.heap.length
        · subst hne
          rw [getElem?_concat_length] at hev
          obtain rfl := some.inj hev
          cases hq
        · exact h.entry a ev t i (hlive a ha hne) (hold a ev hne hev) hq
      taken := by
        intro t a hk ha
        exact h.taken t a hk (hlive a ha (ne_of_lt (h.known t a hk))) }
  · exact h

theorem Kept.start (all : Bool) (data : List EventData) :
    Kept { s with waits := s.waits ++ [newWait all data] } k where
  addrs := h.addrs
  inHeap := h.inHeap
  known := h.known
  autoReset := h.autoReset
  entry a ev t i ha hev hq := by
    obtain ⟨w, x, hw, hx⟩ := h.entry a ev t i ha hev hq
    have hlt := (List.getElem?_eq_some_iff.mp hw).1
    exact ⟨w, x, (getElem?_append_left hlt).trans hw, hx⟩
  taken t a hk ha := by
    obtain ⟨w, hw, hcase⟩ := h.taken t a hk ha
    have hlt := (List.getElem?_eq_some_iff.mp hw).1
    exact ⟨w, (getElem?_append_left hlt).trans hw, hcase⟩

theorem Kept.kfdEventDestroy (id : Nat) (woken : List Entry) :
    Kept (kfdEventDestroy s id woken) k := by
  unfold EventWait.kfdEventDestroy
  split
  · next a _ ha =>
    split
    · exact h
    next ev hev =>
    obtain ⟨e, he, rfl⟩ := map_eq_some_iff.mp ha
    have hin := mem_of_find?_eq_some he
    have hid : e.1 = id := by simpa using find?_some he
    have hlive : ∀ b, b ∈ (s.idr.filter (·.1 ≠ id)).map (·.2) → s.Live b ∧ b ≠ e.2 := by
      intro b hb
      obtain ⟨e', he', rfl⟩ := mem_map.mp hb
      obtain ⟨hin', hne⟩ := mem_filter.mp he'
      refine ⟨mem_map.mpr ⟨e', hin', rfl⟩, fun heq => ?_⟩
      have hsame := inj_on_of_nodup_map h.addrs hin' hin heq
      simp [hsame, hid] at hne
    -- a waiter for another event is not on the queue
    have hkeep : ∀ t i b (w : Wait) x, s.waits[t]? = some w → w.Waits i b x → b ≠ e.2 → s.Live e.2 →
        (t, i) ∉ ev.wq := by
      intro t i b w x hw hx hne hlive' hq
      obtain ⟨w', x', hw', hx'⟩ := h.entry e.2 ev t i hlive' hev hq
      obtain rfl := some.inj (hw.symm.trans hw')
      obtain rfl := some.inj (hx.1.symm.trans hx'.1)
      exact hne (some.inj (hx.2.1.symm.trans hx'.2.1))
    have hsame : ∀ t i b (w : Wait) x, s.waits[t]? = some w → w.Waits i b x → b ≠ e.2 →
        (w.mapQueued t ev.wq ({ · with event := none })).Waits i b x := by
      intro t i b w x hw hx hne
      have hq := hkeep t i b w x hw hx hne (mem_map.mpr ⟨e, hin, rfl⟩)
      have hx' := hx.mapQueued (t := t) (f := ({ · with event := none }))
        fun hmem : (t, i) ∈ ev.wq => absurd hmem hq
      rwa [if_neg hq] at hx'
    exact {
      addrs := h.addrs.sublist (filter_sublist.map _)
      inHeap := by
        intro b hb
        rw [State.mapQueued, length_set]
        exact h.inHeap b (hlive b hb).1
      known := by
        intro t b hk
        rw [State.mapQueued, length_set]
        exact h.known t b hk
      autoReset := by
        intro t b e' hk he'
        rcases heap_set he' with ⟨rfl, rfl⟩ | ⟨-, he'⟩
        · exact h.autoReset t e.2 ev hk hev
        · exact h.autoReset t b e' hk he'
      entry := by
        intro b e' t i hb he' hq
        obtain ⟨hb, hne⟩ := hlive b hb
        rcases heap_set he' with ⟨heq, -⟩ | ⟨-, he'⟩
        · exact absurd heq hne
        · obtain ⟨w, x, hw, hx⟩ := h.entry b e' t i hb he' hq
          exact ⟨_, x, mapQueued_waits_eq (s := { s with heap := _, idr := _ }) hw ev.wq _,
            hsame t i b w x hw hx hne⟩
      taken := by
        intro t b hk hb
        obtain ⟨hb, hne⟩ := hlive b hb
        obtain ⟨w, hw, hcase⟩ := h.taken t b hk hb
        refine ⟨_, mapQueued_waits_eq (s := { s with heap := _, idr := _ }) hw ev.wq _,
          hcase.imp (fun hc => hc) ?_⟩
        rintro ⟨i, x, hx, hact⟩
        exact ⟨i, x, hsame t i b w x hw hx hne, hact⟩ }
  · exact h

theorem Kept.take {t i a : Nat} (hw : s.waits[t]? = some w) (hx : w.Waits i a x)
    (hact : x.activated = true) (hev : s.heap[a]? = some ev) (hreset : ev.autoReset = true) :
    Kept s (k.set t a true) where
  addrs := h.addrs
  inHeap := h.inHeap
  known t' b hk := by
    rcases set_eq_true hk with ⟨-, rfl, -⟩ | ⟨-, hk⟩
    · exact (List.getElem?_eq_some_iff.mp hev).1
    · exact h.known t' b hk
  autoReset t' b e hk he := by
    rcases set_eq_true hk with ⟨-, rfl, -⟩ | ⟨-, hk⟩
    · obtain rfl := some.inj (he.symm.trans hev)
      exact hreset
    · exact h.autoReset t' b e hk he
  entry := h.entry
  taken t' b hk hb := by
    rcases set_eq_true hk with ⟨rfl, rfl, -⟩ | ⟨-, hk⟩
    · exact ⟨w, hw, .inr ⟨i, x, hx, hact⟩⟩
    · exact h.taken t' b hk hb

theorem Kept.setUp {t i : Nat} (hw : s.waits[t]? = some w) (hphase : w.phase = .init i)
    (hx : w.waiters[i]? = some x) (hev : s.heap[a]? = some ev) :
    Kept ({ s with heap := s.heap.set a { ev with
        signaled := ev.signaled && !ev.autoReset
        wq := if (x.initialized a ev).activated then ev.wq else (t, i) :: ev.wq } }.setWait t
          { w with waiters := w.waiters.set i (x.initialized a ev), phase := .init (i + 1) })
      (if ev.signaled && ev.autoReset then k.set t a true else k) := by
  have hi : i < w.waiters.length := (List.getElem?_eq_some_iff.mp hx).1
  obtain ⟨w', hw'⟩ : ∃ w' : Wait, w' =
    { w with waiters := w.waiters.set i (x.initialized a ev), phase := .init (i + 1) } := ⟨_, rfl⟩
  rw [← hw']
  have hnew : w'.Waits i a (x.initialized a ev) := by
    rw [hw']
    exact ⟨getElem?_set_self hi, rfl, decide_eq_true (Nat.lt_succ_self i)⟩
  have hself : (s.setWait t w').waits[t]? = some w' :=
    getElem?_set_self (List.getElem?_eq_some_iff.mp hw).1
  have hset : Kept (s.setWait t w') k := by
    refine h.setWait hw (fun j b y hy => ?_) fun hc => ?_
    · obtain ⟨hy, hyb, hp⟩ := hy
      rw [hphase] at hp
      have hji : j < i := of_decide_eq_true hp
      rw [hw']
      exact ⟨(getElem?_set_ne (by omega)).trans hy, hyb, decide_eq_true (by omega)⟩
    · rw [Wait.Completes, hphase] at hc
      exact absurd hc.1 false_ne_true
  have hheap := hset.setHeap { ev with
    signaled := ev.signaled && !ev.autoReset
    wq := if (x.initialized a ev).activated then ev.wq else (t, i) :: ev.wq } hev rfl
    fun e he => by
      simp only at he
      split at he
      · exact .inl he
      · rcases mem_cons.mp he with rfl | he
        · exact .inr ⟨w', _, hself, hnew⟩
        · exact .inl he
  by_cases hc : (ev.signaled && ev.autoReset) = true
  · rw [if_pos hc]
    rw [and_eq_true] at hc
    refine hheap.take hself hnew ?_
      (getElem?_set_self (List.getElem?_eq_some_iff.mp hev).1) hc.2
    simp only [Waiter.initialized, hc.1, Bool.true_or]
  · rw [if_neg hc]
    exact hheap

theorem Kept.freed {t i : Nat} (hw : s.waits[t]? = some w) (hphase : w.phase = .free i)
    (hx : w.waiters[i]? = some x)
    (hentry : ∀ a ev, x.event = some a → s.Live a → s.heap[a]? = some ev → (t, i) ∉ ev.wq)
    (htaken : ∀ a, x.event = some a → s.Live a → k t a = true → x.activated = true → w.ret = none ∧ w.result = .complete) :
    Kept (s.setWait t { w with phase := .free (i + 1) }) k := by
  have hself : (s.setWait t { w with phase := .free (i + 1) }).waits[t]? =
      some { w with phase := .free (i + 1) } :=
    getElem?_set_self (List.getElem?_eq_some_iff.mp hw).1
  have hlater : ∀ j b y, w.Waits j b y → j ≠ i →
      ({ w with phase := .free (i + 1) } : Wait).Waits j b y := by
    rintro j b y ⟨hy, hyb, hp⟩ hne
    rw [hphase] at hp
    have hij : i ≤ j := of_decide_eq_true hp
    exact ⟨hy, hyb, decide_eq_true (by omega)⟩
  refine { addrs := h.addrs, inHeap := h.inHeap, known := h.known, autoReset := h.autoReset
           entry := fun b ev t' j hb hev hq => ?_, taken := fun t' b hk hb => ?_ }
  · obtain ⟨v, y, hv, hy⟩ := h.entry b ev t' j hb hev hq
    by_cases heq : t' = t
    · subst heq
      obtain rfl := some.inj (hv.symm.trans hw)
      refine ⟨_, y, hself, hlater j b y hy fun hji => ?_⟩
      subst hji
      obtain rfl := some.inj (hy.1.symm.trans hx)
      exact hentry b ev hy.2.1 hb hev hq
    · exact ⟨v, y, (getElem?_set_ne fun hne => heq hne.symm).trans hv, hy⟩
  · obtain ⟨v, hv, hcase⟩ := h.taken t' b hk hb
    by_cases heq : t' = t
    · subst heq
      obtain rfl := some.inj (hv.symm.trans hw)
      refine ⟨_, hself, ?_⟩
      rcases hcase with ⟨-, hret, hresult⟩ | ⟨j, y, hy, hact⟩
      · exact .inl ⟨rfl, hret, hresult⟩
      · by_cases hji : j = i
        · subst hji
          obtain rfl := some.inj (hy.1.symm.trans hx)
          obtain ⟨hret, hresult⟩ := htaken b hy.2.1 hb hk hact
          exact .inl ⟨rfl, hret, hresult⟩
        · exact .inr ⟨j, y, hlater j b y hy hji, hact⟩
    · exact ⟨v, (getElem?_set_ne fun hne => heq hne.symm).trans hv, hcase⟩

theorem Kept.mono {k' : Taken} (hk : ∀ t a, k' t a = true → k t a = true) : Kept s k' :=
  { h with
    known := fun t a ht => h.known t a (hk t a ht)
    autoReset := fun t a ev ht => h.autoReset t a ev (hk t a ht)
    taken := fun t a ht => h.taken t a (hk t a ht) }

theorem Kept.freeWaiter {t i : Nat} (woken : List Entry) (hw : s.waits[t]? = some w)
    (hphase : w.phase = .free i) (hx : w.waiters[i]? = some x)
    (hok : ∀ a, x.event = some a → x.activated = true → k t a = true → w.ret = some .erestartsys ∨ (w.ret = none ∧ w.result = .complete)) :
    Kept (freeWaiter s t i w x woken)
      (match undoneBy s w x with
      | none => k
      | some a =>
        match s.heap[a]? with
        | none => k
        | some ev => (k.set t a false).deliver a (ev.wq.filter (· ≠ (t, i)))) := by
  unfold EventWait.freeWaiter
  cases hxa : x.event with
  | none =>
    have hundo : undoneBy s w x = none := by
      rw [undoneBy, hxa]
      rfl
    rw [hundo]
    exact h.freed hw hphase hx (fun a ev ha => by rw [hxa] at ha; cases ha)
      fun a ha => by rw [hxa] at ha; cases ha
  | some a =>
    cases hev : s.heap[a]? with
    | none =>
      have hundo : undoneBy s w x = none := by
        rw [undoneBy, hxa, filter_some, hev]
        simp
      rw [hundo]
      have hdead : ∀ b, x.event = some b → ¬ s.Live b := by
        intro b hb hlive
        obtain rfl := some.inj (hxa.symm.trans hb)
        rw [getElem?_eq_getElem (h.inHeap a hlive)] at hev
        cases hev
      simp only [hev]
      exact h.freed hw hphase hx (fun b ev hb hlive => absurd hlive (hdead b hb))
        fun b hb hlive => absurd hlive (hdead b hb)
    | some ev =>
      obtain ⟨ev', hev'⟩ : ∃ ev' : Event, ev' = { ev with wq := ev.wq.filter (· ≠ (t, i)) } :=
        ⟨_, rfl⟩
      have hself : (s.heap.set a ev')[a]? = some ev' :=
        getElem?_set_self (List.getElem?_eq_some_iff.mp hev).1
      have hremoved : Kept { s with heap := s.heap.set a ev' } k := by
        refine h.setHeap ev' hev (by rw [hev']) fun e he => .inl ?_
        rw [hev'] at he
        exact (mem_filter.mp he).1
      have hentry : ∀ b e, x.event = some b → s.Live b → (s.heap.set a ev')[b]? = some e →
          (t, i) ∉ e.wq := by
        intro b e hb _ he hmem
        obtain rfl := some.inj (hxa.symm.trans hb)
        obtain rfl := some.inj (he.symm.trans hself)
        rw [hev'] at hmem
        exact absurd rfl (of_decide_eq_true (mem_filter.mp hmem).2)
      simp only [hev]
      cases hundo : undoneBy s w x with
      | none =>
        simp only [isSome_none, false_eq_true, if_false]
        subst hev'
        refine hremoved.freed hw hphase hx hentry fun b hb hlive hk hact => ?_
        obtain rfl := some.inj (hxa.symm.trans hb)
        refine (hok a hxa hact hk).resolve_left fun hret => ?_
        rw [undoneBy, hxa, filter_some, hev, hret, hact] at hundo
        simp [h.autoReset t a ev hk hev] at hundo
      | some a' =>
        obtain ⟨ha', hundone⟩ := filter_eq_some_iff.mp hundo
        obtain rfl := some.inj (hxa.symm.trans ha')
        have hreset : ev'.autoReset = true := by
          rw [hev, and_eq_true] at hundone
          rw [hev']
          exact hundone.2
        simp only [isSome_some, if_true, hev]
        have hfreed : Kept ({ s with heap := s.heap.set a ev' }.setWait t
            { w with phase := .free (i + 1) }) (k.set t a false) := by
          refine Kept.freed (hremoved.mono fun t' b hk => ?_) hw hphase hx hentry
            fun b hb hlive hk hact => ?_
          · rcases set_eq_true hk with ⟨-, -, hfalse⟩ | ⟨-, hk⟩
            · cases hfalse
            · exact hk
          · obtain rfl := some.inj (hxa.symm.trans hb)
            rcases set_eq_true hk with ⟨-, -, hfalse⟩ | ⟨hne, -⟩
            · cases hfalse
            · exact absurd ⟨rfl, rfl⟩ hne
        subst hev'
        exact hfreed.deliver hself hreset woken

theorem Kept.finish {t i : Nat} (hw : s.waits[t]? = some w) (hphase : w.phase = .free i)
    (hx : w.waiters[i]? = none) : Kept ({ s with mutex := none }.setWait t w.finish) k := by
  refine h.setWait hw (fun j a x hy => ?_) fun hc => ?_
  · obtain ⟨hy, -, hp⟩ := hy
    rw [hphase] at hp
    have hij : i ≤ j := of_decide_eq_true hp
    rw [getElem?_eq_none ((getElem?_eq_none_iff.mp hx).trans hij)] at hy
    cases hy
  · obtain ⟨-, hret, hresult⟩ := hc
    refine ⟨rfl, ?_, ?_⟩
    · rw [Wait.finish, hret, hresult]
      rfl
    · rw [Wait.finish, hret]
      exact hresult

theorem Kept.afterScan {t i count : Nat} {first seen : Bool} (hw : s.waits[t]? = some w)
    (hphase : w.phase = .scan first i count seen) (r : WaitResult) (expired : Bool) :
    Kept (afterScan s t w first r expired) k := by
  have hfreeing : w.phase.freeing = false := by rw [hphase]; rfl
  have hnew : ∀ p : Phase, (∀ j, p.pending j = true) →
      ∀ j, w.phase.pending j = true → p.pending j = true := fun p hp j _ => hp j
  unfold EventWait.afterScan
  cases first with
  | true =>
    cases r with
    | complete => exact h.setPhase hw rfl (hnew _ fun _ => rfl) hfreeing
    | fail => exact h.setPhase hw rfl (hnew _ fun j => decide_eq_true (Nat.zero_le j)) hfreeing
    | timeout => exact h.setPhase hw rfl (hnew _ fun _ => rfl) hfreeing
  | false =>
    cases r with
    | complete => exact h.setPhase hw rfl (hnew _ fun _ => rfl) hfreeing
    | fail => exact h.setPhase hw rfl (hnew _ fun _ => rfl) hfreeing
    | timeout => exact h.setPhase hw rfl (hnew _ fun _ => by cases expired <;> rfl) hfreeing

theorem Kept.callStep (hw : s.waits[t]? = some w) (c : Choice) (hok : StepKeeps (s, k) (.call t c)) :
    Kept (callStep s t w c) (moveSignals s k (.call t c)) := by
  unfold EventWait.callStep moveSignals
  simp only [hw]
  cases hphase : w.phase with
  | lock =>
    simp only
    split
    · exact h.setPhase hw rfl (fun i hi => by rw [hphase] at hi; cases hi) (by rw [hphase]; rfl)
    · exact h
  | init i =>
    have hfreeing : w.phase.freeing = false := by rw [hphase]; rfl
    have hfail : ∀ j, w.phase.pending j = true → (Phase.free 0).pending j = true :=
      fun j _ => decide_eq_true (Nat.zero_le j)
    simp only
    cases hx : w.waiters[i]? with
    | none => exact h.setPhase hw rfl (fun _ _ => rfl) hfreeing
    | some x =>
      simp only
      split
      · exact h.setPhase hw rfl hfail hfreeing
      · unfold initEventWaiter
        cases lookupEventById s x.data.eventId with
        | none => exact h.setPhase hw rfl hfail hfreeing
        | some a =>
          simp only
          cases hev : s.heap[a]? with
          | none => exact h.setPhase hw rfl hfail hfreeing
          | some ev => exact h.setUp hw hphase hx hev
  | scan first i count seen =>
    have hfreeing : w.phase.freeing = false := by rw [hphase]; rfl
    simp only
    split
    · exact h.afterScan hw hphase _ _
    · split
      · split
        · exact h.afterScan hw hphase _ _
        · exact h.setPhase hw rfl (fun _ _ => rfl) hfreeing
      · split
        · exact h.setPhase hw rfl (fun _ _ => rfl) hfreeing
        · split
          · exact h.afterScan hw hphase _ _
          · exact h.setPhase hw rfl (fun _ _ => rfl) hfreeing
  | loop =>
    have hfreeing : w.phase.freeing = false := by rw [hphase]; rfl
    simp only
    split <;> exact h.setPhase hw rfl (fun _ _ => rfl) hfreeing
  | relock =>
    have hfreeing : w.phase.freeing = false := by rw [hphase]; rfl
    simp only
    split
    · refine h.setPhase hw rfl (fun j _ => ?_) hfreeing
      simp only
      split
      · rfl
      · exact decide_eq_true (Nat.zero_le j)
    · exact h
  | copy i src =>
    have hfreeing : w.phase.freeing = false := by rw [hphase]; rfl
    have hfail : ∀ j, w.phase.pending j = true → (Phase.free 0).pending j = true :=
      fun j _ => decide_eq_true (Nat.zero_le j)
    simp only
    split
    · exact h.setPhase hw rfl hfail hfreeing
    · split
      · exact h.setPhase hw rfl hfail hfreeing
      · split
        · exact h
        · split
          · exact h.setPhase hw rfl (fun _ _ => rfl) hfreeing
          · split
            · exact h.setPhase hw rfl hfail hfreeing
            · exact h.setPhase hw rfl (fun _ _ => rfl) hfreeing
  | free i =>
    simp only
    cases hx : w.waiters[i]? with
    | none => exact h.finish hw hphase hx
    | some x =>
      refine h.freeWaiter c.woken hw hphase hx fun a ha hact hk => hok (w, x, a) ?_ hact hk
      simp only [EventWait.freed, hw, hphase, hx, ha, bind_some, map_some]
      exact rfl
  | done => exact h

theorem Kept.step (op : Op) (hok : StepKeeps (s, k) op) :
    Kept (step s op) (moveSignals s k op) := by
  cases op with
  | create id type autoReset signaled eventAge =>
    exact h.eventCreate id type autoReset signaled eventAge
  | set a woken =>
    simp only [EventWait.step, moveSignals]
    cases hev : s.heap[a]? with
    | none => exact h
    | some ev =>
      simp only
      split
      · next hreset => exact h.deliver hev hreset woken
      · exact h.setEvent hev woken
  | reset a =>
    simp only [EventWait.step, moveSignals]
    split
    · exact h
    · next ev hev => exact h.setHeap _ hev rfl fun _ he => .inl he
  | destroy id woken => exact h.kfdEventDestroy id woken
  | start all data => exact h.start all data
  | call t c =>
    simp only [EventWait.step]
    cases hw : s.waits[t]? with
    | none =>
      simp only [moveSignals, hw]
      exact h
    | some w => exact h.callStep hw c hok

theorem Kept.givesBack : GivesBack (s, k) := by
  intro t w hw hphase hresult a ha
  by_contra hk
  obtain ⟨v, hv, hcase⟩ := h.taken t a (by simpa using hk) ha
  obtain rfl := some.inj (hv.symm.trans hw)
  rcases hcase with ⟨-, -, hcomplete⟩ | ⟨i, x, ⟨-, -, hp⟩, -⟩
  · exact hresult hcomplete
  · rw [hphase] at hp
    cases hp

end

/-- Only `free_waiters` gives a signal back. -/
theorem moveSignals_clears {op : Op} (hev : s.heap[a]? = some ev) (hk : k t a = true)
    (hk' : moveSignals s k op t a = false) :
    ∃ c w i x, op = .call t c ∧ s.waits[t]? = some w ∧ w.phase = .free i ∧
      w.waiters[i]? = some x ∧ undoneBy s w x = some a ∧
        ∀ e ∈ ev.wq.filter (· ≠ (t, i)), e.1 ≠ t := by
  cases op with
  | call t' c =>
    simp only [moveSignals] at hk'
    cases hw : s.waits[t']? with
    | none => simp [hw, hk] at hk'
    | some w =>
      simp only [hw] at hk'
      cases hphase : w.phase with
      | init i =>
        cases hx : w.waiters[i]? with
        | none => simp [hphase, hx, hk] at hk'
        | some x =>
          cases hid : lookupEventById s x.data.eventId with
          | none => simp [hphase, hx, hid, hk] at hk'
          | some b =>
            cases hb : s.heap[b]? with
            | none => simp [hphase, hx, hid, hb, hk] at hk'
            | some e =>
              by_cases hf : c.fault = true <;> by_cases ht : (e.signaled && e.autoReset) = true <;>
                simp [hphase, hx, hid, hb, hf, ht, hk, Taken.set] at hk'
      | free i =>
        simp only [hphase] at hk'
        cases hx : w.waiters[i]? with
        | none => simp [hx, hk] at hk'
        | some x =>
          simp only [hx] at hk'
          cases hundo : undoneBy s w x with
          | none => simp [hundo, hk] at hk'
          | some b =>
            simp only [hundo] at hk'
            cases hev' : s.heap[b]? with
            | none => simp [hev', hk] at hk'
            | some ev' =>
              simp only [hev'] at hk'
              obtain ⟨hclear, hdeliver⟩ :=
                not_or.mp fun h => absurd (hk'.symm.trans (deliver_eq_true.mpr h)) nofun
              have hsame : t = t' ∧ a = b := by
                by_contra hne
                rw [Taken.set, if_neg hne] at hclear
                exact hclear hk
              obtain ⟨rfl, rfl⟩ := hsame
              obtain rfl := some.inj (hev.symm.trans hev')
              exact ⟨c, w, i, x, rfl, hw, hphase, hx, hundo, fun e he het =>
                hdeliver ⟨rfl, e.2, het ▸ he⟩⟩
      | _ => simp [hphase, hk] at hk'
  | set b woken =>
    simp only [moveSignals] at hk'
    cases hb : s.heap[b]? with
    | none => simp [hb, hk] at hk'
    | some e =>
      by_cases hreset : e.autoReset = true <;> simp [hb, hreset, hk, Taken.deliver] at hk'
  | _ => exact absurd (hk'.symm.trans hk) nofun

theorem Kept.gives (h : Kept s k) (op : Op) : StepGives (s, k) op := by
  intro t a ev hlive hev hk hk'
  obtain ⟨c, w, i, x, rfl, hw, hphase, hx, hundo, hother⟩ := moveSignals_clears hev hk hk'
  have hxa : x.event = some a := (filter_eq_some_iff.mp hundo).1
  have hlt := (List.getElem?_eq_some_iff.mp hev).1
  simp only [EventWait.step, hw, EventWait.callStep, hphase, hx, EventWait.freeWaiter, hxa, hev,
    hundo, isSome_some, if_true]
  cases hwq : ev.wq.filter (· ≠ (t, i)) with
  | nil =>
    refine .inl ⟨_, getElem?_set_self (by rw [State.setWait, length_set]; exact hlt), ?_⟩
    simp
  | cons e rest =>
    have he : e ∈ ev.wq.filter (· ≠ (t, i)) := hwq ▸ mem_cons_self
    have hne := hother e he
    obtain ⟨v, y, hv, hy, -⟩ := h.entry a ev e.1 e.2 hlive hev (mem_filter.mp he).1
    refine .inr ⟨e, (mem_filter.mp he).1, hne, ?_⟩
    have hv' : ({ s with heap := s.heap.set a { ev with wq := e :: rest } }.setWait t
        { w with phase := .free (i + 1) }).waits[e.1]? = some v :=
      (getElem?_set_ne fun h => hne h.symm).trans hv
    refine ⟨_, { y with activated := true }, mapQueued_waits_eq hv' (e :: rest) _, ?_, rfl⟩
    rw [Wait.mapQueued, getElem?_mapIdx, hy, map_some, if_pos mem_cons_self]

end Steps

/-! ## Runs -/

/-- In a run in which every call that frees a waiter with a signal reports `COMPLETE` or was
interrupted with `-ERESTARTSYS`, no call that has failed keeps a signal, and those that it has given
back are seen again or have activated other waiters. -/
theorem failedWait_givesBack {ops : List Op} (hok : StepsOk stepTaken StepKeeps initTaken ops) :
    GivesBack (run stepTaken initTaken ops) ∧
      ∀ xs op ys, ops = xs ++ op :: ys → StepGives (run stepTaken initTaken xs) op := by
  have hkept : ∀ {xs}, StepsOk stepTaken StepKeeps initTaken xs →
      Kept (run stepTaken initTaken xs).1 (run stepTaken initTaken xs).2 :=
    run_inv_of_stepsOk (P := fun s : State × Taken => Kept s.1 s.2)
      (fun _ op h hop => h.step op hop) Kept.init
  refine ⟨(hkept hok).givesBack, ?_⟩
  rintro xs op ys rfl
  exact (hkept ((stepsOk_append _).mp hok).1).gives op

/-- A call waits for two events, of which the first is signaled, until `c` ends it. -/
def exWait (c : Choice) : List Op :=
  [.create 1 .signal true true 1, .create 2 .signal true false 1, .start true [⟨1, 0⟩, ⟨2, 0⟩]] ++
    replicate 20 (.call 0 c)

theorem failedWait_givesBack_interrupted :
    GivesBack (run stepTaken initTaken (exWait ⟨false, some false, false, []⟩)) ∧
      ((run stepTaken initTaken (exWait ⟨false, some false, false, []⟩)).1.heap[0]?).any
        (·.signaled) = true :=
  ⟨(failedWait_givesBack (by decide)).1, by decide⟩

/-- The wait times out: it has consumed the signal of the first event. -/
theorem failedWait_consumes : ¬ ∀ ops, GivesBack (run stepTaken initTaken ops) := by
  intro h
  have hkept := h (exWait ⟨false, none, true, []⟩) 0 _ rfl (by decide) (by decide) 0 (by decide)
  revert hkept
  decide

end Amdkfd.EventWait
