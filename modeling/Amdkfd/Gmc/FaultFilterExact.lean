import Amdkfd.Gmc.FaultChain

/-!
# What the fault filter answers

A fault is filtered when the ring is full of faults that are not timed out, or when the last fault
of its address and PASID was let through within the timeout and not removed since: as long as the
filter sees that last fault for what it is.
-/

namespace Amdkfd.FaultFilter

open Lib Option

/-! ## Keys and times -/

theorem faultKey_eq {addr pasid : Nat} (h : Valid addr pasid) :
    faultKey addr pasid = addr * 2 ^ 4 + pasid := by
  obtain ⟨ha, hlt, hp⟩ := h
  have hmod : addr * 2 ^ 4 % 2 ^ 64 = 2 ^ 16 * (addr / 2 ^ 12) := by omega
  rw [faultKey, hmod, ← Nat.two_pow_add_eq_or_of_lt hp]
  omega

theorem faultKey_inj {addr pasid addr' pasid' : Nat} (h : Valid addr pasid)
    (h' : Valid addr' pasid') :
    faultKey addr pasid = faultKey addr' pasid' ↔ addr = addr' ∧ pasid = pasid' := by
  rw [faultKey_eq h, faultKey_eq h']
  obtain ⟨ha, -, hp⟩ := h
  obtain ⟨ha', -, hp'⟩ := h'
  omega

theorem stamp_le_iff {t ts : Nat} (hts : 0 < ts) :
    max t (timeout + 1) - timeout ≤ ts ↔ Young t ts := by
  simp only [Young, timeout]
  omega

/-! ## The invariant -/

/-- The expiry of the fault `p` as its slot has it. -/
def Passed.mark (p : Passed) : Nat := p.expired.getD p.inherited

/-- The invariant of the runs. -/
structure Inv (s : Gmc) : Prop where
  linked : Linked s
  valid : ∀ n < s.count, Valid (s.passed n).addr (s.passed n).pasid
  now : ∀ n < s.count, (s.passed n).timestamp ≤ s.now
  expiry : ∀ n x, (s.passed n).expired = some x → 0 < x
  /-- The last fault with a key has its mark, if its chain leads to it. -/
  mark : ∀ p, InRing s p → s.latest (s.passed p).key = some p → Apart s p →
    (s.faultRing (p % ringSize)).timestampExpiry = (s.passed p).mark

theorem same_eq {s : Gmc} (h : Inv s) {addr pasid : Nat} (hv : Valid addr pasid) :
    s.same addr pasid = s.latest (faultKey addr pasid) := by
  refine newest_congr fun k hk => ?_
  exact decide_eq_decide.mpr (faultKey_inj (h.valid k hk) hv).symm

theorem mod_ne_of_inRing {s : Gmc} {m n : Nat} (hm : InRing s m) (hn : InRing s n) (hne : m ≠ n) :
    m % ringSize ≠ n % ringSize := by
  obtain ⟨h1, h2⟩ := hm
  obtain ⟨h3, h4⟩ := hn
  have hr : ringSize = 256 := rfl
  rw [hr] at h2 h4 ⊢
  omega

theorem inv_init : Inv init :=
  { linked :=
      { lastFault := rfl
        held := fun n hn => absurd hn.1 (Nat.not_lt_zero n)
        empty := fun _ _ _ => ⟨rfl, rfl, rfl⟩
        hash := fun _ => rfl
        mono := fun _ n _ hn => absurd hn (Nat.not_lt_zero n)
        pos := fun n hn => absurd hn (Nat.not_lt_zero n) }
    valid := fun n hn => absurd hn (Nat.not_lt_zero n)
    now := fun n hn => absurd hn (Nat.not_lt_zero n)
    expiry := nofun
    mark := fun p hp => absurd hp.1 (Nat.not_lt_zero p) }

/-! ## Letting a fault through -/

section addFault
variable {s : Gmc} {addr pasid t : Nat}

theorem addFault_passed_of_lt {n : Nat} (h : n < s.count) :
    (addFault s addr pasid t).passed n = s.passed n := by
  simp [addFault, Nat.ne_of_lt h]

theorem addFault_passed_count : (addFault s addr pasid t).passed s.count =
    ⟨addr, pasid, t, (s.faultRing s.lastFault).timestampExpiry, none⟩ := by
  simp [addFault]

theorem addFault_newestIn {hash n : Nat} (h : n ≤ s.count) :
    (addFault s addr pasid t).newestIn hash n = s.newestIn hash n :=
  newest_congr fun k hk => by rw [addFault_passed_of_lt (lt_of_lt_of_le hk h)]

theorem addFault_ring_of_ne {i : Nat} (h : i ≠ s.lastFault) :
    (addFault s addr pasid t).faultRing i = s.faultRing i := by
  simp [addFault, h]

theorem addFault_ring_self (h : t < 2 ^ 48) :
    (addFault s addr pasid t).faultRing s.lastFault =
      ⟨t, s.faultHash (keyHash (faultKey addr pasid)), faultKey addr pasid,
        (s.faultRing s.lastFault).timestampExpiry⟩ := by
  simp only [addFault, if_true, Nat.mod_eq_of_lt h]

theorem inRing_addFault (hl : Linked s) {n : Nat} (hn : InRing (addFault s addr pasid t) n)
    (hlt : n < s.count) : InRing s n ∧ n % ringSize ≠ s.lastFault := by
  have hn2 : s.count + 1 ≤ n + ringSize := hn.2
  have hr : ringSize = 256 := rfl
  rw [hl.lastFault, InRing]
  rw [hr] at hn2 ⊢
  omega

theorem linked_addFault (h : Linked s) (hnow : ∀ n < s.count, (s.passed n).timestamp ≤ t)
    (hpos : 0 < t) (ht : t < 2 ^ 48) : Linked (addFault s addr pasid t) := by
  have hcount : (addFault s addr pasid t).count = s.count + 1 := rfl
  refine ⟨?_, fun n hn => ?_, fun i hc hi => ?_, fun k => ?_, fun m n hmn hn => ?_, fun n hn => ?_⟩
  · show (s.lastFault + 1) % ringSize = (s.count + 1) % ringSize
    rw [h.lastFault, Nat.mod_add_mod]
  · rcases Nat.lt_succ_iff_lt_or_eq.mp hn.1 with hlt | rfl
    · obtain ⟨hold, hne⟩ := inRing_addFault h hn hlt
      rw [addFault_ring_of_ne hne, addFault_passed_of_lt hlt, addFault_newestIn hlt.le]
      exact h.held n hold
    · rw [← h.lastFault, addFault_ring_self ht, addFault_passed_count, addFault_newestIn le_rfl]
      exact ⟨rfl, rfl, h.hash _⟩
  · have hne : i ≠ s.lastFault := by
      have hr : ringSize = 256 := rfl
      rw [h.lastFault]
      rw [hcount] at hc
      rw [hr] at hi ⊢
      omega
    rw [addFault_ring_of_ne hne]
    exact h.empty i (by omega) hi
  · rw [hcount, Gmc.newestIn, newest_succ, addFault_passed_count]
    show (if k = _ then _ else _) = _
    by_cases hk : k = keyHash (faultKey addr pasid)
    · rw [if_pos hk, if_pos (by simp [Passed.key, hk]), h.lastFault]
      rfl
    · rw [if_neg hk, if_neg (by simp [Passed.key, Ne.symm hk])]
      rw [show newest _ s.count = s.newestIn k s.count from addFault_newestIn le_rfl]
      exact h.hash k
  · rcases Nat.lt_succ_iff_lt_or_eq.mp hn with hlt | rfl
    · rw [addFault_passed_of_lt hlt, addFault_passed_of_lt (lt_of_le_of_lt hmn hlt)]
      exact h.mono m n hmn hlt
    · rcases Nat.lt_or_eq_of_le hmn with hlt | rfl
      · rw [addFault_passed_count, addFault_passed_of_lt hlt]
        exact hnow m hlt
      · exact le_rfl
  · rcases Nat.lt_succ_iff_lt_or_eq.mp hn with hlt | rfl
    · rw [addFault_passed_of_lt hlt]
      exact h.pos n hlt
    · rw [addFault_passed_count]
      exact hpos

theorem inv_addFault (h : Inv s) (hv : Valid addr pasid) (hnow : s.now ≤ t) (hpos : 0 < t)
    (ht : t < 2 ^ 48) : Inv { addFault s addr pasid t with now := t } := by
  have hl : Linked (addFault s addr pasid t) :=
    linked_addFault h.linked (fun n hn => (h.now n hn).trans hnow) hpos ht
  refine
    { linked := ⟨hl.lastFault, hl.held, hl.empty, hl.hash, hl.mono, hl.pos⟩
      valid := fun n hn => ?_
      now := fun n hn => ?_
      expiry := fun n x hx => ?_
      mark := fun p hp hlast hapart => ?_ }
  · dsimp only
    rcases Nat.lt_succ_iff_lt_or_eq.mp hn with hlt | rfl
    · rw [addFault_passed_of_lt hlt]
      exact h.valid n hlt
    · rw [addFault_passed_count]
      exact hv
  · dsimp only
    rcases Nat.lt_succ_iff_lt_or_eq.mp hn with hlt | rfl
    · rw [addFault_passed_of_lt hlt]
      exact (h.now n hlt).trans hnow
    · rw [addFault_passed_count]
  · simp only [addFault] at hx
    split at hx
    · cases hx
    · exact h.expiry n x hx
  · change InRing (addFault s addr pasid t) p at hp
    change (addFault s addr pasid t).latest ((addFault s addr pasid t).passed p).key = some p
      at hlast
    change Apart (addFault s addr pasid t) p at hapart
    show ((addFault s addr pasid t).faultRing (p % ringSize)).timestampExpiry =
      ((addFault s addr pasid t).passed p).mark
    rcases Nat.lt_succ_iff_lt_or_eq.mp hp.1 with hlt | rfl
    · obtain ⟨hold, hne⟩ := inRing_addFault h.linked hp hlt
      rw [addFault_ring_of_ne hne, addFault_passed_of_lt hlt]
      obtain ⟨-, hpk, hbetween⟩ := newestOf_some.mp hlast
      refine h.mark p hold (newestOf_some.mpr ⟨hlt, rfl, fun k h1 h2 hk => ?_⟩) ?_
      · refine hbetween k h1 (Nat.lt_succ_of_lt h2) ?_
        rw [addFault_passed_of_lt h2, addFault_passed_of_lt hlt]
        exact hk
      · intro b hb a hab hsame
        refine hapart b (Nat.lt_succ_of_lt hb) a hab ?_
        simp only [SameTime, addFault_passed_of_lt hb, addFault_passed_of_lt (hab.trans hb),
          addFault_passed_of_lt hlt]
        exact hsame
    · rw [← h.linked.lastFault, addFault_ring_self ht, addFault_passed_count]
      rfl

end addFault

/-! ## Removing an address -/

variable {s : Gmc}

theorem expire_passed {key x n : Nat} :
    ((s.expire key x).passed n = s.passed n ∧ s.latest key ≠ some n) ∨
      (s.latest key = some n ∧ (s.expire key x).passed n =
        { s.passed n with expired := some x }) := by
  unfold Gmc.expire
  rcases hp : s.latest key with _ | p
  · exact .inl ⟨rfl, nofun⟩
  · by_cases hn : n = p
    · subst hn
      exact .inr ⟨rfl, by simp⟩
    · exact .inl ⟨by simp [hn], fun h => hn (some.inj h).symm⟩

theorem expire_fixed (s : Gmc) (key x : Nat) :
    (s.expire key x).count = s.count ∧ (s.expire key x).lastFault = s.lastFault ∧
      (s.expire key x).faultHash = s.faultHash ∧ (s.expire key x).faultRing = s.faultRing ∧
      (s.expire key x).now = s.now := by
  unfold Gmc.expire
  split <;> exact ⟨rfl, rfl, rfl, rfl, rfl⟩

theorem linked_congr {s s' : Gmc} (h : Linked s) (hc : s'.count = s.count)
    (hl : s'.lastFault = s.lastFault) (hh : s'.faultHash = s.faultHash)
    (hr : ∀ i, (s'.faultRing i).key = (s.faultRing i).key ∧
      (s'.faultRing i).timestamp = (s.faultRing i).timestamp ∧
      (s'.faultRing i).next = (s.faultRing i).next)
    (hp : ∀ n, (s'.passed n).key = (s.passed n).key ∧
      (s'.passed n).timestamp = (s.passed n).timestamp) : Linked s' := by
  have hnew : ∀ k n, s'.newestIn k n = s.newestIn k n := fun k n =>
    newest_congr fun i _ => by rw [(hp i).1]
  refine ⟨?_, fun n hn => ?_, fun i hi => ?_, fun k => ?_, fun m n hmn hn => ?_, fun n hn => ?_⟩
  · rw [hl, hc, h.lastFault]
  · rw [(hr _).1, (hr _).2.1, (hr _).2.2, (hp n).1, (hp n).2, hnew]
    rw [InRing, hc] at hn
    exact h.held n hn
  · rw [(hr i).1, (hr i).2.1, (hr i).2.2]
    rw [hc] at hi
    exact h.empty i hi
  · rw [hh, hnew, hc]
    exact h.hash k
  · rw [(hp m).2, (hp n).2]
    exact h.mono m n hmn (hc ▸ hn)
  · rw [(hp n).2]
    exact h.pos n (hc ▸ hn)

/-- The ring after a removal, if the walk ended at `o`. -/
def Gmc.markSlot (s : Gmc) (o : Option Nat) (lastTs : Nat) : Gmc :=
  match o with
  | none => s
  | some i =>
    { s with
      faultRing := fun k =>
        if k = i then { s.faultRing i with timestampExpiry := lastTs } else s.faultRing k }

theorem filterFaultsRemove_eq (s : Gmc) (addr pasid : Nat) {x : Nat} (hx : x < 2 ^ 48) :
    filterFaultsRemove s addr pasid false x =
      (s.expire (faultKey addr pasid) x).markSlot
        (chainWalk s.faultRing (faultKey addr pasid) 0
          (s.faultHash (keyHash (faultKey addr pasid)))) x := by
  obtain ⟨-, -, -, hring, -⟩ := expire_fixed s (faultKey addr pasid) x
  unfold filterFaultsRemove Gmc.markSlot
  rw [if_neg Bool.false_ne_true, Nat.mod_eq_of_lt hx]
  dsimp only
  rcases chainWalk s.faultRing (faultKey addr pasid) 0
    (s.faultHash (keyHash (faultKey addr pasid))) with _ | i
  · rfl
  · simp only [hring]

theorem markSlot_ring (s : Gmc) (o : Option Nat) (x k : Nat) :
    ((s.markSlot o x).faultRing k).key = (s.faultRing k).key ∧
      ((s.markSlot o x).faultRing k).timestamp = (s.faultRing k).timestamp ∧
      ((s.markSlot o x).faultRing k).next = (s.faultRing k).next ∧
      ((s.markSlot o x).faultRing k).timestampExpiry =
        if o = some k then x else (s.faultRing k).timestampExpiry := by
  cases o with
  | none => exact ⟨rfl, rfl, rfl, rfl⟩
  | some i =>
    by_cases hk : k = i
    · subst hk
      simp [Gmc.markSlot]
    · simp [Gmc.markSlot, hk, Ne.symm hk]

theorem inv_remove (h : Inv s) (addr pasid : Nat) (cam : Bool) {x : Nat} (hx : 0 < x)
    (hlt : x < 2 ^ 48) : Inv (filterFaultsRemove s addr pasid cam x) := by
  cases cam with
  | true => exact h
  | false =>
    rw [filterFaultsRemove_eq s addr pasid hlt]
    generalize hkey : faultKey addr pasid = key
    generalize ho : chainWalk s.faultRing key 0 (s.faultHash (keyHash key)) = o
    obtain ⟨hcount, hlast, hhash, hring, hnow⟩ := expire_fixed s key x
    have hms : ((s.expire key x).markSlot o x).count = (s.expire key x).count ∧
        ((s.expire key x).markSlot o x).lastFault = (s.expire key x).lastFault ∧
        ((s.expire key x).markSlot o x).faultHash = (s.expire key x).faultHash ∧
        ((s.expire key x).markSlot o x).passed = (s.expire key x).passed ∧
        ((s.expire key x).markSlot o x).now = (s.expire key x).now := by
      cases o <;> exact ⟨rfl, rfl, rfl, rfl, rfl⟩
    obtain ⟨hc, hl, hh, hp, hn⟩ := hms
    have hpassed : ∀ n, (((s.expire key x).markSlot o x).passed n).addr = (s.passed n).addr ∧
        (((s.expire key x).markSlot o x).passed n).pasid = (s.passed n).pasid ∧
        (((s.expire key x).markSlot o x).passed n).timestamp = (s.passed n).timestamp := by
      intro n
      rw [hp]
      rcases @expire_passed s key x n with ⟨he, -⟩ | ⟨-, he⟩ <;> rw [he] <;> exact ⟨rfl, rfl, rfl⟩
    have hkeys : ∀ n, (((s.expire key x).markSlot o x).passed n).key = (s.passed n).key := by
      intro n
      rw [Passed.key, (hpassed n).1, (hpassed n).2.1]
      rfl
    refine
      { linked := linked_congr h.linked (hc.trans hcount) (hl.trans hlast) (hh.trans hhash) ?_ ?_
        valid := fun n hn' => ?_
        now := fun n hn' => ?_
        expiry := fun n y hy => ?_
        mark := fun p hpr hlatest hapart => ?_ }
    · intro i
      obtain ⟨h1, h2, h3, -⟩ := markSlot_ring (s.expire key x) o x i
      rw [h1, h2, h3, hring]
      exact ⟨rfl, rfl, rfl⟩
    · exact fun n => ⟨hkeys n, (hpassed n).2.2⟩
    · rw [(hpassed n).1, (hpassed n).2.1]
      exact h.valid n (by rwa [hc, hcount] at hn')
    · rw [(hpassed n).2.2, hn, hnow]
      exact h.now n (by rwa [hc, hcount] at hn')
    · rw [hp] at hy
      rcases @expire_passed s key x n with ⟨he, -⟩ | ⟨-, he⟩
      · exact h.expiry n y (he ▸ hy)
      · rw [he] at hy
        exact some.inj hy ▸ hx
    · -- the history and the ring are marked at the same fault
      have hpr : InRing s p := by rwa [InRing, hc, hcount] at hpr
      have hlatest : s.latest (s.passed p).key = some p := by
        rw [hkeys, Gmc.latest, hc, hcount] at hlatest
        rw [← hlatest]
        exact newest_congr fun k _ => by rw [hkeys k]
      have hapart : Apart s p := by
        intro b hb a hab hsame
        refine hapart b (by rwa [hc, hcount]) a hab ?_
        simp only [SameTime, hkeys, (hpassed _).2.2]
        exact hsame
      rw [(markSlot_ring _ _ _ _).2.2.2, hring, hp]
      by_cases hpk : (s.passed p).key = key
      · have hfind := walk_head_finds h.linked (hpk ▸ hlatest) hpr (Nat.zero_le _) hapart
        rw [ho] at hfind
        rw [if_pos hfind]
        rcases @expire_passed s key x p with ⟨-, hne⟩ | ⟨-, he⟩
        · exact absurd (hpk ▸ hlatest) hne
        · rw [he]
          rfl
      · have hne : o ≠ some (p % ringSize) := by
          intro hop
          rw [hop] at ho
          rcases walk_head_eq_some h.linked ho with ⟨hempty, hi, -⟩ | ⟨q, hq, hqr, heq, -, -⟩
          · obtain ⟨h1, h2⟩ := hpr
            have hr : ringSize = 256 := rfl
            rw [hr] at hempty hi
            omega
          · obtain ⟨-, hqk, -⟩ := newestOf_some.mp hq
            exact mod_ne_of_inRing hpr hqr (fun he => hpk (he ▸ hqk)) heq
        rw [if_neg hne]
        rcases @expire_passed s key x p with ⟨he, -⟩ | ⟨hlp, -⟩
        · rw [he]
          exact h.mark p hpr hlatest hapart
        · exact absurd (newestOf_some.mp hlp).2.1 hpk

theorem inv_step (s : Gmc) (op : Op) (h : Inv s) (hop : InTime s op) : Inv (step s op) := by
  cases op with
  | filter addr pasid t processed =>
    obtain ⟨hv, hnow, hpos, ht, -⟩ := hop
    simp only [step, filterFaults]
    split
    · exact
        { linked := ⟨h.linked.lastFault, h.linked.held, h.linked.empty, h.linked.hash,
            h.linked.mono, h.linked.pos⟩
          valid := h.valid
          now := fun n hn => (h.now n hn).trans hnow
          expiry := h.expiry
          mark := h.mark }
    · exact inv_addFault h hv hnow hpos ht
  | remove addr pasid cam x => exact inv_remove h addr pasid cam hop.1 hop.2

/-! ## The answer -/

theorem ringFull_iff (h : Linked s) (t : Nat) :
    max t (timeout + 1) - timeout ≤ (s.faultRing s.lastFault).timestamp ↔ RingFull s t := by
  rcases Nat.lt_or_ge s.count ringSize with hc | hc
  · refine iff_of_false ?_ fun hf => absurd hf.1 (not_le.mpr hc)
    rw [h.lastFault, Nat.mod_eq_of_lt hc, (h.empty s.count le_rfl hc).2.1]
    simp only [timeout]
    omega
  · -- the slot to be used next holds the oldest fault of the ring
    have hold : InRing s (s.count - ringSize) := by
      have hr : 0 < ringSize := by decide
      constructor <;> omega
    have hslot : s.lastFault = (s.count - ringSize) % ringSize := by
      rw [h.lastFault, ← Nat.mod_eq_sub_mod hc]
    rw [hslot, (h.held _ hold).2.1, stamp_le_iff (h.pos _ hold.1)]
    constructor
    · refine fun hy => ⟨hc, fun n hn hr => ?_⟩
      have := h.mono (s.count - ringSize) n (by omega) hn
      exact hy.trans (Nat.add_le_add_right this _)
    · exact fun hf => hf.2 _ hold.1 hold.2

theorem inRing_of_young (h : Linked s) {t p : Nat} (hfull : ¬ RingFull s t) (hp : p < s.count)
    (hy : Young t (s.passed p).timestamp) : InRing s p := by
  refine ⟨hp, ?_⟩
  by_contra hr
  refine hfull ⟨by omega, fun n hn hnr => ?_⟩
  have := h.mono p n (by omega) hn
  exact hy.trans (Nat.add_le_add_right this _)

theorem isFiltered_iff (h : Inv s) {addr pasid t processed : Nat}
    (hop : InTime s (.filter addr pasid t processed)) :
    isFiltered s addr pasid t processed = true ↔ RingFull s t ∨
      ∃ p ∈ s.same addr pasid, Young t (s.passed p).timestamp ∧ Apart s p ∧
        ¬ ((s.passed p).mark ≠ 0 ∧ tsAfter (s.passed p).mark t = true) := by
  obtain ⟨hv, -, -, -, hproc⟩ := hop
  rw [same_eq h hv]
  unfold isFiltered
  dsimp only
  rw [if_neg (by rw [hproc]; exact Bool.false_ne_true)]
  by_cases hfull : RingFull s t
  · rw [if_pos ((ringFull_iff h.linked t).mpr hfull)]
    exact iff_of_true rfl (.inl hfull)
  · rw [if_neg (mt (ringFull_iff h.linked t).mp hfull)]
    simp only [hfull, false_or]
    split
    case h_1 hw =>
      refine iff_of_false Bool.false_ne_true ?_
      rintro ⟨p, hp, hy, ha, -⟩
      have hpc := (newestOf_some.mp hp).1
      have hfind := walk_head_finds h.linked hp (inRing_of_young h.linked hfull hpc hy)
        ((stamp_le_iff (h.linked.pos p hpc)).mpr hy) ha
      rw [hw] at hfind
      cases hfind
    case h_2 i hw =>
      rcases walk_head_eq_some h.linked hw with ⟨-, -, hs⟩ | ⟨p, hp, hpr, rfl, hs, ha⟩
      · simp only [timeout] at hs
        omega
      · have hpk := (newestOf_some.mp hp).2.1
        rw [h.mark p hpr (hpk.symm ▸ hp) ha]
        have hy := (stamp_le_iff (h.linked.pos p hpr.1)).mp hs
        constructor
        · exact fun hf => ⟨p, hp, hy, ha, of_decide_eq_true hf⟩
        · rintro ⟨q, hq, -, -, hf⟩
          obtain rfl : p = q := some.inj (hp.symm.trans hq)
          exact decide_eq_true hf

theorem mark_iff {p : Passed} (t : Nat) (hne : ∀ x, p.expired = some x → 0 < x) :
    (¬ (p.mark ≠ 0 ∧ tsAfter p.mark t = true) ↔ p.removed t = false) ↔
      (p.expired ≠ none ∨ ¬ (p.inherited ≠ 0 ∧ tsAfter p.inherited t = true)) := by
  rcases he : p.expired with _ | x
  · rw [Passed.removed, Passed.mark, he, any_none, getD_none]
    generalize tsAfter p.inherited t = b
    simp
  · have hx : x ≠ 0 := Nat.ne_of_gt (hne x he)
    rw [Passed.removed, Passed.mark, he, any_some, getD_some]
    generalize tsAfter x t = b
    simp [hx]

theorem isFiltered_exact_iff (h : Inv s) {addr pasid t processed : Nat}
    (hop : InTime s (.filter addr pasid t processed)) :
    (isFiltered s addr pasid t processed = true ↔ RingFull s t ∨ Known s addr pasid t) ↔
      Seen s addr pasid t := by
  rw [isFiltered_iff h hop]
  by_cases hfull : RingFull s t
  · simp [hfull, Seen]
  · simp only [hfull, false_or, Seen, Known]
    rcases hp : s.same addr pasid with _ | p
    · simp
    · simp only [mem_some_iff, exists_eq_left', forall_eq']
      by_cases hy : Young t (s.passed p).timestamp
      · simp only [hy, true_and, true_imp_iff, SeenAt]
        by_cases ha : Apart s p
        · simp only [ha, true_and, if_true]
          exact mark_iff t (h.expiry p)
        · simp only [ha, false_and, if_false, false_iff, Bool.not_eq_false]
      · simp only [hy, false_and, false_imp_iff]

/-- In every run in time, a call answers that the fault is filtered exactly when the ring is full
of faults that are not timed out or the last fault of the address and PASID was let through within
the timeout and not removed since: if and only if that last fault did not take over an expiry from
its slot, and no two later faults of its chain have one time stamp. -/
theorem filterFaults_exact_iff (ops : List Op) (hops : StepsOk step InTime init ops)
    (addr pasid t processed : Nat)
    (hop : InTime (run step init ops) (.filter addr pasid t processed)) :
    ((filterFaults (run step init ops) addr pasid t processed).2 = true ↔
      RingFull (run step init ops) t ∨ Known (run step init ops) addr pasid t) ↔
      Seen (run step init ops) addr pasid t := by
  have h : Inv (run step init ops) := run_inv_of_stepsOk inv_step inv_init hops
  rw [← isFiltered_exact_iff h hop]
  unfold filterFaults
  split
  case isTrue hf => simp [hf]
  case isFalse hf => simp [hf]

/-- A page is let through, removed, and let through again each time it is timed out, until its
first slot is used once more. -/
def exOps : List Op :=
  .filter 0x1000 1 20000 0 :: .remove 0x1000 1 false 20001 ::
    (List.range 256).map fun i => .filter 0x1000 1 (26000 + 6000 * i) 0

def exTime : Nat := 26000 + 6000 * 255 + 1

theorem filterFaults_exact_iff_exOps :
    ((filterFaults (run step init exOps) 0x1000 1 exTime 0).2 = true ↔
      RingFull (run step init exOps) exTime ∨ Known (run step init exOps) 0x1000 1 exTime) ↔
      Seen (run step init exOps) 0x1000 1 exTime :=
  filterFaults_exact_iff exOps (by decide +kernel) 0x1000 1 exTime 0 (by decide +kernel)

/-- The slot still has the expiry of its first fault, so that the fault comes through again one
tick after it was let through. -/
theorem filterFaults_stale :
    ¬ ∀ ops, StepsOk step InTime init ops → ∀ addr pasid t processed,
      InTime (run step init ops) (.filter addr pasid t processed) →
      ((filterFaults (run step init ops) addr pasid t processed).2 = true ↔
        RingFull (run step init ops) t ∨ Known (run step init ops) addr pasid t) := by
  intro h
  have hex := h exOps (by decide +kernel) 0x1000 1 exTime 0 (by decide +kernel)
  have hknown : Known (run step init exOps) 0x1000 1 exTime := by decide +kernel
  have hnot : (filterFaults (run step init exOps) 0x1000 1 exTime 0).2 = false := by
    decide +kernel
  rw [hnot] at hex
  exact Bool.false_ne_true (hex.mpr (.inr hknown))

end Amdkfd.FaultFilter
