import Amdkfd.Gmc.FaultFilter

/-!
# The chains of the fault filter

The ring holds the last faults that were let through, and a chain leads through those of one hash
value, from the newest to the oldest. Past the last of them that is still in the ring the links
lead into other chains, where no fault has the key.
-/

namespace Amdkfd.FaultFilter

open Lib Option

/-- The slot of a fault; the hash table and the links start at slot 0. -/
def slotOf : Option Nat → Nat
  | none => 0
  | some n => n % ringSize

/-- The fault `n` was let through and its slot not used again. -/
def InRing (s : Gmc) (n : Nat) : Prop := n < s.count ∧ s.count ≤ n + ringSize
  deriving Decidable

/-- The last fault below `n` with the hash value. -/
def Gmc.newestIn (s : Gmc) (hash n : Nat) : Option Nat :=
  newest (fun k => keyHash (s.passed k).key = hash) n

/-- The last fault below `n` with the key. -/
def Gmc.newestOf (s : Gmc) (key n : Nat) : Option Nat :=
  newest (fun k => (s.passed k).key = key) n

theorem newestIn_some {s : Gmc} {hash n m : Nat} : s.newestIn hash n = some m ↔
    m < n ∧ keyHash (s.passed m).key = hash ∧
      ∀ k, m < k → k < n → keyHash (s.passed k).key ≠ hash := by
  simp [Gmc.newestIn, newest_eq_some]

theorem newestIn_none {s : Gmc} {hash n : Nat} : s.newestIn hash n = none ↔
    ∀ k < n, keyHash (s.passed k).key ≠ hash := by
  simp [Gmc.newestIn, newest_eq_none]

theorem newestOf_some {s : Gmc} {key n m : Nat} : s.newestOf key n = some m ↔
    m < n ∧ (s.passed m).key = key ∧ ∀ k, m < k → k < n → (s.passed k).key ≠ key := by
  simp [Gmc.newestOf, newest_eq_some]

/-- The ring, the hash table and the links hold what the history says. -/
structure Linked (s : Gmc) : Prop where
  lastFault : s.lastFault = s.count % ringSize
  held : ∀ n, InRing s n →
    (s.faultRing (n % ringSize)).key = (s.passed n).key ∧
    (s.faultRing (n % ringSize)).timestamp = (s.passed n).timestamp ∧
    (s.faultRing (n % ringSize)).next = slotOf (s.newestIn (keyHash (s.passed n).key) n)
  empty : ∀ i, s.count ≤ i → i < ringSize →
    (s.faultRing i).key = 0 ∧ (s.faultRing i).timestamp = 0 ∧ (s.faultRing i).next = 0
  hash : ∀ h, s.faultHash h = slotOf (s.newestIn h s.count)
  mono : ∀ m n, m ≤ n → n < s.count → (s.passed m).timestamp ≤ (s.passed n).timestamp
  pos : ∀ n < s.count, 0 < (s.passed n).timestamp

theorem slotOf_lt (o : Option Nat) : slotOf o < ringSize := by
  cases o with
  | none => decide
  | some n => exact Nat.mod_lt _ (by decide)

theorem slot_cases (s : Gmc) {i : Nat} (hi : i < ringSize) :
    s.count ≤ i ∨ ∃ c, InRing s c ∧ c % ringSize = i := by
  rcases lt_or_ge i s.count with h | h
  · -- the newest fault whose number leaves `i`
    refine .inr ⟨s.count - 1 - (s.count - 1 - i) % ringSize, ?_, ?_⟩
    · have hr := Nat.mod_lt (s.count - 1 - i) (show 0 < ringSize by decide)
      constructor <;> omega
    · have hdiv := Nat.div_add_mod (s.count - 1 - i) ringSize
      have hle := Nat.mod_le (s.count - 1 - i) ringSize
      have heq : s.count - 1 - (s.count - 1 - i) % ringSize =
          i + ringSize * ((s.count - 1 - i) / ringSize) := by omega
      rw [heq, Nat.add_mul_mod_self_left, Nat.mod_eq_of_lt hi]
  · exact .inl h

theorem chainWalk_eq (ring : Nat → Fault) (key stamp i : Nat) : chainWalk ring key stamp i =
    if (ring i).timestamp < stamp then none
    else if (ring i).key = key then some i
    else if (ring i).timestamp ≤ (ring (ring i).next).timestamp then none
    else chainWalk ring key stamp (ring i).next := by
  rw [chainWalk]
  simp only [dite_eq_ite]

variable {s : Gmc} {key stamp : Nat}

theorem walk_empty (h : Linked s) {i j : Nat} (hc : s.count ≤ i) (hi : i < ringSize)
    (hw : chainWalk s.faultRing key stamp i = some j) : j = i ∧ stamp = 0 := by
  obtain ⟨-, hts, hnext⟩ := h.empty i hc hi
  rw [chainWalk_eq, hts] at hw
  split at hw
  · cases hw
  case isFalse hs =>
    split at hw
    · exact ⟨(some.inj hw).symm, by omega⟩
    · rw [if_pos (Nat.zero_le _)] at hw
      cases hw

theorem walk_foreign (h : Linked s) {c j : Nat} (hc : InRing s c)
    (hk : ∀ m ≤ c, InRing s m → (s.passed m).key ≠ key)
    (hw : chainWalk s.faultRing key stamp (c % ringSize) = some j) :
    s.count ≤ j ∧ j < ringSize ∧ stamp = 0 := by
  induction c using Nat.strong_induction_on with
  | _ c ih =>
    obtain ⟨hkey, hts, hnext⟩ := h.held c hc
    rw [chainWalk_eq, hkey, hts, if_neg (hk c le_rfl hc)] at hw
    split at hw
    · cases hw
    · split at hw
      · cases hw
      case isFalse hlt =>
        have hi : (s.faultRing (c % ringSize)).next < ringSize := hnext ▸ slotOf_lt _
        rcases slot_cases s hi with he | ⟨c', hc', heq⟩
        · obtain ⟨rfl, hs⟩ := walk_empty h he hi hw
          exact ⟨he, hi, hs⟩
        · rw [← heq] at hw hlt
          rw [(h.held c' hc').2.1] at hlt
          have hlt' : c' < c := by
            by_contra hge
            exact hlt (h.mono c c' (not_lt.mp hge) hc'.1)
          exact ih c' hlt' hc' (fun m hm => hk m (hm.trans hlt'.le)) hw

theorem walk_nowhere (h : Linked s) {i j : Nat} (hi : i < ringSize)
    (hk : ∀ m, InRing s m → (s.passed m).key ≠ key)
    (hw : chainWalk s.faultRing key stamp i = some j) :
    s.count ≤ j ∧ j < ringSize ∧ stamp = 0 := by
  rcases slot_cases s hi with he | ⟨c, hc, rfl⟩
  · obtain ⟨rfl, hs⟩ := walk_empty h he hi hw
    exact ⟨he, hi, hs⟩
  · exact walk_foreign h hc (fun m _ => hk m) hw

/-- No two faults of the hash value from `p` to `n` have one time stamp. -/
def ApartTo (s : Gmc) (p n : Nat) : Prop := ∀ b ≤ n, ∀ a < b, ¬ SameTime s p a b

theorem walk_finds (h : Linked s) {n p : Nat} (hn : InRing s n)
    (hh : keyHash (s.passed n).key = keyHash key) (hp : s.newestOf key (n + 1) = some p)
    (hpr : InRing s p) (hs : stamp ≤ (s.passed p).timestamp) (ha : ApartTo s p n) :
    chainWalk s.faultRing key stamp (n % ringSize) = some (p % ringSize) := by
  induction n using Nat.strong_induction_on with
  | _ n ih =>
    obtain ⟨hkey, hts, hnext⟩ := h.held n hn
    obtain ⟨hpn, hpk, hlast⟩ := newestOf_some.mp hp
    have hstamp : stamp ≤ (s.passed n).timestamp :=
      hs.trans (h.mono p n (Nat.le_of_lt_succ hpn) hn.1)
    rw [chainWalk_eq, hkey, hts, if_neg (not_lt.mpr hstamp)]
    by_cases hnp : n = p
    · rw [hnp, if_pos hpk]
    · have hlt : p < n := lt_of_le_of_ne (Nat.le_of_lt_succ hpn) (Ne.symm hnp)
      rw [if_neg (hlast n hlt (Nat.lt_succ_self n)), hnext, hh]
      -- the link leads to the fault before in the chain, which is not before `p`
      rcases hm : s.newestIn (keyHash key) n with _ | m
      · exact absurd (congrArg keyHash hpk) (newestIn_none.mp hm p hlt)
      · obtain ⟨hmn, hmh, hbetween⟩ := newestIn_some.mp hm
        have hpm : p ≤ m := by
          by_contra hgt
          exact hbetween p (not_le.mp hgt) hlt (congrArg keyHash hpk)
        have hmr : InRing s m :=
          ⟨hmn.trans hn.1, hpr.2.trans (Nat.add_le_add_right hpm _)⟩
        have hne : (s.passed m).timestamp ≠ (s.passed n).timestamp := fun heq =>
          ha n le_rfl m hmn ⟨hpm, hmh.trans (congrArg keyHash hpk).symm,
            hh.trans (congrArg keyHash hpk).symm, heq⟩
        have hlt' : (s.passed m).timestamp < (s.passed n).timestamp :=
          lt_of_le_of_ne (h.mono m n hmn.le hn.1) hne
        show (if _ ≤ (s.faultRing (m % ringSize)).timestamp then none
          else chainWalk s.faultRing key stamp (m % ringSize)) = _
        rw [(h.held m hmr).2.1, if_neg (not_le.mpr hlt')]
        refine ih m hmn hmr hmh ?_ fun b hb => ha b (hb.trans hmn.le)
        exact newestOf_some.mpr ⟨Nat.lt_succ_of_le hpm, hpk,
          fun k hk hk' => hlast k hk (lt_of_lt_of_le hk' (Nat.succ_le_succ hmn.le))⟩

theorem walk_found (h : Linked s) {n j : Nat} (hn : InRing s n)
    (hh : keyHash (s.passed n).key = keyHash key)
    (hw : chainWalk s.faultRing key stamp (n % ringSize) = some j) :
    (s.count ≤ j ∧ j < ringSize ∧ stamp = 0) ∨
      ∃ p, s.newestOf key (n + 1) = some p ∧ InRing s p ∧ j = p % ringSize ∧
        stamp ≤ (s.passed p).timestamp ∧ ApartTo s p n := by
  induction n using Nat.strong_induction_on with
  | _ n ih =>
    obtain ⟨hkey, hts, hnext⟩ := h.held n hn
    rw [chainWalk_eq, hkey, hts] at hw
    split at hw
    · cases hw
    case isFalse hstamp =>
      split at hw
      case isTrue hk =>
        refine .inr ⟨n, newestOf_some.mpr ⟨Nat.lt_succ_self n, hk, fun k h1 h2 => by omega⟩, hn,
          (some.inj hw).symm, not_lt.mp hstamp, ?_⟩
        intro b hb a hab hsame
        exact absurd hsame.1 (by omega)
      case isFalse hk =>
        split at hw
        · cases hw
        case isFalse hlt =>
          rw [hnext, hh] at hw hlt
          rcases hm : s.newestIn (keyHash key) n with _ | m
          · -- the chain ends here: slot 0 is of another chain or empty
            rw [hm] at hw hlt
            refine .inl ?_
            have hnone := newestIn_none.mp hm
            rcases slot_cases s (slotOf_lt none) with he | ⟨c, hc, heq⟩
            · obtain ⟨rfl, hs⟩ := walk_empty h he (slotOf_lt none) hw
              exact ⟨he, slotOf_lt none, hs⟩
            · rw [← heq] at hw hlt
              rw [(h.held c hc).2.1] at hlt
              have hcn : c < n := by
                by_contra hge
                exact hlt (h.mono n c (not_lt.mp hge) hc.1)
              exact walk_foreign h hc
                (fun a ha _ hka => hnone a (lt_of_le_of_lt ha hcn) (congrArg keyHash hka)) hw
          · rw [hm] at hw hlt
            obtain ⟨hmn, hmh, hbetween⟩ := newestIn_some.mp hm
            by_cases hmr : InRing s m
            · change chainWalk s.faultRing key stamp (m % ringSize) = some j at hw
              change ¬ _ ≤ (s.faultRing (m % ringSize)).timestamp at hlt
              rw [(h.held m hmr).2.1, not_le] at hlt
              rcases ih m hmn hmr hmh hw with hempty | ⟨p, hp, hpr, hj, hs, ha⟩
              · exact .inl hempty
              · obtain ⟨hpm, hpk, hlast⟩ := newestOf_some.mp hp
                refine .inr ⟨p, newestOf_some.mpr ⟨by omega, hpk, fun k h1 h2 hkk => ?_⟩, hpr, hj,
                  hs, fun b hb a hab hsame => ?_⟩
                · rcases lt_or_ge m k with hmk | hmk
                  · rcases Nat.lt_succ_iff_lt_or_eq.mp h2 with h2 | rfl
                    · exact hbetween k hmk h2 (congrArg keyHash hkk)
                    · exact hk hkk
                  · exact hlast k h1 (Nat.lt_succ_of_le hmk) hkk
                · obtain ⟨hpa, hha, hhb, hts'⟩ := hsame
                  have hph := congrArg keyHash hpk
                  rcases lt_or_ge m b with hmb | hmb
                  · -- the only one after `m` is `n`, which is younger than all before
                    obtain rfl : b = n := by
                      by_contra hbn
                      exact hbetween b hmb (lt_of_le_of_ne hb hbn) (hhb.trans hph)
                    have ham : a ≤ m := by
                      by_contra hgt
                      exact hbetween a (not_le.mp hgt) hab (hha.trans hph)
                    have := h.mono a m ham hmr.1
                    omega
                  · exact ha b hmb a hab ⟨hpa, hha, hhb, hts'⟩
            · -- the slot was used again before `n` was linked to it
              refine .inl ?_
              rcases slot_cases s (slotOf_lt (some m)) with he | ⟨c, hc, heq⟩
              · obtain ⟨rfl, hs⟩ := walk_empty h he (slotOf_lt _) hw
                exact ⟨he, slotOf_lt (some m), hs⟩
              · rw [← heq] at hw hlt
                rw [(h.held c hc).2.1] at hlt
                have hcn : c < n := by
                  by_contra hge
                  exact hlt (h.mono n c (not_lt.mp hge) hc.1)
                refine walk_foreign h hc (fun a ha har hka => ?_) hw
                have ham : a ≤ m := by
                  by_contra hgt
                  exact hbetween a (not_le.mp hgt) (lt_of_le_of_lt ha hcn) (congrArg keyHash hka)
                exact hmr ⟨hmn.trans hn.1, har.2.trans (Nat.add_le_add_right ham _)⟩

theorem apart_iff {p n : Nat} (hlast : ∀ k, n < k → k < s.count →
    keyHash (s.passed k).key ≠ keyHash (s.passed p).key) (hn : n < s.count) :
    ApartTo s p n ↔ Apart s p := by
  constructor
  · intro h b hb a hab hsame
    rcases lt_or_ge n b with hnb | hnb
    · exact hlast b hnb hb hsame.2.2.1
    · exact h b hnb a hab hsame
  · exact fun h b hb => h b (lt_of_le_of_lt hb hn)

theorem walk_head_eq_some (h : Linked s) {j : Nat} :
    chainWalk s.faultRing key stamp (s.faultHash (keyHash key)) = some j →
      (s.count ≤ j ∧ j < ringSize ∧ stamp = 0) ∨
        ∃ p, s.latest key = some p ∧ InRing s p ∧ j = p % ringSize ∧
          stamp ≤ (s.passed p).timestamp ∧ Apart s p := by
  intro hw
  rw [h.hash] at hw
  rcases hm : s.newestIn (keyHash key) s.count with _ | n
  · have hnone := newestIn_none.mp hm
    exact .inl (walk_nowhere h (slotOf_lt _)
      (fun m hm' hk => hnone m hm'.1 (congrArg keyHash hk)) hw)
  · obtain ⟨hn, hh, hlast⟩ := newestIn_some.mp hm
    by_cases hr : InRing s n
    · rw [hm] at hw
      rcases walk_found h hr hh hw with he | ⟨p, hp, hpr, hj, hs, ha⟩
      · exact .inl he
      · obtain ⟨hpn, hpk, hbetween⟩ := newestOf_some.mp hp
        refine .inr ⟨p, newestOf_some.mpr ⟨hpr.1, hpk, fun k h1 h2 hk => ?_⟩, hpr, hj, hs,
          (apart_iff (fun k h1 h2 => ?_) hn).mp ha⟩
        · rcases lt_or_ge n k with hnk | hnk
          · exact hlast k hnk h2 (congrArg keyHash hk)
          · exact hbetween k h1 (Nat.lt_succ_of_le hnk) hk
        · rw [hpk]
          exact hlast k h1 h2
    · refine .inl (walk_nowhere h (slotOf_lt _) (fun m hm' hk => ?_) hw)
      have hmn : m ≤ n := by
        by_contra hgt
        exact hlast m (not_le.mp hgt) hm'.1 (congrArg keyHash hk)
      exact hr ⟨hn, hm'.2.trans (Nat.add_le_add_right hmn _)⟩

theorem walk_head_finds (h : Linked s) {p : Nat} (hp : s.latest key = some p) (hpr : InRing s p)
    (hs : stamp ≤ (s.passed p).timestamp) (ha : Apart s p) :
    chainWalk s.faultRing key stamp (s.faultHash (keyHash key)) = some (p % ringSize) := by
  obtain ⟨hpc, hpk, hbetween⟩ := newestOf_some.mp hp
  rw [h.hash]
  rcases hm : s.newestIn (keyHash key) s.count with _ | n
  · exact absurd (congrArg keyHash hpk) (newestIn_none.mp hm p hpc)
  · obtain ⟨hn, hh, hlast⟩ := newestIn_some.mp hm
    have hpn : p ≤ n := by
      by_contra hgt
      exact hlast p (not_le.mp hgt) hpc (congrArg keyHash hpk)
    refine walk_finds h ⟨hn, hpr.2.trans (Nat.add_le_add_right hpn _)⟩ hh
      (newestOf_some.mpr ⟨Nat.lt_succ_of_le hpn, hpk, fun k h1 h2 => hbetween k h1 (by omega)⟩)
      hpr hs ?_
    exact fun b hb => ha b (lt_of_le_of_lt hb hn)

end Amdkfd.FaultFilter
