import Amdkfd.Svm.AddRange
import Amdkfd.Svm.Validate

/-!
# What a validation maps

For a VMA that cannot be read, `svm_range_validate_and_map` passes the bounds of the request
in bytes to `svm_range_unmap_from_gpus`, which takes pages, and clamps them to the pages of
the range. What is unmapped is thus another interval, if any.
-/

namespace Amdkfd.Svm

open Lib List

/-! ## The interval that is unmapped -/

/-- The page is in the interval that is passed to `svm_range_unmap_from_gpus`, the GPU is one
of those that it goes through, and the range is marked as mapped. -/
def Range.InUnmapped (r : Range) (mapStart mapLast gpuidx page : Nat) : Prop :=
  r.mappedToGpu = true ∧ gpuidx ∈ r.attrs.gpus ∧ max (mapStart * 4096) r.start ≤ page ∧
    page ≤ min ((mapLast + 1) * 4096) r.last
  deriving Decidable

/-- The interval that is passed is the range, which is then marked as not mapped. -/
def Range.UnmapsWhole (r : Range) (mapStart mapLast : Nat) : Prop :=
  max (mapStart * 4096) r.start = r.start ∧ min ((mapLast + 1) * 4096) r.last = r.last
  deriving Decidable

def Vmas.Unreadable (vmas : Vmas) (first stop : Nat) : Prop :=
  ∃ page, first ≤ page ∧ page < stop ∧ ¬vmas.Readable page

section Interval
variable (vmas : Vmas) (r : Range) (mapStart mapLast stop gpuidx page : Nat)

def UnmapHits : Prop :=
  r.InUnmapped mapStart mapLast gpuidx page ∧ vmas.Unreadable mapStart stop

def UnmapHitsAfter : Prop :=
  r.InUnmapped mapStart mapLast gpuidx page ∧ vmas.Unreadable (page + 1) stop ∧
    (r.UnmapsWhole mapStart mapLast → ¬vmas.Unreadable mapStart page)

/-- A page table has the entry after the rounds below `stop`: the page has been mapped, or it
was mapped before, and it has not been unmapped since. `access` has the GPUs that are mapped,
`pte` the entries before. -/
def MappedUpTo (access : Nat → Prop) (pte : Nat → Nat → Bool) : Prop :=
  ((mapStart ≤ page ∧ page < stop ∧ vmas.Readable page ∧ access gpuidx) ∧
    ¬UnmapHitsAfter vmas r mapStart mapLast stop gpuidx page) ∨
  (¬(mapStart ≤ page ∧ page < stop ∧ vmas.Readable page ∧ access gpuidx) ∧
    pte gpuidx page = true ∧ ¬UnmapHits vmas r mapStart mapLast stop gpuidx page)

end Interval

section Rounds
variable {vmas : Vmas} {r : Range} {mapStart mapLast a b gpuidx page : Nat} {access : Nat → Prop}
  {pte : Nat → Nat → Bool}

theorem Vmas.unreadable_of_readable {first : Nat} (hread : ∀ y, a ≤ y → y < b → vmas.Readable y)
    (hab : a ≤ b) : vmas.Unreadable first b ↔ vmas.Unreadable first a := by
  constructor
  · rintro ⟨y, hlo, hhi, hy⟩
    refine ⟨y, hlo, ?_, hy⟩
    by_contra hge
    exact hy (hread y (by omega) hhi)
  · rintro ⟨y, hlo, hhi, hy⟩
    exact ⟨y, hlo, by omega, hy⟩

theorem MappedUpTo.start : MappedUpTo vmas r mapStart mapLast mapStart gpuidx page access pte ↔
    pte gpuidx page = true := by
  have hno : ¬UnmapHits vmas r mapStart mapLast mapStart gpuidx page := by
    rintro ⟨-, y, hlo, hhi, -⟩
    omega
  constructor
  · rintro (⟨⟨hlo, hhi, -⟩, -⟩ | ⟨-, h, -⟩)
    · omega
    · exact h
  · exact fun h => .inr ⟨fun h' => by omega, h, hno⟩

theorem MappedUpTo.readable (hstart : mapStart ≤ a) (hab : a ≤ b)
    (hread : ∀ y, a ≤ y → y < b → vmas.Readable y) :
    MappedUpTo vmas r mapStart mapLast b gpuidx page access pte ↔
      access gpuidx ∧ a ≤ page ∧ page < b ∨
        MappedUpTo vmas r mapStart mapLast a gpuidx page access pte := by
  have hhits : UnmapHits vmas r mapStart mapLast b gpuidx page ↔
      UnmapHits vmas r mapStart mapLast a gpuidx page := by
    unfold UnmapHits
    rw [Vmas.unreadable_of_readable hread hab]
  have hafter : UnmapHitsAfter vmas r mapStart mapLast b gpuidx page ↔
      UnmapHitsAfter vmas r mapStart mapLast a gpuidx page := by
    unfold UnmapHitsAfter
    rw [Vmas.unreadable_of_readable hread hab]
  unfold MappedUpTo
  rw [hhits, hafter]
  by_cases hin : a ≤ page ∧ page < b
  · have hnone : ¬UnmapHitsAfter vmas r mapStart mapLast a gpuidx page := by
      rintro ⟨-, ⟨y, hlo, hhi, -⟩, -⟩
      omega
    by_cases haccess : access gpuidx
    · refine iff_of_true (.inl ⟨⟨by omega, hin.2, hread page hin.1 hin.2, haccess⟩, hnone⟩) ?_
      exact .inl ⟨haccess, hin⟩
    · simp only [haccess, and_false, false_and, not_false_eq_true, true_and, false_or]
  · have hsame : page < b ↔ page < a := by omega
    have hno : ¬(access gpuidx ∧ a ≤ page ∧ page < b) := fun h => hin h.2
    rw [hsame, hsame.symm, or_iff_right hno, hsame]

theorem MappedUpTo.unreadable (hstart : mapStart ≤ a) (hab : a < b)
    (hread : ∀ y, a ≤ y → y < b → ¬vmas.Readable y) :
    MappedUpTo vmas r mapStart mapLast b gpuidx page access pte ↔
      MappedUpTo vmas r mapStart mapLast a gpuidx page access pte ∧
        ¬(r.InUnmapped mapStart mapLast gpuidx page ∧
          (r.UnmapsWhole mapStart mapLast → ¬vmas.Unreadable mapStart a)) := by
  have hcond : (mapStart ≤ page ∧ page < b ∧ vmas.Readable page ∧ access gpuidx) ↔
      (mapStart ≤ page ∧ page < a ∧ vmas.Readable page ∧ access gpuidx) := by
    constructor
    · rintro ⟨hlo, hhi, hr, hacc⟩
      refine ⟨hlo, ?_, hr, hacc⟩
      by_contra hge
      exact hread page (by omega) hhi hr
    · rintro ⟨hlo, hhi, hr, hacc⟩
      exact ⟨hlo, by omega, hr, hacc⟩
  have hlast : ∀ first, first ≤ a → vmas.Unreadable first b :=
    fun first hfirst => ⟨a, hfirst, hab, hread a (le_refl _) hab⟩
  unfold MappedUpTo
  rw [hcond]
  by_cases hin : r.InUnmapped mapStart mapLast gpuidx page
  · by_cases hmap : mapStart ≤ page ∧ page < a ∧ vmas.Readable page ∧ access gpuidx
    · -- the pages before `a` and those after the page, or none of either
      have hsplit : vmas.Unreadable mapStart a ↔
          vmas.Unreadable mapStart page ∨ vmas.Unreadable (page + 1) a := by
        constructor
        · rintro ⟨y, hlo, hhi, hy⟩
          rcases lt_trichotomy y page with hlt | rfl | hgt
          · exact .inl ⟨y, hlo, hlt, hy⟩
          · exact absurd hmap.2.2.1 hy
          · exact .inr ⟨y, hgt, hhi, hy⟩
        · rintro (⟨y, hlo, hhi, hy⟩ | ⟨y, hlo, hhi, hy⟩)
          · exact ⟨y, hlo, by omega, hy⟩
          · exact ⟨y, by omega, hhi, hy⟩
      have hb : vmas.Unreadable (page + 1) b := hlast _ (by omega)
      rw [or_iff_left fun h => h.1 hmap, or_iff_left fun h => h.1 hmap, and_iff_right hmap,
        and_iff_right hmap]
      constructor
      · intro hno
        have hwhole : ¬(r.UnmapsWhole mapStart mapLast → ¬vmas.Unreadable mapStart page) :=
          fun h => hno ⟨hin, hb, h⟩
        refine ⟨fun h => hwhole h.2.2, fun h => hwhole fun hw hu => ?_⟩
        exact h.2 hw (hsplit.mpr (.inl hu))
      · rintro ⟨hno, hround⟩ ⟨-, -, hfirst⟩
        refine hround ⟨hin, fun hw hu => ?_⟩
        rcases hsplit.mp hu with hu | hu
        · exact hfirst hw hu
        · exact hno ⟨hin, hu, hfirst⟩
    · -- no round has mapped the page, and this one or one before it unmaps it
      rw [or_iff_right fun h => hmap h.1, or_iff_right fun h => hmap h.1, and_iff_right hmap,
        and_iff_right hmap]
      constructor
      · exact fun h => absurd ⟨hin, hlast _ hstart⟩ h.2
      · rintro ⟨⟨-, hno⟩, hround⟩
        exact absurd ⟨hin, fun _ hu => hno ⟨hin, hu⟩⟩ hround
  · have hafter : UnmapHitsAfter vmas r mapStart mapLast b gpuidx page ↔
        UnmapHitsAfter vmas r mapStart mapLast a gpuidx page :=
      iff_of_false (fun h => hin h.1) fun h => hin h.1
    have hhits : UnmapHits vmas r mapStart mapLast b gpuidx page ↔
        UnmapHits vmas r mapStart mapLast a gpuidx page :=
      iff_of_false (fun h => hin h.1) fun h => hin h.1
    rw [hafter, hhits]
    exact (and_iff_left fun h => hin h.1).symm

end Rounds

/-! ## One round of the loop -/

/-- The fields that a validation leaves alone. -/
structure Range.Kept (r r' : Range) : Prop where
  start : r'.start = r.start
  last : r'.last = r.last
  attrs : r'.attrs = r.attrs
  svmBo : r'.svmBo = r.svmBo
  ttmRes : r'.ttmRes = r.ttmRes

theorem Range.Kept.refl (r : Range) : r.Kept r :=
  ⟨rfl, rfl, rfl, rfl, rfl⟩

theorem Range.Kept.trans {r1 r2 r3 : Range} (h : r1.Kept r2) (h' : r2.Kept r3) : r1.Kept r3 :=
  ⟨h'.start.trans h.start, h'.last.trans h.last, h'.attrs.trans h.attrs, h'.svmBo.trans h.svmBo,
    h'.ttmRes.trans h.ttmRes⟩

section Round
variable {p : Process} {vmas : Vmas} {env : ValidateEnv} {id mapStart mapLast : Nat}
  {gpus : List Nat} {pte : Nat → Nat → Bool}

def ValidateEnv.UpdatesOk (env : ValidateEnv) : Prop :=
  ∀ page gpuidx k, (env.map page gpuidx).update k = none

theorem svmRangeDmaMap_frame (p : Process) (env : ValidateEnv) (page offset npages : Nat)
    (gpus : List Nat) : ∀ (r : Range),
    ∃ arrs, (svmRangeDmaMap p env page offset npages gpus r).1 = { r with dmaAddr := arrs } := by
  induction gpus with
  | nil => exact fun r => ⟨r.dmaAddr, rfl⟩
  | cons gpuidx gpus ih =>
    intro r
    have hdev : ∃ arrs, (svmRangeDmaMapDev env page r offset npages gpuidx).1 =
        { r with dmaAddr := arrs } := by
      unfold svmRangeDmaMapDev
      dsimp only
      split
      · exact ⟨r.dmaAddr, rfl⟩
      · exact ⟨_, rfl⟩
    obtain ⟨arrs, harrs⟩ := hdev
    unfold svmRangeDmaMap
    split
    · exact ⟨r.dmaAddr, rfl⟩
    · cases hres : svmRangeDmaMapDev env page r offset npages gpuidx with
      | mk r' err =>
        rw [hres] at harrs
        dsimp only at harrs
        subst harrs
        cases err with
        | some e => exact ⟨arrs, rfl⟩
        | none => exact ih { r with dmaAddr := arrs }

theorem setPtes_iff {gpuidx g x : Nat} {updates : List PteUpdate} :
    setPtes pte gpuidx updates g x = true ↔
      (g = gpuidx ∧ x ∈ updates.flatMap PteUpdate.pages) ∨ pte g x = true := by
  unfold setPtes
  split
  · next h => exact iff_of_true rfl (.inl h)
  · next h => exact (or_iff_right h).symm

theorem MapEnv.applied_eq {menv : MapEnv} (h : ∀ k, menv.update k = none)
    (updates : List PteUpdate) : menv.applied updates = updates := by
  unfold MapEnv.applied
  rw [filter_eq_self.mpr fun u _ => by rw [h]; rfl, zipIdx_map_fst]

theorem svmRangeMapToGpus_ok (hup : env.UpdatesOk) (page offset npages : Nat) (readonly : Bool)
    (gpus : List Nat) : ∀ (r : Range) (pte : Nat → Nat → Bool),
    (svmRangeMapToGpus p env page offset npages readonly gpus r pte).2.2 = none →
    (∃ arrs, (svmRangeMapToGpus p env page offset npages readonly gpus r pte).1 =
        { r with dmaAddr := arrs }) ∧
      ∀ g x, (svmRangeMapToGpus p env page offset npages readonly gpus r pte).2.1 g x = true ↔
        ((g ∈ gpus ∧ env.reaches r g = true) ∧ r.start + offset ≤ x ∧
          x < r.start + offset + npages) ∨ pte g x = true := by
  induction gpus with
  | nil =>
    intro r pte _
    exact ⟨⟨r.dmaAddr, rfl⟩, fun g x => by simp [svmRangeMapToGpus]⟩
  | cons gpuidx gpus ih =>
    intro r pte hok
    unfold svmRangeMapToGpus at hok ⊢
    split at hok
    · cases hok
    · next hdev =>
      rw [if_neg hdev]
      split at hok
      · cases hok
      · next hbind =>
        rw [if_neg hbind]
        split at hok
        · next hreach =>
          rw [if_pos hreach]
          obtain ⟨harrs, hpte⟩ := ih r pte hok
          refine ⟨harrs, fun g x => (hpte g x).trans (or_congr_left ?_)⟩
          rw [mem_cons]
          constructor
          · exact fun h => ⟨⟨.inr h.1.1, h.1.2⟩, h.2⟩
          · rintro ⟨⟨rfl | hg, hr⟩, hx⟩
            · rw [hreach] at hr
              cases hr
            · exact ⟨⟨hg, hr⟩, hx⟩
        · next hreach =>
          rw [if_neg hreach]
          dsimp only at hok ⊢
          -- the updates of one GPU are for each page of the window once
          obtain ⟨-, -, n, -, hpages, hn⟩ := svmRangeMapToGpu_spec (env.map page gpuidx) r offset
            npages readonly ((r.dmaAddr[gpuidx]?).join.getD [])
          rw [hn (hup page gpuidx)] at hpages
          generalize hm : svmRangeMapToGpu (env.map page gpuidx) r offset npages readonly
            ((r.dmaAddr[gpuidx]?).join.getD []) = m at hok hpages ⊢
          split at hok
          · cases hok
          · obtain ⟨⟨arrs, harrs⟩, hpte⟩ := ih _ _ hok
            refine ⟨⟨arrs, harrs⟩, fun g x => (hpte g x).trans ?_⟩
            rw [setPtes_iff, MapEnv.applied_eq (hup page gpuidx), hpages, mem_range'_1,
              mem_cons]
            have hreach' : env.reaches r gpuidx = true := Bool.not_eq_false _ ▸ hreach
            constructor
            · rintro (⟨⟨hg, hr⟩, hx⟩ | ⟨rfl, hx⟩ | h)
              · exact .inl ⟨⟨.inr hg, hr⟩, hx⟩
              · exact .inl ⟨⟨.inl rfl, hreach'⟩, hx⟩
              · exact .inr h
            · rintro (⟨⟨rfl | hg, hr⟩, hx⟩ | h)
              · exact .inr (.inl ⟨rfl, hx⟩)
              · exact .inl ⟨⟨hg, hr⟩, hx⟩
              · exact .inr (.inr h)

theorem unmapFromGpusLoop_ok (ok : Nat → Bool) (start last : Nat) (gpus : List Nat) :
    ∀ (pte : Nat → Nat → Bool), (unmapFromGpusLoop p ok start last gpus pte).2 = none →
    ∀ g x, (unmapFromGpusLoop p ok start last gpus pte).1 g x = true ↔
      pte g x = true ∧ ¬(g ∈ gpus ∧ start ≤ x ∧ x ≤ last) := by
  induction gpus with
  | nil =>
    intro pte _ g x
    simp [unmapFromGpusLoop]
  | cons gpuidx gpus ih =>
    intro pte hok g x
    unfold unmapFromGpusLoop at hok ⊢
    split at hok
    · cases hok
    · next hdev =>
      rw [if_neg hdev]
      split at hok
      · cases hok
      · next hupdate =>
        rw [if_neg hupdate, ih _ hok, mem_cons]
        unfold clearPtes
        by_cases hin : g = gpuidx ∧ start ≤ x ∧ x ≤ last
        · rw [if_pos hin]
          exact iff_of_false (fun h => Bool.false_ne_true h.1) fun h => h.2 ⟨.inl hin.1, hin.2⟩
        · rw [if_neg hin]
          refine and_congr_right fun _ => not_congr ⟨fun h => ⟨.inr h.1, h.2⟩, ?_⟩
          rintro ⟨hg | hg, hx⟩
          · exact absurd ⟨hg, hx⟩ hin
          · exact ⟨hg, hx⟩

theorem unmapVma_ok {r : Range} {mm : Mm} {addr : Nat} (hkept : r.Kept (mm.svms.heap id))
    (hle : r.start ≤ r.last) (hok : (unmapVma p env id mapStart mapLast addr mm).2 = none) :
    let mm' := (unmapVma p env id mapStart mapLast addr mm).1
    let mapped := (mm.svms.heap id).mappedToGpu
    r.Kept (mm'.svms.heap id) ∧
      ((mm'.svms.heap id).mappedToGpu = true ↔ mapped = true ∧ ¬r.UnmapsWhole mapStart mapLast) ∧
      ∀ g x, mm'.pte g x = true ↔ mm.pte g x = true ∧
        ¬(mapped = true ∧ g ∈ r.attrs.gpus ∧ max (mapStart * 4096) r.start ≤ x ∧
          x ≤ min ((mapLast + 1) * 4096) r.last) := by
  unfold unmapVma at hok ⊢
  unfold Range.UnmapsWhole
  rw [hkept.start, hkept.last] at hok ⊢
  generalize max (mapStart * 4096) r.start = s at hok ⊢
  generalize min ((mapLast + 1) * 4096) r.last = e at hok ⊢
  dsimp only at hok ⊢
  by_cases hse : s ≤ e
  · rw [if_pos hse] at hok ⊢
    unfold svmRangeUnmapFromGpus at hok ⊢
    dsimp only at hok ⊢
    by_cases hmapped : (mm.svms.heap id).mappedToGpu = false
    · rw [if_pos hmapped]
      refine ⟨hkept, ?_, fun g x => ?_⟩
      · rw [hmapped]
        exact iff_of_false Bool.false_ne_true fun h => Bool.false_ne_true h.1
      · rw [hmapped]
        exact ⟨fun h => ⟨h, fun h' => Bool.false_ne_true h'.1⟩, fun h => h.1⟩
    · rw [if_neg hmapped] at hok ⊢
      rw [Bool.not_eq_false] at hmapped
      rw [hkept.start, hkept.last]
      have hpte := unmapFromGpusLoop_ok (p := p) _ s e _ mm.pte hok
      rw [hkept.attrs] at hpte ⊢
      refine ⟨?_, ?_, fun g x => (hpte g x).trans ?_⟩
      · rw [Svms.write_heap_self]
        split
        · exact ⟨rfl, rfl, rfl, hkept.svmBo, hkept.ttmRes⟩
        · exact hkept
      · rw [Svms.write_heap_self]
        by_cases hwhole : r.start = s ∧ r.last = e
        · rw [if_pos hwhole]
          refine iff_of_false Bool.false_ne_true fun h => h.2 ?_
          exact ⟨hwhole.1.symm, hwhole.2.symm⟩
        · rw [if_neg hwhole]
          exact iff_of_true hmapped ⟨hmapped, fun h => hwhole ⟨h.1.symm, h.2.symm⟩⟩
      · rw [eq_true hmapped, true_and]
  · rw [if_neg hse]
    refine ⟨hkept, ?_, fun g x => ?_⟩
    · refine ⟨fun h => ⟨h, fun hwhole => hse ?_⟩, fun h => h.1⟩
      rw [hwhole.1, hwhole.2]
      exact hle
    · exact ⟨fun h => ⟨h, fun h' => hse (h'.2.2.1.trans h'.2.2.2)⟩, fun h => h.1⟩

theorem validateVma_ok {r : Range} {mm : Mm} {a b : Nat} {readonly : Bool}
    (hkept : r.Kept (mm.svms.heap id)) (hup : env.UpdatesOk) (hstart : r.start ≤ mapStart)
    (ha : mapStart ≤ a) (hab : a < b) (hb : b ≤ mapLast + 1)
    (hok : (validateVma p env id mapStart mapLast gpus readonly (a * 4096) (b * 4096) mm).2 =
      none) :
    let mm' := (validateVma p env id mapStart mapLast gpus readonly (a * 4096) (b * 4096) mm).1
    r.Kept (mm'.svms.heap id) ∧
      (b ≤ mapLast → (mm'.svms.heap id).mappedToGpu = (mm.svms.heap id).mappedToGpu) ∧
      ∀ g x, mm'.pte g x = true ↔
        ((g ∈ gpus ∧ env.reaches r g = true) ∧ a ≤ x ∧ x < b) ∨ mm.pte g x = true := by
  have hpage : a * 4096 / 4096 = a := Nat.mul_div_cancel a (by decide)
  have hnpages : (b * 4096 - a * 4096) / 4096 = b - a := by omega
  have hreaches : ∀ r' : Range, r.Kept r' → ∀ g, env.reaches r' g = env.reaches r g := by
    intro r' hr' g
    unfold ValidateEnv.reaches
    rw [hr'.svmBo, hr'.ttmRes]
  unfold validateVma at hok ⊢
  rw [hpage, hnpages] at hok ⊢
  dsimp only at hok ⊢
  cases hget : env.getPages a with
  | some e =>
    rw [hget] at hok
    cases hok
  | none =>
    rw [hget] at hok
    dsimp only at hok ⊢
    obtain ⟨arrs, harrs⟩ := svmRangeDmaMap_frame p env a (a - (mm.svms.heap id).start)
      (b - a) gpus (mm.svms.heap id)
    cases hdma : svmRangeDmaMap p env a (a - (mm.svms.heap id).start) (b - a) gpus
        (mm.svms.heap id) with
    | mk prange err =>
      rw [hdma] at hok harrs
      dsimp only at harrs
      have hprange : r.Kept prange := by
        rw [harrs]
        exact hkept.trans ⟨rfl, rfl, rfl, rfl, rfl⟩
      have hmapped : prange.mappedToGpu = (mm.svms.heap id).mappedToGpu := by rw [harrs]
      cases err with
      | some e => cases hok
      | none =>
        dsimp only at hok ⊢
        split at hok
        · cases hok
        · next hvalid =>
          rw [if_neg hvalid]
          rw [hkept.start, hprange.start] at hok ⊢
          -- the part of the range in the request is that of the VMA
          have hfirst : max mapStart (r.start + (a - r.start)) = a := by omega
          have hlast : min mapLast (r.start + (a - r.start) + (b - a) - 1) = b - 1 := by omega
          rw [hfirst, hlast, if_pos (show a ≤ b - 1 by omega)] at hok ⊢
          have hcount : b - 1 - a + 1 = b - a := by omega
          rw [hcount] at hok ⊢
          have hmap := svmRangeMapToGpus_ok (p := p) hup a (a - r.start) (b - a) readonly gpus
            prange mm.pte
          generalize svmRangeMapToGpus p env a (a - r.start) (b - a) readonly gpus prange
            mm.pte = m at hok hmap ⊢
          cases herr : m.2.2 with
          | some e =>
            rw [herr] at hok
            cases hok
          | none =>
            obtain ⟨⟨arrs', harrs'⟩, hpte⟩ := hmap herr
            have hm : r.Kept m.1 := by
              rw [harrs']
              exact hprange.trans ⟨rfl, rfl, rfl, rfl, rfl⟩
            refine ⟨?_, fun hlt => ?_, fun g x => (hpte g x).trans ?_⟩
            · rw [Svms.write_heap_self]
              split
              · exact hm.trans ⟨rfl, rfl, rfl, rfl, rfl⟩
              · exact hm
            · rw [Svms.write_heap_self, if_neg (by omega), harrs']
              exact hmapped
            · rw [hreaches prange hprange, hprange.start]
              have hwindow : r.start + (a - r.start) ≤ x ∧
                  x < r.start + (a - r.start) + (b - a) ↔ a ≤ x ∧ x < b := by omega
              rw [hwindow]

end Round

/-! ## The loop -/

section Loop
variable {p : Process} {vmas : Vmas} {env : ValidateEnv} {id mapStart mapLast gpuidx : Nat}
  {gpus : List Nat} {r : Range} {pte : Nat → Nat → Bool}

theorem vmaLookup_some {addr : Nat} {v : Vma} (h : vmaLookup vmas addr = some v) :
    v ∈ vmas.list ∧ v.vmStart ≤ addr ∧ addr < v.vmEnd := by
  have hv := find?_some h
  rw [decide_eq_true_eq] at hv
  exact ⟨mem_of_find?_eq_some h, hv⟩

theorem vmaLookup_of_mem {addr : Nat} {v : Vma} (hmem : v ∈ vmas.list) (hlo : v.vmStart ≤ addr)
    (hhi : addr < v.vmEnd) : vmaLookup vmas addr = some v := by
  cases hfound : vmaLookup vmas addr with
  | none =>
    have hno := find?_eq_none.mp hfound v hmem
    rw [decide_eq_true_eq] at hno
    exact absurd ⟨hlo, hhi⟩ hno
  | some w =>
    obtain ⟨hw, hwlo, hwhi⟩ := vmaLookup_some hfound
    simp only [Vma.vmStart, Vma.vmEnd] at hlo hhi hwlo hwhi
    obtain ⟨i, hi, rfl⟩ := mem_iff_getElem.mp hmem
    obtain ⟨j, hj, rfl⟩ := mem_iff_getElem.mp hw
    have hsorted := pairwise_iff_getElem.mp vmas.sorted
    rcases lt_trichotomy i j with hlt | rfl | hgt
    · have := hsorted i j hi hj hlt
      omega
    · rfl
    · have := hsorted j i hj hi hgt
      omega

/-- The state after the rounds below page `a`. -/
structure ValidateInv (vmas : Vmas) (r : Range) (id mapStart mapLast : Nat)
    (access : Nat → Prop) (pte : Nat → Nat → Bool) (a : Nat) (mm : Mm) : Prop where
  kept : r.Kept (mm.svms.heap id)
  mapped : a ≤ mapLast → ((mm.svms.heap id).mappedToGpu = true ↔
    r.mappedToGpu = true ∧ (r.UnmapsWhole mapStart mapLast → ¬vmas.Unreadable mapStart a))
  pte : ∀ g x, mm.pte g x = true ↔ MappedUpTo vmas r mapStart mapLast a g x access pte

theorem ValidateInv.round {mm : Mm} {a b : Nat} {v : Vma}
    (h : ValidateInv vmas r id mapStart mapLast (fun g => g ∈ gpus ∧ env.reaches r g = true)
      pte a mm)
    (hup : env.UpdatesOk) (hstart : r.start ≤ mapStart) (ha : mapStart ≤ a) (hab : a < b)
    (hb : b ≤ mapLast + 1) (hlast : mapLast ≤ r.last)
    (hread : ∀ y, a ≤ y → y < b → (vmas.Readable y ↔ v.read = true)) :
    let m := if v.read then
        validateVma p env id mapStart mapLast gpus (!v.write) (a * 4096) (b * 4096) mm
      else unmapVma p env id mapStart mapLast (a * 4096) mm
    m.2 = none →
      ValidateInv vmas r id mapStart mapLast (fun g => g ∈ gpus ∧ env.reaches r g = true) pte b
        m.1 := by
  cases hv : v.read with
  | true =>
    rw [if_pos rfl]
    intro m hok
    have hreadable : ∀ y, a ≤ y → y < b → vmas.Readable y :=
      fun y hlo hhi => (hread y hlo hhi).mpr hv
    obtain ⟨hkept, hmapped, hpte⟩ := validateVma_ok h.kept hup hstart ha hab hb hok
    refine ⟨hkept, fun hlt => ?_, fun g x => ?_⟩
    · rw [show (m.1.svms.heap id).mappedToGpu = _ from hmapped hlt,
        h.mapped (by omega), Vmas.unreadable_of_readable hreadable hab.le]
    · rw [MappedUpTo.readable ha hab.le hreadable, ← h.pte]
      exact hpte g x
  | false =>
    rw [if_neg Bool.false_ne_true]
    intro m hok
    have hunreadable : ∀ y, a ≤ y → y < b → ¬vmas.Readable y := fun y hlo hhi hy => by
      rw [(hread y hlo hhi).mp hy] at hv
      cases hv
    obtain ⟨hkept, hmapped, hpte⟩ := unmapVma_ok h.kept (by omega) hok
    have hcur := h.mapped (by omega)
    refine ⟨hkept, fun _ => hmapped.trans ?_, fun g x => (hpte g x).trans ?_⟩
    · have hfound : vmas.Unreadable mapStart b := ⟨a, ha, hab, hunreadable a (le_refl a) hab⟩
      rw [hcur]
      constructor
      · exact fun h => ⟨h.1.1, fun hwhole => absurd hwhole h.2⟩
      · exact fun h => ⟨⟨h.1, fun hwhole => absurd hfound (h.2 hwhole)⟩,
          fun hwhole => h.2 hwhole hfound⟩
    · rw [MappedUpTo.unreadable ha hab hunreadable, ← h.pte]
      refine and_congr_right fun _ => not_congr ?_
      unfold Range.InUnmapped
      rw [hcur]
      constructor
      · exact fun h => ⟨⟨h.1.1, h.2⟩, h.1.2⟩
      · exact fun h => ⟨⟨h.1.1, h.2⟩, h.1.2⟩

theorem validateLoop_mapped (hup : env.UpdatesOk) (hstart : r.start ≤ mapStart)
    (hlast : mapLast ≤ r.last) (rounds : Nat) : ∀ (a : Nat) (mm : Mm), mapStart ≤ a →
    a ≤ mapLast + 1 → mapLast + 1 - a ≤ rounds →
    ValidateInv vmas r id mapStart mapLast (fun g => g ∈ gpus ∧ env.reaches r g = true) pte a mm →
    (validateLoop p vmas env id mapStart mapLast gpus rounds (a * 4096) mm).2 = none →
    ValidateInv vmas r id mapStart mapLast (fun g => g ∈ gpus ∧ env.reaches r g = true) pte
      (mapLast + 1) (validateLoop p vmas env id mapStart mapLast gpus rounds (a * 4096) mm).1 := by
  induction rounds with
  | zero =>
    intro a mm _ hle hrounds hinv _
    obtain rfl : a = mapLast + 1 := by omega
    exact hinv
  | succ rounds ih =>
    intro a mm ha hle hrounds hinv hok
    unfold validateLoop at hok ⊢
    by_cases hend : (mapLast + 1) * 4096 ≤ a * 4096
    · obtain rfl : a = mapLast + 1 := by omega
      rw [if_pos hend]
      exact hinv
    rw [if_neg hend] at hok ⊢
    cases hvma : vmaLookup vmas (a * 4096) with
    | none =>
      rw [hvma] at hok
      cases hok
    | some v =>
      rw [hvma] at hok
      obtain ⟨hmem, hlo, hhi⟩ := vmaLookup_some hvma
      have hvlo : v.start ≤ a := Nat.le_of_mul_le_mul_right hlo (by decide)
      have hvhi : a < v.stop := Nat.lt_of_mul_lt_mul_right hhi
      have hnext : min v.vmEnd ((mapLast + 1) * 4096) = min v.stop (mapLast + 1) * 4096 :=
        Nat.mul_min_mul_right v.stop (mapLast + 1) 4096
      have hread : ∀ y, a ≤ y → y < min v.stop (mapLast + 1) →
          (vmas.Readable y ↔ v.read = true) := by
        intro y hy hy'
        have hfound : vmaLookup vmas (y * 4096) = some v :=
          vmaLookup_of_mem hmem (Nat.mul_le_mul_right 4096 (hvlo.trans hy))
            (Nat.mul_lt_mul_of_pos_right (Nat.lt_min.mp hy').1 (by decide))
        unfold Vmas.Readable
        rw [hfound]
        rfl
      dsimp only at hok ⊢
      rw [hnext] at hok ⊢
      -- the round is for the pages of `v` that are left, up to the end of the request
      have hround := hinv.round (p := p) (v := v) hup hstart ha (b := min v.stop (mapLast + 1))
        (by omega) (by omega) hlast hread
      dsimp only at hround
      generalize (if v.read = true then _ else _ : Mm × Option Errno) = m at hok hround ⊢
      cases herr : m.2 with
      | some e =>
        rw [herr] at hok
        cases hok
      | none =>
        rw [herr] at hok
        exact ih _ _ (by omega) (by omega) (by omega) (hround herr) hok

end Loop

/-! ## The whole function -/

def AccessSet (p : Process) (env : ValidateEnv) (r : Range) (gpuidx g : Nat) : Prop :=
  ∃ bitmap, validateBitmap p r gpuidx = .ok bitmap ∧ g ∈ setBits bitmap ∧ env.reaches r g = true

/-- The entries `pte'` are those that the validation of the pages from `mapStart` to `mapLast`
should leave of `pte`. -/
structure Validated (p : Process) (vmas : Vmas) (env : ValidateEnv) (r : Range)
    (mapStart mapLast gpuidx : Nat) (pte pte' : Nat → Nat → Bool) : Prop where
  mapped : ∀ g page, AccessSet p env r gpuidx g → mapStart ≤ page ∧ page ≤ mapLast →
    (pte' g page = true ↔ vmas.Readable page)
  outside : ∀ g page, ¬(mapStart ≤ page ∧ page ≤ mapLast) → pte' g page = pte g page

/-- The interval that is unmapped does no harm: no page that can be read is unmapped after it
was mapped, every mapped page that cannot be read is unmapped, and no mapped page outside of
the request is. -/
structure ValidateOk (p : Process) (vmas : Vmas) (env : ValidateEnv) (r : Range)
    (mapStart mapLast gpuidx : Nat) (pte : Nat → Nat → Bool) : Prop where
  readable : ∀ g page, AccessSet p env r gpuidx g → mapStart ≤ page ∧ page ≤ mapLast →
    vmas.Readable page → ¬UnmapHitsAfter vmas r mapStart mapLast (mapLast + 1) g page
  unreadable : ∀ g page, AccessSet p env r gpuidx g → mapStart ≤ page ∧ page ≤ mapLast →
    ¬vmas.Readable page → pte g page = true →
    UnmapHits vmas r mapStart mapLast (mapLast + 1) g page
  outside : ∀ g page, ¬(mapStart ≤ page ∧ page ≤ mapLast) → pte g page = true →
    ¬UnmapHits vmas r mapStart mapLast (mapLast + 1) g page

section Validate
variable {p : Process} {vmas : Vmas} {env : ValidateEnv} {id mapStart mapLast gpuidx : Nat}
  {mm : Mm}

theorem svmRangeValidateAndMap_ok
    (hok : (svmRangeValidateAndMap p vmas env id mapStart mapLast gpuidx mm).2 = none) :
    ∃ bitmap, validateBitmap p (mm.svms.heap id) gpuidx = .ok bitmap ∧
      ((bitmap = ∅ ∧
          (svmRangeValidateAndMap p vmas env id mapStart mapLast gpuidx mm).1 = mm) ∨
        (bitmap ≠ ∅ ∧ svmRangeValidateAndMap p vmas env id mapStart mapLast gpuidx mm =
          validateLoop p vmas env id mapStart mapLast (setBits bitmap) (mapLast + 1 - mapStart)
            (mapStart * 4096) mm)) := by
  unfold svmRangeValidateAndMap at hok ⊢
  dsimp only at hok ⊢
  split at hok
  · cases hok
  · next halloc =>
    rw [if_neg halloc]
    cases hbitmap : validateBitmap p (mm.svms.heap id) gpuidx with
    | error e =>
      rw [hbitmap] at hok
      cases hok
    | ok bitmap =>
      rw [hbitmap] at hok
      refine ⟨bitmap, rfl, ?_⟩
      dsimp only at hok ⊢
      by_cases hempty : bitmap = ∅
      · rw [if_pos hempty]
        exact .inl ⟨hempty, rfl⟩
      · rw [if_neg hempty] at hok ⊢
        split at hok
        · cases hok
        · next hbo =>
          rw [if_neg hbo]
          exact .inr ⟨hempty, rfl⟩

theorem svmRangeValidateAndMap_mapped (hup : env.UpdatesOk)
    (hstart : (mm.svms.heap id).start ≤ mapStart) (hle : mapStart ≤ mapLast)
    (hlast : mapLast ≤ (mm.svms.heap id).last)
    (hok : (svmRangeValidateAndMap p vmas env id mapStart mapLast gpuidx mm).2 = none)
    (hgpu : validateBitmap p (mm.svms.heap id) gpuidx ≠ .ok ∅) (g page : Nat) :
    (svmRangeValidateAndMap p vmas env id mapStart mapLast gpuidx mm).1.pte g page = true ↔
      MappedUpTo vmas (mm.svms.heap id) mapStart mapLast (mapLast + 1) g page
        (AccessSet p env (mm.svms.heap id) gpuidx) mm.pte := by
  obtain ⟨bitmap, hbitmap, ⟨rfl, -⟩ | ⟨-, heq⟩⟩ := svmRangeValidateAndMap_ok hok
  · exact absurd hbitmap hgpu
  · rw [heq] at hok ⊢
    have haccess : AccessSet p env (mm.svms.heap id) gpuidx =
        fun g => g ∈ setBits bitmap ∧ env.reaches (mm.svms.heap id) g = true := by
      funext g
      refine propext ⟨?_, fun h => ⟨bitmap, hbitmap, h⟩⟩
      rintro ⟨bitmap', hbitmap', h⟩
      rw [hbitmap] at hbitmap'
      cases hbitmap'
      exact h
    have hinit : ValidateInv vmas (mm.svms.heap id) id mapStart mapLast
        (fun g => g ∈ setBits bitmap ∧ env.reaches (mm.svms.heap id) g = true) mm.pte mapStart
        mm := by
      refine ⟨Range.Kept.refl _, fun _ => ?_, fun g x => MappedUpTo.start.symm⟩
      refine ⟨fun h => ⟨h, ?_⟩, fun h => h.1⟩
      rintro - ⟨y, hlo, hhi, -⟩
      omega
    rw [haccess]
    exact (validateLoop_mapped hup hstart hlast _ mapStart mm (le_refl _) (by omega)
      (le_refl _) hinit hok).pte g page

/-- A validation that succeeds maps the pages that can be read, unmaps the others and leaves
the rest alone exactly when the interval that it unmaps does no harm. -/
theorem validated_iff (p : Process) (vmas : Vmas) (env : ValidateEnv) (hup : env.UpdatesOk)
    (hstart : (mm.svms.heap id).start ≤ mapStart) (hle : mapStart ≤ mapLast)
    (hlast : mapLast ≤ (mm.svms.heap id).last)
    (hok : (svmRangeValidateAndMap p vmas env id mapStart mapLast gpuidx mm).2 = none) :
    Validated p vmas env (mm.svms.heap id) mapStart mapLast gpuidx mm.pte
        (svmRangeValidateAndMap p vmas env id mapStart mapLast gpuidx mm).1.pte ↔
      validateBitmap p (mm.svms.heap id) gpuidx = .ok ∅ ∨
        ValidateOk p vmas env (mm.svms.heap id) mapStart mapLast gpuidx mm.pte := by
  by_cases hgpu : validateBitmap p (mm.svms.heap id) gpuidx = .ok ∅
  · obtain ⟨bitmap, hbitmap, ⟨-, heq⟩ | ⟨hne, -⟩⟩ := svmRangeValidateAndMap_ok hok
    · rw [heq]
      refine iff_of_true ⟨?_, fun _ _ _ => rfl⟩ (.inl hgpu)
      rintro g page ⟨bitmap', hbitmap', hg, -⟩
      rw [hgpu] at hbitmap'
      cases hbitmap'
      simp [setBits] at hg
    · rw [hgpu] at hbitmap
      cases hbitmap
      exact absurd rfl hne
  rw [or_iff_right hgpu]
  have hpte := svmRangeValidateAndMap_mapped hup hstart hle hlast hok hgpu
  generalize (svmRangeValidateAndMap p vmas env id mapStart mapLast gpuidx mm).1.pte =
    pte' at hpte ⊢
  have hin : ∀ {page}, mapStart ≤ page ∧ page ≤ mapLast → page < mapLast + 1 :=
    fun h => Nat.lt_succ_of_le h.2
  constructor
  · intro h
    refine ⟨fun g page hg hpage hread hhits => ?_, fun g page hg hpage hread hmapped => ?_,
      fun g page hpage hmapped hhits => ?_⟩
    · rcases (hpte g page).mp ((h.mapped g page hg hpage).mpr hread) with ⟨-, hno⟩ | ⟨hcond, -⟩
      · exact hno hhits
      · exact hcond ⟨hpage.1, hin hpage, hread, hg⟩
    · by_contra hno
      refine hread ((h.mapped g page hg hpage).mp ((hpte g page).mpr (.inr ⟨?_, hmapped, hno⟩)))
      exact fun hcond => hread hcond.2.2.1
    · rw [← h.outside g page hpage] at hmapped
      rcases (hpte g page).mp hmapped with ⟨hcond, -⟩ | ⟨-, -, hno⟩
      · exact hpage ⟨hcond.1, Nat.le_of_lt_succ hcond.2.1⟩
      · exact hno hhits
  · intro h
    refine ⟨fun g page hg hpage => ?_, fun g page hpage => ?_⟩
    · rw [hpte g page]
      constructor
      · rintro (⟨hcond, -⟩ | ⟨hcond, hmapped, hno⟩)
        · exact hcond.2.2.1
        · by_contra hread
          exact hno (h.unreadable g page hg hpage hread hmapped)
      · intro hread
        exact .inl ⟨⟨hpage.1, hin hpage, hread, hg⟩, h.readable g page hg hpage hread⟩
    · have hcond : ¬(mapStart ≤ page ∧ page < mapLast + 1 ∧ vmas.Readable page ∧
          AccessSet p env (mm.svms.heap id) gpuidx g) :=
        fun hc => hpage ⟨hc.1, Nat.le_of_lt_succ hc.2.1⟩
      rw [Bool.eq_iff_iff, hpte g page]
      constructor
      · rintro (⟨hc, -⟩ | ⟨-, hmapped, -⟩)
        · exact absurd hc hcond
        · exact hmapped
      · exact fun hmapped => .inr ⟨hcond, hmapped, h.outside g page hpage hmapped⟩

end Validate

/-! ## A hole that cannot be read -/

def exValidateProcess : Process :=
  { xnackEnabled := false
    gpuIds := [1]
    bitmapSupported := {0}
    maxSvmRangePages := 512
    maxSvmRangePages_pos := maxSvmRangePages_512 }

def exValidateRange : Range :=
  { svmRangeNew exValidateProcess 16 31 with
    attrs := (defaultAttrs exValidateProcess).setAccess 0 .access
    mappedToGpu := true }

def exValidateMm : Mm :=
  { svms := { heap := fun _ => exValidateRange, next := 1, list := [0], tree := [0] }
    deferred := []
    pte := fun g x => g = 0 && 16 ≤ x && x ≤ 31 }

/-- Pages 16 to 19 can be read, and those from 20 to 31 can be if `read` is set. -/
def exVmas (read : Bool) : Vmas :=
  { list := [⟨16, 20, true, true⟩, ⟨20, 32, read, read⟩]
    sorted := by simp }

def exValidateEnv : ValidateEnv :=
  { kzalloc := true
    getPages := fun _ => none
    getPagesDone := fun _ => false
    split := fun _ => false
    kvcalloc := fun _ _ => true
    dmaPage := fun _ page => (UInt64.ofNat (page * 4096), none)
    bind := fun _ _ => true
    reach := fun _ => true
    map := fun _ _ =>
      { node :=
          { gc := .other, connectedToCpu := false, revId := 0, isApu := false, mtypeLocal := 0
            numPossibleNodes := 1, mapMtype := none }
        bo := { sameNode := false, sameAdev := false, sameHive := false, sameMem := false }
        vramBase := 0
        flushTlb := false
        update := fun _ => none
        pdes := none }
    fence := fun _ _ => none
    unmap := fun _ _ => true }

theorem exValidate_ok (read : Bool) : (svmRangeValidateAndMap exValidateProcess (exVmas read)
    exValidateEnv 0 16 31 maxGpuInstance exValidateMm).2 = none := by
  cases read
  · decide +kernel
  · decide +kernel

theorem exVmas_readable {page : Nat} (h : 16 ≤ page ∧ page ≤ 31) :
    (exVmas true).Readable page := by
  have hall : ∀ k < 16, (exVmas true).Readable (16 + k) := by decide
  obtain ⟨k, rfl⟩ := Nat.exists_eq_add_of_le h.1
  exact hall k (by omega)

theorem validated_iff_exValidate :
    Validated exValidateProcess (exVmas true) exValidateEnv exValidateRange 16 31 maxGpuInstance
      exValidateMm.pte (svmRangeValidateAndMap exValidateProcess (exVmas true) exValidateEnv 0 16
        31 maxGpuInstance exValidateMm).1.pte := by
  have hno : ¬(exVmas true).Unreadable 16 32 := by
    rintro ⟨page, hlo, hhi, hread⟩
    exact hread (exVmas_readable ⟨hlo, Nat.le_of_lt_succ hhi⟩)
  refine (validated_iff exValidateProcess (exVmas true) exValidateEnv (fun _ _ _ => rfl)
    (by decide) (by decide) (by decide) (exValidate_ok true)).mpr
    (.inr ⟨fun g page _ hpage _ hhits => ?_, fun g page _ hpage hread _ => ?_,
      fun g page _ _ hhits => hno hhits.2⟩)
  · obtain ⟨-, ⟨y, hlo, hhi, hread⟩, -⟩ := hhits
    exact hno ⟨y, by omega, hhi, hread⟩
  · exact absurd (exVmas_readable hpage) hread

/-- Pages 20 to 31 cannot be read: the interval that is passed begins with page 65536, so
nothing is unmapped, and page 20 stays mapped. -/
theorem validate_broken :
    (svmRangeValidateAndMap exValidateProcess (exVmas false) exValidateEnv 0 16 31 maxGpuInstance
        exValidateMm).2 = none ∧
      ¬Validated exValidateProcess (exVmas false) exValidateEnv exValidateRange 16 31
        maxGpuInstance exValidateMm.pte (svmRangeValidateAndMap exValidateProcess (exVmas false)
          exValidateEnv 0 16 31 maxGpuInstance exValidateMm).1.pte := by
  refine ⟨exValidate_ok false, fun h => ?_⟩
  have haccess : AccessSet exValidateProcess exValidateEnv exValidateRange maxGpuInstance 0 :=
    ⟨_, rfl, by decide, by decide⟩
  have hmapped : (svmRangeValidateAndMap exValidateProcess (exVmas false) exValidateEnv 0 16 31
      maxGpuInstance exValidateMm).1.pte 0 20 = true := by decide +kernel
  exact absurd ((h.mapped 0 20 haccess (by decide)).mp hmapped) (by decide)

end Amdkfd.Svm
