import Amdkfd.VmMap.Invariant

/-!
# Clearing an interval of a VM

`amdgpu_vm_bo_clear_mappings` gathers the mappings that overlap an interval, puts the pieces
outside of it on the `invalids` lists, frees the rest, and inserts the pieces in the tree.
-/

namespace Amdkfd.VmMap

open List

/-! ## Clearing an interval -/

section Clear
variable {dev : Device} {vm : Vm} {pageShift saddr eaddr : Nat}

/-- The pieces that `amdgpu_vm_bo_clear_mappings` leaves of a mapping. -/
def piecesOf (pageShift saddr eaddr : Nat) (t : Mapping) : List Mapping :=
  (if eaddr < t.last then [t.after pageShift eaddr] else []) ++
    if t.start < saddr then [t.before saddr] else []

theorem mem_piecesOf {t p : Mapping} : p ∈ piecesOf pageShift saddr eaddr t ↔
    eaddr < t.last ∧ p = t.after pageShift eaddr ∨ t.start < saddr ∧ p = t.before saddr := by
  unfold piecesOf
  rw [mem_append]
  refine or_congr ?_ ?_ <;> split <;> simp [*]

theorem overlaps_iff {m : Mapping} : m.overlaps saddr eaddr = true ↔
    saddr ≤ m.last ∧ m.start ≤ eaddr := by
  simp [Mapping.overlaps]

theorem piecesOf_outside {t p : Mapping} (hp : p ∈ piecesOf pageShift saddr eaddr t) :
    p.overlaps saddr eaddr = false := by
  refine Bool.eq_false_iff.mpr fun hov => ?_
  obtain ⟨hlo, hhi⟩ := overlaps_iff.mp hov
  rcases mem_piecesOf.mp hp with ⟨-, rfl⟩ | ⟨hlt, rfl⟩
  · exact absurd hhi (Nat.not_succ_le_self eaddr)
  · change saddr ≤ saddr - 1 at hlo
    omega

theorem modify_modify (vm : Vm) (b : Nat) (f g : BoVa → BoVa) :
    (vm.modify b f).modify b g = vm.modify b fun v => g (f v) := by
  unfold Vm.modify
  simp [Function.update_idem, Function.update_self, Function.comp_def]

variable {b : Nat}

theorem gather_vm (c : ClearState) {t : Mapping} (hb : t.boVa = some b) :
    (gather pageShift saddr eaddr c t).vm = c.vm.modify b fun v =>
      { v with
        valids := remove t v.valids
        invalids := remove t (piecesOf pageShift saddr eaddr t ++ v.invalids) } := by
  have hbefore : (t.before saddr).boVa = some b := hb
  have hafter : (t.after pageShift eaddr).boVa = some b := hb
  unfold gather piecesOf
  by_cases h1 : t.start < saddr <;> by_cases h2 : eaddr < t.last <;>
    simp only [h1, h2, if_true, if_false, hb, addPiece, hbefore, hafter, listDel, modify_modify,
      cons_append, nil_append]

/-- What the gathering loop has done to the lists when it has seen the mappings `ts`. -/
structure Gathered (pageShift saddr eaddr : Nat) (vm vm' : Vm) (ts : List Mapping) : Prop where
  pte : vm'.pte = vm.pte
  va : vm'.va = vm.va
  freed : vm'.freed = vm.freed
  alive : ∀ b v, vm.boVa b = some v → ∃ v', vm'.boVa b = some v'
  lists : ∀ b v', vm'.boVa b = some v' → ∃ v, vm.boVa b = some v ∧
    (v'.bo = v.bo ∧ v'.moved = v.moved ∧ v'.cleared = v.cleared) ∧
    (∀ m, m ∈ v'.valids ↔ m ∈ v.valids ∧ ¬(m ∈ ts ∧ m.boVa = some b)) ∧
    ∀ m, m ∈ v'.invalids ↔ (m ∈ v.invalids ∧ ¬(m ∈ ts ∧ m.boVa = some b)) ∨
      ∃ t ∈ ts, t.boVa = some b ∧ m ∈ piecesOf pageShift saddr eaddr t

theorem Gathered.refl (vm : Vm) : Gathered pageShift saddr eaddr vm vm [] :=
  ⟨rfl, rfl, rfl, fun _ v hv => ⟨v, hv⟩, fun _ v' hv' =>
    ⟨v', hv', ⟨rfl, rfl, rfl⟩, fun m => by simp, fun m => by simp⟩⟩

theorem Gathered.cons {vm1 vm' : Vm} {t : Mapping} {ts : List Mapping} (hb : t.boVa = some b)
    (hov : ∀ x ∈ t :: ts, x.overlaps saddr eaddr = true) (hstep : vm1 = vm.modify b fun v =>
      { v with
        valids := remove t v.valids
        invalids := remove t (piecesOf pageShift saddr eaddr t ++ v.invalids) })
    (h : Gathered pageShift saddr eaddr vm1 vm' ts) :
    Gathered pageShift saddr eaddr vm vm' (t :: ts) := by
  have hpiece : ∀ p ∈ piecesOf pageShift saddr eaddr t, p ∉ t :: ts := by
    intro p hp hmem
    have hout := piecesOf_outside hp
    rw [hov p hmem] at hout
    cases hout
  -- For an `amdgpu_bo_va` other than its owner the mapping is not in `ts`.
  have hmem : ∀ c, ∀ m : Mapping, (m ∈ t :: ts ∧ m.boVa = some c) ↔
      (c = b ∧ m = t) ∨ (m ∈ ts ∧ m.boVa = some c) := by
    intro c m
    rw [mem_cons]
    constructor
    · rintro ⟨rfl | hm, hc⟩
      · exact .inl ⟨Option.some.inj (hc.symm.trans hb), rfl⟩
      · exact .inr ⟨hm, hc⟩
    · rintro (⟨rfl, rfl⟩ | ⟨hm, hc⟩)
      · exact ⟨.inl rfl, hb⟩
      · exact ⟨.inr hm, hc⟩
  have hex : ∀ c, ∀ m : Mapping,
      (∃ u ∈ t :: ts, u.boVa = some c ∧ m ∈ piecesOf pageShift saddr eaddr u) ↔
      (c = b ∧ m ∈ piecesOf pageShift saddr eaddr t) ∨
        ∃ u ∈ ts, u.boVa = some c ∧ m ∈ piecesOf pageShift saddr eaddr u := by
    intro c m
    rw [exists_mem_cons_iff]
    refine or_congr_left (and_congr_left fun _ => ?_)
    rw [hb]
    exact ⟨fun h => (Option.some.inj h).symm, fun h => congrArg some h.symm⟩
  refine ⟨h.pte.trans (by rw [hstep]; rfl), h.va.trans (by rw [hstep]; rfl),
    h.freed.trans (by rw [hstep]; rfl), fun c v hv => ?_, fun c v' hv' => ?_⟩
  · by_cases hc : c = b
    · subst hc
      exact h.alive c _ (by rw [hstep, modify_boVa_self, hv]; rfl)
    · exact h.alive c v (by rw [hstep, modify_boVa_of_ne _ hc, hv])
  · obtain ⟨v1, hv1, hsame, hvalids, hinvalids⟩ := h.lists c v' hv'
    rw [hstep] at hv1
    simp only [hmem, hex]
    rcases modify_cases hv1 with ⟨rfl, v, hv, rfl⟩ | ⟨hc, hv⟩
    · refine ⟨v, hv, hsame, fun m => ?_, fun m => ?_⟩
      · rw [hvalids, mem_remove]
        simp only [true_and, not_or, and_assoc]
      · rw [hinvalids, mem_remove, mem_append]
        constructor
        · rintro (⟨⟨hm | hm, hne⟩, hnot⟩ | hm)
          · exact .inr (.inl ⟨rfl, hm⟩)
          · exact .inl ⟨hm, fun h => h.elim (fun h => hne h.2) hnot⟩
          · exact .inr (.inr hm)
        · rintro (⟨hm, hnot⟩ | ⟨-, hm⟩ | hm)
          · exact .inl ⟨⟨.inr hm, fun h => hnot (.inl ⟨rfl, h⟩)⟩, fun h => hnot (.inr h)⟩
          · have hout := hpiece m hm
            rw [mem_cons, not_or] at hout
            exact .inl ⟨⟨.inl hm, hout.1⟩, fun h => hout.2 h.1⟩
          · exact .inr hm
    · refine ⟨v1, hv, hsame, fun m => ?_, fun m => ?_⟩
      · simp only [hc, false_and, false_or, hvalids]
      · simp only [hc, false_and, false_or, hinvalids]

variable (ts : List Mapping)

theorem foldl_gather : ∀ c : ClearState,
    (∀ t ∈ ts, t.overlaps saddr eaddr = true) → (∀ t ∈ ts, ∃ b, t.boVa = some b) →
    Gathered pageShift saddr eaddr c.vm (ts.foldl (gather pageShift saddr eaddr) c).vm ts := by
  induction ts with
  | nil => exact fun c _ _ => .refl c.vm
  | cons t ts ih =>
    intro c hov hown
    obtain ⟨b, hb⟩ := hown t mem_cons_self
    exact (ih (gather pageShift saddr eaddr c t) (fun x hx => hov x (mem_cons_of_mem _ hx))
      fun x hx => hown x (mem_cons_of_mem _ hx)).cons hb hov (gather_vm c hb)

theorem foldl_lastSet {σ α β : Type} {f : σ → α → σ} {get : σ → Option β} {sel : α → Option β}
    (hf : ∀ c t, get (f c t) = (sel t).or (get c)) (ts : List α) (c : σ) :
    (∀ p, get (ts.foldl f c) = some p → get c = some p ∨ ∃ t ∈ ts, sel t = some p) ∧
      ((get c).isSome ∨ (∃ t ∈ ts, (sel t).isSome) → (get (ts.foldl f c)).isSome) := by
  induction ts generalizing c with
  | nil => simp
  | cons t ts ih =>
    obtain ⟨hfrom, hset⟩ := ih (f c t)
    rw [hf] at hfrom hset
    constructor
    · intro p hp
      rcases hfrom p hp with h | ⟨u, hu, hsel⟩
      · rcases Option.or_eq_some_iff.mp h with h | ⟨-, h⟩
        · exact .inr ⟨t, mem_cons_self, h⟩
        · exact .inl h
      · exact .inr ⟨u, mem_cons_of_mem _ hu, hsel⟩
    · rintro (h | ⟨u, hu, hsel⟩)
      · exact hset (.inl (by rw [Option.isSome_or, h, Bool.or_true]))
      · rcases mem_cons.mp hu with rfl | hu
        · exact hset (.inl (by rw [Option.isSome_or, hsel, Bool.true_or]))
        · exact hset (.inr ⟨u, hu, hsel⟩)

theorem gather_before (c : ClearState) (t : Mapping) : (gather pageShift saddr eaddr c t).before =
    (if t.start < saddr then some (t.before saddr) else none).or c.before := by
  unfold gather
  by_cases h1 : t.start < saddr <;> by_cases h2 : eaddr < t.last <;> simp [h1, h2]

theorem gather_after (c : ClearState) (t : Mapping) : (gather pageShift saddr eaddr c t).after =
    (if eaddr < t.last then some (t.after pageShift eaddr) else none).or c.after := by
  unfold gather
  by_cases h1 : t.start < saddr <;> by_cases h2 : eaddr < t.last <;> simp [h1, h2]

theorem foldl_gather_removed (c : ClearState) :
    (ts.foldl (gather pageShift saddr eaddr) c).removed = ts.reverse ++ c.removed := by
  induction ts generalizing c with
  | nil => rfl
  | cons t ts ih =>
    have hremoved : (gather pageShift saddr eaddr c t).removed = t :: c.removed := by
      unfold gather
      by_cases h1 : t.start < saddr <;> by_cases h2 : eaddr < t.last <;> simp [h1, h2]
    rw [foldl_cons, ih, hremoved, reverse_cons, append_assoc]
    rfl

theorem foldl_freeRemoved (vm : Vm) :
    let vm' := ts.foldl (freeRemoved saddr eaddr) vm
    vm'.pte = vm.pte ∧ vm'.boVa = vm.boVa ∧ (∀ x, x ∈ vm'.va ↔ x ∈ vm.va ∧ x ∉ ts) ∧
      ∀ f, f ∈ vm'.freed ↔ f ∈ vm.freed ∨ ∃ t ∈ ts, f = t.clip saddr eaddr := by
  induction ts generalizing vm with
  | nil => simp
  | cons t ts ih =>
    obtain ⟨hpte, hboVa, hva, hfreed⟩ := ih (freeRemoved saddr eaddr vm t)
    refine ⟨hpte, hboVa, fun x => ?_, fun f => ?_⟩
    · rw [foldl_cons, hva, freeRemoved, mem_remove, mem_cons, not_or, and_assoc]
    · rw [foldl_cons, hfreed, freeRemoved, mem_cons, exists_mem_cons_iff]
      exact or_assoc.trans or_left_comm

theorem insertPiece_spec (vm : Vm) (p : Option Mapping) :
    (insertPiece vm p).pte = vm.pte ∧ (insertPiece vm p).boVa = vm.boVa ∧
      (insertPiece vm p).freed = vm.freed ∧
      ∀ x, x ∈ (insertPiece vm p).va ↔ p = some x ∨ x ∈ vm.va := by
  cases p with
  | none => simp [insertPiece]
  | some m => simp [insertPiece, eq_comm]

theorem piece_unique (hapart : ∀ t ∈ vm.va, ∀ u ∈ vm.va, t ≠ u → t.Apart u) {t u : Mapping}
    (ht : t ∈ vm.va) (hu : u ∈ vm.va) (htov : t.overlaps saddr eaddr = true)
    (huov : u.overlaps saddr eaddr = true)
    (hside : t.start < saddr ∧ u.start < saddr ∨ eaddr < t.last ∧ eaddr < u.last) : t = u := by
  by_contra hne
  obtain ⟨ht1, ht2⟩ := overlaps_iff.mp htov
  obtain ⟨hu1, hu2⟩ := overlaps_iff.mp huov
  rcases hapart t ht u hu hne with hlt | hlt <;> omega

theorem gathered_pieces (hapart : ∀ t ∈ vm.va, ∀ u ∈ vm.va, t ≠ u → t.Apart u) (x : Mapping) :
    let c := (vm.va.filter (·.overlaps saddr eaddr)).foldl (gather pageShift saddr eaddr)
      { vm := vm, before := none, after := none, removed := [] }
    (c.after = some x ∨ c.before = some x) ↔
      ∃ t ∈ vm.va, t.overlaps saddr eaddr = true ∧ x ∈ piecesOf pageShift saddr eaddr t := by
  intro c
  obtain ⟨hfromB, hsetB⟩ := foldl_lastSet gather_before (vm.va.filter (·.overlaps saddr eaddr))
    { vm := vm, before := none, after := none, removed := [] }
  obtain ⟨hfromA, hsetA⟩ := foldl_lastSet gather_after (vm.va.filter (·.overlaps saddr eaddr))
    { vm := vm, before := none, after := none, removed := [] }
  have hbefore : ∀ p, c.before = some p → ∃ t ∈ vm.va, t.overlaps saddr eaddr = true ∧
      t.start < saddr ∧ p = t.before saddr := by
    intro p hp
    rcases hfromB p hp with hnone | ⟨t, ht, hsel⟩
    · cases hnone
    · obtain ⟨hmem, hov⟩ := mem_filter.mp ht
      split at hsel
      · exact ⟨t, hmem, hov, ‹_›, (Option.some.inj hsel).symm⟩
      · cases hsel
  have hafter : ∀ p, c.after = some p → ∃ t ∈ vm.va, t.overlaps saddr eaddr = true ∧
      eaddr < t.last ∧ p = t.after pageShift eaddr := by
    intro p hp
    rcases hfromA p hp with hnone | ⟨t, ht, hsel⟩
    · cases hnone
    · obtain ⟨hmem, hov⟩ := mem_filter.mp ht
      split at hsel
      · exact ⟨t, hmem, hov, ‹_›, (Option.some.inj hsel).symm⟩
      · cases hsel
  constructor
  · rintro (hx | hx)
    · obtain ⟨t, ht, hov, hlt, rfl⟩ := hafter x hx
      exact ⟨t, ht, hov, mem_piecesOf.mpr (.inl ⟨hlt, rfl⟩)⟩
    · obtain ⟨t, ht, hov, hlt, rfl⟩ := hbefore x hx
      exact ⟨t, ht, hov, mem_piecesOf.mpr (.inr ⟨hlt, rfl⟩)⟩
  · rintro ⟨t, ht, hov, hp⟩
    have hmem : t ∈ vm.va.filter (·.overlaps saddr eaddr) := mem_filter.mpr ⟨ht, hov⟩
    rcases mem_piecesOf.mp hp with ⟨hlt, rfl⟩ | ⟨hlt, rfl⟩
    · obtain ⟨p, hp⟩ := Option.isSome_iff_exists.mp
        (hsetA (.inr ⟨t, hmem, by rw [if_pos hlt]; rfl⟩))
      obtain ⟨u, hu, huov, hult, rfl⟩ := hafter p hp
      obtain rfl := piece_unique hapart ht hu hov huov (.inr ⟨hlt, hult⟩)
      exact .inl hp
    · obtain ⟨p, hp⟩ := Option.isSome_iff_exists.mp
        (hsetB (.inr ⟨t, hmem, by rw [if_pos hlt]; rfl⟩))
      obtain ⟨u, hu, huov, hult, rfl⟩ := hbefore p hp
      obtain rfl := piece_unique hapart ht hu hov huov (.inl ⟨hlt, hult⟩)
      exact .inr hp

theorem clearPages_spec (h : vm.Linked) :
    let ts := vm.va.filter (·.overlaps saddr eaddr)
    let vm' := clearPages pageShift vm saddr eaddr
    Gathered pageShift saddr eaddr vm { vm' with va := vm.va, freed := vm.freed } ts ∧
    (∀ x, x ∈ vm'.va ↔ (x ∈ vm.va ∧ x ∉ ts) ∨
      ∃ t ∈ vm.va, t.overlaps saddr eaddr = true ∧ x ∈ piecesOf pageShift saddr eaddr t) ∧
    ∀ f, f ∈ vm'.freed ↔ f ∈ vm.freed ∨ ∃ t ∈ ts, f = t.clip saddr eaddr := by
  intro ts vm'
  have hgathered := @foldl_gather pageShift saddr eaddr ts
    { vm := vm, before := none, after := none, removed := [] }
    (fun t ht => (mem_filter.mp ht).2) fun t ht => by
      obtain ⟨b, -, hb, -⟩ := h.owned t (mem_filter.mp ht).1
      exact ⟨b, hb⟩
  have hpieces : ∀ x, _ ↔ _ := @gathered_pieces vm pageShift saddr eaddr h.apart
  have hremoved := @foldl_gather_removed pageShift saddr eaddr ts
    { vm := vm, before := none, after := none, removed := [] }
  rw [append_nil] at hremoved
  change Gathered pageShift saddr eaddr vm _ ts at hgathered
  generalize hc : ts.foldl (gather pageShift saddr eaddr)
    { vm := vm, before := none, after := none, removed := [] } = c at hgathered hremoved
  have hvm' : vm' = insertPiece (insertPiece
      (c.removed.foldl (freeRemoved saddr eaddr) c.vm) c.before) c.after := by
    rw [← hc]
    rfl
  obtain ⟨hpte1, hboVa1, hva1, hfreed1⟩ := @foldl_freeRemoved saddr eaddr c.removed c.vm
  generalize c.removed.foldl (freeRemoved saddr eaddr) c.vm = vm1 at hvm' hpte1 hboVa1 hva1 hfreed1
  obtain ⟨hpte2, hboVa2, hfreed2, hva2⟩ := insertPiece_spec vm1 c.before
  obtain ⟨hpte3, hboVa3, hfreed3, hva3⟩ := insertPiece_spec (insertPiece vm1 c.before) c.after
  rw [← hvm'] at hpte3 hboVa3 hfreed3 hva3
  have hmem : ∀ t, t ∈ c.removed ↔ t ∈ ts := fun t => by rw [hremoved, mem_reverse]
  have hboVa : vm'.boVa = c.vm.boVa := hboVa3.trans (hboVa2.trans hboVa1)
  refine ⟨⟨?_, rfl, rfl, ?_, ?_⟩, fun x => ?_, fun f => ?_⟩
  · exact hpte3.trans (hpte2.trans (hpte1.trans hgathered.pte))
  · intro b v hv
    show ∃ v', vm'.boVa b = some v'
    rw [hboVa]
    exact hgathered.alive b v hv
  · intro b v' hv'
    change vm'.boVa b = some v' at hv'
    rw [hboVa] at hv'
    exact hgathered.lists b v' hv'
  · have hx := hpieces x
    rw [hc] at hx
    rw [hva3, hva2, hva1, hgathered.va, hmem, ← or_assoc, hx, or_comm]
  · rw [hfreed3, hfreed2, hfreed1, hgathered.freed]
    simp only [hmem]

theorem clearPages_replaced (h : vm.Linked) (hle : saddr ≤ eaddr) :
    Replaced vm (clearPages pageShift vm saddr eaddr) (fun m => m.overlaps saddr eaddr = true)
      (piecesOf pageShift saddr eaddr) := by
  obtain ⟨hgathered, hva, hfreed⟩ := @clearPages_spec vm pageShift saddr eaddr h
  have hts : ∀ b v m, vm.boVa b = some v → (m ∈ v.valids ∨ m ∈ v.invalids) →
      (¬(m ∈ vm.va.filter (·.overlaps saddr eaddr) ∧ m.boVa = some b) ↔
        ¬m.overlaps saddr eaddr = true) := by
    intro b v m hv hm
    obtain ⟨hmem, hown⟩ := h.listed b v hv m hm
    rw [mem_filter]
    exact not_congr ⟨fun h => h.1.2, fun h => ⟨⟨hmem, h⟩, hown⟩⟩
  refine ⟨hgathered.pte, ?_, ?_, ?_, ?_, ?_, ?_, ?_, ?_⟩
  · intro x
    rw [hva, mem_filter]
    refine or_congr_left (and_congr_right fun hx => ?_)
    exact not_congr ⟨And.right, fun h => ⟨hx, h⟩⟩
  · intro b v' hv'
    obtain ⟨v, hv, hsame, hvalids, hinvalids⟩ := hgathered.lists b v' hv'
    refine ⟨v, hv, hsame, fun m => ?_, fun m => ?_⟩
    · rw [hvalids]
      exact and_congr_right fun hm => hts b v m hv (.inl hm)
    · rw [hinvalids]
      refine or_congr (and_congr_right fun hm => hts b v m hv (.inr hm)) ?_
      simp only [mem_filter, and_assoc]
  · intro b v hv
    exact .inl (hgathered.alive b v hv)
  · intro t ht hov p hp
    obtain ⟨h1, h2⟩ := overlaps_iff.mp hov
    have hnonempty := h.nonempty t ht
    rcases mem_piecesOf.mp hp with ⟨hlt, rfl⟩ | ⟨hlt, rfl⟩
    · exact ⟨rfl, show t.start ≤ eaddr + 1 by omega, show eaddr + 1 ≤ t.last by omega,
        Nat.le_refl _⟩
    · exact ⟨rfl, Nat.le_refl _, show t.start ≤ saddr - 1 by omega,
        show saddr - 1 ≤ t.last by omega⟩
  · intro t ht hov p hp q hq hne
    have hapart : t.start < saddr → (t.before saddr).Apart (t.after pageShift eaddr) := fun hlt =>
      .inl (show saddr - 1 < eaddr + 1 by omega)
    rcases mem_piecesOf.mp hp with ⟨-, rfl⟩ | ⟨hlt, rfl⟩ <;>
      rcases mem_piecesOf.mp hq with ⟨-, rfl⟩ | ⟨hlt', rfl⟩
    · exact absurd rfl hne
    · exact (hapart hlt').symm
    · exact hapart hlt
    · exact absurd rfl hne
  · intro f hf
    rcases (hfreed f).mp hf with hf | ⟨t, ht, rfl⟩
    · exact .inl hf
    · obtain ⟨hmem, hov⟩ := mem_filter.mp ht
      exact .inr ⟨t, hmem, hov, Nat.le_max_left _ _, Nat.min_le_left _ _⟩
  · exact fun f hf => (hfreed f).mpr (.inl hf)
  · intro t ht hov x hx _
    obtain ⟨hlo, hhi⟩ := hx
    by_cases h1 : x < saddr
    · refine .inl ⟨t.before saddr, mem_piecesOf.mpr (.inr ⟨by omega, rfl⟩), hlo, ?_⟩
      show x ≤ saddr - 1
      omega
    · by_cases h2 : eaddr < x
      · exact .inl ⟨t.after pageShift eaddr, mem_piecesOf.mpr (.inl ⟨by omega, rfl⟩), h2, hhi⟩
      · refine .inr ⟨t.clip saddr eaddr, (hfreed _).mpr (.inr ⟨t, ?_, rfl⟩), ?_, ?_⟩
        · exact mem_filter.mpr ⟨ht, hov⟩
        · show max t.start saddr ≤ x
          omega
        · show x ≤ min t.last eaddr
          omega

theorem apart_of_not_overlaps {m n : Mapping} (h : ¬m.overlaps n.start n.last = true) :
    n.Apart m := by
  rw [overlaps_iff] at h
  unfold Mapping.Apart
  omega

theorem startPage_le_lastPage (saddr size : UInt64) : startPage saddr ≤ lastPage saddr size :=
  Nat.le_add_right _ _

theorem Inv.boMap (h : Inv dev vm) (hb : (vm.boVa b).isSome) (saddr offset size : UInt64)
    (flags : BitVec 64) (kmalloc : Bool) :
    Inv dev (boMap dev vm b saddr offset size flags kmalloc).1 := by
  unfold VmMap.boMap
  split
  · exact h
  · split
    · exact h
    · next hfree =>
      split
      · exact h
      · refine h.insertMap hb (startPage_le_lastPage saddr size) fun m hm => ?_
        refine apart_of_not_overlaps fun hov => hfree ?_
        exact any_eq_true.mpr ⟨m, hm, hov⟩

theorem Inv.boClearMappings (h : Inv dev vm) (saddr size : UInt64) (beforeOk afterOk : Bool) :
    Inv dev (boClearMappings dev vm saddr size beforeOk afterOk).1 := by
  unfold VmMap.boClearMappings
  split
  · exact h
  · split
    · exact h
    · exact h.replaced (clearPages_replaced h.toLinked (startPage_le_lastPage saddr size))

theorem clearPages_free (h : vm.Linked) {m : Mapping}
    (hm : m ∈ (clearPages pageShift vm saddr eaddr).va) : ¬m.overlaps saddr eaddr = true := by
  obtain ⟨-, hva, -⟩ := @clearPages_spec vm pageShift saddr eaddr h
  rcases (hva m).mp hm with ⟨hmem, hout⟩ | ⟨t, -, -, hp⟩
  · exact fun hov => hout (mem_filter.mpr ⟨hmem, hov⟩)
  · exact Bool.eq_false_iff.mp (piecesOf_outside hp)

theorem Inv.boReplaceMap (h : Inv dev vm) (hb : (vm.boVa b).isSome) (saddr offset size : UInt64)
    (flags : BitVec 64) (kmalloc beforeOk afterOk : Bool) :
    Inv dev (boReplaceMap dev vm b saddr offset size flags kmalloc beforeOk afterOk).1 := by
  have hclear := h.boClearMappings saddr size beforeOk afterOk
  unfold VmMap.boReplaceMap
  split
  · exact h
  · split
    · exact h
    · cases hres : VmMap.boClearMappings dev vm saddr size beforeOk afterOk with
      | mk vm' e =>
        rw [hres] at hclear
        cases e with
        | some e => exact hclear
        | none =>
          -- The interval has been cleared, and every `amdgpu_bo_va` is still there.
          have hvm' : vm' =
              clearPages dev.pageShift vm (startPage saddr) (lastPage saddr size) := by
            unfold VmMap.boClearMappings at hres
            split at hres
            · cases hres
            · split at hres
              · cases hres
              · cases hres
                rfl
          obtain ⟨v, hv⟩ := Option.isSome_iff_exists.mp hb
          obtain ⟨hgathered, -⟩ := @clearPages_spec vm dev.pageShift (startPage saddr)
            (lastPage saddr size) h.toLinked
          obtain ⟨v', hv'⟩ := hgathered.alive b v hv
          refine hclear.insertMap ?_ (startPage_le_lastPage saddr size) fun m hm => ?_
          · rw [hvm']
            exact Option.isSome_iff_exists.mpr ⟨v', hv'⟩
          · rw [hvm'] at hm
            exact apart_of_not_overlaps (clearPages_free h.toLinked hm)

end Clear

end Amdkfd.VmMap
