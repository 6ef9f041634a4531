import Amdkfd.VmMap.Model

/-!
# The mappings of a VM as an invariant

`Inv` relates the lists of mappings to the page table: a valid entry lies in a mapping of the VM or
in one on `freed`, and the entries of a mapping on `valids` are what its `amdgpu_bo_va` says.
-/

namespace Amdkfd.VmMap

open Function List Option

/-! ## Coverage -/

def Mapping.Covers (m : Mapping) (x : Nat) : Prop :=
  m.start ≤ x ∧ x ≤ m.last
  deriving Decidable

def Covered (ms : List Mapping) (x : Nat) : Prop :=
  ∃ m ∈ ms, m.Covers x
  deriving Decidable

def Mapping.Apart (m m' : Mapping) : Prop :=
  m.last < m'.start ∨ m'.last < m.start
  deriving Decidable

theorem Mapping.Apart.symm {m m' : Mapping} (h : m.Apart m') : m'.Apart m :=
  Or.symm h

theorem Mapping.Apart.not_covers {m m' : Mapping} (h : m.Apart m') {x : Nat} (hx : m.Covers x) :
    ¬m'.Covers x := by
  rintro ⟨hlo, hhi⟩
  obtain ⟨hlo', hhi'⟩ := hx
  rcases h with h | h <;> omega

variable {ms : List Mapping}

@[simp] theorem mem_remove {m x : Mapping} : x ∈ remove m ms ↔ x ∈ ms ∧ x ≠ m := by
  simp [remove]

@[simp] theorem mem_itInsert {m x : Mapping} : x ∈ itInsert m ms ↔ x = m ∨ x ∈ ms := by
  induction ms with
  | nil => simp [itInsert]
  | cons y ys ih =>
    unfold itInsert
    split
    · rw [mem_cons, ih, mem_cons]
      exact or_left_comm
    · exact mem_cons

/-! ## The invariant -/

/-- The lists and the tree have the same mappings, which are disjoint. -/
structure Vm.Linked (vm : Vm) : Prop where
  apart : ∀ m ∈ vm.va, ∀ m' ∈ vm.va, m ≠ m' → m.Apart m'
  nonempty : ∀ m ∈ vm.va, m.start ≤ m.last
  owned : ∀ m ∈ vm.va, ∃ b v, m.boVa = some b ∧ vm.boVa b = some v ∧
    (m ∈ v.valids ∨ m ∈ v.invalids)
  listed : ∀ b v, vm.boVa b = some v → ∀ m, m ∈ v.valids ∨ m ∈ v.invalids →
    m ∈ vm.va ∧ m.boVa = some b
  once : ∀ b v, vm.boVa b = some v → ∀ m ∈ v.valids, m ∉ v.invalids

def Backed (bo : Option Bo) : Bool :=
  bo.any fun bo => bo.resource.any fun mem => mem.memType ≠ .system

/-- The entries that the last update wrote are still those of the BO. -/
def BoVa.Current (v : BoVa) : Prop :=
  v.moved = false ∨ v.cleared = true
  deriving Decidable

def BoVa.Shows (dev : Device) (v : BoVa) (m : Mapping) : Bool :=
  !v.cleared && Backed v.bo && dev.keepsValid m

/-- What holds in every state. -/
structure Inv (dev : Device) (vm : Vm) : Prop extends vm.Linked where
  covered : ∀ x, isValid (vm.pte x) = true → Covered vm.va x ∨ Covered vm.freed x
  shown : ∀ b v, vm.boVa b = some v → v.Current → ∀ m ∈ v.valids, ∀ x, m.Covers x →
    isValid (vm.pte x) = v.Shows dev m
  settled : ∀ b v, vm.boVa b = some v → ∀ m ∈ v.valids, ∀ f ∈ vm.freed, m.Apart f

/-! ## Mapping -/

section Step
variable {dev : Device} {vm : Vm} {b : Nat} (f : BoVa → BoVa)

@[simp] theorem modify_va : (vm.modify b f).va = vm.va := rfl

@[simp] theorem modify_freed : (vm.modify b f).freed = vm.freed := rfl

@[simp] theorem modify_pte : (vm.modify b f).pte = vm.pte := rfl

theorem modify_boVa_self : (vm.modify b f).boVa b = (vm.boVa b).map f :=
  update_self ..

variable {c : Nat} {m : Mapping}

theorem modify_boVa_of_ne (h : c ≠ b) : (vm.modify b f).boVa c = vm.boVa c :=
  update_of_ne h ..

theorem modify_cases {f : BoVa → BoVa} {v : BoVa} (h : (vm.modify b f).boVa c = some v) :
    (c = b ∧ ∃ v0, vm.boVa b = some v0 ∧ v = f v0) ∨ (c ≠ b ∧ vm.boVa c = some v) := by
  by_cases hc : c = b
  · subst hc
    rw [modify_boVa_self] at h
    obtain ⟨v0, hv0, rfl⟩ := Option.map_eq_some_iff.mp h
    exact .inl ⟨rfl, v0, hv0, rfl⟩
  · rw [modify_boVa_of_ne f hc] at h
    exact .inr ⟨hc, h⟩

theorem Mapping.Apart.irrefl (hm : m.start ≤ m.last) : ¬m.Apart m := by
  rintro (h | h) <;> omega

theorem Inv.insertMap (h : Inv dev vm) (hb : (vm.boVa b).isSome) (hm : m.start ≤ m.last)
    (hapart : ∀ m' ∈ vm.va, m.Apart m') : Inv dev (boInsertMap vm b m) := by
  obtain ⟨v0, hv0⟩ := Option.isSome_iff_exists.mp hb
  let n : Mapping := { m with boVa := some b }
  have hn : n ∉ vm.va := fun hmem => Mapping.Apart.irrefl (m := n) hm (hapart n hmem)
  let f : BoVa → BoVa := fun v => { v with invalids := n :: v.invalids }
  have hva : ∀ x, x ∈ (boInsertMap vm b m).va ↔ x = n ∨ x ∈ vm.va := fun x => mem_itInsert
  have hboVa : (boInsertMap vm b m).boVa = (vm.modify b f).boVa := rfl
  constructor
  · constructor
    · intro x hx y hy hne
      rcases (hva x).mp hx with rfl | hx' <;> rcases (hva y).mp hy with rfl | hy'
      · exact absurd rfl hne
      · exact hapart y hy'
      · exact (hapart x hx').symm
      · exact h.apart x hx' y hy' hne
    · intro x hx
      rcases (hva x).mp hx with rfl | hx'
      · exact hm
      · exact h.nonempty x hx'
    · intro x hx
      rw [hboVa]
      rcases (hva x).mp hx with rfl | hx'
      · exact ⟨b, f v0, rfl, by rw [modify_boVa_self, hv0]; rfl, .inr mem_cons_self⟩
      · obtain ⟨c, v, hc, hv, hmem⟩ := h.owned x hx'
        by_cases hcb : c = b
        · subst hcb
          refine ⟨c, f v, hc, by rw [modify_boVa_self, hv]; rfl, ?_⟩
          exact hmem.imp id (mem_cons_of_mem _)
        · exact ⟨c, v, hc, by rw [modify_boVa_of_ne f hcb, hv], hmem⟩
    · intro c v hv x hx
      rw [hboVa] at hv
      rcases modify_cases hv with ⟨rfl, v1, hv1, rfl⟩ | ⟨-, hv1⟩
      · rcases hx with hx | hx
        · obtain ⟨hmem, hown⟩ := h.listed c v1 hv1 x (.inl hx)
          exact ⟨(hva x).mpr (.inr hmem), hown⟩
        · rcases mem_cons.mp hx with rfl | hx
          · exact ⟨(hva n).mpr (.inl rfl), rfl⟩
          · obtain ⟨hmem, hown⟩ := h.listed c v1 hv1 x (.inr hx)
            exact ⟨(hva x).mpr (.inr hmem), hown⟩
      · obtain ⟨hmem, hown⟩ := h.listed c v hv1 x hx
        exact ⟨(hva x).mpr (.inr hmem), hown⟩
    · intro c v hv x hx hx'
      rw [hboVa] at hv
      rcases modify_cases hv with ⟨rfl, v1, hv1, rfl⟩ | ⟨-, hv1⟩
      · rcases mem_cons.mp hx' with rfl | hx'
        · exact hn (h.listed c v1 hv1 n (.inl hx)).1
        · exact h.once c v1 hv1 x hx hx'
      · exact h.once c v hv1 x hx hx'
  · intro x hx
    refine (h.covered x hx).imp (fun ⟨m', hmem, hcov⟩ => ⟨m', (hva m').mpr (.inr hmem), hcov⟩) id
  · intro c v hv hcur x hx
    rw [hboVa] at hv
    rcases modify_cases hv with ⟨rfl, v1, hv1, rfl⟩ | ⟨-, hv1⟩
    · exact h.shown c v1 hv1 hcur x hx
    · exact h.shown c v hv1 hcur x hx
  · intro c v hv x hx
    rw [hboVa] at hv
    rcases modify_cases hv with ⟨rfl, v1, hv1, rfl⟩ | ⟨-, hv1⟩
    · exact h.settled c v1 hv1 x hx
    · exact h.settled c v hv1 x hx

end Step

/-! ## Removing -/

/-- From `vm` to `vm'` the mappings in `R` go, and of each some pieces stay as invalid mappings.
A page of a mapping that goes is in a piece, or on `freed` if its entry is valid. -/
structure Replaced (vm vm' : Vm) (R : Mapping → Prop) (pieces : Mapping → List Mapping) :
    Prop where
  pte : vm'.pte = vm.pte
  va : ∀ x, x ∈ vm'.va ↔ (x ∈ vm.va ∧ ¬R x) ∨ ∃ t ∈ vm.va, R t ∧ x ∈ pieces t
  boVa : ∀ b v', vm'.boVa b = some v' → ∃ v, vm.boVa b = some v ∧
    (v'.bo = v.bo ∧ v'.moved = v.moved ∧ v'.cleared = v.cleared) ∧
    (∀ m, m ∈ v'.valids ↔ m ∈ v.valids ∧ ¬R m) ∧
    ∀ m, m ∈ v'.invalids ↔ (m ∈ v.invalids ∧ ¬R m) ∨
      ∃ t ∈ vm.va, R t ∧ t.boVa = some b ∧ m ∈ pieces t
  alive : ∀ b v, vm.boVa b = some v → (∃ v', vm'.boVa b = some v') ∨
    ∀ m ∈ vm.va, m.boVa = some b → R m ∧ pieces m = []
  piece : ∀ t ∈ vm.va, R t → ∀ p ∈ pieces t,
    p.boVa = t.boVa ∧ t.start ≤ p.start ∧ p.start ≤ p.last ∧ p.last ≤ t.last
  piece_apart : ∀ t ∈ vm.va, R t → ∀ p ∈ pieces t, ∀ q ∈ pieces t, p ≠ q → p.Apart q
  freed : ∀ f ∈ vm'.freed, f ∈ vm.freed ∨ ∃ t ∈ vm.va, R t ∧ t.start ≤ f.start ∧ f.last ≤ t.last
  freed_sub : ∀ f ∈ vm.freed, f ∈ vm'.freed
  covers : ∀ t ∈ vm.va, R t → ∀ x, t.Covers x → isValid (vm.pte x) = true →
    Covered (pieces t) x ∨ Covered vm'.freed x

section Replaced
variable {dev : Device} {vm vm' : Vm} {R : Mapping → Prop} {pieces : Mapping → List Mapping}

theorem Mapping.Apart.mono {m m' n n' : Mapping} (h : m.Apart m') (hlo : m.start ≤ n.start)
    (hhi : n.last ≤ m.last) (hlo' : m'.start ≤ n'.start) (hhi' : n'.last ≤ m'.last) :
    n.Apart n' := by
  rcases h with h | h
  · exact .inl (by omega)
  · exact .inr (by omega)

theorem Replaced.within (h : Replaced vm vm' R pieces) (hinv : vm.Linked) {x : Mapping}
    (hx : x ∈ vm'.va) : ∃ t ∈ vm.va, (x = t ∧ ¬R t ∨ R t ∧ x ∈ pieces t) ∧
      x.boVa = t.boVa ∧ t.start ≤ x.start ∧ x.start ≤ x.last ∧ x.last ≤ t.last := by
  rcases (h.va x).mp hx with ⟨hmem, hR⟩ | ⟨t, ht, hR, hp⟩
  · exact ⟨x, hmem, .inl ⟨rfl, hR⟩, rfl, le_refl _, hinv.nonempty x hmem, le_refl _⟩
  · exact ⟨t, ht, .inr ⟨hR, hp⟩, h.piece t ht hR x hp⟩

theorem Replaced.linked (h : Replaced vm vm' R pieces) (hinv : vm.Linked) : vm'.Linked := by
  constructor
  · intro x hx y hy hne
    obtain ⟨t, ht, hxt, -, hxlo, -, hxhi⟩ := h.within hinv hx
    obtain ⟨u, hu, hyu, -, hylo, -, hyhi⟩ := h.within hinv hy
    by_cases htu : t = u
    · subst htu
      rcases hxt with ⟨rfl, hR⟩ | ⟨hR, hxp⟩
      · rcases hyu with ⟨rfl, -⟩ | ⟨hR', -⟩
        · exact absurd rfl hne
        · exact absurd hR' hR
      · rcases hyu with ⟨rfl, hR'⟩ | ⟨-, hyp⟩
        · exact absurd hR hR'
        · exact h.piece_apart t ht hR x hxp y hyp hne
    · exact (hinv.apart t ht u hu htu).mono hxlo hxhi hylo hyhi
  · intro x hx
    obtain ⟨t, -, -, -, -, hle, -⟩ := h.within hinv hx
    exact hle
  · intro x hx
    obtain ⟨t, ht, hxt, hown, -⟩ := h.within hinv hx
    obtain ⟨b, v, hb, hv, hmem⟩ := hinv.owned t ht
    rcases h.alive b v hv with ⟨v', hv'⟩ | hgone
    · obtain ⟨v1, hv1, -, hvalids, hinvalids⟩ := h.boVa b v' hv'
      obtain rfl := some.inj (hv.symm.trans hv1)
      refine ⟨b, v', hown.trans hb, hv', ?_⟩
      rcases hxt with ⟨rfl, hR⟩ | ⟨hR, hxp⟩
      · exact hmem.imp (fun hm => (hvalids x).mpr ⟨hm, hR⟩)
          fun hm => (hinvalids x).mpr (.inl ⟨hm, hR⟩)
      · exact .inr ((hinvalids x).mpr (.inr ⟨t, ht, hR, hb, hxp⟩))
    · obtain ⟨hR, hnil⟩ := hgone t ht hb
      rcases hxt with ⟨-, hR'⟩ | ⟨-, hxp⟩
      · exact absurd hR hR'
      · rw [hnil] at hxp
        exact absurd hxp not_mem_nil
  · intro b v' hv' x hx
    obtain ⟨v, hv, -, hvalids, hinvalids⟩ := h.boVa b v' hv'
    have hstay : x ∈ v.valids ∨ x ∈ v.invalids → ¬R x → x ∈ vm'.va ∧ x.boVa = some b := by
      intro hmem hR
      obtain ⟨hva, hown⟩ := hinv.listed b v hv x hmem
      exact ⟨(h.va x).mpr (.inl ⟨hva, hR⟩), hown⟩
    rcases hx with hx | hx
    · obtain ⟨hmem, hR⟩ := (hvalids x).mp hx
      exact hstay (.inl hmem) hR
    · rcases (hinvalids x).mp hx with ⟨hmem, hR⟩ | ⟨t, ht, hR, hown, hp⟩
      · exact hstay (.inr hmem) hR
      · exact ⟨(h.va x).mpr (.inr ⟨t, ht, hR, hp⟩), (h.piece t ht hR x hp).1.trans hown⟩
  · intro b v' hv' x hx hx'
    obtain ⟨v, hv, -, hvalids, hinvalids⟩ := h.boVa b v' hv'
    obtain ⟨hmem, hR⟩ := (hvalids x).mp hx
    rcases (hinvalids x).mp hx' with ⟨hmem', -⟩ | ⟨t, ht, hRt, -, hp⟩
    · exact hinv.once b v hv x hmem hmem'
    · -- A piece of a mapping that goes is no mapping that stays.
      obtain ⟨hva, -⟩ := hinv.listed b v hv x (.inl hmem)
      obtain ⟨-, hlo, hle, hhi⟩ := h.piece t ht hRt x hp
      have hne : x ≠ t := fun heq => hR (heq ▸ hRt)
      exact Mapping.Apart.irrefl hle
        ((hinv.apart x hva t ht hne).mono (le_refl _) (le_refl _) hlo hhi)

theorem Inv.replaced (hinv : Inv dev vm) (h : Replaced vm vm' R pieces) : Inv dev vm' := by
  refine ⟨h.linked hinv.toLinked, ?_, ?_, ?_⟩
  · intro x hx
    rw [h.pte] at hx
    rcases hinv.covered x hx with ⟨t, ht, hcov⟩ | ⟨f, hf, hcov⟩
    · by_cases hR : R t
      · rcases h.covers t ht hR x hcov hx with ⟨p, hp, hpx⟩ | hfreed
        · exact .inl ⟨p, (h.va p).mpr (.inr ⟨t, ht, hR, hp⟩), hpx⟩
        · exact .inr hfreed
      · exact .inl ⟨t, (h.va t).mpr (.inl ⟨ht, hR⟩), hcov⟩
    · exact .inr ⟨f, h.freed_sub f hf, hcov⟩
  · intro b v' hv' hcur m hm x hx
    obtain ⟨v, hv, ⟨hbo, hmoved, hcleared⟩, hvalids, -⟩ := h.boVa b v' hv'
    have hshown := hinv.shown b v hv (by rw [BoVa.Current, ← hmoved, ← hcleared]; exact hcur) m
      ((hvalids m).mp hm).1 x hx
    rw [h.pte, hshown]
    unfold BoVa.Shows
    rw [hbo, hcleared]
  · intro b v' hv' m hm f hf
    obtain ⟨v, hv, -, hvalids, -⟩ := h.boVa b v' hv'
    obtain ⟨hmem, hR⟩ := (hvalids m).mp hm
    rcases h.freed f hf with hf | ⟨t, ht, hRt, hlo, hhi⟩
    · exact hinv.settled b v hv m hmem f hf
    · obtain ⟨hva, -⟩ := hinv.listed b v hv m (.inl hmem)
      have hne : m ≠ t := fun heq => hR (heq ▸ hRt)
      exact (hinv.apart m hva t ht hne).mono (le_refl _) (le_refl _) hlo hhi

end Replaced

section Unmap
variable {dev : Device} {vm : Vm} {b : Nat}

variable {v : BoVa} {m : Mapping} {valid : Bool}

theorem unmapTarget_mem {saddr : Nat} (h : unmapTarget v saddr = some (m, valid)) :
    valid = true ∧ m ∈ v.valids ∨ valid = false ∧ m ∈ v.invalids := by
  unfold unmapTarget at h
  split at h
  · next hfind =>
    cases h
    exact .inl ⟨rfl, mem_of_find?_eq_some hfind⟩
  · obtain ⟨m', hfind, heq⟩ := Option.map_eq_some_iff.mp h
    cases heq
    exact .inr ⟨rfl, mem_of_find?_eq_some hfind⟩

theorem Vm.Linked.ne_of_owner (h : vm.Linked) {c : Nat} (hv : vm.boVa c = some v) {x m : Mapping}
    (hx : x ∈ v.valids ∨ x ∈ v.invalids) (hm : m.boVa ≠ some c) : x ≠ m := by
  rintro rfl
  exact hm (h.listed c v hv x hx).2

theorem boUnmap_replaced (h : vm.Linked) (hv : vm.boVa b = some v)
    (hm : valid = true ∧ m ∈ v.valids ∨ valid = false ∧ m ∈ v.invalids)
    (hok : valid = false → ∀ x, m.Covers x → isValid (vm.pte x) = true → Covered vm.freed x) :
    let vm1 := { listDel vm b m with va := remove m vm.va }
    Replaced vm (if valid then { vm1 with freed := { m with boVa := none } :: vm.freed } else vm1)
      (· = m) fun _ => [] := by
  intro vm1
  have hlist : m ∈ v.valids ∨ m ∈ v.invalids := hm.imp And.right And.right
  obtain ⟨hmva, hown⟩ := h.listed b v hv m hlist
  generalize hvm' : (if valid then { vm1 with freed := { m with boVa := none } :: vm.freed }
    else vm1) = vm'
  have hparts : vm'.pte = vm.pte ∧ vm'.va = remove m vm.va ∧ vm'.boVa = (listDel vm b m).boVa ∧
      vm'.freed = if valid then { m with boVa := none } :: vm.freed else vm.freed := by
    rw [← hvm']
    cases valid <;> exact ⟨rfl, rfl, rfl, rfl⟩
  obtain ⟨hpte, hva, hboVa, hfreed⟩ := hparts
  refine ⟨hpte, ?_, ?_, ?_, ?_, ?_, ?_, ?_, ?_⟩
  · intro x
    rw [hva, mem_remove]
    simp
  · intro c v' hv'
    rw [hboVa] at hv'
    rcases modify_cases hv' with ⟨rfl, v0, hv0, rfl⟩ | ⟨hc, hv0⟩
    · refine ⟨v0, hv0, ⟨rfl, rfl, rfl⟩, fun x => mem_remove, fun x => ?_⟩
      simp
    · have hne : ∀ x, x ∈ v'.valids ∨ x ∈ v'.invalids → x ≠ m := fun x hx =>
        h.ne_of_owner hv0 hx (by rw [hown]; exact fun heq => hc (some.inj heq).symm)
      refine ⟨v', hv0, ⟨rfl, rfl, rfl⟩, fun x => ?_, fun x => ?_⟩
      · exact ⟨fun hx => ⟨hx, hne x (.inl hx)⟩, And.left⟩
      · simp only [not_mem_nil, and_false, exists_false, or_false]
        exact ⟨fun hx => ⟨hx, hne x (.inr hx)⟩, And.left⟩
  · intro c w hw
    rw [hboVa]
    by_cases hc : c = b
    · subst hc
      exact .inl ⟨_, by rw [listDel, modify_boVa_self, hw]; rfl⟩
    · exact .inl ⟨w, by rw [listDel, modify_boVa_of_ne _ hc, hw]⟩
  · intro t _ _ p hp
    exact absurd hp not_mem_nil
  · intro t _ _ p hp
    exact absurd hp not_mem_nil
  · intro f hf
    rw [hfreed] at hf
    split at hf
    · rcases mem_cons.mp hf with rfl | hf
      · exact .inr ⟨m, hmva, rfl, le_refl _, le_refl _⟩
      · exact .inl hf
    · exact .inl hf
  · intro f hf
    rw [hfreed]
    split
    · exact mem_cons_of_mem _ hf
    · exact hf
  · rintro t - rfl x hx hvalid
    refine .inr ?_
    rw [hfreed]
    cases hval : valid with
    | true => exact ⟨{ t with boVa := none }, mem_cons_self, hx⟩
    | false => exact hok hval x hx hvalid

theorem Inv.boUnmap (h : Inv dev vm) {saddr : UInt64}
    (hok : ∀ v m, vm.boVa b = some v → unmapTarget v (startPage saddr) = some (m, false) →
      ∀ x, m.Covers x → isValid (vm.pte x) = true → Covered vm.freed x) :
    Inv dev (boUnmap vm b saddr).1 := by
  unfold VmMap.boUnmap
  cases htarget : (vm.boVa b).bind (unmapTarget · (startPage saddr)) with
  | none => exact h
  | some r =>
    obtain ⟨m, valid⟩ := r
    obtain ⟨v, hv, ht⟩ := Option.bind_eq_some_iff.mp htarget
    refine h.replaced (boUnmap_replaced h.toLinked hv (unmapTarget_mem ht) ?_)
    rintro rfl
    exact hok v m hv ht

theorem foldl_delValids (ms : List Mapping) (vm : Vm) :
    let vm' := ms.foldl (fun vm m =>
      { vm with va := remove m vm.va, freed := { m with boVa := none } :: vm.freed }) vm
    vm'.pte = vm.pte ∧ vm'.boVa = vm.boVa ∧ (∀ x, x ∈ vm'.va ↔ x ∈ vm.va ∧ x ∉ ms) ∧
      ∀ f, f ∈ vm'.freed ↔ f ∈ vm.freed ∨ ∃ m ∈ ms, f = { m with boVa := none } := by
  induction ms generalizing vm with
  | nil => simp
  | cons m ms ih =>
    obtain ⟨hpte, hboVa, hva, hfreed⟩ :=
      ih { vm with va := remove m vm.va, freed := { m with boVa := none } :: vm.freed }
    refine ⟨hpte, hboVa, fun x => ?_, fun f => ?_⟩
    · rw [foldl_cons, hva, mem_remove, mem_cons, not_or, and_assoc]
    · rw [foldl_cons, hfreed, mem_cons, exists_mem_cons_iff]
      exact or_assoc.trans or_left_comm

theorem foldl_delInvalids (ms : List Mapping) (vm : Vm) :
    let vm' := ms.foldl (fun vm m => { vm with va := remove m vm.va }) vm
    vm'.pte = vm.pte ∧ vm'.boVa = vm.boVa ∧ vm'.freed = vm.freed ∧
      ∀ x, x ∈ vm'.va ↔ x ∈ vm.va ∧ x ∉ ms := by
  induction ms generalizing vm with
  | nil => simp
  | cons m ms ih =>
    obtain ⟨hpte, hboVa, hfreed, hva⟩ := ih { vm with va := remove m vm.va }
    refine ⟨hpte, hboVa, hfreed, fun x => ?_⟩
    rw [foldl_cons, hva, mem_remove, mem_cons, not_or, and_assoc]

theorem Inv.boDel (h : Inv dev vm) (hok : ∀ v, vm.boVa b = some v → ∀ m ∈ v.invalids,
    ∀ x, m.Covers x → isValid (vm.pte x) = true → Covered vm.freed x) :
    Inv dev (boDel vm b) := by
  unfold VmMap.boDel
  cases hv : vm.boVa b with
  | none => exact h
  | some v =>
    dsimp only
    obtain ⟨hpte1, hboVa1, hva1, hfreed1⟩ := foldl_delValids v.valids vm
    generalize v.valids.foldl _ vm = vm1 at hpte1 hboVa1 hva1 hfreed1
    obtain ⟨hpte, hboVa, hfreed, hva⟩ := foldl_delInvalids v.invalids vm1
    generalize v.invalids.foldl _ vm1 = vm2 at hpte hboVa hfreed hva
    have hlist : ∀ m ∈ vm.va, m.boVa = some b ↔ m ∈ v.valids ∨ m ∈ v.invalids := by
      intro m hm
      constructor
      · intro hb
        obtain ⟨c, w, hc, hw, hmem⟩ := h.owned m hm
        obtain rfl := some.inj (hb.symm.trans hc)
        obtain rfl := some.inj (hv.symm.trans hw)
        exact hmem
      · exact fun hmem => (h.listed b v hv m hmem).2
    have hdead : ∀ c, ({ vm2 with boVa := update vm2.boVa b none } : Vm).boVa c =
        if c = b then none else vm.boVa c := by
      intro c
      refine (update_apply ..).trans ?_
      rw [hboVa, hboVa1]
    refine @Inv.replaced dev vm _ (fun m => m.boVa = some b) (fun _ => []) h ?_
    refine ⟨hpte.trans hpte1, ?_, ?_, ?_, ?_, ?_, ?_, ?_, ?_⟩
    · intro x
      simp only [not_mem_nil, and_false, exists_false, or_false]
      rw [hva, hva1, and_assoc, ← not_or]
      exact and_congr_right fun hx => not_congr (hlist x hx).symm
    · intro c v' hv'
      rw [hdead] at hv'
      have hc : c ≠ b := by
        rintro rfl
        rw [if_pos rfl] at hv'
        cases hv'
      rw [if_neg hc] at hv'
      have hne : ∀ x, x ∈ v'.valids ∨ x ∈ v'.invalids → x.boVa ≠ some b := by
        intro x hx heq
        exact hc (some.inj ((h.listed c v' hv' x hx).2.symm.trans heq))
      refine ⟨v', hv', ⟨rfl, rfl, rfl⟩, fun x => ?_, fun x => ?_⟩
      · exact ⟨fun hx => ⟨hx, hne x (.inl hx)⟩, And.left⟩
      · simp only [not_mem_nil, and_false, exists_false, or_false]
        exact ⟨fun hx => ⟨hx, hne x (.inr hx)⟩, And.left⟩
    · intro c w hw
      by_cases hc : c = b
      · subst hc
        exact .inr fun m _ hb => ⟨hb, rfl⟩
      · refine .inl ⟨w, ?_⟩
        rw [hdead, if_neg hc, hw]
    · intro t _ _ p hp
      exact absurd hp not_mem_nil
    · intro t _ _ p hp
      exact absurd hp not_mem_nil
    · intro f hf
      rw [hfreed, hfreed1] at hf
      rcases hf with hf | ⟨m, hm, rfl⟩
      · exact .inl hf
      · obtain ⟨hmva, hown⟩ := h.listed b v hv m (.inl hm)
        exact .inr ⟨m, hmva, hown, le_refl _, le_refl _⟩
    · intro f hf
      rw [hfreed, hfreed1]
      exact .inl hf
    · intro t ht hown x hx hvalid
      refine .inr ?_
      rcases (hlist t ht).mp hown with hmem | hmem
      · refine ⟨{ t with boVa := none }, ?_, hx⟩
        rw [hfreed, hfreed1]
        exact .inr ⟨t, hmem, rfl⟩
      · obtain ⟨f, hf, hcov⟩ := hok v hv t hmem x hx hvalid
        refine ⟨f, ?_, hcov⟩
        rw [hfreed, hfreed1]
        exact .inl hf

end Unmap

end Amdkfd.VmMap
