import Amdkfd.Lib.PostOrder
import Mathlib.Data.Nat.Bitwise

/-!
# The depth-first walk of the page tables

`for_each_amdgpu_vm_pt_dfs_safe` goes through the entries of the page tables, children first. It
fetches the next entry before the body of the loop runs, so that the body may free the table of
the one before. An entry is the list of the indices that lead to it from `vm->root`, the last one
first.
-/

namespace Amdkfd.VmPt

open Lib.PostOrder List Option

/-! ## Model -/

/-- `AMDGPU_VM_PTB`, after `AMDGPU_VM_PDB2`, `AMDGPU_VM_PDB1` and `AMDGPU_VM_PDB0`. -/
def ptb : Nat := 3

/-- What is read of `adev->vm_manager`. -/
structure Device where
  rootLevel : Nat
  blockSize : Nat
  maxPfn : Nat
  rootLevel_lt : rootLevel < ptb
  maxPfn_pos : 0 < maxPfn

abbrev Path := List Nat

abbrev Tables := Path → Bool

/-- `struct amdgpu_vm_pt_cursor`. -/
structure PtCursor where
  pfn : Nat
  parent : Option Path
  entry : Option Path
  level : Nat
  deriving DecidableEq

section Model
variable (dev : Device) (bo : Tables)

def levelShift (level : Nat) : Nat :=
  if level < ptb then 9 * (ptb - 1 - level) + dev.blockSize
  else if level = ptb then 0
  else 2 ^ 32 - 1

def numEntries (level : Nat) : Nat :=
  let shift := levelShift dev dev.rootLevel
  if level = dev.rootLevel then ((dev.maxPfn + 2 ^ shift - 1) / 2 ^ shift * 2 ^ shift) >>> shift
  else if level ≠ ptb then 512
  else 2 ^ dev.blockSize

def entriesMask (level : Nat) : Nat :=
  if level ≤ dev.rootLevel then 0xffffffff
  else if level ≠ ptb then 0x1ff
  else 2 ^ dev.blockSize - 1

/-- The index of the entry for `pfn` in a table. -/
def index (pfn level : Nat) : Nat := (pfn >>> levelShift dev level) &&& entriesMask dev level

def levelOf (e : Path) : Nat := dev.rootLevel + e.length

/-- There is memory at an entry: it is the root, or one of the entries of a BO. -/
def live : Path → Bool
  | [] => true
  | i :: p => bo p && i < numEntries dev (levelOf dev p)

/-- `entry->bo`, whether it is there. It is `none` where there is no entry. -/
def readBo (e : Path) : Option Bool := if live dev bo e then some (bo e) else none

/-- `amdgpu_vm_pt_parent`: `pt->bo->parent->vm_bo`. It is `none` where there is no `pt->bo`. -/
def ptParent (pt : Path) : Option (Option Path) :=
  match readBo dev bo pt with
  | some true =>
    match pt with
    | [] => some none
    | _ :: p => some (if bo p then some p else none)
  | _ => none

/-- `amdgpu_vm_pt_start`. -/
def ptStart (pfn : Nat) : PtCursor :=
  { pfn := pfn, parent := none, entry := some [], level := dev.rootLevel }

/-- `amdgpu_vm_pt_descendant`, with the cursor if the walk was possible. It is `none` where it reads
what is not there. -/
def descendant (c : PtCursor) : Option (Option PtCursor) :=
  if c.level = ptb then some none
  else
    match c.entry with
    | none => some none
    | some e =>
      match readBo dev bo e with
      | none => none
      | some false => some none
      | some true => some (some
        { pfn := c.pfn
          parent := some e
          entry := some (index dev c.pfn c.level :: e)
          level := c.level + 1 })

/-- `amdgpu_vm_pt_sibling`. -/
def sibling (c : PtCursor) : Option (Option PtCursor) :=
  match c.parent, c.entry with
  | none, _ => some none
  | some p, some (i :: q) =>
    let shift := levelShift dev (c.level - 1)
    match readBo dev bo p with
    | some true =>
      if i :: q = (numEntries dev (c.level - 1) - 1) :: p then some none
      else some (some
        { c with
          pfn := ((c.pfn + 2 ^ shift) >>> shift) <<< shift
          entry := some ((i + 1) :: q) })
    | _ => none
  | some _, _ => none

/-- `amdgpu_vm_pt_ancestor`. -/
def ancestor (c : PtCursor) : Option (Option PtCursor) :=
  match c.parent with
  | none => some none
  | some p =>
    (ptParent dev bo p).map fun parent =>
      some { c with level := c.level - 1, entry := some p, parent := parent }

/-- `while (amdgpu_vm_pt_descendant(adev, cursor))`, for the levels below that of the cursor. -/
def descend : Nat → PtCursor → Option PtCursor
  | 0, c => some c
  | levels + 1, c =>
    match descendant dev bo c with
    | none => none
    | some none => some c
    | some (some c) => descend levels c

/-- The loop in `amdgpu_vm_pt_first_dfs` and `amdgpu_vm_pt_next_dfs`. -/
def descendAll (c : PtCursor) : Option PtCursor := descend dev bo (ptb - c.level) c

def firstDfs (start : Option PtCursor) : Option PtCursor :=
  descendAll dev bo (start.getD (ptStart dev 0))

def nextDfs (c : PtCursor) : Option PtCursor :=
  if c.entry = none then some c
  else if c.parent = none then some { c with entry := none }
  else
    match sibling dev bo c with
    | none => none
    | some (some c) => descendAll dev bo c
    | some none => (ancestor dev bo c).map (·.getD c)

def continueDfs (start : Option PtCursor) : Option Path → Bool
  | none => false
  | some e => start.all (·.entry ≠ some e)

end Model

/-- `for_each_amdgpu_vm_pt_dfs_safe` from a cursor on, for a state of type `σ`. Each round takes the
entry of the cursor and moves the cursor on before the body runs. The result has the entries that
are visited. -/
def dfsLoop {σ : Type} (dev : Device) (bo : σ → Tables) (start : Option PtCursor)
    (body : σ → Path → σ) : Nat → σ → PtCursor → Option (List Path × σ)
  | 0, _, _ => none
  | fuel + 1, s, c =>
    match nextDfs dev (bo s) c with
    | none => none
    | some next =>
      match c.entry with
      | none => some ([], s)
      | some e =>
        if continueDfs start c.entry then
          (dfsLoop dev bo start body fuel (body s e) next).map fun r => (e :: r.1, r.2)
        else some ([], s)

/-- `for_each_amdgpu_vm_pt_dfs_safe`. -/
def forEachDfs {σ : Type} (dev : Device) (bo : σ → Tables) (start : Option PtCursor)
    (body : σ → Path → σ) (fuel : Nat) (s : σ) : Option (List Path × σ) :=
  match firstDfs dev (bo s) start with
  | none => none
  | some c => dfsLoop dev bo start body fuel s c

/-! ## The tree -/

section
variable (dev : Device) (a : Tables)

def kids (p : Path) : Nat :=
  if a p && levelOf dev p < ptb then numEntries dev (levelOf dev p) else 0

def parentOf : Path → Option Path
  | [] => none
  | _ :: p => some p

structure At (c : PtCursor) (p : Path) : Prop where
  entry : c.entry = some p
  parent : c.parent = parentOf p
  level : c.level = levelOf dev p

end

section
variable {dev : Device} {a m : Tables} {p : Path} {c : PtCursor} {pfn level i : Nat}

theorem levelOf_cons : levelOf dev (i :: p) = levelOf dev p + 1 := rfl

theorem root_le_levelOf : dev.rootLevel ≤ levelOf dev p := Nat.le_add_right _ _

theorem numEntries_root :
    numEntries dev dev.rootLevel = (dev.maxPfn + 2 ^ levelShift dev dev.rootLevel - 1) /
      2 ^ levelShift dev dev.rootLevel := by
  unfold numEntries
  dsimp only
  rw [if_pos rfl, Nat.shiftRight_eq_div_pow, Nat.mul_div_cancel _ (Nat.two_pow_pos _)]

theorem index_lt (hge : dev.rootLevel ≤ level) (hlt : level < ptb)
    (hpfn : level = dev.rootLevel → pfn < dev.maxPfn) :
    index dev pfn level < numEntries dev level := by
  rcases eq_or_lt_of_le hge with rfl | hlower
  · have hshift := Nat.two_pow_pos (levelShift dev dev.rootLevel)
    have hle : index dev pfn dev.rootLevel ≤ pfn / 2 ^ levelShift dev dev.rootLevel := by
      rw [← Nat.shiftRight_eq_div_pow]
      exact Nat.and_le_left
    have hpage := hpfn rfl
    rw [numEntries_root]
    refine lt_of_le_of_lt hle (Nat.lt_of_succ_le ?_)
    rw [Nat.succ_eq_add_one, ← Nat.add_div_right _ hshift]
    exact Nat.div_le_div_right (by omega)
  · have hnum : numEntries dev level = 512 := by
      unfold numEntries
      dsimp only
      rw [if_neg (ne_of_gt hlower), if_pos (ne_of_lt hlt)]
    have hmask : entriesMask dev level = 0x1ff := by
      unfold entriesMask
      rw [if_neg (not_le.mpr hlower), if_pos (ne_of_lt hlt)]
    rw [hnum, index, hmask]
    exact Nat.lt_succ_of_le Nat.and_le_right

theorem numEntries_pos (hge : dev.rootLevel ≤ level) (hlt : level < ptb) :
    0 < numEntries dev level := by
  have hindex : index dev 0 level < numEntries dev level :=
    index_lt hge hlt fun _ => dev.maxPfn_pos
  exact lt_of_le_of_lt (Nat.zero_le _) hindex

theorem kids_eq (h : kids dev a p ≠ 0) :
    a p = true ∧ levelOf dev p < ptb ∧ kids dev a p = numEntries dev (levelOf dev p) := by
  unfold kids at h ⊢
  split at h
  · rename_i hand
    rw [Bool.and_eq_true, decide_eq_true_eq] at hand
    exact ⟨hand.1, hand.2, if_pos (by rw [hand.1, decide_eq_true hand.2]; rfl)⟩
  · exact absurd rfl h

theorem kids_of_deep (h : ptb ≤ levelOf dev p) : kids dev a p = 0 := by
  unfold kids
  rw [decide_eq_false (not_lt.mpr h), Bool.and_false]
  rfl

theorem kids_eq_zero (h : kids dev a p = 0) : a p = false ∨ ptb ≤ levelOf dev p := by
  unfold kids at h
  split at h
  · rename_i hand
    rw [Bool.and_eq_true, decide_eq_true_eq] at hand
    exact absurd h (ne_of_gt (numEntries_pos root_le_levelOf hand.2))
  · rename_i hand
    rw [Bool.and_eq_true, decide_eq_true_eq, not_and, not_lt] at hand
    cases hp : a p with
    | true => exact .inr (hand hp)
    | false => exact .inl rfl

theorem index_of_dvd (hlower : dev.rootLevel < level) (hlt : level < ptb)
    (hdvd : 2 ^ levelShift dev (level - 1) ∣ pfn) : index dev pfn level = 0 := by
  have hshift : levelShift dev (level - 1) = levelShift dev level + 9 := by
    unfold levelShift
    rw [if_pos (lt_of_le_of_lt (Nat.sub_le level 1) hlt), if_pos hlt]
    omega
  have hmask : entriesMask dev level = 2 ^ 9 - 1 := by
    unfold entriesMask
    rw [if_neg (not_le.mpr hlower), if_pos (ne_of_lt hlt)]
    rfl
  obtain ⟨k, rfl⟩ := hdvd
  rw [index, hmask, hshift, Nat.and_two_pow_sub_one_eq_mod, Nat.shiftRight_eq_div_pow, Nat.pow_add,
    mul_assoc, Nat.mul_div_cancel_left _ (Nat.two_pow_pos _), Nat.mul_mod_right]

theorem levelShift_dvd (hlt : level < ptb) (h : 2 ^ levelShift dev level ∣ pfn) :
    2 ^ levelShift dev (level + 1) ∣ pfn := by
  refine Nat.dvd_trans (Nat.pow_dvd_pow 2 ?_) h
  unfold levelShift
  rw [if_pos hlt]
  split
  · omega
  · rw [if_pos (by omega)]
    exact Nat.zero_le _

theorem atFirst_of_dvd {d : Nat} (hp : p ≠ [])
    (hdvd : 2 ^ levelShift dev (levelOf dev p - 1) ∣ pfn) :
    AtFirst (kids dev a) (fun q => index dev pfn (levelOf dev q)) d p := by
  induction d generalizing p with
  | zero => trivial
  | succ d ih =>
    intro hkids
    obtain ⟨-, hlt, -⟩ := kids_eq hkids
    have hpos : 0 < p.length := length_pos_of_ne_nil hp
    have hlower : dev.rootLevel < levelOf dev p := Nat.lt_add_of_pos_right hpos
    refine ⟨index_of_dvd hlower hlt hdvd, ih (cons_ne_nil 0 p) ?_⟩
    rw [levelOf_cons, Nat.add_sub_cancel]
    have hprev : levelOf dev p - 1 + 1 = levelOf dev p := Nat.sub_add_cancel (by omega)
    rw [← hprev]
    exact levelShift_dvd (by omega) hdvd

theorem atFirst_zero {d : Nat} :
    AtFirst (kids dev a) (fun q => index dev 0 (levelOf dev q)) d p := by
  induction d generalizing p with
  | zero => trivial
  | succ d ih =>
    refine fun _ => ⟨?_, ih⟩
    show (0 >>> _) &&& _ = 0
    rw [Nat.zero_shiftRight, Nat.zero_and]

theorem live_of_node (h : Node (kids dev a) p) : live dev a p = true ∧ levelOf dev p ≤ ptb := by
  cases h with
  | root => exact ⟨rfl, le_of_lt dev.rootLevel_lt⟩
  | @child q i hq hi =>
    obtain ⟨hbo, hlt, hkids⟩ := kids_eq (ne_of_gt (lt_of_le_of_lt (Nat.zero_le i) hi))
    rw [hkids] at hi
    refine ⟨?_, hlt⟩
    show (a q && decide (i < numEntries dev (levelOf dev q))) = true
    rw [hbo, decide_eq_true hi]
    rfl

/-! ## Steps of the cursor -/

theorem live_cons (hbo : m p = true) (hi : i < numEntries dev (levelOf dev p)) :
    live dev m (i :: p) = true := by
  show (m p && decide (i < numEntries dev (levelOf dev p))) = true
  rw [hbo, decide_eq_true hi]
  rfl

theorem readBo_of_live (h : live dev m p = true) : readBo dev m p = some (m p) := if_pos h

def childCursor (dev : Device) (c : PtCursor) (p : Path) : PtCursor :=
  { pfn := c.pfn
    parent := some p
    entry := some (index dev c.pfn (levelOf dev p) :: p)
    level := levelOf dev p + 1 }

theorem at_childCursor (dev : Device) (c : PtCursor) (p : Path) :
    At dev (childCursor dev c p) (index dev c.pfn (levelOf dev p) :: p) :=
  ⟨rfl, rfl, rfl⟩

theorem index_lt_of_at (hkids : kids dev m p ≠ 0) (hpfn : p = [] → pfn < dev.maxPfn) :
    m p = true ∧ levelOf dev p < ptb ∧
      index dev pfn (levelOf dev p) < numEntries dev (levelOf dev p) := by
  obtain ⟨hbo, hlt, -⟩ := kids_eq hkids
  have hroot : levelOf dev p = dev.rootLevel → pfn < dev.maxPfn := fun heq =>
    hpfn (length_eq_zero_iff.mp (Nat.add_eq_left.mp heq))
  exact ⟨hbo, hlt, index_lt root_le_levelOf hlt hroot⟩

section
variable (h : At dev c p)
include h

theorem descendAll_leaf (hlive : live dev m p = true) (hlevel : levelOf dev p ≤ ptb)
    (hkids : kids dev m p = 0) : descendAll dev m c = some c := by
  unfold descendAll
  rw [h.level]
  rcases eq_or_lt_of_le hlevel with heq | hlt
  · rw [heq, Nat.sub_self]
    rfl
  · have hbo : m p = false := (kids_eq_zero hkids).resolve_right (not_le.mpr hlt)
    obtain ⟨k, hk⟩ : ∃ k, ptb - levelOf dev p = k + 1 :=
      Nat.exists_eq_succ_of_ne_zero (Nat.sub_ne_zero_of_lt hlt)
    rw [hk, descend, descendant, h.level, if_neg (ne_of_lt hlt), h.entry]
    dsimp only
    rw [readBo_of_live hlive, hbo]

theorem descendAll_child (hlive : live dev m p = true) (hkids : kids dev m p ≠ 0) :
    descendAll dev m c = descendAll dev m (childCursor dev c p) := by
  obtain ⟨hbo, hlt, -⟩ := kids_eq hkids
  have hsub : ptb - levelOf dev p = ptb - (levelOf dev p + 1) + 1 := by omega
  unfold descendAll
  rw [h.level, hsub, descend, descendant, h.level, if_neg (ne_of_lt hlt), h.entry]
  dsimp only
  rw [readBo_of_live hlive, hbo]
  rfl

theorem At.induction {P : PtCursor → Path → Prop} (hlive : live dev m p = true)
    (hlevel : levelOf dev p ≤ ptb) (hpfn : p = [] → c.pfn < dev.maxPfn)
    (leaf : ∀ {c p}, At dev c p → live dev m p = true → levelOf dev p ≤ ptb → kids dev m p = 0 → P c p)
    (child : ∀ {c p}, At dev c p → live dev m p = true → kids dev m p ≠ 0 → index dev c.pfn (levelOf dev p) < numEntries dev (levelOf dev p) → P (childCursor dev c p) (index dev c.pfn (levelOf dev p) :: p) → P c p)
    : P c p := by
  obtain ⟨d, hd⟩ : ∃ d, levelOf dev p + d = ptb := Nat.le.dest hlevel
  induction d generalizing p c with
  | zero =>
    exact leaf h hlive hlevel (kids_of_deep (le_of_eq hd.symm))
  | succ d ih =>
    rcases Nat.eq_zero_or_pos (kids dev m p) with hzero | hpos
    · exact leaf h hlive hlevel hzero
    · obtain ⟨hbo, hlt, hidx⟩ := index_lt_of_at (ne_of_gt hpos) hpfn
      have hd' : levelOf dev p + 1 + d = ptb := by
        rw [add_assoc, add_comm 1]
        exact hd
      exact child h hlive (ne_of_gt hpos) hidx (ih (at_childCursor dev c p)
        (live_cons hbo hidx) hlt (fun hnil => by cases hnil) hd')

theorem descendAll_congr {m' : Tables} (hlive : live dev m p = true) (hlive' : live dev m' p = true)
    (hlevel : levelOf dev p ≤ ptb) (hpfn : p = [] → c.pfn < dev.maxPfn)
    (hagree : ∀ x, p <:+ x → m' x = m x) : descendAll dev m' c = descendAll dev m c := by
  have hkids : ∀ {p : Path}, (∀ x, p <:+ x → m' x = m x) → kids dev m' p = kids dev m p := by
    intro p hagree
    unfold kids
    rw [hagree p suffix_rfl]
  revert hlive' hagree
  refine h.induction (P := fun c p => live dev m' p = true → (∀ x, p <:+ x → m' x = m x) →
    descendAll dev m' c = descendAll dev m c) hlive hlevel hpfn ?_ ?_
  · intro c p h hlive hlevel hzero hlive' hagree
    rw [descendAll_leaf h hlive hlevel hzero,
      descendAll_leaf h hlive' hlevel ((hkids hagree).trans hzero)]
  · intro c p h hlive hne hidx ih hlive' hagree
    rw [descendAll_child h hlive hne, descendAll_child h hlive' (hkids hagree ▸ hne)]
    refine ih (live_cons ?_ hidx) fun x hx => hagree x (suffix_of_child hx).1
    rw [hagree p suffix_rfl]
    exact (kids_eq hne).1

theorem descendAll_isSome (hlive : live dev m p = true) (hlevel : levelOf dev p ≤ ptb)
    (hpfn : p = [] → c.pfn < dev.maxPfn) : ∃ c', descendAll dev m c = some c' := by
  refine h.induction (P := fun c _ => ∃ c', descendAll dev m c = some c') hlive hlevel hpfn ?_ ?_
  · exact fun h hlive hlevel hzero => ⟨_, descendAll_leaf h hlive hlevel hzero⟩
  · intro c p h hlive hne _ ih
    rw [descendAll_child h hlive hne]
    exact ih

end

theorem nextDfs_sibling (h : At dev c (i :: p)) (hlive : live dev m p = true) (hbo : m p = true)
    (hi : i + 1 < numEntries dev (levelOf dev p)) :
    ∃ c', At dev c' ((i + 1) :: p) ∧ 2 ^ levelShift dev (levelOf dev p) ∣ c'.pfn ∧
      nextDfs dev m c = descendAll dev m c' := by
  have hlevel : c.level - 1 = levelOf dev p := by
    rw [h.level, levelOf_cons, Nat.add_sub_cancel]
  have hparent : c.parent = some p := h.parent
  have hlast : i :: p ≠ (numEntries dev (levelOf dev p) - 1) :: p := by
    intro heq
    have heq := (cons.inj heq).1
    omega
  refine ⟨{ c with
      pfn := ((c.pfn + 2 ^ levelShift dev (levelOf dev p)) >>> levelShift dev (levelOf dev p)) <<<
        levelShift dev (levelOf dev p)
      entry := some ((i + 1) :: p) }, ⟨rfl, hparent, h.level⟩, ?_, ?_⟩
  · rw [Nat.shiftLeft_eq]
    exact Nat.dvd_mul_left _ _
  · unfold nextDfs sibling
    rw [h.entry, hparent, if_neg (some_ne_none _), if_neg (some_ne_none _)]
    dsimp only
    rw [readBo_of_live hlive, hbo, hlevel]
    dsimp only
    rw [if_neg hlast]

theorem nextDfs_ancestor (h : At dev c (i :: p)) (hlive : live dev m p = true) (hbo : m p = true)
    (hi : i + 1 = numEntries dev (levelOf dev p)) :
    ∃ c', At dev c' p ∧ nextDfs dev m c = some c' := by
  have hlevel : c.level - 1 = levelOf dev p := by
    rw [h.level, levelOf_cons, Nat.add_sub_cancel]
  have hparent : c.parent = some p := h.parent
  have hlast : numEntries dev (levelOf dev p) - 1 = i := by rw [← hi, Nat.add_sub_cancel]
  have hptParent : ptParent dev m p = some (parentOf p) := by
    unfold ptParent
    rw [readBo_of_live hlive, hbo]
    cases p with
    | nil => rfl
    | cons j q =>
      have hand : (m q && decide (j < numEntries dev (levelOf dev q))) = true := hlive
      rw [Bool.and_eq_true] at hand
      dsimp only
      rw [if_pos hand.1]
      rfl
  refine ⟨{ c with level := c.level - 1, entry := some p, parent := parentOf p },
    ⟨rfl, rfl, hlevel⟩, ?_⟩
  unfold nextDfs sibling ancestor
  rw [h.entry, hparent, if_neg (some_ne_none _), if_neg (some_ne_none _)]
  dsimp only
  rw [readBo_of_live hlive, hbo, hlevel, hlast]
  dsimp only
  rw [if_pos rfl, hptParent]
  rfl

end

/-! ## The loop -/

section
variable {σ : Type} (dev : Device) (bo : σ → Tables) (start : Option PtCursor) (body : σ → Path → σ)

/-- Rounds of the loop: the entries they visit, and where they lead. -/
inductive Visits : σ → PtCursor → List Path → σ → PtCursor → Prop
  | nil (s : σ) (c : PtCursor) : Visits s c [] s c
  | cons {s s' : σ} {c next c' : PtCursor} {e : Path} {es : List Path} :
    c.entry = some e → continueDfs start (some e) = true → nextDfs dev (bo s) c = some next →
    Visits (body s e) next es s' c' → Visits s c (e :: es) s' c'

end

section
variable {σ : Type} {dev : Device} {bo : σ → Tables} {start : Option PtCursor} {body : σ → Path → σ}
  {s s' s'' : σ} {c c' c'' : PtCursor} {es es' : List Path}

section
variable (h : Visits dev bo start body s c es s' c')
include h

theorem Visits.append (h' : Visits dev bo start body s' c' es' s'' c'') :
    Visits dev bo start body s c (es ++ es') s'' c'' := by
  induction h with
  | nil s c => exact h'
  | cons hentry hcontinue hnext _ ih => exact .cons hentry hcontinue hnext (ih h')

theorem Visits.state_eq : s' = es.foldl body s := by
  induction h with
  | nil s c => rfl
  | cons _ _ _ _ ih => exact ih

theorem Visits.dfsLoop {fuel : Nat} {r : List Path × σ}
    (hr : dfsLoop dev bo start body fuel s' c' = some r) :
    dfsLoop dev bo start body (fuel + es.length) s c = some (es ++ r.1, r.2) := by
  induction h with
  | nil s c => exact hr
  | cons hentry hcontinue hnext _ ih =>
    rw [length_cons, ← add_assoc, VmPt.dfsLoop, hnext, hentry]
    dsimp only
    rw [if_pos hcontinue, ih hr]
    rfl

end

variable {a : Tables}

def firstOf (dev : Device) (pfn : Nat) : Path → Nat := fun q => index dev pfn (levelOf dev q)

def MayVisit (start : Option PtCursor) (p : Path) : Prop :=
  ∀ e, p <:+ e → e ≠ p → continueDfs start (some e) = true

def Below (p x : Path) : Prop := p <:+ x ∧ p.length < x.length

theorem Below.of_child {i : Nat} {p x : Path} (h : i :: p <:+ x) : Below p x := suffix_of_child h

/-- From the way down of the cursor the loop visits `es`, all below `p`, and gets to `p`. -/
def WalksTo (dev : Device) (bo : σ → Tables) (start : Option PtCursor) (body : σ → Path → σ) (s : σ)
    (c : PtCursor) (es : List Path) (p : Path) : Prop :=
  ∃ c0 s' c', descendAll dev (bo s) c = some c0 ∧ Visits dev bo start body s c0 es s' c' ∧
    At dev c' p ∧ ∀ x, ¬ Below p x → bo s' x = bo s x

theorem live_congr {m m' : Tables} {p : Path} (h : ∀ q, q.length < p.length → m' q = m q) :
    live dev m' p = live dev m p := by
  cases p with
  | nil => rfl
  | cons i q =>
    show (m' q && _) = (m q && _)
    rw [h q (Nat.lt_succ_self _)]

theorem parent_of_frame {m m' : Tables} {i : Nat} {p : Path}
    (hframe : ∀ x, ¬ Below (i :: p) x → m' x = m x) :
    m' p = m p ∧ live dev m' p = live dev m p := by
  have hshort : ∀ q : Path, q.length < (i :: p).length → m' q = m q := fun q hq =>
    hframe q fun hbelow => absurd (lt_trans hq hbelow.2) (lt_irrefl _)
  exact ⟨hshort p (Nat.lt_succ_self _), live_congr fun q hq => hshort q (Nat.lt_succ_of_lt hq)⟩

theorem walksTo_children {d : Nat} {p : Path} (hbody : ∀ s e x, x ≠ e → bo (body s e) x = bo s x)
    (hmay : MayVisit start p)
    (hsub : ∀ {i : Nat} {s : σ} {c : PtCursor}, At dev c (i :: p) →
      live dev (bo s) (i :: p) = true → (∀ x, i :: p <:+ x → bo s x = a x) →
      WalksTo dev bo start body s c
        (belowFrom (kids dev a) (firstOf dev c.pfn) d (i :: p)) (i :: p))
    (hlevel : levelOf dev p < ptb) (k : Nat) :
    ∀ {i : Nat} {s : σ} {c : PtCursor}, i + (k + 1) = numEntries dev (levelOf dev p) →
      At dev c (i :: p) → bo s p = true → live dev (bo s) p = true →
      (∀ j, i ≤ j → ∀ x, j :: p <:+ x → bo s x = a x) →
      WalksTo dev bo start body s c
        (belowFrom (kids dev a) (firstOf dev c.pfn) d (i :: p) ++ (i :: p) ::
          (range' (i + 1) k).flatMap fun j => below (kids dev a) d (j :: p) ++ [j :: p])
        p := by
  have hcontinue : ∀ i : Nat, continueDfs start (some (i :: p)) = true := fun i =>
    hmay _ (suffix_cons i p) (cons_ne_self i p)
  -- On the number of children right of the cursor; behind the last one the walk goes up.
  induction k with
  | zero =>
    intro i s c hi hat hbo hlive hagree
    have hlive' : live dev (bo s) (i :: p) = true := live_cons hbo (by omega)
    obtain ⟨c0, s1, c1, hdesc, hvisits, hat1, hframe⟩ :=
      hsub hat hlive' (hagree i (le_refl i))
    obtain ⟨hbo1, hlive1⟩ := @parent_of_frame dev _ _ i p hframe
    obtain ⟨c2, hat2, hnext⟩ := nextDfs_ancestor hat1 (hlive1.trans hlive) (hbo1.trans hbo) hi
    refine ⟨c0, body s1 (i :: p), c2, hdesc, ?_, hat2, fun x hx => ?_⟩
    · exact hvisits.append (.cons hat1.entry (hcontinue i) hnext (.nil _ _))
    · have hne : x ≠ i :: p := by
        rintro rfl
        exact hx (Below.of_child suffix_rfl)
      rw [hbody s1 _ x hne]
      exact hframe x fun hbelow => hx (Below.of_child hbelow.1)
  | succ k ihk =>
    intro i s c hi hat hbo hlive hagree
    have hlive' : live dev (bo s) (i :: p) = true := live_cons hbo (by omega)
    obtain ⟨c0, s1, c1, hdesc, hvisits, hat1, hframe⟩ :=
      hsub hat hlive' (hagree i (le_refl i))
    obtain ⟨hbo1, hlive1⟩ := @parent_of_frame dev _ _ i p hframe
    obtain ⟨c2, hat2, hdvd, hnext⟩ :=
      nextDfs_sibling hat1 (hlive1.trans hlive) (hbo1.trans hbo) (by omega)
    -- The body frees at most the child that it visits.
    have hbody1 : ∀ x, x ≠ i :: p → bo (body s1 (i :: p)) x = bo s1 x := fun x hx =>
      hbody s1 (i :: p) x hx
    have hparent : ∀ q : Path, q.length < (i :: p).length → bo (body s1 (i :: p)) q = bo s1 q :=
      fun q hq => hbody1 q fun heq => absurd hq (by rw [heq]; exact lt_irrefl _)
    have hbo2 : bo (body s1 (i :: p)) p = true :=
      (hparent p (Nat.lt_succ_self _)).trans (hbo1.trans hbo)
    have hlive2 : live dev (bo (body s1 (i :: p))) p = true :=
      (live_congr fun q hq => hparent q (Nat.lt_succ_of_lt hq)).trans (hlive1.trans hlive)
    have hother : ∀ j, i < j → ∀ x, j :: p <:+ x → x ≠ i :: p ∧ ¬ Below (i :: p) x := by
      intro j hij x hx
      refine ⟨?_, fun hbelow => ne_of_lt hij (child_unique hbelow.1 hx)⟩
      rintro rfl
      exact ne_of_lt hij (child_unique suffix_rfl hx)
    have hagree2 : ∀ j, i + 1 ≤ j → ∀ x, j :: p <:+ x → bo (body s1 (i :: p)) x = a x := by
      intro j hj x hx
      obtain ⟨hne, hnot⟩ := hother j hj x hx
      rw [hbody1 x hne, hframe x hnot]
      exact hagree j (Nat.le_of_succ_le hj) x hx
    obtain ⟨c3, s3, c4, hdesc3, hvisits3, hat4, hframe3⟩ :=
      ihk (by omega) hat2 hbo2 hlive2 hagree2
    have hlt : i + 1 < numEntries dev (levelOf dev p) := by omega
    have hnext3 : nextDfs dev (bo s1) c1 = some c3 := by
      rw [hnext, ← hdesc3]
      refine descendAll_congr hat2 (live_cons hbo2 hlt) (live_cons (hbo1.trans hbo) hlt) hlevel
        (fun hnil => by cases hnil) fun x hx => ?_
      exact (hbody1 x (hother (i + 1) (Nat.lt_succ_self i) x hx).1).symm
    have hfirst : belowFrom (kids dev a) (firstOf dev c2.pfn) d ((i + 1) :: p) =
        below (kids dev a) d ((i + 1) :: p) :=
      belowFrom_eq_below (atFirst_of_dvd (cons_ne_nil _ _) hdvd)
    refine ⟨c0, s3, c4, hdesc, ?_, hat4, fun x hx => ?_⟩
    · rw [hfirst] at hvisits3
      have hall := hvisits.append (.cons hat1.entry (hcontinue i) hnext3 hvisits3)
      rw [range'_succ, flatMap_cons, append_assoc]
      exact hall
    · have hne : x ≠ i :: p := by
        rintro rfl
        exact hx (Below.of_child suffix_rfl)
      rw [hframe3 x hx, hbody1 x hne]
      exact hframe x fun hbelow => hx (Below.of_child hbelow.1)

theorem visits_subtree (hbody : ∀ s e x, x ≠ e → bo (body s e) x = bo s x) {d : Nat} :
    ∀ {p : Path} {s : σ} {c : PtCursor}, levelOf dev p + d = ptb → At dev c p →
      live dev (bo s) p = true → (p = [] → c.pfn < dev.maxPfn) →
      (∀ x, p <:+ x → bo s x = a x) → MayVisit start p →
      WalksTo dev bo start body s c (belowFrom (kids dev a) (firstOf dev c.pfn) d p) p := by
  -- On the number of levels below the entry.
  induction d with
  | zero =>
    intro p s c hlevel hat hlive _ _ _
    have hend : levelOf dev p = ptb := hlevel
    have hkids : kids dev (bo s) p = 0 := kids_of_deep (le_of_eq hend.symm)
    exact ⟨c, s, c, descendAll_leaf hat hlive (le_of_eq hend) hkids, .nil s c, hat,
      fun _ _ => rfl⟩
  | succ d ih =>
    intro p s c hlevel hat hlive hpfn hagree hmay
    have hlt : levelOf dev p < ptb := Nat.lt_of_succ_le (by omega)
    have hkids : kids dev (bo s) p = kids dev a p := by
      unfold kids
      rw [hagree p suffix_rfl]
    rw [belowFrom]
    rcases Nat.eq_zero_or_pos (kids dev a p) with hzero | hpos
    · rw [if_pos hzero]
      exact ⟨c, s, c, descendAll_leaf hat hlive (le_of_lt hlt) (hkids.trans hzero), .nil s c,
        hat, fun _ _ => rfl⟩
    · have hne := ne_of_gt hpos
      obtain ⟨hbo, -, hidx⟩ := index_lt_of_at (hkids ▸ hne) hpfn
      obtain ⟨-, -, hnum⟩ := kids_eq hne
      obtain ⟨k, hk⟩ : ∃ k, index dev c.pfn (levelOf dev p) + (k + 1) =
          numEntries dev (levelOf dev p) :=
        ⟨numEntries dev (levelOf dev p) - index dev c.pfn (levelOf dev p) - 1, by omega⟩
      have hrest : kids dev a p - (firstOf dev c.pfn p + 1) = k := by
        rw [hnum, ← hk]
        show index dev c.pfn (levelOf dev p) + (k + 1) - (index dev c.pfn (levelOf dev p) + 1) = k
        omega
      rw [if_neg hne, hrest]
      obtain ⟨c0, s', c', hdesc, hvisits, hat', hframe⟩ :=
        walksTo_children hbody hmay (fun {i s c} hat hlive hagree =>
          ih (by rw [levelOf_cons]; omega) hat hlive (fun hnil => by cases hnil) hagree
            fun e he hne => hmay e (suffix_of_child he).1 fun heq =>
              absurd (suffix_of_child he).2 (by rw [heq]; exact lt_irrefl _))
          hlt k hk (at_childCursor dev c p) hbo hlive
          fun j _ x hx => hagree x (suffix_of_child hx).1
      exact ⟨c0, s', c', (descendAll_child hat hlive (hkids ▸ hne)).trans hdesc, hvisits, hat',
        hframe⟩

def startPath (start : Option PtCursor) : Path := (start.bind (·.entry)).getD []

/-- The cursor that a walk may start at: that of an entry of the tree, for a page of the VM. -/
def StartOk (dev : Device) (a : Tables) : Option PtCursor → Prop
  | none => True
  | some c => ∃ p, At dev c p ∧ Node (kids dev a) p ∧ (p = [] → c.pfn < dev.maxPfn)

/-- What the walk visits, in order. -/
def visited (dev : Device) (a : Tables) (start : Option PtCursor) : List Path :=
  let c := start.getD (ptStart dev 0)
  belowFrom (kids dev a) (firstOf dev c.pfn) (ptb - c.level) (startPath start) ++
    if start.isNone then [[]] else []

theorem nextDfs_isSome {m : Tables} {p : Path} (h : At dev c p) (hnode : Node (kids dev m) p) :
    ∃ c', nextDfs dev m c = some c' := by
  cases hnode with
  | root =>
    refine ⟨{ c with entry := none }, ?_⟩
    unfold nextDfs
    rw [h.entry, h.parent, if_neg (some_ne_none _)]
    rfl
  | @child q i hq hi =>
    obtain ⟨hbo, hlt, hnum⟩ := kids_eq (ne_of_gt (lt_of_le_of_lt (Nat.zero_le i) hi))
    rw [hnum] at hi
    have hlive := (live_of_node hq).1
    rcases eq_or_lt_of_le (Nat.succ_le_of_lt hi) with hlast | hmore
    · obtain ⟨c', -, hnext⟩ := nextDfs_ancestor h hlive hbo hlast
      exact ⟨c', hnext⟩
    · obtain ⟨c', hat', -, hnext⟩ := nextDfs_sibling h hlive hbo hmore
      rw [hnext]
      exact descendAll_isSome hat' (live_cons hbo hmore) hlt fun hnil => by cases hnil

theorem node_congr {m : Tables} {p : Path} (h : Node (kids dev a) p)
    (hagree : ∀ q, q.length < p.length → m q = a q) : Node (kids dev m) p := by
  induction h with
  | root => exact .root
  | @child q i hq hi ih =>
    refine .child (ih fun r hr => hagree r (Nat.lt_succ_of_lt hr)) ?_
    unfold kids
    rw [hagree q (Nat.lt_succ_self _)]
    exact hi

theorem dfs_visits (hbody : ∀ s e x, x ≠ e → bo (body s e) x = bo s x)
    (hstart : StartOk dev (bo s) start) :
    ∃ N, ∀ fuel, N ≤ fuel → forEachDfs dev bo start body fuel s =
      some (visited dev (bo s) start, (visited dev (bo s) start).foldl body s) := by
  have hrun : ∀ {c0 c' : PtCursor} {s' : σ} {es : List Path},
      firstDfs dev (bo s) start = some c0 → Visits dev bo start body s c0 es s' c' →
      (∀ fuel, dfsLoop dev bo start body (fuel + 1) s' c' = some ([], s')) →
      ∃ N, ∀ fuel, N ≤ fuel →
        forEachDfs dev bo start body fuel s = some (es, es.foldl body s) := by
    intro c0 c' s' es hfirst hvisits hend
    refine ⟨1 + es.length, fun fuel hfuel => ?_⟩
    obtain ⟨k, rfl⟩ := Nat.exists_eq_add_of_le hfuel
    have hfuel' : 1 + es.length + k = k + 1 + es.length := by omega
    rw [forEachDfs, hfirst, hfuel']
    dsimp only
    rw [hvisits.dfsLoop (hend k), append_nil, ← hvisits.state_eq]
  cases start with
  | none =>
    have hmay : MayVisit none [] := fun _ _ _ => rfl
    have hat : At dev (ptStart dev 0) [] := ⟨rfl, rfl, rfl⟩
    have hlevel : levelOf dev [] + (ptb - dev.rootLevel) = ptb :=
      Nat.add_sub_cancel' (le_of_lt dev.rootLevel_lt)
    obtain ⟨c0, s', c', hdesc, hvisits, hat', -⟩ := visits_subtree hbody hlevel hat rfl
      (fun _ => dev.maxPfn_pos) (fun _ _ => rfl) hmay
    have hnext : nextDfs dev (bo s') c' = some { c' with entry := none } := by
      unfold nextDfs
      rw [hat'.entry, hat'.parent, if_neg (some_ne_none _)]
      rfl
    exact hrun hdesc (hvisits.append (.cons hat'.entry rfl hnext (.nil _ _))) fun _ => rfl
  | some c =>
    obtain ⟨p, hat, hnode, hpfn⟩ := hstart
    obtain ⟨hlive, hle⟩ := live_of_node hnode
    have hpath : startPath (some c) = p := by
      show (c.entry).getD [] = p
      rw [hat.entry]
      rfl
    have hlevel : levelOf dev p + (ptb - c.level) = ptb := by
      rw [hat.level]
      exact Nat.add_sub_cancel' hle
    have hmay : MayVisit (some c) p := by
      intro e _ hne
      show decide (c.entry ≠ some e) = true
      rw [hat.entry]
      exact decide_eq_true fun heq => hne (some.inj heq).symm
    obtain ⟨c0, s', c', hdesc, hvisits, hat', hframe⟩ := visits_subtree hbody hlevel hat hlive hpfn
      (fun _ _ => rfl) hmay
    have hnode' : Node (kids dev (bo s')) p := node_congr hnode fun q hq =>
      hframe q fun hbelow => lt_asymm hq hbelow.2
    obtain ⟨next, hnext⟩ := nextDfs_isSome hat' hnode'
    -- The loop stops at its start and does not visit it.
    have hstop : continueDfs (some c) c'.entry = false := by
      rw [hat'.entry]
      show decide (c.entry ≠ some p) = false
      rw [hat.entry]
      exact decide_eq_false (not_not_intro rfl)
    have hvisited : visited dev (bo s) (some c) =
        belowFrom (kids dev (bo s)) (firstOf dev c.pfn) (ptb - c.level) p := by
      show belowFrom _ _ _ (startPath (some c)) ++ [] = _
      rw [hpath, append_nil]
      rfl
    rw [hvisited]
    refine hrun hdesc hvisits fun fuel => ?_
    rw [VmPt.dfsLoop, hnext]
    dsimp only
    rw [hstop, hat'.entry]
    rfl

end

end Amdkfd.VmPt
