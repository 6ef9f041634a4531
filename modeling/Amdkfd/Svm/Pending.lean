import Amdkfd.Svm.UnmapSplit

/-!
# Unmapped intervals before the worker runs

Between an unmap notification and the deferred work, a range and its children
together stand for what is left of the range. `Svms.pending` collects them.
-/

namespace Amdkfd.Svm

open Lib List

def Svms.ids (s : Svms) : List Nat :=
  s.list.flatMap fun id => id :: (s.heap id).children

def Svms.pending (s : Svms) : List (Piece Attrs) :=
  s.ids.flatMap fun id => (s.heap id).livePiece

variable {s : Svms}

theorem Svms.mem_ids_of_mem {id : Nat} (h : id ∈ s.list) : id ∈ s.ids :=
  mem_flatMap.mpr ⟨id, h, mem_cons_self⟩

theorem Svms.ids_eq_list (h : ∀ id ∈ s.list, (s.heap id).children = []) : s.ids = s.list := by
  unfold Svms.ids
  rw [flatMap_congr fun y hy => by rw [h y hy], flatMap_singleton']

theorem Svms.pending_eq_map (h : ∀ id ∈ s.list, (s.heap id).children = [])
    (hlive : ∀ id ∈ s.list, (s.heap id).workOp ≠ .unmapRange) :
    s.pending = s.list.map fun id => (s.heap id).piece := by
  unfold Svms.pending
  rw [Svms.ids_eq_list h, map_eq_flatMap]
  refine flatMap_congr fun y hy => ?_
  rw [Range.livePiece, if_neg (hlive y hy)]

structure Svms.Rest (s : Svms) (m : Nat → Option Attrs) : Prop extends s.Ok m where
  notifier : ∀ id ∈ s.list, (s.heap id).notifierStart = (s.heap id).start ∧
    (s.heap id).notifierLast = (s.heap id).last
  children : ∀ id ∈ s.list, (s.heap id).children = []
  live : ∀ id ∈ s.list, (s.heap id).workOp ≠ .unmapRange

/-- Some values on the interval from `a` to `b` are gone. -/
def Erased (a b : Nat) (m m' : Nat → Option Attrs) : Prop :=
  (∀ x, ¬(a ≤ x ∧ x ≤ b) → m' x = m x) ∧ ∀ x, m' x = m x ∨ m' x = none

theorem Erased.refl (a b : Nat) (m : Nat → Option Attrs) : Erased a b m m :=
  ⟨fun _ _ => rfl, fun _ => .inl rfl⟩

theorem Erased.trans {a b : Nat} {m m' m'' : Nat → Option Attrs} (h : Erased a b m m')
    (h' : Erased a b m' m'') : Erased a b m m'' := by
  refine ⟨fun x hx => (h'.1 x hx).trans (h.1 x hx), fun x => ?_⟩
  rcases h'.2 x with hx | hx
  · rw [hx]
    exact h.2 x
  · exact .inr hx

/-- Ranges that notifications have split. The tree nodes and notifiers are still
those from before; what is left of a range and its children are inside of its node,
and the nodes are disjoint. -/
structure Pending (s : Svms) (m : Nat → Option Attrs) : Prop where
  perm : s.list.Perm s.tree
  nodup : s.ids.Nodup
  lt : ∀ y ∈ s.ids, y < s.next
  sorted : s.tree.Pairwise fun x y => (s.heap x).itStart ≤ (s.heap y).itStart
  notifier : ∀ id ∈ s.list, (s.heap id).notifierStart = (s.heap id).itStart ∧
    (s.heap id).notifierLast = (s.heap id).itLast
  within : ∀ id ∈ s.list, (s.heap id).itStart ≤ (s.heap id).start ∧
    (s.heap id).start ≤ (s.heap id).last ∧ (s.heap id).last ≤ (s.heap id).itLast
  child : ∀ id ∈ s.list, ∀ c ∈ (s.heap id).children,
    (s.heap c).ChildIn (s.heap id).itStart (s.heap id).itLast
  apart : ∀ x ∈ s.list, ∀ y ∈ s.list, x ≠ y →
    (s.heap x).itLast < (s.heap y).itStart ∨ (s.heap y).itLast < (s.heap x).itStart
  rep : Represents s.pending m

/-- The step changes no link and no tree node. -/
structure SameNodes (s s' : Svms) : Prop where
  list : s'.list = s.list
  tree : s'.tree = s.tree
  node : ∀ id ∈ s.list, (s'.heap id).itStart = (s.heap id).itStart ∧
    (s'.heap id).itLast = (s.heap id).itLast

theorem SameNodes.refl (s : Svms) : SameNodes s s :=
  ⟨rfl, rfl, fun _ _ => ⟨rfl, rfl⟩⟩

theorem SameNodes.trans {s s' s'' : Svms} (h : SameNodes s s') (h' : SameNodes s' s'') :
    SameNodes s s'' := by
  refine ⟨h'.list.trans h.list, h'.tree.trans h.tree, fun id hid => ?_⟩
  obtain ⟨h1, h2⟩ := h.node id hid
  obtain ⟨h3, h4⟩ := h'.node id (h.list ▸ hid)
  exact ⟨h3.trans h1, h4.trans h2⟩

theorem Svms.list_nodup_of_ids (h : s.ids.Nodup) : s.list.Nodup := by
  refine (nodup_flatMap.mp h).2.imp fun {x y} hxy heq => ?_
  subst heq
  exact hxy mem_cons_self mem_cons_self

theorem Svms.family_disjoint {x y c : Nat} (h : s.ids.Nodup) (hx : x ∈ s.list) (hy : y ∈ s.list)
    (hne : x ≠ y) (hc : c ∈ x :: (s.heap x).children) :
    c ∉ y :: (s.heap y).children := by
  have hsymm : Std.Symm fun x y => (Function.onFun Disjoint
      fun id => id :: (s.heap id).children) x y := ⟨fun _ _ h => h.symm⟩
  exact (nodup_flatMap.mp h).2.forall hx hy hne hc

theorem Svms.children_disjoint {x y c : Nat} (h : s.ids.Nodup) (hx : x ∈ s.list) (hy : y ∈ s.list)
    (hne : x ≠ y) (hc : c ∈ (s.heap x).children) : c ∉ (s.heap y).children :=
  fun hc' => Svms.family_disjoint h hx hy hne (mem_cons_of_mem _ hc)
    (mem_cons_of_mem _ hc')

theorem Svms.child_not_mem_list {id c : Nat} (h : s.ids.Nodup) (hid : id ∈ s.list)
    (hc : c ∈ (s.heap id).children) : c ∉ s.list := by
  intro hmem
  by_cases heq : c = id
  · subst heq
    exact (nodup_cons.mp ((nodup_flatMap.mp h).1 c hid)).1 hc
  · exact Svms.family_disjoint h hmem hid heq mem_cons_self (mem_cons_of_mem _ hc)

section Pending
variable {s s' : Svms} {m : Nat → Option Attrs} {id x a b : Nat} {news : List Nat}

theorem Pending.family (h : Pending s m) (hid : id ∈ s.list)
    (hx : x ∈ id :: (s.heap id).children) :
    x ∈ s.ids ∧ (s.heap id).itStart ≤ (s.heap x).start ∧
      (s.heap x).start ≤ (s.heap x).last ∧ (s.heap x).last ≤ (s.heap id).itLast := by
  refine ⟨mem_flatMap.mpr ⟨id, hid, hx⟩, ?_⟩
  rcases mem_cons.mp hx with rfl | hx
  · exact h.within x hid
  · have hchild := h.child id hid x hx
    exact ⟨hchild.start_le, hchild.le, hchild.last_le⟩

section
variable (h : SplitOff s s' id x a b news)
include h

theorem SplitOff.ids_perm (hlt : ∀ y ∈ s.list, y < s.next) (hnodup : s.list.Nodup)
    (hid : id ∈ s.list) : s'.ids.Perm (news ++ s.ids) := by
  have hperm := perm_cons_erase hid
  unfold Svms.ids
  rw [h.list]
  refine (hperm.flatMap_right _).trans (.trans ?_ ((hperm.flatMap_right _).symm.append_left _))
  have hother : (s.list.erase id).flatMap (fun y => y :: (s'.heap y).children) =
      (s.list.erase id).flatMap fun y => y :: (s.heap y).children := by
    refine flatMap_congr fun y hy => ?_
    obtain ⟨hne, hmem⟩ := hnodup.mem_erase_iff.mp hy
    rw [h.children y (hlt y hmem), if_neg hne]
  rw [flatMap_cons, flatMap_cons, hother, h.children id (hlt id hid), if_pos rfl,
    ← append_assoc]
  refine List.Perm.append_right _ ?_
  have hcomm : ((id :: (s.heap id).children) ++ news).Perm (news ++ id :: (s.heap id).children) :=
    perm_append_comm
  exact hcomm

theorem SplitOff.pending_perm (hids : s'.ids.Perm (news ++ s.ids)) (hlt : ∀ y ∈ s.ids, y < s.next)
    (hnodup : s.ids.Nodup) (hx : x ∈ s.ids) :
    ∃ rest, s.pending.Perm ((s.heap x).livePiece ++ rest) ∧
      s'.pending.Perm ((x :: news).flatMap (fun y => (s'.heap y).livePiece) ++ rest) := by
  have hperm := perm_cons_erase hx
  refine ⟨(s.ids.erase x).flatMap fun y => (s.heap y).livePiece, hperm.flatMap_right _, ?_⟩
  have hother : (s.ids.erase x).flatMap (fun y => (s'.heap y).livePiece) =
      (s.ids.erase x).flatMap fun y => (s.heap y).livePiece := by
    refine flatMap_congr fun y hy => ?_
    obtain ⟨hne, hmem⟩ := hnodup.mem_erase_iff.mp hy
    rw [← Range.livePiece_base, h.frame y (hlt y hmem) hne, Range.livePiece_base]
  have hall : s'.ids.Perm ((x :: news) ++ s.ids.erase x) :=
    hids.trans ((hperm.append_left news).trans perm_middle)
  refine (hall.flatMap_right _).trans ?_
  rw [flatMap_append, hother]

theorem SplitOff.represents (hab : a ≤ b) (hids : s'.ids.Perm (news ++ s.ids))
    (hlt : ∀ y ∈ s.ids, y < s.next) (hnodup : s.ids.Nodup) (hx : x ∈ s.ids)
    (hrep : Represents s.pending m) : ∃ m', Represents s'.pending m' ∧ Erased a b m m' := by
  obtain ⟨rest, hbefore, hafter⟩ := h.pending_perm hids hlt hnodup hx
  have hrep' := hrep.perm hbefore
  by_cases hcut : x = id ∧ a ≤ (s.heap x).start ∧ (s.heap x).last ≤ b
  · obtain ⟨heq, hlo, hhi⟩ := hcut
    obtain ⟨rfl, hpiece⟩ := h.whole heq hlo hhi
    rw [flatMap_singleton, hpiece] at hafter
    exact ⟨m, hrep'.perm hafter.symm, .refl a b m⟩
  · replace hafter := hafter.trans ((h.pieces hcut).append_right rest)
    unfold Range.livePiece at hrep' hafter
    split at hrep'
    · next hdead =>
      rw [if_pos hdead] at hafter
      exact ⟨m, hrep'.perm hafter.symm, .refl a b m⟩
    · next hlive =>
      rw [if_neg hlive, flatMap_singleton] at hafter
      refine ⟨_, (hrep'.cut hab).perm hafter.symm, fun y hy => ?_, fun y => ?_⟩
      · exact if_neg fun h => hy h.1
      · by_cases hy : (a ≤ y ∧ y ≤ b) ∧ (s.heap x).piece.Covers y
        · exact .inr (if_pos hy)
        · exact .inl (if_neg hy)

theorem SplitOff.partOf {y : Nat} (hy : y < s.next) (hle : (s.heap y).start ≤ (s.heap y).last) :
    (s'.heap y).PartOf (s.heap y) := by
  by_cases hyx : y = x
  · subst hyx
    exact h.part
  · have hbase := h.frame y hy hyx
    have hpart : (s'.heap y).base.PartOf (s.heap y) := by
      rw [hbase]
      exact ⟨rfl, rfl, rfl, rfl, le_refl _, hle, le_refl _⟩
    obtain ⟨h1, h2, h3, h4, h5, h6, h7⟩ := hpart
    exact ⟨h1, h2, h3, h4, h5, h6, h7⟩

theorem SplitOff.childIn {lo hi : Nat} {c : Nat} (hc : c < s.next) (hne : c ≠ id)
    (hchild : (s.heap c).ChildIn lo hi) : (s'.heap c).ChildIn lo hi := by
  have hpart := h.partOf hc hchild.le
  have hop : (s'.heap c).workOp = (s.heap c).workOp ∨ (s'.heap c).workOp = .unmapRange := by
    by_cases hcx : c = x
    · subst hcx
      exact h.workOp.imp_right And.right
    · have hbase : (s'.heap c).base.workOp = (s.heap c).base.workOp := by rw [h.frame c hc hcx]
      exact .inl hbase
  refine ⟨hpart.itStart.trans hchild.itStart, hpart.itLast.trans hchild.itLast, ?_, ?_,
    hchild.start_le.trans hpart.start_le, hpart.le, hpart.last_le.trans hchild.last_le⟩
  · rw [h.children c hc, if_neg hne, hchild.children]
  · rcases hop with hop | hop
    · rw [hop]
      exact hchild.workOp
    · exact .inl hop

theorem SplitOff.sameNodes (hlt : ∀ y ∈ s.list, y < s.next)
    (hle : ∀ y ∈ s.list, (s.heap y).start ≤ (s.heap y).last) : SameNodes s s' := by
  refine ⟨h.list, h.tree, fun y hy => ?_⟩
  have hpart := h.partOf (hlt y hy) (hle y hy)
  exact ⟨hpart.itStart, hpart.itLast⟩

end

theorem Pending.step (h : Pending s m) (hid : id ∈ s.list) (hx : x ∈ id :: (s.heap id).children)
    (hsplit : SplitOff s s' id x a b news) (hab : a ≤ b) :
    SameNodes s s' ∧ ∃ m', Pending s' m' ∧ Erased a b m m' := by
  have hlistLt : ∀ y ∈ s.list, y < s.next := fun y hy => h.lt y (Svms.mem_ids_of_mem hy)
  have hpart : ∀ y ∈ s.list, (s'.heap y).PartOf (s.heap y) := fun y hy =>
    hsplit.partOf (hlistLt y hy) (h.within y hy).2.1
  have hsame := hsplit.sameNodes hlistLt fun y hy => (h.within y hy).2.1
  have hids := hsplit.ids_perm hlistLt (Svms.list_nodup_of_ids h.nodup) hid
  obtain ⟨hxids, hxlo, -, hxhi⟩ := h.family hid hx
  obtain ⟨m', hrep, hm'⟩ := hsplit.represents hab hids h.lt h.nodup hxids h.rep
  refine ⟨hsame, m', ?_, hm'⟩
  constructor
  · rw [hsplit.list, hsplit.tree]
    exact h.perm
  · refine hids.nodup_iff.mpr (nodup_append.mpr
      ⟨hsplit.nodup, h.nodup, fun c hc y hy heq => ?_⟩)
    have h1 := (hsplit.fresh c hc).1
    have h2 := h.lt y hy
    omega
  · intro y hy
    rcases mem_append.mp (hids.mem_iff.mp hy) with hy | hy
    · exact (hsplit.fresh y hy).2
    · exact (h.lt y hy).trans_le hsplit.next_le
  · rw [hsplit.tree]
    refine h.sorted.imp_of_mem fun {y z} hy hz hyz => ?_
    rw [(hsame.node y (h.perm.mem_iff.mpr hy)).1, (hsame.node z (h.perm.mem_iff.mpr hz)).1]
    exact hyz
  · rw [hsplit.list]
    intro y hy
    obtain ⟨h1, h2⟩ := h.notifier y hy
    rw [(hpart y hy).notifierStart, (hpart y hy).notifierLast, (hpart y hy).itStart,
      (hpart y hy).itLast]
    exact ⟨h1, h2⟩
  · rw [hsplit.list]
    intro y hy
    obtain ⟨h1, -, h3⟩ := h.within y hy
    rw [(hpart y hy).itStart, (hpart y hy).itLast]
    exact ⟨h1.trans (hpart y hy).start_le, (hpart y hy).le, (hpart y hy).last_le.trans h3⟩
  · rw [hsplit.list]
    intro y hy c hc
    rw [(hpart y hy).itStart, (hpart y hy).itLast]
    have hold : ∀ c ∈ (s.heap y).children,
        (s'.heap c).ChildIn (s.heap y).itStart (s.heap y).itLast := by
      intro c hc
      have hne : c ≠ id := fun heq => Svms.child_not_mem_list h.nodup hy hc (heq ▸ hid)
      have hclt := h.lt c (h.family hy (mem_cons_of_mem _ hc)).1
      exact hsplit.childIn hclt hne (h.child y hy c hc)
    rw [hsplit.children y (hlistLt y hy)] at hc
    split at hc
    · next heq =>
      subst heq
      rcases mem_append.mp hc with hc | hc
      · exact hold c hc
      · obtain ⟨c1, c2, c3, c4, c5, c6, c7⟩ := hsplit.child c hc
        exact ⟨c1, c2, c3, c4, hxlo.trans c5, c6, c7.trans hxhi⟩
    · exact hold c hc
  · rw [hsplit.list]
    intro y hy z hz hne
    rw [(hpart y hy).itStart, (hpart y hy).itLast, (hpart z hz).itStart, (hpart z hz).itLast]
    exact h.apart y hy z hz hne
  · exact hrep

/-! ## A notification -/

theorem Range.Clean.of_base {r r' : Range} (h : r'.base = r.base) (hr : r.Clean a b) :
    r'.Clean a b := by
  have hclean : r'.base.Clean a b := by
    rw [h]
    exact hr
  exact hclean

theorem SplitOff.heap_eq (h : SplitOff s s' id x a b news) {y : Nat} (hy : y < s.next)
    (hyx : y ≠ x) (hyid : y ≠ id) : s'.heap y = s.heap y := by
  have hbase := h.frame y hy hyx
  have hchildren := h.children y hy
  rw [if_neg hyid] at hchildren
  have heq : ({ (s'.heap y).base with children := (s'.heap y).children } : Range) =
      { (s.heap y).base with children := (s.heap y).children } := by
    rw [hbase, hchildren]
  exact heq

variable (p : Process)

theorem unmapChildren_pending (ok : Nat → Nat → Bool) (hab : a ≤ b) :
    ∀ (rounds i : Nat) (mm : Mm) (m : Nat → Option Attrs), Pending mm.svms m →
    id ∈ mm.svms.list →
    (∀ j c, (mm.svms.heap id).children[j]? = some c → j < i ∨ i + rounds ≤ j →
      (mm.svms.heap c).Clean a b) →
    let mm' := unmapChildren p ok id a b rounds i mm
    SameNodes mm.svms mm'.svms ∧ (∃ m', Pending mm'.svms m' ∧ Erased a b m m') ∧
      (∀ c ∈ (mm'.svms.heap id).children, (mm'.svms.heap c).Clean a b) ∧
      (∀ y ∈ mm.svms.list, y ≠ id → mm'.svms.heap y = mm.svms.heap y) ∧
      (mm'.svms.heap id).base = (mm.svms.heap id).base ∧ mm'.deferred = mm.deferred := by
  intro rounds
  induction rounds with
  | zero =>
    intro i mm m h hid hclean
    refine ⟨.refl _, ⟨m, h, .refl a b m⟩, fun c hc => ?_, fun _ _ _ => rfl, rfl, rfl⟩
    obtain ⟨j, hj⟩ := mem_iff_getElem?.mp hc
    exact hclean j c hj (by omega)
  | succ rounds ih =>
    intro i mm m h hid hclean
    unfold unmapChildren
    cases hi : (mm.svms.heap id).children[i]? with
    | none =>
      dsimp only
      refine ⟨.refl _, ⟨m, h, .refl a b m⟩, fun c hc => ?_, fun _ _ _ => rfl, rfl, rfl⟩
      obtain ⟨j, hj⟩ := mem_iff_getElem?.mp hc
      have hlen := getElem?_eq_none_iff.mp hi
      have hjlen := of_getElem?_eq_some hj
      exact hclean j c hj (.inl (by omega))
    | some c =>
      have hc : c ∈ (mm.svms.heap id).children := mem_of_getElem? hi
      have hcf : c ∈ id :: (mm.svms.heap id).children := mem_cons_of_mem _ hc
      obtain ⟨hcids, -, hcle, -⟩ := h.family hid hcf
      have hclist := Svms.child_not_mem_list h.nodup hid hc
      have hidlt := h.lt id (Svms.mem_ids_of_mem hid)
      have hne : c ≠ id := fun heq => hclist (heq ▸ hid)
      obtain ⟨hdeferred, news, hsplit⟩ := unmapOne_splitOff p ok (h.lt c hcids) hidlt hcle hab
      have hcut : ¬(c = id ∧ a ≤ (mm.svms.heap c).start ∧ (mm.svms.heap c).last ≤ b) :=
        fun hcut => hne hcut.1
      obtain ⟨hsame1, m1, h1, hm1⟩ := h.step hid hcf hsplit hab
      obtain ⟨hsame2, ⟨m2, h2, hm2⟩, hclean2, hframe2, hbase2, hdeferred2⟩ :=
        ih (i + 1) _ m1 h1 (hsame1.list ▸ hid) (by
          intro j d hj hrange
          rw [hsplit.children id hidlt, if_pos rfl] at hj
          rcases lt_or_ge j (mm.svms.heap id).children.length with hlen | hlen
          · rw [getElem?_append_left hlen] at hj
            by_cases hdc : d = c
            · subst hdc
              exact hsplit.clean hcut mem_cons_self
            · have hji : j ≠ i := by
                rintro rfl
                exact hdc (Option.some_inj.mp (hj.symm.trans hi))
              have hd := mem_cons_of_mem id (mem_of_getElem? hj)
              exact (hclean j d hj (by omega)).of_base
                (hsplit.frame d (h.lt d (h.family hid hd).1) hdc)
          · rw [getElem?_append_right hlen] at hj
            exact hsplit.clean hcut (mem_cons_of_mem _ (mem_of_getElem? hj)))
      refine ⟨hsame1.trans hsame2, ⟨m2, h2, hm1.trans hm2⟩, hclean2, fun y hy hyid => ?_, ?_, ?_⟩
      · have hyc : y ≠ c := fun heq => hclist (heq ▸ hy)
        exact (hframe2 y (hsame1.list ▸ hy) hyid).trans
          (hsplit.heap_eq (h.lt y (Svms.mem_ids_of_mem hy)) hyc hyid)
      · exact hbase2.trans (hsplit.frame id hidlt hne.symm)
      · exact hdeferred2.trans hdeferred

theorem Svms.write_ids (s : Svms) {r : Range} (hr : r.children = (s.heap id).children) :
    (s.write id r).ids = s.ids := by
  refine flatMap_congr fun y _ => ?_
  by_cases hy : y = id
  · subst hy
    rw [Svms.write_heap_self, hr]
  · rw [Svms.write_heap_of_ne hy]

theorem Pending.setWorkOp_rep (h : Pending s m) (hid : id ∈ s.list) {op : WorkOp}
    (hdead : (s.heap id).workOp = .unmapRange → op = .unmapRange)
    (hfree : op = .unmapRange → (s.heap id).workOp = .unmapRange ∨
      a ≤ (s.heap id).start ∧ (s.heap id).last ≤ b) :
    ∃ m', Represents (s.write id ((s.heap id).setWorkOp op)).pending m' ∧ Erased a b m m' := by
  have hmem : id ∈ s.ids := Svms.mem_ids_of_mem hid
  have hids : (s.write id ((s.heap id).setWorkOp op)).ids = s.ids := s.write_ids rfl
  have hbefore : s.pending.Perm ((s.heap id).livePiece ++
      (s.ids.erase id).flatMap fun y => (s.heap y).livePiece) :=
    (perm_cons_erase hmem).flatMap_right _
  have hafter : (s.write id ((s.heap id).setWorkOp op)).pending.Perm
      (((s.heap id).setWorkOp op).livePiece ++
        (s.ids.erase id).flatMap fun y => (s.heap y).livePiece) := by
    unfold Svms.pending
    rw [hids]
    refine ((perm_cons_erase hmem).flatMap_right _).trans ?_
    rw [flatMap_cons, Svms.write_heap_self]
    refine Perm.append_left _ ?_
    rw [flatMap_congr fun y hy => by
      rw [Svms.write_heap_of_ne (h.nodup.mem_erase_iff.mp hy).1]]
  have hrep := h.rep.perm hbefore
  by_cases hnew : op = .unmapRange
  · rw [Range.livePiece, if_pos (show ((s.heap id).setWorkOp op).workOp = _ from hnew)] at hafter
    by_cases hold : (s.heap id).workOp = .unmapRange
    · rw [Range.livePiece, if_pos hold] at hrep
      exact ⟨m, hrep.perm hafter.symm, .refl a b m⟩
    · rw [Range.livePiece, if_neg hold] at hrep
      obtain ⟨hlo, hhi⟩ := (hfree hnew).resolve_left hold
      refine ⟨_, hrep.tail.perm hafter.symm, fun x hx => ?_, fun x => ?_⟩
      · exact if_neg fun hx' => hx ⟨hlo.trans hx'.1, hx'.2.trans hhi⟩
      · by_cases hx : (s.heap id).piece.lo ≤ x ∧ x ≤ (s.heap id).piece.hi
        · exact .inr (if_pos hx)
        · exact .inl (if_neg hx)
  · have hold : (s.heap id).workOp ≠ .unmapRange := fun hold => hnew (hdead hold)
    rw [Range.livePiece, if_neg (show ((s.heap id).setWorkOp op).workOp ≠ _ from hnew)] at hafter
    rw [Range.livePiece, if_neg hold] at hrep
    exact ⟨m, hrep.perm hafter.symm, .refl a b m⟩

theorem Pending.setWorkOp (h : Pending s m) (hid : id ∈ s.list) (op : WorkOp)
    (hdead : (s.heap id).workOp = .unmapRange → op = .unmapRange)
    (hfree : op = .unmapRange → (s.heap id).workOp = .unmapRange ∨
      a ≤ (s.heap id).start ∧ (s.heap id).last ≤ b) :
    SameNodes s (s.write id ((s.heap id).setWorkOp op)) ∧
      ∃ m', Pending (s.write id ((s.heap id).setWorkOp op)) m' ∧ Erased a b m m' := by
  have hfields : ∀ y, ((s.write id ((s.heap id).setWorkOp op)).heap y).itStart =
      (s.heap y).itStart ∧
      ((s.write id ((s.heap id).setWorkOp op)).heap y).itLast = (s.heap y).itLast ∧
      ((s.write id ((s.heap id).setWorkOp op)).heap y).notifierStart = (s.heap y).notifierStart ∧
      ((s.write id ((s.heap id).setWorkOp op)).heap y).notifierLast = (s.heap y).notifierLast ∧
      ((s.write id ((s.heap id).setWorkOp op)).heap y).start = (s.heap y).start ∧
      ((s.write id ((s.heap id).setWorkOp op)).heap y).last = (s.heap y).last ∧
      ((s.write id ((s.heap id).setWorkOp op)).heap y).children = (s.heap y).children := by
    intro y
    by_cases hy : y = id
    · rw [hy, Svms.write_heap_self]
      exact ⟨rfl, rfl, rfl, rfl, rfl, rfl, rfl⟩
    · rw [Svms.write_heap_of_ne hy]
      exact ⟨rfl, rfl, rfl, rfl, rfl, rfl, rfl⟩
  have hids : (s.write id ((s.heap id).setWorkOp op)).ids = s.ids := s.write_ids rfl
  obtain ⟨m', hrep, hm'⟩ := h.setWorkOp_rep hid hdead hfree
  refine ⟨⟨rfl, rfl, fun y _ => ⟨(hfields y).1, (hfields y).2.1⟩⟩, m', ?_, hm'⟩
  constructor
  · exact h.perm
  · exact hids ▸ h.nodup
  · exact hids ▸ h.lt
  · simp only [(hfields _).1]
    exact h.sorted
  · intro y hy
    obtain ⟨h1, h2, h3, h4, -⟩ := hfields y
    rw [h1, h2, h3, h4]
    exact h.notifier y hy
  · intro y hy
    obtain ⟨h1, h2, -, -, h5, h6, -⟩ := hfields y
    rw [h1, h2, h5, h6]
    exact h.within y hy
  · intro y hy c hc
    obtain ⟨h1, h2, -, -, -, -, h7⟩ := hfields y
    rw [h7] at hc
    have hne : c ≠ id := fun heq => Svms.child_not_mem_list h.nodup hy hc (heq ▸ hid)
    rw [h1, h2, Svms.write_heap_of_ne hne]
    exact h.child y hy c hc
  · intro y hy z hz
    rw [(hfields y).1, (hfields y).2.1, (hfields z).1, (hfields z).2.1]
    exact h.apart y hy z hz
  · exact hrep

/-- Split ranges and the deferred list: a range that is not on the list fills its
node, and one on the list waits to be freed or to have its notifier updated. -/
structure Waiting (mm : Mm) (m : Nat → Option Attrs) : Prop extends Pending mm.svms m where
  deferred_nodup : mm.deferred.Nodup
  idle : ∀ id ∈ mm.svms.list, id ∉ mm.deferred →
    (mm.svms.heap id).start = (mm.svms.heap id).itStart ∧
    (mm.svms.heap id).last = (mm.svms.heap id).itLast ∧ (mm.svms.heap id).children = [] ∧
    (mm.svms.heap id).workOp ≠ .unmapRange
  busy : ∀ id ∈ mm.deferred, id ∈ mm.svms.list ∧ ((mm.svms.heap id).workOp = .unmapRange ∨
    (mm.svms.heap id).workOp = .updateRangeNotifier ∧
      ((mm.svms.heap id).itStart < (mm.svms.heap id).start ∨
        (mm.svms.heap id).last < (mm.svms.heap id).itLast))

theorem Waiting.mem_deferred {mm : Mm} (h : Waiting mm m) (hid : id ∈ mm.svms.list)
    (hdead : (mm.svms.heap id).workOp = .unmapRange) : id ∈ mm.deferred := by
  by_contra hidle
  exact (h.idle id hid hidle).2.2.2 hdead

/-- The state `mm'` after the loop over the children of `id` and the split of the
range itself: nothing of the interval is left, but in a range that has to be freed. -/
structure Emptied (mm mm' : Mm) (id a b : Nat) (m : Nat → Option Attrs) : Prop where
  same : SameNodes mm.svms mm'.svms
  pending : ∃ m', Pending mm'.svms m' ∧ Erased a b m m'
  deferred : mm'.deferred = mm.deferred
  frame : ∀ y ∈ mm.svms.list, y ≠ id → mm'.svms.heap y = mm.svms.heap y
  workOp : (mm'.svms.heap id).workOp = (mm.svms.heap id).workOp
  start_le : (mm.svms.heap id).start ≤ (mm'.svms.heap id).start
  last_le : (mm'.svms.heap id).last ≤ (mm.svms.heap id).last
  shrinks : (mm.svms.heap id).workOp ≠ .unmapRange → ¬(mm.svms.heap id).Clean a b →
    ¬(a ≤ (mm.svms.heap id).start ∧ (mm.svms.heap id).last ≤ b) →
    (mm.svms.heap id).start < (mm'.svms.heap id).start ∨
      (mm'.svms.heap id).last < (mm.svms.heap id).last
  children : ∀ c ∈ (mm'.svms.heap id).children, (mm'.svms.heap c).Clean a b
  self : ¬(a ≤ (mm.svms.heap id).start ∧ (mm.svms.heap id).last ≤ b) →
    (mm'.svms.heap id).Clean a b

theorem unmapOne_emptied (ok : Nat → Nat → Bool) {mm : Mm} (h : Pending mm.svms m)
    (hid : id ∈ mm.svms.list) (hab : a ≤ b) :
    Emptied mm (unmapOne p ok id a b
      (unmapChildren p ok id a b (3 * (mm.svms.heap id).children.length) 0 mm) id) id a b m := by
  -- The bound on the rounds is no smaller than the number of children to visit.
  obtain ⟨hsame1, ⟨m1, h1, hm1⟩, hclean1, hframe1, hbase1, hdeferred1⟩ :=
    unmapChildren_pending p ok hab (3 * (mm.svms.heap id).children.length) 0 mm m h hid
      fun j c hj hrange => by
        have := of_getElem?_eq_some hj
        omega
  generalize unmapChildren p ok id a b (3 * (mm.svms.heap id).children.length) 0 mm = mm1
    at hsame1 h1 hclean1 hframe1 hbase1 hdeferred1
  obtain ⟨hstart1, hlast1, hop1⟩ := Range.bounds_of_base hbase1
  have hid1 : id ∈ mm1.svms.list := hsame1.list ▸ hid
  obtain ⟨hids1, -, hle1, -⟩ := h1.family hid1 mem_cons_self
  have hlt1 := h1.lt id hids1
  obtain ⟨hdeferred2, news, hsplit⟩ := unmapOne_splitOff p ok hlt1 hlt1 hle1 hab
  obtain ⟨hsame2, m2, h2, hm2⟩ := h1.step hid1 mem_cons_self hsplit hab
  have hwhole : ¬(a ≤ (mm.svms.heap id).start ∧ (mm.svms.heap id).last ≤ b) →
      ¬(id = id ∧ a ≤ (mm1.svms.heap id).start ∧ (mm1.svms.heap id).last ≤ b) := by
    rw [hstart1, hlast1]
    exact fun hcut hwhole => hcut hwhole.2
  constructor
  · exact hsame1.trans hsame2
  · exact ⟨m2, h2, hm1.trans hm2⟩
  · exact hdeferred2.trans hdeferred1
  · intro y hy hne
    have hylt := h1.lt y (Svms.mem_ids_of_mem (hsame1.list ▸ hy))
    exact (hsplit.heap_eq hylt hne hne).trans (hframe1 y hy hne)
  · rcases hsplit.workOp with hop | hop
    · exact hop.trans hop1
    · exact absurd rfl hop.1
  · exact hstart1 ▸ hsplit.part.start_le
  · exact hlast1 ▸ hsplit.part.last_le
  · have hshrinks := hsplit.shrinks rfl
    unfold Range.Clean at hshrinks ⊢
    rw [hop1, hstart1, hlast1] at hshrinks
    exact hshrinks
  · intro c hc
    have hchildren := hsplit.children id hlt1
    rw [if_pos rfl] at hchildren
    rw [hchildren] at hc
    rcases mem_append.mp hc with hc | hc
    · have hne : c ≠ id := fun heq => Svms.child_not_mem_list h1.nodup hid1 hc (heq ▸ hid1)
      have hclt := h1.lt c (h1.family hid1 (mem_cons_of_mem _ hc)).1
      exact (hclean1 c hc).of_base (hsplit.frame c hclt hne)
    · by_cases hcut : a ≤ (mm.svms.heap id).start ∧ (mm.svms.heap id).last ≤ b
      · obtain ⟨rfl, -⟩ := hsplit.whole rfl (hstart1 ▸ hcut.1) (hlast1 ▸ hcut.2)
        exact absurd hc not_mem_nil
      · exact hsplit.clean (hwhole hcut) (mem_cons_of_mem _ hc)
  · exact fun hcut => hsplit.clean (hwhole hcut) mem_cons_self

theorem svmRangeAddListWork_eq (id : Nat) {op : WorkOp} (hop : op ≠ .null) (mm : Mm) :
    (svmRangeAddListWork id op mm).svms = mm.svms.write id ((mm.svms.heap id).setWorkOp
      (if id ∈ mm.deferred ∧ (mm.svms.heap id).workOp = .unmapRange then .unmapRange else op)) ∧
    (svmRangeAddListWork id op mm).deferred =
      if id ∈ mm.deferred then mm.deferred else mm.deferred ++ [id] := by
  unfold svmRangeAddListWork
  dsimp only
  by_cases hid : id ∈ mm.deferred
  · rw [if_pos hid, if_pos hid]
    by_cases hdead : (mm.svms.heap id).workOp = .unmapRange
    · rw [if_neg (fun h => h.2 hdead), if_pos ⟨hid, hdead⟩]
      refine ⟨?_, rfl⟩
      have hsame : (mm.svms.heap id).setWorkOp .unmapRange = mm.svms.heap id := by
        rw [← hdead]
        rfl
      rw [hsame, Svms.write_heap_eq]
    · rw [if_pos ⟨hop, hdead⟩, if_neg (fun h => hdead h.2)]
      exact ⟨rfl, rfl⟩
  · rw [if_neg hid, if_neg hid, if_neg (fun h => hid h.1)]
    exact ⟨rfl, rfl⟩

theorem svmRangeAddListWork_pte (id : Nat) (op : WorkOp) (mm : Mm) :
    (svmRangeAddListWork id op mm).pte = mm.pte := by
  unfold svmRangeAddListWork
  dsimp only
  split
  · split
    · rfl
    · rfl
  · rfl

/-- The operation that the deferred list has for a range after a notification. -/
def Waiting.nextOp (mm : Mm) (id a b : Nat) : WorkOp :=
  if id ∈ mm.deferred ∧ (mm.svms.heap id).workOp = .unmapRange then .unmapRange
  else if a ≤ (mm.svms.heap id).start ∧ (mm.svms.heap id).last ≤ b then .unmapRange
  else .updateRangeNotifier

theorem Emptied.unmapFromCpu (ok : Nat → Nat → Bool) {mm mm' : Mm} (h : Emptied mm mm' id a b m)
    (hmm' : mm' = unmapOne p ok id a b (unmapChildren p ok id a b (3 * (mm.svms.heap id).children.length) 0 mm) id) :
    (svmRangeUnmapFromCpu p ok id a b mm).svms = mm'.svms.write id
      ((mm'.svms.heap id).setWorkOp (Waiting.nextOp mm id a b)) ∧
    (svmRangeUnmapFromCpu p ok id a b mm).deferred =
      (if id ∈ mm.deferred then mm.deferred else mm.deferred ++ [id]) ∧
    (svmRangeUnmapFromCpu p ok id a b mm).pte = mm'.pte := by
  have heq : svmRangeUnmapFromCpu p ok id a b mm = svmRangeAddListWork id
      (if a ≤ (mm.svms.heap id).start ∧ (mm.svms.heap id).last ≤ b then .unmapRange
        else .updateRangeNotifier) mm' := by
    rw [hmm']
    rfl
  have hnull : (if a ≤ (mm.svms.heap id).start ∧ (mm.svms.heap id).last ≤ b then .unmapRange
      else .updateRangeNotifier) ≠ WorkOp.null := by
    split
    · decide
    · decide
  obtain ⟨hsvms, hdeferred⟩ := svmRangeAddListWork_eq id hnull mm'
  rw [h.deferred] at hsvms hdeferred
  rw [h.workOp] at hsvms
  refine ⟨heq ▸ hsvms, heq ▸ hdeferred, ?_⟩
  rw [heq]
  exact svmRangeAddListWork_pte id _ mm'

section NextOp
variable {mm mm' : Mm}

theorem Emptied.clean (he : Emptied mm mm' id a b m) (h : Waiting mm m) (hid : id ∈ mm.svms.list)
    {y : Nat} (hy : y ∈ id :: (mm'.svms.heap id).children) :
    ((mm'.svms.write id ((mm'.svms.heap id).setWorkOp (Waiting.nextOp mm id a b))).heap y).Clean
      a b := by
  by_cases hyid : y = id
  · rw [hyid, Svms.write_heap_self]
    unfold Waiting.nextOp
    split
    · exact .inl rfl
    · next hdead =>
      split
      · exact .inl rfl
      · next hwhole =>
        rcases he.self hwhole with hclean | hclean
        · rw [he.workOp] at hclean
          exact absurd ⟨h.mem_deferred hid hclean, hclean⟩ hdead
        · exact .inr hclean
  · rw [Svms.write_heap_of_ne hyid]
    exact he.children y ((mem_cons.mp hy).resolve_left hyid)

theorem Emptied.busy (he : Emptied mm mm' id a b m) (h : Waiting mm m) (hid : id ∈ mm.svms.list)
    (hlo : (mm.svms.heap id).itStart ≤ a) (hab : a ≤ b) (hhi : b ≤ (mm.svms.heap id).itLast) :
    Waiting.nextOp mm id a b = .unmapRange ∨ Waiting.nextOp mm id a b = .updateRangeNotifier ∧
      ((mm.svms.heap id).itStart < (mm'.svms.heap id).start ∨
        (mm'.svms.heap id).last < (mm.svms.heap id).itLast) := by
  unfold Waiting.nextOp
  split
  · exact .inl rfl
  · next hdead =>
    split
    · exact .inl rfl
    · next hwhole =>
      refine .inr ⟨rfl, ?_⟩
      have hstart := he.start_le
      have hlast := he.last_le
      by_cases hdef : id ∈ mm.deferred
      · rcases (h.busy id hdef).2 with hop | ⟨-, hop⟩
        · exact absurd ⟨hdef, hop⟩ hdead
        · omega
      · -- The range filled its node, so the interval overlaps it.
        obtain ⟨hstart0, hlast0, -, hlive⟩ := h.idle id hid hdef
        have hov : ¬(mm.svms.heap id).Clean a b := by
          rintro (hclean | hclean | hclean)
          · exact hlive hclean
          · omega
          · omega
        have := he.shrinks hlive hov hwhole
        omega

end NextOp

theorem Pending.erase_of_clean {m' : Nat → Option Attrs} (h : Pending s m') (hid : id ∈ s.list)
    (hlo : (s.heap id).itStart ≤ a) (hhi : b ≤ (s.heap id).itLast)
    (hclean : ∀ y ∈ id :: (s.heap id).children, (s.heap y).Clean a b) (hm' : Erased a b m m') :
    Pending s (erase m a b) := by
  refine { h with rep := h.rep.congr fun x => ?_ }
  unfold erase
  split
  · next hx =>
    refine (h.rep.eq_none fun q hq hcovers => ?_).symm
    obtain ⟨y, hy, hq⟩ := mem_flatMap.mp hq
    obtain ⟨id', hid', hy⟩ := mem_flatMap.mp hy
    unfold Range.livePiece at hq
    split at hq
    · exact absurd hq not_mem_nil
    · next hlive =>
      cases mem_singleton.mp hq
      obtain ⟨hylo, hyhi⟩ : (s.heap y).start ≤ x ∧ x ≤ (s.heap y).last := hcovers
      by_cases heq : id' = id
      · subst heq
        rcases (hclean y hy).resolve_left hlive with hout | hout
        · omega
        · omega
      · -- The nodes are disjoint.
        obtain ⟨-, hylo', -, hyhi'⟩ := h.family hid' hy
        have := h.apart id' hid' id hid heq
        omega
  · next hx => exact (hm'.1 x hx).symm

variable {mm : Mm}

theorem svmRangeUnmapFromCpu_waiting (ok : Nat → Nat → Bool) (h : Waiting mm m)
    (hid : id ∈ mm.svms.list) (hlo : (mm.svms.heap id).itStart ≤ a) (hab : a ≤ b)
    (hhi : b ≤ (mm.svms.heap id).itLast) :
    SameNodes mm.svms (svmRangeUnmapFromCpu p ok id a b mm).svms ∧
    Waiting (svmRangeUnmapFromCpu p ok id a b mm) (erase m a b) ∧
      ∀ y, y ∈ (svmRangeUnmapFromCpu p ok id a b mm).deferred ↔ y = id ∨ y ∈ mm.deferred := by
  have he := unmapOne_emptied p ok h.toPending hid hab
  obtain ⟨hsvms, hdeferred, -⟩ := he.unmapFromCpu p ok rfl
  generalize unmapOne p ok id a b
    (unmapChildren p ok id a b (3 * (mm.svms.heap id).children.length) 0 mm) id = mm' at he hsvms
  generalize svmRangeUnmapFromCpu p ok id a b mm = mm'' at hsvms hdeferred ⊢
  obtain ⟨m', h', hm'⟩ := he.pending
  have hid' : id ∈ mm'.svms.list := he.same.list ▸ hid
  obtain ⟨hnodeLo, hnodeHi⟩ := he.same.node id hid
  have hdead : (mm'.svms.heap id).workOp = .unmapRange →
      Waiting.nextOp mm id a b = .unmapRange := by
    rw [he.workOp]
    exact fun hdead => if_pos ⟨h.mem_deferred hid hdead, hdead⟩
  have hfree : Waiting.nextOp mm id a b = .unmapRange → (mm'.svms.heap id).workOp = .unmapRange ∨
      a ≤ (mm'.svms.heap id).start ∧ (mm'.svms.heap id).last ≤ b := by
    have hstart := he.start_le
    have hlast := he.last_le
    intro hfree
    unfold Waiting.nextOp at hfree
    split at hfree
    · next hdead => exact .inl (he.workOp.trans hdead.2)
    · split at hfree
      · exact .inr ⟨by omega, by omega⟩
      · exact absurd hfree (by decide)
  obtain ⟨hsame, m2, h2, hm2⟩ := h'.setWorkOp hid' (Waiting.nextOp mm id a b) hdead hfree
  have hself : mm''.svms.heap id = (mm'.svms.heap id).setWorkOp (Waiting.nextOp mm id a b) := by
    rw [hsvms]
    exact Svms.write_heap_self ..
  have hother : ∀ y ∈ mm.svms.list, y ≠ id → mm''.svms.heap y = mm.svms.heap y := by
    intro y hy hne
    rw [hsvms]
    exact (Svms.write_heap_of_ne hne).trans (he.frame y hy hne)
  have hmem : ∀ y, y ∈ mm''.deferred ↔ y = id ∨ y ∈ mm.deferred := by
    intro y
    rw [hdeferred]
    split
    · next hdef =>
      refine ⟨.inr, ?_⟩
      rintro (rfl | hy)
      · exact hdef
      · exact hy
    · rw [mem_append, mem_singleton, or_comm]
  have hpending : Pending mm''.svms (erase m a b) := by
    have hclean := fun y hy => he.clean h hid (y := y) hy
    rw [hsvms]
    refine h2.erase_of_clean hid' ?_ ?_ ?_ (hm'.trans hm2)
    · rw [(hsame.node id hid').1, hnodeLo]
      exact hlo
    · rw [(hsame.node id hid').2, hnodeHi]
      exact hhi
    · rw [Svms.write_heap_self]
      exact hclean
  have hlist : mm''.svms.list = mm.svms.list := by
    rw [hsvms]
    exact he.same.list
  refine ⟨hsvms ▸ he.same.trans hsame, ⟨hpending, ?_, ?_, ?_⟩, hmem⟩
  · rw [hdeferred]
    split
    · exact h.deferred_nodup
    · next hdef =>
      refine nodup_append.mpr ⟨h.deferred_nodup, nodup_singleton _, ?_⟩
      intro x hx y hy heq
      rw [← mem_singleton.mp hy, ← heq] at hdef
      exact hdef hx
  · intro y hy hidle
    rw [hmem, not_or] at hidle
    rw [hlist] at hy
    rw [hother y hy hidle.1]
    exact h.idle y hy hidle.2
  · intro y hy
    by_cases hyid : y = id
    · subst hyid
      refine ⟨hlist ▸ hid, ?_⟩
      have hbusy := he.busy h hid hlo hab hhi
      rw [hself]
      change _ ∨ _ ∧ ((mm'.svms.heap y).itStart < _ ∨ _ < (mm'.svms.heap y).itLast)
      rw [hnodeLo, hnodeHi]
      exact hbusy
    · obtain ⟨hmem', hbusy⟩ := h.busy y (((hmem y).mp hy).resolve_left hyid)
      rw [hlist, hother y hmem' hyid]
      exact ⟨hmem', hbusy⟩

/-! ## Unmapped intervals -/

theorem Svms.Rest.waiting (h : s.Rest m) (pte : Nat → Nat → Bool) :
    Waiting { svms := s, deferred := [], pte := pte } m := by
  have hle : ∀ id ∈ s.list, (s.heap id).start ≤ (s.heap id).last := fun id hid =>
    h.represents.nonempty _ (mem_map_of_mem hid)
  constructor
  · constructor
    · exact h.perm
    · rw [Svms.ids_eq_list h.children]
      exact h.nodup
    · rw [Svms.ids_eq_list h.children]
      exact h.fresh
    · exact h.sorted
    · intro id hid
      rw [(h.node id hid).1, (h.node id hid).2]
      exact h.notifier id hid
    · intro id hid
      rw [(h.node id hid).1, (h.node id hid).2]
      exact ⟨le_refl _, hle id hid, le_refl _⟩
    · intro id hid c hc
      rw [h.children id hid] at hc
      exact absurd hc not_mem_nil
    · intro x hx y hy hne
      rw [(h.node x hx).1, (h.node x hx).2, (h.node y hy).1, (h.node y hy).2]
      rcases le_total (s.heap x).start (s.heap y).start with hxy | hxy
      · exact .inl (start_gt_of_sorted h.represents hx hy hne hxy)
      · exact .inr (start_gt_of_sorted h.represents hy hx hne.symm hxy)
    · rw [Svms.pending_eq_map h.children h.live]
      exact h.represents
  · exact .nil
  · exact fun id hid _ => ⟨(h.node id hid).1.symm, (h.node id hid).2.symm, h.children id hid,
      h.live id hid⟩
  · exact fun id hid => absurd hid not_mem_nil

def Range.Hit (r : Range) (i : Munmap) : Prop :=
  r.itStart ≤ i.last ∧ i.start ≤ r.itLast
  deriving Decidable

theorem SameNodes.hit_iff (h : SameNodes s s') (hid : id ∈ s.list) (i : Munmap) :
    (s'.heap id).Hit i ↔ (s.heap id).Hit i := by
  unfold Range.Hit
  rw [(h.node id hid).1, (h.node id hid).2]

theorem svmRangeNotifyUnmap_one (i : Munmap) (h : Waiting mm m) (hid : id ∈ mm.svms.list) :
    let mm' := svmRangeNotifyUnmap p i.ok i.start i.last mm id
    SameNodes mm.svms mm'.svms ∧ (∃ m', Waiting mm' m' ∧ Erased i.start i.last m m' ∧
      ∀ x, (mm.svms.heap id).itStart ≤ x → x ≤ (mm.svms.heap id).itLast →
        i.start ≤ x → x ≤ i.last → m' x = none) ∧
      ∀ y, y ∈ mm'.deferred ↔ (y = id ∧ (mm.svms.heap id).Hit i) ∨ y ∈ mm.deferred := by
  obtain ⟨hnstart, hnlast⟩ := h.notifier id hid
  have hle := h.within id hid
  have hi := i.le
  by_cases hhit : (mm.svms.heap id).Hit i
  · obtain ⟨hlo, hhi⟩ := hhit
    have hstep : svmRangeNotifyUnmap p i.ok i.start i.last mm id = svmRangeUnmapFromCpu p i.ok id
        (max (mm.svms.heap id).itStart i.start) (min (mm.svms.heap id).itLast i.last) mm := by
      unfold svmRangeNotifyUnmap
      dsimp only
      rw [hnstart, hnlast, if_pos ⟨hlo, hhi⟩]
    obtain ⟨hsame, hwait, hdeferred⟩ := svmRangeUnmapFromCpu_waiting p i.ok h hid
      (a := max (mm.svms.heap id).itStart i.start) (b := min (mm.svms.heap id).itLast i.last)
      (le_max_left _ _) (by omega) (min_le_left _ _)
    rw [hstep]
    refine ⟨hsame, ⟨_, hwait, ⟨fun x hx => if_neg (by omega), fun x => ?_⟩,
      fun x h1 h2 h3 h4 => if_pos (by omega)⟩, fun y => ?_⟩
    · unfold erase
      split
      · exact .inr rfl
      · exact .inl rfl
    · rw [hdeferred]
      constructor
      · rintro (hy | hy)
        · exact .inl ⟨hy, hlo, hhi⟩
        · exact .inr hy
      · rintro (⟨hy, -⟩ | hy)
        · exact .inl hy
        · exact .inr hy
  · have hstep : svmRangeNotifyUnmap p i.ok i.start i.last mm id = mm := by
      unfold svmRangeNotifyUnmap
      dsimp only
      rw [hnstart, hnlast]
      exact if_neg hhit
    rw [hstep]
    refine ⟨.refl _, ⟨m, h, .refl _ _ m, fun x h1 h2 h3 h4 => ?_⟩, fun y => ?_⟩
    · exact absurd ⟨h1.trans h4, h3.trans h2⟩ hhit
    · refine ⟨.inr, ?_⟩
      rintro (⟨-, hy⟩ | hy)
      · exact absurd hy hhit
      · exact hy

theorem foldl_svmRangeNotifyUnmap (i : Munmap) (ids : List Nat) :
    ∀ {mm : Mm} {m : Nat → Option Attrs}, (∀ id ∈ ids, id ∈ mm.svms.list) → Waiting mm m →
    let mm' := ids.foldl (svmRangeNotifyUnmap p i.ok i.start i.last) mm
    SameNodes mm.svms mm'.svms ∧ (∃ m', Waiting mm' m' ∧ Erased i.start i.last m m' ∧
      ∀ id ∈ ids, ∀ x, (mm.svms.heap id).itStart ≤ x → x ≤ (mm.svms.heap id).itLast →
        i.start ≤ x → x ≤ i.last → m' x = none) ∧
      ∀ y, y ∈ mm'.deferred ↔ (y ∈ ids ∧ (mm.svms.heap y).Hit i) ∨ y ∈ mm.deferred := by
  induction ids with
  | nil =>
    intro mm m _ h
    refine ⟨.refl _, ⟨m, h, .refl _ _ m, fun id hid => absurd hid not_mem_nil⟩, fun y => ?_⟩
    simp
  | cons id ids ih =>
    intro mm m hids h
    obtain ⟨hsame, ⟨m1, h1, hm1, hgone1⟩, hmem1⟩ :=
      svmRangeNotifyUnmap_one p i h (hids id mem_cons_self)
    rw [foldl_cons]
    generalize svmRangeNotifyUnmap p i.ok i.start i.last mm id = mm1 at hsame h1 hmem1
    have hids' := fun y hy => hids y (mem_cons_of_mem _ hy)
    obtain ⟨hsame2, ⟨m2, h2, hm2, hgone2⟩, hmem2⟩ :=
      ih (fun y hy => hsame.list ▸ hids' y hy) h1
    refine ⟨hsame.trans hsame2, ⟨m2, h2, hm1.trans hm2, fun y hy x x1 x2 x3 x4 => ?_⟩, fun y => ?_⟩
    · rcases mem_cons.mp hy with rfl | hy
      · rcases hm2.2 x with hx | hx
        · rw [hx]
          exact hgone1 x x1 x2 x3 x4
        · exact hx
      · obtain ⟨hlo, hhi⟩ := hsame.node y (hids' y hy)
        exact hgone2 y hy x (hlo ▸ x1) (hhi ▸ x2) x3 x4
    · rw [hmem2, hmem1, mem_cons]
      constructor
      · rintro (⟨hy, hhit⟩ | ⟨rfl, hhit⟩ | hy)
        · exact .inl ⟨.inr hy, (hsame.hit_iff (hids' y hy) i).mp hhit⟩
        · exact .inl ⟨.inl rfl, hhit⟩
        · exact .inr hy
      · rintro (⟨rfl | hy, hhit⟩ | hy)
        · exact .inr (.inl ⟨rfl, hhit⟩)
        · exact .inl ⟨hy, (hsame.hit_iff (hids' y hy) i).mpr hhit⟩
        · exact .inr (.inr hy)

theorem Pending.covered (h : Pending s m) {x : Nat} (hx : m x ≠ none) :
    ∃ id ∈ s.list, (s.heap id).itStart ≤ x ∧ x ≤ (s.heap id).itLast := by
  obtain ⟨v, hv⟩ := Option.ne_none_iff_exists'.mp hx
  obtain ⟨q, hq, hcovers, -⟩ := (h.rep.value x v).mp hv
  obtain ⟨y, hy, hq⟩ := mem_flatMap.mp hq
  obtain ⟨id, hid, hy⟩ := mem_flatMap.mp hy
  obtain ⟨-, hlo, -, hhi⟩ := h.family hid hy
  unfold Range.livePiece at hq
  split at hq
  · exact absurd hq not_mem_nil
  · cases mem_singleton.mp hq
    exact ⟨id, hid, hlo.trans hcovers.1, hcovers.2.trans hhi⟩

theorem notifyUnmap_waiting (i : Munmap) (h : Waiting mm m) :
    SameNodes mm.svms (notifyUnmap p mm i).svms ∧
    Waiting (notifyUnmap p mm i) (erase m i.start i.last) ∧
      ∀ y, y ∈ (notifyUnmap p mm i).deferred ↔
        (y ∈ mm.svms.list ∧ (mm.svms.heap y).Hit i) ∨ y ∈ mm.deferred := by
  have htree : ∀ y, y ∈ mm.svms.tree ↔ y ∈ mm.svms.list := fun y => h.perm.mem_iff.symm
  obtain ⟨hsame, ⟨m', h', herased, hgone⟩, hmem⟩ :=
    foldl_svmRangeNotifyUnmap p i mm.svms.tree (fun y hy => (htree y).mp hy) h
  have hm' : erase m i.start i.last = m' := by
    funext x
    unfold erase
    split
    · next hx =>
      by_contra hne
      obtain ⟨id, hid, hlo, hhi⟩ := h'.covered (Ne.symm hne)
      rw [hsame.list] at hid
      rw [(hsame.node id hid).1] at hlo
      rw [(hsame.node id hid).2] at hhi
      exact hne (hgone id ((htree id).mpr hid) x hlo hhi hx.1 hx.2).symm
    · next hx => exact (herased.1 x hx).symm
  rw [hm']
  refine ⟨hsame, h', fun y => ?_⟩
  have := hmem y
  rwa [htree] at this

def eraseAll (m : Nat → Option Attrs) (is : List Munmap) : Nat → Option Attrs :=
  fun x => if ∃ i ∈ is, i.start ≤ x ∧ x ≤ i.last then none else m x

theorem eraseAll_cons (m : Nat → Option Attrs) (i : Munmap) (is : List Munmap) :
    eraseAll m (i :: is) = eraseAll (erase m i.start i.last) is := by
  funext x
  unfold eraseAll erase
  by_cases hx : ∃ i ∈ is, i.start ≤ x ∧ x ≤ i.last
  · rw [if_pos hx]
    obtain ⟨j, hj, hjx⟩ := hx
    exact if_pos ⟨j, mem_cons_of_mem _ hj, hjx⟩
  · rw [if_neg hx]
    by_cases hi : i.start ≤ x ∧ x ≤ i.last
    · rw [if_pos hi, if_pos ⟨i, mem_cons_self, hi⟩]
    · rw [if_neg hi, if_neg]
      rintro ⟨j, hj, hjx⟩
      rcases mem_cons.mp hj with rfl | hj
      · exact hi hjx
      · exact hx ⟨j, hj, hjx⟩

theorem foldl_notifyUnmap_waiting (is : List Munmap) :
    ∀ {mm : Mm} {m : Nat → Option Attrs}, Waiting mm m →
    let mm' := is.foldl (notifyUnmap p) mm
    SameNodes mm.svms mm'.svms ∧ Waiting mm' (eraseAll m is) ∧ ∀ y, y ∈ mm'.deferred ↔
      (y ∈ mm.svms.list ∧ ∃ i ∈ is, (mm.svms.heap y).Hit i) ∨ y ∈ mm.deferred := by
  induction is with
  | nil =>
    intro mm m h
    have hm : eraseAll m [] = m := by
      funext x
      exact if_neg (by simp)
    rw [hm]
    exact ⟨.refl _, h, fun y => by simp⟩
  | cons i is ih =>
    intro mm m h
    obtain ⟨hsame, hstep, hmem⟩ := notifyUnmap_waiting p i h
    obtain ⟨hsame', hrest, hmem'⟩ := ih hstep
    rw [eraseAll_cons]
    refine ⟨hsame.trans hsame', hrest, fun y => ?_⟩
    rw [foldl_cons, hmem' y, hmem y, hsame.list]
    constructor
    · rintro (⟨hy, j, hj, hhit⟩ | ⟨hy, hhit⟩ | hy)
      · exact .inl ⟨hy, j, mem_cons_of_mem _ hj, (hsame.hit_iff hy j).mp hhit⟩
      · exact .inl ⟨hy, i, mem_cons_self, hhit⟩
      · exact .inr hy
    · rintro (⟨hy, j, hj, hhit⟩ | hy)
      · rcases mem_cons.mp hj with rfl | hj
        · exact .inr (.inl ⟨hy, hhit⟩)
        · exact .inl ⟨hy, j, hj, (hsame.hit_iff hy j).mpr hhit⟩
      · exact .inr (.inr hy)

end Pending

end Amdkfd.Svm
