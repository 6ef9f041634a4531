import Amdkfd.Svm.Pending

/-!
# The deferred list work

`svm_range_deferred_list_work` frees or inserts the children of each range on the
deferred list, then frees the range or updates its notifier and its tree node.
-/

namespace Amdkfd.Svm

open Lib List

structure Draining (s : Svms) (deferred : List Nat) : Prop where
  perm : s.list.Perm s.tree
  nodup : s.ids.Nodup
  lt : ∀ y ∈ s.ids, y < s.next
  sorted : s.tree.Pairwise fun x y => (s.heap x).itStart ≤ (s.heap y).itStart
  deferred_nodup : deferred.Nodup
  idle : ∀ id ∈ s.list, id ∉ deferred →
    ((s.heap id).itStart = (s.heap id).start ∧ (s.heap id).itLast = (s.heap id).last) ∧
    ((s.heap id).notifierStart = (s.heap id).start ∧
      (s.heap id).notifierLast = (s.heap id).last) ∧
    (s.heap id).children = [] ∧ (s.heap id).workOp ≠ .unmapRange
  busy : ∀ id ∈ deferred, id ∈ s.list ∧ ((s.heap id).workOp = .unmapRange ∨
    (s.heap id).workOp = .updateRangeNotifier ∧
      ¬((s.heap id).start = (s.heap id).notifierStart ∧
        (s.heap id).last = (s.heap id).notifierLast))
  child : ∀ id ∈ s.list, ∀ c ∈ (s.heap id).children, (s.heap c).itStart = 0 ∧
    (s.heap c).children = [] ∧ ((s.heap c).workOp = .unmapRange ∨ (s.heap c).workOp = .addRange)

section Draining
variable {s : Svms} {deferred todo cs : List Nat} {m : Nat → Option Attrs} {id c : Nat}

def Range.setChildren (r : Range) (children : List Nat) : Range :=
  { r with children := children }

theorem Svms.ids_popChild (hnodup : s.list.Nodup) (hid : id ∈ s.list)
    (hcs : (s.heap id).children = c :: cs) :
    s.ids.Perm (c :: (s.write id ((s.heap id).setChildren cs)).ids) := by
  have hperm := perm_cons_erase hid
  have hother : (s.list.erase id).flatMap
      (fun y => y :: ((s.write id ((s.heap id).setChildren cs)).heap y).children) =
      (s.list.erase id).flatMap fun y => y :: (s.heap y).children := by
    refine flatMap_congr fun y hy => ?_
    rw [Svms.write_heap_of_ne (hnodup.mem_erase_iff.mp hy).1]
  have hafter : (s.write id ((s.heap id).setChildren cs)).ids.Perm
      (id :: cs ++ (s.list.erase id).flatMap fun y => y :: (s.heap y).children) := by
    refine (hperm.flatMap_right _).trans ?_
    rw [flatMap_cons, hother, Svms.write_heap_self]
    exact .refl _
  refine (hperm.flatMap_right _).trans (.trans ?_ (hafter.symm.cons c))
  rw [flatMap_cons, hcs]
  exact .swap c id _

theorem svmRangeUnlink_of_child (hmem : c ∉ s.list) (hit : (s.heap c).itStart = 0) :
    svmRangeUnlink s c = s := by
  unfold svmRangeUnlink
  rw [erase_of_not_mem hmem, if_neg (fun h => h.1 hit)]

theorem treeInsert_congr {heap heap' : Nat → Range}
    (h : ∀ y, (heap' y).itStart = (heap y).itStart) (id : Nat) (tree : List Nat) :
    treeInsert heap' id tree = treeInsert heap id tree := by
  induction tree with
  | nil => rfl
  | cons x xs ih =>
    unfold treeInsert
    rw [h x, h id, ih]

theorem svmRangeAddNotifier_itStart (id y : Nat) :
    ((svmRangeAddNotifier s id).heap y).itStart = (s.heap y).itStart := by
  by_cases hy : y = id
  · subst hy
    unfold svmRangeAddNotifier
    rw [Svms.write_heap_self]
  · exact congrArg Range.itStart (Svms.write_heap_of_ne hy)

/-- The range with its tree node and its notifier up to date. -/
def Range.synced (r : Range) : Range :=
  { r with
    itStart := r.start
    itLast := r.last
    notifierStart := r.start
    notifierLast := r.last }

theorem insert_heap_self (s : Svms) (c : Nat) :
    (svmRangeAddNotifier (svmRangeAddToSvms s c) c).heap c = (s.heap c).synced := by
  unfold svmRangeAddNotifier
  rw [Svms.write_heap_self, svmRangeAddToSvms_heap_self]
  rfl

theorem insert_heap_of_ne {y : Nat} (hy : y ≠ c) :
    (svmRangeAddNotifier (svmRangeAddToSvms s c) c).heap y = s.heap y :=
  (Svms.write_heap_of_ne hy).trans (svmRangeAddToSvms_heap_of_ne hy)

theorem Svms.ids_insert (hc : c ∉ s.ids) (hchildren : (s.heap c).children = []) :
    (svmRangeAddNotifier (svmRangeAddToSvms s c) c).ids.Perm (c :: s.ids) := by
  have hlist : (svmRangeAddNotifier (svmRangeAddToSvms s c) c).list = s.list ++ [c] := rfl
  have hsame : s.list.flatMap
      (fun y => y :: ((svmRangeAddNotifier (svmRangeAddToSvms s c) c).heap y).children) =
      s.list.flatMap fun y => y :: (s.heap y).children :=
    flatMap_congr fun y hy => by
      have hne : y ≠ c := fun heq => hc (heq ▸ Svms.mem_ids_of_mem hy)
      rw [insert_heap_of_ne hne]
  unfold Svms.ids
  rw [hlist, flatMap_append, flatMap_singleton, insert_heap_self, hsame]
  change (_ ++ (c :: (s.heap c).children)).Perm _
  rw [hchildren]
  exact perm_append_comm

theorem insert_tree (s : Svms) (c : Nat) :
    (svmRangeAddNotifier (svmRangeAddToSvms s c) c).tree =
      treeInsert (svmRangeAddNotifier (svmRangeAddToSvms s c) c).heap c s.tree :=
  Eq.symm (treeInsert_congr (fun y => svmRangeAddNotifier_itStart c y) c s.tree)

theorem Svms.pending_perm_cons {s' : Svms} (hids : s.ids.Perm (c :: s'.ids))
    (hheap : ∀ y ∈ s'.ids, (s'.heap y).livePiece = (s.heap y).livePiece) :
    s.pending.Perm ((s.heap c).livePiece ++ s'.pending) := by
  refine (hids.flatMap_right _).trans ?_
  rw [flatMap_cons]
  refine Perm.append_left _ ?_
  have hsame : s'.pending = s'.ids.flatMap fun y => (s.heap y).livePiece :=
    flatMap_congr hheap
  rw [hsame]

theorem Draining.popChild (h : Draining s deferred) (hid : id ∈ deferred)
    (hcs : (s.heap id).children = c :: cs) (hrep : Represents s.pending m) :
    let s1 := s.write id ((s.heap id).setChildren cs)
    Draining s1 deferred ∧ Represents ((s.heap c).livePiece ++ s1.pending) m ∧ c ∉ s1.ids ∧
      c ∉ s.list ∧ s1.heap c = s.heap c ∧ c < s.next := by
  intro s1
  have hmem := (h.busy id hid).1
  have hcmem : c ∈ (s.heap id).children := hcs ▸ mem_cons_self
  have hclist : c ∉ s.list := Svms.child_not_mem_list h.nodup hmem hcmem
  have hids : s.ids.Perm (c :: s1.ids) :=
    Svms.ids_popChild (Svms.list_nodup_of_ids h.nodup) hmem hcs
  have hself : s1.heap id = (s.heap id).setChildren cs := Svms.write_heap_self ..
  have hother : ∀ y, y ≠ id → s1.heap y = s.heap y := fun y hy => Svms.write_heap_of_ne hy
  have hbase : ∀ y, (s1.heap y).base = (s.heap y).base := by
    intro y
    by_cases hy : y = id
    · rw [hy, hself]
      rfl
    · rw [hother y hy]
  have hnodup := nodup_cons.mp (hids.nodup_iff.mp h.nodup)
  have hit : ∀ y, (s1.heap y).itStart = (s.heap y).itStart := fun y =>
    (congrArg (fun r : Range => r.itStart) (hbase y) :)
  refine ⟨⟨h.perm, hnodup.2, fun y hy => h.lt y (hids.mem_iff.mpr (mem_cons_of_mem _ hy)),
    ?_, h.deferred_nodup, fun y hy hidle => ?_, fun y hy => ?_, fun y hy d hd => ?_⟩,
    ?_, hnodup.1, hclist, hother c fun heq => hclist (heq ▸ hmem), ?_⟩
  · simp only [hit]
    exact h.sorted
  · rw [hother y fun heq => hidle (heq ▸ hid)]
    exact h.idle y hy hidle
  · obtain ⟨hlist, hbusy⟩ := h.busy y hy
    refine ⟨hlist, ?_⟩
    by_cases hyid : y = id
    · rw [hyid, hself]
      exact hyid ▸ hbusy
    · rw [hother y hyid]
      exact hbusy
  · have hd' : d ∈ (s.heap y).children := by
      by_cases hyid : y = id
      · rw [hyid, hself] at hd
        rw [hyid, hcs]
        exact mem_cons_of_mem _ hd
      · rw [hother y hyid] at hd
        exact hd
    have hdid : d ≠ id := fun heq =>
      Svms.child_not_mem_list h.nodup hy hd' (heq ▸ hmem)
    rw [hother d hdid]
    exact h.child y hy d hd'
  · refine hrep.perm (Svms.pending_perm_cons hids fun y _ => ?_)
    rw [← Range.livePiece_base, hbase, Range.livePiece_base]
  · exact h.lt c (mem_flatMap.mpr ⟨id, hmem, mem_cons_of_mem _ hcmem⟩)

theorem Draining.insertChild (h : Draining s deferred) (hc : c ∉ s.ids) (hlt : c < s.next)
    (hchildren : (s.heap c).children = []) (hop : (s.heap c).workOp = .addRange)
    (hrep : Represents ((s.heap c).livePiece ++ s.pending) m) :
    let s' := svmRangeAddNotifier (svmRangeAddToSvms s c) c
    Draining s' deferred ∧ Represents s'.pending m := by
  intro s'
  have hself : s'.heap c = (s.heap c).synced := insert_heap_self s c
  have hclist : c ∉ s.list := fun hmem => hc (Svms.mem_ids_of_mem hmem)
  have hold : ∀ y ∈ s.ids, s'.heap y = s.heap y := fun y hy =>
    insert_heap_of_ne fun heq => hc (heq ▸ hy)
  have hlist : s'.list = s.list ++ [c] := rfl
  have hids : s'.ids.Perm (c :: s.ids) := Svms.ids_insert hc hchildren
  have hpieces : s'.pending.Perm ((s'.heap c).livePiece ++ s.pending) :=
    Svms.pending_perm_cons hids fun y hy => by rw [hold y hy]
  have htree : s'.tree = treeInsert s'.heap c s.tree := insert_tree s c
  refine ⟨⟨?_, ?_, ?_, ?_, h.deferred_nodup, ?_, ?_, ?_⟩, ?_⟩
  · rw [hlist, htree]
    exact perm_append_comm.trans ((h.perm.cons c).trans (treeInsert_perm _ c s.tree).symm)
  · exact hids.nodup_iff.mpr (nodup_cons.mpr ⟨hc, h.nodup⟩)
  · intro y hy
    rcases mem_cons.mp (hids.mem_iff.mp hy) with rfl | hy
    · exact hlt
    · exact h.lt y hy
  · rw [htree]
    refine treeInsert_sorted _ c (h.sorted.imp_of_mem fun {x y} hx hy hxy => ?_)
    rw [hold x (Svms.mem_ids_of_mem (h.perm.mem_iff.mpr hx)),
      hold y (Svms.mem_ids_of_mem (h.perm.mem_iff.mpr hy))]
    exact hxy
  · intro y hy hidle
    rw [hlist] at hy
    rcases mem_append.mp hy with hy | hy
    · rw [hold y (Svms.mem_ids_of_mem hy)]
      exact h.idle y hy hidle
    · rw [mem_singleton.mp hy, hself]
      refine ⟨⟨rfl, rfl⟩, ⟨rfl, rfl⟩, hchildren, ?_⟩
      change (s.heap c).workOp ≠ _
      rw [hop]
      decide
  · intro y hy
    obtain ⟨hmem, hbusy⟩ := h.busy y hy
    rw [hlist, hold y (Svms.mem_ids_of_mem hmem)]
    exact ⟨mem_append_left _ hmem, hbusy⟩
  · intro y hy d hd
    rw [hlist] at hy
    rcases mem_append.mp hy with hy | hy
    · rw [hold y (Svms.mem_ids_of_mem hy)] at hd
      rw [hold d (mem_flatMap.mpr ⟨y, hy, mem_cons_of_mem _ hd⟩)]
      exact h.child y hy d hd
    · rw [mem_singleton.mp hy, hself] at hd
      change d ∈ (s.heap c).children at hd
      rw [hchildren] at hd
      exact absurd hd not_mem_nil
  · refine hrep.perm (.trans ?_ hpieces.symm)
    rw [hself]
    exact .refl _

theorem Draining.child_step (h : Draining s deferred) (hid : id ∈ deferred)
    (hcs : (s.heap id).children = c :: cs) (hrep : Represents s.pending m) :
    let s' := svmRangeHandleListOp (s.write id ((s.heap id).setChildren cs)) c
    Draining s' deferred ∧ Represents s'.pending m ∧ (s'.heap id).children = cs := by
  intro s'
  obtain ⟨h1, hrep1, hcids, hclist, hheap, hlt⟩ := h.popChild hid hcs hrep
  have hmem := (h.busy id hid).1
  have hne : id ≠ c := fun heq => hclist (heq ▸ hmem)
  obtain ⟨hit, hchildren, hop⟩ := h.child id hmem c (hcs ▸ mem_cons_self)
  have hpop : ((s.write id ((s.heap id).setChildren cs)).heap id).children = cs := by
    rw [Svms.write_heap_self]
    rfl
  rcases hop with hop | hop
  · have hs' : s' = s.write id ((s.heap id).setChildren cs) := by
      change svmRangeHandleListOp _ c = _
      unfold svmRangeHandleListOp
      simp only [hheap, hop]
      exact svmRangeUnlink_of_child hclist (by rw [hheap]; exact hit)
    rw [hs']
    rw [Range.livePiece, if_pos hop] at hrep1
    exact ⟨h1, hrep1, hpop⟩
  · have hs' : s' = svmRangeAddNotifier
        (svmRangeAddToSvms (s.write id ((s.heap id).setChildren cs)) c) c := by
      change svmRangeHandleListOp _ c = _
      unfold svmRangeHandleListOp
      simp only [hheap, hop]
    rw [hs']
    obtain ⟨h2, hrep2⟩ := h1.insertChild hcids hlt (by rw [hheap]; exact hchildren)
      (by rw [hheap]; exact hop) (by rw [hheap]; exact hrep1)
    refine ⟨h2, hrep2, ?_⟩
    rw [insert_heap_of_ne hne]
    exact hpop

theorem Draining.handleChildren (cs : List Nat) : ∀ {s : Svms}, Draining s deferred →
    id ∈ deferred → (s.heap id).children = cs → Represents s.pending m →
    let s' := Svm.handleChildren id cs s
    Draining s' deferred ∧ Represents s'.pending m ∧ (s'.heap id).children = [] := by
  induction cs with
  | nil => exact fun h _ hcs hrep => ⟨h, hrep, hcs⟩
  | cons c cs ih =>
    intro s h hid hcs hrep
    obtain ⟨h', hrep', hcs'⟩ := h.child_step hid hcs hrep
    exact ih h' hid hcs' hrep'

theorem Draining.freeParent (h : Draining s (id :: todo)) (hcs : (s.heap id).children = [])
    (hin : (s.heap id).InTree) (hop : (s.heap id).workOp = .unmapRange)
    (hrep : Represents s.pending m) :
    Draining (svmRangeUnlink s id) todo ∧ Represents (svmRangeUnlink s id).pending m := by
  obtain ⟨hmem, -⟩ := h.busy id mem_cons_self
  obtain ⟨hidtodo, htodo⟩ := nodup_cons.mp h.deferred_nodup
  have hlistNodup := Svms.list_nodup_of_ids h.nodup
  have htree : (svmRangeUnlink s id).tree = s.tree.erase id := if_pos hin
  have hlist : (svmRangeUnlink s id).list = s.list.erase id := rfl
  have hheap : (svmRangeUnlink s id).heap = s.heap := rfl
  have hkeep : ∀ y, y ∈ s.list.erase id ↔ y ≠ id ∧ y ∈ s.list := fun y =>
    hlistNodup.mem_erase_iff
  have hids : s.ids.Perm (id :: (svmRangeUnlink s id).ids) := by
    refine ((perm_cons_erase hmem).flatMap_right _).trans ?_
    rw [flatMap_cons, hcs]
    exact .refl _
  have hnodup := nodup_cons.mp (hids.nodup_iff.mp h.nodup)
  refine ⟨⟨?_, hnodup.2, fun y hy => h.lt y (hids.mem_iff.mpr (mem_cons_of_mem _ hy)), ?_,
    htodo, fun y hy hidle => ?_, fun y hy => ?_, fun y hy d hd => ?_⟩, ?_⟩
  · rw [hlist, htree]
    exact h.perm.erase id
  · rw [htree, hheap]
    exact h.sorted.sublist erase_sublist
  · obtain ⟨hne, hy⟩ := (hkeep y).mp hy
    refine h.idle y hy fun hdef => ?_
    rcases mem_cons.mp hdef with heq | hdef
    · exact hne heq
    · exact hidle hdef
  · obtain ⟨hymem, hbusy⟩ := h.busy y (mem_cons_of_mem _ hy)
    refine ⟨(hkeep y).mpr ⟨fun heq => hidtodo (heq ▸ hy), hymem⟩, hbusy⟩
  · exact h.child y ((hkeep y).mp hy).2 d hd
  · have hperm : s.pending.Perm _ := Svms.pending_perm_cons hids fun _ _ => rfl
    rw [Range.livePiece, if_pos hop] at hperm
    exact hrep.perm hperm

theorem svmRangeUpdateNotifierAndIntervalTree_children (s : Svms) (id : Nat) :
    (svmRangeUpdateNotifierAndIntervalTree s id).list = s.list ∧
      ∀ y, ((svmRangeUpdateNotifierAndIntervalTree s id).heap y).children =
        (s.heap y).children := by
  unfold svmRangeUpdateNotifierAndIntervalTree svmRangeAddNotifier
  dsimp only
  split
  · exact ⟨rfl, fun _ => rfl⟩
  · generalize hs1 : (if (s.heap id).notifierStart ≠ 0 ∧ (s.heap id).notifierLast ≠ 0 then
      { s with tree := s.tree.erase id } else s) = s1
    have hsame : s1.list = s.list ∧ s1.heap = s.heap := by
      subst hs1
      split <;> exact ⟨rfl, rfl⟩
    refine ⟨hsame.1, fun y => ?_⟩
    by_cases hy : y = id
    · subst hy
      rw [Svms.write_heap_self]
      dsimp only
      rw [Svms.write_heap_self]
    · rw [Svms.write_heap_of_ne hy]
      dsimp only
      rw [Svms.write_heap_of_ne hy, hsame.2]

theorem svmRangeUpdateNotifierAndIntervalTree_ids (s : Svms) (id : Nat) :
    (svmRangeUpdateNotifierAndIntervalTree s id).ids = s.ids := by
  obtain ⟨hlist, hchildren⟩ := svmRangeUpdateNotifierAndIntervalTree_children s id
  unfold Svms.ids
  rw [hlist]
  exact flatMap_congr fun y _ => by rw [hchildren]

theorem Draining.updateParent (h : Draining s (id :: todo)) (hcs : (s.heap id).children = [])
    (hnotifier : (s.heap id).notifierStart ≠ 0 ∧ (s.heap id).notifierLast ≠ 0)
    (hop : (s.heap id).workOp = .updateRangeNotifier)
    (hne : ¬((s.heap id).start = (s.heap id).notifierStart ∧
      (s.heap id).last = (s.heap id).notifierLast)) (hrep : Represents s.pending m) :
    let s' := svmRangeUpdateNotifierAndIntervalTree s id
    Draining s' todo ∧ Represents s'.pending m := by
  intro s'
  obtain ⟨hmem, -⟩ := h.busy id mem_cons_self
  obtain ⟨hidtodo, htodo⟩ := nodup_cons.mp h.deferred_nodup
  have hlistNodup := Svms.list_nodup_of_ids h.nodup
  have htreeNodup := h.perm.nodup_iff.mp hlistNodup
  have hs' : s' = svmRangeAddNotifier
      { s.write id { s.heap id with itStart := (s.heap id).start, itLast := (s.heap id).last } with
        tree := treeInsert (s.write id
          { s.heap id with itStart := (s.heap id).start, itLast := (s.heap id).last }).heap id
          (s.tree.erase id) } id := by
    change svmRangeUpdateNotifierAndIntervalTree s id = _
    unfold svmRangeUpdateNotifierAndIntervalTree
    simp only [if_neg hne, if_pos hnotifier]
    rfl
  have hself : s'.heap id = (s.heap id).synced := by
    rw [hs']
    unfold svmRangeAddNotifier
    rw [Svms.write_heap_self]
    dsimp only
    rw [Svms.write_heap_self]
    rfl
  have hother : ∀ y, y ≠ id → s'.heap y = s.heap y := by
    intro y hy
    rw [hs']
    exact (Svms.write_heap_of_ne hy).trans (Svms.write_heap_of_ne hy)
  have htree : s'.tree = treeInsert s'.heap id (s.tree.erase id) := by
    rw [hs']
    refine Eq.symm (treeInsert_congr (fun y => ?_) id _)
    exact svmRangeAddNotifier_itStart id y
  obtain ⟨hlist, hchildren⟩ := svmRangeUpdateNotifierAndIntervalTree_children s id
  have hids : s'.ids = s.ids := svmRangeUpdateNotifierAndIntervalTree_ids s id
  refine ⟨⟨?_, hids ▸ h.nodup, ?_, ?_, htodo, fun y hy hidle => ?_, fun y hy => ?_,
    fun y hy d hd => ?_⟩, ?_⟩
  · rw [hlist, htree]
    refine h.perm.trans ((perm_cons_erase (h.perm.mem_iff.mp hmem)).trans ?_)
    exact (treeInsert_perm _ id _).symm
  · rw [hids, hs']
    exact h.lt
  · rw [htree]
    refine treeInsert_sorted _ id ((h.sorted.sublist erase_sublist).imp_of_mem
      fun {x y} hx hy hxy => ?_)
    rw [hother x (htreeNodup.mem_erase_iff.mp hx).1, hother y (htreeNodup.mem_erase_iff.mp hy).1]
    exact hxy
  · rw [hlist] at hy
    by_cases hyid : y = id
    · rw [hyid, hself]
      refine ⟨⟨rfl, rfl⟩, ⟨rfl, rfl⟩, hcs, ?_⟩
      change (s.heap id).workOp ≠ _
      rw [hop]
      decide
    · rw [hother y hyid]
      refine h.idle y hy fun hdef => ?_
      rcases mem_cons.mp hdef with heq | hdef
      · exact hyid heq
      · exact hidle hdef
  · obtain ⟨hymem, hbusy⟩ := h.busy y (mem_cons_of_mem _ hy)
    rw [hlist, hother y fun heq => hidtodo (heq ▸ hy)]
    exact ⟨hymem, hbusy⟩
  · rw [hlist] at hy
    rw [hchildren] at hd
    have hdid : d ≠ id := fun heq => Svms.child_not_mem_list h.nodup hy hd (heq ▸ hmem)
    rw [hother d hdid]
    exact h.child y hy d hd
  · have hpending : s'.pending = s.pending := by
      unfold Svms.pending
      rw [hids]
      refine flatMap_congr fun y _ => ?_
      by_cases hy : y = id
      · rw [hy, hself]
        rfl
      · rw [hother y hy]
    rw [hpending]
    exact hrep

end Draining

/-! ## What the worker leaves alone -/

section Frame
variable {s : Svms} {id y : Nat} {m : Nat → Option Attrs} {todo : List Nat}

theorem svmRangeHandleListOp_count (s : Svms) (hne : id ≠ y) :
    (svmRangeHandleListOp s y).list.count id = s.list.count id ∧
      (svmRangeHandleListOp s y).tree.count id = s.tree.count id ∧
      ∀ z, z ≠ y → (svmRangeHandleListOp s y).heap z = s.heap z := by
  have hinsert : ∀ (heap : Nat → Range) (tree : List Nat),
      (treeInsert heap y tree).count id = tree.count id := fun heap tree =>
    ((treeInsert_perm heap y tree).count_eq id).trans (count_cons_of_ne hne.symm)
  unfold svmRangeHandleListOp
  cases (s.heap y).workOp with
  | null => exact ⟨rfl, rfl, fun _ _ => rfl⟩
  | unmapRange =>
    refine ⟨count_erase_of_ne hne, ?_, fun _ _ => rfl⟩
    simp only [svmRangeUnlink]
    split
    · exact count_erase_of_ne hne
    · rfl
  | updateRangeNotifier =>
    simp only [svmRangeUpdateNotifierAndIntervalTree]
    split
    · exact ⟨rfl, rfl, fun _ _ => rfl⟩
    · split
      · refine ⟨rfl, (hinsert _ _).trans (count_erase_of_ne hne), fun z hz => ?_⟩
        exact (Svms.write_heap_of_ne hz).trans (Svms.write_heap_of_ne hz)
      · refine ⟨rfl, hinsert _ _, fun z hz => ?_⟩
        exact (Svms.write_heap_of_ne hz).trans (Svms.write_heap_of_ne hz)
  | addRange =>
    refine ⟨?_, hinsert _ _, fun z hz => ?_⟩
    · change (s.list ++ [y]).count id = _
      rw [count_append, count_singleton, if_neg (by simpa using hne.symm), Nat.add_zero]
    · exact (Svms.write_heap_of_ne hz).trans (svmRangeAddToSvms_heap_of_ne hz)

theorem handleChildren_count (y : Nat) (cs : List Nat) : ∀ (s : Svms), id ∉ cs →
    (handleChildren y cs s).list.count id = s.list.count id ∧
      (handleChildren y cs s).tree.count id = s.tree.count id ∧
      ∀ z, z ∉ cs → ((handleChildren y cs s).heap z).base = (s.heap z).base ∧
        (z ≠ y → (handleChildren y cs s).heap z = s.heap z) := by
  induction cs with
  | nil => exact fun s _ => ⟨rfl, rfl, fun _ _ => ⟨rfl, fun _ => rfl⟩⟩
  | cons c cs ih =>
    intro s hid
    obtain ⟨hc, hcs⟩ := not_or.mp (mem_cons.not.mp hid)
    obtain ⟨h1, h2, h3⟩ := svmRangeHandleListOp_count
      (s.write y ((s.heap y).setChildren cs)) hc
    obtain ⟨h4, h5, h6⟩ := ih
      (svmRangeHandleListOp (s.write y ((s.heap y).setChildren cs)) c) hcs
    refine ⟨h4.trans h1, h5.trans h2, fun z hz => ?_⟩
    obtain ⟨hzc, hzcs⟩ := not_or.mp (mem_cons.not.mp hz)
    obtain ⟨hbase, hheap⟩ := h6 z hzcs
    rw [h3 z hzc] at hbase hheap
    refine ⟨hbase.trans ?_, fun hzy => (hheap hzy).trans (Svms.write_heap_of_ne hzy)⟩
    by_cases hzy : z = y
    · rw [hzy, Svms.write_heap_self]
      rfl
    · rw [Svms.write_heap_of_ne hzy]

theorem handleDeferred_other (hne : id ≠ y) (hc : id ∉ (s.heap y).children) :
    (handleDeferred s y).list.count id = s.list.count id ∧
      (handleDeferred s y).tree.count id = s.tree.count id ∧
      (handleDeferred s y).heap id = s.heap id := by
  obtain ⟨h1, h2, h3⟩ := handleChildren_count y (s.heap y).children s hc
  obtain ⟨h4, h5, h6⟩ := svmRangeHandleListOp_count (handleChildren y (s.heap y).children s) hne
  exact ⟨h4.trans h1, h5.trans h2, (h6 id hne).trans ((h3 id hc).2 hne)⟩

theorem svmRangeHandleListOp_keeps (s : Svms) (y z : Nat) :
    (z ∈ (svmRangeHandleListOp s y).list → z ∈ s.list ∨ z = y) ∧
      ((svmRangeHandleListOp s y).heap z).piece = (s.heap z).piece := by
  unfold svmRangeHandleListOp
  cases (s.heap y).workOp with
  | null => exact ⟨.inl, rfl⟩
  | unmapRange => exact ⟨fun hz => .inl (mem_of_mem_erase hz), rfl⟩
  | updateRangeNotifier =>
    simp only [svmRangeUpdateNotifierAndIntervalTree]
    split
    · exact ⟨.inl, rfl⟩
    · refine ⟨?_, (svmRangeAddNotifier_piece z).trans ?_⟩
      · split
        · exact .inl
        · exact .inl
      · by_cases hz : z = y
        · subst hz
          split
          · dsimp only
            rw [Svms.write_heap_self]
            rfl
          · dsimp only
            rw [Svms.write_heap_self]
            rfl
        · split
          · exact congrArg Range.piece (Svms.write_heap_of_ne hz)
          · exact congrArg Range.piece (Svms.write_heap_of_ne hz)
  | addRange =>
    refine ⟨fun hz => ?_, (svmRangeAddNotifier_piece z).trans (svmRangeAddToSvms_piece z)⟩
    rcases mem_append.mp hz with hz | hz
    · exact .inl hz
    · exact .inr (mem_singleton.mp hz)

theorem handleChildren_keeps (y : Nat) (cs : List Nat) (z : Nat) : ∀ (s : Svms),
    (z ∈ (handleChildren y cs s).list → z ∈ s.list ∨ z ∈ cs) ∧
      ((handleChildren y cs s).heap z).piece = (s.heap z).piece := by
  induction cs with
  | nil => exact fun s => ⟨.inl, rfl⟩
  | cons c cs ih =>
    intro s
    have hpop : ((s.write y ((s.heap y).setChildren cs)).heap z).piece = (s.heap z).piece := by
      by_cases hz : z = y
      · rw [hz, Svms.write_heap_self]
        rfl
      · rw [Svms.write_heap_of_ne hz]
    obtain ⟨h1, h2⟩ := svmRangeHandleListOp_keeps (s.write y ((s.heap y).setChildren cs)) c z
    obtain ⟨h3, h4⟩ := ih (svmRangeHandleListOp (s.write y ((s.heap y).setChildren cs)) c)
    refine ⟨fun hz => ?_, h4.trans (h2.trans hpop)⟩
    rcases h3 hz with hz | hz
    · rcases h1 hz with hz | rfl
      · exact .inl hz
      · exact .inr mem_cons_self
    · exact .inr (mem_cons_of_mem _ hz)

theorem handleDeferred_keeps (s : Svms) (id z : Nat) :
    (z ∈ (handleDeferred s id).list → z ∈ s.list ∨ z ∈ id :: (s.heap id).children) ∧
      ((handleDeferred s id).heap z).piece = (s.heap z).piece := by
  obtain ⟨h1, h2⟩ := handleChildren_keeps id (s.heap id).children z s
  obtain ⟨h3, h4⟩ := svmRangeHandleListOp_keeps (handleChildren id (s.heap id).children s) id z
  refine ⟨fun hz => ?_, h4.trans h2⟩
  rcases h3 hz with hz | rfl
  · rcases h1 hz with hz | hz
    · exact .inl hz
    · exact .inr (mem_cons_of_mem _ hz)
  · exact .inr mem_cons_self

end Frame

/-! ## A round of the worker -/

section Round
variable {s : Svms} {id : Nat} {m : Nat → Option Attrs} {todo : List Nat}

theorem Draining.handleDeferred (h : Draining s (id :: todo)) (hin : (s.heap id).InTree)
    (hnotifier : (s.heap id).notifierStart ≠ 0 ∧ (s.heap id).notifierLast ≠ 0)
    (hrep : Represents s.pending m) :
    Draining (Svm.handleDeferred s id) todo ∧ Represents (Svm.handleDeferred s id).pending m := by
  have hmem := (h.busy id mem_cons_self).1
  have hnot : id ∉ (s.heap id).children := fun hc =>
    Svms.child_not_mem_list h.nodup hmem hc hmem
  obtain ⟨-, -, hbase⟩ := handleChildren_count id (s.heap id).children s hnot
  obtain ⟨h', hrep', hcs⟩ := Draining.handleChildren _ h mem_cons_self rfl hrep
  have hbase := (hbase id hnot).1
  unfold Svm.handleDeferred svmRangeHandleListOp
  generalize Svm.handleChildren id (s.heap id).children s = s1 at h' hrep' hcs hbase
  have hin' : (s1.heap id).base.InTree := by
    rw [hbase]
    exact hin
  have hnotifier' : (s1.heap id).base.notifierStart ≠ 0 ∧ (s1.heap id).base.notifierLast ≠ 0 := by
    rw [hbase]
    exact hnotifier
  obtain ⟨-, hop | ⟨hop, hne⟩⟩ := h'.busy id mem_cons_self
  · simp only [hop]
    exact h'.freeParent hcs hin' hop hrep'
  · simp only [hop]
    exact h'.updateParent hcs hnotifier' hop hne hrep'

variable {mm : Mm} {z : Nat}

theorem Waiting.draining (h : Waiting mm m) : Draining mm.svms mm.deferred := by
  constructor
  · exact h.perm
  · exact h.nodup
  · exact h.lt
  · exact h.sorted
  · exact h.deferred_nodup
  · intro id hid hidle
    obtain ⟨hstart, hlast, hchildren, hlive⟩ := h.idle id hid hidle
    obtain ⟨h1, h2⟩ := h.notifier id hid
    exact ⟨⟨hstart.symm, hlast.symm⟩, ⟨h1.trans hstart.symm, h2.trans hlast.symm⟩, hchildren, hlive⟩
  · intro id hid
    obtain ⟨hmem, hbusy⟩ := h.busy id hid
    obtain ⟨h1, h2⟩ := h.notifier id hmem
    have hwithin := h.within id hmem
    refine ⟨hmem, ?_⟩
    rcases hbusy with hop | ⟨hop, hshrunk⟩
    · exact .inl hop
    · exact .inr ⟨hop, by omega⟩
  · intro id hid c hc
    have hchild := h.child id hid c hc
    exact ⟨hchild.itStart, hchild.children, hchild.workOp⟩

theorem Svms.live_apart (hrep : Represents s.pending m) {x y : Nat} (hx : x ∈ s.ids)
    (hy : y ∈ s.ids) (hne : x ≠ y) (hxlive : (s.heap x).workOp ≠ .unmapRange)
    (hylive : (s.heap y).workOp ≠ .unmapRange) :
    (s.heap x).last < (s.heap y).start ∨ (s.heap y).last < (s.heap x).start := by
  have hpair := (pairwise_flatMap.mp hrep.disjoint).2
  have hsymm : Std.Symm fun x y => ∀ q ∈ (s.heap x).livePiece, ∀ r ∈ (s.heap y).livePiece,
      q.Apart r := ⟨fun _ _ h q hq r hr => (h r hr q hq).symm⟩
  have hxmem : (s.heap x).piece ∈ (s.heap x).livePiece := by
    rw [Range.livePiece, if_neg hxlive]
    exact mem_singleton_self _
  have hymem : (s.heap y).piece ∈ (s.heap y).livePiece := by
    rw [Range.livePiece, if_neg hylive]
    exact mem_singleton_self _
  exact hpair.forall hx hy hne _ hxmem _ hymem

section
variable (h : Waiting mm m)
include h

theorem Waiting.round_keep (hmem : id ∈ mm.svms.list) (hz : z ∈ mm.svms.list) (hzid : z ≠ id) :
    (Svm.handleDeferred mm.svms id).heap z = mm.svms.heap z :=
  (handleDeferred_other hzid fun hc => Svms.child_not_mem_list h.nodup hmem hc hz).2.2

theorem Waiting.round_todo (hdef : mm.deferred = id :: todo) (hz : z ∈ todo) :
    z ∈ mm.svms.list ∧ z ≠ id ∧
      (Svm.handleDeferred mm.svms id).heap z = mm.svms.heap z := by
  have hmem := (h.busy id (hdef ▸ mem_cons_self)).1
  have hzmem := (h.busy z (hdef ▸ mem_cons_of_mem _ hz)).1
  have hidtodo := (nodup_cons.mp (hdef ▸ h.deferred_nodup)).1
  have hzid : z ≠ id := fun heq => hidtodo (heq ▸ hz)
  exact ⟨hzmem, hzid, h.round_keep hmem hzmem hzid⟩

theorem Waiting.round_idle (hmem : id ∈ mm.svms.list)
    (h' : Draining (Svm.handleDeferred mm.svms id) todo)
    (hz : z ∈ (Svm.handleDeferred mm.svms id).list) (hzidle : z ∉ todo) :
    (z ∈ mm.svms.list ∧ (Svm.handleDeferred mm.svms id).heap z = mm.svms.heap z) ∨
    ((mm.svms.heap id).itStart ≤ ((Svm.handleDeferred mm.svms id).heap z).itStart ∧
      ((Svm.handleDeferred mm.svms id).heap z).itLast ≤ (mm.svms.heap id).itLast) := by
  obtain ⟨hprov, hpiece⟩ := handleDeferred_keeps mm.svms id z
  have hstart : ((Svm.handleDeferred mm.svms id).heap z).start = (mm.svms.heap z).start :=
    congrArg Piece.lo hpiece
  have hlast : ((Svm.handleDeferred mm.svms id).heap z).last = (mm.svms.heap z).last :=
    congrArg Piece.hi hpiece
  obtain ⟨⟨hit1, hit2⟩, -⟩ := h'.idle z hz hzidle
  by_cases hfam : z ∈ id :: (mm.svms.heap id).children
  · obtain ⟨-, hlo, -, hhi⟩ := h.family hmem hfam
    rw [hit1, hit2, hstart, hlast]
    exact .inr ⟨hlo, hhi⟩
  · have hzmem := (hprov hz).resolve_right hfam
    have hzid : z ≠ id := fun heq => hfam (heq ▸ mem_cons_self)
    exact .inl ⟨hzmem, h.round_keep hmem hzmem hzid⟩

theorem Waiting.round_apart (hdef : mm.deferred = id :: todo)
    (h' : Draining (Svm.handleDeferred mm.svms id) todo) {x y : Nat} (hx : x ∈ todo)
    (hy : y ∈ (Svm.handleDeferred mm.svms id).list) (hyidle : y ∉ todo) :
    ((Svm.handleDeferred mm.svms id).heap x).itLast <
        ((Svm.handleDeferred mm.svms id).heap y).itStart ∨
      ((Svm.handleDeferred mm.svms id).heap y).itLast <
        ((Svm.handleDeferred mm.svms id).heap x).itStart := by
  have hmem := (h.busy id (hdef ▸ mem_cons_self)).1
  obtain ⟨hxmem, hxid, hxkeep⟩ := h.round_todo hdef hx
  rw [hxkeep]
  rcases h.round_idle hmem h' hy hyidle with ⟨hymem, hykeep⟩ | ⟨hlo, hhi⟩
  · rw [hykeep]
    exact h.apart x hxmem y hymem fun heq => hyidle (heq ▸ hx)
  · rcases h.apart x hxmem id hmem hxid with hapart | hapart
    · exact .inl (hapart.trans_le hlo)
    · exact .inr (hhi.trans_lt hapart)

theorem Waiting.round (hdef : mm.deferred = id :: todo) (hpage : (mm.svms.heap id).itStart ≠ 0) :
    Waiting { mm with svms := Svm.handleDeferred mm.svms id, deferred := todo } m ∧
      ∀ z ∈ todo, (Svm.handleDeferred mm.svms id).heap z = mm.svms.heap z := by
  have hmem := (h.busy id (hdef ▸ mem_cons_self)).1
  obtain ⟨hn1, hn2⟩ := h.notifier id hmem
  have hw := h.within id hmem
  have hdrain : Draining mm.svms (id :: todo) := hdef ▸ h.draining
  have htodo := (nodup_cons.mp hdrain.deferred_nodup).2
  obtain ⟨h', hrep'⟩ := hdrain.handleDeferred ⟨hpage, by omega⟩ ⟨by omega, by omega⟩ h.rep
  -- A range that is still deferred is as it was, any other one is at rest: each part splits there.
  refine ⟨⟨⟨h'.perm, h'.nodup, h'.lt, h'.sorted, fun z hz => ?_,
    fun z hz => ?_, fun z hz c hc => ?_,
    fun x hx y hy hne => ?_, hrep'⟩, htodo, fun z hz hzidle => ?_, fun z hz => ?_⟩,
    fun z hz => (h.round_todo hdef hz).2.2⟩
  · by_cases hztodo : z ∈ todo
    · obtain ⟨hzmem, -, hzkeep⟩ := h.round_todo hdef hztodo
      simp only [hzkeep]
      exact h.notifier z hzmem
    · obtain ⟨⟨hit1, hit2⟩, ⟨hn1, hn2⟩, -⟩ := h'.idle z hz hztodo
      exact ⟨hn1.trans hit1.symm, hn2.trans hit2.symm⟩
  · by_cases hztodo : z ∈ todo
    · obtain ⟨hzmem, -, hzkeep⟩ := h.round_todo hdef hztodo
      simp only [hzkeep]
      exact h.within z hzmem
    · obtain ⟨⟨hit1, hit2⟩, -, -, hlive⟩ := h'.idle z hz hztodo
      have hne : ((Svm.handleDeferred mm.svms id).heap z).piece.lo ≤
          ((Svm.handleDeferred mm.svms id).heap z).piece.hi := by
        refine hrep'.nonempty _ (mem_flatMap.mpr ⟨z, Svms.mem_ids_of_mem hz, ?_⟩)
        rw [Range.livePiece, if_neg hlive]
        exact mem_singleton_self _
      exact ⟨hit1.le, hne, hit2.ge⟩
  · by_cases hztodo : z ∈ todo
    · obtain ⟨hzmem, hzid, hzkeep⟩ := h.round_todo hdef hztodo
      simp only [hzkeep] at hc ⊢
      -- A child of another range is not a child of the one the worker has taken.
      have hcid : c ≠ id := fun heq => Svms.child_not_mem_list h.nodup hzmem hc (heq ▸ hmem)
      have hcnot : c ∉ (mm.svms.heap id).children := fun hc' =>
        Svms.children_disjoint h.nodup hzmem hmem hzid hc hc'
      rw [(handleDeferred_other hcid hcnot).2.2]
      exact h.child z hzmem c hc
    · rw [(h'.idle z hz hztodo).2.2.1] at hc
      exact absurd hc not_mem_nil
  · by_cases hxtodo : x ∈ todo
    · by_cases hytodo : y ∈ todo
      · obtain ⟨hxmem, -, hxkeep⟩ := h.round_todo hdef hxtodo
        obtain ⟨hymem, -, hykeep⟩ := h.round_todo hdef hytodo
        simp only [hxkeep, hykeep]
        exact h.apart x hxmem y hymem hne
      · exact h.round_apart hdef h' hxtodo hy hytodo
    · by_cases hytodo : y ∈ todo
      · exact (h.round_apart hdef h' hytodo hx hxtodo).symm
      · obtain ⟨⟨hx1, hx2⟩, -, -, hxlive⟩ := h'.idle x hx hxtodo
        obtain ⟨⟨hy1, hy2⟩, -, -, hylive⟩ := h'.idle y hy hytodo
        simp only [hx1, hx2, hy1, hy2]
        exact Svms.live_apart hrep' (Svms.mem_ids_of_mem hx) (Svms.mem_ids_of_mem hy) hne hxlive
          hylive
  · obtain ⟨⟨hit1, hit2⟩, -, hchildren, hlive⟩ := h'.idle z hz hzidle
    exact ⟨hit1.symm, hit2.symm, hchildren, hlive⟩
  · obtain ⟨-, -, hzkeep⟩ := h.round_todo hdef hz
    refine ⟨(h'.busy z hz).1, ?_⟩
    simp only [hzkeep]
    exact (h.busy z (hdef ▸ mem_cons_of_mem _ hz)).2

end

end Round

theorem Waiting.rest {mm : Mm} {m : Nat → Option Attrs} (h : Waiting mm m)
    (hdef : mm.deferred = []) : mm.svms.Rest m := by
  have hidle := fun id hid => h.idle id hid (hdef ▸ not_mem_nil)
  have hids := Svms.ids_eq_list fun id hid => (hidle id hid).2.2.1
  constructor
  · constructor
    · exact ⟨h.perm, Svms.list_nodup_of_ids h.nodup, fun id hid => h.lt id (hids ▸ hid),
        fun id hid => ⟨(hidle id hid).1.symm, (hidle id hid).2.1.symm⟩, h.sorted⟩
    · rw [← Svms.pending_eq_map (fun id hid => (hidle id hid).2.2.1)
        fun id hid => (hidle id hid).2.2.2]
      exact h.rep
  · intro id hid
    obtain ⟨h1, h2⟩ := h.notifier id hid
    exact ⟨h1.trans (hidle id hid).1.symm, h2.trans (hidle id hid).2.1.symm⟩
  · exact fun id hid => (hidle id hid).2.2.1
  · exact fun id hid => (hidle id hid).2.2.2

theorem Waiting.work {m : Nat → Option Attrs} (deferred : List Nat) : ∀ {mm : Mm}, Waiting mm m →
    mm.deferred = deferred → (∀ id ∈ deferred, (mm.svms.heap id).itStart ≠ 0) →
    (deferred.foldl Svm.handleDeferred mm.svms).Rest m := by
  induction deferred with
  | nil => exact fun h hdef _ => h.rest hdef
  | cons id todo ih =>
    intro mm h hdef hpage
    obtain ⟨h', hkeep⟩ := h.round hdef (hpage id mem_cons_self)
    refine ih h' rfl fun z hz => ?_
    dsimp only
    rw [hkeep z hz]
    exact hpage z (mem_cons_of_mem _ hz)

/-! ## Page 0 -/

section PageZero
variable {s : Svms} {id y : Nat}

def Detached (s : Svms) (ids deferred : List Nat) : Prop :=
  ∀ z ∈ deferred, z ∈ ids ∧ ∀ c ∈ (s.heap z).children, c ∉ ids

theorem Detached.not_child {ids deferred : List Nat} (h : Detached s ids deferred)
    (hy : y ∈ deferred) (hid : id ∈ ids) : id ∉ (s.heap y).children :=
  fun hmem => (h y hy).2 id hmem hid

theorem Detached.step {ids todo : List Nat} (h : Detached s ids (y :: todo))
    (hnodup : (y :: todo).Nodup) : Detached (handleDeferred s y) ids todo := by
  intro z hz
  obtain ⟨hmem, hchildren⟩ := h z (mem_cons_of_mem _ hz)
  have hzy : z ≠ y := fun heq => (nodup_cons.mp hnodup).1 (heq ▸ hz)
  rw [(handleDeferred_other hzy (h.not_child mem_cons_self hmem)).2.2]
  exact ⟨hmem, hchildren⟩

theorem foldl_handleDeferred_other {ids : List Nat} (hid : id ∈ ids) (todo : List Nat) :
    ∀ {s : Svms}, Detached s ids todo → todo.Nodup → id ∉ todo →
    (todo.foldl handleDeferred s).list.count id = s.list.count id ∧
      (todo.foldl handleDeferred s).tree.count id = s.tree.count id := by
  induction todo with
  | nil => exact fun _ _ _ => ⟨rfl, rfl⟩
  | cons y todo ih =>
    intro s h hnodup hmem
    obtain ⟨hne, hmem⟩ := not_or.mp (mem_cons.not.mp hmem)
    obtain ⟨h1, h2, -⟩ := handleDeferred_other hne (h.not_child mem_cons_self hid)
    obtain ⟨h3, h4⟩ := ih (h.step hnodup) (nodup_cons.mp hnodup).2 hmem
    exact ⟨h3.trans h1, h4.trans h2⟩

structure Range.Stuck (r : Range) : Prop where
  itStart : r.itStart = 0
  notifierStart : r.notifierStart = 0
  work : r.workOp = .unmapRange ∨ r.workOp = .updateRangeNotifier ∧
    ¬(r.start = r.notifierStart ∧ r.last = r.notifierLast)

theorem handleDeferred_stuck (hid : id ∉ (s.heap id).children) (hlist : s.list.count id = 1)
    (htree : s.tree.count id = 1) (hstuck : (s.heap id).Stuck) :
    (handleDeferred s id).list.count id ≠ (handleDeferred s id).tree.count id := by
  obtain ⟨h1, h2, h3⟩ := handleChildren_count id (s.heap id).children s hid
  unfold handleDeferred
  generalize handleChildren id (s.heap id).children s = s1 at h1 h2 h3
  have hstuck1 : (s1.heap id).Stuck := by
    have hbase : (s1.heap id).base.Stuck := by
      rw [(h3 id hid).1]
      exact ⟨hstuck.itStart, hstuck.notifierStart, hstuck.work⟩
    exact ⟨hbase.itStart, hbase.notifierStart, hbase.work⟩
  unfold svmRangeHandleListOp
  rcases hstuck1.work with hop | ⟨hop, hne⟩
  · simp only [hop, svmRangeUnlink]
    rw [if_neg (fun h => h.1 hstuck1.itStart), count_erase_self]
    omega
  · simp only [hop, svmRangeUpdateNotifierAndIntervalTree]
    rw [if_neg hne, if_neg (fun h => h.1 hstuck1.notifierStart)]
    have hinsert : ∀ heap : Nat → Range,
        (treeInsert heap id s1.tree).count id = s1.tree.count id + 1 := fun heap =>
      ((treeInsert_perm heap id s1.tree).count_eq id).trans count_cons_self
    intro heq
    have heq' : s1.list.count id = _ := heq.trans (hinsert _)
    omega

theorem foldl_handleDeferred_stuck {ids : List Nat} (hid : id ∈ ids) (deferred : List Nat) :
    ∀ {s : Svms}, Detached s ids deferred → deferred.Nodup → id ∈ deferred →
    s.list.count id = 1 → s.tree.count id = 1 → (s.heap id).Stuck →
    (deferred.foldl handleDeferred s).list.count id ≠
      (deferred.foldl handleDeferred s).tree.count id := by
  induction deferred with
  | nil => exact fun _ _ hmem => absurd hmem not_mem_nil
  | cons y todo ih =>
    intro s h hnodup hmem hlist htree hstuck
    obtain ⟨hy, htodo⟩ := nodup_cons.mp hnodup
    rw [foldl_cons]
    by_cases heq : id = y
    · subst heq
      obtain ⟨h1, h2⟩ := foldl_handleDeferred_other hid todo (h.step hnodup) htodo hy
      rw [h1, h2]
      exact handleDeferred_stuck (h.not_child mem_cons_self hid) hlist htree hstuck
    · obtain ⟨h1, h2, h3⟩ := handleDeferred_other heq (h.not_child mem_cons_self hid)
      refine ih (h.step hnodup) htodo ?_ (h1.trans hlist) (h2.trans htree) (h3.symm ▸ hstuck)
      exact (mem_cons.mp hmem).resolve_left heq

end PageZero

/-! ## Unmapping and the work -/

/-- Unmapped intervals followed by the deferred work leave exactly the pages that
are in none of them, in disjoint ranges that are linked, if and only if no interval
hits a range that starts at page 0. -/
theorem munmap_drain_iff (p : Process) {s : Svms} {m : Nat → Option Attrs} (hs : s.Rest m)
    (pte : Nat → Nat → Bool) (is : List Munmap) :
    (svmRangeDeferredListWork
        (is.foldl (notifyUnmap p) { svms := s, deferred := [], pte := pte })).svms.Ok
        (eraseAll m is) ↔
      ∀ id ∈ s.list, (s.heap id).start = 0 →
        ∀ i ∈ is, ¬((s.heap id).start ≤ i.last ∧ i.start ≤ (s.heap id).last) := by
  obtain ⟨hsame, hwait, hmem⟩ := foldl_notifyUnmap_waiting p is (hs.waiting pte)
  generalize is.foldl (notifyUnmap p) { svms := s, deferred := [], pte := pte } = mm
    at hsame hwait hmem
  simp only [not_mem_nil, or_false] at hmem hsame
  have hhit : ∀ id ∈ s.list, ∀ i : Munmap, (s.heap id).Hit i ↔
      ((s.heap id).start ≤ i.last ∧ i.start ≤ (s.heap id).last) := by
    intro id hid i
    unfold Range.Hit
    rw [(hs.node id hid).1, (hs.node id hid).2]
  constructor
  · intro hok id hid hzero i hi hov
    have hdef := (hmem id).mpr ⟨hid, i, hi, (hhit id hid i).mpr hov⟩
    obtain ⟨hlist, hbusy⟩ := hwait.busy id hdef
    obtain ⟨hn1, hn2⟩ := hwait.notifier id hlist
    have hit : (mm.svms.heap id).itStart = 0 :=
      ((hsame.node id hid).1.trans (hs.node id hid).1).trans hzero
    have hwithin := hwait.within id hlist
    have hdetached : Detached mm.svms mm.svms.list mm.deferred := fun z hz =>
      ⟨(hwait.busy z hz).1, fun c hc =>
        Svms.child_not_mem_list hwait.nodup (hwait.busy z hz).1 hc⟩
    have hstuck : (mm.svms.heap id).Stuck := by
      refine ⟨hit, hn1.trans hit, ?_⟩
      rcases hbusy with hop | ⟨hop, hshrunk⟩
      · exact .inl hop
      · exact .inr ⟨hop, by omega⟩
    have hnodup := Svms.list_nodup_of_ids hwait.nodup
    refine foldl_handleDeferred_stuck hlist mm.deferred hdetached hwait.deferred_nodup
      hdef ?_ ?_ hstuck (hok.perm.count_eq id)
    · exact count_eq_one_of_mem hnodup hlist
    · exact count_eq_one_of_mem (hwait.perm.nodup_iff.mp hnodup)
        (hwait.perm.mem_iff.mp hlist)
  · intro hpage
    refine (Waiting.work mm.deferred hwait rfl fun id hid hzero => ?_).toOk
    obtain ⟨hlist, i, hi, hov⟩ := (hmem id).mp hid
    rw [(hsame.node id hlist).1, (hs.node id hlist).1] at hzero
    exact hpage id hlist hzero i hi ((hhit id hlist i).mp hov)

theorem exSvms_rest {lo hi : Nat} (h : lo ≤ hi) : (exSvms lo hi).Rest (exMap lo hi) := by
  have hheap : (exSvms lo hi).heap 0 = (svmRangeNew exProcess lo hi).synced := insert_heap_self _ 0
  have hlist : ∀ id ∈ (exSvms lo hi).list, (exSvms lo hi).heap id =
      (svmRangeNew exProcess lo hi).synced := by
    intro id hid
    rw [mem_singleton.mp hid]
    exact hheap
  refine ⟨exSvms_ok h, fun id hid => ?_, fun id hid => ?_, fun id hid => ?_⟩
  · rw [hlist id hid]
    exact ⟨rfl, rfl⟩
  · rw [hlist id hid]
    rfl
  · rw [hlist id hid]
    change WorkOp.null ≠ _
    decide

def exMunmaps : List Munmap :=
  [{ start := 8, last := 9, le := by decide, ok := fun _ _ => true },
    { start := 14, last := 20, le := by decide, ok := fun _ _ => true },
    { start := 11, last := 12, le := by decide, ok := fun _ _ => true }]

def exMm (lo hi : Nat) : Mm :=
  { svms := exSvms lo hi, deferred := [], pte := fun _ _ => false }

/-- A range from 4 to 15 keeps the pages 4 to 7, 10 and 13. -/
theorem munmap_drain_exMm :
    (svmRangeDeferredListWork (exMunmaps.foldl (notifyUnmap exProcess) (exMm 4 15))).svms.Ok
      (eraseAll (exMap 4 15) exMunmaps) :=
  (munmap_drain_iff exProcess (exSvms_rest (by decide)) _ exMunmaps).mpr (by decide)

/-- A range from 0 to 15 is afterwards twice in the tree. -/
theorem munmap_page_zero_twice : (exSvms 0 15).Rest (exMap 0 15) ∧
    ¬(svmRangeDeferredListWork (exMunmaps.foldl (notifyUnmap exProcess) (exMm 0 15))).svms.Ok
      (eraseAll (exMap 0 15) exMunmaps) := by
  refine ⟨exSvms_rest (by decide), fun hok => ?_⟩
  have hlist : (svmRangeDeferredListWork
      (exMunmaps.foldl (notifyUnmap exProcess) (exMm 0 15))).svms.list.count 0 = 1 := by decide
  have htree : (svmRangeDeferredListWork
      (exMunmaps.foldl (notifyUnmap exProcess) (exMm 0 15))).svms.tree.count 0 = 2 := by decide
  have hcount := hok.perm.count_eq 0
  omega

end Amdkfd.Svm
