import Amdkfd.Svm.Booking
import Amdkfd.Svm.Boundaries

/-!
# The reservation over whole runs
-/

namespace Amdkfd.Svm

open Lib List Bool

/-! ## Families -/

def Svms.family (s : Svms) (id : Nat) : List Nat :=
  id :: (s.heap id).children

def Svms.Covered (s : Svms) (id : Nat) : Prop :=
  ∀ page, (s.heap id).itStart ≤ page → page ≤ (s.heap id).itLast →
    ∃ y ∈ s.family id, (s.heap y).Has page

/-- The step changes no link and no node, and every range with its children keeps its size and
what it covers. -/
structure KeepsFamilies (s s' : Svms) : Prop extends SameNodes s s' where
  bytes : ∀ id ∈ s.list, s'.bytesOf (s'.family id) = s.bytesOf (s.family id)
  covered : ∀ id ∈ s.list, s.Covered id → s'.Covered id

section Families
variable {s s' s'' : Svms} {m : Nat → Option Attrs} {id x a b : Nat} {news : List Nat}

theorem KeepsFamilies.refl (s : Svms) : KeepsFamilies s s :=
  ⟨.refl s, fun _ _ => rfl, fun _ _ h => h⟩

theorem KeepsFamilies.trans (h : KeepsFamilies s s') (h' : KeepsFamilies s' s'') :
    KeepsFamilies s s'' := by
  refine ⟨h.toSameNodes.trans h'.toSameNodes, fun id hid => ?_, fun id hid hcov => ?_⟩
  · exact (h'.bytes id (h.list ▸ hid)).trans (h.bytes id hid)
  · exact h'.covered id (h.list ▸ hid) (h.covered id hid hcov)

theorem Svms.bytes_eq_sum (s : Svms) :
    s.bytes = (s.list.map fun id => s.bytesOf (s.family id)).sum := by
  unfold Svms.bytes Svms.ids
  induction s.list with
  | nil => rw [flatMap_nil, map_nil, sum_nil, Svms.bytesOf_nil]
  | cons id ids ih =>
    rw [flatMap_cons, Svms.bytesOf_append, ih, map_cons, sum_cons, Svms.family]

theorem KeepsFamilies.total (h : KeepsFamilies s s') : s'.bytes = s.bytes := by
  rw [Svms.bytes_eq_sum, Svms.bytes_eq_sum, h.list]
  exact congrArg List.sum (map_congr_left h.bytes)

theorem Pending.family_nodup (h : Pending s m) (hid : id ∈ s.list) : (s.family id).Nodup :=
  (nodup_flatMap.mp h.nodup).1 id hid

theorem Range.pages_of_base {r r' : Range} (h : r'.base = r.base) :
    r'.bytes = r.bytes ∧ ∀ page, r'.Has page ↔ r.Has page := by
  obtain ⟨hstart, hlast, -⟩ := Range.bounds_of_base h
  refine ⟨Range.bytes_congr hstart hlast, fun page => ?_⟩
  unfold Range.Has
  rw [hstart, hlast]

theorem Pending.splitOff_keeps (h : Pending s m) (hid : id ∈ s.list) (hx : x ∈ s.family id)
    (hsplit : SplitOff s s' id x a b news) (hab : a ≤ b) : KeepsFamilies s s' := by
  have hlt : ∀ z ∈ s.list, ∀ y ∈ s.family z, y < s.next := fun z hz y hy =>
    h.lt y (mem_flatMap.mpr ⟨z, hz, hy⟩)
  have hframe : ∀ z ∈ s.list, ∀ y ∈ s.family z, y ≠ x → (s'.heap y).base = (s.heap y).base :=
    fun z hz y hy hne => hsplit.frame y (hlt z hz y hy) hne
  have hself : s'.family id = s.family id ++ news := by
    unfold Svms.family
    rw [hsplit.children id (hlt id hid id mem_cons_self), if_pos rfl]
    rfl
  have hother : ∀ z ∈ s.list, z ≠ id → s'.family z = s.family z ∧ x ∉ s.family z := by
    intro z hz hne
    refine ⟨?_, Svms.family_disjoint h.nodup hid hz hne.symm hx⟩
    unfold Svms.family
    rw [hsplit.children z (hlt z hz z mem_cons_self), if_neg hne]
  obtain ⟨hsame, -⟩ := h.step hid hx hsplit hab
  refine ⟨hsame, fun z hz => ?_, fun z hz hcov page hlo hhi => ?_⟩
  · by_cases hzid : z = id
    · subst hzid
      have hperm := perm_cons_erase hx
      have hkeep : s'.bytesOf ((s.family z).erase x) = s.bytesOf ((s.family z).erase x) := by
        refine Svms.bytesOf_congr fun y hy => ?_
        obtain ⟨hne, hy⟩ := (h.family_nodup hz).mem_erase_iff.mp hy
        exact (Range.pages_of_base (hframe z hz y hy hne)).1
      have hsize : s'.bytesOf (x :: news) = (s.heap x).bytes := by
        rw [Svms.bytesOf_eq_pageCount, hsplit.size, Range.bytes]
      rw [Svms.bytesOf_cons] at hsize
      rw [hself, Svms.bytesOf_append, Svms.bytesOf_perm s' hperm, Svms.bytesOf_perm s hperm,
        Svms.bytesOf_cons, Svms.bytesOf_cons, hkeep]
      omega
    · obtain ⟨hfamily, hnot⟩ := hother z hz hzid
      rw [hfamily]
      refine Svms.bytesOf_congr fun y hy => ?_
      exact (Range.pages_of_base (hframe z hz y hy fun heq => hnot (heq ▸ hy))).1
  · rw [(hsame.node z hz).1] at hlo
    rw [(hsame.node z hz).2] at hhi
    obtain ⟨y, hy, hhas⟩ := hcov page hlo hhi
    have hsub : ∀ v ∈ s.family z, v ∈ s'.family z := by
      intro v hv
      by_cases hzid : z = id
      · subst hzid
        rw [hself]
        exact mem_append_left _ hv
      · rw [(hother z hz hzid).1]
        exact hv
    by_cases hyx : y = x
    · subst hyx
      have hzid : z = id := by
        by_contra hne
        exact (hother z hz hne).2 hy
      subst hzid
      obtain ⟨v, hv, hvpage⟩ := hsplit.cover page hhas
      refine ⟨v, ?_, hvpage⟩
      rcases mem_cons.mp hv with rfl | hv
      · exact hsub v hy
      · rw [hself]
        exact mem_append_right _ hv
    · refine ⟨y, hsub y hy, ?_⟩
      exact ((Range.pages_of_base (hframe z hz y hy hyx)).2 page).mpr hhas

structure Range.SamePages (r r' : Range) : Prop where
  start : r'.start = r.start
  last : r'.last = r.last
  itStart : r'.itStart = r.itStart
  itLast : r'.itLast = r.itLast
  children : r'.children = r.children

theorem KeepsFamilies.write {r : Range} (h : (s.heap id).SamePages r) :
    KeepsFamilies s (s.write id r) := by
  have hheap : ∀ y, (s.heap y).SamePages ((s.write id r).heap y) := by
    intro y
    by_cases hy : y = id
    · subst hy
      rw [Svms.write_heap_self]
      exact h
    · rw [Svms.write_heap_of_ne hy]
      exact ⟨rfl, rfl, rfl, rfl, rfl⟩
  have hfamily : ∀ z, (s.write id r).family z = s.family z := fun z =>
    congrArg (z :: ·) (hheap z).children
  refine ⟨⟨rfl, rfl, fun z _ => ⟨(hheap z).itStart, (hheap z).itLast⟩⟩, fun z _ => ?_,
    fun z _ hcov page hlo hhi => ?_⟩
  · rw [hfamily]
    exact Svms.bytesOf_congr fun y _ => Range.bytes_congr (hheap y).start (hheap y).last
  · rw [(hheap z).itStart] at hlo
    rw [(hheap z).itLast] at hhi
    obtain ⟨y, hy, hhas⟩ := hcov page hlo hhi
    refine ⟨y, (hfamily z).symm ▸ hy, ?_⟩
    unfold Range.Has
    rw [(hheap y).start, (hheap y).last]
    exact hhas

/-! ## Notifications -/

variable {mm : Mm}

theorem unmapOne_keeps (p : Process) (ok : Nat → Nat → Bool) (h : Pending mm.svms m)
    (hid : id ∈ mm.svms.list) (hx : x ∈ mm.svms.family id) (hab : a ≤ b) :
    KeepsFamilies mm.svms (unmapOne p ok id a b mm x).svms ∧
      ∃ m', Pending (unmapOne p ok id a b mm x).svms m' := by
  obtain ⟨hxids, -, hle, -⟩ := h.family hid hx
  obtain ⟨-, news, hsplit⟩ := unmapOne_splitOff p ok (h.lt x hxids)
    (h.lt id (Svms.mem_ids_of_mem hid)) hle hab
  obtain ⟨-, m', h', -⟩ := h.step hid hx hsplit hab
  exact ⟨h.splitOff_keeps hid hx hsplit hab, m', h'⟩

theorem unmapChildren_keeps (p : Process) (ok : Nat → Nat → Bool) (hab : a ≤ b) (rounds : Nat) :
    ∀ (i : Nat) (mm : Mm) (m : Nat → Option Attrs), Pending mm.svms m → id ∈ mm.svms.list →
    KeepsFamilies mm.svms (unmapChildren p ok id a b rounds i mm).svms ∧
      ∃ m', Pending (unmapChildren p ok id a b rounds i mm).svms m' := by
  induction rounds with
  | zero => exact fun _ mm m h _ => ⟨.refl _, m, h⟩
  | succ rounds ih =>
    intro i mm m h hid
    unfold unmapChildren
    cases hi : (mm.svms.heap id).children[i]? with
    | none => exact ⟨.refl _, m, h⟩
    | some c =>
      obtain ⟨hkeep, m1, h1⟩ := unmapOne_keeps p ok h hid
        (mem_cons_of_mem _ (mem_of_getElem? hi)) hab
      obtain ⟨hkeep', hpending⟩ := ih (i + 1) _ m1 h1 (hkeep.list.symm ▸ hid)
      exact ⟨hkeep.trans hkeep', hpending⟩

theorem svmRangeUnmapFromCpu_keeps (p : Process) (ok : Nat → Nat → Bool) (h : Pending mm.svms m)
    (hid : id ∈ mm.svms.list) (hab : a ≤ b) :
    KeepsFamilies mm.svms (svmRangeUnmapFromCpu p ok id a b mm).svms := by
  obtain ⟨hkeep1, m1, h1⟩ := unmapChildren_keeps p ok hab
    (3 * (mm.svms.heap id).children.length) 0 mm m h hid
  obtain ⟨hkeep2, -⟩ := unmapOne_keeps p ok h1 (hkeep1.list.symm ▸ hid) mem_cons_self hab
  unfold svmRangeUnmapFromCpu
  dsimp only
  refine (hkeep1.trans hkeep2).trans ?_
  rw [(svmRangeAddListWork_eq id (by split <;> decide) _).1]
  exact .write ⟨rfl, rfl, rfl, rfl, rfl⟩

theorem deliver_keeps (p : Process) (h : Waiting mm m) (n : Notification) :
    KeepsFamilies mm.svms (deliver p mm n).svms ∧ ∃ m', Waiting (deliver p mm n) m' := by
  unfold deliver
  split
  · next hid =>
    obtain ⟨-, ⟨m', h', -⟩, -⟩ := svmRangeNotifyUnmap_one p n.munmap h hid
    refine ⟨?_, m', h'⟩
    unfold svmRangeNotifyUnmap
    dsimp only
    split
    · next hov =>
      obtain ⟨hn1, hn2⟩ := h.notifier n.id hid
      have hwithin := h.within n.id hid
      have hle := n.munmap.le
      exact svmRangeUnmapFromCpu_keeps p n.munmap.ok h.toPending hid (by omega)
    · exact .refl _
  · exact ⟨.refl _, m, h⟩

theorem foldl_deliver_keeps (p : Process) (ns : List Notification) : ∀ {mm : Mm}
    {m : Nat → Option Attrs}, Waiting mm m →
    KeepsFamilies mm.svms (ns.foldl (deliver p) mm).svms ∧
      ∃ m', Waiting (ns.foldl (deliver p) mm) m' := by
  induction ns with
  | nil => exact fun {mm m} h => ⟨.refl _, m, h⟩
  | cons n ns ih =>
    intro mm m h
    obtain ⟨hkeep, m1, h1⟩ := deliver_keeps p h n
    obtain ⟨hkeep', hwait⟩ := ih h1
    exact ⟨hkeep.trans hkeep', hwait⟩

end Families

/-! ## The worker -/

section Worker
variable {p : Process} {s s' : Svms} {m : Nat → Option Attrs} {id c : Nat} {deferred cs : List Nat}

theorem Svms.bytes_cons (hids : s.ids.Perm (c :: s'.ids))
    (hheap : ∀ y, (s'.heap y).bytes = (s.heap y).bytes) :
    s.bytes = (s.heap c).bytes + s'.bytes := by
  rw [Svms.bytes, Svms.bytesOf_perm s hids, Svms.bytesOf_cons]
  exact congrArg (_ + ·) (Svms.bytesOf_congr fun y _ => (hheap y).symm)

theorem svmRangeHandleListOp_bytes (s : Svms) (y z : Nat) :
    ((svmRangeHandleListOp s y).heap z).bytes = (s.heap z).bytes := by
  have hpiece := (svmRangeHandleListOp_keeps s y z).2
  exact Range.bytes_congr (congrArg Piece.lo hpiece) (congrArg Piece.hi hpiece)

theorem Draining.child_bytes (p : Process) (h : Draining s deferred) (hid : id ∈ deferred)
    (hcs : (s.heap id).children = c :: cs) (hrep : Represents s.pending m) :
    let s1 := s.write id ((s.heap id).setChildren cs)
    charge p (svmRangeHandleListOp s1 c).bytes =
      charge p s.bytes + svmRangeHandleListOpMem p s1 c := by
  intro s1
  obtain ⟨-, -, hcids, hclist, hheap, -⟩ := h.popChild hid hcs hrep
  have hmem := (h.busy id hid).1
  obtain ⟨hit, hchildren, hop⟩ := h.child id hmem c (hcs ▸ mem_cons_self)
  have hsame : ∀ y, (s1.heap y).bytes = (s.heap y).bytes := by
    intro y
    by_cases hy : y = id
    · subst hy
      rw [Svms.write_heap_self]
      rfl
    · rw [Svms.write_heap_of_ne hy]
  have hpop : s.bytes = (s.heap c).bytes + s1.bytes :=
    Svms.bytes_cons (Svms.ids_popChild (Svms.list_nodup_of_ids h.nodup) hmem hcs) hsame
  rcases hop with hop | hop
  · have hop1 : (s1.heap c).workOp = .unmapRange := hheap ▸ hop
    have hfree : svmRangeHandleListOp s1 c = s1 := by
      unfold svmRangeHandleListOp
      simp only [hop1]
      exact svmRangeUnlink_of_child hclist (by rw [hheap]; exact hit)
    have hmem : svmRangeHandleListOpMem p s1 c = -charge p (s.heap c).bytes := by
      unfold svmRangeHandleListOpMem
      simp only [hop1]
      rw [svmRangeFreeMem_true, hheap]
    rw [hfree, hmem, hpop, charge_add]
    omega
  · have hop1 : (s1.heap c).workOp = .addRange := hheap ▸ hop
    have hinsert : svmRangeHandleListOp s1 c =
        svmRangeAddNotifier (svmRangeAddToSvms s1 c) c := by
      unfold svmRangeHandleListOp
      simp only [hop1]
    have hids : (svmRangeHandleListOp s1 c).ids.Perm (c :: s1.ids) := by
      rw [hinsert]
      exact Svms.ids_insert hcids (by rw [hheap]; exact hchildren)
    have hadd : (svmRangeHandleListOp s1 c).bytes = (s.heap c).bytes + s1.bytes := by
      rw [Svms.bytes_cons hids fun y => (svmRangeHandleListOp_bytes s1 c y).symm,
        svmRangeHandleListOp_bytes, hsame]
    have hmem : svmRangeHandleListOpMem p s1 c = 0 := by
      unfold svmRangeHandleListOpMem
      simp only [hop1]
    rw [hadd, hmem, hpop, Int.add_zero]

theorem Draining.handleChildren_bytes (p : Process) (cs : List Nat) : ∀ {s : Svms},
    Draining s deferred → id ∈ deferred → (s.heap id).children = cs → Represents s.pending m →
    charge p (Svm.handleChildren id cs s).bytes =
      charge p s.bytes + handleChildrenMem p id cs s := by
  induction cs with
  | nil => exact fun _ _ _ _ => (Int.add_zero _).symm
  | cons c cs ih =>
    intro s h hid hcs hrep
    obtain ⟨h', hrep', hcs'⟩ := h.child_step hid hcs hrep
    have hchild := h.child_bytes p hid hcs hrep
    have hrest := ih h' hid hcs' hrep'
    unfold Svm.handleChildren handleChildrenMem
    refine hrest.trans ?_
    rw [hchild, Int.add_assoc]
    rfl

variable {todo : List Nat}

theorem Draining.parent_bytes (p : Process) (h : Draining s (id :: todo))
    (hcs : (s.heap id).children = []) :
    charge p (svmRangeHandleListOp s id).bytes =
      charge p s.bytes + svmRangeHandleListOpMem p s id := by
  obtain ⟨hmem, hop | ⟨hop, -⟩⟩ := h.busy id mem_cons_self
  · have hids : s.ids.Perm (id :: (svmRangeHandleListOp s id).ids) := by
      have hfree : svmRangeHandleListOp s id = svmRangeUnlink s id := by
        unfold svmRangeHandleListOp
        simp only [hop]
      rw [hfree]
      refine ((perm_cons_erase hmem).flatMap_right _).trans ?_
      rw [flatMap_cons, hcs]
      exact .refl _
    have hmem : svmRangeHandleListOpMem p s id = -charge p (s.heap id).bytes := by
      unfold svmRangeHandleListOpMem
      simp only [hop]
      rw [svmRangeFreeMem_true]
    rw [Svms.bytes_cons hids (svmRangeHandleListOp_bytes s id), hmem, charge_add]
    omega
  · have hids : (svmRangeHandleListOp s id).ids = s.ids := by
      unfold svmRangeHandleListOp
      simp only [hop]
      exact svmRangeUpdateNotifierAndIntervalTree_ids s id
    have hmem : svmRangeHandleListOpMem p s id = 0 := by
      unfold svmRangeHandleListOpMem
      simp only [hop]
    rw [hmem, Int.add_zero, Svms.bytes, Svms.bytes, hids]
    exact congrArg (charge p) (Svms.bytesOf_congr fun y _ => svmRangeHandleListOp_bytes s id y)

theorem handleDeferred_bytes (p : Process) {mm : Mm} (h : Waiting mm m)
    (hdef : mm.deferred = id :: todo) :
    charge p (handleDeferred mm.svms id).bytes =
      charge p mm.svms.bytes + handleDeferredMem p mm.svms id := by
  have hdrain : Draining mm.svms (id :: todo) := hdef ▸ h.draining
  obtain ⟨h', -, hcs⟩ := Draining.handleChildren _ hdrain mem_cons_self rfl h.rep
  unfold handleDeferred handleDeferredMem
  rw [h'.parent_bytes p hcs, hdrain.handleChildren_bytes p _ mem_cons_self rfl h.rep,
    Int.add_assoc]

theorem handleDeferred_nodes {mm : Mm} (h : Waiting mm m) (hdef : mm.deferred = id :: todo)
    (hpos : ∀ z ∈ mm.svms.list, 0 < (mm.svms.heap z).itStart)
    (hcov : ∀ z ∈ mm.svms.list, mm.svms.Covered z) :
    (∀ z ∈ (handleDeferred mm.svms id).list, 0 < ((handleDeferred mm.svms id).heap z).itStart) ∧
      ∀ z ∈ (handleDeferred mm.svms id).list, (handleDeferred mm.svms id).Covered z := by
  have hmem := (h.busy id (hdef ▸ mem_cons_self)).1
  obtain ⟨h', hkeep⟩ := h.round hdef (ne_of_gt (hpos id hmem))
  have hidtodo : id ∉ todo := (nodup_cons.mp (hdef ▸ h.deferred_nodup)).1
  refine ⟨fun z hz => ?_, fun z hz page hlo hhi => ?_⟩
  · by_cases hztodo : z ∈ todo
    · rw [hkeep z hztodo]
      exact hpos z (h.busy z (hdef ▸ mem_cons_of_mem _ hztodo)).1
    · obtain ⟨hprov, hpiece⟩ := handleDeferred_keeps mm.svms id z
      have hstart : ((handleDeferred mm.svms id).heap z).start = (mm.svms.heap z).start :=
        congrArg Piece.lo hpiece
      have hit : _ = ((handleDeferred mm.svms id).heap z).itStart := (h'.idle z hz hztodo).1
      rw [← hit, hstart]
      rcases hprov hz with hzmem | hzfam
      · exact (hpos z hzmem).trans_le (h.within z hzmem).1
      · exact (hpos id hmem).trans_le (h.family hmem hzfam).2.1
  · by_cases hztodo : z ∈ todo
    · have hzmem := (h.busy z (hdef ▸ mem_cons_of_mem _ hztodo)).1
      have hzid : z ≠ id := fun heq => hidtodo (heq ▸ hztodo)
      rw [hkeep z hztodo] at hlo hhi
      obtain ⟨y, hy, hhas⟩ := hcov z hzmem page hlo hhi
      have hyid : y ≠ id := fun heq => Svms.family_disjoint h.nodup hzmem hmem hzid hy
        (heq ▸ mem_cons_self)
      have hychild : y ∉ (mm.svms.heap id).children := fun hc =>
        Svms.family_disjoint h.nodup hzmem hmem hzid hy (mem_cons_of_mem _ hc)
      refine ⟨y, ?_, ?_⟩
      · unfold Svms.family
        rw [hkeep z hztodo]
        exact hy
      · rw [(handleDeferred_other hyid hychild).2.2]
        exact hhas
    · obtain ⟨hstart, hlast, -⟩ := h'.idle z hz hztodo
      refine ⟨z, mem_cons_self, ?_, ?_⟩
      · exact hstart.le.trans hlo
      · exact hhi.trans hlast.ge

end Worker

/-! ## Page faults -/

section Faults
variable {p : Process} {s : Svms} {mm : Mm} {m : Nat → Option Attrs} {f : Fault} {start last : Nat}

theorem svmRangeFromAddr_none {addr : Nat} (hcov : ∀ id ∈ s.tree, s.Covered id)
    (h : svmRangeFromAddr s addr = none) :
    ∀ id ∈ s.tree, ¬((s.heap id).itStart ≤ addr ∧ addr ≤ (s.heap id).itLast) := by
  unfold svmRangeFromAddr at h
  split at h
  · next hnone =>
    intro id hid hin
    have := find?_eq_none.mp hnone id hid
    simp [hin] at this
  · next id hsome =>
    exfalso
    have hin := find?_some hsome
    simp only [decide_eq_true_eq] at hin
    obtain ⟨y, hy, hhas⟩ := hcov id (mem_of_find?_eq_some hsome) addr hin.1 hin.2
    split at h
    · cases h
    · next hnot =>
      rcases mem_cons.mp hy with rfl | hy
      · exact hnot hhas
      · have := find?_eq_none.mp h y hy
        simp [hhas] at this

theorem Pending.registered (h : Pending s m) : s.Registered := by
  have hmem : ∀ id ∈ s.tree, id ∈ s.list := fun id hid => h.perm.mem_iff.mpr hid
  have hle : ∀ id ∈ s.tree, (s.heap id).itStart ≤ (s.heap id).itLast := by
    intro id hid
    have := h.within id (hmem id hid)
    omega
  have hnodup : s.tree.Nodup := h.perm.nodup_iff.mp (Svms.list_nodup_of_ids h.nodup)
  refine ⟨hle, (pairwise_iff_forall_sublist.mpr fun {x y} hsub => ?_)⟩
  have hx : x ∈ s.tree := hsub.subset mem_cons_self
  have hy : y ∈ s.tree := hsub.subset (mem_cons_of_mem _ (mem_singleton_self _))
  have hstart := pairwise_iff_forall_sublist.mp h.sorted hsub
  have hne : x ≠ y := pairwise_iff_forall_sublist.mp hnodup hsub
  have hyle := hle y hy
  rcases h.apart x (hmem x hx) y (hmem y hy) hne with hapart | hapart
  · exact hapart
  · omega

theorem svmRangeGetRangeBoundaries_ok (h : Pending s m) (hnot : s.Unregistered f.addr)
    (hvma : ∀ v ∈ f.vma, 0 < v.1) (hok : svmRangeGetRangeBoundaries s f = .ok (start, last)) :
    0 < start ∧ start ≤ f.addr ∧ f.addr ≤ last ∧
      ∀ id ∈ s.tree, (s.heap id).itLast < start ∨ last < (s.heap id).itStart := by
  have hreg := h.registered
  cases hv : f.vma with
  | none => simp [svmRangeGetRangeBoundaries, hv] at hok
  | some v =>
    obtain ⟨start', last', hok', hlo, hhi, hin, -, -⟩ := getRangeBoundaries_spec hreg hv hnot
    obtain ⟨rfl, rfl⟩ := Prod.mk.inj (Except.ok.inj (hok.symm.trans hok'))
    have hfirst := hin start (le_refl _) (hlo.trans hhi)
    refine ⟨(hvma v hv).trans_le hfirst.vma.1, hlo, hhi, fun id hid => ?_⟩
    by_contra hnone
    have hle := hreg.le id hid
    refine (hin (max start (s.heap id).itStart) (le_max_left _ _) ?_).unregistered id hid
      ⟨le_max_right _ _, ?_⟩
    · omega
    · dsimp only
      omega

theorem unregisteredPages_free (h : Pending s m)
    (hnot : ∀ id ∈ s.tree, ¬((s.heap id).itStart ≤ f.addr ∧ f.addr ≤ (s.heap id).itLast))
    (hvma : ∀ v ∈ f.vma, 0 < v.1) (hpages : unregisteredPages s f = some (start, last)) :
    0 < start ∧ start ≤ last ∧
      ∀ id ∈ s.tree, (s.heap id).itLast < start ∨ last < (s.heap id).itStart := by
  unfold unregisteredPages at hpages
  split at hpages
  · cases hpages
  next start' last' hok =>
  obtain ⟨hpos, hstart, hlast, hfree⟩ := svmRangeGetRangeBoundaries_ok h hnot hvma hok
  split at hpages
  · cases hpages
    exact ⟨hpos, hstart.trans hlast, hfree⟩
  · split at hpages
    · cases hpages
    · cases hpages
      refine ⟨hpos.trans_le hstart, le_refl _, fun id hid => ?_⟩
      have := hnot id hid
      omega

def Svms.insertNew (s : Svms) (r : Range) : Svms :=
  svmRangeAddNotifier (svmRangeAddToSvms (s.push r) s.next) s.next

theorem Svms.insertNew_self (s : Svms) (r : Range) : (s.insertNew r).heap s.next = r.synced := by
  unfold Svms.insertNew
  rw [insert_heap_self, Svms.push_heap_next]

variable {r : Range}

theorem Svms.insertNew_of_lt {y : Nat} (hy : y < s.next) : (s.insertNew r).heap y = s.heap y :=
  (insert_heap_of_ne (ne_of_lt hy)).trans (Svms.push_heap_of_lt hy)

theorem Pending.lt_of_mem (h : Pending s m) {id : Nat} (hid : id ∈ s.list) : id < s.next :=
  h.lt id (Svms.mem_ids_of_mem hid)

theorem Pending.insertNew_ids (h : Pending s m) (hchildren : r.children = []) :
    (s.insertNew r).ids.Perm (s.next :: s.ids) := by
  have hsame : (s.push r).ids = s.ids :=
    flatMap_congr fun y hy => by rw [Svms.push_heap_of_lt (h.lt_of_mem hy)]
  have hfresh : s.next ∉ (s.push r).ids := fun hmem => lt_irrefl _ (h.lt _ (hsame ▸ hmem))
  rw [← hsame]
  exact Svms.ids_insert hfresh (by rw [Svms.push_heap_next]; exact hchildren)

theorem Pending.covers_node (h : Pending s m) {page : Nat} (hpage : m page ≠ none) :
    ∃ id ∈ s.tree, (s.heap id).itStart ≤ page ∧ page ≤ (s.heap id).itLast := by
  obtain ⟨a, ha⟩ := Option.ne_none_iff_exists'.mp hpage
  obtain ⟨q, hq, hcovers, -⟩ := (h.rep.value page a).mp ha
  obtain ⟨y, hy, hq⟩ := mem_flatMap.mp hq
  obtain ⟨id, hid, hfam⟩ := mem_flatMap.mp hy
  obtain ⟨-, hlo, -, hhi⟩ := h.family hid hfam
  unfold Range.livePiece at hq
  split at hq
  · exact absurd hq not_mem_nil
  · cases mem_singleton.mp hq
    exact ⟨id, h.perm.mem_iff.mp hid, hlo.trans hcovers.1, hcovers.2.trans hhi⟩

theorem Waiting.insertNew (h : Waiting mm m) (hchildren : r.children = [])
    (hop : r.workOp ≠ .unmapRange) (hle : r.start ≤ r.last) (hfree : ∀ id ∈ mm.svms.tree,
      (mm.svms.heap id).itLast < r.start ∨ r.last < (mm.svms.heap id).itStart) :
    Waiting { mm with svms := mm.svms.insertNew r } (fill m r.start r.last r.attrs) := by
  have hids := h.insertNew_ids hchildren
  have hself := Svms.insertNew_self mm.svms r
  have hold : ∀ y ∈ mm.svms.ids, (mm.svms.insertNew r).heap y = mm.svms.heap y := fun y hy =>
    Svms.insertNew_of_lt (h.lt y hy)
  have hlist : ∀ y ∈ mm.svms.list, (mm.svms.insertNew r).heap y = mm.svms.heap y := fun y hy =>
    hold y (Svms.mem_ids_of_mem hy)
  have hcases : ∀ y ∈ (mm.svms.insertNew r).list, y ∈ mm.svms.list ∨ y = mm.svms.next := by
    intro y hy
    rcases mem_append.mp hy with hy | hy
    · exact .inl hy
    · exact .inr (mem_singleton.mp hy)
  have htree : (mm.svms.insertNew r).tree =
      treeInsert (mm.svms.insertNew r).heap mm.svms.next mm.svms.tree :=
    insert_tree (mm.svms.push r) mm.svms.next
  have hrep : Represents (r.piece :: mm.svms.pending) (fill m r.start r.last r.attrs) := by
    refine h.rep.cons (p := r.piece) hle fun page hpage => ?_
    by_contra hsome
    obtain ⟨id, hid, hlo, hhi⟩ := h.covers_node hsome
    have hin : r.start ≤ page ∧ page ≤ r.last := hpage
    have := hfree id hid
    omega
  refine ⟨⟨?_, ?_, ?_, ?_, ?_, ?_, ?_, ?_, ?_⟩, h.deferred_nodup, ?_, ?_⟩
  · refine Perm.trans ?_ (htree ▸ (treeInsert_perm _ _ _).symm)
    exact perm_append_comm.trans (h.perm.cons _)
  · refine hids.nodup_iff.mpr (nodup_cons.mpr ⟨fun hmem => ?_, h.nodup⟩)
    exact lt_irrefl _ (h.lt _ hmem)
  · intro y hy
    rcases mem_cons.mp (hids.mem_iff.mp hy) with rfl | hy
    · exact Nat.lt_succ_self _
    · exact (h.lt y hy).trans (Nat.lt_succ_self _)
  · dsimp only
    rw [htree]
    refine treeInsert_sorted _ _ (h.sorted.imp_of_mem fun {x y} hx hy hxy => ?_)
    rw [hlist x (h.perm.mem_iff.mpr hx), hlist y (h.perm.mem_iff.mpr hy)]
    exact hxy
  · intro y hy
    dsimp only
    rcases hcases y hy with hy | rfl
    · rw [hlist y hy]
      exact h.notifier y hy
    · rw [hself]
      exact ⟨rfl, rfl⟩
  · intro y hy
    dsimp only
    rcases hcases y hy with hy | rfl
    · rw [hlist y hy]
      exact h.within y hy
    · rw [hself]
      exact ⟨le_refl _, hle, le_refl _⟩
  · intro y hy c hc
    dsimp only at hc ⊢
    rcases hcases y hy with hy | rfl
    · rw [hlist y hy] at hc ⊢
      rw [hold c (mem_flatMap.mpr ⟨y, hy, mem_cons_of_mem _ hc⟩)]
      exact h.child y hy c hc
    · rw [hself] at hc
      change c ∈ r.children at hc
      rw [hchildren] at hc
      exact absurd hc not_mem_nil
  · intro x hx y hy hne
    dsimp only
    rcases hcases x hx with hx | rfl <;> rcases hcases y hy with hy | rfl
    · rw [hlist x hx, hlist y hy]
      exact h.apart x hx y hy hne
    · rw [hlist x hx, hself]
      exact hfree x (h.perm.mem_iff.mp hx)
    · rw [hlist y hy, hself]
      exact (hfree y (h.perm.mem_iff.mp hy)).symm
    · exact absurd rfl hne
  · refine hrep.perm (List.Perm.symm ?_)
    refine (Svms.pending_perm_cons hids fun y hy => by rw [hold y hy]).trans ?_
    have hlive : ((mm.svms.insertNew r).heap mm.svms.next).livePiece = [r.piece] := by
      rw [hself]
      exact if_neg hop
    rw [hlive]
    exact .refl _
  · intro y hy hidle
    dsimp only
    rcases hcases y hy with hy | rfl
    · rw [hlist y hy]
      exact h.idle y hy hidle
    · rw [hself]
      exact ⟨rfl, rfl, hchildren, hop⟩
  · intro y hy
    obtain ⟨hmem, hbusy⟩ := h.busy y hy
    dsimp only
    rw [hlist y hmem]
    exact ⟨mem_append_left _ hmem, hbusy⟩

theorem Pending.insertNew_bytes (h : Pending s m) (hchildren : r.children = []) :
    (s.insertNew r).bytes = r.bytes + s.bytes := by
  rw [Svms.bytes, Svms.bytesOf_perm _ (h.insertNew_ids hchildren), Svms.bytesOf_cons,
    Svms.insertNew_self]
  refine congrArg₂ (· + ·) rfl (Svms.bytesOf_congr fun y hy => ?_)
  rw [Svms.insertNew_of_lt (h.lt y hy)]

end Faults

/-! ## Switching XNACK -/

/-- What a part of the switch does that walks over ranges of `bytes` bytes. Only a switch to
XNACK off can fail, and then its last line takes back what it has reserved. -/
structure Switched (xnackEnabled : Bool) (bytes : Nat) (x y : Switch) (err : Option Errno) :
    Prop where
  done : err = none → y.reserved = x.reserved + if xnackEnabled then -(bytes : Int) else bytes
  undo : xnackEnabled = false → y.reserved - y.reservedSize = x.reserved - x.reservedSize
  fails : err ≠ none → xnackEnabled = false

section Switching
variable {p : Process} {xnackEnabled : Bool} {grants : Nat → Bool} {s : Svms} {mm : Mm}
  {m : Nat → Option Attrs} {x y z : Switch} {err : Option Errno} {bytes bytes' : Nat}

theorem Switched.nothing (xnackEnabled : Bool) (x : Switch) : Switched xnackEnabled 0 x x none := by
  refine ⟨fun _ => ?_, fun _ => rfl, fun h => absurd rfl h⟩
  cases xnackEnabled <;> exact (Int.add_zero _).symm

theorem Switched.trans (h : Switched xnackEnabled bytes x y none)
    (h' : Switched xnackEnabled bytes' y z err) :
    Switched xnackEnabled (bytes + bytes') x z err := by
  refine ⟨fun herr => ?_, fun hoff => (h'.undo hoff).trans (h.undo hoff), h'.fails⟩
  have h1 := h.done rfl
  have h2 := h'.done herr
  cases xnackEnabled <;> simp only [false_eq_true, if_false, if_true] at h1 h2 ⊢ <;> omega

theorem Switched.stop (h : Switched xnackEnabled bytes x y err) (herr : err ≠ none) (bytes' : Nat) :
    Switched xnackEnabled bytes' x y err :=
  ⟨fun hnone => absurd hnone herr, h.undo, h.fails⟩

theorem switchOne_switched (xnackEnabled : Bool) (grants : Nat → Bool) (r : Range) (x : Switch) :
    Switched xnackEnabled r.bytes x (switchOne xnackEnabled grants r x).1
      (switchOne xnackEnabled grants r x).2 := by
  unfold switchOne
  cases xnackEnabled with
  | true => exact ⟨fun _ => Int.sub_eq_add_neg, nofun, fun h => absurd rfl h⟩
  | false =>
    rw [if_neg (by decide)]
    cases grants x.requests with
    | true =>
      refine ⟨fun _ => rfl, fun _ => ?_, fun h => absurd rfl h⟩
      rw [if_pos rfl]
      dsimp only
      omega
    | false => exact ⟨nofun, fun _ => rfl, fun _ => rfl⟩

theorem switchFamily_switched (xnackEnabled : Bool) (grants : Nat → Bool) (s : Svms)
    (ids : List Nat) : ∀ x : Switch,
    Switched xnackEnabled (s.bytesOf ids) x (switchFamily xnackEnabled grants s ids x).1
      (switchFamily xnackEnabled grants s ids x).2 := by
  induction ids with
  | nil => exact fun x => .nothing xnackEnabled x
  | cons id ids ih =>
    intro x
    have hone := switchOne_switched xnackEnabled grants (s.heap id) x
    unfold switchFamily
    generalize switchOne xnackEnabled grants (s.heap id) x = r at hone
    obtain ⟨y, err⟩ := r
    cases err with
    | some e => exact hone.stop nofun _
    | none => exact hone.trans (ih y)

theorem switchLoop_switched (p : Process) (xnackEnabled : Bool) (grants : Nat → Bool)
    (between : Nat → List Notification) (ids : List Nat) : ∀ {mm : Mm} {m : Nat → Option Attrs}
    (x : Switch), Waiting mm m → (∀ id ∈ ids, id ∈ mm.svms.list) →
    let r := switchLoop p xnackEnabled grants between ids mm x
    KeepsFamilies mm.svms r.1.svms ∧ (∃ m', Waiting r.1 m') ∧
      Switched xnackEnabled (ids.map fun id => mm.svms.bytesOf (mm.svms.family id)).sum
        x r.2.1 r.2.2 := by
  induction ids with
  | nil => exact fun {mm m} x h _ => ⟨.refl _, ⟨m, h⟩, .nothing xnackEnabled x⟩
  | cons id ids ih =>
    intro mm m x h hids
    obtain ⟨hkeep, m1, h1⟩ := foldl_deliver_keeps p (between id) h
    have hid := hids id mem_cons_self
    unfold switchLoop
    generalize (between id).foldl (deliver p) mm = mm1 at hkeep h1
    have hfamily : mm1.svms.bytesOf ((mm1.svms.heap id).children ++ [id]) =
        mm.svms.bytesOf (mm.svms.family id) := by
      rw [← hkeep.bytes id hid]
      exact Svms.bytesOf_perm _ perm_append_comm
    have hone := switchFamily_switched xnackEnabled grants mm1.svms
      ((mm1.svms.heap id).children ++ [id]) x
    rw [hfamily] at hone
    dsimp only
    generalize switchFamily xnackEnabled grants mm1.svms _ x = r at hone
    obtain ⟨y, err⟩ := r
    cases err with
    | some e => exact ⟨hkeep, ⟨m1, h1⟩, hone.stop nofun _⟩
    | none =>
      obtain ⟨hkeep2, hwait, hrest⟩ := ih y h1 fun z hz =>
        hkeep.list ▸ hids z (mem_cons_of_mem _ hz)
      refine ⟨hkeep.trans hkeep2, hwait, ?_⟩
      have hsame : (ids.map fun z => mm1.svms.bytesOf (mm1.svms.family z)) =
          ids.map fun z => mm.svms.bytesOf (mm.svms.family z) :=
        map_congr_left fun z hz => hkeep.bytes z (hids z (mem_cons_of_mem _ hz))
      rw [hsame] at hrest
      exact hone.trans hrest

end Switching

/-! ## Mapping and migrating -/

section Placing
variable {mm : Mm} {m : Nat → Option Attrs}

theorem place_heap (s : Svms) (id : Nat) (w : Placement) (y : Nat) :
    ∃ w', (s.write id ((s.heap id).place w)).heap y = (s.heap y).place w' := by
  by_cases hy : y = id
  · subst hy
    exact ⟨w, Svms.write_heap_self ..⟩
  · let r := s.heap y
    refine ⟨⟨r.actualLoc, r.vramPages, r.dmaAddr, r.svmBo, r.ttmRes, r.offset, r.mappedToGpu,
      r.invalid⟩, ?_⟩
    rw [Svms.write_heap_of_ne hy]
    rfl

theorem Waiting.place (h : Waiting mm m) (id : Nat) (w : Placement) (pte : Nat → Nat → Bool) :
    Waiting { mm with svms := mm.svms.write id ((mm.svms.heap id).place w), pte := pte } m := by
  have hheap := place_heap mm.svms id w
  have hids : (mm.svms.write id ((mm.svms.heap id).place w)).ids = mm.svms.ids :=
    flatMap_congr fun y _ => by
      obtain ⟨w', heq⟩ := hheap y
      rw [heq]
      rfl
  have hpending : (mm.svms.write id ((mm.svms.heap id).place w)).pending = mm.svms.pending := by
    unfold Svms.pending
    rw [hids]
    refine flatMap_congr fun y _ => ?_
    obtain ⟨w', heq⟩ := hheap y
    rw [heq]
    rfl
  refine ⟨⟨h.perm, hids ▸ h.nodup, hids ▸ h.lt, ?_, ?_, ?_, ?_, ?_, hpending ▸ h.rep⟩,
    h.deferred_nodup, ?_, ?_⟩
  · refine h.sorted.imp fun {x y} hxy => ?_
    obtain ⟨w1, hx⟩ := hheap x
    obtain ⟨w2, hy⟩ := hheap y
    rw [hx, hy]
    exact hxy
  · intro y hy
    obtain ⟨w', heq⟩ := hheap y
    rw [heq]
    exact h.notifier y hy
  · intro y hy
    obtain ⟨w', heq⟩ := hheap y
    rw [heq]
    exact h.within y hy
  · intro y hy c hc
    obtain ⟨w1, heq1⟩ := hheap y
    obtain ⟨w2, heq2⟩ := hheap c
    rw [heq1] at hc ⊢
    rw [heq2]
    have hchild := h.child y hy c hc
    exact ⟨hchild.itStart, hchild.itLast, hchild.children, hchild.workOp, hchild.start_le,
      hchild.le, hchild.last_le⟩
  · intro x hx y hy hne
    obtain ⟨w1, heq1⟩ := hheap x
    obtain ⟨w2, heq2⟩ := hheap y
    rw [heq1, heq2]
    exact h.apart x hx y hy hne
  · intro y hy hidle
    obtain ⟨w', heq⟩ := hheap y
    dsimp only
    rw [heq]
    exact h.idle y hy hidle
  · intro y hy
    obtain ⟨w', heq⟩ := hheap y
    dsimp only
    rw [heq]
    exact h.busy y hy

end Placing

/-! ## The invariant -/

/-- No range starts at page 0, every range covers its node with its children, and exactly the
size of all ranges is reserved while XNACK is off. -/
structure Account.Sound (st : Account) : Prop where
  waiting : ∃ m, Waiting st.mm m
  pos : ∀ id ∈ st.mm.svms.list, 0 < (st.mm.svms.heap id).itStart
  covered : ∀ id ∈ st.mm.svms.list, st.mm.svms.Covered id
  reserved : st.reserved = charge st.proc st.mm.svms.bytes

section Sound
variable {st : Account} {mm : Mm}

theorem Account.Sound.keep (h : st.Sound) {p : Process} {reserved : Int}
    (hkeep : KeepsFamilies st.mm.svms mm.svms) (hwait : ∃ m, Waiting mm m)
    (hreserved : reserved = charge p st.mm.svms.bytes) :
    Account.Sound { proc := p, mm := mm, reserved := reserved } := by
  refine ⟨hwait, fun id hid => ?_, fun id hid => ?_, ?_⟩
  · have hid' : id ∈ st.mm.svms.list := hkeep.list ▸ hid
    dsimp only
    rw [(hkeep.node id hid').1]
    exact h.pos id hid'
  · have hid' : id ∈ st.mm.svms.list := hkeep.list ▸ hid
    exact hkeep.covered id hid' (h.covered id hid')
  · rw [hreserved, hkeep.total]

theorem Account.Sound.notify (h : st.Sound) (n : Notification) :
    Account.Sound { st with mm := deliver st.proc st.mm n } := by
  obtain ⟨m, hwait⟩ := h.waiting
  obtain ⟨hkeep, hwait'⟩ := deliver_keeps st.proc hwait n
  exact h.keep hkeep hwait' h.reserved

theorem Account.Sound.place (h : st.Sound) (id : Nat) (w : Placement) (pte : Nat → Nat → Bool) :
    Account.Sound
      { st with
        mm := { st.mm with
          svms := st.mm.svms.write id ((st.mm.svms.heap id).place w)
          pte := pte } } := by
  obtain ⟨m, hwait⟩ := h.waiting
  exact h.keep (.write ⟨rfl, rfl, rfl, rfl, rfl⟩) ⟨m, hwait.place id w pte⟩ h.reserved

theorem Account.Sound.work (h : st.Sound) : (deferredListRound st).Sound := by
  obtain ⟨m, hwait⟩ := h.waiting
  unfold deferredListRound
  cases hdef : st.mm.deferred with
  | nil => exact h
  | cons id todo =>
    have hmem := (hwait.busy id (hdef ▸ mem_cons_self)).1
    obtain ⟨hwait', -⟩ := hwait.round hdef (ne_of_gt (h.pos id hmem))
    obtain ⟨hpos, hcov⟩ := handleDeferred_nodes hwait hdef h.pos h.covered
    refine ⟨⟨m, hwait'⟩, hpos, hcov, ?_⟩
    rw [handleDeferred_bytes st.proc hwait hdef, ← h.reserved]

theorem Account.Sound.insertNew (h : st.Sound) {r : Range} (hchildren : r.children = [])
    (hop : r.workOp ≠ .unmapRange) (hpos : 0 < r.start) (hle : r.start ≤ r.last)
    (hfree : ∀ id ∈ st.mm.svms.tree,
      (st.mm.svms.heap id).itLast < r.start ∨ r.last < (st.mm.svms.heap id).itStart) :
    Account.Sound
      { st with
        mm := { st.mm with svms := st.mm.svms.insertNew r }
        reserved := st.reserved + charge st.proc r.bytes } := by
  obtain ⟨m, hwait⟩ := h.waiting
  have hself := Svms.insertNew_self st.mm.svms r
  have hold : ∀ y ∈ st.mm.svms.ids, (st.mm.svms.insertNew r).heap y = st.mm.svms.heap y :=
    fun y hy => Svms.insertNew_of_lt (hwait.lt y hy)
  refine ⟨⟨_, hwait.insertNew hchildren hop hle hfree⟩, fun id hid => ?_,
    fun id hid page hlo hhi => ?_, ?_⟩
  · rcases mem_append.mp hid with hid | hid
    · dsimp only
      rw [hold id (Svms.mem_ids_of_mem hid)]
      exact h.pos id hid
    · rw [mem_singleton.mp hid, hself]
      exact hpos
  · dsimp only at hlo hhi ⊢
    rcases mem_append.mp hid with hid | hid
    · have hkeep := hold id (Svms.mem_ids_of_mem hid)
      rw [hkeep] at hlo hhi
      obtain ⟨y, hy, hhas⟩ := h.covered id hid page hlo hhi
      refine ⟨y, ?_, ?_⟩
      · unfold Svms.family
        rw [hkeep]
        exact hy
      · rw [hold y (mem_flatMap.mpr ⟨id, hid, hy⟩)]
        exact hhas
    · rw [mem_singleton.mp hid] at hlo hhi ⊢
      rw [hself] at hlo hhi
      refine ⟨_, mem_cons_self, ?_⟩
      rw [hself]
      exact ⟨hlo, hhi⟩
  · dsimp only
    rw [hwait.insertNew_bytes hchildren, charge_add, ← h.reserved, Int.add_comm]

theorem unregisteredRange_spec (p : Process) (f : Fault) (start last : Nat) :
    (unregisteredRange p f start last).start = start ∧
    (unregisteredRange p f start last).last = last ∧
    (unregisteredRange p f start last).children = [] ∧
    (unregisteredRange p f start last).workOp = .null := by
  unfold unregisteredRange
  cases f.isHeapStack <;> exact ⟨rfl, rfl, rfl, rfl⟩

theorem Account.Sound.fault (h : st.Sound) {f : Fault} (hvma : ∀ v ∈ f.vma, 0 < v.1) :
    (svmRangeRestorePages st f).1.Sound ∧
      ((svmRangeRestorePages st f).2 ≠ none →
        (svmRangeRestorePages st f).1.reserved = st.reserved) := by
  obtain ⟨m, hwait⟩ := h.waiting
  unfold svmRangeRestorePages
  split
  · exact ⟨h, fun _ => rfl⟩
  cases hfrom : svmRangeFromAddr st.mm.svms f.addr with
  | some id => exact ⟨h, fun _ => rfl⟩
  | none =>
    dsimp only
    unfold svmRangeCreateUnregisteredRange
    cases hpages : unregisteredPages st.mm.svms f with
    | none => exact ⟨h, fun _ => rfl⟩
    | some pages =>
      obtain ⟨start, last⟩ := pages
      have hnot := svmRangeFromAddr_none
        (fun id hid => h.covered id (hwait.perm.mem_iff.mpr hid)) hfrom
      obtain ⟨hpos, hle, hfree⟩ := unregisteredPages_free hwait.toPending hnot hvma hpages
      obtain ⟨hstart, hlast, hchildren, hop⟩ := unregisteredRange_spec st.proc f start last
      have hbytes : (svmRangeNew st.proc start last).bytes =
          (unregisteredRange st.proc f start last).bytes :=
        Range.bytes_congr hstart.symm hlast.symm
      dsimp only
      rw [svmRangeNewMem_true, svmRangeFreeMem_true, hbytes]
      split
      · exact ⟨h, fun _ => rfl⟩
      · split
        · -- the range is freed again when no GPU is found
          rw [Int.add_neg_cancel_right]
          exact ⟨h, fun _ => rfl⟩
        · refine ⟨?_, fun hne => absurd rfl hne⟩
          refine h.insertNew hchildren (by rw [hop]; decide) (hstart.symm ▸ hpos) ?_ ?_
          · rw [hstart, hlast]
            exact hle
          · rw [hstart, hlast]
            exact hfree

theorem Account.Sound.of_rest {s : Svms} {m : Nat → Option Attrs} (hs : s.Rest m)
    (hdef : mm.deferred = []) (hpos : ∀ id ∈ s.list, 0 < (s.heap id).start) {p : Process}
    {reserved : Int} (hreserved : reserved = charge p s.bytes) :
    Account.Sound { proc := p, mm := { mm with svms := s }, reserved := reserved } := by
  refine ⟨⟨m, ?_⟩, fun id hid => ?_, fun id hid page hlo hhi => ?_, hreserved⟩
  · rw [hdef]
    exact hs.waiting mm.pte
  · dsimp only
    rw [(hs.node id hid).1]
    exact hpos id hid
  · dsimp only at hlo hhi
    rw [(hs.node id hid).1] at hlo
    rw [(hs.node id hid).2] at hhi
    exact ⟨id, mem_cons_self, hlo, hhi⟩

/-- The transaction of the call has been done when it returns. -/
def SetAttrArgs.Committed (st : Account) (c : SetAttrArgs) : Prop :=
  c.start ≠ 0 ∧ c.size ≠ 0 ∧ st.mm.deferred = [] ∧
    ∃ update, (svmRangeSetAttr st.proc c.al c.valid c.attrs c.start c.size st.mm.svms).2 =
      .ok update

theorem Account.Sound.setAttr (h : st.Sound) (c : SetAttrArgs) :
    (kfdIoctlSvm st c).1.Sound ∧
      ((kfdIoctlSvm st c).2 ≠ none → ¬c.Committed st →
        (kfdIoctlSvm st c).1.reserved = st.reserved) := by
  obtain ⟨m, hwait⟩ := h.waiting
  unfold kfdIoctlSvm
  split
  · exact ⟨h, fun _ _ => rfl⟩
  next hargs =>
  obtain ⟨hstart, hsize⟩ := not_or.mp hargs
  split
  · exact ⟨h, fun _ _ => rfl⟩
  · exact ⟨h, fun _ _ => rfl⟩
  next hdef =>
  have hs := hwait.rest hdef
  have hpos : ∀ id ∈ st.mm.svms.list, 0 < (st.mm.svms.heap id).start := by
    intro id hid
    rw [← (hs.node id hid).1]
    exact h.pos id hid
  obtain ⟨⟨m', hs'⟩, hpos', hbytes, hfail⟩ : (∃ m',
      (svmRangeSetAttr st.proc c.al c.valid c.attrs c.start c.size st.mm.svms).1.Rest m') ∧ _ :=
    svmRangeSetAttr_rest c.al c.valid hs hpos (Nat.pos_of_ne_zero hstart)
      (Nat.pos_of_ne_zero hsize)
  rw [← h.reserved] at hbytes
  have hsound := Account.Sound.of_rest hs' hdef hpos' hbytes.symm
  dsimp only
  cases hres : (svmRangeSetAttr st.proc c.al c.valid c.attrs c.start c.size st.mm.svms).2 with
  | error e =>
    refine ⟨hsound, fun _ _ => ?_⟩
    dsimp only
    rw [hfail e hres, Int.add_zero]
  | ok update =>
    exact ⟨hsound, fun _ hnot => absurd ⟨hstart, hsize, hdef, update, hres⟩ hnot⟩

theorem Account.Sound.switchMode (h : st.Sound) {xnackEnabled : Bool}
    (hother : xnackEnabled ≠ st.proc.xnackEnabled) (grants : Nat → Bool)
    (between : Nat → List Notification) :
    (svmRangeSwitchXnackReserveMem st xnackEnabled grants between).1.Sound ∧
      ((svmRangeSwitchXnackReserveMem st xnackEnabled grants between).2 ≠ none →
        (svmRangeSwitchXnackReserveMem st xnackEnabled grants between).1.reserved =
          st.reserved) := by
  obtain ⟨m, hwait⟩ := h.waiting
  obtain ⟨hkeep, hwait', hswitched⟩ := switchLoop_switched st.proc xnackEnabled grants between
    st.mm.svms.list { reserved := st.reserved, reservedSize := 0, requests := 0 } hwait
    fun _ hid => hid
  rw [← Svms.bytes_eq_sum] at hswitched
  unfold svmRangeSwitchXnackReserveMem
  generalize switchLoop st.proc xnackEnabled grants between st.mm.svms.list st.mm _ = r
    at hkeep hwait' hswitched
  obtain ⟨mm, x, err⟩ := r
  cases err with
  | some e =>
    have hundo := hswitched.undo (hswitched.fails nofun)
    have hsame : x.reserved - x.reservedSize = st.reserved := by
      refine hundo.trans ?_
      exact Int.sub_zero _
    refine ⟨h.keep hkeep hwait' ?_, fun _ => hsame⟩
    exact hsame.trans h.reserved
  | none =>
    refine ⟨h.keep hkeep hwait' ?_, fun hne => absurd rfl hne⟩
    have hdone : x.reserved = st.reserved +
        if xnackEnabled then -(st.mm.svms.bytes : Int) else st.mm.svms.bytes := hswitched.done rfl
    have hreserved := h.reserved
    unfold charge at hreserved ⊢
    dsimp only
    cases xnackEnabled with
    | true =>
      have hoff : st.proc.xnackEnabled = false := not_eq_true _ ▸ hother.symm
      simp only [hoff, false_eq_true, if_false, if_true] at hreserved hdone ⊢
      omega
    | false =>
      have hon : st.proc.xnackEnabled = true := not_eq_false _ ▸ hother.symm
      simp only [hon, false_eq_true, if_false, if_true] at hreserved hdone ⊢
      omega

/-- Values above 1 are the same as 1 for the switch, and not for the test that there is nothing
to do. -/
theorem Account.Sound.setXnackMode (h : st.Sound) {value : Int}
    (hvalue : st.proc.xnackEnabled = true → value ≤ 1) (queuesEmpty supported : Bool)
    (grants : Nat → Bool) (between : Nat → List Notification) :
    (kfdIoctlSetXnackMode st value queuesEmpty supported grants between).1.Sound ∧
      ((kfdIoctlSetXnackMode st value queuesEmpty supported grants between).2 ≠ none →
        (kfdIoctlSetXnackMode st value queuesEmpty supported grants between).1.reserved =
          st.reserved) := by
  unfold kfdIoctlSetXnackMode
  have hother : ¬(if st.proc.xnackEnabled then (1 : Int) else 0) = value → 0 ≤ value →
      decide (value ≠ 0) ≠ st.proc.xnackEnabled := by
    intro hdiffers hnonneg heq
    cases hmode : st.proc.xnackEnabled with
    | true =>
      have hne : value ≠ 0 := of_decide_eq_true (heq.trans hmode)
      have hle := hvalue hmode
      rw [if_pos hmode] at hdiffers
      omega
    | false =>
      have hzero : ¬value ≠ 0 := of_decide_eq_false (heq.trans hmode)
      rw [hmode, if_neg (by decide)] at hdiffers
      omega
  generalize (if st.proc.xnackEnabled then (1 : Int) else 0) = current at hother
  split
  next hnonneg =>
    split
    · exact ⟨h, fun _ => rfl⟩
    split
    · exact ⟨h, fun _ => rfl⟩
    next hdiffers =>
    split
    · exact ⟨h, fun _ => rfl⟩
    · exact h.switchMode (hother hdiffers hnonneg) grants between
  · exact ⟨h, fun _ => rfl⟩

end Sound

/-! ## Runs -/

/-- A process without ranges. -/
structure Account.Initial (st : Account) : Prop where
  list : st.mm.svms.list = []
  tree : st.mm.svms.tree = []
  deferred : st.mm.deferred = []
  reserved : st.reserved = 0

theorem Account.Initial.sound {st : Account} (h : st.Initial) : st.Sound := by
  have hids : st.mm.svms.ids = [] := by
    unfold Svms.ids
    rw [h.list]
    rfl
  have hnot : ∀ {P : Nat → Prop}, ∀ id ∈ st.mm.svms.list, P id := fun id hid =>
    absurd (h.list ▸ hid) not_mem_nil
  refine ⟨⟨fun _ => none, ⟨?_, ?_, ?_, ?_, hnot, hnot, hnot, hnot, ?_⟩, ?_, hnot, ?_⟩, hnot, hnot,
    ?_⟩
  · rw [h.list, h.tree]
  · rw [hids]
    exact nodup_nil
  · rw [hids]
    exact fun _ hy => absurd hy not_mem_nil
  · rw [h.tree]
    exact .nil
  · unfold Svms.pending
    rw [hids]
    exact represents_nil
  · rw [h.deferred]
    exact nodup_nil
  · rw [h.deferred]
    exact fun _ hy => absurd hy not_mem_nil
  · rw [h.reserved, Svms.bytes, hids, Svms.bytesOf_nil, charge_zero]

/-- No page fault is in a VMA at page 0, and the requests for XNACK have the values of a
`bool` while it is on. -/
def Op.Ok (st : Account) : Op → Prop
  | .fault f => ∀ v ∈ f.vma, 0 < v.1
  | .setXnackMode value _ _ _ _ => st.proc.xnackEnabled = true → value ≤ 1
  | _ => True

instance (st : Account) : ∀ op : Op, Decidable (op.Ok st)
  | .fault f => inferInstanceAs (Decidable (∀ v ∈ f.vma, 0 < v.1))
  | .setXnackMode value _ _ _ _ =>
    inferInstanceAs (Decidable (st.proc.xnackEnabled = true → value ≤ 1))
  | .setAttr _ => isTrue trivial
  | .notify _ => isTrue trivial
  | .work => isTrue trivial
  | .place _ _ _ => isTrue trivial

def Op.Committed (st : Account) : Op → Prop
  | .setAttr c => c.Committed st
  | _ => False

theorem Account.Sound.step {st : Account} (h : st.Sound) (op : Op) (hok : op.Ok st) :
    (opStep st op).Sound ∧
      ((opResult st op).2 ≠ none → ¬op.Committed st →
        (opStep st op).reserved = st.reserved) := by
  cases op with
  | setAttr c => exact h.setAttr c
  | notify n => exact ⟨h.notify n, fun hne => absurd rfl hne⟩
  | work => exact ⟨h.work, fun hne => absurd rfl hne⟩
  | fault f =>
    obtain ⟨hsound, hfail⟩ := h.fault hok
    exact ⟨hsound, fun hne _ => hfail hne⟩
  | setXnackMode value queuesEmpty supported grants between =>
    obtain ⟨hsound, hfail⟩ := h.setXnackMode hok queuesEmpty supported grants between
    exact ⟨hsound, fun hne _ => hfail hne⟩
  | place id w pte => exact ⟨h.place id w pte, fun hne => absurd rfl hne⟩

/-- After every run, the ranges with their children are exactly what is reserved while XNACK
is off, and nothing is reserved while it is on. An operation that fails leaves the reservation
as it was, unless it has done its transaction. -/
theorem svm_accounting {st : Account} (h : st.Initial) {ops : List Op}
    (hok : StepsOk opStep Op.Ok st ops) :
    ((run opStep st ops).reserved =
      if (run opStep st ops).proc.xnackEnabled then 0
      else ((run opStep st ops).mm.svms.bytes : Int)) ∧
    ∀ op : Op, op.Ok (run opStep st ops) → (opResult (run opStep st ops) op).2 ≠ none →
      ¬op.Committed (run opStep st ops) →
      (opStep (run opStep st ops) op).reserved = (run opStep st ops).reserved := by
  have hsound : (run opStep st ops).Sound :=
    run_inv_of_stepsOk (fun st op hst hop => (hst.step op hop).1) h.sound hok
  exact ⟨hsound.reserved, fun op hop => (hsound.step op hop).2⟩

section Example

def exAccount (xnackEnabled : Bool) : Account :=
  { proc := { exProcess with xnackEnabled := xnackEnabled }
    mm :=
      { svms := { heap := fun _ => svmRangeNew exProcess 0 0, next := 0, list := [], tree := [] }
        deferred := []
        pte := fun _ _ => false }
    reserved := 0 }

def exSetAttr (start size : Nat) (finish : Option Errno) : Op :=
  .setAttr
    { start := start
      size := size
      attrs := []
      al := { new := fun _ => true, dma := fun _ => true }
      valid := none
      finish := finish }

def exNotify (start last : Nat) (le : start ≤ last) : Op :=
  .notify { munmap := { start := start, last := last, le := le, ok := fun _ _ => true }, id := 0 }

def exFault (addr vmStart vmEnd : Nat) (h : vmStart ≤ addr ∧ addr < vmEnd) : Op :=
  .fault
    { addr := addr
      xnackSeen := true
      vma := some (vmStart, vmEnd)
      vma_has := by
        rintro v ⟨⟩
        exact h
      isHeapStack := false
      bo := none
      newOk := true
      gpuOk := true }

def exSetXnackMode (value : Int) (grants : Nat → Bool) : Op :=
  .setXnackMode value true true grants fun _ => []

theorem exNotify_le : 8 ≤ 9 := by decide

/-- Twelve pages of which two are unmapped, twenty more from a page fault with XNACK on, and the
switch back, which fails in the middle at first. -/
def exAccountRun : List Op :=
  [exSetAttr 4 12 none, exNotify 8 9 exNotify_le, exSetXnackMode 1 fun _ => true, .work,
    exFault 30 20 40 (by decide), exSetXnackMode 0 (· < 2), exSetXnackMode 0 fun _ => true]

theorem exAccount_initial (xnackEnabled : Bool) : (exAccount xnackEnabled).Initial :=
  ⟨rfl, rfl, rfl, rfl⟩

theorem svm_accounting_exAccountRun : StepsOk opStep Op.Ok (exAccount false) exAccountRun ∧
    (run opStep (exAccount false) exAccountRun).reserved = 30 * 4096 := by
  have hok : StepsOk opStep Op.Ok (exAccount false) exAccountRun := by decide
  refine ⟨hok, (svm_accounting (exAccount_initial false) hok).1.trans ?_⟩
  decide

def exTwice : List Op :=
  [exSetAttr 4 12 none, exSetXnackMode 2 fun _ => true]

def exPageZero : List Op :=
  [exFault 0 0 16 (by decide), exNotify 0 15 (by decide), .work, exSetXnackMode 0 fun _ => true,
    exSetAttr 1 15 none]

/-- A call that fails after its transaction keeps what it has reserved. The value 2 gives
everything back a second time, and the pages of a range at page 0 that has been freed come back
without a reservation. -/
theorem svm_accounting_exceptions :
    ((opResult (exAccount false) (exSetAttr 4 12 (some .enomem))).2 = some .enomem ∧
      (exAccount false).reserved = 0 ∧
      (opStep (exAccount false) (exSetAttr 4 12 (some .enomem))).reserved = 12 * 4096) ∧
    ((run opStep (exAccount true) exTwice).proc.xnackEnabled = true ∧
      (run opStep (exAccount true) exTwice).reserved = -(12 * 4096)) ∧
    (run opStep (exAccount true) exPageZero).proc.xnackEnabled = false ∧
      (run opStep (exAccount true) exPageZero).reserved = 0 ∧
      (run opStep (exAccount true) exPageZero).mm.svms.bytes = 16 * 4096 := by
  decide

end Example

end Amdkfd.Svm
