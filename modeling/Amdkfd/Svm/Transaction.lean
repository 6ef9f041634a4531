import Amdkfd.Svm.AddRange

/-!
# The transaction of `svm_range_set_attr`

When `svm_range_add` has prepared its lists, `svm_range_set_attr` inserts the new
ranges, applies the attributes and removes the ranges that were replaced.
-/

namespace Amdkfd.Svm

open Lib List

variable {s : Svms} {id : Nat}

/-! ## Inserting -/

theorem treeInsert_perm (heap : Nat → Range) (id : Nat) (tree : List Nat) :
    (treeInsert heap id tree).Perm (id :: tree) := by
  induction tree with
  | nil => exact .refl _
  | cons x xs ih =>
    unfold treeInsert
    split
    · exact (ih.cons x).trans (.swap id x xs)
    · exact .refl _

theorem treeInsert_sorted (heap : Nat → Range) (id : Nat) {tree : List Nat}
    (h : tree.Pairwise fun x y => (heap x).itStart ≤ (heap y).itStart) :
    (treeInsert heap id tree).Pairwise fun x y => (heap x).itStart ≤ (heap y).itStart := by
  induction tree with
  | nil => exact pairwise_singleton _ _
  | cons x xs ih =>
    obtain ⟨hx, hxs⟩ := pairwise_cons.mp h
    unfold treeInsert
    split
    · next hle =>
      refine pairwise_cons.mpr ⟨fun y hy => ?_, ih hxs⟩
      rcases mem_cons.mp ((treeInsert_perm heap id xs).mem_iff.mp hy) with rfl | hy
      · exact hle
      · exact hx y hy
    · next hlt =>
      refine pairwise_cons.mpr ⟨fun y hy => ?_, h⟩
      rcases mem_cons.mp hy with rfl | hy
      · exact Nat.le_of_not_le hlt
      · exact (Nat.le_of_not_le hlt).trans (hx y hy)

theorem Svms.Linked.congr {s' : Svms} (h : s.Linked) (hlist : s'.list = s.list)
    (htree : s'.tree = s.tree) (hnext : s.next ≤ s'.next)
    (hbounds : ∀ x ∈ s.list, (s'.heap x).start = (s.heap x).start ∧
      (s'.heap x).last = (s.heap x).last ∧ (s'.heap x).itStart = (s.heap x).itStart ∧
      (s'.heap x).itLast = (s.heap x).itLast) : s'.Linked := by
  constructor
  · rw [hlist, htree]
    exact h.perm
  · rw [hlist]
    exact h.nodup
  · rw [hlist]
    exact fun x hx => (h.fresh x hx).trans_le hnext
  · rw [hlist]
    intro x hx
    obtain ⟨h1, h2, h3, h4⟩ := hbounds x hx
    rw [h1, h2, h3, h4]
    exact h.node x hx
  · rw [htree]
    refine h.sorted.imp_of_mem fun {x y} hx hy hxy => ?_
    rw [(hbounds x (h.perm.mem_iff.mpr hx)).2.2.1, (hbounds y (h.perm.mem_iff.mpr hy)).2.2.1]
    exact hxy

theorem svmRangeAddToSvms_heap_of_ne {x : Nat} (h : x ≠ id) :
    (svmRangeAddToSvms s id).heap x = s.heap x :=
  Svms.write_heap_of_ne h

theorem svmRangeAddToSvms_heap_self :
    (svmRangeAddToSvms s id).heap id =
      { s.heap id with itStart := (s.heap id).start, itLast := (s.heap id).last } :=
  Svms.write_heap_self ..

theorem svmRangeAddToSvms_piece (x : Nat) :
    ((svmRangeAddToSvms s id).heap x).piece = (s.heap x).piece := by
  by_cases hx : x = id
  · rw [hx, svmRangeAddToSvms_heap_self]
    rfl
  · rw [svmRangeAddToSvms_heap_of_ne hx]

theorem Svms.Linked.addToSvms (h : s.Linked) (hid : id ∉ s.list) (hlt : id < s.next) :
    (svmRangeAddToSvms s id).Linked := by
  have hother : ∀ x ∈ s.list, (svmRangeAddToSvms s id).heap x = s.heap x := by
    intro x hx
    refine svmRangeAddToSvms_heap_of_ne fun heq => hid ?_
    rw [← heq]
    exact hx
  constructor
  · refine perm_append_comm.trans ?_
    exact (h.perm.cons id).trans (treeInsert_perm _ id s.tree).symm
  · refine nodup_append.mpr ⟨h.nodup, nodup_singleton id, fun x hx y hy heq => hid ?_⟩
    rw [← mem_singleton.mp hy, ← heq]
    exact hx
  · intro x hx
    rcases mem_append.mp hx with hx | hx
    · exact h.fresh x hx
    · rw [mem_singleton.mp hx]
      exact hlt
  · intro x hx
    rcases mem_append.mp hx with hx | hx
    · rw [hother x hx]
      exact h.node x hx
    · rw [mem_singleton.mp hx, svmRangeAddToSvms_heap_self]
      exact ⟨rfl, rfl⟩
  · refine treeInsert_sorted _ id (h.sorted.imp_of_mem fun {x y} hx hy hxy => ?_)
    have hx' := hother x (h.perm.mem_iff.mpr hx)
    have hy' := hother y (h.perm.mem_iff.mpr hy)
    change ((svmRangeAddToSvms s id).heap x).itStart ≤ ((svmRangeAddToSvms s id).heap y).itStart
    rw [hx', hy']
    exact hxy

theorem svmRangeAddNotifier_piece (x : Nat) :
    ((svmRangeAddNotifier s id).heap x).piece = (s.heap x).piece := by
  by_cases hx : x = id
  · subst hx
    unfold svmRangeAddNotifier
    rw [Svms.write_heap_self]
    rfl
  · exact congrArg Range.piece (Svms.write_heap_of_ne hx)

theorem Svms.Linked.addNotifier (h : s.Linked) (id : Nat) : (svmRangeAddNotifier s id).Linked := by
  refine h.congr rfl rfl (Nat.le_refl _) fun x _ => ?_
  by_cases hx : x = id
  · subst hx
    unfold svmRangeAddNotifier
    rw [Svms.write_heap_self]
    exact ⟨rfl, rfl, rfl, rfl⟩
  · have hheap : (svmRangeAddNotifier s id).heap x = s.heap x := Svms.write_heap_of_ne hx
    rw [hheap]
    exact ⟨rfl, rfl, rfl, rfl⟩

variable (ids : List Nat)

theorem Svms.Linked.insertAll : ∀ {s : Svms}, s.Linked → ids.Nodup →
    (∀ id ∈ ids, id ∉ s.list ∧ id < s.next) →
    let s' := ids.foldl (fun s id => svmRangeAddNotifier (svmRangeAddToSvms s id) id) s
    s'.Linked ∧ s'.list = s.list ++ ids ∧ s'.next = s.next ∧
      ∀ x, (s'.heap x).piece = (s.heap x).piece := by
  induction ids with
  | nil => exact fun h _ _ => ⟨h, (append_nil _).symm, rfl, fun _ => rfl⟩
  | cons id ids ih =>
    intro s h hnodup hids
    obtain ⟨hid, hnodup⟩ := nodup_cons.mp hnodup
    obtain ⟨hnew, hlt⟩ := hids id mem_cons_self
    have hstep := (h.addToSvms hnew hlt).addNotifier id
    obtain ⟨hlinked, hlist, hnext, hpiece⟩ := ih hstep hnodup fun x hx => by
      obtain ⟨hx', hxlt⟩ := hids x (mem_cons_of_mem _ hx)
      refine ⟨fun hmem => ?_, hxlt⟩
      rcases mem_append.mp hmem with hmem | hmem
      · exact hx' hmem
      · exact hid (mem_singleton.mp hmem ▸ hx)
    refine ⟨hlinked, ?_, hnext, fun x => ?_⟩
    · refine hlist.trans ?_
      change (s.list ++ [id]) ++ ids = s.list ++ id :: ids
      rw [append_assoc]
      rfl
    · exact (hpiece x).trans ((svmRangeAddNotifier_piece x).trans (svmRangeAddToSvms_piece x))

/-! ## Applying -/

theorem Svms.Linked.applyAttrs (h : s.Linked) (p : Process) (attrs : List Attribute) (id : Nat) :
    (svmRangeApplyAttrs p attrs s id).Linked := by
  refine h.congr rfl rfl (Nat.le_refl _) fun x _ => ?_
  by_cases hx : x = id
  · subst hx
    unfold svmRangeApplyAttrs
    rw [Svms.write_heap_self]
    exact ⟨rfl, rfl, rfl, rfl⟩
  · have hheap : (svmRangeApplyAttrs p attrs s id).heap x = s.heap x := Svms.write_heap_of_ne hx
    rw [hheap]
    exact ⟨rfl, rfl, rfl, rfl⟩

theorem Svms.Linked.applyAll (p : Process) (attrs : List Attribute) (ids : List Nat) :
    ∀ {s : Svms}, s.Linked → ids.Nodup →
    let s' := ids.foldl (svmRangeApplyAttrs p attrs) s
    s'.Linked ∧ s'.list = s.list ∧ s'.next = s.next ∧ ∀ x, s'.heap x =
      if x ∈ ids then { s.heap x with attrs := Svm.applyAttrs p attrs (s.heap x).attrs }
      else s.heap x := by
  induction ids with
  | nil => exact fun h _ => ⟨h, rfl, rfl, fun x => (if_neg not_mem_nil).symm⟩
  | cons id ids ih =>
    intro s h hnodup
    obtain ⟨hid, hnodup⟩ := nodup_cons.mp hnodup
    obtain ⟨hlinked, hlist, hnext, hheap⟩ := ih (h.applyAttrs p attrs id) hnodup
    refine ⟨hlinked, hlist, hnext, fun x => (hheap x).trans ?_⟩
    by_cases hx : x = id
    · subst hx
      rw [if_neg hid, if_pos mem_cons_self]
      exact Svms.write_heap_self ..
    · have hsame : (svmRangeApplyAttrs p attrs s id).heap x = s.heap x := Svms.write_heap_of_ne hx
      rw [hsame]
      simp only [mem_cons, hx, false_or]

/-! ## Removing -/

/-- The test of `svm_range_unlink` for a node in the tree. -/
def Range.InTree (r : Range) : Prop :=
  r.itStart ≠ 0 ∧ r.itLast ≠ 0
  deriving Decidable

theorem foldl_svmRangeUnlink_heap (s : Svms) :
    (ids.foldl svmRangeUnlink s).heap = s.heap ∧ (ids.foldl svmRangeUnlink s).next = s.next := by
  induction ids generalizing s with
  | nil => exact ⟨rfl, rfl⟩
  | cons id ids ih => exact ih (svmRangeUnlink s id)

theorem foldl_svmRangeUnlink_list {s : Svms} (h : s.list.Nodup) :
    (ids.foldl svmRangeUnlink s).list = s.list.filter (· ∉ ids) := by
  induction ids generalizing s with
  | nil => simp
  | cons id ids ih =>
    have hstep : (svmRangeUnlink s id).list = s.list.filter (· != id) := h.erase_eq_filter id
    rw [foldl_cons, ih (hstep ▸ h.filter _), hstep, filter_filter]
    refine filter_congr fun x _ => ?_
    by_cases hx : x = id
    · simp [hx]
    · simp [hx]

theorem foldl_svmRangeUnlink_tree {s : Svms} (h : s.tree.Nodup) :
    (ids.foldl svmRangeUnlink s).tree = s.tree.filter fun x => x ∉ ids ∨ ¬(s.heap x).InTree := by
  induction ids generalizing s with
  | nil => simp
  | cons id ids ih =>
    have hstep : (svmRangeUnlink s id).tree =
        s.tree.filter fun x => x ≠ id ∨ ¬(s.heap x).InTree := by
      unfold svmRangeUnlink
      dsimp only
      split
      · next hin =>
        rw [h.erase_eq_filter]
        refine filter_congr fun x _ => ?_
        by_cases hx : x = id
        · subst hx
          simp [Range.InTree, hin]
        · simp [hx]
      · next hout =>
        refine (filter_eq_self.mpr fun x _ => ?_).symm
        by_cases hx : x = id
        · subst hx
          exact decide_eq_true (.inr hout)
        · exact decide_eq_true (.inl hx)
    rw [foldl_cons, ih (hstep ▸ h.filter _), hstep, filter_filter]
    refine filter_congr fun x _ => ?_
    change (decide (x ∉ ids ∨ ¬(s.heap x).InTree) && decide (x ≠ id ∨ ¬(s.heap x).InTree)) = _
    by_cases hx : x = id
    · subst hx
      by_cases hin : (s.heap x).InTree
      · simp [hin]
      · simp [hin]
    · simp [hx]

theorem Svms.Linked.unlinkAll (h : s.Linked) (ids : List Nat)
    (hin : ∀ id ∈ ids, id ∈ s.list → (s.heap id).start ≠ 0 ∧ (s.heap id).last ≠ 0) :
    (ids.foldl svmRangeUnlink s).Linked := by
  obtain ⟨hheap, hnext⟩ := foldl_svmRangeUnlink_heap ids s
  have hlist := foldl_svmRangeUnlink_list ids h.nodup
  have htree : (ids.foldl svmRangeUnlink s).tree = s.tree.filter (· ∉ ids) := by
    rw [foldl_svmRangeUnlink_tree ids (h.perm.nodup_iff.mp h.nodup)]
    refine filter_congr fun x hx => ?_
    have hmem := h.perm.mem_iff.mpr hx
    have hnode := h.node x hmem
    by_cases hid : x ∈ ids
    · have hpass : (s.heap x).InTree := by
        rw [Range.InTree, hnode.1, hnode.2]
        exact hin x hid hmem
      simp [hid, hpass]
    · simp [hid]
  constructor
  · rw [hlist, htree]
    exact h.perm.filter _
  · rw [hlist]
    exact h.nodup.filter _
  · rw [hlist, hnext]
    exact fun x hx => h.fresh x (mem_of_mem_filter hx)
  · rw [hlist, hheap]
    exact fun x hx => h.node x (mem_of_mem_filter hx)
  · rw [htree, hheap]
    exact h.sorted.filter _

/-! ## The whole call -/

section SetAttr
variable {p : Process} {al : Alloc} {attrs : List Attribute} {m : Nat → Option Attrs}
  {start size : Nat}

def commit (p : Process) (attrs : List Attribute) (a : AddState) : Svms :=
  let s := a.insert.foldl (fun s id => svmRangeAddNotifier (svmRangeAddToSvms s id) id) a.svms
  let s := a.update.foldl (svmRangeApplyAttrs p attrs) s
  a.remove.foldl svmRangeUnlink s

/-- The ranges are the same, and none of them has changed. -/
structure Svms.Unchanged (s s' : Svms) : Prop where
  list : s'.list = s.list
  tree : s'.tree = s.tree
  heap : ∀ id ∈ s.list, s'.heap id = s.heap id

/-- What a call of `svm_range_set_attr` promises, from ranges that stand for the
map `m`: with no error they stand for the map updated on the interval, and with an
error nothing has changed. -/
def Transacts (p : Process) (attrs : List Attribute) (start size : Nat) (s : Svms)
    (m : Nat → Option Attrs) (r : Svms × Except Errno SetAttrWork) : Prop :=
  match r.2 with
  | .ok _ => r.1.Ok (modifyOn (applyAttrs p attrs) (defaultAttrs p) m start (start + size))
  | .error _ => s.Unchanged r.1

variable {a : AddState}

theorem AddState.Fine.unchanged (h : a.Fine s) (hs : s.Linked) : s.Unchanged a.svms :=
  ⟨h.list, h.tree, fun id hid => h.heap id (hs.fresh id hid)⟩

theorem commit_before (hs : s.Linked) (h : a.Fine s) (hnews : a.news = []) :
    ∃ s' : Svms, commit p attrs a = a.remove.foldl svmRangeUnlink s' ∧ s'.Linked ∧
      s'.list = s.list ++ a.insert ∧ ∀ x, (s'.heap x).piece = a.piece p attrs x := by
  have hids : a.ids s = a.insert ++ s.list := by simp [AddState.ids, hnews]
  have hnodup := h.nodup
  rw [hids] at hnodup
  obtain ⟨hinsert, -, hdisj⟩ := nodup_append.mp hnodup
  have hlinked : a.svms.Linked := by
    refine hs.congr h.list h.tree h.next_le fun x hx => ?_
    rw [h.heap x (hs.fresh x hx)]
    exact ⟨rfl, rfl, rfl, rfl⟩
  obtain ⟨h1, hlist1, -, hpiece1⟩ := hlinked.insertAll a.insert hinsert fun x hx => by
    refine ⟨fun hmem => hdisj x hx x (h.list ▸ hmem) rfl, h.lt x ?_⟩
    rw [hids]
    exact mem_append_left _ hx
  obtain ⟨h2, hlist2, -, hheap2⟩ := h1.applyAll p attrs a.update h.update_nodup
  refine ⟨_, rfl, h2, ?_, fun x => ?_⟩
  · rw [hlist2, hlist1, h.list]
  · rw [hheap2, AddState.piece]
    split
    · exact congrArg (fun q : Piece Attrs => { q with val := applyAttrs p attrs q.val })
        (hpiece1 x)
    · exact hpiece1 x

theorem commit_linked_iff (hs : s.Ok m) (h : a.Fine s) (hnews : a.news = []) :
    (commit p attrs a).Linked ↔ ∀ id ∈ a.remove, (s.heap id).start ≠ 0 := by
  obtain ⟨s', hcommit, hlinked, hlist, hpiece⟩ := commit_before (p := p) hs.toLinked h hnews
  have hbounds : ∀ id ∈ a.remove, id ∈ s'.list ∧ (s'.heap id).start = (s.heap id).start ∧
      (s'.heap id).start ≤ (s'.heap id).last := by
    intro id hid
    have hmem := h.remove_sub id hid
    have hunmarked : id ∉ a.update := fun hup => (h.update_sub id hup).2 hid
    have hsame : (s'.heap id).piece = (s.heap id).piece := by
      rw [hpiece, AddState.piece, if_neg hunmarked, h.heap id (hs.fresh id hmem)]
    have hle : (s.heap id).piece.lo ≤ (s.heap id).piece.hi :=
      hs.represents.nonempty _ (mem_map_of_mem hmem)
    refine ⟨hlist ▸ mem_append_left _ hmem, congrArg Piece.lo hsame, ?_⟩
    rw [← hsame] at hle
    exact hle
  rw [hcommit]
  constructor
  · intro hend id hid hzero
    obtain ⟨hmem, hstart, -⟩ := hbounds id hid
    -- The range has left the list, but not the tree.
    have htree : id ∈ (a.remove.foldl svmRangeUnlink s').tree := by
      rw [foldl_svmRangeUnlink_tree _ (hlinked.perm.nodup_iff.mp hlinked.nodup), mem_filter]
      refine ⟨hlinked.perm.mem_iff.mp hmem, decide_eq_true (.inr fun hin => hin.1 ?_)⟩
      rw [(hlinked.node id hmem).1, hstart, hzero]
    have hgone : id ∉ (a.remove.foldl svmRangeUnlink s').list := by
      rw [foldl_svmRangeUnlink_list _ hlinked.nodup, mem_filter]
      rintro ⟨-, hnot⟩
      exact of_decide_eq_true hnot hid
    exact hgone (hend.perm.mem_iff.mpr htree)
  · intro hpos
    refine hlinked.unlinkAll a.remove fun id hid _ => ?_
    obtain ⟨-, hstart, hle⟩ := hbounds id hid
    have := hpos id hid
    omega

theorem commit_represents (hs : s.Linked) (h : a.Fine s) (hnews : a.news = [])
    (hrep : Represents (a.pieces p attrs s) m) :
    Represents ((commit p attrs a).list.map fun id => ((commit p attrs a).heap id).piece) m := by
  obtain ⟨s', hcommit, hlinked, hlist, hpiece⟩ := commit_before (p := p) hs h hnews
  rw [hcommit, foldl_svmRangeUnlink_list _ hlinked.nodup, (foldl_svmRangeUnlink_heap _ _).1, hlist]
  simp only [hpiece]
  refine hrep.perm ?_
  unfold AddState.pieces AddState.ids
  rw [hnews, nil_append]
  exact (perm_append_comm.filter _).map _

theorem svmRangeSetAttr_eq (hcheck : svmRangeCheckAttr p attrs = none)
    (hadd : (svmRangeAdd p al attrs start (start + size - 1) s).2 = none) :
    ∃ work, svmRangeSetAttr p al none attrs start size s =
      (commit p attrs (svmRangeAdd p al attrs start (start + size - 1) s).1, .ok work) := by
  unfold svmRangeSetAttr
  simp only [hcheck, hadd]
  exact ⟨_, rfl⟩

theorem svmRangeSetAttr_transacts (hs : s.Ok m) (hsize : 0 < size)
    (hcheck : svmRangeCheckAttr p attrs = none)
    (hpage : ∀ id ∈ s.list, (s.heap id).start = 0 →
      ¬Replaces p attrs start (start + size - 1) (s.heap id)) (al : Alloc)
    (valid : Option Errno) :
    Transacts p attrs start size s m (svmRangeSetAttr p al valid attrs start size s) := by
  have hle : start ≤ start + size - 1 := by omega
  have hlast : start + size - 1 + 1 = start + size := by omega
  cases valid with
  | some e =>
    unfold svmRangeSetAttr
    simp only [hcheck]
    exact ⟨rfl, rfl, fun _ _ => rfl⟩
  | none =>
    obtain ⟨hfine, -, hdone⟩ : AddState.Fine (svmRangeAdd p al attrs start _ s).1 s ∧ _ :=
      svmRangeAdd_spec hs hle
    cases hadd : (svmRangeAdd p al attrs start (start + size - 1) s).2 with
    | some e =>
      unfold svmRangeSetAttr
      simp only [hcheck, hadd]
      exact hfine.unchanged hs.toLinked
    | none =>
      obtain ⟨hnews, hremove, hrep⟩ := hdone hadd
      obtain ⟨work, heq⟩ := svmRangeSetAttr_eq hcheck hadd
      rw [hlast] at hrep
      rw [heq]
      refine ⟨(commit_linked_iff hs hfine hnews).mpr fun id hid hzero => ?_,
        commit_represents hs.toLinked hfine hnews hrep⟩
      obtain ⟨hmem, hrepl⟩ := (hremove id).mp hid
      exact hpage id hmem hzero hrepl

/-- Every call of `svm_range_set_attr` with attributes that `svm_range_check_attr`
accepts updates the map on the interval or changes nothing, whatever allocations
fail, exactly when no range that starts at page 0 is to be replaced. -/
theorem setAttr_transaction_iff (hs : s.Ok m) (hsize : 0 < size)
    (hcheck : svmRangeCheckAttr p attrs = none) :
    (∀ al valid, Transacts p attrs start size s m (svmRangeSetAttr p al valid attrs start size s)) ↔
      ∀ id ∈ s.list, (s.heap id).start = 0 →
        ¬Replaces p attrs start (start + size - 1) (s.heap id) := by
  have hle : start ≤ start + size - 1 := by omega
  refine ⟨fun hall id hid hzero hrepl => ?_, svmRangeSetAttr_transacts hs hsize hcheck⟩
  let al : Alloc := ⟨fun _ => true, fun _ => true⟩
  obtain ⟨hfine, htotal, hdone⟩ : AddState.Fine (svmRangeAdd p al attrs start _ s).1 s ∧ _ :=
    svmRangeAdd_spec hs hle
  have hnone := htotal fun _ => ⟨rfl, rfl⟩
  obtain ⟨hnews, hremove, -⟩ := hdone hnone
  obtain ⟨work, heq⟩ := svmRangeSetAttr_eq hcheck hnone
  have hok := hall al none
  rw [heq] at hok
  have hlinked : (commit p attrs (svmRangeAdd p al attrs start _ s).1).Linked := hok.toLinked
  exact (commit_linked_iff hs hfine hnews).mp hlinked id ((hremove id).mpr ⟨hid, hrepl⟩) hzero

/-- A process with one GPU. Its unregistered ranges come from page faults, with
XNACK. -/
def exProcess : Process :=
  { xnackEnabled := true
    gpuIds := [1]
    bitmapSupported := {0}
    maxSvmRangePages := 512
    maxSvmRangePages_pos := maxSvmRangePages_512 }

def exSvms (lo hi : Nat) : Svms :=
  svmRangeAddNotifier (svmRangeAddToSvms
    { heap := fun _ => svmRangeNew exProcess lo hi, next := 1, list := [], tree := [] } 0) 0

def exMap (lo hi : Nat) : Nat → Option Attrs :=
  fill (fun _ => none) lo hi (defaultAttrs exProcess)

def exAttrs : List Attribute :=
  [{ type := .granularity, value := 5 }]

theorem exSvms_ok {lo hi : Nat} (h : lo ≤ hi) : (exSvms lo hi).Ok (exMap lo hi) := by
  have hempty : Svms.Linked
      { heap := fun _ => svmRangeNew exProcess lo hi, next := 1, list := [], tree := [] } := by
    refine ⟨.nil, .nil, ?_, ?_, .nil⟩ <;> simp
  have hinserted : Svms.Linked (svmRangeAddToSvms
      { heap := fun _ => svmRangeNew exProcess lo hi, next := 1, list := [], tree := [] } 0) :=
    hempty.addToSvms not_mem_nil (by simp)
  refine ⟨hinserted.addNotifier 0, ?_⟩
  exact represents_nil.cons (p := (svmRangeNew exProcess lo hi).piece) h fun _ _ => rfl

/-- Pages 8 to 11 of a range from 4 to 15 are updated. -/
theorem setAttr_transaction_exSvms : Transacts exProcess exAttrs 8 4 (exSvms 4 15) (exMap 4 15)
    (svmRangeSetAttr exProcess ⟨fun _ => true, fun _ => true⟩ none exAttrs 8 4 (exSvms 4 15)) :=
  (setAttr_transaction_iff (exSvms_ok (by decide)) (by decide) (by decide)).mpr (by decide) _ _

/-- Pages 8 to 11 of a range from 0 to 15: the range that was replaced stays in the
tree. -/
theorem setAttr_page_zero_stays : (exSvms 0 15).Ok (exMap 0 15) ∧
    svmRangeCheckAttr exProcess exAttrs = none ∧
    ¬Transacts exProcess exAttrs 8 4 (exSvms 0 15) (exMap 0 15)
      (svmRangeSetAttr exProcess ⟨fun _ => true, fun _ => true⟩ none exAttrs 8 4
        (exSvms 0 15)) := by
  refine ⟨exSvms_ok (by decide), by decide, fun h => ?_⟩
  have htree : 0 ∈ (svmRangeSetAttr exProcess ⟨fun _ => true, fun _ => true⟩ none exAttrs 8 4
      (exSvms 0 15)).1.tree := by decide
  have hlist : 0 ∉ (svmRangeSetAttr exProcess ⟨fun _ => true, fun _ => true⟩ none exAttrs 8 4
      (exSvms 0 15)).1.list := by decide
  have hok : Svms.Ok (svmRangeSetAttr exProcess ⟨fun _ => true, fun _ => true⟩ none exAttrs 8 4
      (exSvms 0 15)).1 _ := h
  exact hlist (hok.perm.mem_iff.mpr htree)

end SetAttr

end Amdkfd.Svm
