import Amdkfd.Svm.Reservation

/-!
# What setting attributes reserves

`svm_range_add` reserves memory for the ranges in the holes of the interval only. The clones
and what is split off from them have together the pages of the ranges that they replace.
-/

namespace Amdkfd.Svm

open Lib List

/-! ## Sizes -/

def Svms.bytesOf (s : Svms) (ids : List Nat) : Nat :=
  (ids.map fun id => (s.heap id).bytes).sum

def Svms.bytes (s : Svms) : Nat :=
  s.bytesOf s.ids

def charge (p : Process) (bytes : Nat) : Int :=
  if p.xnackEnabled then 0 else bytes

section Sizes
variable {p : Process} {s s' : Svms} {r : Range} {ids : List Nat} {id : Nat}

section
variable (p : Process)

theorem charge_add (x y : Nat) : charge p (x + y) = charge p x + charge p y := by
  unfold charge
  split
  · rfl
  · exact Int.natCast_add x y

theorem charge_zero : charge p 0 = 0 := by
  unfold charge
  split <;> rfl

theorem svmRangeNewMem_true (r : Range) : svmRangeNewMem p r true = charge p r.bytes := by
  unfold svmRangeNewMem charge
  cases p.xnackEnabled <;> rfl

theorem svmRangeFreeMem_true (r : Range) : svmRangeFreeMem p r true = -charge p r.bytes := by
  unfold svmRangeFreeMem charge
  cases p.xnackEnabled <;> rfl

theorem freeAllMem_false (s : Svms) (ids : List Nat) : freeAllMem p s ids false = 0 := by
  unfold freeAllMem svmRangeFreeMem
  simp

theorem freeAllMem_true (s : Svms) (ids : List Nat) :
    freeAllMem p s ids true = -charge p (s.bytesOf ids) := by
  induction ids with
  | nil => rw [Svms.bytesOf, map_nil, sum_nil, charge_zero]; rfl
  | cons id ids ih =>
    have hcons : freeAllMem p s (id :: ids) true =
        svmRangeFreeMem p (s.heap id) true + freeAllMem p s ids true := rfl
    have hbytes : s.bytesOf (id :: ids) = (s.heap id).bytes + s.bytesOf ids := rfl
    rw [hcons, ih, svmRangeFreeMem_true, hbytes, charge_add]
    omega

end

@[simp] theorem Svms.bytesOf_nil (s : Svms) : s.bytesOf [] = 0 := rfl

@[simp] theorem Svms.bytesOf_cons (s : Svms) (id : Nat) (ids : List Nat) :
    s.bytesOf (id :: ids) = (s.heap id).bytes + s.bytesOf ids := rfl

theorem Svms.bytesOf_append (s : Svms) (ids ids' : List Nat) :
    s.bytesOf (ids ++ ids') = s.bytesOf ids + s.bytesOf ids' := by
  unfold Svms.bytesOf
  rw [map_append, sum_append]

theorem Svms.bytesOf_perm {ids' : List Nat} (s : Svms) (h : ids.Perm ids') :
    s.bytesOf ids = s.bytesOf ids' :=
  (h.map _).sum_eq

theorem Svms.bytesOf_eq_pageCount (s : Svms) (ids : List Nat) :
    s.bytesOf ids = (ids.map fun id => (s.heap id).pageCount).sum * 4096 := by
  induction ids with
  | nil => rw [map_nil, sum_nil, zero_mul, Svms.bytesOf_nil]
  | cons id ids ih =>
    rw [Svms.bytesOf_cons, ih, map_cons, sum_cons, add_mul, Range.bytes]

theorem Range.bytes_congr {r' : Range} (hstart : r'.start = r.start) (hlast : r'.last = r.last) :
    r'.bytes = r.bytes := by
  unfold Range.bytes Range.pageCount
  rw [hstart, hlast]

theorem Svms.bytesOf_congr (h : ∀ id ∈ ids, (s'.heap id).bytes = (s.heap id).bytes) :
    s'.bytesOf ids = s.bytesOf ids :=
  congrArg List.sum (map_congr_left h)

theorem Svms.bytesOf_write (hnodup : ids.Nodup) (hid : id ∈ ids) :
    (s.write id r).bytesOf ids + (s.heap id).bytes = s.bytesOf ids + r.bytes := by
  have hperm := perm_cons_erase hid
  have hother : (s.write id r).bytesOf (ids.erase id) = s.bytesOf (ids.erase id) :=
    Svms.bytesOf_congr fun x hx => by
      rw [Svms.write_heap_of_ne (hnodup.mem_erase_iff.mp hx).1]
  rw [Svms.bytesOf_perm _ hperm, Svms.bytesOf_perm s hperm, Svms.bytesOf_cons, Svms.bytesOf_cons,
    Svms.write_heap_self, hother]
  omega

end Sizes

/-! ## The lists of `svm_range_add` -/

/-- A range that `svm_range_add` has made. -/
structure Range.Fresh (r : Range) : Prop where
  children : r.children = []
  workOp : r.workOp = .null
  pos : 0 < r.start

/-- The ranges that `svm_range_add` has made, started from `s0`, after it has reserved `mem`. -/
structure AddState.Booked (a : AddState) (p : Process) (s0 : Svms) (mem : Int) : Prop where
  next_le : s0.next ≤ a.svms.next
  heap : ∀ id < s0.next, a.svms.heap id = s0.heap id
  made : ∀ id ∈ a.news ++ a.insert, s0.next ≤ id ∧ id < a.svms.next
  nodup : (a.news ++ a.insert).Nodup
  fresh : ∀ id ∈ a.news ++ a.insert, (a.svms.heap id).Fresh
  news : mem = charge p (a.svms.bytesOf a.news)
  insert : a.svms.bytesOf a.insert = s0.bytesOf a.remove

section Booked
variable {p : Process} {al : Alloc} {attrs : List Attribute} {s0 : Svms} {a : AddState} {mem : Int}

variable {start : Nat} {a' : AddState} {node : Nat} {id : Nat} (last : Nat)

theorem splitAdjust_fresh {new old : Range} (hold : old.Fresh) (hnew : new.Fresh) (hpos : 0 < start) :
    (splitAdjust new old start last).1.Fresh ∧ (splitAdjust new old start last).2.Fresh :=
  ⟨⟨hold.children, hold.workOp, hpos⟩, ⟨hnew.children, hnew.workOp, hnew.pos⟩⟩

theorem svmRangeSplit_fresh {newOk dmaOk : Bool} {r old new : Range} {start last : Nat}
    (h : svmRangeSplit p newOk dmaOk r start last = .ok (old, new)) (hr : r.Fresh) :
    old.Fresh ∧ new.Fresh ∧ old.bytes + new.bytes = r.bytes := by
  have hpos := hr.pos
  rcases svmRangeSplit_ok h with ⟨hstart, hle, hlast, heq⟩ | ⟨hstart, hle, hlast, heq⟩
  · have hnew : (svmRangeNew p (last + 1) r.last).Fresh := ⟨rfl, rfl, Nat.succ_pos last⟩
    have hparts := splitAdjust_fresh last hr hnew (hstart ▸ hpos)
    rw [← heq] at hparts
    refine ⟨hparts.1, hparts.2, ?_⟩
    rw [show old = _ from congrArg Prod.fst heq, show new = _ from congrArg Prod.snd heq]
    simp only [Range.bytes, Range.pageCount, splitAdjust_old_start, splitAdjust_old_last,
      splitAdjust_new_start, splitAdjust_new_last, svmRangeNew_start, svmRangeNew_last]
    omega
  · have hnew : (svmRangeNew p r.start (start - 1)).Fresh := ⟨rfl, rfl, hpos⟩
    have hparts := splitAdjust_fresh last hr hnew (Nat.zero_lt_of_lt hstart)
    rw [← heq] at hparts
    refine ⟨hparts.1, hparts.2, ?_⟩
    rw [show old = _ from congrArg Prod.fst heq, show new = _ from congrArg Prod.snd heq]
    simp only [Range.bytes, Range.pageCount, splitAdjust_old_start, splitAdjust_old_last,
      splitAdjust_new_start, splitAdjust_new_last, svmRangeNew_start, svmRangeNew_last]
    omega

theorem Svms.bytesOf_push {s : Svms} {ids : List Nat} {r : Range} (h : ∀ id ∈ ids, id < s.next) :
    (s.push r).bytesOf ids = s.bytesOf ids :=
  Svms.bytesOf_congr fun id hid => by rw [Svms.push_heap_of_lt (h id hid)]

section
variable (h : a.Booked p s0 mem)
include h

/-- A range is made and put on the list of the new ones or of those to insert. -/
theorem AddState.Booked.grow {mem' : Int}
    (hids : (a'.news ++ a'.insert).Perm (a.svms.next :: (a.news ++ a.insert)))
    (hnext : a'.svms.next = a.svms.next + 1)
    (hold : ∀ id < s0.next, a'.svms.heap id = a.svms.heap id)
    (hself : (a'.svms.heap a.svms.next).Fresh)
    (hfresh : ∀ id ∈ a.news ++ a.insert, (a'.svms.heap id).Fresh)
    (hnews : mem' = charge p (a'.svms.bytesOf a'.news))
    (hinsert : a'.svms.bytesOf a'.insert = s0.bytesOf a'.remove) : a'.Booked p s0 mem' := by
  have hlt : ∀ id ∈ a.news ++ a.insert, id < a.svms.next := fun id hid => (h.made id hid).2
  have hnew : a.svms.next ∉ a.news ++ a.insert := fun hmem => lt_irrefl _ (hlt _ hmem)
  refine ⟨?_, fun id hid => (hold id hid).trans (h.heap id hid), fun id hid => ?_,
    hids.nodup_iff.mpr (nodup_cons.mpr ⟨hnew, h.nodup⟩), fun id hid => ?_, hnews, hinsert⟩
  · rw [hnext]
    exact Nat.le_succ_of_le h.next_le
  · rw [hnext]
    rcases mem_cons.mp (hids.mem_iff.mp hid) with rfl | hid
    · exact ⟨h.next_le, Nat.lt_succ_self _⟩
    · exact ⟨(h.made id hid).1, Nat.lt_succ_of_lt (hlt id hid)⟩
  · rcases mem_cons.mp (hids.mem_iff.mp hid) with rfl | hid
    · exact hself
    · exact hfresh id hid

/-- The ranges that there were stay when one is pushed. -/
theorem AddState.Booked.push {mem' : Int} {r : Range} (hr : r.Fresh)
    (hsvms : a'.svms = a.svms.push r)
    (hids : (a'.news ++ a'.insert).Perm (a.svms.next :: (a.news ++ a.insert)))
    (hnews : mem' = charge p (a'.svms.bytesOf a'.news))
    (hinsert : a'.svms.bytesOf a'.insert = s0.bytesOf a'.remove) : a'.Booked p s0 mem' := by
  have hpush : ∀ id < a.svms.next, a'.svms.heap id = a.svms.heap id := fun id hid => by
    rw [hsvms, Svms.push_heap_of_lt hid]
  refine h.grow hids (by rw [hsvms]; rfl) (fun id hid => hpush id (hid.trans_le h.next_le)) ?_
    (fun id hid => hpush id (h.made id hid).2 ▸ h.fresh id hid) hnews hinsert
  rw [hsvms, Svms.push_heap_next]
  exact hr

theorem AddState.Booked.new (last : Nat) (hpos : 0 < start)
    (hsvms : a'.svms = a.svms.push (svmRangeNew p start last))
    (hnews : a'.news = a.svms.next :: a.news) (hinsert : a'.insert = a.insert)
    (hremove : a'.remove = a.remove) :
    a'.Booked p s0 (mem + svmRangeNewMem p (svmRangeNew p start last) true) := by
  refine h.push ⟨rfl, rfl, hpos⟩ hsvms (by rw [hnews, hinsert]; rfl) ?_ ?_
  · rw [hnews, Svms.bytesOf_cons, hsvms, Svms.push_heap_next, charge_add, svmRangeNewMem_true,
      h.news, Svms.bytesOf_push fun id hid => (h.made id (mem_append_left _ hid)).2]
    exact Int.add_comm _ _
  · rw [hinsert, hremove, hsvms,
      Svms.bytesOf_push fun id hid => (h.made id (mem_append_right _ hid)).2]
    exact h.insert

theorem AddState.Booked.clone (hnode : node < s0.next) (hpos : 0 < (s0.heap node).start)
    (hsvms : a'.svms = a.svms.push (svmRangeClone p (a.svms.heap node))) (hnews : a'.news = a.news)
    (hinsert : a'.insert = a.svms.next :: a.insert) (hremove : a'.remove = node :: a.remove) :
    a'.Booked p s0 mem := by
  have hheap := h.heap node hnode
  refine h.push (r := svmRangeClone p (s0.heap node)) ⟨rfl, rfl, hpos⟩ (hheap ▸ hsvms)
    (by rw [hnews, hinsert]; exact perm_middle) ?_ ?_
  · rw [hnews, hsvms, Svms.bytesOf_push fun id hid => (h.made id (mem_append_left _ hid)).2]
    exact h.news
  · rw [hinsert, hremove, Svms.bytesOf_cons, Svms.bytesOf_cons, hsvms, Svms.push_heap_next,
      Svms.bytesOf_push fun id hid => (h.made id (mem_append_right _ hid)).2, h.insert, hheap]
    rfl

theorem AddState.Booked.cut (hid : id ∈ a.insert) {r q : Range} (hr : r.Fresh) (hq : q.Fresh)
    (hbytes : r.bytes + q.bytes = (a.svms.heap id).bytes)
    (hsvms : a'.svms = (a.svms.write id r).push q) (hnews : a'.news = a.news)
    (hinsert : a'.insert = a.svms.next :: a.insert) (hremove : a'.remove = a.remove) :
    a'.Booked p s0 mem := by
  have hlt : ∀ x ∈ a.news ++ a.insert, x < a.svms.next := fun x hx => (h.made x hx).2
  have hself : a'.svms.heap a.svms.next = q := by
    rw [hsvms]
    exact write_push_heap_next
  have hheap : ∀ x < a.svms.next, a'.svms.heap x = if x = id then r else a.svms.heap x := by
    intro x hx
    rw [hsvms]
    exact write_push_heap hx
  have hmade := h.made id (mem_append_right _ hid)
  obtain ⟨-, hinsertNodup, hdisjoint⟩ := nodup_append.mp h.nodup
  refine h.grow (by rw [hnews, hinsert]; exact perm_middle) (by rw [hsvms]; rfl)
    (fun x hx => ?_) (hself ▸ hq) (fun x hx => ?_) ?_ ?_
  · rw [hheap x (hx.trans_le h.next_le), if_neg (by omega)]
  · rw [hheap x (hlt x hx)]
    split
    · exact hr
    · exact h.fresh x hx
  · have hsame : a'.svms.bytesOf a.news = a.svms.bytesOf a.news :=
      Svms.bytesOf_congr fun x hx => by
        rw [hheap x (hlt x (mem_append_left _ hx)),
          if_neg fun heq => hdisjoint x hx id hid heq]
    rw [hnews, hsame]
    exact h.news
  · have hwrite := Svms.bytesOf_write (s := a.svms) (r := r) hinsertNodup hid
    have hpush : a'.svms.bytesOf a.insert = (a.svms.write id r).bytesOf a.insert := by
      rw [hsvms]
      exact Svms.bytesOf_push fun x hx => hlt x (mem_append_right _ hx)
    rw [hinsert, hremove, Svms.bytesOf_cons, hself, hpush, ← h.insert]
    omega

end

theorem splitNewLoop_booked (rounds : Nat) : ∀ (start : Nat) (a : AddState)
    (mem : Int), a.Booked p s0 mem → 0 < start →
    (splitNewLoop p al last rounds start a).1.Booked p s0
      (mem + splitNewLoopMem p al last rounds start a.svms.next) := by
  induction rounds with
  | zero =>
    intro start a mem h _
    simpa [splitNewLoop, splitNewLoopMem] using h
  | succ rounds ih =>
    intro start a mem h hpos
    unfold splitNewLoop splitNewLoopMem
    split
    · simpa using h
    · dsimp only
      split
      · simpa using h
      · rw [← Int.add_assoc]
        exact ih _ _ _ (h.new _ hpos rfl rfl rfl rfl) (Nat.succ_pos _)

theorem svmRangeSplitNew_booked (h : a.Booked p s0 mem) (hpos : 0 < start) :
    (svmRangeSplitNew p al start last a).1.Booked p s0
      (mem + svmRangeSplitNewMem p al start last a) :=
  splitNewLoop_booked last _ start a mem h hpos

theorem svmRangeSplitHead_booked (newStart : Nat) (h : a.Booked p s0 mem) (hid : id ∈ a.insert) :
    (svmRangeSplitHead p al id newStart a).1.Booked p s0 mem ∧
      id ∈ (svmRangeSplitHead p al id newStart a).1.insert := by
  have hfresh := h.fresh id (mem_append_right _ hid)
  unfold svmRangeSplitHead
  dsimp only
  split
  · exact ⟨h, hid⟩
  · next old new hsplit =>
    obtain ⟨hold, hnew, hbytes⟩ := svmRangeSplit_fresh hsplit hfresh
    exact ⟨h.cut hid hold hnew hbytes rfl rfl rfl rfl, mem_cons_of_mem _ hid⟩

theorem svmRangeSplitTail_booked (newLast : Nat) (h : a.Booked p s0 mem) (hid : id ∈ a.insert) :
    (svmRangeSplitTail p al id newLast a).1.Booked p s0 mem := by
  have hfresh := h.fresh id (mem_append_right _ hid)
  unfold svmRangeSplitTail
  dsimp only
  split
  · exact h
  · next old new hsplit =>
    obtain ⟨hold, hnew, hbytes⟩ := svmRangeSplit_fresh hsplit hfresh
    exact h.cut hid hold hnew hbytes rfl rfl rfl rfl

theorem replaceNode_booked (start last : Nat) (h : a.Booked p s0 mem) (hnode : node < s0.next)
    (hpos : 0 < (s0.heap node).start) :
    (replaceNode p al start last node a).1.Booked p s0 mem := by
  unfold replaceNode
  dsimp only
  split
  · exact h
  · generalize ha1 : ({ a with
      svms := a.svms.push (svmRangeClone p (a.svms.heap node))
      remove := node :: a.remove
      insert := a.svms.next :: a.insert
      update := a.svms.next :: a.update } : AddState) = a1
    have h1 : a1.Booked p s0 mem := by
      subst ha1
      exact h.clone hnode hpos rfl rfl rfl rfl
    have hid1 : a.svms.next ∈ a1.insert := by
      subst ha1
      exact mem_cons_self
    generalize hr : (if (a.svms.heap node).itStart < start then
      svmRangeSplitHead p al a.svms.next start a1 else (a1, none)) = r
    have hhead : r.1.Booked p s0 mem ∧ a.svms.next ∈ r.1.insert := by
      subst hr
      split
      · exact svmRangeSplitHead_booked start h1 hid1
      · exact ⟨h1, hid1⟩
    cases r.2 with
    | some e => exact hhead.1
    | none =>
      dsimp only
      split
      · exact svmRangeSplitTail_booked last hhead.1 hhead.2
      · exact hhead.1

theorem addNode_booked (start last : Nat) (h : a.Booked p s0 mem) (hnode : node < s0.next)
    (hpos : 0 < (s0.heap node).start) :
    (addNode p al attrs start last node a).1.Booked p s0 mem := by
  unfold addNode
  dsimp only
  split
  · exact h
  · split
    · exact replaceNode_booked start last h hnode hpos
    · exact ⟨h.next_le, h.heap, h.made, h.nodup, h.fresh, h.news, h.insert⟩

theorem addRound_booked {start node : Nat} (h : a.Booked p s0 mem) (hstart : 0 < start)
    (hnode : node < s0.next) (hpos : 0 < (s0.heap node).start) :
    (addRound p al attrs start last node a).1.Booked p s0
      (mem + addRoundMem p al attrs start last node a) := by
  have hbooked : (addNode p al attrs start last node a).1.Booked p s0 mem :=
    addNode_booked start last h hnode hpos
  unfold addRound addRoundMem
  dsimp only
  cases (addNode p al attrs start last node a).2 with
  | some e => simpa using hbooked
  | none =>
    dsimp only
    split
    · exact svmRangeSplitNew_booked _ hbooked hstart
    · simpa using hbooked

theorem addLoop_booked (nodes : List Nat) : ∀ (iterStart start : Nat) (a : AddState)
    (mem : Int), a.Booked p s0 mem → 0 < start →
    (∀ node ∈ nodes, node < s0.next ∧ 0 < (s0.heap node).start) →
    (addLoop p al attrs last nodes iterStart start a).1.Booked p s0
      (mem + addLoopMem p al attrs last nodes iterStart start a) ∧
    0 < (addLoop p al attrs last nodes iterStart start a).2.1 := by
  induction nodes with
  | nil =>
    intro iterStart start a mem h hstart _
    exact ⟨by simpa [addLoop, addLoopMem] using h, hstart⟩
  | cons node nodes ih =>
    intro iterStart start a mem h hstart hnodes
    obtain ⟨hnode, hpos⟩ := hnodes node mem_cons_self
    have hrest : ∀ x ∈ nodes, x < s0.next ∧ 0 < (s0.heap x).start := fun x hx =>
      hnodes x (mem_cons_of_mem _ hx)
    unfold addLoop addLoopMem
    dsimp only
    split
    · have hround : (addRound p al attrs start last node a).1.Booked p s0 _ :=
        addRound_booked last h hstart hnode hpos
      cases (addRound p al attrs start last node a).2 with
      | some e => exact ⟨hround, hstart⟩
      | none =>
        dsimp only
        rw [← Int.add_assoc]
        exact ih _ _ _ _ hround (Nat.succ_pos _) hrest
    · exact ih _ _ _ _ h hstart hrest

theorem AddState.Booked.undo (h : a.Booked p s0 mem) : mem + addUndoMem p a = 0 := by
  unfold addUndoMem
  rw [freeAllMem_false, freeAllMem_true, ← h.news]
  omega

theorem svmRangeAdd_booked (p : Process) (al : Alloc) (attrs : List Attribute) (last : Nat)
    (hstart : 0 < start) (hnodes : ∀ node ∈ s0.tree, node < s0.next ∧ 0 < (s0.heap node).start) :
    ((svmRangeAdd p al attrs start last s0).2 ≠ none →
      svmRangeAddMem p al attrs start last s0 = 0) ∧
    ((svmRangeAdd p al attrs start last s0).2 = none →
      (∀ id ∈ (svmRangeAdd p al attrs start last s0).1.insert,
        ((svmRangeAdd p al attrs start last s0).1.svms.heap id).Fresh) ∧
      charge p ((svmRangeAdd p al attrs start last s0).1.svms.bytesOf
          (svmRangeAdd p al attrs start last s0).1.insert) =
        charge p (s0.bytesOf (svmRangeAdd p al attrs start last s0).1.remove) +
          svmRangeAddMem p al attrs start last s0) := by
  generalize ha : ({
      svms := s0, insert := [], news := [], update := [], remove := [], remap := [] } :
    AddState) = a
  have hinit : a.Booked p s0 0 := by
    subst ha
    exact ⟨le_refl _, fun _ _ => rfl, by simp, .nil, by simp, (charge_zero p).symm, rfl⟩
  obtain ⟨hloop, hpos⟩ : (addLoop p al attrs last s0.tree start start a).1.Booked p s0 _ ∧ _ :=
    addLoop_booked last s0.tree start start a 0 hinit hstart hnodes
  rw [Int.zero_add] at hloop
  unfold svmRangeAdd svmRangeAddMem
  dsimp only
  rw [ha]
  generalize addLoop p al attrs last s0.tree start start a = r at hloop hpos
  generalize addLoopMem p al attrs last s0.tree start start a = mem at hloop
  cases r.2.2 with
  | some e => exact ⟨fun _ => hloop.undo, nofun⟩
  | none =>
    dsimp only
    generalize hr2 : (if r.2.1 ≤ last then svmRangeSplitNew p al r.2.1 last r.1
      else (r.1, none)) = r2
    generalize hmem2 : mem + (if r.2.1 ≤ last then svmRangeSplitNewMem p al r.2.1 last r.1
      else 0) = mem2
    have hend : r2.1.Booked p s0 mem2 := by
      subst hr2 hmem2
      split
      · exact svmRangeSplitNew_booked last hloop hpos
      · simpa using hloop
    cases r2.2 with
    | some e => exact ⟨fun _ => hend.undo, nofun⟩
    | none =>
      refine ⟨fun h => absurd rfl h, fun _ => ⟨hend.fresh, ?_⟩⟩
      dsimp only
      rw [Svms.bytesOf_append, charge_add, hend.insert, hend.news]
      exact Int.add_comm _ _

end Booked

/-! ## The transaction -/

section Commit
variable {p : Process} {al : Alloc} {attrs : List Attribute} {s s' : Svms}
  {m : Nat → Option Attrs} {start size : Nat}

def Range.setAttrs (r : Range) (attrs : Attrs) : Range :=
  { r with attrs := attrs }

theorem foldl_insert_heap (ids : List Nat) (s : Svms) (x : Nat) :
    (ids.foldl (fun s id => svmRangeAddNotifier (svmRangeAddToSvms s id) id) s).heap x =
      if x ∈ ids then (s.heap x).synced else s.heap x := by
  induction ids generalizing s with
  | nil => rw [foldl_nil, if_neg not_mem_nil]
  | cons id ids ih =>
    rw [foldl_cons, ih]
    by_cases hx : x = id
    · subst hx
      rw [insert_heap_self, if_pos mem_cons_self]
      split <;> rfl
    · simp only [insert_heap_of_ne hx, mem_cons, hx, false_or]

theorem foldl_applyAttrs_heap (p : Process) (attrs : List Attribute) (ids : List Nat) (s : Svms)
    (x : Nat) :
    ∃ as, (ids.foldl (svmRangeApplyAttrs p attrs) s).heap x = (s.heap x).setAttrs as := by
  induction ids generalizing s with
  | nil => exact ⟨(s.heap x).attrs, rfl⟩
  | cons id ids ih =>
    obtain ⟨as, has⟩ := ih (svmRangeApplyAttrs p attrs s id)
    refine ⟨as, has.trans ?_⟩
    by_cases hx : x = id
    · subst hx
      unfold svmRangeApplyAttrs
      rw [Svms.write_heap_self]
      rfl
    · have hother : (svmRangeApplyAttrs p attrs s id).heap x = s.heap x := Svms.write_heap_of_ne hx
      rw [hother]

theorem commit_heap (p : Process) (attrs : List Attribute) (a : AddState) (x : Nat) :
    ∃ as, (commit p attrs a).heap x =
    (if x ∈ a.insert then (a.svms.heap x).synced else a.svms.heap x).setAttrs as := by
  unfold commit
  dsimp only
  rw [(foldl_svmRangeUnlink_heap _ _).1, ← foldl_insert_heap]
  exact foldl_applyAttrs_heap p attrs a.update _ x

theorem Svms.Rest.unchanged (h : s.Rest m) (hsame : s.Unchanged s') (hnext : s.next ≤ s'.next) :
    s'.Rest m := by
  have hlinked : s'.Linked := h.toLinked.congr hsame.list hsame.tree hnext fun x hx => by
    rw [hsame.heap x hx]
    exact ⟨rfl, rfl, rfl, rfl⟩
  refine ⟨⟨hlinked, ?_⟩, ?_, ?_, ?_⟩
  · have hpieces : s'.list.map (fun id => (s'.heap id).piece) =
        s.list.map fun id => (s.heap id).piece := by
      rw [hsame.list]
      exact map_congr_left fun x hx => by rw [hsame.heap x hx]
    rw [hpieces]
    exact h.represents
  all_goals
    rw [hsame.list]
    intro id hid
    rw [hsame.heap id hid]
  · exact h.notifier id hid
  · exact h.children id hid
  · exact h.live id hid

theorem Svms.bytes_eq (h : ∀ id ∈ s.list, (s.heap id).children = []) :
    s.bytes = s.bytesOf s.list := by
  rw [Svms.bytes, Svms.ids_eq_list h]

theorem filter_append_remove {l remove : List Nat} (hl : l.Nodup) (hremove : remove.Nodup)
    (hsub : ∀ id ∈ remove, id ∈ l) : (l.filter (· ∉ remove) ++ remove).Perm l := by
  have hin : (l.filter (· ∈ remove)).Perm remove := by
    refine (perm_ext_iff_of_nodup (hl.filter _) hremove).mpr fun x => ?_
    simp only [mem_filter, decide_eq_true_eq]
    exact ⟨And.right, fun hx => ⟨hsub x hx, hx⟩⟩
  have hperm := filter_append_perm (fun x => decide (x ∉ remove)) l
  refine .trans (.append_left _ (hin.symm.trans (.of_eq ?_))) hperm
  refine filter_congr fun x _ => ?_
  simp

theorem commit_rest {a : AddState} {m' : Nat → Option Attrs} (hs : s.Rest m) (h : a.Fine s)
    (hnews : a.news = []) (hpos : ∀ id ∈ s.list, 0 < (s.heap id).start)
    (hfresh : ∀ id ∈ a.insert, (a.svms.heap id).Fresh)
    (hrep : Represents (a.pieces p attrs s) m') :
    (commit p attrs a).Rest m' ∧
      (∀ id ∈ (commit p attrs a).list, 0 < ((commit p attrs a).heap id).start) ∧
      (commit p attrs a).bytes + s.bytesOf a.remove = s.bytes + a.svms.bytesOf a.insert := by
  obtain ⟨s', hcommit, hlinked, hlist, -⟩ : ∃ s' : Svms, commit p attrs a = _ ∧ _ :=
    commit_before hs.toLinked h hnews
  have hends : (commit p attrs a).list = (s.list ++ a.insert).filter (· ∉ a.remove) := by
    rw [hcommit, foldl_svmRangeUnlink_list _ hlinked.nodup, hlist]
  have hold : ∀ id ∈ s.list, id ∉ a.insert ∧ a.svms.heap id = s.heap id := by
    intro id hid
    have hlt := hs.fresh id hid
    refine ⟨fun hmem => ?_, h.heap id hlt⟩
    have := h.made id (mem_append_right _ hmem)
    omega
  have hmem : ∀ id ∈ (commit p attrs a).list, id ∈ s.list ∨ id ∈ a.insert := by
    intro id hid
    rw [hends] at hid
    exact mem_append.mp (mem_of_mem_filter hid)
  -- every range is one from before or a fresh one, but for its attributes
  have hcases : ∀ id ∈ (commit p attrs a).list, ∃ as,
      (id ∈ s.list ∧ (commit p attrs a).heap id = (s.heap id).setAttrs as) ∨
      ((a.svms.heap id).Fresh ∧
        (commit p attrs a).heap id = (a.svms.heap id).synced.setAttrs as) := by
    intro id hid
    obtain ⟨as, hheap⟩ := commit_heap p attrs a id
    refine ⟨as, ?_⟩
    rcases hmem id hid with hid | hid
    · obtain ⟨hnot, hsame⟩ := hold id hid
      rw [if_neg hnot, hsame] at hheap
      exact .inl ⟨hid, hheap⟩
    · rw [if_pos hid] at hheap
      exact .inr ⟨hfresh id hid, hheap⟩
  have hlinked' : (commit p attrs a).Linked :=
    (commit_linked_iff hs.toOk h hnews).mpr fun id hid =>
      ne_of_gt (hpos id (h.remove_sub id hid))
  have hchildren : ∀ id ∈ (commit p attrs a).list, ((commit p attrs a).heap id).children = [] := by
    intro id hid
    obtain ⟨as, ⟨hid, hheap⟩ | ⟨hf, hheap⟩⟩ := hcases id hid
    · rw [hheap]
      exact hs.children id hid
    · rw [hheap]
      exact hf.children
  refine ⟨⟨⟨hlinked', commit_represents hs.toLinked h hnews hrep⟩, ?_, hchildren, ?_⟩, ?_, ?_⟩
  · intro id hid
    obtain ⟨as, ⟨hid, hheap⟩ | ⟨hf, hheap⟩⟩ := hcases id hid
    · rw [hheap]
      exact hs.notifier id hid
    · rw [hheap]
      exact ⟨rfl, rfl⟩
  · intro id hid
    obtain ⟨as, ⟨hid, hheap⟩ | ⟨hf, hheap⟩⟩ := hcases id hid
    · rw [hheap]
      exact hs.live id hid
    · rw [hheap]
      change (a.svms.heap id).workOp ≠ _
      rw [hf.workOp]
      decide
  · intro id hid
    obtain ⟨as, ⟨hid, hheap⟩ | ⟨hf, hheap⟩⟩ := hcases id hid
    · rw [hheap]
      exact hpos id hid
    · rw [hheap]
      exact hf.pos
  · -- the sizes before and after, by list
    have hbytes : ∀ x, ((commit p attrs a).heap x).bytes = (a.svms.heap x).bytes := by
      intro x
      obtain ⟨as, hheap⟩ := commit_heap p attrs a x
      rw [hheap]
      split <;> rfl
    have hsame : ∀ ids, (commit p attrs a).bytesOf ids = a.svms.bytesOf ids := fun ids =>
      Svms.bytesOf_congr fun x _ => hbytes x
    have hstill : ∀ ids, (∀ id ∈ ids, id ∈ s.list) → a.svms.bytesOf ids = s.bytesOf ids :=
      fun ids hids => Svms.bytesOf_congr fun x hx => by rw [(hold x (hids x hx)).2]
    have hnodup : (s.list ++ a.insert).Nodup := by
      have hnodup := h.nodup
      rw [AddState.ids, hnews, nil_append] at hnodup
      exact perm_append_comm.nodup_iff.mp hnodup
    have hperm := filter_append_remove hnodup h.remove_nodup fun id hid =>
      mem_append_left _ (h.remove_sub id hid)
    calc (commit p attrs a).bytes + s.bytesOf a.remove
        = a.svms.bytesOf (commit p attrs a).list + a.svms.bytesOf a.remove := by
          rw [Svms.bytes_eq hchildren, hsame, hstill a.remove h.remove_sub]
      _ = a.svms.bytesOf (s.list ++ a.insert) := by
          rw [hends, ← Svms.bytesOf_append]
          exact Svms.bytesOf_perm _ hperm
      _ = s.bytes + a.svms.bytesOf a.insert := by
          rw [Svms.bytesOf_append, hstill s.list fun _ hid => hid, Svms.bytes_eq hs.children]

theorem svmRangeSetAttr_rest (al : Alloc) (valid : Option Errno) (hs : s.Rest m)
    (hpos : ∀ id ∈ s.list, 0 < (s.heap id).start) (hstart : 0 < start) (hsize : 0 < size) :
    (∃ m', (svmRangeSetAttr p al valid attrs start size s).1.Rest m') ∧
    (∀ id ∈ (svmRangeSetAttr p al valid attrs start size s).1.list,
      0 < ((svmRangeSetAttr p al valid attrs start size s).1.heap id).start) ∧
    charge p (svmRangeSetAttr p al valid attrs start size s).1.bytes =
      charge p s.bytes + svmRangeSetAttrMem p al valid attrs start size s ∧
    ∀ e, (svmRangeSetAttr p al valid attrs start size s).2 = .error e →
      svmRangeSetAttrMem p al valid attrs start size s = 0 := by
  unfold svmRangeSetAttr svmRangeSetAttrMem
  cases hcheck : svmRangeCheckAttr p attrs with
  | some e => exact ⟨⟨m, hs⟩, hpos, (Int.add_zero _).symm, fun _ _ => rfl⟩
  | none =>
    cases valid with
    | some e => exact ⟨⟨m, hs⟩, hpos, (Int.add_zero _).symm, fun _ _ => rfl⟩
    | none =>
      have hnodes : ∀ node ∈ s.tree, node < s.next ∧ 0 < (s.heap node).start := by
        intro node hnode
        have hmem := hs.perm.mem_iff.mpr hnode
        exact ⟨hs.fresh node hmem, hpos node hmem⟩
      obtain ⟨hfine, -, hdone⟩ : AddState.Fine (svmRangeAdd p al attrs start _ s).1 s ∧ _ :=
        svmRangeAdd_spec hs.toOk (show start ≤ start + size - 1 by omega)
      obtain ⟨hfail, hbooked⟩ := svmRangeAdd_booked p al attrs (start + size - 1) hstart hnodes
      dsimp only
      cases hadd : (svmRangeAdd p al attrs start (start + size - 1) s).2 with
      | some e =>
        have hsame := hfine.unchanged hs.toLinked
        have hzero := hfail (by rw [hadd]; exact nofun)
        dsimp only
        refine ⟨⟨m, hs.unchanged hsame hfine.next_le⟩, ?_, ?_, fun _ _ => hzero⟩
        · rw [hsame.list]
          intro id hid
          rw [hsame.heap id hid]
          exact hpos id hid
        · have hrest := hs.unchanged hsame hfine.next_le
          rw [hzero, Int.add_zero, Svms.bytes_eq hrest.children, Svms.bytes_eq hs.children,
            hsame.list]
          exact congrArg (charge p) (Svms.bytesOf_congr fun id hid => by rw [hsame.heap id hid])
      | none =>
        obtain ⟨hnews, -, hrep⟩ := hdone hadd
        obtain ⟨hfresh, hmem⟩ := hbooked hadd
        obtain ⟨hrest, hpos', hbytes⟩ := commit_rest hs hfine hnews hpos hfresh hrep
        refine ⟨⟨_, hrest⟩, hpos', ?_, nofun⟩
        have hcharge := congrArg (charge p) hbytes
        rw [charge_add, charge_add, hmem] at hcharge
        change charge p
            (commit p attrs (svmRangeAdd p al attrs start (start + size - 1) s).1).bytes =
          charge p s.bytes + (svmRangeAddMem p al attrs start (start + size - 1) s +
            freeAllMem p _ _ false)
        rw [freeAllMem_false]
        omega

end Commit

end Amdkfd.Svm
