import Amdkfd.Svm.SetAttr

/-!
# Adding an interval

The ranges of a process stand for a map from pages to attributes.
`svm_range_add` prepares the update of the map on an interval: the lists it
returns say which ranges to insert, to update and to remove. `AddState.pieces`
is what the caller will have when it has done that.
-/

namespace Amdkfd.Svm

open Lib Function List

/-! ## The ranges as a map -/

def Range.piece (r : Range) : Piece Attrs :=
  { lo := r.start, hi := r.last, val := r.attrs }

/-- List and tree hold the same ranges, with their tree nodes in order and up to
date. -/
structure Svms.Linked (s : Svms) : Prop where
  perm : s.list.Perm s.tree
  nodup : s.list.Nodup
  fresh : ∀ id ∈ s.list, id < s.next
  node : ∀ id ∈ s.list, (s.heap id).itStart = (s.heap id).start ∧
    (s.heap id).itLast = (s.heap id).last
  sorted : s.tree.Pairwise fun x y => (s.heap x).itStart ≤ (s.heap y).itStart

/-- The ranges of a process at rest: they are linked and stand for the map
`m`. -/
structure Svms.Ok (s : Svms) (m : Nat → Option Attrs) : Prop extends s.Linked where
  represents : Represents (s.list.map fun id => (s.heap id).piece) m

/-! ## What `svm_range_add` keeps -/

section Add
variable {p : Process} {al : Alloc} {attrs : List Attribute} {s0 : Svms}

/-- All ranges of the process and those that `svm_range_add` has made. -/
def AddState.ids (a : AddState) (s0 : Svms) : List Nat :=
  a.news ++ a.insert ++ s0.list

/-- The piece that a range will be when the transaction is done. -/
def AddState.piece (a : AddState) (p : Process) (attrs : List Attribute) (id : Nat) : Piece Attrs :=
  if id ∈ a.update then
    { (a.svms.heap id).piece with val := applyAttrs p attrs (a.svms.heap id).attrs }
  else (a.svms.heap id).piece

def AddState.pieces (a : AddState) (p : Process) (attrs : List Attribute) (s0 : Svms) :
    List (Piece Attrs) :=
  ((a.ids s0).filter (· ∉ a.remove)).map (a.piece p attrs)

/-- The lists and the heap of `svm_range_add`, started from `s0`. Only ranges
that it has made itself are written. -/
structure AddState.Fine (a : AddState) (s0 : Svms) : Prop where
  nodup : (a.ids s0).Nodup
  lt : ∀ id ∈ a.ids s0, id < a.svms.next
  next_le : s0.next ≤ a.svms.next
  made : ∀ id ∈ a.news ++ a.insert, s0.next ≤ id
  heap : ∀ id < s0.next, a.svms.heap id = s0.heap id
  list : a.svms.list = s0.list
  tree : a.svms.tree = s0.tree
  remove_sub : ∀ id ∈ a.remove, id ∈ s0.list
  remove_nodup : a.remove.Nodup
  update_sub : ∀ id ∈ a.update, id ∈ a.ids s0 ∧ id ∉ a.remove
  update_nodup : a.update.Nodup

theorem AddState.Fine.init (h : s0.Linked) :
    AddState.Fine { svms := s0, insert := [], news := [], update := [], remove := [], remap := [] }
      s0 := by
  constructor
  · exact h.nodup
  · exact h.fresh
  · exact le_refl _
  · simp
  · simp
  · rfl
  · rfl
  · simp
  · exact .nil
  · simp
  · exact .nil

section Pieces
variable {a a' : AddState}

variable {id : Nat}

theorem AddState.pieces_perm (hid : id ∈ a.ids s0) (hkeep : id ∉ a.remove) :
    (a.pieces p attrs s0).Perm (a.piece p attrs id ::
      (((a.ids s0).erase id).filter (· ∉ a.remove)).map (a.piece p attrs)) := by
  have hperm := (perm_cons_erase hid).filter (· ∉ a.remove)
  rw [filter_cons_of_pos (by simpa using hkeep)] at hperm
  exact hperm.map _

theorem map_piece_congr {ids : List Nat} (hheap : ∀ id ∈ ids, a'.svms.heap id = a.svms.heap id)
    (hupdate : ∀ id ∈ ids, id ∈ a'.update ↔ id ∈ a.update) :
    ids.map (a'.piece p attrs) = ids.map (a.piece p attrs) := by
  refine map_congr_left fun id hid => ?_
  unfold AddState.piece
  rw [hheap id hid]
  simp only [hupdate id hid]

theorem AddState.Fine.pieces_new (h : a.Fine s0)
    (hids : (a'.ids s0).Perm (a.svms.next :: a.ids s0)) (hremove : a'.remove = a.remove)
    (hheap : ∀ id < a.svms.next, a'.svms.heap id = a.svms.heap id)
    (hupdate : ∀ id < a.svms.next, id ∈ a'.update ↔ id ∈ a.update) :
    (a'.pieces p attrs s0).Perm (a'.piece p attrs a.svms.next :: a.pieces p attrs s0) := by
  have hnew : a.svms.next ∉ a.remove := by
    intro hmem
    have := h.lt _ (mem_append_right _ (h.remove_sub _ hmem))
    omega
  have hperm := hids.filter (· ∉ a'.remove)
  rw [hremove, filter_cons_of_pos (by simpa using hnew)] at hperm
  have hsame : ((a.ids s0).filter (· ∉ a.remove)).map (a'.piece p attrs) =
      a.pieces p attrs s0 := by
    refine map_piece_congr (fun id hid => ?_) fun id hid => ?_
    · exact hheap id (h.lt id (mem_of_mem_filter hid))
    · exact hupdate id (h.lt id (mem_of_mem_filter hid))
  unfold AddState.pieces
  rw [hremove]
  refine (hperm.map _).trans ?_
  rw [map_cons, hsame]
  exact .refl _

theorem others_congr (hnodup : (a.ids s0).Nodup)
    (hremove : ∀ x ∈ a.ids s0, x ≠ id → (x ∈ a'.remove ↔ x ∈ a.remove))
    (hheap : ∀ x ∈ a.ids s0, x ≠ id → a'.svms.heap x = a.svms.heap x)
    (hupdate : ∀ x ∈ a.ids s0, x ≠ id → (x ∈ a'.update ↔ x ∈ a.update)) :
    (((a.ids s0).erase id).filter (· ∉ a'.remove)).map (a'.piece p attrs) =
      (((a.ids s0).erase id).filter (· ∉ a.remove)).map (a.piece p attrs) := by
  have hother : ∀ x ∈ (a.ids s0).erase id, x ∈ a.ids s0 ∧ x ≠ id := fun x hx =>
    ((hnodup.mem_erase_iff).mp hx).symm
  have hfilter : ((a.ids s0).erase id).filter (· ∉ a'.remove) =
      ((a.ids s0).erase id).filter (· ∉ a.remove) := by
    refine filter_congr fun x hx => ?_
    obtain ⟨hmem, hne⟩ := hother x hx
    simp only [hremove x hmem hne]
  rw [hfilter]
  refine map_piece_congr (fun x hx => ?_) fun x hx => ?_
  · obtain ⟨hmem, hne⟩ := hother x (mem_of_mem_filter hx)
    exact hheap x hmem hne
  · obtain ⟨hmem, hne⟩ := hother x (mem_of_mem_filter hx)
    exact hupdate x hmem hne

end Pieces

/-! ### The steps -/

section Steps
variable {a : AddState} {m m' : Nat → Option Attrs}

theorem Svms.write_heap_self (s : Svms) (id : Nat) (r : Range) : (s.write id r).heap id = r :=
  update_self ..

variable {r : Range} {node : Nat} {a' : AddState}

variable {s : Svms}

theorem Svms.write_heap_of_ne {id x : Nat} (h : x ≠ id) : (s.write id r).heap x = s.heap x :=
  update_of_ne h _ _

theorem Svms.push_heap_of_lt {id : Nat} (h : id < s.next) : (s.push r).heap id = s.heap id :=
  update_of_ne (by omega) _ _

theorem Svms.push_heap_next (s : Svms) (r : Range) : (s.push r).heap s.next = r :=
  update_self ..

theorem mem_cons_iff_of_lt {id n : Nat} {l : List Nat} (h : id < n) : id ∈ n :: l ↔ id ∈ l := by
  rw [mem_cons, or_iff_right (ne_of_lt h)]

/-- A range of the process that has not been dealt with yet. -/
structure AddState.Unvisited (a : AddState) (s0 : Svms) (node : Nat) : Prop where
  mem : node ∈ s0.list
  keep : node ∉ a.remove
  unmarked : node ∉ a.update

theorem AddState.Unvisited.mem_ids (h : a.Unvisited s0 node) : node ∈ a.ids s0 :=
  mem_append_right _ h.mem

theorem AddState.Fine.addNew (h : a.Fine s0) (hrep : Represents (a.pieces p attrs s0) m)
    (hne : r.start ≤ r.last) (hfree : ∀ x, r.start ≤ x ∧ x ≤ r.last → m x = none)
    (ha' : a' = { a with
      svms := a.svms.push r
      news := a.svms.next :: a.news
      update := a.svms.next :: a.update }) :
    a'.Fine s0 ∧
      Represents (a'.pieces p attrs s0) (fill m r.start r.last (applyAttrs p attrs r.attrs)) := by
  have hlt : ∀ id ∈ a.ids s0, id < a.svms.next := h.lt
  have hnew : a.svms.next ∉ a.ids s0 := fun hmem => absurd (hlt _ hmem) (lt_irrefl _)
  have hids : a'.ids s0 = a.svms.next :: a.ids s0 := by
    subst ha'
    rfl
  constructor
  · subst ha'
    constructor
    · rw [hids]
      exact nodup_cons.mpr ⟨hnew, h.nodup⟩
    · rw [hids]
      intro id hid
      rcases mem_cons.mp hid with rfl | hid
      · exact Nat.lt_succ_self _
      · exact Nat.lt_succ_of_lt (hlt id hid)
    · exact Nat.le_succ_of_le h.next_le
    · intro id hid
      rcases mem_cons.mp hid with rfl | hid
      · exact h.next_le
      · exact h.made id hid
    · intro id hid
      exact (Svms.push_heap_of_lt (lt_of_lt_of_le hid h.next_le)).trans (h.heap id hid)
    · exact h.list
    · exact h.tree
    · exact h.remove_sub
    · exact h.remove_nodup
    · intro id hid
      rw [hids]
      rcases mem_cons.mp hid with rfl | hid
      · exact ⟨mem_cons_self, fun hr =>
          hnew (mem_append_right _ (h.remove_sub _ hr))⟩
      · exact ⟨mem_cons_of_mem _ (h.update_sub id hid).1, (h.update_sub id hid).2⟩
    · exact nodup_cons.mpr ⟨fun hu => hnew (h.update_sub _ hu).1, h.update_nodup⟩
  · have hperm : (a'.pieces p attrs s0).Perm _ := h.pieces_new (hids ▸ .refl _)
      (by rw [ha']) (fun id hid => by rw [ha']; exact Svms.push_heap_of_lt hid)
      (fun id hid => by rw [ha']; exact mem_cons_iff_of_lt hid)
    have hpiece : a'.piece p attrs a.svms.next =
        { lo := r.start, hi := r.last, val := applyAttrs p attrs r.attrs } := by
      subst ha'
      unfold AddState.piece
      rw [if_pos mem_cons_self]
      simp only [Svms.push_heap_next, Range.piece]
    rw [hpiece] at hperm
    exact (hrep.cons (p := { lo := r.start, hi := r.last, val := applyAttrs p attrs r.attrs })
      hne hfree).perm hperm.symm

theorem AddState.Fine.mark (h : a.Fine s0) (hnode : a.Unvisited s0 node)
    (hrep : Represents (a.pieces p attrs s0) m) (ha' : a' = { a with update := node :: a.update })
    (hr : a.svms.heap node = r) :
    a'.Fine s0 ∧
      Represents (a'.pieces p attrs s0) (fill m r.start r.last (applyAttrs p attrs r.attrs)) := by
  constructor
  · subst ha'
    refine ⟨h.nodup, h.lt, h.next_le, h.made, h.heap, h.list, h.tree, h.remove_sub,
      h.remove_nodup, fun id hid => ?_, nodup_cons.mpr ⟨hnode.unmarked, h.update_nodup⟩⟩
    rcases mem_cons.mp hid with rfl | hid
    · exact ⟨hnode.mem_ids, hnode.keep⟩
    · exact h.update_sub id hid
  · have hbefore : (a.pieces p attrs s0).Perm _ := AddState.pieces_perm hnode.mem_ids hnode.keep
    have hmem : node ∈ a'.ids s0 := by rw [ha']; exact hnode.mem_ids
    have hkeep : node ∉ a'.remove := by rw [ha']; exact hnode.keep
    have hafter : (a'.pieces p attrs s0).Perm _ := AddState.pieces_perm hmem hkeep
    have hids : a'.ids s0 = a.ids s0 := by rw [ha']; rfl
    rw [hids, others_congr h.nodup (by subst ha'; simp) (by subst ha'; simp)
      (fun x _ hx => by subst ha'; simp [hx])] at hafter
    have hold : a.piece p attrs node = r.piece := by
      rw [AddState.piece, if_neg hnode.unmarked, hr]
    have hnew : a'.piece p attrs node = { r.piece with val := applyAttrs p attrs r.attrs } := by
      subst ha'
      rw [AddState.piece, if_pos mem_cons_self, hr]
    rw [hold] at hbefore
    rw [hnew] at hafter
    exact ((hrep.perm hbefore).setVal _).perm hafter.symm

theorem AddState.Fine.replace (h : a.Fine s0) (hnode : a.Unvisited s0 node)
    (hrep : Represents (a.pieces p attrs s0) m) {r c : Range} (hr : a.svms.heap node = r)
    (hc : c.piece = r.piece) (ha' : a' = { a with
      svms := a.svms.push c
      remove := node :: a.remove
      insert := a.svms.next :: a.insert
      update := a.svms.next :: a.update }) :
    a'.Fine s0 ∧
      Represents (a'.pieces p attrs s0) (fill m r.start r.last (applyAttrs p attrs r.attrs)) := by
  have hlt : ∀ id ∈ a.ids s0, id < a.svms.next := h.lt
  have hnew : a.svms.next ∉ a.ids s0 := fun hmem => absurd (hlt _ hmem) (lt_irrefl _)
  have hids : (a'.ids s0).Perm (a.svms.next :: a.ids s0) := by
    subst ha'
    simp only [AddState.ids, append_assoc]
    exact perm_middle
  have hnodeLt : node < a.svms.next := hlt node hnode.mem_ids
  constructor
  · subst ha'
    constructor
    · exact hids.nodup_iff.mpr (nodup_cons.mpr ⟨hnew, h.nodup⟩)
    · intro id hid
      rcases mem_cons.mp (hids.mem_iff.mp hid) with rfl | hid
      · exact Nat.lt_succ_self _
      · exact Nat.lt_succ_of_lt (hlt id hid)
    · exact Nat.le_succ_of_le h.next_le
    · intro id hid
      rcases mem_append.mp hid with hid | hid
      · exact h.made id (mem_append_left _ hid)
      · rcases mem_cons.mp hid with rfl | hid
        · exact h.next_le
        · exact h.made id (mem_append_right _ hid)
    · intro id hid
      exact (Svms.push_heap_of_lt (lt_of_lt_of_le hid h.next_le)).trans (h.heap id hid)
    · exact h.list
    · exact h.tree
    · intro id hid
      rcases mem_cons.mp hid with rfl | hid
      · exact hnode.mem
      · exact h.remove_sub id hid
    · exact nodup_cons.mpr ⟨hnode.keep, h.remove_nodup⟩
    · intro id hid
      rcases mem_cons.mp hid with rfl | hid
      · refine ⟨hids.mem_iff.mpr mem_cons_self, fun hrem => ?_⟩
        rcases mem_cons.mp hrem with heq | hrem
        · omega
        · exact hnew (mem_append_right _ (h.remove_sub _ hrem))
      · obtain ⟨hmem, hkeep⟩ := h.update_sub id hid
        refine ⟨hids.mem_iff.mpr (mem_cons_of_mem _ hmem), fun hrem => ?_⟩
        rcases mem_cons.mp hrem with heq | hrem
        · exact hnode.unmarked (heq ▸ hid)
        · exact hkeep hrem
    · exact nodup_cons.mpr ⟨fun hu => hnew (h.update_sub _ hu).1, h.update_nodup⟩
  · -- The pieces after: the clone's, and those of the ranges other than `node`.
    have hbefore : (a.pieces p attrs s0).Perm _ := AddState.pieces_perm hnode.mem_ids hnode.keep
    have hperm := (hids.trans ((perm_cons_erase hnode.mem_ids).cons _)).filter
      (· ∉ a'.remove)
    have hnewKeep : a.svms.next ∉ a'.remove := by
      rw [ha']
      intro hrem
      rcases mem_cons.mp hrem with heq | hrem
      · omega
      · exact hnew (mem_append_right _ (h.remove_sub _ hrem))
    have hnodeGone : node ∈ a'.remove := by rw [ha']; exact mem_cons_self
    rw [filter_cons_of_pos (by simpa using hnewKeep),
      filter_cons_of_neg (by simpa using hnodeGone)] at hperm
    have hafter := hperm.map (a'.piece p attrs)
    rw [map_cons, others_congr h.nodup (fun x _ hx => by subst ha'; simp [hx])
      (fun x hx _ => by subst ha'; exact Svms.push_heap_of_lt (hlt x hx))
      (fun x hx _ => by subst ha'; exact mem_cons_iff_of_lt (hlt x hx))] at hafter
    have hold : a.piece p attrs node = r.piece := by
      rw [AddState.piece, if_neg hnode.unmarked, hr]
    have hcattrs : c.attrs = r.attrs := congrArg Piece.val hc
    have hclone : a'.piece p attrs a.svms.next =
        { r.piece with val := applyAttrs p attrs r.attrs } := by
      subst ha'
      rw [AddState.piece, if_pos mem_cons_self]
      simp only [Svms.push_heap_next, hc, hcattrs]
    rw [hold] at hbefore
    rw [hclone] at hafter
    exact ((hrep.perm hbefore).setVal _).perm hafter.symm

theorem AddState.Fine.cut (h : a.Fine s0) {id : Nat} (hid : id ∈ a.update)
    (hmade : s0.next ≤ id) {r r' q : Range} (hr : a.svms.heap id = r)
    {a' : AddState} {remap : List Nat}
    (ha' : a' = { a with
      svms := (a.svms.write id r').push q
      insert := a.svms.next :: a.insert
      remap := remap })
    (hrep : ∀ ps, Represents ({ r.piece with val := applyAttrs p attrs r.attrs } :: ps) m →
      Represents ({ r'.piece with val := applyAttrs p attrs r'.attrs } :: q.piece :: ps) m')
    (hpieces : Represents (a.pieces p attrs s0) m) :
    a'.Fine s0 ∧ Represents (a'.pieces p attrs s0) m' := by
  obtain ⟨hmem, hkeep⟩ := h.update_sub id hid
  have hlt : ∀ id ∈ a.ids s0, id < a.svms.next := h.lt
  have hnew : a.svms.next ∉ a.ids s0 := fun hmem => absurd (hlt _ hmem) (lt_irrefl _)
  have hids : (a'.ids s0).Perm (a.svms.next :: a.ids s0) := by
    subst ha'
    simp only [AddState.ids, append_assoc]
    exact perm_middle
  have hheap : ∀ x, x ≠ id → x < a.svms.next → a'.svms.heap x = a.svms.heap x := by
    intro x hne hx
    subst ha'
    rw [Svms.push_heap_of_lt (s := a.svms.write id r') hx]
    exact update_of_ne hne _ _
  constructor
  · constructor
    · exact hids.nodup_iff.mpr (nodup_cons.mpr ⟨hnew, h.nodup⟩)
    · intro x hx
      rw [ha']
      rcases mem_cons.mp (hids.mem_iff.mp hx) with rfl | hx
      · exact Nat.lt_succ_self _
      · exact Nat.lt_succ_of_lt (hlt x hx)
    · rw [ha']
      exact Nat.le_succ_of_le h.next_le
    · rw [ha']
      intro x hx
      rcases mem_append.mp hx with hx | hx
      · exact h.made x (mem_append_left _ hx)
      · rcases mem_cons.mp hx with rfl | hx
        · exact h.next_le
        · exact h.made x (mem_append_right _ hx)
    · intro x hx
      exact (hheap x (by omega) (lt_of_lt_of_le hx h.next_le)).trans (h.heap x hx)
    · rw [ha']
      exact h.list
    · rw [ha']
      exact h.tree
    · rw [ha']
      exact h.remove_sub
    · rw [ha']
      exact h.remove_nodup
    · intro x hx
      have hx : x ∈ a.update := by rw [ha'] at hx; exact hx
      obtain ⟨hmem, hkeep⟩ := h.update_sub x hx
      exact ⟨hids.mem_iff.mpr (mem_cons_of_mem _ hmem), by rw [ha']; exact hkeep⟩
    · rw [ha']
      exact h.update_nodup
  · have hbefore : (a.pieces p attrs s0).Perm _ := AddState.pieces_perm hmem hkeep
    have hperm := (hids.trans ((perm_cons_erase hmem).cons _)).filter (· ∉ a'.remove)
    have hnewKeep : a.svms.next ∉ a'.remove := by
      rw [ha']
      exact fun hrem => hnew (mem_append_right _ (h.remove_sub _ hrem))
    have hidKeep : id ∉ a'.remove := by rw [ha']; exact hkeep
    rw [filter_cons_of_pos (by simpa using hnewKeep),
      filter_cons_of_pos (by simpa using hidKeep)] at hperm
    have hafter := hperm.map (a'.piece p attrs)
    rw [map_cons, map_cons, others_congr h.nodup (fun x _ _ => by rw [ha'])
      (fun x hx hne => hheap x hne (hlt x hx)) (fun x _ _ => by rw [ha'])] at hafter
    have hold : a.piece p attrs id = { r.piece with val := applyAttrs p attrs r.attrs } := by
      rw [AddState.piece, if_pos hid, hr]
    have hshrunk : a'.piece p attrs id =
        { r'.piece with val := applyAttrs p attrs r'.attrs } := by
      have hidLt := hlt id hmem
      have hheapId : a'.svms.heap id = r' := by
        rw [ha']
        rw [Svms.push_heap_of_lt (s := a.svms.write id r') hidLt]
        exact update_self ..
      rw [AddState.piece, if_pos (by rw [ha']; exact hid), hheapId]
    have hrest : a'.piece p attrs a.svms.next = q.piece := by
      have hunmarked : a.svms.next ∉ a'.update := by
        rw [ha']
        exact fun hu => hnew (h.update_sub _ hu).1
      have hheapNext : a'.svms.heap a.svms.next = q := by
        rw [ha']
        exact Svms.push_heap_next (a.svms.write id r') q
      rw [AddState.piece, if_neg hunmarked, hheapNext]
    rw [hold] at hbefore
    rw [hshrunk, hrest] at hafter
    exact ((hrep _ (hpieces.perm hbefore)).perm (.swap ..)).perm hafter.symm

end Steps

/-! ### The functions -/

section Functions
variable {a : AddState} {m : Nat → Option Attrs}

theorem lt_alignDown {p : Process} (start : Nat) :
    start < alignDown (start + p.maxSvmRangePages) p.maxSvmRangePages := by
  have hpos := p.maxSvmRangePages_pos
  have hdiv := Nat.div_add_mod (start + p.maxSvmRangePages) p.maxSvmRangePages
  have hmod := Nat.mod_lt (start + p.maxSvmRangePages) hpos
  rw [mul_comm] at hdiv
  unfold alignDown
  omega

def Alloc.AllOk (al : Alloc) : Prop :=
  ∀ n, al.new n = true ∧ al.dma n = true

/-- The state after a call: the lists are fine, the ranges other than those of
`nodes` that were not dealt with still are not, and without an error the pieces
stand for `m` and the ranges to remove are `remove`. There is no error when every
allocation succeeds. -/
structure AddState.Done (al : Alloc) (r : AddState × Option Errno) (a : AddState) (s0 : Svms)
    (nodes : List Nat) (p : Process) (attrs : List Attribute) (m : Nat → Option Attrs)
    (remove : List Nat) : Prop where
  fine : r.1.Fine s0
  unvisited : ∀ x, x ∉ nodes → a.Unvisited s0 x → r.1.Unvisited s0 x
  rep : r.2 = none → Represents (r.1.pieces p attrs s0) m
  remove_eq : r.2 = none → r.1.remove = remove
  total : al.AllOk → r.2 = none

/-- A call that fails, because an allocation does. -/
theorem AddState.Done.failed {r : AddState × Option Errno} {nodes remove : List Nat}
    (hfine : r.1.Fine s0) (hun : ∀ x, x ∉ nodes → a.Unvisited s0 x → r.1.Unvisited s0 x)
    (herr : r.2 ≠ none) (hfail : ¬al.AllOk) :
    AddState.Done al r a s0 nodes p attrs m remove :=
  ⟨hfine, hun, fun hnone => absurd hnone herr, fun hnone => absurd hnone herr,
    fun hall => absurd hall hfail⟩

theorem AddState.Unvisited.of_marked (h : a.Fine s0) {x : Nat} (hx : a.Unvisited s0 x)
    {a' : AddState} (hremove : a'.remove = a.remove)
    (hupdate : a'.update = a.svms.next :: a.update) :
    a'.Unvisited s0 x := by
  refine ⟨hx.mem, by rw [hremove]; exact hx.keep, ?_⟩
  rw [hupdate, mem_cons_iff_of_lt (h.lt x hx.mem_ids)]
  exact hx.unmarked

theorem splitNewLoop_done (last : Nat) (rounds : Nat) : ∀ (start : Nat) (a : AddState)
    (m : Nat → Option Attrs), last + 1 - start ≤ rounds → a.Fine s0 →
    Represents (a.pieces p attrs s0) m → (∀ x, start ≤ x ∧ x ≤ last → m x = none) →
    AddState.Done al (splitNewLoop p al last rounds start a) a s0 [] p attrs
      (fill m start last (applyAttrs p attrs (defaultAttrs p))) a.remove := by
  induction rounds with
  | zero =>
    intro start a m hrounds hfine hrep hfree
    refine ⟨hfine, fun x _ hx => hx, fun _ => hrep.congr fun x => ?_, fun _ => rfl, fun _ => rfl⟩
    rw [fill, if_neg (by omega)]
  | succ rounds ih =>
    intro start a m hrounds hfine hrep hfree
    unfold splitNewLoop
    split
    · next hlt =>
      refine ⟨hfine, fun x _ hx => hx, fun _ => hrep.congr fun x => ?_, fun _ => rfl, fun _ => rfl⟩
      rw [fill, if_neg (by omega)]
    · next hle =>
      simp only
      generalize hl : min last (alignDown (start + p.maxSvmRangePages) p.maxSvmRangePages - 1) = l
      have halign := lt_alignDown (p := p) start
      have hstart : start ≤ l := by omega
      have hlast : l ≤ last := by omega
      split
      · next hfail =>
        exact .failed hfine (fun x _ hx => hx) (by simp) fun hall => by
          rw [(hall _).1] at hfail
          cases hfail
      · obtain ⟨hfine', hnew⟩ := hfine.addNew (r := svmRangeNew p start l) hrep hstart
          (fun x hx => hfree x ⟨hx.1, hx.2.trans hlast⟩) rfl
        have hrep' : Represents _ (fill m start l (applyAttrs p attrs (defaultAttrs p))) := hnew
        have hrest := ih (l + 1) _ _ (by omega) hfine' hrep' fun x hx => by
          rw [fill, if_neg (by omega)]
          exact hfree x ⟨by omega, hx.2⟩
        refine ⟨hrest.fine, fun x hx hun => hrest.unvisited x hx (hun.of_marked hfine rfl rfl),
          fun hnone => (hrest.rep hnone).congr fun x => ?_, hrest.remove_eq, hrest.total⟩
        simp only [fill]
        split
        · split
          · rfl
          · rw [if_pos (by omega)]
        · rw [if_neg (by omega), if_neg (by omega)]

theorem svmRangeSplitNew_done {start last : Nat} (h : a.Fine s0)
    (hrep : Represents (a.pieces p attrs s0) m)
    (hfree : ∀ x, start ≤ x ∧ x ≤ last → m x = none) :
    AddState.Done al (svmRangeSplitNew p al start last a) a s0 [] p attrs
      (fill m start last (applyAttrs p attrs (defaultAttrs p))) a.remove :=
  splitNewLoop_done last _ start a m (le_refl _) h hrep hfree

variable {q : Piece Attrs} {ps : List (Piece Attrs)} {mid : Nat} {v : Attrs}

theorem cut_head (h : Represents (q :: ps) m) (hlo : q.lo < mid) (hhi : mid ≤ q.hi) :
    Represents ({ q with lo := mid } :: { lo := q.lo, hi := mid - 1, val := v } :: ps)
      (fill m q.lo (mid - 1) v) :=
  ((h.split hlo hhi).setVal v).perm (.swap ..)

theorem cut_tail (h : Represents (q :: ps) m) (hlo : q.lo ≤ mid) (hhi : mid < q.hi) :
    Represents ({ q with hi := mid } :: { lo := mid + 1, hi := q.hi, val := v } :: ps)
      (fill m (mid + 1) q.hi v) := by
  have hsplit := h.split (Nat.lt_succ_of_le hlo) hhi
  exact ((hsplit.perm (.swap ..)).setVal v).perm (.swap ..)

variable {r : Range}

theorem svmRangeSplitHead_done (al : Alloc) {id newStart : Nat} (h : a.Fine s0)
    (hrep : Represents (a.pieces p attrs s0) m) (hid : id ∈ a.update) (hmade : s0.next ≤ id)
    (hr : a.svms.heap id = r) (hlo : r.start < newStart) (hhi : newStart ≤ r.last) :
    AddState.Done al (svmRangeSplitHead p al id newStart a) a s0 [] p attrs
      (fill m r.start (newStart - 1) r.attrs) a.remove ∧
    (svmRangeSplitHead p al id newStart a).1.update = a.update ∧
    ((svmRangeSplitHead p al id newStart a).2 = none →
      ((svmRangeSplitHead p al id newStart a).1.svms.heap id).piece =
        { r.piece with lo := newStart }) := by
  have hidLt := h.lt id (h.update_sub id hid).1
  unfold svmRangeSplitHead
  simp only [hr]
  rcases svmRangeSplit_cases p (al.new a.svms.next) (al.dma a.svms.next) r newStart r.last with
    hcase | ⟨e, hcase, hfail⟩
  · rw [hcase, svmRangeSplit_head hlo hhi]
    simp only
    generalize hsp : splitAdjust (svmRangeNew p r.start (newStart - 1)) r newStart r.last = sp
    have hcut : ∀ ps, Represents ({ r.piece with val := applyAttrs p attrs r.attrs } :: ps) m →
        Represents ({ sp.1.piece with val := applyAttrs p attrs sp.1.attrs } :: sp.2.piece :: ps)
          (fill m r.start (newStart - 1) r.attrs) := by
      intro ps hps
      subst hsp
      exact cut_head hps hlo hhi
    obtain ⟨hfine, hrep'⟩ := h.cut hid hmade hr rfl hcut hrep
    refine ⟨⟨hfine, fun x _ hx => ⟨hx.mem, hx.keep, hx.unmarked⟩, fun _ => hrep', fun _ => rfl,
      fun _ => rfl⟩, trivial, fun _ => ?_⟩
    rw [Svms.push_heap_of_lt (s := a.svms.write id sp.1) hidLt, Svms.write_heap_self, ← hsp]
    rfl
  · rw [hcase]
    exact ⟨.failed h (fun x _ hx => hx) (by simp) fun hall => hfail (hall _), rfl,
      fun hnone => nomatch hnone⟩

theorem svmRangeSplitTail_done (al : Alloc) {id newLast : Nat} (h : a.Fine s0)
    (hrep : Represents (a.pieces p attrs s0) m) (hid : id ∈ a.update) (hmade : s0.next ≤ id)
    (hr : a.svms.heap id = r) (hlo : r.start ≤ newLast) (hhi : newLast < r.last) :
    AddState.Done al (svmRangeSplitTail p al id newLast a) a s0 [] p attrs
      (fill m (newLast + 1) r.last r.attrs) a.remove := by
  unfold svmRangeSplitTail
  simp only [hr]
  rcases svmRangeSplit_cases p (al.new a.svms.next) (al.dma a.svms.next) r r.start newLast with
    hcase | ⟨e, hcase, hfail⟩
  · rw [hcase, svmRangeSplit_tail hlo hhi]
    simp only
    generalize hsp : splitAdjust (svmRangeNew p (newLast + 1) r.last) r r.start newLast = sp
    have hcut : ∀ ps, Represents ({ r.piece with val := applyAttrs p attrs r.attrs } :: ps) m →
        Represents ({ sp.1.piece with val := applyAttrs p attrs sp.1.attrs } :: sp.2.piece :: ps)
          (fill m (newLast + 1) r.last r.attrs) := by
      intro ps hps
      subst hsp
      exact cut_tail hps hlo hhi
    obtain ⟨hfine, hrep'⟩ := h.cut hid hmade hr rfl hcut hrep
    exact ⟨hfine, fun x _ hx => ⟨hx.mem, hx.keep, hx.unmarked⟩, fun _ => hrep', fun _ => rfl,
      fun _ => rfl⟩
  · rw [hcase]
    exact .failed h (fun x _ hx => hx) (by simp) fun hall => hfail (hall _)

theorem replaceHead_done (al : Alloc) {start id : Nat} (h : a.Fine s0)
    (hrep : Represents (a.pieces p attrs s0) (fill m r.start r.last (applyAttrs p attrs r.attrs)))
    (hid : id ∈ a.update) (hmade : s0.next ≤ id) (hheap : (a.svms.heap id).piece = r.piece)
    (hle : start ≤ r.last) (hval : ∀ x, r.start ≤ x ∧ x ≤ r.last → m x = some r.attrs)
    {ret : AddState × Option Errno}
    (hret : ret = if r.start < start then svmRangeSplitHead p al id start a else (a, none)) :
    AddState.Done al ret a s0 [] p attrs
      (fill m (max start r.start) r.last (applyAttrs p attrs r.attrs)) a.remove ∧
    ret.1.update = a.update ∧
    (ret.2 = none → (ret.1.svms.heap id).piece = { r.piece with lo := max start r.start }) := by
  subst hret
  split
  · next hlt =>
    have hstart : (a.svms.heap id).start = r.start := congrArg Piece.lo hheap
    have hlast : (a.svms.heap id).last = r.last := congrArg Piece.hi hheap
    have hattrs : (a.svms.heap id).attrs = r.attrs := congrArg Piece.val hheap
    obtain ⟨hdone, hupdate, hpiece⟩ := svmRangeSplitHead_done al h hrep hid hmade rfl
      (by omega) (by omega : start ≤ _)
    refine ⟨⟨hdone.fine, hdone.unvisited, fun hnone => (hdone.rep hnone).congr fun x => ?_,
      hdone.remove_eq, hdone.total⟩, hupdate, fun hnone => ?_⟩
    · rw [hstart, hattrs]
      simp only [fill]
      split
      · rw [if_neg (by omega), if_pos (by omega)]
      · split
        · next hx => exact (hval x (by omega)).symm ▸ rfl
        · rw [if_neg (by omega)]
    · rw [hpiece hnone, hheap, Nat.max_eq_left (by omega)]
  · next hge =>
    refine ⟨⟨h, fun x _ hx => hx, fun _ => hrep.congr fun x => ?_, fun _ => rfl,
      fun _ => rfl⟩, rfl, fun _ => ?_⟩
    · rw [Nat.max_eq_right (by omega)]
    · rw [hheap, Nat.max_eq_right (by omega)]
      rfl

theorem replaceTail_done (al : Alloc) {last id lo : Nat} (h : a.Fine s0)
    (hrep : Represents (a.pieces p attrs s0) (fill m lo r.last (applyAttrs p attrs r.attrs)))
    (hid : id ∈ a.update) (hmade : s0.next ≤ id)
    (hheap : (a.svms.heap id).piece = { r.piece with lo := lo }) (hlo : lo ≤ last)
    (hval : ∀ x, lo ≤ x ∧ x ≤ r.last → m x = some r.attrs) :
    AddState.Done al
      (if last < r.last then svmRangeSplitTail p al id last a else (a, none)) a s0 [] p attrs
      (fill m lo (min r.last last) (applyAttrs p attrs r.attrs)) a.remove := by
  have hstart : (a.svms.heap id).start = lo := congrArg Piece.lo hheap
  have hlast : (a.svms.heap id).last = r.last := congrArg Piece.hi hheap
  have hattrs : (a.svms.heap id).attrs = r.attrs := congrArg Piece.val hheap
  split
  · next hlt =>
    have hdone := svmRangeSplitTail_done al h hrep hid hmade rfl (by omega)
      (by omega : last < _)
    refine ⟨hdone.fine, hdone.unvisited, fun hnone => (hdone.rep hnone).congr fun x => ?_,
      hdone.remove_eq, hdone.total⟩
    rw [hlast, hattrs]
    simp only [fill]
    split
    · rw [if_neg (by omega), if_pos (by omega)]
    · split
      · next hx => exact hval x (by omega)
      · rw [if_neg (by omega)]
  · next hge =>
    exact ⟨h, fun x _ hx => hx, fun _ => hrep.congr fun x => by
      rw [min_eq_left (by omega)], fun _ => rfl, fun _ => rfl⟩

variable {start last node : Nat}

theorem replaceNode_done (h : a.Fine s0) (hrep : Represents (a.pieces p attrs s0) m)
    (hnode : a.Unvisited s0 node) (hr : a.svms.heap node = r)
    (hit : r.itStart = r.start ∧ r.itLast = r.last) (hlo : start ≤ r.last) (hhi : r.start ≤ last)
    (hle : start ≤ last) (hval : ∀ x, r.start ≤ x ∧ x ≤ r.last → m x = some r.attrs) :
    AddState.Done al (replaceNode p al start last node a) a s0 [node] p attrs
      (fill m (max start r.start) (min r.last last) (applyAttrs p attrs r.attrs))
      (node :: a.remove) := by
  unfold replaceNode
  simp only [hr, hit.1, hit.2]
  split
  · next hfail =>
    refine .failed h (fun x _ hx => hx) (by simp) fun hall => ?_
    obtain ⟨hnew, hdma⟩ := hall a.svms.next
    rcases hfail with hfail | hfail
    · rw [hnew] at hfail
      cases hfail
    · rw [hdma] at hfail
      cases hfail
  · generalize ha1 : ({ a with
      svms := a.svms.push (svmRangeClone p r)
      remove := node :: a.remove
      insert := a.svms.next :: a.insert
      update := a.svms.next :: a.update } : AddState) = a1
    obtain ⟨hfine1, hrep1⟩ := h.replace hnode hrep hr (c := svmRangeClone p r) rfl ha1.symm
    have hun1 : ∀ x, x ∉ [node] → a.Unvisited s0 x → a1.Unvisited s0 x := by
      intro x hx hun
      subst ha1
      refine ⟨hun.mem, ?_, ?_⟩
      · intro hrem
        rcases mem_cons.mp hrem with heq | hrem
        · exact hx (by rw [heq]; exact mem_cons_self)
        · exact hun.keep hrem
      · rw [mem_cons_iff_of_lt (h.lt x hun.mem_ids)]
        exact hun.unmarked
    have hmark : a.svms.next ∈ a1.update := by rw [← ha1]; exact mem_cons_self
    have hheap1 : (a1.svms.heap a.svms.next).piece = r.piece := by
      rw [← ha1, Svms.push_heap_next]
      rfl
    have hremove1 : a1.remove = node :: a.remove := by rw [← ha1]
    -- The head, if there is one, then the tail of what it leaves.
    generalize hr2 : (if r.start < start then svmRangeSplitHead p al a.svms.next start a1
      else (a1, none)) = r2
    obtain ⟨hdone2, hupdate2, hpiece2⟩ := replaceHead_done al hfine1 hrep1 hmark h.next_le
      hheap1 hlo hval hr2.symm
    have hun2 : ∀ x, x ∉ [node] → a.Unvisited s0 x → r2.1.Unvisited s0 x := fun x hx hun =>
      hdone2.unvisited x not_mem_nil (hun1 x hx hun)
    cases hres : r2.2 with
    | some e =>
      exact .failed hdone2.fine hun2 (by simp) fun hall => by
        rw [hdone2.total hall] at hres
        cases hres
    | none =>
      have hdone := replaceTail_done al hdone2.fine (hdone2.rep hres) (hupdate2 ▸ hmark)
        h.next_le (hpiece2 hres) (by omega : max start r.start ≤ last)
        fun x hx => hval x (by omega)
      exact ⟨hdone.fine, fun x hx hun => hdone.unvisited x not_mem_nil (hun2 x hx hun),
        hdone.rep,
        fun hnone => (hdone.remove_eq hnone).trans ((hdone2.remove_eq hres).trans hremove1),
        hdone.total⟩

/-- A range that an update of `[start, last]` replaces: it overlaps the interval
and sticks out of it, and its attributes change or it is not mapped. -/
def Replaces (p : Process) (attrs : List Attribute) (start last : Nat) (r : Range) : Prop :=
  start ≤ r.last ∧ r.start ≤ last ∧
    ¬(svmRangeIsSameAttrs p r.attrs attrs = true ∧ r.mappedToGpu = true) ∧
    (r.start < start ∨ last < r.last)
  deriving Decidable

theorem addNode_done (h : a.Fine s0) (hrep : Represents (a.pieces p attrs s0) m)
    (hnode : a.Unvisited s0 node) (hr : a.svms.heap node = r)
    (hit : r.itStart = r.start ∧ r.itLast = r.last) (hlo : start ≤ r.last) (hhi : r.start ≤ last)
    (hle : start ≤ last) (hval : ∀ x, r.start ≤ x ∧ x ≤ r.last → m x = some r.attrs) :
    AddState.Done al (addNode p al attrs start last node a) a s0 [node] p attrs
      (fill m (max start r.start) (min r.last last) (applyAttrs p attrs r.attrs))
      (if Replaces p attrs start last r then node :: a.remove else a.remove) := by
  unfold addNode
  simp only [hr, hit.1, hit.2]
  split
  · next hsame =>
    -- Nothing would change.
    rw [if_neg fun hrepl => hrepl.2.2.1 hsame]
    refine ⟨h, fun x _ hx => hx, fun _ => hrep.congr fun x => ?_, fun _ => rfl, fun _ => rfl⟩
    rw [applyAttrs_eq_of_isSameAttrs hsame.1, fill]
    split
    · exact (hval x (by omega)).symm
    · rfl
  · next hdiff =>
    split
    · next hout =>
      rw [if_pos ⟨hlo, hhi, hdiff, hout⟩]
      exact replaceNode_done h hrep hnode hr hit hlo hhi hle hval
    · next hin =>
      rw [if_neg fun hrepl => hin hrepl.2.2.2]
      obtain ⟨hfine, hmark⟩ := h.mark hnode hrep rfl hr
      refine ⟨hfine, fun x hx hun => ⟨hun.mem, hun.keep, fun hu => ?_⟩, fun _ => ?_,
        fun _ => rfl, fun _ => rfl⟩
      · rcases mem_cons.mp hu with heq | hu
        · exact hx (by rw [heq]; exact mem_cons_self)
        · exact hun.unmarked hu
      · rw [Nat.max_eq_right (by omega), min_eq_left (by omega)]
        exact hmark

theorem addRound_done (h : a.Fine s0) (hrep : Represents (a.pieces p attrs s0) m)
    (hnode : a.Unvisited s0 node) (hr : a.svms.heap node = r)
    (hit : r.itStart = r.start ∧ r.itLast = r.last) (hlo : start ≤ r.last) (hhi : r.start ≤ last)
    (hle : start ≤ last) (hne : r.start ≤ r.last)
    (hval : ∀ x, r.start ≤ x ∧ x ≤ r.last → m x = some r.attrs)
    (hfree : ∀ x, start ≤ x ∧ x < r.start → m x = none) :
    AddState.Done al (addRound p al attrs start last node a) a s0 [node] p attrs
      (modifyOn (applyAttrs p attrs) (defaultAttrs p) m start (min r.last last + 1))
      (if Replaces p attrs start last r then node :: a.remove else a.remove) := by
  have hdone : AddState.Done al (addNode p al attrs start last node a) a s0 [node] p attrs _ _ :=
    addNode_done h hrep hnode hr hit hlo hhi hle hval
  unfold addRound
  simp only [hr, hit.1]
  cases hres : (addNode p al attrs start last node a).2 with
  | some e =>
    exact .failed hdone.fine hdone.unvisited (by simp) fun hall => by
      rw [hdone.total hall] at hres
      cases hres
  | none =>
    have hrep' := hdone.rep hres
    simp only
    split
    · next hlt =>
      have hnew :
          AddState.Done al (svmRangeSplitNew p al start (r.start - 1) _) _ s0 [] p attrs _ _ :=
        svmRangeSplitNew_done hdone.fine hrep' fun x hx => by
          rw [fill, if_neg (by omega)]
          exact hfree x (by omega)
      refine ⟨hnew.fine, fun x hx hun => hnew.unvisited x not_mem_nil
        (hdone.unvisited x hx hun), fun hnone => (hnew.rep hnone).congr fun x => ?_,
        fun hnone => (hnew.remove_eq hnone).trans (hdone.remove_eq hres), hnew.total⟩
      unfold modifyOn fill
      by_cases hgap : start ≤ x ∧ x ≤ r.start - 1
      · rw [if_pos hgap, if_pos (by omega), hfree x (by omega)]
        rfl
      · rw [if_neg hgap]
        by_cases hin : max start r.start ≤ x ∧ x ≤ min r.last last
        · rw [if_pos hin, if_pos (by omega), hval x (by omega)]
          rfl
        · rw [if_neg hin, if_neg (by omega)]
    · next hge =>
      refine ⟨hdone.fine, hdone.unvisited, fun _ => hrep'.congr fun x => ?_,
        fun _ => hdone.remove_eq hres, fun _ => rfl⟩
      simp only [fill, modifyOn]
      split
      · rw [if_pos (by omega), hval x (by omega)]; rfl
      · rw [if_neg (by omega)]

end Functions

/-! ### The loop -/

/-- The state of the loop of `svm_range_add` before the nodes `nodes`. The
pieces stand for the map updated up to `start`; the old ranges that are not to
come have nothing in the rest of the interval, and those of them that the update
replaces are on the list of ranges to remove. -/
structure LoopInv (p : Process) (attrs : List Attribute) (s0 : Svms) (m0 : Nat → Option Attrs)
    (start0 last : Nat) (nodes : List Nat) (iterStart start : Nat) (a : AddState) : Prop where
  fine : a.Fine s0
  rep : Represents (a.pieces p attrs s0)
    (modifyOn (applyAttrs p attrs) (defaultAttrs p) m0 start0 start)
  unvisited : ∀ node ∈ nodes, a.Unvisited s0 node
  nodup : nodes.Nodup
  sorted : nodes.Pairwise fun x y => (s0.heap x).start ≤ (s0.heap y).start
  start_le : start0 ≤ start
  le_last : start ≤ last + 1
  iter_le : iterStart ≤ start
  ahead : ∀ node ∈ nodes, (iterStart = start ∧ start = start0) ∨ start ≤ (s0.heap node).start
  past : ∀ id ∈ s0.list, id ∉ nodes → ∀ x, start ≤ x → x ≤ last → ¬(s0.heap id).piece.Covers x
  removed : ∀ id, id ∈ a.remove ↔
    id ∈ s0.list ∧ id ∉ nodes ∧ Replaces p attrs start0 last (s0.heap id)

section Loop
variable {m0 : Nat → Option Attrs} {start0 last iterStart start node : Nat} {nodes : List Nat}
  {a : AddState}

theorem LoopInv.skip (hok : s0.Ok m0)
    (h : LoopInv p attrs s0 m0 start0 last (node :: nodes) iterStart start a)
    (hout : ¬(iterStart ≤ (s0.heap node).last ∧ (s0.heap node).start ≤ last)) :
    LoopInv p attrs s0 m0 start0 last nodes iterStart start a := by
  refine ⟨h.fine, h.rep, fun x hx => h.unvisited x (mem_cons_of_mem _ hx),
    (nodup_cons.mp h.nodup).2, (pairwise_cons.mp h.sorted).2, h.start_le, h.le_last,
    h.iter_le, fun x hx => h.ahead x (mem_cons_of_mem _ hx), ?_, fun id => ?_⟩
  · intro id hid hnot x hstart hlast hcovers
    by_cases heq : id = node
    · subst heq
      have := h.iter_le
      obtain ⟨h1, h2⟩ := hcovers
      simp only [Range.piece] at h1 h2
      exact hout ⟨by omega, by omega⟩
    · refine h.past id hid (fun hmem => ?_) x hstart hlast hcovers
      rcases mem_cons.mp hmem with heq' | hmem
      · exact heq heq'
      · exact hnot hmem
  · -- The node does not overlap the whole interval either.
    have hnot : ¬Replaces p attrs start0 last (s0.heap node) := by
      rintro ⟨hlo, hhi, -⟩
      have hnonempty : (s0.heap node).start ≤ (s0.heap node).last :=
        hok.represents.nonempty _
          (mem_map_of_mem (h.unvisited node mem_cons_self).mem)
      have hiter := h.iter_le
      rcases h.ahead node mem_cons_self with ⟨heq, hstart⟩ | hge
      · exact hout ⟨by omega, hhi⟩
      · exact hout ⟨by omega, hhi⟩
    rw [h.removed id, mem_cons, not_or]
    constructor
    · rintro ⟨hid, ⟨-, hidnot⟩, hrepl⟩
      exact ⟨hid, hidnot, hrepl⟩
    · rintro ⟨hid, hidnot, hrepl⟩
      refine ⟨hid, ⟨fun heq => ?_, hidnot⟩, hrepl⟩
      subst heq
      exact hnot hrepl

section
variable (hrep : Represents (s0.list.map fun id => (s0.heap id).piece) m0)
include hrep

theorem LoopInv.free (h : LoopInv p attrs s0 m0 start0 last (node :: nodes) iterStart start a)
    (hlast : (s0.heap node).start ≤ last) {x : Nat} (hx : start ≤ x ∧ x < (s0.heap node).start) :
    m0 x = none := by
  refine hrep.eq_none fun q hq => ?_
  obtain ⟨id, hid, rfl⟩ := mem_map.mp hq
  by_cases hmem : id ∈ node :: nodes
  · intro hcovers
    have hlo : (s0.heap id).start ≤ x := hcovers.1
    rcases mem_cons.mp hmem with rfl | hmem
    · omega
    · have := (pairwise_cons.mp h.sorted).1 id hmem
      omega
  · exact h.past id hid hmem x hx.1 (by omega)

theorem Svms.apart_of_ne {x y : Nat} (hx : x ∈ s0.list) (hy : y ∈ s0.list) (hne : x ≠ y) :
    (s0.heap x).piece.Apart (s0.heap y).piece := by
  have hdisjoint := pairwise_map.mp hrep.disjoint
  have : Std.Symm fun x y => (s0.heap x).piece.Apart (s0.heap y).piece :=
    ⟨fun _ _ h => h.symm⟩
  exact hdisjoint.forall hx hy hne

theorem start_gt_of_sorted {x y : Nat} (hx : x ∈ s0.list) (hy : y ∈ s0.list) (hne : x ≠ y)
    (hle : (s0.heap x).start ≤ (s0.heap y).start) : (s0.heap x).last < (s0.heap y).start := by
  have hapart := Svms.apart_of_ne hrep hx hy hne
  have hnonempty : (s0.heap y).start ≤ (s0.heap y).last :=
    hrep.nonempty _ (mem_map_of_mem hy)
  rcases hapart with hapart | hapart
  · exact hapart
  · simp only [Range.piece] at hapart
    omega

end

theorem LoopInv.overlap (hok : s0.Ok m0) (hle : start0 ≤ last)
    (h : LoopInv p attrs s0 m0 start0 last (node :: nodes) iterStart start a)
    (hov : iterStart ≤ (s0.heap node).last ∧ (s0.heap node).start ≤ last) :
    (s0.heap node).start ≤ (s0.heap node).last ∧ start ≤ (s0.heap node).last ∧ start ≤ last ∧
      (start = start0 ∨ start ≤ (s0.heap node).start) := by
  have hmem := (h.unvisited node mem_cons_self).mem
  have hnonempty : (s0.heap node).start ≤ (s0.heap node).last :=
    hok.represents.nonempty _ (mem_map_of_mem hmem)
  rcases h.ahead node mem_cons_self with ⟨hiter, hstart⟩ | hge
  · exact ⟨hnonempty, hiter ▸ hov.1, hstart ▸ hle, .inl hstart⟩
  · exact ⟨hnonempty, hge.trans hnonempty, hge.trans hov.2, .inr hge⟩

theorem LoopInv.round (hok : s0.Ok m0) (hle : start0 ≤ last)
    (h : LoopInv p attrs s0 m0 start0 last (node :: nodes) iterStart start a)
    (hov : iterStart ≤ (s0.heap node).last ∧ (s0.heap node).start ≤ last) :
    AddState.Done al (addRound p al attrs start last node a) a s0 [node] p attrs
      (modifyOn (applyAttrs p attrs) (defaultAttrs p) m0 start0
        (min (s0.heap node).last last + 1))
      (if Replaces p attrs start0 last (s0.heap node) then node :: a.remove else a.remove) := by
  obtain ⟨hnonempty, hlow, hlast, hcase⟩ := h.overlap hok hle hov
  have hstart0 := h.start_le
  have hnode := h.unvisited node mem_cons_self
  have hheap := h.fine.heap node (hok.fresh node hnode.mem)
  have hval0 : ∀ x, (s0.heap node).start ≤ x ∧ x ≤ (s0.heap node).last →
      m0 x = some (s0.heap node).attrs := fun x hx =>
    hok.represents.eq_some (mem_map_of_mem hnode.mem) hx
  have hfree0 : ∀ x, start ≤ x ∧ x < (s0.heap node).start → m0 x = none := fun x hx =>
    h.free hok.represents hov.2 hx
  have hsame : Replaces p attrs start last (s0.heap node) ↔
      Replaces p attrs start0 last (s0.heap node) := by
    unfold Replaces
    have hlow0 : start0 ≤ (s0.heap node).last := hstart0.trans hlow
    have hedge : (s0.heap node).start < start ↔ (s0.heap node).start < start0 := by omega
    simp only [hlow, hlow0, hedge]
  have hdone : AddState.Done al (addRound p al attrs start last node a) a s0 [node] p attrs _ _ :=
    addRound_done h.fine h.rep hnode hheap (hok.node node hnode.mem) hlow hov.2 hlast hnonempty
      (fun x hx => by rw [modifyOn, if_neg (by omega), hval0 x hx])
      (fun x hx => by rw [modifyOn, if_neg (by omega), hfree0 x hx])
  simp only [hsame] at hdone
  refine ⟨hdone.fine, hdone.unvisited, fun hnone => (hdone.rep hnone).congr fun x => ?_,
    hdone.remove_eq, hdone.total⟩
  unfold modifyOn
  by_cases hbefore : start0 ≤ x ∧ x < start
  · rw [if_pos (by omega), if_neg (by omega), if_pos hbefore]
  · rw [if_neg hbefore]
    by_cases hin : start ≤ x ∧ x < min (s0.heap node).last last + 1
    · rw [if_pos hin, if_pos (by omega)]
    · rw [if_neg hin, if_neg (by omega)]

theorem LoopInv.next (hok : s0.Ok m0) (hle : start0 ≤ last)
    (h : LoopInv p attrs s0 m0 start0 last (node :: nodes) iterStart start a)
    (hov : iterStart ≤ (s0.heap node).last ∧ (s0.heap node).start ≤ last)
    {r : AddState × Option Errno} {m : Nat → Option Attrs} {remove : List Nat}
    (hdone : AddState.Done al r a s0 [node] p attrs m remove)
    (hremove : r.1.remove =
      if Replaces p attrs start0 last (s0.heap node) then node :: a.remove else a.remove)
    (hrep : Represents (r.1.pieces p attrs s0)
      (modifyOn (applyAttrs p attrs) (defaultAttrs p) m0 start0
        (min (s0.heap node).last last + 1))) :
    LoopInv p attrs s0 m0 start0 last nodes start (min (s0.heap node).last last + 1) r.1 := by
  obtain ⟨hnonempty, hlow, hlast, hcase⟩ := h.overlap hok hle hov
  have hstart0 := h.start_le
  have hmem := (h.unvisited node mem_cons_self).mem
  obtain ⟨hnot, hnodup⟩ := nodup_cons.mp h.nodup
  obtain ⟨hsorted, hsorted'⟩ := pairwise_cons.mp h.sorted
  refine ⟨hdone.fine, hrep, fun x hx => ?_, hnodup, hsorted', by omega, by omega, by omega,
    fun x hx => ?_, fun id hid hidnot x hge hxlast hcovers => ?_, fun id => ?_⟩
  · refine hdone.unvisited x (fun hx' => ?_) (h.unvisited x (mem_cons_of_mem _ hx))
    exact hnot (mem_singleton.mp hx' ▸ hx)
  · have hxmem := (h.unvisited x (mem_cons_of_mem _ hx)).mem
    have hne : node ≠ x := fun heq => hnot (heq ▸ hx)
    have := start_gt_of_sorted hok.represents hmem hxmem hne (hsorted x hx)
    exact .inr (by omega)
  · by_cases heq : id = node
    · subst heq
      have hhi : x ≤ (s0.heap id).last := hcovers.2
      omega
    · refine h.past id hid (fun hid' => ?_) x (by omega) hxlast hcovers
      rcases mem_cons.mp hid' with heq' | hid'
      · exact heq heq'
      · exact hidnot hid'
  · have hold := h.removed id
    rw [mem_cons, not_or] at hold
    by_cases heq : id = node
    · subst heq
      rw [hremove]
      split
      · next hrepl => exact ⟨fun _ => ⟨hmem, hnot, hrepl⟩, fun _ => mem_cons_self⟩
      · next hrepl =>
        exact ⟨fun hrem => absurd rfl (hold.mp hrem).2.1.1, fun h => absurd h.2.2 hrepl⟩
    · have hiff : id ∈ r.1.remove ↔ id ∈ a.remove := by
        rw [hremove]
        split
        · rw [mem_cons, or_iff_right heq]
        · rfl
      rw [hiff, hold]
      simp only [heq, not_false_eq_true, true_and]

theorem addLoop_inv (p : Process) (al : Alloc) (attrs : List Attribute) (hok : s0.Ok m0)
    (hle : start0 ≤ last) : ∀ (nodes : List Nat) (iterStart start : Nat) (a : AddState),
    LoopInv p attrs s0 m0 start0 last nodes iterStart start a →
    let r := addLoop p al attrs last nodes iterStart start a
    r.1.Fine s0 ∧ (al.AllOk → r.2.2 = none) ∧ (r.2.2 = none →
      ∃ iterStart', LoopInv p attrs s0 m0 start0 last [] iterStart' r.2.1 r.1) := by
  intro nodes
  induction nodes with
  | nil => exact fun iterStart start a h => ⟨h.fine, fun _ => rfl, fun _ => ⟨iterStart, h⟩⟩
  | cons node nodes ih =>
    intro iterStart start a h
    have hnode := h.unvisited node mem_cons_self
    have hmem : node ∈ s0.list := hnode.mem
    have hheap : a.svms.heap node = s0.heap node := h.fine.heap node (hok.fresh node hmem)
    have hit := hok.node node hmem
    unfold addLoop
    simp only [hheap, hit.1, hit.2]
    split
    · next hov =>
      have hdone : AddState.Done al (addRound p al attrs start last node a) a s0 [node] p attrs
        _ _ := h.round hok hle hov
      cases hres : (addRound p al attrs start last node a).2 with
      | some e =>
        refine ⟨hdone.fine, fun hall => ?_, fun hnone => nomatch hnone⟩
        rw [hdone.total hall] at hres
        cases hres
      | none =>
        exact ih _ _ _ (h.next hok hle hov hdone (hdone.remove_eq hres) (hdone.rep hres))
    · next hout => exact ih iterStart start a (h.skip hok hout)

theorem LoopInv.init (hok : s0.Ok m0) (hle : start0 ≤ last) :
    LoopInv p attrs s0 m0 start0 last s0.tree start0 start0
      { svms := s0, insert := [], news := [], update := [], remove := [], remap := [] } := by
  refine ⟨.init hok.toLinked, ?_, fun x hx => ?_, ?_, ?_, le_refl _, by omega, le_refl _,
    fun _ _ => .inl ⟨rfl, rfl⟩, ?_, fun id => ?_⟩
  · have hpieces : AddState.pieces
        { svms := s0, insert := [], news := [], update := [], remove := [], remap := [] }
        p attrs s0 =
        s0.list.map fun id => (s0.heap id).piece := by
      simp [AddState.pieces, AddState.ids, AddState.piece]
    rw [hpieces]
    refine hok.represents.congr fun x => ?_
    rw [modifyOn, if_neg (by omega)]
  · exact ⟨hok.perm.mem_iff.mpr hx, not_mem_nil, not_mem_nil⟩
  · exact hok.perm.nodup_iff.mp hok.nodup
  · refine hok.sorted.imp_of_mem fun {x y} hx hy hxy => ?_
    rw [(hok.node x (hok.perm.mem_iff.mpr hx)).1, (hok.node y (hok.perm.mem_iff.mpr hy)).1] at hxy
    exact hxy
  · intro id hid hnot
    exact absurd (hok.perm.mem_iff.mp hid) hnot
  · refine ⟨fun hrem => absurd hrem not_mem_nil, fun h => ?_⟩
    exact absurd (hok.perm.mem_iff.mp h.1) h.2.1

theorem svmRangeAdd_spec (hok : s0.Ok m0) (hle : start0 ≤ last) :
    (svmRangeAdd p al attrs start0 last s0).1.Fine s0 ∧
    (al.AllOk → (svmRangeAdd p al attrs start0 last s0).2 = none) ∧
    ((svmRangeAdd p al attrs start0 last s0).2 = none →
      (svmRangeAdd p al attrs start0 last s0).1.news = [] ∧
      (∀ id, id ∈ (svmRangeAdd p al attrs start0 last s0).1.remove ↔
        id ∈ s0.list ∧ Replaces p attrs start0 last (s0.heap id)) ∧
      Represents ((svmRangeAdd p al attrs start0 last s0).1.pieces p attrs s0)
        (modifyOn (applyAttrs p attrs) (defaultAttrs p) m0 start0 (last + 1))) := by
  obtain ⟨hfine, htotal, hloop⟩ :=
    addLoop_inv p al attrs hok hle s0.tree start0 start0 _ (.init hok hle)
  unfold svmRangeAdd
  simp only
  generalize addLoop p al attrs last s0.tree start0 start0 _ = r at hfine htotal hloop
  cases hres : r.2.2 with
  | some e =>
    refine ⟨hfine, fun hall => ?_, fun hnone => nomatch hnone⟩
    rw [htotal hall] at hres
    cases hres
  | none =>
    obtain ⟨iterStart, hinv⟩ := hloop hres
    simp only
    generalize hr2 : (if r.2.1 ≤ last then svmRangeSplitNew p al r.2.1 last r.1
      else (r.1, none)) = r2
    have hdone : AddState.Done al r2 r.1 s0 [] p attrs
        (modifyOn (applyAttrs p attrs) (defaultAttrs p) m0 start0 (last + 1)) r.1.remove := by
      have hstart0 := hinv.start_le
      have hle' := hinv.le_last
      subst hr2
      split
      · next hgap =>
        have hfree : ∀ x, r.2.1 ≤ x ∧ x ≤ last → m0 x = none := by
          intro x hx
          refine hok.represents.eq_none fun q hq => ?_
          obtain ⟨id, hid, rfl⟩ := mem_map.mp hq
          exact hinv.past id hid not_mem_nil x hx.1 hx.2
        have hdone :
            AddState.Done al (svmRangeSplitNew p al r.2.1 last r.1) r.1 s0 [] p attrs _ _ :=
          svmRangeSplitNew_done hinv.fine hinv.rep fun x hx => by
            rw [modifyOn, if_neg (by omega), hfree x hx]
        refine ⟨hdone.fine, hdone.unvisited, fun hnone => (hdone.rep hnone).congr fun x => ?_,
          hdone.remove_eq, hdone.total⟩
        unfold modifyOn fill
        beta_reduce
        by_cases hin : r.2.1 ≤ x ∧ x ≤ last
        · rw [if_pos hin, if_pos (by omega), hfree x hin]
          rfl
        · rw [if_neg hin]
          by_cases hbefore : start0 ≤ x ∧ x < r.2.1
          · rw [if_pos hbefore, if_pos (by omega)]
          · rw [if_neg hbefore, if_neg (by omega)]
      · next hgap =>
        refine ⟨hinv.fine, fun x _ hx => hx, fun _ => ?_, fun _ => rfl, fun _ => rfl⟩
        obtain heq : r.2.1 = last + 1 := by omega
        rw [← heq]
        exact hinv.rep
    cases hres2 : r2.2 with
    | some e =>
      refine ⟨hdone.fine, fun hall => ?_, fun hnone => nomatch hnone⟩
      rw [hdone.total hall] at hres2
      cases hres2
    | none =>
      have hids : AddState.ids { r2.1 with insert := r2.1.news ++ r2.1.insert, news := [] } s0 =
          r2.1.ids s0 := by
        simp [AddState.ids]
      have hf := hdone.fine
      refine ⟨⟨hids ▸ hf.nodup, hids ▸ hf.lt, hf.next_le, hf.made, hf.heap, hf.list, hf.tree,
        hf.remove_sub, hf.remove_nodup, hids ▸ hf.update_sub, hf.update_nodup⟩,
        fun _ => rfl, fun _ => ⟨rfl, fun id => ?_, ?_⟩⟩
      · rw [hdone.remove_eq hres2, hinv.removed id]
        simp only [not_mem_nil, not_false_eq_true, true_and]
      have hpieces : AddState.pieces
          { r2.1 with insert := r2.1.news ++ r2.1.insert, news := [] } p attrs s0 =
          r2.1.pieces p attrs s0 := by
        unfold AddState.pieces
        rw [hids]
        rfl
      rw [hpieces]
      exact hdone.rep hres2

end Loop

end Add

end Amdkfd.Svm
