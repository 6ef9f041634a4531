import Amdkfd.Svm.Split
import Amdkfd.Svm.Transaction
import Amdkfd.Svm.Unmap

/-!
# Splitting off an unmapped interval

`svm_range_unmap_split` takes the pages of an interval from a range. What is left
is the range itself and children of its parent, some of them only to be freed.
-/

namespace Amdkfd.Svm

open Lib Function List

def Range.livePiece (r : Range) : List (Piece Attrs) :=
  if r.workOp = .unmapRange then [] else [r.piece]

def Range.base (r : Range) : Range :=
  { r with children := [] }

theorem Range.livePiece_base (r : Range) : r.base.livePiece = r.livePiece := rfl

theorem Range.bounds_of_base {r r' : Range} (h : r'.base = r.base) :
    r'.start = r.start ∧ r'.last = r.last ∧ r'.workOp = r.workOp := by
  have h1 : r'.base.start = r.base.start := by rw [h]
  have h2 : r'.base.last = r.base.last := by rw [h]
  have h3 : r'.base.workOp = r.base.workOp := by rw [h]
  exact ⟨h1, h2, h3⟩

def Range.adopt (r : Range) (cs : List Nat) : Range :=
  { r with children := r.children ++ cs }

def Range.setWorkOp (r : Range) (op : WorkOp) : Range :=
  { r with workOp := op }

def Range.pageCount (r : Range) : Nat :=
  r.last + 1 - r.start

/-- The range keeps nothing of the interval from `a` to `b`. -/
def Range.Clean (r : Range) (a b : Nat) : Prop :=
  r.workOp = .unmapRange ∨ r.last < a ∨ b < r.start

/-- A range that `svm_range_unmap_split` has split off inside of the interval from
`lo` to `hi`. -/
structure Range.ChildIn (c : Range) (lo hi : Nat) : Prop where
  itStart : c.itStart = 0
  itLast : c.itLast = 0
  children : c.children = []
  workOp : c.workOp = .unmapRange ∨ c.workOp = .addRange
  start_le : lo ≤ c.start
  le : c.start ≤ c.last
  last_le : c.last ≤ hi

/-- The range `r'` is what is left of `r`. -/
structure Range.PartOf (r' r : Range) : Prop where
  itStart : r'.itStart = r.itStart
  itLast : r'.itLast = r.itLast
  notifierStart : r'.notifierStart = r.notifierStart
  notifierLast : r'.notifierLast = r.notifierLast
  start_le : r.start ≤ r'.start
  le : r'.start ≤ r'.last
  last_le : r'.last ≤ r.last

/-- The step from `s` to `s'` takes the pages from `a` to `b` from the range at
`id`; the ranges `news` come to the children of `parent`. A range that is its own
parent and would lose all its pages is left to the caller. -/
structure SplitOff (s s' : Svms) (parent id a b : Nat) (news : List Nat) : Prop where
  list : s'.list = s.list
  tree : s'.tree = s.tree
  next_le : s.next ≤ s'.next
  frame : ∀ y < s.next, y ≠ id → (s'.heap y).base = (s.heap y).base
  children : ∀ y < s.next, (s'.heap y).children =
    if y = parent then (s.heap y).children ++ news else (s.heap y).children
  nodup : news.Nodup
  fresh : ∀ c ∈ news, s.next ≤ c ∧ c < s'.next
  child : ∀ c ∈ news, (s'.heap c).ChildIn (s.heap id).start (s.heap id).last
  part : (s'.heap id).PartOf (s.heap id)
  workOp : (s'.heap id).workOp = (s.heap id).workOp ∨
    id ≠ parent ∧ (s'.heap id).workOp = .unmapRange
  pieces : ¬(id = parent ∧ a ≤ (s.heap id).start ∧ (s.heap id).last ≤ b) →
    ((id :: news).flatMap fun y => (s'.heap y).livePiece).Perm
      ((s.heap id).livePiece.flatMap (Piece.cut · a b))
  whole : id = parent → a ≤ (s.heap id).start → (s.heap id).last ≤ b →
    news = [] ∧ (s'.heap id).livePiece = (s.heap id).livePiece
  shrinks : id = parent → (s.heap id).workOp ≠ .unmapRange → ¬(s.heap id).Clean a b →
    ¬(a ≤ (s.heap id).start ∧ (s.heap id).last ≤ b) →
    (s.heap id).start < (s'.heap id).start ∨ (s'.heap id).last < (s.heap id).last
  size : ((id :: news).map fun y => (s'.heap y).pageCount).sum = (s.heap id).pageCount
  cover : ∀ page, (s.heap id).Has page → ∃ y ∈ id :: news, (s'.heap y).Has page

section UnmapSplit
variable {p : Process} {s : Svms} {parent id a b : Nat}

theorem SplitOff.same (hle : (s.heap id).start ≤ (s.heap id).last)
    (hpieces : ¬(id = parent ∧ a ≤ (s.heap id).start ∧ (s.heap id).last ≤ b) →
      ((s.heap id).livePiece).Perm ((s.heap id).livePiece.flatMap (Piece.cut · a b)))
    (hwhole : ¬(s.heap id).Clean a b → a ≤ (s.heap id).start ∧ (s.heap id).last ≤ b) :
    SplitOff s s parent id a b [] := by
  constructor
  · rfl
  · rfl
  · exact le_refl _
  · exact fun _ _ _ => rfl
  · intro y _
    rw [append_nil, ite_self]
  · exact .nil
  · simp
  · simp
  · exact ⟨rfl, rfl, rfl, rfl, le_refl _, hle, le_refl _⟩
  · exact .inl rfl
  · intro h
    rw [flatMap_singleton]
    exact hpieces h
  · exact fun _ _ _ => ⟨rfl, rfl⟩
  · exact fun _ _ hov hno => absurd (hwhole hov) hno
  · simp
  · exact fun page hpage => ⟨id, mem_cons_self, hpage⟩

theorem SplitOff.refl (hle : (s.heap id).start ≤ (s.heap id).last) (hab : a ≤ b)
    (hclean : (s.heap id).Clean a b) : SplitOff s s parent id a b [] := by
  refine .same hle (fun _ => ?_) fun hov => absurd hclean hov
  unfold Range.livePiece
  split
  · exact .refl _
  · next hlive =>
    have havoid : (s.heap id).piece.hi < a ∨ b < (s.heap id).piece.lo := hclean.resolve_left hlive
    rw [flatMap_singleton, Piece.cut_of_avoids hle hab havoid]

theorem SplitOff.ofHeap {s' : Svms} (r' : Range) (cs : List (Nat × Range))
    (hid : id < s.next) (hlive : (s.heap id).workOp ≠ .unmapRange)
    (hcut : ¬(a ≤ (s.heap id).start ∧ (s.heap id).last ≤ b)) (hlist : s'.list = s.list)
    (htree : s'.tree = s.tree) (hnext : s.next ≤ s'.next)
    (hheap : ∀ y < s.next, s'.heap y =
      if y = parent then (if y = id then r' else s.heap y).adopt (cs.map Prod.fst)
      else if y = id then r' else s.heap y)
    (hpart : r'.PartOf (s.heap id)) (hchildren : r'.children = (s.heap id).children)
    (hop : r'.workOp = (s.heap id).workOp)
    (hshrinks : (s.heap id).start < r'.start ∨ r'.last < (s.heap id).last)
    (hnodup : (cs.map Prod.fst).Nodup)
    (hnew : ∀ c ∈ cs, s'.heap c.1 = c.2 ∧ (s.next ≤ c.1 ∧ c.1 < s'.next) ∧
      c.2.ChildIn (s.heap id).start (s.heap id).last)
    (hpieces : (r'.piece :: cs.flatMap fun c => c.2.livePiece).Perm ((s.heap id).piece.cut a b))
    (hsize : r'.pageCount + (cs.map fun c => c.2.pageCount).sum = (s.heap id).pageCount)
    (hcover : ∀ page, (s.heap id).Has page → r'.Has page ∨ ∃ c ∈ cs, c.2.Has page) :
    SplitOff s s' parent id a b (cs.map Prod.fst) := by
  have hself : (s'.heap id).base = r'.base := by
    rw [hheap id hid]
    simp only [if_true]
    split
    · rfl
    · rfl
  have hpart' : (s'.heap id).PartOf (s.heap id) := by
    have : (s'.heap id).base.PartOf (s.heap id) := by
      rw [hself]
      exact ⟨hpart.itStart, hpart.itLast, hpart.notifierStart, hpart.notifierLast, hpart.start_le,
        hpart.le, hpart.last_le⟩
    exact ⟨this.itStart, this.itLast, this.notifierStart, this.notifierLast, this.start_le,
      this.le, this.last_le⟩
  have hop' : (s'.heap id).workOp = (s.heap id).workOp := (Range.bounds_of_base hself).2.2.trans hop
  constructor
  · exact hlist
  · exact htree
  · exact hnext
  · intro y hy hne
    rw [hheap y hy]
    simp only [hne, if_false]
    split
    · rfl
    · rfl
  · intro y hy
    rw [hheap y hy]
    by_cases hyid : y = id
    · subst hyid
      simp only [if_true]
      split
      · exact congrArg (· ++ _) hchildren
      · exact hchildren
    · simp only [hyid, if_false]
      split
      · rfl
      · rfl
  · exact hnodup
  · intro c hc
    obtain ⟨q, hq, rfl⟩ := mem_map.mp hc
    exact (hnew q hq).2.1
  · intro c hc
    obtain ⟨q, hq, rfl⟩ := mem_map.mp hc
    rw [(hnew q hq).1]
    exact (hnew q hq).2.2
  · exact hpart'
  · exact .inl hop'
  · intro _
    have hnews : (cs.map Prod.fst).flatMap (fun y => (s'.heap y).livePiece) =
        cs.flatMap fun c => c.2.livePiece := by
      rw [flatMap_map]
      exact flatMap_congr fun q hq => by rw [(hnew q hq).1]
    have hr' : (s'.heap id).livePiece = [r'.piece] := by
      rw [← Range.livePiece_base, hself, Range.livePiece_base, Range.livePiece,
        if_neg (hop ▸ hlive)]
    rw [flatMap_cons, hnews, hr', Range.livePiece, if_neg hlive, flatMap_singleton]
    exact hpieces
  · exact fun _ h1 h2 => absurd ⟨h1, h2⟩ hcut
  · intro _ _ _ _
    obtain ⟨hstart, hlast, -⟩ := Range.bounds_of_base hself
    rw [hstart, hlast]
    exact hshrinks
  · obtain ⟨hstart, hlast, -⟩ := Range.bounds_of_base hself
    have hnews : (cs.map Prod.fst).map (fun y => (s'.heap y).pageCount) =
        cs.map fun c => c.2.pageCount := by
      rw [map_map]
      exact map_congr_left fun q hq => congrArg Range.pageCount (hnew q hq).1
    have hr' : (s'.heap id).pageCount = r'.pageCount := by
      unfold Range.pageCount
      rw [hstart, hlast]
    rw [map_cons, sum_cons, hnews, hr']
    exact hsize
  · intro page hpage
    obtain ⟨hstart, hlast, -⟩ := Range.bounds_of_base hself
    rcases hcover page hpage with hin | ⟨q, hq, hin⟩
    · refine ⟨id, mem_cons_self, ?_⟩
      unfold Range.Has
      rw [hstart, hlast]
      exact hin
    · refine ⟨q.1, mem_cons_of_mem _ (mem_map_of_mem hq), ?_⟩
      rw [(hnew q hq).1]
      exact hin

theorem svmRangeAddChild_heap {c : Nat} {op : WorkOp} (hc : c ≠ parent) (y : Nat) :
    (svmRangeAddChild s parent c op).heap y =
      if y = parent then (s.heap y).adopt [c]
      else if y = c then (s.heap y).setWorkOp op else s.heap y := by
  unfold svmRangeAddChild Svms.write
  dsimp only
  by_cases hp : y = parent
  · subst hp
    rw [if_pos rfl, update_self, update_of_ne (Ne.symm hc)]
    rfl
  · rw [if_neg hp, update_of_ne hp]
    by_cases hyc : y = c
    · subst hyc
      rw [if_pos rfl, update_self]
      rfl
    · rw [if_neg hyc, update_of_ne hyc]

theorem unmapSplitAt_tail (hlo : (s.heap id).start < a) (hhi : a ≤ (s.heap id).last) :
    unmapSplitAt p id (s.heap id).start (a - 1) s =
      let parts := splitAdjust (svmRangeNew p a (s.heap id).last) (s.heap id)
        (s.heap id).start (a - 1)
      ((s.write id parts.1).push parts.2, s.next) := by
  unfold unmapSplitAt
  rw [svmRangeSplit_tail (by omega) (by omega), Nat.sub_add_cancel (by omega)]

theorem unmapSplitAt_head (hlo : (s.heap id).start ≤ b) (hhi : b < (s.heap id).last) :
    unmapSplitAt p id (b + 1) (s.heap id).last s =
      let parts := splitAdjust (svmRangeNew p (s.heap id).start b) (s.heap id)
        (b + 1) (s.heap id).last
      ((s.write id parts.1).push parts.2, s.next) := by
  unfold unmapSplitAt
  rw [svmRangeSplit_head (by omega) (by omega), Nat.add_sub_cancel]

theorem splitAdjust_partOf {new old : Range} {start last : Nat} (h1 : old.start ≤ start)
    (h2 : start ≤ last) (h3 : last ≤ old.last) :
    (splitAdjust new old start last).1.PartOf old :=
  ⟨rfl, rfl, rfl, rfl, h1, h2, h3⟩

theorem splitAdjust_childIn {old : Range} {lo hi start last : Nat} {op : WorkOp}
    (hop : op = .unmapRange ∨ op = .addRange) (h1 : old.start ≤ lo) (h2 : lo ≤ hi)
    (h3 : hi ≤ old.last) :
    ((splitAdjust (svmRangeNew p lo hi) old start last).2.setWorkOp op).ChildIn
      old.start old.last :=
  ⟨rfl, rfl, rfl, hop, h1, h2, h3⟩

theorem write_push_heap {r' new : Range} {y : Nat} (hy : y < s.next) :
    ((s.write id r').push new).heap y = if y = id then r' else s.heap y := by
  have hpush : ((s.write id r').push new).heap y = (s.write id r').heap y :=
    Svms.push_heap_of_lt hy
  rw [hpush]
  split
  · next h => rw [h, Svms.write_heap_self]
  · next h => rw [Svms.write_heap_of_ne h]

theorem write_push_heap_next {r' new : Range} : ((s.write id r').push new).heap s.next = new :=
  Svms.push_heap_next ..

theorem splitOff_one {lo hi start last : Nat} (hid : id < s.next) (hparent : parent < s.next)
    (hlive : (s.heap id).workOp ≠ .unmapRange)
    (hcut : ¬(a ≤ (s.heap id).start ∧ (s.heap id).last ≤ b))
    (hpart : (s.heap id).start ≤ start ∧ start ≤ last ∧ last ≤ (s.heap id).last)
    (hnew : (s.heap id).start ≤ lo ∧ lo ≤ hi ∧ hi ≤ (s.heap id).last)
    (hshrinks : (s.heap id).start < start ∨ last < (s.heap id).last)
    (htiles : (s.heap id).start = start ∧ last + 1 = lo ∧ hi = (s.heap id).last ∨
      (s.heap id).start = lo ∧ hi + 1 = start ∧ last = (s.heap id).last)
    (hpieces : (s.heap id).piece.cut a b =
      [{ lo := start, hi := last, val := (s.heap id).attrs }]) :
    let parts := splitAdjust (svmRangeNew p lo hi) (s.heap id) start last
    SplitOff s (svmRangeAddChild ((s.write id parts.1).push parts.2) parent s.next .unmapRange)
      parent id a b [s.next] := by
  intro parts
  have hne : s.next ≠ parent := ne_of_gt hparent
  refine SplitOff.ofHeap parts.1 [(s.next, parts.2.setWorkOp .unmapRange)]
    hid hlive hcut rfl rfl (Nat.le_succ _) ?_ ?_ rfl rfl hshrinks (nodup_singleton _) ?_ ?_
    ?_ ?_
  · intro y hy
    rw [svmRangeAddChild_heap hne, if_neg (ne_of_lt hy), write_push_heap hy]
    rfl
  · exact splitAdjust_partOf hpart.1 hpart.2.1 hpart.2.2
  · intro c hc
    cases mem_singleton.mp hc
    refine ⟨?_, ⟨le_refl _, Nat.lt_succ_self _⟩,
      splitAdjust_childIn (.inl rfl) hnew.1 hnew.2.1 hnew.2.2⟩
    rw [svmRangeAddChild_heap hne, if_neg hne, if_pos rfl, write_push_heap_next]
  · rw [hpieces]
    exact .refl _
  · change last + 1 - start + (hi + 1 - lo + 0) = (s.heap id).last + 1 - (s.heap id).start
    omega
  · rintro page ⟨hlo, hhi⟩
    have hside : (start ≤ page ∧ page ≤ last) ∨ (lo ≤ page ∧ page ≤ hi) := by omega
    exact hside.imp_right fun hin => ⟨_, mem_singleton_self _, hin⟩

theorem splitOff_middle (hid : id < s.next) (hparent : parent < s.next)
    (hlive : (s.heap id).workOp ≠ .unmapRange) (hlo : (s.heap id).start < a) (hab : a ≤ b)
    (hhi : b < (s.heap id).last) :
    let parts := splitAdjust (svmRangeNew p a (s.heap id).last) (s.heap id)
      (s.heap id).start (a - 1)
    let parts' := splitAdjust (svmRangeNew p a b) parts.2 (b + 1) (s.heap id).last
    let s1 := (s.write id parts.1).push parts.2
    SplitOff s (svmRangeAddChild (svmRangeAddChild ((s1.write s.next parts'.1).push parts'.2)
        parent (s.next + 1) .unmapRange) parent s.next .addRange)
      parent id a b [s.next + 1, s.next] := by
  intro parts parts' s1
  have hne : s.next ≠ parent := ne_of_gt hparent
  have hne' : s.next + 1 ≠ parent := by omega
  have hs1 : s1.next = s.next + 1 := rfl
  refine SplitOff.ofHeap parts.1
    [(s.next + 1, parts'.2.setWorkOp .unmapRange), (s.next, parts'.1.setWorkOp .addRange)]
    hid hlive (by omega) rfl rfl
    (by change s.next ≤ s.next + 1 + 1; omega) ?_ ?_ rfl rfl ?_ ?_ ?_ ?_
    ?_ ?_
  · intro y hy
    rw [svmRangeAddChild_heap hne, svmRangeAddChild_heap hne', if_neg (ne_of_lt hy),
      if_neg (show y ≠ s.next + 1 by omega), write_push_heap (by omega),
      if_neg (ne_of_lt hy), write_push_heap hy]
    split
    · simp only [Range.adopt, append_assoc, map_cons, map_nil, cons_append,
        nil_append]
    · rfl
  · exact splitAdjust_partOf (le_refl _) (by omega) (by omega)
  · right
    change a - 1 < (s.heap id).last
    omega
  · simp
  · intro c hc
    rcases mem_cons.mp hc with rfl | hc
    · refine ⟨?_, ⟨Nat.le_succ _, Nat.lt_succ_self _⟩, ?_⟩
      · rw [svmRangeAddChild_heap hne, if_neg hne', if_neg (by simp), svmRangeAddChild_heap hne',
          if_neg hne', if_pos rfl, ← hs1, write_push_heap_next]
      · exact ⟨rfl, rfl, rfl, .inl rfl, hlo.le, hab, hhi.le⟩
    · cases mem_singleton.mp hc
      refine ⟨?_, ⟨le_refl _, by change s.next < s.next + 1 + 1; omega⟩, ?_⟩
      · rw [svmRangeAddChild_heap hne, if_neg hne, if_pos rfl, svmRangeAddChild_heap hne',
          if_neg hne, if_neg (by simp), write_push_heap (by omega), if_pos rfl]
      · refine ⟨rfl, rfl, rfl, .inr rfl, ?_, ?_, le_refl _⟩
        · change (s.heap id).start ≤ b + 1
          omega
        · exact hhi
  · rw [Piece.cut_middle hlo hab hhi]
    exact .refl _
  · change a - 1 + 1 - (s.heap id).start + (b + 1 - a + ((s.heap id).last + 1 - (b + 1) + 0)) =
      (s.heap id).last + 1 - (s.heap id).start
    omega
  · rintro page ⟨hfirst, hlast⟩
    have hside : ((s.heap id).start ≤ page ∧ page ≤ a - 1) ∨ (a ≤ page ∧ page ≤ b) ∨
        (b + 1 ≤ page ∧ page ≤ (s.heap id).last) := by omega
    rcases hside with hin | hin | hin
    · exact .inl hin
    · exact .inr ⟨_, mem_cons_self, hin⟩
    · exact .inr ⟨_, mem_cons_of_mem _ (mem_singleton_self _), hin⟩

theorem splitOff_whole (hne : parent ≠ id) (hlive : (s.heap id).workOp ≠ .unmapRange)
    (hle : (s.heap id).start ≤ (s.heap id).last) (ha : a ≤ (s.heap id).start)
    (hb : (s.heap id).last ≤ b) :
    SplitOff s (s.write id ((s.heap id).setWorkOp .unmapRange)) parent id a b [] := by
  have hself : (s.write id ((s.heap id).setWorkOp .unmapRange)).heap id =
      (s.heap id).setWorkOp .unmapRange := Svms.write_heap_self ..
  have hother : ∀ y, y ≠ id →
      (s.write id ((s.heap id).setWorkOp .unmapRange)).heap y = s.heap y :=
    fun y hy => Svms.write_heap_of_ne hy
  constructor
  · rfl
  · rfl
  · exact le_refl _
  · intro y _ hy
    rw [hother y hy]
  · intro y _
    rw [append_nil, ite_self]
    by_cases hy : y = id
    · rw [hy, hself]
      rfl
    · rw [hother y hy]
  · exact .nil
  · simp
  · simp
  · rw [hself]
    exact ⟨rfl, rfl, rfl, rfl, le_refl _, hle, le_refl _⟩
  · rw [hself]
    exact .inr ⟨hne.symm, rfl⟩
  · intro _
    have hgone : ((s.heap id).setWorkOp .unmapRange).livePiece = [] := if_pos rfl
    rw [flatMap_singleton, hself, hgone, Range.livePiece, if_neg hlive,
      flatMap_singleton, Piece.cut_whole ha hb]
  · exact fun h => absurd h.symm hne
  · exact fun h => absurd h.symm hne
  · rw [map_singleton, sum_singleton, hself]
    rfl
  · refine fun page hpage => ⟨id, mem_cons_self, ?_⟩
    rw [hself]
    exact hpage

theorem splitOff_self (hle : (s.heap id).start ≤ (s.heap id).last) (ha : a ≤ (s.heap id).start)
    (hb : (s.heap id).last ≤ b) : SplitOff s s id id a b [] :=
  .same hle (fun h => absurd ⟨rfl, ha, hb⟩ h) fun _ => ⟨ha, hb⟩

theorem svmRangeUnmapSplit_splitOff (p : Process) (hid : id < s.next) (hparent : parent < s.next)
    (hle : (s.heap id).start ≤ (s.heap id).last) (hab : a ≤ b) :
    ∃ news, SplitOff s (svmRangeUnmapSplit p parent id a b s) parent id a b news := by
  unfold svmRangeUnmapSplit
  by_cases hlive : (s.heap id).workOp = .unmapRange
  · rw [if_pos hlive]
    exact ⟨[], .refl hle hab (.inl hlive)⟩
  rw [if_neg hlive]
  by_cases hout : (s.heap id).last < a ∨ b < (s.heap id).start
  · rw [if_pos hout]
    exact ⟨[], .refl hle hab (.inr hout)⟩
  rw [if_neg hout]
  have hnext : s.next ≠ id := ne_of_gt hid
  by_cases htail : (s.heap id).start < a
  · rw [if_pos htail, unmapSplitAt_tail htail (by omega)]
    dsimp only
    generalize hs1 : (s.write id (splitAdjust (svmRangeNew p a (s.heap id).last) (s.heap id)
      (s.heap id).start (a - 1)).1).push _ = s1
    have hlast : s1.heap s.next = (splitAdjust (svmRangeNew p a (s.heap id).last) (s.heap id)
        (s.heap id).start (a - 1)).2 := by
      rw [← hs1]
      exact write_push_heap_next
    have hlast' : (s1.heap s.next).last = (s.heap id).last := by rw [hlast]; rfl
    have hstart' : (s1.heap s.next).start = a := by rw [hlast]; rfl
    by_cases hhead : b < (s.heap id).last
    · have hne : s.next + 1 ≠ id := by omega
      have hnext1 : s1.next = s.next + 1 := by rw [← hs1]; rfl
      rw [hlast', if_pos hhead, ← hlast', unmapSplitAt_head (by omega) (by omega), hlast', hstart',
        hlast]
      dsimp only
      rw [hnext1, if_pos ⟨hne, hnext⟩, ← hs1]
      exact ⟨_, splitOff_middle hid hparent hlive htail hab hhead⟩
    · rw [hlast', if_neg hhead]
      dsimp only
      rw [if_neg (by simp), if_pos hnext, ← hs1]
      refine ⟨_, splitOff_one hid hparent hlive (by omega) ⟨le_refl _, by omega, by omega⟩
        ⟨by omega, by omega, le_refl _⟩ (.inr (by omega)) (.inl ⟨rfl, by omega, rfl⟩) ?_⟩
      exact Piece.cut_tail htail (by change a ≤ (s.heap id).last; omega)
        (by change (s.heap id).last ≤ b; omega)
  · rw [if_neg htail]
    dsimp only
    by_cases hhead : b < (s.heap id).last
    · rw [if_pos hhead, unmapSplitAt_head (by omega) hhead]
      dsimp only
      rw [if_neg (by simp), if_neg (by simp), if_pos hnext]
      refine ⟨_, splitOff_one hid hparent hlive (by omega) ⟨by omega, by omega, le_refl _⟩
        ⟨le_refl _, by omega, by omega⟩ (.inl (by omega)) (.inr ⟨rfl, rfl, rfl⟩) ?_⟩
      exact Piece.cut_head (by change a ≤ (s.heap id).start; omega)
        (by change (s.heap id).start ≤ b; omega) hhead
    · rw [if_neg hhead]
      dsimp only
      rw [if_neg (by simp), if_neg (by simp), if_neg (by simp)]
      by_cases hne : parent = id
      · rw [if_neg (by simpa using hne)]
        subst hne
        exact ⟨[], splitOff_self hle (by omega) (by omega)⟩
      · rw [if_pos hne]
        exact ⟨[], splitOff_whole hne hlive hle (by omega) (by omega)⟩

def Range.setMapped (r : Range) (mapped : Bool) : Range :=
  { r with mappedToGpu := mapped }

theorem Svms.write_heap_eq (s : Svms) (id : Nat) : s.write id (s.heap id) = s := by
  unfold Svms.write
  rw [update_eq_self]

theorem svmRangeUnmapFromGpus_svms (p : Process) (ok : Nat → Bool) (id start last : Nat) (mm : Mm) :
    (svmRangeUnmapFromGpus p ok id start last mm).1.deferred = mm.deferred ∧
      ∃ mapped, (svmRangeUnmapFromGpus p ok id start last mm).1.svms =
        mm.svms.write id ((mm.svms.heap id).setMapped mapped) := by
  unfold svmRangeUnmapFromGpus
  dsimp only
  split
  · exact ⟨rfl, (mm.svms.heap id).mappedToGpu, (mm.svms.write_heap_eq id).symm⟩
  · refine ⟨rfl, ?_⟩
    dsimp only
    split
    · exact ⟨false, rfl⟩
    · exact ⟨(mm.svms.heap id).mappedToGpu, rfl⟩

theorem SplitOff.ofSetMapped {s' : Svms} {news : List Nat} {mapped : Bool}
    (h : SplitOff (s.write id ((s.heap id).setMapped mapped)) s' parent id a b news) :
    SplitOff s s' parent id a b news := by
  have hself : (s.write id ((s.heap id).setMapped mapped)).heap id =
      (s.heap id).setMapped mapped := Svms.write_heap_self ..
  have hother : ∀ y, y ≠ id → (s.write id ((s.heap id).setMapped mapped)).heap y = s.heap y :=
    fun y hy => Svms.write_heap_of_ne hy
  obtain ⟨hlist, htree, hnext, hframe, hchildren, hnodup, hfresh, hchild, hpart, hop, hpieces,
    hwhole, hshrinks, hsize, hcover⟩ := h
  rw [hself] at hchild hpart hop hpieces hwhole hshrinks hsize hcover
  refine ⟨hlist, htree, hnext, fun y hy hne => ?_, fun y hy => ?_, hnodup, hfresh, fun c hc => ?_,
    ?_, hop, hpieces, hwhole, hshrinks, hsize, hcover⟩
  · rw [hframe y hy hne, hother y hne]
  · rw [hchildren y hy]
    by_cases hne : y = id
    · rw [hne, hself]
      rfl
    · rw [hother y hne]
  · obtain ⟨h1, h2, h3, h4, h5, h6, h7⟩ := hchild c hc
    exact ⟨h1, h2, h3, h4, h5, h6, h7⟩
  · obtain ⟨h1, h2, h3, h4, h5, h6, h7⟩ := hpart
    exact ⟨h1, h2, h3, h4, h5, h6, h7⟩

theorem unmapOne_splitOff (p : Process) (ok : Nat → Nat → Bool) {mm : Mm}
    (hid : id < mm.svms.next) (hparent : parent < mm.svms.next)
    (hle : (mm.svms.heap id).start ≤ (mm.svms.heap id).last) (hab : a ≤ b) :
    (unmapOne p ok parent a b mm id).deferred = mm.deferred ∧
      ∃ news, SplitOff mm.svms (unmapOne p ok parent a b mm id).svms parent id a b news := by
  unfold unmapOne
  dsimp only
  split
  · obtain ⟨hdeferred, mapped, hsvms⟩ := svmRangeUnmapFromGpus_svms p (ok id) id
      (max a (mm.svms.heap id).start) (min b (mm.svms.heap id).last) mm
    rw [hsvms]
    have hself : (mm.svms.write id ((mm.svms.heap id).setMapped mapped)).heap id =
        (mm.svms.heap id).setMapped mapped := Svms.write_heap_self ..
    obtain ⟨news, hsplit⟩ := svmRangeUnmapSplit_splitOff
      (s := mm.svms.write id ((mm.svms.heap id).setMapped mapped)) p hid hparent
      (by rw [hself]; exact hle) hab
    exact ⟨hdeferred, news, hsplit.ofSetMapped⟩
  · exact ⟨rfl, svmRangeUnmapSplit_splitOff p hid hparent hle hab⟩

theorem SplitOff.clean {s' : Svms} {news : List Nat} (h : SplitOff s s' parent id a b news)
    (hcut : ¬(id = parent ∧ a ≤ (s.heap id).start ∧ (s.heap id).last ≤ b)) {y : Nat}
    (hy : y ∈ id :: news) : (s'.heap y).Clean a b := by
  by_cases hlive : (s'.heap y).workOp = .unmapRange
  · exact .inl hlive
  · have hmem : (s'.heap y).piece ∈ (id :: news).flatMap fun y => (s'.heap y).livePiece := by
      refine mem_flatMap.mpr ⟨y, hy, ?_⟩
      rw [Range.livePiece, if_neg hlive]
      exact mem_singleton_self _
    obtain ⟨q, -, hq⟩ := mem_flatMap.mp ((h.pieces hcut).mem_iff.mp hmem)
    exact .inr (Piece.cut_avoids hq)

end UnmapSplit

end Amdkfd.Svm
