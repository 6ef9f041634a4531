import Amdkfd.Svm.SplitFailure
import Amdkfd.Svm.UnmapSplit

/-!
# Unmapping without memory

`svm_range_unmap_split` ignores the result of its splits. A split that fails sets the pointer
to the new range to `NULL`, and the function goes on with it.
-/

namespace Amdkfd.Svm

open Lib List

/-! ## The function with its allocations -/

/-- A split of the range at `id` in `svm_range_unmap_split`, with the pointer to the new range.
It was `ptr` before, and a split that is refused does not write it. -/
def unmapSplitAllocsAt (p : Process) (al : SplitAllocs) (id ptr start last : Nat) (s : Svms) :
    Svms × Option Nat :=
  if splitRefuses (s.heap id) start last then (s, some ptr)
  else
    let r := svmRangeSplitAllocs p al (s.heap id) start last
    match r.new with
    | none => (s.write id r.old, none)
    | some new => ((s.write id r.old).push new, some s.next)

def addChildPtr (s : Svms) (parent : Nat) (pchild : Option Nat) (op : WorkOp) : Option Svms :=
  pchild.map fun pchild => svmRangeAddChild s parent pchild op

def addChildren (s : Svms) (parent prange : Nat) (head tail : Option Nat) : Option Svms :=
  if head ≠ some prange ∧ tail ≠ some prange then
    (addChildPtr s parent head .unmapRange).bind (addChildPtr · parent tail .addRange)
  else if tail ≠ some prange then addChildPtr s parent tail .unmapRange
  else if head ≠ some prange then addChildPtr s parent head .unmapRange
  else if parent ≠ prange then some (s.write prange { s.heap prange with workOp := .unmapRange })
  else some s

/-- `svm_range_unmap_split`, with the allocations of its two splits. There is no result when a
`NULL` pointer is used. -/
def svmRangeUnmapSplitAllocs (p : Process) (al1 al2 : SplitAllocs)
    (parent prange start last : Nat) (s : Svms) : Option Svms :=
  let r := s.heap prange
  if r.workOp = .unmapRange then some s
  else if r.last < start ∨ last < r.start then some s
  else
    let cutTail :=
      if r.start < start then unmapSplitAllocsAt p al1 prange prange r.start (start - 1) s
      else (s, some prange)
    let s := cutTail.1
    match cutTail.2 with
    | none => none
    | some tail =>
      let cutHead :=
        if last < (s.heap tail).last then
          unmapSplitAllocsAt p al2 tail prange (last + 1) (s.heap tail).last s
        else (s, some prange)
      addChildren cutHead.1 parent prange cutHead.2 (some tail)

def UnmapAllocsOk (al1 al2 : SplitAllocs) (r : Range) (start last : Nat) : Prop :=
  r.workOp = .unmapRange ∨ (r.last < start ∨ last < r.start) ∨
    (r.start < start → ¬al1.Fails r) ∧ (last < r.last → ¬al2.Fails r)
  deriving Decidable

/-- The page is in the range or in one of its children, and not in one that waits to be
freed. -/
def Svms.Covers (s : Svms) (parent page : Nat) : Prop :=
  ∃ y ∈ parent :: (s.heap parent).children,
    (s.heap y).workOp ≠ .unmapRange ∧ (s.heap y).Has page

/-- The function uses no `NULL` pointer, and the pages outside of the interval that were
covered by the parent and its children still are. -/
def UnmapSurvives (p : Process) (al1 al2 : SplitAllocs) (parent prange start last : Nat)
    (s : Svms) : Prop :=
  ∃ s', svmRangeUnmapSplitAllocs p al1 al2 parent prange start last s = some s' ∧
    ∀ page, s.Covers parent page → ¬(start ≤ page ∧ page ≤ last) → s'.Covers parent page

section Unmap
variable {p : Process} {s : Svms} {al al1 al2 : SplitAllocs} {parent id ptr start last a b : Nat}

theorem fails_map {r r' : Range} (f : List UInt64 → List UInt64)
    (hdma : r'.dmaAddr = r.dmaAddr.map (·.map f)) : al.Fails r' ↔ al.Fails r := by
  have hany : ∀ (arrs : List (Option (List UInt64))) (i : Nat),
      ((arrs.map (·.map f)).zipIdx i).any al.failsFor = (arrs.zipIdx i).any al.failsFor := by
    intro arrs
    induction arrs with
    | nil => exact fun _ => rfl
    | cons x arrs ih =>
      intro i
      rw [map_cons, zipIdx_cons, zipIdx_cons, any_cons, any_cons, ih]
      cases x with
      | none => rfl
      | some arr => rfl
  unfold SplitAllocs.Fails
  rw [hdma, hany]

theorem unmapSplitAllocsAt_ok (hsplit : SplitAccepts p (s.heap id) start last)
    (hfails : ¬al.Fails (s.heap id)) :
    unmapSplitAllocsAt p al id ptr start last s =
      ((unmapSplitAt p id start last s).1, some (unmapSplitAt p id start last s).2) := by
  obtain ⟨hok, hallocs⟩ := svmRangeSplitAllocs_ok hsplit hfails
  unfold unmapSplitAllocsAt unmapSplitAt
  rw [(splitAccepts_cases hsplit).1, if_neg Bool.false_ne_true, hallocs, hok]

theorem unmapSplitAllocsAt_fails (hsplit : SplitAccepts p (s.heap id) start last)
    (hfails : al.Fails (s.heap id)) : (unmapSplitAllocsAt p al id ptr start last s).2 = none := by
  obtain ⟨arrs, heq, -⟩ := svmRangeSplitAllocs_error hsplit hfails
  unfold unmapSplitAllocsAt
  rw [(splitAccepts_cases hsplit).1, if_neg Bool.false_ne_true, heq]

theorem accepts_tail (hlo : (s.heap id).start < a) (hhi : a ≤ (s.heap id).last) :
    SplitAccepts p (s.heap id) (s.heap id).start (a - 1) :=
  ⟨_, _, svmRangeSplit_tail (by omega) (by omega)⟩

theorem accepts_head (hlo : (s.heap id).start ≤ b) (hhi : b < (s.heap id).last) :
    SplitAccepts p (s.heap id) (b + 1) (s.heap id).last :=
  ⟨_, _, svmRangeSplit_head (by omega) (by omega)⟩

theorem addChildren_none (tail : Option Nat) : addChildren s parent id none tail = none := by
  unfold addChildren
  by_cases htail : tail = some id
  · rw [if_neg (fun h => h.2 htail), if_neg (fun h => h htail), if_pos (by simp)]
    rfl
  · rw [if_pos ⟨by simp, htail⟩]
    rfl

theorem addChildren_some (head tail : Nat) :
    addChildren s parent id (some head) (some tail) = some (
      if head ≠ id ∧ tail ≠ id then
        svmRangeAddChild (svmRangeAddChild s parent head .unmapRange) parent tail .addRange
      else if tail ≠ id then svmRangeAddChild s parent tail .unmapRange
      else if head ≠ id then svmRangeAddChild s parent head .unmapRange
      else if parent ≠ id then s.write id { s.heap id with workOp := .unmapRange }
      else s) := by
  unfold addChildren addChildPtr
  simp only [Option.map_some, Option.bind_some, ne_eq, Option.some.injEq]
  repeat' split
  all_goals rfl

theorem cutHead_eq (tail : Nat) (hle : (s.heap tail).start ≤ b) :
    (let cutHead :=
      if b < (s.heap tail).last then
        unmapSplitAllocsAt p al tail id (b + 1) (s.heap tail).last s
      else (s, some id)
    addChildren cutHead.1 parent id cutHead.2 (some tail)) =
      if b < (s.heap tail).last → ¬al.Fails (s.heap tail) then
        let cutHead :=
          if b < (s.heap tail).last then unmapSplitAt p tail (b + 1) (s.heap tail).last s
          else (s, id)
        addChildren cutHead.1 parent id (some cutHead.2) (some tail)
      else none := by
  dsimp only
  by_cases hhead : b < (s.heap tail).last
  · rw [if_pos hhead, if_pos hhead]
    have haccepts := accepts_head (p := p) hle hhead
    by_cases hfails : al.Fails (s.heap tail)
    · rw [unmapSplitAllocsAt_fails haccepts hfails, addChildren_none,
        if_neg fun h => h hhead hfails]
    · rw [unmapSplitAllocsAt_ok haccepts hfails, if_pos fun _ => hfails]
  · rw [if_neg hhead, if_neg hhead, if_pos fun h => absurd h hhead]

theorem cutTail_new (p : Process) (al : SplitAllocs) (htail : (s.heap id).start < a)
    (hle : a ≤ (s.heap id).last) :
    let t := (unmapSplitAt p id (s.heap id).start (a - 1) s).1.heap
      (unmapSplitAt p id (s.heap id).start (a - 1) s).2
    t.start = a ∧ t.last = (s.heap id).last ∧ (al.Fails t ↔ al.Fails (s.heap id)) := by
  intro t
  have ht : t = (splitAdjust (svmRangeNew p a (s.heap id).last) (s.heap id)
      (s.heap id).start (a - 1)).2 := by
    change (unmapSplitAt p id (s.heap id).start (a - 1) s).1.heap
      (unmapSplitAt p id (s.heap id).start (a - 1) s).2 = _
    rw [unmapSplitAt_tail htail hle]
    exact write_push_heap_next
  rw [ht]
  exact ⟨rfl, rfl, fails_map (newArray (s.heap id) (svmRangeNew p a (s.heap id).last)) rfl⟩

theorem svmRangeUnmapSplitAllocs_eq (p : Process) (al1 al2 : SplitAllocs) (parent : Nat)
    (hab : a ≤ b) :
    svmRangeUnmapSplitAllocs p al1 al2 parent id a b s =
      if UnmapAllocsOk al1 al2 (s.heap id) a b then some (svmRangeUnmapSplit p parent id a b s)
      else none := by
  unfold svmRangeUnmapSplitAllocs svmRangeUnmapSplit
  dsimp only
  by_cases hlive : (s.heap id).workOp = .unmapRange
  · rw [if_pos hlive, if_pos hlive, if_pos (.inl hlive)]
  rw [if_neg hlive, if_neg hlive]
  by_cases hout : (s.heap id).last < a ∨ b < (s.heap id).start
  · rw [if_pos hout, if_pos hout, if_pos (.inr (.inl hout))]
  rw [if_neg hout, if_neg hout]
  have hallocs : UnmapAllocsOk al1 al2 (s.heap id) a b ↔
      ((s.heap id).start < a → ¬al1.Fails (s.heap id)) ∧
        (b < (s.heap id).last → ¬al2.Fails (s.heap id)) :=
    ⟨fun h => (h.resolve_left hlive).resolve_left hout, fun h => .inr (.inr h)⟩
  simp only [hallocs]
  by_cases htail : (s.heap id).start < a
  · rw [if_pos htail, if_pos htail]
    have haccepts := accepts_tail (p := p) htail (by omega)
    by_cases hfails : al1.Fails (s.heap id)
    · rw [unmapSplitAllocsAt_fails haccepts hfails, if_neg fun h => h.1 htail hfails]
    · -- the head is cut from the new range, with the end and the arrays of the old one
      obtain ⟨hstart, hlast, hdma⟩ := cutTail_new p al2 htail (by omega)
      rw [unmapSplitAllocsAt_ok haccepts hfails]
      have hle : ((unmapSplitAt p id (s.heap id).start (a - 1) s).1.heap
          (unmapSplitAt p id (s.heap id).start (a - 1) s).2).start ≤ b := by omega
      refine (cutHead_eq _ hle).trans (if_congr ?_ (addChildren_some _ _) rfl)
      rw [hlast, hdma]
      exact ⟨fun h => ⟨fun _ => hfails, h⟩, fun h => h.2⟩
  · rw [if_neg htail, if_neg htail]
    have hle : (s.heap id).start ≤ b := by omega
    refine (cutHead_eq _ hle).trans (if_congr ?_ (addChildren_some _ _) rfl)
    exact ⟨fun h => ⟨fun h => absurd h htail, h⟩, fun h => h.2⟩

theorem SplitOff.covers {s' : Svms} {news : List Nat} (h : SplitOff s s' parent id a b news)
    (hid : id < s.next) (hkids : ∀ y ∈ parent :: (s.heap parent).children, y < s.next)
    {page : Nat} (hpage : s.Covers parent page) (hout : ¬(a ≤ page ∧ page ≤ b)) :
    s'.Covers parent page := by
  obtain ⟨y, hy, hlive, hhas⟩ := hpage
  have hchildren : (s'.heap parent).children = (s.heap parent).children ++ news := by
    rw [h.children parent (hkids parent mem_cons_self), if_pos rfl]
  have hold : ∀ x ∈ parent :: (s.heap parent).children,
      x ∈ parent :: (s'.heap parent).children := by
    intro x hx
    rw [hchildren]
    rcases mem_cons.mp hx with rfl | hx
    · exact mem_cons_self
    · exact mem_cons_of_mem _ (mem_append_left _ hx)
  by_cases hyid : y = id
  · -- the page is in the piece that is split, and in one of its parts since it is not taken
    subst hyid
    have hcut : ¬(y = parent ∧ a ≤ (s.heap y).start ∧ (s.heap y).last ≤ b) :=
      fun hwhole => hout ⟨hwhole.2.1.trans hhas.1, hhas.2.trans hwhole.2.2⟩
    have hpiece : (s.heap y).livePiece = [(s.heap y).piece] := if_neg hlive
    obtain ⟨q, hq, hqpage⟩ := Piece.cut_covers (p := (s.heap y).piece) hhas hout
    have hmem : q ∈ (y :: news).flatMap fun x => (s'.heap x).livePiece := by
      rw [(h.pieces hcut).mem_iff, hpiece, flatMap_singleton]
      exact hq
    obtain ⟨x, hx, hqx⟩ := mem_flatMap.mp hmem
    have hxin : x ∈ parent :: (s'.heap parent).children := by
      rcases mem_cons.mp hx with rfl | hx
      · exact hold x hy
      · rw [hchildren]
        exact mem_cons_of_mem _ (mem_append_right _ hx)
    unfold Range.livePiece at hqx
    split at hqx
    · cases hqx
    · next hxlive =>
      rw [mem_singleton.mp hqx] at hqpage
      exact ⟨x, hxin, hxlive, hqpage⟩
  · obtain ⟨hstart, hlast, hop⟩ := Range.bounds_of_base (h.frame y (hkids y hy) hyid)
    refine ⟨y, hold y hy, hop ▸ hlive, ?_⟩
    unfold Range.Has at hhas ⊢
    rw [hstart, hlast]
    exact hhas

/-- `svm_range_unmap_split` gets through with the pages that are not unmapped exactly when no
allocation of its splits fails. -/
theorem unmapSplit_survives_iff (p : Process) (al1 al2 : SplitAllocs) (hid : id < s.next)
    (hkids : ∀ y ∈ parent :: (s.heap parent).children, y < s.next)
    (hle : (s.heap id).start ≤ (s.heap id).last) (hab : a ≤ b) :
    UnmapSurvives p al1 al2 parent id a b s ↔ UnmapAllocsOk al1 al2 (s.heap id) a b := by
  unfold UnmapSurvives
  rw [svmRangeUnmapSplitAllocs_eq p al1 al2 parent hab]
  by_cases hok : UnmapAllocsOk al1 al2 (s.heap id) a b
  · rw [if_pos hok]
    refine iff_of_true ⟨_, rfl, fun page hpage hout => ?_⟩ hok
    obtain ⟨news, hsplit⟩ :=
      svmRangeUnmapSplit_splitOff p hid (hkids parent mem_cons_self) hle hab
    exact hsplit.covers hid hkids hpage hout
  · rw [if_neg hok]
    exact iff_of_false nofun hok

end Unmap

/-! ## A hole in a range -/

def exHole : Svms :=
  { heap := fun _ => exTwoArrays
    next := 1
    list := [0]
    tree := [0] }

def exNoneFail : SplitAllocs :=
  { range := true
    new := fun _ => true
    old := fun _ => true }

def exNoRange : SplitAllocs :=
  { exNoneFail with range := false }

theorem exHole_kids : ∀ y ∈ 0 :: (exHole.heap 0).children, y < exHole.next := by
  intro y hy
  rw [mem_singleton.mp hy]
  decide

theorem unmapSplit_survives_iff_exHole :
    UnmapSurvives exSplitProcess exNoneFail exNoneFail 0 0 5 6 exHole :=
  (unmapSplit_survives_iff exSplitProcess exNoneFail exNoneFail (s := exHole) (by decide)
    exHole_kids (by decide) (by decide)).mpr (by decide)

/-- The tail of the range cannot be allocated, and `tail->last` is read all the same. -/
theorem unmapSplit_broken :
    svmRangeUnmapSplitAllocs exSplitProcess exNoRange exNoneFail 0 0 5 6 exHole = none ∧
      ¬UnmapSurvives exSplitProcess exNoRange exNoneFail 0 0 5 6 exHole := by
  have hnone :
      svmRangeUnmapSplitAllocs exSplitProcess exNoRange exNoneFail 0 0 5 6 exHole = none := by
    rw [svmRangeUnmapSplitAllocs_eq exSplitProcess exNoRange exNoneFail 0 (s := exHole) (by decide)]
    exact if_neg (by decide)
  refine ⟨hnone, ?_⟩
  rintro ⟨s', hs', -⟩
  rw [hnone] at hs'
  cases hs'

end Amdkfd.Svm
