import Amdkfd.VmPt.Dfs
import Mathlib.Data.List.Nodup

/-!
# Freeing page tables

`amdgpu_vm_pt_free_dfs` frees the tables of a subtree, or, where the reservation of the VM is not
held, moves them to `vm->pt_freed` for a worker to free. The second loop does not ask whether an
entry has a BO.
-/

namespace Amdkfd.VmPt

open Lib.PostOrder List Option

/-! ## Model -/

/-- What is done to the tables. -/
inductive Event
  | statusLock
  | statusUnlock
  | unrefShadow (e : Path)
  | listDel (e : Path)
  | unrefBo (e : Path)
  | listMove (e : Path)
  | scheduleWork
  deriving DecidableEq

/-- The entries with a BO, those with a shadow, and what has been done. -/
structure State where
  bo : Tables
  shadow : Path → Bool
  trace : List Event

def State.log (s : State) (events : List Event) : State := { s with trace := s.trace ++ events }

/-- `amdgpu_vm_pt_free`. -/
def ptFree (s : State) (entry : Path) : State :=
  if s.bo entry = false then s
  else
    { s with
      bo := Function.update s.bo entry false
      trace := s.trace ++ ((if s.shadow entry then [.unrefShadow entry] else []) ++
        [.statusLock, .listDel entry, .statusUnlock, .unrefBo entry]) }

/-- `list_move(&entry->vm_status, &vm->pt_freed)`. -/
def listMove (s : State) (entry : Path) : State := s.log [.listMove entry]

def ptFreeDfs (dev : Device) (start : Option PtCursor) (unlocked : Bool) (fuel : Nat) (s : State) :
    Option State :=
  let last (body : State → Path → State) (s : State) : State :=
    if start.isSome then body s (startPath start) else s
  if unlocked then
    (forEachDfs dev State.bo start listMove fuel (s.log [.statusLock])).map fun r =>
      (last listMove r.2).log [.statusUnlock, .scheduleWork]
  else (forEachDfs dev State.bo start ptFree fuel s).map fun r => last ptFree r.2

/-! ## What is right -/

/-- The table that is freed, or moved to `vm->pt_freed`. -/
def Event.freed? (unlocked : Bool) : Event → Option Path
  | .unrefBo e => if unlocked then none else some e
  | .listMove e => if unlocked then some e else none
  | _ => none

def Event.touched? : Event → Option Path
  | .listDel e | .listMove e => some e
  | _ => none

def InSubtree (dev : Device) (a : Tables) (start : Option PtCursor) (e : Path) : Prop :=
  Node (kids dev a) e ∧ startPath start <:+ e

/-- The walk has the entries below the start, or all if there is none, each once and children before
their parents. -/
structure VisitsRight (dev : Device) (a : Tables) (start : Option PtCursor) (es : List Path) :
    Prop where
  mem : ∀ e, e ∈ es ↔ InSubtree dev a start e ∧ (start.isSome = true → e ≠ startPath start)
  order : es.Pairwise fun x y => ¬ x <:+ y

structure FreeRight (dev : Device) (a : Tables) (start : Option PtCursor) (unlocked : Bool)
    (trace : List Event) : Prop where
  freed : ∀ e, e ∈ trace.filterMap (Event.freed? unlocked) ↔ InSubtree dev a start e ∧ a e = true
  once : (trace.filterMap (Event.freed? unlocked)).Nodup
  touched : ∀ e ∈ trace.filterMap Event.touched?, a e = true

/-- The walk is right for every body that frees at most the table that it visits, and the freeing
is. -/
structure DfsRight (dev : Device) (a : Tables) (start : Option PtCursor) (unlocked : Bool) :
    Prop where
  visits : ∀ {σ : Type} (bo : σ → Tables) (body : σ → Path → σ) (s : σ), bo s = a →
    (∀ s e x, x ≠ e → bo (body s e) x = bo s x) →
    ∃ es, VisitsRight dev a start es ∧ ∃ N, ∀ fuel, N ≤ fuel →
      forEachDfs dev bo start body fuel s = some (es, es.foldl body s)
  free : ∀ s : State, s.bo = a → s.trace = [] →
    ∃ s', FreeRight dev a start unlocked s'.trace ∧ ∃ N, ∀ fuel, N ≤ fuel →
      ptFreeDfs dev start unlocked fuel s = some s'

/-! ## The walk -/

section
variable {dev : Device} {a : Tables} {start : Option PtCursor}

/-- The page of the start leads to the first entries of the tables below it. -/
def AtFirstPage (dev : Device) (a : Tables) (start : Option PtCursor) : Prop :=
  ∀ c, start = some c → AtFirst (kids dev a) (firstOf dev c.pfn) (ptb - c.level) (startPath start)

variable {c : PtCursor} {p : Path}

theorem startPath_eq (h : At dev c p) : startPath (some c) = p := by
  show c.entry.getD [] = p
  rw [h.entry]
  rfl

theorem atFirstPage_of_dvd (h : At dev c p) (hp : p ≠ [])
    (hdvd : 2 ^ levelShift dev (c.level - 1) ∣ c.pfn) : AtFirstPage dev a (some c) := by
  rintro _ ⟨⟩
  rw [startPath_eq h]
  exact atFirst_of_dvd hp (h.level ▸ hdvd)

theorem start_node (h : StartOk dev a start) : Node (kids dev a) (startPath start) ∧
    levelOf dev (startPath start) + (ptb - (start.getD (ptStart dev 0)).level) = ptb := by
  cases start with
  | none => exact ⟨.root, Nat.add_sub_cancel' (le_of_lt dev.rootLevel_lt)⟩
  | some c =>
    obtain ⟨p, hat, hnode, -⟩ := h
    rw [startPath_eq hat]
    refine ⟨hnode, ?_⟩
    show levelOf dev p + (ptb - c.level) = ptb
    rw [hat.level]
    exact Nat.add_sub_cancel' (live_of_node hnode).2

def belowStart (dev : Device) (a : Tables) (start : Option PtCursor) : List Path :=
  below (kids dev a) (ptb - (start.getD (ptStart dev 0)).level) (startPath start)

theorem mem_belowStart (h : StartOk dev a start) {e : Path} :
    e ∈ belowStart dev a start ↔ InSubtree dev a start e ∧ e ≠ startPath start := by
  obtain ⟨hnode, hlevel⟩ := start_node h
  rw [InSubtree, and_assoc]
  refine mem_below hnode fun q _ hlen => ?_
  have hdeep : ptb ≤ levelOf dev q := by
    rw [← hlevel, levelOf, levelOf, add_assoc]
    exact Nat.add_le_add_left hlen _
  exact kids_of_deep hdeep

theorem subtree_right (h : StartOk dev a start) :
    (∀ e, e ∈ belowStart dev a start ++ [startPath start] ↔ InSubtree dev a start e) ∧
      (belowStart dev a start ++ [startPath start]).Pairwise fun x y => ¬ x <:+ y := by
  constructor
  · intro e
    rw [mem_append, mem_singleton, mem_belowStart h]
    constructor
    · rintro (⟨hin, -⟩ | rfl)
      · exact hin
      · exact ⟨(start_node h).1, suffix_rfl⟩
    · intro hin
      rcases eq_or_ne e (startPath start) with heq | hne
      · exact .inr heq
      · exact .inl ⟨hin, hne⟩
  · refine pairwise_append.mpr ⟨below_pairwise, pairwise_singleton _ _, ?_⟩
    intro x hx y hy
    obtain rfl := mem_singleton.mp hy
    exact fun hsuffix => absurd hsuffix.length_le (not_le.mpr (below_suffix hx).2)

theorem visited_eq (hfirst : AtFirstPage dev a start) :
    visited dev a start = belowStart dev a start ++ if start.isNone then [[]] else [] := by
  have hbelow : belowFrom (kids dev a) (firstOf dev (start.getD (ptStart dev 0)).pfn)
      (ptb - (start.getD (ptStart dev 0)).level) (startPath start) = belowStart dev a start := by
    refine belowFrom_eq_below ?_
    cases start with
    | none => exact atFirst_zero
    | some c => exact hfirst c rfl
  unfold visited
  rw [← hbelow]

theorem visited_right (h : StartOk dev a start) (hfirst : AtFirstPage dev a start) :
    VisitsRight dev a start (visited dev a start) := by
  obtain ⟨hmem, horder⟩ := subtree_right h
  rw [visited_eq hfirst]
  cases start with
  | none => exact ⟨fun e => (hmem e).trans (and_iff_left fun hnone => by cases hnone).symm, horder⟩
  | some c =>
    show VisitsRight dev a (some c) (belowStart dev a (some c) ++ [])
    rw [append_nil]
    refine ⟨fun e => (mem_belowStart h).trans ?_, (pairwise_append.mp horder).1⟩
    exact and_congr_right fun _ => ⟨fun hne _ => hne, fun hne => hne rfl⟩

theorem atFirstPage_of_visits (h : StartOk dev a start)
    (hvisits : VisitsRight dev a start (visited dev a start)) : AtFirstPage dev a start := by
  rintro c rfl
  by_contra hfirst
  obtain ⟨e, he, hnot⟩ := exists_not_mem_belowFrom hfirst
  obtain ⟨hin, hne⟩ := (mem_belowStart h).mp he
  have hmem : e ∈ visited dev a (some c) := (hvisits.mem e).mpr ⟨hin, fun _ => hne⟩
  rcases mem_append.mp hmem with hmem | hmem
  · exact hnot hmem
  · cases hmem

end

/-! ## The freeing -/

/-- The steps that are looked at: those that free a table, and those that touch a status list. -/
def IsLook (unlocked : Bool) (look : Event → Option Path) : Prop :=
  look = Event.freed? unlocked ∨ look = Event.touched?

section
variable {s : State} {e : Path} {look : Event → Option Path}

theorem ptFree_trace (hlook : IsLook false look) : (ptFree s e).trace.filterMap look =
    s.trace.filterMap look ++ [e].filter s.bo := by
  unfold ptFree
  cases hbo : s.bo e with
  | false =>
    rw [if_pos rfl, filter_singleton, hbo]
    exact (append_nil _).symm
  | true =>
    rw [if_neg (by decide), filter_singleton, hbo, filterMap_append,
      filterMap_append]
    rcases hlook with rfl | rfl <;> cases s.shadow e <;> rfl

theorem ptFree_bo {x : Path} (hne : x ≠ e) : (ptFree s e).bo x = s.bo x := by
  unfold ptFree
  split
  · rfl
  · exact Function.update_of_ne hne _ _

theorem foldl_ptFree (hlook : IsLook false look) {es : List Path} (hnodup : es.Nodup) :
    (es.foldl ptFree s).trace.filterMap look = s.trace.filterMap look ++ es.filter s.bo := by
  induction es generalizing s with
  | nil => exact (append_nil _).symm
  | cons e es ih =>
    obtain ⟨hnot, hnodup⟩ := nodup_cons.mp hnodup
    have hrest : es.filter (ptFree s e).bo = es.filter s.bo :=
      filter_congr fun x hx => ptFree_bo fun heq => hnot (heq ▸ hx)
    rw [foldl_cons, ih hnodup, ptFree_trace hlook, hrest, append_assoc,
      ← filter_append]
    rfl

theorem foldl_listMove (hlook : IsLook true look) (es : List Path) :
    (es.foldl listMove s).trace.filterMap look = s.trace.filterMap look ++ es := by
  induction es generalizing s with
  | nil => exact (append_nil _).symm
  | cons e es ih =>
    rw [foldl_cons, ih]
    show (s.trace ++ [Event.listMove e]).filterMap look ++ es = _
    rw [filterMap_append, append_assoc]
    rcases hlook with rfl | rfl <;> rfl

end

section
variable {dev : Device} {start : Option PtCursor} {s : State}

/-- The entries that `amdgpu_vm_pt_free_dfs` goes through: those of the walk, and the start. -/
def freeOrder (dev : Device) (a : Tables) (start : Option PtCursor) : List Path :=
  visited dev a start ++ if start.isSome then [startPath start] else []

theorem freeOrder_eq {a : Tables} (hfirst : AtFirstPage dev a start) :
    freeOrder dev a start = belowStart dev a start ++ [startPath start] := by
  rw [freeOrder, visited_eq hfirst]
  cases start with
  | none => exact append_nil _
  | some c => exact congrArg (· ++ [startPath (some c)]) (append_nil _)

theorem ptFreeDfs_eq (h : StartOk dev s.bo start) (unlocked : Bool) :
    ∃ N, ∀ fuel, N ≤ fuel → ptFreeDfs dev start unlocked fuel s =
      some (if unlocked then
        ((freeOrder dev s.bo start).foldl listMove (s.log [.statusLock])).log
          [.statusUnlock, .scheduleWork]
      else (freeOrder dev s.bo start).foldl ptFree s) := by
  have hlast : ∀ (body : State → Path → State) (t : State),
      (freeOrder dev s.bo start).foldl body t =
        if start.isSome then body ((visited dev s.bo start).foldl body t) (startPath start)
        else (visited dev s.bo start).foldl body t := by
    intro body t
    rw [freeOrder, foldl_append]
    split <;> rfl
  cases unlocked with
  | true =>
    obtain ⟨N, hN⟩ := @dfs_visits State dev State.bo start listMove (s.log [.statusLock])
      (fun _ _ _ _ => rfl) h
    refine ⟨N, fun fuel hfuel => ?_⟩
    rw [hlast listMove, ptFreeDfs]
    dsimp only
    rw [if_pos rfl, hN fuel hfuel]
    rfl
  | false =>
    obtain ⟨N, hN⟩ := @dfs_visits State dev State.bo start ptFree s
      (fun _ _ _ hne => ptFree_bo hne) h
    refine ⟨N, fun fuel hfuel => ?_⟩
    rw [hlast ptFree, ptFreeDfs]
    dsimp only
    rw [if_neg Bool.false_ne_true, hN fuel hfuel]
    rfl

def AllTables (dev : Device) (a : Tables) (start : Option PtCursor) : Prop :=
  ∀ e, InSubtree dev a start e → a e = true

theorem freeSteps (unlocked : Bool) {look : Event → Option Path} (hlook : IsLook unlocked look)
    (htrace : s.trace = []) {es : List Path} (hnodup : es.Nodup) :
    (if unlocked then (es.foldl listMove (s.log [.statusLock])).log [.statusUnlock, .scheduleWork]
      else es.foldl ptFree s).trace.filterMap look =
      if unlocked then es else es.filter s.bo := by
  cases unlocked with
  | true =>
    show ((es.foldl listMove (s.log [.statusLock])).trace ++
      [Event.statusUnlock, .scheduleWork]).filterMap look = es
    rw [filterMap_append, foldl_listMove hlook]
    show ((s.trace ++ [Event.statusLock]).filterMap look ++ es) ++ _ = es
    rw [htrace]
    rcases hlook with rfl | rfl <;> exact append_nil es
  | false =>
    show (es.foldl ptFree s).trace.filterMap look = es.filter s.bo
    rw [foldl_ptFree hlook hnodup, htrace]
    rfl

end

variable {dev : Device} {a : Tables} {start : Option PtCursor}

theorem freeOrder_nodup (h : StartOk dev a start) (hfirst : AtFirstPage dev a start) :
    (freeOrder dev a start).Nodup := by
  rw [freeOrder_eq hfirst]
  refine (subtree_right h).2.imp fun {x y} (hnot : ¬ x <:+ y) (heq : x = y) => hnot ?_
  subst heq
  exact suffix_rfl

theorem DfsRight.cond {unlocked : Bool} (hright : DfsRight dev a start unlocked)
    (h : StartOk dev a start) :
    AtFirstPage dev a start ∧ (unlocked = true → AllTables dev a start) := by
  have hfirst : AtFirstPage dev a start := by
    obtain ⟨es, hvisits, N, hN⟩ := hright.visits id (fun s _ => s) a rfl fun _ _ _ _ => rfl
    obtain ⟨N', hN'⟩ := @dfs_visits Tables dev id start (fun s _ => s) a (fun _ _ _ _ => rfl) h
    have heq := (hN (max N N') (le_max_left ..)).symm.trans (hN' _ (le_max_right ..))
    have hes : es = visited dev a start := congrArg Prod.fst (some.inj heq)
    exact atFirstPage_of_visits h (hes ▸ hvisits)
  refine ⟨hfirst, ?_⟩
  rintro rfl e he
  obtain ⟨s', hfree, N, hN⟩ := hright.free ⟨a, fun _ => false, []⟩ rfl rfl
  obtain ⟨N', hN'⟩ := @ptFreeDfs_eq dev start ⟨a, fun _ => false, []⟩ h true
  have heq := (hN (max N N') (le_max_left ..)).symm.trans (hN' _ (le_max_right ..))
  obtain rfl := some.inj heq
  refine hfree.touched e ?_
  rw [freeSteps true (.inr rfl) rfl (freeOrder_nodup h hfirst), if_pos rfl, freeOrder_eq hfirst]
  exact ((subtree_right h).1 e).mpr he

/-- The walk and the freeing of page tables are right exactly where the start has the first page of
the tables below it and, if the reservation is not held, every entry of the subtree has a BO. -/
theorem pt_free_dfs_right_iff (dev : Device) (a : Tables) {start : Option PtCursor}
    (h : StartOk dev a start) (unlocked : Bool) :
    DfsRight dev a start unlocked ↔
      AtFirstPage dev a start ∧ (unlocked = true → AllTables dev a start) := by
  refine ⟨fun hright => hright.cond h, ?_⟩
  rintro ⟨hfirst, hall⟩
  constructor
  · rintro σ bo body s rfl hbody
    obtain ⟨N, hN⟩ := dfs_visits hbody h
    exact ⟨_, visited_right h hfirst, N, hN⟩
  · rintro s rfl htrace
    obtain ⟨N, hN⟩ := ptFreeDfs_eq h unlocked
    have hnodup := freeOrder_nodup h hfirst
    have hmem : ∀ e, e ∈ (if unlocked then freeOrder dev s.bo start
        else (freeOrder dev s.bo start).filter s.bo) ↔
        InSubtree dev s.bo start e ∧ s.bo e = true := by
      intro e
      have hin := (subtree_right h).1 e
      rw [← freeOrder_eq hfirst] at hin
      cases unlocked with
      | true => exact hin.trans (and_iff_left_of_imp (hall rfl e)).symm
      | false => exact mem_filter.trans (and_congr_left fun _ => hin)
    refine ⟨_, ⟨fun e => ?_, ?_, fun e he => ?_⟩, N, hN⟩
    · rw [freeSteps unlocked (.inl rfl) htrace hnodup]
      exact hmem e
    · rw [freeSteps unlocked (.inl rfl) htrace hnodup]
      split
      · exact hnodup
      · exact hnodup.filter _
    · rw [freeSteps unlocked (.inr rfl) htrace hnodup] at he
      exact ((hmem e).mp he).2

def exDevice : Device :=
  { rootLevel := 1, blockSize := 9, maxPfn := 2 ^ 18, rootLevel_lt := by decide,
    maxPfn_pos := by decide }

def exTables : Tables := fun p => p = [] || p = [0] || p = [0, 0]

def exStart : Option PtCursor := some { pfn := 0, parent := some [], entry := some [0], level := 2 }

theorem exStart_ok : StartOk exDevice exTables exStart :=
  ⟨[0], ⟨rfl, rfl, rfl⟩, .child .root (by decide), fun hnil => by cases hnil⟩

/-- With the reservation held the page directory is freed with its page table. -/
theorem pt_free_dfs_right_locked : DfsRight exDevice exTables exStart false :=
  (pt_free_dfs_right_iff exDevice exTables exStart_ok false).mpr
    ⟨atFirstPage_of_dvd ⟨rfl, rfl, rfl⟩ (by decide) (Nat.dvd_zero _), fun h => by cases h⟩

/-- Without it the status list of the entry after the page table is touched. -/
theorem pt_free_dfs_no_table : ¬ DfsRight exDevice exTables exStart true := by
  intro hright
  have hnode : Node (kids exDevice exTables) [1, 0] :=
    .child (.child .root (by decide)) (by decide)
  have hall := (hright.cond exStart_ok).2 rfl [1, 0] ⟨hnode, suffix_cons 1 [0]⟩
  cases hall

end Amdkfd.VmPt
