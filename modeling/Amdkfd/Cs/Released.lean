import Mathlib.Data.List.TakeWhile
import Amdkfd.Cs.Release

/-!
# What a command submission releases

A HMM range is on record in its entry, next to `user_pages`. The label `out_free_user_pages` only
looks at entries that still have their pages, and behind `amdgpu_cs_parser_bos` only
`amdgpu_cs_submit` looks at the entries at all.
-/

namespace Amdkfd.Cs

open Lib List Option

/-! ## HMM ranges -/

/-- The ranges of the entries that meet `f`, from the `i`th entry on. -/
def rangesOf (f : Entry → Bool) : Nat → List Entry → Multiset Res
  | _, [] => 0
  | i, e :: es => (if f e then {.range i} else 0) + rangesOf f (i + 1) es

theorem rangesOf_eq_zero {f : Entry → Bool} {i : Nat} {es : List Entry} :
    rangesOf f i es = 0 ↔ ∀ e ∈ es, f e = false := by
  induction es generalizing i with
  | nil => simp [rangesOf]
  | cons e es ih =>
    have hadd : rangesOf f i (e :: es) = 0 ↔
        (if f e then ({.range i} : Multiset Res) else 0) = 0 ∧ rangesOf f (i + 1) es = 0 := by
      rw [rangesOf, ← Multiset.card_eq_zero, Multiset.card_add, Nat.add_eq_zero_iff,
        Multiset.card_eq_zero, Multiset.card_eq_zero]
    rw [hadd, ih, forall_mem_cons]
    refine and_congr_left fun _ => ?_
    cases f e <;> simp

def Entry.staysAtFree (e : Entry) : Bool := e.range && (!e.userPages || e.bo.userptr == 0)

/-- An entry whose range is not given back in `amdgpu_cs_submit`. -/
def Entry.staysAtDone (e : Entry) : Bool := e.range && e.bo.userptr == 0

def Userptr.gets (u : Userptr) : Bool := u.userPages && u.getUserPages == none

/-- The error of the first loop of `amdgpu_cs_parser_bos` at an entry. -/
def Userptr.getError (u : Userptr) : Option Errno :=
  if u.userPages = false then some .enomem else u.getUserPages

def Userptr.got (u : Userptr) : Entry := { bo := u, userPages := true, range := true }

def Userptr.fresh (u : Userptr) : Entry := { bo := u }

/-- The entries after the first loop of `amdgpu_cs_parser_bos`. -/
def gotEntries : List Userptr → List Entry
  | [] => []
  | u :: us => if u.gets then u.got :: gotEntries us else (u :: us).map Userptr.fresh

theorem Userptr.gets_iff {u : Userptr} : u.gets = true ↔ u.getError = none := by
  unfold Userptr.gets Userptr.getError
  cases u.userPages <;> simp

theorem gotEntries_all {us : List Userptr} (h : ∀ u ∈ us, u.gets = true) :
    gotEntries us = us.map Userptr.got := by
  induction us with
  | nil => rfl
  | cons u us ih =>
    obtain ⟨hu, hus⟩ := forall_mem_cons.mp h
    rw [gotEntries, if_pos hu, ih hus]
    rfl

theorem gotEntries_forall {us : List Userptr} {f : Entry → Bool}
    (hfresh : ∀ u : Userptr, f u.fresh = false) :
    (∀ e ∈ gotEntries us, f e = false) ↔ ∀ u ∈ us.takeWhile Userptr.gets, f u.got = false := by
  induction us with
  | nil => simp [gotEntries]
  | cons u us ih =>
    rw [gotEntries]
    by_cases hu : u.gets
    · rw [if_pos hu, takeWhile_cons_of_pos hu, forall_mem_cons, forall_mem_cons, ih]
    · rw [if_neg hu, takeWhile_cons_of_neg hu]
      simp [hfresh]

section
variable {fences : List Bo} {m : Multiset Res} {p q : Parser}

theorem getUserPages_spec (us : List Userptr) (i : Nat) (h : Owns fences m p) :
    (getUserPages i (us.map Userptr.fresh) p).1.2 = gotEntries us ∧
      (getUserPages i (us.map Userptr.fresh) p).2 = us.findSome? Userptr.getError ∧
      Owns fences (rangesOf (·.range) i (gotEntries us) + m)
        (getUserPages i (us.map Userptr.fresh) p).1.1 ∧
      OnlyLedger p (getUserPages i (us.map Userptr.fresh) p).1.1 := by
  have hnone : ∀ (i : Nat) (us : List Userptr),
      rangesOf (·.range) i (us.map Userptr.fresh) = 0 := by
    intro i us
    rw [rangesOf_eq_zero]
    simp [Userptr.fresh]
  induction us generalizing i m p with
  | nil => exact ⟨rfl, rfl, by simpa [rangesOf, gotEntries, getUserPages] using h, rfl⟩
  | cons u us ih =>
    rw [map_cons, getUserPages, findSome?_cons, gotEntries]
    by_cases hpages : u.userPages = false
    · have hgets : ¬u.gets = true := by simp [Userptr.gets, hpages]
      have herr : u.getError = some .enomem := by rw [Userptr.getError, if_pos hpages]
      rw [if_pos (show u.fresh.bo.userPages = false from hpages), if_neg hgets, herr, hnone,
        zero_add]
      exact ⟨rfl, rfl, h, rfl⟩
    · rw [if_neg (show ¬u.fresh.bo.userPages = false from hpages)]
      have herr : u.getError = u.getUserPages := by rw [Userptr.getError, if_neg hpages]
      cases hget : u.getUserPages with
      | some e =>
        have hgets : ¬u.gets = true := by simp [Userptr.gets, hget]
        rw [if_neg hgets, herr, hget, hnone, zero_add,
          show u.fresh.bo.getUserPages = some e from hget]
        exact ⟨rfl, rfl, h, rfl⟩
      | none =>
        have hgets : u.gets = true := Userptr.gets_iff.mpr (herr.trans hget)
        rw [if_pos hgets, herr, hget, show u.fresh.bo.getUserPages = none from hget]
        obtain ⟨hes, hres, howns, honly⟩ := ih (i + 1) (h.take (.range i))
        dsimp only
        refine ⟨by rw [hes]; rfl, hres, howns.of_eq ?_, ?_⟩
        · rw [rangesOf, if_pos (show u.got.range = true from rfl)]
          abel
        · dsimp only [OnlyLedger] at honly ⊢
          rw [honly]
          rfl

variable {i : Nat} {c : Chunk} {s : Pass1}

theorem Owns.done {e : Entry} (h : Owns fences ((if e.range then {.range i} else 0) + m) p) :
    Owns fences ((if e.staysAtDone then {.range i} else 0) + m)
        (amdgpuTtmTtGetUserPagesDone i e p).1 := by
  unfold amdgpuTtmTtGetUserPagesDone Entry.staysAtDone
  cases hrange : e.range with
  | false => simpa [hrange] using h
  | true =>
    rw [hrange, if_pos rfl] at h
    by_cases hptr : e.bo.userptr = 0
    · simpa [hptr] using h
    · simpa [hptr] using h.give

theorem amdgpuTtmTtGetUserPagesDone_only {e : Entry} :
    OnlyLedger p (amdgpuTtmTtGetUserPagesDone i e p).1 := by
  unfold amdgpuTtmTtGetUserPagesDone
  split <;> rfl

theorem OnlyLedger.trans {r : Parser} (h : OnlyLedger p q) (h' : OnlyLedger q r) :
    OnlyLedger p r := by
  dsimp only [OnlyLedger] at h h' ⊢
  rw [h', h]

theorem freeUserPages_owns {es : List Entry} (h : Owns fences (rangesOf (·.range) i es + m) p) :
    Owns fences (rangesOf Entry.staysAtFree i es + m) (freeUserPages i es p).1 ∧
      OnlyLedger p (freeUserPages i es p).1 := by
  induction es generalizing i m p with
  | nil => exact ⟨h, rfl⟩
  | cons e es ih =>
    rw [rangesOf, add_assoc] at h
    rw [freeUserPages, rangesOf]
    by_cases hpages : e.userPages = false
    · rw [if_pos hpages]
      obtain ⟨howns, honly⟩ := ih (h.of_eq (by abel :
        _ = rangesOf (·.range) (i + 1) es + ((if e.range then {Res.range i} else 0) + m)))
      refine ⟨howns.of_eq ?_, honly⟩
      have hstays : e.staysAtFree = e.range := by simp [Entry.staysAtFree, hpages]
      rw [hstays]
      abel
    · rw [if_neg hpages]
      obtain ⟨howns, honly⟩ := ih (h.done.of_eq (by abel :
        _ = rangesOf (·.range) (i + 1) es + ((if e.staysAtDone then {Res.range i} else 0) + m)))
      refine ⟨howns.of_eq ?_, amdgpuTtmTtGetUserPagesDone_only.trans honly⟩
      have hstays : e.staysAtFree = e.staysAtDone := by
        simp [Entry.staysAtFree, Entry.staysAtDone, hpages]
      rw [hstays]
      abel

theorem userPagesDone_owns {es : List Entry} (h : Owns fences (rangesOf (·.range) i es + m) p) :
    Owns fences (rangesOf Entry.staysAtDone i es + m) (userPagesDone i es p).1.1 ∧
      OnlyLedger p (userPagesDone i es p).1.1 := by
  induction es generalizing i m p with
  | nil => exact ⟨h, rfl⟩
  | cons e es ih =>
    rw [rangesOf, add_assoc] at h
    rw [userPagesDone, rangesOf]
    obtain ⟨howns, honly⟩ := ih (h.done.of_eq (by abel :
      _ = rangesOf (·.range) (i + 1) es + ((if e.staysAtDone then {Res.range i} else 0) + m)))
    refine ⟨howns.of_eq ?_, amdgpuTtmTtGetUserPagesDone_only.trans honly⟩
    abel

/-! ## The entries of the list -/

/-- The user pointers of a list that is made from its entries, the last one first. -/
def listUserptrs (entry : Nat → Option Bo) (n : Nat) : List Userptr :=
  ((List.range n).filterMap fun i => (entry i).bind Bo.userptr).reverse

def Parser.listEntries (p : Parser) : Option (List Entry) := p.boList.map (·.entries)

theorem addEntry_back {entry : Nat → Option Bo} {s : ListLoop}
    (h : entryLookupError entry i = none) :
    (addEntry entry i s).1.back.map (·.2) =
      ((entry i).bind Bo.userptr).toList ++ s.back.map (·.2) := by
  unfold entryLookupError at h
  unfold addEntry
  cases hbo : entry i with
  | none =>
    rw [hbo] at h
    cases h
  | some bo =>
    rw [hbo] at h
    dsimp only at h ⊢
    rw [bind_some]
    cases hu : bo.userptr with
    | none => rfl
    | some u =>
      rw [hu] at h
      dsimp only at h ⊢
      split at h
      · rename_i hcurrent
        rw [if_pos hcurrent]
        rfl
      · cases h

theorem amdgpuBoListCreate_entries {alloc : Bool} {entry : Nat → Option Bo} {n : Nat}
    (h : listError alloc entry n = none) :
    (amdgpuBoListCreate alloc entry n p).1.listEntries =
      some ((listUserptrs entry n).map Userptr.fresh) := by
  unfold listError at h
  unfold amdgpuBoListCreate
  split at h
  · cases h
  rename_i halloc
  rw [if_neg halloc]
  obtain ⟨herr, hback⟩ : (eachUntil (addEntry entry) (List.range n) { p := p.take .list }).2 =
        firstError (fun _ => entryLookupError entry) [] (List.range n) ∧
      (firstError (fun _ => entryLookupError entry) [] (List.range n) = none →
        (eachUntil (addEntry entry) (List.range n) { p := p.take .list }).1.back.map (·.2) =
          ((List.range n).filterMap fun i => (entry i).bind Bo.userptr).reverse) := by
    refine eachUntil_spec (P := fun _ => True) (R := fun is (s : ListLoop) =>
      s.back.map (·.2) = (is.filterMap fun i => (entry i).bind Bo.userptr).reverse) ?_ ?_
      (fun _ _ => trivial) rfl
    · exact fun _ i s _ _ => addEntry_error entry i s
    · intro before i s _ hs hok
      rw [addEntry_back hok, hs, filterMap_append, reverse_append]
      congr 1
      cases hu : (entry i).bind Bo.userptr <;> simp [hu]
  rw [firstError_const] at herr hback
  have hback := hback h
  generalize eachUntil (addEntry entry) (List.range n) { p := p.take .list } = x at herr hback ⊢
  obtain ⟨s, e⟩ := x
  obtain rfl : e = none := herr.trans h
  dsimp only [Parser.listEntries, map_some] at hback ⊢
  rw [listUserptrs, ← hback, List.map_map]
  rfl

def chunkEntries (cs : List Chunk) : Option (List Entry) :=
  (cs.find? (·.id = .boHandles)).map fun c => (listUserptrs c.entry (c.dw 2)).map Userptr.fresh

theorem chunkEntries_append_of_ne {before : List Chunk} (h : c.id ≠ .boHandles) :
    chunkEntries (before ++ [c]) = chunkEntries before := by
  unfold chunkEntries
  rw [find?_append]
  simp [h]

theorem pass1Chunk_boList (h : c.id ≠ .boHandles) : (pass1Chunk c s).1.p.boList = s.p.boList := by
  unfold pass1Chunk
  split
  · rfl
  split
  · rfl
  split
  · rfl
  cases hid : c.id with
  | ib =>
    dsimp only
    split
    · rfl
    · unfold amdgpuCsP1Ib
      rw [amdgpuCsJobIdx_spec]
      cases jobIdxError c.lookup1 s.p.gang c with
      | some e => rfl
      | none => dsimp only; split <;> rfl
  | fence =>
    dsimp only
    split
    · rfl
    · unfold amdgpuCsP1UserFence
      cases c.bo with
      | none => rfl
      | some bo =>
        dsimp only
        split
        · rfl
        · split <;> rfl
  | boHandles => exact absurd hid h
  | _ => rfl

theorem pass1Chunk_entries {before : List Chunk} (hp : Parsed before s)
    (hs : s.p.listEntries = chunkEntries before) (hok : chunkError1 before c = none) :
    (pass1Chunk c s).1.p.listEntries = chunkEntries (before ++ [c]) := by
  by_cases hid : c.id = .boHandles
  · obtain ⟨h1, h2, h3⟩ := copied_of_ok hok
    unfold chunkError1 at hok
    unfold pass1Chunk
    rw [if_neg (by simp [h1]), if_neg (by simp [h2]), if_neg (by simp [h3]), hid] at hok ⊢
    dsimp only at hok ⊢
    split at hok
    · cases hok
    rename_i hlen
    split at hok
    · cases hok
    rename_i hany
    have hany : before.any (·.id = .boHandles) = false := by simpa using hany
    rw [if_neg hlen, if_neg (not_not.mpr (hp.boList.mpr hany))]
    obtain ⟨hinfo, hlist⟩ := or_eq_none_iff.mp hok
    rw [amdgpuCsP1BoHandles, hinfo]
    dsimp only
    rw [amdgpuBoListCreate_entries hlist, chunkEntries, find?_append]
    have hfind : before.find? (·.id = .boHandles) = none := by
      simpa [find?_eq_none] using hany
    simp [hfind, hid]
  · rw [chunkEntries_append_of_ne hid, ← hs, Parser.listEntries, pass1Chunk_boList hid]
    rfl

theorem Parser.listEntries_congr (h : q.boList = p.boList) : q.listEntries = p.listEntries := by
  rw [Parser.listEntries, h]
  rfl

theorem pass1Jobs_boList {call : Call} : (pass1Jobs call s).1.boList = s.p.boList := by
  have hloop :
      (eachUntil (amdgpuJobAlloc call s.numIbs) (List.range s.p.gang.length) s.p).1.boList =
        s.p.boList := by
    refine eachUntil_inv (I := fun q : Parser => q.boList = s.p.boList) (fun i _ q hq => ?_) rfl
    unfold amdgpuJobAlloc
    split
    · exact hq
    · split <;> exact hq
  unfold pass1Jobs
  split
  · rfl
  refine andThen_inv (I := fun q : Parser => q.boList = s.p.boList) hloop fun _ => ?_
  dsimp only
  split
  · exact hloop
  · split <;> exact hloop

theorem pass1_entries (call : Call) (hp : Fresh p) (hok : pass1Error call = none) :
    (amdgpuCsPass1 call p).1.listEntries = chunkEntries call.chunks := by
  obtain ⟨herr, hloop⟩ : (eachUntil pass1Chunk call.chunks { p }).2 =
        firstError chunkError1 [] call.chunks ∧
      (firstError chunkError1 [] call.chunks = none →
        Parsed call.chunks (eachUntil pass1Chunk call.chunks { p }).1 ∧
        (eachUntil pass1Chunk call.chunks { p }).1.p.listEntries = chunkEntries call.chunks) := by
    refine eachUntil_spec (P := fun _ => True)
      (R := fun cs s => Parsed cs s ∧ s.p.listEntries = chunkEntries cs) ?_ ?_
      (fun _ _ => trivial) ⟨hp.parsed, ?_⟩
    · exact fun _ _ _ _ hs => pass1Chunk_error hs.1
    · exact fun _ _ _ _ hs hok => ⟨hs.1.chunk hok, pass1Chunk_entries hs.1 hs.2 hok⟩
    · dsimp only [Fresh] at hp
      rw [hp]
      rfl
  unfold pass1Error at hok
  unfold amdgpuCsPass1
  split at hok
  · cases hok
  split at hok
  · cases hok
  split at hok
  · cases hok
  rename_i h1 h2 h3
  rw [if_neg h1, if_neg h2, if_neg h3]
  obtain ⟨hchunks, -⟩ := or_eq_none_iff.mp hok
  obtain ⟨hparsed, hentries⟩ := hloop hchunks
  dsimp only
  rw [herr, hchunks]
  dsimp only
  rw [← hentries]
  exact Parser.listEntries_congr pass1Jobs_boList

/-! ## What pass 2 leaves alone -/

def SameList (p q : Parser) : Prop := q.boList = p.boList ∧ q.gangLeader = p.gangLeader

theorem SameList.of_sameJobs (h : SameJobs p q) : SameList p q := by
  dsimp only [SameJobs] at h
  rw [h]
  exact ⟨rfl, rfl⟩

theorem fillIb_sameList (c : Chunk) (r : Nat) (s : Pass2) : SameList s.p (fillIb c r s).1.p := by
  unfold fillIb
  split
  · exact ⟨rfl, rfl⟩
  dsimp only
  rw [countPreempt_p]
  split
  · rw [countPreempt_p]
    exact ⟨rfl, rfl⟩
  · cases c.ibGet <;> (dsimp only; split <;> exact ⟨rfl, rfl⟩)

theorem fillPostDeps_sameList {size : Nat} {body : Nat → Parser → Parser × Option Errno}
    (hbody : ∀ i ∈ List.range (c.numDeps size), ∀ q, Posted c p q → Posted c p (body i q).1) :
    SameList p (fillPostDeps c size body p).1 := by
  unfold fillPostDeps
  split
  · exact ⟨rfl, rfl⟩
  split
  · exact ⟨rfl, rfl⟩
  · have hstart : Posted c p { p with postDeps := some [] } :=
      ⟨rfl, ReadsInside.refl.of_eq rfl, nofun⟩
    exact .of_sameJobs (eachUntil_inv hbody hstart).same

theorem pass2Chunk_sameList (c : Chunk) (s : Pass2) : SameList s.p (pass2Chunk c s).1.p := by
  unfold pass2Chunk
  cases c.id with
  | ib =>
    dsimp only
    unfold amdgpuCsP2Ib
    rw [amdgpuCsJobIdx_spec]
    cases jobIdxError c.lookup2 (s.p.read c [5, 6, 7]).gang c with
    | some e => exact ⟨rfl, rfl⟩
    | none => exact fillIb_sameList c _ _
  | dependencies | scheduledDependencies =>
    obtain ⟨ds, -, heq⟩ := amdgpuCsP2Dependencies_spec c s.p
    simp only [Pass2.lift, heq]
    exact ⟨rfl, rfl⟩
  | syncobjIn =>
    obtain ⟨ds, -, heq⟩ := amdgpuCsP2SyncobjIn_spec c s.p
    simp only [Pass2.lift, heq]
    exact ⟨rfl, rfl⟩
  | syncobjTimelineWait =>
    obtain ⟨ds, -, heq⟩ := amdgpuCsP2SyncobjTimelineWait_spec c s.p
    simp only [Pass2.lift, heq]
    exact ⟨rfl, rfl⟩
  | syncobjOut => exact fillPostDeps_sameList fun _ hi _ hq => hq.syncobjOut hi
  | syncobjTimelineSignal =>
    exact fillPostDeps_sameList fun _ hi _ hq => hq.syncobjTimelineSignal hi
  | cpGfxShadow =>
    dsimp only [Pass2.lift, amdgpuCsP2Shadow]
    split <;> exact ⟨rfl, rfl⟩
  | _ => exact ⟨rfl, rfl⟩

theorem amdgpuCsPass2_sameList (call : Call) (p : Parser) :
    SameList p (amdgpuCsPass2 call p).1 := by
  refine eachUntil_inv (I := fun s : Pass2 => SameList p s.p) (fun c _ s hs => ?_) ⟨rfl, rfl⟩
  have hstep := pass2Chunk_sameList c s
  exact ⟨hstep.1.trans hs.1, hstep.2.trans hs.2⟩

/-! ## The later stages, read off the call -/

end

def userptrs (call : Call) : List Userptr :=
  match call.boListHandle with
  | some handle => handle.getD []
  | none =>
    match call.chunks.find? (·.id = .boHandles) with
    | some c => listUserptrs c.entry (c.dw 2)
    | none => []

/-- The error of `amdgpu_cs_parser_bos` before it has a list. -/
def boListError (call : Call) : Option Errno :=
  match call.boListHandle with
  | some handle =>
    if call.chunks.any (·.id = .boHandles) then some .einval
    else if handle = none then some .enoent else none
  | none =>
    if call.chunks.any (·.id = .boHandles) = false ∧ call.emptyList = false then some .enomem
    else none

/-- The error of `amdgpu_cs_parser_bos` behind its second loop. -/
def validateBosError (call : Call) : Option Errno :=
  call.validatePtBos.or
    (call.boValidate.or (if call.chunks.any (·.id = .fence) then call.allocGart else none))

def gangLeaderOf (call : Call) : Option Nat :=
  (ibChunks call.chunks).getLast?.map fun c => (gangOf call.chunks).idxOf c.entity

/-- The error of `amdgpu_cs_submit` before it ends the tracking of the ranges. -/
def armError (call : Call) : Option Errno :=
  (List.range (gangOf call.chunks).length).findSome? fun i =>
    if gangLeaderOf call = some i then none else call.addDependency i

/-- The first error between the second loop of `amdgpu_cs_parser_bos` and the end of the
tracking. -/
def lateError (call : Call) : Option Errno :=
  (validateBosError call).or
    ((call.patchJobs.or (call.vmHandling.or call.syncRings)).or (armError call))

/-- Every HMM range that the call gets is given back. -/
structure RangesBack (call : Call) : Prop where
  /-- `amdgpu_ttm_tt_get_user_pages_done` takes no notice of a range at address zero. -/
  address : ∀ u ∈ (userptrs call).takeWhile Userptr.gets, u.userptr ≠ 0
  /-- Either the second loop fails at the first entry, or nothing fails from there on. -/
  late : (∀ u ∈ userptrs call, u.gets = true) → call.lockAll = none →
    ∀ u ∈ (userptrs call).head?, entryError u.got ≠ none ∨
      ((userptrs call).findSome? fun u => entryError u.got) = none ∧ lateError call = none

section
variable {fences : List Bo} {m : Multiset Res} {p q : Parser}

/-! ## With the list locked -/

theorem Owns.setEntries (h : Owns fences m p) (es : List Entry) :
    Owns fences m (p.setEntries es) := by
  refine ⟨h.ledger.congr ?_, h.ufBo, h.chunks, h.fault⟩
  have hlist : (p.setEntries es).boList.map BoList.res = p.boList.map BoList.res := by
    rw [Parser.setEntries, Option.map_map]
    rfl
  rw [Parser.owned, Parser.owned, hlist]
  rfl

variable {es : List Entry} {call : Call}

theorem setEntries_entries (es' : List Entry) (h : p.listEntries = some es) :
    (p.setEntries es').listEntries = some es' := by
  unfold Parser.listEntries at h ⊢
  obtain ⟨l, hl, -⟩ := map_eq_some_iff.mp h
  rw [Parser.setEntries, hl]
  rfl

theorem entries_of_listEntries (h : p.listEntries = some es) : p.entries = es := by
  unfold Parser.listEntries at h
  rw [Parser.entries, h]
  rfl

theorem getBoList_spec (h : Owns fences m p) (hlist : p.listEntries = chunkEntries call.chunks) :
    (getBoList call p).2 = boListError call ∧ Owns fences m (getBoList call p).1 ∧
      (boListError call = none →
        (getBoList call p).1.listEntries = some ((userptrs call).map Userptr.fresh)) ∧
      (getBoList call p).1 =
        { p with
          ledger := (getBoList call p).1.ledger
          boList := (getBoList call p).1.boList } := by
  have hnone : p.boList = none ↔ call.chunks.any (·.id = .boHandles) = false := by
    have hmap : p.boList = none ↔ p.listEntries = none := by simp [Parser.listEntries]
    rw [hmap, hlist, chunkEntries, map_eq_none_iff, find?_eq_none, List.any_eq_false]
  unfold getBoList boListError userptrs
  cases hhandle : call.boListHandle with
  | some handle =>
    dsimp only
    by_cases hp : p.boList = none
    · rw [if_neg (not_not.mpr hp), hnone.mp hp, if_neg Bool.false_ne_true]
      cases handle with
      | none => exact ⟨rfl, h, (fun herr => by cases herr), rfl⟩
      | some us =>
        refine ⟨rfl, ⟨h.ledger.take.congr ?_, h.ufBo, h.chunks, h.fault⟩, fun _ => rfl, rfl⟩
        simp only [Parser.owned, Parser.take, hp, map_none, getD_none,
          map_some, getD_some, BoList.res, map_nil, Multiset.coe_nil,
          Multiset.coe_singleton]
        abel
    · have hany : call.chunks.any (·.id = .boHandles) = true := by
        simpa using fun hfalse => hp (hnone.mpr hfalse)
      rw [if_pos hp, if_pos hany]
      exact ⟨rfl, h, (fun herr => by cases herr), rfl⟩
  | none =>
    dsimp only
    by_cases hp : p.boList = none
    · rw [if_pos hp]
      have hany := hnone.mp hp
      have hfind : call.chunks.find? (·.id = .boHandles) = none := by
        simpa [find?_eq_none] using hany
      obtain ⟨hframe, -⟩ := amdgpuBoListCreate_frame call.emptyList (fun _ => none) 0 p
      have herr := amdgpuBoListCreate_error call.emptyList (fun _ => none) 0 p
      have hlisterr : listError call.emptyList (fun _ => none) 0 =
          if call.chunks.any (·.id = .boHandles) = false ∧ call.emptyList = false then
            some .enomem else none := by
        unfold listError
        cases call.emptyList <;> simp [hany]
      refine ⟨herr.trans hlisterr, h.boListCreate hp _ _ _, fun hok => ?_, hframe⟩
      rw [amdgpuBoListCreate_entries (hlisterr.trans hok), hfind]
      rfl
    · rw [if_neg hp]
      have hany : call.chunks.any (·.id = .boHandles) = true := by
        simpa using fun hfalse => hp (hnone.mpr hfalse)
      refine ⟨by simp [hany], h, fun _ => ?_, rfl⟩
      rw [hlist, chunkEntries]
      obtain ⟨c, hc, hid⟩ := any_eq_true.mp hany
      cases hfind : call.chunks.find? (·.id = .boHandles) with
      | none => exact absurd hid (by simpa using (find?_eq_none.mp hfind) c hc)
      | some c => rfl

def Entry.clear (e : Entry) : Entry := { e with userPages := false }

theorem setUserPages_error (es : List Entry) :
    (setUserPages es).2 = es.findSome? entryError := by
  induction es with
  | nil => rfl
  | cons e es ih =>
    rw [setUserPages, findSome?_cons]
    cases entryError e with
    | some err => rfl
    | none => exact ih

theorem setUserPages_all (h : es.findSome? entryError = none) :
    (setUserPages es).1 = es.map Entry.clear := by
  induction es with
  | nil => rfl
  | cons e es ih =>
    rw [findSome?_cons] at h
    rw [setUserPages]
    cases he : entryError e with
    | some err =>
      rw [he] at h
      cases h
    | none =>
      rw [he] at h
      dsimp only
      rw [ih h]
      rfl

theorem setUserPages_ranges {i : Nat} :
    rangesOf (·.range) i (setUserPages es).1 = rangesOf (·.range) i es := by
  induction es generalizing i with
  | nil => rfl
  | cons e es ih =>
    rw [setUserPages]
    cases entryError e with
    | some err => rfl
    | none =>
      dsimp only
      rw [rangesOf, rangesOf, ih]

def SameGang (p q : Parser) : Prop :=
  q.gang = p.gang ∧ q.gangLeader = p.gangLeader ∧ q.ufBo = p.ufBo

theorem getUserPages_mutex (us : List Userptr) (h : Owns fences m p) :
    (getUserPages 0 (us.map Userptr.fresh) (p.take .mutex)).1.2 = gotEntries us ∧
      (getUserPages 0 (us.map Userptr.fresh) (p.take .mutex)).2 = us.findSome? Userptr.getError ∧
      Owns fences (rangesOf (·.range) 0 (gotEntries us) + ({.mutex} + m))
        (getUserPages 0 (us.map Userptr.fresh) (p.take .mutex)).1.1 ∧
      OnlyLedger p (getUserPages 0 (us.map Userptr.fresh) (p.take .mutex)).1.1 := by
  obtain ⟨hes, herr, howns, honly⟩ := getUserPages_spec us 0 (h.take .mutex)
  refine ⟨hes, herr, howns, OnlyLedger.trans ?_ honly⟩
  rfl

theorem getUserPages_listEntries (us : List Userptr) (h : Owns fences m p)
    (hes : p.listEntries = some (us.map Userptr.fresh)) :
    (getUserPages 0 (us.map Userptr.fresh) (p.take .mutex)).1.1.listEntries =
      some (us.map Userptr.fresh) := by
  obtain ⟨-, -, -, honly⟩ := getUserPages_mutex us h
  dsimp only [OnlyLedger] at honly
  rw [honly]
  exact hes

theorem lockedBos_early {us : List Userptr} {e : Errno} (h : Owns fences m p)
    (hes : p.listEntries = some (us.map Userptr.fresh))
    (herr : (us.findSome? Userptr.getError).or call.lockAll = some e) :
    (lockedBos call p).2 = some e ∧
      (lockedBos call p).1.listEntries = some (gotEntries us) ∧
      Owns fences (rangesOf (·.range) 0 (gotEntries us) + ({.mutex} + m))
        (lockedBos call p).1 := by
  obtain ⟨hgot, hres, howns, -⟩ := getUserPages_mutex us h
  have hlist := getUserPages_listEntries us h hes
  unfold lockedBos
  dsimp only
  rw [entries_of_listEntries hes, hres, herr]
  dsimp only
  rw [hgot]
  exact ⟨rfl, setEntries_entries _ hlist, howns.setEntries _⟩

theorem lockedBos_late {us : List Userptr} (h : Owns fences m p)
    (hes : p.listEntries = some (us.map Userptr.fresh))
    (hgets : us.findSome? Userptr.getError = none) (hlock : call.lockAll = none)
    (hfence : p.ufBo ≠ none ↔ call.chunks.any (·.id = .fence) = true) :
    (lockedBos call p).2 =
        (us.findSome? fun u => entryError u.got).or (validateBosError call) ∧
      (lockedBos call p).1.listEntries = some (setUserPages (us.map Userptr.got)).1 ∧
      Owns fences (rangesOf (·.range) 0 (us.map Userptr.got) + ({.mutex} + m))
        (lockedBos call p).1 ∧
      SameGang p (lockedBos call p).1 := by
  obtain ⟨hgot, hres, howns, honly⟩ := getUserPages_mutex us h
  have hall : gotEntries us = us.map Userptr.got :=
    gotEntries_all fun u hu => Userptr.gets_iff.mpr (findSome?_eq_none_iff.mp hgets u hu)
  have hlist := getUserPages_listEntries us h hes
  unfold lockedBos
  dsimp only
  rw [entries_of_listEntries hes, hres, hgets, hlock]
  dsimp only [Option.or]
  rw [hgot, hall]
  have hset := setEntries_entries (us.map Userptr.got) hlist
  rw [entries_of_listEntries hset]
  have howns : Owns fences (rangesOf (·.range) 0 (us.map Userptr.got) + ({.mutex} + m))
      (((getUserPages 0 (us.map Userptr.fresh) (p.take .mutex)).1.1.setEntries
        (us.map Userptr.got)).setEntries (setUserPages (us.map Userptr.got)).1) := by
    rw [← hall]
    exact (howns.setEntries _).setEntries _
  refine ⟨?_, setEntries_entries _ hset, howns, ?_⟩
  · rw [setUserPages_error, findSome?_map]
    have hvalid : ∀ q : Parser, q.ufBo = p.ufBo → validateError call q = validateBosError call := by
      intro q hq
      unfold validateError validateBosError
      rw [hq]
      simp only [hfence]
    rw [hvalid]
    · rfl
    · dsimp only [OnlyLedger] at honly
      rw [honly]
      rfl
  · dsimp only [OnlyLedger] at honly
    rw [honly]
    exact ⟨rfl, rfl, rfl⟩

/-! ## Submission -/

theorem postDependencies_holds {ds : List PostDep}
    (h : p.ledger.Holds (↑(ds.flatMap PostDep.res) + m)) :
    (postDependencies ds p).1.ledger.Holds (↑((postDependencies ds p).2.flatMap PostDep.res) + m) ∧
      OnlyLedger p (postDependencies ds p).1 := by
  induction ds generalizing m p with
  | nil => exact ⟨h, rfl⟩
  | cons d ds ih =>
    rw [flatMap_cons, ← Multiset.coe_add] at h
    have hkeep : ∀ q : Parser, q.ledger.Holds (↑d.res + (↑(ds.flatMap PostDep.res) + m)) →
        (postDependencies ds q).1.ledger.Holds
          (↑((d :: (postDependencies ds q).2).flatMap PostDep.res) + m) ∧
        OnlyLedger q (postDependencies ds q).1 := by
      intro q hq
      obtain ⟨hledger, honly⟩ := ih (hq.congr (by abel :
        _ = ↑(ds.flatMap PostDep.res) + (↑d.res + m)))
      refine ⟨hledger.congr ?_, honly⟩
      rw [flatMap_cons, ← Multiset.coe_add]
      abel
    have h := h.congr (add_assoc _ _ _)
    unfold postDependencies
    cases hc : d.chain with
    | none => exact hkeep p h
    | some k =>
      dsimp only
      by_cases hpoint : d.point ≠ 0
      · rw [if_pos hpoint]
        have hgive : (p.give (.chain k)).ledger.Holds
            (↑({ d with chain := none } : PostDep).res + (↑(ds.flatMap PostDep.res) + m)) := by
          refine Ledger.Holds.give (h.congr ?_)
          simp only [PostDep.res, hc, map_some, map_none, toList_some,
            toList_none, ← Multiset.cons_coe, Multiset.coe_nil, ← Multiset.singleton_add,
            add_zero]
          abel
        obtain ⟨hledger, honly⟩ := ih (hgive.congr (by abel :
          _ = ↑(ds.flatMap PostDep.res) + (↑({ d with chain := none } : PostDep).res + m)))
        refine ⟨hledger.congr ?_, OnlyLedger.trans ?_ honly⟩
        · rw [flatMap_cons, ← Multiset.coe_add]
          abel
        · rfl
      · rw [if_neg hpoint]
        exact hkeep p h

theorem Owns.postDependencies (h : Owns fences m p) :
    Owns fences m (amdgpuCsPostDependencies p) := by
  unfold amdgpuCsPostDependencies
  cases hds : p.postDeps with
  | none => exact h
  | some ds =>
    have hledger := h.ledger
    rw [Parser.owned, hds, getD_some] at hledger
    obtain ⟨hpost, honly⟩ := postDependencies_holds (hledger.congr (by abel :
      _ = ↑(ds.flatMap PostDep.res) + ({Res.ctx} + ↑((p.boList.map BoList.res).getD []) +
        ↑((List.range p.jobs.length).map Res.job) + boRefs fences + m)))
    dsimp only [OnlyLedger] at honly
    dsimp only
    refine ⟨hpost.congr ?_, by rw [honly]; exact h.ufBo, by rw [honly]; exact h.chunks,
      by rw [honly]; exact h.fault⟩
    have hlist : (Cs.postDependencies ds p).1.boList = p.boList := by rw [honly]
    have hjobs : (Cs.postDependencies ds p).1.jobs = p.jobs := by rw [honly]
    rw [Parser.owned]
    dsimp only
    rw [hlist, hjobs, getD_some]
    abel

theorem Owns.pushJobs (h : Owns fences m p) : Owns fences m (pushJobs p) := by
  refine ⟨?_, h.ufBo, h.chunks, h.fault⟩
  have hledger := Ledger.Holds.giveAll (h.ledger.congr (by rw [Parser.owned]; abel :
    _ = ↑((List.range p.jobs.length).map Res.job) + ({Res.ctx} +
      ↑((p.boList.map BoList.res).getD []) + ↑((p.postDeps.getD []).flatMap PostDep.res) +
      boRefs fences + m)))
  refine hledger.congr ?_
  simp only [Parser.owned, Cs.pushJobs, Parser.giveAll, length_nil, range_zero,
    map_nil, Multiset.coe_nil, add_zero]

theorem process_early {e : Errno} (hgang : p.gang = gangOf call.chunks)
    (hleader : p.gangLeader = gangLeaderOf call)
    (herr : (call.patchJobs.or (call.vmHandling.or call.syncRings)).or (armError call) = some e) :
    process call p = (p, some e) := by
  have harm : dependencyError call p = armError call := by
    rw [dependencyError, armError, hgang, hleader]
  unfold process
  cases hfirst : call.patchJobs.or (call.vmHandling.or call.syncRings) with
  | some e' =>
    rw [hfirst] at herr
    rw [← herr]
    rfl
  | none =>
    rw [hfirst, none_or] at herr
    dsimp only [andThen]
    rw [amdgpuCsSubmit, harm, herr]

theorem process_late (hgang : p.gang = gangOf call.chunks)
    (hleader : p.gangLeader = gangLeaderOf call)
    (herr : (call.patchJobs.or (call.vmHandling.or call.syncRings)).or (armError call) = none)
    (hes : p.listEntries = some es) (h : Owns fences (rangesOf (·.range) 0 es + ({.mutex} + m)) p) :
    ∃ q, Owns fences (rangesOf Entry.staysAtDone 0 es + ({.mutex} + m)) q ∧
      (process call p = (q, some .eagain) ∨ process call p = (q.give .mutex, none)) := by
  have harm : dependencyError call p = armError call := by
    rw [dependencyError, armError, hgang, hleader]
  obtain ⟨hfirst, hdep⟩ := or_eq_none_iff.mp herr
  obtain ⟨hdone, -⟩ := userPagesDone_owns h
  unfold process
  rw [hfirst]
  dsimp only [andThen]
  rw [amdgpuCsSubmit, harm, hdep, entries_of_listEntries hes]
  dsimp only
  have hset := hdone.setEntries (userPagesDone 0 es p).1.2
  split
  · exact ⟨_, hset, .inl rfl⟩
  · exact ⟨_, hset.postDependencies.pushJobs, .inr rfl⟩

end

/-! ## The ranges that stay -/

section
variable {call : Call}

theorem rangesBack_early
    (hfail : ((userptrs call).findSome? Userptr.getError).or call.lockAll ≠ none) :
    rangesOf Entry.staysAtFree 0 (gotEntries (userptrs call)) = 0 ↔ RangesBack call := by
  have hptr : ∀ u : Userptr, u.got.staysAtFree = false ↔ u.userptr ≠ 0 := by
    intro u
    simp [Entry.staysAtFree, Userptr.got]
  rw [rangesOf_eq_zero, gotEntries_forall fun _ => rfl]
  simp only [hptr]
  refine ⟨fun haddress => ⟨haddress, fun hgets hlock => ?_⟩, fun h => h.address⟩
  have hnone : (userptrs call).findSome? Userptr.getError = none :=
    findSome?_eq_none_iff.mpr fun u hu => Userptr.gets_iff.mp (hgets u hu)
  rw [hnone, hlock] at hfail
  exact absurd rfl hfail

theorem setUserPages_got (hset : ((userptrs call).findSome? fun u => entryError u.got) = none) :
    (setUserPages ((userptrs call).map Userptr.got)).1 =
      (userptrs call).map fun u => u.got.clear := by
  rw [setUserPages_all (by rw [findSome?_map]; exact hset), List.map_map]
  rfl

theorem RangesBack.of_nil (h : userptrs call = []) : RangesBack call where
  address := by simp [h]
  late := by simp [h]

variable (hgets : ∀ u ∈ userptrs call, u.gets = true) (hlock : call.lockAll = none)
include hgets hlock

theorem rangesBack_free
    (hfail : ((userptrs call).findSome? fun u => entryError u.got).or (validateBosError call) ≠
      none) :
    rangesOf Entry.staysAtFree 0 (setUserPages ((userptrs call).map Userptr.got)).1 = 0 ↔
      RangesBack call := by
  rw [rangesOf_eq_zero]
  cases hus : userptrs call with
  | nil => simp [setUserPages, RangesBack.of_nil hus]
  | cons u us =>
    rw [hus] at hgets hfail
    have htake : (userptrs call).takeWhile Userptr.gets = u :: us := by
      rw [hus, takeWhile_eq_self_iff]
      exact hgets
    rw [map_cons, setUserPages]
    cases he : entryError u.got with
    | some e =>
      have hptr : ∀ u : Userptr, u.got.staysAtFree = false ↔ u.userptr ≠ 0 := by
        intro u
        simp [Entry.staysAtFree, Userptr.got]
      dsimp only
      rw [← map_cons, List.forall_mem_map]
      simp only [hptr]
      refine ⟨fun h => ⟨by rwa [htake], fun _ _ v hv => ?_⟩,
        fun h => by rw [← htake]; exact h.address⟩
      obtain rfl : u = v := by simpa [hus] using hv
      exact .inl (by rw [he]; nofun)
    | none =>
      refine iff_of_false (fun h => ?_) fun h => ?_
      · have hhead := h _ mem_cons_self
        simp [Entry.staysAtFree, Userptr.got] at hhead
      · rcases h.late (by rwa [hus]) hlock u (by simp [hus]) with hne | ⟨hnone, hlate⟩
        · exact hne he
        · rw [hus] at hnone
          rw [hnone, none_or] at hfail
          exact hfail (or_eq_none_iff.mp hlate).1

variable (hset : ((userptrs call).findSome? fun u => entryError u.got) = none)
include hset

theorem rangesBack_backoff
    (hfail : (call.patchJobs.or (call.vmHandling.or call.syncRings)).or (armError call) ≠ none) :
    rangesOf (·.range) 0 (setUserPages ((userptrs call).map Userptr.got)).1 = 0 ↔
      RangesBack call := by
  rw [setUserPages_got hset, rangesOf_eq_zero, List.forall_mem_map]
  cases hus : userptrs call with
  | nil => simp [RangesBack.of_nil hus]
  | cons u us =>
    refine iff_of_false (fun h => ?_) fun h => ?_
    · exact absurd (h u mem_cons_self) nofun
    · rcases h.late hgets hlock u (by simp [hus]) with hne | ⟨-, hlate⟩
      · exact hne (findSome?_eq_none_iff.mp hset u (by simp [hus]))
      · exact hfail (or_eq_none_iff.mp hlate).2

omit hlock in
theorem rangesBack_done (hlate : lateError call = none) :
    rangesOf Entry.staysAtDone 0 (setUserPages ((userptrs call).map Userptr.got)).1 = 0 ↔
      RangesBack call := by
  have htake : (userptrs call).takeWhile Userptr.gets = userptrs call :=
    takeWhile_eq_self_iff.mpr hgets
  have hptr : ∀ u : Userptr, u.got.clear.staysAtDone = false ↔ u.userptr ≠ 0 := by
    intro u
    simp [Entry.staysAtDone, Entry.clear, Userptr.got]
  rw [setUserPages_got hset, rangesOf_eq_zero, List.forall_mem_map]
  simp only [hptr]
  exact ⟨fun h => ⟨by rwa [htake], fun _ _ _ _ => .inr ⟨hset, hlate⟩⟩,
    fun h => by rw [← htake]; exact h.address⟩

end

/-! ## The whole call -/

def ReachesChunks (call : Call) : Prop :=
  call.rasIntrTriggered = false ∧ call.accelWorking ∧ call.chunks ≠ [] ∧ call.ctx ∧
    call.guilty = false ∧ call.chunkArray ∧ call.chunkCopy

/-- When the call gives back what it takes, once it has got so far. -/
structure GivesBack (call : Call) : Prop where
  /-- `amdgpu_cs_parser_fini` does not expect `p->nchunks` without `p->chunks`. -/
  chunkMem : call.chunkMem = true
  /-- Pass 1 takes the buffer of one user fence at most. -/
  fence : (fenceBos (seen1 call)).length ≤ 1
  ranges : pass1Error call = none → pass2Error call = none → boListError call = none →
    RangesBack call

def Released (p : Parser) : Prop := p.ledger.Settled ∧ p.fault = false
  deriving Decidable

section
variable {fences : List Bo} {m : Multiset Res} {p : Parser} {call : Call}

/-- The end of the call, from what `amdgpu_cs_parser_bos` leaves. -/
def finish (call : Call) (x : Parser × Option Errno) : Parser × Option Errno :=
  match x with
  | (p, some e) => (amdgpuCsParserFini p, some e)
  | (p, none) =>
    match process call p with
    | (p, some e) => (amdgpuCsParserFini (p.give .mutex), some e)
    | (p, none) => (amdgpuCsParserFini p, none)

/-- What is left on the ledger is `m` and the user fences that another took the place of. -/
def Leaves (fences : List Bo) (m : Multiset Res) (p : Parser) : Prop :=
  p.ledger.Holds (boRefs fences.dropLast + m) ∧ p.fault = false

theorem Leaves.settled_iff (h : Leaves fences m p) : Released p ↔ fences.length ≤ 1 ∧ m = 0 := by
  have hzero : boRefs fences.dropLast + m = 0 ↔ fences.length ≤ 1 ∧ m = 0 := by
    rw [← Multiset.card_eq_zero, Multiset.card_add, Nat.add_eq_zero_iff,
      Multiset.card_eq_zero (s := m), boRefs, Multiset.coe_card, length_map,
      length_dropLast, Nat.sub_eq_zero_iff_le]
  rw [Released, h.1.settled_iff, hzero]
  exact and_iff_left h.2

theorem Owns.finish_error (h : Owns fences m p) (call : Call) (e : Errno) :
    Leaves fences m (finish call (p, some e)).1 := amdgpuCsParserFini_holds h

theorem amdgpuCsParserBos_error (hlist : (getBoList call p).2 = none) {q : Parser} {e : Errno}
    (hlocked : lockedBos call (getBoList call p).1 = (q, some e)) :
    amdgpuCsParserBos call p =
      (((freeUserPages 0 q.entries q).1.setEntries (freeUserPages 0 q.entries q).2).give .mutex,
        some e) := by
  unfold amdgpuCsParserBos
  rw [andThen_none hlist, hlocked]

theorem amdgpuCsParserBos_ok (hlist : (getBoList call p).2 = none) {q : Parser}
    (hlocked : lockedBos call (getBoList call p).1 = (q, none)) :
    amdgpuCsParserBos call p = (q, none) := by
  unfold amdgpuCsParserBos
  rw [andThen_none hlist, hlocked]

theorem finish_parserBos (h : Owns fences 0 p) (hlist : p.listEntries = chunkEntries call.chunks)
    (hfence : p.ufBo ≠ none ↔ call.chunks.any (·.id = .fence) = true)
    (hgang : p.gang = gangOf call.chunks) (hleader : p.gangLeader = gangLeaderOf call) :
    ∃ m, Leaves fences m (finish call (amdgpuCsParserBos call p)).1 ∧
      (m = 0 ↔ (boListError call = none → RangesBack call)) := by
  obtain ⟨herr, howns, hentries, hframe⟩ := getBoList_spec h hlist
  cases hbo : boListError call with
  | some e =>
    unfold amdgpuCsParserBos
    rw [andThen_some (herr.trans hbo)]
    generalize getBoList call p = x at herr howns
    obtain ⟨q, r⟩ := x
    obtain rfl : r = some e := herr.trans hbo
    exact ⟨0, howns.finish_error call e, iff_of_true rfl fun hnone => by cases hnone⟩
  | none =>
    have herror := @amdgpuCsParserBos_error p call (herr.trans hbo)
    have hok := @amdgpuCsParserBos_ok p call (herr.trans hbo)
    have hentries := hentries hbo
    have hsame : SameGang p (getBoList call p).1 := by
      rw [hframe]
      exact ⟨rfl, rfl, rfl⟩
    generalize (getBoList call p).1 = q at howns hentries hsame herror hok
    simp only [forall_const]
    -- after an error, the label `out_free_user_pages`
    have hfree : ∀ {q' : Parser} {e : Errno} {es : List Entry},
        lockedBos call q = (q', some e) → q'.listEntries = some es →
        Owns fences (rangesOf (·.range) 0 es + ({.mutex} + 0)) q' →
        Leaves fences (rangesOf Entry.staysAtFree 0 es)
          (finish call (amdgpuCsParserBos call p)).1 := by
      intro q' e es heq hes hq'
      rw [herror heq]
      obtain ⟨hfreed, -⟩ := freeUserPages_owns hq'
      rw [entries_of_listEntries hes]
      refine Owns.finish_error (Owns.give ?_) call e
      exact (hfreed.setEntries _).of_eq (by abel)
    cases hfirst : ((userptrs call).findSome? Userptr.getError).or call.lockAll with
    | some e =>
      obtain ⟨hres, hes, hq⟩ := lockedBos_early howns hentries hfirst
      exact ⟨_, hfree (Prod.ext rfl hres) hes hq, rangesBack_early (by rw [hfirst]; nofun)⟩
    | none =>
      obtain ⟨hget, hlock⟩ := or_eq_none_iff.mp hfirst
      have hgets : ∀ u ∈ userptrs call, u.gets = true :=
        fun u hu => Userptr.gets_iff.mpr (findSome?_eq_none_iff.mp hget u hu)
      obtain ⟨hres, hes, hq, hgang'⟩ := lockedBos_late howns hentries hget hlock
        (by rw [hsame.2.2]; exact hfence)
      cases hsecond : ((userptrs call).findSome? fun u => entryError u.got).or
          (validateBosError call) with
      | some e =>
        refine ⟨_, hfree (Prod.ext rfl (hres.trans hsecond)) hes ?_,
          rangesBack_free hgets hlock (by rw [hsecond]; nofun)⟩
        rwa [setUserPages_ranges]
      | none =>
        obtain ⟨hset, hvalidate⟩ := or_eq_none_iff.mp hsecond
        rw [← setUserPages_ranges] at hq
        have hgangq := hgang'.1.trans (hsame.1.trans hgang)
        have hleaderq := hgang'.2.1.trans (hsame.2.1.trans hleader)
        generalize lockedBos call q = x at hres hes hq hgangq hleaderq hok
        obtain ⟨q', r⟩ := x
        obtain rfl : r = none := hres.trans hsecond
        dsimp only at hes hq hgangq hleaderq
        rw [hok rfl]
        unfold finish
        dsimp only
        cases hthird : (call.patchJobs.or (call.vmHandling.or call.syncRings)).or
            (armError call) with
        | some e =>
          rw [process_early hgangq hleaderq hthird]
          refine ⟨_, amdgpuCsParserFini_holds (Owns.give (hq.of_eq (by abel :
            _ = {Res.mutex} + rangesOf (·.range) 0
              (setUserPages ((userptrs call).map Userptr.got)).1))), ?_⟩
          exact rangesBack_backoff hgets hlock hset (by rw [hthird]; nofun)
        | none =>
          have hlate : lateError call = none := by
            rw [lateError, hvalidate, none_or]
            exact hthird
          obtain ⟨q'', hq'', hcase⟩ := process_late hgangq hleaderq hthird hes hq
          have hgive := amdgpuCsParserFini_holds (Owns.give (hq''.of_eq (by abel :
            _ = {Res.mutex} + rangesOf Entry.staysAtDone 0
              (setUserPages ((userptrs call).map Userptr.got)).1)))
          refine ⟨_, ?_, rangesBack_done hgets hset hlate⟩
          rcases hcase with heq | heq
          · rw [heq]
            exact hgive
          · rw [heq]
            exact hgive

theorem Jobs.gangLeader_eq (h : Jobs call.chunks p) : p.gangLeader = gangLeaderOf call := by
  obtain ⟨c, i, hlast, hleader, hi⟩ := h.leader
  rw [h.gang] at hi
  obtain ⟨hlt, heq⟩ := List.getElem?_eq_some_iff.mp hi
  rw [hleader, gangLeaderOf, hlast, map_some, ← heq, (gangOf_nodup _).idxOf_getElem]

theorem finish_parse (hcopy : call.chunkArray ∧ call.chunkCopy) (hmem : call.chunkMem) :
    ∃ m, Leaves (fenceBos (seen1 call)) m (finish call (parse call .start)).1 ∧
      (m = 0 ↔ (pass1Error call = none → pass2Error call = none → boListError call = none →
        RangesBack call)) := by
  obtain ⟨herr1, hjobs⟩ := pass1_spec call (show Fresh .start from rfl)
  have howns1 := Owns.pass1 call (show Fresh .start from rfl) .start hcopy.1 hcopy.2 hmem
  have hentries := pass1_entries call (show Fresh .start from rfl)
  unfold parse
  generalize amdgpuCsPass1 call .start = x at herr1 hjobs howns1 hentries ⊢
  obtain ⟨p1, r⟩ := x
  obtain rfl : r = pass1Error call := herr1
  cases h1 : pass1Error call with
  | some e => exact ⟨0, howns1.finish_error call e, iff_of_true rfl nofun⟩
  | none =>
    have hjobs := hjobs h1
    obtain ⟨herr2, hfilled, -⟩ := pass2_spec hjobs
    have howns2 := howns1.pass2 call
    have hsame := amdgpuCsPass2_sameList call p1
    dsimp only [andThen] at hsame ⊢
    generalize amdgpuCsPass2 call p1 = x at herr2 hfilled howns2 hsame ⊢
    obtain ⟨p2, r⟩ := x
    obtain rfl : r = pass2Error call := herr2
    cases h2 : pass2Error call with
    | some e => exact ⟨0, howns2.finish_error call e, iff_of_true rfl nofun⟩
    | none =>
      obtain ⟨s, hs, hp2⟩ := hfilled h2
      dsimp only at hp2 hsame howns2 ⊢
      have hlist : p2.listEntries = chunkEntries call.chunks := by
        rw [Parser.listEntries_congr hsame.1]
        exact hentries h1
      obtain ⟨m, hleaves, hiff⟩ := finish_parserBos howns2 hlist (by rw [hp2]; exact hs.fence)
        (by rw [hp2]; exact hs.gang) (hsame.2.trans hjobs.gangLeader_eq)
      exact ⟨m, hleaves, hiff.trans (by simp)⟩

/-- A call gives back what it takes, once and only once, exactly if `GivesBack` holds when it gets
to the chunks. -/
theorem released_iff (call : Call) :
    Released (amdgpuCsIoctl call).1 ↔ (ReachesChunks call → GivesBack call) := by
  have hnothing : Released ({} : Parser) := ⟨⟨rfl, rfl⟩, rfl⟩
  unfold amdgpuCsIoctl ReachesChunks
  by_cases hras : call.rasIntrTriggered
  · rw [if_pos hras]
    exact iff_of_true hnothing fun h => by simp [hras] at h
  by_cases haccel : call.accelWorking = false
  · rw [if_neg hras, if_pos haccel]
    exact iff_of_true hnothing fun h => by simp [haccel] at h
  rw [if_neg hras, if_neg haccel]
  unfold amdgpuCsParserInit
  by_cases hchunks : call.chunks = []
  · rw [if_pos hchunks]
    exact iff_of_true hnothing fun h => absurd hchunks h.2.2.1
  by_cases hctx : call.ctx = false
  · rw [if_neg hchunks, if_pos hctx]
    exact iff_of_true hnothing fun h => by simp [hctx] at h
  by_cases hguilty : call.guilty
  · rw [if_neg hchunks, if_neg hctx, if_pos hguilty]
    exact iff_of_true (show Released (Parser.start.give .ctx) by decide) fun h => by
      simp [hguilty] at h
  rw [if_neg hchunks, if_neg hctx, if_neg hguilty]
  dsimp only [andThen]
  change Released (finish call (parse call .start)).1 ↔ _
  have hreach : (call.chunkArray ∧ call.chunkCopy) ↔
      call.rasIntrTriggered = false ∧ call.accelWorking ∧ call.chunks ≠ [] ∧ call.ctx ∧
        call.guilty = false ∧ call.chunkArray ∧ call.chunkCopy := by
    simp_all
  rw [← hreach]
  by_cases hcopy : call.chunkArray ∧ call.chunkCopy
  · by_cases hmem : call.chunkMem
    · obtain ⟨m, hleaves, hiff⟩ := finish_parse hcopy hmem
      rw [hleaves.settled_iff, hiff]
      exact ⟨fun h _ => ⟨hmem, h.1, h.2⟩, fun h => ⟨(h hcopy).fence, (h hcopy).ranges⟩⟩
    · have hmem : call.chunkMem = false := by simpa using hmem
      refine iff_of_false (fun h => ?_) fun h => ?_
      · have hfault : (finish call (parse call .start)).1.fault = true := by
          rw [parse, amdgpuCsPass1, if_neg (by simp [hcopy.1]), if_neg (by simp [hcopy.2]),
            if_pos hmem]
          rfl
        rw [h.2] at hfault
        cases hfault
      · have := (h hcopy).chunkMem
        rw [hmem] at this
        cases this
  · have hp : (amdgpuCsPass1 call .start).1 = .start ∧ (amdgpuCsPass1 call .start).2 ≠ none := by
      unfold amdgpuCsPass1
      by_cases harray : call.chunkArray = false
      · rw [if_pos harray]
        exact ⟨rfl, nofun⟩
      · have hcopy : call.chunkCopy = false := by
          by_contra hne
          exact hcopy ⟨by simpa using harray, by simpa using hne⟩
        rw [if_neg harray, if_pos hcopy]
        exact ⟨rfl, nofun⟩
    refine iff_of_true ?_ fun h => absurd h hcopy
    obtain ⟨hstart, hne⟩ := hp
    unfold parse
    generalize amdgpuCsPass1 call .start = x at hstart hne ⊢
    obtain ⟨p, r⟩ := x
    obtain rfl : p = .start := hstart
    cases r with
    | none => exact absurd rfl hne
    | some e =>
      have hleaves := Owns.start.finish_error call e
      exact hleaves.settled_iff.mpr ⟨Nat.zero_le _, rfl⟩

end

/-- One IB, a BO list with one user pointer, and a page table update that fails. -/
def exUserptr : Call :=
  { chunks := [exIb]
    boListHandle := some (some [{ userptr := 4096 }])
    vmHandling := some .enomem }

/-- The range of the user pointer is never given back. -/
theorem released_broken : ¬∀ call, Released (amdgpuCsIoctl call).1 := fun hall =>
  absurd (hall exUserptr) (by decide)

/-- Two user fences, in a call that succeeds: the reference to the first buffer stays. -/
example : (amdgpuCsIoctl
    { chunks := [exIb, { id := .fence, lengthDw := 2, bo := some { id := 1 } },
        { id := .fence, lengthDw := 2, bo := some { id := 2 } }] }).2 = none ∧
    (amdgpuCsIoctl
      { chunks := [exIb, { id := .fence, lengthDw := 2, bo := some { id := 1 } },
          { id := .fence, lengthDw := 2, bo := some { id := 2 } }] }).1.ledger.held = [.bo 1] := by
  decide

end Amdkfd.Cs
