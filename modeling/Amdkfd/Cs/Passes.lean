import Amdkfd.Cs.Model

/-!
# Pass 1

What either pass returns is read off the chunks: `chunkError1` and `chunkError2` are the errors at a
chunk when those before it went well. `Parsed` is what pass 1 has built after some chunks.
-/

namespace Amdkfd.Cs

open Lib List Option

/-! ## What the chunks say -/

def ibChunks (cs : List Chunk) : List Chunk := cs.filter (·.id = .ib)

/-- The entities of the IB chunks, in the order in which they come up. -/
def gangOf (cs : List Chunk) : List Entity := ((ibChunks cs).map Chunk.entity).eraseDups

def ibsOf (e : Entity) (cs : List Chunk) : List Chunk := (ibChunks cs).filter (·.entity = e)

/-- A chunk that reaches the `switch` of pass 1. -/
def Chunk.Copied (c : Chunk) : Prop := c.header ∧ c.kdata ∧ c.copied
  deriving Decidable

def Chunk.fenceBo (c : Chunk) : Option Bo :=
  if c.Copied ∧ c.id = .fence ∧ fenceDw ≤ c.lengthDw then c.bo else none

/-- A preemptible IB of the graphics ring; `ce` of the constant engine. -/
def Chunk.isPreemptible (ce : Bool) (c : Chunk) : Bool :=
  c.id = .ib && c.ipType = hwIpGfx && c.isPreempt && c.isCe == ce

/-- A chunk that fills `post_deps`. -/
def Chunk.isPost (c : Chunk) : Bool := c.id = .syncobjOut || c.id = .syncobjTimelineSignal

def jobIdxError (look : Lookup) (gang : List Entity) (c : Chunk) : Option Errno :=
  match amdgpuCtxGetEntity c.ipType c.ipInstance c.ring look.entity with
  | .error e => some e
  | .ok _ =>
    if look.rq = false ∨ (c.entity ∉ gang ∧ gang.length = gangSize) then some .einval else none

def ibError1 (before : List Chunk) (c : Chunk) : Option Errno :=
  (jobIdxError c.lookup1 (gangOf before) c).or
    (if amdgpuRingMaxIbs c.ipType ≤ (ibsOf c.entity before).length then some .einval else none)

def fenceError (c : Chunk) : Option Errno :=
  match c.bo with
  | none => some .einval
  | some bo =>
    if bo.size ≠ pageSize ∨ bo.size - 8 < c.dw 1 ∨ bo.userptr ≠ none then some .einval else none

/-- The error of `amdgpu_bo_list_create` at an entry. -/
def entryLookupError (entry : Nat → Option Bo) (i : Nat) : Option Errno :=
  match entry i with
  | none => some .enoent
  | some bo =>
    match bo.userptr with
    | none => none
    | some u => if u.current then none else some .eperm

def listError (alloc : Bool) (entry : Nat → Option Bo) (numEntries : Nat) : Option Errno :=
  if alloc = false then some .enomem
  else (range numEntries).findSome? (entryLookupError entry)

def chunkError1 (before : List Chunk) (c : Chunk) : Option Errno :=
  if c.header = false then some .efault
  else if c.kdata = false then some .enomem
  else if c.copied = false then some .efault
  else match c.id with
    | .ib => if c.lengthDw < ibDw then some .einval else ibError1 before c
    | .fence => if c.lengthDw < fenceDw then some .einval else fenceError c
    | .boHandles =>
      if c.lengthDw < boListInDw then some .einval
      else if before.any (·.id = .boHandles) then some .einval
      else c.info.or (listError c.listAlloc c.entry (c.dw 2))
    | .unknown => some .einval
    | _ => none

/-- The error of `amdgpu_job_alloc` for member `i` of the gang. -/
def jobError (call : Call) (i : Nat) : Option Errno :=
  if call.jobAlloc i = false then some .enomem else call.jobInit i

/-- The error of `amdgpu_cs_pass1`. -/
def pass1Error (call : Call) : Option Errno :=
  if call.chunkArray = false then some .enomem
  else if call.chunkCopy = false then some .efault
  else if call.chunkMem = false then some .enomem
  else (firstError chunkError1 [] call.chunks).or
    (let gang := gangOf call.chunks
     if gang = [] ∨ (call.sriovVf ∧ 1 < gang.length) then some .einval
     else ((range gang.length).findSome? (jobError call)).or
       (if call.generation = false then some .other else none))

/-- The error of the body of the loop of `amdgpu_cs_p2_dependencies`. -/
def depError (c : Chunk) (i : Nat) : Option Errno :=
  let b := depDw * i
  if (c.item i).ctx = false then some .einval
  else match amdgpuCtxGetEntity (c.dw b) (c.dw (b + 1)) (c.dw (b + 2)) (c.item i).entity with
    | .error e => some e
    | .ok _ =>
      match (c.item i).fence with
      | .error e => some e
      | .ok false => none
      | .ok true => (c.item i).sync

def ibError2 (uf : Bool) (gang : List Entity) (before : List Chunk) (c : Chunk) : Option Errno :=
  (jobIdxError c.lookup2 gang c).or
    (if uf ∧ c.noUserFence then some .einval
     else if c.ipType = hwIpGfx ∧ c.isPreempt ∧
        (1 < (before ++ [c]).countP (Chunk.isPreemptible true) ∨
          1 < (before ++ [c]).countP (Chunk.isPreemptible false)) then some .einval
     else c.ibGet)

def postError (before : List Chunk) (c : Chunk) (size : Nat) (item : Nat → Option Errno) :
    Option Errno :=
  if before.any Chunk.isPost then some .einval
  else if c.postDeps = false then some .enomem
  else (range (c.numDeps size)).findSome? item

def syncobjOutError (c : Chunk) (i : Nat) : Option Errno :=
  if (c.item i).syncobj = none then some .einval else none

/-- The error of `amdgpu_cs_p2_syncobj_timeline_signal` at an item. -/
def syncobjSignalError (c : Chunk) (i : Nat) : Option Errno :=
  if c.qw (syncobjDw * i + 2) ≠ 0 ∧ (c.item i).chain = false then some .enomem
  else if (c.item i).syncobj = none then some .einval else none

def chunkError2 (uf : Bool) (gang : List Entity) (before : List Chunk) (c : Chunk) : Option Errno :=
  match c.id with
  | .ib => ibError2 uf gang before c
  | .dependencies | .scheduledDependencies =>
    (range (c.numDeps depDw)).findSome? (depError c)
  | .syncobjIn =>
    (range (c.numDeps semDw)).findSome? fun i => (c.item i).findFence.or (c.item i).sync
  | .syncobjTimelineWait =>
    (range (c.numDeps syncobjDw)).findSome? fun i => (c.item i).findFence.or (c.item i).sync
  | .syncobjOut => postError before c semDw (syncobjOutError c)
  | .syncobjTimelineSignal => postError before c syncobjDw (syncobjSignalError c)
  | .cpGfxShadow => if 1 < c.qw 6 then some .einval else none
  | .fence | .boHandles | .unknown => none

/-- The error of `amdgpu_cs_pass2` after an accepting pass 1. -/
def pass2Error (call : Call) : Option Errno :=
  firstError (chunkError2 (call.chunks.any (·.id = .fence)) (gangOf call.chunks)) [] call.chunks

def seen2 (call : Call) : List Chunk :=
  seen (chunkError2 (call.chunks.any (·.id = .fence)) (gangOf call.chunks)) [] call.chunks

/-! ## One more chunk -/

theorem ibChunks_append (cs : List Chunk) (c : Chunk) :
    ibChunks (cs ++ [c]) = ibChunks cs ++ if c.id = .ib then [c] else [] := by
  by_cases h : c.id = .ib <;> simp [ibChunks, filter_append, h]

variable {e : Entity} {cs : List Chunk} {c : Chunk}

theorem mem_gangOf : e ∈ gangOf cs ↔ ∃ c ∈ cs, c.id = .ib ∧ c.entity = e := by
  simp [gangOf, ibChunks, mem_eraseDups, and_assoc]

theorem gangOf_append_of_ne (h : c.id ≠ .ib) (cs : List Chunk) :
    gangOf (cs ++ [c]) = gangOf cs := by
  rw [gangOf, ibChunks_append, if_neg h, append_nil]; rfl

theorem gangOf_append_ib (h : c.id = .ib) (cs : List Chunk) :
    gangOf (cs ++ [c]) =
      if c.entity ∈ gangOf cs then gangOf cs else gangOf cs ++ [c.entity] := by
  rw [gangOf, ibChunks_append, if_pos h, map_append, eraseDups_append]
  by_cases hmem : c.entity ∈ gangOf cs
  · have hmap : c.entity ∈ (ibChunks cs).map Chunk.entity := mem_eraseDups.mp hmem
    rw [if_pos hmem, map_singleton, removeAll,
      filter_cons_of_neg (by simpa using hmap), filter_nil, eraseDups_nil,
      append_nil]
    rfl
  · have hmap : c.entity ∉ (ibChunks cs).map Chunk.entity :=
      fun h => hmem (mem_eraseDups.mpr h)
    rw [if_neg hmem, map_singleton, removeAll,
      filter_cons_of_pos (by simpa using hmap), filter_nil, eraseDups_cons,
      filter_nil, eraseDups_nil]
    rfl

theorem gangOf_nodup (cs : List Chunk) : (gangOf cs).Nodup := by
  induction cs using reverseRecOn with
  | nil => exact nodup_nil
  | append_singleton cs c ih =>
    by_cases h : c.id = .ib
    · rw [gangOf_append_ib h]
      split
      · exact ih
      · exact nodup_append.mpr ⟨ih, nodup_singleton _, by
          rintro a ha b hb rfl
          exact ‹c.entity ∉ _› (mem_singleton.mp hb ▸ ha)⟩
    · rwa [gangOf_append_of_ne h]

theorem ibsOf_append_of_ne (h : c.id ≠ .ib) (e : Entity) (cs : List Chunk) :
    ibsOf e (cs ++ [c]) = ibsOf e cs := by
  rw [ibsOf, ibChunks_append, if_neg h, append_nil]; rfl

theorem ibsOf_append_ib (h : c.id = .ib) (e : Entity) (cs : List Chunk) :
    ibsOf e (cs ++ [c]) = ibsOf e cs ++ if c.entity = e then [c] else [] := by
  rw [ibsOf, ibChunks_append, if_pos h, filter_append]
  by_cases he : c.entity = e <;> simp [ibsOf, he]

theorem ibsOf_eq_nil (h : e ∉ gangOf cs) : ibsOf e cs = [] := by
  refine filter_eq_nil_iff.mpr fun c hc => ?_
  obtain ⟨hc, hid⟩ := mem_filter.mp hc
  intro heq
  exact h (mem_gangOf.mpr ⟨c, hc, by simpa using hid, by simpa using heq⟩)

theorem ibsOf_pos (h : e ∈ gangOf cs) : 0 < (ibsOf e cs).length := by
  obtain ⟨c, hc, hid, rfl⟩ := mem_gangOf.mp h
  refine length_pos_of_mem (a := c) (mem_filter.mpr ⟨mem_filter.mpr ⟨hc, ?_⟩, ?_⟩)
  · simpa using hid
  · simp

/-! ## `amdgpu_cs_job_idx` -/

theorem amdgpuCtxGetEntity_ok {hwIp inst ring : Nat} {err : Option Errno}
    (h : amdgpuCtxGetEntity hwIp inst ring err = .ok e) : e = (hwIp, ring) := by
  unfold amdgpuCtxGetEntity at h
  split at h
  · cases h
  split at h
  · cases h
  split at h
  · cases h
  cases err with
  | none => exact (Except.ok.inj h).symm
  | some e => cases h

theorem amdgpuCsJobIdx_spec (look : Lookup) (c : Chunk) (p : Parser) :
    amdgpuCsJobIdx look c p =
      match jobIdxError look p.gang c with
      | some e => (p, .error e)
      | none =>
        ({ p with gang := if c.entity ∈ p.gang then p.gang else p.gang ++ [c.entity] },
          .ok (p.gang.idxOf c.entity)) := by
  unfold amdgpuCsJobIdx jobIdxError
  cases he : amdgpuCtxGetEntity c.ipType c.ipInstance c.ring look.entity with
  | error e => rfl
  | ok e =>
    obtain rfl : e = c.entity := amdgpuCtxGetEntity_ok he
    dsimp only
    by_cases hrq : look.rq = false
    · rw [if_pos hrq, if_pos (.inl hrq)]
    rw [if_neg hrq]
    by_cases hmem : c.entity ∈ p.gang
    · rw [if_pos (idxOf_lt_length_of_mem hmem), if_neg (by simp [hrq, hmem]), if_pos hmem]
    · have hidx : p.gang.idxOf c.entity = p.gang.length := idxOf_of_notMem hmem
      rw [hidx, if_neg (lt_irrefl _)]
      by_cases hfull : p.gang.length = gangSize
      · rw [if_pos hfull, if_pos (.inr ⟨hmem, hfull⟩)]
      · rw [if_neg hfull, if_neg (by simp [hrq, hfull]), if_neg hmem]

/-! ## Pass 1 -/

def OnlyLedger (p p' : Parser) : Prop := p' = { p with ledger := p'.ledger }

theorem addEntry_error (entry : Nat → Option Bo) (i : Nat) (s : ListLoop) :
    (addEntry entry i s).2 = entryLookupError entry i := by
  unfold addEntry entryLookupError
  cases entry i with
  | none => rfl
  | some bo =>
    dsimp only
    cases bo.userptr with
    | none => rfl
    | some u => dsimp only; split <;> rfl

theorem addEntry_onlyLedger {p : Parser} {entry : Nat → Option Bo} {i : Nat} {s : ListLoop}
    (h : OnlyLedger p s.p) : OnlyLedger p (addEntry entry i s).1.p := by
  obtain ⟨q, front, back⟩ := s
  dsimp only [OnlyLedger] at h
  unfold addEntry
  cases entry i with
  | none => exact h
  | some bo =>
    dsimp only
    cases bo.userptr with
    | none => rw [h]; rfl
    | some u => dsimp only; split <;> (rw [h]; rfl)

theorem amdgpuBoListCreate_error (alloc : Bool) (entry : Nat → Option Bo) (n : Nat) (p : Parser) :
    (amdgpuBoListCreate alloc entry n p).2 = listError alloc entry n := by
  unfold amdgpuBoListCreate listError
  split
  · rfl
  · have h := eachUntil_findSome (addEntry_error entry) (range n) { p := p.take .list }
    rw [← h]
    split <;> (rename_i heq; rw [heq])

theorem amdgpuBoListCreate_frame (alloc : Bool) (entry : Nat → Option Bo) (n : Nat) (p : Parser) :
    (amdgpuBoListCreate alloc entry n p).1 =
        { p with
          ledger := (amdgpuBoListCreate alloc entry n p).1.ledger
          boList := (amdgpuBoListCreate alloc entry n p).1.boList } ∧
      (listError alloc entry n = none → (amdgpuBoListCreate alloc entry n p).1.boList ≠ none) := by
  have herr := amdgpuBoListCreate_error alloc entry n p
  unfold amdgpuBoListCreate at herr ⊢
  split
  · rename_i halloc
    exact ⟨rfl, fun h => by simp [listError, halloc] at h⟩
  · rename_i halloc
    rw [if_neg halloc] at herr
    have hinv : OnlyLedger p
        (eachUntil (addEntry entry) (range n) { p := p.take .list }).1.p :=
      eachUntil_inv (I := fun s : ListLoop => OnlyLedger p s.p)
        (fun i _ s hs => addEntry_onlyLedger hs) rfl
    generalize eachUntil (addEntry entry) (range n) { p := p.take .list } = x at herr hinv ⊢
    obtain ⟨s, e⟩ := x
    dsimp only [OnlyLedger] at hinv
    cases e with
    | none => exact ⟨by dsimp only; rw [hinv], fun _ => nofun⟩
    | some e =>
      refine ⟨by dsimp only; rw [hinv]; rfl, fun h => ?_⟩
      rw [h] at herr
      cases herr

structure Parsed (before : List Chunk) (s : Pass1) : Prop where
  gang : s.p.gang = gangOf before
  small : (gangOf before).length ≤ gangSize
  numIbs : ∀ r, s.numIbs r = (((gangOf before)[r]?).map fun e => (ibsOf e before).length).getD 0
  max : ∀ e ∈ gangOf before, (ibsOf e before).length ≤ amdgpuRingMaxIbs e.1
  leader : ∀ c, (ibChunks before).getLast? = some c →
    (gangOf before)[s.p.gangLeaderIdx]? = some c.entity
  sized : ∀ c ∈ before, c.id = .ib → ibDw ≤ c.lengthDw
  boList : s.p.boList = none ↔ before.any (·.id = .boHandles) = false
  ufBo : s.p.ufBo = (before.filterMap Chunk.fenceBo).getLast?
  fence : ∀ c ∈ before, c.id = .fence → c.fenceBo ≠ none
  rest : s.p.jobs = [] ∧ s.p.postDeps = none ∧ s.p.reads = [] ∧ s.p.chunksNull = false ∧
    s.p.fault = false

theorem Parsed.start (p : Parser) (hgang : p.gang = []) (hlist : p.boList = none)
    (huf : p.ufBo = none)
    (hrest : p.jobs = [] ∧ p.postDeps = none ∧ p.reads = [] ∧ p.chunksNull = false ∧
      p.fault = false) : Parsed [] { p } where
  gang := hgang
  small := Nat.zero_le _
  numIbs _ := rfl
  max _ h := absurd h not_mem_nil
  leader _ h := nomatch h
  sized _ h := absurd h not_mem_nil
  boList := iff_of_true hlist rfl
  ufBo := huf
  fence _ h := absurd h not_mem_nil
  rest := hrest

section
variable {before : List Chunk} {c : Chunk} {s s' : Pass1}

theorem Parsed.other (h : Parsed before s) (hid : c.id ≠ .ib) (hgang : s'.p.gang = s.p.gang)
    (hidx : s'.p.gangLeaderIdx = s.p.gangLeaderIdx) (hnum : s'.numIbs = s.numIbs)
    (hlist : s'.p.boList = none ↔ (before ++ [c]).any (·.id = .boHandles) = false)
    (huf : s'.p.ufBo = ((before ++ [c]).filterMap Chunk.fenceBo).getLast?)
    (hfence : c.id = .fence → c.fenceBo ≠ none)
    (hrest : s'.p.jobs = [] ∧ s'.p.postDeps = none ∧ s'.p.reads = [] ∧ s'.p.chunksNull = false ∧
      s'.p.fault = false) : Parsed (before ++ [c]) s' where
  gang := by rw [hgang, h.gang, gangOf_append_of_ne hid]
  small := by rw [gangOf_append_of_ne hid]; exact h.small
  numIbs r := by
    rw [hnum, h.numIbs, gangOf_append_of_ne hid]
    simp only [ibsOf_append_of_ne hid]
  max e he := by
    rw [gangOf_append_of_ne hid] at he
    rw [ibsOf_append_of_ne hid]
    exact h.max e he
  leader d hd := by
    rw [ibChunks_append, if_neg hid, append_nil] at hd
    rw [gangOf_append_of_ne hid, hidx]
    exact h.leader d hd
  sized d hd hib := by
    rcases mem_append.mp hd with hd | hd
    · exact h.sized d hd hib
    · rw [mem_singleton.mp hd] at hib
      exact absurd hib hid
  boList := hlist
  ufBo := huf
  fence d hd hf := by
    rcases mem_append.mp hd with hd | hd
    · exact h.fence d hd hf
    · rw [mem_singleton.mp hd] at hf ⊢
      exact hfence hf
  rest := hrest

theorem fenceBo_of_ne (h : c.id ≠ .fence) : c.fenceBo = none := by simp [Chunk.fenceBo, h]

theorem filterMap_fenceBo_append (h : c.fenceBo = none) :
    (before ++ [c]).filterMap Chunk.fenceBo = before.filterMap Chunk.fenceBo := by
  simp [filterMap_append, h]

theorem any_boHandles_append (h : c.id ≠ .boHandles) :
    (before ++ [c]).any (·.id = .boHandles) = before.any (·.id = .boHandles) := by
  simp [any_append, h]

theorem Parsed.numIbs_idxOf (h : Parsed before s) (e : Entity) :
    s.numIbs (s.p.gang.idxOf e) = (ibsOf e before).length := by
  rw [h.gang, h.numIbs]
  by_cases he : e ∈ gangOf before
  · rw [getElem?_idxOf he]; rfl
  · rw [idxOf_of_notMem he, getElem?_eq_none le_rfl, ibsOf_eq_nil he]; rfl

theorem amdgpuCsP1Ib_error (h : Parsed before s) :
    (amdgpuCsP1Ib c s).2 = ibError1 before c := by
  unfold amdgpuCsP1Ib ibError1
  rw [amdgpuCsJobIdx_spec, h.gang]
  cases jobIdxError c.lookup1 (gangOf before) c with
  | some e => rfl
  | none =>
    dsimp only
    rw [none_or, ← h.gang, h.numIbs_idxOf]
    split <;> rfl

theorem Parsed.ib (h : Parsed before s) (hid : c.id = .ib) (hlen : ibDw ≤ c.lengthDw)
    (hok : ibError1 before c = none) : Parsed (before ++ [c]) (amdgpuCsP1Ib c s).1 := by
  obtain ⟨hjob, hmax⟩ := or_eq_none_iff.mp hok
  have hmax : (ibsOf c.entity before).length < amdgpuRingMaxIbs c.ipType := by
    by_contra hle
    rw [if_pos (Nat.le_of_not_lt hle)] at hmax
    cases hmax
  have hfull : ¬(c.entity ∉ gangOf before ∧ (gangOf before).length = gangSize) := by
    intro hfull
    unfold jobIdxError at hjob
    split at hjob
    · cases hjob
    · rw [if_pos (.inr hfull)] at hjob
      cases hjob
  have hstep : (amdgpuCsP1Ib c s).1 =
      { s with
        p := { s.p with
          gang := gangOf (before ++ [c])
          gangLeaderIdx := (gangOf before).idxOf c.entity }
        numIbs := Function.update s.numIbs ((gangOf before).idxOf c.entity)
          ((ibsOf c.entity before).length + 1) } := by
    unfold amdgpuCsP1Ib
    rw [amdgpuCsJobIdx_spec, h.gang, hjob]
    dsimp only
    rw [← h.gang, h.numIbs_idxOf, if_neg (Nat.not_le.mpr hmax), h.gang, gangOf_append_ib hid]
  rw [hstep]
  have hidx : (gangOf (before ++ [c]))[(gangOf before).idxOf c.entity]? = some c.entity := by
    rw [gangOf_append_ib hid]
    split
    · rename_i hmem
      exact getElem?_idxOf hmem
    · rename_i hmem
      rw [idxOf_of_notMem hmem, getElem?_append_right le_rfl, Nat.sub_self]
      rfl
  refine ⟨rfl, ?_, ?_, ?_, ?_, ?_, ?_, ?_, ?_, h.rest⟩
  · rw [gangOf_append_ib hid]
    split
    · exact h.small
    · rename_i hmem
      have := h.small
      have : (gangOf before).length ≠ gangSize := fun heq => hfull ⟨hmem, heq⟩
      rw [length_append, length_singleton]
      omega
  · intro r
    dsimp only
    by_cases hr : r = (gangOf before).idxOf c.entity
    · subst hr
      rw [Function.update_self, hidx, map_some, getD_some, ibsOf_append_ib hid,
        if_pos rfl, length_append, length_singleton]
    · rw [Function.update_of_ne hr, h.numIbs]
      have hsame : (gangOf (before ++ [c]))[r]? = (gangOf before)[r]? := by
        rw [gangOf_append_ib hid]
        split
        · rfl
        · rename_i hmem
          rw [idxOf_of_notMem hmem] at hr
          rcases Nat.lt_or_gt_of_ne hr with hlt | hgt
          · exact getElem?_append_left hlt
          · rw [getElem?_eq_none (by rw [length_append]; exact hgt),
              getElem?_eq_none hgt.le]
      rw [hsame]
      cases he : (gangOf before)[r]? with
      | none => rfl
      | some e =>
        have hne : c.entity ≠ e := by
          rintro rfl
          obtain ⟨hlt, heq⟩ := List.getElem?_eq_some_iff.mp he
          exact hr (by rw [← heq, (gangOf_nodup before).idxOf_getElem])
        rw [map_some, map_some, ibsOf_append_ib hid, if_neg hne, append_nil]
  · intro e he
    rw [ibsOf_append_ib hid, length_append]
    by_cases hce : c.entity = e
    · rw [if_pos hce, ← hce]
      exact hmax
    · rw [if_neg hce]
      rw [gangOf_append_ib hid] at he
      refine h.max e ?_
      split at he
      · exact he
      · exact (mem_append.mp he).resolve_right fun hm => hce (mem_singleton.mp hm).symm
  · intro d hd
    rw [ibChunks_append, if_pos hid, getLast?_append] at hd
    obtain rfl : c = d := by simpa using hd
    exact hidx
  · intro d hd hib
    rcases mem_append.mp hd with hd | hd
    · exact h.sized d hd hib
    · rwa [mem_singleton.mp hd]
  · rw [any_boHandles_append (by simp [hid])]
    exact h.boList
  · rw [filterMap_fenceBo_append (fenceBo_of_ne (by simp [hid]))]
    exact h.ufBo
  · intro d hd hf
    rcases mem_append.mp hd with hd | hd
    · exact h.fence d hd hf
    · rw [mem_singleton.mp hd, hid] at hf
      cases hf

theorem amdgpuCsP1UserFence_error (c : Chunk) (s : Pass1) :
    (amdgpuCsP1UserFence c s).2 = fenceError c := by
  unfold amdgpuCsP1UserFence fenceError
  cases c.bo with
  | none => rfl
  | some bo =>
    dsimp only
    by_cases h1 : bo.size ≠ pageSize ∨ bo.size - 8 < c.dw 1
    · rw [if_pos h1, if_pos (by tauto)]
    · rw [if_neg h1]
      by_cases h2 : bo.userptr ≠ none
      · rw [if_pos h2, if_pos (by tauto)]
      · rw [if_neg h2, if_neg (by tauto)]

theorem pass1Chunk_error (h : Parsed before s) : (pass1Chunk c s).2 = chunkError1 before c := by
  unfold pass1Chunk chunkError1
  by_cases h1 : c.header = false
  · rw [if_pos h1, if_pos h1]
  by_cases h2 : c.kdata = false
  · rw [if_neg h1, if_neg h1, if_pos h2, if_pos h2]
  by_cases h3 : c.copied = false
  · rw [if_neg h1, if_neg h1, if_neg h2, if_neg h2, if_pos h3, if_pos h3]
  rw [if_neg h1, if_neg h1, if_neg h2, if_neg h2, if_neg h3, if_neg h3]
  cases hid : c.id with
  | ib =>
    dsimp only
    split
    · rfl
    · exact amdgpuCsP1Ib_error h
  | fence =>
    dsimp only
    split
    · rfl
    · exact amdgpuCsP1UserFence_error c s
  | boHandles =>
    dsimp only
    split
    · rfl
    have hlist := h.boList
    cases hany : before.any (·.id = .boHandles) with
    | true =>
      have hne : s.p.boList ≠ none := fun heq => by
        rw [hlist.mp heq] at hany
        cases hany
      rw [if_pos hne, if_pos rfl]
    | false =>
      rw [if_neg (not_not.mpr (hlist.mpr hany)), if_neg nofun, amdgpuCsP1BoHandles]
      cases c.info with
      | some e => rfl
      | none => exact amdgpuBoListCreate_error ..
  | _ => rfl

theorem copied_of_ok (hok : chunkError1 before c = none) : c.Copied := by
  unfold chunkError1 at hok
  split at hok
  · cases hok
  split at hok
  · cases hok
  split at hok
  · cases hok
  rename_i h1 h2 h3
  exact ⟨by simpa using h1, by simpa using h2, by simpa using h3⟩

theorem Parsed.chunk (h : Parsed before s) (hok : chunkError1 before c = none) :
    Parsed (before ++ [c]) (pass1Chunk c s).1 := by
  have hcopied := copied_of_ok hok
  obtain ⟨h1, h2, h3⟩ := hcopied
  unfold chunkError1 at hok
  unfold pass1Chunk
  rw [if_neg (by simp [h1]), if_neg (by simp [h2]), if_neg (by simp [h3])] at hok ⊢
  cases hid : c.id with
  | ib =>
    rw [hid] at hok
    dsimp only at hok ⊢
    by_cases hlen : c.lengthDw < ibDw
    · rw [if_pos hlen] at hok
      cases hok
    · rw [if_neg hlen] at hok ⊢
      exact h.ib hid (Nat.le_of_not_lt hlen) hok
  | fence =>
    rw [hid] at hok
    dsimp only at hok ⊢
    by_cases hlen : c.lengthDw < fenceDw
    · rw [if_pos hlen] at hok
      cases hok
    rw [if_neg hlen] at hok ⊢
    cases hbo : c.bo with
    | none =>
      rw [fenceError, hbo] at hok
      cases hok
    | some bo =>
      have hfence : c.fenceBo = some bo := by
        rw [Chunk.fenceBo, if_pos ⟨⟨h1, h2, h3⟩, hid, Nat.le_of_not_lt hlen⟩, hbo]
      have hstep : (amdgpuCsP1UserFence c s).1 =
          { s with
            p := { s.p.take (.bo bo.id) with ufBo := some bo }
            ufOffset := c.dw 1 } := by
        have herr := amdgpuCsP1UserFence_error c s
        rw [hok] at herr
        unfold amdgpuCsP1UserFence at herr ⊢
        rw [hbo] at herr ⊢
        dsimp only at herr ⊢
        split at herr
        · cases herr
        · split at herr
          · cases herr
          · rename_i h4 h5
            rw [if_neg h4, if_neg h5]
      rw [hstep]
      refine h.other (by simp [hid]) rfl rfl rfl ?_ ?_ (fun _ => by rw [hfence]; nofun) h.rest
      · rw [any_boHandles_append (by simp [hid])]
        exact h.boList
      · rw [filterMap_append, filterMap_cons_some hfence, filterMap_nil,
          getLast?_concat]
  | boHandles =>
    rw [hid] at hok
    dsimp only at hok ⊢
    by_cases hlen : c.lengthDw < boListInDw
    · rw [if_pos hlen] at hok
      cases hok
    rw [if_neg hlen] at hok ⊢
    cases hany : before.any (·.id = .boHandles) with
    | true =>
      rw [hany, if_pos rfl] at hok
      cases hok
    | false =>
      rw [hany, if_neg nofun] at hok
      rw [if_neg (not_not.mpr (h.boList.mpr hany))]
      obtain ⟨hinfo, hlist⟩ := or_eq_none_iff.mp hok
      obtain ⟨hframe, hsome⟩ := amdgpuBoListCreate_frame c.listAlloc c.entry (c.dw 2) s.p
      have hstep : (amdgpuCsP1BoHandles c s).1 =
          { s with p := (amdgpuBoListCreate c.listAlloc c.entry (c.dw 2) s.p).1 } := by
        rw [amdgpuCsP1BoHandles, hinfo]
      rw [hstep]
      refine h.other (by simp [hid]) (by rw [hframe]) (by rw [hframe]) rfl
        (iff_of_false (hsome hlist) (by simp [hid])) ?_ (by simp [hid]) ?_
      · rw [filterMap_fenceBo_append (fenceBo_of_ne (by simp [hid])), hframe]
        exact h.ufBo
      · dsimp only
        rw [hframe]
        exact h.rest
  | unknown =>
    rw [hid] at hok
    cases hok
  | _ =>
    refine h.other (by simp [hid]) rfl rfl rfl ?_ ?_ (by simp [hid]) h.rest
    · rw [any_boHandles_append (by simp [hid])]
      exact h.boList
    · rw [filterMap_fenceBo_append (fenceBo_of_ne (by simp [hid]))]
      exact h.ufBo

end

theorem pass1_loop (cs : List Chunk) {p : Parser} (h : Parsed [] { p }) :
    (eachUntil pass1Chunk cs { p }).2 = firstError chunkError1 [] cs ∧
  (firstError chunkError1 [] cs = none → Parsed cs (eachUntil pass1Chunk cs { p }).1) := by
  refine eachUntil_spec (P := fun _ => True) (R := Parsed) ?_ ?_ (fun _ _ => trivial) h
  · exact fun _ _ _ _ hs => pass1Chunk_error hs
  · exact fun _ _ _ _ hs hok => hs.chunk hok

/-! ## The jobs -/

def newJobs (numIbs : Nat → Nat) (is : List Nat) : List Job := is.map fun i => { alloc := numIbs i }

/-- The jobs `is` are there, and nothing else but the ledger differs. -/
def Allocated (numIbs : Nat → Nat) (p : Parser) (is : List Nat) (p' : Parser) : Prop :=
  p' = { p with jobs := newJobs numIbs is, ledger := p'.ledger }

section
variable {call : Call} {numIbs : Nat → Nat} {p q : Parser} {is : List Nat} {i : Nat}

theorem amdgpuJobAlloc_error (hi : numIbs i ≠ 0) :
    (amdgpuJobAlloc call numIbs i q).2 = jobError call i := by
  unfold amdgpuJobAlloc jobError
  rw [if_neg hi]
  split <;> rfl

theorem Allocated.step (h : Allocated numIbs p is q) (hi : numIbs i ≠ 0)
    (hok : jobError call i = none) :
    Allocated numIbs p (is ++ [i]) (amdgpuJobAlloc call numIbs i q).1 := by
  unfold amdgpuJobAlloc
  rw [if_neg hi]
  split
  · rename_i halloc
    rw [jobError, if_pos halloc] at hok
    cases hok
  · rw [Allocated, newJobs, map_append]
    dsimp only [Allocated] at h
    rw [h]
    rfl

theorem jobLoop (call : Call) {n : Nat} (hnum : ∀ i ∈ range n, numIbs i ≠ 0)
    (hjobs : p.jobs = []) :
    (eachUntil (amdgpuJobAlloc call numIbs) (range n) p).2 =
        (range n).findSome? (jobError call) ∧
      ((range n).findSome? (jobError call) = none →
        Allocated numIbs p (range n)
          (eachUntil (amdgpuJobAlloc call numIbs) (range n) p).1) := by
  have h : Allocated numIbs p [] p := by
    rw [Allocated, newJobs, map_nil, ← hjobs]
  rw [← firstError_const (jobError call) []]
  refine eachUntil_spec (P := fun i => numIbs i ≠ 0) (R := Allocated numIbs p) ?_ ?_ hnum h
  · exact fun _ _ _ hi _ => amdgpuJobAlloc_error hi
  · exact fun _ _ _ hi hs hok => hs.step hi hok

end

/-- What pass 1 leaves when it accepts the chunks. -/
structure Jobs (cs : List Chunk) (p : Parser) : Prop where
  gang : p.gang = gangOf cs
  small : p.gang.length ≤ gangSize
  /-- The leader is the job of the last IB chunk. -/
  leader : ∃ c i, (ibChunks cs).getLast? = some c ∧ p.gangLeader = some i ∧
    p.gang[i]? = some c.entity
  length : p.jobs.length = p.gang.length
  /-- Each job has room for the IBs of its entity. -/
  alloc : ∀ (i : Nat) (j : Job) (e : Entity), p.jobs[i]? = some j → p.gang[i]? = some e →
    j.alloc = (ibsOf e cs).length ∧ j.alloc ≤ amdgpuRingMaxIbs e.1 ∧ j.ibs = []
  sized : ∀ c ∈ cs, c.id = .ib → ibDw ≤ c.lengthDw
  ufBo : p.ufBo = (cs.filterMap Chunk.fenceBo).getLast?
  fence : p.ufBo ≠ none ↔ cs.any (·.id = .fence) = true
  rest : p.postDeps = none ∧ p.reads = [] ∧ p.chunksNull = false ∧ p.fault = false

variable {cs : List Chunk} {s : Pass1} {p : Parser}

theorem Parsed.fence_iff (h : Parsed cs s) : s.p.ufBo ≠ none ↔ cs.any (·.id = .fence) = true := by
  rw [h.ufBo, ne_eq, getLast?_eq_none_iff, filterMap_eq_nil_iff, List.any_eq_true]
  constructor
  · intro hne
    push Not at hne
    obtain ⟨c, hc, hbo⟩ := hne
    refine ⟨c, hc, ?_⟩
    by_contra hid
    exact hbo (fenceBo_of_ne (by simpa using hid))
  · rintro ⟨c, hc, hid⟩ hall
    exact h.fence c hc (by simpa using hid) (hall c hc)

theorem newJobs_getElem? {numIbs : Nat → Nat} {n i : Nat} {j : Job}
    (h : (newJobs numIbs (range n))[i]? = some j) : i < n ∧ j = { alloc := numIbs i } := by
  rw [newJobs, getElem?_map] at h
  obtain ⟨k, hk, rfl⟩ := map_eq_some_iff.mp h
  obtain ⟨hlt, rfl⟩ := List.getElem?_eq_some_iff.mp hk
  rw [getElem_range]
  exact ⟨by simpa using hlt, rfl⟩

theorem Parsed.jobs (h : Parsed cs s) (hgang : gangOf cs ≠ []) {q : Parser}
    (hq : Allocated s.numIbs s.p (range (gangOf cs).length) q) :
    Jobs cs { q with gangLeader := some q.gangLeaderIdx } := by
  dsimp only [Allocated] at hq
  rw [hq]
  refine ⟨h.gang, by rw [← h.gang] at hgang ⊢; exact h.gang ▸ h.small, ?_, ?_, ?_, h.sized, h.ufBo,
    h.fence_iff, h.rest.2⟩
  · cases hlast : (ibChunks cs).getLast? with
    | none =>
      rw [getLast?_eq_none_iff] at hlast
      rw [gangOf, hlast] at hgang
      exact absurd rfl hgang
    | some c =>
      refine ⟨c, s.p.gangLeaderIdx, rfl, rfl, ?_⟩
      dsimp only
      rw [h.gang]
      exact h.leader c hlast
  · simp [newJobs, h.gang]
  · intro i j e hj he
    dsimp only at hj he
    rw [h.gang] at he
    obtain ⟨hi, rfl⟩ := newJobs_getElem? hj
    have hnum : s.numIbs i = (ibsOf e cs).length := by rw [h.numIbs, he]; rfl
    exact ⟨hnum, by dsimp only; rw [hnum]; exact h.max e (mem_of_getElem? he), rfl⟩

theorem Jobs.modify (h : Jobs cs p) (k : Nat) {f : Job → Job}
    (hf : ∀ j, (f j).alloc = j.alloc ∧ (f j).ibs = j.ibs) :
    Jobs cs { p with jobs := p.jobs.modify k f } := by
  refine ⟨h.gang, h.small, h.leader, by rw [length_modify]; exact h.length, ?_, h.sized,
    h.ufBo, h.fence, h.rest⟩
  intro i j e hj he
  dsimp only at hj
  rw [getElem?_modify] at hj
  obtain ⟨j0, hj0, rfl⟩ := map_eq_some_iff.mp hj
  obtain ⟨halloc, hmax, hibs⟩ := h.alloc i j0 e hj0 he
  split
  · rw [(hf j0).1, (hf j0).2]
    exact ⟨halloc, hmax, hibs⟩
  · exact ⟨halloc, hmax, hibs⟩

theorem Parsed.pass1Jobs_spec {call : Call} (h : Parsed call.chunks s) :
    (pass1Jobs call s).2 =
        (if gangOf call.chunks = [] ∨ (call.sriovVf ∧ 1 < (gangOf call.chunks).length) then
          some .einval
        else ((range (gangOf call.chunks).length).findSome? (jobError call)).or
          (if call.generation = false then some .other else none)) ∧
      ((pass1Jobs call s).2 = none → Jobs call.chunks (pass1Jobs call s).1) := by
  unfold pass1Jobs
  rw [h.gang]
  by_cases hgang : gangOf call.chunks = [] ∨ (call.sriovVf ∧ 1 < (gangOf call.chunks).length)
  · rw [if_pos hgang, if_pos hgang]
    exact ⟨rfl, nofun⟩
  rw [if_neg hgang, if_neg hgang]
  have hnum : ∀ i ∈ range (gangOf call.chunks).length, s.numIbs i ≠ 0 := by
    intro i hi
    have hi := mem_range.mp hi
    rw [h.numIbs, getElem?_eq_getElem hi, map_some, getD_some]
    exact (ibsOf_pos (getElem_mem hi)).ne'
  obtain ⟨herr, hall⟩ := jobLoop call hnum h.rest.1
  generalize eachUntil (amdgpuJobAlloc call s.numIbs)
    (range (gangOf call.chunks).length) s.p = x at herr hall ⊢
  obtain ⟨q, r⟩ := x
  dsimp only at herr hall
  rw [← herr]
  cases r with
  | some e => exact ⟨rfl, nofun⟩
  | none =>
    have hjobs := h.jobs (fun heq => hgang (.inl heq)) (hall herr.symm)
    rw [none_or]
    dsimp only [andThen]
    by_cases hgen : call.generation = false
    · rw [if_pos hgen, if_pos hgen]
      exact ⟨rfl, nofun⟩
    · rw [if_neg hgen, if_neg hgen]
      split
      · exact ⟨rfl, fun _ => hjobs.modify _ fun _ => ⟨rfl, rfl⟩⟩
      · exact ⟨rfl, fun _ => hjobs⟩

/-- A parser as `amdgpu_cs_parser_init` leaves it, whatever is on the ledger. -/
def Fresh (p : Parser) : Prop := p = { ledger := p.ledger }

theorem Fresh.parsed (h : Fresh p) : Parsed [] { p } := by
  dsimp only [Fresh] at h
  rw [h]
  exact .start _ rfl rfl rfl ⟨rfl, rfl, rfl, rfl, rfl⟩

theorem pass1_spec (call : Call) (h : Fresh p) :
    (amdgpuCsPass1 call p).2 = pass1Error call ∧
      (pass1Error call = none → Jobs call.chunks (amdgpuCsPass1 call p).1) := by
  obtain ⟨herr, hparsed⟩ := pass1_loop call.chunks h.parsed
  unfold amdgpuCsPass1 pass1Error
  by_cases h1 : call.chunkArray = false
  · rw [if_pos h1, if_pos h1]
    exact ⟨rfl, nofun⟩
  by_cases h2 : call.chunkCopy = false
  · rw [if_neg h1, if_neg h1, if_pos h2, if_pos h2]
    exact ⟨rfl, nofun⟩
  by_cases h3 : call.chunkMem = false
  · rw [if_neg h1, if_neg h1, if_neg h2, if_neg h2, if_pos h3, if_pos h3]
    exact ⟨rfl, nofun⟩
  rw [if_neg h1, if_neg h1, if_neg h2, if_neg h2, if_neg h3, if_neg h3]
  dsimp only
  rw [← herr] at hparsed ⊢
  generalize eachUntil pass1Chunk call.chunks { p } = x at hparsed ⊢
  obtain ⟨s, r⟩ := x
  cases r with
  | some e => exact ⟨rfl, nofun⟩
  | none =>
    obtain ⟨hjobs, hok⟩ := (hparsed rfl).pass1Jobs_spec
    dsimp only
    rw [none_or, ← hjobs]
    exact ⟨rfl, hok⟩

end Amdkfd.Cs
