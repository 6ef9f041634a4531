import Mathlib.Tactic.Ring
import Amdkfd.Cs.Passes

/-!
# The two passes agree

Pass 2 handles the chunks that pass 1 accepted. `Filled` is what it has put into the jobs after some
of the chunks.
-/

namespace Amdkfd.Cs

open Lib List Option

/-! ## What the functions of pass 2 leave alone -/

/-- The dwords read on the way from `p` to `p'` lie in the part of `c` that was copied. -/
def ReadsInside (c : Chunk) (p p' : Parser) : Prop :=
  ∃ ds : List Nat, p'.reads = p.reads ++ ds.map (fun d => (c, d)) ∧ ∀ d ∈ ds, d < c.lengthDw

def SameJobs (p p' : Parser) : Prop :=
  p' = { p with postDeps := p'.postDeps, ledger := p'.ledger, reads := p'.reads }

section
variable {c : Chunk} {p q : Parser}

theorem ReadsInside.refl : ReadsInside c p p := ⟨[], by simp, nofun⟩

theorem ReadsInside.of_eq (h : ReadsInside c p q) {q' : Parser} (heq : q'.reads = q.reads) :
    ReadsInside c p q' := by
  obtain ⟨ds, hds, hlt⟩ := h
  exact ⟨ds, heq.trans hds, hlt⟩

theorem ReadsInside.read (h : ReadsInside c p q) (ds : List Nat) (hlt : ∀ d ∈ ds, d < c.lengthDw) :
    ReadsInside c p (q.read c ds) := by
  obtain ⟨ds', hds, hlt'⟩ := h
  refine ⟨ds' ++ ds, ?_, ?_⟩
  · rw [Parser.read, hds, map_append, append_assoc]
  · intro d hd
    exact (mem_append.mp hd).elim (hlt' d) (hlt d)

theorem read_read (p : Parser) (ds es : List Nat) :
    (p.read c ds).read c es = p.read c (ds ++ es) := by
  simp [Parser.read, append_assoc]

theorem read_gang (p : Parser) (ds : List Nat) : (p.read c ds).gang = p.gang := rfl

theorem read_nil (p : Parser) : p.read c [] = p := by simp [Parser.read]

theorem item_lt {size i d : Nat} (hi : i ∈ List.range (c.numDeps size)) (hd : d < size) :
    size * i + d < c.lengthDw := by
  have hi : i < c.lengthDw * 4 % 2 ^ 32 / (4 * size) := mem_range.mp hi
  have hpos : 0 < 4 * size := by omega
  have hle := (Nat.le_div_iff_mul_le hpos).mp hi
  have hmod := Nat.mod_le (c.lengthDw * 4) (2 ^ 32)
  have hmul : (i + 1) * (4 * size) = 4 * (size * i) + 4 * size := by ring
  rw [Nat.succ_eq_add_one, hmul] at hle
  omega

theorem readLoop {reads : Nat → List Nat} {err : Nat → Option Errno} {is : List Nat}
    (hlt : ∀ i ∈ is, ∀ d ∈ reads i, d < c.lengthDw) (p : Parser) :
    ∃ ds, (∀ d ∈ ds, d < c.lengthDw) ∧
      eachUntil (fun i (q : Parser) => (q.read c (reads i), err i)) is p =
        (p.read c ds, is.findSome? err) := by
  induction is generalizing p with
  | nil => exact ⟨[], nofun, by rw [read_nil]; rfl⟩
  | cons i is ih =>
    obtain ⟨hi, his⟩ := forall_mem_cons.mp hlt
    rw [eachUntil, findSome?_cons]
    cases err i with
    | some e => exact ⟨reads i, hi, rfl⟩
    | none =>
      obtain ⟨ds, hds, heq⟩ := ih his (p.read c (reads i))
      refine ⟨reads i ++ ds, fun d hd => (mem_append.mp hd).elim (hi d) (hds d), ?_⟩
      dsimp only [andThen]
      rw [heq, read_read]

/-- The dwords that the body of the loop of `amdgpu_cs_p2_dependencies` reads. -/
def depReads (c : Chunk) (i : Nat) : List Nat :=
  let b := depDw * i
  if (c.item i).ctx = false then [b + 3]
  else match amdgpuCtxGetEntity (c.dw b) (c.dw (b + 1)) (c.dw (b + 2)) (c.item i).entity with
    | .error _ => [b + 3, b, b + 1, b + 2]
    | .ok _ => [b + 3, b, b + 1, b + 2, b + 4, b + 5]

theorem dependency_eq (c : Chunk) :
    dependency c = fun i p => (p.read c (depReads c i), depError c i) := by
  funext i p
  unfold dependency depReads depError
  dsimp only
  split
  · rfl
  generalize amdgpuCtxGetEntity (c.dw (depDw * i)) (c.dw (depDw * i + 1)) (c.dw (depDw * i + 2))
    (c.item i).entity = x
  cases x with
  | error e => rw [read_read]; rfl
  | ok e =>
    rw [read_read, read_read]
    cases (c.item i).fence with
    | error e => rfl
    | ok b => cases b <;> rfl

theorem depReads_lt {i : Nat} (hi : i ∈ List.range (c.numDeps depDw)) :
    ∀ d ∈ depReads c i, d < c.lengthDw := by
  have hlt : ∀ d < 6, depDw * i + d < c.lengthDw := fun d hd => item_lt hi hd
  have h0 := hlt 0 (by decide)
  have h1 := hlt 1 (by decide)
  have h2 := hlt 2 (by decide)
  have h3 := hlt 3 (by decide)
  have h4 := hlt 4 (by decide)
  have h5 := hlt 5 (by decide)
  unfold depReads
  dsimp only
  split
  · simpa using h3
  split
  · simpa using ⟨h3, h0, h1, h2⟩
  · simpa using ⟨h3, h0, h1, h2, h4, h5⟩

theorem amdgpuCsP2Dependencies_spec (c : Chunk) (p : Parser) :
    ∃ ds, (∀ d ∈ ds, d < c.lengthDw) ∧ amdgpuCsP2Dependencies c p =
      (p.read c ds, (List.range (c.numDeps depDw)).findSome? (depError c)) := by
  rw [amdgpuCsP2Dependencies, dependency_eq]
  exact readLoop (fun i hi => depReads_lt hi) p

theorem amdgpuCsP2SyncobjIn_spec (c : Chunk) (p : Parser) :
    ∃ ds, (∀ d ∈ ds, d < c.lengthDw) ∧ amdgpuCsP2SyncobjIn c p =
      (p.read c ds, (List.range (c.numDeps semDw)).findSome? fun i =>
        (c.item i).findFence.or (c.item i).sync) :=
  readLoop (fun i hi => by simpa using item_lt hi (show 0 < semDw by decide)) p

theorem amdgpuCsP2SyncobjTimelineWait_spec (c : Chunk) (p : Parser) :
    ∃ ds, (∀ d ∈ ds, d < c.lengthDw) ∧ amdgpuCsP2SyncobjTimelineWait c p =
      (p.read c ds, (List.range (c.numDeps syncobjDw)).findSome? fun i =>
        (c.item i).findFence.or (c.item i).sync) := by
  refine readLoop (fun i hi => ?_) p
  have hlt : ∀ d < 4, syncobjDw * i + d < c.lengthDw := fun d hd => item_lt hi hd
  simpa using ⟨hlt 0 (by decide), hlt 2 (by decide), hlt 3 (by decide), hlt 1 (by decide)⟩

/-! ## Post dependencies -/

structure Posted (c : Chunk) (p p' : Parser) : Prop where
  same : SameJobs p p'
  reads : ReadsInside c p p'
  post : p'.postDeps ≠ none

theorem Posted.read (h : Posted c p q) (ds : List Nat) (hlt : ∀ d ∈ ds, d < c.lengthDw) :
    Posted c p (q.read c ds) :=
  ⟨by have := h.same; dsimp only [SameJobs] at this; rw [this]; rfl, h.reads.read ds hlt, h.post⟩

theorem Posted.ledger (h : Posted c p q) (l : Ledger Res) : Posted c p { q with ledger := l } :=
  ⟨by have := h.same; dsimp only [SameJobs] at this; rw [this]; rfl, h.reads, h.post⟩

theorem Posted.addPostDep (h : Posted c p q) (d : PostDep) : Posted c p (q.addPostDep d) :=
  ⟨by have := h.same; dsimp only [SameJobs] at this; rw [this]; rfl, h.reads, by
    rw [Parser.addPostDep, ne_eq, map_eq_none_iff]
    exact h.post⟩

theorem syncobjOut_error (i : Nat) (q : Parser) :
    (syncobjOut c i q).2 = syncobjOutError c i := by
  unfold syncobjOut syncobjOutError
  cases (c.item i).syncobj <;> rfl

theorem Posted.syncobjOut (h : Posted c p q) {i : Nat} (hi : i ∈ List.range (c.numDeps semDw)) :
    Posted c p (syncobjOut c i q).1 := by
  have hread := h.read [semDw * i] (by simpa using item_lt hi (show 0 < semDw by decide))
  unfold Cs.syncobjOut
  cases (c.item i).syncobj with
  | none => exact hread
  | some s => exact hread.addPostDep _

theorem syncobjTimelineSignal_error (i : Nat) (q : Parser) :
    (syncobjTimelineSignal c i q).2 = syncobjSignalError c i := by
  unfold syncobjTimelineSignal syncobjSignalError
  dsimp only
  split
  · rfl
  cases (c.item i).syncobj <;> rfl

theorem Posted.syncobjTimelineSignal (h : Posted c p q) {i : Nat}
    (hi : i ∈ List.range (c.numDeps syncobjDw)) : Posted c p (syncobjTimelineSignal c i q).1 := by
  have hlt : ∀ d < 4, syncobjDw * i + d < c.lengthDw := fun d hd => item_lt hi hd
  have hpoint := h.read [syncobjDw * i + 2, syncobjDw * i + 3]
    (by simpa using ⟨hlt 2 (by decide), hlt 3 (by decide)⟩)
  have hhandle := hpoint.read [syncobjDw * i] (by simpa using hlt 0 (by decide))
  unfold Cs.syncobjTimelineSignal
  dsimp only
  split
  · exact hpoint
  generalize (if c.qw (syncobjDw * i + 2) ≠ 0 then some i else none) = chain
  cases (c.item i).syncobj with
  | none =>
    cases chain with
    | none => exact hhandle
    | some k => exact hhandle.ledger _
  | some s =>
    cases chain with
    | none =>
      exact (hhandle.read [syncobjDw * i + 2, syncobjDw * i + 3]
        (by simpa using ⟨hlt 2 (by decide), hlt 3 (by decide)⟩)).addPostDep _
    | some k =>
      exact ((hhandle.ledger _).read [syncobjDw * i + 2, syncobjDw * i + 3]
        (by simpa using ⟨hlt 2 (by decide), hlt 3 (by decide)⟩)).addPostDep _

theorem fillPostDeps_spec {size : Nat} {body : Nat → Parser → Parser × Option Errno}
    {item : Nat → Option Errno} {before : List Chunk}
    (hpost : p.postDeps = none ↔ before.any Chunk.isPost = false)
    (herr : ∀ i q, (body i q).2 = item i)
    (hbody : ∀ i ∈ List.range (c.numDeps size), ∀ q, Posted c p q → Posted c p (body i q).1) :
    (fillPostDeps c size body p).2 = postError before c size item ∧
      SameJobs p (fillPostDeps c size body p).1 ∧
      ReadsInside c p (fillPostDeps c size body p).1 ∧
      (postError before c size item = none → (fillPostDeps c size body p).1.postDeps ≠ none) := by
  unfold fillPostDeps postError
  cases hany : before.any Chunk.isPost with
  | true =>
    have hne : p.postDeps ≠ none := fun heq => by
      rw [hpost.mp heq] at hany
      cases hany
    rw [if_pos hne, if_pos rfl]
    exact ⟨rfl, rfl, .refl, nofun⟩
  | false =>
    rw [if_neg (not_not.mpr (hpost.mpr hany)), if_neg Bool.false_ne_true]
    by_cases hmem : c.postDeps = false
    · rw [if_pos hmem, if_pos hmem]
      exact ⟨rfl, rfl, .refl, nofun⟩
    · rw [if_neg hmem, if_neg hmem]
      have hstart : Posted c p { p with postDeps := some [] } :=
        ⟨rfl, ReadsInside.refl.of_eq rfl, nofun⟩
      have hend := eachUntil_inv hbody hstart
      exact ⟨eachUntil_findSome herr _ _, hend.same, hend.reads, fun _ => hend.post⟩

end

/-! ## Filling the jobs -/

structure Filled (cs before : List Chunk) (s : Pass2) : Prop where
  gang : s.p.gang = gangOf cs
  small : s.p.gang.length ≤ gangSize
  length : s.p.jobs.length = s.p.gang.length
  /-- Each job has room for the IBs of its entity, and holds those of `before`. -/
  jobs : ∀ (i : Nat) (j : Job) (e : Entity), s.p.jobs[i]? = some j → s.p.gang[i]? = some e →
    j.alloc = (ibsOf e cs).length ∧ j.alloc ≤ amdgpuRingMaxIbs e.1 ∧
      j.ibs = (ibsOf e before).map ibOf
  cePreempt : s.cePreempt = before.countP (Chunk.isPreemptible true)
  dePreempt : s.dePreempt = before.countP (Chunk.isPreemptible false)
  post : s.p.postDeps = none ↔ before.any Chunk.isPost = false
  fence : s.p.ufBo ≠ none ↔ cs.any (·.id = .fence) = true

theorem Jobs.filled {cs : List Chunk} {p : Parser} (h : Jobs cs p) : Filled cs [] { p } where
  gang := h.gang
  small := h.small
  length := h.length
  jobs := h.alloc
  cePreempt := rfl
  dePreempt := rfl
  post := iff_of_true h.rest.1 rfl
  fence := h.fence

section
variable {cs before : List Chunk} {c : Chunk} {s s' : Pass2}

theorem countP_append_of_ne (hid : c.id ≠ .ib) (ce : Bool) :
    (before ++ [c]).countP (Chunk.isPreemptible ce) = before.countP (Chunk.isPreemptible ce) := by
  simp [countP_append, Chunk.isPreemptible, hid]

theorem any_isPost_append (h : c.isPost = false) :
    (before ++ [c]).any Chunk.isPost = before.any Chunk.isPost := by
  simp [any_append, h]

theorem Filled.other (h : Filled cs before s) (hid : c.id ≠ .ib) (hgang : s'.p.gang = s.p.gang)
    (hlen : s'.p.jobs.length = s.p.jobs.length)
    (hjobs : ∀ (i : Nat) (j' : Job), s'.p.jobs[i]? = some j' →
      ∃ j, s.p.jobs[i]? = some j ∧ j'.alloc = j.alloc ∧ j'.ibs = j.ibs)
    (hce : s'.cePreempt = s.cePreempt) (hde : s'.dePreempt = s.dePreempt)
    (huf : s'.p.ufBo = s.p.ufBo)
    (hpost : s'.p.postDeps = none ↔ (before ++ [c]).any Chunk.isPost = false) :
    Filled cs (before ++ [c]) s' where
  gang := by rw [hgang, h.gang]
  small := by rw [hgang]; exact h.small
  length := by rw [hlen, hgang, h.length]
  jobs i j' e hj' he := by
    obtain ⟨j, hj, halloc, hibs⟩ := hjobs i j' hj'
    rw [hgang] at he
    rw [halloc, hibs, ibsOf_append_of_ne hid]
    exact h.jobs i j e hj he
  cePreempt := by rw [hce, h.cePreempt, countP_append_of_ne hid]
  dePreempt := by rw [hde, h.dePreempt, countP_append_of_ne hid]
  post := hpost
  fence := by rw [huf]; exact h.fence

theorem Filled.same (h : Filled cs before s) (hid : c.id ≠ .ib) {q : Parser}
    (hq : SameJobs s.p q) (hpost : q.postDeps = none ↔ (before ++ [c]).any Chunk.isPost = false) :
    Filled cs (before ++ [c]) { s with p := q } := by
  dsimp only [SameJobs] at hq
  exact h.other hid (by rw [hq]) (by rw [hq])
    (fun i j hj => ⟨j, by rw [hq] at hj; exact hj, rfl, rfl⟩) rfl rfl (by rw [hq]) hpost

theorem Filled.read (h : Filled cs before s) (hid : c.id ≠ .ib) (hpost : c.isPost = false)
    (ds : List Nat) : Filled cs (before ++ [c]) { s with p := s.p.read c ds } :=
  h.same hid rfl (by rw [any_isPost_append hpost]; exact h.post)

/-! ## An IB -/

theorem countPreempt_p (c : Chunk) (s : Pass2) : (countPreempt c s).p = s.p := by
  unfold countPreempt
  split
  · split <;> rfl
  · rfl

theorem Filled.countPreempt (h : Filled cs before s) (hid : c.id = .ib) :
    (countPreempt c s).cePreempt = (before ++ [c]).countP (Chunk.isPreemptible true) ∧
      (countPreempt c s).dePreempt = (before ++ [c]).countP (Chunk.isPreemptible false) := by
  have hce := h.cePreempt
  have hde := h.dePreempt
  unfold Cs.countPreempt
  rw [countP_append, countP_append]
  by_cases hp : c.ipType = hwIpGfx ∧ c.isPreempt
  · rw [if_pos hp]
    cases hc : c.isCe <;> simp [Chunk.isPreemptible, hid, hp.1, hp.2, hc, hce, hde]
  · rw [if_neg hp]
    have hno : ∀ ce, c.isPreemptible ce = false := by
      intro ce
      by_cases hgfx : c.ipType = hwIpGfx
      · have : c.isPreempt = false := by simpa [hgfx] using hp
        simp [Chunk.isPreemptible, this]
      · simp [Chunk.isPreemptible, hgfx]
    simp [hno, hce, hde]

theorem countPreempt_setP (c : Chunk) (s : Pass2) (q : Parser) :
    countPreempt c { s with p := q } = { countPreempt c s with p := q } := by
  unfold countPreempt
  split
  · split <;> rfl
  · rfl

theorem fillIb_spec (c : Chunk) (r : Nat) (s : Pass2) :
    (fillIb c r s).2 =
        (if s.p.ufBo ≠ none ∧ c.noUserFence then some .einval
        else if c.ipType = hwIpGfx ∧ c.isPreempt ∧
          (1 < (countPreempt c s).cePreempt ∨ 1 < (countPreempt c s).dePreempt) then some .einval
        else c.ibGet) ∧
      ((fillIb c r s).2 = none → ∃ f : Job → Job,
        (∀ j, (f j).alloc = j.alloc ∧ (f j).ibs = j.ibs.dropLast ++ [ibOf c]) ∧
        (fillIb c r s).1 =
          { countPreempt c s with
            p := { s.p with
              jobs := s.p.jobs.modify r f
              reads := (fillIb c r s).1.p.reads } }) := by
  unfold fillIb
  rw [countPreempt_setP]
  by_cases h1 : s.p.ufBo ≠ none ∧ c.noUserFence
  · rw [if_pos h1, if_pos h1]
    exact ⟨rfl, nofun⟩
  rw [if_neg h1, if_neg h1]
  dsimp only
  by_cases h2 : c.ipType = hwIpGfx ∧ c.isPreempt ∧
      (1 < (countPreempt c s).cePreempt ∨ 1 < (countPreempt c s).dePreempt)
  · rw [if_pos h2, if_pos h2]
    exact ⟨rfl, nofun⟩
  rw [if_neg h2, if_neg h2]
  cases c.ibGet with
  | some e => exact ⟨rfl, nofun⟩
  | none =>
    refine ⟨rfl, fun _ => ?_⟩
    by_cases hpre : c.isPreamble
    · rw [if_pos hpre]
      refine ⟨(fun j => { j with ibs := j.ibs.dropLast ++ [ibOf c] }) ∘
        (fun j => { j with preamble := true }), fun _ => ⟨rfl, rfl⟩, ?_⟩
      simp only [Parser.setJob, Parser.read, modify_modify_eq]
    · rw [if_neg hpre]
      exact ⟨fun j => { j with ibs := j.ibs.dropLast ++ [ibOf c] }, fun _ => ⟨rfl, rfl⟩, rfl⟩

theorem fillIb_reads {p : Parser} (h : ReadsInside c p s.p) (hlen : ibDw ≤ c.lengthDw) (r : Nat) :
    ReadsInside c p (fillIb c r s).1.p := by
  have hlt : ∀ d < 8, d < c.lengthDw := fun d hd => lt_of_lt_of_le hd hlen
  have h5 := h.read [5, 1] (by simpa using ⟨hlt 5 (by decide), hlt 1 (by decide)⟩)
  have h1 := h5.read (if c.parseCs then [1, 4] else [1]) (by
    split
    · simpa using ⟨hlt 1 (by decide), hlt 4 (by decide)⟩
    · simpa using hlt 1 (by decide))
  unfold fillIb
  split
  · exact h
  dsimp only
  rw [countPreempt_p]
  split
  · rw [countPreempt_p]; exact h5
  · have h2 : ReadsInside c p (if c.isPreamble then
        ((s.p.read c [5, 1]).read c (if c.parseCs then [1, 4] else [1])).setJob r
          fun j => { j with preamble := true }
        else (s.p.read c [5, 1]).read c (if c.parseCs then [1, 4] else [1])) := by
      split
      · exact h1.of_eq rfl
      · exact h1
    split
    · exact h2
    · exact (h2.read [2, 3, 4, 1] (by
        simpa using ⟨hlt 2 (by decide), hlt 3 (by decide), hlt 4 (by decide),
          hlt 1 (by decide)⟩)).of_eq rfl

theorem amdgpuCsP2Ib_eq (hmem : c.entity ∈ s.p.gang) :
    amdgpuCsP2Ib c s =
      match jobIdxError c.lookup2 s.p.gang c with
      | some e => ({ s with p := s.p.read c [5, 6, 7] }, some e)
      | none => fillIb c (s.p.gang.idxOf c.entity)
          { s with
            p := (s.p.read c [5, 6, 7]).setJob (s.p.gang.idxOf c.entity)
              fun j => { j with ibs := j.ibs ++ [{}] } } := by
  unfold amdgpuCsP2Ib
  rw [amdgpuCsJobIdx_spec, read_gang]
  cases jobIdxError c.lookup2 s.p.gang c with
  | some e => rfl
  | none => dsimp only; rw [if_pos hmem]; rfl

theorem amdgpuCsP2Ib_error (h : Filled cs before s) (hid : c.id = .ib)
    (hmem : c.entity ∈ gangOf cs) :
    (amdgpuCsP2Ib c s).2 = ibError2 (cs.any (·.id = .fence)) (gangOf cs) before c := by
  rw [amdgpuCsP2Ib_eq (by rw [h.gang]; exact hmem), h.gang, ibError2]
  cases jobIdxError c.lookup2 (gangOf cs) c with
  | some e => rfl
  | none =>
    obtain ⟨hce, hde⟩ := h.countPreempt hid
    dsimp only
    rw [none_or, (fillIb_spec c _ _).1]
    rw [countPreempt_setP, hce, hde]
    have huf : ((s.p.read c [5, 6, 7]).setJob ((gangOf cs).idxOf c.entity)
        fun j => { j with ibs := j.ibs ++ [{}] }).ufBo ≠ none ↔
        cs.any (·.id = .fence) = true := h.fence
    simp only [huf]

theorem amdgpuCsP2Ib_reads (h : Filled cs before s) (hmem : c.entity ∈ gangOf cs)
    (hlen : ibDw ≤ c.lengthDw) : ReadsInside c s.p (amdgpuCsP2Ib c s).1.p := by
  have hlt : ∀ d < 8, d < c.lengthDw := fun d hd => lt_of_lt_of_le hd hlen
  have hread := (ReadsInside.refl (c := c) (p := s.p)).read [5, 6, 7]
    (by simpa using ⟨hlt 5 (by decide), hlt 6 (by decide), hlt 7 (by decide)⟩)
  rw [amdgpuCsP2Ib_eq (by rw [h.gang]; exact hmem)]
  split
  · exact hread
  · exact fillIb_reads (hread.of_eq rfl) hlen _

theorem Filled.ib (h : Filled cs before s) (hid : c.id = .ib) (hmem : c.entity ∈ gangOf cs)
    (hok : ibError2 (cs.any (·.id = .fence)) (gangOf cs) before c = none) :
    Filled cs (before ++ [c]) (amdgpuCsP2Ib c s).1 := by
  have hnone := (amdgpuCsP2Ib_error h hid hmem).trans hok
  have hjob : jobIdxError c.lookup2 (gangOf cs) c = none := (or_eq_none_iff.mp hok).1
  obtain ⟨hce, hde⟩ := h.countPreempt hid
  rw [amdgpuCsP2Ib_eq (by rw [h.gang]; exact hmem), h.gang, hjob] at hnone ⊢
  dsimp only at hnone ⊢
  obtain ⟨f, hf, heq⟩ := (fillIb_spec c _ _).2 hnone
  rw [heq, countPreempt_setP]
  refine ⟨h.gang, h.small, ?_, ?_, hce, hde, ?_, h.fence⟩
  · simp only [Parser.setJob, Parser.read, length_modify]
    exact h.length
  · intro i j' e hj' he
    simp only [Parser.setJob, Parser.read, modify_modify_eq, getElem?_modify] at hj'
    obtain ⟨j, hj, hj'⟩ := map_eq_some_iff.mp hj'
    have he : s.p.gang[i]? = some e := he
    obtain ⟨halloc, hmax, hibs⟩ := h.jobs i j e hj he
    rw [h.gang] at he
    obtain ⟨hi, hie⟩ := List.getElem?_eq_some_iff.mp he
    by_cases hidx : (gangOf cs).idxOf c.entity = i
    · have hentity : c.entity = e := by
        rw [← hie]
        simp only [← hidx, getElem_idxOf]
      rw [if_pos hidx] at hj'
      rw [← hj', ibsOf_append_ib hid, if_pos hentity, map_append, ← hibs]
      dsimp only [Function.comp]
      rw [(hf _).1, (hf _).2]
      dsimp only
      rw [dropLast_concat]
      exact ⟨halloc, hmax, rfl⟩
    · have hentity : c.entity ≠ e := by
        rintro rfl
        exact hidx (by rw [← hie, (gangOf_nodup cs).idxOf_getElem])
      rw [if_neg hidx] at hj'
      rw [← hj', ibsOf_append_ib hid, if_neg hentity, append_nil]
      exact ⟨halloc, hmax, hibs⟩
  · have hpost : c.isPost = false := by simp [Chunk.isPost, hid]
    rw [any_isPost_append hpost]
    exact h.post

/-! ## A chunk of pass 2 -/

def Accepted (cs : List Chunk) (c : Chunk) : Prop :=
  c.id = .ib → ibDw ≤ c.lengthDw ∧ c.entity ∈ gangOf cs

section
variable (h : Filled cs before s)
include h

theorem amdgpuCsP2SyncobjOut_spec (c : Chunk) :
    (amdgpuCsP2SyncobjOut c s.p).2 = postError before c semDw (syncobjOutError c) ∧
      SameJobs s.p (amdgpuCsP2SyncobjOut c s.p).1 ∧
      ReadsInside c s.p (amdgpuCsP2SyncobjOut c s.p).1 ∧
      (postError before c semDw (syncobjOutError c) = none →
        (amdgpuCsP2SyncobjOut c s.p).1.postDeps ≠ none) :=
  fillPostDeps_spec h.post syncobjOut_error fun _ hi _ hq => hq.syncobjOut hi

theorem amdgpuCsP2SyncobjTimelineSignal_spec (c : Chunk) :
    (amdgpuCsP2SyncobjTimelineSignal c s.p).2 =
        postError before c syncobjDw (syncobjSignalError c) ∧
      SameJobs s.p (amdgpuCsP2SyncobjTimelineSignal c s.p).1 ∧
      ReadsInside c s.p (amdgpuCsP2SyncobjTimelineSignal c s.p).1 ∧
      (postError before c syncobjDw (syncobjSignalError c) = none →
        (amdgpuCsP2SyncobjTimelineSignal c s.p).1.postDeps ≠ none) :=
  fillPostDeps_spec h.post syncobjTimelineSignal_error fun _ hi _ hq =>
    hq.syncobjTimelineSignal hi

theorem pass2Chunk_error (hc : Accepted cs c) :
    (pass2Chunk c s).2 = chunkError2 (cs.any (·.id = .fence)) (gangOf cs) before c := by
  unfold pass2Chunk chunkError2
  cases hid : c.id with
  | ib => exact amdgpuCsP2Ib_error h hid (hc hid).2
  | dependencies | scheduledDependencies =>
    obtain ⟨ds, -, heq⟩ := amdgpuCsP2Dependencies_spec c s.p
    simp only [Pass2.lift, heq]
  | syncobjIn =>
    obtain ⟨ds, -, heq⟩ := amdgpuCsP2SyncobjIn_spec c s.p
    simp only [Pass2.lift, heq]
  | syncobjTimelineWait =>
    obtain ⟨ds, -, heq⟩ := amdgpuCsP2SyncobjTimelineWait_spec c s.p
    simp only [Pass2.lift, heq]
  | syncobjOut => exact (amdgpuCsP2SyncobjOut_spec h c).1
  | syncobjTimelineSignal => exact (amdgpuCsP2SyncobjTimelineSignal_spec h c).1
  | cpGfxShadow =>
    dsimp only [Pass2.lift, amdgpuCsP2Shadow]
    split <;> rfl
  | _ => rfl

theorem Filled.chunk (hc : Accepted cs c)
    (hok : chunkError2 (cs.any (·.id = .fence)) (gangOf cs) before c = none) :
    Filled cs (before ++ [c]) (pass2Chunk c s).1 := by
  unfold chunkError2 at hok
  unfold pass2Chunk
  cases hid : c.id with
  | ib =>
    rw [hid] at hok
    exact h.ib hid (hc hid).2 hok
  | dependencies | scheduledDependencies =>
    obtain ⟨ds, -, heq⟩ := amdgpuCsP2Dependencies_spec c s.p
    simp only [Pass2.lift, heq]
    exact h.read (by simp [hid]) (by simp [Chunk.isPost, hid]) ds
  | syncobjIn =>
    obtain ⟨ds, -, heq⟩ := amdgpuCsP2SyncobjIn_spec c s.p
    simp only [Pass2.lift, heq]
    exact h.read (by simp [hid]) (by simp [Chunk.isPost, hid]) ds
  | syncobjTimelineWait =>
    obtain ⟨ds, -, heq⟩ := amdgpuCsP2SyncobjTimelineWait_spec c s.p
    simp only [Pass2.lift, heq]
    exact h.read (by simp [hid]) (by simp [Chunk.isPost, hid]) ds
  | syncobjOut =>
    rw [hid] at hok
    obtain ⟨-, hsame, -, hpost⟩ := amdgpuCsP2SyncobjOut_spec h c
    exact h.same (by simp [hid]) hsame
      (iff_of_false (hpost hok) (by simp [any_append, Chunk.isPost, hid]))
  | syncobjTimelineSignal =>
    rw [hid] at hok
    obtain ⟨-, hsame, -, hpost⟩ := amdgpuCsP2SyncobjTimelineSignal_spec h c
    exact h.same (by simp [hid]) hsame
      (iff_of_false (hpost hok) (by simp [any_append, Chunk.isPost, hid]))
  | cpGfxShadow =>
    rw [hid] at hok
    have hflags : ¬1 < c.qw 6 := fun hlt => by
      dsimp only at hok
      rw [if_pos hlt] at hok
      cases hok
    dsimp only [Pass2.lift, amdgpuCsP2Shadow]
    rw [if_neg hflags]
    refine h.other (by simp [hid]) rfl (by simp [Parser.read]) ?_ rfl rfl rfl ?_
    · intro i j' hj'
      dsimp only at hj'
      rw [getElem?_map] at hj'
      obtain ⟨j, hj, rfl⟩ := map_eq_some_iff.mp hj'
      exact ⟨j, hj, rfl, rfl⟩
    · rw [any_isPost_append (by simp [Chunk.isPost, hid])]
      exact h.post
  | _ =>
    exact h.same (by simp [hid]) rfl
      (by rw [any_isPost_append (by simp [Chunk.isPost, hid])]; exact h.post)

end

/-! ## The reads -/

def InBounds (p : Parser) : Prop := ∀ r ∈ p.reads, r.2 < r.1.lengthDw
  deriving Decidable

theorem ReadsInside.inBounds_iff {p q : Parser} (h : ReadsInside c p q) :
    InBounds q ↔ InBounds p := by
  obtain ⟨ds, hds, hlt⟩ := h
  unfold InBounds
  rw [hds]
  simp only [forall_mem_append, List.forall_mem_map]
  exact and_iff_left hlt

theorem pass2Chunk_reads (h : Filled cs before s) (hc : Accepted cs c) (hid : c.id ≠ .cpGfxShadow) :
    ReadsInside c s.p (pass2Chunk c s).1.p := by
  have hread : ∀ ds, (∀ d ∈ ds, d < c.lengthDw) → ReadsInside c s.p (s.p.read c ds) :=
    fun ds hds => ReadsInside.refl.read ds hds
  unfold pass2Chunk
  cases hid' : c.id with
  | ib => exact amdgpuCsP2Ib_reads h (hc hid').2 (hc hid').1
  | dependencies | scheduledDependencies =>
    obtain ⟨ds, hds, heq⟩ := amdgpuCsP2Dependencies_spec c s.p
    simp only [Pass2.lift, heq]
    exact hread ds hds
  | syncobjIn =>
    obtain ⟨ds, hds, heq⟩ := amdgpuCsP2SyncobjIn_spec c s.p
    simp only [Pass2.lift, heq]
    exact hread ds hds
  | syncobjTimelineWait =>
    obtain ⟨ds, hds, heq⟩ := amdgpuCsP2SyncobjTimelineWait_spec c s.p
    simp only [Pass2.lift, heq]
    exact hread ds hds
  | syncobjOut => exact (amdgpuCsP2SyncobjOut_spec h c).2.2.1
  | syncobjTimelineSignal => exact (amdgpuCsP2SyncobjTimelineSignal_spec h c).2.2.1
  | cpGfxShadow => exact absurd hid' hid
  | _ => exact .refl

theorem amdgpuCsP2Shadow_inBounds (c : Chunk) (p : Parser) :
    InBounds (amdgpuCsP2Shadow c p).1 ↔ InBounds p ∧ shadowDw ≤ c.lengthDw := by
  have hreads : ∃ ds : List Nat, (∀ d ∈ ds, d < shadowDw) ∧ 7 ∈ ds ∧
      (amdgpuCsP2Shadow c p).1.reads = p.reads ++ ds.map (fun d => (c, d)) := by
    unfold amdgpuCsP2Shadow
    dsimp only
    split
    · exact ⟨[6, 7], by decide, by decide, rfl⟩
    · exact ⟨[6, 7] ++ [0, 1, 2, 3, 4, 5, 6, 7], by decide, by decide, by
        rw [read_read]; rfl⟩
  obtain ⟨ds, hds, hmem, heq⟩ := hreads
  unfold InBounds
  rw [heq]
  simp only [forall_mem_append, List.forall_mem_map]
  refine and_congr_right fun _ => ⟨fun hall => hall 7 hmem, fun hle d hd => ?_⟩
  exact lt_of_lt_of_le (hds d hd) hle

def ReadsOk (before : List Chunk) (s : Pass2) : Prop :=
  InBounds s.p ↔ ∀ c ∈ before, c.id = .cpGfxShadow → shadowDw ≤ c.lengthDw

theorem ReadsOk.chunk (h : Filled cs before s) (hc : Accepted cs c) (hreads : ReadsOk before s) :
    ReadsOk (before ++ [c]) (pass2Chunk c s).1 := by
  unfold ReadsOk at hreads ⊢
  rw [forall_mem_append, forall_mem_singleton, ← hreads]
  by_cases hid : c.id = .cpGfxShadow
  · have hstep : (pass2Chunk c s).1.p = (amdgpuCsP2Shadow c s.p).1 := by
      unfold pass2Chunk
      rw [hid]
      rfl
    rw [hstep, amdgpuCsP2Shadow_inBounds]
    simp [hid]
  · rw [(pass2Chunk_reads h hc hid).inBounds_iff]
    simp [hid]

end

/-! ## Pass 2 after pass 1 -/

theorem Jobs.accepted {cs : List Chunk} {p : Parser} (h : Jobs cs p) : ∀ c ∈ cs, Accepted cs c :=
  fun c hc hid => ⟨h.sized c hc hid, mem_gangOf.mpr ⟨c, hc, hid, rfl⟩⟩

theorem pass2_spec {call : Call} {p : Parser} (h : Jobs call.chunks p) :
    (amdgpuCsPass2 call p).2 = pass2Error call ∧
      (pass2Error call = none → ∃ s, Filled call.chunks call.chunks s ∧
        (amdgpuCsPass2 call p).1 = s.p) ∧
      (InBounds (amdgpuCsPass2 call p).1 ↔
        ∀ c ∈ seen2 call, c.id = .cpGfxShadow → shadowDw ≤ c.lengthDw) := by
  have hstart := h.filled
  have hreads : ReadsOk [] { p } :=
    iff_of_true (fun r hr => by rw [h.rest.2.1] at hr; cases hr) (fun _ hc => nomatch hc)
  have herr : ∀ before c s, Accepted call.chunks c → Filled call.chunks before s →
      (pass2Chunk c s).2 =
        chunkError2 (call.chunks.any (·.id = .fence)) (gangOf call.chunks) before c :=
    fun _ _ _ hc hs => pass2Chunk_error hs hc
  have hstep : ∀ before c s, Accepted call.chunks c → Filled call.chunks before s →
      chunkError2 (call.chunks.any (·.id = .fence)) (gangOf call.chunks) before c = none →
      Filled call.chunks (before ++ [c]) (pass2Chunk c s).1 :=
    fun _ _ _ hc hs hok => hs.chunk hc hok
  obtain ⟨hres, hall⟩ := eachUntil_spec herr hstep h.accepted hstart
  refine ⟨hres, fun hok => ⟨_, hall hok, rfl⟩, ?_⟩
  exact eachUntil_seen herr hstep (fun _ _ _ hc hs hq => hq.chunk hs hc) h.accepted hstart hreads

/-- What pass 1 leaves in `p` fits what pass 2 makes of it. -/
structure PassesAgree (call : Call) (p : Parser) : Prop where
  gang : p.gang.length ≤ gangSize
  /-- The leader is the job of the last IB chunk. -/
  leader : ∃ c i j, (ibChunks call.chunks).getLast? = some c ∧ p.gangLeader = some i ∧
    p.gang[i]? = some c.entity ∧ p.jobs[i]? = some j
  /-- Pass 2 reads what was copied of the chunks. -/
  reads : InBounds (amdgpuCsPass2 call p).1
  /-- Each job ends up with the IBs of its entity, which fill what pass 1 allocated. -/
  jobs : (amdgpuCsPass2 call p).2 = none → ∀ (i : Nat) (e : Entity), p.gang[i]? = some e →
    ∃ j j', p.jobs[i]? = some j ∧ (amdgpuCsPass2 call p).1.jobs[i]? = some j' ∧
      j'.ibs = (ibsOf e call.chunks).map ibOf ∧ j'.ibs.length = j.alloc ∧
      j.alloc ≤ amdgpuRingMaxIbs e.1

/-- The passes agree on chunks that pass 1 accepts, exactly if no chunk for shadow buffers that
pass 2 comes to is shorter than its structure. -/
theorem passes_agree_iff (call : Call) (h : (amdgpuCsPass1 call .start).2 = none) :
    PassesAgree call (amdgpuCsPass1 call .start).1 ↔
      ∀ c ∈ seen2 call, c.id = .cpGfxShadow → shadowDw ≤ c.lengthDw := by
  obtain ⟨herr, hjobs⟩ := pass1_spec call (show Fresh .start from rfl)
  have hjobs := hjobs (herr.symm.trans h)
  obtain ⟨herr2, hfilled, hreads⟩ := pass2_spec hjobs
  refine ⟨fun hagree => hreads.mp hagree.reads, fun hall => ⟨hjobs.small, ?_, hreads.mpr hall, ?_⟩⟩
  · obtain ⟨c, i, hlast, hleader, hi⟩ := hjobs.leader
    have hlt : i < (amdgpuCsPass1 call .start).1.jobs.length := by
      rw [hjobs.length]
      exact (List.getElem?_eq_some_iff.mp hi).1
    exact ⟨c, i, _, hlast, hleader, hi, getElem?_eq_getElem hlt⟩
  · intro hok i e he
    obtain ⟨s, hs, hp⟩ := hfilled (herr2.symm.trans hok)
    have hi := (List.getElem?_eq_some_iff.mp he).1
    have hlt : i < (amdgpuCsPass1 call .start).1.jobs.length := by rwa [hjobs.length]
    have hlt' : i < s.p.jobs.length := by rwa [hs.length, hs.gang, ← hjobs.gang]
    obtain ⟨halloc, hmax, -⟩ := hjobs.alloc i _ e (getElem?_eq_getElem hlt) he
    obtain ⟨-, -, hibs⟩ := hs.jobs i _ e (getElem?_eq_getElem hlt')
      (by rw [hs.gang, ← hjobs.gang]; exact he)
    refine ⟨_, _, getElem?_eq_getElem hlt, ?_, hibs, ?_, hmax⟩
    · rw [hp]
      exact getElem?_eq_getElem hlt'
    · rw [hibs, length_map, halloc]

def exIb : Chunk := { id := .ib, lengthDw := 8 }

/-- With shadow buffers in a chunk of full length. -/
theorem passes_agree_shadow :
    (amdgpuCsPass1 { chunks := [exIb, { id := .cpGfxShadow, lengthDw := 8 }] } .start).2 = none ∧
      (PassesAgree { chunks := [exIb, { id := .cpGfxShadow, lengthDw := 8 }] }
        (amdgpuCsPass1 { chunks := [exIb, { id := .cpGfxShadow, lengthDw := 8 }] } .start).1 ↔
        ∀ c ∈ seen2 { chunks := [exIb, { id := .cpGfxShadow, lengthDw := 8 }] },
          c.id = .cpGfxShadow → shadowDw ≤ c.lengthDw) :=
  ⟨by decide, passes_agree_iff _ (by decide)⟩

/-- A chunk for shadow buffers without any dword passes pass 1, and pass 2 reads its flags. -/
theorem passes_agree_broken :
    ¬∀ call : Call, (amdgpuCsPass1 call .start).2 = none →
      PassesAgree call (amdgpuCsPass1 call .start).1 := by
  intro hall
  have hreads := (hall { chunks := [exIb, { id := .cpGfxShadow, lengthDw := 0 }] }
    (by decide)).reads
  exact absurd hreads (by decide)

end Amdkfd.Cs
