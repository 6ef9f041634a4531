import Mathlib.Tactic.Abel
import Amdkfd.Cs.PassesAgree
import Amdkfd.Cs.Submit

/-!
# What the passes of a command submission hold

`Owns` says that the ledger holds what the parser has on record, the buffers that were taken for
user fences, and a rest. A second user fence takes the place of the first in `uf_bo`.
-/

namespace Amdkfd.Cs

open Lib List Option

/-! ## What is on record -/

/-- What `amdgpu_cs_parser_fini` gives back, but for the user fence. -/
def Parser.owned (p : Parser) : Multiset Res :=
  {.ctx} + ↑((p.boList.map BoList.res).getD []) + ↑((p.postDeps.getD []).flatMap PostDep.res) +
    ↑((range p.jobs.length).map Res.job)

def boRefs (bos : List Bo) : Multiset Res := ↑(bos.map fun bo => Res.bo bo.id)

/-- The ledger holds what is on record, the buffers taken for user fences, and `m`. The last of the
buffers is the one in `uf_bo`. -/
structure Owns (fences : List Bo) (m : Multiset Res) (p : Parser) : Prop where
  ledger : p.ledger.Holds (p.owned + boRefs fences + m)
  ufBo : p.ufBo = fences.getLast?
  chunks : p.chunksNull = false
  fault : p.fault = false

section
variable {fences : List Bo} {m : Multiset Res} {p q : Parser}

theorem Owns.start : Owns [] 0 .start := ⟨⟨rfl, rfl⟩, rfl, rfl, rfl⟩

theorem Owns.congr (h : Owns fences m p) (hledger : q.ledger = p.ledger) (huf : q.ufBo = p.ufBo)
    (hlist : q.boList = p.boList) (hdeps : q.postDeps = p.postDeps)
    (hjobs : q.jobs.length = p.jobs.length) (hchunks : q.chunksNull = p.chunksNull)
    (hfault : q.fault = p.fault) : Owns fences m q where
  ledger := by
    have howned : q.owned = p.owned := by rw [Parser.owned, hlist, hdeps, hjobs]; rfl
    rw [hledger, howned]
    exact h.ledger
  ufBo := huf.trans h.ufBo
  chunks := hchunks.trans h.chunks
  fault := hfault.trans h.fault

theorem Owns.of_eq {m' : Multiset Res} (h : Owns fences m p) (heq : m = m') : Owns fences m' p :=
  heq ▸ h

theorem Owns.take (h : Owns fences m p) (r : Res) : Owns fences ({r} + m) (p.take r) where
  ledger := h.ledger.take.congr (by simp only [Parser.owned, Parser.take]; abel)
  ufBo := h.ufBo
  chunks := h.chunks
  fault := h.fault

theorem Owns.give {r : Res} (h : Owns fences ({r} + m) p) : Owns fences m (p.give r) where
  ledger := (h.ledger.congr (by abel : _ = {r} + (p.owned + boRefs fences + m))).give
  ufBo := h.ufBo
  chunks := h.chunks
  fault := h.fault

/-! ## `amdgpu_bo_list_create` -/

def ListLoop.refs (s : ListLoop) : Multiset Res :=
  ↑(s.front.map Res.bo) + ↑(s.back.map fun b => Res.bo b.1)

theorem addEntry_holds {entry : Nat → Option Bo} {i : Nat} {s : ListLoop}
    (h : s.p.ledger.Holds (s.refs + m)) :
    (addEntry entry i s).1.p.ledger.Holds ((addEntry entry i s).1.refs + m) := by
  unfold addEntry
  cases entry i with
  | none => exact h
  | some bo =>
    dsimp only
    have htake := h.take (r := Res.bo bo.id)
    cases bo.userptr with
    | none =>
      refine htake.congr ?_
      simp only [ListLoop.refs, map_append, map_singleton, ← Multiset.coe_add,
        Multiset.coe_singleton]
      abel
    | some u =>
      dsimp only
      split
      · refine htake.congr ?_
        simp only [ListLoop.refs, map_cons, ← Multiset.cons_coe, ← Multiset.singleton_add]
        abel
      · exact htake.give

theorem amdgpuBoListCreate_holds (alloc : Bool) (entry : Nat → Option Bo) (n : Nat)
    (h : p.ledger.Holds m) :
    ((amdgpuBoListCreate alloc entry n p).2 = none →
        (amdgpuBoListCreate alloc entry n p).1.ledger.Holds
          (↑(((amdgpuBoListCreate alloc entry n p).1.boList.map BoList.res).getD []) + m)) ∧
      ((amdgpuBoListCreate alloc entry n p).2 ≠ none →
        (amdgpuBoListCreate alloc entry n p).1.ledger.Holds m ∧
          (amdgpuBoListCreate alloc entry n p).1.boList = p.boList) := by
  unfold amdgpuBoListCreate
  split
  · exact ⟨nofun, fun _ => ⟨h, rfl⟩⟩
  have hinv : (eachUntil (addEntry entry) (range n) { p := p.take .list }).1.p.ledger.Holds
        ((eachUntil (addEntry entry) (range n) { p := p.take .list }).1.refs +
          ({Res.list} + m)) ∧
      OnlyLedger p (eachUntil (addEntry entry) (range n) { p := p.take .list }).1.p := by
    refine eachUntil_inv (I := fun s : ListLoop =>
      s.p.ledger.Holds (s.refs + ({Res.list} + m)) ∧ OnlyLedger p s.p) ?_ ?_
    · exact fun _ _ _ hs => ⟨addEntry_holds hs.1, addEntry_onlyLedger hs.2⟩
    · exact ⟨h.take.congr (by simp [ListLoop.refs]), rfl⟩
  generalize eachUntil (addEntry entry) (range n) { p := p.take .list } = x at hinv ⊢
  obtain ⟨s, e⟩ := x
  obtain ⟨hledger, honly⟩ := hinv
  cases e with
  | none =>
    refine ⟨fun _ => hledger.congr ?_, fun h => absurd rfl h⟩
    simp only [ListLoop.refs, map_some, getD_some, BoList.res, map_append,
      List.map_map, ← Multiset.cons_coe, ← Multiset.singleton_add, ← Multiset.coe_add]
    have hmap : (Res.bo ∘ fun x : Nat × Userptr => x.1) = fun b => Res.bo b.1 := rfl
    rw [hmap]
    abel
  | some e =>
    refine ⟨nofun, fun _ => ⟨?_, ?_⟩⟩
    · have hfront : s.p.ledger.Holds (↑(s.front.map Res.bo) +
          (↑(s.back.map fun b => Res.bo b.1) + ({Res.list} + m))) :=
        hledger.congr (by rw [ListLoop.refs]; abel)
      exact hfront.giveAll.giveAll.give
    · have hlist : s.p.boList = p.boList := by
        dsimp only [OnlyLedger] at honly
        rw [honly]
      exact hlist

/-! ## Pass 1 -/

theorem boRefs_concat (bos : List Bo) (bo : Bo) :
    boRefs (bos ++ [bo]) = boRefs bos + {.bo bo.id} := by
  rw [boRefs, map_append, ← Multiset.coe_add]
  rfl

def fenceBos (cs : List Chunk) : List Bo := cs.filterMap Chunk.fenceBo

variable {before : List Chunk} {c : Chunk}

theorem fenceBos_of_none (h : c.fenceBo = none) :
    fenceBos (before ++ [c]) = fenceBos before := filterMap_fenceBo_append h

theorem fenceBos_of_some {bo : Bo} (h : c.fenceBo = some bo) :
    fenceBos (before ++ [c]) = fenceBos before ++ [bo] := by
  rw [fenceBos, filterMap_append, filterMap_cons_some h]
  rfl

theorem Owns.boListCreate (h : Owns fences m p) (hlist : p.boList = none) (alloc : Bool)
    (entry : Nat → Option Bo) (n : Nat) :
    Owns fences m (amdgpuBoListCreate alloc entry n p).1 := by
  obtain ⟨hframe, -⟩ := amdgpuBoListCreate_frame alloc entry n p
  obtain ⟨hok, herr⟩ := amdgpuBoListCreate_holds alloc entry n h.ledger
  cases hr : (amdgpuBoListCreate alloc entry n p).2 with
  | none =>
    refine ⟨(hok hr).congr ?_, by rw [hframe]; exact h.ufBo, by rw [hframe]; exact h.chunks,
      by rw [hframe]; exact h.fault⟩
    have howned : (amdgpuBoListCreate alloc entry n p).1.owned =
        {Res.ctx} +
          ↑(((amdgpuBoListCreate alloc entry n p).1.boList.map BoList.res).getD []) +
          ↑((p.postDeps.getD []).flatMap PostDep.res) +
          ↑((range p.jobs.length).map Res.job) := by
      rw [Parser.owned]
      congr 3
      · rw [hframe]
      · rw [hframe]
    rw [howned, Parser.owned, hlist]
    simp only [map_none, getD_none, Multiset.coe_nil]
    abel
  | some e =>
    obtain ⟨hledger, hsame⟩ := herr (by rw [hr]; nofun)
    refine ⟨hledger.congr ?_, by rw [hframe]; exact h.ufBo, by rw [hframe]; exact h.chunks,
      by rw [hframe]; exact h.fault⟩
    rw [Parser.owned, Parser.owned, hsame]
    congr 3
    · rw [hframe]
    · rw [hframe]

theorem Owns.pass1_chunk {s : Pass1} (h : Owns (fenceBos before) m s.p) :
    Owns (fenceBos (before ++ [c])) m (pass1Chunk c s).1.p := by
  by_cases hcopied : c.Copied
  · obtain ⟨h1, h2, h3⟩ := hcopied
    unfold pass1Chunk
    rw [if_neg (by simp [h1]), if_neg (by simp [h2]), if_neg (by simp [h3])]
    cases hid : c.id with
    | ib =>
      have hno : c.fenceBo = none := fenceBo_of_ne (by simp [hid])
      rw [fenceBos_of_none hno]
      dsimp only
      split
      · exact h
      · unfold amdgpuCsP1Ib
        rw [amdgpuCsJobIdx_spec]
        cases jobIdxError c.lookup1 s.p.gang c with
        | some e => exact h
        | none =>
          dsimp only
          split <;> exact h.congr rfl rfl rfl rfl rfl rfl rfl
    | fence =>
      dsimp only
      by_cases hlen : c.lengthDw < fenceDw
      · rw [if_pos hlen, fenceBos_of_none (by simp [Chunk.fenceBo, hlen])]
        exact h
      rw [if_neg hlen]
      have hbo : c.fenceBo = c.bo := by
        rw [Chunk.fenceBo, if_pos ⟨⟨h1, h2, h3⟩, hid, Nat.le_of_not_lt hlen⟩]
      unfold amdgpuCsP1UserFence
      cases hc : c.bo with
      | none =>
        rw [fenceBos_of_none (hbo.trans hc)]
        exact h
      | some bo =>
        have htake : Owns (fenceBos before ++ [bo]) m
            { s.p.take (.bo bo.id) with ufBo := some bo } := by
          refine ⟨h.ledger.take.congr ?_, getLast?_concat.symm, h.chunks, h.fault⟩
          rw [boRefs_concat]
          simp only [Parser.owned, Parser.take]
          abel
        rw [fenceBos_of_some (hbo.trans hc)]
        dsimp only
        split
        · exact htake
        · split <;> exact htake.congr rfl rfl rfl rfl rfl rfl rfl
    | boHandles =>
      have hno : c.fenceBo = none := fenceBo_of_ne (by simp [hid])
      rw [fenceBos_of_none hno]
      dsimp only
      split
      · exact h
      split
      · exact h
      rename_i hlist
      unfold amdgpuCsP1BoHandles
      split
      · exact h
      · exact h.boListCreate (not_not.mp hlist) _ _ _
    | _ =>
      rw [fenceBos_of_none (fenceBo_of_ne (by simp [hid]))]
      exact h
  · have hno : c.fenceBo = none := by simp [Chunk.fenceBo, hcopied]
    have hsame : (pass1Chunk c s).1 = s := by
      unfold pass1Chunk
      split
      · rfl
      split
      · rfl
      split
      · rfl
      · rename_i h1 h2 h3
        exact absurd ⟨by simpa using h1, by simpa using h2, by simpa using h3⟩ hcopied
    rw [hsame, fenceBos_of_none hno]
    exact h

theorem Owns.jobAlloc (h : Owns fences m p) (call : Call) (numIbs : Nat → Nat) (i : Nat) :
    Owns fences m (amdgpuJobAlloc call numIbs i p).1 := by
  unfold amdgpuJobAlloc
  split
  · exact h
  split
  · exact h
  · refine ⟨h.ledger.take.congr ?_, h.ufBo, h.chunks, h.fault⟩
    simp only [Parser.owned, Parser.take, length_append, length_singleton,
      range_succ, map_append, map_singleton, ← Multiset.coe_add,
      Multiset.coe_singleton]
    abel

theorem Owns.pass1_jobs {call : Call} {s : Pass1} (h : Owns fences m s.p) :
    Owns fences m (pass1Jobs call s).1 := by
  unfold pass1Jobs
  split
  · exact h
  refine andThen_inv (I := Owns fences m)
    (eachUntil_inv (fun i _ q hq => hq.jobAlloc call s.numIbs i) h) fun _ => ?_
  have hloop : Owns fences m
      (eachUntil (amdgpuJobAlloc call s.numIbs) (range s.p.gang.length) s.p).1 :=
    eachUntil_inv (fun i _ q hq => hq.jobAlloc call s.numIbs i) h
  dsimp only
  split
  · exact hloop.congr rfl rfl rfl rfl rfl rfl rfl
  split
  · exact hloop.congr rfl rfl rfl rfl (by simp) rfl rfl
  · exact hloop.congr rfl rfl rfl rfl rfl rfl rfl

def seen1 (call : Call) : List Chunk := seen chunkError1 [] call.chunks

theorem Owns.pass1 (call : Call) (hp : Fresh p) (h : Owns [] m p) (h1 : call.chunkArray)
    (h2 : call.chunkCopy) (h3 : call.chunkMem) :
    Owns (fenceBos (seen1 call)) m (amdgpuCsPass1 call p).1 := by
  have hstart : Owns (fenceBos []) m ({ p } : Pass1).p := h
  have hloop : Owns (fenceBos ([] ++ seen1 call)) m
      (eachUntil pass1Chunk call.chunks { p }).1.p := by
    refine eachUntil_seen (P := fun _ => True) (R := Parsed)
      (Q := fun before s => Owns (fenceBos before) m s.p) ?_ ?_ ?_ (fun _ _ => trivial) hp.parsed
      hstart
    · exact fun _ _ _ _ hs => pass1Chunk_error hs
    · exact fun _ _ _ _ hs hok => hs.chunk hok
    · exact fun _ _ _ _ hs hq => hq.pass1_chunk
  unfold amdgpuCsPass1
  rw [if_neg (by simp [h1]), if_neg (by simp [h2]), if_neg (by simp [h3])]
  dsimp only
  split
  · exact hloop
  · exact hloop.pass1_jobs

/-! ## Pass 2 -/

theorem Owns.read (h : Owns fences m p) (c : Chunk) (ds : List Nat) : Owns fences m (p.read c ds) :=
  h.congr rfl rfl rfl rfl rfl rfl rfl

theorem Owns.setJob (h : Owns fences m p) (i : Nat) (f : Job → Job) :
    Owns fences m (p.setJob i f) :=
  h.congr rfl rfl rfl rfl (length_modify ..) rfl rfl

structure OwnsPost (fences : List Bo) (m : Multiset Res) (p : Parser) : Prop where
  owns : Owns fences m p
  post : ∃ ds, p.postDeps = some ds

theorem OwnsPost.read (h : OwnsPost fences m p) (c : Chunk) (ds : List Nat) :
    OwnsPost fences m (p.read c ds) := ⟨h.owns.read c ds, h.post⟩

theorem OwnsPost.addPostDep {m' : Multiset Res} {d : PostDep} (h : OwnsPost fences m' p)
    (heq : m' = m + ↑(d.chain.map Res.chain).toList) : OwnsPost fences m (p.addPostDep d) := by
  obtain ⟨h, ds, hds⟩ := h
  refine ⟨⟨h.ledger.take.congr ?_, h.ufBo, h.chunks, h.fault⟩, ds ++ [d], ?_⟩
  · rw [heq]
    simp only [Parser.owned, Parser.addPostDep, Parser.take, hds, map_some,
      getD_some, flatMap_append, flatMap_singleton, PostDep.res,
      ← Multiset.coe_add, ← Multiset.cons_coe, ← Multiset.singleton_add]
    abel
  · simp only [Parser.addPostDep, hds, map_some]

theorem OwnsPost.syncobjOut (h : OwnsPost fences m p) (c : Chunk) (i : Nat) :
    OwnsPost fences m (syncobjOut c i p).1 := by
  unfold Cs.syncobjOut
  cases (c.item i).syncobj with
  | none => exact h.read c _
  | some s => exact (h.read c _).addPostDep (by simp)

theorem OwnsPost.syncobjTimelineSignal (h : OwnsPost fences m p) (c : Chunk) (i : Nat) :
    OwnsPost fences m (syncobjTimelineSignal c i p).1 := by
  unfold Cs.syncobjTimelineSignal
  dsimp only
  split
  · exact h.read c _
  generalize (if c.qw (syncobjDw * i + 2) ≠ 0 then some i else none) = chain
  have hread := (h.read c [syncobjDw * i + 2, syncobjDw * i + 3]).read c [syncobjDw * i]
  have htake : ∀ k : Nat, OwnsPost fences ({Res.chain k} + m)
      (((p.read c [syncobjDw * i + 2, syncobjDw * i + 3]).read c [syncobjDw * i]).take
        (.chain k)) :=
    fun k => ⟨hread.owns.take _, hread.post⟩
  cases (c.item i).syncobj with
  | none =>
    cases chain with
    | none => exact hread
    | some k => exact ⟨(htake k).owns.give, hread.post⟩
  | some s =>
    cases chain with
    | none => exact (hread.read c _).addPostDep (by simp)
    | some k => exact ((htake k).read c _).addPostDep (by simp [add_comm])

theorem Owns.fillPostDeps (h : Owns fences m p) (c : Chunk) (size : Nat)
    {body : Nat → Parser → Parser × Option Errno}
    (hbody : ∀ i q, OwnsPost fences m q → OwnsPost fences m (body i q).1) :
    Owns fences m (fillPostDeps c size body p).1 := by
  unfold Cs.fillPostDeps
  split
  · exact h
  split
  · exact h
  · rename_i hnone _
    have hstart : OwnsPost fences m { p with postDeps := some [] } := by
      refine ⟨⟨h.ledger.congr ?_, h.ufBo, h.chunks, h.fault⟩, [], rfl⟩
      simp [Parser.owned, not_not.mp hnone]
    exact (eachUntil_inv (fun i _ q hq => hbody i q hq) hstart).owns

theorem Owns.fillIb {s : Pass2} (h : Owns fences m s.p) (c : Chunk) (r : Nat) :
    Owns fences m (fillIb c r s).1.p := by
  have hread := (h.read c [5, 1]).read c (if c.parseCs then [1, 4] else [1])
  unfold Cs.fillIb
  split
  · exact h
  dsimp only
  rw [countPreempt_p]
  split
  · rw [countPreempt_p]; exact h.read c _
  · have hpre : Owns fences m (if c.isPreamble then
        ((s.p.read c [5, 1]).read c (if c.parseCs then [1, 4] else [1])).setJob r
          fun j => { j with preamble := true }
        else (s.p.read c [5, 1]).read c (if c.parseCs then [1, 4] else [1])) := by
      split
      · exact hread.setJob _ _
      · exact hread
    split
    · exact hpre
    · exact (hpre.read c _).setJob _ _

theorem Owns.pass2_chunk {s : Pass2} (h : Owns fences m s.p) (c : Chunk) :
    Owns fences m (pass2Chunk c s).1.p := by
  unfold pass2Chunk
  cases c.id with
  | ib =>
    dsimp only
    unfold amdgpuCsP2Ib
    rw [amdgpuCsJobIdx_spec]
    cases jobIdxError c.lookup2 (s.p.read c [5, 6, 7]).gang c with
    | some e => exact h.read c _
    | none =>
      have hread : Owns fences m { s.p.read c [5, 6, 7] with
          gang := if c.entity ∈ s.p.gang then s.p.gang else s.p.gang ++ [c.entity] } :=
        (h.read c [5, 6, 7]).congr rfl rfl rfl rfl rfl rfl rfl
      exact Owns.fillIb (hread.setJob _ _) c _
  | dependencies | scheduledDependencies =>
    obtain ⟨ds, -, heq⟩ := amdgpuCsP2Dependencies_spec c s.p
    simp only [Pass2.lift, heq]
    exact h.read c ds
  | syncobjIn =>
    obtain ⟨ds, -, heq⟩ := amdgpuCsP2SyncobjIn_spec c s.p
    simp only [Pass2.lift, heq]
    exact h.read c ds
  | syncobjTimelineWait =>
    obtain ⟨ds, -, heq⟩ := amdgpuCsP2SyncobjTimelineWait_spec c s.p
    simp only [Pass2.lift, heq]
    exact h.read c ds
  | syncobjOut => exact h.fillPostDeps c _ fun i q hq => hq.syncobjOut c i
  | syncobjTimelineSignal => exact h.fillPostDeps c _ fun i q hq => hq.syncobjTimelineSignal c i
  | cpGfxShadow =>
    dsimp only [Pass2.lift, amdgpuCsP2Shadow]
    split
    · exact h.read c _
    · exact ((h.read c [6, 7]).read c [0, 1, 2, 3, 4, 5, 6, 7]).congr rfl rfl rfl rfl
        (length_map ..) rfl rfl
  | _ => exact h

theorem Owns.pass2 (h : Owns fences m p) (call : Call) : Owns fences m (amdgpuCsPass2 call p).1 :=
  eachUntil_inv (I := fun s : Pass2 => Owns fences m s.p) (fun c _ _ hs => hs.pass2_chunk c) h

/-! ## `amdgpu_cs_parser_fini` -/

theorem boRefs_getLast? (bos : List Bo) :
    boRefs bos =
      boRefs bos.dropLast + (match bos.getLast? with | none => 0 | some bo => {.bo bo.id}) := by
  cases bos using reverseRecOn with
  | nil => rfl
  | append_singleton bos bo => rw [dropLast_concat, getLast?_concat, boRefs_concat]

theorem amdgpuCsParserFini_holds (h : Owns fences m p) :
    (amdgpuCsParserFini p).ledger.Holds (boRefs fences.dropLast + m) ∧
      (amdgpuCsParserFini p).fault = false := by
  have huf := boRefs_getLast? fences
  rw [← h.ufBo] at huf
  have hledger := h.ledger
  rw [huf] at hledger
  have hdeps := Ledger.Holds.giveAll (hledger.congr (by rw [Parser.owned]; abel :
    _ = ↑((p.postDeps.getD []).flatMap PostDep.res) + ({Res.ctx} +
      (↑((p.boList.map BoList.res).getD []) + (↑((range p.jobs.length).map Res.job) +
        ((match p.ufBo with | none => 0 | some bo => {.bo bo.id}) +
          (boRefs fences.dropLast + m)))))))
  have hjobs := hdeps.give.giveAll.giveAll
  unfold amdgpuCsParserFini
  have hchunks : p.chunksNull = false := h.chunks
  simp only [Parser.giveAll, Parser.give, hchunks, Bool.false_eq_true, if_false]
  cases hbo : p.ufBo with
  | none =>
    rw [hbo, zero_add] at hjobs
    exact ⟨hjobs, h.fault⟩
  | some bo =>
    rw [hbo] at hjobs
    exact ⟨hjobs.give, h.fault⟩

end

end Amdkfd.Cs
