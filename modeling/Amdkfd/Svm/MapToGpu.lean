import Amdkfd.Svm.Split

/-!
# Mapping a range to a GPU

`svm_range_map_to_gpu` and `svm_range_get_pte_flags` of `kfd_svm.c`. The lowest bit of a DMA
address tells whether the page is in VRAM. The loop takes the bit off as it goes, collects the
pages up to the next change of it, updates the page table with one call for these pages, and
puts the bits back.
-/

namespace Amdkfd.Svm

open List Option

/-! ## Flags of page-table entries -/

def flagGpuRo : BitVec 32 := 8

def flagGpuExec : BitVec 32 := 0x10

def flagExtCoherent : BitVec 32 := 0x80

def vmPageReadable : BitVec 32 := 1 <<< 1

def vmPageWriteable : BitVec 32 := 1 <<< 2

def vmPageExecutable : BitVec 32 := 1 <<< 3

def vmPagePrt : BitVec 32 := 1 <<< 4

def vmPageNoalloc : BitVec 32 := 1 <<< 9

def vmMtypeMask : BitVec 32 := 0xf <<< 5

def vmMtypeNc : BitVec 32 := 1 <<< 5

def vmMtypeCc : BitVec 32 := 3 <<< 5

def vmMtypeUc : BitVec 32 := 4 <<< 5

def vmMtypeRw : BitVec 32 := 5 <<< 5

def pteValid : UInt64 := (1 : UInt64) <<< 0

def pteSystem : UInt64 := (1 : UInt64) <<< 1

def pteSnooped : UInt64 := (1 : UInt64) <<< 2

def pteExecutable : UInt64 := (1 : UInt64) <<< 4

def pteReadable : UInt64 := (1 : UInt64) <<< 5

def pteWriteable : UInt64 := (1 : UInt64) <<< 6

def ptePrt : UInt64 := (1 : UInt64) <<< 51

def pteNoalloc : UInt64 := (1 : UInt64) <<< 58

/-- The versions of the graphics core that `svm_range_get_pte_flags` tells apart. -/
inductive GcVersion
  | gc941
  | gc942
  | gc943
  | other
  deriving DecidableEq, Repr

/-- What `svm_range_get_pte_flags` reads of the GPU, of the module's parameters and of the
system. `mapMtype` is the function of the memory controller, if it has one. -/
structure PteNode where
  gc : GcVersion
  connectedToCpu : Bool
  revId : Nat
  isApu : Bool
  mtypeLocal : Int
  numPossibleNodes : Nat
  mapMtype : Option (BitVec 32 → UInt64)

/-- The node of the VRAM BO, as the GPU sees it: `sameMem` is about the memory partitions. -/
structure BoNode where
  sameNode : Bool
  sameAdev : Bool
  sameHive : Bool
  sameMem : Bool

def amdgpuGemVaMapFlags (n : PteNode) (flags : BitVec 32) : UInt64 :=
  (if flags &&& vmPageExecutable ≠ 0 then pteExecutable else 0) |||
    (if flags &&& vmPageReadable ≠ 0 then pteReadable else 0) |||
    (if flags &&& vmPageWriteable ≠ 0 then pteWriteable else 0) |||
    (if flags &&& vmPagePrt ≠ 0 then ptePrt else 0) |||
    (if flags &&& vmPageNoalloc ≠ 0 then pteNoalloc else 0) |||
    (match n.mapMtype with
      | some f => f (flags &&& vmMtypeMask)
      | none => 0)

/-- The `switch` of `svm_range_get_pte_flags`: the memory type, and whether the CPU caches are
snooped. -/
def pteMtype (n : PteNode) (bo : BoNode) (coherent extCoherent vram : Bool) : BitVec 32 × Bool :=
  let remote := if coherent then vmMtypeUc else vmMtypeNc
  let own := if coherent then vmMtypeCc else vmMtypeRw
  match n.gc with
  | .gc941 =>
    if vram then if bo.sameNode then (own, false) else (remote, bo.sameHive) else (remote, true)
  | .gc942 =>
    if vram then
      if bo.sameNode then (own, n.connectedToCpu) else (remote, bo.sameHive)
    else (remote, true)
  | .gc943 =>
    let mtypeLocal :=
      if extCoherent then if n.revId ≠ 0 then vmMtypeCc else vmMtypeUc
      else if n.mtypeLocal = 1 then vmMtypeNc
      else if n.mtypeLocal = 2 then vmMtypeCc
      else vmMtypeRw
    if vram then
      if bo.sameAdev ∧ bo.sameMem then (mtypeLocal, true)
      else if bo.sameHive ∧ ¬extCoherent then (vmMtypeNc, true)
      else (vmMtypeUc, true)
    else if n.isApu then
      if n.numPossibleNodes ≤ 1 then (mtypeLocal, true)
      else (if extCoherent then vmMtypeUc else vmMtypeNc, true)
    else (vmMtypeUc, true)
  | .other => (remote, !vram)

def svmRangeGetPteFlags (n : PteNode) (bo : BoNode) (flags : BitVec 32) (vram : Bool) : UInt64 :=
  let coherent := flags &&& (flagCoherent ||| flagExtCoherent) ≠ 0
  let extCoherent := flags &&& flagExtCoherent ≠ 0
  let mtype := pteMtype n bo coherent extCoherent vram
  let mappingFlags := mtype.1 ||| (vmPageReadable ||| vmPageWriteable)
  let mappingFlags :=
    if flags &&& flagGpuRo ≠ 0 then mappingFlags &&& ~~~vmPageWriteable else mappingFlags
  let mappingFlags :=
    if flags &&& flagGpuExec ≠ 0 then mappingFlags ||| vmPageExecutable else mappingFlags
  pteValid ||| (if vram then 0 else pteSystem) ||| (if mtype.2 then pteSnooped else 0) |||
    amdgpuGemVaMapFlags n mappingFlags

/-! ## The loop -/

def svmRangeVramDomain : UInt64 := 1

def stripDomain (addr : UInt64) : UInt64 :=
  addr &&& ~~~svmRangeVramDomain

/-- The bit for VRAM of the `i`-th address. -/
def domainAt (dma : List UInt64) (i : Nat) : UInt64 :=
  (dma[i]?.getD 0) &&& svmRangeVramDomain

/-- A call of `amdgpu_vm_update_range`, with the addresses as they are then. The offset is in
bytes. -/
structure PteUpdate where
  start : Nat
  last : Nat
  pteFlags : UInt64
  offset : Nat
  vramBase : UInt64
  flushTlb : Bool
  pagesAddr : List UInt64
  deriving DecidableEq

def PteUpdate.pages (u : PteUpdate) : List Nat :=
  range' u.start (u.last + 1 - u.start)

/-- The GPU, the node of the BO, and the base of its VRAM; and the outcome of the `n`-th update
and of that of the directories. -/
structure MapEnv where
  node : PteNode
  bo : BoNode
  vramBase : UInt64
  flushTlb : Bool
  update : Nat → Option Errno
  pdes : Option Errno

def MapEnv.pteFlags (env : MapEnv) (r : Range) (readonly : Bool) (domain : UInt64) : UInt64 :=
  let flags := svmRangeGetPteFlags env.node env.bo r.attrs.flags (domain = svmRangeVramDomain)
  if readonly then flags &&& ~~~pteWriteable else flags

/-- The addresses from `lo` to `hi` with the bit put back. -/
def restoreDomain (dma : List UInt64) (lo hi : Nat) (domain : UInt64) : List UInt64 :=
  dma.mapIdx fun j addr => if lo ≤ j ∧ j ≤ hi then addr ||| domain else addr

/-- The array, the calls, and the error. -/
structure MapResult where
  dma : List UInt64
  updates : List PteUpdate
  err : Option Errno
  deriving DecidableEq

/-- The loop of `svm_range_map_to_gpu` with its number of rounds, from index `i` on. -/
def mapLoop (env : MapEnv) (r : Range) (readonly : Bool) :
    Nat → Nat → Nat → List UInt64 → List PteUpdate → MapResult
  | 0, _, _, dma, updates => { dma := dma, updates := updates, err := none }
  | rounds + 1, i, lastStart, dma, updates =>
    let lastDomain := domainAt dma i
    let dma := dma.modify i stripDomain
    if rounds ≠ 0 ∧ lastDomain = domainAt dma (i + 1) then
      mapLoop env r readonly rounds (i + 1) lastStart dma updates
    else
      let u : PteUpdate :=
        { start := lastStart
          last := r.start + i
          pteFlags := env.pteFlags r readonly lastDomain
          offset := (lastStart - r.start) * 4096
          vramBase := env.vramBase
          flushTlb := env.flushTlb
          pagesAddr := dma }
      let dma := restoreDomain dma (lastStart - r.start) i lastDomain
      match env.update updates.length with
      | some e => { dma := dma, updates := updates ++ [u], err := some e }
      | none => mapLoop env r readonly rounds (i + 1) (r.start + i + 1) dma (updates ++ [u])

def svmRangeMapToGpu (env : MapEnv) (r : Range) (offset npages : Nat) (readonly : Bool)
    (dma : List UInt64) : MapResult :=
  let m := mapLoop env r readonly npages offset (r.start + offset) dma []
  match m.err with
  | some e => { m with err := some e }
  | none => { m with err := env.pdes }

/-! ## What the loop does -/

/-- The addresses from `lo` on and below `i` without the bit. -/
def stripWindow (dma : List UInt64) (lo i : Nat) : List UInt64 :=
  dma.mapIdx fun j addr => if lo ≤ j ∧ j < i then stripDomain addr else addr

def pteBit (flags : UInt64) (k : Nat) : Bool := flags.toBitVec.getLsbD k

/-- A call for pages of one domain of the array `dma`, with the flags of the domain and the
addresses without the bit. The entries are valid, and those of system memory are marked as such
where `map_mtype` keeps to the bits of the memory type. -/
structure UpdateRight (env : MapEnv) (r : Range) (readonly : Bool) (dma : List UInt64)
    (u : PteUpdate) : Prop where
  start_le : r.start ≤ u.start
  le : u.start ≤ u.last
  domain : ∃ domain, (∀ page ∈ u.pages, domainAt dma (page - r.start) = domain) ∧
    u.pteFlags = env.pteFlags r readonly domain
  valid : pteBit u.pteFlags 0 = true
  system : (∀ f ∈ env.node.mapMtype, ∀ x, pteBit (f x) 1 = false) → ∀ page ∈ u.pages,
    pteBit u.pteFlags 1 = decide (domainAt dma (page - r.start) ≠ svmRangeVramDomain)
  offset : u.offset = (u.start - r.start) * 4096
  vramBase : u.vramBase = env.vramBase
  pagesAddr : ∀ page ∈ u.pages, u.pagesAddr[page - r.start]? = dma[page - r.start]?.map stripDomain

theorem pteBit_or (x y : UInt64) (k : Nat) : pteBit (x ||| y) k = (pteBit x k || pteBit y k) := by
  simp [pteBit]

theorem pteBit_ite {x : UInt64} {k : Nat} (c : Prop) [Decidable c] (h : pteBit x k = false) :
    pteBit (if c then x else 0) k = false := by
  split
  · exact h
  · simp [pteBit]

theorem gemFlags_system {n : PteNode} (h : ∀ f ∈ n.mapMtype, ∀ x, pteBit (f x) 1 = false)
    (flags : BitVec 32) : pteBit (amdgpuGemVaMapFlags n flags) 1 = false := by
  unfold amdgpuGemVaMapFlags
  simp only [pteBit_or, Bool.or_eq_false_iff]
  refine ⟨⟨⟨⟨⟨?_, ?_⟩, ?_⟩, ?_⟩, ?_⟩, ?_⟩
  iterate 5 exact pteBit_ite _ (by decide)
  cases hf : n.mapMtype with
  | none =>
    show pteBit 0 1 = false
    decide
  | some f => exact h f hf _

theorem pteFlags_bits (env : MapEnv) (r : Range) (readonly : Bool) (domain : UInt64) :
    pteBit (env.pteFlags r readonly domain) 0 = true ∧
      ((∀ f ∈ env.node.mapMtype, ∀ x, pteBit (f x) 1 = false) →
        pteBit (env.pteFlags r readonly domain) 1 = decide (domain ≠ svmRangeVramDomain)) := by
  have hread : ∀ k < 2, pteBit (env.pteFlags r readonly domain) k = pteBit
      (svmRangeGetPteFlags env.node env.bo r.attrs.flags (domain = svmRangeVramDomain)) k := by
    intro k hk
    unfold MapEnv.pteFlags
    dsimp only
    split
    · have hbit : pteBit (~~~pteWriteable) k = true := by
        obtain rfl | rfl : k = 0 ∨ k = 1 := by omega
        · decide
        · decide
      unfold pteBit at hbit ⊢
      rw [UInt64.toBitVec_and, BitVec.getLsbD_and, hbit, Bool.and_true]
    · rfl
  rw [hread 0 (by decide), hread 1 (by decide)]
  unfold svmRangeGetPteFlags
  simp only [pteBit_or]
  refine ⟨rfl, fun h => ?_⟩
  rw [gemFlags_system h, pteBit_ite _ (by decide)]
  by_cases hd : domain = svmRangeVramDomain
  · simp [hd, pteBit, pteValid]
  · simp [hd, pteBit, pteValid, pteSystem]

section Loop
variable {env : MapEnv} {r : Range} {readonly : Bool} {dma : List UInt64}
  {updates : List PteUpdate} {lo i j : Nat}

theorem strip_or_domain (addr : UInt64) :
    stripDomain addr ||| (addr &&& svmRangeVramDomain) = addr := by
  unfold stripDomain
  apply UInt64.eq_of_toBitVec_eq
  ext k hk
  simp only [UInt64.toBitVec_or, UInt64.toBitVec_and, UInt64.toBitVec_not, BitVec.getElem_or,
    BitVec.getElem_and, BitVec.getElem_not]
  cases addr.toBitVec[k] with
  | false | true => simp

theorem stripWindow_getElem? : (stripWindow dma lo i)[j]? =
    dma[j]?.map fun addr => if lo ≤ j ∧ j < i then stripDomain addr else addr := by
  rw [stripWindow, getElem?_mapIdx]

theorem stripWindow_self : stripWindow dma lo lo = dma := by
  refine ext_getElem? fun j => ?_
  rw [stripWindow_getElem?]
  have hno : ¬(lo ≤ j ∧ j < lo) := by omega
  simp only [if_neg hno, Option.map_id']

theorem domainAt_stripWindow (h : i ≤ j) : domainAt (stripWindow dma lo i) j = domainAt dma j := by
  unfold domainAt
  rw [stripWindow_getElem?]
  have hno : ¬(lo ≤ j ∧ j < i) := by omega
  simp only [if_neg hno, Option.map_id']

theorem stripWindow_modify (h : lo ≤ i) :
    (stripWindow dma lo i).modify i stripDomain = stripWindow dma lo (i + 1) := by
  refine ext_getElem? fun j => ?_
  rw [getElem?_modify, stripWindow_getElem?, stripWindow_getElem?]
  cases dma[j]? with
  | none => rfl
  | some addr =>
    simp only [map_some, Option.map_eq_map]
    by_cases hj : i = j
    · subst hj
      rw [if_pos rfl, if_neg (by omega), if_pos (by omega)]
    · rw [if_neg hj]
      by_cases hin : lo ≤ j ∧ j < i
      · rw [if_pos hin, if_pos (by omega)]
      · rw [if_neg hin, if_neg (by omega)]

theorem restoreDomain_stripWindow {domain : UInt64}
    (h : ∀ k, lo ≤ k → k ≤ i → domainAt dma k = domain) :
    restoreDomain (stripWindow dma lo (i + 1)) lo i domain = dma := by
  refine ext_getElem? fun j => ?_
  rw [restoreDomain, getElem?_mapIdx, stripWindow_getElem?]
  cases hj : dma[j]? with
  | none => rfl
  | some addr =>
    simp only [map_some]
    by_cases hin : lo ≤ j ∧ j ≤ i
    · have hdomain := h j hin.1 hin.2
      unfold domainAt at hdomain
      rw [hj, getD_some] at hdomain
      rw [if_pos hin, if_pos (by omega), ← hdomain, strip_or_domain]
    · rw [if_neg hin, if_neg (by omega)]

theorem updateRight_run (env : MapEnv) (r : Range) (readonly : Bool) {domain : UInt64}
    (hlo : lo ≤ i)
    (h : ∀ k, lo ≤ k → k ≤ i → domainAt dma k = domain) :
    UpdateRight env r readonly dma
      { start := r.start + lo
        last := r.start + i
        pteFlags := env.pteFlags r readonly domain
        offset := (r.start + lo - r.start) * 4096
        vramBase := env.vramBase
        flushTlb := env.flushTlb
        pagesAddr := stripWindow dma lo (i + 1) } where
  start_le := Nat.le_add_right _ _
  le := Nat.add_le_add_left hlo _
  domain := by
    refine ⟨domain, fun page hpage => ?_, rfl⟩
    have hmem := mem_range'_1.mp hpage
    dsimp only at hmem
    exact h _ (by omega) (by omega)
  valid := (pteFlags_bits env r readonly domain).1
  system := by
    intro hmtype page hpage
    have hmem := mem_range'_1.mp hpage
    dsimp only at hmem
    rw [h _ (by omega) (by omega)]
    exact (pteFlags_bits env r readonly domain).2 hmtype
  offset := rfl
  vramBase := rfl
  pagesAddr := by
    intro page hpage
    have hmem := mem_range'_1.mp hpage
    dsimp only at hmem
    rw [stripWindow_getElem?]
    have hin : lo ≤ page - r.start ∧ page - r.start < i + 1 := by omega
    simp only [if_pos hin]

theorem mapLoop_right (env : MapEnv) (r : Range) (readonly : Bool) (dma : List UInt64)
    (rounds : Nat) : ∀ (i lo : Nat) (updates : List PteUpdate) (first : Nat),
    lo ≤ i → first ≤ lo →
    (∀ k, lo ≤ k → k ≤ i → 0 < rounds → domainAt dma k = domainAt dma i) →
    (rounds = 0 → lo = i) →
    (∀ u ∈ updates, UpdateRight env r readonly dma u) →
    updates.flatMap PteUpdate.pages = range' (r.start + first) (lo - first) →
    let m := mapLoop env r readonly rounds i (r.start + lo) (stripWindow dma lo i) updates
    m.dma = dma ∧ (∀ u ∈ m.updates, UpdateRight env r readonly dma u) ∧
      ∃ n ≤ i + rounds - first,
        m.updates.flatMap PteUpdate.pages = range' (r.start + first) n ∧
        (m.err = none → n = i + rounds - first) ∧
        ((∀ k, env.update k = none) → m.err = none) := by
  induction rounds with
  | zero =>
    intro i lo updates first hlo hfirst _ hend hright hpages
    obtain rfl := hend rfl
    refine ⟨stripWindow_self, hright, lo - first, le_refl _, hpages, fun _ => rfl, fun _ => rfl⟩
  | succ rounds ih =>
    intro i lo updates first hlo hfirst hdomain _ hright hpages
    have hrun : ∀ k, lo ≤ k → k ≤ i → domainAt dma k = domainAt dma i :=
      fun k hk hki => hdomain k hk hki (Nat.succ_pos _)
    unfold mapLoop
    dsimp only
    rw [stripWindow_modify hlo, domainAt_stripWindow (le_refl i),
      domainAt_stripWindow (le_refl (i + 1))]
    by_cases hcont : rounds ≠ 0 ∧ domainAt dma i = domainAt dma (i + 1)
    · -- the next page is of the same domain and waits too
      rw [if_pos hcont]
      have hnext := ih (i + 1) lo updates first (by omega) hfirst
        (fun k hk hki _ => by
          rcases Nat.lt_or_eq_of_le hki with hlt | rfl
          · rw [hrun k hk (by omega), hcont.2]
          · rfl)
        (fun h => absurd h hcont.1) hright hpages
      have harith : i + 1 + rounds = i + (rounds + 1) := by omega
      rw [harith] at hnext
      exact hnext
    · -- the pages that wait are written with one call, and get their domain bits back
      rw [if_neg hcont, Nat.add_sub_cancel_left, restoreDomain_stripWindow hrun]
      have hright' : ∀ u ∈ updates ++ [{
          start := r.start + lo
          last := r.start + i
          pteFlags := env.pteFlags r readonly (domainAt dma i)
          offset := lo * 4096
          vramBase := env.vramBase
          flushTlb := env.flushTlb
          pagesAddr := stripWindow dma lo (i + 1) }], UpdateRight env r readonly dma u := by
        intro u hu
        rcases mem_append.mp hu with hu | hu
        · exact hright u hu
        · rw [mem_singleton.mp hu]
          have hu' := updateRight_run env r readonly hlo hrun
          rwa [Nat.add_sub_cancel_left] at hu'
      generalize hu : ({
          start := r.start + lo
          last := r.start + i
          pteFlags := env.pteFlags r readonly (domainAt dma i)
          offset := lo * 4096
          vramBase := env.vramBase
          flushTlb := env.flushTlb
          pagesAddr := stripWindow dma lo (i + 1) } : PteUpdate) = u at hright' ⊢
      have hpages' : (updates ++ [u]).flatMap PteUpdate.pages =
          range' (r.start + first) (i + 1 - first) := by
        have hupages : u.pages = range' (r.start + first + (lo - first)) (i + 1 - lo) := by
          rw [← hu]
          unfold PteUpdate.pages
          congr 1
          · dsimp only
            omega
          · dsimp only
            omega
        rw [flatMap_append, flatMap_singleton, hpages, hupages, range'_append_1]
        congr 1
        omega
      cases hup : env.update updates.length with
      | some e =>
        refine ⟨rfl, hright', i + 1 - first, by omega, hpages', nofun, fun hall => ?_⟩
        rw [hall] at hup
        cases hup
      | none =>
        have hnext := ih (i + 1) (i + 1) (updates ++ [u]) first (le_refl _) (by omega)
          (fun k hk hki _ => by rw [le_antisymm hki hk]) (fun _ => rfl) hright' hpages'
        rw [stripWindow_self] at hnext
        have harith : i + 1 + rounds = i + (rounds + 1) := by omega
        rw [harith] at hnext
        exact hnext

theorem svmRangeMapToGpu_spec (env : MapEnv) (r : Range) (offset npages : Nat) (readonly : Bool)
    (dma : List UInt64) :
    let m := svmRangeMapToGpu env r offset npages readonly dma
    m.dma = dma ∧ (∀ u ∈ m.updates, UpdateRight env r readonly dma u) ∧
      ∃ n ≤ npages, m.updates.flatMap PteUpdate.pages = range' (r.start + offset) n ∧
        ((∀ k, env.update k = none) → n = npages) := by
  obtain ⟨hdma, hright, n, hn, hpages, hall, hok⟩ := mapLoop_right env r readonly dma npages
    offset offset [] offset (le_refl _) (le_refl _)
    (fun k hk hki _ => by rw [le_antisymm hki hk]) (fun _ => rfl)
    (fun u hu => absurd hu not_mem_nil) (by rw [Nat.sub_self]; rfl)
  rw [stripWindow_self] at hdma hright hpages hall hok
  rw [Nat.add_sub_cancel_left] at hn hall
  have hsame : (svmRangeMapToGpu env r offset npages readonly dma).dma =
        (mapLoop env r readonly npages offset (r.start + offset) dma []).dma ∧
      (svmRangeMapToGpu env r offset npages readonly dma).updates =
        (mapLoop env r readonly npages offset (r.start + offset) dma []).updates := by
    unfold svmRangeMapToGpu
    dsimp only
    split
    · exact ⟨rfl, rfl⟩
    · exact ⟨rfl, rfl⟩
  intro m
  rw [show m.dma = _ from hsame.1, show m.updates = _ from hsame.2]
  exact ⟨hdma, hright, n, hn, hpages, fun hnone => hall (hok hnone)⟩

/-- The calls are for pages of one domain each, with its flags, and for each page of the window
once, in order, if no update fails. The DMA addresses are as before, also when an update
fails. -/
theorem mapToGpu_right (env : MapEnv) (r : Range) (offset npages : Nat) (readonly : Bool)
    (dma : List UInt64) :
    let m := svmRangeMapToGpu env r offset npages readonly dma
    m.dma = dma ∧ (∀ u ∈ m.updates, UpdateRight env r readonly dma u) ∧
      m.updates.flatMap PteUpdate.pages <+: range' (r.start + offset) npages ∧
      ((∀ k, env.update k = none) →
        m.updates.flatMap PteUpdate.pages = range' (r.start + offset) npages) := by
  obtain ⟨hdma, hright, n, hn, hpages, hall⟩ :=
    svmRangeMapToGpu_spec env r offset npages readonly dma
  refine ⟨hdma, hright, ?_, fun hnone => hall hnone ▸ hpages⟩
  rw [hpages]
  obtain ⟨k, rfl⟩ := Nat.exists_eq_add_of_le hn
  exact ⟨_, range'_append_1⟩

end Loop

end Amdkfd.Svm
