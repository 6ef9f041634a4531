import Amdkfd.Svm.Transaction

/-!
# Checkpoint and restore of SVM attributes

`kfd_criu_checkpoint_svm` saves the attributes of each range that `svm_range_get_attr` reads,
`kfd_criu_restore_svm` keeps the records, and `kfd_criu_resume_svm` sets them in the new process.
The VMAs of the ranges are valid in both processes, copies from and to the user succeed, and so do
the migrations and mappings behind the transaction of `svm_range_set_attr`.
-/

namespace Amdkfd.Svm

open Lib List

/-! ## Reading attributes -/

structure GetAttr where
  getPreferredLoc : Bool
  getPrefetchLoc : Bool
  getAccessible : Bool
  getFlags : Bool
  getGranularity : Bool
  location : UInt32
  prefetchLoc : UInt32
  granularity : Nat
  access : Bitmap
  aip : Bitmap
  flagsAnd : BitVec 32
  flagsOr : BitVec 32

/-- The types that can be asked for. -/
def AttrType.Readable : AttrType → Bool
  | .preferredLoc => true
  | .prefetchLoc => true
  | .access => true
  | .setFlags => true
  | .clrFlags => true
  | .granularity => true
  | _ => false

/-- The locals after the first loop, when there are ranges in the interval. -/
def GetAttr.init (p : Process) (attrs : List Attribute) : GetAttr :=
  { getPreferredLoc := attrs.any (·.type = .preferredLoc)
    getPrefetchLoc := attrs.any (·.type = .prefetchLoc)
    getAccessible := attrs.any (·.type = .access)
    getFlags := attrs.any fun a => a.type = .setFlags ∨ a.type = .clrFlags
    getGranularity := attrs.any (·.type = .granularity)
    location := locationUndefined
    prefetchLoc := locationUndefined
    granularity := 0xff
    access := p.bitmapSupported
    aip := p.bitmapSupported
    flagsAnd := BitVec.allOnes 32
    flagsOr := 0 }

/-- The locals when there is no range in the interval. -/
def GetAttr.default (p : Process) (attrs : List Attribute) : GetAttr :=
  { GetAttr.init p attrs with
    location := (defaultAttrs p).preferredLoc
    prefetchLoc := (defaultAttrs p).prefetchLoc
    granularity := (defaultAttrs p).granularity
    flagsAnd := (defaultAttrs p).flags
    flagsOr := (defaultAttrs p).flags
    access := if p.xnackEnabled then p.bitmapSupported else ∅
    aip := ∅ }

/-- A location so far, with that of the next range: whether to go on, and the location. -/
def mergeLoc (get : Bool) (location loc : UInt32) : Bool × UInt32 :=
  if get then
    if loc = locationUndefined ∨ (location ≠ locationUndefined ∧ location ≠ loc) then
      (false, locationUndefined)
    else (true, loc)
  else (false, location)

/-- The round of `svm_range_get_attr` for one range. -/
def GetAttr.visit (g : GetAttr) (a : Attrs) : GetAttr :=
  { g with
    getPreferredLoc := (mergeLoc g.getPreferredLoc g.location a.preferredLoc).1
    location := (mergeLoc g.getPreferredLoc g.location a.preferredLoc).2
    getPrefetchLoc := (mergeLoc g.getPrefetchLoc g.prefetchLoc a.prefetchLoc).1
    prefetchLoc := (mergeLoc g.getPrefetchLoc g.prefetchLoc a.prefetchLoc).2
    access := if g.getAccessible then g.access ∩ a.access else g.access
    aip := if g.getAccessible then g.aip ∩ a.aip else g.aip
    flagsAnd := if g.getFlags then g.flagsAnd &&& a.flags else g.flagsAnd
    flagsOr := if g.getFlags then g.flagsOr ||| a.flags else g.flagsOr
    granularity :=
      if g.getGranularity ∧ a.granularity < g.granularity then a.granularity else g.granularity }

/-- The type that tells the access of a GPU. -/
def GetAttr.accessType (g : GetAttr) (gpuidx : Nat) : AttrType :=
  if gpuidx ∈ g.access then .access
  else if gpuidx ∈ g.aip then .accessInPlace
  else .noAccess

/-- The round of the last loop for one attribute. -/
def GetAttr.fillValue (p : Process) (g : GetAttr) (attr : Attribute) : Except Errno Attribute :=
  match attr.type with
  | .preferredLoc => .ok { attr with value := g.location }
  | .prefetchLoc => .ok { attr with value := g.prefetchLoc }
  | .access =>
    match gpuidxFromGpuid p attr.value with
    | none => .error .einval
    | some gpuidx => .ok { attr with type := g.accessType gpuidx }
  | .setFlags => .ok { attr with value := UInt32.ofBitVec g.flagsAnd }
  | .clrFlags => .ok { attr with value := UInt32.ofBitVec (~~~g.flagsOr) }
  | .granularity => .ok { attr with value := UInt32.ofNat g.granularity }
  | _ => .ok attr

def svmRangeGetAttr (p : Process) (s : Svms) (start last : Nat) (attrs : List Attribute) :
    Except Errno (List Attribute) :=
  if attrs.all (·.type.Readable) then
    let nodes := s.tree.filter fun id => start ≤ (s.heap id).itLast ∧ (s.heap id).itStart ≤ last
    let g :=
      if nodes = [] then GetAttr.default p attrs
      else nodes.foldl (fun g id => g.visit (s.heap id).attrs) (GetAttr.init p attrs)
    attrs.mapM (g.fillValue p)
  else .error .einval

/-! ## Records -/

/-- `struct kfd_criu_svm_range_priv_data`. -/
structure SvmRecord where
  startAddr : Nat
  size : Nat
  attrs : List Attribute
  deriving DecidableEq

/-- `query_attr` of `kfd_criu_checkpoint_svm`. -/
def queryAttr (p : Process) : List Attribute :=
  [⟨.preferredLoc, 0⟩, ⟨.prefetchLoc, 0⟩, ⟨.setFlags, 0⟩, ⟨.granularity, 0⟩] ++
    p.gpuIds.map fun gpuId => ⟨.access, gpuId⟩

/-- The round of `kfd_criu_checkpoint_svm` for one range. -/
def checkpointRange (p : Process) (s : Svms) (r : Range) : Except Errno SvmRecord :=
  match svmRangeGetAttr p s r.start (r.start + r.npages - 1) (queryAttr p) with
  | .error e => .error e
  | .ok attrs => .ok { startAddr := r.start, size := r.npages, attrs := attrs }

def kfdCriuCheckpointSvm (p : Process) (s : Svms) : Except Errno (List SvmRecord) :=
  s.list.mapM fun id => checkpointRange p s (s.heap id)

def kfdCriuRestoreSvm (metadata : List SvmRecord) (r : SvmRecord) : List SvmRecord :=
  metadata ++ [r]

/-- The first loop of `kfd_criu_resume_svm` over the attributes of a record, with
`set_flags`. -/
def resumeAttrs : List Attribute → UInt32 → List Attribute × UInt32
  | [], setFlags => ([], setFlags)
  | attr :: attrs, setFlags =>
    let attr' : Attribute :=
      if attr.type = .prefetchLoc ∧ attr.value = locationUndefined then ⟨.setFlags, 0⟩ else attr
    let setFlags := if attr.type = .setFlags then attr.value else setFlags
    (attr' :: (resumeAttrs attrs setFlags).1, (resumeAttrs attrs setFlags).2)

def resumeLoop (p : Process) (al : Alloc) : List SvmRecord → UInt32 → Svms → Svms × Option Errno
  | [], _, s => (s, none)
  | r :: rs, setFlags, s =>
    let attrs := resumeAttrs r.attrs setFlags
    match svmRangeSetAttr p al none (attrs.1 ++ [⟨.clrFlags, ~~~attrs.2⟩]) r.startAddr r.size s with
    | (s, .error e) => (s, some e)
    | (s, .ok _) => resumeLoop p al rs attrs.2 s

def kfdCriuResumeSvm (p : Process) (al : Alloc) (metadata : List SvmRecord) (s : Svms) :
    Svms × Option Errno :=
  resumeLoop p al metadata 0xffffffff s

/-! ## What a record has -/

/-- The GPUs of a process have ids of their own, and a GPU that supports SVM is one of them. -/
structure Process.Ok (p : Process) : Prop where
  nodup : p.gpuIds.Nodup
  supported : ∀ i ∈ p.bitmapSupported, i < p.gpuIds.length

/-- Attributes that `svm_range_check_attr` has let through: GPUs with access and GPUs as locations
support SVM. -/
structure Attrs.Sound (p : Process) (a : Attrs) : Prop where
  access : a.access ⊆ p.bitmapSupported
  aip : a.aip ⊆ p.bitmapSupported
  preferredLoc : checkAttr p ⟨.preferredLoc, a.preferredLoc⟩ = none
  prefetchLoc : a.prefetchLoc = locationUndefined ∨ checkAttr p ⟨.prefetchLoc, a.prefetchLoc⟩ = none

theorem Attrs.Sound.default (p : Process) : (defaultAttrs p).Sound p := by
  refine ⟨?_, Finset.empty_subset _, rfl, .inl rfl⟩
  show (if p.xnackEnabled then p.bitmapSupported else ∅) ⊆ p.bitmapSupported
  split
  · exact Finset.Subset.refl _
  · exact Finset.empty_subset _

variable {p : Process} {a : Attrs}

theorem Attrs.Sound.setAccess (h : a.Sound p) {gpuidx : Nat} (hsup : gpuidx ∈ p.bitmapSupported)
    (type : AttrType) : (a.setAccess gpuidx type).Sound p := by
  have hset {map : Bitmap} (hmap : map ⊆ p.bitmapSupported) :
      bitmapSet map gpuidx 1 ⊆ p.bitmapSupported := by
    intro i hi
    rcases mem_bitmapSet.1 hi with hi | hi
    · exact hmap hi
    · obtain rfl : i = gpuidx := by omega
      exact hsup
  have hclear {map : Bitmap} (hmap : map ⊆ p.bitmapSupported) :
      bitmapClear map gpuidx 1 ⊆ p.bitmapSupported :=
    fun i hi => hmap (mem_bitmapClear.1 hi).1
  unfold Attrs.setAccess
  split
  · exact ⟨hset h.access, hclear h.aip, h.preferredLoc, h.prefetchLoc⟩
  · exact ⟨hclear h.access, hset h.aip, h.preferredLoc, h.prefetchLoc⟩
  · exact ⟨hclear h.access, hclear h.aip, h.preferredLoc, h.prefetchLoc⟩

theorem Attrs.Sound.applyAttr (h : a.Sound p) {attr : Attribute}
    (hcheck : checkAttr p attr = none) : (applyAttr p a attr).Sound p := by
  have hlookup (hl : (match gpuidxFromGpuid p attr.value with
        | none => some Errno.einval
        | some gpuidx => if gpuidx ∈ p.bitmapSupported then none else some .einval) = none) :
      ∃ i, gpuidxFromGpuid p attr.value = some i ∧ i ∈ p.bitmapSupported := by
    split at hl
    · cases hl
    · split at hl
      · exact ⟨_, ‹_›, ‹_›⟩
      · cases hl
  obtain ⟨type, value⟩ := attr
  cases type with
  | preferredLoc => exact ⟨h.access, h.aip, hcheck, h.prefetchLoc⟩
  | prefetchLoc => exact ⟨h.access, h.aip, h.preferredLoc, .inr hcheck⟩
  | access | accessInPlace | noAccess =>
    obtain ⟨i, hi, hsup⟩ := hlookup hcheck
    simp only [Svm.applyAttr, hi]
    exact h.setAccess hsup _
  | setFlags | clrFlags | granularity => exact ⟨h.access, h.aip, h.preferredLoc, h.prefetchLoc⟩
  | unknown type => exact h

theorem Attrs.Sound.applyAttrs {attrs : List Attribute}
    (hcheck : svmRangeCheckAttr p attrs = none) (h : a.Sound p) :
    (applyAttrs p attrs a).Sound p := by
  unfold svmRangeCheckAttr at hcheck
  rw [findSome?_eq_none_iff] at hcheck
  unfold Svm.applyAttrs
  induction attrs generalizing a with
  | nil => exact h
  | cons attr attrs ih =>
    exact ih (fun x hx => hcheck x (mem_cons_of_mem _ hx))
      (h.applyAttr (hcheck attr mem_cons_self))

theorem modifyOn_sound {attrs : List Attribute} {m : Nat → Option Attrs} {lo hi : Nat}
    (hcheck : svmRangeCheckAttr p attrs = none) (h : ∀ x a, m x = some a → a.Sound p) :
    ∀ x a, modifyOn (Svm.applyAttrs p attrs) (defaultAttrs p) m lo hi x = some a → a.Sound p := by
  intro x a ha
  unfold modifyOn at ha
  split at ha
  · obtain rfl := Option.some.inj ha
    refine Attrs.Sound.applyAttrs hcheck ?_
    cases hx : m x with
    | none => exact .default p
    | some b => exact h x b hx
  · exact h x a ha

def Attrs.accessType (a : Attrs) (gpuidx : Nat) : AttrType :=
  if gpuidx ∈ a.access then .access
  else if gpuidx ∈ a.aip then .accessInPlace
  else .noAccess

def Attrs.savedAccess (p : Process) (a : Attrs) (gpuId : UInt32) : Attribute :=
  ⟨a.accessType (p.gpuIds.findIdx (· == gpuId)), gpuId⟩

/-- The attributes that a record has. -/
def Attrs.saved (p : Process) (a : Attrs) : List Attribute :=
  [⟨.preferredLoc, a.preferredLoc⟩, ⟨.prefetchLoc, a.prefetchLoc⟩,
    ⟨.setFlags, UInt32.ofBitVec a.flags⟩, ⟨.granularity, UInt32.ofNat a.granularity⟩] ++
    p.gpuIds.map (a.savedAccess p)

theorem gpuidxFromGpuid_of_mem {gpuId : UInt32} (h : gpuId ∈ p.gpuIds) :
    gpuidxFromGpuid p gpuId = some (p.gpuIds.findIdx (· == gpuId)) :=
  findIdx?_eq_some_of_exists ⟨gpuId, h, beq_self_eq_true gpuId⟩

theorem mapM_ok {α β ε : Type} {f : α → Except ε β} {g : α → β} {xs : List α}
    (h : ∀ x ∈ xs, f x = .ok (g x)) : xs.mapM f = .ok (xs.map g) := by
  induction xs with
  | nil => rfl
  | cons x xs ih =>
    rw [mapM_cons, h x mem_cons_self, ih fun y hy => h y (mem_cons_of_mem _ hy)]
    rfl

theorem mergeLoc_first (loc : UInt32) : (mergeLoc true locationUndefined loc).2 = loc := by
  unfold mergeLoc
  rw [if_pos rfl]
  split
  · next h =>
    rcases h with h | h
    · exact h.symm
    · exact absurd rfl h.1
  · rfl

section OneRange
variable {p : Process} {a : Attrs}

/-- The locals of `svm_range_get_attr` after one range. -/
def GetAttr.one (p : Process) (a : Attrs) : GetAttr :=
  (GetAttr.init p (queryAttr p)).visit a

theorem GetAttr.one_location : (GetAttr.one p a).location = a.preferredLoc :=
  mergeLoc_first _

theorem GetAttr.one_prefetchLoc : (GetAttr.one p a).prefetchLoc = a.prefetchLoc :=
  mergeLoc_first _

theorem GetAttr.one_flagsAnd : (GetAttr.one p a).flagsAnd = a.flags :=
  BitVec.allOnes_and

theorem GetAttr.one_granularity : (GetAttr.one p a).granularity = a.granularity := by
  refine if_pos ⟨rfl, ?_⟩
  show a.granularity < 0xff
  have := a.granularity_le
  omega

theorem GetAttr.one_accessType (h : a.Sound p) {gpuId : UInt32} (hmem : gpuId ∈ p.gpuIds)
    (gpuidx : Nat) : (GetAttr.one p a).accessType gpuidx = a.accessType gpuidx := by
  have hget : (GetAttr.init p (queryAttr p)).getAccessible = true := by
    refine any_eq_true.mpr ⟨⟨.access, gpuId⟩, ?_, rfl⟩
    exact mem_append_right _ (mem_map_of_mem hmem)
  have haccess : (GetAttr.one p a).access = a.access := by
    show (if (GetAttr.init p (queryAttr p)).getAccessible then _ else _) = _
    rw [if_pos hget]
    exact Finset.inter_eq_right.mpr h.access
  have haip : (GetAttr.one p a).aip = a.aip := by
    show (if (GetAttr.init p (queryAttr p)).getAccessible then _ else _) = _
    rw [if_pos hget]
    exact Finset.inter_eq_right.mpr h.aip
  unfold GetAttr.accessType Attrs.accessType
  rw [haccess, haip]

theorem fillValue_queryAttr (h : a.Sound p) :
    (queryAttr p).mapM ((GetAttr.one p a).fillValue p) = .ok (a.saved p) := by
  have haccess : (p.gpuIds.map fun gpuId => (⟨.access, gpuId⟩ : Attribute)).mapM
      ((GetAttr.one p a).fillValue p) = .ok (p.gpuIds.map (a.savedAccess p)) := by
    rw [mapM_map]
    refine mapM_ok fun gpuId hmem => ?_
    simp only [Function.comp, GetAttr.fillValue, gpuidxFromGpuid_of_mem hmem,
      GetAttr.one_accessType h hmem]
    rfl
  unfold queryAttr
  simp only [cons_append, nil_append, mapM_cons, haccess, GetAttr.fillValue,
    GetAttr.one_location, GetAttr.one_prefetchLoc, GetAttr.one_flagsAnd, GetAttr.one_granularity]
  rfl

end OneRange

theorem Svms.Ok.nodes_eq {s : Svms} {m : Nat → Option Attrs} (h : s.Ok m) {id : Nat}
    (hid : id ∈ s.list) :
    (s.tree.filter fun x => (s.heap id).start ≤ (s.heap x).itLast ∧
      (s.heap x).itStart ≤ (s.heap id).last) = [id] := by
  have hle : (s.heap id).start ≤ (s.heap id).last :=
    h.represents.nonempty _ (mem_map_of_mem hid)
  have hiff : ∀ x ∈ s.tree, ((s.heap id).start ≤ (s.heap x).itLast ∧
      (s.heap x).itStart ≤ (s.heap id).last) ↔ x = id := by
    intro x hx
    have hmem := h.perm.mem_iff.mpr hx
    rw [(h.node x hmem).1, (h.node x hmem).2]
    constructor
    · intro hov
      by_contra hne
      rcases Svms.apart_of_ne h.represents hmem hid hne with hlt | hlt
      · exact absurd hov.1 (not_le.mpr hlt)
      · exact absurd hov.2 (not_le.mpr hlt)
    · rintro rfl
      exact ⟨hle, hle⟩
  rw [filter_congr fun x hx => decide_eq_decide.mpr (hiff x hx), filter_eq,
    count_eq_one_of_mem (h.perm.nodup_iff.mp h.nodup) (h.perm.mem_iff.mp hid)]
  rfl

/-- What `kfd_criu_checkpoint_svm` promises of the ranges that it saves: `npages` is the number of
pages, and the attributes have passed `svm_range_check_attr`. -/
structure Range.Saveable (p : Process) (r : Range) : Prop where
  npages : r.start + r.npages = r.last + 1
  sound : r.attrs.Sound p

def Range.record (p : Process) (r : Range) : SvmRecord :=
  { startAddr := r.start, size := r.npages, attrs := r.attrs.saved p }

section Checkpoint
variable {p : Process} {s : Svms} {m : Nat → Option Attrs}

theorem checkpointRange_eq (h : s.Ok m) {id : Nat} (hid : id ∈ s.list)
    (hr : (s.heap id).Saveable p) :
    checkpointRange p s (s.heap id) = .ok ((s.heap id).record p) := by
  have hlast : (s.heap id).start + (s.heap id).npages - 1 = (s.heap id).last := by
    have := hr.npages
    omega
  have hread : (queryAttr p).all (·.type.Readable) = true := by
    simp [queryAttr, AttrType.Readable]
  have hget : svmRangeGetAttr p s (s.heap id).start (s.heap id).last (queryAttr p) =
      .ok ((s.heap id).attrs.saved p) := by
    unfold svmRangeGetAttr
    rw [if_pos hread, h.nodes_eq hid]
    exact fillValue_queryAttr hr.sound
  unfold checkpointRange
  rw [hlast, hget]
  rfl

theorem kfdCriuCheckpointSvm_eq (h : s.Ok m) (hsave : ∀ id ∈ s.list, (s.heap id).Saveable p) :
    kfdCriuCheckpointSvm p s = .ok (s.list.map fun id => (s.heap id).record p) :=
  mapM_ok fun id hid => checkpointRange_eq h hid (hsave id hid)

end Checkpoint

theorem foldl_kfdCriuRestoreSvm (records metadata : List SvmRecord) :
    records.foldl kfdCriuRestoreSvm metadata = metadata ++ records := by
  induction records generalizing metadata with
  | nil => exact (append_nil _).symm
  | cons r rs ih =>
    rw [foldl_cons, ih]
    exact append_assoc ..

/-! ## What a resume sets -/

def Attrs.restoredPrefetch (a : Attrs) : Attribute :=
  if a.prefetchLoc = locationUndefined then ⟨.setFlags, 0⟩ else ⟨.prefetchLoc, a.prefetchLoc⟩

/-- The attributes that `kfd_criu_resume_svm` sets for a record. -/
def Attrs.restored (p : Process) (a : Attrs) : List Attribute :=
  [⟨.preferredLoc, a.preferredLoc⟩, a.restoredPrefetch,
    ⟨.setFlags, UInt32.ofBitVec a.flags⟩, ⟨.granularity, UInt32.ofNat a.granularity⟩] ++
    p.gpuIds.map (a.savedAccess p) ++ [⟨.clrFlags, ~~~UInt32.ofBitVec a.flags⟩]

theorem accessType_cases (a : Attrs) (gpuidx : Nat) :
    a.accessType gpuidx = .access ∨ a.accessType gpuidx = .accessInPlace ∨
      a.accessType gpuidx = .noAccess := by
  unfold Attrs.accessType
  split
  · exact .inl rfl
  · split
    · exact .inr (.inl rfl)
    · exact .inr (.inr rfl)

theorem resumeAttrs_access (p : Process) (a : Attrs) (gpuIds : List UInt32) (setFlags : UInt32) :
    resumeAttrs (gpuIds.map (a.savedAccess p)) setFlags =
      (gpuIds.map (a.savedAccess p), setFlags) := by
  induction gpuIds with
  | nil => rfl
  | cons gpuId gpuIds ih =>
    have hprefetch : (a.savedAccess p gpuId).type ≠ .prefetchLoc := by
      rcases accessType_cases a (p.gpuIds.findIdx (· == gpuId)) with h | h | h <;>
        simp [Attrs.savedAccess, h]
    have hflags : (a.savedAccess p gpuId).type ≠ .setFlags := by
      rcases accessType_cases a (p.gpuIds.findIdx (· == gpuId)) with h | h | h <;>
        simp [Attrs.savedAccess, h]
    simp only [map_cons, resumeAttrs, hprefetch, hflags, false_and, if_false, ih]

theorem resumeAttrs_saved (p : Process) (a : Attrs) (setFlags : UInt32) :
    (resumeAttrs (a.saved p) setFlags).1 ++
        [⟨.clrFlags, ~~~(resumeAttrs (a.saved p) setFlags).2⟩] = a.restored p := by
  unfold Attrs.saved Attrs.restored Attrs.restoredPrefetch
  simp [resumeAttrs, resumeAttrs_access]

structure Process.SameGpus (p p' : Process) : Prop where
  gpuIds : p'.gpuIds = p.gpuIds
  bitmapSupported : p'.bitmapSupported = p.bitmapSupported

section Restored
variable {p p' : Process} {a : Attrs}

theorem Process.SameGpus.gpuidxFromGpuid (h : p.SameGpus p') (gpuId : UInt32) :
    gpuidxFromGpuid p' gpuId = Svm.gpuidxFromGpuid p gpuId := by
  unfold Svm.gpuidxFromGpuid
  rw [h.gpuIds]

theorem Process.SameGpus.checkAttr (h : p.SameGpus p') (attr : Attribute) :
    checkAttr p' attr = Svm.checkAttr p attr := by
  unfold Svm.checkAttr
  rw [h.gpuidxFromGpuid, h.bitmapSupported]

theorem findIdx_getElem {l : List UInt32} (h : l.Nodup) {i : Nat} (hi : i < l.length) :
    l.findIdx (· == l[i]) = i := by
  refine (findIdx_eq hi).mpr ⟨beq_self_eq_true _, fun j hj => ?_⟩
  refine beq_eq_false_iff_ne.mpr fun heq => ?_
  exact absurd (h.getElem_inj_iff.mp heq) (ne_of_lt hj)

theorem checkAttr_savedAccess (hp : p.Ok) {i : Nat} (hi : i < p.gpuIds.length) :
    checkAttr p (a.savedAccess p p.gpuIds[i]) = none ↔ i ∈ p.bitmapSupported := by
  have hlookup := gpuidxFromGpuid_of_mem (p := p) (getElem_mem hi)
  rw [findIdx_getElem hp.nodup hi] at hlookup
  have hcheck : checkAttr p (a.savedAccess p p.gpuIds[i]) =
      if i ∈ p.bitmapSupported then none else some .einval := by
    unfold Attrs.savedAccess
    rcases accessType_cases a (p.gpuIds.findIdx (· == p.gpuIds[i])) with h | h | h <;>
      simp only [checkAttr, h, hlookup]
  rw [hcheck]
  split
  · next h => exact iff_of_true rfl h
  · next h => exact iff_of_false (by simp) h

theorem svmRangeCheckAttr_restored (hp : p.Ok) (hsame : p.SameGpus p') (ha : a.Sound p) :
    svmRangeCheckAttr p' (a.restored p) = none ↔ ∀ i < p.gpuIds.length, i ∈ p.bitmapSupported := by
  have hprefetch : checkAttr p a.restoredPrefetch = none := by
    unfold Attrs.restoredPrefetch
    split
    · rfl
    · next h => exact ha.prefetchLoc.resolve_left h
  unfold svmRangeCheckAttr
  rw [findSome?_eq_none_iff]
  simp only [hsame.checkAttr]
  constructor
  · intro hall i hi
    have hmem : a.savedAccess p p.gpuIds[i] ∈ a.restored p :=
      mem_append_left _ (mem_append_right _ (mem_map_of_mem (getElem_mem hi)))
    exact (checkAttr_savedAccess hp hi).mp (hall _ hmem)
  · intro hall attr hattr
    unfold Attrs.restored at hattr
    simp only [mem_append, mem_cons, mem_map, not_mem_nil, or_false] at hattr
    rcases hattr with ((rfl | rfl | rfl | rfl) | ⟨gpuId, hmem, rfl⟩) | rfl
    · exact ha.preferredLoc
    · exact hprefetch
    · rfl
    · rfl
    · obtain ⟨i, hi, rfl⟩ := getElem_of_mem hmem
      exact (checkAttr_savedAccess hp hi).mpr (hall i hi)
    · rfl

theorem or_and_self (f g : BitVec 32) : (f ||| g) &&& g = g := by
  ext i hi
  simp only [BitVec.getElem_and, BitVec.getElem_or]
  cases f[i] <;> cases g[i] <;> rfl

theorem mem_setAccess_accessType (a b : Attrs) (i j : Nat) :
    (j ∈ (b.setAccess i (a.accessType i)).access ↔ if j = i then j ∈ a.access else j ∈ b.access) ∧
      (j ∈ (b.setAccess i (a.accessType i)).aip ↔ if j = i then j ∈ a.aip else j ∈ b.aip) := by
  by_cases hj : j = i
  · subst hj
    simp only [if_true]
    unfold Attrs.accessType
    split
    · next h =>
      have haip := a.disjoint j h
      simp [Attrs.setAccess, h, haip]
    · next h =>
      split
      · next haip => simp [Attrs.setAccess, h, haip]
      · next haip => simp [Attrs.setAccess, h, haip]
  · have hout : ¬(i ≤ j ∧ j < i + 1) := by omega
    have hset (map : Bitmap) : j ∈ bitmapSet map i 1 ↔ j ∈ map := by
      rw [mem_bitmapSet, or_iff_left hout]
    have hclear (map : Bitmap) : j ∈ bitmapClear map i 1 ↔ j ∈ map := by
      rw [mem_bitmapClear, and_iff_left hout]
    rcases accessType_cases a i with h | h | h <;>
      simp only [Attrs.setAccess, h, hj, hset, hclear, if_false, and_self]

theorem setAccess_others (b : Attrs) (i : Nat) (type : AttrType) :
    (b.setAccess i type).flags = b.flags ∧ (b.setAccess i type).preferredLoc = b.preferredLoc ∧
      (b.setAccess i type).prefetchLoc = b.prefetchLoc ∧
      (b.setAccess i type).granularity = b.granularity := by
  unfold Attrs.setAccess
  split <;> exact ⟨rfl, rfl, rfl, rfl⟩

theorem foldl_setAccess (a : Attrs) (is : List Nat) (b : Attrs) :
    let b' := is.foldl (fun b i => b.setAccess i (a.accessType i)) b
    (b'.flags = b.flags ∧ b'.preferredLoc = b.preferredLoc ∧ b'.prefetchLoc = b.prefetchLoc ∧
      b'.granularity = b.granularity) ∧
    (∀ j, j ∈ b'.access ↔ if j ∈ is then j ∈ a.access else j ∈ b.access) ∧
    ∀ j, j ∈ b'.aip ↔ if j ∈ is then j ∈ a.aip else j ∈ b.aip := by
  induction is generalizing b with
  | nil => simp
  | cons i is ih =>
    obtain ⟨⟨hflags, hpref, hfetch, hgran⟩, haccess, haip⟩ := ih (b.setAccess i (a.accessType i))
    obtain ⟨hf, hp, hpf, hg⟩ := setAccess_others b i (a.accessType i)
    refine ⟨⟨hflags.trans hf, hpref.trans hp, hfetch.trans hpf, hgran.trans hg⟩, fun j => ?_,
      fun j => ?_⟩
    · rw [foldl_cons, haccess, (mem_setAccess_accessType a b i j).1]
      by_cases hj : j = i
      · simp [hj]
      · simp [hj]
    · rw [foldl_cons, haip, (mem_setAccess_accessType a b i j).2]
      by_cases hj : j = i
      · simp [hj]
      · simp [hj]

theorem applyAttr_savedAccess (hsame : p.SameGpus p') (a b : Attrs) {gpuId : UInt32}
    (hmem : gpuId ∈ p.gpuIds) :
    applyAttr p' b (a.savedAccess p gpuId) =
      b.setAccess (p.gpuIds.findIdx (· == gpuId))
        (a.accessType (p.gpuIds.findIdx (· == gpuId))) := by
  have hlookup := gpuidxFromGpuid_of_mem hmem
  unfold Attrs.savedAccess
  rcases accessType_cases a (p.gpuIds.findIdx (· == gpuId)) with h | h | h <;>
    simp only [applyAttr, h, hsame.gpuidxFromGpuid, hlookup]

theorem map_findIdx (hp : p.Ok) :
    (p.gpuIds.map fun gpuId => p.gpuIds.findIdx (· == gpuId)) = range p.gpuIds.length := by
  refine ext_getElem (by simp) fun i h _ => ?_
  rw [getElem_map, getElem_range]
  exact findIdx_getElem hp.nodup (by simpa using h)

theorem applyAttrs_restored (hp : p.Ok) (hsame : p.SameGpus p') (ha : a.Sound p) :
    applyAttrs p' (a.restored p) (defaultAttrs p') = a := by
  have hrounds : ∀ (gpuIds : List UInt32) (b : Attrs), (∀ gpuId ∈ gpuIds, gpuId ∈ p.gpuIds) →
      (gpuIds.map (a.savedAccess p)).foldl (applyAttr p') b =
        (gpuIds.map fun gpuId => p.gpuIds.findIdx (· == gpuId)).foldl
          (fun b i => b.setAccess i (a.accessType i)) b := by
    intro gpuIds
    induction gpuIds with
    | nil => exact fun _ _ => rfl
    | cons gpuId gpuIds ih =>
      intro b hmem
      simp only [map_cons, foldl_cons]
      rw [applyAttr_savedAccess hsame a b (hmem gpuId mem_cons_self)]
      exact ih _ fun x hx => hmem x (mem_cons_of_mem _ hx)
  have hprefetch : ∀ b : Attrs, b.prefetchLoc = locationUndefined →
      applyAttr p' b a.restoredPrefetch = { b with prefetchLoc := a.prefetchLoc } := by
    intro b hb
    unfold Attrs.restoredPrefetch
    split
    · next h =>
      rw [h, ← hb]
      exact Attrs.ext (BitVec.or_zero) rfl rfl rfl rfl rfl
    · rfl
  unfold applyAttrs Attrs.restored
  simp only [foldl_append, foldl_cons, foldl_nil]
  rw [hprefetch _ rfl, hrounds p.gpuIds _ fun _ h => h, map_findIdx hp]
  generalize hb : applyAttr p' (applyAttr p' _ _) _ = b
  obtain ⟨⟨hflags, hpref, hfetch, hgran⟩, haccess, haip⟩ :=
    foldl_setAccess a (range p.gpuIds.length) b
  have hout : ∀ {map : Bitmap}, map ⊆ p.bitmapSupported → ∀ {i}, i ∉ range p.gpuIds.length →
      i ∉ map :=
    fun hsub _ hi hmem => hi (mem_range.mpr (hp.supported _ (hsub hmem)))
  have hb_access : b.access ⊆ p.bitmapSupported := by
    have hdefault := (Attrs.Sound.default p').access
    rw [hsame.bitmapSupported] at hdefault
    rw [← hb]
    exact hdefault
  have hb_aip : b.aip = ∅ := by
    rw [← hb]
    rfl
  refine Attrs.ext ?_ (hpref.trans ?_) (hfetch.trans ?_) (hgran.trans ?_) ?_ ?_
  · show _ &&& ~~~(~~~a.flags) = _
    rw [hflags, ← hb, BitVec.not_not]
    exact or_and_self _ _
  · rw [← hb]
    rfl
  · rw [← hb]
    rfl
  · rw [← hb]
    show min (UInt32.ofNat a.granularity).toNat 0x3f = a.granularity
    have hle := a.granularity_le
    have hlt : a.granularity < UInt32.size := lt_of_le_of_lt hle (by decide)
    rw [UInt32.toNat_ofNat_of_lt' hlt]
    exact min_eq_left hle
  · ext i
    refine (haccess i).trans ?_
    split
    · rfl
    · next hi => exact iff_of_false (hout hb_access hi) (hout ha.access hi)
  · ext i
    refine (haip i).trans ?_
    split
    · rfl
    · next hi => exact iff_of_false (hb_aip ▸ Finset.notMem_empty i) (hout ha.aip hi)

end Restored

/-! ## The resume loop -/

section Resume
variable {p p' : Process} {al : Alloc} {s t : Svms} {m done : Nat → Option Attrs}

theorem svmRangeSetAttr_new {attrs : List Attribute} {start last size : Nat} (ht : t.Ok done)
    (hal : al.AllOk) (hcheck : svmRangeCheckAttr p' attrs = none) (hle : start ≤ last)
    (hsize : start + size = last + 1) (hfree : ∀ x, start ≤ x ∧ x ≤ last → done x = none) :
    ∃ t' work, svmRangeSetAttr p' al none attrs start size t = (t', .ok work) ∧
      t'.Ok (fill done start last (applyAttrs p' attrs (defaultAttrs p'))) := by
  obtain rfl : start + size - 1 = last := by omega
  obtain ⟨hfine, htotal, hdone⟩ :
      AddState.Fine (svmRangeAdd p' al attrs start (start + size - 1) t).1 t ∧ _ :=
    svmRangeAdd_spec ht hle
  have hnone := htotal hal
  obtain ⟨hnews, hremove, hrep⟩ := hdone hnone
  obtain ⟨work, heq⟩ := svmRangeSetAttr_eq hcheck hnone
  rw [modifyOn_eq_fill hfree] at hrep
  refine ⟨_, work, heq, (commit_linked_iff ht hfine hnews).mpr fun id hid _ => ?_,
    commit_represents ht.toLinked hfine hnews hrep⟩
  -- A range that is replaced would have a page of the interval.
  obtain ⟨hmem, hlo, hhi, -⟩ := (hremove id).mp hid
  have hrange : (t.heap id).piece.lo ≤ (t.heap id).piece.hi :=
    ht.represents.nonempty _ (mem_map_of_mem hmem)
  change (t.heap id).start ≤ (t.heap id).last at hrange
  refine absurd ?_ (ht.represents.not_covers (mem_map_of_mem hmem)
    (hfree (max start (t.heap id).start) (by omega)))
  show (t.heap id).start ≤ _ ∧ _ ≤ (t.heap id).last
  omega

theorem resumeLoop_records (hp : p.Ok) (hsame : p.SameGpus p') (hal : al.AllOk)
    (hall : ∀ i < p.gpuIds.length, i ∈ p.bitmapSupported) (s : Svms) (ids : List Nat) :
    ∀ {t : Svms} {done : Nat → Option Attrs} {qs : List (Piece Attrs)} (setFlags : UInt32),
    t.Ok done → Represents qs done →
    Represents ((ids.map fun id => (s.heap id).piece) ++ qs) m →
    (∀ id ∈ ids, (s.heap id).Saveable p) →
    ∃ t', resumeLoop p' al (ids.map fun id => (s.heap id).record p) setFlags t = (t', none) ∧
      t'.Ok m := by
  induction ids with
  | nil =>
    intro t done qs _ ht hqs hm _
    obtain rfl := hqs.unique hm
    exact ⟨t, rfl, ht⟩
  | cons id ids ih =>
    intro t done qs setFlags ht hqs hm hsave
    obtain ⟨hnpages, hsound⟩ := hsave id mem_cons_self
    have hfree := fun x hx => hm.head_free (fun q hq => mem_append_right _ hq) hqs (x := x) hx
    have hle : (s.heap id).start ≤ (s.heap id).last := hm.nonempty _ mem_cons_self
    obtain ⟨t', work, heq, ht'⟩ := svmRangeSetAttr_new ht hal
      ((svmRangeCheckAttr_restored hp hsame hsound).mpr hall) hle hnpages hfree
    rw [applyAttrs_restored hp hsame hsound] at ht'
    have hm' : Represents ((ids.map fun id => (s.heap id).piece) ++ (s.heap id).piece :: qs) m :=
      hm.perm perm_middle.symm
    obtain ⟨t'', hloop, hok⟩ := ih (resumeAttrs ((s.heap id).attrs.saved p) setFlags).2 ht'
      (hqs.cons (p := (s.heap id).piece) hle hfree) hm'
      fun x hx => hsave x (mem_cons_of_mem _ hx)
    refine ⟨t'', ?_, hok⟩
    simp only [map_cons, resumeLoop, Range.record, resumeAttrs_saved, heq]
    exact hloop

theorem resumeLoop_refused (hp : p.Ok) (hsame : p.SameGpus p') {r : Range} (hr : r.Saveable p)
    (hgpu : ¬∀ i < p.gpuIds.length, i ∈ p.bitmapSupported) (rs : List SvmRecord)
    (setFlags : UInt32) :
    (resumeLoop p' al (r.record p :: rs) setFlags t).2 ≠ none := by
  simp only [resumeLoop, Range.record, resumeAttrs_saved]
  unfold svmRangeSetAttr
  cases hcheck : svmRangeCheckAttr p' (r.attrs.restored p) with
  | none => exact absurd ((svmRangeCheckAttr_restored hp hsame hr.sound).mp hcheck) hgpu
  | some e => exact Option.some_ne_none e

end Resume

/-! ## The round trip -/

section RoundTrip
variable {p p' : Process} {al : Alloc} {s t : Svms} {m : Nat → Option Attrs}

/-- A checkpoint of the ranges `s` of the process `p`, which stand for the map `m`, and the restore
and resume of its records in the process `p'` with the ranges `t` succeed and leave ranges for the
same map. -/
def RoundTrips (p p' : Process) (al : Alloc) (s t : Svms) (m : Nat → Option Attrs) : Prop :=
  ∃ records t', kfdCriuCheckpointSvm p s = .ok records ∧
    kfdCriuResumeSvm p' al (records.foldl kfdCriuRestoreSvm []) t = (t', none) ∧ t'.Ok m

structure Svms.Fresh (t : Svms) : Prop where
  list : t.list = []
  tree : t.tree = []

theorem Svms.Fresh.ok (h : t.Fresh) : t.Ok fun _ => none := by
  refine ⟨⟨?_, ?_, ?_, ?_, ?_⟩, ?_⟩
  · rw [h.list, h.tree]
  · rw [h.list]
    exact .nil
  · simp [h.list]
  · simp [h.list]
  · rw [h.tree]
    exact .nil
  · rw [h.list]
    exact represents_nil

theorem RoundTrips.supported (h : RoundTrips p p' al s t m) (hp : p.Ok) (hsame : p.SameGpus p')
    (hs : s.Ok m) (hsave : ∀ id ∈ s.list, (s.heap id).Saveable p) (hlist : s.list ≠ []) :
    ∀ i < p.gpuIds.length, i ∈ p.bitmapSupported := by
  obtain ⟨records, t', hrecords, hresume, -⟩ := h
  rw [kfdCriuCheckpointSvm_eq hs hsave] at hrecords
  obtain rfl := Except.ok.inj hrecords
  by_contra hgpu
  obtain ⟨id, ids, heq⟩ := exists_cons_of_ne_nil hlist
  rw [foldl_kfdCriuRestoreSvm, heq] at hresume
  refine resumeLoop_refused hp hsame (hsave id ?_) hgpu _ _ (congrArg Prod.snd hresume)
  rw [heq]
  exact mem_cons_self

/-- A checkpoint of SVM ranges, restored in a new process with the same GPUs, gives the attributes
back exactly when there is no range or every GPU of the process supports SVM. -/
theorem svm_roundTrips_iff (hp : p.Ok) (hsame : p.SameGpus p') (hal : al.AllOk) (hs : s.Ok m)
    (hsave : ∀ id ∈ s.list, (s.heap id).Saveable p) (ht : t.Fresh) :
    RoundTrips p p' al s t m ↔ s.list = [] ∨ ∀ i < p.gpuIds.length, i ∈ p.bitmapSupported := by
  have hcheckpoint := kfdCriuCheckpointSvm_eq hs hsave
  constructor
  · intro h
    by_cases hlist : s.list = []
    · exact .inl hlist
    · exact .inr (h.supported hp hsame hs hsave hlist)
  · intro hcond
    have hfold := foldl_kfdCriuRestoreSvm (s.list.map fun id => (s.heap id).record p) []
    rw [nil_append] at hfold
    rcases hcond with hlist | hall
    · refine ⟨_, t, hcheckpoint, ?_, ?_⟩
      · rw [hfold, hlist]
        rfl
      · have hm := hs.represents
        rw [hlist] at hm
        rw [hm.unique represents_nil]
        exact ht.ok
    · have hm := hs.represents
      rw [← append_nil (List.map _ _)] at hm
      obtain ⟨t', hloop, hok⟩ := resumeLoop_records hp hsame hal hall s s.list 0xffffffff ht.ok
        represents_nil hm hsave
      refine ⟨_, t', hcheckpoint, ?_, hok⟩
      rw [hfold]
      exact hloop

def exTwoGpus : Process :=
  { exProcess with gpuIds := [1, 2] }

def exFresh : Svms :=
  { heap := fun _ => svmRangeNew exProcess 0 0, next := 0, list := [], tree := [] }

theorem exProcess_ok : exProcess.Ok :=
  ⟨by decide, by decide⟩

theorem exTwoGpus_ok : exTwoGpus.Ok :=
  ⟨by decide, by decide⟩

theorem exSvms_saveable {p : Process} (hp : p.bitmapSupported = {0}) :
    ∀ id ∈ (exSvms 4 15).list, ((exSvms 4 15).heap id).Saveable p := by
  intro id hid
  obtain rfl : id = 0 := mem_singleton.mp hid
  refine ⟨rfl, ?_, Finset.empty_subset _, rfl, .inl rfl⟩
  rw [hp]
  exact Finset.Subset.refl _

/-- A range of a process with one GPU comes back. -/
theorem svm_roundTrips_exProcess :
    RoundTrips exProcess exProcess ⟨fun _ => true, fun _ => true⟩ (exSvms 4 15) exFresh
      (exMap 4 15) :=
  (svm_roundTrips_iff exProcess_ok ⟨rfl, rfl⟩ (fun _ => ⟨rfl, rfl⟩) (exSvms_ok (by decide))
    (exSvms_saveable rfl) ⟨rfl, rfl⟩).mpr (.inr (by decide))

/-- With the second GPU it does not. -/
theorem svm_roundTrips_fails_exTwoGpus : exTwoGpus.Ok ∧ (exSvms 4 15).Ok (exMap 4 15) ∧
    (∀ id ∈ (exSvms 4 15).list, ((exSvms 4 15).heap id).Saveable exTwoGpus) ∧ exFresh.Fresh ∧
    ¬RoundTrips exTwoGpus exTwoGpus ⟨fun _ => true, fun _ => true⟩ (exSvms 4 15) exFresh
      (exMap 4 15) := by
  have hok : (exSvms 4 15).Ok (exMap 4 15) := exSvms_ok (by decide)
  have hsave := exSvms_saveable (p := exTwoGpus) rfl
  refine ⟨exTwoGpus_ok, hok, hsave, ⟨rfl, rfl⟩, fun h => ?_⟩
  have hsupported := h.supported exTwoGpus_ok ⟨rfl, rfl⟩ hok hsave (cons_ne_nil _ _)
  exact absurd (hsupported 1 (by decide)) (by decide)

end RoundTrip

end Amdkfd.Svm
