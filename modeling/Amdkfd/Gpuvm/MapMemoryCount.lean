import Amdkfd.Gpuvm.MapMemory

/-!
# The attachments, the count and the trees agree
-/

namespace Amdkfd.MapMemory

open Lib List Option

/-! ## Setters -/

@[simp] theorem setVa_self (s : State) (v : Vm) (ms : List Mapping) : (s.setVa v ms).va v = ms := by
  simp [State.setVa]

theorem setVa_ne {s : State} {v w : Vm} (ms : List Mapping) (h : w ≠ v) :
    (s.setVa v ms).va w = s.va w := by
  simp [State.setVa, h]

theorem setVa_setVa (s : State) (v : Vm) (xs ys : List Mapping) :
    (s.setVa v xs).setVa v ys = s.setVa v ys := by
  simp only [State.setVa, State.mk.injEq, true_and, and_true]
  funext i
  split <;> simp [*]

@[simp] theorem setVa_va (s : State) (v : Vm) : s.setVa v (s.va v) = s := by
  obtain ⟨⟩ := s
  simp only [State.setVa, State.mk.injEq, true_and, and_true]
  funext i
  split <;> simp [*]

@[simp] theorem setSg_self (s : State) (b : Bo) (x : Bool) : (s.setSg b x).sg b = x := by
  simp [State.setSg]

theorem setSg_ne {s : State} {b c : Bo} (x : Bool) (h : c ≠ b) : (s.setSg b x).sg c = s.sg c := by
  simp [State.setSg, h]

/-! ## Addresses -/

/-- The address is one of those that `kfd_mem_attach` gives. -/
def Address (mem : KgdMem) (va : Nat) : Prop :=
  va = mem.va ∨ va = secondVa mem ∧ mem.aqlQueue = true

theorem Address.eq_of_page {mem : KgdMem} {x y : Nat} (hx : Address mem x) (hy : Address mem y)
    (h : x / pageSize = y / pageSize) : x = y := by
  have h1 := mem.va_lt
  have h2 := mem.size_pos
  have h3 := mem.size_lt
  have h4 := mem.size_pages
  simp only [pageSize] at h h4
  simp only [Address, secondVa] at hx hy
  omega

theorem Address.disjoint {mem : KgdMem} {v : Vm} {a b : Attachment} (ha : Address mem a.va)
    (hb : Address mem b.va) (hva : verifyParameters mem v a.va) (hvb : verifyParameters mem v b.va)
    (h : a.va ≠ b.va) : (mappingOf mem a).overlaps (mappingOf mem b) = false := by
  have h2 := mem.size_pos
  have h4 := mem.size_pages
  obtain ⟨hpa, -, hla, -⟩ := of_decide_eq_true hva
  obtain ⟨hpb, -, hlb, -⟩ := of_decide_eq_true hvb
  simp only [pageSize] at h4 hpa hpb
  simp only [Address, secondVa] at ha hb
  refine decide_eq_false ?_
  simp only [mappingOf, pageSize]
  omega

/-! ## The invariant -/

structure Inv (mem : KgdMem) (s : State) : Prop where
  address : ∀ a ∈ s.attachments, Address mem a.va
  nodup : s.attachments.Nodup
  distinct : ∀ a ∈ s.attachments, ∀ b ∈ s.attachments, a.vm = b.vm → a.va = b.va → a = b
  -- the trees hold the mappings of the attachments with `is_mapped`, once each
  tree : ∀ v, ∀ m ∈ s.va v, ∃ a ∈ s.attachments, a.vm = v ∧ a.isMapped = true ∧
    m = mappingOf mem a ∧ verifyParameters mem v a.va
  once : ∀ v, (s.va v).Nodup
  mapped : ∀ a ∈ s.attachments, a.isMapped = true → mappingOf mem a ∈ s.va a.vm
  count : s.mappedToGpuMemory = s.attachments.countP (·.isMapped)
  -- an attachment that does not share its BO has one of its own
  made : ∀ a ∈ s.attachments, a.type ≠ .shared → ∃ n, a.bo = .peer n
  single : ∀ a ∈ s.attachments, ∀ b ∈ s.attachments, a.type ≠ .shared → b.type ≠ .shared →
    a.bo = b.bo → a = b
  fresh : ∀ a ∈ s.attachments, ∀ n, a.bo = .peer n → n < s.nextBo
  sgFresh : ∀ n, s.sg (.peer n) = true → n < s.nextBo

namespace Inv

variable {mem : KgdMem} {s : State}

theorem init (mem : KgdMem) : Inv mem init where
  address _ h := absurd h not_mem_nil
  nodup := nodup_nil
  distinct _ h := absurd h not_mem_nil
  tree _ _ h := absurd h not_mem_nil
  once _ := nodup_nil
  mapped _ h := absurd h not_mem_nil
  count := rfl
  made _ h := absurd h not_mem_nil
  single _ h := absurd h not_mem_nil
  fresh _ h := absurd h not_mem_nil
  sgFresh _ h := absurd h Bool.false_ne_true

theorem isMapped_iff (h : Inv mem s) {a : Attachment} (ha : a ∈ s.attachments) :
    a.isMapped = true ↔ VaMapped s a := by
  constructor
  · intro hm
    exact ⟨mappingOf mem a, h.mapped a ha hm, rfl, rfl⟩
  · rintro ⟨m, hm, -, hstart⟩
    obtain ⟨b, hb, hv, hmap, rfl, -⟩ := h.tree a.vm m hm
    have hva := (h.address b hb).eq_of_page (h.address a ha) hstart
    rw [← h.distinct b hb a ha hv hva]
    exact hmap

theorem no_overlap (h : Inv mem s) {a : Attachment} (ha : a ∈ s.attachments)
    (hm : a.isMapped = false) (hv : verifyParameters mem a.vm a.va) :
    (s.va a.vm).any (·.overlaps (mappingOf mem a)) = false := by
  rw [List.any_eq_false]
  intro m hmem
  obtain ⟨b, hb, hbv, hbm, rfl, hvb⟩ := h.tree a.vm m hmem
  have hne : b.va ≠ a.va := by
    intro he
    rw [h.distinct b hb a ha hbv he, hm] at hbm
    exact absurd hbm Bool.false_ne_true
  rw [Address.disjoint (h.address b hb) (h.address a ha) hvb hv hne]
  exact Bool.false_ne_true

end Inv

/-! ## `map_bo_to_gpuvm` -/

def SgFrame (s : State) (a : Attachment) (f : Bo → Bool) : Prop :=
  ∀ b, f b ≠ s.sg b → a.type ≠ .shared ∧ b = a.bo

theorem sgFrame_refl (s : State) (a : Attachment) : SgFrame s a s.sg := fun _ hb => absurd rfl hb

variable {a : Attachment}

theorem sgFrame_setSg {s : State} (x : Bool) (ha : a.type ≠ .shared) :
    SgFrame s a (s.setSg a.bo x).sg := by
  intro b hb
  refine ⟨ha, ?_⟩
  by_contra hne
  exact hb (setSg_ne x hne)

theorem SgFrame.trans {s : State} {f g : Bo → Bool} (hf : SgFrame s a f)
    (hg : SgFrame { s with sg := f } a g) : SgFrame s a g := by
  intro b hb
  by_cases hfb : f b = s.sg b
  · exact hg b fun h => hb (h.trans hfb)
  · exact hf b hfb

theorem dmaunmapAttachment_frame (s : State) (a : Attachment) :
    ∃ f : Bo → Bool, dmaunmapAttachment s a = { s with sg := f } ∧ SgFrame s a f ∧
      (a.type = .sg → f a.bo = false) ∧ ∀ b, f b = true → s.sg b = true := by
  have hset : ∀ b, (s.setSg a.bo false).sg b = true → s.sg b = true := by
    intro b hb
    by_cases hba : b = a.bo
    · rw [hba, setSg_self] at hb
      exact absurd hb Bool.false_ne_true
    · rwa [setSg_ne false hba] at hb
  unfold dmaunmapAttachment
  split
  · next ha => exact ⟨s.sg, rfl, sgFrame_refl s a, fun h => by simp [ha] at h, fun _ hb => hb⟩
  · next ha =>
    exact ⟨_, rfl, sgFrame_setSg false (by simp [ha]), fun h => by simp [ha] at h, hset⟩
  · next ha => exact ⟨s.sg, rfl, sgFrame_refl s a, fun h => by simp [ha] at h, fun _ hb => hb⟩
  · next ha =>
    exact ⟨_, rfl, sgFrame_setSg false (by simp [ha]), fun _ => setSg_self s a.bo false, hset⟩

theorem dmamapAttachment_frame (s : State) (a : Attachment) (e : EntryEnv) :
    ∃ f : Bo → Bool, (dmamapAttachment s a e).1 = { s with sg := f } ∧ SgFrame s a f := by
  unfold dmamapAttachment
  split
  · exact ⟨s.sg, rfl, sgFrame_refl s a⟩
  · next ha => exact ⟨_, rfl, sgFrame_setSg _ (by simp [ha])⟩
  · exact ⟨s.sg, rfl, sgFrame_refl s a⟩
  · next ha =>
    split
    · exact ⟨s.sg, rfl, sgFrame_refl s a⟩
    · exact ⟨_, rfl, sgFrame_setSg _ (by simp [ha])⟩

theorem unmapBoFromGpuvm_setVa (mem : KgdMem) (s : State) (a : Attachment) (f : Bo → Bool) :
    unmapBoFromGpuvm { s.setVa a.vm (mappingOf mem a :: s.va a.vm) with sg := f } a =
      { s with sg := f } := by
  have herase : (mappingOf mem a :: s.va a.vm).eraseP
      (fun m => m.bo = a.bo ∧ m.start = a.va / pageSize) = s.va a.vm :=
    eraseP_cons_of_pos (by simp [mappingOf])
  have hva : (s.setVa a.vm (mappingOf mem a :: s.va a.vm)).va a.vm =
      mappingOf mem a :: s.va a.vm := setVa_self s a.vm _
  unfold unmapBoFromGpuvm
  simp only [hva, herase]
  change { (s.setVa a.vm (mappingOf mem a :: s.va a.vm)).setVa a.vm (s.va a.vm) with sg := f } = _
  rw [setVa_setVa, setVa_va]

variable {mem : KgdMem} {e : EntryEnv}

theorem vmBoMap_ok {s s' : State} (h : vmBoMap mem s a e = .ok s') :
    verifyParameters mem a.vm a.va ∧ s' = s.setVa a.vm (mappingOf mem a :: s.va a.vm) := by
  unfold vmBoMap at h
  split at h
  · cases h
  · next hv =>
    split at h
    · cases h
    · split at h
      · cases h
      · exact ⟨not_not.mp hv, (Except.ok.inj h).symm⟩

theorem mapBoToGpuvm_error {s s' : State} {noUpdatePte : Bool} {err : Errno}
    (h : mapBoToGpuvm mem s a e noUpdatePte = (s', some err)) :
    ∃ f : Bo → Bool, s' = { s with sg := f } ∧ SgFrame s a f ∧
      (a.type = .sg → s.sg a.bo = false → f a.bo = false) := by
  unfold mapBoToGpuvm at h
  split at h
  · obtain ⟨rfl, -⟩ := Prod.mk.inj h
    exact ⟨s.sg, rfl, sgFrame_refl s a, fun _ hs => hs⟩
  · next s1 hmap =>
    obtain ⟨-, rfl⟩ := vmBoMap_ok hmap
    split at h
    · exact absurd (Prod.mk.inj h).2 (some_ne_none err).symm
    · split at h
      · exact absurd (Prod.mk.inj h).2 (some_ne_none err).symm
      · next s2 _ hup =>
        obtain ⟨rfl, -⟩ := Prod.mk.inj h
        have hs2 : ∃ f : Bo → Bool,
            s2 = { s.setVa a.vm (mappingOf mem a :: s.va a.vm) with sg := f } ∧ SgFrame s a f := by
          obtain ⟨f, hf, hframe⟩ := dmamapAttachment_frame
            (s.setVa a.vm (mappingOf mem a :: s.va a.vm)) a e
          refine ⟨f, ?_, hframe⟩
          unfold updateGpuvmPte at hup
          split at hup
          · next hd => rw [← (Prod.mk.inj hup).1, ← hf, hd]
          · next hd => rw [← (Prod.mk.inj hup).1, ← hf, hd]
        obtain ⟨f, rfl, hf⟩ := hs2
        rw [unmapBoFromGpuvm_setVa]
        obtain ⟨g, hg, hgf, hgs, -⟩ := dmaunmapAttachment_frame { s with sg := f } a
        rw [hg]
        exact ⟨g, rfl, hf.trans hgf, fun ht _ => hgs ht⟩

theorem mapBoToGpuvm_ok {s s' : State} {noUpdatePte : Bool}
    (h : mapBoToGpuvm mem s a e noUpdatePte = (s', none)) :
    verifyParameters mem a.vm a.va ∧ ∃ f : Bo → Bool,
      s' = { s.setVa a.vm (mappingOf mem a :: s.va a.vm) with sg := f } ∧ SgFrame s a f := by
  unfold mapBoToGpuvm at h
  split at h
  · exact absurd (Prod.mk.inj h).2 (some_ne_none _)
  · next s1 hmap =>
    obtain ⟨hv, rfl⟩ := vmBoMap_ok hmap
    refine ⟨hv, ?_⟩
    split at h
    · obtain ⟨rfl, -⟩ := Prod.mk.inj h
      exact ⟨s.sg, rfl, sgFrame_refl s a⟩
    · split at h
      · next s2 hup =>
        obtain ⟨rfl, -⟩ := Prod.mk.inj h
        obtain ⟨f, hf, hframe⟩ := dmamapAttachment_frame
          (s.setVa a.vm (mappingOf mem a :: s.va a.vm)) a e
        refine ⟨f, ?_, hframe⟩
        unfold updateGpuvmPte at hup
        split at hup
        · exact absurd (Prod.mk.inj hup).2 (some_ne_none _)
        · next hd => rw [← (Prod.mk.inj hup).1, ← hf, hd]
      · exact absurd (Prod.mk.inj h).2 (some_ne_none _)

/-! ## Setting `is_mapped` -/

def mark (a : Attachment) (x : Bool) (b : Attachment) : Attachment :=
  if b = a then { b with isMapped := x } else b

theorem mark_keeps (a : Attachment) (x : Bool) (b : Attachment) :
    (mark a x b).vm = b.vm ∧ (mark a x b).va = b.va ∧ (mark a x b).type = b.type ∧
      (mark a x b).bo = b.bo := by
  unfold mark
  split <;> exact ⟨rfl, rfl, rfl, rfl⟩

theorem mark_self (a : Attachment) (x : Bool) : mark a x a = { a with isMapped := x } :=
  if_pos rfl

theorem mark_ne {a b : Attachment} (x : Bool) (h : b ≠ a) : mark a x b = b := if_neg h

theorem mappingOf_mark (mem : KgdMem) (a : Attachment) (x : Bool) (b : Attachment) :
    mappingOf mem (mark a x b) = mappingOf mem b := by
  obtain ⟨-, hva, -, hbo⟩ := mark_keeps a x b
  simp only [mappingOf, hva, hbo]

theorem countP_mark {l : List Attachment} (x : Bool) (hn : l.Nodup) (ha : a ∈ l) :
    (l.map (mark a x)).countP (·.isMapped) + a.isMapped.toNat =
      l.countP (·.isMapped) + x.toNat := by
  induction l with
  | nil => exact absurd ha not_mem_nil
  | cons c l ih =>
    obtain ⟨hc, hn⟩ := nodup_cons.mp hn
    rw [map_cons, countP_cons, countP_cons]
    by_cases hca : c = a
    · subst hca
      have hid : l.map (mark c x) = l := by
        refine (map_congr_left fun b hb => ?_).trans (map_id l)
        exact mark_ne x fun he => hc (he ▸ hb)
      rw [hid, mark_self]
      cases hm : c.isMapped <;> cases x <;> simp
    · have hal : a ∈ l := (mem_cons.mp ha).resolve_left fun he => hca he.symm
      have := ih hn hal
      rw [mark_ne x hca]
      omega

theorem eraseP_eq_erase {p : Mapping → Bool} {x : Mapping} {l : List Mapping}
    (h : ∀ m ∈ l, p m = (m == x)) : l.eraseP p = l.erase x := by
  induction l with
  | nil => rfl
  | cons m l ih =>
    rw [eraseP_cons, erase_cons, h m mem_cons_self,
      ih fun k hk => h k (mem_cons_of_mem _ hk)]
    cases m == x <;> rfl

namespace Inv

variable {mem : KgdMem} {s : State}

theorem mark_inj (h : Inv mem s) (a : Attachment) (x : Bool) {b c : Attachment}
    (hb : b ∈ s.attachments) (hc : c ∈ s.attachments)
    (hv : (mark a x b).vm = (mark a x c).vm) (hva : (mark a x b).va = (mark a x c).va) : b = c := by
  rw [(mark_keeps a x b).1, (mark_keeps a x c).1] at hv
  rw [(mark_keeps a x b).2.1, (mark_keeps a x c).2.1] at hva
  exact h.distinct b hb c hc hv hva

variable {a : Attachment} {f : Bo → Bool}

section
variable (h : Inv mem s)
include h

/-- The names of the attachments do not depend on `is_mapped`; what is left to show is that the
trees and the count go with it. -/
theorem setMapped {x : Bool} {t : Vm → List Mapping} {n : Nat}
    (hf : ∀ n, f (.peer n) = true → n < s.nextBo)
    (htree : ∀ v, ∀ m ∈ t v, ∃ b ∈ s.attachments, b.vm = v ∧ (mark a x b).isMapped = true ∧ m = mappingOf mem b ∧ verifyParameters mem v b.va)
    (honce : ∀ v, (t v).Nodup)
    (hmapped : ∀ b ∈ s.attachments, (mark a x b).isMapped = true → mappingOf mem b ∈ t b.vm)
    (hcount : n = (s.attachments.map (mark a x)).countP (·.isMapped)) :
    Inv mem { s with
      attachments := s.attachments.map (mark a x), va := t, mappedToGpuMemory := n, sg := f } where
  address b' hb' := by
    obtain ⟨b, hb, rfl⟩ := mem_map.mp hb'
    rw [(mark_keeps a x b).2.1]
    exact h.address b hb
  nodup := h.nodup.map_on fun b hb c hc he =>
    h.mark_inj a x hb hc (congrArg _ he) (congrArg _ he)
  distinct b' hb' c' hc' hv hva := by
    obtain ⟨b, hb, rfl⟩ := mem_map.mp hb'
    obtain ⟨c, hc, rfl⟩ := mem_map.mp hc'
    rw [h.mark_inj a x hb hc hv hva]
  tree v m hm := by
    obtain ⟨b, hb, hv, hmap, rfl, hver⟩ := htree v m hm
    refine ⟨mark a x b, mem_map_of_mem hb, ?_, hmap, (mappingOf_mark mem a x b).symm, ?_⟩
    · rw [(mark_keeps a x b).1, hv]
    · rw [(mark_keeps a x b).2.1]
      exact hver
  once := honce
  mapped b' hb' hmap := by
    obtain ⟨b, hb, rfl⟩ := mem_map.mp hb'
    rw [mappingOf_mark, (mark_keeps a x b).1]
    exact hmapped b hb hmap
  count := hcount
  made b' hb' ht := by
    obtain ⟨b, hb, rfl⟩ := mem_map.mp hb'
    obtain ⟨-, -, htype, hbo⟩ := mark_keeps a x b
    rw [htype] at ht
    rw [hbo]
    exact h.made b hb ht
  single b' hb' c' hc' htb htc hbo := by
    obtain ⟨b, hb, rfl⟩ := mem_map.mp hb'
    obtain ⟨c, hc, rfl⟩ := mem_map.mp hc'
    rw [(mark_keeps a x b).2.2.1] at htb
    rw [(mark_keeps a x c).2.2.1] at htc
    rw [(mark_keeps a x b).2.2.2, (mark_keeps a x c).2.2.2] at hbo
    rw [h.single b hb c hc htb htc hbo]
  fresh b' hb' k hk := by
    obtain ⟨b, hb, rfl⟩ := mem_map.mp hb'
    rw [(mark_keeps a x b).2.2.2] at hk
    exact h.fresh b hb k hk
  sgFresh := hf

theorem sgFresh_of_frame (ha : a ∈ s.attachments) (hf : SgFrame s a f) (n : Nat)
    (hn : f (.peer n) = true) : n < s.nextBo := by
  by_cases hsame : f (.peer n) = s.sg (.peer n)
  · exact h.sgFresh n (hsame.symm.trans hn)
  · exact h.fresh a ha n (hf _ hsame).2.symm

/-- In the tree of its VM, `a` alone comes or goes. -/
theorem setTree (ha : a ∈ s.attachments) {x : Bool} {l : List Mapping} {n : Nat}
    (hf : ∀ n, f (.peer n) = true → n < s.nextBo)
    (hl : ∀ m, m ∈ l ↔ m = mappingOf mem a ∧ x = true ∨ m ≠ mappingOf mem a ∧ m ∈ s.va a.vm)
    (honce : l.Nodup) (hver : x = true → verifyParameters mem a.vm a.va)
    (hcount : n = (s.attachments.map (mark a x)).countP (·.isMapped)) :
    Inv mem { s with
      attachments := s.attachments.map (mark a x), va := (s.setVa a.vm l).va
      mappedToGpuMemory := n, sg := f } := by
  refine h.setMapped hf (fun v m hmem => ?_) (fun v => ?_) (fun b hb hbm => ?_) hcount
  · have hother (hmem : m ∈ s.va v) (hne : v = a.vm → m ≠ mappingOf mem a) :
        ∃ b ∈ s.attachments, b.vm = v ∧ (mark a x b).isMapped = true ∧
          m = mappingOf mem b ∧ verifyParameters mem v b.va := by
      obtain ⟨b, hb, hbv, hbm, rfl, hver⟩ := h.tree v m hmem
      have hba : b ≠ a := fun he => hne (hbv.symm.trans (congrArg _ he)) (congrArg _ he)
      exact ⟨b, hb, hbv, by rw [mark_ne x hba]; exact hbm, rfl, hver⟩
    by_cases hva : v = a.vm
    · subst hva
      rw [setVa_self] at hmem
      rcases (hl m).mp hmem with ⟨rfl, rfl⟩ | ⟨hne, hmem⟩
      · exact ⟨a, ha, rfl, by rw [mark_self], rfl, hver rfl⟩
      · exact hother hmem fun _ => hne
    · rw [setVa_ne _ hva] at hmem
      exact hother hmem fun he => absurd he hva
  · by_cases hva : v = a.vm
    · subst hva
      rwa [setVa_self]
    · rw [setVa_ne _ hva]
      exact h.once v
  · by_cases hba : b = a
    · rw [hba, mark_self] at hbm
      rw [hba, setVa_self]
      exact (hl _).mpr (.inl ⟨rfl, hbm⟩)
    · rw [mark_ne x hba] at hbm
      have hmem := h.mapped b hb hbm
      by_cases hva : b.vm = a.vm
      · rw [hva, setVa_self]
        refine (hl _).mpr (.inr ⟨fun he => hba ?_, hva ▸ hmem⟩)
        exact h.distinct b hb a ha hva ((h.address b hb).eq_of_page (h.address a ha)
          (congrArg Mapping.start he))
      · rwa [setVa_ne _ hva]

theorem mapAttachment (ha : a ∈ s.attachments) (hm : a.isMapped = false)
    (hv : verifyParameters mem a.vm a.va) (hf : SgFrame s a f) :
    Inv mem { (s.setVa a.vm (mappingOf mem a :: s.va a.vm)).setMapped a true with
      sg := f, mappedToGpuMemory := s.mappedToGpuMemory + 1 } := by
  have hnew : mappingOf mem a ∉ s.va a.vm := by
    intro hmem
    have hno := List.any_eq_false.mp (h.no_overlap ha hm hv) _ hmem
    exact hno (by simp [Mapping.overlaps, mappingOf])
  refine h.setTree ha (x := true) (h.sgFresh_of_frame ha hf) (fun m => ?_)
    (nodup_cons.mpr ⟨hnew, h.once _⟩) (fun _ => hv) ?_
  · rw [mem_cons]
    refine or_congr (and_iff_left rfl).symm ⟨fun hmem => ⟨?_, hmem⟩, And.right⟩
    rintro rfl
    exact hnew hmem
  · have := countP_mark true h.nodup ha
    rw [hm] at this
    rw [h.count]
    exact this.symm

theorem mem_unmapped (ha : a ∈ s.attachments) {m : Mapping} :
    m ∈ (s.va a.vm).eraseP (fun m => m.bo = a.bo ∧ m.start = a.va / pageSize) ↔
      m ≠ mappingOf mem a ∧ m ∈ s.va a.vm := by
  have hp : ∀ m ∈ s.va a.vm, decide (m.bo = a.bo ∧ m.start = a.va / pageSize) =
      (m == mappingOf mem a) := by
    intro m hm
    obtain ⟨b, hb, hbv, -, rfl, -⟩ := h.tree _ m hm
    rw [Bool.eq_iff_iff, decide_eq_true_eq, beq_iff_eq]
    constructor
    · rintro ⟨-, hstart⟩
      have hva := (h.address b hb).eq_of_page (h.address a ha) hstart
      rw [h.distinct b hb a ha hbv hva]
    · intro he
      rw [he]
      exact ⟨rfl, rfl⟩
  rw [eraseP_eq_erase hp]
  exact (h.once _).mem_erase_iff

theorem unmapEntry (ha : a ∈ s.attachments) (hm : a.isMapped = true) :
    Inv mem (unmapEntry s a) := by
  refine h.setTree ha (x := false) h.sgFresh (fun m => ?_)
    ((h.once _).sublist eraseP_sublist) nofun ?_
  · rw [h.mem_unmapped ha]
    exact ⟨.inr, fun hor => hor.resolve_left nofun⟩
  · have hc := countP_mark false h.nodup ha
    rw [hm] at hc
    change s.mappedToGpuMemory - 1 = _
    rw [h.count]
    simp only [Bool.toNat_true, Bool.toNat_false] at hc
    omega

end

end Inv

/-! ## The loop over the attachments -/

section
variable {mem : KgdMem} {s : State} {v : Vm} {noUpdatePte : Bool}

variable {a : Attachment}

/-- Nothing in the surroundings keeps the entry from `vm_update_pds`. -/
def EntryEnv.Maps (e : EntryEnv) (noUpdatePte : Bool) : Prop :=
  e.conflict = false ∧ e.noMemory = false ∧
    (noUpdatePte = true ∨ e.boUpdate = none ∧ e.syncFence = none)

theorem maps_of_mapBoToGpuvm {e : EntryEnv} {s' : State}
    (h : mapBoToGpuvm mem s a e noUpdatePte = (s', none)) : e.Maps noUpdatePte := by
  unfold mapBoToGpuvm at h
  split at h
  · exact absurd (Prod.mk.inj h).2 (some_ne_none _)
  · next s1 hmap =>
    have hadd : e.conflict = false ∧ e.noMemory = false := by
      unfold vmBoMap at hmap
      grind
    refine ⟨hadd.1, hadd.2, ?_⟩
    split at h
    · next hno => exact .inl hno
    · split at h
      · next hup =>
        unfold updateGpuvmPte at hup
        split at hup
        · exact absurd (Prod.mk.inj hup).2 (some_ne_none _)
        · exact .inr (by simpa using (Prod.mk.inj hup).2)
      · exact absurd (Prod.mk.inj h).2 (some_ne_none _)

theorem mapEntry_error (h : Inv mem s) (ha : a ∈ s.attachments) {e : EntryEnv}
    (hpds : e.Maps noUpdatePte → e.updatePds = none) {s' : State} {err : Errno}
    (he : mapEntry mem s a e noUpdatePte = (s', some err)) :
    Inv mem s' ∧ s'.attachments = s.attachments ∧ (SgClean s v → SgClean s' v) := by
  have herr : mapBoToGpuvm mem s a e noUpdatePte = (s', some err) := by
    unfold mapEntry at he
    split at he
    · next hmap => rw [hmap, he]
    · next hmap =>
      rw [hpds (maps_of_mapBoToGpuvm hmap)] at he
      exact absurd (Prod.mk.inj he).2 (some_ne_none err).symm
  obtain ⟨f, rfl, hf, hfa⟩ := mapBoToGpuvm_error herr
  refine ⟨{ h with sgFresh := h.sgFresh_of_frame ha hf }, rfl, fun hclean b hb hv hm ht => ?_⟩
  have hsb := hclean b hb hv hm ht
  by_cases hsame : f b.bo = s.sg b.bo
  · exact hsame.trans hsb
  · obtain ⟨hta, hbo⟩ := hf b.bo hsame
    obtain rfl := h.single b hb a ha (by rw [ht]; decide) hta hbo
    exact hfa ht hsb

theorem mapEntry_ok (h : Inv mem s) (ha : a ∈ s.attachments) (hm : a.isMapped = false)
    {e : EntryEnv} {s' : State} (he : mapEntry mem s a e noUpdatePte = (s', none)) :
    Inv mem s' ∧ s'.attachments = s.attachments.map (mark a true) ∧
      (SgClean s v → SgClean s' v) := by
  obtain ⟨s1, hmap, hs'⟩ : ∃ s1, mapBoToGpuvm mem s a e noUpdatePte = (s1, none) ∧
      { s1.setMapped a true with mappedToGpuMemory := s1.mappedToGpuMemory + 1 } = s' := by
    unfold mapEntry at he
    split at he
    · exact absurd (Prod.mk.inj he).2 (some_ne_none _)
    · next s1 hmap =>
      split at he
      · exact absurd (Prod.mk.inj he).2 (some_ne_none _)
      · exact ⟨s1, hmap, (Prod.mk.inj he).1⟩
  obtain ⟨hv, f, rfl, hf⟩ := mapBoToGpuvm_ok hmap
  subst hs'
  refine ⟨h.mapAttachment ha hm hv hf, rfl, fun hclean b' hb' hbv hbm hbt => ?_⟩
  obtain ⟨b, hb, rfl⟩ := mem_map.mp hb'
  change (mark a true b).vm = v at hbv
  change (mark a true b).isMapped = false at hbm
  change (mark a true b).type = .sg at hbt
  change f (mark a true b).bo = false
  have hba : b ≠ a := by
    rintro rfl
    rw [mark_self] at hbm
    exact Bool.noConfusion hbm
  rw [mark_ne true hba] at hbv hbm hbt ⊢
  by_cases hsame : f b.bo = s.sg b.bo
  · exact hsame.trans (hclean b hb hbv hbm hbt)
  · obtain ⟨hta, hbo⟩ := hf b.bo hsame
    exact absurd (h.single b hb a ha (by rw [hbt]; decide) hta hbo) hba

theorem mem_of_mark {as l : List Attachment} (hn : (a :: as).Nodup) (hl : ∀ b ∈ a :: as, b ∈ l) :
    ∀ b ∈ as, b ∈ l.map (mark a true) := by
  intro b hb
  have hba : b ≠ a := fun he => (nodup_cons.mp hn).1 (he ▸ hb)
  rw [← mark_ne true hba]
  exact mem_map_of_mem (hl b (mem_cons_of_mem _ hb))

theorem mapEntry_clean (h : Inv mem s) (ha : a ∈ s.attachments) (hm : a.isMapped = false)
    (hv : verifyParameters mem a.vm a.va) (hsg : a.type = .sg → s.sg a.bo = false) :
    (mapEntry mem s a {} noUpdatePte).2 = none := by
  have hmap : vmBoMap mem s a {} = .ok (s.setVa a.vm (mappingOf mem a :: s.va a.vm)) := by
    unfold vmBoMap
    rw [if_neg (not_not.mpr hv), h.no_overlap ha hm hv]
    rfl
  have hupdate : (updateGpuvmPte (s.setVa a.vm (mappingOf mem a :: s.va a.vm)) a {}).2 = none := by
    have hdma : (dmamapAttachment (s.setVa a.vm (mappingOf mem a :: s.va a.vm)) a {}).2 = none := by
      unfold dmamapAttachment
      split
      · rfl
      · rfl
      · rfl
      · next ht =>
        have hbo : (s.setVa a.vm (mappingOf mem a :: s.va a.vm)).sg a.bo = false := hsg ht
        rw [hbo]
        rfl
    unfold updateGpuvmPte
    split
    · next hd => rw [hd] at hdma; exact hdma
    · rfl
  have hbo : (mapBoToGpuvm mem s a {} noUpdatePte).2 = none := by
    simp only [mapBoToGpuvm, hmap]
    split
    · rfl
    · split
      · rfl
      · next hup => rw [hup] at hupdate; exact absurd hupdate (some_ne_none _)
  unfold mapEntry
  split
  · next hb => rw [hb] at hbo; exact hbo
  · rfl

/-- The loop keeps the invariant, and without an error of its surroundings it has none. -/
theorem mapEntries_keeps {e : Nat → EntryEnv}
    (hpds : ∀ k, (e k).Maps noUpdatePte → (e k).updatePds = none) :
    ∀ (as : List Attachment) (s : State) (k : Nat), Inv mem s → SgClean s v → as.Nodup →
      (∀ a ∈ as, a ∈ s.attachments) →
      Inv mem (mapEntries mem v e noUpdatePte s k as).1 ∧
        SgClean (mapEntries mem v e noUpdatePte s k as).1 v ∧
        ((∀ k, e k = {}) → (∀ va, Address mem va → verifyParameters mem v va) →
          (mapEntries mem v e noUpdatePte s k as).2 = none) := by
  intro as
  induction as with
  | nil => exact fun s k h hclean _ _ => ⟨h, hclean, fun _ _ => rfl⟩
  | cons a as ih =>
    intro s k h hclean hn hl
    unfold mapEntries
    split
    · exact ih s k h hclean (nodup_cons.mp hn).2 fun b hb => hl b (mem_cons_of_mem _ hb)
    · next hskip =>
      have ha := hl a mem_cons_self
      have hm : a.isMapped = false := Bool.eq_false_of_not_eq_true fun hm => hskip (.inr hm)
      have hav : a.vm = v := not_not.mp fun hne => hskip (.inl hne)
      split
      · next hentry =>
        obtain ⟨hinv, -, hsg⟩ := mapEntry_error h ha (hpds k) hentry
        refine ⟨hinv, hsg hclean, fun he hv => ?_⟩
        have hok : (mapEntry mem s a (e k) noUpdatePte).2 = none := by
          rw [he k]
          exact mapEntry_clean h ha hm (hav ▸ hv a.va (h.address a ha)) (hclean a ha hav hm)
        rw [hentry] at hok
        exact hok
      · next s' hentry =>
        obtain ⟨hinv, hatt, hsg⟩ := mapEntry_ok h ha hm hentry
        refine ih s' (k + 1) hinv (hsg hclean) (nodup_cons.mp hn).2 ?_
        rw [hatt]
        exact mem_of_mark hn hl

end

/-! ## Attaching -/

theorem va_ne_secondVa (mem : KgdMem) : mem.va ≠ secondVa mem := by
  have h1 := mem.va_lt
  have h2 := mem.size_pos
  have h3 := mem.size_lt
  unfold secondVa
  omega

section
variable {mem : KgdMem} {s : State} {v : Vm}

theorem attachmentType_bo {second : Bool} {t : AttType}
    (h : attachmentType mem v second = .ok t) :
    (t = .shared ∧ (sharesOwn mem v = true ∨ second = true)) ∨
      (t ≠ .shared ∧ sharesOwn mem v = false ∧ second = false) := by
  unfold attachmentType at h
  split at h
  · next hs => exact .inl ⟨(Except.ok.inj h).symm, .inl hs⟩
  · next hs =>
    split at h
    · next h2 => exact .inl ⟨(Except.ok.inj h).symm, .inr h2⟩
    · next h2 =>
      have hs := Bool.eq_false_of_not_eq_true hs
      have h2 := Bool.eq_false_of_not_eq_true h2
      split at h
      · exact .inr ⟨by rw [← Except.ok.inj h]; decide, hs, h2⟩
      · split at h
        · exact .inr ⟨by rw [← Except.ok.inj h]; decide, hs, h2⟩
        · split at h
          · exact .inr ⟨by rw [← Except.ok.inj h]; decide, hs, h2⟩
          · cases h

/-- The attachment that one turn of the loop adds. -/
structure Added (s : State) (v : Vm) (va : Nat) (s' : State) (a : Attachment) : Prop where
  vm : a.vm = v
  addr : a.va = va
  isMapped : a.isMapped = false
  attachments : s'.attachments = a :: s.attachments
  count : s'.mappedToGpuMemory = s.mappedToGpuMemory
  trees : s'.va = s.va
  sg : s'.sg = s.sg
  nextBo : s.nextBo ≤ s'.nextBo
  made : a.type ≠ .shared → a.bo = .peer s.nextBo
  fresh : ∀ n, a.bo = .peer n → n < s'.nextBo

theorem attachEntry_ok {va : Nat} {first : Option Bo} {e : AttachEnv} {s' : State}
    {a : Attachment} (hfirst : ∀ b ∈ first, ∀ n, b = .peer n → n < s.nextBo)
    (h : attachEntry mem s v va first e = .ok (s', a)) : Added s v va s' a := by
  unfold attachEntry at h
  split at h
  · cases h
  · split at h
    · cases h
    · next t ht =>
      dsimp only at h
      split at h
      · cases h
      · cases h
      · split at h
        · cases h
        · obtain ⟨rfl, rfl⟩ := Prod.mk.inj (Except.ok.inj h)
          refine ⟨rfl, rfl, rfl, rfl, rfl, rfl, rfl, ?_, ?_, ?_⟩
          · change s.nextBo ≤ if _ then _ else _
            split
            · exact Nat.le_succ _
            · exact Nat.le_refl _
          · intro hmade
            obtain ⟨hs, -⟩ | ⟨-, hs, h2⟩ := attachmentType_bo ht
            · exact absurd hs hmade
            · have hnone : first = none := not_isSome_iff_eq_none.mp (by rw [h2]; decide)
              simp [attachBo, hs, hnone]
          · intro n hn
            change (if sharesOwn mem v then Bo.own else first.getD (.peer s.nextBo)) = .peer n at hn
            change n < if _ then _ else _
            obtain ⟨hs, hshare⟩ | ⟨hm, hs, h2⟩ := attachmentType_bo ht
            · rw [if_neg (not_not.mpr hs)]
              split at hn
              · cases hn
              · next hno =>
                obtain ⟨b, hb⟩ := isSome_iff_exists.mp (hshare.resolve_left hno)
                rw [hb] at hn
                exact hfirst b hb n hn
            · have hnone : first = none := not_isSome_iff_eq_none.mp (by rw [h2]; decide)
              rw [hs, if_neg Bool.false_ne_true, hnone] at hn
              rw [if_pos hm, ← Bo.peer.inj hn]
              exact Nat.lt_succ_self _

namespace Inv

variable {va : Nat} {s' : State}

variable {a : Attachment}

section
variable (h : Inv mem s)
include h

theorem added (had : Added s v va s' a) (hva : Address mem va)
    (hnew : ∀ b ∈ s.attachments, b.vm = v → b.va ≠ va) : Inv mem s' where
  address b hb := by
    rw [had.attachments] at hb
    rcases mem_cons.mp hb with rfl | hb
    · rw [had.addr]
      exact hva
    · exact h.address b hb
  nodup := by
    rw [had.attachments]
    exact nodup_cons.mpr ⟨fun ha => hnew a ha had.vm had.addr, h.nodup⟩
  distinct b hb c hc hv hbc := by
    rw [had.attachments] at hb hc
    rcases mem_cons.mp hb with rfl | oldb <;> rcases mem_cons.mp hc with rfl | oldc
    · rfl
    · exact absurd (hbc.symm.trans had.addr) (hnew c oldc (hv.symm.trans had.vm))
    · exact absurd (hbc.trans had.addr) (hnew b oldb (hv.trans had.vm))
    · exact h.distinct b oldb c oldc hv hbc
  tree w m hm := by
    rw [had.trees] at hm
    obtain ⟨b, hb, hrest⟩ := h.tree w m hm
    rw [had.attachments]
    exact ⟨b, mem_cons_of_mem _ hb, hrest⟩
  once w := by
    rw [had.trees]
    exact h.once w
  mapped b hb hm := by
    rw [had.attachments] at hb
    rw [had.trees]
    rcases mem_cons.mp hb with rfl | hb
    · rw [had.isMapped] at hm
      exact absurd hm Bool.false_ne_true
    · exact h.mapped b hb hm
  count := by
    rw [had.count, had.attachments, countP_cons_of_neg, h.count]
    rw [had.isMapped]
    exact Bool.false_ne_true
  made b hb ht := by
    rw [had.attachments] at hb
    rcases mem_cons.mp hb with rfl | hb
    · exact ⟨_, had.made ht⟩
    · exact h.made b hb ht
  single b hb c hc htb htc hbc := by
    rw [had.attachments] at hb hc
    rcases mem_cons.mp hb with rfl | oldb <;> rcases mem_cons.mp hc with rfl | oldc
    · rfl
    · exact absurd (h.fresh c oldc _ (hbc.symm.trans (had.made htb))) (Nat.lt_irrefl _)
    · exact absurd (h.fresh b oldb _ (hbc.trans (had.made htc))) (Nat.lt_irrefl _)
    · exact h.single b oldb c oldc htb htc hbc
  fresh b hb n hn := by
    rw [had.attachments] at hb
    rcases mem_cons.mp hb with rfl | hb
    · exact had.fresh n hn
    · exact (h.fresh b hb n hn).trans_le had.nextBo
  sgFresh n hn := by
    rw [had.sg] at hn
    exact (h.sgFresh n hn).trans_le had.nextBo

theorem sgClean_added {w : Vm} (had : Added s v va s' a) (hclean : SgClean s w) : SgClean s' w := by
  intro b hb hv hm ht
  rw [had.attachments] at hb
  rw [had.sg]
  rcases mem_cons.mp hb with rfl | hb
  · rw [had.made (by rw [ht]; decide)]
    exact Bool.eq_false_of_not_eq_true fun hsg => Nat.lt_irrefl _ (h.sgFresh _ hsg)
  · exact hclean b hb hv hm ht

theorem of_fields (ha : s'.attachments = s.attachments)
    (hc : s'.mappedToGpuMemory = s.mappedToGpuMemory) (hv : s'.va = s.va) (hs : s'.sg = s.sg)
    (hn : s.nextBo ≤ s'.nextBo) : Inv mem s' where
  address := ha ▸ h.address
  nodup := ha ▸ h.nodup
  distinct := ha ▸ h.distinct
  tree := by rw [ha, hv]; exact h.tree
  once := hv ▸ h.once
  mapped := by rw [ha, hv]; exact h.mapped
  count := by rw [ha, hc]; exact h.count
  made := ha ▸ h.made
  single := ha ▸ h.single
  fresh b hb n hbn := (h.fresh b (ha ▸ hb) n hbn).trans_le hn
  sgFresh n hsg := (h.sgFresh n (hs ▸ hsg)).trans_le hn

theorem unwindEntry (had : Added s v va s' a) (hnone : ∀ b ∈ s.attachments, b.vm ≠ v) :
    Inv mem (unwindEntry s' a) ∧ (unwindEntry s' a).attachments = s.attachments := by
  have hempty : s.va v = [] := by
    refine eq_nil_iff_forall_not_mem.mpr fun m hm => ?_
    obtain ⟨b, hb, hv, -⟩ := h.tree v m hm
    exact hnone b hb hv
  have hatt : s'.attachments.erase a = s.attachments := by
    rw [had.attachments, erase_cons_head]
  have hdel : ∀ (t : State) b, t.va = s.va → (vmBoDel t a.vm b).va = s.va := by
    intro t b ht
    funext w
    change (if w = a.vm then (t.va a.vm).filter _ else t.va w) = s.va w
    rw [had.vm, ht]
    split
    · next hw => rw [hw, hempty]; rfl
    · rfl
  unfold MapMemory.unwindEntry
  dsimp only
  split
  · exact ⟨h.of_fields hatt had.count (hdel _ _ had.trees) had.sg had.nextBo, hatt⟩
  · exact ⟨h.of_fields hatt had.count had.trees had.sg had.nextBo, hatt⟩

theorem kfdMemAttach (hnone : ∀ b ∈ s.attachments, b.vm ≠ v) (e : Nat → AttachEnv) :
    Inv mem (kfdMemAttach mem s v e).1 ∧ SgClean (kfdMemAttach mem s v e).1 v := by
  have hclean : SgClean s v := fun b hb hv => absurd hv (hnone b hb)
  have hfirst : ∀ b ∈ (none : Option Bo), ∀ n, b = .peer n → n < s.nextBo := fun b hb => nomatch hb
  unfold MapMemory.kfdMemAttach
  split
  · exact ⟨h, hclean⟩
  · split
    · exact ⟨h, hclean⟩
    · split
      · exact ⟨h, hclean⟩
      · next s1 a hentry =>
        have had := attachEntry_ok hfirst hentry
        have h1 := h.added had (.inl rfl) fun b hb hv => absurd hv (hnone b hb)
        have hclean1 := h.sgClean_added had hclean
        split
        · next haql =>
          split
          · obtain ⟨hinv, hatt⟩ := h.unwindEntry had hnone
            exact ⟨hinv, fun b hb hv => absurd hv (hnone b (hatt ▸ hb))⟩
          · next s2 b hentry2 =>
            have had2 := attachEntry_ok (fun c hc n hn => had.fresh n (by
              rw [← hn]; exact (mem_some_iff.mp hc))) hentry2
            refine ⟨h1.added had2 (.inr ⟨rfl, haql⟩) fun c hc hcv hcva => ?_,
              h1.sgClean_added had2 hclean1⟩
            rw [had.attachments] at hc
            rcases mem_cons.mp hc with rfl | hc
            · exact va_ne_secondVa mem (had.addr.symm.trans hcva)
            · exact hnone c hc hcv
        · exact ⟨h1, hclean1⟩

end

theorem attachEntry_clean {s : State} {first : Option Bo}
    (ht : ∃ t, attachmentType mem v first.isSome = .ok t) :
    ∃ r, attachEntry mem s v va first {} = .ok r := by
  obtain ⟨t, ht⟩ := ht
  unfold attachEntry
  simp only [ht, Bool.false_eq_true, if_false, and_false, ite_self]
  exact ⟨_, rfl⟩

theorem kfdMemAttach_clean {e : Nat → AttachEnv} (he : ∀ k, e k = {}) (hm : Mappable mem v) :
    (MapMemory.kfdMemAttach mem s v e).2 = none := by
  obtain ⟨hva, hpeer, ht, -, -⟩ := hm
  have h1 : ∃ r, attachEntry mem s v mem.va none {} = .ok r := attachEntry_clean ht
  obtain ⟨⟨s1, a⟩, h1⟩ := h1
  have h2 : ∃ r, attachEntry mem s1 v (secondVa mem) (some a.bo) {} = .ok r := by
    refine attachEntry_clean ⟨.shared, ?_⟩
    unfold attachmentType
    split
    · rfl
    · exact if_pos rfl
  obtain ⟨⟨s2, b⟩, h2⟩ := h2
  unfold MapMemory.kfdMemAttach
  rw [if_neg hva, hpeer, if_neg Bool.false_ne_true, he, he, h1]
  dsimp only
  rw [h2]
  split <;> rfl

end Inv

end

/-! ## Calls -/

section
variable {mem : KgdMem} {s : State} {v : Vm}

theorem not_attached (h : isAttached s v = false) : ∀ b ∈ s.attachments, b.vm ≠ v := by
  intro b hb hv
  exact List.any_eq_false.mp h b hb (decide_eq_true hv)

theorem attach_keeps (h : Inv mem s) (hclean : SgClean s v) (e : Nat → AttachEnv) :
    Inv mem (if isAttached s v then (s, none) else kfdMemAttach mem s v e).1 ∧
      SgClean (if isAttached s v then (s, none) else kfdMemAttach mem s v e).1 v := by
  split
  · exact ⟨h, hclean⟩
  · next hno => exact h.kfdMemAttach (not_attached (Bool.eq_false_of_not_eq_true hno)) e

/-- `vm_update_pds` does not fail where the call gets to it. -/
def MapEnv.PdsUpdated (mem : KgdMem) (e : MapEnv) : Prop :=
  e.reserve = none → e.validate = none → ∀ k,
    (e.entry k).Maps (mem.userptr && (e.invalid || e.inSystem)) → (e.entry k).updatePds = none

theorem mapMemoryToGpu_keeps (h : Inv mem s) (hclean : SgClean s v) {e : MapEnv}
    (hpds : e.PdsUpdated mem) :
    Inv mem (mapMemoryToGpu mem s v e).1 ∧ SgClean (mapMemoryToGpu mem s v e).1 v := by
  have hatt := attach_keeps h hclean e.attach
  unfold mapMemoryToGpu
  dsimp only
  split
  · next hr =>
    rw [hr] at hatt
    exact hatt
  · next s1 hr =>
    rw [hr] at hatt
    split
    · exact hatt
    · exact hatt
    · next hreserve hvalidate =>
      obtain ⟨hinv, hsg, -⟩ := mapEntries_keeps (hpds hreserve hvalidate) _ s1 0 hatt.1 hatt.2
        hatt.1.nodup fun _ ha => ha
      exact ⟨hinv, hsg⟩

theorem mapMemoryToGpu_clean (h : Inv mem s) (hclean : SgClean s v) (hm : Mappable mem v)
    {e : MapEnv} (he : e.Clean) : (mapMemoryToGpu mem s v e).2 = none := by
  have hatt := attach_keeps h hclean e.attach
  have hnone : (if isAttached s v then (s, none) else kfdMemAttach mem s v e.attach).2 = none := by
    split
    · rfl
    · exact Inv.kfdMemAttach_clean he.attach hm
  unfold mapMemoryToGpu
  dsimp only
  split
  · next hr =>
    rw [hr] at hnone
    exact hnone
  · next s1 hr =>
    rw [hr] at hatt
    rw [he.reserve, he.validate]
    refine (mapEntries_keeps (fun k _ => by rw [he.entry k]) _ s1 0 hatt.1 hatt.2 hatt.1.nodup
      fun _ ha => ha).2.2 he.entry fun va hva => ?_
    rcases hva with rfl | ⟨rfl, haql⟩
    · exact hm.2.2.2.1
    · exact hm.2.2.2.2 haql

theorem unmapEntries_keeps : ∀ (as : List Attachment) (s : State), Inv mem s → as.Nodup →
    (∀ a ∈ as, a ∈ s.attachments) → Inv mem (unmapEntries v s as) := by
  intro as
  induction as with
  | nil => exact fun s h _ _ => h
  | cons a as ih =>
    intro s h hn hl
    unfold unmapEntries
    split
    · exact ih s h (nodup_cons.mp hn).2 fun b hb => hl b (mem_cons_of_mem _ hb)
    · next hskip =>
      have ha := hl a mem_cons_self
      have hm : a.isMapped = true := not_not.mp fun hm => hskip (.inr hm)
      refine ih _ (h.unmapEntry ha hm) (nodup_cons.mp hn).2 fun b hb => ?_
      have hba : b ≠ a := fun he => (nodup_cons.mp hn).1 (he ▸ hb)
      change b ∈ s.attachments.map (mark a false)
      rw [← mark_ne false hba]
      exact mem_map_of_mem (hl b (mem_cons_of_mem _ hb))

theorem unmapMemoryFromGpu_keeps (h : Inv mem s) (e : UnmapEnv) :
    Inv mem (unmapMemoryFromGpu s v e).1 := by
  unfold unmapMemoryFromGpu
  split
  · exact h
  · split
    · split
      · exact h
      · exact unmapEntries_keeps _ s h h.nodup fun _ ha => ha
    · exact h

theorem dmaunmapMem_keeps (h : Inv mem s) (reserve : Option Errno) :
    Inv mem (dmaunmapMem s v reserve).1 := by
  unfold dmaunmapMem
  split
  · exact h
  · generalize s.attachments = as
    induction as generalizing s with
    | nil => exact h
    | cons a as ih =>
      refine ih ?_
      dsimp only
      split
      · exact h
      · obtain ⟨f, hf, -, -, hsub⟩ := dmaunmapAttachment_frame s a
        rw [hf]
        exact { h with sgFresh := fun n hn => h.sgFresh n (hsub _ hn) }

end

/-! ## Runs -/

/-- What a call must not meet: a failure of `vm_update_pds`, whose mapping stays in the tree; and
an `sg_table` that is left from an earlier mapping, when `amdgpu_amdkfd_gpuvm_dmaunmap_mem` was not
called since. -/
def StepOk (mem : KgdMem) (s : State) : Op → Prop
  | .map v e => e.PdsUpdated mem ∧ SgClean s v
  | _ => True

def Kept (mem : KgdMem) (s : State) : Prop :=
  Inv mem s ∧ ∀ v, s.failed = some v → SgClean s v

theorem Kept.step {mem : KgdMem} {s : State} (h : Kept mem s) (op : Op) (hok : StepOk mem s op) :
    Kept mem (step mem s op) := by
  cases op with
  | map v e =>
    obtain ⟨hinv, hclean⟩ := mapMemoryToGpu_keeps h.1 hok.2 hok.1
    refine ⟨{ hinv with }, fun w hw => ?_⟩
    have hvw : w = v := by
      change (if (mapMemoryToGpu mem s v e).2 = none then none else some v) = some w at hw
      split at hw
      · cases hw
      · exact (some.inj hw).symm
    rw [hvw]
    exact hclean
  | unmap v e => exact ⟨{ unmapMemoryFromGpu_keeps h.1 e with }, fun w hw => nomatch hw⟩
  | dmaunmap v r => exact ⟨{ dmaunmapMem_keeps h.1 r with }, fun w hw => nomatch hw⟩

theorem Kept.right {mem : KgdMem} {s : State} (h : Kept mem s) : Right mem s where
  count := h.1.count
  mapped _ ha := h.1.isMapped_iff ha
  repeatable v hv hm _ he := mapMemoryToGpu_clean h.1 (hv.elim (h.2 v) id) hm he

/-- The book-keeping is right in every state of a run whose calls meet none of the two. -/
theorem mapMemory_right (mem : KgdMem) (ops : List Op)
    (hok : StepsOk (step mem) (StepOk mem) init ops) : Right mem (run (step mem) init ops) :=
  (run_inv_of_stepsOk (P := Kept mem) (fun _ op h hop => h.step op hop)
    ⟨Inv.init mem, fun _ hv => nomatch hv⟩ hok).right

def aqlMem : KgdMem where
  va := 65536
  size := 8192
  aqlQueue := true
  domain := .vram
  doorbell := false
  mmioRemap := false
  userptr := false
  typeSg := false
  peer _ := { isBoAdev := true, apu := false, sameHive := false, peerAccessible := false
              reuseDmamap := false, maxPfn := 2 ^ 36 }
  va_lt := by decide
  size_pos := by decide
  size_lt := by decide
  size_pages := by decide

/-- A second mapping that fails, the call again, an unmapping, a reservation that fails, and a
call that ends before the failure that the page directories have ready for it. -/
theorem mapMemory_right_aql : Right aqlMem (run (step aqlMem) init
    [.map 0 { entry := fun k => { noMemory := decide (k = 1) } }, .map 0 {}, .unmap 0 {},
      .map 0 { reserve := some .erestartsys },
      .map 0 { entry := fun _ => { boUpdate := some .enomem, updatePds := some .enomem } }]) := by
  refine mapMemory_right aqlMem _ ⟨⟨fun _ _ _ _ => rfl, ?_⟩, ⟨fun _ _ _ _ => rfl, ?_⟩, trivial,
    ⟨fun _ _ _ _ => rfl, ?_⟩, ⟨fun _ _ _ hmaps => ?_, ?_⟩, trivial⟩
  · exact fun a ha => absurd ha not_mem_nil
  · unfold SgClean
    decide
  · unfold SgClean
    decide
  · exact absurd hmaps.2.2 (by simp [aqlMem])
  · unfold SgClean
    decide

def pdsFail : List Op := [.map 0 { entry := fun _ => { updatePds := some .enomem } }]

/-- The address is mapped, the attachment says that it is not. -/
theorem mapMemory_not_right : ¬ Right aqlMem (run (step aqlMem) init pdsFail) := by
  intro h
  have ha : { vm := 0, va := 73728, type := .shared, bo := .own, isMapped := false } ∈
      (run (step aqlMem) init pdsFail).attachments := by decide
  have hva : VaMapped (run (step aqlMem) init pdsFail)
      { vm := 0, va := 73728, type := .shared, bo := .own, isMapped := false } :=
    ⟨{ bo := .own, start := 18, last := 19 }, by decide, rfl, by decide⟩
  exact Bool.noConfusion ((h.mapped _ ha).mpr hva)

theorem mapMemory_not_repeatable :
    (mapMemoryToGpu aqlMem (run (step aqlMem) init pdsFail) 0 {}).2 = some .einval := by
  decide

end Amdkfd.MapMemory
