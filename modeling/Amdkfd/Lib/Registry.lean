import Mathlib.Data.List.Nodup

/-!
# Objects under ids and on lists

A heap maps addresses to objects. `Indexed` says that an id map finds exactly the objects of a heap,
each under its own id, `Nested` that objects are on the list of the object they belong to. Both are
kept when an object comes or goes, and when many go at once.
-/

namespace Amdkfd.Lib

open Function List Option

variable {α β κ π : Type*}

/-- The heap without the objects `as`. -/
def freeAll [DecidableEq α] (as : List α) (heap : α → Option β) : α → Option β :=
  as.foldl (fun heap a => update heap a none) heap

variable {heap : α → Option β}

theorem freeAll_apply [DecidableEq α] {as : List α} {a : α} :
    freeAll as heap a = if a ∈ as then none else heap a := by
  induction as generalizing heap with
  | nil => rfl
  | cons b as ih =>
    rw [freeAll, foldl_cons]
    change freeAll as _ a = _
    rw [ih]
    by_cases hb : a = b
    · subst hb
      simp
    · simp [hb]

theorem freeAll_some [DecidableEq α] {as : List α} {a : α} {b : β} :
    freeAll as heap a = some b ↔ a ∉ as ∧ heap a = some b := by
  rw [freeAll_apply]
  split <;> simp_all

theorem freeAll_append [DecidableEq α] {as bs : List α} :
    freeAll (as ++ bs) heap = freeAll bs (freeAll as heap) :=
  foldl_append

/-- No object of the heap is at `n` or above. -/
def Below (n : Nat) (heap : Nat → Option β) : Prop := ∀ a, n ≤ a → heap a = none

section
variable {n a : Nat} {heap : Nat → Option β}

theorem Below.add (h : Below n heap) (o : Option β) : Below (n + 1) (update heap n o) := by
  intro a ha
  rw [update_of_ne (by omega)]
  exact h a (by omega)

theorem Below.succ (h : Below n heap) : Below (n + 1) heap :=
  fun a ha => h a (by omega)

theorem Below.change (h : Below n heap) {b : β} (hb : heap a = some b) (o : Option β) :
    Below n (update heap a o) := by
  intro c hc
  rw [update_of_ne]
  · exact h c hc
  · rintro rfl
    rw [h c hc] at hb
    cases hb

theorem Below.freeAll (h : Below n heap) (as : List Nat) : Below n (freeAll as heap) := by
  intro a ha
  rw [freeAll_apply]
  split
  · rfl
  · exact h a ha

end

/-! ## Ids -/

/-- The id map finds exactly the objects of the heap, under their ids. -/
def Indexed (idr : Nat → Option α) (heap : α → Option β) (key : β → Nat) : Prop :=
  ∀ id a, idr id = some a ↔ ∃ b, heap a = some b ∧ key b = id

/-- The id map without the ids of the objects `as`. -/
def unindex (heap : α → Option β) (key : β → Nat) (as : List α) (idr : Nat → Option α) :
    Nat → Option α :=
  as.foldl (fun idr a => match heap a with
    | none => idr
    | some b => update idr (key b) none) idr

section
variable {idr : Nat → Option α} {heap : α → Option β} {key : β → Nat} {as : List α} {a : α} {b : β}

theorem unindex_some {id : Nat} :
    unindex heap key as idr id = some a ↔
      idr id = some a ∧ ∀ a' ∈ as, ∀ b, heap a' = some b → key b ≠ id := by
  induction as generalizing idr with
  | nil => simp [unindex]
  | cons c as ih =>
    rw [unindex, foldl_cons]
    change unindex heap key as _ id = _ ↔ _
    rw [ih, forall_mem_cons]
    cases hc : heap c with
    | none => simp
    | some b =>
      by_cases hid : key b = id
      · simp [hid]
      · simp [hid, update_of_ne (Ne.symm hid)]

theorem unindex_append {bs : List α} :
    unindex heap key (as ++ bs) idr = unindex heap key bs (unindex heap key as idr) :=
  foldl_append

theorem Indexed.empty : Indexed (fun _ => none : Nat → Option α) (fun _ => none) key := by
  simp [Indexed]

section
variable (h : Indexed idr heap key)
include h

theorem Indexed.key_inj {a' : α} {b' : β} (ha : heap a = some b) (ha' : heap a' = some b')
    (hkey : key b = key b') : a = a' := by
  have h1 := (h (key b) a).mpr ⟨b, ha, rfl⟩
  have h2 := (h (key b) a').mpr ⟨b', ha', hkey.symm⟩
  exact some.inj (h1.symm.trans h2)

theorem Indexed.add [DecidableEq α] (ha : heap a = none) (hid : idr (key b) = none) :
    Indexed (update idr (key b) (some a)) (update heap a (some b)) key := by
  intro id c
  by_cases hc : c = a
  · subst hc
    rw [update_self]
    by_cases hi : id = key b
    · subst hi
      simp
    · rw [update_of_ne hi, h]
      simp [ha, Ne.symm hi]
  · rw [update_of_ne hc, ← h]
    by_cases hi : id = key b
    · subst hi
      simp [hid, Ne.symm hc]
    · rw [update_of_ne hi]

theorem Indexed.removeAll [DecidableEq α] (as : List α) :
    Indexed (unindex heap key as idr) (freeAll as heap) key := by
  intro id a
  simp only [unindex_some, freeAll_some]
  constructor
  · rintro ⟨hid, hno⟩
    obtain ⟨b, hb, hkey⟩ := (h id a).mp hid
    exact ⟨b, ⟨fun hmem => hno a hmem b hb hkey, hb⟩, hkey⟩
  · rintro ⟨b, ⟨hmem, hb⟩, hkey⟩
    refine ⟨(h id a).mpr ⟨b, hb, hkey⟩, fun a' ha' b' hb' hkey' => ?_⟩
    rw [h.key_inj hb' hb (hkey'.trans hkey.symm)] at ha'
    exact hmem ha'

theorem Indexed.remove [DecidableEq α] (ha : heap a = some b) :
    Indexed (update idr (key b) none) (update heap a none) key := by
  have hall := h.removeAll [a]
  simpa [unindex, freeAll, ha] using hall

theorem Indexed.modify [DecidableEq α] {b' : β} (ha : heap a = some b) (hkey : key b' = key b) :
    Indexed idr (update heap a (some b')) key := by
  intro id c
  rw [h]
  by_cases hc : c = a
  · subst hc
    simp [ha, hkey]
  · rw [update_of_ne hc]

end

end

/-! ## Lists -/

/-- Every object is on the list of the one it belongs to, and nothing else is on a list. -/
structure Nested (parents : α → Option π) (list : π → List α) (kids : α → Option κ)
    (parent : κ → α) : Prop where
  listed : ∀ a k, kids a = some k → ∃ p, parents (parent k) = some p ∧ a ∈ list p
  live : ∀ b p, parents b = some p → ∀ a ∈ list p, ∃ k, kids a = some k ∧ parent k = b
  nodup : ∀ b p, parents b = some p → (list p).Nodup

/-- The list of the object at `b`. -/
def listOf (parents : α → Option π) (list : π → List α) (b : α) : List α :=
  ((parents b).map list).getD []

section
variable {parents : α → Option π} {list : π → List α} {kids : α → Option κ} {parent : κ → α}
  {a b : α} {k k' : κ} {p p' : π}

theorem Nested.empty : Nested (fun _ => none : α → Option π) list (fun _ => none) parent :=
  ⟨nofun, nofun, nofun⟩

theorem listOf_some (h : parents b = some p) : listOf parents list b = list p := by
  rw [listOf, h]; rfl

theorem mem_listOf {a : α} : a ∈ listOf parents list b ↔ ∃ p, parents b = some p ∧ a ∈ list p := by
  unfold listOf
  cases parents b <;> simp

section
variable (h : Nested parents list kids parent)
include h

theorem Nested.addParent [DecidableEq α] (hb : parents b = none) (hp : list p = []) :
    Nested (update parents b (some p)) list kids parent := by
  have hsplit : ∀ {c q}, update parents b (some p) c = some q →
      (c = b ∧ q = p) ∨ (c ≠ b ∧ parents c = some q) := by
    intro c q hc
    by_cases hcb : c = b
    · subst hcb
      exact .inl ⟨rfl, by simpa using hc.symm⟩
    · exact .inr ⟨hcb, by rwa [update_of_ne hcb] at hc⟩
  refine ⟨fun a k hk => ?_, fun c q hc => ?_, fun c q hc => ?_⟩
  · obtain ⟨q, hq, hmem⟩ := h.listed a k hk
    refine ⟨q, ?_, hmem⟩
    rwa [update_of_ne]
    rintro rfl
    rw [hb] at hq
    cases hq
  · rcases hsplit hc with ⟨-, rfl⟩ | ⟨-, hc⟩
    · simp [hp]
    · exact h.live c q hc
  · rcases hsplit hc with ⟨-, rfl⟩ | ⟨-, hc⟩
    · simp [hp]
    · exact h.nodup c q hc

theorem Nested.removeParents [DecidableEq α] (bs : List α) :
    Nested (freeAll bs parents) list (freeAll (bs.flatMap (listOf parents list)) kids) parent := by
  refine ⟨fun a k hk => ?_, fun c q hc => ?_, fun c q hc => ?_⟩
  · obtain ⟨hfree, hk⟩ := freeAll_some.mp hk
    obtain ⟨q, hq, hmem⟩ := h.listed a k hk
    refine ⟨q, freeAll_some.mpr ⟨fun hb => hfree ?_, hq⟩, hmem⟩
    exact mem_flatMap.mpr ⟨_, hb, mem_listOf.mpr ⟨q, hq, hmem⟩⟩
  · obtain ⟨hfree, hc⟩ := freeAll_some.mp hc
    intro a ha
    obtain ⟨k, hk, hparent⟩ := h.live c q hc a ha
    refine ⟨k, freeAll_some.mpr ⟨fun hmem => hfree ?_, hk⟩, hparent⟩
    obtain ⟨b, hb, hmem⟩ := mem_flatMap.mp hmem
    obtain ⟨p, hp, hmem⟩ := mem_listOf.mp hmem
    obtain ⟨k', hk', hparent'⟩ := h.live b p hp a hmem
    obtain rfl : k = k' := some.inj (hk.symm.trans hk')
    rwa [← hparent, hparent']
  · exact h.nodup c q (freeAll_some.mp hc).2

theorem Nested.removeParent [DecidableEq α] (hb : parents b = some p) :
    Nested (update parents b none) list (freeAll (list p) kids) parent := by
  have hall := h.removeParents [b]
  rwa [flatMap_singleton, listOf_some hb] at hall

/-- The object `a` comes or goes, and with it its place on the list. -/
theorem Nested.setKid [DecidableEq α] (hp : parents (parent k) = some p) {o : Option κ}
    (ho : ∀ k' ∈ o, k' = k) (hold : ∀ k' ∈ kids a, parent k' = parent k)
    (hself : a ∈ list p' ↔ k ∈ o) (hother : ∀ c, c ≠ a → (c ∈ list p' ↔ c ∈ list p))
    (hnodup : (list p').Nodup) :
    Nested (update parents (parent k) (some p')) list (update kids a o) parent := by
  refine ⟨fun c q hq => ?_, fun c q hc d hd => ?_, fun c q hc => ?_⟩
  · by_cases hca : c = a
    · subst hca
      rw [update_self] at hq
      obtain rfl := ho q hq
      exact ⟨p', update_self .., hself.mpr hq⟩
    · rw [update_of_ne hca] at hq
      obtain ⟨r, hr, hin⟩ := h.listed c q hq
      by_cases hpar : parent q = parent k
      · rw [hpar] at hr ⊢
        obtain rfl : p = r := some.inj (hp.symm.trans hr)
        exact ⟨p', update_self .., (hother c hca).mpr hin⟩
      · exact ⟨r, by rwa [update_of_ne hpar], hin⟩
  · by_cases hcb : c = parent k
    · subst hcb
      obtain rfl : p' = q := by simpa using hc
      by_cases hda : d = a
      · subst hda
        exact ⟨k, by rw [update_self]; exact hself.mp hd, rfl⟩
      · obtain ⟨k', hk', hparent⟩ := h.live _ p hp d ((hother d hda).mp hd)
        exact ⟨k', by rwa [update_of_ne hda], hparent⟩
    · rw [update_of_ne hcb] at hc
      obtain ⟨k', hk', hparent⟩ := h.live c q hc d hd
      refine ⟨k', ?_, hparent⟩
      rwa [update_of_ne]
      rintro rfl
      exact hcb (hparent.symm.trans (hold k' hk'))
  · by_cases hcb : c = parent k
    · subst hcb
      obtain rfl : p' = q := by simpa using hc
      exact hnodup
    · rw [update_of_ne hcb] at hc
      exact h.nodup c q hc

theorem Nested.addKid [DecidableEq α] (ha : kids a = none) (hp : parents (parent k) = some p)
    (hlist : list p' = list p ++ [a]) :
    Nested (update parents (parent k) (some p')) list (update kids a (some k)) parent := by
  have hnew : a ∉ list p := fun hmem => by
    obtain ⟨k', hk', -⟩ := h.live _ p hp a hmem
    rw [ha] at hk'
    cases hk'
  refine h.setKid hp (fun k' hk' => (some.inj hk').symm) (fun k' hk' => ?_) ?_
    (fun c hc => ?_) ?_
  · rw [ha] at hk'
    cases hk'
  · simp [hlist]
  · simp [hlist, hc]
  · rw [hlist, nodup_append_comm]
    exact nodup_cons.mpr ⟨hnew, h.nodup _ p hp⟩

theorem Nested.removeKid [DecidableEq α] (ha : kids a = some k) (hp : parents (parent k) = some p)
    (hlist : list p' = (list p).erase a) :
    Nested (update parents (parent k) (some p')) list (update kids a none) parent := by
  have hnodup := h.nodup _ p hp
  refine h.setKid hp nofun (fun k' hk' => ?_) ?_ (fun c hc => ?_) ?_
  · obtain rfl : k = k' := some.inj (ha.symm.trans hk')
    rfl
  · simp [hlist, hnodup.mem_erase_iff]
  · simp [hlist, hnodup.mem_erase_iff, hc]
  · rw [hlist]
    exact hnodup.erase a

theorem Nested.modifyKid [DecidableEq α] (ha : kids a = some k) (hk : parent k' = parent k) :
    Nested parents list (update kids a (some k')) parent := by
  refine ⟨fun c q hq => ?_, fun c q hc d hd => ?_, h.nodup⟩
  · by_cases hca : c = a
    · subst hca
      obtain rfl : k' = q := by simpa using hq
      rw [hk]
      exact h.listed c k ha
    · rw [update_of_ne hca] at hq
      exact h.listed c q hq
  · obtain ⟨r, hr, hparent⟩ := h.live c q hc d hd
    by_cases hda : d = a
    · subst hda
      obtain rfl : k = r := some.inj (ha.symm.trans hr)
      exact ⟨k', update_self .., hk.trans hparent⟩
    · exact ⟨r, by rwa [update_of_ne hda], hparent⟩

end

end

end Amdkfd.Lib
