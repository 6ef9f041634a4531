import Amdkfd.Sync.Model

/-!
# What a sync object waits for

For every fence that was added to a sync object and not handed out, itself or through a later
fence of its context, the object holds an entry of the context that is the same or later, unless
the fence is signalled.
-/

namespace Amdkfd.AmdgpuSync

open Lib List

/-! ## What is to be shown -/

/-- An addition of a dependency keeps the job behind the fence, and behind all that it was behind
before. -/
def KeepsDependencies (add : AddDependency) : Prop :=
  ∀ deps f deps', add deps f = some deps' → ∀ g, g = f ∨ g ∈ deps → ∃ d ∈ deps', NotLater g d

def StandsFor (upTo : Signals) (waited : List FenceId) (s : Sync) : Prop :=
  ∀ later : Signals, (∀ c, upTo c ≤ later c) → (∀ d ∈ waited, Signaled later d) →
    ∀ f ∈ owed s.log, Signaled later f.toFenceId

structure Covered (add : AddDependency) (st : State) : Prop where
  /-- There is at most one entry for each context. -/
  oneEntry : ∀ i, ((st.sync i).entries.map fun e => e.context).Nodup
  /-- A fence that is owed and not signalled has an entry that is the same or later. -/
  covered : ∀ i, ∀ f ∈ owed (st.sync i).log, ¬ Signaled st.upTo f.toFenceId →
    ∃ e ∈ (st.sync i).entries, NotLater f.toFenceId e.toFenceId
  /-- After a wait that succeeds everything owed is signalled. -/
  waited : ∀ i wait, (syncWait st.upTo (st.sync i) wait).2 = none →
    ∀ f ∈ owed (st.sync i).log, Signaled (syncWait st.upTo (st.sync i) wait).1.1 f.toFenceId
  /-- The dependencies of a job to which the fences were pushed stand for the object. -/
  pushed : ∀ i job, (pushToJob add st.upTo (st.sync i) (st.deps job)).2 = none →
    StandsFor st.upTo (pushToJob add st.upTo (st.sync i) (st.deps job)).1.2 (st.sync i)
  /-- The entries of a copy stand for the object. -/
  cloned : ∀ i j alloc, (syncClone st i j alloc).2 = none →
    StandsFor st.upTo (((syncClone st i j alloc).1.sync j).entries.map Fence.toFenceId)
      (st.sync i)

/-! ## Fences of one context -/

theorem NotLater.refl (f : FenceId) : NotLater f f := ⟨rfl, le_rfl⟩

theorem NotLater.trans {f g h : FenceId} (hfg : NotLater f g) (hgh : NotLater g h) : NotLater f h :=
  ⟨hfg.1.trans hgh.1, hfg.2.trans hgh.2⟩

variable {upTo : Signals} {f : Fence} {s : Sync} {alloc : Fence → Bool} {st : State}

theorem NotLater.signaled {f e : FenceId} (h : NotLater f e) (he : Signaled upTo e) :
    Signaled upTo f := by
  rw [Signaled] at he ⊢
  rw [h.1]
  exact lt_of_le_of_lt h.2 he

theorem Signaled.mono {upTo later : Signals} (h : ∀ c, upTo c ≤ later c) {f : FenceId}
    (hf : Signaled upTo f) : Signaled later f :=
  lt_of_lt_of_le hf (h f.context)

theorem le_signal (upTo : Signals) (f : FenceId) (c : Nat) : upTo c ≤ signal upTo f c := by
  unfold signal
  split
  · exact le_max_left _ _
  · exact le_rfl

theorem signaled_signal (upTo : Signals) (f : FenceId) : Signaled (signal upTo f) f := by
  rw [Signaled, signal, if_pos rfl]
  exact lt_of_lt_of_le (Nat.lt_succ_self _) (le_max_right _ _)

theorem owed_map_add (fs : List Fence) (log : List Event) :
    owed (fs.map Event.add ++ log) = fs ++ owed log := by
  induction fs with
  | nil => rfl
  | cons f fs ih => simp [owed, ih]

theorem notLater_keepLater {keep f : Fence} (h : keep.context = f.context) :
    NotLater keep.toFenceId (keepLater keep f).toFenceId ∧
      NotLater f.toFenceId (keepLater keep f).toFenceId := by
  unfold keepLater
  split
  case isTrue hl => exact ⟨.refl _, h.symm, by simpa [isLater] using Nat.le_of_lt (by
    simpa [isLater] using hl)⟩
  case isFalse hl => exact ⟨⟨h, by simpa [isLater] using hl⟩, .refl _⟩

/-! ## The buckets -/

theorem addLater_some {es es' : List Fence} (h : addLater f es = some es') :
    es'.map (fun e => e.context) = es.map (fun e => e.context) ∧
      (∀ e ∈ es, ∃ e' ∈ es', NotLater e.toFenceId e'.toFenceId) ∧
      (∃ e' ∈ es', NotLater f.toFenceId e'.toFenceId) := by
  induction es generalizing es' with
  | nil => cases h
  | cons e es ih =>
    unfold addLater at h
    split at h
    · obtain ⟨es1, h1, rfl⟩ := Option.map_eq_some_iff.mp h
      obtain ⟨hctx, hold, e', he', hf⟩ := ih h1
      refine ⟨by simp [hctx], ?_, e', mem_cons_of_mem _ he', hf⟩
      intro a ha
      rcases mem_cons.mp ha with rfl | ha
      · exact ⟨a, mem_cons_self, .refl _⟩
      · obtain ⟨a', ha', hn⟩ := hold a ha
        exact ⟨a', mem_cons_of_mem _ ha', hn⟩
    case isFalse hc =>
      cases h
      have hc : e.context = f.context := not_not.mp hc
      obtain ⟨hk, hf⟩ := notLater_keepLater hc
      refine ⟨by simp [hk.1], ?_, _, mem_cons_self, hf⟩
      intro a ha
      rcases mem_cons.mp ha with rfl | ha
      · exact ⟨_, mem_cons_self, hk⟩
      · exact ⟨a, mem_cons_of_mem _ ha, .refl _⟩

variable {es : List Fence} {e : Fence} {i : Nat} {add : AddDependency}

theorem addLater_none (h : addLater f es = none) : ∀ e ∈ es, e.context ≠ f.context := by
  induction es with
  | nil => nofun
  | cons e es ih =>
    unfold addLater at h
    split at h
    case isTrue hc =>
      rw [Option.map_eq_none_iff] at h
      exact forall_mem_cons.mpr ⟨hc, ih h⟩
    case isFalse => cases h

structure Hashed (s : Sync) : Prop where
  bucket : ∀ i, ∀ e ∈ s.fences i, hash e.context = i
  nodup : ∀ i, ((s.fences i).map fun e => e.context).Nodup

def Covers (upTo : Signals) (s : Sync) (f : FenceId) : Prop :=
  Signaled upTo f ∨ ∃ e ∈ s.fences (hash f.context), NotLater f e.toFenceId

theorem mem_entries (h : Hashed s) : e ∈ s.entries ↔ e ∈ s.fences (hash e.context) := by
  rw [Sync.entries, mem_flatMap]
  constructor
  · rintro ⟨i, -, hi⟩
    rwa [h.bucket i e hi]
  · exact fun he => ⟨_, mem_range.mpr (hash_lt _), he⟩

theorem entries_nodup (h : Hashed s) : (s.entries.map fun e => e.context).Nodup := by
  rw [Sync.entries, map_flatMap, nodup_flatMap]
  refine ⟨fun i _ => h.nodup i, ?_⟩
  refine (nodup_range).imp_of_mem fun {i j} _ _ hij => ?_
  intro c hi hj
  obtain ⟨e, he, rfl⟩ := mem_map.mp hi
  obtain ⟨e', he', heq⟩ := mem_map.mp hj
  exact hij (((h.bucket i e he).symm.trans (congrArg hash heq.symm)).trans (h.bucket j e' he'))

theorem hashed_setBucket (h : Hashed s) (hb : ∀ e ∈ es, hash e.context = i)
    (hn : (es.map fun e => e.context).Nodup) :
    Hashed (s.setBucket i es) := by
  constructor
  · intro k e he
    by_cases hk : k = i
    · subst hk
      exact hb e (by simpa [Sync.setBucket] using he)
    · exact h.bucket k e (by simpa [Sync.setBucket, hk] using he)
  · intro k
    by_cases hk : k = i
    · simpa [Sync.setBucket, hk] using hn
    · simpa [Sync.setBucket, hk] using h.nodup k

theorem covers_setBucket {f : FenceId} (hes : ∀ e ∈ s.fences i, Signaled upTo e.toFenceId ∨
      ∃ e' ∈ es, NotLater e.toFenceId e'.toFenceId) (h : Covers upTo s f) :
    Covers upTo (s.setBucket i es) f := by
  rcases h with h | ⟨e, he, hf⟩
  · exact .inl h
  · by_cases hi : hash f.context = i
    · rcases hes e (hi ▸ he) with hs | ⟨e', he', hn⟩
      · exact .inl (hf.signaled hs)
      · exact .inr ⟨e', by simpa [Sync.setBucket, hi] using he', hf.trans hn⟩
    · exact .inr ⟨e, by simpa [Sync.setBucket, hi] using he, hf⟩

theorem Covers.mono {upTo later : Signals} (h : ∀ c, upTo c ≤ later c) {f : FenceId}
    (hf : Covers upTo s f) : Covers later s f :=
  hf.imp_left (Signaled.mono h)

theorem Covers.of_notLater {f e : FenceId} (hf : NotLater f e) (he : Covers upTo s e) :
    Covers upTo s f := by
  rcases he with he | ⟨e', he', hn⟩
  · exact .inl (hf.signaled he)
  · exact .inr ⟨e', hf.1 ▸ he', hf.trans hn⟩

/-! ## One entry -/

theorem hashed_entryFree (h : Hashed s) (e : Fence) : Hashed (s.entryFree e) :=
  hashed_setBucket h (fun _ ha => h.bucket _ _ (mem_of_mem_erase ha))
    ((erase_sublist.map _).nodup (h.nodup _))

theorem covers_entryFree {f : FenceId} (he : Signaled upTo e.toFenceId) (h : Covers upTo s f) :
    Covers upTo (s.entryFree e) f := by
  refine covers_setBucket (fun a ha => ?_) h
  by_cases hae : a = e
  · exact .inl (hae ▸ he)
  · exact .inr ⟨a, (mem_erase_of_ne hae).mpr ha, .refl _⟩

theorem hashed_syncFence (h : Hashed s) (f : Option Fence) (alloc : Fence → Bool) :
    Hashed (syncFence s f alloc).1 := by
  cases f with
  | none => exact h
  | some f =>
    have hlog : ∀ {t : Sync} {log : List Event}, Hashed t → Hashed { t with log := log } :=
      fun ht => ⟨ht.bucket, ht.nodup⟩
    simp only [syncFence]
    split
    case h_1 es hes =>
      obtain ⟨hctx, -, -⟩ := addLater_some hes
      refine hlog (hashed_setBucket h (fun e he => ?_) (hctx ▸ h.nodup _))
      obtain ⟨e0, he0, hc⟩ := mem_map.mp (hctx ▸ mem_map_of_mem he)
      exact (congrArg hash hc).symm.trans (h.bucket _ e0 he0)
    case h_2 hes =>
      split
      · refine hlog (hashed_setBucket h ?_ ?_)
        · exact forall_mem_cons.mpr ⟨rfl, h.bucket _⟩
        · refine nodup_cons.mpr ⟨fun hm => ?_, h.nodup _⟩
          obtain ⟨e, he, hc⟩ := mem_map.mp hm
          exact addLater_none hes e he hc
      · exact h

theorem covers_syncFence {f : Option Fence} {g : FenceId} (h : Covers upTo s g) :
    Covers upTo (syncFence s f alloc).1 g := by
  cases f with
  | none => exact h
  | some f =>
    simp only [syncFence]
    split
    case h_1 es hes =>
      exact covers_setBucket (s := s) (fun e he => .inr ((addLater_some hes).2.1 e he)) h
    case h_2 =>
      split
      · exact covers_setBucket (s := s)
          (fun e he => .inr ⟨e, mem_cons_of_mem _ he, .refl _⟩) h
      · exact h

theorem covers_syncFence_self (upTo : Signals) (h : (syncFence s (some f) alloc).2 = none) :
    Covers upTo (syncFence s (some f) alloc).1 f.toFenceId := by
  simp only [syncFence] at h ⊢
  split
  case h_1 es hes =>
    obtain ⟨-, -, e', he', hf⟩ := addLater_some hes
    exact .inr ⟨e', by simpa [Sync.setBucket] using he', hf⟩
  case h_2 hes =>
    split
    · exact .inr ⟨f, by simp [Sync.setBucket], .refl _⟩
    case isFalse ha => simp [hes, ha] at h

theorem owed_syncFence {f : Option Fence} {g : Fence} (h : g ∈ owed (syncFence s f alloc).1.log) :
    g ∈ owed s.log ∨ f = some g ∧ (syncFence s f alloc).2 = none := by
  cases f with
  | none => exact .inl h
  | some f =>
    simp only [syncFence] at h ⊢
    split at h
    case h_1 es hes =>
      rcases mem_cons.mp h with rfl | h
      · exact .inr ⟨rfl, by simp⟩
      · exact .inl h
    case h_2 hes =>
      split at h
      case isTrue ha =>
        rcases mem_cons.mp h with rfl | h
        · exact .inr ⟨rfl, by simp [ha]⟩
        · exact .inl h
      case isFalse => exact .inl h

/-! ## One object -/

structure Ok (upTo : Signals) (s : Sync) : Prop where
  hashed : Hashed s
  covers : ∀ f ∈ owed s.log, Covers upTo s f.toFenceId

theorem ok_create (upTo : Signals) : Ok upTo create :=
  ⟨⟨nofun, fun _ => nodup_nil⟩, nofun⟩

theorem Ok.mono {upTo later : Signals} (h : ∀ c, upTo c ≤ later c) (hs : Ok upTo s) : Ok later s :=
  ⟨hs.hashed, fun f hf => (hs.covers f hf).mono h⟩

theorem ok_entryFree (h : Ok upTo s) (he : Signaled upTo e.toFenceId) : Ok upTo (s.entryFree e) :=
  ⟨hashed_entryFree h.hashed e, fun f hf => covers_entryFree he (h.covers f hf)⟩

theorem ok_syncFence (h : Ok upTo s) (f : Option Fence) (alloc : Fence → Bool) :
    Ok upTo (syncFence s f alloc).1 := by
  refine ⟨hashed_syncFence h.hashed f alloc, fun g hg => ?_⟩
  rcases owed_syncFence hg with hold | ⟨rfl, hr⟩
  · exact covers_syncFence (h.covers g hold)
  · exact covers_syncFence_self upTo hr

theorem ok_resvChain (adev : Nat) (mode : Mode) (owner : Nat) (alloc : Fence → Bool)
    (ls : List Link) (h : Ok upTo s) :
    Ok upTo (resvChain adev mode owner alloc ls s).1 := by
  induction ls with
  | nil => exact h
  | cons l ls ih =>
    unfold resvChain
    split
    · exact ok_syncFence h _ _
    · exact ih

theorem ok_resvLoop (adev : Nat) (mode : Mode) (owner : Nat) (alloc : Fence → Bool)
    (cs : List (List Link)) (h : Ok upTo s) :
    Ok upTo (resvLoop adev mode owner alloc cs s).1 := by
  induction cs generalizing s with
  | nil => exact h
  | cons c cs ih =>
    have hc := ok_resvChain adev mode owner alloc c h
    unfold resvLoop
    split
    case h_1 t r heq => simpa [heq] using hc
    case h_2 t heq => exact ih (by simpa [heq] using hc)

theorem ok_syncResv (adev : Nat) (h : Ok upTo s) (resv : Option (List (List Link))) (mode : Mode)
    (owner : Nat) (alloc : Fence → Bool) :
    Ok upTo (syncResv adev s resv mode owner alloc).1 := by
  cases resv with
  | none => exact h
  | some cs => exact ok_resvLoop adev mode owner alloc cs h

theorem ok_peekLoop (ring : Option Nat) (es : List Fence) (h : Ok upTo s) :
    Ok upTo (peekLoop upTo ring es s).1 := by
  induction es generalizing s with
  | nil => exact h
  | cons f es ih =>
    unfold peekLoop
    split
    case isTrue hf => exact ih (ok_entryFree h hf)
    case isFalse =>
      split
      · split
        · split
          · exact ih h
          · exact h
        · exact h
      · exact h

theorem ok_handOut (h : Ok upTo s) : Ok upTo { s.entryFree f with log := .handOut f :: s.log } := by
  refine ⟨⟨(hashed_entryFree h.hashed f).bucket, (hashed_entryFree h.hashed f).nodup⟩, ?_⟩
  intro g hg
  obtain ⟨hg, hgf⟩ := mem_filter.mp hg
  have hgf : ¬ NotLater g.toFenceId f.toFenceId := of_decide_eq_true hgf
  rcases h.covers g hg with hs | ⟨e, he, hn⟩
  · exact .inl hs
  · have hef : e ≠ f := fun heq => hgf (heq ▸ hn)
    refine .inr ⟨e, ?_, hn⟩
    by_cases hi : hash g.context = hash f.context
    · simpa [Sync.entryFree, Sync.setBucket, hi] using
        (mem_erase_of_ne hef).mpr (hi ▸ he)
    · simpa [Sync.entryFree, Sync.setBucket, hi] using he

theorem ok_getLoop (es : List Fence) (h : Ok upTo s) : Ok upTo (getLoop upTo es s).1 := by
  induction es generalizing s with
  | nil => exact h
  | cons f es ih =>
    simp only [getLoop]
    split
    · exact ok_handOut h
    case isFalse hf => exact ih (ok_entryFree h (not_not.mp hf))

theorem waitLoop_ok (wait : Fence → Option Errno) (es : List Fence) (h : Ok upTo s) :
    Ok (waitLoop wait es (upTo, s)).1.1 (waitLoop wait es (upTo, s)).1.2 ∧
      (∀ c, upTo c ≤ (waitLoop wait es (upTo, s)).1.1 c) ∧
      ((waitLoop wait es (upTo, s)).2 = none →
        ∀ e ∈ es, Signaled (waitLoop wait es (upTo, s)).1.1 e.toFenceId) := by
  induction es generalizing upTo s with
  | nil => exact ⟨h, fun _ => le_rfl, fun _ => nofun⟩
  | cons e es ih =>
    simp only [waitLoop]
    split
    · exact ⟨h, fun _ => le_rfl, nofun⟩
    · have hle := le_signal upTo e.toFenceId
      obtain ⟨hok, hmono, hall⟩ :=
        ih (ok_entryFree (h.mono hle) (signaled_signal upTo e.toFenceId))
      refine ⟨hok, fun c => (hle c).trans (hmono c), fun hr => ?_⟩
      refine forall_mem_cons.mpr ⟨?_, hall hr⟩
      exact (signaled_signal upTo e.toFenceId).mono hmono

theorem syncWait_signals {wait : Fence → Option Errno} (h : Ok upTo s)
    (hr : (syncWait upTo s wait).2 = none) (hf : f ∈ owed s.log) :
    Signaled (syncWait upTo s wait).1.1 f.toFenceId := by
  obtain ⟨-, hmono, hall⟩ := waitLoop_ok wait s.entries h
  rcases h.covers f hf with hs | ⟨e, he, hn⟩
  · exact hs.mono hmono
  · have hmem : e ∈ s.entries := (mem_entries h.hashed).mpr (hn.1 ▸ he)
    exact hn.signaled (hall hr e hmem)

theorem standsFor_of_entries (h : Ok upTo s) {waited : List FenceId}
    (hall : ∀ e ∈ s.entries, Signaled upTo e.toFenceId ∨ ∃ d ∈ waited, NotLater e.toFenceId d) :
    StandsFor upTo waited s := by
  intro later hle hwaited f hf
  rcases h.covers f hf with hs | ⟨e, he, hn⟩
  · exact hs.mono hle
  · have hmem : e ∈ s.entries := (mem_entries h.hashed).mpr (hn.1 ▸ he)
    refine hn.signaled ?_
    rcases hall e hmem with hs | ⟨d, hd, hed⟩
    · exact hs.mono hle
    · exact hed.signaled (hwaited d hd)

/-! ## Jobs -/

theorem pushLoop_ok (hadd : KeepsDependencies add) (es : List Fence) {deps : List FenceId}
    (h : Ok upTo s) :
    Ok upTo (pushLoop add upTo es (s, deps)).1.1 ∧
      (∀ g ∈ deps, ∃ d ∈ (pushLoop add upTo es (s, deps)).1.2, NotLater g d) ∧
      ((pushLoop add upTo es (s, deps)).2 = none → ∀ e ∈ es, Signaled upTo e.toFenceId ∨
        ∃ d ∈ (pushLoop add upTo es (s, deps)).1.2, NotLater e.toFenceId d) := by
  induction es generalizing s deps with
  | nil => exact ⟨h, fun g hg => ⟨g, hg, .refl _⟩, fun _ => nofun⟩
  | cons e es ih =>
    simp only [pushLoop]
    split
    case isTrue he =>
      obtain ⟨hok, hdeps, hall⟩ := @ih _ deps (ok_entryFree h he)
      exact ⟨hok, hdeps, fun hr => forall_mem_cons.mpr ⟨.inl he, hall hr⟩⟩
    case isFalse =>
      split
      · exact ⟨h, fun g hg => ⟨g, hg, .refl _⟩, nofun⟩
      case h_2 deps' hd =>
        obtain ⟨hok, hdeps, hall⟩ := @ih _ deps' h
        have hkeep := hadd deps e.toFenceId deps' hd
        have hnew : ∀ g, g = e.toFenceId ∨ g ∈ deps →
            ∃ d ∈ (pushLoop add upTo es (s, deps')).1.2, NotLater g d := by
          intro g hg
          obtain ⟨d, hd, hgd⟩ := hkeep g hg
          obtain ⟨d', hd', hdd⟩ := hdeps d hd
          exact ⟨d', hd', hgd.trans hdd⟩
        exact ⟨hok, fun g hg => hnew g (.inr hg),
          fun hr => forall_mem_cons.mpr ⟨.inr (hnew _ (.inl rfl)), hall hr⟩⟩

theorem pushToJob_covers (hadd : KeepsDependencies add) {deps : List FenceId} (h : Ok upTo s)
    (hr : (pushToJob add upTo s deps).2 = none) :
    StandsFor upTo (pushToJob add upTo s deps).1.2 s :=
  standsFor_of_entries h ((pushLoop_ok hadd s.entries h).2.2 hr)

/-! ## Copies -/

@[simp] theorem setSync_self (st : State) (i : Nat) (s : Sync) : (st.setSync i s).sync i = s := by
  simp [State.setSync]

theorem setSync_ne {i k : Nat} (s : Sync) (h : k ≠ i) : (st.setSync i s).sync k = st.sync k := by
  simp [State.setSync, h]

@[simp] theorem setSync_upTo (st : State) (i : Nat) (s : Sync) : (st.setSync i s).upTo = st.upTo :=
  rfl

def Inv (st : State) : Prop := ∀ i, Ok st.upTo (st.sync i)

theorem inv_setSync (h : Inv st) (hs : Ok st.upTo s) : Inv (st.setSync i s) := by
  intro k
  by_cases hk : k = i
  · rw [hk, setSync_self]
    exact hs
  · rw [setSync_ne _ hk]
    exact h k

theorem cloneLoop_inv (source clone : Nat) (alloc : Fence → Bool) (es : List Fence) (h : Inv st) :
    Inv (cloneLoop source clone alloc es st).1 ∧
      (cloneLoop source clone alloc es st).1.upTo = st.upTo ∧
      (∀ g, Covers st.upTo (st.sync clone) g →
        Covers st.upTo ((cloneLoop source clone alloc es st).1.sync clone) g) ∧
      ((cloneLoop source clone alloc es st).2 = none → ∀ e ∈ es,
        Covers st.upTo ((cloneLoop source clone alloc es st).1.sync clone) e.toFenceId) := by
  induction es generalizing st with
  | nil => exact ⟨h, rfl, fun _ hg => hg, fun _ => nofun⟩
  | cons e es ih =>
    simp only [cloneLoop]
    split
    · have hfence := ok_syncFence (h clone) (some e) alloc
      have hold : ∀ g, Covers st.upTo (st.sync clone) g →
          Covers st.upTo (syncFence (st.sync clone) (some e) alloc).1 g :=
        fun g hg => covers_syncFence hg
      have hself : (syncFence (st.sync clone) (some e) alloc).2 = none →
          Covers st.upTo (syncFence (st.sync clone) (some e) alloc).1 e.toFenceId :=
        covers_syncFence_self st.upTo
      split
      case h_1 c r heq =>
        rw [heq] at hfence hold
        exact ⟨inv_setSync h hfence, rfl, fun g hg => by simpa using hold g hg, nofun⟩
      case h_2 c heq =>
        rw [heq] at hfence hold hself
        obtain ⟨hinv, hup, hcov, hall⟩ := ih (inv_setSync (i := clone) h hfence)
        simp only [setSync_self, setSync_upTo] at hup hcov hall
        exact ⟨hinv, hup, fun g hg => hcov g (hold g hg),
          fun hr => forall_mem_cons.mpr ⟨hcov _ (hself rfl), hall hr⟩⟩
    case isFalse he =>
      have he : Signaled st.upTo e.toFenceId := not_not.mp he
      obtain ⟨hinv, hup, hcov, hall⟩ :=
        ih (inv_setSync (i := source) h (ok_entryFree (h source) he))
      simp only [setSync_upTo] at hup hcov hall
      have hold : ∀ g, Covers st.upTo (st.sync clone) g → Covers st.upTo
          ((st.setSync source ((st.sync source).entryFree e)).sync clone) g := by
        intro g hg
        by_cases hc : clone = source
        · subst hc
          rw [setSync_self]
          exact covers_entryFree he hg
        · rw [setSync_ne _ hc]
          exact hg
      exact ⟨hinv, hup, fun g hg => hcov g (hold g hg),
        fun hr => forall_mem_cons.mpr ⟨.inl he, hall hr⟩⟩

theorem owed_covered {st st' : State} {i j : Nat} (h : Ok st.upTo (st.sync i))
    (hall : ∀ e ∈ (st.sync i).entries, Covers st.upTo (st'.sync j) e.toFenceId)
    (hf : f ∈ owed (st.sync i).log) : Covers st.upTo (st'.sync j) f.toFenceId := by
  rcases h.covers f hf with hs | ⟨e, he, hn⟩
  · exact .inl hs
  · exact .of_notLater hn (hall e ((mem_entries h.hashed).mpr (hn.1 ▸ he)))

theorem syncClone_inv (source clone : Nat) (alloc : Fence → Bool) (h : Inv st) :
    Inv (syncClone st source clone alloc).1 := by
  obtain ⟨hinv, hup, hcov, hall⟩ := cloneLoop_inv source clone alloc (st.sync source).entries h
  unfold syncClone
  split
  case h_1 st' r heq => simpa [heq] using hinv
  case h_2 st' heq =>
    rw [heq] at hinv hup hcov hall
    refine inv_setSync hinv ⟨⟨(hinv clone).hashed.bucket, (hinv clone).hashed.nodup⟩, ?_⟩
    intro f hf
    rw [owed_map_add] at hf
    rcases mem_append.mp hf with hf | hf
    · have hc : Covers st.upTo (st'.sync clone) f.toFenceId :=
        owed_covered (h source) (hall rfl) hf
      rw [← hup] at hc
      exact hc
    · exact (hinv clone).covers f hf

theorem syncClone_covers {source clone : Nat} (h : Inv st)
    (hr : (syncClone st source clone alloc).2 = none) :
    StandsFor st.upTo (((syncClone st source clone alloc).1.sync clone).entries.map
      Fence.toFenceId) (st.sync source) := by
  obtain ⟨hinv, hup, -, hall⟩ := cloneLoop_inv source clone alloc (st.sync source).entries h
  refine standsFor_of_entries (h source) fun e he => ?_
  unfold syncClone at hr ⊢
  split at hr
  · cases hr
  case h_2 st' heq =>
    rw [heq] at hinv hall
    rcases hall rfl e he with hs | ⟨e', he', hn⟩
    · exact .inl hs
    · refine .inr ⟨e'.toFenceId, mem_map_of_mem ?_, hn⟩
      dsimp only
      rw [setSync_self]
      show e' ∈ (st'.sync clone).entries
      exact (mem_entries (hinv clone).hashed).mpr (hn.1 ▸ he')

/-! ## Runs -/

theorem inv_init (upTo : Signals) : Inv (init upTo) := fun _ => ok_create upTo

theorem inv_step (hadd : KeepsDependencies add) (st : State) (op : Op) (h : Inv st) :
    Inv (step add st op) := by
  cases op with
  | fence i f alloc => exact inv_setSync h (ok_syncFence (h i) f alloc)
  | resv adev i resv mode owner alloc =>
    exact inv_setSync h (ok_syncResv adev (h i) resv mode owner alloc)
  | peek i ring => exact inv_setSync h (ok_peekLoop ring _ (h i))
  | get i => exact inv_setSync h (ok_getLoop _ (h i))
  | clone source clone alloc => exact syncClone_inv source clone alloc h
  | pushToJob i job => exact inv_setSync h (pushLoop_ok hadd _ (h i)).1
  | wait i wait =>
    obtain ⟨hok, hmono, -⟩ := waitLoop_ok wait (st.sync i).entries (h i)
    intro k
    by_cases hk : k = i
    · subst hk
      simpa [step, syncWait] using hok
    · simpa [step, syncWait, setSync_ne _ hk] using (h k).mono hmono
  | signal f => exact fun i => (h i).mono (le_signal st.upTo f)

/-- In every run the sync objects cover what was added to them. -/
theorem sync_covers (add : AddDependency) (hadd : KeepsDependencies add) (upTo : Signals)
    (ops : List Op) : Covered add (run (step add) (init upTo) ops) := by
  have h : Inv (run (step add) (init upTo) ops) := run_inv (inv_step hadd) (inv_init upTo) ops
  refine ⟨fun i => entries_nodup (h i).hashed, fun i f hf hs => ?_,
    fun i wait hr f hf => syncWait_signals (h i) hr hf,
    fun i job hr => pushToJob_covers hadd (h i) hr, fun i j alloc hr => syncClone_covers h hr⟩
  obtain ⟨e, he, hn⟩ := ((h i).covers f hf).resolve_left hs
  exact ⟨e, (mem_entries (h i).hashed).mpr (hn.1 ▸ he), hn⟩

def schedAddDependency (deps : List FenceId) (f : FenceId) : Option (List FenceId) :=
  some (go deps)
where
  go : List FenceId → List FenceId
    | [] => [f]
    | d :: ds =>
      if d.context ≠ f.context then d :: go ds
      else if isLater f d then f :: ds
      else d :: ds

theorem schedAddDependency_go (f : FenceId) (deps : List FenceId) (g : FenceId)
    (hg : g = f ∨ g ∈ deps) : ∃ d ∈ schedAddDependency.go f deps, NotLater g d := by
  induction deps with
  | nil => exact ⟨f, mem_singleton_self f, by simpa using hg.elim (· ▸ .refl g) nofun⟩
  | cons d ds ih =>
    unfold schedAddDependency.go
    split
    · rcases hg with hg | hg
      · obtain ⟨d', hd', hn⟩ := ih (.inl hg)
        exact ⟨d', mem_cons_of_mem _ hd', hn⟩
      · rcases mem_cons.mp hg with rfl | hg
        · exact ⟨g, mem_cons_self, .refl g⟩
        · obtain ⟨d', hd', hn⟩ := ih (.inr hg)
          exact ⟨d', mem_cons_of_mem _ hd', hn⟩
    case isFalse hc =>
      have hc : d.context = f.context := not_not.mp hc
      split
      case isTrue hl =>
        rcases hg with rfl | hg
        · exact ⟨g, mem_cons_self, .refl g⟩
        · rcases mem_cons.mp hg with rfl | hg
          · exact ⟨f, mem_cons_self, hc, Nat.le_of_lt (by simpa [isLater] using hl)⟩
          · exact ⟨g, mem_cons_of_mem _ hg, .refl g⟩
      case isFalse hl =>
        rcases hg with rfl | hg
        · exact ⟨d, mem_cons_self, hc.symm, by simpa [isLater] using hl⟩
        · exact ⟨g, hg, .refl g⟩

theorem schedAddDependency_keeps : KeepsDependencies schedAddDependency := by
  intro deps f deps' h
  cases h
  exact schedAddDependency_go f deps

def exFence : Fence := { context := 1, seqno := 1 }
def exLater : Fence := { context := 1, seqno := 2 }
def exOther : Fence := { context := 2, seqno := 1 }

def exOps : List Op :=
  [.fence 0 (some exFence) fun _ => true, .fence 0 (some exOther) fun _ => true,
    .fence 0 (some exLater) fun _ => true, .clone 0 1 fun _ => true, .pushToJob 0 0,
    .wait 1 fun _ => none, .get 0]

theorem sync_covers_exOps :
    Covered schedAddDependency (run (step schedAddDependency) (init fun _ => 0) exOps) :=
  sync_covers _ schedAddDependency_keeps _ exOps

/-- When the later of two fences is handed out, nothing is left for the earlier one. -/
theorem sync_covers_handedOut :
    ¬ ∀ upTo ops i,
      let st := run (step schedAddDependency) (init upTo) ops
      ∀ f ∈ added (st.sync i).log, f ∉ handedOut (st.sync i).log →
        ¬ Signaled st.upTo f.toFenceId →
        ∃ e ∈ (st.sync i).entries, NotLater f.toFenceId e.toFenceId := by
  intro h
  obtain ⟨e, he, -⟩ := h (fun _ => 0)
    [.fence 0 (some exFence) fun _ => true, .fence 0 (some exLater) fun _ => true, .get 0] 0
    exFence (by decide) (by decide) (by decide)
  exact absurd he (by decide +revert)

end Amdkfd.AmdgpuSync
