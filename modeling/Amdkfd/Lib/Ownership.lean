import Mathlib.Data.List.Nodup
import Mathlib.Data.Set.Insert

/-!
# Exclusive ownership

An allocator hands out the resources of a set and keeps those that are left in a free
set. `holds` gives the resource that a client holds, if any. `Exclusive` says that no
resource is held twice and that the free set is exactly what is not held. It is kept
when a client takes a free resource and when it gives its own back.
-/

namespace Amdkfd.Lib

open List

variable {α ω : Type*}

structure Exclusive (all free : Set α) (holds : ω → Option α) (clients : List ω) : Prop where
  nodup : (clients.filterMap holds).Nodup
  held : ∀ a ∈ clients.filterMap holds, a ∈ all
  rest : ∀ a, a ∈ free ↔ a ∈ all ∧ a ∉ clients.filterMap holds

variable {all free : Set α} {holds : ω → Option α} {clients clients' : List ω} {x : ω} {a : α}

theorem Exclusive.nil : Exclusive all all holds [] where
  nodup := nodup_nil
  held := by simp
  rest := by simp

section
variable (h : Exclusive all free holds clients)
include h

theorem Exclusive.free_subset (ha : a ∈ free) : a ∈ all :=
  ((h.rest a).mp ha).1

theorem Exclusive.perm (hp : clients.Perm clients') : Exclusive all free holds clients' := by
  have hp := hp.filterMap holds
  exact ⟨hp.nodup_iff.mp h.nodup, fun a ha => h.held a (hp.mem_iff.mpr ha),
    fun a => by rw [h.rest, hp.mem_iff]⟩

/-- A client takes a free resource. -/
theorem Exclusive.take (hx : holds x = some a) (ha : a ∈ free) :
    Exclusive all (free \ {a}) holds (x :: clients) := by
  obtain ⟨hall, hnot⟩ := (h.rest a).mp ha
  have hlist : (x :: clients).filterMap holds = a :: clients.filterMap holds :=
    filterMap_cons_some hx
  constructor
  · rw [hlist]
    exact nodup_cons.mpr ⟨hnot, h.nodup⟩
  · rw [hlist]
    intro b hb
    rcases mem_cons.mp hb with rfl | hb
    · exact hall
    · exact h.held b hb
  · intro b
    rw [hlist, Set.mem_sdiff, Set.mem_singleton_iff, h.rest, mem_cons]
    tauto

theorem Exclusive.of_filterMap_eq (heq : clients'.filterMap holds = clients.filterMap holds) :
    Exclusive all free holds clients' :=
  ⟨heq ▸ h.nodup, heq ▸ h.held, heq ▸ h.rest⟩

end

theorem Exclusive.skip (hx : holds x = none) :
    Exclusive all free holds (x :: clients) ↔ Exclusive all free holds clients := by
  have hlist : (x :: clients).filterMap holds = clients.filterMap holds :=
    filterMap_cons_none hx
  exact ⟨fun h => h.of_filterMap_eq hlist.symm, fun h => h.of_filterMap_eq hlist⟩

/-- A client gives its resource back. -/
theorem Exclusive.give (h : Exclusive all free holds (x :: clients)) (hx : holds x = some a) :
    Exclusive all (insert a free) holds clients := by
  have hlist : (x :: clients).filterMap holds = a :: clients.filterMap holds :=
    filterMap_cons_some hx
  obtain ⟨hnodup, hheld, hrest⟩ := h
  rw [hlist] at hnodup hheld hrest
  obtain ⟨hnot, hnodup⟩ := nodup_cons.mp hnodup
  refine ⟨hnodup, fun b hb => hheld b (mem_cons_of_mem _ hb), fun b => ?_⟩
  rw [Set.mem_insert_iff, hrest, mem_cons]
  constructor
  · rintro (rfl | ⟨hall, hb⟩)
    · exact ⟨hheld b mem_cons_self, hnot⟩
    · exact ⟨hall, fun hin => hb (.inr hin)⟩
  · rintro ⟨hall, hb⟩
    by_cases heq : b = a
    · exact .inl heq
    · exact .inr ⟨hall, fun hin => hin.elim heq hb⟩

/-- No two clients hold the same resource. -/
theorem Exclusive.pairwise (h : Exclusive all free holds clients) :
    clients.Pairwise fun x y => ∀ a, holds x = some a → holds y ≠ some a := by
  refine (pairwise_filterMap.mp h.nodup).imp ?_
  intro x y hne a hx hy
  exact hne a hx a hy rfl

theorem Exclusive.not_free (h : Exclusive all free holds clients) (hx : x ∈ clients)
    (ha : holds x = some a) : a ∈ all ∧ a ∉ free := by
  have hin : a ∈ clients.filterMap holds := mem_filterMap.mpr ⟨x, hx, ha⟩
  exact ⟨h.held a hin, fun hfree => ((h.rest a).mp hfree).2 hin⟩

end Amdkfd.Lib
