import Amdkfd.Lib.Extent

/-!
# The cursor over a resource

`amdgpu_res_cursor.h`: a walk over a range of the blocks of a resource. Every position is a count
of bytes from the start of the resource.
-/

namespace Amdkfd.Ttm

open Lib List

/-- `struct amdgpu_res_cursor`. `node` is the list of the blocks behind the one it is in. -/
structure Cursor where
  start : Nat
  size : Nat
  remaining : Nat
  node : List Extent
  deriving DecidableEq

/-- `amdgpu_res_first` over blocks that lie at `start` and have `size` bytes. It is `none` past the
end of the blocks, where the source reads what is not a block. -/
def resFirst : List Extent → Nat → Nat → Option Cursor
  | [], _, _ => none
  | block :: blocks, start, size =>
    if block.size ≤ start then resFirst blocks (start - block.size) size
    else some
      { start := block.start + start
        size := min (block.size - start) size
        remaining := size
        node := blocks }

def resNext (cur : Cursor) (size : Nat) : Cursor :=
  let remaining := cur.remaining - size
  if remaining = 0 then { cur with remaining := remaining }
  else if cur.size - size ≠ 0 then
    { cur with remaining := remaining, size := cur.size - size, start := cur.start + size }
  else
    match cur.node with
    | [] => { cur with remaining := remaining, size := 0 }
    | block :: blocks =>
      { start := block.start
        size := min block.size remaining
        remaining := remaining
        node := blocks }

structure Cursor.At (cur : Cursor) (blocks : List Extent) (pos remaining : Nat) : Prop where
  remaining_eq : cur.remaining = remaining
  size_pos : 0 < remaining → 0 < cur.size
  size_le : 0 < remaining → cur.size ≤ remaining
  node_pos : ∀ block ∈ cur.node, 0 < block.size
  room : 0 < remaining → remaining ≤ cur.size + Extent.total cur.node
  bytes : ∀ i < remaining,
    Extent.locate (⟨cur.start, cur.size⟩ :: cur.node) i = Extent.locate blocks (pos + i)

variable {cur : Cursor} {blocks : List Extent}

theorem Cursor.At.locate {pos remaining i : Nat} (h : cur.At blocks pos remaining)
    (hrem : 0 < remaining) (hi : i < cur.size) :
    Extent.locate blocks (pos + i) = some (cur.start + i) := by
  have hle := h.size_le hrem
  rw [← h.bytes i (by omega)]
  exact Extent.locate_head hi

theorem locate_cut {start size remaining i : Nat} (hi : i < remaining) :
    Extent.locate (⟨start, min size remaining⟩ :: blocks) i =
      Extent.locate (⟨start, size⟩ :: blocks) i := by
  rcases le_total size remaining with hle | hle
  · rw [min_eq_left hle]
  · rw [min_eq_right hle, Extent.locate_head hi, Extent.locate_head (by exact hi.trans_le hle)]

theorem resFirst_at {start size : Nat} (hpos : ∀ block ∈ blocks, 0 < block.size)
    (hstart : start < Extent.total blocks) (hsize : start + size ≤ Extent.total blocks) :
    ∃ cur, resFirst blocks start size = some cur ∧ cur.At blocks start size := by
  induction blocks generalizing start with
  | nil => exact absurd hstart (Nat.not_lt_zero start)
  | cons block blocks ih =>
    rw [Extent.total_cons] at hstart hsize
    by_cases hskip : block.size ≤ start
    · have hrest : start - block.size < Extent.total blocks := by omega
      obtain ⟨cur, hcur, hat⟩ :=
        ih (fun b hb => hpos b (mem_cons_of_mem block hb)) hrest (by omega)
      refine ⟨cur, (if_pos hskip).trans hcur, { hat with bytes := fun i hi => ?_ }⟩
      rw [hat.bytes i hi, Extent.locate_tail (show block.size ≤ start + i by omega)]
      congr 1
      omega
    · refine ⟨_, if_neg hskip, rfl, fun h => ?_, fun h => ?_,
        fun b hb => hpos b (mem_cons_of_mem block hb), fun h => ?_, fun i hi => ?_⟩
      · exact lt_min (by omega) h
      · exact min_le_right ..
      · show size ≤ min (block.size - start) size + Extent.total blocks
        omega
      · rw [locate_cut hi]
        exact Extent.locate_drop (Nat.le_of_not_le hskip)

variable {pos remaining n : Nat}

theorem Cursor.At.resNext_cases (h : cur.At blocks pos remaining) (hn : n ≤ cur.size)
    (hmore : n < remaining) :
    (n < cur.size ∧ resNext cur n = ⟨cur.start + n, cur.size - n, remaining - n, cur.node⟩) ∨
    ∃ block rest, n = cur.size ∧ cur.node = block :: rest ∧ 0 < block.size ∧
      resNext cur n = ⟨block.start, min block.size (remaining - n), remaining - n, rest⟩ := by
  have hrem := h.remaining_eq
  have hneg : ¬cur.remaining - n = 0 := by omega
  unfold resNext
  dsimp only
  rw [if_neg hneg, hrem]
  rcases eq_or_lt_of_le hn with hend | hin
  · have hzero : cur.size - n = 0 := by rw [hend, Nat.sub_self]
    rw [if_neg (not_not_intro hzero)]
    cases hnode : cur.node with
    | nil =>
      have hroom := h.room (Nat.zero_lt_of_lt hmore)
      rw [hnode] at hroom
      simp only [Extent.total, map_nil, sum_nil] at hroom
      omega
    | cons block rest =>
      have hblock := h.node_pos block (by rw [hnode]; exact mem_cons_self)
      exact .inr ⟨block, rest, hend, rfl, hblock, rfl⟩
  · exact .inl ⟨hin, if_pos (Nat.sub_ne_zero_of_lt hin)⟩

theorem Cursor.At.next (h : cur.At blocks pos remaining) (hn : n ≤ cur.size) (hle : n ≤ remaining) :
    (resNext cur n).At blocks (pos + n) (remaining - n) := by
  have hrem := h.remaining_eq
  by_cases hend : remaining - n = 0
  · -- nothing remains: only the count is looked at
    have hcur : resNext cur n = { cur with remaining := cur.remaining - n } :=
      if_pos (by rw [hrem, hend])
    rw [hcur, hend]
    exact ⟨by show cur.remaining - n = 0; rw [hrem, hend], fun hlt => absurd hlt (lt_irrefl 0),
      fun hlt => absurd hlt (lt_irrefl 0), h.node_pos, fun hlt => absurd hlt (lt_irrefl 0),
      fun i hi => absurd hi (Nat.not_lt_zero i)⟩
  have hmore : 0 < remaining := by omega
  have hroom := h.room hmore
  have hsize := h.size_le hmore
  have hbytes (i : Nat) (hi : i < remaining - n) :
      Extent.locate (⟨cur.start, cur.size⟩ :: cur.node) (n + i) =
        Extent.locate blocks (pos + n + i) := by
    rw [h.bytes (n + i) (by omega), add_assoc]
  rcases h.resNext_cases hn (by omega) with ⟨hin, hcur⟩ | ⟨block, rest, heq, hnode, hblock, hcur⟩
  · rw [hcur]
    refine ⟨rfl, fun _ => Nat.sub_pos_of_lt hin, fun _ => ?_, h.node_pos, fun _ => ?_,
      fun i hi => ?_⟩
    · show cur.size - n ≤ remaining - n
      omega
    · show remaining - n ≤ cur.size - n + Extent.total cur.node
      omega
    · rw [← hbytes i hi]
      exact Extent.locate_drop hn
  · rw [hcur]
    refine ⟨rfl, fun hlt => lt_min hblock hlt, fun _ => min_le_right .., fun b hb => ?_,
      fun _ => ?_, fun i hi => ?_⟩
    · exact h.node_pos b (by rw [hnode]; exact mem_cons_of_mem block hb)
    · rw [hnode, Extent.total_cons] at hroom
      show remaining - n ≤ min block.size (remaining - n) + Extent.total rest
      omega
    · rw [locate_cut hi, ← hbytes i hi, hnode, heq]
      exact (Extent.locate_tail_add ⟨cur.start, cur.size⟩ (block :: rest) i).symm

/-- The cursor, at byte `pos` with `remaining` bytes to go, ends where its block does or where the
range does, and the blocks behind it end where they should. -/
structure Cursor.Ends (cur : Cursor) (blocks : List Extent) (pos remaining : Nat) : Prop where
  size_eq : 0 < remaining → pos + cur.size = min (Extent.endOf blocks pos) (pos + remaining)
  later : ∀ i, cur.size ≤ i → i < remaining →
    Extent.endOf blocks (pos + i) = pos + cur.size + Extent.endOf cur.node (i - cur.size)

theorem resFirst_ends {start size : Nat} (h : resFirst blocks start size = some cur) :
    cur.Ends blocks start size := by
  induction blocks generalizing start with
  | nil => cases h
  | cons block blocks ih =>
    unfold resFirst at h
    by_cases hskip : block.size ≤ start
    · rw [if_pos hskip] at h
      obtain ⟨hsize, hlater⟩ := ih h
      refine ⟨fun hpos => ?_, fun i hi hlt => ?_⟩
      · have := hsize hpos
        rw [Extent.endOf_tail hskip]
        omega
      · have := hlater i hi hlt
        rw [Extent.endOf_tail (hskip.trans (Nat.le_add_right start i)),
          Nat.sub_add_comm hskip, this]
        omega
    · rw [if_neg hskip] at h
      obtain rfl := Option.some.inj h
      have hin : start < block.size := Nat.lt_of_not_le hskip
      refine ⟨fun _ => ?_, fun i hi hlt => ?_⟩
      · show start + min (block.size - start) size = _
        rw [Extent.endOf_head hin]
        omega
      · have hi : min (block.size - start) size ≤ i := hi
        show _ = start + min (block.size - start) size +
          Extent.endOf blocks (i - min (block.size - start) size)
        have hcut : min (block.size - start) size = block.size - start := by omega
        rw [hcut, Extent.endOf_tail (show block.size ≤ start + i by omega),
          Nat.add_sub_cancel' hin.le]
        congr 2
        omega

theorem Cursor.Ends.next (h : cur.Ends blocks pos remaining) (hat : cur.At blocks pos remaining)
    (hn : n ≤ cur.size) (hle : n ≤ remaining) :
    (resNext cur n).Ends blocks (pos + n) (remaining - n) := by
  rcases Nat.eq_zero_or_pos (remaining - n) with hend | hmore
  · rw [hend]
    exact ⟨fun hlt => absurd hlt (lt_irrefl 0), fun i _ hi => absurd hi (Nat.not_lt_zero i)⟩
  have hpos : 0 < remaining := by omega
  have hsize := h.size_eq hpos
  rcases hat.resNext_cases hn (Nat.lt_of_sub_pos hmore) with
    ⟨hin, hcur⟩ | ⟨block, rest, rfl, hnode, hblock, hcur⟩
  · rw [hcur]
    refine ⟨fun _ => ?_, fun i hi hlt => ?_⟩
    · show pos + n + (cur.size - n) = _
      rw [Extent.endOf_add (by omega)]
      omega
    · have hi : cur.size - n ≤ i := hi
      have := h.later (n + i) (by omega) (by omega)
      show _ = pos + n + (cur.size - n) + Extent.endOf cur.node (i - (cur.size - n))
      have harg : n + i - cur.size = i - (cur.size - n) := by omega
      rw [add_assoc pos n i, this, harg]
      omega
  · -- the old block was not cut
    have hlater (i : Nat) (hi : i < remaining - cur.size) :
        Extent.endOf blocks (pos + cur.size + i) =
          pos + cur.size + Extent.endOf (block :: rest) i := by
      have := h.later (cur.size + i) (Nat.le_add_right _ _) (by omega)
      rwa [hnode, Nat.add_sub_cancel_left, ← add_assoc] at this
    rw [hcur]
    refine ⟨fun _ => ?_, fun i hi hlt => ?_⟩
    · show pos + cur.size + min block.size (remaining - cur.size) = _
      have := hlater 0 hmore
      rw [add_zero, Extent.endOf_head hblock] at this
      rw [this]
      omega
    · have hi : min block.size (remaining - cur.size) ≤ i := hi
      have hcut : min block.size (remaining - cur.size) = block.size := by omega
      show _ = pos + cur.size + min block.size (remaining - cur.size) +
        Extent.endOf rest (i - min block.size (remaining - cur.size))
      rw [hcut, hlater i hlt, Extent.endOf_tail (by omega), add_assoc _ block.size]

end Amdkfd.Ttm
