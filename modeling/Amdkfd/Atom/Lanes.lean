import Amdkfd.Atom.Bounds

/-!
# Lanes of the destination

A read-modify-write opcode of `atom.c` replaces the lane of its destination that its attribute
selects. It decodes the destination twice, and keeps the word that was read in `saved`. For a
register without an indirect IO read method `saved` is not set, and the write method has a check of
its own.
-/

namespace Amdkfd.Atom

open Option

/-! ## Lanes -/

/-- The first bit and the number of bits of a lane. -/
def Align.lane : Align → Nat × Nat
  | .dword => (0, 32)
  | .word0 => (0, 16)
  | .word8 => (8, 16)
  | .word16 => (16, 16)
  | .byte0 => (0, 8)
  | .byte8 => (8, 8)
  | .byte16 => (16, 8)
  | .byte24 => (24, 8)

/-- The lane of a destination: as large as that of the source, at byte `col`. There is no word at
byte 3, but the whole word. -/
def laneAt (align : Align) (col : Nat) : Nat × Nat :=
  if align.lane.2 + 8 * col ≤ 32 then (8 * col, align.lane.2) else (0, 32)

/-- The lane that an attribute selects: for the opcodes with one operand that of the source. -/
def Func.lane (func : Func) (attr : Nat) : Nat × Nat :=
  match func with
  | .clear _ | .shiftLeft _ | .shiftRight _ => (alignOf attr).lane
  | _ => laneAt (alignOf attr) (attr >>> 6 &&& 3)

def laneValue (lane : Nat × Nat) (word : UInt32) : UInt32 :=
  .ofNat (word.toNat / 2 ^ lane.1 % 2 ^ lane.2)

def Replaced (lane : Nat × Nat) (old val word : UInt32) : Prop :=
  ∀ i < 32, word.toBitVec.getLsbD i =
    if lane.1 ≤ i ∧ i < lane.1 + lane.2 then val.toBitVec.getLsbD (i - lane.1)
    else old.toBitVec.getLsbD i

variable (align : Align)

theorem mask_bit : ∀ i < 32, (atomArgMask align).toBitVec.getLsbD i =
    decide (align.lane.1 ≤ i ∧ i < align.lane.1 + align.lane.2) := by
  cases align <;> decide

theorem replaced_word (old val : UInt32) :
    Replaced align.lane old val (((val <<< atomArgShift align) &&& atomArgMask align) |||
      (old &&& ~~~ (atomArgMask align))) := by
  intro i hi
  have hshift : (val <<< atomArgShift align).toBitVec = val.toBitVec <<< align.lane.1 := by
    cases align <;> rfl
  rw [UInt32.toBitVec_or, UInt32.toBitVec_and, UInt32.toBitVec_and, UInt32.toBitVec_not, hshift]
  simp only [BitVec.getLsbD_or, BitVec.getLsbD_and, BitVec.getLsbD_not, BitVec.getLsbD_shiftLeft,
    mask_bit align i hi, hi, decide_true, Bool.true_and]
  split
  · next hin => simp [hin, Nat.not_lt.mpr hin.1]
  · next hout => simp [hout]

theorem lane_value (word : UInt32) :
    (word &&& atomArgMask align) >>> atomArgShift align = laneValue align.lane word := by
  apply UInt32.toBitVec_inj.mp
  refine BitVec.eq_of_getLsbD_eq fun i hi => ?_
  have hshift : ((word &&& atomArgMask align) >>> atomArgShift align).toBitVec =
      (word &&& atomArgMask align).toBitVec >>> align.lane.1 := by
    cases align <;> rfl
  rw [hshift, BitVec.getLsbD_ushiftRight, UInt32.toBitVec_and, BitVec.getLsbD_and]
  have hvalue : (laneValue align.lane word).toBitVec.getLsbD i =
      (decide (i < align.lane.2) && word.toBitVec.getLsbD (align.lane.1 + i)) := by
    show (BitVec.ofNat 32 (word.toNat / 2 ^ align.lane.1 % 2 ^ align.lane.2)).getLsbD i = _
    rw [BitVec.getLsbD_ofNat, Nat.testBit_mod_two_pow, Nat.testBit_div_two_pow, decide_eq_true hi,
      Bool.true_and, Nat.add_comm]
    rfl
  rw [hvalue]
  by_cases hin : align.lane.1 + i < 32
  · rw [mask_bit align _ hin, Bool.and_comm]
    congr 1
    simp
  · rw [BitVec.getLsbD_of_ge _ _ (Nat.not_lt.mp hin), Bool.false_and, Bool.and_false]

/-! ## Opcodes -/

/-- A read-modify-write opcode behind its attribute: whether it reads its destination, what is
stored of the lane and the word that were read, the place behind the opcode and what its source
accesses. -/
structure Rmw where
  arg : Arg
  attr : Nat
  reads : Bool
  val : UInt32 → UInt32 → UInt32
  next : Nat
  log : List Access

def rmwOf (card : Card) (ans : Answers) (e : Exec) (func : Func) : Option Rmw :=
  let attr := u8 card e.frame.ptr
  let dptr := e.frame.ptr + 1
  let two := fun (arg : Arg) (f : UInt32 → UInt32 → UInt32 → UInt32) =>
    let src := atomGetSrc card ans.src e attr (atomSkipDst arg attr dptr)
    some (Rmw.mk arg attr true (fun dst saved => f dst saved src.val) src.ptr src.log)
  let one := fun (arg : Arg) (takes : Nat) (f : UInt32 → UInt32 → UInt32) =>
    let ptr := atomSkipDst arg (defAttr attr) dptr
    some (Rmw.mk arg (defAttr attr) true (fun dst _ => f dst (atomGetSrcDirect card .byte0 ptr))
      (ptr + takes) [])
  let part := fun (word : UInt32) =>
    (word &&& atomArgMask (dstAlign attr)) >>> atomArgShift (dstAlign attr)
  match func with
  | .add arg => two arg fun dst _ src => dst + src
  | .and arg => two arg fun dst _ src => dst &&& src
  | .or arg => two arg fun dst _ src => dst ||| src
  | .sub arg => two arg fun dst _ src => dst - src
  | .xor arg => two arg fun dst _ src => dst ^^^ src
  | .shl arg => two arg fun _ saved src => part (saved <<< src.toUInt8.toUInt32)
  | .shr arg => two arg fun _ saved src => part (saved >>> src.toUInt8.toUInt32)
  | .mask arg =>
    let ptr := atomSkipDst arg attr dptr
    let mask := atomGetSrcDirect card (alignOf attr) ptr
    let src := atomGetSrc card ans.src e attr (ptr + immSize (alignOf attr))
    some ⟨arg, attr, true, fun dst _ => (dst &&& mask) ||| src.val, src.ptr, src.log⟩
  | .move arg =>
    let src := atomGetSrc card ans.src e attr (atomSkipDst arg attr dptr)
    some ⟨arg, attr, alignOf attr ≠ .dword, fun _ _ => src.val, src.ptr, src.log⟩
  | .clear arg => one arg 0 fun _ _ => 0
  | .shiftLeft arg => one arg 1 fun dst shift => dst <<< shift
  | .shiftRight arg => one arg 1 fun dst shift => dst >>> shift
  | _ => none

/-- `atom_get_src_int` returns before `saved` is set. -/
def Unread (card : Card) (e : Exec) (arg : Arg) : Prop :=
  arg = .reg ∧ regMode card 0x7F e.ctx.ioMode = false
  deriving Decidable

/-- The destination that is read, with `saved` as 0 where it is not set. -/
def Rmw.read (card : Card) (ans : Answers) (e : Exec) (r : Rmw) : Src :=
  if r.reads then atomGetDst card ans.dst e r.arg r.attr (e.frame.ptr + 1)
  else ⟨atomSkipDst r.arg r.attr (e.frame.ptr + 1), 0, poison, []⟩

/-- The destination as the opcode has it, with `undef` in `saved` when this is not set. -/
def Rmw.dst (card : Card) (ans : Answers) (e : Exec) (undef : UInt32) (r : Rmw) : Src :=
  if r.reads ∧ Unread card e r.arg then { r.read card ans e with saved := undef }
  else r.read card ans e

section
variable {card : Card} {ans : Answers} {e : Exec} {func : Func} {r : Rmw}

theorem runFunc_read (h : rmwOf card ans e func = some r) :
    runFunc card ans e func =
      let dst := r.read card ans e
      atomPutDst card (e.after r.next (dst.log ++ r.log)) r.arg r.attr (e.frame.ptr + 1)
        (r.val dst.val dst.saved) dst.saved := by
  cases func with
  | add arg | and arg | or arg | sub arg | xor arg | shl arg | shr arg | mask arg =>
    obtain rfl := some.inj h
    simp only [runFunc, atomOpAdd, atomOpAnd, atomOpOr, atomOpSub, atomOpXor, atomOpShl, atomOpShr,
      atomOpModify, atomOpMask, atomGetDst, atomGetSrcInt_ptr]
    rfl
  | move arg =>
    obtain rfl := some.inj h
    simp only [runFunc, atomOpMove, Rmw.read, decide_eq_true_eq]
    split
    · simp only [atomGetDst, atomGetSrcInt_ptr]
      rfl
    · rfl
  | clear arg | shiftLeft arg | shiftRight arg =>
    obtain rfl := some.inj h
    simp only [runFunc, atomOpClear, atomOpShiftLeft, atomOpShiftRight, atomOpUnary, atomGetDst,
      atomGetSrcInt_ptr, List.append_nil]
    rfl
  | _ => cases h

/-- An opcode reads its destination, and stores it whatever an unset `saved` holds. -/
theorem runFunc_rmw (h : rmwOf card ans e func = some r) (undef : UInt32) :
    runFunc card ans e func =
      let dst := r.dst card ans e undef
      atomPutDst card (e.after r.next (dst.log ++ r.log)) r.arg r.attr (e.frame.ptr + 1)
        (r.val dst.val dst.saved) dst.saved := by
  rw [runFunc_read h]
  unfold Rmw.dst
  split
  · -- what goes to a register changes none of the areas
    next hunread =>
    rw [hunread.2.1]
    rfl
  · rfl

/-! ## What is stored -/

/-- What a destination names. -/
inductive Dest
  | reg (idx : Nat) | params (i : Nat) | ws (idx : Nat) | scratch (i : Nat) | pll (idx : Nat)
  | mc (idx : Nat)
  deriving DecidableEq

/-- The value of a destination before the opcode. -/
def Exec.wordAt (ans : Answers) (e : Exec) : Dest → UInt32
  | .params i => e.params i
  | .ws idx => (wsSpecial e.ctx idx).getD (e.frame.ws idx)
  | .scratch i => e.ctx.scratch i
  | .reg _ | .pll _ | .mc _ => ans.dst

/-- Where `atom_put_dst` stores a word. -/
def putDest (card : Card) (e : Exec) (arg : Arg) (ptr : Nat) : Option Dest :=
  let idx := u8 card ptr
  match arg with
  | .reg =>
    if regMode card 0xFF e.ctx.ioMode then some (.reg (u16 card ptr + e.ctx.regBlock.toNat))
    else none
  | .ps => if idx < e.frame.psSize.toNat then some (.params (e.frame.ps + idx)) else none
  | .ws =>
    if idx = 0x44 ∨ idx = 0x45 then none
    else if (wsSpecial e.ctx idx).isSome ∨ idx < e.frame.wsSize then some (.ws idx)
    else none
  | .fb => if beyondScratch card e.ctx idx then none else some (.scratch (scratchIndex e.ctx idx))
  | .pll => some (.pll idx)
  | .mc => some (.mc idx)
  | .id | .imm => none

def putWord (e : Exec) (attr : Nat) (d : Dest) (val saved : UInt32) : UInt32 :=
  let align := dstAlign attr
  let val := ((val <<< atomArgShift align) &&& atomArgMask align) |||
    (saved &&& ~~~ (atomArgMask align))
  if e.ctx.ioMode = .mm ∧ d = .reg 0 then val <<< 2 else val

theorem putWord_eq {attr : Nat} {d : Dest} {val saved : UInt32}
    (h : ¬(e.ctx.ioMode = .mm ∧ d = .reg 0)) :
    Replaced (dstAlign attr).lane saved val (putWord e attr d val saved) := by
  unfold putWord
  rw [if_neg h]
  exact replaced_word _ _ _

/-- The destination is in one of the areas: parameters, workspace or scratch. -/
def InArea (card : Card) (e : Exec) (arg : Arg) (ptr : Nat) : Prop :=
  arg = .ps ∨ arg = .fb ∨ arg = .ws ∧ wsSpecial e.ctx (u8 card ptr) = none

theorem atomPutDst_wordAt {arg : Arg} {attr ptr : Nat} {val saved : UInt32} {d : Dest}
    (h : putDest card e arg ptr = some d) (harea : InArea card e arg ptr) :
    (atomPutDst card e arg attr ptr val saved).wordAt ans d = putWord e attr d val saved := by
  rcases harea with rfl | rfl | ⟨rfl, hspecial⟩
  · dsimp only [putDest] at h
    split at h
    · next hlt =>
      obtain rfl := some.inj h
      simp [atomPutDst, putWord, hlt, Exec.wordAt]
    · cases h
  · dsimp only [putDest] at h
    split at h
    · cases h
    · next hlt =>
      obtain rfl := some.inj h
      simp [atomPutDst, putWord, hlt, Exec.wordAt]
  · have hput :=
      putWsSpecial_isSome e.ctx (putWord e attr (.ws (u8 card ptr)) val saved) (u8 card ptr)
    dsimp only [putDest] at h
    rw [hspecial] at h hput
    split at h
    · cases h
    split at h
    · next hlt =>
      obtain rfl := some.inj h
      have hlt : u8 card ptr < e.frame.wsSize := by simpa using hlt
      have hnone := Option.not_isSome_iff_eq_none.mp (by rw [hput]; exact Bool.false_ne_true)
      simp only [putWord, reduceCtorEq, and_false, if_false] at hnone
      simp [atomPutDst, putWord, hnone, hlt, Exec.wordAt, hspecial]
    · cases h

/-- Where a word is stored, it is read too, unless the read method is missing. -/
theorem atomGetSrcInt_of_putDest (ans : Answers) {arg : Arg} {ptr : Nat} {d : Dest} (align : Align)
    (hd : putDest card e arg ptr = some d) (hread : ¬Unread card e arg) :
    (atomGetSrcInt card ans.dst e arg align ptr).saved = e.wordAt ans d ∧
      (atomGetSrcInt card ans.dst e arg align ptr).val = laneValue align.lane (e.wordAt ans d) := by
  have hof (ptr : Nat) {val : UInt32} (log : List Access) (h : val = e.wordAt ans d) :
      (Src.ofWord align ptr val log).saved = e.wordAt ans d ∧
        (Src.ofWord align ptr val log).val = laneValue align.lane (e.wordAt ans d) := by
    rw [← lane_value, ← h]
    exact ⟨rfl, rfl⟩
  unfold atomGetSrcInt
  cases arg with
  | reg =>
    dsimp only [putDest] at hd ⊢
    split at hd
    · obtain rfl := some.inj hd
      rw [if_pos (by simpa [Unread] using hread)]
      exact hof _ _ rfl
    · cases hd
  | ps =>
    dsimp only [putDest] at hd ⊢
    split at hd
    · next hlt =>
      obtain rfl := some.inj hd
      rw [if_pos hlt]
      exact hof _ _ rfl
    · cases hd
  | ws =>
    dsimp only [putDest] at hd ⊢
    split at hd
    · cases hd
    split at hd
    · next hlt =>
      obtain rfl := some.inj hd
      cases hspecial : wsSpecial e.ctx (u8 card ptr) with
      | some val => exact hof _ _ (by simp [Exec.wordAt, hspecial])
      | none =>
        have hlt : u8 card ptr < e.frame.wsSize := by simpa [hspecial] using hlt
        dsimp only
        rw [if_pos hlt]
        exact hof _ _ (by simp [Exec.wordAt, hspecial])
    · cases hd
  | fb =>
    dsimp only [putDest] at hd ⊢
    split at hd
    · cases hd
    · next hin =>
      obtain rfl := some.inj hd
      rw [if_neg hin]
      exact hof _ _ rfl
  | pll | mc =>
    obtain rfl := some.inj hd
    exact hof _ _ rfl
  | id | imm => cases hd

/-! ## The result -/

/-- How many bytes an opcode has behind it. -/
def Func.length (func : Func) (attr : Nat) : Nat :=
  let src := atomSkipSrcInt (argOf attr) (alignOf attr) 0
  match func with
  | .add arg | .and arg | .or arg | .sub arg | .xor arg | .shl arg | .shr arg | .move arg =>
    1 + atomSkipDst arg attr 0 + src
  | .mask arg => 1 + atomSkipDst arg attr 0 + immSize (alignOf attr) + src
  | .clear arg => 1 + atomSkipDst arg (defAttr attr) 0
  | .shiftLeft arg | .shiftRight arg => 1 + atomSkipDst arg (defAttr attr) 0 + 1
  | _ => 0

/-- A read-modify-write opcode moves on by its length, puts what it makes of its destination into
the same destination, whatever an unset `saved` holds, and a word that it stores is the word there
with the lane replaced. In the areas of the machine the word is there afterwards. -/
def LanesRight (card : Card) (ans : Answers) (e : Exec) (func : Func) : Prop :=
  ∀ r ∈ rmwOf card ans e func,
    (runFunc card ans e func).frame.ptr = e.frame.ptr + func.length (u8 card e.frame.ptr) ∧
    ∀ undef,
      let dst := r.dst card ans e undef
      let val := r.val dst.val dst.saved
      runFunc card ans e func = atomPutDst card (e.after r.next (dst.log ++ r.log)) r.arg r.attr
        (e.frame.ptr + 1) val dst.saved ∧
      ∀ d ∈ putDest card e r.arg (e.frame.ptr + 1),
        let lane := func.lane (u8 card e.frame.ptr)
        let old := e.wordAt ans d
        let word := putWord e r.attr d val dst.saved
        (InArea card e r.arg (e.frame.ptr + 1) → (runFunc card ans e func).wordAt ans d = word) ∧
        (¬(e.ctx.ioMode = .mm ∧ d = .reg 0) →
          Replaced lane old (r.val (laneValue lane old) old) word)

/-- A register that is stored without being read is replaced as a whole, by what the opcode makes of
0 and any word as well as of the register. -/
def LanesHold (card : Card) (ans : Answers) (e : Exec) (func : Func) : Prop :=
  ∀ r ∈ rmwOf card ans e func, Unread card e r.arg → regMode card 0xFF e.ctx.ioMode = true →
    func.lane (u8 card e.frame.ptr) = (0, 32) ∧ ∀ undef, r.val 0 undef = r.val ans.dst ans.dst

theorem skip_add (arg : Arg) (align : Align) (ptr : Nat) :
    atomSkipSrcInt arg align ptr = ptr + atomSkipSrcInt arg align 0 := by
  cases arg <;> simp [atomSkipSrcInt]

theorem rmwOf_next (h : rmwOf card ans e func = some r) :
    r.next = e.frame.ptr + func.length (u8 card e.frame.ptr) := by
  cases func with
  | add arg | and arg | or arg | sub arg | xor arg | shl arg | shr arg | mask arg | move arg =>
    obtain rfl := some.inj h
    simp only [atomGetSrc, atomGetSrcInt_ptr, atomSkipDst, Func.length]
    rw [skip_add, skip_add _ _ (_ + 1)]
    omega
  | clear arg | shiftLeft arg | shiftRight arg =>
    obtain rfl := some.inj h
    simp only [atomSkipDst, Func.length]
    rw [skip_add]
    omega
  | _ => cases h

theorem atomPutDst_ptr (arg : Arg) (attr ptr : Nat) (val saved : UInt32) :
    (atomPutDst card e arg attr ptr val saved).frame.ptr = e.frame.ptr := by
  unfold atomPutDst
  cases arg <;> dsimp only <;> split_ifs <;> first | rfl | (split <;> rfl)

theorem dstAlign_defAttr : ∀ attr < 256, dstAlign (defAttr attr) = alignOf attr := by
  decide +kernel

theorem dstAlign_lane : ∀ attr < 256,
    (dstAlign attr).lane = laneAt (alignOf attr) (attr >>> 6 &&& 3) := by
  decide +kernel

theorem rmwOf_lane (h : rmwOf card ans e func = some r) :
    (dstAlign r.attr).lane = func.lane (u8 card e.frame.ptr) := by
  have hlt : u8 card e.frame.ptr < 256 := u8_lt e.frame.ptr
  cases func with
  | add arg | and arg | or arg | sub arg | xor arg | shl arg | shr arg | mask arg | move arg =>
    obtain rfl := some.inj h
    exact dstAlign_lane _ hlt
  | clear arg | shiftLeft arg | shiftRight arg =>
    obtain rfl := some.inj h
    exact congrArg Align.lane (dstAlign_defAttr _ hlt)
  | _ => cases h

/-- What is not read is replaced as a whole by another value. -/
theorem rmwOf_reads (h : rmwOf card ans e func = some r) (hreads : r.reads = false) :
    func.lane (u8 card e.frame.ptr) = (0, 32) ∧ ∀ x y x' y', r.val x y = r.val x' y' := by
  cases func with
  | move arg =>
    obtain rfl := some.inj h
    have halign : alignOf (u8 card e.frame.ptr) = .dword := by simpa using hreads
    refine ⟨?_, fun _ _ _ _ => rfl⟩
    show laneAt (alignOf (u8 card e.frame.ptr)) _ = _
    rw [halign]
    unfold laneAt
    split
    · next hle =>
      have hle : 32 + 8 * (u8 card e.frame.ptr >>> 6 &&& 3) ≤ 32 := hle
      rw [show u8 card e.frame.ptr >>> 6 &&& 3 = 0 by omega]
      rfl
    · rfl
  | add arg | and arg | or arg | sub arg | xor arg | shl arg | shr arg | mask arg | clear arg
  | shiftLeft arg | shiftRight arg =>
    obtain rfl := some.inj h
    cases hreads
  | _ => cases h

theorem replaced_full {old val word : UInt32} : Replaced (0, 32) old val word ↔ word = val := by
  refine ⟨fun h => ?_, fun h i hi => ?_⟩
  · refine UInt32.toBitVec_inj.mp (BitVec.eq_of_getLsbD_eq fun i hi => ?_)
    exact (h i hi).trans (if_pos ⟨Nat.zero_le i, by omega⟩)
  · rw [h, if_pos ⟨Nat.zero_le i, by omega⟩]
    rfl

theorem laneValue_full (word : UInt32) : laneValue (0, 32) word = word := by
  refine UInt32.toNat_inj.mp ?_
  simp [laneValue]

theorem lane_full_or (align : Align) :
    align.lane = (0, 32) ∨ ∃ i < 32, ¬(align.lane.1 ≤ i ∧ i < align.lane.1 + align.lane.2) := by
  cases align <;> decide

theorem dst_unread (undef : UInt32) (hreads : r.reads = true) (h : Unread card e r.arg) :
    (r.dst card ans e undef).val = 0 ∧ (r.dst card ans e undef).saved = undef := by
  unfold Rmw.dst Rmw.read atomGetDst atomGetSrcInt
  rw [if_pos ⟨hreads, h⟩, if_pos hreads, h.1]
  dsimp only
  rw [h.2]
  exact ⟨rfl, rfl⟩

theorem putDest_unread (ans : Answers) {ptr : Nat} {arg : Arg} {d : Dest}
    (h : Unread card e arg) (hd : putDest card e arg ptr = some d) :
    regMode card 0xFF e.ctx.ioMode = true ∧ e.wordAt ans d = ans.dst := by
  rw [h.1] at hd
  dsimp only [putDest] at hd
  split at hd
  · next hwrite =>
    obtain rfl := some.inj hd
    exact ⟨hwrite, rfl⟩
  · cases hd

/-- The lanes are right exactly when a register that has a write method has a read method too, or
when the opcode replaces the whole of it by what it makes of 0 as well. -/
theorem lanes_right_iff (card : Card) (ans : Answers) (e : Exec) (func : Func) :
    LanesRight card ans e func ↔ LanesHold card ans e func := by
  refine forall₂_congr fun r hr => ?_
  have hlane := rmwOf_lane hr
  constructor
  · rintro ⟨-, h⟩ hunread hwrite
    cases hreads : r.reads with
    | false =>
      obtain ⟨hfull, hval⟩ := rmwOf_reads hr hreads
      exact ⟨hfull, fun _ => hval _ _ _ _⟩
    | true =>
      have hmm : e.ctx.ioMode ≠ .mm := fun hmm => by
        have := hunread.2
        rw [hmm] at this
        cases this
      obtain ⟨d, hd⟩ : ∃ d, putDest card e r.arg (e.frame.ptr + 1) = some d := by
        rw [hunread.1]
        exact ⟨_, if_pos hwrite⟩
      have hspecial : ¬(e.ctx.ioMode = .mm ∧ d = .reg 0) := fun hm => hmm hm.1
      -- the word that is stored, as it should be and as it is
      have hshould (undef : UInt32) := ((h undef).2 d hd).2 hspecial
      have his (undef val : UInt32) := @putWord_eq e r.attr d val undef hspecial
      simp only [(dst_unread _ hreads hunread).1, (dst_unread _ hreads hunread).2,
        (putDest_unread _ hunread hd).2, ← hlane] at hshould
      rcases lane_full_or (dstAlign r.attr) with hfull | ⟨i, hi, hout⟩
      · rw [hfull] at hshould his hlane
        refine ⟨hlane.symm, fun undef => ?_⟩
        have := (replaced_full.mp (his undef (r.val 0 undef))).symm.trans
          (replaced_full.mp (hshould undef))
        rwa [laneValue_full] at this
      · -- a bit outside the lane is that of an unset word
        have hbit (undef : UInt32) :=
          (his undef (r.val 0 undef) i hi).symm.trans (hshould undef i hi)
        simp only [if_neg hout] at hbit
        have hzero := (hbit 0).trans (hbit 0xFFFFFFFF).symm
        have hone : (0xFFFFFFFF : UInt32).toBitVec.getLsbD i = true := by
          show (BitVec.allOnes 32).getLsbD i = true
          rw [BitVec.getLsbD_allOnes, decide_eq_true hi]
        rw [hone] at hzero
        exact absurd hzero (by simp)
  · intro hold
    refine ⟨?_, fun undef =>
      ⟨runFunc_rmw hr undef, fun d hd => ⟨fun harea => ?_, fun hspecial => ?_⟩⟩⟩
    · rw [runFunc_read hr]
      exact (atomPutDst_ptr ..).trans (rmwOf_next hr)
    · rw [runFunc_rmw hr undef]
      exact atomPutDst_wordAt hd harea
    · have his (val saved : UInt32) := @putWord_eq e r.attr d val saved hspecial
      rw [← hlane]
      by_cases hreads : r.reads = false
      · obtain ⟨hfull, hval⟩ := rmwOf_reads hr hreads
        rw [hlane.trans hfull] at his ⊢
        exact replaced_full.mpr ((replaced_full.mp (his _ _)).trans (hval _ _ _ _))
      have hreads : r.reads = true := by simpa using hreads
      by_cases hunread : Unread card e r.arg
      · obtain ⟨hwrite, hold'⟩ := putDest_unread ans hunread hd
        obtain ⟨hfull, hval⟩ := hold hunread hwrite
        rw [(dst_unread undef hreads hunread).1, (dst_unread undef hreads hunread).2, hold']
        rw [hlane.trans hfull] at his ⊢
        rw [laneValue_full]
        exact replaced_full.mpr ((replaced_full.mp (his _ _)).trans (hval undef))
      · obtain ⟨hsaved, hval⟩ := atomGetSrcInt_of_putDest ans (dstAlign r.attr) hd hunread
        unfold Rmw.dst Rmw.read atomGetDst
        rw [if_neg fun h => hunread h.2, if_pos hreads, hsaved, hval]
        exact his _ _

end

/-- Port 1 has a write method at `0x81`, and no read method at `0x01`. -/
def exPortCard : Card :=
  { exCard with
    bios := fun i => ([0x25, 0x10, 0x00, 0x03] : List UInt8)[i]?.getD 0
    iio := fun i => if i = 0x81 then 1 else 0 }

def exPortExec : Exec :=
  { ctx := ⟨0, 0, 0, 0, 0, 0, 0, false, false, .iio 1, fun _ => 0⟩
    params := fun _ => 0
    frame := ⟨0, 0, 0, fun _ => 0, 0, 0, 0, 0, false, 0⟩
    log := [] }

/-- `OR REG[0x0010].[7:0]` with an immediate byte. What is stored above the byte was never set. -/
theorem lanes_not_right : ¬LanesRight exPortCard exAnswers exPortExec (.or .reg) := by
  intro h
  have hword := (((h _ rfl).2 0xFFFFFFFF).2 _ rfl).2 (by decide) 31 (by decide)
  exact absurd hword (by decide)

end Amdkfd.Atom
