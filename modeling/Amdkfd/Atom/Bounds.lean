import Amdkfd.Lib.Run
import Amdkfd.Atom.Machine

/-!
# Where the operands of a table lie

`atom.c` checks every operand in the parameter space, the workspace and the scratch area before it
reads or writes. The check of the workspace is right. The check of the scratch area adds in 32 bits
and lets the end itself through, and the check of the parameters compares as unsigned with a size
that a nested call may make negative.
-/

namespace Amdkfd.Atom

open Lib List

/-! ## The promise -/

/-- The access is inside the parameters of the caller, its workspace or the scratch area. -/
def InBounds (card : Card) (paramsSize : Nat) : Access → Prop
  | .params i => i < paramsSize
  | .workspace i size => i < size
  | .scratch i => 4 * i + 4 ≤ card.scratchSizeBytes

/-! ## Operands -/

/-- An operand in one of the areas, with the byte that names its word. -/
inductive Operand
  | ps (idx : Nat)
  | ws (idx : Nat)
  | fb (idx : Nat)
  deriving DecidableEq, Repr

def operandAt (card : Card) (arg : Arg) (ptr : Nat) : List Operand :=
  match arg with
  | .ps => [.ps (u8 card ptr)]
  | .ws => [.ws (u8 card ptr)]
  | .fb => [.fb (u8 card ptr)]
  | .reg | .id | .imm | .pll | .mc => []

def srcOperand (card : Card) (attr ptr : Nat) : List Operand := operandAt card (argOf attr) ptr

/-- The operands of an opcode in the order in which it comes to them. `ptr` is behind the opcode. -/
def operandsOf (card : Card) (ptr : Nat) (func : Func) : List Operand :=
  let attr := u8 card ptr
  let dst := fun arg => operandAt card arg (ptr + 1)
  let src := fun arg => srcOperand card attr (atomSkipDst arg attr (ptr + 1))
  match func with
  | .and arg | .or arg | .add arg | .sub arg | .xor arg | .shl arg | .shr arg =>
    dst arg ++ src arg ++ dst arg
  | .mask arg =>
    dst arg ++
      srcOperand card attr (atomSkipDst arg attr (ptr + 1) + immSize (alignOf attr)) ++ dst arg
  | .move arg => (if alignOf attr ≠ .dword then dst arg else []) ++ src arg ++ dst arg
  | .clear arg | .shiftLeft arg | .shiftRight arg => dst arg ++ dst arg
  | .mul arg | .div arg | .compare arg | .test arg | .mul32 arg | .div32 arg => dst arg ++ src arg
  | .setfbbase | .switch => srcOperand card attr (ptr + 1)
  | .setport _ | .setregblock | .jump _ | .delay | .calltable | .repeat | .nop | .eot | .postcard
  | .beep | .savereg | .restorereg | .setdatablock | .debug | .processds => []

/-- The access that the check of an operand lets through. -/
def accessOf (card : Card) (ctx : Ctx) (f : Frame) : Operand → List Access
  | .ps idx => if idx < f.psSize.toNat then [.params (f.ps + idx)] else []
  | .ws idx =>
    if (wsSpecial ctx idx).isSome then []
    else if idx < f.wsSize then [.workspace idx f.wsSize] else []
  | .fb idx => if beyondScratch card ctx idx then [] else [.scratch (scratchIndex ctx idx)]

section
variable (card : Card) (ans : Answers) (e : Exec) (arg : Arg)

theorem atomGetSrcInt_ptr (val : UInt32) (align : Align) (ptr : Nat) :
    (atomGetSrcInt card val e arg align ptr).ptr = atomSkipSrcInt arg align ptr := by
  unfold atomGetSrcInt atomSkipSrcInt
  cases arg with
  | reg | ps => dsimp only; split <;> rfl
  | ws =>
    dsimp only
    split
    · rfl
    · split <;> rfl
  | id => rfl
  | fb => dsimp only; split <;> rfl
  | imm => cases align <;> rfl
  | pll | mc => rfl

theorem atomGetSrcInt_log (val : UInt32) (align : Align) (ptr : Nat) :
    (atomGetSrcInt card val e arg align ptr).log =
      (operandAt card arg ptr).flatMap (accessOf card e.ctx e.frame) := by
  unfold atomGetSrcInt
  cases arg with
  | reg => dsimp only; split <;> rfl
  | ps =>
    simp only [operandAt, flatMap_singleton, accessOf]
    split <;> rfl
  | ws =>
    simp only [operandAt, flatMap_singleton, accessOf]
    cases hspecial : wsSpecial e.ctx (u8 card ptr) with
    | some val => rfl
    | none =>
      simp only [Option.isSome_none, Bool.false_eq_true, if_false]
      split <;> rfl
  | id => rfl
  | fb =>
    simp only [operandAt, flatMap_singleton, accessOf]
    split <;> rfl
  | imm => cases align <;> rfl
  | pll | mc => rfl

theorem putWsSpecial_isSome (ctx : Ctx) (val : UInt32) (idx : Nat) :
    (putWsSpecial ctx val idx).isSome = (wsSpecial ctx idx).isSome := by
  unfold putWsSpecial wsSpecial
  split <;> simp_all

theorem atomPutDst_log (attr ptr : Nat) (val saved : UInt32) :
    (atomPutDst card e arg attr ptr val saved).log =
      e.log ++ (operandAt card arg ptr).flatMap (accessOf card e.ctx e.frame) := by
  unfold atomPutDst
  dsimp only
  generalize ((val <<< atomArgShift (dstAlign attr)) &&& atomArgMask (dstAlign attr)) |||
    (saved &&& ~~~ (atomArgMask (dstAlign attr))) = word
  cases arg with
  | ps =>
    simp only [operandAt, flatMap_singleton, accessOf]
    split
    · rfl
    · simp
  | ws =>
    simp only [operandAt, flatMap_singleton, accessOf]
    rw [← putWsSpecial_isSome e.ctx word]
    cases hspecial : putWsSpecial e.ctx word (u8 card ptr) with
    | some ctx => simp
    | none =>
      simp only [Option.isSome_none, Bool.false_eq_true, if_false]
      split
      · rfl
      · simp
  | fb =>
    simp only [operandAt, flatMap_singleton, accessOf]
    split
    · simp
    · rfl
  | reg | id | imm | pll | mc => simp [operandAt]

/-! ## What an opcode accesses -/

theorem atomOpModify_log (f : Src → UInt32 → Align → UInt32) :
    (atomOpModify f card ans arg e).log =
      e.log ++ (operandsOf card e.frame.ptr (.and arg)).flatMap (accessOf card e.ctx e.frame) := by
  simp only [atomOpModify, atomPutDst_log, Exec.after, atomGetDst, atomGetSrc, atomGetSrcInt_log,
    atomGetSrcInt_ptr, operandsOf, srcOperand, atomSkipDst, flatMap_append,
    append_assoc]
  rfl

theorem atomOpMask_log :
    (atomOpMask card ans arg e).log =
      e.log ++ (operandsOf card e.frame.ptr (.mask arg)).flatMap (accessOf card e.ctx e.frame) := by
  simp only [atomOpMask, atomPutDst_log, Exec.after, atomGetDst, atomGetSrc, atomGetSrcInt_log,
    atomGetSrcInt_ptr, operandsOf, srcOperand, atomSkipDst, flatMap_append,
    append_assoc]
  rfl

theorem atomOpMove_log :
    (atomOpMove card ans arg e).log =
      e.log ++ (operandsOf card e.frame.ptr (.move arg)).flatMap (accessOf card e.ctx e.frame) := by
  unfold atomOpMove
  dsimp only [operandsOf]
  split
  · simp only [atomPutDst_log, Exec.after, atomGetDst, atomGetSrc, atomGetSrcInt_log,
      atomGetSrcInt_ptr, srcOperand, atomSkipDst, flatMap_append, append_assoc]
    rfl
  · simp only [atomPutDst_log, Exec.after, atomGetSrc, atomGetSrcInt_log, srcOperand, atomSkipDst,
      flatMap_append, append_assoc, nil_append]
    rfl

theorem atomOpUnary_log (takes : Nat) (f : UInt32 → UInt32 → UInt32) :
    (atomOpUnary takes f card ans arg e).log =
      e.log ++ (operandsOf card e.frame.ptr (.clear arg)).flatMap
        (accessOf card e.ctx e.frame) := by
  simp only [atomOpUnary, atomPutDst_log, Exec.after, atomGetDst, atomGetSrcInt_log, operandsOf,
    flatMap_append, append_assoc]
  rfl

theorem atomOpTwo_log (f : Ctx → UInt32 → UInt32 → Ctx) :
    (atomOpTwo f card ans arg e).log =
      e.log ++ (operandsOf card e.frame.ptr (.test arg)).flatMap (accessOf card e.ctx e.frame) := by
  simp only [atomOpTwo, Exec.after, atomGetDst, atomGetSrc, atomGetSrcInt_log, atomGetSrcInt_ptr,
    operandsOf, srcOperand, atomSkipDst, flatMap_append]

theorem runFunc_log (func : Func) :
    (runFunc card ans e func).log =
      e.log ++ (operandsOf card e.frame.ptr func).flatMap (accessOf card e.ctx e.frame) := by
  cases func with
  | move arg => exact atomOpMove_log ..
  | mask arg => exact atomOpMask_log ..
  | and arg | or arg | add arg | sub arg | xor arg | shl arg | shr arg =>
    simp only [runFunc, atomOpAnd, atomOpOr, atomOpAdd, atomOpSub, atomOpXor, atomOpShl, atomOpShr,
      atomOpModify_log, operandsOf]
  | clear arg | shiftLeft arg | shiftRight arg =>
    simp only [runFunc, atomOpClear, atomOpShiftLeft, atomOpShiftRight, atomOpUnary_log, operandsOf]
  | mul arg | div arg | compare arg | test arg | mul32 arg | div32 arg =>
    simp only [runFunc, atomOpMul, atomOpDiv, atomOpCompare, atomOpTest, atomOpMul32, atomOpDiv32,
      atomOpTwo_log, operandsOf]
  | setfbbase =>
    simp only [runFunc, atomOpSetfbbase, Exec.after, atomGetSrc, atomGetSrcInt_log, operandsOf,
      srcOperand]
  | switch =>
    simp only [runFunc, atomOpSwitch, Exec.after, atomGetSrc, atomGetSrcInt_log, operandsOf,
      srcOperand]
  | setport port => cases port <;> simp [runFunc, atomOpSetport, Exec.after, operandsOf]
  | setregblock => simp [runFunc, atomOpSetregblock, Exec.after, operandsOf]
  | setdatablock => simp [runFunc, atomOpSetdatablock, Exec.after, operandsOf]
  | processds => simp [runFunc, atomOpProcessds, Exec.after, operandsOf]
  | jump cond => simp [runFunc, atomOpJump, operandsOf]
  | delay | postcard | debug => simp [runFunc, Exec.after, operandsOf]
  | calltable | «repeat» | nop | eot | beep | savereg | restorereg => simp [runFunc, operandsOf]

/-! ## Frames -/

/-- Where the parameters of a table lie, and how many the check lets through. -/
def Frame.window (f : Frame) : Nat × UInt32 := (f.ps, f.psSize)

/-- What the watchdog has noted of a table. -/
def Frame.watch (f : Frame) : Nat × UInt64 := (f.lastJump, f.lastJumpJiffies)

theorem atomPutDst_kept (attr ptr : Nat) (val saved : UInt32) :
    (atomPutDst card e arg attr ptr val saved).frame.window = e.frame.window ∧
      (atomPutDst card e arg attr ptr val saved).frame.start = e.frame.start ∧
      (atomPutDst card e arg attr ptr val saved).frame.watch = e.frame.watch := by
  unfold atomPutDst
  cases arg with
  | ps | fb => dsimp only; split <;> exact ⟨rfl, rfl, rfl⟩
  | ws =>
    dsimp only
    split
    · exact ⟨rfl, rfl, rfl⟩
    · split <;> exact ⟨rfl, rfl, rfl⟩
  | reg | id | imm | pll | mc => exact ⟨rfl, rfl, rfl⟩

/-- Only a jump notes its target. -/
theorem runFunc_kept (func : Func) :
    (runFunc card ans e func).frame.window = e.frame.window ∧
      (runFunc card ans e func).frame.start = e.frame.start ∧
      ((∀ cond, func ≠ .jump cond) → (runFunc card ans e func).frame.watch = e.frame.watch) := by
  cases func with
  | move arg | mask arg | and arg | or arg | add arg | sub arg | xor arg | shl arg | shr arg
  | clear arg | shiftLeft arg | shiftRight arg =>
    exact (atomPutDst_kept ..).imp_right fun h => h.imp_right fun h _ => h
  | jump cond =>
    unfold runFunc atomOpJump
    dsimp only
    split_ifs <;> exact ⟨rfl, rfl, fun h => absurd rfl (h cond)⟩
  | setport port => cases port <;> exact ⟨rfl, rfl, fun _ => rfl⟩
  | mul arg | div arg | compare arg | test arg | mul32 arg | div32 arg | setfbbase | switch
  | setregblock | setdatablock | processds | delay | postcard | debug | calltable | «repeat» | nop
  | eot | beep | savereg | restorereg => exact ⟨rfl, rfl, fun _ => rfl⟩

end

/-! ## When an access is inside its area -/

/-- The last byte before the word of a scratch operand: `fb_base + idx * 4` without wrapping. -/
def fbOffset (ctx : Ctx) (idx : Nat) : Nat := ctx.fbBase.toNat + idx * 4

/-- The operand is not one that its check gets wrong: a parameter of a table that is called with
more words taken off than there are, a scratch word whose offset wraps past 32 bits, and one whose
offset the check takes to be inside, but in or behind the last word that is not whole. -/
def Fits (card : Card) (paramsSize : Nat) (ctx : Ctx) (f : Frame) : Operand → Prop
  | .ps idx => idx < f.psSize.toNat → f.ps ≤ paramsSize
  | .ws _ => True
  | .fb idx =>
    ¬ (2 ^ 32 ≤ fbOffset ctx idx ∧ fbOffset ctx idx % 2 ^ 32 ≤ card.scratchSizeBytes) ∧
    ¬ (card.scratchSizeBytes / 4 * 4 ≤ fbOffset ctx idx ∧ fbOffset ctx idx ≤ card.scratchSizeBytes)

/-- What is taken off the parameters for a table has been taken off its size, modulo 32 bits. -/
def FrameOk (paramsSize : Nat) (window : Nat × UInt32) : Prop :=
  (window.1 + window.2.toNat) % 2 ^ 32 = paramsSize

section
variable {card : Card} {paramsSize : Nat} {ctx : Ctx} {f : Frame}

theorem u8_lt (ptr : Nat) : u8 card ptr < 256 := (card.bios ptr).toNat_lt

theorem beyondScratch_iff (card : Card) (ctx : Ctx) {idx : Nat} (hidx : idx < 256) :
    beyondScratch card ctx idx = true ↔ card.scratchSizeBytes < fbOffset ctx idx % 2 ^ 32 := by
  unfold beyondScratch fbOffset
  rw [decide_eq_true_iff, UInt32.toNat_add, UInt32.toNat_mul, UInt32.toNat_ofNat']
  have hmod : idx % 2 ^ 32 = idx := Nat.mod_eq_of_lt (by omega)
  simp only [hmod, UInt32.reduceToNat]
  omega

theorem scratchIndex_eq (ctx : Ctx) {idx : Nat} (hidx : idx < 256) :
    scratchIndex ctx idx = fbOffset ctx idx / 4 := by
  have hlt := ctx.fbBase.toNat_lt
  unfold scratchIndex fbOffset
  rw [UInt32.toNat_add, UInt32.toNat_div, UInt32.toNat_ofNat']
  simp only [UInt32.reduceToNat]
  omega

def Operand.idx : Operand → Nat
  | .ps idx | .ws idx | .fb idx => idx

theorem operandAt_idx (arg : Arg) (ptr : Nat) : ∀ o ∈ operandAt card arg ptr, o.idx < 256 := by
  cases arg <;> simp [operandAt, Operand.idx, u8_lt]

theorem operandsOf_idx (ptr : Nat) (func : Func) : ∀ o ∈ operandsOf card ptr func, o.idx < 256 := by
  intro o ho
  have hat : ∀ arg ptr, o ∈ operandAt card arg ptr → o.idx < 256 :=
    fun arg ptr => operandAt_idx arg ptr o
  have hsrc : ∀ attr ptr, o ∈ srcOperand card attr ptr → o.idx < 256 :=
    fun attr ptr => hat (argOf attr) ptr
  cases func with
  | and arg | or arg | add arg | sub arg | xor arg | shl arg | shr arg | mask arg =>
    simp only [operandsOf, mem_append] at ho
    rcases ho with (ho | ho) | ho
    · exact hat _ _ ho
    · exact hsrc _ _ ho
    · exact hat _ _ ho
  | move arg =>
    simp only [operandsOf, mem_append] at ho
    rcases ho with (ho | ho) | ho
    · split at ho
      · exact hat _ _ ho
      · exact absurd ho not_mem_nil
    · exact hsrc _ _ ho
    · exact hat _ _ ho
  | clear arg | shiftLeft arg | shiftRight arg =>
    rcases mem_append.mp ho with ho | ho <;> exact hat _ _ ho
  | mul arg | div arg | compare arg | test arg | mul32 arg | div32 arg =>
    rcases mem_append.mp ho with ho | ho
    · exact hat _ _ ho
    · exact hsrc _ _ ho
  | setfbbase | switch => exact hsrc _ _ ho
  | setport port | setregblock | jump cond | delay | calltable | «repeat» | nop | eot | postcard
  | beep | savereg | restorereg | setdatablock | debug | processds =>
    exact absurd ho not_mem_nil

theorem inBounds_iff_fits (hf : FrameOk paramsSize f.window) (hsize : paramsSize < 2 ^ 31)
    {o : Operand} (ho : o.idx < 256) :
    (∀ a ∈ accessOf card ctx f o, InBounds card paramsSize a) ↔ Fits card paramsSize ctx f o := by
  cases o with
  | ps idx =>
    have hs := f.psSize.toNat_lt
    unfold FrameOk Frame.window at hf
    dsimp only [accessOf, Fits] at *
    split
    · next hlt =>
      simp only [forall_mem_singleton, InBounds, hlt, true_imp_iff]
      omega
    · next hge => simp [hge]
  | ws idx =>
    dsimp only [accessOf, Fits]
    split
    · simp
    · split
      · next hlt => simpa [InBounds] using hlt
      · simp
  | fb idx =>
    have hbeyond := beyondScratch_iff card ctx ho
    have hindex := scratchIndex_eq ctx ho
    have hfb := ctx.fbBase.toNat_lt
    have hscratch := card.scratchSizeBytes_lt
    have hoff : fbOffset ctx idx < 2 ^ 32 + 1024 := by
      dsimp only [Operand.idx] at ho
      unfold fbOffset
      omega
    dsimp only [accessOf, Fits, Operand.idx] at *
    split
    · next hb =>
      have := hbeyond.mp hb
      simp only [not_mem_nil, false_imp_iff, implies_true, true_iff]
      omega
    · next hb =>
      rw [hbeyond] at hb
      simp only [forall_mem_singleton, InBounds, hindex]
      omega

end

/-! ## Runs -/

section
variable {card : Card} {paramsSize : Nat}

def nextOperands (card : Card) (f : Frame) : List Operand :=
  if f.abort then []
  else match funcOf (u8 card f.ptr) with
    | none => []
    | some func => operandsOf card (f.ptr + 1) func

def OperandsFit (card : Card) (paramsSize : Nat) (m : Machine) (_ : Answers) : Prop :=
  ∀ f ∈ m.frames.head?, ∀ o ∈ nextOperands card f, Fits card paramsSize m.ctx f o

/-- The tables of a machine take their parameters from those of the caller. -/
def Inv (paramsSize : Nat) (m : Machine) : Prop :=
  ∀ f ∈ m.frames, FrameOk paramsSize f.window

def Safe (card : Card) (paramsSize : Nat) (m : Machine) : Prop :=
  ∀ a ∈ m.log, InBounds card paramsSize a

theorem leaveTable_log (m : Machine) (failed : Bool) (rest : List Frame) :
    (leaveTable m failed rest).log = m.log := by
  cases rest <;> rfl

theorem atomOpCalltable_log (ans : Answers) (m : Machine) (f : Frame) (rest : List Frame) :
    (atomOpCalltable card ans m f rest).log = m.log := by
  unfold atomOpCalltable
  dsimp only
  split
  · rfl
  · split <;> rfl

variable {f : Frame} {rest : List Frame} {m : Machine}

theorem step_log (m : Machine) (ans : Answers) (hm : m.frames = f :: rest) :
    (step card m ans).log = m.log ++ (nextOperands card f).flatMap (accessOf card m.ctx f) := by
  unfold step nextOperands
  rw [hm]
  dsimp only
  by_cases habort : f.abort = true
  · simp [habort, leaveTable_log]
  · rw [if_neg habort, if_neg habort]
    split
    · next h => simp [h, leaveTable_log]
    · next h => simp [h, atomOpCalltable_log, operandsOf]
    · next h => simp [h, leaveTable_log, operandsOf]
    · next func _ _ h =>
      rw [h]
      exact runFunc_log card ans (m.exec { f with ptr := f.ptr + 1 }) func

theorem enterTable_window {memory : Bool} {index ps : Nat} {psSize : UInt32}
    (h : enterTable card memory index ps psSize = .ok f) : f.window = (ps, psSize) := by
  unfold enterTable at h
  dsimp only at h
  split_ifs at h
  cases h
  rfl

theorem FrameOk.shift {ps k : Nat} {s : UInt32} (h : FrameOk paramsSize (ps, s)) :
    FrameOk paramsSize (ps + k, s - UInt32.ofNat k) := by
  have hs := s.toNat_lt
  unfold FrameOk at *
  dsimp only at *
  rw [UInt32.toNat_sub, UInt32.toNat_ofNat']
  omega

theorem Inv.leaveTable (failed : Bool) (h : ∀ f ∈ rest, FrameOk paramsSize f.window) :
    Inv paramsSize (leaveTable m failed rest) := by
  cases rest with
  | nil => exact fun f hf => absurd hf not_mem_nil
  | cons f fs =>
    intro g hg
    change g ∈ _ :: fs at hg
    rcases mem_cons.mp hg with rfl | hg
    · exact h f mem_cons_self
    · exact h g (mem_cons_of_mem f hg)

theorem Inv.calltable (ans : Answers) (hf : FrameOk paramsSize f.window)
    (hrest : ∀ g ∈ rest, FrameOk paramsSize g.window) :
    Inv paramsSize (atomOpCalltable card ans m f rest) := by
  have hcaller : ∀ g : Frame, g.window = f.window →
      ∀ h ∈ g :: rest, FrameOk paramsSize h.window := by
    intro g hg h hh
    rcases mem_cons.mp hh with rfl | hh
    · rwa [hg]
    · exact hrest h hh
  unfold atomOpCalltable
  dsimp only
  split
  · exact hcaller _ rfl
  · split
    · exact hcaller _ rfl
    · next callee henter =>
      intro g hg
      rcases mem_cons.mp hg with rfl | hg
      · rw [enterTable_window henter]
        exact FrameOk.shift hf
      · exact hcaller { f with ptr := f.ptr + 1 } rfl g hg

theorem Inv.step (h : Inv paramsSize m) (ans : Answers) : Inv paramsSize (step card m ans) := by
  unfold Atom.step
  split
  · exact h
  · next f rest hm =>
    have hf : FrameOk paramsSize f.window := h f (by simp [hm])
    have hrest : ∀ g ∈ rest, FrameOk paramsSize g.window := fun g hg => h g (by simp [hm, hg])
    dsimp only
    split
    · exact Inv.leaveTable true hrest
    · split
      · exact Inv.leaveTable false hrest
      · exact Inv.calltable ans hf hrest
      · exact Inv.leaveTable false hrest
      · next func _ _ _ =>
        intro g hg
        rcases mem_cons.mp hg with rfl | hg
        · rw [(runFunc_kept ..).1]
          exact hf
        · exact hrest g hg

theorem safe_step_iff (hsize : paramsSize < 2 ^ 31) (h : Inv paramsSize m)
    (hsafe : Safe card paramsSize m) (ans : Answers) :
    Safe card paramsSize (step card m ans) ↔ OperandsFit card paramsSize m ans := by
  cases hm : m.frames with
  | nil =>
    have hstay : step card m ans = m := by
      unfold step
      rw [hm]
    rw [hstay]
    exact iff_of_true hsafe (by simp [OperandsFit, hm])
  | cons f rest =>
    have hf : FrameOk paramsSize f.window := h f (by simp [hm])
    have hidx : ∀ o ∈ nextOperands card f, o.idx < 256 := by
      intro o ho
      unfold nextOperands at ho
      split at ho
      · exact absurd ho not_mem_nil
      · split at ho
        · exact absurd ho not_mem_nil
        · exact operandsOf_idx _ _ o ho
    have hfits : ∀ o ∈ nextOperands card f,
        ((∀ a ∈ accessOf card m.ctx f o, InBounds card paramsSize a) ↔
          Fits card paramsSize m.ctx f o) :=
      fun o ho => inBounds_iff_fits hf hsize (hidx o ho)
    have hhead : OperandsFit card paramsSize m ans ↔
        ∀ o ∈ nextOperands card f, Fits card paramsSize m.ctx f o := by
      simp [OperandsFit, hm]
    rw [hhead, Safe, step_log m ans hm]
    constructor
    · intro hall o ho
      refine (hfits o ho).mp fun a ha => hall a ?_
      exact mem_append_right _ (mem_flatMap.mpr ⟨o, ho, ha⟩)
    · intro hall a ha
      rcases mem_append.mp ha with ha | ha
      · exact hsafe a ha
      · obtain ⟨o, ho, ha⟩ := mem_flatMap.mp ha
        exact (hfits o ho).mpr (hall o ho) a ha

theorem Inv.start (card : Card) (call : Call) :
    Inv call.paramsSize (amdgpuAtomExecuteTable card call) := by
  have hsize := call.paramsSize_lt
  unfold amdgpuAtomExecuteTable
  dsimp only
  split
  · exact fun f hf => absurd hf not_mem_nil
  · next f henter =>
    intro g hg
    obtain rfl := mem_singleton.mp hg
    rw [enterTable_window henter]
    unfold FrameOk
    dsimp only
    rw [UInt32.toNat_ofNat']
    omega

end

/-- Whatever the image holds, the accesses of a run are inside the parameters of the caller, the
workspaces and the scratch area exactly when the operands of every opcode fit. -/
theorem inBounds_iff_operandsFit (card : Card) (call : Call) (answers : List Answers) :
    (∀ n, ∀ a ∈ (run (step card) (amdgpuAtomExecuteTable card call) (answers.take n)).log,
      InBounds card call.paramsSize a) ↔
    StepsOk (step card) (OperandsFit card call.paramsSize)
      (amdgpuAtomExecuteTable card call) answers := by
  have hsafe : Safe card call.paramsSize (amdgpuAtomExecuteTable card call) := by
    unfold amdgpuAtomExecuteTable
    dsimp only
    split <;> exact fun a ha => absurd ha not_mem_nil
  have hiff : _ ↔ StepsOk (step card) (OperandsFit card call.paramsSize)
      (amdgpuAtomExecuteTable card call) answers := stepsOk_iff_take
    (P := fun m => Inv call.paramsSize m ∧ Safe card call.paramsSize m)
    (fun m ans h => by
      rw [← safe_step_iff call.paramsSize_lt h.1 h.2 ans]
      exact and_iff_right (h.1.step ans))
    ⟨Inv.start card call, hsafe⟩ answers
  rw [← hiff]
  refine forall_congr' fun n => ?_
  exact (and_iff_right (run_inv (fun m ans h => h.step ans) (Inv.start card call) _)).symm

/-! ## A table that reads behind the scratch area -/

/-- The frame-buffer window is set to the end of the scratch area, and its first word is read. -/
def exImage : List UInt8 :=
  [0, 0, 0, 0, 6, 0, 0, 0, 0, 0, 0, 0,
    59, 0x0D, 0x00, 0x50,
    3, 0x03, 0x40, 0,
    91]

def exCard : Card :=
  { bios := fun i => (exImage[i]?).getD 0
    cmdTable := 0
    dataTable := 0
    iio := fun _ => 0
    scratchSizeBytes := 20480
    scratchSizeBytes_lt := by decide
    jiffiesToMsecs := fun j => j.toNat }

def exCall : Call :=
  { index := 0
    params := fun _ => 0
    paramsSize := 1
    paramsSize_lt := by decide
    ctx := ⟨0, 0, 0, 0, 0, 0, 0, false, false, .mm, fun _ => 0⟩
    memory := true }

def exAnswers : Answers := ⟨0, 0, 0, true⟩

/-- The word that is read is word 5120 of an area of 5120 words. -/
theorem inBounds_broken :
    ¬ ∀ (card : Card) (call : Call) (answers : List Answers),
      ∀ a ∈ (run (step card) (amdgpuAtomExecuteTable card call) answers).log,
        InBounds card call.paramsSize a := by
  intro h
  have hmem : Access.scratch 5120 ∈
      (run (step exCard) (amdgpuAtomExecuteTable exCard exCall)
        [exAnswers, exAnswers, exAnswers]).log := by decide
  have hbounds := h exCard exCall _ _ hmem
  exact absurd hbounds (by decide : ¬ 4 * 5120 + 4 ≤ 20480)

end Amdkfd.Atom
