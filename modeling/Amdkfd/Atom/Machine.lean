import Amdkfd.Atom.Model

/-!
# Opcodes and the machine

The opcodes of `atom.c` and the table that finds them, and the machine that runs a command table one
opcode a step. Opcodes that differ in one computation are one definition.
-/

namespace Amdkfd.Atom

open Function

/-! ## Opcodes -/

/-- The state after `src` has been read and the place moved to `ptr`. -/
def Exec.after (e : Exec) (ptr : Nat) (log : List Access) : Exec :=
  { e with frame := { e.frame with ptr := ptr }, log := e.log ++ log }

/-- An opcode that reads its destination and a source and stores `f` of them. -/
def atomOpModify (f : Src → UInt32 → Align → UInt32) (card : Card) (ans : Answers) (arg : Arg)
    (e : Exec) : Exec :=
  let attr := u8 card e.frame.ptr
  let dptr := e.frame.ptr + 1
  let dst := atomGetDst card ans.dst e arg attr dptr
  let src := atomGetSrc card ans.src e attr dst.ptr
  let val := f dst src.val (dstAlign attr)
  atomPutDst card (e.after src.ptr (dst.log ++ src.log)) arg attr dptr val dst.saved

def atomOpAdd := atomOpModify fun dst src _ => dst.val + src
def atomOpAnd := atomOpModify fun dst src _ => dst.val &&& src
def atomOpOr := atomOpModify fun dst src _ => dst.val ||| src
def atomOpSub := atomOpModify fun dst src _ => dst.val - src
def atomOpXor := atomOpModify fun dst src _ => dst.val ^^^ src

/-- `atom_op_shl`: the whole word is shifted. A count from 32 on acts modulo 32, as the processors
do it. -/
def atomOpShl := atomOpModify fun dst src align =>
  ((dst.saved <<< src.toUInt8.toUInt32) &&& atomArgMask align) >>> atomArgShift align

def atomOpShr := atomOpModify fun dst src align =>
  ((dst.saved >>> src.toUInt8.toUInt32) &&& atomArgMask align) >>> atomArgShift align

def atomOpMask (card : Card) (ans : Answers) (arg : Arg) (e : Exec) : Exec :=
  let attr := u8 card e.frame.ptr
  let dptr := e.frame.ptr + 1
  let dst := atomGetDst card ans.dst e arg attr dptr
  let mask := atomGetSrcDirect card (alignOf attr) dst.ptr
  let src := atomGetSrc card ans.src e attr (dst.ptr + immSize (alignOf attr))
  atomPutDst card (e.after src.ptr (dst.log ++ src.log)) arg attr dptr
    ((dst.val &&& mask) ||| src.val) dst.saved

/-- `atom_op_move`: the destination is read only when part of a word is stored. -/
def atomOpMove (card : Card) (ans : Answers) (arg : Arg) (e : Exec) : Exec :=
  let attr := u8 card e.frame.ptr
  let dptr := e.frame.ptr + 1
  let dst := if alignOf attr ≠ .dword then atomGetDst card ans.dst e arg attr dptr
    else ⟨atomSkipDst arg attr dptr, 0, poison, []⟩
  let src := atomGetSrc card ans.src e attr dst.ptr
  atomPutDst card (e.after src.ptr (dst.log ++ src.log)) arg attr dptr src.val dst.saved

/-- An opcode on its destination in the default place, with a byte behind it when it `takes` one. -/
def atomOpUnary (takes : Nat) (f : UInt32 → UInt32 → UInt32) (card : Card) (ans : Answers)
    (arg : Arg) (e : Exec) : Exec :=
  let attr := defAttr (u8 card e.frame.ptr)
  let dptr := e.frame.ptr + 1
  let dst := atomGetDst card ans.dst e arg attr dptr
  let val := f dst.val (atomGetSrcDirect card .byte0 dst.ptr)
  atomPutDst card (e.after (dst.ptr + takes) dst.log) arg attr dptr val dst.saved

def atomOpClear := atomOpUnary 0 fun _ _ => 0
def atomOpShiftLeft := atomOpUnary 1 fun dst shift => dst <<< shift
def atomOpShiftRight := atomOpUnary 1 fun dst shift => dst >>> shift

/-- An opcode that reads two operands and changes the context. -/
def atomOpTwo (f : Ctx → UInt32 → UInt32 → Ctx) (card : Card) (ans : Answers) (arg : Arg)
    (e : Exec) : Exec :=
  let attr := u8 card e.frame.ptr
  let dst := atomGetDst card ans.dst e arg attr (e.frame.ptr + 1)
  let src := atomGetSrc card ans.src e attr dst.ptr
  let e := e.after src.ptr (dst.log ++ src.log)
  { e with ctx := f e.ctx dst.val src.val }

def atomOpCompare := atomOpTwo fun ctx dst src =>
  { ctx with csEqual := dst == src, csAbove := src < dst }

def atomOpTest := atomOpTwo fun ctx dst src => { ctx with csEqual := dst &&& src == 0 }

def atomOpMul := atomOpTwo fun ctx dst src => { ctx with divmul0 := dst * src }

def atomOpMul32 := atomOpTwo fun ctx dst src =>
  let val64 := dst.toUInt64 * src.toUInt64
  { ctx with divmul0 := val64.toUInt32, divmul1 := (val64 >>> 32).toUInt32 }

def atomOpDiv := atomOpTwo fun ctx dst src =>
  if src ≠ 0 then { ctx with divmul0 := dst / src, divmul1 := dst % src }
  else { ctx with divmul0 := 0, divmul1 := 0 }

def atomOpDiv32 := atomOpTwo fun ctx dst src =>
  if src ≠ 0 then
    let val64 := (dst.toUInt64 ||| (ctx.divmul1.toUInt64 <<< 32)) / src.toUInt64
    { ctx with divmul0 := val64.toUInt32, divmul1 := (val64 >>> 32).toUInt32 }
  else { ctx with divmul0 := 0, divmul1 := 0 }

def atomOpSetfbbase (card : Card) (ans : Answers) (e : Exec) : Exec :=
  let attr := u8 card e.frame.ptr
  let src := atomGetSrc card ans.src e attr (e.frame.ptr + 1)
  let e := e.after src.ptr src.log
  { e with ctx := { e.ctx with fbBase := src.val } }

/-- The cases of `atom_op_switch` from `ptr` on. `ptr` is an `int`, so that there are no more than
`left` of them. -/
def atomCases (card : Card) (align : Align) (start : Nat) (val : UInt32) : Nat → Nat → Nat
  | 0, ptr => ptr
  | left + 1, ptr =>
    if u16 card ptr = 0x5A5A then ptr + 2
    else if u8 card ptr ≠ 0x63 then ptr
    else
      let next := ptr + 1 + immSize align
      if atomGetSrcDirect card align (ptr + 1) = val then start + u16 card next
      else atomCases card align start val left (next + 2)

def atomOpSwitch (card : Card) (ans : Answers) (e : Exec) : Exec :=
  let attr := u8 card e.frame.ptr
  let src := atomGetSrc card ans.src e attr (e.frame.ptr + 1)
  e.after (atomCases card (alignOf attr) e.frame.start src.val (2 ^ 31) src.ptr) src.log

/-- `ATOM_COND_*`. -/
inductive Cond
  | above | aboveOrEqual | always | below | belowOrEqual | equal | notEqual
  deriving DecidableEq, Repr

/-- `execute` of `atom_op_jump`. -/
def Cond.holds (ctx : Ctx) : Cond → Bool
  | .above => ctx.csAbove
  | .aboveOrEqual => ctx.csAbove || ctx.csEqual
  | .always => true
  | .below => !(ctx.csAbove || ctx.csEqual)
  | .belowOrEqual => !ctx.csAbove
  | .equal => ctx.csEqual
  | .notEqual => !ctx.csEqual

def timeAfter (a b : UInt64) : Bool := 2 ^ 63 ≤ (b - a).toNat

/-- A jump to where the last jump went, `ATOM_CMD_TIMEOUT_SEC` after the first, stops the table. -/
def atomOpJump (card : Card) (ans : Answers) (cond : Cond) (e : Exec) : Exec :=
  let f := e.frame
  let dest := f.start + u16 card f.ptr
  let f' : Frame :=
    if cond.holds e.ctx then
      if f.lastJump = dest then
        if timeAfter ans.jiffies f.lastJumpJiffies then
          { f with
            ptr := dest
            abort := f.abort ||
              20 * 1000 < card.jiffiesToMsecs (ans.jiffies - f.lastJumpJiffies) }
        else { f with ptr := dest, lastJumpJiffies := ans.jiffies }
      else { f with ptr := dest, lastJump := dest, lastJumpJiffies := ans.jiffies }
    else { f with ptr := f.ptr + 2 }
  { e with frame := f' }

def atomOpSetdatablock (card : Card) (e : Exec) : Exec :=
  let idx := u8 card e.frame.ptr
  let block : UInt16 :=
    if idx = 0 then 0
    else if idx = 255 then .ofNat e.frame.start
    else .ofNat (u16 card (card.dataTable + 4 + 2 * idx))
  { e.after (e.frame.ptr + 1) [] with ctx := { e.ctx with dataBlock := block } }

/-- `ATOM_PORT_*`. -/
inductive Port
  | ati | pci | sysio
  deriving DecidableEq, Repr

def atomOpSetport (card : Card) (port : Port) (e : Exec) : Exec :=
  let ptr := e.frame.ptr
  match port with
  | .ati =>
    let mode : IoMode := if u16 card ptr = 0 then .mm else .iio (u16 card ptr)
    { e.after (ptr + 2) [] with ctx := { e.ctx with ioMode := mode } }
  | .pci => { e.after (ptr + 1) [] with ctx := { e.ctx with ioMode := .pci } }
  | .sysio => { e.after (ptr + 1) [] with ctx := { e.ctx with ioMode := .sysio } }

def atomOpSetregblock (card : Card) (e : Exec) : Exec :=
  { e.after (e.frame.ptr + 2) [] with
    ctx := { e.ctx with regBlock := .ofNat (u16 card e.frame.ptr) } }

def atomOpProcessds (card : Card) (e : Exec) : Exec :=
  e.after (e.frame.ptr + (u16 card e.frame.ptr + 2)) []

/-! ## The table of the opcodes -/

/-- The functions of `opcode_table`, with their argument. `delay`, `postcard` and `debug` take a
byte, and sleep as long or print it. -/
inductive Func
  | move (arg : Arg) | and (arg : Arg) | or (arg : Arg) | shiftLeft (arg : Arg)
  | shiftRight (arg : Arg) | mul (arg : Arg) | div (arg : Arg) | add (arg : Arg) | sub (arg : Arg)
  | setport (port : Port) | setregblock | setfbbase | compare (arg : Arg) | switch
  | jump (cond : Cond) | test (arg : Arg) | delay | calltable | repeat | clear (arg : Arg)
  | nop | eot | mask (arg : Arg) | postcard | beep | savereg | restorereg | setdatablock
  | xor (arg : Arg) | shl (arg : Arg) | shr (arg : Arg) | debug | processds | mul32 (arg : Arg)
  | div32 (arg : Arg)

def sixArgs (f : Arg → Func) : List Func := [f .reg, f .ps, f .ws, f .fb, f .pll, f .mc]

def opcodeTable : List Func :=
  List.flatten
    [sixArgs .move, sixArgs .and, sixArgs .or, sixArgs .shiftLeft, sixArgs .shiftRight,
      sixArgs .mul, sixArgs .div, sixArgs .add, sixArgs .sub,
      [.setport .ati, .setport .pci, .setport .sysio, .setregblock, .setfbbase],
      sixArgs .compare,
      [.switch, .jump .always, .jump .equal, .jump .below, .jump .above, .jump .belowOrEqual,
        .jump .aboveOrEqual, .jump .notEqual],
      sixArgs .test,
      [.delay, .delay, .calltable, .repeat],
      sixArgs .clear,
      [.nop, .eot],
      sixArgs .mask,
      [.postcard, .beep, .savereg, .restorereg, .setdatablock],
      sixArgs .xor, sixArgs .shl, sixArgs .shr,
      [.debug, .processds, .mul32 .ps, .mul32 .ws, .div32 .ps, .div32 .ws]]

/-- `opcode_table[op].func`, for the opcodes that have one. -/
def funcOf (op : Nat) : Option Func := if 0 < op then opcodeTable[op - 1]? else none

example : opcodeTable.length + 1 = 127 := rfl

example : funcOf 91 = some .eot := rfl

/-- What an opcode does, other than a call. -/
def runFunc (card : Card) (ans : Answers) (e : Exec) : Func → Exec
  | .move arg => atomOpMove card ans arg e
  | .and arg => atomOpAnd card ans arg e
  | .or arg => atomOpOr card ans arg e
  | .shiftLeft arg => atomOpShiftLeft card ans arg e
  | .shiftRight arg => atomOpShiftRight card ans arg e
  | .mul arg => atomOpMul card ans arg e
  | .div arg => atomOpDiv card ans arg e
  | .add arg => atomOpAdd card ans arg e
  | .sub arg => atomOpSub card ans arg e
  | .setport port => atomOpSetport card port e
  | .setregblock => atomOpSetregblock card e
  | .setfbbase => atomOpSetfbbase card ans e
  | .compare arg => atomOpCompare card ans arg e
  | .switch => atomOpSwitch card ans e
  | .jump cond => atomOpJump card ans cond e
  | .test arg => atomOpTest card ans arg e
  | .clear arg => atomOpClear card ans arg e
  | .mask arg => atomOpMask card ans arg e
  | .setdatablock => atomOpSetdatablock card e
  | .xor arg => atomOpXor card ans arg e
  | .shl arg => atomOpShl card ans arg e
  | .shr arg => atomOpShr card ans arg e
  | .processds => atomOpProcessds card e
  | .mul32 arg => atomOpMul32 card ans arg e
  | .div32 arg => atomOpDiv32 card ans arg e
  | .delay | .postcard | .debug => e.after (e.frame.ptr + 1) []
  | .calltable | .repeat | .nop | .eot | .beep | .savereg | .restorereg => e

/-! ## The machine -/

/-- The context, the memory from the caller's parameters on, the tables that run with the innermost
first, every access up to now, and what the outermost table has returned. -/
structure Machine where
  ctx : Ctx
  params : Nat → UInt32
  frames : List Frame
  log : List Access
  ret : Option Errno

/-- `amdgpu_atom_execute_table_locked` up to its loop. -/
def enterTable (card : Card) (memory : Bool) (index ps : Nat) (psSize : UInt32) :
    Except Errno Frame :=
  let base := u16 card (card.cmdTable + 4 + 2 * index)
  if base = 0 then .error .einval
  else
    let ws := u8 card (base + 4)
    if ws ≠ 0 ∧ memory = false then .error .enomem
    else
      .ok
        { ps := ps
          psSize := psSize
          psShift := (u8 card (base + 5) &&& 0x7F) / 4
          ws := fun _ => 0
          wsSize := ws
          start := base
          lastJump := 0
          lastJumpJiffies := 0
          abort := false
          ptr := base + 6 }

/-- The table returns: an error stops the one that called it too. -/
def leaveTable (m : Machine) (failed : Bool) (rest : List Frame) : Machine :=
  match rest with
  | [] => { m with frames := [], ret := if failed then some .einval else none }
  | f :: fs => { m with frames := { f with abort := f.abort || failed } :: fs }

def atomOpCalltable (card : Card) (ans : Answers) (m : Machine) (f : Frame) (rest : List Frame) :
    Machine :=
  let idx := u8 card f.ptr
  let f := { f with ptr := f.ptr + 1 }
  if u16 card (card.cmdTable + 4 + 2 * idx) = 0 then { m with frames := f :: rest }
  else
    match enterTable card ans.memory idx (f.ps + f.psShift)
      (f.psSize - UInt32.ofNat f.psShift) with
    | .error _ => { m with frames := { f with abort := true } :: rest }
    | .ok callee => { m with frames := callee :: f :: rest }

def Machine.exec (m : Machine) (f : Frame) : Exec := ⟨m.ctx, m.params, f, m.log⟩

/-- One turn of the loop of `amdgpu_atom_execute_table_locked`, in the innermost table. -/
def step (card : Card) (m : Machine) (ans : Answers) : Machine :=
  match m.frames with
  | [] => m
  | f :: rest =>
    let op := u8 card f.ptr
    let f := { f with ptr := f.ptr + 1 }
    if f.abort then leaveTable m true rest
    else
      match funcOf op with
      | none => leaveTable m false rest
      | some .calltable => atomOpCalltable card ans m f rest
      | some .eot => leaveTable m false rest
      | some func =>
        let e := runFunc card ans (m.exec f) func
        ⟨e.ctx, e.params, e.frame :: rest, e.log, m.ret⟩

/-- A call of `amdgpu_atom_execute_table`: the memory from `params` on, of which `paramsSize` words
are the caller's, and the rest of the context as the last call left it. `params_size` is an
`int`. -/
structure Call where
  index : Nat
  params : Nat → UInt32
  paramsSize : Nat
  paramsSize_lt : paramsSize < 2 ^ 31
  ctx : Ctx
  memory : Bool

def amdgpuAtomExecuteTable (card : Card) (call : Call) : Machine :=
  let ctx :=
    { call.ctx with
      dataBlock := 0
      regBlock := 0
      fbBase := 0
      ioMode := .mm
      divmul0 := 0
      divmul1 := 0 }
  match enterTable card call.memory call.index 0 (UInt32.ofNat call.paramsSize) with
  | .error e => ⟨ctx, call.params, [], [], some e⟩
  | .ok f => ⟨ctx, call.params, [f], [], none⟩

end Amdkfd.Atom
