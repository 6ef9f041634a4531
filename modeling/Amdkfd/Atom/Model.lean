import Amdkfd.Basic

/-!
# The ATOM bytecode interpreter

`atom.c`: `amdgpu_atom_execute_table` runs a command table of the video BIOS. Its operands lie in
registers, in the parameter space, in a workspace of the table, or in a scratch area behind the
frame-buffer window. The machine below takes one opcode a step. A nested table has a frame of its
own, and what registers hold, the time and whether memory is there come with each step.

Every word of the three areas that an operand reads or writes is logged. The areas are memory
without an end here: what lies past the parameters or the scratch area can be read and written like
in C.
-/

namespace Amdkfd.Atom

open Function

/-! ## Operand encoding -/

/-- `ATOM_ARG_*`. -/
inductive Arg
  | reg | ps | ws | fb | id | imm | pll | mc
  deriving DecidableEq, Repr

/-- `ATOM_SRC_*`. -/
inductive Align
  | dword | word0 | word8 | word16 | byte0 | byte8 | byte16 | byte24
  deriving DecidableEq, Repr

/-- `attr & 7`. -/
def argOf (attr : Nat) : Arg :=
  match attr &&& 7 with
  | 0 => .reg
  | 1 => .ps
  | 2 => .ws
  | 3 => .fb
  | 4 => .id
  | 5 => .imm
  | 6 => .pll
  | _ => .mc

/-- `(attr >> 3) & 7`. -/
def alignOf (attr : Nat) : Align :=
  match attr >>> 3 &&& 7 with
  | 0 => .dword
  | 1 => .word0
  | 2 => .word8
  | 3 => .word16
  | 4 => .byte0
  | 5 => .byte8
  | 6 => .byte16
  | _ => .byte24

def atomArgMask : Align → UInt32
  | .dword => 0xFFFFFFFF
  | .word0 => 0xFFFF
  | .word8 => 0xFFFF00
  | .word16 => 0xFFFF0000
  | .byte0 => 0xFF
  | .byte8 => 0xFF00
  | .byte16 => 0xFF0000
  | .byte24 => 0xFF000000

def atomArgShift : Align → UInt32
  | .dword | .word0 | .byte0 => 0
  | .word8 | .byte8 => 8
  | .word16 | .byte16 => 16
  | .byte24 => 24

def atomDstToSrc : Align → Nat → Align
  | .dword, _ => .dword
  | .word0, col | .word8, col | .word16, col =>
    match col with
    | 0 => .word0
    | 1 => .word8
    | 2 => .word16
    | _ => .dword
  | .byte0, col | .byte8, col | .byte16, col | .byte24, col =>
    match col with
    | 0 => .byte0
    | 1 => .byte8
    | 2 => .byte16
    | _ => .byte24

def atomDefDst : Align → Nat
  | .dword | .word0 | .byte0 => 0
  | .word8 | .byte8 => 1
  | .word16 | .byte16 => 2
  | .byte24 => 3

/-- `atom_dst_to_src[(attr >> 3) & 7][(attr >> 6) & 3]`. -/
def dstAlign (attr : Nat) : Align := atomDstToSrc (alignOf attr) (attr >>> 6 &&& 3)

/-- The attribute of an opcode with one operand, with the default place of the destination. -/
def defAttr (attr : Nat) : Nat := (attr &&& 0x38) ||| (atomDefDst (alignOf attr) <<< 6)

def immSize : Align → Nat
  | .dword => 4
  | .word0 | .word8 | .word16 => 2
  | .byte0 | .byte8 | .byte16 | .byte24 => 1

/-! ## State -/

/-- What does not change while tables run: the image with its two table lists, the indirect IO
programs, the size of the scratch area, an `int`, and the tick of the kernel. -/
structure Card where
  bios : Nat → UInt8
  cmdTable : Nat
  dataTable : Nat
  iio : Nat → UInt16
  scratchSizeBytes : Nat
  scratchSizeBytes_lt : scratchSizeBytes < 2 ^ 31
  jiffiesToMsecs : UInt64 → Nat

def u8 (card : Card) (ptr : Nat) : Nat := (card.bios ptr).toNat

def u16 (card : Card) (ptr : Nat) : Nat := u8 card ptr + 256 * u8 card (ptr + 1)

def u32 (card : Card) (ptr : Nat) : UInt32 :=
  .ofNat (u16 card ptr + 65536 * u16 card (ptr + 2))

/-- `ctx->io_mode`. -/
inductive IoMode
  | mm | pci | sysio | iio (port : Nat)
  deriving DecidableEq, Repr

/-- `struct atom_context`, what opcodes change of it. -/
structure Ctx where
  dataBlock : UInt16
  fbBase : UInt32
  divmul0 : UInt32
  divmul1 : UInt32
  ioAttr : UInt16
  regBlock : UInt16
  shift : UInt8
  csEqual : Bool
  csAbove : Bool
  ioMode : IoMode
  scratch : Nat → UInt32

/-- `atom_exec_context` of a table and the place in its code. `ps` is how many words `ctx->ps` is
past the parameters of the caller. `ps_size`, an `int`, is only compared as unsigned and subtracted
from, so its bits are kept. -/
structure Frame where
  ps : Nat
  psSize : UInt32
  psShift : Nat
  ws : Nat → UInt32
  wsSize : Nat
  start : Nat
  lastJump : Nat
  lastJumpJiffies : UInt64
  abort : Bool
  ptr : Nat

/-- A word of one of the areas that an operand reads or writes. A word of a workspace comes with
the size of the workspace. -/
inductive Access
  | params (i : Nat)
  | workspace (i size : Nat)
  | scratch (i : Nat)
  deriving DecidableEq, Repr

/-- The state in which an opcode runs. -/
structure Exec where
  ctx : Ctx
  params : Nat → UInt32
  frame : Frame
  log : List Access

/-- What the environment adds to a step: the values of the registers that the destination and the
source name, from the card or from an indirect IO program (which reaches none of the areas),
`jiffies`, and whether a workspace can be allocated. -/
structure Answers where
  dst : UInt32
  src : UInt32
  jiffies : UInt64
  memory : Bool

/-! ## Operands -/

/-- What reading an operand gives: the place after it, its value, the whole word and the access. -/
structure Src where
  ptr : Nat
  val : UInt32
  saved : UInt32
  log : List Access

/-- The end of `atom_get_src_int`: the bits that the operand names. -/
def Src.ofWord (align : Align) (ptr : Nat) (val : UInt32) (log : List Access) : Src :=
  ⟨ptr, (val &&& atomArgMask align) >>> atomArgShift align, val, log⟩

/-- Whether the IO mode has registers. Otherwise `atom_get_src_int` and `atom_put_dst` return. -/
def regMode (card : Card) (mask : Nat) : IoMode → Bool
  | .mm => true
  | .pci | .sysio => false
  | .iio port => card.iio ((0x80 ||| port) &&& mask) ≠ 0

/-- `gctx->fb_base + (idx * 4)` is past `scratch_size_bytes`. -/
def beyondScratch (card : Card) (ctx : Ctx) (idx : Nat) : Bool :=
  card.scratchSizeBytes < (ctx.fbBase + UInt32.ofNat idx * 4).toNat

/-- `(gctx->fb_base / 4) + idx`. -/
def scratchIndex (ctx : Ctx) (idx : Nat) : Nat := (ctx.fbBase / 4 + UInt32.ofNat idx).toNat

/-- The special words of a workspace, `ATOM_WS_QUOTIENT` to `ATOM_WS_REGPTR`. -/
def wsSpecial (ctx : Ctx) : Nat → Option UInt32
  | 0x40 => some ctx.divmul0
  | 0x41 => some ctx.divmul1
  | 0x42 => some ctx.dataBlock.toUInt32
  | 0x43 => some ctx.shift.toUInt32
  | 0x44 => some (1 <<< ctx.shift.toUInt32)
  | 0x45 => some (~~~ (1 <<< ctx.shift.toUInt32))
  | 0x46 => some ctx.fbBase
  | 0x47 => some ctx.ioAttr.toUInt32
  | 0x48 => some ctx.regBlock.toUInt32
  | _ => none

def poison : UInt32 := 0xCDCDCDCD

/-- `atom_get_src_int`. `ans` is what the card holds in a register, a PLL or a memory-controller
register. When there is no register to read, `saved` is left unset in C, and is 0 here. -/
def atomGetSrcInt (card : Card) (ans : UInt32) (e : Exec) (arg : Arg) (align : Align)
    (ptr : Nat) : Src :=
  match arg with
  | .reg =>
    if regMode card 0x7F e.ctx.ioMode then .ofWord align (ptr + 2) ans []
    else ⟨ptr + 2, 0, 0, []⟩
  | .ps =>
    let idx := u8 card ptr
    if idx < e.frame.psSize.toNat then
      .ofWord align (ptr + 1) (e.params (e.frame.ps + idx)) [.params (e.frame.ps + idx)]
    else .ofWord align (ptr + 1) poison []
  | .ws =>
    let idx := u8 card ptr
    match wsSpecial e.ctx idx with
    | some val => .ofWord align (ptr + 1) val []
    | none =>
      if idx < e.frame.wsSize then
        .ofWord align (ptr + 1) (e.frame.ws idx) [.workspace idx e.frame.wsSize]
      else .ofWord align (ptr + 1) poison []
  | .id => .ofWord align (ptr + 2) (u32 card (u16 card ptr + e.ctx.dataBlock.toNat)) []
  | .fb =>
    let idx := u8 card ptr
    if beyondScratch card e.ctx idx then .ofWord align (ptr + 1) 0 []
    else .ofWord align (ptr + 1) (e.ctx.scratch (scratchIndex e.ctx idx))
      [.scratch (scratchIndex e.ctx idx)]
  | .imm =>
    match align with
    | .dword => ⟨ptr + 4, u32 card ptr, 0, []⟩
    | .word0 | .word8 | .word16 => ⟨ptr + 2, .ofNat (u16 card ptr), 0, []⟩
    | .byte0 | .byte8 | .byte16 | .byte24 => ⟨ptr + 1, .ofNat (u8 card ptr), 0, []⟩
  | .pll | .mc => .ofWord align (ptr + 1) ans []

def atomSkipSrcInt (arg : Arg) (align : Align) (ptr : Nat) : Nat :=
  match arg with
  | .reg | .id => ptr + 2
  | .pll | .mc | .ps | .ws | .fb => ptr + 1
  | .imm => ptr + immSize align

def atomGetSrc (card : Card) (ans : UInt32) (e : Exec) (attr ptr : Nat) : Src :=
  atomGetSrcInt card ans e (argOf attr) (alignOf attr) ptr

/-- `atom_get_src_direct`: the value. The place moves on by `immSize`. -/
def atomGetSrcDirect (card : Card) (align : Align) (ptr : Nat) : UInt32 :=
  match align with
  | .dword => u32 card ptr
  | .word0 | .word8 | .word16 => .ofNat (u16 card ptr)
  | .byte0 | .byte8 | .byte16 | .byte24 => .ofNat (u8 card ptr)

def atomGetDst (card : Card) (ans : UInt32) (e : Exec) (arg : Arg) (attr ptr : Nat) : Src :=
  atomGetSrcInt card ans e arg (dstAlign attr) ptr

def atomSkipDst (arg : Arg) (attr ptr : Nat) : Nat := atomSkipSrcInt arg (dstAlign attr) ptr

/-- The special words of a workspace that `atom_put_dst` sets. The masks cannot be set. -/
def putWsSpecial (ctx : Ctx) (val : UInt32) : Nat → Option Ctx
  | 0x40 => some { ctx with divmul0 := val }
  | 0x41 => some { ctx with divmul1 := val }
  | 0x42 => some { ctx with dataBlock := val.toUInt16 }
  | 0x43 => some { ctx with shift := val.toUInt8 }
  | 0x44 | 0x45 => some ctx
  | 0x46 => some { ctx with fbBase := val }
  | 0x47 => some { ctx with ioAttr := val.toUInt16 }
  | 0x48 => some { ctx with regBlock := val.toUInt16 }
  | _ => none

/-- `atom_put_dst`: the word that is stored keeps the bits of `saved` that the operand does not
name. What goes to a register changes none of the areas. -/
def atomPutDst (card : Card) (e : Exec) (arg : Arg) (attr ptr : Nat) (val saved : UInt32) : Exec :=
  let align := dstAlign attr
  let val := ((val <<< atomArgShift align) &&& atomArgMask align) |||
    (saved &&& ~~~ (atomArgMask align))
  match arg with
  | .ps =>
    let idx := u8 card ptr
    if idx < e.frame.psSize.toNat then
      { e with
        params := update e.params (e.frame.ps + idx) val
        log := e.log ++ [.params (e.frame.ps + idx)] }
    else e
  | .ws =>
    let idx := u8 card ptr
    match putWsSpecial e.ctx val idx with
    | some ctx => { e with ctx := ctx }
    | none =>
      if idx < e.frame.wsSize then
        { e with
          frame := { e.frame with ws := update e.frame.ws idx val }
          log := e.log ++ [.workspace idx e.frame.wsSize] }
      else e
  | .fb =>
    let idx := u8 card ptr
    if beyondScratch card e.ctx idx then e
    else
      { e with
        ctx := { e.ctx with scratch := update e.ctx.scratch (scratchIndex e.ctx idx) val }
        log := e.log ++ [.scratch (scratchIndex e.ctx idx)] }
  | .reg | .id | .imm | .pll | .mc => e

end Amdkfd.Atom
