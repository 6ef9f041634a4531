import Mathlib.Algebra.Ring.Int.Defs
import Mathlib.Algebra.Ring.Nat
import Mathlib.Data.List.TakeWhile

/-!
# Transfers from and to the EEPROM

`amdgpu_eeprom.c`: a transfer is cut into pieces for the limit of the adapter, and a piece that is
written into messages for the pages of the device. A message is sent at most once, so that
`transfer` tells what `i2c_transfer` returns by the first byte of the buffer that a message moves.
-/

namespace Amdkfd.EepromXfer

open List

/-! ## Model -/

/-- `struct i2c_adapter_quirks`. -/
structure Quirks where
  maxReadLen : Nat
  maxWriteLen : Nat

/-- The two messages of a call of `i2c_transfer`: the device, the offset in it, and which bytes of
the buffer are moved. -/
structure Msg where
  addr : Nat
  offsetHi : Nat
  offsetLo : Nat
  pos : Nat
  len : Nat
  deriving DecidableEq, Repr

def eepromPageSize : Nat := 256

def eepromOffsetSize : Nat := 2

def makeI2cAddr (a : Nat) : Nat := (0xA <<< 3) ||| ((a >>> 16) &&& 0xF)

/-- The message for the first bytes of what is left. -/
def nextMsg (read : Bool) (eepromAddr pos bufSize : Nat) : Msg where
  addr := makeI2cAddr eepromAddr
  offsetHi := (eepromAddr >>> 8) &&& 0xff
  offsetLo := eepromAddr &&& 0xff
  pos := pos
  len :=
    if read then bufSize
    else min (eepromPageSize - (eepromAddr &&& (eepromPageSize - 1))) bufSize

/-- The loop of `__amdgpu_eeprom_xfer`: what is sent, the last `r` and where `eeprom_buf` is. -/
def msgLoop (read : Bool) (transfer : Nat → Int) :
    Nat → Nat → Nat → Nat → Int → List Msg × Int × Nat
  | 0, _, pos, _, r => ([], r, pos)
  | fuel + 1, eepromAddr, pos, bufSize, r =>
    if 0 < bufSize then
      let msg := nextMsg read eepromAddr pos bufSize
      if transfer pos ≠ 2 then ([msg], transfer pos, pos)
      else
        let rest := msgLoop read transfer fuel (eepromAddr + msg.len) (pos + msg.len)
          (bufSize - msg.len) (transfer pos)
        (msg :: rest.1, rest.2)
    else ([], r, pos)

def amdgpuEepromXferPiece (read : Bool) (transfer : Nat → Int) (eepromAddr pos bufSize : Nat) :
    List Msg × Int :=
  let sent := msgLoop read transfer bufSize eepromAddr pos bufSize 0
  (sent.1, if sent.2.1 < 0 then sent.2.1 else (sent.2.2 : Int) - pos)

def pieceLoop (read : Bool) (transfer : Nat → Int) (limit : Nat) :
    Nat → Nat → Nat → Nat → Int → List Msg × Int
  | 0, _, _, _, res => ([], res)
  | fuel + 1, eepromAddr, pos, bufSize, res =>
    if 0 < bufSize then
      let ps := min limit bufSize
      let piece := amdgpuEepromXferPiece read transfer eepromAddr pos ps
      if piece.2 < 0 then piece
      else
        let rest := pieceLoop read transfer limit fuel (eepromAddr + ps) (pos + ps) (bufSize - ps)
          (res + piece.2)
        (piece.1 ++ rest.1, rest.2)
    else ([], res)

/-- `limit`, which is 0 without one. -/
def limitOf (read : Bool) : Option Quirks → Nat
  | none => 0
  | some q => if read then q.maxReadLen else q.maxWriteLen

/-- `amdgpu_eeprom_xfer`, which `amdgpu_eeprom_read` and `amdgpu_eeprom_write` are. Without a limit
`buf_size` is cut to 16 bits. -/
def amdgpuEepromXfer (read : Bool) (quirks : Option Quirks) (transfer : Nat → Int)
    (eepromAddr bufSize : Nat) : List Msg × Int :=
  let limit := limitOf read quirks
  if limit = 0 then amdgpuEepromXferPiece read transfer eepromAddr 0 (bufSize % 2 ^ 16)
  else if limit ≤ eepromOffsetSize then ([], -22)
  else pieceLoop read transfer (limit - eepromOffsetSize) bufSize eepromAddr 0 bufSize 0

/-! ## What is to be sent -/

/-- The messages of a piece when none fails. -/
def msgsOf (read : Bool) : Nat → Nat → Nat → Nat → List Msg
  | 0, _, _, _ => []
  | fuel + 1, eepromAddr, pos, bufSize =>
    if 0 < bufSize then
      let msg := nextMsg read eepromAddr pos bufSize
      msg :: msgsOf read fuel (eepromAddr + msg.len) (pos + msg.len) (bufSize - msg.len)
    else []

/-- The pieces of a transfer with a limit when no message fails. -/
def piecesOf (read : Bool) (limit : Nat) : Nat → Nat → Nat → Nat → List (List Msg)
  | 0, _, _, _ => []
  | fuel + 1, eepromAddr, pos, bufSize =>
    if 0 < bufSize then
      let ps := min limit bufSize
      msgsOf read ps eepromAddr pos ps ::
        piecesOf read limit fuel (eepromAddr + ps) (pos + ps) (bufSize - ps)
    else []

def lenOf (msgs : List Msg) : Nat := (msgs.map Msg.len).sum

@[simp] theorem lenOf_nil : lenOf [] = 0 := rfl

@[simp] theorem lenOf_cons (m : Msg) (ms : List Msg) : lenOf (m :: ms) = m.len + lenOf ms := by
  simp [lenOf]

@[simp] theorem lenOf_append (xs ys : List Msg) : lenOf (xs ++ ys) = lenOf xs + lenOf ys := by
  simp [lenOf]

/-- Each message begins where the one before ends, the first one at `pos`. -/
def Consecutive : Nat → List Msg → Prop
  | _, [] => True
  | pos, m :: ms => m.pos = pos ∧ Consecutive (pos + m.len) ms

theorem consecutive_append {pos : Nat} {xs ys : List Msg} :
    Consecutive pos (xs ++ ys) ↔ Consecutive pos xs ∧ Consecutive (pos + lenOf xs) ys := by
  induction xs generalizing pos with
  | nil => simp [Consecutive]
  | cons x xs ih => simp [Consecutive, ih, and_assoc, add_assoc]

/-- `i2c_transfer` has sent both messages. -/
def succeeds (transfer : Nat → Int) (m : Msg) : Bool := transfer m.pos == 2

/-! ## What is sent of a list of pieces -/

section
variable (transfer : Nat → Int)

/-- What is sent of a piece: the messages up to the first that fails. -/
def sentOf : List Msg → List Msg
  | [] => []
  | m :: ms => if transfer m.pos = 2 then m :: sentOf ms else [m]

/-- What is returned for a piece. -/
def resOf : List Msg → Int
  | [] => 0
  | m :: ms =>
    if transfer m.pos = 2 then if resOf ms < 0 then resOf ms else m.len + resOf ms
    else if transfer m.pos < 0 then transfer m.pos
    else 0

/-- What is sent of several pieces, and what is returned when `res` has been counted before. -/
def runPieces : Int → List (List Msg) → List Msg × Int
  | res, [] => ([], res)
  | res, p :: ps =>
    if resOf transfer p < 0 then (sentOf transfer p, resOf transfer p)
    else
      let rest := runPieces (res + resOf transfer p) ps
      (sentOf transfer p ++ rest.1, rest.2)

end

section
variable {read : Bool} {transfer : Nat → Int} {fuel eepromAddr pos bufSize : Nat}

theorem le_msgLoop {r : Int} : pos ≤ (msgLoop read transfer fuel eepromAddr pos bufSize r).2.2 := by
  induction fuel generalizing eepromAddr pos bufSize r with
  | zero => exact le_rfl
  | succ fuel ih =>
    rw [msgLoop]
    split
    case isFalse => exact le_rfl
    dsimp only
    split
    case isTrue => exact le_rfl
    case isFalse => exact le_trans (Nat.le_add_right ..) ih

theorem msgLoop_eq {r : Int} (hr : 0 ≤ r) :
    let sent := msgLoop read transfer fuel eepromAddr pos bufSize r
    let msgs := msgsOf read fuel eepromAddr pos bufSize
    sent.1 = sentOf transfer msgs ∧
      (if sent.2.1 < 0 then sent.2.1 else (sent.2.2 : Int) - pos) = resOf transfer msgs := by
  induction fuel generalizing eepromAddr pos bufSize r with
  | zero => simp [msgLoop, msgsOf, sentOf, resOf, Int.not_lt.mpr hr]
  | succ fuel ih =>
    by_cases hsize : 0 < bufSize
    case neg => simp [msgLoop, msgsOf, sentOf, resOf, hsize, Int.not_lt.mpr hr]
    simp only [msgLoop, msgsOf, if_pos hsize]
    set msg := nextMsg read eepromAddr pos bufSize with hmsg
    have hpos : msg.pos = pos := rfl
    by_cases hok : transfer pos = 2
    case neg => simp [hok, sentOf, resOf, hpos]
    obtain ⟨hrest, hres⟩ := @ih (eepromAddr + msg.len) (pos + msg.len) (bufSize - msg.len) 2
      (by omega)
    rw [if_neg (not_not.mpr hok), sentOf, resOf, hpos, if_pos hok, if_pos hok, hok]
    refine ⟨by rw [hrest], ?_⟩
    rw [← hres]
    dsimp only
    set sent := msgLoop read transfer fuel (eepromAddr + msg.len) (pos + msg.len)
      (bufSize - msg.len) 2
    by_cases hneg : sent.2.1 < 0
    case pos => simp [hneg]
    have hle : pos + msg.len ≤ sent.2.2 := le_msgLoop
    simp only [if_neg hneg]
    rw [if_neg (by omega)]
    omega

theorem amdgpuEepromXferPiece_eq {eepromAddr pos bufSize : Nat} :
    amdgpuEepromXferPiece read transfer eepromAddr pos bufSize =
      (sentOf transfer (msgsOf read bufSize eepromAddr pos bufSize),
        resOf transfer (msgsOf read bufSize eepromAddr pos bufSize)) :=
  Prod.ext (msgLoop_eq (Int.le_refl 0)).1 (msgLoop_eq (Int.le_refl 0)).2

theorem pieceLoop_eq {limit fuel eepromAddr pos bufSize : Nat} {res : Int} :
    pieceLoop read transfer limit fuel eepromAddr pos bufSize res =
      runPieces transfer res (piecesOf read limit fuel eepromAddr pos bufSize) := by
  induction fuel generalizing eepromAddr pos bufSize res with
  | zero => rfl
  | succ fuel ih =>
    rw [pieceLoop, piecesOf]
    split
    case isFalse => rfl
    simp only [amdgpuEepromXferPiece_eq, ih, runPieces]

end

/-! ## When it is right -/

section
variable (transfer : Nat → Int)

/-- What is sent moves one byte after the other from `pos` on. The messages up to the first that
fails have moved what is returned, on top of `res`, and no message after it moves anything. Without
a failure everything is moved. -/
structure RightFrom (pos : Nat) (res : Int) (size : Nat) (out : List Msg × Int) : Prop where
  consecutive : Consecutive pos out.1
  stops : ∀ m ∈ out.1.dropWhile (succeeds transfer), succeeds transfer m = false
  returned : out.2 < 0 ∨ out.2 = res + lenOf (out.1.takeWhile (succeeds transfer))
  complete : (∀ m ∈ out.1, succeeds transfer m = true) → out.2 = res + size

/-- A failure ends the transfer: with an error, in the last piece, or when each piece that follows
begins where the message failed and fails at once. -/
def Stops : Bool → List (List Msg) → Prop
  | _, [] => True
  | failed, p :: ps =>
    (failed = true → p.takeWhile (succeeds transfer) = []) ∧
      match p.dropWhile (succeeds transfer) with
      | [] => Stops failed ps
      | m :: rest => transfer m.pos < 0 ∨ ps = [] ∨ rest = [] ∧ Stops true ps

end

/-- Pieces that have nothing empty and move one byte after the other. -/
structure Planned (pos : Nat) (ps : List (List Msg)) : Prop where
  nonempty : ∀ p ∈ ps, p ≠ []
  len_pos : ∀ m ∈ ps.flatten, 0 < m.len
  consecutive : Consecutive pos ps.flatten

section
variable {transfer : Nat → Int} {pos : Nat} {res : Int} {p : List Msg} {ps : List (List Msg)}

theorem Planned.tail (h : Planned pos (p :: ps)) : Planned (pos + lenOf p) ps where
  nonempty q hq := h.nonempty q (mem_cons_of_mem _ hq)
  len_pos m hm := h.len_pos m (by simp [mem_flatten.mp hm])
  consecutive := by
    have hall := h.consecutive
    rw [flatten_cons, consecutive_append] at hall
    exact hall.2

theorem split_piece (transfer : Nat → Int) (p : List Msg) :
    (∀ m ∈ p, transfer m.pos = 2) ∨
      ∃ done m rest, p = done ++ m :: rest ∧ (∀ n ∈ done, transfer n.pos = 2) ∧
        transfer m.pos ≠ 2 := by
  induction p with
  | nil => simp
  | cons m ms ih =>
    by_cases hok : transfer m.pos = 2
    case neg => exact .inr ⟨[], m, ms, rfl, by simp, hok⟩
    obtain hall | ⟨done, n, rest, rfl, hdone, hfail⟩ := ih
    · exact .inl (by simpa [hok] using hall)
    · exact .inr ⟨m :: done, n, rest, rfl, by simpa [hok] using hdone, hfail⟩

theorem sent_of_ok (h : ∀ m ∈ p, transfer m.pos = 2) :
    sentOf transfer p = p ∧ resOf transfer p = lenOf p := by
  induction p with
  | nil => exact ⟨rfl, rfl⟩
  | cons m ms ih =>
    obtain ⟨hok, hms⟩ := forall_mem_cons.mp h
    obtain ⟨hsent, hres⟩ := ih hms
    simp only [sentOf, resOf, hok, if_true, hsent, hres, lenOf_cons, true_and]
    rw [if_neg (by omega)]
    omega

variable {done : List Msg} {m : Msg}

theorem sent_of_fail (rest : List Msg) (hdone : ∀ n ∈ done, transfer n.pos = 2)
    (hfail : transfer m.pos ≠ 2) :
    sentOf transfer (done ++ m :: rest) = done ++ [m] ∧
      resOf transfer (done ++ m :: rest) =
        if transfer m.pos < 0 then transfer m.pos else (lenOf done : Int) := by
  induction done with
  | nil => simp [sentOf, resOf, hfail]
  | cons n ns ih =>
    obtain ⟨hok, hns⟩ := forall_mem_cons.mp hdone
    obtain ⟨hsent, hres⟩ := ih hns
    simp only [cons_append, sentOf, resOf, hok, if_true, hsent, hres, lenOf_cons, true_and]
    by_cases hneg : transfer m.pos < 0
    case pos => simp [hneg]
    simp only [if_neg hneg]
    rw [if_neg (by omega)]
    omega

/-! What is sent, by how the first piece ends. -/

theorem run_of_ok (h : ∀ m ∈ p, transfer m.pos = 2) :
    runPieces transfer res (p :: ps) =
      (p ++ (runPieces transfer (res + lenOf p) ps).1,
        (runPieces transfer (res + lenOf p) ps).2) := by
  obtain ⟨hsent, hres⟩ := sent_of_ok h
  rw [runPieces, hsent, hres, if_neg (by omega)]

theorem run_of_error {done rest : List Msg} (hdone : ∀ n ∈ done, transfer n.pos = 2)
    (hneg : transfer m.pos < 0) :
    runPieces transfer res ((done ++ m :: rest) :: ps) = (done ++ [m], transfer m.pos) := by
  obtain ⟨hsent, hres⟩ := sent_of_fail rest hdone (show transfer m.pos ≠ 2 by omega)
  rw [runPieces, hsent, hres, if_pos hneg, if_pos hneg]

theorem run_of_short {done rest : List Msg} (hdone : ∀ n ∈ done, transfer n.pos = 2)
    (hfail : transfer m.pos ≠ 2) (hneg : ¬ transfer m.pos < 0) :
    runPieces transfer res ((done ++ m :: rest) :: ps) =
      (done ++ m :: (runPieces transfer (res + lenOf done) ps).1,
        (runPieces transfer (res + lenOf done) ps).2) := by
  obtain ⟨hsent, hres⟩ := sent_of_fail rest hdone hfail
  rw [runPieces, hsent, hres, if_neg hneg, if_neg (by omega)]
  simp

theorem span_of_ok (h : ∀ m ∈ p, transfer m.pos = 2) :
    p.takeWhile (succeeds transfer) = p ∧ p.dropWhile (succeeds transfer) = [] := by
  have hall : ∀ m ∈ p, succeeds transfer m = true := by simpa [succeeds] using h
  exact ⟨takeWhile_eq_self_iff.mpr hall, dropWhile_eq_nil_iff.mpr hall⟩

theorem span_of_fail (rest : List Msg) (hdone : ∀ n ∈ done, transfer n.pos = 2)
    (hfail : transfer m.pos ≠ 2) :
    (done ++ m :: rest).takeWhile (succeeds transfer) = done ∧
      (done ++ m :: rest).dropWhile (succeeds transfer) = m :: rest := by
  have hall : ∀ n ∈ done, succeeds transfer n = true := by simpa [succeeds] using hdone
  have hm : succeeds transfer m = false := by simpa [succeeds] using hfail
  rw [takeWhile_append_of_pos hall, dropWhile_append_of_pos hall]
  simp [hm]

theorem lenOf_eq_zero {ms : List Msg} (hpos : ∀ m ∈ ms, 0 < m.len) (h : lenOf ms = 0) :
    ms = [] := by
  cases ms with
  | nil => rfl
  | cons m ms =>
    have := hpos m mem_cons_self
    rw [lenOf_cons] at h
    omega

/-- What is sent after a failure: nothing that moves a byte. -/
structure After (transfer : Nat → Int) (pos : Nat) (res : Int) (out : List Msg × Int) : Prop where
  consecutive : Consecutive pos out.1
  fails : ∀ m ∈ out.1, transfer m.pos ≠ 2
  returned : out.2 < 0 ∨ out.2 = res

theorem first_sent (transfer : Nat → Int) (res : Int) (h : Planned pos (p :: ps)) :
    ∃ m ms, (runPieces transfer res (p :: ps)).1 = m :: ms ∧ m.pos = pos := by
  obtain ⟨m, ms, rfl⟩ := exists_cons_of_ne_nil (h.nonempty p mem_cons_self)
  have hm : m.pos = pos := h.consecutive.1
  have hsent : ∃ rest, sentOf transfer (m :: ms) = m :: rest := by
    rw [sentOf]
    split
    · exact ⟨_, rfl⟩
    · exact ⟨[], rfl⟩
  obtain ⟨rest, hrest⟩ := hsent
  rw [runPieces]
  split
  · exact ⟨m, rest, hrest, hm⟩
  · simp only [hrest, cons_append]
    exact ⟨m, _, rfl, hm⟩

theorem after_iff {done rest : List Msg} (res : Int) (h : Planned pos ((done ++ m :: rest) :: ps))
    (ih : ∀ pos', Planned pos' ps →
      (After transfer pos' res (runPieces transfer res ps) ↔ Stops transfer true ps)) :
    After transfer (pos + lenOf done + m.len) res (runPieces transfer res ps) ↔
      ps = [] ∨ rest = [] ∧ Stops transfer true ps := by
  have htail := h.tail
  have hlen : pos + lenOf (done ++ m :: rest) = pos + lenOf done + m.len + lenOf rest := by
    simp only [lenOf_append, lenOf_cons]
    omega
  rw [hlen] at htail
  cases ps with
  | nil => simp only [true_or, iff_true]; exact ⟨trivial, by simp [runPieces], .inr rfl⟩
  | cons q qs =>
    constructor
    · intro hafter
      obtain ⟨n, ns, hsent, hpos⟩ := first_sent transfer res htail
      have hnext := hafter.consecutive
      rw [hsent] at hnext
      have hrest : rest = [] :=
        lenOf_eq_zero (fun n hn => h.len_pos n (by simp [hn])) (by have := hnext.1; omega)
      subst hrest
      exact .inr ⟨rfl, (ih _ htail).mp hafter⟩
    · rintro (hnil | ⟨rfl, hstops⟩)
      · simp at hnil
      · exact (ih _ htail).mpr hstops

theorem run_after_iff (h : Planned pos ps) :
    After transfer pos res (runPieces transfer res ps) ↔ Stops transfer true ps := by
  induction ps generalizing pos res with
  | nil => simp only [Stops, iff_true]; exact ⟨trivial, by simp [runPieces], .inr rfl⟩
  | cons p ps ih =>
    obtain hok | ⟨done, m, rest, rfl, hdone, hfail⟩ := split_piece transfer p
    · obtain ⟨m, ms, rfl⟩ := exists_cons_of_ne_nil (h.nonempty p mem_cons_self)
      refine iff_of_false (fun hafter => ?_) (fun hstops => ?_)
      · refine hafter.fails m ?_ (hok m mem_cons_self)
        rw [run_of_ok hok]
        simp
      · have hnil := hstops.1 rfl
        rw [(span_of_ok hok).1] at hnil
        simp at hnil
    obtain ⟨htake, hdrop⟩ := span_of_fail rest hdone hfail
    simp only [Stops, htake, hdrop, true_implies]
    cases done with
    | cons n ns =>
      refine iff_of_false (fun hafter => ?_) (by simp)
      refine hafter.fails n ?_ (hdone n mem_cons_self)
      by_cases hneg : transfer m.pos < 0
      · rw [run_of_error hdone hneg]
        simp
      · rw [run_of_short hdone hfail hneg]
        simp
    | nil =>
      have hfirst : m.pos = pos := h.consecutive.1
      by_cases hneg : transfer m.pos < 0
      · rw [run_of_error hdone hneg]
        simp only [hneg, true_and, true_or, iff_true]
        exact ⟨⟨hfirst, trivial⟩, by simpa using hfail, .inl hneg⟩
      rw [run_of_short hdone hfail hneg]
      simp only [hneg, false_or, true_and, ← after_iff res h fun _ h => ih h]
      simp only [lenOf_nil, Nat.cast_zero, add_zero, nil_append]
      constructor
      · rintro ⟨hc, hf, hret⟩
        exact ⟨hc.2, fun n hn => hf n (mem_cons_of_mem _ hn), hret⟩
      · rintro ⟨hc, hf, hret⟩
        exact ⟨⟨hfirst, hc⟩, forall_mem_cons.mpr ⟨hfail, hf⟩, hret⟩

theorem rightFrom_append {size : Nat} {out : List Msg × Int} (hok : ∀ m ∈ p, transfer m.pos = 2)
    (hp : Consecutive pos p) :
    RightFrom transfer pos res (lenOf p + size) (p ++ out.1, out.2) ↔
      RightFrom transfer (pos + lenOf p) (res + lenOf p) size out := by
  have hall : ∀ m ∈ p, succeeds transfer m = true := by simpa [succeeds] using hok
  constructor
  · rintro ⟨hcons, hstops, hret, hcomplete⟩
    rw [dropWhile_append_of_pos hall] at hstops
    rw [takeWhile_append_of_pos hall, lenOf_append] at hret
    refine ⟨(consecutive_append.mp hcons).2, hstops, by omega, fun hout => ?_⟩
    have := hcomplete (forall_mem_append.mpr ⟨hall, hout⟩)
    omega
  · rintro ⟨hcons, hstops, hret, hcomplete⟩
    refine ⟨consecutive_append.mpr ⟨hp, hcons⟩, ?_, ?_, fun hout => ?_⟩
    · rw [dropWhile_append_of_pos hall]
      exact hstops
    · rw [takeWhile_append_of_pos hall, lenOf_append]
      omega
    · have := hcomplete (forall_mem_append.mp hout).2
      omega

theorem rightFrom_short {size : Nat} {out : List Msg × Int}
    (hdone : ∀ n ∈ done, transfer n.pos = 2) (hfail : transfer m.pos ≠ 2)
    (hc : Consecutive pos (done ++ [m])) :
    RightFrom transfer pos res size (done ++ m :: out.1, out.2) ↔
      After transfer (pos + lenOf done + m.len) (res + lenOf done) out := by
  have hall : ∀ n ∈ done, succeeds transfer n = true := by simpa [succeeds] using hdone
  have hm : succeeds transfer m = false := by simpa [succeeds] using hfail
  obtain ⟨htake, hdrop⟩ := span_of_fail out.1 hdone hfail
  obtain ⟨hcdone, hcm, -⟩ := consecutive_append.mp hc
  constructor
  · rintro ⟨hcons, hstops, hret, -⟩
    rw [hdrop] at hstops
    rw [htake] at hret
    refine ⟨(consecutive_append.mp hcons).2.2, fun n hn => ?_, hret⟩
    simpa [succeeds] using hstops n (mem_cons_of_mem _ hn)
  · rintro ⟨hcons, hfails, hret⟩
    refine ⟨consecutive_append.mpr ⟨hcdone, hcm, hcons⟩, ?_, ?_, fun hout => ?_⟩
    · rw [hdrop, forall_mem_cons]
      exact ⟨hm, by simpa [succeeds] using hfails⟩
    · rw [htake]
      exact hret
    · have := hout m (by simp)
      rw [hm] at this
      cases this

theorem run_right_iff (res : Int) (h : Planned pos ps) :
    RightFrom transfer pos res (lenOf ps.flatten) (runPieces transfer res ps) ↔
      Stops transfer false ps := by
  induction ps generalizing pos res with
  | nil =>
    simp only [Stops, iff_true]
    exact ⟨trivial, by simp [runPieces], .inr (by simp [runPieces]), by simp [runPieces]⟩
  | cons p ps ih =>
    have hc := h.consecutive
    rw [flatten_cons] at hc ⊢
    rw [consecutive_append] at hc
    obtain hok | ⟨done, m, rest, rfl, hdone, hfail⟩ := split_piece transfer p
    · rw [run_of_ok hok, lenOf_append, rightFrom_append hok hc.1, ih _ h.tail]
      simp [Stops, (span_of_ok hok).2]
    obtain ⟨htake, hdrop⟩ := span_of_fail rest hdone hfail
    have hcm : Consecutive pos (done ++ [m]) := by
      have := hc.1
      rw [consecutive_append] at this ⊢
      exact ⟨this.1, this.2.1, trivial⟩
    simp only [Stops, hdrop, Bool.false_eq_true, false_implies, true_and]
    by_cases hneg : transfer m.pos < 0
    · rw [run_of_error hdone hneg]
      simp only [hneg, true_or, iff_true]
      exact (@rightFrom_short _ _ _ _ _ _ ([], _) hdone hfail hcm).mpr
        ⟨trivial, by simp, .inl hneg⟩
    rw [run_of_short hdone hfail hneg, rightFrom_short hdone hfail hcm]
    simp only [hneg, false_or]
    exact after_iff _ h fun _ h => run_after_iff h

theorem mem_sentOf (h : m ∈ sentOf transfer p) : m ∈ p := by
  induction p with
  | nil => exact h
  | cons n ns ih =>
    rw [sentOf] at h
    split at h
    · obtain rfl | hmem := mem_cons.mp h
      · exact mem_cons_self
      · exact mem_cons_of_mem _ (ih hmem)
    · rw [mem_singleton.mp h]
      exact mem_cons_self

theorem mem_runPieces (h : m ∈ (runPieces transfer res ps).1) : m ∈ ps.flatten := by
  induction ps generalizing res with
  | nil => exact h
  | cons p ps ih =>
    rw [flatten_cons, mem_append]
    rw [runPieces] at h
    split at h
    · exact .inl (mem_sentOf h)
    · exact (mem_append.mp h).imp mem_sentOf ih

end

/-! ## What is to be sent is proper -/

/-- A message of a transfer of `bufSize` bytes from `eepromAddr` on. -/
structure Msg.Proper (read : Bool) (limit eepromAddr bufSize : Nat) (m : Msg) : Prop where
  nonempty : 0 < m.len
  inBuffer : m.pos + m.len ≤ bufSize
  inLimit : limit ≠ 0 → m.len + eepromOffsetSize ≤ limit
  inPage : read = false → (eepromAddr + m.pos) % eepromPageSize + m.len ≤ eepromPageSize
  device : m.addr = 0x50 + (eepromAddr + m.pos) / 2 ^ 16
  offset : m.offsetHi * 256 + m.offsetLo = (eepromAddr + m.pos) % 2 ^ 16

theorem or_device {k : Nat} (h : k < 16) : 0xA <<< 3 ||| k = 0x50 + k := by
  have hall : ∀ k < 16, 0xA <<< 3 ||| k = 0x50 + k := by decide
  exact hall k h

theorem makeI2cAddr_eq {a : Nat} (h : a < 2 ^ 19) : makeI2cAddr a = 0x50 + a / 2 ^ 16 := by
  have hbits : (a >>> 16) &&& 0xF = a / 2 ^ 16 := by
    rw [Nat.shiftRight_eq_div_pow, Nat.and_two_pow_sub_one_eq_mod _ 4]
    omega
  rw [makeI2cAddr, hbits, or_device (by omega)]

section
variable (read : Bool) {eepromAddr pos bufSize : Nat}

theorem nextMsg_len (eepromAddr pos : Nat) (hpos : 0 < bufSize) :
    0 < (nextMsg read eepromAddr pos bufSize).len ∧
      (nextMsg read eepromAddr pos bufSize).len ≤ bufSize ∧
      (read = false → eepromAddr % eepromPageSize +
        (nextMsg read eepromAddr pos bufSize).len ≤ eepromPageSize) := by
  have hpage : eepromAddr &&& (eepromPageSize - 1) = eepromAddr % eepromPageSize :=
    Nat.and_two_pow_sub_one_eq_mod _ 8
  have hlt : eepromAddr % eepromPageSize < eepromPageSize := Nat.mod_lt _ (by decide)
  cases read with
  | true => simp [nextMsg, hpos]
  | false =>
    simp only [nextMsg, hpage, Bool.false_eq_true, if_false]
    omega

theorem nextMsg_proper {limit base total : Nat} (hpos : 0 < bufSize)
    (hfit : base + total ≤ 2 ^ 19) (hend : pos + bufSize ≤ total)
    (hlimit : limit ≠ 0 → bufSize + eepromOffsetSize ≤ limit) :
    (nextMsg read (base + pos) pos bufSize).Proper read limit base total := by
  obtain ⟨hlen, hle, hpage⟩ := nextMsg_len read (base + pos) pos hpos
  refine ⟨hlen, ?_, fun hl => ?_, hpage, makeI2cAddr_eq ?_, ?_⟩
  · exact le_trans (Nat.add_le_add_left hle _) hend
  · exact le_trans (Nat.add_le_add_right hle _) (hlimit hl)
  · exact lt_of_lt_of_le (by show base + pos < base + total; omega) hfit
  · show ((base + pos) >>> 8 &&& 0xff) * 256 + ((base + pos) &&& 0xff) = (base + pos) % 2 ^ 16
    rw [Nat.shiftRight_eq_div_pow, Nat.and_two_pow_sub_one_eq_mod _ 8,
      Nat.and_two_pow_sub_one_eq_mod _ 8]
    omega

variable {limit base total fuel : Nat}

theorem msgsOf_spec (hfuel : bufSize ≤ fuel) (hfit : base + total ≤ 2 ^ 19)
    (hend : pos + bufSize ≤ total) (hlimit : limit ≠ 0 → bufSize + eepromOffsetSize ≤ limit) :
    (∀ m ∈ msgsOf read fuel (base + pos) pos bufSize, m.Proper read limit base total) ∧
      Consecutive pos (msgsOf read fuel (base + pos) pos bufSize) ∧
      lenOf (msgsOf read fuel (base + pos) pos bufSize) = bufSize := by
  induction fuel generalizing pos bufSize with
  | zero => exact ⟨by simp [msgsOf], trivial, by simp [msgsOf]; omega⟩
  | succ fuel ih =>
    rw [msgsOf]
    split
    case isFalse => exact ⟨by simp, trivial, by simp; omega⟩
    case isTrue hpos =>
      dsimp only
      have hproper := nextMsg_proper read hpos hfit hend hlimit
      obtain ⟨hlen, hle, -⟩ := nextMsg_len read (base + pos) pos hpos
      set msg := nextMsg read (base + pos) pos bufSize with hmsg
      have hposEq : msg.pos = pos := rfl
      obtain ⟨hall, hc, hsum⟩ := @ih (pos + msg.len) (bufSize - msg.len) (by omega) (by omega)
        (fun hl => by have := hlimit hl; omega)
      rw [← add_assoc] at hall hc hsum
      refine ⟨forall_mem_cons.mpr ⟨hproper, hall⟩, ⟨hposEq, hc⟩, ?_⟩
      rw [lenOf_cons, hsum]
      omega

theorem piecesOf_spec (hlimit : eepromOffsetSize < limit) (hfuel : bufSize ≤ fuel)
    (hfit : base + total ≤ 2 ^ 19) (hend : pos + bufSize ≤ total) :
    let ps := piecesOf read (limit - eepromOffsetSize) fuel (base + pos) pos bufSize
    (∀ m ∈ ps.flatten, m.Proper read limit base total) ∧ (∀ p ∈ ps, p ≠ []) ∧
      Consecutive pos ps.flatten ∧ lenOf ps.flatten = bufSize := by
  induction fuel generalizing pos bufSize with
  | zero => exact ⟨by simp [piecesOf], by simp [piecesOf], trivial, by simp [piecesOf]; omega⟩
  | succ fuel ih =>
    dsimp only
    rw [piecesOf]
    split
    case isFalse => exact ⟨by simp, by simp, trivial, by simp; omega⟩
    case isTrue hpos =>
      dsimp only
      set size := min (limit - eepromOffsetSize) bufSize with hsize
      have hsize' : pos + size ≤ total := by omega
      have hroom : limit ≠ 0 → size + eepromOffsetSize ≤ limit := by omega
      obtain ⟨hall, hc, hsum⟩ := msgsOf_spec read (le_refl size) hfit hsize' hroom
      obtain ⟨hall', hne, hc', hsum'⟩ := @ih (pos + size) (bufSize - size) (by omega) (by omega)
      rw [← add_assoc] at hall' hne hc' hsum'
      refine ⟨?_, forall_mem_cons.mpr ⟨fun hnil => ?_, hne⟩, ?_, ?_⟩
      · rw [flatten_cons]
        exact forall_mem_append.mpr ⟨hall, hall'⟩
      · rw [hnil, lenOf_nil] at hsum
        omega
      · rw [flatten_cons, consecutive_append, hsum]
        exact ⟨hc, hc'⟩
      · rw [flatten_cons, lenOf_append, hsum, hsum']
        omega

end

/-! ## A transfer -/

/-- What is sent covers the bytes in order, in messages that the adapter and the device take, and
what is returned tells what has been moved. -/
structure TransferRight (read : Bool) (limit : Nat) (transfer : Nat → Int)
    (eepromAddr bufSize : Nat) (out : List Msg × Int) : Prop where
  proper : ∀ m ∈ out.1, m.Proper read limit eepromAddr bufSize
  right : RightFrom transfer 0 0 bufSize out

section
variable {read : Bool} {transfer : Nat → Int} {eepromAddr bufSize : Nat}

theorem piece_right (transfer : Nat → Int) {p : List Msg} (hlen : ∀ m ∈ p, 0 < m.len)
    (hc : Consecutive 0 p) :
    RightFrom transfer 0 0 (lenOf p) (sentOf transfer p, resOf transfer p) := by
  by_cases hnil : p = []
  · subst hnil
    exact ⟨trivial, by simp [sentOf], .inr rfl, fun _ => rfl⟩
  have hplanned : Planned 0 [p] := ⟨by simpa using hnil, by simpa using hlen, by simpa using hc⟩
  have hstops : Stops transfer false [p] := by
    rw [Stops]
    split <;> simp [Stops]
  have hright := (run_right_iff 0 hplanned).mpr hstops
  simpa [runPieces] using hright

theorem sent_ok_iff {p : List Msg} :
    (∀ m ∈ sentOf transfer p, transfer m.pos = 2) ↔ ∀ m ∈ p, transfer m.pos = 2 := by
  obtain hok | ⟨done, m, rest, rfl, hdone, hfail⟩ := split_piece transfer p
  · rw [(sent_of_ok hok).1]
  · rw [(sent_of_fail rest hdone hfail).1]
    exact iff_of_false (fun h => hfail (h m (by simp))) (fun h => hfail (h m (by simp)))

theorem piece_right_iff (hfit : eepromAddr + bufSize ≤ 2 ^ 19) :
    TransferRight read 0 transfer eepromAddr bufSize
        (amdgpuEepromXferPiece read transfer eepromAddr 0 (bufSize % 2 ^ 16)) ↔
      bufSize < 2 ^ 16 ∨
        ∃ m ∈ msgsOf read (bufSize % 2 ^ 16) eepromAddr 0 (bufSize % 2 ^ 16),
          transfer m.pos ≠ 2 := by
  have hcut : bufSize % 2 ^ 16 ≤ bufSize := Nat.mod_le ..
  have hend : 0 + bufSize % 2 ^ 16 ≤ bufSize := by omega
  have hroom : 0 ≠ 0 → bufSize % 2 ^ 16 + eepromOffsetSize ≤ 0 := by simp
  obtain ⟨hall, hc, hsum⟩ := msgsOf_spec read (le_refl _) hfit hend hroom
  rw [add_zero] at hall hc hsum
  rw [amdgpuEepromXferPiece_eq]
  set msgs := msgsOf read (bufSize % 2 ^ 16) eepromAddr 0 (bufSize % 2 ^ 16)
  obtain ⟨hcons, hstops, hret, hcomplete⟩ :=
    piece_right transfer (fun m hm => (hall m hm).nonempty) hc
  have hiff : (∀ m ∈ sentOf transfer msgs, succeeds transfer m = true) ↔
      ∀ m ∈ msgs, transfer m.pos = 2 := by
    simpa [succeeds] using sent_ok_iff
  rw [hsum] at hcomplete
  constructor
  · rintro ⟨-, hright⟩
    -- Without a failure the bytes that were cut off are missing from the count.
    by_cases hok : ∀ m ∈ msgs, transfer m.pos = 2
    · have hwhole := hright.complete (hiff.mpr hok)
      rw [hcomplete (hiff.mpr hok)] at hwhole
      omega
    · simp only [not_forall] at hok
      obtain ⟨m, hm, hfail⟩ := hok
      exact .inr ⟨m, hm, hfail⟩
  · intro hwhen
    refine ⟨fun m hm => hall m (mem_sentOf hm), hcons, hstops, hret, fun hok => ?_⟩
    obtain hshort | ⟨m, hm, hfail⟩ := hwhen
    · rw [hcomplete hok]
      omega
    · exact absurd (hiff.mp hok m hm) hfail

theorem pieceLoop_right_iff {limit : Nat} (hfit : eepromAddr + bufSize ≤ 2 ^ 19)
    (hlimit : eepromOffsetSize < limit) :
    TransferRight read limit transfer eepromAddr bufSize
        (pieceLoop read transfer (limit - eepromOffsetSize) bufSize eepromAddr 0 bufSize 0) ↔
      Stops transfer false
        (piecesOf read (limit - eepromOffsetSize) bufSize eepromAddr 0 bufSize) := by
  have hend : 0 + bufSize ≤ bufSize := by omega
  obtain ⟨hall, hne, hc, hsum⟩ := piecesOf_spec read hlimit (le_refl bufSize) hfit hend
  rw [add_zero] at hall hne hc hsum
  have hplanned : Planned 0 _ := ⟨hne, fun m hm => (hall m hm).nonempty, hc⟩
  rw [pieceLoop_eq, ← run_right_iff 0 hplanned, hsum]
  exact ⟨TransferRight.right, fun h => ⟨fun m hm => hall m (mem_runPieces hm), h⟩⟩

/-- A transfer of up to the size of the device is right exactly when its length is not cut, or a
message of what is left fails, and when with a limit a failure ends it. -/
theorem amdgpuEepromXfer_right_iff (quirks : Option Quirks)
    (hfit : eepromAddr + bufSize ≤ 2 ^ 19)
    (hlimit : limitOf read quirks = 0 ∨ eepromOffsetSize < limitOf read quirks) :
    TransferRight read (limitOf read quirks) transfer eepromAddr bufSize
        (amdgpuEepromXfer read quirks transfer eepromAddr bufSize) ↔
      if limitOf read quirks = 0 then
        bufSize < 2 ^ 16 ∨
          ∃ m ∈ msgsOf read (bufSize % 2 ^ 16) eepromAddr 0 (bufSize % 2 ^ 16), transfer m.pos ≠ 2
      else
        Stops transfer false
          (piecesOf read (limitOf read quirks - eepromOffsetSize) bufSize eepromAddr 0
            bufSize) := by
  rw [amdgpuEepromXfer]
  by_cases hzero : limitOf read quirks = 0
  · simp only [hzero, if_true]
    exact piece_right_iff hfit
  · have hlt : eepromOffsetSize < limitOf read quirks := by omega
    simp only [if_neg hzero, if_neg (Nat.not_le_of_lt hlt)]
    exact pieceLoop_right_iff hfit hlt

theorem amdgpuEepromXfer_right_at :
    TransferRight false 10 (fun _ => 2) 0 16
      (amdgpuEepromXfer false (some ⟨10, 10⟩) (fun _ => 2) 0 16) :=
  (amdgpuEepromXfer_right_iff (some ⟨10, 10⟩) (by decide) (.inr (by decide))).mpr
    ⟨by simp, by simp, trivial⟩

/-- Of 65536 bytes none is sent without a limit. With one that leaves 8 bytes for a message a first
message that is cut short is followed by the second one, whose bytes are counted as the first. -/
theorem amdgpuEepromXfer_wrong :
    amdgpuEepromXfer true none (fun _ => 2) 0 65536 = ([], 0) ∧
      ¬ TransferRight true 0 (fun _ => 2) 0 65536
        (amdgpuEepromXfer true none (fun _ => 2) 0 65536) ∧
      ¬ TransferRight false 10 (fun pos => if pos = 0 then 1 else 2) 0 16
        (amdgpuEepromXfer false (some ⟨10, 10⟩) (fun pos => if pos = 0 then 1 else 2) 0 16) := by
  refine ⟨rfl, fun h => ?_, fun h => ?_⟩
  · have hret : (0 : Int) = 0 + 65536 := h.right.complete (fun m hm => by cases hm)
    omega
  · have hsent : (amdgpuEepromXfer false (some ⟨10, 10⟩)
        (fun pos => if pos = 0 then 1 else 2) 0 16).1 = [⟨80, 0, 0, 0, 8⟩, ⟨80, 0, 8, 8, 8⟩] := by
      decide
    have hstops := h.right.stops ⟨80, 0, 8, 8, 8⟩ (by rw [hsent]; decide)
    simp [succeeds] at hstops

end

end Amdkfd.EepromXfer
