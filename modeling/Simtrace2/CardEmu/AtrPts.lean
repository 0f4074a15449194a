import Simtrace2.CardEmu.States

/-! Transmission of the ATR, and the PTS exchange. -/
namespace Simtrace2

def Atr.at (a : Atr) (i : Nat) : UInt8 := (a.atr[i]?).getD 0

/-- The search for TC2 at the end of `tx_byte_atr`; the default WI where it is
absent or zero. -/
def Atr.searchWi (a : Atr) : UInt8 :=
  if 2 ≤ a.len ∧ hasBit (a.at 1) 0xf0 then
    let atrTd1 := 2 + (if hasBit (a.at 1) 0x10 then 1 else 0)
      + (if hasBit (a.at 1) 0x20 then 1 else 0) + (if hasBit (a.at 1) 0x40 then 1 else 0)
    if hasBit (a.at 1) 0x80 ∧ atrTd1 < a.len ∧ hasBit (a.at atrTd1) 0xf0 then
      let atrTc2 := atrTd1 + 1 + (if hasBit (a.at atrTd1) 0x10 then 1 else 0)
        + (if hasBit (a.at atrTd1) 0x20 then 1 else 0)
      if hasBit (a.at atrTd1) 0x40 ∧ atrTc2 < a.len ∧ a.at atrTc2 ≠ 0 then a.at atrTc2
      else iso78163DefaultWi
    else iso78163DefaultWi
  else iso78163DefaultWi

namespace PtsBuf

def get (b : PtsBuf) : PtsByte → UInt8
  | .ptss => b.ptss | .pts0 => b.pts0 | .pts1 => b.pts1
  | .pts2 => b.pts2 | .pts3 => b.pts3 | .pck => b.pck

def set (b : PtsBuf) (i : PtsByte) (byte : UInt8) : PtsBuf :=
  match i with
  | .ptss => { b with ptss := byte } | .pts0 => { b with pts0 := byte }
  | .pts1 => { b with pts1 := byte } | .pts2 => { b with pts2 := byte }
  | .pts3 => { b with pts3 := byte } | .pck => { b with pck := byte }

def body (b : PtsBuf) : List UInt8 :=
  [b.ptss, b.pts0] ++ (if hasBit b.pts0 0x10 then [b.pts1] else [])
    ++ (if hasBit b.pts0 0x20 then [b.pts2] else [])
    ++ (if hasBit b.pts0 0x40 then [b.pts3] else [])

def serializePts (b : PtsBuf) : List UInt8 := b.body ++ [b.pck]

def csumPts (b : PtsBuf) : UInt8 :=
  (b.serializePts.take (b.serializePts.length - 1)).foldl (fun csum x => csum ^^^ x) 0

end PtsBuf

/-- The label reached from `from_pts0`, `from_pts1`, `from_pts2` or `from_pts3`. -/
def nextPtsByte (pts0 : UInt8) : PtsByte → PtsByte
  | .ptss | .pck => .pts0
  | .pts0 => if hasBit pts0 0x10 then .pts1 else if hasBit pts0 0x20 then .pts2
             else if hasBit pts0 0x40 then .pts3 else .pck
  | .pts1 => if hasBit pts0 0x20 then .pts2 else if hasBit pts0 0x40 then .pts3 else .pck
  | .pts2 => if hasBit pts0 0x40 then .pts3 else .pck
  | .pts3 => .pck

/-- `next_pts_state`. The last request byte leads to the response; the last
response byte has no label of its own and falls to `from_ptss`. -/
def nextPtsState (p : Pts) : PtsState :=
  let ptr := if p.state.isResp then p.resp else p.req
  if p.state = ⟨false, .pck⟩ then ⟨true, .ptss⟩
  else ⟨p.state.isResp, nextPtsByte ptr.pts0 p.state.sstate⟩

/-- The request byte goes to the field the state waits for. -/
def Pts.store (p : Pts) (byte : UInt8) : Pts :=
  if p.state.isResp then p else { p with req := p.req.set p.state.sstate byte }

def Pts.answer (p : Pts) : Pts :=
  if p.state = ⟨false, .pck⟩ then { p with resp := p.req } else p

namespace Emu

def txByteAtr (e : Emu) : Emu × Bool :=
  if e.ch.state ≠ .inAtr then (e, false)
  else if e.ch.atr.idx < e.ch.atr.len then
    ({ e with ch.atr.idx := e.ch.atr.idx + 1 }.uartTx (e.ch.atr.at e.ch.atr.idx), true)
  else
    let e := { e with ch.wi := e.ch.atr.searchWi }
    ((e.emuUpdateWt).cardSetState .waitTpdu, false)

def setPtsState (e : Emu) (newPtss : PtsState) : Emu := { e with ch.pts.state := newPtss }

def flushPts (e : Emu) (alloc : Alloc) : Emu :=
  match alloc with
  | none => e
  | some tag =>
    let req := e.ch.pts.req.serializePts
    e.usbBufSubmit ⟨tag, e.ch.inEp, .ptsInfo req.length req e.ch.pts.resp.serializePts⟩

/-- `process_byte_pts`; `none` is the result -1. A response state only takes the
error branch of the first switch and goes on to the next state. -/
def processBytePts (e : Emu) (byte : UInt8) (alloc : Alloc) : Emu × Option CardState :=
  let p := e.ch.pts.store byte
  if p.state = ⟨false, .pck⟩ ∧ p.req.pck ≠ p.req.csumPts then
    ({ e with ch.pts := p }.setPtsState ⟨false, .ptss⟩, some .waitTpdu)
  else
    let p := p.answer
    let e := { e with ch.pts := p }.setPtsState (nextPtsState p)
    if e.ch.pts.state = ⟨true, .ptss⟩ then ((e.flushPts alloc).uartEnable .tx, none)
    else (e, some .inPts)

def takePts1 (e : Emu) (byte : UInt8) : Emu :=
  if e.ch.pts.state.sstate = .pts1 then
    { e with ch.fIndex := byte.toNat / 16, ch.dIndex := byte.toNat % 16 }
  else e

def finishPts (e : Emu) : Emu :=
  let e := ((e.uartWaitTxIdle).emuUpdateFidi).emuUpdateWt
  (e.cardSetState .waitTpdu).setPtsState ⟨false, .ptss⟩

def txBytePts (e : Emu) : Emu × Bool :=
  if e.ch.pts.state.isResp then
    let byte := e.ch.pts.resp.get e.ch.pts.state.sstate
    let e := (e.takePts1 byte).uartTx byte
    if e.ch.pts.state.sstate = .pck then (e.finishPts, true)
    else (e.setPtsState (nextPtsState e.ch.pts), true)
  else (e, false)

@[simp] theorem flushPts_ch (e : Emu) (alloc : Alloc) : (e.flushPts alloc).ch = e.ch := by
  cases alloc <;> rfl

theorem takePts1_ch (e : Emu) (byte : UInt8) :
    (e.takePts1 byte).ch =
      { e.ch with fIndex := (e.takePts1 byte).ch.fIndex, dIndex := (e.takePts1 byte).ch.dIndex } := by
  unfold takePts1
  split <;> rfl

@[simp] theorem takePts1_pts (e : Emu) (byte : UInt8) : (e.takePts1 byte).ch.pts = e.ch.pts := by
  rw [takePts1_ch]

theorem processBytePts_ch (e : Emu) (byte : UInt8) (alloc : Alloc) :
    (e.processBytePts byte alloc).1.ch =
      { e.ch with pts := (e.processBytePts byte alloc).1.ch.pts } := by
  simp only [processBytePts]
  split
  · rfl
  · split
    · simp only [uartEnable_ch, flushPts_ch]
      rfl
    · rfl

theorem processBytePts_state (e : Emu) (byte : UInt8) (alloc : Alloc) :
    (e.processBytePts byte alloc).2 = none ∨ (e.processBytePts byte alloc).2 = some .inPts ∨
      (e.processBytePts byte alloc).2 = some .waitTpdu := by
  simp only [processBytePts]
  split
  · exact .inr (.inr rfl)
  · split
    · exact .inl rfl
    · exact .inr (.inl rfl)

end Emu
end Simtrace2
