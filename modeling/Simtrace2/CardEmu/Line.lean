import Simtrace2.CardEmu.ModeCardemu

/-! A T=0 exchange as a machine of its own: the part of the handle that the exchange
depends on, and what a byte from the reader, a byte to the reader, a message of the
host and half a waiting time do to it. UART modes, waiting times and the buffers given
back are left to the handle. -/
namespace Simtrace2

structure Line where
  state : CardState
  tpdu : Tpdu
  inEp : Nat
  rx : Option RxMsg
  tx : Option Msgb
  queue : List Msgb
  sent : List UInt8
  usb : List UsbMsg

def Emu.line (e : Emu) : Line :=
  { state := e.ch.state, tpdu := e.ch.tpdu, inEp := e.ch.inEp, rx := e.ch.uartRxMsg
    tx := e.ch.uartTxMsg, queue := e.ch.uartTxQueue, sent := e.uart.sent, usb := e.usb }

def Tpdu.put (t : Tpdu) (byte : UInt8) : Tpdu :=
  match t.state with
  | .waitCla => ⟨.waitIns, { t.hdr with cla := byte }⟩
  | .waitIns => ⟨.waitP1, { t.hdr with ins := byte }⟩
  | .waitP1 => ⟨.waitP2, { t.hdr with p1 := byte }⟩
  | .waitP2 => ⟨.waitP3, { t.hdr with p2 := byte }⟩
  | .waitP3 => ⟨.waitPb, { t.hdr with p3 := byte }⟩
  | _ => t

namespace Line

def rxData (l : Line) (msg : RxMsg) : UsbMsg :=
  ⟨msg.tag, l.inEp, .rxData msg.flags msg.data.length msg.data⟩

def flush (l : Line) : Line := { l with rx := none, usb := l.usb ++ (l.rx.map l.rxData).toList }

def sendHeader (l : Line) (alloc : Alloc) : Line :=
  { l with usb := l.usb ++ (alloc.map fun tag =>
      l.rxData ⟨tag, cemuDataFTpduHdr, l.tpdu.hdr.bytes⟩).toList }

def addByte (l : Line) (byte : UInt8) (alloc : Alloc) : Line :=
  match l.rx <|> alloc.map fun tag => { tag := tag } with
  | none => l
  | some msg =>
    if l.tpdu.hdr.p3.toNat ≤ msg.data.length + 1 then
      { l with
        rx := none, tpdu.state := .waitTx
        usb := l.usb ++ [l.rxData ⟨msg.tag, msg.flags ||| cemuDataFFinal, msg.data ++ [byte]⟩] }
    else { l with rx := some { msg with data := msg.data ++ [byte] } }

def rxTpdu (l : Line) (byte : UInt8) (alloc : Alloc) : Line :=
  match l.tpdu.state with
  | .waitCla | .waitIns | .waitP1 | .waitP2 => { l with tpdu := l.tpdu.put byte }
  | .waitP3 => { l with tpdu := l.tpdu.put byte }.flush.sendHeader alloc
  | .waitRx => l.addByte byte alloc
  | .waitPb | .waitTx => l

/-- A byte of the reader, in a TPDU or as the first of one. -/
def rxByte (l : Line) (byte : UInt8) (alloc : Alloc) : Line :=
  { l.rxTpdu byte alloc with state := .inTpdu }

/-- The message the next byte is taken from, and the queue behind it. -/
def txMsg (l : Line) : Option (Msgb × List Msgb) :=
  match l.tx, l.queue with
  | some msg, queue => some (msg, queue)
  | none, msg :: queue => some (msg.dequeued, queue)
  | none, [] => none

def afterByte (ts : TpduState) (flags : UInt32) : TpduState :=
  if ts = .waitPb then
    if hasFlag flags cemuDataFPbAndTx then .waitTx
    else if hasFlag flags cemuDataFPbAndRx then .waitRx else .waitPb
  else ts

def afterMessage (l : Line) (flags : UInt32) : Line :=
  if hasFlag flags cemuDataFPbAndRx then { l with tpdu.state := .waitRx }
  else if hasFlag flags cemuDataFFinal then { l with state := .waitTpdu, tpdu.state := .waitCla }
  else l

def sendByte (l : Line) (msg : Msgb) (queue : List Msgb) : Line :=
  let rest := msg.msgbPullU8.2
  let l := { l with
    tpdu.state := afterByte l.tpdu.state msg.txFlags, queue, sent := l.sent ++ [msg.msgbPullU8.1] }
  if rest.len = 0 then { l.afterMessage msg.txFlags with tx := none }
  else { l with tx := some rest }

def txByte (l : Line) : Line × Bool :=
  match l.txMsg with
  | none => (l, false)
  | some (msg, queue) => (l.sendByte msg queue, true)

def enqueue (l : Line) (msg : Msgb) : Line := { l with queue := l.queue ++ [msg] }

def halfExpired (l : Line) : Line :=
  match l.tpdu.state with
  | .waitPb | .waitTx => { l with sent := l.sent ++ [iso78163PbNull] }
  | _ => l

variable (l : Line) {msg : Msgb} (queue : List Msgb)

theorem sendByte_more (more : msg.msgbPullU8.2.len ≠ 0) :
    l.sendByte msg queue = { l with
      tpdu.state := afterByte l.tpdu.state msg.txFlags, queue, sent := l.sent ++ [msg.msgbPullU8.1]
      tx := some msg.msgbPullU8.2 } := by
  simp only [sendByte, if_neg more]

theorem sendByte_last (last : msg.msgbPullU8.2.len = 0) :
    l.sendByte msg queue =
      { { l with
          tpdu.state := afterByte l.tpdu.state msg.txFlags, queue
          sent := l.sent ++ [msg.msgbPullU8.1] }.afterMessage msg.txFlags with tx := none } := by
  simp only [sendByte, if_pos last]

theorem rxByte_frame (l : Line) (byte : UInt8) (alloc : Alloc) :
    (l.rxByte byte alloc).tx = l.tx ∧ (l.rxByte byte alloc).sent = l.sent := by
  unfold rxByte rxTpdu addByte
  cases l.tpdu.state with
  | waitRx =>
    cases l.rx <|> alloc.map fun tag => { tag := tag } with
    | none => exact ⟨rfl, rfl⟩
    | some msg =>
      simp only
      split <;> exact ⟨rfl, rfl⟩
  | _ => exact ⟨rfl, rfl⟩

end Line

namespace Emu

@[simp] theorem line_setTpduState (e : Emu) (ts : TpduState) :
    (e.setTpduState ts).line = { e.line with tpdu.state := ts } := by
  unfold setTpduState
  split
  · rename_i same
    subst same
    rfl
  · cases ts <;> rfl

@[simp] theorem line_uartEnable (e : Emu) (m : UartMode) : (e.uartEnable m).line = e.line := rfl
@[simp] theorem line_usbBufFree (e : Emu) (tag : Nat) : (e.usbBufFree tag).line = e.line := rfl
@[simp] theorem line_uartTx (e : Emu) (byte : UInt8) :
    (e.uartTx byte).line = { e.line with sent := e.line.sent ++ [byte] } := rfl

@[simp] theorem line_holdRxMsg (e : Emu) (msg : RxMsg) :
    (e.holdRxMsg msg).line = { e.line with rx := some msg } := rfl

@[simp] theorem line_flushRxBuffer (e : Emu) : e.flushRxBuffer.line = e.line.flush := by
  unfold flushRxBuffer
  cases rx : e.ch.uartRxMsg with
  | none => simp [line, Line.flush, rx]
  | some msg => simp [line, Line.flush, rx, usbBufSubmit, Line.rxData]

theorem line_sendTpduHeader (e : Emu) (alloc : Alloc) :
    (e.sendTpduHeader alloc).line = e.line.flush.sendHeader alloc := by
  have empty : e.flushRxBuffer.line.rx = none := by rw [line_flushRxBuffer, Line.flush]
  have hdr : e.flushRxBuffer.ch.tpdu = e.line.flush.tpdu := by simp [Line.flush, line]
  cases alloc with
  | none => simp [sendTpduHeader, Line.sendHeader]
  | some tag =>
    simp only [sendTpduHeader, line_flushRxBuffer, line_holdRxMsg, hdr]
    simp [Line.flush, Line.sendHeader, Line.rxData]

theorem line_checkRxBuffer (e : Emu) (msg : RxMsg) :
    (e.checkRxBuffer msg).line =
      if e.line.tpdu.hdr.p3.toNat ≤ msg.data.length then
        { e.line with
          rx := none, tpdu.state := .waitTx
          usb := e.line.usb ++ [e.line.rxData { msg with flags := msg.flags ||| cemuDataFFinal }] }
      else { e.line with rx := some msg } := by
  have p3 : t0NumDataBytes e.ch.tpdu.hdr.p3 true = e.line.tpdu.hdr.p3.toNat := rfl
  rw [checkRxBuffer, p3]
  by_cases full : e.line.tpdu.hdr.p3.toNat ≤ msg.data.length
  · simp [full, Line.flush, Line.rxData]
  · have small : e.line.tpdu.hdr.p3.toNat < 256 := UInt8.toNat_lt _
    have room : msg.tailroom ≠ 0 := by
      simp only [RxMsg.tailroom, usbAllocSize, sizeofMsgHdr, sizeofTxData]
      omega
    simp [full, room]

theorem line_addTpduByte (e : Emu) (byte : UInt8) (alloc : Alloc) :
    (e.addTpduByte byte alloc).line = e.line.addByte byte alloc := by
  have rx : e.ch.uartRxMsg = e.line.rx := rfl
  rw [addTpduByte, Line.addByte, rx]
  cases e.line.rx <|> alloc.map fun tag => { tag := tag } with
  | none => rfl
  | some msg => simp [line_checkRxBuffer]

theorem line_enter (e : Emu) : (e.cardSetState .inTpdu).line = { e.line with state := .inTpdu } := by
  unfold cardSetState
  split
  · rename_i same
    rw [← same]
    rfl
  · rfl

theorem line_leave (e : Emu) (st : e.ch.state ≠ .waitTpdu) :
    (e.cardSetState .waitTpdu).line = { e.line with state := .waitTpdu, tpdu.state := .waitCla } := by
  rw [cardSetState, if_neg st]
  simp only [line_uartEnable, line_setTpduState]
  rfl

theorem line_processByteTpdu (e : Emu) (byte : UInt8) (alloc : Alloc) :
    (e.processByteTpdu byte alloc).1.line = e.line.rxTpdu byte alloc := by
  have ts : e.line.tpdu.state = e.ch.tpdu.state := rfl
  cases st : e.ch.tpdu.state with
  | waitCla | waitIns | waitP1 | waitP2 =>
    simp only [processByteTpdu, Line.rxTpdu, ts, st, line_setTpduState, Tpdu.put, nextTpduState]
    rfl
  | waitP3 =>
    simp only [processByteTpdu, Line.rxTpdu, ts, st, line_sendTpduHeader, line_setTpduState, Tpdu.put,
      nextTpduState]
    rfl
  | waitRx => simp only [processByteTpdu, Line.rxTpdu, ts, st, line_addTpduByte]
  | waitPb | waitTx => simp only [processByteTpdu, Line.rxTpdu, ts, st]

theorem line_rxByte {e : Emu} (byte : UInt8)
    (st : e.ch.state = .inTpdu ∨ e.ch.state = .waitTpdu ∧ byte ≠ 0xff) (alloc : Alloc) :
    (e.cardEmuProcessRxByte byte alloc).line = e.line.rxByte byte alloc := by
  have tpdu : e.cardEmuProcessRxByte byte alloc =
      (e.processByteTpdu byte alloc).1.cardSetState .inTpdu := by
    obtain st | ⟨st, cla⟩ := st
    · simp only [cardEmuProcessRxByte, st, Prod.map, id]
      rfl
    · simp only [cardEmuProcessRxByte, st, if_neg cla, Prod.map, id]
      rfl
  rw [tpdu, line_enter, line_processByteTpdu, Line.rxByte]

theorem line_keep {e : Emu} {ts : TpduState} (st : e.ch.tpdu.state = ts) :
    { e.line with tpdu.state := ts } = e.line := by
  subst st
  rfl

theorem line_afterProcedureByte (e : Emu) (flags : UInt32) :
    (e.afterProcedureByte flags).line =
      { e.line with tpdu.state := Line.afterByte e.line.tpdu.state flags } := by
  have ts : e.line.tpdu.state = e.ch.tpdu.state := rfl
  by_cases st : e.ch.tpdu.state = .waitPb
  · simp only [afterProcedureByte, Line.afterByte, ts, st, if_true]
    split_ifs
    · simp
    · simp
    · exact (line_keep st).symm
  · have other : e.afterProcedureByte flags = e := by
      unfold afterProcedureByte
      split
      · contradiction
      · rfl
    rw [other, Line.afterByte, ts, if_neg st]
    rfl

theorem line_afterMessage {e : Emu} (st : e.ch.state ≠ .waitTpdu) (flags : UInt32) :
    (e.afterMessage flags).line = e.line.afterMessage flags := by
  unfold afterMessage Line.afterMessage
  split_ifs
  · simp
  · exact e.line_leave st
  · rfl

theorem line_txByte {e : Emu} (st : e.ch.state = .inTpdu) :
    e.cardEmuTxByte.1.line = e.line.txByte.1 ∧ e.cardEmuTxByte.2 = e.line.txByte.2 := by
  have taken : e.txMsg = e.line.txMsg := rfl
  simp only [cardEmuTxByte, st, txByteTpdu, Line.txByte, taken]
  cases e.line.txMsg with
  | none => exact ⟨rfl, rfl⟩
  | some next =>
    obtain ⟨msg, queue⟩ := next
    have held : (((e.holdTxMsg msg.msgbPullU8.2 queue).uartTx msg.msgbPullU8.1).uartResetWt).line =
        { e.line with
          tx := some msg.msgbPullU8.2, queue, sent := e.line.sent ++ [msg.msgbPullU8.1] } := rfl
    have inTpdu : ((((e.holdTxMsg msg.msgbPullU8.2 queue).uartTx
        msg.msgbPullU8.1).uartResetWt).afterProcedureByte msg.txFlags).ch.state ≠ .waitTpdu := by
      change (Emu.line _).state ≠ _
      rw [line_afterProcedureByte, held]
      simp [line, st]
    simp only [Line.sendByte]
    split
    · refine ⟨?_, rfl⟩
      have dropped (e : Emu) : e.dropTxMsg.line = { e.line with tx := none } := rfl
      rw [dropped, line_usbBufFree, line_afterMessage inTpdu, line_afterProcedureByte, held]
      unfold Line.afterMessage
      split_ifs <;> rfl
    · refine ⟨?_, rfl⟩
      rw [line_afterProcedureByte, held]

theorem line_haveNewUartTx (e : Emu) : e.cardEmuHaveNewUartTx.line = e.line := by
  unfold cardEmuHaveNewUartTx
  split <;> rfl

theorem line_halfExpired {e : Emu} (st : e.ch.state = .inTpdu) :
    e.cardEmuWtimeHalfExpired.line = e.line.halfExpired := by
  have ts : e.line.tpdu.state = e.ch.tpdu.state := rfl
  unfold cardEmuWtimeHalfExpired Line.halfExpired
  rw [ts, st]
  cases e.ch.tpdu.state <;> rfl

end Emu

theorem line_dispatchTxData {e : Emu} (ready : e.ch.state.ready = true) (msg : Msgb) :
    (CardemInst.dispatchTxData e msg).line = e.line.enqueue msg := by
  rw [CardemInst.dispatchTxData, cardEmuChReady, ready]
  exact Emu.line_haveNewUartTx _

end Simtrace2
