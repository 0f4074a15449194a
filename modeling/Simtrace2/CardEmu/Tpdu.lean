import Simtrace2.CardEmu.States

/-! TPDU handling: bytes from the reader into RX_DATA messages, bytes of
TX_DATA messages to the reader. -/
namespace Simtrace2
open Lib

def t0NumDataBytes (p3 : UInt8) (readerToCard : Bool) : Nat :=
  if readerToCard then p3.toNat else if p3 = 0 then 256 else p3.toNat

def RxMsg.tailroom (m : RxMsg) : Nat := usbAllocSize - (sizeofMsgHdr + sizeofTxData + m.data.length)

def nextTpduState : TpduState → TpduState
  | .waitCla => .waitIns
  | .waitIns => .waitP1
  | .waitP1 => .waitP2
  | .waitP2 => .waitP3
  | .waitP3 => .waitPb
  | .waitPb => .waitPb
  | .waitRx => .waitRx
  | .waitTx => .waitTx

namespace Msgb

def txFlags (m : Msgb) : UInt32 := UInt32.ofNat (leValue (readAt m.mem m.l2h 4))

/-- A message taken from `uart_tx_queue`: layers set again, both headers pulled. -/
def dequeued (m : Msgb) : Msgb :=
  { m with l1h := 0, l2h := sizeofMsgHdr }.msgbPull (sizeofMsgHdr + sizeofTxData)

end Msgb

namespace Emu

def flushRxBuffer (e : Emu) : Emu :=
  match e.ch.uartRxMsg with
  | none => e
  | some msg =>
    { e with ch.uartRxMsg := none }.usbBufSubmit
      ⟨msg.tag, e.ch.inEp, .rxData msg.flags msg.data.length msg.data⟩

def holdRxMsg (e : Emu) (msg : RxMsg) : Emu := { e with ch.uartRxMsg := some msg }

def checkRxBuffer (e : Emu) (msg : RxMsg) : Emu :=
  if t0NumDataBytes e.ch.tpdu.hdr.p3 true ≤ msg.data.length then
    ((e.holdRxMsg { msg with flags := msg.flags ||| cemuDataFFinal }).flushRxBuffer).setTpduState
      .waitTx
  else if msg.tailroom = 0 then (e.holdRxMsg msg).flushRxBuffer
  else e.holdRxMsg msg

def addTpduByte (e : Emu) (byte : UInt8) (alloc : Alloc) : Emu :=
  match e.ch.uartRxMsg <|> alloc.map fun tag => { tag := tag } with
  | none => e
  | some msg => e.checkRxBuffer { msg with data := msg.data ++ [byte] }

/-- `send_tpdu_header`. A message still under construction is sent first: it has
at least its `rx_data` header, so that its layer two is not empty. -/
def sendTpduHeader (e : Emu) (alloc : Alloc) : Emu :=
  let e := e.flushRxBuffer
  match alloc with
  | none => e
  | some tag =>
    (e.holdRxMsg ⟨tag, cemuDataFTpduHdr, e.ch.tpdu.hdr.bytes⟩).flushRxBuffer

def processByteTpdu (e : Emu) (byte : UInt8) (alloc : Alloc) : Emu × CardState :=
  let next := nextTpduState e.ch.tpdu.state
  let e := match e.ch.tpdu.state with
    | .waitCla => { e with ch.tpdu.hdr.cla := byte }.setTpduState next
    | .waitIns => { e with ch.tpdu.hdr.ins := byte }.setTpduState next
    | .waitP1 => { e with ch.tpdu.hdr.p1 := byte }.setTpduState next
    | .waitP2 => { e with ch.tpdu.hdr.p2 := byte }.setTpduState next
    | .waitP3 => ({ e with ch.tpdu.hdr.p3 := byte }.setTpduState next).sendTpduHeader alloc
    | .waitRx => e.addTpduByte byte alloc
    | _ => e
  (e, .inTpdu)

def txMsg (e : Emu) : Option (Msgb × List Msgb) :=
  match e.ch.uartTxMsg, e.ch.uartTxQueue with
  | some msg, queue => some (msg, queue)
  | none, msg :: queue => some (msg.dequeued, queue)
  | none, [] => none

/-- What the procedure byte decides: go on transmitting, or receive. -/
def afterProcedureByte (e : Emu) (flags : UInt32) : Emu :=
  match e.ch.tpdu.state with
  | .waitPb =>
    if hasFlag flags cemuDataFPbAndTx then e.setTpduState .waitTx
    else if hasFlag flags cemuDataFPbAndRx then e.setTpduState .waitRx
    else e
  | _ => e

/-- What the end of a message decides: receive, or the end of the TPDU. -/
def afterMessage (e : Emu) (flags : UInt32) : Emu :=
  if hasFlag flags cemuDataFPbAndRx then e.setTpduState .waitRx
  else if hasFlag flags cemuDataFFinal then e.cardSetState .waitTpdu
  else e

def holdTxMsg (e : Emu) (msg : Msgb) (queue : List Msgb) : Emu :=
  { e with ch.uartTxMsg := some msg, ch.uartTxQueue := queue }

def dropTxMsg (e : Emu) : Emu := { e with ch.uartTxMsg := none }

def txByteTpdu (e : Emu) : Emu × Bool :=
  match e.txMsg with
  | none => (e, false)
  | some (msg, queue) =>
    let flags := msg.txFlags
    let (byte, msg) := msg.msgbPullU8
    let e := (((e.holdTxMsg msg queue).uartTx byte).uartResetWt).afterProcedureByte flags
    if msg.len = 0 then (((e.afterMessage flags).usbBufFree msg.tag).dropTxMsg, true)
    else (e, true)

/-! What each of these can do to the handle. -/

@[simp] theorem flushRxBuffer_ch (e : Emu) :
    e.flushRxBuffer.ch = { e.ch with uartRxMsg := none } := by
  unfold flushRxBuffer
  cases rx : e.ch.uartRxMsg with
  | none => simp [← rx]
  | some msg => rfl

theorem checkRxBuffer_ch (e : Emu) (msg : RxMsg) :
    ∃ rx ts, (e.checkRxBuffer msg).ch = { e.ch with uartRxMsg := rx, tpdu.state := ts } ∧
      (ts = e.ch.tpdu.state ∨ ts = .waitTx) := by
  by_cases full : t0NumDataBytes e.ch.tpdu.hdr.p3 true ≤ msg.data.length
  · exact ⟨none, .waitTx, by simp [checkRxBuffer, full, setTpduState_ch, holdRxMsg], .inr rfl⟩
  · by_cases room : msg.tailroom = 0
    · exact ⟨none, _, by simp [checkRxBuffer, full, room, holdRxMsg], .inl rfl⟩
    · exact ⟨some msg, _, by simp [checkRxBuffer, full, room, holdRxMsg], .inl rfl⟩

theorem addTpduByte_ch (e : Emu) (byte : UInt8) (alloc : Alloc) :
    ∃ rx ts, (e.addTpduByte byte alloc).ch = { e.ch with uartRxMsg := rx, tpdu.state := ts } ∧
      (ts = e.ch.tpdu.state ∨ ts = .waitTx) := by
  unfold addTpduByte
  split
  · exact ⟨_, _, rfl, .inl rfl⟩
  · exact e.checkRxBuffer_ch _

@[simp] theorem sendTpduHeader_ch (e : Emu) (alloc : Alloc) :
    (e.sendTpduHeader alloc).ch = { e.ch with uartRxMsg := none } := by
  cases alloc <;> simp [sendTpduHeader, holdRxMsg]

theorem processByteTpdu_ch (e : Emu) (byte : UInt8) (alloc : Alloc) :
    (e.processByteTpdu byte alloc).1.ch =
      { e.ch with tpdu := (e.processByteTpdu byte alloc).1.ch.tpdu,
                  uartRxMsg := (e.processByteTpdu byte alloc).1.ch.uartRxMsg } := by
  cases st : e.ch.tpdu.state with
  | waitRx =>
    obtain ⟨rx, ts, same, _⟩ := e.addTpduByte_ch byte alloc
    simp only [processByteTpdu, st, same]
  | waitPb | waitTx => simp only [processByteTpdu, st]
  | waitP3 => simp only [processByteTpdu, st, sendTpduHeader_ch, setTpduState_ch]
  | waitCla | waitIns | waitP1 | waitP2 => simp only [processByteTpdu, st, setTpduState_ch]

theorem processByteTpdu_busy (e : Emu) (byte : UInt8) (alloc : Alloc) :
    (e.processByteTpdu byte alloc).1.ch.tpdu.state ≠ .waitCla := by
  cases st : e.ch.tpdu.state with
  | waitRx =>
    obtain ⟨rx, ts, same, next⟩ := e.addTpduByte_ch byte alloc
    rcases next with next | next <;> simp [processByteTpdu, st, same, next]
  | waitPb | waitTx => simp [processByteTpdu, st]
  | waitP3 => simp [processByteTpdu, st, setTpduState_ch, nextTpduState]
  | waitCla | waitIns | waitP1 | waitP2 =>
    simp [processByteTpdu, st, setTpduState_ch, nextTpduState]

theorem afterProcedureByte_cases (e : Emu) (flags : UInt32) :
    e.afterProcedureByte flags = e.setTpduState .waitTx ∨
      e.afterProcedureByte flags = e.setTpduState .waitRx ∨ e.afterProcedureByte flags = e := by
  unfold afterProcedureByte
  split
  · split
    · exact .inl rfl
    · split
      · exact .inr (.inl rfl)
      · exact .inr (.inr rfl)
  · exact .inr (.inr rfl)

theorem afterMessage_cases (e : Emu) (flags : UInt32) :
    e.afterMessage flags = e.setTpduState .waitRx ∨
      e.afterMessage flags = e.cardSetState .waitTpdu ∨ e.afterMessage flags = e := by
  unfold afterMessage
  split
  · exact .inl rfl
  · split
    · exact .inr (.inl rfl)
    · exact .inr (.inr rfl)

/-- The card has sent the next byte of this message, and gone by it where it is the procedure byte. -/
def saidByte (e : Emu) (msg : Msgb) (queue : List Msgb) : Emu :=
  ((e.holdTxMsg msg.msgbPullU8.2 queue).uartTx msg.msgbPullU8.1).afterProcedureByte msg.txFlags

theorem txByteTpdu_cases (e : Emu) :
    e.txMsg = none ∧ e.txByteTpdu = (e, false) ∨
    ∃ msg queue, e.txMsg = some (msg, queue) ∧
      (msg.msgbPullU8.2.len = 0 ∧ e.txByteTpdu =
          ((((e.saidByte msg queue).afterMessage msg.txFlags).usbBufFree msg.tag).dropTxMsg, true) ∨
        msg.msgbPullU8.2.len ≠ 0 ∧ e.txByteTpdu = (e.saidByte msg queue, true)) := by
  cases next : e.txMsg with
  | none => exact .inl ⟨rfl, by rw [txByteTpdu, next]⟩
  | some first =>
    obtain ⟨msg, queue⟩ := first
    refine .inr ⟨msg, queue, rfl, ?_⟩
    by_cases last : msg.msgbPullU8.2.len = 0
    · refine .inl ⟨last, ?_⟩
      rw [txByteTpdu, next]
      exact if_pos last
    · refine .inr ⟨last, ?_⟩
      rw [txByteTpdu, next]
      exact if_neg last

end Emu
end Simtrace2
