import Simtrace2.Firmware.System

/-! The buffers that a card knows of: those it holds, those it has freed and those it has
submitted. No call makes or loses one, except that it may take the one it asked for. -/
namespace Simtrace2
open Lib

namespace Emu

def held (e : Emu) : List Nat :=
  (e.ch.uartRxMsg.map RxMsg.tag).toList ++ (e.ch.uartTxMsg.map Msgb.tag).toList
    ++ e.ch.uartTxQueue.map Msgb.tag

/-- How often the card knows of a buffer. -/
def stock (e : Emu) (x : Nat) : Nat :=
  e.held.count x + e.freed.count x + (e.usb.map UsbMsg.tag).count x

/-- The card holds, has freed and has submitted the same buffers. -/
structure SameBuffers (e e' : Emu) : Prop where
  rx : e'.ch.uartRxMsg = e.ch.uartRxMsg
  tx : e'.ch.uartTxMsg = e.ch.uartTxMsg
  queue : e'.ch.uartTxQueue = e.ch.uartTxQueue
  usb : e'.usb = e.usb
  freed : e'.freed = e.freed

namespace SameBuffers
variable {e e' e'' : Emu}

theorem refl (e : Emu) : SameBuffers e e := ⟨rfl, rfl, rfl, rfl, rfl⟩

theorem trans (h : SameBuffers e e') (h' : SameBuffers e' e'') : SameBuffers e e'' :=
  ⟨h'.rx.trans h.rx, h'.tx.trans h.tx, h'.queue.trans h.queue, h'.usb.trans h.usb,
    h'.freed.trans h.freed⟩

theorem stock (h : SameBuffers e e') (x : Nat) : e'.stock x = e.stock x := by
  simp only [Emu.stock, held, h.rx, h.tx, h.queue, h.usb, h.freed]

theorem setTpduState (e : Emu) (ts : TpduState) : SameBuffers e (e.setTpduState ts) := by
  unfold Emu.setTpduState
  split
  · exact refl e
  · cases ts <;> exact ⟨rfl, rfl, rfl, rfl, rfl⟩

theorem setTpdu (e : Emu) (tpdu : Tpdu) (ts : TpduState) :
    SameBuffers e ({ e with ch.tpdu := tpdu }.setTpduState ts) := by
  obtain ⟨rx, tx, queue, usb, freed⟩ := setTpduState { e with ch.tpdu := tpdu } ts
  exact ⟨rx, tx, queue, usb, freed⟩

theorem emuUpdateFidi (e : Emu) : SameBuffers e e.emuUpdateFidi := by
  unfold Emu.emuUpdateFidi
  split
  · split <;> exact ⟨rfl, rfl, rfl, rfl, rfl⟩
  · exact refl e

theorem cardSetState (e : Emu) (st : CardState) : SameBuffers e (e.cardSetState st) := by
  unfold Emu.cardSetState
  split
  · exact refl e
  · cases st with
    | waitTpdu =>
      obtain ⟨rx, tx, queue, usb, freed⟩ := setTpduState { e with ch.state := .waitTpdu } .waitCla
      exact ⟨rx, tx, queue, usb, freed⟩
    | waitAtr =>
      obtain ⟨rx, tx, queue, usb, freed⟩ := emuUpdateFidi { e with
        ch.state := .waitAtr, ch.fiIndex := 1, ch.fIndex := 1, ch.diIndex := 1, ch.dIndex := 1
        ch.wi := iso78163DefaultWi, ch.waitingTime := iso78163InitWtime }
      exact ⟨rx, tx, queue, usb, freed⟩
    | _ => exact ⟨rfl, rfl, rfl, rfl, rfl⟩

theorem finishPts (e : Emu) : SameBuffers e e.finishPts := by
  obtain ⟨rx, tx, queue, usb, freed⟩ := (emuUpdateFidi e).trans
    ((⟨rfl, rfl, rfl, rfl, rfl⟩ : SameBuffers e.emuUpdateFidi e.emuUpdateFidi.emuUpdateWt).trans
      (cardSetState e.emuUpdateFidi.emuUpdateWt .waitTpdu))
  exact ⟨rx, tx, queue, usb, freed⟩

theorem takePts1 (e : Emu) (byte : UInt8) : SameBuffers e (e.takePts1 byte) := by
  unfold Emu.takePts1
  split
  · exact ⟨rfl, rfl, rfl, rfl, rfl⟩
  · exact refl e

theorem txBytePts (e : Emu) : SameBuffers e e.txBytePts.1 := by
  simp only [Emu.txBytePts]
  have said (byte : UInt8) : SameBuffers e ((e.takePts1 byte).uartTx byte) :=
    (takePts1 e byte).trans ⟨rfl, rfl, rfl, rfl, rfl⟩
  split
  · split
    · exact (said _).trans (finishPts _)
    · exact (said _).trans ⟨rfl, rfl, rfl, rfl, rfl⟩
  · exact refl e

theorem txByteAtr (e : Emu) : SameBuffers e e.txByteAtr.1 := by
  unfold Emu.txByteAtr
  split
  · exact refl e
  · split
    · exact ⟨rfl, rfl, rfl, rfl, rfl⟩
    · obtain ⟨rx, tx, queue, usb, freed⟩ :=
        cardSetState ({ e with ch.wi := e.ch.atr.searchWi }).emuUpdateWt .waitTpdu
      exact ⟨rx, tx, queue, usb, freed⟩

theorem wtimeExpired (e : Emu) : SameBuffers e e.cardEmuWtimeExpired := by
  unfold cardEmuWtimeExpired
  split
  · exact cardSetState e .inAtr
  · exact refl e

theorem wtimeHalfExpired (e : Emu) : SameBuffers e e.cardEmuWtimeHalfExpired := by
  unfold cardEmuWtimeHalfExpired
  split <;> exact ⟨rfl, rfl, rfl, rfl, rfl⟩

theorem haveNewUartTx (e : Emu) : SameBuffers e e.cardEmuHaveNewUartTx := by
  unfold cardEmuHaveNewUartTx
  split <;> exact ⟨rfl, rfl, rfl, rfl, rfl⟩

theorem setAtr (e : Emu) (atr : List UInt8) : SameBuffers e (e.cardEmuSetAtr atr) := by
  unfold cardEmuSetAtr
  split
  · exact refl e
  · exact ⟨rfl, rfl, rfl, rfl, rfl⟩

end SameBuffers
theorem stock_cardHandleReset (e : Emu) (x : Nat) : e.cardHandleReset.stock x = e.stock x := by
  unfold cardHandleReset
  cases tx : e.ch.uartTxMsg <;> cases rx : e.ch.uartRxMsg <;>
    simp [stock, held, usbBufFree, uartUpdateWt, tx, rx, List.count_append, List.count_cons] <;> omega

theorem stock_flushRxBuffer (e : Emu) (x : Nat) : e.flushRxBuffer.stock x = e.stock x := by
  unfold flushRxBuffer
  cases rx : e.ch.uartRxMsg with
  | none => rfl
  | some msg =>
    simp [stock, held, usbBufSubmit, rx, List.count_append, List.count_cons]
    omega

theorem stock_checkRxBuffer (e : Emu) (msg : RxMsg) (x : Nat) :
    (e.checkRxBuffer msg).stock x = (e.holdRxMsg msg).stock x := by
  unfold checkRxBuffer
  split
  · rw [(SameBuffers.setTpduState _ _).stock, stock_flushRxBuffer]
    rfl
  · split
    · exact stock_flushRxBuffer _ x
    · rfl

theorem stock_addTpduByte (e : Emu) (byte : UInt8) (alloc : Alloc) (x : Nat) :
    (e.addTpduByte byte alloc).stock x =
      e.stock x + if e.ch.uartRxMsg.isNone then alloc.toList.count x else 0 := by
  unfold addTpduByte
  cases rx : e.ch.uartRxMsg with
  | none =>
    cases alloc with
    | none => simp
    | some tag =>
      rw [Option.map_some, Option.orElse_eq_orElse, Option.orElse, stock_checkRxBuffer]
      simp [stock, held, holdRxMsg, rx, List.count_append, List.count_cons]
      omega
  | some msg =>
    rw [Option.orElse_eq_orElse, Option.orElse, stock_checkRxBuffer]
    simp [stock, held, holdRxMsg, rx]

theorem stock_sendTpduHeader (e : Emu) (alloc : Alloc) (x : Nat) :
    (e.sendTpduHeader alloc).stock x = e.stock x + alloc.toList.count x := by
  unfold sendTpduHeader
  cases alloc with
  | none => simp [stock_flushRxBuffer]
  | some tag =>
    rw [stock_flushRxBuffer, ← stock_flushRxBuffer e]
    simp [stock, held, holdRxMsg, List.count_append, List.count_cons]
    omega

theorem stock_processByteTpdu (e : Emu) (byte : UInt8) (alloc : Alloc) (x : Nat) :
    (e.processByteTpdu byte alloc).1.stock x =
      e.stock x + if e.tpduAsks then alloc.toList.count x else 0 := by
  cases st : e.ch.tpdu.state with
  | waitCla | waitIns | waitP1 | waitP2 =>
    have none : e.tpduAsks = false := by simp [tpduAsks, st]
    rw [none, if_neg Bool.false_ne_true, Nat.add_zero]
    apply SameBuffers.stock
    simp only [processByteTpdu, st]
    exact SameBuffers.setTpdu e _ _
  | waitP3 =>
    have asks : e.tpduAsks = true := by simp [tpduAsks, st]
    have same := SameBuffers.setTpdu e ⟨.waitP3, { e.ch.tpdu.hdr with p3 := byte }⟩ .waitPb
    rw [asks, if_pos rfl, ← same.stock]
    simp only [processByteTpdu, st, stock_sendTpduHeader, nextTpduState]
  | waitRx =>
    have asks : e.tpduAsks = e.ch.uartRxMsg.isNone := by simp [tpduAsks, st]
    simp only [processByteTpdu, st, asks, stock_addTpduByte]
  | waitPb | waitTx =>
    have none : e.tpduAsks = false := by simp [tpduAsks, st]
    simp only [processByteTpdu, st, none]
    rfl

theorem stock_flushPts (e : Emu) (alloc : Alloc) (x : Nat) :
    (e.flushPts alloc).stock x = e.stock x + alloc.toList.count x := by
  cases alloc with
  | none => rfl
  | some tag =>
    simp [flushPts, stock, held, usbBufSubmit, List.count_append, List.count_cons]
    omega

theorem stock_processBytePts (e : Emu) (byte : UInt8) (alloc : Alloc) (x : Nat) :
    (e.processBytePts byte alloc).1.stock x =
      e.stock x + if e.ptsAsks byte then alloc.toList.count x else 0 := by
  have same (pts : Pts) : ({ e with ch.pts := pts }).stock x = e.stock x := rfl
  by_cases bad : (e.ch.pts.store byte).state = ⟨false, .pck⟩ ∧
      (e.ch.pts.store byte).req.pck ≠ (e.ch.pts.store byte).req.csumPts
  · have none : e.ptsAsks byte = false := by simp [ptsAsks, bad.1, bad.2]
    rw [none, if_neg Bool.false_ne_true, Nat.add_zero]
    simp only [processBytePts, if_pos bad]
    exact same _
  · simp only [processBytePts, if_neg bad]
    by_cases last : nextPtsState (e.ch.pts.store byte).answer = ⟨true, .ptss⟩
    · have asks : e.ptsAsks byte = true := by
        simp only [ptsAsks, last]
        simpa [imp_iff_not_or] using bad
      have now : ({ e with ch.pts := (e.ch.pts.store byte).answer }.setPtsState
          (nextPtsState (e.ch.pts.store byte).answer)).ch.pts.state = ⟨true, .ptss⟩ := last
      rw [asks, if_pos rfl, if_pos now]
      exact stock_flushPts _ alloc x
    · have none : e.ptsAsks byte = false := by simp [ptsAsks, last]
      have now : ({ e with ch.pts := (e.ch.pts.store byte).answer }.setPtsState
          (nextPtsState (e.ch.pts.store byte).answer)).ch.pts.state ≠ ⟨true, .ptss⟩ := last
      rw [none, if_neg Bool.false_ne_true, Nat.add_zero, if_neg now]
      exact same _

/-- What a received byte does before the card enters a new state. -/
def received (e : Emu) (byte : UInt8) (alloc : Alloc) : Emu × Option CardState :=
  match e.ch.state with
  | .waitTpdu =>
    if byte = 0xff then (e.setPtsState ⟨false, .ptss⟩).processBytePts byte alloc
    else (e.processByteTpdu byte alloc).map id some
  | .inTpdu => (e.processByteTpdu byte alloc).map id some
  | .inPts => e.processBytePts byte alloc
  | _ => (e, none)

theorem SameBuffers.rxByte (e : Emu) (byte : UInt8) (alloc : Alloc) :
    SameBuffers (e.received byte alloc).1 (e.cardEmuProcessRxByte byte alloc) := by
  unfold Emu.cardEmuProcessRxByte Emu.received
  cases e.ch.state with
  | waitTpdu =>
    simp only
    split
    · split
      · exact cardSetState _ _
      · exact refl _
    · exact cardSetState _ .inTpdu
  | inTpdu => exact cardSetState _ .inTpdu
  | inPts =>
    simp only
    split
    · exact cardSetState _ _
    · exact refl _
  | waitPower | waitClk | waitRst | waitAtr | inAtr => exact refl e

theorem stock_rxByte (e : Emu) (byte : UInt8) (alloc : Alloc) (x : Nat) :
    (e.cardEmuProcessRxByte byte alloc).stock x =
      e.stock x + if e.rxAsks byte then alloc.toList.count x else 0 := by
  rw [(SameBuffers.rxByte e byte alloc).stock]
  cases st : e.ch.state with
  | waitTpdu =>
    simp only [received, rxAsks, st]
    split
    · exact stock_processBytePts _ byte alloc x
    · exact stock_processByteTpdu e byte alloc x
  | inTpdu =>
    simp only [received, rxAsks, st]
    exact stock_processByteTpdu e byte alloc x
  | inPts => simpa only [received, rxAsks, st] using stock_processBytePts e byte alloc x
  | waitPower | waitClk | waitRst | waitAtr | inAtr => simp [received, rxAsks, st]

namespace SameBuffers

theorem afterProcedureByte (e : Emu) (flags : UInt32) :
    SameBuffers e (e.afterProcedureByte flags) := by
  unfold Emu.afterProcedureByte
  split
  · split_ifs
    · exact setTpduState e .waitTx
    · exact setTpduState e .waitRx
    · exact refl e
  · exact refl e

theorem afterMessage (e : Emu) (flags : UInt32) : SameBuffers e (e.afterMessage flags) := by
  unfold Emu.afterMessage
  split_ifs
  · exact setTpduState e .waitRx
  · exact cardSetState e .waitTpdu
  · exact refl e

end SameBuffers

theorem stock_holdTxMsg {e : Emu} {msg : Msgb} {queue : List Msgb}
    (next : e.txMsg = some (msg, queue)) (msg' : Msgb) (tag : msg'.tag = msg.tag) (x : Nat) :
    (e.holdTxMsg msg' queue).stock x = e.stock x := by
  unfold txMsg at next
  cases tx : e.ch.uartTxMsg with
  | some held =>
    rw [tx] at next
    obtain ⟨rfl, rfl⟩ := Prod.mk.inj (Option.some.inj next)
    simp [stock, Emu.held, holdTxMsg, tx, tag]
  | none =>
    cases queued : e.ch.uartTxQueue with
    | nil =>
      rw [tx, queued] at next
      cases next
    | cons first rest =>
      rw [tx, queued] at next
      obtain ⟨rfl, rfl⟩ := Prod.mk.inj (Option.some.inj next)
      have same : msg'.tag = first.tag := tag
      simp [stock, Emu.held, holdTxMsg, tx, queued, same]

theorem stock_dropTxMsg {e : Emu} {msg : Msgb} (tx : e.ch.uartTxMsg = some msg) (x : Nat) :
    ((e.usbBufFree msg.tag).dropTxMsg).stock x = e.stock x := by
  simp [stock, held, dropTxMsg, usbBufFree, tx, List.count_append, List.count_cons]
  omega

theorem stock_txByteTpdu (e : Emu) (x : Nat) : e.txByteTpdu.1.stock x = e.stock x := by
  obtain ⟨_, idle⟩ | ⟨msg, queue, next, said⟩ := e.txByteTpdu_cases
  · rw [idle]
  · have byte : SameBuffers ((e.holdTxMsg msg.msgbPullU8.2 queue).uartTx msg.msgbPullU8.1)
        (e.saidByte msg queue) :=
      SameBuffers.afterProcedureByte _ msg.txFlags
    have held := stock_holdTxMsg next msg.msgbPullU8.2 rfl x
    obtain ⟨_, last⟩ | ⟨_, more⟩ := said
    · have ended := byte.trans (SameBuffers.afterMessage (e.saidByte msg queue) msg.txFlags)
      rw [last]
      exact (stock_dropTxMsg ended.tx x).trans ((ended.stock x).trans held)
    · rw [more]
      exact (byte.stock x).trans held

theorem stock_txByte (e : Emu) (x : Nat) : e.cardEmuTxByte.1.stock x = e.stock x := by
  unfold cardEmuTxByte
  cases e.ch.state with
  | inAtr => exact (SameBuffers.txByteAtr e).stock x
  | inPts => exact (SameBuffers.txBytePts e).stock x
  | inTpdu => exact stock_txByteTpdu e x
  | waitPower | waitClk | waitRst | waitAtr | waitTpdu => rfl

theorem stock_usbBufFree (e : Emu) (tag x : Nat) :
    (e.usbBufFree tag).stock x = e.stock x + [tag].count x := by
  simp [stock, held, usbBufFree, List.count_append]
  omega

theorem stock_usbBufSubmit (e : Emu) (msg : UsbMsg) (x : Nat) :
    (e.usbBufSubmit msg).stock x = e.stock x + [msg.tag].count x := by
  simp [stock, held, usbBufSubmit, List.count_append]
  omega

theorem stock_reportStatus (e : Emu) (reportOnIrq : Bool) (alloc : Alloc) (x : Nat) :
    (e.cardEmuReportStatus reportOnIrq alloc).stock x = e.stock x + alloc.toList.count x := by
  cases alloc with
  | none => rfl
  | some tag => exact stock_usbBufSubmit e _ x

theorem stock_reportConfig (e : Emu) (slotMuxNr : UInt8) (presencePol : Bool) (alloc : Alloc) (x : Nat) :
    (e.cardEmuReportConfig slotMuxNr presencePol alloc).stock x = e.stock x + alloc.toList.count x := by
  cases alloc with
  | none => rfl
  | some tag => exact stock_usbBufSubmit e _ x

theorem stock_ioEdge (e : Emu) (io : CardIo) (active : Bool) (x : Nat) :
    (e.ioEdge io active).1.stock x = e.stock x := by
  have reset (st : CardState) : (e.cardHandleReset.cardSetState st).stock x = e.stock x := by
    rw [(SameBuffers.cardSetState _ st).stock, stock_cardHandleReset]
  have set (st : CardState) : (e.cardSetState st).stock x = e.stock x :=
    (SameBuffers.cardSetState e st).stock x
  cases io with
  | vcc =>
    have line (e : Emu) : { e with ch.vccActive := active }.stock x = e.stock x := rfl
    simp only [ioEdge]
    rw [line]
    split_ifs
    · exact reset .waitPower
    · exact set .waitClk
    · rfl
  | clk =>
    have line (e : Emu) : { e with ch.clocked := active }.stock x = e.stock x := rfl
    simp only [ioEdge]
    rw [line]
    split_ifs
    · exact set .waitRst
    · rfl
  | rst =>
    have line (e : Emu) : { e with ch.inReset := active }.stock x = e.stock x := rfl
    simp only [ioEdge]
    rw [line]
    split_ifs
    · exact set .waitAtr
    · rfl
    · exact reset .waitRst
    · rfl

theorem SameBuffers.endActivation (e : Emu) : SameBuffers e e.endActivation := by
  unfold Emu.endActivation
  split
  case h_4 => exact refl e
  all_goals
    split
    · exact cardSetState e .waitAtr
    · exact refl e

/-- The card after the edge, before it is reported. -/
theorem ioStatechg_eq (e : Emu) (io : CardIo) (active : Bool) (alloc : Alloc) :
    e.cardEmuIoStatechg io active alloc =
      if e.ioAsks io active then (e.ioEdge io active).1.endActivation.cardEmuReportStatus true alloc
      else (e.ioEdge io active).1.endActivation := by
  simp only [cardEmuIoStatechg, ioAsks, ((e.ioEdge io active).1.endActivation_config).1,
    (e.ioEdge_config io active).1]
  rfl

theorem stock_ioStatechg (e : Emu) (io : CardIo) (active : Bool) (alloc : Alloc) (x : Nat) :
    (e.cardEmuIoStatechg io active alloc).stock x =
      e.stock x + if e.ioAsks io active then alloc.toList.count x else 0 := by
  have edge : (e.ioEdge io active).1.endActivation.stock x = e.stock x := by
    rw [(SameBuffers.endActivation _).stock, stock_ioEdge]
  rw [ioStatechg_eq]
  split
  · rw [stock_reportStatus, edge]
  · exact edge

/-- What the first has submitted and freed, the second has submitted and freed first. -/
structure Precedes (e e' : Emu) : Prop where
  usb : e.usb <+: e'.usb
  freed : e.freed <+: e'.freed

namespace Precedes
variable {e e' e'' : Emu}

theorem trans (h : Precedes e e') (h' : Precedes e' e'') : Precedes e e'' :=
  ⟨h.usb.trans h'.usb, h.freed.trans h'.freed⟩

theorem of_same (h : SameBuffers e e') : Precedes e e' :=
  ⟨h.usb ▸ List.prefix_refl _, h.freed ▸ List.prefix_refl _⟩

theorem of_same' (h : SameBuffers e e') : Precedes e' e :=
  ⟨h.usb ▸ List.prefix_refl _, h.freed ▸ List.prefix_refl _⟩

theorem refl (e : Emu) : Precedes e e := of_same (.refl e)

theorem flushRxBuffer (e : Emu) : Precedes e e.flushRxBuffer := by
  unfold Emu.flushRxBuffer
  split
  · exact refl e
  · exact ⟨List.prefix_append _ _, List.prefix_refl _⟩

theorem checkRxBuffer (e : Emu) (msg : RxMsg) : Precedes e (e.checkRxBuffer msg) := by
  have held (msg : RxMsg) : Precedes e (e.holdRxMsg msg) := ⟨List.prefix_refl _, List.prefix_refl _⟩
  unfold Emu.checkRxBuffer
  split
  · exact ((held _).trans (flushRxBuffer _)).trans (of_same (.setTpduState _ _))
  · split
    · exact (held msg).trans (flushRxBuffer _)
    · exact held msg

theorem addTpduByte (e : Emu) (byte : UInt8) (alloc : Alloc) :
    Precedes (e.addTpduByte byte none) (e.addTpduByte byte alloc) := by
  unfold Emu.addTpduByte
  cases rx : e.ch.uartRxMsg with
  | none =>
    cases alloc with
    | none => exact refl e
    | some tag => exact checkRxBuffer e _
  | some msg => exact refl _

theorem sendTpduHeader (e : Emu) (alloc : Alloc) :
    Precedes (e.sendTpduHeader none) (e.sendTpduHeader alloc) := by
  have held (e : Emu) (msg : RxMsg) : Precedes e (e.holdRxMsg msg) :=
    ⟨List.prefix_refl _, List.prefix_refl _⟩
  cases alloc with
  | none => exact refl _
  | some tag => exact (held _ _).trans (flushRxBuffer _)

theorem processByteTpdu (e : Emu) (byte : UInt8) (alloc : Alloc) :
    Precedes (e.processByteTpdu byte none).1 (e.processByteTpdu byte alloc).1 := by
  cases st : e.ch.tpdu.state with
  | waitCla | waitIns | waitP1 | waitP2 | waitPb | waitTx =>
    simp only [Emu.processByteTpdu, st]
    exact refl _
  | waitP3 =>
    simp only [Emu.processByteTpdu, st]
    exact sendTpduHeader _ alloc
  | waitRx =>
    simp only [Emu.processByteTpdu, st]
    exact addTpduByte e byte alloc

theorem processBytePts (e : Emu) (byte : UInt8) (alloc : Alloc) :
    Precedes (e.processBytePts byte none).1 (e.processBytePts byte alloc).1 := by
  simp only [Emu.processBytePts]
  split
  · exact refl _
  · split
    · cases alloc with
      | none => exact refl _
      | some tag => exact ⟨List.prefix_append _ _, List.prefix_refl _⟩
    · exact refl _

/-- A received byte makes the card give away without a buffer what it gives away with one. -/
theorem rxByte (e : Emu) (byte : UInt8) (alloc : Alloc) :
    Precedes (e.cardEmuProcessRxByte byte none) (e.cardEmuProcessRxByte byte alloc) := by
  refine (of_same' (.rxByte e byte none)).trans (Precedes.trans ?_ (of_same (.rxByte e byte alloc)))
  cases st : e.ch.state with
  | waitTpdu =>
    simp only [received, st]
    split
    · exact processBytePts _ byte alloc
    · exact processByteTpdu e byte alloc
  | inTpdu =>
    simp only [received, st]
    exact processByteTpdu e byte alloc
  | inPts =>
    simp only [received, st]
    exact processBytePts e byte alloc
  | waitPower | waitClk | waitRst | waitAtr | inAtr =>
    simp only [received, st]
    exact refl e

theorem ioStatechg (e : Emu) (io : CardIo) (active : Bool) (alloc : Alloc) :
    Precedes (e.cardEmuIoStatechg io active none) (e.cardEmuIoStatechg io active alloc) := by
  rw [ioStatechg_eq, ioStatechg_eq]
  split
  · cases alloc with
    | none => exact refl _
    | some tag => exact ⟨List.prefix_append _ _, List.prefix_refl _⟩
  · exact refl _

end Precedes

end Emu

/-! What a command does with its own buffer, and with one for the report. -/

namespace CardemInst

theorem stock_irqTx (ci : CardemInst) (x : Nat) : ci.usartIrqTx.emu.stock x = ci.emu.stock x := by
  unfold usartIrqTx
  split
  · simp only
    split
    · exact ci.emu.stock_txByte x
    · exact ci.emu.stock_txByte x
  · rfl

theorem stock_dispatchTxData (e : Emu) (msg : Msgb) (x : Nat) :
    (dispatchTxData e msg).stock x = e.stock x + [msg.tag].count x := by
  unfold dispatchTxData
  split
  · exact e.stock_usbBufFree msg.tag x
  · rw [(Emu.SameBuffers.haveNewUartTx _).stock]
    simp [Emu.stock, Emu.held, List.count_append]
    omega

theorem stock_setConfig (ci : CardemInst) (scfg : Nat → UInt8) (scfgLen : Nat) (alloc : Alloc)
    (x : Nat) :
    (ci.cardEmuSetConfig scfg scfgLen alloc).emu.stock x = ci.emu.stock x + alloc.toList.count x := by
  obtain ⟨features, slotMuxNr, presencePol, set⟩ := ci.cardEmuSetConfig_emu scfg scfgLen alloc
  rw [set, Emu.stock_reportConfig]
  rfl

/-- The report of a command of the card class. -/
def reports (msg : Msgb) : Bool := msgType msg == msgtBdCemuStatus || msgType msg == msgtBdCemuConfig

theorem stock_dispatch (ci : CardemInst) (msg : Msgb) (report : Alloc) (x : Nat) :
    (ci.dispatchUsbCommandCardem msg report).emu.stock x =
      ci.emu.stock x + [msg.tag].count x + if reports msg then report.toList.count x else 0 := by
  simp only [dispatchUsbCommandCardem]
  by_cases status : msgType msg = msgtBdCemuStatus
  · have asks : reports msg = true := by simp [reports, status]
    rw [asks, if_pos rfl, status, if_neg (by decide), if_neg (by decide), if_neg (by decide),
      if_pos rfl,
      Emu.stock_usbBufFree, Emu.stock_reportStatus]
    omega
  · by_cases config : msgType msg = msgtBdCemuConfig
    · have asks : reports msg = true := by simp [reports, config]
      rw [asks, if_pos rfl, config, if_neg (by decide), if_neg (by decide), if_neg (by decide),
        if_neg (by decide), if_pos rfl, Emu.stock_usbBufFree, stock_setConfig]
      omega
    · have quiet : reports msg = false := by simp [reports, status, config]
      rw [quiet, if_neg Bool.false_ne_true, if_neg status, if_neg config]
      refine Eq.trans ?_ (Nat.add_zero _).symm
      split_ifs
      · exact stock_dispatchTxData ci.emu msg x
      · rw [Emu.stock_usbBufFree, (Emu.SameBuffers.setAtr _ _).stock]
      · rw [Emu.stock_usbBufFree, processCardInsert_emu]
      · exact ci.emu.stock_usbBufFree msg.tag x

end CardemInst

namespace Device

theorem emu_modemReset (d : Device) (msg : Msgb) : (d.usbCommandModemReset msg).1.emu = d.emu := by
  unfold usbCommandModemReset modemReset
  split_ifs <;> rfl

theorem emu_simSelect (d : Device) (msg : Msgb) : (d.usbCommandSimSelect msg).1.emu = d.emu := by
  unfold usbCommandSimSelect
  split_ifs <;> rfl

theorem stock_free (d : Device) (tag x : Nat) :
    (d.usbBufFree tag).emu.stock x = d.emu.stock x + [tag].count x :=
  d.slot.inst.emu.stock_usbBufFree tag x

theorem stock_dispatch (d : Device) (msg : Msgb) (report : Alloc) (x : Nat) :
    (d.dispatchUsbCommand msg report).emu.stock x =
      d.emu.stock x + [msg.tag].count x + if dispatchAsks msg then report.toList.count x else 0 := by
  have free (d : Device) := d.stock_free msg.tag x
  unfold dispatchUsbCommand
  by_cases short : msg.len < sizeofMsgHdr
  · have quiet : dispatchAsks msg = false := by simp [dispatchAsks, short]
    rw [if_pos short, quiet, if_neg Bool.false_ne_true, Nat.add_zero]
    exact free d
  · rw [if_neg short]
    by_cases cardem : msg.mem msg.l1h = simtraceMsgcCardem
    · have asks : dispatchAsks msg = CardemInst.reports msg := by
        simp [dispatchAsks, CardemInst.reports, cardem, Nat.not_lt.mp short]
      simp only
      rw [cardem, if_neg (by decide), if_pos rfl, asks]
      exact CardemInst.stock_dispatch d.slot.inst { msg with l2h := msg.l1h + sizeofMsgHdr } report x
    · have quiet : dispatchAsks msg = false := by simp [dispatchAsks, cardem]
      simp only
      rw [quiet, if_neg Bool.false_ne_true, Nat.add_zero, if_neg cardem]
      split_ifs
      · exact free d
      · refine (free _).trans ?_
        split_ifs
        · rw [emu_modemReset]
        · rw [emu_simSelect]
        · rfl
      · exact free d

end Device

end Simtrace2
