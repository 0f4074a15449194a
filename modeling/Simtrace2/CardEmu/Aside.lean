import Simtrace2.CardEmu.Activation

/-! Steps of the card aside of a TPDU: edges, timeouts, the ATR and the PTS exchange.
They report nothing of a TPDU, and the buffers of one they release or leave alone. -/
namespace Simtrace2

def UsbMsg.isRxData (m : UsbMsg) : Bool :=
  match m.payload with
  | .rxData .. => true
  | _ => false

/-- The messages by which the host hears of a TPDU. -/
def Emu.reports (e : Emu) : List UsbMsg := e.usb.filter UsbMsg.isRxData

structure Aside (e e' : Emu) : Prop where
  rx : e'.ch.uartRxMsg = e.ch.uartRxMsg
  tx : e'.ch.uartTxMsg = e.ch.uartTxMsg
  queue : e'.ch.uartTxQueue = e.ch.uartTxQueue
  reports : e'.reports = e.reports

namespace Aside
open Emu

theorem refl (e : Emu) : Aside e e := ⟨rfl, rfl, rfl, rfl⟩

theorem trans {e e' e'' : Emu} (h : Aside e e') (h' : Aside e' e'') : Aside e e'' :=
  ⟨h'.rx.trans h.rx, h'.tx.trans h.tx, h'.queue.trans h.queue, h'.reports.trans h.reports⟩

theorem updateFidi (e : Emu) : Aside e e.emuUpdateFidi := by
  unfold emuUpdateFidi
  split
  · split <;> exact ⟨rfl, rfl, rfl, rfl⟩
  · exact refl e

theorem setTpduState (e : Emu) (ts : TpduState) : Aside e (e.setTpduState ts) := by
  unfold Emu.setTpduState
  split
  · exact refl e
  · cases ts <;> exact ⟨rfl, rfl, rfl, rfl⟩

theorem setState (e : Emu) (st : CardState) : Aside e (e.cardSetState st) := by
  unfold cardSetState
  split
  · exact refl e
  · have moved : Aside e { e with ch.state := st } := ⟨rfl, rfl, rfl, rfl⟩
    cases st with
    | waitTpdu => exact (moved.trans (setTpduState _ _)).trans ⟨rfl, rfl, rfl, rfl⟩
    | waitAtr =>
      have defaults : Aside e { e with
          ch.state := .waitAtr, ch.fiIndex := 1, ch.fIndex := 1, ch.diIndex := 1, ch.dIndex := 1
          ch.wi := iso78163DefaultWi, ch.waitingTime := iso78163InitWtime } := ⟨rfl, rfl, rfl, rfl⟩
      exact (defaults.trans (updateFidi _)).trans ⟨rfl, rfl, rfl, rfl⟩
    | waitPower | waitClk | waitRst | inAtr | inPts | inTpdu => exact ⟨rfl, rfl, rfl, rfl⟩

theorem reportStatus (e : Emu) (irq : Bool) (alloc : Alloc) :
    Aside e (e.cardEmuReportStatus irq alloc) := by
  cases alloc with
  | none => exact refl e
  | some tag =>
    exact ⟨rfl, rfl, rfl, by
      simp [cardEmuReportStatus, Emu.reports, usbBufSubmit, UsbMsg.isRxData]⟩

theorem flushPts (e : Emu) (alloc : Alloc) : Aside e (e.flushPts alloc) := by
  cases alloc with
  | none => exact refl e
  | some tag =>
    exact ⟨rfl, rfl, rfl, by simp [Emu.flushPts, Emu.reports, usbBufSubmit, UsbMsg.isRxData]⟩

theorem processBytePts (e : Emu) (byte : UInt8) (alloc : Alloc) :
    Aside e (e.processBytePts byte alloc).1 := by
  simp only [Emu.processBytePts]
  split
  · exact ⟨rfl, rfl, rfl, rfl⟩
  · split
    · have answered : Aside e ({ e with ch.pts := (e.ch.pts.store byte).answer }.setPtsState
          (nextPtsState (e.ch.pts.store byte).answer)) := ⟨rfl, rfl, rfl, rfl⟩
      exact (answered.trans (flushPts _ alloc)).trans ⟨rfl, rfl, rfl, rfl⟩
    · exact ⟨rfl, rfl, rfl, rfl⟩

theorem finishPts (e : Emu) : Aside e e.finishPts := by
  have effective : Aside e (e.uartWaitTxIdle.emuUpdateFidi).emuUpdateWt :=
    (updateFidi e).trans ⟨rfl, rfl, rfl, rfl⟩
  exact (effective.trans (setState _ .waitTpdu)).trans ⟨rfl, rfl, rfl, rfl⟩

theorem txBytePts (e : Emu) : Aside e e.txBytePts.1 := by
  simp only [Emu.txBytePts]
  split
  · have taken : Aside e ((e.takePts1 (e.ch.pts.resp.get e.ch.pts.state.sstate)).uartTx
        (e.ch.pts.resp.get e.ch.pts.state.sstate)) := by
      unfold takePts1
      split <;> exact ⟨rfl, rfl, rfl, rfl⟩
    split
    · exact taken.trans (finishPts _)
    · exact taken.trans ⟨rfl, rfl, rfl, rfl⟩
  · exact refl e

theorem txByteAtr (e : Emu) : Aside e e.txByteAtr.1 := by
  unfold Emu.txByteAtr
  split
  · exact refl e
  · split
    · exact ⟨rfl, rfl, rfl, rfl⟩
    · have searched : Aside e { e with ch.wi := e.ch.atr.searchWi }.emuUpdateWt := ⟨rfl, rfl, rfl, rfl⟩
      exact searched.trans (setState _ .waitTpdu)

theorem wtimeExpired (e : Emu) : Aside e e.cardEmuWtimeExpired := by
  unfold cardEmuWtimeExpired
  split
  · exact setState e .inAtr
  · exact refl e

theorem wtimeHalfExpired (e : Emu) : Aside e e.cardEmuWtimeHalfExpired := by
  unfold cardEmuWtimeHalfExpired
  split <;> exact ⟨rfl, rfl, rfl, rfl⟩

end Aside

namespace Emu

theorem afterPts_aside {e : Emu} (ready : e.ch.state = .inPts ∨ e.ch.state = .waitTpdu)
    (byte : UInt8) (alloc : Alloc) :
    Aside e (e.afterPtsByte byte alloc) ∧
      (e.afterPtsByte byte alloc).ch.state ∈ [CardState.inPts, .waitTpdu] := by
  unfold afterPtsByte
  have same : (e.processBytePts byte alloc).1.ch.state = e.ch.state := by rw [processBytePts_ch]
  have frame : Aside e (e.processBytePts byte alloc).1 := Aside.processBytePts e byte alloc
  obtain next | next | next := processBytePts_state e byte alloc
  · simp only [next, same]
    exact ⟨frame, by obtain st | st := ready <;> simp [st]⟩
  · simp only [next]
    exact ⟨frame.trans (Aside.setState _ _), by simp⟩
  · simp only [next]
    exact ⟨frame.trans (Aside.setState _ _), by simp⟩

theorem processRxByte_aside {e : Emu} {byte : UInt8}
    (st : e.ch.state ≠ .inTpdu ∧ (e.ch.state = .waitTpdu → byte = 0xff)) (alloc : Alloc) :
    Aside e (e.cardEmuProcessRxByte byte alloc) ∧
      ((e.cardEmuProcessRxByte byte alloc).ch.state = e.ch.state ∨
        e.ch.state.ready = true ∧
          (e.cardEmuProcessRxByte byte alloc).ch.state ∈ [.inPts, .waitTpdu]) := by
  obtain ⟨now, _, call⟩ | ⟨now, pps, _⟩ | ⟨now, _⟩ | ⟨now, call⟩ | ⟨_, call⟩ :=
    e.processRxByte_cases byte alloc
  · have begun : (e.setPtsState ⟨false, .ptss⟩).ch.state = .waitTpdu := now
    obtain ⟨frame, after⟩ := afterPts_aside (.inr begun) byte alloc
    have start : Aside e (e.setPtsState ⟨false, .ptss⟩) := ⟨rfl, rfl, rfl, rfl⟩
    rw [call, now]
    exact ⟨start.trans frame, .inr ⟨rfl, after⟩⟩
  · exact absurd (st.2 now) pps
  · exact absurd now st.1
  · obtain ⟨frame, after⟩ := afterPts_aside (.inl now) byte alloc
    rw [call, now]
    exact ⟨frame, .inr ⟨rfl, after⟩⟩
  · rw [call]
    exact ⟨Aside.refl e, .inl rfl⟩

theorem cardHandleReset_usb (e : Emu) : e.cardHandleReset.usb = e.usb := by
  unfold cardHandleReset
  cases tx : e.ch.uartTxMsg <;> cases rx : e.ch.uartRxMsg <;> simp [usbBufFree, uartUpdateWt, tx, rx]

theorem ioEdge_aside (e : Emu) (io : CardIo) (active : Bool) :
    (e.ioEdge io active).1.reports = e.reports ∧
      ((e.ioEdge io active).1.ch.state.ready = false ∨
        Aside e (e.ioEdge io active).1 ∧ (e.ioEdge io active).1.ch.state = e.ch.state ∧
          (e.ioEdge io active).1.ch.tpdu = e.ch.tpdu) := by
  have set (e : Emu) (st : CardState) : (e.cardSetState st).reports = e.reports :=
    (Aside.setState e st).reports
  have reset (st : CardState) : (e.cardHandleReset.cardSetState st).reports = e.reports :=
    (set _ st).trans (by rw [Emu.reports, cardHandleReset_usb, Emu.reports])
  have off (e' : Emu) (st : CardState) (unready : st.ready = false) (ch : e'.ch.state = st) :
      e'.ch.state.ready = false := by rw [ch, unready]
  cases io with
  | vcc =>
    by_cases fall : (!active && e.ch.vccActive) = true
    · simp only [ioEdge, fall, if_true]
      exact ⟨reset _, .inl (off _ .waitPower rfl (by simp))⟩
    · by_cases rise : (active && !e.ch.vccActive) = true
      · simp only [ioEdge, fall, rise, if_true]
        exact ⟨set _ _, .inl (off _ .waitClk rfl (by simp))⟩
      · simp only [ioEdge, fall, rise]
        exact ⟨rfl, .inr ⟨⟨rfl, rfl, rfl, rfl⟩, rfl, rfl⟩⟩
  | clk =>
    by_cases starts : (active && !e.ch.clocked && e.ch.state == .waitClk) = true
    · simp only [ioEdge, starts, if_true]
      exact ⟨set _ _, .inl (off _ .waitRst rfl (by simp))⟩
    · simp only [ioEdge, starts]
      exact ⟨rfl, .inr ⟨⟨rfl, rfl, rfl, rfl⟩, rfl, rfl⟩⟩
  | rst =>
    by_cases release : (!active && e.ch.inReset) = true
    · by_cases start : (e.ch.vccActive && e.ch.clocked && e.ch.state == .waitRst) = true
      · simp only [ioEdge, release, start, if_true]
        exact ⟨set _ _, .inl (off _ .waitAtr rfl (by simp))⟩
      · simp only [ioEdge, release, start, if_true]
        exact ⟨rfl, .inr ⟨⟨rfl, rfl, rfl, rfl⟩, rfl, rfl⟩⟩
    · by_cases assert : (active && !e.ch.inReset) = true
      · simp only [ioEdge, release, assert, if_true]
        exact ⟨reset _, .inl (off _ .waitRst rfl (by simp))⟩
      · simp only [ioEdge, release, assert]
        exact ⟨rfl, .inr ⟨⟨rfl, rfl, rfl, rfl⟩, rfl, rfl⟩⟩

theorem endActivation_aside (e : Emu) :
    Aside e e.endActivation ∧
      (e.endActivation.ch.state.ready = false ∨ e.endActivation = e) := by
  unfold endActivation
  split
  case h_4 => exact ⟨Aside.refl e, .inr rfl⟩
  all_goals
    split
    · exact ⟨Aside.setState e _, .inl (by simp [CardState.ready])⟩
    · exact ⟨Aside.refl e, .inr rfl⟩

theorem ioStatechg_aside (e : Emu) (io : CardIo) (active : Bool) (alloc : Alloc) :
    (e.cardEmuIoStatechg io active alloc).reports = e.reports ∧
      ((e.cardEmuIoStatechg io active alloc).ch.state.ready = false ∨
        Aside e (e.cardEmuIoStatechg io active alloc) ∧
          (e.cardEmuIoStatechg io active alloc).ch.state = e.ch.state ∧
          (e.cardEmuIoStatechg io active alloc).ch.tpdu = e.ch.tpdu) := by
  obtain ⟨quiet, edge⟩ := e.ioEdge_aside io active
  obtain ⟨settled, ended⟩ := (e.ioEdge io active).1.endActivation_aside
  have last : Aside (e.ioEdge io active).1.endActivation (e.cardEmuIoStatechg io active alloc) := by
    simp only [cardEmuIoStatechg]
    split
    · exact Aside.reportStatus _ true alloc
    · exact Aside.refl _
  have ch := ioStatechg_ch e io active alloc
  refine ⟨(settled.trans last).reports.trans quiet, ?_⟩
  rw [ch]
  obtain unready | same := ended
  · exact .inl unready
  · rw [same]
    obtain unready | ⟨aside, st, tpdu⟩ := edge
    · exact .inl unready
    · exact .inr ⟨(aside.trans settled).trans last, st, tpdu⟩

theorem txByte_aside {e : Emu} (st : e.ch.state ≠ .inTpdu) :
    Aside e e.cardEmuTxByte.1 ∧
      (e.cardEmuTxByte.1.ch.state = e.ch.state ∨ e.cardEmuTxByte.1.ch.state = .waitTpdu) := by
  cases now : e.ch.state with
  | inAtr =>
    simp only [cardEmuTxByte, now]
    refine ⟨Aside.txByteAtr e, ?_⟩
    simp only [txByteAtr, now, ne_eq, not_true, if_false]
    split
    · exact .inl rfl
    · exact .inr (by simp)
  | inPts =>
    simp only [cardEmuTxByte, now]
    refine ⟨Aside.txBytePts e, ?_⟩
    simp only [txBytePts]
    split
    · split
      · exact .inr (by simp [finishPts, setPtsState])
      · have taken := congrArg CardHandle.state
          (takePts1_ch e (e.ch.pts.resp.get e.ch.pts.state.sstate))
        exact .inl (taken.trans now)
    · exact .inl now
  | inTpdu => exact absurd now st
  | waitPower | waitClk | waitRst | waitAtr | waitTpdu =>
    simp only [cardEmuTxByte, now]
    exact ⟨Aside.refl e, .inl trivial⟩

theorem usartIrqTx_aside {ci : CardemInst} (st : ci.emu.ch.state ≠ .inTpdu) :
    Aside ci.emu ci.usartIrqTx.emu ∧
      (ci.usartIrqTx.emu.ch.state = ci.emu.ch.state ∨
        ci.usartIrqTx.emu.ch.state = .waitTpdu) := by
  unfold CardemInst.usartIrqTx
  split
  · obtain ⟨aside, next⟩ := txByte_aside st
    simp only
    split
    · exact ⟨aside, next⟩
    · exact ⟨aside.trans ⟨rfl, rfl, rfl, rfl⟩, next⟩
  · exact ⟨Aside.refl _, .inl rfl⟩

end Emu
end Simtrace2
