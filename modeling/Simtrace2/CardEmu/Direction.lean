import Simtrace2.CardEmu.Activation

/-! The direction of the UART and its transmit interrupt, over every order of
received bytes, interrupts, host messages, edges and timeouts. -/
namespace Simtrace2
open Lib Emu

def Uart.Listening (u : Uart) : Prop := u.mode = .rx ∧ u.txrdy = false

def Uart.Talking (u : Uart) : Prop := u.mode = .tx ∧ u.txrdy = true

def TpduState.sending : TpduState → Bool
  | .waitPb | .waitTx => true
  | _ => false

def CardHandle.pendingTx (ch : CardHandle) : Prop := ch.uartTxMsg ≠ none ∨ ch.uartTxQueue ≠ []

namespace Emu

/-- The direction invariant: while the card may send nothing its transmit interrupt
is off too, which is what keeps a queued message where it is. -/
def Directed (e : Emu) : Prop :=
  match e.ch.state with
  | .waitPower | .waitClk | .waitRst | .waitAtr => True
  | .inAtr => e.uart.txrdy = true
  | .inPts => if e.ch.pts.state.isResp then e.uart.txrdy = true else e.uart.Listening
  | .waitTpdu => e.uart.Listening
  | .inTpdu =>
    if e.ch.tpdu.state.sending then e.uart.mode = .tx ∧ (e.ch.pendingTx → e.uart.txrdy = true)
    else e.uart.Listening

theorem setTpduState_talking (e : Emu) {ts : TpduState} (sends : ts.sending = true)
    (moves : e.ch.tpdu.state ≠ ts) : (e.setTpduState ts).uart.Talking := by
  unfold setTpduState
  cases ts <;> simp_all [TpduState.sending, uartEnable, uartUpdateWt, Uart.Talking]

theorem setTpduState_waitRx (e : Emu) (moves : e.ch.tpdu.state ≠ .waitRx) :
    (e.setTpduState .waitRx).uart.Listening := by
  simp [setTpduState, moves, uartEnable, uartUpdateWt, Uart.Listening]

theorem setTpduState_header (e : Emu) {ts : TpduState}
    (header : ts ∈ [.waitIns, .waitP1, .waitP2, .waitP3]) :
    (e.setTpduState ts).uart.mode = e.uart.mode ∧ (e.setTpduState ts).uart.txrdy = e.uart.txrdy := by
  unfold setTpduState
  split
  · exact ⟨rfl, rfl⟩
  · cases ts <;> simp at header <;> exact ⟨rfl, rfl⟩

theorem cardSetState_waitTpdu (e : Emu) (moves : e.ch.state ≠ .waitTpdu) :
    (e.cardSetState .waitTpdu).uart.Listening := by
  simp [cardSetState, moves, uartEnable, Uart.Listening]

theorem cardSetState_quiet (e : Emu) {st : CardState} (quiet : st = .inPts ∨ st = .inTpdu) :
    e.cardSetState st = { e with ch.state := st } := by
  unfold cardSetState
  split
  · rename_i same
    rw [← same]
  · rcases quiet with rfl | rfl <;> rfl

@[simp] theorem flushRxBuffer_uart (e : Emu) : e.flushRxBuffer.uart = e.uart := by
  unfold flushRxBuffer
  split <;> rfl

@[simp] theorem sendTpduHeader_uart (e : Emu) (alloc : Alloc) :
    (e.sendTpduHeader alloc).uart = e.uart := by
  cases alloc <;> simp [sendTpduHeader, holdRxMsg]

@[simp] theorem flushPts_uart (e : Emu) (alloc : Alloc) : (e.flushPts alloc).uart = e.uart := by
  cases alloc <;> rfl

theorem nextPtsByte_ne_ptss (pts0 : UInt8) (i : PtsByte) : nextPtsByte pts0 i ≠ .ptss := by
  cases i <;> grind [nextPtsByte]

theorem nextPtsState_resp (p : Pts) (resp : p.state.isResp = true) :
    (nextPtsState p).isResp = true := by
  simp only [nextPtsState]
  split
  · rfl
  · exact resp

theorem store_state (p : Pts) (byte : UInt8) : (p.store byte).state = p.state := by
  unfold Pts.store
  split <;> rfl

theorem answer_state (p : Pts) : p.answer.state = p.state := by
  unfold Pts.answer
  split <;> rfl

theorem processBytePts_cases (e : Emu) (byte : UInt8) (alloc : Alloc) :
    ((e.processBytePts byte alloc).2 = some .waitTpdu ∧
        (e.processBytePts byte alloc).1.uart = e.uart) ∨
      ((e.processBytePts byte alloc).2 = none ∧ e.ch.pts.state = ⟨false, .pck⟩ ∧
        (e.processBytePts byte alloc).1.ch.pts.state.isResp = true ∧
        (e.processBytePts byte alloc).1.uart.txrdy = true) ∨
      ((e.processBytePts byte alloc).2 = some .inPts ∧
        (e.processBytePts byte alloc).1.ch.pts.state.isResp = e.ch.pts.state.isResp ∧
        (e.processBytePts byte alloc).1.uart = e.uart) := by
  by_cases last : e.ch.pts.state = ⟨false, .pck⟩
  · by_cases bad : (e.ch.pts.store byte).req.pck ≠ (e.ch.pts.store byte).req.csumPts
    · simp [processBytePts, store_state, last, bad, setPtsState]
    · have next : nextPtsState (e.ch.pts.store byte).answer = ⟨true, .ptss⟩ := by
        simp [nextPtsState, answer_state, store_state, last]
      simp [processBytePts, store_state, last, bad, setPtsState, next, uartEnable]
  · have next : nextPtsState (e.ch.pts.store byte).answer ≠ ⟨true, .ptss⟩ := by
      simp [nextPtsState, answer_state, store_state, last, nextPtsByte_ne_ptss]
    have phase : (nextPtsState (e.ch.pts.store byte).answer).isResp = e.ch.pts.state.isResp := by
      simp [nextPtsState, answer_state, store_state, last]
    simp [processBytePts, store_state, last, setPtsState, next, phase]

theorem processByteTpdu_cases (e : Emu) (byte : UInt8) (alloc : Alloc) :
    (((e.processByteTpdu byte alloc).1.uart.mode = e.uart.mode ∧
          (e.processByteTpdu byte alloc).1.uart.txrdy = e.uart.txrdy) ∧
        (e.processByteTpdu byte alloc).1.ch.tpdu.state.sending = e.ch.tpdu.state.sending) ∨
      ((e.processByteTpdu byte alloc).1.uart.Talking ∧
        (e.processByteTpdu byte alloc).1.ch.tpdu.state.sending = true) := by
  cases st : e.ch.tpdu.state with
  | waitCla | waitIns | waitP1 | waitP2 =>
    left
    constructor
    · simp only [processByteTpdu, st]
      apply setTpduState_header
      simp [nextTpduState]
    · simp [processByteTpdu, st, setTpduState_ch, nextTpduState, TpduState.sending]
  | waitP3 =>
    right
    constructor
    · simp only [processByteTpdu, st, sendTpduHeader_uart]
      apply setTpduState_talking <;> simp [nextTpduState, TpduState.sending]
    · simp [processByteTpdu, st, setTpduState_ch, nextTpduState, TpduState.sending]
  | waitPb | waitTx => exact .inl (by simp [processByteTpdu, st])
  | waitRx =>
    simp only [processByteTpdu, st]
    unfold addTpduByte
    split
    · exact .inl ⟨⟨rfl, rfl⟩, by rw [st]⟩
    · rename_i msg _
      unfold checkRxBuffer
      split
      · right
        constructor
        · apply setTpduState_talking <;> simp [TpduState.sending, holdRxMsg, st]
        · simp [setTpduState_ch, TpduState.sending]
      · split <;> simp [holdRxMsg, st]

/-- The edge of a line restarts the card, or changes its own level only. -/
theorem ioEdge_cases (e : Emu) (io : CardIo) (active : Bool) :
    (e.ioEdge io active).1.ch.state ∈ [.waitPower, .waitClk, .waitRst, .waitAtr] ∨
      ∃ vcc rst clk, (e.ioEdge io active).1 =
        { e with ch.vccActive := vcc, ch.inReset := rst, ch.clocked := clk } := by
  cases io with
  | vcc =>
    by_cases same : active = e.ch.vccActive
    · exact .inr ⟨active, e.ch.inReset, e.ch.clocked, by simp [Emu.ioEdge, same]⟩
    · left
      cases active <;> cases on : e.ch.vccActive <;> simp_all [Emu.ioEdge]
  | clk =>
    by_cases starts : (active && !e.ch.clocked && e.ch.state == .waitClk) = true
    · left
      simp [Emu.ioEdge, starts]
    · exact .inr ⟨e.ch.vccActive, e.ch.inReset, active, by simp [Emu.ioEdge, starts]⟩
  | rst =>
    cases active with
    | true =>
      cases held : e.ch.inReset with
      | false =>
        left
        simp [Emu.ioEdge, held]
      | true => exact .inr ⟨e.ch.vccActive, true, e.ch.clocked, by simp [Emu.ioEdge, held]⟩
    | false =>
      by_cases done : e.ch.inReset = true ∧
          (e.ch.vccActive && e.ch.clocked && e.ch.state == .waitRst) = true
      · left
        simp [Emu.ioEdge, done]
      · refine .inr ⟨e.ch.vccActive, false, e.ch.clocked, ?_⟩
        simp only [Emu.ioEdge]
        split_ifs <;> simp_all

theorem endActivation_cases (e : Emu) :
    e.endActivation.ch.state = .waitAtr ∨ e.endActivation = e := by
  unfold Emu.endActivation
  split
  · split
    · exact .inl (by simp)
    · exact .inr rfl
  · split
    · exact .inl (by simp)
    · exact .inr rfl
  · split
    · exact .inl (by simp)
    · exact .inr rfl
  · exact .inr rfl

/-- What a change of a line leaves: a card that is not yet active, or the card as it was. -/
theorem ioStatechg_cases (e : Emu) (io : CardIo) (active : Bool) (alloc : Alloc) :
    (e.cardEmuIoStatechg io active alloc).ch.state ∈ [.waitPower, .waitClk, .waitRst, .waitAtr] ∨
      (e.cardEmuIoStatechg io active alloc).uart = e.uart ∧
        ∃ vcc rst clk, (e.cardEmuIoStatechg io active alloc).ch =
          { e.ch with vccActive := vcc, inReset := rst, clocked := clk } := by
  have same : ∀ f : Emu, (f.cardEmuReportStatus true alloc).ch = f.ch ∧
      (f.cardEmuReportStatus true alloc).uart = f.uart := by
    intro f
    cases alloc <;> exact ⟨rfl, rfl⟩
  have settled : (e.cardEmuIoStatechg io active alloc).ch = (e.ioEdge io active).1.endActivation.ch ∧
      (e.cardEmuIoStatechg io active alloc).uart = (e.ioEdge io active).1.endActivation.uart := by
    simp only [Emu.cardEmuIoStatechg]
    split
    · exact same _
    · exact ⟨rfl, rfl⟩
  rw [settled.1, settled.2]
  rcases endActivation_cases (e.ioEdge io active).1 with begins | stays
  · exact .inl (by simp [begins])
  · rw [stays]
    rcases e.ioEdge_cases io active with st | ⟨vcc, rst, clk, edge⟩
    · exact .inl st
    · rw [edge]
      exact .inr ⟨rfl, vcc, rst, clk, rfl⟩

/-- Whose turn it is in a TPDU, with the UART set for it. -/
def Turn (e : Emu) : Prop :=
  (e.ch.state = .inTpdu ∧ e.ch.tpdu.state.sending = true ∧ e.uart.Talking) ∨
  (e.ch.state = .inTpdu ∧ e.ch.tpdu.state.sending = false ∧ e.uart.Listening) ∨
  (e.ch.state = .waitTpdu ∧ e.uart.Listening)

namespace Turn

theorem directed {e : Emu} (t : e.Turn) : e.Directed := by
  rcases t with ⟨st, sends, talks⟩ | ⟨st, waits, listens⟩ | ⟨st, listens⟩
  · simp [Directed, st, sends, talks.1, talks.2]
  · simpa [Directed, st, waits] using listens
  · simpa [Directed, st] using listens

theorem setTpduState {e : Emu} (t : e.Turn) (st : e.ch.state = .inTpdu) {ts : TpduState}
    (next : ts = .waitTx ∨ ts = .waitRx) : (e.setTpduState ts).Turn := by
  have still : (e.setTpduState ts).ch.state = .inTpdu := by rw [setTpduState_ch, st]
  by_cases same : e.ch.tpdu.state = ts
  · simpa [Emu.setTpduState, same] using t
  · rcases next with rfl | rfl
    · exact .inl ⟨still, by rw [setTpduState_ch]; rfl, setTpduState_talking e rfl same⟩
    · exact .inr (.inl ⟨still, by rw [setTpduState_ch]; rfl, setTpduState_waitRx e same⟩)

theorem afterProcedureByte {e : Emu} (t : e.Turn) (st : e.ch.state = .inTpdu) (flags : UInt32) :
    (e.afterProcedureByte flags).Turn ∧ (e.afterProcedureByte flags).ch.state = .inTpdu := by
  rcases e.afterProcedureByte_cases flags with next | next | next
  · rw [next, setTpduState_ch]
    exact ⟨t.setTpduState st (.inl rfl), st⟩
  · rw [next, setTpduState_ch]
    exact ⟨t.setTpduState st (.inr rfl), st⟩
  · rw [next]
    exact ⟨t, st⟩

theorem afterMessage {e : Emu} (t : e.Turn) (st : e.ch.state = .inTpdu) (flags : UInt32) :
    (e.afterMessage flags).Turn := by
  rcases e.afterMessage_cases flags with next | next | next
  · rw [next]
    exact t.setTpduState st (.inr rfl)
  · rw [next]
    exact .inr (.inr ⟨by simp, cardSetState_waitTpdu e (by simp [st])⟩)
  · rw [next]
    exact t

end Turn

namespace Directed

theorem of_inactive {e : Emu} (st : e.ch.state ∈ [.waitPower, .waitClk, .waitRst, .waitAtr]) :
    e.Directed := by
  unfold Directed
  cases now : e.ch.state <;> simp_all

theorem of_listening {e : Emu} (listens : e.uart.Listening)
    (st : e.ch.state = .waitTpdu ∨ (e.ch.state = .inPts ∧ e.ch.pts.state.isResp = false) ∨
      (e.ch.state = .inTpdu ∧ e.ch.tpdu.state.sending = false)) : e.Directed := by
  unfold Directed
  rcases st with st | ⟨st, phase⟩ | ⟨st, phase⟩ <;> simp [st, listens] <;> simp [phase]

theorem of_talking {e : Emu} (talks : e.uart.Talking) (st : e.ch.state = .inTpdu)
    (sends : e.ch.tpdu.state.sending = true) : e.Directed := by
  simp [Directed, st, sends, talks.1, talks.2]

theorem of_same {e f : Emu} (h : e.Directed)
    (states : f.ch.state = e.ch.state ∧ f.ch.tpdu.state = e.ch.tpdu.state ∧
      f.ch.pts.state.isResp = e.ch.pts.state.isResp)
    (buffers : f.ch.uartTxMsg = e.ch.uartTxMsg ∧ f.ch.uartTxQueue = e.ch.uartTxQueue)
    (uart : f.uart.mode = e.uart.mode ∧ f.uart.txrdy = e.uart.txrdy) : f.Directed := by
  unfold Directed CardHandle.pendingTx Uart.Listening at *
  rwa [states.1, states.2.1, states.2.2, buffers.1, buffers.2, uart.1, uart.2]

theorem reportStatus {e : Emu} (h : e.Directed) (irq : Bool) (alloc : Alloc) :
    (e.cardEmuReportStatus irq alloc).Directed := by
  cases alloc <;> exact h

theorem ioStatechg {e : Emu} (h : e.Directed) (io : CardIo) (active : Bool) (alloc : Alloc) :
    (e.cardEmuIoStatechg io active alloc).Directed := by
  rcases e.ioStatechg_cases io active alloc with st | ⟨uart, vcc, rst, clk, ch⟩
  · exact of_inactive st
  · apply h.of_same <;> simp [uart, ch]

theorem afterPts {e : Emu} (h : e.Directed)
    (st : e.ch.state = .inPts ∨ (e.ch.state = .waitTpdu ∧ e.ch.pts.state = ⟨false, .ptss⟩))
    (byte : UInt8) (alloc : Alloc) :
    (e.afterPtsByte byte alloc).Directed := by
  unfold afterPtsByte
  have frame := e.processBytePts_ch byte alloc
  rcases e.processBytePts_cases byte alloc with ⟨res, uart⟩ | ⟨res, last, phase, on⟩ |
    ⟨res, phase, uart⟩
  · simp only [res]
    apply of_listening _ (.inl (by simp))
    rcases st with st | ⟨st, _⟩
    · apply cardSetState_waitTpdu
      rw [frame]
      simp [st]
    · have same : (e.processBytePts byte alloc).1.ch.state = .waitTpdu := by rw [frame]; exact st
      simpa [cardSetState, same, uart, Directed, st] using h
  · simp only [res]
    rcases st with st | ⟨_, first⟩
    · have now : (e.processBytePts byte alloc).1.ch.state = .inPts := by rw [frame]; exact st
      simp [Directed, now, phase, on]
    · simp [last] at first
  · simp only [res, cardSetState_quiet _ (.inl rfl)]
    rcases st with st | ⟨st, first⟩
    · simpa [Directed, st, phase, uart] using h
    · simpa [Directed, st, phase, uart, first] using h

theorem afterTpdu {e : Emu} (h : e.Directed) (act : Activated e.ch)
    (st : e.ch.state = .waitTpdu ∨ e.ch.state = .inTpdu) (byte : UInt8) (alloc : Alloc) :
    (e.afterTpduByte byte alloc).Directed := by
  unfold afterTpduByte
  have frame := e.processByteTpdu_ch byte alloc
  rw [cardSetState_quiet _ (.inr rfl)]
  rcases e.processByteTpdu_cases byte alloc with ⟨uart, turn⟩ | ⟨talks, turn⟩
  · rcases st with st | st
    · apply of_listening
      · have listens : e.uart.Listening := by simpa [Directed, st] using h
        simpa [Uart.Listening, uart] using listens
      · right; right
        exact ⟨rfl, by rw [turn, act.idle st]; rfl⟩
    · have msg : (e.processByteTpdu byte alloc).1.ch.uartTxMsg = e.ch.uartTxMsg := by rw [frame]
      have queue : (e.processByteTpdu byte alloc).1.ch.uartTxQueue = e.ch.uartTxQueue := by
        rw [frame]
      simp only [Directed, st] at h
      simpa [Directed, turn, uart, Uart.Listening, CardHandle.pendingTx, msg, queue] using h
  · exact of_talking talks rfl turn

theorem processRxByte {e : Emu} (h : e.Directed) (act : Activated e.ch) (byte : UInt8)
    (alloc : Alloc) : (e.cardEmuProcessRxByte byte alloc).Directed := by
  obtain ⟨st, _, call⟩ | ⟨st, _, call⟩ | ⟨st, call⟩ | ⟨st, call⟩ | ⟨_, call⟩ :=
    e.processRxByte_cases byte alloc <;> rw [call]
  · have begun : (e.setPtsState ⟨false, .ptss⟩).Directed := by
      simpa [Directed, setPtsState, st] using h
    exact begun.afterPts (.inr ⟨st, rfl⟩) byte alloc
  · exact h.afterTpdu act (.inl st) byte alloc
  · exact h.afterTpdu act (.inr st) byte alloc
  · exact h.afterPts (.inl st) byte alloc
  · exact h

theorem uartTxrdyOff {e : Emu} (h : e.Directed) (atr : e.ch.state ≠ .inAtr)
    (pts : e.ch.state = .inPts → e.ch.pts.state.isResp = false)
    (tx : e.ch.state = .inTpdu → ¬ e.ch.pendingTx) : e.uartTxrdyOff.Directed := by
  unfold Directed at *
  cases st : e.ch.state <;> simp_all [Emu.uartTxrdyOff, Uart.Listening]
  split at h <;> simp_all

theorem txByteAtr {e : Emu} (h : e.Directed) (st : e.ch.state = .inAtr) :
    e.txByteAtr.1.Directed ∧ (e.txByteAtr.2 = false → e.txByteAtr.1.uartTxrdyOff.Directed) := by
  unfold Emu.txByteAtr
  split_ifs
  · contradiction
  · constructor
    · simpa [Directed, st, Emu.uartTx] using h
    · simp
  · have ended : (({ e with ch.wi := e.ch.atr.searchWi }.emuUpdateWt).cardSetState
        .waitTpdu).Directed := by
      apply of_listening (cardSetState_waitTpdu _ _) (.inl (by simp))
      simp [emuUpdateWt, st]
    exact ⟨ended, fun _ => by apply ended.uartTxrdyOff <;> simp⟩

theorem finishPts {e : Emu} (st : e.ch.state = .inPts) : e.finishPts.Directed := by
  apply of_listening
  · apply cardSetState_waitTpdu
    simp [emuUpdateWt, st]
  · exact .inl (by simp [Emu.finishPts, setPtsState])

theorem txBytePts {e : Emu} (h : e.Directed) (st : e.ch.state = .inPts) :
    e.txBytePts.1.Directed ∧ (e.txBytePts.2 = false → e.txBytePts.1.uartTxrdyOff.Directed) := by
  simp only [Emu.txBytePts]
  split_ifs with resp last
  · refine ⟨?_, by simp⟩
    apply finishPts
    rw [uartTx_ch, takePts1_ch]
    exact st
  · have state (e : Emu) (b : UInt8) : (e.takePts1 b).ch.state = e.ch.state := by rw [takePts1_ch]
    have uart (e : Emu) (b : UInt8) : (e.takePts1 b).uart = e.uart := by
      unfold takePts1
      split <;> rfl
    refine ⟨?_, by simp⟩
    simpa [Directed, setPtsState, nextPtsState_resp, state, st, resp, Emu.uartTx, uart] using h
  · exact ⟨h, fun _ => by apply h.uartTxrdyOff <;> simp [st, resp]⟩

theorem txByteTpdu {e : Emu} (h : e.Directed) (on : e.uart.txrdy = true)
    (st : e.ch.state = .inTpdu) :
    e.txByteTpdu.1.Directed ∧ (e.txByteTpdu.2 = false → e.txByteTpdu.1.uartTxrdyOff.Directed) := by
  have talks : e.ch.tpdu.state.sending = true ∧ e.uart.Talking := by
    simp only [Directed, st] at h
    split at h
    · exact ⟨‹_›, h.1, on⟩
    · simp [h.2] at on
  obtain ⟨none, idle⟩ | ⟨msg, queue, _, said⟩ := e.txByteTpdu_cases
  · have nothing : ¬ e.ch.pendingTx := by
      cases msg : e.ch.uartTxMsg <;> cases queue : e.ch.uartTxQueue <;>
        simp_all [txMsg, CardHandle.pendingTx]
    rw [idle]
    exact ⟨h, fun _ => by apply h.uartTxrdyOff <;> simp [st, nothing]⟩
  · have taken : ((e.holdTxMsg msg.msgbPullU8.2 queue).uartTx msg.msgbPullU8.1).Turn :=
      .inl ⟨st, talks⟩
    obtain ⟨decided, still⟩ := taken.afterProcedureByte st msg.txFlags
    obtain ⟨_, last⟩ | ⟨_, more⟩ := said
    · have ended := decided.afterMessage still msg.txFlags
      rw [last]
      exact ⟨Turn.directed ended, by simp⟩
    · rw [more]
      exact ⟨decided.directed, by simp⟩

theorem cardEmuTxByte {e : Emu} (h : e.Directed) (on : e.uart.txrdy = true) :
    e.cardEmuTxByte.1.Directed ∧
      (e.cardEmuTxByte.2 = false → e.cardEmuTxByte.1.uartTxrdyOff.Directed) := by
  unfold Emu.cardEmuTxByte
  cases st : e.ch.state with
  | inAtr => exact h.txByteAtr st
  | inPts => exact h.txBytePts st
  | inTpdu => exact h.txByteTpdu on st
  | waitPower | waitClk | waitRst | waitAtr | waitTpdu =>
    exact ⟨h, fun _ => by apply h.uartTxrdyOff <;> simp [st]⟩

theorem haveNewUartTx {e : Emu} (queue : List Msgb) (h : e.Directed) :
    ({ e with ch.uartTxQueue := queue }.cardEmuHaveNewUartTx).Directed := by
  cases st : e.ch.state with
  | inTpdu =>
    cases ts : e.ch.tpdu.state with
    | waitPb | waitTx =>
      simp [Directed, Emu.cardEmuHaveNewUartTx, st, ts, TpduState.sending, uartEnable]
    | waitCla | waitIns | waitP1 | waitP2 | waitP3 | waitRx =>
      simpa [Directed, Emu.cardEmuHaveNewUartTx, st, ts, TpduState.sending] using h
  | waitPower | waitClk | waitRst | waitAtr =>
    apply of_inactive
    simp [Emu.cardEmuHaveNewUartTx, st]
  | inAtr | inPts | waitTpdu => simpa [Directed, Emu.cardEmuHaveNewUartTx, st] using h

theorem dispatchTxData {e : Emu} (h : e.Directed) (msg : Msgb) :
    (CardemInst.dispatchTxData e msg).Directed := by
  unfold CardemInst.dispatchTxData
  split
  · exact h
  · exact h.haveNewUartTx _

theorem setAtr {e : Emu} (h : e.Directed) (atr : List UInt8) : (e.cardEmuSetAtr atr).Directed := by
  unfold Emu.cardEmuSetAtr
  split
  · exact h
  · exact h.of_same ⟨rfl, rfl, rfl⟩ ⟨rfl, rfl⟩ ⟨rfl, rfl⟩

theorem wtimeHalfExpired {e : Emu} (h : e.Directed) : e.cardEmuWtimeHalfExpired.Directed := by
  unfold Emu.cardEmuWtimeHalfExpired
  split
  · exact h.of_same ⟨rfl, rfl, rfl⟩ ⟨rfl, rfl⟩ ⟨rfl, rfl⟩
  · exact h.of_same ⟨rfl, rfl, rfl⟩ ⟨rfl, rfl⟩ ⟨rfl, rfl⟩
  · exact h

theorem wtimeExpired {e : Emu} (h : e.Directed) : e.cardEmuWtimeExpired.Directed := by
  unfold Emu.cardEmuWtimeExpired
  split
  · rename_i st
    simp [Directed, cardSetState, st, uartEnable]
  · exact h

theorem setConfig {ci : CardemInst} (h : ci.emu.Directed) (scfg : Nat → UInt8) (scfgLen : Nat)
    (alloc : Alloc) : (ci.cardEmuSetConfig scfg scfgLen alloc).emu.Directed := by
  obtain ⟨features, slotMuxNr, presencePol, set⟩ := ci.cardEmuSetConfig_emu scfg scfgLen alloc
  rw [set]
  cases alloc <;> exact h

theorem dispatch {ci : CardemInst} (h : ci.emu.Directed) (msg : Msgb) (alloc : Alloc) :
    (ci.dispatchUsbCommandCardem msg alloc).emu.Directed := by
  unfold CardemInst.dispatchUsbCommandCardem
  split_ifs
  · exact h.dispatchTxData msg
  · exact h.setAtr _
  · change ((ci.processCardInsert _).emu.usbBufFree msg.tag).Directed
    rw [CardemInst.processCardInsert_emu]
    exact h
  · exact h.reportStatus false alloc
  · exact h.setConfig _ _ alloc
  · exact h

end Directed
end Emu

namespace CardemInst

/-- A call into the card emulation where bytes are only taken by the interrupt handler. -/
def irqStep (ci : CardemInst) : CardInput → CardemInst
  | .txByte => ci.usartIrqTx
  | input => ci.step input

theorem usartIrqTx_ch (ci : CardemInst) :
    ci.usartIrqTx.emu.ch = ci.emu.ch ∨ ci.usartIrqTx.emu.ch = ci.emu.cardEmuTxByte.1.ch := by
  unfold usartIrqTx
  split
  · right
    simp only
    split <;> rfl
  · exact .inl rfl

theorem irqStep_activated {ci : CardemInst} (h : Activated ci.emu.ch) (input : CardInput) :
    Activated (ci.irqStep input).emu.ch := by
  cases input with
  | txByte =>
    rcases ci.usartIrqTx_ch with same | same
    · simpa only [irqStep, same] using h
    · simpa only [irqStep, same] using h.txByte
  | _ => exact h.step _

theorem usartIrqTx_directed {ci : CardemInst} (h : ci.emu.Directed) :
    ci.usartIrqTx.emu.Directed := by
  unfold usartIrqTx
  split
  · rename_i on
    obtain ⟨kept, off⟩ := h.cardEmuTxByte on
    simp only
    split
    · exact kept
    · exact off (by simp_all)
  · exact h

theorem irqStep_directed {ci : CardemInst} (act : Activated ci.emu.ch) (h : ci.emu.Directed)
    (input : CardInput) : (ci.irqStep input).emu.Directed := by
  cases input with
  | ioStatechg io active alloc => exact h.ioStatechg io active alloc
  | processRxByte byte alloc => exact h.processRxByte act byte alloc
  | txByte => exact usartIrqTx_directed h
  | wtimeExpired => exact h.wtimeExpired
  | wtimeHalfExpired => exact h.wtimeHalfExpired
  | setAtr atr => exact h.setAtr atr
  | dispatch msg alloc => exact h.dispatch msg alloc

end CardemInst

/-- Over every run of the card with its interrupt handler: the UART receives while it
is the reader's turn, it transmits while it is the card's turn, and a byte that is
ready to be sent has its wakeup enabled. -/
theorem uart_direction (slotNum inEp irqEp : Nat) (vccActive inReset clocked : Bool)
    (uart : Uart) (usb : List UsbMsg) (freed : List Nat) (pinInsert : PinInsert) (inverted : Bool)
    (mux : Option UInt8) (inputs : List CardInput) :
    let start := cardEmuInit slotNum inEp irqEp vccActive inReset clocked uart usb freed
    let e := (run CardemInst.irqStep ⟨start, pinInsert, inverted, mux⟩ inputs).emu
    (e.ch.state = .waitTpdu ∨ (e.ch.state = .inPts ∧ e.ch.pts.state.isResp = false) ∨
          (e.ch.state = .inTpdu ∧ e.ch.tpdu.state ∈ [.waitIns, .waitP1, .waitP2, .waitP3, .waitRx]) →
        e.uart.mode = .rx) ∧
      (e.ch.state = .inAtr ∨ (e.ch.state = .inPts ∧ e.ch.pts.state.isResp = true) →
        e.uart.txrdy = true) ∧
      (e.ch.state = .inTpdu ∧ e.ch.tpdu.state ∈ [.waitPb, .waitTx] →
        e.uart.mode = .tx ∧
          (e.ch.uartTxMsg ≠ none ∨ e.ch.uartTxQueue ≠ [] → e.uart.txrdy = true)) := by
  intro start e
  have inv : Activated e.ch ∧ e.Directed :=
    run_invariant (fun ci : CardemInst => Activated ci.emu.ch ∧ ci.emu.Directed)
      (fun _ input h => ⟨CardemInst.irqStep_activated h.1 input,
        CardemInst.irqStep_directed h.1 h.2 input⟩)
      ⟨Activated.init .., Emu.Directed.of_inactive (by simp [start, cardEmuInit])⟩ inputs
  obtain ⟨_, directed⟩ := inv
  unfold Emu.Directed at directed
  refine ⟨?_, ?_, ?_⟩
  · rintro (st | ⟨st, request⟩ | ⟨st, ts⟩)
    · simp only [st] at directed
      exact directed.1
    · simp only [st, request] at directed
      exact directed.1
    · have waits : e.ch.tpdu.state.sending = false := by
        cases now : e.ch.tpdu.state <;> simp_all [TpduState.sending]
      simp only [st, waits] at directed
      exact directed.1
  · rintro (st | ⟨st, response⟩)
    · simpa only [st] using directed
    · simpa only [st, response, if_true] using directed
  · rintro ⟨st, ts⟩
    have sends : e.ch.tpdu.state.sending = true := by
      cases now : e.ch.tpdu.state <;> simp_all [TpduState.sending]
    simpa only [st, sends, if_true, CardHandle.pendingTx] using directed

end Simtrace2
