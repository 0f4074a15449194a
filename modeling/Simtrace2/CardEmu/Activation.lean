import Simtrace2.CardEmu.ModeCardemu
import Simtrace2.Lib.Run

/-! Activation of the card: which states go with which signal levels, and which
buffers may be held in them, over every order of edges, traffic and timeouts. -/
namespace Simtrace2
open Lib Emu

def CardState.operating : CardState → Bool
  | .waitAtr | .inAtr | .inPts | .waitTpdu | .inTpdu => true
  | .waitPower | .waitClk | .waitRst => false

/-- The activation invariant of a card handle. -/
structure Activated (ch : CardHandle) : Prop where
  powered : ch.state.operating = true → ch.vccActive = true ∧ ch.inReset = false
  drained : cardEmuChReady ch = false →
    ch.uartTxMsg = none ∧ ch.uartRxMsg = none ∧ ch.uartTxQueue = []
  idle : ch.state = .waitTpdu → ch.tpdu.state = .waitCla
  busy : ch.state = .inTpdu → ch.tpdu.state ≠ .waitCla

inductive CardInput where
  | ioStatechg (io : CardIo) (active : Bool) (alloc : Alloc)
  | processRxByte (byte : UInt8) (alloc : Alloc)
  | txByte
  | wtimeExpired
  | wtimeHalfExpired
  | setAtr (atr : List UInt8)
  | dispatch (msg : Msgb) (alloc : Alloc)

def CardemInst.step (ci : CardemInst) : CardInput → CardemInst
  | .ioStatechg io active alloc => { ci with emu := ci.emu.cardEmuIoStatechg io active alloc }
  | .processRxByte byte alloc => { ci with emu := ci.emu.cardEmuProcessRxByte byte alloc }
  | .txByte => { ci with emu := ci.emu.cardEmuTxByte.1 }
  | .wtimeExpired => { ci with emu := ci.emu.cardEmuWtimeExpired }
  | .wtimeHalfExpired => { ci with emu := ci.emu.cardEmuWtimeHalfExpired }
  | .setAtr atr => { ci with emu := ci.emu.cardEmuSetAtr atr }
  | .dispatch msg alloc => ci.dispatchUsbCommandCardem msg alloc

theorem not_ready_of_inactive {st : CardState} (off : st.operating = false) : st.ready = false := by
  cases st <;> simp_all [CardState.ready, CardState.operating]

theorem operating_of_ready {st : CardState} (ready : st.ready = true) : st.operating = true := by
  cases st <;> simp_all [CardState.ready, CardState.operating]

namespace Activated

theorem inactive_drained {ch : CardHandle} (h : Activated ch) (off : ch.state.operating = false) :
    ch.uartTxMsg = none ∧ ch.uartRxMsg = none ∧ ch.uartTxQueue = [] :=
  h.drained (not_ready_of_inactive off)

theorem off_inactive {ch : CardHandle} (h : Activated ch) (off : ch.vccActive = false) :
    ch.state.operating = false := by
  cases on : ch.state.operating with
  | false => rfl
  | true => simpa [off] using (h.powered on).1

theorem reset_inactive {ch : CardHandle} (h : Activated ch) (held : ch.inReset = true) :
    ch.state.operating = false := by
  cases on : ch.state.operating with
  | false => rfl
  | true => simpa [held] using (h.powered on).2

theorem of_inactive {ch : CardHandle} (off : ch.state.operating = false)
    (empty : ch.uartTxMsg = none ∧ ch.uartRxMsg = none ∧ ch.uartTxQueue = []) :
    Activated ch where
  powered on := by simp [off] at on
  drained _ := empty
  idle st := by simp [st, CardState.operating] at off
  busy st := by simp [st, CardState.operating] at off

theorem of_same {c d : CardHandle} (h : Activated c)
    (states : d.state = c.state ∧ d.tpdu.state = c.tpdu.state)
    (lines : d.vccActive = c.vccActive ∧ d.inReset = c.inReset)
    (buffers : d.uartTxMsg = c.uartTxMsg ∧ d.uartRxMsg = c.uartRxMsg ∧
      d.uartTxQueue = c.uartTxQueue) : Activated d := by
  obtain ⟨powered, drained, idle, busy⟩ := h
  constructor <;> simpa only [cardEmuChReady, states, lines, buffers]

theorem of_ready {c d : CardHandle} (h : Activated c) (before : c.state.operating = true)
    (lines : d.vccActive = c.vccActive ∧ d.inReset = c.inReset) (ready : cardEmuChReady d = true)
    (idle : d.state = .waitTpdu → d.tpdu.state = .waitCla)
    (busy : d.state = .inTpdu → d.tpdu.state ≠ .waitCla) : Activated d where
  powered _ := by
    rw [lines.1, lines.2]
    exact h.powered before
  drained unready := by simp [ready] at unready
  idle := idle
  busy := busy

theorem ioEdge_same {e : Emu} (h : Activated e.ch) {io : CardIo} {active : Bool}
    (same : (e.ioEdge io active).2 = false) : Activated (e.ioEdge io active).1.ch := by
  cases io <;> cases active <;>
    simp only [Emu.ioEdge, bne_eq_false_iff_eq] at same <;>
    apply h.of_same <;> simp [Emu.ioEdge, same]

theorem ioEdge {e : Emu} (h : Activated e.ch) (io : CardIo) (active : Bool) :
    Activated (e.ioEdge io active).1.ch := by
  cases edge : (e.ioEdge io active).2 with
  | false => exact h.ioEdge_same edge
  | true =>
    cases io with
    | vcc =>
      cases active with
      | false =>
        have on : e.ch.vccActive = true := by simpa [Emu.ioEdge] using edge
        apply of_inactive <;> simp [Emu.ioEdge, on, CardState.operating]
      | true =>
        have off : e.ch.vccActive = false := by simpa [Emu.ioEdge] using edge
        have empty := h.inactive_drained (h.off_inactive off)
        apply of_inactive <;> simp [Emu.ioEdge, off, empty, CardState.operating]
    | clk =>
      by_cases starts : (active && !e.ch.clocked && e.ch.state == .waitClk) = true
      · have st : e.ch.state = .waitClk := by
          simp only [Bool.and_eq_true, beq_iff_eq] at starts
          exact starts.2
        have empty := h.drained (by simp [cardEmuChReady, st, CardState.ready])
        apply of_inactive <;> simp [Emu.ioEdge, starts, empty, CardState.operating]
      · apply h.of_same <;> simp [Emu.ioEdge, starts]
    | rst =>
      cases active with
      | false =>
        have held : e.ch.inReset = true := by simpa [Emu.ioEdge] using edge
        have waiting := h.reset_inactive held
        have empty := h.inactive_drained waiting
        by_cases done : (e.ch.vccActive && e.ch.clocked && e.ch.state == .waitRst) = true
        · simp only [Bool.and_eq_true, beq_iff_eq] at done
          constructor <;> simp [Emu.ioEdge, held, done, empty]
        · apply of_inactive <;> simp [Emu.ioEdge, held, done, waiting, empty]
      | true =>
        have free : e.ch.inReset = false := by simpa [Emu.ioEdge] using edge
        apply of_inactive <;> simp [Emu.ioEdge, free, CardState.operating]

theorem endActivation {e : Emu} (h : Activated e.ch) : Activated e.endActivation.ch := by
  by_cases starts : (e.ch.vccActive && e.ch.clocked && !e.ch.inReset) = true
  · by_cases waiting : e.ch.state.operating = true
    · have same : e.endActivation = e := by
        unfold Emu.endActivation
        split <;> simp_all [CardState.operating]
      rwa [same]
    · have empty := h.inactive_drained (by simpa using waiting)
      have entered : e.endActivation = e.cardSetState .waitAtr := by
        unfold Emu.endActivation
        cases st : e.ch.state <;> simp_all [CardState.operating]
      simp only [Bool.and_eq_true, Bool.not_eq_true'] at starts
      rw [entered]
      constructor <;> simp [starts, empty]
  · have same : e.endActivation = e := by
      unfold Emu.endActivation
      split <;> simp [starts]
    rwa [same]

theorem reportStatus {e : Emu} (h : Activated e.ch) (irq : Bool) (alloc : Alloc) :
    Activated (e.cardEmuReportStatus irq alloc).ch := by
  cases alloc <;> exact h

theorem ioStatechg {e : Emu} (h : Activated e.ch) (io : CardIo) (active : Bool) (alloc : Alloc) :
    Activated (e.cardEmuIoStatechg io active alloc).ch := by
  have settled := (h.ioEdge io active).endActivation
  simp only [Emu.cardEmuIoStatechg]
  split
  · exact settled.reportStatus true alloc
  · exact settled

theorem setState {e : Emu} (h : Activated e.ch) (ready : e.ch.state.ready = true) {st : CardState}
    (next : st = .inPts ∨ st = .waitTpdu) : Activated (e.cardSetState st).ch := by
  have idle : (e.cardSetState st).ch.state = .waitTpdu →
      (e.cardSetState st).ch.tpdu.state = .waitCla := by
    intro now
    rw [cardSetState_state] at now
    subst now
    by_cases same : e.ch.state = .waitTpdu
    · simpa [cardSetState_tpdu, same] using h.idle same
    · simp [cardSetState_tpdu, same]
  apply h.of_ready (operating_of_ready ready) (by simp) _ idle
  · rcases next with rfl | rfl <;> simp
  · rcases next with rfl | rfl <;> simp [cardEmuChReady, CardState.ready]

theorem processPts {e : Emu} (h : Activated e.ch) (byte : UInt8) (alloc : Alloc) :
    Activated (e.processBytePts byte alloc).1.ch := by
  rw [processBytePts_ch]
  exact h.of_same ⟨rfl, rfl⟩ ⟨rfl, rfl⟩ ⟨rfl, rfl, rfl⟩

theorem afterPts {e : Emu} (h : Activated e.ch) (ready : e.ch.state.ready = true) (byte : UInt8)
    (alloc : Alloc) :
    Activated (e.afterPtsByte byte alloc).ch := by
  unfold Emu.afterPtsByte
  have kept : (e.processBytePts byte alloc).1.ch.state.ready = true := by
    rw [processBytePts_ch]
    exact ready
  rcases e.processBytePts_state byte alloc with none | pts | tpdu
  · rw [none]
    exact h.processPts byte alloc
  · rw [pts]
    exact (h.processPts byte alloc).setState kept (.inl rfl)
  · rw [tpdu]
    exact (h.processPts byte alloc).setState kept (.inr rfl)

theorem afterTpdu {e : Emu} (h : Activated e.ch) (ready : e.ch.state.ready = true) (byte : UInt8)
    (alloc : Alloc) : Activated (e.afterTpduByte byte alloc).ch := by
  unfold Emu.afterTpduByte
  have lines := e.processByteTpdu_ch byte alloc
  have busy := e.processByteTpdu_busy byte alloc
  apply h.of_ready (operating_of_ready ready)
  · simp only [cardSetState_vccActive, cardSetState_inReset]
    rw [lines]
    exact ⟨rfl, rfl⟩
  · simp [cardEmuChReady, CardState.ready]
  · simp
  · simpa [cardSetState_tpdu] using busy

theorem processRxByte {e : Emu} (h : Activated e.ch) (byte : UInt8) (alloc : Alloc) :
    Activated (e.cardEmuProcessRxByte byte alloc).ch := by
  obtain ⟨st, _, call⟩ | ⟨st, _, call⟩ | ⟨st, call⟩ | ⟨st, call⟩ | ⟨_, call⟩ :=
    e.processRxByte_cases byte alloc <;> rw [call]
  · have begun : Activated (e.setPtsState ⟨false, .ptss⟩).ch :=
      h.of_same ⟨rfl, rfl⟩ ⟨rfl, rfl⟩ ⟨rfl, rfl, rfl⟩
    exact begun.afterPts (by simp [Emu.setPtsState, st, CardState.ready]) byte alloc
  · exact h.afterTpdu (by simp [st, CardState.ready]) byte alloc
  · exact h.afterTpdu (by simp [st, CardState.ready]) byte alloc
  · exact h.afterPts (by simp [st, CardState.ready]) byte alloc
  · exact h

theorem txByteAtr {e : Emu} (h : Activated e.ch) : Activated e.txByteAtr.1.ch := by
  unfold Emu.txByteAtr
  split
  · exact h
  · rename_i st
    have on : e.ch.state.operating = true := by simp_all [CardState.operating]
    split
    · exact h.of_same ⟨rfl, rfl⟩ ⟨rfl, rfl⟩ ⟨rfl, rfl, rfl⟩
    · apply h.of_ready on <;> simp_all [cardSetState_tpdu, emuUpdateWt, cardEmuChReady, CardState.ready]

theorem finishPts {e : Emu} (h : Activated e.ch) (st : e.ch.state = .inPts) :
    Activated e.finishPts.ch := by
  apply h.of_ready (by simp [st, CardState.operating]) <;>
    simp [Emu.finishPts, setPtsState, emuUpdateWt, cardSetState_tpdu, st, cardEmuChReady,
      CardState.ready]

theorem txBytePts {e : Emu} (h : Activated e.ch) (st : e.ch.state = .inPts) :
    Activated e.txBytePts.1.ch := by
  simp only [Emu.txBytePts]
  split
  · have taken : Activated
        (((e.takePts1 (e.ch.pts.resp.get e.ch.pts.state.sstate)).uartTx
          (e.ch.pts.resp.get e.ch.pts.state.sstate)).ch) := by
      rw [uartTx_ch, takePts1_ch]
      exact h.of_same ⟨rfl, rfl⟩ ⟨rfl, rfl⟩ ⟨rfl, rfl, rfl⟩
    split
    · apply taken.finishPts
      rw [uartTx_ch, takePts1_ch]
      exact st
    · exact taken.of_same ⟨rfl, rfl⟩ ⟨rfl, rfl⟩ ⟨rfl, rfl, rfl⟩
  · exact h

theorem afterProcedureByte {e : Emu} (h : Activated e.ch) (st : e.ch.state = .inTpdu)
    (flags : UInt32) :
    Activated (e.afterProcedureByte flags).ch ∧ (e.afterProcedureByte flags).ch.state = .inTpdu := by
  have on : e.ch.state.operating = true := by simp [st, CardState.operating]
  rcases e.afterProcedureByte_cases flags with next | next | next
  · rw [next, setTpduState_ch]
    exact ⟨by apply h.of_ready on <;> simp [st, cardEmuChReady, CardState.ready], st⟩
  · rw [next, setTpduState_ch]
    exact ⟨by apply h.of_ready on <;> simp [st, cardEmuChReady, CardState.ready], st⟩
  · rw [next]
    exact ⟨h, st⟩

theorem afterMessage {e : Emu} (h : Activated e.ch) (st : e.ch.state = .inTpdu) (flags : UInt32) :
    Activated (e.afterMessage flags).ch ∧ (e.afterMessage flags).ch.state.ready = true := by
  have on : e.ch.state.operating = true := by simp [st, CardState.operating]
  rcases e.afterMessage_cases flags with next | next | next
  · rw [next, setTpduState_ch]
    exact ⟨by apply h.of_ready on <;> simp [st, cardEmuChReady, CardState.ready],
      by simp [st, CardState.ready]⟩
  · rw [next]
    exact ⟨h.setState (by simp [st, CardState.ready]) (.inr rfl), by simp [CardState.ready]⟩
  · rw [next]
    exact ⟨h, by simp [st, CardState.ready]⟩

theorem txByteTpdu {e : Emu} (h : Activated e.ch) (st : e.ch.state = .inTpdu) :
    Activated e.txByteTpdu.1.ch := by
  obtain ⟨_, idle⟩ | ⟨msg, queue, _, said⟩ := e.txByteTpdu_cases
  · rw [idle]
    exact h
  · have taken : Activated
        ((e.holdTxMsg msg.msgbPullU8.2 queue).uartTx msg.msgbPullU8.1).ch := by
      apply h.of_ready (by simp [st, CardState.operating])
      · exact ⟨rfl, rfl⟩
      · simp [holdTxMsg, st, cardEmuChReady, CardState.ready]
      · simp [holdTxMsg, st]
      · exact fun _ => h.busy st
    obtain ⟨decided, still⟩ := taken.afterProcedureByte st msg.txFlags
    obtain ⟨ended, ready⟩ := decided.afterMessage still msg.txFlags
    obtain ⟨_, last⟩ | ⟨_, more⟩ := said
    · rw [last]
      exact ended.of_ready (operating_of_ready ready) ⟨rfl, rfl⟩ ready ended.idle ended.busy
    · rw [more]
      exact decided

theorem txByte {e : Emu} (h : Activated e.ch) : Activated e.cardEmuTxByte.1.ch := by
  unfold Emu.cardEmuTxByte
  cases st : e.ch.state with
  | inAtr => exact h.txByteAtr
  | inPts => exact h.txBytePts st
  | inTpdu => exact h.txByteTpdu st
  | waitPower | waitClk | waitRst | waitAtr | waitTpdu => exact h

theorem setAtr {e : Emu} (h : Activated e.ch) (atr : List UInt8) :
    Activated (e.cardEmuSetAtr atr).ch := by
  unfold Emu.cardEmuSetAtr
  split
  · exact h
  · exact h.of_same ⟨rfl, rfl⟩ ⟨rfl, rfl⟩ ⟨rfl, rfl, rfl⟩

theorem wtimeHalfExpired {e : Emu} (h : Activated e.ch) :
    Activated e.cardEmuWtimeHalfExpired.ch := by
  unfold Emu.cardEmuWtimeHalfExpired
  split <;> exact h

theorem wtimeExpired {e : Emu} (h : Activated e.ch) : Activated e.cardEmuWtimeExpired.ch := by
  unfold Emu.cardEmuWtimeExpired
  split
  · rename_i st
    have lines := h.powered (by simp [st, CardState.operating])
    have empty := h.drained (by simp [cardEmuChReady, st, CardState.ready])
    constructor <;> simp [lines, empty]
  · exact h

theorem dispatchTxData {e : Emu} (h : Activated e.ch) (msg : Msgb) :
    Activated (CardemInst.dispatchTxData e msg).ch := by
  unfold CardemInst.dispatchTxData
  split
  · exact h
  · rename_i ready
    have ready : e.ch.state.ready = true := by simpa [cardEmuChReady] using ready
    have queued : Activated { e with ch.uartTxQueue := e.ch.uartTxQueue ++ [msg] }.ch :=
      h.of_ready (operating_of_ready ready) ⟨rfl, rfl⟩ ready h.idle h.busy
    unfold Emu.cardEmuHaveNewUartTx
    split <;> exact queued

theorem setConfig {ci : CardemInst} (h : Activated ci.emu.ch) (scfg : Nat → UInt8) (scfgLen : Nat)
    (alloc : Alloc) : Activated (ci.cardEmuSetConfig scfg scfgLen alloc).emu.ch := by
  obtain ⟨features, slotMuxNr, presencePol, set⟩ := ci.cardEmuSetConfig_emu scfg scfgLen alloc
  rw [set]
  cases alloc <;> exact h.of_same ⟨rfl, rfl⟩ ⟨rfl, rfl⟩ ⟨rfl, rfl, rfl⟩

theorem dispatch {ci : CardemInst} (h : Activated ci.emu.ch) (msg : Msgb) (alloc : Alloc) :
    Activated (ci.dispatchUsbCommandCardem msg alloc).emu.ch := by
  unfold CardemInst.dispatchUsbCommandCardem
  split_ifs
  · exact h.dispatchTxData msg
  · exact h.setAtr _
  · change Activated (ci.processCardInsert _).emu.ch
    rw [CardemInst.processCardInsert_emu]
    exact h
  · exact h.reportStatus false alloc
  · exact h.setConfig _ _ alloc
  · exact h

theorem step {ci : CardemInst} (h : Activated ci.emu.ch) (input : CardInput) :
    Activated (ci.step input).emu.ch := by
  cases input with
  | ioStatechg io active alloc => exact h.ioStatechg io active alloc
  | processRxByte byte alloc => exact h.processRxByte byte alloc
  | txByte => exact h.txByte
  | wtimeExpired => exact h.wtimeExpired
  | wtimeHalfExpired => exact h.wtimeHalfExpired
  | setAtr atr => exact h.setAtr atr
  | dispatch msg alloc => exact h.dispatch msg alloc

theorem init (slotNum inEp irqEp : Nat) (vccActive inReset clocked : Bool) (uart : Uart)
    (usb : List UsbMsg) (freed : List Nat) :
    Activated (cardEmuInit slotNum inEp irqEp vccActive inReset clocked uart usb freed).ch := by
  apply of_inactive <;> simp [cardEmuInit, CardState.operating]

end Activated

theorem endActivation_operating (e : Emu) (vcc : e.endActivation.ch.vccActive = true)
    (clk : e.endActivation.ch.clocked = true) (rst : e.endActivation.ch.inReset = false) :
    e.endActivation.ch.state.operating = true := by
  by_cases starts : (e.ch.vccActive && e.ch.clocked && !e.ch.inReset) = true
  · unfold Emu.endActivation
    cases st : e.ch.state <;> simp [starts, CardState.operating, st]
  · have same : e.endActivation = e := by
      unfold Emu.endActivation
      split <;> simp [starts]
    rw [same] at vcc clk rst
    simp [vcc, clk, rst] at starts

theorem ioStatechg_ch (e : Emu) (io : CardIo) (active : Bool) (alloc : Alloc) :
    (e.cardEmuIoStatechg io active alloc).ch = (e.ioEdge io active).1.endActivation.ch := by
  cases alloc <;> simp only [Emu.cardEmuIoStatechg, Emu.cardEmuReportStatus] <;> split <;> rfl

/-- Over every run of the card: an operating card is powered and out of reset, no
activation is missed at the end of an edge, only a ready card holds buffers, and
the TPDU state is at CLA between TPDUs and nowhere else. -/
theorem activation_invariant (slotNum inEp irqEp : Nat) (vccActive inReset clocked : Bool)
    (uart : Uart) (usb : List UsbMsg) (freed : List Nat) (pinInsert : PinInsert) (inverted : Bool)
    (mux : Option UInt8) (inputs : List CardInput) :
    let start := cardEmuInit slotNum inEp irqEp vccActive inReset clocked uart usb freed
    let ci := run CardemInst.step ⟨start, pinInsert, inverted, mux⟩ inputs
    let ch := ci.emu.ch
    (ch.state ∈ [.waitAtr, .inAtr, .inPts, .waitTpdu, .inTpdu] →
        ch.vccActive = true ∧ ch.inReset = false) ∧
      (∀ io active alloc, let after := (ci.step (.ioStatechg io active alloc)).emu.ch
        after.vccActive = true → after.clocked = true → after.inReset = false →
          after.state ∉ [.waitPower, .waitClk, .waitRst]) ∧
      (cardEmuChReady ch = false →
        ch.uartTxMsg = none ∧ ch.uartRxMsg = none ∧ ch.uartTxQueue = []) ∧
      (ch.state = .waitTpdu → ch.tpdu.state = .waitCla) ∧
      (ch.state = .inTpdu → ch.tpdu.state ≠ .waitCla) := by
  intro start ci ch
  have inv : Activated ch :=
    run_invariant (fun ci : CardemInst => Activated ci.emu.ch) (fun _ input h => h.step input)
      (Activated.init ..) inputs
  refine ⟨fun st => inv.powered ?_, ?_, inv.drained, inv.idle, inv.busy⟩
  · cases now : ch.state <;> simp_all [CardState.operating]
  · intro io active alloc after vcc clk rst
    have same : after = (ci.emu.ioEdge io active).1.endActivation.ch := ioStatechg_ch ..
    have on : after.state.operating = true := by
      rw [same] at vcc clk rst ⊢
      exact endActivation_operating _ vcc clk rst
    cases now : after.state <;> simp_all [CardState.operating]

end Simtrace2
