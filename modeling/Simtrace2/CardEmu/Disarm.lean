import Simtrace2.CardEmu.Direction

/-! The waiting time that the card has last given to its UART: none between two TPDUs, and
that of the card in a TPDU. It is taken away by the change to the sub-state WAIT_CLA, which
is no change where the sub-state was WAIT_CLA already. -/
namespace Simtrace2
open Lib Emu

/-- The timer is off while the card waits for a TPDU, and set in one. -/
structure Emu.Armed (e : Emu) : Prop where
  off : e.ch.state = .waitTpdu → e.uart.wt = 0
  on : e.ch.state = .inTpdu → e.uart.wt = e.ch.waitingTime

namespace CardemInst

/-- The interrupt behind the last byte of the ATR. -/
def endsAtr (ci : CardemInst) : CardInput → Bool
  | .txByte => ci.emu.ch.state = .inAtr ∧ ci.emu.ch.atr.len ≤ ci.emu.ch.atr.idx
  | _ => false

def beginsTpdu (ci : CardemInst) : CardInput → Bool
  | .processRxByte byte _ => ci.emu.ch.state = .waitTpdu ∧ byte ≠ 0xff
  | _ => false

/-- Whether the timer is off between TPDUs after the step: so it is once a TPDU has begun,
and after an ATR that finds the sub-state changed. -/
def disarms (ci : CardemInst) (off : Bool) (i : CardInput) : Bool :=
  if ci.endsAtr i then ci.emu.ch.tpdu.state != .waitCla else ci.beginsTpdu i || off

def disarmed (ci : CardemInst) (off : Bool) : List CardInput → Bool
  | [] => off
  | i :: is => (ci.step i).disarmed (ci.disarms off i) is

end CardemInst

/-- What the timer holds in the states from the ATR on. -/
structure Timed (off : Bool) (e : Emu) : Prop where
  atr : e.ch.state = .inAtr → e.uart.wt = iso78163InitWtime
  between : e.ch.state = .waitTpdu ∨ e.ch.state = .inPts →
    e.uart.wt = if off then 0 else iso78163InitWtime
  pts : e.ch.state = .inPts → e.ch.tpdu.state = .waitCla
  tpdu : e.ch.state = .inTpdu → e.uart.wt = e.ch.waitingTime ∧ off = true

theorem cardSetState_waitTpdu_wt (e : Emu) (moves : e.ch.state ≠ .waitTpdu) :
    (e.cardSetState .waitTpdu).uart.wt = if e.ch.tpdu.state = .waitCla then e.uart.wt else 0 := by
  rw [cardSetState, if_neg moves]
  by_cases same : e.ch.tpdu.state = .waitCla
  · simp [setTpduState, same, uartEnable]
  · simp [setTpduState, same, uartEnable, uartUpdateWt]

/-- The sub-states of a TPDU set the waiting time again, or leave it. -/
theorem setTpduState_wt {e : Emu} (set : e.uart.wt = e.ch.waitingTime) {ts : TpduState}
    (goes : ts ≠ .waitCla) : (e.setTpduState ts).uart.wt = e.ch.waitingTime := by
  unfold setTpduState
  split
  · exact set
  · cases ts with
    | waitCla => exact absurd rfl goes
    | waitIns | waitRx | waitPb | waitTx => rfl
    | waitP1 | waitP2 | waitP3 => exact set

theorem processByteTpdu_wt {e : Emu} (set : e.ch.tpdu.state ≠ .waitCla → e.uart.wt = e.ch.waitingTime)
    (byte : UInt8) (alloc : Alloc) :
    (e.processByteTpdu byte alloc).1.uart.wt = e.ch.waitingTime := by
  cases st : e.ch.tpdu.state with
  | waitCla => simp [processByteTpdu, st, setTpduState, nextTpduState, uartUpdateWt]
  | waitIns | waitP1 | waitP2 =>
    simp only [processByteTpdu, st, nextTpduState]
    refine setTpduState_wt ?_ ?_
    · exact set (by rw [st]; decide)
    · decide
  | waitP3 =>
    simp only [processByteTpdu, st, nextTpduState, sendTpduHeader_uart]
    refine setTpduState_wt ?_ ?_
    · exact set (by rw [st]; decide)
    · decide
  | waitPb | waitTx =>
    simp only [processByteTpdu, st]
    exact set (by rw [st]; decide)
  | waitRx =>
    have armed := set (by rw [st]; decide)
    simp only [processByteTpdu, st]
    unfold addTpduByte
    split
    · exact armed
    · rename_i msg _
      unfold checkRxBuffer
      split
      · rw [setTpduState_wt] <;> simp [holdRxMsg, armed]
      · split <;> simp [holdRxMsg, armed]

theorem emuUpdateFidi_wt (e : Emu) : e.emuUpdateFidi.uart.wt = e.uart.wt := by
  unfold emuUpdateFidi
  split
  · split <;> rfl
  · rfl

/-- A byte of the card leaves the TPDU open. -/
theorem saidByte_busy {e : Emu} (act : Activated e.ch) (st : e.ch.state = .inTpdu) (msg : Msgb)
    (queue : List Msgb) :
    (e.saidByte msg queue).ch.state = .inTpdu ∧ (e.saidByte msg queue).ch.tpdu.state ≠ .waitCla := by
  have busy := act.busy st
  unfold saidByte
  rcases afterProcedureByte_cases
    ((e.holdTxMsg msg.msgbPullU8.2 queue).uartTx msg.msgbPullU8.1) msg.txFlags with next | next | next
  · rw [next, setTpduState_ch]
    exact ⟨st, by simp⟩
  · rw [next, setTpduState_ch]
    exact ⟨st, by simp⟩
  · rw [next]
    exact ⟨st, busy⟩

theorem endsAtr_state {ci : CardemInst} {i : CardInput} (ends : ci.endsAtr i = true) :
    (ci.step i).emu.ch.state = .waitTpdu := by
  cases i with
  | txByte =>
    simp only [CardemInst.endsAtr, decide_eq_true_eq] at ends
    obtain ⟨st, last⟩ := ends
    simp [CardemInst.step, cardEmuTxByte, st, Emu.txByteAtr, Nat.not_lt.mpr last]
  | _ => cases ends

theorem CardemInst.disarms_true {ci : CardemInst} {i : CardInput}
    (changed : ci.endsAtr i = true → ci.emu.ch.tpdu.state ≠ .waitCla) :
    ci.disarms true i = true := by
  unfold disarms
  split
  · rename_i ends
    simpa using changed ends
  · simp

namespace Timed
variable {off : Bool} {e f : Emu}

theorem armed_iff (h : Timed off e) : e.Armed ↔ (e.ch.state = .waitTpdu → off = true) := by
  constructor
  · intro armed st
    have wt := h.between (Or.inl st)
    rw [armed.off st] at wt
    cases off with
    | true => rfl
    | false => exact absurd wt (by decide)
  · intro disarmed
    constructor
    · intro st
      rw [h.between (Or.inl st), disarmed st]
      rfl
    · intro st
      exact (h.tpdu st).1

theorem of_inactive (st : e.ch.state ∈ [.waitPower, .waitClk, .waitRst, .waitAtr]) : Timed off e := by
  constructor
  · intro now
    simp [now] at st
  · rintro (now | now) <;> simp [now] at st
  · intro now
    simp [now] at st
  · intro now
    simp [now] at st

theorem of_same (h : Timed off e)
    (states : f.ch.state = e.ch.state ∧ f.ch.tpdu.state = e.ch.tpdu.state)
    (times : f.uart.wt = e.uart.wt ∧ f.ch.waitingTime = e.ch.waitingTime) : Timed off f := by
  obtain ⟨atr, between, pts, tpdu⟩ := h
  constructor <;> simpa only [states, times]

theorem ioStatechg (h : Timed off e) (io : CardIo) (active : Bool) (alloc : Alloc) :
    Timed off (e.cardEmuIoStatechg io active alloc) := by
  rcases e.ioStatechg_cases io active alloc with st | ⟨uart, vcc, rst, clk, ch⟩
  · exact of_inactive st
  · apply h.of_same <;> simp [uart, ch]

/-- Back from an exchange that has left the sub-state at WAIT_CLA. -/
theorem toWaitTpdu (h : Timed off e) (st : e.ch.state = .inPts) :
    Timed off (e.cardSetState .waitTpdu) := by
  have moves : e.ch.state ≠ .waitTpdu := by
    rw [st]
    decide
  constructor
  · intro now
    simp at now
  · intro _
    rw [cardSetState_waitTpdu_wt e moves, if_pos (h.pts st)]
    exact h.between (Or.inr st)
  · intro now
    simp at now
  · intro now
    simp at now

theorem afterPts (h : Timed off e)
    (st : e.ch.state = .inPts ∨ e.ch.state = .waitTpdu ∧ e.ch.pts.state = ⟨false, .ptss⟩)
    (idle : e.ch.tpdu.state = .waitCla) (byte : UInt8) (alloc : Alloc) :
    Timed off (e.afterPtsByte byte alloc) := by
  unfold afterPtsByte
  have wt : (e.processBytePts byte alloc).1.uart.wt = e.uart.wt := by
    simp only [processBytePts]
    split
    · rfl
    · split
      · cases alloc <;> rfl
      · rfl
  have kept : Timed off (e.processBytePts byte alloc).1 := by
    refine h.of_same ?_ ⟨wt, ?_⟩
    · rw [processBytePts_ch]
      exact ⟨rfl, rfl⟩
    · rw [processBytePts_ch]
  have still : (e.processBytePts byte alloc).1.ch.state = e.ch.state := by rw [processBytePts_ch]
  rcases e.processBytePts_cases byte alloc with ⟨res, _⟩ | ⟨res, last, _⟩ | ⟨res, _⟩
  · simp only [res]
    rcases st with st | ⟨st, _⟩
    · exact kept.toWaitTpdu (still.trans st)
    · rwa [cardSetState, if_pos (still.trans st)]
  · simp only [res]
    exact kept
  · simp only [res, cardSetState_quiet _ (.inl rfl)]
    have between : e.uart.wt = if off then 0 else iso78163InitWtime := by
      rcases st with st | ⟨st, _⟩
      · exact h.between (Or.inr st)
      · exact h.between (Or.inl st)
    constructor
    · intro now
      cases now
    · intro _
      exact wt.trans between
    · intro _
      show (e.processBytePts byte alloc).1.ch.tpdu.state = .waitCla
      rw [processBytePts_ch]
      exact idle
    · intro now
      cases now

/-- A byte of a TPDU sets the waiting time, or keeps it. -/
theorem afterTpdu (byte : UInt8) (alloc : Alloc)
    (set : e.ch.tpdu.state ≠ .waitCla → e.uart.wt = e.ch.waitingTime) :
    Timed true (e.afterTpduByte byte alloc) := by
  unfold afterTpduByte
  rw [cardSetState_quiet _ (.inr rfl)]
  constructor
  · intro now
    cases now
  · rintro (now | now) <;> cases now
  · intro now
    cases now
  · intro _
    refine ⟨?_, rfl⟩
    show (e.processByteTpdu byte alloc).1.uart.wt = (e.processByteTpdu byte alloc).1.ch.waitingTime
    rw [processByteTpdu_wt set, processByteTpdu_ch]

theorem processRxByte (h : Timed off e) (act : Activated e.ch) (byte : UInt8) (alloc : Alloc) :
    Timed (decide (e.ch.state = .waitTpdu ∧ byte ≠ 0xff) || off)
      (e.cardEmuProcessRxByte byte alloc) := by
  obtain ⟨st, pps, call⟩ | ⟨st, pps, call⟩ | ⟨st, call⟩ | ⟨st, call⟩ | ⟨st, call⟩ :=
    e.processRxByte_cases byte alloc <;> rw [call]
  · have begun : Timed off (e.setPtsState ⟨false, .ptss⟩) := h.of_same ⟨rfl, rfl⟩ ⟨rfl, rfl⟩
    have first : (e.setPtsState ⟨false, .ptss⟩).ch.state = .waitTpdu := st
    have none : decide (e.ch.state = .waitTpdu ∧ byte ≠ 0xff) = false := by simp [pps]
    rw [none, Bool.false_or]
    exact begun.afterPts (Or.inr ⟨first, rfl⟩) (act.idle st) byte alloc
  · rw [decide_eq_true ⟨st, pps⟩, Bool.true_or]
    apply afterTpdu
    intro busy
    exact absurd (act.idle st) busy
  · obtain ⟨wt, was⟩ := h.tpdu st
    rw [was, Bool.or_true]
    apply afterTpdu
    intro _
    exact wt
  · simp only [st, reduceCtorEq, false_and, decide_false, Bool.false_or]
    exact h.afterPts (Or.inl st) (h.pts st) byte alloc
  · have other : e.ch.state ≠ .waitTpdu := fun same => st (by simp [same])
    simpa [other] using h

/-- The end of the ATR leaves its waiting time where the sub-state is WAIT_CLA already. -/
theorem txByteAtr (h : Timed off e) (st : e.ch.state = .inAtr) :
    Timed (if e.ch.atr.len ≤ e.ch.atr.idx then e.ch.tpdu.state != .waitCla else off)
      e.txByteAtr.1 := by
  unfold Emu.txByteAtr
  rw [if_neg (not_not.mpr st)]
  by_cases more : e.ch.atr.idx < e.ch.atr.len
  · rw [if_pos more, if_neg (Nat.not_le.mpr more)]
    exact h.of_same ⟨rfl, rfl⟩ ⟨rfl, rfl⟩
  · rw [if_neg more, if_pos (Nat.not_lt.mp more)]
    have wt := h.atr st
    have moves : ({ e with ch.wi := e.ch.atr.searchWi }.emuUpdateWt).ch.state ≠ .waitTpdu := by
      simp [emuUpdateWt, st]
    constructor
    · intro now
      simp at now
    · intro _
      rw [cardSetState_waitTpdu_wt _ moves]
      simp only [emuUpdateWt, wt, bne_iff_ne, ne_eq]
      split <;> simp_all
    · intro now
      simp at now
    · intro now
      simp at now

theorem finishPts (h : Timed off e) (st : e.ch.state = .inPts) : Timed off e.finishPts := by
  have same : e.emuUpdateFidi.emuUpdateWt.ch.tpdu.state = e.ch.tpdu.state ∧
      e.emuUpdateFidi.emuUpdateWt.uart.wt = e.uart.wt := by
    simp only [emuUpdateWt, emuUpdateFidi_ch, true_and]
    exact emuUpdateFidi_wt e
  have moves : e.emuUpdateFidi.emuUpdateWt.ch.state ≠ .waitTpdu := by
    simp [emuUpdateWt, st]
  constructor
  · intro now
    simp [Emu.finishPts, setPtsState] at now
  · intro _
    have left := cardSetState_waitTpdu_wt _ moves
    rw [same.1, same.2, if_pos (h.pts st), h.between (Or.inr st)] at left
    exact left
  · intro now
    simp [Emu.finishPts, setPtsState] at now
  · intro now
    simp [Emu.finishPts, setPtsState] at now

theorem txBytePts (h : Timed off e) (st : e.ch.state = .inPts) : Timed off e.txBytePts.1 := by
  simp only [Emu.txBytePts]
  split
  · have taken : Timed off ((e.takePts1 (e.ch.pts.resp.get e.ch.pts.state.sstate)).uartTx
        (e.ch.pts.resp.get e.ch.pts.state.sstate)) := by
      apply h.of_same <;> unfold takePts1 <;> split <;> exact ⟨rfl, rfl⟩
    split
    · apply taken.finishPts
      rw [uartTx_ch, takePts1_ch]
      exact st
    · exact taken.of_same ⟨rfl, rfl⟩ ⟨rfl, rfl⟩
  · exact h

/-- A change of direction in a TPDU sets the same waiting time again. -/
theorem setTpduState (h : Timed off e) (st : e.ch.state = .inTpdu) {ts : TpduState}
    (goes : ts ≠ .waitCla) : Timed off (e.setTpduState ts) := by
  obtain ⟨wt, was⟩ := h.tpdu st
  constructor
  · intro now
    rw [setTpduState_ch] at now
    rw [st] at now
    cases now
  · intro now
    rw [setTpduState_ch, st] at now
    simp at now
  · intro now
    rw [setTpduState_ch] at now
    rw [st] at now
    cases now
  · intro _
    refine ⟨?_, was⟩
    rw [setTpduState_wt wt goes, setTpduState_ch]

theorem afterProcedureByte (h : Timed off e) (st : e.ch.state = .inTpdu) (flags : UInt32) :
    Timed off (e.afterProcedureByte flags) := by
  rcases e.afterProcedureByte_cases flags with next | next | next
  · rw [next]
    exact h.setTpduState st (by decide)
  · rw [next]
    exact h.setTpduState st (by decide)
  · rw [next]
    exact h

/-- The end of a TPDU finds another sub-state, and turns the timer off. -/
theorem afterMessage (h : Timed off e) (st : e.ch.state = .inTpdu)
    (busy : e.ch.tpdu.state ≠ .waitCla) (flags : UInt32) : Timed off (e.afterMessage flags) := by
  rcases e.afterMessage_cases flags with next | next | next
  · rw [next]
    exact h.setTpduState st (by decide)
  · have moves : e.ch.state ≠ .waitTpdu := by
      rw [st]
      decide
    rw [next]
    constructor
    · intro now
      simp at now
    · intro _
      rw [cardSetState_waitTpdu_wt e moves, if_neg busy, (h.tpdu st).2]
      rfl
    · intro now
      simp at now
    · intro now
      simp at now
  · rw [next]
    exact h

theorem txByteTpdu (h : Timed off e) (act : Activated e.ch) (st : e.ch.state = .inTpdu) :
    Timed off e.txByteTpdu.1 := by
  obtain ⟨_, idle⟩ | ⟨msg, queue, _, said⟩ := e.txByteTpdu_cases
  · rw [idle]
    exact h
  · have taken : Timed off ((e.holdTxMsg msg.msgbPullU8.2 queue).uartTx msg.msgbPullU8.1) :=
      h.of_same ⟨rfl, rfl⟩ ⟨rfl, rfl⟩
    have decided : Timed off (e.saidByte msg queue) := taken.afterProcedureByte st msg.txFlags
    obtain ⟨_, last⟩ | ⟨_, more⟩ := said
    · obtain ⟨still, busy⟩ := saidByte_busy act st msg queue
      rw [last]
      exact (decided.afterMessage still busy msg.txFlags).of_same ⟨rfl, rfl⟩ ⟨rfl, rfl⟩
    · rw [more]
      exact decided

theorem wtimeExpired (h : Timed off e) : Timed off e.cardEmuWtimeExpired := by
  unfold Emu.cardEmuWtimeExpired
  cases st : e.ch.state with
  | waitAtr =>
    constructor
    · intro _
      simp [cardSetState, st, uartUpdateWt, uartEnable, uartInterrupt]
    · intro now
      simp at now
    · intro now
      simp at now
    · intro now
      simp at now
  | _ => exact h

theorem wtimeHalfExpired (h : Timed off e) : Timed off e.cardEmuWtimeHalfExpired := by
  unfold Emu.cardEmuWtimeHalfExpired
  split
  · exact h.of_same ⟨rfl, rfl⟩ ⟨rfl, rfl⟩
  · exact h.of_same ⟨rfl, rfl⟩ ⟨rfl, rfl⟩
  · exact h

theorem setAtr (h : Timed off e) (atr : List UInt8) : Timed off (e.cardEmuSetAtr atr) := by
  unfold Emu.cardEmuSetAtr
  split
  · exact h
  · exact h.of_same ⟨rfl, rfl⟩ ⟨rfl, rfl⟩

theorem reportStatus (h : Timed off e) (irq : Bool) (alloc : Alloc) :
    Timed off (e.cardEmuReportStatus irq alloc) := by
  cases alloc <;> exact h.of_same ⟨rfl, rfl⟩ ⟨rfl, rfl⟩

theorem usbBufFree (h : Timed off e) (tag : Nat) : Timed off (e.usbBufFree tag) :=
  h.of_same ⟨rfl, rfl⟩ ⟨rfl, rfl⟩

theorem dispatchTxData (h : Timed off e) (msg : Msgb) :
    Timed off (CardemInst.dispatchTxData e msg) := by
  unfold CardemInst.dispatchTxData
  split
  · exact h.usbBufFree _
  · unfold Emu.cardEmuHaveNewUartTx
    split <;> exact h.of_same ⟨rfl, rfl⟩ ⟨rfl, rfl⟩

theorem setConfig {ci : CardemInst} (h : Timed off ci.emu) (scfg : Nat → UInt8) (scfgLen : Nat)
    (alloc : Alloc) : Timed off (ci.cardEmuSetConfig scfg scfgLen alloc).emu := by
  obtain ⟨features, slotMuxNr, presencePol, set⟩ := ci.cardEmuSetConfig_emu scfg scfgLen alloc
  rw [set]
  cases alloc <;> exact h.of_same ⟨rfl, rfl⟩ ⟨rfl, rfl⟩

theorem dispatch {ci : CardemInst} (h : Timed off ci.emu) (msg : Msgb) (alloc : Alloc) :
    Timed off (ci.dispatchUsbCommandCardem msg alloc).emu := by
  unfold CardemInst.dispatchUsbCommandCardem
  split_ifs
  · exact h.dispatchTxData msg
  · exact (h.setAtr _).usbBufFree _
  · change Timed off ((ci.processCardInsert _).emu.usbBufFree msg.tag)
    rw [CardemInst.processCardInsert_emu]
    exact h.usbBufFree _
  · exact (h.reportStatus false alloc).usbBufFree _
  · exact (h.setConfig _ _ alloc).usbBufFree _
  · exact h.usbBufFree _

theorem txByte (h : Timed off e) (act : Activated e.ch) :
    Timed (if e.ch.state = .inAtr ∧ e.ch.atr.len ≤ e.ch.atr.idx then e.ch.tpdu.state != .waitCla
      else off) e.cardEmuTxByte.1 := by
  unfold Emu.cardEmuTxByte
  cases st : e.ch.state with
  | inAtr => simpa using h.txByteAtr st
  | inPts => simpa using h.txBytePts st
  | inTpdu => simpa using h.txByteTpdu act st
  | waitPower | waitClk | waitRst | waitAtr | waitTpdu => simpa using h

theorem step {ci : CardemInst} (h : Timed off ci.emu) (act : Activated ci.emu.ch)
    (i : CardInput) : Timed (ci.disarms off i) (ci.step i).emu := by
  cases i with
  | ioStatechg io active alloc => exact h.ioStatechg io active alloc
  | processRxByte byte alloc => exact h.processRxByte act byte alloc
  | txByte =>
    show Timed _ ci.emu.cardEmuTxByte.1
    simpa [CardemInst.disarms, CardemInst.endsAtr, CardemInst.beginsTpdu] using h.txByte act
  | wtimeExpired => exact h.wtimeExpired
  | wtimeHalfExpired => exact h.wtimeHalfExpired
  | setAtr atr => exact h.setAtr atr
  | dispatch msg alloc => exact h.dispatch msg alloc

theorem run {ci : CardemInst} (h : Timed off ci.emu) (act : Activated ci.emu.ch)
    (is : List CardInput) : Timed (ci.disarmed off is) (Lib.run CardemInst.step ci is).emu := by
  induction is generalizing ci off with
  | nil => exact h
  | cons i is ih => exact ih (h.step act i) (act.step i)

theorem init (slotNum inEp irqEp : Nat) (vccActive inReset clocked : Bool) (uart : Uart)
    (usb : List UsbMsg) (freed : List Nat) :
    Timed true (cardEmuInit slotNum inEp irqEp vccActive inReset clocked uart usb freed) := by
  apply of_inactive
  simp [cardEmuInit]

/-- An ATR that ends with the sub-state at WAIT_CLA leaves the timer running. -/
theorem armed_atr {ci : CardemInst} (h : Timed off ci.emu) {i : CardInput}
    (ends : ci.endsAtr i = true) (act : Activated ci.emu.ch) :
    (ci.step i).emu.Armed → ci.emu.ch.tpdu.state ≠ .waitCla := by
  intro armed
  have disarmed := (h.step act i).armed_iff.mp armed (endsAtr_state ends)
  simpa [CardemInst.disarms, ends] using disarmed

end Timed

/-- The timer is armed as the state asks in all of a run exactly where no ATR of it ends with
the sub-state at WAIT_CLA; and at the end of any run, exactly where a TPDU has begun since
such an ATR, if the card waits for one. -/
theorem timer_armed_iff (slotNum inEp irqEp : Nat) (vccActive inReset clocked : Bool)
    (uart : Uart) (usb : List UsbMsg) (freed : List Nat) (pinInsert : PinInsert) (inverted : Bool)
    (mux : Option UInt8) (inputs : List CardInput) :
    let emu := cardEmuInit slotNum inEp irqEp vccActive inReset clocked uart usb freed
    let start : CardemInst := ⟨emu, pinInsert, inverted, mux⟩
    (Always CardemInst.step (fun ci => ci.emu.Armed) start inputs ↔
        Meets CardemInst.step (fun ci i => ci.endsAtr i = true → ci.emu.ch.tpdu.state ≠ .waitCla)
          start inputs) ∧
      ((run CardemInst.step start inputs).emu.Armed ↔
        ((run CardemInst.step start inputs).emu.ch.state = .waitTpdu →
          start.disarmed true inputs = true)) := by
  intro emu start
  have timed : Timed true start.emu := Timed.init ..
  have act : Activated start.emu.ch := Activated.init ..
  constructor
  · apply always_iff_meets_of_shown
      (fun ci : CardemInst => Activated ci.emu.ch ∧ Timed true ci.emu)
    · rintro ci i ⟨act, timed⟩ changed
      refine ⟨act.step i, ?_⟩
      have next := timed.step act i
      rwa [CardemInst.disarms_true changed] at next
    · rintro ci ⟨_, timed⟩
      exact timed.armed_iff.mpr (fun _ => rfl)
    · rintro ci i ⟨act, timed⟩ armed ends
      exact timed.armed_atr ends act armed
    · exact ⟨act, timed⟩
  · exact (timed.run act inputs).armed_iff

/-- The first ATR after power-up, which finds the sub-state at WAIT_CLA: the card waits for a
TPDU with 9600 etu on the timer. -/
theorem timer_left_running :
    let start : CardemInst :=
      ⟨cardEmuInit 0 0x83 0x84 false true false ⟨.off, false, 0, none, []⟩ [] [],
        .untouched .absent, false, none⟩
    let inputs : List CardInput :=
      [.ioStatechg .vcc true none, .ioStatechg .clk true none, .ioStatechg .rst false none,
        .wtimeExpired] ++ List.replicate (defaultAtr.length + 1) .txByte
    let e := (run CardemInst.step start inputs).emu
    e.ch.state = .waitTpdu ∧ e.uart.wt = 9600 ∧
      ¬Always CardemInst.step (fun ci => ci.emu.Armed) start inputs := by
  intro start inputs e
  have st : e.ch.state = .waitTpdu := by decide +kernel
  have wt : e.uart.wt = 9600 := by decide +kernel
  refine ⟨st, wt, ?_⟩
  intro always
  have off := (always inputs (List.prefix_refl inputs)).off st
  rw [show (run CardemInst.step start inputs).emu.uart.wt = 9600 from wt] at off
  cases off

end Simtrace2
