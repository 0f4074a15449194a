import Simtrace2.CardEmu.Direction

/-! The signals of a card slot: the levels of its pins, the flag that enables it, and
how the main loop passes them on to the card. -/
namespace Simtrace2
open Lib

/-- `struct cardem_inst` with the mirrors of its VCC and RST lines. -/
structure CardSlot where
  inst : CardemInst
  vccActive : Bool
  vccActiveLast : Bool
  rstActive : Bool
  rstActiveLast : Bool
  enabled : Bool

namespace CardSlot

abbrev ch (s : CardSlot) : CardHandle := s.inst.emu.ch

/-- The levels as the card is to see them: those of the pins, while the slot is enabled. -/
def vccLevel (s : CardSlot) : Bool := s.vccActive && s.enabled

def rstLevel (s : CardSlot) : Bool := s.rstActive && s.enabled

/-- The first half of `process_io_statechg`. The clock is taken to run with VCC. -/
def tellVcc (s : CardSlot) (vcc clk : Alloc) : CardSlot :=
  if s.vccLevel ≠ s.vccActiveLast then
    let emu := s.inst.emu.cardEmuIoStatechg .vcc s.vccLevel vcc
    let emu := emu.cardEmuIoStatechg .clk s.vccLevel clk
    { s with inst.emu := emu, vccActiveLast := s.vccLevel }
  else s

def tellRst (s : CardSlot) (rst : Alloc) : CardSlot :=
  if s.rstLevel ≠ s.rstActiveLast then
    let emu := s.inst.emu.cardEmuIoStatechg .rst s.rstLevel rst
    { s with inst.emu := emu, rstActiveLast := s.rstLevel }
  else s

def processIoStatechg (s : CardSlot) (vcc clk rst : Alloc) : CardSlot :=
  (s.tellVcc vcc clk).tellRst rst

/-- `mode_cardemu_init`: the card starts from the levels of the pins, the slot is not
enabled and its `*_last` flags are clear. -/
def modeCardemuInit (num epIn epInt : Nat) (vccActive rstActive : Bool) (uart : Uart)
    (pinInsert : PinInsert) (inverted : Bool) (mux : Option UInt8) : CardSlot :=
  { inst := {
      emu := cardEmuInit num epIn epInt vccActive rstActive vccActive uart [] []
      pinInsert, pinInsertInverted := inverted, gMuxSlot := mux }
    vccActive, vccActiveLast := false, rstActive, rstActiveLast := false, enabled := false }

def quietUart : Uart := { mode := .rx, txrdy := false, wt := 0, fidi := none, sent := [] }

/-- What happens to a slot between two calls of `process_io_statechg`, besides its pins
and `usb_command_sim_select`. -/
inductive Traffic where
  | rxByte (byte : UInt8) (alloc : Alloc)
  | irqTx
  | wtimeExpired
  | wtimeHalfExpired
  | dispatch (msg : Msgb) (alloc : Alloc)

def Traffic.input : Traffic → CardInput
  | rxByte byte alloc => .processRxByte byte alloc
  | irqTx => .txByte
  | wtimeExpired => .wtimeExpired
  | wtimeHalfExpired => .wtimeHalfExpired
  | dispatch msg alloc => .dispatch msg alloc

inductive Event where
  | vccPin (active : Bool)
  | rstPin (active : Bool)
  | simSelect (remoteSim : Bool)
  | ioStatechg (vcc clk rst : Alloc)
  | traffic (t : Traffic)

/-- A received byte reaches the card only while the slot is enabled. -/
def traffic (s : CardSlot) : Traffic → CardSlot
  | .rxByte byte alloc =>
    if s.enabled then { s with inst := s.inst.irqStep (.processRxByte byte alloc) } else s
  | t => { s with inst := s.inst.irqStep t.input }

def step (s : CardSlot) : Event → CardSlot
  | .vccPin active => { s with vccActive := active }
  | .rstPin active => { s with rstActive := active }
  | .simSelect remoteSim => { s with enabled := remoteSim }
  | .ioStatechg vcc clk rst => s.processIoStatechg vcc clk rst
  | .traffic t => s.traffic t

end CardSlot

def CardHandle.level (ch : CardHandle) : CardIo → Bool
  | .vcc => ch.vccActive
  | .clk => ch.clocked
  | .rst => ch.inReset

/-- The card is powered, clocked and out of reset. -/
def CardHandle.lit (ch : CardHandle) : Bool := ch.vccActive && ch.clocked && !ch.inReset

/-- The levels stay, and so does the state of a card that does not operate. -/
structure Unlifted (c d : CardHandle) : Prop where
  level : d.level = c.level
  state : d.state = c.state ∨ c.state.operating = true ∧ d.state.operating = true

namespace Unlifted
open Emu

theorem refl (c : CardHandle) : Unlifted c c := ⟨rfl, .inl rfl⟩

theorem of_same {c d : CardHandle} (level : d.level = c.level) (state : d.state = c.state) :
    Unlifted c d := ⟨level, .inl state⟩

theorem trans {c d f : CardHandle} (h : Unlifted c d) (h' : Unlifted d f) : Unlifted c f where
  level := h'.level.trans h.level
  state := by
    obtain same | ⟨on, on'⟩ := h'.state
    · rw [same]
      exact h.state
    · obtain same | ⟨before, _⟩ := h.state
      · exact .inr ⟨same ▸ on, on'⟩
      · exact .inr ⟨before, on'⟩

theorem operating {c d : CardHandle} (h : Unlifted c d) (on : c.state.operating = true) :
    d.state.operating = true := by
  obtain same | ⟨_, after⟩ := h.state
  · rwa [same]
  · exact after

theorem setState {e : Emu} (on : e.ch.state.operating = true) {st : CardState}
    (next : st.operating = true) : Unlifted e.ch (e.cardSetState st).ch where
  level := by
    obtain ⟨_, _, _, _, _, _, _, _, h⟩ := cardSetState_ch e st
    rw [h]
    rfl
  state := .inr ⟨on, by rwa [cardSetState_state]⟩

theorem setTpduState (e : Emu) (ts : TpduState) : Unlifted e.ch (e.setTpduState ts).ch := by
  rw [setTpduState_ch]
  exact of_same rfl rfl

theorem processBytePts (e : Emu) (byte : UInt8) (alloc : Alloc) :
    Unlifted e.ch (e.processBytePts byte alloc).1.ch := by
  rw [processBytePts_ch]
  exact of_same rfl rfl

theorem afterPts {e : Emu} (on : e.ch.state.operating = true) (byte : UInt8) (alloc : Alloc) :
    Unlifted e.ch (e.afterPtsByte byte alloc).ch := by
  unfold Emu.afterPtsByte
  have kept : (e.processBytePts byte alloc).1.ch.state.operating = true := by
    rw [processBytePts_ch]
    exact on
  have request := processBytePts e byte alloc
  obtain next | next | next := processBytePts_state e byte alloc
  · rw [next]
    exact request
  · rw [next]
    exact request.trans (setState kept rfl)
  · rw [next]
    exact request.trans (setState kept rfl)

theorem afterTpdu {e : Emu} (on : e.ch.state.operating = true) (byte : UInt8) (alloc : Alloc) :
    Unlifted e.ch (e.afterTpduByte byte alloc).ch := by
  have byteTaken : Unlifted e.ch (e.processByteTpdu byte alloc).1.ch := by
    rw [processByteTpdu_ch]
    exact of_same rfl rfl
  refine byteTaken.trans (setState ?_ rfl)
  rw [processByteTpdu_ch]
  exact on

theorem processRxByte (e : Emu) (byte : UInt8) (alloc : Alloc) :
    Unlifted e.ch (e.cardEmuProcessRxByte byte alloc).ch := by
  obtain ⟨st, _, call⟩ | ⟨st, _, call⟩ | ⟨st, call⟩ | ⟨st, call⟩ | ⟨_, call⟩ :=
    e.processRxByte_cases byte alloc <;> rw [call]
  · have begun : Unlifted e.ch (e.setPtsState ⟨false, .ptss⟩).ch := of_same rfl rfl
    exact begun.trans (afterPts (by simp [Emu.setPtsState, st, CardState.operating]) byte alloc)
  · exact afterTpdu (by simp [st, CardState.operating]) byte alloc
  · exact afterTpdu (by simp [st, CardState.operating]) byte alloc
  · exact afterPts (by simp [st, CardState.operating]) byte alloc
  · exact refl _

theorem txByteAtr (e : Emu) : Unlifted e.ch e.txByteAtr.1.ch := by
  unfold Emu.txByteAtr
  split
  · exact refl _
  · rename_i st
    split
    · exact of_same rfl rfl
    · have searched : Unlifted e.ch ({ e with ch.wi := e.ch.atr.searchWi }.emuUpdateWt).ch :=
        of_same rfl rfl
      refine searched.trans (setState ?_ rfl)
      have operating : e.ch.state.operating = true := by simp_all [CardState.operating]
      exact operating

theorem finishPts {e : Emu} (st : e.ch.state = .inPts) : Unlifted e.ch e.finishPts.ch := by
  have fidi : Unlifted e.ch e.emuUpdateFidi.ch := by
    rw [emuUpdateFidi_ch]
    exact refl _
  have effective : Unlifted e.ch e.emuUpdateFidi.emuUpdateWt.ch := fidi.trans (of_same rfl rfl)
  have on : e.emuUpdateFidi.emuUpdateWt.ch.state.operating = true :=
    effective.operating (by simp [st, CardState.operating])
  have waiting : Unlifted _ (e.emuUpdateFidi.emuUpdateWt.cardSetState .waitTpdu).ch := setState on rfl
  exact (effective.trans waiting).trans (of_same rfl rfl)

theorem txBytePts {e : Emu} (st : e.ch.state = .inPts) : Unlifted e.ch e.txBytePts.1.ch := by
  simp only [Emu.txBytePts]
  split
  · have taken : Unlifted e.ch ((e.takePts1 (e.ch.pts.resp.get e.ch.pts.state.sstate)).uartTx
        (e.ch.pts.resp.get e.ch.pts.state.sstate)).ch := by
      rw [uartTx_ch, takePts1_ch]
      exact of_same rfl rfl
    split
    · apply taken.trans
      apply finishPts
      rw [uartTx_ch, takePts1_ch]
      exact st
    · exact taken.trans (of_same rfl rfl)
  · exact refl _

theorem afterProcedureByte (e : Emu) (flags : UInt32) :
    Unlifted e.ch (e.afterProcedureByte flags).ch := by
  obtain next | next | next := e.afterProcedureByte_cases flags
  · rw [next]
    exact setTpduState e .waitTx
  · rw [next]
    exact setTpduState e .waitRx
  · rw [next]
    exact refl _

theorem afterMessage {e : Emu} (on : e.ch.state.operating = true) (flags : UInt32) :
    Unlifted e.ch (e.afterMessage flags).ch := by
  obtain next | next | next := e.afterMessage_cases flags
  · rw [next]
    exact setTpduState e .waitRx
  · rw [next]
    exact setState on rfl
  · rw [next]
    exact refl _

theorem txByteTpdu {e : Emu} (st : e.ch.state = .inTpdu) : Unlifted e.ch e.txByteTpdu.1.ch := by
  obtain ⟨_, idle⟩ | ⟨msg, queue, _, said⟩ := e.txByteTpdu_cases
  · rw [idle]
    exact refl _
  · have on : e.ch.state.operating = true := by simp [st, CardState.operating]
    have taken : Unlifted e.ch ((e.holdTxMsg msg.msgbPullU8.2 queue).uartTx msg.msgbPullU8.1).ch :=
      of_same rfl rfl
    have decided : Unlifted e.ch (e.saidByte msg queue).ch :=
      taken.trans (afterProcedureByte _ msg.txFlags)
    have ended := decided.trans (afterMessage (decided.operating on) msg.txFlags)
    obtain ⟨_, last⟩ | ⟨_, more⟩ := said
    · rw [last]
      exact ended.trans (of_same rfl rfl)
    · rw [more]
      exact decided

theorem txByte (e : Emu) : Unlifted e.ch e.cardEmuTxByte.1.ch := by
  unfold Emu.cardEmuTxByte
  cases st : e.ch.state with
  | inAtr => exact txByteAtr e
  | inPts => exact txBytePts st
  | inTpdu => exact txByteTpdu st
  | waitPower | waitClk | waitRst | waitAtr | waitTpdu => exact refl _

theorem wtimeHalfExpired (e : Emu) : Unlifted e.ch e.cardEmuWtimeHalfExpired.ch := by
  unfold Emu.cardEmuWtimeHalfExpired
  split <;> exact of_same rfl rfl

theorem wtimeExpired (e : Emu) : Unlifted e.ch e.cardEmuWtimeExpired.ch := by
  unfold Emu.cardEmuWtimeExpired
  split
  · rename_i st
    exact setState (by rw [st]; rfl) rfl
  · exact refl _

theorem setAtr (e : Emu) (atr : List UInt8) : Unlifted e.ch (e.cardEmuSetAtr atr).ch := by
  unfold Emu.cardEmuSetAtr
  split
  · exact refl _
  · exact of_same rfl rfl

theorem dispatchTxData (e : Emu) (msg : Msgb) :
    Unlifted e.ch (CardemInst.dispatchTxData e msg).ch := by
  unfold CardemInst.dispatchTxData
  split
  · exact refl _
  · unfold Emu.cardEmuHaveNewUartTx
    split <;> exact of_same rfl rfl

theorem setConfig (ci : CardemInst) (scfg : Nat → UInt8) (scfgLen : Nat) (alloc : Alloc) :
    Unlifted ci.emu.ch (ci.cardEmuSetConfig scfg scfgLen alloc).emu.ch := by
  obtain ⟨features, slotMuxNr, presencePol, set⟩ := ci.cardEmuSetConfig_emu scfg scfgLen alloc
  rw [set]
  cases alloc <;> exact of_same rfl rfl

theorem dispatch (ci : CardemInst) (msg : Msgb) (alloc : Alloc) :
    Unlifted ci.emu.ch (ci.dispatchUsbCommandCardem msg alloc).emu.ch := by
  unfold CardemInst.dispatchUsbCommandCardem
  split_ifs
  · exact dispatchTxData _ msg
  · exact setAtr _ _
  · change Unlifted ci.emu.ch (ci.processCardInsert _).emu.ch
    rw [CardemInst.processCardInsert_emu]
    exact refl _
  · cases alloc <;> exact of_same rfl rfl
  · exact setConfig ci _ _ alloc
  · exact refl _

theorem irqTx (ci : CardemInst) : Unlifted ci.emu.ch ci.usartIrqTx.emu.ch := by
  obtain same | same := ci.usartIrqTx_ch
  · rw [same]
    exact refl _
  · rw [same]
    exact txByte _

theorem traffic (s : CardSlot) (t : CardSlot.Traffic) : Unlifted s.ch (s.traffic t).ch := by
  cases t with
  | rxByte byte alloc =>
    simp only [CardSlot.traffic]
    split
    · exact processRxByte _ byte alloc
    · exact refl _
  | irqTx => exact irqTx s.inst
  | wtimeExpired => exact wtimeExpired _
  | wtimeHalfExpired => exact wtimeHalfExpired _
  | dispatch msg alloc => exact dispatch s.inst msg alloc

end Unlifted
namespace Emu

theorem ioEdge_config (e : Emu) (io : CardIo) (active : Bool) :
    (e.ioEdge io active).1.ch.features = e.ch.features ∧
      (e.ioEdge io active).1.ch.irqEp = e.ch.irqEp := by
  have set (e : Emu) (st : CardState) : (e.cardSetState st).ch.features = e.ch.features ∧
      (e.cardSetState st).ch.irqEp = e.ch.irqEp := by
    obtain ⟨_, _, _, _, _, _, _, _, h⟩ := cardSetState_ch e st
    rw [h]
    exact ⟨rfl, rfl⟩
  have reset : e.cardHandleReset.ch.features = e.ch.features ∧
      e.cardHandleReset.ch.irqEp = e.ch.irqEp := by
    rw [cardHandleReset_ch]
    exact ⟨rfl, rfl⟩
  cases io <;> simp only [ioEdge] <;> split_ifs <;> simp only [set, reset, and_self]

theorem endActivation_config (e : Emu) :
    e.endActivation.ch.features = e.ch.features ∧ e.endActivation.ch.irqEp = e.ch.irqEp := by
  obtain ⟨_, _, _, _, _, _, _, _, h⟩ := cardSetState_ch e .waitAtr
  unfold endActivation
  split
  case h_4 => exact ⟨rfl, rfl⟩
  all_goals
    split
    · rw [h]
      exact ⟨rfl, rfl⟩
    · exact ⟨rfl, rfl⟩

end Emu

end Simtrace2
