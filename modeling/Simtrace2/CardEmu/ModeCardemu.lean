import Simtrace2.CardEmu.Api

/-! The main-loop side of card emulation: one instance of a card with its
presence pin, and the messages of the host dispatched to it. -/
namespace Simtrace2
open Lib

/-- What a board signals the presence of a card with: the function of a board with
`HAVE_BOARD_CARDINSERT`, the pin `pin_insert` of the instance, or nothing. -/
inductive InsertWiring where
  | board | pin | absent
deriving DecidableEq, Repr

/-- The presence signal of an instance. `level` is what its pin, or the board's function,
was last given, and `traced` what the console was last told. -/
structure PinInsert where
  wiring : InsertWiring
  level : Bool
  traced : Option Bool
deriving DecidableEq, Repr

/-- The signal before the first request of the host. -/
def PinInsert.untouched (wiring : InsertWiring) : PinInsert := { wiring, level := false, traced := none }

/-- `struct cardem_inst`, as far as the dispatch of host messages reads it, and `g_mux_slot` of a
board with `HAVE_SLOT_MUX`. -/
structure CardemInst where
  emu : Emu
  pinInsert : PinInsert
  pinInsertInverted : Bool
  gMuxSlot : Option UInt8

namespace CardemInst

/-- The TXRDY part of `usart_irq_rx`. -/
def usartIrqTx (ci : CardemInst) : CardemInst :=
  if ci.emu.uart.txrdy then
    let r := ci.emu.cardEmuTxByte
    { ci with emu := if r.2 then r.1 else r.1.uartTxrdyOff }
  else ci

def modeCardemuSetPresencePol (ci : CardemInst) (high : Bool) : CardemInst :=
  { ci with pinInsertInverted := !high }

def modeCardemuGetPresencePol (ci : CardemInst) : Bool := !ci.pinInsertInverted

def muxSetSlot (ci : CardemInst) (s : UInt8) : CardemInst :=
  if s > 7 then ci else { ci with gMuxSlot := ci.gMuxSlot.map fun _ => s }

/-- What a report shows: `mux_get_slot`, or 0 without a multiplexer. -/
def muxGetSlot (ci : CardemInst) : UInt8 := ci.gMuxSlot.getD 0

/-- `card_emu_set_config` on the bytes of `struct cardemu_usb_msg_config`: four of
`features`, one of `slot_mux_nr`, one of `pres_pol`. -/
def cardEmuSetConfig (ci : CardemInst) (scfg : Nat → UInt8) (scfgLen : Nat) (alloc : Alloc) :
    CardemInst :=
  let ci := if 4 ≤ scfgLen then
      let features := UInt32.ofNat (leValue (readAt scfg 0 4))
      { ci with emu.ch.features := features &&& supportedFeatures }
    else ci
  let ci := if 5 ≤ scfgLen then ci.muxSetSlot (scfg 4) else ci
  let ci := if 6 ≤ scfgLen ∧ hasBit (scfg 5) cemuConfigPresPolValid then
      ci.modeCardemuSetPresencePol (hasBit (scfg 5) cemuConfigPresPolPresH)
    else ci
  { ci with emu := ci.emu.cardEmuReportConfig ci.muxGetSlot ci.modeCardemuGetPresencePol alloc }

theorem muxSetSlot_emu (ci : CardemInst) (s : UInt8) : (ci.muxSetSlot s).emu = ci.emu := by
  unfold muxSetSlot
  split <;> rfl

/-- To the card a configuration is a change of its features and a report. -/
theorem cardEmuSetConfig_emu (ci : CardemInst) (scfg : Nat → UInt8) (scfgLen : Nat) (alloc : Alloc) :
    ∃ features slotMuxNr presencePol, (ci.cardEmuSetConfig scfg scfgLen alloc).emu =
      { ci.emu with ch.features := features }.cardEmuReportConfig slotMuxNr presencePol alloc := by
  let ci₁ : CardemInst := if 4 ≤ scfgLen then
      { ci with
        emu.ch.features := UInt32.ofNat (leValue (readAt scfg 0 4)) &&& supportedFeatures }
    else ci
  let ci₂ : CardemInst := if 5 ≤ scfgLen then ci₁.muxSetSlot (scfg 4) else ci₁
  have taken : ∃ features, ci₁.emu = { ci.emu with ch.features := features } := by
    unfold ci₁
    split
    · exact ⟨_, rfl⟩
    · exact ⟨ci.emu.ch.features, rfl⟩
  have same : ci₂.emu = ci₁.emu := by
    unfold ci₂
    split
    · exact muxSetSlot_emu _ _
    · rfl
  obtain ⟨features, taken⟩ := taken
  unfold cardEmuSetConfig
  refine ⟨features, _, _, congrArg (Emu.cardEmuReportConfig · _ _ alloc) ?_⟩
  rw [← taken, ← same]
  split <;> rfl

def boardSetCardInsert (ci : CardemInst) (cardInsert : Bool) : CardemInst :=
  { ci with pinInsert.level := cardInsert }

/-- The trace reads its argument on every board, with or without a presence pin. -/
def processCardInsert (ci : CardemInst) (cardInsert : Bool) : CardemInst :=
  let ci := { ci with pinInsert.traced := some cardInsert }
  match ci.pinInsert.wiring with
  | .board => ci.boardSetCardInsert (cardInsert ^^ ci.pinInsertInverted)
  | .pin => { ci with pinInsert.level := cardInsert ^^ ci.pinInsertInverted }
  | .absent => ci

theorem processCardInsert_emu (ci : CardemInst) (cardInsert : Bool) :
    (ci.processCardInsert cardInsert).emu = ci.emu := by
  cases wired : ci.pinInsert.wiring <;> simp [processCardInsert, boardSetCardInsert, wired]

theorem processCardInsert_traced (ci : CardemInst) (cardInsert : Bool) :
    (ci.processCardInsert cardInsert).pinInsert.traced = some cardInsert := by
  cases wired : ci.pinInsert.wiring <;> simp [processCardInsert, boardSetCardInsert, wired]

def dispatchTxData (e : Emu) (msg : Msgb) : Emu :=
  if !cardEmuChReady e.ch then e.usbBufFree msg.tag
  else { e with ch.uartTxQueue := e.ch.uartTxQueue ++ [msg] }.cardEmuHaveNewUartTx

def msgType (msg : Msgb) : UInt8 := msg.mem (msg.l1h + 1)

def dispatchUsbCommandCardem (ci : CardemInst) (msg : Msgb) (alloc : Alloc) : CardemInst :=
  let free (ci : CardemInst) : CardemInst := { ci with emu := ci.emu.usbBufFree msg.tag }
  if msgType msg = msgtDtCemuTxData then { ci with emu := dispatchTxData ci.emu msg }
  else if msgType msg = msgtDtCemuSetAtr then
    let atrLen := (msg.mem msg.l2h).toNat
    free { ci with emu := ci.emu.cardEmuSetAtr (readAt msg.mem (msg.l2h + 1) atrLen) }
  else if msgType msg = msgtDtCemuCardinsert then
    free (ci.processCardInsert (msg.mem msg.l2h != 0))
  else if msgType msg = msgtBdCemuStatus then
    free { ci with emu := ci.emu.cardEmuReportStatus false alloc }
  else if msgType msg = msgtBdCemuConfig then
    free (ci.cardEmuSetConfig (fun i => msg.mem (msg.l2h + i)) msg.msgbL2len alloc)
  else free ci

end CardemInst
end Simtrace2
