import Simtrace2.CardEmu.AtrPts
import Simtrace2.CardEmu.Tpdu

/-! The public entry points of the card emulation. -/
namespace Simtrace2
open Lib

inductive CardIo where
  | vcc | rst | clk
deriving DecidableEq, Repr

def supportedFeatures : UInt32 := cemuFeatFStatusIrq

def defaultAtr : List UInt8 := [0x3B, 0x80, 0x80, 0x81, 0x1F, 0xC7, 0x59]

namespace Emu

def cardEmuProcessRxByte (e : Emu) (byte : UInt8) (alloc : Alloc) : Emu :=
  let (e, newState) := match e.ch.state with
    | .waitTpdu =>
      if byte = 0xff then (e.setPtsState ⟨false, .ptss⟩).processBytePts byte alloc
      else (e.processByteTpdu byte alloc).map id some
    | .inTpdu => (e.processByteTpdu byte alloc).map id some
    | .inPts => e.processBytePts byte alloc
    | _ => (e, none)
  match newState with
  | some st => e.cardSetState st
  | none => e

/-- A byte of a PTS exchange, and the state that it calls for. -/
def afterPtsByte (e : Emu) (byte : UInt8) (alloc : Alloc) : Emu :=
  match (e.processBytePts byte alloc).2 with
  | some st => (e.processBytePts byte alloc).1.cardSetState st
  | none => (e.processBytePts byte alloc).1

def afterTpduByte (e : Emu) (byte : UInt8) (alloc : Alloc) : Emu :=
  (e.processByteTpdu byte alloc).1.cardSetState .inTpdu

/-- Where a byte from the reader goes. -/
theorem processRxByte_cases (e : Emu) (byte : UInt8) (alloc : Alloc) :
    (e.ch.state = .waitTpdu ∧ byte = 0xff ∧ e.cardEmuProcessRxByte byte alloc =
        (e.setPtsState ⟨false, .ptss⟩).afterPtsByte byte alloc) ∨
      (e.ch.state = .waitTpdu ∧ byte ≠ 0xff ∧
        e.cardEmuProcessRxByte byte alloc = e.afterTpduByte byte alloc) ∨
      (e.ch.state = .inTpdu ∧ e.cardEmuProcessRxByte byte alloc = e.afterTpduByte byte alloc) ∨
      (e.ch.state = .inPts ∧ e.cardEmuProcessRxByte byte alloc = e.afterPtsByte byte alloc) ∨
      (e.ch.state ∉ [.waitTpdu, .inTpdu, .inPts] ∧ e.cardEmuProcessRxByte byte alloc = e) := by
  unfold cardEmuProcessRxByte
  cases st : e.ch.state with
  | waitTpdu =>
    by_cases pps : byte = 0xff
    · exact .inl ⟨rfl, pps, by simp only [if_pos pps]; rfl⟩
    · exact .inr (.inl ⟨rfl, pps, by simp only [if_neg pps]; rfl⟩)
  | inTpdu => exact .inr (.inr (.inl ⟨rfl, rfl⟩))
  | inPts => exact .inr (.inr (.inr (.inl ⟨rfl, rfl⟩)))
  | waitPower | waitClk | waitRst | waitAtr | inAtr =>
    exact .inr (.inr (.inr (.inr ⟨by simp, rfl⟩)))

/-- `card_emu_tx_byte`; the result is false where the code returns 0. -/
def cardEmuTxByte (e : Emu) : Emu × Bool :=
  match e.ch.state with
  | .inAtr => e.txByteAtr
  | .inPts => e.txBytePts
  | .inTpdu => e.txByteTpdu
  | _ => (e, false)

def cardEmuHaveNewUartTx (e : Emu) : Emu :=
  match e.ch.state, e.ch.tpdu.state with
  | .inTpdu, .waitTx => e.uartEnable .tx
  | .inTpdu, .waitPb => e.uartEnable .tx
  | _, _ => e

def statusFlags (ch : CardHandle) : UInt32 :=
  (if ch.vccActive then cemuStatusFVccPresent else 0)
    ||| (if ch.clocked then cemuStatusFClkActive else 0)
    ||| (if ch.inReset then cemuStatusFResetActive else 0)

/-- `card_emu_report_status`, on a board that does not measure VCC. -/
def cardEmuReportStatus (e : Emu) (reportOnIrq : Bool) (alloc : Alloc) : Emu :=
  match alloc with
  | none => e
  | some tag =>
    e.usbBufSubmit ⟨tag, if reportOnIrq then e.ch.irqEp else e.ch.inEp,
      .status (statusFlags e.ch) 0 e.ch.fIndex e.ch.dIndex e.ch.wi e.ch.waitingTime⟩

/-- `card_emu_report_config`, with the slot of the multiplexer and the polarity of the presence
signal. -/
def cardEmuReportConfig (e : Emu) (slotMuxNr : UInt8) (presencePol : Bool) (alloc : Alloc) : Emu :=
  match alloc with
  | none => e
  | some tag =>
    e.usbBufSubmit ⟨tag, e.ch.inEp, .config e.ch.features slotMuxNr
      ((if presencePol then cemuConfigPresPolPresH else 0) ||| cemuConfigPresPolValid)⟩

/-- The edge of one line, as `card_emu_io_statechg` handles it; the result says
whether the line has changed. -/
def ioEdge (e : Emu) (io : CardIo) (active : Bool) : Emu × Bool :=
  match io with
  | .vcc =>
    let chg := e.ch.vccActive != active
    let e := if !active && e.ch.vccActive then (e.cardHandleReset).cardSetState .waitPower
      else if active && !e.ch.vccActive then e.cardSetState .waitClk
      else e
    ({ e with ch.vccActive := active }, chg)
  | .clk =>
    let chg := e.ch.clocked != active
    let e := if active && !e.ch.clocked && e.ch.state == .waitClk then e.cardSetState .waitRst
      else e
    ({ e with ch.clocked := active }, chg)
  | .rst =>
    let chg := e.ch.inReset != active
    let e := if !active && e.ch.inReset then
        if e.ch.vccActive && e.ch.clocked && e.ch.state == .waitRst then e.cardSetState .waitAtr
        else e
      else if active && !e.ch.inReset then (e.cardHandleReset).cardSetState .waitRst
      else e
    ({ e with ch.inReset := active }, chg)

def endActivation (e : Emu) : Emu :=
  match e.ch.state with
  | .waitPower | .waitClk | .waitRst =>
    if e.ch.vccActive && e.ch.clocked && !e.ch.inReset then e.cardSetState .waitAtr else e
  | _ => e

def cardEmuIoStatechg (e : Emu) (io : CardIo) (active : Bool) (alloc : Alloc) : Emu :=
  let (e, chg) := e.ioEdge io active
  let e := e.endActivation
  if hasFlag e.ch.features cemuFeatFStatusIrq && chg then e.cardEmuReportStatus true alloc else e

def cardEmuSetAtr (e : Emu) (atr : List UInt8) : Emu :=
  if iso78163AtrLenMax < atr.length then e
  else { e with ch.atr := { idx := 0, len := atr.length, atr := splice e.ch.atr.atr 0 atr } }

def cardEmuWtimeHalfExpired (e : Emu) : Emu :=
  match e.ch.state, e.ch.tpdu.state with
  | .inTpdu, .waitPb => (e.uartTx iso78163PbNull).uartResetWt
  | .inTpdu, .waitTx => (e.uartTx iso78163PbNull).uartResetWt
  | _, _ => e

def cardEmuWtimeExpired (e : Emu) : Emu :=
  match e.ch.state with
  | .waitAtr => e.cardSetState .inAtr
  | _ => e

end Emu

def cardEmuInit (slotNum inEp irqEp : Nat) (vccActive inReset clocked : Bool) (uart : Uart)
    (usb : List UsbMsg) (freed : List Nat) : Emu :=
  let ch : CardHandle :=
    { num := slotNum, features := 0, state := .waitPower, vccActive, inReset, clocked
      fiIndex := 1, fIndex := 1, diIndex := 1, dIndex := 1, wi := iso78163DefaultWi
      waitingTime := iso78163InitWtime, inEp, irqEp
      atr := { idx := 0, len := defaultAtr.length
               atr := splice (List.replicate iso78163AtrLenMax 0) 0 defaultAtr }
      pts := { state := ⟨false, .ptss⟩, req := {}, resp := {} }
      tpdu := { state := .waitCla, hdr := ⟨0, 0, 0, 0, 0⟩ }
      uartRxMsg := none, uartTxMsg := none, uartTxQueue := [] }
  Emu.cardHandleReset ⟨ch, uart, usb, freed⟩

end Simtrace2
