import Simtrace2.CardEmu.Direction
import Simtrace2.CardEmu.Transmit
import Simtrace2.Host.Cardem

/-! The card emulation and its host, with the messages in flight between them. -/
namespace Simtrace2
open Lib

/-- Both parties and the two FIFOs of messages. A message to the host carries the
number of the TPDU it reports as the tag of its buffer, and the host's answers carry
the number of the TPDU they answer. `resetAt` is the number of TPDUs begun before the
last reset, `aired` notes for every byte taken from a message of the host the TPDU in
which it is transmitted and the one it answers. -/
structure Proxy where
  ci : CardemInst
  toHost : List UsbMsg
  host : Host
  toDev : List (Nat × TxRequest)
  tpdu : Nat
  resetAt : Nat
  aired : List (Nat × Nat)

inductive ProxyInput where
  | rxByte (byte : UInt8) (buffer : Bool)
  | irqTx
  | ioStatechg (io : CardIo) (active : Bool) (alloc : Alloc)
  | wtimeExpired
  | wtimeHalfExpired
  | hostReceives
  | deviceReceives (behind : Nat → UInt8)

/-- The answer to the message the interrupt handler takes its byte from. -/
def Emu.airing (e : Emu) : List Nat :=
  if e.uart.txrdy ∧ e.ch.state = .inTpdu then (e.txMsg.map fun next => next.1.tag).toList else []

namespace Proxy

def card (s : Proxy) (input : CardInput) : Proxy :=
  let ci := s.ci.irqStep input
  { s with ci := { ci with emu.usb := [] }, toHost := s.toHost ++ ci.emu.usb }

/-- A byte between TPDUs, and no PTSS, begins the next one. -/
def beginsTpdu (s : Proxy) (byte : UInt8) : Bool :=
  s.ci.emu.ch.state == .waitTpdu && byte != 0xff

/-- `process_usb_msg`: only RX_DATA is answered. -/
def hostProcesses (env : HostEnv) (s : Proxy) (msg : UsbMsg) : Proxy :=
  match msg.payload with
  | .rxData flags dataLen data =>
    let r := s.host.processDoRxDa env flags (data.take dataLen)
    { s with host := r.1, toDev := s.toDev ++ r.2.map fun req => (msg.tag, req) }
  | _ => s

def step (env : HostEnv) (slotNr : UInt8) (s : Proxy) : ProxyInput → Proxy
  | .rxByte byte buffer =>
    let tpdu := if s.beginsTpdu byte then s.tpdu + 1 else s.tpdu
    { s with tpdu }.card (.processRxByte byte (if buffer then some tpdu else none))
  | .irqTx => { s with aired := s.aired ++ s.ci.emu.airing.map fun tag => (s.tpdu, tag) }.card .txByte
  | .ioStatechg io active alloc =>
    let s := s.card (.ioStatechg io active alloc)
    { s with resetAt := if cardEmuChReady s.ci.emu.ch then s.resetAt else s.tpdu }
  | .wtimeExpired => s.card .wtimeExpired
  | .wtimeHalfExpired => s.card .wtimeHalfExpired
  | .hostReceives =>
    match s.toHost with
    | [] => s
    | msg :: rest => { s with toHost := rest }.hostProcesses env msg
  | .deviceReceives behind =>
    match s.toDev with
    | [] => s
    | (tag, req) :: rest =>
      let msg : TxData := { req with tag, slotNr, behind }
      { s with toDev := rest }.card (.dispatch msg.msgb none)

def init (slotNum inEp irqEp : Nat) (vccActive inReset clocked : Bool) (uart : Uart)
    (pinInsert : PinInsert) (pinInsertInverted : Bool) (gMuxSlot : Option UInt8) : Proxy :=
  { ci := {
      emu := cardEmuInit slotNum inEp irqEp vccActive inReset clocked uart [] []
      pinInsert, pinInsertInverted, gMuxSlot }
    toHost := [], host := .init, toDev := [], tpdu := 0, resetAt := 0, aired := [] }

end Proxy
end Simtrace2
