import Simtrace2.CardEmu.Signals
import Simtrace2.Host.Requests

/-! The commands of the host as the firmware takes them from the OUT end-point: one
message, or several in a row that are cut apart. -/
namespace Simtrace2
open Lib

/-- `sizeof(struct st_modem_reset)` and of `struct st_modem_sim_select`. -/
def sizeofModemReset : Nat := 3
def sizeofModemSimSelect : Nat := 1

/-- The calls into the board's driver of the modem reset line. -/
inductive PerstCall where
  | set (active : Bool)
  | doResetPulse (durationMs : UInt16)
deriving DecidableEq, Repr

/-- One slot with what its commands reach of the board: the switch between physical and
emulated SIM, and on a board with `PINS_PERST` the modem reset line. -/
structure Device where
  slot : CardSlot
  usePhysical : Bool
  pinsPerst : Bool
  perst : List PerstCall

/-- A buffer that `usb_buf_alloc` or a USB read yields, with the memory behind the
message, and the outcome of the allocation for the report that the message may cause. -/
structure Segment where
  tag : Nat
  behind : Nat → UInt8
  report : Alloc

namespace Device

def usbBufFree (d : Device) (tag : Nat) : Device :=
  { d with slot.inst.emu := d.slot.inst.emu.usbBufFree tag }

/-- The second result says whether the command was carried out. -/
def modemReset (d : Device) (asserted : UInt8) (pulseDurationMsec : UInt16) : Device × Bool :=
  if !d.pinsPerst then (d, false)
  else if asserted = 0 then ({ d with perst := d.perst ++ [.set false] }, true)
  else if asserted = 1 then ({ d with perst := d.perst ++ [.set true] }, true)
  else if asserted = 2 then ({ d with perst := d.perst ++ [.doResetPulse pulseDurationMsec] }, true)
  else (d, false)

def usbCommandModemReset (d : Device) (msg : Msgb) : Device × Bool :=
  if msg.msgbL2len < sizeofModemReset then (d, false)
  else d.modemReset (msg.mem msg.l2h) (UInt16.ofNat (leValue (readAt msg.mem (msg.l2h + 1) 2)))

def simSelect (d : Device) (remoteSim : Bool) : Device :=
  { d with slot.enabled := remoteSim, usePhysical := !remoteSim }

def usbCommandSimSelect (d : Device) (msg : Msgb) : Device × Bool :=
  if msg.msgbL2len < sizeofModemSimSelect then (d, false)
  else (d.simSelect (msg.mem msg.l2h != 0), true)

def dispatchUsbCommandModem (d : Device) (msg : Msgb) : Device :=
  let d := if CardemInst.msgType msg = msgtDtModemReset then (d.usbCommandModemReset msg).1
    else if CardemInst.msgType msg = msgtDtModemSimSelect then (d.usbCommandSimSelect msg).1
    else d
  d.usbBufFree msg.tag

def dispatchUsbCommandCardem (d : Device) (msg : Msgb) (report : Alloc) : Device :=
  { d with slot.inst := d.slot.inst.dispatchUsbCommandCardem msg report }

def dispatchUsbCommand (d : Device) (msg : Msgb) (report : Alloc) : Device :=
  if msg.len < sizeofMsgHdr then d.usbBufFree msg.tag
  else
    let msg := { msg with l2h := msg.l1h + sizeofMsgHdr }
    let msgClass := msg.mem msg.l1h
    if msgClass = simtraceMsgcGeneric then d.usbBufFree msg.tag
    else if msgClass = simtraceMsgcCardem then d.dispatchUsbCommandCardem msg report
    else if msgClass = simtraceMsgcModem then d.dispatchUsbCommandModem msg
    else d.usbBufFree msg.tag

/-- `msg_len` of the header at the front of the message. -/
def msgLen (msg : Msgb) : Nat := leValue (readAt msg.mem (msg.data + 6) 2)

/-- A fresh buffer with the first `n` bytes of the message. -/
def segment (msg : Msgb) (n : Nat) (s : Segment) : Msgb :=
  .received s.tag (readAt msg.mem msg.data n) s.behind

/-- The slow path of `dispatch_received_msg`, over the outcomes of its allocations. It
takes one in every turn; where they do not suffice for it to end the result is `none`. -/
def dispatchSegments (d : Device) (msg : Msgb) : List (Option Segment) → Option Device
  | [] => none
  | none :: _ => some (d.usbBufFree msg.tag)
  | some s :: allocs =>
    if msg.len < msgLen msg then some ((d.usbBufFree s.tag).usbBufFree msg.tag)
    else
      let d := d.dispatchUsbCommand (segment msg (msgLen msg) s) s.report
      let rest := msg.msgbPull (msgLen msg)
      if rest.len = 0 then some (d.usbBufFree msg.tag) else d.dispatchSegments rest allocs

def dispatchReceivedMsg (d : Device) (msg : Msgb) (report : Alloc) (allocs : List (Option Segment)) :
    Option Device :=
  if msgLen msg = msg.len then some (d.dispatchUsbCommand msg report)
  else d.dispatchSegments msg allocs

end Device
end Simtrace2
