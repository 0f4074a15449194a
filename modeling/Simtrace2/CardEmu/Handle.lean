import Simtrace2.Fidi
import Simtrace2.Msgb
import Simtrace2.Prot

/-! The card handle, the messages it sends to the host, and what it does to its
environment through call-backs: the UART and the USB buffers. -/
namespace Simtrace2

inductive CardState where
  | waitPower | waitClk | waitRst | waitAtr | inAtr | inPts | waitTpdu | inTpdu
deriving DecidableEq, Repr

inductive PtsByte where
  | ptss | pts0 | pts1 | pts2 | pts3 | pck
deriving DecidableEq, Repr

/-- `PTS_S_WAIT_REQ_*`, and with `isResp` (bit 0x10) `PTS_S_WAIT_RESP_*`. -/
structure PtsState where
  isResp : Bool
  sstate : PtsByte
deriving DecidableEq, Repr

structure PtsBuf where
  ptss : UInt8 := 0
  pts0 : UInt8 := 0
  pts1 : UInt8 := 0
  pts2 : UInt8 := 0
  pts3 : UInt8 := 0
  pck : UInt8 := 0
deriving DecidableEq, Repr

inductive TpduState where
  | waitCla | waitIns | waitP1 | waitP2 | waitP3 | waitPb | waitRx | waitTx
deriving DecidableEq, Repr

/-- What follows the header in a message to the host. -/
inductive UsbPayload where
  | rxData (flags : UInt32) (dataLen : Nat) (data : List UInt8)
  | ptsInfo (ptsLen : Nat) (req resp : List UInt8)
  | status (flags : UInt32) (voltageMv fIndex dIndex : Nat) (wi : UInt8) (waitingTime : Nat)
  | config (features : UInt32) (slotMuxNr presPol : UInt8)
deriving DecidableEq, Repr

structure UsbMsg where
  tag : Nat
  ep : Nat
  payload : UsbPayload
deriving DecidableEq, Repr

structure RxMsg where
  tag : Nat
  flags : UInt32 := 0
  data : List UInt8 := []
deriving DecidableEq, Repr

structure Atr where
  idx : Nat
  len : Nat
  atr : List UInt8
deriving DecidableEq, Repr

structure Pts where
  state : PtsState
  req : PtsBuf
  resp : PtsBuf
deriving DecidableEq, Repr

structure Tpdu where
  state : TpduState
  hdr : TpduHdr
deriving DecidableEq, Repr

structure CardHandle where
  num : Nat
  features : UInt32
  state : CardState
  vccActive : Bool
  inReset : Bool
  clocked : Bool
  fiIndex : Nat
  fIndex : Nat
  diIndex : Nat
  dIndex : Nat
  wi : UInt8
  waitingTime : Nat
  inEp : Nat
  irqEp : Nat
  atr : Atr
  pts : Pts
  tpdu : Tpdu
  uartRxMsg : Option RxMsg
  uartTxMsg : Option Msgb
  uartTxQueue : List Msgb

inductive UartMode where
  | off | tx | rx | txTimerOnly
deriving DecidableEq, Repr

/-- The UART as the call-backs leave it: the last direction, whether TXRDY
interrupts, the waiting time and the F/D ratio last programmed, and the bytes
given to it for transmission. -/
structure Uart where
  mode : UartMode
  txrdy : Bool
  wt : Nat
  fidi : Option Nat
  sent : List UInt8
deriving DecidableEq, Repr

/-- A card handle with its UART, the messages submitted to the USB end-points
and the tags of the buffers given back to the pool, in order. -/
structure Emu where
  ch : CardHandle
  uart : Uart
  usb : List UsbMsg
  freed : List Nat

namespace Emu

/-- `card_emu_uart_enable`. Only `ENABLE_TX` leaves the TXRDY interrupt on. -/
def uartEnable (e : Emu) (rxtx : UartMode) : Emu :=
  { e with uart.mode := rxtx, uart.txrdy := rxtx == .tx }

def uartTxrdyOff (e : Emu) : Emu := { e with uart.txrdy := false }

def uartTx (e : Emu) (byte : UInt8) : Emu := { e with uart.sent := e.uart.sent ++ [byte] }

def uartUpdateWt (e : Emu) (wt : Nat) : Emu := { e with uart.wt := wt }

def uartResetWt (e : Emu) : Emu := e

def uartUpdateFidi (e : Emu) (fidi : Nat) : Emu := { e with uart.fidi := some fidi }

/-- `card_emu_uart_interrupt` makes the handler run; it changes no register. -/
def uartInterrupt (e : Emu) : Emu := e

def uartWaitTxIdle (e : Emu) : Emu := e

def usbBufFree (e : Emu) (tag : Nat) : Emu := { e with freed := e.freed ++ [tag] }

def usbBufSubmit (e : Emu) (msg : UsbMsg) : Emu := { e with usb := e.usb ++ [msg] }

@[simp] theorem uartEnable_ch (e : Emu) (m : UartMode) : (e.uartEnable m).ch = e.ch := rfl
@[simp] theorem uartTxrdyOff_ch (e : Emu) : e.uartTxrdyOff.ch = e.ch := rfl
@[simp] theorem uartTx_ch (e : Emu) (b : UInt8) : (e.uartTx b).ch = e.ch := rfl
@[simp] theorem uartUpdateWt_ch (e : Emu) (wt : Nat) : (e.uartUpdateWt wt).ch = e.ch := rfl
@[simp] theorem uartUpdateFidi_ch (e : Emu) (n : Nat) : (e.uartUpdateFidi n).ch = e.ch := rfl
@[simp] theorem uartResetWt_eq (e : Emu) : e.uartResetWt = e := rfl
@[simp] theorem uartInterrupt_eq (e : Emu) : e.uartInterrupt = e := rfl
@[simp] theorem uartWaitTxIdle_eq (e : Emu) : e.uartWaitTxIdle = e := rfl
@[simp] theorem usbBufFree_ch (e : Emu) (t : Nat) : (e.usbBufFree t).ch = e.ch := rfl
@[simp] theorem usbBufSubmit_ch (e : Emu) (m : UsbMsg) : (e.usbBufSubmit m).ch = e.ch := rfl

end Emu

/-- The outcome of `usb_buf_alloc_st` during a call: a buffer with this tag, or
none. At most one buffer is asked for in a call. -/
abbrev Alloc := Option Nat

end Simtrace2
