import Simtrace2.CardEmu.Commands
import Simtrace2.Lib.Ledger
import Simtrace2.Usb.BufferedEp

/-! The buffers of the firmware: the pool they come from, the end-points and card slots
that hold them, and what the main loop and the interrupts do with them. -/
namespace Simtrace2
open Lib

/-- Why the firmware stops: an assertion that fails, or a loop that does not end. -/
inductive Stop where
  | doubleFree
  | invalidPointer
  | noEvict
  | loops
deriving DecidableEq, Repr

def numRctxSmall : Nat := 20

/-- `msgb_inuse`. -/
abbrev Pool := Nat → Bool

namespace Pool

def empty : Pool := fun _ => false

def tallocZero (pool : Pool) : Option (Nat × Pool) :=
  ((List.range numRctxSmall).find? fun i => !pool i).map fun i => (i, Function.update pool i true)

def tallocFree (pool : Pool) (i : Nat) : Except Stop Pool :=
  if numRctxSmall ≤ i then .error .invalidPointer
  else if pool i then .ok (Function.update pool i false) else .error .doubleFree

end Pool

namespace UsbMsg

def msgType (m : UsbMsg) : UInt8 :=
  match m.payload with
  | .rxData .. => msgtDoCemuRxData
  | .ptsInfo .. => msgtDoCemuPts
  | .status .. => msgtBdCemuStatus
  | .config .. => msgtBdCemuConfig

def body (m : UsbMsg) : List UInt8 :=
  match m.payload with
  | .rxData flags dataLen data => leBytes 4 flags.toNat ++ leBytes 2 dataLen ++ data
  | .ptsInfo ptsLen req resp =>
    [UInt8.ofNat ptsLen] ++ req ++ List.replicate (6 - req.length) 0
      ++ resp ++ List.replicate (6 - resp.length) 0
  | .status flags voltageMv fIndex dIndex wi waitingTime =>
    leBytes 4 flags.toNat ++ leBytes 2 voltageMv ++ [UInt8.ofNat fIndex, UInt8.ofNat dIndex, wi]
      ++ leBytes 4 waitingTime
  | .config features slotMuxNr presPol => leBytes 4 features.toNat ++ [slotMuxNr, presPol]

/-- The message in its buffer, which bounds it. -/
def buf (m : UsbMsg) : UsbBuf where
  tag := m.tag
  data := (encodeHdr simtraceMsgcCardem m.msgType 0 (sizeofMsgHdr + m.body.length) ++ m.body).take
    usbAllocSize
  hdr := by simp [encodeHdr, leBytes_length, usbAllocSize]
  fits := List.length_take_le _ _

end UsbMsg

/-- A buffered end-point from the host: the buffers that have been read, and the one the
driver reads into. -/
structure OutEp where
  inProgress : Nat
  queue : List Msgb
  read : Option Nat

/-- The end-points of a slot towards the host. -/
inductive EpKind where
  | dataIn
  | irq
deriving DecidableEq, Repr

/-- A card slot with its end-points, and the packet sizes of those towards the host. -/
structure Port where
  dev : Device
  dataIn : UsbBufferedEp
  irq : UsbBufferedEp
  out : OutEp
  epSize : EpKind → Nat

/-- The slot that is being served, and the pool. -/
structure Site where
  pool : Pool
  port : Port

namespace Device

def emu (d : Device) : Emu := d.slot.inst.emu

/-- Nothing submitted and nothing freed so far. -/
def quiet (d : Device) : Device := { d with slot.inst.emu.usb := [], slot.inst.emu.freed := [] }

def onEmu (f : Emu → Emu) (d : Device) : Device := { d with slot.inst.emu := f d.slot.inst.emu }

end Device

namespace Port

def ep (p : Port) : EpKind → UsbBufferedEp
  | .dataIn => p.dataIn
  | .irq => p.irq

def setEp (p : Port) (k : EpKind) (ep : UsbBufferedEp) : Port :=
  match k with
  | .dataIn => { p with dataIn := ep }
  | .irq => { p with irq := ep }

/-- The end-point that a message is for. -/
def route (p : Port) (msg : UsbMsg) : EpKind :=
  if msg.ep = p.dev.emu.ch.irqEp then .irq else .dataIn

end Port

/-! Which calls of the card ask for a buffer. -/

namespace Emu

def ptsAsks (e : Emu) (byte : UInt8) : Bool :=
  let p := e.ch.pts.store byte
  !(p.state == ⟨false, .pck⟩ && p.req.pck != p.req.csumPts) && nextPtsState p.answer == ⟨true, .ptss⟩

def tpduAsks (e : Emu) : Bool :=
  e.ch.tpdu.state == .waitP3 || e.ch.tpdu.state == .waitRx && e.ch.uartRxMsg.isNone

def rxAsks (e : Emu) (byte : UInt8) : Bool :=
  match e.ch.state with
  | .waitTpdu =>
    if byte = 0xff then (e.setPtsState ⟨false, .ptss⟩).ptsAsks byte else e.tpduAsks
  | .inTpdu => e.tpduAsks
  | .inPts => e.ptsAsks byte
  | _ => false

def ioAsks (e : Emu) (io : CardIo) (active : Bool) : Bool :=
  hasFlag e.ch.features cemuFeatFStatusIrq && (e.ioEdge io active).2

end Emu

def dispatchAsks (msg : Msgb) : Bool :=
  sizeofMsgHdr ≤ msg.len && msg.mem msg.l1h == simtraceMsgcCardem &&
    (CardemInst.msgType msg == msgtBdCemuStatus || CardemInst.msgType msg == msgtBdCemuConfig)

namespace Site

def free (s : Site) (tag : Nat) : Except Stop Site :=
  (s.pool.tallocFree tag).map fun pool => { s with pool }

def freeAll (s : Site) : List Nat → Except Stop Site
  | [] => .ok s
  | tag :: tags => do (← s.free tag).freeAll tags

def setEp (s : Site) (k : EpKind) (ep : UsbBufferedEp) : Site := { s with port := s.port.setEp k ep }

/-- `usb_buf_submit`. -/
def submit (s : Site) (k : EpKind) (msg : UsbBuf) : Except Stop Site :=
  match { s.port.ep k with dropped := [] }.usbBufSubmit msg with
  | none => .error .noEvict
  | some ep => (s.setEp k ep).freeAll (ep.dropped.map UsbBuf.tag)

def submitAll (s : Site) : List UsbMsg → Except Stop Site
  | [] => .ok s
  | msg :: msgs => do (← s.submit (s.port.route msg) msg.buf).submitAll msgs

/-- The loop of `usb_buf_alloc_st`. -/
def allocTurns (s : Site) (k : EpKind) (turns : Nat) : Except Stop (Site × Alloc) :=
  match s.pool.tallocZero with
  | some (tag, pool) => .ok ({ s with pool }, some tag)
  | none =>
    match turns, (s.port.ep k).msgbDequeueCount with
    | turns + 1, some (oldest, ep) => do
      (← (s.setEp k ep).free oldest.tag).allocTurns k turns
    | _, _ => .ok (s, none)

/-- It takes a message off the queue in every turn but the last. -/
def usbBufAllocSt (s : Site) (k : EpKind) : Except Stop (Site × Alloc) :=
  s.allocTurns k (s.port.ep k).queue.length

def settle (s : Site) (freed : List Nat) (usb : List UsbMsg) : Except Stop Site := do
  (← s.freeAll freed).submitAll usb

/-- A call that asks for no buffer. -/
def call (s : Site) (op : Device → Device) : Except Stop Site :=
  let d := op s.port.dev.quiet
  { s with port.dev := d }.settle d.emu.freed d.emu.usb

/-- A call that asks for a buffer: what it gives away without one it gives away before. -/
def callAsking (s : Site) (k : EpKind) (op : Device → Alloc → Device) : Except Stop Site := do
  let before := (op s.port.dev.quiet none).emu
  let (s, alloc) ← (← s.settle before.freed before.usb).usbBufAllocSt k
  let d := op s.port.dev.quiet alloc
  { s with port.dev := d }.settle (d.emu.freed.drop before.freed.length)
    (d.emu.usb.drop before.usb.length)

/-- A received byte reaches the card only while the slot is enabled. -/
def rxByte (s : Site) (byte : UInt8) : Except Stop Site :=
  if !s.port.dev.slot.enabled then .ok s
  else if s.port.dev.emu.rxAsks byte then
    s.callAsking .dataIn fun d alloc => d.onEmu (·.cardEmuProcessRxByte byte alloc)
  else s.call (·.onEmu (·.cardEmuProcessRxByte byte none))

def ioStatechg (s : Site) (io : CardIo) (active : Bool) : Except Stop Site :=
  if s.port.dev.emu.ioAsks io active then
    s.callAsking .irq fun d alloc => d.onEmu (·.cardEmuIoStatechg io active alloc)
  else s.call (·.onEmu (·.cardEmuIoStatechg io active none))

def tellVcc (s : Site) : Except Stop Site :=
  let slot := s.port.dev.slot
  if slot.vccLevel ≠ slot.vccActiveLast then do
    let s ← (← s.ioStatechg .vcc slot.vccLevel).ioStatechg .clk slot.vccLevel
    .ok { s with port.dev.slot.vccActiveLast := slot.vccLevel }
  else .ok s

def tellRst (s : Site) : Except Stop Site :=
  let slot := s.port.dev.slot
  if slot.rstLevel ≠ slot.rstActiveLast then do
    let s ← s.ioStatechg .rst slot.rstLevel
    .ok { s with port.dev.slot.rstActiveLast := slot.rstLevel }
  else .ok s

def processIoStatechg (s : Site) : Except Stop Site := do (← s.tellVcc).tellRst

def dispatchUsbCommand (s : Site) (msg : Msgb) : Except Stop Site := do
  let (s, report) ← if dispatchAsks msg then s.usbBufAllocSt .dataIn else .ok (s, none)
  s.call (·.dispatchUsbCommand msg report)

/-- The slow path of `dispatch_received_msg`. A turn takes a byte of the message at least,
or else the loop is in the same state again. -/
def dispatchSegments (s : Site) (behind : Nat → UInt8) (msg : Msgb) : Nat → Except Stop Site
  | 0 => .error .loops
  | turns + 1 =>
    match s.pool.tallocZero with
    | none => s.free msg.tag
    | some (tag, pool) =>
      let s := { s with pool }
      let msgLen := Device.msgLen msg
      if msg.len < msgLen then do (← s.free tag).free msg.tag
      else do
        let s ← s.dispatchUsbCommand (.received tag (readAt msg.mem msg.data msgLen) behind)
        let rest := msg.msgbPull msgLen
        if rest.len = 0 then s.free msg.tag else s.dispatchSegments behind rest turns

def dispatchReceivedMsg (s : Site) (behind : Nat → UInt8) (msg : Msgb) : Except Stop Site :=
  if Device.msgLen msg = msg.len then s.dispatchUsbCommand msg
  else s.dispatchSegments behind msg (msg.len + 1)

/-- A turn of `process_any_usb_commands`. -/
def processUsbCommand (s : Site) (behind : Nat → UInt8) : Except Stop Site :=
  match s.port.out.queue with
  | [] => .ok s
  | msg :: queue => { s with port.out.queue := queue }.dispatchReceivedMsg behind msg

def refillToHost (s : Site) (k : EpKind) (accepted : Bool) : Site :=
  s.setEp k ((s.port.ep k).usbRefillToHost accepted)

/-- The end of a write, with the outcome of the `USBD_Write` of a zero-length packet. -/
def writeDone (s : Site) (k : EpKind) (transferred : Nat) (accepted : Bool) : Except Stop Site :=
  let ep := { s.port.ep k with done := [] }.complete (s.port.epSize k) transferred accepted
  (s.setEp k ep).freeAll (ep.done.map UsbBuf.tag)

/-- `usb_refill_from_host`, with the outcome of its `USBD_Read`. -/
def refillFromHost (s : Site) (accepted : Bool) : Except Stop Site :=
  if s.port.out.inProgress ≠ 0 then .ok s
  else
    match s.pool.tallocZero with
    | none => .ok s
    | some (tag, pool) =>
      if accepted then .ok { s with pool, port.out.inProgress := 1, port.out.read := some tag }
      else do
        let s ← { s with pool, port.out.inProgress := 1 }.free tag
        .ok { s with port.out.inProgress := 0 }

/-- `usb_read_cb`. The driver reads no more than the buffer has room for. -/
def readDone (s : Site) (success : Bool) (bytes : List UInt8) (behind : Nat → UInt8) :
    Except Stop Site :=
  match s.port.out.read with
  | none => .ok s
  | some tag =>
    let s := { s with port.out.inProgress := 0, port.out.read := none }
    if success then
      let msg := Msgb.received tag (bytes.take usbAllocSize) behind
      .ok { s with port.out.queue := s.port.out.queue ++ [msg] }
    else s.free tag

end Site

/-- What the main loop and the interrupts do for one slot. -/
inductive PortInput where
  | pins (vccActive rstActive : Bool)
  | rxByte (byte : UInt8)
  | irqTx
  | wtimeExpired
  | wtimeHalfExpired
  | ioStatechg
  | usbCommand (behind : Nat → UInt8)
  | refillToHost (k : EpKind) (accepted : Bool)
  | writeDone (k : EpKind) (transferred : Nat) (accepted : Bool)
  | refillFromHost (accepted : Bool)
  | readDone (success : Bool) (bytes : List UInt8) (behind : Nat → UInt8)

def Site.step (s : Site) : PortInput → Except Stop Site
  | .pins vccActive rstActive =>
    .ok { s with port.dev.slot.vccActive := vccActive, port.dev.slot.rstActive := rstActive }
  | .rxByte byte => s.rxByte byte
  | .irqTx => s.call fun d => { d with slot.inst := d.slot.inst.usartIrqTx }
  | .wtimeExpired => s.call (·.onEmu (·.cardEmuWtimeExpired))
  | .wtimeHalfExpired => s.call (·.onEmu (·.cardEmuWtimeHalfExpired))
  | .ioStatechg => s.processIoStatechg
  | .usbCommand behind => s.processUsbCommand behind
  | .refillToHost k accepted => .ok (s.refillToHost k accepted)
  | .writeDone k transferred accepted => s.writeDone k transferred accepted
  | .refillFromHost accepted => s.refillFromHost accepted
  | .readDone success bytes behind => s.readDone success bytes behind

/-- The slots share the pool. -/
structure Firmware where
  pool : Pool
  ports : List Port

namespace Firmware

/-- What happens at the `i`th slot. -/
def portStep (fw : Firmware) (i : Nat) (input : PortInput) : Except Stop Firmware :=
  match fw.ports[i]? with
  | none => .ok fw
  | some port =>
    (Site.step ⟨fw.pool, port⟩ input).map fun s => { pool := s.pool, ports := fw.ports.set i s.port }

def step (fw : Except Stop Firmware) (input : Nat × PortInput) : Except Stop Firmware :=
  fw.bind fun fw => fw.portStep input.1 input.2

end Firmware

/-- A slot as `mode_cardemu_init` finds it, and what its board has. -/
structure PortSetup where
  num : Nat
  epIn : Nat
  epInt : Nat
  vccActive : Bool
  rstActive : Bool
  uart : Uart
  pinInsert : PinInsert
  inverted : Bool
  mux : Option UInt8
  pinsPerst : Bool
  epSize : EpKind → Nat

def Port.init (p : PortSetup) : Port where
  dev := { slot := .modeCardemuInit p.num p.epIn p.epInt p.vccActive p.rstActive p.uart p.pinInsert
             p.inverted p.mux
           usePhysical := true, pinsPerst := p.pinsPerst, perst := [] }
  dataIn := .init
  irq := .init
  out := ⟨0, [], none⟩
  epSize := p.epSize

def Firmware.init (ports : List PortSetup) : Firmware := ⟨.empty, ports.map Port.init⟩

end Simtrace2
