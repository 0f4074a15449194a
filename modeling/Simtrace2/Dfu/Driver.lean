import Simtrace2.Lib.Memory
import Simtrace2.Lib.Run

/-! The DFU bootloader: its requests on the control end-point, and the partitions of RAM
and flash that a download goes to. -/
namespace Simtrace2
open Lib

inductive DfuState where
  | appIdle | appDetach | dfuIdle | dfuDnloadSync | dfuDnbusy | dfuDnloadIdle | dfuManifestSync
  | dfuManifest | dfuManifestWaitRst | dfuUploadIdle | dfuError
deriving DecidableEq, Repr

inductive DfuStatus where
  | ok | errAddress
deriving DecidableEq, Repr

inductive DfuRequest where
  | dnload | upload | getStatus | clrStatus | getState | abort | other
deriving DecidableEq, Repr

inductive DfuRet where
  | nothing | zlp | stall
deriving DecidableEq, Repr

/-- What the bootloader answers on the control end-point. -/
inductive DfuAnswer where
  | zlp
  | stall
  | status (status : DfuStatus) (state : DfuState)
  | state (state : DfuState)
  | data (bytes : List UInt8)
deriving DecidableEq, Repr

inductive Chip where
  | sam3s1 | sam3s2 | sam3s4
deriving DecidableEq, Repr

def iramAddr : Nat := 0x20000000
def iflashAddr : Nat := 0x00400000

def Chip.iflashSize : Chip → Nat
  | .sam3s1 => 0x10000 | .sam3s2 => 0x20000 | .sam3s4 => 0x40000

def Chip.iramSize : Chip → Nat
  | .sam3s1 => 0x4000 | .sam3s2 => 0x8000 | .sam3s4 => 0xC000

def boardDfuBootSize : Nat := 16 * 1024
def boardDfuRamSize : Nat := 2 * 1024
def boardDfuPageSize : Nat := 512

/-- `FLASHD_Unlock` and `FLASHD_Write`: their result, and the memory they leave. -/
structure Flashd where
  unlock : (Nat → UInt8) → Nat → Nat → Nat × (Nat → UInt8)
  write : (Nat → UInt8) → Nat → List UInt8 → Nat × (Nat → UInt8)

/-- The bootloader that runs from the flash updates the application, the one that runs as an
application (`ENVIRONMENT_dfu`) the bootloader. -/
inductive DfuEnvironment where
  | flash | dfu
deriving DecidableEq, Repr

/-- What the bootloader runs on, with the address of the last variable on its stack. -/
structure DfuBoard where
  chip : Chip
  environment : DfuEnvironment
  stackAddr : Nat
  flashd : Flashd

structure Dfu where
  state : DfuState
  status : DfuStatus
  pastManifest : Bool
  totalBytes : Nat
  altsetting : Nat
  reading : Bool
  mem : Nat → UInt8
  ep0 : List DfuAnswer

def u32 (n : Nat) : Nat := n % 2 ^ 32

def altifRam : Nat := 0

namespace DfuBoard

def altifFlash (b : DfuBoard) : Nat :=
  match b.environment with
  | .flash => 1
  | .dfu => 2

def ramAddr (offset : Nat) : Nat := u32 (iramAddr + boardDfuRamSize + offset)

def flashAddr (b : DfuBoard) (offset : Nat) : Nat :=
  match b.environment with
  | .flash => u32 (iflashAddr + boardDfuBootSize + offset)
  | .dfu => u32 (iflashAddr + offset)

def iramEnd (b : DfuBoard) : Nat := iramAddr + b.chip.iramSize

def iflashEnd (b : DfuBoard) : Nat :=
  match b.environment with
  | .flash => iflashAddr + b.chip.iflashSize
  | .dfu => iflashAddr + boardDfuBootSize

end DfuBoard

namespace Dfu

def answer (d : Dfu) (a : DfuAnswer) : Dfu := { d with ep0 := d.ep0 ++ [a] }

def errAddress (d : Dfu) : Dfu := { d with state := .dfuError, status := .errAddress }

/-- `USBDFU_handle_dnload`. The result of the comparison after the write is overwritten. -/
def usbdfuHandleDnload (b : DfuBoard) (d : Dfu) (altif offset : Nat) (data : List UInt8) :
    Dfu × DfuRet :=
  if altif = altifRam then
    let addr := DfuBoard.ramAddr offset
    if addr < iramAddr ∨ b.iramEnd ≤ u32 (addr + data.length)
        ∨ b.stackAddr ≤ u32 (addr + data.length) then (d.errAddress, .stall)
    else ({ d with mem := store d.mem addr data }, .zlp)
  else if altif = b.altifFlash then
    let addr := b.flashAddr offset
    if addr < iflashAddr ∨ b.iflashEnd ≤ u32 (addr + data.length) then (d.errAddress, .stall)
    else
      let (rc, mem) := b.flashd.unlock d.mem addr (u32 (addr + data.length))
      let d := { d with mem }
      if rc ≠ 0 then (d, .stall)
      else
        let (rc, mem) := b.flashd.write d.mem addr data
        ({ d with mem }, if rc ≠ 0 then .stall else .zlp)
  else (d, .stall)

/-- `USBDFU_handle_upload`; `none` is the result -1. -/
def usbdfuHandleUpload (b : DfuBoard) (d : Dfu) (altif offset reqLen : Nat) :
    Dfu × Option (List UInt8) :=
  let part (addr last past : Nat) : Dfu × Option (List UInt8) :=
    if last < addr then (d.errAddress, none)
    else
      let len := if past < addr + reqLen then u32 (past + 2 ^ 32 - addr) else reqLen
      (d, some (readAt d.mem addr len))
  if altif = altifRam then part (DfuBoard.ramAddr offset) b.iramEnd b.iramEnd
  else if altif = b.altifFlash then
    part (b.flashAddr offset) (iflashAddr + b.chip.iflashSize) b.iflashEnd
  else (d, none)

def dfuDrvUpdstatus (d : Dfu) : Dfu :=
  if d.state = .dfuManifestSync then { d with state := .dfuManifest } else d

def handleGetstatus (d : Dfu) : Dfu :=
  let d := d.dfuDrvUpdstatus
  d.answer (.status d.status d.state)

def handleGetstate (d : Dfu) : Dfu := d.answer (.state d.state)

/-- `dnload_cb`, with the bytes that have been transferred. -/
def dnloadCb (b : DfuBoard) (d : Dfu) (success : Bool) (data : List UInt8) : Dfu :=
  if !success then d.answer .stall
  else
    match d.usbdfuHandleDnload b d.altsetting d.totalBytes data with
    | (d, .zlp) =>
      { d with totalBytes := u32 (d.totalBytes + data.length), state := .dfuDnloadIdle }.answer .zlp
    | (d, .stall) => { d with state := .dfuError }.answer .stall
    | (d, .nothing) => d

/-- `handle_dnload`, with the outcome of its `USBD_Read`. -/
def handleDnload (d : Dfu) (len : Nat) (first accepted : Bool) : Dfu × DfuRet :=
  if boardDfuPageSize < len then (d.errAddress, .stall)
  else if len % 4 ≠ 0 then (d.errAddress, .stall)
  else
    let d := if first then { d with totalBytes := 0 } else d
    if len = 0 then ({ d with state := .dfuManifestSync }, .zlp)
    else if accepted then ({ d with reading := true }, .nothing)
    else (d, .stall)

/-- `handle_upload`, with the outcome of its `USBD_Write`. Its errors are `DFU_RET_STALL`,
which is 2. -/
def handleUpload (b : DfuBoard) (d : Dfu) (len : Nat) (first accepted : Bool) : Dfu × Nat :=
  let d := if first then { d with totalBytes := 0 } else d
  if boardDfuPageSize < len then (d.errAddress, 2)
  else
    match d.usbdfuHandleUpload b d.altsetting d.totalBytes len with
    | (d, none) => (d, 2)
    | (d, some bytes) => if accepted then (d.answer (.data bytes), bytes.length) else (d, 2)

def uploadCb (d : Dfu) (success : Bool) (transferred : Nat) : Dfu :=
  if !success then d.answer .stall else { d with totalBytes := u32 (d.totalBytes + transferred) }

/-- The requests that a state only answers, and the error that any other one is. -/
def otherwise (d : Dfu) (req : DfuRequest) : Dfu × DfuRet :=
  match req with
  | .getStatus => (d.handleGetstatus, .nothing)
  | .getState => (d.handleGetstate, .nothing)
  | _ => ({ d with state := .dfuError }, .stall)

/-- The switch over the state in `USBDFU_DFU_RequestHandler`. -/
def handleRequest (b : DfuBoard) (d : Dfu) (req : DfuRequest) (len : Nat) (accepted : Bool) :
    Dfu × DfuRet :=
  match d.state, req with
  | .appIdle, _ => (d, .stall)
  | .appDetach, _ => (d, .stall)
  | .dfuIdle, .dnload =>
    if len = 0 then ({ d with state := .dfuError }, .stall)
    else { d with state := .dfuDnloadSync }.handleDnload len true accepted
  | .dfuIdle, .upload =>
    (({ d with state := .dfuUploadIdle }.handleUpload b len true accepted).1, .nothing)
  | .dfuIdle, .abort => (d, .zlp)
  | .dfuDnbusy, .getState => ({ d with state := .dfuError }, .stall)
  | .dfuDnloadIdle, .dnload => { d with state := .dfuDnloadSync }.handleDnload len false accepted
  | .dfuDnloadIdle, .abort => ({ d with state := .dfuIdle }, .zlp)
  | .dfuManifest, .getStatus =>
    ({ d with state := .dfuIdle, pastManifest := true }.handleGetstatus, .nothing)
  | .dfuManifestWaitRst, _ => (d, .nothing)
  | .dfuUploadIdle, .upload =>
    let (d, rc) := d.handleUpload b len false accepted
    (if rc < len then { d with state := .dfuIdle } else d, .nothing)
  | .dfuUploadIdle, .abort => ({ d with state := .dfuIdle }, .zlp)
  | .dfuError, .clrStatus => ({ d with state := .dfuIdle, status := .ok }, .zlp)
  | _, req => d.otherwise req

def usbdfuDfuRequestHandler (b : DfuBoard) (d : Dfu) (req : DfuRequest) (len : Nat)
    (accepted : Bool) : Dfu :=
  match d.handleRequest b req len accepted with
  | (d, .nothing) => d
  | (d, .zlp) => d.answer .zlp
  | (d, .stall) => d.answer .stall

end Dfu

/-- A request of the host with the outcome of the transfer that it starts, and the ends of
these transfers. -/
inductive DfuInput where
  | request (req : DfuRequest) (len : Nat) (accepted : Bool)
  | readDone (success : Bool) (data : List UInt8)
  | writeDone (success : Bool) (transferred : Nat)

def Dfu.step (b : DfuBoard) (d : Dfu) : DfuInput → Dfu
  | .request req len accepted => d.usbdfuDfuRequestHandler b req len accepted
  | .readDone success data =>
    if d.reading then { d with reading := false }.dnloadCb b success data else d
  | .writeDone success transferred => d.uploadCb success transferred

end Simtrace2
