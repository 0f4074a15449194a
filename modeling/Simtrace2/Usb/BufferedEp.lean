import Simtrace2.Lib.Packets
import Simtrace2.Msgb

/-! A buffered USB end-point towards the host: its queue with the counter kept
beside it, the write the driver is busy with, and the packets on the wire. -/
namespace Simtrace2
open Lib

def usbMaxQlen : Nat := 3

structure UsbBuf where
  tag : Nat
  data : List UInt8
  hdr : 8 ≤ data.length
  fits : data.length ≤ usbAllocSize
deriving DecidableEq, Repr

/-- A write accepted by the driver: the bytes of the message, or none of them. -/
structure UsbWrite where
  msg : UsbBuf
  data : List UInt8
deriving DecidableEq, Repr

/-- `struct usb_buffered_ep`, with what it has done so far: the packets sent and the
buffers freed, by the end of their write (`done`) or by eviction (`dropped`). -/
structure UsbBufferedEp where
  inProgress : Nat
  queue : List UsbBuf
  queueLen : Nat
  write : Option UsbWrite
  wire : List (List UInt8)
  done : List UsbBuf
  dropped : List UsbBuf
deriving DecidableEq, Repr

def dec32 (n : Nat) : Nat := (n + (2 ^ 32 - 1)) % 2 ^ 32

def inc32 (n : Nat) : Nat := (n + 1) % 2 ^ 32

theorem inc32_zero : inc32 0 = 1 := by decide

theorem dec32_one : dec32 1 = 0 := by decide

namespace UsbBufferedEp

def init : UsbBufferedEp :=
  { inProgress := 0, queue := [], queueLen := 0, write := none, wire := [], done := []
    dropped := [] }

def msgbEnqueueCount (ep : UsbBufferedEp) (msg : UsbBuf) : UsbBufferedEp :=
  { ep with queue := ep.queue ++ [msg], queueLen := inc32 ep.queueLen }

def msgbDequeueCount (ep : UsbBufferedEp) : Option (UsbBuf × UsbBufferedEp) :=
  match ep.queue with
  | [] => none
  | msg :: queue => some (msg, { ep with queue, queueLen := dec32 ep.queueLen })

def llistAddIrqsafe (ep : UsbBufferedEp) (msg : UsbBuf) : UsbBufferedEp :=
  { ep with queue := msg :: ep.queue }

def evict (ep : UsbBufferedEp) (msg : UsbBuf) : UsbBufferedEp :=
  { ep with dropped := ep.dropped ++ [msg] }

/-- `usb_buf_submit`; `none` where `OSMO_ASSERT(evict)` fails. -/
def usbBufSubmit (ep : UsbBufferedEp) (msg : UsbBuf) : Option UsbBufferedEp :=
  if usbMaxQlen ≤ ep.queueLen then
    match ep.msgbDequeueCount with
    | none => none
    | some (oldest, ep) => some ((ep.evict oldest).msgbEnqueueCount msg)
  else some (ep.msgbEnqueueCount msg)

/-- The loop of `usb_buf_alloc_st`, with the number of times the pool turns out to be
empty; the result says whether a buffer was found. -/
def usbBufAllocSt (ep : UsbBufferedEp) : Nat → UsbBufferedEp × Bool
  | 0 => (ep, true)
  | fails + 1 =>
    match ep.msgbDequeueCount with
    | none => (ep, false)
    | some (oldest, ep) => (ep.evict oldest).usbBufAllocSt fails

def usbdWrite (ep : UsbBufferedEp) (msg : UsbBuf) (data : List UInt8) : UsbBufferedEp :=
  { ep with write := some ⟨msg, data⟩ }

/-- `usb_refill_to_host`, with the outcome of its `USBD_Write`. -/
def usbRefillToHost (ep : UsbBufferedEp) (accepted : Bool) : UsbBufferedEp :=
  if ep.inProgress ≠ 0 then ep
  else
    match ep.msgbDequeueCount with
    | none => ep
    | some (msg, ep) =>
      let ep := { ep with inProgress := inc32 ep.inProgress }
      if accepted then ep.usbdWrite msg msg.data
      else
        let ep := ep.llistAddIrqsafe msg
        { ep with inProgress := dec32 ep.inProgress }

/-- `usb_write_cb`, with the outcome of the `USBD_Write` of a zero-length packet. -/
def usbWriteCb (ep : UsbBufferedEp) (epSize : Nat) (msg : UsbBuf) (transferred : Nat)
    (accepted : Bool) : UsbBufferedEp :=
  if msg.data.length % epSize = 0 ∧ transferred = epSize then
    if accepted then ep.usbdWrite msg [] else ep
  else { ep with inProgress := dec32 ep.inProgress, done := ep.done ++ [msg] }

def complete (ep : UsbBufferedEp) (epSize transferred : Nat) (accepted : Bool) : UsbBufferedEp :=
  match ep.write with
  | none => ep
  | some w =>
    let ep := { ep with write := none, wire := ep.wire ++ packets epSize w.data }
    ep.usbWriteCb epSize w.msg transferred accepted

end UsbBufferedEp

inductive EpInput where
  | submit (msg : UsbBuf)
  | allocSt (fails : Nat)
  | refill (accepted : Bool)
  | complete (transferred : Nat) (accepted : Bool)

def epStep (epSize : Nat) (s : Option UsbBufferedEp) (input : EpInput) : Option UsbBufferedEp :=
  s.bind fun ep => match input with
    | .submit msg => ep.usbBufSubmit msg
    | .allocSt fails => some (ep.usbBufAllocSt fails).1
    | .refill accepted => some (ep.usbRefillToHost accepted)
    | .complete transferred accepted => some (ep.complete epSize transferred accepted)

end Simtrace2
