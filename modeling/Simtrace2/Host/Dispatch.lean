import Simtrace2.Prot

/-! The host's dispatch of what it reads from the bulk IN end-point. -/
namespace Simtrace2

inductive HostCall where
  | processDoStatus (buf : List UInt8)
  | processDoPts (buf : List UInt8)
  | processDoRxDa (buf : List UInt8)
  | configConfirmed
  | unknownMsgType (msgType : UInt8)
deriving DecidableEq, Repr

def processUsbMsg (buf : List UInt8) : HostCall :=
  let msgType := (buf[1]?).getD 0
  let body := buf.drop sizeofMsgHdr
  if msgType = msgtBdCemuStatus then .processDoStatus body
  else if msgType = msgtDoCemuPts then .processDoPts body
  else if msgType = msgtDoCemuRxData then .processDoRxDa body
  else if msgType = msgtBdCemuConfig then .configConfirmed
  else .unknownMsgType msgType

/-- `usb_in_xfer_cb` on each completed transfer, in the order of completion. -/
def usbInXferCb (completed : List (List UInt8)) : List HostCall := completed.map processUsbMsg

end Simtrace2
