import Simtrace2.Fidi
import Simtrace2.Prot

/-! The sniffer's variables, its changes of state and the messages it sends. -/
namespace Simtrace2
open Lib

inductive SniffState where
  | reset | waitAtr | inAtr | waitTpdu | inTpdu | inPpsReq | waitPpsRsp | inPpsRsp
deriving DecidableEq, Repr

inductive AtrSniffState where
  | waitTs | waitT0 | waitTa | waitTb | waitTc | waitTd | waitHist | waitTck
deriving DecidableEq, Repr

inductive PpsSniffState where
  | waitPpss | waitPps0 | waitPps1 | waitPps2 | waitPps3 | waitPck | waitEnd
deriving DecidableEq, Repr

inductive TpduSniffState where
  | cla | ins | p1 | p2 | p3 | procedure | dataRemaining | dataSingle | sw1 | sw2
deriving DecidableEq, Repr

def maxAtrSize : Nat := 33
def maxPpsSize : Nat := 6
def maxTpduSize : Nat := 5 + 256 + 2
def ring16Buflen : Nat := 512

def rbuf16FTimeoutWt : UInt16 := 0x0800
def rbuf16FDataByte : UInt16 := 0x8000

def sniffChangeFlagResetAssert : UInt32 := 4
def sniffChangeFlagResetDeassert : UInt32 := 8
def sniffDataFlagErrorIncomplete : UInt32 := 32
def sniffDataFlagErrorMalformed : UInt32 := 64
def sniffDataFlagErrorChecksum : UInt32 := 128

structure SniffAtr where
  state : AtrSniffState
  atr : Buffer maxAtrSize
  atrI : Nat
  histLen : Nat
  y : UInt8
  i : Nat
  flags : UInt32
deriving DecidableEq, Repr

structure SniffPps where
  state : PpsSniffState
  req : Buffer maxPpsSize
  rsp : Buffer maxPpsSize
  flags : UInt32
deriving DecidableEq, Repr

structure SniffTpdu where
  state : TpduSniffState
  packet : Buffer maxTpduSize
  packetI : Nat
deriving DecidableEq, Repr

inductive SniffType where
  | atr | pps | tpdu
deriving DecidableEq, Repr

inductive SniffMsg where
  | data (type : SniffType) (flags : UInt32) (data : List UInt8)
  | fidi (fidi : UInt8)
  | change (flags : UInt32)
deriving DecidableEq, Repr

/-- `update_wt`'s own WI and D, and `g_wt`. -/
structure SniffWt where
  wi : UInt8
  d : Nat
  gWt : Nat
deriving DecidableEq, Repr

/-- The static variables of `sniffer.c`, the F/D ratio last programmed, the ring
buffer, and the messages submitted. The pool answers the `n`th request for a buffer
with `alloc n`. -/
structure Sniffer where
  isoState : SniffState
  gAtr : SniffAtr
  conventionConvert : Bool
  tProtocolSupport : Nat
  gPps : SniffPps
  gTpdu : SniffTpdu
  wt : SniffWt
  fidi : Option Nat
  changeFlags : UInt32
  sniffBuffer : List UInt16
  alloc : Nat → Bool
  asked : Nat
  sent : List SniffMsg

def conventionConvertLut : List UInt8 :=
  [0xff, 0x7f, 0xbf, 0x3f, 0xdf, 0x5f, 0x9f, 0x1f, 0xef, 0x6f, 0xaf, 0x2f, 0xcf, 0x4f, 0x8f, 0x0f,
   0xf7, 0x77, 0xb7, 0x37, 0xd7, 0x57, 0x97, 0x17, 0xe7, 0x67, 0xa7, 0x27, 0xc7, 0x47, 0x87, 0x07,
   0xfb, 0x7b, 0xbb, 0x3b, 0xdb, 0x5b, 0x9b, 0x1b, 0xeb, 0x6b, 0xab, 0x2b, 0xcb, 0x4b, 0x8b, 0x0b,
   0xf3, 0x73, 0xb3, 0x33, 0xd3, 0x53, 0x93, 0x13, 0xe3, 0x63, 0xa3, 0x23, 0xc3, 0x43, 0x83, 0x03,
   0xfd, 0x7d, 0xbd, 0x3d, 0xdd, 0x5d, 0x9d, 0x1d, 0xed, 0x6d, 0xad, 0x2d, 0xcd, 0x4d, 0x8d, 0x0d,
   0xf5, 0x75, 0xb5, 0x35, 0xd5, 0x55, 0x95, 0x15, 0xe5, 0x65, 0xa5, 0x25, 0xc5, 0x45, 0x85, 0x05,
   0xf9, 0x79, 0xb9, 0x39, 0xd9, 0x59, 0x99, 0x19, 0xe9, 0x69, 0xa9, 0x29, 0xc9, 0x49, 0x89, 0x09,
   0xf1, 0x71, 0xb1, 0x31, 0xd1, 0x51, 0x91, 0x11, 0xe1, 0x61, 0xa1, 0x21, 0xc1, 0x41, 0x81, 0x01,
   0xfe, 0x7e, 0xbe, 0x3e, 0xde, 0x5e, 0x9e, 0x1e, 0xee, 0x6e, 0xae, 0x2e, 0xce, 0x4e, 0x8e, 0x0e,
   0xf6, 0x76, 0xb6, 0x36, 0xd6, 0x56, 0x96, 0x16, 0xe6, 0x66, 0xa6, 0x26, 0xc6, 0x46, 0x86, 0x06,
   0xfa, 0x7a, 0xba, 0x3a, 0xda, 0x5a, 0x9a, 0x1a, 0xea, 0x6a, 0xaa, 0x2a, 0xca, 0x4a, 0x8a, 0x0a,
   0xf2, 0x72, 0xb2, 0x32, 0xd2, 0x52, 0x92, 0x12, 0xe2, 0x62, 0xa2, 0x22, 0xc2, 0x42, 0x82, 0x02,
   0xfc, 0x7c, 0xbc, 0x3c, 0xdc, 0x5c, 0x9c, 0x1c, 0xec, 0x6c, 0xac, 0x2c, 0xcc, 0x4c, 0x8c, 0x0c,
   0xf4, 0x74, 0xb4, 0x34, 0xd4, 0x54, 0x94, 0x14, 0xe4, 0x64, 0xa4, 0x24, 0xc4, 0x44, 0x84, 0x04,
   0xf8, 0x78, 0xb8, 0x38, 0xd8, 0x58, 0x98, 0x18, 0xe8, 0x68, 0xa8, 0x28, 0xc8, 0x48, 0x88, 0x08,
   0xf0, 0x70, 0xb0, 0x30, 0xd0, 0x50, 0x90, 0x10, 0xe0, 0x60, 0xa0, 0x20, 0xc0, 0x40, 0x80, 0x00]

namespace Sniffer

def init (alloc : Nat → Bool) : Sniffer :=
  { isoState := .reset
    gAtr := { state := .waitTs, atr := .zero _, atrI := 0, histLen := 0, y := 0, i := 0, flags := 0 }
    conventionConvert := false, tProtocolSupport := 0
    gPps := { state := .waitPpss, req := .zero _, rsp := .zero _, flags := 0 }
    gTpdu := { state := .cla, packet := .zero _, packetI := 0 }
    wt := { wi := 10, d := 1, gWt := 9600 }
    fidi := none, changeFlags := 0, sniffBuffer := [], alloc, asked := 0, sent := [] }

def updateWt (s : Sniffer) (wi : UInt8) (d : Nat) : Sniffer :=
  let wi := if wi ≠ 0 then wi else s.wt.wi
  let d := if d ≠ 0 then d else s.wt.d
  { s with wt := { wi, d, gWt := wi.toNat * 960 * d } }

def updateFidi (s : Sniffer) (fidi : UInt8) : Sniffer :=
  match iso78163ComputeFdRatio (fidi.toNat / 16) (fidi.toNat % 16) with
  | some ratio => if 0 < ratio ∧ ratio ≤ usFidiRatioMax then { s with fidi := some ratio } else s
  | none => s

def changeTpduState (s : Sniffer) (tpduStateNew : TpduSniffState) : Sniffer :=
  { s with gTpdu.state := tpduStateNew }

/-- What `change_state` does on the way to a new state. -/
def enterState (s : Sniffer) : SniffState → Sniffer
  | .reset => (s.updateFidi 0x11).updateWt 10 1
  | .waitAtr => { s with sniffBuffer := [] }
  | .inAtr =>
    { s with gAtr.atrI := 0, conventionConvert := false, tProtocolSupport := 0
             gAtr.state := .waitTs }
  | .inPpsReq | .inPpsRsp => { s with gPps.state := .waitPpss }
  | .waitTpdu => { s.changeTpduState .cla with gTpdu.packetI := 0 }
  | .inTpdu | .waitPpsRsp => s

def changeState (s : Sniffer) (isoStateNew : SniffState) : Sniffer :=
  if isoStateNew = s.isoState then s
  else { s.enterState isoStateNew with isoState := isoStateNew }

def usbMsgSubmit (s : Sniffer) (msg : SniffMsg) : Sniffer :=
  { s with asked := s.asked + 1, sent := s.sent ++ if s.alloc s.asked then [msg] else [] }

def usbSendData (s : Sniffer) (type : SniffType) (data : List UInt8) (flags : UInt32) : Sniffer :=
  s.usbMsgSubmit (.data type flags data)

def usbSendAtr (s : Sniffer) (flags : UInt32) : Sniffer :=
  if s.isoState ≠ .inAtr then s
  else if maxAtrSize < s.gAtr.atrI then s
  else s.usbSendData .atr (s.gAtr.atr.upTo s.gAtr.atrI) flags

def usbSendTpdu (s : Sniffer) (flags : UInt32) : Sniffer :=
  if s.isoState ≠ .inTpdu then s
  else s.usbSendData .tpdu (s.gTpdu.packet.upTo s.gTpdu.packetI) flags

def usbSendFidi (s : Sniffer) (fidi : UInt8) : Sniffer := s.usbMsgSubmit (.fidi fidi)

def usbSendChange (s : Sniffer) (flags : UInt32) : Sniffer :=
  if flags = 0 then s else s.usbMsgSubmit (.change flags)

end Sniffer
end Simtrace2
