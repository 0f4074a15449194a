import Simtrace2.Sniffer.State

/-! The parsers of the sniffer, one step for each byte on the line. The cases of the
source that fall through are functions here, each called from the case above it. -/
namespace Simtrace2
open Lib

namespace Sniffer

def setAtrState (s : Sniffer) (st : AtrSniffState) : Sniffer := { s with gAtr.state := st }

/-! Of `process_byte_atr`. -/

def atrChecksum (s : Sniffer) : UInt8 :=
  ((s.gAtr.atr.upTo s.gAtr.atrI).drop 1).foldl (fun csum x => csum ^^^ x) 0

def atrWaitTck (s : Sniffer) : Sniffer :=
  let s := if s.gAtr.state = .waitTck ∧ s.atrChecksum ≠ 0 then
      { s with gAtr.flags := s.gAtr.flags ||| sniffDataFlagErrorChecksum }
    else s
  (s.usbSendAtr s.gAtr.flags).changeState .waitTpdu

def atrAfterHist (s : Sniffer) : Sniffer :=
  if 1 < s.tProtocolSupport then s.setAtrState .waitTck else s.atrWaitTck

def atrWaitHist (s : Sniffer) : Sniffer :=
  let s := { s with gAtr.histLen := s.gAtr.histLen - 1 }
  if s.gAtr.histLen = 0 then s.atrAfterHist else s

def atrAfterTc (s : Sniffer) : Sniffer :=
  if hasBit s.gAtr.y 0x80 then s.setAtrState .waitTd
  else if s.gAtr.histLen ≠ 0 then s.setAtrState .waitHist
  else s.atrWaitHist

def atrWaitTc (s : Sniffer) (byte : UInt8) : Sniffer :=
  if s.gAtr.state = .waitTc ∧ s.gAtr.i = 2 then
    (s.updateWt (if byte = 0 then 10 else byte) 0).atrAfterTc
  else s.atrAfterTc

def atrWaitTb (s : Sniffer) (byte : UInt8) : Sniffer :=
  if hasBit s.gAtr.y 0x40 then s.setAtrState .waitTc else s.atrWaitTc byte

def atrWaitTa (s : Sniffer) (byte : UInt8) : Sniffer :=
  if hasBit s.gAtr.y 0x20 then s.setAtrState .waitTb else s.atrWaitTb byte

def atrAnnounce (s : Sniffer) (byte : UInt8) : Sniffer :=
  let s := { s with gAtr.y := byte &&& 0xf0, gAtr.i := s.gAtr.i + 1 }
  if hasBit s.gAtr.y 0x10 then s.setAtrState .waitTa else s.atrWaitTa byte

def atrWaitTs (s : Sniffer) (byte : UInt8) : Sniffer :=
  let s := { s with gAtr.flags := 0 }
  let s := if byte = 0x23 ∨ byte = 0x30 then
      { s with conventionConvert := !s.conventionConvert }.setAtrState .waitT0
    else if byte = 0x3b ∨ byte = 0x3f then s.setAtrState .waitT0
    else (s.usbSendAtr sniffDataFlagErrorMalformed).changeState .waitAtr
  { s with gAtr.i := 0 }

def atrSave (s : Sniffer) (byte : UInt8) : Sniffer :=
  { s with gAtr.atr := s.gAtr.atr.put s.gAtr.atrI byte, gAtr.atrI := s.gAtr.atrI + 1 }

def atrSwitch (s : Sniffer) (byte : UInt8) : AtrSniffState → Sniffer
  | .waitTs => s.atrWaitTs byte
  | .waitT0 => { s with gAtr.histLen := (byte &&& 0x0f).toNat }.atrAnnounce byte
  | .waitTd =>
    { s with
      tProtocolSupport := s.tProtocolSupport ||| 1 <<< (byte &&& 0x0f).toNat }.atrAnnounce byte
  | .waitTa => s.atrWaitTa byte
  | .waitTb => s.atrWaitTb byte
  | .waitTc => s.atrWaitTc byte
  | .waitHist => s.atrWaitHist
  | .waitTck => s.atrWaitTck

def processByteAtr (s : Sniffer) (byte : UInt8) : Sniffer :=
  if s.isoState ≠ .inAtr then s
  else if maxAtrSize ≤ s.gAtr.atrI then s
  else (s.atrSave byte).atrSwitch byte s.gAtr.state

/-! Of `process_byte_pps`. The request or the response is taken from the state. -/

def ppsCur (s : Sniffer) : Buffer maxPpsSize :=
  if s.isoState = .inPpsReq then s.gPps.req else s.gPps.rsp

def ppsPut (s : Sniffer) (i : Nat) (byte : UInt8) : Sniffer :=
  if s.isoState = .inPpsReq then { s with gPps.req := s.gPps.req.put i byte }
  else { s with gPps.rsp := s.gPps.rsp.put i byte }

def setPpsState (s : Sniffer) (st : PpsSniffState) : Sniffer := { s with gPps.state := st }

/-- The order of the states, as `usb_send_pps` compares them. -/
def PpsSniffState.rank : PpsSniffState → Nat
  | .waitPpss => 0 | .waitPps0 => 1 | .waitPps1 => 2 | .waitPps2 => 3 | .waitPps3 => 4
  | .waitPck => 5 | .waitEnd => 6

def ppsSeen (st : PpsSniffState) (cur : Buffer maxPpsSize) : List UInt8 :=
  let rank := PpsSniffState.rank st
  (if 0 < rank then [cur.get 0] else []) ++ (if 1 < rank then [cur.get 1] else [])
    ++ (if 2 < rank ∧ hasBit (cur.get 1) 0x10 then [cur.get 2] else [])
    ++ (if 3 < rank ∧ hasBit (cur.get 1) 0x20 then [cur.get 3] else [])
    ++ (if 4 < rank ∧ hasBit (cur.get 1) 0x40 then [cur.get 4] else [])
    ++ (if 5 < rank then [cur.get 5] else [])

def usbSendPps (s : Sniffer) (flags : UInt32) : Sniffer :=
  if s.isoState = .inPpsReq ∨ s.isoState = .inPpsRsp then
    s.usbSendData .pps (ppsSeen s.gPps.state s.ppsCur) flags
  else s

def ppsWaitPps3 (s : Sniffer) (byte : UInt8) : Sniffer := (s.ppsPut 4 byte).setPpsState .waitPck

def ppsWaitPps2 (s : Sniffer) (byte : UInt8) : Sniffer :=
  let s := s.ppsPut 3 byte
  if hasBit (s.ppsCur.get 1) 0x40 then s.setPpsState .waitPps3 else s.ppsWaitPps3 byte

def ppsWaitPps1 (s : Sniffer) (byte : UInt8) : Sniffer :=
  let s := s.ppsPut 2 byte
  if hasBit (s.ppsCur.get 1) 0x20 then s.setPpsState .waitPps2 else s.ppsWaitPps2 byte

def ppsWaitPps0 (s : Sniffer) (byte : UInt8) : Sniffer :=
  let s := s.ppsPut 1 byte
  if hasBit (s.ppsCur.get 1) 0x10 then s.setPpsState .waitPps1 else s.ppsWaitPps1 byte

def ppsCheck (cur : Buffer maxPpsSize) : UInt8 :=
  cur.get 0 ^^^ cur.get 1 ^^^ (if hasBit (cur.get 1) 0x10 then cur.get 2 else 0)
    ^^^ (if hasBit (cur.get 1) 0x20 then cur.get 3 else 0)
    ^^^ (if hasBit (cur.get 1) 0x40 then cur.get 4 else 0) ^^^ cur.get 5

def ppsAgreed (s : Sniffer) (cur : Buffer maxPpsSize) : Sniffer :=
  let dn := if hasBit (cur.get 1) 0x10 then (cur.get 2).toNat % 16 else 1
  let s := (s.updateFidi (cur.get 2)).updateWt 0 ((iso78163DiTable[dn]?).getD 0)
  s.usbSendFidi (cur.get 2)

def ppsWaitPck (s : Sniffer) (byte : UInt8) : Sniffer :=
  let s := s.ppsPut 5 byte
  let cur := s.ppsCur
  let s := if ppsCheck cur ≠ 0 then
      { s with gPps.flags := s.gPps.flags ||| sniffDataFlagErrorChecksum }
    else s
  let s := s.setPpsState .waitEnd
  let s := s.usbSendPps s.gPps.flags
  if s.isoState = .inPpsReq then
    if ppsCheck cur = 0 then s.changeState .waitPpsRsp else s.changeState .waitTpdu
  else if ppsCheck cur = 0 then (s.ppsAgreed cur).changeState .waitTpdu
  else s.changeState .waitTpdu

def processBytePps (s : Sniffer) (byte : UInt8) : Sniffer :=
  if s.isoState = .inPpsReq ∨ s.isoState = .inPpsRsp then
    match s.gPps.state with
    | .waitPpss =>
      let s := { s with gPps.flags := 0 }
      if byte = 0xff then (s.ppsPut 0 byte).setPpsState .waitPps0
      else (s.usbSendPps sniffDataFlagErrorMalformed).changeState .waitTpdu
    | .waitPps0 => s.ppsWaitPps0 byte
    | .waitPps1 => s.ppsWaitPps1 byte
    | .waitPps2 => s.ppsWaitPps2 byte
    | .waitPps3 => s.ppsWaitPps3 byte
    | .waitPck => s.ppsWaitPck byte
    | .waitEnd => s
  else s

/-! Of `process_byte_tpdu`. -/

/-- The high nibbles of a first status byte, and no instruction. -/
def isSw1 (byte : UInt8) : Bool := byte &&& 0xf0 == 0x60 || byte &&& 0xf0 == 0x90

def tpduMalformed (s : Sniffer) : Sniffer :=
  (s.usbSendTpdu sniffDataFlagErrorMalformed).changeState .waitTpdu

def tpduPut (s : Sniffer) (byte : UInt8) : Sniffer :=
  { s with gTpdu.packet := s.gTpdu.packet.put s.gTpdu.packetI byte
           gTpdu.packetI := s.gTpdu.packetI + 1 }

def tpduHeader (s : Sniffer) (i : Nat) (byte : UInt8) (next : TpduSniffState) : Sniffer :=
  ({ s with gTpdu.packetI := i }.tpduPut byte).changeTpduState next

def tpduSw1 (s : Sniffer) (byte : UInt8) : Sniffer :=
  if isSw1 byte then (s.tpduPut byte).changeTpduState .sw2 else s.tpduMalformed

def tpduProcedure (s : Sniffer) (byte : UInt8) : Sniffer :=
  if byte = 0x60 then s
  else if s.gTpdu.packet.get 1 = byte then s.changeTpduState .dataRemaining
  else if ~~~ s.gTpdu.packet.get 1 = byte then s.changeTpduState .dataSingle
  else s.tpduSw1 byte

def tpduFull (s : Sniffer) : Nat :=
  if s.gTpdu.packet.get 4 = 0 then 5 + 256 else 5 + (s.gTpdu.packet.get 4).toNat

def tpduData (s : Sniffer) (byte : UInt8) : Sniffer :=
  let s := s.tpduPut byte
  let s := if s.tpduFull ≤ s.gTpdu.packetI then s.changeTpduState .procedure else s
  if s.gTpdu.state = .dataSingle then s.changeTpduState .procedure else s

def tpduSwitch (s : Sniffer) (byte : UInt8) : TpduSniffState → Sniffer
  | .cla => if byte = 0xff then s.tpduMalformed else s.tpduHeader 0 byte .ins
  | .ins => if isSw1 byte then s.tpduMalformed else s.tpduHeader 1 byte .p1
  | .p1 => s.tpduHeader 2 byte .p2
  | .p2 => s.tpduHeader 3 byte .p3
  | .p3 => s.tpduHeader 4 byte .procedure
  | .procedure => s.tpduProcedure byte
  | .sw1 => s.tpduSw1 byte
  | .sw2 => ((s.tpduPut byte).usbSendTpdu 0).changeState .waitTpdu
  | .dataSingle | .dataRemaining => s.tpduData byte

def processByteTpdu (s : Sniffer) (byte : UInt8) : Sniffer :=
  if s.isoState ≠ .inTpdu then s
  else if maxTpduSize ≤ s.gTpdu.packetI then s
  else s.tpduSwitch byte s.gTpdu.state

/-! `Sniffer_run`. -/

/-- The interrupt handler's write of an entry; a full buffer loses it. -/
def rbuf16Write (s : Sniffer) (entry : UInt16) : Sniffer :=
  if s.sniffBuffer.length + 1 < ring16Buflen then
    { s with sniffBuffer := s.sniffBuffer ++ [entry] }
  else s

def convert (s : Sniffer) (byte : UInt8) : UInt8 :=
  if s.conventionConvert then (conventionConvertLut[byte.toNat]?).getD 0 else byte

def handleByte (s : Sniffer) (byte : UInt8) : Sniffer :=
  match s.isoState with
  | .reset => s
  | .waitAtr => (s.changeState .inAtr).processByteAtr byte
  | .inAtr => s.processByteAtr byte
  | .waitTpdu =>
    if byte = 0xff then (s.changeState .inPpsReq).processBytePps byte
    else (s.changeState .inTpdu).processByteTpdu byte
  | .waitPpsRsp =>
    if byte = 0xff then (s.changeState .inPpsRsp).processBytePps byte
    else s.processByteTpdu byte
  | .inTpdu => s.processByteTpdu byte
  | .inPpsReq | .inPpsRsp => s.processBytePps byte

def sendIncomplete (s : Sniffer) : Sniffer :=
  match s.isoState with
  | .inAtr => s.usbSendAtr sniffDataFlagErrorIncomplete
  | .inTpdu => s.usbSendTpdu sniffDataFlagErrorIncomplete
  | .inPpsReq | .inPpsRsp => s.usbSendPps sniffDataFlagErrorIncomplete
  | _ => s

def handleTimeout (s : Sniffer) : Sniffer :=
  match s.isoState with
  | .inAtr => s.sendIncomplete.changeState .waitAtr
  | .inTpdu | .inPpsReq | .inPpsRsp => s.sendIncomplete.changeState .waitTpdu
  | _ => s

def handleEntry (s : Sniffer) (entry : UInt16) : Sniffer :=
  let s := if entry &&& rbuf16FDataByte ≠ 0 then
      s.handleByte (s.convert (entry &&& 0xff).toUInt8)
    else s
  if entry &&& rbuf16FTimeoutWt ≠ 0 then s.handleTimeout else s

def handleFlags (s : Sniffer) : Sniffer :=
  if s.changeFlags = 0 then s
  else
    let s := if hasFlag s.changeFlags sniffChangeFlagResetAssert then
        s.sendIncomplete.changeState .reset
      else s
    let s := if hasFlag s.changeFlags sniffChangeFlagResetDeassert then s.changeState .waitAtr else s
    { s.usbSendChange s.changeFlags with changeFlags := 0 }

/-- One turn of the main loop; the USB queues are emptied elsewhere. -/
def snifferRun (s : Sniffer) : Sniffer :=
  let s := match s.sniffBuffer with
    | [] => s
    | entry :: rest => { s with sniffBuffer := rest }.handleEntry entry
  s.handleFlags

/-- A byte arrives on the line and the main loop turns once. -/
def feed (s : Sniffer) (byte : UInt8) : Sniffer :=
  (s.rbuf16Write (rbuf16FDataByte ||| byte.toUInt16)).snifferRun

end Sniffer
end Simtrace2
