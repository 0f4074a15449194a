import Simtrace2.Sniffer.AtrGrammar
import Simtrace2.Sniffer.Reconstruct

/-! What the sniffer does, without the buffers and counters it does it with: a message
is the list of its bytes, and nothing is kept that no later step looks at. -/
namespace Simtrace2
open Lib Sniffer

/-- An ATR after T0: the place of the next byte, and the places known to follow it. -/
structure AtrReading where
  got : List UInt8
  place : AtrSniffState
  behind : List AtrSniffState
  group : Nat
  support : Nat

inductive Phase where
  | reset
  | waitAtr
  | gotTs (ts : UInt8)
  | inAtr (a : AtrReading)
  | waitTpdu
  | inTpdu (st : TpduSniffState) (got : List UInt8)
  | inPps (rsp : Bool) (got : List UInt8)
  | waitPpsRsp

/-- What a step needs in every phase. -/
structure Common where
  convert : Bool
  wt : SniffWt
  changeFlags : UInt32
  ring : List UInt16
  alloc : Nat → Bool
  asked : Nat
  sent : List SniffMsg

structure Listener extends Common where
  phase : Phase

def SniffWt.update (wt : SniffWt) (wi : UInt8) (d : Nat) : SniffWt :=
  let wi := if wi ≠ 0 then wi else wt.wi
  let d := if d ≠ 0 then d else wt.d
  { wi, d, gWt := wi.toNat * 960 * d }

theorem SniffWt.update_gWt (wt : SniffWt) (wi : UInt8) (d : Nat) :
    (wt.update wi d).gWt = (wt.update wi d).wi.toNat * 960 * (wt.update wi d).d := rfl

def SniffWt.default : SniffWt := ⟨10, 1, 9600⟩

def optional (y mask : UInt8) (place : AtrSniffState) : List AtrSniffState :=
  if hasBit y mask then [place] else []

def fromTd (y : UInt8) (histLen : Nat) : List AtrSniffState :=
  optional y 0x80 .waitTd ++ List.replicate histLen .waitHist

def fromTc (y : UInt8) (histLen : Nat) : List AtrSniffState :=
  optional y 0x40 .waitTc ++ fromTd y histLen

def fromTb (y : UInt8) (histLen : Nat) : List AtrSniffState :=
  optional y 0x20 .waitTb ++ fromTc y histLen

/-- The places that T0 or a TD announces, and the historical bytes. -/
def fromTa (y : UInt8) (histLen : Nat) : List AtrSniffState :=
  optional y 0x10 .waitTa ++ fromTb y histLen

def ppsLength (pps0 : UInt8) : Nat :=
  3 + (if hasBit pps0 0x10 then 1 else 0) + (if hasBit pps0 0x20 then 1 else 0)
    + (if hasBit pps0 0x40 then 1 else 0)

/-- The byte a response is taken to carry its Fi/Di in: PPS1, or else PPS0. -/
def ppsFidi (got : List UInt8) : UInt8 :=
  if hasBit (got.getD 1 0) 0x10 then got.getD 2 0 else got.getD 1 0

def ppsD (got : List UInt8) : Nat :=
  let dn := if hasBit (got.getD 1 0) 0x10 then (ppsFidi got).toNat % 16 else 1
  (iso78163DiTable[dn]?).getD 0

namespace Listener

def submit (l : Listener) (msg : SniffMsg) : Listener :=
  { l with asked := l.asked + 1, sent := l.sent ++ if l.alloc l.asked then [msg] else [] }

def goto (l : Listener) (phase : Phase) : Listener := { l with phase }

def waitAtr (l : Listener) : Listener := { l with phase := .waitAtr, ring := [] }

@[simp] theorem goto_phase (l : Listener) (phase : Phase) : (l.goto phase).phase = phase := rfl

@[simp] theorem submit_phase (l : Listener) (msg : SniffMsg) : (l.submit msg).phase = l.phase := rfl

def finishAtr (l : Listener) (a : AtrReading) : Listener :=
  let damaged := a.place = .waitTck ∧ xorAll (a.got.drop 1) ≠ 0
  (l.submit (.data .atr (if damaged then sniffDataFlagErrorChecksum else 0) a.got)).goto .waitTpdu

def advance (l : Listener) (a : AtrReading) : Listener :=
  match a.behind with
  | place :: behind => l.goto (.inAtr { a with place, behind })
  | [] =>
    if 1 < a.support ∧ a.place ≠ .waitTck then l.goto (.inAtr { a with place := .waitTck })
    else l.finishAtr a

def hearTs (l : Listener) (byte : UInt8) : Listener :=
  if byte = 0x23 ∨ byte = 0x30 then { l with convert := true, phase := .gotTs byte }
  else if byte = 0x3b ∨ byte = 0x3f then { l with convert := false, phase := .gotTs byte }
  else ({ l with convert := false }.submit
    (.data .atr sniffDataFlagErrorMalformed [byte])).waitAtr

def hearT0 (l : Listener) (ts byte : UInt8) : Listener :=
  l.advance
    { got := [ts, byte], place := .waitT0, group := 1, support := 0
      behind := fromTa (byte &&& 0xf0) (byte &&& 0x0f).toNat }

def hearAtr (l : Listener) (a : AtrReading) (byte : UInt8) : Listener :=
  let read := { a with got := a.got ++ [byte] }
  match a.place with
  | .waitTd =>
    l.advance { read with
      behind := fromTa (byte &&& 0xf0) a.behind.length
      group := a.group + 1, support := a.support ||| 1 <<< (byte &&& 0x0f).toNat }
  | .waitTc =>
    if a.group = 2 then { l with wt := l.wt.update (if byte = 0 then 10 else byte) 0 }.advance read
    else l.advance read
  | _ => l.advance read

def malformed (l : Listener) (got : List UInt8) : Listener :=
  (l.submit (.data .tpdu sniffDataFlagErrorMalformed got)).goto .waitTpdu

def hearSw1 (l : Listener) (got : List UInt8) (byte : UInt8) : Listener :=
  if isSw1 byte then l.goto (.inTpdu .sw2 (got ++ [byte])) else l.malformed got

def hearProcedure (l : Listener) (got : List UInt8) (byte : UInt8) : Listener :=
  if byte = 0x60 then l
  else if got.getD 1 0 = byte then l.goto (.inTpdu .dataRemaining got)
  else if ~~~ got.getD 1 0 = byte then l.goto (.inTpdu .dataSingle got)
  else l.hearSw1 got byte

def tpduLength (got : List UInt8) : Nat :=
  if got.getD 4 0 = 0 then 5 + 256 else 5 + (got.getD 4 0).toNat

def hearTpdu (l : Listener) (got : List UInt8) (byte : UInt8) : TpduSniffState → Listener
  | .cla => l.goto (.inTpdu .ins (got ++ [byte]))
  | .ins => if isSw1 byte then l.malformed got else l.goto (.inTpdu .p1 (got ++ [byte]))
  | .p1 => l.goto (.inTpdu .p2 (got ++ [byte]))
  | .p2 => l.goto (.inTpdu .p3 (got ++ [byte]))
  | .p3 => l.goto (.inTpdu .procedure (got ++ [byte]))
  | .procedure => l.hearProcedure got byte
  | .sw1 => l.hearSw1 got byte
  | .sw2 => (l.submit (.data .tpdu 0 (got ++ [byte]))).goto .waitTpdu
  | .dataSingle => l.goto (.inTpdu .procedure (got ++ [byte]))
  | .dataRemaining =>
    if tpduLength (got ++ [byte]) ≤ got.length + 1 then l.goto (.inTpdu .procedure (got ++ [byte]))
    else l.goto (.inTpdu .dataRemaining (got ++ [byte]))

def agree (l : Listener) (got : List UInt8) : Listener :=
  { l with wt := l.wt.update 0 (ppsD got) }.submit (.fidi (ppsFidi got))

def finishPps (l : Listener) (rsp : Bool) (got : List UInt8) : Listener :=
  let good := xorAll got = 0
  let l := l.submit (.data .pps (if good then 0 else sniffDataFlagErrorChecksum) got)
  if good then (if rsp then (l.agree got).goto .waitTpdu else l.goto .waitPpsRsp)
  else l.goto .waitTpdu

def hearPps (l : Listener) (rsp : Bool) (got : List UInt8) : Listener :=
  if 2 ≤ got.length ∧ ppsLength (got.getD 1 0) ≤ got.length then l.finishPps rsp got
  else l.goto (.inPps rsp got)

def hear (l : Listener) (byte : UInt8) : Listener :=
  match l.phase with
  | .reset => l
  | .waitAtr => l.hearTs byte
  | .gotTs ts => l.hearT0 ts byte
  | .inAtr a => if maxAtrSize ≤ a.got.length then l else l.hearAtr a byte
  | .waitTpdu =>
    if byte = 0xff then l.goto (.inPps false [byte]) else l.goto (.inTpdu .ins [byte])
  | .inTpdu st got => if maxTpduSize ≤ got.length then l else l.hearTpdu got byte st
  | .inPps rsp got => l.hearPps rsp (got ++ [byte])
  | .waitPpsRsp => if byte = 0xff then l.goto (.inPps true [byte]) else l

def partialMsg : Phase → Option (SniffType × List UInt8)
  | .gotTs ts => some (.atr, [ts])
  | .inAtr a => some (.atr, a.got)
  | .inTpdu _ got => some (.tpdu, got)
  | .inPps _ got => some (.pps, got)
  | .reset | .waitAtr | .waitTpdu | .waitPpsRsp => none

def sendIncomplete (l : Listener) : Listener :=
  match partialMsg l.phase with
  | some (type, got) => l.submit (.data type sniffDataFlagErrorIncomplete got)
  | none => l

def timeout (l : Listener) : Listener :=
  match l.phase with
  | .gotTs _ | .inAtr _ => l.sendIncomplete.waitAtr
  | .inTpdu _ _ | .inPps _ _ => l.sendIncomplete.goto .waitTpdu
  | .reset | .waitAtr | .waitTpdu | .waitPpsRsp => l

def convertByte (l : Listener) (byte : UInt8) : UInt8 :=
  if l.convert then (conventionConvertLut[byte.toNat]?).getD 0 else byte

def entry (l : Listener) (entry : UInt16) : Listener :=
  let l := if entry &&& rbuf16FDataByte ≠ 0 then l.hear (l.convertByte (entry &&& 0xff).toUInt8)
    else l
  if entry &&& rbuf16FTimeoutWt ≠ 0 then l.timeout else l

def assertReset (l : Listener) : Listener :=
  match l.phase with
  | .reset => l
  | _ => { l.sendIncomplete with phase := .reset, wt := .default }

def deassertReset (l : Listener) : Listener :=
  match l.phase with
  | .waitAtr => l
  | _ => l.waitAtr

def handleReset (l : Listener) (flags : UInt32) : Listener :=
  let l := if hasFlag flags sniffChangeFlagResetAssert then l.assertReset else l
  if hasFlag flags sniffChangeFlagResetDeassert then l.deassertReset else l

def flags (l : Listener) : Listener :=
  if l.changeFlags = 0 then l
  else { (l.handleReset l.changeFlags).submit (.change l.changeFlags) with changeFlags := 0 }

def turn (l : Listener) : Listener :=
  let l := match l.ring with
    | [] => l
    | entry :: ring => { l with ring }.entry entry
  l.flags

def step (l : Listener) : SniffInput → Listener
  | .entry entry => if l.ring.length + 1 < ring16Buflen then { l with ring := l.ring ++ [entry] } else l
  | .change flags => { l with changeFlags := l.changeFlags ||| flags }
  | .turn => l.turn

end Listener

end Simtrace2
