import Simtrace2.Lib.Progress
import Simtrace2.Proxy.System

/-! A T=0 reader that gives commands to the emulated card, with the real card behind
the host. -/
namespace Simtrace2
open Lib

structure Command where
  hdr : TpduHdr
  body : List UInt8
deriving DecidableEq, Repr

namespace Command

/-- What T=0 asks of the reader: CLA does not announce a PTS exchange, INS is no NULL
byte, and P3 counts the command data. -/
structure Conforms (c : Command) : Prop where
  cla : c.hdr.cla ≠ 0xff
  ins : c.hdr.ins ≠ iso78163PbNull
  body : c.body = [] ∨ c.body.length = c.hdr.p3.toNat

theorem Conforms.few {c : Command} (h : c.Conforms) : c.body.length ≤ 255 := by
  have p3 : c.hdr.p3.toNat < 256 := UInt8.toNat_lt _
  obtain empty | count := h.body
  · simp [empty]
  · omega

def tpdu (c : Command) : List UInt8 := c.hdr.bytes ++ c.body

end Command

def TpduHdr.le (hdr : TpduHdr) : Nat := if hdr.p3 = 0 then 256 else hdr.p3.toNat

theorem TpduHdr.le_le (hdr : TpduHdr) : hdr.le ≤ 256 := by
  have p3 : hdr.p3.toNat < 256 := UInt8.toNat_lt _
  unfold le
  split <;> omega

structure RealCard where
  answer : TpduHdr → List UInt8 → List UInt8 × UInt8 × UInt8
  fits : ∀ hdr data, (answer hdr data).1 = [] ∨ (answer hdr data).1.length = hdr.le

def HostEnv.ofCard (osimDetermineApduCase : TpduHdr → UInt8) (card : RealCard) : HostEnv where
  osimDetermineApduCase
  transceive tmsg :=
    let r := card.answer (OsmoApduContext.readHdr tmsg) (tmsg.drop 5)
    if tmsg.length + r.1.length + 2 ≤ 1024 then some r else none
  room tmsg response sw got := by
    simp only at got
    split at got
    · rename_i fits
      rwa [Option.some.inj got] at fits
    · cases got

/-- Whose turn the reader thinks it is, with what it has still to send. -/
inductive ReaderPhase where
  | header (rest : List UInt8)
  | procedure (body : List UInt8)
  | body (rest : List UInt8)
  | data (left : Nat)
  | sw1
  | sw2
deriving DecidableEq, Repr

structure Reader where
  todo : List Command
  phase : ReaderPhase
  decoded : List UInt8
deriving DecidableEq, Repr

namespace Reader

def begin : List Command → ReaderPhase
  | [] => .header []
  | c :: _ => .header c.hdr.bytes

def sends (r : Reader) : Option (UInt8 × Reader) :=
  match r.todo, r.phase with
  | c :: _, .header [byte] => some (byte, { r with phase := .procedure c.body })
  | _ :: _, .header (byte :: rest) => some (byte, { r with phase := .header rest })
  | _ :: _, .body [byte] => some (byte, { r with phase := .procedure [] })
  | _ :: _, .body (byte :: rest) => some (byte, { r with phase := .body rest })
  | _, _ => none

/-- A byte of the card. Where a procedure byte is expected, NULL bytes are dropped, INS
has the data transferred, and any other byte is SW1. -/
def hears (r : Reader) (byte : UInt8) : Reader :=
  match r.todo, r.phase with
  | c :: _, .procedure body =>
    if byte = iso78163PbNull then r
    else
      { r with
        decoded := r.decoded ++ [byte]
        phase := if byte = c.hdr.ins then
            if body = [] then .data c.hdr.le else .body body
          else .sw2 }
  | _ :: _, .data left =>
    { r with decoded := r.decoded ++ [byte], phase := if left ≤ 1 then .sw1 else .data (left - 1) }
  | _ :: _, .sw1 =>
    if byte = iso78163PbNull then r else { r with decoded := r.decoded ++ [byte], phase := .sw2 }
  | _ :: cs, .sw2 => { decoded := r.decoded ++ [byte], todo := cs, phase := begin cs }
  | _, _ => { r with decoded := r.decoded ++ [byte] }

variable {r : Reader} {c : Command} {cs : List Command} {byte : UInt8} {rest : List UInt8}

theorem sends_header (todo : r.todo = c :: cs) (phase : r.phase = .header (byte :: rest)) :
    r.sends = some (byte, { r with
      phase := if rest = [] then .procedure c.body else .header rest }) := by
  cases rest <;> simp [sends, todo, phase]

theorem sends_body (todo : r.todo = c :: cs) (phase : r.phase = .body (byte :: rest)) :
    r.sends = some (byte, { r with phase := if rest = [] then .procedure [] else .body rest }) := by
  cases rest <;> simp [sends, todo, phase]

theorem sends_same {r' : Reader} (h : r.sends = some (byte, r')) :
    r'.todo = r.todo ∧ r'.decoded = r.decoded := by
  unfold sends at h
  split at h <;> cases h <;> exact ⟨rfl, rfl⟩

theorem hears_null (todo : r.todo = c :: cs) {body : List UInt8} (phase : r.phase = .procedure body) :
    r.hears iso78163PbNull = r := by
  simp [hears, todo, phase]

end Reader

structure Session where
  proxy : Proxy
  reader : Reader

inductive SessionInput where
  | reader
  | irqTx
  | wtimeHalfExpired
  | hostReceives
  | deviceReceives (behind : Nat → UInt8)

/-- What drives a session on; the waiting time only has it wait. -/
inductive SessionInput.Kind where
  | reader | irqTx | hostReceives | deviceReceives
deriving DecidableEq, Repr

def SessionInput.kind : SessionInput → Option Kind
  | .reader => some .reader
  | .irqTx => some .irqTx
  | .wtimeHalfExpired => none
  | .hostReceives => some .hostReceives
  | .deviceReceives _ => some .deviceReceives

namespace Session

def act (env : HostEnv) (slotNr : UInt8) (s : Session) (input : ProxyInput) : Session :=
  let proxy := s.proxy.step env slotNr input
  { proxy, reader := (proxy.ci.emu.uart.sent.drop s.proxy.ci.emu.uart.sent.length).foldl
      Reader.hears s.reader }

def step (env : HostEnv) (slotNr : UInt8) (s : Session) : SessionInput → Session
  | .reader =>
    match s.reader.sends with
    | none => s
    | some (byte, reader) => { s with reader }.act env slotNr (.rxByte byte true)
  | .irqTx => s.act env slotNr .irqTx
  | .wtimeHalfExpired => s.act env slotNr .wtimeHalfExpired
  | .hostReceives => s.act env slotNr .hostReceives
  | .deviceReceives behind => s.act env slotNr (.deviceReceives behind)

/-- Half the waiting time is over only while no message is partially sent. -/
def HalfBetween (s : Session) : SessionInput → Prop
  | .wtimeHalfExpired => s.proxy.ci.emu.ch.uartTxMsg.isNone = true
  | _ => True

instance (s : Session) : (input : SessionInput) → Decidable (s.HalfBetween input)
  | .wtimeHalfExpired => inferInstanceAs (Decidable (s.proxy.ci.emu.ch.uartTxMsg.isNone = true))
  | .reader | .irqTx | .hostReceives | .deviceReceives _ => isTrue trivial

variable {s : Session} {env : HostEnv} {slotNr : UInt8} {input : ProxyInput} {l : Line}

theorem act_reader {bytes : List UInt8} (line : (s.proxy.step env slotNr input).ci.emu.line = l)
    (sent : l.sent = s.proxy.ci.emu.line.sent ++ bytes) :
    (s.act env slotNr input).reader = bytes.foldl Reader.hears s.reader := by
  have here : (s.proxy.step env slotNr input).ci.emu.uart.sent =
      s.proxy.ci.emu.uart.sent ++ bytes := (congrArg Line.sent line).trans sent
  simp only [act, here, List.drop_left]

theorem act_silent (line : (s.proxy.step env slotNr input).ci.emu.line = l)
    (sent : l.sent = s.proxy.ci.emu.line.sent) : (s.act env slotNr input).reader = s.reader :=
  act_reader line (sent.trans (List.append_nil _).symm)

end Session
end Simtrace2
