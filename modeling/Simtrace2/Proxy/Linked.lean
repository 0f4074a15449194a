import Simtrace2.CardEmu.Transparency
import Simtrace2.Proxy.Answering
import Simtrace2.Proxy.Attribution

/-! What each input does to the line, to the two FIFOs and to the host, while the card
is between or in TPDUs. -/
namespace Simtrace2
open Lib

theorem Line.Sound.of_tx {l l' : Line} (h : l.Sound) (tx : l'.tx = l.tx) : l'.Sound := by
  intro m held
  exact h m (tx.symm.trans held)

theorem Line.Idle.sending {l : Line} {inEp : Nat} {sent : List UInt8} {usb : List UsbMsg}
    (h : l.Idle inEp sent usb) (sent' : List UInt8) :
    ({ l with sent := sent' } : Line).Idle inEp sent' usb :=
  ⟨h.state, h.ts, h.inEp, h.rx, h.tx, h.queue, rfl, h.usb⟩

theorem Line.InTpdu.taken {l l' : Line} {ts : TpduState} {hdr : TpduHdr} {inEp : Nat}
    {rx : Option RxMsg} {sent : List UInt8} {usb : List UsbMsg} (h : l.InTpdu ts hdr inEp rx sent usb)
    (line : l' = { l with usb := [] }) : l'.InTpdu ts hdr l'.inEp rx l'.sent [] := by
  subst line
  exact ⟨h.state, h.tpdu, rfl, h.rx, h.tx, h.queue, rfl, rfl⟩

theorem Line.InTpdu.sending {l : Line} {ts : TpduState} {hdr : TpduHdr} {inEp : Nat}
    {rx : Option RxMsg} {sent : List UInt8} {usb : List UsbMsg} (h : l.InTpdu ts hdr inEp rx sent usb)
    (sent' : List UInt8) : ({ l with sent := sent' } : Line).InTpdu ts hdr inEp rx sent' usb :=
  ⟨h.state, h.tpdu, h.inEp, h.rx, h.tx, h.queue, rfl, h.usb⟩

namespace Proxy
variable {p : Proxy} (env : HostEnv) (slotNr : UInt8)

/-- A card between or in TPDUs whose messages all went out, and messages that fit. -/
structure Linked (p : Proxy) : Prop where
  act : Activated p.ci.emu.ch
  directed : p.ci.emu.Directed
  usb : p.ci.emu.usb = []
  sound : p.ci.emu.line.Sound
  answers : ∀ r ∈ p.toDev, r.2.payload ≠ [] ∧ r.2.payload.length + 14 < 65536

/-- What the host has asked to be sent and the card has not put on the line. -/
def owed (p : Proxy) : List TxRequest :=
  p.ci.emu.line.pending.map (fun m => ⟨m.flags, m.bytes⟩) ++ p.toDev.map Prod.snd

theorem owed_cons {m : Pending} {rest : List Pending} (next : p.ci.emu.line.pending = m :: rest) :
    p.owed = ⟨m.flags, m.bytes⟩ ::
      (rest.map (fun m => ⟨m.flags, m.bytes⟩) ++ p.toDev.map Prod.snd) := by
  rw [owed, next]
  rfl

/-- The card's step has led to `l`, and USB has taken what it submitted. -/
structure Moved (p p' : Proxy) (l : Line) : Prop where
  linked : p'.Linked
  line : p'.ci.emu.line = { l with usb := [] }
  toHost : p'.toHost = p.toHost ++ l.usb
  toDev : p'.toDev = p.toDev
  host : p'.host = p.host
  tpdu : p'.tpdu = p.tpdu

theorem Moved.pending {p' : Proxy} {l : Line} (h : Moved p p' l) :
    p'.ci.emu.line.pending = l.pending := by
  rw [h.line]
  rfl

theorem Moved.quiet {p' : Proxy} {l : Line} (h : Moved p p' l) (usb : l.usb = []) :
    p'.toHost = p.toHost := by
  rw [h.toHost, usb, List.append_nil]

theorem Moved.owed {p' : Proxy} {l : Line} {m : Pending} {byte : UInt8} {bytes : List UInt8}
    {rest : List Pending} (h : Moved p p' l)
    (sent : Line.ByteSent p.ci.emu.line l m byte bytes rest) :
    p'.owed = if bytes = [] then rest.map (fun m => ⟨m.flags, m.bytes⟩) ++ p.toDev.map Prod.snd
      else ⟨m.flags, bytes⟩ ::
        (rest.map (fun m => ⟨m.flags, m.bytes⟩) ++ p.toDev.map Prod.snd) := by
  rw [Proxy.owed, h.pending, h.toDev, sent.pending]
  split <;> rfl

namespace Linked

theorem card (h : p.Linked) {input : CardInput} {l : Line}
    (step : (p.ci.irqStep input).emu.line = l) (sound : l.Sound) : Moved p (p.card input) l := by
  subst step
  exact ⟨⟨CardemInst.irqStep_activated h.act input, CardemInst.irqStep_directed h.act h.directed input,
    rfl, sound, h.answers⟩, rfl, rfl, rfl, rfl, rfl⟩

theorem rxByte (h : p.Linked) (byte : UInt8)
    (st : p.ci.emu.line.state = .inTpdu ∨ p.ci.emu.line.state = .waitTpdu ∧ byte ≠ 0xff) :
    ∃ tag, (p.ci.emu.line.state = .inTpdu → tag = p.tpdu) ∧
      Moved { p with tpdu := tag } (p.step env slotNr (.rxByte byte true))
        (p.ci.emu.line.rxByte byte (some tag)) := by
  refine ⟨if p.beginsTpdu byte then p.tpdu + 1 else p.tpdu, ?_, ?_⟩
  · intro inside
    have st : p.ci.emu.ch.state = .inTpdu := inside
    simp [beginsTpdu, st]
  · have same : Linked { p with tpdu := if p.beginsTpdu byte then p.tpdu + 1 else p.tpdu } :=
      ⟨h.act, h.directed, h.usb, h.sound, h.answers⟩
    have step (alloc : Alloc) : (p.ci.irqStep (.processRxByte byte alloc)).emu.line =
        p.ci.emu.line.rxByte byte alloc := Emu.line_rxByte byte st alloc
    exact same.card (step _) (h.sound.of_tx (Line.rxByte_frame ..).1)

theorem irqTx (h : p.Linked) (st : p.ci.emu.line.state = .inTpdu) :
    Moved p (p.step env slotNr .irqTx)
      (if p.ci.emu.uart.txrdy then p.ci.emu.line.txByte.1 else p.ci.emu.line) := by
  obtain ⟨line, _⟩ := Emu.line_txByte st
  have step : (p.ci.irqStep .txByte).emu.line =
      if p.ci.emu.uart.txrdy then p.ci.emu.line.txByte.1 else p.ci.emu.line := by
    simp only [CardemInst.irqStep, CardemInst.usartIrqTx]
    split
    · rw [← line]
      simp only
      split <;> rfl
    · rfl
  have sound : (if p.ci.emu.uart.txrdy then p.ci.emu.line.txByte.1 else p.ci.emu.line).Sound := by
    split
    · cases left : p.ci.emu.line.pending with
      | nil =>
        obtain ⟨tx, queue⟩ := Line.pending_nil.mp left
        have idle : p.ci.emu.line.txByte.1 = p.ci.emu.line := by
          simp [Line.txByte, Line.txMsg, tx, queue]
        rw [idle]
        exact h.sound
      | cons m rest =>
        obtain ⟨msg, queue, _, info, small, _⟩ := Line.pending_txMsg h.sound left
        obtain ⟨byte, bytes, shape⟩ := List.exists_cons_of_ne_nil (Msgb.pulled_ne_nil small)
        subst info
        exact (Line.byteSent st h.sound left shape).sound
    · exact h.sound
  have same : Linked { p with aired := p.aired ++ p.ci.emu.airing.map fun tag => (p.tpdu, tag) } :=
    ⟨h.act, h.directed, h.usb, h.sound, h.answers⟩
  obtain ⟨linked, line', toHost, toDev, host, tpdu⟩ := same.card step sound
  exact ⟨linked, line', toHost, toDev, host, tpdu⟩

theorem irqTx_silent (h : p.Linked) (st : p.ci.emu.line.state = .inTpdu)
    (nothing : p.ci.emu.line.pending = []) :
    Moved p (p.step env slotNr .irqTx) p.ci.emu.line := by
  obtain ⟨tx, queue⟩ := Line.pending_nil.mp nothing
  have idle : p.ci.emu.line.txByte.1 = p.ci.emu.line := by
    simp [Line.txByte, Line.txMsg, tx, queue]
  have moved := h.irqTx env slotNr st
  rwa [idle, ite_self] at moved

theorem irqTx_byte (h : p.Linked) (st : p.ci.emu.line.state = .inTpdu)
    (sends : p.ci.emu.line.tpdu.state.sending = true) {m : Pending} {rest : List Pending}
    (next : p.ci.emu.line.pending = m :: rest) {byte : UInt8} {bytes : List UInt8}
    (shape : m.bytes = byte :: bytes) :
    ∃ l, Moved p (p.step env slotNr .irqTx) l ∧
      Line.ByteSent p.ci.emu.line l m byte bytes rest := by
  have waits : p.ci.emu.ch.pendingTx := by
    by_contra none'
    have empty : p.ci.emu.line.pending = [] := by
      rw [Line.pending_nil]
      simp only [CardHandle.pendingTx, not_or, not_not] at none'
      exact none'
    rw [empty] at next
    cases next
  have on : p.ci.emu.uart.txrdy = true := by
    have directed := h.directed
    have now : p.ci.emu.ch.state = .inTpdu := st
    have turn : p.ci.emu.ch.tpdu.state.sending = true := sends
    simp only [Emu.Directed, now, turn, if_true] at directed
    exact directed.2 waits
  have moved := h.irqTx env slotNr st
  rw [on] at moved
  exact ⟨_, moved, Line.byteSent st h.sound next shape⟩

theorem irqTx_idle (h : p.Linked) (st : p.ci.emu.line.state = .waitTpdu) :
    Moved p (p.step env slotNr .irqTx) p.ci.emu.line := by
  have now : p.ci.emu.ch.state = .waitTpdu := st
  have step : (p.ci.irqStep .txByte).emu.line = p.ci.emu.line := by
    simp only [CardemInst.irqStep, CardemInst.usartIrqTx, Emu.cardEmuTxByte, now]
    split <;> rfl
  have same : Linked { p with aired := p.aired ++ p.ci.emu.airing.map fun tag => (p.tpdu, tag) } :=
    ⟨h.act, h.directed, h.usb, h.sound, h.answers⟩
  obtain ⟨linked, line', toHost, toDev, host, tpdu⟩ := same.card step h.sound
  exact ⟨linked, line', toHost, toDev, host, tpdu⟩

theorem wtimeHalfExpired (h : p.Linked)
    (st : p.ci.emu.line.state = .inTpdu ∨ p.ci.emu.line.state = .waitTpdu) :
    Moved p (p.step env slotNr .wtimeHalfExpired)
      (if p.ci.emu.line.state = .inTpdu ∧ p.ci.emu.line.tpdu.state.sending = true then
          { p.ci.emu.line with sent := p.ci.emu.line.sent ++ [iso78163PbNull] }
        else p.ci.emu.line) := by
  obtain st | st := st
  · have half : p.ci.emu.line.halfExpired =
        if p.ci.emu.line.state = .inTpdu ∧ p.ci.emu.line.tpdu.state.sending = true then
          { p.ci.emu.line with sent := p.ci.emu.line.sent ++ [iso78163PbNull] }
        else p.ci.emu.line := by
      unfold Line.halfExpired
      cases ts : p.ci.emu.line.tpdu.state <;> simp [st, TpduState.sending]
    have step : (p.ci.irqStep .wtimeHalfExpired).emu.line = p.ci.emu.line.halfExpired :=
      Emu.line_halfExpired st
    rw [half] at step
    exact h.card step (h.sound.of_tx (by split <;> rfl))
  · have now : p.ci.emu.ch.state = .waitTpdu := st
    have same : p.ci.emu.cardEmuWtimeHalfExpired = p.ci.emu := by
      simp [Emu.cardEmuWtimeHalfExpired, now]
    rw [if_neg (by simp [st])]
    exact h.card (congrArg Emu.line same) h.sound

theorem deviceReceives (h : p.Linked) {tag : Nat} {req : TxRequest} {rest : List (Nat × TxRequest)}
    (queued : p.toDev = (tag, req) :: rest) (ready : p.ci.emu.line.state.ready = true)
    (behind : Nat → UInt8) :
    Moved { p with toDev := rest } (p.step env slotNr (.deviceReceives behind))
        (p.ci.emu.line.enqueue { req with tag, slotNr, behind : TxData }.msgb) ∧
      (p.step env slotNr (.deviceReceives behind)).owed = p.owed := by
  let msg : TxData := { req with tag, slotNr, behind }
  have dispatched : (p.ci.irqStep (.dispatch msg.msgb none)).emu =
      CardemInst.dispatchTxData p.ci.emu msg.msgb := by
    simp [CardemInst.irqStep, CardemInst.step, CardemInst.dispatchUsbCommandCardem, msg.msgType_msgb]
  have line : (p.ci.irqStep (.dispatch msg.msgb none)).emu.line = p.ci.emu.line.enqueue msg.msgb := by
    rw [dispatched]
    exact line_dispatchTxData ready _
  have same : Linked { p with toDev := rest } :=
    ⟨h.act, h.directed, h.usb, h.sound, fun r hr => h.answers r
      (by rw [queued]; exact List.mem_cons_of_mem _ hr)⟩
  have step : p.step env slotNr (.deviceReceives behind) =
      { p with toDev := rest }.card (.dispatch msg.msgb none) := by
    simp only [Proxy.step, queued]
    rfl
  have moved := same.card line (h.sound.of_tx rfl)
  rw [step]
  refine ⟨moved, ?_⟩
  obtain ⟨some', small⟩ := h.answers (tag, req) (by rw [queued]; exact List.mem_cons_self)
  have pending := Line.pending_enqueue p.ci.emu.line (m := msg) some' small
  have left : ({ p with toDev := rest }.card (.dispatch msg.msgb none)).toDev = rest := moved.toDev
  rw [owed, owed, moved.pending, left, pending, queued]
  simp [msg]

theorem hostReceives (h : p.Linked) {msg : UsbMsg} {rest : List UsbMsg}
    (queued : p.toHost = msg :: rest) {flags : UInt32} {data : List UInt8}
    (payload : msg.payload = .rxData flags data.length data) {host : Host} {requests : List TxRequest}
    (answers : p.host.processDoRxDa env flags data = (host, requests)) :
    p.step env slotNr .hostReceives =
        { p with toHost := rest, host, toDev := p.toDev ++ requests.map fun req => (msg.tag, req) } ∧
      (p.step env slotNr .hostReceives).Linked := by
  have step : p.step env slotNr .hostReceives =
      { p with toHost := rest, host, toDev := p.toDev ++ requests.map fun req => (msg.tag, req) } := by
    simp only [Proxy.step, queued, hostProcesses, payload, List.take_length, answers]
  rw [step]
  refine ⟨rfl, h.act, h.directed, h.usb, h.sound, ?_⟩
  intro r hr
  obtain old | new := List.mem_append.mp hr
  · exact h.answers r old
  · obtain ⟨req, hreq, rfl⟩ := List.mem_map.mp new
    have small := (requests_answer env p.host flags data 0).2
    rw [answers] at small
    exact small req hreq

end Linked
end Proxy
end Simtrace2
