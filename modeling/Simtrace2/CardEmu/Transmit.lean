import Simtrace2.CardEmu.Line
import Simtrace2.Host.Api

/-! Messages of the host on their way to the reader: what the card reads out of the
buffer of a TX_DATA message, and the transmission of a whole message. -/
namespace Simtrace2
open Lib

/-- A TX_DATA message as the host's library sends it and the firmware receives it. -/
structure TxData extends TxRequest where
  tag : Nat
  slotNr : UInt8
  behind : Nat → UInt8

def TxData.msgb (m : TxData) : Msgb :=
  .received m.tag (osmoSt2SlotTxMsg m.slotNr m.toTxRequest) m.behind

namespace TxData
variable (m : TxData)

theorem length_bytes : (osmoSt2SlotTxMsg m.slotNr m.toTxRequest).length = 14 + m.payload.length := by
  simp [osmoSt2SlotTxMsg, encodeHdr]
  omega

theorem txFlags_msgb (k : Nat) : { m.msgb.dequeued with data := k }.txFlags = m.flags := by
  have shape : osmoSt2SlotTxMsg m.slotNr m.toTxRequest =
      encodeHdr simtraceMsgcCardem msgtDtCemuTxData m.slotNr
        (sizeofMsgHdr + sizeofTxData + m.payload.length) ++ leBytes 4 m.flags.toNat ++
          (leBytes 2 m.payload.length ++ m.payload) := by
    simp [osmoSt2SlotTxMsg]
  have read := readAt_memory
    (encodeHdr simtraceMsgcCardem msgtDtCemuTxData m.slotNr
      (sizeofMsgHdr + sizeofTxData + m.payload.length)) (leBytes 4 m.flags.toNat)
    (leBytes 2 m.payload.length ++ m.payload) m.behind
  rw [← shape] at read
  have here : { m.msgb.dequeued with data := k }.txFlags =
      UInt32.ofNat
        (leValue (readAt (memory (osmoSt2SlotTxMsg m.slotNr m.toTxRequest) m.behind) 8 4)) := rfl
  rw [here]
  have sizes : (encodeHdr simtraceMsgcCardem msgtDtCemuTxData m.slotNr
      (sizeofMsgHdr + sizeofTxData + m.payload.length)).length = 8 := by simp [encodeHdr]
  rw [sizes, leBytes_length] at read
  rw [read, leValue_flags]

theorem msgType_msgb : CardemInst.msgType m.msgb = msgtDtCemuTxData := rfl

theorem len_dequeued (small : m.payload.length + 14 < 65536) :
    m.msgb.dequeued.len = m.payload.length := by
  have len : m.msgb.dequeued.len =
      ((osmoSt2SlotTxMsg m.slotNr m.toTxRequest).length % 65536 + 65536 - 14) % 65536 := rfl
  rw [len, length_bytes]
  omega

theorem pulled_dequeued (some : m.payload ≠ []) (small : m.payload.length + 14 < 65536) :
    m.msgb.dequeued.pulled = m.payload := by
  have length : m.payload.length ≠ 0 := by simpa using some
  have sizes : (encodeHdr simtraceMsgcCardem msgtDtCemuTxData m.slotNr
      (sizeofMsgHdr + sizeofTxData + m.payload.length) ++ leBytes 4 m.flags.toNat ++
        leBytes 2 m.payload.length).length = 14 := by
    simp [encodeHdr]
  have read := readAt_memory
    (encodeHdr simtraceMsgcCardem msgtDtCemuTxData m.slotNr
      (sizeofMsgHdr + sizeofTxData + m.payload.length) ++ leBytes 4 m.flags.toNat ++
        leBytes 2 m.payload.length) m.payload [] m.behind
  rw [List.append_nil, sizes] at read
  rw [Msgb.pulled, m.len_dequeued small, if_neg length]
  exact read

end TxData

namespace Line

theorem afterByte_idem (ts : TpduState) (flags : UInt32) :
    afterByte (afterByte ts flags) flags = afterByte ts flags := by
  unfold afterByte
  split_ifs <;> simp_all

def sendAll (l : Line) (msg : Msgb) (queue : List Msgb) : Line :=
  { { l with
      tpdu.state := afterByte l.tpdu.state msg.txFlags, queue
      sent := l.sent ++ msg.pulled }.afterMessage msg.txFlags with tx := none }

theorem sendAll_eq (l : Line) {msg : Msgb} (small : msg.len < 65536) (queue : List Msgb) :
    l.sendAll msg queue =
      if msg.msgbPullU8.2.len = 0 then l.sendByte msg queue
      else (l.sendByte msg queue).sendAll msg.msgbPullU8.2 queue := by
  have flags : msg.msgbPullU8.2.txFlags = msg.txFlags := rfl
  rw [sendAll, Msgb.pulled_cons small, sendByte]
  split
  · rfl
  · rw [sendAll, flags, afterByte_idem]
    unfold afterMessage
    split_ifs <;> simp

end Line

/-- What is still to be transmitted: each message with its tag, its flags and the bytes
it has left. -/
structure Pending where
  tag : Nat
  flags : UInt32
  bytes : List UInt8

def Msgb.pending (m : Msgb) : Pending := ⟨m.tag, m.txFlags, m.pulled⟩

namespace Line

def pending (l : Line) : List Pending :=
  (l.tx.map Msgb.pending).toList ++ l.queue.map fun m => m.dequeued.pending

def Sound (l : Line) : Prop := ∀ m, l.tx = some m → m.len < 65536

def statesAfter (ts : TpduState) (flags : UInt32) (last : Bool) : CardState × TpduState :=
  if last then
    if hasFlag flags cemuDataFPbAndRx then (.inTpdu, .waitRx)
    else if hasFlag flags cemuDataFFinal then (.waitTpdu, .waitCla)
    else (.inTpdu, afterByte ts flags)
  else (.inTpdu, afterByte ts flags)

theorem pending_nil {l : Line} : l.pending = [] ↔ l.tx = none ∧ l.queue = [] := by
  cases tx : l.tx <;> simp [pending, tx]

theorem pending_txMsg {l : Line} {p : Pending} {rest : List Pending} (sound : l.Sound)
    (next : l.pending = p :: rest) :
    ∃ msg queue, l.txMsg = some (msg, queue) ∧ msg.pending = p ∧ msg.len < 65536 ∧
      queue.map (fun m => m.dequeued.pending) = rest := by
  cases tx : l.tx with
  | some msg =>
    simp only [pending, tx, Option.map_some, Option.toList_some, List.singleton_append] at next
    obtain ⟨first, others⟩ := List.cons.inj next
    exact ⟨msg, l.queue, by simp [txMsg, tx], first, sound msg tx, others⟩
  | none =>
    cases queued : l.queue with
    | nil => simp [pending, tx, queued] at next
    | cons msg queue =>
      simp only [pending, tx, queued, Option.map_none, Option.toList_none, List.nil_append,
        List.map_cons] at next
      obtain ⟨first, others⟩ := List.cons.inj next
      exact ⟨msg.dequeued, queue, by simp [txMsg, tx, queued], first, Msgb.len_pull _ _, others⟩

structure ByteSent (l l' : Line) (p : Pending) (byte : UInt8) (bytes : List UInt8)
    (rest : List Pending) : Prop where
  states : (l'.state, l'.tpdu) =
    ((statesAfter l.tpdu.state p.flags bytes.isEmpty).1,
     ⟨(statesAfter l.tpdu.state p.flags bytes.isEmpty).2, l.tpdu.hdr⟩)
  inEp : l'.inEp = l.inEp
  rx : l'.rx = l.rx
  sent : l'.sent = l.sent ++ [byte]
  usb : l'.usb = l.usb
  pending : l'.pending = if bytes = [] then rest else { p with bytes } :: rest
  held : l'.tx.isSome = !bytes.isEmpty
  sound : l'.Sound

theorem ByteSent.drained {l l' : Line} {p : Pending} {byte : UInt8} (h : ByteSent l l' p byte [] []) :
    l'.tx = none ∧ l'.queue = [] := by
  rw [← pending_nil, h.pending, if_pos rfl]

theorem afterMessage_frame (l : Line) (flags : UInt32) :
    l.afterMessage flags =
      { l with state := (l.afterMessage flags).state, tpdu := (l.afterMessage flags).tpdu } := by
  unfold afterMessage
  split_ifs <;> rfl

theorem afterMessage_states {l : Line} (st : l.state = .inTpdu) (ts : TpduState) (flags : UInt32)
    (here : l.tpdu.state = afterByte ts flags) :
    ((l.afterMessage flags).state, (l.afterMessage flags).tpdu) =
      ((statesAfter ts flags true).1, ⟨(statesAfter ts flags true).2, l.tpdu.hdr⟩) := by
  simp only [afterMessage, statesAfter, if_true]
  split
  · simp [st]
  · split
    · rfl
    · simp [st, ← here]

theorem byteSent {l : Line} {p : Pending} {byte : UInt8} {bytes : List UInt8} {rest : List Pending}
    (st : l.state = .inTpdu) (sound : l.Sound) (next : l.pending = p :: rest)
    (more : p.bytes = byte :: bytes) : ByteSent l l.txByte.1 p byte bytes rest := by
  obtain ⟨msg, queue, head, info, small, others⟩ := pending_txMsg sound next
  subst info
  have flags : msg.msgbPullU8.2.txFlags = msg.txFlags := rfl
  have pulled : msg.pulled = byte :: bytes := more
  rw [Msgb.pulled_cons small] at pulled
  obtain ⟨first, left⟩ := List.cons.inj pulled
  rw [txByte, head]
  simp only [sendByte]
  by_cases last : msg.msgbPullU8.2.len = 0
  · rw [if_pos last] at left
    subst left
    have states := afterMessage_states (l := { l with
      tpdu.state := afterByte l.tpdu.state msg.txFlags, queue
      sent := l.sent ++ [msg.msgbPullU8.1] }) st l.tpdu.state msg.txFlags rfl
    rw [if_pos last, afterMessage_frame]
    refine ⟨states, rfl, rfl, ?_, rfl, ?_, rfl, ?_⟩
    · rw [first]
    · simpa [Line.pending] using others
    · intro m held
      cases held
  · rw [if_neg last] at left
    have some' : bytes ≠ [] := by
      rw [← left]
      exact Msgb.pulled_ne_nil (msg.len_pull 1)
    have notEmpty : bytes.isEmpty = false := by simpa using some'
    rw [if_neg last]
    refine ⟨?_, rfl, rfl, ?_, rfl, ?_, ?_, ?_⟩
    · simp [statesAfter, notEmpty, Msgb.pending, st]
    · rw [first]
    · rw [if_neg some', ← left]
      simpa [Line.pending, Msgb.pending, flags] using ⟨rfl, others⟩
    · simp [notEmpty]
    · intro m held
      cases held
      exact Msgb.len_pull _ _

theorem pending_enqueue (l : Line) {m : TxData} (some' : m.payload ≠ [])
    (small : m.payload.length + 14 < 65536) :
    (l.enqueue m.msgb).pending = l.pending ++ [⟨m.tag, m.flags, m.payload⟩] := by
  have info : m.msgb.dequeued.pending = ⟨m.tag, m.flags, m.payload⟩ := by
    rw [Msgb.pending, m.pulled_dequeued some' small, show m.msgb.dequeued.txFlags = m.flags from
      m.txFlags_msgb _]
    rfl
  simp [pending, enqueue, info]

end Line

namespace Emu

def drain : Nat → Emu → Option Emu
  | 0, _ => none
  | fuel + 1, e =>
    let r := e.cardEmuTxByte
    if r.2 then drain fuel r.1 else some r.1

theorem drain_byte {e : Emu} (st : e.ch.state = .inTpdu) {msg : Msgb} {queue : List Msgb}
    (next : e.line.txMsg = some (msg, queue)) (fuel : Nat) :
    e.drain (fuel + 1) = e.cardEmuTxByte.1.drain fuel ∧
      e.cardEmuTxByte.1.line = e.line.sendByte msg queue := by
  obtain ⟨same, sent⟩ := line_txByte st
  have byte : e.line.txByte = (e.line.sendByte msg queue, true) := by rw [Line.txByte, next]
  rw [byte] at same sent
  refine ⟨if_pos sent, ?_⟩
  simpa only using same

theorem txByte_message {e : Emu} (st : e.ch.state = .inTpdu) {msg : Msgb} {queue : List Msgb}
    (next : e.line.txMsg = some (msg, queue)) (small : msg.len < 65536) {byte : UInt8}
    {bytes : List UInt8} (read : msg.pulled = byte :: bytes) :
    (bytes = [] ∧ e.cardEmuTxByte.1.line = e.line.sendAll msg queue ∧
        e.cardEmuTxByte.1.ch.uartTxMsg = none) ∨
      ∃ left : Msgb, e.cardEmuTxByte.1.ch.state = .inTpdu ∧
        e.cardEmuTxByte.1.ch.uartTxMsg = some left ∧
        e.cardEmuTxByte.1.line.txMsg = some (left, queue) ∧ left.len < 65536 ∧ left.pulled = bytes ∧
        e.cardEmuTxByte.1.line.sendAll left queue = e.line.sendAll msg queue := by
  rw [Msgb.pulled_cons small] at read
  obtain ⟨_, rest⟩ := List.cons.inj read
  obtain ⟨_, sent⟩ := drain_byte st next 0
  rw [Line.sendAll_eq _ small]
  by_cases last : msg.msgbPullU8.2.len = 0
  · rw [if_pos last] at rest
    have released : e.cardEmuTxByte.1.line.tx = none := by
      rw [sent, Line.sendByte_last _ _ last]
    rw [if_pos last]
    exact .inl ⟨rest.symm, sent, released⟩
  · rw [if_neg last] at rest
    have inside : e.cardEmuTxByte.1.line.state = .inTpdu ∧
        e.cardEmuTxByte.1.line.tx = some msg.msgbPullU8.2 ∧
        e.cardEmuTxByte.1.line.txMsg = some (msg.msgbPullU8.2, queue) := by
      rw [sent, Line.sendByte_more _ _ last]
      exact ⟨st, rfl, rfl⟩
    rw [if_neg last, ← sent]
    exact .inr ⟨msg.msgbPullU8.2, inside.1, inside.2.1, inside.2.2, msg.len_pull 1, rest, rfl⟩

/-- The card transmits the next message as a whole. -/
theorem drain_message {e : Emu} (st : e.ch.state = .inTpdu) {msg : Msgb} {queue : List Msgb}
    (next : e.line.txMsg = some (msg, queue)) (small : msg.len < 65536) (fuel : Nat) :
    ∃ e' : Emu, e'.line = e.line.sendAll msg queue ∧
      e.drain (msg.pulled.length + fuel) = e'.drain fuel := by
  obtain ⟨bytes, read⟩ : ∃ bytes, msg.pulled = bytes := ⟨_, rfl⟩
  induction bytes generalizing e msg with
  | nil => exact absurd read (Msgb.pulled_ne_nil small)
  | cons b bytes ih =>
    obtain ⟨count, _⟩ := drain_byte st next (bytes.length + fuel)
    have shape : msg.pulled.length + fuel = bytes.length + fuel + 1 := by
      rw [read, List.length_cons]
      omega
    rw [shape, count]
    obtain ⟨rfl, sent, _⟩ | ⟨left, inside, _, next, small, rest, same⟩ :=
      txByte_message st next small read
    · exact ⟨e.cardEmuTxByte.1, sent, by simp⟩
    · obtain ⟨e', all, drained⟩ := ih inside next small rest
      exact ⟨e', all.trans same, by rw [← rest]; exact drained⟩

theorem drain_idle {e : Emu} (idle : e.ch.state = .waitTpdu ∨
    e.ch.state = .inTpdu ∧ e.line.txMsg = none) (fuel : Nat) :
    ∃ e' : Emu, e'.line = e.line ∧ e.drain (fuel + 1) = some e' := by
  obtain st | ⟨st, none'⟩ := idle
  · exact ⟨e, rfl, by rw [drain]; simp [cardEmuTxByte, st]⟩
  · obtain ⟨same, sent⟩ := line_txByte st
    have byte : e.line.txByte = (e.line, false) := by rw [Line.txByte, none']
    rw [byte] at same sent
    exact ⟨e.cardEmuTxByte.1, same, by rw [drain]; simp [sent]⟩

end Emu
end Simtrace2
