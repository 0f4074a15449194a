import Simtrace2.CardEmu.Transmit

/-! How far the firmware reads into a message of the host. A buffer is followed by
memory the host has no hand in: what a message does must not depend on it. -/
namespace Simtrace2
open Lib

/-- A message of the host with a header, in a buffer. -/
structure HostMsg where
  bytes : List UInt8
  header : sizeofMsgHdr ≤ bytes.length
  fits : bytes.length ≤ usbAllocSize

namespace HostMsg
variable (m : HostMsg)

def msgb (tag : Nat) (behind : Nat → UInt8) : Msgb := .received tag m.bytes behind

def byte (i : Nat) : UInt8 := (m.bytes[i]?).getD 0

def dataLen : Nat := leValue [m.byte 12, m.byte 13]

def atrLen : Nat := (m.byte 8).toNat

/-- The bytes behind header and `tx_data`, as many as `data_len` says. -/
def txPayload : List UInt8 := (m.bytes.drop 14).take m.dataLen

end HostMsg

def Emu.sendOut : Nat → Emu → Option Emu
  | 0, _ => none
  | fuel + 1, e =>
    let e := e.cardEmuTxByte.1
    match e.ch.uartTxMsg with
    | none => some e
    | some _ => e.sendOut fuel

/-- The message, next to be transmitted, puts its own bytes on the line and no other,
and its length only gets smaller. -/
structure Honoured (e : Emu) (m : HostMsg) : Prop where
  sent : ∃ fuel e', e.sendOut fuel = some e' ∧ e'.uart.sent = e.uart.sent ++ m.txPayload
  count : 14 < m.bytes.length → m.txPayload.length = m.dataLen
  shrinks : ∀ held, e.cardEmuTxByte.1.ch.uartTxMsg = some held → held.len < m.bytes.length

def Emu.Serves (e : Emu) (msg : Msgb) : Prop :=
  e.ch.state = .inTpdu ∧ e.ch.uartTxMsg = none ∧ ∃ queue, e.ch.uartTxQueue = msg :: queue

structure InBounds (ci : CardemInst) (m : HostMsg) (tag : Nat) (alloc : Alloc) : Prop where
  dropped : m.byte 1 = msgtDtCemuTxData → cardEmuChReady ci.emu.ch = false → ∀ behind,
    (ci.dispatchUsbCommandCardem (m.msgb tag behind) alloc).emu = ci.emu.usbBufFree tag
  queued : m.byte 1 = msgtDtCemuTxData → cardEmuChReady ci.emu.ch = true → ∀ behind,
    (ci.dispatchUsbCommandCardem (m.msgb tag behind) alloc).emu.ch.uartTxQueue =
      ci.emu.ch.uartTxQueue ++ [m.msgb tag behind] ∧
        ∀ e : Emu, e.Serves (m.msgb tag behind) → Honoured e m
  atr : m.byte 1 = msgtDtCemuSetAtr → ∀ behind,
    (ci.dispatchUsbCommandCardem (m.msgb tag behind) alloc).emu.ch.atr = ci.emu.ch.atr ∨
      ∃ n, 9 + n ≤ m.bytes.length ∧
        (ci.dispatchUsbCommandCardem (m.msgb tag behind) alloc).emu.ch.atr =
          ⟨0, n, splice ci.emu.ch.atr.atr 0 ((m.bytes.drop 9).take n)⟩
  other : m.byte 1 ≠ msgtDtCemuTxData → ∀ behind behind',
    ci.dispatchUsbCommandCardem (m.msgb tag behind) alloc =
      ci.dispatchUsbCommandCardem (m.msgb tag behind') alloc

/-- The message is as long as its type and its embedded lengths need it to be. -/
structure Complete (ci : CardemInst) (m : HostMsg) : Prop where
  tx : m.byte 1 = msgtDtCemuTxData → cardEmuChReady ci.emu.ch = true →
    14 < m.bytes.length ∧ m.dataLen = m.bytes.length - 14
  setAtr : m.byte 1 = msgtDtCemuSetAtr → 9 ≤ m.bytes.length ∧
    (iso78163AtrLenMax < m.atrLen ∨ 9 + m.atrLen ≤ m.bytes.length)
  cardinsert : m.byte 1 = msgtDtCemuCardinsert → 9 ≤ m.bytes.length

namespace Emu

theorem sendOut_unique {n k : Nat} {e x y : Emu} (hx : e.sendOut n = some x)
    (hy : e.sendOut k = some y) : x = y := by
  induction n generalizing k e with
  | zero => cases hx
  | succ n ih =>
    cases k with
    | zero => cases hy
    | succ k =>
      simp only [sendOut] at hx hy
      cases tx : e.cardEmuTxByte.1.ch.uartTxMsg with
      | none =>
        simp only [tx] at hx hy
        exact (Option.some.inj hx).symm.trans (Option.some.inj hy)
      | some msg =>
        simp only [tx] at hx hy
        exact ih hx hy

theorem sendOut_message {e : Emu} (st : e.ch.state = .inTpdu) {msg : Msgb} {queue : List Msgb}
    (next : e.line.txMsg = some (msg, queue)) (small : msg.len < 65536) :
    ∃ e' : Emu, e'.line = e.line.sendAll msg queue ∧ e.sendOut msg.pulled.length = some e' := by
  obtain ⟨bytes, read⟩ : ∃ bytes, msg.pulled = bytes := ⟨_, rfl⟩
  induction bytes generalizing e msg with
  | nil => exact absurd read (Msgb.pulled_ne_nil small)
  | cons b bytes ih =>
    rw [read, List.length_cons]
    obtain ⟨_, sent, released⟩ | ⟨left, inside, held, next, small, rest, same⟩ :=
      txByte_message st next small read
    · exact ⟨e.cardEmuTxByte.1, sent, by simp only [sendOut, released]⟩
    · obtain ⟨e', all, out⟩ := ih inside next small rest
      rw [rest] at out
      exact ⟨e', all.trans same, by simp only [sendOut, held, out]⟩

end Emu

theorem Line.sendAll_sent (l : Line) (msg : Msgb) (queue : List Msgb) :
    (l.sendAll msg queue).sent = l.sent ++ msg.pulled := by
  unfold Line.sendAll Line.afterMessage
  split_ifs <;> rfl

namespace HostMsg
variable {m : HostMsg} {tag : Nat} {behind : Nat → UInt8}

theorem len_dequeued : (m.msgb tag behind).dequeued.len = (m.bytes.length + 65536 - 14) % 65536 := by
  have fits := m.fits
  have len : (m.msgb tag behind).dequeued.len = (m.bytes.length % 65536 + 65536 - 14) % 65536 := rfl
  rw [len]
  unfold usbAllocSize at fits
  omega

theorem pulled_dequeued (long : 14 < m.bytes.length) :
    (m.msgb tag behind).dequeued.pulled = m.bytes.drop 14 := by
  have fits := m.fits
  unfold usbAllocSize at fits
  have len : (m.msgb tag behind).dequeued.len = m.bytes.length - 14 := by
    rw [len_dequeued]
    omega
  have mem : (m.msgb tag behind).dequeued.mem = memory m.bytes behind := rfl
  have data : (m.msgb tag behind).dequeued.data = 14 := rfl
  rw [Msgb.pulled, len, if_neg (by omega), mem, data, readAt_inside (by omega)]
  exact List.take_of_length_le (Nat.le_of_eq List.length_drop)

theorem serves_txMsg {e : Emu} (serves : e.Serves (m.msgb tag behind)) :
    ∃ queue, e.line.txMsg = some ((m.msgb tag behind).dequeued, queue) := by
  obtain ⟨_, idle, queue, next⟩ := serves
  exact ⟨queue, by simp [Line.txMsg, Emu.line, idle, next]⟩

theorem honoured {e : Emu} (serves : e.Serves (m.msgb tag behind)) (long : 14 < m.bytes.length)
    (whole : m.dataLen = m.bytes.length - 14) : Honoured e m := by
  have payload : m.txPayload = m.bytes.drop 14 := by
    rw [txPayload, whole]
    exact List.take_of_length_le (Nat.le_of_eq List.length_drop)
  obtain ⟨queue, next⟩ := serves_txMsg serves
  obtain ⟨e', same, out⟩ := Emu.sendOut_message serves.1 next (Msgb.len_pull _ _)
  refine ⟨⟨_, e', out, ?_⟩, ?_, ?_⟩
  · have sent := congrArg Line.sent same
    rw [Line.sendAll_sent, pulled_dequeued long, ← payload] at sent
    exact sent
  · intro _
    rw [payload, List.length_drop, whole]
  · intro held tx
    obtain ⟨_, sent⟩ := Emu.drain_byte serves.1 next 0
    have here : e.cardEmuTxByte.1.line.tx = some held := tx
    have len : (m.msgb tag behind).dequeued.len = _ := len_dequeued
    have fits := m.fits
    unfold usbAllocSize at fits
    rw [sent, Line.sendByte] at here
    split at here
    · cases here
    · cases here
      simp only [Msgb.msgbPullU8, Msgb.msgbPull, len]
      omega

theorem complete_of_honoured {e : Emu} (serves : e.Serves (m.msgb tag behind)) (h : Honoured e m) :
    14 < m.bytes.length ∧ m.dataLen = m.bytes.length - 14 := by
  obtain ⟨queue, next⟩ := serves_txMsg serves
  obtain ⟨e', same, out⟩ := Emu.sendOut_message serves.1 next (Msgb.len_pull _ _)
  obtain ⟨fuel, e'', out', sent'⟩ := h.sent
  have sent : e'.uart.sent = e.uart.sent ++ (m.msgb tag behind).dequeued.pulled :=
    (congrArg Line.sent same).trans (Line.sendAll_sent _ _ _)
  rw [Emu.sendOut_unique out' out, sent] at sent'
  have own := List.append_cancel_left sent'
  by_cases long : 14 < m.bytes.length
  · refine ⟨long, ?_⟩
    rw [← h.count long, ← own, pulled_dequeued long, List.length_drop]
  · have none' : m.txPayload = [] := by
      rw [txPayload, List.drop_eq_nil_of_le (by omega), List.take_nil]
    rw [none'] at own
    exact absurd own (Msgb.pulled_ne_nil (Msgb.len_pull _ _))

/-! The branches of the dispatch. -/

theorem mem_inside {i : Nat} (h : i < m.bytes.length) :
    (m.msgb tag behind).mem i = m.byte i := by
  rw [HostMsg.byte, List.getElem?_eq_getElem h]
  exact memory_inside h

theorem msgType_msgb : CardemInst.msgType (m.msgb tag behind) = m.byte 1 := by
  have long : 1 < m.bytes.length := Nat.lt_of_lt_of_le (by decide) m.header
  exact mem_inside long

variable {ci : CardemInst} {alloc : Alloc}

theorem dispatch_txData (type : m.byte 1 = msgtDtCemuTxData) :
    ci.dispatchUsbCommandCardem (m.msgb tag behind) alloc =
      { ci with emu := CardemInst.dispatchTxData ci.emu (m.msgb tag behind) } := by
  rw [CardemInst.dispatchUsbCommandCardem, msgType_msgb, if_pos type]

theorem dispatch_setAtr (type : m.byte 1 = msgtDtCemuSetAtr) :
    ci.dispatchUsbCommandCardem (m.msgb tag behind) alloc =
      { ci with emu := (ci.emu.cardEmuSetAtr (readAt (memory m.bytes behind) 9
          (memory m.bytes behind 8).toNat)).usbBufFree tag } := by
  have other : m.byte 1 ≠ msgtDtCemuTxData := by rw [type]; decide
  rw [CardemInst.dispatchUsbCommandCardem, msgType_msgb, if_neg other, if_pos type]
  rfl

theorem dispatch_cardinsert (type : m.byte 1 = msgtDtCemuCardinsert) :
    ci.dispatchUsbCommandCardem (m.msgb tag behind) alloc =
      let ci' := ci.processCardInsert (memory m.bytes behind 8 != 0)
      { ci' with emu := ci'.emu.usbBufFree tag } := by
  have other : m.byte 1 ≠ msgtDtCemuTxData ∧ m.byte 1 ≠ msgtDtCemuSetAtr := by rw [type]; decide
  rw [CardemInst.dispatchUsbCommandCardem, msgType_msgb, if_neg other.1, if_neg other.2, if_pos type]
  rfl

theorem dispatchTxData_queue (e : Emu) (msg : Msgb) :
    CardemInst.dispatchTxData e msg =
      if cardEmuChReady e.ch then
        { e with ch.uartTxQueue := e.ch.uartTxQueue ++ [msg] }.cardEmuHaveNewUartTx
      else e.usbBufFree msg.tag := by
  rw [CardemInst.dispatchTxData]
  cases cardEmuChReady e.ch <;> rfl

theorem setConfig_inside (behind' : Nat → UInt8) (ci : CardemInst) :
    ci.cardEmuSetConfig (fun i => memory m.bytes behind (8 + i)) (m.bytes.length - 8) alloc =
      ci.cardEmuSetConfig (fun i => memory m.bytes behind' (8 + i)) (m.bytes.length - 8) alloc := by
  have features : 4 ≤ m.bytes.length - 8 →
      readAt (fun i => memory m.bytes behind (8 + i)) 0 4 =
        readAt (fun i => memory m.bytes behind' (8 + i)) 0 4 := by
    intro long
    have shift (b : Nat → UInt8) : readAt (fun i => memory m.bytes b (8 + i)) 0 4 =
        readAt (memory m.bytes b) 8 4 := by simp [readAt]
    rw [shift, shift, readAt_inside (by omega), readAt_inside (by omega)]
  have mux : 5 ≤ m.bytes.length - 8 →
      memory m.bytes behind (8 + 4) = memory m.bytes behind' (8 + 4) := by
    intro long
    rw [memory_inside (by omega), memory_inside (by omega)]
  have pol : 6 ≤ m.bytes.length - 8 →
      memory m.bytes behind (8 + 5) = memory m.bytes behind' (8 + 5) := by
    intro long
    rw [memory_inside (by omega), memory_inside (by omega)]
  unfold CardemInst.cardEmuSetConfig
  by_cases long : 6 ≤ m.bytes.length - 8
  · simp only [features (by omega), mux (by omega), pol long]
  · by_cases slot : 5 ≤ m.bytes.length - 8
    · simp only [features (by omega), mux slot, long, false_and, if_false]
    · by_cases some' : 4 ≤ m.bytes.length - 8
      · simp only [features some', slot, long, false_and, if_false]
      · simp only [some', slot, long, false_and, if_false]

theorem atrLen_eq (long : 8 < m.bytes.length) : (memory m.bytes behind 8).toNat = m.atrLen :=
  have inside : (m.msgb 0 behind).mem 8 = m.byte 8 := mem_inside long
  congrArg UInt8.toNat inside

theorem setAtr_readAt (e : Emu) (mem : Nat → UInt8) (n : Nat) :
    e.cardEmuSetAtr (readAt mem 9 n) =
      if iso78163AtrLenMax < n then e
      else { e with ch.atr := ⟨0, n, splice e.ch.atr.atr 0 (readAt mem 9 n)⟩ } := by
  rw [Emu.cardEmuSetAtr, readAt_length]

theorem setAtr_inside (long : 8 < m.bytes.length)
    (lens : iso78163AtrLenMax < m.atrLen ∨ 9 + m.atrLen ≤ m.bytes.length) (e : Emu) :
    e.cardEmuSetAtr (readAt (memory m.bytes behind) 9 (memory m.bytes behind 8).toNat) =
      if iso78163AtrLenMax < m.atrLen then e
      else { e with
        ch.atr := ⟨0, m.atrLen, splice e.ch.atr.atr 0 ((m.bytes.drop 9).take m.atrLen)⟩ } := by
  rw [atrLen_eq long, setAtr_readAt]
  split
  · rfl
  · rename_i short
    rw [readAt_inside (lens.resolve_left short)]

theorem dispatch_inside (h : Complete ci m) (type : m.byte 1 ≠ msgtDtCemuTxData)
    (behind' : Nat → UInt8) :
    ci.dispatchUsbCommandCardem (m.msgb tag behind) alloc =
      ci.dispatchUsbCommandCardem (m.msgb tag behind') alloc := by
  by_cases setAtr : m.byte 1 = msgtDtCemuSetAtr
  · obtain ⟨long, lens⟩ := h.setAtr setAtr
    rw [dispatch_setAtr setAtr, dispatch_setAtr setAtr, setAtr_inside long lens,
      setAtr_inside long lens]
  · by_cases insert : m.byte 1 = msgtDtCemuCardinsert
    · rw [dispatch_cardinsert insert, dispatch_cardinsert insert]
      have long := h.cardinsert insert
      rw [memory_inside long, memory_inside long]
    · have l2len (b : Nat → UInt8) : (m.msgb tag b).msgbL2len = m.bytes.length - 8 := rfl
      have mem (b : Nat → UInt8) : (m.msgb tag b).mem = memory m.bytes b := rfl
      have l2h (b : Nat → UInt8) : (m.msgb tag b).l2h = 8 := rfl
      have tags (b : Nat → UInt8) : (m.msgb tag b).tag = tag := rfl
      simp only [CardemInst.dispatchUsbCommandCardem, msgType_msgb, if_neg type, if_neg setAtr,
        if_neg insert, l2len, mem, l2h, tags, setConfig_inside behind' ci]

theorem setAtr_contained (h : Complete ci m) (type : m.byte 1 = msgtDtCemuSetAtr) :
    (ci.dispatchUsbCommandCardem (m.msgb tag behind) alloc).emu.ch.atr = ci.emu.ch.atr ∨
      ∃ n, 9 + n ≤ m.bytes.length ∧
        (ci.dispatchUsbCommandCardem (m.msgb tag behind) alloc).emu.ch.atr =
          ⟨0, n, splice ci.emu.ch.atr.atr 0 ((m.bytes.drop 9).take n)⟩ := by
  obtain ⟨long, lens⟩ := h.setAtr type
  rw [dispatch_setAtr type, setAtr_inside long lens]
  split
  · exact .inl rfl
  · rename_i short
    exact .inr ⟨m.atrLen, lens.resolve_left short, rfl⟩

theorem setAtr_complete (type : m.byte 1 = msgtDtCemuSetAtr)
    (same : ∀ behind behind', ci.dispatchUsbCommandCardem (m.msgb tag behind) alloc =
      ci.dispatchUsbCommandCardem (m.msgb tag behind') alloc) :
    9 ≤ m.bytes.length ∧ (iso78163AtrLenMax < m.atrLen ∨ 9 + m.atrLen ≤ m.bytes.length) := by
  have installed (value : UInt8) :
      (ci.dispatchUsbCommandCardem (m.msgb tag fun _ => value) alloc).emu.ch.atr =
        (ci.emu.cardEmuSetAtr (readAt (memory m.bytes fun _ => value) 9
          (memory m.bytes (fun _ => value) 8).toNat)).ch.atr := by
    rw [dispatch_setAtr type]
    rfl
  have equal (a b : UInt8) := (installed a).symm.trans
    ((congrArg (fun c : CardemInst => c.emu.ch.atr) (same (fun _ => a) fun _ => b)).trans
      (installed b))
  have long : 9 ≤ m.bytes.length := by
    by_contra short
    have lens := equal 1 2
    rw [memory_behind (by omega), memory_behind (by omega), setAtr_readAt, setAtr_readAt,
      if_neg (by decide), if_neg (by decide)] at lens
    have one : (1 : UInt8).toNat = (2 : UInt8).toNat := congrArg Atr.len lens
    exact absurd one (by decide)
  refine ⟨long, ?_⟩
  by_contra beyond
  push Not at beyond
  have lists := equal 0 1
  rw [atrLen_eq long, atrLen_eq long, setAtr_readAt, setAtr_readAt, if_neg (by omega),
    if_neg (by omega)] at lists
  have spliced := congrArg Atr.atr lists
  simp only [splice, List.take_zero, List.nil_append] at spliced
  have read := (List.append_inj spliced (by simp)).1
  have last : 9 + (m.atrLen - 1) ≥ m.bytes.length := by omega
  have there : m.atrLen - 1 < m.atrLen := by omega
  have elem := congrArg (fun l : List UInt8 => l[m.atrLen - 1]?) read
  simp only [readAt, List.getElem?_map, List.getElem?_range there, Option.map_some,
    memory_behind last, Option.some.injEq] at elem
  exact absurd elem (by decide)

theorem cardinsert_complete (type : m.byte 1 = msgtDtCemuCardinsert)
    (same : ∀ behind behind', ci.dispatchUsbCommandCardem (m.msgb tag behind) alloc =
      ci.dispatchUsbCommandCardem (m.msgb tag behind') alloc) :
    9 ≤ m.bytes.length := by
  by_contra short
  have inserted := same (fun _ => 0) fun _ => 1
  rw [dispatch_cardinsert type, dispatch_cardinsert type, memory_behind (by omega),
    memory_behind (by omega)] at inserted
  have traced := congrArg (fun c : CardemInst => c.pinInsert.traced) inserted
  simp only [CardemInst.processCardInsert_traced] at traced
  exact absurd traced (by decide)

end HostMsg

/-- The firmware keeps to a message exactly where the message is complete. -/
theorem host_message_in_bounds_iff (ci : CardemInst) (m : HostMsg) (tag : Nat) (alloc : Alloc) :
    InBounds ci m tag alloc ↔ Complete ci m := by
  constructor
  · intro h
    refine ⟨?_, ?_, ?_⟩
    · intro type ready
      let msg := m.msgb tag fun _ => 0
      let e : Emu := { ci.emu with ch.state := .inTpdu, ch.uartTxMsg := none, ch.uartTxQueue := [msg] }
      have serves : e.Serves msg := ⟨rfl, rfl, [], rfl⟩
      exact HostMsg.complete_of_honoured serves ((h.queued type ready _).2 e serves)
    · intro type
      exact HostMsg.setAtr_complete type (h.other (by rw [type]; decide))
    · intro type
      exact HostMsg.cardinsert_complete type (h.other (by rw [type]; decide))
  · intro h
    refine ⟨?_, ?_, ?_, ?_⟩
    · intro type unready behind
      rw [HostMsg.dispatch_txData type, HostMsg.dispatchTxData_queue, unready]
      rfl
    · intro type ready behind
      obtain ⟨long, whole⟩ := h.tx type ready
      refine ⟨?_, fun e serves => HostMsg.honoured serves long whole⟩
      rw [HostMsg.dispatch_txData type, HostMsg.dispatchTxData_queue, ready, if_pos rfl]
      exact congrArg Line.queue (Emu.line_haveNewUartTx _)
    · intro type behind
      exact HostMsg.setAtr_contained h type
    · intro type behind behind'
      exact HostMsg.dispatch_inside h type behind'

def emptyTxData : HostMsg :=
  { bytes := [1, 1, 0, 0, 0, 0, 14, 0, 4, 0, 0, 0, 0, 0], header := by decide, fits := by decide }

def owingCard : CardemInst :=
  { emu := { cardEmuInit 0 2 3 true false true ⟨.tx, false, 9600, none, []⟩ [] [] with
      ch.state := .inTpdu, ch.tpdu := ⟨.waitPb, ⟨0xa0, 0xc0, 0, 0, 1⟩⟩ }
    pinInsert := .untouched .absent, pinInsertInverted := false, gMuxSlot := none }

/-- Nothing is to be transmitted, and 65536 bytes are. -/
theorem emptyTxData_runs_on :
    ¬ InBounds owingCard emptyTxData 1 none ∧
      ∀ behind, ∃ e', (owingCard.dispatchUsbCommandCardem (emptyTxData.msgb 1 behind) none).emu.sendOut
        65536 = some e' ∧ e'.uart.sent.length = 65536 := by
  have type : emptyTxData.byte 1 = msgtDtCemuTxData := rfl
  have serves (behind : Nat → UInt8) :
      (owingCard.dispatchUsbCommandCardem (emptyTxData.msgb 1 behind) none).emu.Serves
        (emptyTxData.msgb 1 behind) := ⟨rfl, rfl, [], rfl⟩
  constructor
  · intro h
    have honoured := (h.queued type rfl fun _ => 0).2 _ (serves fun _ => 0)
    exact absurd (HostMsg.complete_of_honoured (serves fun _ => 0) honoured).1 (by decide)
  · intro behind
    obtain ⟨queue, next⟩ := HostMsg.serves_txMsg (serves behind)
    obtain ⟨e', same, out⟩ := Emu.sendOut_message (serves behind).1 next (Msgb.len_pull _ _)
    have count : (emptyTxData.msgb 1 behind).dequeued.pulled.length = 65536 := by
      have len : (emptyTxData.msgb 1 behind).dequeued.len = 0 := HostMsg.len_dequeued
      rw [Msgb.pulled, len, readAt_length, if_pos rfl]
    rw [count] at out
    refine ⟨e', out, ?_⟩
    have sent : e'.uart.sent = [] ++ (emptyTxData.msgb 1 behind).dequeued.pulled :=
      (congrArg Line.sent same).trans (Line.sendAll_sent _ _ _)
    rw [sent, List.nil_append, count]

end Simtrace2
