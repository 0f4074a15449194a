import Simtrace2.CardEmu.Commands
import Simtrace2.CardEmu.Transmit

/-! The requests of the host from its API to the handlers of the firmware, one or
several in a transfer. -/
namespace Simtrace2
open Lib

/-- A TX_DATA buffer that yields the flags and the bytes of a request. -/
structure Msgb.Carries (msg : Msgb) (req : TxRequest) : Prop where
  flags : msg.dequeued.txFlags = req.flags
  len : msg.dequeued.len = req.payload.length
  bytes : msg.dequeued.pulled = req.payload

namespace Device

def releases (d : Device) (tag : Nat) : Device :=
  { d with slot.inst.emu.freed := d.slot.inst.emu.freed ++ [tag] }

/-- The card is at a point of a TPDU where the next byte is the host's. -/
def awaitsHost (d : Device) : Prop :=
  d.slot.ch.state = .inTpdu ∧ (d.slot.ch.tpdu.state = .waitTx ∨ d.slot.ch.tpdu.state = .waitPb)

/-- While the card may transmit, the request becomes the last of those it has to send,
and starts the transmitter of a card that waits for it. Otherwise it is dropped. -/
def Queues (d : Device) (req : TxRequest) (tag : Nat) (d' : Device) : Prop :=
  if d.slot.ch.state ∈ [CardState.inPts, .waitTpdu, .inTpdu] then
    ∃ msg : Msgb, msg.tag = tag ∧ msg.Carries req ∧
      let queued : Device :=
        { d with slot.inst.emu.ch.uartTxQueue := d.slot.ch.uartTxQueue ++ [msg] }
      (d.awaitsHost →
        d' = { queued with slot.inst.emu.uart.mode := .tx, slot.inst.emu.uart.txrdy := true }) ∧
      (¬ d.awaitsHost → d' = queued)
  else d' = d.releases tag

/-- The presence signal, where there is one, shows what the host asks for. -/
def inserts (d : Device) (inserted : Bool) : Device :=
  let old := d.slot.inst.pinInsert
  let level := if old.wiring = .absent then old.level else inserted ^^ d.slot.inst.pinInsertInverted
  { d with slot.inst.pinInsert := { old with level, traced := some inserted } }

def resets (d : Device) (call : PerstCall) : Device :=
  if d.pinsPerst then { d with perst := d.perst ++ [call] } else d

/-- The ATR is the given one. Behind it the buffer keeps what it held. -/
def installs (d : Device) (atr : List UInt8) : Device :=
  let buffer := atr ++ d.slot.ch.atr.atr.drop atr.length
  { d with slot.inst.emu.ch.atr := { idx := 0, len := atr.length, atr := buffer } }

/-- The features are taken over as far as the firmware has them, the slot as far as there is a
multiplexer with such a slot, and the polarity of the presence signal if it is said to be valid. The
outcome is reported where there is a buffer for it. -/
def configures (d : Device) (features : UInt32) (slotMuxNr presPol : UInt8) (report : Alloc) : Device :=
  let taken := features &&& supportedFeatures
  let mux := d.slot.inst.gMuxSlot.map fun old => if slotMuxNr ≤ 7 then slotMuxNr else old
  let inverted := if hasBit presPol cemuConfigPresPolValid then !hasBit presPol cemuConfigPresPolPresH
    else d.slot.inst.pinInsertInverted
  let pol := if inverted then cemuConfigPresPolValid
    else cemuConfigPresPolPresH ||| cemuConfigPresPolValid
  let reports := report.toList.map fun tag =>
    UsbMsg.mk tag d.slot.ch.inEp (.config taken (mux.getD 0) pol)
  { d with
    slot.inst.gMuxSlot := mux, slot.inst.pinInsertInverted := inverted
    slot.inst.emu.ch.features := taken, slot.inst.emu.usb := d.slot.inst.emu.usb ++ reports }

/-- What it means to carry out a request, with its arguments and nothing else. The
buffer goes back to the pool, or to the card. -/
def Executes (d : Device) (tag : Nat) (report : Alloc) (d' : Device) : Request → Prop
  | .cardInsert inserted => d' = (d.inserts inserted).releases tag
  | .pbAndRx pb => d.Queues ⟨cemuDataFPbAndRx, [pb]⟩ tag d'
  | .pbAndTx pb data _ => d.Queues ⟨cemuDataFPbAndTx, pb :: data⟩ tag d'
  | .swTx sw => d.Queues ⟨cemuDataFPbAndTx ||| cemuDataFFinal, [sw.1, sw.2]⟩ tag d'
  | .setAtr atr _ => d' = (d.installs atr).releases tag
  | .config features => d' = (d.configures features 0 0 report).releases tag
  | .config2 features slotMuxNr presPol =>
    d' = (d.configures features slotMuxNr presPol report).releases tag
  | .modemResetPulse durationMs => d' = (d.resets (.doResetPulse durationMs)).releases tag
  | .modemResetActive => d' = (d.resets (.set true)).releases tag
  | .modemResetInactive => d' = (d.resets (.set false)).releases tag
  | .simSelectLocal => d' = { d with slot.enabled := false, usePhysical := true }.releases tag
  | .simSelectRemote => d' = { d with slot.enabled := true, usePhysical := false }.releases tag

/-- One after the other, each once, each in a buffer of its own. -/
def ExecutesAll (d : Device) : List (Request × Segment) → Device → Prop
  | [], d' => d' = d
  | (req, s) :: rest, d' => ∃ m, Executes d s.tag s.report m req ∧ ExecutesAll m rest d'

end Device

namespace ApiMsg
variable (m : ApiMsg) (slotNr : UInt8) (behind : Nat → UInt8)

/-- What the firmware reads out of the payload of a message. -/
theorem readAt_payload (pre xs post : List UInt8) (payload : m.payload = pre ++ xs ++ post) :
    readAt (memory (m.bytes slotNr) behind) (8 + pre.length) xs.length = xs := by
  have shape : m.bytes slotNr =
      (encodeHdr m.msgClass m.msgType slotNr (sizeofMsgHdr + m.payload.length) ++ pre) ++ xs ++
        post := by
    simp [bytes, payload]
  have sizes : (encodeHdr m.msgClass m.msgType slotNr (sizeofMsgHdr + m.payload.length) ++
      pre).length = 8 + pre.length := by
    simp [encodeHdr]
    omega
  rw [shape, ← sizes]
  exact readAt_memory _ _ _ _

theorem msgb_len (small : (m.bytes slotNr).length ≤ usbAllocSize) (tag : Nat) :
    (Msgb.received tag (m.bytes slotNr) behind).len = sizeofMsgHdr + m.payload.length := by
  have len : (Msgb.received tag (m.bytes slotNr) behind).len = (m.bytes slotNr).length % 65536 := rfl
  rw [len, ← bytes_length m slotNr]
  exact Nat.mod_eq_of_lt (Nat.lt_of_le_of_lt small (by decide))

theorem msgb_l2len (tag : Nat) :
    (Msgb.received tag (m.bytes slotNr) behind).msgbL2len = m.payload.length := by
  have len : (Msgb.received tag (m.bytes slotNr) behind).msgbL2len = (m.bytes slotNr).length - 8 := rfl
  rw [len, bytes_length, sizeofMsgHdr]
  omega

end ApiMsg

namespace Device

/-- The class of a whole message decides who gets it. -/
theorem dispatch_class (d : Device) (m : ApiMsg) (slotNr : UInt8) (behind : Nat → UInt8) (tag : Nat)
    (small : (m.bytes slotNr).length ≤ usbAllocSize) (report : Alloc) :
    d.dispatchUsbCommand (.received tag (m.bytes slotNr) behind) report =
      if m.msgClass = simtraceMsgcGeneric then d.usbBufFree tag
      else if m.msgClass = simtraceMsgcCardem then
        d.dispatchUsbCommandCardem (.received tag (m.bytes slotNr) behind) report
      else if m.msgClass = simtraceMsgcModem then
        d.dispatchUsbCommandModem (.received tag (m.bytes slotNr) behind)
      else d.usbBufFree tag := by
  rw [dispatchUsbCommand, if_neg]
  · rfl
  · rw [m.msgb_len slotNr behind small]
    omega

/-- The queue of the card takes the message in, or the pool gets it back. -/
theorem queues_dispatchTxData (d : Device) {req : TxRequest} {tag : Nat} {msg : Msgb}
    (own : msg.tag = tag) (carries : msg.Carries req) :
    d.Queues req tag
      { d with slot.inst.emu := CardemInst.dispatchTxData d.slot.inst.emu msg } := by
  have ready : cardEmuChReady d.slot.ch = true ↔
      d.slot.ch.state ∈ [CardState.inPts, .waitTpdu, .inTpdu] := by
    cases st : d.slot.ch.state <;> simp [cardEmuChReady, CardState.ready, st]
  unfold Queues CardemInst.dispatchTxData
  by_cases listens : d.slot.ch.state ∈ [CardState.inPts, .waitTpdu, .inTpdu]
  · rw [if_pos listens, ready.mpr listens]
    refine ⟨msg, own, carries, fun awaits => ?_, fun busy => ?_⟩
    · obtain ⟨st, ts | ts⟩ := awaits <;> simp [Emu.cardEmuHaveNewUartTx, st, ts, Emu.uartEnable]
    · have idle : Emu.cardEmuHaveNewUartTx
          { d.slot.inst.emu with ch.uartTxQueue := d.slot.ch.uartTxQueue ++ [msg] } =
          { d.slot.inst.emu with ch.uartTxQueue := d.slot.ch.uartTxQueue ++ [msg] } := by
        unfold Emu.cardEmuHaveNewUartTx
        split
        · rename_i st ts
          exact absurd ⟨st, .inl ts⟩ busy
        · rename_i st ts
          exact absurd ⟨st, .inr ts⟩ busy
        · rfl
      exact congrArg (fun e : Emu => { d with slot.inst.emu := e }) idle
  · have unready : cardEmuChReady d.slot.ch = false := by
      rw [← Bool.not_eq_true, ready]
      exact listens
    rw [if_neg listens, unready, ← own]
    rfl

theorem queues_txData (d : Device) (req : TxRequest) (slotNr : UInt8) (s : Segment)
    (some : req.payload ≠ []) (small : ((ApiMsg.txData req).bytes slotNr).length ≤ usbAllocSize) :
    d.Queues req s.tag
      (d.dispatchUsbCommand (.received s.tag ((ApiMsg.txData req).bytes slotNr) s.behind)
        s.report) := by
  let sent : TxData := { req with tag := s.tag, slotNr, behind := s.behind }
  have short : sent.payload.length + 14 < 65536 := by
    have len := sent.length_bytes
    rw [ApiMsg.txData_bytes] at small
    have same : (osmoSt2SlotTxMsg sent.slotNr sent.toTxRequest).length ≤ usbAllocSize := small
    simp only [usbAllocSize] at same
    omega
  have handled : d.dispatchUsbCommand (.received s.tag ((ApiMsg.txData req).bytes slotNr) s.behind)
      s.report = { d with slot.inst.emu := CardemInst.dispatchTxData d.slot.inst.emu sent.msgb } := by
    rw [dispatch_class d _ slotNr _ _ small, ApiMsg.txData_bytes]
    rfl
  rw [handled]
  exact d.queues_dispatchTxData rfl
    ⟨sent.txFlags_msgb _, sent.len_dequeued short, sent.pulled_dequeued some short⟩

theorem executes_setAtr (d : Device) (atr : List UInt8) (short : atr.length ≤ 33) (slotNr : UInt8)
    (s : Segment) (small : ((ApiMsg.setAtr atr).bytes slotNr).length ≤ usbAllocSize) :
    d.dispatchUsbCommand (.received s.tag ((ApiMsg.setAtr atr).bytes slotNr) s.behind) s.report =
      (d.installs atr).releases s.tag := by
  have len : (UInt8.ofNat atr.length).toNat = atr.length := by
    rw [UInt8.toNat_ofNat']
    omega
  have read : readAt (memory ((ApiMsg.setAtr atr).bytes slotNr) s.behind) 9
      (UInt8.ofNat atr.length).toNat = atr := by
    rw [len]
    exact ApiMsg.readAt_payload (.setAtr atr) slotNr s.behind [UInt8.ofNat atr.length] atr []
      (List.append_nil _).symm
  have set : d.slot.inst.emu.cardEmuSetAtr atr =
      { d.slot.inst.emu with ch.atr := ⟨0, atr.length, splice d.slot.ch.atr.atr 0 atr⟩ } := by
    have room : ¬ iso78163AtrLenMax < atr.length := Nat.not_lt.mpr short
    rw [Emu.cardEmuSetAtr, if_neg room]
  have handled : d.slot.inst.dispatchUsbCommandCardem
      (.received s.tag ((ApiMsg.setAtr atr).bytes slotNr) s.behind) s.report =
      { d.slot.inst with emu := (d.slot.inst.emu.cardEmuSetAtr
          (readAt (memory ((ApiMsg.setAtr atr).bytes slotNr) s.behind) 9
            (UInt8.ofNat atr.length).toNat)).usbBufFree s.tag } := rfl
  rw [dispatch_class d _ slotNr _ _ small]
  change d.dispatchUsbCommandCardem _ _ = _
  rw [dispatchUsbCommandCardem, handled, read, set, splice, List.take_zero, List.nil_append,
    Nat.zero_add]
  rfl

/-- What the firmware makes of the six bytes of a configuration. -/
theorem configures_eq (d : Device) (features : UInt32) (slotMuxNr presPol : UInt8) (report : Alloc)
    {scfg : Nat → UInt8} (read : readAt scfg 0 4 = leBytes 4 features.toNat) (mux : scfg 4 = slotMuxNr)
    (pol : scfg 5 = presPol) :
    { d with slot.inst := d.slot.inst.cardEmuSetConfig scfg 6 report } =
      d.configures features slotMuxNr presPol report := by
  let ci : CardemInst := { d.slot.inst with emu.ch.features := features &&& supportedFeatures }
  let slot := d.slot.inst.gMuxSlot.map fun old => if slotMuxNr ≤ 7 then slotMuxNr else old
  let inverted := if hasBit presPol cemuConfigPresPolValid then !hasBit presPol cemuConfigPresPolPresH
    else d.slot.inst.pinInsertInverted
  have muxed : ci.muxSetSlot slotMuxNr = { ci with gMuxSlot := slot } := by
    unfold CardemInst.muxSetSlot slot
    split
    · rename_i many
      have kept (old : UInt8) : (if slotMuxNr ≤ 7 then slotMuxNr else old) = old :=
        if_neg (UInt8.not_le.mpr many)
      simp only [kept, Option.map_id_fun', id]
      rfl
    · rename_i few
      simp only [if_pos (UInt8.not_lt.mp few)]
      rfl
  have polarised : (if hasBit presPol cemuConfigPresPolValid then
        { ci with gMuxSlot := slot }.modeCardemuSetPresencePol (hasBit presPol cemuConfigPresPolPresH)
      else { ci with gMuxSlot := slot }) =
        { ci with gMuxSlot := slot, pinInsertInverted := inverted } := by
    unfold inverted
    split <;> rfl
  have set : d.slot.inst.cardEmuSetConfig scfg 6 report =
      { ci with
        gMuxSlot := slot, pinInsertInverted := inverted
        emu := ci.emu.cardEmuReportConfig (slot.getD 0) (!inverted) report } := by
    have flags : UInt32.ofNat (leValue (readAt scfg 0 4)) = features := by rw [read, leValue_flags]
    simp only [CardemInst.cardEmuSetConfig, flags, mux, pol, Nat.reduceLeDiff, if_true, true_and]
    rw [muxed, polarised]
    rfl
  rw [set, configures]
  cases report with
  | none =>
    have same : d.slot.inst.emu.usb ++ [] = d.slot.inst.emu.usb := List.append_nil _
    simp only [Option.toList_none, List.map_nil, same]
    rfl
  | some tag =>
    have bits (inverted : Bool) : (if !inverted then cemuConfigPresPolPresH else 0) |||
        cemuConfigPresPolValid = if inverted then cemuConfigPresPolValid
          else cemuConfigPresPolPresH ||| cemuConfigPresPolValid := by cases inverted <;> rfl
    simp only [Emu.cardEmuReportConfig, bits]
    rfl

theorem executes_config (d : Device) (features : UInt32) (slotMuxNr presPol slotNr : UInt8) (s : Segment)
    (small : ((ApiMsg.config2 features slotMuxNr presPol).bytes slotNr).length ≤ usbAllocSize) :
    d.dispatchUsbCommand
        (.received s.tag ((ApiMsg.config2 features slotMuxNr presPol).bytes slotNr) s.behind) s.report =
      (d.configures features slotMuxNr presPol s.report).releases s.tag := by
  let m := ApiMsg.config2 features slotMuxNr presPol
  let scfg := fun i => memory (m.bytes slotNr) s.behind (8 + i)
  have handled : d.slot.inst.dispatchUsbCommandCardem (.received s.tag (m.bytes slotNr) s.behind) s.report =
      let ci := d.slot.inst.cardEmuSetConfig scfg
        (Msgb.received s.tag (m.bytes slotNr) s.behind).msgbL2len s.report
      { ci with emu := ci.emu.usbBufFree s.tag } := rfl
  have l2len : (Msgb.received s.tag (m.bytes slotNr) s.behind).msgbL2len = 6 :=
    (ApiMsg.msgb_l2len _ slotNr s.behind s.tag).trans rfl
  have read : readAt scfg 0 4 = leBytes 4 features.toNat := by
    refine Eq.trans ?_ (ApiMsg.readAt_payload m slotNr s.behind []
      (leBytes 4 features.toNat) [slotMuxNr, presPol] rfl)
    simp [scfg, readAt]
  have set := d.configures_eq features slotMuxNr presPol s.report read rfl rfl
  rw [dispatch_class d _ slotNr _ _ small]
  change d.dispatchUsbCommandCardem _ _ = _
  rw [dispatchUsbCommandCardem, handled, l2len, ← set]
  rfl

theorem executes_modemReset (d : Device) (asserted : UInt8) (pulseMs : UInt16) (slotNr : UInt8)
    (s : Segment) (small : ((ApiMsg.modemReset asserted pulseMs).bytes slotNr).length ≤ usbAllocSize) :
    d.dispatchUsbCommand (.received s.tag ((ApiMsg.modemReset asserted pulseMs).bytes slotNr) s.behind)
        s.report =
      (d.modemReset asserted pulseMs).1.usbBufFree s.tag := by
  have l2len : (Msgb.received s.tag ((ApiMsg.modemReset asserted pulseMs).bytes slotNr)
      s.behind).msgbL2len = 3 := (ApiMsg.msgb_l2len _ slotNr s.behind s.tag).trans rfl
  have read : readAt (memory ((ApiMsg.modemReset asserted pulseMs).bytes slotNr) s.behind) 9 2 =
      leBytes 2 pulseMs.toNat :=
    ApiMsg.readAt_payload (.modemReset asserted pulseMs) slotNr s.behind [asserted]
      (leBytes 2 pulseMs.toNat) [] (List.append_nil _).symm
  have pulse : UInt16.ofNat (leValue (leBytes 2 pulseMs.toNat)) = pulseMs := by
    have small : pulseMs.toNat < 256 ^ 2 := UInt16.toNat_lt pulseMs
    rw [leValue_leBytes, Nat.mod_eq_of_lt small, UInt16.ofNat_toNat]
  have handled : d.dispatchUsbCommandModem
      (.received s.tag ((ApiMsg.modemReset asserted pulseMs).bytes slotNr) s.behind) =
      (d.usbCommandModemReset (.received s.tag ((ApiMsg.modemReset asserted pulseMs).bytes slotNr)
        s.behind)).1.usbBufFree s.tag := rfl
  have command : d.usbCommandModemReset
      (.received s.tag ((ApiMsg.modemReset asserted pulseMs).bytes slotNr) s.behind) =
      d.modemReset asserted (UInt16.ofNat (leValue
        (readAt (memory ((ApiMsg.modemReset asserted pulseMs).bytes slotNr) s.behind) 9 2))) := by
    rw [usbCommandModemReset, l2len]
    rfl
  rw [dispatch_class d _ slotNr _ _ small]
  change d.dispatchUsbCommandModem _ = _
  rw [handled, command, read, pulse]

end Device

/-- A message with room for the next one takes at most 271 bytes. -/
theorem Request.bytes_length (r : Request) (slotNr : UInt8) :
    (r.bytes slotNr).length = sizeofMsgHdr + r.msg.payload.length ∧ r.msg.payload.length ≤ 263 := by
  refine ⟨ApiMsg.bytes_length _ slotNr, ?_⟩
  cases r with
  | pbAndTx pb data small =>
    simp only [msg, ApiMsg.txData, osmoSt2CardemRequestPbAndTx, List.length_append, leBytes_length,
      List.length_cons]
    omega
  | setAtr atr small =>
    simp only [msg, ApiMsg.setAtr, List.length_cons]
    omega
  | cardInsert _ | pbAndRx _ | swTx _ | config _ | config2 _ _ _ | modemResetPulse _ | modemResetActive
  | modemResetInactive | simSelectLocal | simSelectRemote =>
    simp [msg, ApiMsg.cardInsert, ApiMsg.txData,
      osmoSt2CardemRequestPbAndRx, osmoSt2CardemRequestSwTx, ApiMsg.config, ApiMsg.config2, ApiMsg.modemReset,
      ApiMsg.modemSimSelect]

theorem Request.small (r : Request) (slotNr : UInt8) : (r.bytes slotNr).length ≤ usbAllocSize := by
  obtain ⟨len, small⟩ := r.bytes_length slotNr
  rw [len, sizeofMsgHdr, usbAllocSize]
  omega

namespace Device

theorem processCardInsert_inserts (d : Device) (inserted : Bool) :
    { d with slot.inst := d.slot.inst.processCardInsert inserted } = d.inserts inserted := by
  unfold inserts CardemInst.processCardInsert
  cases wired : d.slot.inst.pinInsert.wiring <;> simp [wired, CardemInst.boardSetCardInsert]

/-- One whole message: the request is carried out as it was given to the API. -/
theorem executes_request (d : Device) (r : Request) (slotNr : UInt8) (s : Segment) :
    d.Executes s.tag s.report
      (d.dispatchUsbCommand (.received s.tag (r.bytes slotNr) s.behind) s.report) r := by
  have small := r.small slotNr
  have sim (remote : UInt8)
      (fits : ((ApiMsg.modemSimSelect remote).bytes slotNr).length ≤ usbAllocSize) :
      d.dispatchUsbCommand (.received s.tag ((ApiMsg.modemSimSelect remote).bytes slotNr) s.behind)
        s.report = (d.simSelect (remote != 0)).usbBufFree s.tag := by
    have l2len : (Msgb.received s.tag ((ApiMsg.modemSimSelect remote).bytes slotNr)
        s.behind).msgbL2len = 1 := (ApiMsg.msgb_l2len _ slotNr s.behind s.tag).trans rfl
    rw [dispatch_class d _ slotNr _ _ fits]
    change d.dispatchUsbCommandModem _ = _
    change (d.usbCommandSimSelect _).1.usbBufFree s.tag = _
    rw [usbCommandSimSelect, l2len]
    rfl
  cases r with
  | cardInsert inserted =>
    have handled : d.dispatchUsbCommand (.received s.tag ((Request.cardInsert inserted).bytes slotNr)
        s.behind) s.report =
        ({ d with slot.inst := d.slot.inst.processCardInsert inserted } : Device).usbBufFree s.tag := by
      refine (dispatch_class d _ slotNr _ _ small s.report).trans ?_
      cases inserted <;> rfl
    rw [handled, processCardInsert_inserts]
    rfl
  | pbAndRx pb => exact d.queues_txData _ slotNr s (List.cons_ne_nil _ _) small
  | pbAndTx pb data _ => exact d.queues_txData _ slotNr s (List.cons_ne_nil _ _) small
  | swTx sw => exact d.queues_txData _ slotNr s (List.cons_ne_nil _ _) small
  | setAtr atr short => exact d.executes_setAtr atr short slotNr s small
  | config features => exact d.executes_config features 0 0 slotNr s small
  | config2 features slotMuxNr presPol =>
    exact d.executes_config features slotMuxNr presPol slotNr s small
  | modemResetPulse durationMs =>
    refine (d.executes_modemReset 2 durationMs slotNr s small).trans ?_
    rw [modemReset, resets]
    cases perst : d.pinsPerst <;> rfl
  | modemResetActive =>
    refine (d.executes_modemReset 1 0 slotNr s small).trans ?_
    rw [modemReset, resets]
    cases perst : d.pinsPerst <;> rfl
  | modemResetInactive =>
    refine (d.executes_modemReset 0 0 slotNr s small).trans ?_
    rw [modemReset, resets]
    cases perst : d.pinsPerst <;> rfl
  | simSelectLocal => exact sim 0 small
  | simSelectRemote => exact sim 1 small

end Device

/-- What lies between the data pointer and the end of a message. -/
structure Msgb.Holds (msg : Msgb) (xs : List UInt8) : Prop where
  len : msg.len = xs.length
  small : xs.length ≤ usbAllocSize
  read : readAt msg.mem msg.data xs.length = xs

namespace Msgb.Holds
variable {msg : Msgb}

theorem received (tag : Nat) {xs : List UInt8} (small : xs.length ≤ usbAllocSize)
    (behind : Nat → UInt8) : (Msgb.received tag xs behind).Holds xs where
  len := Nat.mod_eq_of_lt (Nat.lt_of_le_of_lt small (by decide))
  small := small
  read := by
    have whole := readAt_memory [] xs [] behind
    simpa [Msgb.received] using whole

theorem front {xs rest : List UInt8} (h : msg.Holds (xs ++ rest)) :
    readAt msg.mem msg.data xs.length = xs := by
  have read := h.read
  rw [List.length_append] at read
  rw [← readAt_take msg.mem msg.data xs.length rest.length, read, List.take_left]

theorem pull {xs rest : List UInt8} (h : msg.Holds (xs ++ rest)) :
    (msg.msgbPull xs.length).Holds rest := by
  have small := h.small
  have len := h.len
  have read := h.read
  rw [List.length_append] at small len read
  refine ⟨?_, Nat.le_trans (Nat.le_add_left _ _) small, ?_⟩
  · rw [usbAllocSize] at small
    simp only [Msgb.msgbPull, len]
    omega
  · have rest' := readAt_drop msg.mem msg.data xs.length rest.length
    rw [read, List.drop_left] at rest'
    exact rest'.symm

/-- The header at the front says how long the message is. -/
theorem msgLen (slotNr : UInt8) {r : Request} {rest : List UInt8}
    (h : msg.Holds (r.bytes slotNr ++ rest)) : Device.msgLen msg = (r.bytes slotNr).length := by
  have front := h.front
  obtain ⟨len, small⟩ := r.bytes_length slotNr
  have field : readAt msg.mem (msg.data + 6) 2 = leBytes 2 (sizeofMsgHdr + r.msg.payload.length) := by
    have behind := readAt_drop msg.mem msg.data 6 (2 + r.msg.payload.length)
    have total : (r.bytes slotNr).length = 6 + (2 + r.msg.payload.length) := by
      rw [len, sizeofMsgHdr]
      omega
    rw [← total, front] at behind
    rw [← readAt_take msg.mem (msg.data + 6) 2 r.msg.payload.length, ← behind]
    rfl
  rw [Device.msgLen, field, leValue_leBytes, len, Nat.mod_eq_of_lt]
  rw [sizeofMsgHdr]
  omega

end Msgb.Holds

/-- The requests in a row, as one transfer brings them. -/
def Request.stream (slotNr : UInt8) (reqs : List Request) : List UInt8 :=
  reqs.flatMap fun r => r.bytes slotNr

namespace Device

/-- The slow path cuts the stream at the lengths in the headers, and carries the requests
out one after the other. -/
theorem segments_executed (d : Device) (slotNr : UInt8) {reqs : List Request} (some : reqs ≠ [])
    {msg : Msgb} (holds : msg.Holds (Request.stream slotNr reqs)) {segs : List Segment}
    (enough : reqs.length ≤ segs.length) :
    ∃ m, d.ExecutesAll (reqs.zip segs) m ∧
      d.dispatchSegments msg (segs.map Option.some) = Option.some (m.releases msg.tag) := by
  induction reqs generalizing d msg segs with
  | nil => contradiction
  | cons r reqs ih =>
    cases segs with
    | nil => simp at enough
    | cons s segs =>
      have holds : msg.Holds (r.bytes slotNr ++ Request.stream slotNr reqs) := holds
      have len := holds.msgLen
      have fits : ¬ msg.len < msgLen msg := by
        rw [len, holds.len, List.length_append]
        omega
      have cut : segment msg (r.bytes slotNr).length s = .received s.tag (r.bytes slotNr) s.behind := by
        rw [segment, holds.front]
      have first := d.executes_request r slotNr s
      have rest := holds.pull
      rw [List.map_cons, dispatchSegments, if_neg fits]
      simp only [len, cut, rest.len]
      cases reqs with
      | nil => exact ⟨_, ⟨_, first, rfl⟩, rfl⟩
      | cons q reqs =>
        have more : (Request.stream slotNr (q :: reqs)).length ≠ 0 := by
          have := (q.bytes_length slotNr).1
          simp only [Request.stream, List.flatMap_cons, List.length_append, this, sizeofMsgHdr]
          omega
        obtain ⟨m, all, out⟩ :=
          ih (d.dispatchUsbCommand (.received s.tag (r.bytes slotNr) s.behind) s.report)
          (List.cons_ne_nil q reqs) rest (Nat.le_of_succ_le_succ enough)
        rw [if_neg more]
        exact ⟨m, ⟨_, first, all⟩, out⟩

/-- The requests of one transfer, carried out on the way the firmware takes: in the
buffer of the transfer itself, or in one of their own each. -/
def Carried (d : Device) (reqs : List Request) (transfer : Segment) (segs : List Segment)
    (d' : Device) : Prop :=
  match reqs with
  | [r] => d.Executes transfer.tag transfer.report d' r
  | reqs => ∃ m, d.ExecutesAll (reqs.zip segs) m ∧ d' = m.releases transfer.tag

/-- Every list of requests that fits into one transfer is carried out as it was given to
the API: each request once, in order and with its own arguments. The slow path would carry
out a single one in the same way. -/
theorem requests_carried (d : Device) (slotNr : UInt8) (reqs : List Request) (some : reqs ≠ [])
    (fits : (Request.stream slotNr reqs).length ≤ usbAllocSize) (transfer : Segment)
    (segs : List Segment) (enough : reqs.length ≤ segs.length) :
    let msg := Msgb.received transfer.tag (Request.stream slotNr reqs) transfer.behind
    (∃ d', d.dispatchReceivedMsg msg transfer.report (segs.map Option.some) = Option.some d' ∧
        d.Carried reqs transfer segs d') ∧
      ∃ m, d.ExecutesAll (reqs.zip segs) m ∧
        d.dispatchSegments msg (segs.map Option.some) = Option.some (m.releases transfer.tag) := by
  intro msg
  have holds : msg.Holds (Request.stream slotNr reqs) := Msgb.Holds.received _ fits _
  have slow := d.segments_executed slotNr some holds enough
  refine ⟨?_, slow⟩
  cases reqs with
  | nil => contradiction
  | cons r reqs =>
    have first : msg.Holds (r.bytes slotNr ++ Request.stream slotNr reqs) := holds
    have len := first.msgLen
    cases reqs with
    | nil =>
      have alone : msg = .received transfer.tag (r.bytes slotNr) transfer.behind :=
        congrArg (Msgb.received transfer.tag · transfer.behind) (List.append_nil _)
      have whole : msgLen msg = msg.len := by
        rw [len, first.len]
        exact congrArg List.length (List.append_nil _).symm
      rw [dispatchReceivedMsg, if_pos whole, alone]
      exact ⟨_, rfl, d.executes_request r slotNr transfer⟩
    | cons q reqs =>
      obtain ⟨m, all, out⟩ := slow
      have longer : ¬ msgLen msg = msg.len := by
        have header := (q.bytes_length slotNr).1
        rw [len, first.len, List.length_append]
        simp only [Request.stream, List.flatMap_cons, List.length_append, header, sizeofMsgHdr]
        omega
      rw [dispatchReceivedMsg, if_neg longer]
      exact ⟨_, out, m, all, rfl⟩

/-- A card that waits for the answer to a header, on a board with a presence pin and the
reset line of a modem. -/
def waitingDevice : Device :=
  let booted := CardSlot.modeCardemuInit 0 1 2 true false CardSlot.quietUart (.untouched .pin) true none
  { slot := { booted with inst.emu.ch.state := .inTpdu, inst.emu.ch.tpdu.state := .waitPb }
    usePhysical := true, pinsPerst := true, perst := [] }

/-- The card is shown as inserted, gives its answer, and the modem is reset, in one
transfer. -/
def insertAndReset : List Request :=
  [.cardInsert true, .pbAndTx 0xb0 [0x3f, 0x00] (by decide), .swTx (0x90, 0x00), .modemResetPulse 300]

def fourSegments : List Segment :=
  [⟨1, fun _ => 0, none⟩, ⟨2, fun _ => 0, none⟩, ⟨3, fun _ => 0, none⟩, ⟨4, fun _ => 0, none⟩]

theorem insertAndReset_carried :
    let transfer : Segment := ⟨0, fun _ => 0, none⟩
    let msg := Msgb.received transfer.tag (Request.stream 0 insertAndReset) transfer.behind
    (∃ d', waitingDevice.dispatchReceivedMsg msg transfer.report (fourSegments.map Option.some) =
          Option.some d' ∧
        waitingDevice.Carried insertAndReset transfer fourSegments d') ∧
      ∃ m, waitingDevice.ExecutesAll (insertAndReset.zip fourSegments) m ∧
        waitingDevice.dispatchSegments msg (fourSegments.map Option.some) =
          Option.some (m.releases transfer.tag) :=
  requests_carried waitingDevice 0 insertAndReset (List.cons_ne_nil _ _) (by decide)
    ⟨0, fun _ => 0, none⟩ fourSegments (by decide)

end Device
end Simtrace2
