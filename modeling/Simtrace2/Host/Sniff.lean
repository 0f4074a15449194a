import Simtrace2.Lib.Deframe
import Simtrace2.Lib.Run
import Simtrace2.Sniffer.Message

/-! `simtrace2-sniff.c`: the host reads the sniffer's messages from a bulk end-point
and takes them apart, wherever the reads end. -/
namespace Simtrace2
open Lib

def libusbErrorIo : Int := -1
def libusbErrorTimeout : Int := -7
def libusbErrorInterrupted : Int := -10

def sizeofSniffChange : Nat := 4
def sizeofSniffFidi : Nat := 1
def sizeofSniffData : Nat := 6

def SniffType.ofMsgType (type : UInt8) : Option SniffType :=
  if type = msgtSniffAtr then some .atr
  else if type = msgtSniffPps then some .pps
  else if type = msgtSniffTpdu then some .tpdu
  else none

theorem SniffType.ofMsgType_msgType (type : SniffType) : ofMsgType type.msgType = some type := by
  cases type <;> decide

namespace SniffHost

/-- What is printed of a message, and what is sent on, is taken from the fields decoded. -/
def processChange (buf : List UInt8) : Except Int SniffMsg :=
  if buf.length < sizeofSniffChange then .error (-1)
  else .ok (.change (UInt32.ofNat (leValue (buf.take 4))))

def processFidi (buf : List UInt8) : Except Int SniffMsg :=
  if buf.length < sizeofSniffFidi then .error (-1)
  else .ok (.fidi (buf.headD 0))

def processData (type : UInt8) (buf : List UInt8) : Except Int SniffMsg :=
  if buf.length < sizeofSniffData then .error (-1)
  else
    let length := leValue ((buf.drop 4).take 2)
    if buf.length < sizeofSniffData + length then .error (-2)
    else match SniffType.ofMsgType type with
      | none => .error (-3)
      | some type => .ok (.data type (UInt32.ofNat (leValue (buf.take 4))) ((buf.drop 6).take length))

/-- The switch over the message type. The caller drops what a decoder rejects. -/
def processSniff (type : UInt8) (buf : List UInt8) : List SniffMsg :=
  if type = msgtSniffChange then (processChange buf).toOption.toList
  else if type = msgtSniffFidi then (processFidi buf).toOption.toList
  else if type = msgtSniffAtr ∨ type = msgtSniffPps ∨ type = msgtSniffTpdu then
    (processData type buf).toOption.toList
  else []

/-- The bytes consumed, and the messages decoded. -/
def processUsbMsg (buf : List UInt8) : Nat × List SniffMsg :=
  if buf.length < sizeofMsgHdr then (0, [])
  else
    let msgLen := leValue ((buf.drop 6).take 2)
    if buf.length < msgLen then (0, [])
    else if buf.headD 0 ≠ simtraceMsgcSniff then (msgLen, [])
    else (msgLen, processSniff ((buf.drop 1).headD 0) (buf.drop sizeofMsgHdr))

end SniffHost

/-- `sizeof(buf)` of `run_mainloop`. -/
def sizeofBuf : Nat := 16 * 256

/-- What one call of `libusb_bulk_transfer` returns: `rc`, and the bytes it wrote. -/
structure BulkTransfer where
  rc : Int
  data : List UInt8
deriving DecidableEq, Repr

def BulkTransfer.fatal (r : BulkTransfer) : Prop :=
  r.rc < 0 ∧ r.rc ≠ libusbErrorTimeout ∧ r.rc ≠ libusbErrorInterrupted ∧ r.rc ≠ libusbErrorIo

instance (r : BulkTransfer) : Decidable r.fatal :=
  inferInstanceAs (Decidable (_ ∧ _))

/-- `run_mainloop`: the first `buf_i` bytes of its buffer, and what has been decoded. -/
structure SniffHost where
  running : Bool
  buf : List UInt8
  decoded : List SniffMsg

namespace SniffHost

def init : SniffHost := { running := true, buf := [], decoded := [] }

/-- One turn of `run_mainloop`. -/
def turn (h : SniffHost) (r : BulkTransfer) : SniffHost :=
  if !h.running then h
  else if r.fatal then { h with running := false }
  else if r.data = [] then h
  else
    let buf := h.buf ++ r.data
    if sizeofBuf ≤ buf.length then { h with buf, running := false }
    else
      let dispatched := drain processUsbMsg buf
      { h with buf := dispatched.2, decoded := h.decoded ++ dispatched.1 }

end SniffHost

/-- What a message is about: something sniffed, or another class that the host skips. -/
inductive Content where
  | sniff (m : SniffMsg)
  | other (msgClass msgType : UInt8) (payload : List UInt8) (foreign : msgClass ≠ simtraceMsgcSniff)

namespace Content

def msgClass : Content → UInt8
  | sniff _ => simtraceMsgcSniff
  | other msgClass _ _ _ => msgClass

def msgType : Content → UInt8
  | sniff m => m.msgType
  | other _ msgType _ _ => msgType

def payload : Content → List UInt8
  | sniff m => m.payload
  | other _ _ payload _ => payload

def sniffed : Content → List SniffMsg
  | sniff m => [m]
  | other .. => []

end Content

/-- A well-formed message with a total length of 8 to 280 bytes. -/
structure SimtraceMsg where
  seqNr : UInt8
  slotNr : UInt8
  reserved : UInt16
  content : Content
  small : sizeofMsgHdr + content.payload.length ≤ usbAllocSize

namespace SimtraceMsg

def hdr (msgClass msgType seqNr slotNr : UInt8) (reserved : UInt16) (msgLen : Nat) : List UInt8 :=
  [msgClass, msgType, seqNr, slotNr] ++ leBytes 2 reserved.toNat ++ leBytes 2 msgLen

def msgLen (m : SimtraceMsg) : Nat := sizeofMsgHdr + m.content.payload.length

def bytes (m : SimtraceMsg) : List UInt8 :=
  hdr m.content.msgClass m.content.msgType m.seqNr m.slotNr m.reserved m.msgLen ++ m.content.payload

def sniffed (m : SimtraceMsg) : List SniffMsg := m.content.sniffed

@[simp] theorem hdr_length (msgClass msgType seqNr slotNr : UInt8) (reserved : UInt16) (n : Nat) :
    (hdr msgClass msgType seqNr slotNr reserved n).length = sizeofMsgHdr := by
  simp [hdr, sizeofMsgHdr]

theorem bytes_length (m : SimtraceMsg) : m.bytes.length = m.msgLen := by
  rw [bytes, List.length_append, hdr_length, msgLen]

theorem msgLen_lt (m : SimtraceMsg) : m.msgLen < 256 ^ 2 := by
  have small := m.small
  rw [msgLen]
  simp only [usbAllocSize] at small
  omega

end SimtraceMsg

namespace SniffHost

theorem processChange_payload (flags : UInt32) (rest : List UInt8) :
    processChange ((SniffMsg.change flags).payload ++ rest) = .ok (.change flags) := by
  have enough : ¬ ((SniffMsg.change flags).payload ++ rest).length < sizeofSniffChange := by
    simp [SniffMsg.payload, sizeofSniffChange]
  have field : ((SniffMsg.change flags).payload ++ rest).take 4 = leBytes 4 flags.toNat := by
    simp [SniffMsg.payload]
  rw [processChange, if_neg enough, field, leValue_flags]

theorem processFidi_payload (fidi : UInt8) (rest : List UInt8) :
    processFidi ((SniffMsg.fidi fidi).payload ++ rest) = .ok (.fidi fidi) := by
  simp [processFidi, SniffMsg.payload, sizeofSniffFidi]

theorem processData_payload (type : SniffType) (flags : UInt32) (data rest : List UInt8)
    (small : data.length < 256 ^ 2) :
    processData type.msgType ((SniffMsg.data type flags data).payload ++ rest) =
      .ok (.data type flags data) := by
  have shape : (SniffMsg.data type flags data).payload ++ rest =
      leBytes 4 flags.toNat ++ (leBytes 2 data.length ++ (data ++ rest)) := by
    simp [SniffMsg.payload]
  have fits :
      leValue (((leBytes 4 flags.toNat ++ (leBytes 2 data.length ++ (data ++ rest))).drop 4).take 2) =
      data.length := by
    rw [List.drop_left' (leBytes_length 4 _), List.take_left' (leBytes_length 2 _), leValue_leBytes,
      Nat.mod_eq_of_lt small]
  have read :
      (leBytes 4 flags.toNat ++ (leBytes 2 data.length ++ (data ++ rest))).drop 6 = data ++ rest := by
    rw [← List.append_assoc, List.drop_left' (by simp)]
  rw [shape, processData, if_neg (by simp [sizeofSniffData]; omega)]
  simp only [fits, read, List.take_left, List.take_left' (leBytes_length 4 _), leValue_flags]
  rw [if_neg (by simp [sizeofSniffData]; omega), SniffType.ofMsgType_msgType]

theorem processSniff_payload (m : SniffMsg) (small : m.payload.length < 256 ^ 2) (rest : List UInt8) :
    processSniff m.msgType (m.payload ++ rest) = [m] := by
  cases m with
  | change flags =>
    rw [SniffMsg.msgType, processSniff, if_pos rfl, processChange_payload]
    rfl
  | fidi fidi =>
    rw [SniffMsg.msgType, processSniff, if_neg (by decide), if_pos rfl, processFidi_payload]
    rfl
  | data type flags data =>
    have short : data.length < 256 ^ 2 := by
      simp only [SniffMsg.payload, List.length_append, leBytes_length] at small
      omega
    have isData : type.msgType ≠ msgtSniffChange ∧ type.msgType ≠ msgtSniffFidi ∧
        (type.msgType = msgtSniffAtr ∨ type.msgType = msgtSniffPps ∨ type.msgType = msgtSniffTpdu) := by
      cases type <;> decide
    rw [SniffMsg.msgType, processSniff, if_neg isData.1, if_neg isData.2.1, if_pos isData.2.2,
      processData_payload type flags data rest short]
    rfl

/-- What a complete header says: how many bytes the message needs, and what they are. -/
theorem processUsbMsg_hdr (msgClass msgType seqNr slotNr : UInt8) (reserved : UInt16) (n : Nat)
    (small : n < 256 ^ 2) (xs : List UInt8) :
    processUsbMsg (SimtraceMsg.hdr msgClass msgType seqNr slotNr reserved n ++ xs) =
      if sizeofMsgHdr + xs.length < n then (0, [])
      else if msgClass ≠ simtraceMsgcSniff then (n, [])
      else (n, processSniff msgType xs) := by
  have shape : SimtraceMsg.hdr msgClass msgType seqNr slotNr reserved n ++ xs =
      [msgClass, msgType, seqNr, slotNr] ++ leBytes 2 reserved.toNat ++ (leBytes 2 n ++ xs) := by
    simp [SimtraceMsg.hdr]
  have len : leValue ((([msgClass, msgType, seqNr, slotNr] ++ leBytes 2 reserved.toNat ++
      (leBytes 2 n ++ xs)).drop 6).take 2) = n := by
    rw [List.drop_left' (by simp), List.take_left' (leBytes_length 2 _), leValue_leBytes,
      Nat.mod_eq_of_lt small]
  have behind :
      (SimtraceMsg.hdr msgClass msgType seqNr slotNr reserved n ++ xs).drop sizeofMsgHdr = xs :=
    List.drop_left' (SimtraceMsg.hdr_length ..)
  rw [processUsbMsg, if_neg (by simp), behind, List.length_append, SimtraceMsg.hdr_length, shape, len]
  rfl

theorem sniff_frames : Frames processUsbMsg SimtraceMsg.bytes SimtraceMsg.sniffed where
  pos m := by
    rw [m.bytes_length, SimtraceMsg.msgLen, sizeofMsgHdr]
    omega
  whole m rest := by
    have all : ¬ sizeofMsgHdr + (m.content.payload ++ rest).length < m.msgLen := by
      rw [List.length_append, SimtraceMsg.msgLen]
      omega
    have short : m.content.payload.length < 256 ^ 2 := by
      have := m.msgLen_lt
      rw [SimtraceMsg.msgLen] at this
      omega
    rw [m.bytes_length, SimtraceMsg.bytes, List.append_assoc,
      processUsbMsg_hdr _ _ _ _ _ _ m.msgLen_lt, if_neg all, SimtraceMsg.sniffed]
    revert short
    cases m.content with
    | sniff sniffed =>
      intro short
      rw [if_neg (by simp [Content.msgClass])]
      exact congrArg (Prod.mk _) (processSniff_payload sniffed short rest)
    | other msgClass msgType payload foreign =>
      intro _
      exact if_pos foreign
  empty := by simp [processUsbMsg, sizeofMsgHdr]
  short m xs isPrefix shorter := by
    by_cases header : xs.length < sizeofMsgHdr
    · rw [processUsbMsg, if_pos header]
    · obtain ⟨ys, rfl⟩ : SimtraceMsg.hdr m.content.msgClass m.content.msgType m.seqNr m.slotNr m.reserved
          m.msgLen <+: xs :=
        List.prefix_of_prefix_length_le (List.prefix_append _ _) isPrefix (by simpa using header)
      rw [m.bytes_length, List.length_append, SimtraceMsg.hdr_length] at shorter
      rw [processUsbMsg_hdr _ _ _ _ _ _ m.msgLen_lt, if_pos shorter]

/-- A read brings at least one byte, and no more than the buffer has room for. -/
def Reads (h : SniffHost) (r : BulkTransfer) : Prop :=
  ¬ r.fatal ∧ r.data ≠ [] ∧ h.buf.length + r.data.length ≤ sizeofBuf

/-- The buffer is not full behind a read. -/
def LeavesRoom (h : SniffHost) (r : BulkTransfer) : Prop :=
  h.buf.length + r.data.length < sizeofBuf

def received (reads : List BulkTransfer) : List UInt8 := reads.flatMap BulkTransfer.data

/-- The loop goes on, has decoded every complete message received, and keeps the begin of
the one after it. -/
def Reassembled (msgs : List SimtraceMsg) (received : List UInt8) (h : SniffHost) : Prop :=
  h.running = true ∧
    Deframed SimtraceMsg.bytes SimtraceMsg.sniffed msgs received h.decoded h.buf

theorem turn_reads {h : SniffHost} {r : BulkTransfer} (running : h.running = true)
    (reads : h.Reads r) (room : h.LeavesRoom r) :
    h.turn r = { h with buf := (drain processUsbMsg (h.buf ++ r.data)).2,
                        decoded := h.decoded ++ (drain processUsbMsg (h.buf ++ r.data)).1 } := by
  have below : ¬ sizeofBuf ≤ (h.buf ++ r.data).length := by
    rw [List.length_append]
    exact Nat.not_le_of_lt room
  simp only [turn, running, Bool.not_true, Bool.false_eq_true, if_false, if_neg reads.1,
    if_neg reads.2.1, if_neg below]

theorem turn_full {h : SniffHost} {r : BulkTransfer} (reads : h.Reads r) (full : ¬ h.LeavesRoom r) :
    (h.turn r).running = false := by
  have reached : sizeofBuf ≤ (h.buf ++ r.data).length := by
    rw [List.length_append]
    exact Nat.le_of_not_lt full
  cases running : h.running
  · simp [turn, running]
  · simp only [turn, running, Bool.not_true, Bool.false_eq_true, if_false, if_neg reads.1,
      if_neg reads.2.1, if_pos reached]

theorem Reassembled.turn {msgs : List SimtraceMsg} {got : List UInt8} {h : SniffHost}
    {r : BulkTransfer} (before : Reassembled msgs got h) (reads : h.Reads r) (room : h.LeavesRoom r)
    (more : got ++ r.data <+: msgs.flatMap SimtraceMsg.bytes) :
    Reassembled msgs (got ++ r.data) (h.turn r) := by
  rw [turn_reads before.1 reads room]
  exact ⟨before.1, sniff_frames.feed before.2 more⟩

theorem reassembles {msgs : List SimtraceMsg} {got : List UInt8} {h : SniffHost}
    (start : Reassembled msgs got h) {reads : List BulkTransfer} (cut : Meets turn Reads h reads)
    (stream : got ++ received reads <+: msgs.flatMap SimtraceMsg.bytes) :
    (∀ p, p <+: reads → Reassembled msgs (got ++ received p) (run turn h p)) ↔
      Meets turn LeavesRoom h reads := by
  induction reads generalizing got h with
  | nil =>
    constructor
    · intro _
      trivial
    · intro _ p isPrefix
      rw [List.prefix_nil.mp isPrefix]
      simpa [received, run] using start
  | cons r reads ih =>
    have first : got ++ r.data <+: msgs.flatMap SimtraceMsg.bytes := by
      refine List.IsPrefix.trans ?_ stream
      rw [received, List.flatMap_cons, ← List.append_assoc]
      exact List.prefix_append _ _
    have rest : (got ++ r.data) ++ received reads <+: msgs.flatMap SimtraceMsg.bytes := by
      simpa [received] using stream
    constructor
    · intro all
      have room : h.LeavesRoom r := by
        by_contra full
        have after : Reassembled msgs _ (h.turn r) := all [r] (by simp)
        exact Bool.false_ne_true ((turn_full cut.1 full).symm.trans after.1)
      refine ⟨room, (ih (start.turn cut.1 room first) cut.2 rest).mp fun p isPrefix => ?_⟩
      have longer := all (r :: p) ((List.prefix_cons_inj r).mpr isPrefix)
      simpa [received, run] using longer
    · rintro ⟨room, later⟩ p isPrefix
      cases p with
      | nil => simpa [received, run] using start
      | cons q p =>
        obtain ⟨rfl, tail⟩ := List.cons_prefix_cons.mp isPrefix
        have longer := (ih (start.turn cut.1 room first) cut.2 rest).mpr later p tail
        simpa [received, run] using longer

/-- Over every cut of every stream of well-formed messages: `run_mainloop` decodes exactly
the sniffed messages and keeps the begin of the next one, if and only if no read fills the
buffer to its end. -/
theorem mainloop_reassembles_iff (msgs : List SimtraceMsg) (reads : List BulkTransfer)
    (cut : Meets turn Reads init reads)
    (stream : received reads <+: msgs.flatMap SimtraceMsg.bytes) :
    (∀ p, p <+: reads → Reassembled msgs (received p) (run turn init p)) ↔
      Meets turn LeavesRoom init reads := by
  have start : Reassembled msgs [] init := ⟨rfl, deframed_nil msgs⟩
  exact reassembles start cut stream

/-- A Fi/Di message that arrives in two reads. -/
def switchedFidi : SimtraceMsg :=
  { seqNr := 0, slotNr := 0, reserved := 0, content := .sniff (.fidi 0x11), small := by decide }

def inTwoReads : List BulkTransfer :=
  [⟨0, [3, 1, 0]⟩, ⟨libusbErrorTimeout, [0, 0, 0, 9, 0, 0x11]⟩]

theorem header_kept : drain processUsbMsg [3, 1, 0] = ([], [3, 1, 0]) :=
  drain_stops (sniff_frames.short switchedFidi _ (by decide) (by decide))

theorem reads_switchedFidi : Meets turn Reads init inTwoReads := by
  have first : init.turn ⟨0, [3, 1, 0]⟩ = { init with buf := [3, 1, 0] } := by
    rw [turn_reads rfl (by unfold Reads; decide) (by unfold LeavesRoom; decide)]
    simp only [init, List.nil_append, header_kept]
  refine ⟨by unfold Reads; decide, ?_, trivial⟩
  rw [first]
  unfold Reads
  decide

theorem mainloop_reassembles_two_reads :
    (∀ p, p <+: inTwoReads → Reassembled [switchedFidi] (received p) (run turn init p)) ↔
      Meets turn LeavesRoom init inTwoReads :=
  mainloop_reassembles_iff _ _ reads_switchedFidi (by decide)

theorem payload_data_length (type : SniffType) (flags : UInt32) (data : List UInt8) :
    (SniffMsg.data type flags data).payload.length = sizeofSniffData + data.length := by
  simp only [SniffMsg.payload, List.length_append, leBytes_length, sizeofSniffData]

/-- A TPDU message of 256 bytes: sixteen of them fill the buffer in one read. -/
def longTpdu : SimtraceMsg :=
  { seqNr := 0, slotNr := 0, reserved := 0,
    content := .sniff (.data .tpdu 0 (List.replicate 242 0))
    small := by
      rw [Content.payload, payload_data_length, List.length_replicate]
      decide }

theorem longTpdu_length : longTpdu.bytes.length = 256 := by
  rw [SimtraceMsg.bytes_length, SimtraceMsg.msgLen, longTpdu, Content.payload, payload_data_length,
    List.length_replicate]
  rfl

def sixteen : List SimtraceMsg := List.replicate 16 longTpdu

def fullRead : BulkTransfer := { rc := 0, data := sixteen.flatMap SimtraceMsg.bytes }

theorem fullRead_length : fullRead.data.length = sizeofBuf := by
  rw [fullRead, sixteen, List.length_flatMap, List.map_replicate, longTpdu_length]
  rfl

theorem full_read_stops :
    Meets turn Reads init [fullRead] ∧
      received [fullRead] <+: sixteen.flatMap SimtraceMsg.bytes ∧
      ¬ ∀ p, p <+: [fullRead] → Reassembled sixteen (received p) (run turn init p) := by
  have full : (init.buf ++ fullRead.data).length = sizeofBuf := by
    rw [init, List.nil_append, fullRead_length]
  have reads : init.Reads fullRead := by
    refine ⟨by decide, fun none => ?_, ?_⟩
    · have some := fullRead_length
      rw [none] at some
      cases some
    · rw [← List.length_append, full]
  have whole : received [fullRead] = sixteen.flatMap SimtraceMsg.bytes := by
    rw [received, List.flatMap_cons, List.flatMap_nil, List.append_nil, fullRead]
  have stopped : (init.turn fullRead).running = false := by
    apply turn_full reads
    rw [LeavesRoom, ← List.length_append, full]
    exact Nat.lt_irrefl _
  refine ⟨⟨reads, trivial⟩, ?_, ?_⟩
  · rw [whole]
  · intro all
    have after := (all [fullRead] (List.prefix_refl [fullRead])).1
    rw [run, run, stopped] at after
    exact Bool.false_ne_true after

/-- With room behind every read, nothing sent is lost and nothing is left over. -/
theorem mainloop_decodes_all (msgs : List SimtraceMsg) (reads : List BulkTransfer)
    (cut : Meets turn Reads init reads) (room : Meets turn LeavesRoom init reads)
    (whole : received reads = msgs.flatMap SimtraceMsg.bytes) :
    (run turn init reads).decoded = msgs.flatMap SimtraceMsg.sniffed ∧
      (run turn init reads).buf = [] := by
  have start : Reassembled msgs [] init := ⟨rfl, deframed_nil msgs⟩
  have stream : [] ++ received reads <+: msgs.flatMap SimtraceMsg.bytes := by
    rw [List.nil_append, whole]
  have after := (reassembles start cut stream).mpr room reads List.prefix_rfl
  rw [List.nil_append, whole] at after
  exact sniff_frames.read_all after.2

end SniffHost
end Simtrace2
