import Simtrace2.Host.Dispatch
import Simtrace2.Usb.Accounting

/-! Messages and transfers: each message sent is to be one bulk transfer at the host,
which reads one message out of a transfer. -/
namespace Simtrace2
open Lib

/-- What happens at an end-point whose driver reports what it was given and accepts
the zero-length packet it is offered in its own call-back. -/
inductive PumpInput where
  | submit (msg : UsbBuf)
  | allocSt (fails : Nat)
  | refill (accepted : Bool)
  | complete

namespace UsbBufferedEp

def writeLen (ep : UsbBufferedEp) : Nat := (ep.write.map fun w => w.data.length).getD 0

def active (ep : UsbBufferedEp) : List UsbBuf := (ep.write.map UsbWrite.msg).toList

/-- The packets of a message that waits for its zero-length packet. -/
def unterminated (ep : UsbBufferedEp) (epSize : Nat) : List (List UInt8) :=
  match ep.write with
  | some w => if w.data = [] then packets epSize w.msg.data else []
  | none => []

/-- The driver is busy exactly while a transfer is in progress, with a message or
with the packet that terminates one. -/
structure DriverInStep (ep : UsbBufferedEp) (epSize : Nat) : Prop where
  progress : ep.inProgress = if ep.write.isSome then 1 else 0
  whole : ∀ w, ep.write = some w → w.data = w.msg.data ∨
    (w.data = [] ∧ w.msg.data.length = epSize)

/-- Every message sent is terminated by a short packet of its own, so that the host
has called the handler of each message once, in order. -/
structure Delivered (ep : UsbBufferedEp) (epSize : Nat) : Prop where
  framed : ep.wire = (ep.done.flatMap fun m => frame epSize m.data) ++ ep.unterminated epSize
  received : (transfers epSize ep.wire).1 = ep.done.map UsbBuf.data
  handled : usbInXferCb (transfers epSize ep.wire).1 =
    ep.done.map fun m => processUsbMsg m.data

end UsbBufferedEp

open UsbBufferedEp

def pumpStep (epSize : Nat) (s : Option UsbBufferedEp) : PumpInput → Option UsbBufferedEp
  | .submit msg => epStep epSize s (.submit msg)
  | .allocSt fails => epStep epSize s (.allocSt fails)
  | .refill accepted => epStep epSize s (.refill accepted)
  | .complete => epStep epSize s (.complete ((s.map writeLen).getD 0) true)

/-- No write of several packets ends on a full one. -/
def OneFullPacket (epSize : Nat) (s : Option UsbBufferedEp) (input : PumpInput) : Prop :=
  input = .complete → ∀ ep w, s = some ep → ep.write = some w →
    epSize ∣ w.msg.data.length → w.msg.data.length = epSize

def submitted (inputs : List PumpInput) : List UsbBuf :=
  inputs.filterMap fun
    | .submit msg => some msg
    | _ => none

theorem UsbBuf.data_ne_nil (m : UsbBuf) : m.data ≠ [] := by
  intro empty
  have hdr := m.hdr
  simp [empty] at hdr

/-! What each operation can do to the end-point. -/

namespace UsbBufferedEp

theorem allocSt_cases (ep : UsbBufferedEp) (fails : Nat) :
    ∃ old queue len, ep.queue = old ++ queue ∧
      (ep.usbBufAllocSt fails).1 =
        { ep with queue, queueLen := len, dropped := ep.dropped ++ old } := by
  induction fails generalizing ep with
  | zero => exact ⟨[], ep.queue, ep.queueLen, rfl, by simp [usbBufAllocSt]⟩
  | succ fails ih =>
    rcases ep.dequeue_cases with ⟨_, empty⟩ | ⟨oldest, queue, q, dequeued⟩
    · exact ⟨[], ep.queue, ep.queueLen, rfl, by simp [usbBufAllocSt, empty]⟩
    · simp only [usbBufAllocSt, dequeued]
      obtain ⟨old, queue', len, split, same⟩ :=
        ih ({ ep with queue, queueLen := dec32 ep.queueLen }.evict oldest)
      refine ⟨oldest :: old, queue', len, ?_, ?_⟩
      · rw [q, List.cons_append, ← split]
        rfl
      · rw [same]
        simp [evict]

theorem refill_cases (ep : UsbBufferedEp) (accepted : Bool) :
    (∃ len, ep.usbRefillToHost accepted = { ep with queueLen := len }) ∨
      ∃ msg queue len, ep.inProgress = 0 ∧ ep.queue = msg :: queue ∧
        ep.usbRefillToHost accepted =
          { ep with inProgress := 1, queue, queueLen := len, write := some ⟨msg, msg.data⟩ } := by
  unfold usbRefillToHost
  split
  · exact .inl ⟨ep.queueLen, rfl⟩
  · rename_i idle
    have idle : ep.inProgress = 0 := by simpa using idle
    rcases ep.dequeue_cases with ⟨_, empty⟩ | ⟨msg, queue, q, dequeued⟩
    · exact .inl ⟨ep.queueLen, by simp [empty]⟩
    · simp only [dequeued, idle, inc32_zero]
      cases accepted with
      | true => exact .inr ⟨msg, queue, dec32 ep.queueLen, trivial, q, rfl⟩
      | false =>
        left
        refine ⟨dec32 ep.queueLen, ?_⟩
        cases ep
        simp_all [llistAddIrqsafe, dec32_one]

theorem complete_cases {ep : UsbBufferedEp} {p : Nat} (pos : 0 < p) (step : ep.DriverInStep p) :
    (ep.write = none ∧ ep.complete p ep.writeLen true = ep) ∨
      (∃ msg, ep.write = some ⟨msg, msg.data⟩ ∧ msg.data.length = p ∧
        ep.complete p ep.writeLen true =
          { ep with write := some ⟨msg, []⟩, wire := ep.wire ++ packets p msg.data }) ∨
      (∃ w, ep.write = some w ∧
        (w.data = [] ∧ w.msg.data.length = p ∨ w.data = w.msg.data ∧ w.msg.data.length ≠ p) ∧
        ep.complete p ep.writeLen true =
          { ep with inProgress := 0, write := none, wire := ep.wire ++ packets p w.data
                    done := ep.done ++ [w.msg] }) := by
  cases busy : ep.write with
  | none => exact .inl ⟨rfl, by simp [complete, busy]⟩
  | some w =>
    right
    have one : ep.inProgress = 1 := by simpa [busy] using step.progress
    have len : ep.writeLen = w.data.length := by simp [writeLen, busy]
    rcases step.whole w busy with message | ⟨terminator, full⟩
    · by_cases full : w.msg.data.length = p
      · left
        refine ⟨w.msg, by rw [← message], full, ?_⟩
        simp [complete, busy, usbWriteCb, len, message, full, usbdWrite]
      · right
        refine ⟨w, rfl, .inr ⟨message, full⟩, ?_⟩
        simp [complete, busy, usbWriteCb, len, message, full, one, dec32_one]
    · right
      have short : ¬ 0 = p := by omega
      refine ⟨w, rfl, .inl ⟨terminator, full⟩, ?_⟩
      simp [complete, busy, usbWriteCb, len, terminator, short, one, dec32_one]

theorem pump_cases {ep next : UsbBufferedEp} {p : Nat} (pos : 0 < p) (inStep : ep.DriverInStep p)
    {input : PumpInput} (h : pumpStep p (some ep) input = some next) :
    ((input = .complete → ep.write = none) ∧ ∃ old queue len, ep.queue = old ++ queue ∧
        next = { ep with queue := queue ++ submitted [input], queueLen := len
                         dropped := ep.dropped ++ old }) ∨
      (submitted [input] = [] ∧ ∃ msg queue len, ep.inProgress = 0 ∧ ep.queue = msg :: queue ∧
        next = { ep with inProgress := 1, queue, queueLen := len, write := some ⟨msg, msg.data⟩ }) ∨
      (input = .complete ∧ ∃ msg, ep.write = some ⟨msg, msg.data⟩ ∧ msg.data.length = p ∧
        next = { ep with write := some ⟨msg, []⟩, wire := ep.wire ++ packets p msg.data }) ∨
      (input = .complete ∧ ∃ w, ep.write = some w ∧
        (w.data = [] ∧ w.msg.data.length = p ∨ w.data = w.msg.data ∧ w.msg.data.length ≠ p) ∧
        next = { ep with inProgress := 0, write := none, wire := ep.wire ++ packets p w.data
                         done := ep.done ++ [w.msg] }) := by
  cases input with
  | submit msg => exact .inl ⟨by simp, submit_cases h⟩
  | allocSt fails =>
    obtain ⟨old, queue, len, split, same⟩ := ep.allocSt_cases fails
    refine .inl ⟨by simp, old, queue, len, split, ?_⟩
    simpa [submitted, same, pumpStep, epStep, eq_comm] using h
  | refill accepted =>
    simp only [pumpStep, epStep, Option.bind_some, Option.some.injEq] at h
    rcases ep.refill_cases accepted with ⟨len, same⟩ | ⟨msg, queue, len, idle, q, same⟩
    · exact .inl ⟨by simp, [], ep.queue, len, rfl, by simp [← h, same, submitted]⟩
    · exact .inr (.inl ⟨rfl, msg, queue, len, idle, q, by rw [← h, same]⟩)
  | complete =>
    simp only [pumpStep, epStep, Option.bind_some, Option.map_some, Option.getD_some,
      Option.some.injEq] at h
    rcases complete_cases pos inStep with ⟨idle, same⟩ | ⟨msg, busy, full, same⟩ |
      ⟨w, busy, which, same⟩
    · exact .inl ⟨fun _ => idle, [], ep.queue, ep.queueLen, rfl, by simp [← h, same, submitted]⟩
    · exact .inr (.inr (.inl ⟨rfl, msg, busy, full, by rw [← h, same]⟩))
    · exact .inr (.inr (.inr ⟨rfl, w, busy, which, by rw [← h, same]⟩))

theorem DriverInStep.idle {ep : UsbBufferedEp} {p : Nat} (h : ep.DriverInStep p)
    (idle : ep.inProgress = 0) : ep.write = none := by
  have progress := h.progress
  cases busy : ep.write <;> simp_all

theorem DriverInStep.pump {ep next : UsbBufferedEp} {p : Nat} (pos : 0 < p)
    (inStep : ep.DriverInStep p) {input : PumpInput}
    (h : pumpStep p (some ep) input = some next) : next.DriverInStep p := by
  rcases pump_cases pos inStep h with ⟨_, _, _, _, _, rfl⟩ | ⟨_, msg, _, _, _, _, rfl⟩ |
    ⟨_, msg, busy, full, rfl⟩ | ⟨_, w, _, _, rfl⟩
  · exact ⟨inStep.progress, inStep.whole⟩
  · exact ⟨rfl, by simp⟩
  · exact ⟨by simpa [busy] using inStep.progress, by simp [full]⟩
  · exact ⟨rfl, by simp⟩

theorem pump_kept {ep next : UsbBufferedEp} {p : Nat} (pos : 0 < p) (inStep : ep.DriverInStep p)
    {input : PumpInput} (h : pumpStep p (some ep) input = some next) :
    (next.done ++ next.dropped ++ next.active ++ next.queue).Perm
        (ep.done ++ ep.dropped ++ ep.active ++ ep.queue ++ submitted [input]) ∧
      (next.done ++ next.active ++ next.queue).Sublist
        (ep.done ++ ep.active ++ ep.queue ++ submitted [input]) := by
  rcases pump_cases pos inStep h with ⟨_, old, queue, _, q, rfl⟩ |
    ⟨nothing, msg, queue, _, idle, q, rfl⟩ | ⟨rfl, msg, busy, _, rfl⟩ | ⟨rfl, w, busy, _, rfl⟩
  · constructor
    · rw [List.perm_iff_count]
      intro m
      simp only [active, q, List.count_append]
      omega
    · simp only [active, q, ← List.append_assoc]
      apply List.Sublist.append_right
      apply List.Sublist.append_right
      exact List.sublist_append_left ..
  · simp [active, inStep.idle idle, q, nothing]
  · simp [active, busy, submitted]
  · constructor
    · rw [List.perm_iff_count]
      intro m
      simp only [active, busy, submitted, List.count_append, Option.map_some, Option.map_none,
        Option.toList_some, Option.toList_none, List.count_nil, List.filterMap_cons,
        List.filterMap_nil]
      omega
    · simp [active, busy, submitted]

theorem Delivered.of_framed {ep : UsbBufferedEp} {p : Nat} (pos : 0 < p)
    (inStep : ep.DriverInStep p)
    (framed : ep.wire = (ep.done.flatMap fun m => frame p m.data) ++ ep.unterminated p) :
    ep.Delivered p := by
  have sent : (ep.done.flatMap fun m => frame p m.data).foldl (receive p) ([], []) =
      (ep.done.map UsbBuf.data, []) := by
    have frames := receive_frames pos (ep.done.map UsbBuf.data)
      (by simpa using fun m _ => m.data_ne_nil) ([], []) rfl
    rwa [List.flatMap_map, List.nil_append] at frames
  have received : (transfers p ep.wire).1 = ep.done.map UsbBuf.data := by
    rw [framed, transfers, List.foldl_append, sent]
    unfold unterminated
    split
    · rename_i w busy
      split
      · rename_i terminator
        have full : w.msg.data.length = p := by
          rcases inStep.whole w busy with whole | ⟨_, full⟩
          · exact absurd (whole ▸ terminator) w.msg.data_ne_nil
          · exact full
        rw [receive_packets pos _ w.msg.data_ne_nil, if_pos (by rw [full])]
      · rfl
    · rfl
  exact ⟨framed, received, by simp [usbInXferCb, received]⟩

/-- A step delivers, unless a message of several packets ends on a full one. -/
theorem Delivered.pump_iff {ep next : UsbBufferedEp} {p : Nat} (pos : 0 < p)
    (inStep : ep.DriverInStep p) (h : ep.Delivered p) {input : PumpInput}
    (step : pumpStep p (some ep) input = some next) :
    next.Delivered p ↔ OneFullPacket p (some ep) input := by
  have nextInStep := inStep.pump pos step
  have framed := h.framed
  rcases pump_cases pos inStep step with ⟨quiet, _, _, _, _, rfl⟩ | ⟨_, msg, _, _, idle, _, rfl⟩ |
    ⟨rfl, msg, busy, full, rfl⟩ | ⟨rfl, w, busy, which, rfl⟩
  · refine iff_of_true (.of_framed pos nextInStep framed) ?_
    rintro ends ep' w ⟨⟩ busy
    simp [quiet ends] at busy
  · have free := inStep.idle idle
    refine iff_of_true (.of_framed pos nextInStep ?_) ?_
    · simpa [unterminated, free, msg.data_ne_nil] using framed
    · rintro _ ep' w ⟨⟩ busy
      simp [free] at busy
  · refine iff_of_true (.of_framed pos nextInStep ?_) ?_
    · simpa [unterminated, busy, msg.data_ne_nil] using framed
    · rintro _ ep' w ⟨⟩ busy' _
      rw [busy, Option.some.injEq] at busy'
      rw [← busy']
      exact full
  · rcases which with ⟨terminator, full⟩ | ⟨message, long⟩
    · refine iff_of_true (.of_framed pos nextInStep ?_) ?_
      · have empty : packets p ([] : List UInt8) = [[]] := packets_short (by simp)
        have whole : frame p w.msg.data = packets p w.msg.data ++ [[]] := by simp [frame, full]
        simp [framed, unterminated, busy, terminator, empty, whole]
      · rintro _ ep' w' ⟨⟩ busy' _
        rw [busy, Option.some.injEq] at busy'
        rw [← busy']
        exact full
    · have before : ep.unterminated p = [] := by
        simp [unterminated, busy, message, w.msg.data_ne_nil]
      rw [before, List.append_nil] at framed
      by_cases dvd : p ∣ w.msg.data.length
      · refine iff_of_false (fun after => ?_) (fun cond => long (cond rfl ep w rfl busy dvd))
        have wire := congrArg List.length after.framed
        simp [framed, unterminated, message, frame, dvd] at wire
      · refine iff_of_true (.of_framed pos nextInStep ?_) ?_
        · simp [framed, unterminated, message, frame, dvd]
        · rintro _ ep' w' ⟨⟩ busy' dvd'
          rw [busy, Option.some.injEq] at busy'
          exact absurd (busy' ▸ dvd') dvd

end UsbBufferedEp

def EpInStep (p : Nat) (s : Option UsbBufferedEp) : Prop := ∀ ep, s = some ep → ep.DriverInStep p

def EpDelivered (p : Nat) (s : Option UsbBufferedEp) : Prop := ∀ ep, s = some ep → ep.Delivered p

theorem pumpStep_none (p : Nat) (input : PumpInput) : pumpStep p none input = none := by
  cases input <;> rfl

theorem pumpStep_inStep {p : Nat} (pos : 0 < p) (s : Option UsbBufferedEp) (input : PumpInput)
    (h : EpInStep p s) : EpInStep p (pumpStep p s input) := by
  intro next step
  cases s with
  | none => simp [pumpStep_none] at step
  | some ep => exact (h ep rfl).pump pos step

theorem pumpStep_delivered_iff {p : Nat} (pos : 0 < p) (s : Option UsbBufferedEp)
    (input : PumpInput) (inStep : EpInStep p s) (h : EpDelivered p s) :
    EpDelivered p (pumpStep p s input) ↔ OneFullPacket p s input := by
  cases s with
  | none => exact iff_of_true (by simp [EpDelivered, pumpStep_none]) (by simp [OneFullPacket])
  | some ep =>
    cases step : pumpStep p (some ep) input with
    | none =>
      refine iff_of_true (by simp [EpDelivered]) ?_
      rintro rfl
      simp [pumpStep, epStep] at step
    | some next =>
      rw [← Delivered.pump_iff pos (inStep ep rfl) (h ep rfl) step]
      exact ⟨fun all => all next rfl, fun delivered ep' same => Option.some.inj same ▸ delivered⟩

theorem run_pump_none (p : Nat) (inputs : List PumpInput) : run (pumpStep p) none inputs = none := by
  induction inputs with
  | nil => rfl
  | cons input inputs ih => rw [run, pumpStep_none, ih]

theorem submitted_cons (input : PumpInput) (inputs : List PumpInput) :
    submitted (input :: inputs) = submitted [input] ++ submitted inputs := by
  rw [submitted, submitted, submitted, ← List.filterMap_append, List.singleton_append]

theorem run_pump_kept {p : Nat} (pos : 0 < p) {ep final : UsbBufferedEp}
    (inStep : ep.DriverInStep p) {inputs : List PumpInput}
    (h : run (pumpStep p) (some ep) inputs = some final) :
    (final.done ++ final.dropped ++ final.active ++ final.queue).Perm
        (ep.done ++ ep.dropped ++ ep.active ++ ep.queue ++ submitted inputs) ∧
      (final.done ++ final.active ++ final.queue).Sublist
        (ep.done ++ ep.active ++ ep.queue ++ submitted inputs) := by
  induction inputs generalizing ep with
  | nil =>
    cases h
    simp [submitted]
  | cons input inputs ih =>
    cases step : pumpStep p (some ep) input with
    | none => simp [run, step, run_pump_none] at h
    | some next =>
      rw [run, step] at h
      obtain ⟨perm, order⟩ := ih (inStep.pump pos step) h
      obtain ⟨perm1, order1⟩ := pump_kept pos inStep step
      rw [submitted_cons, ← List.append_assoc, ← List.append_assoc]
      exact ⟨perm.trans (perm1.append_right _), order.trans (order1.append_right _)⟩

/-- Over every run of an end-point: a message is freed once at most, and those sent,
under way and queued are in the order of their submission. The host has handled
exactly the messages sent, one transfer each, exactly as long as none of several
packets ends on a full one. -/
theorem framing_iff {p : Nat} (pos : 0 < p) (inputs : List PumpInput) :
    (∀ ep, run (pumpStep p) (some .init) inputs = some ep →
        (ep.done ++ ep.dropped ++ ep.active ++ ep.queue).Perm (submitted inputs) ∧
          (ep.done ++ ep.active ++ ep.queue).Sublist (submitted inputs)) ∧
      (Always (pumpStep p) (EpDelivered p) (some .init) inputs ↔
        Meets (pumpStep p) (OneFullPacket p) (some .init) inputs) := by
  have inStep : UsbBufferedEp.init.DriverInStep p := ⟨rfl, by simp [UsbBufferedEp.init]⟩
  refine ⟨fun ep ends => run_pump_kept pos inStep ends, ?_⟩
  apply always_iff_meets (EpInStep p) (pumpStep_inStep pos) (pumpStep_delivered_iff pos)
  · rintro ep ⟨⟩
    exact inStep
  · rintro ep ⟨⟩
    exact .of_framed pos inStep rfl

/-- An RX_DATA message that is as long as a packet. -/
def rxDataOf50 : UsbBuf where
  tag := 0
  data := encodeHdr simtraceMsgcCardem msgtDoCemuRxData 0 64 ++ leBytes 4 2 ++ leBytes 2 50 ++
    List.replicate 50 0
  hdr := by simp [encodeHdr]
  fits := by simp [encodeHdr, usbAllocSize]

/-- The message of a full packet is completed with its terminator, and the short one behind it. -/
def fullThenShort : List PumpInput :=
  [.submit rxDataOf50, .submit bareHeader, .refill true, .complete, .complete, .refill true, .complete]

theorem framing_of_full_packet :
    0 < 64 ∧ ((∀ ep, run (pumpStep 64) (some .init) fullThenShort = some ep →
        (ep.done ++ ep.dropped ++ ep.active ++ ep.queue).Perm (submitted fullThenShort) ∧
          (ep.done ++ ep.active ++ ep.queue).Sublist (submitted fullThenShort)) ∧
      (Always (pumpStep 64) (EpDelivered 64) (some .init) fullThenShort ↔
        Meets (pumpStep 64) (OneFullPacket 64) (some .init) fullThenShort)) :=
  ⟨by decide, framing_iff (by decide) _⟩

/-- Both of its messages are handled. -/
example : ∃ ep, run (pumpStep 64) (some .init) fullThenShort = some ep ∧
    ep.done = [rxDataOf50, bareHeader] ∧ ep.wire.map List.length = [64, 0, 8] := by
  have two : inc32 1 = 2 := by decide
  have back : dec32 2 = 1 := by decide
  have full : rxDataOf50.data.length = 64 := by simp [rxDataOf50, encodeHdr]
  have ends : run (pumpStep 64) (some .init) fullThenShort =
      some { UsbBufferedEp.init with
        wire := [rxDataOf50.data, [], bareHeader.data], done := [rxDataOf50, bareHeader] } := by
    simp [fullThenShort, run, pumpStep, epStep, usbBufSubmit, usbMaxQlen, UsbBufferedEp.init,
      msgbEnqueueCount, usbRefillToHost, msgbDequeueCount, usbdWrite, complete, usbWriteCb,
      writeLen, packets_short, inc32_zero, two, back, dec32_one, full, bareHeader_length]
  exact ⟨_, ends, rfl, by simp [full, bareHeader_length]⟩

def rxDataOf114 : UsbBuf where
  tag := 0
  data := encodeHdr simtraceMsgcCardem msgtDoCemuRxData 0 128 ++ leBytes 4 2 ++ leBytes 2 114 ++
    List.replicate 114 0
  hdr := by simp [encodeHdr]
  fits := by simp [encodeHdr, usbAllocSize]

/-- Its transfer goes on with the next message, and the host handles one of the two. -/
theorem framing_loses_message :
    let inputs : List PumpInput :=
      [.submit rxDataOf114, .refill true, .complete, .submit bareHeader, .refill true, .complete]
    ¬ Always (pumpStep 64) (EpDelivered 64) (some .init) inputs ∧
      ∃ ep, run (pumpStep 64) (some .init) inputs = some ep ∧ ep.done = [rxDataOf114, bareHeader] ∧
        usbInXferCb (transfers 64 ep.wire).1 =
          [processUsbMsg (rxDataOf114.data ++ bareHeader.data)] := by
  intro inputs
  have long : rxDataOf114.data.length = 128 := by simp [rxDataOf114, encodeHdr]
  have ends : run (pumpStep 64) (some .init) inputs =
      some { UsbBufferedEp.init with
        wire := packets 64 rxDataOf114.data ++ packets 64 bareHeader.data
        done := [rxDataOf114, bareHeader] } := by
    simp [inputs, run, pumpStep, epStep, usbBufSubmit, usbMaxQlen, UsbBufferedEp.init,
      msgbEnqueueCount, usbRefillToHost, msgbDequeueCount, usbdWrite, complete, usbWriteCb,
      writeLen, inc32_zero, dec32_one, long, bareHeader_length]
  have merged : transfers 64 (packets 64 rxDataOf114.data ++ packets 64 bareHeader.data) =
      ([rxDataOf114.data ++ bareHeader.data], []) := by
    rw [transfers, List.foldl_append, receive_packets (by decide) _ (UsbBuf.data_ne_nil _), bareHeader_length,
      receive_packets (by decide) _ (UsbBuf.data_ne_nil _), long]
    simp
  refine ⟨fun always => ?_, _, ends, rfl, by rw [merged]; rfl⟩
  have delivered := (always inputs (List.prefix_refl _) _ ends).handled
  rw [merged] at delivered
  simp [usbInXferCb] at delivered

end Simtrace2
