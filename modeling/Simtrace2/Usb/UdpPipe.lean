import Simtrace2.Usb.Framing
import Simtrace2.Usb.UdpIn

/-! A buffered end-point on the driver of the device port. The call-back of a write runs in the
interrupt, and may start the next one there. -/
namespace Simtrace2
open Lib

/-- The data of the `USBD_Write` that `usb_refill_to_host` calls, if it does. -/
def UsbBufferedEp.refillData (ep : UsbBufferedEp) : Option (List UInt8) :=
  if ep.inProgress ≠ 0 then none else ep.queue.head?.map UsbBuf.data

/-- `usb_write_cb` for a write of which not all has been sent: it does not look at the status. -/
def UsbBufferedEp.abort (ep : UsbBufferedEp) (epSize transferred : Nat) : UsbBufferedEp :=
  match ep.write with
  | none => ep
  | some w => { ep with write := none }.usbWriteCb epSize w.msg transferred true

/-- A buffered end-point over its driver. Behind a failed assertion nothing goes on. -/
structure UdpPipe where
  ep : Option UsbBufferedEp
  udp : UdpIn

inductive UdpInput where
  | submit (msg : UsbBuf)
  | allocSt (fails : Nat)
  | refill
  | inToken
  | irq (raced : Bool)
  | busReset
  | configure

namespace UdpPipe

def init : UdpPipe := { ep := some .init, udp := .init }

/-- `UDP_EndOfTransfer`, with `usb_write_cb` as the call-back: the driver is idle when it runs, and
takes the zero-length packet it may write. -/
def endOfTransfer (c : UdpConfig) (status : UsbdStatus) (ep : UsbBufferedEp) (u : UdpIn) : UdpPipe :=
  let transferred := u.transferred.toNat
  let u := u.endOfTransfer status
  let ep := match status with
    | .success => ep.complete c.size transferred true
    | .reset => ep.abort c.size transferred
  match ep.write with
  | none => ⟨some ep, u⟩
  | some w => ⟨some ep, (u.udpWrite c w.data).1⟩

/-- The branch of `UDP_EndpointHandler` for TXCOMP. -/
def endpointHandler (c : UdpConfig) (raced : Bool) (ep : UsbBufferedEp) (u : UdpIn) : UdpPipe :=
  if u.state ≠ .sending then ⟨some ep, u.clearTxComp⟩
  else if u.isTransferFinished c then
    let u := { u with transferred := u.transferred + u.buffered, buffered := 0, enabled := false }
    let s := endOfTransfer c .success ep u
    { s with udp := (if raced then s.udp.inToken else s.udp).clearTxComp }
  else ⟨some ep, u.sendNext c raced⟩

/-- `USBD_HAL_ConfigureEP`, which a SET_CONFIGURATION calls, with or without a bus reset before it. -/
def configure (c : UdpConfig) (ep : UsbBufferedEp) (u : UdpIn) : UdpPipe :=
  let s := if u.state = .sending then endOfTransfer c .reset ep u else ⟨some ep, u⟩
  { s with udp := s.udp.configureEp c }

def refill (c : UdpConfig) (ep : UsbBufferedEp) (u : UdpIn) : UdpPipe :=
  match ep.refillData with
  | none => ⟨some ep, u⟩
  | some data =>
    let (u, accepted) := u.udpWrite c data
    ⟨some (ep.usbRefillToHost accepted), u⟩

def step (c : UdpConfig) (s : UdpPipe) (input : UdpInput) : UdpPipe :=
  match s.ep with
  | none => s
  | some ep =>
    match input with
    | .submit msg => { s with ep := ep.usbBufSubmit msg }
    | .allocSt fails => { s with ep := some (ep.usbBufAllocSt fails).1 }
    | .refill => refill c ep s.udp
    | .inToken => { s with udp := s.udp.inToken }
    | .irq raced =>
      if s.udp.enabled ∧ s.udp.txComp then endpointHandler c raced ep s.udp else s
    | .busReset => { s with udp := s.udp.resetEp }
    | .configure => configure c ep s.udp

/-- What a step is to the end-point above the driver. -/
def pumps (c : UdpConfig) (s : UdpPipe) (input : UdpInput) : List PumpInput :=
  match input with
  | .submit msg => [.submit msg]
  | .allocSt fails => [.allocSt fails]
  | .refill => [.refill (s.udp.state = .idle)]
  | .irq _ =>
    if s.udp.enabled ∧ s.udp.txComp ∧ s.udp.state = .sending ∧ s.udp.isTransferFinished c then
      [.complete]
    else []
  | .inToken | .busReset | .configure => []

/-- No bus reset and no SET_CONFIGURATION meets a transfer, and the host takes no packet between
TXPKTRDY and the clearing of TXCOMP. -/
def Unbroken (c : UdpConfig) (s : UdpPipe) (input : UdpInput) : Prop :=
  ∀ ep ∈ s.ep, match input with
    | .irq true => s.udp.enabled = true → s.udp.txComp = true →
        (endpointHandler c false ep s.udp).udp.txPktRdy = none
    | .busReset | .configure => s.udp.state ≠ .sending
    | _ => True

end UdpPipe

/-! ### The end-point over the driver -/

namespace UdpPipe
variable {c : UdpConfig} {ep : UsbBufferedEp} {u : UdpIn}

/-- The driver is busy exactly with the write of the end-point above, and the bus has what that one
says, with the packets of that write that the host has taken already. No write has been cut off. -/
structure Tied (c : UdpConfig) (ep : UsbBufferedEp) (u : UdpIn) : Prop where
  inStep : ep.DriverInStep c.size
  whole : ∀ status ∈ u.ended, status = .success
  rest : u.state ≠ .sending → ep.write = none ∧ u.txPktRdy = none ∧ u.fdr = [] ∧ u.txComp = false ∧
    u.bus = ep.wire
  busy : u.state = .sending → ∃ w sent cur next, ep.write = some w ∧
    u.Sending c w.data ep.wire sent cur next

def InStep (c : UdpConfig) (s : UdpPipe) : Prop := ∀ ep ∈ s.ep, Tied c ep s.udp

theorem Tied.progress (h : Tied c ep u) : ep.inProgress = if u.state = .sending then 1 else 0 := by
  rw [h.inStep.progress]
  by_cases sending : u.state = .sending
  · obtain ⟨w, _, _, _, write, _⟩ := h.busy sending
    simp [write, sending]
  · simp [(h.rest sending).1, sending]

theorem Tied.udp (h : Tied c ep u) {v : UdpIn} (state : v.state = .sending ↔ u.state = .sending)
    (rest : u.state ≠ .sending → v.txPktRdy = u.txPktRdy ∧ v.fdr = u.fdr ∧ v.txComp = u.txComp ∧
      v.bus = u.bus)
    (busy : ∀ data wire sent cur next, u.Sending c data wire sent cur next →
      ∃ sent' cur' next', v.Sending c data wire sent' cur' next') (ended : v.ended = u.ended) :
    Tied c ep v := by
  refine ⟨h.inStep, ended ▸ h.whole, ?_, ?_⟩
  · intro idle
    have idle : u.state ≠ .sending := fun sending => idle (state.mpr sending)
    obtain ⟨ready, fdr, comp, bus⟩ := rest idle
    rw [ready, fdr, comp, bus]
    exact h.rest idle
  · intro sending
    obtain ⟨w, sent, cur, next, write, under⟩ := h.busy (state.mp sending)
    obtain ⟨sent', cur', next', under'⟩ := busy _ _ _ _ _ under
    exact ⟨w, sent', cur', next', write, under'⟩

theorem Tied.above (h : Tied c ep u) {next : UsbBufferedEp} (inStep : next.DriverInStep c.size)
    (write : next.write = ep.write) (wire : next.wire = ep.wire) : Tied c next u := by
  refine ⟨inStep, h.whole, ?_, ?_⟩
  · rw [write, wire]
    exact h.rest
  · rw [write, wire]
    exact h.busy

/-- One step of the pipe, and what it was to the end-point above. -/
def StepTied (c : UdpConfig) (ep : UsbBufferedEp) (u : UdpIn) (input : UdpInput) : Prop :=
  InStep c (step c ⟨some ep, u⟩ input) ∧
    (step c ⟨some ep, u⟩ input).ep = run (pumpStep c.size) (some ep) (pumps c ⟨some ep, u⟩ input)

theorem Tied.submit (h : Tied c ep u) (msg : UsbBuf) : StepTied c ep u (.submit msg) := by
  refine ⟨fun next submitted => ?_, rfl⟩
  have pumped : pumpStep c.size (some ep) (.submit msg) = some next := submitted
  obtain ⟨old, queue, len, _, rfl⟩ := UsbBufferedEp.submit_cases submitted
  exact h.above (h.inStep.pump c.pos pumped) rfl rfl

theorem Tied.allocSt (h : Tied c ep u) (fails : Nat) : StepTied c ep u (.allocSt fails) := by
  refine ⟨fun next evicted => ?_, rfl⟩
  obtain ⟨old, queue, len, _, same⟩ := ep.allocSt_cases fails
  have pumped : pumpStep c.size (some ep) (.allocSt fails) = some next := evicted
  have inStep := h.inStep.pump c.pos pumped
  obtain rfl : (ep.usbBufAllocSt fails).1 = next := Option.some.inj evicted
  exact h.above inStep (by rw [same]) (by rw [same])

theorem refillData_none (none : ep.refillData = none) (accepted : Bool) :
    ep.usbRefillToHost accepted = ep := by
  unfold UsbBufferedEp.refillData at none
  unfold UsbBufferedEp.usbRefillToHost
  split
  · rfl
  · rename_i idle
    rw [if_neg idle] at none
    cases q : ep.queue with
    | nil => simp [UsbBufferedEp.msgbDequeueCount, q]
    | cons msg queue => simp [q] at none

theorem refillData_some {data : List UInt8} (some' : ep.refillData = some data) :
    ∃ msg queue, ep.inProgress = 0 ∧ data = msg.data ∧
      ep.usbRefillToHost true = { ep with
        inProgress := 1, queue, queueLen := dec32 ep.queueLen, write := some ⟨msg, msg.data⟩ } ∧
      ep.usbRefillToHost false = { ep with queueLen := dec32 ep.queueLen } := by
  unfold UsbBufferedEp.refillData at some'
  split at some'
  · cases some'
  · rename_i idle
    have idle : ep.inProgress = 0 := not_not.mp idle
    cases q : ep.queue with
    | nil => simp [q] at some'
    | cons msg queue =>
      refine ⟨msg, queue, idle, ?_, ?_, ?_⟩
      · simpa [q, eq_comm] using some'
      · simp [UsbBufferedEp.usbRefillToHost, UsbBufferedEp.msgbDequeueCount, q, idle,
          inc32_zero, UsbBufferedEp.usbdWrite]
      · cases ep
        simp_all [UsbBufferedEp.usbRefillToHost, UsbBufferedEp.msgbDequeueCount,
          UsbBufferedEp.llistAddIrqsafe, inc32_zero, dec32_one]

theorem Tied.refill (h : Tied c ep u) : StepTied c ep u .refill := by
  simp only [StepTied, step, UdpPipe.refill, pumps, run, pumpStep, epStep, Option.bind_some]
  cases wanted : ep.refillData with
  | none =>
    rw [refillData_none wanted]
    refine ⟨?_, rfl⟩
    rintro next ⟨⟩
    exact h
  | some data =>
    obtain ⟨msg, queue, free, rfl, taken, refused⟩ := refillData_some wanted
    have rest : u.state ≠ .sending := by
      intro sending
      have progress := h.progress
      simp [free, sending] at progress
    obtain ⟨write, ready, fdr, comp, bus⟩ := h.rest rest
    by_cases idle : u.state = .idle
    · obtain ⟨accepted, started⟩ := UdpIn.udpWrite_idle (c := c) msg.data idle ready
      obtain ⟨cur, next, under, _⟩ :=
        UdpIn.udpWrite_sending (c := c) msg.data idle ready fdr
      have clear : (u.udpWrite c msg.data).1.clearTxComp = (u.udpWrite c msg.data).1 := by
        rw [started]
        simp [UdpIn.clearTxComp, comp]
      rw [clear, bus] at under
      simp only [accepted, taken, idle, decide_true, and_true]
      have ended : (u.udpWrite c msg.data).1.ended = u.ended := by rw [started]
      rintro _ ⟨⟩
      refine ⟨⟨rfl, by simp⟩, ended.symm ▸ h.whole, fun resting => absurd under.state resting,
        fun _ => ?_⟩
      exact ⟨_, [], cur, next, rfl, under⟩
    · have locked : u.udpWrite c msg.data = (u, false) := by simp [UdpIn.udpWrite, idle]
      simp only [locked, refused, idle, decide_false, and_true]
      rintro _ ⟨⟩
      exact h.above ⟨h.inStep.progress, h.inStep.whole⟩ rfl rfl

theorem Tied.inToken (h : Tied c ep u) : StepTied c ep u .inToken := by
  refine ⟨?_, rfl⟩
  rintro _ ⟨⟩
  show Tied c ep u.inToken
  have state : u.inToken.state = u.state := by
    unfold UdpIn.inToken
    split <;> rfl
  refine h.udp (iff_of_eq (congrArg (· = _) state)) ?_ (fun _ _ _ _ _ under =>
    ⟨_, _, _, under.inToken⟩) u.inToken_ended
  intro rest
  have none := (h.rest rest).2.1
  have same : u.inToken = u := by simp [UdpIn.inToken, none]
  simp [same]

theorem configure_rest (rest : u.state ≠ .sending) : configure c ep u = ⟨some ep, u.configureEp c⟩ := by
  rw [UdpPipe.configure, if_neg rest]

/-- Without a transfer the banks are empty, and the reset of the FIFOs changes nothing. -/
theorem Tied.configure (h : Tied c ep u) (rest : u.state ≠ .sending) :
    StepTied c ep u .configure := by
  obtain ⟨_, ready, fdr, comp, _⟩ := h.rest rest
  have same : u.configureEp c = { u with state := .idle } := by
    unfold UdpIn.configureEp UdpIn.rstEp
    split <;> simp [ready, fdr, comp]
  have stepped : step c ⟨some ep, u⟩ .configure = ⟨some ep, { u with state := .idle }⟩ :=
    (configure_rest rest).trans (congrArg (UdpPipe.mk _) same)
  rw [StepTied, stepped]
  refine ⟨?_, rfl⟩
  rintro _ ⟨⟩
  exact h.udp (by simp [rest]) (fun _ => ⟨rfl, rfl, rfl, rfl⟩)
    (fun _ _ _ _ _ under => absurd under.state rest) rfl

theorem Tied.busReset (h : Tied c ep u) (rest : u.state ≠ .sending) :
    StepTied c ep u .busReset := by
  refine ⟨?_, rfl⟩
  rintro _ ⟨⟩
  show Tied c ep u.resetEp
  obtain ⟨_, ready, fdr, comp, _⟩ := h.rest rest
  exact h.udp (by simp [UdpIn.resetEp, rest]) (fun _ => ⟨ready.symm, fdr.symm, comp.symm, rfl⟩)
    (fun _ _ _ _ _ under => absurd under.state rest) rfl

theorem success_snoc {ended : List UsbdStatus} (whole : ∀ status ∈ ended, status = .success) :
    ∀ status ∈ ended ++ [.success], status = .success := by
  intro status mem
  rcases List.mem_append.mp mem with before | last
  · exact whole status before
  · exact List.mem_singleton.mp last

/-- Behind the last packet the end-point above goes on, and the driver is idle or has the
zero-length packet to send. -/
theorem Tied.endOfTransfer (h : Tied c ep u) (sending : u.state = .sending) (comp : u.txComp = true)
    (finished : u.isTransferFinished c = true) :
    ∃ next v, endpointHandler c false ep u = ⟨some next, v⟩ ∧ Tied c next v ∧
      pumpStep c.size (some ep) .complete = some next ∧
      (∀ raced, v.txPktRdy = none → endpointHandler c raced ep u = ⟨some next, v⟩) ∧
      (v.txPktRdy ≠ none → ∃ w, next.write = some w ∧ next.inProgress = 1 ∧
        (endpointHandler c true ep u).ep = some next ∧
        (endpointHandler c true ep u).udp.txPktRdy = none ∧
        (endpointHandler c true ep u).udp.txComp = false ∧
        (endpointHandler c true ep u).udp.state = .sending) := by
  obtain ⟨w, sent, cur, other, write, under⟩ := h.busy sending
  obtain ⟨bus, length, fdr, ready⟩ := under.finished comp finished
  have called : (u.transferred + u.buffered).toNat = ep.writeLen := by
    simp [length, UsbBufferedEp.writeLen, write]
  have pumped : pumpStep c.size (some ep) .complete = some (ep.complete c.size ep.writeLen true) := rfl
  have inStep := h.inStep.pump c.pos pumped
  rcases UsbBufferedEp.complete_cases c.pos h.inStep with ⟨none, _⟩ | ⟨msg, busy, full, same⟩ |
    ⟨w', busy, which, same⟩
  · rw [none] at write
    cases write
  · obtain rfl : w = ⟨msg, msg.data⟩ := Option.some.inj (write.symm.trans busy)
    let idle : UdpIn := { u with
      enabled := false, state := .idle, pData := [], transferred := -1, buffered := -1
      remaining := -1, ended := u.ended ++ [.success] }
    obtain ⟨_, started⟩ := UdpIn.udpWrite_idle (c := c) (u := idle) [] rfl ready
    obtain ⟨cur', next', under', ready'⟩ :=
      UdpIn.udpWrite_sending (c := c) (u := idle) [] rfl ready fdr
    have handled : ∀ raced, endpointHandler c raced ep u = ⟨some (ep.complete c.size ep.writeLen true),
        (if raced then (idle.udpWrite c []).1.inToken else (idle.udpWrite c []).1).clearTxComp⟩ := by
      intro raced
      simp only [endpointHandler, sending, finished, UdpPipe.endOfTransfer, called, same, ne_eq,
        not_true_eq_false, if_false, if_true]
      rfl
    have whole : ∀ status ∈ idle.ended, status = .success := success_snoc h.whole
    have ended : (idle.udpWrite c []).1.clearTxComp.ended = idle.ended := by rw [started]; rfl
    have bus' : idle.bus = (ep.complete c.size ep.writeLen true).wire := by
      rw [same]
      exact bus
    rw [bus'] at under'
    refine ⟨_, _, handled false, ⟨inStep, ended.symm ▸ whole,
      fun resting => absurd under'.state resting, fun _ => ?_⟩, pumped, ?_, ?_⟩
    · exact ⟨⟨msg, []⟩, [], cur', next', by rw [same], under'⟩
    · intro _ gone
      have gone : (idle.udpWrite c []).1.txPktRdy = none := gone
      rw [ready'] at gone
      cases gone
    · intro _
      rw [handled true]
      refine ⟨⟨msg, []⟩, by rw [same], ?_, rfl, ?_, rfl, ?_⟩
      · have progress := h.inStep.progress
        rw [same]
        simpa [busy] using progress
      · simp [UdpIn.inToken, ready', UdpIn.clearTxComp]
      · simp only [if_true, UdpIn.clearTxComp, UdpIn.inToken, ready']
        rw [started]
  · obtain rfl : w = w' := Option.some.inj (write.symm.trans busy)
    have handled : ∀ raced, endpointHandler c raced ep u = ⟨some (ep.complete c.size ep.writeLen true),
        { u with
          enabled := false, state := .idle, pData := [], transferred := -1, buffered := -1
          remaining := -1, ended := u.ended ++ [.success], txComp := false }⟩ := by
      intro raced
      simp only [endpointHandler, sending, finished, UdpPipe.endOfTransfer, called, same, ne_eq,
        not_true_eq_false, if_false, if_true]
      cases raced
      · rfl
      · simp [UdpIn.inToken, UdpIn.endOfTransfer, ready, UdpIn.clearTxComp]
    refine ⟨_, _, handled false, ⟨inStep, success_snoc h.whole, fun _ => ?_,
      fun sending => by cases sending⟩, pumped, fun raced _ => handled raced,
      fun some' => absurd ready some'⟩
    rw [same]
    exact ⟨rfl, ready, fdr, rfl, bus⟩

theorem Tied.irq_other (h : Tied c ep u) {raced : Bool}
    (other : ¬(u.enabled = true ∧ u.txComp = true)) :
    StepTied c ep u (.irq raced) := by
  have quiet : pumps c ⟨some ep, u⟩ (.irq raced) = [] := by
    simp only [pumps]
    rw [if_neg fun all => other ⟨all.1, all.2.1⟩]
  have same : step c ⟨some ep, u⟩ (.irq raced) = ⟨some ep, u⟩ := if_neg other
  rw [StepTied, quiet, same]
  refine ⟨?_, rfl⟩
  rintro _ ⟨⟩
  exact h

theorem Tied.sends (h : Tied c ep u) (comp : u.txComp = true) : u.state = .sending := by
  by_contra rest
  rw [(h.rest rest).2.2.2.1] at comp
  cases comp

theorem Tied.irq (h : Tied c ep u) (raced : Bool) (enabled : u.enabled = true) (comp : u.txComp = true)
    (unbroken : raced = true → (endpointHandler c false ep u).udp.txPktRdy = none) :
    StepTied c ep u (.irq raced) := by
  have sending := h.sends comp
  by_cases finished : u.isTransferFinished c = true
  · obtain ⟨next, v, handled, tied, pumped, idle, _⟩ := h.endOfTransfer sending comp finished
    have same : endpointHandler c raced ep u = ⟨some next, v⟩ := by
      cases raced
      · exact handled
      · have none := unbroken rfl
        rw [handled] at none
        exact idle true none
    have last : step c ⟨some ep, u⟩ (.irq raced) = ⟨some next, v⟩ := by
      simp only [UdpPipe.step, enabled, comp, and_self, if_true, same]
    have complete : pumps c ⟨some ep, u⟩ (.irq raced) = [.complete] := by
      simp only [pumps, enabled, comp, sending, finished, and_self, if_true]
    rw [StepTied, last, complete]
    refine ⟨?_, pumped.symm⟩
    rintro _ ⟨⟩
    exact tied
  · have steps : endpointHandler c raced ep u = ⟨some ep, u.sendNext c raced⟩ := by
      simp only [endpointHandler, sending, ne_eq, not_true_eq_false, if_false, finished,
        Bool.false_eq_true]
    have calm : raced = false := by
      by_contra raced'
      have none := unbroken (by simpa using raced')
      simp only [endpointHandler, sending, ne_eq, not_true_eq_false, if_false, finished,
        Bool.false_eq_true] at none
      exact (UdpIn.sendNext_ready sending).1 none
    subst calm
    have next : step c ⟨some ep, u⟩ (.irq false) = ⟨some ep, u.sendNext c false⟩ := by
      simp only [UdpPipe.step, enabled, comp, and_self, if_true, steps]
    have quiet : pumps c ⟨some ep, u⟩ (.irq false) = [] := by
      simp only [pumps, finished, Bool.false_eq_true, and_false, if_false]
    rw [StepTied, next, quiet]
    refine ⟨?_, rfl⟩
    rintro _ ⟨⟩
    refine h.udp ?_ (fun rest => absurd sending rest) (fun _ _ _ _ _ under =>
      ⟨_, under.sendNext comp finished⟩) (u.sendNext_ended c false)
    obtain ⟨w, sent, cur, next, _, under⟩ := h.busy sending
    obtain ⟨_, _, under'⟩ := under.sendNext comp finished
    exact ⟨fun _ => sending, fun _ => under'.state⟩

theorem Tied.goesOn (h : Tied c ep u) {input : UdpInput} (unbroken : Unbroken c ⟨some ep, u⟩ input) :
    StepTied c ep u input := by
  have unbroken := unbroken ep rfl
  cases input with
  | submit msg => exact h.submit msg
  | allocSt fails => exact h.allocSt fails
  | refill => exact h.refill
  | inToken => exact h.inToken
  | configure => exact h.configure unbroken
  | busReset => exact h.busReset unbroken
  | irq raced =>
    by_cases called : u.enabled = true ∧ u.txComp = true
    · refine h.irq raced called.1 called.2 ?_
      rintro rfl
      exact unbroken called.1 called.2
    · exact h.irq_other called

theorem inStep_step {s : UdpPipe} (h : InStep c s) {input : UdpInput} (unbroken : Unbroken c s input) :
    InStep c (step c s input) := by
  obtain ⟨above, u⟩ := s
  cases above with
  | none => exact fun _ none => by cases none
  | some ep => exact ((h ep rfl).goesOn unbroken).1

/-- A reset that meets a transfer ends it with a call-back that is told so. -/
theorem configure_ended (sending : u.state = .sending) :
    UsbdStatus.reset ∈ (configure c ep u).udp.ended := by
  have last : UsbdStatus.reset ∈ (u.endOfTransfer .reset).ended :=
    List.mem_append_right _ (List.mem_singleton_self _)
  rw [UdpPipe.configure, if_pos sending, (UdpIn.configureEp_rest c _).2.2.1]
  simp only [UdpPipe.endOfTransfer]
  split
  · exact last
  · exact (UdpIn.udpWrite_ended c _ _).symm ▸ last

/-- The end-point above waits for the end of a write that the driver has nothing to send of, and hears
of none. -/
def Dead (s : UdpPipe) : Prop :=
  ∀ ep ∈ s.ep, ep.inProgress = 1 ∧ s.udp.txPktRdy = none ∧
    ¬(s.udp.state = .sending ∧ s.udp.txComp = true)

/-- It waits for the end of a write that the driver has forgotten. -/
def Forgotten (s : UdpPipe) : Prop := s.udp.state ≠ .sending ∧ ∀ ep ∈ s.ep, ep.inProgress = 1

theorem broken_step {s : UdpPipe} (h : InStep c s) {input : UdpInput} (broken : ¬Unbroken c s input) :
    ¬InStep c (step c s input) ∧ (input = .busReset → Forgotten (step c s input)) ∧
      (input ≠ .configure → Dead (step c s input)) := by
  obtain ⟨above, u⟩ := s
  simp only [Unbroken, not_forall] at broken
  obtain ⟨ep, here, broken⟩ := broken
  obtain rfl : above = some ep := here
  have tied := h ep rfl
  cases input with
  | submit _ | allocSt _ | refill | inToken => exact absurd trivial broken
  | configure =>
    refine ⟨fun again => ?_, nofun, fun other => absurd rfl other⟩
    have ended := @configure_ended c ep u (not_not.mp broken)
    have here : (configure c ep u).ep ≠ none := by
      rw [UdpPipe.configure, if_pos (not_not.mp broken), UdpPipe.endOfTransfer]
      dsimp only
      split <;> exact Option.some_ne_none _
    obtain ⟨next, above⟩ := Option.ne_none_iff_exists'.mp here
    have success := (again next above).whole _ ended
    cases success
  | busReset =>
    have sending : u.state = .sending := not_not.mp broken
    obtain ⟨w, _, _, _, write, _⟩ := tied.busy sending
    have progress := tied.progress
    rw [if_pos sending] at progress
    refine ⟨fun again => ?_, fun _ => ?_, fun _ => ?_⟩
    · have rest := (again ep rfl).rest (by simp [UdpPipe.step, UdpIn.resetEp])
      rw [write] at rest
      cases rest.1
    · refine ⟨by simp [UdpPipe.step, UdpIn.resetEp], ?_⟩
      rintro _ ⟨⟩
      exact progress
    · rintro _ ⟨⟩
      exact ⟨progress, rfl, fun sends => by cases sends.1⟩
  | irq raced =>
    cases raced with
    | false => exact absurd trivial broken
    | true =>
      simp only [not_forall] at broken
      obtain ⟨enabled, comp, ready⟩ := broken
      have sending : u.state = .sending := tied.sends comp
      have progress := tied.progress
      rw [if_pos sending] at progress
      have stuck : ∃ next v, endpointHandler c true ep u = ⟨some next, v⟩ ∧ next.inProgress = 1 ∧
          v.txPktRdy = none ∧ v.txComp = false ∧ v.state = .sending := by
        by_cases finished : u.isTransferFinished c = true
        · obtain ⟨next, v, handled, _, _, _, lost⟩ := tied.endOfTransfer sending comp finished
          rw [handled] at ready
          obtain ⟨w, _, progress, above, none, clear, state⟩ := lost ready
          exact ⟨next, (endpointHandler c true ep u).udp, by rw [← above], progress, none, clear, state⟩
        · obtain ⟨_, none, clear, state⟩ := UdpIn.sendNext_ready (c := c) sending
          refine ⟨ep, u.sendNext c true, ?_, progress, none, clear, state⟩
          simp only [endpointHandler, sending, ne_eq, not_true_eq_false, if_false, finished,
            Bool.false_eq_true]
      obtain ⟨next, v, handled, progress, none, clear, state⟩ := stuck
      simp only [UdpPipe.step, enabled, comp, and_self, if_true, handled]
      refine ⟨fun again => ?_, nofun, fun _ => ?_⟩
      · obtain ⟨w, sent, cur, other, _, under⟩ := (again next rfl).busy state
        rcases under.port with ⟨some', _⟩ | ⟨_, again, _⟩
        · rw [none] at some'
          cases some'
        · rw [clear] at again
          cases again
      · rintro _ ⟨⟩
        exact ⟨progress, none, fun sends => by rw [clear] at sends; cases sends.2⟩

/-- No SET_CONFIGURATION finds the driver with a transfer. -/
def Unaborted (s : UdpPipe) (input : UdpInput) : Prop :=
  input = .configure → s.udp.state ≠ .sending

/-- What a waiting end-point does above its driver: nothing of it is a write, and nothing ends one. -/
theorem waiting_step (u : UdpIn) (progress : ep.inProgress = 1) {input : UdpInput}
    (lost : ¬(u.state = .sending ∧ u.txComp = true))
    (unaborted : Unaborted ⟨some ep, u⟩ input) :
    ((step c ⟨some ep, u⟩ input).ep = none ∧ (step c ⟨some ep, u⟩ input).udp = u) ∨
      ∃ next v, step c ⟨some ep, u⟩ input = ⟨some next, v⟩ ∧ next.inProgress = 1 ∧
        next.done = ep.done ∧ (v = u ∨ v = u.inToken ∨ v = u.clearTxComp ∧ u.state ≠ .sending ∨
          v = u.resetEp ∨ v = u.configureEp c ∧ u.state ≠ .sending) := by
  cases input with
  | submit msg =>
    cases submitted : ep.usbBufSubmit msg with
    | none =>
      left
      simp only [UdpPipe.step, submitted, and_self]
    | some next =>
      obtain ⟨old, queue, len, _, same⟩ := UsbBufferedEp.submit_cases submitted
      exact .inr ⟨next, u, by simp only [UdpPipe.step, submitted], by rw [same, progress],
        by rw [same], .inl rfl⟩
  | allocSt fails =>
    obtain ⟨old, queue, len, _, same⟩ := ep.allocSt_cases fails
    exact .inr ⟨_, u, rfl, by rw [same, progress], by rw [same], .inl rfl⟩
  | refill =>
    have nothing : ep.refillData = none := by simp [UsbBufferedEp.refillData, progress]
    exact .inr ⟨ep, u, by simp only [UdpPipe.step, UdpPipe.refill, nothing], progress, rfl, .inl rfl⟩
  | inToken => exact .inr ⟨ep, _, rfl, progress, rfl, .inr (.inl rfl)⟩
  | irq raced =>
    by_cases called : u.enabled = true ∧ u.txComp = true
    · have rest : u.state ≠ .sending := fun sending => lost ⟨sending, called.2⟩
      refine .inr ⟨ep, u.clearTxComp, ?_, progress, rfl, .inr (.inr (.inl ⟨rfl, rest⟩))⟩
      simp only [UdpPipe.step, if_pos called, endpointHandler, if_pos rest]
    · exact .inr ⟨ep, u, by simp only [UdpPipe.step, if_neg called], progress, rfl, .inl rfl⟩
  | busReset => exact .inr ⟨ep, _, rfl, progress, rfl, .inr (.inr (.inr (.inl rfl)))⟩
  | configure =>
    have rest : u.state ≠ .sending := unaborted rfl
    exact .inr ⟨ep, _, configure_rest rest, progress, rfl, .inr (.inr (.inr (.inr ⟨rfl, rest⟩)))⟩

/-- Nothing but a SET_CONFIGURATION that ends its transfer brings a dead end-point back: the bus gets
no further packet and no buffer is freed. -/
theorem dead_step {s : UdpPipe} (h : Dead s) {input : UdpInput} (unaborted : Unaborted s input) :
    Dead (step c s input) ∧ (step c s input).udp.bus = s.udp.bus ∧
      ∀ ep ∈ s.ep, ∀ next ∈ (step c s input).ep, next.done = ep.done := by
  obtain ⟨above, u⟩ := s
  cases above with
  | none => exact ⟨h, rfl, fun _ none => by cases none⟩
  | some ep =>
    obtain ⟨progress, ready, lost⟩ := h ep rfl
    have ready : u.txPktRdy = none := ready
    obtain ⟨none', same⟩ | ⟨next, v, same, progress', done, which⟩ :=
      waiting_step (c := c) u progress lost unaborted
    · have gone : ∀ next, next ∉ (step c ⟨some ep, u⟩ input).ep := by simp [none']
      exact ⟨fun _ here => absurd here (gone _), by rw [same], fun _ _ _ here => absurd here (gone _)⟩
    · have kept : v.txPktRdy = none ∧ ¬(v.state = .sending ∧ v.txComp = true) ∧ v.bus = u.bus := by
        rcases which with rfl | rfl | ⟨rfl, _⟩ | rfl | ⟨rfl, _⟩
        · exact ⟨ready, lost, rfl⟩
        · have same : u.inToken = u := by simp [UdpIn.inToken, ready]
          rw [same]
          exact ⟨ready, lost, rfl⟩
        · exact ⟨ready, fun sends => Bool.noConfusion sends.2, rfl⟩
        · refine ⟨rfl, ?_, rfl⟩
          rintro ⟨⟨⟩, _⟩
        · obtain ⟨idle, bus, _, none⟩ := u.configureEp_rest c
          exact ⟨none ready, fun sends => by simp [idle] at sends, bus⟩
      rw [same]
      refine ⟨?_, kept.2.2, ?_⟩
      · rintro _ ⟨⟩
        exact ⟨progress', kept.1, kept.2.1⟩
      · rintro _ ⟨⟩ _ ⟨⟩
        exact done

/-- A write that the driver has forgotten is not brought back by anything. -/
theorem forgotten_step {s : UdpPipe} (h : Forgotten s) (input : UdpInput) :
    Forgotten (step c s input) ∧
      ∀ ep ∈ s.ep, ∀ next ∈ (step c s input).ep, next.done = ep.done := by
  obtain ⟨above, u⟩ := s
  cases above with
  | none => exact ⟨h, fun _ none => by cases none⟩
  | some ep =>
    obtain ⟨rest, progress⟩ := h
    have rest : u.state ≠ .sending := rest
    obtain ⟨none', same⟩ | ⟨next, v, same, progress', done, which⟩ :=
      @waiting_step c ep u (progress ep rfl) input (fun sends => rest sends.1)
        (fun _ => rest)
    · have gone : ∀ next, next ∉ (step c ⟨some ep, u⟩ input).ep := by simp [none']
      rw [Forgotten, same]
      exact ⟨⟨rest, fun _ here => absurd here (gone _)⟩, fun _ _ _ here => absurd here (gone _)⟩
    · have kept : v.state ≠ .sending := by
        rcases which with rfl | rfl | ⟨rfl, _⟩ | rfl | ⟨rfl, _⟩
        · exact rest
        · unfold UdpIn.inToken
          split <;> exact rest
        · exact rest
        · exact UdpState.noConfusion
        · simp [(u.configureEp_rest c).1]
      rw [same]
      refine ⟨⟨kept, ?_⟩, ?_⟩
      · rintro _ ⟨⟩
        exact progress'
      · rintro _ ⟨⟩ _ ⟨⟩
        exact done

theorem inStep_init : InStep c .init := by
  rintro _ ⟨⟩
  exact ⟨⟨rfl, by simp [UsbBufferedEp.init]⟩, nofun, fun _ => ⟨rfl, rfl, rfl, rfl, rfl⟩,
    fun sending => by cases sending⟩

/-- Behind a run that nothing broke, the end-point above is where its own model gets with what the
steps were to it. -/
theorem run_inStep {inputs : List UdpInput} (meets : Meets (step c) (Unbroken c) .init inputs) :
    InStep c (run (step c) .init inputs) ∧ (run (step c) .init inputs).ep =
      run (pumpStep c.size) (some .init) (trace (step c) (pumps c) .init inputs) := by
  have keep : ∀ s pumped input,
      InStep c s ∧ s.ep = run (pumpStep c.size) (some .init) pumped → Unbroken c s input →
      InStep c (step c s input) ∧
        (step c s input).ep = run (pumpStep c.size) (some .init) (pumped ++ pumps c s input) := by
    rintro s pumped input ⟨inStep, same⟩ unbroken
    refine ⟨inStep_step inStep unbroken, ?_⟩
    rw [run_append, ← same]
    obtain ⟨above, u⟩ := s
    cases above with
    | none => rw [run_pump_none]; rfl
    | some ep => exact ((inStep ep rfl).goesOn unbroken).2
  have start : InStep c .init ∧ init.ep = run (pumpStep c.size) (some .init) [] := ⟨inStep_init, rfl⟩
  exact run_traced_keeps (fun s pumped => InStep c s ∧ s.ep = run (pumpStep c.size) (some .init) pumped)
    keep start meets

/-- The host takes a packet and the interrupt follows, `n` times. -/
def rounds : Nat → List UdpInput
  | 0 => []
  | n + 1 => .inToken :: .irq false :: rounds n

theorem Tied.finishes_within {w : UsbWrite} {n : Nat}
    {sent : List (List UInt8)} {cur next : List UInt8} (h : Tied c ep u)
    (under : u.Sending c w.data ep.wire sent cur next)
    (left : sent.length + n = (packets c.size w.data).length) :
    ∃ k ≤ n, (run (step c) ⟨some ep, u⟩ (rounds k)).ep = pumpStep c.size (some ep) .complete := by
  induction n generalizing u sent cur next with
  | zero =>
    have some' := List.length_pos_iff.mpr (packets_ne_nil c.size (cur ++ next ++ u.pData))
    rw [under.cut, List.length_append] at left
    omega
  | succ n ih =>
    have tied : Tied c ep u.inToken := h.inToken.1 ep rfl
    have taken := under.inToken
    obtain ⟨comp, enabled⟩ : u.inToken.txComp = true ∧ u.inToken.enabled = true := by
      refine ⟨?_, taken.enabled⟩
      rcases under.port with ⟨ready, _, _⟩ | ⟨ready, comp, _⟩
      · simp [UdpIn.inToken, ready]
      · simp [UdpIn.inToken, ready, comp]
    obtain ⟨_, pumped⟩ := tied.irq false enabled comp (by simp)
    by_cases finished : u.inToken.isTransferFinished c = true
    · refine ⟨1, by omega, pumped.trans ?_⟩
      simp only [pumps, enabled, comp, taken.state, finished, and_self, if_true, run]
    · have steps :
          step c ⟨some ep, u.inToken⟩ (.irq false) = ⟨some ep, u.inToken.sendNext c false⟩ := by
        simp only [UdpPipe.step, enabled, comp, and_self, if_true, endpointHandler, taken.state, ne_eq,
          not_true_eq_false, if_false, finished, Bool.false_eq_true]
      obtain ⟨tied', _⟩ := tied.irq false enabled comp (by simp)
      rw [steps] at tied'
      obtain ⟨_, _, under'⟩ := taken.sendNext comp finished
      obtain ⟨k, few, all⟩ := ih (tied' ep rfl) under' (by simp; omega)
      refine ⟨k + 1, by omega, ?_⟩
      show (run (step c) (step c ⟨some ep, u.inToken⟩ (.irq false)) (rounds k)).ep = _
      rw [steps, all]

theorem Tied.finishes (h : Tied c ep u) {w : UsbWrite} (write : ep.write = some w) :
    ∃ n ≤ (packets c.size w.data).length,
      (run (step c) ⟨some ep, u⟩ (rounds n)).ep = pumpStep c.size (some ep) .complete := by
  have sending : u.state = .sending := by
    by_contra rest
    rw [(h.rest rest).1] at write
    cases write
  obtain ⟨w', sent, cur, next, write', under⟩ := h.busy sending
  obtain rfl : w = w' := Option.some.inj (write.symm.trans write')
  obtain ⟨n, few, all⟩ := h.finishes_within (n := (packets c.size w.data).length - sent.length)
    under (by
      have cut := congrArg List.length under.cut
      rw [List.length_append] at cut
      omega)
  exact ⟨n, by omega, all⟩

/-- The bus has what the end-point above says, and behind it the first packets of its write. -/
theorem Tied.onBus (h : Tied c ep u) :
    ∃ taken, u.bus = ep.wire ++ taken ∧
      taken <+: (ep.write.map fun w => packets c.size w.data).getD [] := by
  by_cases sending : u.state = .sending
  · obtain ⟨w, sent, cur, next, write, under⟩ := h.busy sending
    rcases under.port with ⟨_, _, bus⟩ | ⟨_, _, bus⟩
    · refine ⟨sent, bus, ?_⟩
      simp [write, under.cut]
    · refine ⟨sent ++ [cur], by rw [bus, List.append_assoc], ?_⟩
      by_cases last : next ++ u.pData = []
      · obtain ⟨other, rest⟩ := List.append_eq_nil_iff.mp last
        simp [write, under.cut, other, rest, packets_short under.small]
      · simp [write, (under.cut_next last).1]
  · obtain ⟨write, _, _, _, bus⟩ := h.rest sending
    exact ⟨[], by rw [bus, List.append_nil], List.nil_prefix⟩

/-- Over a run without a failed assertion at its end there was none on the way. -/
theorem keeps_done (Inv : UdpPipe → Prop) {cond : UdpPipe → UdpInput → Prop}
    (keep : ∀ s input, Inv s → cond s input → Inv (step c s input) ∧
      ∀ ep ∈ s.ep, ∀ next ∈ (step c s input).ep, next.done = ep.done)
    {s : UdpPipe} (h : Inv s) {later : List UdpInput} (meets : Meets (step c) cond s later) :
    Inv (run (step c) s later) ∧
      ∀ ep ∈ s.ep, ∀ next ∈ (run (step c) s later).ep, next.done = ep.done := by
  induction later generalizing s with
  | nil =>
    refine ⟨h, fun ep here next there => ?_⟩
    rw [Option.some.inj ((Option.mem_def.mp there).symm.trans here)]
  | cons input later ih =>
    obtain ⟨here', done⟩ := keep s input h meets.1
    obtain ⟨last, done'⟩ := ih here' meets.2
    refine ⟨last, fun ep here next there => ?_⟩
    cases between : (step c s input).ep with
    | none =>
      have still : (run (step c) (step c s input) later).ep = none := by
        apply run_invariant (fun s : UdpPipe => s.ep = none) _ between
        intro s _ none
        simp [UdpPipe.step, none]
      rw [run, still] at there
      cases there
    | some ep' => exact (done' ep' between next there).trans (done ep here ep' between)

theorem dead_run {s : UdpPipe} (h : Dead s) {later : List UdpInput}
    (meets : Meets (step c) Unaborted s later) :
    (Dead (run (step c) s later) ∧ (run (step c) s later).udp.bus = s.udp.bus) ∧
      ∀ ep ∈ s.ep, ∀ next ∈ (run (step c) s later).ep, next.done = ep.done := by
  refine keeps_done (fun t => Dead t ∧ t.udp.bus = s.udp.bus) ?_ ⟨h, rfl⟩ meets
  rintro t input ⟨dead, bus⟩ unaborted
  obtain ⟨dead', bus', done⟩ := dead_step (c := c) dead unaborted
  exact ⟨⟨dead', bus'.trans bus⟩, done⟩

theorem forgotten_run {s : UdpPipe} (h : Forgotten s) (later : List UdpInput) :
    (∀ next ∈ (run (step c) s later).ep, next.inProgress = 1) ∧
      ∀ ep ∈ s.ep, ∀ next ∈ (run (step c) s later).ep, next.done = ep.done := by
  obtain ⟨last, done⟩ := keeps_done (c := c) Forgotten
    (fun _ input forgotten _ => forgotten_step forgotten input) h (meets_true s later)
  exact ⟨last.2, done⟩

theorem forgotten_unaborted {s : UdpPipe} (h : Forgotten s) (later : List UdpInput) :
    Meets (step c) Unaborted s later :=
  Meets.of_keeps Forgotten
    (fun _ input forgotten _ => ⟨(forgotten_step forgotten input).1, fun _ => forgotten.1⟩) h
    (meets_true s later)

/-- What the reset of a transfer leaves when `usb_write_cb` takes it for the end of a full packet:
the zero-length packet that it writes is forgotten at once. -/
theorem Tied.terminator_forgotten (h : Tied c ep u) (sending : u.state = .sending) {w : UsbWrite}
    (write : ep.write = some w) (whole : c.size ∣ w.msg.data.length) (one : u.transferred = c.size) :
    Forgotten (UdpPipe.configure c ep u) := by
  have progress := h.progress
  rw [if_pos sending] at progress
  have called : w.msg.data.length % c.size = 0 ∧ c.size = c.size := ⟨Nat.mod_eq_zero_of_dvd whole, rfl⟩
  have abort : ep.abort c.size u.transferred.toNat = { ep with write := some ⟨w.msg, []⟩ } := by
    rw [one, Int.toNat_natCast, UsbBufferedEp.abort, write]
    exact if_pos called
  rw [UdpPipe.configure, if_pos sending]
  simp only [UdpPipe.endOfTransfer, abort]
  refine ⟨by simp [(UdpIn.configureEp_rest c _).1], ?_⟩
  rintro _ ⟨⟩
  exact progress

/-- A SET_CONFIGURATION leaves the end-point waiting where the packets sent look like a full one to
`usb_write_cb`, and ends the wait for a TXCOMP that was lost. -/
def Lasts (c : UdpConfig) (s : UdpPipe) (input : UdpInput) (later : List UdpInput) : Prop :=
  match input with
  | .configure =>
    ∀ ep ∈ s.ep, ∀ w ∈ ep.write, c.size ∣ w.msg.data.length ∧ s.udp.transferred = c.size
  | .busReset => True
  | _ => Meets (step c) Unaborted (step c s input) later

theorem configure_forgotten {s : UdpPipe} (h : InStep c s) (broken : ¬Unbroken c s .configure)
    {later : List UdpInput} (lasts : s.Lasts c .configure later) : Forgotten (step c s .configure) := by
  obtain ⟨above, u⟩ := s
  simp only [Unbroken, not_forall] at broken
  obtain ⟨ep, here, sending⟩ := broken
  obtain rfl : above = some ep := here
  have tied := h ep rfl
  obtain ⟨w, _, _, _, write, _⟩ := tied.busy (not_not.mp sending)
  obtain ⟨whole, one⟩ := lasts ep rfl w write
  exact tied.terminator_forgotten (not_not.mp sending) write whole one

end UdpPipe

/-- Over every run of an end-point on its driver, with packets taken and interrupts served at any
time: exactly as long as no bus reset and no SET_CONFIGURATION meets a transfer and no packet is taken
before TXCOMP of the one before it is cleared, driver and end-point agree. Then the end-point does what
its own model says, the bus has its packets, and a write is done when as many packets have been taken
as it is cut into. -/
theorem udp_refines (c : UdpConfig) (inputs : List UdpInput) :
    (Always (UdpPipe.step c) (UdpPipe.InStep c) .init inputs ↔
      Meets (UdpPipe.step c) (UdpPipe.Unbroken c) .init inputs) ∧
    (Meets (UdpPipe.step c) (UdpPipe.Unbroken c) .init inputs →
      let s := run (UdpPipe.step c) .init inputs
      s.ep = run (pumpStep c.size) (some .init)
        (trace (UdpPipe.step c) (UdpPipe.pumps c) .init inputs) ∧
      ∀ ep ∈ s.ep,
        (∃ taken, s.udp.bus = ep.wire ++ taken ∧
          taken <+: (ep.write.map fun w => packets c.size w.data).getD []) ∧
        ∀ w ∈ ep.write, ∃ n ≤ (packets c.size w.data).length,
          (run (UdpPipe.step c) s (UdpPipe.rounds n)).ep = pumpStep c.size (some ep) .complete) := by
  constructor
  · apply always_iff_meets_of_shown (UdpPipe.InStep c)
    · intro s input inStep unbroken
      exact UdpPipe.inStep_step inStep unbroken
    · intro s inStep
      exact inStep
    · intro s input inStep next
      by_contra broken
      exact (UdpPipe.broken_step inStep broken).1 next
    · exact UdpPipe.inStep_init
  · intro meets s
    obtain ⟨inStep, above⟩ := UdpPipe.run_inStep meets
    refine ⟨above, fun ep here => ?_⟩
    have tied := inStep ep here
    refine ⟨tied.onBus, fun w write => ?_⟩
    obtain ⟨n, few, all⟩ := tied.finishes write
    refine ⟨n, few, ?_⟩
    rw [← all]
    congr 2
    exact congrArg (UdpPipe.mk · s.udp) here

/-- What a bus reset during a transfer leaves is for good: whatever comes later, with further resets
and configurations among it, the end-point puts nothing more on the bus and frees no buffer. What a lost
TXCOMP leaves lasts until a SET_CONFIGURATION ends the transfer. A SET_CONFIGURATION during a transfer
leaves the end-point waiting for good where `usb_write_cb` answers it with a zero-length packet. -/
theorem broken_for_good (c : UdpConfig) {inputs : List UdpInput}
    (meets : Meets (UdpPipe.step c) (UdpPipe.Unbroken c) .init inputs) {input : UdpInput}
    (broken : ¬UdpPipe.Unbroken c (run (UdpPipe.step c) .init inputs) input) {later : List UdpInput}
    (lasts : (run (UdpPipe.step c) .init inputs).Lasts c input later) :
    let s := run (UdpPipe.step c) .init (inputs ++ [input])
    let t := run (UdpPipe.step c) s later
    (∀ next ∈ t.ep, next.inProgress = 1 ∧ ∀ ep ∈ s.ep, next.done = ep.done) ∧
      (input ≠ .configure → t.udp.bus = s.udp.bus) := by
  intro s t
  obtain ⟨inStep, _⟩ := UdpPipe.run_inStep meets
  have last : s = UdpPipe.step c (run (UdpPipe.step c) .init inputs) input := run_append _ _ _
  obtain ⟨_, forgotten, dead⟩ := UdpPipe.broken_step inStep broken
  rw [← last] at forgotten dead
  cases input with
  | configure =>
    have forgotten : s.Forgotten := last ▸ UdpPipe.configure_forgotten inStep broken lasts
    obtain ⟨progress, done⟩ := UdpPipe.forgotten_run (c := c) forgotten later
    exact ⟨fun next there => ⟨progress next there, fun ep here => done ep here next there⟩,
      fun other => absurd rfl other⟩
  | busReset =>
    have unaborted := UdpPipe.forgotten_unaborted (c := c) (forgotten rfl) later
    obtain ⟨⟨after, bus⟩, done⟩ := UdpPipe.dead_run (dead nofun) unaborted
    exact ⟨fun next there => ⟨(after next there).1, fun ep here => done ep here next there⟩, fun _ => bus⟩
  | submit _ | allocSt _ | refill | inToken | irq _ =>
    have unaborted : Meets (UdpPipe.step c) UdpPipe.Unaborted s later := last ▸ lasts
    obtain ⟨⟨after, bus⟩, done⟩ := UdpPipe.dead_run (dead nofun) unaborted
    exact ⟨fun next there => ⟨(after next there).1, fun ep here => done ep here next there⟩, fun _ => bus⟩

theorem bulkIn_pos : 0 < 64 := Nat.succ_pos 63

theorem bulkIn_known : 2 = 1 ∨ 2 = 2 := .inr rfl

/-- `SIMTRACE_USB_EP_CARD_DATAIN` -/
def bulkIn : UdpConfig := ⟨64, 2, false, false, bulkIn_pos, bulkIn_known⟩

/-- The bus is reset before the host has taken the message, and then configured again. -/
theorem bus_reset_for_good :
    let s := run (UdpPipe.step bulkIn) .init ([.configure, .submit bareHeader, .refill] ++ [.busReset])
    let t := run (UdpPipe.step bulkIn) s [.configure, .refill, .inToken, .irq false]
    (∀ next ∈ t.ep, next.inProgress = 1 ∧ ∀ ep ∈ s.ep, next.done = ep.done) ∧
      (UdpInput.busReset ≠ .configure → t.udp.bus = s.udp.bus) := by
  have meets : Meets (UdpPipe.step bulkIn) (UdpPipe.Unbroken bulkIn) .init
      [.configure, .submit bareHeader, .refill] :=
    ⟨fun _ _ => UdpState.noConfusion, fun _ _ => trivial, fun _ _ => trivial, trivial⟩
  refine @broken_for_good bulkIn _ meets .busReset ?_ _ trivial
  intro calm
  have idle : UdpState.sending ≠ .sending := calm _ rfl
  exact idle rfl

end Simtrace2
