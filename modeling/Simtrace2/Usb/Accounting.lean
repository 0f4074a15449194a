import Simtrace2.Usb.BufferedEp
import Simtrace2.Lib.Run

/-! The counter of an end-point's queue. Four of the five paths that move a message
keep it; the one that puts a message back after a failed write does not. -/
namespace Simtrace2
open Lib

/-- The counter is right, the queue is short, and the next submission will find a
message to evict where it looks for one. -/
structure Accounted (ep : UsbBufferedEp) : Prop where
  counted : ep.queueLen = ep.queue.length
  bounded : ep.queue.length ≤ usbMaxQlen + 1
  evictable : ∀ msg, ep.usbBufSubmit msg ≠ none

def EpAccounted (s : Option UsbBufferedEp) : Prop := ∃ ep, s = some ep ∧ Accounted ep

/-- The step is not a refill whose write is refused: it finds a transfer in progress
or nothing to send, or the driver takes the message. -/
def NoRefusedWrite (s : Option UsbBufferedEp) (input : EpInput) : Prop :=
  input = .refill false → ∀ ep, s = some ep → ep.inProgress ≠ 0 ∨ ep.queue = []

namespace UsbBufferedEp

theorem dequeue_cases (ep : UsbBufferedEp) :
    (ep.queue = [] ∧ ep.msgbDequeueCount = none) ∨
      ∃ msg queue, ep.queue = msg :: queue ∧
        ep.msgbDequeueCount = some (msg, { ep with queue, queueLen := dec32 ep.queueLen }) := by
  cases q : ep.queue with
  | nil => exact .inl ⟨rfl, by rw [msgbDequeueCount, q]⟩
  | cons msg queue => exact .inr ⟨msg, queue, rfl, by rw [msgbDequeueCount, q]⟩

theorem submit_cases {ep next : UsbBufferedEp} {msg : UsbBuf}
    (h : ep.usbBufSubmit msg = some next) :
    ∃ old queue len, ep.queue = old ++ queue ∧
      next = { ep with queue := queue ++ [msg], queueLen := len, dropped := ep.dropped ++ old } := by
  unfold usbBufSubmit at h
  split at h
  · rcases ep.dequeue_cases with ⟨_, empty⟩ | ⟨oldest, queue, q, dequeued⟩
    · simp [empty] at h
    · simp only [dequeued, Option.some.injEq] at h
      exact ⟨[oldest], queue, _, q, h.symm⟩
  · cases h
    exact ⟨[], ep.queue, inc32 ep.queueLen, rfl, by simp [msgbEnqueueCount]⟩

theorem dec32_succ {n : Nat} (small : n + 1 < 2 ^ 32) : dec32 (n + 1) = n := by
  unfold dec32
  omega

theorem inc32_small {n : Nat} (small : n + 1 < 2 ^ 32) : inc32 n = n + 1 := by
  unfold inc32
  omega

end UsbBufferedEp

namespace Accounted
open UsbBufferedEp

theorem of_counted {ep : UsbBufferedEp} (counted : ep.queueLen = ep.queue.length)
    (bounded : ep.queue.length ≤ usbMaxQlen + 1) : Accounted ep := by
  refine ⟨counted, bounded, fun msg => ?_⟩
  unfold usbBufSubmit
  split
  · rename_i full
    rcases ep.dequeue_cases with ⟨empty, _⟩ | ⟨oldest, queue, _, dequeued⟩
    · rw [counted, empty] at full
      simp [usbMaxQlen] at full
    · simp [dequeued]
  · simp

theorem dequeue {ep : UsbBufferedEp} (h : Accounted ep) {msg : UsbBuf} {queue : List UsbBuf}
    (q : ep.queue = msg :: queue) :
    dec32 ep.queueLen = queue.length ∧ queue.length ≤ usbMaxQlen := by
  have bounded := h.bounded
  rw [q, List.length_cons] at bounded
  rw [h.counted, q, List.length_cons, dec32_succ (by unfold usbMaxQlen at bounded; omega)]
  exact ⟨rfl, by omega⟩

theorem enqueue {ep : UsbBufferedEp} (counted : ep.queueLen = ep.queue.length)
    (room : ep.queue.length ≤ usbMaxQlen) (msg : UsbBuf) :
    Accounted (ep.msgbEnqueueCount msg) := by
  unfold usbMaxQlen at room
  apply of_counted
  · simp only [msgbEnqueueCount, counted, List.length_append, List.length_singleton]
    exact inc32_small (by omega)
  · simp only [msgbEnqueueCount, List.length_append, List.length_singleton, usbMaxQlen]
    omega

theorem submit {ep : UsbBufferedEp} (h : Accounted ep) (msg : UsbBuf) :
    EpAccounted (ep.usbBufSubmit msg) := by
  unfold usbBufSubmit
  split
  · rename_i full
    rcases ep.dequeue_cases with ⟨empty, _⟩ | ⟨oldest, queue, q, dequeued⟩
    · rw [h.counted, empty] at full
      simp [usbMaxQlen] at full
    · obtain ⟨counted, room⟩ := h.dequeue q
      simp only [dequeued]
      refine ⟨_, rfl, ?_⟩
      apply enqueue
      · exact counted
      · exact room
  · rename_i room
    exact ⟨_, rfl, enqueue h.counted (by rw [← h.counted]; omega) msg⟩

theorem allocSt {ep : UsbBufferedEp} (h : Accounted ep) (fails : Nat) :
    Accounted (ep.usbBufAllocSt fails).1 := by
  induction fails generalizing ep with
  | zero => exact h
  | succ fails ih =>
    rcases ep.dequeue_cases with ⟨_, empty⟩ | ⟨oldest, queue, q, dequeued⟩
    · simpa only [usbBufAllocSt, empty] using h
    · obtain ⟨counted, room⟩ := h.dequeue q
      simp only [usbBufAllocSt, dequeued]
      exact ih (of_counted counted (Nat.le_succ_of_le room))

theorem refill_iff {ep : UsbBufferedEp} (h : Accounted ep) (accepted : Bool) :
    Accounted (ep.usbRefillToHost accepted) ↔
      (accepted = false → ep.inProgress ≠ 0 ∨ ep.queue = []) := by
  unfold usbRefillToHost
  split
  · rename_i busy
    exact ⟨fun _ _ => .inl busy, fun _ => h⟩
  · rename_i idle
    rcases ep.dequeue_cases with ⟨empty, dequeued⟩ | ⟨msg, queue, q, dequeued⟩
    · simp only [dequeued]
      exact ⟨fun _ _ => .inr empty, fun _ => h⟩
    · obtain ⟨counted, room⟩ := h.dequeue q
      simp only [dequeued]
      cases accepted with
      | true =>
        refine ⟨fun _ refused => by simp at refused, fun _ => ?_⟩
        exact of_counted counted (Nat.le_succ_of_le room)
      | false =>
        constructor
        · intro after
          have wrong := after.counted
          simp [llistAddIrqsafe, counted] at wrong
        · intro hyp
          rcases hyp rfl with busy | empty
          · contradiction
          · simp [q] at empty

theorem complete {ep : UsbBufferedEp} (h : Accounted ep) (epSize transferred : Nat)
    (accepted : Bool) : Accounted (ep.complete epSize transferred accepted) := by
  unfold UsbBufferedEp.complete usbWriteCb
  split
  · exact h
  · simp only
    split_ifs <;> exact of_counted h.counted h.bounded

end Accounted

theorem epStep_accounted_iff (epSize : Nat) (s : Option UsbBufferedEp) (input : EpInput)
    (h : EpAccounted s) : EpAccounted (epStep epSize s input) ↔ NoRefusedWrite s input := by
  obtain ⟨ep, rfl, acc⟩ := h
  cases input with
  | submit msg => exact iff_of_true (acc.submit msg) (by simp [NoRefusedWrite])
  | allocSt fails => exact iff_of_true ⟨_, rfl, acc.allocSt fails⟩ (by simp [NoRefusedWrite])
  | complete transferred accepted =>
    exact iff_of_true ⟨_, rfl, acc.complete epSize transferred accepted⟩ (by simp [NoRefusedWrite])
  | refill accepted =>
    have exact := acc.refill_iff accepted
    simpa [EpAccounted, epStep, NoRefusedWrite] using exact

/-- Over every run of an end-point: the counter is the length of the queue, the queue
is bounded and no assertion can fail, all this exactly as long as no write is refused. -/
theorem queue_accounted_iff (epSize : Nat) (inputs : List EpInput) :
    Always (epStep epSize) EpAccounted (some .init) inputs ↔
      Meets (epStep epSize) NoRefusedWrite (some .init) inputs :=
  always_iff_meets (fun _ => True) (fun _ _ _ => trivial)
    (fun s input _ h => epStep_accounted_iff epSize s input h) trivial
    ⟨_, rfl, Accounted.of_counted rfl (by simp [UsbBufferedEp.init])⟩ inputs

open UsbBufferedEp in
/-- A write refused once: the message put back is not counted, the counter wraps when
it is sent, and the next submission fails its assertion on the empty queue. -/
theorem refused_write_panics (a b : UsbBuf) :
    (∃ ep, run (epStep 64) (some .init) [.submit a, .refill false] = some ep ∧
        ep.queueLen = 0 ∧ ep.queue.length = 1) ∧
      (∃ ep, run (epStep 64) (some .init) [.submit a, .refill false, .refill true] = some ep ∧
        ep.queueLen = 4294967295 ∧ ep.queue.length = 0) ∧
      run (epStep 64) (some .init) [.submit a, .refill false, .refill true, .submit b] = none := by
  have wraps : dec32 0 = 4294967295 := by decide
  simp [run, epStep, usbBufSubmit, usbMaxQlen, init, msgbEnqueueCount, usbRefillToHost,
    msgbDequeueCount, llistAddIrqsafe, usbdWrite, inc32_zero, dec32_one, wraps]

def bareHeader : UsbBuf := ⟨0, List.replicate 8 0, by decide, by decide⟩

theorem bareHeader_length : bareHeader.data.length = 8 := by decide

theorem queue_not_accounted :
    ¬ Always (epStep 64) EpAccounted (some .init)
        [.submit bareHeader, .refill false, .refill true, .submit bareHeader] ∧
      run (epStep 64) (some .init)
        [.submit bareHeader, .refill false, .refill true, .submit bareHeader] = none := by
  have panics := (refused_write_panics bareHeader bareHeader).2.2
  refine ⟨fun always => ?_, panics⟩
  obtain ⟨ep, found, _⟩ := always _ (List.prefix_refl _)
  rw [panics] at found
  cases found

end Simtrace2
