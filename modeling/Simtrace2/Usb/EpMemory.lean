import Simtrace2.Firmware.Queues
import Simtrace2.Usb.Accounting

/-! The buffered end-points with their queues in the memory (`usb_buf.c`, `host_communication.c`),
against the end-points with lists for queues. -/
namespace Simtrace2
open Lib

/-- `struct usb_buffered_ep` but for its queue. The write under way has a pointer to its message. -/
structure EpMem where
  inProgress : Nat
  queueLen : Nat
  write : Option (Nat × List UInt8)
  wire : List (List UInt8)
  done : List UsbBuf
  dropped : List UsbBuf

/-- The end-points `E`, the links of all lists, and what is in the message at an address. -/
structure UsbMem (E : Type*) where
  links : Links Nat
  buf : Nat → UsbBuf
  ep : E → EpMem

namespace UsbMem
variable {E : Type*} [DecidableEq E] (head : E → Nat)

def setEp (s : UsbMem E) (e : E) (ep : EpMem) : UsbMem E := { s with ep := Function.update s.ep e ep }

@[simp] theorem setEp_ep (s : UsbMem E) (e : E) (ep : EpMem) : (s.setEp e ep).ep e = ep :=
  Function.update_self ..

theorem setEp_other (s : UsbMem E) {e e' : E} (other : e' ≠ e) (ep : EpMem) :
    (s.setEp e ep).ep e' = s.ep e' := Function.update_of_ne other ..

def msgbEnqueueCount (s : UsbMem E) (e : E) (msg : Nat) : UsbMem E :=
  { s with links := run Links.write s.links (llistAddTail s.links msg (head e)) }.setEp e
    { s.ep e with queueLen := inc32 (s.ep e).queueLen }

def msgbDequeueCount (s : UsbMem E) (e : E) : Option Nat × UsbMem E :=
  let (ws, msg) := msgbDequeue s.links (head e)
  let t := { s with links := run Links.write s.links ws }
  match msg with
  | none => (none, t)
  | some msg => (some msg, t.setEp e { s.ep e with queueLen := dec32 (s.ep e).queueLen })

def llistAddIrqsafe (s : UsbMem E) (e : E) (msg : Nat) : UsbMem E :=
  { s with links := run Links.write s.links (llistAdd s.links msg (head e)) }

def evict (s : UsbMem E) (e : E) (msg : Nat) : UsbMem E :=
  s.setEp e { s.ep e with dropped := (s.ep e).dropped ++ [s.buf msg] }

/-- `usb_buf_submit`; `none` where `OSMO_ASSERT(evict)` fails. -/
def usbBufSubmit (s : UsbMem E) (e : E) (msg : Nat) : Option (UsbMem E) :=
  if usbMaxQlen ≤ (s.ep e).queueLen then
    match s.msgbDequeueCount head e with
    | (none, _) => none
    | (some oldest, s) => some ((s.evict e oldest).msgbEnqueueCount head e msg)
  else some (s.msgbEnqueueCount head e msg)

/-- The loop of `usb_buf_alloc_st`, with the number of times the pool turns out to be empty. -/
def usbBufAllocSt (s : UsbMem E) (e : E) : Nat → UsbMem E
  | 0 => s
  | fails + 1 =>
    match s.msgbDequeueCount head e with
    | (none, _) => s
    | (some oldest, s) => (s.evict e oldest).usbBufAllocSt e fails

def usbdWrite (s : UsbMem E) (e : E) (msg : Nat) (data : List UInt8) : UsbMem E :=
  s.setEp e { s.ep e with write := some (msg, data) }

/-- `usb_refill_to_host`, with the outcome of its `USBD_Write`. -/
def usbRefillToHost (s : UsbMem E) (e : E) (accepted : Bool) : UsbMem E :=
  if (s.ep e).inProgress ≠ 0 then s
  else
    match s.msgbDequeueCount head e with
    | (none, _) => s
    | (some msg, s) =>
      let s := s.setEp e { s.ep e with inProgress := inc32 (s.ep e).inProgress }
      if accepted then s.usbdWrite e msg (s.buf msg).data
      else
        let s := s.llistAddIrqsafe head e msg
        s.setEp e { s.ep e with inProgress := dec32 (s.ep e).inProgress }

/-- `usb_write_cb`, with the outcome of the `USBD_Write` of a zero-length packet. -/
def usbWriteCb (s : UsbMem E) (e : E) (epSize msg transferred : Nat) (accepted : Bool) : UsbMem E :=
  if (s.buf msg).data.length % epSize = 0 ∧ transferred = epSize then
    if accepted then s.usbdWrite e msg [] else s
  else
    s.setEp e { s.ep e with
      inProgress := dec32 (s.ep e).inProgress, done := (s.ep e).done ++ [s.buf msg] }

def complete (s : UsbMem E) (e : E) (epSize transferred : Nat) (accepted : Bool) : UsbMem E :=
  match (s.ep e).write with
  | none => s
  | some (msg, data) =>
    let s := s.setEp e { s.ep e with write := none, wire := (s.ep e).wire ++ packets epSize data }
    s.usbWriteCb e epSize msg transferred accepted

/-- After `usb_buf_init`. -/
def init (l : Links Nat) (buf : Nat → UsbBuf) (names : List E) : UsbMem E :=
  { links := run Links.write l (names.flatMap fun e => initLlistHead (head e)), buf
    ep := fun _ =>
      { inProgress := 0, queueLen := 0, write := none, wire := [], done := [], dropped := [] } }

end UsbMem

/-- A message lies at the address that is its tag. -/
inductive UsbMemInput (E : Type*) where
  | submit (e : E) (msg : UsbBuf)
  | allocSt (e : E) (fails : Nat)
  | refill (e : E) (accepted : Bool)
  | complete (e : E) (transferred : Nat) (accepted : Bool)

section ep
variable {E : Type*} [DecidableEq E]

def usbMemStep (head : E → Nat) (epSize : Nat) (s : Option (UsbMem E)) (input : UsbMemInput E) :
    Option (UsbMem E) :=
  s.bind fun s => match input with
    | .submit e msg =>
      { s with buf := Function.update s.buf msg.tag msg }.usbBufSubmit head e msg.tag
    | .allocSt e fails => some (s.usbBufAllocSt head e fails)
    | .refill e accepted => some (s.usbRefillToHost head e accepted)
    | .complete e transferred accepted => some (s.complete e epSize transferred accepted)

/-- The same end-points, each with its queue as a list. -/
def usbListStep (epSize : Nat) (eps : Option (E → UsbBufferedEp)) (input : UsbMemInput E) :
    Option (E → UsbBufferedEp) :=
  eps.bind fun eps =>
    let at' (e : E) (input : EpInput) :=
      (epStep epSize (some (eps e)) input).map (Function.update eps e)
    match input with
    | .submit e msg => at' e (.submit msg)
    | .allocSt e fails => at' e (.allocSt fails)
    | .refill e accepted => at' e (.refill accepted)
    | .complete e transferred accepted => at' e (.complete transferred accepted)

/-- An end-point as it is in the memory, but for the links of its queue. -/
structure EpShown (buf : Nat → UsbBuf) (mem : EpMem) (ep : UsbBufferedEp) : Prop where
  inProgress : mem.inProgress = ep.inProgress
  queueLen : mem.queueLen = ep.queueLen
  write : mem.write = ep.write.map fun w => (w.msg.tag, w.data)
  wire : mem.wire = ep.wire
  done : mem.done = ep.done
  dropped : mem.dropped = ep.dropped
  queued : ∀ m ∈ ep.queue, buf m.tag = m ∧ m.tag ≠ 0
  writing : ∀ w ∈ ep.write, buf w.msg.tag = w.msg ∧ w.msg.tag ≠ 0

def queueTags (eps : E → UsbBufferedEp) (e : E) : List Nat := (eps e).queue.map UsbBuf.tag

structure Shows (head : E → Nat) (s : UsbMem E) (eps : E → UsbBufferedEp) : Prop where
  circles : s.links.Circles head (queueTags eps)
  ep : ∀ e, EpShown s.buf (s.ep e) (eps e)

/-- The buffer is in no queue and in no write. -/
def UnusedBuf (head : E → Nat) (eps : E → UsbBufferedEp) (msg : UsbBuf) : Prop :=
  msg.tag ≠ 0 ∧ Links.Loose head (queueTags eps) msg.tag ∧ ∀ e, ∀ w ∈ (eps e).write, w.msg.tag ≠ msg.tag

instance [Fintype E] (head : E → Nat) (eps : E → UsbBufferedEp) (msg : UsbBuf) :
    Decidable (UnusedBuf head eps msg) := inferInstanceAs (Decidable (_ ∧ _ ∧ _))

def UsbMemRules (head : E → Nat) (st : Option (UsbMem E) × Option (E → UsbBufferedEp)) :
    UsbMemInput E → Prop
  | .submit _ msg => ∀ eps ∈ st.2, UnusedBuf head eps msg
  | _ => True

instance [Fintype E] (head : E → Nat) (st : Option (UsbMem E) × Option (E → UsbBufferedEp)) :
    (input : UsbMemInput E) → Decidable (UsbMemRules head st input)
  | .submit _ msg => inferInstanceAs (Decidable (∀ eps ∈ st.2, UnusedBuf head eps msg))
  | .allocSt _ _ => isTrue trivial
  | .refill _ _ => isTrue trivial
  | .complete _ _ _ => isTrue trivial

def usbMemBoth (head : E → Nat) (epSize : Nat) (st : Option (UsbMem E) × Option (E → UsbBufferedEp))
    (input : UsbMemInput E) : Option (UsbMem E) × Option (E → UsbBufferedEp) :=
  (usbMemStep head epSize st.1 input, usbListStep epSize st.2 input)

variable {head : E → Nat} {s t : UsbMem E} {eps : E → UsbBufferedEp} {e : E} {ep : UsbBufferedEp}
  {msg : UsbBuf}

theorem queueTags_update : queueTags (Function.update eps e ep) =
    Function.update (queueTags eps) e (ep.queue.map UsbBuf.tag) := by
  funext e'
  by_cases here : e' = e
  · subst here
    simp [queueTags]
  · simp [queueTags, Function.update_of_ne here]

theorem queueTags_same {ep' : UsbBufferedEp} (same : ep'.queue = ep.queue) :
    queueTags (Function.update eps e ep') = queueTags (Function.update eps e ep) := by
  rw [queueTags_update, queueTags_update, same]

/-- What changes one end-point only. -/
theorem Shows.at_one (h : Shows head s eps)
    (circles : t.links.Circles head (Function.update (queueTags eps) e (ep.queue.map UsbBuf.tag)))
    (buf : t.buf = s.buf) (others : ∀ e', e' ≠ e → t.ep e' = s.ep e')
    (shown : EpShown s.buf (t.ep e) ep) : Shows head t (Function.update eps e ep) := by
  refine ⟨by rw [queueTags_update]; exact circles, fun e' => ?_⟩
  rw [buf]
  by_cases here : e' = e
  · subst here
    rw [Function.update_self]
    exact shown
  · rw [Function.update_of_ne here, others e' here]
    exact h.ep e'

/-- What changes nothing of its queue. -/
theorem Shows.setEp (h : Shows head s eps) {x : EpMem} (shown : EpShown s.buf x ep)
    (queue : ep.queue = (eps e).queue) : Shows head (s.setEp e x) (Function.update eps e ep) := by
  have same : ep.queue.map UsbBuf.tag = queueTags eps e := by rw [queue]; rfl
  refine h.at_one (t := s.setEp e x) ?_ rfl (fun e' other => s.setEp_other other x) ?_
  · rw [same, Function.update_eq_self]
    exact h.circles
  · rw [UsbMem.setEp_ep]
    exact shown

theorem Shows.enqueue (h : Shows head s eps) (held : s.buf msg.tag = msg ∧ msg.tag ≠ 0)
    (loose : Links.Loose head (queueTags eps) msg.tag) :
    Shows head (s.msgbEnqueueCount head e msg.tag)
      (Function.update eps e ((eps e).msgbEnqueueCount msg)) := by
  have added := (h.circles.add_tail e loose).2
  have old := h.ep e
  have tags : ((eps e).msgbEnqueueCount msg).queue.map UsbBuf.tag = queueTags eps e ++ [msg.tag] :=
    List.map_append
  refine h.at_one (t := s.msgbEnqueueCount head e msg.tag) (tags ▸ added) rfl
    (fun e' other => UsbMem.setEp_other _ other _) ?_
  rw [UsbMem.msgbEnqueueCount, UsbMem.setEp_ep]
  refine { old with queueLen := congrArg inc32 old.queueLen, queued := fun m one => ?_ }
  rcases List.mem_append.mp one with old' | new
  · exact old.queued m old'
  · rw [List.mem_singleton.mp new]
    exact held

theorem Shows.push (h : Shows head s eps) (held : s.buf msg.tag = msg ∧ msg.tag ≠ 0)
    (loose : Links.Loose head (queueTags eps) msg.tag) :
    Shows head (s.llistAddIrqsafe head e msg.tag)
      (Function.update eps e ((eps e).llistAddIrqsafe msg)) := by
  have added := (h.circles.add_head e loose).2
  have old := h.ep e
  refine h.at_one (t := s.llistAddIrqsafe head e msg.tag) added rfl (fun _ _ => rfl) ?_
  refine { old with queued := fun m one => ?_ }
  rcases List.mem_cons.mp one with rfl | old'
  · exact held
  · exact old.queued m old'

/-- The memory and the list give the same message. -/
structure Dequeued (head : E → Nat) (s : UsbMem E) (eps : E → UsbBufferedEp) (e : E) (msg : UsbBuf)
    (t : UsbMem E) (ep : UsbBufferedEp) : Prop where
  mem : s.msgbDequeueCount head e = (some msg.tag, t)
  list : (eps e).msgbDequeueCount = some (msg, ep)
  shows : Shows head t (Function.update eps e ep)
  buf : t.buf = s.buf
  held : s.buf msg.tag = msg ∧ msg.tag ≠ 0
  loose : Links.Loose head (queueTags (Function.update eps e ep)) msg.tag
  fewer : ∀ x, Links.Loose head (queueTags eps) x →
    Links.Loose head (queueTags (Function.update eps e ep)) x

theorem Shows.dequeue (h : Shows head s eps) (e : E) :
    (s.msgbDequeueCount head e = (none, s) ∧ (eps e).msgbDequeueCount = none) ∨
      ∃ m t ep, Dequeued head s eps e m t ep := by
  have old := h.ep e
  have null : 0 ∉ queueTags eps e := by
    intro null
    obtain ⟨m, one, zero⟩ := List.mem_map.mp null
    exact (old.queued m one).2 zero
  cases whole : (eps e).queue with
  | nil =>
    left
    have empty : queueTags eps e = [] := by rw [queueTags, whole]; rfl
    have circle := h.circles.circle e
    rw [empty] at circle
    have at' : s.links.next (head e) = head e := circle.empty_iff.mpr rfl
    constructor
    · simp [UsbMem.msgbDequeueCount, msgbDequeue, llistEmpty, at', run]
    · rw [UsbBufferedEp.msgbDequeueCount, whole]
  | cons m rest =>
    right
    have tags : queueTags eps e = m.tag :: rest.map UsbBuf.tag := by rw [queueTags, whole]; rfl
    have done := dequeue_done h.circles null
    have whole' : queueTags eps e = [] ++ m.tag :: rest.map UsbBuf.tag := tags
    have loose := h.circles.removed whole'
    have got : (msgbDequeue s.links (head e)).2 = some m.tag := by
      have msg := done.msg
      rw [tags] at msg
      exact msg
    have circles := done.circles
    rw [tags] at circles
    refine ⟨m, { s with links := run Links.write s.links (msgbDequeue s.links (head e)).1 }.setEp e
      { s.ep e with queueLen := dec32 (s.ep e).queueLen },
      { eps e with queue := rest, queueLen := dec32 (eps e).queueLen }, ?_, ?_, ?_, rfl, ?_, ?_, ?_⟩
    · simp only [UsbMem.msgbDequeueCount, got]
    · rw [UsbBufferedEp.msgbDequeueCount, whole]
    · apply h.at_one
      · exact circles
      · rfl
      · exact fun e' other => UsbMem.setEp_other _ other _
      · rw [UsbMem.setEp_ep]
        refine ⟨old.inProgress, congrArg dec32 old.queueLen, old.write, old.wire, old.done, old.dropped,
          fun m' one => ?_, old.writing⟩
        exact old.queued m' (by rw [whole]; exact List.mem_cons_of_mem _ one)
    · exact old.queued m (by rw [whole]; exact List.mem_cons_self)
    · rw [queueTags_update]
      exact loose
    · intro x away e' there
      rw [queueTags_update] at there
      by_cases here : e' = e
      · subst here
        rw [Function.update_self] at there
        apply away e'
        rw [tags]
        exact List.mem_cons.mpr ((List.mem_cons.mp there).imp_right (List.mem_cons_of_mem _))
      · rw [Function.update_of_ne here] at there
        exact away e' there

theorem Shows.evict (h : Shows head s eps) (held : s.buf msg.tag = msg) :
    Shows head (s.evict e msg.tag) (Function.update eps e ((eps e).evict msg)) := by
  have old := h.ep e
  have dropped : (s.ep e).dropped ++ [s.buf msg.tag] = (eps e).dropped ++ [msg] := by
    rw [old.dropped, held]
  have shown : EpShown s.buf { s.ep e with dropped := (s.ep e).dropped ++ [s.buf msg.tag] }
      ((eps e).evict msg) := { old with dropped := dropped }
  exact h.setEp shown rfl

theorem Dequeued.evict {m : UsbBuf} (d : Dequeued head s eps e m t ep) :
    Shows head (t.evict e m.tag) (Function.update eps e (ep.evict m)) := by
  have still : t.buf m.tag = m := by rw [d.buf]; exact d.held.1
  have evicted := d.shows.evict (e := e) still
  rwa [Function.update_self, Function.update_idem] at evicted

/-- A change of the end-point that a message was taken from. -/
theorem Dequeued.setEp {m : UsbBuf} (d : Dequeued head s eps e m t ep) {x : EpMem}
    {ep' : UsbBufferedEp} (shown : EpShown t.buf x ep') (queue : ep'.queue = ep.queue) :
    Shows head (t.setEp e x) (Function.update eps e ep') := by
  have same : ep'.queue = (Function.update eps e ep e).queue := by rw [Function.update_self, queue]
  have shows := d.shows.setEp shown same
  rwa [Function.update_idem] at shows

theorem Dequeued.here {m : UsbBuf} (d : Dequeued head s eps e m t ep) :
    EpShown t.buf (t.ep e) ep := by
  have here := d.shows.ep e
  rwa [Function.update_self] at here

theorem submit_agrees (h : Shows head s eps) (held : s.buf msg.tag = msg ∧ msg.tag ≠ 0)
    (loose : Links.Loose head (queueTags eps) msg.tag) :
    Option.Rel (Shows head) (s.usbBufSubmit head e msg.tag)
      (((eps e).usbBufSubmit msg).map (Function.update eps e)) := by
  rw [UsbMem.usbBufSubmit, UsbBufferedEp.usbBufSubmit, (h.ep e).queueLen]
  split
  · obtain ⟨mem, list⟩ | ⟨m, t, ep, d⟩ := h.dequeue e
    · rw [mem, list]
      exact .none
    · rw [d.mem, d.list]
      have still : (t.evict e m.tag).buf msg.tag = msg ∧ msg.tag ≠ 0 := by
        have buf : (t.evict e m.tag).buf = s.buf := d.buf
        rw [buf]
        exact held
      have same : (ep.evict m).queue = ep.queue := rfl
      have away := d.fewer msg.tag loose
      rw [← queueTags_same same] at away
      have enqueued := d.evict.enqueue (e := e) still away
      rw [Function.update_self, Function.update_idem] at enqueued
      exact .some enqueued
  · exact .some (h.enqueue held loose)

theorem allocSt_agrees (h : Shows head s eps) (e : E) (fails : Nat) :
    Shows head (s.usbBufAllocSt head e fails)
      (Function.update eps e ((eps e).usbBufAllocSt fails).1) := by
  induction fails generalizing s eps with
  | zero =>
    rw [UsbMem.usbBufAllocSt, UsbBufferedEp.usbBufAllocSt, Function.update_eq_self]
    exact h
  | succ fails ih =>
    rw [UsbMem.usbBufAllocSt, UsbBufferedEp.usbBufAllocSt]
    obtain ⟨mem, list⟩ | ⟨m, t, ep, d⟩ := h.dequeue e
    · rw [mem, list, Function.update_eq_self]
      exact h
    · rw [d.mem, d.list]
      have rest := ih d.evict
      rwa [Function.update_self, Function.update_idem] at rest

theorem refill_agrees (h : Shows head s eps) (e : E) (accepted : Bool) :
    Shows head (s.usbRefillToHost head e accepted)
      (Function.update eps e ((eps e).usbRefillToHost accepted)) := by
  rw [UsbMem.usbRefillToHost, UsbBufferedEp.usbRefillToHost, (h.ep e).inProgress]
  split
  · rw [Function.update_eq_self]
    exact h
  · obtain ⟨mem, list⟩ | ⟨m, t, ep, d⟩ := h.dequeue e
    · rw [mem, list, Function.update_eq_self]
      exact h
    · rw [d.mem, d.list]
      have here := d.here
      have begun : EpShown t.buf { t.ep e with inProgress := inc32 (t.ep e).inProgress }
          { ep with inProgress := inc32 ep.inProgress } :=
        { here with inProgress := congrArg inc32 here.inProgress }
      have shows := d.setEp begun rfl
      have still : t.buf m.tag = m ∧ m.tag ≠ 0 := by rw [d.buf]; exact d.held
      simp only
      cases accepted with
      | true =>
        have written : EpShown t.buf { t.ep e with
              inProgress := inc32 (t.ep e).inProgress, write := some (m.tag, (t.buf m.tag).data) }
            ({ ep with inProgress := inc32 ep.inProgress }.usbdWrite m m.data) := by
          refine { begun with write := ?_, writing := ?_ }
          · rw [still.1]
            rfl
          · rintro w one
            cases one
            exact still
        have final := shows.setEp (e := e) written (by rw [Function.update_self]; rfl)
        rw [Function.update_idem] at final
        rw [if_pos rfl, if_pos rfl, UsbMem.usbdWrite, UsbMem.setEp_ep]
        exact final
      | false =>
        have same : ({ ep with inProgress := inc32 ep.inProgress } : UsbBufferedEp).queue =
            ep.queue := rfl
        have loose := d.loose
        rw [← queueTags_same same] at loose
        have pushed := shows.push (e := e) still loose
        rw [Function.update_self, Function.update_idem] at pushed
        have back := pushed.ep e
        rw [Function.update_self] at back
        have ended : EpShown t.buf { (t.setEp e { t.ep e with
              inProgress := inc32 (t.ep e).inProgress }).ep e with
              inProgress := dec32 ((t.setEp e { t.ep e with
                inProgress := inc32 (t.ep e).inProgress }).ep e).inProgress }
            { ({ ep with inProgress := inc32 ep.inProgress } : UsbBufferedEp).llistAddIrqsafe m with
              inProgress := dec32 (inc32 ep.inProgress) } :=
          { back with inProgress := congrArg dec32 back.inProgress }
        have final := pushed.setEp ended (by rw [Function.update_self])
        rw [Function.update_idem] at final
        exact final

theorem writeCb_agrees (h : Shows head s eps) (e : E) (held : s.buf msg.tag = msg ∧ msg.tag ≠ 0)
    (epSize transferred : Nat) (accepted : Bool) :
    Shows head (s.usbWriteCb e epSize msg.tag transferred accepted)
      (Function.update eps e ((eps e).usbWriteCb epSize msg transferred accepted)) := by
  have old := h.ep e
  rw [UsbMem.usbWriteCb, UsbBufferedEp.usbWriteCb, held.1]
  split
  · split
    · have written : EpShown s.buf { s.ep e with write := some (msg.tag, []) }
          ((eps e).usbdWrite msg []) := by
        refine { old with write := rfl, writing := ?_ }
        rintro w one
        cases one
        exact held
      exact h.setEp written rfl
    · rw [Function.update_eq_self]
      exact h
  · have ended : EpShown s.buf { s.ep e with
          inProgress := dec32 (s.ep e).inProgress, done := (s.ep e).done ++ [msg] }
        { eps e with inProgress := dec32 (eps e).inProgress, done := (eps e).done ++ [msg] } :=
      { old with
        inProgress := congrArg dec32 old.inProgress, done := congrArg (· ++ [msg]) old.done }
    exact h.setEp ended rfl

theorem complete_agrees (h : Shows head s eps) (e : E) (epSize transferred : Nat) (accepted : Bool) :
    Shows head (s.complete e epSize transferred accepted)
      (Function.update eps e ((eps e).complete epSize transferred accepted)) := by
  have old := h.ep e
  rw [UsbMem.complete, UsbBufferedEp.complete, old.write]
  cases write : (eps e).write with
  | none =>
    simp only [Option.map_none]
    rw [Function.update_eq_self]
    exact h
  | some w =>
    have held := old.writing w write
    simp only [Option.map_some]
    have done : EpShown s.buf { s.ep e with
          write := none, wire := (s.ep e).wire ++ packets epSize w.data }
        { eps e with write := none, wire := (eps e).wire ++ packets epSize w.data } := by
      refine { old with write := rfl, wire := ?_, writing := ?_ }
      · rw [old.wire]
      · rintro w' none
        cases none
    have ended := writeCb_agrees (h.setEp done rfl) e held epSize transferred accepted
    rwa [Function.update_self, Function.update_idem] at ended

omit [DecidableEq E] in
/-- What is written to an unused buffer is seen nowhere. -/
theorem Shows.fill (h : Shows head s eps) (unused : UnusedBuf head eps msg) :
    Shows head { s with buf := Function.update s.buf msg.tag msg } eps := by
  obtain ⟨_, loose, writes⟩ := unused
  refine ⟨h.circles, fun e => ?_⟩
  have old := h.ep e
  refine { old with queued := fun m one => ?_, writing := fun w one => ?_ }
  · have other : m.tag ≠ msg.tag := by
      intro same
      apply loose e
      rw [← same]
      exact List.mem_cons_of_mem _ (List.mem_map_of_mem one)
    simp only [Function.update_of_ne other]
    exact old.queued m one
  · simp only [Function.update_of_ne (writes e w one)]
    exact old.writing w one

theorem agrees_step {st : Option (UsbMem E) × Option (E → UsbBufferedEp)} (epSize : Nat)
    (h : Option.Rel (Shows head) st.1 st.2) {input : UsbMemInput E}
    (rules : UsbMemRules head st input) :
    Option.Rel (Shows head) (usbMemBoth head epSize st input).1
      (usbMemBoth head epSize st input).2 := by
  obtain ⟨mem, list⟩ := st
  cases h with
  | none => exact .none
  | @some s eps shows =>
    cases input with
    | submit e msg =>
      have unused := rules eps rfl
      have held : (Function.update s.buf msg.tag msg) msg.tag = msg ∧ msg.tag ≠ 0 :=
        ⟨Function.update_self .., unused.1⟩
      exact submit_agrees (shows.fill unused) held unused.2.1
    | allocSt e fails => exact .some (allocSt_agrees shows e fails)
    | refill e accepted => exact .some (refill_agrees shows e accepted)
    | complete e transferred accepted =>
      exact .some (complete_agrees shows e epSize transferred accepted)

/-- Whatever the memory held before: the end-points with their queues in one memory are those with lists
for queues, in every run that submits no buffer in use, and panic when those do. -/
theorem usb_memory_refines {names : List E} (complete : ∀ e, e ∈ names)
    (distinct : Function.Injective head) (l : Links Nat) (buf : Nat → UsbBuf) (epSize : Nat)
    {inputs : List (UsbMemInput E)} (rules : Meets (usbMemBoth head epSize) (UsbMemRules head)
      (some (.init head l buf names), some fun _ => .init) inputs) :
    let st := run (usbMemBoth head epSize) (some (.init head l buf names), some fun _ => .init) inputs
    Option.Rel (Shows head) st.1 st.2 := by
  have own : QueuesHeld head (fun _ => false) (.init head l names, .init) :=
    init_held complete distinct l
  have start : Shows head (.init head l buf names) fun _ => .init := by
    refine ⟨own.circles, fun e => ⟨rfl, rfl, rfl, rfl, rfl, rfl, fun m none => ?_, fun w none => ?_⟩⟩
    · cases none
    · cases none
  exact run_keeps (fun st : Option (UsbMem E) × Option (E → UsbBufferedEp) =>
      Option.Rel (Shows head) st.1 st.2)
    (fun _ _ h rules => agrees_step epSize h rules) (.some start) rules

end ep

/-- A bare header in a buffer of the pool. -/
def pooled (address : Nat) : UsbBuf := { bareHeader with tag := address }

/-- The fourth message evicts the first; the second is sent, and then the buffer of the first used again
at another end-point. -/
def reused : List (UsbMemInput Bool) :=
  [.submit false (pooled 0x20001000), .submit false (pooled 0x20001200),
    .submit false (pooled 0x20001400), .submit false (pooled 0x20001600), .refill false true,
    .submit true (pooled 0x20001000), .complete false 8 true, .allocSt false 1]

theorem reused_refines :
    let st := run (usbMemBoth twoHeads 64) (some (.init twoHeads ⟨fun _ => 0, fun _ => 0⟩
      (fun _ => bareHeader) [false, true]), some fun _ => .init) reused
    Option.Rel (Shows twoHeads) st.1 st.2 :=
  @usb_memory_refines Bool _ twoHeads [false, true] (by decide) (by decide) ⟨fun _ => 0, fun _ => 0⟩
    (fun _ => bareHeader) 64 reused (by decide)

end Simtrace2
