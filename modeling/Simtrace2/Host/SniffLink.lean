import Mathlib.Data.List.Flatten
import Simtrace2.Host.Sniff
import Simtrace2.Sniffer.Provenance
import Simtrace2.Usb.Framing

/-! From the line to the screen: the sniffer's messages go through the buffered end-point, over the
bus in packets, and are taken apart by the host, with all of them at work at the same time. -/
namespace Simtrace2
open Lib

theorem SniffMsg.encode_hdr (m : SniffMsg) : 8 ≤ m.encode.length := by
  rw [m.encode_length, sizeofMsgHdr]
  omega

def emptyBuf : UsbBuf := ⟨0, List.replicate 8 0, Nat.le_refl 8, Nat.le_add_right 8 (usbAllocSize - 8)⟩

/-- The buffer that a message is written into. All that are sent fit. -/
def SniffMsg.toBuf (m : SniffMsg) : UsbBuf :=
  if fits : m.encode.length ≤ usbAllocSize then
    { tag := 0, data := m.encode, hdr := m.encode_hdr, fits }
  else emptyBuf

structure SniffLink where
  sniffer : Sniffer
  ep : Option UsbBufferedEp
  /-- The bytes on the bus that the host has read. -/
  taken : Nat
  host : SniffHost

/-- What happens next: something on the line or a turn of the sniffer's main loop, a buffer that is
got from the queue, the driver taking a message or done with one, and a read of the host. -/
inductive LinkInput where
  | line (input : SniffInput)
  | allocSt (fails : Nat)
  | refill (accepted : Bool)
  | complete
  | read (n : Nat)

namespace SniffLink

def init (alloc : Nat → Bool) : SniffLink :=
  { sniffer := .init alloc, ep := some .init, taken := 0, host := .init }

/-- The bytes that are on the bus and that a read of up to `n` bytes brings, as far as the host's
buffer has room. -/
def readData (s : SniffLink) (ep : UsbBufferedEp) (n : Nat) : List UInt8 :=
  (ep.wire.flatten.drop s.taken).take (min n (sizeofBuf - s.host.buf.length))

/-- An end-point whose assertion has failed does nothing any more. -/
def step (epSize : Nat) (s : SniffLink) (input : LinkInput) : SniffLink :=
  match s.ep with
  | none => s
  | some ep =>
    match input with
    | .line input =>
      let sniffer := s.sniffer.step input
      let new := sniffer.sent.drop s.sniffer.sent.length
      { s with sniffer, ep := run (pumpStep epSize) (some ep) (new.map fun m => .submit m.toBuf) }
    | .allocSt fails => { s with ep := pumpStep epSize (some ep) (.allocSt fails) }
    | .refill accepted => { s with ep := pumpStep epSize (some ep) (.refill accepted) }
    | .complete => { s with ep := pumpStep epSize (some ep) .complete }
    | .read n =>
      let data := s.readData ep n
      { s with taken := s.taken + data.length, host := s.host.turn ⟨0, data⟩ }

/-- A read does not fill the host's buffer to its end. -/
def LeavesRoom (s : SniffLink) : LinkInput → Prop
  | .read n => ∀ ep ∈ s.ep, s.host.buf.length + (s.readData ep n).length < sizeofBuf
  | .line _ | .allocSt _ | .refill _ | .complete => True

instance (s : SniffLink) (input : LinkInput) : Decidable (s.LeavesRoom input) := by
  cases input <;> unfold LeavesRoom <;> infer_instance

/-- The data byte that a step takes from the line. -/
def consumed (s : SniffLink) (input : LinkInput) : List UInt8 :=
  match s.ep, input with
  | some _, .line input => s.sniffer.consumed input
  | _, _ => []

end SniffLink

/-! ### The messages in the buffers -/

def SniffMsg.Sendable (m : SniffMsg) : Prop := m.encode.length ≤ usbAllocSize

namespace SniffMsg

def asMsg (m : SniffMsg) (fits : m.Sendable) : SimtraceMsg :=
  { seqNr := 0, slotNr := 0, reserved := 0, content := .sniff m
    small := by
      rw [Sendable, encode_length] at fits
      exact fits }

theorem bytes_asMsg (m : SniffMsg) (fits : m.Sendable) : (m.asMsg fits).bytes = m.encode := by
  simp [SimtraceMsg.bytes, asMsg, SimtraceMsg.hdr, SimtraceMsg.msgLen, Content.msgClass,
    Content.msgType, Content.payload, encode, encodeHdr, leBytes]

theorem data_toBuf {m : SniffMsg} (fits : m.Sendable) : m.toBuf.data = m.encode := by
  have fits : m.encode.length ≤ usbAllocSize := fits
  rw [toBuf, dif_pos fits]

end SniffMsg

/-- What the host reads out of a buffer. -/
def UsbBuf.shown (b : UsbBuf) : List SniffMsg := (SniffHost.processUsbMsg b.data).2

theorem SniffMsg.shown_toBuf {m : SniffMsg} (fits : m.Sendable) : m.toBuf.shown = [m] := by
  have whole := SniffHost.sniff_frames.whole (m.asMsg fits) []
  rw [List.append_nil, bytes_asMsg] at whole
  rw [UsbBuf.shown, data_toBuf fits, whole]
  rfl

theorem SniffMsg.flatMap_shown {msgs : List SniffMsg} (fits : ∀ m ∈ msgs, m.Sendable) :
    (msgs.map toBuf).flatMap UsbBuf.shown = msgs := by
  induction msgs with
  | nil => rfl
  | cons m msgs ih =>
    have rest := ih fun m' mem => fits m' (List.mem_cons_of_mem _ mem)
    rw [List.map_cons, List.flatMap_cons, shown_toBuf (fits m List.mem_cons_self), rest]
    rfl

/-! ### The end-point as a stream of bytes -/

/-- Of what has been submitted nothing comes twice and nothing out of order, and the bytes on the
bus are those of the buffers done and of one that waits for its zero-length packet. -/
structure Carries (p : Nat) (ep : UsbBufferedEp) (sent : List UsbBuf) : Prop where
  inStep : ep.DriverInStep p
  perm : (ep.done ++ ep.dropped ++ ep.active ++ ep.queue).Perm sent
  order : (ep.done ++ ep.active ++ ep.queue).Sublist sent
  wire : ep.wire.flatten = ep.done.flatMap UsbBuf.data ++ (ep.unterminated p).flatten

namespace Carries
variable {p : Nat} {ep next : UsbBufferedEp} {sent : List UsbBuf}

theorem onBus (h : Carries p ep sent) :
    ep.wire.flatten <+: (ep.done ++ ep.active).flatMap UsbBuf.data := by
  rw [h.wire, List.flatMap_append, List.prefix_append_right_inj]
  unfold UsbBufferedEp.unterminated UsbBufferedEp.active
  cases ep.write with
  | none => simp
  | some w =>
    simp only
    split
    · simp [flatten_packets]
    · simp

/-- A step puts more on the bus, and takes more buffers under way, behind what is there. -/
theorem pump (pos : 0 < p) (h : Carries p ep sent) {input : PumpInput}
    (step : pumpStep p (some ep) input = some next) :
    Carries p next (sent ++ submitted [input]) ∧
      ep.done ++ ep.active <+: next.done ++ next.active ∧ ep.wire.flatten <+: next.wire.flatten := by
  obtain ⟨perm, order⟩ := UsbBufferedEp.pump_kept pos h.inStep step
  have perm' := perm.trans (h.perm.append_right _)
  have order' := order.trans (h.order.append_right _)
  have inStep' := h.inStep.pump pos step
  have wire := h.wire
  rcases UsbBufferedEp.pump_cases pos h.inStep step with ⟨_, old, queue, len, q, rfl⟩ |
    ⟨_, msg, queue, len, idle, q, rfl⟩ | ⟨rfl, msg, busy, full, rfl⟩ | ⟨rfl, w, busy, which, rfl⟩
  · exact ⟨⟨inStep', perm', order', wire⟩, List.prefix_rfl, List.prefix_rfl⟩
  · have free := h.inStep.idle idle
    have none : ep.unterminated p = [] := by simp [UsbBufferedEp.unterminated, free]
    rw [none] at wire
    refine ⟨⟨inStep', perm', order', ?_⟩, ?_, List.prefix_rfl⟩
    · simpa [UsbBufferedEp.unterminated, msg.data_ne_nil] using wire
    · simp [UsbBufferedEp.active, free]
  · have none : ep.unterminated p = [] := by
      simp [UsbBufferedEp.unterminated, busy, msg.data_ne_nil]
    rw [none] at wire
    refine ⟨⟨inStep', perm', order', ?_⟩, ?_, ?_⟩
    · simpa [UsbBufferedEp.unterminated, flatten_packets] using wire
    · simp [UsbBufferedEp.active, busy]
    · simp
  · refine ⟨⟨inStep', perm', order', ?_⟩, ?_, ?_⟩
    · rcases which with ⟨terminator, -⟩ | ⟨message, -⟩
      · simp [UsbBufferedEp.unterminated, busy, terminator, flatten_packets] at wire ⊢
        exact wire
      · simp [UsbBufferedEp.unterminated, busy, message, w.msg.data_ne_nil, flatten_packets] at wire ⊢
        exact wire
    · simp [UsbBufferedEp.active, busy]
    · simp

/-- The messages that a step of the sniffer sends are submitted one after the other. -/
theorem submits (pos : 0 < p) (h : Carries p ep sent) {new : List UsbBuf}
    (final : run (pumpStep p) (some ep) (new.map .submit) = some next) :
    Carries p next (sent ++ new) ∧ ep.done ++ ep.active <+: next.done ++ next.active ∧
      ep.wire.flatten <+: next.wire.flatten := by
  induction new generalizing ep sent with
  | nil =>
    obtain rfl : ep = next := Option.some.inj final
    exact ⟨by simpa using h, List.prefix_rfl, List.prefix_rfl⟩
  | cons msg new ih =>
    rw [List.map_cons, run] at final
    cases first : pumpStep p (some ep) (.submit msg) with
    | none => rw [first, run_pump_none] at final; cases final
    | some mid =>
      rw [first] at final
      obtain ⟨carries, under, wire⟩ := h.pump pos first
      obtain ⟨all, under', wire'⟩ := ih carries final
      have behind : sent ++ submitted [PumpInput.submit msg] ++ new = sent ++ msg :: new := by
        simp [submitted]
      exact ⟨behind ▸ all, under.trans under', wire.trans wire'⟩

end Carries

/-! ### The host behind it -/

/-- Buffers that hold messages are a stream that the host can take apart. -/
theorem messages_of_bufs {bufs : List UsbBuf}
    (held : ∀ b ∈ bufs, ∃ m : SniffMsg, m.Sendable ∧ b = m.toBuf) :
    ∃ msgs : List SimtraceMsg, msgs.flatMap SimtraceMsg.bytes = bufs.flatMap UsbBuf.data ∧
      msgs.flatMap SimtraceMsg.sniffed = bufs.flatMap UsbBuf.shown := by
  induction bufs with
  | nil => exact ⟨[], rfl, rfl⟩
  | cons b bufs ih =>
    obtain ⟨msgs, bytes, shown⟩ := ih fun b' mem => held b' (List.mem_cons_of_mem _ mem)
    obtain ⟨m, fits, rfl⟩ := held b List.mem_cons_self
    refine ⟨m.asMsg fits :: msgs, ?_, ?_⟩
    · rw [List.flatMap_cons, List.flatMap_cons, bytes, SniffMsg.bytes_asMsg, SniffMsg.data_toBuf fits]
    · rw [List.flatMap_cons, List.flatMap_cons, shown, SniffMsg.shown_toBuf fits]
      rfl

/-- The host has taken apart the first `taken` bytes of what the buffers under way put on the bus. -/
structure KeepsUp (taken : Nat) (host : SniffHost) (ep : UsbBufferedEp) : Prop where
  behind : taken ≤ ep.wire.flatten.length
  apart : ∃ msgs : List SimtraceMsg,
    msgs.flatMap SimtraceMsg.bytes = (ep.done ++ ep.active).flatMap UsbBuf.data ∧
    msgs.flatMap SimtraceMsg.sniffed = (ep.done ++ ep.active).flatMap UsbBuf.shown ∧
    SniffHost.Reassembled msgs (ep.wire.flatten.take taken) host

namespace KeepsUp
variable {taken : Nat} {host : SniffHost} {ep next : UsbBufferedEp}

/-- More at the end of the stream is nothing to what has been read of it. -/
theorem more (h : KeepsUp taken host ep)
    (held : ∀ b ∈ next.done ++ next.active, ∃ m : SniffMsg, m.Sendable ∧ b = m.toBuf)
    (under : ep.done ++ ep.active <+: next.done ++ next.active)
    (wire : ep.wire.flatten <+: next.wire.flatten) : KeepsUp taken host next := by
  obtain ⟨bufs, under⟩ := under
  obtain ⟨behind, msgs, bytes, shown, running, deframed⟩ := h
  have behind' : ∀ b ∈ bufs, ∃ m : SniffMsg, m.Sendable ∧ b = m.toBuf :=
    fun b mem => held b (under ▸ List.mem_append_right _ mem)
  obtain ⟨later, bytes', shown'⟩ := messages_of_bufs behind'
  have longer := wire.length_le
  have read : ep.wire.flatten.take taken = next.wire.flatten.take taken := by
    apply (wire.take taken).eq_of_length
    rw [List.length_take, List.length_take]
    omega
  refine ⟨behind.trans longer, msgs ++ later, ?_, ?_, running, ?_⟩
  · rw [List.flatMap_append, bytes, bytes', ← List.flatMap_append, under]
  · rw [List.flatMap_append, shown, shown', ← List.flatMap_append, under]
  · rw [← read]
    exact deframed.more later

/-- A read that leaves room brings the bytes behind those read before. -/
theorem read (h : KeepsUp taken host ep)
    (onBus : ep.wire.flatten <+: (ep.done ++ ep.active).flatMap UsbBuf.data) {data : List UInt8}
    (front : data <+: ep.wire.flatten.drop taken) (room : host.buf.length + data.length < sizeofBuf) :
    KeepsUp (taken + data.length) (host.turn ⟨0, data⟩) ep := by
  obtain ⟨behind, msgs, bytes, shown, apart⟩ := h
  have within : taken + data.length ≤ ep.wire.flatten.length := by
    have short := front.length_le
    rw [List.length_drop] at short
    omega
  have got : ep.wire.flatten.take (taken + data.length) = ep.wire.flatten.take taken ++ data := by
    rw [List.take_add, ← List.prefix_iff_eq_take.mp front]
  rw [← bytes] at onBus
  refine ⟨within, msgs, bytes, shown, ?_⟩
  rw [got]
  cases data with
  | nil =>
    have still : host.turn ⟨0, []⟩ = host := by simp [SniffHost.turn, apart.1, BulkTransfer.fatal]
    rw [still, List.append_nil]
    exact apart
  | cons byte data =>
    have room : host.LeavesRoom ⟨0, byte :: data⟩ := room
    apply apart.turn ⟨by simp [BulkTransfer.fatal], by simp, Nat.le_of_lt room⟩ room
    exact List.IsPrefix.trans (got ▸ List.take_prefix _ _) onBus

end KeepsUp

/-! ### The whole run -/

/-- What holds between the steps, where `stream` is what the sniffer has taken from the line. -/
structure SniffLink.Inv (p : Nat) (s : SniffLink) (stream : List UInt8) : Prop where
  sourced : ∃ l, Follows s.sniffer l ∧ l.Sourced stream
  running : s.host.running = true
  shows : s.host.decoded.Sublist s.sniffer.sent
  carries : ∀ ep, s.ep = some ep → Carries p ep (s.sniffer.sent.map SniffMsg.toBuf)
  keepsUp : ∀ ep, s.ep = some ep → KeepsUp s.taken s.host ep

namespace SniffLink.Inv
variable {p : Nat} {s : SniffLink} {stream : List UInt8}

theorem sendable (h : s.Inv p stream) : ∀ m ∈ s.sniffer.sent, m.Sendable := by
  obtain ⟨l, follows, sourced⟩ := h.sourced
  intro m mem
  rw [follows.sent] at mem
  exact (sourced.msgs m mem).encode

end SniffLink.Inv

/-- The buffers done and under way are of messages that have been sent. -/
theorem Carries.held {p : Nat} {ep : UsbBufferedEp} {sent : List SniffMsg}
    (h : Carries p ep (sent.map SniffMsg.toBuf)) (fits : ∀ m ∈ sent, m.Sendable) :
    ∀ b ∈ ep.done ++ ep.active, ∃ m : SniffMsg, m.Sendable ∧ b = m.toBuf := by
  intro b mem
  obtain ⟨m, of, rfl⟩ := List.mem_map.mp (h.order.subset (List.mem_append_left _ mem))
  exact ⟨m, fits m of, rfl⟩

/-- What the host has decoded is the begin of what the buffers hold. -/
theorem KeepsUp.shows {p taken : Nat} {host : SniffHost} {ep : UsbBufferedEp} {sent : List SniffMsg}
    (h : KeepsUp taken host ep) (carries : Carries p ep (sent.map SniffMsg.toBuf))
    (fits : ∀ m ∈ sent, m.Sendable) : host.decoded.Sublist sent := by
  obtain ⟨_, msgs, _, shown, _, complete, later, rfl, _, decoded, _⟩ := h
  have begun : host.decoded <+: (complete ++ later).flatMap SimtraceMsg.sniffed := by
    rw [decoded, List.flatMap_append]
    exact List.prefix_append _ _
  have order := (List.sublist_append_left (ep.done ++ ep.active) ep.queue).trans carries.order
  have all := List.Sublist.flatMap order UsbBuf.shown
  rw [SniffMsg.flatMap_shown fits, ← shown] at all
  exact begun.sublist.trans all

/-- A step of the sniffer adds messages that fit, and submits them. -/
theorem SniffLink.Inv.sends {p : Nat} {s : SniffLink} {stream : List UInt8} (h : s.Inv p stream)
    (input : SniffInput) :
    ∃ new, (s.sniffer.step input).sent = s.sniffer.sent ++ new ∧
      (∃ l, Follows (s.sniffer.step input) l ∧ l.Sourced (stream ++ s.sniffer.consumed input)) := by
  obtain ⟨l, follows, sourced⟩ := h.sourced
  obtain ⟨_, new, sent, _, _⟩ := Listener.accounts_step sourced.fits input
  refine ⟨new, ?_, l.step input, follows.step input, ?_⟩
  · rw [(follows.step input).sent, sent, follows.sent]
  · rw [follows.consumed]
    exact sourced.step input

namespace SniffLink.Inv
variable {p : Nat} {s : SniffLink} {stream : List UInt8} {ep : UsbBufferedEp}

/-- What the driver does with the buffers leaves the sniffer and the host alone. -/
theorem pump (h : s.Inv p stream) (pos : 0 < p) (here : s.ep = some ep) (input : PumpInput)
    (nothing : submitted [input] = []) :
    Inv p { s with ep := pumpStep p (some ep) input } stream := by
  have kept : ∀ next, pumpStep p (some ep) input = some next →
      Carries p next (s.sniffer.sent.map SniffMsg.toBuf) ∧
        KeepsUp s.taken s.host next := by
    intro next step
    obtain ⟨carries, under, wire⟩ := (h.carries ep here).pump pos step
    rw [nothing, List.append_nil] at carries
    exact ⟨carries, (h.keepsUp ep here).more (carries.held h.sendable) under wire⟩
  exact ⟨h.sourced, h.running, h.shows, fun next step => (kept next step).1,
    fun next step => (kept next step).2⟩

theorem line (h : s.Inv p stream) (pos : 0 < p) (here : s.ep = some ep) (input : SniffInput) :
    (s.step p (.line input)).Inv p (stream ++ s.consumed (.line input)) := by
  obtain ⟨new, sent, sourced⟩ := h.sends input
  have out : (s.sniffer.step input).sent.drop s.sniffer.sent.length = new := by
    rw [sent, List.drop_left]
  have all : (s.sniffer.step input).sent.map SniffMsg.toBuf =
      s.sniffer.sent.map SniffMsg.toBuf ++ new.map SniffMsg.toBuf := by
    rw [sent, List.map_append]
  have submits : new.map (fun m => PumpInput.submit m.toBuf) =
      (new.map SniffMsg.toBuf).map PumpInput.submit := by
    rw [List.map_map]
    rfl
  have fits : ∀ m ∈ (s.sniffer.step input).sent, m.Sendable := by
    obtain ⟨l, follows, from'⟩ := sourced
    intro m mem
    rw [follows.sent] at mem
    exact (from'.msgs m mem).encode
  have kept : ∀ next, run (pumpStep p) (some ep) ((new.map SniffMsg.toBuf).map .submit) = some next →
      Carries p next ((s.sniffer.step input).sent.map SniffMsg.toBuf) ∧
        KeepsUp s.taken s.host next := by
    intro next final
    obtain ⟨carries, under, wire⟩ := (h.carries ep here).submits pos final
    rw [← all] at carries
    exact ⟨carries, (h.keepsUp ep here).more (carries.held fits) under wire⟩
  simp only [SniffLink.step, SniffLink.consumed, here, out, submits]
  refine ⟨sourced, h.running, ?_, fun next final => (kept next final).1,
    fun next final => (kept next final).2⟩
  rw [sent]
  exact h.shows.trans (List.sublist_append_left _ _)

theorem read (h : s.Inv p stream) (here : s.ep = some ep) {n : Nat} (room : s.LeavesRoom (.read n)) :
    (s.step p (.read n)).Inv p (stream ++ s.consumed (.read n)) := by
  have next := (h.keepsUp ep here).read (h.carries ep here).onBus (List.take_prefix _ _)
    (room ep here)
  have shows := next.shows (h.carries ep here) h.sendable
  simp only [SniffLink.step, SniffLink.consumed, here, List.append_nil]
  refine ⟨h.sourced, ?_, shows, ?_, ?_⟩
  · obtain ⟨_, _, _, _, running, _⟩ := next
    exact running
  · rintro ep' ⟨⟩
    exact h.carries ep here
  · rintro ep' ⟨⟩
    exact next

theorem step (h : s.Inv p stream) (pos : 0 < p) (input : LinkInput) (room : s.LeavesRoom input) :
    (s.step p input).Inv p (stream ++ s.consumed input) := by
  cases here : s.ep with
  | none =>
    simp only [SniffLink.step, SniffLink.consumed, here, List.append_nil]
    exact h
  | some ep =>
    cases input with
    | line input => exact h.line pos here input
    | read n => exact h.read here room
    | allocSt _ | refill _ | complete =>
      have next := h.pump pos here
      simp only [SniffLink.step, SniffLink.consumed, here, List.append_nil]
      exact next _ rfl

end SniffLink.Inv

theorem SniffLink.inv_init (p : Nat) (alloc : Nat → Bool) : (SniffLink.init alloc).Inv p [] where
  sourced := ⟨.init alloc, follows_init alloc, trivial, by simp [Listener.init], by
    simp [Listener.init, Phase.held, Listener.partialMsg]⟩
  running := rfl
  shows := List.nil_sublist _
  carries := by
    rintro ep ⟨⟩
    exact ⟨⟨rfl, by simp [UsbBufferedEp.init]⟩, by
      simp [UsbBufferedEp.init, UsbBufferedEp.active, SniffLink.init, Sniffer.init], by
      simp [UsbBufferedEp.init, UsbBufferedEp.active, SniffLink.init, Sniffer.init], by
      simp [UsbBufferedEp.init, UsbBufferedEp.unterminated]⟩
  keepsUp := by
    rintro ep ⟨⟩
    refine ⟨by simp [SniffLink.init], [], ?_, ?_, rfl, ?_⟩
    · simp [UsbBufferedEp.init, UsbBufferedEp.active]
    · simp [UsbBufferedEp.init, UsbBufferedEp.active]
    · exact deframed_nil []

/-- The whole way has been gone: nothing waits, nothing was dropped, and all has been read. -/
def SniffLink.AllThrough (s : SniffLink) (ep : UsbBufferedEp) : Prop :=
  s.ep = some ep ∧ ep.dropped = [] ∧ ep.queue = [] ∧ ep.write = none ∧
    s.taken = ep.wire.flatten.length

theorem SniffLink.Inv.all_through {p : Nat} {s : SniffLink} {stream : List UInt8}
    (h : s.Inv p stream) {ep : UsbBufferedEp} (through : s.AllThrough ep) :
    s.host.decoded = s.sniffer.sent ∧ s.host.buf = [] := by
  obtain ⟨here, dropped, queue, write, all⟩ := through
  obtain ⟨inStep, perm, order, wire⟩ := h.carries ep here
  obtain ⟨_, msgs, bytes, shown, _, apart⟩ := h.keepsUp ep here
  have active : ep.active = [] := by simp [UsbBufferedEp.active, write]
  simp only [active, queue, dropped, List.append_nil] at perm order bytes shown
  have done : ep.done = s.sniffer.sent.map SniffMsg.toBuf := order.eq_of_length perm.length_eq
  have onBus : ep.wire.flatten = msgs.flatMap SimtraceMsg.bytes := by
    simp [wire, UsbBufferedEp.unterminated, write, bytes]
  rw [all, List.take_length, onBus] at apart
  obtain ⟨decoded, kept⟩ := SniffHost.sniff_frames.read_all apart
  refine ⟨?_, kept⟩
  rw [decoded, shown, done, SniffMsg.flatMap_shown h.sendable]

/-- From the line to the screen, in every order of what happens on it, in the driver and in the
host, with any of the allocations failing: what the host decodes are messages that the sniffer sent,
whole and in their order, and their bytes come from the line in its order. When nothing was dropped
and nothing is under way, they are all of them. -/
theorem sniff_pipeline {p : Nat} (pos : 0 < p) (alloc : Nat → Bool) (inputs : List LinkInput)
    (room : Meets (SniffLink.step p) SniffLink.LeavesRoom (.init alloc) inputs) :
    let s := run (SniffLink.step p) (.init alloc) inputs
    s.host.running = true ∧ s.host.decoded.Sublist s.sniffer.sent ∧
      (s.host.decoded.flatMap SniffMsg.lineData).Sublist
        (trace (SniffLink.step p) SniffLink.consumed (.init alloc) inputs) ∧
      ∀ ep, s.AllThrough ep → s.host.decoded = s.sniffer.sent ∧ s.host.buf = [] := by
  intro s
  have inv : s.Inv p ([] ++ trace (SniffLink.step p) SniffLink.consumed (.init alloc) inputs) := by
    apply run_traced_keeps (SniffLink.Inv p) _ (SniffLink.inv_init p alloc) room
    intro s stream input inv room
    exact inv.step pos input room
  rw [List.nil_append] at inv
  obtain ⟨l, follows, sourced⟩ := inv.sourced
  refine ⟨inv.running, inv.shows, ?_, fun ep through => inv.all_through through⟩
  have shown := List.Sublist.flatMap inv.shows SniffMsg.lineData
  rw [follows.sent] at shown
  exact shown.trans ((List.sublist_append_left _ _).trans sourced.source)

/-- The reset is released and the card sends its ATR. The first of the two reads ends within the
second message. -/
def atrInTwoReads : List LinkInput :=
  [.line (.change sniffChangeFlagResetDeassert), .line .turn,
    .line (.entry 0x803b), .line .turn, .line (.entry 0x8000), .line .turn,
    .refill true, .complete, .refill true, .complete, .read 20, .read 64]

theorem sniff_pipeline_atr :
    Meets (SniffLink.step 64) SniffLink.LeavesRoom (.init fun _ => true) atrInTwoReads ∧
      (run (SniffLink.step 64) (.init fun _ => true) atrInTwoReads).host.decoded =
        [.change sniffChangeFlagResetDeassert, .data .atr 0 [0x3b, 0x00]] := by
  have room : Meets (SniffLink.step 64) SniffLink.LeavesRoom (.init fun _ => true) atrInTwoReads := by
    decide +kernel
  obtain ⟨_, _, _, through⟩ := sniff_pipeline (by decide) (fun _ => true) atrInTwoReads room
  refine ⟨room, (through _ ⟨rfl, ?_⟩).1.trans ?_⟩ <;> decide +kernel

end Simtrace2
