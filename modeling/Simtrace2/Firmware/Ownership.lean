import Mathlib.Data.List.Perm.Basic
import Simtrace2.Firmware.Ledger
import Simtrace2.Usb.Accounting

/-! Every buffer of the pool has one owner: an end-point's queue, the transfer that the
driver is busy with, or a card. One lemma per operation, then every run. -/
namespace Simtrace2
open Lib

/-- Every slot in use is held once, and only slots of the pool are in use. -/
structure Pool.Holds (pool : Pool) (held : List Nat) : Prop where
  once : HeldOnce pool held
  small : ∀ x, pool x = true → x < numRctxSmall

namespace Pool.Holds
variable {pool : Pool} {held : List Nat}

theorem congr (h : pool.Holds held) {held' : List Nat}
    (same : ∀ x, held'.count x = held.count x) : pool.Holds held' :=
  ⟨h.once.congr same, h.small⟩

theorem empty : Pool.empty.Holds [] := ⟨fun _ => rfl, fun _ used => absurd used Bool.false_ne_true⟩

theorem tallocZero (h : pool.Holds held) {tag : Nat} {pool' : Pool}
    (found : pool.tallocZero = some (tag, pool')) : pool'.Holds (tag :: held) := by
  obtain ⟨i, first, same⟩ := Option.map_eq_some_iff.mp found
  obtain ⟨rfl, rfl⟩ := Prod.mk.inj same
  have free : pool i = false := by simpa using List.find?_some first
  have small : i < numRctxSmall := List.mem_range.mp (List.mem_of_find?_eq_some first)
  refine ⟨h.once.take free, fun x used => ?_⟩
  by_cases same : x = i
  · rw [same]
    exact small
  · rw [Function.update_of_ne same] at used
    exact h.small x used

/-- A slot that is held can be freed. -/
theorem tallocFree {tag : Nat} (h : pool.Holds (tag :: held)) :
    ∃ pool', pool.tallocFree tag = .ok pool' ∧ pool'.Holds held := by
  obtain ⟨used, rest⟩ := h.once.give
  refine ⟨Function.update pool tag false, ?_, rest, fun x used' => ?_⟩
  · rw [Pool.tallocFree, if_neg (Nat.not_le.mpr (h.small tag used)), if_pos used]
  · by_cases same : x = tag
    · rw [same, Function.update_self] at used'
      exact absurd used' Bool.false_ne_true
    · rw [Function.update_of_ne same] at used'
      exact h.small x used'

end Pool.Holds

namespace UsbBufferedEp

def held (ep : UsbBufferedEp) : List Nat :=
  ep.queue.map UsbBuf.tag ++ (ep.write.map fun w => w.msg.tag).toList

/-- `in_progress` counts the write that the driver is busy with. -/
def Tracked (ep : UsbBufferedEp) : Prop := ep.inProgress = ep.write.isSome.toNat

/-- The `USBD_Write` of a zero-length packet that `usb_write_cb` makes is refused. -/
def ZlpRefused (ep : UsbBufferedEp) (epSize transferred : Nat) (accepted : Bool) : Prop :=
  accepted = false ∧ ∃ w, ep.write = some w ∧ w.msg.data.length % epSize = 0 ∧ transferred = epSize

variable {ep : UsbBufferedEp}

theorem Tracked.iff (h : ep.Tracked) : ep.inProgress ≠ 0 ↔ ep.write.isSome := by
  rw [h]
  cases ep.write <;> simp

theorem dequeued {msg : UsbBuf} {ep' : UsbBufferedEp}
    (taken : ep.msgbDequeueCount = some (msg, ep')) :
    ∃ queue, ep.queue = msg :: queue ∧
      ep' = { ep with queue, queueLen := dec32 ep.queueLen } := by
  obtain ⟨_, none⟩ | ⟨first, queue, queued, some⟩ := ep.dequeue_cases
  · rw [none] at taken
    cases taken
  · obtain ⟨rfl, rfl⟩ := Prod.mk.inj (Option.some.inj (some.symm.trans taken))
    exact ⟨queue, queued, rfl⟩

theorem held_dequeue {msg : UsbBuf} {ep' : UsbBufferedEp}
    (taken : ep.msgbDequeueCount = some (msg, ep')) (x : Nat) :
    ep.held.count x = [msg.tag].count x + ep'.held.count x := by
  obtain ⟨queue, queued, rfl⟩ := dequeued taken
  simp only [held, queued, List.map_cons, List.count_append, List.count_cons, List.count_nil]
  omega

theorem Tracked.dequeue (h : ep.Tracked) {msg : UsbBuf} {ep' : UsbBufferedEp}
    (taken : ep.msgbDequeueCount = some (msg, ep')) : ep'.Tracked := by
  obtain ⟨_, _, rfl⟩ := dequeued taken
  exact h

theorem held_submit {msg : UsbBuf} {ep' : UsbBufferedEp}
    (put : { ep with dropped := [] }.usbBufSubmit msg = some ep') (x : Nat) :
    ep'.held.count x + (ep'.dropped.map UsbBuf.tag).count x =
      ep.held.count x + [msg.tag].count x := by
  obtain ⟨old, queue, _, split, rfl⟩ := submit_cases put
  have split : ep.queue = old ++ queue := split
  simp only [held, split, List.map_append, List.map_cons, List.map_nil, List.nil_append,
    List.count_append]
  omega

theorem Tracked.submit (h : ep.Tracked) {msg : UsbBuf} {ep' : UsbBufferedEp}
    (put : { ep with dropped := [] }.usbBufSubmit msg = some ep') : ep'.Tracked := by
  obtain ⟨_, _, _, _, rfl⟩ := submit_cases put
  exact h

theorem Tracked.refill (h : ep.Tracked) (accepted : Bool) :
    (ep.usbRefillToHost accepted).Tracked ∧
      ∀ x, (ep.usbRefillToHost accepted).held.count x = ep.held.count x := by
  unfold usbRefillToHost
  split
  · exact ⟨h, fun x => rfl⟩
  · rename_i idle
    have zero : ep.inProgress = 0 := not_ne_iff.mp idle
    have free : ep.write = none := by
      cases w : ep.write with
      | none => rfl
      | some w' =>
        rw [Tracked, w, zero] at h
        cases h
    obtain ⟨_, none⟩ | ⟨first, queue, queued, some⟩ := ep.dequeue_cases
    · rw [none]
      exact ⟨h, fun x => rfl⟩
    · rw [some]
      simp only
      cases accepted with
      | true =>
        refine ⟨?_, fun x => ?_⟩
        · simp [Tracked, usbdWrite, zero, inc32]
        · simp only [if_pos, held, usbdWrite, queued, free, List.map_cons, List.count_append,
            List.count_cons, Option.map_some, Option.map_none, Option.toList_some, Option.toList_none,
            List.count_nil]
          omega
      | false =>
        refine ⟨?_, fun x => ?_⟩
        · simp [Tracked, llistAddIrqsafe, zero, free, inc32, dec32]
        · simp [held, llistAddIrqsafe, queued, free]

theorem Tracked.complete (h : ep.Tracked) {epSize transferred : Nat} {accepted : Bool}
    (taken : ¬ep.ZlpRefused epSize transferred accepted) :
    ({ ep with done := [] }.complete epSize transferred accepted).Tracked ∧
      ∀ x, ({ ep with done := [] }.complete epSize transferred accepted).held.count x +
          (({ ep with done := [] }.complete epSize transferred accepted).done.map UsbBuf.tag).count x =
        ep.held.count x := by
  unfold UsbBufferedEp.complete
  cases busy : ep.write with
  | none =>
    refine ⟨?_, fun x => ?_⟩
    · rw [Tracked, busy] at h
      exact h
    · simp [held, busy]
  | some w =>
    have one : ep.inProgress = 1 := by
      rw [Tracked, busy] at h
      exact h
    simp only [usbWriteCb]
    split
    · rename_i whole
      cases accepted with
      | true =>
        refine ⟨?_, fun x => ?_⟩
        · simpa [Tracked, usbdWrite] using one
        · simp [held, usbdWrite, busy]
      | false => exact absurd ⟨rfl, w, busy, whole⟩ taken
    · refine ⟨?_, fun x => ?_⟩
      · simp [Tracked, one, dec32]
      · simp [held, busy, List.count_append]

/-- A refused zero-length packet leaves the end-point blocked with no write on it. -/
theorem ZlpRefused.blocks (h : ep.Tracked) {epSize transferred : Nat} {accepted : Bool}
    (refused : ep.ZlpRefused epSize transferred accepted) :
    ({ ep with done := [] }.complete epSize transferred accepted).inProgress = 1 ∧
      ({ ep with done := [] }.complete epSize transferred accepted).write = none ∧
      ({ ep with done := [] }.complete epSize transferred accepted).done = [] := by
  obtain ⟨rfl, w, busy, whole⟩ := refused
  have one : ep.inProgress = 1 := by
    rw [Tracked, busy] at h
    exact h
  simp only [UsbBufferedEp.complete, busy, usbWriteCb, if_pos whole]
  exact ⟨one, rfl, rfl⟩

end UsbBufferedEp

namespace OutEp

def held (ep : OutEp) : List Nat := ep.queue.map Msgb.tag ++ ep.read.toList

/-- `in_progress` says that the driver is busy with a read. -/
def Tracked (ep : OutEp) : Prop := ep.inProgress = ep.read.isSome.toNat

theorem Tracked.iff {ep : OutEp} (h : ep.Tracked) : ep.inProgress ≠ 0 ↔ ep.read.isSome := by
  rw [h]
  cases ep.read <;> simp

end OutEp

namespace Port

/-- What the end-points hold. -/
def queued (p : Port) : List Nat := p.dataIn.held ++ p.irq.held ++ p.out.held

def held (p : Port) : List Nat := p.queued ++ p.dev.emu.held

structure Tracked (p : Port) : Prop where
  write : ∀ k, (p.ep k).Tracked
  read : p.out.Tracked

theorem ep_setEp (p : Port) (k : EpKind) (ep : UsbBufferedEp) : (p.setEp k ep).ep k = ep := by
  cases k <;> rfl

theorem queued_setEp (p : Port) (k : EpKind) (ep : UsbBufferedEp) (x : Nat) :
    (p.setEp k ep).queued.count x + (p.ep k).held.count x = p.queued.count x + ep.held.count x := by
  cases k <;> simp only [queued, setEp, Port.ep, List.count_append] <;> omega

theorem Tracked.setEp {p : Port} (h : p.Tracked) {k : EpKind} {ep : UsbBufferedEp}
    (tracked : ep.Tracked) : (p.setEp k ep).Tracked := by
  cases k with
  | dataIn =>
    refine ⟨fun k' => ?_, h.read⟩
    cases k' with
    | dataIn => exact tracked
    | irq => exact h.write .irq
  | irq =>
    refine ⟨fun k' => ?_, h.read⟩
    cases k' with
    | dataIn => exact h.write .dataIn
    | irq => exact tracked

end Port

/-- The end of a write whose message asks for a zero-length packet that the driver refuses. -/
def Port.ZlpRefused (p : Port) : PortInput → Prop
  | .writeDone k transferred accepted => (p.ep k).ZlpRefused (p.epSize k) transferred accepted
  | _ => False

/-- The ends of a run that are no fault of a buffer: an assertion about the length of a
queue, and a message that the slow path cannot get past. -/
def Stop.aside (e : Stop) : Prop := e = .noEvict ∨ e = .loops

namespace Site

/-- The site while it serves the device: what the end-points do not hold is in `others`. -/
structure Serves (s : Site) (d : Device) (others : List Nat) : Prop where
  dev : s.port.dev = d
  pool : s.pool.Holds (s.port.queued ++ others)
  tracked : s.port.Tracked

/-- The site between two calls, with the buffers that neither it nor its card holds. -/
def Rests (s : Site) (others : List Nat) : Prop :=
  s.Serves s.port.dev (s.port.dev.emu.held ++ others)

namespace Serves
variable {s : Site} {d : Device} {others : List Nat}

theorem congr (h : s.Serves d others) {others' : List Nat}
    (same : ∀ x, others'.count x = others.count x) : s.Serves d others' := by
  refine ⟨h.dev, h.pool.congr fun x => ?_, h.tracked⟩
  rw [List.count_append, List.count_append, same]

theorem free {tag : Nat} (h : s.Serves d (tag :: others)) :
    Safely Stop.aside (·.Serves d others) (s.free tag) := by
  have held : s.pool.Holds (tag :: (s.port.queued ++ others)) :=
    h.pool.congr fun x => List.Perm.count_eq List.perm_middle.symm x
  obtain ⟨pool, freed, holds⟩ := held.tallocFree
  rw [Site.free, freed]
  exact ⟨h.dev, holds, h.tracked⟩

theorem freeAll {tags : List Nat} (h : s.Serves d (tags ++ others)) :
    Safely Stop.aside (·.Serves d others) (s.freeAll tags) := by
  induction tags generalizing s with
  | nil => exact h
  | cons tag tags ih =>
    refine Safely.bind h.free ?_
    intro s' h'
    exact ih h'

theorem setEp (h : s.Serves d others) {k : EpKind} {ep : UsbBufferedEp} (tracked : ep.Tracked)
    {others' : List Nat}
    (moved : ∀ x, ep.held.count x + others'.count x = (s.port.ep k).held.count x + others.count x) :
    (s.setEp k ep).Serves d others' := by
  refine ⟨?_, h.pool.congr fun x => ?_, h.tracked.setEp tracked⟩
  · rw [← h.dev]
    cases k <;> rfl
  · have count := s.port.queued_setEp k ep x
    have moved := moved x
    simp only [List.count_append, Site.setEp]
    omega

theorem submit {k : EpKind} {msg : UsbBuf} (h : s.Serves d (msg.tag :: others)) :
    Safely Stop.aside (·.Serves d others) (s.submit k msg) := by
  unfold Site.submit
  cases put : { s.port.ep k with dropped := [] }.usbBufSubmit msg with
  | none => exact .inl rfl
  | some ep =>
    refine Serves.freeAll (h.setEp ((h.tracked.write k).submit put) fun x => ?_)
    have moved := UsbBufferedEp.held_submit put x
    simp only [List.count_append, List.count_cons, List.count_nil] at moved ⊢
    omega

theorem submitAll {msgs : List UsbMsg} (h : s.Serves d (msgs.map UsbMsg.tag ++ others)) :
    Safely Stop.aside (·.Serves d others) (s.submitAll msgs) := by
  induction msgs generalizing s with
  | nil => exact h
  | cons msg msgs ih =>
    refine Safely.bind (Serves.submit h) ?_
    intro s' h'
    exact ih h'

theorem settle {freed : List Nat} {usb : List UsbMsg}
    (h : s.Serves d (freed ++ (usb.map UsbMsg.tag ++ others))) :
    Safely Stop.aside (·.Serves d others) (s.settle freed usb) := by
  refine Safely.bind h.freeAll ?_
  intro s' h'
  exact h'.submitAll

/-- A buffer found in the pool is in the hands of the caller. -/
theorem take (h : s.Serves d others) {tag : Nat} {pool : Pool}
    (found : s.pool.tallocZero = some (tag, pool)) :
    { s with pool }.Serves d (tag :: others) := by
  refine ⟨h.dev, (h.pool.tallocZero found).congr fun x => ?_, h.tracked⟩
  exact List.Perm.count_eq List.perm_middle x

theorem allocTurns {k : EpKind} {turns : Nat} (h : s.Serves d others) :
    Safely Stop.aside (fun r => r.1.Serves d (r.2.toList ++ others)) (s.allocTurns k turns) := by
  induction turns generalizing s with
  | zero =>
    unfold Site.allocTurns
    cases found : s.pool.tallocZero with
    | some taken => exact h.take found
    | none => exact h
  | succ turns ih =>
    unfold Site.allocTurns
    cases found : s.pool.tallocZero with
    | some taken => exact h.take found
    | none =>
      cases dequeued : (s.port.ep k).msgbDequeueCount with
      | none => exact h
      | some taken =>
        obtain ⟨oldest, ep⟩ := taken
        have evicted : (s.setEp k ep).Serves d (oldest.tag :: others) := by
          refine h.setEp ((h.tracked.write k).dequeue dequeued) fun x => ?_
          have moved := UsbBufferedEp.held_dequeue dequeued x
          simp only [List.count_cons, List.count_nil] at moved ⊢
          omega
        refine Safely.bind evicted.free ?_
        intro s' h'
        exact ih h'

/-- The device after a call, the end-points as they are. -/
theorem put (h : s.Serves d others) (d' : Device) {others' : List Nat}
    (same : ∀ x, others'.count x = others.count x) : { s with port.dev := d' }.Serves d' others' :=
  ⟨rfl, (h.congr same).pool, ⟨h.tracked.write, h.tracked.read⟩⟩

theorem setOut (h : s.Serves d others) {out : OutEp} (tracked : out.Tracked) {others' : List Nat}
    (moved : ∀ x, out.held.count x + others'.count x = s.port.out.held.count x + others.count x) :
    { s with port.out := out }.Serves d others' := by
  refine ⟨h.dev, h.pool.congr fun x => ?_, ⟨h.tracked.write, tracked⟩⟩
  have moved := moved x
  simp only [Port.queued, List.count_append]
  omega

theorem rests (h : s.Serves d (d.emu.held ++ others)) : s.Rests others := by
  have dev := h.dev
  subst dev
  exact h

end Serves

theorem stock_quiet (d : Device) (x : Nat) : d.quiet.emu.stock x = d.emu.held.count x := rfl

namespace Rests
variable {s : Site} {others : List Nat}

theorem congr (h : s.Rests others) {others' : List Nat}
    (same : ∀ x, others'.count x = others.count x) : s.Rests others' :=
  Serves.congr h fun x => by rw [List.count_append, List.count_append, same]

/-- A call that asks for no buffer, and takes those that are given to it. -/
theorem call (given : List Nat) (h : s.Rests (given ++ others)) {op : Device → Device}
    (keeps : ∀ x, (op s.port.dev.quiet).emu.stock x = s.port.dev.quiet.emu.stock x + given.count x) :
    Safely Stop.aside (·.Rests others) (s.call op) := by
  refine (Serves.settle (Serves.put h (op s.port.dev.quiet) fun x => ?_)).weaken fun s' h' => h'.rests
  have count := keeps x
  rw [stock_quiet, Emu.stock] at count
  simp only [List.count_append]
  omega

theorem usbBufAllocSt (h : s.Rests others) (k : EpKind) :
    Safely Stop.aside (fun r => r.1.Rests (r.2.toList ++ others)) (s.usbBufAllocSt k) := by
  refine (Serves.allocTurns h).weaken ?_
  intro r h'
  refine Serves.rests (h'.congr fun x => ?_)
  simp only [List.count_append]
  omega

theorem callAsking (h : s.Rests others) {k : EpKind} {op : Device → Alloc → Device}
    (keeps : ∀ alloc x, (op s.port.dev.quiet alloc).emu.stock x =
      s.port.dev.quiet.emu.stock x + alloc.toList.count x)
    (precedes : ∀ alloc, Emu.Precedes (op s.port.dev.quiet none).emu (op s.port.dev.quiet alloc).emu) :
    Safely Stop.aside (·.Rests others) (s.callAsking k op) := by
  -- what the card would hold without the buffer it asks for
  have before : s.Serves s.port.dev ((op s.port.dev.quiet none).emu.freed ++
      ((op s.port.dev.quiet none).emu.usb.map UsbMsg.tag ++
        ((op s.port.dev.quiet none).emu.held ++ others))) := by
    refine Serves.congr h fun x => ?_
    have count := keeps none x
    rw [stock_quiet, Emu.stock] at count
    simp only [List.count_append, Option.toList_none, List.count_nil] at count ⊢
    omega
  refine Safely.bind before.settle ?_
  intro s₁ h₁
  refine Safely.bind h₁.allocTurns ?_
  rintro ⟨s₂, alloc⟩ h₂
  have dev : s₂.port.dev = s.port.dev := h₂.dev
  obtain ⟨usb, sameUsb⟩ := (precedes alloc).usb
  obtain ⟨freed, sameFreed⟩ := (precedes alloc).freed
  simp only [dev, ← sameUsb, ← sameFreed, List.drop_left]
  refine (Serves.settle (h₂.put (op s.port.dev.quiet alloc) fun x => ?_)).weaken fun s' h' => h'.rests
  have without := keeps none x
  have count := keeps alloc x
  rw [stock_quiet, Emu.stock] at without count
  simp only [← sameUsb, ← sameFreed, List.map_append, List.count_append, Option.toList_none,
    List.count_nil] at without count ⊢
  omega

/-- A change of the slot that leaves the buffers of the card alone. -/
theorem slot (h : s.Rests others) (d : Device) (same : d.emu = s.port.dev.emu) :
    { s with port.dev := d }.Rests others :=
  Serves.put h d fun x => by rw [same]

theorem rxByte (h : s.Rests others) (byte : UInt8) :
    Safely Stop.aside (·.Rests others) (s.rxByte byte) := by
  unfold Site.rxByte
  split
  · exact h
  · split
    · rename_i asks
      refine h.callAsking (fun alloc x => ?_) fun alloc => ?_
      · have count := s.port.dev.quiet.emu.stock_rxByte byte alloc x
        have same : s.port.dev.quiet.emu.rxAsks byte = s.port.dev.emu.rxAsks byte := rfl
        rw [same, if_pos asks] at count
        exact count
      · exact Emu.Precedes.rxByte s.port.dev.quiet.emu byte alloc
    · rename_i quiet
      refine call [] h fun x => ?_
      have count := s.port.dev.quiet.emu.stock_rxByte byte none x
      have same : s.port.dev.quiet.emu.rxAsks byte = s.port.dev.emu.rxAsks byte := rfl
      rw [same, if_neg quiet] at count
      exact count

theorem ioStatechg (h : s.Rests others) (io : CardIo) (active : Bool) :
    Safely Stop.aside (·.Rests others) (s.ioStatechg io active) := by
  have same : s.port.dev.quiet.emu.ioAsks io active = s.port.dev.emu.ioAsks io active := by
    cases io <;> rfl
  unfold Site.ioStatechg
  split
  · rename_i asks
    refine h.callAsking (fun alloc x => ?_) fun alloc => ?_
    · have count := s.port.dev.quiet.emu.stock_ioStatechg io active alloc x
      rw [same, if_pos asks] at count
      exact count
    · exact Emu.Precedes.ioStatechg s.port.dev.quiet.emu io active alloc
  · rename_i quiet
    refine call [] h fun x => ?_
    have count := s.port.dev.quiet.emu.stock_ioStatechg io active none x
    rw [same, if_neg quiet] at count
    exact count

theorem tellVcc (h : s.Rests others) : Safely Stop.aside (·.Rests others) s.tellVcc := by
  simp only [Site.tellVcc]
  split
  · refine (h.ioStatechg .vcc _).bind fun s₁ h₁ => (h₁.ioStatechg .clk _).bind ?_
    intro s₂ h₂
    exact h₂.slot _ rfl
  · exact h

theorem tellRst (h : s.Rests others) : Safely Stop.aside (·.Rests others) s.tellRst := by
  simp only [Site.tellRst]
  split
  · refine Safely.bind (h.ioStatechg .rst _) ?_
    intro s' h'
    exact h'.slot _ rfl
  · exact h

theorem processIoStatechg (h : s.Rests others) :
    Safely Stop.aside (·.Rests others) s.processIoStatechg :=
  h.tellVcc.bind fun _ h' => h'.tellRst

theorem dispatchUsbCommand_eq (s : Site) (msg : Msgb) :
    s.dispatchUsbCommand msg =
      (if dispatchAsks msg then s.usbBufAllocSt .dataIn else .ok (s, none)) >>= fun r =>
        r.1.call (·.dispatchUsbCommand msg r.2) := by
  unfold Site.dispatchUsbCommand
  split <;> rfl

/-- A message is freed by its dispatch, or handed to the card. -/
theorem dispatchUsbCommand {msg : Msgb} (h : s.Rests (msg.tag :: others)) :
    Safely Stop.aside (·.Rests others) (s.dispatchUsbCommand msg) := by
  have report : Safely Stop.aside (fun r => r.1.Rests (r.2.toList ++ (msg.tag :: others)) ∧
      (dispatchAsks msg = false → r.2 = none))
      (if dispatchAsks msg then s.usbBufAllocSt .dataIn else .ok (s, none)) := by
    split
    · rename_i asks
      refine (h.usbBufAllocSt .dataIn).weaken fun r h' => ⟨h', fun quiet => ?_⟩
      rw [asks] at quiet
      cases quiet
    · exact ⟨h, fun _ => rfl⟩
  rw [dispatchUsbCommand_eq]
  refine report.bind ?_
  intro r ⟨h', quiet⟩
  refine call (r.2.toList ++ [msg.tag]) (h'.congr fun x => ?_) fun x => ?_
  · rw [List.append_assoc, List.singleton_append]
  · rw [Device.stock_dispatch, List.count_append]
    split
    · omega
    · rename_i none
      rw [quiet (Bool.eq_false_iff.mpr none), Option.toList_none, List.count_nil]
      omega

theorem free {tag : Nat} (h : s.Rests (tag :: others)) :
    Safely Stop.aside (·.Rests others) (s.free tag) := by
  refine (Serves.free (Serves.congr h fun x => ?_)).weaken fun s' h' => h'.rests
  simp only [List.count_append, List.count_cons]
  omega

theorem take (h : s.Rests others) {tag : Nat} {pool : Pool}
    (found : s.pool.tallocZero = some (tag, pool)) : { s with pool }.Rests (tag :: others) :=
  (Serves.take h found).congr fun x => by
    simp only [List.count_append, List.count_cons]
    omega

/-- The slow path gives every segment away in its turn, and the message at its end. -/
theorem dispatchSegments (behind : Nat → UInt8) {turns : Nat} {msg : Msgb}
    (h : s.Rests (msg.tag :: others)) :
    Safely Stop.aside (·.Rests others) (s.dispatchSegments behind msg turns) := by
  induction turns generalizing s msg with
  | zero => exact .inr rfl
  | succ turns ih =>
    unfold Site.dispatchSegments
    split
    · exact h.free
    · rename_i tag pool found
      have taken := h.take found
      simp only
      split
      · exact taken.free.bind fun s' h' => h'.free
      · refine Safely.bind (dispatchUsbCommand taken) ?_
        intro s' h'
        split
        · exact h'.free
        · exact ih h'

theorem dispatchReceivedMsg (behind : Nat → UInt8) {msg : Msgb} (h : s.Rests (msg.tag :: others)) :
    Safely Stop.aside (·.Rests others) (s.dispatchReceivedMsg behind msg) := by
  unfold Site.dispatchReceivedMsg
  split
  · exact h.dispatchUsbCommand
  · exact h.dispatchSegments behind

theorem processUsbCommand (h : s.Rests others) (behind : Nat → UInt8) :
    Safely Stop.aside (·.Rests others) (s.processUsbCommand behind) := by
  unfold Site.processUsbCommand
  split
  · exact h
  · rename_i msg queue queued
    refine dispatchReceivedMsg behind (Serves.setOut h ?_ fun x => ?_)
    · exact Serves.tracked h |>.read
    · simp only [OutEp.held, queued, List.map_cons, List.count_append, List.count_cons]
      omega

theorem refillToHost (h : s.Rests others) (k : EpKind) (accepted : Bool) :
    (s.refillToHost k accepted).Rests others := by
  obtain ⟨tracked, same⟩ := (Serves.tracked h).write k |>.refill accepted
  exact Serves.rests (Serves.setEp h tracked fun x => by rw [same])

theorem writeDone (h : s.Rests others) {k : EpKind} {transferred : Nat} {accepted : Bool}
    (taken : ¬(s.port.ep k).ZlpRefused (s.port.epSize k) transferred accepted) :
    Safely Stop.aside (·.Rests others) (s.writeDone k transferred accepted) := by
  obtain ⟨tracked, same⟩ := (Serves.tracked h).write k |>.complete taken
  refine (Serves.freeAll (Serves.setEp h tracked fun x => ?_)).weaken fun s' h' => h'.rests
  have same := same x
  simp only [List.count_append] at same ⊢
  omega

theorem refillFromHost (h : s.Rests others) (accepted : Bool) :
    Safely Stop.aside (·.Rests others) (s.refillFromHost accepted) := by
  unfold Site.refillFromHost
  split
  · exact h
  · rename_i idle
    split
    · exact h
    · rename_i tag pool found
      have taken := Serves.take h found
      have free : s.port.out.read = none := by
        have zero := (Serves.tracked h).read
        rw [OutEp.Tracked, not_ne_iff.mp idle] at zero
        cases read : s.port.out.read with
        | none => rfl
        | some tag =>
          rw [read] at zero
          cases zero
      split
      · refine Serves.rests (taken.setOut ?_ fun x => ?_)
        · exact rfl
        · simp only [OutEp.held, free, List.count_append, Option.toList_some, Option.toList_none,
            List.count_cons, List.count_nil]
          omega
      · -- the buffer goes back before `in_progress` does
        obtain ⟨pool', freed, holds⟩ := ((Serves.pool h).tallocZero found).tallocFree
        simp only [Site.free, freed]
        refine ⟨rfl, holds, ⟨(Serves.tracked h).write, ?_⟩⟩
        simp [OutEp.Tracked, free]

theorem readDone (h : s.Rests others) (success : Bool) (bytes : List UInt8) (behind : Nat → UInt8) :
    Safely Stop.aside (·.Rests others) (s.readDone success bytes behind) := by
  unfold Site.readDone
  split
  · exact h
  · rename_i tag busy
    simp only
    split
    · refine Serves.rests (Serves.setOut h ?_ fun x => ?_)
      · exact rfl
      · simp only [OutEp.held, busy, Msgb.received, List.map_append, List.map_cons, List.map_nil,
          Option.toList_some, Option.toList_none, List.count_append, List.count_nil]
        omega
    · refine free (Serves.rests (Serves.setOut h ?_ fun x => ?_))
      · exact rfl
      · simp only [OutEp.held, busy, Option.toList_some, Option.toList_none, List.count_append,
          List.count_cons, List.count_nil]
        omega

/-- What happens at a slot keeps its buffers, but for a zero-length packet that is refused. -/
theorem step (h : s.Rests others) (input : PortInput) (taken : ¬s.port.ZlpRefused input) :
    Safely Stop.aside (·.Rests others) (s.step input) := by
  cases input with
  | pins vccActive rstActive => exact h.slot _ rfl
  | rxByte byte => exact h.rxByte byte
  | irqTx =>
    change Safely Stop.aside _ (s.call fun d => { d with slot.inst := d.slot.inst.usartIrqTx })
    refine call [] h fun x => ?_
    rw [List.count_nil, Nat.add_zero]
    exact s.port.dev.quiet.slot.inst.stock_irqTx x
  | wtimeExpired =>
    exact call [] h fun x => (Emu.SameBuffers.wtimeExpired s.port.dev.quiet.emu).stock x
  | wtimeHalfExpired =>
    exact call [] h fun x => (Emu.SameBuffers.wtimeHalfExpired s.port.dev.quiet.emu).stock x
  | ioStatechg => exact h.processIoStatechg
  | usbCommand behind => exact h.processUsbCommand behind
  | refillToHost k accepted => exact h.refillToHost k accepted
  | writeDone k transferred accepted => exact h.writeDone taken
  | refillFromHost accepted => exact h.refillFromHost accepted
  | readDone success bytes behind => exact h.readDone success bytes behind

end Rests

end Site

namespace Firmware

def held (fw : Firmware) : List Nat := fw.ports.flatMap Port.held

/-- Every slot of the pool in use is held in one place and every slot held is in use, and
an end-point is in progress when the driver has a transfer on it. -/
structure Owned (fw : Firmware) : Prop where
  once : HeldOnce fw.pool fw.held
  writes : ∀ p ∈ fw.ports, ∀ k, (p.ep k).inProgress ≠ 0 ↔ (p.ep k).write.isSome
  reads : ∀ p ∈ fw.ports, p.out.inProgress ≠ 0 ↔ p.out.read.isSome

structure Ready (fw : Firmware) : Prop where
  pool : fw.pool.Holds fw.held
  tracked : ∀ p ∈ fw.ports, p.Tracked

namespace Ready
variable {fw : Firmware}

theorem owned (h : fw.Ready) : fw.Owned where
  once := h.pool.once
  writes := fun p member k => ((h.tracked p member).write k).iff
  reads := fun p member => (h.tracked p member).read.iff

/-- One slot is served, the others hold what they hold. -/
theorem rests (h : fw.Ready) {i : Nat} {port : Port} (found : fw.ports[i]? = some port) :
    Site.Rests ⟨fw.pool, port⟩ ((fw.ports.eraseIdx i).flatMap Port.held) := by
  obtain ⟨small, rfl⟩ := List.getElem?_eq_some_iff.mp found
  refine ⟨rfl, h.pool.congr fun x => ?_, h.tracked _ (List.getElem_mem small)⟩
  have apart := ((List.getElem_cons_eraseIdx_perm small).flatMap_right Port.held).count_eq x
  rw [held, ← apart, List.flatMap_cons, Port.held]
  simp only [List.append_assoc]

theorem of_rests (h : fw.Ready) {i : Nat} (small : i < fw.ports.length) {s : Site}
    (rests : s.Rests ((fw.ports.eraseIdx i).flatMap Port.held)) :
    Firmware.Ready ⟨s.pool, fw.ports.set i s.port⟩ := by
  refine ⟨Pool.Holds.congr (Site.Serves.pool rests) fun x => ?_, fun p member => ?_⟩
  · have small' : i < (fw.ports.set i s.port).length := by rwa [List.length_set]
    have apart := ((List.getElem_cons_eraseIdx_perm small').flatMap_right Port.held).count_eq x
    rw [held, ← apart, List.flatMap_cons, Port.held, List.getElem_set_self, List.eraseIdx_set_eq]
    simp only [List.append_assoc]
  · obtain member | rfl := List.mem_or_eq_of_mem_set member
    · exact h.tracked p member
    · exact Site.Serves.tracked rests

theorem init (setups : List PortSetup) : (Firmware.init setups).Ready := by
  have nothing : (Firmware.init setups).held = [] := by
    rw [held, List.flatMap_eq_nil_iff]
    intro p member
    obtain ⟨setup, _, rfl⟩ := List.mem_map.mp member
    rfl
  refine ⟨?_, fun p member => ?_⟩
  · rw [nothing]
    exact Pool.Holds.empty
  · obtain ⟨setup, _, rfl⟩ := List.mem_map.mp member
    refine ⟨fun k => ?_, rfl⟩
    cases k <;> rfl

end Ready

/-- No write of a zero-length packet is refused. -/
def NoRefusedZlp (fw : Except Stop Firmware) (input : Nat × PortInput) : Prop :=
  ∀ fw', fw = .ok fw' → ∀ port, fw'.ports[input.1]? = some port → ¬port.ZlpRefused input.2

/-- The buffers are owned as long as the firmware runs, and it does not stop for freeing one
that is not in use. -/
def SystemOwned (fw : Except Stop Firmware) : Prop := Safely Stop.aside Owned fw

def SystemReady (fw : Except Stop Firmware) : Prop := Safely Stop.aside Ready fw

theorem step_ready {fw : Except Stop Firmware} (h : SystemReady fw) {input : Nat × PortInput}
    (taken : NoRefusedZlp fw input) : SystemReady (step fw input) := by
  cases fw with
  | error e => exact h
  | ok fw =>
    change SystemReady (fw.portStep input.1 input.2)
    unfold portStep
    split
    · exact h
    · rename_i port found
      have small : input.1 < fw.ports.length := (List.getElem?_eq_some_iff.mp found).1
      have stepped := (Ready.rests h found).step input.2 (taken fw rfl port found)
      exact stepped.map fun s rests => Ready.of_rests h small rests

/-- Where a zero-length packet has been refused the end-point is blocked. -/
theorem step_blocked {fw : Except Stop Firmware} (h : SystemReady fw) {input : Nat × PortInput}
    (owned : SystemOwned (step fw input)) : NoRefusedZlp fw input := by
  rintro fw rfl port found refused
  obtain ⟨i, input⟩ := input
  have small : i < fw.ports.length := (List.getElem?_eq_some_iff.mp found).1
  have member : port ∈ fw.ports := List.mem_of_getElem? found
  cases input with
  | writeDone k transferred accepted =>
    obtain ⟨busy, idle, none⟩ :=
      UsbBufferedEp.ZlpRefused.blocks ((h.tracked port member).write k) refused
    have stepped : step (.ok fw) (i, .writeDone k transferred accepted) =
        .ok ⟨fw.pool, fw.ports.set i (port.setEp k ({ port.ep k with done := [] }.complete
          (port.epSize k) transferred accepted))⟩ := by
      change fw.portStep i _ = _
      simp only [portStep, found, Site.step, Site.writeDone, none, List.map_nil, Site.freeAll]
      rfl
    rw [stepped] at owned
    have listed := (Owned.writes owned) _ (List.mem_set small _) k
    rw [Port.ep_setEp, busy, idle] at listed
    exact absurd (listed.mp Nat.one_ne_zero) Bool.false_ne_true
  | _ => exact refused

theorem buffers_owned_iff (setups : List PortSetup) (inputs : List (Nat × PortInput)) :
    Always step SystemOwned (.ok (init setups)) inputs ↔
      Meets step NoRefusedZlp (.ok (init setups)) inputs := by
  refine always_iff_meets_of_shown SystemReady ?_ ?_ ?_ ?_ inputs
  · intro fw input h taken
    exact step_ready h taken
  · intro fw h
    exact Safely.weaken h fun _ ready => ready.owned
  · intro fw input h owned
    exact step_blocked h owned
  · exact Ready.init setups

/-- One slot of a board with full-speed end-points. -/
def oneSlot : PortSetup where
  num := 0
  epIn := 5
  epInt := 6
  vccActive := false
  rstActive := false
  uart := CardSlot.quietUart
  pinInsert := .untouched .absent
  inverted := false
  mux := none
  pinsPerst := false
  epSize := fun _ => 64

def fromHost (msg : ApiMsg) : List PortInput :=
  [.refillFromHost true, .readDone true (msg.bytes 0) fun _ => 0, .usbCommand fun _ => 0]

/-- A reader sends a command with 50 bytes of data, which become a message of 64 bytes. -/
def fiftyBytes : List PortInput :=
  fromHost (.modemSimSelect 1) ++ [.pins true false, .ioStatechg, .wtimeExpired]
    ++ List.replicate 8 .irqTx ++ [0xa0, 0xa4, 0, 0, 50].map .rxByte
    ++ fromHost (.txData ⟨cemuDataFPbAndRx, [0xa4]⟩) ++ [.irqTx]
    ++ List.replicate 50 (.rxByte 0x11)
    ++ [.refillToHost .dataIn true, .writeDone .dataIn 19 true, .refillToHost .dataIn true]

def refusedRun : List (Nat × PortInput) :=
  (fiftyBytes ++ [PortInput.writeDone .dataIn 64 false]).map (0, ·)

/-- An end-point in progress without a write. -/
def blocked : Except Stop Firmware → Bool
  | .ok fw => fw.ports.any fun p => p.dataIn.inProgress != 0 && p.dataIn.write.isNone
  | .error _ => false

theorem blocked_not_owned {fw : Except Stop Firmware} (h : blocked fw = true) : ¬SystemOwned fw := by
  cases fw with
  | error e => cases h
  | ok fw =>
    intro owned
    obtain ⟨p, member, stuck⟩ := List.any_eq_true.mp h
    simp only [Bool.and_eq_true, bne_iff_ne, Option.isNone_iff_eq_none] at stuck
    have listed := (Owned.writes owned p member .dataIn).mp stuck.1
    rw [Port.ep, stuck.2] at listed
    cases listed

/-- The message has been sent, its zero-length packet is refused, and its buffer is lost. -/
theorem refused_zlp_blocks : ¬Always step SystemOwned (.ok (init [oneSlot])) refusedRun := by
  intro h
  have lost : blocked (run step (.ok (init [oneSlot])) refusedRun) = true := by decide +kernel
  exact blocked_not_owned lost (h refusedRun (List.prefix_refl _))

end Firmware

end Simtrace2
