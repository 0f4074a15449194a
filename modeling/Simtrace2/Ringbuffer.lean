import Mathlib.Data.List.Iterate
import Simtrace2.Lib.Fifo
import Simtrace2.Sniffer.Process

/-! The ring buffers of `ringbuffer.c`, which carry all bytes between the interrupt
handlers and the main loops. The two of them differ in the item type and the length only.
Each is a bounded queue: one cell stays free, so that equal indices mean empty. -/
namespace Simtrace2
open Lib

def ringBuflen : Nat := 1024

structure Ring (α : Type) (len : Nat) where
  buf : Vector α len
  ird : Nat
  iwr : Nat

namespace Ring
variable {α : Type} [Inhabited α] {len : Nat}

def reset (rb : Ring α len) : Ring α len := { rb with ird := 0, iwr := 0 }

/-- The source has no bound on the index; a cell outside the buffer never counts. -/
def peek (rb : Ring α len) : α := (rb.buf[rb.ird]?).getD default

def read (rb : Ring α len) : α × Ring α len :=
  (rb.peek, { rb with ird := (rb.ird + 1) % len })

def isEmpty (rb : Ring α len) : Bool := rb.ird == rb.iwr

def isFull (rb : Ring α len) : Bool := rb.ird == (rb.iwr + 1) % len

def write (rb : Ring α len) (item : α) : Int × Ring α len :=
  if !rb.isFull then
    (0, { rb with buf := rb.buf.setIfInBounds rb.iwr item, iwr := (rb.iwr + 1) % len })
  else (-1, rb)

end Ring

abbrev Ringbuf := Ring UInt8 ringBuflen
abbrev Ringbuf16 := Ring UInt16 ring16Buflen

namespace Ringbuf

def rbufReset (rb : Ringbuf) : Ringbuf := rb.reset
def rbufRead (rb : Ringbuf) : UInt8 × Ringbuf := rb.read
def rbufPeek (rb : Ringbuf) : UInt8 := rb.peek
def rbufIsEmpty (rb : Ringbuf) : Bool := rb.isEmpty
def rbufIsFull (rb : Ringbuf) : Bool := rb.isFull
def rbufWrite (rb : Ringbuf) (item : UInt8) : Int × Ringbuf := rb.write item

/-- What a call leaves of the buffer. -/
def step (rb : Ringbuf) : QueueCall UInt8 → Ringbuf
  | .write item => (rb.rbufWrite item).2
  | .read => rb.rbufRead.2
  | .reset => rb.rbufReset
  | .peek | .isEmpty | .isFull => rb

def answer (rb : Ringbuf) : QueueCall UInt8 → QueueAnswer UInt8
  | .write item => .rc (rb.rbufWrite item).1
  | .read => .item rb.rbufRead.1
  | .peek => .item rb.rbufPeek
  | .isEmpty => .flag rb.rbufIsEmpty
  | .isFull => .flag rb.rbufIsFull
  | .reset => .done

end Ringbuf

namespace Ringbuf16

def rbuf16Reset (rb : Ringbuf16) : Ringbuf16 := rb.reset
def rbuf16Read (rb : Ringbuf16) : UInt16 × Ringbuf16 := rb.read
def rbuf16Peek (rb : Ringbuf16) : UInt16 := rb.peek
def rbuf16IsEmpty (rb : Ringbuf16) : Bool := rb.isEmpty
def rbuf16IsFull (rb : Ringbuf16) : Bool := rb.isFull
def rbuf16Write (rb : Ringbuf16) (item : UInt16) : Int × Ringbuf16 := rb.write item

def step (rb : Ringbuf16) : QueueCall UInt16 → Ringbuf16
  | .write item => (rb.rbuf16Write item).2
  | .read => rb.rbuf16Read.2
  | .reset => rb.rbuf16Reset
  | .peek | .isEmpty | .isFull => rb

def answer (rb : Ringbuf16) : QueueCall UInt16 → QueueAnswer UInt16
  | .write item => .rc (rb.rbuf16Write item).1
  | .read => .item rb.rbuf16Read.1
  | .peek => .item rb.rbuf16Peek
  | .isEmpty => .flag rb.rbuf16IsEmpty
  | .isFull => .flag rb.rbuf16IsFull
  | .reset => .done

end Ringbuf16

namespace Ring
variable {α : Type} [Inhabited α] {len : Nat} {rb : Ring α len} {q : List α}

def cell (rb : Ring α len) (i : Nat) : α := (rb.buf[i]?).getD default

/-- The buffer holds the items of `q`, from its read index up to its write index. -/
structure Represents (rb : Ring α len) (q : List α) : Prop where
  ird : rb.ird < len
  room : q.length < len
  iwr : rb.iwr = (rb.ird + q.length) % len
  items : circular len rb.cell rb.ird q.length = q

namespace Represents

theorem iwr_lt (h : Represents rb q) : rb.iwr < len := by
  rw [h.iwr]
  exact Nat.mod_lt _ (by have := h.ird; omega)

theorem isEmpty (h : Represents rb q) : rb.isEmpty = decide (q = []) := by
  have meets := circular_meets h.ird h.room.le
  rw [← h.iwr] at meets
  have empty : q.length = 0 ↔ q = [] := List.length_eq_zero_iff
  have room := h.room
  rw [Ring.isEmpty, Bool.eq_iff_iff, beq_iff_eq, decide_eq_true_iff, meets, ← empty]
  omega

theorem isFull (h : Represents rb q) : rb.isFull = decide (q.length = len - 1) := by
  have meets := circular_meets h.ird (Nat.succ_le_of_lt h.room)
  have next : (rb.iwr + 1) % len = (rb.ird + (q.length + 1)) % len := by
    rw [h.iwr, Nat.mod_add_mod, Nat.add_assoc]
  have room := h.room
  rw [Ring.isFull, Bool.eq_iff_iff, beq_iff_eq, decide_eq_true_iff, next]
  refine meets.trans ?_
  omega

theorem peek (h : Represents rb q) {x : α} (front : q.head? = some x) : rb.peek = x := by
  cases q with
  | nil => cases front
  | cons y rest =>
    have items := h.items
    rw [List.length_cons, circular, Nat.mod_eq_of_lt h.ird] at items
    injection items with first _
    injection front with same
    exact first.trans same

theorem reset (h : 0 < len) : Represents rb.reset [] where
  ird := h
  room := h
  iwr := (Nat.zero_mod len).symm
  items := rfl

theorem read (h : Represents rb q) (filled : q ≠ []) : Represents rb.read.2 q.tail := by
  obtain ⟨x, rest, rfl⟩ := List.exists_cons_of_ne_nil filled
  have some : 0 < len := by have := h.ird; omega
  constructor
  · exact Nat.mod_lt _ some
  · exact (Nat.lt_succ_self _).trans h.room
  · have iwr := h.iwr
    rw [List.length_cons] at iwr
    show rb.iwr = ((rb.ird + 1) % len + rest.length) % len
    rw [iwr, Nat.mod_add_mod, Nat.add_assoc, Nat.add_comm 1]
  · have items := h.items
    rw [List.length_cons, circular] at items
    injection items with _ behind
    show circular len rb.cell ((rb.ird + 1) % len) rest.length = rest
    rw [circular_mod]
    exact behind

theorem write (h : Represents rb q) (item : α) :
    rb.write item = (if q.length < len - 1 then 0 else -1, (rb.write item).2) ∧
      Represents (rb.write item).2 (if q.length < len - 1 then q ++ [item] else q) := by
  have room := h.room
  by_cases free : q.length < len - 1
  · have notFull : rb.isFull = false := by
      rw [h.isFull]
      exact decide_eq_false (by omega)
    simp only [Ring.write, notFull, Bool.not_false, if_true, if_pos free, true_and]
    constructor
    · exact h.ird
    · rw [List.length_append, List.length_singleton]
      omega
    · show (rb.iwr + 1) % len = (rb.ird + (q ++ [item]).length) % len
      rw [h.iwr, Nat.mod_add_mod, List.length_append, List.length_singleton, Nat.add_assoc]
    · rw [List.length_append, List.length_singleton]
      refine (circular_write room ?_ ?_).trans (by rw [h.items])
      · simp [Ring.cell, ← h.iwr, h.iwr_lt]
      · intro i _ other
        have apart : rb.iwr ≠ i := fun e => other (by rw [← h.iwr, e])
        simp [Ring.cell, apart]
  · have full : rb.isFull = true := by
      rw [h.isFull]
      exact decide_eq_true (by omega)
    simp only [Ring.write, full, Bool.not_true, Bool.false_eq_true, if_false, if_neg free, true_and]
    exact h

end Represents

variable {step : Ring α len → QueueCall α → Ring α len}
  {answer : Ring α len → QueueCall α → QueueAnswer α}

/-- The functions of a ring buffer, in a table: what each call leaves, and what it answers. -/
structure Calls (step : Ring α len → QueueCall α → Ring α len)
    (answer : Ring α len → QueueCall α → QueueAnswer α) : Prop where
  write : ∀ rb x, step rb (.write x) = (rb.write x).2 ∧ answer rb (.write x) = .rc (rb.write x).1
  read : ∀ rb, step rb .read = rb.read.2 ∧ answer rb .read = .item rb.peek
  peek : ∀ rb, step rb .peek = rb ∧ answer rb .peek = .item rb.peek
  isEmpty : ∀ rb, step rb .isEmpty = rb ∧ answer rb .isEmpty = .flag rb.isEmpty
  isFull : ∀ rb, step rb .isFull = rb ∧ answer rb .isFull = .flag rb.isFull
  reset : ∀ rb, step rb .reset = rb.reset ∧ answer rb .reset = .done

theorem Calls.implements (calls : Calls step answer) :
    ImplementsFifo step answer (len - 1) Represents := by
  constructor
  · intro rb q c holds filled
    have some : 0 < len := (Nat.zero_le _).trans_lt holds.ird
    cases c with
    | write x =>
      rw [(calls.write rb x).1]
      exact (holds.write x).2
    | read =>
      rw [(calls.read rb).1]
      exact holds.read (filled rfl)
    | reset =>
      rw [(calls.reset rb).1]
      exact Represents.reset some
    | peek => rwa [(calls.peek rb).1]
    | isEmpty => rwa [(calls.isEmpty rb).1]
    | isFull => rwa [(calls.isFull rb).1]
  · intro rb q c holds filled
    cases c with
    | write x =>
      rw [FifoAnswers, (calls.write rb x).2, (holds.write x).1]
    | read =>
      intro x front
      rw [(calls.read rb).2, holds.peek front]
    | peek =>
      intro x front
      rw [(calls.peek rb).2, holds.peek front]
    | isEmpty => rw [FifoAnswers, (calls.isEmpty rb).2, holds.isEmpty]
    | isFull => rw [FifoAnswers, (calls.isFull rb).2, holds.isFull]
    | reset => exact (calls.reset rb).2
  · intro rb q holds
    exact Nat.le_sub_one_of_lt holds.room

/-- After the calls the buffer is the queue they make of an empty one, answers the next
call as that queue does, and no item was lost or doubled on the way. -/
structure BehavesAsFifo (step : Ring α len → QueueCall α → Ring α len)
    (answer : Ring α len → QueueCall α → QueueAnswer α) (rb : Ring α len)
    (calls : List (QueueCall α)) : Prop where
  holds : (run step rb calls).Represents (run (fifo (len - 1)) [] calls)
  bounded : (run (fifo (len - 1)) [] calls).length ≤ len - 1
  answers : ∀ c, ReadsFilled answer (run step rb calls) c →
    FifoAnswers (len - 1) (run (fifo (len - 1)) [] calls) c (answer (run step rb calls) c)
  refused : ∀ x, answer (run step rb calls) (.write x) = .rc (-1) →
    step (run step rb calls) (.write x) = run step rb calls
  inOrder : .reset ∉ calls → trace step (fun rb c => accepted c (answer rb c)) rb calls =
    trace step (fun rb c => taken c (answer rb c)) rb calls ++ run (fifo (len - 1)) [] calls
  indices : (run step rb calls).ird < len ∧ (run step rb calls).iwr < len

omit [Inhabited α] in
theorem write_refused {x : α} (h : (rb.write x).1 = -1) : (rb.write x).2 = rb := by
  cases full : rb.isFull with
  | false => simp [Ring.write, full] at h
  | true => simp [Ring.write, full]

theorem Calls.behaves (calls : Calls step answer) {rb : Ring α len} (start : rb.Represents [])
    {cs : List (QueueCall α)} (meets : Meets step (ReadsFilled answer) rb cs) :
    BehavesAsFifo step answer rb cs := by
  have holds := calls.implements.run start meets
  constructor
  · exact holds
  · exact calls.implements.bounded holds
  · intro c reads
    exact calls.implements.answer holds (calls.implements.filled holds reads)
  · intro x no
    rw [(calls.write _ x).2] at no
    injection no with no
    rw [(calls.write _ x).1]
    exact write_refused no
  · intro calm
    exact calls.implements.conserves start meets calm
  · exact ⟨holds.ird, holds.iwr_lt⟩

end Ring

theorem Ringbuf.calls : Ring.Calls Ringbuf.step Ringbuf.answer where
  write _ _ := ⟨rfl, rfl⟩
  read _ := ⟨rfl, rfl⟩
  peek _ := ⟨rfl, rfl⟩
  isEmpty _ := ⟨rfl, rfl⟩
  isFull _ := ⟨rfl, rfl⟩
  reset _ := ⟨rfl, rfl⟩

theorem Ringbuf16.calls : Ring.Calls Ringbuf16.step Ringbuf16.answer where
  write _ _ := ⟨rfl, rfl⟩
  read _ := ⟨rfl, rfl⟩
  peek _ := ⟨rfl, rfl⟩
  isEmpty _ := ⟨rfl, rfl⟩
  isFull _ := ⟨rfl, rfl⟩
  reset _ := ⟨rfl, rfl⟩

theorem Ringbuf.rbufReset_empty (rb : Ringbuf) : Ring.Represents rb.rbufReset [] :=
  Ring.Represents.reset (by decide)

theorem Ringbuf16.rbuf16Reset_empty (rb : Ringbuf16) : Ring.Represents rb.rbuf16Reset [] :=
  Ring.Represents.reset (by decide)

/-- From a reset on both buffers are bounded queues, whatever lay in them before. -/
theorem ring_buffers_are_queues :
    (∀ (rb : Ringbuf) (calls : List (QueueCall UInt8)),
      Meets Ringbuf.step (ReadsFilled Ringbuf.answer) rb.rbufReset calls →
        Ring.BehavesAsFifo Ringbuf.step Ringbuf.answer rb.rbufReset calls) ∧
    ∀ (rb : Ringbuf16) (calls : List (QueueCall UInt16)),
      Meets Ringbuf16.step (ReadsFilled Ringbuf16.answer) rb.rbuf16Reset calls →
        Ring.BehavesAsFifo Ringbuf16.step Ringbuf16.answer rb.rbuf16Reset calls := by
  constructor
  · intro rb calls meets
    exact Ringbuf.calls.behaves rb.rbufReset_empty meets
  · intro rb calls meets
    exact Ringbuf16.calls.behaves rb.rbuf16Reset_empty meets

/-- Two of the items are taken out again, and the write behind them runs around the end. -/
def fillAndWrap {α : Type} (items : List α) (last : α) : List (QueueCall α) :=
  items.map .write ++ [.read, .read, .write last]

theorem fillAndWrap_filled {α : Type} {capacity : Nat} (two : 2 ≤ capacity) {items : List α}
    (many : 2 ≤ items.length) (last : α) :
    Meets (fifo capacity) (fun q c => c = .read → q ≠ []) [] (fillAndWrap items last) := by
  have filled : 2 ≤ (items.take capacity).length := by
    rw [List.length_take]
    omega
  refine (meets_append _ _ _).mpr ⟨?_, ?_⟩
  · have writes : ∀ c ∈ items.map QueueCall.write, c ≠ .read := by simp
    apply Meets.of_keeps (fun _ => True) _ trivial (Meets.of_inputs writes)
    intro _ _ _ other
    exact ⟨trivial, fun read => absurd read other⟩
  · rw [run_fifo_writes (Nat.zero_le _), List.nil_append]
    obtain ⟨x, y, rest, e⟩ : ∃ x y rest, items.take capacity = x :: y :: rest := by
      match h : items.take capacity with
      | x :: y :: rest => exact ⟨x, y, rest, rfl⟩
      | [x] | [] => simp [h] at filled
    rw [e]
    exact ⟨by simp, by simp [fifo], by simp, trivial⟩

theorem ring_buffers_are_queues_full :
    Ring.BehavesAsFifo Ringbuf.step Ringbuf.answer
        (Ringbuf.rbufReset ⟨Vector.replicate ringBuflen 0, 3, 5⟩)
        (fillAndWrap (List.iterate (· + 1) 0 ringBuflen) 7) ∧
      Ring.BehavesAsFifo Ringbuf16.step Ringbuf16.answer
        (Ringbuf16.rbuf16Reset ⟨Vector.replicate ring16Buflen 0, 3, 5⟩)
        (fillAndWrap (List.iterate (· + 1) 0 ring16Buflen) 7) := by
  constructor
  · apply ring_buffers_are_queues.1
    apply Ringbuf.calls.implements.readsFilled (Ringbuf.rbufReset_empty _)
    exact fillAndWrap_filled (by decide) (by rw [List.length_iterate]; decide) 7
  · apply ring_buffers_are_queues.2
    apply Ringbuf16.calls.implements.readsFilled (Ringbuf16.rbuf16Reset_empty _)
    exact fillAndWrap_filled (by decide) (by rw [List.length_iterate]; decide) 7

/-- The list that the sniffer's model keeps for its ring is what the ring represents, and
stays so when the interrupt handler writes and when the main loop reads. -/
theorem sniffBuffer_represented {rb : Ringbuf16} {s : Sniffer} (h : rb.Represents s.sniffBuffer) :
    (∀ entry, (rb.rbuf16Write entry).2.Represents (s.rbuf16Write entry).sniffBuffer) ∧
      ∀ entry rest, s.sniffBuffer = entry :: rest →
        rb.rbuf16Read.1 = entry ∧ rb.rbuf16Read.2.Represents rest := by
  constructor
  · intro entry
    have written := (h.write entry).2
    by_cases room : s.sniffBuffer.length + 1 < ring16Buflen
    · rw [if_pos (by omega)] at written
      rwa [Sniffer.rbuf16Write, if_pos room]
    · rw [if_neg (by omega)] at written
      rwa [Sniffer.rbuf16Write, if_neg room]
  · intro entry rest filled
    have left := h.read (by rw [filled]; exact List.cons_ne_nil entry rest)
    rw [filled] at left
    exact ⟨h.peek (by rw [filled]; rfl), left⟩

end Simtrace2
