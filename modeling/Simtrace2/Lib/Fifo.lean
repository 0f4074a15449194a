import Mathlib.Data.Nat.ModEq
import Simtrace2.Lib.Run

/-! A bounded first-in first-out queue as a machine that is driven by calls, what it means
that an implementation is one, and the circular arrays that usually implement it: the
items lie in the cells from a first index on, modulo the number of cells. -/
namespace Simtrace2.Lib

inductive QueueCall (α : Type*) where
  | write (item : α)
  | read
  | peek
  | isEmpty
  | isFull
  | reset
  deriving DecidableEq

inductive QueueAnswer (α : Type*) where
  | done
  | rc (code : Int)
  | item (item : α)
  | flag (holds : Bool)
  deriving DecidableEq

section queue
variable {α S : Type*} {capacity : Nat}

/-- What a call leaves of the queue. -/
def fifo (capacity : Nat) (q : List α) : QueueCall α → List α
  | .write x => if q.length < capacity then q ++ [x] else q
  | .read => q.tail
  | .reset => []
  | .peek | .isEmpty | .isFull => q

/-- What a queue answers; an empty one promises nothing about its front. -/
def FifoAnswers (capacity : Nat) (q : List α) : QueueCall α → QueueAnswer α → Prop
  | .write _, a => a = .rc (if q.length < capacity then 0 else -1)
  | .read, a | .peek, a => ∀ x, q.head? = some x → a = .item x
  | .isEmpty, a => a = .flag (decide (q = []))
  | .isFull, a => a = .flag (decide (q.length = capacity))
  | .reset, a => a = .done

/-- The items a call has put into the queue, by its answer. -/
def accepted : QueueCall α → QueueAnswer α → List α
  | .write x, .rc 0 => [x]
  | _, _ => []

/-- The items a call has taken out of the queue, by its answer. -/
def taken : QueueCall α → QueueAnswer α → List α
  | .read, .item x => [x]
  | _, _ => []

/-- Nothing is lost and nothing doubled by a call other than a reset. -/
theorem fifo_conserves {q : List α} {c : QueueCall α} {a : QueueAnswer α}
    (answered : FifoAnswers capacity q c a) (calm : c ≠ .reset) (filled : c = .read → q ≠ []) :
    q ++ accepted c a = taken c a ++ fifo capacity q c := by
  cases c with
  | write x =>
    rw [FifoAnswers] at answered
    by_cases room : q.length < capacity
    · simp [answered, room, accepted, taken, fifo]
    · simp [answered, room, accepted, taken, fifo]
  | read =>
    obtain ⟨x, rest, rfl⟩ := List.exists_cons_of_ne_nil (filled rfl)
    rw [answered x rfl]
    simp [accepted, taken, fifo]
  | reset => exact absurd rfl calm
  | peek | isEmpty | isFull => simp [accepted, taken, fifo]

/-- A queue that is only written to keeps the items that came first. -/
theorem run_fifo_writes {q : List α} (fits : q.length ≤ capacity) (xs : List α) :
    run (fifo capacity) q (xs.map .write) = (q ++ xs).take capacity := by
  induction xs generalizing q with
  | nil =>
    rw [List.map_nil, List.append_nil, List.take_of_length_le fits]
    rfl
  | cons x xs ih =>
    rw [List.map_cons, run, fifo]
    by_cases room : q.length < capacity
    · rw [if_pos room, ih (by simp; omega), List.append_assoc]
      rfl
    · rw [if_neg room, ih fits, List.take_append_of_le_length (by omega),
        List.take_append_of_le_length (by omega)]

/-- `holds s q`: in state `s` the implementation is the queue `q`. A queue that is empty
need not be read. -/
structure ImplementsFifo (step : S → QueueCall α → S) (answer : S → QueueCall α → QueueAnswer α)
    (capacity : Nat) (holds : S → List α → Prop) : Prop where
  step : ∀ {s q c}, holds s q → (c = .read → q ≠ []) → holds (step s c) (fifo capacity q c)
  answer : ∀ {s q c}, holds s q → (c = .read → q ≠ []) → FifoAnswers capacity q c (answer s c)
  bounded : ∀ {s q}, holds s q → q.length ≤ capacity

/-- The implementation reads only where it does not answer that it is empty. -/
def ReadsFilled (answer : S → QueueCall α → QueueAnswer α) (s : S) (c : QueueCall α) : Prop :=
  c = .read → answer s .isEmpty = .flag false

namespace ImplementsFifo
variable {step : S → QueueCall α → S} {answer : S → QueueCall α → QueueAnswer α}
  {holds : S → List α → Prop}

theorem filled (h : ImplementsFifo step answer capacity holds) {s : S} {q : List α}
    (now : holds s q) {c : QueueCall α} (reads : ReadsFilled answer s c) : c = .read → q ≠ [] := by
  intro read
  have tells : answer s .isEmpty = .flag (decide (q = [])) :=
    h.answer (c := .isEmpty) now (fun e => by cases e)
  rw [reads read] at tells
  injection tells with tells
  exact of_decide_eq_false tells.symm

/-- Whether the calls read at the right times can be seen from the queue. -/
theorem readsFilled (h : ImplementsFifo step answer capacity holds) {s : S} {q : List α}
    (start : holds s q) {calls : List (QueueCall α)}
    (meets : Meets (fifo capacity) (fun q c => c = .read → q ≠ []) q calls) :
    Meets step (ReadsFilled answer) s calls := by
  induction calls generalizing s q with
  | nil => trivial
  | cons c calls ih =>
    refine ⟨fun read => ?_, ih (h.step start meets.1) meets.2⟩
    have tells : answer s .isEmpty = .flag (decide (q = [])) :=
      h.answer (c := .isEmpty) start (fun e => by cases e)
    rw [tells, decide_eq_false (meets.1 read)]

theorem run (h : ImplementsFifo step answer capacity holds) {s : S} {q : List α} (start : holds s q)
    {calls : List (QueueCall α)} (meets : Meets step (ReadsFilled answer) s calls) :
    holds (Lib.run step s calls) (Lib.run (fifo capacity) q calls) := by
  induction calls generalizing s q with
  | nil => exact start
  | cons c calls ih => exact ih (h.step start (h.filled start meets.1)) meets.2

/-- Over a run without a reset the items taken out and those that are left are, in order,
those that were there and those put in. -/
theorem conserves (h : ImplementsFifo step answer capacity holds) {s : S} {q : List α}
    (start : holds s q) {calls : List (QueueCall α)}
    (meets : Meets step (ReadsFilled answer) s calls) (calm : .reset ∉ calls) :
    q ++ trace step (fun s c => accepted c (answer s c)) s calls =
      trace step (fun s c => taken c (answer s c)) s calls ++ Lib.run (fifo capacity) q calls := by
  induction calls generalizing s q with
  | nil => exact (List.append_nil q)
  | cons c calls ih =>
    have filled : c = .read → q ≠ [] := h.filled start meets.1
    have here := fifo_conserves (h.answer start filled)
      (fun e => calm (e ▸ List.mem_cons_self)) filled
    have later := ih (h.step start filled) meets.2 (fun e => calm (List.mem_cons_of_mem c e))
    rw [trace, ← List.append_assoc, here, List.append_assoc, later, trace, List.append_assoc,
      Lib.run]

end ImplementsFifo
end queue

section circular
variable {α : Type*} {n : Nat}

/-- The `count` items from the cell `start` on. -/
def circular (n : Nat) (cell : Nat → α) (start : Nat) : Nat → List α
  | 0 => []
  | count + 1 => cell (start % n) :: circular n cell (start + 1) count

@[simp] theorem circular_length (cell : Nat → α) (start count : Nat) :
    (circular n cell start count).length = count := by
  induction count generalizing start with
  | zero => rfl
  | succ count ih => rw [circular, List.length_cons, ih]

theorem circular_mod (cell : Nat → α) (start count : Nat) :
    circular n cell (start % n) count = circular n cell start count := by
  induction count generalizing start with
  | zero => rfl
  | succ count ih =>
    rw [circular, circular, Nat.mod_mod, ← ih (start % n + 1), ← ih (start + 1), Nat.mod_add_mod]

theorem circular_congr {cell cell' : Nat → α} {start count : Nat}
    (same : ∀ k < count, cell ((start + k) % n) = cell' ((start + k) % n)) :
    circular n cell start count = circular n cell' start count := by
  induction count generalizing start with
  | zero => rfl
  | succ count ih =>
    rw [circular, circular, ih]
    · have first := same 0 (Nat.succ_pos count)
      rw [Nat.add_zero] at first
      rw [first]
    · intro k less
      have later := same (k + 1) (Nat.succ_lt_succ less)
      rwa [Nat.add_comm k 1, ← Nat.add_assoc] at later

theorem circular_succ (cell : Nat → α) (start count : Nat) :
    circular n cell start (count + 1) =
      circular n cell start count ++ [cell ((start + count) % n)] := by
  induction count generalizing start with
  | zero => rfl
  | succ count ih =>
    rw [circular, ih, circular, List.cons_append, Nat.add_right_comm, Nat.add_assoc]

/-- Two cells less than a revolution apart are different. -/
theorem circular_apart {start k l : Nat} (less : k < l) (whole : l < n) :
    (start + k) % n ≠ (start + l) % n := by
  intro same
  have congruent : k ≡ l [MOD n] := Nat.ModEq.add_left_cancel' start same
  have equal : k = l := Nat.ModEq.eq_of_lt_of_lt congruent (less.trans whole) whole
  omega

/-- Writing the first free cell appends an item. -/
theorem circular_write {cell cell' : Nat → α} {start count : Nat} {x : α} (room : count < n)
    (written : cell' ((start + count) % n) = x)
    (kept : ∀ i < n, i ≠ (start + count) % n → cell' i = cell i) :
    circular n cell' start (count + 1) = circular n cell start count ++ [x] := by
  rw [circular_succ, written, circular_congr]
  intro k less
  exact kept _ (Nat.mod_lt _ (by omega)) (circular_apart less room)

/-- The first free cell is the first one exactly if no cell is taken, or all are. -/
theorem circular_meets {start count : Nat} (inside : start < n) (most : count ≤ n) :
    start = (start + count) % n ↔ count = 0 ∨ count = n := by
  constructor
  · intro same
    have wrapped : (start + 0) % n = (start + count) % n := by
      rw [Nat.add_zero, Nat.mod_eq_of_lt inside]
      exact same
    by_contra other
    exact circular_apart (by omega) (by omega) wrapped
  · rintro (rfl | rfl)
    · rw [Nat.add_zero, Nat.mod_eq_of_lt inside]
    · rw [Nat.add_mod_right, Nat.mod_eq_of_lt inside]

end circular
end Simtrace2.Lib
