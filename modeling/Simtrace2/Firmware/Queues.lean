import Mathlib.Data.Fintype.Basic
import Simtrace2.Lib.Circle

/-! The queues of the firmware as they lie in its memory (`linuxlist.h`, `llist_irqsafe.h`, `msgb.c`).
The main loop and the interrupts change them, and an interrupt may come between two writes of the main
loop's. -/
namespace Simtrace2
open Lib

def llistPoison1 : Nat := 0x00100100

def llistPoison2 : Nat := 0x00200200

/-- `INIT_LLIST_HEAD` -/
def initLlistHead (ptr : Nat) : List (LinkWrite Nat) := [.next ptr ptr, .prev ptr ptr]

def llistAdd (l : Links Nat) (new head : Nat) : List (LinkWrite Nat) :=
  addBetween new head (l.next head)

def llistAddTail (l : Links Nat) (new head : Nat) : List (LinkWrite Nat) :=
  addBetween new (l.prev head) head

def llistDel (l : Links Nat) (entry : Nat) : List (LinkWrite Nat) :=
  delBetween (l.prev entry) (l.next entry) ++ [.next entry llistPoison1, .prev entry llistPoison2]

def llistEmpty (l : Links Nat) (head : Nat) : Bool := l.next head == head

/-- `msgb_dequeue`: what it writes, and the message. The header of a list is the first field of a
message, at the address of which it lies. -/
def msgbDequeue (l : Links Nat) (queue : Nat) : List (LinkWrite Nat) × Option Nat :=
  if llistEmpty l queue then ([], none)
  else
    let lh := l.next queue
    if lh ≠ 0 then (llistDel l lh, some lh) else ([], none)

/-- `msgb_enqueue`, `llist_add` and `msgb_dequeue` -/
inductive QueueOp where
  | enqueue (msg : Nat)
  | push (msg : Nat)
  | dequeue
deriving DecidableEq, Repr

namespace QueueOp

def writes (l : Links Nat) (queue : Nat) : QueueOp → List (LinkWrite Nat) × Option Nat
  | enqueue msg => (llistAddTail l msg queue, none)
  | push msg => (llistAdd l msg queue, none)
  | dequeue => msgbDequeue l queue

/-- What the operation is for. -/
def apply : QueueOp → List Nat → List Nat × Option Nat
  | enqueue msg, q => (q ++ [msg], none)
  | push msg, q => (msg :: q, none)
  | dequeue, [] => ([], none)
  | dequeue, msg :: q => (q, some msg)

def msg : QueueOp → Option Nat
  | enqueue msg => some msg
  | push msg => some msg
  | dequeue => none

end QueueOp

/-- The memory, what the main loop has still to write for the operation that it is in, and what all
operations have taken. -/
structure QueueMem (Q : Type*) where
  links : Links Nat
  pending : List (LinkWrite Nat)
  taken : List (Q × Option Nat)

/-- An operation of the main loop with the interrupts enabled begins (it has read what it needs) and
goes on by a write; one with the interrupts disabled and one of an interrupt are done at once. -/
inductive QueueInput (Q : Type*) where
  | plain (i : Q) (op : QueueOp)
  | write
  | locked (i : Q) (op : QueueOp)
  | irq (i : Q) (op : QueueOp)

namespace QueueMem
variable {Q : Type*} (head : Q → Nat)

def atOnce (s : QueueMem Q) (i : Q) (op : QueueOp) : QueueMem Q :=
  let (ws, msg) := op.writes s.links (head i)
  { s with links := run Links.write s.links ws, taken := s.taken ++ [(i, msg)] }

def step (s : QueueMem Q) : QueueInput Q → QueueMem Q
  | .plain i op =>
    let (ws, msg) := op.writes s.links (head i)
    { s with pending := ws, taken := s.taken ++ [(i, msg)] }
  | .write =>
    match s.pending with
    | [] => s
    | w :: ws => { s with links := s.links.write w, pending := ws }
  | .locked i op => s.atOnce head i op
  | .irq i op => s.atOnce head i op

/-- With the heads of all the queues initialised. -/
def init (l : Links Nat) (names : List Q) : QueueMem Q :=
  { links := run Links.write l (names.flatMap fun i => initLlistHead (head i)), pending := []
    taken := [] }

end QueueMem

/-- The queues as lists of messages, each operation as one step. -/
structure QueueLists (Q : Type*) where
  q : Q → List Nat
  taken : List (Q × Option Nat)

namespace QueueLists
variable {Q : Type*} [DecidableEq Q]

def op (s : QueueLists Q) (i : Q) (op : QueueOp) : QueueLists Q :=
  { q := Function.update s.q i (op.apply (s.q i)).1
    taken := s.taken ++ [(i, (op.apply (s.q i)).2)] }

def step (s : QueueLists Q) : QueueInput Q → QueueLists Q
  | .plain i op => s.op i op
  | .write => s
  | .locked i op => s.op i op
  | .irq i op => s.op i op

def init : QueueLists Q := { q := fun _ => [], taken := [] }

end QueueLists

section op
variable {Q : Type*} {head : Q → Nat} {l : Links Nat} {q : Q → List Nat} {i : Q}

theorem apply_mem {op : QueueOp} {xs : List Nat} {x : Nat} (inside : x ∈ (op.apply xs).1) :
    x ∈ xs ∨ op.msg = some x := by
  cases op with
  | enqueue msg =>
    rcases List.mem_append.mp inside with old | new
    · exact .inl old
    · exact .inr (congrArg some (List.mem_singleton.mp new).symm)
  | push msg =>
    rcases List.mem_cons.mp inside with rfl | old
    · exact .inr rfl
    · exact .inl old
  | dequeue =>
    cases xs with
    | nil => exact .inl inside
    | cons y ys => exact .inl (List.mem_cons_of_mem _ inside)

/-- An operation reads cells of its queue only. -/
theorem writes_congr {l' : Links Nat} (h : l'.Circles head q) (op : QueueOp)
    (same : ∀ x ∈ head i :: q i, l'.next x = l.next x ∧ l'.prev x = l.prev x) :
    op.writes l' (head i) = op.writes l (head i) := by
  have atHead := same (head i) List.mem_cons_self
  cases op with
  | enqueue msg => simp only [QueueOp.writes, llistAddTail, atHead.2]
  | push msg => simp only [QueueOp.writes, llistAdd, atHead.1]
  | dequeue =>
    simp only [QueueOp.writes, msgbDequeue, llistEmpty, ← atHead.1]
    cases whole : q i with
    | nil =>
      have circle := h.circle i
      rw [whole] at circle
      simp [circle.empty_iff.mpr rfl]
    | cons msg rest =>
      have circle := h.circle i
      rw [whole] at circle
      have here := same msg (by rw [whole]; exact List.mem_cons_of_mem _ List.mem_cons_self)
      simp only [circle.next_head, llistDel, here]

/-- `INIT_LLIST_HEAD` of further heads leaves the one of `x` as it is. -/
theorem heads_initialised (names : List Q) (l : Links Nat) (x : Nat)
    (known : l.next x = x ∧ l.prev x = x ∨ ∃ i ∈ names, head i = x) :
    (run Links.write l (names.flatMap fun i => initLlistHead (head i))).next x = x ∧
      (run Links.write l (names.flatMap fun i => initLlistHead (head i))).prev x = x := by
  induction names generalizing l with
  | nil =>
    obtain self | ⟨i, none, _⟩ := known
    · exact self
    · cases none
  | cons i names ih =>
    rw [List.flatMap_cons, run_append]
    apply ih
    by_cases here : head i = x
    · left
      simp [initLlistHead, run, here]
    · obtain self | ⟨j, known, at'⟩ := known
      · left
        have aside : ∀ w ∈ initLlistHead (head i), w.cell ≠ x := by
          intro w one
          simp only [initLlistHead, List.mem_cons, List.not_mem_nil, or_false] at one
          obtain rfl | rfl := one
          · exact here
          · exact here
        have kept := Links.read_kept (l := l) aside
        exact ⟨kept.1.trans self.1, kept.2.trans self.2⟩
      · right
        rcases List.mem_cons.mp known with rfl | later
        · exact absurd at' here
        · exact ⟨j, later, at'⟩

end op

section queues
variable {Q : Type*} [DecidableEq Q] {head : Q → Nat} {shared : Q → Bool}

/-- What is put into a queue is a message, is in no queue, and the main loop is done with it. -/
def FreshMsg (head : Q → Nat) (s : QueueMem Q × QueueLists Q) (op : QueueOp) : Prop :=
  ∀ msg ∈ op.msg, msg ≠ 0 ∧ Links.Loose head s.2.q msg ∧ ∀ w ∈ s.1.pending, w.cell ≠ msg

/-- The rules of the source: interrupts only use the queues that are shared with them, and these the
main loop only with the interrupts disabled. -/
def QueueRules (head : Q → Nat) (shared : Q → Bool) (s : QueueMem Q × QueueLists Q) :
    QueueInput Q → Prop
  | .plain i op => s.1.pending = [] ∧ shared i = false ∧ FreshMsg head s op
  | .write => True
  | .locked _ op => s.1.pending = [] ∧ FreshMsg head s op
  | .irq i op => shared i = true ∧ FreshMsg head s op

instance [Fintype Q] (head : Q → Nat) (q : Q → List Nat) (x : Nat) :
    Decidable (Links.Loose head q x) := inferInstanceAs (Decidable (∀ i, x ∉ head i :: q i))

instance [Fintype Q] (head : Q → Nat) (s : QueueMem Q × QueueLists Q) (op : QueueOp) :
    Decidable (FreshMsg head s op) := inferInstanceAs (Decidable (∀ msg ∈ op.msg, _ ∧ _ ∧ _))

instance [Fintype Q] (head : Q → Nat) (shared : Q → Bool) (s : QueueMem Q × QueueLists Q) :
    (input : QueueInput Q) → Decidable (QueueRules head shared s input)
  | .plain _ _ => inferInstanceAs (Decidable (_ ∧ _ ∧ _))
  | .write => isTrue trivial
  | .locked _ _ => inferInstanceAs (Decidable (_ ∧ _))
  | .irq _ _ => inferInstanceAs (Decidable (_ ∧ _))

def queueStep (head : Q → Nat) (s : QueueMem Q × QueueLists Q) (input : QueueInput Q) :
    QueueMem Q × QueueLists Q :=
  (s.1.step head input, s.2.step input)

/-- Once the main loop has done its writes the memory holds the lists. -/
structure QueuesHeld (head : Q → Nat) (shared : Q → Bool) (s : QueueMem Q × QueueLists Q) : Prop where
  circles : (run Links.write s.1.links s.1.pending).Circles head s.2.q
  aside : ∀ w ∈ s.1.pending, ∀ i, shared i = true → w.cell ∉ head i :: s.2.q i
  taken : s.1.taken = s.2.taken
  some' : ∀ i, 0 ∉ s.2.q i

variable {l : Links Nat} {q : Q → List Nat} {i : Q}

/-- What an operation writes is the queue's own, and the message that it puts in. -/
structure OpDone (head : Q → Nat) (q : Q → List Nat) (i : Q) (op : QueueOp) (l : Links Nat)
    (done : List (LinkWrite Nat) × Option Nat) : Prop where
  msg : done.2 = (op.apply (q i)).2
  circles : (run Links.write l done.1).Circles head (Function.update q i (op.apply (q i)).1)
  cells : ∀ w ∈ done.1, w.cell ∈ head i :: q i ∨ op.msg = some w.cell

theorem enqueue_done (h : l.Circles head q) {msg : Nat} (loose : Links.Loose head q msg) :
    OpDone head q i (.enqueue msg) l (QueueOp.writes l (head i) (.enqueue msg)) := by
  obtain ⟨prev, added⟩ := h.add_tail i loose
  refine ⟨rfl, added, fun w one => ?_⟩
  simp only [QueueOp.writes, llistAddTail, addBetween, List.mem_cons, List.not_mem_nil, or_false] at one
  obtain rfl | rfl | rfl | rfl := one
  · exact .inl List.mem_cons_self
  · exact .inr rfl
  · exact .inr rfl
  · exact .inl prev

theorem push_done (h : l.Circles head q) {msg : Nat} (loose : Links.Loose head q msg) :
    OpDone head q i (.push msg) l (QueueOp.writes l (head i) (.push msg)) := by
  obtain ⟨next, added⟩ := h.add_head i loose
  refine ⟨rfl, added, fun w one => ?_⟩
  simp only [QueueOp.writes, llistAdd, addBetween, List.mem_cons, List.not_mem_nil, or_false] at one
  obtain rfl | rfl | rfl | rfl := one
  · exact .inl next
  · exact .inr rfl
  · exact .inr rfl
  · exact .inl List.mem_cons_self

theorem dequeue_done (h : l.Circles head q) (some' : 0 ∉ q i) :
    OpDone head q i .dequeue l (QueueOp.writes l (head i) .dequeue) := by
  have circle := h.circle i
  cases whole : q i with
  | nil =>
    rw [whole] at circle
    have empty : l.next (head i) = head i := circle.empty_iff.mpr rfl
    have none : QueueOp.writes l (head i) .dequeue = ([], none) := by
      simp [QueueOp.writes, msgbDequeue, llistEmpty, empty]
    rw [none]
    have same : Function.update q i [] = q := by rw [← whole, Function.update_eq_self]
    refine ⟨by rw [whole]; rfl, ?_, fun w none => absurd none List.not_mem_nil⟩
    rw [whole, QueueOp.apply, same]
    exact h
  | cons msg rest =>
    rw [whole] at circle some'
    have first : l.next (head i) = msg := circle.next_head
    have notEmpty : l.next (head i) ≠ head i := circle.empty_iff.not.mpr (List.cons_ne_nil _ _)
    have notNull : l.next (head i) ≠ 0 := by
      intro null
      rw [first] at null
      exact some' (null ▸ List.mem_cons_self)
    have found : QueueOp.writes l (head i) .dequeue = (llistDel l msg, some msg) := by
      rw [QueueOp.writes, msgbDequeue, llistEmpty, beq_false_of_ne notEmpty]
      simp [first ▸ notNull, first]
    rw [found]
    have whole' : q i = [] ++ msg :: rest := whole
    obtain ⟨inside, deleted⟩ := h.del whole'
    have loose := h.removed whole'
    refine ⟨by rw [whole]; rfl, ?_, fun w one => ?_⟩
    · rw [whole, llistDel, run_append]
      apply deleted.kept
      intro w one
      simp only [List.mem_cons, List.not_mem_nil, or_false] at one
      obtain rfl | rfl := one
      · exact loose
      · exact loose
    · have here : msg ∈ head i :: q i := by
        rw [whole]
        exact List.mem_cons_of_mem _ List.mem_cons_self
      simp only [llistDel, delBetween, List.mem_append, List.mem_cons, List.not_mem_nil,
        or_false] at one
      obtain (rfl | rfl) | rfl | rfl := one
      · exact .inl inside.2
      · exact .inl inside.1
      · exact .inl here
      · exact .inl here

theorem op_done (h : l.Circles head q) (op : QueueOp) (loose : ∀ msg ∈ op.msg, Links.Loose head q msg)
    (some' : 0 ∉ q i) : OpDone head q i op l (op.writes l (head i)) := by
  cases op with
  | enqueue msg => exact enqueue_done h (loose msg rfl)
  | push msg => exact push_done h (loose msg rfl)
  | dequeue => exact dequeue_done h some'

variable {s : QueueMem Q × QueueLists Q} {op : QueueOp}

theorem atOnce_held (h : QueuesHeld head shared s) (fresh : FreshMsg head s op)
    (away : ∀ w ∈ s.1.pending, w.cell ∉ head i :: s.2.q i) :
    QueuesHeld head shared (s.1.atOnce head i op, s.2.op i op) := by
  have same : ∀ x ∈ head i :: s.2.q i, (run Links.write s.1.links s.1.pending).next x =
      s.1.links.next x ∧ (run Links.write s.1.links s.1.pending).prev x = s.1.links.prev x :=
    fun x inside => Links.read_kept fun w one here => away w one (here ▸ inside)
  have done := op_done h.circles op (fun msg is => (fresh msg is).2.1) (h.some' i)
  rw [writes_congr h.circles op same] at done
  have apart : ∀ w ∈ s.1.pending, ∀ v ∈ (op.writes s.1.links (head i)).1, w.cell ≠ v.cell := by
    intro w one v two here
    rcases done.cells v two with inside | new
    · exact away w one (here ▸ inside)
    · exact (fresh v.cell new).2.2 w one here
  refine ⟨?_, fun w one k shared' inside => ?_, ?_, fun k null => ?_⟩
  · have circles := done.circles
    rw [Links.run_comm apart] at circles
    exact circles
  · by_cases here : k = i
    · subst here
      simp only [QueueLists.op, Function.update_self] at inside
      rcases List.mem_cons.mp inside with atHead | inside
      · exact away w one (atHead ▸ List.mem_cons_self)
      · rcases apply_mem inside with old | new
        · exact away w one (List.mem_cons_of_mem _ old)
        · exact (fresh w.cell new).2.2 w one rfl
    · simp only [QueueLists.op, Function.update_of_ne here] at inside
      exact h.aside w one k shared' inside
  · simp only [QueueMem.atOnce, QueueLists.op, h.taken, done.msg]
  · by_cases here : k = i
    · subst here
      simp only [QueueLists.op, Function.update_self] at null
      rcases apply_mem null with old | new
      · exact h.some' k old
      · exact (fresh 0 new).1 rfl
    · simp only [QueueLists.op, Function.update_of_ne here] at null
      exact h.some' k null

theorem plain_held (h : QueuesHeld head shared s) (idle : s.1.pending = []) (own : shared i = false)
    (fresh : FreshMsg head s op) :
    QueuesHeld head shared (s.1.step head (.plain i op), s.2.op i op) := by
  have circles := h.circles
  rw [idle] at circles
  have done := op_done circles op (fun msg is => (fresh msg is).2.1) (h.some' i)
  have held := atOnce_held h fresh (i := i) (by simp [idle])
  refine ⟨done.circles, fun w one k shared' inside => ?_, held.taken, held.some'⟩
  have other : k ≠ i := fun here => by rw [here, own] at shared'; cases shared'
  simp only [QueueLists.op, Function.update_of_ne other] at inside
  rcases done.cells w one with here | new
  · exact other (circles.apart inside here)
  · exact (fresh w.cell new).2.1 k inside

theorem step_held (h : QueuesHeld head shared s) {input : QueueInput Q}
    (rules : QueueRules head shared s input) : QueuesHeld head shared (queueStep head s input) := by
  cases input with
  | plain i op => exact plain_held h rules.1 rules.2.1 rules.2.2
  | write =>
    simp only [queueStep, QueueMem.step, QueueLists.step]
    split
    · exact h
    · rename_i w ws pending
      have circles := h.circles
      rw [pending] at circles
      refine ⟨circles, fun v one => h.aside v ?_, h.taken, h.some'⟩
      rw [pending]
      exact List.mem_cons_of_mem _ one
  | locked i op => exact atOnce_held h rules.2 (by simp [rules.1])
  | irq i op => exact atOnce_held h rules.2 fun w one => h.aside w one i rules.1

omit [DecidableEq Q] in
theorem init_held {names : List Q} (complete : ∀ i, i ∈ names) (distinct : Function.Injective head)
    (l : Links Nat) : QueuesHeld head shared (.init head l names, .init) := by
  refine ⟨⟨fun i => ⟨fun e at' => ?_, List.nodup_singleton _⟩, fun {i j x} inI inJ => ?_⟩,
    fun w none => absurd none List.not_mem_nil, rfl, fun i null => absurd null List.not_mem_nil⟩
  · cases List.mem_singleton.mp at'
    exact heads_initialised names l (head i) (.inr ⟨i, complete i, rfl⟩)
  · have inI := List.mem_singleton.mp inI
    have inJ := List.mem_singleton.mp inJ
    exact distinct (inI.symm.trans inJ)

/-- Whatever was in the memory before, wherever interrupts come between the writes of the main loop:
the operations take the messages that they would take if each were one step on lists, and with what the
main loop has still to write the memory holds these lists. -/
theorem queues_refine {names : List Q} (complete : ∀ i, i ∈ names)
    (distinct : Function.Injective head) (l : Links Nat) {inputs : List (QueueInput Q)}
    (rules : Meets (queueStep head) (QueueRules head shared) (.init head l names, .init) inputs) :
    let s := run (queueStep head) (.init head l names, .init) inputs
    s.1.taken = s.2.taken ∧ (run Links.write s.1.links s.1.pending).Circles head s.2.q := by
  have held := run_keeps (QueuesHeld head shared) (fun s input h rules => step_held h rules)
    (init_held complete distinct l) rules
  exact ⟨held.taken, held.circles⟩

end queues

/-- A queue to the host (`false`) and one from it. -/
def twoHeads (i : Bool) : Nat := if i then 0x20000100 else 0x20000000

def interrupted : List (QueueInput Bool) :=
  [.plain false (.enqueue 0x20001000), .write, .write, .irq true (.enqueue 0x20002000), .write, .write,
    .locked true .dequeue]

theorem interrupted_refines :
    let s := run (queueStep twoHeads) (.init twoHeads ⟨fun _ => 0, fun _ => 0⟩ [false, true], .init)
      interrupted
    s.1.taken = s.2.taken ∧ (run Links.write s.1.links s.1.pending).Circles twoHeads s.2.q :=
  @queues_refine Bool _ twoHeads id [false, true] (by decide) (by decide) ⟨fun _ => 0, fun _ => 0⟩
    interrupted (by decide)

end Simtrace2
