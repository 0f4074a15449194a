import Simtrace2.CardEmu.Transparency
import Simtrace2.Lib.Run

/-! NULL procedure bytes: what the reader hears of an answer that carries data when halves of
the waiting time pass while the card sends it. -/
namespace Simtrace2
open Lib

/-- A byte that the reader hears, of the host's answer or put in by the card when half of the
waiting time is over. -/
inductive Heard where
  | answer (byte : UInt8)
  | null (byte : UInt8)
deriving DecidableEq, Repr

namespace Heard

def byte : Heard → UInt8
  | answer byte => byte
  | null byte => byte

def isNull : Heard → Bool
  | answer _ => false
  | null _ => true

def ofAnswer : Heard → Option UInt8
  | answer byte => some byte
  | null _ => none

end Heard

def answers (heard : List Heard) : List UInt8 := heard.filterMap Heard.ofAnswer

/-- No byte of the card stands behind the INS and before the last of `n` data bytes. -/
def NullsOutside (n : Nat) (heard : List Heard) : Prop :=
  ∀ before byte, before ++ [.null byte] <+: heard →
    ¬(1 ≤ (answers before).length ∧ (answers before).length ≤ n)

/-- The reader waits for the INS and takes what is behind it for data, whatever it is. -/
def readerData (n : Nat) (heard : List Heard) : List UInt8 :=
  ((heard.dropWhile Heard.isNull).tail.take n).map Heard.byte

structure DataHeard (d : List UInt8) (heard : List Heard) : Prop where
  outside : NullsOutside d.length heard
  data : readerData d.length heard = d.take ((answers heard).length - 1)

inductive AnswerEvent where
  | message | txrdy | halfExpired
deriving DecidableEq, Repr

/-- The card while the host answers: the messages that have not come yet, and what the reader
has heard since the header. -/
structure Answering where
  ci : CardemInst
  toCome : List TxData
  heard : List Heard

def TxData.pending (m : TxData) : Pending := ⟨m.tag, m.flags, m.payload⟩

/-- Each message has bytes and does not ask for more of them, and the last one is final. -/
def Closing : List Pending → Prop
  | [] => True
  | p :: ps =>
    (p.bytes ≠ [] ∧ hasFlag p.flags cemuDataFPbAndRx = false) ∧
      (hasFlag p.flags cemuDataFFinal = true ↔ ps = []) ∧ Closing ps

def Opens (ps : List Pending) : Prop :=
  ∀ p, ps.head? = some p → hasFlag p.flags cemuDataFPbAndTx = true

theorem Closing.of_append {ps qs : List Pending} (h : Closing (ps ++ qs)) : Closing qs := by
  induction ps with
  | nil => exact h
  | cons p ps ih => exact ih h.2.2

/-- The answer to a command with this INS, cut into messages in any way. -/
structure HostAnswer (ins : UInt8) (d sw : List UInt8) (ms : List TxData) : Prop where
  split : ms.flatMap (·.payload) = ins :: d ++ sw
  data : d.length ≤ 256
  sw : sw.length = 2
  opens : Opens (ms.map TxData.pending)
  ends : Closing (ms.map TxData.pending)

namespace Answering

def hears (s : Answering) (ci : CardemInst) (said : UInt8 → Heard) : Answering :=
  { s with ci, heard := s.heard ++ (ci.emu.uart.sent.drop s.ci.emu.uart.sent.length).map said }

def step (s : Answering) : AnswerEvent → Answering
  | .message => match s.toCome with
    | [] => s
    | m :: toCome => { s with ci := s.ci.dispatchUsbCommandCardem m.msgb none, toCome }
  | .txrdy => s.hears s.ci.usartIrqTx .answer
  | .halfExpired => s.hears { s.ci with emu := s.ci.emu.cardEmuWtimeHalfExpired } .null

/-- The messages that are not transmitted yet, as far as they are not. -/
def rest (s : Answering) : List Pending := s.ci.emu.line.pending ++ s.toCome.map TxData.pending

def left (s : Answering) : List UInt8 := s.rest.flatMap (·.bytes)

/-- Half of the waiting time does not pass when the INS is out and data is still to go. -/
def Quiet (n : Nat) (s : Answering) (event : AnswerEvent) : Prop :=
  event = .halfExpired → ¬(2 < s.left.length ∧ s.left.length ≤ n + 2)

instance (n : Nat) (s : Answering) (event : AnswerEvent) : Decidable (s.Quiet n event) :=
  inferInstanceAs (Decidable (_ → _))

def BetweenMessages (s : Answering) (event : AnswerEvent) : Prop :=
  event = .halfExpired → s.ci.emu.ch.uartTxMsg.isNone

instance (s : Answering) (event : AnswerEvent) : Decidable (s.BetweenMessages event) :=
  inferInstanceAs (Decidable (_ → _))

end Answering

@[simp] theorem answers_answer (heard : List Heard) (byte : UInt8) :
    answers (heard ++ [.answer byte]) = answers heard ++ [byte] := by
  simp [answers, Heard.ofAnswer]

@[simp] theorem answers_null (heard : List Heard) (byte : UInt8) :
    answers (heard ++ [.null byte]) = answers heard := by
  simp [answers, Heard.ofAnswer]

theorem NullsOutside.answer {n : Nat} {heard : List Heard} (h : NullsOutside n heard) (byte : UInt8) :
    NullsOutside n (heard ++ [.answer byte]) := by
  intro before null here
  obtain same | earlier := List.prefix_concat_iff.mp here
  · have last := (List.append_inj' same rfl).2
    cases last
  · exact h before null earlier

theorem NullsOutside.null {n : Nat} {heard : List Heard} (h : NullsOutside n heard) (byte : UInt8)
    (aside : ¬(1 ≤ (answers heard).length ∧ (answers heard).length ≤ n)) :
    NullsOutside n (heard ++ [.null byte]) := by
  intro before null here
  obtain same | earlier := List.prefix_concat_iff.mp here
  · have first := (List.append_inj' same rfl).1
    rw [first]
    exact aside
  · exact h before null earlier

/-- What is heard while no NULL is out of place: NULLs, then the INS and the data as far as they
have gone, and anything else only behind all of them. -/
def InOrder (ins : UInt8) (d : List UInt8) (heard : List Heard) : Prop :=
  ∃ nulls after, heard = nulls ++ ((ins :: d).take (answers heard).length).map .answer ++ after ∧
    (∀ x ∈ nulls, x.isNull = true) ∧ ((answers heard).length ≤ d.length → after = [])

namespace InOrder
variable {ins : UInt8} {d sw : List UInt8} {heard : List Heard}

theorem answer (h : InOrder ins d heard) {byte : UInt8} {left : List UInt8}
    (split : answers heard ++ byte :: left = ins :: d ++ sw) :
    InOrder ins d (heard ++ [.answer byte]) := by
  obtain ⟨nulls, after, shape, silent, tight⟩ := h
  have count : (answers (heard ++ [.answer byte])).length = (answers heard).length + 1 := by simp
  unfold InOrder
  rw [count]
  by_cases inside : (answers heard).length ≤ d.length
  · have here : (ins :: d)[(answers heard).length]? = some byte := by
      have front : (ins :: d ++ sw)[(answers heard).length]? = (ins :: d)[(answers heard).length]? :=
        List.getElem?_append_left (by rw [List.length_cons]; omega)
      rw [← front, ← split]
      simp
    refine ⟨nulls, [], ?_, silent, fun _ => rfl⟩
    rw [List.take_add_one, here]
    conv_lhs => rw [shape, tight inside]
    simp
  · have all : (ins :: d).take ((answers heard).length + 1) =
        (ins :: d).take (answers heard).length := by
      rw [List.take_of_length_le (by rw [List.length_cons]; omega),
        List.take_of_length_le (by rw [List.length_cons]; omega)]
    refine ⟨nulls, after ++ [.answer byte], ?_, silent, fun _ => by omega⟩
    rw [all]
    conv_lhs => rw [shape]
    simp

theorem null (h : InOrder ins d heard) (byte : UInt8)
    (aside : ¬(1 ≤ (answers heard).length ∧ (answers heard).length ≤ d.length)) :
    InOrder ins d (heard ++ [.null byte]) := by
  obtain ⟨nulls, after, shape, silent, tight⟩ := h
  unfold InOrder
  rw [answers_null]
  by_cases none' : (answers heard).length = 0
  · rw [none'] at shape tight ⊢
    refine ⟨nulls ++ [.null byte], [], ?_, ?_, fun _ => rfl⟩
    · conv_lhs => rw [shape, tight (Nat.zero_le _)]
      simp
    · intro x hx
      obtain old | new := List.mem_append.mp hx
      · exact silent x old
      · rw [List.mem_singleton.mp new]
        rfl
  · refine ⟨nulls, after ++ [.null byte], ?_, silent, fun _ => by omega⟩
    conv_lhs => rw [shape]
    simp

theorem data (h : InOrder ins d heard) :
    readerData d.length heard = d.take ((answers heard).length - 1) := by
  obtain ⟨nulls, after, shape, silent, tight⟩ := h
  have skipped : nulls.dropWhile Heard.isNull = [] := by
    rw [← List.append_nil nulls, List.dropWhile_append_of_pos silent, List.dropWhile_nil]
  generalize (answers heard).length = k at shape tight
  subst shape
  cases k with
  | zero => simp [readerData, tight (Nat.zero_le _), skipped]
  | succ k =>
    have behind :
        (nulls ++ ((ins :: d).take (k + 1)).map Heard.answer ++ after).dropWhile Heard.isNull =
          .answer ins :: ((d.take k).map .answer ++ after) := by
      rw [List.append_assoc, List.dropWhile_append_of_pos silent]
      rfl
    rw [readerData, behind, List.tail_cons, Nat.add_sub_cancel]
    have bytes : (Heard.byte ∘ Heard.answer) = id := rfl
    by_cases inside : k + 1 ≤ d.length
    · have short : ((d.take k).map Heard.answer).length ≤ d.length := by
        rw [List.length_map, List.length_take]
        exact Nat.min_le_right _ _
      rw [tight inside, List.append_nil, List.take_of_length_le short, List.map_map, bytes, List.map_id]
    · rw [List.take_of_length_le (by omega : d.length ≤ k), List.take_left' (by simp), List.map_map,
        bytes, List.map_id]

end InOrder

namespace Answering

/-- What holds while the answer goes out: what has been heard of it and what is left of it are
the whole, and the state of the card says how far it is. -/
structure Going (ins : UInt8) (d sw : List UInt8) (s : Answering) : Prop where
  sound : s.ci.emu.line.Sound
  split : answers s.heard ++ s.left = ins :: d ++ sw
  ends : Closing s.rest
  ended : s.rest = [] → s.ci.emu.ch.state = .waitTpdu
  inTpdu : s.rest ≠ [] → s.ci.emu.ch.state = .inTpdu
  first : answers s.heard = [] → s.ci.emu.ch.tpdu.state = .waitPb ∧ Opens s.rest
  later : answers s.heard ≠ [] → s.rest ≠ [] → s.ci.emu.ch.tpdu.state = .waitTx
  inOrder : InOrder ins d s.heard
  outside : NullsOutside d.length s.heard

variable {ins : UInt8} {d sw : List UInt8} {s : Answering}

theorem hears_same {ci : CardemInst} (same : ci.emu.line.sent = s.ci.emu.line.sent)
    (said : UInt8 → Heard) : s.hears ci said = { s with ci } := by
  have sent : ci.emu.uart.sent = s.ci.emu.uart.sent := same
  simp [hears, sent]

theorem hears_byte {ci : CardemInst} {byte : UInt8}
    (one : ci.emu.line.sent = s.ci.emu.line.sent ++ [byte]) (said : UInt8 → Heard) :
    s.hears ci said = { s with ci, heard := s.heard ++ [said byte] } := by
  have sent : ci.emu.uart.sent = s.ci.emu.uart.sent ++ [byte] := one
  simp [hears, sent]

theorem rest_of_line {ci : CardemInst} (same : ci.emu.line = s.ci.emu.line) (heard : List Heard) :
    { s with ci, heard }.rest = s.rest := by
  rw [rest, rest, same]

theorem usartIrqTx_line (ci : CardemInst) :
    ci.usartIrqTx.emu.line = ci.emu.line ∨ ci.usartIrqTx.emu.line = ci.emu.cardEmuTxByte.1.line := by
  unfold CardemInst.usartIrqTx
  split
  · right
    simp only
    split <;> rfl
  · exact .inl rfl

/-- What the answer is carried by; NULLs may have been heard besides. -/
theorem Going.of_rest (h : Going ins d sw s) {s' : Answering} (sound : s'.ci.emu.line.Sound)
    (rest : s'.rest = s.rest) (st : s'.ci.emu.ch.state = s.ci.emu.ch.state)
    (ts : s'.ci.emu.ch.tpdu.state = s.ci.emu.ch.tpdu.state) (said : answers s'.heard = answers s.heard)
    (inOrder : InOrder ins d s'.heard) (outside : NullsOutside d.length s'.heard) :
    Going ins d sw s' := by
  have left : s'.left = s.left := by rw [Answering.left, rest, Answering.left]
  constructor
  · exact sound
  · rw [said, left]
    exact h.split
  · rw [rest]
    exact h.ends
  · rw [rest, st]
    exact h.ended
  · rw [rest, st]
    exact h.inTpdu
  · rw [said, rest, ts]
    exact h.first
  · rw [said, rest, ts]
    exact h.later
  · exact inOrder
  · exact outside

theorem Going.of_line (h : Going ins d sw s) {ci : CardemInst} (same : ci.emu.line = s.ci.emu.line) :
    Going ins d sw { s with ci } := by
  have sound : ci.emu.line.Sound := by
    rw [same]
    exact h.sound
  exact h.of_rest sound (rest_of_line same s.heard) (congrArg Line.state same)
    (congrArg (·.tpdu.state) same) rfl h.inOrder h.outside

theorem Going.length (h : Going ins d sw s) :
    (answers s.heard).length + s.left.length = 1 + d.length + sw.length := by
  have whole := congrArg List.length h.split
  simp only [List.length_append, List.length_cons] at whole
  omega

/-- A message of the host only moves from one end of the line to the other. -/
theorem Going.message (h : Going ins d sw s) (data : d.length ≤ 256) (status : sw.length = 2) :
    Going ins d sw (s.step .message) := by
  cases come : s.toCome with
  | nil =>
    rw [step, come]
    exact h
  | cons m toCome =>
    have rest : s.rest = s.ci.emu.line.pending ++ (m.pending :: toCome.map TxData.pending) := by
      rw [Answering.rest, come, List.map_cons]
    have ends : Closing (m.pending :: toCome.map TxData.pending) := by
      have whole := h.ends
      rw [rest] at whole
      exact whole.of_append
    have some' : m.payload ≠ [] := ends.1.1
    have fits : m.payload.length ≤ s.left.length := by
      rw [left, rest, List.flatMap_append, List.flatMap_cons, List.length_append, List.length_append]
      exact Nat.le_trans (Nat.le_add_right _ _) (Nat.le_add_left _ _)
    have small : m.payload.length + 14 < 65536 := by
      have whole := h.length
      omega
    have ready : s.ci.emu.ch.state.ready = true := by
      rw [h.inTpdu (by rw [rest]; simp)]
      rfl
    have queued : (s.ci.dispatchUsbCommandCardem m.msgb none).emu.line =
        s.ci.emu.line.enqueue m.msgb := by
      rw [CardemInst.dispatchUsbCommandCardem, if_pos m.msgType_msgb]
      exact line_dispatchTxData ready m.msgb
    have next : s.step .message =
        { s with ci := s.ci.dispatchUsbCommandCardem m.msgb none, toCome } := by
      rw [step, come]
    rw [next]
    refine h.of_rest ?_ ?_ (congrArg Line.state queued) (congrArg (·.tpdu.state) queued) rfl
      h.inOrder h.outside
    · rw [queued]
      exact h.sound
    · rw [Answering.rest, queued, Line.pending_enqueue _ some' small, rest, List.append_assoc]
      rfl

theorem rest_cons {p : Pending} {ps : List Pending} (next : s.ci.emu.line.pending = p :: ps) :
    s.rest = p :: (ps ++ s.toCome.map TxData.pending) := by
  rw [rest, next, List.cons_append]

theorem Going.afterByte (h : Going ins d sw s) {p : Pending} {ps : List Pending}
    (next : s.rest = p :: ps) :
    Line.afterByte s.ci.emu.ch.tpdu.state p.flags = .waitTx := by
  by_cases none' : answers s.heard = []
  · obtain ⟨ts, opens⟩ := h.first none'
    have asks : hasFlag p.flags cemuDataFPbAndTx = true := opens p (by rw [next]; rfl)
    rw [ts, Line.afterByte, if_pos rfl, if_pos asks]
  · rw [h.later none' (by rw [next]; simp)]
    rfl

theorem Going.states (h : Going ins d sw s) {p : Pending} {ps : List Pending}
    (next : s.rest = p :: ps) {l' : Line} {byte : UInt8} {bytes : List UInt8} {behind : List Pending}
    (sent : Line.ByteSent s.ci.emu.line l' p byte bytes behind) :
    (bytes = [] → ps = [] → l'.state = .waitTpdu) ∧
      (bytes ≠ [] ∨ ps ≠ [] → l'.state = .inTpdu ∧ l'.tpdu.state = .waitTx) := by
  have ends := h.ends
  rw [next] at ends
  have goesOn := h.afterByte next
  have st : l'.state = (Line.statesAfter s.ci.emu.ch.tpdu.state p.flags bytes.isEmpty).1 :=
    congrArg Prod.fst sent.states
  have ts : l'.tpdu.state = (Line.statesAfter s.ci.emu.ch.tpdu.state p.flags bytes.isEmpty).2 :=
    congrArg (·.2.state) sent.states
  rw [st, ts, Line.statesAfter, ends.1.2, goesOn]
  constructor
  · rintro rfl rfl
    simp [ends.2.1.mpr rfl]
  · intro more
    by_cases last : bytes = []
    · have notFinal : hasFlag p.flags cemuDataFFinal = false := by
        rw [← Bool.not_eq_true, ends.2.1]
        exact more.resolve_left fun some' => some' last
      simp [last, notFinal]
    · have notEmpty : bytes.isEmpty = false := by simpa using last
      simp [notEmpty]

/-- A byte of the answer goes out. -/
theorem Going.byte (h : Going ins d sw s) {p : Pending} {ps : List Pending}
    (next : s.ci.emu.line.pending = p :: ps) {ci : CardemInst} {byte : UInt8} {bytes : List UInt8}
    (more : p.bytes = byte :: bytes) (sent : Line.ByteSent s.ci.emu.line ci.emu.line p byte bytes ps) :
    Going ins d sw { s with ci, heard := s.heard ++ [.answer byte] } := by
  have here := rest_cons next
  obtain ⟨done, going⟩ := h.states here sent
  have ends := h.ends
  rw [here] at ends
  have left : s.left = byte :: { s with ci, heard := s.heard ++ [Heard.answer byte] }.left := by
    rw [Answering.left, here, Answering.left, Answering.rest, sent.pending, List.flatMap_cons, more]
    by_cases last : bytes = []
    · simp [last]
    · simp [last]
  have split := h.split
  rw [left] at split
  have rest : { s with ci, heard := s.heard ++ [Heard.answer byte] }.rest =
      if bytes = [] then ps ++ s.toCome.map TxData.pending
      else { p with bytes } :: (ps ++ s.toCome.map TxData.pending) := by
    rw [Answering.rest, sent.pending]
    split_ifs <;> rfl
  constructor
  · exact sent.sound
  · rw [answers_answer, List.append_assoc]
    exact split
  · rw [rest]
    split_ifs with last
    · exact ends.2.2
    · exact ⟨⟨last, ends.1.2⟩, ends.2⟩
  · rw [rest]
    split_ifs with last
    · exact done last
    · intro none'
      cases none'
  · rw [rest]
    split_ifs with last
    · exact fun some' => (going (.inr some')).1
    · exact fun _ => (going (.inl last)).1
  · simp
  · rw [rest]
    split_ifs with last
    · exact fun _ some' => (going (.inr some')).2
    · exact fun _ _ => (going (.inl last)).2
  · exact h.inOrder.answer split
  · exact h.outside.answer byte

theorem Going.txrdy (h : Going ins d sw s) : Going ins d sw (s.step .txrdy) := by
  have idle (same : s.ci.usartIrqTx.emu.line = s.ci.emu.line) : Going ins d sw (s.step .txrdy) := by
    rw [step, hears_same (congrArg Line.sent same)]
    exact h.of_line same
  obtain same | sent := usartIrqTx_line s.ci
  · exact idle same
  · by_cases ended : s.rest = []
    · have st := h.ended ended
      exact idle (by rw [sent]; simp [Emu.cardEmuTxByte, st])
    · have st := h.inTpdu ended
      rw [(Emu.line_txByte st).1] at sent
      cases next : s.ci.emu.line.pending with
      | nil =>
        obtain ⟨noTx, noQueue⟩ := Line.pending_nil.mp next
        exact idle (by rw [sent]; simp [Line.txByte, Line.txMsg, noTx, noQueue])
      | cons p ps =>
        have ends := h.ends
        rw [rest_cons next] at ends
        obtain ⟨byte, bytes, more⟩ := List.exists_cons_of_ne_nil ends.1.1
        have one := Line.byteSent st h.sound next more
        rw [← sent] at one
        rw [step, hears_byte one.sent]
        exact h.byte next more one

/-- Half a waiting time over: the card asks for more time while any of the answer is left. -/
theorem Going.asks (h : Going ins d sw s) (some' : s.rest ≠ []) :
    (s.step .halfExpired).heard = s.heard ++ [.null iso78163PbNull] ∧
      (s.step .halfExpired).ci.emu.line =
        { s.ci.emu.line with sent := s.ci.emu.line.sent ++ [iso78163PbNull] } := by
  have st := h.inTpdu some'
  have asked : s.ci.emu.line.halfExpired =
      { s.ci.emu.line with sent := s.ci.emu.line.sent ++ [iso78163PbNull] } := by
    have ts : s.ci.emu.line.tpdu.state = .waitPb ∨ s.ci.emu.line.tpdu.state = .waitTx := by
      by_cases none' : answers s.heard = []
      · exact .inl (h.first none').1
      · exact .inr (h.later none' some')
    obtain ts | ts := ts <;> simp only [Line.halfExpired, ts]
  have line : s.ci.emu.cardEmuWtimeHalfExpired.line = _ := (Emu.line_halfExpired st).trans asked
  rw [step, hears_byte (congrArg Line.sent line)]
  exact ⟨rfl, line⟩

theorem Going.span (h : Going ins d sw s) (status : sw.length = 2) :
    (1 ≤ (answers s.heard).length ∧ (answers s.heard).length ≤ d.length) ↔
      2 < s.left.length ∧ s.left.length ≤ d.length + 2 := by
  have whole := h.length
  omega

theorem Going.halfExpired (h : Going ins d sw s) (status : sw.length = 2)
    (quiet : Quiet d.length s .halfExpired) : Going ins d sw (s.step .halfExpired) := by
  have aside := mt (h.span status).mp (quiet rfl)
  by_cases ended : s.rest = []
  · have st := h.ended ended
    have same : s.ci.emu.cardEmuWtimeHalfExpired = s.ci.emu := by
      simp [Emu.cardEmuWtimeHalfExpired, st]
    rw [step, same, hears_same rfl]
    exact h
  · obtain ⟨heard, line⟩ := h.asks ended
    have rest : (s.step .halfExpired).rest = s.rest := by rw [Answering.rest, line]; rfl
    refine h.of_rest ?_ rest (congrArg Line.state line) (congrArg (·.tpdu.state) line) ?_ ?_ ?_
    · rw [line]
      exact h.sound
    · rw [heard, answers_null]
    · rw [heard]
      exact h.inOrder.null _ aside
    · rw [heard]
      exact h.outside.null _ aside

theorem Going.step (h : Going ins d sw s) (data : d.length ≤ 256) (status : sw.length = 2)
    (event : AnswerEvent) (quiet : Quiet d.length s event) : Going ins d sw (s.step event) := by
  cases event with
  | message => exact h.message data status
  | txrdy => exact h.txrdy
  | halfExpired => exact h.halfExpired status quiet

/-- A byte that the card puts in between is heard as one. -/
theorem Going.shown (h : Going ins d sw s) (status : sw.length = 2) (event : AnswerEvent)
    (after : DataHeard d (s.step event).heard) : Quiet d.length s event := by
  rintro rfl inside
  have span := (h.span status).mpr inside
  have some' : s.rest ≠ [] := by
    intro ended
    rw [left, ended] at inside
    exact absurd inside.1 (Nat.not_lt_zero 2)
  obtain ⟨heard, _⟩ := h.asks some'
  rw [heard] at after
  exact after.outside s.heard _ (List.prefix_refl _) span

theorem Going.dataHeard (h : Going ins d sw s) : DataHeard d s.heard := ⟨h.outside, h.inOrder.data⟩

theorem going_start {ci : CardemInst} {hdr : TpduHdr} {inEp : Nat} {sent : List UInt8}
    {usb : List UsbMsg} (asked : ci.emu.line.InTpdu .waitPb hdr inEp none sent usb) {ms : List TxData}
    (answer : HostAnswer hdr.ins d sw ms) : Going hdr.ins d sw ⟨ci, ms, []⟩ := by
  have none' : ci.emu.line.pending = [] := Line.pending_nil.mpr ⟨asked.tx, asked.queue⟩
  have rest : Answering.rest ⟨ci, ms, []⟩ = ms.map TxData.pending := by rw [Answering.rest, none']; rfl
  have left : Answering.left ⟨ci, ms, []⟩ = hdr.ins :: d ++ sw := by
    rw [Answering.left, rest, List.flatMap_map]
    exact answer.split
  have some' : Answering.rest ⟨ci, ms, []⟩ ≠ [] := by
    intro ended
    rw [Answering.left, ended] at left
    cases left
  constructor
  · intro m held
    rw [asked.tx] at held
    cases held
  · exact left
  · rw [rest]
    exact answer.ends
  · exact fun ended => absurd ended some'
  · exact fun _ => asked.state
  · refine fun _ => ⟨congrArg Tpdu.state asked.tpdu, ?_⟩
    rw [rest]
    exact answer.opens
  · exact fun none' => absurd rfl none'
  · exact ⟨[], [], rfl, by simp, fun _ => rfl⟩
  · intro before byte here
    simp at here

/-- NULL procedure bytes stay out of the data, and the reader gets the data as the host sent it,
in every state of a run exactly when no half of the waiting time passes between the INS and the
last byte of the data. -/
theorem dataHeard_iff {ci : CardemInst} {hdr : TpduHdr} {inEp : Nat} {sent : List UInt8}
    {usb : List UsbMsg} (asked : ci.emu.line.InTpdu .waitPb hdr inEp none sent usb) {ms : List TxData}
    (answer : HostAnswer hdr.ins d sw ms) (events : List AnswerEvent) :
    Always Answering.step (fun s => DataHeard d s.heard) ⟨ci, ms, []⟩ events ↔
      Meets Answering.step (Quiet d.length) ⟨ci, ms, []⟩ events :=
  always_iff_meets_of_shown (Going hdr.ins d sw)
    (fun _ event h quiet => h.step answer.data answer.sw event quiet) (fun _ h => h.dataHeard)
    (fun _ event h after => h.shown answer.sw event after) (going_start asked answer) events

def readTwoHdr : TpduHdr := ⟨0xa0, 0xb0, 0x00, 0x00, 0x02⟩

/-- A card that has been asked for two bytes, and a host that sends the INS ahead of them. -/
def readTwo : CardemInst where
  emu := waitingCard.receive 7 readTwoHdr.bytes
  pinInsert := .untouched .absent
  pinInsertInverted := false
  gMuxSlot := none

def insAhead : List TxData :=
  [{ flags := cemuDataFPbAndTx, payload := [0xb0], tag := 1, slotNr := 0, behind := fun _ => 0 },
   { flags := cemuDataFFinal, payload := [0x01, 0x02, 0x90, 0x00], tag := 2, slotNr := 0,
     behind := fun _ => 0 }]

theorem readTwo_asked : readTwo.emu.line.InTpdu .waitPb readTwoHdr 2 none []
    ([] ++ [⟨7, 2, .rxData cemuDataFTpduHdr 5 readTwoHdr.bytes⟩]) := by
  have idle : waitingCard.line.Idle 2 [] [] := ⟨rfl, rfl, rfl, rfl, rfl, rfl, rfl, rfl⟩
  have cla : readTwoHdr.cla ≠ 0xff := by decide
  simpa only [readTwo] using Emu.receive_header 7 idle cla

theorem insAhead_answer : HostAnswer readTwoHdr.ins [0x01, 0x02] [0x90, 0x00] insAhead := by
  refine ⟨rfl, by decide, rfl, ?_, ?_⟩
  · rintro p first
    cases first
    decide
  · exact ⟨⟨by decide, by decide⟩, by decide, ⟨by decide, by decide⟩, by decide, trivial⟩

theorem insAhead_heard :
    Always Answering.step (fun s => DataHeard [0x01, 0x02] s.heard) ⟨readTwo, insAhead, []⟩
      [.halfExpired, .message, .message, .txrdy, .txrdy, .txrdy, .halfExpired, .txrdy] :=
  (dataHeard_iff readTwo_asked insAhead_answer _).mpr (by decide)

/-- The data comes half of the waiting time after the INS: the reader takes the NULL for data. -/
theorem insAhead_corrupted :
    let events := [.message, .txrdy, .halfExpired, .message, .txrdy, .txrdy, .txrdy, .txrdy]
    HostAnswer readTwoHdr.ins [0x01, 0x02] [0x90, 0x00] insAhead ∧
      Meets Answering.step BetweenMessages ⟨readTwo, insAhead, []⟩ events ∧
      readerData 2 (run Answering.step ⟨readTwo, insAhead, []⟩ events).heard = [0x60, 0x01] ∧
      ¬Always Answering.step (fun s => DataHeard [0x01, 0x02] s.heard) ⟨readTwo, insAhead, []⟩
        events := by
  refine ⟨insAhead_answer, by decide, by decide, fun always => ?_⟩
  have end' := (always _ (List.prefix_refl _)).data
  exact absurd end' (by decide)

end Answering
end Simtrace2
