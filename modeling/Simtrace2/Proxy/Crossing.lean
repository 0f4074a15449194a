import Simtrace2.CardEmu.Aside
import Simtrace2.Proxy.System

/-! Answers that stay with their command. In a TPDU there is one thing to wait for at a
time: a report that the host has not read, an answer on its way to the reader, or the
reader. What was in flight when the reader reset the card breaks this order, unless it
arrives while the card is not ready. -/
namespace Simtrace2
open Lib

def Pending.goesOn (p : Pending) : Prop :=
  hasFlag p.flags cemuDataFPbAndRx = false ∧ hasFlag p.flags cemuDataFFinal = false

def Pending.ends (p : Pending) : Prop :=
  hasFlag p.flags cemuDataFPbAndRx = false ∧ hasFlag p.flags cemuDataFFinal = true

/-- The rest of an answer that ends TPDU `k`, and of no other. -/
inductive Ends (k : Nat) : List Pending → Prop
  | last {p : Pending} (tag : p.tag = k) (flags : p.ends) : Ends k [p]
  | more {p : Pending} {rest : List Pending} (tag : p.tag = k) (flags : p.goesOn)
      (behind : Ends k rest) : Ends k (p :: rest)

/-- What is left of an answer: nothing, a request for the command data, or an end. -/
inductive Answer (k : Nat) : List Pending → Prop
  | nothing : Answer k []
  | request {p : Pending} (tag : p.tag = k) (flags : hasFlag p.flags cemuDataFPbAndRx = true)
      (byte : p.bytes.length = 1) : Answer k [p]
  | ending {rest : List Pending} (ends : Ends k rest) : Answer k rest

/-- Where TPDU `k` has got to, with the reports the host has not read and the answers
the card has not received. -/
inductive Course (k : Nat) (l : Line) (asked : List UsbMsg) (coming : List Pending) : Prop
  | quiet (st : l.state = .waitTpdu ∨ l.state = .inPts ∨
        l.state = .inTpdu ∧ l.tpdu.state ∈ [.waitIns, .waitP1, .waitP2, .waitP3])
      (rx : l.rx = none) (nothing : asked = [] ∧ l.pending = [] ∧ coming = [])
  | asking (st : l.state = .inTpdu ∧ l.tpdu.state.sending = true) (rx : l.rx = none)
      (report : ∃ m, asked = [m] ∧ m.tag = k) (nothing : l.pending = [] ∧ coming = [])
  | answering (st : l.state = .inTpdu ∧ l.tpdu.state.sending = true) (rx : l.rx = none)
      (read : asked = []) (answer : Answer k (l.pending ++ coming))
  | receiving (st : l.state = .inTpdu ∧ l.tpdu.state = .waitRx)
      (rx : ∀ m, l.rx = some m → m.tag = k)
      (nothing : asked = [] ∧ l.pending = [] ∧ coming = [])

theorem Answer.tag {k : Nat} {p : Pending} {rest : List Pending} (h : Answer k (p :: rest)) :
    p.tag = k := by
  cases h with
  | request tag _ _ => exact tag
  | ending ends =>
    cases ends with
    | last tag _ => exact tag
    | more tag _ _ => exact tag

theorem afterByte_sending {ts : TpduState} (sends : ts.sending = true) {flags : UInt32}
    (rx : hasFlag flags cemuDataFPbAndRx = false) : (Line.afterByte ts flags).sending = true := by
  unfold Line.afterByte
  rw [rx]
  split_ifs <;> first | rfl | contradiction | exact sends

namespace Course
variable {k : Nat} {l l' : Line} {asked : List UsbMsg} {coming : List Pending}

theorem of_same (h : Course k l asked coming) (st : l'.state = l.state)
    (ts : l'.tpdu.state = l.tpdu.state) (rx : l'.rx = l.rx) (pending : l'.pending = l.pending) :
    Course k l' asked coming := by
  cases h with
  | quiet here empty nothing => exact .quiet (by rwa [st, ts]) (by rwa [rx]) (by rwa [pending])
  | asking here empty report nothing =>
    exact .asking (by rwa [st, ts]) (by rwa [rx]) report (by rwa [pending])
  | answering here empty read answer =>
    exact .answering (by rwa [st, ts]) (by rwa [rx]) read (by rwa [pending])
  | receiving here held nothing =>
    exact .receiving (by rwa [st, ts]) (by rwa [rx]) (by rwa [pending])

theorem outside (h : Course k l asked coming) (st : l.state ≠ .inTpdu) :
    l.rx = none ∧ asked = [] ∧ l.pending = [] ∧ coming = [] := by
  cases h with
  | quiet _ rx nothing => exact ⟨rx, nothing⟩
  | asking here => exact absurd here.1 st
  | answering here => exact absurd here.1 st
  | receiving here => exact absurd here.1 st

theorem ready (h : Course k l asked coming) : l.state.ready = true := by
  cases h with
  | quiet here =>
    obtain st | st | ⟨st, _⟩ := here <;> rw [st] <;> rfl
  | asking here => rw [here.1]; rfl
  | answering here => rw [here.1]; rfl
  | receiving here => rw [here.1]; rfl

theorem rxHeader (st : l.state = .waitTpdu ∧ l.tpdu.state = .waitCla ∨
      l.state = .inTpdu ∧ l.tpdu.state ∈ [.waitIns, .waitP1, .waitP2, .waitP3])
    (rx : l.rx = none) (nothing : asked = [] ∧ l.pending = [] ∧ coming = []) (byte : UInt8)
    {alloc : Alloc} (tag : ∀ t, alloc = some t → t = k) :
    ∃ new, (l.rxByte byte alloc).usb = l.usb ++ new ∧
      (∀ m ∈ new, m.isRxData = true ∧ m.tag = k) ∧
      Course k (l.rxByte byte alloc) (asked ++ new) coming := by
  obtain ⟨rfl, clear, rfl⟩ := nothing
  have inHeader (ts : TpduState) (next : l.rxTpdu byte alloc = { l with tpdu := l.tpdu.put byte })
      (put : (l.tpdu.put byte).state = ts) (header : ts ∈ [.waitIns, .waitP1, .waitP2, .waitP3]) :
      ∃ new, (l.rxByte byte alloc).usb = l.usb ++ new ∧
        (∀ m ∈ new, m.isRxData = true ∧ m.tag = k) ∧
        Course k (l.rxByte byte alloc) ([] ++ new) [] := by
    rw [Line.rxByte, next]
    exact ⟨[], (List.append_nil _).symm, by simp,
      .quiet (.inr (.inr ⟨rfl, by rw [put]; exact header⟩)) rx ⟨rfl, clear, rfl⟩⟩
  cases ts : l.tpdu.state with
  | waitCla =>
    exact inHeader .waitIns (by simp [Line.rxTpdu, ts]) (by simp [Tpdu.put, ts]) (by simp)
  | waitIns => exact inHeader .waitP1 (by simp [Line.rxTpdu, ts]) (by simp [Tpdu.put, ts]) (by simp)
  | waitP1 => exact inHeader .waitP2 (by simp [Line.rxTpdu, ts]) (by simp [Tpdu.put, ts]) (by simp)
  | waitP2 => exact inHeader .waitP3 (by simp [Line.rxTpdu, ts]) (by simp [Tpdu.put, ts]) (by simp)
  | waitP3 =>
    have put : (l.tpdu.put byte).state = .waitPb := by simp [Tpdu.put, ts]
    simp only [Line.rxByte, Line.rxTpdu, ts, Line.flush, rx, Line.sendHeader]
    cases alloc with
    | none =>
      refine ⟨[], by simp, by simp, .answering ⟨rfl, by simp [put]; rfl⟩ rfl rfl ?_⟩
      have still : Answer k (l.pending ++ []) := by
        rw [clear]
        exact .nothing
      exact still
    | some t =>
      refine ⟨_, by simp; rfl, ?_, .asking ⟨rfl, by simp [put]; rfl⟩ rfl ?_ ⟨clear, rfl⟩⟩
      · simp [Line.rxData, UsbMsg.isRxData, tag t rfl]
      · exact ⟨_, rfl, tag t rfl⟩
  | waitPb | waitRx | waitTx => simp [ts] at st

theorem rxBody (st : l.state = .inTpdu ∧ l.tpdu.state = .waitRx)
    (rx : ∀ m, l.rx = some m → m.tag = k) (nothing : asked = [] ∧ l.pending = [] ∧ coming = [])
    (byte : UInt8) {alloc : Alloc} (tag : ∀ t, alloc = some t → t = k) :
    ∃ new, (l.rxByte byte alloc).usb = l.usb ++ new ∧
      (∀ m ∈ new, m.isRxData = true ∧ m.tag = k) ∧
      Course k (l.rxByte byte alloc) (asked ++ new) coming := by
  obtain ⟨rfl, clear, rfl⟩ := nothing
  have body : l.rxTpdu byte alloc = l.addByte byte alloc := by simp [Line.rxTpdu, st.2]
  rw [Line.rxByte, body, Line.addByte]
  cases held : l.rx <|> alloc.map fun tag => { tag := tag } with
  | none =>
    exact ⟨[], by simp, by simp, .receiving ⟨rfl, st.2⟩ rx ⟨rfl, clear, rfl⟩⟩
  | some msg =>
    have own : msg.tag = k := by
      cases now : l.rx with
      | some m =>
        rw [now] at held
        cases held
        exact rx _ now
      | none =>
        rw [now] at held
        cases alloc with
        | none => cases held
        | some t =>
          cases held
          exact tag t rfl
    simp only
    split
    · refine ⟨_, rfl, ?_, .asking ⟨rfl, rfl⟩ rfl ⟨_, rfl, own⟩ ⟨clear, rfl⟩⟩
      simp [Line.rxData, UsbMsg.isRxData, own]
    · refine ⟨[], by simp, by simp, .receiving ⟨rfl, st.2⟩ ?_ ⟨rfl, clear, rfl⟩⟩
      intro m now
      cases now
      exact own

theorem rxByte (h : Course k l asked coming) (st : l.state = .inTpdu) (byte : UInt8)
    {alloc : Alloc} (tag : ∀ t, alloc = some t → t = k) :
    ∃ new, (l.rxByte byte alloc).usb = l.usb ++ new ∧
      (∀ m ∈ new, m.isRxData = true ∧ m.tag = k) ∧
      Course k (l.rxByte byte alloc) (asked ++ new) coming := by
  have unheard (sends : l.tpdu.state.sending = true) : l.rxByte byte alloc = l := by
    have same : l.rxTpdu byte alloc = l := by
      cases ts : l.tpdu.state <;> simp_all [Line.rxTpdu, TpduState.sending]
    rw [Line.rxByte, same, ← st]
  cases h with
  | quiet here rx nothing =>
    obtain here | here | here := here
    · simp [st] at here
    · simp [st] at here
    · exact rxHeader (.inr here) rx nothing byte tag
  | asking here rx report nothing =>
    rw [unheard here.2]
    exact ⟨[], by simp, by simp, by simpa using .asking here rx report nothing⟩
  | answering here rx read answer =>
    rw [unheard here.2]
    exact ⟨[], by simp, by simp, by simpa using .answering here rx read answer⟩
  | receiving here held nothing => exact rxBody here held nothing byte tag

theorem byteSent {p : Pending} {byte : UInt8} {bytes : List UInt8} {rest : List Pending}
    (here : l.state = .inTpdu ∧ l.tpdu.state.sending = true) (rx : l.rx = none)
    (answer : Answer k (p :: (rest ++ coming))) (shape : p.bytes = byte :: bytes)
    (sent : Line.ByteSent l l' p byte bytes rest) : Course k l' [] coming := by
  have st : l'.state = (Line.statesAfter l.tpdu.state p.flags bytes.isEmpty).1 :=
    congrArg Prod.fst sent.states
  have ts : l'.tpdu.state = (Line.statesAfter l.tpdu.state p.flags bytes.isEmpty).2 :=
    congrArg Tpdu.state (congrArg Prod.snd sent.states)
  have rx' : l'.rx = none := sent.rx.trans rx
  have pending := sent.pending
  have goes (still : hasFlag p.flags cemuDataFPbAndRx = false)
      (open' : bytes ≠ [] ∨ hasFlag p.flags cemuDataFFinal = false) :
      l'.state = .inTpdu ∧ l'.tpdu.state.sending = true := by
    have next : Line.statesAfter l.tpdu.state p.flags bytes.isEmpty =
        (.inTpdu, Line.afterByte l.tpdu.state p.flags) := by
      unfold Line.statesAfter
      rw [still]
      cases bytes with
      | nil => simp_all
      | cons => rfl
    rw [st, ts, next]
    exact ⟨rfl, afterByte_sending here.2 still⟩
  generalize behind : rest ++ coming = ps at answer
  cases answer with
  | request tag flags one =>
    obtain ⟨rfl, rfl⟩ := List.append_eq_nil_iff.mp behind
    have none' : bytes = [] := by simpa [shape] using one
    subst none'
    have next : Line.statesAfter l.tpdu.state p.flags true = (.inTpdu, .waitRx) := by
      simp [Line.statesAfter, flags]
    rw [List.isEmpty_nil, next] at st ts
    refine .receiving ⟨st, ts⟩ ?_ ⟨rfl, by simpa using pending, rfl⟩
    intro m held
    rw [rx'] at held
    cases held
  | ending ends =>
    by_cases done : bytes = []
    · subst done
      rw [if_pos rfl] at pending
      cases ends with
      | last tag flags =>
        obtain ⟨rfl, rfl⟩ := List.append_eq_nil_iff.mp behind
        have next : Line.statesAfter l.tpdu.state p.flags true = (.waitTpdu, .waitCla) := by
          simp [Line.statesAfter, flags.1, flags.2]
        rw [List.isEmpty_nil, next] at st
        exact .quiet (.inl st) rx' ⟨rfl, pending, rfl⟩
      | more tag flags ends =>
        refine .answering (goes flags.1 (.inr flags.2)) rx' rfl ?_
        rw [pending, behind]
        exact .ending ends
    · rw [if_neg done] at pending
      have still : hasFlag p.flags cemuDataFPbAndRx = false := by
        cases ends with
        | last _ flags => exact flags.1
        | more _ flags _ => exact flags.1
      refine .answering (goes still (.inl done)) rx' rfl ?_
      rw [pending, List.cons_append, behind]
      cases ends with
      | last tag flags => exact .ending (.last tag flags)
      | more tag flags ends => exact .ending (.more tag flags ends)

theorem txByte (h : Course k l asked coming) (st : l.state = .inTpdu) (sound : l.Sound) :
    (∀ msg queue, l.txMsg = some (msg, queue) → msg.tag = k) ∧
      Course k l.txByte.1 asked coming ∧ l.txByte.1.Sound ∧ l.txByte.1.usb = l.usb := by
  cases left : l.pending with
  | nil =>
    obtain ⟨tx, queue⟩ := Line.pending_nil.mp left
    have idle : l.txMsg = none := by simp [Line.txMsg, tx, queue]
    have same : l.txByte.1 = l := by rw [Line.txByte, idle]
    rw [same]
    exact ⟨by simp [idle], h, sound, rfl⟩
  | cons p rest =>
    obtain ⟨msg, queue, next, info, small, _⟩ := Line.pending_txMsg sound left
    obtain ⟨byte, bytes, shape⟩ : ∃ byte bytes, p.bytes = byte :: bytes := by
      obtain ⟨byte, bytes, shape⟩ := List.exists_cons_of_ne_nil (Msgb.pulled_ne_nil small)
      exact ⟨byte, bytes, by rw [← info]; exact shape⟩
    have sent := Line.byteSent st sound left shape
    cases h with
    | quiet _ _ nothing => simp [left] at nothing
    | asking _ _ _ nothing => simp [left] at nothing
    | receiving _ _ nothing => simp [left] at nothing
    | answering here rx read answer =>
      rw [left, List.cons_append] at answer
      refine ⟨?_, ?_, sent.sound, sent.usb⟩
      · intro msg' queue' next'
        rw [next] at next'
        cases next'
        rw [← answer.tag, ← info]
        rfl
      · subst read
        exact byteSent here rx answer shape sent

theorem hostReceives {m : UsbMsg} {rest : List UsbMsg} {answer : List Pending}
    (h : Course k l (m :: rest) coming) (answers : Answer m.tag answer) :
    Course k l rest (coming ++ answer) := by
  cases h with
  | quiet _ _ nothing => simp at nothing
  | receiving _ _ nothing => simp at nothing
  | answering _ _ read => cases read
  | asking here rx report nothing =>
    obtain ⟨m', one, tag⟩ := report
    cases one
    refine .answering here rx rfl ?_
    rw [nothing.1, nothing.2, ← tag]
    exact answers

theorem deviceReceives {p : Pending} (h : Course k l asked (p :: coming))
    (same : l'.state = l.state ∧ l'.tpdu = l.tpdu ∧ l'.rx = l.rx)
    (queued : l'.pending = l.pending ++ [p]) : Course k l' asked coming := by
  cases h with
  | quiet _ _ nothing => simp at nothing
  | asking _ _ _ nothing => simp at nothing
  | receiving _ _ nothing => simp at nothing
  | answering here rx read answer =>
    refine .answering ?_ ?_ read ?_
    · rwa [same.1, same.2.1]
    · rwa [same.2.2]
    · rwa [queued, List.append_assoc]

end Course

/-! What the host answers. -/

theorem requests_answer (env : HostEnv) (h : Host) (flags : UInt32) (data : List UInt8) (k : Nat) :
    Answer k ((h.processDoRxDa env flags data).2.map fun req => ⟨k, req.flags, req.payload⟩) ∧
      ∀ req ∈ (h.processDoRxDa env flags data).2,
        req.payload ≠ [] ∧ req.payload.length + 14 < 65536 := by
  have asks : hasFlag cemuDataFPbAndRx cemuDataFPbAndRx = true := by decide
  have request (ins : UInt8) : Answer k [⟨k, cemuDataFPbAndRx, [ins]⟩] := .request rfl asks rfl
  have status (sw : UInt8 × UInt8) :
      Ends k [⟨k, cemuDataFPbAndTx ||| cemuDataFFinal, [sw.1, sw.2]⟩] :=
    .last rfl swTx_flags
  have capdu (h : Host) :
      Answer k ((h.txCapduToCard env).2.map fun req => ⟨k, req.flags, req.payload⟩) ∧
        ∀ req ∈ (h.txCapduToCard env).2, req.payload ≠ [] ∧ req.payload.length + 14 < 65536 := by
    cases got : env.transceive (Host.tpdu h.ac) with
    | none =>
      simp only [Host.txCapduToCard, got]
      exact ⟨.nothing, by simp⟩
    | some r =>
      obtain ⟨response, sw⟩ := r
      have room := env.room _ _ _ got
      simp only [Host.txCapduToCard, got]
      by_cases empty : response = []
      · rw [if_pos empty]
        exact ⟨.ending (status sw), by simp [osmoSt2CardemRequestSwTx]⟩
      · rw [if_neg empty]
        refine ⟨.ending (.more rfl pbAndTx_flags (status sw)), ?_⟩
        simp only [List.singleton_append, List.mem_cons, List.not_mem_nil, or_false,
          forall_eq_or_imp, forall_eq, osmoSt2CardemRequestPbAndTx, osmoSt2CardemRequestSwTx,
          List.length_cons, List.length_nil, ne_eq, List.cons_ne_nil, not_false_eq_true, true_and]
        omega
  unfold Host.processDoRxDa
  split
  · exact ⟨.nothing, by simp⟩
  · split
    · exact ⟨.nothing, by simp⟩
    · simp only
      split
      · exact capdu _
      · simp only
        split
        · exact ⟨request _, by simp [osmoSt2CardemRequestPbAndRx]⟩
        · exact ⟨.nothing, by simp⟩

end Simtrace2
