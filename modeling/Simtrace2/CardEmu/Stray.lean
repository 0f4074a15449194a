import Simtrace2.CardEmu.Pts

/-! Bytes of the reader that the card comes to while it answers a PTS request. -/
namespace Simtrace2
open Lib

/-- What a byte should leave alone while the card answers. -/
structure AnswerKept (e e' : Emu) : Prop where
  state : e'.ch.pts.state = e.ch.pts.state
  resp : e'.ch.pts.resp = e.ch.pts.resp
  fIndex : e'.ch.fIndex = e.ch.fIndex
  dIndex : e'.ch.dIndex = e.ch.dIndex

structure StrayByte where
  byte : UInt8
  alloc : Alloc

/-- The interrupts of an answer, each with the stray bytes that are handled before it. -/
def interleaved (gaps : List (List StrayByte)) : List LineEvent :=
  gaps.flatMap fun strays => strays.map (fun s => .reader s.byte s.alloc) ++ [.txrdy]

namespace CardemInst

/-- A step that is no interrupt keeps the answer. -/
def KeepsAnswer (ci : CardemInst) (event : LineEvent) : Prop :=
  event = .txrdy ∨ AnswerKept ci.emu (ci.lineStep event).emu

/-- The answer to the request goes out as if there were no stray bytes. -/
structure Undisturbed (ci : CardemInst) (q : PtsRequest) (events : List LineEvent) : Prop where
  kept : Meets lineStep KeepsAnswer ci events
  sent : (run lineStep ci events).emu.uart.sent = ci.emu.uart.sent ++ q.bytes
  state : (run lineStep ci events).emu.ch.state = .waitTpdu

end CardemInst

theorem nextPtsByte_ne (pts0 : UInt8) (i : PtsByte) : nextPtsByte pts0 i ≠ i := by
  unfold nextPtsByte
  grind

/-- The error branch for a byte that is not expected goes on to the next state too. -/
theorem Emu.stray_moves {e : Emu} (st : e.ch.state = .inPts) (resp : e.ch.pts.state.isResp = true)
    (byte : UInt8) (alloc : Alloc) :
    (e.cardEmuProcessRxByte byte alloc).ch.pts.state =
      ⟨true, nextPtsByte e.ch.pts.resp.pts0 e.ch.pts.state.sstate⟩ := by
  have pts : e.ch.pts.state ≠ ⟨false, .pck⟩ := by
    intro same
    rw [same] at resp
    contradiction
  have more := nextPtsByte_ne_ptss e.ch.pts.resp.pts0 e.ch.pts.state.sstate
  simp [cardEmuProcessRxByte, st, processBytePts, Pts.store, resp, pts, Pts.answer, setPtsState,
    nextPtsState, more]

namespace CardemInst

theorem not_kept {e : Emu} (st : e.ch.state = .inPts) (resp : e.ch.pts.state.isResp = true)
    (byte : UInt8) (alloc : Alloc) : ¬AnswerKept e (e.cardEmuProcessRxByte byte alloc) := by
  intro kept
  have moved := (e.stray_moves st resp byte alloc).symm.trans kept.state
  exact nextPtsByte_ne _ _ (congrArg PtsState.sstate moved)

theorem first_gap {ci : CardemInst} (st : ci.emu.ch.state = .inPts)
    (resp : ci.emu.ch.pts.state.isResp = true) {gap : List StrayByte} {gaps : List (List StrayByte)}
    (kept : Meets lineStep KeepsAnswer ci (interleaved (gap :: gaps))) :
    gap = [] ∧ Meets lineStep KeepsAnswer ci.usartIrqTx (interleaved gaps) := by
  cases gap with
  | nil => exact ⟨rfl, kept.2⟩
  | cons stray strays =>
    have first : KeepsAnswer ci (.reader stray.byte stray.alloc) := kept.1
    obtain irq | kept := first
    · contradiction
    · exact absurd kept (not_kept st resp stray.byte stray.alloc)

/-- Where nothing is disturbed there are no stray bytes; the induction is on the bytes of the
answer that are still to be said. -/
theorem no_strays {ci : CardemInst} {i : PtsByte} {resp : PtsBuf} {rest : List PtsByte}
    (next : ptsAfter resp.pts0 i = rest) (on : ci.emu.uart.txrdy = true)
    (st : ci.emu.ch.state = .inPts) (pts : ci.emu.ch.pts.state = ⟨true, i⟩)
    (held : ci.emu.ch.pts.resp = resp) {gaps : List (List StrayByte)}
    (length : gaps.length = (i :: rest).length)
    (kept : Meets lineStep KeepsAnswer ci (interleaved gaps)) : ∀ gap ∈ gaps, gap = [] := by
  induction rest generalizing i ci gaps with
  | nil =>
    obtain ⟨gap, rfl⟩ := List.length_eq_one_iff.mp length
    have none := (first_gap st (by rw [pts]) kept).1
    simpa using none
  | cons j rest ih =>
    obtain ⟨gap, gaps, rfl⟩ := List.exists_cons_of_length_eq_add_one length
    obtain ⟨none, keptOn⟩ := first_gap st (by rw [pts]) kept
    obtain ⟨more, rfl, behind⟩ := ptsAfter_cons next
    have said : ci.usartIrqTx.emu = ci.emu.saidPts resp i := by rw [tx_more on st pts held more]
    have ch := Emu.saidPts_ch pts resp
    have uart := ci.emu.saidPts_uart resp i
    rw [← said] at ch uart
    have still : ci.usartIrqTx.emu.uart.txrdy = true := by rw [uart]; exact on
    have later := ih behind still (by rw [ch]; exact st) (by rw [ch]) (by rw [ch]; exact held)
      (Nat.succ_inj.mp length) keptOn
    exact List.forall_mem_cons.mpr ⟨none, later⟩

theorem interleaved_empty {gaps : List (List StrayByte)} (none : ∀ gap ∈ gaps, gap = []) :
    interleaved gaps = List.replicate gaps.length .txrdy := by
  induction gaps with
  | nil => rfl
  | cons gap gaps ih =>
    obtain ⟨rfl, later⟩ := List.forall_mem_cons.mp none
    rw [List.length_cons, List.replicate_succ, ← ih later]
    rfl

theorem irqs_keep (ci : CardemInst) (n : Nat) :
    Meets lineStep KeepsAnswer ci (List.replicate n .txrdy) := by
  induction n generalizing ci with
  | zero => trivial
  | succ n ih => exact ⟨.inl rfl, ih ci.usartIrqTx⟩

/-- The card that has taken a request. -/
def asked (ci : CardemInst) (q : PtsRequest) (alloc : Alloc) : CardemInst :=
  run lineStep ci (q.bytes.map (.reader · alloc))

/-- A stray byte always disturbs the answer: the answer is undisturbed exactly when no byte is
handled before it has gone out. -/
theorem undisturbed_iff (ci : CardemInst) (st : ci.emu.ch.state = .waitTpdu) (q : PtsRequest)
    (alloc : Alloc) (gaps : List (List StrayByte)) (length : gaps.length = q.bytes.length) :
    (∀ e : Emu, e.ch.state = .inPts → e.ch.pts.state.isResp = true → ∀ byte alloc,
      ¬AnswerKept e (e.cardEmuProcessRxByte byte alloc)) ∧
    (Undisturbed (ci.asked q alloc) q (interleaved gaps) ↔ ∀ gap ∈ gaps, gap = []) := by
  refine ⟨fun e inPts resp byte alloc => not_kept inPts resp byte alloc, ?_⟩
  obtain ⟨req, same, heard⟩ := Emu.request_heard st q alloc
  have request : ci.asked q alloc = _ := (ci.request_run q.bytes alloc).1
  rw [heard] at request
  constructor
  · intro h
    have announced : ptsAfter req.pts0 .ptss = ptsAfter req.pts0 .ptss := rfl
    refine no_strays announced ?_ ?_ ?_ ?_ ?_ h.kept
    · rw [request]
      rfl
    · simp [request, Emu.heardPts]
    · simp [request, Emu.heardPts]
    · simp [request, Emu.heardPts]
    · rw [length, ← same, serializePts_eq, List.length_map]
  · intro none
    have whole := (pts_exchange st q alloc).1
    have unsent : (ci.asked q alloc).emu.uart.sent = ci.emu.uart.sent := by
      rw [request]
      cases alloc <;> rfl
    rw [PtsRequest.exchange, run_append, ← length] at whole
    rw [interleaved_empty none]
    refine ⟨irqs_keep _ _, ?_, whole.state⟩
    rw [unsent]
    exact whole.sent

def waiting : CardemInst where
  emu := { cardEmuInit 0 1 2 true false true ⟨.rx, false, 0, some 372, []⟩ [] [] with
    ch.state := .waitTpdu }
  pinInsert := .untouched .absent
  pinInsertInverted := false
  gMuxSlot := none

theorem quiet_answer_undisturbed :
    let q := PtsRequest.of 0x10 0x96 0 0
    Undisturbed (waiting.asked q none) q (interleaved [[], [], [], []]) :=
  (undisturbed_iff waiting rfl (PtsRequest.of 0x10 0x96 0 0) none [[], [], [], []] rfl).2.mpr
    (by decide)

/-- One stray byte before the answer: the card leaves out the PTSS. -/
theorem stray_swallows_ptss :
    let q := PtsRequest.of 0x10 0x96 0 0
    let events := interleaved [[⟨0, none⟩], [], [], []]
    (run lineStep (waiting.asked q none) events).emu.uart.sent = [0x10, 0x96, 0x79] ∧
      ¬Undisturbed (waiting.asked q none) q events := by
  refine ⟨by decide, fun h => ?_⟩
  exact absurd h.sent (by decide)

end CardemInst
end Simtrace2
