import Simtrace2.CardEmu.Pts
import Simtrace2.Sniffer.Pps

/-! The emulated card and the sniffer on one line: whether they keep the same waiting
time and the same ratio over the PTS exchanges of the reader. -/
namespace Simtrace2
open Lib

structure Wire where
  card : CardemInst
  sniffer : Sniffer

structure PtsExchange where
  request : PtsRequest
  alloc : Alloc

namespace PtsRequest
variable (q : PtsRequest)

theorem bytes_ptss : q.bytes.getD 0 0 = 0xff := q.ptss

theorem bytes_pts0 : q.bytes.getD 1 0 = q.buf.pts0 := by
  simp [bytes, PtsBuf.serializePts, PtsBuf.body]

theorem bytes_length : q.bytes.length = ppsLength (q.bytes.getD 1 0) := by
  rw [bytes_pts0, ppsLength, bytes, PtsBuf.serializePts, PtsBuf.body]
  cases hasBit q.buf.pts0 0x10 <;> cases hasBit q.buf.pts0 0x20 <;>
    cases hasBit q.buf.pts0 0x40 <;> rfl

theorem bytes_pck : xorAll q.bytes = 0 := by
  rw [xorAll, bytes, PtsBuf.serializePts, List.foldl_append, q.pck, PtsBuf.csumPts_eq]
  simp

theorem bytes_fidi : ppsFidi q.bytes = q.pts1.getD q.buf.pts0 := by
  rw [ppsFidi, bytes_pts0, pts1]
  split
  · rename_i announced
    simp [bytes, PtsBuf.serializePts, PtsBuf.body, announced]
  · rfl

/-- D as the sniffer reads it. -/
def sniffD (q : PtsRequest) : Nat :=
  (iso78163DiTable[(q.pts1.map fun pts1 => pts1.toNat % 16).getD 1]?).getD 0

theorem bytes_d : ppsD q.bytes = q.sniffD := by
  rw [ppsD, bytes_fidi, bytes_pts0, sniffD, pts1]
  split <;> rfl

end PtsRequest

namespace Wire

/-- The sniffer hears every byte, whoever sends it. -/
def step (w : Wire) (event : LineEvent) : Wire :=
  ⟨w.card.lineStep event, (w.card.carried event).foldl Sniffer.hears w.sniffer⟩

def exchange (w : Wire) (x : PtsExchange) : Wire := run step w (x.request.exchange x.alloc)

def Agreed (w : Wire) : Prop :=
  w.card.emu.ch.waitingTime = w.sniffer.wt.gWt ∧ w.card.emu.uart.fidi = w.sniffer.fidi

/-- Both have come to the end of an ATR: the indices, D and the ratio are those that the
reset has set, WI is the one that each has found in the ATR. -/
structure AfterAtr (w : Wire) : Prop where
  card : w.card.emu.ch.state = .waitTpdu
  fIndex : w.card.emu.ch.fIndex = 1
  dIndex : w.card.emu.ch.dIndex = 1
  wi : w.card.emu.ch.wi ≠ 0
  waitingTime : w.card.emu.ch.waitingTime = w.card.emu.ch.wi.toNat * 960
  fidi : w.card.emu.uart.fidi = some 372
  quiet : w.sniffer.Quiet
  sniffer : w.sniffer.isoState = .waitTpdu
  atStart : w.sniffer.AtStart
  sniffD : w.sniffer.wt.d = 1
  gWt : w.sniffer.wt.gWt = w.sniffer.wt.wi.toNat * 960
  sniffFidi : w.sniffer.fidi = some 372

/-- What the exchange must be like for the two to agree after it too: PTS1 has a D of
Table 8, or none while D is 1; or there is no PTS1 while D is 1, and PTS0 read as Fi/Di
gives no other ratio than the one in force. -/
def Agreeable (w : Wire) (x : PtsExchange) : Prop :=
  match x.request.pts1 with
  | some pts1 =>
    1 ≤ pts1.toNat % 16 ∧ pts1.toNat % 16 ≤ 9 ∨
      pts1.toNat % 16 = 0 ∧ emuD w.card.emu.ch.dIndex = 1
  | none =>
    let pts0 := x.request.buf.pts0.toNat
    emuD w.card.emu.ch.dIndex = 1 ∧
      (usFidiRatio (pts0 / 16) (pts0 % 16) = none ∨
        usFidiRatio (pts0 / 16) (pts0 % 16) = w.card.emu.uart.fidi)

theorem run_step (w : Wire) (events : List LineEvent) : run step w events =
    ⟨run CardemInst.lineStep w.card events,
      (trace CardemInst.lineStep CardemInst.carried w.card events).foldl Sniffer.hears w.sniffer⟩ := by
  induction events generalizing w with
  | nil => rfl
  | cons event events ih =>
    rw [run, ih, trace, List.foldl_append]
    rfl

/-- What holds between two exchanges, whether the two agree or not. -/
structure Steady (w : Wire) : Prop where
  card : w.card.emu.ch.state = .waitTpdu
  waitingTime : w.card.emu.ch.waitingTime =
    w.card.emu.ch.wi.toNat * 960 * emuD w.card.emu.ch.dIndex
  settled : (usFidiRatio w.card.emu.ch.fIndex w.card.emu.ch.dIndex <|> w.card.emu.uart.fidi) =
    w.card.emu.uart.fidi
  sniffer : ∃ l : Listener, Tuned w.sniffer l w.sniffer.fidi ∧ l.phase = .waitTpdu
  gWt : w.sniffer.wt.gWt = w.sniffer.wt.wi.toNat * 960 * w.sniffer.wt.d
  d : w.sniffer.wt.d ≠ 0
  wi : w.card.emu.ch.wi = w.sniffer.wt.wi
  wi_pos : 0 < w.card.emu.ch.wi.toNat

theorem exchanged {w : Wire} (h : w.Steady) (x : PtsExchange) :
    PtsTaken w.card.emu (w.exchange x).card.emu x.request.pts1 ∧
    (w.exchange x).sniffer.fidi =
      (usFidiRatio ((x.request.pts1.getD x.request.buf.pts0).toNat / 16)
        ((x.request.pts1.getD x.request.buf.pts0).toNat % 16) <|> w.sniffer.fidi) ∧
    (w.exchange x).sniffer.wt = w.sniffer.wt.update 0 x.request.sniffD ∧
    ∃ l : Listener, Tuned (w.exchange x).sniffer l (w.exchange x).sniffer.fidi ∧
      l.phase = .waitTpdu := by
  obtain ⟨accepted, line⟩ := CardemInst.pts_exchange h.card x.request x.alloc
  have taken : PtsTaken _ _ x.request.pts1 := accepted.toPtsTaken
  obtain ⟨l, tuned, phase⟩ := h.sniffer
  obtain ⟨l', tuned', phase', wt⟩ := tuned.exchange phase x.request.bytes_ptss
    x.request.bytes_length x.request.bytes_pck
  rw [x.request.bytes_fidi] at tuned'
  rw [x.request.bytes_d, ← tuned.follows.wt] at wt
  have ends : w.exchange x = ⟨run CardemInst.lineStep w.card (x.request.exchange x.alloc),
      (x.request.bytes ++ x.request.bytes).foldl Sniffer.hears w.sniffer⟩ := by
    rw [exchange, run_step, line]
  have card : (w.exchange x).card =
      run CardemInst.lineStep w.card (x.request.exchange x.alloc) := by rw [ends]
  have sniffer : (w.exchange x).sniffer =
      (x.request.bytes ++ x.request.bytes).foldl Sniffer.hears w.sniffer := by rw [ends]
  rw [← card] at taken
  rw [← sniffer] at tuned'
  have ratio := tuned'.ratio
  rw [← ratio] at tuned'
  exact ⟨taken, ratio, tuned'.follows.wt.trans wt, l', tuned', phase'⟩

theorem orElse_keeps {ratio fidi : Option Nat} :
    (ratio <|> fidi) = fidi ↔ ratio = none ∨ ratio = fidi := by
  cases ratio with
  | none => simp
  | some ratio => simp

/-- Table 8 has a D for the indices 1 to 9. The sniffer also reads what the table had in
former times for 10 to 15, and keeps its D where the table has zero. -/
theorem emuD_eq_iff {n : Nat} (small : n < 16) (d : Nat) :
    (emuD n = if (iso78163DiTable[n]?).getD 0 ≠ 0 then (iso78163DiTable[n]?).getD 0 else d) ↔
      1 ≤ n ∧ n ≤ 9 ∨ n = 0 ∧ d = 1 := by
  by_cases zero : n = 0
  · subst zero
    simp [emuD, iso78163DiTable, eq_comm]
  · have fixed : (iso78163DiTable[n]?).getD 0 ≠ 0 := by
      revert n
      decide
    have same : emuD n = (iso78163DiTable[n]?).getD 0 ↔ 1 ≤ n ∧ n ≤ 9 := by
      revert n
      decide
    simp [fixed, same, zero]

namespace Steady
variable {w : Wire}

theorem exchange (h : w.Steady) (x : PtsExchange) : (w.exchange x).Steady := by
  obtain ⟨taken, fidi, wt, sniffer⟩ := exchanged h x
  obtain ⟨state, fIndex, dIndex, wi, waitingTime, ratio⟩ := taken
  constructor
  · exact state
  · rw [waitingTime, wi]
  · rw [ratio]
    cases usFidiRatio (w.exchange x).card.emu.ch.fIndex (w.exchange x).card.emu.ch.dIndex with
    | none => rfl
    | some ratio => rfl
  · exact sniffer
  · rw [wt, SniffWt.update_gWt]
  · rw [wt, SniffWt.update]
    simp only
    split
    · assumption
    · exact h.d
  · rw [wi, wt, h.wi]
    rfl
  · rw [wi]
    exact h.wi_pos

theorem same_d (h : w.Steady) (agreed : w.Agreed) :
    emuD w.card.emu.ch.dIndex = w.sniffer.wt.d := by
  have same := agreed.1
  rw [h.waitingTime, h.gWt, h.wi] at same
  have pos := h.wi_pos
  rw [h.wi] at pos
  exact Nat.eq_of_mul_eq_mul_left (by omega) same

theorem agreed_iff (h : w.Steady) (agreed : w.Agreed) (x : PtsExchange) :
    (w.exchange x).Agreed ↔ w.Agreeable x := by
  obtain ⟨taken, fidi, wt, sniffer⟩ := exchanged h x
  obtain ⟨state, fIndex, dIndex, wi, waitingTime, ratio⟩ := taken
  have pos := h.wi_pos
  have d := h.same_d agreed
  have gWt : (w.exchange x).sniffer.wt.gWt = w.card.emu.ch.wi.toNat * 960 *
      (if x.request.sniffD ≠ 0 then x.request.sniffD else w.sniffer.wt.d) := by
    rw [wt, h.wi]
    rfl
  rw [Agreed, waitingTime, gWt, ratio, fidi, Nat.mul_right_inj (by omega), ← agreed.2]
  unfold Agreeable
  cases first : x.request.pts1 with
  | some pts1 =>
    rw [first] at fIndex dIndex
    have small : pts1.toNat % 16 < 16 := Nat.mod_lt _ (by decide)
    simp only [fIndex, dIndex, PtsRequest.sniffD, first, Option.map_some, Option.getD_some]
    rw [emuD_eq_iff small, d]
    simp
  | none =>
    rw [first] at fIndex dIndex
    have d1 : x.request.sniffD = 1 := by
      rw [PtsRequest.sniffD, first]
      rfl
    simp only [fIndex, dIndex, Option.map_none, Option.getD_none, d1, h.settled]
    rw [eq_comm (a := w.card.emu.uart.fidi), orElse_keeps]
    simp

end Steady

theorem AfterAtr.steady {w : Wire} (start : w.AfterAtr)
    (same : w.card.emu.ch.waitingTime = w.sniffer.wt.gWt) : w.Steady ∧ w.Agreed := by
  have wi : w.card.emu.ch.wi = w.sniffer.wt.wi := by
    rw [start.waitingTime, start.gWt] at same
    exact UInt8.toNat_inj.mp (by omega)
  have d1 : emuD w.card.emu.ch.dIndex = 1 := by
    rw [start.dIndex]
    rfl
  refine ⟨⟨start.card, ?_, ?_, ?_, ?_, ?_, wi, ?_⟩, same, start.fidi.trans start.sniffFidi.symm⟩
  · rw [start.waitingTime, d1, Nat.mul_one]
  · rw [start.fIndex, start.dIndex, start.fidi]
    rfl
  · obtain ⟨state, count⟩ := start.atStart start.sniffer
    exact ⟨⟨w.sniffer.common, .waitTpdu⟩, ⟨start.quiet, ⟨rfl, start.sniffer, state, count⟩, rfl⟩, rfl⟩
  · rw [start.gWt, start.sniffD, Nat.mul_one]
  · rw [start.sniffD]
    decide
  · exact Nat.pos_of_ne_zero fun zero => start.wi (UInt8.toNat_inj.mp zero)

/-- Over any sequence of exchanges the two agree after each one exactly when each one is
agreeable in the state that it finds. -/
theorem agreed_iff_agreeable {w : Wire} (start : w.AfterAtr)
    (same : w.card.emu.ch.waitingTime = w.sniffer.wt.gWt) (xs : List PtsExchange) :
    Always exchange Agreed w xs ↔ Meets exchange Agreeable w xs := by
  obtain ⟨steady, agreed⟩ := start.steady same
  exact always_iff_meets Steady (fun w x h => h.exchange x) (fun w x h => h.agreed_iff (x := x))
    steady agreed xs

/-- A card that has been powered and an idle sniffer, both reset, and the default ATR. -/
def session : Wire :=
  let off : Uart := ⟨.off, false, 0, none, []⟩
  let card := ((cardEmuInit 0 1 2 true false true off [] []).cardEmuIoStatechg .vcc true
    none).cardEmuWtimeExpired
  let sniffer := run Sniffer.step (.init fun _ => true)
    [.change sniffChangeFlagResetDeassert, .turn, .change sniffChangeFlagResetAssert, .turn,
      .change sniffChangeFlagResetDeassert, .turn]
  run step ⟨⟨card, .untouched .absent, false, none⟩, sniffer⟩ (List.replicate 8 .txrdy)

theorem session_afterAtr : session.AfterAtr where
  card := by decide +kernel
  fIndex := by decide +kernel
  dIndex := by decide +kernel
  wi := by decide +kernel
  waitingTime := by decide +kernel
  fidi := by decide +kernel
  quiet := ⟨by decide +kernel, by decide +kernel⟩
  sniffer := by decide +kernel
  atStart := fun _ => ⟨by decide +kernel, by decide +kernel⟩
  sniffD := by decide +kernel
  gWt := by decide +kernel
  sniffFidi := by decide +kernel

def onlyPps1 (pps1 : UInt8) : PtsExchange := ⟨.of 0x10 pps1 0 0, none⟩

def onlyPps0 : PtsExchange := ⟨.of 0 0 0 0, none⟩

theorem session_agrees :
    Always exchange Agreed session [onlyPps1 0x94, onlyPps1 0x91, onlyPps0] :=
  (agreed_iff_agreeable session_afterAtr (by decide +kernel) _).mpr
    ⟨.inl ⟨by decide, by decide⟩, .inl ⟨by decide, by decide⟩,
      ⟨by decide +kernel, .inl (by decide +kernel)⟩, trivial⟩

/-- Without PPS1 the sniffer goes back to D = 1 and the card keeps its D. -/
theorem absent_pps1_disagrees : session.AfterAtr ∧
    session.card.emu.ch.waitingTime = session.sniffer.wt.gWt ∧
    ¬ Always exchange Agreed session [onlyPps1 0x94, onlyPps0] := by
  refine ⟨session_afterAtr, ?_, ?_⟩
  · decide +kernel
  · intro always
    have last := (always _ (List.prefix_refl _)).1
    revert last
    decide +kernel

end Wire
end Simtrace2
