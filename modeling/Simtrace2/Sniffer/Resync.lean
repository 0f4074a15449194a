import Simtrace2.Sniffer.Refinement

/-! A waiting-time timeout between exchanges, and the exchange that follows it. -/
namespace Simtrace2
open Lib Sniffer

def SniffState.AfterAtr (st : SniffState) : Prop :=
  st = .waitTpdu ∨ st = .inTpdu ∨ st = .inPpsReq ∨ st = .waitPpsRsp ∨ st = .inPpsRsp

structure TimeoutOnly (entry : UInt16) : Prop where
  timeout : entry &&& rbuf16FTimeoutWt ≠ 0
  noData : entry &&& rbuf16FDataByte = 0

/-- The reset line has not moved since the last turn. -/
structure Steady (flags : UInt32) : Prop where
  notAsserted : ¬ hasFlag flags sniffChangeFlagResetAssert
  notReleased : ¬ hasFlag flags sniffChangeFlagResetDeassert

/-- Each well-formed exchange is reported whole and without flags. -/
def ReportsNext (s : Sniffer) : Prop :=
  ∀ x : Exchange, x.WellFormed →
    (s.feedAll x.line).sent = s.sent ++ [.data .tpdu 0 x.packet]

namespace Listener
variable {l : Listener}

theorem sendIncomplete_same : l.sendIncomplete.phase = l.phase ∧
    l.sendIncomplete.ring = l.ring ∧ l.sendIncomplete.changeFlags = l.changeFlags ∧
    l.sendIncomplete.alloc = l.alloc := by
  unfold sendIncomplete
  split <;> exact ⟨rfl, rfl, rfl, rfl⟩

def timedOut : Phase → Phase
  | .gotTs _ | .inAtr _ => .waitAtr
  | .inTpdu _ _ | .inPps _ _ => .waitTpdu
  | phase => phase

theorem timeout_same : l.timeout.phase = timedOut l.phase ∧
    (l.ring = [] → l.timeout.ring = []) ∧ l.timeout.changeFlags = l.changeFlags ∧
    l.timeout.alloc = l.alloc := by
  obtain ⟨-, ring, flags, alloc⟩ := sendIncomplete_same (l := l)
  unfold timeout
  split <;> rename_i phase <;> rw [phase]
  · exact ⟨rfl, fun _ => rfl, flags, alloc⟩
  · exact ⟨rfl, fun _ => rfl, flags, alloc⟩
  · exact ⟨rfl, ring.trans, flags, alloc⟩
  · exact ⟨rfl, ring.trans, flags, alloc⟩
  · exact ⟨rfl, id, rfl, rfl⟩
  · exact ⟨rfl, id, rfl, rfl⟩
  · exact ⟨rfl, id, rfl, rfl⟩
  · exact ⟨rfl, id, rfl, rfl⟩

theorem flags_steady (steady : Steady l.changeFlags) : l.flags.phase = l.phase ∧
    l.flags.ring = l.ring ∧ l.flags.changeFlags = 0 ∧ l.flags.alloc = l.alloc := by
  unfold flags
  split
  · rename_i idle
    exact ⟨rfl, rfl, idle, rfl⟩
  · rw [handleReset, if_neg steady.notAsserted, if_neg steady.notReleased]
    exact ⟨rfl, rfl, rfl, rfl⟩

theorem turn_timeout {entry : UInt16} (only : TimeoutOnly entry) (empty : l.ring = [])
    (steady : Steady l.changeFlags) :
    let l' := run step l [.entry entry, .turn]
    l'.phase = timedOut l.phase ∧ l'.ring = [] ∧ l'.changeFlags = 0 ∧ l'.alloc = l.alloc := by
  have taken : { l with ring := [] } = l := by rw [← empty]
  have timeouts : l.entry entry = l.timeout := by
    rw [Listener.entry]
    simp only [only.noData, only.timeout, ne_eq, not_true, if_false, not_false_eq_true, if_true]
  have ran : run step l [.entry entry, .turn] = l.timeout.flags := by
    simp only [run, step, empty]
    rw [if_pos (by decide)]
    simp only [turn, List.nil_append, taken, timeouts]
  obtain ⟨phase, ring, flags, alloc⟩ := timeout_same (l := l)
  obtain ⟨phase', ring', flags', alloc'⟩ := flags_steady (l := l.timeout) (by rwa [flags])
  simp only [ran]
  exact ⟨phase'.trans phase, ring'.trans (ring empty), flags', alloc'.trans alloc⟩

end Listener

theorem timedOut_waitPpsRsp {phase : Phase} (waits : phase.iso = .waitPpsRsp) :
    (Listener.timedOut phase).iso = .waitPpsRsp := by
  cases phase with
  | waitPpsRsp => rfl
  | inPps rsp got => cases rsp <;> contradiction
  | reset | waitAtr | gotTs _ | inAtr _ | waitTpdu | inTpdu _ _ => contradiction

theorem timedOut_waitTpdu {phase : Phase} (after : phase.iso.AfterAtr)
    (other : phase.iso ≠ .waitPpsRsp) : Listener.timedOut phase = .waitTpdu := by
  cases phase with
  | waitTpdu | inTpdu _ _ | inPps _ _ => rfl
  | waitPpsRsp => contradiction
  | reset | waitAtr | gotTs _ | inAtr _ => simp [SniffState.AfterAtr, Phase.iso] at after

/-- While the sniffer waits for the response to a PPS request, it drops every byte but
the first of a PPS. -/
theorem waitPpsRsp_ignores {s : Sniffer} (quiet : s.Quiet) (waits : s.isoState = .waitPpsRsp)
    {bytes : List UInt8} (other : ∀ b ∈ bytes, b ≠ 0xff) : s.feedAll bytes = s := by
  rw [feedAll]
  induction bytes with
  | nil => rfl
  | cons byte bytes ih =>
    have dropped : s.feed (s.convert byte) = s := by
      rw [feed_convert quiet, handleByte, waits]
      simp only [if_neg (other byte (by simp))]
      rw [processByteTpdu, if_pos (by simp [waits])]
    rw [List.map_cons, List.foldl_cons, dropped]
    exact ih fun b hb => other b (by simp [hb])

theorem reportsNext_of_waitTpdu {s : Sniffer} (quiet : s.Quiet) (waits : s.isoState = .waitTpdu)
    (start : s.AtStart) (granted : ∀ n, s.alloc n = true) : ReportsNext s := by
  intro x ok
  obtain ⟨g, feeds, -⟩ := Exchange.reported quiet waits start ok
  rw [feedAll, feeds]
  simp [Sniffer.reported, granted]

/-- After a timeout the next exchange is reported from every state but the one that
waits for a PPS response, which the timeout does not leave. -/
theorem resync_iff (alloc : Nat → Bool) (past : List SniffInput) (entry : UInt16)
    (after : (run Sniffer.step (.init alloc) past).isoState.AfterAtr)
    (empty : (run Sniffer.step (.init alloc) past).sniffBuffer = [])
    (steady : Steady (run Sniffer.step (.init alloc) past).changeFlags)
    (granted : ∀ n, (run Sniffer.step (.init alloc) past).alloc n = true)
    (only : TimeoutOnly entry) :
    let s := run Sniffer.step (.init alloc) past
    ReportsNext (run Sniffer.step s [.entry entry, .turn]) ↔ s.isoState ≠ .waitPpsRsp := by
  intro s
  have follows : Follows s (run Listener.step (.init alloc) past) := follows_run alloc past
  generalize run Listener.step (.init alloc) past = l at follows
  have followed := follows.run [.entry entry, .turn]
  obtain ⟨phase, ring, flags, pool⟩ := Listener.turn_timeout only
    (l := l) (by rw [← follows.1]; exact empty) (by rw [← follows.changeFlags]; exact steady)
  generalize run Listener.step l [.entry entry, .turn] = l' at *
  generalize run Sniffer.step s [.entry entry, .turn] = t at *
  have quiet : t.Quiet :=
    ⟨(congrArg Common.ring followed.1).trans ring, followed.changeFlags.trans flags⟩
  have granted' : ∀ n, t.alloc n = true := by
    intro n
    have same : t.alloc = s.alloc :=
      (congrArg Common.alloc followed.1).trans (pool.trans (congrArg Common.alloc follows.1).symm)
    rw [same]
    exact granted n
  constructor
  · intro reports stuck
    have waits : t.isoState = .waitPpsRsp := by
      rw [followed.iso, phase]
      exact timedOut_waitPpsRsp (follows.iso.symm.trans stuck)
    have reported := reports selectMf selectMf_wellFormed
    rw [waitPpsRsp_ignores quiet waits (by decide +kernel)] at reported
    have longer := congrArg List.length reported
    rw [List.length_append, List.length_singleton] at longer
    omega
  · intro other
    have after : s.isoState.AfterAtr := after
    rw [follows.iso] at after other
    have waits : l'.phase = .waitTpdu := by rw [phase]; exact timedOut_waitTpdu after other
    have held := followed.2
    rw [waits] at held
    exact reportsNext_of_waitTpdu quiet held.1 (fun _ => held.2) granted'

/-- A PPS request that the card does not answer. -/
def unansweredPps : List SniffInput :=
  shortestAtr ++ [.entry 0x80ff, .turn, .entry 0x8000, .turn, .entry 0x80ff, .turn]

theorem resync_after_atr :
    let s := run Sniffer.step (.init fun _ => true) shortestAtr
    ReportsNext (run Sniffer.step s [.entry rbuf16FTimeoutWt, .turn]) ↔ s.isoState ≠ .waitPpsRsp :=
  resync_iff (fun _ => true) shortestAtr rbuf16FTimeoutWt (.inl (by decide +kernel))
    (by decide +kernel) ⟨by decide +kernel, by decide +kernel⟩ (fun _ => rfl)
    ⟨by decide, by decide⟩

theorem unansweredPps_discards :
    ¬ ReportsNext (run Sniffer.step (run Sniffer.step (.init fun _ => true) unansweredPps)
      [.entry rbuf16FTimeoutWt, .turn]) := by
  intro reports
  have reported := reports selectMf selectMf_wellFormed
  revert reported
  decide +kernel

end Simtrace2
