import Simtrace2.Sniffer.Refinement

/-! What a card reset leaves of the traffic before it: the convention flag, which is
cleared only when the first byte has been converted. -/
namespace Simtrace2
open Lib Sniffer

theorem hasFlag_or {flags more bit : UInt32} (h : hasFlag more bit) :
    hasFlag (flags ||| more) bit := by
  simp only [hasFlag, bne_iff_ne, ne_eq] at *
  have distrib : (flags ||| more) &&& bit = (flags &&& bit) ||| (more &&& bit) :=
    UInt32.toBitVec_inj.mp BitVec.and_or_distrib_right
  intro none
  rw [distrib, UInt32.or_eq_zero_iff] at none
  exact h none.2

def resetInTwoTurns : List SniffInput :=
  [.change sniffChangeFlagResetAssert, .turn, .change sniffChangeFlagResetDeassert, .turn]

def resetInOneTurn : List SniffInput :=
  [.change (sniffChangeFlagResetAssert ||| sniffChangeFlagResetDeassert), .turn]

/-- The reset line is asserted and released. -/
def resetCycles : List (List SniffInput) := [resetInTwoTurns, resetInOneTurn]

def SniffInput.isTraffic : SniffInput → Bool
  | .entry _ | .turn => true
  | .change _ => false

/-- The same state, its messages recorded from here on, with given answers of the pool. -/
def Sniffer.watched (s : Sniffer) (answers : Nat → Bool) : Sniffer :=
  { s with alloc := answers, asked := 0, sent := [] }

/-- Whatever the pool answers and whatever comes on the line, the two submit the same
messages and end with the same waiting time. -/
def SameSession (s1 s2 : Sniffer) : Prop :=
  ∀ answers inputs, (∀ input ∈ inputs, input.isTraffic) →
    (run Sniffer.step (s1.watched answers) inputs).sent =
        (run Sniffer.step (s2.watched answers) inputs).sent ∧
      (run Sniffer.step (s1.watched answers) inputs).wt.gWt =
        (run Sniffer.step (s2.watched answers) inputs).wt.gWt

namespace Listener

def watched (l : Listener) (answers : Nat → Bool) : Listener :=
  { l with alloc := answers, asked := 0, sent := [] }

/-- A listener before an ATR, of which only the convention is left open. -/
def fresh (convert : Bool) (answers : Nat → Bool) : Listener :=
  { phase := .waitAtr, convert, wt := .default, changeFlags := 0, ring := [], alloc := answers
    asked := 0, sent := [] }

theorem advance_awake (l : Listener) (a : AtrReading) : (l.advance a).phase ≠ .reset := by
  unfold advance finishAtr
  split
  · simp
  · split <;> simp

theorem hearAtr_awake (l : Listener) (a : AtrReading) (byte : UInt8) :
    (l.hearAtr a byte).phase ≠ .reset := by
  simp only [hearAtr]
  split
  · exact advance_awake _ _
  · split <;> exact advance_awake _ _
  · exact advance_awake _ _

theorem hearTpdu_awake {l : Listener} (awake : l.phase ≠ .reset) (got : List UInt8) (byte : UInt8)
    (st : TpduSniffState) : (l.hearTpdu got byte st).phase ≠ .reset := by
  cases st with
  | cla | p1 | p2 | p3 | sw2 | dataSingle => simp [hearTpdu]
  | ins | sw1 | dataRemaining =>
    simp only [hearTpdu, hearSw1, malformed]
    split <;> simp
  | procedure =>
    simp only [hearTpdu, hearProcedure, hearSw1, malformed]
    split_ifs <;> simp [awake]

theorem hearPps_awake (l : Listener) (rsp : Bool) (got : List UInt8) :
    (l.hearPps rsp got).phase ≠ .reset := by
  simp only [hearPps, finishPps]
  split_ifs <;> simp

theorem hear_awake {l : Listener} (awake : l.phase ≠ .reset) (byte : UInt8) :
    (l.hear byte).phase ≠ .reset := by
  unfold hear
  split
  · exact awake
  · unfold hearTs waitAtr
    split_ifs <;> simp
  · exact advance_awake _ _
  · split
    · exact awake
    · exact hearAtr_awake _ _ _
  · split <;> simp
  · split
    · exact awake
    · exact hearTpdu_awake awake _ _ _
  · exact hearPps_awake _ _ _
  · split
    · simp
    · exact awake

/-- In reset the waiting time is the default one. -/
def ResetWt (l : Listener) : Prop := l.phase = .reset → l.wt = .default

theorem ResetWt.hear {l : Listener} (h : l.ResetWt) (byte : UInt8) : (l.hear byte).ResetWt := by
  by_cases reset : l.phase = .reset
  · rw [Listener.hear, reset]
    exact h
  · exact fun same => absurd same (hear_awake reset byte)

theorem ResetWt.timeout {l : Listener} (h : l.ResetWt) : l.timeout.ResetWt := by
  unfold Listener.timeout
  split
  · intro same; simp [waitAtr] at same
  · intro same; simp [waitAtr] at same
  · intro same; simp at same
  · intro same; simp at same
  · exact h
  · exact h
  · exact h
  · exact h

theorem ResetWt.entry {l : Listener} (h : l.ResetWt) (entry : UInt16) : (l.entry entry).ResetWt := by
  simp only [Listener.entry]
  split_ifs
  · exact (h.hear _).timeout
  · exact h.timeout
  · exact h.hear _
  · exact h

/-- After the assertion the waiting time is the default one, and the rest is as before. -/
theorem ResetWt.assertReset {l : Listener} (h : l.ResetWt) :
    l.assertReset.phase = .reset ∧ l.assertReset.wt = .default ∧
      l.assertReset.convert = l.convert ∧ l.assertReset.ring = l.ring := by
  have sent : l.sendIncomplete.convert = l.convert ∧ l.sendIncomplete.ring = l.ring := by
    unfold sendIncomplete
    split <;> exact ⟨rfl, rfl⟩
  unfold Listener.assertReset
  split
  · rename_i reset
    exact ⟨reset, h reset, rfl, rfl⟩
  · exact ⟨rfl, rfl, sent⟩

theorem deassertReset_phase (l : Listener) : l.deassertReset.phase = .waitAtr := by
  unfold deassertReset
  split
  · assumption
  · rfl

theorem deassertReset_same {l : Listener} (empty : l.ring = []) :
    l.deassertReset.wt = l.wt ∧ l.deassertReset.convert = l.convert ∧ l.deassertReset.ring = [] := by
  unfold deassertReset
  split
  · exact ⟨rfl, rfl, empty⟩
  · exact ⟨rfl, rfl, rfl⟩

theorem ResetWt.flags {l : Listener} (h : l.ResetWt) : l.flags.ResetWt := by
  have released (l : Listener) : l.deassertReset.ResetWt := by
    intro same
    simp [deassertReset_phase] at same
  have reset : (l.handleReset l.changeFlags).ResetWt := by
    simp only [handleReset]
    split_ifs
    · exact released _
    · exact released _
    · exact fun _ => h.assertReset.2.1
    · exact h
  unfold Listener.flags
  split
  · exact h
  · exact reset

theorem ResetWt.step {l : Listener} (h : l.ResetWt) (input : SniffInput) : (l.step input).ResetWt := by
  cases input with
  | entry entry =>
    rw [Listener.step]
    split <;> exact h
  | change flags => exact h
  | turn =>
    rw [Listener.step, turn]
    apply ResetWt.flags
    split
    · exact h
    · rename_i entry ring _
      have taken : { l with ring }.ResetWt := h
      exact taken.entry entry

theorem turn_empty {l : Listener} (empty : l.ring = []) : l.turn = l.flags := by
  rw [turn, empty]

theorem handled {l : Listener} (empty : l.ring = []) {flags : UInt32}
    (some : l.changeFlags ||| flags ≠ 0) :
    run step l [.change flags, .turn] =
      { ({ l with changeFlags := l.changeFlags ||| flags }.handleReset
          (l.changeFlags ||| flags)).submit (.change (l.changeFlags ||| flags)) with
        changeFlags := 0 } := by
  have turns := turn_empty (l := { l with changeFlags := l.changeFlags ||| flags }) empty
  simp only [run, step]
  rw [turns, Listener.flags, if_neg some]

theorem some_flags {flags more bit : UInt32} (h : hasFlag more bit) : flags ||| more ≠ 0 := by
  intro none
  have set : hasFlag (flags ||| more) bit := hasFlag_or h
  rw [none] at set
  simp [hasFlag] at set

/-- The state from the assertion of the reset on. -/
structure Erased (convert : Bool) (l : Listener) : Prop where
  wt : l.wt = .default
  convert : l.convert = convert
  ring : l.ring = []
  flags : l.changeFlags = 0

theorem Erased.asserted {l : Listener} (h : l.ResetWt) (empty : l.ring = []) {flags : UInt32}
    (assert : hasFlag flags sniffChangeFlagResetAssert) :
    Erased l.convert (run step l [.change flags, .turn]) := by
  obtain ⟨-, wt, convert, ring⟩ :=
    ResetWt.assertReset (l := { l with changeFlags := l.changeFlags ||| flags }) h
  obtain ⟨wt', convert', ring'⟩ := deassertReset_same (ring.trans empty)
  rw [handled empty (some_flags assert), handleReset, if_pos (hasFlag_or assert)]
  split
  · exact ⟨wt'.trans wt, convert'.trans convert, ring', rfl⟩
  · exact ⟨wt, convert, ring.trans empty, rfl⟩

theorem Erased.released {l : Listener} {convert : Bool} (h : Erased convert l) :
    let l' := run step l [.change sniffChangeFlagResetDeassert, .turn]
    Erased convert l' ∧ l'.phase = .waitAtr := by
  obtain ⟨wt, convert', ring⟩ := deassertReset_same
    (l := { l with changeFlags := l.changeFlags ||| sniffChangeFlagResetDeassert }) h.ring
  have only :
      ¬ hasFlag (l.changeFlags ||| sniffChangeFlagResetDeassert) sniffChangeFlagResetAssert := by
    rw [h.flags]
    decide
  have deassert : hasFlag sniffChangeFlagResetDeassert sniffChangeFlagResetDeassert := by decide
  simp only
  rw [handled h.ring (some_flags deassert), handleReset,
    if_neg only, if_pos (hasFlag_or (by decide))]
  exact ⟨⟨wt.trans h.wt, convert'.trans h.convert, ring, rfl⟩, deassertReset_phase _⟩

theorem Erased.cycle {l : Listener} (h : l.ResetWt) (empty : l.ring = [])
    {cycle : List SniffInput} (known : cycle ∈ resetCycles) :
    Erased l.convert (run step l cycle) ∧ (run step l cycle).phase = .waitAtr := by
  simp only [resetCycles, List.mem_cons, List.not_mem_nil, or_false] at known
  obtain rfl | rfl := known
  · have asserted : Erased l.convert (run step l [.change sniffChangeFlagResetAssert, .turn]) :=
      Erased.asserted h empty (by decide)
    exact asserted.released
  · refine ⟨Erased.asserted h empty (by decide), ?_⟩
    have assert : hasFlag (sniffChangeFlagResetAssert ||| sniffChangeFlagResetDeassert)
        sniffChangeFlagResetAssert := by decide
    rw [resetInOneTurn, handled empty (some_flags assert), handleReset, if_pos (hasFlag_or assert),
      if_pos (hasFlag_or (by decide))]
    exact deassertReset_phase _

/-- Nothing is left of the past but the convention flag. -/
theorem cycle_fresh {l : Listener} (h : l.ResetWt) (empty : l.ring = [])
    {cycle : List SniffInput} (known : cycle ∈ resetCycles) (answers : Nat → Bool) :
    (run step l cycle).watched answers = fresh l.convert answers := by
  obtain ⟨erased, waits⟩ := Erased.cycle h empty known
  rw [watched, erased.wt, erased.convert, erased.ring, erased.flags, waits, fresh]

theorem fresh_garbage (convert : Bool) :
    (run step (fresh convert fun _ => true) [.entry 0x8000, .turn]).sent =
      [.data .atr sniffDataFlagErrorMalformed [if convert then 0xff else 0]] := by
  cases convert <;> rfl

theorem fresh_tells {c1 c2 : Bool}
    (same : (run step (fresh c1 fun _ => true) [.entry 0x8000, .turn]).sent =
      (run step (fresh c2 fun _ => true) [.entry 0x8000, .turn]).sent) : c1 = c2 := by
  rw [fresh_garbage, fresh_garbage] at same
  cases c1 <;> cases c2 <;> simp at same ⊢

end Listener

theorem Follows.watched {s : Sniffer} {l : Listener} (h : Follows s l) (answers : Nat → Bool) :
    Follows (s.watched answers) (l.watched answers) := by
  refine ⟨?_, h.2.aside _ _ _ _ _ _⟩
  simp only [Listener.watched, ← h.1]
  rfl

/-- After a reset the sniffer is a fresh listener, up to the convention flag. -/
theorem follows_fresh (alloc : Nat → Bool) (past : List SniffInput)
    (empty : (run Sniffer.step (.init alloc) past).sniffBuffer = []) {cycle : List SniffInput}
    (known : cycle ∈ resetCycles) (answers : Nat → Bool) :
    let s := run Sniffer.step (.init alloc) past
    Follows ((run Sniffer.step s cycle).watched answers) (.fresh s.conventionConvert answers) := by
  intro s
  have past' := follows_run alloc past
  have reset : (run Listener.step (.init alloc) past).ResetWt :=
    run_invariant Listener.ResetWt (fun _ input h => h.step input) (fun _ => rfl) past
  have ring : (run Listener.step (.init alloc) past).ring = [] := by
    rw [← past'.1]
    exact empty
  have convert : s.conventionConvert = (run Listener.step (.init alloc) past).convert := by
    rw [← past'.1]
    rfl
  have erased := (past'.run cycle).watched answers
  rw [Listener.cycle_fresh reset ring known, ← convert] at erased
  exact erased

/-- Two pasts are indistinguishable after a reset exactly when they have left the same
convention flag: it is cleared on the way into the ATR, after the conversion of TS. -/
theorem reset_erases_history_iff (alloc1 alloc2 : Nat → Bool) (past1 past2 : List SniffInput)
    (empty1 : (run Sniffer.step (.init alloc1) past1).sniffBuffer = [])
    (empty2 : (run Sniffer.step (.init alloc2) past2).sniffBuffer = [])
    (cycle1 cycle2 : List SniffInput) (known1 : cycle1 ∈ resetCycles)
    (known2 : cycle2 ∈ resetCycles) :
    let s1 := run Sniffer.step (.init alloc1) past1
    let s2 := run Sniffer.step (.init alloc2) past2
    SameSession (run Sniffer.step s1 cycle1) (run Sniffer.step s2 cycle2) ↔
      s1.conventionConvert = s2.conventionConvert := by
  intro s1 s2
  have fresh1 := follows_fresh alloc1 past1 empty1 known1
  have fresh2 := follows_fresh alloc2 past2 empty2 known2
  constructor
  · intro same
    obtain ⟨sent, -⟩ := same (fun _ => true) [.entry 0x8000, .turn] (by simp [SniffInput.isTraffic])
    have sent1 := ((fresh1 fun _ => true).run [.entry 0x8000, .turn]).sent
    have sent2 := ((fresh2 fun _ => true).run [.entry 0x8000, .turn]).sent
    exact Listener.fresh_tells (sent1.symm.trans (sent.trans sent2))
  · intro convert answers inputs _
    have run1 := (fresh1 answers).run inputs
    have run2 := (fresh2 answers).run inputs
    have convert' : (run Sniffer.step (.init alloc1) past1).conventionConvert =
        (run Sniffer.step (.init alloc2) past2).conventionConvert := convert
    rw [convert'] at run1
    exact ⟨run1.sent.trans run2.sent.symm, congrArg SniffWt.gWt (run1.wt.trans run2.wt.symm)⟩

/-- The beginning of a session whose card uses the other convention than the USART. -/
def otherConvention : List SniffInput :=
  [.change sniffChangeFlagResetDeassert, .turn, .entry 0x8023, .turn]

theorem reset_erases_history_other :
    let s1 := run Sniffer.step (.init fun _ => true) []
    let s2 := run Sniffer.step (.init fun _ => true) otherConvention
    SameSession (run Sniffer.step s1 resetInTwoTurns) (run Sniffer.step s2 resetInTwoTurns) ↔
      s1.conventionConvert = s2.conventionConvert :=
  reset_erases_history_iff (fun _ => true) (fun _ => true) [] otherConvention rfl
    (by decide +kernel) _ _ (by simp [resetCycles]) (by simp [resetCycles])

theorem other_convention_remembered :
    ¬ SameSession (run Sniffer.step (.init fun _ => true) resetInTwoTurns)
      (run Sniffer.step (run Sniffer.step (.init fun _ => true) otherConvention)
        resetInTwoTurns) := by
  intro same
  obtain ⟨sent, -⟩ := same (fun _ => true) [.entry 0x8023, .turn, .entry 0x80ff, .turn] (by decide)
  revert sent
  decide +kernel

end Simtrace2
