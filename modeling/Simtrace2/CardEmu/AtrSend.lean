import Simtrace2.CardEmu.AtrSearch

/-! The transmission of the ATR, and what an ATR of the host does to one that is on its way. -/
namespace Simtrace2
open Lib

/-- What may happen to a card between the ATR of the host and the reader's: another ATR of
the host, a change of one of the lines, the end of a waiting time, and a TX interrupt. -/
inductive AtrInput where
  | setAtr (atr : List UInt8)
  | ioStatechg (io : CardIo) (active : Bool) (alloc : Alloc)
  | wtimeExpired
  | txByte

def Emu.atrStep (e : Emu) : AtrInput → Emu
  | .setAtr atr => e.cardEmuSetAtr atr
  | .ioStatechg io active alloc => e.cardEmuIoStatechg io active alloc
  | .wtimeExpired => e.cardEmuWtimeExpired
  | .txByte => e.cardEmuTxByte.1

/-- A run of the card with the ATR that was configured when the card last began to answer
a reset, and what it has transmitted since. -/
structure AtrRun where
  emu : Emu
  configured : List UInt8
  said : List UInt8

namespace AtrRun

def step (r : AtrRun) (input : AtrInput) : AtrRun :=
  let emu := r.emu.atrStep input
  if r.emu.ch.state ≠ .inAtr ∧ emu.ch.state = .inAtr then ⟨emu, r.emu.ch.atr.bytes, []⟩
  else ⟨emu, r.configured, r.said ++ emu.uart.sent.drop r.emu.uart.sent.length⟩

/-- Where the step ends the transmission of an ATR, the ATR has been transmitted that was
configured at its beginning, and WI is the one that it encodes: what the search finds in any bytes,
and what the grammar says of an ATR of ISO 7816-3. -/
def Answers (r : AtrRun) (input : AtrInput) : Prop :=
  r.emu.ch.state = .inAtr → (r.step input).emu.ch.state = .waitTpdu →
    (r.step input).said = r.configured ∧ (r.step input).emu.ch.wi = Atr.wiOf r.configured ∧
      ∀ atr : IsoAtr, atr.WellFormed → atr.bytes = r.configured →
        (r.step input).emu.ch.wi = atr.wi

/-- The host sets no ATR that is accepted while one is transmitted. -/
def Undisturbed (r : AtrRun) (input : AtrInput) : Prop :=
  ∀ atr, input = .setAtr atr → atr.length ≤ iso78163AtrLenMax → r.emu.ch.state ≠ .inAtr

structure Inv (r : AtrRun) : Prop where
  size : r.emu.ch.atr.atr.length = iso78163AtrLenMax
  fits : r.emu.ch.atr.len ≤ iso78163AtrLenMax
  calm : r.emu.ch.state ≠ .inPts ∧ r.emu.ch.state ≠ .inTpdu
  inAtr : r.emu.ch.state = .inAtr → r.emu.ch.atr.idx ≤ r.emu.ch.atr.len ∧
    r.configured = r.emu.ch.atr.bytes ∧ r.said = r.configured.take r.emu.ch.atr.idx

end AtrRun

namespace Emu
variable {e : Emu}

theorem cardSetState_atr {st : CardState} (other : st ≠ .inAtr) :
    (e.cardSetState st).ch.atr = e.ch.atr ∧ (e.cardSetState st).uart.sent = e.uart.sent := by
  unfold cardSetState
  split
  · exact ⟨rfl, rfl⟩
  · cases st with
    | inAtr => contradiction
    | waitTpdu =>
      simp only [uartEnable_ch, setTpduState_ch, true_and]
      unfold setTpduState
      split <;> rfl
    | waitAtr =>
      simp only [uartUpdateWt_ch, uartEnable_ch, emuUpdateFidi_ch, true_and]
      unfold emuUpdateFidi
      simp only
      split
      · split <;> rfl
      · rfl
    | waitPower | waitClk | waitRst | inPts | inTpdu => exact ⟨rfl, rfl⟩

theorem cardHandleReset_atr : e.cardHandleReset.ch.atr = e.ch.atr ∧
    e.cardHandleReset.uart.sent = e.uart.sent ∧ e.cardHandleReset.ch.state = e.ch.state := by
  refine ⟨by rw [cardHandleReset_ch], ?_, by rw [cardHandleReset_ch]⟩
  unfold cardHandleReset
  cases tx : e.ch.uartTxMsg <;> cases rx : e.ch.uartRxMsg <;> simp [usbBufFree, uartUpdateWt, tx, rx]

end Emu

/-- The ATR is as it was, nothing has been transmitted, and the card may have gone off or
back to some point of its activation. -/
structure LeavesAtr (e e' : Emu) : Prop where
  atr : e'.ch.atr = e.ch.atr
  sent : e'.uart.sent = e.uart.sent
  state : e'.ch.state = e.ch.state ∨ e'.ch.state ∈ [.waitPower, .waitClk, .waitRst, .waitAtr]

namespace LeavesAtr
variable {e e' e'' : Emu}

theorem refl (e : Emu) : LeavesAtr e e := ⟨rfl, rfl, .inl rfl⟩

theorem trans (h : LeavesAtr e e') (h' : LeavesAtr e' e'') : LeavesAtr e e'' := by
  refine ⟨h'.atr.trans h.atr, h'.sent.trans h.sent, ?_⟩
  obtain same | off := h'.state
  · rw [same]
    exact h.state
  · exact .inr off

theorem setState (e : Emu) {st : CardState} (off : st ∈ [.waitPower, .waitClk, .waitRst, .waitAtr]) :
    LeavesAtr e (e.cardSetState st) := by
  have other : st ≠ .inAtr := by
    rintro rfl
    exact absurd off (by decide)
  obtain ⟨atr, sent⟩ := Emu.cardSetState_atr (e := e) other
  exact ⟨atr, sent, .inr (by rw [Emu.cardSetState_state]; exact off)⟩

theorem reset (e : Emu) : LeavesAtr e e.cardHandleReset :=
  ⟨Emu.cardHandleReset_atr.1, Emu.cardHandleReset_atr.2.1, .inl Emu.cardHandleReset_atr.2.2⟩

theorem ioEdge (e : Emu) (io : CardIo) (active : Bool) : LeavesAtr e (e.ioEdge io active).1 := by
  have levels (e' : Emu) (h : LeavesAtr e e') (vcc rst clk : Bool) :
      LeavesAtr e { e' with ch.vccActive := vcc, ch.inReset := rst, ch.clocked := clk } :=
    ⟨h.atr, h.sent, h.state⟩
  have fall (st : CardState) (off : st ∈ [.waitPower, .waitClk, .waitRst, .waitAtr]) :=
    (reset e).trans (setState e.cardHandleReset off)
  cases io with
  | vcc =>
    simp only [Emu.ioEdge]
    split_ifs
    · exact levels _ (fall .waitPower (by decide)) active _ _
    · exact levels _ (setState e (by decide)) active _ _
    · exact levels _ (refl e) active _ _
  | clk =>
    simp only [Emu.ioEdge]
    split_ifs
    · exact levels _ (setState e (by decide)) _ _ active
    · exact levels _ (refl e) _ _ active
  | rst =>
    simp only [Emu.ioEdge]
    split_ifs
    · exact levels _ (setState e (by decide)) _ active _
    · exact levels _ (refl e) _ active _
    · exact levels _ (fall .waitRst (by decide)) _ active _
    · exact levels _ (refl e) _ active _

theorem endActivation (e : Emu) : LeavesAtr e e.endActivation := by
  have start : LeavesAtr e (if e.ch.vccActive && e.ch.clocked && !e.ch.inReset then
      e.cardSetState .waitAtr else e) := by
    split
    · exact setState e (by decide)
    · exact refl e
  unfold Emu.endActivation
  cases e.ch.state with
  | waitPower | waitClk | waitRst => exact start
  | waitAtr | inAtr | inPts | waitTpdu | inTpdu => exact refl e

theorem ioStatechg (e : Emu) (io : CardIo) (active : Bool) (alloc : Alloc) :
    LeavesAtr e (e.cardEmuIoStatechg io active alloc) := by
  have report (e : Emu) : LeavesAtr e (e.cardEmuReportStatus true alloc) := by
    cases alloc <;> exact ⟨rfl, rfl, .inl rfl⟩
  have edge := (ioEdge e io active).trans (endActivation _)
  simp only [Emu.cardEmuIoStatechg]
  split
  · exact edge.trans (report _)
  · exact edge

end LeavesAtr

namespace Emu
variable {e : Emu}

theorem tx_atr_more (st : e.ch.state = .inAtr) (more : e.ch.atr.idx < e.ch.atr.len) :
    e.cardEmuTxByte.1 = { e with
      ch.atr.idx := e.ch.atr.idx + 1, uart.sent := e.uart.sent ++ [e.ch.atr.at e.ch.atr.idx] } := by
  simp only [cardEmuTxByte, st, txByteAtr, ne_eq, not_true_eq_false, if_false, if_pos more]
  rfl

theorem tx_atr_end (st : e.ch.state = .inAtr) (done : ¬e.ch.atr.idx < e.ch.atr.len) :
    e.cardEmuTxByte.1 =
      ({ e with ch.wi := e.ch.atr.searchWi }.emuUpdateWt).cardSetState .waitTpdu := by
  simp only [cardEmuTxByte, st, txByteAtr, ne_eq, not_true_eq_false, if_false, if_neg done]

/-- At the end of the ATR the card waits for a TPDU with the WI it has found, and has
transmitted nothing more. -/
theorem tx_atr_ended (st : e.ch.state = .inAtr) (done : ¬e.ch.atr.idx < e.ch.atr.len) :
    e.cardEmuTxByte.1.ch = { e.ch with
        state := .waitTpdu, tpdu.state := .waitCla, wi := e.ch.atr.searchWi
        waitingTime := ({ e with ch.wi := e.ch.atr.searchWi }.emuUpdateWt).ch.waitingTime } ∧
      e.cardEmuTxByte.1.uart.sent = e.uart.sent := by
  have other : ({ e with ch.wi := e.ch.atr.searchWi }.emuUpdateWt).ch.state ≠ .waitTpdu := by
    have same : ({ e with ch.wi := e.ch.atr.searchWi }.emuUpdateWt).ch.state = e.ch.state := rfl
    rw [same, st]
    exact CardState.noConfusion
  rw [tx_atr_end st done]
  have still : CardState.waitTpdu ≠ .inAtr := CardState.noConfusion
  refine ⟨?_, (cardSetState_atr still).2⟩
  rw [cardSetState, if_neg other]
  simp only [uartEnable_ch, setTpduState_ch]
  rfl

end Emu

namespace AtrRun
variable {r : AtrRun}

theorem step_emu (r : AtrRun) (input : AtrInput) : (r.step input).emu = r.emu.atrStep input := by
  simp only [step]
  split <;> rfl

/-- A step that leaves the ATR alone. -/
theorem step_leaves {input : AtrInput} (same : LeavesAtr r.emu (r.emu.atrStep input)) :
    r.step input = { r with emu := r.emu.atrStep input } := by
  have inside : ¬(r.emu.ch.state ≠ .inAtr ∧ (r.emu.atrStep input).ch.state = .inAtr) := by
    rintro ⟨outside, entered⟩
    obtain at' | off := same.state
    · exact outside (at'.symm.trans entered)
    · rw [entered] at off
      exact absurd off (by decide)
  rw [step, if_neg inside, same.sent, List.drop_length, List.append_nil]

theorem Inv.leaves (h : Inv r) {emu : Emu} (same : LeavesAtr r.emu emu) :
    Inv { r with emu } := by
  refine ⟨by rw [same.atr]; exact h.size, by rw [same.atr]; exact h.fits, ?_, ?_⟩
  · obtain at' | off := same.state
    · simp only [at']
      exact h.calm
    · constructor
      · intro st
        rw [st] at off
        exact absurd off (by decide)
      · intro st
        rw [st] at off
        exact absurd off (by decide)
  · intro st
    obtain at' | off := same.state
    · simp only [same.atr]
      exact h.inAtr (at'.symm.trans st)
    · have st' : emu.ch.state = .inAtr := st
      rw [st'] at off
      exact absurd off (by decide)

theorem leaves_answers {input : AtrInput} (same : LeavesAtr r.emu (r.emu.atrStep input)) :
    r.Answers input := by
  intro st ended
  rw [step_emu] at ended
  obtain at' | off := same.state
  · rw [ended, st] at at'
    contradiction
  · rw [ended] at off
    exact absurd off (by decide)

/-- Which inputs leave the ATR alone. -/
theorem leaves_or (h : Inv r) (input : AtrInput) : LeavesAtr r.emu (r.emu.atrStep input) ∨
    (∃ atr, input = .setAtr atr ∧ atr.length ≤ iso78163AtrLenMax) ∨
    (input = .wtimeExpired ∧ r.emu.ch.state = .waitAtr) ∨
    (input = .txByte ∧ r.emu.ch.state = .inAtr) := by
  cases input with
  | setAtr atr =>
    by_cases refused : iso78163AtrLenMax < atr.length
    · left
      simp only [Emu.atrStep, Emu.cardEmuSetAtr, if_pos refused]
      exact LeavesAtr.refl _
    · exact .inr (.inl ⟨atr, rfl, Nat.not_lt.mp refused⟩)
  | ioStatechg io active alloc => exact .inl (LeavesAtr.ioStatechg _ io active alloc)
  | wtimeExpired =>
    cases st : r.emu.ch.state with
    | waitAtr => exact .inr (.inr (.inl ⟨rfl, rfl⟩))
    | _ =>
      left
      simp only [Emu.atrStep, Emu.cardEmuWtimeExpired, st]
      exact LeavesAtr.refl _
  | txByte =>
    cases st : r.emu.ch.state with
    | inAtr => exact .inr (.inr (.inr ⟨rfl, rfl⟩))
    | inPts => exact absurd st h.calm.1
    | inTpdu => exact absurd st h.calm.2
    | _ =>
      left
      simp only [Emu.atrStep, Emu.cardEmuTxByte, st]
      exact LeavesAtr.refl _

theorem Inv.setAtr (h : Inv r) {atr : List UInt8} (accepted : atr.length ≤ iso78163AtrLenMax)
    (outside : r.emu.ch.state ≠ .inAtr) : Inv (r.step (.setAtr atr)) := by
  have set : r.emu.cardEmuSetAtr atr = { r.emu with
      ch.atr := ⟨0, atr.length, splice r.emu.ch.atr.atr 0 atr⟩ } := if_neg (Nat.not_lt.mpr accepted)
  have size := h.size
  refine ⟨?_, ?_, ?_, ?_⟩
  · rw [step_emu, Emu.atrStep, set]
    simp only [splice, List.take_zero, List.nil_append, List.length_append, List.length_drop]
    omega
  · rw [step_emu, Emu.atrStep, set]
    exact accepted
  · rw [step_emu, Emu.atrStep, set]
    exact h.calm
  · intro st
    rw [step_emu, Emu.atrStep, set] at st
    exact absurd st outside

/-- The card begins to answer the reset. -/
theorem Inv.enter (h : Inv r) (st : r.emu.ch.state = .waitAtr) : Inv (r.step .wtimeExpired) := by
  have enters : r.emu.cardEmuWtimeExpired = r.emu.cardSetState .inAtr := by
    simp only [Emu.cardEmuWtimeExpired, st]
  have ch : (r.emu.cardSetState .inAtr).ch.atr = { r.emu.ch.atr with idx := 0 } := by
    rw [Emu.cardSetState, if_neg (by rw [st]; exact CardState.noConfusion)]
    rfl
  have entered : r.step .wtimeExpired =
      ⟨r.emu.cardSetState .inAtr, r.emu.ch.atr.bytes, []⟩ := by
    have now : r.emu.ch.state ≠ .inAtr ∧ (r.emu.atrStep .wtimeExpired).ch.state = .inAtr := by
      rw [Emu.atrStep, enters]
      exact ⟨by rw [st]; exact CardState.noConfusion, Emu.cardSetState_state _ _⟩
    rw [step, if_pos now, Emu.atrStep, enters]
  rw [entered]
  refine ⟨?_, ?_, ?_, ?_⟩
  · simp only [ch]
    exact h.size
  · simp only [ch]
    exact h.fits
  · simp only [Emu.cardSetState_state]
    exact ⟨CardState.noConfusion, CardState.noConfusion⟩
  · intro _
    simp only [ch]
    exact ⟨Nat.zero_le _, rfl, rfl⟩

theorem step_tx (st : r.emu.ch.state = .inAtr) : r.step .txByte =
    ⟨r.emu.cardEmuTxByte.1, r.configured,
      r.said ++ r.emu.cardEmuTxByte.1.uart.sent.drop r.emu.uart.sent.length⟩ := by
  have inside : ¬(r.emu.ch.state ≠ .inAtr ∧ (r.emu.atrStep .txByte).ch.state = .inAtr) :=
    fun both => both.1 st
  rw [step, if_neg inside]
  rfl

/-- A byte of the ATR, or its end. -/
theorem Inv.tx (h : Inv r) (st : r.emu.ch.state = .inAtr) :
    Inv (r.step .txByte) ∧ r.Answers .txByte := by
  obtain ⟨idx, configured, said⟩ := h.inAtr st
  have size := h.size
  have fits := h.fits
  rw [Answers, step_tx st]
  by_cases more : r.emu.ch.atr.idx < r.emu.ch.atr.len
  · rw [Emu.tx_atr_more st more]
    refine ⟨⟨h.size, h.fits, h.calm, ?_⟩, ?_⟩
    · intro _
      refine ⟨more, configured, ?_⟩
      have inside : r.emu.ch.atr.idx < r.emu.ch.atr.atr.length := by omega
      have byte : r.emu.ch.atr.bytes[r.emu.ch.atr.idx]? =
          some (r.emu.ch.atr.at r.emu.ch.atr.idx) := by
        simp [Atr.bytes, Atr.at, more, inside]
      simp only [List.drop_left]
      rw [said, configured, List.take_add_one, byte]
      rfl
    · intro _ ended
      exact absurd (st.symm.trans ended) CardState.noConfusion
  · obtain ⟨ch, sent⟩ := Emu.tx_atr_ended st more
    simp only [sent, List.drop_length, List.append_nil]
    refine ⟨⟨by rw [ch]; exact h.size, by rw [ch]; exact h.fits, ?_, ?_⟩, ?_⟩
    · simp only [ch]
      exact ⟨CardState.noConfusion, CardState.noConfusion⟩
    · intro inAtr
      rw [ch] at inAtr
      exact absurd inAtr CardState.noConfusion
    · intro _ _
      have whole : r.emu.ch.atr.idx = r.emu.ch.atr.len := by omega
      constructor
      · rw [said, whole, configured]
        exact List.take_of_length_le (List.length_take_le _ _)
      · have wi : r.emu.ch.atr.searchWi = Atr.wiOf r.configured := by
          rw [configured, Atr.wiOf_bytes (by omega)]
        rw [ch]
        refine ⟨wi, fun atr wf bytes => ?_⟩
        rw [← wf.wiOf, bytes]
        exact wi

theorem Inv.step (h : Inv r) {input : AtrInput} (quiet : r.Undisturbed input) :
    Inv (r.step input) ∧ r.Answers input := by
  obtain same | ⟨atr, rfl, accepted⟩ | ⟨rfl, st⟩ | ⟨rfl, st⟩ := leaves_or h input
  · rw [step_leaves same]
    exact ⟨h.leaves same, leaves_answers same⟩
  · have outside := quiet atr rfl accepted
    exact ⟨h.setAtr accepted outside, fun st => absurd st outside⟩
  · refine ⟨h.enter st, fun now => ?_⟩
    rw [st] at now
    contradiction
  · exact h.tx st

/-- A card as `card_emu_init` leaves it. -/
def start (slotNum inEp irqEp : Nat) (vccActive inReset clocked : Bool) (uart : Uart) : AtrRun :=
  ⟨cardEmuInit slotNum inEp irqEp vccActive inReset clocked uart [] [], [], []⟩

theorem start_inv (slotNum inEp irqEp : Nat) (vccActive inReset clocked : Bool) (uart : Uart) :
    Inv (start slotNum inEp irqEp vccActive inReset clocked uart) := by
  have state : (start slotNum inEp irqEp vccActive inReset clocked uart).emu.ch.state =
      .waitPower := rfl
  refine ⟨rfl, ?_, ?_, ?_⟩
  · change 7 ≤ 33
    decide
  · rw [state]
    exact ⟨CardState.noConfusion, CardState.noConfusion⟩
  · intro st
    rw [state] at st
    contradiction

/-- In every run in which the host sets no ATR while one is transmitted, each ATR that is
transmitted to its end is the one that was configured at its beginning. -/
theorem atr_whole (slotNum inEp irqEp : Nat) (vccActive inReset clocked : Bool) (uart : Uart)
    (inputs : List AtrInput)
    (quiet : Meets step Undisturbed (start slotNum inEp irqEp vccActive inReset clocked uart) inputs) :
    Meets step Answers (start slotNum inEp irqEp vccActive inReset clocked uart) inputs :=
  Meets.of_keeps Inv (fun _ _ h quiet => h.step quiet)
    (start_inv slotNum inEp irqEp vccActive inReset clocked uart) quiet

/-- A card that is powered, clocked and not in reset. -/
def powered : AtrRun := start 0 1 2 true false true ⟨.off, false, 0, none, []⟩

/-- The host sets an ATR of two bytes before the card begins, and another one afterwards. -/
theorem short_atr_whole :
    Meets step Answers powered
      [.setAtr [0x3b, 0], .ioStatechg .vcc true none, .wtimeExpired, .txByte, .txByte, .txByte,
        .setAtr [0x3f]] := by
  apply atr_whole
  refine ⟨?_, ?_, ?_, ?_, ?_, ?_, ?_, trivial⟩
  all_goals
    rintro atr ⟨⟩ _
    try decide

/-- The host sets an ATR of two bytes after the first byte of the default one. -/
theorem replaced_atr_mixed :
    let inputs : List AtrInput :=
      [.ioStatechg .vcc true none, .wtimeExpired, .txByte, .setAtr [0x3b, 0], .txByte, .txByte]
    (run step powered inputs).said = [0x3b, 0x3b, 0] ∧
      (run step powered inputs).configured = defaultAtr ∧
      ¬Meets step Answers powered (inputs ++ [.txByte]) := by
  intro inputs
  refine ⟨by decide, by decide, fun h => ?_⟩
  have answers : Answers (run step powered inputs) .txByte := h.before
  exact absurd (answers (by decide) (by decide)).1 (by decide)

end AtrRun
end Simtrace2
