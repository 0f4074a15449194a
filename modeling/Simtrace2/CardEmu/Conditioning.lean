import Simtrace2.CardEmu.Signals

/-! The card against its lines: whether what `process_io_statechg` has told it is what
the pins say, over every order of edges, enabling, traffic and main-loop turns. -/
namespace Simtrace2
open Lib

theorem endActivation_level (e : Emu) : e.endActivation.ch.level = e.ch.level := by
  unfold Emu.endActivation
  have atr : (e.cardSetState .waitAtr).ch.level = e.ch.level := by
    obtain ⟨_, _, _, _, _, _, _, _, h⟩ := Emu.cardSetState_ch e .waitAtr
    rw [h]
    rfl
  split
  · split
    · exact atr
    · rfl
  · split
    · exact atr
    · rfl
  · split
    · exact atr
    · rfl
  · rfl

theorem ioEdge_level (e : Emu) (io line : CardIo) (active : Bool) :
    (e.ioEdge io active).1.ch.level line = if line = io then active else e.ch.level line := by
  cases io <;> cases line <;> simp only [Emu.ioEdge, CardHandle.level] <;> split_ifs <;>
    first | rfl | simp_all

/-- After an edge its line has the new level and the other lines have theirs. -/
theorem ioStatechg_level (e : Emu) (io line : CardIo) (active : Bool) (alloc : Alloc) :
    (e.cardEmuIoStatechg io active alloc).ch.level line =
      if line = io then active else e.ch.level line := by
  rw [ioStatechg_ch, endActivation_level, ioEdge_level]

/-- No activation is missed: a card that is lit operates. -/
def CardHandle.Woken (ch : CardHandle) : Prop := ch.lit = true → ch.state.operating = true

theorem ioStatechg_woken (e : Emu) (io : CardIo) (active : Bool) (alloc : Alloc) :
    (e.cardEmuIoStatechg io active alloc).ch.Woken := by
  intro lit
  simp only [CardHandle.lit, Bool.and_eq_true, Bool.not_eq_true', ioStatechg_ch] at lit
  rw [ioStatechg_ch]
  exact endActivation_operating _ lit.1.1 lit.1.2 lit.2

/-- A card that has not begun its ATR. -/
def CardState.silent (st : CardState) : Bool := !st.operating || st == .waitAtr

theorem ioStatechg_silent {e : Emu} (silent : e.ch.state.silent = true) (io : CardIo) (active : Bool)
    (alloc : Alloc) : (e.cardEmuIoStatechg io active alloc).ch.state.silent = true := by
  have edge : (e.ioEdge io active).1.ch.state.silent = true := by
    cases io <;> simp only [Emu.ioEdge] <;> split_ifs <;>
      first | exact silent | simp [CardState.silent, CardState.operating]
  rw [ioStatechg_ch]
  unfold Emu.endActivation
  split <;> first
    | exact edge
    | split
      · simp [CardState.silent]
      · exact edge

namespace CardSlot

/-- The card holds the conditioned levels, and where they are those of an active card it
operates; if it has sent nothing yet, its ATR is next. -/
structure Conditioned (before after : CardSlot) : Prop where
  vcc : after.ch.vccActive = after.vccLevel
  clk : after.ch.clocked = after.vccLevel
  rst : after.ch.inReset = after.rstLevel
  awake : after.vccLevel = true → after.rstLevel = false → after.ch.state.operating = true
  atr : after.vccLevel = true → after.rstLevel = false → before.ch.state.silent = true →
    after.ch.state = .waitAtr

/-- Every call of `process_io_statechg` leaves the card conditioned. -/
def Sees (s : CardSlot) : Event → Prop
  | .ioStatechg vcc clk rst => Conditioned s (s.processIoStatechg vcc clk rst)
  | _ => True

/-- At the first call of `process_io_statechg` the lines that were active when the slot
was set up are active still, and the slot is enabled. -/
def FirstCall (vcc rst : Bool) : CardSlot → List Event → Prop
  | _, [] => True
  | s, .ioStatechg .. :: _ => (vcc = true → s.vccLevel = true) ∧ (rst = true → s.rstLevel = true)
  | s, event :: events => FirstCall vcc rst (s.step event) events

/-- What the last call has told the card is what the card holds. -/
structure Reported (s : CardSlot) : Prop where
  vcc : s.ch.vccActive = s.vccActiveLast
  clk : s.ch.clocked = s.vccActiveLast
  rst : s.ch.inReset = s.rstActiveLast
  woken : s.ch.Woken

/-- No call has been made: the card holds the levels `v` and `r` it was set up with. -/
structure Booted (v r : Bool) (s : CardSlot) : Prop where
  vcc : s.ch.vccActive = v
  clk : s.ch.clocked = v
  rst : s.ch.inReset = r
  vccLast : s.vccActiveLast = false
  rstLast : s.rstActiveLast = false

theorem traffic_frame (s : CardSlot) (t : Traffic) :
    (s.traffic t).vccActiveLast = s.vccActiveLast ∧ (s.traffic t).rstActiveLast = s.rstActiveLast := by
  cases t with
  | rxByte byte alloc =>
    simp only [traffic]
    split <;> exact ⟨rfl, rfl⟩
  | irqTx | wtimeExpired | wtimeHalfExpired | dispatch _ _ => exact ⟨rfl, rfl⟩

theorem woken_of_unlifted {c d : CardHandle} (h : Unlifted c d) (woken : c.Woken) : d.Woken := by
  intro lit
  have vcc : d.vccActive = c.vccActive := congrFun h.level .vcc
  have clk : d.clocked = c.clocked := congrFun h.level .clk
  have rst : d.inReset = c.inReset := congrFun h.level .rst
  rw [CardHandle.lit, vcc, clk, rst] at lit
  exact h.operating (woken lit)

theorem Reported.traffic {s : CardSlot} (h : s.Reported) (t : Traffic) : (s.traffic t).Reported := by
  have frame := Unlifted.traffic s t
  have last := s.traffic_frame t
  exact { vcc := (congrFun frame.level .vcc).trans (h.vcc.trans last.1.symm)
          clk := (congrFun frame.level .clk).trans (h.clk.trans last.1.symm)
          rst := (congrFun frame.level .rst).trans (h.rst.trans last.2.symm)
          woken := woken_of_unlifted frame h.woken }

theorem Booted.traffic {v r : Bool} {s : CardSlot} (h : s.Booted v r) (t : Traffic) :
    (s.traffic t).Booted v r := by
  have frame := Unlifted.traffic s t
  have last := s.traffic_frame t
  exact { vcc := (congrFun frame.level .vcc).trans h.vcc
          clk := (congrFun frame.level .clk).trans h.clk
          rst := (congrFun frame.level .rst).trans h.rst
          vccLast := last.1.trans h.vccLast
          rstLast := last.2.trans h.rstLast }

section tell
variable {s : CardSlot}

theorem tellVcc_same (same : s.vccLevel = s.vccActiveLast) (vcc clk : Alloc) :
    s.tellVcc vcc clk = s := by
  rw [tellVcc, if_neg (not_not.mpr same)]

theorem tellVcc_news (news : s.vccLevel ≠ s.vccActiveLast) (vcc clk : Alloc) :
    (s.tellVcc vcc clk).inst.emu =
      (s.inst.emu.cardEmuIoStatechg .vcc s.vccLevel vcc).cardEmuIoStatechg .clk s.vccLevel clk := by
  rw [tellVcc, if_pos news]

theorem tellRst_same (same : s.rstLevel = s.rstActiveLast) (rst : Alloc) : s.tellRst rst = s := by
  rw [tellRst, if_neg (not_not.mpr same)]

theorem tellRst_news (news : s.rstLevel ≠ s.rstActiveLast) (rst : Alloc) :
    (s.tellRst rst).inst.emu = s.inst.emu.cardEmuIoStatechg .rst s.rstLevel rst := by
  rw [tellRst, if_pos news]

end tell

theorem tellVcc_level (s : CardSlot) (vcc clk : Alloc) (line : CardIo) :
    (s.tellVcc vcc clk).ch.level line =
      if s.vccLevel ≠ s.vccActiveLast ∧ line ≠ .rst then s.vccLevel else s.ch.level line := by
  by_cases same : s.vccLevel = s.vccActiveLast
  · rw [tellVcc_same same, if_neg (fun h => h.1 same)]
  · rw [ch, tellVcc_news same, ioStatechg_level, ioStatechg_level]
    cases line <;> simp [same]

theorem tellRst_level (s : CardSlot) (rst : Alloc) (line : CardIo) :
    (s.tellRst rst).ch.level line =
      if s.rstLevel ≠ s.rstActiveLast ∧ line = .rst then s.rstLevel else s.ch.level line := by
  by_cases same : s.rstLevel = s.rstActiveLast
  · rw [tellRst_same same, if_neg (fun h => h.1 same)]
  · rw [ch, tellRst_news same, ioStatechg_level]
    simp only [same, ne_eq, not_false_eq_true, true_and]

theorem tellVcc_pins (s : CardSlot) (vcc clk : Alloc) :
    (s.tellVcc vcc clk).vccLevel = s.vccLevel ∧ (s.tellVcc vcc clk).rstLevel = s.rstLevel ∧
      (s.tellVcc vcc clk).vccActiveLast = s.vccLevel ∧
      (s.tellVcc vcc clk).rstActiveLast = s.rstActiveLast := by
  unfold tellVcc
  split
  · exact ⟨rfl, rfl, rfl, rfl⟩
  · rename_i same
    exact ⟨rfl, rfl, (not_not.mp same).symm, rfl⟩

theorem tellRst_pins (s : CardSlot) (rst : Alloc) :
    (s.tellRst rst).vccLevel = s.vccLevel ∧ (s.tellRst rst).rstLevel = s.rstLevel ∧
      (s.tellRst rst).vccActiveLast = s.vccActiveLast ∧
      (s.tellRst rst).rstActiveLast = s.rstLevel := by
  unfold tellRst
  split
  · exact ⟨rfl, rfl, rfl, rfl⟩
  · rename_i same
    exact ⟨rfl, rfl, rfl, (not_not.mp same).symm⟩

section call
variable (s : CardSlot) (vcc clk rst : Alloc)

theorem call_pins :
    (s.processIoStatechg vcc clk rst).vccLevel = s.vccLevel ∧
      (s.processIoStatechg vcc clk rst).rstLevel = s.rstLevel ∧
      (s.processIoStatechg vcc clk rst).vccActiveLast = s.vccLevel ∧
      (s.processIoStatechg vcc clk rst).rstActiveLast = s.rstLevel := by
  obtain ⟨vccLevel, rstLevel, vccLast, _⟩ := s.tellVcc_pins vcc clk
  obtain ⟨vccLevel', rstLevel', vccLast', rstLast'⟩ := (s.tellVcc vcc clk).tellRst_pins rst
  exact ⟨vccLevel'.trans vccLevel, rstLevel'.trans rstLevel, vccLast'.trans vccLast,
    rstLast'.trans rstLevel⟩

theorem call_enabled : (s.processIoStatechg vcc clk rst).enabled = s.enabled := by
  unfold processIoStatechg tellRst tellVcc
  split <;> split <;> rfl

/-- What a call makes of a line of the card: its level, if that is news. -/
theorem call_level (line : CardIo) :
    (s.processIoStatechg vcc clk rst).ch.level line =
      if line = .rst then if s.rstLevel = s.rstActiveLast then s.ch.inReset else s.rstLevel
      else if s.vccLevel = s.vccActiveLast then s.ch.level line else s.vccLevel := by
  obtain ⟨_, rstLevel, _, rstLast⟩ := s.tellVcc_pins vcc clk
  rw [processIoStatechg, tellRst_level, tellVcc_level, rstLevel, rstLast]
  cases line <;> by_cases vccNews : s.vccLevel = s.vccActiveLast <;>
    by_cases rstNews : s.rstLevel = s.rstActiveLast <;> simp [vccNews, rstNews] <;> rfl

theorem call_woken (quiet : s.vccLevel = s.vccActiveLast → s.rstLevel = s.rstActiveLast → s.ch.Woken) :
    (s.processIoStatechg vcc clk rst).ch.Woken := by
  obtain ⟨_, rstLevel, _, rstLast⟩ := s.tellVcc_pins vcc clk
  rw [processIoStatechg]
  by_cases sameRst : (s.tellVcc vcc clk).rstLevel = (s.tellVcc vcc clk).rstActiveLast
  · rw [tellRst_same sameRst]
    rw [rstLevel, rstLast] at sameRst
    by_cases sameVcc : s.vccLevel = s.vccActiveLast
    · rw [tellVcc_same sameVcc]
      exact quiet sameVcc sameRst
    · rw [ch, tellVcc_news sameVcc]
      exact ioStatechg_woken _ _ _ _
  · rw [ch, tellRst_news sameRst]
    exact ioStatechg_woken _ _ _ _

theorem call_silent (silent : s.ch.state.silent = true) :
    (s.processIoStatechg vcc clk rst).ch.state.silent = true := by
  have told : (s.tellVcc vcc clk).ch.state.silent = true := by
    by_cases same : s.vccLevel = s.vccActiveLast
    · rwa [tellVcc_same same]
    · rw [ch, tellVcc_news same]
      exact ioStatechg_silent (ioStatechg_silent silent _ _ _) _ _ _
  rw [processIoStatechg]
  by_cases same : (s.tellVcc vcc clk).rstLevel = (s.tellVcc vcc clk).rstActiveLast
  · rwa [tellRst_same same]
  · rw [ch, tellRst_news same]
    exact ioStatechg_silent told _ _ _

end call

/-- Every level the card has not got right is news, and so is every activation missed. -/
structure Tellable (s : CardSlot) : Prop where
  vcc : s.vccLevel = s.vccActiveLast → s.ch.vccActive = s.vccLevel
  clk : s.vccLevel = s.vccActiveLast → s.ch.clocked = s.vccLevel
  rst : s.rstLevel = s.rstActiveLast → s.ch.inReset = s.rstLevel
  quiet : s.vccLevel = s.vccActiveLast → s.rstLevel = s.rstActiveLast → s.ch.Woken

theorem Reported.tellable {s : CardSlot} (h : s.Reported) : s.Tellable where
  vcc same := h.vcc.trans same.symm
  clk same := h.clk.trans same.symm
  rst same := h.rst.trans same.symm
  quiet _ _ := h.woken

theorem Booted.tellable {v r : Bool} {s : CardSlot} (h : s.Booted v r)
    (first : (v = true → s.vccLevel = true) ∧ (r = true → s.rstLevel = true)) : s.Tellable := by
  have off (same : s.vccLevel = s.vccActiveLast) : v = false ∧ s.vccLevel = false := by
    have level := same.trans h.vccLast
    refine ⟨?_, level⟩
    cases v with
    | false => rfl
    | true => exact absurd (first.1 rfl) (by simp [level])
  have released (same : s.rstLevel = s.rstActiveLast) : r = false ∧ s.rstLevel = false := by
    have level := same.trans h.rstLast
    refine ⟨?_, level⟩
    cases r with
    | false => rfl
    | true => exact absurd (first.2 rfl) (by simp [level])
  constructor
  · intro same
    rw [h.vcc, (off same).1, (off same).2]
  · intro same
    rw [h.clk, (off same).1, (off same).2]
  · intro same
    rw [h.rst, (released same).1, (released same).2]
  · intro same _ lit
    simp [CardHandle.lit, h.vcc, (off same).1] at lit

theorem Tellable.reported {s : CardSlot} (h : s.Tellable) (vcc clk rst : Alloc) :
    (s.processIoStatechg vcc clk rst).Reported := by
  obtain ⟨_, _, vccLast, rstLast⟩ := s.call_pins vcc clk rst
  constructor
  · rw [vccLast]
    refine (s.call_level vcc clk rst .vcc).trans ?_
    simp only [reduceCtorEq, if_false]
    split
    · exact h.vcc ‹_›
    · rfl
  · rw [vccLast]
    refine (s.call_level vcc clk rst .clk).trans ?_
    simp only [reduceCtorEq, if_false]
    split
    · exact h.clk ‹_›
    · rfl
  · rw [rstLast]
    refine (s.call_level vcc clk rst .rst).trans ?_
    simp only [if_true]
    split
    · exact h.rst ‹_›
    · rfl
  · exact s.call_woken vcc clk rst h.quiet

theorem Tellable.conditioned {s : CardSlot} (h : s.Tellable) (vcc clk rst : Alloc) :
    Conditioned s (s.processIoStatechg vcc clk rst) := by
  have after := h.reported vcc clk rst
  obtain ⟨vccLevel, rstLevel, vccLast, rstLast⟩ := s.call_pins vcc clk rst
  have vccNow := after.vcc.trans (vccLast.trans vccLevel.symm)
  have clkNow := after.clk.trans (vccLast.trans vccLevel.symm)
  have rstNow := after.rst.trans (rstLast.trans rstLevel.symm)
  have awake (on : (s.processIoStatechg vcc clk rst).vccLevel = true)
      (released : (s.processIoStatechg vcc clk rst).rstLevel = false) :
      (s.processIoStatechg vcc clk rst).ch.state.operating = true := by
    apply after.woken
    rw [CardHandle.lit, vccNow, clkNow, rstNow, on, released]
    rfl
  refine ⟨vccNow, clkNow, rstNow, awake, fun on released silent => ?_⟩
  have still := s.call_silent vcc clk rst silent
  simpa [CardState.silent, awake on released] using still

theorem Booted.first {v r : Bool} {s : CardSlot} (h : s.Booted v r) (vcc clk rst : Alloc)
    (conditioned : Conditioned s (s.processIoStatechg vcc clk rst)) :
    (v = true → s.vccLevel = true) ∧ (r = true → s.rstLevel = true) := by
  obtain ⟨vccLevel, rstLevel, _, _⟩ := s.call_pins vcc clk rst
  constructor
  · rintro rfl
    have held : (s.processIoStatechg vcc clk rst).ch.vccActive = s.vccLevel :=
      conditioned.vcc.trans vccLevel
    have told : (s.processIoStatechg vcc clk rst).ch.vccActive = _ := s.call_level vcc clk rst .vcc
    rw [held] at told
    by_contra off
    have off : s.vccLevel = false := by simpa using off
    simp [off, h.vccLast, CardHandle.level, h.vcc] at told
  · rintro rfl
    have held : (s.processIoStatechg vcc clk rst).ch.inReset = s.rstLevel :=
      conditioned.rst.trans rstLevel
    have told : (s.processIoStatechg vcc clk rst).ch.inReset = _ := s.call_level vcc clk rst .rst
    rw [held] at told
    by_contra off
    have off : s.rstLevel = false := by simpa using off
    simp [off, h.rstLast, h.rst] at told

theorem Reported.sees {s : CardSlot} (h : s.Reported) (events : List Event) :
    Meets step Sees s events := by
  induction events generalizing s with
  | nil => trivial
  | cons event events ih =>
    cases event with
    | vccPin _ | rstPin _ | simSelect _ => exact ⟨trivial, ih ⟨h.vcc, h.clk, h.rst, h.woken⟩⟩
    | ioStatechg vcc clk rst =>
      exact ⟨h.tellable.conditioned vcc clk rst, ih (h.tellable.reported vcc clk rst)⟩
    | traffic t => exact ⟨trivial, ih (h.traffic t)⟩

theorem Booted.sees_iff {v r : Bool} {s : CardSlot} (h : s.Booted v r) (events : List Event) :
    Meets step Sees s events ↔ FirstCall v r s events := by
  induction events generalizing s with
  | nil => exact Iff.rfl
  | cons event events ih =>
    cases event with
    | vccPin active =>
      have later := ih (s := { s with vccActive := active }) ⟨h.vcc, h.clk, h.rst, h.vccLast, h.rstLast⟩
      exact ⟨fun sees => later.mp sees.2, fun first => ⟨trivial, later.mpr first⟩⟩
    | rstPin active =>
      have later := ih (s := { s with rstActive := active }) ⟨h.vcc, h.clk, h.rst, h.vccLast, h.rstLast⟩
      exact ⟨fun sees => later.mp sees.2, fun first => ⟨trivial, later.mpr first⟩⟩
    | simSelect remote =>
      have later := ih (s := { s with enabled := remote }) ⟨h.vcc, h.clk, h.rst, h.vccLast, h.rstLast⟩
      exact ⟨fun sees => later.mp sees.2, fun first => ⟨trivial, later.mpr first⟩⟩
    | ioStatechg vcc clk rst =>
      constructor
      · rintro ⟨conditioned, _⟩
        exact h.first vcc clk rst conditioned
      · intro first
        have tellable := h.tellable first
        exact ⟨tellable.conditioned vcc clk rst, (tellable.reported vcc clk rst).sees events⟩
    | traffic t =>
      have later := ih (h.traffic t)
      exact ⟨fun sees => later.mp sees.2, fun first => ⟨trivial, later.mpr first⟩⟩

/-- Over every order of edges, enabling, traffic and calls: each call of
`process_io_statechg` leaves the card with the conditioned levels and an active card with
its ATR to send, if and only if the first call finds the lines that were active at the
start still active and the slot enabled. -/
theorem conditioned_iff (num epIn epInt : Nat) (vccActive rstActive : Bool) (uart : Uart)
    (pinInsert : PinInsert) (inverted : Bool) (mux : Option UInt8) (events : List Event) :
    let start := modeCardemuInit num epIn epInt vccActive rstActive uart pinInsert inverted mux
    Meets step Sees start events ↔ FirstCall vccActive rstActive start events := by
  intro start
  have booted : start.Booted vccActive rstActive := ⟨rfl, rfl, rfl, rfl, rfl⟩
  exact booted.sees_iff events

/-- A reader that holds its card in reset when the firmware starts, and releases RST
before the slot is enabled. -/
def releasedEarly : List Event :=
  [.rstPin false, .ioStatechg none none none, .simSelect true, .ioStatechg none none none]

/-- The card never hears that RST has been released, and never sends its ATR. -/
theorem releasedEarly_stays_silent :
    let start := modeCardemuInit 0 1 2 true true quietUart (.untouched .absent) false none
    let s := run step start releasedEarly
    ¬ Meets step Sees start releasedEarly ∧ s.vccLevel = true ∧ s.rstLevel = false ∧
      s.ch.inReset = true ∧ s.ch.state = .waitPower := by
  have off : ¬ FirstCall true true
      (modeCardemuInit 0 1 2 true true quietUart (.untouched .absent) false none) releasedEarly := by
    simp [releasedEarly, FirstCall, step, vccLevel, modeCardemuInit]
  refine ⟨fun sees => ?_, rfl, rfl, rfl, rfl⟩
  have booted : (modeCardemuInit 0 1 2 true true quietUart (.untouched .absent) false none).Booted
      true true := ⟨rfl, rfl, rfl, rfl, rfl⟩
  exact off ((booted.sees_iff releasedEarly).mp sees)

end CardSlot
end Simtrace2
