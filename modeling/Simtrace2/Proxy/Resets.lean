import Simtrace2.CardEmu.Aside
import Simtrace2.CardEmu.Conditioning

/-! Resets of the emulated card and of the real one: the status messages of the card, and
what `update_status_flags` of the host makes of them. -/
namespace Simtrace2
open Lib

inductive Reset where
  | cold | warm
deriving DecidableEq, Repr

/-- What `update_status_flags` decides from two snapshots in a row. -/
def resetFor (lastStatusFlags flags : UInt32) : Option Reset :=
  if hasFlag flags cemuStatusFVccPresent && hasFlag flags cemuStatusFClkActive &&
      !hasFlag flags cemuStatusFResetActive then
    if hasFlag lastStatusFlags cemuStatusFResetActive then
      if hasFlag lastStatusFlags cemuStatusFVccPresent then some .warm else some .cold
    else if !hasFlag lastStatusFlags cemuStatusFVccPresent then some .cold
    else none
  else if flags = cemuStatusFVccPresent && !hasFlag lastStatusFlags cemuStatusFVccPresent then
    some .cold
  else none

/-- The host: `last_status_flags`, and the calls of `osim_card_reset`. -/
structure StatusHost where
  lastStatusFlags : UInt32
  resets : List Reset

def StatusHost.updateStatusFlags (h : StatusHost) (flags : UInt32) : StatusHost :=
  { lastStatusFlags := flags, resets := h.resets ++ (resetFor h.lastStatusFlags flags).toList }

/-- The flags of the STATUS messages on the interrupt end-point, in the order sent. -/
def statuses (irqEp : Nat) (usb : List UsbMsg) : List UInt32 :=
  usb.filterMap fun msg =>
    match msg.payload with
    | .status flags .. => if msg.ep = irqEp then some flags else none
    | _ => none

/-- The lines of the emulated card, and whether VCC has been absent since the last reset
that the real card was due. -/
structure Supply where
  vcc : Bool
  clk : Bool
  rst : Bool
  cold : Bool

namespace Supply

def operational (s : Supply) : Bool := s.vcc && s.clk && !s.rst

def set (s : Supply) : CardIo → Bool → Supply
  | .vcc, active => { s with vcc := active, cold := s.cold || !s.vcc || !active }
  | .clk, active => { s with clk := active }
  | .rst, active => { s with rst := active }

/-- A card that becomes operational by an edge. -/
def begins (s : Supply) (edge : CardIo × Bool) : Bool :=
  !s.operational && (s.set edge.1 edge.2).operational

/-- It is due a reset, and a cold one if VCC has been absent. -/
def dueBy (s : Supply) (edge : CardIo × Bool) : List Reset :=
  if s.begins edge then [if (s.set edge.1 edge.2).cold then .cold else .warm] else []

def step (s : Supply) (edge : CardIo × Bool) : Supply :=
  if s.begins edge then { s.set edge.1 edge.2 with cold := false } else s.set edge.1 edge.2

def flags (s : Supply) : UInt32 :=
  (if s.vcc then cemuStatusFVccPresent else 0) ||| (if s.clk then cemuStatusFClkActive else 0)
    ||| (if s.rst then cemuStatusFResetActive else 0)

end Supply

/-- The slot and the host at work, with the resets that were due. -/
structure Resets where
  slot : CardSlot
  host : StatusHost
  supply : Supply
  due : List Reset

/-- A pin moves, or the main loop comes to `process_io_statechg`, where every message
finds a buffer. -/
inductive PinEvent where
  | vccPin (active : Bool)
  | rstPin (active : Bool)
  | ioStatechg (vcc clk rst : Nat)

/-- The edges that a call of `process_io_statechg` makes of the lines. -/
def CardSlot.vccEdges (s : CardSlot) : List (CardIo × Bool) :=
  if s.vccLevel ≠ s.vccActiveLast then [(.vcc, s.vccLevel), (.clk, s.vccLevel)] else []

def CardSlot.rstEdges (s : CardSlot) : List (CardIo × Bool) :=
  if s.rstLevel ≠ s.rstActiveLast then [(.rst, s.rstLevel)] else []

def CardSlot.edges (s : CardSlot) : List (CardIo × Bool) := s.vccEdges ++ s.rstEdges

namespace Resets

/-- What the call puts out is delivered to the host, in order. -/
def ioStatechg (s : Resets) (vcc clk rst : Nat) : Resets :=
  let slot := { s.slot with inst.emu.usb := [] }.processIoStatechg (some vcc) (some clk) (some rst)
  { slot
    host := run StatusHost.updateStatusFlags s.host (statuses slot.ch.irqEp slot.inst.emu.usb)
    supply := run Supply.step s.supply s.slot.edges
    due := s.due ++ trace Supply.step Supply.dueBy s.supply s.slot.edges }

def step (s : Resets) : PinEvent → Resets
  | .vccPin active => { s with slot.vccActive := active }
  | .rstPin active => { s with slot.rstActive := active }
  | .ioStatechg vcc clk rst => s.ioStatechg vcc clk rst

end Resets

namespace Emu

theorem cardSetState_usb (e : Emu) (st : CardState) : (e.cardSetState st).usb = e.usb := by
  have fidi (e : Emu) : e.emuUpdateFidi.usb = e.usb := by
    unfold emuUpdateFidi
    split
    · split <;> rfl
    · rfl
  have tpdu (e : Emu) (ts : TpduState) : (e.setTpduState ts).usb = e.usb := by
    unfold setTpduState
    split
    · rfl
    · cases ts <;> rfl
  unfold cardSetState
  split
  · rfl
  · cases st with
    | waitAtr => exact fidi _
    | waitTpdu => exact tpdu _ _
    | waitPower | waitClk | waitRst | inAtr | inPts | inTpdu => rfl

theorem ioEdge_usb (e : Emu) (io : CardIo) (active : Bool) : (e.ioEdge io active).1.usb = e.usb := by
  cases io <;> simp only [ioEdge] <;> split_ifs <;>
    simp only [cardSetState_usb, cardHandleReset_usb]

theorem endActivation_usb (e : Emu) : e.endActivation.usb = e.usb := by
  unfold endActivation
  split
  case h_4 => rfl
  all_goals
    split
    · exact cardSetState_usb e _
    · rfl

/-- An edge that changes its line is reported, with the levels behind it. -/
theorem ioStatechg_reports {e : Emu} {io : CardIo} {active : Bool}
    (irq : hasFlag e.ch.features cemuFeatFStatusIrq = true) (news : e.ch.level io ≠ active)
    (tag : Nat) :
    statuses e.ch.irqEp (e.cardEmuIoStatechg io active (some tag)).usb =
      statuses e.ch.irqEp e.usb ++ [statusFlags (e.cardEmuIoStatechg io active (some tag)).ch] := by
  have changed : (e.ioEdge io active).2 = true := by
    cases io <;> simpa [ioEdge, CardHandle.level] using news
  obtain ⟨features, irqEp⟩ := e.ioEdge_config io active
  obtain ⟨features', irqEp'⟩ := (e.ioEdge io active).1.endActivation_config
  have on : hasFlag (e.ioEdge io active).1.endActivation.ch.features cemuFeatFStatusIrq = true := by
    rw [features', features]
    exact irq
  have usb := (endActivation_usb (e.ioEdge io active).1).trans (ioEdge_usb e io active)
  rw [ioStatechg_ch]
  simp only [cardEmuIoStatechg, on, changed, Bool.and_self, if_true, cardEmuReportStatus, usbBufSubmit,
    usb, statuses, List.filterMap_append]
  simp [irqEp', irqEp]

theorem ioStatechg_config (e : Emu) (io : CardIo) (active : Bool) (alloc : Alloc) :
    (e.cardEmuIoStatechg io active alloc).ch.features = e.ch.features ∧
      (e.cardEmuIoStatechg io active alloc).ch.irqEp = e.ch.irqEp := by
  obtain ⟨features, irqEp⟩ := e.ioEdge_config io active
  obtain ⟨features', irqEp'⟩ := (e.ioEdge io active).1.endActivation_config
  rw [ioStatechg_ch]
  exact ⟨features'.trans features, irqEp'.trans irqEp⟩

end Emu

/-- The card holds the levels of the lines and reports their changes. -/
structure Supply.Feeds (s : Supply) (ep : Nat) (e : Emu) : Prop where
  vcc : e.ch.vccActive = s.vcc
  clk : e.ch.clocked = s.clk
  rst : e.ch.inReset = s.rst
  irq : hasFlag e.ch.features cemuFeatFStatusIrq = true
  ep : e.ch.irqEp = ep

namespace Supply

def level (s : Supply) : CardIo → Bool
  | .vcc => s.vcc
  | .clk => s.clk
  | .rst => s.rst

theorem step_level (s : Supply) (edge : CardIo × Bool) (line : CardIo) :
    (s.step edge).level line = if line = edge.1 then edge.2 else s.level line := by
  obtain ⟨io, active⟩ := edge
  unfold step
  cases io <;> cases line <;> split <;> rfl

theorem Feeds.level {s : Supply} {ep : Nat} {e : Emu} (h : s.Feeds ep e) (line : CardIo) :
    e.ch.level line = s.level line := by
  cases line
  · exact h.vcc
  · exact h.rst
  · exact h.clk

def out (s : Supply) (edge : CardIo × Bool) : List UInt32 := [(s.step edge).flags]

theorem Feeds.edge {s : Supply} {ep : Nat} {e : Emu} (h : s.Feeds ep e) (edge : CardIo × Bool)
    (news : s.level edge.1 ≠ edge.2) (tag : Nat) :
    (s.step edge).Feeds ep (e.cardEmuIoStatechg edge.1 edge.2 (some tag)) ∧
      statuses ep (e.cardEmuIoStatechg edge.1 edge.2 (some tag)).usb =
        statuses ep e.usb ++ s.out edge := by
  have level (line : CardIo) :
      (e.cardEmuIoStatechg edge.1 edge.2 (some tag)).ch.level line = (s.step edge).level line := by
    rw [ioStatechg_level, step_level, h.level]
  obtain ⟨features, irqEp⟩ := e.ioStatechg_config edge.1 edge.2 (some tag)
  have fed : (s.step edge).Feeds ep (e.cardEmuIoStatechg edge.1 edge.2 (some tag)) :=
    ⟨level .vcc, level .clk, level .rst, by rw [features]; exact h.irq, irqEp.trans h.ep⟩
  refine ⟨fed, ?_⟩
  have reports := Emu.ioStatechg_reports h.irq (by rw [h.level]; exact news) tag
  rw [h.ep] at reports
  rw [reports, Emu.statusFlags, fed.vcc, fed.clk, fed.rst]
  rfl

theorem Feeds.tellVcc {supply : Supply} {ep : Nat} {s : CardSlot} (fed : supply.Feeds ep s.inst.emu)
    (last : supply.vcc = s.vccActiveLast ∧ supply.clk = s.vccActiveLast) (vcc clk : Nat) :
    (run step supply s.vccEdges).Feeds ep (s.tellVcc (some vcc) (some clk)).inst.emu ∧
      statuses ep (s.tellVcc (some vcc) (some clk)).inst.emu.usb =
        statuses ep s.inst.emu.usb ++ trace step out supply s.vccEdges := by
  by_cases same : s.vccLevel = s.vccActiveLast
  · rw [CardSlot.tellVcc_same same, CardSlot.vccEdges, if_neg (not_not.mpr same)]
    exact ⟨fed, (List.append_nil _).symm⟩
  · have vccNews : supply.level .vcc ≠ s.vccLevel := fun h => same (h.symm.trans last.1)
    obtain ⟨fed', sent⟩ := fed.edge (.vcc, s.vccLevel) vccNews vcc
    have clkNews : (supply.step (.vcc, s.vccLevel)).level .clk ≠ s.vccLevel := by
      rw [step_level]
      exact fun h => same (h.symm.trans last.2)
    obtain ⟨fed'', sent'⟩ := fed'.edge (.clk, s.vccLevel) clkNews clk
    rw [CardSlot.tellVcc_news same, CardSlot.vccEdges, if_pos same]
    refine ⟨fed'', ?_⟩
    rw [sent', sent, List.append_assoc]
    rfl

theorem Feeds.tellRst {supply : Supply} {ep : Nat} {s : CardSlot} (fed : supply.Feeds ep s.inst.emu)
    (last : supply.rst = s.rstActiveLast) (rst : Nat) :
    (run step supply s.rstEdges).Feeds ep (s.tellRst (some rst)).inst.emu ∧
      statuses ep (s.tellRst (some rst)).inst.emu.usb =
        statuses ep s.inst.emu.usb ++ trace step out supply s.rstEdges := by
  by_cases same : s.rstLevel = s.rstActiveLast
  · rw [CardSlot.tellRst_same same, CardSlot.rstEdges, if_neg (not_not.mpr same)]
    exact ⟨fed, (List.append_nil _).symm⟩
  · have news : supply.level .rst ≠ s.rstLevel := fun h => same (h.symm.trans last)
    obtain ⟨fed', sent⟩ := fed.edge (.rst, s.rstLevel) news rst
    rw [CardSlot.tellRst_news same, CardSlot.rstEdges, if_pos same]
    exact ⟨fed', sent⟩

/-- The edges of a call: VCC and the clock from `v` to `v'`, RST from `r` to `r'`. -/
def edges (v v' r r' : Bool) : List (CardIo × Bool) :=
  (if v' ≠ v then [(.vcc, v'), (.clk, v')] else []) ++ if r' ≠ r then [(.rst, r')] else []

end Supply

/-- What the host makes of the snapshots of one call. -/
def resetsFor (last : UInt32) (snapshots : List UInt32) : List Reset :=
  trace (fun _ flags => flags) (fun last flags => (resetFor last flags).toList) last snapshots

/-- Only a release of RST under VCC can be misjudged: the host takes it for a warm reset,
but for a cold one where it has not seen a snapshot yet. -/
theorem resetsFor_call : ∀ v v' r r' cold fresh : Bool,
    let supply : Supply := ⟨v, v, r, cold⟩
    resetsFor (if fresh then 0 else supply.flags)
        (trace Supply.step Supply.out supply (Supply.edges v v' r r')) =
      trace Supply.step Supply.dueBy supply (Supply.edges v v' r r') ↔
        (v' = true → r = true → r' = false → v = true ∧ (cold = true ↔ fresh = true)) := by
  decide

theorem Supply.flags_ne_zero {s : Supply} (on : s.vcc = true) : s.flags ≠ 0 := by
  obtain ⟨v, c, r, cold⟩ := s
  subst on
  cases c <;> cases r <;> cases cold <;> decide

theorem run_updateStatusFlags (h : StatusHost) (snapshots : List UInt32) :
    (run StatusHost.updateStatusFlags h snapshots).resets =
      h.resets ++ resetsFor h.lastStatusFlags snapshots := by
  induction snapshots generalizing h with
  | nil => exact (List.append_nil _).symm
  | cons flags snapshots ih =>
    rw [run, ih, StatusHost.updateStatusFlags, List.append_assoc]
    rfl

/-- The host has seen the last snapshot of the lines, or none. -/
def StatusHost.Seen (h : StatusHost) (supply : Supply) : Prop :=
  h.lastStatusFlags = supply.flags ∨ h.lastStatusFlags = 0

theorem StatusHost.Seen.run {h : StatusHost} {supply : Supply} (seen : h.Seen supply)
    (edges : List (CardIo × Bool)) :
    (Lib.run updateStatusFlags h (trace Supply.step Supply.out supply edges)).Seen
      (Lib.run Supply.step supply edges) := by
  induction edges generalizing h supply with
  | nil => exact seen
  | cons edge edges ih =>
    have next : (h.updateStatusFlags (supply.step edge).flags).Seen (supply.step edge) := .inl rfl
    exact ih next

theorem StatusHost.Seen.call {h : StatusHost} {supply : Supply} (seen : h.Seen supply)
    (clk : supply.clk = supply.vcc) (v' r' : Bool) :
    resetsFor h.lastStatusFlags
        (trace Supply.step Supply.out supply (Supply.edges supply.vcc v' supply.rst r')) =
      trace Supply.step Supply.dueBy supply (Supply.edges supply.vcc v' supply.rst r') ↔
        (v' = true → supply.rst = true → r' = false →
          supply.vcc = true ∧ (supply.cold = true ↔ h.lastStatusFlags = 0)) := by
  have lit : supply.vcc = true → supply.flags ≠ 0 := Supply.flags_ne_zero
  obtain ⟨v, c, r, cold⟩ := supply
  obtain rfl : c = v := clk
  obtain last | last := seen
  · rw [last]
    refine (resetsFor_call c v' r r' cold false).trans ?_
    constructor <;> intro steady on held released <;> obtain ⟨before, cold⟩ := steady on held released
    · exact ⟨before, by simpa [lit before] using cold⟩
    · exact ⟨before, by simpa [lit before] using cold⟩
  · rw [last]
    exact (resetsFor_call c v' r r' cold true).trans (by simp)

namespace Resets

/-- The slot and the host when both start to work, the host with `last_status_flags` clear.
`cold` says whether VCC has been absent since the real card was last reset. -/
def init (slot : CardSlot) (cold : Bool) : Resets :=
  { slot
    host := { lastStatusFlags := 0, resets := [] }
    supply := { vcc := slot.ch.vccActive, clk := slot.ch.clocked, rst := slot.ch.inReset, cold }
    due := [] }

structure Linked (s : Resets) : Prop where
  enabled : s.slot.enabled = true
  fed : s.supply.Feeds s.slot.ch.irqEp s.slot.inst.emu
  vcc : s.supply.vcc = s.slot.vccActiveLast
  clk : s.supply.clk = s.slot.vccActiveLast
  rst : s.supply.rst = s.slot.rstActiveLast
  seen : s.host.Seen s.supply

/-- Where RST is released under VCC, VCC has been there since before, and since the last
reset; before the first snapshot it has not. -/
def SteadyVcc (s : Resets) : PinEvent → Prop
  | .ioStatechg .. =>
    s.slot.vccActive = true → s.slot.ch.inReset = true → s.slot.rstActive = false →
      s.slot.ch.vccActive = true ∧ (s.supply.cold = true ↔ s.host.lastStatusFlags = 0)
  | _ => True

/-- What a call tells the host: the snapshot behind each edge. -/
theorem Linked.told {s : Resets} (h : s.Linked) (vcc clk rst : Nat) :
    let slot := { s.slot with inst.emu.usb := [] }.processIoStatechg (some vcc) (some clk) (some rst)
    (run Supply.step s.supply s.slot.edges).Feeds s.slot.ch.irqEp slot.inst.emu ∧
      statuses s.slot.ch.irqEp slot.inst.emu.usb =
        trace Supply.step Supply.out s.supply s.slot.edges := by
  intro slot
  let empty : CardSlot := { s.slot with inst.emu.usb := [] }
  have fed : s.supply.Feeds s.slot.ch.irqEp empty.inst.emu :=
    ⟨h.fed.vcc, h.fed.clk, h.fed.rst, h.fed.irq, h.fed.ep⟩
  obtain ⟨vccFed, vccSent⟩ := fed.tellVcc (s := empty) ⟨h.vcc, h.clk⟩ vcc clk
  obtain ⟨_, rstLevel, _, rstLast⟩ := empty.tellVcc_pins (some vcc) (some clk)
  have rstEdges : (empty.tellVcc (some vcc) (some clk)).rstEdges = s.slot.rstEdges := by
    rw [CardSlot.rstEdges, rstLevel, rstLast]
    rfl
  have held : (run Supply.step s.supply s.slot.vccEdges).rst =
      (empty.tellVcc (some vcc) (some clk)).rstActiveLast := by
    have line := empty.tellVcc_level (some vcc) (some clk) .rst
    rw [if_neg (fun news => news.2 rfl)] at line
    exact (vccFed.rst.symm.trans line).trans (h.fed.rst.trans (h.rst.trans rstLast.symm))
  obtain ⟨rstFed, rstSent⟩ := vccFed.tellRst held rst
  rw [rstEdges] at rstFed rstSent
  constructor
  · rw [CardSlot.edges, run_append]
    exact rstFed
  · rw [CardSlot.edges, trace_append]
    exact rstSent.trans (congrArg (· ++ _) vccSent)

/-- A card that holds the last levels holds the new ones after the call. -/
theorem call_holds (slot : CardSlot) (vcc : slot.ch.vccActive = slot.vccActiveLast)
    (clk : slot.ch.clocked = slot.vccActiveLast) (rst : slot.ch.inReset = slot.rstActiveLast)
    (a b c : Alloc) :
    (slot.processIoStatechg a b c).ch.vccActive = slot.vccLevel ∧
      (slot.processIoStatechg a b c).ch.clocked = slot.vccLevel ∧
      (slot.processIoStatechg a b c).ch.inReset = slot.rstLevel := by
  have level := slot.call_level a b c
  refine ⟨(level .vcc).trans ?_, (level .clk).trans ?_, (level .rst).trans ?_⟩
  · simp only [reduceCtorEq, if_false, ite_eq_right_iff]
    exact fun same => vcc.trans same.symm
  · simp only [reduceCtorEq, if_false, ite_eq_right_iff]
    exact fun same => clk.trans same.symm
  · simp only [if_true, ite_eq_right_iff]
    exact fun same => rst.trans same.symm

theorem Linked.holds {s : Resets} (h : s.Linked) :
    s.slot.ch.vccActive = s.slot.vccActiveLast ∧ s.slot.ch.clocked = s.slot.vccActiveLast ∧
      s.slot.ch.inReset = s.slot.rstActiveLast :=
  ⟨h.fed.vcc.trans h.vcc, h.fed.clk.trans h.clk, h.fed.rst.trans h.rst⟩

theorem Linked.call {s : Resets} (h : s.Linked) (vcc clk rst : Nat) :
    (s.ioStatechg vcc clk rst).Linked := by
  obtain ⟨fed, sent⟩ := h.told vcc clk rst
  let empty : CardSlot := { s.slot with inst.emu.usb := [] }
  obtain ⟨_, _, vccLast, rstLast⟩ := empty.call_pins (some vcc) (some clk) (some rst)
  obtain ⟨vccHeld, clkHeld, rstHeld⟩ :=
    call_holds empty h.holds.1 h.holds.2.1 h.holds.2.2 (some vcc) (some clk) (some rst)
  have enabled : (s.ioStatechg vcc clk rst).slot.enabled = true :=
    (CardSlot.call_enabled empty _ _ _).trans h.enabled
  refine ⟨enabled, ?_, ?_, ?_, ?_, ?_⟩
  · exact ⟨fed.vcc, fed.clk, fed.rst, fed.irq, rfl⟩
  · exact fed.vcc.symm.trans (vccHeld.trans vccLast.symm)
  · exact fed.clk.symm.trans (clkHeld.trans vccLast.symm)
  · exact fed.rst.symm.trans (rstHeld.trans rstLast.symm)
  · have seen := h.seen.run s.slot.edges
    rw [← sent] at seen
    rw [ioStatechg, fed.ep]
    exact seen

theorem Linked.step {s : Resets} (h : s.Linked) (event : PinEvent) : (s.step event).Linked := by
  cases event with
  | vccPin _ => exact ⟨h.enabled, h.fed, h.vcc, h.clk, h.rst, h.seen⟩
  | rstPin _ => exact ⟨h.enabled, h.fed, h.vcc, h.clk, h.rst, h.seen⟩
  | ioStatechg vcc clk rst => exact h.call vcc clk rst

/-- The resets of a call are the ones that were due, exactly where VCC is steady. -/
theorem Linked.exact {s : Resets} (h : s.Linked) (event : PinEvent) (faithful : s.host.resets = s.due) :
    (s.step event).host.resets = (s.step event).due ↔ s.SteadyVcc event := by
  cases event with
  | vccPin _ => exact ⟨fun _ => trivial, fun _ => faithful⟩
  | rstPin _ => exact ⟨fun _ => trivial, fun _ => faithful⟩
  | ioStatechg vcc clk rst =>
    obtain ⟨fed, sent⟩ := h.told vcc clk rst
    have resets : (s.ioStatechg vcc clk rst).host.resets = s.host.resets ++ resetsFor
        s.host.lastStatusFlags (trace Supply.step Supply.out s.supply s.slot.edges) := by
      rw [← sent, ← run_updateStatusFlags, ioStatechg, fed.ep]
    have vccLevel : s.slot.vccLevel = s.slot.vccActive := by
      rw [CardSlot.vccLevel, h.enabled, Bool.and_true]
    have rstLevel : s.slot.rstLevel = s.slot.rstActive := by
      rw [CardSlot.rstLevel, h.enabled, Bool.and_true]
    have edges : s.slot.edges =
        Supply.edges s.supply.vcc s.slot.vccActive s.supply.rst s.slot.rstActive := by
      rw [CardSlot.edges, CardSlot.vccEdges, CardSlot.rstEdges, vccLevel, rstLevel, ← h.vcc, ← h.rst,
        Supply.edges]
    have due : (s.ioStatechg vcc clk rst).due =
        s.due ++ trace Supply.step Supply.dueBy s.supply s.slot.edges := rfl
    rw [Resets.step, resets, due, faithful, List.append_cancel_left_eq, SteadyVcc, h.fed.vcc,
      h.fed.rst, edges]
    exact h.seen.call (h.clk.trans h.vcc.symm) s.slot.vccActive s.slot.rstActive

/-- Over every sequence of VCC and RST changes on an enabled slot: the host has reset the
real card exactly as was due, once for each time the emulated card became operational and
cold where VCC had been absent, if and only if RST is never released under a VCC that has
been absent since the last reset. -/
theorem resets_due_iff (slot : CardSlot) (cold : Bool) (enabled : slot.enabled = true)
    (irq : hasFlag slot.ch.features cemuFeatFStatusIrq = true) (reported : slot.Reported)
    (events : List PinEvent) :
    Always step (fun s => s.host.resets = s.due) (init slot cold) events ↔
      Meets step SteadyVcc (init slot cold) events := by
  have linked : (init slot cold).Linked :=
    { enabled, fed := ⟨rfl, rfl, rfl, irq, rfl⟩, vcc := reported.vcc, clk := reported.clk
      rst := reported.rst, seen := .inr rfl }
  exact always_iff_meets Linked (fun _ event h => h.step event)
    (fun _ event h faithful => h.exact event faithful) linked rfl events

/-- An enabled slot with its card off and its lines idle. -/
def offSlot : CardSlot :=
  { CardSlot.modeCardemuInit 0 1 2 false false CardSlot.quietUart (.untouched .absent) false none with
    enabled := true, inst.emu.ch.features := cemuFeatFStatusIrq }

/-- The reader holds RST, powers the card up, and then releases RST, as ISO 7816-3 has it. -/
def powerUp : List PinEvent :=
  [.rstPin true, .ioStatechg 0 1 2, .vccPin true, .ioStatechg 0 1 2, .rstPin false, .ioStatechg 0 1 2]

theorem offSlot_resets_due_iff :
    Always step (fun s => s.host.resets = s.due) (init offSlot true) powerUp ↔
      Meets step SteadyVcc (init offSlot true) powerUp :=
  resets_due_iff offSlot true rfl (by decide)
    ⟨rfl, rfl, rfl, fun lit => absurd lit (by decide)⟩ powerUp

/-- The real card gets a warm reset for it, though VCC had been absent. -/
theorem powerUp_warm :
    (run step (init offSlot true) powerUp).host.resets = [.warm] ∧
      (run step (init offSlot true) powerUp).due = [.cold] ∧
      ¬ Always step (fun s => s.host.resets = s.due) (init offSlot true) powerUp := by
  have warm : (run step (init offSlot true) powerUp).host.resets = [.warm] := by decide
  have due : (run step (init offSlot true) powerUp).due = [.cold] := by decide
  refine ⟨warm, due, fun always => ?_⟩
  have faithful : (run step (init offSlot true) powerUp).host.resets =
      (run step (init offSlot true) powerUp).due := always powerUp (List.prefix_refl powerUp)
  rw [warm, due] at faithful
  cases faithful

end Resets
end Simtrace2
