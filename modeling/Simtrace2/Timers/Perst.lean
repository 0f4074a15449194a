import Mathlib.Algebra.Group.Nat.Defs
import Simtrace2.Lib.Run
import Simtrace2.Timers.Led

/-! The reset lines of the modems, which `wwan_perst.c` asserts and a timer releases, among the
timers of the rest of the firmware. `κ` names those, and `σ` is what their owners keep. -/
namespace Simtrace2
open Lib

/-- `struct wwan_perst`, of which there is one for each modem. -/
inductive Perst where
  | perst1 | perst2
deriving DecidableEq, Repr

inductive TimerName (κ : Type) where
  | perst (p : Perst)
  | other (k : κ)
deriving DecidableEq, Repr

/-- The lines that are asserted, and the rest of the firmware. -/
structure Lines (σ : Type) where
  asserted : Perst → Bool
  rest : σ

abbrev Board (κ σ : Type) := Timers (TimerName κ) × Lines σ

inductive BoardInput (κ σ : Type) where
  | sysTick (ticks : Nat)
  | osmoTimersUpdate
  | wwanPerstDoResetPulse (modemNr : Int) (durationMs : UInt16)
  | wwanPerstSet (modemNr : Int) (active : Bool)
  | other (calls : List (TimerCall κ)) (rest : σ)

section
variable {κ σ : Type} [DecidableEq κ]

def Timers.call (t : Timers (TimerName κ)) : TimerCall κ → Timers (TimerName κ)
  | .schedule k seconds microseconds => t.osmoTimerSchedule (.other k) seconds microseconds
  | .del k => t.osmoTimerDel (.other k)
  | .sysTick ticks => t.sysTick ticks

def Timers.calls (t : Timers (TimerName κ)) (calls : List (TimerCall κ)) : Timers (TimerName κ) :=
  calls.foldl Timers.call t

namespace Lines

/-- `PIO_Set` asserts the line, and `PIO_Clear` releases it. -/
def pioSet (l : Lines σ) (p : Perst) : Lines σ :=
  { l with asserted := Function.update l.asserted p true }

def pioClear (l : Lines σ) (p : Perst) : Lines σ :=
  { l with asserted := Function.update l.asserted p false }

def perstTmrCb (l : Lines σ) (p : Perst) : Lines σ := l.pioClear p

end Lines

def getPerstForModem (modemNr : Int) : Option Perst :=
  if modemNr = 0 then some .perst1 else if modemNr = 1 then some .perst2 else none

namespace Board

def wwanPerstDoResetPulse (b : Board κ σ) (modemNr : Int) (durationMs : UInt16) : Int × Board κ σ :=
  match getPerstForModem modemNr with
  | none => (-1, b)
  | some perst =>
    let ms := durationMs.toNat
    (0, b.1.osmoTimerSchedule (.perst perst) (ms / 1000) (ms % 1000 * 1000), b.2.pioSet perst)

def wwanPerstSet (b : Board κ σ) (modemNr : Int) (active : Bool) : Int × Board κ σ :=
  match getPerstForModem modemNr with
  | none => (-1, b)
  | some perst =>
    (0, b.1.osmoTimerDel (.perst perst), if active then b.2.pioSet perst else b.2.pioClear perst)

/-- The call-back of a timer. Those of the rest of the firmware do with their own timers what
they like. -/
def cb (others : κ → σ → List (TimerCall κ) × σ) : TimerName κ → Board κ σ → Board κ σ
  | .perst p, (t, l) => (t, l.perstTmrCb p)
  | .other k, (t, l) =>
    let (calls, rest) := others k l.rest
    (t.calls calls, { l with rest })

def update (others : κ → σ → List (TimerCall κ) × σ) (b : Board κ σ) : Board κ σ :=
  (Timers.osmoTimersUpdate (cb others) b).2

def step (others : κ → σ → List (TimerCall κ) × σ) (b : Board κ σ) : BoardInput κ σ → Board κ σ
  | .sysTick ticks => (b.1.sysTick ticks, b.2)
  | .osmoTimersUpdate => b.update others
  | .wwanPerstDoResetPulse modemNr durationMs => (b.wwanPerstDoResetPulse modemNr durationMs).2
  | .wwanPerstSet modemNr active => (b.wwanPerstSet modemNr active).2
  | .other calls rest => (b.1.calls calls, { b.2 with rest })

/-- After `wwan_perst_init`. -/
def init (rest : σ) : Board κ σ := (⟨0, [], []⟩, ⟨fun _ => false, rest⟩)

end Board

/-- A pulse that has been asked for `duration` ms at `start`, and not ended yet. -/
structure Pulse where
  start : Nat
  duration : Nat
deriving DecidableEq, Repr

def Pulse.ends (p : Pulse) : Nat := p.start + p.duration

/-- The board with the pulses that are on. -/
structure Pulsed (κ σ : Type) where
  board : Board κ σ
  pulse : Perst → Option Pulse

namespace Pulsed

def init (rest : σ) : Pulsed κ σ := ⟨.init rest, fun _ => none⟩

def uptime (w : Pulsed κ σ) : Nat := w.board.1.uptime

/-- The input begins a pulse on the line, or sets it. -/
def Intervenes (p : Perst) : BoardInput κ σ → Prop
  | .wwanPerstDoResetPulse modemNr _ | .wwanPerstSet modemNr _ =>
    getPerstForModem modemNr = some p
  | .sysTick _ | .osmoTimersUpdate | .other _ _ => False

/-- A pulse is over when its line is released. -/
def step (others : κ → σ → List (TimerCall κ) × σ) (w : Pulsed κ σ) (input : BoardInput κ σ) :
    Pulsed κ σ :=
  let board := w.board.step others input
  match input with
  | .wwanPerstDoResetPulse modemNr durationMs =>
    ⟨board, fun p =>
      if getPerstForModem modemNr = some p then some ⟨w.uptime, durationMs.toNat⟩ else w.pulse p⟩
  | .wwanPerstSet modemNr _ =>
    ⟨board, fun p => if getPerstForModem modemNr = some p then none else w.pulse p⟩
  | .osmoTimersUpdate => ⟨board, fun p => if board.2.asserted p then w.pulse p else none⟩
  | .sysTick _ | .other _ _ => ⟨board, w.pulse⟩

def Updates : BoardInput κ σ → Prop
  | .osmoTimersUpdate => True
  | .sysTick _ | .wwanPerstDoResetPulse _ _ | .wwanPerstSet _ _ | .other _ _ => False

/-- Each line with a pulse on it is released by an update at the end of the pulse or after it,
and by nothing else that does not intervene. -/
def ReleasedInTime (others : κ → σ → List (TimerCall κ) × σ) (w : Pulsed κ σ)
    (input : BoardInput κ σ) : Prop :=
  ∀ p pulse, w.pulse p = some pulse → ¬Intervenes p input →
    ((w.board.step others input).2.asserted p = false ↔ Updates input ∧ pulse.ends ≤ w.uptime)

end Pulsed

/-- The two times are in one period of the counter, or `now` is so late that the counter has
come by the first of them again. -/
def SamePeriod (ends now : Nat) : Prop :=
  ends / 2 ^ 32 = now / 2 ^ 32 ∨ ends ≤ now ∧ ends % 2 ^ 32 ≤ now % 2 ^ 32

theorem samePeriod_iff {ends now : Nat} (close : ends < now + 2 ^ 32) :
    SamePeriod ends now ↔ (ends % 2 ^ 32 ≤ now % 2 ^ 32 ↔ ends ≤ now) := by
  unfold SamePeriod
  omega

/-! ### The timers of the others -/

/-- `t'` comes from `t` by calls that leave the timers of the lines alone. -/
structure Timers.Beside (t t' : Timers (TimerName κ)) : Prop where
  sound : t'.Sound
  times : ∀ p, t'.timesOf (.perst p) = t.timesOf (.perst p)
  evicted : ∀ p, .perst p ∈ t'.evicted ↔ .perst p ∈ t.evicted
  shorter : t'.evicted.length ≤ t.evicted.length
  later : t.uptime ≤ t'.uptime

namespace Timers.Beside
variable {t t' t'' : Timers (TimerName κ)}

theorem refl (h : t.Sound) : Beside t t :=
  ⟨h, fun _ => rfl, fun _ => Iff.rfl, Nat.le_refl _, Nat.le_refl _⟩

theorem trans (first : Beside t t') (next : Beside t' t'') : Beside t t'' where
  sound := next.sound
  times p := (next.times p).trans (first.times p)
  evicted p := (next.evicted p).trans (first.evicted p)
  shorter := Nat.le_trans next.shorter first.shorter
  later := Nat.le_trans first.later next.later

theorem del (h : t.Sound) (k : κ) : Beside t (t.osmoTimerDel (.other k)) where
  sound := h.del _
  times p := osmoTimerDel_other t (by simp)
  evicted p := by
    rw [osmoTimerDel_evicted h]
    simp
  shorter := by
    rw [osmoTimerDel_evicted h]
    exact List.length_filter_le _ _
  later := by rw [osmoTimerDel_uptime]

theorem schedule (h : t.Sound) (k : κ) (seconds microseconds : Nat) :
    Beside t (t.osmoTimerSchedule (.other k) seconds microseconds) where
  sound := h.schedule _ _ _
  times p := osmoTimerSchedule_other t (by simp) _ _
  evicted p := by
    rw [osmoTimerSchedule_evicted h]
    simp
  shorter := by
    rw [osmoTimerSchedule_evicted h]
    exact List.length_filter_le _ _
  later := by
    show t.uptime ≤ (t.osmoTimerDel (.other k)).uptime
    rw [osmoTimerDel_uptime]

theorem call (h : t.Sound) (c : TimerCall κ) : Beside t (t.call c) := by
  cases c with
  | schedule k seconds microseconds => exact schedule h k _ _
  | del k => exact del h k
  | sysTick ticks =>
    exact ⟨⟨h.order, h.live⟩, fun _ => rfl, fun _ => Iff.rfl, Nat.le_refl _, Nat.le_add_right _ _⟩

theorem calls (h : t.Sound) (cs : List (TimerCall κ)) : Beside t (t.calls cs) := by
  induction cs generalizing t with
  | nil => exact refl h
  | cons c cs ih =>
    have first := call h c
    exact first.trans (ih first.sound)

end Timers.Beside

/-! ### One update -/

namespace Board
variable {others : κ → σ → List (TimerCall κ) × σ}

/-- The line has been released and its timer is gone. -/
structure Released (b : Board κ σ) (p : Perst) : Prop where
  line : b.2.asserted p = false
  times : b.1.timesOf (.perst p) = []
  called : .perst p ∉ b.1.evicted

/-- The line and its timer are as they were. -/
structure Spared (b b' : Board κ σ) (p : Perst) : Prop where
  line : b'.2.asserted p = b.2.asserted p
  times : b'.1.timesOf (.perst p) = b.1.timesOf (.perst p)
  evicted : .perst p ∈ b'.1.evicted ↔ .perst p ∈ b.1.evicted

theorem Spared.trans {b b' b'' : Board κ σ} {p : Perst} (first : Spared b b' p)
    (next : Spared b' b'' p) : Spared b b'' p :=
  ⟨next.line.trans first.line, next.times.trans first.times, next.evicted.trans first.evicted⟩

/-- The call-backs keep the tree in order and the list of evicted timers short. -/
theorem cb_sound (others : κ → σ → List (TimerCall κ) × σ) (this : TimerName κ) (b : Board κ σ)
    (sound : b.1.Sound) :
    (cb others this b).1.Sound ∧ (cb others this b).1.evicted.length ≤ b.1.evicted.length ∧
      b.1.uptime ≤ (cb others this b).1.uptime := by
  cases this with
  | perst p => exact ⟨sound, Nat.le_refl _, Nat.le_refl _⟩
  | other k =>
    have beside := Timers.Beside.calls sound (others k b.2.rest).1
    exact ⟨beside.sound, beside.shorter, beside.later⟩

/-- A round of the loop releases the line whose timer it takes, and no other. -/
theorem round_perst (others : κ → σ → List (TimerCall κ) × σ) {b : Board κ σ}
    (sound : b.1.Sound) (this : TimerName κ) (p : Perst) :
    let b' := cb others this (b.1.osmoTimerDel this, b.2)
    (this = .perst p → Released b' p) ∧ (this ≠ .perst p → Spared b b' p) := by
  intro b'
  constructor
  · rintro rfl
    constructor
    · simp [b', cb, Lines.perstTmrCb, Lines.pioClear]
    · exact Timers.osmoTimerDel_self _ _
    · show TimerName.perst p ∉ (b.1.osmoTimerDel (.perst p)).evicted
      rw [Timers.osmoTimerDel_evicted sound]
      simp
  · intro ne
    have taken : Spared b (b.1.osmoTimerDel this, b.2) p := by
      constructor
      · rfl
      · exact Timers.osmoTimerDel_other _ ne.symm
      · simp only [Timers.osmoTimerDel_evicted sound]
        simp [ne.symm]
    apply taken.trans
    cases this with
    | perst q =>
      refine ⟨?_, rfl, Iff.rfl⟩
      have other : p ≠ q := fun same => ne (same ▸ rfl)
      simp [b', cb, Lines.perstTmrCb, Lines.pioClear, other]
    | other k =>
      have beside := Timers.Beside.calls (sound.del (.other k)) (others k b.2.rest).1
      exact ⟨rfl, beside.times p, beside.evicted p⟩

theorem update_sound (others : κ → σ → List (TimerCall κ) × σ) {b : Board κ σ} (sound : b.1.Sound) :
    (b.update others).1.Sound ∧ (b.update others).1.evicted = [] ∧
      b.1.uptime ≤ (b.update others).1.uptime := by
  have kept : (b.update others).1.Sound ∧ b.1.uptime ≤ (b.update others).1.uptime := by
    refine Timers.callEvicted_keeps
      (fun s : Board κ σ => s.1.Sound ∧ b.1.uptime ≤ s.1.uptime) ?_ _ ?_
    · rintro this s ⟨sound, later⟩ _
      obtain ⟨sound', _, later'⟩ :=
        cb_sound others this (s.1.osmoTimerDel this, s.2) (sound.del this)
      refine ⟨sound', Nat.le_trans later ?_⟩
      rwa [Timers.osmoTimerDel_uptime] at later'
    · exact ⟨sound.evict, Nat.le_refl _⟩
  refine ⟨kept.1, ?_, kept.2⟩
  apply Timers.callEvicted_done
  · intro this s sound
    obtain ⟨sound', shorter, _⟩ := cb_sound others this s sound
    exact ⟨sound', shorter⟩
  · exact sound.evict
  · exact Nat.le_refl _

/-- An update releases the lines whose timers it evicts, and leaves the others. -/
theorem update_perst (others : κ → σ → List (TimerCall κ) × σ) {b : Board κ σ}
    (sound : b.1.Sound) (p : Perst) :
    (.perst p ∈ b.1.evict.evicted → Released (b.update others) p) ∧
      (.perst p ∉ b.1.evict.evicted →
        (b.update others).2.asserted p = b.2.asserted p ∧
          (b.update others).1.timesOf (.perst p) = b.1.timesOf (.perst p)) := by
  have ends := (update_sound others sound).2.1
  have all : (b.update others).1.Sound ∧
      (Spared (b.1.evict, b.2) (b.update others) p ∨
        .perst p ∈ b.1.evict.evicted ∧ Released (b.update others) p) := by
    refine Timers.callEvicted_keeps (fun s : Board κ σ => s.1.Sound ∧
      (Spared (b.1.evict, b.2) s p ∨ .perst p ∈ b.1.evict.evicted ∧ Released s p)) ?_ _ ?_
    · rintro this s ⟨sound, so⟩ there
      obtain ⟨mine, others'⟩ := round_perst others sound this p
      refine ⟨(cb_sound others this _ (sound.del this)).1, ?_⟩
      by_cases same : this = .perst p
      · refine Or.inr ⟨?_, mine same⟩
        rcases so with spared | ⟨evicted, _⟩
        · exact spared.evicted.mp (same ▸ there)
        · exact evicted
      · have kept := others' same
        rcases so with spared | ⟨evicted, released⟩
        · exact Or.inl (spared.trans kept)
        · refine Or.inr ⟨evicted, kept.line.trans released.line, kept.times.trans released.times, ?_⟩
          rw [kept.evicted]
          exact released.called
    · exact ⟨sound.evict, Or.inl ⟨rfl, rfl, Iff.rfl⟩⟩
  constructor
  · intro evicted
    rcases all.2 with spared | ⟨_, released⟩
    · have still := spared.evicted.mpr evicted
      rw [ends] at still
      cases still
    · exact released
  · intro free
    rcases all.2 with spared | ⟨evicted, _⟩
    · exact ⟨spared.line, spared.times⟩
    · exact absurd evicted free

end Board

/-! ### The pulses over a run -/

namespace Pulsed
variable {others : κ → σ → List (TimerCall κ) × σ}

/-- Between two inputs: a pulse that is on has asserted its line, and its timer expires at its
end, modulo the counter; no other line has a timer. -/
structure Sound (w : Pulsed κ σ) : Prop where
  timers : w.board.1.Sound
  idle : w.board.1.evicted = []
  asserted : ∀ p pulse, w.pulse p = some pulse → w.board.2.asserted p = true
  times : ∀ p pulse, w.pulse p = some pulse →
    w.board.1.timesOf (.perst p) = [pulse.ends.toUInt32]
  close : ∀ p pulse, w.pulse p = some pulse → pulse.ends < w.uptime + 2 ^ 32
  off : ∀ p, w.pulse p = none → w.board.1.timesOf (.perst p) = []

/-- The update calls of a run find each pulse that is on in the period of its end. -/
def NoWrap (w : Pulsed κ σ) (input : BoardInput κ σ) : Prop :=
  Updates input → ∀ p pulse, w.pulse p = some pulse → SamePeriod pulse.ends w.uptime

namespace Sound
variable {w : Pulsed κ σ}

theorem init (rest : σ) : (Pulsed.init rest : Pulsed κ σ).Sound where
  timers := ⟨List.Pairwise.nil, by intro timer mem; cases mem⟩
  idle := rfl
  asserted p pulse on := by cases on
  times p pulse on := by cases on
  close p pulse on := by cases on
  off _ _ := rfl

/-- The timer of a pulse is evicted when the counter shows its end, or more. -/
theorem evicted_iff (h : w.Sound) {p : Perst} {pulse : Pulse} (on : w.pulse p = some pulse) :
    .perst p ∈ w.board.1.evict.evicted ↔ pulse.ends % 2 ^ 32 ≤ w.uptime % 2 ^ 32 := by
  rw [Timers.mem_evict h.timers, h.times p pulse on]
  simp only [List.mem_singleton, exists_eq_left]
  exact Iff.rfl

theorem released_iff (h : w.Sound) (others : κ → σ → List (TimerCall κ) × σ) {p : Perst}
    {pulse : Pulse} (on : w.pulse p = some pulse) :
    (w.board.update others).2.asserted p = false ↔
      pulse.ends % 2 ^ 32 ≤ w.uptime % 2 ^ 32 := by
  obtain ⟨released, spared⟩ := Board.update_perst others h.timers p
  rw [← h.evicted_iff on]
  constructor
  · intro low
    by_contra free
    rw [(spared free).1, h.asserted p pulse on] at low
    cases low
  · intro evicted
    exact (released evicted).line

/-- Calls about the other timers change nothing here, and the counter goes on. -/
theorem beside (h : w.Sound) {b : Board κ σ} (beside : Timers.Beside w.board.1 b.1)
    (line : b.2.asserted = w.board.2.asserted) : Sound ⟨b, w.pulse⟩ where
  timers := beside.sound
  idle := by
    have shorter := beside.shorter
    rw [h.idle] at shorter
    exact List.eq_nil_of_length_eq_zero (Nat.le_zero.mp shorter)
  asserted p pulse on := by
    rw [line]
    exact h.asserted p pulse on
  times p pulse on := (beside.times p).trans (h.times p pulse on)
  close p pulse on := by
    have later := beside.later
    exact Nat.lt_of_lt_of_le (h.close p pulse on) (Nat.add_le_add_right later _)
  off p none := (beside.times p).trans (h.off p none)

theorem update (h : w.Sound) : (w.step others .osmoTimersUpdate).Sound := by
  obtain ⟨sound, ended, later⟩ := Board.update_sound others h.timers
  have kept : ∀ p pulse, (w.step others .osmoTimersUpdate).pulse p = some pulse →
      (w.board.update others).2.asserted p = true ∧ w.pulse p = some pulse := by
    intro p pulse on
    cases low : (w.board.update others).2.asserted p with
    | false => simp [step, Board.step, low] at on
    | true => exact ⟨rfl, by simpa [step, Board.step, low] using on⟩
  have spared : ∀ p pulse, (w.step others .osmoTimersUpdate).pulse p = some pulse →
      .perst p ∉ w.board.1.evict.evicted := by
    intro p pulse on evicted
    have low := ((Board.update_perst others h.timers p).1 evicted).line
    rw [(kept p pulse on).1] at low
    cases low
  constructor
  · exact sound
  · exact ended
  · intro p pulse on
    exact (kept p pulse on).1
  · intro p pulse on
    have same := ((Board.update_perst others h.timers p).2 (spared p pulse on)).2
    exact same.trans (h.times p pulse (kept p pulse on).2)
  · intro p pulse on
    exact Nat.lt_of_lt_of_le (h.close p pulse (kept p pulse on).2) (Nat.add_le_add_right later _)
  · intro p none
    obtain ⟨released, spared⟩ := Board.update_perst others h.timers p
    by_cases evicted : .perst p ∈ w.board.1.evict.evicted
    · exact (released evicted).times
    · have off : w.pulse p = Option.none := by
        cases on : w.pulse p with
        | none => rfl
        | some pulse =>
          have line := (spared evicted).1.trans (h.asserted p pulse on)
          simp [step, Board.step, line, on] at none
      exact (spared evicted).2.trans (h.off p off)

/-- The time that the timer of a new pulse is given, in seconds and microseconds. -/
theorem newTime (uptime : Nat) (ms : Nat) :
    (ms / 1000 * 1000 + ms % 1000 * 1000 / 1000).toUInt32 + uptime.toUInt32 =
      (uptime + ms).toUInt32 := by
  have whole : ms / 1000 * 1000 + ms % 1000 * 1000 / 1000 = ms := by omega
  rw [whole, Nat.add_comm uptime]
  exact (UInt32.ofNat_add _ _).symm

/-- A line is set, with or without a pulse, and its timer with it. -/
theorem set (h : w.Sound) {b : Board κ σ} {q : Perst} {new : Option Pulse}
    (timers : b.1.Sound) (idle : b.1.evicted = []) (uptime : b.1.uptime = w.uptime)
    (line : ∀ p, p ≠ q → b.2.asserted p = w.board.2.asserted p)
    (times : ∀ p, p ≠ q → b.1.timesOf (.perst p) = w.board.1.timesOf (.perst p))
    (on : ∀ pulse, new = some pulse → b.2.asserted q = true ∧
      b.1.timesOf (.perst q) = [pulse.ends.toUInt32] ∧ pulse.ends < w.uptime + 2 ^ 32)
    (off : new = none → b.1.timesOf (.perst q) = []) :
    Sound ⟨b, Function.update w.pulse q new⟩ := by
  have here : Function.update w.pulse q new q = new := Function.update_self q new w.pulse
  have there {p : Perst} (ne : p ≠ q) : Function.update w.pulse q new p = w.pulse p :=
    Function.update_of_ne ne new w.pulse
  constructor
  · exact timers
  · exact idle
  · intro p pulse is
    by_cases same : p = q
    · subst same
      exact (on pulse (here.symm.trans is)).1
    · exact (line p same).trans (h.asserted p pulse ((there same).symm.trans is))
  · intro p pulse is
    by_cases same : p = q
    · subst same
      exact (on pulse (here.symm.trans is)).2.1
    · exact (times p same).trans (h.times p pulse ((there same).symm.trans is))
  · intro p pulse is
    show pulse.ends < b.1.uptime + 2 ^ 32
    rw [uptime]
    by_cases same : p = q
    · subst same
      exact (on pulse (here.symm.trans is)).2.2
    · exact h.close p pulse ((there same).symm.trans is)
  · intro p is
    by_cases same : p = q
    · subst same
      exact off (here.symm.trans is)
    · exact (times p same).trans (h.off p ((there same).symm.trans is))

theorem pulses_set {modemNr : Int} {q : Perst} (modem : getPerstForModem modemNr = some q)
    (pulse : Perst → Option Pulse) (new : Option Pulse) :
    (fun p => if getPerstForModem modemNr = some p then new else pulse p) =
      Function.update pulse q new := by
  funext p
  rw [modem]
  by_cases same : p = q
  · simp [same]
  · simp [same, Ne.symm same]

theorem resetPulse (h : w.Sound) (modemNr : Int) (durationMs : UInt16) :
    (w.step others (.wwanPerstDoResetPulse modemNr durationMs)).Sound := by
  cases modem : getPerstForModem modemNr with
  | none => simpa [step, Board.step, Board.wwanPerstDoResetPulse, modem] using h
  | some q =>
    have stepped : w.step others (.wwanPerstDoResetPulse modemNr durationMs) =
        ⟨(w.board.wwanPerstDoResetPulse modemNr durationMs).2,
          Function.update w.pulse q (some ⟨w.uptime, durationMs.toNat⟩)⟩ := by
      rw [← pulses_set modem]
      rfl
    rw [stepped, Board.wwanPerstDoResetPulse, modem]
    apply h.set
    · exact h.timers.schedule _ _ _
    · rw [Timers.osmoTimerSchedule_evicted h.timers, h.idle]
      rfl
    · exact Timers.osmoTimerDel_uptime _ _
    · intro p ne
      simp [Lines.pioSet, ne]
    · intro p ne
      exact Timers.osmoTimerSchedule_other _ (by simpa using ne) _ _
    · rintro pulse ⟨⟩
      refine ⟨by simp [Lines.pioSet], ?_, ?_⟩
      · rw [Timers.osmoTimerSchedule_self]
        exact congrArg (fun time => [time]) (newTime w.uptime durationMs.toNat)
      · have short := durationMs.toNat_lt
        show w.uptime + durationMs.toNat < w.uptime + 2 ^ 32
        omega
    · intro none
      cases none

theorem perstSet (h : w.Sound) (modemNr : Int) (active : Bool) :
    (w.step others (.wwanPerstSet modemNr active)).Sound := by
  cases modem : getPerstForModem modemNr with
  | none => simpa [step, Board.step, Board.wwanPerstSet, modem] using h
  | some q =>
    have stepped : w.step others (.wwanPerstSet modemNr active) =
        ⟨(w.board.wwanPerstSet modemNr active).2, Function.update w.pulse q none⟩ := by
      rw [← pulses_set modem]
      rfl
    rw [stepped, Board.wwanPerstSet, modem]
    apply h.set
    · exact h.timers.del _
    · rw [Timers.osmoTimerDel_evicted h.timers, h.idle]
      rfl
    · exact Timers.osmoTimerDel_uptime _ _
    · intro p ne
      cases active <;> simp [Lines.pioSet, Lines.pioClear, ne]
    · intro p ne
      exact Timers.osmoTimerDel_other _ (by simpa using ne)
    · rintro pulse ⟨⟩
    · intro _
      exact Timers.osmoTimerDel_self _ _

theorem step (h : w.Sound) (input : BoardInput κ σ) : (w.step others input).Sound := by
  cases input with
  | sysTick ticks =>
    exact h.beside (b := (w.board.1.sysTick ticks, w.board.2)) (.call h.timers (.sysTick ticks)) rfl
  | osmoTimersUpdate => exact h.update
  | wwanPerstDoResetPulse modemNr durationMs => exact h.resetPulse modemNr durationMs
  | wwanPerstSet modemNr active => exact h.perstSet modemNr active
  | other calls rest =>
    exact h.beside (b := (w.board.1.calls calls, { w.board.2 with rest })) (.calls h.timers calls) rfl

/-- A line on which nothing intervenes keeps what another line is set to. -/
theorem other_line {modemNr : Int} {p q : Perst} (modem : getPerstForModem modemNr = some q)
    (aside : getPerstForModem modemNr ≠ some p) (asserted : Perst → Bool) (active : Bool) :
    Function.update asserted q active p = asserted p := by
  have apart : p ≠ q := fun same => aside (same ▸ modem)
  exact Function.update_of_ne apart _ _

/-- What an input that does not intervene does to an asserted line. -/
theorem line_kept (h : w.Sound) {p : Perst} {pulse : Pulse} (on : w.pulse p = some pulse)
    {input : BoardInput κ σ} (aside : ¬Intervenes p input) (other : ¬Updates input) :
    (w.board.step others input).2.asserted p = true := by
  have asserted := h.asserted p pulse on
  cases input with
  | sysTick ticks => exact asserted
  | osmoTimersUpdate => exact absurd trivial other
  | wwanPerstDoResetPulse modemNr durationMs =>
    rw [Board.step, Board.wwanPerstDoResetPulse]
    cases modem : getPerstForModem modemNr with
    | none => exact asserted
    | some q => exact (other_line modem aside _ true).trans asserted
  | wwanPerstSet modemNr active =>
    rw [Board.step, Board.wwanPerstSet]
    cases modem : getPerstForModem modemNr with
    | none => exact asserted
    | some q =>
      cases active
      · exact (other_line modem aside _ false).trans asserted
      · exact (other_line modem aside _ true).trans asserted
  | other calls rest => exact asserted

/-- The pulses of a step are released in time exactly when an update finds none of them on the
other side of a wrap. -/
theorem releasedInTime_iff (h : w.Sound) (input : BoardInput κ σ) :
    ReleasedInTime others w input ↔ NoWrap w input := by
  by_cases updates : Updates input
  · have isUpdate : input = .osmoTimersUpdate := by
      cases input with
      | osmoTimersUpdate => rfl
      | _ => exact absurd updates id
    subst isUpdate
    constructor
    · intro inTime _ p pulse on
      rw [samePeriod_iff (h.close p pulse on), ← h.released_iff others on]
      have here := inTime p pulse on id
      rwa [and_iff_right updates] at here
    · intro noWrap p pulse on _
      have same := (samePeriod_iff (h.close p pulse on)).mp (noWrap trivial p pulse on)
      show (w.board.update others).2.asserted p = false ↔ _
      rw [h.released_iff others on, same, and_iff_right updates]
  · constructor
    · intro _ updates'
      exact absurd updates' updates
    · intro _ p pulse on aside
      rw [h.line_kept on aside updates]
      simp [updates]

end Sound
end Pulsed

/-- Over every run of the firmware from power-up, with any use of the other timers: each pulse
is released by the first update that comes at its end or later, and by no earlier one, exactly
if no update of the run finds a pulse on the other side of a wrap of the counter. -/
theorem reset_pulses_in_time_iff (others : κ → σ → List (TimerCall κ) × σ) (rest : σ)
    (inputs : List (BoardInput κ σ)) :
    Meets (Pulsed.step others) (Pulsed.ReleasedInTime others) (.init rest) inputs ↔
      Meets (Pulsed.step others) Pulsed.NoWrap (.init rest) inputs := by
  refine Meets.iff_of_keeps Pulsed.Sound ?_ ?_ (.init rest) (meets_true _ inputs)
  · intro w input h _ _
    exact h.step input
  · intro w input h _
    exact h.releasedInTime_iff input

end

/-- A red LED blinks, and 100 ms before the counter wraps a modem is to be reset for 300 ms. -/
def nearWrap : List (BoardInput Led (Led → LedState)) :=
  let (calls, leds) := ledBlink .red .blink3o5f ledOff
  [.other calls leds, .sysTick 4294967196, .osmoTimersUpdate, .wwanPerstDoResetPulse 0 300,
    .sysTick 1]

/-- The line is released after the first of them. -/
theorem reset_pulse_cut_short :
    ¬Meets (Pulsed.step blinkTmrCb) (Pulsed.ReleasedInTime blinkTmrCb) (.init ledOff)
      (nearWrap ++ [.osmoTimersUpdate]) := by
  intro h
  have on : (run (Pulsed.step blinkTmrCb) (.init ledOff) nearWrap).pulse .perst1 =
      some ⟨4294967196, 300⟩ := by decide +kernel
  have released := h.before .perst1 ⟨4294967196, 300⟩ on id
  have early := (released.mp (by decide +kernel)).2
  exact absurd early (by decide +kernel)

end Simtrace2
