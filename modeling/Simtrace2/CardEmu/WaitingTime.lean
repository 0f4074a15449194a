import Simtrace2.CardEmu.Api

/-! The waiting time of an instance, counted down in rounds of the receive timer of its USART:
32 bits out of 16, with a call at the half and a call at the end. -/
namespace Simtrace2

inductive WtCall where
  | halfExpired | expired
deriving DecidableEq, Repr

/-- The part `wt` of `struct cardem_inst`. -/
structure Wt where
  total : UInt32
  remaining : UInt32
  halfTimeNotified : Bool
deriving DecidableEq, Repr

/-- The waiting time with its timer. `counter` holds the etu since the last restart while the timer
runs; the lists are what has been written to US_RTOR and which calls have been made so far. -/
structure WtTimer where
  wt : Wt
  usRtor : UInt32
  counter : Option Nat
  programmed : List UInt32
  calls : List WtCall
deriving DecidableEq, Repr

def osmoAssert (p : Prop) [Decidable p] : Option Unit := if p then some () else none

/-- A difference that is not to wrap around: `none` where it would. -/
def minus (a b : UInt32) : Option UInt32 := if b ≤ a then some (a - b) else none

def Wt.computeNextTimeout (wt : Wt) : Option UInt16 := do
  if wt.total = 0 then return 0
  let wantToExpire ←
    if !wt.halfTimeNotified then do
      osmoAssert (wt.total / 2 < wt.remaining)
      minus wt.remaining (wt.total / 2)
    else some wt.remaining
  return (min wantToExpire 0xffff).toUInt16

namespace WtTimer

/-- US_RTOR is written and the counter restarted; with 0 in US_RTOR it does not start. -/
def restart (t : WtTimer) (rtor : UInt16) : WtTimer :=
  { t with
    usRtor := rtor.toUInt32, counter := if rtor = 0 then none else some 0
    programmed := t.programmed ++ [rtor.toUInt32] }

def cardEmuUartResetWt (t : WtTimer) : Option WtTimer := do
  let wt := { t.wt with remaining := t.wt.total, halfTimeNotified := false }
  return { t with wt }.restart (← wt.computeNextTimeout)

def cardEmuUartUpdateWt (t : WtTimer) (wt : UInt32) : Option WtTimer :=
  { t with wt.total := wt }.cardEmuUartResetWt

/-- The timer has run out and there is more to wait. -/
def nextRound (t : WtTimer) (remaining : UInt32) : Option WtTimer := do
  let halfTimeJustReached := remaining ≤ t.wt.total / 2 && !t.wt.halfTimeNotified
  let wt := { t.wt with
    remaining, halfTimeNotified := t.wt.halfTimeNotified || halfTimeJustReached }
  let t := { t with wt }.restart (← wt.computeNextTimeout)
  return if halfTimeJustReached then { t with calls := t.calls ++ [.halfExpired] } else t

/-- The TIMEOUT part of `usart_irq_rx`. -/
def usartIrqTimeout (t : WtTimer) : Option WtTimer := do
  let t := { t with counter := none }
  let rtor := t.usRtor &&& 0xffff
  let remaining ← if t.wt.remaining ≤ rtor then some 0 else minus t.wt.remaining rtor
  if remaining = 0 then
    return { t with wt.remaining := 0, calls := t.calls ++ [.expired] }
  else t.nextRound remaining

/-- One etu: the USART raises TIMEOUT when the counter comes to US_RTOR. -/
def etu (t : WtTimer) : Option WtTimer :=
  match t.counter with
  | none => some t
  | some k =>
    if k + 1 = t.usRtor.toNat then t.usartIrqTimeout else some { t with counter := some (k + 1) }

def etus : Nat → WtTimer → Option WtTimer
  | 0, t => some t
  | n + 1, t => (etus n t).bind etu

end WtTimer

/-- How the countdown is started. -/
inductive Arming where
  | update (wt : UInt32)
  | reset

namespace WtTimer

def armedTotal (t : WtTimer) : Arming → UInt32
  | .update wt => wt
  | .reset => t.wt.total

def arm (t : WtTimer) : Arming → Option WtTimer
  | .update wt => t.cardEmuUartUpdateWt wt
  | .reset => t.cardEmuUartResetWt

end WtTimer

/-- What has been called `n` etu after a waiting time of `total` was armed. -/
def callsDue (total n : Nat) : List WtCall :=
  (if total - total / 2 ≤ n then [.halfExpired] else []) ++ if total ≤ n then [.expired] else []

theorem minus_of_le {a b : UInt32} (le : b.toNat ≤ a.toNat) :
    ∃ c, minus a b = some c ∧ c.toNat = a.toNat - b.toNat := by
  have le' : b ≤ a := UInt32.le_iff_toNat_le.mpr le
  refine ⟨a - b, ?_, ?_⟩
  · rw [minus, if_pos le']
  · exact UInt32.toNat_sub_of_le _ _ le'

theorem toNat_round (want : UInt32) : (min want 0xffff).toUInt16.toNat = min want.toNat 65535 := by
  have small : (min want 0xffff).toNat = min want.toNat 65535 := by
    change (if want ≤ 0xffff then want else 0xffff).toNat = _
    split
    · rename_i le
      exact (Nat.min_eq_left (UInt32.le_iff_toNat_le.mp le)).symm
    · rename_i more
      have ended : 65535 ≤ want.toNat := Nat.le_of_not_le fun le => more (UInt32.le_iff_toNat_le.mpr le)
      exact (Nat.min_eq_right ended).symm
  rw [UInt32.toNat_toUInt16, small]
  omega

theorem toNat_half (total : UInt32) : (total / 2).toNat = total.toNat / 2 := UInt32.toNat_div _ _

theorem toNat_low (r : UInt16) : (r.toUInt32 &&& 0xffff).toNat = r.toNat := by
  rw [UInt32.toNat_and, UInt16.toNat_toUInt32]
  exact (Nat.and_two_pow_sub_one_eq_mod r.toNat 16).trans (Nat.mod_eq_of_lt r.toNat_lt)

/-- What is left of a waiting time up to its half, and from there to its end. -/
def Wt.toWait (wt : Wt) : Nat :=
  if wt.halfTimeNotified then wt.remaining.toNat else wt.remaining.toNat - wt.total.toNat / 2

theorem computeNextTimeout_eq (wt : Wt) (some' : wt.total.toNat ≠ 0)
    (more : wt.halfTimeNotified = false → wt.total.toNat / 2 < wt.remaining.toNat) :
    ∃ r, wt.computeNextTimeout = some r ∧ r.toNat = min wt.toWait 65535 := by
  have on : wt.total ≠ 0 := by
    rintro off
    exact some' (by rw [off]; rfl)
  cases notified : wt.halfTimeNotified with
  | false =>
    have half := toNat_half wt.total
    have ahead : wt.total / 2 < wt.remaining := by
      rw [UInt32.lt_iff_toNat_lt, half]
      exact more notified
    obtain ⟨want, difference, exact'⟩ := minus_of_le (Nat.le_of_lt (UInt32.lt_iff_toNat_lt.mp ahead))
    refine ⟨(min want 0xffff).toUInt16, ?_, ?_⟩
    · simp [Wt.computeNextTimeout, on, notified, osmoAssert, ahead, difference]
    · rw [toNat_round, exact', half, Wt.toWait, notified]
      rfl
  | true =>
    refine ⟨(min wt.remaining 0xffff).toUInt16, ?_, ?_⟩
    · simp [Wt.computeNextTimeout, on, notified]
    · rw [toNat_round, Wt.toWait, notified]
      rfl

namespace WtTimer

/-- A timer that has counted `k` etu of its round; the half is still ahead as long as it has not
been notified. -/
structure Running (t : WtTimer) (k : Nat) : Prop where
  rtor : t.usRtor.toNat = min t.wt.toWait 65535
  low : t.usRtor &&& 0xffff = t.usRtor
  counter : t.counter = some k
  inside : k < t.usRtor.toNat
  ahead : t.wt.halfTimeNotified = false → t.wt.total.toNat / 2 < t.wt.remaining.toNat
  behind : t.wt.halfTimeNotified = true →
    0 < t.wt.remaining.toNat ∧ t.wt.remaining.toNat ≤ t.wt.total.toNat / 2

theorem Running.toWait_pos {t : WtTimer} {k : Nat} (h : t.Running k) : 0 < t.wt.toWait := by
  have inside := h.inside
  rw [h.rtor] at inside
  omega

theorem restart_running {t : WtTimer} {r : UInt16} (round : r.toNat = min t.wt.toWait 65535)
    (ahead : t.wt.halfTimeNotified = false → t.wt.total.toNat / 2 < t.wt.remaining.toNat)
    (behind : t.wt.halfTimeNotified = true →
      0 < t.wt.remaining.toNat ∧ t.wt.remaining.toNat ≤ t.wt.total.toNat / 2) :
    (t.restart r).Running 0 := by
  have left : 0 < t.wt.toWait := by
    unfold Wt.toWait
    cases notified : t.wt.halfTimeNotified with
    | false => exact Nat.sub_pos_of_lt (ahead notified)
    | true => exact (behind notified).1
  have on : 0 < r.toNat := by omega
  constructor
  · exact round
  · exact UInt32.toNat_inj.mp (toNat_low r)
  · have starts : r ≠ 0 := by
      rintro rfl
      exact absurd on (Nat.lt_irrefl 0)
    exact if_neg starts
  · exact on
  · exact ahead
  · exact behind

theorem resetWt_eq {t : WtTimer} (some' : 0 < t.wt.total.toNat) :
    ∃ r, t.cardEmuUartResetWt =
        some ({ t with wt := ⟨t.wt.total, t.wt.total, false⟩ }.restart r) ∧
      r.toNat = min (t.wt.total.toNat - t.wt.total.toNat / 2) 65535 := by
  obtain ⟨r, next, round⟩ := computeNextTimeout_eq ⟨t.wt.total, t.wt.total, false⟩
    (Nat.ne_of_gt some') fun _ => Nat.div_lt_self some' (by decide)
  refine ⟨r, ?_, round⟩
  rw [cardEmuUartResetWt]
  simp only [next]
  rfl

section rounds
variable {t : WtTimer} {remaining : UInt32}

theorem nextRound_ahead (quiet : t.wt.halfTimeNotified = false)
    (more : t.wt.total.toNat / 2 < remaining.toNat) (some' : t.wt.total.toNat ≠ 0) :
    ∃ r, t.nextRound remaining = some ({ t with wt := ⟨t.wt.total, remaining, false⟩ }.restart r) ∧
      r.toNat = min (remaining.toNat - t.wt.total.toNat / 2) 65535 := by
  obtain ⟨r, next, round⟩ := computeNextTimeout_eq ⟨t.wt.total, remaining, false⟩ some'
    fun _ => more
  have notYet : ¬remaining ≤ t.wt.total / 2 := by
    rw [UInt32.le_iff_toNat_le, toNat_half]
    exact Nat.not_le_of_lt more
  refine ⟨r, ?_, round⟩
  simp [nextRound, quiet, notYet, next]

theorem nextRound_half (quiet : t.wt.halfTimeNotified = false)
    (reached : remaining.toNat ≤ t.wt.total.toNat / 2) (some' : t.wt.total.toNat ≠ 0) :
    ∃ r, t.nextRound remaining = some
        { { t with wt := ⟨t.wt.total, remaining, true⟩ }.restart r with
          calls := t.calls ++ [.halfExpired] } ∧
      r.toNat = min remaining.toNat 65535 := by
  obtain ⟨r, next, round⟩ := computeNextTimeout_eq ⟨t.wt.total, remaining, true⟩ some'
    (fun no => nomatch no)
  have now : remaining ≤ t.wt.total / 2 := by
    rw [UInt32.le_iff_toNat_le, toNat_half]
    exact reached
  refine ⟨r, ?_, round⟩
  simp [nextRound, quiet, now, next, restart]

theorem nextRound_behind (remaining : UInt32) (notified : t.wt.halfTimeNotified = true)
    (some' : t.wt.total.toNat ≠ 0) :
    ∃ r, t.nextRound remaining = some ({ t with wt := ⟨t.wt.total, remaining, true⟩ }.restart r) ∧
      r.toNat = min remaining.toNat 65535 := by
  obtain ⟨r, next, round⟩ := computeNextTimeout_eq ⟨t.wt.total, remaining, true⟩ some'
    (fun no => nomatch no)
  refine ⟨r, ?_, round⟩
  simp [nextRound, notified, next]

theorem timeout_over (low : t.usRtor &&& 0xffff = t.usRtor)
    (last : t.wt.remaining.toNat ≤ t.usRtor.toNat) :
    t.usartIrqTimeout = some { t with
      counter := none, wt.remaining := 0, calls := t.calls ++ [.expired] } := by
  have le : t.wt.remaining ≤ t.usRtor := UInt32.le_iff_toNat_le.mpr last
  simp [usartIrqTimeout, low, le]

theorem timeout_more (low : t.usRtor &&& 0xffff = t.usRtor)
    (more : t.usRtor.toNat < t.wt.remaining.toNat) :
    ∃ remaining : UInt32, remaining.toNat = t.wt.remaining.toNat - t.usRtor.toNat ∧
      t.usartIrqTimeout = { t with counter := none }.nextRound remaining := by
  have gt : ¬t.wt.remaining ≤ t.usRtor := by
    rw [UInt32.le_iff_toNat_le]
    exact Nat.not_le_of_lt more
  obtain ⟨remaining, difference, exact'⟩ := minus_of_le (Nat.le_of_lt more)
  have some' : remaining ≠ 0 := by
    rintro rfl
    have zero : (0 : UInt32).toNat = 0 := rfl
    omega
  refine ⟨remaining, exact', ?_⟩
  simp [usartIrqTimeout, low, gt, difference, some']

end rounds

/-- The rounds programmed since `t0` are each in the range of the timer. -/
def Rounds (t0 t : WtTimer) : Prop :=
  ∃ rounds, t.programmed = t0.programmed ++ rounds ∧ ∀ r ∈ rounds, 1 ≤ r.toNat ∧ r.toNat ≤ 65535

theorem Rounds.restart {t0 t t' : WtTimer} (h : Rounds t0 t) (same : t'.programmed = t.programmed)
    {r : UInt16} (on : 0 < r.toNat) : Rounds t0 (t'.restart r) := by
  obtain ⟨rounds, all, range⟩ := h
  refine ⟨rounds ++ [r.toUInt32], ?_, ?_⟩
  · rw [← List.append_assoc, ← all, ← same]
    rfl
  · intro x hx
    obtain old | new := List.mem_append.mp hx
    · exact range x old
    · rw [List.mem_singleton.mp new]
      exact ⟨on, Nat.le_of_lt_succ r.toNat_lt⟩

/-- The timer `n` etu after a waiting time of `total` was armed at `t0`. -/
inductive Countdown (t0 : WtTimer) (total : Nat) : Nat → WtTimer → Prop where
  | waiting {n : Nat} {t : WtTimer} {k : Nat} (running : t.Running k) (armed : t.wt.total.toNat = total)
      (time : n + t.wt.remaining.toNat = total + k)
      (calls : t.calls = t0.calls ++ if t.wt.halfTimeNotified then [.halfExpired] else [])
      (rounds : Rounds t0 t) : Countdown t0 total n t
  | ended {n : Nat} {t : WtTimer} (passed : total ≤ n) (stopped : t.counter = none)
      (calls : t.calls = t0.calls ++ [.halfExpired, .expired]) (rounds : Rounds t0 t) :
      Countdown t0 total n t

/-- Arming starts the first round. -/
theorem countdown_start {t : WtTimer} (some' : 0 < t.wt.total.toNat) :
    ∃ t', t.cardEmuUartResetWt = some t' ∧ Countdown t t.wt.total.toNat 0 t' := by
  obtain ⟨r, armed, round⟩ := resetWt_eq some'
  have half : t.wt.total.toNat / 2 < t.wt.total.toNat := Nat.div_lt_self some' (by decide)
  refine ⟨_, armed, .waiting
    (restart_running round (fun _ => half) (fun no => nomatch no)) rfl ?_ ?_ ?_⟩
  · exact Nat.add_comm 0 _
  · exact (List.append_nil _).symm
  · exact Rounds.restart ⟨[], (List.append_nil _).symm, by simp⟩ rfl (by omega)

/-- More rounds to wait. The cases are those of the half: still ahead, just reached, or behind. -/
theorem Countdown.nextRound {t0 t : WtTimer} {remaining : UInt32} {n : Nat}
    (some' : t.wt.total.toNat ≠ 0) (left : 0 < remaining.toNat)
    (behind : t.wt.halfTimeNotified = true → remaining.toNat ≤ t.wt.total.toNat / 2)
    (time : n + remaining.toNat = t.wt.total.toNat)
    (calls : t.calls = t0.calls ++ if t.wt.halfTimeNotified then [.halfExpired] else [])
    (rounds : Rounds t0 t) :
    ∃ t', t.nextRound remaining = some t' ∧ Countdown t0 t.wt.total.toNat n t' := by
  cases notified : t.wt.halfTimeNotified with
  | false =>
    rw [notified] at calls
    by_cases more : t.wt.total.toNat / 2 < remaining.toNat
    · obtain ⟨r, next, length⟩ := nextRound_ahead notified more some'
      have running : ({ t with wt := ⟨t.wt.total, remaining, false⟩ }.restart r).Running 0 :=
        restart_running length (fun _ => more) (fun no => nomatch no)
      exact ⟨_, next, .waiting running rfl time calls (rounds.restart rfl running.inside)⟩
    · have reached := Nat.le_of_not_lt more
      obtain ⟨r, next, length⟩ := nextRound_half notified reached some'
      have running : ({ t with wt := ⟨t.wt.total, remaining, true⟩ }.restart r).Running 0 :=
        restart_running length (fun no => nomatch no) (fun _ => ⟨left, reached⟩)
      have told : { { t with wt := ⟨t.wt.total, remaining, true⟩ }.restart r with
          calls := t.calls ++ [WtCall.halfExpired] }.Running 0 :=
        ⟨running.rtor, running.low, running.counter, running.inside, running.ahead, running.behind⟩
      have added : t.calls ++ [.halfExpired] = t0.calls ++ [.halfExpired] := by
        rw [calls]
        simp
      have programmed := rounds.restart (rfl : { t with
        wt := ⟨t.wt.total, remaining, true⟩ }.programmed = t.programmed) running.inside
      exact ⟨_, next, .waiting told rfl time added programmed⟩
  | true =>
    rw [notified] at calls
    obtain ⟨r, next, length⟩ := nextRound_behind remaining notified some'
    have running : ({ t with wt := ⟨t.wt.total, remaining, true⟩ }.restart r).Running 0 :=
      restart_running length (fun no => nomatch no) (fun _ => ⟨left, behind notified⟩)
    exact ⟨_, next, .waiting running rfl time calls (rounds.restart rfl running.inside)⟩

/-- A round is over: the last one, or one of those before it. -/
theorem Countdown.timeout {t0 t : WtTimer} {n k : Nat} (two : 2 ≤ t.wt.total.toNat)
    (running : t.Running k) (time : n + t.wt.remaining.toNat = t.wt.total.toNat + k)
    (calls : t.calls = t0.calls ++ if t.wt.halfTimeNotified then [.halfExpired] else [])
    (rounds : Rounds t0 t) (last : k + 1 = t.usRtor.toNat) :
    ∃ t', t.usartIrqTimeout = some t' ∧ Countdown t0 t.wt.total.toNat (n + 1) t' := by
  have round := running.rtor
  by_cases ended : t.wt.remaining.toNat ≤ t.usRtor.toNat
  · have notified : t.wt.halfTimeNotified = true := by
      rw [← Bool.not_eq_false]
      intro ahead
      have more := running.ahead ahead
      rw [Wt.toWait, ahead] at round
      simp only [Bool.false_eq_true, if_false] at round
      omega
    have whole : t.calls ++ [.expired] = t0.calls ++ [.halfExpired, .expired] := by
      rw [calls, notified]
      simp
    have reached := (running.behind notified).2
    rw [Wt.toWait, notified] at round
    simp only [if_true] at round
    exact ⟨_, timeout_over running.low ended, .ended (by omega) rfl whole rounds⟩
  · obtain ⟨remaining, exact', irq⟩ := timeout_more running.low (Nat.lt_of_not_le ended)
    have behind (notified : t.wt.halfTimeNotified = true) :
        remaining.toNat ≤ t.wt.total.toNat / 2 := by
      have reached := (running.behind notified).2
      omega
    have some' : t.wt.total.toNat ≠ 0 := by omega
    have time' : n + 1 + remaining.toNat = t.wt.total.toNat := by omega
    rw [irq]
    exact Countdown.nextRound (t := { t with counter := none }) some' (by omega) behind time' calls
      rounds

theorem Countdown.etu {t0 t : WtTimer} {total n : Nat} (two : 2 ≤ total)
    (h : Countdown t0 total n t) : ∃ t', t.etu = some t' ∧ Countdown t0 total (n + 1) t' := by
  cases h with
  | waiting running armed time calls rounds =>
    rename_i k
    by_cases last : k + 1 = t.usRtor.toNat
    · subst armed
      obtain ⟨t', irq, next⟩ := Countdown.timeout two running time calls rounds last
      refine ⟨t', ?_, next⟩
      rw [WtTimer.etu, running.counter]
      exact (if_pos last).trans irq
    · have inside : k + 1 < t.usRtor.toNat := by
        have before := running.inside
        omega
      refine ⟨{ t with counter := some (k + 1) }, ?_, .waiting (k := k + 1) ?_ armed ?_ calls rounds⟩
      · rw [WtTimer.etu, running.counter]
        exact if_neg last
      · exact ⟨running.rtor, running.low, rfl, inside, running.ahead, running.behind⟩
      · change n + 1 + t.wt.remaining.toNat = total + (k + 1)
        omega
  | ended passed stopped calls rounds =>
    refine ⟨t, ?_, .ended (Nat.le_succ_of_le passed) stopped calls rounds⟩
    rw [WtTimer.etu, stopped]

/-- The run lemma: from the start on, every etu goes by. -/
theorem Countdown.etus {t0 t : WtTimer} {total : Nat} (two : 2 ≤ total)
    (start : Countdown t0 total 0 t) (n : Nat) :
    ∃ t', t.etus n = some t' ∧ Countdown t0 total n t' := by
  induction n with
  | zero => exact ⟨t, rfl, start⟩
  | succ n ih =>
    obtain ⟨t1, before, here⟩ := ih
    obtain ⟨t2, next, after⟩ := here.etu two
    refine ⟨t2, ?_, after⟩
    rw [WtTimer.etus, before]
    exact next

theorem Countdown.calls {t0 t : WtTimer} {total n : Nat} (h : Countdown t0 total n t) :
    t.calls = t0.calls ++ callsDue total n := by
  cases h with
  | waiting running armed time calls _ =>
    have left := running.toWait_pos
    have inside := running.inside
    have round := running.rtor
    rw [calls, callsDue]
    cases notified : t.wt.halfTimeNotified with
    | false =>
      have ahead := running.ahead notified
      rw [Wt.toWait, notified] at round
      simp only [Bool.false_eq_true, if_false] at round ⊢
      rw [if_neg (by omega), if_neg (by omega)]
      rfl
    | true =>
      obtain ⟨_, behind⟩ := running.behind notified
      rw [Wt.toWait, notified] at round
      simp only [if_true] at round ⊢
      rw [if_pos (by omega), if_neg (by omega)]
      rfl
  | ended passed _ calls _ =>
    rw [calls, callsDue, if_pos (by omega), if_pos passed]
    rfl

theorem Countdown.rounds {t0 t : WtTimer} {total n : Nat} (h : Countdown t0 total n t) :
    Rounds t0 t := by
  cases h with
  | waiting _ _ _ _ rounds => exact rounds
  | ended _ _ _ rounds => exact rounds

/-- What `n` etu find of a timer that is armed at `t`. -/
def after (t : WtTimer) (a : Arming) (n : Nat) : Option WtTimer := (t.arm a).bind (etus n)

theorem arm_eq (t : WtTimer) (a : Arming) :
    t.arm a = { t with wt.total := t.armedTotal a }.cardEmuUartResetWt := by
  cases a <;> rfl

theorem resetWt_off {t : WtTimer} (off : t.wt.total = 0) :
    t.cardEmuUartResetWt =
      some { t with
        wt := ⟨0, 0, false⟩, usRtor := 0, counter := none, programmed := t.programmed ++ [0] } := by
  simp [cardEmuUartResetWt, Wt.computeNextTimeout, off, restart]

theorem etus_stopped {t : WtTimer} (stopped : t.counter = none) (n : Nat) : t.etus n = some t := by
  induction n with
  | zero => rfl
  | succ n ih =>
    rw [etus, ih, Option.bind_some, etu, stopped]

/-- A waiting time is counted down to the etu: no assertion fails and no difference wraps around,
each round fits the timer, the half is called after the longer half of the total and the end after
the total, each of them once. A total of 0 leaves the timer off. -/
theorem countdown (t : WtTimer) (a : Arming) (n : Nat) :
    (2 ≤ (t.armedTotal a).toNat →
      ∃ t', t.after a n = some t' ∧ t'.calls = t.calls ++ callsDue (t.armedTotal a).toNat n ∧
        Rounds t t') ∧
    (t.armedTotal a = 0 →
      ∃ t', t.after a n = some t' ∧ t'.calls = t.calls ∧ t'.usRtor = 0 ∧ t'.counter = none) := by
  rw [after, arm_eq]
  constructor
  · intro two
    obtain ⟨t', armed, start⟩ := countdown_start (t := { t with wt.total := t.armedTotal a })
      (Nat.lt_of_lt_of_le (by decide) two)
    obtain ⟨t'', gone, here⟩ := start.etus two n
    refine ⟨t'', ?_, here.calls, here.rounds⟩
    rw [armed]
    exact gone
  · intro off
    rw [resetWt_off off, Option.bind_some, etus_stopped rfl]
    exact ⟨_, rfl, rfl, rfl, rfl⟩

def offTimer : WtTimer := ⟨⟨0, 0, false⟩, 0, none, [], []⟩

theorem odd_total_counted :
    ∃ t', offTimer.after (.update 5) 5 = some t' ∧ t'.calls = [.halfExpired, .expired] ∧
      Rounds offTimer t' :=
  (countdown offTimer (.update 5) 5).1 (by decide)

end WtTimer

namespace Emu

/-- The calls of the timer on the card. -/
def wtCalls (e : Emu) (calls : List WtCall) : Emu :=
  calls.foldl (fun e call => if call = .halfExpired then e.cardEmuWtimeHalfExpired
    else e.cardEmuWtimeExpired) e

/-- A card that is to send its ATR does nothing until the time is over, and then begins. -/
theorem wtCalls_waitAtr {e : Emu} (st : e.ch.state = .waitAtr) (total n : Nat) :
    e.wtCalls (callsDue total n) = if total ≤ n then e.cardSetState .inAtr else e := by
  have half : e.cardEmuWtimeHalfExpired = e := by
    rw [cardEmuWtimeHalfExpired, st]
  have ended : e.cardEmuWtimeExpired = e.cardSetState .inAtr := by
    rw [cardEmuWtimeExpired, st]
  unfold callsDue
  split_ifs with early late late
  · simp [wtCalls, half, ended]
  · simp [wtCalls, half]
  · omega
  · rfl

end Emu
end Simtrace2
