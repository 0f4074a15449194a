import Simtrace2.Lib.Agenda

/-! The timers of `timer.c`, which run on the millisecond counter `jiffies`: a tree in the order
of the times they expire at. `ι` names the timers. -/
namespace Simtrace2
open Lib

/-- A timer that is active. -/
structure Running (ι : Type) where
  timer : ι
  expires : UInt32
deriving DecidableEq, Repr

/-- The ticks since power-up, `timer_root` as `rb_next` goes through it, and the timers that
`osmo_timers_update` has still to call. -/
structure Timers (ι : Type) where
  uptime : Nat
  root : List (Running ι)
  evicted : List ι

/-- What an owner of timers does with them; the counter goes on meanwhile. -/
inductive TimerCall (ι : Type) where
  | schedule (timer : ι) (seconds microseconds : Nat)
  | del (timer : ι)
  | sysTick (ticks : Nat)
deriving DecidableEq, Repr

namespace Timers
variable {ι : Type} [DecidableEq ι]

def jiffies (t : Timers ι) : UInt32 := t.uptime.toUInt32

def sysTick (t : Timers ι) (ticks : Nat) : Timers ι := { t with uptime := t.uptime + ticks }

/-- `timercmp` compares the counters as they are. -/
def time (r : Running ι) : Nat := r.expires.toNat

def osmoTimerPending (t : Timers ι) (timer : ι) : Bool := t.root.any (·.timer == timer)

def addTimer (t : Timers ι) (r : Running ι) : Timers ι := { t with root := enter time r t.root }

def osmoTimerDel (t : Timers ι) (timer : ι) : Timers ι :=
  if t.osmoTimerPending timer then
    { t with root := t.root.filter (·.timer != timer), evicted := t.evicted.filter (· != timer) }
  else t

def osmoTimerAdd (t : Timers ι) (r : Running ι) : Timers ι := (t.osmoTimerDel r.timer).addTimer r

def osmoTimerSchedule (t : Timers ι) (timer : ι) (seconds microseconds : Nat) : Timers ι :=
  t.osmoTimerAdd ⟨timer, (seconds * 1000 + microseconds / 1000).toUInt32 + t.jiffies⟩

variable {σ : Type}

/-- The loop over the eviction list, which starts again after each call. -/
def callEvicted (cb : ι → Timers ι × σ → Timers ι × σ) : Nat → Timers ι × σ → Timers ι × σ
  | 0, s => s
  | n + 1, s =>
    match s.1.evicted with
    | [] => s
    | this :: _ => callEvicted cb n (cb this (s.1.osmoTimerDel this, s.2))

/-- The scan puts each timer in front of the list. -/
def evict (t : Timers ι) : Timers ι :=
  { t with evicted := ((due time t.jiffies.toNat t.root).map (·.timer)).reverse }

/-- With `work`; one round of the loop for each timer evicted is enough (`callEvicted_done`). -/
def osmoTimersUpdate (cb : ι → Timers ι × σ → Timers ι × σ) (s : Timers ι × σ) :
    Bool × (Timers ι × σ) :=
  let t := s.1.evict
  (t.evicted != [], callEvicted cb t.evicted.length (t, s.2))

/-! ### What the calls do to one timer -/

/-- The times that a timer is in the tree with. -/
def timesOf (t : Timers ι) (timer : ι) : List UInt32 :=
  (t.root.filter (·.timer == timer)).map (·.expires)

/-- The tree is in order, and what is to be called is in it. -/
structure Sound (t : Timers ι) : Prop where
  order : Chronological time t.root
  live : ∀ timer ∈ t.evicted, t.osmoTimerPending timer = true

theorem pending_iff (t : Timers ι) (timer : ι) :
    t.osmoTimerPending timer = true ↔ t.timesOf timer ≠ [] := by
  simp [osmoTimerPending, timesOf]

theorem osmoTimerDel_self (t : Timers ι) (timer : ι) : (t.osmoTimerDel timer).timesOf timer = [] := by
  unfold osmoTimerDel
  split
  · simp [timesOf]
  · rename_i idle
    rw [pending_iff, not_not] at idle
    exact idle

theorem osmoTimerDel_other (t : Timers ι) {timer other : ι} (ne : other ≠ timer) :
    (t.osmoTimerDel timer).timesOf other = t.timesOf other := by
  unfold osmoTimerDel
  split
  · have both (r : Running ι) : (r.timer == other && r.timer != timer) = (r.timer == other) := by
      by_cases same : r.timer = other
      · simp [same, ne]
      · simp [same]
    simp only [timesOf, List.filter_filter, both]
  · rfl

theorem osmoTimerDel_evicted {t : Timers ι} (h : t.Sound) (timer : ι) :
    (t.osmoTimerDel timer).evicted = t.evicted.filter (· != timer) := by
  unfold osmoTimerDel
  split
  · rfl
  · rename_i idle
    refine (List.filter_eq_self.mpr ?_).symm
    intro other mem
    by_cases same : other = timer
    · exact absurd (h.live timer (same ▸ mem)) idle
    · simpa using same

theorem osmoTimerDel_uptime (t : Timers ι) (timer : ι) :
    (t.osmoTimerDel timer).uptime = t.uptime := by
  unfold osmoTimerDel
  split <;> rfl

namespace Sound
variable {t : Timers ι}

theorem del (h : t.Sound) (timer : ι) : (t.osmoTimerDel timer).Sound where
  order := by
    unfold osmoTimerDel
    split
    · exact h.order.filter
    · exact h.order
  live := by
    intro other mem
    rw [osmoTimerDel_evicted h, List.mem_filter] at mem
    obtain ⟨mem, ne⟩ := mem
    rw [pending_iff, osmoTimerDel_other t (by simpa using ne), ← pending_iff]
    exact h.live other mem

theorem add (h : t.Sound) (r : Running ι) : (t.addTimer r).Sound where
  order := h.order.enter
  live := by
    intro other mem
    obtain ⟨found, there, same⟩ := List.any_eq_true.mp (h.live other mem)
    exact List.any_eq_true.mpr ⟨found, mem_enter.mpr (Or.inr there), same⟩

theorem schedule (h : t.Sound) (timer : ι) (seconds microseconds : Nat) :
    (t.osmoTimerSchedule timer seconds microseconds).Sound := (h.del timer).add _

end Sound

theorem addTimer_other (t : Timers ι) {r : Running ι} {other : ι} (ne : other ≠ r.timer) :
    (t.addTimer r).timesOf other = t.timesOf other := by
  simp only [timesOf, addTimer]
  rw [filter_enter]
  simpa using Ne.symm ne

theorem addTimer_self {t : Timers ι} {r : Running ι} (idle : t.timesOf r.timer = []) :
    (t.addTimer r).timesOf r.timer = [r.expires] := by
  have none : ∀ other ∈ t.root, other.timer ≠ r.timer := by
    simpa [timesOf] using idle
  simp only [timesOf, addTimer]
  rw [filter_enter_only (by simp) (fun other mem => by simpa using none other mem)]
  rfl

theorem osmoTimerSchedule_self (t : Timers ι) (timer : ι) (seconds microseconds : Nat) :
    (t.osmoTimerSchedule timer seconds microseconds).timesOf timer =
      [(seconds * 1000 + microseconds / 1000).toUInt32 + t.jiffies] :=
  addTimer_self (r := ⟨timer, _⟩) (osmoTimerDel_self t timer)

theorem osmoTimerSchedule_other (t : Timers ι) {timer other : ι} (ne : other ≠ timer)
    (seconds microseconds : Nat) :
    (t.osmoTimerSchedule timer seconds microseconds).timesOf other = t.timesOf other :=
  (addTimer_other _ (r := ⟨timer, _⟩) ne).trans (osmoTimerDel_other t ne)

theorem osmoTimerSchedule_evicted {t : Timers ι} (h : t.Sound) (timer : ι)
    (seconds microseconds : Nat) :
    (t.osmoTimerSchedule timer seconds microseconds).evicted = t.evicted.filter (· != timer) :=
  osmoTimerDel_evicted h timer

/-! ### The loop over the eviction list -/

theorem Sound.evict {t : Timers ι} (h : t.Sound) : t.evict.Sound where
  order := h.order
  live := by
    intro timer mem
    obtain ⟨r, found, rfl⟩ := List.mem_map.mp (List.mem_reverse.mp mem)
    exact List.any_eq_true.mpr ⟨r, (h.order.mem_due.mp found).1, by simp⟩

/-- A timer is evicted when the counter has come to its time, as unsigned numbers. -/
theorem mem_evict {t : Timers ι} (h : t.Sound) (timer : ι) :
    timer ∈ t.evict.evicted ↔ ∃ expires ∈ t.timesOf timer, expires.toNat ≤ t.jiffies.toNat := by
  simp only [Timers.evict, List.mem_reverse, List.mem_map, h.order.mem_due, timesOf, List.mem_filter,
    beq_iff_eq]
  constructor
  · rintro ⟨r, ⟨mem, le⟩, same⟩
    exact ⟨r.expires, ⟨r, ⟨mem, same⟩, rfl⟩, le⟩
  · rintro ⟨_, ⟨r, ⟨mem, same⟩, rfl⟩, le⟩
    exact ⟨r, ⟨mem, le⟩, same⟩

/-- What each call keeps, the loop keeps. -/
theorem callEvicted_keeps {cb : ι → Timers ι × σ → Timers ι × σ} (Inv : Timers ι × σ → Prop)
    (keep : ∀ this s, Inv s → this ∈ s.1.evicted → Inv (cb this (s.1.osmoTimerDel this, s.2)))
    (n : Nat) {s : Timers ι × σ} (start : Inv s) : Inv (callEvicted cb n s) := by
  induction n generalizing s with
  | zero => exact start
  | succ n ih =>
    unfold callEvicted
    split
    · exact start
    · rename_i this rest there
      apply ih
      exact keep this s start (by rw [there]; exact List.mem_cons_self)

/-- The loop comes to its end where no call puts timers on the list. -/
theorem callEvicted_done {cb : ι → Timers ι × σ → Timers ι × σ}
    (keep : ∀ this s, s.1.Sound →
      (cb this s).1.Sound ∧ (cb this s).1.evicted.length ≤ s.1.evicted.length)
    (n : Nat) {s : Timers ι × σ} (sound : s.1.Sound) (enough : s.1.evicted.length ≤ n) :
    (callEvicted cb n s).1.evicted = [] := by
  induction n generalizing s with
  | zero => exact List.eq_nil_of_length_eq_zero (Nat.le_zero.mp enough)
  | succ n ih =>
    unfold callEvicted
    split
    · assumption
    · rename_i this rest there
      obtain ⟨sound', shorter⟩ := keep this (s.1.osmoTimerDel this, s.2) (sound.del this)
      apply ih sound'
      have dropped : (s.1.osmoTimerDel this).evicted.length ≤ rest.length := by
        rw [osmoTimerDel_evicted sound, there, List.filter_cons_of_neg (by simp)]
        exact List.length_filter_le _ _
      rw [there, List.length_cons] at enough
      exact Nat.le_trans shorter (Nat.le_trans dropped (Nat.le_of_succ_le_succ enough))

end Timers
end Simtrace2
