import Mathlib.Data.Fintype.Card
import Simtrace2.Rbtree.Erase
import Simtrace2.Timers.Timer

/-! The timers of `timer.c` in the memory: the tree of `rbtree.c` with `timer_root` at its top and
what each `struct osmo_timer_list` holds besides its node. It refines the timers in a list. -/
namespace Simtrace2
open Lib

structure TimerTree (ι : Type) where
  uptime : Nat
  root : Heap ι
  timeout : ι → UInt32
  active : ι → Bool
  evicted : List ι

namespace TimerTree
variable {ι σ : Type} [DecidableEq ι]

def jiffies (w : TimerTree ι) : UInt32 := w.uptime.toUInt32

/-- The way down in `__add_timer`: `new` is a pointer on side `s` of `parent`. -/
def descend (w : TimerTree ι) (timer : ι) :
    Nat → Option ι → Option ι → Side → Option (Option ι × Side)
  | 0, _, _, _ => none
  | _ + 1, none, parent, s => some (parent, s)
  | fuel + 1, some this, _, _ =>
    if w.timeout timer < w.timeout this then
      descend w timer fuel (w.root.mem this).left (some this) .left
    else descend w timer fuel (w.root.mem this).right (some this) .right

def addTimer (fuel : Nat) (w : TimerTree ι) (timer : ι) : Option (TimerTree ι) := do
  let (parent, s) ← w.descend timer fuel w.root.root none .left
  let root ← Rbtree.insertColor fuel (Rbtree.linkNode w.root timer parent s) timer
  return { w with root }

def osmoTimerDel (fuel : Nat) (w : TimerTree ι) (timer : ι) : Option (TimerTree ι) :=
  if w.active timer then do
    let root ← Rbtree.erase fuel w.root timer
    return { w with
      root
      active := Function.update w.active timer false
      evicted := w.evicted.filter (· != timer) }
  else some w

def osmoTimerAdd (fuel : Nat) (w : TimerTree ι) (timer : ι) : Option (TimerTree ι) := do
  let w ← w.osmoTimerDel fuel timer
  addTimer fuel { w with active := Function.update w.active timer true } timer

/-- The time is written while the timer may still be in the tree. -/
def osmoTimerSchedule (fuel : Nat) (w : TimerTree ι) (timer : ι) (seconds microseconds : Nat) :
    Option (TimerTree ι) :=
  let expires := (seconds * 1000 + microseconds / 1000).toUInt32 + w.jiffies
  osmoTimerAdd fuel { w with timeout := Function.update w.timeout timer expires } timer

def perform (fuel : Nat) (w : TimerTree ι) : TimerCall ι → Option (TimerTree ι)
  | .schedule timer seconds microseconds => w.osmoTimerSchedule fuel timer seconds microseconds
  | .del timer => w.osmoTimerDel fuel timer
  | .sysTick ticks => some { w with uptime := w.uptime + ticks }

def performs (fuel : Nat) (w : TimerTree ι) (calls : List (TimerCall ι)) : Option (TimerTree ι) :=
  calls.foldlM (perform fuel) w

/-- The scan of `osmo_timers_update` from `node` on, up to the first timer later than `now`. -/
def scanDue (fuel : Nat) (w : TimerTree ι) (now : UInt32) : Nat → Option ι → Option (List ι)
  | 0, _ => none
  | _ + 1, none => some []
  | turns + 1, some this =>
    if w.timeout this > now then some []
    else do
      let after ← Rbtree.next fuel w.root this
      let rest ← scanDue fuel w now turns after
      return this :: rest

def evict (fuel turns : Nat) (w : TimerTree ι) : Option (TimerTree ι) := do
  let found ← w.scanDue fuel w.jiffies turns (← Rbtree.first fuel w.root)
  return { w with evicted := found.reverse }

/-- The loop over the eviction list; a callback goes by `σ` and works on timers. -/
def callEvicted (cb : ι → σ → List (TimerCall ι) × σ) (fuel : Nat) :
    Nat → TimerTree ι × σ → Option (TimerTree ι × σ)
  | 0, s => some s
  | n + 1, s =>
    match s.1.evicted with
    | [] => some s
    | this :: _ => do
      let w ← s.1.osmoTimerDel fuel this
      let (calls, state) := cb this s.2
      let w ← w.performs fuel calls
      callEvicted cb fuel n (w, state)

def osmoTimersUpdate (cb : ι → σ → List (TimerCall ι) × σ) (fuel turns : Nat) (s : TimerTree ι × σ) :
    Option (TimerTree ι × σ) := do
  let w ← s.1.evict fuel turns
  callEvicted cb fuel w.evicted.length (w, s.2)

/-- No timer is active yet, and the memory is as it happens to be. -/
def start (mem : ι → Cell ι) (timeout : ι → UInt32) : TimerTree ι where
  uptime := 0
  root := ⟨mem, none⟩
  timeout
  active := fun _ => false
  evicted := []

end TimerTree

namespace Timers
variable {ι σ : Type} [DecidableEq ι]

def perform (t : Timers ι) : TimerCall ι → Timers ι
  | .schedule timer seconds microseconds => t.osmoTimerSchedule timer seconds microseconds
  | .del timer => t.osmoTimerDel timer
  | .sysTick ticks => t.sysTick ticks

def performs (t : Timers ι) (calls : List (TimerCall ι)) : Timers ι := calls.foldl perform t

/-- A callback that goes by `σ` alone. -/
def calling (cb : ι → σ → List (TimerCall ι) × σ) (this : ι) (s : Timers ι × σ) : Timers ι × σ :=
  let (calls, state) := cb this s.2
  (s.1.performs calls, state)

/-- No call puts a timer on the eviction list. -/
theorem Sound.perform {t : Timers ι} (h : t.Sound) (call : TimerCall ι) :
    (t.perform call).Sound ∧ (t.perform call).evicted.length ≤ t.evicted.length := by
  cases call with
  | schedule timer seconds microseconds =>
    refine ⟨h.schedule timer seconds microseconds, ?_⟩
    rw [Timers.perform, osmoTimerSchedule_evicted h]
    exact List.length_filter_le _ _
  | del timer =>
    refine ⟨h.del timer, ?_⟩
    rw [Timers.perform, osmoTimerDel_evicted h]
    exact List.length_filter_le _ _
  | sysTick ticks => exact ⟨⟨h.order, h.live⟩, Nat.le_refl _⟩

theorem Sound.performs {t : Timers ι} (h : t.Sound) (calls : List (TimerCall ι)) :
    (t.performs calls).Sound ∧ (t.performs calls).evicted.length ≤ t.evicted.length := by
  induction calls generalizing t with
  | nil => exact ⟨h, Nat.le_refl _⟩
  | cons call calls ih =>
    obtain ⟨sound, shorter⟩ := h.perform call
    obtain ⟨sound', shorter'⟩ := ih sound
    exact ⟨sound', shorter'.trans shorter⟩

theorem Sound.update {t : Timers ι} (h : t.Sound) (cb : ι → σ → List (TimerCall ι) × σ) (state : σ) :
    (osmoTimersUpdate (calling cb) (t, state)).2.1.evicted = [] :=
  callEvicted_done (fun this s sound => sound.performs (cb this s.2).1) _ h.evict (Nat.le_refl _)

end Timers

namespace TimerTree
variable {ι σ : Type} [DecidableEq ι]

/-- What happens to the timers: a call of their owners, or a round of the main loop. -/
inductive Input (ι : Type) where
  | call (c : TimerCall ι)
  | update

/-- With `fuel` rounds for each loop in the tree and `turns` for the scan. -/
def step (cb : ι → σ → List (TimerCall ι) × σ) (fuel turns : Nat) (s : TimerTree ι × σ) :
    Input ι → Option (TimerTree ι × σ)
  | .call c => do
    let w ← s.1.perform fuel c
    return (w, s.2)
  | .update => osmoTimersUpdate cb fuel turns s

/-- The same on the list. -/
def listStep (cb : ι → σ → List (TimerCall ι) × σ) (s : Timers ι × σ) : Input ι → Timers ι × σ
  | .call c => (s.1.perform c, s.2)
  | .update => (Timers.osmoTimersUpdate (Timers.calling cb) s).2

/-- Between the rounds of the main loop the eviction list is empty. -/
theorem listStep_idle (cb : ι → σ → List (TimerCall ι) × σ) {t : Timers ι} (sound : t.Sound)
    (idle : t.evicted = []) (state : σ) (input : Input ι) :
    (listStep cb (t, state) input).1.evicted = [] := by
  cases input with
  | call c =>
    have shorter := (sound.perform c).2
    rw [idle] at shorter
    exact List.eq_nil_of_length_eq_zero (Nat.le_zero.mp shorter)
  | update => exact sound.update cb state

/-! ### The way down -/

/-- On the way down `x` has only what is not later before it, and what is later next behind it. -/
structure Between (time : ι → Nat) (x : ι) (p : List (Frame ι)) : Prop where
  before : ∀ z ∈ Frame.before p, ¬time x < time z
  behind : ∀ y ∈ (Frame.behind p).head?, time x < time y

omit [DecidableEq ι] in
theorem Between.enter {time : ι → Nat} {x : ι} {p : List (Frame ι)} (h : Between time x p) :
    Lib.enter time x (Frame.plug p .nil).inorder =
      (Frame.plug p (.node .red .nil x .nil)).inorder := by
  rw [Frame.inorder_plug, Frame.inorder_plug]
  simp only [RbTree.inorder, List.append_nil, List.nil_append]
  rw [enter_behind h.before]
  cases later : Frame.behind p with
  | nil => simp [Lib.enter]
  | cons y ys =>
    have := h.behind y (by rw [later]; rfl)
    simp [Lib.enter, this]

/-- The times of the timers as numbers. -/
def time (w : TimerTree ι) (timer : ι) : Nat := (w.timeout timer).toNat

omit [DecidableEq ι] in
theorem descend_linked {w : TimerTree ι} {base : ι → Cell ι} {p : List (Frame ι)} {t : RbTree ι}
    {x : ι} {s : Side} (L : Linked base w.root (Frame.plug p t))
    (order : Chronological w.time (Frame.plug p t).inorder) (between : Between w.time x p)
    (side : ∀ f ∈ p.head?, f.side = s) :
    ∃ p' s', Frame.plug p' .nil = Frame.plug p t ∧ Between w.time x p' ∧
      (∀ f ∈ p'.head?, f.side = s') ∧ p.length ≤ p'.length ∧
      ∀ fuel, p'.length < p.length + fuel →
        w.descend x fuel t.top (Frame.above p) s = some (Frame.above p', s') := by
  induction t generalizing p s with
  | nil =>
    refine ⟨p, s, rfl, between, side, Nat.le_refl _, fun fuel rounds => ?_⟩
    obtain ⟨fuel, rfl⟩ := Nat.exists_eq_succ_of_ne_zero (n := fuel) (by omega)
    rfl
  | node c l y r ihl ihr =>
    have cell : w.root.mem y = ⟨Frame.above p, c, r.top, l.top⟩ := L.inside.1
    by_cases earlier : w.timeout x < w.timeout y
    · have between' : Between w.time x (⟨.left, c, y, r⟩ :: p) :=
        ⟨between.before, fun z head => by
          obtain rfl : y = z := Option.some.inj head
          exact earlier⟩
      obtain ⟨p', s', whole, found, side', deeper, run⟩ := ihl (p := ⟨.left, c, y, r⟩ :: p) (s := .left)
        L order between' (fun f head => by rw [← Option.some.inj head])
      rw [List.length_cons] at deeper run
      refine ⟨p', s', whole, found, side', by omega, fun fuel rounds => ?_⟩
      obtain ⟨fuel, rfl⟩ := Nat.exists_eq_succ_of_ne_zero (n := fuel) (by omega)
      rw [RbTree.top, descend, if_pos earlier, cell]
      exact run fuel (by omega)
    · have notLater : w.time y ≤ w.time x := Nat.le_of_not_lt earlier
      have between' : Between w.time x (⟨.right, c, y, l⟩ :: p) := by
        refine ⟨fun z mem => ?_, between.behind⟩
        rw [Frame.inorder_plug, List.append_assoc] at order
        obtain ⟨-, here, -⟩ := List.pairwise_append.mp order
        obtain ⟨here, -, -⟩ := List.pairwise_append.mp here
        obtain ⟨-, -, left⟩ := List.pairwise_append.mp here
        simp only [Frame.before, List.mem_append, List.mem_singleton] at mem
        rcases mem with before | inL | rfl
        · exact between.before z before
        · exact Nat.not_lt.mpr (Nat.le_trans (left z inL y List.mem_cons_self) notLater)
        · exact Nat.not_lt.mpr notLater
      obtain ⟨p', s', whole, found, side', deeper, run⟩ :=
        ihr (p := ⟨.right, c, y, l⟩ :: p) (s := .right)
          L order between' (fun f head => by rw [← Option.some.inj head])
      rw [List.length_cons] at deeper run
      refine ⟨p', s', whole, found, side', by omega, fun fuel rounds => ?_⟩
      obtain ⟨fuel, rfl⟩ := Nat.exists_eq_succ_of_ne_zero (n := fuel) (by omega)
      rw [RbTree.top, descend, if_neg earlier, cell]
      exact run fuel (by omega)

/-! ### Each call on the tree -/

/-- The tree that the memory holds. -/
structure Shows (w : TimerTree ι) (T : RbTree ι) : Prop where
  linked : ∃ base, Linked base w.root T
  redBlack : T.RedBlack
  active : ∀ timer, w.active timer = true ↔ timer ∈ T.inorder

theorem addTimer_shows {w : TimerTree ι} {T : RbTree ι} {timer : ι} {fuel : Nat}
    (linked : ∃ base, Linked base w.root T) (redBlack : T.RedBlack)
    (order : Chronological w.time T.inorder) (new : timer ∉ T.inorder)
    (active : ∀ other, w.active other = true ↔ other = timer ∨ other ∈ T.inorder)
    (rounds : T.depth < fuel) :
    ∃ root T', w.addTimer fuel timer = some { w with root } ∧ Shows { w with root } T' ∧
      T'.inorder = enter w.time timer T.inorder := by
  obtain ⟨base, L⟩ := linked
  obtain ⟨p, s, rfl, between, side, -, run⟩ :=
    descend_linked (p := []) (s := .left) L order ⟨by simp [Frame.before], by simp [Frame.behind]⟩
      (by simp)
  have short : p.length < fuel := Nat.lt_of_le_of_lt redBlack.length_le rounds
  have outside : timer ∉ Frame.addresses p := fun mem =>
    new ((Frame.perm_plug p .nil).mem_iff.mpr (List.mem_append_right _ mem))
  obtain ⟨root, T', colored, linked, redBlack', same⟩ :=
    Rbtree.insertColor_rising (Rbtree.linkNode_rising L redBlack outside side) short
  have placed : T'.inorder = enter w.time timer (Frame.plug p .nil).inorder :=
    same.trans between.enter.symm
  have down := run fuel (by simpa using short)
  refine ⟨root, T', ?_, ⟨⟨base, linked⟩, redBlack', fun other => ?_⟩, placed⟩
  · have top : w.root.root = (Frame.plug p .nil).top := L.root
    simp only [addTimer, top, Frame.above_nil] at down ⊢
    simp [down, colored]
  · rw [active, placed, mem_enter]

theorem osmoTimerDel_shows {w : TimerTree ι} {T : RbTree ι} (h : Shows w T) (timer : ι) {fuel : Nat}
    (rounds : T.depth < fuel) :
    ∃ w' T', w.osmoTimerDel fuel timer = some w' ∧ Shows w' T' ∧
      T'.inorder = T.inorder.filter (· != timer) ∧ w'.uptime = w.uptime ∧ w'.timeout = w.timeout ∧
      w'.evicted = if timer ∈ T.inorder then w.evicted.filter (· != timer) else w.evicted := by
  obtain ⟨base, L⟩ := h.linked
  by_cases mem : timer ∈ T.inorder
  · obtain ⟨base', root, T', run, -, linked, redBlack, order⟩ :=
      Rbtree.erase_linked L h.redBlack mem rounds
    rw [L.nodup.erase_eq_filter] at order
    refine ⟨{ w with
      root
      active := Function.update w.active timer false
      evicted := w.evicted.filter (· != timer) }, T', ?_, ⟨⟨base', linked⟩, redBlack, ?_⟩, order, rfl,
      rfl, (if_pos mem).symm⟩
    · simp [osmoTimerDel, (h.active timer).mpr mem, run]
    · intro other
      rw [order, List.mem_filter]
      by_cases same : other = timer
      · simp [same]
      · simp [same, h.active]
  · have idle : w.active timer = false := by
      rw [← Bool.not_eq_true, h.active]
      exact mem
    refine ⟨w, T, by simp [osmoTimerDel, idle], h, ?_, rfl, rfl, (if_neg mem).symm⟩
    refine (List.filter_eq_self.mpr fun other inT => ?_).symm
    simpa using fun eq : other = timer => mem (eq ▸ inT)

/-! ### The refinement -/

/-- The list that the tree stands for. -/
def listing (w : TimerTree ι) (T : RbTree ι) : List (Running ι) :=
  T.inorder.map fun timer => ⟨timer, w.timeout timer⟩

structure Refines (w : TimerTree ι) (t : Timers ι) : Prop where
  sound : t.Sound
  tree : ∃ T, Shows w T ∧ t.root = w.listing T
  uptime : t.uptime = w.uptime
  evicted : t.evicted = w.evicted

theorem pending_listing {w : TimerTree ι} {t : Timers ι} {T : RbTree ι} (root : t.root = w.listing T)
    (timer : ι) : t.osmoTimerPending timer = true ↔ timer ∈ T.inorder := by
  simp [Timers.osmoTimerPending, root, listing]

/-- The rounds that are enough for each loop, with the timers of the program. -/
def rounds (ι : Type) [Fintype ι] : Nat := 2 * Nat.log 2 (Fintype.card ι + 1) + 1

variable [Fintype ι] {fuel : Nat} {w : TimerTree ι} {t : Timers ι}

omit [DecidableEq ι] in
theorem Shows.length_le {T : RbTree ι} (h : Shows w T) : T.inorder.length ≤ Fintype.card ι := by
  obtain ⟨_, L⟩ := h.linked
  exact L.nodup.length_le_card

omit [DecidableEq ι] in
theorem Shows.depth_lt {T : RbTree ι} (h : Shows w T) (enough : rounds ι ≤ fuel) : T.depth < fuel := by
  have logs : Nat.log 2 (T.inorder.length + 1) ≤ Nat.log 2 (Fintype.card ι + 1) :=
    Nat.log_mono_right (by have := h.length_le; omega)
  unfold rounds at enough
  unfold RbTree.depth
  omega

/-- A timer's time may have been written before it is deleted. -/
theorem Refines.del (h : Refines w t) (enough : rounds ι ≤ fuel) (timer : ι)
    (timeout : ι → UInt32) (others : ∀ other, other ≠ timer → timeout other = w.timeout other) :
    ∃ w', osmoTimerDel fuel { w with timeout } timer = some w' ∧ w'.timeout = timeout ∧
      w'.active timer = false ∧ Refines w' (t.osmoTimerDel timer) := by
  obtain ⟨T, shown, root⟩ := h.tree
  have shown' : Shows { w with timeout } T := ⟨shown.linked, shown.redBlack, shown.active⟩
  obtain ⟨w', T', run, shows', order, uptime, timeouts, evicted⟩ :=
    osmoTimerDel_shows shown' timer (shown.depth_lt enough)
  have gone : timer ∉ T'.inorder := by simp [order]
  have idle : w'.active timer = false := by
    rw [← Bool.not_eq_true, shows'.active]
    exact gone
  refine ⟨w', run, timeouts, idle, h.sound.del timer, ⟨T', shows', ?_⟩, ?_, ?_⟩
  · have deleted : (t.osmoTimerDel timer).root = t.root.filter (·.timer != timer) := by
      unfold Timers.osmoTimerDel
      split
      · rfl
      · rename_i idle
        refine (List.filter_eq_self.mpr fun r mem => ?_).symm
        simpa using fun eq => idle (List.any_eq_true.mpr ⟨r, mem, by simpa using eq⟩)
    rw [deleted, root, listing, listing, List.filter_map, order, timeouts]
    refine List.map_congr_left fun other mem => ?_
    have ne : other ≠ timer := by simpa using (List.mem_filter.mp mem).2
    simp only [others other ne]
  · rw [Timers.osmoTimerDel_uptime, h.uptime, uptime]
  · rw [evicted]
    unfold Timers.osmoTimerDel
    simp only [pending_listing root timer]
    split <;> simp [h.evicted]

theorem Refines.schedule (h : Refines w t) (enough : rounds ι ≤ fuel) (timer : ι)
    (seconds microseconds : Nat) :
    ∃ w', w.osmoTimerSchedule fuel timer seconds microseconds = some w' ∧
      Refines w' (t.osmoTimerSchedule timer seconds microseconds) := by
  let expires := (seconds * 1000 + microseconds / 1000).toUInt32 + w.jiffies
  obtain ⟨w₁, deleted, timeouts, idle, refines⟩ := h.del enough timer
    (Function.update w.timeout timer expires)
    (fun other ne => Function.update_of_ne ne _ _)
  obtain ⟨T, shown, root⟩ := refines.tree
  have new : timer ∉ T.inorder := by
    rw [← shown.active, idle]
    decide
  let w₂ : TimerTree ι := { w₁ with active := Function.update w₁.active timer true }
  have order : Chronological w₂.time T.inorder := by
    have listed := refines.sound.order
    rw [root] at listed
    unfold Chronological listing at listed
    have timers := List.pairwise_map.mp listed
    exact timers
  have active : ∀ other, w₂.active other = true ↔ other = timer ∨ other ∈ T.inorder := by
    intro other
    by_cases same : other = timer
    · simp [w₂, same]
    · simp [w₂, same, shown.active]
  obtain ⟨root', T', added, shows', placed⟩ :=
    addTimer_shows (w := w₂) shown.linked shown.redBlack order new active (shown.depth_lt enough)
  have jiffies : t.jiffies = w.jiffies := congrArg Nat.toUInt32 h.uptime
  have time : w₁.timeout timer = expires := by simp [timeouts]
  refine ⟨{ w₂ with root := root' }, ?_, h.sound.schedule timer seconds microseconds,
    ⟨T', shows', ?_⟩, refines.uptime, refines.evicted⟩
  · rw [osmoTimerSchedule, osmoTimerAdd, deleted]
    exact added
  · have entered := enter_map Timers.time (fun timer => ⟨timer, w₁.timeout timer⟩) timer T.inorder
    rw [time] at entered
    rw [Timers.osmoTimerSchedule, Timers.osmoTimerAdd, Timers.addTimer, jiffies]
    refine (congrArg (enter Timers.time _) root).trans (entered.trans ?_)
    rw [listing, placed]
    rfl

theorem Refines.perform (h : Refines w t) (enough : rounds ι ≤ fuel) (call : TimerCall ι) :
    ∃ w', w.perform fuel call = some w' ∧ Refines w' (t.perform call) := by
  cases call with
  | schedule timer seconds microseconds => exact h.schedule enough timer seconds microseconds
  | del timer =>
    obtain ⟨w', run, -, -, refines⟩ := h.del enough timer w.timeout fun _ _ => rfl
    exact ⟨w', run, refines⟩
  | sysTick ticks =>
    obtain ⟨T, shown, root⟩ := h.tree
    refine ⟨{ w with uptime := w.uptime + ticks }, rfl, ⟨h.sound.order, h.sound.live⟩,
      ⟨T, ⟨shown.linked, shown.redBlack, shown.active⟩, root⟩, ?_, h.evicted⟩
    exact congrArg (· + ticks) h.uptime

theorem Refines.performs (h : Refines w t) (enough : rounds ι ≤ fuel) (calls : List (TimerCall ι)) :
    ∃ w', w.performs fuel calls = some w' ∧ Refines w' (t.performs calls) := by
  induction calls generalizing w t with
  | nil => exact ⟨w, rfl, h⟩
  | cons call calls ih =>
    obtain ⟨w₁, run, refines⟩ := h.perform enough call
    obtain ⟨w', rest, refines'⟩ := ih refines
    refine ⟨w', ?_, refines'⟩
    rw [TimerTree.performs, List.foldlM_cons, run]
    exact rest

theorem Refines.callEvicted (cb : ι → σ → List (TimerCall ι) × σ) (enough : rounds ι ≤ fuel)
    (n : Nat) (h : Refines w t) (state : σ) :
    ∃ w' state', callEvicted cb fuel n (w, state) = some (w', state') ∧
      ∃ t', Timers.callEvicted (Timers.calling cb) n (t, state) = (t', state') ∧ Refines w' t' := by
  induction n generalizing w t state with
  | zero => exact ⟨w, state, rfl, t, rfl, h⟩
  | succ n ih =>
    cases evicted : w.evicted with
    | nil =>
      refine ⟨w, state, ?_, t, ?_, h⟩
      · simp [TimerTree.callEvicted, evicted]
      · simp [Timers.callEvicted, h.evicted, evicted]
    | cons this rest =>
      obtain ⟨w₁, deleted, -, -, refines⟩ := h.del enough this w.timeout fun _ _ => rfl
      obtain ⟨w₂, called, refines'⟩ := refines.performs enough (cb this state).1
      obtain ⟨w', state', run, t', run', refines''⟩ := ih refines' (cb this state).2
      refine ⟨w', state', ?_, t', ?_, refines''⟩
      · simp only [TimerTree.callEvicted, evicted]
        rw [show w = { w with timeout := w.timeout } from rfl, deleted]
        simp [called, run]
      · simp only [Timers.callEvicted, h.evicted, evicted]
        exact run'

/-- The scan stops where the list in order is no longer due. -/
theorem scanDue_shows {T : RbTree ι} (h : Shows w T) (enough : rounds ι ≤ fuel) (now : UInt32)
    {turns : Nat} (past ahead : List ι) (split : T.inorder = past ++ ahead)
    (more : ahead.length < turns) :
    w.scanDue fuel now turns ahead.head? =
      some (ahead.takeWhile fun timer => decide (w.time timer ≤ now.toNat)) := by
  obtain ⟨_, L⟩ := h.linked
  induction ahead generalizing past turns with
  | nil =>
    obtain ⟨turns, rfl⟩ := Nat.exists_eq_succ_of_ne_zero (Nat.ne_of_gt more)
    rfl
  | cons x ahead ih =>
    obtain ⟨turns, rfl⟩ := Nat.exists_eq_succ_of_ne_zero (Nat.ne_of_gt (Nat.zero_lt_of_lt more))
    have step : Rbtree.next fuel w.root x = some ahead.head? :=
      Rbtree.neighbour_linked .right L h.redBlack (h.depth_lt enough) past ahead split
    have rest := ih (past ++ [x]) (by rw [split]; simp) (Nat.lt_of_succ_lt_succ more)
    by_cases later : w.timeout x > now
    · have late : ¬w.time x ≤ now.toNat := Nat.not_le.mpr later
      simp [scanDue, later, late]
    · have due : w.time x ≤ now.toNat := Nat.le_of_not_lt later
      simp [scanDue, later, step, rest, due]

theorem Refines.evict (h : Refines w t) (enough : rounds ι ≤ fuel) {turns : Nat}
    (more : Fintype.card ι < turns) : ∃ w', w.evict fuel turns = some w' ∧ Refines w' t.evict := by
  obtain ⟨T, shown, root⟩ := h.tree
  obtain ⟨_, L⟩ := shown.linked
  have first : Rbtree.first fuel w.root = some T.inorder.head? :=
    Rbtree.endOf_linked .left L shown.redBlack (shown.depth_lt enough)
  have scan := scanDue_shows shown enough w.jiffies [] T.inorder rfl
    (Nat.lt_of_le_of_lt shown.length_le more)
  have jiffies : t.jiffies = w.jiffies := congrArg Nat.toUInt32 h.uptime
  let found := T.inorder.takeWhile fun timer => decide (w.time timer ≤ w.jiffies.toNat)
  refine ⟨{ w with evicted := found.reverse }, ?_, h.sound.evict,
    ⟨T, ⟨shown.linked, shown.redBlack, shown.active⟩, root⟩, h.uptime, ?_⟩
  · simp [TimerTree.evict, first, scan, found]
  · simp only [Timers.evict, due, root, listing, jiffies, List.takeWhile_map, List.map_map]
    congr 1
    exact List.map_id' _

theorem Refines.update (cb : ι → σ → List (TimerCall ι) × σ) (h : Refines w t)
    (enough : rounds ι ≤ fuel) {turns : Nat} (more : Fintype.card ι < turns) (state : σ) :
    ∃ w' state', osmoTimersUpdate cb fuel turns (w, state) = some (w', state') ∧
      ∃ t', (Timers.osmoTimersUpdate (Timers.calling cb) (t, state)).2 = (t', state') ∧
        Refines w' t' := by
  obtain ⟨w₁, evicted, refines⟩ := h.evict enough more
  obtain ⟨w', state', run, t', run', refines'⟩ :=
    refines.callEvicted cb enough w₁.evicted.length state
  refine ⟨w', state', ?_, t', ?_, refines'⟩
  · simp only [osmoTimersUpdate, evicted, Option.bind_eq_bind, Option.bind_some]
    exact run
  · rw [← refines.evicted] at run'
    exact run'

omit [Fintype ι] in
theorem start_refines (mem : ι → Cell ι) (timeout : ι → UInt32) :
    Refines (start mem timeout) ⟨0, [], []⟩ where
  sound := ⟨List.Pairwise.nil, fun _ mem => nomatch mem⟩
  tree := ⟨.nil, ⟨⟨mem, trivial, rfl, List.nodup_nil, fun _ _ => rfl⟩, RbTree.redBlack_nil,
    fun _ => by simp [start]⟩, rfl⟩
  uptime := rfl
  evicted := rfl

theorem Refines.step (cb : ι → σ → List (TimerCall ι) × σ) (h : Refines w t) (state : σ)
    (input : Input ι) :
    ∃ w' state', step cb (rounds ι) (Fintype.card ι + 1) (w, state) input = some (w', state') ∧
      ∃ t', listStep cb (t, state) input = (t', state') ∧ Refines w' t' := by
  cases input with
  | call c =>
    obtain ⟨w', run, refines⟩ := h.perform (Nat.le_refl _) c
    refine ⟨w', state, ?_, t.perform c, rfl, refines⟩
    simp only [TimerTree.step, run, Option.bind_eq_bind, Option.bind_some]
    rfl
  | update => exact h.update cb (Nat.le_refl _) (Nat.lt_succ_self _) state

/-- With whatever calls and callbacks, the tree in the memory goes with the list: no null pointer is
followed, each loop ends within the rounds that twice the logarithm of the number of timers
allows, and the tree stays a red-black tree that the scans go through in the list's order. A round
of the main loop leaves no timer on the eviction list. -/
theorem run_refines (cb : ι → σ → List (TimerCall ι) × σ) (mem : ι → Cell ι)
    (timeout : ι → UInt32) (state : σ) (inputs : List (Input ι)) :
    ∃ w' state', inputs.foldlM (step cb (rounds ι) (Fintype.card ι + 1)) (start mem timeout, state) =
        some (w', state') ∧
      ∃ t', inputs.foldl (listStep cb) (⟨0, [], []⟩, state) = (t', state') ∧ Refines w' t' ∧
        w'.evicted = [] := by
  have steps : ∀ (inputs : List (Input ι)) (w : TimerTree ι) (t : Timers ι) (state : σ),
      Refines w t → t.evicted = [] →
      ∃ w' state', inputs.foldlM (step cb (rounds ι) (Fintype.card ι + 1)) (w, state) =
          some (w', state') ∧
        ∃ t', inputs.foldl (listStep cb) (t, state) = (t', state') ∧ Refines w' t' ∧
          w'.evicted = [] := by
    intro inputs
    induction inputs with
    | nil => exact fun w t state h idle => ⟨w, state, rfl, t, rfl, h, h.evicted.symm.trans idle⟩
    | cons input inputs ih =>
      intro w t state h idle
      obtain ⟨w₁, state₁, first, t₁, first', refines⟩ := h.step cb state input
      have idle₁ : t₁.evicted = [] := by
        have left := listStep_idle cb h.sound idle state input
        rwa [first'] at left
      obtain ⟨w', state', run, t', run', refines', idle'⟩ := ih w₁ t₁ state₁ refines idle₁
      refine ⟨w', state', ?_, t', ?_, refines', idle'⟩
      · rw [List.foldlM_cons, first]
        exact run
      · rw [List.foldl_cons, first']
        exact run'
  exact steps inputs _ _ state (start_refines mem timeout) rfl

end TimerTree
end Simtrace2
