import Mathlib.Data.List.Count
import Mathlib.Logic.Function.Basic

/-! The slots of a pool and the places that hold them: a slot that is in use is held in
exactly one place. And operations that may end in a failure, some of which are allowed. -/
namespace Simtrace2.Lib

section ledger
variable {α : Type*} [DecidableEq α] {inUse : α → Bool} {held : List α}

/-- Every slot in use is held once, every slot held is in use. -/
def HeldOnce (inUse : α → Bool) (held : List α) : Prop := ∀ x, held.count x = (inUse x).toNat

namespace HeldOnce

theorem congr (h : HeldOnce inUse held) {held' : List α}
    (same : ∀ x, held'.count x = held.count x) : HeldOnce inUse held' :=
  fun x => (same x).trans (h x)

theorem mem_iff (h : HeldOnce inUse held) (x : α) : x ∈ held ↔ inUse x = true := by
  rw [← List.count_pos_iff, h x]
  cases inUse x <;> simp

theorem take {x : α} (h : HeldOnce inUse held) (free : inUse x = false) :
    HeldOnce (Function.update inUse x true) (x :: held) := by
  intro y
  by_cases same : y = x
  · subst same
    simp [h y, free]
  · simp [h y, same, Ne.symm same]

theorem give {x : α} (h : HeldOnce inUse (x :: held)) :
    inUse x = true ∧ HeldOnce (Function.update inUse x false) held := by
  have used : inUse x = true := (h.mem_iff x).mp List.mem_cons_self
  refine ⟨used, fun y => ?_⟩
  have count := h y
  by_cases same : y = x
  · subst same
    simpa [used] using count
  · simpa [same, Ne.symm same] using count

end HeldOnce
end ledger

section outcome
universe u v
variable {ε : Type u} {α β : Type v} {allowed : ε → Prop} {P : α → Prop} {Q : β → Prop}

/-- The operation keeps `P` where it ends well, and fails in an allowed way only. -/
def Safely (allowed : ε → Prop) (P : α → Prop) : Except ε α → Prop
  | .ok a => P a
  | .error e => allowed e

namespace Safely

theorem bind {m : Except ε α} (h : Safely allowed P m) {f : α → Except ε β}
    (next : ∀ a, P a → Safely allowed Q (f a)) : Safely allowed Q (m >>= f) := by
  cases m with
  | ok a => exact next a h
  | error e => exact h

theorem map {m : Except ε α} (h : Safely allowed P m) {f : α → β} (next : ∀ a, P a → Q (f a)) :
    Safely allowed Q (m.map f) := by
  cases m with
  | ok a => exact next a h
  | error e => exact h

theorem weaken {P' : α → Prop} {m : Except ε α} (h : Safely allowed P m)
    (weaker : ∀ a, P a → P' a) : Safely allowed P' m := by
  cases m with
  | ok a => exact weaker a h
  | error e => exact h

end Safely
end outcome

end Simtrace2.Lib
