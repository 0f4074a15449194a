import Simtrace2.Lib.Run

/-! Progress of a machine that is driven by inputs of several kinds. In each state that
is not final some kind of input is awaited; such an input brings the machine on, and
every other one either does so too or leaves it waiting for what it waited for. -/
namespace Simtrace2.Lib

variable {S I K : Type*} {step : S → I → S} {cond : S → I → Prop} {kind : I → K → Prop}
  {Inv : Nat → S → Prop} {awaits : S → K → Prop}

/-- The inputs contain `n` rounds, in each of which every kind occurs. -/
inductive Rounds (kind : I → K → Prop) : Nat → List I → Prop
  | zero (is : List I) : Rounds kind 0 is
  | succ {n : Nat} {round rest : List I} (every : ∀ k, ∃ i ∈ round, kind i k)
      (behind : Rounds kind n rest) : Rounds kind (n + 1) (round ++ rest)

/-- `Inv n` holds where the machine has to be brought on at most `n` times more. -/
structure Progress (step : S → I → S) (cond : S → I → Prop) (kind : I → K → Prop)
    (Inv : Nat → S → Prop) (awaits : S → K → Prop) : Prop where
  step : ∀ {n s i}, Inv n s → cond s i →
    (∃ m < n, Inv m (step s i)) ∨
      Inv n (step s i) ∧ ∀ k, awaits s k → ¬ kind i k ∧ awaits (step s i) k
  live : ∀ {n s}, Inv n s → n ≠ 0 → ∃ k, awaits s k

namespace Progress

theorem keeps (h : Progress step cond kind Inv awaits) {n : Nat} {s : S} (inv : Inv n s)
    {is : List I} (meets : Meets step cond s is) : ∃ m ≤ n, Inv m (run step s is) := by
  refine run_keeps (fun s => ∃ m ≤ n, Inv m s) ?_ ⟨n, Nat.le_refl n, inv⟩ meets
  rintro s i ⟨m, less, inv⟩ met
  obtain ⟨m', less', next⟩ | ⟨next, _⟩ := h.step inv met
  · exact ⟨m', less'.le.trans less, next⟩
  · exact ⟨m, less, next⟩

theorem moves (h : Progress step cond kind Inv awaits) {n : Nat} {s : S} (inv : Inv n s) {k : K}
    (waiting : awaits s k) {is : List I} (meets : Meets step cond s is)
    (comes : ∃ i ∈ is, kind i k) : ∃ m < n, Inv m (run step s is) := by
  induction is generalizing s with
  | nil =>
    obtain ⟨i, hi, _⟩ := comes
    cases hi
  | cons i is ih =>
    obtain ⟨m, less, next⟩ | ⟨next, still⟩ := h.step inv meets.1
    · obtain ⟨m', less', last⟩ := h.keeps next meets.2
      exact ⟨m', less'.trans_lt less, last⟩
    · obtain ⟨other, waiting'⟩ := still k waiting
      obtain ⟨j, hj, here⟩ := comes
      obtain rfl | later := List.mem_cons.mp hj
      · exact absurd here other
      · exact ih next waiting' meets.2 ⟨j, later, here⟩

/-- After `r` rounds at most `n - r` more are needed. -/
theorem rounds (h : Progress step cond kind Inv awaits) {r : Nat} {is : List I}
    (rounds : Rounds kind r is) {n : Nat} {s : S} (inv : Inv n s) (meets : Meets step cond s is) :
    ∃ m ≤ n - r, Inv m (run step s is) := by
  induction rounds generalizing n s with
  | zero is => exact h.keeps inv meets
  | @succ r round rest every behind ih =>
    obtain ⟨now, later⟩ := (meets_append s round rest).mp meets
    rw [run_append]
    have round' : ∃ m ≤ n - 1, Inv m (run step s round) := by
      by_cases final : n = 0
      · obtain ⟨m, less, next⟩ := h.keeps inv now
        exact ⟨m, by omega, next⟩
      · obtain ⟨k, waiting⟩ := h.live inv final
        obtain ⟨m, less, next⟩ := h.moves inv waiting now (every k)
        exact ⟨m, by omega, next⟩
    obtain ⟨m, less, next⟩ := round'
    obtain ⟨m', less', last⟩ := ih next later
    exact ⟨m', by omega, last⟩

end Progress
end Simtrace2.Lib
