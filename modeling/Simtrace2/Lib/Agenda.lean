import Mathlib.Data.List.Basic
import Mathlib.Data.List.TakeDrop

/-! Lists in the order of time, with equal times in the order of entry. The items are of an
arbitrary type. -/
namespace Simtrace2.Lib

variable {α : Type*} (time : α → Nat)

def Chronological (xs : List α) : Prop := xs.Pairwise fun x y => time x ≤ time y

/-- `x` goes behind all that is not later. -/
def enter (x : α) : List α → List α
  | [] => [x]
  | y :: ys => if time x < time y then x :: y :: ys else y :: enter x ys

/-- What a scan finds that ends at the first item later than `now`. -/
def due (now : Nat) (xs : List α) : List α := xs.takeWhile fun x => decide (time x ≤ now)

variable {time}

theorem mem_enter {x y : α} {xs : List α} : y ∈ enter time x xs ↔ y = x ∨ y ∈ xs := by
  induction xs with
  | nil => simp [enter]
  | cons z zs ih =>
    simp only [enter]
    split
    · simp
    · rw [List.mem_cons, ih, List.mem_cons]
      exact or_left_comm

theorem filter_enter {p : α → Bool} {x : α} {xs : List α} (out : p x = false) :
    (enter time x xs).filter p = xs.filter p := by
  induction xs with
  | nil => simp [enter, out]
  | cons z zs ih =>
    simp only [enter]
    split
    · simp [out]
    · simp only [List.filter_cons, ih]

theorem filter_enter_only {p : α → Bool} {x : α} {xs : List α} (passes : p x = true)
    (out : ∀ y ∈ xs, p y = false) : (enter time x xs).filter p = [x] := by
  induction xs with
  | nil => simp [enter, passes]
  | cons z zs ih =>
    have others : ∀ y ∈ zs, p y = false := fun y mem => out y (by simp [mem])
    have first : p z = false := out z (by simp)
    simp only [enter]
    split
    · simpa [passes, first] using others
    · rw [List.filter_cons_of_neg (by simp [first]), ih others]

variable (time) in
theorem enter_map {β : Type*} (f : β → α) (x : β) (xs : List β) :
    enter time (f x) (xs.map f) = (enter (fun y => time (f y)) x xs).map f := by
  induction xs with
  | nil => rfl
  | cons y ys ih =>
    simp only [List.map_cons, enter]
    split
    · rfl
    · rw [ih, List.map_cons]

theorem Chronological.enter {x : α} {xs : List α} (h : Chronological time xs) :
    Chronological time (enter time x xs) := by
  induction xs with
  | nil => exact List.pairwise_singleton _ _
  | cons y ys ih =>
    obtain ⟨first, rest⟩ := List.pairwise_cons.mp h
    simp only [Lib.enter]
    split
    · rename_i earlier
      refine List.pairwise_cons.mpr ⟨?_, h⟩
      intro z mem
      rcases List.mem_cons.mp mem with rfl | later
      · exact Nat.le_of_lt earlier
      · exact Nat.le_trans (Nat.le_of_lt earlier) (first z later)
    · rename_i notEarlier
      refine List.pairwise_cons.mpr ⟨?_, ih rest⟩
      intro z mem
      rcases mem_enter.mp mem with rfl | later
      · exact Nat.le_of_not_lt notEarlier
      · exact first z later

theorem Chronological.filter {p : α → Bool} {xs : List α} (h : Chronological time xs) :
    Chronological time (xs.filter p) := List.Pairwise.filter p h

/-- In a list in order the scan finds all that is due. -/
theorem Chronological.mem_due {x : α} {xs : List α} (h : Chronological time xs) {now : Nat} :
    x ∈ due time now xs ↔ x ∈ xs ∧ time x ≤ now := by
  induction xs with
  | nil => simp [due]
  | cons y ys ih =>
    obtain ⟨first, rest⟩ := List.pairwise_cons.mp h
    by_cases early : time y ≤ now
    · have scan : due time now (y :: ys) = y :: due time now ys :=
        List.takeWhile_cons_of_pos (by simpa using early)
      rw [scan, List.mem_cons, List.mem_cons, ih rest]
      constructor
      · rintro (rfl | ⟨mem, le⟩)
        · exact ⟨Or.inl rfl, early⟩
        · exact ⟨Or.inr mem, le⟩
      · rintro ⟨rfl | mem, le⟩
        · exact Or.inl rfl
        · exact Or.inr ⟨mem, le⟩
    · have scan : due time now (y :: ys) = [] :=
        List.takeWhile_cons_of_neg (by simpa using early)
      rw [scan]
      constructor
      · intro mem
        cases mem
      · rintro ⟨mem, le⟩
        rcases List.mem_cons.mp mem with rfl | later
        · exact absurd le early
        · exact absurd (Nat.le_trans (first x later) le) early

theorem enter_behind {x : α} {xs : List α} (notEarlier : ∀ z ∈ xs, ¬time x < time z) (ys : List α) :
    enter time x (xs ++ ys) = xs ++ enter time x ys := by
  induction xs with
  | nil => rfl
  | cons z zs ih =>
    have first := notEarlier z (by simp)
    rw [List.cons_append, enter, if_neg first, List.cons_append]
    rw [ih fun z' mem => notEarlier z' (by simp [mem])]

end Simtrace2.Lib
