import Simtrace2.Lib.Bytes

/-! A memory, or a buffer, that is written piece by piece. -/
namespace Simtrace2.Lib

/-- The memory with `xs` from address `a` on. -/
def store (mem : Nat → UInt8) (a : Nat) (xs : List UInt8) : Nat → UInt8 :=
  fun i => if a ≤ i then (xs[i - a]?).getD (mem i) else mem i

@[simp] theorem store_nil (mem : Nat → UInt8) (a : Nat) : store mem a [] = mem := by
  funext i
  simp [store]

theorem store_below {mem : Nat → UInt8} {a i : Nat} (h : i < a) (xs : List UInt8) :
    store mem a xs i = mem i :=
  if_neg (Nat.not_le.mpr h)

theorem store_above {mem : Nat → UInt8} {a i : Nat} {xs : List UInt8} (h : a + xs.length ≤ i) :
    store mem a xs i = mem i := by
  rw [store, if_pos (by omega), List.getElem?_eq_none (by omega)]
  rfl

/-- What is written piece by piece is written. -/
theorem store_append (mem : Nat → UInt8) (a : Nat) (xs ys : List UInt8) :
    store (store mem a xs) (a + xs.length) ys = store mem a (xs ++ ys) := by
  funext i
  by_cases before : i < a
  · rw [store_below (by omega), store_below before, store_below before]
  · have inside : a ≤ i := Nat.not_lt.mp before
    by_cases first : i < a + xs.length
    · rw [store_below first, store, store, if_pos inside, if_pos inside,
        List.getElem?_append_left (by omega)]
    · have second : a + xs.length ≤ i := Nat.not_lt.mp first
      rw [store, if_pos second, store_above second, store, if_pos inside,
        List.getElem?_append_right (by omega), Nat.sub_add_eq]

theorem readAt_store (mem : Nat → UInt8) (a : Nat) (xs : List UInt8) :
    readAt (store mem a xs) a xs.length = xs := by
  apply List.ext_getElem
  · rw [readAt_length]
  · intro i hi hx
    simp [readAt, store, hx]

/-- What is read and written back changes nothing. -/
theorem store_readAt (mem : Nat → UInt8) (a n : Nat) : store mem a (readAt mem a n) = mem := by
  funext i
  by_cases inside : a ≤ i ∧ i < a + n
  · have there : i - a < (readAt mem a n).length := by
      rw [readAt_length]
      omega
    rw [store, if_pos inside.1, List.getElem?_eq_getElem there, Option.getD_some]
    simp only [readAt, List.getElem_map, List.getElem_range]
    congr 1
    omega
  · rcases Nat.lt_or_ge i a with below | above
    · exact store_below below _
    · exact store_above (by rw [readAt_length]; omega)

/-- Writing the bytes around a piece back with it is writing the piece. -/
theorem store_around (mem : Nat → UInt8) (a before behind : Nat) (xs : List UInt8) :
    store mem a (readAt mem a before ++ xs ++ readAt mem (a + before + xs.length) behind) =
      store mem (a + before) xs := by
  have rest : readAt mem (a + before + xs.length) behind =
      readAt (store mem (a + before) xs) (a + before + xs.length) behind := by
    simp only [readAt]
    congr 1
    funext i
    exact (store_above (by omega)).symm
  have front := store_append mem a (readAt mem a before) xs
  rw [store_readAt, readAt_length] at front
  have whole := store_append mem a (readAt mem a before ++ xs)
    (readAt mem (a + before + xs.length) behind)
  rw [← whole, ← front, List.length_append, readAt_length, rest, ← Nat.add_assoc, store_readAt]

section Splice

variable {A : Type*} {buf xs : List A} {off : Nat}

theorem splice_length (fits : off + xs.length ≤ buf.length) :
    (splice buf off xs).length = buf.length := by
  simp only [splice, List.length_append, List.length_take, List.length_drop]
  omega

theorem take_splice (inside : off ≤ buf.length) :
    (splice buf off xs).take (off + xs.length) = buf.take off ++ xs := by
  have length : (buf.take off ++ xs).length = off + xs.length := by
    rw [List.length_append, List.length_take_of_le inside]
  rw [splice, List.take_append_of_le_length (Nat.le_of_eq length.symm),
    List.take_of_length_le (Nat.le_of_eq length)]

/-- What lies behind the copy stays. -/
theorem drop_splice {n : Nat} (fits : off + xs.length ≤ buf.length) (behind : off + xs.length ≤ n) :
    (splice buf off xs).drop n = buf.drop n := by
  have length : (buf.take off ++ xs).length = off + xs.length := by
    simp only [List.length_append, List.length_take]
    omega
  rw [splice, List.drop_append, List.drop_of_length_le (by omega), List.nil_append, length,
    List.drop_drop]
  congr 1
  omega

end Splice

end Simtrace2.Lib
