import Mathlib.Algebra.Group.Nat.Defs
import Mathlib.Data.List.Basic

/-! Byte strings as C code sees them: little-endian integers of a fixed width,
memory read through an offset, and `memcpy` into the middle of a buffer. -/
namespace Simtrace2.Lib

def leBytes : Nat → Nat → List UInt8
  | 0, _ => []
  | w + 1, n => UInt8.ofNat (n % 256) :: leBytes w (n / 256)

def leValue : List UInt8 → Nat
  | [] => 0
  | b :: bs => b.toNat + 256 * leValue bs

@[simp] theorem leBytes_length (w n : Nat) : (leBytes w n).length = w := by
  induction w generalizing n with
  | zero => rfl
  | succ w ih => simp [leBytes, ih]

theorem leValue_leBytes (w n : Nat) : leValue (leBytes w n) = n % 256 ^ w := by
  induction w generalizing n with
  | zero => simp [leBytes, leValue, Nat.mod_one]
  | succ w ih =>
    have low : (UInt8.ofNat (n % 256)).toNat = n % 256 := by
      rw [UInt8.toNat_ofNat']
      omega
    rw [leBytes, leValue, ih, low, Nat.pow_succ, Nat.mul_comm (256 ^ w), Nat.mod_mul]

/-- The `n` bytes of a memory from offset `off` on. -/
def readAt (mem : Nat → UInt8) (off n : Nat) : List UInt8 :=
  (List.range n).map fun i => mem (off + i)

@[simp] theorem readAt_length (mem : Nat → UInt8) (off n : Nat) :
    (readAt mem off n).length = n := by
  simp [readAt]

@[simp] theorem readAt_zero (mem : Nat → UInt8) (off : Nat) : readAt mem off 0 = [] := rfl

theorem readAt_succ (mem : Nat → UInt8) (off n : Nat) :
    readAt mem off (n + 1) = mem off :: readAt mem (off + 1) n := by
  simp only [readAt, List.range_succ_eq_map, List.map_cons, List.map_map, Nat.add_zero]
  congr 2
  funext i
  simp only [Function.comp]
  congr 1
  omega

theorem readAt_drop (mem : Nat → UInt8) (off k n : Nat) :
    (readAt mem off (k + n)).drop k = readAt mem (off + k) n := by
  induction k generalizing off with
  | zero => simp
  | succ k ih =>
    rw [Nat.add_right_comm, readAt_succ, List.drop_succ_cons, ih]
    congr 1
    omega

theorem readAt_take (mem : Nat → UInt8) (off n k : Nat) :
    (readAt mem off (n + k)).take n = readAt mem off n := by
  induction n generalizing off with
  | zero => simp
  | succ n ih => rw [Nat.add_right_comm, readAt_succ, readAt_succ, List.take_succ_cons, ih]

/-- The memory that starts with `xs` and goes on with whatever lies behind it. -/
def memory (xs : List UInt8) (behind : Nat → UInt8) : Nat → UInt8 :=
  fun i => (xs[i]?).getD (behind i)

theorem readAt_memory (pre xs post : List UInt8) (behind : Nat → UInt8) :
    readAt (memory (pre ++ xs ++ post) behind) pre.length xs.length = xs := by
  apply List.ext_getElem
  · simp
  · intro i h _
    have hi : i < xs.length := by simpa using h
    have inner : (pre ++ xs ++ post)[pre.length + i]? = some xs[i] := by
      rw [List.append_assoc, List.getElem?_append_right (by omega)]
      simp [List.getElem?_append_left, hi]
    simp only [readAt, memory, List.getElem_map, List.getElem_range, inner, Option.getD_some]

theorem memory_inside {xs : List UInt8} {behind : Nat → UInt8} {i : Nat} (h : i < xs.length) :
    memory xs behind i = xs[i] := by
  simp [memory, h]

theorem memory_behind {xs : List UInt8} {behind : Nat → UInt8} {i : Nat} (h : xs.length ≤ i) :
    memory xs behind i = behind i := by
  simp [memory, h]

theorem readAt_inside {xs : List UInt8} {behind : Nat → UInt8} {off n : Nat}
    (h : off + n ≤ xs.length) : readAt (memory xs behind) off n = (xs.drop off).take n := by
  apply List.ext_getElem
  · rw [readAt_length, List.length_take, List.length_drop]
    omega
  · intro i hi _
    rw [readAt_length] at hi
    simp [readAt, memory_inside (show off + i < xs.length by omega)]

/-- `memcpy(buf + off, xs, n)` with `n` the length of `xs`. -/
def splice {A : Type*} (buf : List A) (off : Nat) (xs : List A) : List A :=
  buf.take off ++ xs ++ buf.drop (off + xs.length)

theorem forall_byte {P : UInt8 → Prop} (all : ∀ n : Fin 256, P (UInt8.ofNat n)) (b : UInt8) :
    P b := by
  have this := all ⟨b.toNat, b.toNat_lt⟩
  rwa [UInt8.ofNat_toNat] at this

/-- An array of `n` bytes. What is stored past its end goes to the memory behind it: the
indices and the bytes of such stores, in their order. -/
structure Buffer (n : Nat) where
  bytes : List UInt8
  size : bytes.length = n
  behind : List (Nat × UInt8)
deriving DecidableEq, Repr

namespace Buffer
variable {n : Nat}

def zero (n : Nat) : Buffer n := ⟨List.replicate n 0, List.length_replicate, []⟩

def get (b : Buffer n) (i : Nat) : UInt8 := (b.bytes[i]?).getD 0

theorem length_set (b : Buffer n) (i : Nat) (x : UInt8) : (b.bytes.set i x).length = n := by
  rw [List.length_set, b.size]

def put (b : Buffer n) (i : Nat) (x : UInt8) : Buffer n :=
  if i < n then ⟨b.bytes.set i x, b.length_set i x, b.behind⟩
  else { b with behind := b.behind ++ [(i, x)] }

def upTo (b : Buffer n) (k : Nat) : List UInt8 := b.bytes.take k

@[simp] theorem upTo_zero (b : Buffer n) : b.upTo 0 = [] := rfl

theorem behind_put (b : Buffer n) {i : Nat} (h : i < n) (x : UInt8) :
    (b.put i x).behind = b.behind := by
  rw [put, if_pos h]

theorem upTo_put (b : Buffer n) {i : Nat} (h : i < n) (x : UInt8) :
    (b.put i x).upTo (i + 1) = b.upTo i ++ [x] := by
  have inside : i < b.bytes.length := by rw [b.size]; exact h
  rw [upTo, put, if_pos h, upTo, List.take_add_one, List.take_set_of_le (Nat.le_refl i)]
  simp [inside]

theorem get_put (b : Buffer n) {i : Nat} (h : i < n) (x : UInt8) (j : Nat) :
    (b.put i x).get j = if i = j then x else b.get j := by
  have inside : i < b.bytes.length := by rw [b.size]; exact h
  simp only [get, put, if_pos h, List.getElem?_set]
  split <;> simp [*]

theorem get_of_upTo (b : Buffer n) {i k : Nat} {xs : List UInt8} (held : b.upTo k = xs)
    (h : i < xs.length) : b.get i = xs[i] := by
  subst held
  have small : i < k ∧ i < b.bytes.length := by simpa [upTo, Nat.lt_min] using h
  simp [get, upTo, small.2]

end Buffer

end Simtrace2.Lib
