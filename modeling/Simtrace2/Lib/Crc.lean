import Mathlib.Data.List.Basic
import Mathlib.Logic.Function.Basic

/-! Checksums that fold bytes into a register, and which of them see every change of a
single byte. The shift register of a CRC is one where the polynomial has its top bit. -/
namespace Simtrace2.Lib

section checksum
variable {R B : Type*} {f : R → B → R}

/-- Neither two registers nor two bytes lead to the same register. -/
structure Sensitive (f : R → B → R) : Prop where
  register : ∀ b, Function.Injective fun r => f r b
  byte : ∀ r, Function.Injective (f r)

namespace Sensitive

theorem foldl (h : Sensitive f) (bytes : List B) : Function.Injective fun r => bytes.foldl f r := by
  induction bytes with
  | nil => exact Function.injective_id
  | cons b bytes ih =>
    intro r r' same
    exact h.register b (ih same)

theorem changed (h : Sensitive f) (r : R) (front back : List B) {a b : B} (other : a ≠ b) :
    (front ++ a :: back).foldl f r ≠ (front ++ b :: back).foldl f r := by
  induction front generalizing r with
  | nil =>
    intro same
    exact other (h.byte r (h.foldl back same))
  | cons c front ih => exact ih (f r c)

/-- A single wrong byte, wherever it stands, changes the checksum. -/
theorem set (h : Sensitive f) (r : R) {bytes : List B} {i : Nat} (inside : i < bytes.length) {b : B}
    (other : bytes[i] ≠ b) : (bytes.set i b).foldl f r ≠ bytes.foldl f r := by
  have whole : bytes = bytes.take i ++ bytes[i] :: bytes.drop (i + 1) := by
    rw [← List.drop_eq_getElem_cons inside, List.take_append_drop]
  rw [List.set_eq_take_append_cons_drop, if_pos inside]
  conv => rhs; rw [whole]
  exact (h.changed r _ _ other).symm

end Sensitive
end checksum

variable {w : Nat}

/-- One shift of a CRC register, the lowest bit first. -/
def crcStep (poly r : BitVec w) : BitVec w :=
  if r.getLsbD 0 then (r >>> 1) ^^^ poly else r >>> 1

/-- The bit that was shifted out is the top bit afterwards. -/
theorem crcStep_msb {poly : BitVec w} (top : poly.msb = true) (r : BitVec w) :
    (crcStep poly r).msb = r.getLsbD 0 := by
  unfold crcStep
  cases low : r.getLsbD 0 with
  | true => simp [BitVec.msb_xor, BitVec.msb_ushiftRight, top]
  | false => simp [BitVec.msb_ushiftRight]

theorem crcStep_injective {poly : BitVec w} (top : poly.msb = true) :
    Function.Injective (crcStep poly) := by
  intro a b same
  have low : a.getLsbD 0 = b.getLsbD 0 := by
    rw [← crcStep_msb top a, ← crcStep_msb top b, same]
  have high : a >>> 1 = b >>> 1 := by
    unfold crcStep at same
    rw [low] at same
    cases bit : b.getLsbD 0 with
    | true =>
      rw [bit, if_pos rfl, if_pos rfl] at same
      exact (BitVec.xor_left_inj poly).mp same
    | false =>
      rw [bit, if_neg Bool.false_ne_true, if_neg Bool.false_ne_true] at same
      exact same
  apply BitVec.eq_of_getLsbD_eq
  intro i _
  cases i with
  | zero => exact low
  | succ i =>
    have bits : (a >>> 1).getLsbD i = (b >>> 1).getLsbD i := by rw [high]
    rwa [BitVec.getLsbD_ushiftRight, BitVec.getLsbD_ushiftRight, Nat.add_comm 1] at bits

end Simtrace2.Lib
