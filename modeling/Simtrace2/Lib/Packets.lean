import Mathlib.Data.List.Basic
import Mathlib.Algebra.Order.Ring.Nat

/-! Bulk transfers: a write is cut into packets of the end-point's size, and the
receiver ends a transfer at the first packet that is shorter. A write whose
length is a positive multiple of the size has no such packet of its own. -/
namespace Simtrace2.Lib

variable {A : Type*}

/-- The packets of one write. An empty write is one empty packet. -/
def packets (p : Nat) (xs : List A) : List (List A) :=
  if p = 0 ∨ xs.length ≤ p then [xs]
  else xs.take p :: packets p (xs.drop p)
termination_by xs.length
decreasing_by
  rw [List.length_drop]
  omega

/-- One packet at the receiver: the completed transfers and the one in progress. -/
def receive (p : Nat) (t : List (List A) × List A) (packet : List A) : List (List A) × List A :=
  if packet.length < p then (t.1 ++ [t.2 ++ packet], []) else (t.1, t.2 ++ packet)

def transfers (p : Nat) (wire : List (List A)) : List (List A) × List A :=
  wire.foldl (receive p) ([], [])

/-- A message with the packet that ends its transfer. -/
def frame (p : Nat) (xs : List A) : List (List A) :=
  packets p xs ++ if p ∣ xs.length then [[]] else []

theorem packets_short {p : Nat} {xs : List A} (h : xs.length ≤ p) : packets p xs = [xs] := by
  rw [packets, if_pos (.inr h)]

theorem packets_long {p : Nat} (pos : 0 < p) {xs : List A} (h : p < xs.length) :
    packets p xs = xs.take p :: packets p (xs.drop p) := by
  rw [packets, if_neg (by omega)]

theorem packets_ne_nil (p : Nat) (xs : List A) : packets p xs ≠ [] := by
  rw [packets]
  split <;> simp

theorem flatten_packets (p : Nat) (xs : List A) : (packets p xs).flatten = xs := by
  induction h : xs.length using Nat.strong_induction_on generalizing xs with
  | _ n ih =>
    rw [packets]
    split
    · simp
    · rename_i long
      have shorter : (xs.drop p).length < n := by
        rw [List.length_drop]
        omega
      rw [List.flatten_cons, ih _ shorter _ rfl, List.take_append_drop]

theorem receive_full {p : Nat} {t : List (List A) × List A} {packet : List A}
    (full : packet.length = p) : receive p t packet = (t.1, t.2 ++ packet) := by
  simp [receive, full]

theorem receive_packets {p : Nat} (pos : 0 < p) (xs : List A) (some : xs ≠ [])
    (t : List (List A) × List A) :
    (packets p xs).foldl (receive p) t =
      if p ∣ xs.length then (t.1, t.2 ++ xs) else (t.1 ++ [t.2 ++ xs], []) := by
  induction h : xs.length using Nat.strong_induction_on generalizing xs t with
  | _ n ih =>
    subst h
    by_cases long : p < xs.length
    · have tail : xs.drop p ≠ [] := by simpa using long
      have shorter : (xs.drop p).length < xs.length := by
        rw [List.length_drop]
        omega
      have same : p ∣ (xs.drop p).length ↔ p ∣ xs.length := by
        rw [List.length_drop]
        exact (Nat.dvd_sub_iff_left (Nat.le_of_lt long) (dvd_refl p))
      have first : receive p t (xs.take p) = (t.1, t.2 ++ xs.take p) :=
        receive_full (by rw [List.length_take]; omega)
      rw [packets_long pos long, List.foldl_cons, first, ih _ shorter _ tail _ rfl]
      simp only [same, List.append_assoc, List.take_append_drop]
    · have nonempty : 0 < xs.length := List.length_pos_iff.mpr some
      have whole : p ∣ xs.length ↔ ¬ xs.length < p := by
        constructor
        · intro dvd below
          exact absurd (Nat.le_of_dvd nonempty dvd) (by omega)
        · intro notbelow
          rw [show xs.length = p by omega]
      rw [packets_short (by omega)]
      simp only [List.foldl_cons, List.foldl_nil, receive, whole]
      split_ifs <;> rfl

theorem receive_frame {p : Nat} (pos : 0 < p) (xs : List A) (some : xs ≠ [])
    (t : List (List A) × List A) :
    (frame p xs).foldl (receive p) t = (t.1 ++ [t.2 ++ xs], []) := by
  rw [frame, List.foldl_append, receive_packets pos xs some]
  split_ifs
  · simp [receive, pos]
  · rfl

theorem receive_frames {p : Nat} (pos : 0 < p) (msgs : List (List A))
    (some : ∀ xs ∈ msgs, xs ≠ []) (t : List (List A) × List A) (idle : t.2 = []) :
    (msgs.flatMap (frame p)).foldl (receive p) t = (t.1 ++ msgs, []) := by
  induction msgs generalizing t with
  | nil => simp [Prod.ext_iff, idle]
  | cons xs msgs ih =>
    rw [List.flatMap_cons, List.foldl_append, receive_frame pos xs (some xs (by simp)),
      ih (fun ys hy => some ys (by simp [hy])) _ rfl, idle]
    simp

end Simtrace2.Lib
