import Mathlib.Data.List.Basic

/-! Fi/Di tables of ISO 7816-3 and the ratio computed from them. -/
namespace Simtrace2

def iso78163FiTable : List Nat :=
  [372, 372, 558, 744, 1116, 1488, 1860, 0, 0, 512, 768, 1024, 1536, 2048, 0, 0]

def iso78163DiTable : List Nat :=
  [0, 1, 2, 4, 8, 16, 32, 64, 12, 20, 2, 4, 8, 16, 32, 64]

/-- The F/D ratio; `none` is `-EINVAL`. The RFU range keeps its 1997 meaning. -/
def iso78163ComputeFdRatio (fIndex dIndex : Nat) : Option Nat :=
  match iso78163FiTable[fIndex]?, iso78163DiTable[dIndex]? with
  | some f, some d =>
    if f = 0 then none
    else if d = 0 then none
    else if dIndex < 10 then some (f / d)
    else some (f * d)
  | _, _ => none

def usFidiRatioMax : Nat := 2047

/-- What an update of the USART programs; where there is no such ratio, nothing. -/
def usFidiRatio (fIndex dIndex : Nat) : Option Nat :=
  match iso78163ComputeFdRatio fIndex dIndex with
  | some ratio => if 0 < ratio ∧ ratio ≤ usFidiRatioMax then some ratio else none
  | none => none

end Simtrace2
