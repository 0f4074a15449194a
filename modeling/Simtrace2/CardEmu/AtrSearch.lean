import Simtrace2.CardEmu.Api
import Simtrace2.Sniffer.AtrGrammar

/-! The search for TC2, with which the card finds WI behind its ATR: it reads nothing that is not
in the ATR, and finds what the grammar has there. -/
namespace Simtrace2
open Lib Sniffer

namespace Atr

/-- The ATR in the buffer. -/
def bytes (a : Atr) : List UInt8 := a.atr.take a.len

/-- The search for TC2 over a reader that may refuse an index. -/
def searchWiBy (read : Nat → Option UInt8) (len : Nat) : Option UInt8 :=
  if 2 ≤ len then do
    let y1 ← read 1
    if hasBit y1 0xf0 then
      let atrTd1 := 2 + (if hasBit y1 0x10 then 1 else 0) + (if hasBit y1 0x20 then 1 else 0)
        + (if hasBit y1 0x40 then 1 else 0)
      if hasBit y1 0x80 ∧ atrTd1 < len then
        let y2 ← read atrTd1
        if hasBit y2 0xf0 then
          let atrTc2 := atrTd1 + 1 + (if hasBit y2 0x10 then 1 else 0)
            + (if hasBit y2 0x20 then 1 else 0)
          if hasBit y2 0x40 ∧ atrTc2 < len then
            let wi ← read atrTc2
            if wi ≠ 0 then some wi else some iso78163DefaultWi
          else some iso78163DefaultWi
        else some iso78163DefaultWi
      else some iso78163DefaultWi
    else some iso78163DefaultWi
  else some iso78163DefaultWi

/-- A reader that refuses what is not in the ATR. -/
def readWithin (a : Atr) (i : Nat) : Option UInt8 := if i < a.len then some (a.at i) else none

theorem readWithin_of_lt {a : Atr} {i : Nat} (h : i < a.len) : a.readWithin i = some (a.at i) :=
  if_pos h

/-- The search reads nothing behind the ATR. -/
theorem searchWiBy_readWithin (a : Atr) : searchWiBy a.readWithin a.len = some a.searchWi := by
  unfold searchWiBy searchWi
  by_cases long : 2 ≤ a.len
  · have y1 := readWithin_of_lt (a := a) (i := 1) long
    simp only [if_pos long, y1, Option.bind_eq_bind, Option.bind_some]
    by_cases more : hasBit (a.at 1) 0xf0
    · have both : 2 ≤ a.len ∧ hasBit (a.at 1) 0xf0 = true := ⟨long, more⟩
      rw [if_pos more, if_pos both]
      generalize 2 + (if hasBit (a.at 1) 0x10 then 1 else 0) + (if hasBit (a.at 1) 0x20 then 1 else 0)
        + (if hasBit (a.at 1) 0x40 then 1 else 0) = atrTd1
      by_cases td : hasBit (a.at 1) 0x80 ∧ atrTd1 < a.len
      · have y2 := readWithin_of_lt td.2
        simp only [if_pos td, y2, Option.bind_some]
        by_cases more2 : hasBit (a.at atrTd1) 0xf0
        · have all : hasBit (a.at 1) 0x80 = true ∧ atrTd1 < a.len ∧ hasBit (a.at atrTd1) 0xf0 = true :=
            ⟨td.1, td.2, more2⟩
          rw [if_pos more2, if_pos all]
          generalize atrTd1 + 1 + (if hasBit (a.at atrTd1) 0x10 then 1 else 0)
            + (if hasBit (a.at atrTd1) 0x20 then 1 else 0) = atrTc2
          by_cases tc : hasBit (a.at atrTd1) 0x40 ∧ atrTc2 < a.len
          · have wi := readWithin_of_lt tc.2
            simp only [wi, Option.bind_some, tc.1, tc.2, true_and, and_self, if_true]
            exact (apply_ite some _ _ _).symm
          · rw [if_neg tc, if_neg (fun all => tc ⟨all.1, all.2.1⟩)]
        · rw [if_neg more2, if_neg (fun all => more2 all.2.2)]
      · rw [if_neg td, if_neg (fun all => td ⟨all.1, all.2.1⟩)]
    · rw [if_neg more, if_neg (fun both => more both.2)]
  · rw [if_neg long, if_neg (fun both => long both.1)]

/-- WI as the bytes of an ATR encode it for the card. -/
def wiOf (bytes : List UInt8) : UInt8 := Atr.searchWi ⟨0, bytes.length, bytes⟩

/-- WI depends on the ATR alone, not on what else is in its buffer. -/
theorem wiOf_bytes {a : Atr} (fits : a.len ≤ a.atr.length) : wiOf a.bytes = a.searchWi := by
  have length : a.bytes.length = a.len := by
    rw [bytes, List.length_take]
    omega
  have reads : readWithin ⟨0, a.bytes.length, a.bytes⟩ = a.readWithin := by
    funext i
    simp only [readWithin, length]
    split
    · rename_i inside
      simp [Atr.at, bytes, inside]
    · rfl
  have same := searchWiBy_readWithin ⟨0, a.bytes.length, a.bytes⟩
  rw [reads, length, searchWiBy_readWithin] at same
  rw [wiOf, length]
  exact (Option.some.inj same).symm

end Atr

section Search
variable {y : UInt8} {g : AtrGroup}

theorem toList_length {opt : Option UInt8} {bit : Bool} (present : opt.isSome = bit) :
    opt.toList.length = if bit then 1 else 0 := by
  subst present
  cases opt <;> rfl

/-- The places of TC and of TD in a group that begins at `n`. -/
theorem AtrGroup.Announced.places (h : g.Announced y) (pre rest : List UInt8) :
    (pre ++ (g.bytes ++ rest))[pre.length + (if hasBit y 0x10 then 1 else 0)
        + (if hasBit y 0x20 then 1 else 0)]? =
      (g.tc.toList ++ g.td.toList ++ rest)[0]? ∧
    (pre ++ (g.bytes ++ rest))[pre.length + (if hasBit y 0x10 then 1 else 0)
        + (if hasBit y 0x20 then 1 else 0) + (if hasBit y 0x40 then 1 else 0)]? =
      (g.td.toList ++ rest)[0]? := by
  obtain ⟨ta, tb, tc, _⟩ := h
  rw [← toList_length ta, ← toList_length tb, ← toList_length tc]
  constructor
  · have front : pre ++ (g.bytes ++ rest) = (pre ++ g.ta.toList ++ g.tb.toList) ++
        (g.tc.toList ++ g.td.toList ++ rest) := by
      simp [AtrGroup.bytes]
    rw [front, List.getElem?_append_right (by simp [Nat.add_assoc])]
    simp [Nat.add_assoc]
  · have front : pre ++ (g.bytes ++ rest) = (pre ++ g.ta.toList ++ g.tb.toList ++ g.tc.toList) ++
        (g.td.toList ++ rest) := by
      simp [AtrGroup.bytes]
    rw [front, List.getElem?_append_right (by simp [Nat.add_assoc])]
    simp [Nat.add_assoc]

theorem hasBit_high (y : UInt8) :
    (hasBit y 0x80 = true → hasBit y 0xf0 = true) ∧ (hasBit y 0x40 = true → hasBit y 0xf0 = true) := by
  revert y
  apply forall_byte
  decide +kernel

theorem atr_at {bytes : List UInt8} {i : Nat} {byte : UInt8} (h : bytes[i]? = some byte) :
    i < bytes.length ∧ Atr.at ⟨0, bytes.length, bytes⟩ i = byte := by
  refine ⟨(List.getElem?_eq_some_iff.mp h).1, ?_⟩
  rw [Atr.at, h]
  rfl

end Search

/-- Where T0 announces no TD1, and where TD1 announces no TC2, WI is the default. -/
theorem Atr.searchWi_default {a : Atr} {td1 : Nat} (place : td1 = 2
      + (if hasBit (a.at 1) 0x10 then 1 else 0) + (if hasBit (a.at 1) 0x20 then 1 else 0)
      + (if hasBit (a.at 1) 0x40 then 1 else 0))
    (absent : hasBit (a.at 1) 0x80 = false ∨ hasBit (a.at td1) 0x40 = false) :
    a.searchWi = iso78163DefaultWi := by
  subst place
  unfold searchWi
  obtain none | none := absent <;> simp [none]

theorem Atr.searchWi_tc2 {a : Atr} {td1 tc2 : Nat} (long : 2 ≤ a.len) (place : td1 = 2
      + (if hasBit (a.at 1) 0x10 then 1 else 0) + (if hasBit (a.at 1) 0x20 then 1 else 0)
      + (if hasBit (a.at 1) 0x40 then 1 else 0)) (inside : td1 < a.len)
    (td : hasBit (a.at 1) 0x80 = true) (tc : hasBit (a.at td1) 0x40 = true)
    (place2 : tc2 = td1 + 1 + (if hasBit (a.at td1) 0x10 then 1 else 0)
      + (if hasBit (a.at td1) 0x20 then 1 else 0)) (inside2 : tc2 < a.len) :
    a.searchWi = if a.at tc2 = 0 then iso78163DefaultWi else a.at tc2 := by
  have more := (hasBit_high (a.at 1)).1 td
  have more2 := (hasBit_high (a.at td1)).2 tc
  unfold searchWi
  rw [if_pos ⟨long, more⟩, ← place, if_pos ⟨td, inside, more2⟩, ← place2]
  by_cases zero : a.at tc2 = 0
  · rw [if_neg (fun all => all.2.2 zero), if_pos zero]
  · rw [if_pos ⟨tc, inside2, zero⟩, if_neg zero]

/-- The positional search finds TC2 where the grammar has it. -/
theorem IsoAtr.WellFormed.wiOf {a : IsoAtr} (wf : a.WellFormed) : Atr.wiOf a.bytes = a.wi := by
  have chain := wf.groups
  unfold IsoAtr.wi IsoAtr.tc2
  cases groups : a.groups with
  | nil =>
    rw [groups] at chain
    exact chain.elim
  | cons g behind =>
    rw [groups] at chain
    obtain ⟨announced, chain⟩ := chain
    have split : a.bytes = [a.ts, a.t0] ++
        (g.bytes ++ (behind.flatMap AtrGroup.bytes ++ (a.hist ++ a.tck.toList))) := by
      simp [IsoAtr.bytes, groups]
    have t0 : a.bytes[1]? = some a.t0 := by rw [split]; rfl
    obtain ⟨long, y1⟩ := atr_at t0
    have td : a.bytes[2 + (if hasBit a.t0 0x10 then 1 else 0) + (if hasBit a.t0 0x20 then 1 else 0)
        + (if hasBit a.t0 0x40 then 1 else 0)]? =
        (g.td.toList ++ (behind.flatMap AtrGroup.bytes ++ (a.hist ++ a.tck.toList)))[0]? := by
      rw [split]
      exact (announced.places [a.ts, a.t0] _).2
    cases first : g.td with
    | none =>
      have none : hasBit a.t0 0x80 = false := by rw [← announced.2.2.2, first]; rfl
      rw [first] at chain
      subst chain
      exact Atr.searchWi_default rfl (.inl (by rw [y1]; exact none))
    | some td1 =>
      have bit : hasBit a.t0 0x80 = true := by rw [← announced.2.2.2, first]; rfl
      rw [first] at chain td
      obtain ⟨inside, y2⟩ := atr_at (show _ = some td1 from td)
      cases behind with
      | nil => exact chain.elim
      | cons g2 behind =>
        obtain ⟨announced2, _⟩ := chain
        have split2 : a.bytes = [a.ts, a.t0] ++ g.ta.toList ++ g.tb.toList ++ g.tc.toList ++ [td1] ++
            (g2.bytes ++ (behind.flatMap AtrGroup.bytes ++ (a.hist ++ a.tck.toList))) := by
          simp [split, AtrGroup.bytes, first]
        have tc := (announced2.places
          ([a.ts, a.t0] ++ g.ta.toList ++ g.tb.toList ++ g.tc.toList ++ [td1])
          (behind.flatMap AtrGroup.bytes ++ (a.hist ++ a.tck.toList))).1
        rw [← split2] at tc
        simp only [List.length_append, toList_length announced.1, toList_length announced.2.1,
          toList_length announced.2.2.1] at tc
        cases second : g2.tc with
        | none =>
          have none : hasBit td1 0x40 = false := by rw [← announced2.2.2.1, second]; rfl
          have default := Atr.searchWi_default (a := ⟨0, a.bytes.length, a.bytes⟩) (by rw [y1])
            (.inr (by rw [y2]; exact none))
          rw [Atr.wiOf, default]
          simp only [List.getElem?_cons_succ, List.getElem?_cons_zero, Option.bind_some, second]
          rfl
        | some tc2 =>
          have bit2 : hasBit td1 0x40 = true := by rw [← announced2.2.2.1, second]; rfl
          rw [second] at tc
          obtain ⟨inside2, wi⟩ := atr_at (show _ = some tc2 from tc)
          have found := Atr.searchWi_tc2 (a := ⟨0, a.bytes.length, a.bytes⟩) long (by rw [y1])
            inside (by rw [y1]; exact bit) (by rw [y2]; exact bit2) (by rw [y2]; rfl) inside2
          rw [wi] at found
          rw [Atr.wiOf, found]
          simp only [List.getElem?_cons_succ, List.getElem?_cons_zero, Option.bind_some, second]
          rfl

end Simtrace2
