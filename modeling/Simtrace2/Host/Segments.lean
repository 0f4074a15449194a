import Simtrace2.Host.Apdu
import Simtrace2.Lib.Memory
import Simtrace2.Lib.Run

/-! The data of a command as `osmo_apdu_segment_in2` collects it from the pieces in which
it comes. -/
namespace Simtrace2
open Lib

/-- The class of a new command, once a command that the card has asked for again is taken
for what it was. -/
def classOf (osimDetermineApduCase : TpduHdr → UInt8) (prev : OsmoApduContext) (hdr : TpduHdr) :
    UInt8 :=
  let ac := { OsmoApduContext.zero with hdr, apduCase := osimDetermineApduCase hdr }
  if ac.repeats prev then prev.apduCase else ac.apduCase

/-- The calls for one command so far: what the last one left and returned, where its copy
into `dc` ended, and the data bytes of all of them. -/
structure Collecting where
  ac : OsmoApduContext
  prevAc : OsmoApduContext
  action : Option OsmoApduAction
  copied : Nat
  supplied : List UInt8

namespace Collecting

variable (osimDetermineApduCase : TpduHdr → UInt8)

/-- The call with the header of the command, and what follows it in the buffer. -/
def first (ac prevAc : OsmoApduContext) (apduBuf : List UInt8) : Collecting :=
  let r := osmoApduSegmentIn2 osimDetermineApduCase ac prevAc apduBuf true
  { ac := r.1, prevAc := r.2.1, action := r.2.2
    copied := (UInt8.ofNat (apduBuf.length - 5)).toNat, supplied := apduBuf.drop 5 }

def more (s : Collecting) (apduBuf : List UInt8) : Collecting :=
  let r := osmoApduSegmentIn2 osimDetermineApduCase s.ac s.prevAc apduBuf false
  { ac := r.1, prevAc := r.2.1, action := r.2.2
    copied := s.ac.lc.cur.toNat + s.ac.cpyLen apduBuf.length, supplied := s.supplied ++ apduBuf }

/-- After a call the data of the command, of which there are `lc` bytes, is there as far as
it has been supplied, and nothing else. -/
structure Right (lc : Nat) (s : Collecting) : Prop where
  cur : s.ac.lc.cur.toNat = min s.supplied.length lc
  dc : s.ac.dc.take s.ac.lc.cur.toNat = s.supplied.take s.ac.lc.cur.toNat
  action : s.action =
    some (if s.supplied.length < lc then .rxMoreCapduFromReader else .txCapduToCard)
  bounded : s.copied ≤ lc
  behind : s.ac.dc.drop lc = OsmoApduContext.zero.dc.drop lc

/-- What the calls rely on among themselves. -/
structure Inv (lc : UInt8) (s : Collecting) : Prop extends Right lc.toNat s where
  apduCase : s.ac.apduCase = 3 ∨ s.ac.apduCase = 4
  tot : s.ac.lc.tot = lc
  size : s.ac.dc.length = 256

end Collecting

namespace OsmoApduContext

variable {ac : OsmoApduContext}

theorem decision_data (data : ac.apduCase = 3 ∨ ac.apduCase = 4) :
    ac.decision = some (if ac.lc.tot = ac.lc.cur then .txCapduToCard else .rxMoreCapduFromReader) := by
  have plain : ¬(ac.apduCase = 1 ∨ ac.apduCase = 2) := by
    rcases data with h | h <;> rw [h] <;> decide
  simp only [decision, if_neg plain, if_pos data, isDcComplete, beq_iff_eq]
  split <;> rfl

theorem startApdu_data (data : ac.apduCase = 3 ∨ ac.apduCase = 4) (apduBuf : List UInt8) :
    ac.startApdu apduBuf = some (ac.startDc apduBuf) := by
  have plain : ac.apduCase ≠ 1 ∧ ac.apduCase ≠ 2 := by
    rcases data with h | h <;> rw [h] <;> decide
  rw [startApdu, if_neg plain.1, if_neg plain.2, if_pos data]

theorem moreDc_data (data : ac.apduCase = 3 ∨ ac.apduCase = 4) (apduBuf : List UInt8) :
    ac.moreDc apduBuf = some { ac with
      dc := splice ac.dc ac.lc.cur.toNat (apduBuf.take (ac.cpyLen apduBuf.length))
      lc.cur := ac.lc.cur + UInt8.ofNat (ac.cpyLen apduBuf.length) } := by
  have plain : ¬(ac.apduCase = 1 ∨ ac.apduCase = 2) := by
    rcases data with h | h <;> rw [h] <;> decide
  rw [moreDc, if_neg plain, if_pos data]

end OsmoApduContext

namespace Collecting

variable {osimDetermineApduCase : TpduHdr → UInt8}

/-- Complete is complete: the counters are equal exactly when nothing is missing. -/
theorem action_right {ac : OsmoApduContext} {lc : UInt8} {supplied : Nat}
    (data : ac.apduCase = 3 ∨ ac.apduCase = 4) (tot : ac.lc.tot = lc)
    (cur : ac.lc.cur.toNat = min supplied lc.toNat) :
    ac.decision = some (if supplied < lc.toNat then .rxMoreCapduFromReader else .txCapduToCard) := by
  rw [OsmoApduContext.decision_data data, tot]
  by_cases missing : supplied < lc.toNat
  · have other : lc ≠ ac.lc.cur := by
      intro same
      have := congrArg UInt8.toNat same
      omega
    rw [if_neg other, if_pos missing]
  · have same : lc = ac.lc.cur := by
      apply UInt8.toNat_inj.mp
      omega
    rw [if_pos same, if_neg missing]

theorem Inv.more {lc : UInt8} {s : Collecting} (h : Inv lc s) (apduBuf : List UInt8) :
    Inv lc (s.more osimDetermineApduCase apduBuf) := by
  have had := h.cur
  have below : s.ac.lc.cur.toNat ≤ lc.toNat := by
    rw [h.cur]
    exact Nat.min_le_right _ _
  have count : s.ac.cpyLen apduBuf.length = min (lc.toNat - s.ac.lc.cur.toNat) apduBuf.length := by
    rw [OsmoApduContext.cpyLen, h.tot, if_pos (UInt8.le_iff_toNat_le.mpr below)]
  have taken : (apduBuf.take (s.ac.cpyLen apduBuf.length)).length =
      s.ac.cpyLen apduBuf.length := by
    rw [List.length_take, count]
    omega
  have last := lc.toNat_lt
  have cur : (s.ac.lc.cur + UInt8.ofNat (s.ac.cpyLen apduBuf.length)).toNat =
      s.ac.lc.cur.toNat + s.ac.cpyLen apduBuf.length := by
    rw [UInt8.toNat_add, UInt8.toNat_ofNat', count]
    omega
  have supplied : s.ac.lc.cur.toNat + s.ac.cpyLen apduBuf.length =
      min (s.supplied ++ apduBuf).length lc.toNat := by
    rw [List.length_append, count, h.cur]
    omega
  have fits : s.ac.lc.cur.toNat + (apduBuf.take (s.ac.cpyLen apduBuf.length)).length ≤
      s.ac.dc.length := by
    rw [taken, supplied, h.size]
    omega
  have next := OsmoApduContext.moreDc_data h.apduCase apduBuf
  simp only [Collecting.more, osmoApduSegmentIn2, Bool.false_eq_true, if_false, next]
  constructor
  · constructor
    · exact cur.trans supplied
    · simp only
      rw [cur]
      nth_rewrite 1 [← taken]
      rw [take_splice (by omega), h.dc, List.take_append]
      -- either the command is complete already, or all that was supplied has been copied
      by_cases complete : lc.toNat ≤ s.supplied.length
      · have none : s.ac.cpyLen apduBuf.length = 0 := by omega
        have ended : s.ac.lc.cur.toNat + 0 - s.supplied.length = 0 := by omega
        rw [none, ended, Nat.add_zero]
      · have all : s.ac.lc.cur.toNat = s.supplied.length := by omega
        rw [all, Nat.add_sub_cancel_left, List.take_of_length_le (Nat.le_refl _),
          List.take_of_length_le (Nat.le_add_right _ _)]
    · refine action_right h.apduCase h.tot ?_
      exact cur.trans supplied
    · rw [supplied]
      exact Nat.min_le_right _ _
    · simp only
      rw [drop_splice fits, h.behind]
      rw [taken, supplied]
      exact Nat.min_le_right _ _
  · exact h.apduCase
  · exact h.tot
  · simp only
    rw [splice_length fits, h.size]

variable {ac : OsmoApduContext} (prevAc : OsmoApduContext) {hdr : TpduHdr} (data : List UInt8)

/-- What the first call makes of a command with data. -/
theorem first_eq (kind : classOf osimDetermineApduCase ac hdr = 3 ∨
      classOf osimDetermineApduCase ac hdr = 4) :
    let start : OsmoApduContext :=
      { OsmoApduContext.zero with hdr, apduCase := classOf osimDetermineApduCase ac hdr }
    (first osimDetermineApduCase ac prevAc (hdr.bytes ++ data)).ac =
        start.startDc (hdr.bytes ++ data) ∧
      (first osimDetermineApduCase ac prevAc (hdr.bytes ++ data)).action =
        (start.startDc (hdr.bytes ++ data)).decision := by
  intro start
  have read : OsmoApduContext.readHdr (hdr.bytes ++ data) = hdr := rfl
  have kinds : (if OsmoApduContext.repeats { OsmoApduContext.zero with
        hdr, apduCase := osimDetermineApduCase hdr } ac then
      { OsmoApduContext.zero with hdr, apduCase := ac.apduCase }
    else { OsmoApduContext.zero with hdr, apduCase := osimDetermineApduCase hdr }) = start := by
    simp only [start, classOf]
    split <;> rfl
  have started : start.startApdu (hdr.bytes ++ data) = some (start.startDc (hdr.bytes ++ data)) :=
    OsmoApduContext.startApdu_data kind _
  simp only [first, osmoApduSegmentIn2, if_true, read, kinds, started, and_self]

theorem Inv.first (kind : classOf osimDetermineApduCase ac hdr = 3 ∨
      classOf osimDetermineApduCase ac hdr = 4)
    (fits : data.length ≤ hdr.p3.toNat ∨ data.length % 256 = hdr.p3.toNat) :
    Inv hdr.p3 (first osimDetermineApduCase ac prevAc (hdr.bytes ++ data)) := by
  obtain ⟨started, decided⟩ := first_eq prevAc data kind
  have last := hdr.p3.toNat_lt
  have count : (UInt8.ofNat ((hdr.bytes ++ data).length - 5)).toNat =
      min data.length hdr.p3.toNat := by
    rw [List.length_append, TpduHdr.bytes_length, Nat.add_sub_cancel_left, UInt8.toNat_ofNat']
    omega
  have taken : (data.take (min data.length hdr.p3.toNat)).length =
      min data.length hdr.p3.toNat := by
    rw [List.length_take]
    omega
  have dc : (Collecting.first osimDetermineApduCase ac prevAc (hdr.bytes ++ data)).ac.dc =
      splice OsmoApduContext.zero.dc 0 (data.take (min data.length hdr.p3.toNat)) := by
    rw [started, ← count]
    rfl
  have size : OsmoApduContext.zero.dc.length = 256 := List.length_replicate
  have inside : 0 + (data.take (min data.length hdr.p3.toNat)).length ≤
      OsmoApduContext.zero.dc.length := by
    rw [size, taken]
    omega
  have cur : (Collecting.first osimDetermineApduCase ac prevAc (hdr.bytes ++ data)).ac.lc.cur.toNat =
      min data.length hdr.p3.toNat := by
    rw [started]
    exact count
  constructor
  · constructor
    · exact cur
    · rw [cur, dc]
      nth_rewrite 1 [← taken]
      rw [← Nat.zero_add (List.length _), take_splice (Nat.zero_le _)]
      rfl
    · rw [decided]
      exact action_right kind rfl count
    · simp only [Collecting.first]
      rw [count]
      exact Nat.min_le_right _ _
    · rw [dc]
      apply drop_splice inside
      rw [taken, Nat.zero_add]
      exact Nat.min_le_right _ _
  · rw [started]
    exact kind
  · rw [started]
    rfl
  · rw [dc, splice_length inside, size]

/-- The data of a command is collected rightly, however it is cut, exactly when the first
buffer carries no more than the command announces, or the 8-bit counter hides it. -/
theorem collects_iff (osimDetermineApduCase : TpduHdr → UInt8) (ac prevAc : OsmoApduContext)
    (hdr : TpduHdr) (data : List UInt8) (chunks : List (List UInt8))
    (kind : classOf osimDetermineApduCase ac hdr = 3 ∨ classOf osimDetermineApduCase ac hdr = 4) :
    Always (more osimDetermineApduCase) (Right hdr.p3.toNat)
        (first osimDetermineApduCase ac prevAc (hdr.bytes ++ data)) chunks ↔
      data.length ≤ hdr.p3.toNat ∨ data.length % 256 = hdr.p3.toNat := by
  constructor
  · intro h
    have cur := (h [] List.nil_prefix).cur
    rw [run, (first_eq prevAc data kind).1] at cur
    have count : (UInt8.ofNat ((hdr.bytes ++ data).length - 5)).toNat =
        min data.length hdr.p3.toNat := cur
    rw [List.length_append, TpduHdr.bytes_length, Nat.add_sub_cancel_left,
      UInt8.toNat_ofNat'] at count
    omega
  · intro fits
    exact Always.of_keeps (Inv hdr.p3) (fun _ chunk h _ => h.more chunk) (fun _ h => h.toRight)
      (Inv.first prevAc data kind fits) (meets_true _ chunks)

/-- A SELECT whose two bytes come in two pieces, the second of which carries one too many. -/
theorem split_select_collects :
    let select : TpduHdr := ⟨0xa0, 0xa4, 0, 0, 2⟩
    Always (more fun _ => 3) (Right 2) (first (fun _ => 3) .zero .zero (select.bytes ++ [0x3f]))
      [[0, 0xff]] :=
  (collects_iff (fun _ => 3) .zero .zero ⟨0xa0, 0xa4, 0, 0, 2⟩ [0x3f] [[0, 0xff]] (Or.inl rfl)).mpr
    (Or.inl (by decide))

/-- One byte too many in the first buffer: it is copied too, and more are waited for. -/
theorem long_first_buffer :
    let select : TpduHdr := ⟨0xa0, 0xa4, 0, 0, 2⟩
    let s := first (fun _ => 3) .zero .zero (select.bytes ++ [0x3f, 0, 0xff])
    s.action = some .rxMoreCapduFromReader ∧ s.copied = 3 ∧
      ¬Always (more fun _ => 3) (Right 2) s [] := by
  refine ⟨rfl, rfl, fun h => ?_⟩
  exact absurd (h [] List.nil_prefix).cur (by decide)

end Collecting
end Simtrace2
