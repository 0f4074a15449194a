import Simtrace2.Host.Segments

/-! A command that the card has refused with SW 6CXX comes again with P3 = XX. What
`osmo_apdu_segment_in2` makes of it, against the reading of the command by itself. -/
namespace Simtrace2
open Lib

/-- `osmo_apdu_segment_in`: `osmo_apdu_segment_in2` without a previous context. -/
def osmoApduSegmentIn (osimDetermineApduCase : TpduHdr → UInt8) (ac : OsmoApduContext)
    (apduBuf : List UInt8) (newApdu : Bool) : OsmoApduContext × Option OsmoApduAction :=
  if newApdu then
    let hdr := OsmoApduContext.readHdr apduBuf
    let ac := { OsmoApduContext.zero with hdr, apduCase := osimDetermineApduCase hdr }
    match ac.startApdu apduBuf with
    | none => (ac, none)
    | some ac => (ac, ac.decision)
  else
    match ac.moreDc apduBuf with
    | none => (ac, none)
    | some ac => (ac, ac.decision)

namespace OsmoApduContext

/-- `hdr` is the command of `ac` again, which ended with SW 6CXX, and asks for XX bytes. -/
structure Reissued (ac : OsmoApduContext) (hdr : TpduHdr) : Prop where
  apduCase : ac.apduCase = 1 ∨ ac.apduCase = 2 ∨ ac.apduCase = 3
  sw : ac.sw.1 = 0x6c
  cla : hdr.cla = ac.hdr.cla
  ins : hdr.ins = ac.hdr.ins
  p1 : hdr.p1 = ac.hdr.p1
  p2 : hdr.p2 = ac.hdr.p2
  p3 : hdr.p3 = ac.sw.2

/-- A command that has come again is sent at once as one that asks for XX bytes; any other
one is read as if it stood alone. -/
structure ReissueRight (osimDetermineApduCase : TpduHdr → UInt8) (ac prevAc : OsmoApduContext)
    (apduBuf : List UInt8) : Prop where
  again : ac.Reissued (readHdr apduBuf) →
    (osmoApduSegmentIn2 osimDetermineApduCase ac prevAc apduBuf true).2.2 = some .txCapduToCard ∧
      (osmoApduSegmentIn2 osimDetermineApduCase ac prevAc apduBuf true).1.lc.tot = 0 ∧
      (osmoApduSegmentIn2 osimDetermineApduCase ac prevAc apduBuf true).1.le.tot = ac.sw.2
  other : ¬ac.Reissued (readHdr apduBuf) →
    ((osmoApduSegmentIn2 osimDetermineApduCase ac prevAc apduBuf true).1,
        (osmoApduSegmentIn2 osimDetermineApduCase ac prevAc apduBuf true).2.2) =
      osmoApduSegmentIn osimDetermineApduCase ac apduBuf true

/-- What the source compares, for a header just read. -/
def again (ac : OsmoApduContext) (hdr : TpduHdr) : Bool := { zero with hdr }.repeats ac

/-- The case of the refused command, which is kept, is the right one: 2 where XX bytes are
asked for, unless nothing is asked for; else the one the profile gives. -/
def KeptCaseRight (osimDetermineApduCase : TpduHdr → UInt8) (ac : OsmoApduContext)
    (apduBuf : List UInt8) : Prop :=
  let hdr := readHdr apduBuf
  ac.again hdr = true →
    (hdr.p3 = ac.sw.2 → ac.apduCase = 2 ∨
      hdr.p3 = 0 ∧ (ac.apduCase = 1 ∨ (apduBuf.length - 5) % 256 = 0)) ∧
    (hdr.p3 ≠ ac.sw.2 → osimDetermineApduCase hdr = ac.apduCase)

/-- Both switches, for a new command whose header and case are set. -/
def started (new : OsmoApduContext) (apduBuf : List UInt8) :
    OsmoApduContext × Option OsmoApduAction :=
  match new.startApdu apduBuf with
  | none => (new, none)
  | some ac => (ac, ac.decision)

/-- A new command that is read as one of the given case. -/
def readAs (apduCase : UInt8) (apduBuf : List UInt8) : OsmoApduContext × Option OsmoApduAction :=
  started { zero with hdr := readHdr apduBuf, apduCase } apduBuf

variable {osimDetermineApduCase : TpduHdr → UInt8} {ac prevAc : OsmoApduContext}
  {apduBuf : List UInt8}

theorem again_iff {hdr : TpduHdr} : ac.again hdr = true ↔
    (ac.apduCase = 1 ∨ ac.apduCase = 2 ∨ ac.apduCase = 3) ∧ ac.sw.1 = 0x6c ∧
      hdr.cla = ac.hdr.cla ∧ hdr.ins = ac.hdr.ins ∧ hdr.p1 = ac.hdr.p1 ∧ hdr.p2 = ac.hdr.p2 := by
  have cases123 : (1 ≤ ac.apduCase ∧ ac.apduCase < 4) ↔
      (ac.apduCase = 1 ∨ ac.apduCase = 2 ∨ ac.apduCase = 3) := by
    rw [UInt8.le_iff_toNat_le, UInt8.lt_iff_toNat_lt, ← UInt8.toNat_inj, ← UInt8.toNat_inj,
      ← UInt8.toNat_inj]
    show (1 ≤ ac.apduCase.toNat ∧ ac.apduCase.toNat < 4) ↔
      (ac.apduCase.toNat = 1 ∨ ac.apduCase.toNat = 2 ∨ ac.apduCase.toNat = 3)
    omega
  simp only [again, repeats, Bool.and_eq_true, beq_iff_eq, decide_eq_true_iff, ← cases123]
  tauto

theorem reissued_iff {hdr : TpduHdr} :
    ac.Reissued hdr ↔ ac.again hdr = true ∧ hdr.p3 = ac.sw.2 := by
  rw [again_iff]
  constructor
  · intro h
    exact ⟨⟨h.apduCase, h.sw, h.cla, h.ins, h.p1, h.p2⟩, h.p3⟩
  · rintro ⟨⟨apduCase, sw, cla, ins, p1, p2⟩, p3⟩
    exact ⟨apduCase, sw, cla, ins, p1, p2, p3⟩

/-- The previous context decides nothing but the case. -/
theorem segmentIn2_new : osmoApduSegmentIn2 osimDetermineApduCase ac prevAc apduBuf true =
    ((readAs (classOf osimDetermineApduCase ac (readHdr apduBuf)) apduBuf).1, ac,
      (readAs (classOf osimDetermineApduCase ac (readHdr apduBuf)) apduBuf).2) := by
  have start : (let new := { zero with
          hdr := readHdr apduBuf, apduCase := osimDetermineApduCase (readHdr apduBuf) }
        if new.repeats ac then { new with apduCase := ac.apduCase } else new) =
      { zero with
        hdr := readHdr apduBuf
        apduCase := classOf osimDetermineApduCase ac (readHdr apduBuf) } := by
    simp only [classOf]
    split <;> rfl
  simp only [osmoApduSegmentIn2, if_true, readAs, started] at start ⊢
  rw [start]
  generalize { zero with
    hdr := readHdr apduBuf
    apduCase := classOf osimDetermineApduCase ac (readHdr apduBuf) } = new
  cases new.startApdu apduBuf with
  | none => rfl
  | some ac => rfl

theorem classOf_again (hdr : TpduHdr) : classOf osimDetermineApduCase ac hdr =
    if ac.again hdr then ac.apduCase else osimDetermineApduCase hdr := rfl

theorem readAs_one : (readAs 1 apduBuf).2 = some .txCapduToCard ∧
    (readAs 1 apduBuf).1.lc.tot = 0 ∧ (readAs 1 apduBuf).1.le.tot = 0 := ⟨rfl, rfl, rfl⟩

theorem readAs_two : (readAs 2 apduBuf).2 = some .txCapduToCard ∧
    (readAs 2 apduBuf).1.lc.tot = 0 ∧ (readAs 2 apduBuf).1.le.tot = (readHdr apduBuf).p3 :=
  ⟨rfl, rfl, rfl⟩

theorem readAs_three : (readAs 3 apduBuf).2 =
      some (if (readHdr apduBuf).p3 = UInt8.ofNat (apduBuf.length - 5) then .txCapduToCard
        else .rxMoreCapduFromReader) ∧
    (readAs 3 apduBuf).1.lc.tot = (readHdr apduBuf).p3 ∧ (readAs 3 apduBuf).1.le.tot = 0 := by
  refine ⟨?_, rfl, rfl⟩
  have data : (startDc { zero with hdr := readHdr apduBuf, apduCase := 3 } apduBuf).apduCase = 3 := rfl
  exact decision_data (Or.inl data)

theorem startApdu_apduCase {new started : OsmoApduContext}
    (done : new.startApdu apduBuf = some started) : started.apduCase = new.apduCase := by
  unfold startApdu at done
  split at done
  · cases done
    rfl
  · split at done
    · cases done
      rfl
    · split at done
      · cases done
        rfl
      · cases done

theorem started_apduCase (new : OsmoApduContext) :
    (started new apduBuf).1.apduCase = new.apduCase := by
  unfold started
  cases done : new.startApdu apduBuf with
  | none => rfl
  | some ac => exact startApdu_apduCase done

/-- Commands read as different cases leave different contexts. -/
theorem readAs_inj {a b : UInt8} : readAs a apduBuf = readAs b apduBuf ↔ b = a := by
  have kept : ∀ c, (readAs c apduBuf).1.apduCase = c := fun c => started_apduCase _
  constructor
  · intro same
    rw [← kept a, ← kept b, same]
  · rintro rfl
    rfl

theorem readAs_right {apduCase xx : UInt8} (kind : apduCase = 1 ∨ apduCase = 2 ∨ apduCase = 3)
    (p3 : (readHdr apduBuf).p3 = xx) :
    ((readAs apduCase apduBuf).2 = some .txCapduToCard ∧ (readAs apduCase apduBuf).1.lc.tot = 0 ∧
        (readAs apduCase apduBuf).1.le.tot = xx) ↔
      apduCase = 2 ∨
        (readHdr apduBuf).p3 = 0 ∧ (apduCase = 1 ∨ (apduBuf.length - 5) % 256 = 0) := by
  subst p3
  rcases kind with rfl | rfl | rfl
  · rw [readAs_one.1, readAs_one.2.1, readAs_one.2.2]
    simp [eq_comm]
  · rw [readAs_two.1, readAs_two.2.1, readAs_two.2.2]
    simp
  · have none : UInt8.ofNat (apduBuf.length - 5) = 0 ↔ (apduBuf.length - 5) % 256 = 0 := by
      rw [← UInt8.toNat_inj, UInt8.toNat_ofNat']
      rfl
    rw [readAs_three.1, readAs_three.2.1, readAs_three.2.2, ← none]
    constructor
    · rintro ⟨sent, p3, _⟩
      rw [p3] at sent ⊢
      refine Or.inr ⟨rfl, Or.inr ?_⟩
      by_contra some
      rw [if_neg (Ne.symm some)] at sent
      cases sent
    · rintro (two | ⟨p3, one | length⟩)
      · exact absurd two (by decide)
      · exact absurd one (by decide)
      · rw [p3, length]
        exact ⟨rfl, rfl, rfl⟩

end OsmoApduContext

open OsmoApduContext

/-- Of two commands in a row the second is read rightly exactly when the case that is kept
from the first is the right one for it. -/
theorem reissue_read_right (osimDetermineApduCase : TpduHdr → UInt8) (ac prevAc : OsmoApduContext)
    (apduBuf : List UInt8) :
    ReissueRight osimDetermineApduCase ac prevAc apduBuf ↔
      KeptCaseRight osimDetermineApduCase ac apduBuf := by
  have split : ReissueRight osimDetermineApduCase ac prevAc apduBuf ↔
      (ac.Reissued (readHdr apduBuf) →
        (readAs (classOf osimDetermineApduCase ac (readHdr apduBuf)) apduBuf).2 =
            some .txCapduToCard ∧
          (readAs (classOf osimDetermineApduCase ac (readHdr apduBuf)) apduBuf).1.lc.tot = 0 ∧
          (readAs (classOf osimDetermineApduCase ac (readHdr apduBuf)) apduBuf).1.le.tot =
            ac.sw.2) ∧
      (¬ac.Reissued (readHdr apduBuf) →
        readAs (classOf osimDetermineApduCase ac (readHdr apduBuf)) apduBuf =
          readAs (osimDetermineApduCase (readHdr apduBuf)) apduBuf) := by
    constructor
    · intro h
      have again := h.again
      have other := h.other
      rw [segmentIn2_new] at again other
      exact ⟨again, other⟩
    · rintro ⟨again, other⟩
      constructor
      · rw [segmentIn2_new]
        exact again
      · rw [segmentIn2_new]
        exact other
  rw [split, KeptCaseRight, reissued_iff, classOf_again]
  by_cases same : ac.again (readHdr apduBuf) = true
  · rw [if_pos same, readAs_inj]
    by_cases p3 : (readHdr apduBuf).p3 = ac.sw.2
    · have kind := (again_iff.mp same).1
      rw [readAs_right kind p3]
      simp [same, p3]
    · simp [same, p3]
  · rw [if_neg same]
    simp [same]

/-- A command of case 1 is sent again without asking for the sixteen bytes, and GET DATA
with five bytes of data, after one with Le of the same tag, is taken for one with Le. -/
theorem reissue_read_wrongly :
    (let osimDetermineApduCase : TpduHdr → UInt8 := fun hdr =>
        if hdr.ins = 0x44 then 1 else if hdr.ins = 0xca ∧ hdr.p3 ≠ 0 then 4 else 2
      let call := fun apduBuf =>
        (osmoApduSegmentIn2 osimDetermineApduCase .zero .zero apduBuf true).1
      ¬ReissueRight osimDetermineApduCase
          { call [0x00, 0x44, 0x00, 0x00, 0x00] with sw := (0x6c, 0x10) } .zero
          [0x00, 0x44, 0x00, 0x00, 0x10] ∧
        ¬ReissueRight osimDetermineApduCase
          { call [0x80, 0xca, 0x00, 0x5a, 0x00] with sw := (0x6c, 0x23) } .zero
          [0x80, 0xca, 0x00, 0x5a, 0x05]) := by
  intro osimDetermineApduCase call
  constructor
  · intro h
    have asked := (h.again ⟨Or.inl rfl, rfl, rfl, rfl, rfl, rfl, rfl⟩).2.2
    exact absurd asked (by decide +kernel)
  · intro h
    have read := h.other (fun again => absurd again.p3 (by decide +kernel))
    have kind := congrArg (fun r => r.1.apduCase) read
    exact absurd kind (by decide +kernel)

end Simtrace2
