import Simtrace2.Sniffer.Pps

/-! What the sniffer makes of a PPS request and its response: the messages, the ratio of
the USART and the waiting time. -/
namespace Simtrace2
open Lib Sniffer

/-- A PPS message on the line, with the parameter bytes that its PPS0 announces. -/
structure IsPps (m : List UInt8) : Prop where
  ppss : m.getD 0 0 = 0xff
  length : m.length = ppsLength (m.getD 1 0)

/-- What a response negotiates: its PPS1, or else the default. -/
def negotiatedFidi (rsp : List UInt8) : UInt8 :=
  if hasBit (rsp.getD 1 0) 0x10 then rsp.getD 2 0 else 0x11

/-- D of a Fi/Di value, where the table has one. -/
def fidiD (fidi : UInt8) : Option Nat := (iso78163DiTable[fidi.toNat % 16]?).filter (· ≠ 0)

/-- A request and its response are reported as they were on the line. After a good response
the USART, the report and the waiting time have the value that it negotiates (a reserved
one gives no ratio, and no D); after another nothing has changed. -/
structure TakesEffect (s s' : Sniffer) (req rsp : List UInt8) : Prop where
  state : s'.isoState = .waitTpdu
  sent : s'.sent = s.sent ++
    [.data .pps 0 req, .data .pps (if xorAll rsp = 0 then 0 else sniffDataFlagErrorChecksum) rsp] ++
    if xorAll rsp = 0 then [.fidi (negotiatedFidi rsp)] else []
  fidi : s'.fidi = if xorAll rsp = 0 then
      usFidiRatio ((negotiatedFidi rsp).toNat / 16) ((negotiatedFidi rsp).toNat % 16) <|> s.fidi
    else s.fidi
  d : s'.wt.d = if xorAll rsp = 0 then (fidiD (negotiatedFidi rsp)).getD s.wt.d else s.wt.d
  gWt : s'.wt.gWt = if xorAll rsp = 0 then s.wt.wi.toNat * 960 * s'.wt.d else s.wt.gWt

variable {s : Sniffer} {l : Listener} {ratio : Option Nat} {req rsp : List UInt8}

theorem fidiD_getD (fidi : UInt8) (d : Nat) : (fidiD fidi).getD d =
    if (iso78163DiTable[fidi.toNat % 16]?).getD 0 ≠ 0 then (iso78163DiTable[fidi.toNat % 16]?).getD 0
    else d := by
  unfold fidiD
  cases entry : iso78163DiTable[fidi.toNat % 16]? with
  | none => rfl
  | some e => by_cases zero : e = 0 <;> simp [Option.filter, zero]

/-- The D of a response is right, with PPS1 or without. -/
theorem ppsD_eq (rsp : List UInt8) :
    ppsD rsp = (iso78163DiTable[(negotiatedFidi rsp).toNat % 16]?).getD 0 := by
  unfold ppsD negotiatedFidi ppsFidi
  split <;> rfl

/-- Without PPS1 it is PPS0 that is taken for Fi/Di, and that is never the default. -/
theorem ppsFidi_eq_iff (rsp : List UInt8) :
    ppsFidi rsp = negotiatedFidi rsp ↔ hasBit (rsp.getD 1 0) 0x10 = true := by
  unfold ppsFidi negotiatedFidi
  split
  · rename_i announced
    exact iff_of_true rfl announced
  · rename_i absent
    constructor
    · intro same
      rw [same] at absent
      exact absurd rfl absent
    · intro announced
      exact absurd announced absent

namespace Tuned

theorem request (h : Tuned s l ratio) (phase : l.phase = .waitTpdu) (pps : IsPps req)
    (pck : xorAll req = 0) :
    Tuned (req.foldl hears s) ((l.submit (.data .pps 0 req)).goto .waitPpsRsp) ratio := by
  have heard := h.message (.inl ⟨phase, rfl⟩) pps.ppss pps.length
  have asked : l.finishPps false req = (l.submit (.data .pps 0 req)).goto .waitPpsRsp := by
    simp [Listener.finishPps, pck]
  have still : retuned false req ratio = ratio := by simp [retuned]
  rwa [asked, still] at heard

/-- What the two messages leave, of what the sniffer had. -/
theorem exchanged (h : Tuned s l ratio) (phase : l.phase = .waitTpdu)
    (granted : ∀ n, l.alloc n = true) (request : IsPps req) (pck : xorAll req = 0)
    (response : IsPps rsp) :
    let s' := (req ++ rsp).foldl hears s
    s'.isoState = .waitTpdu ∧ s'.fidi = retuned true rsp ratio ∧
      s'.wt = (if xorAll rsp = 0 then s.wt.update 0 (ppsD rsp) else s.wt) ∧
      s'.sent = s.sent ++
        [.data .pps 0 req, .data .pps (if xorAll rsp = 0 then 0 else sniffDataFlagErrorChecksum) rsp] ++
        if xorAll rsp = 0 then [.fidi (ppsFidi rsp)] else [] := by
  intro s'
  have heard := (h.request phase request pck).message (.inr ⟨rfl, rfl⟩) response.ppss response.length
  rw [← List.foldl_append] at heard
  have iso : s'.isoState = _ := heard.follows.iso
  have wt : s'.wt = _ := heard.follows.wt
  have sent : s'.sent = _ := heard.follows.sent
  rw [iso, heard.ratio, wt, sent, h.follows.wt, h.follows.sent]
  refine ⟨?_, rfl, ?_, ?_⟩
  all_goals
    by_cases good : xorAll rsp = 0 <;>
      simp [Listener.finishPps, Listener.agree, Listener.submit, Listener.goto, SniffWt.update,
        Phase.iso, granted, good]

end Tuned

/-- From every reachable state that waits for a TPDU: a PPS takes effect exactly when its
response carries PPS1, or has a wrong PCK. -/
theorem takesEffect_iff (alloc : Nat → Bool) (inputs : List SniffInput) (req rsp : List UInt8)
    (st : (run Sniffer.step (.init alloc) inputs).isoState = .waitTpdu)
    (quiet : (run Sniffer.step (.init alloc) inputs).Quiet)
    (granted : ∀ n, (run Sniffer.step (.init alloc) inputs).alloc n = true)
    (request : IsPps req) (pck : xorAll req = 0) (response : IsPps rsp) :
    let s := run Sniffer.step (.init alloc) inputs
    TakesEffect s ((req ++ rsp).foldl hears s) req rsp ↔
      xorAll rsp ≠ 0 ∨ hasBit (rsp.getD 1 0) 0x10 = true := by
  intro s
  have follows := follows_run alloc inputs
  have phase : (run Listener.step (.init alloc) inputs).phase = .waitTpdu := by
    have iso := follows.iso.symm.trans st
    exact (Phase.of_iso _).2.1 iso
  have pool : ∀ n, (run Listener.step (.init alloc) inputs).alloc n = true := by
    intro n
    rw [← granted n, ← show s.common.alloc = s.alloc from rfl, follows.1]
  have tuned : Tuned s (run Listener.step (.init alloc) inputs) s.fidi := ⟨quiet, follows, rfl⟩
  obtain ⟨state, fidi, wt, sent⟩ := tuned.exchanged phase pool request pck response
  constructor
  · intro h
    by_cases good : xorAll rsp = 0
    · have same := h.sent.symm.trans sent
      simp only [if_pos good, List.append_cancel_left_eq, List.cons.injEq, SniffMsg.fidi.injEq,
        and_true] at same
      exact .inr ((ppsFidi_eq_iff rsp).mp same.symm)
    · exact .inl good
  · intro right
    refine ⟨state, ?_, ?_, ?_, ?_⟩
    · rw [sent]
      by_cases good : xorAll rsp = 0
      · rw [(ppsFidi_eq_iff rsp).mpr (right.resolve_left (not_not.mpr good))]
      · rw [if_neg good, if_neg good, if_neg good]
    · rw [fidi, retuned]
      by_cases good : xorAll rsp = 0
      · rw [if_pos ⟨rfl, good⟩, if_pos good,
          (ppsFidi_eq_iff rsp).mpr (right.resolve_left (not_not.mpr good))]
      · rw [if_neg (fun both => good both.2), if_neg good]
    · rw [wt]
      split
      · rw [fidiD_getD, ← ppsD_eq]
        rfl
      · rfl
    · rw [wt]
      split
      · rfl
      · rfl

/-- A PPS with F = 9 and D = 4. -/
theorem pps1_takesEffect :
    let s := run Sniffer.step (.init fun _ => true) shortestAtr
    let m : List UInt8 := [0xff, 0x10, 0x94, 0x7b]
    TakesEffect s ((m ++ m).foldl hears s) m m :=
  (takesEffect_iff (fun _ => true) shortestAtr [0xff, 0x10, 0x94, 0x7b] [0xff, 0x10, 0x94, 0x7b]
    (by decide +kernel) ⟨by decide +kernel, by decide +kernel⟩ (fun _ => rfl)
    ⟨by decide, by decide⟩ (by decide) ⟨by decide, by decide⟩).mpr (.inr (by decide))

/-- A PPS without parameters: the sniffer takes PPS0 for Fi/Di. -/
theorem absent_pps1_misread :
    let s := run Sniffer.step (.init fun _ => true) shortestAtr
    let m : List UInt8 := [0xff, 0x02, 0xfd]
    ((m ++ m).foldl hears s).fidi = some 186 ∧
      ¬TakesEffect s ((m ++ m).foldl hears s) m m := by
  refine ⟨by decide +kernel, fun h => ?_⟩
  exact absurd h.fidi (by decide +kernel)

end Simtrace2
