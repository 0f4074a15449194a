import Simtrace2.Sniffer.Listener

/-! The sniffer refines the listener: with the same past the two are in the same phase,
hold the same bytes and have submitted the same messages. -/
namespace Simtrace2
open Lib Sniffer

def followers (y : UInt8) (histLen : Nat) : AtrSniffState → List AtrSniffState
  | .waitTa => fromTb y histLen
  | .waitTb => fromTc y histLen
  | .waitTc => fromTd y histLen
  | .waitTd => List.replicate histLen .waitHist
  | .waitHist => List.replicate (histLen - 1) .waitHist
  | .waitTs | .waitT0 | .waitTck => []

def Filled : TpduSniffState → Nat → Prop
  | .cla, _ => False
  | .ins, n => n = 1
  | .p1, n => n = 2
  | .p2, n => n = 3
  | .p3, n => n = 4
  | .procedure, n | .dataRemaining, n | .dataSingle, n | .sw1, n | .sw2, n => 5 ≤ n

/-- The slot of PPS1 holds PPS0 where there is no PPS1. -/
def FidiSlot (cur : Buffer maxPpsSize) : Prop := hasBit (cur.get 1) 0x10 ∨ cur.get 2 = cur.get 1

def PpsPlace (cur : Buffer maxPpsSize) : PpsSniffState → Prop
  | .waitPpss | .waitEnd => False
  | .waitPps0 => True
  | .waitPps1 => hasBit (cur.get 1) 0x10
  | .waitPps2 => FidiSlot cur ∧ hasBit (cur.get 1) 0x20
  | .waitPps3 => FidiSlot cur ∧ hasBit (cur.get 1) 0x40
  | .waitPck => FidiSlot cur

def ppsIso (rsp : Bool) : SniffState := if rsp then .inPpsRsp else .inPpsReq

namespace Sniffer

def common (s : Sniffer) : Common :=
  { convert := s.conventionConvert, wt := s.wt, changeFlags := s.changeFlags
    ring := s.sniffBuffer, alloc := s.alloc, asked := s.asked, sent := s.sent }

end Sniffer

structure AtrHeld (s : Sniffer) (a : AtrReading) : Prop where
  iso : s.isoState = .inAtr
  state : s.gAtr.state = a.place
  count : s.gAtr.atrI = a.got.length
  held : s.gAtr.atr.upTo a.got.length = a.got
  fits : a.got.length ≤ maxAtrSize
  flags : s.gAtr.flags = 0
  support : s.tProtocolSupport = a.support
  group : s.gAtr.i = a.group

structure PpsHeld (s : Sniffer) (rsp : Bool) (got : List UInt8) : Prop where
  iso : s.isoState = ppsIso rsp
  flags : s.gPps.flags = 0
  place : PpsPlace s.ppsCur s.gPps.state
  seen : ppsSeen s.gPps.state s.ppsCur = got

def Phase.Held (s : Sniffer) : Phase → Prop
  | .reset => s.isoState = .reset
  | .waitAtr => s.isoState = .waitAtr
  | .gotTs ts => AtrHeld s ⟨[ts], .waitT0, [], 0, 0⟩
  | .inAtr a => AtrHeld s a ∧ a.place ≠ .waitTs ∧ a.place ≠ .waitT0 ∧
      a.behind = followers s.gAtr.y s.gAtr.histLen a.place
  | .waitTpdu => s.isoState = .waitTpdu ∧ s.gTpdu.state = .cla ∧ s.gTpdu.packetI = 0
  | .inTpdu st got => s.isoState = .inTpdu ∧ Holds s.gTpdu st got ∧ Filled st got.length
  | .inPps rsp got => PpsHeld s rsp got
  | .waitPpsRsp => s.isoState = .waitPpsRsp

def Phase.iso : Phase → SniffState
  | .reset => .reset
  | .waitAtr => .waitAtr
  | .gotTs _ | .inAtr _ => .inAtr
  | .waitTpdu => .waitTpdu
  | .inTpdu _ _ => .inTpdu
  | .inPps rsp _ => ppsIso rsp
  | .waitPpsRsp => .waitPpsRsp

/-- The ISO state tells the phase where only one is in it, and in the ATR leaves two. -/
theorem Phase.of_iso (p : Phase) :
    (p.iso = .waitAtr → p = .waitAtr) ∧ (p.iso = .waitTpdu → p = .waitTpdu) ∧
      (p.iso = .inAtr → (∃ ts, p = .gotTs ts) ∨ ∃ a, p = .inAtr a) := by
  cases p with
  | inPps rsp got => cases rsp <;> simp [Phase.iso, ppsIso]
  | _ => simp [Phase.iso]

def Follows (s : Sniffer) (l : Listener) : Prop := s.common = l.toCommon ∧ l.phase.Held s

section
variable {s : Sniffer} {l : Listener}

theorem Follows.iso (h : Follows s l) : s.isoState = l.phase.iso := by
  obtain ⟨-, held⟩ := h
  cases phase : l.phase <;> rw [phase] at held
  · exact held
  · exact held
  · exact AtrHeld.iso held
  · exact held.1.iso
  · exact held.1
  · exact held.1
  · exact PpsHeld.iso held
  · exact held

theorem common_submit (h : s.common = l.toCommon) (msg : SniffMsg) :
    (s.usbMsgSubmit msg).common = (l.submit msg).toCommon := by
  rw [Listener.submit, ← h]
  rfl

theorem changeState_ne {st : SniffState} (other : s.isoState ≠ st) :
    s.changeState st = { s.enterState st with isoState := st } := by
  rw [changeState, if_neg other.symm]

theorem updateFidi_common (fidi : UInt8) : (s.updateFidi fidi).common = s.common := by
  unfold updateFidi
  split
  · split <;> rfl
  · rfl

theorem enter_waitTpdu (h : s.common = l.toCommon) (other : s.isoState ≠ .waitTpdu) :
    Follows (s.changeState .waitTpdu) (l.goto .waitTpdu) := by
  rw [changeState_ne other]
  exact ⟨h, rfl, rfl, rfl⟩

theorem enter_waitAtr (h : s.common = l.toCommon) (other : s.isoState ≠ .waitAtr) :
    Follows (s.changeState .waitAtr) l.waitAtr := by
  rw [changeState_ne other]
  refine ⟨?_, rfl⟩
  rw [Listener.waitAtr, ← h]
  rfl

namespace AtrHeld
variable {a : AtrReading}

theorem save (h : AtrHeld s a) (room : a.got.length < maxAtrSize) (byte : UInt8) :
    AtrHeld (s.atrSave byte) { a with got := a.got ++ [byte] } := by
  refine ⟨h.iso, h.state, ?_, ?_, ?_, h.flags, h.support, h.group⟩
  · simp [atrSave, h.count]
  · simp only [atrSave]
    rw [h.count, List.length_append, List.length_singleton, Buffer.upTo_put _ room, h.held]
  · rw [List.length_append]
    exact room

theorem send (h : AtrHeld s a) (common : s.common = l.toCommon) (error flags : UInt32) :
    ({ s with gAtr.flags := error }.usbSendAtr flags).common =
      (l.submit (.data .atr flags a.got)).toCommon := by
  have small : ¬ maxAtrSize < s.gAtr.atrI := by
    rw [h.count]
    exact Nat.not_lt.mpr h.fits
  rw [usbSendAtr, if_neg (by simp [h.iso]), if_neg small, h.count, h.held]
  exact common_submit common _

theorem usbSendAtr_iso (flags : UInt32) : (s.usbSendAtr flags).isoState = s.isoState := by
  unfold usbSendAtr
  split_ifs <;> rfl

theorem checksum (h : AtrHeld s a) : s.atrChecksum = xorAll (a.got.drop 1) := by
  rw [atrChecksum, h.count, h.held]
  rfl

theorem finish (h : AtrHeld s a) (common : s.common = l.toCommon) :
    Follows s.atrWaitTck (l.finishAtr a) := by
  have leaves (error flags : UInt32) :
      Follows (({ s with gAtr.flags := error }.usbSendAtr flags).changeState .waitTpdu)
        ((l.submit (.data .atr flags a.got)).goto .waitTpdu) := by
    apply enter_waitTpdu (h.send common error flags)
    rw [usbSendAtr_iso]
    simp [h.iso]
  have damaged : (s.gAtr.state = .waitTck ∧ s.atrChecksum ≠ 0) ↔
      a.place = .waitTck ∧ xorAll (a.got.drop 1) ≠ 0 := by rw [h.state, h.checksum]
  have error : s.gAtr.flags ||| sniffDataFlagErrorChecksum = sniffDataFlagErrorChecksum := by
    rw [h.flags]
    decide
  simp only [atrWaitTck, Listener.finishAtr, damaged]
  split
  · rw [error]
    exact leaves _ _
  · rw [h.flags]
    exact leaves s.gAtr.flags 0

theorem goto (h : AtrHeld s a) (common : s.common = l.toCommon) (place : AtrSniffState)
    {behind : List AtrSniffState} (known : place ≠ .waitTs ∧ place ≠ .waitT0)
    (same : behind = followers s.gAtr.y s.gAtr.histLen place) :
    Follows (s.setAtrState place) (l.goto (.inAtr { a with place, behind })) :=
  ⟨common, ⟨h.iso, rfl, h.count, h.held, h.fits, h.flags, h.support, h.group⟩, known.1, known.2,
    same⟩

theorem afterHist (h : AtrHeld s a) (common : s.common = l.toCommon) (place : a.place ≠ .waitTck)
    (behind : a.behind = []) : Follows s.atrAfterHist (l.advance a) := by
  rw [atrAfterHist, Listener.advance, behind, h.support]
  simp only [ne_eq, place, not_false_eq_true, and_true]
  split
  · have waits := h.goto common .waitTck (by decide) rfl
    simpa [followers, behind] using waits
  · exact h.finish common

theorem waitHist (h : AtrHeld s a) (common : s.common = l.toCommon) (place : a.place ≠ .waitTck)
    (inHist : s.gAtr.histLen - 1 ≠ 0 → a.place = .waitHist)
    (behind : a.behind = List.replicate (s.gAtr.histLen - 1) .waitHist) :
    Follows s.atrWaitHist (l.advance a) := by
  have counted : AtrHeld { s with gAtr.histLen := s.gAtr.histLen - 1 } a :=
    ⟨h.iso, h.state, h.count, h.held, h.fits, h.flags, h.support, h.group⟩
  simp only [atrWaitHist]
  split
  · rename_i last
    rw [last] at behind
    exact counted.afterHist common place behind
  · rename_i more
    have stays := counted.goto (l := l) common .waitHist (by decide) rfl
    have same : { s with gAtr.histLen := s.gAtr.histLen - 1 }.setAtrState .waitHist =
        { s with gAtr.histLen := s.gAtr.histLen - 1 } := by
      rw [← inHist more, ← h.state]
      rfl
    obtain ⟨n, hn⟩ := Nat.exists_eq_succ_of_ne_zero more
    rw [same] at stays
    rw [Listener.advance, behind, hn, List.replicate_succ]
    simpa [followers, hn] using stays

theorem afterTc (h : AtrHeld s a) (common : s.common = l.toCommon) (place : a.place ≠ .waitTck)
    (behind : a.behind = fromTd s.gAtr.y s.gAtr.histLen) : Follows s.atrAfterTc (l.advance a) := by
  rw [atrAfterTc, fromTd, optional] at *
  split
  · rename_i announced
    rw [Listener.advance, behind, if_pos announced]
    exact h.goto common _ (by decide) rfl
  · rename_i absent
    rw [if_neg absent, List.nil_append] at behind
    split
    · rename_i some
      obtain ⟨n, hn⟩ := Nat.exists_eq_succ_of_ne_zero some
      rw [Listener.advance, behind, hn, List.replicate_succ]
      exact h.goto common _ (by decide) (by simp [followers, hn])
    · rename_i none
      have none : s.gAtr.histLen = 0 := by simpa using none
      rw [none] at behind
      exact h.waitHist common place (by simp [none]) (by simpa [none] using behind)

/-- An optional byte: waited for where it is announced, else passed over. -/
theorem optional (h : AtrHeld s a) (common : s.common = l.toCommon) {mask : UInt8}
    {waits : AtrSniffState} (known : waits ≠ .waitTs ∧ waits ≠ .waitT0)
    {passed : Sniffer}
    (behind : a.behind = optional s.gAtr.y mask waits ++ followers s.gAtr.y s.gAtr.histLen waits)
    (pass : a.behind = followers s.gAtr.y s.gAtr.histLen waits → Follows passed (l.advance a)) :
    Follows (if hasBit s.gAtr.y mask then s.setAtrState waits else passed) (l.advance a) := by
  rw [Simtrace2.optional] at behind
  split
  · rename_i announced
    rw [Listener.advance, behind, if_pos announced]
    exact h.goto common _ known rfl
  · rename_i absent
    rw [if_neg absent, List.nil_append] at behind
    exact pass behind

theorem passTc (h : AtrHeld s a) (common : s.common = l.toCommon)
    (place : a.place ≠ .waitTck ∧ a.place ≠ .waitTc) (byte : UInt8)
    (behind : a.behind = fromTd s.gAtr.y s.gAtr.histLen) :
    Follows (s.atrWaitTc byte) (l.advance a) := by
  rw [atrWaitTc, if_neg (by simp [h.state, place])]
  exact h.afterTc common place.1 behind

theorem waitTb (h : AtrHeld s a) (common : s.common = l.toCommon)
    (place : a.place ≠ .waitTck ∧ a.place ≠ .waitTc) (byte : UInt8)
    (behind : a.behind = fromTc s.gAtr.y s.gAtr.histLen) :
    Follows (s.atrWaitTb byte) (l.advance a) :=
  h.optional common (by decide) behind (h.passTc common place byte)

theorem waitTa (h : AtrHeld s a) (common : s.common = l.toCommon)
    (place : a.place ≠ .waitTck ∧ a.place ≠ .waitTc) (byte : UInt8)
    (behind : a.behind = fromTb s.gAtr.y s.gAtr.histLen) :
    Follows (s.atrWaitTa byte) (l.advance a) :=
  h.optional common (by decide) behind (h.waitTb common place byte)

/-- After T0 or a TD the places of its group are the places to come. -/
theorem announce (h : AtrHeld s { a with group := s.gAtr.i }) (common : s.common = l.toCommon)
    (place : a.place ≠ .waitTck ∧ a.place ≠ .waitTc) (byte : UInt8) (group : a.group = s.gAtr.i + 1)
    (behind : a.behind = fromTa (byte &&& 0xf0) s.gAtr.histLen) :
    Follows (s.atrAnnounce byte) (l.advance a) := by
  have read : AtrHeld { s with gAtr.y := byte &&& 0xf0, gAtr.i := s.gAtr.i + 1 } a :=
    ⟨h.iso, h.state, h.count, h.held, h.fits, h.flags, h.support, group.symm⟩
  exact read.optional common (by decide) behind (read.waitTa common place byte)

theorem waitTc (h : AtrHeld s a) (common : s.common = l.toCommon) (place : a.place = .waitTc)
    (byte : UInt8) (behind : a.behind = fromTd s.gAtr.y s.gAtr.histLen) :
    Follows (s.atrWaitTc byte)
      (if a.group = 2 then
        { l with wt := l.wt.update (if byte = 0 then 10 else byte) 0 }.advance a
      else l.advance a) := by
  have notTck : a.place ≠ .waitTck := by simp [place]
  rw [atrWaitTc, h.state, h.group]
  simp only [place, true_and]
  split
  · have read : AtrHeld (s.updateWt (if byte = 0 then 10 else byte) 0) a :=
      ⟨h.iso, h.state, h.count, h.held, h.fits, h.flags, h.support, h.group⟩
    apply read.afterTc _ notTck behind
    simp only [← common]
    rfl
  · exact h.afterTc common notTck behind

theorem hear (common : s.common = l.toCommon) (phase : l.phase = .inAtr a)
    (held : Phase.Held s (.inAtr a)) (byte : UInt8) :
    Follows (s.processByteAtr byte) (l.hear byte) := by
  obtain ⟨h, notTs, notT0, behind⟩ := held
  rw [Listener.hear, phase, processByteAtr, if_neg (by simp [h.iso]), h.count, h.state]
  simp only
  split
  · refine ⟨common, ?_⟩
    rw [phase]
    exact ⟨h, notTs, notT0, behind⟩
  · rename_i room
    have read := h.save (Nat.not_le.mp room) byte
    obtain ⟨got, place, places, group, support⟩ := a
    cases place with
    | waitTs => exact absurd rfl notTs
    | waitT0 => exact absurd rfl notT0
    | waitTa => exact read.waitTa common (by simp) byte behind
    | waitTb => exact read.waitTb common (by simp) byte behind
    | waitTc => exact read.waitTc common rfl byte behind
    | waitTd =>
      have behind : places = List.replicate s.gAtr.histLen .waitHist := behind
      have histLen : places.length = s.gAtr.histLen := by simp [behind]
      have next : group + 1 = s.gAtr.i + 1 := congrArg (· + 1) h.group.symm
      have announced : AtrHeld
          { s.atrSave byte with
            tProtocolSupport := s.tProtocolSupport ||| 1 <<< (byte &&& 0x0f).toNat }
          ⟨got ++ [byte], .waitTd, fromTa (byte &&& 0xf0) s.gAtr.histLen, s.gAtr.i,
            support ||| 1 <<< (byte &&& 0x0f).toNat⟩ :=
        ⟨h.iso, h.state, read.count, read.held, read.fits, h.flags, by rw [h.support], rfl⟩
      simp only [Listener.hearAtr, histLen]
      exact AtrHeld.announce (a := ⟨_, _, _, _, _⟩) announced common (by simp) byte next rfl
    | waitHist => exact read.waitHist common (by simp) (fun _ => rfl) behind
    | waitTck =>
      have last : l.hearAtr ⟨got, .waitTck, places, group, support⟩ byte =
          l.finishAtr ⟨got ++ [byte], .waitTck, places, group, support⟩ := by
        have none : places = [] := behind
        simp [Listener.hearAtr, Listener.advance, none]
      rw [last]
      exact read.finish common

theorem hearT0 {ts : UInt8} (common : s.common = l.toCommon) (phase : l.phase = .gotTs ts)
    (h : Phase.Held s (.gotTs ts)) (byte : UInt8) :
    Follows (s.processByteAtr byte) (l.hear byte) := by
  have read := AtrHeld.save h (by simp [maxAtrSize]) byte
  have small : ¬ maxAtrSize ≤ s.gAtr.atrI := by
    rw [h.count]
    simp [maxAtrSize]
  have first : 0 + 1 = s.gAtr.i + 1 := congrArg (· + 1) h.group.symm
  have counted : AtrHeld { s.atrSave byte with gAtr.histLen := (byte &&& 0x0f).toNat }
      ⟨[ts] ++ [byte], .waitT0, fromTa (byte &&& 0xf0) (byte &&& 0x0f).toNat, s.gAtr.i, 0⟩ :=
    ⟨h.iso, h.state, read.count, read.held, read.fits, h.flags, h.support, rfl⟩
  rw [Listener.hear, phase, processByteAtr, if_neg (by simp [h.iso]), if_neg small, h.state]
  exact AtrHeld.announce (a := ⟨_, _, _, _, _⟩) counted common (by simp) byte first rfl

end AtrHeld

theorem hearTs (common : s.common = l.toCommon) (waits : s.isoState = .waitAtr) (byte : UInt8) :
    Follows ((s.changeState .inAtr).processByteAtr byte) (l.hearTs byte) := by
  have entered : s.changeState .inAtr = _ := changeState_ne (by simp [waits])
  have fresh : (s.changeState .inAtr).gAtr.atrI = 0 ∧ (s.changeState .inAtr).isoState = .inAtr ∧
      (s.changeState .inAtr).gAtr.state = .waitTs := by
    rw [entered]
    exact ⟨rfl, rfl, rfl⟩
  have converts : ({ s.changeState .inAtr with conventionConvert := true } : Sniffer).common =
      { l with convert := true }.toCommon ∧
      (s.changeState .inAtr).common = { l with convert := false }.toCommon := by
    rw [entered]
    simp only [← common]
    exact ⟨rfl, rfl⟩
  have read : AtrHeld { (s.changeState .inAtr).atrSave byte with gAtr.flags := 0 }
      ⟨[byte], .waitTs, [], (s.changeState .inAtr).gAtr.i, 0⟩ := by
    refine ⟨fresh.2.1, fresh.2.2, by simp [atrSave, fresh.1], ?_, by simp [maxAtrSize], rfl, ?_, rfl⟩
    · simp only [atrSave, fresh.1, List.length_singleton]
      rw [Buffer.upTo_put _ (by decide), Buffer.upTo_zero, List.nil_append]
    · rw [entered]
      rfl
  have held (convert : Bool) : AtrHeld
      { ({ (s.changeState .inAtr).atrSave byte with
          gAtr.flags := 0, conventionConvert := convert } : Sniffer).setAtrState .waitT0 with
        gAtr.i := 0 } ⟨[byte], .waitT0, [], 0, 0⟩ :=
    ⟨read.iso, rfl, read.count, read.held, read.fits, rfl, read.support, rfl⟩
  have started : (s.changeState .inAtr).conventionConvert = false := by
    rw [entered]
    rfl
  rw [processByteAtr, if_neg (by simp [fresh]), if_neg (by simp [fresh, maxAtrSize]), fresh.2.2,
    atrSwitch, atrWaitTs, Listener.hearTs]
  simp only
  split
  · have toggled : (!((s.changeState .inAtr).atrSave byte).conventionConvert) = true :=
      congrArg not started
    rw [toggled]
    exact ⟨converts.1, held true⟩
  · split
    · have kept := held ((s.changeState .inAtr).conventionConvert)
      exact ⟨converts.2, kept⟩
    · have sent := read.send (l := { l with convert := false }) converts.2 0
        sniffDataFlagErrorMalformed
      have other : ({ (s.changeState .inAtr).atrSave byte with gAtr.flags := 0 }.usbSendAtr
          sniffDataFlagErrorMalformed).isoState ≠ .waitAtr := by
        intro same
        rw [AtrHeld.usbSendAtr_iso] at same
        exact absurd (read.iso.symm.trans same) (by decide)
      have back := enter_waitAtr sent other
      exact ⟨back.1, back.2⟩


/-! TPDUs. -/

theorem send_tpdu {st : TpduSniffState} {got : List UInt8} (common : s.common = l.toCommon)
    (iso : s.isoState = .inTpdu) (h : Holds s.gTpdu st got) (flags : UInt32) :
    Follows ((s.usbSendTpdu flags).changeState .waitTpdu)
      ((l.submit (.data .tpdu flags got)).goto .waitTpdu) := by
  rw [usbSendTpdu, if_neg (by simp [iso]), h.count, h.held]
  apply enter_waitTpdu (common_submit common _)
  simp [usbMsgSubmit, iso]

theorem Holds.getD {g : SniffTpdu} {st : TpduSniffState} {got : List UInt8} (h : Holds g st got)
    {i : Nat} (inside : i < got.length) : g.packet.get i = got.getD i 0 := by
  rw [Buffer.get_of_upTo _ h.held inside]
  simp [inside]

theorem hear_sw1 {st : TpduSniffState} {got : List UInt8} (common : s.common = l.toCommon)
    (iso : s.isoState = .inTpdu) (h : Holds s.gTpdu st got) (room : got.length < maxTpduSize)
    (filled : 5 ≤ got.length) (byte : UInt8) : Follows (s.tpduSw1 byte) (l.hearSw1 got byte) := by
  rw [tpduSw1, Listener.hearSw1]
  split
  · refine ⟨common, iso, (h.put room byte).move .sw2, ?_⟩
    rw [List.length_append]
    exact Nat.le_add_right_of_le filled
  · exact send_tpdu common iso h _

theorem hear_procedure {got : List UInt8} (common : s.common = l.toCommon)
    (phase : l.phase = .inTpdu .procedure got) (iso : s.isoState = .inTpdu)
    (h : Holds s.gTpdu .procedure got) (room : got.length < maxTpduSize)
    (filled : 5 ≤ got.length) (byte : UInt8) :
    Follows (s.tpduProcedure byte) (l.hearProcedure got byte) := by
  have ins : s.gTpdu.packet.get 1 = got.getD 1 0 := h.getD (by omega)
  rw [tpduProcedure, Listener.hearProcedure, ins]
  split_ifs
  · refine ⟨common, ?_⟩
    rw [phase]
    exact ⟨iso, h, filled⟩
  · exact ⟨common, iso, h.move _, filled⟩
  · exact ⟨common, iso, h.move _, filled⟩
  · exact hear_sw1 common iso h room filled byte

theorem hear_data {st : TpduSniffState} {got : List UInt8} (common : s.common = l.toCommon)
    (iso : s.isoState = .inTpdu) (h : Holds s.gTpdu st got) (room : got.length < maxTpduSize)
    (filled : 5 ≤ got.length) (receives : st = .dataSingle ∨ st = .dataRemaining) (byte : UInt8) :
    Follows (s.tpduData byte) (l.hearTpdu got byte st) := by
  have put := h.put room byte
  have longer : (got ++ [byte]).length = got.length + 1 := by simp
  have full : (s.tpduPut byte).tpduFull = Listener.tpduLength (got ++ [byte]) := by
    simp only [tpduFull, Listener.tpduLength]
    rw [← put.getD (i := 4) (by omega)]
    rfl
  have count : (s.tpduPut byte).gTpdu.packetI = got.length + 1 := by rw [← longer]; exact put.count
  have state : (s.tpduPut byte).gTpdu.state = st := h.state
  have next (st' : TpduSniffState) (later : Filled st' (got.length + 1)) :
      Follows ((s.tpduPut byte).changeTpduState st') (l.goto (.inTpdu st' (got ++ [byte]))) :=
    ⟨common, iso, put.move st', by rw [longer]; exact later⟩
  have ready : Filled .procedure (got.length + 1) := by simp only [Filled]; omega
  simp only [tpduData, full, count]
  rcases receives with rfl | rfl
  · by_cases whole : Listener.tpduLength (got ++ [byte]) ≤ got.length + 1
    · rw [if_pos whole]
      exact next .procedure ready
    · rw [if_neg whole, if_pos state]
      exact next .procedure ready
  · simp only [Listener.hearTpdu]
    by_cases whole : Listener.tpduLength (got ++ [byte]) ≤ got.length + 1
    · rw [if_pos whole, if_pos whole]
      exact next .procedure ready
    · have stays := next .dataRemaining ready
      have same : (s.tpduPut byte).changeTpduState .dataRemaining = s.tpduPut byte := by
        rw [changeTpduState, ← state]
      rw [same] at stays
      rw [if_neg whole, if_neg whole, if_neg (by simp [state])]
      exact stays

theorem hear_header {st : TpduSniffState} {got : List UInt8} (common : s.common = l.toCommon)
    (iso : s.isoState = .inTpdu) (h : Holds s.gTpdu st got) (room : got.length < maxTpduSize)
    (next : TpduSniffState) (later : Filled next (got.length + 1)) (byte : UInt8) :
    Follows (s.tpduHeader got.length byte next) (l.goto (.inTpdu next (got ++ [byte]))) := by
  have put := (h.put room byte).move next
  rw [← h.count] at *
  refine ⟨common, iso, put, ?_⟩
  rw [List.length_append, List.length_singleton, ← h.count]
  exact later

theorem hear_tpdu {st : TpduSniffState} {got : List UInt8} (common : s.common = l.toCommon)
    (phase : l.phase = .inTpdu st got) (held : Phase.Held s (.inTpdu st got)) (byte : UInt8) :
    Follows (s.processByteTpdu byte) (l.hear byte) := by
  obtain ⟨iso, h, filled⟩ := held
  rw [Listener.hear, phase, processByteTpdu, if_neg (by simp [iso]), h.count]
  simp only
  split
  · refine ⟨common, ?_⟩
    rw [phase]
    exact ⟨iso, h, filled⟩
  · rename_i room
    have room := Nat.not_le.mp room
    rw [h.state]
    cases st with
    | cla => exact filled.elim
    | ins =>
      simp only [tpduSwitch, Listener.hearTpdu]
      split
      · exact send_tpdu common iso h _
      · have head := hear_header common iso h room .p1 (congrArg (· + 1) filled) byte
        rwa [filled] at head
    | p1 =>
      have head := hear_header common iso h room .p2 (congrArg (· + 1) filled) byte
      rwa [filled] at head
    | p2 =>
      have head := hear_header common iso h room .p3 (congrArg (· + 1) filled) byte
      rwa [filled] at head
    | p3 =>
      have head := hear_header common iso h room .procedure
        (Nat.le_of_eq (congrArg (· + 1) filled).symm) byte
      rwa [filled] at head
    | procedure => exact hear_procedure common phase iso h room filled byte
    | sw1 => exact hear_sw1 common iso h room filled byte
    | sw2 => exact send_tpdu (s := s.tpduPut byte) common iso (h.put room byte) 0
    | dataRemaining => exact hear_data common iso h room filled (.inr rfl) byte
    | dataSingle => exact hear_data common iso h room filled (.inl rfl) byte

/-! PPS. -/

theorem ppsPut_cur {i : Nat} (byte : UInt8) : (s.ppsPut i byte).ppsCur = s.ppsCur.put i byte := by
  unfold ppsPut
  split
  · rename_i req
    simp [ppsCur, req]
  · rename_i rsp
    simp [ppsCur, rsp]

theorem ppsPut_same {i : Nat} (byte : UInt8) : (s.ppsPut i byte).isoState = s.isoState ∧
    (s.ppsPut i byte).gPps.flags = s.gPps.flags := by
  unfold ppsPut
  split <;> exact ⟨rfl, rfl⟩

/-- Nothing is written but `g_pps`. -/
def OnlyPps (s s' : Sniffer) : Prop := ∃ gPps, s' = { s with gPps }

namespace OnlyPps
variable {s' s'' : Sniffer}

theorem trans (h : OnlyPps s s') (h' : OnlyPps s' s'') : OnlyPps s s'' := by
  obtain ⟨_, rfl⟩ := h
  obtain ⟨gPps, rfl⟩ := h'
  exact ⟨gPps, rfl⟩

theorem state (h : OnlyPps s s') (st : PpsSniffState) : OnlyPps s (s'.setPpsState st) :=
  h.trans ⟨_, rfl⟩

theorem common (h : OnlyPps s s') : s'.common = s.common := by
  obtain ⟨_, rfl⟩ := h
  rfl

theorem fidi (h : OnlyPps s s') : s'.fidi = s.fidi := by
  obtain ⟨_, rfl⟩ := h
  rfl

end OnlyPps

theorem ppsPut_only (i : Nat) (byte : UInt8) : OnlyPps s (s.ppsPut i byte) := by
  unfold ppsPut
  split
  · exact ⟨_, rfl⟩
  · exact ⟨_, rfl⟩

theorem ppsWaitPps3_only (byte : UInt8) : OnlyPps s (s.ppsWaitPps3 byte) :=
  (ppsPut_only 4 byte).state .waitPck

theorem ppsWaitPps2_only (byte : UInt8) : OnlyPps s (s.ppsWaitPps2 byte) := by
  simp only [ppsWaitPps2]
  split
  · exact (ppsPut_only 3 byte).state .waitPps3
  · exact (ppsPut_only 3 byte).trans (ppsWaitPps3_only byte)

theorem ppsWaitPps1_only (byte : UInt8) : OnlyPps s (s.ppsWaitPps1 byte) := by
  simp only [ppsWaitPps1]
  split
  · exact (ppsPut_only 2 byte).state .waitPps2
  · exact (ppsPut_only 2 byte).trans (ppsWaitPps2_only byte)

theorem ppsWaitPps0_only (byte : UInt8) : OnlyPps s (s.ppsWaitPps0 byte) := by
  simp only [ppsWaitPps0]
  split
  · exact (ppsPut_only 1 byte).state .waitPps1
  · exact (ppsPut_only 1 byte).trans (ppsWaitPps1_only byte)

theorem ppsSeen_short {st : PpsSniffState} {cur : Buffer maxPpsSize} (place : PpsPlace cur st) :
    ¬ (2 ≤ (ppsSeen st cur).length ∧
      ppsLength ((ppsSeen st cur).getD 1 0) ≤ (ppsSeen st cur).length) := by
  cases st <;> simp only [PpsPlace] at place
  all_goals
    by_cases b1 : hasBit (cur.get 1) 0x10 <;> by_cases b2 : hasBit (cur.get 1) 0x20 <;>
      by_cases b3 : hasBit (cur.get 1) 0x40 <;> simp_all [ppsSeen, PpsSniffState.rank, ppsLength]

theorem pps_get_put (cur : Buffer maxPpsSize) {i : Nat} (h : i < 6) (x : UInt8) (j : Nat) :
    (cur.put i x).get j = if i = j then x else cur.get j := cur.get_put h x j

theorem ppsIso_inPps {rsp : Bool} (iso : s.isoState = ppsIso rsp) :
    s.isoState = .inPpsReq ∨ s.isoState = .inPpsRsp := by
  rw [iso]
  cases rsp with
  | false => exact .inl rfl
  | true => exact .inr rfl

namespace PpsHeld
variable {rsp : Bool} {got : List UInt8}

theorem stay (common : s.common = l.toCommon) (h : PpsHeld s rsp got) :
    Follows s (l.hearPps rsp got) := by
  rw [Listener.hearPps, ← h.seen, if_neg (ppsSeen_short h.place), h.seen]
  exact ⟨common, h⟩

theorem put_set (iso : s.isoState = ppsIso rsp) (flags : s.gPps.flags = 0) {i : Nat} {byte : UInt8}
    {st : PpsSniffState} (place : PpsPlace (s.ppsCur.put i byte) st)
    (seen : ppsSeen st (s.ppsCur.put i byte) = got) :
    PpsHeld ((s.ppsPut i byte).setPpsState st) rsp got := by
  obtain ⟨iso', flags'⟩ := ppsPut_same (s := s) (i := i) byte
  refine ⟨iso'.trans iso, flags'.trans flags, ?_, ?_⟩
  · rw [← ppsPut_cur] at place
    exact place
  · rw [← ppsPut_cur] at seen
    exact seen

theorem waitPps3 (iso : s.isoState = ppsIso rsp) (flags : s.gPps.flags = 0)
    (slot : FidiSlot s.ppsCur) (byte : UInt8) :
    PpsHeld (s.ppsWaitPps3 byte) rsp
      (ppsSeen .waitPps3 s.ppsCur ++ if hasBit (s.ppsCur.get 1) 0x40 then [byte] else []) := by
  apply put_set iso flags
  · simpa [PpsPlace, FidiSlot, pps_get_put] using slot
  · simp [ppsSeen, PpsSniffState.rank, pps_get_put]

/-- A byte put into a slot that no bit announces is not seen in the message. -/
theorem waitPps2 (iso : s.isoState = ppsIso rsp) (flags : s.gPps.flags = 0)
    (slot : FidiSlot s.ppsCur) (byte : UInt8) :
    PpsHeld (s.ppsWaitPps2 byte) rsp
      (ppsSeen .waitPps2 s.ppsCur ++ if hasBit (s.ppsCur.get 1) 0x20 then [byte] else []) := by
  have slot' : FidiSlot (s.ppsCur.put 3 byte) := by simpa [FidiSlot, pps_get_put] using slot
  obtain ⟨iso', flags'⟩ := ppsPut_same (s := s) (i := 3) byte
  have kept : (s.ppsCur.put 3 byte).get 1 = s.ppsCur.get 1 := by simp [pps_get_put]
  simp only [ppsWaitPps2, ppsPut_cur, kept]
  split
  · rename_i announced
    apply put_set iso flags
    · exact ⟨slot', by simpa [pps_get_put] using announced⟩
    · simp [ppsSeen, PpsSniffState.rank, pps_get_put]
  · rename_i absent
    have passed := waitPps3 (iso'.trans iso) (flags'.trans flags) (by rwa [ppsPut_cur]) byte
    rw [ppsPut_cur, kept, if_neg absent, List.append_nil] at passed
    simpa [ppsSeen, PpsSniffState.rank, pps_get_put] using passed

theorem waitPps1 (iso : s.isoState = ppsIso rsp) (flags : s.gPps.flags = 0) (byte : UInt8)
    (slot : hasBit (s.ppsCur.get 1) 0x10 ∨ byte = s.ppsCur.get 1) :
    PpsHeld (s.ppsWaitPps1 byte) rsp
      (ppsSeen .waitPps1 s.ppsCur ++ if hasBit (s.ppsCur.get 1) 0x10 then [byte] else []) := by
  have slot' : FidiSlot (s.ppsCur.put 2 byte) := by simpa [FidiSlot, pps_get_put] using slot
  obtain ⟨iso', flags'⟩ := ppsPut_same (s := s) (i := 2) byte
  have kept : (s.ppsCur.put 2 byte).get 1 = s.ppsCur.get 1 := by simp [pps_get_put]
  simp only [ppsWaitPps1, ppsPut_cur, kept]
  split
  · rename_i announced
    apply put_set iso flags
    · exact ⟨slot', by simpa [pps_get_put] using announced⟩
    · simp [ppsSeen, PpsSniffState.rank, pps_get_put]
  · rename_i absent
    have passed := waitPps2 (iso'.trans iso) (flags'.trans flags) (by rwa [ppsPut_cur]) byte
    rw [ppsPut_cur, kept, if_neg absent, List.append_nil] at passed
    simpa [ppsSeen, PpsSniffState.rank, pps_get_put] using passed

theorem waitPps0 (iso : s.isoState = ppsIso rsp) (flags : s.gPps.flags = 0) (byte : UInt8) :
    PpsHeld (s.ppsWaitPps0 byte) rsp (ppsSeen .waitPps0 s.ppsCur ++ [byte]) := by
  obtain ⟨iso', flags'⟩ := ppsPut_same (s := s) (i := 1) byte
  have kept : (s.ppsCur.put 1 byte).get 1 = byte := by simp [pps_get_put]
  simp only [ppsWaitPps0, ppsPut_cur, kept]
  split
  · rename_i announced
    apply put_set iso flags
    · simpa [PpsPlace, pps_get_put] using announced
    · simp [ppsSeen, PpsSniffState.rank, pps_get_put]
  · rename_i absent
    have passed := waitPps1 (iso'.trans iso) (flags'.trans flags) byte
      (.inr (by simp [ppsPut_cur, pps_get_put]))
    rw [ppsPut_cur, kept, if_neg absent, List.append_nil] at passed
    simpa [ppsSeen, PpsSniffState.rank, pps_get_put] using passed

theorem begin (common : s.common = l.toCommon) (iso : s.isoState = ppsIso rsp)
    (state : s.gPps.state = .waitPpss) :
    Follows (s.processBytePps 0xff) (l.goto (.inPps rsp [0xff])) := by
  have inPps := ppsIso_inPps iso
  rw [processBytePps, if_pos inPps, state]
  refine ⟨(ppsPut_only (s := { s with gPps.flags := 0 }) 0 0xff).common.trans common, ?_⟩
  apply put_set (s := { s with gPps.flags := 0 }) iso rfl
  · trivial
  · simp [ppsSeen, PpsSniffState.rank, pps_get_put]

theorem check (cur : Buffer maxPpsSize) : ppsCheck cur = xorAll (ppsSeen .waitEnd cur) := by
  simp only [ppsCheck, ppsSeen, PpsSniffState.rank, xorAll]
  cases hasBit (cur.get 1) 0x10 <;> cases hasBit (cur.get 1) 0x20 <;>
    cases hasBit (cur.get 1) 0x40 <;> simp

theorem whole (cur : Buffer maxPpsSize) : 2 ≤ (ppsSeen .waitEnd cur).length ∧
    ppsLength ((ppsSeen .waitEnd cur).getD 1 0) ≤ (ppsSeen .waitEnd cur).length := by
  have pps0 : (ppsSeen .waitEnd cur).getD 1 0 = cur.get 1 := by simp [ppsSeen, PpsSniffState.rank]
  rw [pps0]
  simp only [ppsSeen, PpsSniffState.rank, ppsLength]
  cases hasBit (cur.get 1) 0x10 <;> cases hasBit (cur.get 1) 0x20 <;>
    cases hasBit (cur.get 1) 0x40 <;> simp

theorem fidi {cur : Buffer maxPpsSize} (slot : FidiSlot cur) :
    ppsFidi (ppsSeen .waitEnd cur) = cur.get 2 := by
  have pps0 : (ppsSeen .waitEnd cur).getD 1 0 = cur.get 1 := by simp [ppsSeen, PpsSniffState.rank]
  rw [ppsFidi, pps0]
  split
  · rename_i announced
    simp [ppsSeen, PpsSniffState.rank, announced]
  · rename_i absent
    exact (slot.resolve_left absent).symm

theorem agreed (common : s.common = l.toCommon) {cur : Buffer maxPpsSize} (slot : FidiSlot cur) :
    (s.ppsAgreed cur).common = (l.agree (ppsSeen .waitEnd cur)).toCommon := by
  have pps0 : (ppsSeen .waitEnd cur).getD 1 0 = cur.get 1 := by simp [ppsSeen, PpsSniffState.rank]
  have programmed := updateFidi_common (s := s) (cur.get 2)
  simp only [ppsAgreed, usbSendFidi, Listener.agree, ppsD, fidi slot, pps0]
  apply common_submit
  rw [common] at programmed
  simp only [← programmed]
  rfl

theorem send (common : s.common = l.toCommon) (iso : s.isoState = ppsIso rsp) (flags : UInt32) :
    (s.usbSendPps flags).common =
        (l.submit (.data .pps flags (ppsSeen s.gPps.state s.ppsCur))).toCommon ∧
      (s.usbSendPps flags).isoState = ppsIso rsp := by
  have inPps := ppsIso_inPps iso
  rw [usbSendPps, if_pos inPps]
  exact ⟨common_submit common _, iso⟩

theorem leave (common : s.common = l.toCommon) (iso : s.isoState = ppsIso rsp)
    {cur : Buffer maxPpsSize} (slot : FidiSlot cur) :
    Follows
      (if s.isoState = .inPpsReq then
        if ppsCheck cur = 0 then s.changeState .waitPpsRsp else s.changeState .waitTpdu
      else if ppsCheck cur = 0 then (s.ppsAgreed cur).changeState .waitTpdu
      else s.changeState .waitTpdu)
      (if ppsCheck cur = 0 then
        if rsp then (l.agree (ppsSeen .waitEnd cur)).goto .waitTpdu else l.goto .waitPpsRsp
      else l.goto .waitTpdu) := by
  have failed : Follows (s.changeState .waitTpdu) (l.goto .waitTpdu) := by
    apply enter_waitTpdu common
    rw [iso]
    cases rsp <;> decide
  cases rsp with
  | false =>
    have req : s.isoState = .inPpsReq := iso
    rw [if_pos req]
    split
    · rw [changeState_ne (by simp [req])]
      exact ⟨common, rfl⟩
    · exact failed
  | true =>
    have resp : s.isoState = .inPpsRsp := iso
    have stays : (s.ppsAgreed cur).isoState = s.isoState := by
      simp only [ppsAgreed, usbSendFidi, usbMsgSubmit, updateWt, updateFidi]
      split
      · split <;> rfl
      · rfl
    rw [if_neg (by simp [resp])]
    split
    · exact enter_waitTpdu (agreed common slot) (by simp [stays, resp])
    · exact failed

theorem waitPck (common : s.common = l.toCommon) (iso : s.isoState = ppsIso rsp)
    (flags : s.gPps.flags = 0) (slot : FidiSlot s.ppsCur) (byte : UInt8) :
    Follows (s.ppsWaitPck byte) (l.hearPps rsp (ppsSeen .waitEnd (s.ppsCur.put 5 byte))) := by
  have slot' : FidiSlot (s.ppsCur.put 5 byte) := by simpa [FidiSlot, pps_get_put] using slot
  obtain ⟨iso', flags'⟩ := ppsPut_same (s := s) (i := 5) byte
  have common' := (ppsPut_only (s := s) 5 byte).common
  have sent (error flags : UInt32) := send
    (s := { s.ppsPut 5 byte with gPps.flags := error }.setPpsState .waitEnd)
    (common'.trans common) (iso'.trans iso) flags
  have cur (error : UInt32) : ({ s.ppsPut 5 byte with gPps.flags := error }.setPpsState
      .waitEnd).ppsCur = s.ppsCur.put 5 byte := ppsPut_cur byte
  have error : (s.ppsPut 5 byte).gPps.flags ||| sniffDataFlagErrorChecksum =
      sniffDataFlagErrorChecksum := by
    rw [flags', flags]
    decide
  rw [Listener.hearPps, if_pos (whole _), Listener.finishPps, ← check]
  simp only [ppsWaitPck, ppsPut_cur, ite_not, error]
  by_cases good : ppsCheck (s.ppsCur.put 5 byte) = 0
  · obtain ⟨sends, stays⟩ := sent (s.ppsPut 5 byte).gPps.flags 0
    rw [cur] at sends
    have left := leave sends stays slot'
    have none : ((s.ppsPut 5 byte).setPpsState .waitEnd).gPps.flags = 0 := flags'.trans flags
    simp only [if_pos good, none] at left ⊢
    exact left
  · obtain ⟨sends, stays⟩ := sent sniffDataFlagErrorChecksum sniffDataFlagErrorChecksum
    rw [cur] at sends
    have left := leave sends stays slot'
    simp only [if_neg good] at left ⊢
    exact left

/-- A byte before the checksum is kept behind the others, and nothing else changes. -/
theorem partway (h : PpsHeld s rsp got) (byte : UInt8) (more : s.gPps.state ≠ .waitPck) :
    OnlyPps s (s.processBytePps byte) ∧ PpsHeld (s.processBytePps byte) rsp (got ++ [byte]) := by
  have place := h.place
  have seen := h.seen
  rw [processBytePps, if_pos (ppsIso_inPps h.iso)]
  cases st : s.gPps.state with
  | waitPpss | waitEnd => exact (st ▸ place).elim
  | waitPck => exact absurd st more
  | waitPps0 =>
    rw [st] at seen
    have held := waitPps0 h.iso h.flags byte
    rw [seen] at held
    exact ⟨ppsWaitPps0_only byte, held⟩
  | waitPps1 =>
    rw [st] at place seen
    have announced : hasBit (s.ppsCur.get 1) 0x10 := place
    have held := waitPps1 h.iso h.flags byte (.inl announced)
    rw [if_pos announced, seen] at held
    exact ⟨ppsWaitPps1_only byte, held⟩
  | waitPps2 =>
    rw [st] at place seen
    have held := waitPps2 h.iso h.flags place.1 byte
    rw [if_pos place.2, seen] at held
    exact ⟨ppsWaitPps2_only byte, held⟩
  | waitPps3 =>
    rw [st] at place seen
    have held := waitPps3 h.iso h.flags place.1 byte
    rw [if_pos place.2, seen] at held
    exact ⟨ppsWaitPps3_only byte, held⟩

/-- The next byte is the checksum. -/
theorem complete (h : PpsHeld s rsp got) (last : s.gPps.state = .waitPck) (byte : UInt8) :
    s.processBytePps byte = s.ppsWaitPck byte ∧ FidiSlot s.ppsCur ∧
      got ++ [byte] = ppsSeen .waitEnd (s.ppsCur.put 5 byte) := by
  have place := h.place
  have seen := h.seen
  rw [last] at place seen
  refine ⟨?_, place, ?_⟩
  · rw [processBytePps, if_pos (ppsIso_inPps h.iso), last]
  · rw [← seen]
    simp [ppsSeen, PpsSniffState.rank, pps_get_put]

theorem hear (common : s.common = l.toCommon) (phase : l.phase = .inPps rsp got)
    (h : PpsHeld s rsp got) (byte : UInt8) : Follows (s.processBytePps byte) (l.hear byte) := by
  have hears : l.hear byte = l.hearPps rsp (got ++ [byte]) := by rw [Listener.hear, phase]
  rw [hears]
  by_cases last : s.gPps.state = .waitPck
  · obtain ⟨call, slot, whole⟩ := h.complete last byte
    rw [call, whole]
    exact waitPck common h.iso h.flags slot byte
  · obtain ⟨only, held⟩ := h.partway byte last
    exact stay (only.common.trans common) held

end PpsHeld

theorem follows_handleByte (h : Follows s l) (byte : UInt8) :
    Follows (s.handleByte byte) (l.hear byte) := by
  obtain ⟨common, held⟩ := h
  cases phase : l.phase with
  | reset =>
    rw [phase] at held
    have iso : s.isoState = .reset := held
    rw [handleByte, iso, Listener.hear, phase]
    exact ⟨common, by rw [phase]; exact iso⟩
  | waitAtr =>
    rw [phase] at held
    have iso : s.isoState = .waitAtr := held
    rw [handleByte, iso, Listener.hear, phase]
    exact hearTs common iso byte
  | gotTs ts =>
    rw [phase] at held
    rw [handleByte, AtrHeld.iso held]
    exact AtrHeld.hearT0 common phase held byte
  | inAtr a =>
    rw [phase] at held
    rw [handleByte, held.1.iso]
    exact AtrHeld.hear common phase held byte
  | waitTpdu =>
    rw [phase] at held
    obtain ⟨iso, state, count⟩ := held
    rw [handleByte, iso, Listener.hear, phase]
    simp only
    split
    · rename_i pps
      subst pps
      rw [changeState_ne (by simp [iso])]
      exact PpsHeld.begin common rfl rfl
    · rename_i cla
      rw [changeState_ne (by simp [iso])]
      have fresh : Holds s.gTpdu .cla [] := ⟨state, count, rfl⟩
      have header := hear_header (s := { s with isoState := .inTpdu }) common rfl fresh
        (by simp [maxTpduSize]) .ins rfl byte
      simpa [processByteTpdu, enterState, count, state, maxTpduSize, tpduSwitch, cla] using header
  | inTpdu st got =>
    rw [phase] at held
    rw [handleByte, held.1]
    exact hear_tpdu common phase held byte
  | inPps rsp got =>
    rw [phase] at held
    have parsed := PpsHeld.hear common phase held byte
    rw [handleByte, held.iso]
    cases rsp <;> exact parsed
  | waitPpsRsp =>
    rw [phase] at held
    have iso : s.isoState = .waitPpsRsp := held
    rw [handleByte, iso, Listener.hear, phase]
    simp only
    split
    · rename_i pps
      subst pps
      rw [changeState_ne (by simp [iso])]
      exact PpsHeld.begin common rfl rfl
    · rw [processByteTpdu, if_pos (by simp [iso])]
      exact ⟨common, by rw [phase]; exact iso⟩

theorem sendIncomplete_common (h : Follows s l) :
    s.sendIncomplete.common = l.sendIncomplete.toCommon ∧
      s.sendIncomplete.isoState = s.isoState := by
  obtain ⟨common, held⟩ := h
  cases phase : l.phase with
  | reset | waitAtr | waitPpsRsp =>
    rw [phase] at held
    rw [Sniffer.sendIncomplete, Listener.sendIncomplete, phase, show s.isoState = _ from held]
    exact ⟨common, held⟩
  | gotTs ts =>
    rw [phase] at held
    have held : AtrHeld s ⟨[ts], .waitT0, [], 0, 0⟩ := held
    rw [Sniffer.sendIncomplete, Listener.sendIncomplete, phase, held.iso]
    exact ⟨held.send common s.gAtr.flags _, (AtrHeld.usbSendAtr_iso _).trans held.iso⟩
  | inAtr a =>
    rw [phase] at held
    obtain ⟨held, -⟩ := held
    rw [Sniffer.sendIncomplete, Listener.sendIncomplete, phase, held.iso]
    exact ⟨held.send common s.gAtr.flags _, (AtrHeld.usbSendAtr_iso _).trans held.iso⟩
  | waitTpdu =>
    rw [phase] at held
    obtain ⟨iso, -⟩ := held
    rw [Sniffer.sendIncomplete, Listener.sendIncomplete, phase, iso]
    exact ⟨common, iso⟩
  | inTpdu st got =>
    rw [phase] at held
    obtain ⟨iso, held, -⟩ := held
    rw [Sniffer.sendIncomplete, Listener.sendIncomplete, phase, iso]
    simp only [Listener.partialMsg]
    rw [usbSendTpdu, if_neg (by simp [iso]), held.count, held.held]
    exact ⟨common_submit common _, iso⟩
  | inPps rsp got =>
    rw [phase] at held
    have sent := PpsHeld.send common held.iso sniffDataFlagErrorIncomplete
    rw [held.seen] at sent
    rw [Sniffer.sendIncomplete, Listener.sendIncomplete, phase, held.iso]
    cases rsp <;> exact sent

theorem follows_handleTimeout (h : Follows s l) : Follows s.handleTimeout l.timeout := by
  obtain ⟨sends, stays⟩ := sendIncomplete_common h
  obtain ⟨common, held⟩ := h
  cases phase : l.phase with
  | reset | waitAtr | waitPpsRsp =>
    rw [phase] at held
    rw [handleTimeout, Listener.timeout, phase, show s.isoState = _ from held]
    exact ⟨common, by rw [phase]; exact held⟩
  | gotTs ts =>
    rw [phase] at held
    rw [handleTimeout, Listener.timeout, phase, AtrHeld.iso held]
    exact enter_waitAtr sends (by rw [stays, AtrHeld.iso held]; decide)
  | inAtr a =>
    rw [phase] at held
    rw [handleTimeout, Listener.timeout, phase, held.1.iso]
    exact enter_waitAtr sends (by rw [stays, held.1.iso]; decide)
  | waitTpdu =>
    rw [phase] at held
    rw [handleTimeout, Listener.timeout, phase, held.1]
    exact ⟨common, by rw [phase]; exact held⟩
  | inTpdu st got =>
    rw [phase] at held
    rw [handleTimeout, Listener.timeout, phase, held.1]
    exact enter_waitTpdu sends (by rw [stays, held.1]; decide)
  | inPps rsp got =>
    rw [phase] at held
    have left := enter_waitTpdu sends (by rw [stays, held.iso]; cases rsp <;> decide)
    rw [handleTimeout, Listener.timeout, phase, held.iso]
    cases rsp <;> exact left

theorem Follows.convert (h : Follows s l) (byte : UInt8) : s.convert byte = l.convertByte byte := by
  rw [Sniffer.convert, Listener.convertByte, ← h.1]
  rfl

theorem Follows.ring (h : Follows s l) : s.sniffBuffer = l.ring := congrArg Common.ring h.1

theorem follows_handleEntry (h : Follows s l) (entry : UInt16) :
    Follows (s.handleEntry entry) (l.entry entry) := by
  simp only [handleEntry, Listener.entry, h.convert]
  split_ifs
  · exact follows_handleTimeout (follows_handleByte h _)
  · exact follows_handleTimeout h
  · exact follows_handleByte h _
  · exact h

theorem updateWt_default (s : Sniffer) :
    s.updateWt 10 1 = { s with wt := SniffWt.default } := by
  simp [updateWt, SniffWt.default]

theorem follows_assertReset (h : Follows s l) :
    Follows (s.sendIncomplete.changeState .reset) l.assertReset := by
  obtain ⟨sends, stays⟩ := sendIncomplete_common h
  have iso := stays.trans h.iso
  have entered (other : l.phase.iso ≠ .reset) : Follows (s.sendIncomplete.changeState .reset)
      { l.sendIncomplete with phase := .reset, wt := .default } := by
    rw [changeState_ne (by rw [iso]; exact other), enterState, updateWt_default]
    have programmed := (updateFidi_common (s := s.sendIncomplete) 0x11).trans sends
    refine ⟨?_, rfl⟩
    simp only [← programmed]
    rfl
  rw [Listener.assertReset]
  cases phase : l.phase with
  | reset =>
    rw [phase] at iso
    have already : SniffState.reset = s.sendIncomplete.isoState := iso.symm
    rw [changeState, if_pos already]
    rw [Listener.sendIncomplete, phase] at sends
    exact ⟨sends, by rw [phase]; exact iso⟩
  | inPps rsp got => exact entered (by rw [phase]; cases rsp <;> simp [Phase.iso, ppsIso])
  | waitAtr | gotTs _ | inAtr _ | waitTpdu | inTpdu _ _ | waitPpsRsp =>
    exact entered (by simp [phase, Phase.iso])

theorem follows_deassertReset (h : Follows s l) :
    Follows (s.changeState .waitAtr) l.deassertReset := by
  have entered (other : l.phase.iso ≠ .waitAtr) : Follows (s.changeState .waitAtr) l.waitAtr :=
    enter_waitAtr h.1 (by rw [h.iso]; exact other)
  rw [Listener.deassertReset]
  cases phase : l.phase with
  | waitAtr =>
    have already : SniffState.waitAtr = s.isoState := by rw [h.iso, phase]; rfl
    rw [changeState, if_pos already]
    exact h
  | inPps rsp got => exact entered (by rw [phase]; cases rsp <;> simp [Phase.iso, ppsIso])
  | reset | gotTs _ | inAtr _ | waitTpdu | inTpdu _ _ | waitPpsRsp =>
    exact entered (by simp [phase, Phase.iso])

/-- What a phase holds does not depend on what all phases share. -/
theorem Phase.Held.aside {p : Phase} (h : p.Held s) (wt : SniffWt) (changeFlags : UInt32)
    (sniffBuffer : List UInt16) (alloc : Nat → Bool) (asked : Nat) (sent : List SniffMsg) :
    p.Held { s with wt, changeFlags, sniffBuffer, alloc, asked, sent } := by
  cases p with
  | reset | waitAtr | waitTpdu | inTpdu _ _ | waitPpsRsp => exact h
  | gotTs ts => exact ⟨h.iso, h.state, h.count, h.held, h.fits, h.flags, h.support, h.group⟩
  | inAtr a =>
    obtain ⟨h, rest⟩ := h
    exact ⟨⟨h.iso, h.state, h.count, h.held, h.fits, h.flags, h.support, h.group⟩, rest⟩
  | inPps rsp got => exact ⟨h.iso, h.flags, h.place, h.seen⟩

theorem follows_sendChange (h : Follows s l) {flags : UInt32} (some : flags ≠ 0) :
    Follows { s.usbSendChange flags with changeFlags := 0 }
      { l.submit (.change flags) with changeFlags := 0 } := by
  have sent := common_submit h.1 (.change flags)
  rw [usbSendChange, if_neg some]
  refine ⟨?_, h.2.aside _ _ _ _ _ _⟩
  simp only [← sent]
  rfl

theorem assertReset_changeFlags (l : Listener) : l.assertReset.changeFlags = l.changeFlags := by
  have sent : l.sendIncomplete.changeFlags = l.changeFlags := by
    unfold Listener.sendIncomplete
    split <;> rfl
  unfold Listener.assertReset
  split
  · rfl
  · exact sent

theorem deassertReset_changeFlags (l : Listener) : l.deassertReset.changeFlags = l.changeFlags := by
  unfold Listener.deassertReset
  split <;> rfl

theorem Follows.changeFlags (h : Follows s l) : s.changeFlags = l.changeFlags := by
  rw [← h.1]
  rfl

theorem follows_handleFlags (h : Follows s l) : Follows s.handleFlags l.flags := by
  rw [handleFlags, Listener.flags, h.changeFlags]
  split
  · exact h
  · rename_i some
    simp only [Listener.handleReset]
    have sends {s : Sniffer} {l' : Listener} (h : Follows s l')
        (kept : l'.changeFlags = l.changeFlags) :
        Follows { s.usbSendChange s.changeFlags with changeFlags := 0 }
          { l'.submit (.change l.changeFlags) with changeFlags := 0 } := by
      rw [h.changeFlags, kept]
      exact follows_sendChange h some
    have asserted := follows_assertReset h
    by_cases assert : hasFlag l.changeFlags sniffChangeFlagResetAssert
    · rw [if_pos assert, if_pos assert, asserted.changeFlags, assertReset_changeFlags]
      split
      · exact sends (follows_deassertReset asserted)
          ((deassertReset_changeFlags _).trans (assertReset_changeFlags _))
      · exact sends asserted (assertReset_changeFlags _)
    · rw [if_neg assert, if_neg assert, h.changeFlags]
      split
      · exact sends (follows_deassertReset h) (deassertReset_changeFlags _)
      · exact sends h rfl

theorem follows_turn (h : Follows s l) : Follows s.snifferRun l.turn := by
  rw [snifferRun, Listener.turn, h.ring]
  apply follows_handleFlags
  cases l.ring with
  | nil => exact h
  | cons entry ring =>
    have taken : Follows { s with sniffBuffer := ring } { l with ring } := by
      refine ⟨?_, h.2.aside _ _ _ _ _ _⟩
      simp only [← h.1]
      rfl
    exact follows_handleEntry taken entry

end

theorem Follows.step {s : Sniffer} {l : Listener} (h : Follows s l) (input : SniffInput) :
    Follows (s.step input) (l.step input) := by
  cases input with
  | entry entry =>
    rw [Sniffer.step, rbuf16Write, Listener.step, h.ring]
    split
    · refine ⟨?_, h.2.aside _ _ _ _ _ _⟩
      simp only [← h.1]
      rfl
    · exact h
  | change flags =>
    refine ⟨?_, h.2.aside _ _ _ _ _ _⟩
    simp only [Listener.step, ← h.1]
    rfl
  | turn => exact follows_turn h

theorem Follows.sent {s : Sniffer} {l : Listener} (h : Follows s l) : s.sent = l.sent :=
  congrArg Common.sent h.1

theorem Follows.wt {s : Sniffer} {l : Listener} (h : Follows s l) : s.wt = l.wt :=
  congrArg Common.wt h.1

theorem Follows.run {s : Sniffer} {l : Listener} (h : Follows s l) (inputs : List SniffInput) :
    Follows (run Sniffer.step s inputs) (run Listener.step l inputs) :=
  run_simulates Follows (fun _ _ input h => h.step input) h inputs

def Listener.init (alloc : Nat → Bool) : Listener :=
  { phase := .reset, convert := false, wt := .default, changeFlags := 0, ring := [], alloc
    asked := 0, sent := [] }

theorem follows_init (alloc : Nat → Bool) : Follows (.init alloc) (.init alloc) := ⟨rfl, rfl⟩

/-- Every state the sniffer reaches follows the listener's. -/
theorem follows_run (alloc : Nat → Bool) (inputs : List SniffInput) :
    Follows (run Sniffer.step (.init alloc) inputs) (run Listener.step (.init alloc) inputs) :=
  (follows_init alloc).run inputs

end Simtrace2
