import Simtrace2.Sniffer.Process

/-! One byte on the line, with the main loop keeping up: the ring buffer is empty
before and after, and the byte is all that is handled. -/
namespace Simtrace2
open Lib

theorem dataByte_entry (b : UInt8) :
    (rbuf16FDataByte ||| b.toUInt16) &&& rbuf16FDataByte ≠ 0 ∧
      ((rbuf16FDataByte ||| b.toUInt16) &&& 0xff).toUInt8 = b ∧
      (rbuf16FDataByte ||| b.toUInt16) &&& rbuf16FTimeoutWt = 0 := by
  revert b
  apply forall_byte
  decide +kernel

theorem convert_convert (b : UInt8) :
    (conventionConvertLut[((conventionConvertLut[b.toNat]?).getD 0).toNat]?).getD 0 = b := by
  revert b
  apply forall_byte
  decide +kernel

namespace Sniffer

/-- What everything the sniffer does is made of. A property that these updates keep
is kept by every byte, timeout and reset. -/
structure Stable (P : Sniffer → Prop) : Prop where
  changeState : ∀ {s}, P s → ∀ st, P (s.changeState st)
  submit : ∀ {s}, P s → ∀ msg, P (s.usbMsgSubmit msg)
  wt : ∀ {s}, P s → ∀ wt, P { s with wt }
  atr : ∀ {s}, P s → ∀ gAtr conventionConvert tProtocolSupport,
    P { s with gAtr, conventionConvert, tProtocolSupport }
  fidi : ∀ {s}, P s → ∀ fidi, P { s with fidi }
  pps : ∀ {s}, P s → ∀ gPps, P { s with gPps }
  tpdu : ∀ {s}, P s → s.isoState = .inTpdu → ∀ gTpdu, P { s with gTpdu }

namespace Stable
variable {P : Sniffer → Prop} (stable : Stable P) {s : Sniffer}
include stable

theorem updateFidi (h : P s) (fidi : UInt8) : P (s.updateFidi fidi) := by
  unfold Sniffer.updateFidi
  split
  · split
    · exact stable.fidi h _
    · exact h
  · exact h

theorem usbSendAtr (h : P s) (flags : UInt32) : P (s.usbSendAtr flags) := by
  unfold Sniffer.usbSendAtr
  split_ifs
  · exact h
  · exact h
  · exact stable.submit h _

theorem usbSendTpdu (h : P s) (flags : UInt32) : P (s.usbSendTpdu flags) := by
  unfold Sniffer.usbSendTpdu
  split_ifs
  · exact h
  · exact stable.submit h _

theorem usbSendPps (h : P s) (flags : UInt32) : P (s.usbSendPps flags) := by
  unfold Sniffer.usbSendPps
  split
  · exact stable.submit h _
  · exact h

theorem setAtrState (h : P s) (st : AtrSniffState) : P (s.setAtrState st) := stable.atr h _ _ _

theorem atrWaitTck (h : P s) : P s.atrWaitTck := by
  unfold Sniffer.atrWaitTck
  apply stable.changeState
  apply stable.usbSendAtr
  split
  · exact stable.atr h _ _ _
  · exact h

theorem atrWaitHist (h : P s) : P s.atrWaitHist := by
  have counted : P { s with gAtr.histLen := s.gAtr.histLen - 1 } := stable.atr h _ _ _
  simp only [Sniffer.atrWaitHist, atrAfterHist]
  split_ifs
  · exact stable.setAtrState counted _
  · exact stable.atrWaitTck counted
  · exact counted

theorem atrAfterTc (h : P s) : P s.atrAfterTc := by
  unfold Sniffer.atrAfterTc
  split_ifs
  · exact stable.setAtrState h _
  · exact stable.setAtrState h _
  · exact stable.atrWaitHist h

theorem atrWaitTc (h : P s) (byte : UInt8) : P (s.atrWaitTc byte) := by
  unfold Sniffer.atrWaitTc
  split
  · exact stable.atrAfterTc (stable.wt h _)
  · exact stable.atrAfterTc h

theorem atrWaitTb (h : P s) (byte : UInt8) : P (s.atrWaitTb byte) := by
  unfold Sniffer.atrWaitTb
  split
  · exact stable.setAtrState h _
  · exact stable.atrWaitTc h byte

theorem atrWaitTa (h : P s) (byte : UInt8) : P (s.atrWaitTa byte) := by
  unfold Sniffer.atrWaitTa
  split
  · exact stable.setAtrState h _
  · exact stable.atrWaitTb h byte

theorem atrAnnounce (h : P s) (byte : UInt8) : P (s.atrAnnounce byte) := by
  have announced : P { s with gAtr.y := byte &&& 0xf0, gAtr.i := s.gAtr.i + 1 } :=
    stable.atr h _ _ _
  simp only [Sniffer.atrAnnounce]
  split
  · exact stable.setAtrState announced _
  · exact stable.atrWaitTa announced byte

theorem atrWaitTs (h : P s) (byte : UInt8) : P (s.atrWaitTs byte) := by
  have cleared : P { s with gAtr.flags := 0 } := stable.atr h _ _ _
  simp only [Sniffer.atrWaitTs]
  apply stable.atr
  split_ifs
  · exact stable.setAtrState (stable.atr cleared _ _ _) _
  · exact stable.setAtrState cleared _
  · exact stable.changeState (stable.usbSendAtr cleared _) _

theorem processByteAtr (h : P s) (byte : UInt8) : P (s.processByteAtr byte) := by
  have saved : P (s.atrSave byte) := stable.atr h _ _ _
  unfold Sniffer.processByteAtr
  split
  · exact h
  · split
    · exact h
    · cases s.gAtr.state with
      | waitTs => exact stable.atrWaitTs saved byte
      | waitT0 => exact stable.atrAnnounce (stable.atr saved _ _ _) byte
      | waitTd => exact stable.atrAnnounce (stable.atr saved _ _ _) byte
      | waitTa => exact stable.atrWaitTa saved byte
      | waitTb => exact stable.atrWaitTb saved byte
      | waitTc => exact stable.atrWaitTc saved byte
      | waitHist => exact stable.atrWaitHist saved
      | waitTck => exact stable.atrWaitTck saved

theorem ppsPut (h : P s) (i : Nat) (byte : UInt8) : P (s.ppsPut i byte) := by
  unfold Sniffer.ppsPut
  split
  · exact stable.pps h _
  · exact stable.pps h _

theorem setPpsState (h : P s) (st : PpsSniffState) : P (s.setPpsState st) := stable.pps h _

theorem ppsWaitPps3 (h : P s) (byte : UInt8) : P (s.ppsWaitPps3 byte) :=
  stable.setPpsState (stable.ppsPut h 4 byte) _

theorem ppsWaitPps2 (h : P s) (byte : UInt8) : P (s.ppsWaitPps2 byte) := by
  have put := stable.ppsPut h 3 byte
  simp only [Sniffer.ppsWaitPps2]
  split
  · exact stable.setPpsState put _
  · exact stable.ppsWaitPps3 put byte

theorem ppsWaitPps1 (h : P s) (byte : UInt8) : P (s.ppsWaitPps1 byte) := by
  have put := stable.ppsPut h 2 byte
  simp only [Sniffer.ppsWaitPps1]
  split
  · exact stable.setPpsState put _
  · exact stable.ppsWaitPps2 put byte

theorem ppsWaitPps0 (h : P s) (byte : UInt8) : P (s.ppsWaitPps0 byte) := by
  have put := stable.ppsPut h 1 byte
  simp only [Sniffer.ppsWaitPps0]
  split
  · exact stable.setPpsState put _
  · exact stable.ppsWaitPps1 put byte

theorem ppsAgreed (h : P s) (cur : Buffer maxPpsSize) : P (s.ppsAgreed cur) :=
  stable.submit (stable.wt (stable.updateFidi h _) _) _

theorem ppsWaitPck (h : P s) (byte : UInt8) : P (s.ppsWaitPck byte) := by
  have put := stable.ppsPut h 5 byte
  have flagged (flags : UInt32) : P { s.ppsPut 5 byte with gPps.flags := flags } :=
    stable.pps put _
  simp only [Sniffer.ppsWaitPck]
  split_ifs <;> apply stable.changeState <;> (try apply stable.ppsAgreed) <;>
    apply stable.usbSendPps <;> apply stable.setPpsState
  all_goals first | exact put | exact flagged _

theorem processBytePps (h : P s) (byte : UInt8) : P (s.processBytePps byte) := by
  have cleared : P { s with gPps.flags := 0 } := stable.pps h _
  unfold Sniffer.processBytePps
  split
  · split
    · simp only
      split
      · exact stable.setPpsState (stable.ppsPut cleared 0 byte) _
      · exact stable.changeState (stable.usbSendPps cleared _) _
    · exact stable.ppsWaitPps0 h byte
    · exact stable.ppsWaitPps1 h byte
    · exact stable.ppsWaitPps2 h byte
    · exact stable.ppsWaitPps3 h byte
    · exact stable.ppsWaitPck h byte
    · exact h
  · exact h

theorem tpduMalformed (h : P s) : P s.tpduMalformed :=
  stable.changeState (stable.usbSendTpdu h _) _

theorem tpduSw1 (h : P s) (st : s.isoState = .inTpdu) (byte : UInt8) : P (s.tpduSw1 byte) := by
  unfold Sniffer.tpduSw1
  split
  · exact stable.tpdu h st _
  · exact stable.tpduMalformed h

theorem tpduProcedure (h : P s) (st : s.isoState = .inTpdu) (byte : UInt8) :
    P (s.tpduProcedure byte) := by
  unfold Sniffer.tpduProcedure
  split_ifs
  · exact h
  · exact stable.tpdu h st _
  · exact stable.tpdu h st _
  · exact stable.tpduSw1 h st byte

theorem tpduData (h : P s) (st : s.isoState = .inTpdu) (byte : UInt8) : P (s.tpduData byte) := by
  simp only [Sniffer.tpduData]
  split_ifs <;> exact stable.tpdu h st _

theorem processByteTpdu (h : P s) (byte : UInt8) : P (s.processByteTpdu byte) := by
  unfold Sniffer.processByteTpdu
  split
  · exact h
  · rename_i st
    have st : s.isoState = .inTpdu := by simpa using st
    split
    · exact h
    · cases s.gTpdu.state with
      | cla =>
        simp only [tpduSwitch]
        split
        · exact stable.tpduMalformed h
        · exact stable.tpdu h st _
      | ins =>
        simp only [tpduSwitch]
        split
        · exact stable.tpduMalformed h
        · exact stable.tpdu h st _
      | p1 | p2 | p3 => exact stable.tpdu h st _
      | procedure => exact stable.tpduProcedure h st byte
      | sw1 => exact stable.tpduSw1 h st byte
      | sw2 =>
        have put : P (s.tpduPut byte) := stable.tpdu h st _
        exact stable.changeState (stable.usbSendTpdu put 0) _
      | dataRemaining | dataSingle => exact stable.tpduData h st byte

theorem handleByte (h : P s) (byte : UInt8) : P (s.handleByte byte) := by
  unfold Sniffer.handleByte
  split
  · exact h
  · exact stable.processByteAtr (stable.changeState h _) byte
  · exact stable.processByteAtr h byte
  · split
    · exact stable.processBytePps (stable.changeState h _) byte
    · exact stable.processByteTpdu (stable.changeState h _) byte
  · split
    · exact stable.processBytePps (stable.changeState h _) byte
    · exact stable.processByteTpdu h byte
  · exact stable.processByteTpdu h byte
  · exact stable.processBytePps h byte
  · exact stable.processBytePps h byte

theorem sendIncomplete (h : P s) : P s.sendIncomplete := by
  unfold Sniffer.sendIncomplete
  split
  · exact stable.usbSendAtr h _
  · exact stable.usbSendTpdu h _
  · exact stable.usbSendPps h _
  · exact stable.usbSendPps h _
  · exact h

theorem handleTimeout (h : P s) : P s.handleTimeout := by
  have sent := stable.sendIncomplete h
  unfold Sniffer.handleTimeout
  split
  · exact stable.changeState sent _
  · exact stable.changeState sent _
  · exact stable.changeState sent _
  · exact stable.changeState sent _
  · exact h

theorem handleEntry (h : P s) (entry : UInt16) : P (s.handleEntry entry) := by
  simp only [Sniffer.handleEntry]
  split_ifs
  · exact stable.handleTimeout (stable.handleByte h _)
  · exact stable.handleTimeout h
  · exact stable.handleByte h _
  · exact h

end Stable

/-- The interrupt handlers have left nothing for the main loop to do. -/
def Quiet (s : Sniffer) : Prop := s.sniffBuffer = [] ∧ s.changeFlags = 0

theorem Quiet.stable : Stable Quiet where
  changeState h st := by
    unfold changeState
    split
    · exact h
    · cases st with
      | reset =>
        simp only [enterState, updateFidi]
        split
        · split <;> exact h
        · exact h
      | waitAtr => exact ⟨rfl, h.2⟩
      | inAtr | waitTpdu | inTpdu | inPpsReq | waitPpsRsp | inPpsRsp => exact h
  submit h _ := h
  wt h _ := h
  atr h _ _ _ := h
  fidi h _ := h
  pps h _ := h
  tpdu h _ _ := h

theorem feed_eq {s : Sniffer} (h : s.Quiet) (byte : UInt8) :
    s.feed byte = s.handleByte (s.convert byte) := by
  obtain ⟨data, value, noTimeout⟩ := dataByte_entry byte
  have written : s.rbuf16Write (rbuf16FDataByte ||| byte.toUInt16) =
      { s with sniffBuffer := [rbuf16FDataByte ||| byte.toUInt16] } := by
    simp [rbuf16Write, h.1, ring16Buflen]
  have empty : { s with sniffBuffer := [] } = s := by rw [← h.1]
  have handled := (Quiet.stable.handleByte h (s.convert byte)).2
  rw [feed, written]
  simp only [snifferRun, handleEntry, empty]
  rw [if_pos data, value, if_neg (by simp [noTimeout])]
  simp [handleFlags, handled]

/-- The line as it looks to a USART of the sniffer's convention. -/
def feedAll (s : Sniffer) (bytes : List UInt8) : Sniffer := (bytes.map s.convert).foldl feed s

theorem feed_convert {s : Sniffer} (h : s.Quiet) (byte : UInt8) :
    s.feed (s.convert byte) = s.handleByte byte := by
  rw [feed_eq h]
  unfold convert
  split
  · rw [convert_convert]
  · rfl

end Sniffer

/-- What the interrupt handlers write, and a turn of the main loop. -/
inductive SniffInput where
  | entry (entry : UInt16)
  | change (flags : UInt32)
  | turn

namespace Sniffer

def step (s : Sniffer) : SniffInput → Sniffer
  | .entry entry => s.rbuf16Write entry
  | .change flags => { s with changeFlags := s.changeFlags ||| flags }
  | .turn => s.snifferRun

def AtStart (s : Sniffer) : Prop :=
  s.isoState = .waitTpdu → s.gTpdu.state = .cla ∧ s.gTpdu.packetI = 0

theorem AtStart.stable : Stable AtStart where
  changeState {s} h st := by
    unfold changeState
    split
    · exact h
    · rintro rfl
      exact ⟨rfl, rfl⟩
  submit h _ := h
  wt h _ := h
  atr h _ _ _ := h
  fidi h _ := h
  pps h _ := h
  tpdu _ st _ := by
    intro waits
    simp [st] at waits

theorem AtStart.step {s : Sniffer} (h : s.AtStart) (input : SniffInput) : (s.step input).AtStart := by
  cases input with
  | entry entry =>
    simp only [Sniffer.step, rbuf16Write]
    split <;> exact h
  | change flags => exact h
  | turn =>
    have flags (s : Sniffer) (h : s.AtStart) : s.handleFlags.AtStart := by
      have asserted : (if hasFlag s.changeFlags sniffChangeFlagResetAssert then
          s.sendIncomplete.changeState .reset else s).AtStart := by
        split
        · exact stable.changeState (stable.sendIncomplete h) .reset
        · exact h
      have deasserted (s' : Sniffer) (h : s'.AtStart) : (if hasFlag s'.changeFlags
          sniffChangeFlagResetDeassert then s'.changeState .waitAtr else s').AtStart := by
        split
        · exact stable.changeState h .waitAtr
        · exact h
      have sent (s' : Sniffer) (h : s'.AtStart) (flags : UInt32) :
          { s'.usbSendChange flags with changeFlags := 0 }.AtStart := by
        unfold usbSendChange
        split <;> exact h
      unfold handleFlags
      split
      · exact h
      · exact sent _ (deasserted _ asserted) _
    simp only [Sniffer.step, snifferRun]
    apply flags
    split
    · exact h
    · rename_i entry rest _
      have taken : { s with sniffBuffer := rest }.AtStart := h
      exact stable.handleEntry taken entry

end Sniffer
end Simtrace2
