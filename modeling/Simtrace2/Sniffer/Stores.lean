import Simtrace2.Sniffer.Refinement

/-! The sniffer stores nothing past the end of its buffers. -/
namespace Simtrace2
open Lib

structure SniffBuffers where
  atr : Buffer maxAtrSize
  req : Buffer maxPpsSize
  rsp : Buffer maxPpsSize
  packet : Buffer maxTpduSize

/-- Nothing has been stored behind one of the buffers. -/
structure SniffBuffers.InBounds (b : SniffBuffers) : Prop where
  atr : b.atr.behind = []
  req : b.req.behind = []
  rsp : b.rsp.behind = []
  packet : b.packet.behind = []

namespace Sniffer
variable {s : Sniffer}

def buffers (s : Sniffer) : SniffBuffers := ⟨s.gAtr.atr, s.gPps.req, s.gPps.rsp, s.gTpdu.packet⟩

/-! Most of the sniffer does not touch them. -/

@[simp] theorem buffers_submit (msg : SniffMsg) : (s.usbMsgSubmit msg).buffers = s.buffers := rfl

@[simp] theorem buffers_usbSendAtr (flags : UInt32) : (s.usbSendAtr flags).buffers = s.buffers := by
  unfold usbSendAtr
  split_ifs <;> rfl

@[simp] theorem buffers_usbSendTpdu (flags : UInt32) :
    (s.usbSendTpdu flags).buffers = s.buffers := by
  unfold usbSendTpdu
  split_ifs <;> rfl

@[simp] theorem buffers_usbSendPps (flags : UInt32) : (s.usbSendPps flags).buffers = s.buffers := by
  unfold usbSendPps
  split <;> rfl

@[simp] theorem buffers_updateFidi (fidi : UInt8) : (s.updateFidi fidi).buffers = s.buffers := by
  unfold updateFidi
  split
  · split <;> rfl
  · rfl

@[simp] theorem buffers_changeState (st : SniffState) : (s.changeState st).buffers = s.buffers := by
  unfold changeState
  split
  · rfl
  · cases st with
    | reset => exact buffers_updateFidi (s := s) 0x11
    | waitAtr | inAtr | waitTpdu | inTpdu | inPpsReq | waitPpsRsp | inPpsRsp => rfl

@[simp] theorem buffers_setAtrState (st : AtrSniffState) : (s.setAtrState st).buffers = s.buffers :=
  rfl

@[simp] theorem buffers_atrWaitTck : s.atrWaitTck.buffers = s.buffers := by
  simp only [atrWaitTck, buffers_changeState, buffers_usbSendAtr]
  split <;> rfl

@[simp] theorem buffers_atrWaitHist : s.atrWaitHist.buffers = s.buffers := by
  simp only [atrWaitHist, atrAfterHist]
  split_ifs
  · rfl
  · exact buffers_atrWaitTck
  · rfl

@[simp] theorem buffers_atrAfterTc : s.atrAfterTc.buffers = s.buffers := by
  unfold atrAfterTc
  split_ifs <;> simp

@[simp] theorem buffers_atrWaitTc (byte : UInt8) : (s.atrWaitTc byte).buffers = s.buffers := by
  unfold atrWaitTc
  split
  · exact buffers_atrAfterTc
  · exact buffers_atrAfterTc

@[simp] theorem buffers_atrWaitTb (byte : UInt8) : (s.atrWaitTb byte).buffers = s.buffers := by
  unfold atrWaitTb
  split <;> simp

@[simp] theorem buffers_atrWaitTa (byte : UInt8) : (s.atrWaitTa byte).buffers = s.buffers := by
  unfold atrWaitTa
  split <;> simp

@[simp] theorem buffers_atrAnnounce (byte : UInt8) : (s.atrAnnounce byte).buffers = s.buffers := by
  simp only [atrAnnounce]
  split
  · rfl
  · exact buffers_atrWaitTa byte

theorem buffers_atrWaitTs (byte : UInt8) : (s.atrWaitTs byte).buffers = s.buffers := by
  have malformed (s : Sniffer) :
      ((s.usbSendAtr sniffDataFlagErrorMalformed).changeState .waitAtr).buffers = s.buffers := by
    rw [buffers_changeState, buffers_usbSendAtr]
  simp only [atrWaitTs]
  split_ifs
  · rfl
  · rfl
  · exact malformed { s with gAtr.flags := 0 }

@[simp] theorem buffers_setPpsState (st : PpsSniffState) : (s.setPpsState st).buffers = s.buffers :=
  rfl

theorem buffers_ppsAgreed (cur : Buffer maxPpsSize) : (s.ppsAgreed cur).buffers = s.buffers :=
  buffers_updateFidi (cur.get 2)

theorem buffers_sendIncomplete : s.sendIncomplete.buffers = s.buffers := by
  unfold sendIncomplete
  split <;> simp

theorem buffers_handleTimeout : s.handleTimeout.buffers = s.buffers := by
  unfold handleTimeout
  split <;> simp [buffers_sendIncomplete]

theorem buffers_handleFlags : s.handleFlags.buffers = s.buffers := by
  have told (t : Sniffer) :
      Sniffer.buffers { t.usbSendChange t.changeFlags with changeFlags := 0 } = t.buffers := by
    unfold usbSendChange
    split <;> rfl
  unfold handleFlags
  split
  · rfl
  · simp only [told]
    split_ifs <;> simp [buffers_sendIncomplete]

/-! Every store is inside its buffer, by the guards in front of it. -/

theorem inBounds_atrSave (h : s.buffers.InBounds) (room : s.gAtr.atrI < maxAtrSize) (byte : UInt8) :
    (s.atrSave byte).buffers.InBounds :=
  { h with atr := (Buffer.behind_put _ room byte).trans h.atr }

theorem inBounds_processByteAtr (h : s.buffers.InBounds) (byte : UInt8) :
    (s.processByteAtr byte).buffers.InBounds := by
  unfold processByteAtr
  split
  · exact h
  · split
    · exact h
    · rename_i room
      have saved := inBounds_atrSave h (Nat.not_le.mp room) byte
      cases s.gAtr.state with
      | waitTs => exact (buffers_atrWaitTs byte).symm ▸ saved
      | waitT0 => exact (buffers_atrAnnounce byte).symm ▸ saved
      | waitTd => exact (buffers_atrAnnounce byte).symm ▸ saved
      | waitTa => exact (buffers_atrWaitTa byte).symm ▸ saved
      | waitTb => exact (buffers_atrWaitTb byte).symm ▸ saved
      | waitTc => exact (buffers_atrWaitTc byte).symm ▸ saved
      | waitHist => exact buffers_atrWaitHist.symm ▸ saved
      | waitTck => exact buffers_atrWaitTck.symm ▸ saved

theorem inBounds_ppsPut (h : s.buffers.InBounds) {i : Nat} (inside : i < maxPpsSize) (byte : UInt8) :
    (s.ppsPut i byte).buffers.InBounds := by
  unfold ppsPut
  split
  · exact { h with req := (Buffer.behind_put _ inside byte).trans h.req }
  · exact { h with rsp := (Buffer.behind_put _ inside byte).trans h.rsp }

theorem inBounds_ppsWaitPps3 (h : s.buffers.InBounds) (byte : UInt8) :
    (s.ppsWaitPps3 byte).buffers.InBounds :=
  inBounds_ppsPut h (by decide) byte

theorem inBounds_ppsWaitPps2 (h : s.buffers.InBounds) (byte : UInt8) :
    (s.ppsWaitPps2 byte).buffers.InBounds := by
  have put : (s.ppsPut 3 byte).buffers.InBounds := inBounds_ppsPut h (by decide) byte
  simp only [ppsWaitPps2]
  split
  · exact put
  · exact inBounds_ppsWaitPps3 put byte

theorem inBounds_ppsWaitPps1 (h : s.buffers.InBounds) (byte : UInt8) :
    (s.ppsWaitPps1 byte).buffers.InBounds := by
  have put : (s.ppsPut 2 byte).buffers.InBounds := inBounds_ppsPut h (by decide) byte
  simp only [ppsWaitPps1]
  split
  · exact put
  · exact inBounds_ppsWaitPps2 put byte

theorem inBounds_ppsWaitPps0 (h : s.buffers.InBounds) (byte : UInt8) :
    (s.ppsWaitPps0 byte).buffers.InBounds := by
  have put : (s.ppsPut 1 byte).buffers.InBounds := inBounds_ppsPut h (by decide) byte
  simp only [ppsWaitPps0]
  split
  · exact put
  · exact inBounds_ppsWaitPps1 put byte

theorem inBounds_ppsWaitPck (h : s.buffers.InBounds) (byte : UInt8) :
    (s.ppsWaitPck byte).buffers.InBounds := by
  have put : (s.ppsPut 5 byte).buffers.InBounds := inBounds_ppsPut h (by decide) byte
  have sent (flags : UInt32) (t : Sniffer) (same : t.buffers = (s.ppsPut 5 byte).buffers) :
      ((t.setPpsState .waitEnd).usbSendPps flags).buffers.InBounds := by
    rw [buffers_usbSendPps, buffers_setPpsState, same]
    exact put
  simp only [ppsWaitPck]
  split_ifs <;> simp only [buffers_changeState, buffers_ppsAgreed]
  all_goals
    apply sent
    rfl

theorem inBounds_processBytePps (h : s.buffers.InBounds) (byte : UInt8) :
    (s.processBytePps byte).buffers.InBounds := by
  unfold processBytePps
  split
  · cases s.gPps.state with
    | waitPpss =>
      simp only
      split
      · exact inBounds_ppsPut (s := { s with gPps.flags := 0 }) h (by decide) byte
      · rw [buffers_changeState, buffers_usbSendPps]
        exact h
    | waitPps0 => exact inBounds_ppsWaitPps0 h byte
    | waitPps1 => exact inBounds_ppsWaitPps1 h byte
    | waitPps2 => exact inBounds_ppsWaitPps2 h byte
    | waitPps3 => exact inBounds_ppsWaitPps3 h byte
    | waitPck => exact inBounds_ppsWaitPck h byte
    | waitEnd => exact h
  · exact h

theorem inBounds_tpduPut (h : s.buffers.InBounds) (room : s.gTpdu.packetI < maxTpduSize)
    (byte : UInt8) : (s.tpduPut byte).buffers.InBounds :=
  { h with packet := (Buffer.behind_put _ room byte).trans h.packet }

theorem inBounds_tpduHeader (h : s.buffers.InBounds) {i : Nat} (inside : i < maxTpduSize)
    (byte : UInt8) (next : TpduSniffState) : (s.tpduHeader i byte next).buffers.InBounds :=
  inBounds_tpduPut (s := { s with gTpdu.packetI := i }) h inside byte

theorem inBounds_tpduMalformed (h : s.buffers.InBounds) : s.tpduMalformed.buffers.InBounds := by
  rw [tpduMalformed, buffers_changeState, buffers_usbSendTpdu]
  exact h

theorem inBounds_tpduSw1 (h : s.buffers.InBounds) (room : s.gTpdu.packetI < maxTpduSize)
    (byte : UInt8) : (s.tpduSw1 byte).buffers.InBounds := by
  unfold tpduSw1
  split
  · exact inBounds_tpduPut h room byte
  · exact inBounds_tpduMalformed h

theorem inBounds_tpduProcedure (h : s.buffers.InBounds) (room : s.gTpdu.packetI < maxTpduSize)
    (byte : UInt8) : (s.tpduProcedure byte).buffers.InBounds := by
  unfold tpduProcedure
  split_ifs
  · exact h
  · exact h
  · exact h
  · exact inBounds_tpduSw1 h room byte

theorem inBounds_tpduData (h : s.buffers.InBounds) (room : s.gTpdu.packetI < maxTpduSize)
    (byte : UInt8) : (s.tpduData byte).buffers.InBounds := by
  have put := inBounds_tpduPut h room byte
  simp only [tpduData]
  split_ifs <;> exact put

theorem inBounds_processByteTpdu (h : s.buffers.InBounds) (byte : UInt8) :
    (s.processByteTpdu byte).buffers.InBounds := by
  unfold processByteTpdu
  split
  · exact h
  · split
    · exact h
    · rename_i room
      have room := Nat.not_le.mp room
      cases s.gTpdu.state with
      | cla =>
        simp only [tpduSwitch]
        split
        · exact inBounds_tpduMalformed h
        · exact inBounds_tpduHeader h (by decide) byte _
      | ins =>
        simp only [tpduSwitch]
        split
        · exact inBounds_tpduMalformed h
        · exact inBounds_tpduHeader h (by decide) byte _
      | p1 | p2 | p3 => exact inBounds_tpduHeader h (by decide) byte _
      | procedure => exact inBounds_tpduProcedure h room byte
      | sw1 => exact inBounds_tpduSw1 h room byte
      | sw2 =>
        simp only [tpduSwitch, buffers_changeState, buffers_usbSendTpdu]
        exact inBounds_tpduPut h room byte
      | dataRemaining | dataSingle => exact inBounds_tpduData h room byte

theorem inBounds_handleByte (h : s.buffers.InBounds) (byte : UInt8) :
    (s.handleByte byte).buffers.InBounds := by
  have entered (st : SniffState) : (s.changeState st).buffers.InBounds :=
    (buffers_changeState st).symm ▸ h
  unfold handleByte
  cases s.isoState with
  | reset => exact h
  | waitAtr => exact inBounds_processByteAtr (entered .inAtr) byte
  | inAtr => exact inBounds_processByteAtr h byte
  | waitTpdu =>
    simp only
    split
    · exact inBounds_processBytePps (entered .inPpsReq) byte
    · exact inBounds_processByteTpdu (entered .inTpdu) byte
  | waitPpsRsp =>
    simp only
    split
    · exact inBounds_processBytePps (entered .inPpsRsp) byte
    · exact inBounds_processByteTpdu h byte
  | inTpdu => exact inBounds_processByteTpdu h byte
  | inPpsReq | inPpsRsp => exact inBounds_processBytePps h byte

theorem inBounds_handleEntry (h : s.buffers.InBounds) (entry : UInt16) :
    (s.handleEntry entry).buffers.InBounds := by
  simp only [handleEntry]
  split_ifs
  · rw [buffers_handleTimeout]
    exact inBounds_handleByte h _
  · rw [buffers_handleTimeout]
    exact h
  · exact inBounds_handleByte h _
  · exact h

theorem inBounds_step (h : s.buffers.InBounds) (input : SniffInput) :
    (s.step input).buffers.InBounds := by
  cases input with
  | entry entry =>
    simp only [step, rbuf16Write]
    split <;> exact h
  | change flags => exact h
  | turn =>
    simp only [step, snifferRun, buffers_handleFlags]
    cases s.sniffBuffer with
    | nil => exact h
    | cons entry rest => exact inBounds_handleEntry (s := { s with sniffBuffer := rest }) h entry

end Sniffer
end Simtrace2
