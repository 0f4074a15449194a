import Simtrace2.Host.Api

/-! All requests of `simtrace2_api.c` to a slot, and the bytes they go out as. -/
namespace Simtrace2
open Lib

def simtraceMsgcGeneric : UInt8 := 0
def simtraceMsgcModem : UInt8 := 2
def msgtDtModemReset : UInt8 := 1
def msgtDtModemSimSelect : UInt8 := 2

/-- A request with the arguments of its API function. -/
inductive Request where
  | cardInsert (inserted : Bool)
  | pbAndRx (pb : UInt8)
  | pbAndTx (pb : UInt8) (data : List UInt8) (small : data.length ≤ 256)
  | swTx (sw : UInt8 × UInt8)
  | setAtr (atr : List UInt8) (small : atr.length ≤ 33)
  | config (features : UInt32)
  | config2 (features : UInt32) (slotMuxNr presPol : UInt8)
  | modemResetPulse (durationMs : UInt16)
  | modemResetActive
  | modemResetInactive
  | simSelectLocal
  | simSelectRemote

/-- The buffer of a request when `osmo_st2_slot_tx_msg` gets it. -/
structure ApiMsg where
  msgClass : UInt8
  msgType : UInt8
  payload : List UInt8

namespace ApiMsg

def txData (req : TxRequest) : ApiMsg :=
  { msgClass := simtraceMsgcCardem, msgType := msgtDtCemuTxData
    payload := leBytes 4 req.flags.toNat ++ leBytes 2 req.payload.length ++ req.payload }

def modemReset (asserted : UInt8) (pulseMs : UInt16) : ApiMsg :=
  { msgClass := simtraceMsgcModem, msgType := msgtDtModemReset
    payload := asserted :: leBytes 2 pulseMs.toNat }

def modemSimSelect (remoteSim : UInt8) : ApiMsg :=
  { msgClass := simtraceMsgcModem, msgType := msgtDtModemSimSelect, payload := [remoteSim] }

def cardInsert (inserted : Bool) : ApiMsg :=
  { msgClass := simtraceMsgcCardem, msgType := msgtDtCemuCardinsert
    payload := [if inserted then 1 else 0] }

def setAtr (atr : List UInt8) : ApiMsg :=
  { msgClass := simtraceMsgcCardem, msgType := msgtDtCemuSetAtr
    payload := UInt8.ofNat atr.length :: atr }

def config2 (features : UInt32) (slotMuxNr presPol : UInt8) : ApiMsg :=
  { msgClass := simtraceMsgcCardem, msgType := msgtBdCemuConfig
    payload := leBytes 4 features.toNat ++ [slotMuxNr, presPol] }

/-- `slot_mux_nr` and `pres_pol` stay zero. -/
def config (features : UInt32) : ApiMsg := config2 features 0 0

/-- `st_push_hdr`: the header with the total length, in front of the payload. -/
def bytes (m : ApiMsg) (slotNr : UInt8) : List UInt8 :=
  encodeHdr m.msgClass m.msgType slotNr (sizeofMsgHdr + m.payload.length) ++ m.payload

theorem bytes_length (m : ApiMsg) (slotNr : UInt8) :
    (m.bytes slotNr).length = sizeofMsgHdr + m.payload.length := by
  simp [bytes, encodeHdr, sizeofMsgHdr]
  omega

theorem txData_bytes (req : TxRequest) (slotNr : UInt8) :
    (txData req).bytes slotNr = osmoSt2SlotTxMsg slotNr req := by
  have len : sizeofMsgHdr + (txData req).payload.length =
      sizeofMsgHdr + sizeofTxData + req.payload.length := by
    simp only [txData, List.length_append, leBytes_length, sizeofTxData]
    omega
  rw [bytes, len]
  simp only [txData, osmoSt2SlotTxMsg, List.append_assoc]

end ApiMsg

namespace Request

def msg : Request → ApiMsg
  | cardInsert inserted => .cardInsert inserted
  | pbAndRx pb => .txData (osmoSt2CardemRequestPbAndRx pb)
  | pbAndTx pb data _ => .txData (osmoSt2CardemRequestPbAndTx pb data)
  | swTx sw => .txData (osmoSt2CardemRequestSwTx sw)
  | setAtr atr _ => .setAtr atr
  | config features => .config features
  | config2 features slotMuxNr presPol => .config2 features slotMuxNr presPol
  | modemResetPulse durationMs => .modemReset 2 durationMs
  | modemResetActive => .modemReset 1 0
  | modemResetInactive => .modemReset 0 0
  | simSelectLocal => .modemSimSelect 0
  | simSelectRemote => .modemSimSelect 1

def bytes (r : Request) (slotNr : UInt8) : List UInt8 := r.msg.bytes slotNr

end Request
end Simtrace2
