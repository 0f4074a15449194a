import Simtrace2.Prot
import Simtrace2.Msgb

/-! The requests of `simtrace2_api.c` that answer a TPDU, as the bytes that go out on
USB. -/
namespace Simtrace2
open Lib

/-- `struct cardemu_usb_msg_tx_data` with its data; `data_len` is their number. -/
structure TxRequest where
  flags : UInt32
  payload : List UInt8
deriving DecidableEq, Repr

def osmoSt2SlotTxMsg (slotNr : UInt8) (msg : TxRequest) : List UInt8 :=
  encodeHdr simtraceMsgcCardem msgtDtCemuTxData slotNr
      (sizeofMsgHdr + sizeofTxData + msg.payload.length)
    ++ leBytes 4 msg.flags.toNat ++ leBytes 2 msg.payload.length ++ msg.payload

def osmoSt2CardemRequestPbAndRx (pb : UInt8) : TxRequest := ⟨cemuDataFPbAndRx, [pb]⟩

def osmoSt2CardemRequestPbAndTx (pb : UInt8) (data : List UInt8) : TxRequest :=
  ⟨cemuDataFPbAndTx, pb :: data⟩

def osmoSt2CardemRequestSwTx (sw : UInt8 × UInt8) : TxRequest :=
  ⟨cemuDataFPbAndTx ||| cemuDataFFinal, [sw.1, sw.2]⟩

end Simtrace2
