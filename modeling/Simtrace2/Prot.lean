import Simtrace2.Lib.Bytes

/-! The part of `simtrace_prot.h` that the card emulation and its host exchange. -/
namespace Simtrace2
open Lib

/-! Message classes and types. -/
def simtraceMsgcCardem : UInt8 := 1
def msgtDtCemuTxData : UInt8 := 1
def msgtDtCemuSetAtr : UInt8 := 2
def msgtBdCemuStatus : UInt8 := 4
def msgtDtCemuCardinsert : UInt8 := 5
def msgtDoCemuRxData : UInt8 := 6
def msgtDoCemuPts : UInt8 := 7
def msgtBdCemuConfig : UInt8 := 8

def sizeofMsgHdr : Nat := 8
/-- `sizeof(struct cardemu_usb_msg_tx_data)`, and of its twin `rx_data`. -/
def sizeofTxData : Nat := 6

def cemuDataFTpduHdr : UInt32 := 1
def cemuDataFFinal : UInt32 := 2
def cemuDataFPbAndTx : UInt32 := 4
def cemuDataFPbAndRx : UInt32 := 8

def cemuStatusFVccPresent : UInt32 := 1
def cemuStatusFClkActive : UInt32 := 2
def cemuStatusFResetActive : UInt32 := 16

def cemuFeatFStatusIrq : UInt32 := 1
def cemuConfigPresPolPresH : UInt8 := 1
def cemuConfigPresPolValid : UInt8 := 2

def hasFlag (flags bit : UInt32) : Bool := flags &&& bit != 0

theorem pbAndTx_flags : hasFlag cemuDataFPbAndTx cemuDataFPbAndRx = false ∧
    hasFlag cemuDataFPbAndTx cemuDataFFinal = false := by decide

theorem swTx_flags : hasFlag (cemuDataFPbAndTx ||| cemuDataFFinal) cemuDataFPbAndRx = false ∧
    hasFlag (cemuDataFPbAndTx ||| cemuDataFFinal) cemuDataFFinal = true := by decide

def hasBit (b bit : UInt8) : Bool := b &&& bit != 0

/-- `struct simtrace_msg_hdr` with the fields both sides leave at zero. -/
def encodeHdr (msgClass msgType slotNr : UInt8) (msgLen : Nat) : List UInt8 :=
  [msgClass, msgType, 0, slotNr, 0, 0] ++ leBytes 2 msgLen

theorem leValue_flags (flags : UInt32) : UInt32.ofNat (leValue (leBytes 4 flags.toNat)) = flags := by
  have small : flags.toNat < 256 ^ 4 := UInt32.toNat_lt flags
  rw [leValue_leBytes, Nat.mod_eq_of_lt small, UInt32.ofNat_toNat]

structure TpduHdr where
  cla : UInt8
  ins : UInt8
  p1 : UInt8
  p2 : UInt8
  p3 : UInt8
deriving DecidableEq, Repr

def TpduHdr.bytes (h : TpduHdr) : List UInt8 := [h.cla, h.ins, h.p1, h.p2, h.p3]

@[simp] theorem TpduHdr.bytes_length (h : TpduHdr) : h.bytes.length = 5 := rfl

end Simtrace2
