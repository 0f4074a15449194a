import Simtrace2.Msgb
import Simtrace2.Sniffer.State

/-! The messages of the sniffer as they go over USB. -/
namespace Simtrace2
open Lib

def simtraceMsgcSniff : UInt8 := 3
def msgtSniffChange : UInt8 := 0
def msgtSniffFidi : UInt8 := 1
def msgtSniffAtr : UInt8 := 2
def msgtSniffPps : UInt8 := 3
def msgtSniffTpdu : UInt8 := 4

def SniffType.msgType : SniffType → UInt8
  | .atr => msgtSniffAtr
  | .pps => msgtSniffPps
  | .tpdu => msgtSniffTpdu

/-- The most data a message of a type carries: the size of the parser's buffer. -/
def SniffType.limit : SniffType → Nat
  | .atr => maxAtrSize
  | .pps => maxPpsSize
  | .tpdu => maxTpduSize

namespace SniffMsg

def msgType : SniffMsg → UInt8
  | data type _ _ => type.msgType
  | fidi _ => msgtSniffFidi
  | change _ => msgtSniffChange

def payload : SniffMsg → List UInt8
  | data _ flags bytes => leBytes 4 flags.toNat ++ leBytes 2 bytes.length ++ bytes
  | fidi value => [value]
  | change flags => leBytes 4 flags.toNat

def encode (m : SniffMsg) : List UInt8 :=
  encodeHdr simtraceMsgcSniff m.msgType 0 (sizeofMsgHdr + m.payload.length) ++ m.payload

/-- The line data of a message. -/
def lineData : SniffMsg → List UInt8
  | data _ _ bytes => bytes
  | fidi _ | change _ => []

def Fits : SniffMsg → Prop
  | data type _ bytes => bytes.length ≤ type.limit
  | fidi _ | change _ => True

theorem encode_length (m : SniffMsg) : m.encode.length = sizeofMsgHdr + m.payload.length := by
  simp [encode, encodeHdr, sizeofMsgHdr]
  omega

theorem Fits.encode {m : SniffMsg} (fits : m.Fits) : m.encode.length ≤ usbAllocSize := by
  rw [encode_length]
  cases m with
  | data type flags bytes =>
    have small : bytes.length ≤ 263 := by
      cases type <;> simp only [Fits, SniffType.limit, maxAtrSize, maxPpsSize, maxTpduSize] at fits <;>
        omega
    simp only [payload, sizeofMsgHdr, usbAllocSize, List.length_append, leBytes_length]
    omega
  | fidi _ | change _ => simp [payload, sizeofMsgHdr, usbAllocSize]

end SniffMsg
end Simtrace2
