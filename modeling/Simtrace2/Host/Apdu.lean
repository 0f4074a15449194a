import Simtrace2.Prot

/-! `apdu_dispatch.c`: the host's reading of a command from the pieces in which the
firmware delivers it. -/
namespace Simtrace2
open Lib

structure ApduCount where
  tot : UInt8
  cur : UInt8
deriving DecidableEq, Repr

structure OsmoApduContext where
  hdr : TpduHdr
  dc : List UInt8
  sw : UInt8 × UInt8
  apduCase : UInt8
  lc : ApduCount
  le : ApduCount
deriving DecidableEq, Repr

def OsmoApduContext.zero : OsmoApduContext :=
  { hdr := ⟨0, 0, 0, 0, 0⟩, dc := List.replicate 256 0, sw := (0, 0), apduCase := 0
    lc := ⟨0, 0⟩, le := ⟨0, 0⟩ }

inductive OsmoApduAction where
  | txCapduToCard | rxMoreCapduFromReader
deriving DecidableEq, Repr

namespace OsmoApduContext

def isDcComplete (ac : OsmoApduContext) : Bool := ac.lc.tot == ac.lc.cur

def readHdr (apduBuf : List UInt8) : TpduHdr :=
  let at' (i : Nat) : UInt8 := (apduBuf[i]?).getD 0
  ⟨at' 0, at' 1, at' 2, at' 3, at' 4⟩

/-- The card has asked for the command again with another P3, and this is it. -/
def repeats (ac prevAc : OsmoApduContext) : Bool :=
  prevAc.sw.1 == 0x6c && (1 ≤ prevAc.apduCase && prevAc.apduCase < 4)
    && ac.hdr.cla == prevAc.hdr.cla && ac.hdr.ins == prevAc.hdr.ins
    && ac.hdr.p1 == prevAc.hdr.p1 && ac.hdr.p2 == prevAc.hdr.p2

def startDc (ac : OsmoApduContext) (apduBuf : List UInt8) : OsmoApduContext :=
  let cur := UInt8.ofNat (apduBuf.length - 5)
  { ac with
    lc := ⟨ac.hdr.p3, cur⟩
    dc := splice ac.dc 0 ((apduBuf.drop 5).take cur.toNat) }

/-- The first switch for a new APDU; `none` is the result -1. -/
def startApdu (ac : OsmoApduContext) (apduBuf : List UInt8) : Option OsmoApduContext :=
  if ac.apduCase = 1 then some { ac with lc.tot := 0, le.tot := 0 }
  else if ac.apduCase = 2 then some { ac with le.tot := ac.hdr.p3 }
  else if ac.apduCase = 3 ∨ ac.apduCase = 4 then some (ac.startDc apduBuf)
  else none

/-- `cpy_len`: an `int` that is compared as an unsigned one. -/
def cpyLen (ac : OsmoApduContext) (apduLen : Nat) : Nat :=
  if ac.lc.cur ≤ ac.lc.tot then min (ac.lc.tot.toNat - ac.lc.cur.toNat) apduLen else apduLen

def moreDc (ac : OsmoApduContext) (apduBuf : List UInt8) : Option OsmoApduContext :=
  if ac.apduCase = 1 ∨ ac.apduCase = 2 then some ac
  else if ac.apduCase = 3 ∨ ac.apduCase = 4 then
    let n := ac.cpyLen apduBuf.length
    some { ac with
      dc := splice ac.dc ac.lc.cur.toNat (apduBuf.take n)
      lc.cur := ac.lc.cur + UInt8.ofNat n }
  else none

def decision (ac : OsmoApduContext) : Option OsmoApduAction :=
  if ac.apduCase = 1 ∨ ac.apduCase = 2 then some .txCapduToCard
  else if ac.apduCase = 3 ∨ ac.apduCase = 4 then
    if ac.isDcComplete then some .txCapduToCard else some .rxMoreCapduFromReader
  else none

end OsmoApduContext

/-- `osmo_apdu_segment_in2`, with `osim_determine_apdu_case` for the profile in use.
The result is the two contexts and the action; `none` where it is -1. -/
def osmoApduSegmentIn2 (osimDetermineApduCase : TpduHdr → UInt8) (ac prevAc : OsmoApduContext)
    (apduBuf : List UInt8) (newApdu : Bool) :
    OsmoApduContext × OsmoApduContext × Option OsmoApduAction :=
  if newApdu then
    let prevAc := ac
    let hdr := OsmoApduContext.readHdr apduBuf
    let ac := { OsmoApduContext.zero with hdr, apduCase := osimDetermineApduCase hdr }
    let ac := if ac.repeats prevAc then { ac with apduCase := prevAc.apduCase } else ac
    match ac.startApdu apduBuf with
    | none => (ac, prevAc, none)
    | some ac => (ac, prevAc, ac.decision)
  else
    match ac.moreDc apduBuf with
    | none => (ac, prevAc, none)
    | some ac => (ac, prevAc, ac.decision)

end Simtrace2
