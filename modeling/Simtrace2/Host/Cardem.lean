import Simtrace2.Host.Api
import Simtrace2.Host.Apdu

/-! `process_do_rx_da`: the host's answer to a message of the card emulation. -/
namespace Simtrace2

/-- What the host is linked to: the classification of commands, and the card in the
reader. `transceive` yields the response behind the command, split before the status
word that `msgb_get_u16` takes from its end; `none` is a negative result. Command and
response share the 1024 bytes of one buffer. -/
structure HostEnv where
  osimDetermineApduCase : TpduHdr → UInt8
  transceive : List UInt8 → Option (List UInt8 × UInt8 × UInt8)
  room : ∀ tmsg response sw, transceive tmsg = some (response, sw) →
    tmsg.length + response.length + 2 ≤ 1024

/-- The static variables of `process_do_rx_da`, the commands given to the card, and
whether the program has ended. -/
structure Host where
  ac : OsmoApduContext
  prevAc : OsmoApduContext
  invoked : List (List UInt8)
  exited : Bool

namespace Host

def init : Host := { ac := .zero, prevAc := .zero, invoked := [], exited := false }

def tpdu (ac : OsmoApduContext) : List UInt8 := ac.hdr.bytes ++ ac.dc.take ac.lc.tot.toNat

def txCapduToCard (env : HostEnv) (h : Host) : Host × List TxRequest :=
  let tmsg := tpdu h.ac
  let h := { h with invoked := h.invoked ++ [tmsg] }
  match env.transceive tmsg with
  | none => (h, [])
  | some (response, sw) =>
    ({ h with ac.sw := sw },
     (if response = [] then [] else [osmoSt2CardemRequestPbAndTx h.ac.hdr.ins response])
       ++ [osmoSt2CardemRequestSwTx sw])

def processDoRxDa (env : HostEnv) (h : Host) (flags : UInt32) (data : List UInt8) :
    Host × List TxRequest :=
  if h.exited then (h, [])
  else
    match osmoApduSegmentIn2 env.osimDetermineApduCase h.ac h.prevAc data
        (hasFlag flags cemuDataFTpduHdr) with
    | (ac, prevAc, none) => ({ h with ac, prevAc, exited := true }, [])
    | (ac, prevAc, some action) =>
      let h := { h with ac, prevAc }
      match action with
      | .txCapduToCard => txCapduToCard env h
      | .rxMoreCapduFromReader =>
        (h, if ac.lc.cur < ac.lc.tot then [osmoSt2CardemRequestPbAndRx ac.hdr.ins] else [])

end Host
end Simtrace2
