import Simtrace2.Lib.Packets

/-! The driver of the USB device port (`USBD_HAL.c`) at an end-point to the host: a write goes packet by
packet through one bank or two, until the interrupt behind the last of them finds it finished. The
end-points that carry messages are not control end-points. -/
namespace Simtrace2
open Lib

/-- `UDP_ENDPOINT_*`, of which nothing but a halt request and the multi-buffer lists set the others. -/
inductive UdpState where
  | disabled | idle | sending | receiving
deriving DecidableEq, Repr

/-- `USBD_STATUS_*`, as far as transfers end with them. -/
inductive UsbdStatus where
  | success | reset
deriving DecidableEq, Repr

/-- The size of the end-point's packets, and `CHIP_USB_ENDPOINTS_BANKS`. `UDP_RST_EP` empties the banks;
`rstFlags` says whether the port also takes their flags back then, and `rstBank` whether it goes on
with the first bank. -/
structure UdpConfig where
  size : Nat
  banks : Nat
  rstFlags : Bool
  rstBank : Bool
  pos : 0 < size
  known : banks = 1 ∨ banks = 2

/-- `Endpoint` with its `Transfer`, whose `pData` points at what is still to be put into a bank, and
the registers: the bank that `UDP_FDR` fills, the one given to the port, TXCOMP, and the interrupt's
mask. `bus` is what the host has taken, `ended` what the call-backs of the transfers were told. -/
structure UdpIn where
  state : UdpState
  pData : List UInt8
  transferred : Int
  buffered : Int
  remaining : Int
  fdr : List UInt8
  txPktRdy : Option (List UInt8)
  txComp : Bool
  enabled : Bool
  bus : List (List UInt8)
  ended : List UsbdStatus

namespace UdpIn

def init : UdpIn :=
  { state := .disabled, pData := [], transferred := 0, buffered := 0, remaining := 0, fdr := []
    txPktRdy := none, txComp := false, enabled := false, bus := [], ended := [] }

/-- `UDP_WritePayload` -/
def writePayload (c : UdpConfig) (u : UdpIn) : UdpIn :=
  let size : Int := if u.remaining < c.size then u.remaining else c.size
  { u with
    buffered := u.buffered + size, remaining := u.remaining - size
    fdr := u.fdr ++ u.pData.take size.toNat, pData := u.pData.drop size.toNat }

/-- `SET_CSR(bEndpoint, UDP_CSR_TXPKTRDY)` gives the bank to the port. -/
def setTxPktRdy (u : UdpIn) : UdpIn := { u with txPktRdy := some u.fdr, fdr := [] }

def clearTxComp (u : UdpIn) : UdpIn := { u with txComp := false }

/-- The host asks for a packet, and acknowledges the one it gets. -/
def inToken (u : UdpIn) : UdpIn :=
  match u.txPktRdy with
  | none => u
  | some packet => { u with txPktRdy := none, txComp := true, bus := u.bus ++ [packet] }

/-- `UDP_Write`, and whether it has started the transfer. It waits until the host has taken a
packet that is still there. -/
def udpWrite (c : UdpConfig) (u : UdpIn) (data : List UInt8) : UdpIn × Bool :=
  if u.state ≠ .idle then (u, false)
  else
    let u := { u with
      pData := data, remaining := data.length, buffered := 0, transferred := 0, state := .sending }
    let u := (u.inToken.writePayload c).setTxPktRdy
    let u := if 1 < c.banks ∧ 0 < u.remaining then u.writePayload c else u
    ({ u with enabled := true }, true)

/-- `UDP_IsTransferFinished` -/
def isTransferFinished (c : UdpConfig) (u : UdpIn) : Bool :=
  u.buffered ≤ c.size ∧ u.remaining = 0

/-- The next packet. With two banks it is given away before the one behind it is filled. `raced` says
whether the host takes it before TXCOMP is cleared. -/
def sendNext (c : UdpConfig) (raced : Bool) (u : UdpIn) : UdpIn :=
  let u := { u with transferred := u.transferred + c.size, buffered := u.buffered - c.size }
  let takes (u : UdpIn) : UdpIn := if raced then u.inToken else u
  if c.banks = 1 then (takes (u.writePayload c).setTxPktRdy).clearTxComp
  else (takes u.setTxPktRdy).clearTxComp.writePayload c

/-- What `UDP_EndOfTransfer` does to a transfer before it calls back. -/
def endOfTransfer (u : UdpIn) (status : UsbdStatus) : UdpIn :=
  { u with
    state := .idle, pData := [], transferred := -1, buffered := -1, remaining := -1
    ended := u.ended ++ [status] }

/-- `USBD_HAL_ResetEPs` at the end of a bus reset, which has cleared the registers. The state is no
longer one of a transfer when `UDP_EndOfTransfer` looks at it, so that nothing is called back. -/
def resetEp (u : UdpIn) : UdpIn :=
  { u with enabled := false, fdr := [], txPktRdy := none, txComp := false, state := .disabled }

/-- `UDP_RST_EP`, set and cleared. -/
def rstEp (c : UdpConfig) (u : UdpIn) : UdpIn :=
  if c.rstFlags then { u with fdr := [], txPktRdy := none, txComp := false }
  else { u with fdr := [], txPktRdy := u.txPktRdy.map fun _ => [] }

/-- `USBD_HAL_ConfigureEP` behind the end of a transfer under way. -/
def configureEp (c : UdpConfig) (u : UdpIn) : UdpIn := { u with state := .idle }.rstEp c

end UdpIn

/-! ### One transfer -/

namespace UdpIn
variable {c : UdpConfig} {u : UdpIn} {data cur next : List UInt8} {wire sent : List (List UInt8)}

theorem writePayload_eq (left : u.remaining = u.pData.length) : u.writePayload c = { u with
    buffered := u.buffered + (u.pData.take c.size).length
    remaining := (u.pData.drop c.size).length
    fdr := u.fdr ++ u.pData.take c.size, pData := u.pData.drop c.size } := by
  unfold writePayload
  rw [left]
  split
  · rename_i short
    have all : u.pData.length ≤ c.size := by omega
    simp [List.take_of_length_le all, List.drop_of_length_le all]
  · rename_i long
    have more : c.size ≤ u.pData.length := by omega
    simp [List.length_take_of_le more]
    omega

/-- A transfer under way. The packets `sent` are done with, `cur` is the one the port has or the host
has just taken, `next` waits in the other bank. -/
structure Sending (c : UdpConfig) (u : UdpIn) (data : List UInt8) (wire sent : List (List UInt8))
    (cur next : List UInt8) : Prop where
  state : u.state = .sending
  cut : packets c.size data = sent ++ packets c.size (cur ++ next ++ u.pData)
  transferred : u.transferred + (cur ++ next ++ u.pData).length = data.length
  buffered : u.buffered = (cur ++ next).length
  remaining : u.remaining = u.pData.length
  small : cur.length ≤ c.size
  full : cur.length < c.size → next ++ u.pData = []
  second : next.length ≤ c.size
  single : c.banks = 1 → next = []
  dual : c.banks = 2 → next.length < c.size → u.pData = []
  fdr : u.fdr = next
  enabled : u.enabled = true
  port : u.txPktRdy = some cur ∧ u.txComp = false ∧ u.bus = wire ++ sent ∨
    u.txPktRdy = none ∧ u.txComp = true ∧ u.bus = wire ++ sent ++ [cur]

theorem udpWrite_idle (data : List UInt8) (idle : u.state = .idle) (none : u.txPktRdy = none) :
    (u.udpWrite c data).2 = true ∧ (u.udpWrite c data).1 = { u with
      state := .sending, transferred := 0, enabled := true
      txPktRdy := some (u.fdr ++ data.take c.size)
      fdr := if c.banks = 2 then (data.drop c.size).take c.size else []
      pData := if c.banks = 2 then (data.drop c.size).drop c.size else data.drop c.size
      buffered := (data.take c.size).length +
        (if c.banks = 2 then ((data.drop c.size).take c.size).length else 0)
      remaining :=
        (if c.banks = 2 then (data.drop c.size).drop c.size else data.drop c.size).length } := by
  have first : ∀ v : UdpIn, v.remaining = v.pData.length → v.writePayload c = _ :=
    fun v => writePayload_eq
  simp only [udpWrite, idle, ne_eq, not_true_eq_false, if_false, inToken, none, true_and]
  rw [first _ rfl]
  rcases c.known with single | dual
  · simp [single, setTxPktRdy]
  · by_cases more : 0 < (data.drop c.size).length
    · simp only [dual, setTxPktRdy]
      rw [if_pos ⟨by decide, by simpa using more⟩, first _ rfl]
      simp
    · have all : data.drop c.size = [] := List.length_eq_zero_iff.mp (Nat.eq_zero_of_not_pos more)
      simp [dual, setTxPktRdy, all]

/-- A write that finds the driver idle is under way, as soon as TXCOMP of the one before is cleared. -/
theorem udpWrite_sending (data : List UInt8) (idle : u.state = .idle) (none : u.txPktRdy = none)
    (empty : u.fdr = []) :
    ∃ cur next, Sending c (u.udpWrite c data).1.clearTxComp data u.bus [] cur next ∧
      (u.udpWrite c data).1.txPktRdy = some cur := by
  obtain ⟨_, started⟩ := udpWrite_idle (c := c) data idle none
  refine ⟨data.take c.size, if c.banks = 2 then (data.drop c.size).take c.size else [], ?_, by
    rw [started, empty, List.nil_append]⟩
  have split : (data.take c.size ++ if c.banks = 2 then (data.drop c.size).take c.size else []) ++
      (if c.banks = 2 then (data.drop c.size).drop c.size else data.drop c.size) = data := by
    split
    · rw [List.append_assoc, List.take_append_drop, List.take_append_drop]
    · rw [List.append_nil, List.take_append_drop]
  rw [started, empty]
  refine ⟨rfl, ?_, ?_, ?_, rfl, ?_, ?_, ?_, ?_, ?_, rfl, rfl, ?_⟩
  · simp only [clearTxComp, split, List.nil_append]
  · simp only [clearTxComp, split, Int.zero_add]
  · rcases c.known with single | dual
    · simp [clearTxComp, single]
    · simp [clearTxComp, dual]
  · exact List.length_take_le _ _
  · intro short
    have all : data.drop c.size = [] := by
      rw [List.length_take] at short
      exact List.drop_of_length_le (by omega)
    simp [clearTxComp, all]
  · split
    · exact List.length_take_le _ _
    · exact Nat.zero_le _
  · intro single
    simp [single]
  · intro dual short
    simp only [dual, if_true, List.length_take, List.length_drop] at short
    simp only [clearTxComp, dual, if_true, List.drop_drop]
    exact List.drop_of_length_le (by omega)
  · exact .inl ⟨by simp [clearTxComp], rfl, by simp [clearTxComp]⟩

namespace Sending

/-- The host takes the packet that the port has. -/
theorem inToken (h : Sending c u data wire sent cur next) :
    Sending c u.inToken data wire sent cur next := by
  obtain ⟨state, cut, transferred, buffered, remaining, small, full, second, single, dual, fdr, enabled,
    ⟨ready, comp, bus⟩ | ⟨ready, comp, bus⟩⟩ := h
  · simp only [UdpIn.inToken, ready]
    exact ⟨state, cut, transferred, buffered, remaining, small, full, second, single, dual, fdr,
      enabled, .inr ⟨rfl, rfl, by rw [bus]⟩⟩
  · simp only [UdpIn.inToken, ready]
    exact ⟨state, cut, transferred, buffered, remaining, small, full, second, single, dual, fdr,
      enabled, .inr ⟨ready, comp, bus⟩⟩

theorem finished_iff (h : Sending c u data wire sent cur next) :
    u.isTransferFinished c = true ↔ next ++ u.pData = [] := by
  have size := h.full
  have second := h.second
  simp only [isTransferFinished, h.buffered, h.remaining, List.length_append, decide_eq_true_eq]
  constructor
  · rintro ⟨fits, none⟩
    have left : u.pData = [] := List.length_eq_zero_iff.mp (by omega)
    by_cases short : cur.length < c.size
    · exact size short
    · have other : next = [] := List.length_eq_zero_iff.mp (by omega)
      rw [left, other, List.nil_append]
  · intro none
    obtain ⟨other, left⟩ := List.append_eq_nil_iff.mp none
    have small := h.small
    rw [other, left]
    simp
    omega

/-- A transfer whose last packet has been taken has been sent as a whole. -/
theorem finished (h : Sending c u data wire sent cur next) (comp : u.txComp = true)
    (finished : u.isTransferFinished c = true) :
    u.bus = wire ++ packets c.size data ∧ u.transferred + u.buffered = data.length ∧
      u.fdr = [] ∧ u.txPktRdy = none := by
  obtain ⟨other, left⟩ := List.append_eq_nil_iff.mp (h.finished_iff.mp finished)
  rcases h.port with ⟨_, clear, _⟩ | ⟨ready, _, bus⟩
  · rw [clear] at comp
    cases comp
  · have cut := h.cut
    have transferred := h.transferred
    simp only [other, left, List.append_nil, packets_short h.small] at cut transferred
    refine ⟨?_, ?_, by rw [h.fdr, other], ready⟩
    · rw [bus, cut, List.append_assoc]
    · rw [h.buffered, other, List.append_nil, transferred]

/-- What is left behind a packet that is not the last begins with the next one. -/
theorem cut_next (h : Sending c u data wire sent cur next) (more : next ++ u.pData ≠ []) :
    packets c.size data = sent ++ [cur] ++ packets c.size (next ++ u.pData) ∧ cur.length = c.size := by
  have whole : cur.length = c.size := by
    by_contra short
    have small := h.small
    exact more (h.full (by omega))
  have long : c.size < (cur ++ (next ++ u.pData)).length := by
    have some := List.length_pos_iff.mpr more
    rw [List.length_append, whole]
    omega
  refine ⟨?_, whole⟩
  rw [h.cut, List.append_assoc cur, packets_long c.pos long, List.take_left' whole,
    List.drop_left' whole, List.append_assoc, List.singleton_append]

/-- The interrupt behind a packet that is not the last gets the next one on its way. -/
theorem sendNext (h : Sending c u data wire sent cur next) (comp : u.txComp = true)
    (more : ¬ u.isTransferFinished c = true) :
    ∃ cur' next', Sending c (u.sendNext c false) data wire (sent ++ [cur]) cur' next' := by
  have more : next ++ u.pData ≠ [] := fun none => more (h.finished_iff.mpr none)
  obtain ⟨cut, whole⟩ := h.cut_next more
  have transferred := h.transferred
  have bus : u.bus = wire ++ (sent ++ [cur]) := by
    rcases h.port with ⟨_, clear, _⟩ | ⟨_, _, bus⟩
    · rw [clear] at comp
      cases comp
    · rw [bus, List.append_assoc]
  rcases c.known with single | dual
  · have none := h.single single
    simp only [none, List.nil_append, List.append_nil] at cut transferred more
    refine ⟨u.pData.take c.size, [], ?_⟩
    have payload := writePayload_eq (c := c) (u := { u with
      transferred := u.transferred + c.size, buffered := u.buffered - c.size }) h.remaining
    simp only [UdpIn.sendNext, single, if_true, payload, setTxPktRdy, clearTxComp, Bool.false_eq_true,
      if_false]
    refine ⟨h.state, ?_, ?_, ?_, rfl, List.length_take_le _ _, ?_, Nat.zero_le _, fun _ => rfl, ?_, rfl,
      h.enabled, .inl ⟨?_, rfl, bus⟩⟩
    · simpa using cut
    · simp only [List.append_nil, List.take_append_drop]
      rw [List.length_append, whole] at transferred
      omega
    · simp only [h.buffered, none, List.append_nil, whole]
      omega
    · intro short
      rw [List.length_take] at short
      rw [List.nil_append]
      exact List.drop_of_length_le (by omega)
    · intro dual
      rw [single] at dual
      cases dual
    · rw [h.fdr, none, List.nil_append]
  · refine ⟨next, u.pData.take c.size, ?_⟩
    have notSingle : ¬ c.banks = 1 := by omega
    have payload := writePayload_eq (c := c) (u := { u with
      transferred := u.transferred + c.size, buffered := u.buffered - c.size
      txPktRdy := some u.fdr, fdr := [], txComp := false }) h.remaining
    simp only [UdpIn.sendNext, notSingle, if_false, setTxPktRdy, clearTxComp, Bool.false_eq_true,
      payload]
    refine ⟨h.state, ?_, ?_, ?_, rfl, h.second, ?_, List.length_take_le _ _, ?_, ?_, rfl, h.enabled,
      .inl ⟨by rw [h.fdr], rfl, bus⟩⟩
    · simpa using cut
    · simp only [List.append_assoc, List.take_append_drop]
      rw [List.append_assoc, List.length_append, whole] at transferred
      omega
    · simp only [h.buffered, List.length_append, whole]
      omega
    · intro short
      have left := h.dual dual short
      simp [left]
    · intro single
      exact absurd single notSingle
    · intro _ short
      rw [List.length_take] at short
      exact List.drop_of_length_le (by omega)

end Sending

theorem configureEp_rest (c : UdpConfig) (u : UdpIn) : (u.configureEp c).state = .idle ∧
    (u.configureEp c).bus = u.bus ∧ (u.configureEp c).ended = u.ended ∧
      (u.txPktRdy = none → (u.configureEp c).txPktRdy = none) := by
  unfold configureEp rstEp
  split
  · exact ⟨rfl, rfl, rfl, fun _ => rfl⟩
  · exact ⟨rfl, rfl, rfl, fun none => by simp [none]⟩

theorem inToken_ended (u : UdpIn) : u.inToken.ended = u.ended := by
  unfold UdpIn.inToken
  split <;> rfl

theorem udpWrite_ended (c : UdpConfig) (u : UdpIn) (data : List UInt8) :
    (u.udpWrite c data).1.ended = u.ended := by
  by_cases idle : u.state = .idle
  · simp only [udpWrite, idle, ne_eq, not_true_eq_false, if_false]
    split <;> simp [writePayload, setTxPktRdy, inToken_ended]
  · simp [udpWrite, idle]

theorem sendNext_ended (c : UdpConfig) (raced : Bool) (u : UdpIn) :
    (u.sendNext c raced).ended = u.ended := by
  by_cases single : c.banks = 1 <;> cases raced <;>
    simp [UdpIn.sendNext, single, clearTxComp, setTxPktRdy, writePayload, inToken_ended]

/-- A next packet is always given to the port; when the host takes it too early, TXCOMP is lost. -/
theorem sendNext_ready (state : u.state = .sending) : (u.sendNext c false).txPktRdy ≠ none ∧
    (u.sendNext c true).txPktRdy = none ∧ (u.sendNext c true).txComp = false ∧
      (u.sendNext c true).state = .sending := by
  rcases c.known with single | dual
  · simp [UdpIn.sendNext, single, clearTxComp, setTxPktRdy, UdpIn.inToken, writePayload, state]
  · simp [UdpIn.sendNext, dual, clearTxComp, setTxPktRdy, UdpIn.inToken, writePayload, state]

end UdpIn

end Simtrace2
