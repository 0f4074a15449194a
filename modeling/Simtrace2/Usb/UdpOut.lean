import Simtrace2.Lib.Run
import Simtrace2.Msgb
import Simtrace2.Usb.UdpIn

/-! The driver of the device port at an end-point from the host. Packets come into one bank or two, in
turns, and the driver has to clear the flag of the one that it has read. -/
namespace Simtrace2
open Lib

/-- `Endpoint` with its `Transfer`, what has been stored at `pData`, and the registers: the banks that
hold a packet, the older first, the one that the port fills next, and the interrupt's mask. `acked` is
what the host has got acknowledged, `taken` what the driver has read. -/
structure UdpOut where
  state : UdpState
  bank : Nat
  stored : List UInt8
  transferred : Int
  buffered : Int
  remaining : Int
  enabled : Bool
  full : List (Nat × List UInt8)
  fills : Nat
  acked : List (List UInt8)
  taken : List (List UInt8)

namespace UdpOut

def init : UdpOut :=
  { state := .disabled, bank := 0, stored := [], transferred := 0, buffered := 0, remaining := 0
    enabled := false, full := [], fills := 0, acked := [], taken := [] }

/-- The host sends a packet. The port does not take it while every bank is full. -/
def outToken (c : UdpConfig) (u : UdpOut) (packet : List UInt8) : UdpOut :=
  if u.full.length < c.banks then
    { u with
      full := u.full ++ [(u.fills, packet)], fills := if c.banks = 1 then 0 else 1 - u.fills
      acked := u.acked ++ [packet] }
  else u

/-- `UDP_ReadPayload`, of the older packet. -/
def readPayload (u : UdpOut) (packet : List UInt8) : UdpOut :=
  let beyond := u.remaining < packet.length
  let wPacketSize : Int := if beyond then u.remaining else packet.length
  { u with
    buffered := if beyond then u.buffered + (packet.length - u.remaining) else u.buffered
    remaining := u.remaining - wPacketSize, transferred := u.transferred + wPacketSize
    stored := u.stored ++ packet.take wPacketSize.toNat, taken := u.taken ++ [packet] }

/-- `CLEAR_CSR(bEndpoint, UDP_CSR_RX_DATA_BK0)`, or of the other bank. -/
def clearBank (u : UdpOut) (bank : Nat) : UdpOut :=
  { u with full := u.full.filter fun b => b.1 ≠ bank }

/-- `UDP_ClearRxFlag` -/
def clearRxFlag (c : UdpConfig) (u : UdpOut) : UdpOut :=
  if u.bank = 0 then
    let u := u.clearBank 0
    if 1 < c.banks then { u with bank := 1 } else u
  else { u.clearBank 1 with bank := 0 }

/-- `UDP_Read`, and whether it has started the transfer. -/
def udpRead (u : UdpOut) (length : Nat) : UdpOut × Bool :=
  if u.state ≠ .idle then (u, false)
  else
    ({ u with
      state := .receiving, stored := [], remaining := length, buffered := 0, transferred := 0
      enabled := true }, true)

/-- `USBD_HAL_ResetEPs` at the end of a bus reset, which has emptied the banks. -/
def resetEp (u : UdpOut) : UdpOut :=
  { u with enabled := false, bank := 0, full := [], fills := 0, state := .disabled }

/-- `UDP_RST_EP`, set and cleared. -/
def rstEp (c : UdpConfig) (u : UdpOut) : UdpOut :=
  { u with
    full := if c.rstFlags then [] else u.full.map fun b => (b.1, [])
    fills := if c.rstBank then 0 else u.fills }

/-- `USBD_HAL_ConfigureEP` behind the end of a read under way. The driver's `bank` stays as it is. -/
def configureEp (c : UdpConfig) (u : UdpOut) : UdpOut := { u with state := .idle }.rstEp c

end UdpOut

/-- A buffered end-point from the host, with every message that has been put into its queue. -/
structure UdpSource where
  inProgress : Nat
  queue : List (List UInt8)
  udp : UdpOut

inductive UdpOutInput where
  | refill (alloc : Bool)
  | outToken (packet : List UInt8)
  | irq
  | busReset
  | configure

namespace UdpSource

def init : UdpSource := { inProgress := 0, queue := [], udp := .init }

/-- `usb_refill_from_host`, with the outcome of its `usb_buf_alloc`. -/
def usbRefillFromHost (s : UdpSource) (alloc : Bool) : UdpSource :=
  if s.inProgress ≠ 0 then s
  else if !alloc then s
  else
    let (udp, accepted) := s.udp.udpRead usbAllocSize
    { s with inProgress := if accepted then 1 else 0, udp }

/-- `UDP_EndOfTransfer`, with `usb_read_cb` as the call-back. It frees the buffer of a read that has
not succeeded, whatever the buffer holds. -/
def endOfTransfer (s : UdpSource) (status : UsbdStatus) : UdpSource :=
  let message := s.udp.stored.take s.udp.transferred.toNat
  { inProgress := 0, queue := if status = .success then s.queue ++ [message] else s.queue
    udp := { s.udp with
      state := .idle, stored := [], transferred := -1, buffered := -1, remaining := -1 } }

/-- The branch of `UDP_EndpointHandler` for received data. -/
def endpointHandler (c : UdpConfig) (s : UdpSource) (packet : List UInt8) : UdpSource :=
  if s.udp.state ≠ .receiving then { s with udp.enabled := false }
  else
    let s := { s with udp := (s.udp.readPayload packet).clearRxFlag c }
    if s.udp.remaining = 0 ∨ packet.length < c.size then
      { s with udp.enabled := false }.endOfTransfer .success
    else s

/-- `USBD_HAL_ConfigureEP`, which a SET_CONFIGURATION calls, with or without a bus reset before it. -/
def configure (c : UdpConfig) (s : UdpSource) : UdpSource :=
  let s := if s.udp.state = .receiving then s.endOfTransfer .reset else s
  { s with udp := s.udp.configureEp c }

def step (c : UdpConfig) (s : UdpSource) : UdpOutInput → UdpSource
  | .refill alloc => s.usbRefillFromHost alloc
  | .outToken packet => { s with udp := s.udp.outToken c packet }
  | .irq =>
    match s.udp.full with
    | (_, packet) :: _ => if s.udp.enabled then s.endpointHandler c packet else s
    | [] => s
  | .busReset => { s with udp := s.udp.resetEp }
  | .configure => s.configure c

end UdpSource

namespace UdpOut

/-- The packets in the banks, the older first. -/
def waiting (u : UdpOut) : List (List UInt8) := u.full.map Prod.snd

/-- `UDP_RST_EP` takes no packet away, nor its data, and does not change the bank that is next. -/
def Spared (c : UdpConfig) (u : UdpOut) : Prop :=
  (∀ packet ∈ u.waiting, packet = [] ∧ c.rstFlags = false) ∧ (c.rstBank = true → u.fills = 0)

end UdpOut

/-- No bus reset meets a read, or a packet that has not been read, and no SET_CONFIGURATION a message
of which a part has been read, or banks that its reset of the FIFOs does not spare. -/
def UdpSource.Unbroken (c : UdpConfig) (s : UdpSource) : UdpOutInput → Prop
  | .busReset => s.udp.state ≠ .receiving ∧ s.udp.full = []
  | .configure => (s.udp.state = .receiving → s.udp.stored = []) ∧ s.udp.Spared c
  | _ => True

/-- One packet more: what has been delivered, and what has been stored of the next message. A read ends
with a short packet, or when its buffer is full. -/
def receiveInto (p cap : Nat) (t : List (List UInt8) × List UInt8) (packet : List UInt8) :
    List (List UInt8) × List UInt8 :=
  let stored := (t.2 ++ packet).take cap
  if packet.length < p ∨ stored.length = cap then (t.1 ++ [stored], []) else (t.1, stored)

namespace UdpOut

/-- The driver's idea of which bank is next agrees with the port's. -/
def BanksAgree (c : UdpConfig) (u : UdpOut) : Prop :=
  if c.banks = 1 then u.bank = 0 ∧ u.fills = 0 ∧ (u.full = [] ∨ ∃ a, u.full = [(0, a)])
  else u.bank < 2 ∧
    (u.full = [] ∧ u.fills = u.bank ∨
      (∃ a, u.full = [(u.bank, a)] ∧ u.fills = 1 - u.bank) ∨
      ∃ a b, u.full = [(u.bank, a), (1 - u.bank, b)] ∧ u.fills = u.bank)

end UdpOut

namespace UdpSource

structure InStep (c : UdpConfig) (s : UdpSource) : Prop where
  banks : s.udp.BanksAgree c
  acked : s.udp.acked = s.udp.taken ++ s.udp.waiting
  enabled : s.udp.state = .receiving → s.udp.enabled = true
  progress : s.inProgress = if s.udp.state = .receiving then 1 else 0
  delivered : ∃ stored,
    s.udp.taken.foldl (receiveInto c.size usbAllocSize) ([], []) = (s.queue, stored) ∧
    if s.udp.state = .receiving then
      s.udp.stored = stored ∧ s.udp.transferred = stored.length ∧ stored.length < usbAllocSize ∧
        s.udp.remaining = usbAllocSize - stored.length
    else stored = []

end UdpSource

namespace UdpOut
variable {c : UdpConfig} {u : UdpOut}

theorem BanksAgree.outToken (h : u.BanksAgree c) (packet : List UInt8) :
    (u.outToken c packet).BanksAgree c := by
  unfold UdpOut.outToken
  split
  · rename_i room
    rcases c.known with single | dual
    · simp only [BanksAgree, single, if_true] at h room ⊢
      obtain ⟨bank, fills, none | ⟨a, one⟩⟩ := h
      · exact ⟨bank, trivial, .inr ⟨packet, by simp [none, fills]⟩⟩
      · simp [one] at room
    · have two : ¬ c.banks = 1 := by omega
      simp only [BanksAgree, two, if_false] at h ⊢
      obtain ⟨bank, ⟨none, fills⟩ | ⟨a, one, fills⟩ | ⟨a, b, both, _⟩⟩ := h
      · exact ⟨bank, .inr (.inl ⟨packet, by simp [none, fills], by rw [fills]⟩)⟩
      · exact ⟨bank, .inr (.inr ⟨a, packet, by simp [one, fills], by omega⟩)⟩
      · simp [both, dual] at room
  · exact h

theorem Spared.rstEp (h : u.Spared c) : u.rstEp c = u := by
  obtain ⟨packets, bank⟩ := h
  have full : (if c.rstFlags then [] else u.full.map fun b => (b.1, [])) = u.full := by
    cases flags : c.rstFlags with
    | true =>
      have none : u.full = [] := List.eq_nil_iff_forall_not_mem.mpr fun b mem => by
        have spared := (packets b.2 (List.mem_map_of_mem mem)).2
        rw [flags] at spared
        cases spared
      rw [none]
      rfl
    | false =>
      have same : ∀ b ∈ u.full, (b.1, ([] : List UInt8)) = b := fun b mem =>
        Prod.ext rfl (packets b.2 (List.mem_map_of_mem mem)).1.symm
      exact (List.map_congr_left same).trans (List.map_id _)
  have fills : (if c.rstBank then 0 else u.fills) = u.fills := by
    split
    · rename_i first
      exact (bank first).symm
    · rfl
  rw [UdpOut.rstEp, full, fills]

/-- The bank that the port fills next follows from the driver's and from those that are full. -/
theorem BanksAgree.fills {v : UdpOut} (h : u.BanksAgree c) (h' : v.BanksAgree c) (bank : v.bank = u.bank)
    (full : v.full = u.full) : v.fills = u.fills := by
  rcases c.known with single | dual
  · simp only [BanksAgree, single, if_true] at h h'
    rw [h.2.1, h'.2.1]
  · have two : ¬ c.banks = 1 := by omega
    simp only [BanksAgree, two, if_false, bank, full] at h h'
    obtain ⟨_, ⟨none, fills⟩ | ⟨a, one, fills⟩ | ⟨a, b, both, fills⟩⟩ := h
    · simpa [none, fills] using h'.2
    · simpa [one, fills] using h'.2
    · simpa [both, fills] using h'.2

/-- Where the packets and their order of banks outlast it, the reset of the FIFOs has spared them. -/
theorem spared_of_agree (h : u.BanksAgree c) (again : (u.rstEp c).BanksAgree c)
    (waiting : (u.rstEp c).waiting = u.waiting) : u.Spared c := by
  have packets : ∀ packet ∈ u.waiting, packet = [] ∧ c.rstFlags = false := by
    intro packet mem
    rw [← waiting] at mem
    cases flags : c.rstFlags with
    | true => simp [UdpOut.waiting, UdpOut.rstEp, flags] at mem
    | false =>
      simp only [UdpOut.waiting, UdpOut.rstEp, flags, Bool.false_eq_true, if_false, List.map_map,
        List.mem_map] at mem
      obtain ⟨_, _, rfl⟩ := mem
      exact ⟨rfl, rfl⟩
  refine ⟨packets, fun first => ?_⟩
  have spared : ({ u with fills := 0 } : UdpOut).Spared c := ⟨packets, fun _ => rfl⟩
  have outlast := congrArg UdpOut.full spared.rstEp
  have full : (u.rstEp c).full = u.full := outlast
  have fills := h.fills again rfl full
  rw [← fills, UdpOut.rstEp, if_pos first]

/-- The flag that is cleared is that of the packet just read. -/
theorem BanksAgree.clearRxFlag (h : u.BanksAgree c) {bank : Nat} {packet : List UInt8}
    {rest : List (Nat × List UInt8)} (full : u.full = (bank, packet) :: rest) :
    (u.clearRxFlag c).BanksAgree c ∧ (u.clearRxFlag c).full = rest := by
  rcases c.known with single | dual
  · simp only [BanksAgree, single, if_true] at h ⊢
    obtain ⟨bank', fills, none | ⟨a, one⟩⟩ := h
    · rw [none] at full
      cases full
    · rw [one] at full
      obtain ⟨_, rfl⟩ := List.cons.inj full
      simp [UdpOut.clearRxFlag, bank', single, clearBank, one, fills]
  · have two : ¬ c.banks = 1 := by omega
    simp only [BanksAgree, two, if_false] at h ⊢
    obtain ⟨small, ⟨none, _⟩ | ⟨a, one, fills⟩ | ⟨a, b, both, fills⟩⟩ := h
    · rw [none] at full
      cases full
    · rw [one] at full
      obtain ⟨_, rfl⟩ := List.cons.inj full
      have which : u.bank = 0 ∨ u.bank = 1 := by omega
      rcases which with bank' | bank' <;>
        simp [UdpOut.clearRxFlag, bank', dual, clearBank, one, fills]
    · rw [both] at full
      obtain ⟨_, rfl⟩ := List.cons.inj full
      have which : u.bank = 0 ∨ u.bank = 1 := by omega
      rcases which with bank' | bank' <;>
        simp [UdpOut.clearRxFlag, bank', dual, clearBank, both, fills]

theorem clearRxFlag_rest (c : UdpConfig) (u : UdpOut) : ∃ bank full,
    u.clearRxFlag c = { u with bank, full } := by
  unfold UdpOut.clearRxFlag clearBank
  split
  · dsimp only
    split
    · exact ⟨1, _, rfl⟩
    · exact ⟨u.bank, _, rfl⟩
  · exact ⟨0, _, rfl⟩

/-- A packet is stored as far as the buffer has room. -/
theorem readPayload_stored {cap : Nat} (packet : List UInt8)
    (transferred : u.transferred = u.stored.length) (room : u.stored.length < cap)
    (remaining : u.remaining = cap - u.stored.length) :
    (u.readPayload packet).stored = (u.stored ++ packet).take cap ∧
      (u.readPayload packet).transferred = (u.readPayload packet).stored.length ∧
      (u.readPayload packet).remaining = cap - (u.readPayload packet).stored.length := by
  have before : u.stored.take cap = u.stored := List.take_of_length_le (Nat.le_of_lt room)
  have split : (u.stored ++ packet).take cap = u.stored ++ packet.take (cap - u.stored.length) := by
    rw [List.take_append, before]
  by_cases beyond : u.remaining < packet.length
  · have read : u.readPayload packet = { u with
        buffered := u.buffered + (packet.length - u.remaining), remaining := u.remaining - u.remaining
        transferred := u.transferred + u.remaining
        stored := u.stored ++ packet.take u.remaining.toNat, taken := u.taken ++ [packet] } := by
      simp only [readPayload, if_pos beyond]
    have count : u.remaining.toNat = cap - u.stored.length := by omega
    have whole : (packet.take (cap - u.stored.length)).length = cap - u.stored.length :=
      List.length_take_of_le (by omega)
    rw [read, split, count]
    dsimp only
    refine ⟨rfl, ?_, ?_⟩
    · rw [List.length_append, whole]
      omega
    · rw [List.length_append, whole]
      omega
  · have read : u.readPayload packet = { u with
        remaining := u.remaining - packet.length, transferred := u.transferred + packet.length
        stored := u.stored ++ packet.take packet.length, taken := u.taken ++ [packet] } := by
      simp only [readPayload, if_neg beyond, Int.toNat_natCast]
    have all : packet.take (cap - u.stored.length) = packet := List.take_of_length_le (by omega)
    rw [read, split, all, List.take_length]
    dsimp only
    refine ⟨rfl, ?_, ?_⟩
    · rw [List.length_append]
      omega
    · rw [List.length_append]
      omega

end UdpOut

namespace UdpSource
variable {c : UdpConfig} {s : UdpSource}

theorem InStep.refill (h : InStep c s) (alloc : Bool) : InStep c (s.usbRefillFromHost alloc) := by
  unfold usbRefillFromHost
  split
  · exact h
  · rename_i free
    have rest : s.udp.state ≠ .receiving := by
      intro receiving
      simp [h.progress, receiving] at free
    split
    · exact h
    · by_cases idle : s.udp.state = .idle
      · obtain ⟨stored, delivered, none⟩ := h.delivered
        rw [if_neg rest] at none
        subst none
        simp only [UdpOut.udpRead, idle, ne_eq, not_true_eq_false, if_false]
        exact ⟨h.banks, h.acked, fun _ => rfl, by simp, [], delivered, by simp [usbAllocSize]⟩
      · simp only [UdpOut.udpRead, idle, ne_eq, not_false_eq_true, if_true]
        exact ⟨h.banks, h.acked, h.enabled, by simp [rest], h.delivered⟩

theorem InStep.outToken (h : InStep c s) (packet : List UInt8) :
    InStep c { s with udp := s.udp.outToken c packet } := by
  have banks := h.banks.outToken packet
  refine ⟨banks, ?_, ?_, ?_, ?_⟩
  all_goals
    unfold UdpOut.outToken
    split
  · simp [UdpOut.waiting, h.acked]
  · exact h.acked
  · exact h.enabled
  · exact h.enabled
  · exact h.progress
  · exact h.progress
  · exact h.delivered
  · exact h.delivered

/-- The interrupt reads the older packet and hands it on. -/
theorem InStep.irq (h : InStep c s) {bank : Nat} {packet : List UInt8}
    {rest : List (Nat × List UInt8)} (full : s.udp.full = (bank, packet) :: rest)
    (enabled : s.udp.enabled = true) (receiving : s.udp.state = .receiving) :
    InStep c (s.endpointHandler c packet) := by
  obtain ⟨stored, delivered, under⟩ := h.delivered
  rw [if_pos receiving] at under
  obtain ⟨rfl, transferred, room, remaining⟩ := under
  obtain ⟨stored', transferred', remaining'⟩ :=
    UdpOut.readPayload_stored packet transferred room remaining
  have agree : (s.udp.readPayload packet).BanksAgree c := h.banks
  obtain ⟨agree', full'⟩ := agree.clearRxFlag full
  obtain ⟨bank', full'', cleared⟩ := UdpOut.clearRxFlag_rest c (s.udp.readPayload packet)
  rw [cleared] at agree' full'
  obtain rfl : full'' = rest := full'
  have acked : s.udp.acked = s.udp.taken ++ [packet] ++ full''.map Prod.snd := by
    rw [h.acked, UdpOut.waiting, full]
    simp
  have next : (s.udp.taken ++ [packet]).foldl (receiveInto c.size usbAllocSize) ([], []) =
      receiveInto c.size usbAllocSize (s.queue, s.udp.stored) packet := by
    rw [List.foldl_append, delivered]
    rfl
  have most : (s.udp.readPayload packet).stored.length ≤ usbAllocSize := by
    rw [stored']
    exact List.length_take_le _ _
  have last : (s.udp.readPayload packet).remaining = 0 ∨ packet.length < c.size ↔
      packet.length < c.size ∨ (s.udp.readPayload packet).stored.length = usbAllocSize := by
    rw [remaining']
    omega
  simp only [endpointHandler, receiving, ne_eq, not_true_eq_false, if_false, cleared, last]
  split
  · rename_i done
    have whole : (s.udp.readPayload packet).stored.take (s.udp.readPayload packet).transferred.toNat =
        (s.udp.readPayload packet).stored := by
      rw [transferred', Int.toNat_natCast, List.take_length]
    refine ⟨agree', acked, nofun, rfl, [], ?_, rfl⟩
    · show (s.udp.taken ++ [packet]).foldl _ _ = _
      rw [next, receiveInto, ← stored', if_pos done]
      simp only [endOfTransfer, whole, if_true]
  · rename_i more
    refine ⟨agree', acked, fun _ => enabled, ?_, (s.udp.readPayload packet).stored, ?_, ?_⟩
    · simpa [UdpOut.readPayload, receiving] using h.progress
    · show (s.udp.taken ++ [packet]).foldl _ _ = _
      rw [next, receiveInto, ← stored', if_neg more]
    · have state : (s.udp.readPayload packet).state = .receiving := receiving
      simp only [state, if_true]
      exact ⟨trivial, transferred', by omega, remaining'⟩

/-- Without a read the interrupt only disables itself. -/
theorem InStep.nak (h : InStep c s) (rest : s.udp.state ≠ .receiving) (packet : List UInt8) :
    InStep c (s.endpointHandler c packet) := by
  rw [endpointHandler, if_pos rest]
  exact ⟨h.banks, h.acked, fun receiving => absurd receiving rest, h.progress, h.delivered⟩

/-- What a SET_CONFIGURATION leaves: no read, and the banks as its reset of the FIFOs left them. -/
theorem configure_eq (c : UdpConfig) (s : UdpSource) : ∃ stored transferred buffered remaining,
    s.configure c =
      { s with
        inProgress := if s.udp.state = .receiving then 0 else s.inProgress
        udp := { s.udp.rstEp c with state := .idle, stored, transferred, buffered, remaining } } := by
  unfold configure
  split
  · exact ⟨[], -1, -1, -1, rfl⟩
  · exact ⟨_, _, _, _, rfl⟩

theorem InStep.configure (h : InStep c s) (unread : s.udp.state = .receiving → s.udp.stored = [])
    (spared : s.udp.Spared c) : InStep c (s.configure c) := by
  obtain ⟨stored, transferred, buffered, remaining, same⟩ := configure_eq c s
  have none : s.udp.taken.foldl (receiveInto c.size usbAllocSize) ([], []) = (s.queue, []) := by
    obtain ⟨stored, delivered, under⟩ := h.delivered
    split at under
    · rename_i receiving
      rw [delivered, ← under.1, unread receiving]
    · rw [delivered, under]
  rw [same, spared.rstEp]
  refine ⟨h.banks, h.acked, nofun, ?_, [], none, rfl⟩
  have progress := h.progress
  split
  · rfl
  · rename_i rest
    rwa [if_neg rest] at progress

theorem InStep.step (h : InStep c s) {input : UdpOutInput} (unbroken : s.Unbroken c input) :
    InStep c (s.step c input) := by
  cases input with
  | refill alloc => exact h.refill alloc
  | outToken packet => exact h.outToken packet
  | irq =>
    cases full : s.udp.full with
    | nil => simpa [UdpSource.step, full] using h
    | cons b rest =>
      by_cases enabled : s.udp.enabled = true
      · have next : InStep c (s.endpointHandler c b.2) := by
          by_cases receiving : s.udp.state = .receiving
          · exact h.irq full enabled receiving
          · exact h.nak receiving b.2
        simpa [UdpSource.step, full, enabled] using next
      · simpa [UdpSource.step, full, enabled] using h
  | busReset =>
    obtain ⟨rest, empty⟩ := unbroken
    obtain ⟨stored, delivered, none⟩ := h.delivered
    rw [if_neg rest] at none
    refine ⟨?_, ?_, nofun, ?_, stored, delivered, none⟩
    · simp [UdpOut.BanksAgree, UdpSource.step, UdpOut.resetEp]
    · simpa [UdpSource.step, UdpOut.resetEp, UdpOut.waiting, empty] using h.acked
    · simpa [UdpSource.step, UdpOut.resetEp, rest] using h.progress
  | configure => exact h.configure unbroken.1 unbroken.2

theorem broken_step {input : UdpOutInput} (h : InStep c s) (broken : ¬s.Unbroken c input) :
    ¬InStep c (s.step c input) := by
  cases input with
  | refill _ | outToken _ | irq => exact absurd trivial broken
  | busReset =>
    intro again
    have progress := again.progress
    have acked := again.acked
    simp only [UdpSource.step, UdpOut.resetEp, UdpOut.waiting, List.map_nil, List.append_nil] at acked
    simp only [UdpSource.step, UdpOut.resetEp, reduceCtorEq, if_false, h.progress] at progress
    refine broken ⟨fun receiving => ?_, ?_⟩
    · simp [receiving] at progress
    · simpa [h.acked, UdpOut.waiting] using acked
  | configure =>
    intro again
    obtain ⟨stored, transferred, buffered, remaining, same⟩ := configure_eq c s
    rw [UdpSource.step, same] at again
    refine broken ⟨fun receiving => ?_, UdpOut.spared_of_agree h.banks again.banks ?_⟩
    · obtain ⟨stored, delivered, under⟩ := h.delivered
      rw [if_pos receiving] at under
      obtain ⟨_, delivered', none⟩ := again.delivered
      have both := delivered.symm.trans delivered'
      rw [under.1]
      exact (Prod.ext_iff.mp both).2.trans none
    · exact List.append_cancel_left (again.acked.symm.trans h.acked)

theorem inStep_init : InStep c .init := by
  refine ⟨?_, rfl, nofun, rfl, [], rfl, rfl⟩
  simp [UdpOut.BanksAgree, init, UdpOut.init]

/-- A read of the driver is one that the end-point above waits for. -/
def Busy (s : UdpSource) : Prop := s.udp.state = .receiving → s.inProgress = 1

theorem Busy.step (h : s.Busy) (input : UdpOutInput) : (s.step c input).Busy := by
  cases input with
  | refill alloc =>
    simp only [UdpSource.step, usbRefillFromHost]
    split
    · exact h
    · split
      · exact h
      · rename_i free _
        by_cases idle : s.udp.state = .idle
        · simp [Busy, UdpOut.udpRead, idle]
        · have rest : s.udp.state ≠ .receiving := fun receiving => free (by simp [h receiving])
          simp [Busy, UdpOut.udpRead, idle, rest]
  | outToken packet =>
    simp only [UdpSource.step, UdpOut.outToken]
    split <;> exact h
  | irq =>
    simp only [UdpSource.step]
    split
    · split
      · unfold endpointHandler
        obtain ⟨_, _, cleared⟩ := UdpOut.clearRxFlag_rest c (s.udp.readPayload _)
        split
        · exact h
        · rw [cleared]
          dsimp only
          split
          · exact nofun
          · exact h
      · exact h
    · exact h
  | busReset => exact nofun
  | configure =>
    obtain ⟨_, _, _, _, same⟩ := configure_eq c s
    rw [UdpSource.step, same]
    exact nofun

/-- The end-point waits for the end of a read that the driver has forgotten. -/
def Deaf (s : UdpSource) : Prop := s.inProgress = 1 ∧ s.udp.state ≠ .receiving

theorem Deaf.kept (h : s.Deaf) (input : UdpOutInput) :
    (s.step c input).Deaf ∧ (s.step c input).queue = s.queue := by
  obtain ⟨progress, rest⟩ := h
  have same : ∀ udp : UdpOut, udp.state ≠ .receiving →
      Deaf { s with udp } ∧ ({ s with udp } : UdpSource).queue = s.queue :=
    fun udp rest => ⟨⟨progress, rest⟩, rfl⟩
  cases input with
  | refill alloc => simp [UdpSource.step, usbRefillFromHost, Deaf, progress, rest]
  | outToken packet =>
    refine same _ ?_
    unfold UdpOut.outToken
    split
    · exact rest
    · exact rest
  | irq =>
    simp only [UdpSource.step]
    split
    · split
      · rw [endpointHandler, if_pos rest]
        exact same _ rest
      · exact ⟨⟨progress, rest⟩, rfl⟩
    · exact ⟨⟨progress, rest⟩, rfl⟩
  | busReset => exact same _ (by simp [UdpOut.resetEp])
  | configure =>
    have configured : s.step c .configure = { s with udp := s.udp.configureEp c } := by
      simp only [UdpSource.step, UdpSource.configure, if_neg rest]
    rw [configured]
    exact same _ UdpState.noConfusion

theorem Deaf.forGood (h : s.Deaf) (later : List UdpOutInput) :
    (run (step c) s later).queue = s.queue := by
  have keep : ∀ (t : UdpSource) (input : UdpOutInput), t.Deaf ∧ t.queue = s.queue →
      (t.step c input).Deaf ∧ (t.step c input).queue = s.queue := by
    rintro t input ⟨deaf, queue⟩
    obtain ⟨deaf', queue'⟩ := deaf.kept (c := c) input
    exact ⟨deaf', queue'.trans queue⟩
  exact (run_invariant (fun t : UdpSource => t.Deaf ∧ t.queue = s.queue) keep ⟨h, rfl⟩ later).2

end UdpSource

/-! ### Messages -/

section receiveInto
variable {p cap : Nat} {queue : List (List UInt8)}

end receiveInto

/-- `SIMTRACE_USB_EP_CARD_DATAOUT` -/
def bulkOut : UdpConfig := ⟨64, 2, false, true, by decide, .inr rfl⟩

/-- A bus reset while a read waits for the host, as one nearly always does, leaves the end-point deaf:
no message reaches its queue any more, whatever comes later. -/
theorem reset_deafens (c : UdpConfig) {inputs : List UdpOutInput}
    (receiving : (run (UdpSource.step c) .init inputs).udp.state = .receiving)
    (later : List UdpOutInput) :
    (run (UdpSource.step c) .init (inputs ++ .busReset :: later)).queue =
      (run (UdpSource.step c) .init inputs).queue := by
  have busy : (run (UdpSource.step c) .init inputs).Busy :=
    run_invariant UdpSource.Busy (fun _ input h => h.step input) (fun receives => by cases receives) inputs
  have deaf : ((run (UdpSource.step c) .init inputs).step c .busReset).Deaf :=
    ⟨busy receiving, by simp [UdpSource.step, UdpOut.resetEp]⟩
  rw [run_append, run, deaf.forGood]
  rfl

theorem reset_deafens_reader :
    (run (UdpSource.step bulkOut) .init [.configure, .refill true]).udp.state = .receiving ∧
      (run (UdpSource.step bulkOut) .init
        [.configure, .refill true, .busReset, .configure, .refill true, .outToken [1], .irq]).queue =
          [] :=
  ⟨rfl, @reset_deafens bulkOut [.configure, .refill true] rfl
    [.configure, .refill true, .outToken [1], .irq]⟩

end Simtrace2
