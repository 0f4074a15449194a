import Simtrace2.CardEmu.Transmit

/-! T=0 commands driven through the card emulation: what the reader sends reaches the
host unchanged, and what the host answers reaches the reader unchanged. -/
namespace Simtrace2
open Lib

/-- A command of the reader with the answer of the host: the procedure byte and the
status word where the reader sends data, else the messages the data is cut into. -/
inductive T0Exchange where
  | incoming (hdr : TpduHdr) (body : List UInt8) (pb sw : TxData)
  | outgoing (hdr : TpduHdr) (first : TxData) (others : List TxData) (sw : TxData)

/-- The status word ends the TPDU, whether or not it claims to be a procedure byte too. -/
def TxData.IsSw (m : TxData) : Prop :=
  m.payload.length = 2 ∧
    (m.flags = cemuDataFFinal ∨ m.flags = cemuDataFFinal ||| cemuDataFPbAndTx)

namespace T0Exchange

def hdr : T0Exchange → TpduHdr
  | incoming hdr _ _ _ => hdr
  | outgoing hdr _ _ _ => hdr

def answer : T0Exchange → List TxData
  | incoming _ _ pb sw => [pb, sw]
  | outgoing _ first others sw => first :: others ++ [sw]

structure Incoming (hdr : TpduHdr) (body : List UInt8) (pb sw : TxData) : Prop where
  data : body ≠ [] ∧ body.length = hdr.p3.toNat
  asks : pb.payload = [hdr.ins] ∧ pb.flags = cemuDataFPbAndRx
  sw : sw.IsSw

structure Outgoing (hdr : TpduHdr) (first : TxData) (others : List TxData) (sw : TxData) : Prop where
  data : ∃ d, d.length ≤ 256 ∧ (first :: others).flatMap (·.payload) = hdr.ins :: d
  split : ∀ m ∈ first :: others, m.payload ≠ [] ∧ m.payload.length ≤ 257
  opens : first.flags = cemuDataFPbAndTx
  goesOn : ∀ m ∈ others, m.flags = 0
  sw : sw.IsSw

def WellFormed (x : T0Exchange) : Prop :=
  x.hdr.cla ≠ 0xff ∧ match x with
    | incoming hdr body pb sw => Incoming hdr body pb sw
    | outgoing hdr first others sw => Outgoing hdr first others sw

def received (tag inEp : Nat) : T0Exchange → List UsbMsg
  | incoming hdr body _ _ =>
    [⟨tag, inEp, .rxData cemuDataFTpduHdr 5 hdr.bytes⟩,
     ⟨tag, inEp, .rxData cemuDataFFinal body.length body⟩]
  | outgoing hdr _ _ _ => [⟨tag, inEp, .rxData cemuDataFTpduHdr 5 hdr.bytes⟩]

end T0Exchange

namespace Emu

/-- The reader sends these bytes; there is a buffer whenever one is asked for. -/
def receive (tag : Nat) (e : Emu) (bytes : List UInt8) : Emu :=
  bytes.foldl (fun e byte => e.cardEmuProcessRxByte byte (some tag)) e

/-- A message of the host arrives, and is transmitted as far as it goes. -/
def transmit (fuel : Nat) (e : Emu) (m : TxData) : Option Emu :=
  (CardemInst.dispatchTxData e m.msgb).drain fuel

def exchange (tag fuel : Nat) (e : Emu) : T0Exchange → Option Emu
  | .incoming hdr body pb sw => do
    let e ← (e.receive tag hdr.bytes).transmit fuel pb
    (e.receive tag body).transmit fuel sw
  | .outgoing hdr first others sw => do
    let e ← (first :: others).foldlM (transmit fuel) (e.receive tag hdr.bytes)
    e.transmit fuel sw

def exchanges (tag fuel : Nat) (e : Emu) (xs : List T0Exchange) : Option Emu :=
  xs.foldlM (exchange tag fuel) e

end Emu

namespace Line

structure Idle (l : Line) (inEp : Nat) (sent : List UInt8) (usb : List UsbMsg) : Prop where
  state : l.state = .waitTpdu
  ts : l.tpdu.state = .waitCla
  inEp : l.inEp = inEp
  rx : l.rx = none
  tx : l.tx = none
  queue : l.queue = []
  sent : l.sent = sent
  usb : l.usb = usb

structure InTpdu (l : Line) (ts : TpduState) (hdr : TpduHdr) (inEp : Nat) (rx : Option RxMsg)
    (sent : List UInt8) (usb : List UsbMsg) : Prop where
  state : l.state = .inTpdu
  tpdu : l.tpdu = ⟨ts, hdr⟩
  inEp : l.inEp = inEp
  rx : l.rx = rx
  tx : l.tx = none
  queue : l.queue = []
  sent : l.sent = sent
  usb : l.usb = usb

def body (tag : Nat) (done : List UInt8) : Option RxMsg :=
  if done = [] then none else some ⟨tag, 0, done⟩

namespace InTpdu
variable {l : Line} {tag inEp : Nat} {hdr : TpduHdr} {sent done : List UInt8} {usb : List UsbMsg}

theorem rxByte_eq (h : l.InTpdu .waitRx hdr inEp (body tag done) sent usb) (byte : UInt8) :
    l.rxByte byte (some tag) =
      if hdr.p3.toNat ≤ done.length + 1 then
        { l with
          state := .inTpdu, rx := none, tpdu.state := .waitTx
          usb := l.usb ++ [⟨tag, inEp, .rxData cemuDataFFinal (done.length + 1) (done ++ [byte])⟩] }
      else { l with state := .inTpdu, rx := some ⟨tag, 0, done ++ [byte]⟩ } := by
  have held : (l.rx <|> (some tag).map fun tag => { tag := tag }) = some ⟨tag, 0, done⟩ := by
    rw [h.rx, body]
    split
    · rename_i empty
      rw [empty]
      rfl
    · rfl
  have flags : (0 : UInt32) ||| cemuDataFFinal = cemuDataFFinal := by decide
  simp only [rxByte, rxTpdu, h.tpdu, addByte, held]
  split <;> simp [rxData, h.inEp, flags]

theorem rxByte_more (h : l.InTpdu .waitRx hdr inEp (body tag done) sent usb) (byte : UInt8)
    (more : done.length + 1 < hdr.p3.toNat) :
    (l.rxByte byte (some tag)).InTpdu .waitRx hdr inEp (body tag (done ++ [byte])) sent usb := by
  rw [h.rxByte_eq, if_neg (by omega)]
  exact ⟨rfl, h.tpdu, h.inEp, by simp [body], h.tx, h.queue, h.sent, h.usb⟩

theorem rxByte_last (h : l.InTpdu .waitRx hdr inEp (body tag done) sent usb) (byte : UInt8)
    (last : done.length + 1 = hdr.p3.toNat) :
    (l.rxByte byte (some tag)).InTpdu .waitTx hdr inEp none sent
      (usb ++ [⟨tag, inEp, .rxData cemuDataFFinal hdr.p3.toNat (done ++ [byte])⟩]) := by
  rw [h.rxByte_eq, if_pos (by omega)]
  exact ⟨rfl, by rw [h.tpdu], h.inEp, rfl, h.tx, h.queue, h.sent, by rw [h.usb, last]⟩

end InTpdu
end Line

namespace Emu
variable {e : Emu} {inEp : Nat} {hdr : TpduHdr} {sent : List UInt8} {usb : List UsbMsg}

theorem line_receive (tag : Nat) (st : e.ch.state = .inTpdu) (bytes : List UInt8) :
    (e.receive tag bytes).line = bytes.foldl (fun l byte => l.rxByte byte (some tag)) e.line := by
  induction bytes generalizing e with
  | nil => rfl
  | cons byte bytes ih =>
    have next := line_rxByte byte (.inl st) (some tag)
    have stays : (e.cardEmuProcessRxByte byte (some tag)).line.state = .inTpdu := by rw [next]; rfl
    rw [List.foldl_cons, ← next]
    exact ih stays

theorem receive_header (tag : Nat) (h : e.line.Idle inEp sent usb) (cla : hdr.cla ≠ 0xff) :
    (e.receive tag hdr.bytes).line.InTpdu .waitPb hdr inEp none sent
      (usb ++ [⟨tag, inEp, .rxData cemuDataFTpduHdr 5 hdr.bytes⟩]) := by
  have next := line_rxByte hdr.cla (.inr ⟨h.state, cla⟩) (some tag)
  have first : e.line.rxByte hdr.cla (some tag) =
      { e.line with
        state := .inTpdu, tpdu := ⟨.waitIns, { e.line.tpdu.hdr with cla := hdr.cla }⟩ } := by
    simp [Line.rxByte, Line.rxTpdu, h.ts, Tpdu.put]
  rw [first] at next
  have stays : (e.cardEmuProcessRxByte hdr.cla (some tag)).ch.state = .inTpdu :=
    congrArg Line.state next
  have rest := line_receive tag stays [hdr.ins, hdr.p1, hdr.p2, hdr.p3]
  rw [next] at rest
  have whole : e.receive tag hdr.bytes = (e.cardEmuProcessRxByte hdr.cla (some tag)).receive tag
      [hdr.ins, hdr.p1, hdr.p2, hdr.p3] := rfl
  rw [whole, rest]
  refine ⟨rfl, rfl, h.inEp, rfl, h.tx, h.queue, h.sent, ?_⟩
  simp [Line.rxByte, Line.rxTpdu, Tpdu.put, Line.flush, Line.sendHeader, Line.rxData, TpduHdr.bytes,
    h.rx, h.inEp, h.usb]

theorem receive_body (tag : Nat) {rest : List UInt8} (done : List UInt8)
    (h : e.line.InTpdu .waitRx hdr inEp (Line.body tag done) sent usb)
    (more : rest ≠ []) (count : done.length + rest.length = hdr.p3.toNat) :
    (e.receive tag rest).line.InTpdu .waitTx hdr inEp none sent
      (usb ++ [⟨tag, inEp, .rxData cemuDataFFinal hdr.p3.toNat (done ++ rest)⟩]) := by
  induction rest generalizing e done with
  | nil => contradiction
  | cons byte rest ih =>
    have next := line_rxByte byte (.inl h.state) (some tag)
    rw [List.length_cons] at count
    cases rest with
    | nil =>
      have last := h.rxByte_last byte count
      rw [← next] at last
      exact last
    | cons byte' rest =>
      have going := h.rxByte_more byte (by rw [List.length_cons] at count; omega)
      rw [← next] at going
      have count' : (done ++ [byte]).length + (byte' :: rest).length = hdr.p3.toNat := by
        simp only [List.length_append, List.length_cons, List.length_nil] at count ⊢
        omega
      have done' := ih (done ++ [byte]) going (by simp) count'
      rw [List.append_assoc] at done'
      exact done'

theorem transmit_message {ts : TpduState} (h : e.line.InTpdu ts hdr inEp none sent usb) {m : TxData}
    (some' : m.payload ≠ []) (small : m.payload.length ≤ 257) {fuel : Nat} (enough : 258 ≤ fuel) :
    ∃ e', e.transmit fuel m = some e' ∧
      e'.line = { { e.line with
        tpdu.state := Line.afterByte ts m.flags, queue := []
        sent := sent ++ m.payload }.afterMessage m.flags with tx := none } := by
  have ready : e.ch.state.ready = true := by
    rw [show e.ch.state = .inTpdu from h.state]
    rfl
  have queued := line_dispatchTxData ready m.msgb
  have st : (CardemInst.dispatchTxData e m.msgb).ch.state = .inTpdu :=
    (congrArg Line.state queued).trans h.state
  have next : (CardemInst.dispatchTxData e m.msgb).line.txMsg = some (m.msgb.dequeued, []) := by
    rw [queued]
    simp [Line.txMsg, Line.enqueue, h.tx, h.queue]
  have pulled := m.pulled_dequeued some' (by omega)
  have flags : m.msgb.dequeued.txFlags = m.flags := m.txFlags_msgb _
  obtain ⟨e1, same, drained⟩ := drain_message st next (Msgb.len_pull _ _)
    (fuel - m.payload.length - 1 + 1)
  rw [queued, Line.sendAll, flags, pulled] at same
  have finished : e1.ch.state = .waitTpdu ∨ e1.ch.state = .inTpdu ∧ e1.line.txMsg = none := by
    change e1.line.state = _ ∨ e1.line.state = _ ∧ _
    rw [same]
    unfold Line.afterMessage
    split_ifs
    · exact .inr ⟨h.state, rfl⟩
    · exact .inl rfl
    · exact .inr ⟨h.state, rfl⟩
  obtain ⟨e2, still, done⟩ := drain_idle finished (fuel - m.payload.length - 1)
  refine ⟨e2, ?_, ?_⟩
  · have shape : fuel = m.msgb.dequeued.pulled.length + (fuel - m.payload.length - 1 + 1) := by
      rw [pulled]
      omega
    rw [transmit, shape, drained, done]
  · rw [still, same]
    simp [Line.enqueue, h.tpdu, h.sent]

theorem transmit_rx {ts : TpduState} (h : e.line.InTpdu ts hdr inEp none sent usb) {m : TxData}
    (some' : m.payload ≠ []) (small : m.payload.length ≤ 257)
    (rx : hasFlag m.flags cemuDataFPbAndRx = true) {fuel : Nat} (enough : 258 ≤ fuel) :
    ∃ e', e.transmit fuel m = some e' ∧
      e'.line.InTpdu .waitRx hdr inEp none (sent ++ m.payload) usb := by
  obtain ⟨e', sends, same⟩ := transmit_message h some' small enough
  rw [Line.afterMessage, if_pos rx] at same
  refine ⟨e', sends, ?_⟩
  rw [same]
  exact ⟨h.state, by simp [h.tpdu], h.inEp, h.rx, rfl, rfl, rfl, h.usb⟩

theorem transmit_more {ts : TpduState} (h : e.line.InTpdu ts hdr inEp none sent usb) {m : TxData}
    (some' : m.payload ≠ []) (small : m.payload.length ≤ 257)
    (rx : hasFlag m.flags cemuDataFPbAndRx = false) (final : hasFlag m.flags cemuDataFFinal = false)
    {fuel : Nat} (enough : 258 ≤ fuel) :
    ∃ e', e.transmit fuel m = some e' ∧
      e'.line.InTpdu (Line.afterByte ts m.flags) hdr inEp none (sent ++ m.payload) usb := by
  obtain ⟨e', sends, same⟩ := transmit_message h some' small enough
  rw [Line.afterMessage, if_neg (by simp [rx]), if_neg (by simp [final])] at same
  refine ⟨e', sends, ?_⟩
  rw [same]
  exact ⟨h.state, by simp [h.tpdu], h.inEp, h.rx, rfl, rfl, rfl, h.usb⟩

theorem transmit_sw {ts : TpduState} (h : e.line.InTpdu ts hdr inEp none sent usb) {m : TxData}
    (sw : m.IsSw) {fuel : Nat} (enough : 258 ≤ fuel) :
    ∃ e', e.transmit fuel m = some e' ∧ e'.line.Idle inEp (sent ++ m.payload) usb := by
  have some' : m.payload ≠ [] := by
    intro empty
    simpa [empty] using sw.1
  have flags : hasFlag m.flags cemuDataFPbAndRx = false ∧ hasFlag m.flags cemuDataFFinal = true := by
    obtain flags | flags := sw.2 <;> rw [flags] <;> decide
  obtain ⟨e', sends, same⟩ := transmit_message h some' (by rw [sw.1]; decide) enough
  rw [Line.afterMessage, if_neg (by simp [flags.1]), if_pos flags.2] at same
  refine ⟨e', sends, ?_⟩
  rw [same]
  exact ⟨rfl, rfl, h.inEp, h.rx, rfl, rfl, rfl, h.usb⟩

theorem transmit_others (h : e.line.InTpdu .waitTx hdr inEp none sent usb) {others : List TxData}
    (split : ∀ m ∈ others, m.payload ≠ [] ∧ m.payload.length ≤ 257)
    (goesOn : ∀ m ∈ others, m.flags = 0) {fuel : Nat} (enough : 258 ≤ fuel) :
    ∃ e', others.foldlM (transmit fuel) e = some e' ∧
      e'.line.InTpdu .waitTx hdr inEp none (sent ++ others.flatMap (·.payload)) usb := by
  induction others generalizing e sent with
  | nil => exact ⟨e, rfl, by simpa using h⟩
  | cons m others ih =>
    have flags := goesOn m List.mem_cons_self
    obtain ⟨some', small⟩ := split m List.mem_cons_self
    obtain ⟨e1, sends, next⟩ := transmit_more h some' small (by rw [flags]; decide)
      (by rw [flags]; decide) enough
    have still : Line.afterByte .waitTx m.flags = .waitTx := rfl
    rw [still] at next
    obtain ⟨e2, rest, done⟩ := ih next (fun m hm => split m (List.mem_cons_of_mem _ hm))
      (fun m hm => goesOn m (List.mem_cons_of_mem _ hm))
    refine ⟨e2, by rw [List.foldlM_cons, sends]; exact rest, ?_⟩
    simpa using done

theorem exchange_incoming (tag : Nat) (h : e.line.Idle inEp sent usb) (cla : hdr.cla ≠ 0xff)
    {body : List UInt8} {pb sw : TxData} (wf : T0Exchange.Incoming hdr body pb sw) {fuel : Nat}
    (enough : 258 ≤ fuel) :
    ∃ e', e.exchange tag fuel (.incoming hdr body pb sw) = some e' ∧
      e'.line.Idle inEp (sent ++ (pb.payload ++ sw.payload))
        (usb ++ T0Exchange.received tag inEp (.incoming hdr body pb sw)) := by
  have header := receive_header tag h cla
  obtain ⟨e1, asked, rx⟩ := transmit_rx (m := pb) header (by simp [wf.asks.1])
    (by simp [wf.asks.1]) (by rw [wf.asks.2]; decide) enough
  have got := receive_body tag [] rx wf.data.1 (by simpa using wf.data.2)
  obtain ⟨e2, answered, idle⟩ := transmit_sw got wf.sw enough
  refine ⟨e2, ?_, ?_⟩
  · rw [exchange, asked]
    exact answered
  · simpa [T0Exchange.received, wf.data.2] using idle

theorem exchange_outgoing (tag : Nat) (h : e.line.Idle inEp sent usb) (cla : hdr.cla ≠ 0xff)
    {first sw : TxData} {others : List TxData} (wf : T0Exchange.Outgoing hdr first others sw)
    {fuel : Nat} (enough : 258 ≤ fuel) :
    ∃ e', e.exchange tag fuel (.outgoing hdr first others sw) = some e' ∧
      e'.line.Idle inEp (sent ++ ((first :: others).flatMap (·.payload) ++ sw.payload))
        (usb ++ T0Exchange.received tag inEp (.outgoing hdr first others sw)) := by
  have header := receive_header tag h cla
  obtain ⟨some', small⟩ := wf.split first List.mem_cons_self
  obtain ⟨e1, opened, more⟩ := transmit_more header some' small (by rw [wf.opens]; decide)
    (by rw [wf.opens]; decide) enough
  have sending : Line.afterByte .waitPb first.flags = .waitTx := by rw [wf.opens]; decide
  rw [sending] at more
  obtain ⟨e2, rest, done⟩ := transmit_others more (fun m hm => wf.split m (List.mem_cons_of_mem _ hm))
    wf.goesOn enough
  obtain ⟨e3, answered, idle⟩ := transmit_sw done wf.sw enough
  refine ⟨e3, ?_, ?_⟩
  · rw [exchange, List.foldlM_cons, opened]
    change (do let e ← others.foldlM (transmit fuel) e1; e.transmit fuel sw) = _
    rw [rest]
    exact answered
  · simpa [T0Exchange.received] using idle

theorem exchange_transparent (tag : Nat) (h : e.line.Idle inEp sent usb) {x : T0Exchange}
    (wf : x.WellFormed) {fuel : Nat} (enough : 258 ≤ fuel) :
    ∃ e', e.exchange tag fuel x = some e' ∧
      e'.line.Idle inEp (sent ++ x.answer.flatMap (·.payload)) (usb ++ x.received tag inEp) := by
  cases x with
  | incoming hdr body pb sw =>
    have cla : hdr.cla ≠ 0xff := wf.1
    simpa [T0Exchange.answer] using exchange_incoming tag h cla wf.2 enough
  | outgoing hdr first others sw =>
    have cla : hdr.cla ≠ 0xff := wf.1
    simpa [T0Exchange.answer] using exchange_outgoing tag h cla wf.2 enough

end Emu

/-- The card emulation is transparent for every sequence of T=0 commands. -/
theorem t0_transparent {e : Emu} {inEp : Nat} (tag : Nat) {sent : List UInt8} {usb : List UsbMsg}
    (idle : e.line.Idle inEp sent usb) {xs : List T0Exchange} (wf : ∀ x ∈ xs, x.WellFormed)
    {fuel : Nat} (enough : 258 ≤ fuel) :
    ∃ e', e.exchanges tag fuel xs = some e' ∧
      e'.line.Idle inEp (sent ++ xs.flatMap fun x => x.answer.flatMap (·.payload))
        (usb ++ xs.flatMap (T0Exchange.received tag inEp)) := by
  induction xs generalizing e sent usb with
  | nil => exact ⟨e, rfl, by simpa using idle⟩
  | cons x xs ih =>
    obtain ⟨e1, first, next⟩ := Emu.exchange_transparent tag idle (wf x List.mem_cons_self)
      enough
    obtain ⟨e2, rest, done⟩ := ih next fun x hx => wf x (List.mem_cons_of_mem _ hx)
    refine ⟨e2, ?_, by simpa using done⟩
    rw [Emu.exchanges, List.foldlM_cons, first]
    exact rest

def selectThenRead : List T0Exchange :=
  let msg (flags : UInt32) (payload : List UInt8) : TxData :=
    { flags, payload, tag := 1, slotNr := 0, behind := fun _ => 0 }
  [.incoming ⟨0xa0, 0xa4, 0x00, 0x00, 0x02⟩ [0x3f, 0x00] (msg cemuDataFPbAndRx [0xa4])
     (msg cemuDataFFinal [0x9f, 0x03]),
   .outgoing ⟨0xa0, 0xc0, 0x00, 0x00, 0x03⟩ (msg cemuDataFPbAndTx [0xc0, 0x01])
     [msg 0 [0x02, 0x03]] (msg (cemuDataFFinal ||| cemuDataFPbAndTx) [0x90, 0x00])]

theorem selectThenRead_wellFormed : ∀ x ∈ selectThenRead, x.WellFormed := by
  intro x hx
  simp only [selectThenRead, List.mem_cons, List.not_mem_nil, or_false] at hx
  obtain rfl | rfl := hx
  · exact ⟨by decide, ⟨by decide, ⟨rfl, rfl⟩, ⟨rfl, .inl rfl⟩⟩⟩
  · refine ⟨by decide, ⟨⟨[0x01, 0x02, 0x03], by decide, rfl⟩, ?_, rfl, ?_, ⟨rfl, .inr rfl⟩⟩⟩
    · intro m hm
      simp only [List.mem_cons, List.not_mem_nil, or_false] at hm
      obtain rfl | rfl := hm <;> exact ⟨by simp, by simp⟩
    · intro m hm
      simp only [List.mem_cons, List.not_mem_nil, or_false] at hm
      obtain rfl := hm
      rfl

def waitingCard : Emu :=
  { cardEmuInit 0 2 3 true false true ⟨.rx, false, 9600, none, []⟩ [] [] with ch.state := .waitTpdu }

theorem selectThenRead_transparent :
    ∃ e', waitingCard.exchanges 7 258 selectThenRead = some e' ∧
      e'.line.Idle 2 [0xa4, 0x9f, 0x03, 0xc0, 0x01, 0x02, 0x03, 0x90, 0x00]
        [⟨7, 2, .rxData cemuDataFTpduHdr 5 [0xa0, 0xa4, 0x00, 0x00, 0x02]⟩,
         ⟨7, 2, .rxData cemuDataFFinal 2 [0x3f, 0x00]⟩,
         ⟨7, 2, .rxData cemuDataFTpduHdr 5 [0xa0, 0xc0, 0x00, 0x00, 0x03]⟩] :=
  t0_transparent 7 (e := waitingCard) ⟨rfl, rfl, rfl, rfl, rfl, rfl, rfl, rfl⟩
    selectThenRead_wellFormed (Nat.le_refl 258)

end Simtrace2
