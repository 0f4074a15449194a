import Simtrace2.Lib.Run
import Simtrace2.Sniffer.Feed

/-! Reconstruction of TPDUs: what the sniffer reports of a T=0 exchange is the
header, the data and the status word, without the procedure bytes. -/
namespace Simtrace2
open Lib Sniffer

/-- What the card answers at the place of a procedure byte. -/
inductive ProcedureStep where
  | null
  | remaining (data : List UInt8)
  | single (byte : UInt8)

structure Exchange where
  hdr : TpduHdr
  steps : List ProcedureStep
  sw1 : UInt8
  sw2 : UInt8

namespace ProcedureStep

def line (ins : UInt8) : ProcedureStep → List UInt8
  | null => [0x60]
  | remaining data => ins :: data
  | single byte => [~~~ ins, byte]

def data : ProcedureStep → List UInt8
  | null => []
  | remaining data => data
  | single byte => [byte]

/-- The steps transfer no more than what is missing; all of it where the card has
asked for the rest. -/
def Fit : Nat → List ProcedureStep → Prop
  | _, [] => True
  | missing, null :: steps => Fit missing steps
  | missing, remaining data :: steps => data ≠ [] ∧ data.length = missing ∧ Fit 0 steps
  | missing, single _ :: steps => 0 < missing ∧ Fit (missing - 1) steps

end ProcedureStep

def TpduHdr.maxData (h : TpduHdr) : Nat := if h.p3 = 0 then 256 else h.p3.toNat

namespace Exchange

structure WellFormed (x : Exchange) : Prop where
  cla : x.hdr.cla ≠ 0xff
  ins : x.hdr.ins &&& 0xf0 ≠ 0x60 ∧ x.hdr.ins &&& 0xf0 ≠ 0x90
  steps : ProcedureStep.Fit x.hdr.maxData x.steps
  sw1 : (0x61 ≤ x.sw1 ∧ x.sw1 ≤ 0x6f) ∨ (0x90 ≤ x.sw1 ∧ x.sw1 ≤ 0x9f)

def data (x : Exchange) : List UInt8 := x.steps.flatMap ProcedureStep.data

def line (x : Exchange) : List UInt8 :=
  x.hdr.bytes ++ x.steps.flatMap (ProcedureStep.line x.hdr.ins) ++ [x.sw1, x.sw2]

def packet (x : Exchange) : List UInt8 := x.hdr.bytes ++ x.data ++ [x.sw1, x.sw2]

end Exchange

/-! What distinguishes the bytes at the place of a procedure byte. -/

theorem ins_not_sw1 {ins : UInt8} (h : ins &&& 0xf0 ≠ 0x60 ∧ ins &&& 0xf0 ≠ 0x90) :
    isSw1 ins = false ∧ isSw1 (~~~ ins) = false ∧ ins ≠ ~~~ ins := by
  revert ins
  apply forall_byte
  decide +kernel

theorem sw1_isSw1 {sw1 : UInt8} (h : (0x61 ≤ sw1 ∧ sw1 ≤ 0x6f) ∨ (0x90 ≤ sw1 ∧ sw1 ≤ 0x9f)) :
    isSw1 sw1 = true ∧ sw1 ≠ 0x60 := by
  revert sw1
  apply forall_byte
  decide +kernel

theorem maxData_pos (h : TpduHdr) : 0 < h.maxData ∧ h.maxData ≤ 256 := by
  unfold TpduHdr.maxData
  split
  · omega
  · rename_i p3
    have small := h.p3.toNat_lt
    have pos : h.p3.toNat ≠ 0 := fun zero => p3 (UInt8.toNat_inj.mp zero)
    omega

structure Holds (g : SniffTpdu) (st : TpduSniffState) (got : List UInt8) : Prop where
  state : g.state = st
  count : g.packetI = got.length
  held : g.packet.upTo got.length = got

namespace Sniffer

def tpduAt (s : Sniffer) (g : SniffTpdu) : Sniffer := { s with isoState := .inTpdu, gTpdu := g }

theorem feed_tpduAt {s : Sniffer} (quiet : s.Quiet) (g : SniffTpdu) (byte : UInt8) :
    (s.tpduAt g).feed (s.convert byte) = (s.tpduAt g).processByteTpdu byte := by
  have same : (s.tpduAt g).Quiet := quiet
  exact feed_convert same byte

end Sniffer

namespace Holds
variable {s : Sniffer} {g : SniffTpdu} {got : List UInt8}

theorem put {st : TpduSniffState} (h : Holds g st got) (room : got.length < maxTpduSize)
    (byte : UInt8) :
    Holds { g with packet := g.packet.put g.packetI byte, packetI := g.packetI + 1 } st
      (got ++ [byte]) := by
  refine ⟨h.state, by simp [h.count], ?_⟩
  rw [h.count, List.length_append, List.length_singleton, Buffer.upTo_put _ room, h.held]

theorem move {st : TpduSniffState} (h : Holds g st got) (next : TpduSniffState) :
    Holds { g with state := next } next got :=
  ⟨rfl, h.count, h.held⟩

theorem process {st : TpduSniffState} (h : Holds g st got) (room : got.length < maxTpduSize)
    (byte : UInt8) : (s.tpduAt g).processByteTpdu byte = (s.tpduAt g).tpduSwitch byte st := by
  have inside : ¬ maxTpduSize ≤ (s.tpduAt g).gTpdu.packetI := by
    have count := h.count
    simp only [tpduAt]
    omega
  rw [processByteTpdu, if_neg (by simp [tpduAt]), if_neg inside]
  simp only [tpduAt, h.state]

theorem header {st : TpduSniffState} (h : Holds g st got) (room : got.length < maxTpduSize)
    (byte : UInt8) (next : TpduSniffState) :
    ∃ g', (s.tpduAt g).tpduHeader got.length byte next = s.tpduAt g' ∧
      Holds g' next (got ++ [byte]) := by
  refine ⟨_, ?_, (h.put room byte).move next⟩
  simp only [tpduHeader, tpduPut, changeTpduState, tpduAt, h.count]

theorem hdr (h : Holds g .cla []) (quiet : s.Quiet) (x : TpduHdr) (cla : x.cla ≠ 0xff)
    (ins : isSw1 x.ins = false) :
    ∃ g', (x.bytes.map s.convert).foldl feed (s.tpduAt g) = s.tpduAt g' ∧
      Holds g' .procedure x.bytes := by
  obtain ⟨g1, take1, h1⟩ := h.header (s := s) (by simp [maxTpduSize]) x.cla .ins
  obtain ⟨g2, take2, h2⟩ := h1.header (s := s) (by simp [maxTpduSize]) x.ins .p1
  obtain ⟨g3, take3, h3⟩ := h2.header (s := s) (by simp [maxTpduSize]) x.p1 .p2
  obtain ⟨g4, take4, h4⟩ := h3.header (s := s) (by simp [maxTpduSize]) x.p2 .p3
  obtain ⟨g5, take5, h5⟩ := h4.header (s := s) (by simp [maxTpduSize]) x.p3 .procedure
  have step1 : (s.tpduAt g).processByteTpdu x.cla = s.tpduAt g1 := by
    rw [h.process (by simp [maxTpduSize]), tpduSwitch, if_neg cla]
    exact take1
  have step2 : (s.tpduAt g1).processByteTpdu x.ins = s.tpduAt g2 := by
    rw [h1.process (by simp [maxTpduSize]), tpduSwitch, if_neg (by simp [ins])]
    exact take2
  have step3 : (s.tpduAt g2).processByteTpdu x.p1 = s.tpduAt g3 := by
    rw [h2.process (by simp [maxTpduSize])]
    exact take3
  have step4 : (s.tpduAt g3).processByteTpdu x.p2 = s.tpduAt g4 := by
    rw [h3.process (by simp [maxTpduSize])]
    exact take4
  have step5 : (s.tpduAt g4).processByteTpdu x.p3 = s.tpduAt g5 := by
    rw [h4.process (by simp [maxTpduSize])]
    exact take5
  refine ⟨g5, ?_, h5⟩
  simp only [TpduHdr.bytes, List.map_cons, List.map_nil, List.foldl_cons, List.foldl_nil,
    feed_tpduAt quiet, step1, step2, step3, step4, step5]

theorem hdr_get {st : TpduSniffState} {x : TpduHdr} {data : List UInt8}
    (h : Holds g st (x.bytes ++ data)) : g.packet.get 1 = x.ins ∧ g.packet.get 4 = x.p3 := by
  constructor
  · rw [Buffer.get_of_upTo _ h.held (by simp; omega)]
    rfl
  · rw [Buffer.get_of_upTo _ h.held (by simp; omega)]
    rfl

theorem full {st : TpduSniffState} {x : TpduHdr} {data : List UInt8}
    (h : Holds g st (x.bytes ++ data)) : (s.tpduAt g).tpduFull = 5 + x.maxData := by
  simp only [tpduFull, TpduHdr.maxData, tpduAt, h.hdr_get.2]
  split <;> rfl

theorem dataByte {st : TpduSniffState} {x : TpduHdr} {data : List UInt8}
    (h : Holds g st (x.bytes ++ data)) (room : data.length < x.maxData) (byte : UInt8)
    (receives : st = .dataSingle ∨ st = .dataRemaining) :
    ∃ g', (s.tpduAt g).processByteTpdu byte = s.tpduAt g' ∧
      Holds g' (if st = .dataSingle ∨ data.length + 1 = x.maxData then .procedure
        else .dataRemaining) (x.bytes ++ (data ++ [byte])) := by
  have bound := maxData_pos x
  have small : (x.bytes ++ data).length < maxTpduSize := by
    simp [maxTpduSize]
    omega
  have put := h.put small byte
  rw [List.append_assoc] at put
  have count : (5 + x.maxData ≤ g.packetI + 1) ↔ data.length + 1 = x.maxData := by
    rw [h.count, List.length_append, TpduHdr.bytes_length]
    omega
  have taken : (s.tpduAt g).processByteTpdu byte = (s.tpduAt g).tpduData byte := by
    rw [h.process small]
    rcases receives with rfl | rfl <;> rfl
  have state := h.state
  have stored : (s.tpduAt g).tpduPut byte = s.tpduAt
      { g with packet := g.packet.put g.packetI byte, packetI := g.packetI + 1 } := rfl
  refine ⟨_, ?_, put.move _⟩
  rw [taken, tpduData]
  simp only [stored, put.full]
  by_cases last : data.length + 1 = x.maxData <;> rcases receives with rfl | rfl <;>
    simp [changeTpduState, tpduAt, count, last, state]

theorem remaining {x : TpduHdr} {data rest : List UInt8} (quiet : s.Quiet)
    (h : Holds g .dataRemaining (x.bytes ++ data)) (some : rest ≠ [])
    (fits : data.length + rest.length = x.maxData) :
    ∃ g', (rest.map s.convert).foldl feed (s.tpduAt g) = s.tpduAt g' ∧
      Holds g' .procedure (x.bytes ++ (data ++ rest)) := by
  induction rest generalizing g data with
  | nil => contradiction
  | cons byte rest ih =>
    rw [List.length_cons] at fits
    obtain ⟨g1, take, h1⟩ := h.dataByte (s := s) (by omega) byte (.inr rfl)
    simp only [List.map_cons, List.foldl_cons, feed_tpduAt quiet, take]
    by_cases last : rest = []
    · subst last
      refine ⟨g1, rfl, ?_⟩
      simpa [show data.length + 1 = x.maxData by simpa using fits] using h1
    · have more : rest.length ≠ 0 := by simpa using last
      rw [if_neg (by simp; omega)] at h1
      obtain ⟨g2, feeds, h2⟩ := ih h1 last (by simp; omega)
      exact ⟨g2, feeds, by simpa using h2⟩

theorem procedure {x : TpduHdr} {data : List UInt8} (h : Holds g .procedure (x.bytes ++ data))
    (bound : data.length ≤ x.maxData) (byte : UInt8) :
    (s.tpduAt g).processByteTpdu byte =
      if byte = 0x60 then s.tpduAt g
      else if x.ins = byte then s.tpduAt { g with state := .dataRemaining }
      else if ~~~ x.ins = byte then s.tpduAt { g with state := .dataSingle }
      else (s.tpduAt g).tpduSw1 byte := by
  have most := maxData_pos x
  have ins : (s.tpduAt g).gTpdu.packet.get 1 = x.ins := h.hdr_get.1
  rw [h.process (by simp [maxTpduSize]; omega), tpduSwitch, tpduProcedure, ins]
  rfl

theorem steps {x : TpduHdr} {data : List UInt8} (quiet : s.Quiet)
    (ins : isSw1 x.ins = false ∧ isSw1 (~~~ x.ins) = false ∧ x.ins ≠ ~~~ x.ins)
    (h : Holds g .procedure (x.bytes ++ data)) (bound : data.length ≤ x.maxData)
    (todo : List ProcedureStep) (fit : ProcedureStep.Fit (x.maxData - data.length) todo) :
    ∃ g', ((todo.flatMap (ProcedureStep.line x.ins)).map s.convert).foldl feed (s.tpduAt g) =
        s.tpduAt g' ∧
      Holds g' .procedure (x.bytes ++ (data ++ todo.flatMap ProcedureStep.data)) ∧
      (data ++ todo.flatMap ProcedureStep.data).length ≤ x.maxData := by
  have null : isSw1 0x60 = true := by decide
  have notNull : x.ins ≠ 0x60 := by
    intro same
    simp [same, null] at ins
  have notNull' : ~~~ x.ins ≠ 0x60 := by
    intro same
    simp [same, null] at ins
  induction todo generalizing g data with
  | nil => exact ⟨g, rfl, by simpa using h, by simpa using bound⟩
  | cons step todo ih =>
    simp only [List.flatMap_cons, List.map_append, List.foldl_append]
    cases step with
    | null =>
      obtain ⟨g', feeds, held, length⟩ := ih h bound fit
      refine ⟨g', ?_, held, length⟩
      simpa [ProcedureStep.line, feed_tpduAt quiet, h.procedure bound] using feeds
    | remaining rest =>
      obtain ⟨some, length, fit⟩ := fit
      obtain ⟨g1, feeds1, h1⟩ := (h.move .dataRemaining).remaining quiet some (by omega)
      have whole : (data ++ rest).length = x.maxData := by simp; omega
      obtain ⟨g', feeds, held, length⟩ := ih h1 (by omega) (by rwa [whole, Nat.sub_self])
      refine ⟨g', ?_, by simpa [ProcedureStep.data] using held, by
        simpa [ProcedureStep.data] using length⟩
      simp only [ProcedureStep.line, List.map_cons, List.foldl_cons, feed_tpduAt quiet,
        h.procedure bound, if_neg notNull, if_true, feeds1]
      exact feeds
    | single byte =>
      obtain ⟨room, fit⟩ := fit
      obtain ⟨g1, take, h1⟩ :=
        (h.move .dataSingle).dataByte (s := s) (by omega) byte (.inl rfl)
      rw [if_pos (.inl rfl)] at h1
      have longer : (data ++ [byte]).length = data.length + 1 := by simp
      obtain ⟨g', feeds, held, length⟩ := ih h1 (by omega) (by rwa [longer, ← Nat.sub_sub])
      refine ⟨g', ?_, by simpa [ProcedureStep.data] using held, by
        simpa [ProcedureStep.data] using length⟩
      simp only [ProcedureStep.line, List.map_cons, List.map_nil, List.foldl_cons, List.foldl_nil,
        feed_tpduAt quiet, h.procedure bound, if_neg notNull', if_neg ins.2.2, if_true, take]
      exact feeds

end Holds

namespace Sniffer

/-- The sniffer after a TPDU: one message more, if the pool had a buffer for it. -/
def reported (s : Sniffer) (g : SniffTpdu) (packet : List UInt8) : Sniffer :=
  { s with gTpdu := g, asked := s.asked + 1
           sent := s.sent ++ if s.alloc s.asked then [.data .tpdu 0 packet] else [] }

end Sniffer

namespace Holds
variable {s : Sniffer} {g : SniffTpdu}

theorem sw1 {x : TpduHdr} {data : List UInt8} (h : Holds g .procedure (x.bytes ++ data))
    (bound : data.length ≤ x.maxData) (ins : isSw1 x.ins = false ∧ isSw1 (~~~ x.ins) = false)
    {byte : UInt8} (first : isSw1 byte = true ∧ byte ≠ 0x60) :
    ∃ g', (s.tpduAt g).processByteTpdu byte = s.tpduAt g' ∧
      Holds g' .sw2 (x.bytes ++ data ++ [byte]) := by
  have most := maxData_pos x
  have notIns : x.ins ≠ byte ∧ ~~~ x.ins ≠ byte := by
    constructor
    · rintro rfl
      simp [ins] at first
    · rintro rfl
      simp [ins] at first
  refine ⟨_, ?_, (h.put (by simp [maxTpduSize]; omega) byte).move .sw2⟩
  rw [h.procedure bound, if_neg first.2, if_neg notIns.1, if_neg notIns.2, tpduSw1, if_pos first.1]
  rfl

theorem sw2 {got : List UInt8} (st : s.isoState = .waitTpdu) (h : Holds g .sw2 got)
    (room : got.length < maxTpduSize) (byte : UInt8) :
    ∃ g', (s.tpduAt g).processByteTpdu byte = s.reported g' (got ++ [byte]) ∧
      g'.state = .cla ∧ g'.packetI = 0 := by
  have h1 := h.put room byte
  have stored : (s.tpduAt g).tpduPut byte = s.tpduAt
      { g with packet := g.packet.put g.packetI byte, packetI := g.packetI + 1 } := rfl
  have packet := h1.held
  rw [← h1.count] at packet
  have sent (g1 : SniffTpdu) : (s.tpduAt g1).usbSendTpdu 0 =
      (s.tpduAt g1).usbMsgSubmit (.data .tpdu 0 (g1.packet.upTo g1.packetI)) := by
    rw [usbSendTpdu, if_neg (by simp [tpduAt])]
    rfl
  have back (s : Sniffer) (now : s.isoState = .inTpdu) : s.changeState .waitTpdu =
      { s with isoState := .waitTpdu, gTpdu.state := .cla, gTpdu.packetI := 0 } := by
    rw [changeState, if_neg (by simp [now])]
    rfl
  refine ⟨{ g with packet := g.packet.put g.packetI byte, state := .cla, packetI := 0 }, ?_,
    rfl, rfl⟩
  rw [h.process room, tpduSwitch, stored, sent, packet, back _ rfl]
  simp only [Sniffer.reported, usbMsgSubmit, tpduAt, st]
  rfl

end Holds

namespace Exchange

theorem reported {s : Sniffer} (quiet : s.Quiet) (st : s.isoState = .waitTpdu) (start : s.AtStart)
    {x : Exchange} (ok : x.WellFormed) :
    ∃ g, (x.line.map s.convert).foldl feed s = s.reported g x.packet ∧
      g.state = .cla ∧ g.packetI = 0 := by
  have ins := ins_not_sw1 ok.ins
  have first := sw1_isSw1 ok.sw1
  have most := maxData_pos x.hdr
  have fresh : Holds s.gTpdu .cla [] := ⟨(start st).1, (start st).2, rfl⟩
  have begins : s.feed (s.convert x.hdr.cla) = (s.tpduAt s.gTpdu).feed (s.convert x.hdr.cla) := by
    rw [feed_tpduAt quiet, feed_convert quiet, handleByte, st]
    simp only [if_neg ok.cla, changeState, st]
    rfl
  obtain ⟨g1, feeds1, h1⟩ := fresh.hdr quiet x.hdr ok.cla ins.1
  rw [← List.append_nil x.hdr.bytes] at h1
  obtain ⟨g2, feeds2, h2, bound⟩ := h1.steps quiet ins (by simp) x.steps ok.steps
  rw [List.nil_append] at h2 bound
  obtain ⟨g3, take3, h3⟩ := h2.sw1 (s := s) bound ⟨ins.1, ins.2.1⟩ first
  obtain ⟨g4, take4, done⟩ := h3.sw2 st (by simp [maxTpduSize] at *; omega) x.sw2
  refine ⟨g4, ?_, done⟩
  have hdr : (x.hdr.bytes.map s.convert).foldl feed s = s.tpduAt g1 := by
    rw [← feeds1]
    simp only [TpduHdr.bytes, List.map_cons, List.foldl_cons, begins]
  rw [line, List.map_append, List.map_append, List.foldl_append, List.foldl_append, hdr, feeds2]
  simp only [List.map_cons, List.map_nil, List.foldl_cons, List.foldl_nil, feed_tpduAt quiet,
    take3, take4]
  simp [packet, data]

end Exchange

theorem exchanges_reported {s : Sniffer} (quiet : s.Quiet) (st : s.isoState = .waitTpdu)
    (start : s.AtStart) (granted : ∀ n, s.alloc n = true) {xs : List Exchange}
    (ok : ∀ x ∈ xs, x.WellFormed) :
    (s.feedAll (xs.flatMap Exchange.line)).isoState = .waitTpdu ∧
      (s.feedAll (xs.flatMap Exchange.line)).sent =
        s.sent ++ xs.map fun x => .data .tpdu 0 x.packet := by
  induction xs generalizing s with
  | nil => simp [feedAll, st]
  | cons x xs ih =>
    obtain ⟨g, feeds, done⟩ := Exchange.reported quiet st start (ok x (by simp))
    obtain ⟨back, sent⟩ := ih (s := s.reported g x.packet) quiet st (fun _ => done) granted
      fun y hy => ok y (by simp [hy])
    have first : s.feedAll ((x :: xs).flatMap Exchange.line) =
        (s.reported g x.packet).feedAll (xs.flatMap Exchange.line) := by
      rw [feedAll, List.flatMap_cons, List.map_append, List.foldl_append, feeds]
      rfl
    rw [first, sent]
    exact ⟨back, by simp [Sniffer.reported, granted]⟩

/-- From every reachable state that waits for a TPDU, with nothing left to handle: each
exchange on the line gives one message, flagged with no error, of its header, its data
and its status word, and leaves the sniffer waiting for the next. -/
theorem tpdus_reconstructed (alloc : Nat → Bool) (inputs : List SniffInput) (xs : List Exchange)
    (st : (run Sniffer.step (.init alloc) inputs).isoState = .waitTpdu)
    (quiet : (run Sniffer.step (.init alloc) inputs).Quiet)
    (granted : ∀ n, (run Sniffer.step (.init alloc) inputs).alloc n = true)
    (ok : ∀ x ∈ xs, x.WellFormed) :
    ∀ ys, ys <+: xs →
      let s := run Sniffer.step (.init alloc) inputs
      let t := s.feedAll (ys.flatMap Exchange.line)
      t.isoState = .waitTpdu ∧ t.sent = s.sent ++ ys.map fun y => .data .tpdu 0 y.packet := by
  intro ys hys
  have start : (run Sniffer.step (.init alloc) inputs).AtStart :=
    run_invariant AtStart (fun _ input h => h.step input) (fun st => by simp [init] at st) inputs
  exact exchanges_reported quiet st start granted fun y hy => ok y (hys.subset hy)

def shortestAtr : List SniffInput :=
  [.change 8, .turn, .entry 0x803b, .turn, .entry 0x8000, .turn]

def selectMf : Exchange := ⟨⟨0xa0, 0xa4, 0, 0, 2⟩, [.null, .remaining [0x3f, 0]], 0x90, 0⟩

theorem selectMf_wellFormed : selectMf.WellFormed :=
  ⟨by decide, by decide, ⟨by decide, by decide, trivial⟩, by decide⟩

theorem selectMf_reconstructed :
    let s := run Sniffer.step (.init fun _ => true) shortestAtr
    let t := s.feedAll selectMf.line
    t.isoState = .waitTpdu ∧
      t.sent = s.sent ++ [.data .tpdu 0 [0xa0, 0xa4, 0, 0, 2, 0x3f, 0, 0x90, 0]] :=
  tpdus_reconstructed (fun _ => true) shortestAtr [selectMf] (by decide +kernel)
    ⟨by decide +kernel, by decide +kernel⟩ (fun _ => rfl)
    (by simpa using selectMf_wellFormed) [selectMf] (List.prefix_refl _)

end Simtrace2
