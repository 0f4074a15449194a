import Simtrace2.CardEmu.ModeCardemu
import Simtrace2.Lib.Run

/-! A PTS exchange as a whole: the request of the reader byte by byte, and the answer
of the card interrupt by interrupt. -/
namespace Simtrace2
open Lib

/-- A request of the reader, with its PTSS and a PCK that is right. Of the parameter
bytes the line carries those that PTS0 announces. -/
structure PtsRequest where
  buf : PtsBuf
  ptss : buf.ptss = 0xff
  pck : buf.pck = buf.csumPts

theorem PtsBuf.csumPts_eq (b : PtsBuf) : b.csumPts = b.body.foldl (fun csum x => csum ^^^ x) 0 := by
  simp [csumPts, serializePts]

namespace PtsRequest

def of (pts0 pts1 pts2 pts3 : UInt8) : PtsRequest where
  buf := ⟨0xff, pts0, pts1, pts2, pts3, PtsBuf.csumPts ⟨0xff, pts0, pts1, pts2, pts3, 0⟩⟩
  ptss := rfl
  pck := by
    rw [PtsBuf.csumPts_eq, PtsBuf.csumPts_eq]
    rfl

def bytes (q : PtsRequest) : List UInt8 := q.buf.serializePts

def pts1 (q : PtsRequest) : Option UInt8 := if hasBit q.buf.pts0 0x10 then some q.buf.pts1 else none

end PtsRequest

/-- What passes between the reader and the card: a byte of the reader, or a TX interrupt
of the card. -/
inductive LineEvent where
  | reader (byte : UInt8) (alloc : Alloc)
  | txrdy

/-- The request and its answer: as many interrupts as there are bytes. The card asks for
a buffer at the end of the request only. -/
def PtsRequest.exchange (q : PtsRequest) (alloc : Alloc) : List LineEvent :=
  q.bytes.map (.reader · alloc) ++ List.replicate q.bytes.length .txrdy

namespace CardemInst

def lineStep (ci : CardemInst) : LineEvent → CardemInst
  | .reader byte alloc => { ci with emu := ci.emu.cardEmuProcessRxByte byte alloc }
  | .txrdy => ci.usartIrqTx

/-- The bytes that the line carries in a step. -/
def carried (ci : CardemInst) : LineEvent → List UInt8
  | .reader byte _ => [byte]
  | .txrdy => ci.usartIrqTx.emu.uart.sent.drop ci.emu.uart.sent.length

end CardemInst

def ptsOptional (pts0 bit : UInt8) (i : PtsByte) : List PtsByte := if hasBit pts0 bit then [i] else []

def afterPts2 (pts0 : UInt8) : List PtsByte := ptsOptional pts0 0x40 .pts3 ++ [.pck]

def afterPts1 (pts0 : UInt8) : List PtsByte := ptsOptional pts0 0x20 .pts2 ++ afterPts2 pts0

def afterPts0 (pts0 : UInt8) : List PtsByte := ptsOptional pts0 0x10 .pts1 ++ afterPts1 pts0

/-- The bytes of a PTS message that follow the one given. -/
def ptsAfter (pts0 : UInt8) : PtsByte → List PtsByte
  | .ptss => .pts0 :: afterPts0 pts0
  | .pts0 => afterPts0 pts0
  | .pts1 => afterPts1 pts0
  | .pts2 => afterPts2 pts0
  | .pts3 => [.pck]
  | .pck => []

theorem ptsAfter_next (pts0 : UInt8) {i : PtsByte} (more : i ≠ .pck) :
    ptsAfter pts0 i = nextPtsByte pts0 i :: ptsAfter pts0 (nextPtsByte pts0 i) := by
  cases i with
  | ptss | pts3 => rfl
  | pts0 | pts1 | pts2 =>
    simp only [ptsAfter, nextPtsByte, afterPts0, afterPts1, afterPts2, ptsOptional]
    split_ifs <;> rfl
  | pck => contradiction

theorem ptsAfter_nil {pts0 : UInt8} {i : PtsByte} (next : ptsAfter pts0 i = []) : i = .pck := by
  by_contra more
  rw [ptsAfter_next _ more] at next
  contradiction

theorem ptsAfter_cons {pts0 : UInt8} {i j : PtsByte} {rest : List PtsByte}
    (next : ptsAfter pts0 i = j :: rest) :
    i ≠ .pck ∧ nextPtsByte pts0 i = j ∧ ptsAfter pts0 (nextPtsByte pts0 i) = rest := by
  have more : i ≠ .pck := by
    rintro rfl
    contradiction
  rw [ptsAfter_next _ more] at next
  exact ⟨more, List.cons.inj next⟩

theorem pts1_once (pts0 : UInt8) : .pts1 ∉ ptsAfter pts0 .pts1 := by
  simp only [ptsAfter, afterPts1, afterPts2, ptsOptional]
  split_ifs <;> simp

theorem nextPtsByte_ne_ptss (pts0 : UInt8) (i : PtsByte) : nextPtsByte pts0 i ≠ .ptss := by
  unfold nextPtsByte
  grind

theorem serializePts_eq (b : PtsBuf) :
    b.serializePts = (PtsByte.ptss :: ptsAfter b.pts0 .ptss).map b.get := by
  simp only [PtsBuf.serializePts, PtsBuf.body, ptsAfter, afterPts0, afterPts1, afterPts2, ptsOptional]
  split_ifs <;> rfl

theorem pts1_announced_iff (pts0 : UInt8) :
    PtsByte.pts1 ∈ PtsByte.ptss :: ptsAfter pts0 .ptss ↔ hasBit pts0 0x10 := by
  simp only [ptsAfter, afterPts0, afterPts1, afterPts2, ptsOptional]
  split_ifs <;> simp [*]

theorem pts1_announced {b : PtsBuf} {q : PtsRequest} (same : b.serializePts = q.bytes) :
    (if .pts1 ∈ PtsByte.ptss :: ptsAfter b.pts0 .ptss then some b.pts1 else none) = q.pts1 := by
  have pts0 : b.pts0 = q.buf.pts0 := by
    have second := congrArg (fun bytes => bytes.getD 1 0) same
    simpa [PtsRequest.bytes, PtsBuf.serializePts, PtsBuf.body] using second
  have third := congrArg (fun bytes => bytes.getD 2 0) same
  simp only [pts1_announced_iff, PtsRequest.pts1, pts0]
  split
  · rename_i announced
    have announced' : hasBit b.pts0 0x10 = true := pts0 ▸ announced
    have pts1 : b.pts1 = q.buf.pts1 := by
      simpa [PtsRequest.bytes, PtsBuf.serializePts, PtsBuf.body, announced, announced'] using third
    rw [pts1]
  · rfl

theorem ptsByte_get_set (b : PtsBuf) (i j : PtsByte) (byte : UInt8) :
    (b.set i byte).get j = if i = j then byte else b.get j := by
  cases i <;> cases j <;> rfl

namespace Emu

theorem emuUpdateFidi_eq (e : Emu) : e.emuUpdateFidi =
    { e with uart.fidi := usFidiRatio e.ch.fIndex e.ch.dIndex <|> e.uart.fidi } := by
  unfold emuUpdateFidi usFidiRatio
  cases iso78163ComputeFdRatio e.ch.fIndex e.ch.dIndex with
  | none => rfl
  | some ratio =>
    simp only
    split <;> rfl

/-! The request. -/

def heardPts (e : Emu) (state : PtsState) (req resp : PtsBuf) : Emu :=
  { e with ch.state := .inPts, ch.pts := ⟨state, req, resp⟩ }

theorem rx_ptss {e : Emu} (st : e.ch.state = .waitTpdu) (alloc : Alloc) :
    e.cardEmuProcessRxByte 0xff alloc =
      e.heardPts ⟨false, .pts0⟩ (e.ch.pts.req.set .ptss 0xff) e.ch.pts.resp := by
  simp [cardEmuProcessRxByte, st, processBytePts, setPtsState, Pts.store, Pts.answer, nextPtsState,
    nextPtsByte, cardSetState, heardPts]

theorem rx_pts {e : Emu} {i : PtsByte} (more : i ≠ .pck) (req resp : PtsBuf) (byte : UInt8)
    (alloc : Alloc) : (e.heardPts ⟨false, i⟩ req resp).cardEmuProcessRxByte byte alloc =
      e.heardPts ⟨false, nextPtsByte (req.set i byte).pts0 i⟩ (req.set i byte) resp := by
  simp [cardEmuProcessRxByte, processBytePts, setPtsState, Pts.store, Pts.answer, nextPtsState,
    cardSetState, heardPts, more]

theorem rx_pck {e : Emu} {req : PtsBuf} (resp : PtsBuf) {byte : UInt8}
    (sound : byte = (req.set .pck byte).csumPts) (alloc : Alloc) :
    (e.heardPts ⟨false, .pck⟩ req resp).cardEmuProcessRxByte byte alloc =
      ((e.heardPts ⟨true, .ptss⟩ (req.set .pck byte) (req.set .pck byte)).flushPts
        alloc).uartEnable .tx := by
  have held : (req.set .pck byte).pck = (req.set .pck byte).csumPts := sound
  simp [cardEmuProcessRxByte, processBytePts, setPtsState, Pts.store, Pts.answer, nextPtsState,
    heardPts, held]

theorem rx_wrong_pck {e : Emu} {req : PtsBuf} (resp : PtsBuf) {byte : UInt8}
    (wrong : byte ≠ (req.set .pck byte).csumPts) (alloc : Alloc) :
    (e.heardPts ⟨false, .pck⟩ req resp).cardEmuProcessRxByte byte alloc =
      (e.heardPts ⟨false, .ptss⟩ (req.set .pck byte) resp).cardSetState .waitTpdu := by
  have held : (req.set .pck byte).pck ≠ (req.set .pck byte).csumPts := wrong
  simp [cardEmuProcessRxByte, processBytePts, setPtsState, Pts.store, heardPts, held]

def hearAll (e : Emu) (bytes : List UInt8) (alloc : Alloc) : Emu :=
  bytes.foldl (fun e byte => e.cardEmuProcessRxByte byte alloc) e

theorem stored_pts0 {q req : PtsBuf} {i : PtsByte}
    (known : i = .pts0 ∨ i ≠ .ptss ∧ req.pts0 = q.pts0) :
    (req.set i (q.get i)).pts0 = q.pts0 := by
  obtain rfl | ⟨later, same⟩ := known
  · rfl
  · cases i <;> first | contradiction | rfl | exact same

theorem stored_came {q req : PtsBuf} {i : PtsByte} {rest path : List PtsByte}
    (came : ∀ j ∈ path, j ∈ i :: rest ∨ req.get j = q.get j) :
    ∀ j ∈ path, j ∈ rest ∨ (req.set i (q.get i)).get j = q.get j := by
  intro j announced
  rw [ptsByte_get_set]
  split
  · rename_i here
    exact .inr (here ▸ rfl)
  · rename_i other
    exact (came j announced).imp_left fun mem => (List.mem_cons.mp mem).resolve_left (Ne.symm other)

/-- A request up to its PCK. The induction is on the bytes that are still to come; those
that came before are in the request already. -/
theorem request_from (e : Emu) (resp : PtsBuf) {q : PtsBuf} (alloc : Alloc) {rest : List PtsByte}
    {i : PtsByte} {req : PtsBuf} (next : ptsAfter q.pts0 i = rest)
    (known : i = .pts0 ∨ i ≠ .ptss ∧ req.pts0 = q.pts0)
    (came : ∀ j ∈ PtsByte.ptss :: ptsAfter q.pts0 .ptss, j ∈ i :: rest ∨ req.get j = q.get j) :
    ∃ req', (req'.set .pck q.pck).serializePts = q.serializePts ∧
      (e.heardPts ⟨false, i⟩ req resp).hearAll ((i :: rest).map q.get) alloc =
        (e.heardPts ⟨false, .pck⟩ req' resp).cardEmuProcessRxByte q.pck alloc := by
  induction rest generalizing i req with
  | nil =>
    obtain rfl := ptsAfter_nil next
    refine ⟨req, ?_, rfl⟩
    rw [serializePts_eq, serializePts_eq]
    rw [show (req.set .pck q.pck).pts0 = q.pts0 from stored_pts0 known]
    apply List.map_congr_left
    intro j announced
    exact (stored_came came j announced).resolve_left List.not_mem_nil
  | cons j rest ih =>
    obtain ⟨more, rfl, behind⟩ := ptsAfter_cons next
    have step := rx_pts more (e := e) req resp (q.get i) alloc
    rw [stored_pts0 known] at step
    obtain ⟨req', whole, heard⟩ :=
      ih behind (.inr ⟨nextPtsByte_ne_ptss q.pts0 i, stored_pts0 known⟩) (stored_came came)
    refine ⟨req', whole, ?_⟩
    rw [← heard, ← step]
    rfl

theorem request_to_pck {e : Emu} (st : e.ch.state = .waitTpdu) {q : PtsBuf} (ptss : q.ptss = 0xff)
    (alloc : Alloc) :
    ∃ req, (req.set .pck q.pck).serializePts = q.serializePts ∧
      e.hearAll q.serializePts alloc =
        (e.heardPts ⟨false, .pck⟩ req e.ch.pts.resp).cardEmuProcessRxByte q.pck alloc := by
  have came : ∀ j ∈ PtsByte.ptss :: ptsAfter q.pts0 .ptss,
      j ∈ PtsByte.pts0 :: afterPts0 q.pts0 ∨
        (e.ch.pts.req.set .ptss 0xff).get j = q.get j := by
    intro j announced
    obtain rfl | behind := List.mem_cons.mp announced
    · exact .inr ptss.symm
    · exact .inl behind
  obtain ⟨req, whole, heard⟩ := request_from e e.ch.pts.resp alloc rfl (.inl rfl) came
  refine ⟨req, whole, ?_⟩
  have first : q.get .ptss = 0xff := ptss
  rw [← heard, ← rx_ptss st alloc, serializePts_eq]
  simp only [hearAll, List.map_cons, List.foldl_cons, first]
  rfl

/-- A whole request: the card holds it, and is about to answer with the same bytes. -/
theorem request_heard {e : Emu} (st : e.ch.state = .waitTpdu) (q : PtsRequest) (alloc : Alloc) :
    ∃ req, req.serializePts = q.bytes ∧ e.hearAll q.bytes alloc =
      ((e.heardPts ⟨true, .ptss⟩ req req).flushPts alloc).uartEnable .tx := by
  obtain ⟨req, whole, heard⟩ := request_to_pck st q.ptss alloc
  refine ⟨req.set .pck q.buf.pck, whole, ?_⟩
  rw [PtsRequest.bytes, heard]
  apply rx_pck
  rw [PtsBuf.csumPts, whole]
  exact q.pck

/-- A request with a wrong PCK: the card waits for a TPDU again, and holds what it had. -/
theorem request_refused {e : Emu} (st : e.ch.state = .waitTpdu) {q : PtsBuf} (ptss : q.ptss = 0xff)
    (wrong : q.pck ≠ q.csumPts) (alloc : Alloc) :
    ∃ req, e.hearAll q.serializePts alloc =
      (e.heardPts ⟨false, .ptss⟩ req e.ch.pts.resp).cardSetState .waitTpdu := by
  obtain ⟨req, whole, heard⟩ := request_to_pck st ptss alloc
  refine ⟨req.set .pck q.pck, ?_⟩
  rw [heard]
  apply rx_wrong_pck
  rw [PtsBuf.csumPts, whole]
  exact wrong

end Emu

/-! The answer. -/

/-- D as `emu_update_wt` reads it. -/
def emuD (dIndex : Nat) : Nat :=
  if 1 ≤ dIndex ∧ dIndex ≤ 9 then (iso78163DiTable[dIndex]?).getD 1 else 1

/-- What an answer leaves in the card and its UART, with the byte of PTS1 where it has one. -/
structure PtsTaken (e e' : Emu) (pts1 : Option UInt8) : Prop where
  state : e'.ch.state = .waitTpdu
  fIndex : e'.ch.fIndex = (pts1.map fun byte => byte.toNat / 16).getD e.ch.fIndex
  dIndex : e'.ch.dIndex = (pts1.map fun byte => byte.toNat % 16).getD e.ch.dIndex
  wi : e'.ch.wi = e.ch.wi
  waitingTime : e'.ch.waitingTime = e.ch.wi.toNat * 960 * emuD e'.ch.dIndex
  fidi : e'.uart.fidi = (usFidiRatio e'.ch.fIndex e'.ch.dIndex <|> e.uart.fidi)

/-- The request has been echoed, reported in a message for which there was a buffer, and
taken over. -/
structure PtsAccepted (e e' : Emu) (q : PtsBuf) (alloc : Alloc) : Prop extends
    PtsTaken e e' (if hasBit q.pts0 0x10 then some q.pts1 else none) where
  sent : e'.uart.sent = e.uart.sent ++ q.serializePts
  usb : e'.usb = e.usb ++ alloc.toList.map fun tag =>
    ⟨tag, e.ch.inEp, .ptsInfo q.serializePts.length q.serializePts q.serializePts⟩

namespace Emu

def saidPts (e : Emu) (resp : PtsBuf) (i : PtsByte) : Emu :=
  ((e.takePts1 (resp.get i)).uartTx (resp.get i)).setPtsState ⟨true, nextPtsByte resp.pts0 i⟩

theorem saidPts_uart (e : Emu) (resp : PtsBuf) (i : PtsByte) :
    (e.saidPts resp i).uart = { e.uart with sent := e.uart.sent ++ [resp.get i] } := by
  simp only [saidPts, takePts1]
  split <;> rfl

theorem saidPts_usb (e : Emu) (resp : PtsBuf) (i : PtsByte) : (e.saidPts resp i).usb = e.usb := by
  simp only [saidPts, takePts1]
  split <;> rfl

theorem saidPts_ch {e : Emu} {i : PtsByte} (pts : e.ch.pts.state = ⟨true, i⟩) (resp : PtsBuf) :
    (e.saidPts resp i).ch =
      { e.ch with
        fIndex := if i = .pts1 then resp.pts1.toNat / 16 else e.ch.fIndex
        dIndex := if i = .pts1 then resp.pts1.toNat % 16 else e.ch.dIndex
        pts.state := ⟨true, nextPtsByte resp.pts0 i⟩ } := by
  simp only [saidPts, takePts1, pts]
  split
  · rename_i here
    subst here
    rfl
  · rfl

theorem enter_waitTpdu_ch {e : Emu} (st : e.ch.state ≠ .waitTpdu) :
    (e.cardSetState .waitTpdu).ch = { e.ch with state := .waitTpdu, tpdu.state := .waitCla } := by
  simp [cardSetState, st, setTpduState_ch]

theorem enter_waitTpdu_uart (e : Emu) :
    (e.cardSetState .waitTpdu).uart.fidi = e.uart.fidi ∧
      (e.cardSetState .waitTpdu).uart.sent = e.uart.sent ∧
      (e.cardSetState .waitTpdu).usb = e.usb := by
  have cla (e : Emu) : (e.setTpduState .waitCla).uart.fidi = e.uart.fidi ∧
      (e.setTpduState .waitCla).uart.sent = e.uart.sent ∧ (e.setTpduState .waitCla).usb = e.usb := by
    unfold setTpduState
    split <;> exact ⟨rfl, rfl, rfl⟩
  unfold cardSetState
  split
  · exact ⟨rfl, rfl, rfl⟩
  · exact cla { e with ch.state := .waitTpdu }

theorem finishPts_taken {e : Emu} (st : e.ch.state = .inPts) : PtsTaken e e.finishPts none := by
  have updated : e.emuUpdateFidi.emuUpdateWt.ch =
      { e.ch with waitingTime := e.ch.wi.toNat * 960 * emuD e.ch.dIndex } := by
    rw [emuUpdateFidi_eq]
    rfl
  have ch : e.finishPts.ch = { e.ch with
      state := .waitTpdu, tpdu.state := .waitCla, pts.state := ⟨false, .ptss⟩
      waitingTime := e.ch.wi.toNat * 960 * emuD e.ch.dIndex } := by
    have entered := enter_waitTpdu_ch (e := e.emuUpdateFidi.emuUpdateWt) (by simp [updated, st])
    simp only [finishPts, setPtsState, uartWaitTxIdle_eq, entered, updated]
  have fidi : e.finishPts.uart.fidi =
      (usFidiRatio e.ch.fIndex e.ch.dIndex <|> e.uart.fidi) := by
    have entered := (enter_waitTpdu_uart e.emuUpdateFidi.emuUpdateWt).1
    simp only [finishPts, setPtsState, uartWaitTxIdle_eq, entered]
    rw [emuUpdateFidi_eq]
    rfl
  constructor
  case fidi => rw [fidi, ch]
  all_goals simp only [ch, Option.map_none, Option.getD_none]

theorem finishPts_sent (e : Emu) :
    e.finishPts.uart.sent = e.uart.sent ∧ e.finishPts.usb = e.usb := by
  obtain ⟨_, sent, usb⟩ := enter_waitTpdu_uart e.emuUpdateFidi.emuUpdateWt
  simp only [finishPts, setPtsState, uartWaitTxIdle_eq, sent, usb]
  rw [emuUpdateFidi_eq]
  exact ⟨rfl, rfl⟩

end Emu

/-- PTS1 is one of the bytes that follow, or the one just said, or not announced. -/
theorem PtsTaken.before {e said e' : Emu} {i : PtsByte} {resp : PtsBuf} {rest : List PtsByte}
    (ch : said.ch = { e.ch with
      fIndex := if i = .pts1 then resp.pts1.toNat / 16 else e.ch.fIndex
      dIndex := if i = .pts1 then resp.pts1.toNat % 16 else e.ch.dIndex
      pts.state := ⟨true, nextPtsByte resp.pts0 i⟩ })
    (uart : said.uart = { e.uart with sent := e.uart.sent ++ [resp.get i] })
    (next : i = .pts1 → .pts1 ∉ rest)
    (taken : PtsTaken said e' (if .pts1 ∈ rest then some resp.pts1 else none)) :
    PtsTaken e e' (if .pts1 ∈ i :: rest then some resp.pts1 else none) := by
  obtain ⟨state, fIndex, dIndex, wi, waitingTime, fidi⟩ := taken
  rw [ch] at fIndex dIndex wi waitingTime
  rw [uart] at fidi
  by_cases here : i = .pts1
  · rw [if_neg (next here), if_pos here] at fIndex dIndex
    refine ⟨state, ?_, ?_, wi, waitingTime, fidi⟩
    · simpa [here] using fIndex
    · simpa [here] using dIndex
  · have elsewhere : PtsByte.pts1 ∈ i :: rest ↔ PtsByte.pts1 ∈ rest := by
      simp [Ne.symm here]
    simp only [if_neg here] at fIndex dIndex
    simp only [elsewhere]
    exact ⟨state, fIndex, dIndex, wi, waitingTime, fidi⟩

namespace CardemInst
variable {ci : CardemInst} {i : PtsByte} {resp : PtsBuf}

theorem tx_more (on : ci.emu.uart.txrdy = true) (st : ci.emu.ch.state = .inPts)
    (pts : ci.emu.ch.pts.state = ⟨true, i⟩) (held : ci.emu.ch.pts.resp = resp) (more : i ≠ .pck) :
    ci.usartIrqTx = { ci with emu := ci.emu.saidPts resp i } := by
  simp [usartIrqTx, on, Emu.cardEmuTxByte, st, Emu.txBytePts, pts, held, more, nextPtsState,
    Emu.saidPts]

theorem tx_pck (on : ci.emu.uart.txrdy = true) (st : ci.emu.ch.state = .inPts)
    (pts : ci.emu.ch.pts.state = ⟨true, .pck⟩) (held : ci.emu.ch.pts.resp = resp) :
    ci.usartIrqTx = { ci with emu := (ci.emu.uartTx (resp.get .pck)).finishPts } := by
  simp [usartIrqTx, on, Emu.cardEmuTxByte, st, Emu.txBytePts, pts, held, Emu.takePts1]

/-- The rest of an answer, interrupt by interrupt; the induction is on the bytes of it. -/
theorem answer_from (ci : CardemInst) (resp : PtsBuf) {rest : List PtsByte}
    (next : ptsAfter resp.pts0 i = rest) (on : ci.emu.uart.txrdy = true) (st : ci.emu.ch.state = .inPts)
    (pts : ci.emu.ch.pts.state = ⟨true, i⟩) (held : ci.emu.ch.pts.resp = resp) :
    let events := List.replicate (i :: rest).length LineEvent.txrdy
    PtsTaken ci.emu (run lineStep ci events).emu
        (if .pts1 ∈ i :: rest then some resp.pts1 else none) ∧
      trace lineStep carried ci events = (i :: rest).map resp.get ∧
      (run lineStep ci events).emu.uart.sent = ci.emu.uart.sent ++ (i :: rest).map resp.get ∧
      (run lineStep ci events).emu.usb = ci.emu.usb := by
  induction rest generalizing i ci with
  | nil =>
    obtain rfl := ptsAfter_nil next
    have sent := tx_pck on st pts held
    have said : run lineStep ci [.txrdy] = ci.usartIrqTx := rfl
    obtain ⟨same, usb⟩ := (ci.emu.uartTx (resp.get .pck)).finishPts_sent
    have last : (ci.emu.uartTx (resp.get .pck)).finishPts.uart.sent =
        ci.emu.uart.sent ++ [resp.get .pck] := same
    refine ⟨?_, ?_, ?_, ?_⟩
    · have taken := Emu.finishPts_taken (e := ci.emu.uartTx (resp.get .pck)) st
      rw [List.length_singleton, List.replicate_one, said, sent, if_neg (by simp)]
      exact ⟨taken.state, taken.fIndex, taken.dIndex, taken.wi, taken.waitingTime, taken.fidi⟩
    · simp [trace, carried, sent, last]
    · rw [List.length_singleton, List.replicate_one, said, sent]
      exact last
    · rw [List.length_singleton, List.replicate_one, said, sent]
      exact usb
  | cons j rest ih =>
    obtain ⟨more, rfl, behind⟩ := ptsAfter_cons next
    have sent := tx_more on st pts held more
    have said : ci.usartIrqTx.emu = ci.emu.saidPts resp i := by rw [sent]
    have ch := Emu.saidPts_ch pts resp
    have uart := ci.emu.saidPts_uart resp i
    rw [← said] at ch uart
    have usb := ci.emu.saidPts_usb resp i
    rw [← said] at usb
    obtain ⟨taken, line, sent, reports⟩ := ih ci.usartIrqTx behind (by rw [uart]; exact on)
      (by rw [ch]; exact st) (by rw [ch]) (by rw [ch]; exact held)
    refine ⟨?_, ?_, ?_, ?_⟩
    · apply PtsTaken.before ch uart _ taken
      rintro rfl
      have once := pts1_once resp.pts0
      rwa [ptsAfter_next _ more, behind] at once
    · have heard : ci.carried .txrdy = [resp.get i] := by simp [carried, uart]
      rw [List.length_cons, List.replicate_succ, trace, heard, List.map_cons, ← line]
      rfl
    · have first : ci.usartIrqTx.emu.uart.sent = ci.emu.uart.sent ++ [resp.get i] := by rw [uart]
      rw [first] at sent
      rw [List.map_cons, ← List.append_cons] at *
      exact sent
    · exact reports.trans usb

theorem request_run (ci : CardemInst) (bytes : List UInt8) (alloc : Alloc) :
    run lineStep ci (bytes.map (.reader · alloc)) = { ci with emu := ci.emu.hearAll bytes alloc } ∧
      trace lineStep carried ci (bytes.map (.reader · alloc)) = bytes := by
  induction bytes generalizing ci with
  | nil => exact ⟨rfl, rfl⟩
  | cons byte bytes ih =>
    obtain ⟨heard, line⟩ := ih (ci.lineStep (.reader byte alloc))
    refine ⟨heard, ?_⟩
    rw [List.map_cons, trace, line]
    rfl

/-- The card echoes the request, reports it, and takes over what the answer says. -/
theorem pts_exchange {ci : CardemInst} (st : ci.emu.ch.state = .waitTpdu) (q : PtsRequest)
    (alloc : Alloc) :
    PtsAccepted ci.emu (run lineStep ci (q.exchange alloc)).emu q.buf alloc ∧
      trace lineStep carried ci (q.exchange alloc) = q.bytes ++ q.bytes := by
  obtain ⟨req, same, heard⟩ := Emu.request_heard st q alloc
  obtain ⟨request, line⟩ := ci.request_run q.bytes alloc
  have said := answer_from (run lineStep ci (q.bytes.map (.reader · alloc))) req (i := .ptss) rfl
    (by rw [request, heard]; rfl) (by simp [request, heard, Emu.heardPts])
    (by simp [request, heard, Emu.heardPts]) (by simp [request, heard, Emu.heardPts])
  have length : (PtsByte.ptss :: ptsAfter req.pts0 .ptss).length = q.bytes.length := by
    rw [← same, serializePts_eq, List.length_map]
  rw [length, pts1_announced same, ← serializePts_eq, same] at said
  obtain ⟨taken, answer, sent, usb⟩ := said
  rw [PtsRequest.exchange, run_append, trace_append, line, answer]
  refine ⟨?_, rfl⟩
  rw [request, heard] at taken sent usb ⊢
  obtain ⟨state, fIndex, dIndex, wi, waitingTime, fidi⟩ := taken
  have uart : (((ci.emu.heardPts ⟨true, .ptss⟩ req req).flushPts alloc).uartEnable .tx).uart =
      { ci.emu.uart with mode := .tx, txrdy := true } := by
    cases alloc <;> rfl
  have report : (((ci.emu.heardPts ⟨true, .ptss⟩ req req).flushPts alloc).uartEnable .tx).usb =
      ci.emu.usb ++ alloc.toList.map fun tag =>
        ⟨tag, ci.emu.ch.inEp, .ptsInfo req.serializePts.length req.serializePts req.serializePts⟩ := by
    cases alloc with
    | none => exact (List.append_nil _).symm
    | some tag => rfl
  rw [uart] at fidi sent
  rw [report, same] at usb
  rw [Emu.uartEnable_ch, Emu.flushPts_ch] at fIndex dIndex wi waitingTime
  exact ⟨⟨state, fIndex, dIndex, wi, waitingTime, fidi⟩, sent, usb⟩

theorem idle_run {ci : CardemInst} (st : ci.emu.ch.state = .waitTpdu) (n : Nat) :
    ∃ on, (run lineStep ci (List.replicate n .txrdy)).emu = { ci.emu with uart.txrdy := on } := by
  induction n generalizing ci with
  | zero => exact ⟨ci.emu.uart.txrdy, rfl⟩
  | succ n ih =>
    have step : ∃ on, ci.usartIrqTx.emu = { ci.emu with uart.txrdy := on } := by
      unfold usartIrqTx
      split
      · exact ⟨false, by simp [Emu.cardEmuTxByte, st, Emu.uartTxrdyOff]⟩
      · exact ⟨ci.emu.uart.txrdy, rfl⟩
    obtain ⟨on, next⟩ := step
    have still : ci.usartIrqTx.emu.ch.state = .waitTpdu := by rw [next]; exact st
    obtain ⟨on', rest⟩ := ih still
    refine ⟨on', ?_⟩
    rw [List.replicate_succ]
    exact rest.trans (by rw [next])

end CardemInst

/-- A request, whatever its PCK, and `n` interrupts. -/
def PtsBuf.exchange (q : PtsBuf) (alloc : Alloc) (n : Nat) : List LineEvent :=
  q.serializePts.map (.reader · alloc) ++ List.replicate n .txrdy

/-- Nothing has come of the request. -/
structure PtsRefused (e e' : Emu) : Prop where
  state : e'.ch.state = .waitTpdu
  fIndex : e'.ch.fIndex = e.ch.fIndex
  dIndex : e'.ch.dIndex = e.ch.dIndex
  wi : e'.ch.wi = e.ch.wi
  waitingTime : e'.ch.waitingTime = e.ch.waitingTime
  fidi : e'.uart.fidi = e.uart.fidi
  sent : e'.uart.sent = e.uart.sent
  usb : e'.usb = e.usb

theorem PtsBuf.sound_iff (q : PtsBuf) :
    q.serializePts.foldl (fun csum x => csum ^^^ x) 0 = 0 ↔ q.pck = q.csumPts := by
  rw [serializePts, List.foldl_append, ← csumPts_eq]
  exact UInt8.xor_eq_zero_iff.trans eq_comm

namespace CardemInst

/-- A request is echoed, reported and taken over, or nothing comes of it: its PCK decides. -/
theorem pts_settled {ci : CardemInst} (st : ci.emu.ch.state = .waitTpdu) {q : PtsBuf}
    (ptss : q.ptss = 0xff) (alloc : Alloc) (n : Nat) :
    (q.serializePts.foldl (fun csum x => csum ^^^ x) 0 = 0 → q.serializePts.length ≤ n →
      PtsAccepted ci.emu (run lineStep ci (q.exchange alloc n)).emu q alloc) ∧
    (q.serializePts.foldl (fun csum x => csum ^^^ x) 0 ≠ 0 →
      PtsRefused ci.emu (run lineStep ci (q.exchange alloc n)).emu) := by
  rw [q.sound_iff]
  constructor
  · intro pck enough
    have whole := (pts_exchange st ⟨q, ptss, pck⟩ alloc).1
    have more : List.replicate n LineEvent.txrdy =
        List.replicate q.serializePts.length .txrdy ++
          List.replicate (n - q.serializePts.length) .txrdy := by
      rw [← List.replicate_add, Nat.add_sub_cancel' enough]
    rw [PtsBuf.exchange, more, ← List.append_assoc, run_append]
    obtain ⟨on, idle⟩ := idle_run whole.state (n - q.serializePts.length)
    have after : (run lineStep (run lineStep ci (q.serializePts.map (.reader · alloc) ++
        List.replicate q.serializePts.length .txrdy))
        (List.replicate (n - q.serializePts.length) .txrdy)).emu = _ := idle
    rw [after]
    obtain ⟨⟨state, fIndex, dIndex, wi, waitingTime, fidi⟩, sent, usb⟩ := whole
    exact ⟨⟨state, fIndex, dIndex, wi, waitingTime, fidi⟩, sent, usb⟩
  · intro wrong
    obtain ⟨req, heard⟩ := Emu.request_refused st ptss (mt q.sound_iff.mpr wrong) alloc
    have request := (ci.request_run q.serializePts alloc).1
    rw [PtsBuf.exchange, run_append, request, heard]
    have ch : ((ci.emu.heardPts ⟨false, .ptss⟩ req ci.emu.ch.pts.resp).cardSetState .waitTpdu).ch =
        { ci.emu.ch with
          state := .waitTpdu, tpdu.state := .waitCla
          pts := ⟨⟨false, .ptss⟩, req, ci.emu.ch.pts.resp⟩ } :=
      Emu.enter_waitTpdu_ch (by simp [Emu.heardPts])
    obtain ⟨fidi, sent, usb⟩ :=
      Emu.enter_waitTpdu_uart (ci.emu.heardPts ⟨false, .ptss⟩ req ci.emu.ch.pts.resp)
    have back : { ci with emu := (ci.emu.heardPts ⟨false, .ptss⟩ req
        ci.emu.ch.pts.resp).cardSetState .waitTpdu }.emu.ch.state = .waitTpdu :=
      Emu.cardSetState_state _ _
    obtain ⟨on, idle⟩ := idle_run back n
    rw [idle]
    constructor
    case fidi => exact fidi
    case sent => exact sent
    case usb => exact usb
    all_goals simp only [ch]

/-- F = 9 and D = 6 with a PCK that is right, and with one that is not. -/
theorem pts1_settled :
    let ci : CardemInst :=
      { emu := { cardEmuInit 0 1 2 true false true ⟨.rx, false, 0, some 372, []⟩ [] [] with
          ch.state := .waitTpdu }
        pinInsert := .untouched .absent, pinInsertInverted := false, gMuxSlot := none }
    let q : PtsBuf := ⟨0xff, 0x10, 0x96, 0, 0, 0x79⟩
    PtsAccepted ci.emu (run lineStep ci (q.exchange (some 7) 4)).emu q (some 7) ∧
      PtsRefused ci.emu (run lineStep ci ({ q with pck := 0 }.exchange (some 7) 4)).emu :=
  ⟨(pts_settled rfl rfl (some 7) 4).1 (by decide) (by decide),
    (pts_settled rfl rfl (some 7) 4).2 (by decide)⟩

end CardemInst
end Simtrace2
