import Simtrace2.Proxy.Linked

/-! How far a session has got with a command, and what brings it on. -/
namespace Simtrace2
open Lib

section
variable (osimDetermineApduCase : TpduHdr → UInt8) (card : RealCard)

/-- How far a session has got: the bytes the reader has still to decode, what the real
card has still to be given, and a bound for the inputs that are needed for it. -/
inductive Stage (s : Session) : List UInt8 → List (List UInt8) → Nat → Prop
  | idle {prev : Previous}
      (line : s.proxy.ci.emu.line.Idle s.proxy.ci.emu.line.inEp s.proxy.ci.emu.line.sent [])
      (phase : s.reader.phase = Reader.begin s.reader.todo)
      (fifos : s.proxy.toHost = [] ∧ s.proxy.toDev = []) (host : s.proxy.host.Ready prev)
      (classified : Classified osimDetermineApduCase card prev s.reader.todo) :
    Stage s (s.reader.todo.flatMap (·.heard card)) (s.reader.todo.map Command.tpdu)
      (3000 * s.reader.todo.length)
  | header {prev : Previous} {c : Command} {cs : List Command} {given rest : List UInt8} {t : Tpdu}
      (todo : s.reader.todo = c :: cs) (split : c.hdr.bytes = given ++ rest) (some' : rest ≠ [])
      (begun : t.state = .waitCla)
      (line : s.proxy.ci.emu.line.InTpdu (given.foldl Tpdu.put t).state (given.foldl Tpdu.put t).hdr
        s.proxy.ci.emu.line.inEp none s.proxy.ci.emu.line.sent [])
      (phase : s.reader.phase = .header rest)
      (fifos : s.proxy.toHost = [] ∧ s.proxy.toDev = []) (host : s.proxy.host.Ready prev)
      (classified : Classified osimDetermineApduCase card prev (c :: cs)) :
    Stage s ((c :: cs).flatMap (·.heard card)) ((c :: cs).map Command.tpdu)
      (3000 * cs.length + 2000 + rest.length)
  | asked {prev : Previous} {c : Command} {cs : List Command} {m : UsbMsg}
      (todo : s.reader.todo = c :: cs)
      (line : s.proxy.ci.emu.line.InTpdu .waitPb c.hdr
        s.proxy.ci.emu.line.inEp none s.proxy.ci.emu.line.sent [])
      (phase : s.reader.phase = .procedure c.body)
      (fifos : s.proxy.toHost = [m] ∧ s.proxy.toDev = [])
      (report : m.payload = .rxData cemuDataFTpduHdr c.hdr.bytes.length c.hdr.bytes)
      (host : s.proxy.host.Ready prev)
      (classified : Classified osimDetermineApduCase card prev (c :: cs)) :
    Stage s ((c :: cs).flatMap (·.heard card)) ((c :: cs).map Command.tpdu)
      (3000 * cs.length + 1900)
  | requested {c : Command} {cs : List Command} {apduCase : UInt8}
      (todo : s.reader.todo = c :: cs) (some' : c.body ≠ [])
      (st : s.proxy.ci.emu.line.state = .inTpdu) (tpdu : s.proxy.ci.emu.line.tpdu = ⟨.waitPb, c.hdr⟩)
      (rx : s.proxy.ci.emu.line.rx = none) (phase : s.reader.phase = .procedure c.body)
      (toHost : s.proxy.toHost = [])
      (owed : s.proxy.owed = [osmoSt2CardemRequestPbAndRx c.hdr.ins])
      (host : s.proxy.host.Awaits c apduCase) (fits : c.Fits apduCase)
      (classified : Classified osimDetermineApduCase card ⟨c.hdr, (c.answer card).2, apduCase⟩ cs) :
    Stage s (c.hdr.ins :: (c.reply card ++ cs.flatMap (·.heard card)))
      ((c :: cs).map Command.tpdu) (3000 * cs.length + 1700 + s.proxy.toDev.length)
  | body {c : Command} {cs : List Command} {apduCase : UInt8} {given rest : List UInt8}
      (todo : s.reader.todo = c :: cs) (split : c.body = given ++ rest) (some' : rest ≠ [])
      (line : s.proxy.ci.emu.line.InTpdu .waitRx c.hdr s.proxy.ci.emu.line.inEp
        (Line.body s.proxy.tpdu given) s.proxy.ci.emu.line.sent [])
      (phase : s.reader.phase = .body rest) (fifos : s.proxy.toHost = [] ∧ s.proxy.toDev = [])
      (host : s.proxy.host.Awaits c apduCase) (fits : c.Fits apduCase)
      (classified : Classified osimDetermineApduCase card ⟨c.hdr, (c.answer card).2, apduCase⟩ cs) :
    Stage s (c.reply card ++ cs.flatMap (·.heard card)) ((c :: cs).map Command.tpdu)
      (3000 * cs.length + 1000 + rest.length)
  | reported {c : Command} {cs : List Command} {apduCase : UInt8} {m : UsbMsg}
      (todo : s.reader.todo = c :: cs) (some' : c.body ≠ [])
      (line : s.proxy.ci.emu.line.InTpdu .waitTx c.hdr
        s.proxy.ci.emu.line.inEp none s.proxy.ci.emu.line.sent [])
      (phase : s.reader.phase = .procedure []) (fifos : s.proxy.toHost = [m] ∧ s.proxy.toDev = [])
      (report : m.payload = .rxData cemuDataFFinal c.body.length c.body)
      (host : s.proxy.host.Awaits c apduCase) (fits : c.Fits apduCase)
      (classified : Classified osimDetermineApduCase card ⟨c.hdr, (c.answer card).2, apduCase⟩ cs) :
    Stage s (c.reply card ++ cs.flatMap (·.heard card)) ((c :: cs).map Command.tpdu)
      (3000 * cs.length + 900)
  | answered {c : Command} {cs : List Command} {apduCase : UInt8} {ts : TpduState} {begun : Bool}
      {owed : List TxRequest} {phase : ReaderPhase} {k : Nat}
      (todo : s.reader.todo = c :: cs) (st : s.proxy.ci.emu.line.state = .inTpdu)
      (tpdu : s.proxy.ci.emu.line.tpdu = ⟨ts, c.hdr⟩) (sends : ts.sending = true)
      (rx : s.proxy.ci.emu.line.rx = none) (here : s.reader.phase = phase)
      (toHost : s.proxy.toHost = []) (owes : s.proxy.owed = owed)
      (replying : Replying c (c.answer card).1 (c.answer card).2 owed phase begun k)
      (held : begun = true → s.proxy.ci.emu.line.tx ≠ none)
      (host : s.proxy.host.Ready ⟨c.hdr, (c.answer card).2, apduCase⟩)
      (classified : Classified osimDetermineApduCase card ⟨c.hdr, (c.answer card).2, apduCase⟩ cs) :
    Stage s (owed.flatMap (·.payload) ++ cs.flatMap (·.heard card)) (cs.map Command.tpdu)
      (3000 * cs.length + k + s.proxy.toDev.length)

end

/-- They differ in the bytes sent, and in what the exchange does not depend on. -/
structure Alike (p p' : Proxy) : Prop where
  line : ∃ sent, p'.ci.emu.line = { p.ci.emu.line with sent }
  fifos : p'.toHost = p.toHost ∧ p'.toDev = p.toDev
  host : p'.host = p.host
  tpdu : p'.tpdu = p.tpdu

namespace Alike

theorem of_moved {p p' : Proxy} (sent : List UInt8) (linked : p.Linked)
    (moved : Proxy.Moved p p' { p.ci.emu.line with sent }) : Alike p p' := by
  have usb : p.ci.emu.line.usb = [] := linked.usb
  refine ⟨⟨sent, ?_⟩, ⟨moved.quiet usb, moved.toDev⟩, moved.host, moved.tpdu⟩
  rw [moved.line, ← usb]

theorem pending {p p' : Proxy} (h : Alike p p') :
    p'.ci.emu.line.pending = p.ci.emu.line.pending := by
  obtain ⟨sent, line⟩ := h.line
  rw [line]
  rfl

theorem owed {p p' : Proxy} (h : Alike p p') : p'.owed = p.owed := by
  rw [Proxy.owed, Proxy.owed, h.pending, h.fifos.2]

end Alike

theorem Line.rxByte_header {l : Line} {hdr : TpduHdr} {given rest : List UInt8} {byte : UInt8}
    {t : Tpdu} (begun : t.state = .waitCla) (split : hdr.bytes = given ++ byte :: rest)
    (here : l.tpdu = given.foldl Tpdu.put t) (rx : l.rx = none) (tag : Nat) :
    l.rxByte byte (some tag) =
      if rest = [] then
        { l with
          state := .inTpdu, tpdu := ⟨.waitPb, hdr⟩
          usb := l.usb ++ [⟨tag, l.inEp, .rxData cemuDataFTpduHdr hdr.bytes.length hdr.bytes⟩] }
      else { l with state := .inTpdu, tpdu := (given ++ [byte]).foldl Tpdu.put t } := by
  obtain ⟨cla, ins, p1, p2, p3⟩ := hdr
  obtain ⟨ts, hdr⟩ := t
  cases begun
  match given, split, here with
  | [], split, here | [_], split, here | [_, _], split, here | [_, _, _], split, here =>
    simp only [TpduHdr.bytes, List.nil_append, List.cons_append, List.cons.injEq] at split
    simp [Line.rxByte, Line.rxTpdu, here, Tpdu.put, ← split.2]
  | [_, _, _, _], split, here =>
    simp only [TpduHdr.bytes, List.cons_append, List.nil_append, List.cons.injEq] at split
    obtain ⟨rfl, rfl, rfl, rfl, rfl, rfl⟩ := split
    simp [Line.rxByte, Line.rxTpdu, here, Tpdu.put, Line.flush, Line.sendHeader, Line.rxData, rx,
      TpduHdr.bytes]
  | _ :: _ :: _ :: _ :: _ :: more, split, here =>
    simp [TpduHdr.bytes] at split

theorem Tpdu.put_waits {hdr : TpduHdr} {given rest : List UInt8} {t : Tpdu} (begun : t.state = .waitCla)
    (split : hdr.bytes = given ++ rest) (some' : rest ≠ []) :
    (given.foldl Tpdu.put t).state.sending = false := by
  obtain ⟨ts, hdr'⟩ := t
  cases begun
  match given, split with
  | [], _ | [_], _ | [_, _], _ | [_, _, _], _ | [_, _, _, _], _ => rfl
  | _ :: _ :: _ :: _ :: _ :: more, split => simp_all [TpduHdr.bytes]

namespace Session
variable {s : Session} {env : HostEnv} {slotNr : UInt8} {input : ProxyInput}

variable (env slotNr) in
theorem act_hostReceives (linked : s.proxy.Linked) {m : UsbMsg}
    (fifos : s.proxy.toHost = [m] ∧ s.proxy.toDev = []) {flags : UInt32} {data : List UInt8}
    (payload : m.payload = .rxData flags data.length data) {host : Host} {requests : List TxRequest}
    (answers : s.proxy.host.processDoRxDa env flags data = (host, requests)) :
    (s.act env slotNr .hostReceives).proxy = { s.proxy with
        toHost := [], host, toDev := requests.map fun req => (m.tag, req) } ∧
      (s.act env slotNr .hostReceives).proxy.Linked ∧
      (s.act env slotNr .hostReceives).reader = s.reader := by
  obtain ⟨step, linked'⟩ := linked.hostReceives env slotNr fifos.1 payload answers
  have line : (s.proxy.step env slotNr .hostReceives).ci.emu.line = s.proxy.ci.emu.line := by
    rw [step]
  refine ⟨?_, linked', act_silent line rfl⟩
  rw [act, step, fifos.2]
  rfl

end Session

namespace Stage
variable {osimDetermineApduCase : TpduHdr → UInt8} {card : RealCard} {s s' : Session}
  {heard : List UInt8} {calls : List (List UInt8)} {n : Nat}

theorem of_alike (h : Stage osimDetermineApduCase card s heard calls n)
    (alike : Alike s.proxy s'.proxy) (reader : s'.reader = s.reader) :
    Stage osimDetermineApduCase card s' heard calls n := by
  have owed' := alike.owed
  obtain ⟨⟨sent, line'⟩, ⟨toHost', toDev'⟩, host', tpdu'⟩ := alike
  cases h with
  | idle line phase fifos host classified =>
    rw [← reader] at *
    refine .idle ?_ phase ⟨toHost'.trans fifos.1, toDev'.trans fifos.2⟩ (host' ▸ host) classified
    rw [line']
    exact line.sending sent
  | header todo split some' begun line phase fifos host classified =>
    refine .header (reader ▸ todo) split some' begun ?_ (reader ▸ phase)
      ⟨toHost'.trans fifos.1, toDev'.trans fifos.2⟩ (host' ▸ host) classified
    rw [line']
    exact line.sending sent
  | asked todo line phase fifos report host classified =>
    refine .asked (reader ▸ todo) ?_ (reader ▸ phase)
      ⟨toHost'.trans fifos.1, toDev'.trans fifos.2⟩ report (host' ▸ host) classified
    rw [line']
    exact line.sending sent
  | requested todo some' st tpdu rx phase toHost owed host fits classified =>
    rw [← toDev']
    refine .requested (reader ▸ todo) some' ?_ ?_ ?_ (reader ▸ phase) (toHost'.trans toHost)
      (owed'.trans owed) (host' ▸ host) fits classified
    · rw [line']; exact st
    · rw [line']; exact tpdu
    · rw [line']; exact rx
  | body todo split some' line phase fifos host fits classified =>
    refine .body (reader ▸ todo) split some' ?_ (reader ▸ phase)
      ⟨toHost'.trans fifos.1, toDev'.trans fifos.2⟩ (host' ▸ host) fits classified
    rw [line', tpdu']
    exact line.sending sent
  | reported todo some' line phase fifos report host fits classified =>
    refine .reported (reader ▸ todo) some' ?_ (reader ▸ phase)
      ⟨toHost'.trans fifos.1, toDev'.trans fifos.2⟩ report (host' ▸ host) fits classified
    rw [line']
    exact line.sending sent
  | answered todo st tpdu sends rx here toHost owes replying held host classified =>
    rw [← toDev']
    refine .answered (reader ▸ todo) ?_ ?_ sends ?_ (reader ▸ here) (toHost'.trans toHost)
      (owed'.trans owes) replying ?_ (host' ▸ host) classified
    · rw [line']; exact st
    · rw [line']; exact tpdu
    · rw [line']; exact rx
    · rw [line']; exact held

theorem nextHeader {prev : Previous} {c : Command} {cs : List Command} {given rest : List UInt8}
    {byte : UInt8} {t : Tpdu} {env : HostEnv} {slotNr : UInt8} (linked : s.proxy.Linked)
    (todo : s.reader.todo = c :: cs) (begun : t.state = .waitCla)
    (split : c.hdr.bytes = given ++ byte :: rest)
    (st : s.proxy.ci.emu.line.state = .inTpdu ∨
      s.proxy.ci.emu.line.state = .waitTpdu ∧ byte ≠ 0xff)
    (tpdu : s.proxy.ci.emu.line.tpdu = given.foldl Tpdu.put t)
    (buffers : s.proxy.ci.emu.line.rx = none ∧ s.proxy.ci.emu.line.tx = none ∧
      s.proxy.ci.emu.line.queue = [])
    (fifos : s.proxy.toHost = [] ∧ s.proxy.toDev = []) (host : s.proxy.host.Ready prev)
    (classified : Classified osimDetermineApduCase card prev (c :: cs)) :
    let r : Reader := { s.reader with
      phase := if rest = [] then .procedure c.body else .header rest }
    let s' := { s with reader := r }.act env slotNr (.rxByte byte true)
    (∃ m < 3000 * cs.length + 2000 + (rest.length + 1),
      Stage osimDetermineApduCase card s' ((c :: cs).flatMap (·.heard card))
        ((c :: cs).map Command.tpdu) m) ∧
      s'.proxy.Linked ∧ s'.reader = r ∧ s'.proxy.host = s.proxy.host := by
  intro r s'
  obtain ⟨tag, _, step⟩ := linked.rxByte env slotNr byte st
  have usb : s.proxy.ci.emu.line.usb = [] := linked.usb
  rw [Line.rxByte_header begun split tpdu buffers.1 tag] at step
  have reader : s'.reader = r := by
    refine Session.act_silent (s := { s with reader := r }) step.line ?_
    split <;> rfl
  have moved : Proxy.Moved { s.proxy with tpdu := tag } s'.proxy _ := step
  have toDev : s'.proxy.toDev = [] := moved.toDev.trans fifos.2
  have line := moved.line
  have toHost := moved.toHost
  refine ⟨?_, moved.linked, reader, moved.host⟩
  have todo' : s'.reader.todo = c :: cs := by
    rw [reader]
    exact todo
  by_cases last : rest = []
  · rw [if_pos last] at line toHost
    have one : s'.proxy.toHost =
        [⟨tag, s.proxy.ci.emu.line.inEp, .rxData cemuDataFTpduHdr c.hdr.bytes.length c.hdr.bytes⟩] := by
      rw [toHost, usb, fifos.1]
      rfl
    refine ⟨3000 * cs.length + 1900, by omega,
      .asked todo' ?_ ?_ ⟨one, toDev⟩ rfl (moved.host ▸ host) classified⟩
    · rw [line]
      exact ⟨rfl, rfl, rfl, buffers.1, buffers.2.1, buffers.2.2, rfl, rfl⟩
    · rw [reader]
      exact if_pos last
  · rw [if_neg last] at line toHost
    have none' : s'.proxy.toHost = [] := by
      rw [toHost, usb, fifos.1]
      rfl
    have split' : c.hdr.bytes = (given ++ [byte]) ++ rest := by simpa using split
    refine ⟨3000 * cs.length + 2000 + rest.length, by omega,
      .header todo' split' last begun ?_ ?_ ⟨none', toDev⟩ (moved.host ▸ host) classified⟩
    · rw [line]
      exact ⟨rfl, rfl, rfl, buffers.1, buffers.2.1, buffers.2.2, rfl, rfl⟩
    · rw [reader]
      exact if_neg last

theorem nextBody {c : Command} {cs : List Command} {apduCase : UInt8} {given rest : List UInt8}
    {byte : UInt8} {env : HostEnv} {slotNr : UInt8} (linked : s.proxy.Linked) (conforms : c.Conforms)
    (todo : s.reader.todo = c :: cs) (split : c.body = given ++ byte :: rest)
    (line : s.proxy.ci.emu.line.InTpdu .waitRx c.hdr s.proxy.ci.emu.line.inEp
      (Line.body s.proxy.tpdu given) s.proxy.ci.emu.line.sent [])
    (fifos : s.proxy.toHost = [] ∧ s.proxy.toDev = []) (host : s.proxy.host.Awaits c apduCase)
    (fits : c.Fits apduCase)
    (classified : Classified osimDetermineApduCase card ⟨c.hdr, (c.answer card).2, apduCase⟩ cs) :
    let r : Reader := { s.reader with phase := if rest = [] then .procedure [] else .body rest }
    let s' := { s with reader := r }.act env slotNr (.rxByte byte true)
    (∃ m < 3000 * cs.length + 1000 + (rest.length + 1),
      Stage osimDetermineApduCase card s' (c.reply card ++ cs.flatMap (·.heard card))
        ((c :: cs).map Command.tpdu) m) ∧
      s'.proxy.Linked ∧ s'.reader = r ∧ s'.proxy.host = s.proxy.host := by
  intro r s'
  have some' : c.body ≠ [] := by simp [split]
  have count : given.length + (rest.length + 1) = c.hdr.p3.toNat := by
    have all := conforms.body.resolve_left some'
    rw [split] at all
    simpa using all
  obtain ⟨tag, own, step⟩ := linked.rxByte env slotNr byte (.inl line.state)
  have here : tag = s.proxy.tpdu := own line.state
  subst here
  have reader : s'.reader = r :=
    Session.act_silent (s := { s with reader := r }) step.line (Line.rxByte_frame ..).2
  have moved : Proxy.Moved s.proxy s'.proxy _ := step
  have toDev : s'.proxy.toDev = [] := moved.toDev.trans fifos.2
  have todo' : s'.reader.todo = c :: cs := by
    rw [reader]
    exact todo
  by_cases last : rest = []
  · subst last
    have next := line.rxByte_last byte (by simpa using count)
    have one : s'.proxy.toHost = [⟨s.proxy.tpdu, s.proxy.ci.emu.line.inEp,
        .rxData cemuDataFFinal c.body.length c.body⟩] := by
      rw [moved.toHost, fifos.1, next.usb, conforms.body.resolve_left some', split]
      rfl
    refine ⟨⟨3000 * cs.length + 900, by omega, .reported todo' some' (next.taken moved.line) ?_
      ⟨one, toDev⟩ rfl (moved.host ▸ host) fits classified⟩, moved.linked, reader, moved.host⟩
    rw [reader]
    rfl
  · have more := List.length_pos_iff.mpr last
    have next := line.rxByte_more byte (by omega)
    have none' : s'.proxy.toHost = [] := (moved.quiet next.usb).trans fifos.1
    have split' : c.body = (given ++ [byte]) ++ rest := by simpa using split
    have inside := next.taken moved.line
    rw [← moved.tpdu] at inside
    refine ⟨⟨3000 * cs.length + 1000 + rest.length, by omega, .body todo' split' last inside ?_
      ⟨none', toDev⟩ (moved.host ▸ host) fits classified⟩, moved.linked, reader, moved.host⟩
    rw [reader]
    exact if_neg last

theorem reader (h : Stage osimDetermineApduCase card s heard calls n) (linked : s.proxy.Linked)
    (valid : ∀ c ∈ s.reader.todo, c.Conforms) {env : HostEnv} {slotNr byte : UInt8} {r : Reader}
    (sends : s.reader.sends = some (byte, r)) :
    let s' := { s with reader := r }.act env slotNr (.rxByte byte true)
    (∃ m < n, Stage osimDetermineApduCase card s' heard calls m) ∧
      s'.proxy.Linked ∧ s'.reader = r ∧ s'.proxy.host = s.proxy.host := by
  cases h with
  | idle line phase fifos host classified =>
    cases todo : s.reader.todo with
    | nil => simp [Reader.sends, todo] at sends
    | cons c cs =>
      have conforms := valid c (by rw [todo]; exact List.mem_cons_self)
      have here :
          s.reader.phase = .header (c.hdr.cla :: [c.hdr.ins, c.hdr.p1, c.hdr.p2, c.hdr.p3]) := by
        rw [phase, todo]
        rfl
      rw [Reader.sends_header todo here] at sends
      cases sends
      rw [todo] at classified
      have split : c.hdr.bytes = [] ++ c.hdr.cla :: [c.hdr.ins, c.hdr.p1, c.hdr.p2, c.hdr.p3] := rfl
      obtain ⟨⟨m, less, next⟩, same⟩ := nextHeader linked todo line.ts split
        (.inr ⟨line.state, conforms.cla⟩) rfl ⟨line.rx, line.tx, line.queue⟩ fifos host classified
      simp only [List.length_cons, List.length_nil] at less
      exact ⟨⟨m, by simp only [List.length_cons]; omega, next⟩, same⟩
  | @header _ c cs given rest _ todo split some' begun line phase fifos host classified =>
    obtain ⟨byte', rest, rfl⟩ := List.exists_cons_of_ne_nil some'
    rw [Reader.sends_header todo phase] at sends
    cases sends
    exact nextHeader linked todo begun split (.inl line.state) line.tpdu
      ⟨line.rx, line.tx, line.queue⟩ fifos host classified
  | @body c _ _ _ rest todo split some' line phase fifos host fits classified =>
    have conforms := valid c (by rw [todo]; exact List.mem_cons_self)
    obtain ⟨byte', rest, rfl⟩ := List.exists_cons_of_ne_nil some'
    rw [Reader.sends_body todo phase] at sends
    cases sends
    exact nextBody linked conforms todo split line fifos host fits classified
  | asked todo _ phase => simp [Reader.sends, todo, phase] at sends
  | requested todo _ _ _ _ phase => simp [Reader.sends, todo, phase] at sends
  | reported todo _ _ phase => simp [Reader.sends, todo, phase] at sends
  | answered todo _ _ _ _ here _ _ replying =>
    cases replying with
    | status waits =>
      obtain rfl | ⟨rfl, _⟩ := waits <;> simp [Reader.sends, todo, here] at sends
    | opens | data | last => simp [Reader.sends, todo, here] at sends

theorem silent_or_sending (h : Stage osimDetermineApduCase card s heard calls n) :
    s.proxy.ci.emu.line.pending = [] ∧
        (s.proxy.ci.emu.line.state = .inTpdu ∨ s.proxy.ci.emu.line.state = .waitTpdu) ∨
      s.proxy.ci.emu.line.state = .inTpdu ∧ s.proxy.ci.emu.line.tpdu.state.sending = true := by
  cases h with
  | idle line => exact .inl ⟨Line.pending_nil.mpr ⟨line.tx, line.queue⟩, .inr line.state⟩
  | header _ _ _ _ line => exact .inl ⟨Line.pending_nil.mpr ⟨line.tx, line.queue⟩, .inl line.state⟩
  | asked _ line => exact .inl ⟨Line.pending_nil.mpr ⟨line.tx, line.queue⟩, .inl line.state⟩
  | requested _ _ st tpdu => exact .inr ⟨st, by rw [tpdu]; rfl⟩
  | body _ _ _ line => exact .inl ⟨Line.pending_nil.mpr ⟨line.tx, line.queue⟩, .inl line.state⟩
  | reported _ _ line => exact .inl ⟨Line.pending_nil.mpr ⟨line.tx, line.queue⟩, .inl line.state⟩
  | answered _ st tpdu sends => exact .inr ⟨st, by rw [tpdu]; exact sends⟩

theorem irqTx_silent (h : Stage osimDetermineApduCase card s heard calls n) (linked : s.proxy.Linked)
    (env : HostEnv) (slotNr : UInt8) (nothing : s.proxy.ci.emu.line.pending = []) :
    (s.act env slotNr .irqTx).proxy.Linked ∧ Alike s.proxy (s.act env slotNr .irqTx).proxy ∧
      (s.act env slotNr .irqTx).reader = s.reader := by
  have moved : Proxy.Moved s.proxy (s.proxy.step env slotNr .irqTx) s.proxy.ci.emu.line := by
    obtain ⟨_, st | st⟩ | ⟨st, _⟩ := h.silent_or_sending
    · exact linked.irqTx_silent env slotNr st nothing
    · exact linked.irqTx_idle env slotNr st
    · exact linked.irqTx_silent env slotNr st nothing
  exact ⟨moved.linked, Alike.of_moved s.proxy.ci.emu.line.sent linked moved,
    Session.act_silent moved.line rfl⟩

/-- The byte is the request for the command data. -/
theorem requestTaken {c : Command} {cs : List Command} {apduCase : UInt8} {l : Line} {m : Pending}
    {rest : List Pending} {byte : UInt8} {bytes : List UInt8}
    (moved : Proxy.Moved s.proxy s'.proxy l)
    (sent : Line.ByteSent s.proxy.ci.emu.line l m byte bytes rest)
    (next : s.proxy.ci.emu.line.pending = m :: rest) (shape : m.bytes = byte :: bytes)
    (usb : l.usb = []) (reader : s'.reader = s.reader.hears byte) (conforms : c.Conforms)
    (todo : s.reader.todo = c :: cs) (data : c.body ≠ [])
    (tpdu : s.proxy.ci.emu.line.tpdu = ⟨.waitPb, c.hdr⟩) (rx : s.proxy.ci.emu.line.rx = none)
    (phase : s.reader.phase = .procedure c.body) (toHost : s.proxy.toHost = [])
    (owed : s.proxy.owed = [osmoSt2CardemRequestPbAndRx c.hdr.ins])
    (host : s.proxy.host.Awaits c apduCase) (fits : c.Fits apduCase)
    (classified : Classified osimDetermineApduCase card ⟨c.hdr, (c.answer card).2, apduCase⟩ cs) :
    byte = c.hdr.ins ∧ s'.reader = ⟨c :: cs, .body c.body, s.reader.decoded ++ [byte]⟩ ∧
      Stage osimDetermineApduCase card s' (c.reply card ++ cs.flatMap (·.heard card))
        ((c :: cs).map Command.tpdu) (3000 * cs.length + 1000 + c.body.length) := by
  rw [Proxy.owed_cons next, shape] at owed
  obtain ⟨req, behind⟩ := List.cons.inj owed
  obtain ⟨flags, one⟩ := TxRequest.mk.inj req
  obtain ⟨rfl, rfl⟩ := List.cons.inj one
  obtain ⟨alone, empty⟩ := List.append_eq_nil_iff.mp behind
  cases List.map_eq_nil_iff.mp alone
  have asks : hasFlag cemuDataFPbAndRx cemuDataFPbAndRx = true := by decide
  have states : (l.state, l.tpdu) = (.inTpdu, ⟨.waitRx, c.hdr⟩) := by
    rw [sent.states, flags, tpdu]
    simp [Line.statesAfter, asks]
  have inside : l.InTpdu .waitRx c.hdr l.inEp (Line.body s'.proxy.tpdu []) l.sent [] :=
    ⟨congrArg Prod.fst states, congrArg Prod.snd states, rfl, sent.rx.trans rx, sent.drained.1,
      sent.drained.2, rfl, usb⟩
  have hears : s'.reader = ⟨c :: cs, .body c.body, s.reader.decoded ++ [c.hdr.ins]⟩ := by
    rw [reader]
    simp [Reader.hears, todo, phase, conforms.ins, data]
  have fifos : s'.proxy.toHost = [] ∧ s'.proxy.toDev = [] :=
    ⟨(moved.quiet usb).trans toHost, moved.toDev.trans (List.map_eq_nil_iff.mp empty)⟩
  exact ⟨rfl, hears, .body (by rw [hears]) rfl data (inside.taken moved.line) (by rw [hears]) fifos
    (moved.host ▸ host) fits classified⟩

/-- The byte belongs to the reply. -/
theorem replyTaken {c : Command} {cs : List Command} {apduCase : UInt8} {ts : TpduState}
    {begun : Bool} {phase : ReaderPhase} {k : Nat} {l : Line} {m : Pending} {rest : List Pending}
    {byte : UInt8} {bytes : List UInt8} (moved : Proxy.Moved s.proxy s'.proxy l)
    (sent : Line.ByteSent s.proxy.ci.emu.line l m byte bytes rest)
    (next : s.proxy.ci.emu.line.pending = m :: rest) (shape : m.bytes = byte :: bytes)
    (usb : l.usb = []) (reader : s'.reader = s.reader.hears byte) (conforms : c.Conforms)
    (valid : c.SwValid card) (todo : s.reader.todo = c :: cs)
    (tpdu : s.proxy.ci.emu.line.tpdu = ⟨ts, c.hdr⟩) (turn : ts.sending = true)
    (rx : s.proxy.ci.emu.line.rx = none) (here : s.reader.phase = phase)
    (toHost : s.proxy.toHost = [])
    (replying : Replying c (c.answer card).1 (c.answer card).2 s.proxy.owed phase begun k)
    (host : s.proxy.host.Ready ⟨c.hdr, (c.answer card).2, apduCase⟩)
    (classified : Classified osimDetermineApduCase card ⟨c.hdr, (c.answer card).2, apduCase⟩ cs) :
    s'.reader.todo <:+ c :: cs ∧ s'.reader.decoded = s.reader.decoded ++ [byte] ∧
      s.proxy.owed.flatMap (·.payload) = byte :: s'.proxy.owed.flatMap (·.payload) ∧
      ∃ n < 3000 * cs.length + k + s.proxy.toDev.length, Stage osimDetermineApduCase card s'
        (s'.proxy.owed.flatMap (·.payload) ++ cs.flatMap (·.heard card)) (cs.map Command.tpdu) n := by
  have toHost' : s'.proxy.toHost = [] := (moved.quiet usb).trans toHost
  have owes := Proxy.owed_cons next
  have owes' := moved.owed sent
  have heard : s.proxy.owed.flatMap (·.payload) = byte :: s'.proxy.owed.flatMap (·.payload) := by
    rw [owes, owes', List.flatMap_cons, shape]
    split
    · rename_i done
      rw [done]
      rfl
    · rfl
  rw [owes] at replying
  have positive := replying.pos
  have length := (card.fits c.hdr c.body).resolve_left
  obtain ⟨still, ⟨behind, last, final, hears⟩ | ⟨phase', k', less, goesOn, hears, replying'⟩⟩ :=
    replying.byte shape conforms.ins valid.1 length todo here
  · subst last
    have hears' := reader.trans hears
    obtain ⟨alone, empty⟩ := List.append_eq_nil_iff.mp behind
    cases List.map_eq_nil_iff.mp alone
    have states : (l.state, l.tpdu) = (.waitTpdu, ⟨.waitCla, c.hdr⟩) := by
      rw [sent.states, tpdu]
      simp [Line.statesAfter, still, final]
    have idle : s'.proxy.ci.emu.line.Idle s'.proxy.ci.emu.line.inEp s'.proxy.ci.emu.line.sent [] := by
      rw [moved.line]
      exact ⟨congrArg Prod.fst states, congrArg Tpdu.state (congrArg Prod.snd states), rfl,
        sent.rx.trans rx, sent.drained.1, sent.drained.2, rfl, rfl⟩
    have done : s'.proxy.owed = [] := by rw [owes', if_pos rfl, behind]
    have next : Stage osimDetermineApduCase card s' _ _ _ :=
      .idle idle (by rw [hears']) ⟨toHost', moved.toDev.trans (List.map_eq_nil_iff.mp empty)⟩
        (moved.host ▸ host) (by rw [hears']; exact classified)
    rw [hears'] at next
    refine ⟨by rw [hears']; exact List.suffix_cons _ _, by rw [hears'], heard,
      3000 * cs.length, by omega, ?_⟩
    simpa [done] using next
  · have hears' := reader.trans hears
    have states : (l.state, l.tpdu) = (.inTpdu, ⟨Line.afterByte ts m.flags, c.hdr⟩) := by
      rw [sent.states, tpdu]
      obtain more | open' := goesOn
      · simp [Line.statesAfter, more]
      · simp [Line.statesAfter, still, open']
    rw [← owes'] at replying'
    refine ⟨by rw [hears'], by rw [hears'], heard, 3000 * cs.length + k' + s'.proxy.toDev.length,
      by rw [moved.toDev]; omega, .answered (by rw [hears']) ?_ ?_ (afterByte_sending turn still) ?_
        (by rw [hears']) toHost' rfl replying' ?_ (moved.host ▸ host) classified⟩
    · rw [moved.line]
      exact congrArg Prod.fst states
    · rw [moved.line]
      exact congrArg Prod.snd states
    · rw [moved.line]
      exact sent.rx.trans rx
    · intro partly
      have held := sent.held
      rw [partly] at held
      rw [moved.line]
      exact Option.isSome_iff_ne_none.mp held

theorem irqTx_byte (h : Stage osimDetermineApduCase card s heard calls n) (linked : s.proxy.Linked)
    (valid : ∀ c ∈ s.reader.todo, c.Conforms ∧ c.SwValid card) (env : HostEnv) (slotNr : UInt8)
    (some' : s.proxy.ci.emu.line.pending ≠ []) :
    let s' := s.act env slotNr .irqTx
    s'.proxy.Linked ∧ s'.proxy.host = s.proxy.host ∧ s'.reader.todo <:+ s.reader.todo ∧
      ∃ byte heard', heard = byte :: heard' ∧ s'.reader.decoded = s.reader.decoded ++ [byte] ∧
        ∃ m < n, Stage osimDetermineApduCase card s' heard' calls m := by
  intro s'
  obtain ⟨nothing, _⟩ | ⟨st, sends⟩ := h.silent_or_sending
  · exact absurd nothing some'
  obtain ⟨m, rest, next⟩ := List.exists_cons_of_ne_nil some'
  obtain ⟨byte, bytes, shape⟩ : ∃ byte bytes, m.bytes = byte :: bytes := by
    obtain ⟨msg, queue, _, info, small, _⟩ := Line.pending_txMsg linked.sound next
    subst info
    exact List.exists_cons_of_ne_nil (Msgb.pulled_ne_nil small)
  obtain ⟨l, step, sent⟩ := linked.irqTx_byte env slotNr st sends next shape
  have reader : s'.reader = s.reader.hears byte := Session.act_reader step.line sent.sent
  have moved : Proxy.Moved s.proxy s'.proxy l := step
  have usb : l.usb = [] := sent.usb.trans linked.usb
  refine ⟨moved.linked, moved.host, ?_⟩
  cases h with
  | idle line => exact absurd (Line.pending_nil.mpr ⟨line.tx, line.queue⟩) some'
  | header _ _ _ _ line => exact absurd (Line.pending_nil.mpr ⟨line.tx, line.queue⟩) some'
  | asked _ line => exact absurd (Line.pending_nil.mpr ⟨line.tx, line.queue⟩) some'
  | body _ _ _ line => exact absurd (Line.pending_nil.mpr ⟨line.tx, line.queue⟩) some'
  | reported _ _ line => exact absurd (Line.pending_nil.mpr ⟨line.tx, line.queue⟩) some'
  | @requested c cs _ todo data _ tpdu rx phase toHost owed host fits classified =>
    have conforms := (valid c (by rw [todo]; exact List.mem_cons_self)).1
    have few := conforms.few
    obtain ⟨rfl, hears, stage⟩ := requestTaken moved sent next shape usb reader conforms todo data tpdu
      rx phase toHost owed host fits classified
    exact ⟨by rw [hears, todo], c.hdr.ins, _, rfl, by rw [hears], _, by omega, stage⟩
  | @answered c cs _ _ _ _ _ _ todo _ tpdu turn rx here toHost owes replying _ host classified =>
    obtain ⟨conforms, sw⟩ := valid c (by rw [todo]; exact List.mem_cons_self)
    subst owes
    obtain ⟨suffix, decoded, heard, m, less, stage⟩ := replyTaken moved sent next shape usb reader
      conforms sw todo tpdu turn rx here toHost replying host classified
    refine ⟨by rw [todo]; exact suffix, byte, _, ?_, decoded, m, less, stage⟩
    rw [heard]
    rfl

theorem null (h : Stage osimDetermineApduCase card s heard calls n)
    (between : s.proxy.ci.emu.line.tx = none) (st : s.proxy.ci.emu.line.state = .inTpdu)
    (sends : s.proxy.ci.emu.line.tpdu.state.sending = true) :
    s.reader.hears iso78163PbNull = s.reader := by
  cases h with
  | idle line => exact absurd (line.state.symm.trans st) nofun
  | header _ split some' begun line =>
    rw [line.tpdu, Tpdu.put_waits begun split some'] at sends
    cases sends
  | body _ _ _ line =>
    rw [line.tpdu] at sends
    cases sends
  | asked todo _ phase => exact Reader.hears_null todo phase
  | requested todo _ _ _ _ phase => exact Reader.hears_null todo phase
  | reported todo _ _ phase => exact Reader.hears_null todo phase
  | @answered _ _ _ _ begun _ _ _ todo _ _ _ _ here _ _ replying held =>
    cases begun with
    | false => exact replying.null todo here
    | true => exact absurd between (held rfl)

theorem wtimeHalfExpired (h : Stage osimDetermineApduCase card s heard calls n)
    (linked : s.proxy.Linked) (between : s.proxy.ci.emu.line.tx = none) (env : HostEnv)
    (slotNr : UInt8) :
    (s.act env slotNr .wtimeHalfExpired).proxy.Linked ∧
      Alike s.proxy (s.act env slotNr .wtimeHalfExpired).proxy ∧
      (s.act env slotNr .wtimeHalfExpired).reader = s.reader := by
  have st : s.proxy.ci.emu.line.state = .inTpdu ∨ s.proxy.ci.emu.line.state = .waitTpdu := by
    obtain ⟨_, st⟩ | ⟨st, _⟩ := h.silent_or_sending
    · exact st
    · exact .inl st
  have moved := linked.wtimeHalfExpired env slotNr st
  by_cases turn : s.proxy.ci.emu.line.state = .inTpdu ∧
      s.proxy.ci.emu.line.tpdu.state.sending = true
  · rw [if_pos turn] at moved
    exact ⟨moved.linked, Alike.of_moved _ linked moved,
      (Session.act_reader moved.line rfl).trans (h.null between turn.1 turn.2)⟩
  · rw [if_neg turn] at moved
    exact ⟨moved.linked, Alike.of_moved s.proxy.ci.emu.line.sent linked moved,
      Session.act_silent moved.line rfl⟩

theorem told {c : Command} {cs : List Command} {apduCase : UInt8} {ts : TpduState} {m : UsbMsg}
    {flags : UInt32} {data : List UInt8} {host : Host} {env : HostEnv} {slotNr : UInt8}
    (linked : s.proxy.Linked) (todo : s.reader.todo = c :: cs) (valid : c.SwValid card)
    (line : s.proxy.ci.emu.line.InTpdu ts c.hdr s.proxy.ci.emu.line.inEp none
      s.proxy.ci.emu.line.sent []) (sends : ts.sending = true)
    (phase : s.reader.phase = .procedure []) (fifos : s.proxy.toHost = [m] ∧ s.proxy.toDev = [])
    (report : m.payload = .rxData flags data.length data)
    (answers : s.proxy.host.processDoRxDa env flags data = (host, c.replies card))
    (ready : host.Ready ⟨c.hdr, (c.answer card).2, apduCase⟩)
    (classified : Classified osimDetermineApduCase card ⟨c.hdr, (c.answer card).2, apduCase⟩ cs) :
    let s' := s.act env slotNr .hostReceives
    s'.proxy.Linked ∧ s'.reader = s.reader ∧ s'.proxy.host = host ∧
      ∃ n < 3000 * cs.length + 900, Stage osimDetermineApduCase card s'
        (c.reply card ++ cs.flatMap (·.heard card)) (cs.map Command.tpdu) n := by
  intro s'
  obtain ⟨proxy, linked', reader⟩ := Session.act_hostReceives env slotNr linked fifos report answers
  have toDev : s'.proxy.toDev.map Prod.snd = c.replies card := by
    rw [proxy, List.map_map]
    exact List.map_id _
  have line' : s'.proxy.ci.emu.line = s.proxy.ci.emu.line := by rw [proxy]
  obtain ⟨k, few, replying⟩ := Replying.start card c valid
  have owed : s'.proxy.owed = c.replies card := by
    rw [Proxy.owed, line', Line.pending_nil.mpr ⟨line.tx, line.queue⟩, toDev]
    rfl
  have length : s'.proxy.toDev.length ≤ 2 := by
    have replies := c.replies_length card
    rw [← toDev, List.length_map] at replies
    exact replies
  have next : Stage osimDetermineApduCase card s' _ _ _ :=
    .answered (reader ▸ todo) (by rw [line']; exact line.state) (by rw [line']; exact line.tpdu) sends
      (by rw [line']; exact line.rx) (reader ▸ phase) (by rw [proxy]) owed replying (by simp)
      (by rw [proxy]; exact ready) classified
  rw [c.replies_payload card] at next
  exact ⟨linked', reader, by rw [proxy], _, by omega, next⟩

theorem hostReceives (h : Stage osimDetermineApduCase card s heard calls n) (linked : s.proxy.Linked)
    (valid : ∀ c ∈ s.reader.todo, c.Conforms ∧ c.SwValid card) (slotNr : UInt8)
    (some' : s.proxy.toHost ≠ []) :
    let s' := s.act (.ofCard osimDetermineApduCase card) slotNr .hostReceives
    s'.proxy.Linked ∧ s'.reader = s.reader ∧
      ∃ calls', s'.proxy.host.invoked ++ calls' = s.proxy.host.invoked ++ calls ∧
        ∃ m < n, Stage osimDetermineApduCase card s' heard calls' m := by
  intro s'
  cases h with
  | idle _ _ fifos => exact absurd fifos.1 some'
  | header _ _ _ _ _ _ fifos => exact absurd fifos.1 some'
  | requested _ _ _ _ _ _ toHost => exact absurd toHost some'
  | body _ _ _ _ _ fifos => exact absurd fifos.1 some'
  | answered _ _ _ _ _ _ toHost => exact absurd toHost some'
  | @asked prev c cs m todo line phase fifos report host classified =>
    obtain ⟨conforms, sw⟩ := valid c (by rw [todo]; exact List.mem_cons_self)
    obtain ⟨fits, later⟩ := classified
    by_cases data : c.body = []
    · obtain ⟨host', answers, invoked, ready⟩ := Host.header_plain _ card host conforms data fits
      obtain ⟨linked', reader, here, m, less, next⟩ := told linked todo sw line rfl
        (by rw [phase, data]) fifos report answers ready later
      refine ⟨linked', reader, cs.map Command.tpdu, ?_, m, by omega, ?_⟩
      · rw [here]
        simp only [invoked, List.map_cons, List.append_assoc, List.singleton_append]
      · rwa [List.flatMap_cons, Command.heard, if_pos data, List.nil_append]
    · obtain ⟨host', answers, invoked, awaits⟩ := Host.header_dc _ card host conforms data fits
      obtain ⟨proxy, linked', reader⟩ :=
        Session.act_hostReceives _ slotNr linked fifos report answers
      have owed : s'.proxy.owed = [osmoSt2CardemRequestPbAndRx c.hdr.ins] := by
        rw [Proxy.owed, proxy, Line.pending_nil.mpr ⟨line.tx, line.queue⟩]
        rfl
      have next : Stage osimDetermineApduCase card s' _ _ _ :=
        .requested (by rw [reader, todo]) data (by rw [proxy]; exact line.state)
          (by rw [proxy]; exact line.tpdu) (by rw [proxy]; exact line.rx) (by rw [reader, phase])
          (by rw [proxy]) owed (by rw [proxy]; exact awaits) fits later
      have one : s'.proxy.toDev.length = 1 := by rw [proxy]; rfl
      refine ⟨linked', reader, (c :: cs).map Command.tpdu, ?_,
        3000 * cs.length + 1700 + s'.proxy.toDev.length, by omega, ?_⟩
      · rw [proxy, ← invoked]
      · rw [List.flatMap_cons, Command.heard, if_neg data]
        exact next
  | @reported c cs apduCase m todo data line phase fifos report host fits classified =>
    obtain ⟨conforms, sw⟩ := valid c (by rw [todo]; exact List.mem_cons_self)
    obtain ⟨host', answers, invoked, ready⟩ :=
      Host.body_dc osimDetermineApduCase card host conforms data fits
    obtain ⟨linked', reader, here, next⟩ := told linked todo sw line rfl phase fifos report answers
      ready classified
    refine ⟨linked', reader, cs.map Command.tpdu, ?_, next⟩
    rw [here]
    simp only [invoked, List.map_cons, List.append_assoc, List.singleton_append]

theorem deviceReceives (h : Stage osimDetermineApduCase card s heard calls n) (linked : s.proxy.Linked)
    (env : HostEnv) (slotNr : UInt8) (behind : Nat → UInt8) (some' : s.proxy.toDev ≠ []) :
    let s' := s.act env slotNr (.deviceReceives behind)
    s'.proxy.Linked ∧ s'.reader = s.reader ∧ s'.proxy.host = s.proxy.host ∧
      ∃ m < n, Stage osimDetermineApduCase card s' heard calls m := by
  intro s'
  obtain ⟨⟨tag, req⟩, rest, queued⟩ := List.exists_cons_of_ne_nil some'
  have ready : s.proxy.ci.emu.line.state.ready = true := by
    obtain ⟨_, st | st⟩ | ⟨st, _⟩ := h.silent_or_sending <;> rw [st] <;> rfl
  obtain ⟨step, owed'⟩ := linked.deviceReceives env slotNr queued ready behind
  have reader : s'.reader = s.reader := Session.act_silent step.line rfl
  have moved : Proxy.Moved { s.proxy with toDev := rest } s'.proxy _ := step
  have line := moved.line
  have owed'' : s'.proxy.owed = s.proxy.owed := owed'
  have fewer : s'.proxy.toDev.length < s.proxy.toDev.length := by
    rw [moved.toDev, queued]
    exact Nat.lt_succ_self _
  have toHost' : s'.proxy.toHost = s.proxy.toHost := moved.quiet linked.usb
  have host' : s'.proxy.host = s.proxy.host := moved.host
  refine ⟨moved.linked, reader, host', ?_⟩
  cases h with
  | idle _ _ fifos => exact absurd fifos.2 some'
  | header _ _ _ _ _ _ fifos => exact absurd fifos.2 some'
  | asked _ _ _ fifos => exact absurd fifos.2 some'
  | body _ _ _ _ _ fifos => exact absurd fifos.2 some'
  | reported _ _ _ _ fifos => exact absurd fifos.2 some'
  | @requested _ cs _ todo data st tpdu rx phase toHost owed host fits classified =>
    exact ⟨3000 * cs.length + 1700 + s'.proxy.toDev.length, by omega,
      .requested (reader ▸ todo) data (by rw [line]; exact st) (by rw [line]; exact tpdu)
        (by rw [line]; exact rx) (reader ▸ phase) (toHost'.trans toHost) (owed''.trans owed)
        (host' ▸ host) fits classified⟩
  | @answered _ cs _ _ _ _ _ k todo st tpdu sends rx here toHost owes replying held host classified =>
    exact ⟨3000 * cs.length + k + s'.proxy.toDev.length, by omega,
      .answered (reader ▸ todo) (by rw [line]; exact st) (by rw [line]; exact tpdu) sends
        (by rw [line]; exact rx) (reader ▸ here) (toHost'.trans toHost) (owed''.trans owes) replying
        (by rw [line]; exact held) (host' ▸ host) classified⟩

end Stage
end Simtrace2
