import Simtrace2.Proxy.Stages

/-! The proxy end to end: whatever the order in which reader, card, host and USB take
their turns, each command reaches the real card once and unchanged, and its reply the
reader. -/
namespace Simtrace2
open Lib

namespace Session

/-- What the session waits for: the reader has a byte to send, a message waits for its
next byte to be taken, or a FIFO is not empty. -/
def awaits (s : Session) : SessionInput.Kind → Prop
  | .reader => s.reader.sends ≠ none
  | .irqTx => s.proxy.ci.emu.line.pending ≠ []
  | .hostReceives => s.proxy.toHost ≠ []
  | .deviceReceives => s.proxy.toDev ≠ []

variable (osimDetermineApduCase : TpduHdr → UInt8) (card : RealCard) (cmds : List Command)

/-- The session of `cmds`, with at most `n` inputs needed for the rest of it. -/
structure Inv (n : Nat) (s : Session) : Prop where
  linked : s.proxy.Linked
  valid : ∀ c ∈ s.reader.todo, c.Conforms ∧ c.SwValid card
  stage : ∃ heard calls, Stage osimDetermineApduCase card s heard calls n ∧
    s.reader.decoded ++ heard = cmds.flatMap (·.heard card) ∧
    s.proxy.host.invoked ++ calls = cmds.map Command.tpdu

variable {osimDetermineApduCase card cmds} {s s' : Session} {n : Nat}

theorem Inv.of_alike (h : Inv osimDetermineApduCase card cmds n s) (linked : s'.proxy.Linked)
    (alike : Alike s.proxy s'.proxy) (reader : s'.reader = s.reader) :
    Inv osimDetermineApduCase card cmds n s' ∧ ∀ k, s.awaits k → s'.awaits k := by
  obtain ⟨heard, calls, stage, decoded, invoked⟩ := h.stage
  refine ⟨⟨linked, by rw [reader]; exact h.valid, heard, calls, stage.of_alike alike reader,
    by rw [reader, decoded], by rw [alike.host, invoked]⟩, ?_⟩
  intro k waits
  cases k with
  | reader => rwa [awaits, reader]
  | irqTx => rwa [awaits, alike.pending]
  | hostReceives => rwa [awaits, alike.fifos.1]
  | deviceReceives => rwa [awaits, alike.fifos.2]

theorem Inv.stays (h : Inv osimDetermineApduCase card cmds n s) {env : HostEnv} {slotNr : UInt8}
    {input : SessionInput} {kind : SessionInput.Kind} (here : input.kind = some kind)
    (same : s.step env slotNr input = s) (nothing : ¬ s.awaits kind) :
    Inv osimDetermineApduCase card cmds n (s.step env slotNr input) ∧
      ∀ k, s.awaits k → ¬ input.kind = some k ∧ (s.step env slotNr input).awaits k := by
  rw [same]
  refine ⟨h, fun k waits => ⟨?_, waits⟩⟩
  rw [here]
  rintro ⟨⟩
  exact nothing waits

theorem Inv.live (h : Inv osimDetermineApduCase card cmds n s) (more : n ≠ 0) :
    ∃ k, s.awaits k := by
  obtain ⟨heard, calls, stage, _⟩ := h.stage
  have owes (some' : s.proxy.owed ≠ []) : ∃ k, s.awaits k := by
    by_cases pending : s.proxy.ci.emu.line.pending = []
    · refine ⟨.deviceReceives, fun empty => some' ?_⟩
      rw [Proxy.owed, pending, empty]
      rfl
    · exact ⟨.irqTx, pending⟩
  have sends {byte : UInt8} {r : Reader} (next : s.reader.sends = some (byte, r)) :
      ∃ k, s.awaits k := ⟨.reader, by simp [awaits, next]⟩
  cases stage with
  | idle _ phase =>
    cases todo : s.reader.todo with
    | nil => simp [todo] at more
    | cons c cs =>
      rw [todo] at phase
      exact sends (Reader.sends_header todo phase)
  | header todo _ some' _ _ phase =>
    obtain ⟨byte, rest, rfl⟩ := List.exists_cons_of_ne_nil some'
    exact sends (Reader.sends_header todo phase)
  | asked _ _ _ fifos => exact ⟨.hostReceives, by rw [awaits, fifos.1]; exact List.cons_ne_nil _ _⟩
  | requested _ _ _ _ _ _ _ owed => exact owes (by rw [owed]; exact List.cons_ne_nil _ _)
  | body todo _ some' _ phase =>
    obtain ⟨byte, rest, rfl⟩ := List.exists_cons_of_ne_nil some'
    exact sends (Reader.sends_body todo phase)
  | reported _ _ _ _ fifos =>
    exact ⟨.hostReceives, by rw [awaits, fifos.1]; exact List.cons_ne_nil _ _⟩
  | answered _ _ _ _ _ _ _ owes' replying => exact owes (by rw [owes']; exact replying.ne_nil)

theorem progress (slotNr : UInt8) :
    Progress (step (.ofCard osimDetermineApduCase card) slotNr) HalfBetween
      (fun input k => input.kind = some k) (Inv osimDetermineApduCase card cmds) awaits where
  step := by
    intro n s input inv met
    obtain ⟨heard, calls, stage, decoded, invoked⟩ := inv.stage
    cases input with
    | reader =>
      cases sends : s.reader.sends with
      | none =>
        have same : s.step (.ofCard osimDetermineApduCase card) slotNr .reader = s := by
          simp only [Session.step, sends]
        exact .inr (inv.stays rfl same (not_not_intro sends))
      | some next =>
        obtain ⟨byte, r⟩ := next
        have step : s.step (.ofCard osimDetermineApduCase card) slotNr .reader =
            { s with reader := r }.act (.ofCard osimDetermineApduCase card) slotNr
              (.rxByte byte true) := by
          simp only [Session.step, sends]
        obtain ⟨todo, kept⟩ := Reader.sends_same sends
        obtain ⟨⟨m, less, next⟩, linked, reader, host⟩ :=
          stage.reader inv.linked (fun c hc => (inv.valid c hc).1) sends
        refine .inl ⟨m, less, ?_⟩
        rw [step]
        exact ⟨linked, by rw [reader, todo]; exact inv.valid, heard, calls, next,
          by rw [reader, kept, decoded], by rw [host, invoked]⟩
    | irqTx =>
      by_cases nothing : s.proxy.ci.emu.line.pending = []
      · obtain ⟨linked, alike, reader⟩ := stage.irqTx_silent inv.linked _ slotNr nothing
        obtain ⟨inv', still⟩ := inv.of_alike linked alike reader
        refine .inr ⟨inv', fun k waits => ⟨?_, still k waits⟩⟩
        rintro ⟨⟩
        exact waits nothing
      · obtain ⟨linked, host, suffix, byte, heard', rfl, decoded', m, less, next⟩ :=
          stage.irqTx_byte inv.linked inv.valid (.ofCard osimDetermineApduCase card) slotNr nothing
        refine .inl ⟨m, less, linked, fun c hc => inv.valid c (suffix.subset hc), heard', calls, next,
          ?_, ?_⟩
        · rw [← decoded, Session.step, decoded', List.append_assoc]
          rfl
        · rw [Session.step, host, invoked]
    | wtimeHalfExpired =>
      have between : s.proxy.ci.emu.line.tx = none := Option.isNone_iff_eq_none.mp met
      obtain ⟨linked, alike, reader⟩ :=
        stage.wtimeHalfExpired inv.linked between (.ofCard osimDetermineApduCase card) slotNr
      obtain ⟨inv', still⟩ := inv.of_alike linked alike reader
      exact .inr ⟨inv', fun k waits => ⟨by simp [SessionInput.kind], still k waits⟩⟩
    | hostReceives =>
      by_cases nothing : s.proxy.toHost = []
      · have same : s.step (.ofCard osimDetermineApduCase card) slotNr .hostReceives = s := by
          simp [Session.step, act, Proxy.step, nothing]
        exact .inr (inv.stays rfl same (not_not_intro nothing))
      · obtain ⟨linked, reader, calls', invoked', m, less, next⟩ :=
          stage.hostReceives inv.linked inv.valid slotNr nothing
        exact .inl ⟨m, less, linked, by rw [Session.step, reader]; exact inv.valid, heard, calls', next,
          by rw [Session.step, reader, decoded], by rw [Session.step, invoked', invoked]⟩
    | deviceReceives behind =>
      by_cases nothing : s.proxy.toDev = []
      · have same :
            s.step (.ofCard osimDetermineApduCase card) slotNr (.deviceReceives behind) = s := by
          simp [Session.step, act, Proxy.step, nothing]
        exact .inr (inv.stays rfl same (not_not_intro nothing))
      · obtain ⟨linked, reader, host, m, less, next⟩ := stage.deviceReceives inv.linked
          (.ofCard osimDetermineApduCase card) slotNr behind nothing
        exact .inl ⟨m, less, linked, by rw [Session.step, reader]; exact inv.valid, heard, calls, next,
          by rw [Session.step, reader, decoded], by rw [Session.step, host, invoked]⟩
  live := Inv.live

/-- The card waits for a command of the reader, and nothing is in flight. -/
structure Start (s : Session) (cmds : List Command) : Prop where
  linked : s.proxy.Linked
  line : s.proxy.ci.emu.line.Idle s.proxy.ci.emu.line.inEp s.proxy.ci.emu.line.sent []
  fifos : s.proxy.toHost = [] ∧ s.proxy.toDev = []
  host : s.proxy.host = Host.init
  reader : s.reader = ⟨cmds, Reader.begin cmds, []⟩

theorem Start.inv (start : s.Start cmds) (valid : ∀ c ∈ cmds, c.Conforms ∧ c.SwValid card)
    (classified : Classified osimDetermineApduCase card OsmoApduContext.zero.previous cmds) :
    Inv osimDetermineApduCase card cmds (3000 * cmds.length) s := by
  obtain ⟨linked, line, fifos, host, reader⟩ := start
  have todo : s.reader.todo = cmds := by rw [reader]
  have stage : Stage osimDetermineApduCase card s _ _ _ :=
    .idle line (by rw [reader]) fifos (by rw [host]; exact ⟨rfl, rfl⟩) (by rw [todo]; exact classified)
  rw [todo] at stage
  exact ⟨linked, by rw [todo]; exact valid, _, _, stage, by rw [reader]; rfl, by rw [host]; rfl⟩

theorem Inv.finished (h : Inv osimDetermineApduCase card cmds n s) (done : s.reader.todo = []) :
    s.reader.decoded = cmds.flatMap (·.heard card) ∧
      s.proxy.host.invoked = cmds.map Command.tpdu := by
  obtain ⟨heard, calls, stage, decoded, invoked⟩ := h.stage
  cases stage with
  | idle =>
    rw [done] at decoded invoked
    exact ⟨by simpa using decoded, by simpa using invoked⟩
  | header todo => exact absurd (todo.symm.trans done) (List.cons_ne_nil _ _)
  | asked todo => exact absurd (todo.symm.trans done) (List.cons_ne_nil _ _)
  | requested todo => exact absurd (todo.symm.trans done) (List.cons_ne_nil _ _)
  | body todo => exact absurd (todo.symm.trans done) (List.cons_ne_nil _ _)
  | reported todo => exact absurd (todo.symm.trans done) (List.cons_ne_nil _ _)
  | answered todo => exact absurd (todo.symm.trans done) (List.cons_ne_nil _ _)

theorem Inv.done (h : Inv osimDetermineApduCase card cmds 0 s) : s.reader.todo = [] := by
  by_contra more
  obtain ⟨heard, calls, stage, _⟩ := h.stage
  generalize left : 0 = n at stage
  cases stage with
  | idle => exact more (List.length_eq_zero_iff.mp (by omega))
  | answered _ _ _ _ _ _ _ _ replying =>
    have positive := replying.pos
    omega
  | header | asked | requested | body | reported => omega

end Session

/-- Whatever the order of the inputs: the real card is given the commands of the reader,
each once and unchanged, the reader decodes what is to be heard of them, and both are
complete when the reader is through, which it is after enough rounds. -/
theorem proxy_end_to_end (osimDetermineApduCase : TpduHdr → UInt8) (card : RealCard) (slotNr : UInt8)
    {cmds : List Command} (valid : ∀ c ∈ cmds, c.Conforms ∧ c.SwValid card)
    (classified : Classified osimDetermineApduCase card OsmoApduContext.zero.previous cmds)
    {s : Session} (start : s.Start cmds) {inputs : List SessionInput}
    (meets : Meets (Session.step (.ofCard osimDetermineApduCase card) slotNr) Session.HalfBetween s
      inputs) :
    let s' := run (Session.step (.ofCard osimDetermineApduCase card) slotNr) s inputs
    s'.proxy.host.invoked <+: cmds.map Command.tpdu ∧
      s'.reader.decoded <+: cmds.flatMap (·.heard card) ∧
      (s'.reader.todo = [] → s'.proxy.host.invoked = cmds.map Command.tpdu ∧
        s'.reader.decoded = cmds.flatMap (·.heard card)) ∧
      (Rounds (fun (input : SessionInput) k => input.kind = some k) (3000 * cmds.length) inputs →
        s'.reader.todo = []) := by
  intro s'
  have inv := start.inv valid classified
  obtain ⟨m, _, inv'⟩ := (Session.progress slotNr).keeps inv meets
  obtain ⟨heard, calls, _, decoded, invoked⟩ := inv'.stage
  refine ⟨⟨calls, invoked⟩, ⟨heard, decoded⟩, fun done => (inv'.finished done).symm, ?_⟩
  intro rounds
  obtain ⟨m, less, last⟩ := (Session.progress slotNr).rounds rounds inv meets
  rw [Nat.sub_self, Nat.le_zero] at less
  subst less
  exact last.done

/-! Sessions of an idle card. -/

def idleSession (cmds : List Command) : Session where
  proxy :=
    { ci := ⟨waitingCard, .untouched .absent, false, none⟩, toHost := [], host := .init, toDev := []
      tpdu := 0, resetAt := 0, aired := [] }
  reader := ⟨cmds, Reader.begin cmds, []⟩

theorem idleSession_start (cmds : List Command) : (idleSession cmds).Start cmds where
  linked :=
    { act := ⟨fun _ => ⟨rfl, rfl⟩, nofun, fun _ => rfl, nofun⟩
      directed := ⟨rfl, rfl⟩
      usb := rfl
      sound := nofun
      answers := nofun }
  line := ⟨rfl, rfl, rfl, rfl, rfl, rfl, rfl, rfl⟩
  fifos := ⟨rfl, rfl⟩
  host := rfl
  reader := rfl

def turns : List SessionInput := [.reader, .hostReceives, .deviceReceives fun _ => 0, .irqTx]

def waitingTurns : List SessionInput :=
  [.reader, .wtimeHalfExpired, .hostReceives, .deviceReceives fun _ => 0, .irqTx]

def fileCard : RealCard where
  answer hdr _ := if hdr.ins = 0xc0 then (List.replicate hdr.le 0x2a, 0x90, 0x00) else ([], 0x9f, 0x03)
  fits hdr data := by
    split
    · exact .inr (List.length_replicate ..)
    · exact .inl rfl

def fileCase (hdr : TpduHdr) : UInt8 := if hdr.ins = 0xa4 then 3 else 2

def selectThenGet : List Command :=
  [⟨⟨0xa0, 0xa4, 0x00, 0x00, 0x02⟩, [0x3f, 0x00]⟩, ⟨⟨0xa0, 0xc0, 0x00, 0x00, 0x03⟩, []⟩]

theorem selectThenGet_valid : ∀ c ∈ selectThenGet, c.Conforms ∧ c.SwValid fileCard := by
  intro c hc
  simp only [selectThenGet, List.mem_cons, List.not_mem_nil, or_false] at hc
  obtain rfl | rfl := hc
  · exact ⟨⟨by decide, by decide, .inr rfl⟩, by decide, fun _ => by decide⟩
  · exact ⟨⟨by decide, by decide, .inl rfl⟩, by decide, fun _ => by decide⟩

def selectThenGetInputs : List SessionInput :=
  (List.replicate 7 waitingTurns).flatten ++ (List.replicate 20 turns).flatten

theorem selectThenGet_end_to_end :
    let s := run (Session.step (.ofCard fileCase fileCard) 0) (idleSession selectThenGet)
      selectThenGetInputs
    s.proxy.host.invoked = selectThenGet.map Command.tpdu ∧
      s.reader.decoded = selectThenGet.flatMap (·.heard fileCard) :=
  (proxy_end_to_end fileCase fileCard 0 selectThenGet_valid ⟨by decide, by decide, trivial⟩
    (idleSession_start selectThenGet) (by decide +kernel : Meets _ _ _ selectThenGetInputs)).2.2.1
    (by decide +kernel)

/-- A command is answered with 6C02, and another one with data begins like it. -/
def resent : List Command :=
  [⟨⟨0x80, 0xca, 0x00, 0x00, 0x00⟩, []⟩, ⟨⟨0x80, 0xca, 0x00, 0x00, 0x02⟩, [0x01, 0x02]⟩]

def resentCard : RealCard where
  answer hdr _ := if hdr.p3 = 0 then ([], 0x6c, 0x02) else ([], 0x90, 0x00)
  fits hdr data := by split <;> exact .inl rfl

def resentCase (hdr : TpduHdr) : UInt8 := if hdr.p3 = 0 then 2 else 3

def nullCard : RealCard where
  answer _ _ := ([], 0x60, 0x00)
  fits _ _ := .inl rfl

/-- The host takes the second command for the first one and gives the real card no data,
though commands, card and classification are as they should be; and a reader takes an
SW1 of 60 for a NULL byte. -/
theorem resent_loses_data :
    ((∀ c ∈ resent, c.Conforms ∧ c.SwValid resentCard ∧ c.Fits (resentCase c.hdr)) ∧
      Meets (Session.step (.ofCard resentCase resentCard) 0) Session.HalfBetween
        (idleSession resent) (List.replicate 20 turns).flatten ∧
      ¬ (run (Session.step (.ofCard resentCase resentCard) 0) (idleSession resent)
          (List.replicate 20 turns).flatten).proxy.host.invoked <+: resent.map Command.tpdu) ∧
    ¬ (run (Session.step (.ofCard fileCase nullCard) 0) (idleSession selectThenGet)
        (List.replicate 20 turns).flatten).reader.decoded <+:
      selectThenGet.flatMap (·.heard nullCard) := by
  refine ⟨⟨?_, by decide +kernel, by decide +kernel⟩, by decide +kernel⟩
  intro c hc
  simp only [resent, List.mem_cons, List.not_mem_nil, or_false] at hc
  obtain rfl | rfl := hc
  · exact ⟨⟨by decide, by decide, .inl rfl⟩, ⟨by decide, fun _ => by decide⟩, by decide⟩
  · exact ⟨⟨by decide, by decide, .inr rfl⟩, ⟨by decide, fun _ => by decide⟩, by decide⟩

end Simtrace2
