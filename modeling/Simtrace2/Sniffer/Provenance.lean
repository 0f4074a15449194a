import Simtrace2.Sniffer.Message
import Simtrace2.Sniffer.Stores

/-! Where the data of the sniffer's messages comes from. -/
namespace Simtrace2
open Lib Sniffer

namespace Phase

/-- The bytes of the message that is being received. -/
def held (phase : Phase) : List UInt8 := ((Listener.partialMsg phase).map Prod.snd).getD []

/-- There is room for what is held; a PPS is not complete. -/
def Fits : Phase → Prop
  | inAtr a => a.got.length ≤ maxAtrSize
  | inTpdu _ got => got.length ≤ maxTpduSize
  | inPps _ got => ¬ (2 ≤ got.length ∧ ppsLength (got.getD 1 0) ≤ got.length)
  | reset | waitAtr | gotTs _ | waitTpdu | waitPpsRsp => True

end Phase

namespace Listener

/-- What the messages sent on the way carry, and what is held in the end, has been held
before or consumed on the way, in this order. -/
structure Accounts (l l' : Listener) (consumed : List UInt8) : Prop where
  fits : l'.phase.Fits
  sent : ∃ msgs, l'.sent = l.sent ++ msgs ∧ (∀ m ∈ msgs, m.Fits) ∧
    (msgs.flatMap SniffMsg.lineData ++ l'.phase.held).Sublist (l.phase.held ++ consumed)

variable {l l' : Listener} {taken : List UInt8}

theorem accounts_rest (fits : l.phase.Fits) : Accounts l l taken :=
  ⟨fits, [], by simp, by simp, by simp⟩

theorem accounts_goto {phase : Phase} (fits : phase.Fits)
    (source : phase.held.Sublist (l.phase.held ++ taken)) : Accounts l (l.goto phase) taken :=
  ⟨fits, [], by simp [goto], by simp, by simpa using source⟩

theorem accounts_submit {msg : SniffMsg} (msgFits : msg.Fits) (fits : l.phase.Fits)
    (source : (msg.lineData ++ l.phase.held).Sublist (l.phase.held ++ taken)) :
    Accounts l (l.submit msg) taken := by
  refine ⟨fits, if l.alloc l.asked then [msg] else [], rfl, ?_, ?_⟩
  · split
    · simpa using msgFits
    · simp
  · split
    · simpa using source
    · exact (List.sublist_append_right _ _).trans source

/-- A message goes out, and the phase is left for one that holds nothing of it. -/
theorem accounts_send {type : SniffType} {flags : UInt32} {got : List UInt8} {phase : Phase}
    (size : got.length ≤ type.limit) (fits : phase.Fits) (empty : phase.held = [])
    (source : got.Sublist (l.phase.held ++ taken)) :
    Accounts l ((l.submit (.data type flags got)).goto phase) taken := by
  have msgFits : (SniffMsg.data type flags got).Fits := size
  refine ⟨fits, if l.alloc l.asked then [.data type flags got] else [], rfl, ?_, ?_⟩
  · split
    · simpa using msgFits
    · simp
  · rw [goto_phase, empty]
    split
    · simpa [SniffMsg.lineData] using source
    · simp

theorem Accounts.trans {l'' : Listener} {more : List UInt8} (h : Accounts l l' taken)
    (h' : Accounts l' l'' more) : Accounts l l'' (taken ++ more) := by
  obtain ⟨-, msgs, sent, fits, source⟩ := h
  obtain ⟨last, msgs', sent', fits', source'⟩ := h'
  refine ⟨last, msgs ++ msgs', by rw [sent', sent, List.append_assoc], ?_, ?_⟩
  · intro m hm
    exact (List.mem_append.mp hm).elim (fits m) (fits' m)
  · have behind := source'.append_left (msgs.flatMap SniffMsg.lineData)
    have front := source.append_right more
    simp only [List.flatMap_append, List.append_assoc] at *
    exact behind.trans front

theorem accounts_advance {a : AtrReading} (size : a.got.length ≤ maxAtrSize)
    (source : a.got.Sublist (l.phase.held ++ taken)) : Accounts l (l.advance a) taken := by
  simp only [advance, finishAtr]
  split
  · exact accounts_goto size source
  · split
    · exact accounts_goto size source
    · exact accounts_send size trivial rfl source

theorem accounts_hearAtr {a : AtrReading} (phase : l.phase = .inAtr a)
    (room : a.got.length < maxAtrSize) (byte : UInt8) : Accounts l (l.hearAtr a byte) [byte] := by
  have source : (a.got ++ [byte]).Sublist (l.phase.held ++ [byte]) := by rw [phase]; rfl
  have size : (a.got ++ [byte]).length ≤ maxAtrSize := by
    rw [List.length_append]
    exact room
  simp only [hearAtr]
  split
  · exact accounts_advance size source
  · split
    · have set := accounts_advance (l := { l with wt := l.wt.update (if byte = 0 then 10 else byte) 0 })
        (a := { a with got := a.got ++ [byte] }) size source
      exact ⟨set.fits, set.sent⟩
    · exact accounts_advance size source
  · exact accounts_advance size source

theorem accounts_hearTpdu {st : TpduSniffState} {got : List UInt8} (phase : l.phase = .inTpdu st got)
    (room : got.length < maxTpduSize) (byte : UInt8) :
    Accounts l (l.hearTpdu got byte st) [byte] := by
  have holds : l.phase.held = got := by rw [phase]; rfl
  have longer : (got ++ [byte]).length ≤ maxTpduSize := by
    rw [List.length_append]
    exact room
  have take (st' : TpduSniffState) : Accounts l (l.goto (.inTpdu st' (got ++ [byte]))) [byte] :=
    accounts_goto longer (by rw [holds]; rfl)
  have keep (st' : TpduSniffState) : Accounts l (l.goto (.inTpdu st' got)) [byte] :=
    accounts_goto (Nat.le_of_lt room) (by rw [holds]; exact List.sublist_append_left _ _)
  have drop : Accounts l (l.malformed got) [byte] :=
    accounts_send (Nat.le_of_lt room) trivial rfl (by rw [holds]; exact List.sublist_append_left _ _)
  have rest : Accounts l l [byte] := accounts_rest (by rw [phase]; exact Nat.le_of_lt room)
  cases st with
  | cla | p1 | p2 | p3 | dataSingle => exact take _
  | ins =>
    simp only [hearTpdu]
    split
    · exact drop
    · exact take _
  | procedure =>
    simp only [hearTpdu, hearProcedure, hearSw1]
    split_ifs
    · exact rest
    · exact keep _
    · exact keep _
    · exact take _
    · exact drop
  | sw1 =>
    simp only [hearTpdu, hearSw1]
    split
    · exact take _
    · exact drop
  | sw2 => exact accounts_send longer trivial rfl (by rw [holds])
  | dataRemaining =>
    simp only [hearTpdu]
    split <;> exact take _

theorem accounts_hearPps {rsp : Bool} {got : List UInt8} (size : got.length ≤ maxPpsSize)
    (source : got.Sublist (l.phase.held ++ taken)) :
    Accounts l (l.hearPps rsp got) taken := by
  simp only [hearPps, finishPps]
  split_ifs with complete good resp
  · have sent : Accounts l ((l.submit (.data .pps 0 got)).goto .waitTpdu) taken :=
      accounts_send size trivial rfl source
    have told : Accounts { (l.submit (.data .pps 0 got)).goto .waitTpdu with
          wt := l.wt.update 0 (ppsD got) }
        ({ (l.submit (.data .pps 0 got)).goto .waitTpdu with
          wt := l.wt.update 0 (ppsD got) }.submit (.fidi (ppsFidi got))) [] :=
      accounts_submit trivial trivial (by simp [SniffMsg.lineData])
    have agreed : Accounts ((l.submit (.data .pps 0 got)).goto .waitTpdu)
        (((l.submit (.data .pps 0 got)).agree got).goto .waitTpdu) [] := ⟨told.fits, told.sent⟩
    have both := sent.trans agreed
    rw [List.append_nil] at both
    exact both
  · exact accounts_send size trivial rfl source
  · exact accounts_send size trivial rfl source
  · exact accounts_goto complete source

theorem ppsLength_le (pps0 : UInt8) : 3 ≤ ppsLength pps0 ∧ ppsLength pps0 ≤ maxPpsSize := by
  unfold ppsLength maxPpsSize
  split_ifs <;> omega

theorem accounts_hear (fits : l.phase.Fits) (byte : UInt8) : Accounts l (l.hear byte) [byte] := by
  have rest : Accounts l l [byte] := accounts_rest fits
  have alone : [byte].Sublist (l.phase.held ++ [byte]) := List.sublist_append_right _ _
  unfold hear
  split <;> rename_i phase
  · exact rest
  · unfold hearTs
    split_ifs
    · exact ⟨trivial, [], by simp, by simp, alone⟩
    · exact ⟨trivial, [], by simp, by simp, alone⟩
    · have sent : Accounts { l with convert := false } (({ l with convert := false }.submit
          (.data .atr sniffDataFlagErrorMalformed [byte])).goto .waitAtr) [byte] :=
        accounts_send (by simp [SniffType.limit, maxAtrSize]) trivial rfl alone
      exact ⟨sent.fits, sent.sent⟩
  · exact accounts_advance (by simp [maxAtrSize]) (by rw [phase]; rfl)
  · split
    · exact rest
    · rename_i room
      exact accounts_hearAtr phase (Nat.not_le.mp room) byte
  · split
    · exact accounts_goto (by simp [Phase.Fits]) alone
    · exact accounts_goto (by simp [Phase.Fits, maxTpduSize]) alone
  · split
    · exact rest
    · rename_i room
      exact accounts_hearTpdu phase (Nat.not_le.mp room) byte
  · rename_i rsp got
    rw [phase] at fits
    have bound := ppsLength_le (got.getD 1 0)
    have size : (got ++ [byte]).length ≤ maxPpsSize := by
      simp only [Phase.Fits, maxPpsSize] at *
      rw [List.length_append, List.length_singleton]
      omega
    exact accounts_hearPps size (by rw [phase]; rfl)
  · split
    · exact accounts_goto (by simp [Phase.Fits]) alone
    · exact rest

/-- What is held of a message fits into one. -/
theorem partialMsg_fits {phase : Phase} (fits : phase.Fits) {type : SniffType} {got : List UInt8}
    (partial_ : partialMsg phase = some (type, got)) :
    got.length ≤ type.limit ∧ phase.held = got := by
  have held : phase.held = got := by rw [Phase.held, partial_]; rfl
  refine ⟨?_, held⟩
  cases phase with
  | reset | waitAtr | waitTpdu | waitPpsRsp => contradiction
  | gotTs ts =>
    obtain ⟨rfl, rfl⟩ : .atr = type ∧ [ts] = got := by simpa [partialMsg] using partial_
    simp [SniffType.limit, maxAtrSize]
  | inAtr a =>
    obtain ⟨rfl, rfl⟩ : .atr = type ∧ a.got = got := by simpa [partialMsg] using partial_
    exact fits
  | inTpdu st got' =>
    obtain ⟨rfl, rfl⟩ : .tpdu = type ∧ got' = got := by simpa [partialMsg] using partial_
    exact fits
  | inPps rsp got' =>
    obtain ⟨rfl, rfl⟩ : .pps = type ∧ got' = got := by simpa [partialMsg] using partial_
    have bound := ppsLength_le (got'.getD 1 0)
    simp only [Phase.Fits, SniffType.limit, maxPpsSize] at *
    omega

theorem accounts_incomplete (fits : l.phase.Fits) (phase : Phase) (clean : phase.Fits)
    (empty : phase.held = []) : Accounts l (l.sendIncomplete.goto phase) [] := by
  unfold sendIncomplete
  split
  · rename_i type got some
    obtain ⟨size, held⟩ := partialMsg_fits fits some
    exact accounts_send size clean empty (by simp [held])
  · exact accounts_goto clean (by simp [empty])

theorem accounts_timeout (fits : l.phase.Fits) : Accounts l l.timeout [] := by
  have atr := accounts_incomplete fits .waitAtr trivial rfl
  have tpdu := accounts_incomplete fits .waitTpdu trivial rfl
  unfold timeout
  split
  · exact ⟨atr.fits, atr.sent⟩
  · exact ⟨atr.fits, atr.sent⟩
  · exact tpdu
  · exact tpdu
  · exact accounts_rest fits
  · exact accounts_rest fits
  · exact accounts_rest fits
  · exact accounts_rest fits

theorem accounts_assertReset (fits : l.phase.Fits) : Accounts l l.assertReset [] := by
  have reset := accounts_incomplete fits .reset trivial rfl
  unfold assertReset
  split
  · exact accounts_rest fits
  · exact ⟨reset.fits, reset.sent⟩

theorem accounts_deassertReset (fits : l.phase.Fits) : Accounts l l.deassertReset [] := by
  have waits : Accounts l (l.goto .waitAtr) [] :=
    accounts_goto trivial (by simp [Phase.held, partialMsg])
  unfold deassertReset
  split
  · exact accounts_rest fits
  · exact ⟨waits.fits, waits.sent⟩

theorem accounts_flags (fits : l.phase.Fits) : Accounts l l.flags [] := by
  have reset (flags : UInt32) : Accounts l (l.handleReset flags) [] := by
    have asserted := accounts_assertReset fits
    simp only [handleReset]
    split_ifs
    · exact asserted.trans (accounts_deassertReset asserted.fits)
    · exact accounts_deassertReset fits
    · exact asserted
    · exact accounts_rest fits
  unfold flags
  split
  · exact accounts_rest fits
  · have change : Accounts (l.handleReset l.changeFlags)
        ((l.handleReset l.changeFlags).submit (.change l.changeFlags)) [] :=
      accounts_submit trivial (reset l.changeFlags).fits (by simp [SniffMsg.lineData])
    have told := (reset l.changeFlags).trans change
    exact ⟨told.fits, told.sent⟩

def entryByte (l : Listener) (entry : UInt16) : List UInt8 :=
  if entry &&& rbuf16FDataByte ≠ 0 then [l.convertByte (entry &&& 0xff).toUInt8] else []

theorem accounts_entry (fits : l.phase.Fits) (word : UInt16) :
    Accounts l (l.entry word) (l.entryByte word) := by
  have heard : Accounts l
      (if word &&& rbuf16FDataByte ≠ 0 then l.hear (l.convertByte (word &&& 0xff).toUInt8) else l)
      (l.entryByte word) := by
    unfold entryByte
    split
    · exact accounts_hear fits _
    · exact accounts_rest fits
  simp only [entry]
  split
  · have both := heard.trans (accounts_timeout heard.fits)
    rwa [List.append_nil] at both
  · exact heard

/-- The data byte that a step consumes, converted. -/
def consumed (l : Listener) : SniffInput → List UInt8
  | .turn => (l.ring.head?.map l.entryByte).getD []
  | .entry _ | .change _ => []

theorem accounts_step (fits : l.phase.Fits) (input : SniffInput) :
    Accounts l (l.step input) (l.consumed input) := by
  have rest : Accounts l l [] := accounts_rest fits
  cases input with
  | entry entry =>
    simp only [step, consumed]
    split
    · exact ⟨rest.fits, rest.sent⟩
    · exact rest
  | change flags => exact ⟨rest.fits, rest.sent⟩
  | turn =>
    simp only [step, turn, consumed]
    cases l.ring with
    | nil => exact accounts_flags fits
    | cons word ring =>
      have took := accounts_entry (l := { l with ring }) fits word
      have both := took.trans (accounts_flags took.fits)
      rw [List.append_nil] at both
      exact ⟨both.fits, both.sent⟩

/-- All that has been sent and what is held come from what has been consumed. -/
structure Sourced (l : Listener) (stream : List UInt8) : Prop where
  fits : l.phase.Fits
  msgs : ∀ m ∈ l.sent, m.Fits
  source : (l.sent.flatMap SniffMsg.lineData ++ l.phase.held).Sublist stream

theorem Sourced.step {stream : List UInt8} (h : Sourced l stream) (input : SniffInput) :
    Sourced (l.step input) (stream ++ l.consumed input) := by
  obtain ⟨fits, msgs, sent, msgFits, source⟩ := accounts_step h.fits input
  refine ⟨fits, ?_, ?_⟩
  · intro m hm
    rw [sent] at hm
    exact (List.mem_append.mp hm).elim (h.msgs m) (msgFits m)
  · have behind := source.append_left (l.sent.flatMap SniffMsg.lineData)
    have front := h.source.append_right (l.consumed input)
    rw [sent, List.flatMap_append]
    simp only [List.append_assoc] at *
    exact behind.trans front

end Listener

namespace Sniffer

/-- The data byte that a step takes from the ring buffer, converted. -/
def consumed (s : Sniffer) : SniffInput → List UInt8
  | .turn => match s.sniffBuffer with
    | entry :: _ =>
      if entry &&& rbuf16FDataByte ≠ 0 then [s.convert (entry &&& 0xff).toUInt8] else []
    | [] => []
  | .entry _ | .change _ => []

end Sniffer

theorem Follows.consumed {s : Sniffer} {l : Listener} (h : Follows s l) (input : SniffInput) :
    s.consumed input = l.consumed input := by
  cases input with
  | entry _ | change _ => rfl
  | turn =>
    simp only [Sniffer.consumed, Listener.consumed, h.ring, h.convert]
    cases l.ring <;> rfl

/-- On any line and with any resets: the messages carry bytes of the line, in its order,
each from behind those of the message before; nothing has been stored past the end of a
buffer; every message fits into a USB buffer. -/
theorem sniffer_invents_nothing (alloc : Nat → Bool) (inputs : List SniffInput) :
    let s := run Sniffer.step (.init alloc) inputs
    let stream := trace Sniffer.step Sniffer.consumed (.init alloc) inputs
    (s.sent.flatMap SniffMsg.lineData).Sublist stream ∧
      (∃ parts : List (List UInt8), stream = parts.flatten ∧
        ∀ i (h : i < s.sent.length), (s.sent[i].lineData).Sublist ((parts[i]?).getD [])) ∧
      (∀ m ∈ s.sent, m.encode.length ≤ usbAllocSize) ∧ s.buffers.InBounds := by
  intro s stream
  have sourced : ∃ l, Follows s l ∧ l.Sourced ([] ++ stream) := by
    apply run_traced fun s stream => ∃ l, Follows s l ∧ l.Sourced stream
    · rintro s stream input ⟨l, follows, sourced⟩
      refine ⟨l.step input, follows.step input, ?_⟩
      rw [follows.consumed]
      exact sourced.step input
    · exact ⟨.init alloc, follows_init alloc, trivial, by simp [Listener.init], by
        simp [Listener.init, Phase.held, Listener.partialMsg]⟩
  obtain ⟨l, follows, sourced⟩ := sourced
  rw [List.nil_append] at sourced
  have source : (s.sent.flatMap SniffMsg.lineData).Sublist stream := by
    rw [follows.sent]
    exact (List.sublist_append_left _ _).trans sourced.source
  have kept : s.buffers.InBounds :=
    run_invariant (fun s : Sniffer => s.buffers.InBounds) (fun _ input h => inBounds_step h input)
      ⟨rfl, rfl, rfl, rfl⟩ inputs
  refine ⟨source, ?_, ?_, kept⟩
  · rw [List.flatMap_def] at source
    obtain ⟨parts, flat, each⟩ := List.flatten_sublist_iff.mp source
    refine ⟨parts, flat, fun i h => ?_⟩
    have part := each i (by simpa using h)
    simpa using part
  · intro m hm
    rw [follows.sent] at hm
    exact (sourced.msgs m hm).encode

end Simtrace2
