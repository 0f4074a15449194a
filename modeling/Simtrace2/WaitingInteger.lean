import Simtrace2.CardEmu.AtrSend
import Simtrace2.CardEmu.Pts
import Simtrace2.Sniffer.History
import Simtrace2.Sniffer.Pps

/-! WI of an ATR, as the emulated card finds it behind its transmission and as the sniffer
finds it on the way. -/
namespace Simtrace2
open Lib Sniffer

/-! The card. -/

namespace Emu
variable {e : Emu}

/-- The card takes an ATR of the host, comes out of a reset, and transmits the ATR to its
end, with an interrupt for each byte and one more. -/
def answersReset (e : Emu) (atr : List UInt8) : Emu :=
  run atrStep ((e.cardEmuSetAtr atr).cardSetState .waitAtr)
    (.wtimeExpired :: List.replicate (atr.length + 1) .txByte)

/-- The rest of an ATR; the induction is on the bytes to come. -/
theorem tx_atr_run {n : Nat} (st : e.ch.state = .inAtr) (count : e.ch.atr.idx + n = e.ch.atr.len) :
    let e' := run atrStep e (List.replicate (n + 1) .txByte)
    e'.ch.state = .waitTpdu ∧ e'.ch.wi = e.ch.atr.searchWi ∧ e'.ch.dIndex = e.ch.dIndex ∧
      e'.ch.waitingTime = e.ch.atr.searchWi.toNat * 960 * emuD e.ch.dIndex := by
  induction n generalizing e with
  | zero =>
    intro e'
    have done : ¬e.ch.atr.idx < e.ch.atr.len := by omega
    have last : e' = e.cardEmuTxByte.1 := rfl
    rw [last, (tx_atr_ended st done).1]
    exact ⟨rfl, rfl, rfl, rfl⟩
  | succ n ih =>
    have more : e.ch.atr.idx < e.ch.atr.len := by omega
    have next := tx_atr_more st more
    have rest := ih (e := e.cardEmuTxByte.1) (by rw [next]; exact st)
      (by rw [next]; simp only; omega)
    have same : e.cardEmuTxByte.1.ch.atr.searchWi = e.ch.atr.searchWi := by rw [next]; rfl
    have d : e.cardEmuTxByte.1.ch.dIndex = e.ch.dIndex := by rw [next]
    rw [same, d] at rest
    exact rest

theorem enter_waitAtr (other : e.ch.state ≠ .waitAtr) :
    (e.cardSetState .waitAtr).ch.dIndex = 1 := by
  rw [cardSetState, if_neg other]
  simp only [uartUpdateWt_ch, uartEnable_ch, emuUpdateFidi_ch]

theorem enter_inAtr (st : e.ch.state = .waitAtr) :
    e.cardEmuWtimeExpired.ch.state = .inAtr ∧
      e.cardEmuWtimeExpired.ch.atr = { e.ch.atr with idx := 0 } ∧
      e.cardEmuWtimeExpired.ch.dIndex = e.ch.dIndex := by
  have enters : e.cardEmuWtimeExpired = e.cardSetState .inAtr := by
    simp only [cardEmuWtimeExpired, st]
  rw [enters, cardSetState, if_neg (by rw [st]; exact CardState.noConfusion)]
  exact ⟨rfl, rfl, rfl⟩

theorem answersReset_eq {atr : List UInt8} (accepted : atr.length ≤ iso78163AtrLenMax)
    (other : e.ch.state ≠ .waitAtr) :
    (e.answersReset atr).ch.state = .waitTpdu ∧ (e.answersReset atr).ch.wi = Atr.wiOf atr ∧
      (e.answersReset atr).ch.waitingTime = (Atr.wiOf atr).toNat * 960 := by
  have set : (e.cardEmuSetAtr atr).ch =
      { e.ch with atr := ⟨0, atr.length, splice e.ch.atr.atr 0 atr⟩ } := by
    rw [cardEmuSetAtr, if_neg (Nat.not_lt.mpr accepted)]
  have waits : (e.cardEmuSetAtr atr).ch.state ≠ .waitAtr := by
    rw [set]
    exact other
  obtain ⟨st, held, d⟩ := enter_inAtr (e := (e.cardEmuSetAtr atr).cardSetState .waitAtr)
    (cardSetState_state _ _)
  rw [(cardSetState_atr CardState.noConfusion).1, set] at held
  rw [enter_waitAtr waits] at d
  have taken : (⟨0, atr.length, splice e.ch.atr.atr 0 atr⟩ : Atr).bytes = atr := by
    simp [Atr.bytes, splice]
  have wi : (⟨0, atr.length, splice e.ch.atr.atr 0 atr⟩ : Atr).searchWi = Atr.wiOf atr := by
    rw [← Atr.wiOf_bytes (by simp [splice]), taken]
  obtain ⟨state, found, _, waitingTime⟩ := tx_atr_run (n := atr.length) st (by rw [held]; simp)
  rw [held] at found waitingTime
  rw [d] at waitingTime
  rw [wi] at found waitingTime
  refine ⟨state, found, waitingTime.trans ?_⟩
  exact Nat.mul_one _

end Emu
/-! The sniffer. -/

/-- A waiting time with the D of a reset. -/
def SniffWt.Plain (wt : SniffWt) : Prop := wt.d = 1 ∧ wt.gWt = wt.wi.toNat * 960

theorem SniffWt.Plain.update {wt : SniffWt} (h : wt.Plain) (wi : UInt8) : (wt.update wi 0).Plain := by
  have d : (wt.update wi 0).d = 1 := h.1
  refine ⟨d, ?_⟩
  rw [SniffWt.update_gWt, d, Nat.mul_one]

namespace Listener
variable {l : Listener}

theorem advance_same (l : Listener) (a : AtrReading) :
    (l.advance a).convert = l.convert ∧ (l.advance a).wt = l.wt := by
  unfold advance finishAtr
  split
  · exact ⟨rfl, rfl⟩
  · split <;> exact ⟨rfl, rfl⟩

/-- In an ATR, after its first byte, the convention stays and D too. -/
theorem hear_midAtr (mid : (∃ ts, l.phase = .gotTs ts) ∨ ∃ a, l.phase = .inAtr a) (plain : l.wt.Plain)
    (byte : UInt8) : (l.hear byte).convert = l.convert ∧ (l.hear byte).wt.Plain := by
  obtain ⟨ts, phase⟩ | ⟨a, phase⟩ := mid
  · obtain ⟨convert, wt⟩ := advance_same l
      { got := [ts, byte], place := .waitT0, group := 1, support := 0
        behind := fromTa (byte &&& 0xf0) (byte &&& 0x0f).toNat }
    have same : (l.hearT0 ts byte).wt = l.wt := wt
    rw [hear, phase]
    exact ⟨convert, by rw [same]; exact plain⟩
  · have plainly (l' : Listener) (a : AtrReading) (convert : l'.convert = l.convert)
        (plain : l'.wt.Plain) : (l'.advance a).convert = l.convert ∧ (l'.advance a).wt.Plain := by
      obtain ⟨convert', wt⟩ := advance_same l' a
      exact ⟨convert'.trans convert, by rw [wt]; exact plain⟩
    rw [hear, phase]
    simp only [hearAtr]
    split
    · exact ⟨rfl, plain⟩
    · split
      · exact plainly _ _ rfl plain
      · split
        · exact plainly _ _ rfl (plain.update _)
        · exact plainly _ _ rfl plain
      · exact plainly _ _ rfl plain

end Listener

/-- The rest of an ATR, which the sniffer reads without converting it. -/
theorem read_rest {base s : Sniffer} {l : Listener} {rest : List UInt8} (quiet : s.Quiet)
    (follows : Follows s l) (convert : s.conventionConvert = false) (plain : s.wt.Plain)
    (mid : Meets feed (fun s _ => MidAtr base s) s rest) :
    rest.foldl hears s = run feed s rest ∧ (run feed s rest).wt.Plain := by
  induction rest generalizing s l with
  | nil => exact ⟨rfl, plain⟩
  | cons byte rest ih =>
    have phase : (∃ ts, l.phase = .gotTs ts) ∨ ∃ a, l.phase = .inAtr a := by
      have iso := follows.iso.symm.trans mid.1.1
      exact l.phase.of_iso.2.2 iso
    have same : s.hears byte = s.feed byte := by
      rw [hears, Sniffer.convert, if_neg (by simp [convert])]
    obtain ⟨heard, quiet'⟩ := Tuned.hears_eq quiet byte
    have next := follows_handleByte follows byte
    rw [← heard, same] at next
    rw [same] at quiet'
    have conv : l.convert = false := by
      rw [← follows.1]
      exact convert
    obtain ⟨stays, plain'⟩ := Listener.hear_midAtr phase (by rw [← follows.wt]; exact plain) byte
    have convert' : (s.feed byte).conventionConvert = false := by
      have common := congrArg Common.convert next.1
      exact common.trans (stays.trans conv)
    rw [List.foldl_cons, same]
    exact ih quiet' next convert' (by rw [next.wt]; exact plain') mid.2

/-- After a reset the sniffer waits for an ATR with the default waiting time, and with
whatever convention it has found last. -/
structure AfterReset (s : Sniffer) : Prop where
  follows : ∃ l, Follows s l ∧ l.phase = .waitAtr
  quiet : s.Quiet
  wt : s.wt = .default

theorem afterReset (alloc : Nat → Bool) (past : List SniffInput)
    (empty : (run Sniffer.step (.init alloc) past).sniffBuffer = []) {cycle : List SniffInput}
    (known : cycle ∈ resetCycles) :
    AfterReset (run Sniffer.step (run Sniffer.step (.init alloc) past) cycle) := by
  have fresh := follows_fresh alloc past empty known fun _ => true
  have whole := follows_run alloc (past ++ cycle)
  rw [run_append, run_append] at whole
  have iso : (run Sniffer.step (run Sniffer.step (.init alloc) past) cycle).isoState = .waitAtr :=
    fresh.iso
  have phase : (run Listener.step (run Listener.step (.init alloc) past) cycle).phase = .waitAtr := by
    rw [whole.iso] at iso
    exact (Phase.of_iso _).1 iso
  exact ⟨⟨_, whole, phase⟩, ⟨congrArg Common.ring fresh.1, congrArg Common.changeFlags fresh.1⟩,
    fresh.wt⟩

namespace AfterReset
variable {s : Sniffer}

theorem iso (h : AfterReset s) : s.isoState = .waitAtr := by
  obtain ⟨l, follows, phase⟩ := h.follows
  rw [follows.iso, phase, Phase.iso]

/-- TS clears the convention on its way in, so that what follows is read as it is. -/
theorem hears_ts (h : AfterReset s) (ts : UInt8) :
    s.hears ts = { s with conventionConvert := false }.feed ts := by
  have quiet : { s with conventionConvert := false }.Quiet := h.quiet
  rw [(Tuned.hears_eq h.quiet ts).1, Sniffer.feed_eq quiet, Sniffer.convert,
    if_neg Bool.false_ne_true, handleByte, handleByte]
  simp only [h.iso]
  rw [changeState_ne (by rw [h.iso]; exact SniffState.noConfusion),
    changeState_ne (by exact SniffState.noConfusion)]
  rfl

theorem reads (h : AfterReset s) {a : IsoAtr} (wf : a.WellFormed) (fits : a.bytes.length ≤ maxAtrSize) :
    (a.bytes.foldl hears s).isoState = .waitTpdu ∧ (a.bytes.foldl hears s).wt.wi = a.wi ∧
      (a.bytes.foldl hears s).wt.gWt = a.wi.toNat * 960 := by
  obtain ⟨l, follows, phase⟩ := h.follows
  obtain ⟨mid, done⟩ := parses_atr (s := { s with conventionConvert := false }) h.iso h.quiet rfl
    (by simp only [h.wt]; rfl) wf fits
  obtain ⟨heard, quiet⟩ := Tuned.hears_eq h.quiet a.ts
  have next := follows_handleByte follows a.ts
  rw [← heard] at next
  have plain : (s.hears a.ts).wt.Plain := by
    have same : (l.hear a.ts).wt = l.wt := by
      rw [Listener.hear, phase]
      simp only [Listener.hearTs]
      split_ifs <;> rfl
    rw [next.wt, same, ← follows.wt, h.wt]
    exact ⟨rfl, rfl⟩
  have convert : (s.hears a.ts).conventionConvert = false := by
    have common := congrArg Common.convert next.1
    have plain : ¬ (a.ts = 0x23 ∨ a.ts = 0x30) := by obtain ts | ts := wf.ts <;> rw [ts] <;> decide
    refine common.trans ?_
    rw [Listener.hear, phase]
    simp only [Listener.hearTs, if_neg plain, if_pos wf.ts]
  rw [← h.hears_ts] at mid done
  obtain ⟨read, plain'⟩ := read_rest quiet next convert plain mid
  have cons : a.bytes = a.ts :: a.bytes.drop 1 := rfl
  have whole : a.bytes.foldl hears s = (a.bytes.drop 1).foldl hears (s.hears a.ts) := by
    rw [← List.foldl_cons, ← cons]
  rw [whole, read]
  refine ⟨done.iso, done.wi, ?_⟩
  rw [plain'.2, done.wi]

end AfterReset

/-- The card and the sniffer find the same WI in every ATR, and have the same waiting time
after it; and the search of the card reads no byte that is not in the ATR. -/
theorem atr_wi_agrees (a : IsoAtr) (wf : a.WellFormed) (fits : a.bytes.length ≤ iso78163AtrLenMax)
    (e : Emu) (other : e.ch.state ≠ .waitAtr) (alloc : Nat → Bool) (past : List SniffInput)
    (empty : (run Sniffer.step (.init alloc) past).sniffBuffer = []) (cycle : List SniffInput)
    (known : cycle ∈ resetCycles) :
    (let e' := e.answersReset a.bytes
    let s' := a.bytes.foldl hears (run Sniffer.step (run Sniffer.step (.init alloc) past) cycle)
    e'.ch.state = .waitTpdu ∧ s'.isoState = .waitTpdu ∧ e'.ch.wi = s'.wt.wi ∧
      e'.ch.waitingTime = e'.ch.wi.toNat * 960 ∧ s'.wt.gWt = s'.wt.wi.toNat * 960) ∧
    ∀ b : Atr, Atr.searchWiBy b.readWithin b.len = some b.searchWi := by
  refine ⟨?_, Atr.searchWiBy_readWithin⟩
  obtain ⟨card, cardWi, cardWt⟩ := Emu.answersReset_eq fits other
  obtain ⟨sniffer, sniffWi, sniffWt⟩ := (afterReset alloc past empty known).reads wf fits
  rw [wf.wiOf] at cardWi cardWt
  intro e' s'
  refine ⟨card, sniffer, ?_, ?_, ?_⟩
  · rw [cardWi, sniffWi]
  · rw [cardWt, cardWi]
  · rw [sniffWt, sniffWi]

theorem blockAtr_wi_agrees :
    let e := cardEmuInit 0 1 2 true false true ⟨.off, false, 0, none, []⟩ [] []
    let s := run Sniffer.step (run Sniffer.step (.init fun _ => true) []) resetInTwoTurns
    (e.answersReset blockAtr.bytes).ch.wi = (blockAtr.bytes.foldl hears s).wt.wi :=
  (atr_wi_agrees blockAtr blockAtr_wellFormed (by decide)
    (cardEmuInit 0 1 2 true false true ⟨.off, false, 0, none, []⟩ [] []) (by decide) (fun _ => true) []
    rfl resetInTwoTurns (by simp [resetCycles])).1.2.2.1

end Simtrace2
