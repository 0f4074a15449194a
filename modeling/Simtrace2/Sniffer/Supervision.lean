import Simtrace2.Sniffer.Refinement

/-! The interrupt handler of the sniffer's USART, which supervises the waiting time: more than
16 bits of it are counted down in rounds of the receiver time-out. -/
namespace Simtrace2
open Lib

def rbuf16FOverrun : UInt16 := 0x0100
def rbuf16FFraming : UInt16 := 0x0200
def rbuf16FParity : UInt16 := 0x0400
def sniffChangeFlagTimeoutWt : UInt32 := 16

def usCsrRxrdy : UInt32 := 0x1
def usCsrOvre : UInt32 := 0x20
def usCsrFrame : UInt32 := 0x40
def usCsrPare : UInt32 := 0x80
def usCsrTimeout : UInt32 := 0x100
def usCrRststa : UInt32 := 0x100
def usCrSttto : UInt32 := 0x800
def usCrRetto : UInt32 := 0x8000

/-- The sniffer with the static variable of its interrupt handler, US_RTOR, and what has been
written to US_CR so far. -/
structure SniffUsart where
  sniffer : Sniffer
  wtRemaining : UInt32
  usRtor : UInt32
  usCr : List UInt32

namespace SniffUsart

/-- After `Sniffer_init` has programmed the first time-out. -/
def init (alloc : Nat → Bool) : SniffUsart :=
  { sniffer := .init alloc, wtRemaining := 9600
    usRtor := (Sniffer.init alloc).wt.gWt.toUInt32, usCr := [] }

def command (u : SniffUsart) (cr : UInt32) : SniffUsart := { u with usCr := u.usCr ++ [cr] }

def resetWt (u : SniffUsart) : SniffUsart :=
  { u with wtRemaining := u.sniffer.wt.gWt.toUInt32 }

/-- The error flags that go into the entry. -/
def errorFlags (csr : UInt32) : UInt16 :=
  (if csr &&& usCsrOvre ≠ 0 then rbuf16FOverrun else 0) |||
    (if csr &&& usCsrFrame ≠ 0 then rbuf16FFraming else 0) |||
      (if csr &&& usCsrPare ≠ 0 then rbuf16FParity else 0)

/-- A TIMEOUT ends the waiting time, or one round of it. -/
def isrRound (u : SniffUsart) : Bool × SniffUsart :=
  let rtor := u.usRtor &&& 0xffff
  if u.wtRemaining ≤ rtor then
    let changeFlags := u.sniffer.changeFlags ||| sniffChangeFlagTimeoutWt
    (true, { u with sniffer.changeFlags := changeFlags }.resetWt)
  else (false, { u with wtRemaining := u.wtRemaining - rtor })

/-- The next time-out, which is only started again where no timeout is pending. -/
def programRtor (u : SniffUsart) : SniffUsart :=
  let usRtor := if 0xffff < u.wtRemaining then 0xffff else u.wtRemaining
  let u := { u with usRtor }.command usCrSttto
  if hasFlag u.sniffer.changeFlags sniffChangeFlagTimeoutWt then u else u.command usCrRetto

/-- `Sniffer_usart_isr` up to the entry that it has put together. -/
def isrEntry (u : SniffUsart) (csr rhr : UInt32) : UInt16 × SniffUsart :=
  let (byte, u) :=
    if csr &&& usCsrRxrdy ≠ 0 then (rbuf16FDataByte ||| (rhr &&& 0xff).toUInt16, u.resetWt)
    else (0, u)
  let byte := byte ||| errorFlags csr
  let u := if csr &&& (usCsrOvre ||| usCsrFrame ||| usCsrPare) ≠ 0 then u.command usCrRststa else u
  if csr &&& usCsrTimeout ≠ 0 then
    let (expired, u) := u.isrRound
    (if expired then byte ||| rbuf16FTimeoutWt else byte, u.programRtor)
  else (byte, u)

def snifferUsartIsr (u : SniffUsart) (csr rhr : UInt32) : SniffUsart :=
  let (byte, u) := u.isrEntry csr rhr
  if byte ≠ 0 then { u with sniffer := u.sniffer.rbuf16Write byte } else u

end SniffUsart

/-- The two interrupt handlers, a change of the waiting time, and a turn of the main loop. -/
inductive UsartInput where
  | usartIsr (csr rhr : UInt32)
  | resetIsr (flags : UInt32)
  | updateWt (wi d : UInt8)
  | snifferRun

def SniffUsart.step (u : SniffUsart) : UsartInput → SniffUsart
  | .usartIsr csr rhr => u.snifferUsartIsr csr rhr
  | .resetIsr flags => { u with sniffer := u.sniffer.step (.change flags) }
  | .updateWt wi d => { u with sniffer := u.sniffer.updateWt wi d.toNat }
  | .snifferRun => { u with sniffer := u.sniffer.step .turn }

/-- The waiting time that was in force at the last character or timeout entry, and the etu
that the line has been idle since. -/
structure Supervised where
  usart : SniffUsart
  wt : Nat
  idle : Nat

namespace Supervised

def init (alloc : Nat → Bool) : Supervised := ⟨.init alloc, 9600, 0⟩

def received (csr : UInt32) : Prop := csr &&& usCsrRxrdy ≠ 0
def timedOut (csr : UInt32) : Prop := csr &&& usCsrTimeout ≠ 0

instance : DecidablePred received := fun _ => inferInstanceAs (Decidable (_ ≠ _))
instance : DecidablePred timedOut := fun _ => inferInstanceAs (Decidable (_ ≠ _))

/-- The interrupt does not report a character and a TIMEOUT at once. -/
def OneEvent (csr : UInt32) : Prop := ¬(received csr ∧ timedOut csr)

def Single : UsartInput → Prop
  | .usartIsr csr _ => OneEvent csr
  | .resetIsr _ | .updateWt _ _ | .snifferRun => True

def Expires (w : Supervised) (csr rhr : UInt32) : Prop :=
  (w.usart.isrEntry csr rhr).1 &&& rbuf16FTimeoutWt ≠ 0

instance (w : Supervised) (csr rhr : UInt32) : Decidable (w.Expires csr rhr) :=
  inferInstanceAs (Decidable (_ ≠ _))

def step (w : Supervised) (input : UsartInput) : Supervised :=
  let usart := w.usart.step input
  match input with
  | .usartIsr csr rhr =>
    if received csr ∨ w.Expires csr rhr then ⟨usart, w.usart.sniffer.wt.gWt, 0⟩
    else if timedOut csr then ⟨usart, w.wt, w.idle + w.usart.usRtor.toNat⟩
    else ⟨usart, w.wt, w.idle⟩
  | _ => ⟨usart, w.wt, w.idle⟩

/-- The timeout entry comes in the first round that the idle time reaches the waiting time in;
in another round what is left of it is more than the round. -/
structure Exact (w : Supervised) (csr rhr : UInt32) : Prop where
  entry : w.Expires csr rhr ↔ timedOut csr ∧ w.wt ≤ w.idle + w.usart.usRtor.toNat
  before : w.idle < w.wt
  rest : timedOut csr → ¬w.Expires csr rhr →
    w.usart.usRtor.toNat < w.usart.wtRemaining.toNat ∧
      (w.usart.snifferUsartIsr csr rhr).wtRemaining.toNat =
        w.usart.wtRemaining.toNat - w.usart.usRtor.toNat

def ExactAt (w : Supervised) : UsartInput → Prop
  | .usartIsr csr rhr => w.Exact csr rhr
  | .resetIsr _ | .updateWt _ _ | .snifferRun => True

end Supervised

/-! ### The waiting time in force -/

/-- `g_wt` is never 0, and fits its 32 bits. -/
structure SniffWt.Sound (wt : SniffWt) : Prop where
  wi : wt.wi ≠ 0
  d : 0 < wt.d ∧ wt.d ≤ 255
  gWt : wt.gWt = wt.wi.toNat * 960 * wt.d

namespace SniffWt.Sound

theorem default : Sound .default := by
  constructor <;> decide

theorem update {wt : SniffWt} (h : wt.Sound) (wi : UInt8) {d : Nat} (le : d ≤ 255) :
    (wt.update wi d).Sound := by
  constructor
  · simp only [SniffWt.update]
    split
    · assumption
    · exact h.wi
  · simp only [SniffWt.update]
    split
    · omega
    · exact h.d
  · exact SniffWt.update_gWt wt wi d

theorem pos {wt : SniffWt} (h : wt.Sound) : 0 < wt.gWt := by
  have wi : 0 < wt.wi.toNat := by
    apply Nat.pos_of_ne_zero
    intro zero
    exact h.wi (UInt8.toNat_inj.mp zero)
  rw [h.gWt]
  exact Nat.mul_pos (Nat.mul_pos wi (by decide)) h.d.1

theorem toNat {wt : SniffWt} (h : wt.Sound) : wt.gWt.toUInt32.toNat = wt.gWt := by
  have wi : wt.wi.toNat ≤ 255 := Nat.le_of_lt_succ wt.wi.toNat_lt
  have fits : wt.gWt ≤ 255 * 960 * 255 := by
    rw [h.gWt]
    exact Nat.mul_le_mul (Nat.mul_le_mul_right 960 wi) h.d.2
  show wt.gWt % 2 ^ 32 = wt.gWt
  apply Nat.mod_eq_of_lt
  omega

end SniffWt.Sound

namespace Listener

theorem advance_wt (l : Listener) (a : AtrReading) : (l.advance a).wt = l.wt := by
  unfold advance
  split
  · rfl
  · split <;> rfl

theorem hearTs_wt (l : Listener) (byte : UInt8) : (l.hearTs byte).wt = l.wt := by
  unfold hearTs
  split_ifs <;> rfl

theorem hearAtr_sound {l : Listener} (h : l.wt.Sound) (a : AtrReading) (byte : UInt8) :
    (l.hearAtr a byte).wt.Sound := by
  simp only [hearAtr]
  split
  · rwa [advance_wt]
  · split
    · rw [advance_wt]
      exact h.update _ (by decide)
    · rwa [advance_wt]
  · rwa [advance_wt]

theorem hearTpdu_wt (l : Listener) (got : List UInt8) (byte : UInt8) (st : TpduSniffState) :
    (l.hearTpdu got byte st).wt = l.wt := by
  cases st with
  | cla | p1 | p2 | p3 | sw2 | dataSingle => rfl
  | ins | sw1 | dataRemaining =>
    simp only [hearTpdu, hearSw1]
    split <;> rfl
  | procedure =>
    simp only [hearTpdu, hearProcedure, hearSw1]
    split_ifs <;> rfl

theorem ppsD_le (got : List UInt8) : ppsD got ≤ 255 := by
  have small (dn : Nat) : (iso78163DiTable[dn]?).getD 0 ≤ 255 := by
    cases found : iso78163DiTable[dn]? with
    | none => decide
    | some d =>
      have bounds : ∀ d ∈ iso78163DiTable, d ≤ 255 := by decide
      exact bounds d (List.mem_of_getElem? found)
  exact small _

theorem hearPps_sound {l : Listener} (h : l.wt.Sound) (rsp : Bool) (got : List UInt8) :
    (l.hearPps rsp got).wt.Sound := by
  simp only [hearPps, finishPps]
  split_ifs
  · exact h.update 0 (ppsD_le got)
  · exact h
  · exact h
  · exact h

theorem hear_sound {l : Listener} (h : l.wt.Sound) (byte : UInt8) : (l.hear byte).wt.Sound := by
  unfold hear
  split
  · exact h
  · rwa [hearTs_wt]
  · rw [hearT0, advance_wt]
    exact h
  · split
    · exact h
    · exact hearAtr_sound h _ _
  · split <;> exact h
  · split
    · exact h
    · rwa [hearTpdu_wt]
  · exact hearPps_sound h _ _
  · split <;> exact h

theorem sendIncomplete_wt (l : Listener) : l.sendIncomplete.wt = l.wt := by
  unfold sendIncomplete
  split <;> rfl

theorem timeout_wt (l : Listener) : l.timeout.wt = l.wt := by
  unfold timeout
  split
  · exact sendIncomplete_wt l
  · exact sendIncomplete_wt l
  · exact sendIncomplete_wt l
  · exact sendIncomplete_wt l
  · rfl
  · rfl
  · rfl
  · rfl

theorem entry_sound {l : Listener} (h : l.wt.Sound) (entry : UInt16) : (l.entry entry).wt.Sound := by
  simp only [Listener.entry]
  split_ifs
  · rw [timeout_wt]
    exact hear_sound h _
  · rwa [timeout_wt]
  · exact hear_sound h _
  · exact h

theorem handleReset_sound {l : Listener} (h : l.wt.Sound) (flags : UInt32) :
    (l.handleReset flags).wt.Sound := by
  have asserted : l.assertReset.wt.Sound := by
    unfold assertReset
    split
    · exact h
    · exact .default
  have released {l : Listener} (h : l.wt.Sound) : l.deassertReset.wt.Sound := by
    unfold deassertReset
    split <;> exact h
  simp only [handleReset]
  split_ifs
  · exact released asserted
  · exact released h
  · exact asserted
  · exact h

theorem flags_sound {l : Listener} (h : l.wt.Sound) : l.flags.wt.Sound := by
  unfold Listener.flags
  split
  · exact h
  · exact handleReset_sound h _

/-- Whatever the sniffer hears, its waiting time stays above 0 and in its bounds. -/
theorem step_sound {l : Listener} (h : l.wt.Sound) (input : SniffInput) : (l.step input).wt.Sound := by
  cases input with
  | entry entry =>
    rw [Listener.step]
    split <;> exact h
  | change flags => exact h
  | turn =>
    rw [Listener.step, turn]
    apply flags_sound
    split
    · exact h
    · rename_i entry ring _
      exact entry_sound (l := { l with ring }) h entry

end Listener

/-! ### One interrupt -/

namespace SniffUsart

theorem low_byte (r : UInt32) : (r &&& 0xff).toUInt16 = r.toUInt8.toUInt16 := by
  apply UInt16.toNat_inj.mp
  have low : (r &&& 0xff).toNat = r.toNat % 256 := by
    rw [UInt32.toNat_and]
    exact Nat.and_two_pow_sub_one_eq_mod r.toNat 8
  simp only [UInt32.toNat_toUInt16, UInt8.toNat_toUInt16, UInt32.toNat_toUInt8, low]
  omega

theorem errorFlags_timeout (csr : UInt32) : errorFlags csr &&& rbuf16FTimeoutWt = 0 := by
  unfold errorFlags
  split_ifs <;> rfl

theorem entry_or (a b flag : UInt16) : (a ||| b) &&& flag = (a &&& flag) ||| (b &&& flag) :=
  UInt16.toBitVec_inj.mp BitVec.and_or_distrib_right

/-- What the entry holds before the time-out is looked at. -/
theorem noTimeout (csr rhr : UInt32) :
    ((rbuf16FDataByte ||| (rhr &&& 0xff).toUInt16) ||| errorFlags csr) &&& rbuf16FTimeoutWt = 0 ∧
      (0 ||| errorFlags csr) &&& rbuf16FTimeoutWt = 0 := by
  have data : (rbuf16FDataByte ||| (rhr &&& 0xff).toUInt16) &&& rbuf16FTimeoutWt = 0 := by
    rw [low_byte]
    exact (dataByte_entry rhr.toUInt8).2.2
  constructor
  · rw [entry_or, data, errorFlags_timeout]
    rfl
  · rw [entry_or, errorFlags_timeout]
    rfl

theorem snifferUsartIsr_countdown (u : SniffUsart) (csr rhr : UInt32) :
    (u.snifferUsartIsr csr rhr).wtRemaining = (u.isrEntry csr rhr).2.wtRemaining ∧
      (u.snifferUsartIsr csr rhr).usRtor = (u.isrEntry csr rhr).2.usRtor := by
  simp only [snifferUsartIsr]
  split <;> exact ⟨rfl, rfl⟩

@[simp] theorem command_wtRemaining (u : SniffUsart) (cr : UInt32) :
    (u.command cr).wtRemaining = u.wtRemaining := rfl

@[simp] theorem command_usRtor (u : SniffUsart) (cr : UInt32) : (u.command cr).usRtor = u.usRtor := rfl

@[simp] theorem command_sniffer (u : SniffUsart) (cr : UInt32) :
    (u.command cr).sniffer = u.sniffer := rfl

theorem programRtor_countdown (u : SniffUsart) :
    u.programRtor.wtRemaining = u.wtRemaining ∧
      u.programRtor.usRtor = (if 0xffff < u.wtRemaining then 0xffff else u.wtRemaining) ∧
      u.programRtor.sniffer = u.sniffer := by
  simp only [programRtor]
  generalize (if 0xffff < u.wtRemaining then 0xffff else u.wtRemaining) = rtor
  split <;> exact ⟨rfl, rfl, rfl⟩

/-- An interrupt without a TIMEOUT makes no timeout entry, and restarts the countdown where it
brings a character. -/
theorem isr_quiet (u : SniffUsart) {csr : UInt32} (rhr : UInt32) (quiet : ¬Supervised.timedOut csr) :
    (u.isrEntry csr rhr).1 &&& rbuf16FTimeoutWt = 0 ∧
      (u.isrEntry csr rhr).2.wtRemaining =
        (if Supervised.received csr then u.sniffer.wt.gWt.toUInt32 else u.wtRemaining) ∧
      (u.isrEntry csr rhr).2.usRtor = u.usRtor ∧ (u.isrEntry csr rhr).2.sniffer = u.sniffer := by
  obtain ⟨data, none⟩ := noTimeout csr rhr
  have off : ¬csr &&& usCsrTimeout ≠ 0 := quiet
  by_cases char : csr &&& usCsrRxrdy ≠ 0
  · have got : Supervised.received csr := char
    simp only [isrEntry, if_neg off, if_pos char, if_pos got]
    refine ⟨data, ?_⟩
    split <;> exact ⟨rfl, rfl, rfl⟩
  · have silent : ¬Supervised.received csr := char
    simp only [isrEntry, if_neg off, if_neg char, if_neg silent]
    refine ⟨none, ?_⟩
    split <;> exact ⟨rfl, rfl, rfl⟩

/-- A TIMEOUT ends the waiting time where what is left is no more than the round. -/
theorem isr_timeout (u : SniffUsart) {csr : UInt32} (rhr : UInt32)
    (timed : Supervised.timedOut csr) (silent : ¬Supervised.received csr) :
    ((u.isrEntry csr rhr).1 &&& rbuf16FTimeoutWt ≠ 0 ↔ u.wtRemaining ≤ u.usRtor &&& 0xffff) ∧
      (u.isrEntry csr rhr).2.wtRemaining =
        (if u.wtRemaining ≤ u.usRtor &&& 0xffff then u.sniffer.wt.gWt.toUInt32
          else u.wtRemaining - (u.usRtor &&& 0xffff)) ∧
      (u.isrEntry csr rhr).2.usRtor =
        (if 0xffff < (u.isrEntry csr rhr).2.wtRemaining then 0xffff
          else (u.isrEntry csr rhr).2.wtRemaining) ∧
      ∃ flags, (u.isrEntry csr rhr).2.sniffer =
        { u.sniffer with changeFlags := u.sniffer.changeFlags ||| flags } := by
  obtain ⟨_, none⟩ := noTimeout csr rhr
  have on : csr &&& usCsrTimeout ≠ 0 := timed
  have char : ¬csr &&& usCsrRxrdy ≠ 0 := silent
  have kept : ∃ v : SniffUsart, v.sniffer = u.sniffer ∧ v.wtRemaining = u.wtRemaining ∧
      v.usRtor = u.usRtor ∧ u.isrEntry csr rhr =
        (if v.isrRound.1 then (0 ||| errorFlags csr) ||| rbuf16FTimeoutWt else 0 ||| errorFlags csr,
          v.isrRound.2.programRtor) := by
    simp only [isrEntry, if_neg char, if_pos on]
    split
    · exact ⟨u.command usCrRststa, rfl, rfl, rfl, rfl⟩
    · exact ⟨u, rfl, rfl, rfl, rfl⟩
  obtain ⟨v, sniffer, remaining, rtor, entry⟩ := kept
  obtain ⟨same, next, rest⟩ := v.isrRound.2.programRtor_countdown
  rw [← same] at next
  rw [entry, ← remaining, ← rtor, ← sniffer]
  by_cases ends : v.wtRemaining ≤ v.usRtor &&& 0xffff
  · have round : v.isrRound = (true, { v with
        sniffer.changeFlags := v.sniffer.changeFlags ||| sniffChangeFlagTimeoutWt }.resetWt) :=
      if_pos ends
    refine ⟨?_, ?_, next, sniffChangeFlagTimeoutWt, ?_⟩
    · rw [round, if_pos rfl, entry_or, none]
      simp only [ends, iff_true]
      decide
    · rw [same, round, if_pos ends]
      rfl
    · rw [rest, round]
      rfl
  · have round : v.isrRound =
        (false, { v with wtRemaining := v.wtRemaining - (v.usRtor &&& 0xffff) }) := if_neg ends
    refine ⟨?_, ?_, next, 0, ?_⟩
    · rw [round, if_neg Bool.false_ne_true, none]
      simp [ends]
    · rw [same, round, if_neg ends]
    · rw [rest, round, UInt32.or_zero]

/-- To the rest of the sniffer an interrupt is a change flag and an entry, or less. -/
theorem isr_sniffer (u : SniffUsart) {csr : UInt32} (rhr : UInt32) (one : Supervised.OneEvent csr) :
    ∃ inputs, (u.snifferUsartIsr csr rhr).sniffer = run Sniffer.step u.sniffer inputs := by
  have flagged : ∃ inputs, (u.isrEntry csr rhr).2.sniffer = run Sniffer.step u.sniffer inputs := by
    by_cases timed : Supervised.timedOut csr
    · have silent : ¬Supervised.received csr := fun got => one ⟨got, timed⟩
      obtain ⟨_, _, _, flags, set⟩ := u.isr_timeout rhr timed silent
      exact ⟨[.change flags], set⟩
    · obtain ⟨_, _, _, same⟩ := u.isr_quiet rhr timed
      exact ⟨[], same⟩
  obtain ⟨inputs, flagged⟩ := flagged
  simp only [snifferUsartIsr]
  split
  · refine ⟨inputs ++ [.entry (u.isrEntry csr rhr).1], ?_⟩
    rw [run_append, ← flagged]
    rfl
  · exact ⟨inputs, flagged⟩

end SniffUsart

/-! ### The countdown over a run -/

theorem Listener.run_sound {l : Listener} (h : l.wt.Sound) (inputs : List SniffInput) :
    (run Listener.step l inputs).wt.Sound :=
  run_invariant (fun l : Listener => l.wt.Sound) (fun _ input h => step_sound h input) h inputs

/-- The sniffer follows a listener whose waiting time is sound. -/
def Sniffer.WtSound (s : Sniffer) : Prop := ∃ l, Follows s l ∧ l.wt.Sound

namespace Sniffer.WtSound

theorem wt {s : Sniffer} (h : s.WtSound) : s.wt.Sound := by
  obtain ⟨l, follows, sound⟩ := h
  rwa [follows.wt]

theorem run {s : Sniffer} (h : s.WtSound) (inputs : List SniffInput) :
    (Lib.run Sniffer.step s inputs).WtSound := by
  obtain ⟨l, follows, sound⟩ := h
  exact ⟨_, follows.run inputs, Listener.run_sound sound inputs⟩

theorem updateWt {s : Sniffer} (h : s.WtSound) (wi : UInt8) {d : Nat} (le : d ≤ 255) :
    (s.updateWt wi d).WtSound := by
  obtain ⟨l, follows, sound⟩ := h
  refine ⟨{ l with wt := l.wt.update wi d }, ⟨?_, ?_⟩, sound.update wi le⟩
  · simp only [← follows.1]
    rfl
  · exact follows.2.aside _ _ _ _ _ _

end Sniffer.WtSound

theorem capped {r : UInt32} (pos : 0 < r.toNat) :
    1 ≤ (if 0xffff < r then 0xffff else r).toNat ∧
      (if 0xffff < r then 0xffff else r).toNat ≤ 65535 := by
  split
  · decide
  · rename_i le
    exact ⟨pos, UInt32.le_iff_toNat_le.mp (UInt32.not_lt.mp le)⟩

namespace Supervised

/-- What is left of the waiting time is what the idle time has not used up. -/
structure Counted (w : Supervised) : Prop where
  sound : w.usart.sniffer.WtSound
  counted : w.idle + w.usart.wtRemaining.toNat = w.wt
  left : 0 < w.usart.wtRemaining.toNat
  rtor : 1 ≤ w.usart.usRtor.toNat ∧ w.usart.usRtor.toNat ≤ 65535

namespace Counted
variable {w : Supervised} {csr rhr : UInt32}

theorem low (h : w.Counted) : (w.usart.usRtor &&& 0xffff).toNat = w.usart.usRtor.toNat := by
  rw [UInt32.toNat_and]
  have low := Nat.and_two_pow_sub_one_eq_mod w.usart.usRtor.toNat 16
  exact low.trans (Nat.mod_eq_of_lt (Nat.lt_succ_of_le h.rtor.2))

theorem ends_iff (h : w.Counted) :
    w.usart.wtRemaining ≤ w.usart.usRtor &&& 0xffff ↔ w.wt ≤ w.idle + w.usart.usRtor.toNat := by
  have counted := h.counted
  rw [UInt32.le_iff_toNat_le, h.low]
  omega

theorem expires_iff (h : w.Counted) (one : OneEvent csr) :
    w.Expires csr rhr ↔ timedOut csr ∧ w.wt ≤ w.idle + w.usart.usRtor.toNat := by
  by_cases timed : timedOut csr
  · have silent : ¬received csr := fun got => one ⟨got, timed⟩
    obtain ⟨ends, _⟩ := w.usart.isr_timeout rhr timed silent
    rw [Expires, ends, h.ends_iff]
    simp [timed]
  · obtain ⟨none, _⟩ := w.usart.isr_quiet rhr timed
    simp [Expires, none, timed]

theorem exact (h : w.Counted) (one : OneEvent csr) (rhr : UInt32) : w.Exact csr rhr where
  entry := h.expires_iff one
  before := by
    have counted := h.counted
    have left := h.left
    omega
  rest timed more := by
    have silent : ¬received csr := fun got => one ⟨got, timed⟩
    obtain ⟨ends, next, _⟩ := w.usart.isr_timeout rhr timed silent
    have rest : ¬w.usart.wtRemaining ≤ w.usart.usRtor &&& 0xffff := fun le => more (ends.mpr le)
    have less : w.usart.usRtor.toNat < w.usart.wtRemaining.toNat := by
      rw [UInt32.le_iff_toNat_le, h.low] at rest
      omega
    refine ⟨less, ?_⟩
    rw [(w.usart.snifferUsartIsr_countdown csr rhr).1, next, if_neg rest,
      UInt32.toNat_sub_of_le _ _ (UInt32.le_of_lt (UInt32.not_le.mp rest)), h.low]

theorem isr_wtSound (h : w.Counted) (one : OneEvent csr) (rhr : UInt32) :
    (w.usart.snifferUsartIsr csr rhr).sniffer.WtSound := by
  obtain ⟨inputs, ran⟩ := w.usart.isr_sniffer rhr one
  rw [ran]
  exact h.sound.run inputs

/-- A waiting time begins anew, with all of it left. -/
theorem restarted (h : w.Counted) (one : OneEvent csr)
    (left : (w.usart.snifferUsartIsr csr rhr).wtRemaining = w.usart.sniffer.wt.gWt.toUInt32)
    (rtor : 1 ≤ (w.usart.snifferUsartIsr csr rhr).usRtor.toNat ∧
      (w.usart.snifferUsartIsr csr rhr).usRtor.toNat ≤ 65535) :
    Counted ⟨w.usart.snifferUsartIsr csr rhr, w.usart.sniffer.wt.gWt, 0⟩ where
  sound := h.isr_wtSound one rhr
  counted := by rw [left, h.sound.wt.toNat, Nat.zero_add]
  left := by
    rw [left, h.sound.wt.toNat]
    exact h.sound.wt.pos
  rtor := rtor

theorem isr (h : w.Counted) (one : OneEvent csr) : (w.step (.usartIsr csr rhr)).Counted := by
  obtain ⟨remaining, programmed⟩ := w.usart.snifferUsartIsr_countdown csr rhr
  obtain ⟨entry, before, rest⟩ := h.exact one rhr
  by_cases timed : timedOut csr
  · have silent : ¬received csr := fun got => one ⟨got, timed⟩
    obtain ⟨ends, next, rtor, _⟩ := w.usart.isr_timeout rhr timed silent
    rw [← remaining, ← programmed] at rtor
    by_cases expires : w.Expires csr rhr
    · have again : w.step (.usartIsr csr rhr) =
          ⟨w.usart.snifferUsartIsr csr rhr, w.usart.sniffer.wt.gWt, 0⟩ := if_pos (Or.inr expires)
      have left : (w.usart.snifferUsartIsr csr rhr).wtRemaining = w.usart.sniffer.wt.gWt.toUInt32 := by
        rw [remaining, next, if_pos (ends.mp expires)]
      rw [again]
      apply h.restarted one left
      rw [rtor, left]
      exact capped (by rw [h.sound.wt.toNat]; exact h.sound.wt.pos)
    · have on : w.step (.usartIsr csr rhr) =
          ⟨w.usart.snifferUsartIsr csr rhr, w.wt, w.idle + w.usart.usRtor.toNat⟩ :=
        (if_neg (not_or.mpr ⟨silent, expires⟩)).trans (if_pos timed)
      obtain ⟨less, left⟩ := rest timed expires
      have pos : 0 < (w.usart.snifferUsartIsr csr rhr).wtRemaining.toNat := by omega
      have counted := h.counted
      rw [on]
      constructor
      · exact h.isr_wtSound one rhr
      · show w.idle + w.usart.usRtor.toNat + (w.usart.snifferUsartIsr csr rhr).wtRemaining.toNat = w.wt
        omega
      · exact pos
      · rw [rtor]
        exact capped pos
  · obtain ⟨none, next, rtor, _⟩ := w.usart.isr_quiet rhr timed
    rw [← programmed] at rtor
    have expires : ¬w.Expires csr rhr := fun expires => timed (entry.mp expires).1
    by_cases got : received csr
    · have again : w.step (.usartIsr csr rhr) =
          ⟨w.usart.snifferUsartIsr csr rhr, w.usart.sniffer.wt.gWt, 0⟩ := if_pos (Or.inl got)
      rw [again]
      apply h.restarted one
      · rw [remaining, next, if_pos got]
      · rw [rtor]
        exact h.rtor
    · have on : w.step (.usartIsr csr rhr) = ⟨w.usart.snifferUsartIsr csr rhr, w.wt, w.idle⟩ :=
        (if_neg (not_or.mpr ⟨got, expires⟩)).trans (if_neg timed)
      have left : (w.usart.snifferUsartIsr csr rhr).wtRemaining = w.usart.wtRemaining := by
        rw [remaining, next, if_neg got]
      rw [on]
      constructor
      · exact h.isr_wtSound one rhr
      · show w.idle + _ = w.wt
        rw [left]
        exact h.counted
      · rw [left]
        exact h.left
      · rw [rtor]
        exact h.rtor

theorem step (h : w.Counted) (input : UsartInput) (one : Single input) :
    (w.step input).Counted := by
  cases input with
  | usartIsr csr rhr => exact h.isr one
  | resetIsr flags => exact ⟨h.sound.run [.change flags], h.counted, h.left, h.rtor⟩
  | updateWt wi d =>
    exact ⟨h.sound.updateWt wi (Nat.le_of_lt_succ d.toNat_lt), h.counted, h.left, h.rtor⟩
  | snifferRun => exact ⟨h.sound.run [.turn], h.counted, h.left, h.rtor⟩

theorem init (alloc : Nat → Bool) : (Supervised.init alloc).Counted where
  sound := ⟨.init alloc, follows_init alloc, .default⟩
  counted := by
    show 0 + (9600 : UInt32).toNat = 9600
    decide
  left := by
    show 0 < (9600 : UInt32).toNat
    decide
  rtor := by
    show 1 ≤ (Nat.toUInt32 9600).toNat ∧ (Nat.toUInt32 9600).toNat ≤ 65535
    decide

end Counted
end Supervised

/-- For every order of characters, timeouts, resets, turns of the main loop and changes of the
waiting time: a timeout entry is made in the first round in which the line has been idle for
the waiting time of the last character or timeout entry, and in no other; the remaining time
stays at 1 or more, and US_RTOR between 1 and 65535. -/
theorem waiting_time_supervised (alloc : Nat → Bool) (inputs : List UsartInput)
    (single : ∀ input ∈ inputs, Supervised.Single input) :
    Meets Supervised.step Supervised.ExactAt (.init alloc) inputs ∧
      Always Supervised.step
        (fun w => 1 ≤ w.usart.wtRemaining.toNat ∧
          1 ≤ w.usart.usRtor.toNat ∧ w.usart.usRtor.toNat ≤ 65535) (.init alloc) inputs := by
  have given : Meets Supervised.step (fun _ input => Supervised.Single input) (.init alloc) inputs :=
    Meets.of_inputs single
  have start : (Supervised.init alloc).Counted := .init alloc
  constructor
  · refine Meets.of_keeps Supervised.Counted ?_ start given
    intro w input h one
    refine ⟨h.step input one, ?_⟩
    cases input with
    | usartIsr csr rhr => exact h.exact one rhr
    | resetIsr _ | updateWt _ _ | snifferRun => trivial
  · refine Always.of_keeps Supervised.Counted ?_ ?_ start given
    · intro w input h one
      exact h.step input one
    · intro w h
      exact ⟨h.left, h.rtor⟩

/-- 153600 etu are waited in four rounds, of which the first is as long as the one before. -/
theorem waiting_time_supervised_long :
    let inputs : List UsartInput :=
      [.updateWt 20 8, .usartIsr 0x1 0x3b, .usartIsr 0x100 0, .usartIsr 0x100 0,
        .usartIsr 0x100 0, .usartIsr 0x100 0]
    Meets Supervised.step Supervised.ExactAt (.init fun _ => true) inputs ∧
      Always Supervised.step
        (fun w => 1 ≤ w.usart.wtRemaining.toNat ∧
          1 ≤ w.usart.usRtor.toNat ∧ w.usart.usRtor.toNat ≤ 65535) (.init fun _ => true) inputs ∧
      (run Supervised.step (.init fun _ => true) inputs).usart.sniffer.sniffBuffer =
        [0x803b, 0x0800] := by
  intro inputs
  have single : ∀ input ∈ inputs, Supervised.Single input := by
    simp [inputs, Supervised.Single, Supervised.OneEvent, Supervised.received, Supervised.timedOut,
      usCsrRxrdy, usCsrTimeout]
    decide
  obtain ⟨exact, always⟩ := waiting_time_supervised (fun _ => true) inputs single
  exact ⟨exact, always, by decide +kernel⟩

end Simtrace2
