import Simtrace2.Lib.Run
import Simtrace2.Sniffer.Feed

/-! The Answer-to-Reset of ISO 7816-3 and the sniffer's reading of it. The proof goes
from the end of an ATR to its beginning: each lemma says that the bytes from some
place on are read to the end, given that this holds of the places behind it. -/
namespace Simtrace2
open Lib Sniffer

structure AtrGroup where
  ta : Option UInt8
  tb : Option UInt8
  tc : Option UInt8
  td : Option UInt8

structure IsoAtr where
  ts : UInt8
  t0 : UInt8
  groups : List AtrGroup
  hist : List UInt8
  tck : Option UInt8

def xorAll (bytes : List UInt8) : UInt8 := bytes.foldl (fun csum x => csum ^^^ x) 0

namespace AtrGroup

def bytes (g : AtrGroup) : List UInt8 :=
  g.ta.toList ++ g.tb.toList ++ g.tc.toList ++ g.td.toList

/-- The bytes present are those the high nibble of T0 or of a TD announces. -/
def Announced (y : UInt8) (g : AtrGroup) : Prop :=
  g.ta.isSome = hasBit y 0x10 ∧ g.tb.isSome = hasBit y 0x20 ∧ g.tc.isSome = hasBit y 0x40 ∧
    g.td.isSome = hasBit y 0x80

/-- A group follows T0 and every TD, and no other byte. -/
def Chain : UInt8 → List AtrGroup → Prop
  | _, [] => False
  | y, g :: groups => g.Announced y ∧ match g.td with
    | none => groups = []
    | some td => Chain td groups

def otherProtocol (g : AtrGroup) : Bool := (g.td.map fun td => td &&& 0x0f != 0).getD false

end AtrGroup

namespace IsoAtr

structure WellFormed (a : IsoAtr) : Prop where
  ts : a.ts = 0x3b ∨ a.ts = 0x3f
  groups : AtrGroup.Chain a.t0 a.groups
  hist : a.hist.length = (a.t0 &&& 0x0f).toNat
  tck : a.tck.isSome = a.groups.any AtrGroup.otherProtocol

def bytes (a : IsoAtr) : List UInt8 :=
  a.ts :: a.t0 :: a.groups.flatMap AtrGroup.bytes ++ a.hist ++ a.tck.toList

def tc2 (a : IsoAtr) : Option UInt8 := a.groups[1]?.bind AtrGroup.tc

/-- WI: TC2, or the default where it is absent or zero. -/
def wi (a : IsoAtr) : UInt8 :=
  match a.tc2 with
  | some tc2 => if tc2 = 0 then 10 else tc2
  | none => 10

def damaged (a : IsoAtr) : Bool := a.tck.isSome && xorAll (a.bytes.drop 1) != 0

end IsoAtr

/-- Somewhere in an ATR, with these bytes read. -/
structure Reading (base s : Sniffer) (got : List UInt8) (support i : Nat) (wi : UInt8) : Prop where
  iso : s.isoState = .inAtr
  conv : s.conventionConvert = false
  quiet : s.Quiet
  pool : s.alloc = base.alloc ∧ s.asked = base.asked
  sent : s.sent = base.sent
  count : s.gAtr.atrI = got.length
  held : s.gAtr.atr.upTo got.length = got
  flags : s.gAtr.flags = 0
  support : s.tProtocolSupport = support
  i : s.gAtr.i = i
  wi : s.wt.wi = wi

structure Sniffed (base : Sniffer) (bytes : List UInt8) (damaged : Bool) (wi : UInt8)
    (s : Sniffer) : Prop where
  iso : s.isoState = .waitTpdu
  sent : s.sent = base.sent ++ if base.alloc base.asked then
    [.data .atr (if damaged then sniffDataFlagErrorChecksum else 0) bytes] else []
  wi : s.wt.wi = wi

/-- Before each further byte the sniffer is still in the ATR, has sent nothing of it,
and has room for the byte. -/
def MidAtr (base s : Sniffer) : Prop :=
  s.isoState = .inAtr ∧ s.sent = base.sent ∧ s.gAtr.atrI < maxAtrSize

/-- The rest of an ATR is read to its end, and not further. -/
def Parses (base s : Sniffer) (rest bytes : List UInt8) (damaged : Bool) (wi : UInt8) : Prop :=
  Meets feed (fun s _ => MidAtr base s) s rest ∧ Sniffed base bytes damaged wi (run feed s rest)

theorem Parses.of_sniffed {base s : Sniffer} {bytes : List UInt8} {damaged : Bool} {wi : UInt8}
    (done : Sniffed base bytes damaged wi s) : Parses base s [] bytes damaged wi :=
  ⟨trivial, done⟩

namespace Reading
variable {base s : Sniffer} {got : List UInt8} {support i : Nat} {wi : UInt8}

theorem setAtrState (h : Reading base s got support i wi) (st : AtrSniffState) :
    Reading base (s.setAtrState st) got support i wi :=
  ⟨h.iso, h.conv, h.quiet, h.pool, h.sent, h.count, h.held, h.flags, h.support, h.i, h.wi⟩

theorem atrSave (h : Reading base s got support i wi) (room : got.length < maxAtrSize)
    (byte : UInt8) : Reading base (s.atrSave byte) (got ++ [byte]) support i wi := by
  refine ⟨h.iso, h.conv, h.quiet, h.pool, h.sent, ?_, ?_, h.flags, h.support, h.i, h.wi⟩
  · simp [Sniffer.atrSave, h.count]
  · simp only [Sniffer.atrSave]
    rw [h.count, List.length_append, List.length_singleton, Buffer.upTo_put _ room, h.held]

theorem feed_eq (h : Reading base s got support i wi) (room : got.length < maxAtrSize)
    (byte : UInt8) : s.feed byte = (s.atrSave byte).atrSwitch byte s.gAtr.state := by
  have inside : ¬ maxAtrSize ≤ s.gAtr.atrI := by rw [h.count]; omega
  rw [Sniffer.feed_eq h.quiet, convert, if_neg (by simp [h.conv]), handleByte, h.iso]
  simp only [processByteAtr, if_neg inside, h.iso, ne_eq, not_true, if_false]

theorem parses_cons {byte : UInt8} {rest bytes : List UInt8} {damaged : Bool} {wi' : UInt8}
    (h : Reading base s got support i wi) (room : got.length < maxAtrSize)
    (next : Parses base ((s.atrSave byte).atrSwitch byte s.gAtr.state) rest bytes damaged wi') :
    Parses base s (byte :: rest) bytes damaged wi' := by
  rw [← h.feed_eq room] at next
  exact ⟨⟨⟨h.iso, h.sent, by rw [h.count]; exact room⟩, next.1⟩, next.2⟩

theorem checksum (h : Reading base s got support i wi) : s.atrChecksum = xorAll (got.drop 1) := by
  rw [atrChecksum, h.count, h.held]
  rfl

theorem sendAtr (h : Reading base s got support i wi) (fits : got.length ≤ maxAtrSize)
    (damaged : Bool) :
    let flags := if damaged then sniffDataFlagErrorChecksum else 0
    Sniffed base got damaged wi
      (({ s with gAtr.flags := flags }.usbSendAtr flags).changeState .waitTpdu) := by
  intro flags
  have sends : { s with gAtr.flags := flags }.usbSendAtr flags =
      { s with gAtr.flags := flags }.usbMsgSubmit (.data .atr flags got) := by
    rw [usbSendAtr, if_neg (by simp [h.iso])]
    simp only [h.count, h.held, if_neg (Nat.not_lt.mpr fits)]
    rfl
  rw [sends, changeState, if_neg (by simp [usbMsgSubmit, h.iso])]
  exact ⟨rfl, by simp [enterState, changeTpduState, usbMsgSubmit, h.sent, h.pool, flags], h.wi⟩

theorem finish (h : Reading base s got support i wi) (fits : got.length ≤ maxAtrSize) :
    Sniffed base got (s.gAtr.state == .waitTck && xorAll (got.drop 1) != 0) wi s.atrWaitTck := by
  simp only [atrWaitTck, h.checksum]
  split
  · rename_i bad
    have set : (s.gAtr.state == .waitTck && xorAll (got.drop 1) != 0) = true := by simpa using bad
    rw [set, h.flags, show (0 : UInt32) ||| sniffDataFlagErrorChecksum = sniffDataFlagErrorChecksum by
      decide]
    exact h.sendAtr fits true
  · rename_i good
    have clear : (s.gAtr.state == .waitTck && xorAll (got.drop 1) != 0) = false := by
      simpa using good
    have same : { s with gAtr.flags := 0 } = s := by rw [← h.flags]
    have sniffed := h.sendAtr fits false
    rw [clear, h.flags]
    simpa [same] using sniffed

theorem room {byte : UInt8} {rest bytes : List UInt8} (whole : got ++ byte :: rest = bytes)
    (fits : bytes.length ≤ maxAtrSize) : got.length < maxAtrSize := by
  rw [← whole, List.length_append, List.length_cons] at fits
  omega

theorem parses_tck (h : Reading base s got support i wi) (st : s.gAtr.state ≠ .waitTck)
    {tck : Option UInt8} (present : tck.isSome = decide (1 < support)) {bytes : List UInt8}
    (whole : got ++ tck.toList = bytes) (fits : bytes.length ≤ maxAtrSize) :
    Parses base s.atrAfterHist tck.toList bytes (tck.isSome && xorAll (bytes.drop 1) != 0) wi := by
  rw [atrAfterHist, h.support]
  cases tck with
  | none =>
    have one : ¬ 1 < support := by simpa using present
    have notTck : (s.gAtr.state == .waitTck) = false := by simpa using st
    have same : got = bytes := by simpa using whole
    subst same
    have done := h.finish fits
    rw [if_neg one]
    exact ⟨trivial, by simpa [notTck, run] using done⟩
  | some tck =>
    have more : 1 < support := by simpa using present
    have waits := h.setAtrState .waitTck
    have room := room whole fits
    rw [if_pos more]
    apply waits.parses_cons room
    have whole' : got ++ [tck] = bytes := whole
    have done := (waits.atrSave room tck).finish (by rw [whole']; exact fits)
    have atTck : (((s.setAtrState .waitTck).atrSave tck).gAtr.state == .waitTck) = true := rfl
    have ends : ((s.setAtrState .waitTck).atrSave tck).atrSwitch tck .waitTck =
        ((s.setAtrState .waitTck).atrSave tck).atrWaitTck := rfl
    have state : (s.setAtrState .waitTck).gAtr.state = .waitTck := rfl
    rw [whole', atTck, ← ends] at done
    rw [state]
    exact Parses.of_sniffed done

theorem setHistLen (h : Reading base s got support i wi) (n : Nat) :
    Reading base { s with gAtr.histLen := n } got support i wi :=
  ⟨h.iso, h.conv, h.quiet, h.pool, h.sent, h.count, h.held, h.flags, h.support, h.i, h.wi⟩

theorem parses_histBytes (h : Reading base s got support i wi) (st : s.gAtr.state = .waitHist)
    {byte : UInt8} {hist : List UInt8} (count : s.gAtr.histLen = hist.length + 1)
    {tck : Option UInt8} (present : tck.isSome = decide (1 < support)) {bytes : List UInt8}
    (whole : got ++ (byte :: hist ++ tck.toList) = bytes) (fits : bytes.length ≤ maxAtrSize) :
    Parses base s (byte :: hist ++ tck.toList) bytes
      (tck.isSome && xorAll (bytes.drop 1) != 0) wi := by
  induction hist generalizing s got byte with
  | nil =>
    have free := room whole fits
    have saved := (h.atrSave free byte).setHistLen 0
    have done := saved.parses_tck (by simp [Sniffer.atrSave, st]) present
      (by simpa using whole) fits
    apply h.parses_cons free
    rw [st, atrSwitch, atrWaitHist]
    simpa [Sniffer.atrSave, count] using done
  | cons byte' hist ih =>
    have free := room whole fits
    have saved := (h.atrSave free byte).setHistLen (hist.length + 1)
    have done := ih saved (by simp [Sniffer.atrSave, st]) rfl (by simpa using whole)
    apply h.parses_cons free
    rw [st, atrSwitch, atrWaitHist]
    simpa [Sniffer.atrSave, count] using done

theorem parses_hist (h : Reading base s got support i wi) (st : s.gAtr.state ≠ .waitTck)
    {hist : List UInt8} (count : s.gAtr.histLen = hist.length)
    {tck : Option UInt8} (present : tck.isSome = decide (1 < support)) {bytes : List UInt8}
    (whole : got ++ (hist ++ tck.toList) = bytes) (fits : bytes.length ≤ maxAtrSize) :
    Parses base (if s.gAtr.histLen ≠ 0 then s.setAtrState .waitHist else s.atrWaitHist)
      (hist ++ tck.toList) bytes (tck.isSome && xorAll (bytes.drop 1) != 0) wi := by
  cases hist with
  | nil =>
    rw [if_neg (by simp [count]), atrWaitHist]
    simpa [count] using (h.setHistLen 0).parses_tck st present whole fits
  | cons byte hist =>
    rw [if_pos (by simp [count])]
    exact (h.setAtrState .waitHist).parses_histBytes rfl count present whole fits

end Reading

structure InGroup (base s : Sniffer) (got : List UInt8) (support i : Nat) (wi y : UInt8)
    (histLen : Nat) : Prop where
  reading : Reading base s got support i wi
  y : s.gAtr.y = y &&& 0xf0
  histLen : s.gAtr.histLen = histLen
  st : s.gAtr.state ≠ .waitTck

theorem hasBit_announced (y : UInt8) :
    hasBit (y &&& 0xf0) 0x10 = hasBit y 0x10 ∧ hasBit (y &&& 0xf0) 0x20 = hasBit y 0x20 ∧
      hasBit (y &&& 0xf0) 0x40 = hasBit y 0x40 ∧ hasBit (y &&& 0xf0) 0x80 = hasBit y 0x80 := by
  revert y
  apply forall_byte
  decide +kernel

def tcWi (i : Nat) (tc : Option UInt8) (wi : UInt8) : UInt8 :=
  match tc with
  | some tc => if i = 2 then (if tc = 0 then 10 else tc) else wi
  | none => wi

def tdSupport (td : Option UInt8) (support : Nat) : Nat :=
  match td with
  | some td => support ||| 1 <<< (td &&& 0x0f).toNat
  | none => support

namespace InGroup
variable {base s : Sniffer} {got rest bytes : List UInt8} {support i histLen : Nat}
  {wi wi' y : UInt8} {damaged : Bool}

theorem parses_optional (h : InGroup base s got support i wi y histLen) {mask : UInt8}
    {waits : AtrSniffState} (behind : Sniffer → UInt8 → Sniffer)
    (switch : ∀ s byte, atrSwitch s byte waits = behind s byte) (st : waits ≠ .waitTck)
    (bit : hasBit (y &&& 0xf0) mask = hasBit y mask) {byte : UInt8} {opt : Option UInt8}
    (present : opt.isSome = hasBit y mask)
    (whole : got ++ (opt.toList ++ rest) = bytes) (fits : bytes.length ≤ maxAtrSize)
    (next : ∀ s' byte', InGroup base s' (got ++ opt.toList) support i wi y histLen →
      (opt = none ∧ s'.gAtr.state = s.gAtr.state ∨ opt = some byte' ∧ s'.gAtr.state = waits) →
      Parses base (behind s' byte') rest bytes damaged wi') :
    Parses base (if hasBit s.gAtr.y mask then s.setAtrState waits else behind s byte)
      (opt.toList ++ rest) bytes damaged wi' := by
  rw [h.y, bit, ← present]
  cases opt with
  | none =>
    have absent := next s byte (by simpa using h) (.inl ⟨rfl, rfl⟩)
    simpa using absent
  | some byte' =>
    have waiting := h.reading.setAtrState waits
    have free := Reading.room whole fits
    have saved := waiting.atrSave free byte'
    have done := next _ byte' ⟨saved, h.y, h.histLen, st⟩ (.inr ⟨rfl, rfl⟩)
    rw [← switch] at done
    simpa using waiting.parses_cons free done

theorem atrWaitTc (h : InGroup base s got support i wi y histLen) {tc : Option UInt8}
    {byte : UInt8}
    (seen : tc = none ∧ s.gAtr.state ≠ .waitTc ∨ tc = some byte ∧ s.gAtr.state = .waitTc) :
    ∃ s', InGroup base s' got support i (tcWi i tc wi) y histLen ∧
      s.atrWaitTc byte = s'.atrAfterTc := by
  obtain ⟨rfl, other⟩ | ⟨rfl, same⟩ := seen
  · exact ⟨s, h, by rw [Sniffer.atrWaitTc, if_neg (by simp [other])]⟩
  · by_cases second : i = 2
    · have value : (if byte = 0 then 10 else byte) ≠ (0 : UInt8) := by
        split
        · decide
        · assumption
      have r := h.reading
      refine ⟨s.updateWt (if byte = 0 then 10 else byte) 0, ⟨⟨r.iso, r.conv, r.quiet, r.pool, r.sent,
        r.count, r.held, r.flags, r.support, r.i, ?_⟩, h.y, h.histLen, h.st⟩, ?_⟩
      · simp [updateWt, tcWi, second, value]
      · rw [Sniffer.atrWaitTc, if_pos ⟨same, by rw [r.i, second]⟩]
    · refine ⟨s, by simpa [tcWi, second] using h, ?_⟩
      rw [Sniffer.atrWaitTc, if_neg (by simp [h.reading.i, second])]

theorem parses_group (h : InGroup base s got support i wi y histLen) (st : s.gAtr.state ≠ .waitTc)
    {g : AtrGroup} (announced : g.Announced y) {byte : UInt8}
    (whole : got ++ (g.ta.toList ++ (g.tb.toList ++ (g.tc.toList ++ rest))) = bytes)
    (fits : bytes.length ≤ maxAtrSize)
    (next : ∀ s', InGroup base s' (got ++ g.ta.toList ++ g.tb.toList ++ g.tc.toList) support i
      (tcWi i g.tc wi) y histLen → Parses base s'.atrAfterTc rest bytes damaged wi') :
    Parses base (if hasBit s.gAtr.y 0x10 then s.setAtrState .waitTa else s.atrWaitTa byte)
      (g.ta.toList ++ (g.tb.toList ++ (g.tc.toList ++ rest))) bytes damaged wi' := by
  obtain ⟨bitTa, bitTb, bitTc, _⟩ := hasBit_announced y
  obtain ⟨ta, tb, tc, _⟩ := announced
  have whole' := whole
  rw [← List.append_assoc] at whole'
  have whole'' := whole'
  rw [← List.append_assoc] at whole''
  apply h.parses_optional atrWaitTa (fun _ _ => rfl) (by decide) bitTa ta whole fits
  intro s1 b1 h1 st1
  have st1 : s1.gAtr.state ≠ .waitTc := by
    obtain ⟨_, same⟩ | ⟨_, same⟩ := st1 <;> simp [same, st]
  apply h1.parses_optional atrWaitTb (fun _ _ => rfl) (by decide) bitTb tb whole' fits
  intro s2 b2 h2 st2
  have st2 : s2.gAtr.state ≠ .waitTc := by
    obtain ⟨_, same⟩ | ⟨_, same⟩ := st2 <;> simp [same, st1]
  apply h2.parses_optional Sniffer.atrWaitTc (fun _ _ => rfl) (by decide) bitTc tc whole'' fits
  intro s3 b3 h3 st3
  have st3 : g.tc = none ∧ s3.gAtr.state ≠ .waitTc ∨ g.tc = some b3 ∧ s3.gAtr.state = .waitTc :=
    st3.imp_left fun ⟨absent, same⟩ => ⟨absent, by rw [same]; exact st2⟩
  obtain ⟨s4, h4, same⟩ := h3.atrWaitTc st3
  rw [same]
  exact next s4 h4

end InGroup

def wiBehind : Nat → List AtrGroup → UInt8 → UInt8
  | _, [], wi => wi
  | i, g :: groups, wi => wiBehind (i + 1) groups (tcWi i g.tc wi)

def supportBehind (groups : List AtrGroup) (support : Nat) : Nat :=
  groups.foldl (fun n g => tdSupport g.td n) support

theorem Reading.parses_groups {base s : Sniffer} {got bytes hist : List UInt8} {support i : Nat}
    {wi y : UInt8} {groups : List AtrGroup} {tck : Option UInt8}
    (h : Reading base s got support i wi) (st : s.gAtr.state = .waitT0 ∨ s.gAtr.state = .waitTd)
    (count : s.gAtr.histLen = hist.length) (chain : AtrGroup.Chain y groups)
    (present : tck.isSome = decide (1 < supportBehind groups support))
    (whole : got ++ (groups.flatMap AtrGroup.bytes ++ (hist ++ tck.toList)) = bytes)
    (fits : bytes.length ≤ maxAtrSize) :
    Parses base (s.atrAnnounce y) (groups.flatMap AtrGroup.bytes ++ (hist ++ tck.toList)) bytes
      (tck.isSome && xorAll (bytes.drop 1) != 0) (wiBehind (i + 1) groups wi) := by
  induction groups generalizing s got support i wi y with
  | nil => exact chain.elim
  | cons g groups ih =>
    obtain ⟨announced, chain⟩ := chain
    have inGroup : InGroup base { s with gAtr.y := y &&& 0xf0, gAtr.i := s.gAtr.i + 1 } got support
        (i + 1) wi y hist.length := by
      refine ⟨⟨h.iso, h.conv, h.quiet, h.pool, h.sent, h.count, h.held, h.flags, h.support, ?_, h.wi⟩,
        rfl, count, ?_⟩
      · simp [h.i]
      · obtain st | st := st <;> simp [st]
    have st' : s.gAtr.state ≠ .waitTc := by obtain st | st := st <;> simp [st]
    simp only [List.flatMap_cons, AtrGroup.bytes, List.append_assoc] at whole ⊢
    apply inGroup.parses_group st' announced whole fits
    intro s1 h1
    rw [atrAfterTc, h1.y, (hasBit_announced y).2.2.2, ← announced.2.2.2]
    cases td : g.td with
    | none =>
      rw [td] at chain
      subst chain
      have support' : supportBehind [g] support = support := by simp [supportBehind, tdSupport, td]
      rw [support'] at present
      simp only [td, Option.toList_none, List.flatMap_nil, List.nil_append] at whole ⊢
      exact h1.reading.parses_hist h1.st h1.histLen present (by simpa using whole) fits
    | some td' =>
      rw [td] at chain
      simp only [td, Option.toList_some, List.cons_append, List.nil_append] at whole ⊢
      have waits := h1.reading.setAtrState .waitTd
      have whole' : got ++ g.ta.toList ++ g.tb.toList ++ g.tc.toList ++
          td' :: (groups.flatMap AtrGroup.bytes ++ (hist ++ tck.toList)) = bytes := by
        simpa using whole
      have free := Reading.room whole' fits
      apply waits.parses_cons free
      have saved := waits.atrSave free td'
      have marked : Reading base
          { (s1.setAtrState .waitTd).atrSave td' with
            tProtocolSupport := s1.tProtocolSupport ||| 1 <<< (td' &&& 0x0f).toNat }
          (got ++ g.ta.toList ++ g.tb.toList ++ g.tc.toList ++ [td']) (tdSupport g.td support) (i + 1)
          (tcWi (i + 1) g.tc wi) := by
        refine ⟨saved.iso, saved.conv, saved.quiet, saved.pool, saved.sent, saved.count, saved.held,
          saved.flags, ?_, saved.i, saved.wi⟩
        simp [tdSupport, td, h1.reading.support]
      exact ih marked (.inr rfl) h1.histLen chain present (by simpa using whole')

/-! The same two quantities as the standard has them. -/

theorem wiBehind_late {i : Nat} (late : 2 < i) (groups : List AtrGroup) (wi : UInt8) :
    wiBehind i groups wi = wi := by
  induction groups generalizing i with
  | nil => rfl
  | cons g groups ih =>
    have same : tcWi i g.tc wi = wi := by
      unfold tcWi
      split
      · rw [if_neg (by omega)]
      · rfl
    rw [wiBehind, same]
    exact ih (by omega)

theorem wiBehind_one (a : IsoAtr) : wiBehind 1 a.groups 10 = a.wi := by
  have first (tc : Option UInt8) : tcWi 1 tc 10 = 10 := by cases tc <;> rfl
  unfold IsoAtr.wi IsoAtr.tc2
  match a.groups with
  | [] => rfl
  | [g] => simp [wiBehind, first]
  | g :: g' :: groups =>
    rw [wiBehind, wiBehind, first, wiBehind_late (by decide)]
    cases tc : g'.tc <;> simp [tcWi, tc]

theorem tdSupport_more {td : Option UInt8} {support : Nat} :
    1 < tdSupport td support ↔ 1 < support ∨ (td.map fun td => td &&& 0x0f != 0).getD false := by
  cases td with
  | none => simp [tdSupport]
  | some td =>
    have half (n : Nat) : 1 < n ↔ n >>> 1 ≠ 0 := by
      rw [Nat.shiftRight_eq_div_pow]
      omega
    have zero : td &&& 0x0f = 0 ↔ (td &&& 0x0f).toNat = 0 :=
      ⟨fun h => by rw [h]; rfl, fun h => UInt8.toNat_inj.mp h⟩
    simp only [tdSupport, half, Nat.shiftRight_or_distrib, ne_eq, Nat.or_eq_zero_iff, Option.map_some,
      Option.getD_some, bne_iff_ne, zero]
    cases (td &&& 0x0f).toNat with
    | zero => simp
    | succ k =>
      have positive : 0 < 2 ^ k := Nat.two_pow_pos k
      have set : (1 <<< (k + 1)) >>> 1 ≠ 0 := by
        rw [Nat.shiftLeft_eq, Nat.shiftRight_eq_div_pow, Nat.pow_succ]
        omega
      simp [set]

theorem supportBehind_more (groups : List AtrGroup) (support : Nat) :
    1 < supportBehind groups support ↔ 1 < support ∨ groups.any AtrGroup.otherProtocol := by
  induction groups generalizing support with
  | nil => simp [supportBehind]
  | cons g groups ih =>
    have step : supportBehind (g :: groups) support = supportBehind groups (tdSupport g.td support) :=
      rfl
    rw [step, ih, tdSupport_more, List.any_cons, Bool.or_eq_true, or_assoc]
    rfl

theorem reading_ts {s : Sniffer} (waits : s.isoState = .waitAtr) (quiet : s.Quiet)
    (conv : s.conventionConvert = false) {ts : UInt8} (valid : ts = 0x3b ∨ ts = 0x3f) :
    Reading s (s.feed ts) [ts] 0 0 s.wt.wi ∧ (s.feed ts).gAtr.state = .waitT0 := by
  have plain : ¬ (ts = 0x23 ∨ ts = 0x30) := by obtain rfl | rfl := valid <;> decide
  have entered : (s.changeState .inAtr).isoState = .inAtr := by simp [changeState, waits]
  have fresh : (s.changeState .inAtr).gAtr.atrI = 0 ∧
      (s.changeState .inAtr).gAtr.state = .waitTs := by
    simp [changeState, enterState, waits]
  have first : s.feed ts = ((s.changeState .inAtr).atrSave ts).atrWaitTs ts := by
    rw [Sniffer.feed_eq quiet, convert, if_neg (by simp [conv]), handleByte, waits]
    simp only [processByteAtr, entered, fresh, ne_eq, not_true, if_false]
    rfl
  rw [first]
  simp only [atrWaitTs, if_neg plain, if_pos valid]
  refine ⟨⟨entered, ?_, ?_, ?_, ?_, ?_, ?_, rfl, ?_, rfl, ?_⟩, rfl⟩
  · simp [Sniffer.atrSave, Sniffer.setAtrState, changeState, enterState, waits]
  · simpa [Sniffer.atrSave, Sniffer.setAtrState, changeState, enterState, waits, Quiet] using quiet
  · simp [Sniffer.atrSave, Sniffer.setAtrState, changeState, enterState, waits]
  · simp [Sniffer.atrSave, Sniffer.setAtrState, changeState, enterState, waits]
  · simp [Sniffer.atrSave, Sniffer.setAtrState, fresh]
  · simp only [Sniffer.atrSave, Sniffer.setAtrState, fresh, List.length_singleton]
    rw [Buffer.upTo_put _ (by decide), Buffer.upTo_zero, List.nil_append]
  · simp [Sniffer.atrSave, Sniffer.setAtrState, changeState, enterState, waits]
  · simp [Sniffer.atrSave, Sniffer.setAtrState, changeState, enterState, waits]

theorem IsoAtr.WellFormed.tck_present {a : IsoAtr} (wf : a.WellFormed) :
    a.tck.isSome = decide (1 < supportBehind a.groups 0) := by
  rw [wf.tck, Bool.eq_iff_iff, decide_eq_true_iff, supportBehind_more]
  simp

theorem parses_atr {s : Sniffer} {a : IsoAtr} (waits : s.isoState = .waitAtr) (quiet : s.Quiet)
    (conv : s.conventionConvert = false) (wi : s.wt.wi = 10) (wf : a.WellFormed)
    (fits : a.bytes.length ≤ maxAtrSize) :
    Parses s (s.feed a.ts) (a.bytes.drop 1) a.bytes a.damaged a.wi := by
  obtain ⟨reading, st⟩ := reading_ts waits quiet conv wf.ts
  have whole : [a.ts] ++ a.t0 :: (a.groups.flatMap AtrGroup.bytes ++ (a.hist ++ a.tck.toList)) =
      a.bytes := by
    simp [IsoAtr.bytes]
  have free := Reading.room whole fits
  have saved := (reading.atrSave free a.t0).setHistLen a.hist.length
  have groups := saved.parses_groups (.inl st) rfl wf.groups wf.tck_present (by simpa using whole) fits
  have rest : a.bytes.drop 1 =
      a.t0 :: (a.groups.flatMap AtrGroup.bytes ++ (a.hist ++ a.tck.toList)) := by
    simp [← whole]
  rw [wi, wiBehind_one, wf.hist] at groups
  rw [rest]
  apply reading.parses_cons free
  rw [st, IsoAtr.damaged]
  exact groups

/-- The sniffer reads an ATR as the standard defines it: after each byte but the last
it is still in the ATR, after the last it has sent the ATR and waits for a TPDU. -/
theorem atr_sniffed (s : Sniffer) (a : IsoAtr) (waits : s.isoState = .waitAtr) (quiet : s.Quiet)
    (conv : s.conventionConvert = false) (wi : s.wt.wi = 10) (wf : a.WellFormed)
    (fits : a.bytes.length ≤ maxAtrSize) :
    Sniffed s a.bytes a.damaged a.wi (run feed s a.bytes) ∧
      ∀ p, p <+: a.bytes → p ≠ [] → p ≠ a.bytes → MidAtr s (run feed s p) := by
  obtain ⟨mid, done⟩ := parses_atr waits quiet conv wi wf fits
  have cons : a.bytes = a.ts :: a.bytes.drop 1 := rfl
  have first (rest : List UInt8) : run feed s (a.ts :: rest) = run feed (s.feed a.ts) rest := rfl
  have whole : run feed s a.bytes = run feed (s.feed a.ts) (a.bytes.drop 1) := by
    rw [← first, ← cons]
  rw [← whole] at done
  refine ⟨done, ?_⟩
  intro p hp some proper
  cases p with
  | nil => exact absurd rfl some
  | cons ts p =>
    rw [cons] at hp
    obtain ⟨rfl, js, rest⟩ := List.cons_prefix_cons.mp hp
    cases js with
    | nil => exact absurd (by rw [cons, ← rest, List.append_nil]) proper
    | cons byte js =>
      rw [← rest] at mid
      exact mid.before

def blockAtr : IsoAtr :=
  { ts := 0x3b, t0 := 0x82
    groups := [⟨none, none, none, some 0x41⟩, ⟨none, none, some 0x05, none⟩]
    hist := [0x10, 0x20], tck := some 0xf6 }

theorem blockAtr_wellFormed : blockAtr.WellFormed := by
  refine ⟨.inl rfl, ⟨?_, ?_, rfl⟩, rfl, rfl⟩
  · unfold AtrGroup.Announced
    decide
  · unfold AtrGroup.Announced
    decide

theorem blockAtr_sniffed :
    let s := (Sniffer.init fun _ => true).changeState .waitAtr
    let bytes : List UInt8 := [0x3b, 0x82, 0x41, 0x05, 0x10, 0x20, 0xf6]
    Sniffed s bytes false 5 (run feed s bytes) ∧
      ∀ p, p <+: bytes → p ≠ [] → p ≠ bytes → MidAtr s (run feed s p) :=
  atr_sniffed ((Sniffer.init fun _ => true).changeState .waitAtr) blockAtr rfl ⟨rfl, rfl⟩ rfl rfl
    blockAtr_wellFormed (by decide)

end Simtrace2
