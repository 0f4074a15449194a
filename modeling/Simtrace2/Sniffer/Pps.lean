import Simtrace2.Sniffer.Refinement

/-! A whole PPS message as the sniffer hears it, and the ratio that it programs. -/
namespace Simtrace2
open Lib Sniffer

def ppsWhole (got : List UInt8) : Prop := 2 ≤ got.length ∧ ppsLength (got.getD 1 0) ≤ got.length

instance (got : List UInt8) : Decidable (ppsWhole got) := inferInstanceAs (Decidable (_ ∧ _))

/-- The ratio programmed after a message, where `ratio` was programmed before it. -/
def retuned (rsp : Bool) (got : List UInt8) (ratio : Option Nat) : Option Nat :=
  if rsp ∧ xorAll got = 0 then
    usFidiRatio ((ppsFidi got).toNat / 16) ((ppsFidi got).toNat % 16) <|> ratio
  else ratio

namespace Sniffer
variable {s : Sniffer}

/-- A character of the line, as the USART of the sniffer's convention receives it. -/
def hears (s : Sniffer) (byte : UInt8) : Sniffer := s.feed (s.convert byte)

theorem updateFidi_eq (s : Sniffer) (fidi : UInt8) : s.updateFidi fidi =
    { s with fidi := usFidiRatio (fidi.toNat / 16) (fidi.toNat % 16) <|> s.fidi } := by
  unfold updateFidi usFidiRatio
  cases iso78163ComputeFdRatio (fidi.toNat / 16) (fidi.toNat % 16) with
  | none => rfl
  | some ratio =>
    simp only
    split <;> rfl

theorem changeState_fidi (st : SniffState) (other : st ≠ .reset) :
    (s.changeState st).fidi = s.fidi := by
  unfold changeState
  split
  · rfl
  · cases st <;> first | contradiction | rfl

theorem usbSendPps_same (flags : UInt32) : (s.usbSendPps flags).fidi = s.fidi ∧
    (s.usbSendPps flags).isoState = s.isoState := by
  unfold usbSendPps
  split <;> exact ⟨rfl, rfl⟩

theorem ppsAgreed_fidi (cur : Buffer maxPpsSize) : (s.ppsAgreed cur).fidi =
    (usFidiRatio ((cur.get 2).toNat / 16) ((cur.get 2).toNat % 16) <|> s.fidi) := by
  rw [ppsAgreed, updateFidi_eq]
  rfl

end Sniffer

namespace PpsHeld
variable {s : Sniffer} {rsp : Bool} {got : List UInt8}

theorem leave_fidi (iso : s.isoState = ppsIso rsp) {cur : Buffer maxPpsSize} (slot : FidiSlot cur) :
    (if s.isoState = .inPpsReq then
        if ppsCheck cur = 0 then s.changeState .waitPpsRsp else s.changeState .waitTpdu
      else if ppsCheck cur = 0 then (s.ppsAgreed cur).changeState .waitTpdu
      else s.changeState .waitTpdu).fidi = retuned rsp (ppsSeen .waitEnd cur) s.fidi := by
  rw [retuned, ← check, fidi slot]
  cases rsp with
  | false =>
    have req : s.isoState = .inPpsReq := iso
    have stays : ¬ (false = true ∧ ppsCheck cur = 0) := by simp
    rw [if_pos req, if_neg stays]
    split
    · exact changeState_fidi .waitPpsRsp (by simp)
    · exact changeState_fidi .waitTpdu (by simp)
  | true =>
    have resp : s.isoState = .inPpsRsp := iso
    rw [if_neg (by simp [resp])]
    by_cases good : ppsCheck cur = 0
    · rw [if_pos good, if_pos ⟨rfl, good⟩, changeState_fidi .waitTpdu (by simp), ppsAgreed_fidi]
    · rw [if_neg good, if_neg (fun both => good both.2)]
      exact changeState_fidi .waitTpdu (by simp)

theorem waitPck_fidi (iso : s.isoState = ppsIso rsp) (slot : FidiSlot s.ppsCur) (byte : UInt8) :
    (s.ppsWaitPck byte).fidi = retuned rsp (ppsSeen .waitEnd (s.ppsCur.put 5 byte)) s.fidi := by
  have slot' : FidiSlot (s.ppsCur.put 5 byte) := by simpa [FidiSlot, pps_get_put] using slot
  have left (t : Sniffer) (iso : t.isoState = ppsIso rsp) (same : t.fidi = s.fidi) :=
    let sent := usbSendPps_same (s := t.setPpsState .waitEnd) t.gPps.flags
    (leave_fidi (sent.2.trans iso) slot').trans (congrArg (retuned rsp _) (sent.1.trans same))
  have iso' : (s.ppsPut 5 byte).isoState = ppsIso rsp := (ppsPut_same byte).1.trans iso
  have same : (s.ppsPut 5 byte).fidi = s.fidi := (ppsPut_only 5 byte).fidi
  by_cases bad : ppsCheck (s.ppsCur.put 5 byte) ≠ 0
  · simp only [ppsWaitPck, ppsPut_cur, if_pos bad]
    exact left { s.ppsPut 5 byte with
      gPps.flags := (s.ppsPut 5 byte).gPps.flags ||| sniffDataFlagErrorChecksum } iso' same
  · simp only [ppsWaitPck, ppsPut_cur, if_neg bad]
    exact left (s.ppsPut 5 byte) iso' same

theorem fidi_heard (h : PpsHeld s rsp got) (byte : UInt8) : (s.processBytePps byte).fidi =
    if ppsWhole (got ++ [byte]) then retuned rsp (got ++ [byte]) s.fidi else s.fidi := by
  by_cases last : s.gPps.state = .waitPck
  · obtain ⟨call, slot, message⟩ := h.complete last byte
    have entire : ppsWhole (got ++ [byte]) := by
      rw [message]
      exact whole _
    rw [if_pos entire, call, message]
    exact waitPck_fidi h.iso slot byte
  · obtain ⟨only, held⟩ := h.partway byte last
    have short : ¬ ppsWhole (got ++ [byte]) := held.seen ▸ ppsSeen_short held.place
    rw [if_neg short]
    exact only.fidi

end PpsHeld

/-- The sniffer with nothing left to do, the listener it follows and the ratio programmed. -/
structure Tuned (s : Sniffer) (l : Listener) (ratio : Option Nat) : Prop where
  quiet : s.Quiet
  follows : Follows s l
  ratio : s.fidi = ratio

namespace Tuned
variable {s : Sniffer} {l : Listener} {ratio : Option Nat} {rsp : Bool} {got : List UInt8}

theorem goto_finishPps (l : Listener) (phase : Phase) (rsp : Bool) (got : List UInt8) :
    (l.goto phase).finishPps rsp got = l.finishPps rsp got := by
  unfold Listener.finishPps
  by_cases good : xorAll got = 0 <;> cases rsp <;> simp only [good] <;> rfl

theorem hears_eq (quiet : s.Quiet) (byte : UInt8) :
    s.hears byte = s.handleByte byte ∧ (s.hears byte).Quiet := by
  have heard : s.hears byte = s.handleByte byte := feed_convert quiet byte
  exact ⟨heard, heard ▸ Quiet.stable.handleByte quiet byte⟩

/-- The first byte of a request, and of a response. -/
theorem begins (h : Tuned s l ratio)
    (phase : l.phase = .waitTpdu ∧ rsp = false ∨ l.phase = .waitPpsRsp ∧ rsp = true) :
    Tuned (s.hears 0xff) (l.goto (.inPps rsp [0xff])) ratio := by
  obtain ⟨heard, quiet⟩ := hears_eq h.quiet 0xff
  have followed := follows_handleByte h.follows 0xff
  rw [← heard] at followed
  obtain ⟨phase, rfl⟩ | ⟨phase, rfl⟩ := phase
  · have iso : s.isoState = .waitTpdu := by rw [h.follows.iso, phase, Phase.iso]
    refine ⟨quiet, by simpa [Listener.hear, phase] using followed, ?_⟩
    have entered : s.handleByte 0xff = (s.changeState .inPpsReq).processBytePps 0xff := by
      rw [handleByte, iso]
      rfl
    rw [heard, entered, changeState_ne (by simp [iso])]
    exact (ppsPut_only 0 0xff).fidi.trans h.ratio
  · have iso : s.isoState = .waitPpsRsp := by rw [h.follows.iso, phase, Phase.iso]
    refine ⟨quiet, by simpa [Listener.hear, phase] using followed, ?_⟩
    have entered : s.handleByte 0xff = (s.changeState .inPpsRsp).processBytePps 0xff := by
      rw [handleByte, iso]
      rfl
    rw [heard, entered, changeState_ne (by simp [iso])]
    exact (ppsPut_only 0 0xff).fidi.trans h.ratio

theorem goesOn (h : Tuned s l ratio) (phase : l.phase = .inPps rsp got) (byte : UInt8) :
    Tuned (s.hears byte)
      (if ppsWhole (got ++ [byte]) then l.finishPps rsp (got ++ [byte])
        else l.goto (.inPps rsp (got ++ [byte])))
      (if ppsWhole (got ++ [byte]) then retuned rsp (got ++ [byte]) ratio else ratio) := by
  obtain ⟨heard, quiet⟩ := hears_eq h.quiet byte
  have held : PpsHeld s rsp got := by
    have held := h.follows.2
    rwa [phase] at held
  have followed := follows_handleByte h.follows byte
  rw [← heard, Listener.hear, phase] at followed
  refine ⟨quiet, followed, ?_⟩
  have parsed : s.handleByte byte = s.processBytePps byte := by
    rw [handleByte, held.iso]
    cases rsp <;> rfl
  rw [heard, parsed, held.fidi_heard, h.ratio]

/-- The rest of a message; the induction is on the bytes to come. -/
theorem ends {rest : List UInt8} {byte : UInt8} (h : Tuned s l ratio)
    (phase : l.phase = .inPps rsp got) (started : 0 < got.length)
    (length : (got ++ byte :: rest).length = ppsLength ((got ++ byte :: rest).getD 1 0)) :
    Tuned ((byte :: rest).foldl hears s) (l.finishPps rsp (got ++ byte :: rest))
      (retuned rsp (got ++ byte :: rest) ratio) := by
  have next := h.goesOn phase byte
  induction rest generalizing got byte s l with
  | nil =>
    have entire : ppsWhole (got ++ [byte]) := ⟨by simp; omega, length.ge⟩
    rw [if_pos entire, if_pos entire] at next
    exact next
  | cons b rest ih =>
    have pps0 : (got ++ [byte]).getD 1 0 = (got ++ byte :: b :: rest).getD 1 0 := by
      have inside : 1 < (got ++ [byte]).length := by simpa using started
      rw [List.append_cons got byte (b :: rest), List.getD_eq_getElem?_getD,
        List.getD_eq_getElem?_getD, List.getElem?_append_left inside]
    have partway : ¬ ppsWhole (got ++ [byte]) := by
      rintro ⟨-, long⟩
      rw [pps0, ← length] at long
      simp at long
    rw [if_neg partway, if_neg partway] at next
    rw [List.append_cons got byte (b :: rest)] at length ⊢
    have heard := ih next rfl (by simp) length (next.goesOn rfl b)
    rw [goto_finishPps] at heard
    rw [List.foldl_cons]
    exact heard

/-- A message with its length as PPS0 says. -/
theorem message (h : Tuned s l ratio)
    (phase : l.phase = .waitTpdu ∧ rsp = false ∨ l.phase = .waitPpsRsp ∧ rsp = true)
    {m : List UInt8} (ppss : m.getD 0 0 = 0xff) (length : m.length = ppsLength (m.getD 1 0)) :
    Tuned (m.foldl hears s) (l.finishPps rsp m) (retuned rsp m ratio) := by
  have long : 3 ≤ m.length := by
    rw [length, ppsLength]
    omega
  cases m with
  | nil => cases long
  | cons first rest =>
    obtain rfl : first = 0xff := ppss
    cases rest with
    | nil =>
      rw [List.length_singleton] at long
      omega
    | cons byte rest =>
      have heard := (h.begins phase).ends rfl Nat.one_pos length
      rw [goto_finishPps] at heard
      rw [List.foldl_cons]
      exact heard

/-- A request and the same bytes in answer: the ratio and D follow them. -/
theorem exchange (h : Tuned s l ratio) (phase : l.phase = .waitTpdu) {m : List UInt8}
    (ppss : m.getD 0 0 = 0xff) (length : m.length = ppsLength (m.getD 1 0)) (pck : xorAll m = 0) :
    ∃ l', Tuned ((m ++ m).foldl hears s) l'
        (usFidiRatio ((ppsFidi m).toNat / 16) ((ppsFidi m).toNat % 16) <|> ratio) ∧
      l'.phase = .waitTpdu ∧ l'.wt = l.wt.update 0 (ppsD m) := by
  have request := h.message (.inl ⟨phase, rfl⟩) ppss length
  have asked : l.finishPps false m = (l.submit (.data .pps 0 m)).goto .waitPpsRsp := by
    simp [Listener.finishPps, pck]
  have still : retuned false m ratio = ratio := by simp [retuned]
  rw [asked, still] at request
  have response := request.message (.inr ⟨rfl, rfl⟩) ppss length
  have tuned : retuned true m ratio =
      (usFidiRatio ((ppsFidi m).toNat / 16) ((ppsFidi m).toNat % 16) <|> ratio) := by
    simp [retuned, pck]
  rw [tuned, ← List.foldl_append] at response
  refine ⟨_, response, ?_, ?_⟩
  · simp [Listener.finishPps, pck]
  · simp only [Listener.finishPps, pck]
    rfl

end Tuned

end Simtrace2
