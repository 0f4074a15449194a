import Simtrace2.Sniffer.Refinement

/-! One session heard twice, the second time through a USART of the other convention. -/
namespace Simtrace2
open Lib Sniffer

def inv (byte : UInt8) : UInt8 := (conventionConvertLut[byte.toNat]?).getD 0

theorem inv_inv (byte : UInt8) : inv (inv byte) = byte := convert_convert byte

def dataEntry (byte : UInt8) : UInt16 := rbuf16FDataByte ||| byte.toUInt16

/-- The next byte of the line, as it is received there, or a turn of the main loop. -/
def arrival (received : UInt8 → UInt8) : Option UInt8 → SniffInput
  | some byte => .entry (dataEntry (received byte))
  | none => .turn

def blankTs : SniffMsg → SniffMsg
  | .data .atr flags (_ :: data) => .data .atr flags (0 :: data)
  | msg => msg

/-- However its bytes arrive between the turns, the session gives the same messages
through both conventions, up to TS. -/
def Transparent (session : List UInt8) : Prop :=
  ∀ s : Sniffer, s.isoState = .waitAtr → s.conventionConvert = false → s.Quiet →
    ∀ w : List (Option UInt8), w.filterMap id = session →
      (run Sniffer.step s (w.map (arrival id))).sent.map blankTs =
        (run Sniffer.step s (w.map (arrival inv))).sent.map blankTs

def mirrorTs : List UInt8 → List UInt8
  | _ :: got => 0x23 :: got
  | [] => []

namespace Phase

def mirror : Phase → Phase
  | gotTs _ => gotTs 0x23
  | inAtr a => inAtr { a with got := mirrorTs a.got }
  | phase => phase

/-- TS has been heard. -/
def PastTs : Phase → Prop
  | reset | waitAtr => False
  | inAtr a => a.got ≠ []
  | gotTs _ | waitTpdu | inTpdu _ _ | inPps _ _ | waitPpsRsp => True

end Phase

/-- The two listeners after TS. -/
structure Mirror (l1 l2 : Listener) : Prop where
  phase : l2.phase = l1.phase.mirror
  past : l1.phase.PastTs
  convert : l1.convert = false ∧ l2.convert = true
  wt : l2.wt = l1.wt
  flags : l1.changeFlags = 0 ∧ l2.changeFlags = 0
  ring : ∃ bytes : List UInt8,
    l1.ring = bytes.map dataEntry ∧ l2.ring = bytes.map fun b => dataEntry (inv b)
  pool : l2.alloc = l1.alloc ∧ l2.asked = l1.asked
  sent : l1.sent.map blankTs = l2.sent.map blankTs

namespace Mirror
variable {l1 l2 : Listener}

theorem submit (h : Mirror l1 l2) {msg1 msg2 : SniffMsg} (same : blankTs msg1 = blankTs msg2) :
    Mirror (l1.submit msg1) (l2.submit msg2) := by
  refine ⟨h.phase, h.past, h.convert, h.wt, h.flags, h.ring, ?_, ?_⟩
  · simp [Listener.submit, h.pool]
  · simp only [Listener.submit, h.pool, List.map_append, h.sent]
    split <;> simp [same]

theorem goto (h : Mirror l1 l2) (phase : Phase) (past : phase.PastTs) :
    Mirror (l1.goto phase) (l2.goto phase.mirror) :=
  ⟨rfl, past, h.convert, h.wt, h.flags, h.ring, h.pool, h.sent⟩

theorem setWt (h : Mirror l1 l2) (wt : SniffWt) : Mirror { l1 with wt } { l2 with wt } :=
  ⟨h.phase, h.past, h.convert, rfl, h.flags, h.ring, h.pool, h.sent⟩

theorem blank_mirror (flags : UInt32) (got : List UInt8) :
    blankTs (.data .atr flags got) = blankTs (.data .atr flags (mirrorTs got)) := by
  cases got <;> rfl

theorem drop_mirror (got : List UInt8) : (mirrorTs got).drop 1 = got.drop 1 := by
  cases got <;> rfl

theorem length_mirror (got : List UInt8) : (mirrorTs got).length = got.length := by
  cases got <;> rfl

theorem append_mirror {got : List UInt8} (some : got ≠ []) (byte : UInt8) :
    mirrorTs got ++ [byte] = mirrorTs (got ++ [byte]) := by
  cases got with
  | nil => contradiction
  | cons ts got => rfl

theorem advance (h : Mirror l1 l2) {a : AtrReading} (some : a.got ≠ []) :
    Mirror (l1.advance a) (l2.advance { a with got := mirrorTs a.got }) := by
  simp only [Listener.advance, Listener.finishAtr]
  cases a.behind with
  | cons place behind => exact h.goto _ some
  | nil =>
    simp only
    split
    · exact h.goto _ some
    · rw [drop_mirror]
      exact (h.submit (blank_mirror _ _)).goto .waitTpdu trivial

theorem hearAtr (h : Mirror l1 l2) {a : AtrReading} (some : a.got ≠ []) (byte : UInt8) :
    Mirror (l1.hearAtr a byte) (l2.hearAtr { a with got := mirrorTs a.got } byte) := by
  have longer : a.got ++ [byte] ≠ [] := by simp
  simp only [Listener.hearAtr, append_mirror some, h.wt]
  cases a.place with
  | waitTd => exact h.advance (a := ⟨_, _, _, _, _⟩) longer
  | waitTc =>
    simp only
    split
    · exact (h.setWt _).advance (a := ⟨_, _, _, _, _⟩) longer
    · exact h.advance (a := ⟨_, _, _, _, _⟩) longer
  | waitTs | waitT0 | waitTa | waitTb | waitHist | waitTck =>
    exact h.advance (a := ⟨_, _, _, _, _⟩) longer

theorem malformed (h : Mirror l1 l2) (got : List UInt8) :
    Mirror (l1.malformed got) (l2.malformed got) :=
  (h.submit rfl).goto .waitTpdu trivial

theorem hearTpdu (h : Mirror l1 l2) (got : List UInt8) (byte : UInt8) (st : TpduSniffState) :
    Mirror (l1.hearTpdu got byte st) (l2.hearTpdu got byte st) := by
  have next (st : TpduSniffState) (got : List UInt8) :
      Mirror (l1.goto (.inTpdu st got)) (l2.goto (.inTpdu st got)) := h.goto _ trivial
  cases st with
  | cla | p1 | p2 | p3 | dataSingle => exact next _ _
  | ins =>
    simp only [Listener.hearTpdu]
    split
    · exact h.malformed got
    · exact next _ _
  | procedure =>
    simp only [Listener.hearTpdu, Listener.hearProcedure, Listener.hearSw1]
    split_ifs
    · exact h
    · exact next _ _
    · exact next _ _
    · exact next _ _
    · exact h.malformed got
  | sw1 =>
    simp only [Listener.hearTpdu, Listener.hearSw1]
    split
    · exact next _ _
    · exact h.malformed got
  | sw2 => exact (h.submit rfl).goto .waitTpdu trivial
  | dataRemaining =>
    simp only [Listener.hearTpdu]
    split <;> exact next _ _

theorem hearPps (h : Mirror l1 l2) (rsp : Bool) (got : List UInt8) :
    Mirror (l1.hearPps rsp got) (l2.hearPps rsp got) := by
  have sent (flags : UInt32) : Mirror (l1.submit (.data .pps flags got))
      (l2.submit (.data .pps flags got)) := h.submit rfl
  simp only [Listener.hearPps, Listener.finishPps]
  split_ifs
  · have agreed : Mirror
        ((l1.submit (.data .pps 0 got)).agree got) ((l2.submit (.data .pps 0 got)).agree got) := by
      have set := (sent 0).setWt (l1.wt.update 0 (ppsD got))
      simp only [Listener.agree, (sent 0).wt]
      exact set.submit rfl
    exact agreed.goto .waitTpdu trivial
  · exact (sent _).goto .waitPpsRsp trivial
  · exact (sent _).goto .waitTpdu trivial
  · exact h.goto (.inPps _ _) trivial

theorem hear (h : Mirror l1 l2) (byte : UInt8) : Mirror (l1.hear byte) (l2.hear byte) := by
  have past := h.past
  rw [Listener.hear, Listener.hear, h.phase]
  cases phase : l1.phase with
  | reset | waitAtr => exact (phase ▸ past).elim
  | gotTs ts => exact h.advance (a := ⟨_, _, _, _, _⟩) (by simp)
  | inAtr a =>
    have some : a.got ≠ [] := by rwa [phase] at past
    simp only [Phase.mirror, length_mirror]
    split
    · exact h
    · exact h.hearAtr some byte
  | waitTpdu =>
    simp only [Phase.mirror]
    split <;> exact h.goto _ trivial
  | inTpdu st got =>
    simp only [Phase.mirror]
    split
    · exact h
    · exact h.hearTpdu got byte st
  | inPps rsp got => exact h.hearPps rsp _
  | waitPpsRsp =>
    simp only [Phase.mirror]
    split
    · exact h.goto _ trivial
    · exact h

/-- A byte in the ring buffer is heard as the same byte on both sides. -/
theorem entry (h : Mirror l1 l2) (byte : UInt8) :
    Mirror (l1.entry (dataEntry byte)) (l2.entry (dataEntry (inv byte))) := by
  obtain ⟨data1, value1, noTimeout1⟩ := dataByte_entry byte
  obtain ⟨data2, value2, noTimeout2⟩ := dataByte_entry (inv byte)
  have same : l2.convertByte (inv byte) = l1.convertByte byte := by
    rw [Listener.convertByte, Listener.convertByte, if_pos h.convert.2,
      if_neg (by simp [h.convert.1])]
    exact inv_inv byte
  simp only [Listener.entry, dataEntry, data1, data2, value1, value2, noTimeout1, noTimeout2, same,
    ne_eq, not_false_eq_true, not_true, if_true, if_false]
  exact h.hear _

theorem flags_idle {l : Listener} (idle : l.changeFlags = 0) : l.flags = l := by
  rw [Listener.flags, if_pos idle]

theorem turn (h : Mirror l1 l2) : Mirror l1.turn l2.turn := by
  obtain ⟨bytes, ring1, ring2⟩ := h.ring
  rw [Listener.turn, Listener.turn, ring1, ring2]
  cases bytes with
  | nil =>
    simp only [List.map_nil]
    rw [flags_idle h.flags.1, flags_idle h.flags.2]
    exact h
  | cons byte bytes =>
    have taken : Mirror { l1 with ring := bytes.map dataEntry }
        { l2 with ring := bytes.map fun b => dataEntry (inv b) } :=
      ⟨h.phase, h.past, h.convert, h.wt, h.flags, ⟨bytes, rfl, rfl⟩, h.pool, h.sent⟩
    have heard := taken.entry byte
    simp only [List.map_cons]
    rw [flags_idle heard.flags.1, flags_idle heard.flags.2]
    exact heard

theorem step (h : Mirror l1 l2) (next : Option UInt8) :
    Mirror (l1.step (arrival id next)) (l2.step (arrival inv next)) := by
  cases next with
  | none => exact h.turn
  | some byte =>
    obtain ⟨bytes, ring1, ring2⟩ := h.ring
    simp only [arrival, Listener.step, ring1, ring2, List.length_map, id]
    split
    · exact ⟨h.phase, h.past, h.convert, h.wt, h.flags, ⟨bytes ++ [byte], by simp, by simp⟩, h.pool,
        h.sent⟩
    · exact h

theorem run (h : Mirror l1 l2) (w : List (Option UInt8)) :
    Mirror (run Listener.step l1 (w.map (arrival id)))
      (run Listener.step l2 (w.map (arrival inv))) := by
  rw [run_map, run_map]
  exact run_simulates Mirror (fun _ _ next h => h.step next) h w

end Mirror

/-- The two listeners before TS, with the bytes in their ring buffers. -/
structure BeforeTs (bytes : List UInt8) (l1 l2 : Listener) : Prop where
  phase : l1.phase = .waitAtr
  convert : l1.convert = false
  flags : l1.changeFlags = 0
  ring : l1.ring = bytes.map dataEntry
  same : l2 = { l1 with ring := bytes.map fun b => dataEntry (inv b) }

namespace BeforeTs
variable {l1 l2 : Listener} {bytes : List UInt8}

/-- A byte is lost only behind others. -/
theorem arrive (h : BeforeTs bytes l1 l2) (byte : UInt8) :
    ∃ bytes', (bytes' = bytes ++ [byte] ∨ bytes' = bytes ∧ bytes ≠ []) ∧
      BeforeTs bytes' (l1.step (arrival id (some byte))) (l2.step (arrival inv (some byte))) := by
  obtain ⟨phase, convert, flags, ring, rfl⟩ := h
  simp only [arrival, Listener.step, ring, List.length_map, id]
  split
  · exact ⟨bytes ++ [byte], .inl rfl, phase, convert, flags, by simp, by simp⟩
  · rename_i full
    refine ⟨bytes, .inr ⟨rfl, ?_⟩, phase, convert, flags, ring, rfl⟩
    rintro rfl
    simp [ring16Buflen] at full

theorem turn_empty (h : BeforeTs [] l1 l2) : l1.turn = l1 ∧ l2.turn = l2 := by
  obtain ⟨phase, convert, flags, ring, rfl⟩ := h
  simp only [Listener.turn, ring, List.map_nil]
  exact ⟨Mirror.flags_idle flags, Mirror.flags_idle flags⟩

theorem hear_entry {l : Listener} (convert : l.convert = false) (byte : UInt8) :
    l.entry (dataEntry byte) = l.hear byte := by
  obtain ⟨data, value, noTimeout⟩ := dataByte_entry byte
  have plain : l.convertByte byte = byte := by rw [Listener.convertByte, if_neg (by simp [convert])]
  simp only [Listener.entry, dataEntry, data, value, noTimeout, plain, ne_eq, not_false_eq_true,
    not_true, if_true, if_false]

theorem turn (h : BeforeTs (0x3b :: bytes) l1 l2) : Mirror l1.turn l2.turn := by
  obtain ⟨phase, convert, flags, ring, rfl⟩ := h
  have other : inv 0x3b = 0x23 := by decide
  simp only [Listener.turn, ring, List.map_cons]
  rw [hear_entry (by exact convert), hear_entry (by exact convert)]
  simp only [Listener.hear, phase, other]
  rw [Mirror.flags_idle, Mirror.flags_idle]
  · exact ⟨rfl, trivial, ⟨rfl, rfl⟩, rfl, ⟨flags, flags⟩, ⟨bytes, rfl, rfl⟩, ⟨rfl, rfl⟩, rfl⟩
  · exact flags
  · exact flags

theorem run (h : BeforeTs bytes l1 l2) (w : List (Option UInt8))
    (direct : ∀ ts, (bytes ++ w.filterMap id).head? = some ts → ts = 0x3b) :
    (run Listener.step l1 (w.map (arrival id))).sent.map blankTs =
      (run Listener.step l2 (w.map (arrival inv))).sent.map blankTs := by
  induction w generalizing l1 l2 bytes with
  | nil =>
    obtain ⟨-, -, -, -, rfl⟩ := h
    rfl
  | cons next w ih =>
    cases next with
    | some byte =>
      obtain ⟨bytes', kept, next⟩ := h.arrive byte
      apply ih next
      intro ts first
      apply direct ts
      obtain rfl | ⟨rfl, some⟩ := kept
      · simpa using first
      · cases bytes' with
        | nil => contradiction
        | cons _ _ => exact first
    | none =>
      cases bytes with
      | nil =>
        obtain ⟨stays1, stays2⟩ := h.turn_empty
        simp only [List.map_cons, Lib.run, arrival, Listener.step, stays1, stays2]
        exact ih h direct
      | cons ts bytes =>
        obtain rfl := direct ts rfl
        exact (h.turn.run w).sent

end BeforeTs

theorem direct_transparent (session : List UInt8) (direct : session.head? = some 0x3b) :
    Transparent session := by
  rintro s waits plain ⟨empty, idle⟩ w rfl
  have starts : Follows s { toCommon := s.common, phase := .waitAtr } := ⟨rfl, waits⟩
  have before : BeforeTs [] { toCommon := s.common, phase := .waitAtr }
      { toCommon := s.common, phase := .waitAtr } := by
    refine ⟨rfl, plain, idle, empty, ?_⟩
    simp [Sniffer.common, empty]
  rw [(starts.run _).sent, (starts.run _).sent]
  apply before.run w
  intro ts first
  rw [List.nil_append, direct] at first
  exact (Option.some.inj first).symm

/-! The main loop keeping up with the line. -/

def keptUp (session : List UInt8) : List (Option UInt8) := session.flatMap fun b => [some b, none]

theorem keptUp_bytes (session : List UInt8) : (keptUp session).filterMap id = session := by
  induction session with
  | nil => rfl
  | cons byte session ih => simpa [keptUp] using ih

theorem run_keptUp (s : Sniffer) (received : UInt8 → UInt8) (session : List UInt8) :
    run Sniffer.step s ((keptUp session).map (arrival received)) =
      run feed s (session.map received) := by
  induction session generalizing s with
  | nil => rfl
  | cons byte session ih => exact ih (s.feed (received byte))

theorem changeState_sent (s : Sniffer) (st : SniffState) : (s.changeState st).sent = s.sent := by
  unfold changeState
  split
  · rfl
  · cases st with
    | reset => exact congrArg Common.sent (updateFidi_common (s := s) 0x11)
    | waitAtr | inAtr | waitTpdu | inTpdu | inPpsReq | waitPpsRsp | inPpsRsp => rfl

theorem stable_sent (sent : List SniffMsg) : Stable fun s => sent <+: s.sent where
  changeState h st := by
    rw [changeState_sent]
    exact h
  submit h _ := h.trans (List.prefix_append _ _)
  wt h _ := h
  atr h _ _ _ := h
  fidi h _ := h
  pps h _ := h
  tpdu h _ _ := h

theorem run_feed_keeps {s : Sniffer} (quiet : s.Quiet) (bytes : List UInt8) :
    (run feed s bytes).Quiet ∧ s.sent <+: (run feed s bytes).sent := by
  have keep (t : Sniffer) (byte : UInt8) (h : t.Quiet ∧ s.sent <+: t.sent) :
      (t.feed byte).Quiet ∧ s.sent <+: (t.feed byte).sent := by
    rw [feed_eq h.1]
    exact ⟨Quiet.stable.handleByte h.1 _, (stable_sent s.sent).handleByte h.2 _⟩
  exact run_invariant _ keep ⟨quiet, List.prefix_rfl⟩ bytes

def listening : Sniffer := (Sniffer.init fun _ => true).changeState .waitAtr

theorem listening_quiet : listening.Quiet := ⟨rfl, rfl⟩

theorem first_sent {session p rest : List UInt8} {msg : SniffMsg} (received : UInt8 → UInt8)
    (split : session.map received = p ++ rest) (sent : (run feed listening p).sent = [msg]) :
    (run Sniffer.step listening ((keptUp session).map (arrival received))).sent.head? = some msg := by
  obtain ⟨more, grows⟩ := (run_feed_keeps (run_feed_keeps listening_quiet p).1 rest).2
  rw [run_keptUp, split, run_append, ← grows, sent]
  rfl

/-- TS = 3B is recognised through both conventions. TS = 3F arrives as 03 through the
other one, and the table of TS has 30 in its place. -/
theorem convention_transparent_iff (a : IsoAtr) (rest : List UInt8) (wf : a.WellFormed)
    (fits : a.bytes.length ≤ maxAtrSize) : Transparent (a.bytes ++ rest) ↔ a.ts = 0x3b := by
  constructor
  · intro transparent
    obtain direct | inverse := wf.ts
    · exact direct
    · exfalso
      have same := transparent listening rfl rfl listening_quiet (keptUp (a.bytes ++ rest))
        (keptUp_bytes _)
      obtain ⟨sniffed, -⟩ := atr_sniffed listening a rfl listening_quiet rfl rfl wf fits
      have logical := first_sent id (List.map_id (a.bytes ++ rest)) sniffed.sent
      have other : (run feed listening [0x03]).sent =
          [.data .atr sniffDataFlagErrorMalformed [0x03]] := by decide +kernel
      have image : (a.bytes ++ rest).map inv = [0x03] ++ ((a.bytes ++ rest).drop 1).map inv := by
        simp only [IsoAtr.bytes, inverse]
        rfl
      have raw := first_sent inv image other
      have heads := congrArg List.head? same
      rw [List.head?_map, List.head?_map, logical, raw] at heads
      simp only [IsoAtr.bytes, Option.map_some, blankTs] at heads
      cases damaged : a.damaged <;> simp [damaged] at heads
  · intro direct
    apply direct_transparent
    simp [IsoAtr.bytes, direct]

def inverseAtr : IsoAtr := ⟨0x3f, 0, [⟨none, none, none, none⟩], [], none⟩

theorem inverseAtr_wellFormed : inverseAtr.WellFormed := by
  refine ⟨.inr rfl, ⟨?_, rfl⟩, rfl, rfl⟩
  unfold AtrGroup.Announced
  decide

theorem inverseAtr_transparent_iff : Transparent (inverseAtr.bytes ++ []) ↔ inverseAtr.ts = 0x3b :=
  convention_transparent_iff inverseAtr [] inverseAtr_wellFormed (by decide)

theorem inverse_convention_missed : ¬ Transparent [0x3f, 0x00] := by
  intro transparent
  have same := transparent listening rfl rfl listening_quiet (keptUp [0x3f, 0x00])
    (keptUp_bytes _)
  revert same
  decide +kernel

end Simtrace2
