import Simtrace2.Proxy.Session

/-! The host's side of a command: what `osmo_apdu_segment_in2` takes it for, what the
real card is given, and what the host asks the firmware to send. -/
namespace Simtrace2
open Lib

namespace Command
variable (card : RealCard) (c : Command)

def answer : List UInt8 × UInt8 × UInt8 := card.answer c.hdr c.body

/-- The bytes a reader is to decode once the card has the command. -/
def reply : List UInt8 :=
  (if (c.answer card).1 = [] then [] else c.hdr.ins :: (c.answer card).1)
    ++ [(c.answer card).2.1, (c.answer card).2.2]

/-- All bytes a reader is to decode: INS first asks for the command data, if there is any. -/
def heard : List UInt8 := (if c.body = [] then [] else [c.hdr.ins]) ++ c.reply card

def replies : List TxRequest :=
  (if (c.answer card).1 = [] then [] else [osmoSt2CardemRequestPbAndTx c.hdr.ins (c.answer card).1])
    ++ [osmoSt2CardemRequestSwTx (c.answer card).2]

theorem replies_payload : (c.replies card).flatMap (·.payload) = c.reply card := by
  unfold replies reply
  split <;> simp [osmoSt2CardemRequestPbAndTx, osmoSt2CardemRequestSwTx]

theorem replies_length : (c.replies card).length ≤ 2 := by
  unfold replies
  split <;> simp

/-- SW1 is no NULL byte, and where response data could begin it is not INS. -/
def SwValid : Prop :=
  (c.answer card).2.1 ≠ iso78163PbNull ∧ ((c.answer card).1 = [] → (c.answer card).2.1 ≠ c.hdr.ins)

/-- The APDU cases that suit a command: 3 and 4 with data to be sent, 1 and 2 without. -/
def Fits (apduCase : UInt8) : Prop :=
  if c.body = [] then apduCase = 1 ∨ apduCase = 2 ∨ (apduCase = 3 ∨ apduCase = 4) ∧ c.hdr.p3 = 0
  else apduCase = 3 ∨ apduCase = 4

instance (apduCase : UInt8) : Decidable (c.Fits apduCase) := by
  unfold Fits
  infer_instance

end Command

structure Previous where
  hdr : TpduHdr
  sw : UInt8 × UInt8
  apduCase : UInt8
deriving DecidableEq, Repr

def OsmoApduContext.previous (ac : OsmoApduContext) : Previous := ⟨ac.hdr, ac.sw, ac.apduCase⟩

/-- The host takes this for the previous command, which was answered with 6CXX. -/
def Previous.repeated (prev : Previous) (hdr : TpduHdr) : Bool :=
  prev.sw.1 == 0x6c && (1 ≤ prev.apduCase && prev.apduCase < 4)
    && hdr.cla == prev.hdr.cla && hdr.ins == prev.hdr.ins
    && hdr.p1 == prev.hdr.p1 && hdr.p2 == prev.hdr.p2

def Previous.next (prev : Previous) (osimDetermineApduCase : TpduHdr → UInt8) (hdr : TpduHdr) : UInt8 :=
  if prev.repeated hdr then prev.apduCase else osimDetermineApduCase hdr

/-- Every command is taken for a case that suits it. -/
def Classified (osimDetermineApduCase : TpduHdr → UInt8) (card : RealCard) :
    Previous → List Command → Prop
  | _, [] => True
  | prev, c :: cs =>
    let apduCase := prev.next osimDetermineApduCase c.hdr
    c.Fits apduCase ∧ Classified osimDetermineApduCase card ⟨c.hdr, (c.answer card).2, apduCase⟩ cs

namespace Host
variable {osimDetermineApduCase : TpduHdr → UInt8} {card : RealCard} {c : Command} {h : Host}

structure Ready (h : Host) (prev : Previous) : Prop where
  runs : h.exited = false
  previous : h.ac.previous = prev

structure Awaits (h : Host) (c : Command) (apduCase : UInt8) : Prop where
  runs : h.exited = false
  ac : h.ac = { OsmoApduContext.zero with hdr := c.hdr, apduCase, lc := ⟨c.hdr.p3, 0⟩ }

theorem transceive_tpdu (conforms : c.Conforms) :
    (HostEnv.ofCard osimDetermineApduCase card).transceive c.tpdu = some (c.answer card) := by
  have size := conforms.few
  have response : (c.answer card).1.length ≤ 256 := by
    obtain empty | count := card.fits c.hdr c.body
    · simp [Command.answer, empty]
    · rw [Command.answer, count]
      exact c.hdr.le_le
  have here : card.answer (OsmoApduContext.readHdr c.tpdu) (c.tpdu.drop 5) = c.answer card := rfl
  simp only [HostEnv.ofCard, here]
  rw [if_pos]
  simp only [Command.tpdu, List.length_append, TpduHdr.bytes_length]
  omega

theorem txCapduToCard_eq (conforms : c.Conforms) (given : tpdu h.ac = c.tpdu)
    (hdr : h.ac.hdr = c.hdr) :
    h.txCapduToCard (.ofCard osimDetermineApduCase card) =
      ({ h with invoked := h.invoked ++ [c.tpdu], ac.sw := (c.answer card).2 }, c.replies card) := by
  simp only [txCapduToCard, given, transceive_tpdu conforms, hdr]
  rfl

theorem segment_hdr (ac prevAc : OsmoApduContext) (hdr : TpduHdr) {apduCase : UInt8}
    (here : ac.previous.next osimDetermineApduCase hdr = apduCase) :
    osmoApduSegmentIn2 osimDetermineApduCase ac prevAc hdr.bytes true =
      let ac' : OsmoApduContext := { OsmoApduContext.zero with hdr, apduCase }
      match ac'.startApdu hdr.bytes with
      | none => (ac', ac, none)
      | some ac' => (ac', ac, ac'.decision) := by
  subst here
  have same : OsmoApduContext.readHdr hdr.bytes = hdr := rfl
  have repeats : { OsmoApduContext.zero with hdr, apduCase := osimDetermineApduCase hdr }.repeats ac =
      ac.previous.repeated hdr := rfl
  simp only [osmoApduSegmentIn2, if_true, same, repeats, Previous.next]
  cases ac.previous.repeated hdr <;> rfl

theorem startApdu_dc (hdr : TpduHdr) {apduCase : UInt8} (lc : apduCase = 3 ∨ apduCase = 4) :
    { OsmoApduContext.zero with hdr, apduCase }.startApdu hdr.bytes =
      some { OsmoApduContext.zero with hdr, apduCase, lc := ⟨hdr.p3, 0⟩ } := by
  have plain : apduCase ≠ 1 ∧ apduCase ≠ 2 := by
    obtain rfl | rfl := lc <;> decide
  simp only [OsmoApduContext.startApdu, if_neg plain.1, if_neg plain.2, if_pos lc]
  simp [OsmoApduContext.startDc, splice]

theorem decision_dc {ac : OsmoApduContext} (lc : ac.apduCase = 3 ∨ ac.apduCase = 4) :
    ac.decision = some (if ac.lc.tot = ac.lc.cur then .txCapduToCard else .rxMoreCapduFromReader) := by
  have plain : ¬ (ac.apduCase = 1 ∨ ac.apduCase = 2) := by
    obtain lc | lc := lc <;> rw [lc] <;> decide
  simp only [OsmoApduContext.decision, if_neg plain, if_pos lc, OsmoApduContext.isDcComplete,
    beq_iff_eq]
  split <;> rfl

theorem segment_plain (ac prevAc : OsmoApduContext) (none' : c.body = [])
    {apduCase : UInt8} (here : ac.previous.next osimDetermineApduCase c.hdr = apduCase)
    (fits : c.Fits apduCase) :
    ∃ ac', osmoApduSegmentIn2 osimDetermineApduCase ac prevAc c.hdr.bytes true =
        (ac', ac, some .txCapduToCard) ∧
      ac'.hdr = c.hdr ∧ ac'.lc.tot = 0 ∧ ac'.apduCase = apduCase := by
  rw [segment_hdr ac prevAc c.hdr here]
  rw [Command.Fits, if_pos none'] at fits
  obtain rfl | rfl | ⟨lc, p3⟩ := fits
  · exact ⟨_, rfl, rfl, rfl, rfl⟩
  · exact ⟨_, rfl, rfl, rfl, rfl⟩
  · simp only [startApdu_dc c.hdr lc]
    rw [decision_dc lc, p3]
    exact ⟨_, rfl, rfl, rfl, rfl⟩

theorem segment_dc (ac prevAc : OsmoApduContext) (conforms : c.Conforms) (some' : c.body ≠ [])
    {apduCase : UInt8} (here : ac.previous.next osimDetermineApduCase c.hdr = apduCase)
    (fits : c.Fits apduCase) :
    osmoApduSegmentIn2 osimDetermineApduCase ac prevAc c.hdr.bytes true =
      ({ OsmoApduContext.zero with hdr := c.hdr, apduCase, lc := ⟨c.hdr.p3, 0⟩ }, ac,
        some .rxMoreCapduFromReader) := by
  rw [segment_hdr ac prevAc c.hdr here]
  rw [Command.Fits, if_neg some'] at fits
  have p3 : c.hdr.p3 ≠ 0 := by
    intro zero
    have count := conforms.body.resolve_left some'
    rw [zero] at count
    exact some' (List.length_eq_zero_iff.mp count)
  simp only [startApdu_dc c.hdr fits]
  rw [decision_dc fits, if_neg p3]

variable (osimDetermineApduCase) in
theorem segment_body (prevAc : OsmoApduContext) (conforms : c.Conforms) (some' : c.body ≠ [])
    {apduCase : UInt8} (fits : c.Fits apduCase) :
    ∃ ac', osmoApduSegmentIn2 osimDetermineApduCase
          { OsmoApduContext.zero with hdr := c.hdr, apduCase, lc := ⟨c.hdr.p3, 0⟩ } prevAc c.body
          false = (ac', prevAc, some .txCapduToCard) ∧
      ac'.hdr = c.hdr ∧ ac'.dc.take ac'.lc.tot.toNat = c.body ∧ ac'.apduCase = apduCase := by
  rw [Command.Fits, if_neg some'] at fits
  have count := conforms.body.resolve_left some'
  have plain : ¬ (apduCase = 1 ∨ apduCase = 2) := by
    obtain rfl | rfl := fits <;> decide
  have whole : UInt8.ofNat c.body.length = c.hdr.p3 := by
    rw [count, UInt8.ofNat_toNat]
  have size : { OsmoApduContext.zero with
      hdr := c.hdr, apduCase, lc := ⟨c.hdr.p3, 0⟩ }.cpyLen c.body.length = c.body.length := by
    simp [OsmoApduContext.cpyLen, count]
  simp only [osmoApduSegmentIn2, OsmoApduContext.moreDc, if_neg plain, if_pos fits, size, whole,
    Bool.false_eq_true, if_false, List.take_length]
  rw [decision_dc fits, if_pos (by simp)]
  refine ⟨_, rfl, rfl, ?_, rfl⟩
  simp [splice, ← count]

variable (osimDetermineApduCase card)

theorem header_plain {prev : Previous} (ready : h.Ready prev) (conforms : c.Conforms)
    (none' : c.body = []) (fits : c.Fits (prev.next osimDetermineApduCase c.hdr)) :
    ∃ h', h.processDoRxDa (.ofCard osimDetermineApduCase card) cemuDataFTpduHdr c.hdr.bytes =
        (h', c.replies card) ∧ h'.invoked = h.invoked ++ [c.tpdu] ∧
      h'.Ready ⟨c.hdr, (c.answer card).2, prev.next osimDetermineApduCase c.hdr⟩ := by
  have new : hasFlag cemuDataFTpduHdr cemuDataFTpduHdr = true := by decide
  have here : h.ac.previous.next osimDetermineApduCase c.hdr =
      prev.next osimDetermineApduCase c.hdr := by rw [ready.previous]
  obtain ⟨ac', segment, hdr, lc, apduCase⟩ := segment_plain h.ac h.prevAc none' here fits
  have env : (HostEnv.ofCard osimDetermineApduCase card).osimDetermineApduCase =
    osimDetermineApduCase := rfl
  simp only [processDoRxDa, ready.runs, env, new, segment, Bool.false_eq_true, if_false]
  refine ⟨_, txCapduToCard_eq conforms ?_ hdr, rfl, rfl, ?_⟩
  · rw [tpdu, hdr, lc, Command.tpdu, none']
    rfl
  · rw [OsmoApduContext.previous, hdr, apduCase]

theorem header_dc {prev : Previous} (ready : h.Ready prev) (conforms : c.Conforms)
    (some' : c.body ≠ []) (fits : c.Fits (prev.next osimDetermineApduCase c.hdr)) :
    ∃ h', h.processDoRxDa (.ofCard osimDetermineApduCase card) cemuDataFTpduHdr c.hdr.bytes =
        (h', [osmoSt2CardemRequestPbAndRx c.hdr.ins]) ∧ h'.invoked = h.invoked ∧
      h'.Awaits c (prev.next osimDetermineApduCase c.hdr) := by
  have new : hasFlag cemuDataFTpduHdr cemuDataFTpduHdr = true := by decide
  have here : h.ac.previous.next osimDetermineApduCase c.hdr =
      prev.next osimDetermineApduCase c.hdr := by rw [ready.previous]
  have segment := segment_dc h.ac h.prevAc conforms some' here fits
  have env : (HostEnv.ofCard osimDetermineApduCase card).osimDetermineApduCase =
    osimDetermineApduCase := rfl
  have more : (0 : UInt8) < c.hdr.p3 := by
    have count := conforms.body.resolve_left some'
    rw [UInt8.lt_iff_toNat_lt, ← count]
    exact List.length_pos_iff.mpr some'
  simp only [processDoRxDa, ready.runs, env, new, segment, Bool.false_eq_true, if_false]
  rw [if_pos more]
  exact ⟨_, rfl, rfl, rfl, rfl⟩

theorem body_dc {apduCase : UInt8} (awaits : h.Awaits c apduCase) (conforms : c.Conforms)
    (some' : c.body ≠ []) (fits : c.Fits apduCase) :
    ∃ h', h.processDoRxDa (.ofCard osimDetermineApduCase card) cemuDataFFinal c.body =
        (h', c.replies card) ∧ h'.invoked = h.invoked ++ [c.tpdu] ∧
      h'.Ready ⟨c.hdr, (c.answer card).2, apduCase⟩ := by
  have old : hasFlag cemuDataFFinal cemuDataFTpduHdr = false := by decide
  obtain ⟨ac', segment, hdr, data, here⟩ :=
    segment_body osimDetermineApduCase h.prevAc conforms some' fits
  have env : (HostEnv.ofCard osimDetermineApduCase card).osimDetermineApduCase =
    osimDetermineApduCase := rfl
  simp only [processDoRxDa, awaits.runs, awaits.ac, env, old, segment, Bool.false_eq_true, if_false]
  refine ⟨_, txCapduToCard_eq conforms ?_ hdr, rfl, rfl, ?_⟩
  · rw [tpdu, hdr, data]
    rfl
  · rw [OsmoApduContext.previous, hdr, here]

end Host

/-- The reply to a command as far as the card has not put it on the line, with what the
reader waits for, whether its first message is partially sent, and a bound for the bytes
that are left. -/
inductive Replying (c : Command) (response : List UInt8) (sw : UInt8 × UInt8) :
    List TxRequest → ReaderPhase → Bool → Nat → Prop
  | opens (some' : response ≠ []) :
    Replying c response sw
      [osmoSt2CardemRequestPbAndTx c.hdr.ins response, osmoSt2CardemRequestSwTx sw]
      (.procedure []) false 600
  | data {left : List UInt8} (some' : left ≠ []) (few : left.length ≤ 256) :
    Replying c response sw [⟨cemuDataFPbAndTx, left⟩, osmoSt2CardemRequestSwTx sw]
      (.data left.length) true (300 + left.length)
  | status {phase : ReaderPhase} (waits : phase = .sw1 ∨ phase = .procedure [] ∧ sw.1 ≠ c.hdr.ins) :
    Replying c response sw [osmoSt2CardemRequestSwTx sw] phase false 200
  | last :
    Replying c response sw [⟨cemuDataFPbAndTx ||| cemuDataFFinal, [sw.2]⟩] .sw2 true 100

namespace Replying
variable {c : Command} {response : List UInt8} {sw : UInt8 × UInt8} {owed : List TxRequest}
  {phase : ReaderPhase} {begun : Bool} {k : Nat}

theorem pos (h : Replying c response sw owed phase begun k) : 0 < k := by
  cases h <;> omega

theorem ne_nil (h : Replying c response sw owed phase begun k) : owed ≠ [] := by
  cases h <;> exact List.cons_ne_nil _ _

theorem null (h : Replying c response sw owed phase false k) {r : Reader} {cs : List Command}
    (todo : r.todo = c :: cs) (here : r.phase = phase) : r.hears iso78163PbNull = r := by
  cases h with
  | opens => simp [Reader.hears, todo, here]
  | status waits =>
    obtain rfl | ⟨rfl, _⟩ := waits <;> simp [Reader.hears, todo, here]

theorem byte {req : TxRequest} {rest : List TxRequest} {byte : UInt8} {bytes : List UInt8}
    (h : Replying c response sw (req :: rest) phase begun k) (shape : req.payload = byte :: bytes)
    (ins : c.hdr.ins ≠ iso78163PbNull) (sw1 : sw.1 ≠ iso78163PbNull)
    (length : response ≠ [] → response.length = c.hdr.le)
    {r : Reader} {cs : List Command} (todo : r.todo = c :: cs) (here : r.phase = phase) :
    hasFlag req.flags cemuDataFPbAndRx = false ∧
      ((rest = [] ∧ bytes = [] ∧ hasFlag req.flags cemuDataFFinal = true ∧
          r.hears byte = ⟨cs, Reader.begin cs, r.decoded ++ [byte]⟩) ∨
        ∃ phase' k', k' < k ∧ (bytes ≠ [] ∨ hasFlag req.flags cemuDataFFinal = false) ∧
          r.hears byte = ⟨c :: cs, phase', r.decoded ++ [byte]⟩ ∧
          Replying c response sw (if bytes = [] then rest else ⟨req.flags, bytes⟩ :: rest) phase'
            (!bytes.isEmpty) k') := by
  cases h with
  | opens some' =>
    obtain ⟨rfl, rfl⟩ := List.cons.inj shape
    have few : response.length ≤ 256 := by
      rw [length some']
      exact c.hdr.le_le
    have more : (!response.isEmpty) = true := by simpa using some'
    refine ⟨pbAndTx_flags.1, .inr ⟨.data response.length, 300 + response.length, by omega, .inl some', ?_, ?_⟩⟩
    · simp [Reader.hears, todo, here, ins, length some']
    · rw [if_neg some', more]
      exact .data some' few
  | @data left some' few =>
    subst shape
    rw [List.length_cons] at few here
    refine ⟨pbAndTx_flags.1, .inr ?_⟩
    by_cases done : bytes = []
    · subst done
      refine ⟨.sw1, 200, by omega, .inr pbAndTx_flags.2, ?_, ?_⟩
      · simp [Reader.hears, todo, here]
      · rw [if_pos rfl]
        exact .status (.inl rfl)
    · have more : (!bytes.isEmpty) = true := by simpa using done
      have count : 0 < bytes.length := List.length_pos_iff.mpr done
      refine ⟨.data bytes.length, 300 + bytes.length, by simp, .inl done, ?_, ?_⟩
      · simp [Reader.hears, todo, here, done]
      · rw [if_neg done, more]
        exact .data done (by omega)
  | status waits =>
    obtain ⟨rfl, rest⟩ := List.cons.inj shape
    subst rest
    refine ⟨swTx_flags.1, .inr ⟨.sw2, 100, by omega, .inl (by simp), ?_, .last⟩⟩
    obtain rfl | ⟨rfl, other⟩ := waits
    · simp [Reader.hears, todo, here, sw1]
    · simp [Reader.hears, todo, here, sw1, other]
  | last =>
    obtain ⟨rfl, rest⟩ := List.cons.inj shape
    subst rest
    exact ⟨swTx_flags.1, .inl ⟨rfl, rfl, swTx_flags.2, by simp [Reader.hears, todo, here]⟩⟩

theorem start (card : RealCard) (c : Command) (valid : c.SwValid card) :
    ∃ k ≤ 600,
      Replying c (c.answer card).1 (c.answer card).2 (c.replies card) (.procedure []) false k := by
  by_cases empty : (c.answer card).1 = []
  · refine ⟨200, by omega, ?_⟩
    rw [Command.replies, if_pos empty]
    exact .status (.inr ⟨rfl, valid.2 empty⟩)
  · refine ⟨600, Nat.le_refl _, ?_⟩
    rw [Command.replies, if_neg empty]
    exact .opens empty

end Replying
end Simtrace2
