import Simtrace2.Lib.Bytes

/-! A command of the card reader with T=0 (`iso7816_4.c`): the procedure bytes of the card say whether
the data go over at once, byte by byte or not at all. -/
namespace Simtrace2
open Lib

/-- A character of the card, with the errors in the status register behind it. -/
structure CardChar where
  byte : UInt8
  status : Nat
deriving DecidableEq, Repr

/-- `ISO7816_GetChar`. The status is 0 where a character has come without an error and where none has
come in time, which leaves the variable as it was. -/
def iso7816GetChar : List CardChar → Nat × Option UInt8 × List CardChar
  | [] => (0, none, [])
  | c :: card => (c.status, some c.byte, card)

def isoNullVal : UInt8 := 0x60

inductive CmdCase where
  | case1 | case2 | case3
deriving DecidableEq, Repr

/-- The four structures of a command, with NeNc. -/
def cmdStructure (apdu : Nat → UInt8) (wLength : Nat) : CmdCase × UInt16 :=
  let extended : UInt16 := (apdu 5).toUInt16 * 256 + (apdu 6).toUInt16
  let p3 : UInt16 := (apdu 4).toUInt16
  if wLength = 4 then (.case1, 0)
  else if wLength = 5 then (.case2, if p3 = 0 then 256 else p3)
  else if wLength = 6 then (.case3, p3)
  else if wLength = 7 then if p3 = 0 then (.case2, extended) else (.case3, p3)
  else if p3 = 0 then (.case3, extended) else (.case3, p3)

/-- Within `ISO7816_XfrBlockTPDU_T0`. `message` has what was written to the message's bytes so far;
`sendStatus` are the errors behind each character that is sent. -/
structure TpduT0 where
  card : List CardChar
  sendStatus : Nat → Nat
  neNc : UInt16
  indexApdu : UInt16
  message : List (Option UInt8)
  sw1 : Bool
  procByte : UInt8
  sent : List UInt8

namespace TpduT0

/-- `ISO7816_SendChar` of the next byte of the command. -/
def sendApdu (apdu : Nat → UInt8) (s : TpduT0) : Nat × TpduT0 :=
  (s.sendStatus s.sent.length,
    { s with sent := s.sent ++ [apdu s.indexApdu.toNat], indexApdu := s.indexApdu + 1 })

/-- `ISO7816_GetChar(&pMessage[indexMsg++])` -/
def getMessage (s : TpduT0) : Nat × TpduT0 :=
  let (status, byte, card) := iso7816GetChar s.card
  (status, { s with card, message := s.message ++ [byte] })

theorem pred_lt {n : UInt16} (some' : n - 1 ≠ 0) : (n - 1 - 1).toNat < (n - 1).toNat := by
  have positive : 0 < (n - 1).toNat := by
    rcases Nat.eq_zero_or_pos (n - 1).toNat with zero | positive
    · exact absurd (UInt16.toNat_inj.mp zero) some'
    · exact positive
  have bound := (n - 1).toNat_lt
  rw [UInt16.toNat_sub, UInt16.toNat_one]
  omega

/-- `do … while ((0 != --NeNc) && (status == 0))` -/
def receiveAll (s : TpduT0) : Nat × TpduT0 :=
  let (status, t) := s.getMessage
  if s.neNc - 1 ≠ 0 ∧ status = 0 then
    receiveAll { t with neNc := s.neNc - 1 }
  else (status, { t with neNc := s.neNc - 1 })
termination_by (s.neNc - 1).toNat
decreasing_by
  rename_i more
  exact pred_lt more.1

/-- `do … while (0 != --NeNc)` -/
def sendAll (apdu : Nat → UInt8) (s : TpduT0) : TpduT0 :=
  let (_, t) := s.sendApdu apdu
  if s.neNc - 1 ≠ 0 then sendAll apdu { t with neNc := s.neNc - 1 }
  else { t with neNc := s.neNc - 1 }
termination_by (s.neNc - 1).toNat
decreasing_by
  rename_i more
  exact pred_lt more

/-- How a turn of the loop over the procedure bytes ends. -/
inductive Turn where
  | next (s : TpduT0)
  | break (s : TpduT0)
  | return (status : Nat) (s : TpduT0)

def turn (apdu : Nat → UInt8) (cmdCase : CmdCase) (s : TpduT0) : Turn :=
  let (status, byte, card) := iso7816GetChar s.card
  let s := { s with card, procByte := byte.getD s.procByte }
  if status ≠ 0 then .return status s
  else if s.procByte = isoNullVal then .next s
  else if s.procByte &&& 0xf0 = 0x60 ∨ s.procByte &&& 0xf0 = 0x90 then .next { s with sw1 := true }
  else if apdu 1 = s.procByte then
    if cmdCase = .case2 then
      let (status, s) := s.receiveAll
      if status ≠ 0 then .return status s else .next s
    else .next (s.sendAll apdu)
  else if apdu 1 = s.procByte ^^^ 0xff then
    let (status, s) := if cmdCase = .case2 then s.getMessage else s.sendApdu apdu
    if status ≠ 0 then .return status s else .next { s with neNc := s.neNc - 1 }
  else .break s

/-- The status bytes, and the length behind them. -/
def finish (s : TpduT0) : Nat × Option Nat × TpduT0 :=
  let (status, s) :=
    if s.sw1 then (0, { s with message := s.message ++ [some s.procByte] }) else s.getMessage
  if status ≠ 0 then (status, none, s)
  else
    let (status, s) := s.getMessage
    if status ≠ 0 then (status, none, s) else (status, some (s.message.length % 2 ^ 16), s)

/-- The loop over the procedure bytes and what is behind it. -/
def loop (apdu : Nat → UInt8) (cmdCase : CmdCase) : Nat → TpduT0 → Option (Nat × Option Nat × TpduT0)
  | 0, _ => none
  | fuel + 1, s =>
    match s.turn apdu cmdCase with
    | .return status s => some (status, none, s)
    | .break s => some s.finish
    | .next s => if s.neNc ≠ 0 then loop apdu cmdCase fuel s else some s.finish

/-- Behind the header; `stale` is what the variable for the procedure byte held before. -/
def start (apdu : Nat → UInt8) (wLength : Nat) (card : List CardChar) (sendStatus : Nat → Nat)
    (stale : UInt8) : TpduT0 :=
  { card, sendStatus
    neNc := (cmdStructure apdu wLength).2
    indexApdu := 5
    message := []
    sw1 := false
    procByte := stale
    sent := (List.range 5).map apdu }

end TpduT0

/-- `ISO7816_XfrBlockTPDU_T0`: its result, what it writes to the length, and the state it leaves. The
loop may turn for ever. -/
def iso7816XfrBlockTpduT0 (fuel : Nat) (apdu : Nat → UInt8) (wLength : Nat) (card : List CardChar)
    (sendStatus : Nat → Nat) (stale : UInt8) : Option (Nat × Option Nat × TpduT0) :=
  (TpduT0.start apdu wLength card sendStatus stale).loop apdu (cmdStructure apdu wLength).1 fuel

/-! ### What a card answers -/

/-- A procedure byte of a card: it takes its time, transfers one byte, or all that are left. -/
inductive ProcedureByte where
  | null | one | all
deriving DecidableEq, Repr

namespace ProcedureByte

def byte (ins : UInt8) : ProcedureByte → UInt8
  | .null => isoNullVal
  | .one => ins ^^^ 0xff
  | .all => ins

/-- The data that go over behind it, and those that are left. -/
def moved : ProcedureByte → List UInt8 → List UInt8
  | .null, _ => []
  | .one, data => data.take 1
  | .all, data => data

def left : ProcedureByte → List UInt8 → List UInt8
  | .null, data => data
  | .one, data => data.drop 1
  | .all, _ => []

/-- What the card sends, with the data if it is the card's. -/
def bytes (ins : UInt8) (cards : Bool) : List ProcedureByte → List UInt8 → List UInt8
  | [], _ => []
  | p :: ps, data =>
    p.byte ins :: (if cards then p.moved data else []) ++ bytes ins cards ps (p.left data)

def transferred : List ProcedureByte → List UInt8 → List UInt8
  | [], _ => []
  | p :: ps, data => p.moved data ++ transferred ps (p.left data)

/-- Only data that are left are asked for. -/
def Allowed : List ProcedureByte → List UInt8 → Prop
  | [], _ => True
  | p :: ps, data => (data = [] → p = .null) ∧ Allowed ps (p.left data)

/-- All the data are transferred, and nothing comes behind them. -/
def Fills : List ProcedureByte → List UInt8 → Prop
  | [], data => data = []
  | p :: ps, data => data ≠ [] ∧ Fills ps (p.left data)

theorem moved_left (p : ProcedureByte) (data : List UInt8) : p.moved data ++ p.left data = data := by
  cases p with
  | null => rfl
  | one => exact List.take_append_drop 1 data
  | all => exact List.append_nil data

@[simp] theorem transferred_nil (ps : List ProcedureByte) : transferred ps [] = [] := by
  induction ps with
  | nil => rfl
  | cons p ps ih => cases p <;> exact ih

theorem transferred_fills {ps : List ProcedureByte} {data : List UInt8} (fills : Fills ps data) :
    transferred ps data = data := by
  induction ps generalizing data with
  | nil => exact fills.symm
  | cons p ps ih => rw [transferred, ih fills.2, moved_left]

end ProcedureByte

/-- An answer with its status word, whose first byte is told from an instruction by its high nibble. -/
structure CardAnswer where
  parts : List ProcedureByte
  sw1 : UInt8
  sw2 : UInt8
  status : sw1 ≠ isoNullVal ∧ (sw1 &&& 0xf0 = 0x60 ∨ sw1 &&& 0xf0 = 0x90)

/-- Every character comes in time and without an error. -/
def okChars (bytes : List UInt8) : List CardChar := bytes.map fun byte => ⟨byte, 0⟩

namespace CardAnswer

def bytes (a : CardAnswer) (ins : UInt8) (cards : Bool) (data : List UInt8) : List UInt8 :=
  ProcedureByte.bytes ins cards a.parts data ++ [a.sw1, a.sw2]

/-- No status word while data are left, and no NULL behind them: without any data, one at most. -/
def Plain (a : CardAnswer) (data : List UInt8) : Prop :=
  if data = [] then a.parts.length ≤ 1 else ProcedureByte.Fills a.parts data

end CardAnswer

/-! ### What the reader makes of it -/

/-- An instruction byte, which is neither the NULL nor the first of a status word, nor is its
complement. -/
def ValidIns (ins : UInt8) : Prop := ins &&& 0xf0 ≠ 0x60 ∧ ins &&& 0xf0 ≠ 0x90

instance (ins : UInt8) : Decidable (ValidIns ins) := inferInstanceAs (Decidable (_ ∧ _))

theorem ValidIns.ack {ins : UInt8} (valid : ValidIns ins) : ins ≠ isoNullVal := by
  rintro rfl
  exact valid.1 (by decide)

theorem ValidIns.compl {ins : UInt8} (valid : ValidIns ins) : ins ^^^ 0xff ≠ isoNullVal ∧
    ¬ ((ins ^^^ 0xff) &&& 0xf0 = 0x60 ∨ (ins ^^^ 0xff) &&& 0xf0 = 0x90) ∧ ins ≠ ins ^^^ 0xff ∧
      ins = ins ^^^ 0xff ^^^ 0xff := by
  revert valid
  revert ins
  apply forall_byte
  decide +kernel

theorem pred_toNat {n : UInt16} {k : Nat} (h : n.toNat = k + 1) : (n - 1).toNat = k := by
  have bound := n.toNat_lt
  rw [UInt16.toNat_sub, UInt16.toNat_one]
  omega

namespace TpduT0
variable {apdu : Nat → UInt8} {s : TpduT0} {data : List UInt8} {rest : List CardChar}

theorem receiveAll_eq (some' : 0 < data.length) (left : s.neNc.toNat = data.length)
    (card : s.card = okChars data ++ rest) :
    s.receiveAll = (0, { s with card := rest, message := s.message ++ data.map some, neNc := 0 }) := by
  induction data generalizing s with
  | nil => cases some'
  | cons d data ih =>
    have pred := pred_toNat left
    have get : s.getMessage =
        (0, { s with card := okChars data ++ rest, message := s.message ++ [some d] }) := by
      rw [getMessage, card]
      rfl
    rw [receiveAll, get]
    cases data with
    | nil =>
      have last : s.neNc - 1 = 0 := UInt16.toNat_inj.mp pred
      simp [last, okChars]
    | cons e data =>
      have more : s.neNc - 1 ≠ 0 := by
        intro last
        rw [last] at pred
        cases pred
      simp only [more, ne_eq, not_false_eq_true, and_self, if_true]
      rw [ih (Nat.succ_pos _) pred rfl]
      simp

theorem sendAll_eq (some' : 0 < data.length) (left : s.neNc.toNat = data.length)
    (few : s.indexApdu.toNat + data.length < 2 ^ 16)
    (held : ∀ i (h : i < data.length), apdu (s.indexApdu.toNat + i) = data[i]) :
    s.sendAll apdu = { s with
      sent := s.sent ++ data, indexApdu := s.indexApdu + UInt16.ofNat data.length, neNc := 0 } := by
  induction data generalizing s with
  | nil => cases some'
  | cons d data ih =>
    have pred := pred_toNat left
    have first := held 0 (Nat.succ_pos _)
    rw [Nat.add_zero, List.getElem_cons_zero] at first
    rw [sendAll, sendApdu, first]
    cases data with
    | nil =>
      have last : s.neNc - 1 = 0 := UInt16.toNat_inj.mp pred
      simp [last]
    | cons e data =>
      have more : s.neNc - 1 ≠ 0 := by
        intro last
        rw [last] at pred
        cases pred
      rw [List.length_cons] at few
      have step : (s.indexApdu + 1).toNat = s.indexApdu.toNat + 1 := by
        rw [UInt16.toNat_add, UInt16.toNat_one]
        omega
      simp only [more, ne_eq, not_false_eq_true, if_true]
      rw [ih (Nat.succ_pos _) pred (by rw [step]; omega)]
      · have count : s.indexApdu + 1 + UInt16.ofNat (e :: data).length =
            s.indexApdu + UInt16.ofNat (d :: e :: data).length := by
          rw [List.length_cons (a := d), Nat.add_comm (e :: data).length, UInt16.ofNat_add,
            ← UInt16.add_assoc]
          rfl
        simp only [count, List.append_assoc, List.singleton_append]
      · intro i inside
        have later := held (i + 1) (Nat.succ_lt_succ inside)
        rw [step, Nat.add_assoc, Nat.add_comm 1]
        exact later

/-- At the loop, with data still to go over. -/
structure Left (apdu : Nat → UInt8) (cards : Bool) (s : TpduT0) (data : List UInt8) : Prop where
  quiet : ∀ i, s.sendStatus i = 0
  neNc : s.neNc.toNat = data.length
  few : s.indexApdu.toNat + data.length < 2 ^ 16
  held : cards = false → ∀ i (h : i < data.length), apdu (s.indexApdu.toNat + i) = data[i]
  unended : s.sw1 = false

/-- From one turn to the next these data have gone over. -/
structure Moves (cards : Bool) (s t : TpduT0) (moved : List UInt8) : Prop where
  message : t.message = s.message ++ if cards then moved.map some else []
  sent : t.sent = s.sent ++ if cards then [] else moved

/-- The case of a command and whose its data are. -/
def Whose (cmdCase : CmdCase) (cards : Bool) : Prop := cmdCase = .case2 ↔ cards = true

section turn
variable {cmdCase : CmdCase} {cards : Bool} (whose : Whose cmdCase cards) (h : Left apdu cards s data)
include h

theorem turn_null (cmdCase : CmdCase) (card : s.card = okChars [isoNullVal] ++ rest) :
    ∃ t, s.turn apdu cmdCase = .next t ∧ t.card = rest ∧ Left apdu cards t data ∧
      Moves cards s t [] := by
  refine ⟨{ s with card := rest, procByte := isoNullVal }, ?_, rfl, ⟨h.quiet, h.neNc, h.few, h.held,
    h.unended⟩, ?_⟩
  · simp [turn, card, okChars, iso7816GetChar]
  · constructor <;> simp

variable (valid : ValidIns (apdu 1))
include valid whose

/-- The instruction byte asks for all the data that are left. -/
theorem turn_all (some' : data ≠ [])
    (card : s.card = okChars (apdu 1 :: if cards then data else []) ++ rest) :
    ∃ t, s.turn apdu cmdCase = .next t ∧ t.card = rest ∧ Left apdu cards t [] ∧
      Moves cards s t data := by
  have positive := List.length_pos_iff.mpr some'
  have ack := valid.ack
  cases cards with
  | true =>
    have case2 : cmdCase = .case2 := whose.mpr rfl
    have received := receiveAll_eq (s := { s with
      card := okChars data ++ rest, procByte := apdu 1 }) positive h.neNc rfl
    refine ⟨{ s with
      card := rest, procByte := apdu 1, message := s.message ++ data.map some, neNc := 0 }, ?_, rfl,
      ⟨h.quiet, rfl, ?_, fun none => absurd none (by decide), h.unended⟩, ?_⟩
    · have here : s.card = ⟨apdu 1, 0⟩ :: (okChars data ++ rest) := card
      simp [turn, here, iso7816GetChar, ack, valid.1, valid.2, case2, received]
    · have few := h.few
      exact Nat.lt_of_le_of_lt (Nat.le_add_right ..) few
    · constructor <;> simp
  | false =>
    have other : cmdCase ≠ .case2 := fun case2 => absurd (whose.mp case2) (by decide)
    have sent := sendAll_eq (s := { s with card := rest, procByte := apdu 1 }) positive h.neNc h.few
      (h.held rfl)
    refine ⟨{ s with
      card := rest, procByte := apdu 1, sent := s.sent ++ data, neNc := 0
      indexApdu := s.indexApdu + UInt16.ofNat data.length }, ?_, rfl,
      ⟨h.quiet, rfl, ?_, ?_, h.unended⟩, ?_⟩
    · have here : s.card = ⟨apdu 1, 0⟩ :: rest := card
      simp [turn, here, iso7816GetChar, ack, valid.1, valid.2, other, sent]
    · exact UInt16.toNat_lt _
    · intro _ i none
      cases none
    · constructor <;> simp

/-- Its complement asks for one byte. -/
theorem turn_one {d : UInt8} {ds : List UInt8} (cons : data = d :: ds)
    (card : s.card = okChars ((apdu 1 ^^^ 0xff) :: if cards then [d] else []) ++ rest) :
    ∃ t, s.turn apdu cmdCase = .next t ∧ t.card = rest ∧ Left apdu cards t ds ∧
      Moves cards s t [d] := by
  subst cons
  obtain ⟨null, status, other, back⟩ := valid.compl
  have pred := pred_toNat h.neNc
  have few := h.few
  rw [List.length_cons] at few
  cases cards with
  | true =>
    have case2 : cmdCase = .case2 := whose.mpr rfl
    refine ⟨{ s with
      card := rest, procByte := apdu 1 ^^^ 0xff, message := s.message ++ [some d], neNc := s.neNc - 1 },
      ?_, rfl, ⟨h.quiet, pred, ?_, fun none => absurd none (by decide), h.unended⟩, ?_⟩
    · have here : s.card = ⟨apdu 1 ^^^ 0xff, 0⟩ :: ⟨d, 0⟩ :: rest := card
      simp only [turn, here, iso7816GetChar, Option.getD_some, ne_eq, not_true_eq_false, if_false, null,
        status, other, ← back, if_true, case2, getMessage]
    · exact Nat.lt_of_le_of_lt (Nat.le_succ _) few
    · constructor <;> simp
  | false =>
    have case3 : cmdCase ≠ .case2 := fun case2 => absurd (whose.mp case2) (by decide)
    have first := h.held rfl 0 (Nat.succ_pos _)
    rw [Nat.add_zero, List.getElem_cons_zero] at first
    have step : (s.indexApdu + 1).toNat = s.indexApdu.toNat + 1 := by
      rw [UInt16.toNat_add, UInt16.toNat_one]
      omega
    refine ⟨{ s with
      card := rest, procByte := apdu 1 ^^^ 0xff, sent := s.sent ++ [d], neNc := s.neNc - 1
      indexApdu := s.indexApdu + 1 }, ?_, rfl, ⟨h.quiet, pred, ?_, fun _ i inside => ?_, h.unended⟩, ?_⟩
    · have here : s.card = ⟨apdu 1 ^^^ 0xff, 0⟩ :: rest := card
      simp only [turn, here, iso7816GetChar, Option.getD_some, ne_eq, not_true_eq_false, if_false, null,
        status, other, ← back, if_true, case3, sendApdu, h.quiet, first]
    · simp only [step]
      omega
    · have later := h.held rfl (i + 1) (Nat.succ_lt_succ inside)
      simp only [step]
      rw [Nat.add_assoc, Nat.add_comm 1]
      exact later
    · constructor <;> simp

/-- A procedure byte that the card may send, and what goes over behind it. -/
theorem turn_part (p : ProcedureByte) (allowed : data = [] → p = .null)
    (card : s.card = okChars (p.byte (apdu 1) :: if cards then p.moved data else []) ++ rest) :
    ∃ t, s.turn apdu cmdCase = .next t ∧ t.card = rest ∧ Left apdu cards t (p.left data) ∧
      Moves cards s t (p.moved data) := by
  cases p with
  | null =>
    apply turn_null h cmdCase
    cases cards <;> exact card
  | one =>
    cases cons : data with
    | nil => cases allowed cons
    | cons d ds =>
      rw [cons] at card
      exact turn_one whose h valid cons card
  | all =>
    have some' : data ≠ [] := fun none => by cases allowed none
    exact turn_all whose h valid some' card

end turn

/-! ### A card that is silent -/

theorem receiveAll_silent (silent : s.card = []) : s.receiveAll.2.card = [] := by
  fun_induction receiveAll s with
  | case1 s status t get more ih =>
    apply ih
    rw [getMessage, silent] at get
    cases get
    rfl
  | case2 s status t get last =>
    rw [getMessage, silent] at get
    cases get
    rfl

theorem sendAll_card : (s.sendAll apdu).card = s.card := by
  fun_induction sendAll apdu s with
  | case1 s status t send more ih =>
    rw [ih]
    cases send
    rfl
  | case2 s status t send last =>
    cases send
    rfl

/-- With one character at most, a turn leaves none. -/
def Turn.Silent : Turn → Prop
  | .next t => t.card = []
  | .break t => t.card = []
  | .return status _ => status ≠ 0

theorem turn_silent (cmdCase : CmdCase) (few : s.card.length ≤ 1) : (s.turn apdu cmdCase).Silent := by
  obtain ⟨status, byte, get⟩ : ∃ status byte, iso7816GetChar s.card = (status, byte, []) := by
    cases card : s.card with
    | nil => exact ⟨0, none, rfl⟩
    | cons c rest =>
      rw [card] at few
      have none : rest = [] := List.eq_nil_of_length_eq_zero (by simpa using few)
      exact ⟨c.status, some c.byte, by rw [none]; rfl⟩
  rw [turn, get]
  simp only
  generalize now : ({ s with card := [], procByte := byte.getD s.procByte } : TpduT0) = t
  have silent : t.card = [] := by rw [← now]
  have got : t.getMessage.2.card = [] := by rw [getMessage, silent]; rfl
  split
  · assumption
  · split
    · exact silent
    · split
      · rfl
      · split
        · split
          · split
            · assumption
            · exact receiveAll_silent silent
          · exact sendAll_card.trans silent
        · split
          · split
            · split
              · assumption
              · exact got
            · split
              · assumption
              · exact silent
          · exact silent

theorem finish_silent (silent : s.card = []) : s.finish.2.2.message.getLast? = some none := by
  cases sw1 : s.sw1 <;> simp [finish, sw1, getMessage, silent, iso7816GetChar]

/-- What is returned then ends with a byte that was never written. -/
theorem loop_silent {cmdCase : CmdCase} (few : s.card.length ≤ 1) {fuel : Nat}
    {r : Nat × Option Nat × TpduT0} (ends : s.loop apdu cmdCase fuel = some r) (ok : r.1 = 0) :
    r.2.2.message.getLast? = some none := by
  induction fuel generalizing s with
  | zero => cases ends
  | succ fuel ih =>
    have after : (s.turn apdu cmdCase).Silent := turn_silent cmdCase few
    rw [loop] at ends
    split at ends
    · rename_i turned
      rw [turned] at after
      cases ends
      exact absurd ok after
    · rename_i turned
      rw [turned] at after
      cases ends
      exact finish_silent after
    · rename_i t turned
      rw [turned] at after
      split at ends
      · exact ih (by rw [after]; exact Nat.zero_le 1) ends
      · cases ends
        exact finish_silent after

/-! ### The loop over an answer -/

theorem turn_sw1 (cmdCase : CmdCase) (a : CardAnswer) (card : s.card = okChars [a.sw1] ++ rest) :
    s.turn apdu cmdCase = .next { s with card := rest, procByte := a.sw1, sw1 := true } := by
  have here : s.card = ⟨a.sw1, 0⟩ :: rest := card
  simp [turn, here, iso7816GetChar, a.status.1, a.status.2]

/-- Behind the loop two characters are the status word, whatever the card sent them for. -/
theorem finish_eq (unended : s.sw1 = false) {x y : UInt8} (card : s.card = okChars [x, y] ++ rest) :
    s.finish = (0, some ((s.message.length + 2) % 2 ^ 16),
      { s with card := rest, message := s.message ++ [some x, some y] }) := by
  have here : s.card = ⟨x, 0⟩ :: ⟨y, 0⟩ :: rest := card
  simp [finish, unended, getMessage, here, iso7816GetChar]

theorem Moves.trans {cards : Bool} {s t u : TpduT0} {xs ys : List UInt8} (first : Moves cards s t xs)
    (second : Moves cards t u ys) : Moves cards s u (xs ++ ys) := by
  constructor
  · rw [second.message, first.message]
    cases cards <;> simp
  · rw [second.sent, first.sent]
    cases cards <;> simp

theorem Left.neNc_zero {cards : Bool} (h : Left apdu cards s data) : s.neNc = 0 ↔ data = [] := by
  rw [← UInt16.toNat_inj, h.neNc]
  exact List.length_eq_zero_iff

theorem okChars_append (xs ys : List UInt8) : okChars (xs ++ ys) = okChars xs ++ okChars ys :=
  List.map_append

theorem bytes_null (ins : UInt8) (cards : Bool) (ps : List ProcedureByte) :
    ProcedureByte.bytes ins cards (.null :: ps) [] =
      isoNullVal :: ProcedureByte.bytes ins cards ps [] := by
  cases cards <;> rfl

/-- A NULL behind the data, and whatever is behind it. -/
theorem nulls_first (ins : UInt8) (cards : Bool) {q : ProcedureByte} (null : q = .null)
    (qs : List ProcedureByte) (a : CardAnswer) :
    ∃ y others, ProcedureByte.bytes ins cards (q :: qs) [] ++ [a.sw1, a.sw2] =
      [isoNullVal, y] ++ others := by
  rw [null, bytes_null]
  cases ProcedureByte.bytes ins cards qs [] with
  | nil => exact ⟨a.sw1, [a.sw2], rfl⟩
  | cons y others => exact ⟨y, others ++ [a.sw1, a.sw2], rfl⟩

theorem loop_next {cmdCase : CmdCase} {t : TpduT0} (turned : s.turn apdu cmdCase = .next t)
    (fuel : Nat) : s.loop apdu cmdCase (fuel + 1) =
      if t.neNc = 0 then some t.finish else t.loop apdu cmdCase fuel := by
  rw [loop, turned]
  simp only [ite_not, ne_eq]

theorem finish_answers (unended : s.sw1 = false) {x y : UInt8} (card : s.card = okChars [x, y])
    {xs : List UInt8} (message : s.message = xs.map some) (short : xs.length ≤ 256) :
    s.finish = (0, some (xs ++ [x, y]).length,
      { s with card := [], message := (xs ++ [x, y]).map some }) := by
  have whole : s.card = okChars [x, y] ++ [] := by rw [card, List.append_nil]
  rw [finish_eq unended whole, message]
  simp only [List.length_map, List.length_append, List.map_append, List.length_cons, List.length_nil]
  rw [Nat.mod_eq_of_lt (by omega)]
  rfl

section answer
variable {cmdCase : CmdCase} {cards : Bool} (whose : Whose cmdCase cards) (valid : ValidIns (apdu 1))
include whose valid

/-- One procedure byte of an answer, with the rest of the answer behind it. -/
theorem turn_answer {p : ProcedureByte} {ps : List ProcedureByte} (allowed : data = [] → p = .null)
    (h : Left apdu cards s data)
    (card : s.card = okChars (ProcedureByte.bytes (apdu 1) cards (p :: ps) data) ++ rest) :
    ∃ t, s.turn apdu cmdCase = .next t ∧
      t.card = okChars (ProcedureByte.bytes (apdu 1) cards ps (p.left data)) ++ rest ∧
      Left apdu cards t (p.left data) ∧ Moves cards s t (p.moved data) := by
  rw [ProcedureByte.bytes, okChars, List.map_append, List.append_assoc] at card
  exact turn_part whose h valid p allowed card

/-- What fills the data is followed by the status bytes. -/
theorem loop_fills {ps : List ProcedureByte} (some' : data ≠ []) (fills : ProcedureByte.Fills ps data)
    (h : Left apdu cards s data)
    (card : s.card = okChars (ProcedureByte.bytes (apdu 1) cards ps data) ++ rest) :
    ∃ t, s.loop apdu cmdCase ps.length = some t.finish ∧ t.card = rest ∧ Left apdu cards t [] ∧
      Moves cards s t data := by
  induction ps generalizing s data with
  | nil => exact absurd fills some'
  | cons p ps ih =>
    obtain ⟨t, turned, behind, left, moves⟩ := turn_answer whose valid (fun none => absurd none some') h
      card
    have whole := p.moved_left data
    rw [List.length_cons, loop_next turned]
    by_cases last : p.left data = []
    · have rest' : ps = [] := by
        cases ps with
        | nil => rfl
        | cons q qs => exact absurd last fills.2.1
      subst rest'
      rw [last, List.append_nil] at whole
      rw [last] at left
      rw [whole] at moves
      exact ⟨t, if_pos (left.neNc_zero.mpr rfl), behind, left, moves⟩
    · obtain ⟨u, ends, there, done, later⟩ := ih last fills.2 left behind
      refine ⟨u, (if_neg (left.neNc_zero.not.mpr last)).trans ends, there, done, ?_⟩
      have all := moves.trans later
      rwa [whole] at all

/-- What does not ends in another message, if it ends at all. -/
theorem loop_not_fills {a : CardAnswer} {ps : List ProcedureByte} (some' : data ≠ [])
    (allowed : ProcedureByte.Allowed ps data) (unfilled : ¬ ProcedureByte.Fills ps data)
    (h : Left apdu cards s data)
    (card : s.card = okChars (ProcedureByte.bytes (apdu 1) cards ps data ++ [a.sw1, a.sw2]))
    {fuel : Nat} {r : Nat × Option Nat × TpduT0} (ends : s.loop apdu cmdCase fuel = some r)
    (ok : r.1 = 0) :
    r.2.2.message ≠ s.message ++
      ((if cards then (ProcedureByte.transferred ps data).map some else []) ++
        [some a.sw1, some a.sw2]) := by
  induction ps generalizing s data fuel with
  | nil =>
    cases fuel with
    | zero => cases ends
    | succ fuel =>
      have here : s.card = okChars [a.sw1] ++ okChars [a.sw2] := card
      rw [loop_next (turn_sw1 cmdCase a here), if_neg (h.neNc_zero.not.mpr some')] at ends
      have last := loop_silent (by exact Nat.le_refl 1) ends ok
      intro same
      rw [same] at last
      cases cards <;> simp [ProcedureByte.transferred] at last
  | cons p ps ih =>
    cases fuel with
    | zero => cases ends
    | succ fuel =>
      rw [okChars_append] at card
      obtain ⟨t, turned, behind, left, moves⟩ := turn_answer whose valid allowed.1 h card
      rw [loop_next turned] at ends
      by_cases last : p.left data = []
      · rw [last] at left behind
        rw [if_pos (left.neNc_zero.mpr rfl)] at ends
        cases ps with
        | nil => exact absurd ⟨some', last⟩ unfilled
        | cons q qs =>
          have null : q = .null := (last ▸ allowed.2).1 rfl
          obtain ⟨y, others, first⟩ := nulls_first (apdu 1) cards null qs a
          rw [← okChars_append, first] at behind
          rw [finish_eq left.unended behind] at ends
          cases ends
          have none : ProcedureByte.transferred (p :: q :: qs) data = p.moved data := by
            rw [ProcedureByte.transferred, last, ProcedureByte.transferred_nil, List.append_nil]
          rw [none, moves.message]
          intro same
          rw [List.append_assoc] at same
          have sw := List.append_cancel_left (List.append_cancel_left same)
          have first := Option.some.inj (List.cons.inj sw).1
          exact a.status.1 first.symm
      · rw [if_neg (left.neNc_zero.not.mpr last)] at ends
        have unfilled' : ¬ ProcedureByte.Fills ps (p.left data) := fun fills => unfilled ⟨some', fills⟩
        have other := ih last allowed.2 unfilled' left (by rw [behind, ← okChars_append]) ends
        rw [moves.message, List.append_assoc] at other
        intro same
        apply other
        rw [same, ProcedureByte.transferred]
        cases cards <;> simp

end answer

end TpduT0

/-! ### A whole command -/

/-- What the reader should make of an answer: the data of the card, and the status word. -/
def CardAnswer.response (a : CardAnswer) (cards : Bool) (data : List UInt8) : List UInt8 :=
  (if cards then ProcedureByte.transferred a.parts data else []) ++ [a.sw1, a.sw2]

/-- The data of a short command: as many as it says, and its own if it sends them. -/
structure ShortCommand (apdu : Nat → UInt8) (wLength : Nat) (cards : Bool) (data : List UInt8) :
    Prop where
  whose : TpduT0.Whose (cmdStructure apdu wLength).1 cards
  count : (cmdStructure apdu wLength).2.toNat = data.length
  short : data.length ≤ 256
  held : cards = false → ∀ i (h : i < data.length), apdu (5 + i) = data[i]

section nothing
open TpduT0
variable {apdu : Nat → UInt8} {cmdCase : CmdCase} {cards : Bool} (a : CardAnswer) {s : TpduT0}
  (h : Left apdu cards s [])
include h

/-- Where nothing is to go over, the status word is found at once or behind one NULL. -/
theorem loop_nothing (cmdCase : CmdCase) (few : a.parts.length ≤ 1)
    (allowed : ProcedureByte.Allowed a.parts [])
    (card : s.card = okChars (a.bytes (apdu 1) cards [])) (message : s.message = []) :
    ∃ t, s.loop apdu cmdCase 1 = some (0, some 2, t) ∧ t.message = [some a.sw1, some a.sw2] ∧
      t.sent = s.sent := by
  rw [CardAnswer.bytes] at card
  cases parts : a.parts with
  | nil =>
    rw [parts] at card
    have here : s.card = okChars [a.sw1] ++ okChars [a.sw2] := card
    refine ⟨{ s with card := [], procByte := a.sw1, sw1 := true, message := [some a.sw1, some a.sw2] },
      ?_, rfl, rfl⟩
    rw [loop_next (turn_sw1 cmdCase a here), if_pos (h.neNc_zero.mpr rfl)]
    simp [finish, message, okChars, getMessage, iso7816GetChar]
  | cons p ps =>
    rw [parts] at few allowed card
    have rest : ps = [] := List.eq_nil_of_length_eq_zero (by simpa using few)
    rw [rest, allowed.1 rfl, bytes_null] at card
    have here : s.card = okChars [isoNullVal] ++ okChars [a.sw1, a.sw2] := card
    obtain ⟨t, turned, behind, left, moves⟩ := turn_null h cmdCase here
    have empty : t.message = ([] : List UInt8).map some := by
      rw [moves.message, message]
      cases cards <;> rfl
    refine ⟨{ t with card := [], message := [some a.sw1, some a.sw2] }, ?_, rfl, ?_⟩
    · rw [loop_next turned, if_pos (left.neNc_zero.mpr rfl),
        finish_answers left.unended behind empty (Nat.zero_le _)]
      rfl
    · rw [moves.sent]
      cases cards <;> simp

/-- A second one is taken for the status word. -/
theorem loop_nulls (many : ¬ a.parts.length ≤ 1) (allowed : ProcedureByte.Allowed a.parts [])
    (card : s.card = okChars (a.bytes (apdu 1) cards [])) {fuel : Nat}
    {r : Nat × Option Nat × TpduT0} (ends : s.loop apdu cmdCase fuel = some r) :
    r.2.2.message ≠ s.message ++ [some a.sw1, some a.sw2] := by
  rw [CardAnswer.bytes] at card
  cases fuel with
  | zero => cases ends
  | succ fuel =>
    match parts : a.parts with
    | [] => exact absurd (by rw [parts]; exact Nat.zero_le 1) many
    | [_] => exact absurd (by rw [parts]; exact Nat.le_refl 1) many
    | p :: q :: qs =>
      rw [parts] at allowed card
      obtain ⟨y, others, first⟩ := nulls_first (apdu 1) cards (allowed.2.1 (by cases p <;> rfl)) qs a
      rw [allowed.1 rfl, bytes_null, List.cons_append, first] at card
      have here : s.card = okChars [isoNullVal] ++ okChars ([isoNullVal, y] ++ others) := card
      obtain ⟨t, turned, behind, left, moves⟩ := turn_null h cmdCase here
      rw [okChars_append] at behind
      rw [loop_next turned, if_pos (left.neNc_zero.mpr rfl), finish_eq left.unended behind] at ends
      cases ends
      intro same
      have message := moves.message
      cases cards <;>
      · simp only [List.map_nil, if_true, if_false, List.append_nil, Bool.false_eq_true] at message
        rw [message] at same
        have sw := List.append_cancel_left same
        exact a.status.1 (Option.some.inj (List.cons.inj sw).1).symm

end nothing

section command
open TpduT0
variable {apdu : Nat → UInt8} {wLength : Nat} {cards : Bool} {data : List UInt8}
  (command : ShortCommand apdu wLength cards data) (valid : ValidIns (apdu 1)) (a : CardAnswer)
  (allowed : ProcedureByte.Allowed a.parts data)
  {sendStatus : Nat → Nat} (quiet : ∀ i, sendStatus i = 0) (stale : UInt8)
include command quiet

theorem left_start (card : List CardChar) :
    Left apdu cards (start apdu wLength card sendStatus stale) data := by
  refine ⟨quiet, command.count, ?_, command.held, rfl⟩
  have short := command.short
  have five : (5 : UInt16).toNat = 5 := rfl
  simp only [start, five]
  omega

include valid allowed in
/-- The reader returns the data and the status word of an answer, and has sent the data of the command,
exactly when the answer is plain: a status word ahead of the last byte and a NULL behind it are lost. -/
theorem xfrBlock_iff :
    (∃ fuel s, iso7816XfrBlockTpduT0 fuel apdu wLength (okChars (a.bytes (apdu 1) cards data))
        sendStatus stale = some (0, some (a.response cards data).length, s) ∧
      s.message = (a.response cards data).map some ∧
      s.sent = (List.range 5).map apdu ++
        if cards then [] else ProcedureByte.transferred a.parts data) ↔
    a.Plain data := by
  have left := left_start command quiet stale (okChars (a.bytes (apdu 1) cards data))
  by_cases none : data = []
  · subst none
    have response : a.response cards [] = [a.sw1, a.sw2] := by
      rw [CardAnswer.response, ProcedureByte.transferred_nil]
      cases cards <;> rfl
    rw [CardAnswer.Plain, if_pos rfl, response]
    constructor
    · rintro ⟨fuel, s, ends, message, _⟩
      by_contra many
      exact loop_nulls a left many allowed rfl ends message
    · intro few
      obtain ⟨t, ends, message, sent⟩ := loop_nothing a left (cmdStructure apdu wLength).1 few allowed
        rfl rfl
      refine ⟨1, t, ends, message, sent.trans ?_⟩
      rw [ProcedureByte.transferred_nil]
      cases cards <;> exact (List.append_nil _).symm
  · rw [CardAnswer.Plain, if_neg none]
    constructor
    · rintro ⟨fuel, s, ends, message, _⟩
      by_contra unfilled
      have other := loop_not_fills command.whose valid none allowed unfilled left rfl ends rfl
      apply other
      rw [message, CardAnswer.response]
      cases cards <;> simp [start]
    · intro fills
      obtain ⟨t, ends, behind, done, moves⟩ := loop_fills command.whose valid none fills left
        (okChars_append _ _)
      have short := command.short
      rw [CardAnswer.response, ProcedureByte.transferred_fills fills]
      have message : t.message = (if cards then data else []).map some := by
        rw [moves.message]
        cases cards <;> simp [start]
      have fits : (if cards then data else []).length ≤ 256 := by
        cases cards
        · exact Nat.zero_le _
        · exact short
      have found := ends.trans (congrArg some (finish_answers done.unended behind message fits))
      exact ⟨a.parts.length, _, found, rfl, moves.sent⟩

end command

/-- READ BINARY of two bytes. -/
def readBinary (i : Nat) : UInt8 := [0xa0, 0xb0, 0, 0, 2].getD i 0

/-- Two bytes that come one by one with a NULL between them are returned; that the file was not found
is not. -/
theorem notFound_lost :
    (∃ fuel s, iso7816XfrBlockTpduT0 fuel readBinary 5
        (okChars [0x4f, 0x12, 0x60, 0xb0, 0x34, 0x90, 0x00]) (fun _ => 0) 0 = some (0, some 4, s) ∧
      s.message = [0x12, 0x34, 0x90, 0x00].map some ∧ s.sent = [0xa0, 0xb0, 0, 0, 2]) ∧
    ¬ ∃ fuel s, iso7816XfrBlockTpduT0 fuel readBinary 5 (okChars [0x6a, 0x82]) (fun _ => 0) 0 =
        some (0, some 2, s) ∧
      s.message = [0x6a, 0x82].map some ∧ s.sent = [0xa0, 0xb0, 0, 0, 2] := by
  have command : ShortCommand readBinary 5 true [0x12, 0x34] :=
    ⟨iff_of_true rfl rfl, by decide, by decide, fun none => absurd none (by decide)⟩
  have quiet : ∀ i : Nat, (fun _ => 0 : Nat → Nat) i = 0 := fun _ => rfl
  have valid : ValidIns (readBinary 1) := by decide
  let read : CardAnswer := ⟨[.one, .null, .all], 0x90, 0x00, by decide⟩
  let notFound : CardAnswer := ⟨[], 0x6a, 0x82, by decide⟩
  have plain : read.Plain [0x12, 0x34] := by simp [CardAnswer.Plain, read, ProcedureByte.Fills,
    ProcedureByte.left]
  have allowed : ProcedureByte.Allowed read.parts [0x12, 0x34] := by
    simp [read, ProcedureByte.Allowed, ProcedureByte.left]
  have ahead : ¬ notFound.Plain [0x12, 0x34] := by
    simp [CardAnswer.Plain, notFound, ProcedureByte.Fills]
  exact ⟨(xfrBlock_iff command valid read allowed quiet 0).mpr plain,
    fun returned => ahead ((xfrBlock_iff command valid notFound trivial quiet 0).mp returned)⟩

end Simtrace2
