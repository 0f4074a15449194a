import Simtrace2.Lib.Memory
import Simtrace2.Reader.Tpdu
import Simtrace2.Sniffer.AtrGrammar

/-! The Answer-to-Reset at the card reader (`iso7816_4.c`): which errors behind its characters are
seen, and what a card that falls silent is taken for. -/
namespace Simtrace2
open Lib

/-- Within `ISO7816_Datablock_ATR`; `atr` is the buffer with what was in it before. -/
structure AtrReader where
  card : List CardChar
  atr : Nat → UInt8
  i : Nat
  y : UInt8
  status : Nat

namespace AtrReader

/-- `status = ISO7816_GetChar(&pAtr[i++])` -/
def getAtr (s : AtrReader) : AtrReader :=
  let (status, byte, card) := iso7816GetChar s.card
  { s with card, status, atr := store s.atr s.i byte.toList, i := s.i + 1 }

/-- A round of the loop behind T0 and each TD. -/
def group (s : AtrReader) : AtrReader :=
  let s := if hasBit s.y 0x10 then s.getAtr else s
  let s := if hasBit s.y 0x20 then s.getAtr else s
  let s := if hasBit s.y 0x40 then s.getAtr else s
  if hasBit s.y 0x80 then
    let s := s.getAtr
    { s with y := s.atr (s.i - 1) &&& 0xf0 }
  else { s with y := 0 }

/-- `while (y && (status == 0))` -/
def groups : Nat → AtrReader → Option AtrReader
  | 0, _ => none
  | fuel + 1, s => if s.y ≠ 0 ∧ s.status = 0 then groups fuel s.group else some s

/-- `for (j = 0; (j < y) && (status == 0); j++)` -/
def hist : Nat → AtrReader → AtrReader
  | 0, s => s
  | n + 1, s => if s.status = 0 then hist n s.getAtr else s

end AtrReader

/-- `ISO7816_Datablock_ATR`: its result, what it writes to the length, and the state it leaves. -/
def iso7816DatablockAtr (fuel : Nat) (card : List CardChar) (pAtr : Nat → UInt8) :
    Option (Nat × Nat × AtrReader) :=
  let s := AtrReader.getAtr { card, atr := pAtr, i := 0, y := 0, status := 0 }
  if s.status ≠ 0 then some (s.status, 0, s)
  else
    let s := s.getAtr
    if s.status ≠ 0 then some (s.status, 0, s)
    else
      match AtrReader.groups fuel { s with y := s.atr 1 &&& 0xf0 } with
      | none => none
      | some s =>
        if s.status ≠ 0 then some (s.status, 0, s)
        else
          let s := s.hist (s.atr 1 &&& 0x0f).toNat
          if s.status ≠ 0 then some (s.status, 0, s) else some (s.status, s.i % 256, s)

/-! ### Errors behind the characters -/

/-- The characters of these bytes, the first of them at `k` in the ATR. -/
def atrChars (errors : Nat → Nat) (k : Nat) : List UInt8 → List CardChar
  | [] => []
  | byte :: bytes => ⟨byte, errors k⟩ :: atrChars errors (k + 1) bytes

/-- The last byte of each group, where it has any. -/
def AtrGroup.ends (k : Nat) : List AtrGroup → List Nat
  | [] => []
  | g :: groups =>
    (if g.bytes = [] then [] else [k + g.bytes.length - 1]) ++ ends (k + g.bytes.length) groups

namespace IsoAtr

def interface (a : IsoAtr) : List UInt8 := a.groups.flatMap AtrGroup.bytes

def untilTck (a : IsoAtr) : List UInt8 := a.ts :: a.t0 :: a.interface ++ a.hist

/-- The characters whose errors are looked at: within a group, those of its last one only. -/
def checked (a : IsoAtr) : List Nat :=
  [0, 1] ++ AtrGroup.ends 2 a.groups ++ List.range' (2 + a.interface.length) a.hist.length

end IsoAtr

namespace AtrReader
variable {errors : Nat → Nat} {pAtr : Nat → UInt8} {s : AtrReader} {got bytes : List UInt8}
  {rest : List CardChar}

/-- The status once these bytes have been read. -/
def statusBehind (errors : Nat → Nat) (k status : Nat) : List UInt8 → Nat
  | [] => status
  | _ :: bytes => statusBehind errors (k + 1) (errors k) bytes

theorem statusBehind_append (k status : Nat) (xs ys : List UInt8) :
    statusBehind errors k status (xs ++ ys) =
      statusBehind errors (k + xs.length) (statusBehind errors k status xs) ys := by
  induction xs generalizing k status with
  | nil => rfl
  | cons x xs ih =>
    simp only [List.cons_append, statusBehind, ih, List.length_cons]
    rw [Nat.add_assoc, Nat.add_comm 1]

theorem statusBehind_some (k status : Nat) (some' : bytes ≠ []) :
    statusBehind errors k status bytes = errors (k + bytes.length - 1) := by
  induction bytes generalizing k status with
  | nil => exact absurd rfl some'
  | cons byte bytes ih =>
    cases bytes with
    | nil => rfl
    | cons byte' bytes =>
      have later := ih (k + 1) (errors k) (List.cons_ne_nil _ _)
      rw [statusBehind, later]
      simp only [List.length_cons]
      congr 1
      omega

/-- These bytes have been read, and these are what the card sends next. -/
structure Got (errors : Nat → Nat) (pAtr : Nat → UInt8) (rest : List CardChar) (s : AtrReader)
    (got bytes : List UInt8) : Prop where
  atr : s.atr = store pAtr 0 got
  i : s.i = got.length
  card : s.card = atrChars errors got.length bytes ++ rest

/-- Reading on, past more of the bytes. -/
structure Reads (errors : Nat → Nat) (pAtr : Nat → UInt8) (rest : List CardChar) (s t : AtrReader)
    (got more bytes : List UInt8) : Prop where
  behind : Got errors pAtr rest t (got ++ more) bytes
  status : t.status = statusBehind errors got.length s.status more
  y : t.y = s.y

theorem Reads.trans {t u : AtrReader} {more more' : List UInt8} {bytes' : List UInt8}
    (first : Reads errors pAtr rest s t got more bytes')
    (second : Reads errors pAtr rest t u (got ++ more) more' bytes) :
    Reads errors pAtr rest s u got (more ++ more') bytes := by
  refine ⟨?_, ?_, second.y.trans first.y⟩
  · rw [← List.append_assoc]
    exact second.behind
  · rw [second.status, first.status, List.length_append, ← statusBehind_append]

theorem store_last (mem : Nat → UInt8) (xs : List UInt8) (x : UInt8) :
    store mem 0 (xs ++ [x]) xs.length = x := by
  simp [store]

theorem getAtr_reads {byte : UInt8} (h : Got errors pAtr rest s got (byte :: bytes)) :
    Reads errors pAtr rest s s.getAtr got [byte] bytes := by
  have here : s.card = ⟨byte, errors got.length⟩ :: (atrChars errors (got.length + 1) bytes ++ rest) :=
    h.card
  have eq : s.getAtr = { s with
      card := atrChars errors (got.length + 1) bytes ++ rest
      status := errors got.length
      atr := store s.atr s.i [byte]
      i := s.i + 1 } := by
    simp [getAtr, here, iso7816GetChar]
  rw [eq]
  refine ⟨⟨?_, ?_, ?_⟩, rfl, rfl⟩
  · have next := store_append pAtr 0 got [byte]
    rw [Nat.zero_add] at next
    rw [h.atr, h.i, next]
  · rw [h.i, List.length_append]
    rfl
  · rw [List.length_append]
    rfl

theorem optional_reads (mask : UInt8) {opt : Option UInt8} (present : opt.isSome = hasBit s.y mask)
    (h : Got errors pAtr rest s got (opt.toList ++ bytes)) :
    Reads errors pAtr rest s (if hasBit s.y mask then s.getAtr else s) got opt.toList bytes := by
  rw [← present]
  cases opt with
  | none => exact ⟨by simpa using h, rfl, rfl⟩
  | some byte => exact getAtr_reads h

theorem group_reads {g : AtrGroup} {y : UInt8} (announced : g.Announced y) (masked : s.y = y &&& 0xf0)
    (h : Got errors pAtr rest s got (g.bytes ++ bytes)) :
    Got errors pAtr rest s.group (got ++ g.bytes) bytes ∧
      s.group.status = statusBehind errors got.length s.status g.bytes ∧
      s.group.y = (g.td.map (· &&& 0xf0)).getD 0 := by
  obtain ⟨bitTa, bitTb, bitTc, bitTd⟩ := hasBit_announced y
  obtain ⟨ta, tb, tc, td⟩ := announced
  simp only [AtrGroup.bytes, List.append_assoc] at h
  rw [group]
  generalize ta' : (if hasBit s.y 0x10 then s.getAtr else s) = s1
  have r1 := optional_reads 0x10 (by rw [masked, bitTa, ta]) h
  rw [ta'] at r1
  simp only
  generalize tb' : (if hasBit s1.y 0x20 then s1.getAtr else s1) = s2
  have r2 := optional_reads 0x20 (by rw [r1.y, masked, bitTb, tb]) r1.behind
  rw [tb'] at r2
  generalize tc' : (if hasBit s2.y 0x40 then s2.getAtr else s2) = s3
  have r3 := optional_reads 0x40 (by rw [r2.y, r1.y, masked, bitTc, tc]) r2.behind
  rw [tc'] at r3
  have r12 := r1.trans r2
  rw [List.append_assoc] at r3
  have r := r12.trans r3
  have last : hasBit s3.y 0x80 = g.td.isSome := by rw [r.y, masked, bitTd, td]
  rw [last]
  have whole : g.bytes = g.ta.toList ++ g.tb.toList ++ g.tc.toList ++ g.td.toList := rfl
  cases td' : g.td with
  | none =>
    rw [td', Option.toList_none, List.append_nil] at whole
    rw [whole]
    have behind := r.behind
    rw [td'] at behind
    exact ⟨⟨behind.atr, behind.i, behind.card⟩, r.status, rfl⟩
  | some x =>
    have behind := r.behind
    rw [td'] at behind
    have r' := r.trans (getAtr_reads behind)
    rw [td', Option.toList_some] at whole
    rw [whole]
    refine ⟨⟨r'.behind.atr, r'.behind.i, r'.behind.card⟩, r'.status, ?_⟩
    have found : s3.getAtr.atr (s3.getAtr.i - 1) = x := by
      rw [r'.behind.atr, r'.behind.i, ← List.append_assoc, List.length_append, List.length_singleton,
        Nat.add_sub_cancel, store_last]
    exact congrArg (· &&& 0xf0) found

theorem groups_done (fuel : Nat) (done : s.y = 0 ∨ s.status ≠ 0) :
    groups (fuel + 1) s = some s := by
  rw [groups, if_neg]
  rintro ⟨more, ok⟩
  exact done.elim more fun bad => bad ok

theorem groups_next (fuel : Nat) (more : s.y ≠ 0) (ok : s.status = 0) :
    groups (fuel + 1) s = groups fuel s.group := by
  rw [groups, if_pos ⟨more, ok⟩]

/-- Of this reading on nothing is left but the status. -/
structure ReadTo (errors : Nat → Nat) (pAtr : Nat → UInt8) (rest : List CardChar) (t : AtrReader)
    (got bytes : List UInt8) (checked : List Nat) : Prop where
  status : t.status = 0 ↔ ∀ k ∈ checked, errors k = 0
  behind : t.status = 0 → Got errors pAtr rest t got bytes

theorem announced_none {g : AtrGroup} {y : UInt8} (announced : g.Announced y)
    (none' : y &&& 0xf0 = 0) : g.bytes = [] ∧ g.td = none := by
  obtain ⟨bitTa, bitTb, bitTc, bitTd⟩ := hasBit_announced y
  obtain ⟨ta, tb, tc, td⟩ := announced
  rw [none'] at bitTa bitTb bitTc bitTd
  have zero : ∀ mask, hasBit 0 mask = false := by
    intro mask
    simp [hasBit]
  rw [zero] at bitTa bitTb bitTc bitTd
  rw [← bitTa] at ta
  rw [← bitTb] at tb
  rw [← bitTc] at tc
  rw [← bitTd] at td
  simp only [Option.isSome_eq_false_iff, Option.isNone_iff_eq_none] at ta tb tc td
  simp [AtrGroup.bytes, ta, tb, tc, td]

/-- What is looked at of a group and the groups behind it. -/
theorem ends_cons (k : Nat) (g : AtrGroup) (gs : List AtrGroup) :
    (∀ j ∈ AtrGroup.ends k (g :: gs), errors j = 0) ↔ statusBehind errors k 0 g.bytes = 0 ∧
      ∀ j ∈ AtrGroup.ends (k + g.bytes.length) gs, errors j = 0 := by
  simp only [AtrGroup.ends, List.mem_append, or_imp, forall_and]
  apply and_congr_left'
  split
  · rename_i none'
    rw [none']
    exact iff_of_true (fun j none => absurd none List.not_mem_nil) rfl
  · rename_i some'
    rw [statusBehind_some k 0 some']
    simp

theorem groups_read {gs : List AtrGroup} {y : UInt8} (chain : AtrGroup.Chain y gs)
    (masked : s.y = y &&& 0xf0) (ok : s.status = 0)
    (h : Got errors pAtr rest s got (gs.flatMap AtrGroup.bytes ++ bytes)) {fuel : Nat}
    (enough : gs.length < fuel) :
    ∃ t, groups fuel s = some t ∧ ReadTo errors pAtr rest t (got ++ gs.flatMap AtrGroup.bytes) bytes
      (AtrGroup.ends got.length gs) := by
  induction gs generalizing s got y fuel with
  | nil => exact chain.elim
  | cons g gs ih =>
    obtain ⟨announced, tail⟩ := chain
    cases fuel with
    | zero => cases enough
    | succ fuel =>
    have enough' := Nat.lt_of_succ_lt_succ enough
    rw [List.flatMap_cons, List.append_assoc] at h
    by_cases none' : s.y = 0
    · obtain ⟨empty, last⟩ := announced_none announced (by rw [← masked, none'])
      rw [last] at tail
      rw [tail, List.flatMap_nil, empty] at h
      refine ⟨s, groups_done fuel (.inl none'), iff_of_true ok ?_, fun _ => ?_⟩
      · rw [AtrGroup.ends, empty, tail]
        intro k none
        cases none
      · rw [List.flatMap_cons, empty, tail]
        simpa using h
    · obtain ⟨behind, status, y'⟩ := group_reads announced masked h
      rw [groups_next fuel none' ok]
      rw [ok] at status
      have looked := @ends_cons errors got.length g gs
      rw [← status, ← List.length_append] at looked
      rw [List.flatMap_cons, ← List.append_assoc]
      obtain ⟨fuel, rfl⟩ : ∃ n, fuel = n + 1 := ⟨fuel - 1, by omega⟩
      by_cases good : s.group.status = 0
      · cases td : g.td with
        | none =>
          rw [td] at tail y'
          rw [tail] at behind looked ⊢
          refine ⟨s.group, groups_done fuel (.inl y'), ?_, fun _ => ?_⟩
          · rw [looked]
            exact iff_of_true good ⟨good, fun k none => absurd none List.not_mem_nil⟩
          · simpa using behind
        | some x =>
          rw [td] at tail y'
          obtain ⟨t, ends, status', behind'⟩ := ih tail y' good behind enough'
          refine ⟨t, ends, ?_, behind'⟩
          rw [looked, status']
          exact ⟨fun later => ⟨good, later⟩, And.right⟩
      · refine ⟨s.group, groups_done fuel (.inr good), ?_, fun none => absurd none good⟩
        rw [looked]
        exact iff_of_false good fun all => good all.1

theorem hist_stop (n : Nat) (bad : s.status ≠ 0) : s.hist n = s := by
  cases n with
  | zero => rfl
  | succ n => exact if_neg bad

theorem hist_read {xs : List UInt8} (ok : s.status = 0)
    (h : Got errors pAtr rest s got (xs ++ bytes)) :
    ReadTo errors pAtr rest (s.hist xs.length) (got ++ xs) bytes
      (List.range' got.length xs.length) := by
  induction xs generalizing s got with
  | nil =>
    refine ⟨iff_of_true ok fun k none => absurd none List.not_mem_nil, fun _ => ?_⟩
    rw [List.append_nil]
    exact h
  | cons x xs ih =>
    have reads := getAtr_reads h
    have status : s.getAtr.status = errors got.length := reads.status
    rw [List.length_cons, hist, if_pos ok, List.range'_succ]
    by_cases good : s.getAtr.status = 0
    · obtain ⟨status', behind⟩ := ih good reads.behind
      rw [List.append_assoc] at behind
      refine ⟨?_, behind⟩
      rw [status', List.forall_mem_cons, ← status, List.length_append]
      exact ⟨fun later => ⟨good, later⟩, And.right⟩
    · rw [hist_stop _ good]
      refine ⟨iff_of_false good fun all => good ?_, fun none => absurd none good⟩
      rw [status]
      exact all _ List.mem_cons_self

end AtrReader

section atr
open AtrReader
variable {a : IsoAtr} (wf : a.WellFormed) (errors : Nat → Nat) (pAtr : Nat → UInt8)
  (rest : List CardChar)

theorem IsoAtr.bytes_split (a : IsoAtr) :
    a.bytes = a.ts :: a.t0 :: (a.interface ++ (a.hist ++ a.tck.toList)) := by
  simp [IsoAtr.bytes, IsoAtr.interface]

theorem IsoAtr.checked_iff (a : IsoAtr) :
    (∀ k ∈ a.checked, errors k = 0) ↔ errors 0 = 0 ∧ errors 1 = 0 ∧
      (∀ k ∈ AtrGroup.ends 2 a.groups, errors k = 0) ∧
        ∀ k ∈ List.range' (2 + a.interface.length) a.hist.length, errors k = 0 := by
  simp only [IsoAtr.checked, List.mem_append, or_imp, forall_and, List.forall_mem_cons, and_assoc]
  simp

theorem not_returned {s t : AtrReader} {n : Nat} (bad : t.status ≠ 0) :
    some (t.status, 0, t) ≠ some (0, n, s) :=
  fun same => bad (Prod.mk.inj (Option.some.inj same)).1

theorem second_stored (ts t0 : UInt8) (xs : List UInt8) : store pAtr 0 (ts :: t0 :: xs) 1 = t0 := by
  simp [store]

include wf in
/-- Behind T0. -/
theorem interface_read {s : AtrReader} (ok : s.status = 0) {fuel : Nat}
    (h : Got errors pAtr rest s [a.ts, a.t0] (a.interface ++ (a.hist ++ a.tck.toList)))
    (enough : a.groups.length < fuel) :
    ∃ t, groups fuel { s with y := s.atr 1 &&& 0xf0 } = some t ∧
      (t.status = 0 ↔ ∀ k ∈ AtrGroup.ends 2 a.groups, errors k = 0) ∧
      (t.status = 0 → ReadTo errors pAtr rest (t.hist (t.atr 1 &&& 0x0f).toNat) a.untilTck
        a.tck.toList (List.range' (2 + a.interface.length) a.hist.length)) := by
  have first : s.atr 1 = a.t0 := by rw [h.atr, second_stored]
  have masked : ({ s with y := s.atr 1 &&& 0xf0 } : AtrReader).y = a.t0 &&& 0xf0 :=
    congrArg (· &&& 0xf0) first
  have there : Got errors pAtr rest { s with y := s.atr 1 &&& 0xf0 } [a.ts, a.t0]
      (a.groups.flatMap AtrGroup.bytes ++ (a.hist ++ a.tck.toList)) := ⟨h.atr, h.i, h.card⟩
  obtain ⟨t, ends, status, behind⟩ := groups_read wf.groups masked ok there enough
  refine ⟨t, ends, status, fun good => ?_⟩
  have got := behind good
  have kept : t.atr 1 = a.t0 := by rw [got.atr]; exact second_stored ..
  have done := hist_read good got
  rw [kept, ← wf.hist]
  have whole : [a.ts, a.t0] ++ a.interface ++ a.hist = a.untilTck := rfl
  have from' : ([a.ts, a.t0] ++ a.groups.flatMap AtrGroup.bytes).length = 2 + a.interface.length := by
    rw [List.length_append]
    rfl
  rw [from'] at done
  exact done

include wf in
/-- An ATR is read as it is, up to its TCK, exactly when no error is seen: within a group of interface
bytes those of the last one only are looked at. The TCK is left to the next command. -/
theorem datablockAtr_iff {fuel : Nat} (enough : a.groups.length < fuel) :
    (∃ s, iso7816DatablockAtr fuel (atrChars errors 0 a.bytes ++ rest) pAtr =
        some (0, a.untilTck.length % 256, s) ∧
      s.atr = store pAtr 0 a.untilTck ∧
      s.card = atrChars errors a.untilTck.length a.tck.toList ++ rest) ↔
    ∀ k ∈ a.checked, errors k = 0 := by
  have h : Got errors pAtr rest
      { card := atrChars errors 0 a.bytes ++ rest, atr := pAtr, i := 0, y := 0, status := 0 } []
      (a.ts :: a.t0 :: (a.interface ++ (a.hist ++ a.tck.toList))) := by
    rw [IsoAtr.bytes_split]
    exact ⟨(store_nil _ _).symm, rfl, rfl⟩
  have r1 := getAtr_reads h
  have r2 := getAtr_reads r1.behind
  rw [IsoAtr.checked_iff, iso7816DatablockAtr]
  generalize getAtr _ = s1 at r1 r2
  generalize s1.getAtr = s2 at r2
  have ts : s1.status = errors 0 := r1.status
  have t0 : s2.status = errors 1 := r2.status
  simp only
  rw [← ts, ← t0]
  by_cases good1 : s1.status = 0
  · rw [if_neg (not_not.mpr good1)]
    by_cases good2 : s2.status = 0
    · rw [if_neg (not_not.mpr good2)]
      obtain ⟨t, ends, status, behind⟩ := interface_read wf errors pAtr rest good2 r2.behind enough
      rw [ends, ← status]
      by_cases good3 : t.status = 0
      · obtain ⟨status', behind'⟩ := behind good3
        simp only [good3, ne_eq, not_true_eq_false, if_false]
        generalize t.hist (t.atr 1 &&& 0x0f).toNat = u at status' behind'
        rw [← status']
        by_cases good4 : u.status = 0
        · have got := behind' good4
          simp only [good4, not_true_eq_false, if_false]
          exact iff_of_true ⟨u, by rw [got.i], got.atr, got.card⟩ ⟨good1, good2, trivial, trivial⟩
        · refine iff_of_false ?_ fun all => good4 all.2.2.2
          rintro ⟨s, ends, _⟩
          rw [if_pos good4] at ends
          exact not_returned good4 ends
      · refine iff_of_false ?_ fun all => good3 all.2.2.1
        rintro ⟨s, ends, _⟩
        simp only [if_pos good3] at ends
        exact not_returned good3 ends
    · refine iff_of_false ?_ fun all => good2 all.2.1
      rintro ⟨s, ends, _⟩
      rw [if_pos good2] at ends
      exact not_returned good2 ends
  · refine iff_of_false ?_ fun all => good1 all.1
    rintro ⟨s, ends, _⟩
    rw [if_pos good1] at ends
    exact not_returned good1 ends

end atr

/-- With TA1 and TB1, and one historical byte. -/
def shortAtr : IsoAtr := ⟨0x3b, 0x31, [⟨some 0x11, some 0x00, none, none⟩], [0x42], none⟩

/-- A parity error in TA1 passes, one in TB1 does not. -/
theorem parity_ta1 :
    (∃ s, iso7816DatablockAtr 2 (atrChars (fun k => if k = 2 then 0x80 else 0) 0 shortAtr.bytes ++ [])
        (fun _ => 0) = some (0, 5, s) ∧
      s.atr = store (fun _ => 0) 0 shortAtr.untilTck ∧ s.card = []) ∧
    ¬ ∃ s, iso7816DatablockAtr 2 (atrChars (fun k => if k = 3 then 0x80 else 0) 0 shortAtr.bytes ++ [])
        (fun _ => 0) = some (0, 5, s) ∧
      s.atr = store (fun _ => 0) 0 shortAtr.untilTck ∧ s.card = [] := by
  have wf : shortAtr.WellFormed := ⟨.inl rfl, ⟨⟨rfl, rfl, rfl, rfl⟩, rfl⟩, rfl, rfl⟩
  have enough : shortAtr.groups.length < 2 := by decide
  exact ⟨(datablockAtr_iff wf _ _ [] enough).mpr (by decide),
    fun read => absurd ((datablockAtr_iff wf _ _ [] enough).mp read) (by decide)⟩

/-! ### A card that falls silent -/

namespace AtrReader
variable {pAtr : Nat → UInt8} {s t : AtrReader}

/-- Two readers at the same place. The one's card ends where the other's goes on with what the buffer
held. -/
structure Alike (pAtr : Nat → UInt8) (s t : AtrReader) : Prop where
  atr : t.atr = s.atr
  i : t.i = s.i
  y : t.y = s.y
  status : t.status = s.status
  held : ∀ j, s.i ≤ j → s.atr j = pAtr j
  card : ∃ n, t.card = s.card ++ okChars (readAt pAtr (s.i + s.card.length) n)

theorem store_held {mem : Nat → UInt8} {i : Nat} {x : UInt8} (same : mem i = x) :
    store mem i [x] = mem := by
  rw [← same]
  exact store_readAt mem i 1

theorem store_behind {mem : Nat → UInt8} {i : Nat} (held : ∀ j, i ≤ j → mem j = pAtr j)
    (byte : Option UInt8) (j : Nat) (behind : i + 1 ≤ j) : store mem i byte.toList j = pAtr j := by
  rw [store_above, held j (Nat.le_of_succ_le behind)]
  cases byte
  · exact Nat.le_of_succ_le behind
  · exact behind

theorem getAtr_alike (h : Alike pAtr s t) : Alike pAtr s.getAtr t.getAtr := by
  obtain ⟨n, card⟩ := h.card
  cases here : s.card with
  | cons c cs =>
    rw [here] at card
    have there : t.card = c :: (cs ++ okChars (readAt pAtr (s.i + (c :: cs).length) n)) := card
    simp only [getAtr, here, there, iso7816GetChar]
    refine ⟨by rw [h.atr, h.i], by rw [h.i], h.y, rfl, store_behind h.held _, n, ?_⟩
    rw [List.length_cons, Nat.add_right_comm, Nat.add_assoc]
  | nil =>
    rw [here, List.nil_append, List.length_nil, Nat.add_zero] at card
    cases n with
    | zero =>
      have there : t.card = [] := card
      simp only [getAtr, here, there, iso7816GetChar]
      exact ⟨by rw [h.atr, h.i], by rw [h.i], h.y, rfl, store_behind h.held _, 0, rfl⟩
    | succ n =>
      have there : t.card = ⟨pAtr s.i, 0⟩ :: okChars (readAt pAtr (s.i + 1) n) := by
        rw [card, readAt_succ]
        rfl
      have same := store_held (h.held s.i (Nat.le_refl _))
      simp only [getAtr, here, there, iso7816GetChar]
      refine ⟨?_, by rw [h.i], h.y, rfl, store_behind h.held _, n, rfl⟩
      rw [h.atr, h.i, Option.toList_some, same, Option.toList_none, store_nil]

theorem optional_alike (h : Alike pAtr s t) (mask : UInt8) :
    Alike pAtr (if hasBit s.y mask then s.getAtr else s) (if hasBit t.y mask then t.getAtr else t) := by
  rw [h.y]
  split
  · exact getAtr_alike h
  · exact h

theorem withY_alike (h : Alike pAtr s t) {x y : UInt8} (same : x = y) :
    Alike pAtr { s with y := x } { t with y := y } :=
  ⟨h.atr, h.i, same.symm, h.status, h.held, h.card⟩

theorem group_alike (h : Alike pAtr s t) : Alike pAtr s.group t.group := by
  have tc := optional_alike (optional_alike (optional_alike h 0x10) 0x20) 0x40
  rw [group, group]
  simp only
  generalize (if hasBit _ 0x40 then _ else _) = s' at tc ⊢
  generalize (if hasBit _ 0x40 then _ else _) = t' at tc ⊢
  rw [tc.y]
  split
  · have td := getAtr_alike tc
    exact withY_alike td (by rw [td.atr, td.i])
  · exact withY_alike tc rfl

theorem groups_alike (fuel : Nat) (h : Alike pAtr s t) :
    Option.Rel (Alike pAtr) (groups fuel s) (groups fuel t) := by
  induction fuel generalizing s t with
  | zero => exact .none
  | succ fuel ih =>
    rw [groups, groups, h.y, h.status]
    split
    · exact ih (group_alike h)
    · exact .some h

theorem hist_alike (n : Nat) (h : Alike pAtr s t) : Alike pAtr (s.hist n) (t.hist n) := by
  induction n generalizing s t with
  | zero => exact h
  | succ n ih =>
    rw [hist, hist, h.status]
    split
    · exact ih (getAtr_alike h)
    · exact h

end AtrReader

/-- A card that falls silent is taken for one that sends what the buffer held before. -/
theorem datablockAtr_silent (fuel : Nat) (card : List CardChar) (pAtr : Nat → UInt8) (n : Nat) :
    (iso7816DatablockAtr fuel (card ++ okChars (readAt pAtr card.length n)) pAtr).map
        (fun r => (r.1, r.2.1, r.2.2.atr)) =
      (iso7816DatablockAtr fuel card pAtr).map fun r => (r.1, r.2.1, r.2.2.atr) := by
  have h : AtrReader.Alike pAtr { card, atr := pAtr, i := 0, y := 0, status := 0 }
      { card := card ++ okChars (readAt pAtr card.length n), atr := pAtr, i := 0, y := 0
        status := 0 } :=
    ⟨rfl, rfl, rfl, rfl, fun _ _ => rfl, n, by rw [Nat.zero_add]⟩
  have ts := AtrReader.getAtr_alike h
  have t0 := AtrReader.getAtr_alike ts
  rw [iso7816DatablockAtr, iso7816DatablockAtr]
  generalize AtrReader.getAtr _ = s1 at ts t0 ⊢
  generalize AtrReader.getAtr _ = t1 at ts t0 ⊢
  generalize s1.getAtr = s2 at t0
  generalize t1.getAtr = t2 at t0
  have y : s2.atr 1 &&& 0xf0 = t2.atr 1 &&& 0xf0 := by rw [t0.atr]
  have td := AtrReader.groups_alike fuel (AtrReader.withY_alike t0 y)
  simp only
  generalize AtrReader.groups fuel _ = gs at td ⊢
  generalize AtrReader.groups fuel _ = gt at td ⊢
  rw [ts.status, t0.status]
  split
  · simp [ts.atr]
  · split
    · simp [t0.atr]
    · cases td with
      | none => rfl
      | @some s3 t3 h3 =>
        have hist := AtrReader.hist_alike (s3.atr 1 &&& 0x0f).toNat h3
        simp only [h3.status, h3.atr]
        generalize (s3.atr 1 &&& 0x0f).toNat = count at hist ⊢
        rw [hist.status, hist.i]
        split
        · simp [h3.atr]
        · split
          · simp [hist.atr]
          · simp [hist.atr]

end Simtrace2
