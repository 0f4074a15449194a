import Simtrace2.Firmware.Ledger

/-! The slow path of `dispatch_received_msg`: how it walks over what has been received, when
it ends, and where the buffers go. -/
namespace Simtrace2
open Lib

namespace Device

/-- What is left of the message after `k` turns of the loop. -/
def rest (msg : Msgb) : Nat → Msgb
  | 0 => msg
  | k + 1 => rest (msg.msgbPull (msgLen msg)) k

/-- The loop gets to its turn `k`: in every turn before a segment was allocated, and
something was left behind it. -/
def Reaches (msg : Msgb) (allocs : Nat → Option Segment) : Nat → Prop
  | 0 => True
  | k + 1 => (allocs 0).isSome ∧ msgLen msg ≤ msg.len ∧ (msg.msgbPull (msgLen msg)).len ≠ 0 ∧
      Reaches (msg.msgbPull (msgLen msg)) (fun i => allocs (i + 1)) k

/-- The outcomes of the first `n` allocations of the loop. -/
def firstAllocs (allocs : Nat → Option Segment) (n : Nat) : List (Option Segment) :=
  (List.range n).map allocs

theorem firstAllocs_succ (allocs : Nat → Option Segment) (n : Nat) :
    firstAllocs allocs (n + 1) = allocs 0 :: firstAllocs (fun i => allocs (i + 1)) n := by
  simp [firstAllocs, List.range_succ_eq_map, Function.comp_def]

/-- No length field that the loop comes to is zero. -/
def Advances (msg : Msgb) (allocs : Nat → Option Segment) : Prop :=
  ∀ k, Reaches msg allocs k → (allocs k).isSome → 0 < msgLen (rest msg k)

/-- Every turn leaves the loop or shortens what is left. -/
def Shortens (msg : Msgb) (allocs : Nat → Option Segment) : Prop :=
  ∀ k, Reaches msg allocs k → (allocs k).isSome → msgLen (rest msg k) ≤ (rest msg k).len →
    (rest msg (k + 1)).len = 0 ∨ (rest msg (k + 1)).len < (rest msg k).len

/-- The device has freed or handed on the buffers `taken`, each as often as it is listed. -/
def Accounts (d d' : Device) (taken : List Nat) : Prop :=
  ∀ x, d'.emu.stock x = d.emu.stock x + taken.count x

def segmentTags (allocs : List (Option Segment)) : List Nat :=
  (allocs.filterMap id).map Segment.tag

/-- The buffers that were there for the reports of the segments. -/
def reportTags (allocs : List (Option Segment)) : List Nat :=
  (allocs.filterMap id).filterMap Segment.report

/-- A run of the dispatch, over the outcomes of its allocations, is over after `turns` of
them and not before. It has given away the message, every segment and every report, each once. -/
structure Over (d : Device) (tag : Nat) (report : Alloc) (allocs : Nat → Option Segment)
    (run : List (Option Segment) → Option Device) (turns : Nat) : Prop where
  before : ∀ fewer < turns, run (firstAllocs allocs fewer) = none
  returns : ∃ d' reported, run (firstAllocs allocs turns) = some d' ∧
    reported.Sublist (report.toList ++ reportTags (firstAllocs allocs turns)) ∧
    Accounts d d' (tag :: segmentTags (firstAllocs allocs turns) ++ reported)

/-- The segmentation of a received buffer ends, a turn of its loop leaves it or shortens
what is left, and the buffers are given away. -/
structure SegmentsWell (d : Device) (msg : Msgb) (report : Alloc) (allocs : Nat → Option Segment) :
    Prop where
  shortens : msgLen msg ≠ msg.len → Shortens msg allocs
  ended : ∃ turns, Over d msg.tag report allocs (d.dispatchReceivedMsg msg report) turns

variable {d : Device} {msg : Msgb} {allocs : Nat → Option Segment}

theorem Advances.next (h : Advances msg allocs) (some' : (allocs 0).isSome)
    (fits : msgLen msg ≤ msg.len) (left : (msg.msgbPull (msgLen msg)).len ≠ 0) :
    Advances (msg.msgbPull (msgLen msg)) (fun i => allocs (i + 1)) := by
  intro k reached alloc
  exact h (k + 1) ⟨some', fits, left, reached⟩ alloc

theorem rest_succ (msg : Msgb) (k : Nat) :
    rest msg (k + 1) = (rest msg k).msgbPull (msgLen (rest msg k)) := by
  induction k generalizing msg with
  | zero => rfl
  | succ k ih => exact ih (msg.msgbPull (msgLen msg))

theorem Reaches.left {k : Nat} (h : Reaches msg allocs (k + 1)) : (rest msg (k + 1)).len ≠ 0 := by
  induction k generalizing msg allocs with
  | zero => exact h.2.2.1
  | succ k ih => exact ih h.2.2.2

theorem len_pull {n : Nat} (fits : n ≤ msg.len) (small : msg.len < 65536) :
    (msg.msgbPull n).len = msg.len - n := by
  simp only [Msgb.msgbPull]
  omega

theorem len_rest (small : msg.len < 65536) (k : Nat) : (rest msg k).len < 65536 := by
  cases k with
  | zero => exact small
  | succ k =>
    rw [rest_succ]
    exact Msgb.len_pull _ _

/-- A turn shortens what is left exactly when its length field is not zero. -/
theorem shortens_iff (small : msg.len < 65536) (slow : msgLen msg ≠ msg.len) :
    Shortens msg allocs ↔ Advances msg allocs := by
  constructor
  · intro h k reached alloc
    by_contra zero
    have none : msgLen (rest msg k) = 0 := Nat.eq_zero_of_not_pos zero
    have same : (rest msg (k + 1)).len = (rest msg k).len := by
      rw [rest_succ, none, len_pull (Nat.zero_le _) (len_rest small k), Nat.sub_zero]
    have turn := h k reached alloc (by rw [none]; exact Nat.zero_le _)
    rw [same] at turn
    have empty : (rest msg k).len = 0 := turn.resolve_right (Nat.lt_irrefl _)
    cases k with
    | zero => exact slow (none.trans empty.symm)
    | succ k => exact reached.left empty
  · intro h k reached alloc fits
    have some' := h k reached alloc
    rw [rest_succ, len_pull fits (len_rest small k)]
    omega

namespace Accounts

variable {d d' d'' : Device} {taken taken' : List Nat}

theorem trans (h : Accounts d d' taken) (h' : Accounts d' d'' taken') :
    Accounts d d'' (taken ++ taken') := by
  intro x
  rw [h' x, h x, List.count_append, Nat.add_assoc]

theorem perm (h : Accounts d d' taken) (same : taken.Perm taken') : Accounts d d' taken' := by
  intro x
  rw [h x, same.count_eq]

theorem free (d : Device) (tag : Nat) : Accounts d (d.usbBufFree tag) [tag] := d.stock_free tag

/-- A dispatched message goes the way of every buffer, and so does its report. -/
theorem dispatch (d : Device) (msg : Msgb) (report : Alloc) :
    Accounts d (d.dispatchUsbCommand msg report)
      (msg.tag :: if dispatchAsks msg then report.toList else []) := by
  intro x
  rw [stock_dispatch]
  split <;> simp only [List.count_cons, List.count_nil] <;> omega

end Accounts

theorem asked_sublist (msg : Msgb) (report : Alloc) :
    (if dispatchAsks msg then report.toList else []).Sublist report.toList := by
  split
  · exact List.Sublist.refl _
  · exact List.nil_sublist _

/-- The loop is over in its first turn. -/
theorem Over.first {taken : List Nat} {d' : Device} (reported : List Nat)
    (ends : d.dispatchSegments msg [allocs 0] = some d')
    (made : reported.Sublist (reportTags [allocs 0]))
    (accounts : Accounts d d' taken)
    (all : taken.Perm (msg.tag :: segmentTags [allocs 0] ++ reported)) :
    Over d msg.tag none allocs (d.dispatchSegments msg) 1 where
  before := by
    intro fewer first
    rw [Nat.lt_one_iff.mp first]
    rfl
  returns := ⟨d', reported, ends, made, accounts.perm all⟩

/-- A turn before the end. -/
theorem Over.turn {s : Segment} {turns : Nat} (first : allocs 0 = some s)
    (fits : msgLen msg ≤ msg.len) (left : (msg.msgbPull (msgLen msg)).len ≠ 0)
    (ended : Over (d.dispatchUsbCommand (segment msg (msgLen msg) s) s.report) msg.tag none
      (fun i => allocs (i + 1)) (Device.dispatchSegments
        (d.dispatchUsbCommand (segment msg (msgLen msg) s) s.report)
        (msg.msgbPull (msgLen msg))) turns) :
    Over d msg.tag none allocs (d.dispatchSegments msg) (turns + 1) := by
  have step (n : Nat) : d.dispatchSegments msg (firstAllocs allocs (n + 1)) =
      Device.dispatchSegments (d.dispatchUsbCommand (segment msg (msgLen msg) s) s.report)
        (msg.msgbPull (msgLen msg)) (firstAllocs (fun i => allocs (i + 1)) n) := by
    rw [firstAllocs_succ, first]
    simp only [dispatchSegments]
    rw [if_neg (Nat.not_lt.mpr fits), if_neg left]
  constructor
  · intro fewer few
    cases fewer with
    | zero => rfl
    | succ n =>
      rw [step]
      exact ended.before n (Nat.lt_of_succ_lt_succ few)
  · obtain ⟨d', reported, ends, made, accounts⟩ := ended.returns
    have sent := Accounts.dispatch d (segment msg (msgLen msg) s) s.report
    refine ⟨d', (if dispatchAsks (segment msg (msgLen msg) s) then s.report.toList else [])
      ++ reported, ?_, ?_, (sent.trans accounts).perm ?_⟩
    · rw [step]
      exact ends
    · have tags : reportTags (firstAllocs allocs (turns + 1)) =
          s.report.toList ++ reportTags (firstAllocs (fun i => allocs (i + 1)) turns) := by
        rw [firstAllocs_succ, first]
        cases report : s.report <;> simp [reportTags, report]
      rw [Option.toList_none, List.nil_append, tags]
      exact (asked_sublist _ _).append made
    · have tags : segmentTags (firstAllocs allocs (turns + 1)) =
          s.tag :: segmentTags (firstAllocs (fun i => allocs (i + 1)) turns) := by
        rw [firstAllocs_succ, first]
        rfl
      rw [tags, List.perm_iff_count]
      intro x
      simp only [segment, Msgb.received, List.count_append, List.count_cons]
      omega

theorem over_segments (small : msg.len < 65536) (advances : Advances msg allocs) :
    ∃ turns, Over d msg.tag none allocs (d.dispatchSegments msg) turns := by
  induction size : msg.len using Nat.strong_induction_on generalizing msg allocs d with
  | _ n shorter =>
    cases first : allocs 0 with
    | none =>
      refine ⟨1, Over.first [] ?_ (List.nil_sublist _) (Accounts.free d msg.tag) ?_⟩
      · rw [first]
        rfl
      · rw [first]
        exact List.Perm.refl _
    | some s =>
      have some' : (allocs 0).isSome := by rw [first]; rfl
      have some'' : 0 < msgLen msg := advances 0 trivial some'
      by_cases large : msg.len < msgLen msg
      · refine ⟨1, Over.first [] ?_ (List.nil_sublist _)
          ((Accounts.free d s.tag).trans (Accounts.free _ msg.tag)) ?_⟩
        · rw [first, dispatchSegments, if_pos large]
        · rw [first]
          exact List.Perm.swap _ _ _
      · have fits := Nat.not_lt.mp large
        by_cases left : (msg.msgbPull (msgLen msg)).len = 0
        · have sent := Accounts.dispatch d (segment msg (msgLen msg) s) s.report
          refine ⟨1, Over.first (if dispatchAsks (segment msg (msgLen msg) s) then s.report.toList
            else []) ?_ ?_ (sent.trans (Accounts.free _ msg.tag)) ?_⟩
          · rw [first]
            simp only [dispatchSegments]
            rw [if_neg large, if_pos left]
          · rw [first]
            have tags : reportTags [some s] = s.report.toList := by
              cases report : s.report <;> simp [reportTags, report]
            rw [tags]
            exact asked_sublist _ _
          · have one : segmentTags [some s] = [s.tag] := rfl
            rw [first, one, List.perm_iff_count]
            intro x
            simp only [segment, Msgb.received, List.count_append, List.count_cons, List.count_nil]
            omega
        · have lt : (msg.msgbPull (msgLen msg)).len < n := by
            rw [len_pull fits small]
            omega
          obtain ⟨turns, ended⟩ := shorter _ lt
            (d := d.dispatchUsbCommand (segment msg (msgLen msg) s) s.report)
            (Msgb.len_pull _ _) (advances.next some' fits left) rfl
          exact ⟨turns + 1, ended.turn first fits left⟩

/-- A length field of zero is found again in every later turn. -/
theorem dispatchSegments_zero (small : msg.len < 65536) (zero : msgLen msg = 0) (some' : msg.len ≠ 0)
    (segments : List Segment) : d.dispatchSegments msg (segments.map some) = none := by
  induction segments generalizing d with
  | nil => rfl
  | cons s segments ih =>
    have same : msg.msgbPull 0 = msg := by
      have len : (msg.msgbPull 0).len = msg.len := len_pull (Nat.zero_le _) small
      simp only [Msgb.msgbPull] at len ⊢
      rw [len]
      rfl
    rw [List.map_cons, dispatchSegments, zero, if_neg (Nat.not_lt_zero _), same, if_neg some']
    exact ih

/-- The segmentation of a received buffer goes well exactly when the buffer is one message,
or the loop comes to no length field that is zero. -/
theorem segmentsWell_iff (d : Device) (tag : Nat) (bytes : List UInt8) (behind : Nat → UInt8)
    (report : Alloc) (allocs : Nat → Option Segment) :
    SegmentsWell d (.received tag bytes behind) report allocs ↔
      msgLen (.received tag bytes behind) = (Msgb.received tag bytes behind).len ∨
        Advances (.received tag bytes behind) allocs := by
  have small : (Msgb.received tag bytes behind).len < 65536 := Nat.mod_lt _ (by decide)
  constructor
  · intro h
    by_cases fast : msgLen (.received tag bytes behind) = (Msgb.received tag bytes behind).len
    · exact Or.inl fast
    · exact Or.inr ((shortens_iff small fast).mp (h.shortens fast))
  · intro h
    by_cases fast : msgLen (.received tag bytes behind) = (Msgb.received tag bytes behind).len
    · refine ⟨fun slow => absurd fast slow, 0, ?_, ?_⟩
      · intro fewer none
        exact absurd none (Nat.not_lt_zero _)
      refine ⟨d.dispatchUsbCommand (.received tag bytes behind) report, _, if_pos fast, ?_,
        Accounts.dispatch d _ report⟩
      exact (asked_sublist _ report).trans (List.sublist_append_left _ _)
    · have advances := h.resolve_left fast
      refine ⟨fun _ => (shortens_iff small fast).mpr advances, ?_⟩
      have slow : d.dispatchReceivedMsg (.received tag bytes behind) report =
          d.dispatchSegments (.received tag bytes behind) := by
        funext taken
        exact if_neg fast
      rw [slow]
      obtain ⟨turns, ended⟩ := over_segments small advances
      obtain ⟨d', reported, ends, made, accounts⟩ := ended.returns
      exact ⟨turns, ended.before, d', reported, ends, made.trans (List.sublist_append_right _ _),
        accounts⟩

/-- A header whose length field is zero. -/
def zeroLength : Msgb := .received 0 [3, 3, 0, 0, 0, 0, 0, 0] fun _ => 0

def idle : Device :=
  (Port.init ⟨0, 0x81, 0x83, true, true, CardSlot.quietUart, .untouched .absent, false, none, false,
    fun _ => 64⟩).dev

/-- The loop does not end, however many segments it is given. -/
theorem zero_length_loops :
    (∀ report (segments : List Segment),
        idle.dispatchReceivedMsg zeroLength report (segments.map some) = none) ∧
      ∀ report, ¬SegmentsWell idle zeroLength report fun i => some ⟨i + 1, fun _ => 0, none⟩ := by
  have never (segments : List Segment) : idle.dispatchSegments zeroLength (segments.map some) = none :=
    dispatchSegments_zero (by decide) (by decide) (by decide) segments
  refine ⟨fun report segments => never segments, fun report h => ?_⟩
  obtain ⟨turns, ended⟩ := h.ended
  obtain ⟨d', _, ends, _⟩ := ended.returns
  have again : firstAllocs (fun i => some (⟨i + 1, fun _ => 0, none⟩ : Segment)) turns =
      ((List.range turns).map fun i => (⟨i + 1, fun _ => 0, none⟩ : Segment)).map some := by
    rw [List.map_map]
    rfl
  rw [again] at ends
  exact Option.some_ne_none d' (ends.symm.trans (never _))

end Device
end Simtrace2
