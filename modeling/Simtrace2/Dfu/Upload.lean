import Simtrace2.Dfu.Sticky

/-! An upload reads a partition from where the last one ended, or from where one of another
partition ended when the host has changed the alternate setting in between. -/
namespace Simtrace2
open Lib

namespace DfuBoard

/-- Where the partition of an alternate setting begins and ends, and the last address that
the source checks before it copies. -/
def first (b : DfuBoard) (altif : Nat) : Nat := if altif = altifRam then ramAddr 0 else b.flashAddr 0

def last (b : DfuBoard) (altif : Nat) : Nat := if altif = altifRam then b.iramEnd else b.iflashEnd

def checked (b : DfuBoard) (altif : Nat) : Nat :=
  if altif = altifRam then b.iramEnd else iflashAddr + b.chip.iflashSize

def addr (b : DfuBoard) (altif offset : Nat) : Nat :=
  if altif = altifRam then ramAddr offset else b.flashAddr offset

theorem bounds (b : DfuBoard) (altif : Nat) : b.first altif ≤ b.last altif ∧
    b.last altif ≤ b.checked altif ∧ b.checked altif < 2 ^ 30 := by
  unfold first last checked
  by_cases ram : altif = altifRam
  · simp only [if_pos ram]
    unfold iramEnd
    cases b.chip <;> decide
  · simp only [if_neg ram]
    unfold iflashEnd flashAddr
    cases b.chip <;> cases b.environment <;> decide

end DfuBoard

namespace Dfu

/-- The bytes that are copied are no more than asked for, and lie in the partition; or none
are copied and the result is -1. -/
def InsidePartition (b : DfuBoard) (d : Dfu) (altif offset reqLen : Nat) : Prop :=
  ∀ bytes, (d.usbdfuHandleUpload b altif offset reqLen).2 = some bytes →
    bytes = readAt d.mem (b.addr altif offset) bytes.length ∧ bytes.length ≤ reqLen ∧
      ∀ a, b.addr altif offset ≤ a → a < b.addr altif offset + bytes.length →
        b.first altif ≤ a ∧ a < b.last altif

/-- The address is refused, or it is not behind the end of the partition; and it is not in
front of it, as it is where the sum has wrapped, unless nothing is asked for. -/
def UploadSafe (b : DfuBoard) (altif offset reqLen : Nat) : Prop :=
  altif = altifRam ∨ altif = b.altifFlash →
    b.checked altif < b.addr altif offset ∨
      b.addr altif offset ≤ b.last altif ∧ (b.first altif ≤ b.addr altif offset ∨ reqLen = 0)

/-- `req_len` after the clipping. -/
def clipped (past addr reqLen : Nat) : Nat :=
  if past < addr + reqLen then u32 (past + 2 ^ 32 - addr) else reqLen

theorem clipped_inside {past addr : Nat} (inside : addr ≤ past) (small : past < 2 ^ 32)
    (reqLen : Nat) : clipped past addr reqLen = min reqLen (past - addr) := by
  unfold clipped u32
  split <;> omega

/-- Behind the end the difference of the pointers is negative, and huge as a length. -/
theorem clipped_behind {past addr : Nat} (behind : past < addr) (small : addr < 2 ^ 30)
    (reqLen : Nat) : 2 ^ 31 < clipped past addr reqLen := by
  unfold clipped u32
  rw [if_pos (by omega)]
  omega

variable {b : DfuBoard} {d : Dfu} {altif offset reqLen : Nat}

theorem usbdfuHandleUpload_known (known : altif = altifRam ∨ altif = b.altifFlash) :
    (d.usbdfuHandleUpload b altif offset reqLen).2 =
      if b.checked altif < b.addr altif offset then none
      else some (readAt d.mem (b.addr altif offset)
        (clipped (b.last altif) (b.addr altif offset) reqLen)) := by
  have apart := altifFlash_ne b
  rcases known with rfl | rfl
  · simp only [usbdfuHandleUpload, if_true, DfuBoard.checked, DfuBoard.addr, DfuBoard.last, clipped]
    split <;> rfl
  · simp only [usbdfuHandleUpload, if_neg apart, if_true, DfuBoard.checked, DfuBoard.addr,
      DfuBoard.last, clipped]
    split <;> rfl

/-- What is copied lies in the partition exactly when the address is safe. -/
theorem insidePartition_iff (small : reqLen ≤ boardDfuPageSize) :
    InsidePartition b d altif offset reqLen ↔ UploadSafe b altif offset reqLen := by
  have page : boardDfuPageSize = 512 := rfl
  obtain ⟨whole, least, top⟩ := b.bounds altif
  by_cases known : altif = altifRam ∨ altif = b.altifFlash
  · rw [InsidePartition, UploadSafe, usbdfuHandleUpload_known known, forall_prop_of_true known]
    by_cases refused : b.checked altif < b.addr altif offset
    · simp [refused]
    · rw [if_neg refused, or_iff_right refused]
      by_cases behind : b.last altif < b.addr altif offset
      · have huge := clipped_behind behind (by omega) reqLen
        constructor
        · intro h
          have short := (h _ rfl).2.1
          rw [readAt_length] at short
          omega
        · rintro ⟨before, _⟩
          omega
      · have count := clipped_inside (Nat.not_lt.mp behind) (by omega) reqLen
        constructor
        · intro h
          refine ⟨Nat.not_lt.mp behind, ?_⟩
          by_contra wrapped
          have first := (h _ rfl).2.2 (b.addr altif offset) (Nat.le_refl _)
            (by rw [readAt_length, count]; omega)
          omega
        · rintro ⟨_, fits⟩ bytes same
          injection same with same
          subst same
          rw [readAt_length, count]
          refine ⟨rfl, Nat.min_le_left _ _, ?_⟩
          intro a low high
          omega
  · have none : (d.usbdfuHandleUpload b altif offset reqLen).2 = none := by
      rw [not_or] at known
      rw [usbdfuHandleUpload, if_neg known.1, if_neg known.2]
    constructor
    · intro _ yes
      exact absurd yes known
    · intro _ bytes some'
      rw [none] at some'
      cases some'

end Dfu

/-- What the host can do about uploads. An UPLOAD comes with the call-back of its transfer,
or without one where `USBD_Write` refuses the bytes. -/
inductive UploadInput where
  | upload (len : Nat) (done : Option (Bool × Nat))
  | abort
  | setInterface (setting : Nat)

namespace Dfu

instance (b : DfuBoard) (altif offset : Nat) : Decidable (OutsideOf b altif offset) :=
  inferInstanceAs (Decidable (_ ∨ _ ∨ _))

instance (b : DfuBoard) (d : Dfu) (len : Nat) : Decidable (d.UploadRefused b len) :=
  inferInstanceAs (Decidable (_ ∨ _))

def uploading (d : Dfu) : Bool := d.state = .dfuIdle ∨ d.state = .dfuUploadIdle

def uploadStep (b : DfuBoard) (d : Dfu) : UploadInput → Dfu
  | .upload len none => d.usbdfuDfuRequestHandler b .upload len false
  | .upload len (some (success, transferred)) =>
    let after := d.usbdfuDfuRequestHandler b .upload len true
    if d.uploading ∧ ¬d.UploadRefused b len then after.uploadCb success transferred else after
  | .abort => d.usbdfuDfuRequestHandler b .abort 0 true
  | .setInterface setting => { d with altsetting := setting }.answer .zlp

/-- The controller transfers no more than it was given. -/
def Counted (b : DfuBoard) (d : Dfu) : UploadInput → Prop
  | .upload len (some (_, transferred)) => ∀ bytes,
      (d.usbdfuHandleUpload b d.altsetting d.uploadOffset len).2 = some bytes →
        transferred ≤ bytes.length
  | _ => True

/-- The call of `USBDFU_handle_upload` that the input leads to, if any, stays inside. -/
def CallInside (b : DfuBoard) (d : Dfu) : UploadInput → Prop
  | .upload len _ => d.uploading → len ≤ boardDfuPageSize →
      InsidePartition b d d.altsetting d.uploadOffset len
  | _ => True

/-- No upload of the flash goes on from behind the end of the boot loader's partition. -/
def BeforeEnd (b : DfuBoard) (d : Dfu) : UploadInput → Prop
  | .upload len _ => b.environment = .dfu → d.altsetting = b.altifFlash →
      d.state = .dfuUploadIdle → len ≤ boardDfuPageSize → d.totalBytes ≤ boardDfuBootSize
  | _ => True

end Dfu

/-- The size of the larger partition. -/
def DfuBoard.room (b : DfuBoard) : Nat :=
  max (b.iramEnd - DfuBoard.ramAddr 0) (b.iflashEnd - b.flashAddr 0)

theorem DfuBoard.room_bounds (b : DfuBoard) (altif : Nat) :
    b.last altif ≤ b.first altif + b.room ∧ b.first altif + b.room < 2 ^ 30 ∧
      (altif ≠ altifRam → b.environment = .dfu → b.first altif + b.room ≤ b.checked altif) := by
  unfold first last checked room
  by_cases ram : altif = altifRam
  · simp only [if_pos ram]
    unfold iramEnd iflashEnd flashAddr
    cases b.chip <;> cases b.environment <;> simp [ram] <;> decide
  · simp only [if_neg ram]
    unfold iramEnd iflashEnd flashAddr
    cases b.chip <;> cases b.environment <;> simp [ram] <;> decide

namespace Dfu
variable {b : DfuBoard} {d : Dfu} {altif offset len : Nat}

/-- As far as the partitions reach, no address wraps. -/
theorem addr_eq (few : offset ≤ b.room) : b.addr altif offset = b.first altif + offset := by
  have top : b.room < 2 ^ 30 := by
    have bound := (b.room_bounds altif).2.1
    omega
  have whole : ∀ base ≤ 2 ^ 30, u32 (base + offset) = u32 base + offset := by
    intro base small
    simp only [u32]
    omega
  unfold DfuBoard.addr DfuBoard.first
  by_cases ram : altif = altifRam
  · rw [if_pos ram, if_pos ram]
    exact whole _ (by decide)
  · rw [if_neg ram, if_neg ram]
    unfold DfuBoard.flashAddr
    cases b.environment with
    | flash => exact whole _ (by decide)
    | dfu => exact whole _ (by decide)

/-- Between the uploads of a session, and in the middle of one. -/
structure UploadSession (b : DfuBoard) (d : Dfu) : Prop where
  state : d.uploading = true ∨ d.state = .dfuError
  few : d.state = .dfuUploadIdle → d.totalBytes ≤ b.room

theorem UploadSession.offset_le (h : UploadSession b d) (uploading : d.uploading = true) :
    d.uploadOffset ≤ b.room := by
  unfold uploadOffset
  split
  · exact Nat.zero_le _
  · rename_i other
    exact h.few ((of_decide_eq_true uploading).resolve_left other)

/-- In a session the only unsafe address is one behind the end of the boot loader. -/
theorem UploadSession.safe_iff (h : UploadSession b d) (uploading : d.uploading = true) :
    UploadSafe b d.altsetting d.uploadOffset len ↔
      (b.environment = .dfu → d.altsetting = b.altifFlash → d.state = .dfuUploadIdle →
        d.totalBytes ≤ boardDfuBootSize) := by
  have few := h.offset_le uploading
  obtain ⟨_, _, whole⟩ := b.room_bounds d.altsetting
  obtain ⟨order, _, _⟩ := b.bounds d.altsetting
  rw [UploadSafe, addr_eq few]
  by_cases ram : d.altsetting = altifRam
  · have other : d.altsetting ≠ b.altifFlash := by
      rw [ram]
      exact (altifFlash_ne b).symm
    have same : b.checked d.altsetting = b.last d.altsetting := by
      simp only [DfuBoard.checked, DfuBoard.last, if_pos ram]
    constructor
    · intro _ _ flash
      exact absurd flash other
    · intro _ _
      omega
  · cases env : b.environment with
    | flash =>
      have same : b.checked d.altsetting = b.last d.altsetting := by
        simp only [DfuBoard.checked, DfuBoard.last, if_neg ram, DfuBoard.iflashEnd, env]
      constructor
      · intro _ no
        cases no
      · intro _ _
        omega
    | dfu =>
      have last : b.last d.altsetting = b.first d.altsetting + boardDfuBootSize := by
        simp only [DfuBoard.last, DfuBoard.first, if_neg ram, DfuBoard.iflashEnd,
          DfuBoard.flashAddr, env]
        rfl
      have checked := whole ram env
      constructor
      · intro safe _ flash going
        have total : d.uploadOffset = d.totalBytes := by
          unfold uploadOffset
          rw [if_neg (by rw [going]; decide)]
        have before := safe (Or.inr flash)
        omega
      · intro before known
        have flash := known.resolve_left ram
        unfold uploadOffset at few ⊢
        split
        · omega
        · rename_i going
          have total := before rfl flash ((of_decide_eq_true uploading).resolve_left going)
          rw [if_neg going] at few
          omega

theorem callInside_iff (h : UploadSession b d) (i : UploadInput) :
    CallInside b d i ↔ BeforeEnd b d i := by
  cases i with
  | abort | setInterface _ => exact Iff.rfl
  | upload len done =>
    constructor
    · intro inside env flash going short
      have uploading : d.uploading = true := decide_eq_true (Or.inr going)
      exact (h.safe_iff uploading).mp ((insidePartition_iff short).mp (inside uploading short)) env
        flash going
    · intro before uploading short
      refine (insidePartition_iff short).mpr ((h.safe_iff uploading).mpr ?_)
      intro env flash going
      exact before env flash going short

/-- An upload counts nothing by itself, and the state is as before or dfuERROR. -/
theorem usbdfuHandleUpload_leaves (b : DfuBoard) (d : Dfu) (altif offset reqLen : Nat) :
    (d.usbdfuHandleUpload b altif offset reqLen).1.totalBytes = d.totalBytes ∧
      ((d.usbdfuHandleUpload b altif offset reqLen).1.state = d.state ∨
        (d.usbdfuHandleUpload b altif offset reqLen).1.state = .dfuError) := by
  simp only [usbdfuHandleUpload]
  split
  · split
    · exact ⟨rfl, Or.inr rfl⟩
    · exact ⟨rfl, Or.inl rfl⟩
  · split
    · split
      · exact ⟨rfl, Or.inr rfl⟩
      · exact ⟨rfl, Or.inl rfl⟩
    · exact ⟨rfl, Or.inl rfl⟩

theorem served_leaves (b : DfuBoard) (d : Dfu) (len : Nat) (accepted : Bool) :
    (d.served b len accepted).1.totalBytes = d.totalBytes ∧
      ((d.served b len accepted).1.state = d.state ∨
        (d.served b len accepted).1.state = .dfuError) := by
  have leaves := usbdfuHandleUpload_leaves b d d.altsetting d.totalBytes len
  unfold served
  rcases r : d.usbdfuHandleUpload b d.altsetting d.totalBytes len with ⟨e, none | bytes⟩
  · rw [r] at leaves
    exact leaves
  · rw [r] at leaves
    cases accepted with
    | true => exact leaves
    | false => exact leaves

theorem handleUpload_leaves (b : DfuBoard) (d : Dfu) (len : Nat) (first accepted : Bool) :
    (d.handleUpload b len first accepted).1.totalBytes = (d.begun first).totalBytes ∧
      ((d.handleUpload b len first accepted).1.state = d.state ∨
        (d.handleUpload b len first accepted).1.state = .dfuError) := by
  rw [handleUpload_begun]
  by_cases long : boardDfuPageSize < len
  · rw [if_pos long]
    exact ⟨rfl, Or.inr rfl⟩
  · rw [if_neg long, ← (d.begun_eq first).2.1]
    exact served_leaves b (d.begun first) len accepted

/-- The request itself counts nothing, and ends the session only with an error. -/
theorem upload_leaves (b : DfuBoard) {d : Dfu} (len : Nat)
    (state : d.uploading = true ∨ d.state = .dfuError) (accepted : Bool) :
    (d.usbdfuDfuRequestHandler b .upload len accepted).totalBytes = d.uploadOffset ∧
      ((d.usbdfuDfuRequestHandler b .upload len accepted).uploading = true ∨
        (d.usbdfuDfuRequestHandler b .upload len accepted).state = .dfuError) := by
  rcases state with uploading | error
  · rcases of_decide_eq_true uploading with idle | going
    · obtain ⟨total, after⟩ :=
        handleUpload_leaves b { d with state := .dfuUploadIdle } len true accepted
      simp only [usbdfuDfuRequestHandler, handleRequest, idle, uploadOffset, if_true]
      refine ⟨total, ?_⟩
      rcases after with same | error
      · exact Or.inl (decide_eq_true (Or.inr same))
      · exact Or.inr error
    · obtain ⟨total, after⟩ := handleUpload_leaves b d len false accepted
      simp only [usbdfuDfuRequestHandler, handleRequest, going, uploadOffset]
      split
      · exact ⟨total, Or.inl (decide_eq_true (Or.inl rfl))⟩
      · refine ⟨total, ?_⟩
        rcases after with same | error
        · exact Or.inl (decide_eq_true (Or.inr (same.trans going)))
        · exact Or.inr error
  · simp only [usbdfuDfuRequestHandler, handleRequest, error, otherwise, uploadOffset]
    exact ⟨rfl, Or.inr rfl⟩

/-- What is copied from a partition does not reach beyond the room for it. -/
theorem UploadSession.sent (h : UploadSession b d) (uploading : d.uploading = true)
    (inside : InsidePartition b d d.altsetting d.uploadOffset len) {bytes : List UInt8}
    (copied : (d.usbdfuHandleUpload b d.altsetting d.uploadOffset len).2 = some bytes) :
    d.uploadOffset + bytes.length ≤ b.room := by
  have few := h.offset_le uploading
  have most := (b.room_bounds d.altsetting).1
  have range := (inside bytes copied).2.2
  rw [addr_eq few] at range
  rcases Nat.eq_zero_or_pos bytes.length with none | some'
  · omega
  · have top := (range (b.first d.altsetting + d.uploadOffset + (bytes.length - 1)) (by omega)
      (by omega)).2
    omega

theorem UploadSession.request (h : UploadSession b d) (accepted : Bool) :
    UploadSession b (d.usbdfuDfuRequestHandler b .upload len accepted) := by
  obtain ⟨total, state⟩ := upload_leaves b len h.state accepted
  refine ⟨state, ?_⟩
  intro going
  rcases h.state with uploading | error
  · rw [total]
    exact h.offset_le uploading
  · have stuck : (d.usbdfuDfuRequestHandler b .upload len accepted).state = .dfuError :=
      error_sticks error (by decide)
    rw [going] at stuck
    cases stuck

/-- The call-back counts what was sent, which was in the partition. -/
theorem UploadSession.counts (h : UploadSession b d) {success : Bool} {transferred : Nat}
    (counted : Counted b d (.upload len (some (success, transferred))))
    (inside : CallInside b d (.upload len (some (success, transferred))))
    (serves : d.uploading = true ∧ ¬d.UploadRefused b len) :
    UploadSession b
      ((d.usbdfuDfuRequestHandler b .upload len true).uploadCb success transferred) := by
  obtain ⟨uploading, served⟩ := serves
  rw [UploadRefused, not_or] at served
  have kept : UploadSession b (d.usbdfuDfuRequestHandler b .upload len true) := h.request true
  have total := (upload_leaves b len h.state true).1
  cases success with
  | false => exact ⟨kept.state, kept.few⟩
  | true =>
    refine ⟨kept.state, ?_⟩
    intro _
    rcases usbdfuHandleUpload_cases b d d.altsetting d.uploadOffset len with
      ⟨outside, _⟩ | ⟨_, bytes, r⟩
    · exact absurd outside served.2
    · have copied : (d.usbdfuHandleUpload b d.altsetting d.uploadOffset len).2 = some bytes := by
        rw [r]
      have sent := h.sent uploading (inside uploading (Nat.not_lt.mp served.1)) copied
      have few := counted bytes copied
      show u32 ((d.usbdfuDfuRequestHandler b .upload len true).totalBytes + transferred) ≤ b.room
      rw [total]
      exact (Nat.mod_le _ _).trans (by omega)

/-- A session goes on as long as what is copied lies in the partitions. -/
theorem UploadSession.step (h : UploadSession b d) {i : UploadInput} (counted : Counted b d i)
    (inside : CallInside b d i) : UploadSession b (d.uploadStep b i) := by
  cases i with
  | setInterface setting => exact ⟨h.state, h.few⟩
  | abort =>
    rcases h.state with uploading | error
    · rcases of_decide_eq_true uploading with idle | going
      · simp only [uploadStep, usbdfuDfuRequestHandler, handleRequest, idle]
        exact ⟨h.state, h.few⟩
      · simp only [uploadStep, usbdfuDfuRequestHandler, handleRequest, going]
        exact ⟨Or.inl (decide_eq_true (Or.inl rfl)), fun e => by cases e⟩
    · simp only [uploadStep, usbdfuDfuRequestHandler, handleRequest, error, otherwise]
      exact ⟨Or.inr rfl, fun e => by cases e⟩
  | upload len done =>
    cases done with
    | none => exact h.request false
    | some transfer =>
      obtain ⟨success, transferred⟩ := transfer
      simp only [uploadStep]
      split
      · rename_i serves
        exact h.counts counted inside serves
      · exact h.request true

theorem session_inside_iff {start : Dfu} {inputs : List UploadInput} (idle : start.state = .dfuIdle)
    (counted : Meets (uploadStep b) (Counted b) start inputs) :
    Meets (uploadStep b) (CallInside b) start inputs ↔
      Meets (uploadStep b) (BeforeEnd b) start inputs := by
  have begins : UploadSession b start :=
    ⟨Or.inl (decide_eq_true (Or.inl idle)), fun going => by rw [idle] at going; cases going⟩
  refine Meets.iff_of_keeps (UploadSession b) ?_ ?_ begins counted
  · intro d i session counted before
    exact session.step counted ((callInside_iff session i).mpr before)
  · intro d i session _
    exact callInside_iff session i

/-- The boot loader that runs from the flash never reads outside. -/
theorem flash_session_inside (env : b.environment = .flash) {start : Dfu}
    {inputs : List UploadInput} (idle : start.state = .dfuIdle)
    (counted : Meets (uploadStep b) (Counted b) start inputs) :
    Meets (uploadStep b) (CallInside b) start inputs := by
  refine (session_inside_iff idle counted).mpr ?_
  refine Meets.of_keeps (fun _ => True) ?_ trivial (meets_true start inputs)
  intro d i _ _
  refine ⟨trivial, ?_⟩
  cases i with
  | abort | setInterface _ => trivial
  | upload len done =>
    intro other
    rw [env] at other
    cases other

end Dfu

open Dfu

/-- What a call copies lies in the partition exactly when its address is safe. The addresses
of a session are safe as long as no upload of the boot loader's partition goes on from
behind its end, to which only an upload from the RAM can lead. -/
theorem uploads_inside_iff (b : DfuBoard) :
    (∀ d altif offset reqLen, reqLen ≤ boardDfuPageSize →
      (InsidePartition b d altif offset reqLen ↔ UploadSafe b altif offset reqLen)) ∧
    ∀ start inputs, start.state = .dfuIdle → Meets (uploadStep b) (Counted b) start inputs →
      (Meets (uploadStep b) (CallInside b) start inputs ↔
        Meets (uploadStep b) (BeforeEnd b) start inputs) := by
  constructor
  · intro d altif offset reqLen small
    exact insidePartition_iff small
  · intro start inputs idle counted
    exact session_inside_iff idle counted

/-- Idle, with the RAM as the alternate setting. -/
def idleRam : Dfu :=
  { state := .dfuIdle, status := .ok, pastManifest := false, totalBytes := 0, altsetting := 0
    reading := false, mem := fun _ => 0xff, ep0 := [] }

def bootUpdater : DfuBoard := { worn with environment := .dfu }

theorem uploads_inside_aborted :
    Meets (uploadStep bootUpdater) (CallInside bootUpdater) idleRam
      [.upload 512 none, .abort, .setInterface 2, .upload 512 none] := by
  refine ((uploads_inside_iff bootUpdater).2 _ _ rfl ?_).mpr ?_
  · exact ⟨trivial, trivial, trivial, trivial, trivial⟩
  · refine ⟨?_, trivial, trivial, ?_, trivial⟩
    · intro _ _ going
      cases going
    · intro _ _ going
      cases going

/-- The RAM is read for 33 blocks, and then the host turns to the flash. -/
def ramUpload : List UploadInput :=
  List.replicate 33 (.upload 512 (some (true, 512))) ++ [.setInterface 2]

/-- The next block is copied from behind the end of the partition. -/
theorem upload_behind_end :
    ¬Meets (uploadStep bootUpdater) (CallInside bootUpdater) idleRam
      (ramUpload ++ [.upload 512 none]) := by
  intro h
  have offset : (run (uploadStep bootUpdater) idleRam ramUpload).uploadOffset = 33 * 512 := by
    decide +kernel
  have altsetting : (run (uploadStep bootUpdater) idleRam ramUpload).altsetting = 2 := by
    decide +kernel
  have inside := h.before (by decide +kernel) (Nat.le_refl 512)
  rw [insidePartition_iff (Nat.le_refl 512), offset, altsetting] at inside
  have claimed := inside (Or.inr rfl)
  exact absurd claimed (by decide)

end Simtrace2
