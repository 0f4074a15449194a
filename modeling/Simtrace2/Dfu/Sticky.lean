import Simtrace2.Dfu.ReadBack

/-! The errors that a request of the host can be, and whether the host is told of them: by
the stalled end-point, and by a state that only CLRSTATUS leaves. -/
namespace Simtrace2
open Lib

namespace Dfu

/-- The requests that the switch over the state lets through. In dfuMANIFEST-WAIT-RST it
refuses none, and does nothing either. -/
def allowed : DfuState → DfuRequest → Nat → Bool
  | .appIdle, _, _ | .appDetach, _, _ => false
  | .dfuManifestWaitRst, _, _ => true
  | .dfuIdle, .dnload, len => len != 0
  | .dfuIdle, .upload, _ | .dfuIdle, .abort, _ => true
  | .dfuDnloadIdle, .dnload, _ | .dfuDnloadIdle, .abort, _ => true
  | .dfuUploadIdle, .upload, _ | .dfuUploadIdle, .abort, _ => true
  | .dfuError, .clrStatus, _ => true
  | .dfuDnbusy, req, _ => req == .getStatus
  | _, req, _ => req == .getStatus || req == .getState

/-- Where an UPLOAD starts to read. -/
def uploadOffset (d : Dfu) : Nat := if d.state = .dfuIdle then 0 else d.totalBytes

/-- What `USBDFU_handle_upload` takes for an error. -/
def OutsideOf (b : DfuBoard) (altif offset : Nat) : Prop :=
  altif = altifRam ∧ b.iramEnd < DfuBoard.ramAddr offset ∨
    altif = b.altifFlash ∧ iflashAddr + b.chip.iflashSize < b.flashAddr offset ∨
    altif ≠ altifRam ∧ altif ≠ b.altifFlash

def UploadRefused (b : DfuBoard) (d : Dfu) (len : Nat) : Prop :=
  boardDfuPageSize < len ∨ OutsideOf b d.altsetting d.uploadOffset

def uploads (d : Dfu) (req : DfuRequest) : Prop :=
  req = .upload ∧ (d.state = .dfuIdle ∨ d.state = .dfuUploadIdle)

/-- The errors that are found while a request is handled. -/
inductive Detected (b : DfuBoard) (d : Dfu) (req : DfuRequest) (len : Nat) : Prop
  | notAllowed (refused : allowed d.state req len = false)
  | length (dnload : req = .dnload) (begins : d.state = .dfuIdle ∨ d.state = .dfuDnloadIdle)
      (wrong : boardDfuPageSize < len ∨ len % 4 ≠ 0)
  | upload (uploads : d.uploads req) (refused : d.UploadRefused b len)

/-- A request that is an error leaves dfuERROR and a stalled end-point, one in dfuERROR
leaves it if it is CLRSTATUS, and no failed upload ends in dfuIDLE. A DNLOAD whose address
or alternate setting is wrong is found out when its data has come. -/
structure ErrorsVisible (b : DfuBoard) (d : Dfu) (req : DfuRequest) (len : Nat) (accepted : Bool) :
    Prop where
  visible : Detected b d req len →
    (d.usbdfuDfuRequestHandler b req len accepted).state = .dfuError ∧
      (d.usbdfuDfuRequestHandler b req len accepted).ep0 = d.ep0 ++ [.stall]
  sticky : d.state = .dfuError → req ≠ .clrStatus →
    (d.usbdfuDfuRequestHandler b req len accepted).state = .dfuError
  upload : d.uploads req → d.UploadRefused b len ∨ accepted = false →
    (d.usbdfuDfuRequestHandler b req len accepted).state ≠ .dfuIdle
  block : ∀ data, (d.usbdfuHandleDnload b d.altsetting d.totalBytes data).2 = .stall →
    (d.dnloadCb b true data).state = .dfuError ∧ (d.dnloadCb b true data).ep0 = d.ep0 ++ [.stall]

/-- The request is not met in a state of the application, and is no upload that fails;
where only the transfer of an upload fails, it is the first one, or of two bytes at most. -/
structure NoErrorLost (b : DfuBoard) (d : Dfu) (req : DfuRequest) (len : Nat) (accepted : Bool) :
    Prop where
  dfuMode : d.state ≠ .appIdle ∧ d.state ≠ .appDetach
  reads : d.uploads req → ¬d.UploadRefused b len
  sends : req = .upload → d.state = .dfuUploadIdle → accepted = true ∨ len ≤ 2

variable {b : DfuBoard} {d : Dfu} {req : DfuRequest} {len : Nat} {accepted : Bool}

theorem app_stalls (app : d.state = .appIdle ∨ d.state = .appDetach) :
    d.usbdfuDfuRequestHandler b req len accepted = d.answer .stall := by
  rcases app with state | state <;>
    simp only [usbdfuDfuRequestHandler, handleRequest, state]

/-- In the states of the loader the switch makes an error of what it does not let through. -/
theorem notAllowed_visible (dfuMode : d.state ≠ .appIdle ∧ d.state ≠ .appDetach)
    (refused : allowed d.state req len = false) :
    d.usbdfuDfuRequestHandler b req len accepted = { d with state := .dfuError }.answer .stall := by
  obtain ⟨notIdle, notDetach⟩ := dfuMode
  cases state : d.state <;> cases req <;>
    simp_all [usbdfuDfuRequestHandler, handleRequest, otherwise, allowed]

theorem length_visible (begins : d.state = .dfuIdle ∨ d.state = .dfuDnloadIdle)
    (wrong : boardDfuPageSize < len ∨ len % 4 ≠ 0) :
    (d.usbdfuDfuRequestHandler b .dnload len accepted).state = .dfuError ∧
      (d.usbdfuDfuRequestHandler b .dnload len accepted).ep0 = d.ep0 ++ [.stall] := by
  have some' : len ≠ 0 := by
    rintro rfl
    rcases wrong with wrong | wrong
    · cases wrong
    · exact wrong rfl
  have refused : ∀ (e : Dfu) (first : Bool),
      e.handleDnload len first accepted = (e.errAddress, .stall) := by
    intro e first
    rw [handleDnload]
    by_cases long : boardDfuPageSize < len
    · rw [if_pos long]
    · rw [if_neg long, if_pos (wrong.resolve_left long)]
  rcases begins with state | state <;>
    simp [usbdfuDfuRequestHandler, handleRequest, state, some', refused, errAddress, answer]

theorem error_sticks (error : d.state = .dfuError) (other : req ≠ .clrStatus) :
    (d.usbdfuDfuRequestHandler b req len accepted).state = .dfuError := by
  cases req <;>
    simp_all [usbdfuDfuRequestHandler, handleRequest, otherwise, handleGetstatus, dfuDrvUpdstatus,
      handleGetstate, answer]

/-- `USBDFU_handle_upload` gives no bytes exactly for an error, and otherwise changes nothing. -/
theorem usbdfuHandleUpload_cases (b : DfuBoard) (d : Dfu) (altif offset reqLen : Nat) :
    (OutsideOf b altif offset ∧ ∃ e : Dfu, e.ep0 = d.ep0 ∧
        d.usbdfuHandleUpload b altif offset reqLen = (e, none)) ∨
      ¬OutsideOf b altif offset ∧
        ∃ bytes, d.usbdfuHandleUpload b altif offset reqLen = (d, some bytes) := by
  have apart := altifFlash_ne b
  unfold OutsideOf
  by_cases ram : altif = altifRam
  · subst ram
    simp only [usbdfuHandleUpload, if_true]
    by_cases beyond : b.iramEnd < DfuBoard.ramAddr offset
    · exact Or.inl ⟨Or.inl ⟨trivial, beyond⟩, d.errAddress, rfl, if_pos beyond⟩
    · refine Or.inr ⟨?_, ?_⟩
      · simp [beyond, apart.symm]
      · exact ⟨_, if_neg beyond⟩
  · by_cases flash : altif = b.altifFlash
    · subst flash
      simp only [usbdfuHandleUpload, if_neg ram, if_true]
      by_cases beyond : iflashAddr + b.chip.iflashSize < b.flashAddr offset
      · exact Or.inl ⟨Or.inr (Or.inl ⟨trivial, beyond⟩), d.errAddress, rfl, if_pos beyond⟩
      · refine Or.inr ⟨?_, ?_⟩
        · simp [beyond, apart]
        · exact ⟨_, if_neg beyond⟩
    · simp only [usbdfuHandleUpload, if_neg ram, if_neg flash]
      exact Or.inl ⟨Or.inr (Or.inr ⟨ram, flash⟩), _, rfl, rfl⟩

/-- A first UPLOAD counts from zero. -/
def begun (d : Dfu) (first : Bool) : Dfu := if first then { d with totalBytes := 0 } else d

theorem begun_eq (d : Dfu) (first : Bool) : (d.begun first).ep0 = d.ep0 ∧
    (d.begun first).state = d.state ∧ (d.begun first).altsetting = d.altsetting := by
  cases first <;> exact ⟨rfl, rfl, rfl⟩

/-- `handle_upload` behind its check of the length. -/
def served (b : DfuBoard) (d : Dfu) (len : Nat) (accepted : Bool) : Dfu × Nat :=
  match d.usbdfuHandleUpload b d.altsetting d.totalBytes len with
  | (d, none) => (d, 2)
  | (d, some bytes) => if accepted then (d.answer (.data bytes), bytes.length) else (d, 2)

theorem handleUpload_begun (b : DfuBoard) (d : Dfu) (len : Nat) (first accepted : Bool) :
    d.handleUpload b len first accepted =
      if boardDfuPageSize < len then ((d.begun first).errAddress, 2)
      else (d.begun first).served b len accepted := rfl

theorem served_cases (b : DfuBoard) (d : Dfu) (len : Nat) (accepted : Bool) :
    (OutsideOf b d.altsetting d.totalBytes ∧ (d.served b len accepted).1.ep0 = d.ep0) ∨
      ¬OutsideOf b d.altsetting d.totalBytes ∧ (d.served b len accepted).1.state = d.state ∧
        (accepted = false → (d.served b len accepted).2 = 2) := by
  unfold served
  rcases usbdfuHandleUpload_cases b d d.altsetting d.totalBytes len with
    ⟨outside, e, quiet, r⟩ | ⟨inside, bytes, r⟩
  · rw [r]
    exact Or.inl ⟨outside, quiet⟩
  · rw [r]
    refine Or.inr ⟨inside, ?_⟩
    cases accepted with
    | true => exact ⟨rfl, fun e => by cases e⟩
    | false => exact ⟨rfl, fun _ => rfl⟩

/-- The ends of `handle_upload`: an error, which answers nothing, and otherwise the bytes, if
their transfer is accepted. -/
theorem handleUpload_cases (b : DfuBoard) (d : Dfu) (len : Nat) (first accepted : Bool) :
    ((boardDfuPageSize < len ∨ OutsideOf b d.altsetting (d.begun first).totalBytes) ∧
        (d.handleUpload b len first accepted).1.ep0 = d.ep0) ∨
      ¬(boardDfuPageSize < len ∨ OutsideOf b d.altsetting (d.begun first).totalBytes) ∧
        (d.handleUpload b len first accepted).1.state = d.state ∧
        (accepted = false → (d.handleUpload b len first accepted).2 = 2) := by
  obtain ⟨ep0, state, altsetting⟩ := d.begun_eq first
  rw [handleUpload_begun]
  by_cases long : boardDfuPageSize < len
  · rw [if_pos long]
    exact Or.inl ⟨Or.inl long, ep0⟩
  · rw [if_neg long, or_iff_right long, ← ep0, ← state, ← altsetting]
    exact served_cases b (d.begun first) len accepted

theorem answers_nothing {e : Dfu} (quiet : e.ep0 = d.ep0) : e.ep0 ≠ d.ep0 ++ [.stall] := by
  intro same
  have lengths := congrArg List.length (quiet.symm.trans same)
  simp at lengths

/-- What a refused UPLOAD leaves is not stalled. -/
theorem upload_unseen (uploads : d.uploads req) (refused : d.UploadRefused b len) :
    (d.usbdfuDfuRequestHandler b req len accepted).ep0 ≠ d.ep0 ++ [.stall] := by
  obtain ⟨rfl, state | state⟩ := uploads
  · rw [UploadRefused, uploadOffset, if_pos state] at refused
    simp only [usbdfuDfuRequestHandler, handleRequest, state]
    rcases handleUpload_cases b { d with state := .dfuUploadIdle } len true accepted with
      ⟨_, quiet⟩ | ⟨served, _⟩
    · exact answers_nothing quiet
    · exact absurd refused served
  · have other : d.state ≠ .dfuIdle := by
      rw [state]
      decide
    rw [UploadRefused, uploadOffset, if_neg other] at refused
    simp only [usbdfuDfuRequestHandler, handleRequest, state]
    rcases handleUpload_cases b d len false accepted with ⟨_, quiet⟩ | ⟨served, _⟩
    · refine answers_nothing ?_
      split
      · exact quiet
      · exact quiet
    · exact absurd refused served

/-- An upload that is not refused ends in dfuIDLE only from dfuUPLOAD-IDLE, when less has
been sent than asked for; a failed transfer counts as two bytes sent. -/
theorem upload_failed (uploads : d.uploads req) (reads : ¬d.UploadRefused b len) :
    (d.usbdfuDfuRequestHandler b req len false).state = .dfuIdle ↔
      d.state = .dfuUploadIdle ∧ 2 < len := by
  obtain ⟨rfl, state | state⟩ := uploads
  · rw [UploadRefused, uploadOffset, if_pos state] at reads
    simp only [usbdfuDfuRequestHandler, handleRequest, state]
    rcases handleUpload_cases b { d with state := .dfuUploadIdle } len true false with
      ⟨refused, _⟩ | ⟨_, kept, _⟩
    · exact absurd refused reads
    · rw [kept]
      simp
  · have other : d.state ≠ .dfuIdle := by
      rw [state]
      decide
    rw [UploadRefused, uploadOffset, if_neg other] at reads
    simp only [usbdfuDfuRequestHandler, handleRequest, state]
    rcases handleUpload_cases b d len false false with ⟨refused, _⟩ | ⟨_, kept, two⟩
    · exact absurd refused reads
    · rw [two rfl]
      by_cases more : 2 < len
      · simp [more]
      · simp [more, kept, state]

end Dfu

open Dfu

/-- No error is lost exactly when the request is none of those. -/
theorem dfu_errors_visible_iff (b : DfuBoard) (d : Dfu) (req : DfuRequest) (len : Nat)
    (accepted : Bool) :
    ErrorsVisible b d req len accepted ↔ NoErrorLost b d req len accepted := by
  constructor
  · intro h
    refine ⟨?_, ?_, ?_⟩
    · rw [← not_or]
      intro app
      have shown := h.visible (.notAllowed (by rcases app with state | state <;> rw [state] <;> rfl))
      rw [app_stalls app] at shown
      rcases app with state | state
      · rw [answer, state] at shown
        exact absurd shown.1 (by decide)
      · rw [answer, state] at shown
        exact absurd shown.1 (by decide)
    · intro uploads refused
      exact upload_unseen uploads refused (h.visible (.upload uploads refused)).2
    · intro upload state
      have uploads : d.uploads req := ⟨upload, Or.inr state⟩
      cases accepted with
      | true => exact Or.inl rfl
      | false =>
        refine Or.inr (Nat.le_of_not_lt fun more => ?_)
        have reads : ¬d.UploadRefused b len := fun refused =>
          upload_unseen uploads refused (h.visible (.upload uploads refused)).2
        exact h.upload uploads (Or.inr rfl) ((upload_failed uploads reads).mpr ⟨state, more⟩)
  · intro h
    refine ⟨?_, ?_, ?_, ?_⟩
    · rintro (refused | ⟨rfl, begins, wrong⟩ | ⟨uploads, refused⟩)
      · rw [notAllowed_visible h.dfuMode refused]
        exact ⟨rfl, rfl⟩
      · exact length_visible begins wrong
      · exact absurd refused (h.reads uploads)
    · exact error_sticks
    · rintro uploads (refused | rfl)
      · exact absurd refused (h.reads uploads)
      · intro idle
        obtain ⟨state, more⟩ := (upload_failed uploads (h.reads uploads)).mp idle
        rcases h.sends uploads.1 state with no | small
        · cases no
        · exact absurd more (Nat.not_lt.mpr small)
    · intro data stalled
      obtain ⟨error, _, told⟩ := stalled_block stalled
      exact ⟨error, told⟩

/-- An UPLOAD of 1024 bytes in dfuUPLOAD-IDLE, which is above the page size: the state is
dfuIDLE, and nothing is stalled. -/
theorem long_upload_unseen :
    ¬ErrorsVisible worn
      { state := .dfuUploadIdle, status := .ok, pastManifest := false, totalBytes := 0
        altsetting := 1, reading := false, mem := fun _ => 0xff, ep0 := [] }
      .upload 1024 true := by
  intro h
  have seen := h.visible (.upload ⟨rfl, Or.inr rfl⟩ (Or.inl (by decide)))
  exact absurd seen.1 (by decide)

end Simtrace2
