import Simtrace2.Crcstub
import Simtrace2.Dfu.Download
import Simtrace2.Dfu.Sticky

/-! From one reset to the next: the boot loader decides whether it stays, the stub whether the
application starts, and both of them and the host say what the next reset finds. -/
namespace Simtrace2
open Lib

/-- What an image is linked with: the stub behind the table, and where it starts. -/
structure StubCode where
  entry : UInt32
  bytes : List UInt8

/-- Where the processor is. `entered` is the jump of the boot loader with the stack pointer that it
has set, and `astray` is code that no image was linked with. -/
inductive BootStage where
  | reset
  | entered (msp entry : UInt32)
  | loader
  | app (msp entry : UInt32)
  | astray
deriving DecidableEq, Repr

/-- A class request to the interface, as the application sees it. -/
inductive RuntimeRequest where
  | getStatus | getState | detach | other
deriving DecidableEq, Repr

/-- The board, with `magic` of the data that boot loader and application share. -/
structure DfuDevice where
  stage : BootStage
  magic : UInt32
  dfu : Dfu

/-- `goOn` is the code up to the next jump, with the button and what the RAM holds after a reset;
`usbTimeout` is a host that has not configured the boot loader in time. -/
inductive DfuDeviceInput where
  | powerUp (magic : UInt32)
  | reset
  | goOn (button : Bool) (ram : Nat → UInt8)
  | busReset
  | usbTimeout
  | setInterface (alt : Nat)
  | dfu (i : DfuInput)
  | runtime (req : RuntimeRequest)

namespace DfuDevice

variable (b : DfuBoard) (code : StubCode)

def bus (d : DfuDevice) : UInt32 → UInt8 := fun a => d.dfu.mem a.toNat

/-- `app_part[i]` -/
def appPart (d : DfuDevice) (i : Nat) : UInt32 :=
  load32 d.bus (UInt32.ofNat (b.flashAddr 0 + 4 * i))

/-- `USBDFU_OverrideEnterDFU` -/
def usbdfuOverrideEnterDfu (d : DfuDevice) (button : Bool) : Nat :=
  if d.magic = usbDfuMagic then 1
  else if button then 2
  else if (d.appPart b 0).toNat < iramAddr ∨ b.iramEnd < (d.appPart b 0).toNat then 3
  else if (d.appPart b 1).toNat < b.flashAddr 0 ∨ b.iflashEnd < (d.appPart b 1).toNat then 4
  else 0

/-- `BootIntoApp` -/
def bootIntoApp (d : DfuDevice) : DfuDevice :=
  { d with stage := .entered (d.appPart b 0) (d.appPart b 1), dfu := { d.dfu with state := .appIdle } }

/-- The relocation of the initialized data and `USBDFU_Initialize`. -/
def startLoader (d : DfuDevice) : DfuDevice :=
  { stage := .loader
    magic := 0
    dfu :=
      { state := .dfuIdle, status := .ok, pastManifest := false, totalBytes := 0, altsetting := 0
        reading := false, mem := d.dfu.mem, ep0 := [] } }

/-- `ResetException` of the boot loader. -/
def resetException (d : DfuDevice) (button : Bool) : DfuDevice :=
  if d.usbdfuOverrideEnterDfu b button = 0 then d.bootIntoApp b else d.startLoader

/-- `ResetException` of the application, behind its stub. -/
def startApp (d : DfuDevice) (msp entry : UInt32) : DfuDevice :=
  { stage := .app msp entry
    magic := 0
    dfu :=
      { state := .appIdle, status := .ok, pastManifest := false, totalBytes := 0, altsetting := 0
        reading := false, mem := d.dfu.mem, ep0 := [] } }

/-- The stub lies behind its table as it was linked. -/
def Linked (d : DfuDevice) : Prop :=
  readAt d.dfu.mem (DfuBoard.appAddr + 20) code.bytes.length = code.bytes

instance (d : DfuDevice) : Decidable (d.Linked code) := inferInstanceAs (Decidable (_ = _))

/-- The jump to `appReset`. -/
def appReset (d : DfuDevice) (entry : UInt32) : DfuDevice :=
  if entry = code.entry ∧ d.Linked code then
    match (crcCheckStub d.bus).2 with
    | .app msp entry => d.startApp msp entry
    | .dfuLoader magic => { d with stage := .reset, magic }
  else { d with stage := .astray }

/-- `DFURT_SwitchToDFU` -/
def dfurtSwitchToDfu (d : DfuDevice) : DfuDevice := { d with magic := usbDfuMagic, stage := .reset }

/-- `USBDFU_SwitchToApp` -/
def usbdfuSwitchToApp (d : DfuDevice) : DfuDevice := { d with magic := 0, stage := .reset }

/-- The end of a bus reset in `USBD_IrqHandler`. A transfer that was under way is forgotten. -/
def endOfBusReset (d : DfuDevice) : DfuDevice :=
  match d.stage with
  | .loader =>
    if d.dfu.pastManifest then d.usbdfuSwitchToApp
    else { d with dfu := { d.dfu with reading := false } }
  | .app _ _ =>
    if d.dfu.state = .appDetach ∨ d.dfu.state = .dfuManifest then d.dfurtSwitchToDfu else d
  | _ => d

/-- `USBDFU_Runtime_RequestHandler`. `DFURT_SwitchToDFU` does not return. -/
def usbdfuRuntimeRequestHandler (d : DfuDevice) (req : RuntimeRequest) : DfuDevice :=
  let answer (d : DfuDevice) (a : DfuAnswer) : DfuDevice := { d with dfu := d.dfu.answer a }
  match d.dfu.state, req with
  | .appIdle, .getStatus => answer d (.status d.dfu.status d.dfu.state)
  | .appIdle, .getState => answer d (.state d.dfu.state)
  | .appIdle, .detach =>
    (answer { d with dfu := { d.dfu with state := .appDetach } } .zlp).dfurtSwitchToDfu
  | .appIdle, .other => answer d .stall
  | .appDetach, .getStatus => answer d (.status d.dfu.status d.dfu.state)
  | .appDetach, .getState => answer d (.state d.dfu.state)
  | .appDetach, _ => answer { d with dfu := { d.dfu with state := .appIdle } } .stall
  | _, _ => answer d .stall

/-- The flash keeps what it holds, and the RAM holds anything. -/
def withRam (ram mem : Nat → UInt8) : Nat → UInt8 :=
  fun a => if iflashAddr ≤ a ∧ a < iflashAddr + b.chip.iflashSize then mem a else ram a

def goOn (d : DfuDevice) (button : Bool) (ram : Nat → UInt8) : DfuDevice :=
  match d.stage with
  | .reset => { d with dfu := { d.dfu with mem := withRam b ram d.dfu.mem } }.resetException b button
  | .entered _ entry => d.appReset code entry
  | _ => d

def step (d : DfuDevice) : DfuDeviceInput → DfuDevice
  | .powerUp magic => { d with stage := .reset, magic }
  | .reset => { d with stage := .reset }
  | .goOn button ram => d.goOn b code button ram
  | .busReset => d.endOfBusReset
  | .usbTimeout =>
    if d.stage = .loader then { d with magic := usbDfuMagic, stage := .reset } else d
  | .setInterface alt =>
    if d.stage = .loader then { d with dfu := { d.dfu with altsetting := alt } } else d
  | .dfu i => if d.stage = .loader then { d with dfu := d.dfu.step b i } else d
  | .runtime req =>
    match d.stage with
    | .app _ _ => d.usbdfuRuntimeRequestHandler req
    | _ => d

end DfuDevice

/-! ### What writes into the flash -/

namespace Dfu

theorem usbdfuHandleUpload_mem (b : DfuBoard) (d : Dfu) (altif offset reqLen : Nat) :
    (d.usbdfuHandleUpload b altif offset reqLen).1.mem = d.mem := by
  simp only [usbdfuHandleUpload]
  repeat' split
  all_goals rfl

theorem handleUpload_mem (b : DfuBoard) (d : Dfu) (len : Nat) (first accepted : Bool) :
    (d.handleUpload b len first accepted).1.mem = d.mem := by
  have begun : (d.begun first).mem = d.mem := by cases first <;> rfl
  rw [handleUpload_begun, ← begun]
  generalize d.begun first = d
  by_cases long : boardDfuPageSize < len
  · rw [if_pos long]
    rfl
  · have same := usbdfuHandleUpload_mem b d d.altsetting d.totalBytes len
    rw [if_neg long, served]
    rcases r : d.usbdfuHandleUpload b d.altsetting d.totalBytes len with ⟨e, none | bytes⟩
    · rw [r] at same
      exact same
    · rw [r] at same
      cases accepted <;> exact same

theorem handleDnload_mem (d : Dfu) (len : Nat) (first accepted : Bool) :
    (d.handleDnload len first accepted).1.mem = d.mem := by
  simp only [handleDnload]
  repeat' split
  all_goals rfl

theorem otherwise_mem (d : Dfu) (req : DfuRequest) : (d.otherwise req).1.mem = d.mem := by
  have settled : d.dfuDrvUpdstatus.mem = d.mem := by
    unfold dfuDrvUpdstatus
    split <;> rfl
  cases req
  case getStatus => exact settled
  all_goals rfl

/-- A request by itself writes nothing. -/
theorem handleRequest_mem (b : DfuBoard) (d : Dfu) (req : DfuRequest) (len : Nat) (accepted : Bool) :
    (d.handleRequest b req len accepted).1.mem = d.mem := by
  unfold handleRequest
  split
  case h_3 =>
    split
    · rfl
    · exact handleDnload_mem _ len true accepted
  case h_4 => exact handleUpload_mem b _ len true accepted
  case h_7 => exact handleDnload_mem _ len false accepted
  case h_9 => exact otherwise_mem { d with state := .dfuIdle, pastManifest := true } .getStatus
  case h_11 =>
    have same := handleUpload_mem b d len false accepted
    simp only
    split <;> exact same
  case h_14 => exact otherwise_mem d _
  all_goals rfl

/-- Only a block that has been read writes. -/
theorem step_mem (b : DfuBoard) (d : Dfu) {i : DfuInput}
    (quiet : ∀ success data, i ≠ .readDone success data) : (d.step b i).mem = d.mem := by
  cases i with
  | request req len accepted =>
    have same := handleRequest_mem b d req len accepted
    simp only [step, usbdfuDfuRequestHandler]
    split
    all_goals
      rename_i handled
      rw [handled] at same
      exact same
  | readDone success data => exact absurd rfl (quiet success data)
  | writeDone success transferred =>
    simp only [step, uploadCb]
    split <;> rfl

end Dfu

namespace DfuDevice

variable (b : DfuBoard) (code : StubCode)

/-! ### What an image is started by -/

/-- The image is in the flash where an application is. -/
structure Holds (d : DfuDevice) (image : List UInt8) : Prop where
  fits : image.length ≤ b.appSize
  held : readAt d.dfu.mem DfuBoard.appAddr image.length = image

/-- The word at a byte of the image. -/
def vector (image : List UInt8) (i : Nat) : UInt32 :=
  UInt32.ofNat (leValue ((image.drop i).take 4))

/-- The image has the header and the stub that it was linked with, whatever became of the rest. -/
structure Application (off crc : UInt32) (image : List UInt8) : Prop where
  headed : Headed off crc image
  vectors : off.toNat + 8 ≤ image.length
  entry : wordAt image 1 = code.entry
  stub : (image.drop 20).take code.bytes.length = code.bytes

/-- Its first words look like a stack pointer and a function in the flash. -/
def Accepted (image : List UInt8) : Prop :=
  (iramAddr ≤ (wordAt image 0).toNat ∧ (wordAt image 0).toNat ≤ b.iramEnd) ∧
    DfuBoard.appAddr ≤ (wordAt image 1).toNat ∧ (wordAt image 1).toNat ≤ b.iflashEnd

instance (image : List UInt8) : Decidable (Accepted b image) := inferInstanceAs (Decidable (_ ∧ _))

/-- The checksum of the application is the one in the header. -/
def Sound (off crc : UInt32) (image : List UInt8) : Prop :=
  ~~~(crcBytes 0xffffffff (image.drop off.toNat)) = crc

instance (off crc : UInt32) (image : List UInt8) : Decidable (Sound off crc image) :=
  inferInstanceAs (Decidable (_ = _))

section image
variable {b} {code} {d : DfuDevice} {image : List UInt8}

theorem Holds.stored (h : Holds b d image) : Stored d.bus image := by
  have fits := h.fits
  have bound := b.appSize_bounds.2
  have table : crcstubDummyTable.toNat = DfuBoard.appAddr := by decide
  have place : DfuBoard.appAddr = 0x404000 := rfl
  refine ⟨by omega, fun i inside => ?_⟩
  have small : (UInt32.ofNat i).toNat = i := by
    rw [UInt32.toNat_ofNat']
    exact Nat.mod_eq_of_lt (by omega)
  have address : (crcstubDummyTable + UInt32.ofNat i).toNat = DfuBoard.appAddr + i := by
    rw [UInt32.toNat_add, small, table]
    exact Nat.mod_eq_of_lt (by omega)
  have byte : (readAt d.dfu.mem DfuBoard.appAddr image.length)[i]? = image[i]? := by rw [h.held]
  rw [List.getElem?_eq_getElem (by rwa [readAt_length]), List.getElem?_eq_getElem inside,
    Option.some_inj] at byte
  rw [bus, address, ← byte]
  simp [readAt]

theorem Holds.vector (h : Holds b d image) {i : Nat} (inside : i + 4 ≤ image.length) :
    load32 d.bus (crcstubDummyTable + UInt32.ofNat i) = vector image i := by
  have bytes := h.stored.bytes
  have four : (image.drop i).take 4 = [image[i], image[i + 1], image[i + 2], image[i + 3]] := by
    rw [List.drop_eq_getElem_cons (by omega), List.drop_eq_getElem_cons (by omega),
      List.drop_eq_getElem_cons (by omega), List.drop_eq_getElem_cons (by omega)]
    rfl
  rw [DfuDevice.vector, four, ← bytes, ← bytes, ← bytes, ← bytes, ← crcstub_add, ← crcstub_add,
    ← crcstub_add]
  rfl

theorem flashAddr_zero (env : b.environment = .flash) : b.flashAddr 0 = DfuBoard.appAddr := by
  simp only [DfuBoard.flashAddr, env]
  decide

theorem appPart_eq (env : b.environment = .flash) (h : Holds b d image) {i : Nat}
    (inside : 4 * i + 4 ≤ image.length) : d.appPart b i = wordAt image i := by
  have place : UInt32.ofNat (DfuBoard.appAddr + 4 * i) = crcstubDummyTable + UInt32.ofNat (4 * i) := by
    rw [UInt32.ofNat_add]
    rfl
  rw [appPart, flashAddr_zero env, place]
  exact h.vector inside

theorem override_eq_zero (env : b.environment = .flash) (h : Holds b d image)
    (long : 8 ≤ image.length) (button : Bool) : d.usbdfuOverrideEnterDfu b button = 0 ↔
      d.magic ≠ usbDfuMagic ∧ button = false ∧ Accepted b image := by
  have w0 := appPart_eq env h (i := 0) (by omega)
  have w1 := appPart_eq env h (i := 1) (by omega)
  rw [usbdfuOverrideEnterDfu, w0, w1, flashAddr_zero env]
  simp only [Accepted]
  constructor
  · intro zero
    split at zero
    · cases zero
    · split at zero
      · cases zero
      · split at zero
        · cases zero
        · split at zero
          · cases zero
          · rename_i magic free stack start
            refine ⟨magic, by simpa using free, ?_⟩
            omega
  · rintro ⟨magic, rfl, stack, start⟩
    rw [if_neg magic, if_neg Bool.false_ne_true, if_neg (by omega), if_neg (by omega)]

theorem Holds.withRam (h : Holds b d image) (ram : Nat → UInt8) :
    Holds b { d with dfu := { d.dfu with mem := withRam b ram d.dfu.mem } } image := by
  have fits := h.fits
  refine ⟨fits, Eq.trans ?_ h.held⟩
  apply List.map_congr_left
  intro i member
  have inside := List.mem_range.mp member
  have flash : iflashAddr ≤ DfuBoard.appAddr + i ∧
      DfuBoard.appAddr + i < iflashAddr + b.chip.iflashSize := by
    simp only [DfuBoard.appAddr, DfuBoard.appSize] at *
    omega
  exact if_pos flash

theorem Application.long {off crc : UInt32} (linked : Application code off crc image) :
    28 ≤ image.length := by
  have header := linked.headed.header
  have vectors := linked.vectors
  omega

theorem Holds.linked {off crc : UInt32} (h : Holds b d image)
    (linked : Application code off crc image) : d.Linked code := by
  have long := linked.long
  have size : code.bytes.length ≤ image.length - 20 := by
    have length := congrArg List.length linked.stub
    rw [List.length_take, List.length_drop] at length
    omega
  obtain ⟨rest, whole⟩ : ∃ rest, image.length = 20 + (code.bytes.length + rest) :=
    ⟨image.length - 20 - code.bytes.length, by omega⟩
  have held := h.held
  rw [whole] at held
  rw [Linked, ← readAt_take d.dfu.mem (DfuBoard.appAddr + 20) code.bytes.length rest, ← readAt_drop,
    held, linked.stub]

section boot
variable {off crc : UInt32} (h : Holds b d image) (linked : Application code off crc image)
include h linked

/-- The stub of an image that is linked runs, and starts what is sound. -/
theorem appReset_eq : d.appReset code code.entry =
    if Sound off crc image then
      d.startApp (vector image off.toNat) (vector image (off.toNat + 4))
    else { d with stage := .reset, magic := usbDfuMagic } := by
  have vectors := linked.vectors
  obtain ⟨sum, ends⟩ := crcCheckStub_headed h.stored linked.headed
  have first := h.vector (i := off.toNat) (by omega)
  have second := h.vector (i := off.toNat + 4) vectors
  rw [UInt32.ofNat_add, ← UInt32.add_assoc] at second
  rw [UInt32.ofNat_toNat] at first second
  rw [appReset, if_pos ⟨rfl, h.linked linked⟩, ends, sum, first]
  have four : (4 : UInt32) = UInt32.ofNat 4 := rfl
  rw [four, second]
  by_cases sound : ~~~(crcBytes 0xffffffff (image.drop off.toNat)) = crc
  · rw [if_pos sound, if_pos (show Sound off crc image from sound)]
  · rw [if_neg sound, if_neg (show ¬ Sound off crc image from sound)]

variable (env : b.environment = .flash)
include env

/-- What is at the first jump behind a reset. -/
theorem resetException_eq (button : Bool) : d.resetException b button =
    if d.magic ≠ usbDfuMagic ∧ button = false ∧ Accepted b image then
      { d with stage := .entered (wordAt image 0) code.entry, dfu := { d.dfu with state := .appIdle } }
    else d.startLoader := by
  have long := linked.long
  have zero := override_eq_zero env h (by omega) button
  have w0 := appPart_eq env h (i := 0) (by omega)
  have w1 := appPart_eq env h (i := 1) (by omega)
  rw [linked.entry] at w1
  rw [resetException]
  by_cases boots : d.magic ≠ usbDfuMagic ∧ button = false ∧ Accepted b image
  · rw [if_pos (zero.mpr boots), if_pos boots, bootIntoApp, w0, w1]
  · rw [if_neg (zero.not.mpr boots), if_neg boots]

end boot

theorem Holds.stage (h : Holds b d image) (stage : BootStage) (magic : UInt32) :
    Holds b { d with stage, magic } image := ⟨h.fits, h.held⟩

theorem Holds.startLoader (h : Holds b d image) : Holds b d.startLoader image := ⟨h.fits, h.held⟩

/-- Code that runs on is in the boot loader or in the application. -/
def Settled (d : DfuDevice) : Prop := d.stage = .loader ∨ ∃ msp entry, d.stage = .app msp entry

theorem goOn_settled (settled : Settled d) (button : Bool) (ram : Nat → UInt8) :
    d.goOn b code button ram = d := by
  rcases settled with loader | ⟨msp, entry, app⟩
  · rw [goOn, loader]
  · rw [goOn, app]

theorem goOn_reset (start : d.stage = .reset) (button : Bool) (ram : Nat → UInt8) :
    d.goOn b code button ram =
      resetException b
        { d with dfu := { d.dfu with mem := DfuDevice.withRam b ram d.dfu.mem } } button := by
  rw [goOn, start]

section settles
variable {off crc : UInt32} (h : Holds b d image) (linked : Application code off crc image)
  (env : b.environment = .flash)
include h linked env

/-- A start that the boot loader keeps. -/
theorem goOn_stays (start : d.stage = .reset) (button : Bool) (ram : Nat → UInt8)
    (stays : ¬ (d.magic ≠ usbDfuMagic ∧ button = false ∧ Accepted b image)) :
    (d.goOn b code button ram).stage = .loader ∧ (d.goOn b code button ram).magic = 0 ∧
      Holds b (d.goOn b code button ram) image := by
  have jump := resetException_eq (h.withRam ram) linked env button
  rw [if_neg stays] at jump
  rw [goOn_reset start, jump]
  exact ⟨rfl, rfl, (h.withRam ram).startLoader⟩

/-- A start that it hands on to the stub. -/
theorem goOn_enters (start : d.stage = .reset) (button : Bool) (ram : Nat → UInt8)
    (boots : d.magic ≠ usbDfuMagic ∧ button = false ∧ Accepted b image) :
    d.goOn b code button ram =
      { d with
        stage := .entered (wordAt image 0) code.entry
        dfu := { d.dfu with state := .appIdle, mem := DfuDevice.withRam b ram d.dfu.mem } } := by
  have jump := resetException_eq (h.withRam ram) linked env button
  rw [if_pos boots] at jump
  rw [goOn_reset start, jump]

omit env in
theorem goOn_stub {msp : UInt32} (entered : d.stage = .entered msp code.entry) (button : Bool)
    (ram : Nat → UInt8) : d.goOn b code button ram =
      if Sound off crc image then
        d.startApp (vector image off.toNat) (vector image (off.toNat + 4))
      else { d with stage := .reset, magic := usbDfuMagic } := by
  rw [goOn, entered]
  exact appReset_eq h linked

/-- Three jumps behind a reset the application runs, where nothing asks for the boot loader, its first
words are accepted and its checksum is right. Otherwise the boot loader does, and is not asked for
any more. -/
theorem boot_settles (start : d.stage = .reset) (b1 b2 b3 : Bool) (r1 r2 r3 : Nat → UInt8) :
    Holds b (run (step b code) d [.goOn b1 r1, .goOn b2 r2, .goOn b3 r3]) image ∧
      (run (step b code) d [.goOn b1 r1, .goOn b2 r2, .goOn b3 r3]).magic = 0 ∧
      (run (step b code) d [.goOn b1 r1, .goOn b2 r2, .goOn b3 r3]).stage =
        if d.magic ≠ usbDfuMagic ∧ b1 = false ∧ Accepted b image ∧ Sound off crc image then
          .app (vector image off.toNat) (vector image (off.toNat + 4))
        else .loader := by
  simp only [run, step]
  by_cases boots : d.magic ≠ usbDfuMagic ∧ b1 = false ∧ Accepted b image
  · have first := goOn_enters h linked env start b1 r1 boots
    have held : Holds b (d.goOn b code b1 r1) image := by
      rw [first]
      exact ⟨(h.withRam r1).fits, (h.withRam r1).held⟩
    have second := goOn_stub held linked (by rw [first]) b2 r2
    clear first
    generalize d.goOn b code b1 r1 = d1 at *
    obtain ⟨magic, button, accepted⟩ := boots
    by_cases sound : Sound off crc image
    · rw [if_pos sound] at second
      rw [second, goOn_settled (.inr ⟨_, _, rfl⟩), if_pos ⟨magic, button, accepted, sound⟩]
      exact ⟨⟨held.fits, held.held⟩, rfl, rfl⟩
    · rw [if_neg sound] at second
      obtain ⟨loader, clear, kept⟩ := goOn_stays
        (held.stage .reset usbDfuMagic) linked env rfl b3 r3 (fun boots => boots.1 rfl)
      rw [second, if_neg (fun all => sound all.2.2.2)]
      exact ⟨kept, clear, loader⟩
  · obtain ⟨loader, clear, kept⟩ := goOn_stays h linked env start b1 r1 boots
    rw [goOn_settled (.inl loader), goOn_settled (.inl loader),
      if_neg (fun all => boots ⟨all.1, all.2.1, all.2.2.1⟩)]
    exact ⟨kept, clear, loader⟩

end settles

/-- Sixteen words: the header for the last eleven, of which the first is the stub. -/
def sixteenWords (crc : Nat) : List UInt8 :=
  leBytes 4 0x2000baa0 ++ leBytes 4 0x00404015 ++ leBytes 4 crc ++ leBytes 4 0x00404014 ++
    leBytes 4 44 ++ List.replicate 44 0x80

def fourBytes : StubCode := ⟨0x00404015, List.replicate 4 0x80⟩

/-- A board that holds the image, at a reset. -/
def holding (image : List UInt8) : DfuDevice :=
  ⟨.reset, 0,
    { Dfu.idleDfu with mem := store (fun _ => 0xff) DfuBoard.appAddr image }⟩

theorem holding_holds {image : List UInt8} (fits : image.length ≤ Dfu.bootloader.appSize) :
    Holds Dfu.bootloader (holding image) image :=
  ⟨fits, readAt_store _ _ _⟩

theorem sixteenWords_linked : Application fourBytes 20 0 (sixteenWords 0) where
  headed :=
    { header := by decide
      long := by decide
      crc := by decide
      startaddr := by decide
      len := by decide }
  vectors := by decide
  entry := by decide
  stub := by decide

theorem sixteenWords_unsound : ¬ Sound 20 0 (sixteenWords 0) := by decide +kernel

/-! ### While nothing is downloaded -/

/-- What does not write into the flash. -/
def Quiet (i : DfuDeviceInput) : Prop := ∀ success data, i ≠ .dfu (.readDone success data)

/-- With the image, the board is in the boot loader, in the application that the image is, or between
them. -/
structure Kept (b : DfuBoard) (code : StubCode) (off crc : UInt32) (image : List UInt8)
    (d : DfuDevice) : Prop where
  held : Holds b d image
  stage : d.stage = .reset ∨ d.stage = .loader ∨
    ((∃ msp, d.stage = .entered msp code.entry) ∧ Accepted b image) ∨
    (d.stage = .app (vector image off.toNat) (vector image (off.toNat + 4)) ∧ Accepted b image ∧
      Sound off crc image)

theorem runtime_mem (d : DfuDevice) (req : RuntimeRequest) :
    (d.usbdfuRuntimeRequestHandler req).dfu.mem = d.dfu.mem ∧
      ((d.usbdfuRuntimeRequestHandler req).stage = .reset ∨
        (d.usbdfuRuntimeRequestHandler req).stage = d.stage) := by
  simp only [usbdfuRuntimeRequestHandler]
  split
  case h_3 => exact ⟨rfl, .inl rfl⟩
  all_goals exact ⟨rfl, .inr rfl⟩

section kept
variable {off crc : UInt32} (env : b.environment = .flash) (linked : Application code off crc image)
include env linked

theorem Kept.goOn (h : Kept b code off crc image d) (button : Bool) (ram : Nat → UInt8) :
    Kept b code off crc image (d.goOn b code button ram) := by
  rcases h.stage with start | loader | ⟨⟨msp, entered⟩, accepted⟩ | ⟨app, _⟩
  · by_cases boots : d.magic ≠ usbDfuMagic ∧ button = false ∧ Accepted b image
    · rw [goOn_enters h.held linked env start button ram boots]
      exact ⟨⟨(h.held.withRam ram).fits, (h.held.withRam ram).held⟩,
        .inr (.inr (.inl ⟨⟨_, rfl⟩, boots.2.2⟩))⟩
    · obtain ⟨stage, _, held⟩ := goOn_stays h.held linked env start button ram boots
      exact ⟨held, .inr (.inl stage)⟩
  · rw [goOn_settled (.inl loader)]
    exact h
  · rw [goOn_stub h.held linked entered]
    split
    · rename_i sound
      exact ⟨⟨h.held.fits, h.held.held⟩, .inr (.inr (.inr ⟨rfl, accepted, sound⟩))⟩
    · exact ⟨h.held.stage .reset usbDfuMagic, .inl rfl⟩
  · rw [goOn_settled (.inr ⟨_, _, app⟩)]
    exact h

theorem Kept.step (h : Kept b code off crc image d) {i : DfuDeviceInput} (quiet : Quiet i) :
    Kept b code off crc image (d.step b code i) := by
  have fits := h.held.fits
  have held := h.held.held
  cases i with
  | powerUp magic => exact ⟨⟨fits, held⟩, .inl rfl⟩
  | reset => exact ⟨⟨fits, held⟩, .inl rfl⟩
  | goOn button ram => exact Kept.goOn env linked h button ram
  | busReset =>
    simp only [DfuDevice.step, endOfBusReset]
    split
    · split
      · exact ⟨⟨fits, held⟩, .inl rfl⟩
      · exact ⟨⟨fits, held⟩, h.stage⟩
    · split
      · exact ⟨⟨fits, held⟩, .inl rfl⟩
      · exact h
    · exact h
  | usbTimeout =>
    simp only [DfuDevice.step]
    split
    · exact ⟨⟨fits, held⟩, .inl rfl⟩
    · exact h
  | setInterface alt =>
    simp only [DfuDevice.step]
    split
    · exact ⟨⟨fits, held⟩, h.stage⟩
    · exact h
  | dfu i =>
    have same := Dfu.step_mem b d.dfu (i := i) fun success data e => quiet success data (e ▸ rfl)
    simp only [DfuDevice.step]
    split
    · refine ⟨⟨fits, ?_⟩, h.stage⟩
      simpa only [same] using held
    · exact h
  | runtime req =>
    obtain ⟨same, stage⟩ := runtime_mem d req
    simp only [DfuDevice.step]
    split
    · refine ⟨⟨fits, by rwa [same]⟩, ?_⟩
      rcases stage with reset | stays
      · exact .inl reset
      · rw [stays]
        exact h.stage
    · exact h

/-- Whatever happens to the board while nothing is downloaded, the application of the flash is what
runs, and only with its first words accepted and its checksum right; and from wherever the board is,
three jumps behind a reset it runs, or else the boot loader. -/
theorem image_decides (held : Holds b d image) (start : d.stage = .reset ∨ d.stage = .loader)
    {inputs : List DfuDeviceInput} (quiet : ∀ i ∈ inputs, Quiet i) :
    (∀ msp entry, (run (step b code) d inputs).stage = .app msp entry →
      msp = vector image off.toNat ∧ entry = vector image (off.toNat + 4) ∧
        Accepted b image ∧ Sound off crc image) ∧
      (run (step b code) d inputs).stage ≠ .astray ∧
      ∀ b1 b2 b3 r1 r2 r3, (run (step b code) d
        (inputs ++ [.reset, .goOn b1 r1, .goOn b2 r2, .goOn b3 r3])).stage =
          if (run (step b code) d inputs).magic ≠ usbDfuMagic ∧ b1 = false ∧ Accepted b image ∧
              Sound off crc image then
            .app (vector image off.toNat) (vector image (off.toNat + 4))
          else .loader := by
  have kept : Kept b code off crc image (run (step b code) d inputs) :=
    have keeps : ∀ e i, Kept b code off crc image e → Quiet i →
        Kept b code off crc image (e.step b code i) :=
      fun _ _ h quiet => Kept.step env linked h quiet
    run_keeps _ keeps ⟨held, start.imp_right Or.inl⟩ (Meets.of_inputs quiet)
  refine ⟨fun msp entry app => ?_, fun astray => ?_, fun b1 b2 b3 r1 r2 r3 => ?_⟩
  · rcases kept.stage with h | h | ⟨⟨_, h⟩, _⟩ | ⟨h, good⟩
    · cases app.symm.trans h
    · cases app.symm.trans h
    · cases app.symm.trans h
    · cases app.symm.trans h
      exact ⟨rfl, rfl, good⟩
  · rcases kept.stage with h | h | ⟨⟨_, h⟩, _⟩ | ⟨h, _⟩ <;> cases astray.symm.trans h
  · rw [run_append, run]
    exact (boot_settles (kept.held.stage .reset (run (step b code) d inputs).magic) linked env rfl
      b1 b2 b3 r1 r2 r3).2.2

end kept

/-- With a wrong checksum in the header the boot loader runs. -/
theorem unsound_stays : (run (step Dfu.bootloader fourBytes) (holding (sixteenWords 0))
    ([.goOn false fun _ => 0, .goOn false fun _ => 0, .powerUp 7] ++
      [.reset, .goOn true fun _ => 0, .goOn false fun _ => 0, .goOn false fun _ => 0])).stage =
      .loader := by
  have quiet : ∀ i ∈ ([.goOn false fun _ => 0, .goOn false fun _ => 0, .powerUp 7] :
      List DfuDeviceInput), Quiet i := by
    simp [Quiet]
  have decides := (image_decides rfl sixteenWords_linked (holding_holds (by decide)) (.inl rfl)
    quiet).2.2 true false false (fun _ => 0) (fun _ => 0) (fun _ => 0)
  rwa [if_neg (fun boots => sixteenWords_unsound boots.2.2.2)] at decides

end image

/-! ### Any image -/

/-- The application that runs has passed the stub with what the flash holds, and the mark that asks for
the boot loader is gone once it, or the application, runs. -/
def Checked (code : StubCode) (d : DfuDevice) : Prop :=
  match d.stage with
  | .reset => True
  | .entered _ _ => d.magic ≠ usbDfuMagic
  | .loader => d.magic = 0
  | .app msp entry => d.magic = 0 ∧ d.Linked code ∧ (crcCheckStub d.bus).2 = .app msp entry
  | .astray => True

variable {b} {code} {d : DfuDevice}

theorem checked_goOn (h : Checked code d) (button : Bool) (ram : Nat → UInt8) :
    Checked code (d.goOn b code button ram) := by
  unfold goOn
  split
  · unfold resetException
    split
    · rename_i boots
      have unmarked : d.magic ≠ usbDfuMagic := by
        intro marked
        rw [usbdfuOverrideEnterDfu, if_pos marked] at boots
        cases boots
      exact unmarked
    · rfl
  · unfold appReset
    split
    · rename_i linked
      split
      · rename_i msp entry runs
        exact ⟨rfl, linked.2, runs⟩
      · trivial
    · trivial
  · exact h

theorem checked_loader (loader : d.stage = .loader) : Checked code d ↔ d.magic = 0 := by
  rw [Checked, loader]

theorem checked_runtime (h : Checked code d) (req : RuntimeRequest) :
    Checked code (d.usbdfuRuntimeRequestHandler req) := by
  simp only [usbdfuRuntimeRequestHandler]
  split
  case h_3 => trivial
  all_goals exact h

theorem checked_step (h : Checked code d) (i : DfuDeviceInput) : Checked code (d.step b code i) := by
  cases i with
  | powerUp magic => trivial
  | reset => trivial
  | goOn button ram => exact checked_goOn h button ram
  | busReset =>
    simp only [step, endOfBusReset]
    split
    · split
      · trivial
      · exact h
    · split
      · trivial
      · exact h
    · exact h
  | usbTimeout =>
    simp only [step]
    split
    · trivial
    · exact h
  | setInterface alt =>
    simp only [step]
    split
    · exact h
    · exact h
  | dfu i =>
    simp only [step]
    split
    · rename_i loader
      have clear := (checked_loader loader).mp h
      exact (checked_loader (d := { d with dfu := d.dfu.step b i }) loader).mpr clear
    · exact h
  | runtime req =>
    simp only [step]
    split
    · exact checked_runtime h req
    · exact h

/-- In every run from a reset the application has passed the stub with what the flash holds, and the
boot loader that runs, having been asked for or not, is not marked: its own question why it was
started never gives the mark as the reason. -/
theorem reset_checked (start : d.stage = .reset) (inputs : List DfuDeviceInput) :
    (∀ msp entry, (run (step b code) d inputs).stage = .app msp entry →
      (run (step b code) d inputs).Linked code ∧
        (crcCheckStub (run (step b code) d inputs).bus).2 = .app msp entry) ∧
      ∀ button, (run (step b code) d inputs).stage = .loader →
        (run (step b code) d inputs).usbdfuOverrideEnterDfu b button ≠ 1 := by
  have checked : Checked code (run (step b code) d inputs) :=
    have keeps : ∀ e i, Checked code e → True → Checked code (e.step b code i) :=
      fun _ i h _ => checked_step h i
    run_keeps _ keeps (by rw [Checked, start]; trivial) (meets_true d inputs)
  generalize run (step b code) d inputs = e at *
  refine ⟨fun msp entry app => ?_, fun button loader => ?_⟩
  · rw [Checked, app] at checked
    exact checked.2
  · have clear := (checked_loader loader).mp checked
    have unmarked : ¬ e.magic = usbDfuMagic := by
      rw [clear]
      decide
    rw [usbdfuOverrideEnterDfu, if_neg unmarked]
    repeat' split
    all_goals decide

/-- Behind a start that the button has stopped. -/
theorem button_checked : (run (step Dfu.bootloader fourBytes) (holding (sixteenWords 0))
    [.goOn true fun _ => 0]).usbdfuOverrideEnterDfu Dfu.bootloader false ≠ 1 :=
  (reset_checked rfl [.goOn true fun _ => 0]).2 false rfl

end DfuDevice
end Simtrace2
