import Simtrace2.Dfu.Boot
import Simtrace2.Dfu.Flashd

/-! An update from one application to the next: the build patches the image, the running application
is told to detach, the boot loader writes what it is sent, and what starts is what was built. -/
namespace Simtrace2
open Lib

/-- The file that the tool leaves, behind the five words that it writes. -/
theorem crctool_keeps {off : UInt32} {file patched : List UInt8}
    (done : crctool off file = some patched) (header : 20 ≤ off.toNat) : off.toNat < file.length ∧ wordAt file 0 = 0xdeadc0de ∧
      wordAt patched 0 = 0x2000baa0 ∧ wordAt patched 1 = wordAt file 1 ∧
      patched.drop 20 = file.drop 20 := by
  rw [crctool] at done
  split at done
  · cases done
  · rename_i long
    split at done
    · cases done
    · rename_i magic
      have whole : 20 ≤ file.length := by omega
      obtain rfl := (Option.some.inj done).symm
      let b0 := setWord file 0 0x2000baa0
      let b2 := setWord b0 2 (~~~(crcBytes 0xffffffff (file.drop off.toNat)))
      let b3 := setWord b2 3 (0x00400000 + 0x4000 + off)
      let b4 := setWord b3 4 (UInt32.ofNat (file.length - off.toNat))
      have l0 : b0.length = file.length := setWord_length (by omega) _
      have l2 : b2.length = file.length := (setWord_length (by omega) _).trans l0
      have l3 : b3.length = file.length := (setWord_length (by omega) _).trans l2
      have l4 : b4.length = file.length := (setWord_length (by omega) _).trans l3
      have front : ∀ i, i < 2 → wordAt (b4.take 20 ++ file.drop 20) i = wordAt b0 i := by
        intro i less
        rw [wordAt_front (by omega) (by omega), wordAt_setWord_other (by omega) (by omega),
          wordAt_setWord_other (by omega) (by omega), wordAt_setWord_other (by omega) (by omega)]
      have twenty : (b4.take 20).length = 20 := List.length_take_of_le (by omega)
      refine ⟨by omega, not_not.mp magic, ?_, ?_, ?_⟩
      · exact (front 0 (by decide)).trans (wordAt_setWord (by omega) _)
      · exact (front 1 (by decide)).trans (wordAt_setWord_other (by omega) (by decide) _)
      · exact List.drop_left' twenty

namespace DfuDevice
open Dfu DnloadBlock

variable {b : DfuBoard} {code : StubCode} {off : UInt32} {file patched : List UInt8}

/-- What the build makes of a file that is linked as the applications are. -/
theorem application_patched (done : crctool off file = some patched) (header : 20 ≤ off.toNat)
    (vectors : off.toNat + 8 ≤ file.length) (entry : wordAt file 1 = code.entry)
    (stub : (file.drop 20).take code.bytes.length = code.bytes) :
    Application code off (~~~(crcBytes 0xffffffff (file.drop off.toNat))) patched ∧
      Sound off (~~~(crcBytes 0xffffffff (file.drop off.toNat))) patched := by
  obtain ⟨long, magic, word0, word1, rest⟩ := crctool_keeps done header
  obtain ⟨same, again, patches⟩ := crctool_patches header long magic
  obtain rfl : patched = same := Option.some.inj (done.symm.trans again)
  refine ⟨⟨patches.headed header long, ?_, word1.trans entry, ?_⟩, ?_⟩
  · rw [patches.length]
    exact vectors
  · rw [rest, stub]
  · rw [Sound, patches.range]

/-- What the host sends while the application runs, and then to the boot loader. -/
def update (blocks : List DnloadBlock) (pressed : Bool) (r1 r2 r3 : Nat → UInt8) :
    List DfuDeviceInput :=
  [.runtime .detach, .goOn pressed r1, .setInterface 1] ++
    (session blocks ++ [DfuPoll.getStatus.input, DfuPoll.getStatus.input]).map .dfu ++
    [.busReset, .goOn false r2, .goOn false r3]

/-- Its words are those of an application on the chip that the stack pointer of the tool is made for. -/
theorem accepted_patched (chip : b.chip = .sam3s4)
    (done : crctool off file = some patched) (header : 20 ≤ off.toNat)
    (entry : wordAt file 1 = code.entry)
    (inFlash : DfuBoard.appAddr ≤ code.entry.toNat ∧ code.entry.toNat ≤ b.iflashEnd) :
    Accepted b patched := by
  obtain ⟨_, _, word0, word1, _⟩ := crctool_keeps done header
  rw [Accepted, word0, word1, entry]
  refine ⟨?_, inFlash⟩
  simp only [DfuBoard.iramEnd, chip]
  decide

/-- The driver of a boot loader that has just started, for the flash. -/
def flashPartition (mem : Nat → UInt8) : Dfu :=
  { state := .dfuIdle, status := .ok, pastManifest := false, totalBytes := 0, altsetting := 1
    reading := false, mem, ep0 := [] }

section steps
variable {d : DfuDevice}

/-- The application detaches into the boot loader, whose flash partition the host selects. -/
theorem detach_eq {msp entry : UInt32} (app : d.stage = .app msp entry) (idle : d.dfu.state = .appIdle)
    (pressed : Bool) (r1 : Nat → UInt8) :
    run (step b code) d [.runtime .detach, .goOn pressed r1, .setInterface 1] =
      ⟨.loader, 0, flashPartition (DfuDevice.withRam b r1 d.dfu.mem)⟩ := by
  simp only [run, step, app, usbdfuRuntimeRequestHandler, idle, dfurtSwitchToDfu, goOn, resetException,
    usbdfuOverrideEnterDfu, if_true, Nat.one_ne_zero, if_false, startLoader, answer, flashPartition]

/-- In the boot loader the driver runs by itself. -/
theorem run_dfu (loader : d.stage = .loader) (inputs : List DfuInput) :
    run (step b code) d (inputs.map .dfu) = { d with dfu := run (Dfu.step b) d.dfu inputs } := by
  induction inputs generalizing d with
  | nil => rfl
  | cons i inputs ih =>
    rw [List.map_cons, run, run, step, if_pos loader]
    exact ih loader

end steps

/-- The blocks, and the two questions behind the end of the download. -/
theorem download_manifests (env : b.environment = .flash) (works : b.FlashWorks)
    {blocks : List DnloadBlock} (some' : blocks ≠ []) (fits : (image blocks).length < b.appSize)
    (mem : Nat → UInt8) :
    ∃ e : Dfu, run (Dfu.step b) (flashPartition mem)
        (session blocks ++ [DfuPoll.getStatus.input, DfuPoll.getStatus.input]) = e ∧
      e.pastManifest = true ∧ e.mem = store mem DfuBoard.appAddr (image blocks) := by
  have h : Written (flashPartition mem) _ blocks := written rfl rfl env works blocks fits
  refine ⟨_, rfl, ?_⟩
  rw [session, List.append_assoc, run_append]
  rcases h.state with ⟨_, none⟩ | ⟨state, _⟩
  · exact absurd none some'
  · have before := h.mem
    generalize run (Dfu.step b) (flashPartition mem) (blocks.flatMap inputs) = e at *
    have ends : run (Dfu.step b) e ([.request .dnload 0 true] ++
        [DfuPoll.getStatus.input, DfuPoll.getStatus.input]) =
      { e with
        state := .dfuIdle
        pastManifest := true
        ep0 := e.ep0 ++ [.zlp, .status e.status .dfuManifest, .status e.status .dfuIdle] } := by
      simp [run, Dfu.step, DfuPoll.input, usbdfuDfuRequestHandler, handleRequest, state, handleDnload,
        boardDfuPageSize, otherwise, handleGetstatus, dfuDrvUpdstatus, answer]
    rw [ends]
    exact ⟨rfl, before⟩

theorem withRam_below (ram mem : Nat → UInt8) {a : Nat} (flash : iflashAddr ≤ a)
    (below : a < DfuBoard.appAddr) : DfuDevice.withRam b ram mem a = mem a := by
  have room := b.appSize_bounds.1
  apply if_pos
  simp only [DfuBoard.appSize, DfuBoard.appAddr] at *
  omega

theorem vector_patched (rest : patched.drop 20 = file.drop 20) {i : Nat} (behind : 20 ≤ i) :
    vector patched i = vector file i := by
  obtain ⟨k, rfl⟩ := Nat.exists_eq_add_of_le behind
  rw [vector, vector, ← List.drop_drop, rest, List.drop_drop]

/-- From the manifestation on: the bus reset, and two jumps to the application. -/
theorem restart_eq {crc : UInt32} {image : List UInt8} {d : DfuDevice} (env : b.environment = .flash)
    (held : Holds b d image) (linked : Application code off crc image) (accepted : Accepted b image)
    (sound : Sound off crc image) (loader : d.stage = .loader) (past : d.dfu.pastManifest = true)
    (r2 r3 : Nat → UInt8) : run (step b code) d [.busReset, .goOn false r2, .goOn false r3] =
      startApp { d with dfu := { d.dfu with mem := DfuDevice.withRam b r2 d.dfu.mem } }
        (vector image off.toNat) (vector image (off.toNat + 4)) := by
  have unmarked : (0 : UInt32) ≠ usbDfuMagic := by decide
  have enters := goOn_enters (held.stage .reset 0) linked env rfl false r2
    ⟨unmarked, rfl, accepted⟩
  have stub := goOn_stub (d := { d with
    stage := .entered (wordAt image 0) code.entry
    magic := 0
    dfu := { d.dfu with state := .appIdle, mem := DfuDevice.withRam b r2 d.dfu.mem } })
    (b := b) ⟨(held.withRam r2).fits, (held.withRam r2).held⟩ linked rfl false r3
  rw [if_pos sound] at stub
  simp only [run, step, endOfBusReset, loader, past, if_true, usbdfuSwitchToApp]
  rw [enters, stub]
  rfl

/-- What is linked for the chip, patched by the tool, downloaded in blocks and not refused for its
length, is what runs after the update, and what the flash holds in front of it has not changed. -/
theorem update_runs (chip : b.chip = .sam3s4) (env : b.environment = .flash) (works : b.FlashWorks)
    (done : crctool off file = some patched) (header : 20 ≤ off.toNat)
    (vectors : off.toNat + 8 ≤ file.length) (entry : wordAt file 1 = code.entry)
    (inFlash : DfuBoard.appAddr ≤ code.entry.toNat ∧ code.entry.toNat ≤ b.iflashEnd)
    (stub : (file.drop 20).take code.bytes.length = code.bytes)
    {blocks : List DnloadBlock} (cut : image blocks = patched) (fits : patched.length < b.appSize)
    {d : DfuDevice} {msp pc : UInt32} (app : d.stage = .app msp pc) (idle : d.dfu.state = .appIdle)
    (pressed : Bool) (r1 r2 r3 : Nat → UInt8) :
    (run (step b code) d (update blocks pressed r1 r2 r3)).stage =
        .app (vector file off.toNat) (vector file (off.toNat + 4)) ∧
      Holds b (run (step b code) d (update blocks pressed r1 r2 r3)) patched ∧
      ∀ a, iflashAddr ≤ a → a < DfuBoard.appAddr →
        (run (step b code) d (update blocks pressed r1 r2 r3)).dfu.mem a = d.dfu.mem a := by
  obtain ⟨linked, sound⟩ := application_patched done header vectors entry stub
  have accepted := accepted_patched chip done header entry inFlash
  have some' : blocks ≠ [] := by
    rintro rfl
    have long := linked.long
    rw [← cut] at long
    cases long
  obtain ⟨e, downloaded, past, mem⟩ := download_manifests env works some' (by rwa [cut])
    (DfuDevice.withRam b r1 d.dfu.mem)
  rw [cut] at mem
  have held : Holds b ⟨.loader, 0, e⟩ patched := by
    refine ⟨Nat.le_of_lt fits, ?_⟩
    simp only [mem, readAt_store]
  rw [update, run_append, run_append, detach_eq app idle, run_dfu rfl, downloaded,
    restart_eq env held linked accepted sound rfl past]
  refine ⟨?_, ⟨(held.withRam r2).fits, (held.withRam r2).held⟩, fun a flash below => ?_⟩
  · obtain ⟨_, _, _, _, rest⟩ := crctool_keeps done header
    rw [startApp, vector_patched rest header, vector_patched rest (Nat.le_add_right_of_le header)]
  · simp only [startApp]
    rw [withRam_below r2 e.mem flash below, mem, store_below below, withRam_below r1 _ flash below]

/-- The file of sixteen words before the tool has patched it. -/
def sixteenLinked : List UInt8 :=
  leBytes 4 0xdeadc0de ++ leBytes 4 0x00404015 ++ List.replicate 56 0x80

def oneBlock (data : List UInt8) (whole : data.length = 64) : DnloadBlock where
  data := data
  least := by rw [whole]; decide
  small := by rw [whole]; decide
  aligned := by rw [whole]
  polls := [.getStatus]

/-- It is patched, sent in one block, and runs with the two words behind the header. -/
theorem sixteen_words_run : ∃ blocks, crctool 20 sixteenLinked = some (image blocks) ∧
    (run (step { bootloader with flashd := Flash.unlockedFlashd } fourBytes)
      { holding (sixteenWords 0) with stage := .app 0 0, dfu := { idleDfu with state := .appIdle } }
      (update blocks true (fun _ => 0) (fun _ => 0) fun _ => 0)).stage =
        .app 0x80808080 0x80808080 := by
  have header : 20 ≤ (20 : UInt32).toNat := by decide
  have entry : wordAt sixteenLinked 1 = fourBytes.entry := by decide
  have stub : (sixteenLinked.drop 20).take fourBytes.bytes.length = fourBytes.bytes := by decide
  have long : (20 : UInt32).toNat < sixteenLinked.length := by decide
  obtain ⟨patched, done, patches⟩ := crctool_patches header long (by decide)
  have whole : patched.length = 64 := patches.length
  have cut : image [oneBlock patched whole] = patched := by simp [image, oneBlock]
  refine ⟨[oneBlock patched whole], by rw [cut, done], ?_⟩
  have runs := update_runs (b := { bootloader with flashd := Flash.unlockedFlashd })
    rfl rfl (Flash.unlockedFlashd_works (by decide)) done header (by decide) entry (by decide) stub cut
    (by rw [whole]; decide)
    (d := { holding (sixteenWords 0) with
      stage := .app 0 0, dfu := { idleDfu with state := .appIdle } })
    rfl rfl true (fun _ => 0) (fun _ => 0) (fun _ => 0)
  exact runs.1

end DfuDevice
end Simtrace2
