import Simtrace2.Dfu.Driver

/-! A download to the application partition, block by block: where the image ends before
the end of the flash every block is written, and none is that would reach the end. -/
namespace Simtrace2
open Lib

/-- What the two flash routines do when they work, between two addresses. -/
structure Flashd.Works (f : Flashd) (first last : Nat) : Prop where
  unlock : ∀ mem a z, first ≤ a → a < z → z ≤ last → f.unlock mem a z = (0, mem)
  write : ∀ mem a data, first ≤ a → a + data.length ≤ last →
    f.write mem a data = (0, store mem a data)

inductive DfuPoll where
  | getStatus | getState

def DfuPoll.input : DfuPoll → DfuInput
  | .getStatus => .request .getStatus 6 true
  | .getState => .request .getState 1 true

/-- A block as a host downloads it, with what it asks after it. -/
structure DnloadBlock where
  data : List UInt8
  least : 4 ≤ data.length
  small : data.length ≤ boardDfuPageSize
  aligned : data.length % 4 = 0
  polls : List DfuPoll

namespace DnloadBlock

def transfer (blk : DnloadBlock) : List DfuInput :=
  [.request .dnload blk.data.length true, .readDone true blk.data]

def inputs (blk : DnloadBlock) : List DfuInput := blk.transfer ++ blk.polls.map DfuPoll.input

def image (blocks : List DnloadBlock) : List UInt8 := (blocks.map data).flatten

/-- The blocks, and a DNLOAD of length zero. -/
def session (blocks : List DnloadBlock) : List DfuInput :=
  blocks.flatMap inputs ++ [.request .dnload 0 true]

theorem image_concat (blocks : List DnloadBlock) (blk : DnloadBlock) :
    image (blocks ++ [blk]) = image blocks ++ blk.data := by
  simp [image]

theorem image_prefix {p blocks : List DnloadBlock} (h : p <+: blocks) :
    (image p).length ≤ (image blocks).length := by
  obtain ⟨rest, rfl⟩ := h
  simp [image]

end DnloadBlock

namespace DfuBoard

/-- Where the application starts, and the room for it. -/
def appAddr : Nat := iflashAddr + boardDfuBootSize

def appSize (b : DfuBoard) : Nat := b.chip.iflashSize - boardDfuBootSize

theorem appSize_bounds (b : DfuBoard) : 0 < b.appSize ∧ b.appSize ≤ 0x40000 := by
  unfold appSize
  cases b.chip <;> decide

theorem end_eq {b : DfuBoard} (env : b.environment = .flash) :
    b.iflashEnd = appAddr + b.appSize := by
  simp only [iflashEnd, env, appAddr, appSize]
  cases b.chip <;> decide

/-- The flash routines of the board work on the application partition. -/
def FlashWorks (b : DfuBoard) : Prop := b.flashd.Works appAddr (appAddr + b.appSize)

end DfuBoard

namespace Dfu
open DnloadBlock

/-- After the blocks `p` of a download that has begun in `start`. -/
structure Written (start d : Dfu) (p : List DnloadBlock) : Prop where
  altsetting : d.altsetting = 1
  mem : d.mem = store start.mem DfuBoard.appAddr (image p)
  state : d.state = .dfuIdle ∧ p = [] ∨
    d.state = .dfuDnloadIdle ∧ d.totalBytes = (image p).length

/-- A block has been refused for its address. -/
structure Refused (d : Dfu) : Prop where
  state : d.state = .dfuError
  status : d.status = .errAddress
  reading : d.reading = false

variable {b : DfuBoard} {start d : Dfu} {p : List DnloadBlock}

theorem poll_answers (quiet : d.state = .dfuDnloadIdle ∨ d.state = .dfuError) (poll : DfuPoll) :
    ∃ a, d.step b poll.input = d.answer a := by
  have settled : d.dfuDrvUpdstatus = d := by
    unfold dfuDrvUpdstatus
    rw [if_neg]
    rcases quiet with state | state <;> simp [state]
  rcases quiet with state | state <;> cases poll <;>
    exact ⟨_, by
      simp [step, DfuPoll.input, usbdfuDfuRequestHandler, handleRequest, otherwise, state,
        handleGetstatus, handleGetstate, settled]
      rfl⟩

theorem polls_answer (quiet : d.state = .dfuDnloadIdle ∨ d.state = .dfuError) (polls : List DfuPoll) :
    ∃ as, run (step b) d (polls.map DfuPoll.input) = { d with ep0 := d.ep0 ++ as } := by
  induction polls generalizing d with
  | nil => exact ⟨[], by simp [run]⟩
  | cons poll polls ih =>
    obtain ⟨a, one⟩ := poll_answers (b := b) quiet poll
    obtain ⟨as, rest⟩ := ih (d := d.answer a) quiet
    refine ⟨a :: as, ?_⟩
    rw [List.map_cons, run, one, rest]
    simp [answer]

/-- The end of a block at the end of the partition does not wrap. -/
theorem last_eq (b : DfuBoard) (off : Nat) (data : List UInt8)
    (near : off + data.length ≤ b.appSize + boardDfuPageSize) :
    u32 (DfuBoard.appAddr + off + data.length) = DfuBoard.appAddr + off + data.length := by
  have bound := b.appSize_bounds.2
  apply Nat.mod_eq_of_lt
  simp only [DfuBoard.appAddr, iflashAddr, boardDfuBootSize]
  simp only [boardDfuPageSize] at near
  omega

section handle
variable (env : b.environment = .flash) {off : Nat} {data : List UInt8}
include env

theorem flashAddr_eq (inside : off ≤ b.appSize) : b.flashAddr off = DfuBoard.appAddr + off := by
  have bound := b.appSize_bounds.2
  simp only [DfuBoard.flashAddr, env, u32]
  exact Nat.mod_eq_of_lt (by simp only [iflashAddr, boardDfuBootSize]; omega)

theorem altif_flash : ¬ 1 = altifRam ∧ 1 = b.altifFlash :=
  ⟨by decide, by simp [DfuBoard.altifFlash, env]⟩

theorem handle_inside (works : b.FlashWorks) (some' : 0 < data.length)
    (fits : off + data.length < b.appSize) :
    d.usbdfuHandleDnload b 1 off data =
      ({ d with mem := store d.mem (DfuBoard.appAddr + off) data }, .zlp) := by
  have bound := b.appSize_bounds.2
  have last := last_eq b off data (by omega)
  obtain ⟨ram, flash⟩ := altif_flash env
  have inside : ¬ (DfuBoard.appAddr + off < iflashAddr ∨
      b.iflashEnd ≤ DfuBoard.appAddr + off + data.length) := by
    rw [DfuBoard.end_eq env]
    simp only [DfuBoard.appAddr]
    omega
  have unlocked := works.unlock d.mem (DfuBoard.appAddr + off)
    (DfuBoard.appAddr + off + data.length) (by omega) (by omega) (by omega)
  have written := works.write d.mem (DfuBoard.appAddr + off) data (by omega) (by omega)
  rw [usbdfuHandleDnload, if_neg ram, if_pos flash]
  simp only [flashAddr_eq env (show off ≤ b.appSize by omega), last, if_neg inside, unlocked, written,
    ne_eq, not_true_eq_false, if_false]

theorem handle_beyond (begins : off ≤ b.appSize) (small : data.length ≤ boardDfuPageSize)
    (reaches : b.appSize ≤ off + data.length) :
    d.usbdfuHandleDnload b 1 off data = (d.errAddress, .stall) := by
  have bound := b.appSize_bounds.2
  have page : boardDfuPageSize = 512 := rfl
  have last := last_eq b off data (by omega)
  obtain ⟨ram, flash⟩ := altif_flash env
  have outside : DfuBoard.appAddr + off < iflashAddr ∨
      b.iflashEnd ≤ DfuBoard.appAddr + off + data.length := by
    rw [DfuBoard.end_eq env]
    omega
  rw [usbdfuHandleDnload, if_neg ram, if_pos flash]
  simp only [flashAddr_eq env begins, last, if_pos outside]

end handle

/-- The block has been read when the call-back runs, for the place where the last one ended. -/
theorem transfer_eq (h : Written start d p) (blk : DnloadBlock) :
    run (step b) d blk.transfer = { d with
      totalBytes := (image p).length, reading := false, state := .dfuDnloadSync }.dnloadCb b true
        blk.data := by
  have page : ¬ boardDfuPageSize < blk.data.length := Nat.not_lt.mpr blk.small
  have some' : blk.data.length ≠ 0 := by
    have := blk.least
    omega
  have begun : d.handleRequest b .dnload blk.data.length true =
      ({ d with
        totalBytes := (image p).length, reading := true, state := .dfuDnloadSync }, .nothing) := by
    rcases h.state with ⟨state, rfl⟩ | ⟨state, total⟩
    · simp [handleRequest, state, handleDnload, page, blk.aligned, some', image]
    · simp [handleRequest, state, handleDnload, page, blk.aligned, some', ← total]
  simp only [DnloadBlock.transfer, run, step, usbdfuDfuRequestHandler, begun, if_true]

/-- A block that ends before the end of the flash is written and acknowledged. -/
theorem transfer_inside (h : Written start d p) (env : b.environment = .flash)
    (works : b.FlashWorks) {blk : DnloadBlock}
    (fits : (image (p ++ [blk])).length < b.appSize) :
    run (step b) d blk.transfer = { d with
      totalBytes := (image (p ++ [blk])).length, reading := false, state := .dfuDnloadIdle
      mem := store start.mem DfuBoard.appAddr (image (p ++ [blk])), ep0 := d.ep0 ++ [.zlp] } := by
  have bound := b.appSize_bounds.2
  have some' := blk.least
  rw [image_concat, List.length_append] at fits
  have total : u32 ((image p).length + blk.data.length) = (image p).length + blk.data.length :=
    Nat.mod_eq_of_lt (by omega)
  rw [transfer_eq h, image_concat, ← store_append, ← h.mem, List.length_append]
  simp only [dnloadCb, h.altsetting, handle_inside env works (show 0 < blk.data.length by omega) fits,
    total]
  rfl

/-- One that would reach the end is refused. -/
theorem transfer_beyond (h : Written start d p) (env : b.environment = .flash) {blk : DnloadBlock}
    (begins : (image p).length ≤ b.appSize) (reaches : b.appSize ≤ (image (p ++ [blk])).length) :
    run (step b) d blk.transfer = { d with
      totalBytes := (image p).length, reading := false, state := .dfuError, status := .errAddress
      ep0 := d.ep0 ++ [.stall] } := by
  rw [image_concat, List.length_append] at reaches
  rw [transfer_eq h]
  simp only [dnloadCb, h.altsetting, handle_beyond env begins blk.small reaches]
  rfl

theorem Written.block (h : Written start d p) (env : b.environment = .flash) (works : b.FlashWorks)
    {blk : DnloadBlock} (fits : (image (p ++ [blk])).length < b.appSize) :
    Written start (run (step b) d blk.inputs) (p ++ [blk]) := by
  rw [inputs, run_append, transfer_inside h env works fits]
  obtain ⟨as, polled⟩ := polls_answer (b := b) (d := { d with
    totalBytes := (image (p ++ [blk])).length, reading := false, state := .dfuDnloadIdle
    mem := store start.mem DfuBoard.appAddr (image (p ++ [blk])), ep0 := d.ep0 ++ [.zlp] })
    (.inl rfl) blk.polls
  rw [polled]
  exact ⟨h.altsetting, rfl, .inr ⟨rfl, rfl⟩⟩

/-- The blocks before the end of the flash, one after the other. -/
theorem written (idle : start.state = .dfuIdle) (alt : start.altsetting = 1)
    (env : b.environment = .flash) (works : b.FlashWorks) (p : List DnloadBlock)
    (fits : (image p).length < b.appSize) :
    Written start (run (step b) start (p.flatMap inputs)) p := by
  induction p using List.reverseRecOn with
  | nil => exact ⟨alt, by simp [image, run], .inl ⟨idle, rfl⟩⟩
  | append_singleton p blk ih =>
    have before : (image p).length < b.appSize := by
      have less := image_prefix (List.prefix_append p [blk])
      omega
    rw [List.flatMap_append, run_append, List.flatMap_singleton]
    exact (ih before).block env works fits

theorem Refused.polls (h : d.Refused) (polls : List DfuPoll) :
    (run (step b) d (polls.map DfuPoll.input)).Refused ∧
      (run (step b) d (polls.map DfuPoll.input)).mem = d.mem := by
  obtain ⟨as, polled⟩ := polls_answer (b := b) (.inr h.state) polls
  rw [polled]
  exact ⟨⟨h.state, h.status, h.reading⟩, rfl⟩

/-- After an error every block is stalled. -/
theorem Refused.transfer (h : d.Refused) (blk : DnloadBlock) :
    run (step b) d blk.transfer = d.answer .stall := by
  have same : d.handleRequest b .dnload blk.data.length true =
      ({ d with state := .dfuError }, .stall) := by
    simp [handleRequest, h.state, otherwise]
  simp only [DnloadBlock.transfer, run, step, usbdfuDfuRequestHandler, same]
  rw [if_neg (by simp [answer, h.reading]), ← h.state]

/-- The block is acknowledged, and the next one can follow. -/
def Accepts (b : DfuBoard) (d : Dfu) (blk : DnloadBlock) : Prop :=
  (run (step b) d blk.transfer).state = .dfuDnloadIdle ∧
    (run (step b) d blk.transfer).ep0 = d.ep0 ++ [.zlp]

/-- The block is stalled, the error is one of the address, and nothing is written. -/
def Refuses (b : DfuBoard) (d : Dfu) (blk : DnloadBlock) : Prop :=
  (run (step b) d blk.transfer).Refused ∧
    (run (step b) d blk.transfer).ep0 = d.ep0 ++ [.stall] ∧
    (run (step b) d blk.transfer).mem = d.mem

/-- The application partition holds the image, and what is below it or behind the image is as
it was. -/
structure Flashed (start d : Dfu) (image : List UInt8) : Prop where
  held : readAt d.mem DfuBoard.appAddr image.length = image
  below : ∀ a < DfuBoard.appAddr, d.mem a = start.mem a
  behind : ∀ a, DfuBoard.appAddr + image.length ≤ a → d.mem a = start.mem a

/-- An image that fits is flashed, and of a longer one the first block that would reach
beyond the end of the flash is refused. -/
structure Flashes (b : DfuBoard) (start : Dfu) (blocks : List DnloadBlock) : Prop where
  accepts : (image blocks).length ≤ b.appSize → ∀ p blk, p ++ [blk] <+: blocks →
    Accepts b (run (step b) start (p.flatMap inputs)) blk
  flashed : (image blocks).length ≤ b.appSize →
    Flashed start (run (step b) start (session blocks)) (image blocks)
  refuses : ∀ p blk, p ++ [blk] <+: blocks → (image p).length ≤ b.appSize →
    b.appSize < (image (p ++ [blk])).length →
    Refuses b (run (step b) start (p.flatMap inputs)) blk

/-- The zero-length DNLOAD writes nothing. -/
theorem Written.manifest (h : Written start d p) :
    (d.step b (.request .dnload 0 true)).mem = d.mem := by
  rcases h.state with ⟨state, _⟩ | ⟨state, _⟩ <;>
    simp [step, usbdfuDfuRequestHandler, handleRequest, handleDnload, state, answer, boardDfuPageSize]

theorem Written.flashed (h : Written start d p) :
    Flashed start (d.step b (.request .dnload 0 true)) (image p) := by
  refine ⟨?_, fun a below => ?_, fun a behind => ?_⟩
  · rw [h.manifest, h.mem, readAt_store]
  · rw [h.manifest, h.mem, store_below below]
  · rw [h.manifest, h.mem, store_above behind]

theorem Written.refuses (h : Written start d p) (env : b.environment = .flash) {blk : DnloadBlock}
    (begins : (image p).length ≤ b.appSize) (reaches : b.appSize ≤ (image (p ++ [blk])).length) :
    Refuses b d blk := by
  have refused := transfer_beyond h env begins reaches
  refine ⟨?_, ?_, ?_⟩
  · rw [refused]
    exact ⟨rfl, rfl, rfl⟩
  · rw [refused]
  · rw [refused]

section download
variable (idle : start.state = .dfuIdle) (alt : start.altsetting = 1)
  (env : b.environment = .flash) (works : b.FlashWorks)
include idle alt env works

/-- The blocks up to the end of the flash, of which the last one reaches it. -/
theorem refused_at_end {q : List DnloadBlock} {blk : DnloadBlock}
    (full : (image (q ++ [blk])).length = b.appSize) :
    Refuses b (run (step b) start (q.flatMap inputs)) blk ∧
      (run (step b) start ((q ++ [blk]).flatMap inputs)).Refused := by
  have least := blk.least
  have less : (image q).length < b.appSize := by
    rw [← full, image_concat, List.length_append]
    omega
  have refuses := (written idle alt env works q less).refuses env (Nat.le_of_lt less)
    (Nat.le_of_eq full.symm)
  refine ⟨refuses, ?_⟩
  rw [List.flatMap_append, run_append, List.flatMap_singleton, inputs, run_append]
  exact (refuses.1.polls blk.polls).1

theorem full_not_flashed {blocks : List DnloadBlock} (full : (image blocks).length = b.appSize) :
    ¬ Flashes b start blocks := by
  have room := b.appSize_bounds.1
  intro h
  rcases List.eq_nil_or_concat blocks with rfl | ⟨q, blk, rfl⟩
  · rw [← full] at room
    exact absurd room (Nat.lt_irrefl 0)
  · rw [List.concat_eq_append] at full h
    have accepted := (h.accepts (Nat.le_of_eq full) q blk (List.prefix_refl _)).1
    have refused := (refused_at_end idle alt env works full).1.1.state
    rw [accepted] at refused
    cases refused

/-- A download does what it should exactly when the image does not end where the flash ends. -/
theorem flashes_iff (blocks : List DnloadBlock) :
    Flashes b start blocks ↔ (image blocks).length ≠ b.appSize := by
  have room := b.appSize_bounds.1
  constructor
  · intro h full
    exact full_not_flashed idle alt env works full h
  · intro differs
    refine ⟨fun fits p blk member => ?_, fun fits => ?_, fun p blk member begins beyond => ?_⟩
    · have whole := image_prefix member
      have before := image_prefix (List.prefix_append p [blk])
      have h := transfer_inside (written idle alt env works p (by omega)) env works
        (show (image (p ++ [blk])).length < b.appSize by omega)
      rw [Accepts, h]
      exact ⟨rfl, rfl⟩
    · rw [session, run_append]
      exact (written idle alt env works blocks (by omega)).flashed
    · rcases Nat.lt_or_eq_of_le begins with less | full
      · exact (written idle alt env works p less).refuses env begins (Nat.le_of_lt beyond)
      · rcases List.eq_nil_or_concat p with rfl | ⟨q, last, rfl⟩
        · rw [← full] at room
          exact absurd room (Nat.lt_irrefl 0)
        · rw [List.concat_eq_append] at full ⊢
          have refused := (refused_at_end idle alt env works full).2
          have stalled := refused.transfer (b := b) blk
          refine ⟨?_, ?_, ?_⟩
          · rw [stalled]
            exact ⟨refused.state, refused.status, refused.reading⟩
          · rw [stalled]
            rfl
          · rw [stalled]
            rfl

end download

def workingFlashd : Flashd where
  unlock := fun mem _ _ => (0, mem)
  write := fun mem a data => (0, store mem a data)

def bootloader : DfuBoard := ⟨.sam3s4, .flash, 0x2000C000, workingFlashd⟩

theorem bootloader_works : bootloader.FlashWorks :=
  ⟨fun _ _ _ _ _ _ => rfl, fun _ _ _ _ _ => rfl⟩

/-- In mode DFU with the flash as the alternate setting, which is erased. -/
def idleDfu : Dfu :=
  { state := .dfuIdle, status := .ok, pastManifest := false, totalBytes := 0, altsetting := 1
    reading := false, mem := fun _ => 0xff, ep0 := [] }

/-- A page of the bytes `byte`. -/
def page (byte : UInt8) : DnloadBlock :=
  { data := List.replicate boardDfuPageSize byte, polls := [.getStatus]
    least := by rw [List.length_replicate]; decide
    small := Nat.le_of_eq (List.length_replicate ..)
    aligned := by rw [List.length_replicate]; decide }

theorem image_pages (n : Nat) (byte : UInt8) :
    (image (List.replicate n (page byte))).length = n * boardDfuPageSize := by
  induction n with
  | zero => simp [image]
  | succ n ih =>
    rw [List.replicate_succ', image_concat, List.length_append, ih, page, List.length_replicate,
      Nat.succ_mul]

theorem one_page_flashes : Flashes bootloader idleDfu (List.replicate 1 (page 0)) :=
  (flashes_iff rfl rfl rfl bootloader_works _).mpr (by rw [image_pages]; decide)

/-- The image that fills the partition, 480 pages of 512 bytes. -/
theorem full_partition_refused : ¬ Flashes bootloader idleDfu (List.replicate 480 (page 0)) := by
  apply full_not_flashed rfl rfl rfl bootloader_works
  rw [image_pages]
  rfl

end Dfu
end Simtrace2
