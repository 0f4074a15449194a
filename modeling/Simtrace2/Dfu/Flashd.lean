import Simtrace2.Dfu.Download

/-! The flash routines under a download (`flashd.c`, `efc.c`): pages are filled up with what the flash
holds around the data, and regions are unlocked before they are written. -/
namespace Simtrace2
open Lib

def iflashPageSize : Nat := 256
def iflashLockRegionSize : Nat := 16384

/-- `EEFC_FSR_FLOCKE` -/
def eefcFsrFlocke : Nat := 4

/-- The flash with its controller: the page that is written to before a command puts it into the flash,
and the lock bits. -/
structure Flash where
  mem : Nat → UInt8
  latch : Nat → UInt8
  locked : Nat → Bool

inductive EfcCommand where
  | ewp | clb

namespace Flash

/-- `numPagesInRegion` -/
def pagesInRegion : Nat := iflashLockRegionSize / iflashPageSize

/-- `EFC_TranslateAddress` -/
def translateAddress (address : Nat) : Nat × Fin iflashPageSize :=
  ((address - iflashAddr) / iflashPageSize,
    ⟨(address - iflashAddr) % iflashPageSize, Nat.mod_lt _ (by decide)⟩)

/-- `EFC_ComputeAddress` -/
def computeAddress (page offset : Nat) : Nat := iflashAddr + page * iflashPageSize + offset

/-- `EFC_PerformCommand`: erase a page and write it, or clear the lock bit of its region. -/
def efcPerformCommand (f : Flash) (command : EfcCommand) (page : Nat) : Nat × Flash :=
  match command with
  | .ewp =>
    if f.locked (page / pagesInRegion) then (eefcFsrFlocke, f)
    else (0, { f with mem := store f.mem (computeAddress page 0) (readAt f.latch 0 iflashPageSize) })
  | .clb => (0, { f with locked := fun region => region ≠ page / pagesInRegion && f.locked region })

/-- `_aucPageBuffer` -/
def pageBuffer (f : Flash) (page offset : Nat) (data : List UInt8) : List UInt8 :=
  let pageAddress := computeAddress page 0
  let padding := iflashPageSize - offset - data.length
  readAt f.mem pageAddress offset ++ data ++ readAt f.mem (pageAddress + offset + data.length) padding

/-- The loop of `FLASHD_Write`. Behind the first page the offset is zero. -/
def writePages (f : Flash) (page : Nat) (offset : Fin iflashPageSize) (data : List UInt8) :
    Nat × Flash :=
  if 0 < data.length then
    let writeSize := min (iflashPageSize - offset) data.length
    let f := { f with latch := store f.latch 0 (f.pageBuffer page offset (data.take writeSize)) }
    let (error, f) := f.efcPerformCommand .ewp page
    if error ≠ 0 then (error, f)
    else f.writePages (page + 1) ⟨0, by decide⟩ (data.drop writeSize)
  else (0, f)
termination_by data.length
decreasing_by
  have inside := offset.isLt
  rw [List.length_drop]
  omega

/-- `FLASHD_Write` -/
def flashdWrite (f : Flash) (address : Nat) (data : List UInt8) : Nat × Flash :=
  f.writePages (translateAddress address).1 (translateAddress address).2 data

/-- `ComputeLockRange` -/
def computeLockRange (start stop : Nat) : Nat × Nat :=
  let startPage := (translateAddress start).1
  let endPage := (translateAddress stop).1
  let actualEndPage :=
    if endPage % pagesInRegion ≠ 0 then endPage + (pagesInRegion - endPage % pagesInRegion) else endPage
  (computeAddress (startPage - startPage % pagesInRegion) 0, computeAddress actualEndPage 0)

/-- The loop of `FLASHD_Unlock`. -/
def unlockPages (f : Flash) (startPage endPage : Nat) : Nat × Flash :=
  if startPage < endPage then
    let (error, f) := f.efcPerformCommand .clb startPage
    if error ≠ 0 then (error, f) else f.unlockPages (startPage + pagesInRegion) endPage
  else (0, f)
termination_by endPage - startPage
decreasing_by
  have some : 0 < pagesInRegion := by decide
  omega

/-- `FLASHD_Unlock` -/
def flashdUnlock (f : Flash) (start stop : Nat) : Nat × Flash :=
  let range := computeLockRange start stop
  f.unlockPages (translateAddress range.1).1 (translateAddress range.2).1

/-- What `USBDFU_handle_dnload` does with a block for the flash. -/
def program (f : Flash) (address : Nat) (data : List UInt8) : Nat × Flash :=
  let done := f.flashdUnlock address (address + data.length)
  if done.1 ≠ 0 then done else done.2.flashdWrite address data

/-- The blocks of a download, one behind the other, until one fails. -/
def download (f : Flash) (address : Nat) : List (List UInt8) → Nat × Flash
  | [] => (0, f)
  | data :: blocks =>
    let done := f.program address data
    if done.1 ≠ 0 then done else done.2.download (address + data.length) blocks

end Flash

/-! ### Writing -/

namespace Flash

/-- The region of an address. -/
def region (address : Nat) : Nat := (address - iflashAddr) / iflashLockRegionSize

/-- How many of `n` bytes from an address on come before the first that is locked. -/
def free (locked : Nat → Bool) (address : Nat) : Nat → Nat
  | 0 => 0
  | n + 1 => if locked (region address) then 0 else free locked (address + 1) n + 1

theorem free_eq_iff {locked : Nat → Bool} {address n : Nat} :
    free locked address n = n ↔ ∀ i < n, locked (region (address + i)) = false := by
  induction n generalizing address with
  | zero => simp [free]
  | succ n ih =>
    unfold free
    constructor
    · intro all i below
      split at all
      · cases all
      · rename_i first
        cases i with
        | zero => simpa using first
        | succ i =>
          have next := ih.mp (Nat.succ.inj all) i (by omega)
          rwa [Nat.add_assoc, Nat.add_comm 1] at next
    · intro all
      have first := all 0 (by omega)
      rw [Nat.add_zero] at first
      rw [if_neg (by simp [first]), ih.mpr]
      intro i below
      have next := all (i + 1) (by omega)
      rwa [Nat.add_comm i, ← Nat.add_assoc] at next

theorem free_add {locked : Nat → Bool} {address m : Nat} (all : free locked address m = m) (n : Nat) :
    free locked address (m + n) = m + free locked (address + m) n := by
  induction m generalizing address with
  | zero => simp
  | succ m ih =>
    unfold free at all
    split at all
    · cases all
    · rename_i first
      rw [Nat.add_right_comm, free, if_neg first, ih (Nat.succ.inj all)]
      rw [Nat.add_assoc address 1 m, Nat.add_comm 1 m]
      omega

/-- Bytes of one page are locked together. -/
theorem free_page {locked : Nat → Bool} {page offset n : Nat} (fits : offset + n ≤ iflashPageSize)
    (m : Nat) : free locked (computeAddress page offset) (n + m) =
      if locked (page / pagesInRegion) then
        if n = 0 then free locked (computeAddress page offset) m else 0
      else n + free locked (computeAddress page offset + n) m := by
  have region_eq : ∀ i < n, region (computeAddress page offset + i) = page / pagesInRegion := by
    intro i below
    simp only [region, computeAddress, pagesInRegion, iflashLockRegionSize, iflashPageSize] at *
    omega
  cases n with
  | zero =>
    rw [Nat.zero_add, if_pos rfl, Nat.add_zero, Nat.zero_add, ite_self]
  | succ n =>
    have first := region_eq 0 (by omega)
    rw [Nat.add_zero] at first
    by_cases locked' : locked (page / pagesInRegion) = true
    · rw [if_pos locked', if_neg (Nat.succ_ne_zero n), Nat.add_right_comm, free, first, if_pos locked']
    · rw [if_neg locked']
      apply free_add
      rw [free_eq_iff]
      intro i below
      rw [region_eq i below]
      simpa using locked'

/-- A page with the bytes around the data is the data put into it. -/
theorem efcPerformCommand_ewp (f : Flash) (page : Nat) (offset : Fin iflashPageSize)
    (data : List UInt8) (fits : offset + data.length ≤ iflashPageSize) (latch : Nat → UInt8) :
    ({ f with latch := store latch 0 (f.pageBuffer page offset data) } : Flash).efcPerformCommand
        .ewp page =
      (if f.locked (page / pagesInRegion) then eefcFsrFlocke else 0,
        { f with
          latch := store latch 0 (f.pageBuffer page offset data)
          mem :=
            if f.locked (page / pagesInRegion) then f.mem
            else store f.mem (computeAddress page offset) data }) := by
  have around := store_around f.mem (computeAddress page 0) offset
    (iflashPageSize - offset - data.length) data
  have full : (f.pageBuffer page offset data).length = iflashPageSize := by
    simp only [pageBuffer, List.length_append, readAt_length]
    omega
  have put : readAt (store latch 0 (f.pageBuffer page offset data)) 0 iflashPageSize =
      f.pageBuffer page offset data := by
    have held := readAt_store latch 0 (f.pageBuffer page offset data)
    rwa [full] at held
  have patched : store f.mem (computeAddress page 0) (f.pageBuffer page offset data) =
      store f.mem (computeAddress page offset) data := around
  cases locked : f.locked (page / pagesInRegion) with
  | true => simp [efcPerformCommand, locked]
  | false => simp [efcPerformCommand, locked, put, patched]

/-- A write stops in front of the first byte that is locked, and leaves everything else as it was. -/
theorem writePages_eq (f : Flash) (page : Nat) (offset : Fin iflashPageSize) (data : List UInt8) :
    ∃ latch, f.writePages page offset data =
      (if free f.locked (computeAddress page offset) data.length = data.length then 0
        else eefcFsrFlocke,
      { f with
        latch
        mem := store f.mem (computeAddress page offset)
          (data.take (free f.locked (computeAddress page offset) data.length)) }) := by
  induction h : data.length using Nat.strong_induction_on generalizing f page offset data with
  | _ n ih =>
    subst h
    have inside := offset.isLt
    rcases Nat.eq_zero_or_pos data.length with none | some'
    · have empty := List.eq_nil_of_length_eq_zero none
      exact ⟨f.latch, by simp [writePages, empty, free]⟩
    · generalize size : min (iflashPageSize - offset) data.length = writeSize
      have taken : (data.take writeSize).length = writeSize := List.length_take_of_le (by omega)
      have left : (data.drop writeSize).length = data.length - writeSize := List.length_drop
      have one := efcPerformCommand_ewp f page offset (data.take writeSize) (by omega) f.latch
      have first : free f.locked (computeAddress page offset)
          (writeSize + (data.length - writeSize)) = _ :=
        free_page (by omega) (data.length - writeSize)
      rw [Nat.add_sub_of_le (by omega)] at first
      rw [writePages, if_pos some']
      simp only [size, one]
      cases locked : f.locked (page / pagesInRegion) with
      | true =>
        rw [locked, if_pos rfl, if_neg (by omega)] at first
        have less : ¬ 0 = data.length := by omega
        exact ⟨_, by simp [first, less, eefcFsrFlocke]; rfl⟩
      | false =>
        rw [locked, if_neg Bool.false_ne_true] at first
        simp only [Bool.false_eq_true, if_false, ne_eq, not_true_eq_false]
        obtain ⟨latch, rest⟩ := ih (data.drop writeSize).length (by omega)
          { f with
            latch := store f.latch 0 (f.pageBuffer page offset (data.take writeSize))
            mem := store f.mem (computeAddress page offset) (data.take writeSize) }
          (page + 1) ⟨0, by decide⟩ (data.drop writeSize) rfl
        refine ⟨latch, ?_⟩
        rw [rest, left, first]
        rcases Nat.eq_zero_or_pos (data.length - writeSize) with last | more
        · have whole : data.drop writeSize = [] := List.drop_of_length_le (by omega)
          have fits : writeSize = data.length := by omega
          simp [free, fits]
        · have next : computeAddress (page + 1) 0 = computeAddress page offset + writeSize := by
            simp only [computeAddress, iflashPageSize] at *
            omega
          have joined := store_append f.mem (computeAddress page offset) (data.take writeSize)
          rw [taken] at joined
          have all : ∀ n, n = data.length - writeSize ↔ writeSize + n = data.length := by omega
          simp only [next, joined, List.take_add, all]

theorem computeAddress_translateAddress {address : Nat} (flash : iflashAddr ≤ address) :
    computeAddress (translateAddress address).1 (translateAddress address).2 = address := by
  simp only [computeAddress, translateAddress, iflashPageSize]
  omega

theorem flashdWrite_eq (f : Flash) {address : Nat} (flash : iflashAddr ≤ address)
    (data : List UInt8) :
    ∃ latch, f.flashdWrite address data =
      (if free f.locked address data.length = data.length then 0 else eefcFsrFlocke,
      { f with
        latch
        mem := store f.mem address (data.take (free f.locked address data.length)) }) := by
  have written := f.writePages_eq (translateAddress address).1 (translateAddress address).2 data
  rwa [computeAddress_translateAddress flash] at written

/-! ### Unlocking -/

/-- The lock bits without those of the regions from `first` up to, and without, `last`. -/
def unlocked (locked : Nat → Bool) (first last : Nat) : Nat → Bool :=
  fun region => !(first ≤ region && region < last) && locked region

/-- The regions up to an end, without the one of which only the first page lies before it. -/
def regionsBefore (stop : Nat) : Nat := ((stop - iflashAddr) / iflashPageSize + 63) / pagesInRegion

theorem unlockPages_eq (f : Flash) (first last : Nat) :
    f.unlockPages (first * pagesInRegion) (last * pagesInRegion) =
      (0, { f with locked := unlocked f.locked first last }) := by
  have some' : 0 < pagesInRegion := by decide
  induction h : last - first generalizing f first with
  | zero =>
    have none : ¬ first * pagesInRegion < last * pagesInRegion := by
      rw [Nat.mul_lt_mul_right some']
      omega
    have same : unlocked f.locked first last = f.locked := by
      funext region
      have out : ¬ (first ≤ region ∧ region < last) := by omega
      simp only [unlocked]
      grind
    rw [unlockPages, if_neg none, same]
  | succ n ih =>
    have more : first * pagesInRegion < last * pagesInRegion := by
      rw [Nat.mul_lt_mul_right some']
      omega
    have region : first * pagesInRegion / pagesInRegion = first := Nat.mul_div_cancel _ some'
    rw [unlockPages, if_pos more]
    simp only [efcPerformCommand, region, ne_eq, not_true_eq_false, if_false]
    rw [← Nat.succ_mul, ih _ (first + 1) (by omega)]
    congr 2
    funext region
    simp only [unlocked]
    grind

theorem translateAddress_computeAddress (page : Nat) :
    (translateAddress (computeAddress page 0)).1 = page := by
  simp only [translateAddress, computeAddress, iflashPageSize]
  omega

theorem computeLockRange_eq (start stop : Nat) :
    computeLockRange start stop = (computeAddress (region start * pagesInRegion) 0,
      computeAddress (regionsBefore stop * pagesInRegion) 0) := by
  have pages : pagesInRegion = 64 := rfl
  have down : ∀ page, page - page % 64 = page / 64 * 64 := by omega
  have up : ∀ page, (if page % 64 ≠ 0 then page + (64 - page % 64) else page) =
      (page + 63) / 64 * 64 := by
    intro page
    split <;> omega
  have first : region start = (translateAddress start).1 / 64 := by
    simp only [region, translateAddress, iflashLockRegionSize, iflashPageSize]
    omega
  simp only [computeLockRange, pages, down, up, first]
  rfl

theorem flashdUnlock_eq (f : Flash) (start stop : Nat) :
    f.flashdUnlock start stop =
      (0, { f with locked := unlocked f.locked (region start) (regionsBefore stop) }) := by
  rw [flashdUnlock, computeLockRange_eq, translateAddress_computeAddress,
    translateAddress_computeAddress, unlockPages_eq]

/-! ### A download -/

/-- How far an end lies in its region. -/
def tail (stop : Nat) : Nat := (stop - iflashAddr) % iflashLockRegionSize

/-- An end in the first page of a region that is locked. -/
def Stuck (locked : Nat → Bool) (stop : Nat) : Prop :=
  0 < tail stop ∧ tail stop < iflashPageSize ∧ locked (region stop)

instance (locked : Nat → Bool) (stop : Nat) : Decidable (Stuck locked stop) :=
  inferInstanceAs (Decidable (_ ∧ _))

/-- How many of the bytes from an address up to an end are programmed. -/
def programmed (locked : Nat → Bool) (address n : Nat) : Nat :=
  if Stuck locked (address + n) then n - tail (address + n) else n

theorem regionsBefore_eq (stop : Nat) : regionsBefore stop =
    if tail stop < iflashPageSize then region stop else region stop + 1 := by
  split
  all_goals
    simp only [regionsBefore, tail, region, pagesInRegion, iflashLockRegionSize, iflashPageSize] at *
    omega

/-- A byte in front of an end lies in an earlier region, or at most the tail before the end. -/
theorem region_lt_iff {address i n : Nat} (flash : iflashAddr ≤ address) (before : i < n) :
    region (address + i) < region (address + n) ↔ i + tail (address + n) < n := by
  simp only [region, tail, iflashLockRegionSize]
  omega

theorem region_mono {a b : Nat} (le : a ≤ b) : region a ≤ region b :=
  Nat.div_le_div_right (Nat.sub_le_sub_right le _)

theorem regionsBefore_mono {a b : Nat} (le : a ≤ b) : regionsBefore a ≤ regionsBefore b :=
  Nat.div_le_div_right (Nat.add_le_add_right (Nat.div_le_div_right (Nat.sub_le_sub_right le _)) _)

/-- Unlocked as a block asks for it, a block is programmed up to the first page of its last region. -/
theorem free_unlocked (locked : Nat → Bool) {address : Nat} (flash : iflashAddr ≤ address) (n : Nat) :
    free (unlocked locked (region address) (regionsBefore (address + n))) address n =
      programmed locked address n := by
  generalize now : unlocked locked (region address) (regionsBefore (address + n)) = left
  have cleared : ∀ i, region (address + i) < regionsBefore (address + n) →
      left (region (address + i)) = false := by
    intro i inside
    have first := region_mono (Nat.le_add_right address i)
    simp [← now, unlocked, first, inside]
  have kept : ∀ i, regionsBefore (address + n) ≤ region (address + i) →
      left (region (address + i)) = locked (region (address + i)) := by
    intro i outside
    simp [← now, unlocked, Nat.not_lt.mpr outside]
  have last := regionsBefore_eq (address + n)
  by_cases stuck : Stuck locked (address + n)
  · obtain ⟨some', page, locked'⟩ := stuck
    rw [programmed, if_pos ⟨some', page, locked'⟩]
    rw [if_pos page] at last
    have front : free left address (n - tail (address + n)) = n - tail (address + n) := by
      rw [free_eq_iff]
      intro i before
      have earlier := (region_lt_iff flash (show i < n by omega)).mpr (by omega)
      exact cleared i (by omega)
    have whole := free_add front (n - (n - tail (address + n)))
    rw [Nat.add_sub_of_le (Nat.sub_le ..)] at whole
    rw [whole]
    cases more : n - (n - tail (address + n)) with
    | zero => rw [free, Nat.add_zero]
    | succ k =>
      have same : region (address + (n - tail (address + n))) = region (address + n) := by
        have before := region_mono (Nat.add_le_add_left (Nat.sub_le n (tail (address + n))) address)
        have not_earlier := (region_lt_iff flash
          (show n - tail (address + n) < n by omega)).not.mpr (by omega)
        omega
      rw [free, kept _ (by omega), same, if_pos locked', Nat.add_zero]
  · rw [programmed, if_neg stuck, free_eq_iff]
    intro i before
    by_cases inside : region (address + i) < regionsBefore (address + n)
    · exact cleared i inside
    · have mono := region_mono (Nat.le_of_lt (Nat.add_lt_add_left before address))
      have earlier := region_lt_iff flash before
      have page : tail (address + n) < iflashPageSize := by
        by_contra far
        rw [if_neg far] at last
        omega
      rw [if_pos page] at last
      have same : region (address + i) = region (address + n) := by omega
      rw [kept i (by omega), same]
      have free' : ¬ locked (region (address + n)) = true :=
        fun locked' => stuck ⟨by omega, page, locked'⟩
      simpa using free'

theorem program_eq (f : Flash) {address : Nat} (flash : iflashAddr ≤ address) (data : List UInt8) :
    ∃ latch, f.program address data =
      (if programmed f.locked address data.length = data.length then 0 else eefcFsrFlocke,
      { latch
        locked := unlocked f.locked (region address) (regionsBefore (address + data.length))
        mem := store f.mem address (data.take (programmed f.locked address data.length)) }) := by
  have written := flashdWrite_eq
    { f with locked := unlocked f.locked (region address) (regionsBefore (address + data.length)) }
    flash data
  rw [free_unlocked f.locked flash] at written
  simpa only [program, flashdUnlock_eq, ne_eq, not_true_eq_false, if_false] using written

/-- How many bytes of the blocks are programmed. -/
def downloaded (locked : Nat → Bool) (address : Nat) : List (List UInt8) → Nat
  | [] => 0
  | data :: blocks =>
    if programmed locked address data.length = data.length then
      data.length + downloaded locked (address + data.length) blocks
    else programmed locked address data.length

theorem programmed_le (locked : Nat → Bool) (address n : Nat) : programmed locked address n ≤ n := by
  unfold programmed
  split <;> omega

/-- What the blocks before have unlocked makes no difference: where a block would be stopped, they
have unlocked nothing. -/
theorem downloaded_unlocked (locked : Nat → Bool) (first : Nat) {address stop : Nat}
    (behind : address ≤ stop) (blocks : List (List UInt8)) :
    downloaded (unlocked locked first (regionsBefore address)) stop blocks =
      downloaded locked stop blocks := by
  induction blocks generalizing stop with
  | nil => rfl
  | cons data blocks ih =>
    have same : programmed (unlocked locked first (regionsBefore address)) stop data.length =
        programmed locked stop data.length := by
      have stuck : Stuck (unlocked locked first (regionsBefore address)) (stop + data.length) ↔
          Stuck locked (stop + data.length) := by
        have mono := regionsBefore_mono (show address ≤ stop + data.length by omega)
        have last := regionsBefore_eq (stop + data.length)
        refine and_congr_right fun _ => and_congr_right fun page => ?_
        rw [if_pos page] at last
        have kept : ¬ region (stop + data.length) < regionsBefore address := by omega
        simp [unlocked, kept]
      simp only [programmed, stuck]
    rw [downloaded, downloaded, same, ih (by omega)]

theorem download_eq (f : Flash) {address : Nat} (flash : iflashAddr ≤ address)
    (blocks : List (List UInt8)) : ∃ latch locked, f.download address blocks =
      (if downloaded f.locked address blocks = blocks.flatten.length then 0 else eefcFsrFlocke,
      { latch, locked
        mem := store f.mem address (blocks.flatten.take (downloaded f.locked address blocks)) }) := by
  induction blocks generalizing f address with
  | nil => exact ⟨f.latch, f.locked, by simp [download, downloaded]⟩
  | cons data blocks ih =>
    obtain ⟨latch, one⟩ := f.program_eq flash data
    have small := programmed_le f.locked address data.length
    rw [download]
    simp only [one]
    by_cases whole : programmed f.locked address data.length = data.length
    · obtain ⟨latch, locked, rest⟩ := ih
        { latch
          locked := unlocked f.locked (region address) (regionsBefore (address + data.length))
          mem := store f.mem address data }
        (Nat.le_trans flash (Nat.le_add_right ..))
      refine ⟨latch, locked, ?_⟩
      rw [downloaded_unlocked _ _ (Nat.le_refl _)] at rest
      simp only [downloaded, whole, if_true, List.take_length, ne_eq, not_true_eq_false, if_false,
        rest, store_append, List.flatten_cons, List.length_append, Nat.add_left_cancel_iff,
        List.take_length_add_append]
    · have less := programmed_le f.locked address data.length
      have stopped : programmed f.locked address data.length ≠ data.length + blocks.flatten.length := by
        omega
      refine ⟨latch, unlocked f.locked (region address) (regionsBefore (address + data.length)), ?_⟩
      simp only [downloaded, whole, if_false, List.flatten_cons, List.length_append, stopped,
        List.take_append_of_le_length less]
      rfl

theorem programmed_eq_iff {locked : Nat → Bool} {address n : Nat} (some' : 0 < n) :
    programmed locked address n = n ↔ ¬ Stuck locked (address + n) := by
  unfold programmed
  split
  · rename_i stuck
    have positive := stuck.1
    exact ⟨fun all => by omega, fun not => absurd stuck not⟩
  · rename_i free'
    exact ⟨fun _ => free', fun _ => rfl⟩

/-- No block of a download ends in the first page of a region that is locked. -/
def Clear (locked : Nat → Bool) (address : Nat) (blocks : List (List UInt8)) : Prop :=
  ∀ p, p ≠ [] → p <+: blocks → ¬ Stuck locked (address + p.flatten.length)

theorem clear_cons {locked : Nat → Bool} {address : Nat} {data : List UInt8}
    {blocks : List (List UInt8)} : Clear locked address (data :: blocks) ↔
      ¬ Stuck locked (address + data.length) ∧ Clear locked (address + data.length) blocks := by
  constructor
  · intro clear
    refine ⟨?_, fun p some' inside => ?_⟩
    · simpa using clear [data] (List.cons_ne_nil _ _) ⟨blocks, rfl⟩
    · have later := clear (data :: p) (List.cons_ne_nil _ _) (List.cons_prefix_cons.mpr ⟨rfl, inside⟩)
      rwa [List.flatten_cons, List.length_append, ← Nat.add_assoc] at later
  · rintro ⟨first, clear⟩ p some' inside
    cases p with
    | nil => exact absurd rfl some'
    | cons head p =>
      obtain ⟨rfl, later⟩ := List.cons_prefix_cons.mp inside
      rw [List.flatten_cons, List.length_append, ← Nat.add_assoc]
      cases p with
      | nil => simpa using first
      | cons next p => exact clear _ (List.cons_ne_nil _ _) later

/-- The blocks in front of one that would be stopped are programmed whole. -/
theorem downloaded_append {locked : Nat → Bool} {address : Nat} {p : List (List UInt8)}
    (some' : ∀ data ∈ p, data ≠ []) (clear : Clear locked address p) (blocks : List (List UInt8)) :
    downloaded locked address (p ++ blocks) =
      p.flatten.length + downloaded locked (address + p.flatten.length) blocks := by
  induction p generalizing address with
  | nil => simp
  | cons data p ih =>
    obtain ⟨first, clear⟩ := clear_cons.mp clear
    have positive := List.length_pos_iff.mpr (some' data List.mem_cons_self)
    rw [List.cons_append, downloaded, if_pos ((programmed_eq_iff positive).mpr first),
      ih (fun d member => some' d (List.mem_cons_of_mem _ member)) clear, List.flatten_cons,
      List.length_append, Nat.add_assoc, Nat.add_assoc]

theorem downloaded_eq_iff {locked : Nat → Bool} {address : Nat} {blocks : List (List UInt8)}
    (some' : ∀ data ∈ blocks, data ≠ []) :
    downloaded locked address blocks = blocks.flatten.length ↔ Clear locked address blocks := by
  induction blocks generalizing address with
  | nil =>
    have none : Clear locked address [] :=
      fun p some' inside => absurd (List.prefix_nil.mp inside) some'
    exact iff_of_true rfl none
  | cons data blocks ih =>
    have positive := List.length_pos_iff.mpr (some' data List.mem_cons_self)
    have rest := @ih (address + data.length) fun d member =>
      some' d (List.mem_cons_of_mem _ member)
    have small := programmed_le locked address data.length
    rw [clear_cons, ← rest, ← programmed_eq_iff positive, downloaded, List.flatten_cons,
      List.length_append]
    split
    · rename_i whole
      rw [Nat.add_left_cancel_iff]
      exact (and_iff_right whole).symm
    · rename_i part
      exact ⟨fun all => by omega, fun both => absurd both.1 part⟩

/-- A download succeeds exactly when no block ends in the first page of a locked region. Otherwise
it stops at the first that does, whose bytes in that page are not programmed. -/
theorem download_iff (f : Flash) {address : Nat} (flash : iflashAddr ≤ address)
    {blocks : List (List UInt8)} (some' : ∀ data ∈ blocks, data ≠ []) :
    ((f.download address blocks).1 = 0 ↔ Clear f.locked address blocks) ∧
      ((f.download address blocks).1 = 0 →
        (f.download address blocks).2.mem = store f.mem address blocks.flatten) ∧
      ∀ p data, p ++ [data] <+: blocks → Clear f.locked address p →
        Stuck f.locked (address + (p ++ [data]).flatten.length) →
        (f.download address blocks).2.mem = store f.mem address (p.flatten ++
          data.take (data.length - tail (address + (p ++ [data]).flatten.length))) := by
  obtain ⟨latch, locked, done⟩ := f.download_eq flash blocks
  have all : downloaded f.locked address blocks = blocks.flatten.length ↔
      Clear f.locked address blocks := downloaded_eq_iff some'
  rw [done]
  refine ⟨?_, fun succeeds => ?_, fun p data inside clear stuck => ?_⟩
  · rw [← all]
    simp only [eefcFsrFlocke, ite_eq_left_iff]
    omega
  · have whole : downloaded f.locked address blocks = blocks.flatten.length := by
      by_contra part
      rw [if_neg part] at succeeds
      cases succeeds
    simp only [whole, List.take_length]
  · obtain ⟨rest, rfl⟩ := inside
    have stop : address + (p ++ [data]).flatten.length = address + p.flatten.length + data.length := by
      simp [Nat.add_assoc]
    rw [stop] at stuck ⊢
    have positive := stuck.1
    have member : ∀ d ∈ p, d ≠ [] := fun d member => some' d (by simp [member])
    have one : downloaded f.locked address (p ++ [data] ++ rest) = p.flatten.length +
        (data.length - tail (address + p.flatten.length + data.length)) := by
      rw [List.append_assoc, downloaded_append member clear, List.singleton_append, downloaded,
        programmed, if_pos stuck, if_neg]
      have nonempty := List.length_pos_iff.mpr (some' data (by simp))
      omega
    rw [one]
    simp only [List.flatten_append, List.flatten_singleton, List.append_assoc,
      List.take_length_add_append]
    rw [List.take_append_of_le_length (Nat.sub_le ..)]

/-- With every region locked, and erased. -/
def lockedFlash : Flash := ⟨fun _ => 0xff, fun _ => 0xff, fun _ => true⟩

/-- A block of four bytes at the start of the application stays in a region that is locked. -/
theorem short_block_stopped :
    (lockedFlash.download DfuBoard.appAddr [[1, 2, 3, 4]]).1 ≠ 0 := by
  have some' : ∀ data ∈ [[(1 : UInt8), 2, 3, 4]], data ≠ [] := by decide
  have flash : iflashAddr ≤ DfuBoard.appAddr := by decide
  have clear := (download_iff lockedFlash flash some').1
  intro succeeds
  exact clear.mp succeeds [[1, 2, 3, 4]] (by decide) (List.prefix_refl _) (by decide)

/-! ### A chip without locked regions -/

/-- The flash with `mem` in it and no region locked. -/
def withoutLocks (mem : Nat → UInt8) : Flash := ⟨mem, fun _ => 0xff, fun _ => false⟩

def unlockedFlashd : Flashd where
  unlock := fun mem start stop =>
    let done := (withoutLocks mem).flashdUnlock start stop
    (done.1, done.2.mem)
  write := fun mem address data =>
    let done := (withoutLocks mem).flashdWrite address data
    (done.1, done.2.mem)

theorem unlockedFlashd_works {first last : Nat} (flash : iflashAddr ≤ first) :
    unlockedFlashd.Works first last := by
  refine ⟨fun mem a z _ _ _ => ?_, fun mem a data begins _ => ?_⟩
  · simp only [unlockedFlashd, flashdUnlock_eq, withoutLocks]
  · obtain ⟨latch, done⟩ := flashdWrite_eq (withoutLocks mem) (Nat.le_trans flash begins) data
    have all : free (withoutLocks mem).locked a data.length = data.length :=
      free_eq_iff.mpr fun _ _ => rfl
    simp only [unlockedFlashd, done, all, if_true, List.take_length]
    rfl

end Flash

/-- On such a chip the blocks of a download before the end of the flash are written. -/
theorem Dfu.written_unlocked {b : DfuBoard} {start : Dfu} (idle : start.state = .dfuIdle)
    (alt : start.altsetting = 1) (env : b.environment = .flash)
    (chip : b.flashd = Flash.unlockedFlashd) (p : List DnloadBlock)
    (fits : (DnloadBlock.image p).length < b.appSize) :
    Written start (run (step b) start (p.flatMap DnloadBlock.inputs)) p := by
  have works : b.FlashWorks := by
    rw [DfuBoard.FlashWorks, chip]
    exact Flash.unlockedFlashd_works (Nat.le_add_right ..)
  exact written idle alt env works p fits

end Simtrace2
