import Simtrace2.Dfu.Driver

/-! A block is acknowledged after `USBDFU_handle_dnload` has read it back from the flash.
What the comparison finds, and what becomes of it. -/
namespace Simtrace2
open Lib

namespace Dfu

/-- The loop that compares the flash with the data, up to the first byte that differs. -/
def readBack (mem : Nat → UInt8) (addr : Nat) : List UInt8 → DfuRet → DfuRet
  | [], rc => rc
  | x :: data, rc => if mem (u32 addr) ≠ x then .stall else readBack mem (addr + 1) data rc

/-- The case `ALTIF_FLASH` from the address on, with the loop. The assignment behind it takes
the place of whatever the loop has found. -/
def dnloadFlash (b : DfuBoard) (d : Dfu) (addr : Nat) (data : List UInt8) : Dfu × DfuRet :=
  if addr < iflashAddr ∨ b.iflashEnd ≤ u32 (addr + data.length) then (d.errAddress, .stall)
  else
    let (rc, mem) := b.flashd.unlock d.mem addr (u32 (addr + data.length))
    let d := { d with mem }
    if rc ≠ 0 then (d, .stall)
    else
      let (rc, mem) := b.flashd.write d.mem addr data
      let d := { d with mem }
      if rc ≠ 0 then (d, .stall)
      else (d, Function.const DfuRet .zlp (readBack d.mem addr data .nothing))

/-- The bytes from `addr` on are those of the block. -/
def Holds (mem : Nat → UInt8) (addr : Nat) (data : List UInt8) : Prop :=
  ∀ i x, data[i]? = some x → mem (u32 (addr + i)) = x

theorem holds_cons {mem : Nat → UInt8} {addr : Nat} {x : UInt8} {data : List UInt8} :
    Holds mem addr (x :: data) ↔ mem (u32 addr) = x ∧ Holds mem (addr + 1) data := by
  constructor
  · intro h
    refine ⟨h 0 x rfl, ?_⟩
    intro i y there
    have next := h (i + 1) y there
    rwa [Nat.add_comm i, ← Nat.add_assoc] at next
  · rintro ⟨first, others⟩ i y there
    cases i with
    | zero =>
      injection there with same
      rw [Nat.add_zero, first, same]
    | succ i =>
      have next := others i y there
      rwa [Nat.add_assoc, Nat.add_comm 1] at next

/-- The loop finds out whether the block is there. -/
theorem readBack_stall_iff (mem : Nat → UInt8) (addr : Nat) (data : List UInt8) {rc : DfuRet}
    (before : rc ≠ .stall) : readBack mem addr data rc = .stall ↔ ¬Holds mem addr data := by
  induction data generalizing addr with
  | nil =>
    constructor
    · intro stalled
      exact absurd stalled before
    · intro differs
      exact absurd (fun i x there => by cases there) differs
  | cons x data ih =>
    rw [readBack, holds_cons]
    by_cases same : mem (u32 addr) = x
    · rw [if_neg (not_not.mpr same), ih (addr + 1)]
      simp [same]
    · rw [if_pos same]
      simp [same]

theorem altifFlash_ne (b : DfuBoard) : b.altifFlash ≠ altifRam := by
  unfold DfuBoard.altifFlash
  cases b.environment <;> decide

/-- With the loop or without it, the result is the same. -/
theorem handleDnload_flash (b : DfuBoard) (d : Dfu) (offset : Nat) (data : List UInt8) :
    d.usbdfuHandleDnload b b.altifFlash offset data = d.dnloadFlash b (b.flashAddr offset) data := by
  simp only [usbdfuHandleDnload, if_neg (altifFlash_ne b), if_true, dnloadFlash, Function.const]
  by_cases outside : b.flashAddr offset < iflashAddr ∨
      b.iflashEnd ≤ u32 (b.flashAddr offset + data.length)
  · rw [if_pos outside, if_pos outside]
  · rw [if_neg outside, if_neg outside]
    split
    · rfl
    · split <;> rfl

/-- The state in which `dnload_cb` calls `USBDFU_handle_dnload` with these arguments. -/
def calledWith (d : Dfu) (altif offset : Nat) : Dfu :=
  { d with altsetting := altif, totalBytes := offset }

/-- The block is acknowledged, and is in the flash if it goes there; or it is stalled, and
`dnload_cb` leaves an error and counts nothing. -/
def BlockRight (b : DfuBoard) (d : Dfu) (altif offset : Nat) (data : List UInt8) : Prop :=
  ((d.calledWith altif offset).usbdfuHandleDnload b altif offset data).2 = .zlp ∧
      (altif = b.altifFlash →
        Holds ((d.calledWith altif offset).usbdfuHandleDnload b altif offset data).1.mem
          (b.flashAddr offset) data) ∨
    ((d.calledWith altif offset).usbdfuHandleDnload b altif offset data).2 = .stall ∧
      ((d.calledWith altif offset).dnloadCb b true data).state = .dfuError ∧
      ((d.calledWith altif offset).dnloadCb b true data).totalBytes = offset ∧
      ((d.calledWith altif offset).dnloadCb b true data).ep0 = d.ep0 ++ [.stall]

/-- What `FLASHD_Write` finds after the unlocking, and what it leaves. -/
def unlocked (b : DfuBoard) (d : Dfu) (addr : Nat) (data : List UInt8) : Nat × (Nat → UInt8) :=
  b.flashd.unlock d.mem addr (u32 (addr + data.length))

def flashWritten (b : DfuBoard) (d : Dfu) (addr : Nat) (data : List UInt8) : Nat × (Nat → UInt8) :=
  b.flashd.write (d.unlocked b addr data).2 addr data

/-- Where it is called and reports success, `FLASHD_Write` has written the block. -/
def WriteTrue (b : DfuBoard) (d : Dfu) (altif offset : Nat) (data : List UInt8) : Prop :=
  let addr := b.flashAddr offset
  altif = b.altifFlash → ¬(addr < iflashAddr ∨ b.iflashEnd ≤ u32 (addr + data.length)) →
    (d.unlocked b addr data).1 = 0 → (d.flashWritten b addr data).1 = 0 →
      Holds (d.flashWritten b addr data).2 addr data

/-- The ways in which a block ends. -/
theorem handleDnload_cases (b : DfuBoard) (d : Dfu) (altif offset : Nat) (data : List UInt8) :
    d.usbdfuHandleDnload b altif offset data = (d.errAddress, .stall) ∨
    (∃ mem, d.usbdfuHandleDnload b altif offset data = ({ d with mem }, .stall)) ∨
    (altif = altifRam ∧ ∃ mem, d.usbdfuHandleDnload b altif offset data = ({ d with mem }, .zlp)) ∨
    (altif = b.altifFlash ∧
      ¬(b.flashAddr offset < iflashAddr ∨ b.iflashEnd ≤ u32 (b.flashAddr offset + data.length)) ∧
      (d.unlocked b (b.flashAddr offset) data).1 = 0 ∧
      (d.flashWritten b (b.flashAddr offset) data).1 = 0 ∧
      d.usbdfuHandleDnload b altif offset data =
        ({ d with mem := (d.flashWritten b (b.flashAddr offset) data).2 }, .zlp)) := by
  by_cases ram : altif = altifRam
  · simp only [usbdfuHandleDnload, if_pos ram]
    split
    · exact Or.inl rfl
    · exact Or.inr (Or.inr (Or.inl ⟨ram, _, rfl⟩))
  · by_cases flash : altif = b.altifFlash
    · subst flash
      rw [handleDnload_flash, dnloadFlash]
      by_cases outside : b.flashAddr offset < iflashAddr ∨
          b.iflashEnd ≤ u32 (b.flashAddr offset + data.length)
      · exact Or.inl (if_pos outside)
      · rw [if_neg outside]
        by_cases locked : (d.unlocked b (b.flashAddr offset) data).1 ≠ 0
        · exact Or.inr (Or.inl ⟨_, if_pos locked⟩)
        · by_cases failed : (d.flashWritten b (b.flashAddr offset) data).1 ≠ 0
          · exact Or.inr (Or.inl ⟨_, (if_neg locked).trans (if_pos failed)⟩)
          · refine Or.inr (Or.inr (Or.inr ⟨rfl, outside, not_not.mp locked, not_not.mp failed, ?_⟩))
            exact (if_neg locked).trans (if_neg failed)
    · exact Or.inr (Or.inl ⟨d.mem, by rw [usbdfuHandleDnload, if_neg ram, if_neg flash]⟩)

variable {b : DfuBoard} {d : Dfu} {altif offset : Nat} {data : List UInt8}

/-- A stalled block is an error, whoever stalls it. -/
theorem stalled_block (stalled : (d.usbdfuHandleDnload b d.altsetting d.totalBytes data).2 = .stall) :
    (d.dnloadCb b true data).state = .dfuError ∧
      (d.dnloadCb b true data).totalBytes = d.totalBytes ∧
      (d.dnloadCb b true data).ep0 = d.ep0 ++ [.stall] := by
  simp only [dnloadCb, Bool.not_true, Bool.false_eq_true, if_false]
  rcases handleDnload_cases b d d.altsetting d.totalBytes data with
    r | ⟨_, r⟩ | ⟨_, _, r⟩ | ⟨_, _, _, _, r⟩
  · rw [r]
    exact ⟨rfl, rfl, rfl⟩
  · rw [r]
    exact ⟨rfl, rfl, rfl⟩
  · rw [r] at stalled
    cases stalled
  · rw [r] at stalled
    cases stalled

/-- A block is right exactly if it is in the flash where it is acknowledged for the flash. -/
theorem blockRight_iff : BlockRight b d altif offset data ↔
    (((d.calledWith altif offset).usbdfuHandleDnload b altif offset data).2 = .zlp →
      altif = b.altifFlash →
        Holds ((d.calledWith altif offset).usbdfuHandleDnload b altif offset data).1.mem
          (b.flashAddr offset) data) := by
  constructor
  · rintro (⟨_, there⟩ | ⟨stalled, _⟩) acked
    · exact there
    · rw [stalled] at acked
      cases acked
  · intro h
    cases rc : ((d.calledWith altif offset).usbdfuHandleDnload b altif offset data).2 with
    | zlp => exact Or.inl ⟨rc, h rc⟩
    | stall => exact Or.inr ⟨rc, stalled_block (d := d.calledWith altif offset) rc⟩
    | nothing =>
      rcases handleDnload_cases b (d.calledWith altif offset) altif offset data with
        r | ⟨_, r⟩ | ⟨_, _, r⟩ | ⟨_, _, _, _, r⟩ <;> rw [r] at rc <;> cases rc

theorem handleDnload_reported (flash : altif = b.altifFlash)
    (inside : ¬(b.flashAddr offset < iflashAddr ∨
      b.iflashEnd ≤ u32 (b.flashAddr offset + data.length)))
    (opened : (d.unlocked b (b.flashAddr offset) data).1 = 0)
    (reported : (d.flashWritten b (b.flashAddr offset) data).1 = 0) :
    d.usbdfuHandleDnload b altif offset data =
      ({ d with mem := (d.flashWritten b (b.flashAddr offset) data).2 }, .zlp) := by
  subst flash
  rw [handleDnload_flash, dnloadFlash, if_neg inside]
  exact (if_neg (not_not.mpr opened)).trans (if_neg (not_not.mpr reported))

end Dfu

open Dfu

/-- A block is acknowledged only if it is in the flash, or else stalled as an error, exactly
when a `FLASHD_Write` that reports success has written it. Where that fails, the loop has
found it out. -/
theorem dnload_acknowledged_iff_written (b : DfuBoard) (d : Dfu) (altif offset : Nat)
    (data : List UInt8) :
    (BlockRight b d altif offset data ↔ WriteTrue b d altif offset data) ∧
      (¬BlockRight b d altif offset data →
        readBack (d.flashWritten b (b.flashAddr offset) data).2 (b.flashAddr offset) data .nothing =
          .stall) := by
  have exactly : BlockRight b d altif offset data ↔ WriteTrue b d altif offset data := by
    rw [blockRight_iff]
    constructor
    · intro h flash inside opened reported
      have done := handleDnload_reported (d := d.calledWith altif offset) flash inside opened reported
      rw [done] at h
      exact h rfl flash
    · intro h acked flash
      rcases handleDnload_cases b (d.calledWith altif offset) altif offset data with
        r | ⟨_, r⟩ | ⟨ram, _⟩ | ⟨_, inside, opened, reported, r⟩
      · rw [r] at acked
        cases acked
      · rw [r] at acked
        cases acked
      · exact absurd (flash.symm.trans ram) (altifFlash_ne b)
      · rw [r]
        exact h flash inside opened reported
  refine ⟨exactly, ?_⟩
  intro wrong
  rw [readBack_stall_iff _ _ _ (by decide)]
  intro there
  exact wrong (exactly.mpr fun _ _ _ _ => there)

/-- A flash that reports every write as done and keeps what it held. -/
def worn : DfuBoard :=
  ⟨.sam3s4, .flash, 0x2000C000, ⟨fun mem _ _ => (0, mem), fun mem _ _ => (0, mem)⟩⟩

/-- Four bytes that the flash did not take are acknowledged. -/
theorem unwritten_block_acknowledged :
    ¬BlockRight worn
      { state := .dfuDnloadSync, status := .ok, pastManifest := false, totalBytes := 0
        altsetting := 1, reading := false, mem := fun _ => 0xff, ep0 := [] }
      1 0 [0x12, 0x34, 0x56, 0x78] := by
  intro h
  rw [blockRight_iff] at h
  have first := h (by decide) (by decide) 0 0x12 rfl
  exact absurd first (by decide)

end Simtrace2
