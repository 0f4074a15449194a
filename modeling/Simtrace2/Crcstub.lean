import Mathlib.Logic.Function.Iterate
import Simtrace2.Lib.Crc
import Simtrace2.Lib.Memory

/-! The checksum of the application: `crctool.c` computes it at build time and patches the
header of the image, the stub of `crcstub.c` computes it again at every start. -/
namespace Simtrace2
open Lib

/-- One turn of the loop in `do_crc32`, of which both programs have the same text. -/
def crcShift (crcReg : UInt32) : UInt32 :=
  if crcReg &&& 1 ≠ 0 then (crcReg >>> 1) ^^^ 0xEDB88320 else crcReg >>> 1

/-- The byte is an `int8_t`: its sign is extended into the register. -/
def doCrc32 (c : Int8) (crcReg : UInt32) : UInt32 :=
  crcShift^[8] (crcReg ^^^ c.toInt32.toUInt32)

def crcBytes (crcReg : UInt32) (bytes : List UInt8) : UInt32 :=
  bytes.foldl (fun reg b => doCrc32 b.toInt8 reg) crcReg

/-- `((uint32_t *)buffer)[i]` -/
def wordAt (buffer : List UInt8) (i : Nat) : UInt32 :=
  UInt32.ofNat (leValue ((buffer.drop (4 * i)).take 4))

def setWord (buffer : List UInt8) (i : Nat) (word : UInt32) : List UInt8 :=
  splice buffer (4 * i) (leBytes 4 word.toNat)

/-- `main` of the tool: the file it leaves, or nothing where it refuses. The five words
that are written back are the first twenty bytes. -/
def crctool (crcStartOffset : UInt32) (file : List UInt8) : Option (List UInt8) :=
  if file.length ≤ crcStartOffset.toNat then none
  else if wordAt file 0 ≠ 0xdeadc0de then none
  else
    let crcReg := ~~~(crcBytes 0xffffffff (file.drop crcStartOffset.toNat))
    let buffer := setWord file 0 0x2000baa0
    let buffer := setWord buffer 2 crcReg
    let buffer := setWord buffer 3 (0x00400000 + 0x4000 + crcStartOffset)
    let buffer := setWord buffer 4 (UInt32.ofNat (file.length - crcStartOffset.toNat))
    some (buffer.take 20 ++ file.drop 20)

/-- Where `dfu.ld` places the table, the first words of the application. -/
def crcstubDummyTable : UInt32 := 0x00404000

def usbDfuMagic : UInt32 := 0xDFDFDFDF

/-- How the stub ends: in the application, with its stack pointer and entry point, or in a
reset with the mark set that makes the boot loader stay. -/
inductive StubExit where
  | app (msp entry : UInt32)
  | dfuLoader (magic : UInt32)
  deriving DecidableEq, Repr

def load32 (mem : UInt32 → UInt8) (a : UInt32) : UInt32 :=
  UInt32.ofNat (leValue [mem a, mem (a + 1), mem (a + 2), mem (a + 3)])

/-- The loop over the range, with 32-bit pointers. -/
def crcLoop (mem : UInt32 → UInt8) (i stop crcReg : UInt32) : UInt32 :=
  if i < stop then crcLoop mem (i + 1) stop (doCrc32 (mem i).toInt8 crcReg) else crcReg
termination_by stop.toNat - i.toNat
decreasing_by
  rename_i below
  have less : i.toNat < stop.toNat := UInt32.lt_iff_toNat_lt.mp below
  have top := stop.toNat_lt
  rw [UInt32.toNat_add, UInt32.toNat_one]
  omega

/-- The checksum the stub computes, and how it ends. -/
def crcCheckStub (mem : UInt32 → UInt8) : UInt32 × StubExit :=
  let expectedCrcVal := load32 mem (crcstubDummyTable + 8)
  let crcCalcStartaddr := load32 mem (crcstubDummyTable + 12)
  let crcLen := load32 mem (crcstubDummyTable + 16)
  let crcReg := ~~~(crcLoop mem crcCalcStartaddr (crcCalcStartaddr + crcLen) 0xffffffff)
  (crcReg,
    if crcReg = expectedCrcVal then
      .app (load32 mem crcCalcStartaddr) (load32 mem (crcCalcStartaddr + 4))
    else .dfuLoader usbDfuMagic)

/-- The image lies at the table's address. The address behind its last byte is one too. -/
structure Stored (mem : UInt32 → UInt8) (image : List UInt8) : Prop where
  fits : crcstubDummyTable.toNat + image.length < 2 ^ 32
  bytes : ∀ i (h : i < image.length), mem (crcstubDummyTable + UInt32.ofNat i) = image[i]

/-! What one byte does to the register. -/

theorem crcShift_toBitVec (reg : UInt32) :
    (crcShift reg).toBitVec = crcStep 0xEDB88320#32 reg.toBitVec := by
  have bit : reg &&& 1 ≠ 0 ↔ reg.toBitVec.getLsbD 0 = true := by
    have low : (reg &&& 1).toBitVec = BitVec.setWidth 32 (BitVec.ofBool (reg.toBitVec.getLsbD 0)) :=
      BitVec.and_one_eq_setWidth_ofBool_getLsbD
    rw [ne_eq, ← UInt32.toBitVec_inj, low]
    cases reg.toBitVec.getLsbD 0 <;> decide
  unfold crcShift crcStep
  by_cases odd : reg &&& 1 ≠ 0
  · rw [if_pos odd, if_pos (bit.mp odd)]
    rfl
  · rw [if_neg odd, if_neg (fun e => odd (bit.mpr e))]
    rfl

theorem crcShift_injective : Function.Injective crcShift := by
  intro a b same
  rw [← UInt32.toBitVec_inj, crcShift_toBitVec, crcShift_toBitVec] at same
  exact UInt32.toBitVec_inj.mp (crcStep_injective (by decide) same)

theorem signExtended_injective : Function.Injective fun b : UInt8 => b.toInt8.toInt32.toUInt32 := by
  intro a b same
  have back : ∀ b : UInt8, b.toInt8.toInt32.toUInt32.toInt32.toInt8.toUInt8 = b := by
    intro b
    rw [Int32.toInt32_toUInt32, Int8.toInt8_toInt32, UInt8.toUInt8_toInt8]
  rw [← back a, ← back b]
  exact congrArg (fun r : UInt32 => r.toInt32.toInt8.toUInt8) same

/-- The sign makes the sum another one than CRC-32, but no less sensitive. -/
theorem doCrc32_sensitive : Sensitive fun reg (b : UInt8) => doCrc32 b.toInt8 reg := by
  constructor
  · intro b reg reg' same
    exact (UInt32.xor_left_inj _).mp (crcShift_injective.iterate 8 same)
  · intro reg b b' same
    exact signExtended_injective ((UInt32.xor_right_inj reg).mp (crcShift_injective.iterate 8 same))

/-! The words of the header. -/

theorem wordAt_congr {xs ys : List UInt8} {i : Nat}
    (same : ∀ k, 4 * i ≤ k → k < 4 * i + 4 → xs[k]? = ys[k]?) : wordAt xs i = wordAt ys i := by
  have four : (xs.drop (4 * i)).take 4 = (ys.drop (4 * i)).take 4 := by
    apply List.ext_getElem?
    intro k
    rw [List.getElem?_take, List.getElem?_take, List.getElem?_drop, List.getElem?_drop]
    by_cases less : k < 4
    · rw [if_pos less, if_pos less, same (4 * i + k) (by omega) (by omega)]
    · rw [if_neg less, if_neg less]
  rw [wordAt, wordAt, four]

section header
variable {buffer : List UInt8} {i : Nat}

theorem setWord_length (inside : 4 * i + 4 ≤ buffer.length) (w : UInt32) :
    (setWord buffer i w).length = buffer.length :=
  splice_length (by rwa [leBytes_length])

theorem wordAt_setWord (inside : 4 * i + 4 ≤ buffer.length) (w : UInt32) :
    wordAt (setWord buffer i w) i = w := by
  have before : (buffer.take (4 * i)).length = 4 * i := List.length_take_of_le (by omega)
  have there : ((setWord buffer i w).drop (4 * i)).take 4 = leBytes 4 w.toNat := by
    rw [setWord, splice, List.append_assoc, List.drop_left' before,
      List.take_left' (leBytes_length 4 _)]
  rw [wordAt, there, leValue_leBytes, ← UInt32.toNat_inj, UInt32.toNat_ofNat']
  have top := w.toNat_lt
  omega

theorem wordAt_setWord_other (inside : 4 * i + 4 ≤ buffer.length) {j : Nat} (other : j ≠ i)
    (w : UInt32) : wordAt (setWord buffer i w) j = wordAt buffer j := by
  have before : (buffer.take (4 * i)).length = 4 * i := List.length_take_of_le (by omega)
  apply wordAt_congr
  intro k low high
  rw [setWord, splice]
  by_cases left : k < 4 * i
  · rw [List.append_assoc, List.getElem?_append_left (by omega), List.getElem?_take_of_lt left]
  · have right : 4 * i + 4 ≤ k := by omega
    have most : (buffer.take (4 * i) ++ leBytes 4 w.toNat).length = 4 * i + 4 := by
      rw [List.length_append, before, leBytes_length]
    rw [List.getElem?_append_right (by omega), most, leBytes_length, List.getElem?_drop]
    congr 1
    omega

theorem wordAt_front (inside : i < 5) (long : 20 ≤ buffer.length) (rest : List UInt8) :
    wordAt (buffer.take 20 ++ rest) i = wordAt buffer i := by
  apply wordAt_congr
  intro k _ high
  rw [List.getElem?_append_left, List.getElem?_take_of_lt (by omega)]
  rw [List.length_take_of_le long]
  omega

end header

/-- What the tool leaves where it does not refuse. -/
structure Patched (off : UInt32) (image patched : List UInt8) : Prop where
  length : patched.length = image.length
  range : patched.drop off.toNat = image.drop off.toNat
  crc : wordAt patched 2 = ~~~(crcBytes 0xffffffff (image.drop off.toNat))
  startaddr : wordAt patched 3 = crcstubDummyTable + off
  len : wordAt patched 4 = UInt32.ofNat (image.length - off.toNat)

theorem crctool_patches {off : UInt32} {image : List UInt8} (header : 20 ≤ off.toNat)
    (long : off.toNat < image.length) (magic : wordAt image 0 = 0xdeadc0de) :
    ∃ patched, crctool off image = some patched ∧ Patched off image patched := by
  have whole : 20 ≤ image.length := by omega
  rw [crctool, if_neg (by omega), if_neg (fun e => e magic)]
  refine ⟨_, rfl, ?_⟩
  let b0 := setWord image 0 0x2000baa0
  let b2 := setWord b0 2 (~~~(crcBytes 0xffffffff (image.drop off.toNat)))
  let b3 := setWord b2 3 (0x00400000 + 0x4000 + off)
  let b4 := setWord b3 4 (UInt32.ofNat (image.length - off.toNat))
  have l0 : b0.length = image.length := setWord_length (by omega) _
  have l2 : b2.length = image.length := (setWord_length (by omega) _).trans l0
  have l3 : b3.length = image.length := (setWord_length (by omega) _).trans l2
  have l4 : b4.length = image.length := (setWord_length (by omega) _).trans l3
  have front : ∀ i, i < 5 → wordAt (b4.take 20 ++ image.drop 20) i = wordAt b4 i :=
    fun i less => wordAt_front less (by omega) _
  have twenty : (b4.take 20).length = 20 := List.length_take_of_le (by omega)
  show Patched off image (b4.take 20 ++ image.drop 20)
  constructor
  · rw [List.length_append, twenty, List.length_drop]
    omega
  · rw [List.drop_append, List.drop_of_length_le (by omega), List.nil_append, twenty,
      List.drop_drop, Nat.add_sub_cancel' header]
  · rw [front 2 (by omega), wordAt_setWord_other (by omega) (by decide),
      wordAt_setWord_other (by omega) (by decide), wordAt_setWord (by omega)]
  · rw [front 3 (by omega), wordAt_setWord_other (by omega) (by decide),
      wordAt_setWord (by omega)]
    rfl
  · rw [front 4 (by omega), wordAt_setWord (by omega)]

/-! What the stub makes of a stored image. -/

section stored
variable {mem : UInt32 → UInt8} {image : List UInt8} {off : UInt32}

/-- Addresses inside the image do not wrap. -/
theorem Stored.toNat (h : Stored mem image) {i : Nat} (most : i ≤ image.length) :
    (crcstubDummyTable + UInt32.ofNat i).toNat = crcstubDummyTable.toNat + i := by
  have fits := h.fits
  rw [UInt32.toNat_add, UInt32.toNat_ofNat', Nat.mod_eq_of_lt (show i < 2 ^ 32 by omega)]
  exact Nat.mod_eq_of_lt (by omega)

theorem crcstub_add (i k : Nat) : crcstubDummyTable + UInt32.ofNat i + UInt32.ofNat k =
    crcstubDummyTable + UInt32.ofNat (i + k) := by
  rw [UInt32.add_assoc, UInt32.ofNat_add]

theorem Stored.load (h : Stored mem image) {i : Nat} (inside : 4 * i + 4 ≤ image.length) :
    load32 mem (crcstubDummyTable + UInt32.ofNat (4 * i)) = wordAt image i := by
  have four : (image.drop (4 * i)).take 4 =
      [image[4 * i], image[4 * i + 1], image[4 * i + 2], image[4 * i + 3]] := by
    rw [List.drop_eq_getElem_cons (by omega), List.drop_eq_getElem_cons (by omega),
      List.drop_eq_getElem_cons (by omega), List.drop_eq_getElem_cons (by omega)]
    rfl
  rw [wordAt, four, ← h.bytes, ← h.bytes, ← h.bytes, ← h.bytes, ← crcstub_add, ← crcstub_add,
    ← crcstub_add]
  rfl

/-- The loop folds the bytes from its start to the end of the image, each once. -/
theorem crcLoop_stored (h : Stored mem image) {i : Nat} (most : i ≤ image.length) (reg : UInt32) :
    crcLoop mem (crcstubDummyTable + UInt32.ofNat i)
      (crcstubDummyTable + UInt32.ofNat image.length) reg = crcBytes reg (image.drop i) := by
  induction left : image.length - i generalizing i reg with
  | zero =>
    have last : i = image.length := by omega
    subst last
    rw [crcLoop, if_neg (UInt32.lt_irrefl _), List.drop_length]
    rfl
  | succ n ih =>
    have inside : i < image.length := by omega
    have below : crcstubDummyTable + UInt32.ofNat i <
        crcstubDummyTable + UInt32.ofNat image.length := by
      rw [UInt32.lt_iff_toNat_lt, h.toNat most, h.toNat (Nat.le_refl _)]
      omega
    have next : crcstubDummyTable + UInt32.ofNat i + 1 = crcstubDummyTable + UInt32.ofNat (i + 1) :=
      crcstub_add i 1
    rw [crcLoop, if_pos below, next, ih (by omega) _ (by omega), h.bytes i inside,
      List.drop_eq_getElem_cons inside]
    rfl

/-- The header of a stored image, damaged or not, is as the tool wrote it. -/
structure Headed (off : UInt32) (crc : UInt32) (image : List UInt8) : Prop where
  header : 20 ≤ off.toNat
  long : off.toNat < image.length
  crc : wordAt image 2 = crc
  startaddr : wordAt image 3 = crcstubDummyTable + off
  len : wordAt image 4 = UInt32.ofNat (image.length - off.toNat)

theorem crcCheckStub_headed (h : Stored mem image) {crc : UInt32} (headed : Headed off crc image) :
    (crcCheckStub mem).1 = ~~~(crcBytes 0xffffffff (image.drop off.toNat)) ∧
      (crcCheckStub mem).2 =
        if (crcCheckStub mem).1 = crc then
          .app (load32 mem (crcstubDummyTable + off)) (load32 mem (crcstubDummyTable + off + 4))
        else .dfuLoader usbDfuMagic := by
  have long := headed.long
  have header := headed.header
  have w2 : load32 mem (crcstubDummyTable + 8) = crc := (h.load (i := 2) (by omega)).trans headed.crc
  have w3 : load32 mem (crcstubDummyTable + 12) = crcstubDummyTable + off :=
    (h.load (i := 3) (by omega)).trans headed.startaddr
  have w4 : load32 mem (crcstubDummyTable + 16) = UInt32.ofNat (image.length - off.toNat) :=
    (h.load (i := 4) (by omega)).trans headed.len
  have start : crcstubDummyTable + off = crcstubDummyTable + UInt32.ofNat off.toNat := by
    rw [UInt32.ofNat_toNat]
  have stop : crcstubDummyTable + off + UInt32.ofNat (image.length - off.toNat) =
      crcstubDummyTable + UInt32.ofNat image.length := by
    rw [start, crcstub_add, Nat.add_sub_cancel' (Nat.le_of_lt long)]
  have sum : (crcCheckStub mem).1 = ~~~(crcBytes 0xffffffff (image.drop off.toNat)) := by
    simp only [crcCheckStub]
    rw [w3, w4, stop, start, crcLoop_stored h (Nat.le_of_lt long)]
  refine ⟨sum, ?_⟩
  rw [sum]
  simp only [crcCheckStub]
  rw [w2, w3, w4, stop, start, crcLoop_stored h (Nat.le_of_lt long)]

theorem Patched.headed {patched : List UInt8} (h : Patched off image patched)
    (header : 20 ≤ off.toNat) (long : off.toNat < image.length) :
    Headed off (~~~(crcBytes 0xffffffff (image.drop off.toNat))) patched where
  header := header
  long := by rw [h.length]; exact long
  crc := h.crc
  startaddr := h.startaddr
  len := by rw [h.length]; exact h.len

/-- Damage inside the range leaves the header alone. -/
theorem Headed.set {crc : UInt32} (h : Headed off crc image) {i : Nat} (inRange : off.toNat ≤ i)
    (b : UInt8) : Headed off crc (image.set i b) := by
  have header := h.header
  have words : ∀ j < 5, wordAt (image.set i b) j = wordAt image j := by
    intro j less
    apply wordAt_congr
    intro k _ high
    rw [List.getElem?_set_ne (by omega)]
  constructor
  · exact header
  · rw [List.length_set]
    exact h.long
  · rw [words 2 (by omega), h.crc]
  · rw [words 3 (by omega), h.startaddr]
  · rw [words 4 (by omega), h.len, List.length_set]

end stored

theorem crcBytes_damaged {bytes : List UInt8} {i : Nat} (inside : i < bytes.length) {b : UInt8}
    (other : bytes[i]? ≠ some b) (reg : UInt32) :
    ~~~(crcBytes reg (bytes.set i b)) ≠ ~~~(crcBytes reg bytes) := by
  intro same
  have wrong : bytes[i] ≠ b := by
    intro e
    exact other (e ▸ List.getElem?_eq_getElem inside)
  exact doCrc32_sensitive.set reg inside wrong (UInt32.not_inj.mp same)

/-- The stub starts what the tool has patched, at the entry point that stands in the range,
and what has one wrong byte in the range it does not start. -/
theorem crctool_and_stub_agree (off : UInt32) (image : List UInt8) (header : 20 ≤ off.toNat)
    (long : off.toNat < image.length) (magic : wordAt image 0 = 0xdeadc0de) :
    ∃ patched, crctool off image = some patched ∧
      patched.length = image.length ∧ patched.drop off.toNat = image.drop off.toNat ∧
      (∀ mem, Stored mem patched →
        (crcCheckStub mem).1 = wordAt patched 2 ∧
        (crcCheckStub mem).1 = ~~~(crcBytes 0xffffffff (patched.drop off.toNat)) ∧
        (crcCheckStub mem).2 = .app (load32 mem (crcstubDummyTable + off))
          (load32 mem (crcstubDummyTable + off + 4))) ∧
      ∀ (mem : UInt32 → UInt8) (i : Nat) (b : UInt8), off.toNat ≤ i → i < image.length →
        patched[i]? ≠ some b → Stored mem (patched.set i b) →
          (crcCheckStub mem).1 ≠ wordAt patched 2 ∧
          (crcCheckStub mem).2 = .dfuLoader usbDfuMagic := by
  obtain ⟨patched, done, h⟩ := crctool_patches header long magic
  have headed := h.headed header long
  refine ⟨patched, done, h.length, h.range, ?_, ?_⟩
  · intro mem stored
    obtain ⟨sum, ends⟩ := crcCheckStub_headed stored headed
    rw [h.range] at sum
    rw [if_pos sum] at ends
    exact ⟨by rw [sum, h.crc], by rw [sum, h.range], ends⟩
  · intro mem i b inRange inside other stored
    obtain ⟨sum, ends⟩ := crcCheckStub_headed stored (headed.set inRange b)
    rw [List.drop_set, if_neg (Nat.not_lt.mpr inRange), h.range] at sum
    have wrong : (crcCheckStub mem).1 ≠ wordAt patched 2 := by
      rw [sum, h.crc]
      apply crcBytes_damaged
      · rw [List.length_drop]
        omega
      · rwa [← h.range, List.getElem?_drop, Nat.add_sub_cancel' inRange]
    rw [h.crc] at wrong
    rw [if_neg wrong] at ends
    exact ⟨by rw [h.crc]; exact wrong, ends⟩

/-- Flash that holds the image where the table is, and is erased elsewhere. -/
def placed (image : List UInt8) (a : UInt32) : UInt8 :=
  (image[(a - crcstubDummyTable).toNat]?).getD 0xff

theorem placed_stored {image : List UInt8}
    (fits : crcstubDummyTable.toNat + image.length < 2 ^ 32) : Stored (placed image) image where
  fits := fits
  bytes := by
    intro i h
    have index : (crcstubDummyTable + UInt32.ofNat i - crcstubDummyTable).toNat = i := by
      rw [UInt32.add_comm, UInt32.add_sub_cancel, UInt32.toNat_ofNat',
        Nat.mod_eq_of_lt (show i < 2 ^ 32 by omega)]
    rw [placed, index, List.getElem?_eq_getElem h]
    rfl

/-- Sixteen words, of which the last eleven are summed: they are started, and with one bit
wrong in the last byte they are not. -/
theorem crctool_and_stub_agree_sixteen :
    ∃ patched, crctool 20 (leBytes 4 0xdeadc0de ++ List.replicate 60 0x80) = some patched ∧
      (crcCheckStub (placed patched)).2 =
        .app (load32 (placed patched) (crcstubDummyTable + 20))
          (load32 (placed patched) (crcstubDummyTable + 20 + 4)) ∧
      (crcCheckStub (placed (patched.set 63 0x81))).2 = .dfuLoader usbDfuMagic := by
  obtain ⟨patched, done, length, range, starts, refuses⟩ := crctool_and_stub_agree 20
    (leBytes 4 0xdeadc0de ++ List.replicate 60 0x80) (by decide) (by decide) (by decide +kernel)
  have sixty4 : patched.length = 64 := length
  have last : patched[63]? = some 0x80 := by
    have same := congrArg (fun bytes : List UInt8 => bytes[43]?) range
    simpa using same
  refine ⟨patched, done, ?_, ?_⟩
  · exact (starts (placed patched) (placed_stored (by rw [sixty4]; decide))).2.2
  · refine (refuses _ 63 0x81 (by decide) (by decide) ?_ (placed_stored ?_)).2
    · rw [last]
      decide
    · rw [List.length_set, sixty4]
      decide

end Simtrace2
