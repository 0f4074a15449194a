import Simtrace2.Lib.Bytes

/-! The message buffer of libosmocore as the firmware uses it. Pointers are
offsets from `head`; the memory is read as far as a pointer goes, past the end
of the message and of the buffer too. -/
namespace Simtrace2
open Lib

def usbAllocSize : Nat := 280

/-- A `struct msgb`. `tag` is the identity of the buffer: no function reads it,
it only lets an environment follow the buffer. `len` is a 16-bit counter. -/
structure Msgb where
  tag : Nat
  mem : Nat → UInt8
  data : Nat
  tail : Nat
  len : Nat
  l1h : Nat
  l2h : Nat

namespace Msgb

/-- A buffer filled by a USB read of `bytes`, as `usb_refill_from_host` and
`usb_read_cb` leave it once `dispatch_usb_command` has set `l2h`. -/
def received (tag : Nat) (bytes : List UInt8) (behind : Nat → UInt8) : Msgb :=
  { tag, mem := memory bytes behind, data := 0, tail := bytes.length
    len := bytes.length % 65536, l1h := 0, l2h := 8 }

def msgbL2len (m : Msgb) : Nat := m.tail - m.l2h

def msgbPull (m : Msgb) (n : Nat) : Msgb :=
  { m with len := (m.len + 65536 - n % 65536) % 65536, data := m.data + n }

def msgbPullU8 (m : Msgb) : UInt8 × Msgb := (m.mem m.data, m.msgbPull 1)

/-- What the buffer yields when it is read one byte a pull until `len` is zero. A
buffer whose `len` is zero to begin with yields bytes until the counter has wrapped. -/
def pulled (m : Msgb) : List UInt8 := readAt m.mem m.data (if m.len = 0 then 65536 else m.len)

theorem pulled_cons {m : Msgb} (small : m.len < 65536) :
    m.pulled = m.msgbPullU8.1 ::
      if m.msgbPullU8.2.len = 0 then [] else m.msgbPullU8.2.pulled := by
  obtain ⟨n, count⟩ : ∃ n, (if m.len = 0 then 65536 else m.len) = n + 1 := by
    split
    · exact ⟨65535, rfl⟩
    · exact ⟨m.len - 1, by omega⟩
  have next : m.msgbPullU8.2.len = n := by
    simp only [msgbPullU8, msgbPull]
    split at count <;> omega
  have rest : (if n = 0 then [] else m.msgbPullU8.2.pulled) = readAt m.mem (m.data + 1) n := by
    split
    · rename_i zero
      rw [zero, readAt_zero]
    · rename_i some
      rw [pulled, next, if_neg some]
      rfl
  rw [pulled, count, readAt_succ, next, rest]
  rfl

theorem pulled_ne_nil {m : Msgb} (small : m.len < 65536) : m.pulled ≠ [] := by
  rw [pulled_cons small]
  exact List.cons_ne_nil _ _

theorem len_pull (m : Msgb) (n : Nat) : (m.msgbPull n).len < 65536 := Nat.mod_lt _ (by decide)

end Msgb
end Simtrace2
