import Mathlib.Data.List.Basic
import Mathlib.Data.List.Infix

/-! A stream of messages that arrives in arbitrary pieces. A reader looks at the front
of what it has kept: it takes a whole message off, or waits for more. Nothing here
fixes the format: the messages, the bytes and what a message yields are arbitrary. -/
namespace Simtrace2.Lib

variable {M A B : Type*}

/-- Take messages off the front while `front` takes any bytes. `front` says how many
bytes it took and what it made of them. -/
def drain (front : List B → Nat × List A) (buf : List B) : List A × List B :=
  if _taken : 0 < (front buf).1 ∧ (front buf).1 ≤ buf.length then
    let rest := drain front (buf.drop (front buf).1)
    ((front buf).2 ++ rest.1, rest.2)
  else ((front buf).2, buf)
termination_by buf.length
decreasing_by
  rw [List.length_drop]
  omega

/-- `front` takes exactly the messages off, and takes nothing from a message that has
only begun. -/
structure Frames (front : List B → Nat × List A) (bytes : M → List B) (out : M → List A) :
    Prop where
  pos : ∀ m, 0 < (bytes m).length
  whole : ∀ m rest, front (bytes m ++ rest) = ((bytes m).length, out m)
  empty : front [] = (0, [])
  short : ∀ m xs, xs <+: bytes m → xs.length < (bytes m).length → front xs = (0, [])

/-- `xs` is the begin of the next message, or nothing. -/
def Begun (bytes : M → List B) (later : List M) (xs : List B) : Prop :=
  xs = [] ∨ ∃ m ∈ later.head?, xs <+: bytes m ∧ xs.length < (bytes m).length

/-- Of what has been received every complete message has been read, once and in order,
and what is kept is the begin of the one after it. -/
def Deframed (bytes : M → List B) (out : M → List A) (msgs : List M) (received : List B)
    (read : List A) (kept : List B) : Prop :=
  ∃ complete later, msgs = complete ++ later ∧ received = complete.flatMap bytes ++ kept ∧
    read = complete.flatMap out ∧ Begun bytes later kept

variable {front : List B → Nat × List A} {bytes : M → List B} {out : M → List A}

theorem drain_stops {buf : List B} (h : front buf = (0, [])) : drain front buf = ([], buf) := by
  rw [drain, h]
  simp

theorem Frames.drain_whole (frames : Frames front bytes out) (m : M) (rest : List B) :
    drain front (bytes m ++ rest) = (out m ++ (drain front rest).1, (drain front rest).2) := by
  have taken : 0 < (bytes m).length ∧ (bytes m).length ≤ (bytes m ++ rest).length := by
    rw [List.length_append]
    exact ⟨frames.pos m, Nat.le_add_right _ _⟩
  rw [drain, frames.whole m rest]
  simp only [taken, and_self, dite_true, List.drop_left]

theorem Frames.drain_begun (frames : Frames front bytes out) {later : List M} {xs : List B}
    (begun : Begun bytes later xs) : drain front xs = ([], xs) := by
  apply drain_stops
  obtain rfl | ⟨m, _, isPrefix, shorter⟩ := begun
  · exact frames.empty
  · exact frames.short m xs isPrefix shorter

theorem Frames.drain_stream (frames : Frames front bytes out) (complete : List M) {later : List M}
    {xs : List B} (begun : Begun bytes later xs) :
    drain front (complete.flatMap bytes ++ xs) = (complete.flatMap out, xs) := by
  induction complete with
  | nil => exact frames.drain_begun begun
  | cons m complete ih =>
    rw [List.flatMap_cons, List.append_assoc, frames.drain_whole, ih, List.flatMap_cons]

/-- A prefix of a stream is whole messages and the begin of the next. -/
theorem prefix_splits {msgs : List M} {xs : List B} (h : xs <+: msgs.flatMap bytes) :
    ∃ complete later kept, msgs = complete ++ later ∧ xs = complete.flatMap bytes ++ kept ∧
      Begun bytes later kept := by
  induction msgs generalizing xs with
  | nil =>
    have none : xs = [] := List.prefix_nil.mp h
    exact ⟨[], [], xs, rfl, rfl, .inl none⟩
  | cons m msgs ih =>
    rw [List.flatMap_cons] at h
    by_cases shorter : xs.length < (bytes m).length
    · have first : xs <+: bytes m :=
        List.prefix_of_prefix_length_le h (List.prefix_append _ _) (Nat.le_of_lt shorter)
      exact ⟨[], m :: msgs, xs, rfl, rfl, .inr ⟨m, rfl, first, shorter⟩⟩
    · have first : bytes m <+: xs :=
        List.prefix_of_prefix_length_le (List.prefix_append _ _) h (Nat.le_of_not_lt shorter)
      obtain ⟨ys, rfl⟩ := first
      obtain ⟨complete, later, kept, rfl, rfl, begun⟩ :=
        ih ((List.prefix_append_right_inj (bytes m)).mp h)
      refine ⟨m :: complete, later, kept, rfl, ?_, begun⟩
      rw [List.flatMap_cons, List.append_assoc]

theorem deframed_nil (msgs : List M) : Deframed bytes out msgs [] [] [] :=
  ⟨[], msgs, rfl, rfl, rfl, .inl rfl⟩

/-- However a stream is cut, a piece more leaves its complete messages read and the begin
of the next one kept. -/
theorem Frames.feed (frames : Frames front bytes out) {msgs : List M} {received xs kept : List B}
    {read : List A} (before : Deframed bytes out msgs received read kept)
    (more : received ++ xs <+: msgs.flatMap bytes) :
    Deframed bytes out msgs (received ++ xs) (read ++ (drain front (kept ++ xs)).1)
      (drain front (kept ++ xs)).2 := by
  obtain ⟨complete, later, rfl, rfl, rfl, _⟩ := before
  rw [List.flatMap_append, List.append_assoc, List.prefix_append_right_inj] at more
  obtain ⟨next, last, tail, rfl, split, begun⟩ := prefix_splits more
  rw [split, frames.drain_stream next begun]
  refine ⟨complete ++ next, last, (List.append_assoc _ _ _).symm, ?_, ?_, begun⟩
  · rw [List.append_assoc, split, List.flatMap_append, List.append_assoc]
  · rw [List.flatMap_append]

/-- More messages at the end of the stream leave what has been received as it is. -/
theorem Deframed.more {msgs : List M} {received kept : List B} {read : List A}
    (h : Deframed bytes out msgs received read kept) (next : List M) :
    Deframed bytes out (msgs ++ next) received read kept := by
  obtain ⟨complete, later, rfl, split, all, begun⟩ := h
  refine ⟨complete, later ++ next, List.append_assoc _ _ _, split, all, ?_⟩
  rcases begun with none | ⟨m, first, some⟩
  · exact .inl none
  · exact .inr ⟨m, by simp only [List.head?_append, Option.mem_def.mp first, Option.some_or,
      Option.mem_def], some⟩

/-- When the whole stream has arrived, every message has been read and nothing is kept. -/
theorem Frames.read_all (frames : Frames front bytes out) {msgs : List M} {read : List A}
    {kept : List B} (h : Deframed bytes out msgs (msgs.flatMap bytes) read kept) :
    read = msgs.flatMap out ∧ kept = [] := by
  obtain ⟨complete, later, rfl, split, rfl, begun⟩ := h
  rw [List.flatMap_append, List.append_cancel_left_eq] at split
  subst split
  cases later with
  | nil => simp
  | cons m later =>
    obtain none | ⟨m', first, _, shorter⟩ := begun
    · have some := frames.pos m
      simp [(List.append_eq_nil_iff.mp none).1] at some
    · obtain rfl : m = m' := by simpa using first
      rw [List.flatMap_cons, List.length_append] at shorter
      omega

end Simtrace2.Lib
