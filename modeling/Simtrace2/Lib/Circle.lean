import Mathlib.Data.List.Nodup
import Mathlib.Logic.Function.Basic
import Simtrace2.Lib.Run

/-! Lists that go in a circle through a memory of cells, each with a pointer to the next and one to the
previous cell. What changes them is a list of writes, so that it can also be done a write at a time. -/
namespace Simtrace2.Lib

structure Links (A : Type*) where
  next : A → A
  prev : A → A

/-- What is written to a pointer of a cell. -/
inductive LinkWrite (A : Type*) where
  | next (cell target : A)
  | prev (cell target : A)
deriving DecidableEq, Repr

def LinkWrite.cell {A : Type*} : LinkWrite A → A
  | .next cell _ => cell
  | .prev cell _ => cell

/-- A new cell between two that follow each other. -/
def addBetween {A : Type*} (new prev next : A) : List (LinkWrite A) :=
  [.prev next new, .next new next, .prev new prev, .next prev new]

/-- What is between these two goes. -/
def delBetween {A : Type*} (prev next : A) : List (LinkWrite A) :=
  [.prev next prev, .next prev next]

def edges {A : Type*} : A → List A → A → List (A × A)
  | a, [], b => [(a, b)]
  | a, x :: xs, b => (a, x) :: edges x xs b

theorem edges_fst {A : Type*} (a : A) (xs : List A) (b : A) :
    (edges a xs b).map Prod.fst = a :: xs := by
  induction xs generalizing a with
  | nil => rfl
  | cons x xs ih => rw [edges, List.map_cons, ih]

theorem edges_snd {A : Type*} (a : A) (xs : List A) (b : A) :
    (edges a xs b).map Prod.snd = xs ++ [b] := by
  induction xs generalizing a with
  | nil => rfl
  | cons x xs ih => rw [edges, List.map_cons, ih, List.cons_append]

/-- Where a cell comes in, one edge becomes two. -/
theorem edges_split {A : Type*} (a : A) (pre post : List A) (b : A) :
    ∃ p n before after, edges a (pre ++ post) b = before ++ (p, n) :: after ∧
      (∀ x, edges a (pre ++ x :: post) b = before ++ (p, x) :: (x, n) :: after) ∧
      (pre = [] → p = a) ∧ (post = [] → n = b) := by
  induction pre generalizing a with
  | nil =>
    cases post with
    | nil => exact ⟨a, b, [], [], rfl, fun _ => rfl, fun _ => rfl, fun _ => rfl⟩
    | cons y ys =>
      exact ⟨a, y, [], edges y ys b, rfl, fun _ => rfl, fun _ => rfl, fun none => nomatch none⟩
  | cons c pre ih =>
    obtain ⟨p, n, before, after, minus, plus, _, last⟩ := ih c
    refine ⟨p, n, (a, c) :: before, after, ?_, fun x => ?_, fun none => (nomatch none), last⟩
    · rw [List.cons_append, edges, minus, List.cons_append]
    · rw [List.cons_append, edges, plus, List.cons_append]

theorem edges_inside {A : Type*} {head : A} {xs : List A} {e : A × A} (at' : e ∈ edges head xs head) :
    e.1 ∈ head :: xs ∧ e.2 ∈ head :: xs := by
  have fst : e.1 ∈ (edges head xs head).map Prod.fst := List.mem_map_of_mem at'
  have snd : e.2 ∈ (edges head xs head).map Prod.snd := List.mem_map_of_mem at'
  rw [edges_fst] at fst
  rw [edges_snd, List.mem_append, List.mem_singleton] at snd
  exact ⟨fst, List.mem_cons.mpr snd.symm⟩

namespace Links
variable {A : Type*}

/-- The pointers of a list of edges. -/
def Joined (l : Links A) (es : List (A × A)) : Prop :=
  ∀ e ∈ es, l.next e.1 = e.2 ∧ l.prev e.2 = e.1

/-- The cells from `head` through `xs` and back to it. -/
structure Circle (l : Links A) (head : A) (xs : List A) : Prop where
  joined : l.Joined (edges head xs head)
  nodup : (head :: xs).Nodup

variable {l : Links A} {es before after : List (A × A)} {p n x head : A} {xs pre post : List A}

/-- Each cell has one edge from it, and one to it. -/
structure Single (es : List (A × A)) : Prop where
  fst : (es.map Prod.fst).Nodup
  snd : (es.map Prod.snd).Nodup

/-- No other edge is from or to where this one is. -/
theorem Single.others (h : Single (before ++ (p, n) :: after)) :
    ∀ e ∈ before ++ after, e.1 ≠ p ∧ e.2 ≠ n := by
  intro e at'
  obtain ⟨fst, snd⟩ := h
  rw [List.map_append, List.map_cons, List.nodup_middle, ← List.map_append] at fst snd
  refine ⟨fun same => ?_, fun same => ?_⟩
  · exact (List.nodup_cons.mp fst).1 (List.mem_map.mpr ⟨e, at', same⟩)
  · exact (List.nodup_cons.mp snd).1 (List.mem_map.mpr ⟨e, at', same⟩)

theorem joined_middle (e : A × A) : l.Joined (before ++ e :: after) ↔
    (l.next e.1 = e.2 ∧ l.prev e.2 = e.1) ∧ l.Joined (before ++ after) := by
  simp only [Joined, List.mem_append, List.mem_cons]
  constructor
  · intro h
    exact ⟨h e (.inr (.inl rfl)), fun e' at' => h e' (at'.imp_right .inr)⟩
  · rintro ⟨here, there⟩ e' (at' | rfl | at')
    · exact there e' (.inl at')
    · exact here
    · exact there e' (.inr at')

namespace Circle

theorem single (h : l.Circle head xs) : Single (edges head xs head) := by
  refine ⟨?_, ?_⟩
  · rw [edges_fst]
    exact h.nodup
  · rw [edges_snd, List.nodup_append_comm]
    exact h.nodup

theorem next_head (h : l.Circle head (x :: xs)) : l.next head = x :=
  (h.joined (head, x) List.mem_cons_self).1

theorem empty_iff (h : l.Circle head xs) : l.next head = head ↔ xs = [] := by
  cases xs with
  | nil => exact iff_of_true (h.joined (head, head) List.mem_cons_self).1 rfl
  | cons x xs =>
    refine iff_of_false (fun same => ?_) (List.cons_ne_nil x xs)
    rw [h.next_head] at same
    exact (List.nodup_cons.mp h.nodup).1 (same ▸ List.mem_cons_self)

end Circle

section write
variable [DecidableEq A]

def write (l : Links A) : LinkWrite A → Links A
  | .next cell target => { l with next := Function.update l.next cell target }
  | .prev cell target => { l with prev := Function.update l.prev cell target }

@[simp] theorem write_next (cell target : A) :
    l.write (.next cell target) = { l with next := Function.update l.next cell target } := rfl

@[simp] theorem write_prev (cell target : A) :
    l.write (.prev cell target) = { l with prev := Function.update l.prev cell target } := rfl

/-- The edge does not lie on the pointer that is written. -/
def Aside (e : A × A) : LinkWrite A → Prop
  | .next cell _ => e.1 ≠ cell
  | .prev cell _ => e.2 ≠ cell

theorem Joined.kept (h : l.Joined es) {w : LinkWrite A} (aside : ∀ e ∈ es, Aside e w) :
    (l.write w).Joined es := by
  intro e at'
  have away := aside e at'
  cases w with
  | next cell target => exact ⟨(Function.update_of_ne away ..).trans (h e at').1, (h e at').2⟩
  | prev cell target => exact ⟨(h e at').1, (Function.update_of_ne away ..).trans (h e at').2⟩

theorem Joined.kept_run (h : l.Joined es) {ws : List (LinkWrite A)}
    (aside : ∀ w ∈ ws, ∀ e ∈ es, Aside e w) : (run Links.write l ws).Joined es := by
  induction ws generalizing l with
  | nil => exact h
  | cons w ws ih =>
    have first := aside w List.mem_cons_self
    exact ih (h.kept first) fun w' later => aside w' (List.mem_cons_of_mem _ later)

theorem Joined.add (h : l.Joined (before ++ (p, n) :: after))
    (single : Single (before ++ (p, n) :: after))
    (fresh : ∀ e ∈ before ++ (p, n) :: after, e.1 ≠ x ∧ e.2 ≠ x) :
    (run Links.write l (addBetween x p n)).Joined (before ++ (p, x) :: (x, n) :: after) := by
  have others := single.others
  have rest := ((joined_middle (p, n)).mp h).2
  obtain ⟨fromP, toN⟩ := fresh (p, n) (List.mem_append_right _ List.mem_cons_self)
  rw [joined_middle, joined_middle]
  refine ⟨⟨?_, ?_⟩, ⟨?_, ?_⟩, rest.kept_run ?_⟩
  · simp [run, addBetween]
  · simp [run, addBetween]
  · simp [run, addBetween, Function.update_of_ne fromP.symm]
  · simp [run, addBetween, Function.update_of_ne toN]
  · intro w one e at'
    obtain ⟨notP, notN⟩ := others e at'
    have inside : e ∈ before ++ (p, n) :: after := by
      simp only [List.mem_append, List.mem_cons] at at' ⊢
      exact at'.imp_right .inr
    obtain ⟨notX, notX'⟩ := fresh e inside
    simp only [addBetween, List.mem_cons, List.not_mem_nil, or_false] at one
    obtain rfl | rfl | rfl | rfl := one
    · exact notN
    · exact notX
    · exact notX'
    · exact notP

theorem Joined.del (h : l.Joined (before ++ (p, x) :: (x, n) :: after))
    (single : Single (before ++ (p, x) :: (x, n) :: after)) :
    (run Links.write l (delBetween p n)).Joined (before ++ (p, n) :: after) := by
  rw [joined_middle, joined_middle] at h
  have behind : Single ((before ++ [(p, x)]) ++ (x, n) :: after) := by
    rw [List.append_assoc]
    exact single
  rw [joined_middle]
  refine ⟨⟨?_, ?_⟩, h.2.2.kept_run ?_⟩
  · simp [run, delBetween]
  · simp [run, delBetween]
  · intro w one e at'
    have first := single.others e (by
      simp only [List.mem_append, List.mem_cons] at at' ⊢
      exact at'.imp_right .inr)
    have second := behind.others e (by
      simp only [List.mem_append, List.mem_cons] at at' ⊢
      exact at'.imp_left .inl)
    simp only [delBetween, List.mem_cons, List.not_mem_nil, or_false] at one
    obtain rfl | rfl := one
    · exact second.2
    · exact first.1

namespace Circle

/-- What is written to other cells does not matter. -/
theorem kept (h : l.Circle head xs) {ws : List (LinkWrite A)}
    (aside : ∀ w ∈ ws, w.cell ∉ head :: xs) : (run Links.write l ws).Circle head xs := by
  refine ⟨h.joined.kept_run fun w one e at' => ?_, h.nodup⟩
  have away := aside w one
  obtain ⟨fst, snd⟩ := edges_inside at'
  cases w with
  | next cell target => exact fun same => away (same ▸ fst)
  | prev cell target => exact fun same => away (same ▸ snd)

theorem add (h : l.Circle head (pre ++ post)) (fresh : x ∉ head :: (pre ++ post)) :
    ∃ p n, (pre = [] → p = head) ∧ (post = [] → n = head) ∧ l.next p = n ∧ l.prev n = p ∧
      (p ∈ head :: (pre ++ post) ∧ n ∈ head :: (pre ++ post)) ∧
      (run Links.write l (addBetween x p n)).Circle head (pre ++ x :: post) := by
  obtain ⟨p, n, before, after, whole, split, first, last⟩ := edges_split head pre post head
  have edge : (p, n) ∈ edges head (pre ++ post) head := by
    rw [whole]
    exact List.mem_append_right _ List.mem_cons_self
  obtain ⟨next, prev⟩ := h.joined (p, n) edge
  refine ⟨p, n, first, last, next, prev, edges_inside edge, ?_, ?_⟩
  · rw [split]
    apply Joined.add
    · rw [← whole]
      exact h.joined
    · rw [← whole]
      exact h.single
    · intro e at'
      rw [← whole] at at'
      obtain ⟨fst, snd⟩ := edges_inside at'
      exact ⟨fun same => fresh (same ▸ fst), fun same => fresh (same ▸ snd)⟩
  · have all := List.nodup_cons.mpr ⟨fresh, h.nodup⟩
    rw [← List.cons_append, ← List.nodup_middle] at all
    exact all

theorem del (h : l.Circle head (pre ++ x :: post)) :
    (l.prev x ∈ head :: (pre ++ x :: post) ∧ l.next x ∈ head :: (pre ++ x :: post)) ∧
      (run Links.write l (delBetween (l.prev x) (l.next x))).Circle head (pre ++ post) := by
  obtain ⟨p, n, before, after, whole, split, _⟩ := edges_split head pre post head
  have there := split x
  have into : (p, x) ∈ edges head (pre ++ x :: post) head := by
    rw [there]
    exact List.mem_append_right _ List.mem_cons_self
  have out : (x, n) ∈ edges head (pre ++ x :: post) head := by
    rw [there]
    exact List.mem_append_right _ (List.mem_cons_of_mem _ List.mem_cons_self)
  rw [(h.joined _ into).2, (h.joined _ out).1]
  refine ⟨⟨(edges_inside into).1, (edges_inside out).2⟩, ?_, ?_⟩
  · rw [whole]
    apply Joined.del
    · rw [← there]
      exact h.joined
    · rw [← there]
      exact h.single
  · have all := h.nodup
    rw [← List.cons_append, List.nodup_middle] at all
    exact (List.nodup_cons.mp all).2

theorem init (p : A) : (run Links.write l [.next p p, .prev p p]).Circle p [] := by
  refine ⟨?_, List.nodup_singleton p⟩
  intro e at'
  cases List.mem_singleton.mp at'
  simp [run]

end Circle

/-- Several circles that have no cell in common. -/
structure Circles {Q : Type*} (l : Links A) (head : Q → A) (q : Q → List A) : Prop where
  circle : ∀ i, l.Circle (head i) (q i)
  apart : ∀ {i j x}, x ∈ head i :: q i → x ∈ head j :: q j → i = j

/-- A cell of none of them. -/
def Loose {Q : Type*} (head : Q → A) (q : Q → List A) (x : A) : Prop := ∀ i, x ∉ head i :: q i

namespace Circles
variable {Q : Type*} {head : Q → A} {q : Q → List A} {i : Q}

/-- What is written to loose cells changes nothing. -/
theorem kept (h : l.Circles head q) {ws : List (LinkWrite A)}
    (loose : ∀ w ∈ ws, Loose head q w.cell) : (run Links.write l ws).Circles head q :=
  ⟨fun i => (h.circle i).kept fun w one => loose w one i, h.apart⟩

variable [DecidableEq Q]

/-- What is written within one of them and to loose cells changes that one only. -/
theorem change (h : l.Circles head q) {ws : List (LinkWrite A)}
    (within : ∀ w ∈ ws, w.cell ∈ head i :: q i ∨ Loose head q w.cell)
    (now : (run Links.write l ws).Circle (head i) xs) (cells : ∀ x ∈ xs, x ∈ q i ∨ Loose head q x) :
    (run Links.write l ws).Circles head (Function.update q i xs) := by
  have other : ∀ {j x}, j ≠ i → x ∈ head i :: xs → x ∉ head j :: q j := by
    intro j x ne here there
    rcases List.mem_cons.mp here with rfl | inside
    · exact ne (h.apart there List.mem_cons_self)
    · rcases cells x inside with old | loose
      · exact ne (h.apart there (List.mem_cons_of_mem _ old))
      · exact loose j there
  refine ⟨fun j => ?_, fun {j k x} inJ inK => ?_⟩
  · by_cases same : j = i
    · subst same
      rw [Function.update_self]
      exact now
    · rw [Function.update_of_ne same]
      apply (h.circle j).kept
      intro w one there
      rcases within w one with here | loose
      · exact same (h.apart there here)
      · exact loose j there
  · by_cases j' : j = i
    · by_cases k' : k = i
      · rw [j', k']
      · rw [j', Function.update_self] at inJ
        rw [Function.update_of_ne k'] at inK
        exact absurd inK (other k' inJ)
    · rw [Function.update_of_ne j'] at inJ
      by_cases k' : k = i
      · rw [k', Function.update_self] at inK
        exact absurd inJ (other j' inK)
      · rw [Function.update_of_ne k'] at inK
        exact h.apart inJ inK

theorem add (h : l.Circles head q) (whole : q i = pre ++ post) (loose : Loose head q x) :
    ∃ p n, (pre = [] → p = head i) ∧ (post = [] → n = head i) ∧ l.next p = n ∧ l.prev n = p ∧
      (p ∈ head i :: q i ∧ n ∈ head i :: q i) ∧
      (run Links.write l (addBetween x p n)).Circles head
        (Function.update q i (pre ++ x :: post)) := by
  have circle := h.circle i
  have fresh := loose i
  rw [whole] at circle fresh
  obtain ⟨p, n, first, last, next, prev, inside, added⟩ := circle.add fresh
  rw [← whole] at inside
  refine ⟨p, n, first, last, next, prev, inside, h.change ?_ added ?_⟩
  · intro w one
    simp only [addBetween, List.mem_cons, List.not_mem_nil, or_false] at one
    obtain rfl | rfl | rfl | rfl := one
    · exact .inl inside.2
    · exact .inr loose
    · exact .inr loose
    · exact .inl inside.1
  · intro y here
    rw [whole]
    rcases List.mem_append.mp here with old | here
    · exact .inl (List.mem_append_left _ old)
    · rcases List.mem_cons.mp here with rfl | old
      · exact .inr loose
      · exact .inl (List.mem_append_right _ old)

theorem add_head (h : l.Circles head q) (i : Q) (loose : Loose head q x) :
    l.next (head i) ∈ head i :: q i ∧
      (run Links.write l (addBetween x (head i) (l.next (head i)))).Circles head
        (Function.update q i (x :: q i)) := by
  have whole : q i = [] ++ q i := rfl
  obtain ⟨p, n, first, _, next, _, inside, added⟩ := h.add whole loose
  rw [← next, first rfl] at added
  rw [← next, first rfl] at inside
  exact ⟨inside.2, added⟩

theorem add_tail (h : l.Circles head q) (i : Q) (loose : Loose head q x) :
    l.prev (head i) ∈ head i :: q i ∧
      (run Links.write l (addBetween x (l.prev (head i)) (head i))).Circles head
        (Function.update q i (q i ++ [x])) := by
  have whole : q i = q i ++ [] := (List.append_nil _).symm
  obtain ⟨p, n, _, last, _, prev, inside, added⟩ := h.add whole loose
  rw [← prev, last rfl] at added inside
  exact ⟨inside.1, added⟩

omit [DecidableEq A] in
theorem removed (h : l.Circles head q) (whole : q i = pre ++ x :: post) :
    Loose head (Function.update q i (pre ++ post)) x := by
  have circle := h.circle i
  have here : x ∈ head i :: q i := by
    rw [whole]
    exact List.mem_cons_of_mem _ (List.mem_append_right _ List.mem_cons_self)
  rw [whole] at circle
  intro j there
  by_cases same : j = i
  · rw [same, Function.update_self] at there
    have all := circle.nodup
    rw [← List.cons_append, List.nodup_middle] at all
    exact (List.nodup_cons.mp all).1 there
  · rw [Function.update_of_ne same] at there
    exact same (h.apart there here)

theorem del (h : l.Circles head q) (whole : q i = pre ++ x :: post) :
    (l.prev x ∈ head i :: q i ∧ l.next x ∈ head i :: q i) ∧
      (run Links.write l (delBetween (l.prev x) (l.next x))).Circles head
        (Function.update q i (pre ++ post)) := by
  have circle := h.circle i
  rw [whole] at circle
  obtain ⟨inside, deleted⟩ := circle.del
  rw [← whole] at inside
  refine ⟨inside, h.change ?_ deleted fun y old => .inl ?_⟩
  · intro w one
    simp only [delBetween, List.mem_cons, List.not_mem_nil, or_false] at one
    obtain rfl | rfl := one
    · exact .inl inside.2
    · exact .inl inside.1
  · rw [whole]
    exact List.mem_append.mpr ((List.mem_append.mp old).imp_right (List.mem_cons_of_mem _))

end Circles

/-! ### Writes in another order -/

theorem write_comm {v w : LinkWrite A} (ne : v.cell ≠ w.cell) :
    (l.write v).write w = (l.write w).write v := by
  cases v <;> cases w <;> simp only [LinkWrite.cell] at ne <;>
    simp [Function.update_comm ne]

/-- Writes to different cells can be done in either order. -/
theorem run_comm {vs ws : List (LinkWrite A)} (apart : ∀ v ∈ vs, ∀ w ∈ ws, v.cell ≠ w.cell) :
    run Links.write (run Links.write l vs) ws = run Links.write (run Links.write l ws) vs := by
  induction vs generalizing l with
  | nil => rfl
  | cons v vs ih =>
    have first : run Links.write (l.write v) ws = (run Links.write l ws).write v := by
      have away := apart v List.mem_cons_self
      clear ih apart
      induction ws generalizing l with
      | nil => rfl
      | cons w ws ih =>
        have later := ih (l := l.write w) fun w' one => away w' (List.mem_cons_of_mem _ one)
        rw [run, run, write_comm (away w List.mem_cons_self), later]
    rw [run, ih fun v' one => apart v' (List.mem_cons_of_mem _ one), first]
    rfl

/-- What is not written to is read as before. -/
theorem read_kept {ws : List (LinkWrite A)} (aside : ∀ w ∈ ws, w.cell ≠ x) :
    (run Links.write l ws).next x = l.next x ∧ (run Links.write l ws).prev x = l.prev x := by
  induction ws generalizing l with
  | nil => exact ⟨rfl, rfl⟩
  | cons w ws ih =>
    have away := (aside w List.mem_cons_self).symm
    have first : (l.write w).next x = l.next x ∧ (l.write w).prev x = l.prev x := by
      cases w with
      | next cell target => exact ⟨Function.update_of_ne away .., rfl⟩
      | prev cell target => exact ⟨rfl, Function.update_of_ne away ..⟩
    have rest := ih (l := l.write w) fun w' later => aside w' (List.mem_cons_of_mem _ later)
    exact ⟨rest.1.trans first.1, rest.2.trans first.2⟩

end write

end Links

end Simtrace2.Lib
