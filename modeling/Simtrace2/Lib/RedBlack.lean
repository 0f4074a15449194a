import Mathlib.Algebra.Group.Nat.Defs
import Mathlib.Data.List.Basic
import Mathlib.Data.Nat.Log

/-! Red-black trees as a loop with parent pointers sees them: a subtree in focus and the way back
to the root. Left and right are values, so that each rule is stated once for both. -/
namespace Simtrace2.Lib

inductive Side where
  | left
  | right
deriving DecidableEq, Repr

def Side.flip : Side → Side
  | .left => .right
  | .right => .left

@[simp] theorem Side.flip_flip (s : Side) : s.flip.flip = s := by cases s <;> rfl

theorem Side.flip_ne (s : Side) : s.flip ≠ s := by cases s <;> decide

theorem Side.eq_flip_of_ne {s t : Side} (h : s ≠ t) : s = t.flip := by
  cases s <;> cases t <;> first | rfl | exact absurd rfl h

inductive Color where
  | red
  | black
deriving DecidableEq, Repr

@[simp] def Color.weight : Color → Nat
  | .red => 0
  | .black => 1

inductive RbTree (α : Type*) where
  | nil
  | node (color : Color) (left : RbTree α) (x : α) (right : RbTree α)
deriving DecidableEq, Repr

namespace RbTree
variable {α : Type*}

/-- A node by its child on side `s` and the other one. -/
def join (s : Side) (c : Color) (near : RbTree α) (x : α) (far : RbTree α) : RbTree α :=
  match s with
  | .left => node c near x far
  | .right => node c far x near

theorem join_flip (s : Side) (c : Color) (near : RbTree α) (x : α) (far : RbTree α) :
    join s.flip c near x far = join s c far x near := by cases s <;> rfl

def inorder : RbTree α → List α
  | nil => []
  | node _ l x r => l.inorder ++ x :: r.inorder

/-- A missing node counts as black. -/
def color : RbTree α → Color
  | nil => .black
  | node c _ _ _ => c

def paint (d : Color) : RbTree α → RbTree α
  | nil => nil
  | node _ l x r => node d l x r

def top : RbTree α → Option α
  | nil => none
  | node _ _ x _ => some x

@[simp] theorem inorder_nil : (nil : RbTree α).inorder = [] := rfl
@[simp] theorem color_nil : (nil : RbTree α).color = .black := rfl
@[simp] theorem top_nil : (nil : RbTree α).top = none := rfl

@[simp] theorem color_join (s : Side) (c : Color) (a : RbTree α) (x : α) (b : RbTree α) :
    (join s c a x b).color = c := by cases s <;> rfl

@[simp] theorem top_join (s : Side) (c : Color) (a : RbTree α) (x : α) (b : RbTree α) :
    (join s c a x b).top = some x := by cases s <;> rfl

@[simp] theorem paint_join (d : Color) (s : Side) (c : Color) (a : RbTree α) (x : α) (b : RbTree α) :
    (join s c a x b).paint d = join s d a x b := by cases s <;> rfl

@[simp] theorem inorder_paint (d : Color) (t : RbTree α) : (t.paint d).inorder = t.inorder := by
  cases t <;> rfl

@[simp] theorem top_paint (d : Color) (t : RbTree α) : (t.paint d).top = t.top := by
  cases t <;> rfl

theorem color_paint_black (t : RbTree α) : (t.paint .black).color = .black := by
  cases t <;> rfl

theorem paint_color (t : RbTree α) : t.paint t.color = t := by cases t <;> rfl

/-- A tree with a node at the top, from the side one looks at it. -/
theorem exists_join (s : Side) {t : RbTree α} (h : t ≠ nil) :
    ∃ c a x b, t = join s c a x b := by
  cases t with
  | nil => exact absurd rfl h
  | node c l x r =>
    cases s with
    | left => exact ⟨c, l, x, r, rfl⟩
    | right => exact ⟨c, r, x, l, rfl⟩

@[elab_as_elim]
theorem join_induction (s : Side) {motive : RbTree α → Prop} (nil : motive nil)
    (join : ∀ c a x b, motive a → motive b → motive (join s c a x b)) (t : RbTree α) :
    motive t := by
  induction t with
  | nil => exact nil
  | node c l x r ihl ihr =>
    cases s with
    | left => exact join c l x r ihl ihr
    | right => exact join c r x l ihr ihl

theorem ne_nil_of_red {t : RbTree α} (h : t.color = .red) : t ≠ nil := by
  rintro rfl
  cases h

theorem exists_red (s : Side) {t : RbTree α} (h : t.color = .red) :
    ∃ a x b, t = join s .red a x b := by
  obtain ⟨c, a, x, b, rfl⟩ := exists_join s (ne_nil_of_red h)
  rw [color_join] at h
  exact ⟨a, x, b, by rw [h]⟩

theorem mem_join {s : Side} {c : Color} {a b : RbTree α} {x y : α} :
    y ∈ (join s c a x b).inorder ↔ y = x ∨ y ∈ a.inorder ∨ y ∈ b.inorder := by
  cases s <;> simp [join, inorder] <;> tauto

theorem perm_join (s : Side) (c : Color) (a : RbTree α) (x : α) (b : RbTree α) :
    (join s c a x b).inorder.Perm (x :: (a.inorder ++ b.inorder)) := by
  cases s with
  | left => exact List.perm_middle
  | right => exact List.perm_middle.trans (List.perm_append_comm.cons x)

/-- Turning a node about its child on the other side keeps the order. -/
theorem inorder_turn (s : Side) (c d c' d' : Color) (a b e : RbTree α) (x y : α) :
    (join s d' (join s c' a x b) y e).inorder = (join s c a x (join s d b y e)).inorder := by
  cases s <;> simp [join, inorder]

theorem inorder_rise (s : Side) (c d c' d' : Color) (t u v : RbTree α) (y z : α) :
    (join s c' t y (join s d' u z v)).inorder = (join s c (join s d t y u) z v).inorder :=
  (inorder_turn s c' d' d c t u v y z).symm

theorem inorder_join_congr {s : Side} {c d : Color} {a a' b b' : RbTree α} {x : α}
    (near : a.inorder = a'.inorder) (far : b.inorder = b'.inorder) :
    (join s c a x b).inorder = (join s d a' x b').inorder := by
  cases s <;> simp [join, inorder, near, far]

/-- No red node has a red child, and each way down from the top passes `k` black nodes. -/
def Good : RbTree α → Nat → Prop
  | nil, k => k = 0
  | node c l _ r, k => ∃ n, k = n + c.weight ∧ l.Good n ∧ r.Good n ∧
      (c = .red → l.color = .black ∧ r.color = .black)

@[simp] theorem good_nil {k : Nat} : (nil : RbTree α).Good k ↔ k = 0 := Iff.rfl

theorem good_join {s : Side} {c : Color} {a b : RbTree α} {x : α} {k : Nat} :
    (join s c a x b).Good k ↔ ∃ n, k = n + c.weight ∧ a.Good n ∧ b.Good n ∧
      (c = .red → a.color = .black ∧ b.color = .black) := by
  cases s
  · exact Iff.rfl
  · simp only [join, Good]
    constructor <;> rintro ⟨n, eq, first, second, alternate⟩ <;>
      exact ⟨n, eq, second, first, fun h => (alternate h).symm⟩

theorem good_red {s : Side} {a b : RbTree α} {x : α} {k : Nat} :
    (join s .red a x b).Good k ↔
      a.Good k ∧ b.Good k ∧ a.color = .black ∧ b.color = .black := by
  rw [good_join]
  constructor
  · rintro ⟨n, eq, near, far, alternate⟩
    obtain rfl : k = n := eq
    exact ⟨near, far, alternate rfl⟩
  · rintro ⟨near, far, alternate⟩
    exact ⟨k, rfl, near, far, fun _ => alternate⟩

theorem good_black {s : Side} {a b : RbTree α} {x : α} {k : Nat} :
    (join s .black a x b).Good (k + 1) ↔ a.Good k ∧ b.Good k := by
  rw [good_join]
  constructor
  · rintro ⟨n, eq, near, far, -⟩
    obtain rfl : k = n := Nat.succ.inj eq
    exact ⟨near, far⟩
  · rintro ⟨near, far⟩
    exact ⟨k, rfl, near, far, fun h => nomatch h⟩

theorem Good.paint_black {t : RbTree α} {k : Nat} (h : t.Good k) (red : t.color = .red) :
    (t.paint .black).Good (k + 1) := by
  obtain ⟨a, x, b, rfl⟩ := exists_red .left red
  obtain ⟨near, far, -⟩ := good_red.mp h
  rw [paint_join]
  exact good_black.mpr ⟨near, far⟩

theorem Good.ne_nil {t : RbTree α} {k : Nat} (h : t.Good (k + 1)) : t ≠ nil := by
  rintro rfl
  exact absurd h (Nat.succ_ne_zero k)

/-- The rule as a whole: the top is black besides. -/
def RedBlack (t : RbTree α) : Prop := t.color = .black ∧ ∃ k, t.Good k

theorem redBlack_nil : (nil : RbTree α).RedBlack := ⟨rfl, 0, rfl⟩

/-- There are at least as many nodes as the black ones alone make. -/
theorem Good.size {t : RbTree α} {k : Nat} (h : t.Good k) : 2 ^ k ≤ t.inorder.length + 1 := by
  induction t generalizing k with
  | nil => simp [good_nil.mp h]
  | node c l x r ihl ihr =>
    obtain ⟨n, rfl, left, right, -⟩ := h
    have hl := ihl left
    have hr := ihr right
    simp only [inorder, List.length_append, List.length_cons]
    cases c with
    | red =>
      simp only [Color.weight, Nat.add_zero]
      omega
    | black =>
      simp only [Color.weight, Nat.pow_succ]
      omega

end RbTree

/-! ### The way back to the root -/

/-- One step up from a subtree: which side it hangs on, its parent and the parent's other child. -/
structure Frame (α : Type*) where
  side : Side
  color : Color
  x : α
  sibling : RbTree α

namespace Frame
variable {α : Type*}

def plug : List (Frame α) → RbTree α → RbTree α
  | [], t => t
  | f :: p, t => plug p (.join f.side f.color t f.x f.sibling)

def addresses : List (Frame α) → List α
  | [] => []
  | f :: p => f.x :: (f.sibling.inorder ++ addresses p)

/-- The parent. -/
def above (p : List (Frame α)) : Option α := p.head?.map (·.x)

/-- The parent's colour. Above the root it is red, which keeps the root black. -/
def aboveColor : List (Frame α) → Color
  | [] => .red
  | f :: _ => f.color

def before : List (Frame α) → List α
  | [] => []
  | ⟨.left, _, _, _⟩ :: p => before p
  | ⟨.right, _, x, sib⟩ :: p => before p ++ (sib.inorder ++ [x])

def behind : List (Frame α) → List α
  | [] => []
  | ⟨.left, _, x, sib⟩ :: p => x :: sib.inorder ++ behind p
  | ⟨.right, _, _, _⟩ :: p => behind p

@[simp] theorem plug_nil (t : RbTree α) : plug [] t = t := rfl
@[simp] theorem plug_cons (f : Frame α) (p : List (Frame α)) (t : RbTree α) :
    plug (f :: p) t = plug p (.join f.side f.color t f.x f.sibling) := rfl
@[simp] theorem above_nil : above ([] : List (Frame α)) = none := rfl
@[simp] theorem above_cons (f : Frame α) (p : List (Frame α)) : above (f :: p) = some f.x := rfl
@[simp] theorem aboveColor_cons (f : Frame α) (p : List (Frame α)) :
    aboveColor (f :: p) = f.color := rfl

theorem plug_append (p q : List (Frame α)) (t : RbTree α) :
    plug (p ++ q) t = plug q (plug p t) := by
  induction p generalizing t with
  | nil => rfl
  | cons f p ih => exact ih _

theorem inorder_plug (p : List (Frame α)) (t : RbTree α) :
    (plug p t).inorder = before p ++ t.inorder ++ behind p := by
  induction p generalizing t with
  | nil => simp [before, behind]
  | cons f p ih =>
    obtain ⟨side, c, x, sib⟩ := f
    rw [plug_cons, ih]
    cases side <;> simp [before, behind, RbTree.join, RbTree.inorder]

theorem inorder_plug_congr {p : List (Frame α)} {t t' : RbTree α} (h : t.inorder = t'.inorder) :
    (plug p t).inorder = (plug p t').inorder := by rw [inorder_plug, inorder_plug, h]

theorem before_of_left {p : List (Frame α)} (left : ∀ f ∈ p, f.side = .left) : before p = [] := by
  induction p with
  | nil => rfl
  | cons f p ih =>
    obtain ⟨side, c, x, sib⟩ := f
    obtain rfl : side = .left := left _ List.mem_cons_self
    exact ih fun g mem => left g (List.mem_cons_of_mem _ mem)

/-- A node taken out below `p` is taken out of the whole. -/
theorem inorder_erase [BEq α] [LawfulBEq α] {p : List (Frame α)} {t t' : RbTree α} {x : α}
    (nodup : (plug p t).inorder.Nodup) (xs ys : List α) (has : t.inorder = xs ++ x :: ys)
    (left : t'.inorder = xs ++ ys) : (plug p t').inorder = (plug p t).inorder.erase x := by
  rw [inorder_plug, has, List.append_assoc, List.append_assoc, List.cons_append,
    ← List.append_assoc] at nodup
  have out : x ∉ before p ++ xs := fun mem =>
    (List.nodup_append.mp nodup).2.2 x mem x List.mem_cons_self rfl
  have whole : (plug p t).inorder = (before p ++ xs) ++ x :: (ys ++ behind p) := by
    simp [inorder_plug, has]
  rw [whole, List.erase_append_right _ out, List.erase_cons_head, inorder_plug, left]
  simp

theorem perm_plug (p : List (Frame α)) (t : RbTree α) :
    (plug p t).inorder.Perm (t.inorder ++ addresses p) := by
  induction p generalizing t with
  | nil => simp [addresses]
  | cons f p ih =>
    refine (ih _).trans ?_
    refine ((RbTree.perm_join _ _ _ _ _).append_right _).trans ?_
    simp only [addresses, List.cons_append, List.append_assoc]
    exact List.perm_middle.symm

/-- Each node of a tree is at the end of a way down from the root. -/
theorem exists_plug {t : RbTree α} {x : α} (mem : x ∈ t.inorder) :
    ∃ p c l r, t = plug p (.node c l x r) := by
  induction t with
  | nil => cases mem
  | node c l y r ihl ihr =>
    simp only [RbTree.inorder, List.mem_append, List.mem_cons] at mem
    rcases mem with inLeft | rfl | inRight
    · obtain ⟨p, c', l', r', rfl⟩ := ihl inLeft
      exact ⟨p ++ [⟨.left, c, y, r⟩], c', l', r', by rw [plug_append]; rfl⟩
    · exact ⟨[], c, l, r, rfl⟩
    · obtain ⟨p, c', l', r', rfl⟩ := ihr inRight
      exact ⟨p ++ [⟨.right, c, y, l⟩], c', l', r', by rw [plug_append]; rfl⟩

/-- What stands around a subtree with `n` black nodes on each way down keeps the rule, as long as
the top of the subtree does where the parent is red. -/
def Good : List (Frame α) → Nat → Prop
  | [], _ => True
  | f :: p, n => f.sibling.Good n ∧
      (f.color = .red → f.sibling.color = .black ∧ aboveColor p = .black) ∧
      Good p (n + f.color.weight)

theorem good_red {s : Side} {x : α} {t : RbTree α} {p : List (Frame α)} {n : Nat} :
    Good (⟨s, .red, x, t⟩ :: p) n ↔
      t.Good n ∧ t.color = .black ∧ aboveColor p = .black ∧ Good p n := by
  simp [Good, and_assoc]

theorem good_black {s : Side} {x : α} {t : RbTree α} {p : List (Frame α)} {n : Nat} :
    Good (⟨s, .black, x, t⟩ :: p) n ↔ t.Good n ∧ Good p (n + 1) := by
  simp [Good]

theorem redBlack_plug {p : List (Frame α)} {t : RbTree α} :
    (plug p t).RedBlack ↔
      ∃ n, Good p n ∧ t.Good n ∧ (t.color = .red → aboveColor p = .black) := by
  induction p generalizing t with
  | nil =>
    constructor
    · rintro ⟨black, n, good⟩
      exact ⟨n, trivial, good, fun red => absurd (black.symm.trans red) (by decide)⟩
    · rintro ⟨n, -, good, root⟩
      refine ⟨?_, n, good⟩
      cases top : (t : RbTree α).color with
      | red => cases root top
      | black => exact top
  | cons f p ih =>
    rw [plug_cons, ih]
    constructor
    · rintro ⟨k, around, inside, top⟩
      obtain ⟨n, rfl, near, far, alternate⟩ := RbTree.good_join.mp inside
      rw [RbTree.color_join] at top
      refine ⟨n, ⟨far, fun red => ⟨(alternate red).2, top red⟩, around⟩, near, ?_⟩
      intro red
      cases parent : f.color with
      | red => cases red.symm.trans (alternate parent).1
      | black => exact parent
    · rintro ⟨n, ⟨far, parent, around⟩, near, top⟩
      refine ⟨n + f.color.weight, around, RbTree.good_join.mpr ⟨n, rfl, near, far, ?_⟩, ?_⟩
      · intro red
        refine ⟨?_, (parent red).1⟩
        cases child : t.color with
        | red => cases red.symm.trans (top child)
        | black => rfl
      · rw [RbTree.color_join]
        exact fun red => (parent red).2

/-- The black nodes on the way. -/
def blacks : List (Frame α) → Nat
  | [] => 0
  | f :: p => f.color.weight + blacks p

/-- Red nodes do not follow each other, and the root is black. -/
theorem Good.length_le {p : List (Frame α)} {n : Nat} (h : Good p n) :
    p.length ≤ 2 * blacks p ∧ (aboveColor p = .black → p.length + 1 ≤ 2 * blacks p) := by
  induction p generalizing n with
  | nil => exact ⟨Nat.le_refl 0, fun root => nomatch root⟩
  | cons f p ih =>
    obtain ⟨-, parent, around⟩ := h
    have rest := ih around
    simp only [List.length_cons, blacks, aboveColor_cons]
    cases red : f.color with
    | red =>
      have black := rest.2 (parent red).2
      simp only [Color.weight]
      exact ⟨by omega, fun h => nomatch h⟩
    | black =>
      simp only [Color.weight]
      omega

/-- The siblings on the way are as large as the black nodes make them. -/
theorem Good.blacks_le {p : List (Frame α)} {n : Nat} (h : Good p n) :
    2 ^ (n + blacks p) ≤ (addresses p).length + 2 ^ n := by
  induction p generalizing n with
  | nil => simp [blacks]
  | cons f p ih =>
    obtain ⟨sibling, -, around⟩ := h
    have rest := ih around
    have near := sibling.size
    rw [Nat.add_assoc] at rest
    simp only [addresses, List.length_cons, List.length_append, blacks]
    cases red : f.color with
    | red =>
      simp only [red, Color.weight, Nat.add_zero] at rest ⊢
      omega
    | black =>
      simp only [red, Color.weight, Nat.pow_succ] at rest ⊢
      omega

/-- The way is at most twice the logarithm of the size long. -/
theorem Good.length_le_log {p : List (Frame α)} {n : Nat} (h : Good p n) :
    p.length ≤ 2 * Nat.log 2 ((addresses p).length + 1) := by
  have enough : 2 ^ blacks p ≤ (addresses p).length + 1 := by
    have many := h.blacks_le
    rw [Nat.pow_add] at many
    have one : 0 < 2 ^ n := Nat.two_pow_pos n
    by_contra less
    have : 2 ^ n * ((addresses p).length + 2) ≤ 2 ^ n * 2 ^ blacks p :=
      Nat.mul_le_mul_left _ (by omega)
    have : (addresses p).length + 1 ≤ 2 ^ n * ((addresses p).length + 1) :=
      Nat.le_mul_of_pos_left _ one
    rw [Nat.mul_add] at *
    omega
  have logs : blacks p ≤ Nat.log 2 ((addresses p).length + 1) :=
    Nat.le_log_of_pow_le (by decide) enough
  have short := h.length_le.1
  omega

end Frame

/-- What no way down is longer than. -/
def RbTree.depth {α : Type*} (t : RbTree α) : Nat := 2 * Nat.log 2 (t.inorder.length + 1)

theorem RbTree.RedBlack.length_le {α : Type*} {p : List (Frame α)} {t : RbTree α}
    (h : (Frame.plug p t).RedBlack) : p.length ≤ (Frame.plug p t).depth := by
  obtain ⟨n, path, -, -⟩ := Frame.redBlack_plug.mp h
  have short := path.length_le_log
  have size := (Frame.perm_plug p t).length_eq
  rw [List.length_append] at size
  have logs : Nat.log 2 ((Frame.addresses p).length + 1) ≤
      Nat.log 2 ((Frame.plug p t).inorder.length + 1) := Nat.log_mono_right (by omega)
  unfold depth
  omega

end Simtrace2.Lib
