import Mathlib.Data.List.Nodup
import Mathlib.Logic.Function.Basic
import Simtrace2.Lib.RedBlack

/-! Red-black trees in a memory of cells that point to their children and to their parent. `P` are
the addresses; a missing pointer is `none`. -/
namespace Simtrace2.Lib

structure Cell (P : Type*) where
  parent : Option P
  color : Color
  right : Option P
  left : Option P
deriving DecidableEq, Repr

namespace Cell
variable {P : Type*}

def child (c : Cell P) : Side → Option P
  | .left => c.left
  | .right => c.right

def setParent (c : Cell P) (q : Option P) : Cell P := { c with parent := q }

def setColor (c : Cell P) (d : Color) : Cell P := { c with color := d }

def setChild (c : Cell P) (s : Side) (q : Option P) : Cell P :=
  match s with
  | .left => { c with left := q }
  | .right => { c with right := q }

/-- The cell with the child `near` on side `s` and `far` on the other. -/
def of (parent : Option P) (color : Color) (s : Side) (near far : Option P) : Cell P :=
  match s with
  | .left => ⟨parent, color, far, near⟩
  | .right => ⟨parent, color, near, far⟩

variable {parent near far q : Option P} {color : Color} {s : Side}

@[simp] theorem of_parent : (of parent color s near far).parent = parent := by cases s <;> rfl
@[simp] theorem of_color : (of parent color s near far).color = color := by cases s <;> rfl
@[simp] theorem of_child : (of parent color s near far).child s = near := by cases s <;> rfl
@[simp] theorem of_child_flip : (of parent color s near far).child s.flip = far := by
  cases s <;> rfl
@[simp] theorem of_setChild :
    (of parent color s near far).setChild s q = of parent color s q far := by cases s <;> rfl
@[simp] theorem of_setChild_flip :
    (of parent color s near far).setChild s.flip q = of parent color s near q := by
  cases s <;> rfl
@[simp] theorem of_setParent :
    (of parent color s near far).setParent q = of q color s near far := by cases s <;> rfl
@[simp] theorem of_setColor {d : Color} :
    (of parent color s near far).setColor d = of parent d s near far := by cases s <;> rfl

theorem of_flip : of parent color s.flip near far = of parent color s far near := by
  cases s <;> rfl

end Cell

/-- The cells and the pointer to the root. -/
structure Heap (P : Type*) where
  mem : P → Cell P
  root : Option P

namespace Heap
variable {P : Type*} [DecidableEq P]

def modify (h : Heap P) (x : P) (f : Cell P → Cell P) : Heap P :=
  { h with mem := Function.update h.mem x (f (h.mem x)) }

@[simp] theorem modify_root (h : Heap P) (x : P) (f : Cell P → Cell P) :
    (h.modify x f).root = h.root := rfl

@[simp] theorem modify_mem (h : Heap P) (x : P) (f : Cell P → Cell P) :
    (h.modify x f).mem x = f (h.mem x) := by simp [modify]

@[simp] theorem modify_mem_ne (h : Heap P) {x q : P} (f : Cell P → Cell P) (ne : q ≠ x) :
    (h.modify x f).mem q = h.mem q := by simp [modify, ne]

theorem modify_mem_congr {h h' : Heap P} (x : P) (f : Cell P → Cell P) {q : P}
    (same : h'.mem q = h.mem q) : (h'.modify x f).mem q = (h.modify x f).mem q := by
  by_cases eq : q = x
  · rw [← eq, modify_mem, modify_mem, same]
  · rw [modify_mem_ne _ _ eq, modify_mem_ne _ _ eq, same]

def setParent (h : Heap P) (x : P) (q : Option P) : Heap P :=
  h.modify x fun c => c.setParent q

def setColor (h : Heap P) (x : P) (d : Color) : Heap P :=
  h.modify x fun c => c.setColor d

def setChild (h : Heap P) (x : P) (s : Side) (q : Option P) : Heap P :=
  h.modify x fun c => c.setChild s q

/-- A child, if there is one, gets another parent. -/
def adopt (h : Heap P) (child parent : Option P) : Heap P :=
  match child with
  | some x => h.setParent x parent
  | none => h

@[simp] theorem adopt_root (h : Heap P) (child parent : Option P) :
    (h.adopt child parent).root = h.root := by cases child <;> rfl

@[simp] theorem adopt_mem_ne (h : Heap P) {child : Option P} (parent : Option P) {q : P}
    (ne : child ≠ some q) : (h.adopt child parent).mem q = h.mem q := by
  cases child with
  | none => rfl
  | some x =>
    have ne : q ≠ x := fun eq => ne (by rw [eq])
    exact modify_mem_ne h (·.setParent parent) ne

theorem adopt_mem_congr {h h' : Heap P} (child parent : Option P) {q : P}
    (same : h'.mem q = h.mem q) : (h'.adopt child parent).mem q = (h.adopt child parent).mem q := by
  cases child with
  | none => exact same
  | some x => exact modify_mem_congr x (·.setParent parent) same

theorem adopt_mem (h : Heap P) (x : P) (parent : Option P) :
    (h.adopt (some x) parent).mem x = (h.mem x).setParent parent :=
  modify_mem h x (·.setParent parent)

/-- The pointer to the subtree below `p` becomes `q`. -/
def hang (h : Heap P) (p : List (Frame P)) (q : Option P) : Heap P :=
  match p with
  | [] => { h with root := q }
  | f :: _ => h.setChild f.x f.side q

@[simp] theorem hang_mem_ne (h : Heap P) {p : List (Frame P)} (t : Option P) {q : P}
    (ne : Frame.above p ≠ some q) : (h.hang p t).mem q = h.mem q := by
  cases p with
  | nil => rfl
  | cons f p =>
    have ne : q ≠ f.x := fun eq => ne (by rw [eq]; rfl)
    exact modify_mem_ne h (·.setChild f.side t) ne

@[simp] theorem setColor_child (h : Heap P) (x q : P) (d : Color) (s : Side) :
    ((h.setColor x d).mem q).child s = (h.mem q).child s := by
  by_cases same : q = x
  · rw [same, setColor, modify_mem]
    cases s <;> rfl
  · rw [setColor, modify_mem_ne h _ same]

theorem hang_mem_congr {h h' : Heap P} (p : List (Frame P)) (t : Option P) {q : P}
    (same : h'.mem q = h.mem q) : (h'.hang p t).mem q = (h.hang p t).mem q := by
  by_cases hung : Frame.above p = some q
  · cases p with
    | nil => exact same
    | cons f p =>
      obtain rfl : f.x = q := Option.some.inj hung
      simp [hang, setChild, same]
  · rw [hang_mem_ne _ _ hung, hang_mem_ne _ _ hung, same]

end Heap

/-! ### What it means that a tree is in the memory -/

section
variable {P : Type*}

/-- The cells of a subtree whose parent is `parent`. -/
def Shape (m : P → Cell P) (parent : Option P) : RbTree P → Prop
  | .nil => True
  | .node c l x r =>
    m x = ⟨parent, c, r.top, l.top⟩ ∧ Shape m (some x) l ∧ Shape m (some x) r

/-- The cells around a subtree whose top is `hole`. -/
def Around (m : P → Cell P) (hole : Option P) : List (Frame P) → Prop
  | [] => True
  | f :: p =>
    m f.x = Cell.of (Frame.above p) f.color f.side hole f.sibling.top ∧
      Shape m (some f.x) f.sibling ∧ Around m (some f.x) p

variable {m m' : P → Cell P} {parent parent' hole hole' : Option P}

theorem shape_join {s : Side} {c : Color} {a b : RbTree P} {x : P} :
    Shape m parent (.join s c a x b) ↔
      m x = Cell.of parent c s a.top b.top ∧ Shape m (some x) a ∧ Shape m (some x) b := by
  cases s
  · exact Iff.rfl
  · exact and_congr_right fun _ => and_comm

theorem nodup_join {s : Side} {c : Color} {a b : RbTree P} {x : P} :
    (RbTree.join s c a x b).inorder.Nodup ↔ (x ∉ a.inorder ∧ x ∉ b.inorder) ∧
      a.inorder.Nodup ∧ b.inorder.Nodup ∧ ∀ q ∈ a.inorder, q ∉ b.inorder := by
  rw [(RbTree.perm_join s c a x b).nodup_iff, List.nodup_cons, List.mem_append, not_or,
    List.nodup_append']
  exact Iff.rfl

theorem shape_plug {p : List (Frame P)} {t : RbTree P} :
    Shape m none (Frame.plug p t) ↔ Shape m (Frame.above p) t ∧ Around m t.top p := by
  induction p generalizing t with
  | nil => simp [Around]
  | cons f p ih =>
    rw [Frame.plug_cons, ih, shape_join, RbTree.top_join]
    simp only [Around, Frame.above_cons]
    tauto

theorem Shape.congr {t : RbTree P} (h : Shape m parent t) (same : ∀ q ∈ t.inorder, m' q = m q) :
    Shape m' parent t := by
  induction t generalizing parent with
  | nil => trivial
  | node c l x r ihl ihr =>
    obtain ⟨top, left, right⟩ := h
    refine ⟨(same x (by simp [RbTree.inorder])).trans top, ihl left ?_, ihr right ?_⟩
    · intro q mem
      exact same q (by simp [RbTree.inorder, mem])
    · intro q mem
      exact same q (by simp [RbTree.inorder, mem])

/-- Only the cell at the top knows the parent. -/
theorem Shape.reparent {t : RbTree P} (h : Shape m parent t) (nodup : t.inorder.Nodup)
    (top : ∀ x, t.top = some x → m' x = (m x).setParent parent')
    (same : ∀ q ∈ t.inorder, t.top ≠ some q → m' q = m q) : Shape m' parent' t := by
  cases t with
  | nil => trivial
  | node c l x r =>
    obtain ⟨cell, left, right⟩ := h
    rw [RbTree.inorder, List.nodup_middle, List.nodup_cons, List.mem_append] at nodup
    refine ⟨?_, left.congr fun q mem => ?_, right.congr fun q mem => ?_⟩
    · rw [top x rfl, cell]
      rfl
    · refine same q (by simp [RbTree.inorder, mem]) fun eq => ?_
      obtain rfl : x = q := Option.some.inj eq
      exact nodup.1 (Or.inl mem)
    · refine same q (by simp [RbTree.inorder, mem]) fun eq => ?_
      obtain rfl : x = q := Option.some.inj eq
      exact nodup.1 (Or.inr mem)

theorem Around.congr {p : List (Frame P)} (h : Around m hole p)
    (same : ∀ q ∈ Frame.addresses p, m' q = m q) : Around m' hole p := by
  induction p generalizing hole with
  | nil => trivial
  | cons f p ih =>
    obtain ⟨cell, sibling, rest⟩ := h
    refine ⟨(same f.x (by simp [Frame.addresses])).trans cell, sibling.congr fun q mem => ?_,
      ih rest fun q mem => ?_⟩
    · exact same q (by simp [Frame.addresses, mem])
    · exact same q (by simp [Frame.addresses, mem])

theorem top_mem {t : RbTree P} {x : P} (h : t.top = some x) : x ∈ t.inorder := by
  cases t with
  | nil => cases h
  | node c l y r =>
    obtain rfl : y = x := Option.some.inj h
    simp [RbTree.inorder]

theorem above_mem {p : List (Frame P)} {x : P} (h : Frame.above p = some x) :
    x ∈ Frame.addresses p := by
  cases p with
  | nil => cases h
  | cons f p =>
    obtain rfl : f.x = x := Option.some.inj h
    simp [Frame.addresses]

/-- The root is the same whatever hangs below. -/
theorem top_plug (f : Frame P) (p : List (Frame P)) (t t' : RbTree P) :
    (Frame.plug (f :: p) t).top = (Frame.plug (f :: p) t').top := by
  induction p generalizing f t t' with
  | nil => rw [Frame.plug_cons, Frame.plug_cons, Frame.plug_nil, Frame.plug_nil, RbTree.top_join, RbTree.top_join]
  | cons g p ih => exact ih g _ _

/-- With something around it a subtree is not the whole tree. -/
theorem top_plug_ne {f : Frame P} {p : List (Frame P)} {t : RbTree P}
    (apart : ∀ q ∈ t.inorder, q ∉ Frame.addresses (f :: p)) :
    (Frame.plug (f :: p) t).top ≠ t.top := by
  obtain ⟨r, mem, root⟩ : ∃ r ∈ Frame.addresses (f :: p), (Frame.plug (f :: p) t).top = some r := by
    clear apart
    induction p generalizing f t with
    | nil => exact ⟨f.x, by simp [Frame.addresses], RbTree.top_join ..⟩
    | cons g p ih =>
      obtain ⟨r, mem, root⟩ := ih (f := g) (t := .join f.side f.color t f.x f.sibling)
      exact ⟨r, by simp only [Frame.addresses] at mem ⊢; simp [mem], root⟩
  rw [root]
  exact fun eq => apart r (top_mem eq.symm) mem

/-- The memory holds the tree, and outside of the tree it is `base`. -/
structure Linked (base : P → Cell P) (h : Heap P) (t : RbTree P) : Prop where
  shape : Shape h.mem none t
  root : h.root = t.top
  nodup : t.inorder.Nodup
  outside : ∀ q, q ∉ t.inorder → h.mem q = base q

namespace Linked
variable {base : P → Cell P} {h h' : Heap P} {p : List (Frame P)} {t t' : RbTree P}

theorem inside (L : Linked base h (Frame.plug p t)) : Shape h.mem (Frame.above p) t :=
  (shape_plug.mp L.shape).1

theorem around (L : Linked base h (Frame.plug p t)) : Around h.mem t.top p :=
  (shape_plug.mp L.shape).2

theorem apart (L : Linked base h (Frame.plug p t)) : (t.inorder ++ Frame.addresses p).Nodup :=
  (Frame.perm_plug p t).nodup_iff.mp L.nodup

theorem cell {s : Side} {c : Color} {a b : RbTree P} {x : P}
    (L : Linked base h (Frame.plug p (.join s c a x b))) :
    h.mem x = Cell.of (Frame.above p) c s a.top b.top := (shape_join.mp L.inside).1

theorem parentCell {f : Frame P} (L : Linked base h (Frame.plug (f :: p) t)) :
    h.mem f.x = Cell.of (Frame.above p) f.color f.side t.top f.sibling.top := L.around.1

/-- The cell of the top, if there is one. -/
theorem topCell (L : Linked base h (Frame.plug p t)) {x : P} (top : t.top = some x) :
    (h.mem x).parent = Frame.above p ∧ (h.mem x).color = t.color := by
  cases t with
  | nil => cases top
  | node c l y r =>
    obtain rfl : y = x := Option.some.inj top
    rw [L.inside.1]
    exact ⟨rfl, rfl⟩

theorem above_notMem (L : Linked base h (Frame.plug p t)) {q : P} (mem : q ∈ t.inorder) :
    Frame.above p ≠ some q := fun eq =>
  (List.nodup_append.mp L.apart).2.2 q mem q (above_mem eq) rfl

/-- With one side's child in place the other pointer of the parent is not to it. -/
theorem sibling_ne {f : Frame P} (L : Linked base h (Frame.plug (f :: p) t)) {q : P}
    (mem : q ∈ t.inorder) : f.sibling.top ≠ some q := fun eq =>
  (List.nodup_append.mp L.apart).2.2 q mem q (by simp [Frame.addresses, top_mem eq]) rfl

/-- The parent's pointers tell the sides apart. -/
theorem child_iff {f : Frame P} (L : Linked base h (Frame.plug (f :: p) t))
    (ne : f.sibling.top ≠ t.top) (s : Side) : (h.mem f.x).child s = t.top ↔ f.side = s := by
  rw [L.parentCell]
  by_cases side : f.side = s
  · rw [← side, Cell.of_child]
    exact iff_of_true rfl rfl
  · rw [Side.eq_flip_of_ne (Ne.symm side), Cell.of_child_flip]
    exact iff_of_false ne (Side.flip_ne _).symm

/-- The same tree from the far child of a node. -/
theorem far {s : Side} {c : Color} {a b : RbTree P} {x : P}
    (L : Linked base h (Frame.plug p (.join s c a x b))) :
    Linked base h (Frame.plug (⟨s.flip, c, x, a⟩ :: p) b) := by
  rw [Frame.plug_cons]
  rwa [RbTree.join_flip]

theorem sibling {f : Frame P} (L : Linked base h (Frame.plug (f :: p) t)) :
    Linked base h (Frame.plug (⟨f.side.flip, f.color, f.x, t⟩ :: p) f.sibling) :=
  far (p := p) L

theorem root_ne {f : Frame P} (L : Linked base h (Frame.plug (f :: p) t)) : h.root ≠ t.top := by
  rw [L.root]
  exact top_plug_ne fun q mem mem' => (List.nodup_append.mp L.apart).2.2 q mem q mem' rfl

variable [DecidableEq P]

/-- Another subtree is put below `p`, of nodes that are not on the way. -/
theorem replace (L : Linked base h (Frame.plug p t)) (h' : Heap P) (t' : RbTree P)
    (nodup : t'.inorder.Nodup)
    (new : ∀ q ∈ t'.inorder, q ∉ Frame.addresses p) (shape : Shape h'.mem (Frame.above p) t')
    (away : ∀ q, q ∉ t.inorder → q ∉ t'.inorder → h'.mem q = (h.hang p t'.top).mem q)
    (root : h'.root = (h.hang p t'.top).root) :
    Linked (fun q => if q ∈ t.inorder ∧ q ∉ t'.inorder then h'.mem q else base q) h'
      (Frame.plug p t') := by
  obtain ⟨_, others, apart⟩ := List.nodup_append.mp L.apart
  have onPath : ∀ {q}, q ∈ Frame.addresses p → h'.mem q = (h.hang p t'.top).mem q :=
    fun {q} mem => away q (fun mem' => apart q mem' q mem rfl) fun mem' => new q mem' mem
  have mem_iff : ∀ {u : RbTree P} {q : P},
      q ∈ (Frame.plug p u).inorder ↔ q ∈ u.inorder ∨ q ∈ Frame.addresses p := fun {u q} => by
    rw [(Frame.perm_plug p u).mem_iff, List.mem_append]
  refine ⟨shape_plug.mpr ⟨shape, ?_⟩, ?_, ?_, ?_⟩
  · cases p with
    | nil => trivial
    | cons f p =>
      obtain ⟨cell, sibling, rest⟩ := L.around
      rw [Frame.addresses, List.nodup_cons, List.mem_append, not_or] at others
      have same : ∀ q, q ∈ Frame.addresses (f :: p) → q ≠ f.x → h'.mem q = h.mem q := by
        intro q mem ne
        rw [onPath mem]
        exact Heap.hang_mem_ne _ _ fun eq => ne (Option.some.inj eq).symm
      refine ⟨?_, sibling.congr fun q mem => ?_, rest.congr fun q mem => ?_⟩
      · rw [onPath (by simp [Frame.addresses])]
        simp [Heap.hang, Heap.setChild, cell]
      · refine same q (by simp [Frame.addresses, mem]) ?_
        rintro rfl
        exact others.1.1 mem
      · refine same q (by simp [Frame.addresses, mem]) ?_
        rintro rfl
        exact others.1.2 mem
  · rw [root]
    cases p with
    | nil => rfl
    | cons f p => exact L.root.trans (top_plug f p t t')
  · refine (Frame.perm_plug p t').nodup_iff.mpr (List.nodup_append.mpr ⟨nodup, others, ?_⟩)
    rintro q mem q' mem' rfl
    exact new q mem mem'
  · intro q out
    rw [mem_iff, not_or] at out
    by_cases gone : q ∈ t.inorder
    · rw [if_pos ⟨gone, out.1⟩]
    · rw [if_neg fun both => gone both.1, away q gone out.1]
      rw [Heap.hang_mem_ne _ _ fun eq => out.2 (above_mem eq)]
      exact L.outside q (by rw [mem_iff, not_or]; exact ⟨gone, out.2⟩)

/-- A part rebuilt from all its nodes. -/
theorem rebuild (L : Linked base h (Frame.plug p t)) (perm : t'.inorder.Perm t.inorder)
    (shape : Shape h'.mem (Frame.above p) t')
    (away : ∀ q, q ∉ t.inorder → h'.mem q = (h.hang p t'.top).mem q)
    (root : h'.root = (h.hang p t'.top).root) : Linked base h' (Frame.plug p t') := by
  obtain ⟨nodup, _, apart⟩ := List.nodup_append.mp L.apart
  have new : ∀ q ∈ t'.inorder, q ∉ Frame.addresses p := fun q mem mem' =>
    apart q (perm.mem_iff.mp mem) q mem' rfl
  have built := L.replace h' t' (perm.nodup_iff.mpr nodup) new shape (fun q out _ => away q out) root
  have none : ∀ q, ¬(q ∈ t.inorder ∧ q ∉ t'.inorder) := fun q both =>
    both.2 (perm.mem_iff.mpr both.1)
  simpa only [none, if_false] using built

/-- The pointer from above is there already. -/
theorem hang_top (L : Linked base h (Frame.plug p t)) : h.hang p t.top = h := by
  cases p with
  | nil =>
    have root : h.root = t.top := L.root
    rw [← root]
    rfl
  | cons f p =>
    have cell := L.parentCell
    simp only [Heap.hang, Heap.setChild, Heap.modify, cell, Cell.of_setChild]
    rw [← cell, Function.update_eq_self]

/-- A node is painted. -/
theorem paint {s : Side} {c : Color} {a b : RbTree P} {x : P}
    (L : Linked base h (Frame.plug p (.join s c a x b))) (d : Color) :
    Linked base (h.setColor x d) (Frame.plug p (.join s d a x b)) := by
  have hung : h.hang p (RbTree.join s d a x b).top = h := by
    have := L.hang_top
    rwa [RbTree.top_join] at this ⊢
  obtain ⟨cell, near, far⟩ := shape_join.mp L.inside
  have nodup := nodup_join.mp (List.nodup_append.mp L.apart).1
  refine L.rebuild ?_ (shape_join.mpr ⟨?_, near.congr fun q mem => ?_, far.congr fun q mem => ?_⟩)
    ?_ ?_
  · rw [RbTree.inorder_join_congr rfl rfl]
  · simp [Heap.setColor, cell]
  · refine Heap.modify_mem_ne _ _ ?_
    rintro rfl
    exact nodup.1.1 mem
  · refine Heap.modify_mem_ne _ _ ?_
    rintro rfl
    exact nodup.1.2 mem
  · intro q out
    rw [hung]
    refine Heap.modify_mem_ne _ _ ?_
    rintro rfl
    exact out (RbTree.mem_join.mpr (Or.inl rfl))
  · rw [hung]
    rfl

theorem paintRoot (L : Linked base h t) (nonempty : t ≠ .nil) (d : Color) :
    ∃ r, h.root = some r ∧ Linked base (h.setColor r d) (t.paint d) := by
  obtain ⟨c, a, r, b, rfl⟩ := RbTree.exists_join .left nonempty
  refine ⟨r, L.root.trans (RbTree.top_join ..), ?_⟩
  rw [RbTree.paint_join]
  exact paint (p := []) L d

end Linked
end
end Simtrace2.Lib
