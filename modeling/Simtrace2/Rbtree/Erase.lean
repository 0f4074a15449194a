import Simtrace2.Rbtree.Insert
import Simtrace2.Rbtree.Walk

/-! `rb_erase`: a node is taken out of the tree, and `__rb_erase_color` makes up for the black node
that is then missing below `parent`. -/
namespace Simtrace2.Rbtree
open Lib

variable {P : Type} [DecidableEq P]

/-- What the code asks of a child: that it is missing or black. -/
def isBlack (h : Heap P) (node : Option P) : Bool :=
  match node with
  | some node => (h.mem node).color = .black
  | none => true

/-- The node's sibling is red: it comes up, and the node has another one. -/
def eraseSibling (s : Side) (h : Heap P) (parent : P) : Option (Heap P × P) := do
  let other ← (h.mem parent).child s.flip
  if (h.mem other).color = .red then
    let h := (h.setColor other .black).setColor parent .red
    let h ← rotate s h parent
    let other ← (h.mem parent).child s.flip
    return (h, other)
  else return (h, other)

/-- The rest of the body of the loop, and if the loop is left with a `break`. -/
def eraseTurn (s : Side) (h : Heap P) (parent other : P) : Option (Heap P × Bool) := do
  if isBlack h (h.mem other).left && isBlack h (h.mem other).right then
    return (h.setColor other .red, false)
  else
    let (h, other) ←
      if isBlack h ((h.mem other).child s.flip) then do
        let near ← (h.mem other).child s
        let h := (h.setColor near .black).setColor other .red
        let h ← rotate s.flip h other
        let other ← (h.mem parent).child s.flip
        pure (h, other)
      else pure (h, other)
    let h := (h.setColor other (h.mem parent).color).setColor parent .black
    let far ← (h.mem other).child s.flip
    let h ← rotate s (h.setColor far .black) parent
    return (h, true)

def finish (h : Heap P) (node : Option P) : Heap P :=
  match node with
  | some node => h.setColor node .black
  | none => h

def eraseColor : Nat → Heap P → Option P → Option P → Option (Heap P)
  | 0, _, _, _ => none
  | fuel + 1, h, node, parent =>
    if isBlack h node && node != h.root then do
      let parent ← parent
      let s := if (h.mem parent).left = node then Side.left else Side.right
      let (h, other) ← eraseSibling s h parent
      let (h, broken) ← eraseTurn s h parent other
      if broken then return finish h h.root
      else eraseColor fuel h (some parent) (h.mem parent).parent
    else return finish h node

/-- The node's only child, if it has one, takes its place. -/
def unlinkNode (h : Heap P) (node : P) (child parent : Option P) : Heap P :=
  replaceChild (h.adopt child parent) parent .left node child

/-- `node` goes where `old` with two children is, with the child, the parent and the colour that it
had itself; without a pointer from below its parent is itself then. -/
def spliceNode (h : Heap P) (old node : P) : Option (Heap P × Option P × Option P × Color) := do
  let h := replaceChild h (h.mem old).parent .left old (some node)
  let child := (h.mem node).right
  let parent := (h.mem node).parent
  let color := (h.mem node).color
  let (h, parent) ←
    if parent = some old then pure (h, some node)
    else do
      let above ← parent
      let h := (h.adopt child (some above)).setChild above .left child
      let right ← (h.mem old).right
      pure ((h.setChild node .right (some right)).setParent right (some node), some above)
  let h := h.modify node fun c => (c.setParent (h.mem old).parent).setColor (h.mem old).color
  let left ← (h.mem old).left
  return ((h.setChild node .left (some left)).setParent left (some node), child, parent, color)

/-- The end of `rb_erase`: only a black node is missed. -/
def eraseEnd (fuel : Nat) (h : Heap P) (child parent : Option P) (color : Color) :
    Option (Heap P) :=
  if color = .black then eraseColor fuel h child parent else some h

def erase (fuel : Nat) (h : Heap P) (node : P) : Option (Heap P) :=
  let parent := (h.mem node).parent
  let color := (h.mem node).color
  match (h.mem node).left with
  | none =>
    let child := (h.mem node).right
    eraseEnd fuel (unlinkNode h node child parent) child parent color
  | some left =>
    match (h.mem node).right with
    | none => eraseEnd fuel (unlinkNode h node (some left) parent) (some left) parent color
    | some right => do
      let old := node
      let node ← extreme .left fuel h right
      let (h, child, parent, color) ← spliceNode h old node
      eraseEnd fuel h child parent color

section
variable {base : P → Cell P} {h : Heap P} {p : List (Frame P)} {t : RbTree P}

omit [DecidableEq P] in
theorem isBlack_iff (L : Linked base h (Frame.plug p t)) :
    isBlack h t.top = true ↔ t.color = .black := by
  cases top : t.top with
  | none =>
    cases t with
    | nil => exact iff_of_true rfl rfl
    | node c l x r => cases top
  | some x => simp [isBlack, (L.topCell top).2]

theorem finish_linked (L : Linked base h (Frame.plug p t)) :
    Linked base (finish h t.top) (Frame.plug p (t.paint .black)) := by
  cases t with
  | nil => exact L
  | node c l x r => exact Linked.paint (s := .left) L .black

/-- The sibling comes up in the parent's colour, and the black of the red nephew is the missing
one. -/
theorem settle_linked {s : Side} {c d e : Color} {a b₁ b₂ : RbTree P} {x y u : P}
    (L : Linked base h (Frame.plug p (.join s c t x (.join s d a y (.join s e b₁ u b₂))))) :
    ∃ h', rotate s (((h.setColor y c).setColor x .black).setColor u .black) x = some h' ∧
      Linked base h'
        (Frame.plug p (.join s c (.join s .black t x a) y (.join s .black b₁ u b₂))) := by
  have atY : Linked base (h.setColor y c)
      (Frame.plug (⟨s.flip, c, x, t⟩ :: p) (.join s c a y (.join s e b₁ u b₂))) := by
    refine Linked.paint (p := ⟨s.flip, c, x, t⟩ :: p) (c := d) ?_ c
    rw [Frame.plug_cons]
    rwa [RbTree.join_flip]
  rw [Frame.plug_cons] at atY
  have atX := Linked.paint (p := p) atY .black
  have atU : Linked base (((h.setColor y c).setColor x .black).setColor u .black)
      (Frame.plug (⟨s.flip, c, y, a⟩ :: ⟨s.flip, .black, x, t⟩ :: p) (.join s .black b₁ u b₂)) := by
    refine Linked.paint (p := ⟨s.flip, c, y, a⟩ :: ⟨s.flip, .black, x, t⟩ :: p) (c := e) ?_ .black
    simp only [Frame.plug_cons, RbTree.join_flip] at atX ⊢
    exact atX
  simp only [Frame.plug_cons, RbTree.join_flip] at atU
  exact rotate_linked atU

/-- A subtree that lacks a black node, which painting a red top would give it. -/
def Short (t : RbTree P) (n : Nat) : Prop :=
  (t.color = .black ∧ t.Good n) ∨ (t.color = .red ∧ (t.paint .black).Good (n + 1))

omit [DecidableEq P] in
/-- The children of the sibling, as the code asks for them. -/
theorem nephews {s : Side} {c d : Color} {a b : RbTree P} {x y : P}
    (L : Linked base h (Frame.plug p (.join s c t x (.join s d a y b)))) :
    (isBlack h (h.mem y).left && isBlack h (h.mem y).right) =
      decide (a.color = .black ∧ b.color = .black) ∧ isBlack h b.top = decide (b.color = .black) := by
  have atY := Linked.cell (p := _ :: p) L.far
  have nearBlack : isBlack h a.top = decide (a.color = .black) := by
    rw [Bool.eq_iff_iff, decide_eq_true_iff]
    exact isBlack_iff (p := ⟨s, d, y, b⟩ :: _ :: p) L.far
  have farBlack : isBlack h b.top = decide (b.color = .black) := by
    rw [Bool.eq_iff_iff, decide_eq_true_iff]
    exact isBlack_iff (Linked.far (p := _ :: p) L.far)
  rw [atY]
  refine ⟨?_, farBlack⟩
  cases s with
  | left => simp [Cell.of, nearBlack, farBlack]
  | right => simp [Cell.of, nearBlack, farBlack, Bool.and_comm]

/-- With two black nephews the sibling turns red and what is missing is missing at the parent. -/
theorem eraseTurn_up {s : Side} {c : Color} {a b : RbTree P} {x y : P} {n : Nat}
    (L : Linked base h (Frame.plug p (.join s c t x (.join s .black a y b)))) (good : t.Good n)
    (goodA : a.Good n) (goodB : b.Good n) (blackA : a.color = .black) (blackB : b.color = .black) :
    ∃ h' t', eraseTurn s h x y = some (h', false) ∧ Linked base h' (Frame.plug p t') ∧
      t'.top = some x ∧ t'.color = c ∧ Short t' (n + c.weight) ∧
      t'.inorder = (RbTree.join s c t x (.join s .black a y b)).inorder := by
  have both := (nephews L).1
  rw [decide_eq_true ⟨blackA, blackB⟩] at both
  have red : (RbTree.join s .red a y b).Good n := RbTree.good_red.mpr ⟨goodA, goodB, blackA, blackB⟩
  have painted := Linked.paint (p := _ :: p) L.far .red
  refine ⟨h.setColor y .red, .join s c t x (.join s .red a y b), ?_, ?_, RbTree.top_join ..,
    RbTree.color_join .., ?_, RbTree.inorder_join_congr rfl (RbTree.inorder_join_congr rfl rfl)⟩
  · simp [eraseTurn, both]
  · rw [Frame.plug_cons, RbTree.join_flip] at painted
    exact painted
  · cases c with
    | red =>
      refine Or.inr ⟨RbTree.color_join .., ?_⟩
      rw [RbTree.paint_join]
      exact RbTree.good_black.mpr ⟨good, red⟩
    | black => exact Or.inl ⟨RbTree.color_join .., RbTree.good_black.mpr ⟨good, red⟩⟩

/-- With a red nephew nothing is missing any more. -/
theorem eraseTurn_over {s : Side} {c : Color} {a b : RbTree P} {x y : P} {n : Nat}
    (L : Linked base h (Frame.plug p (.join s c t x (.join s .black a y b)))) (good : t.Good n)
    (goodA : a.Good n) (goodB : b.Good n) (red : ¬(a.color = .black ∧ b.color = .black)) :
    ∃ h' t', eraseTurn s h x y = some (h', true) ∧ Linked base h' (Frame.plug p t') ∧
      t'.color = c ∧ t'.Good (n + 1 + c.weight) ∧
      t'.inorder = (RbTree.join s c t x (.join s .black a y b)).inorder := by
  obtain ⟨both, farBlack⟩ := nephews L
  rw [decide_eq_false red] at both
  have colorX : (h.mem x).color = c := by rw [Linked.cell (p := p) L, Cell.of_color]
  have nearY : (h.mem y).child s = a.top := by
    rw [Linked.cell (p := _ :: p) L.far, Cell.of_child]
  have farY : (h.mem y).child s.flip = b.top := by
    rw [Linked.cell (p := _ :: p) L.far, Cell.of_child_flip]
  cases bColor : b.color with
  | red =>
    rw [decide_eq_false (by rw [bColor]; decide)] at farBlack
    obtain ⟨b₁, u, b₂, rfl⟩ := RbTree.exists_red s bColor
    obtain ⟨good₁, good₂, -, -⟩ := RbTree.good_red.mp goodB
    obtain ⟨h', run, linked⟩ := settle_linked L
    rw [RbTree.top_join] at farY farBlack
    refine ⟨h', _, ?_, linked, RbTree.color_join .., ?_, ?_⟩
    · rw [eraseTurn, both]
      simp [farY, farBlack, colorX, run]
    · exact RbTree.good_join.mpr ⟨n + 1, rfl, RbTree.good_black.mpr ⟨good, goodA⟩,
        RbTree.good_black.mpr ⟨good₁, good₂⟩, fun _ => ⟨RbTree.color_join .., RbTree.color_join ..⟩⟩
    · rw [RbTree.inorder_turn s c .black]
      exact RbTree.inorder_join_congr rfl
        (RbTree.inorder_join_congr rfl (RbTree.inorder_join_congr rfl rfl))
  | black =>
    rw [decide_eq_true bColor] at farBlack
    have aColor : a.color = .red := by
      cases aColor : a.color with
      | red => rfl
      | black => exact absurd ⟨aColor, bColor⟩ red
    obtain ⟨a₁, z, a₂, rfl⟩ := RbTree.exists_red s aColor
    obtain ⟨good₁, good₂, -, -⟩ := RbTree.good_red.mp goodA
    rw [RbTree.top_join] at nearY
    -- the red nephew comes up first, and is the sibling then
    obtain ⟨h₁, first, turned⟩ := raise_linked (p := _ :: p) L.far
    rw [Frame.plug_cons, RbTree.join_flip] at turned
    obtain ⟨h', run, linked⟩ := settle_linked (p := p) turned
    have colorX' : (h₁.mem x).color = c := by rw [Linked.cell (p := p) turned, Cell.of_color]
    have farX : (h₁.mem x).child s.flip = some z := by
      rw [Linked.cell (p := p) turned, Cell.of_child_flip, RbTree.top_join]
    have farZ : (h₁.mem z).child s.flip = some y := by
      rw [Linked.cell (p := _ :: p) (Linked.far (p := p) turned), Cell.of_child_flip,
        RbTree.top_join]
    refine ⟨h', _, ?_, linked, RbTree.color_join .., ?_, ?_⟩
    · rw [eraseTurn, both]
      simp [nearY, farY, farBlack, first, colorX', farX, farZ, run]
    · exact RbTree.good_join.mpr ⟨n + 1, rfl, RbTree.good_black.mpr ⟨good, good₁⟩,
        RbTree.good_black.mpr ⟨good₂, goodB⟩, fun _ => ⟨RbTree.color_join .., RbTree.color_join ..⟩⟩
    · rw [RbTree.inorder_turn s c .black]
      exact RbTree.inorder_join_congr rfl (RbTree.inorder_rise ..)

/-- The sibling is black then. -/
theorem eraseSibling_linked {s : Side} {c : Color} {w : RbTree P} {x : P} {n : Nat}
    (L : Linked base h (Frame.plug (⟨s, c, x, w⟩ :: p) t))
    (path : Frame.Good (⟨s, c, x, w⟩ :: p) (n + 1)) :
    ∃ h' c' a y b p', eraseSibling s h x = some (h', y) ∧
      Linked base h' (Frame.plug p' (.join s c' t x (.join s .black a y b))) ∧
      a.Good n ∧ b.Good n ∧ Frame.Good p' (n + 1 + c'.weight) ∧
      (c' = .red → Frame.aboveColor p' = .black) ∧ (c' = .red ∨ p' = p) ∧
      (Frame.plug p' (.join s c' t x (.join s .black a y b))).inorder =
        (Frame.plug (⟨s, c, x, w⟩ :: p) t).inorder := by
  obtain ⟨good, alternate, around⟩ := path
  obtain ⟨d, a, y, b, rfl⟩ := RbTree.exists_join s good.ne_nil
  have other : (h.mem x).child s.flip = some y := by
    rw [Linked.cell (p := p) L, Cell.of_child_flip, RbTree.top_join]
  have color : (h.mem y).color = d := by
    rw [Linked.cell (p := _ :: p) (Linked.far (p := p) L), Cell.of_color]
  cases d with
  | black =>
    obtain ⟨goodA, goodB⟩ := RbTree.good_black.mp good
    refine ⟨h, c, a, y, b, p, ?_, L, goodA, goodB, around, fun red => (alternate red).2,
      Or.inr rfl, rfl⟩
    simp [eraseSibling, other, color]
  | red =>
    obtain ⟨goodA, goodB, blackA, -⟩ := RbTree.good_red.mp good
    obtain rfl : c = .black := by
      cases c with
      | red => exact absurd (alternate rfl).1 (by rw [RbTree.color_join]; decide)
      | black => rfl
    obtain ⟨d, a₁, v, a₂, rfl⟩ := RbTree.exists_join s goodA.ne_nil
    obtain rfl : d = .black := (RbTree.color_join ..).symm.trans blackA
    obtain ⟨good₁, good₂⟩ := RbTree.good_black.mp goodA
    have mirrored : Linked base h (Frame.plug p
        (.join s.flip .black (.join s.flip .red b y (.join s .black a₁ v a₂)) x t)) := by
      simp only [RbTree.join_flip]
      exact L
    obtain ⟨h', run, linked⟩ := raise_linked mirrored
    rw [Side.flip_flip] at run
    have turned : Linked base h' (Frame.plug (⟨s, .black, y, b⟩ :: p)
        (.join s .red t x (.join s .black a₁ v a₂))) := by
      simp only [RbTree.join_flip] at linked
      exact linked
    have other' : (h'.mem x).child s.flip = some v := by
      rw [Linked.cell turned, Cell.of_child_flip, RbTree.top_join]
    refine ⟨h', .red, a₁, v, a₂, ⟨s, .black, y, b⟩ :: p, ?_, turned, good₁, good₂,
      Frame.good_black.mpr ⟨goodB, around⟩, fun _ => rfl, Or.inl rfl, ?_⟩
    · simp [eraseSibling, other, color, run, other']
    · exact Frame.inorder_plug_congr (p := p) (RbTree.inorder_turn ..)

/-- What the loop has got to: the subtree lacks a black node. -/
structure Sinking (base : P → Cell P) (h : Heap P) (p : List (Frame P)) (t : RbTree P) : Prop where
  linked : Linked base h (Frame.plug p t)
  short : ∃ n, Frame.Good p (n + 1) ∧ Short t n

/-- One round: nothing is missing any more, or it is missing further up, or painting the parent
black is enough. -/
theorem eraseTurn_sinking {f : Frame P} (S : Sinking base h (f :: p) t) (black : t.color = .black) :
    ∃ h₁ y h', eraseSibling f.side h f.x = some (h₁, y) ∧
      ((eraseTurn f.side h₁ f.x y = some (h', true) ∧ ∃ t', Linked base h' t' ∧ t'.RedBlack ∧
          t'.inorder = (Frame.plug (f :: p) t).inorder) ∨
        (eraseTurn f.side h₁ f.x y = some (h', false) ∧ ∃ p' t', Sinking base h' p' t' ∧
          t'.top = some f.x ∧ (t'.color = .red ∨ p' = p) ∧
          (Frame.plug p' t').inorder = (Frame.plug (f :: p) t).inorder)) := by
  obtain ⟨L, n, path, short⟩ := S
  have good : t.Good n := by
    rcases short with ⟨-, good⟩ | ⟨red, -⟩
    · exact good
    · cases black.symm.trans red
  obtain ⟨h₁, c, a, y, b, p', first, linked, goodA, goodB, around, parent, shorter, same⟩ :=
    eraseSibling_linked L path
  by_cases both : a.color = .black ∧ b.color = .black
  · obtain ⟨h', t', run, linked', top, color, short', order⟩ :=
      eraseTurn_up linked good goodA goodB both.1 both.2
    refine ⟨h₁, y, h', first, Or.inr ⟨run, p', t', ⟨linked', n + c.weight, ?_, short'⟩, top, ?_,
      (Frame.inorder_plug_congr order).trans same⟩⟩
    · rwa [Nat.add_right_comm]
    · rwa [color]
  · obtain ⟨h', t', run, linked', color, good', order⟩ := eraseTurn_over linked good goodA goodB both
    refine ⟨h₁, y, h', first, Or.inl ⟨run, Frame.plug p' t', linked', ?_,
      (Frame.inorder_plug_congr order).trans same⟩⟩
    exact Frame.redBlack_plug.mpr ⟨_, around, good', fun red => parent (color.symm.trans red)⟩

/-- The sibling is there, so the parent's pointers tell which child is short. -/
theorem Sinking.side {f : Frame P} (S : Sinking base h (f :: p) t) :
    (if (h.mem f.x).left = t.top then Side.left else Side.right) = f.side := by
  obtain ⟨L, n, path, -⟩ := S
  obtain ⟨d, a, y, b, sibling⟩ := RbTree.exists_join f.side path.1.ne_nil
  have ne : f.sibling.top ≠ t.top := by
    intro eq
    rw [sibling, RbTree.top_join] at eq
    exact L.sibling_ne (top_mem eq.symm) (by rw [sibling, RbTree.top_join])
  have found := L.child_iff ne .left
  simp only [Cell.child] at found
  split
  · rename_i left
    exact (found.mp left).symm
  · rename_i right
    exact (Side.eq_flip_of_ne fun eq => right (found.mpr eq)).symm

/-- The loop as a whole. -/
theorem eraseColor_sinking {fuel : Nat} (S : Sinking base h p t) (one : 0 < fuel)
    (rounds : t.color = .red ∨ p.length < fuel) :
    ∃ h' t', eraseColor fuel h t.top (Frame.above p) = some h' ∧ Linked base h' t' ∧ t'.RedBlack ∧
      t'.inorder = (Frame.plug p t).inorder := by
  induction fuel generalizing h p t with
  | zero => omega
  | succ fuel ih =>
    obtain ⟨n, path, short⟩ := S.short
    have blackened := finish_linked S.linked
    have order : (Frame.plug p (t.paint .black)).inorder = (Frame.plug p t).inorder :=
      Frame.inorder_plug_congr (RbTree.inorder_paint ..)
    rcases short with ⟨black, good⟩ | ⟨red, good⟩
    · have blackTop := (isBlack_iff S.linked).mpr black
      cases p with
      | nil =>
        have root : h.root = t.top := S.linked.root
        refine ⟨finish h t.top, t.paint .black, ?_, blackened, ?_, order⟩
        · simp [eraseColor, root]
        · rw [← black, RbTree.paint_color]
          exact ⟨black, n, good⟩
      | cons f p =>
        have notRoot := Ne.symm S.linked.root_ne
        have side := S.side
        obtain ⟨h₁, y, h', first, done | up⟩ := eraseTurn_sinking S black
        · obtain ⟨run, t', linked, redBlack, same⟩ := done
          have finished := finish_linked (p := []) linked
          rw [← linked.root] at finished
          have asItWas : t'.paint .black = t' := by rw [← redBlack.1, RbTree.paint_color]
          refine ⟨finish h' h'.root, t', ?_, asItWas ▸ finished, redBlack, same⟩
          simp [eraseColor, blackTop, notRoot, side, first, run]
        · obtain ⟨run, p', t', sinking, top, shorter, same⟩ := up
          obtain ⟨toParent, -⟩ := sinking.linked.topCell top
          have length : p.length < fuel := by
            rcases rounds with red | less
            · cases black.symm.trans red
            · simpa using less
          obtain ⟨h'', u, rest, linked, redBlack, order⟩ :=
            ih sinking (by omega) (shorter.imp_right fun eq => by rwa [eq])
          refine ⟨h'', u, ?_, linked, redBlack, order.trans same⟩
          rw [top] at rest
          simp [eraseColor, blackTop, notRoot, side, first, run, toParent, rest]
    · refine ⟨finish h t.top, Frame.plug p (t.paint .black), ?_, blackened, ?_, order⟩
      · have notBlack : isBlack h t.top = false := by
          rw [← Bool.not_eq_true, isBlack_iff S.linked, red]
          decide
        simp [eraseColor, notBlack]
      · exact Frame.redBlack_plug.mpr ⟨n + 1, path, good, fun h => by
          rw [RbTree.color_paint_black] at h
          cases h⟩

/-! ### `rb_erase` -/

/-- What the colour of the node that is gone asks for. -/
theorem eraseEnd_linked {s : Side} {d : Color} {y : P} (L : Linked base h (Frame.plug p t))
    (redBlack : (Frame.plug p (.join s d .nil y t)).RedBlack) {fuel : Nat} (rounds : p.length < fuel) :
    ∃ h' t', eraseEnd fuel h t.top (Frame.above p) d = some h' ∧ Linked base h' t' ∧
      t'.RedBlack ∧ t'.inorder = (Frame.plug p t).inorder := by
  obtain ⟨m, path, good, -⟩ := Frame.redBlack_plug.mp redBlack
  obtain ⟨n, rfl, -, goodT, alternate⟩ := RbTree.good_join.mp good
  cases d with
  | black =>
    have short : Short t n := by
      cases color : t.color with
      | black => exact Or.inl ⟨color, goodT⟩
      | red => exact Or.inr ⟨color, goodT.paint_black color⟩
    exact eraseColor_sinking ⟨L, n, path, short⟩ (by omega) (Or.inr rounds)
  | red =>
    refine ⟨h, Frame.plug p t, rfl, L, Frame.redBlack_plug.mpr ⟨n, path, goodT, fun red => ?_⟩, rfl⟩
    cases red.symm.trans (alternate rfl).2

theorem unlinkNode_eq {s : Side} {c : Color} {x : P}
    (L : Linked base h (Frame.plug p (.join s c .nil x t))) :
    unlinkNode h x t.top (Frame.above p) = (h.adopt t.top (Frame.above p)).hang p t.top := by
  refine replaceChild_eq L (RbTree.top_join ..) (fun q up => ?_) .left _
  refine Heap.adopt_mem_ne _ _ fun top => ?_
  exact L.above_notMem (RbTree.mem_join.mpr (Or.inr (Or.inr (top_mem top)))) up

theorem unlinkNode_linked {s : Side} {c : Color} {x : P}
    (L : Linked base h (Frame.plug p (.join s c .nil x t))) :
    ∃ base', (∀ q, q ≠ x → base' q = base q) ∧
      Linked base' (unlinkNode h x t.top (Frame.above p)) (Frame.plug p t) := by
  obtain ⟨nodup, _, apart⟩ := List.nodup_append.mp L.apart
  obtain ⟨⟨-, xt⟩, -, nodupT, -⟩ := nodup_join.mp nodup
  have hung := unlinkNode_eq L
  obtain ⟨-, -, shape⟩ := shape_join.mp L.inside
  have away : ∀ {q}, q ∈ t.inorder → Frame.above p ≠ some q := fun mem =>
    L.above_notMem (RbTree.mem_join.mpr (Or.inr (Or.inr mem)))
  refine ⟨_, ?_, L.replace (unlinkNode h x t.top (Frame.above p)) t nodupT
    (fun q mem mem' => apart q (RbTree.mem_join.mpr (Or.inr (Or.inr mem))) q mem' rfl) ?_ ?_ ?_⟩
  · intro q ne
    refine if_neg fun both => ?_
    rcases RbTree.mem_join.mp both.1 with eq | mem | mem
    · exact ne eq
    · cases mem
    · exact both.2 mem
  · rw [hung]
    refine shape.reparent nodupT (fun q top => ?_) (fun q mem top => ?_)
    · rw [Heap.hang_mem_ne _ _ (away (top_mem top)), top, Heap.adopt_mem]
    · rw [Heap.hang_mem_ne _ _ (away mem), Heap.adopt_mem_ne _ _ top]
  · intro q _ out
    rw [hung]
    exact Heap.hang_mem_congr p _ (Heap.adopt_mem_ne _ _ fun top => out (top_mem top))
  · rw [hung]
    cases p with
    | nil => rfl
    | cons f p => exact Heap.adopt_root ..

/-- A node of the right subtree stands where `x` was. -/
theorem substitute_linked {c : Color} {l r r' : RbTree P} {x y : P} {h' : Heap P}
    (L : Linked base h (Frame.plug p (.node c l x r))) (perm : r.inorder.Perm (y :: r'.inorder))
    (atY : h'.mem y = ⟨Frame.above p, c, r'.top, l.top⟩) (left : Shape h'.mem (some y) l)
    (right : Shape h'.mem (some y) r')
    (away : ∀ q, q ∉ (RbTree.node c l x r).inorder → h'.mem q = (h.hang p (some y)).mem q)
    (root : h'.root = (h.hang p (some y)).root) :
    ∃ base', (∀ q, q ≠ x → base' q = base q) ∧ Linked base' h' (Frame.plug p (.node c l y r')) := by
  obtain ⟨nodup, _, apart⟩ := List.nodup_append.mp L.apart
  obtain ⟨-, nodupL, nodupR, disjoint⟩ := nodup_join (s := .left).mp nodup
  have mem {q : P} : q ∈ r.inorder ↔ q = y ∨ q ∈ r'.inorder := by
    rw [perm.mem_iff, List.mem_cons]
  have within : ∀ q ∈ (RbTree.node c l y r').inorder, q ∈ (RbTree.node c l x r).inorder := by
    intro q mem'
    rcases RbTree.mem_join (s := .left).mp mem' with eq | inL | inR
    · exact RbTree.mem_join (s := .left).mpr (Or.inr (Or.inr (mem.mpr (Or.inl eq))))
    · exact RbTree.mem_join (s := .left).mpr (Or.inr (Or.inl inL))
    · exact RbTree.mem_join (s := .left).mpr (Or.inr (Or.inr (mem.mpr (Or.inr inR))))
  have nodup' : (RbTree.node c l y r').inorder.Nodup := by
    rw [perm.nodup_iff, List.nodup_cons] at nodupR
    refine nodup_join (s := .left).mpr ⟨⟨fun inL => ?_, nodupR.1⟩, nodupL, nodupR.2, ?_⟩
    · exact disjoint y inL (mem.mpr (Or.inl rfl))
    · exact fun q inL inR => disjoint q inL (mem.mpr (Or.inr inR))
  refine ⟨_, ?_, L.replace h' _ nodup' (fun q mem mem' => apart q (within q mem) q mem' rfl)
    ⟨atY, left, right⟩ (fun q out _ => away q out) root⟩
  intro q ne
  refine if_neg fun both => ?_
  rcases RbTree.mem_join (s := .left).mp both.1 with eq | inL | inR
  · exact ne eq
  · exact both.2 (RbTree.mem_join (s := .left).mpr (Or.inr (Or.inl inL)))
  · rcases mem.mp inR with eq | inR
    · exact both.2 (RbTree.mem_join (s := .left).mpr (Or.inl eq))
    · exact both.2 (RbTree.mem_join (s := .left).mpr (Or.inr (Or.inr inR)))

/-- The right child has no left child, and goes up itself. -/
theorem spliceNode_near {c d : Color} {l z : RbTree P} {x y : P} (nonempty : l ≠ .nil)
    (L : Linked base h (Frame.plug p (.node c l x (.node d .nil y z)))) :
    ∃ h', spliceNode h x y = some (h', z.top, some y, d) ∧
      ∃ base', (∀ q, q ≠ x → base' q = base q) ∧ Linked base' h' (Frame.plug p (.node c l y z)) := by
  obtain ⟨v, lTop⟩ : ∃ v, l.top = some v := by
    obtain ⟨_, _, v, _, rfl⟩ := RbTree.exists_join .left nonempty
    exact ⟨v, rfl⟩
  obtain ⟨atX, left, atY, -, right⟩ := L.inside
  obtain ⟨⟨xl, xr⟩, nodupL, nodupR, disjoint⟩ :=
    nodup_join (s := .left).mp (List.nodup_append.mp L.apart).1
  obtain ⟨⟨-, yz⟩, -, nodupZ, -⟩ := nodup_join (s := .left).mp nodupR
  have notL : ∀ {q}, q ∈ (RbTree.node d .nil y z).inorder → q ∉ l.inorder := fun inR inL =>
    disjoint _ inL inR
  simp only [RbTree.inorder, List.nil_append, List.mem_cons, not_or] at xr notL
  obtain ⟨xy, xz⟩ := xr
  have yv : y ≠ v := fun eq => notL (Or.inl rfl) (eq ▸ top_mem lTop)
  let h₁ := h.hang p (some y)
  let h₂ := (h₁.modify y fun cell => (cell.setParent (Frame.above p)).setColor c).setChild y .left
    (some v)
  have hung : replaceChild h (Frame.above p) .left x (some y) = h₁ :=
    replaceChild_eq L rfl (fun _ _ => rfl) .left _
  have inside : ∀ {q}, q = x ∨ q = y ∨ q ∈ l.inorder ∨ q ∈ z.inorder → h₁.mem q = h.mem q := by
    intro q mem
    refine Heap.hang_mem_ne _ _ (L.above_notMem ?_)
    simp only [RbTree.inorder, List.nil_append, List.mem_append, List.mem_cons]
    tauto
  have off : ∀ {q}, q ≠ y → q ≠ v → (h₂.setParent v (some y)).mem q = h₁.mem q := by
    intro q qy qv
    simp [h₂, Heap.setParent, Heap.setChild, qy, qv]
  refine ⟨h₂.setParent v (some y), ?_,
    substitute_linked L (List.Perm.refl _) ?_ ?_ ?_ (fun q out => ?_) ?_⟩
  · simp [spliceNode, atX, hung, inside, atY, lTop, h₂, xy]
  · simp [Heap.setParent, Heap.setChild, yv, h₂, inside, atY, lTop, Cell.setParent, Cell.setColor,
      Cell.setChild]
  · refine left.reparent nodupL (fun q top => ?_) (fun q mem top => ?_)
    · obtain rfl : v = q := Option.some.inj (lTop.symm.trans top)
      simp [Heap.setParent, Heap.setChild, h₂, Ne.symm yv, inside, top_mem lTop]
    · have qv : q ≠ v := fun eq => top (eq ▸ lTop)
      rw [off (fun eq => notL (Or.inl rfl) (eq ▸ mem)) qv, inside (by simp [mem])]
  · refine right.congr fun q mem => ?_
    rw [off (fun eq => yz (eq ▸ mem)) (fun eq => notL (Or.inr mem) (eq ▸ top_mem lTop)),
      inside (by simp [mem])]
  · simp only [RbTree.inorder, List.nil_append, List.mem_append, List.mem_cons, not_or] at out
    exact off out.2.2.1 fun eq => out.1 (eq ▸ top_mem lTop)
  · rfl

/-- The heap once `y`, to which `h` points already, has left its child to `f` and has got the children
of the node that it stands for. -/
def lifted (h : Heap P) (y v w f : P) (child above : Option P) (c : Color) : Heap P :=
  let h := (h.adopt child (some f)).setChild f .left child
  let h := (h.setChild y .right (some w)).setParent w (some y)
  let h := (h.modify y fun cell => (cell.setParent above).setColor c).setChild y .left (some v)
  h.setParent v (some y)

section lifted
variable {u v w x y z : P} {child above : Option P} {c d : Color}

theorem spliceNode_lifted {h₁ : Heap P} (atX : h.mem x = ⟨above, c, some w, some v⟩)
    (hung : replaceChild h above .left x (some y) = h₁) (readX : h₁.mem x = h.mem x)
    (readY : h₁.mem y = ⟨some z, d, child, none⟩) (xy : x ≠ y) (xz : x ≠ z) (xw : x ≠ w)
    (top : child ≠ some x) :
    spliceNode h x y = some (lifted h₁ y v w z child above c, child, some z, d) := by
  have cut : ((h₁.adopt child (some z)).setChild z .left child).mem x = h.mem x := by
    simpa [Heap.setChild, xz, top] using readX
  have kept : ((((h₁.adopt child (some z)).setChild z .left child).setChild y .right
      (some w)).setParent w (some y)).mem x = h.mem x := by
    simpa [Heap.setParent, xw, Heap.setChild, xy] using cut
  simp [spliceNode, atX, hung, readY, Ne.symm xz, cut, kept, xy, lifted]

theorem lifted_off (uy : u ≠ y) (uv : u ≠ v) (uw : u ≠ w) :
    (lifted h y v w z child above c).mem u =
      ((h.adopt child (some z)).setChild z .left child).mem u := by
  simp [lifted, Heap.setParent, Heap.setChild, uy, uv, uw]

theorem lifted_away (uy : u ≠ y) (uv : u ≠ v) (uw : u ≠ w) (uz : u ≠ z) (top : child ≠ some u) :
    (lifted h y v w z child above c).mem u = h.mem u := by
  rw [lifted_off uy uv uw]
  simp [Heap.setChild, uz, top]

theorem lifted_self (yv : y ≠ v) (yw : y ≠ w) :
    (lifted h y v w z child above c).mem y = ⟨above, c, some w, some v⟩ := by
  simp [lifted, Heap.setParent, Heap.setChild, yv, yw, Cell.setParent, Cell.setColor, Cell.setChild]

theorem lifted_left (vy : v ≠ y) (vw : v ≠ w) (vz : v ≠ z) (top : child ≠ some v) :
    (lifted h y v w z child above c).mem v = (h.mem v).setParent (some y) := by
  simp [lifted, Heap.setParent, Heap.setChild, vy, vw, vz, top]

theorem lifted_right (wy : w ≠ y) (wv : w ≠ v) :
    (lifted h y v w z child above c).mem w =
      (((h.adopt child (some z)).setChild z .left child).mem w).setParent (some y) := by
  simp [lifted, Heap.setParent, Heap.setChild, wy, wv]

end lifted

/-- The first node of the right subtree leaves its place further down to its own child. -/
theorem spliceNode_far {c d : Color} {l z : RbTree P} {x y : P} {f : Frame P} {q : List (Frame P)}
    (nonempty : l ≠ .nil) (side : f.side = .left)
    (L : Linked base h (Frame.plug p (.node c l x (Frame.plug (f :: q) (.node d .nil y z))))) :
    ∃ h', spliceNode h x y = some (h', z.top, some f.x, d) ∧
      ∃ base', (∀ u, u ≠ x → base' u = base u) ∧
        Linked base' h' (Frame.plug p (.node c l y (Frame.plug (f :: q) z))) := by
  obtain ⟨v, lTop⟩ : ∃ v, l.top = some v := by
    obtain ⟨_, _, v, _, rfl⟩ := RbTree.exists_join .left nonempty
    exact ⟨v, rfl⟩
  have M : Linked base h (Frame.plug (f :: (q ++ ⟨.right, c, x, l⟩ :: p)) (.node d .nil y z)) := by
    have := L
    rw [← List.cons_append, Frame.plug_append]
    exact this
  have atY : h.mem y = ⟨some f.x, d, z.top, none⟩ := M.inside.1
  have cut := unlinkNode_eq (s := .left) M
  obtain ⟨_, -, unlinked⟩ := unlinkNode_linked (s := .left) M
  rw [cut, ← List.cons_append, Frame.plug_append] at unlinked
  have perm : (Frame.plug (f :: q) (.node d .nil y z)).inorder.Perm
      (y :: (Frame.plug (f :: q) z).inorder) :=
    (Frame.perm_plug _ _).trans ((Frame.perm_plug _ z).symm.cons y)
  have memR {u : P} : u ∈ (Frame.plug (f :: q) (.node d .nil y z)).inorder ↔
      u = y ∨ u ∈ (Frame.plug (f :: q) z).inorder := by rw [perm.mem_iff, List.mem_cons]
  have within {u : P} : u ∈ (Frame.plug (f :: q) z).inorder ↔
      u ∈ z.inorder ∨ u ∈ Frame.addresses (f :: q) := by
    rw [(Frame.perm_plug (f :: q) z).mem_iff, List.mem_append]
  have atF : f.x ∈ (Frame.plug (f :: q) z).inorder := within.mpr (Or.inr (by simp [Frame.addresses]))
  have atZ : ∀ {u}, z.top = some u → u ∈ (Frame.plug (f :: q) z).inorder := fun top =>
    within.mpr (Or.inl (top_mem top))
  have rTop : (Frame.plug (f :: q) (.node d .nil y z)).top = (Frame.plug (f :: q) z).top :=
    top_plug f q _ _
  have right : Shape ((h.adopt z.top (some f.x)).setChild f.x .left z.top).mem (some x)
      (Frame.plug (f :: q) z) := by
    rw [← side]
    exact unlinked.inside
  clear unlinked cut M
  obtain ⟨atX, left, -⟩ := L.inside
  obtain ⟨⟨xl, xr⟩, nodupL, nodupR, disjoint⟩ :=
    nodup_join (s := .left).mp (List.nodup_append.mp L.apart).1
  rw [perm.nodup_iff, List.nodup_cons] at nodupR
  obtain ⟨yr, nodupR⟩ := nodupR
  rw [memR, not_or] at xr
  obtain ⟨xy, xr⟩ := xr
  -- what hangs in the right subtree does not matter from here on
  generalize (Frame.plug (f :: q) (.node d .nil y z)) = r at *
  generalize (Frame.plug (f :: q) z) = r' at *
  obtain ⟨w, rTop'⟩ : ∃ w, r'.top = some w := by
    cases r' with
    | nil => cases atF
    | node _ _ w _ => exact ⟨w, rfl⟩
  rw [rTop, rTop', lTop] at atX
  have notL : ∀ {u}, u ∈ r.inorder → u ∉ l.inorder := fun inR inL => disjoint _ inL inR
  have inR : ∀ {u}, u ∈ r'.inorder → u ∈ r.inorder := fun mem => memR.mpr (Or.inr mem)
  have yv : y ≠ v := fun eq => notL (memR.mpr (Or.inl rfl)) (eq ▸ top_mem lTop)
  have yw : y ≠ w := fun eq => yr (eq ▸ top_mem rTop')
  have hung : replaceChild h (Frame.above p) .left x (some y) = h.hang p (some y) :=
    replaceChild_eq L rfl (fun _ _ => rfl) .left _
  have inside : ∀ {u}, u = x ∨ u ∈ l.inorder ∨ u ∈ r.inorder →
      (h.hang p (some y)).mem u = h.mem u := by
    intro u mem
    refine Heap.hang_mem_ne _ _ (L.above_notMem ?_)
    simp only [RbTree.inorder, List.mem_append, List.mem_cons]
    tauto
  have below : ∀ {u}, u ∈ r'.inorder →
      (((h.hang p (some y)).adopt z.top (some f.x)).setChild f.x .left z.top).mem u =
        ((h.adopt z.top (some f.x)).setChild f.x .left z.top).mem u := fun mem =>
    Heap.modify_mem_congr f.x (·.setChild .left z.top)
      (Heap.adopt_mem_congr _ _ (inside (Or.inr (Or.inr (inR mem)))))
  refine ⟨lifted (h.hang p (some y)) y v w f.x z.top (Frame.above p) c, ?_,
    substitute_linked L perm ?_ ?_ ?_ (fun u out => ?_) ?_⟩
  · exact spliceNode_lifted atX hung (inside (Or.inl rfl))
      ((inside (Or.inr (Or.inr (memR.mpr (Or.inl rfl))))).trans atY) xy
      (fun eq => xr (eq ▸ atF)) (fun eq => xr (eq ▸ top_mem rTop')) (fun top => xr (atZ top))
  · rw [lifted_self yv yw, rTop', lTop]
  · refine left.reparent nodupL (fun u top => ?_) (fun u mem top => ?_)
    · obtain rfl : v = u := Option.some.inj (lTop.symm.trans top)
      have vw : v ≠ w := fun eq => notL (inR (top_mem rTop')) (eq ▸ top_mem lTop)
      have vf : v ≠ f.x := fun eq => notL (inR atF) (eq ▸ top_mem lTop)
      have vz : z.top ≠ some v := fun top => notL (inR (atZ top)) (top_mem lTop)
      rw [lifted_left (Ne.symm yv) vw vf vz, inside (Or.inr (Or.inl (top_mem lTop)))]
    · have uy : u ≠ y := fun eq => notL (memR.mpr (Or.inl eq)) mem
      have uw : u ≠ w := fun eq => notL (inR (eq ▸ top_mem rTop')) mem
      have uf : u ≠ f.x := fun eq => notL (inR (by rw [eq]; exact atF)) mem
      rw [lifted_away uy (fun eq => top (eq ▸ lTop)) uw uf fun top => notL (inR (atZ top)) mem]
      exact inside (Or.inr (Or.inl mem))
  · refine right.reparent nodupR (fun u top => ?_) (fun u mem top => ?_)
    · obtain rfl : w = u := Option.some.inj (rTop'.symm.trans top)
      have wv : w ≠ v := fun eq => notL (inR (top_mem rTop')) (eq ▸ top_mem lTop)
      rw [lifted_right (Ne.symm yw) wv, below (top_mem rTop')]
    · have uy : u ≠ y := fun eq => yr (eq ▸ mem)
      have uv : u ≠ v := fun eq => notL (inR mem) (eq ▸ top_mem lTop)
      have uw : u ≠ w := fun eq => top (eq ▸ rTop')
      rw [lifted_off uy uv uw, below mem]
  · simp only [RbTree.inorder, List.mem_append, List.mem_cons, not_or] at out
    obtain ⟨outL, ux, outR⟩ := out
    have uy : u ≠ y := fun eq => outR (memR.mpr (Or.inl eq))
    have ur : u ∉ r'.inorder := fun mem => outR (inR mem)
    exact lifted_away uy (fun eq => outL (eq ▸ top_mem lTop)) (fun eq => ur (eq ▸ top_mem rTop'))
      (fun eq => ur (by rw [eq]; exact atF)) (fun top => ur (atZ top))
  · simp [lifted, Heap.setParent, Heap.setChild]

/-- The two cases in one. -/
theorem spliceNode_linked {c d : Color} {l z : RbTree P} {x y : P} {q : List (Frame P)}
    (nonempty : l ≠ .nil) (left : ∀ f ∈ q, f.side = .left)
    (L : Linked base h (Frame.plug p (.node c l x (Frame.plug q (.node d .nil y z))))) :
    ∃ h', spliceNode h x y = some (h', z.top, Frame.above (q ++ ⟨.right, c, y, l⟩ :: p), d) ∧
      ∃ base', (∀ u, u ≠ x → base' u = base u) ∧
        Linked base' h' (Frame.plug p (.node c l y (Frame.plug q z))) := by
  cases q with
  | nil => exact spliceNode_near nonempty L
  | cons f q => exact spliceNode_far nonempty (left f List.mem_cons_self) L

/-- What `rb_erase` has to do for a tree: `x` is out of it, the rule holds, and no cell but those of
the tree has changed. -/
def Erases (fuel : Nat) (base : P → Cell P) (h : Heap P) (T : RbTree P) (x : P) : Prop :=
  ∃ base' h' T', erase fuel h x = some h' ∧ (∀ q, q ≠ x → base' q = base q) ∧
    Linked base' h' T' ∧ T'.RedBlack ∧ T'.inorder = T.inorder.erase x

theorem erase_one {s : Side} {c : Color} {x : P} {fuel : Nat}
    (L : Linked base h (Frame.plug p (.join s c .nil x t)))
    (redBlack : (Frame.plug p (.join s c .nil x t)).RedBlack) (rounds : p.length < fuel)
    (run : erase fuel h x = eraseEnd fuel (unlinkNode h x t.top (Frame.above p)) t.top (Frame.above p) c) :
    Erases fuel base h (Frame.plug p (.join s c .nil x t)) x := by
  obtain ⟨base', same, unlinked⟩ := unlinkNode_linked L
  obtain ⟨h', T', ends, linked, redBlack', order⟩ := eraseEnd_linked unlinked redBlack rounds
  refine ⟨base', h', T', run.trans ends, same, linked, redBlack', order.trans ?_⟩
  cases s with
  | left => exact Frame.inorder_erase L.nodup [] t.inorder rfl rfl
  | right => exact Frame.inorder_erase L.nodup t.inorder [] rfl (by simp)

theorem erase_linked {T : RbTree P} {x : P} {fuel : Nat} (L : Linked base h T)
    (redBlack : T.RedBlack) (mem : x ∈ T.inorder) (rounds : T.depth < fuel) :
    Erases fuel base h T x := by
  obtain ⟨p, c, l, r, rfl⟩ := Frame.exists_plug mem
  have atX := L.inside.1
  have short : p.length < fuel := Nat.lt_of_le_of_lt redBlack.length_le rounds
  cases lTop : l.top with
  | none =>
    obtain rfl : l = .nil := by
      cases l with
      | nil => rfl
      | node => cases lTop
    exact erase_one (s := .left) L redBlack short (by simp [erase, atX])
  | some v =>
    have nonempty : l ≠ .nil := by
      rintro rfl
      cases lTop
    cases rTop : r.top with
    | none =>
      obtain rfl : r = .nil := by
        cases r with
        | nil => rfl
        | node => cases rTop
      exact erase_one (s := .right) L redBlack short (by simp [erase, atX, lTop])
    | some w =>
      obtain ⟨q, d, y, z, rfl, left, down⟩ :=
        extreme_linked .left (p := ⟨.right, c, x, l⟩ :: p) L rTop
      have deep : (q ++ ⟨.right, c, x, l⟩ :: p).length < fuel := by
        refine Nat.lt_of_le_of_lt (RbTree.RedBlack.length_le (t := .node d .nil y z) ?_) ?_
        · rw [Frame.plug_append]
          exact redBlack
        · rw [Frame.plug_append]
          exact rounds
      obtain ⟨h₁, splice, base', same, spliced⟩ := spliceNode_linked nonempty left L
      have relabelled :
          (Frame.plug (q ++ ⟨.right, c, y, l⟩ :: p) (.join .left d .nil y z)).RedBlack := by
        obtain ⟨n, path, good, top⟩ := Frame.redBlack_plug.mp redBlack
        rw [Frame.plug_append]
        exact Frame.redBlack_plug (p := p) (t := .node c l y _).mpr ⟨n, path, good, top⟩
      have whole : Linked base' h₁ (Frame.plug (q ++ ⟨.right, c, y, l⟩ :: p) z) := by
        rw [Frame.plug_append]
        exact spliced
      obtain ⟨h', T', ends, linked, redBlack', order⟩ :=
        eraseEnd_linked (s := .left) whole relabelled (by simpa using deep)
      refine ⟨base', h', T', ?_, same, linked, redBlack', order.trans ?_⟩
      · have found := down fuel (by simp at deep; omega)
        simp [erase, atX, lTop, rTop, found, splice, ends]
      · rw [Frame.plug_append]
        refine Frame.inorder_erase L.nodup l.inorder (y :: (z.inorder ++ Frame.behind q))
          ?_ ?_
        · simp [RbTree.inorder, RbTree.join, Frame.inorder_plug, Frame.before_of_left left]
        · simp [RbTree.join, RbTree.inorder, Frame.inorder_plug, Frame.before_of_left left]

theorem erase_linked_root :
    Erases 3 (fun _ => ⟨some 3, .red, none, none⟩) twoNodes
      (.node .black .nil 3 (.node .red .nil 5 .nil)) 3 :=
  erase_linked twoNodes_linked twoNodes_redBlack (by decide) (by decide)

end
end Simtrace2.Rbtree
