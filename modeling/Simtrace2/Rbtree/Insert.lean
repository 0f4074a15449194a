import Simtrace2.Lib.LinkedTree

/-! The red-black trees of `rbtree.c`, as the code changes the cells in the memory: the rotations
and what `rb_insert_color` does with a node that is linked in. A pointer that is read through
while it is null is `none`. -/
namespace Simtrace2.Rbtree
open Lib

variable {P : Type} [DecidableEq P]

/-- Where the parent's pointer to a node is changed: the code asks for side `s` first. -/
def replaceChild (h : Heap P) (parent : Option P) (s : Side) (node : P) (new : Option P) :
    Heap P :=
  match parent with
  | some parent =>
    if (h.mem parent).child s = some node then h.setChild parent s new
    else h.setChild parent s.flip new
  | none => { h with root := new }

/-- The child on the other side comes up; `right` is called so for `s = .left`. -/
def rotate (s : Side) (h : Heap P) (node : P) : Option (Heap P) := do
  let right ← (h.mem node).child s.flip
  let parent := (h.mem node).parent
  let inner := (h.mem right).child s
  let h := (h.setChild node s.flip inner).adopt inner (some node)
  let h := (h.setChild right s (some node)).setParent right parent
  let h := replaceChild h parent s node (some right)
  return h.setParent node (some right)

def rotateLeft (h : Heap P) (node : P) : Option (Heap P) := rotate .left h node

def rotateRight (h : Heap P) (node : P) : Option (Heap P) := rotate .right h node

/-- The rotations in the loop of `rb_insert_color`, where `parent` is on side `s` of `gparent`. -/
def insertTurn (s : Side) (h : Heap P) (node parent gparent : P) : Option (Heap P × P) := do
  let (h, node, parent) ←
    if (h.mem parent).child s.flip = some node then do
      let h ← rotate s h parent
      pure (h, parent, node)
    else pure (h, node, parent)
  let h := (h.setColor parent .black).setColor gparent .red
  let h ← rotate s.flip h gparent
  return (h, node)

/-- The body of the loop. -/
def insertCase (s : Side) (h : Heap P) (node parent gparent : P) : Option (Heap P × P) :=
  match (h.mem gparent).child s.flip with
  | some uncle =>
    if (h.mem uncle).color = .red then
      some (((h.setColor uncle .black).setColor parent .black).setColor gparent .red, gparent)
    else insertTurn s h node parent gparent
  | none => insertTurn s h node parent gparent

def insertColor : Nat → Heap P → P → Option (Heap P)
  | 0, _, _ => none
  | fuel + 1, h, node => do
    match (h.mem node).parent with
    | some parent =>
      if (h.mem parent).color = .red then do
        let gparent ← (h.mem parent).parent
        let s := if (h.mem gparent).left = some parent then Side.left else Side.right
        let (h, node) ← insertCase s h node parent gparent
        insertColor fuel h node
      else return h.setColor (← h.root) .black
    | none => return h.setColor (← h.root) .black

/-- `rb_link` is the pointer on side `s` of `parent`, or the root. -/
def linkNode (h : Heap P) (node : P) (parent : Option P) (s : Side) : Heap P :=
  let h := h.modify node fun _ => ⟨parent, .red, none, none⟩
  match parent with
  | some parent => h.setChild parent s (some node)
  | none => { h with root := some node }

/-! ### Rotations -/

section
variable {base : P → Cell P} {h : Heap P} {p : List (Frame P)}

/-- In a tree the code finds the pointer that is to the node. -/
theorem replaceChild_eq {t : RbTree P} {x : P} (L : Linked base h (Frame.plug p t))
    (top : t.top = some x) {h' : Heap P}
    (same : ∀ q, Frame.above p = some q → h'.mem q = h.mem q) (s : Side) (new : Option P) :
    replaceChild h' (Frame.above p) s x new = h'.hang p new := by
  cases p with
  | nil => rfl
  | cons f p =>
    have found := L.child_iff (top ▸ L.sibling_ne (top_mem top)) s
    rw [top] at found
    simp only [replaceChild, Frame.above_cons, Heap.hang, same f.x rfl, found]
    split
    · rename_i side
      rw [side]
    · rename_i side
      rw [Side.eq_flip_of_ne side]

/-- A rotation turns the tree and touches nothing else. -/
theorem rotate_linked {s : Side} {c d : Color} {a b e : RbTree P} {x y : P}
    (L : Linked base h (Frame.plug p (.join s c a x (.join s d b y e)))) :
    ∃ h', rotate s h x = some h' ∧
      Linked base h' (Frame.plug p (.join s d (.join s c a x b) y e)) := by
  obtain ⟨cellX, shapeA, shapeY⟩ := shape_join.mp L.inside
  obtain ⟨cellY, shapeB, shapeE⟩ := shape_join.mp shapeY
  obtain ⟨⟨xA, xY⟩, nodupA, nodupY, apartA⟩ := nodup_join.mp (List.nodup_append.mp L.apart).1
  obtain ⟨⟨yB, yE⟩, nodupB, nodupE, apartB⟩ := nodup_join.mp nodupY
  simp only [RbTree.mem_join, not_or, forall_and] at xY apartA
  obtain ⟨xy, xB, xE⟩ := xY
  have topB : ∀ {q}, q ∉ b.inorder → b.top ≠ some q := fun out eq => out (top_mem eq)
  let h₁ := (((h.setChild x s.flip b.top).adopt b.top (some x)).setChild y s (some x)).setParent y
    (Frame.above p)
  have atX : h₁.mem x = Cell.of (Frame.above p) c s a.top b.top := by
    simp [h₁, Heap.setParent, Heap.setChild, xy, topB xB, cellX]
  have atY : h₁.mem y = Cell.of (Frame.above p) d s (some x) e.top := by
    simp [h₁, Heap.setParent, Heap.setChild, Ne.symm xy, topB yB, cellY]
  have atB : ∀ q, b.top = some q → h₁.mem q = (h.mem q).setParent (some x) := by
    intro q top
    have qx : q ≠ x := fun eq => xB (eq ▸ top_mem top)
    have qy : q ≠ y := fun eq => yB (eq ▸ top_mem top)
    simp [h₁, Heap.setParent, Heap.setChild, qx, qy, top, Heap.adopt_mem]
  have off : ∀ q, q ≠ x → q ≠ y → b.top ≠ some q → h₁.mem q = h.mem q := by
    intro q qx qy top
    simp [h₁, Heap.setParent, Heap.setChild, qx, qy, top]
  have hung : replaceChild h₁ (Frame.above p) s x (some y) = h₁.hang p (some y) := by
    refine replaceChild_eq L (RbTree.top_join ..) (fun q up => off q ?_ ?_ ?_) s _
    · rintro rfl
      exact L.above_notMem (by simp [RbTree.mem_join]) up
    · rintro rfl
      exact L.above_notMem (by simp [RbTree.mem_join]) up
    · intro top
      exact L.above_notMem (by simp [RbTree.mem_join, top_mem top]) up
  refine ⟨(h₁.hang p (some y)).setParent x (some y), ?_, ?_⟩
  · rw [← hung]
    simp [rotate, cellX, cellY, h₁]
  have mem : ∀ {q}, q ≠ x → ((h₁.hang p (some y)).setParent x (some y)).mem q =
      (h₁.hang p (some y)).mem q := fun ne => Heap.modify_mem_ne _ (·.setParent (some y)) ne
  have inside : ∀ {q}, q ∈ (RbTree.join s c a x (.join s d b y e)).inorder →
      (h₁.hang p (some y)).mem q = h₁.mem q := fun mem => Heap.hang_mem_ne _ _ (L.above_notMem mem)
  simp only [RbTree.mem_join] at inside
  refine L.rebuild ?_ (shape_join.mpr ⟨?_, shape_join.mpr ⟨?_, ?_, ?_⟩, ?_⟩) ?_ ?_
  · rw [RbTree.inorder_turn]
  · rw [mem (Ne.symm xy), inside (by simp), atY, RbTree.top_join]
  · rw [Heap.setParent, Heap.modify_mem, inside (by simp), atX, Cell.of_setParent]
  · refine shapeA.congr fun q qa => ?_
    have qx : q ≠ x := fun eq => xA (eq ▸ qa)
    rw [mem qx, inside (by simp [qa]), off q qx ?_ (topB (apartA.2.1 q qa))]
    exact apartA.1 q qa
  · refine shapeB.reparent nodupB (fun q top => ?_) (fun q qb top => ?_)
    · have qb := top_mem top
      rw [mem fun eq => xB (eq ▸ qb), inside (by simp [qb]), atB q top]
    · have qx : q ≠ x := fun eq => xB (eq ▸ qb)
      rw [mem qx, inside (by simp [qb]), off q qx (fun eq => yB (eq ▸ qb)) top]
  · refine shapeE.congr fun q qe => ?_
    have qx : q ≠ x := fun eq => xE (eq ▸ qe)
    have qb : q ∉ b.inorder := fun qb => apartB q qb qe
    rw [mem qx, inside (by simp [qe]), off q qx (fun eq => yE (eq ▸ qe)) (topB qb)]
  · intro q out
    simp only [RbTree.mem_join, not_or] at out
    rw [mem out.1, RbTree.top_join]
    exact Heap.hang_mem_congr p _ (off q out.1 out.2.2.1 (topB out.2.2.2.1))
  · cases p with
    | nil => simp [Heap.hang, Heap.setParent]
    | cons f p => simp [h₁, Heap.hang, Heap.setParent, Heap.setChild]

/-! ### The loop of `rb_insert_color` -/

/-- The last step: the parent, in line with the node, comes up between the two. -/
theorem raise_linked {s : Side} {c d : Color} {t u v : RbTree P} {y z : P}
    (L : Linked base h (Frame.plug p (.join s c (.join s d t y u) z v))) :
    ∃ h', rotate s.flip ((h.setColor y .black).setColor z .red) z = some h' ∧
      Linked base h' (Frame.plug p (.join s .black t y (.join s .red u z v))) := by
  have painted : Linked base (h.setColor y .black)
      (Frame.plug (⟨s, c, z, v⟩ :: p) (.join s .black t y u)) :=
    Linked.paint (p := ⟨s, c, z, v⟩ :: p) L .black
  have painted := Linked.paint (p := p) painted .red
  rw [← RbTree.join_flip, ← RbTree.join_flip s] at painted
  obtain ⟨h', run, linked⟩ := rotate_linked painted
  rw [RbTree.join_flip, RbTree.join_flip] at linked
  exact ⟨h', run, linked⟩

/-- What the loop has got to: a red node with the rule broken at most between it and its parent. -/
structure Rising (base : P → Cell P) (h : Heap P) (p : List (Frame P)) (t : RbTree P) (x : P) :
    Prop where
  linked : Linked base h (Frame.plug p t)
  top : t.top = some x
  red : t.color = .red
  good : ∃ n, Frame.Good p n ∧ t.Good n

/-- With a black uncle the rotations end the climb. -/
theorem insertTurn_rising {fs gs : Side} {c : Color} {t u v : RbTree P} {x y z : P} {n : Nat}
    (L : Linked base h (Frame.plug (⟨fs, .red, y, u⟩ :: ⟨gs, c, z, v⟩ :: p) t))
    (top : t.top = some x) (red : t.color = .red) (good : t.Good n) (goodU : u.Good n)
    (blackU : u.color = .black) (goodV : v.Good n) (blackV : v.color = .black)
    (around : Frame.Good p (n + 1)) :
    ∃ h' x' f' t', insertTurn gs h x y z = some (h', x') ∧ Rising base h' (f' :: p) t' x' ∧
      (Frame.plug (f' :: p) t').inorder =
        (Frame.plug (⟨fs, .red, y, u⟩ :: ⟨gs, c, z, v⟩ :: p) t).inorder := by
  have found := L.child_iff (top ▸ L.sibling_ne (top_mem top)) gs.flip
  rw [top] at found
  by_cases side : fs = gs
  · subst side
    obtain ⟨h', run, linked⟩ := raise_linked L
    have straight : ¬(h.mem y).child fs.flip = some x := fun eq => Side.flip_ne _ (found.mp eq).symm
    refine ⟨h', x, ⟨fs, .black, y, .join fs .red u z v⟩, t, ?_, ⟨linked, top, red, n, ?_, good⟩, ?_⟩
    · simp [insertTurn, straight, run]
    · exact Frame.good_black.mpr ⟨RbTree.good_red.mpr ⟨goodU, goodV, blackU, blackV⟩, around⟩
    · exact Frame.inorder_plug_congr (p := p) (RbTree.inorder_rise ..)
  · have bent : fs = gs.flip := Side.eq_flip_of_ne side
    subst bent
    obtain ⟨a, x', b, rfl⟩ := RbTree.exists_red gs red
    obtain rfl : x' = x := Option.some.inj ((RbTree.top_join ..).symm.trans top)
    obtain ⟨goodA, goodB, blackA, blackB⟩ := RbTree.good_red.mp good
    have M : Linked base h (Frame.plug (⟨gs, c, z, v⟩ :: p)
        (.join gs .red u y (.join gs .red a x' b))) := by
      rw [Frame.plug_cons, RbTree.join_flip] at L
      exact L
    obtain ⟨h₁, first, turned⟩ := rotate_linked M
    obtain ⟨h', run, linked⟩ := raise_linked (p := p) turned
    refine ⟨h', y, ⟨gs, .black, x', .join gs .red b z v⟩, .join gs .red u y a, ?_,
      ⟨linked, RbTree.top_join .., RbTree.color_join .., n, ?_, ?_⟩, ?_⟩
    · simp [insertTurn, found, first, run]
    · exact Frame.good_black.mpr ⟨RbTree.good_red.mpr ⟨goodB, goodV, blackB, blackV⟩, around⟩
    · exact RbTree.good_red.mpr ⟨goodU, goodA, blackU, blackA⟩
    · refine Frame.inorder_plug_congr (p := p) ((RbTree.inorder_rise gs c .red ..).trans ?_)
      simp only [RbTree.join_flip]
      exact RbTree.inorder_join_congr (RbTree.inorder_turn ..) rfl

/-- One round: with the uncle red the break goes up by two, else it is gone. -/
theorem insertCase_rising {f g : Frame P} {t : RbTree P} {x : P}
    (R : Rising base h (f :: g :: p) t x) (red : f.color = .red) :
    ∃ h' x' p' t', insertCase g.side h x f.x g.x = some (h', x') ∧ Rising base h' p' t' x' ∧
      p'.length < p.length + 2 ∧
      (Frame.plug p' t').inorder = (Frame.plug (f :: g :: p) t).inorder := by
  obtain ⟨L, top, isRed, n, path, good⟩ := R
  obtain ⟨fs, fc, y, u⟩ := f
  obtain ⟨gs, gc, z, v⟩ := g
  obtain rfl : fc = .red := red
  obtain ⟨sibling, siblingBlack, black, path⟩ := Frame.good_red.mp path
  obtain rfl : gc = .black := black
  obtain ⟨uncle, around⟩ := Frame.good_black.mp path
  have M : Linked base h (Frame.plug (⟨gs, .black, z, v⟩ :: p) (.join fs .red t y u)) := L
  have atZ := M.parentCell
  have atV : ∀ {w}, v.top = some w → (h.mem w).color = v.color := fun top => (M.sibling.topCell top).2
  cases vColor : v.color with
  | red =>
    obtain ⟨v₁, w, v₂, rfl⟩ := RbTree.exists_red gs vColor
    obtain ⟨near, far, -⟩ := RbTree.good_red.mp uncle
    have wRed := atV (RbTree.top_join ..)
    refine ⟨((h.setColor w .black).setColor y .black).setColor z .red, z, p,
      .join gs .red (.join fs .black t y u) z (.join gs .black v₁ w v₂), ?_,
      ⟨?_, RbTree.top_join .., RbTree.color_join .., n + 1, around, ?_⟩, by omega, ?_⟩
    · simp [insertCase, atZ, wRed]
    · have paintW := Linked.paint (p := _ :: p) M.sibling .black
      have paintY := Linked.paint (p := _ :: p) paintW.sibling .black
      rw [Side.flip_flip] at paintY
      exact Linked.paint (p := p) paintY .red
    · exact RbTree.good_red.mpr ⟨RbTree.good_black.mpr ⟨good, sibling⟩,
        RbTree.good_black.mpr ⟨near, far⟩, RbTree.color_join .., RbTree.color_join ..⟩
    · refine Frame.inorder_plug_congr (p := p) ?_
      exact RbTree.inorder_join_congr (RbTree.inorder_join_congr rfl rfl)
        (RbTree.inorder_join_congr rfl rfl)
  | black =>
    obtain ⟨h', x', f', t', run, rising, same⟩ :=
      insertTurn_rising L top isRed good sibling siblingBlack uncle vColor around
    refine ⟨h', x', f' :: p, t', ?_, rising, by simp, same⟩
    have child : (h.mem z).child gs.flip = v.top := by rw [atZ, Cell.of_child_flip]
    rw [insertCase, child]
    cases vTop : v.top with
    | none => exact run
    | some w =>
      have notRed : (h.mem w).color ≠ .red := by
        rw [atV vTop, vColor]
        decide
      simpa only [if_neg notRed] using run

/-- The loop as a whole, which takes fewer rounds than the way up is long. -/
theorem insertColor_rising {fuel : Nat} {t : RbTree P} {x : P} (R : Rising base h p t x)
    (rounds : p.length < fuel) :
    ∃ h' t', insertColor fuel h x = some h' ∧ Linked base h' t' ∧ t'.RedBlack ∧
      t'.inorder = (Frame.plug p t).inorder := by
  induction fuel generalizing h p t x with
  | zero => omega
  | succ fuel ih =>
    obtain ⟨n, path, good⟩ := R.good
    obtain ⟨toParent, -⟩ := R.linked.topCell R.top
    cases p with
    | nil =>
      have whole : Linked base h t := R.linked
      obtain ⟨r, root, painted⟩ := whole.paintRoot (RbTree.ne_nil_of_red R.red) .black
      refine ⟨h.setColor r .black, t.paint .black, ?_, painted,
        ⟨RbTree.color_paint_black t, n + 1, good.paint_black R.red⟩, RbTree.inorder_paint ..⟩
      simp [insertColor, toParent, root]
    | cons f p =>
      have parent := R.linked.parentCell
      cases fColor : f.color with
      | black =>
        have whole : (Frame.plug (f :: p) t).RedBlack :=
          Frame.redBlack_plug.mpr ⟨n, path, good, fun _ => fColor⟩
        have nonempty : Frame.plug (f :: p) t ≠ .nil := by
          intro none
          have mem := (Frame.perm_plug (f :: p) t).mem_iff.mpr
            (List.mem_append_left _ (top_mem R.top))
          rw [none] at mem
          cases mem
        obtain ⟨r, root, painted⟩ := Linked.paintRoot R.linked nonempty .black
        have asItWas : (Frame.plug (f :: p) t).paint .black = Frame.plug (f :: p) t := by
          rw [← whole.1, RbTree.paint_color]
        rw [asItWas] at painted
        refine ⟨h.setColor r .black, Frame.plug (f :: p) t, ?_, painted, whole, rfl⟩
        simp [insertColor, toParent, parent, fColor, root]
      | red =>
        cases p with
        | nil => nomatch (path.2.1 fColor).2
        | cons g p =>
          obtain ⟨h₁, x', p', t', round, rising, shorter, same⟩ := insertCase_rising R fColor
          have M : Linked base h (Frame.plug (g :: p) (.join f.side f.color t f.x f.sibling)) :=
            R.linked
          have side : (if (h.mem g.x).left = some f.x then Side.left else Side.right) = g.side := by
            have found := M.child_iff (t := .join f.side f.color t f.x f.sibling) (by
              rw [RbTree.top_join]
              exact M.sibling_ne (RbTree.mem_join.mpr (Or.inl rfl))) .left
            rw [RbTree.top_join] at found
            simp only [Cell.child] at found
            split
            · rename_i left
              exact (found.mp left).symm
            · rename_i right
              exact (Side.eq_flip_of_ne (fun eq => right (found.mpr eq))).symm
          obtain ⟨h', u, run, linked, redBlack, order⟩ := ih rising (by simp at rounds; omega)
          refine ⟨h', u, ?_, linked, redBlack, order.trans same⟩
          simp [insertColor, toParent, parent, fColor, side, round, run]

/-- A node linked in where the way down ends. -/
theorem linkNode_rising {x : P} (L : Linked base h (Frame.plug p .nil))
    (redBlack : (Frame.plug p (.nil : RbTree P)).RedBlack) (new : x ∉ Frame.addresses p) {s : Side}
    (side : ∀ f ∈ p.head?, f.side = s) :
    Rising base (linkNode h x (Frame.above p) s) p (.node .red .nil x .nil) x := by
  obtain ⟨n, path, rfl, -⟩ := Frame.redBlack_plug.mp redBlack
  have linked : linkNode h x (Frame.above p) s =
      (h.modify x fun _ => ⟨Frame.above p, .red, none, none⟩).hang p (some x) := by
    cases p with
    | nil => rfl
    | cons f p =>
      rw [← side f rfl]
      rfl
  have above : Frame.above p ≠ some x := fun eq => new (above_mem eq)
  refine ⟨?_, rfl, rfl, 0, path, ⟨0, rfl, rfl, rfl, fun _ => ⟨rfl, rfl⟩⟩⟩
  rw [linked]
  have placed := L.replace
    ((h.modify x fun _ => ⟨Frame.above p, .red, none, none⟩).hang p (some x))
    (.node .red .nil x .nil)
    (by simp [RbTree.inorder]) (by simpa [RbTree.inorder] using new) ?_ ?_ ?_
  · simpa using placed
  · refine ⟨?_, trivial, trivial⟩
    rw [Heap.hang_mem_ne _ _ above, Heap.modify_mem]
    rfl
  · intro q _ out
    have ne : q ≠ x := by simpa [RbTree.inorder] using out
    exact Heap.hang_mem_congr p _ (Heap.modify_mem_ne _ _ ne)
  · cases p with
    | nil => rfl
    | cons f p => rfl

/-- `rb_link_node` and `rb_insert_color`: the new node stands where it was linked in, the rule holds
again, and no cell but those of the tree has changed. -/
theorem insert_linked {x : P} (L : Linked base h (Frame.plug p .nil))
    (redBlack : (Frame.plug p (.nil : RbTree P)).RedBlack)
    (new : x ∉ (Frame.plug p (.nil : RbTree P)).inorder) {s : Side} (side : ∀ f ∈ p.head?, f.side = s)
    {fuel : Nat} (rounds : (Frame.plug p (.nil : RbTree P)).depth < fuel) :
    ∃ h' T', insertColor fuel (linkNode h x (Frame.above p) s) x = some h' ∧ Linked base h' T' ∧
      T'.RedBlack ∧ T'.inorder = Frame.before p ++ x :: Frame.behind p := by
  have outside : x ∉ Frame.addresses p := fun mem =>
    new ((Frame.perm_plug p .nil).mem_iff.mpr (List.mem_append_right _ mem))
  obtain ⟨h', T', run, linked, redBlack', order⟩ :=
    insertColor_rising (linkNode_rising L redBlack outside side)
      (Nat.lt_of_le_of_lt redBlack.length_le rounds)
  refine ⟨h', T', run, linked, redBlack', order.trans ?_⟩
  simp [Frame.inorder_plug, RbTree.inorder]

/-- Two nodes, 3 above 5. -/
def twoNodes : Heap Nat :=
  ⟨fun q => if q = 3 then ⟨none, .black, some 5, none⟩ else ⟨some 3, .red, none, none⟩, some 3⟩

theorem twoNodes_linked :
    Linked (fun _ => ⟨some 3, .red, none, none⟩) twoNodes
      (.node .black .nil 3 (.node .red .nil 5 .nil)) :=
  ⟨⟨rfl, trivial, rfl, trivial, trivial⟩, rfl, by decide, fun q out => by
    have ne : q ≠ 3 := fun eq => out (by simp [eq, RbTree.inorder])
    simp [twoNodes, ne]⟩

theorem twoNodes_redBlack :
    (RbTree.node .black .nil 3 (.node .red .nil 5 .nil)).RedBlack :=
  ⟨rfl, 1, 0, rfl, rfl, ⟨0, rfl, rfl, rfl, fun _ => ⟨rfl, rfl⟩⟩, fun h => nomatch h⟩

/-- A third node, below the red one: the tree turns about 3, and 5 stands above. -/
theorem insert_linked_below :
    ∃ (h' : Heap Nat) (T' : RbTree Nat),
      insertColor 3 (linkNode twoNodes 7 (some 5) .right) 7 = some h' ∧
        Linked (fun _ => ⟨some 3, .red, none, none⟩) h' T' ∧ T'.RedBlack ∧ T'.inorder = [3, 5, 7] :=
  insert_linked (p := [⟨.right, .red, 5, .nil⟩, ⟨.right, .black, 3, .nil⟩]) twoNodes_linked
    twoNodes_redBlack (by decide) (fun _ head => by cases head; rfl) (by decide)

end
end Simtrace2.Rbtree
