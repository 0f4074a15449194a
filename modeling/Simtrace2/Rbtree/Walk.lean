import Simtrace2.Rbtree.Insert

/-! How `rbtree.c` goes through a tree: down to its ends, and from a node to its neighbours. The
loops are given the rounds that they may take. -/
namespace Simtrace2.Rbtree
open Lib

variable {P : Type} [DecidableEq P]

/-- `while (n->rb_left) n = n->rb_left`, and the same to the right. -/
def extreme (s : Side) : Nat → Heap P → P → Option P
  | 0, _, _ => none
  | fuel + 1, h, n =>
    match (h.mem n).child s with
    | some n => extreme s fuel h n
    | none => some n

def endOf (s : Side) (fuel : Nat) (h : Heap P) : Option (Option P) :=
  match h.root with
  | none => some none
  | some n => (extreme s fuel h n).map some

def first (fuel : Nat) (h : Heap P) : Option (Option P) := endOf .left fuel h

def last (fuel : Nat) (h : Heap P) : Option (Option P) := endOf .right fuel h

/-- Up as long as the node is the child on side `s`. -/
def climb (s : Side) : Nat → Heap P → P → Option (Option P)
  | 0, _, _ => none
  | fuel + 1, h, node =>
    match (h.mem node).parent with
    | none => some none
    | some parent =>
      if (h.mem parent).child s = some node then climb s fuel h parent else some (some parent)

def neighbour (s : Side) (fuel : Nat) (h : Heap P) (node : P) : Option (Option P) :=
  if (h.mem node).parent = some node then some none
  else
    match (h.mem node).child s with
    | some n => (extreme s.flip fuel h n).map some
    | none => climb s fuel h node

def next (fuel : Nat) (h : Heap P) (node : P) : Option (Option P) := neighbour .right fuel h node

def prev (fuel : Nat) (h : Heap P) (node : P) : Option (Option P) := neighbour .left fuel h node

section
omit [DecidableEq P]
variable {base : P → Cell P} {h : Heap P} {p : List (Frame P)} {t : RbTree P}

/-- The nodes of a subtree as they come from side `s`. -/
def order (s : Side) (t : RbTree P) : List P :=
  match s with
  | .left => t.inorder
  | .right => t.inorder.reverse

theorem order_join (s : Side) (c : Color) (a b : RbTree P) (x : P) :
    order s (.join s c a x b) = order s a ++ x :: order s b := by
  cases s <;> simp [order, RbTree.join, RbTree.inorder]

theorem mem_order {s : Side} {q : P} : q ∈ order s t ↔ q ∈ t.inorder := by
  cases s <;> simp [order]

/-- What is still to come behind a subtree that one goes through towards side `s`. -/
def ahead (s : Side) : List (Frame P) → List P
  | [] => []
  | f :: p => if f.side = s then ahead s p else f.x :: order s.flip f.sibling ++ ahead s p

theorem exists_order_plug (s : Side) (p : List (Frame P)) :
    ∃ past, ∀ t : RbTree P, order s.flip (Frame.plug p t) = past ++ order s.flip t ++ ahead s p := by
  induction p with
  | nil => exact ⟨[], fun t => by simp [ahead]⟩
  | cons f p ih =>
    obtain ⟨past, split⟩ := ih
    by_cases side : f.side = s
    · refine ⟨past ++ order s.flip f.sibling ++ [f.x], fun t => ?_⟩
      rw [Frame.plug_cons, split, ← RbTree.join_flip, side, order_join, ahead, if_pos side]
      simp
    · refine ⟨past, fun t => ?_⟩
      rw [Frame.plug_cons, split, Side.eq_flip_of_ne side, order_join, ahead, if_neg side]
      simp

/-- The end on side `s` of a subtree, on a way down that stays on that side. -/
theorem extreme_linked (s : Side) {x : P} (L : Linked base h (Frame.plug p t))
    (top : t.top = some x) :
    ∃ q d y z, t = Frame.plug q (.join s d .nil y z) ∧ (∀ f ∈ q, f.side = s) ∧
      ∀ fuel, q.length < fuel → extreme s fuel h x = some y := by
  induction t using RbTree.join_induction s generalizing p x with
  | nil => cases top
  | join c a x' b ih _ =>
    obtain rfl : x' = x := Option.some.inj ((RbTree.top_join ..).symm.trans top)
    have child : (h.mem x').child s = a.top := by rw [L.cell, Cell.of_child]
    cases aTop : a.top with
    | none =>
      obtain rfl : a = .nil := by
        cases a with
        | nil => rfl
        | node => cases aTop
      refine ⟨[], c, x', b, rfl, by simp, fun fuel more => ?_⟩
      obtain ⟨fuel, rfl⟩ := Nat.exists_eq_succ_of_ne_zero (Nat.ne_of_gt more)
      simp [extreme, child]
    | some w =>
      obtain ⟨q, d, y, z, rfl, sides, run⟩ := ih (p := ⟨s, c, x', b⟩ :: p) L aTop
      refine ⟨q ++ [⟨s, c, x', b⟩], d, y, z, by rw [Frame.plug_append]; rfl, ?_, fun fuel more => ?_⟩
      · intro f mem
        rcases List.mem_append.mp mem with inside | last
        · exact sides f inside
        · rw [List.mem_singleton.mp last]
      · rw [List.length_append] at more
        obtain ⟨fuel, rfl⟩ := Nat.exists_eq_succ_of_ne_zero (Nat.ne_of_gt (Nat.zero_lt_of_lt more))
        rw [extreme, child, aTop]
        exact run fuel (Nat.lt_of_succ_lt_succ more)

/-- On the side that a way down stays on nothing comes before what hangs there. -/
theorem exists_order_side {s : Side} {q : List (Frame P)} (sides : ∀ f ∈ q, f.side = s) :
    ∃ rest, ∀ t : RbTree P, order s (Frame.plug q t) = order s t ++ rest := by
  induction q with
  | nil => exact ⟨[], fun t => by simp⟩
  | cons f q ih =>
    obtain ⟨rest, split⟩ := ih fun g mem => sides g (List.mem_cons_of_mem _ mem)
    refine ⟨f.x :: order s f.sibling ++ rest, fun t => ?_⟩
    rw [Frame.plug_cons, split, sides f List.mem_cons_self, order_join]
    simp

/-- The end of a subtree is its first node from that side. -/
theorem extreme_head (s : Side) {x : P} (L : Linked base h (Frame.plug p t)) (top : t.top = some x)
    (fuel : Nat) (rounds : (Frame.plug p t).RedBlack ∧ (Frame.plug p t).depth < fuel) :
    (extreme s fuel h x).map some = some (order s t).head? := by
  obtain ⟨q, d, y, z, rfl, sides, run⟩ := extreme_linked s L top
  have depth : (q ++ p).length ≤ (Frame.plug p (Frame.plug q (.join s d .nil y z))).depth := by
    have := rounds.1
    rw [← Frame.plug_append] at this ⊢
    exact this.length_le
  obtain ⟨rest, split⟩ := exists_order_side sides
  rw [List.length_append] at depth
  rw [run fuel (by omega), split, order_join]
  cases s <;> rfl

end

section
variable {base : P → Cell P} {h : Heap P} {p : List (Frame P)} {t : RbTree P}

theorem climb_linked (s : Side) {x : P} (L : Linked base h (Frame.plug p t)) (top : t.top = some x)
    {fuel : Nat} (rounds : p.length < fuel) : climb s fuel h x = some (ahead s p).head? := by
  induction p generalizing t x fuel with
  | nil =>
    obtain ⟨fuel, rfl⟩ := Nat.exists_eq_succ_of_ne_zero (Nat.ne_of_gt rounds)
    simp [climb, (L.topCell top).1, ahead]
  | cons f p ih =>
    obtain ⟨fuel, rfl⟩ := Nat.exists_eq_succ_of_ne_zero (Nat.ne_of_gt (Nat.zero_lt_of_lt rounds))
    have found := L.child_iff (top ▸ L.sibling_ne (top_mem top)) s
    have parent : (h.mem x).parent = some f.x := (L.topCell top).1
    have up := ih L (RbTree.top_join ..) (Nat.lt_of_succ_lt_succ rounds)
    rw [top] at found
    simp only [climb, parent, found, ahead]
    split
    · exact up
    · rfl

/-- From a node to the one that comes next towards side `s`. -/
theorem neighbour_linked (s : Side) {T : RbTree P} (L : Linked base h T) (redBlack : T.RedBlack)
    {fuel : Nat} (rounds : T.depth < fuel) {x : P} (past ahead : List P)
    (split : order s.flip T = past ++ x :: ahead) : neighbour s fuel h x = some ahead.head? := by
  obtain ⟨p, t, rfl, a, c, b, join⟩ : ∃ p t, T = Frame.plug p t ∧ ∃ a c b, t = .join s.flip c a x b := by
    obtain ⟨p, c, l, r, rfl⟩ := Frame.exists_plug (mem_order.mp (by rw [split]; simp) : x ∈ T.inorder)
    refine ⟨p, _, rfl, ?_⟩
    cases s with
    | left => exact ⟨r, c, l, rfl⟩
    | right => exact ⟨l, c, r, rfl⟩
  subst join
  have coming : ahead = order s.flip b ++ Rbtree.ahead s p := by
    obtain ⟨before, here⟩ := exists_order_plug s p
    have nodup : (order s.flip (Frame.plug p (.join s.flip c a x b))).Nodup := by
      cases s with
      | left => exact List.nodup_reverse.mpr L.nodup
      | right => exact L.nodup
    have both := (here _).symm.trans split
    rw [order_join, List.append_assoc, List.append_assoc, List.cons_append, ← List.append_assoc] at both
    rw [split, List.nodup_middle, List.nodup_cons, List.mem_append, not_or] at nodup
    exact ((List.append_cons_inj_of_notMem nodup.1.1 nodup.1.2).mp both.symm).2.2
  have child : (h.mem x).child s = b.top := by
    have := L.cell
    rw [this, ← Cell.of_flip, Side.flip_flip, Cell.of_child]
  have parent : (h.mem x).parent ≠ some x := by
    rw [L.cell, Cell.of_parent]
    exact L.above_notMem (RbTree.mem_join.mpr (Or.inl rfl))
  rw [neighbour, if_neg parent, child, coming]
  cases bTop : b.top with
  | none =>
    obtain rfl : b = .nil := by
      cases b with
      | nil => rfl
      | node => cases bTop
    have up := climb_linked s L (RbTree.top_join ..)
      (Nat.lt_of_le_of_lt redBlack.length_le rounds)
    rw [up]
    cases s <;> rfl
  | some w =>
    have far := L.far
    rw [Side.flip_flip] at far
    have down := extreme_head s.flip (p := ⟨s, c, x, a⟩ :: p) far bTop fuel
      (by
        rw [Frame.plug_cons, ← RbTree.join_flip]
        exact ⟨redBlack, rounds⟩)
    simp only [down]
    obtain ⟨d, a', y, b', rfl⟩ := RbTree.exists_join s.flip (t := b) (by rintro rfl; cases bTop)
    rw [order_join]
    cases order s.flip a' <;> rfl

theorem neighbour_linked_back : neighbour .left 3 twoNodes 5 = some (some 3) :=
  neighbour_linked .left twoNodes_linked twoNodes_redBlack (by decide) [] [3] rfl

omit [DecidableEq P] in
/-- The first node from either side. -/
theorem endOf_linked (s : Side) {T : RbTree P} (L : Linked base h T) (redBlack : T.RedBlack)
    {fuel : Nat} (rounds : T.depth < fuel) : endOf s fuel h = some (order s T).head? := by
  rw [endOf, L.root]
  cases T with
  | nil => cases s <;> rfl
  | node c l x r => exact extreme_head s (p := []) L rfl fuel ⟨redBlack, rounds⟩

end
end Simtrace2.Rbtree
