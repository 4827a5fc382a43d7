import FreeFlow.Found.RedBlack

/-!
# The tree of memory ranges

`libibverbs` keeps the ranges that are not to be copied by a `fork` in a red-black tree with parent
pointers. The functions on the tree start at a node and climb: a place with the frames above it is
what they see. `none` stands for the use of a null pointer.

* `mmAddRebalance`, `mmRemoveRebalance` — the loops that climb; `siblingStep` — a round of the
  second.
* `mmAddRebalance_balanced`, `mmRemoveAt_spec` — in a balanced tree no null pointer is used, the
  elements stay in order, and the tree is balanced again.
* `mmPrev`, `mmNext`, `mmPrev_eq`, `mmNext_eq` — the neighbours of a node in the order.

Source: `memory.c` `__mm_prev`, `__mm_next`, `__mm_rotate_right`, `__mm_rotate_left`,
`__mm_add_rebalance`, `__mm_add`, `__mm_remove`.
-/

namespace FreeFlow.Fork

open FreeFlow.Found RbTree

variable {α : Type*}

/-! ## Neighbours -/

/-- The last node of a tree and its place, below the given one. Source: `memory.c` `__mm_prev`,
`__mm_remove`. Kind: D -/
def lastPlace : RbTree α → List (Frame α) → RbTree α × List (Frame α)
  | .nil, p => (.nil, p)
  | .node c l a .nil, p => (.node c l a .nil, p)
  | .node c l a (.node c' l' a' r'), p => lastPlace (.node c' l' a' r') (⟨.right, c, a, l⟩ :: p)

/-- The last element. Source: `memory.c` `__mm_prev`. Kind: D -/
def last? : RbTree α → Option α
  | .nil => none
  | .node _ _ a .nil => some a
  | .node _ _ _ (.node c l a r) => last? (.node c l a r)

/-- The first element. Source: `memory.c` `__mm_next`. Kind: D -/
def first? : RbTree α → Option α
  | .nil => none
  | .node _ .nil a _ => some a
  | .node _ (.node c l a r) _ _ => first? (.node c l a r)

/-- The first node on the way up that is left on this side. Source: `memory.c` `__mm_prev`,
`__mm_next`. Kind: D -/
def climb (b : Branch) : List (Frame α) → Option α
  | [] => none
  | f :: p => if f.branch = b then climb b p else some f.elem

/-- `__mm_prev`. Source: `memory.c`. Kind: D -/
def mmPrev : RbTree α → List (Frame α) → Option α
  | .node _ (.node c l a r) _ _, _ => last? (.node c l a r)
  | _, p => climb .left p

/-- `__mm_next`. Source: `memory.c`. Kind: D -/
def mmNext : RbTree α → List (Frame α) → Option α
  | .node _ _ _ (.node c l a r), _ => first? (.node c l a r)
  | _, p => climb .right p

/-- The last element in order. Kind: L -/
lemma last?_eq (t : RbTree α) : last? t = t.toList.getLast? := by
  induction t with
  | nil => rfl
  | node c l a r _ ihr =>
      cases r with
      | nil => simp [last?]
      | node c' l' a' r' =>
          rw [last?, ihr, toList_node c, List.getLast?_append_of_ne_nil _ (by simp),
            List.getLast?_cons_of_ne_nil (by simp)]

/-- The first element in order. Kind: L -/
lemma first?_eq (t : RbTree α) : first? t = t.toList.head? := by
  induction t with
  | nil => rfl
  | node c l a r ihl _ =>
      cases l with
      | nil => simp [first?]
      | node c' l' a' r' =>
          rw [first?, ihl, toList_node, toList_node, toList_node, List.head?_append]
          simp

/-- The way up to the element before a place. Kind: L -/
lemma climb_left (p : List (Frame α)) : climb .left p = (before p).getLast? := by
  induction p with
  | nil => rfl
  | cons f p ih =>
      obtain ⟨b, c, a, s⟩ := f
      cases b
      · simpa [climb, before] using ih
      · simp [climb, before]

/-- The way up to the element behind a place. Kind: L -/
lemma climb_right (p : List (Frame α)) : climb .right p = (behind p).head? := by
  induction p with
  | nil => rfl
  | cons f p ih =>
      obtain ⟨b, c, a, s⟩ := f
      cases b
      · simp [climb, behind]
      · simpa [climb, behind] using ih

/-- **`__mm_prev` gives the element before.** Kind: L -/
lemma mmPrev_eq (c : Color) (l : RbTree α) (a : α) (r : RbTree α) (p : List (Frame α)) :
    mmPrev (.node c l a r) p = (before p ++ l.toList).getLast? := by
  cases l with
  | nil => simp [mmPrev, climb_left]
  | node c' l' a' r' =>
      rw [mmPrev, last?_eq, List.getLast?_append_of_ne_nil _ (by simp)]

/-- **`__mm_next` gives the element behind.** Kind: L -/
lemma mmNext_eq (c : Color) (l : RbTree α) (a : α) (r : RbTree α) (p : List (Frame α)) :
    mmNext (.node c l a r) p = (r.toList ++ behind p).head? := by
  cases r with
  | nil => simp [mmNext, climb_right]
  | node c' l' a' r' =>
      rw [mmNext, first?_eq, toList_node, List.head?_append, List.head?_append]
      simp

/-! ## Adding a node -/

/-- The rotations at the end of `__mm_add_rebalance`, of the subtree at the grandparent `gp`: a node
on the inner side first takes the place of its parent. Source: `memory.c` `__mm_add_rebalance`.
Kind: D -/
def mmAddRotate (t : RbTree α) (parent gp : Frame α) : RbTree α :=
  let top := if parent.branch = gp.branch then parent.fill t
    else (parent.fill t).rotate gp.branch
  ({ gp with color := .red }.fill (top.setColor .black)).rotate gp.branch.flip

/-- `__mm_add_rebalance`. The node at the place is red; the loop climbs while its parent is red, and
in the end makes the root black. Where the source asks on which side the parent and the node are,
the rotations take the branch. Source: `memory.c`. Kind: D -/
def mmAddRebalance : RbTree α → List (Frame α) → Option (RbTree α)
  | t, [] => some (t.setColor .black)
  | t, [parent] =>
      if parent.color = .black then some ((parent.fill t).setColor .black) else none
  | t, parent :: gp :: path =>
      if parent.color = .black then some ((plug t (parent :: gp :: path)).setColor .black)
      else if gp.other.isRed then
        mmAddRebalance ({ gp with color := .red, other := gp.other.setColor .black }.fill
          ({ parent with color := .black }.fill t)) path
      else some ((plug (mmAddRotate t parent gp) path).setColor .black)

/-- The order of the elements does not depend on the colours. Kind: L -/
lemma toList_fill (f : Frame α) (t : RbTree α) :
    (f.fill t).toList = match f.branch with
      | .left => t.toList ++ f.elem :: f.other.toList
      | .right => f.other.toList ++ f.elem :: t.toList := by
  obtain ⟨b, c, a, s⟩ := f
  cases b <;> rfl

/-- The rotations keep the elements in order. Kind: L -/
lemma toList_mmAddRotate (t : RbTree α) (parent gp : Frame α) :
    (mmAddRotate t parent gp).toList = (gp.fill (parent.fill t)).toList := by
  unfold mmAddRotate
  split_ifs <;> simp only [toList_rotate, toList_fill, toList_setColor]

/-- A rebalancing keeps the elements in order. Kind: L -/
lemma toList_mmAddRebalance {s t : RbTree α} {p : List (Frame α)}
    (h : mmAddRebalance s p = some t) : t.toList = before p ++ s.toList ++ behind p := by
  fun_induction mmAddRebalance s p with
  | case1 s =>
      obtain rfl := Option.some.inj h
      simp [before, behind]
  | case2 s parent _ =>
      obtain rfl := Option.some.inj h
      rw [toList_setColor, ← toList_plug, plug, plug]
  | case3 => simp at h
  | case4 s parent gp path _ =>
      obtain rfl := Option.some.inj h
      rw [toList_setColor, toList_plug]
  | case5 s parent gp path _ _ ih =>
      rw [ih h, ← before_append_fill, ← before_append_fill]
      simp only [toList_fill, toList_setColor]
  | case6 s parent gp path =>
      obtain rfl := Option.some.inj h
      rw [toList_setColor, toList_plug, ← before_append_fill, ← before_append_fill,
        toList_mmAddRotate]

/-- A red node below a red one: after the rotations the subtree has a black root and the same number
of black nodes. Kind: L -/
lemma mmAddRotate_balanced {t s s' : RbTree α} {n : ℕ} (ht : t.Balanced .red n)
    (hs : s.Balanced .black n) (hs' : s'.Balanced .black n) (b b' : Branch) (a a' : α) :
    (mmAddRotate t ⟨b, .red, a, s⟩ ⟨b', .black, a', s'⟩).Balanced .black (n + 1) := by
  unfold mmAddRotate
  simp only [Frame.fill]
  split_ifs with hb
  · subst hb
    rw [setColor_join, rotate_flip_join]
    exact ht.join_black (hs.join_red hs')
  · -- the node is on the inner side of its parent
    obtain rfl : b = b'.flip := by cases b <;> cases b' <;> simp_all [Branch.flip]
    obtain ⟨x, d, y, rfl, hx, hy⟩ := ht.exists_join_red b'
    rw [join_flip, rotate_join, setColor_join, rotate_flip_join]
    exact (hs.join_red hx).join_black (hy.join_red hs')

/-- **A red node at a place for a black one** leads to a balanced tree, and the parent of a red
parent is there. Kind: L -/
lemma mmAddRebalance_balanced {t : RbTree α} {p : List (Frame α)} {n : ℕ} (ht : t.Balanced .red n)
    (hp : Hole p .black n) : ∃ t' m, mmAddRebalance t p = some t' ∧ t'.Balanced .black m := by
  fun_induction mmAddRebalance t p generalizing n with
  | case1 t => exact ⟨_, n + 1, rfl, ht.setBlack⟩
  | case2 t parent hblack =>
      obtain ⟨b, c, a, s⟩ := parent
      obtain rfl : c = .black := hblack
      obtain ⟨⟨c', hs⟩, -⟩ := hp
      have hfill : (Frame.fill ⟨b, .black, a, s⟩ t).Balanced .black (n + 1) := ht.join_black hs
      exact ⟨_, n + 1, rfl, by rw [hfill.setColor_eq]; exact hfill⟩
  | case3 t parent hblack => exact absurd (hp.cases_cons hblack).2.2.2 (by simp [Hole])
  | case4 t parent gp path hblack =>
      obtain ⟨b, c, a, s⟩ := parent
      obtain rfl : c = .black := hblack
      obtain ⟨⟨c', hs⟩, hpath⟩ := hp
      obtain ⟨m, hm⟩ := ht.plug (Hole.cons_black (b := b) (a := a) hs hpath .red)
      exact ⟨_, m, rfl, by rw [hm.setColor_eq]; exact hm⟩
  | case5 t parent gp path hblack huncle ih =>
      obtain ⟨-, hparent, hs, hgp⟩ := hp.cases_cons hblack
      obtain ⟨b', a', s', q, c', heq, hs', hpath⟩ := hgp.cases_red
      obtain ⟨rfl, rfl⟩ := List.cons.inj heq
      cases c' with
      | black => exact absurd (hs'.isRed_eq.symm.trans huncle) (by decide)
      | red => exact ih ((ht.join_black hs).join_red hs'.setBlack) hpath
  | case6 t parent gp path hblack huncle =>
      obtain ⟨-, hparent, hs, hgp⟩ := hp.cases_cons hblack
      obtain ⟨b', a', s', q, c', heq, hs', hpath⟩ := hgp.cases_red
      obtain ⟨rfl, rfl⟩ := List.cons.inj heq
      have hs' := hs'.of_isRed_eq_false (by simpa using huncle)
      rw [hparent]
      obtain ⟨m, hm⟩ := (mmAddRotate_balanced ht hs hs' parent.branch b' parent.elem a').plug hpath
      exact ⟨_, m, rfl, by rw [hm.setColor_eq]; exact hm⟩

/-! ## Removing a node -/

/-- The child on the far side made black, if any. Source: `memory.c` `__mm_remove`. Kind: D -/
def paintFar : Branch → RbTree α → RbTree α
  | _, .nil => .nil
  | .left, .node c l a r => .node c l a (r.setColor .black)
  | .right, .node c l a r => .node c (l.setColor .black) a r

/-- A round of the loop of `__mm_remove`, behind the test for a red sibling: the subtree that takes
the place of the parent, and whether the loop goes on from there. Source: `memory.c` `__mm_remove`.
Kind: D -/
def siblingStep (t : RbTree α) (parent : Frame α) : Option (RbTree α × Bool) :=
  match parent.other with
  | .nil => none
  | .node c l a r =>
      let b := parent.branch
      let near := (RbTree.node c l a r).child b
      let far := (RbTree.node c l a r).child b.flip
      if near.isRed = false ∧ far.isRed = false then
        some ({ parent with other := .node .red l a r }.fill t, true)
      else
        let sib := if far.isRed then .node c l a r
          else (join b .red (near.setColor .black) a far).rotate b.flip
        some
          ((join b .black t parent.elem (paintFar b (sib.setColor parent.color))).rotate b, false)

/-- The loop of `__mm_remove`: the subtree at the place has a black node less than it should. It
ends at a red node, which becomes black, or at the root. A red sibling is first rotated up; the
parent is red then, so that the loop does not go on behind it. Source: `memory.c` `__mm_remove`.
Kind: D -/
def mmRemoveRebalance : RbTree α → List (Frame α) → Option (RbTree α)
  | t, [] => some (t.setColor .black)
  | t, parent :: path =>
      if t.isRed then some (plug (t.setColor .black) (parent :: path))
      else if parent.other.isRed then
        match parent.other with
        | .nil => none
        | .node c l a r =>
            let b := parent.branch
            let near := (RbTree.node c l a r).child b
            let far := (RbTree.node c l a r).child b.flip
            match siblingStep t { parent with color := .red, other := near } with
            | none => none
            | some (s, true) => some (plug (s.setColor .black) (⟨b, .black, a, far⟩ :: path))
            | some (s, false) => some ((plug s (⟨b, .black, a, far⟩ :: path)).setColor .black)
      else
        match siblingStep t parent with
        | none => none
        | some (s, true) => mmRemoveRebalance s path
        | some (s, false) => some ((plug s path).setColor .black)

/-- `__mm_remove`, at the place of a node. With two children the last node before it takes its place
and its colour. Source: `memory.c`. Kind: D -/
def mmRemoveAt : RbTree α → List (Frame α) → Option (RbTree α)
  | .nil, _ => none
  | .node c .nil _ r, path => if c = .red then some (plug r path) else mmRemoveRebalance r path
  | .node c l _ .nil, path => if c = .red then some (plug l path) else mmRemoveRebalance l path
  | .node c l _ r, path =>
      match lastPlace l [] with
      | (.node nodecol child tmp _, q) =>
          let place := q ++ ⟨.left, c, tmp, r⟩ :: path
          if nodecol = .red then some (plug child place) else mmRemoveRebalance child place
      | (.nil, _) => none

/-! ### The order -/

/-- The colour of a child does not matter for the order. Kind: L -/
@[simp] lemma toList_paintFar (b : Branch) (t : RbTree α) : (paintFar b t).toList = t.toList := by
  cases t with
  | nil => rfl
  | node c l a r => cases b <;> simp [paintFar]

/-- The order of the elements of a node that is made again from its children. Kind: L -/
lemma toList_join_child (b : Branch) (c c' : Color) (l : RbTree α) (a : α) (r : RbTree α) :
    (join b c' (((RbTree.node c l a r).child b).setColor .black) a
      ((RbTree.node c l a r).child b.flip)).toList = (RbTree.node c l a r).toList := by
  cases b <;> simp [join, child, Branch.flip]

/-- A round keeps the elements in order. Kind: L -/
lemma toList_siblingStep {t s : RbTree α} {parent : Frame α} {more : Bool}
    (h : siblingStep t parent = some (s, more)) : s.toList = (parent.fill t).toList := by
  obtain ⟨b, pc, pa, other⟩ := parent
  cases other with
  | nil => simp [siblingStep] at h
  | node c l a r =>
      have hjoin : ∀ sib : RbTree α, sib.toList = (RbTree.node c l a r).toList →
          ((join b .black t pa (paintFar b (sib.setColor pc))).rotate b).toList =
            (Frame.fill ⟨b, pc, pa, .node c l a r⟩ t).toList := by
        intro sib hsib
        rw [toList_rotate]
        cases b <;> simp only [join, Frame.fill, toList_node _ _ pa, toList_paintFar,
          toList_setColor, hsib]
      simp only [siblingStep] at h
      split_ifs at h with hblack hfar
      · obtain ⟨rfl, -⟩ := Prod.mk.inj (Option.some.inj h)
        simp only [toList_fill, toList_node]
      · obtain ⟨rfl, -⟩ := Prod.mk.inj (Option.some.inj h)
        exact hjoin _ rfl
      · obtain ⟨rfl, -⟩ := Prod.mk.inj (Option.some.inj h)
        exact hjoin _ (by rw [toList_rotate, toList_join_child])

/-- A red sibling that is rotated up keeps the elements in order. Kind: L -/
lemma toList_fill_fill (parent : Frame α) (t : RbTree α) {c : Color} {l : RbTree α} {a : α}
    {r : RbTree α} (hother : parent.other = .node c l a r) :
    (Frame.fill ⟨parent.branch, .black, a, (RbTree.node c l a r).child parent.branch.flip⟩
      ({ parent with
        color := .red
        other := (RbTree.node c l a r).child parent.branch }.fill t)).toList =
      (parent.fill t).toList := by
  obtain ⟨b, pc, pa, other⟩ := parent
  obtain rfl : other = .node c l a r := hother
  cases b <;> simp [Frame.fill, join, child, Branch.flip]

/-- A rebalancing keeps the elements in order. Kind: L -/
lemma toList_mmRemoveRebalance {s t : RbTree α} {p : List (Frame α)}
    (h : mmRemoveRebalance s p = some t) : t.toList = before p ++ s.toList ++ behind p := by
  fun_induction mmRemoveRebalance s p with
  | case1 s =>
      obtain rfl := Option.some.inj h
      simp [before, behind]
  | case2 s parent path _ =>
      obtain rfl := Option.some.inj h
      rw [toList_plug, toList_setColor]
  | case3 => simp at h
  | case4 => simp at h
  | case5 s parent path _ _ c l a r hother b near far s' hstep =>
      obtain rfl := Option.some.inj h
      rw [toList_plug, toList_setColor, toList_siblingStep hstep, ← before_append_fill,
        ← before_append_fill, toList_fill_fill parent s hother]
  | case6 s parent path _ _ c l a r hother b near far s' hstep =>
      obtain rfl := Option.some.inj h
      rw [toList_setColor, toList_plug, toList_siblingStep hstep, ← before_append_fill,
        ← before_append_fill, toList_fill_fill parent s hother]
  | case7 => simp at h
  | case8 s parent path _ _ s' hstep ih =>
      rw [ih h, toList_siblingStep hstep, before_append_fill]
  | case9 s parent path _ _ s' hstep =>
      obtain rfl := Option.some.inj h
      rw [toList_setColor, toList_plug, toList_siblingStep hstep, before_append_fill]

/-! ### The balance -/

/-- A round, with the sibling seen from the side of the place. Kind: L -/
lemma siblingStep_join (t : RbTree α) (b : Branch) (pc c : Color) (pa a : α) (near far : RbTree α) :
    siblingStep t ⟨b, pc, pa, join b c near a far⟩ =
      if near.isRed = false ∧ far.isRed = false then
        some (join b pc t pa (join b .red near a far), true)
      else
        let sib := if far.isRed then join b c near a far
          else (join b .red (near.setColor .black) a far).rotate b.flip
        some ((join b .black t pa (paintFar b (sib.setColor pc))).rotate b, false) := by
  cases b <;> rfl

/-- The far child made black. Kind: L -/
@[simp] lemma paintFar_join (b : Branch) (c : Color) (near : RbTree α) (a : α) (far : RbTree α) :
    paintFar b (join b c near a far) = join b c near a (far.setColor .black) := by
  cases b <;> rfl

/-- **A round of the loop of `__mm_remove`**, when the place has one black node too few. If the loop
goes on, the same is true of the place of the parent, unless that is red. If it ends, nothing is
missing any more. Kind: L -/
lemma siblingStep_spec {t other : RbTree α} {n : ℕ} (ht : t.Balanced .black n)
    (hother : other.Balanced .black (n + 1)) (b : Branch) (pc : Color) (pa : α) :
    ∃ s more, siblingStep t ⟨b, pc, pa, other⟩ = some (s, more) ∧
      if more then (s.setColor .black).Balanced .black (n + 1) ∧ s.isRed = decide (pc = .red)
      else (pc = .red → s.Balanced .red (n + 1)) ∧ (pc = .black → s.Balanced .black (n + 2)) := by
  obtain ⟨near, a, far, c, c', rfl, hnear, hfar⟩ := hother.exists_join_black b
  rw [siblingStep_join, hnear.isRed_eq, hfar.isRed_eq]
  -- the subtree after the last rotation, for every root
  have hend : ∀ (x z : RbTree α) (d : Color) (e : α), x.Balanced d n → z.Balanced .black (n + 1) →
      (pc = .red → (join b pc (join b .black t pa x) e z).Balanced .red (n + 1)) ∧
        (pc = .black → (join b pc (join b .black t pa x) e z).Balanced .black (n + 2)) := by
    intro x z d e hx hz
    constructor
    · rintro rfl
      exact (ht.join_black hx).join_red hz
    · rintro rfl
      exact (ht.join_black hx).join_black hz
  cases c' with
  | red =>
      -- the far child is red
      rw [if_neg (by simp)]
      refine ⟨_, false, rfl, ?_⟩
      simp only [decide_true, if_true, Bool.false_eq_true, if_false, setColor_join, paintFar_join,
        rotate_join]
      exact hend near _ c a hnear hfar.setBlack
  | black =>
      cases c with
      | black =>
          refine ⟨_, true, rfl, ?_⟩
          simp only [if_true, setColor_join, isRed_join, and_true]
          exact ht.join_black (hnear.join_red hfar)
      | red =>
          -- only the near child is red, and comes up first
          obtain ⟨x, e, y, rfl, hx, hy⟩ := hnear.exists_join_red b
          refine ⟨_, false, rfl, ?_⟩
          simp only [decide_false, reduceCtorEq, Bool.false_eq_true, if_false, setColor_join,
            rotate_flip_join, paintFar_join, rotate_join]
          exact hend x _ .black e hx (hy.join_black hfar)

/-- A round of the loop, with a red sibling seen from the side of the place. Kind: L -/
lemma mmRemoveRebalance_join {t : RbTree α} (ht : t.isRed = false) (b : Branch) (pc : Color)
    (pa a : α) (near far : RbTree α) (path : List (Frame α)) :
    mmRemoveRebalance t (⟨b, pc, pa, join b .red near a far⟩ :: path) =
      match siblingStep t ⟨b, .red, pa, near⟩ with
      | none => none
      | some (s, true) => some (plug (s.setColor .black) (⟨b, .black, a, far⟩ :: path))
      | some (s, false) => some ((plug s (⟨b, .black, a, far⟩ :: path)).setColor .black) := by
  rw [mmRemoveRebalance, if_neg (by simp [ht]), if_pos (by simp)]
  cases b <;> rfl

/-- **The loop of `__mm_remove`** leads to a balanced tree, and every sibling is there: the place
has one black node too few, or a red node that becomes black. Kind: L -/
lemma mmRemoveRebalance_balanced {t : RbTree α} {p : List (Frame α)} {n : ℕ}
    (ht : if t.isRed then (t.setColor .black).Balanced .black (n + 1) else t.Balanced .black n)
    (hp : Hole p .black (n + 1)) :
    ∃ t' m, mmRemoveRebalance t p = some t' ∧ t'.Balanced .black m := by
  induction p generalizing t n with
  | nil =>
      refine ⟨_, if t.isRed then n + 1 else n, rfl, ?_⟩
      split_ifs at ht ⊢ with hred
      · exact ht
      · rw [ht.setColor_eq]
        exact ht
  | cons parent path ih =>
      by_cases hred : t.isRed
      · rw [if_pos hred] at ht
        obtain ⟨m, hm⟩ := ht.plug hp
        exact ⟨_, m, by rw [mmRemoveRebalance, if_pos hred], hm⟩
      rw [if_neg hred] at ht
      obtain ⟨b, pc, pa, other⟩ := parent
      by_cases hsib : other.isRed
      · -- a red sibling has a black parent
        obtain ⟨rfl, hother, hpath⟩ : pc = .black ∧ other.Balanced .red (n + 1) ∧
            Hole path .black (n + 2) := by
          cases pc with
          | red => exact absurd (hp.2.1.isRed_eq.symm.trans hsib) (by decide)
          | black =>
              obtain ⟨⟨c', hs⟩, hpath⟩ := hp
              cases c' with
              | black => exact absurd (hs.isRed_eq.symm.trans hsib) (by decide)
              | red => exact ⟨rfl, hs, hpath⟩
        obtain ⟨near, a, far, rfl, hnear, hfar⟩ := hother.exists_join_red b
        obtain ⟨s, more, hstep, hs⟩ := siblingStep_spec ht hnear b .red pa
        rw [mmRemoveRebalance_join (by simpa using hred), hstep]
        cases more with
        | true =>
            obtain ⟨m, hm⟩ := hs.1.plug (Hole.cons_black (b := b) (a := a) hfar hpath .black)
            exact ⟨_, m, rfl, hm⟩
        | false =>
            obtain ⟨m, hm⟩ := (hs.1 rfl).plug (Hole.cons_black (b := b) (a := a) hfar hpath .red)
            exact ⟨_, m, rfl, by rw [hm.setColor_eq]; exact hm⟩
      · obtain ⟨hother, hpath⟩ : other.Balanced .black (n + 1) ∧
            Hole path pc (if pc = .red then n + 1 else n + 2) := by
          cases pc with
          | red => exact ⟨hp.2.1, hp.2.2⟩
          | black =>
              obtain ⟨⟨c', hs⟩, hpath⟩ := hp
              exact ⟨hs.of_isRed_eq_false (by simpa using hsib), hpath⟩
        obtain ⟨s, more, hstep, hs⟩ := siblingStep_spec ht hother b pc pa
        rw [mmRemoveRebalance, if_neg hred, if_neg hsib, hstep]
        cases more with
        | true =>
            obtain ⟨hs, hcolor⟩ := hs
            cases pc with
            | red => exact ih (n := n) (by rw [hcolor]; exact hs) hpath.black
            | black =>
                refine ih (n := n + 1) ?_ hpath
                rw [hcolor, ← setColor_of_isRed_eq_false hcolor]
                exact hs
        | false =>
            cases pc with
            | red =>
                obtain ⟨m, hm⟩ := (hs.1 rfl).plug hpath
                exact ⟨_, m, rfl, by rw [hm.setColor_eq]; exact hm⟩
            | black =>
                obtain ⟨m, hm⟩ := (hs.2 rfl).plug hpath
                exact ⟨_, m, rfl, by rw [hm.setColor_eq]; exact hm⟩

/-- The last node of a tree has no child behind it, and all frames above it are passed on their
left. Kind: L -/
lemma lastPlace_spec {t : RbTree α} (ht : t ≠ .nil) (p : List (Frame α)) :
    ∃ c l a q, lastPlace t p = (.node c l a .nil, q ++ p) ∧ plug (.node c l a .nil) q = t ∧
      behind q = [] := by
  induction t generalizing p with
  | nil => exact absurd rfl ht
  | node c l a r _ ihr =>
      cases r with
      | nil => exact ⟨c, l, a, [], rfl, rfl, rfl⟩
      | node c' l' a' r' =>
          obtain ⟨d, m, b, q, hq, hplug, hbehind⟩ := ihr (by simp) (⟨.right, c, a, l⟩ :: p)
          refine ⟨d, m, b, q ++ [⟨.right, c, a, l⟩], by rw [lastPlace, hq]; simp, ?_, ?_⟩
          · rw [plug_append, hplug]
            rfl
          · rw [behind_append, hbehind]
            rfl

/-- The place of the child that goes up: after a black node one black node is missing. Kind: L -/
lemma mmRemove_child {t : RbTree α} {p : List (Frame α)} {c c' : Color} {n : ℕ}
    (ht : t.Balanced c' n) (hred : c = .red → c' = .black)
    (hp : Hole p c (if c = .red then n else n + 1)) :
    ∃ t' m, (if c = .red then some (plug t p) else mmRemoveRebalance t p) = some t' ∧
      t'.Balanced .black m := by
  cases c with
  | red =>
      obtain rfl := hred rfl
      obtain ⟨m, hm⟩ := ht.plug hp.black
      exact ⟨_, m, rfl, hm⟩
  | black =>
      refine mmRemoveRebalance_balanced (n := n) ?_ hp
      rw [ht.isRed_eq]
      cases c' with
      | red => exact ht.setBlack
      | black => exact ht

/-- The elements after the child went up. Kind: L -/
lemma toList_mmRemove_child {t t' : RbTree α} {p : List (Frame α)} {c : Color}
    (h : (if c = .red then some (plug t p) else mmRemoveRebalance t p) = some t') :
    t'.toList = before p ++ t.toList ++ behind p := by
  split_ifs at h
  · rw [← Option.some.inj h, toList_plug]
  · exact toList_mmRemoveRebalance h

/-- **`__mm_remove` takes a node out of a balanced tree**: no null pointer is used, the other
elements stay in order, and the tree is balanced again. Kind: L -/
lemma mmRemoveAt_spec {c : Color} {l : RbTree α} {a : α} {r : RbTree α} {p : List (Frame α)} {m : ℕ}
    (h : (plug (.node c l a r) p).Balanced .black m) :
    ∃ t' m', mmRemoveAt (.node c l a r) p = some t' ∧ t'.Balanced .black m' ∧
      t'.toList = (before p ++ l.toList) ++ (r.toList ++ behind p) := by
  obtain ⟨c₀, n, ht, hp⟩ := exists_hole h
  obtain ⟨rfl, d, d', k, hl, hr, hred, rfl⟩ := ht.exists_children
  cases l with
  | nil =>
      obtain ⟨t', m', ht', hm'⟩ := mmRemove_child hr (fun hc => (hred hc).2) hp
      exact ⟨t', m', ht', hm', by rw [toList_mmRemove_child ht']; simp⟩
  | node lc ll la lr =>
      cases r with
      | nil =>
          obtain ⟨t', m', ht', hm'⟩ := mmRemove_child hl (fun hc => (hred hc).1) hp
          exact ⟨t', m', ht', hm', by rw [toList_mmRemove_child ht']; simp⟩
      | node rc rl ra rr =>
          -- the last node before it takes its place
          obtain ⟨e, child, tmp, q, hq, hplug, hbehind⟩ :=
            lastPlace_spec (t := .node lc ll la lr) (by simp) []
          rw [List.append_nil] at hq
          set r : RbTree α := .node rc rl ra rr
          obtain ⟨m₁, hm₁⟩ := (ht.congr_elem tmp).plug hp
          have hall : (plug (.node e child tmp .nil)
              (q ++ ⟨.left, c₀, tmp, r⟩ :: p)).Balanced .black m₁ := by
            rw [plug_append, hplug]
            exact hm₁
          obtain ⟨c₁, n₁, ht₁, hp₁⟩ := exists_hole hall
          obtain ⟨rfl, f, f', k₁, hchild, -, hred₁, rfl⟩ := ht₁.exists_children
          obtain ⟨t', m', ht', hm'⟩ := mmRemove_child hchild (fun hc => (hred₁ hc).1) hp₁
          refine ⟨t', m', by simp only [mmRemoveAt, r, hq]; exact ht', hm', ?_⟩
          rw [toList_mmRemove_child ht', ← toList_plug, plug_append, toList_plug, toList_plug,
            hbehind, ← hplug, toList_plug, hbehind]
          simp [before, behind]

end FreeFlow.Fork
