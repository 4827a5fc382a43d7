import Mathlib.Data.List.Basic
import Mathlib.Data.Nat.Log
import Mathlib.Tactic

/-!
# Red-black trees and places in them

Code that works on a tree with parent pointers is at a node and sees the way back to the root. Such
a place is a subtree together with the frames above it, the nearest one first. What a rebalancing
changes near a place can then be said without the rest of the tree: the elements in order are those
before the place, those of the subtree and those behind it, and the balance of the whole tree is
that of the subtree and of the hole it fills.

A branch says on which side a child is, so that one statement serves both mirror images.

* `toList_plug`, `toList_rotate` — the elements in order.
* `zoom`, `zoom_of_mem`, `zoom_of_not_mem` — the place of an element, or of a new one.
* `Balanced`, `Hole`, `Balanced.plug`, `exists_hole` — no red node has a red child, and all ways
  down meet the same number of black nodes.
* `Balanced.height_le` — a balanced tree is not deep.

Nothing here names a program.
-/

namespace FreeFlow.Found

variable {α : Type*}

/-- The colours of nodes. Kind: D -/
inductive Color where
  | red
  | black
  deriving DecidableEq, Repr

/-- The sides of a node. Kind: D -/
inductive Branch where
  | left
  | right
  deriving DecidableEq, Repr

/-- The other side. Kind: D -/
def Branch.flip : Branch → Branch
  | .left => .right
  | .right => .left

/-- Binary trees with coloured nodes. Kind: D -/
inductive RbTree (α : Type*) where
  | nil
  | node (c : Color) (l : RbTree α) (a : α) (r : RbTree α)

namespace RbTree

/-- A node with `t` on the given side and `s` on the other one. Kind: D -/
def join : Branch → Color → RbTree α → α → RbTree α → RbTree α
  | .left, c, t, a, s => node c t a s
  | .right, c, t, a, s => node c s a t

/-- The child on a side. Kind: D -/
def child : Branch → RbTree α → RbTree α
  | _, nil => nil
  | .left, node _ l _ _ => l
  | .right, node _ _ _ r => r

/-- The root is red. Kind: D -/
def isRed : RbTree α → Bool
  | node .red _ _ _ => true
  | _ => false

/-- The tree with another colour at its root. Kind: D -/
def setColor (c : Color) : RbTree α → RbTree α
  | nil => nil
  | node _ l a r => node c l a r

/-- The child on the other side comes up, and the root goes down on this side. Kind: D -/
def rotate : Branch → RbTree α → RbTree α
  | .left, node c x a (node c' y b z) => node c' (node c x a y) b z
  | .right, node c (node c' x a y) b z => node c' x a (node c y b z)
  | _, t => t

/-- The elements in order. Kind: D -/
def toList : RbTree α → List α
  | nil => []
  | node _ l a r => l.toList ++ a :: r.toList

/-- The number of nodes. Kind: D -/
def size : RbTree α → ℕ
  | nil => 0
  | node _ l _ r => l.size + r.size + 1

/-- The length of the longest way down. Kind: D -/
def height : RbTree α → ℕ
  | nil => 0
  | node _ l _ r => max l.height r.height + 1

@[simp] lemma toList_nil : (nil : RbTree α).toList = [] := rfl

@[simp] lemma toList_node (c : Color) (l : RbTree α) (a : α) (r : RbTree α) :
    (node c l a r).toList = l.toList ++ a :: r.toList := rfl

@[simp] lemma child_join (b : Branch) (c : Color) (t : RbTree α) (a : α) (s : RbTree α) :
    (join b c t a s).child b = t := by
  cases b <;> rfl

@[simp] lemma child_flip_join (b : Branch) (c : Color) (t : RbTree α) (a : α) (s : RbTree α) :
    (join b c t a s).child b.flip = s := by
  cases b <;> rfl

@[simp] lemma setColor_join (b : Branch) (c c' : Color) (t : RbTree α) (a : α) (s : RbTree α) :
    (join b c t a s).setColor c' = join b c' t a s := by
  cases b <;> rfl

@[simp] lemma isRed_join (b : Branch) (c : Color) (t : RbTree α) (a : α) (s : RbTree α) :
    (join b c t a s).isRed = decide (c = .red) := by
  cases b <;> cases c <;> rfl

/-- A root that is not red, made black. Kind: L -/
lemma setColor_of_isRed_eq_false {t : RbTree α} (h : t.isRed = false) : t.setColor .black = t := by
  match t with
  | nil => rfl
  | node .black _ _ _ => rfl
  | node .red _ _ _ => simp [isRed] at h

/-- A node is seen from each of its sides. Kind: L -/
lemma join_flip (b : Branch) (c : Color) (t : RbTree α) (a : α) (s : RbTree α) :
    join b.flip c t a s = join b c s a t := by
  cases b <;> rfl

/-- The child on the other side comes up. Kind: L -/
@[simp] lemma rotate_join (b : Branch) (c c' : Color) (x y z : RbTree α) (a a' : α) :
    (join b c x a (join b c' y a' z)).rotate b = join b c' (join b c x a y) a' z := by
  cases b <;> rfl

/-- The child on this side comes up. Kind: L -/
@[simp] lemma rotate_flip_join (b : Branch) (c c' : Color) (x y z : RbTree α) (a a' : α) :
    (join b c (join b c' x a y) a' z).rotate b.flip = join b c' x a (join b c y a' z) := by
  cases b <;> rfl

@[simp] lemma toList_setColor (c : Color) (t : RbTree α) : (t.setColor c).toList = t.toList := by
  cases t <;> rfl

/-- A rotation keeps the order. Kind: L -/
@[simp] lemma toList_rotate (b : Branch) (t : RbTree α) : (t.rotate b).toList = t.toList := by
  unfold rotate
  split <;> simp

/-- The number of elements. Kind: L -/
lemma length_toList (t : RbTree α) : t.toList.length = t.size := by
  induction t with
  | nil => rfl
  | node c l a r ihl ihr =>
      rw [toList_node, List.length_append, List.length_cons, ihl, ihr, size, Nat.add_assoc]

end RbTree

open RbTree

/-! ## Places -/

/-- A node on the way to a place: the side of the place, and what the node has besides. Kind: D -/
structure Frame (α : Type*) where
  branch : Branch
  color : Color
  elem : α
  other : RbTree α

/-- The subtree of a node whose child is given. Kind: D -/
def Frame.fill (f : Frame α) (t : RbTree α) : RbTree α := join f.branch f.color t f.elem f.other

/-- The tree with `t` at a place. Kind: D -/
def plug : RbTree α → List (Frame α) → RbTree α
  | t, [] => t
  | t, f :: p => plug (f.fill t) p

/-- The elements before a place. Kind: D -/
def before : List (Frame α) → List α
  | [] => []
  | ⟨.left, _, _, _⟩ :: p => before p
  | ⟨.right, _, a, s⟩ :: p => before p ++ (s.toList ++ [a])

/-- The elements behind a place. Kind: D -/
def behind : List (Frame α) → List α
  | [] => []
  | ⟨.left, _, a, s⟩ :: p => a :: s.toList ++ behind p
  | ⟨.right, _, _, _⟩ :: p => behind p

/-- The elements of the tree, seen from a place. Kind: L -/
lemma toList_plug (t : RbTree α) (p : List (Frame α)) :
    (plug t p).toList = before p ++ t.toList ++ behind p := by
  induction p generalizing t with
  | nil => simp [plug, before, behind]
  | cons f p ih =>
      obtain ⟨b, c, a, s⟩ := f
      rw [plug, ih]
      cases b <;> simp [Frame.fill, join, before, behind]

/-- The elements before the subtree of a frame, and before the place below it. Kind: L -/
lemma before_append_fill (f : Frame α) (p : List (Frame α)) (t : RbTree α) :
    before p ++ (f.fill t).toList ++ behind p =
      before (f :: p) ++ t.toList ++ behind (f :: p) := by
  rw [← toList_plug, ← toList_plug, plug]

/-- The elements behind a place below another one. Kind: L -/
lemma behind_append (p q : List (Frame α)) : behind (p ++ q) = behind p ++ behind q := by
  induction p with
  | nil => rfl
  | cons f p ih =>
      obtain ⟨b, c, a, s⟩ := f
      cases b <;> simp [behind, ih]

/-- A place one after the other. Kind: L -/
lemma plug_append (t : RbTree α) (p q : List (Frame α)) :
    plug t (p ++ q) = plug (plug t p) q := by
  induction p generalizing t with
  | nil => rfl
  | cons f p ih => exact ih (f.fill t)

/-- The place that a search leads to. The cut says where an element lies: the search goes on before
it (`lt`), behind it (`gt`), or ends. Kind: D -/
def zoom (cut : α → Ordering) : RbTree α → List (Frame α) → RbTree α × List (Frame α)
  | .nil, p => (.nil, p)
  | .node c l a r, p =>
      match cut a with
      | .lt => zoom cut l (⟨.left, c, a, r⟩ :: p)
      | .gt => zoom cut r (⟨.right, c, a, l⟩ :: p)
      | .eq => (.node c l a r, p)

/-- A search leaves the tree as it is. Kind: L -/
lemma plug_zoom (cut : α → Ordering) (t : RbTree α) (p : List (Frame α)) :
    plug (zoom cut t p).1 (zoom cut t p).2 = plug t p := by
  induction t generalizing p with
  | nil => rfl
  | node c l a r ihl ihr =>
      rw [zoom]
      cases cut a with
      | lt => exact ihl _
      | eq => rfl
      | gt => exact ihr _

section Zoom

variable {cut : α → Ordering} {as bs : List α} {x : α}

/-- A list with a given element, cut in two: the element is in the first part or in the second.
Kind: L -/
lemma append_cons_eq_append_iff {l r : List α} {a : α} :
    l ++ a :: r = as ++ bs ↔
      (∃ mid, as = l ++ a :: mid ∧ r = mid ++ bs) ∨ ∃ mid, l = as ++ mid ∧ bs = mid ++ a :: r := by
  rw [List.append_eq_append_iff]
  constructor
  · rintro (⟨mid, has, hmid⟩ | h)
    · cases mid with
      | nil => exact .inr ⟨[], by simpa using has.symm, hmid.symm⟩
      | cons m mid =>
          obtain ⟨rfl, hr⟩ := List.cons.inj hmid
          exact .inl ⟨mid, has, hr⟩
    · exact .inr h
  · rintro (⟨mid, has, hr⟩ | h)
    · exact .inl ⟨a :: mid, has, by rw [hr, List.cons_append]⟩
    · exact .inr h

/-- **A search finds the element** that lies between those behind which and before which it goes on.
Kind: L -/
lemma zoom_of_mem (has : ∀ a ∈ as, cut a = .gt) (hx : cut x = .eq) (hbs : ∀ b ∈ bs, cut b = .lt)
    {t : RbTree α} (ht : t.toList = as ++ x :: bs) (p : List (Frame α)) :
    ∃ c l r q, zoom cut t p = (.node c l x r, q) ∧ before q ++ l.toList = before p ++ as ∧
      r.toList ++ behind q = bs ++ behind p := by
  induction t generalizing as bs p with
  | nil => simp at ht
  | node c l a r ihl ihr =>
      rcases append_cons_eq_append_iff.mp ht with ⟨mid, rfl, hr⟩ | ⟨mid, hl, hmid⟩
      · have hcut : cut a = .gt := has a (by simp)
        obtain ⟨c', l', r', q, hq, hbefore, hbehind⟩ :=
          ihr (fun y hy => has y (by simp [hy])) hbs hr (⟨.right, c, a, l⟩ :: p)
        refine ⟨c', l', r', q, by rw [zoom, hcut]; exact hq, ?_, hbehind⟩
        rw [hbefore, before]
        simp
      · cases mid with
        | nil =>
            obtain ⟨rfl, rfl⟩ := List.cons.inj hmid
            rw [List.append_nil] at hl
            exact ⟨c, l, r, p, by rw [zoom, hx], by rw [hl], rfl⟩
        | cons m mid =>
            obtain ⟨rfl, rfl⟩ := List.cons.inj hmid
            have hcut : cut a = .lt := hbs a (by simp)
            obtain ⟨c', l', r', q, hq, hbefore, hbehind⟩ :=
              ihl has (fun y hy => hbs y (by simp [hy])) hl (⟨.left, c, a, r⟩ :: p)
            refine ⟨c', l', r', q, by rw [zoom, hcut]; exact hq, hbefore, ?_⟩
            rw [hbehind, behind]
            simp

/-- **A search for what is not there** ends between the elements behind which and before which it
goes on. Kind: L -/
lemma zoom_of_not_mem (has : ∀ a ∈ as, cut a = .gt) (hbs : ∀ b ∈ bs, cut b = .lt) {t : RbTree α}
    (ht : t.toList = as ++ bs) (p : List (Frame α)) :
    ∃ q, zoom cut t p = (.nil, q) ∧ before q = before p ++ as ∧ behind q = bs ++ behind p := by
  induction t generalizing as bs p with
  | nil =>
      obtain ⟨rfl, rfl⟩ := List.append_eq_nil_iff.mp ht.symm
      exact ⟨p, rfl, by simp, by simp⟩
  | node c l a r ihl ihr =>
      rcases append_cons_eq_append_iff.mp ht with ⟨mid, rfl, hr⟩ | ⟨mid, hl, rfl⟩
      · have hcut : cut a = .gt := has a (by simp)
        obtain ⟨q, hq, hbefore, hbehind⟩ :=
          ihr (fun y hy => has y (by simp [hy])) hbs hr (⟨.right, c, a, l⟩ :: p)
        refine ⟨q, by rw [zoom, hcut]; exact hq, ?_, hbehind⟩
        rw [hbefore, before]
        simp
      · have hcut : cut a = .lt := hbs a (by simp)
        obtain ⟨q, hq, hbefore, hbehind⟩ :=
          ihl has (fun y hy => hbs y (by simp [hy])) hl (⟨.left, c, a, r⟩ :: p)
        refine ⟨q, by rw [zoom, hcut]; exact hq, hbefore, ?_⟩
        rw [hbehind, behind]
        simp

end Zoom

/-! ## Balance -/

namespace RbTree

/-- The tree has a root of this colour (none counts as black), no red node in it has a red child,
and every way down meets `n` black nodes. Kind: D -/
inductive Balanced : RbTree α → Color → ℕ → Prop where
  | nil : Balanced nil .black 0
  | red {l r : RbTree α} {a : α} {n : ℕ} :
      Balanced l .black n → Balanced r .black n → Balanced (node .red l a r) .red n
  | black {l r : RbTree α} {a : α} {c c' : Color} {n : ℕ} :
      Balanced l c n → Balanced r c' n → Balanced (node .black l a r) .black (n + 1)

namespace Balanced

variable {t s : RbTree α} {a : α} {b : Branch} {c c' : Color} {n : ℕ}

/-- A red node from its children. Kind: L -/
lemma join_red (ht : t.Balanced .black n) (hs : s.Balanced .black n) :
    (join b .red t a s).Balanced .red n := by
  cases b
  · exact .red ht hs
  · exact .red hs ht

/-- A black node from its children. Kind: L -/
lemma join_black (ht : t.Balanced c n) (hs : s.Balanced c' n) :
    (join b .black t a s).Balanced .black (n + 1) := by
  cases b
  · exact .black ht hs
  · exact .black hs ht

/-- The children of a balanced node. Kind: L -/
lemma exists_children {l r : RbTree α} {c₀ : Color} (h : (node c l a r).Balanced c₀ n) :
    c₀ = c ∧ ∃ d d' k, l.Balanced d k ∧ r.Balanced d' k ∧ (c = .red → d = .black ∧ d' = .black) ∧
      n = if c = .red then k else k + 1 := by
  cases h with
  | red hl hr => exact ⟨rfl, _, _, _, hl, hr, fun _ => ⟨rfl, rfl⟩, rfl⟩
  | black hl hr => exact ⟨rfl, _, _, _, hl, hr, fun h => absurd h (by decide), rfl⟩

/-- The element of a node does not matter. Kind: L -/
lemma congr_elem {l r : RbTree α} {c₀ : Color} (h : (node c l a r).Balanced c₀ n) (a' : α) :
    (node c l a' r).Balanced c₀ n := by
  cases h with
  | red hl hr => exact .red hl hr
  | black hl hr => exact .black hl hr

/-- A red tree, seen from one of its sides. Kind: L -/
lemma exists_join_red (h : t.Balanced .red n) (b : Branch) :
    ∃ x a y, t = join b .red x a y ∧ x.Balanced .black n ∧ y.Balanced .black n := by
  cases h with
  | red hl hr =>
      cases b
      · exact ⟨_, _, _, rfl, hl, hr⟩
      · exact ⟨_, _, _, rfl, hr, hl⟩

/-- A black tree that is not empty, seen from one of its sides. Kind: L -/
lemma exists_join_black (h : t.Balanced .black (n + 1)) (b : Branch) :
    ∃ x a y c c', t = join b .black x a y ∧ x.Balanced c n ∧ y.Balanced c' n := by
  cases h with
  | black hl hr =>
      cases b
      · exact ⟨_, _, _, _, _, rfl, hl, hr⟩
      · exact ⟨_, _, _, _, _, rfl, hr, hl⟩

/-- The colour of the root. Kind: L -/
lemma isRed_eq (h : t.Balanced c n) : t.isRed = decide (c = .red) := by
  cases h <;> rfl

/-- A red tree with its root made black. Kind: L -/
lemma setBlack (h : t.Balanced .red n) : (t.setColor .black).Balanced .black (n + 1) := by
  cases h with
  | red hl hr => exact .black hl hr

/-- A black root made black. Kind: L -/
lemma setColor_eq (h : t.Balanced .black n) : t.setColor .black = t :=
  setColor_of_isRed_eq_false h.isRed_eq

/-- A tree whose root is not red is balanced as a black one. Kind: L -/
lemma of_isRed_eq_false (h : t.Balanced c n) (hred : t.isRed = false) : t.Balanced .black n := by
  cases c with
  | red => exact absurd (h.isRed_eq.symm.trans hred) (by decide)
  | black => exact h

/-- **A balanced tree is not deep**, measured by its black nodes. Kind: L -/
lemma height_le_two_mul (h : t.Balanced c n) :
    t.height ≤ 2 * n + if c = .red then 1 else 0 := by
  induction h with
  | nil => exact le_rfl
  | red _ _ ihl ihr =>
      simp only [reduceCtorEq, if_false] at ihl ihr
      simp only [height, if_true]
      omega
  | black _ _ ihl ihr =>
      simp only [height, reduceCtorEq, if_false]
      split_ifs at ihl ihr <;> omega

/-- A balanced tree has many nodes, measured by its black nodes. Kind: L -/
lemma two_pow_le_size (h : t.Balanced c n) : 2 ^ n ≤ t.size + 1 := by
  induction h with
  | nil => exact le_rfl
  | red _ _ ihl ihr =>
      rw [size]
      omega
  | black _ _ ihl ihr =>
      rw [size, pow_succ]
      omega

/-- **A balanced tree is not deep.** Kind: L -/
theorem height_le (h : t.Balanced .black n) : t.height ≤ 2 * Nat.log 2 (t.size + 1) := by
  have hheight := h.height_le_two_mul
  have hlog : n ≤ Nat.log 2 (t.size + 1) :=
    Nat.le_log_of_pow_le (by decide) h.two_pow_le_size
  simp only [reduceCtorEq, if_false, Nat.add_zero] at hheight
  omega

end Balanced

end RbTree

/-- The place takes a balanced tree of this colour and number of black nodes. Kind: D -/
def Hole : List (Frame α) → Color → ℕ → Prop
  | [], c, _ => c = .black
  | ⟨_, .red, _, s⟩ :: p, c, n => c = .black ∧ s.Balanced .black n ∧ Hole p .red n
  | ⟨_, .black, _, s⟩ :: p, _, n => (∃ c', s.Balanced c' n) ∧ Hole p .black (n + 1)

namespace Hole

variable {p : List (Frame α)} {c : Color} {n : ℕ}

/-- A place for a red tree is one for a black tree. Kind: L -/
lemma black (h : Hole p c n) : Hole p .black n := by
  match p with
  | [] => rfl
  | ⟨_, .red, _, s⟩ :: p => exact ⟨rfl, h.2⟩
  | ⟨_, .black, _, s⟩ :: p => exact h

/-- A place for a red tree is below a black node. Kind: L -/
lemma cases_red (h : Hole p .red n) :
    ∃ b a s q c', p = ⟨b, .black, a, s⟩ :: q ∧ s.Balanced c' n ∧ Hole q .black (n + 1) := by
  match p with
  | [] => exact absurd h (by simp [Hole])
  | ⟨_, .red, _, s⟩ :: p => exact absurd h.1 (by simp)
  | ⟨b, .black, a, s⟩ :: q =>
      obtain ⟨⟨c', hs⟩, hq⟩ := h
      exact ⟨b, a, s, q, c', rfl, hs, hq⟩

/-- A place below a node that is not black. Kind: L -/
lemma cases_cons {f : Frame α} (h : Hole (f :: p) c n) (hf : f.color ≠ .black) :
    c = .black ∧ f = ⟨f.branch, .red, f.elem, f.other⟩ ∧ f.other.Balanced .black n ∧
      Hole p .red n := by
  obtain ⟨b, c', a, s⟩ := f
  cases c' with
  | black => exact absurd rfl hf
  | red => exact ⟨h.1, rfl, h.2⟩

/-- A place below a black node takes both colours. Kind: L -/
lemma cons_black {b : Branch} {a : α} {s : RbTree α} {c' : Color} (hs : s.Balanced c' n)
    (h : Hole p .black (n + 1)) (c : Color) : Hole (⟨b, .black, a, s⟩ :: p) c n :=
  ⟨⟨c', hs⟩, h⟩

end Hole

/-- **A balanced tree at its place.** Kind: L -/
lemma RbTree.Balanced.plug {t : RbTree α} {p : List (Frame α)} {c : Color} {n : ℕ}
    (ht : t.Balanced c n) (hp : Hole p c n) : ∃ m, (plug t p).Balanced .black m := by
  induction p generalizing t c n with
  | nil =>
      obtain rfl := hp
      exact ⟨n, ht⟩
  | cons f p ih =>
      obtain ⟨b, c', a, s⟩ := f
      cases c' with
      | red =>
          obtain ⟨rfl, hs, hp⟩ := hp
          exact ih (ht.join_red hs) hp
      | black =>
          obtain ⟨⟨c', hs⟩, hp⟩ := hp
          exact ih (ht.join_black hs) hp

/-- **Every place of a balanced tree** is a hole for the balanced tree there. Kind: L -/
lemma exists_hole {t : RbTree α} {p : List (Frame α)} {m : ℕ}
    (h : (plug t p).Balanced .black m) : ∃ c n, t.Balanced c n ∧ Hole p c n := by
  induction p generalizing t with
  | nil => exact ⟨.black, m, h, rfl⟩
  | cons f p ih =>
      obtain ⟨c, n, ht, hp⟩ := ih h
      obtain ⟨b, c', a, s⟩ := f
      cases b <;> cases ht with
      | red hl hr =>
          first
            | exact ⟨.black, n, hl, rfl, hr, hp⟩
            | exact ⟨.black, n, hr, rfl, hl, hp⟩
      | black hl hr =>
          first
            | exact ⟨_, _, hl, ⟨_, hr⟩, hp⟩
            | exact ⟨_, _, hr, ⟨_, hl⟩, hp⟩

end FreeFlow.Found
