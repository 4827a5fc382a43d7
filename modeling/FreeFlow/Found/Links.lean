import FreeFlow.Found.ByteMem

/-!
# Lists that are threaded through memory

A list whose cells lie in memory is known by the pointer to its first cell, and every cell has in
its first eight bytes the pointer to the next one; the last pointer is null. Free lists of
allocators and lists of blocks are of this kind.

* `Mem.Threaded` — the cells of the list that starts at a pointer.
* `Mem.Threaded.frame` — a change of other bytes leaves a list alone.
* `Mem.Threaded.push` — a cell is put in front.
* `Mem.Threaded.unique` — the pointer determines the cells.

Nothing here names a program.
-/

namespace FreeFlow.Found.Mem

/-- The list that starts at `head` has the cells `xs`. Kind: D -/
def Threaded (m : Mem) : (head : UInt64) → (xs : List UInt64) → Prop
  | head, [] => head = 0
  | head, x :: xs => head = x ∧ x ≠ 0 ∧ Threaded m (m.u64 x.toNat) xs

variable {m m' : Mem} {head : UInt64} {xs : List UInt64}

/-- The null pointer is the empty list. Kind: L -/
lemma Threaded.head_eq_zero_iff (h : m.Threaded head xs) : head = 0 ↔ xs = [] := by
  cases xs with
  | nil => exact ⟨fun _ => rfl, fun _ => h⟩
  | cons x xs =>
      obtain ⟨rfl, hne, -⟩ := h
      exact ⟨fun h0 => absurd h0 hne, fun hnil => by cases hnil⟩

/-- **Frame rule**: a list is kept when the pointers in its cells are. Kind: L -/
lemma Threaded.frame (h : m.Threaded head xs)
    (hsame : ∀ x ∈ xs, ∀ a, x.toNat ≤ a → a < x.toNat + 8 → m' a = m a) :
    m'.Threaded head xs := by
  induction xs generalizing head with
  | nil => exact h
  | cons x xs ih =>
      obtain ⟨rfl, hne, hrest⟩ := h
      have hword : m'.u64 head.toNat = m.u64 head.toNat :=
        u64_congr (read_congr (hsame head (by simp)))
      refine ⟨rfl, hne, ?_⟩
      rw [hword]
      exact ih hrest fun y hy => hsame y (by simp [hy])

/-- **A cell in front** of a list, away from its cells. Kind: L -/
lemma Threaded.push (h : m.Threaded head xs) {x : UInt64} (hx : x ≠ 0)
    (hapart : ∀ y ∈ xs, x.toNat + 8 ≤ y.toNat ∨ y.toNat + 8 ≤ x.toNat) :
    (m.setU64 x.toNat head).Threaded x (x :: xs) := by
  refine ⟨rfl, hx, ?_⟩
  rw [u64_setU64]
  refine h.frame fun y hy a hlo hhi => setU64_apply_of_outside ?_
  have := hapart y hy
  omega

/-- A list is determined by its first pointer. Kind: L -/
lemma Threaded.unique {ys : List UInt64} (h : m.Threaded head xs) (h' : m.Threaded head ys) :
    xs = ys := by
  induction xs generalizing head ys with
  | nil => exact ((h'.head_eq_zero_iff).mp h).symm
  | cons x xs ih =>
      obtain ⟨rfl, hne, hrest⟩ := h
      cases ys with
      | nil => exact absurd h' hne
      | cons y ys =>
          obtain ⟨rfl, -, hrest'⟩ := h'
          rw [ih hrest hrest']

end FreeFlow.Found.Mem
