import Mathlib.Logic.Function.Basic
import Mathlib.Tactic

/-!
# An address space over memory objects

The memory of a process that shares memory with others: every mapped address leads to a byte of a
memory object, and an object can be seen by another process at addresses of its own. Mapping an
object over a range replaces what was mapped there; the bytes of the replaced object stay as they
are, out of sight.

* `Space` — which byte each address leads to, and the bytes.
* `byte`, `read`, `write`, `copy` — what the process does through its addresses.
* `mmap`, `newObject`, `writeObject` — what the kernel and others who map an object do.
* `Injective` — no byte is mapped twice; then a write changes its own range alone
  (`byte_write_of_outside`) and is read back at every address (`cell_write_of_map`).
* `write_eq_writeObject` — a write to addresses that lead to one object, in order, is a store in
  that object, whatever else is mapped.

Nothing here names a program.
-/

namespace FreeFlow.Found

/-- A byte of a memory object. Kind: D -/
structure Loc where
  obj : ℕ
  off : ℕ
  deriving DecidableEq, Repr

/-- An address space: the byte each mapped address leads to, and the contents. Kind: D -/
structure Space where
  map : ℕ → Option Loc
  cell : Loc → UInt8

namespace Space

/-- The byte at an address; an address that is not mapped has none, and reads as zero here.
Kind: D -/
def byte (S : Space) (a : ℕ) : UInt8 :=
  match S.map a with
  | some l => S.cell l
  | none => 0

/-- All of `n` addresses from `a` on are mapped. Kind: D -/
def Mapped (S : Space) (a n : ℕ) : Prop := ∀ k < n, (S.map (a + k)).isSome

/-- None of `n` addresses from `a` on is mapped. Kind: D -/
def Unmapped (S : Space) (a n : ℕ) : Prop := ∀ k < n, S.map (a + k) = none

instance (S : Space) (a n : ℕ) : Decidable (S.Mapped a n) :=
  inferInstanceAs (Decidable (∀ k < n, _))

instance (S : Space) (a n : ℕ) : Decidable (S.Unmapped a n) :=
  inferInstanceAs (Decidable (∀ k < n, _))

/-- The `n` bytes at `a`. Kind: D -/
def read (S : Space) (a n : ℕ) : List UInt8 := (List.range n).map fun k => S.byte (a + k)

/-- The space after one byte is stored. Kind: D -/
def store (S : Space) (a : ℕ) (b : UInt8) : Space :=
  match S.map a with
  | some l => { S with cell := Function.update S.cell l b }
  | none => S

/-- The space after the bytes `bs` were stored from `a` on, one after the other. Kind: D -/
def write : Space → ℕ → List UInt8 → Space
  | S, _, [] => S
  | S, a, b :: bs => (S.store a b).write (a + 1) bs

/-- `memcpy(dst, src, n)`. Kind: D -/
def copy (S : Space) (dst src n : ℕ) : Space := S.write dst (S.read src n)

/-- Map the object `o` over `n` addresses from `a` on, in place of what was mapped there. Kind: D -/
def mmap (S : Space) (a n o : ℕ) : Space :=
  { S with map := fun x => if a ≤ x ∧ x < a + n then some ⟨o, x - a⟩ else S.map x }

/-- The object `o` is created: all its bytes are zero. Kind: D -/
def newObject (S : Space) (o : ℕ) : Space :=
  { S with cell := fun l => if l.obj = o then 0 else S.cell l }

/-- The bytes `bs` are stored in the object `o` from offset `off` on by somebody else who maps it.
Kind: D -/
def writeObject (S : Space) (o off : ℕ) (bs : List UInt8) : Space :=
  { S with cell := fun l =>
      if l.obj = o ∧ off ≤ l.off ∧ l.off < off + bs.length then bs.getD (l.off - off) 0
      else S.cell l }

/-- No byte is mapped at two addresses. Kind: D -/
def Injective (S : Space) : Prop :=
  ∀ a b l, S.map a = some l → S.map b = some l → a = b

variable {S : Space}

/-- The byte at an address is the one it leads to. Kind: L -/
lemma byte_of_map {a : ℕ} {l : Loc} (h : S.map a = some l) : S.byte a = S.cell l := by
  unfold byte
  rw [h]

/-- A read of `n` bytes has length `n`. Kind: L -/
@[simp] lemma length_read (S : Space) (a n : ℕ) : (S.read a n).length = n := by
  simp [read]

/-- The bytes of a read. Kind: L -/
@[simp] lemma getElem_read (S : Space) (a n k : ℕ) (h : k < (S.read a n).length) :
    (S.read a n)[k] = S.byte (a + k) := by
  simp [read]

/-- A read is a list of bytes exactly when its bytes are those of the list. Kind: L -/
lemma read_eq_iff {a n : ℕ} {bs : List UInt8} (hlen : bs.length = n) :
    S.read a n = bs ↔ ∀ k (h : k < bs.length), S.byte (a + k) = bs[k] := by
  constructor
  · rintro rfl k h
    rw [getElem_read]
  · intro h
    apply List.ext_getElem
    · rw [length_read, hlen]
    · intro k _ hk
      rw [getElem_read]
      exact h k hk

/-! ## Stores -/

/-- A store leaves the mapping alone. Kind: L -/
@[simp] lemma map_store (S : Space) (a : ℕ) (b : UInt8) : (S.store a b).map = S.map := by
  unfold store
  split <;> rfl

/-- A write leaves the mapping alone. Kind: L -/
@[simp] lemma map_write (S : Space) (a : ℕ) (bs : List UInt8) : (S.write a bs).map = S.map := by
  induction bs generalizing S a with
  | nil => rfl
  | cons b bs ih => rw [write, ih, map_store]

/-- So does a copy. Kind: L -/
@[simp] lemma map_copy (S : Space) (dst src n : ℕ) : (S.copy dst src n).map = S.map :=
  map_write _ _ _

/-- A store changes the byte its address leads to. Kind: L -/
lemma cell_store_of_map {a : ℕ} {l : Loc} (h : S.map a = some l) (b : UInt8) :
    (S.store a b).cell l = b := by
  unfold store
  rw [h]
  exact Function.update_self _ _ _

/-- A store changes no other byte. Kind: L -/
lemma cell_store_of_ne {a : ℕ} {l : Loc} (h : S.map a ≠ some l) (b : UInt8) :
    (S.store a b).cell l = S.cell l := by
  unfold store
  split
  · next l' hl' =>
      apply Function.update_of_ne
      rintro rfl
      exact h hl'
  · rfl

/-- A write changes no byte that its addresses do not lead to. Kind: L -/
lemma cell_write_of_ne {a : ℕ} {bs : List UInt8} {l : Loc}
    (h : ∀ k < bs.length, S.map (a + k) ≠ some l) : (S.write a bs).cell l = S.cell l := by
  induction bs generalizing S a with
  | nil => rfl
  | cons b bs ih =>
      have hfirst : S.map a ≠ some l := h 0 (by simp)
      rw [write, ih, cell_store_of_ne hfirst]
      intro k hk
      rw [map_store, Nat.add_assoc, Nat.add_comm 1]
      exact h (k + 1) (by simpa using hk)

/-- **What was written is there**, when no byte is mapped twice. Kind: L -/
lemma cell_write_of_map (hinj : S.Injective) {a k : ℕ} {bs : List UInt8} {l : Loc}
    (hk : k < bs.length) (h : S.map (a + k) = some l) : (S.write a bs).cell l = bs[k] := by
  induction bs generalizing S a k with
  | nil => exact absurd hk (Nat.not_lt_zero _)
  | cons b bs ih =>
      have hinj' : (S.store a b).Injective := by
        unfold Injective
        rw [map_store]
        exact hinj
      rw [write]
      rcases k with _ | k
      · -- the later stores go to other addresses, hence to other bytes
        rw [Nat.add_zero] at h
        rw [cell_write_of_ne, cell_store_of_map h]
        · rfl
        · intro j _ hj
          rw [map_store] at hj
          have heq := hinj _ _ _ hj h
          omega
      · rw [ih hinj' (by simpa using hk), List.getElem_cons_succ]
        rw [map_store, Nat.add_assoc, Nat.add_comm 1]
        exact h

/-- **Frame rule**: when no byte is mapped twice, a write changes no byte outside its range.
Kind: L -/
lemma byte_write_of_outside (hinj : S.Injective) {a x : ℕ} {bs : List UInt8}
    (h : x < a ∨ a + bs.length ≤ x) : (S.write a bs).byte x = S.byte x := by
  unfold byte
  rw [map_write]
  split
  · next l hl =>
      apply cell_write_of_ne
      intro k hk hmap
      have heq := hinj _ _ _ hmap hl
      omega
  · rfl

/-! ## Stores of somebody else -/

/-- The bytes that were stored in an object are there. Kind: L -/
lemma cell_writeObject_of_inside {o off i : ℕ} {bs : List UInt8} (h : i < bs.length) :
    (S.writeObject o off bs).cell ⟨o, off + i⟩ = bs[i] := by
  simp [writeObject, h]

/-- No other byte has changed. Kind: L -/
lemma cell_writeObject_of_outside {o off : ℕ} {bs : List UInt8} {l : Loc}
    (h : l.obj = o → l.off < off ∨ off + bs.length ≤ l.off) :
    (S.writeObject o off bs).cell l = S.cell l := by
  unfold writeObject
  apply if_neg
  rintro ⟨hobj, hlo, hhi⟩
  have hout := h hobj
  omega

/-- A write to addresses that lead to an object, in order, is a store in the object: the rest of the
mapping does not matter. Kind: L -/
lemma write_eq_writeObject {a o off : ℕ} {bs : List UInt8}
    (h : ∀ k < bs.length, S.map (a + k) = some ⟨o, off + k⟩) :
    S.write a bs = S.writeObject o off bs := by
  induction bs generalizing S a off with
  | nil =>
      have hnone : ∀ l : Loc, ¬ (l.obj = o ∧ off ≤ l.off ∧ l.off < off + 0) := by omega
      simp only [write, writeObject, List.length_nil, if_neg (hnone _)]
  | cons b bs ih =>
      have hfirst : S.map a = some ⟨o, off⟩ := h 0 (by simp)
      have hrest : ∀ k < bs.length, (S.store a b).map (a + 1 + k) = some ⟨o, off + 1 + k⟩ := by
        intro k hk
        rw [map_store, Nat.add_assoc, Nat.add_comm 1, Nat.add_assoc, Nat.add_comm 1]
        exact h (k + 1) (by simpa using hk)
      rw [write, ih hrest]
      simp only [writeObject, map_store, Space.mk.injEq, true_and]
      funext l
      by_cases hl : l = ⟨o, off⟩
      · subst hl
        rw [if_neg (by simp), if_pos (by simp), cell_store_of_map hfirst]
        simp
      · have hother : S.map a ≠ some l := by
          rw [hfirst]
          simpa using Ne.symm hl
        rw [cell_store_of_ne hother]
        rw [List.length_cons]
        by_cases hin : l.obj = o ∧ off + 1 ≤ l.off ∧ l.off < off + 1 + bs.length
        · rw [if_pos hin, if_pos ⟨hin.1, by omega, by omega⟩,
            show l.off - off = l.off - (off + 1) + 1 by omega, List.getD_cons_succ]
        · rw [if_neg hin, if_neg]
          rintro ⟨hobj, hlo, hhi⟩
          have hne : l.off ≠ off := fun hoff => hl (by rw [← hobj, ← hoff])
          exact hin ⟨hobj, by omega, by omega⟩

/-! ## Mapping -/

/-- Inside the mapped range the addresses lead to the object. Kind: L -/
lemma map_mmap_of_inside {a n o x : ℕ} (h : a ≤ x ∧ x < a + n) :
    (S.mmap a n o).map x = some ⟨o, x - a⟩ :=
  if_pos h

/-- Outside it nothing changes. Kind: L -/
lemma map_mmap_of_outside {a n o x : ℕ} (h : x < a ∨ a + n ≤ x) :
    (S.mmap a n o).map x = S.map x :=
  if_neg (by omega)

/-- Mapping unmaps nothing. Kind: L -/
lemma Mapped.mmap {a n : ℕ} (h : S.Mapped a n) (b m o : ℕ) : (S.mmap b m o).Mapped a n := by
  intro k hk
  by_cases hin : b ≤ a + k ∧ a + k < b + m
  · rw [map_mmap_of_inside hin]
    rfl
  · rw [map_mmap_of_outside (by omega)]
    exact h k hk

/-- Mapping an object that was not mapped keeps the bytes apart. Kind: L -/
lemma Injective.mmap (hinj : S.Injective) {a n o : ℕ} (ho : ∀ x l, S.map x = some l → l.obj ≠ o) :
    (S.mmap a n o).Injective := by
  intro x y l hx hy
  by_cases hxa : a ≤ x ∧ x < a + n
  · rw [map_mmap_of_inside hxa] at hx
    cases hx
    by_cases hya : a ≤ y ∧ y < a + n
    · rw [map_mmap_of_inside hya, Option.some.injEq, Loc.mk.injEq] at hy
      omega
    · rw [map_mmap_of_outside (by omega)] at hy
      exact absurd rfl (ho _ _ hy)
  · rw [map_mmap_of_outside (by omega)] at hx
    by_cases hya : a ≤ y ∧ y < a + n
    · rw [map_mmap_of_inside hya] at hy
      cases hy
      exact absurd rfl (ho _ _ hx)
    · rw [map_mmap_of_outside (by omega)] at hy
      exact hinj _ _ _ hx hy

end Space

end FreeFlow.Found
