import Mathlib.Data.List.GetD
import Mathlib.Tactic

/-!
# Byte-addressed memory with little-endian words

A memory is a function from addresses to bytes. The file gives the copy operations of the C
library (`read`, `write`), the two little-endian word views the wire structs are made of
(`u32`, `u64` with their stores) and the frame rules that every proof about a struct in memory
uses:

* **what was written is read back** (`read_write_same`, `read_write_slice`, `u32_setU32`,
  `u64_setU64`);
* **a store leaves every disjoint read alone** (`read_write_disjoint` and its four word forms).

Nothing here names a program: the addresses are naturals, the contents are bytes.
-/

namespace FreeFlow.Found

/-- A byte-addressed memory.
Kind: D -/
abbrev Mem := ℕ → UInt8

namespace Mem

/-! ## Little-endian words -/

/-- The `w` low bytes of `v`, least significant first.
Kind: D -/
def toLE : ℕ → ℕ → List UInt8
  | 0, _ => []
  | w + 1, v => UInt8.ofNat v :: toLE w (v / 256)

/-- The number a list of bytes denotes, least significant first.
Kind: D -/
def ofLE : List UInt8 → ℕ
  | [] => 0
  | b :: bs => b.toNat + 256 * ofLE bs

/-- `toLE w` gives `w` bytes. Kind: L -/
@[simp] lemma length_toLE (w v : ℕ) : (toLE w v).length = w := by
  induction w generalizing v with
  | zero => rfl
  | succ w ih => simp [toLE, ih]

/-- The bytes of a `w`-byte number denote it. Kind: L -/
lemma ofLE_toLE (w v : ℕ) (hv : v < 256 ^ w) : ofLE (toLE w v) = v := by
  induction w generalizing v with
  | zero =>
      have hz : v = 0 := by simpa using hv
      simp [toLE, ofLE, hz]
  | succ w ih =>
      have hdiv : v / 256 < 256 ^ w := by
        apply Nat.div_lt_of_lt_mul
        rw [pow_succ] at hv
        omega
      simp only [toLE, ofLE, ih _ hdiv, UInt8.toNat_ofNat']
      omega

/-- The number that `w` bytes denote has `w` bytes. Kind: L -/
lemma ofLE_lt (bs : List UInt8) : ofLE bs < 256 ^ bs.length := by
  induction bs with
  | nil => exact Nat.one_pos
  | cons b bs ih =>
      have hb : b.toNat < 256 := b.toNat_lt
      rw [ofLE, List.length_cons, pow_succ]
      omega

/-- The bytes of the number that a list of bytes denotes. Kind: L -/
lemma toLE_ofLE (bs : List UInt8) : toLE bs.length (ofLE bs) = bs := by
  induction bs with
  | nil => rfl
  | cons b bs ih =>
      have hb : b.toNat < 256 := b.toNat_lt
      have hlow : UInt8.ofNat (b.toNat + 256 * ofLE bs) = b := by
        rw [← UInt8.toNat_inj, UInt8.toNat_ofNat']
        omega
      have hhigh : (b.toNat + 256 * ofLE bs) / 256 = ofLE bs := by omega
      rw [List.length_cons, ofLE, toLE, hlow, hhigh, ih]

/-! ## Fields of a fixed size -/

/-- `n` bytes that start with `bs`, when `bs` is not longer; the rest was cleared before.
Kind: D -/
def padTo (n : ℕ) (bs : List UInt8) : List UInt8 := bs ++ List.replicate (n - bs.length) 0

/-- A field of `n` bytes is cleared and `bs` is copied into it. There is no result if the copy
leaves the field.
Kind: D -/
def fill (n : ℕ) (bs : List UInt8) : Option (List UInt8) :=
  if bs.length ≤ n then some (padTo n bs) else none

/-- A field has its length. Kind: L -/
lemma length_padTo {n : ℕ} {bs : List UInt8} (h : bs.length ≤ n) : (padTo n bs).length = n := by
  simp only [padTo, List.length_append, List.length_replicate]
  omega

/-- What was copied into a field is read from it. Kind: L -/
lemma take_padTo_append (n : ℕ) (bs rest : List UInt8) :
    (padTo n bs ++ rest).take bs.length = bs := by
  rw [padTo, List.append_assoc, List.take_left]

/-- The copy stays in the field when it is not longer. Kind: L -/
lemma fill_eq_some_iff {n : ℕ} {bs field : List UInt8} :
    fill n bs = some field ↔ bs.length ≤ n ∧ padTo n bs = field := by
  unfold fill
  split
  case isTrue h => simp [h]
  case isFalse h => simp [h]

/-! ## Copying bytes in and out -/

/-- The `n` bytes at `a`.
Kind: D -/
def read (m : Mem) (a n : ℕ) : List UInt8 := (List.range n).map fun k => m (a + k)

/-- The memory after the bytes `bs` were copied to `a`.
Kind: D -/
def write (m : Mem) (a : ℕ) (bs : List UInt8) : Mem := fun x =>
  if a ≤ x ∧ x < a + bs.length then bs.getD (x - a) 0 else m x

/-- A read of `n` bytes has length `n`. Kind: L -/
@[simp] lemma length_read (m : Mem) (a n : ℕ) : (m.read a n).length = n := by
  simp [read]

/-- A read is determined by the bytes of its range. Kind: L -/
lemma read_congr {m m' : Mem} {a n : ℕ} (h : ∀ x, a ≤ x → x < a + n → m x = m' x) :
    m.read a n = m'.read a n := by
  unfold read
  apply List.map_congr_left
  intro k hk
  rw [List.mem_range] at hk
  exact h (a + k) (by omega) (by omega)

/-- Two ranges with the same bytes read the same, wherever they lie. Kind: L -/
lemma read_congr_shift {m m' : Mem} {a b n : ℕ} (h : ∀ k < n, m (a + k) = m' (b + k)) :
    m.read a n = m'.read b n := by
  unfold read
  apply List.map_congr_left
  intro k hk
  exact h k (List.mem_range.mp hk)

/-- Outside the written range nothing changes. Kind: L -/
lemma write_apply_of_outside {m : Mem} {a : ℕ} {bs : List UInt8} {x : ℕ}
    (h : x < a ∨ a + bs.length ≤ x) : m.write a bs x = m x := by
  unfold write
  rw [if_neg (by omega)]

/-- **Frame rule**: a read disjoint from the written range is unchanged. Kind: L -/
lemma read_write_disjoint {m : Mem} {a b n : ℕ} {bs : List UInt8}
    (h : b + n ≤ a ∨ a + bs.length ≤ b) : (m.write a bs).read b n = m.read b n := by
  apply read_congr
  intro x hx hx'
  exact write_apply_of_outside (by omega)

/-- A read inside the written range gives the slice of the written bytes. Kind: L -/
lemma read_write_slice {m : Mem} {a k n : ℕ} {bs : List UInt8} (h : k + n ≤ bs.length) :
    (m.write a bs).read (a + k) n = (bs.drop k).take n := by
  apply List.ext_getElem
  · simp
    omega
  · intro i hi _
    rw [length_read] at hi
    have hin : a ≤ a + k + i ∧ a + k + i < a + bs.length := by omega
    have hidx : a + k + i - a = k + i := by omega
    simp only [read, List.getElem_map, List.getElem_range, write, if_pos hin, hidx,
      List.getElem_take, List.getElem_drop]
    rw [List.getD_eq_getElem _ _ (by omega)]

/-- What was written is read back. Kind: L -/
lemma read_write_same (m : Mem) (a : ℕ) (bs : List UInt8) :
    (m.write a bs).read a bs.length = bs := by
  have h : (m.write a bs).read (a + 0) bs.length = (bs.drop 0).take bs.length :=
    read_write_slice (by omega)
  simpa using h

/-- A read of a range is read piecewise. Kind: L -/
lemma read_add (m : Mem) (a n k : ℕ) : m.read a (n + k) = m.read a n ++ m.read (a + n) k := by
  unfold read
  rw [List.range_add, List.map_append, List.map_map]
  congr 1
  apply List.map_congr_left
  intro i _
  simp [Nat.add_assoc]

/-- Two ranges with the same bytes have the same slices. Kind: L -/
lemma read_slice {m m' : Mem} {a b n : ℕ} (h : m.read a n = m'.read b n) {k l : ℕ}
    (hkl : k + l ≤ n) : m.read (a + k) l = m'.read (b + k) l := by
  obtain ⟨r, rfl⟩ := Nat.exists_eq_add_of_le hkl
  rw [read_add, read_add, read_add, read_add] at h
  obtain ⟨hfront, _⟩ := List.append_inj h (by simp)
  obtain ⟨_, hmid⟩ := List.append_inj hfront (by simp)
  exact hmid

/-! ## Word views -/

/-- The little-endian 32-bit word at `a`. Kind: D -/
def u32 (m : Mem) (a : ℕ) : UInt32 := UInt32.ofNat (ofLE (m.read a 4))

/-- The little-endian 64-bit word at `a`. Kind: D -/
def u64 (m : Mem) (a : ℕ) : UInt64 := UInt64.ofNat (ofLE (m.read a 8))

/-- Store a 32-bit word at `a`. Kind: D -/
def setU32 (m : Mem) (a : ℕ) (v : UInt32) : Mem := m.write a (toLE 4 v.toNat)

/-- Store a 64-bit word at `a`. Kind: D -/
def setU64 (m : Mem) (a : ℕ) (v : UInt64) : Mem := m.write a (toLE 8 v.toNat)

/-- A 32-bit view is determined by its four bytes. Kind: L -/
lemma u32_congr {m m' : Mem} {a b : ℕ} (h : m.read a 4 = m'.read b 4) : m.u32 a = m'.u32 b := by
  rw [u32, u32, h]

/-- A 64-bit view is determined by its eight bytes. Kind: L -/
lemma u64_congr {m m' : Mem} {a b : ℕ} (h : m.read a 8 = m'.read b 8) : m.u64 a = m'.u64 b := by
  rw [u64, u64, h]

/-- Equal 64-bit words have equal bytes. Kind: L -/
lemma read_eq_of_u64_eq {m m' : Mem} {a b : ℕ} (h : m.u64 a = m'.u64 b) :
    m.read a 8 = m'.read b 8 := by
  have hlt : ∀ (m : Mem) (a : ℕ), ofLE (m.read a 8) < 2 ^ 64 := by
    intro m a
    have hbytes := ofLE_lt (m.read a 8)
    rw [length_read] at hbytes
    exact lt_of_lt_of_eq hbytes (by norm_num)
  have hnum : ofLE (m.read a 8) = ofLE (m'.read b 8) := by
    have hnat := congrArg UInt64.toNat h
    rwa [u64, u64, UInt64.toNat_ofNat', UInt64.toNat_ofNat', Nat.mod_eq_of_lt (hlt m a),
      Nat.mod_eq_of_lt (hlt m' b)] at hnat
  have hbytes := toLE_ofLE (m.read a 8)
  have hbytes' := toLE_ofLE (m'.read b 8)
  rw [length_read] at hbytes hbytes'
  rw [← hbytes, ← hbytes', hnum]

/-- A stored 32-bit word is read back. Kind: L -/
@[simp] lemma u32_setU32 (m : Mem) (a : ℕ) (v : UInt32) : (m.setU32 a v).u32 a = v := by
  have hread := read_write_same m a (toLE 4 v.toNat)
  rw [length_toLE] at hread
  have hv : v.toNat < 256 ^ 4 := lt_of_lt_of_eq v.toNat_lt (by norm_num)
  rw [u32, setU32, hread, ofLE_toLE _ _ hv, UInt32.ofNat_toNat]

/-- A stored 64-bit word is read back. Kind: L -/
@[simp] lemma u64_setU64 (m : Mem) (a : ℕ) (v : UInt64) : (m.setU64 a v).u64 a = v := by
  have hread := read_write_same m a (toLE 8 v.toNat)
  rw [length_toLE] at hread
  have hv : v.toNat < 256 ^ 8 := lt_of_lt_of_eq v.toNat_lt (by norm_num)
  rw [u64, setU64, hread, ofLE_toLE _ _ hv, UInt64.ofNat_toNat]

/-- Outside its eight bytes a 64-bit store changes nothing. Kind: L -/
lemma setU64_apply_of_outside {m : Mem} {a : ℕ} {v : UInt64} {x : ℕ} (h : x < a ∨ a + 8 ≤ x) :
    m.setU64 a v x = m x :=
  write_apply_of_outside (by simpa using h)

/-- Outside its four bytes a 32-bit store changes nothing. Kind: L -/
lemma setU32_apply_of_outside {m : Mem} {a : ℕ} {v : UInt32} {x : ℕ} (h : x < a ∨ a + 4 ≤ x) :
    m.setU32 a v x = m x :=
  write_apply_of_outside (by simpa using h)

/-- Frame rule for a 32-bit store. Kind: L -/
lemma read_setU32_disjoint {m : Mem} {a b n : ℕ} {v : UInt32} (h : b + n ≤ a ∨ a + 4 ≤ b) :
    (m.setU32 a v).read b n = m.read b n :=
  read_write_disjoint (by simpa using h)

/-- A 32-bit word disjoint from a 32-bit store is unchanged. Kind: L -/
lemma u32_setU32_disjoint {m : Mem} {a b : ℕ} {v : UInt32} (h : b + 4 ≤ a ∨ a + 4 ≤ b) :
    (m.setU32 a v).u32 b = m.u32 b :=
  u32_congr (read_setU32_disjoint h)

/-- Frame rule for a 64-bit store. Kind: L -/
lemma read_setU64_disjoint {m : Mem} {a b n : ℕ} {v : UInt64} (h : b + n ≤ a ∨ a + 8 ≤ b) :
    (m.setU64 a v).read b n = m.read b n :=
  read_write_disjoint (by simpa using h)

end Mem

end FreeFlow.Found
