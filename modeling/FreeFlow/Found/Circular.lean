import FreeFlow.Found.ByteMem

/-!
# A buffer used in a circle

A stream of bytes goes through a buffer of `N` bytes: position `p` of the stream lies in cell
`p % N`. A block of the stream is one piece of the buffer, or two when it runs over the end.

* `cread` — the bytes at `n` positions of the stream from `p` on.
* `cread_add`, `cread_eq_read`, `cread_eq_read_append` — a block in two parts, a block that is one
  piece of the buffer, a block that runs over its end.
* `cwrite` — the copy of a block into the buffer, in one piece or in two.
* `cread_cwrite_same`, `cread_cwrite_of_before` — **what was copied is read back, and positions
  less than a round behind keep their bytes**.
* `cread_write_same`, `cread_write_of_before` — the same for a block copied in one piece.
* `pieces`, `gather` — the pieces of a block, and the bytes that a list of pieces denotes.

Nothing here names a program.
-/

namespace FreeFlow.Found

namespace Mem

/-- The bytes at the `n` positions of the stream from `p` on, in a buffer of `N` bytes. Kind: D -/
def cread (m : Mem) (N p n : ℕ) : List UInt8 := (List.range n).map fun i => m ((p + i) % N)

variable {m : Mem} {N p q n k : ℕ} {bs : List UInt8}

/-- A block has its length. Kind: L -/
@[simp] lemma length_cread (m : Mem) (N p n : ℕ) : (m.cread N p n).length = n := by
  simp [cread]

/-- The empty block. Kind: L -/
@[simp] lemma cread_zero (m : Mem) (N p : ℕ) : m.cread N p 0 = [] := rfl

/-- A block in two parts. Kind: L -/
lemma cread_add (m : Mem) (N p n k : ℕ) :
    m.cread N p (n + k) = m.cread N p n ++ m.cread N (p + n) k := by
  unfold cread
  rw [List.range_add, List.map_append, List.map_map]
  congr 1
  apply List.map_congr_left
  intro i _
  simp [Nat.add_assoc]

/-- Positions of the same cell start the same blocks. Kind: L -/
lemma cread_congr_mod (m : Mem) (n : ℕ) (h : p % N = q % N) : m.cread N p n = m.cread N q n := by
  unfold cread
  apply List.map_congr_left
  intro i _
  rw [Nat.add_mod, h, ← Nat.add_mod]

/-- A block is determined by the cells of its positions. Kind: L -/
lemma cread_congr {m' : Mem} (h : ∀ i < n, m ((p + i) % N) = m' ((p + i) % N)) :
    m.cread N p n = m'.cread N p n := by
  unfold cread
  apply List.map_congr_left
  intro i hi
  exact h i (List.mem_range.mp hi)

/-- The cell of a position of a block that is one piece. Kind: L -/
lemma add_mod_eq_of_lt {i : ℕ} (h : p % N + i < N) : (p + i) % N = p % N + i := by
  rw [Nat.add_mod, Nat.mod_eq_of_lt (a := i) (by omega), Nat.mod_eq_of_lt h]

/-- The cell of a position behind the end of the buffer. Kind: L -/
lemma add_mod_eq_sub {i : ℕ} (h : N ≤ p % N + i) (hi : i ≤ N) (hN : 0 < N) :
    (p + i) % N = p % N + i - N := by
  have hlt := Nat.mod_lt p hN
  have hsplit : p + i = p % N + i - N + N * (p / N + 1) := by
    have hdiv := Nat.mod_add_div p N
    rw [Nat.mul_add, Nat.mul_one]
    omega
  rw [hsplit, Nat.add_mul_mod_self_left, Nat.mod_eq_of_lt (by omega)]

/-- A block that is one piece of the buffer. Kind: L -/
lemma cread_eq_read (m : Mem) (h : p % N + n ≤ N) : m.cread N p n = m.read (p % N) n := by
  unfold cread read
  apply List.map_congr_left
  intro i hi
  have hi' := List.mem_range.mp hi
  rw [add_mod_eq_of_lt (by omega)]

/-- A block that runs over the end of the buffer. Kind: L -/
lemma cread_eq_read_append (m : Mem) (hN : 0 < N) (h : N ≤ p % N + n) (hn : n ≤ N) :
    m.cread N p n = m.read (p % N) (N - p % N) ++ m.read 0 (p % N + n - N) := by
  have hlt := Nat.mod_lt p hN
  have hsplit : n = (N - p % N) + (p % N + n - N) := by omega
  have hzero : (p + (N - p % N)) % N = 0 := by
    rw [add_mod_eq_sub (by omega) (by omega) hN]
    omega
  rw [hsplit, cread_add, cread_eq_read m (by omega), cread_eq_read m (by omega), hzero]
  congr 2
  omega

/-- Two positions less than a round apart are different cells. Kind: L -/
lemma mod_ne_mod_of_lt (h : p < q) (hround : q < p + N) : p % N ≠ q % N := by
  intro heq
  have hdvd : N ∣ q - p := (Nat.modEq_iff_dvd' (by omega)).mp heq
  have hle := Nat.le_of_dvd (by omega) hdvd
  omega

/-! ## A block copied in one piece -/

/-- A block copied in one piece is read back. Kind: L -/
lemma cread_write_same (m : Mem) (h : p % N + bs.length ≤ N) :
    (m.write (p % N) bs).cread N p bs.length = bs := by
  rw [cread_eq_read _ h, read_write_same]

/-- Positions less than a round behind a block copied in one piece keep their bytes. Kind: L -/
lemma cread_write_of_before (m : Mem) (h : q % N + bs.length ≤ N) (hpq : p + n ≤ q)
    (hround : q + bs.length ≤ p + N) : (m.write (q % N) bs).cread N p n = m.cread N p n := by
  apply cread_congr
  intro i hi
  apply write_apply_of_outside
  by_contra hin
  rw [not_or, not_lt, not_le] at hin
  -- the cell would be the one of a position of the copied block
  obtain ⟨j, hj⟩ := Nat.exists_eq_add_of_le hin.1
  refine mod_ne_mod_of_lt (p := p + i) (q := q + j) (N := N) (by omega) (by omega) ?_
  rw [add_mod_eq_of_lt (p := q) (by omega), hj]

/-! ## A block copied in one piece or in two -/

/-- The block `bs` copied to the positions from `p` on: the part that fits before the end of the
buffer, and the rest to its start. Kind: D -/
def cwrite (m : Mem) (N p : ℕ) (bs : List UInt8) : Mem :=
  if bs.length ≤ N - p % N then m.write (p % N) bs
  else (m.write (p % N) (bs.take (N - p % N))).write 0 (bs.drop (N - p % N))

/-- Outside the buffer nothing changes. Kind: L -/
lemma cwrite_apply_of_le (m : Mem) {x : ℕ} (hN : 0 < N) (hlen : bs.length ≤ N) (hx : N ≤ x) :
    m.cwrite N p bs x = m x := by
  have hlt := Nat.mod_lt p hN
  unfold cwrite
  split_ifs with hfit
  · exact write_apply_of_outside (by omega)
  · rw [write_apply_of_outside (by simp; omega), write_apply_of_outside (by simp; omega)]

/-- A copied block is read back. Kind: L -/
lemma cread_cwrite_same (m : Mem) (hN : 0 < N) (hlen : bs.length ≤ N) :
    (m.cwrite N p bs).cread N p bs.length = bs := by
  have hlt := Nat.mod_lt p hN
  unfold cwrite
  split_ifs with hfit
  · exact cread_write_same m (by omega)
  · have htake : (bs.take (N - p % N)).length = N - p % N := by simp; omega
    have hdrop : (bs.drop (N - p % N)).length = p % N + bs.length - N := by simp; omega
    have hfirst := read_write_same m (p % N) (bs.take (N - p % N))
    have hsecond := read_write_same (m.write (p % N) (bs.take (N - p % N))) 0
      (bs.drop (N - p % N))
    rw [htake] at hfirst
    rw [hdrop] at hsecond
    rw [cread_eq_read_append _ hN (by omega) hlen, hsecond,
      read_write_disjoint (by rw [hdrop]; omega), hfirst, List.take_append_drop]

/-- Positions less than a round behind a copied block keep their bytes. Kind: L -/
lemma cread_cwrite_of_before (m : Mem) (hN : 0 < N) (hpq : p + n ≤ q)
    (hround : q + bs.length ≤ p + N) : (m.cwrite N q bs).cread N p n = m.cread N p n := by
  have hlt := Nat.mod_lt q hN
  unfold cwrite
  split_ifs with hfit
  · exact cread_write_of_before m (by omega) hpq hround
  · have htake : (bs.take (N - q % N)).length = N - q % N := by simp; omega
    have hzero : (q + (N - q % N)) % N = 0 := by
      rw [add_mod_eq_sub (by omega) (by omega) hN]
      omega
    have hsecond : ((m.write (q % N) (bs.take (N - q % N))).write ((q + (N - q % N)) % N)
        (bs.drop (N - q % N))).cread N p n
          = (m.write (q % N) (bs.take (N - q % N))).cread N p n :=
      cread_write_of_before _ (by rw [hzero]; simp; omega) (by omega) (by simp; omega)
    rw [hzero] at hsecond
    rw [hsecond, cread_write_of_before m (by omega) hpq (by omega)]

/-! ## Pieces -/

/-- The pieces of the buffer, as offset and length, that the `n` positions from `p` on lie in.
Kind: D -/
def pieces (N p n : ℕ) : List (ℕ × ℕ) :=
  if n ≤ N - p % N then [(p % N, n)] else [(p % N, N - p % N), (0, n - (N - p % N))]

/-- The bytes of a list of pieces, one after the other. Kind: D -/
def gather (m : Mem) (ps : List (ℕ × ℕ)) : List UInt8 := ps.flatMap fun x => m.read x.1 x.2

/-- The pieces of a block give its bytes. Kind: L -/
lemma gather_pieces (m : Mem) (hN : 0 < N) (hn : n ≤ N) :
    m.gather (pieces N p n) = m.cread N p n := by
  have hlt := Nat.mod_lt p hN
  unfold gather pieces
  split_ifs with hfit
  · rw [cread_eq_read m (by omega)]
    simp
  · rw [cread_eq_read_append m hN (by omega) hn]
    have hrest : n - (N - p % N) = p % N + n - N := by omega
    simp [hrest]

end Mem

end FreeFlow.Found
