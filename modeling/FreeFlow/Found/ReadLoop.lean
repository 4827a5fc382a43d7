import Mathlib.Tactic

/-!
# A loop that reads until it has enough

A process asks a stream for the elements it still needs, appends what it gets, and asks again. What
the stream returns is an error, or some elements, or none at its end. The loop looks at errors and
goes by the count alone otherwise, so at the end of the stream it makes no progress and does not
notice.

* `readLoop` — the loop, for so many rounds.
* `received` — how many elements so many reads return.
* `Stalls` — the reads never fail and never return enough.
* `readLoop_returns_iff` — the loop returns exactly when the reads do not stall.
* `length_of_complete` — what it returns then has the size that was asked for.
* `stalls_of_end` — a stream that ends too early stalls.

Nothing here names a program.
-/

namespace FreeFlow.Found

variable {α : Type*}

/-- How the loop ends: with the elements, or at an error. Kind: D -/
inductive ReadEnd (α : Type*)
  | complete (xs : List α)
  | failed

/-- `while (got < size) { n = read(size - got); if (n < 0) stop; got += n; }` for at most so many
rounds, from the read with number `i` on. The result of a read is `none` for an error, and it is
never longer than what was asked for. With the end comes the number of the next read. Kind: D -/
def readLoop (size : ℤ) (r : ℕ → Option (List α)) : ℕ → ℕ → List α → Option (ReadEnd α × ℕ)
  | 0, _, _ => none
  | rounds + 1, i, got =>
      if (got.length : ℤ) < size then
        match r i with
        | none => some (.failed, i + 1)
        | some xs => readLoop size r rounds (i + 1) (got ++ xs.take (size - got.length).toNat)
      else some (.complete got, i)

/-- The number of elements that `k` reads return, from number `i` on. Kind: D -/
def received (r : ℕ → Option (List α)) (i : ℕ) : ℕ → ℕ
  | 0 => 0
  | k + 1 => ((r i).getD []).length + received r (i + 1) k

/-- No read from number `i` on fails, and together they never return `size` elements. Kind: D -/
def Stalls (r : ℕ → Option (List α)) (i : ℕ) (size : ℤ) : Prop :=
  ∀ k, r (i + k) ≠ none ∧ (received r i k : ℤ) < size

variable {r : ℕ → Option (List α)} {size : ℤ}

/-- A loop that returns has met an error, or enough elements. Kind: L -/
lemma exists_of_readLoop {rounds i : ℕ} {got : List α}
    (h : (readLoop size r rounds i got).isSome) :
    ∃ k, r (i + k) = none ∨ size ≤ got.length + received r i k := by
  induction rounds generalizing i got with
  | zero => exact absurd h (by simp [readLoop])
  | succ rounds ih =>
      rw [readLoop] at h
      split at h
      · cases hr : r i with
        | none => exact ⟨0, .inl hr⟩
        | some xs =>
            rw [hr] at h
            obtain ⟨k, hk⟩ := ih h
            refine ⟨k + 1, hk.imp (fun herr => ?_) fun hle => ?_⟩
            · rwa [Nat.add_right_comm] at herr
            · rw [List.length_append, List.length_take] at hle
              rw [received, hr, Option.getD_some]
              push_cast at hle ⊢
              omega
      · next hge => exact ⟨0, .inr (by simp only [received]; omega)⟩

/-- A loop that meets an error or gets enough elements returns. Kind: L -/
lemma readLoop_of_exists {k i : ℕ} {got : List α}
    (h : r (i + k) = none ∨ size ≤ got.length + received r i k) :
    ∃ rounds, (readLoop size r rounds i got).isSome := by
  induction k generalizing i got with
  | zero =>
      refine ⟨1, ?_⟩
      rw [readLoop]
      split
      · next hlt =>
          rcases h with herr | hle
          · rw [Nat.add_zero] at herr
            rw [herr]
            rfl
          · simp only [received] at hle
            omega
      · rfl
  | succ k ih =>
      by_cases hlt : (got.length : ℤ) < size
      · cases hr : r i with
        | none => exact ⟨1, by rw [readLoop, if_pos hlt, hr]; rfl⟩
        | some xs =>
            obtain ⟨rounds, hrounds⟩ :
                ∃ rounds, (readLoop size r rounds (i + 1)
                  (got ++ xs.take (size - got.length).toNat)).isSome := by
              apply ih
              rcases h with herr | hle
              · left
                rwa [Nat.add_right_comm]
              · right
                rw [received, hr, Option.getD_some] at hle
                rw [List.length_append, List.length_take]
                push_cast at hle ⊢
                omega
            exact ⟨rounds + 1, by rw [readLoop, if_pos hlt, hr]; exact hrounds⟩
      · exact ⟨1, by rw [readLoop, if_neg hlt]; rfl⟩

/-- **The loop returns** exactly when the reads do not stall. Kind: P -/
theorem readLoop_returns_iff (i : ℕ) :
    (∃ rounds, (readLoop size r rounds i []).isSome) ↔ ¬ Stalls r i size := by
  constructor
  · rintro ⟨rounds, h⟩ hstalls
    obtain ⟨k, herr | hle⟩ := exists_of_readLoop h
    · exact (hstalls k).1 herr
    · have hlt := (hstalls k).2
      simp only [List.length_nil, Nat.cast_zero, zero_add] at hle
      omega
  · intro hstalls
    unfold Stalls at hstalls
    obtain ⟨k, hk⟩ := not_forall.mp hstalls
    apply readLoop_of_exists (k := k)
    by_cases herr : r (i + k) = none
    · exact .inl herr
    · right
      have hge : ¬ (received r i k : ℤ) < size := fun hlt => hk ⟨herr, hlt⟩
      simp only [List.length_nil, Nat.cast_zero, zero_add]
      omega

/-- More rounds change nothing. Kind: L -/
lemma readLoop_mono {rounds rounds' i : ℕ} {got : List α} {e : ReadEnd α × ℕ}
    (h : readLoop size r rounds i got = some e) (hle : rounds ≤ rounds') :
    readLoop size r rounds' i got = some e := by
  induction rounds generalizing rounds' i got with
  | zero => exact absurd h (by simp [readLoop])
  | succ rounds ih =>
      obtain ⟨m, rfl⟩ : ∃ m, rounds' = m + 1 := ⟨rounds' - 1, by omega⟩
      rw [readLoop] at h ⊢
      split at h
      · next hlt =>
          rw [if_pos hlt]
          cases hr : r i with
          | none => simpa [hr] using h
          | some xs =>
              rw [hr] at h
              exact ih h (by omega)
      · next hge => rwa [if_neg hge]

/-- **What a complete loop returns** has the size that was asked for. Kind: L -/
lemma length_of_complete {rounds i j : ℕ} {got xs : List α}
    (h : readLoop size r rounds i got = some (.complete xs, j)) (hgot : got.length ≤ size.toNat) :
    xs.length = size.toNat := by
  induction rounds generalizing i got with
  | zero => exact absurd h (by simp [readLoop])
  | succ rounds ih =>
      rw [readLoop] at h
      split at h
      · next hlt =>
          cases hr : r i with
          | none => simp [hr] at h
          | some ys =>
              rw [hr] at h
              apply ih h
              rw [List.length_append, List.length_take]
              omega
      · next hge =>
          simp only [Option.some.injEq, Prod.mk.injEq, ReadEnd.complete.injEq] at h
          rw [← h.1]
          omega

/-- Reads behind the end of a stream add nothing. Kind: L -/
lemma received_of_end {i n k : ℕ} (hend : ∀ j, r (i + n + j) = some []) :
    received r i k ≤ received r i n := by
  induction n generalizing i k with
  | zero =>
      have hzero : ∀ k i, (∀ j, r (i + j) = some []) → received r i k = 0 := by
        intro k
        induction k with
        | zero => exact fun _ _ => rfl
        | succ k ih =>
            intro i h
            have hfirst : r i = some [] := h 0
            have hrest := ih (i + 1) fun j => by rw [Nat.add_assoc]; exact h (1 + j)
            rw [received, hfirst, hrest]
            rfl
      rw [hzero k i (by simpa using hend)]
      exact Nat.zero_le _
  | succ n ih =>
      cases k with
      | zero => exact Nat.zero_le _
      | succ k =>
          rw [received, received]
          have hle := ih (i := i + 1) (k := k) fun j => by
            rw [show i + 1 + n + j = i + (n + 1) + j by omega]
            exact hend j
          omega

/-- **A stream that ends too early stalls.** Kind: P -/
theorem stalls_of_end {i n : ℕ} (hread : ∀ j < n, r (i + j) ≠ none)
    (hend : ∀ j, r (i + n + j) = some []) (hshort : (received r i n : ℤ) < size) :
    Stalls r i size := by
  intro k
  constructor
  · by_cases hk : k < n
    · exact hread k hk
    · rw [show i + k = i + n + (k - n) by omega, hend]
      simp
  · have hle := received_of_end (k := k) hend
    omega

end FreeFlow.Found
