import Mathlib.Data.List.GetD
import Mathlib.Tactic

/-!
# A ring of slots as a queue

`N` slots, a counter `tail` of what was taken and a counter `head` of what was put, both modulo
`N`. `Holds` says which queue the ring stands for: from `tail` on, slot by slot, its elements.

* `Holds.push` — writing at `head` and advancing it appends to the queue, while there is room.
* `Holds.pop` — the slot at `tail` is the first element, and advancing `tail` removes it.
* `Holds.set_first` — writing at `tail` replaces the first element.
* `Holds.tail_ne_head_iff` — with a slot to spare, the counters tell whether the queue is empty;
  `Holds.contents_eq` — and which queue it is.

A ring that is full (`N` elements, `head = tail`) is still read correctly; only the next write
would overwrite. Nothing here names a program.
-/

namespace FreeFlow.Found

namespace Ring

variable {α : Type*}

/-- The ring of `N` slots with the counters `tail` and `head` stands for the queue `q`.
Kind: D -/
structure Holds (slots : ℕ → α) (N tail head : ℕ) (q : List α) : Prop where
  tail_lt : tail < N
  room : q.length ≤ N
  head_eq : head = (tail + q.length) % N
  slot : ∀ i (h : i < q.length), slots ((tail + i) % N) = q[i]

variable {slots : ℕ → α} {N tail head : ℕ} {q : List α} {x : α}

/-- With both counters equal the ring stands for the empty queue. Kind: L -/
lemma holds_nil (slots : ℕ → α) {N tail : ℕ} (h : tail < N) : Holds slots N tail tail [] where
  tail_lt := h
  room := Nat.zero_le _
  head_eq := (Nat.mod_eq_of_lt h).symm
  slot := fun _ h => absurd h (Nat.not_lt_zero _)

/-- Two positions of a ring that are less than a round apart are different slots. Kind: L -/
lemma mod_ne_of_lt {i j : ℕ} (hij : i < j) (hj : j < N) : (tail + i) % N ≠ (tail + j) % N := by
  intro heq
  have hdvd : N ∣ tail + j - (tail + i) := (Nat.modEq_iff_dvd' (by omega)).mp heq
  have hle := Nat.le_of_dvd (by omega) hdvd
  omega

/-- **Push**: while there is room, writing at `head` and advancing it appends. Kind: L -/
lemma Holds.push (h : Holds slots N tail head q) (hroom : q.length < N) (x : α) :
    Holds (Function.update slots head x) N tail ((head + 1) % N) (q ++ [x]) where
  tail_lt := h.tail_lt
  room := by
    rw [List.length_append]
    exact hroom
  head_eq := by
    rw [h.head_eq, Nat.mod_add_mod, List.length_append]
    rfl
  slot := by
    intro i hi
    rw [List.length_append, List.length_singleton] at hi
    rw [h.head_eq]
    by_cases hlast : i = q.length
    · subst hlast
      simp
    · -- an older element sits in another slot
      have hlt : i < q.length := by omega
      rw [Function.update_of_ne (mod_ne_of_lt hlt hroom), h.slot i hlt,
        List.getElem_append_left hlt]

/-- **Pop**: the slot at `tail` is the first element, and advancing `tail` removes it.
Kind: L -/
lemma Holds.pop (h : Holds slots N tail head (x :: q)) :
    slots tail = x ∧ Holds slots N ((tail + 1) % N) head q := by
  have hpos : 0 < N := by
    have htail := h.tail_lt
    omega
  refine ⟨?_, Nat.mod_lt _ hpos, ?_, ?_, ?_⟩
  · have hfirst := h.slot 0 (by simp)
    rwa [Nat.add_zero, Nat.mod_eq_of_lt h.tail_lt] at hfirst
  · have hlen := h.room
    rw [List.length_cons] at hlen
    omega
  · rw [h.head_eq, Nat.mod_add_mod, List.length_cons, Nat.add_assoc, Nat.add_comm 1]
  · intro i hi
    have hslot := h.slot (i + 1) (by simpa using hi)
    rw [Nat.mod_add_mod, Nat.add_assoc, Nat.add_comm 1, hslot, List.getElem_cons_succ]

/-- The first element is replaced in its slot. Kind: L -/
lemma Holds.set_first (h : Holds slots N tail head (x :: q)) (y : α) :
    Holds (Function.update slots tail y) N tail head (y :: q) where
  tail_lt := h.tail_lt
  room := h.room
  head_eq := h.head_eq
  slot := by
    intro i hi
    have hroom := h.room
    rw [List.length_cons] at hi hroom
    rcases i with - | i
    · simp [Nat.mod_eq_of_lt h.tail_lt]
    · have hslot := h.slot (i + 1) (by simpa using hi)
      have hne : (tail + 0) % N ≠ (tail + (i + 1)) % N := mod_ne_of_lt (by omega) (by omega)
      rw [Nat.add_zero, Nat.mod_eq_of_lt h.tail_lt] at hne
      rw [Function.update_of_ne hne.symm, hslot, List.getElem_cons_succ, List.getElem_cons_succ]

/-- The counters are equal when the queue is empty, and only then if the ring is never full.
Kind: L -/
lemma Holds.tail_ne_head_iff (h : Holds slots N tail head q) (hroom : q.length < N) :
    tail ≠ head ↔ q ≠ [] := by
  rw [h.head_eq]
  constructor
  · rintro hne rfl
    exact hne (by simp [Nat.mod_eq_of_lt h.tail_lt])
  · intro hq heq
    have hpos : 0 < q.length := List.length_pos_iff.mpr hq
    have hmod : (tail + 0) % N ≠ (tail + q.length) % N := mod_ne_of_lt hpos hroom
    rw [Nat.add_zero, Nat.mod_eq_of_lt h.tail_lt] at hmod
    exact hmod heq

/-- What is in a ring that is never full, as its counters tell. Kind: D -/
def contents (slots : ℕ → α) (N tail head : ℕ) : List α :=
  (List.range ((head + N - tail) % N)).map fun i => slots ((tail + i) % N)

/-- The counters of a ring that is not full tell its queue. Kind: L -/
lemma Holds.contents_eq (h : Holds slots N tail head q) (hroom : q.length < N) :
    contents slots N tail head = q := by
  have htail := h.tail_lt
  have hlen : (head + N - tail) % N = q.length := by
    rw [h.head_eq]
    rcases Nat.lt_or_ge (tail + q.length) N with hlt | hge
    · rw [Nat.mod_eq_of_lt hlt, show tail + q.length + N - tail = q.length + N by omega,
        Nat.add_mod_right, Nat.mod_eq_of_lt hroom]
    · rw [Nat.mod_eq_sub_mod hge, Nat.mod_eq_of_lt (a := tail + q.length - N) (by omega),
        show tail + q.length - N + N - tail = q.length by omega, Nat.mod_eq_of_lt hroom]
  apply List.ext_getElem
  · simp [contents, hlen]
  · intro i hi hi'
    simp [contents, h.slot i hi']

end Ring

end FreeFlow.Found
