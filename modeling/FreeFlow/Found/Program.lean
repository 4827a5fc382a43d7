import Mathlib.Logic.Function.Basic
import Mathlib.Tactic

/-!
# Programs over a memory they share

A program that reads and writes single cells of a memory and calls its environment, one such
operation at a time. It is a well-founded tree, so it always ends; what it does next may depend on
everything it has read and on everything its calls returned.

* `Program`, `Program.next` — a program, and one operation of it.
* `Reaches` — operations taken one after the other with nobody else at the memory.
* `Runs` — a whole such run: the meaning of a program as a relation between memories.
* `Program.steps_to_done` — a program left alone comes to its end, whatever its calls return.

Nothing here names a program of the repository.
-/

namespace FreeFlow.Found

variable {κ V R : Type*}

/-- A program over cells `κ` with values `V` whose calls return an `R`. Kind: D -/
inductive Program (κ V R : Type*)
  | done
  | read (c : κ) (k : V → Program κ V R)
  | write (c : κ) (v : V) (p : Program κ V R)
  | call (k : R → Program κ V R)

variable [DecidableEq κ]

/-- The next operation of a program on a memory; `r` is what the environment returns if the
operation is a call. A program that has ended has none. Kind: D -/
def Program.next (r : R) : Program κ V R → (κ → V) → Option (Program κ V R × (κ → V))
  | .done, _ => none
  | .read c k, m => some (k (m c), m)
  | .write c v p, m => some (p, Function.update m c v)
  | .call k, m => some (k r, m)

/-- From program `p` on memory `m`, left alone, to program `q` on memory `n`. Kind: D -/
inductive Reaches (p : Program κ V R) (m : κ → V) : Program κ V R → (κ → V) → Prop
  | refl : Reaches p m p m
  | tail {q q' : Program κ V R} {n n' : κ → V} (r : R) :
      Reaches p m q n → q.next r n = some (q', n') → Reaches p m q' n'

/-- A whole run of the program turns the memory `m` into `n`. Kind: D -/
def Runs (p : Program κ V R) (m n : κ → V) : Prop := Reaches p m .done n

/-- `k` operations, the calls among them answered by `r`. Kind: D -/
def Program.steps (r : ℕ → R) : ℕ → Program κ V R → (κ → V) → Option (Program κ V R × (κ → V))
  | 0, p, m => some (p, m)
  | k + 1, p, m => (p.next (r 0) m).bind fun q => steps (fun i => r (i + 1)) k q.1 q.2

/-- **A program left alone ends**, whatever its calls return. Kind: P -/
theorem Program.steps_to_done (r : ℕ → R) (p : Program κ V R) (m : κ → V) :
    ∃ k n, p.steps r k m = some (.done, n) := by
  induction p generalizing r m with
  | done => exact ⟨0, m, rfl⟩
  | read c k ih =>
      obtain ⟨j, n, h⟩ := ih (m c) (fun i => r (i + 1)) m
      exact ⟨j + 1, n, h⟩
  | write c v p ih =>
      obtain ⟨j, n, h⟩ := ih (fun i => r (i + 1)) (Function.update m c v)
      exact ⟨j + 1, n, h⟩
  | call k ih =>
      obtain ⟨j, n, h⟩ := ih (r 0) (fun i => r (i + 1)) m
      exact ⟨j + 1, n, h⟩

end FreeFlow.Found
