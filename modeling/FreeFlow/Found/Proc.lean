import Mathlib.Tactic

/-!
# Procedures on a shared state that can stop early

A handler of a server works on tables that outlive it, and it can leave at any point: the tables are
then as it left them. Such a procedure takes a state to a result, which is a value or the reason why
it stopped, and to a state, which is there in either case.

* `Proc` — procedures, as a monad.
* `Proc.get`, `Proc.modify`, `Proc.stop` — look at the state, change it, leave.
* `Proc.Ends` — a procedure ends in a state, with a value or by a stop that is allowed.
* the `simp` lemmas follow a procedure statement by statement.

Nothing here names a program.
-/

namespace FreeFlow.Found

universe u v w

/-- A procedure on states `σ` that returns an `α` or stops with an `ε`. Kind: D -/
def Proc (σ : Type u) (ε : Type v) (α : Type w) : Type (max u v w) := σ → Except ε α × σ

namespace Proc

variable {σ : Type u} {ε : Type v} {α β γ : Type w}

/-- One after the other; a procedure that has stopped is not gone on with. Kind: D -/
def andThen (x : Proc σ ε α) (f : α → Proc σ ε β) : Proc σ ε β := fun s =>
  match x s with
  | (.ok a, s') => f a s'
  | (.error e, s') => (.error e, s')

instance : Monad (Proc σ ε) where
  pure a s := (.ok a, s)
  bind := andThen

/-- What the state says. Kind: D -/
def get (f : σ → α) : Proc σ ε α := fun s => (.ok (f s), s)

/-- Change the state. Kind: D -/
def modify (f : σ → σ) : Proc σ ε PUnit := fun s => (.ok ⟨⟩, f s)

/-- Leave. Kind: D -/
def stop (e : ε) : Proc σ ε α := fun s => (.error e, s)

/-- Run in `s`, the procedure ends in `s'`: with a value, or by a stop that `ok` allows. Kind: D -/
def Ends (x : Proc σ ε α) (ok : ε → Prop) (s s' : σ) : Prop :=
  (x s).2 = s' ∧ ∀ e, (x s).1 = .error e → ok e

/-! ## Sequences -/

@[simp] lemma pure_bind_eq (a : α) (f : α → Proc σ ε β) : (pure a >>= f) = f a := rfl

@[simp] lemma stop_bind_eq (e : ε) (f : α → Proc σ ε β) :
    ((stop e : Proc σ ε α) >>= f) = stop e := rfl

@[simp] lemma bind_bind_eq (x : Proc σ ε α) (f : α → Proc σ ε β) (g : β → Proc σ ε γ) :
    (x >>= f) >>= g = x >>= fun a => f a >>= g := by
  funext s
  change andThen (andThen x f) g s = andThen x (fun a => andThen (f a) g) s
  unfold andThen
  rcases hx : x s with ⟨_ | a, s'⟩ <;> rfl

@[simp] lemma ite_bind_eq {c : Prop} [Decidable c] (x y : Proc σ ε α) (f : α → Proc σ ε β) :
    (if c then x else y) >>= f = if c then x >>= f else y >>= f := by
  split <;> rfl

/-! ## How a procedure ends -/

section Ends

variable {ok : ε → Prop} {s s' : σ}

@[simp] lemma ends_pure (a : α) : (pure a : Proc σ ε α).Ends ok s s' ↔ s = s' :=
  ⟨fun h => h.1, fun h => ⟨h, fun _ he => nomatch he⟩⟩

@[simp] lemma ends_stop (e : ε) : (stop e : Proc σ ε α).Ends ok s s' ↔ ok e ∧ s = s' :=
  ⟨fun h => ⟨h.2 e rfl, h.1⟩, fun h => ⟨h.2, fun _ he => by cases he; exact h.1⟩⟩

@[simp] lemma ends_modify (g : σ → σ) :
    (modify g : Proc σ ε PUnit).Ends ok s s' ↔ g s = s' :=
  ⟨fun h => h.1, fun h => ⟨h, fun _ he => nomatch he⟩⟩

@[simp] lemma ends_get_bind (g : σ → α) (f : α → Proc σ ε β) :
    ((get g : Proc σ ε α) >>= f).Ends ok s s' ↔ (f (g s)).Ends ok s s' := Iff.rfl

@[simp] lemma ends_modify_bind (g : σ → σ) (f : PUnit → Proc σ ε β) :
    ((modify g : Proc σ ε PUnit) >>= f).Ends ok s s' ↔ (f ⟨⟩).Ends ok (g s) s' := Iff.rfl

@[simp] lemma ends_ite {c : Prop} [Decidable c] (x y : Proc σ ε α) :
    (if c then x else y : Proc σ ε α).Ends ok s s' ↔ if c then x.Ends ok s s' else y.Ends ok s s' :=
  by split <;> rfl

end Ends

end Proc

end FreeFlow.Found
