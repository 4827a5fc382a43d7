import Mathlib.Data.List.Basic
import Mathlib.Tactic

/-!
# A queue that leads from one state to another

A queue of messages between two parties is often best described by what its elements do, in order,
to a state that no party holds: how far the sender is when the receiver is here and the queue lies
between them. `Leads r s as t` says that the elements of `as` lead from `s` to `t`, each by `r`.

* `Leads.snoc`, `leads_cons` — putting an element at the end, taking one from the front.
* `leads_append_iff` — a queue in two parts.
* `Leads.mono` — a relation and a larger one.
* `Leads.measure`, `Leads.le`, `Leads.preserves` — what every element does, the queue does.

Nothing here names a program.
-/

namespace FreeFlow.Found

variable {σ α : Type*} {r r' : σ → α → σ → Prop} {s t u : σ} {a : α} {as bs : List α}

/-- The elements of the list lead from the first state to the last. Kind: D -/
def Leads (r : σ → α → σ → Prop) : σ → List α → σ → Prop
  | s, [], t => s = t
  | s, a :: as, t => ∃ m, r s a m ∧ Leads r m as t

/-- The empty queue. Kind: L -/
@[simp] lemma leads_nil : Leads r s [] t ↔ s = t := Iff.rfl

/-- The first element and the rest. Kind: L -/
lemma leads_cons : Leads r s (a :: as) t ↔ ∃ m, r s a m ∧ Leads r m as t := Iff.rfl

/-- A queue of one element. Kind: L -/
@[simp] lemma leads_singleton : Leads r s [a] t ↔ r s a t := by
  simp [leads_cons]

/-- A queue in two parts. Kind: L -/
lemma leads_append_iff : Leads r s (as ++ bs) t ↔ ∃ m, Leads r s as m ∧ Leads r m bs t := by
  induction as generalizing s with
  | nil => simp
  | cons a as ih =>
      simp only [List.cons_append, leads_cons, ih]
      constructor
      · rintro ⟨m, hm, m', hm', ht⟩
        exact ⟨m', ⟨m, hm, hm'⟩, ht⟩
      · rintro ⟨m', ⟨m, hm, hm'⟩, ht⟩
        exact ⟨m, hm, m', hm', ht⟩

/-- Two queues one after the other. Kind: L -/
lemma Leads.append (h : Leads r s as t) (h' : Leads r t bs u) : Leads r s (as ++ bs) u :=
  leads_append_iff.mpr ⟨t, h, h'⟩

/-- An element at the end. Kind: L -/
lemma Leads.snoc (h : Leads r s as t) (ha : r t a u) : Leads r s (as ++ [a]) u :=
  h.append (leads_singleton.mpr ha)

/-- A larger relation. Kind: L -/
lemma Leads.mono (h : Leads r s as t) (hr : ∀ s, ∀ a ∈ as, ∀ t, r s a t → r' s a t) :
    Leads r' s as t := by
  induction as generalizing s with
  | nil => exact h
  | cons a as ih =>
      obtain ⟨m, hm, hrest⟩ := h
      exact ⟨m, hr s a (by simp) m hm, ih hrest fun s b hb t => hr s b (by simp [hb]) t⟩

/-- An element of a queue, with what is before it and what is behind it. Kind: L -/
lemma Leads.exists_of_mem (h : Leads r s as t) (ha : a ∈ as) :
    ∃ pre post m m', Leads r s pre m ∧ r m a m' ∧ Leads r m' post t := by
  obtain ⟨pre, post, rfl⟩ := List.append_of_mem ha
  obtain ⟨m, hpre, m', hm, hpost⟩ := leads_append_iff.mp h
  exact ⟨pre, post, m, m', hpre, hm, hpost⟩

/-- What every element adds to a measure adds up. Kind: L -/
lemma Leads.measure {μ : σ → ℕ} {w : α → ℕ} (h : Leads r s as t)
    (hr : ∀ s a t, r s a t → μ t = μ s + w a) : μ t = μ s + (as.map w).sum := by
  induction as generalizing s with
  | nil =>
      cases h
      simp
  | cons a as ih =>
      obtain ⟨m, hm, hrest⟩ := h
      rw [ih hrest, hr s a m hm, List.map_cons, List.sum_cons, Nat.add_assoc]

/-- A measure that no element lowers. Kind: L -/
lemma Leads.le {μ : σ → ℕ} (h : Leads r s as t) (hr : ∀ s a t, r s a t → μ s ≤ μ t) :
    μ s ≤ μ t := by
  induction as generalizing s with
  | nil =>
      cases h
      exact le_rfl
  | cons a as ih =>
      obtain ⟨m, hm, hrest⟩ := h
      exact (hr s a m hm).trans (ih hrest)

/-- What every element preserves. Kind: L -/
lemma Leads.preserves {P : σ → Prop} (h : Leads r s as t) (hr : ∀ s a t, r s a t → P s → P t)
    (hs : P s) : P t := by
  induction as generalizing s with
  | nil =>
      cases h
      exact hs
  | cons a as ih =>
      obtain ⟨m, hm, hrest⟩ := h
      exact ih hrest (hr s a m hm hs)

end FreeFlow.Found
