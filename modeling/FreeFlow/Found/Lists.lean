import Mathlib.Data.List.Forall2
import Mathlib.Tactic

/-!
# Lists that go in parallel

Two lists whose elements correspond one by one (`List.Forall₂`): what follows for the elements of
the left one, and the correspondence that a traversal in `Option` sets up.

Nothing here names a program.
-/

namespace FreeFlow.Found

variable {α β : Type*} {R S : α → β → Prop} {l : List α} {u : List β}

/-- What the correspondence says of its left side holds of every element there. Kind: L -/
lemma forall_left_of_forall₂ {p : α → Prop} (h : List.Forall₂ R l u) (hp : ∀ a b, R a b → p a) :
    ∀ a ∈ l, p a :=
  ((List.forall₂_and_left l u).mp (h.imp fun a b hab => ⟨hp a b hab, hab⟩)).1

/-- A correspondence can be weakened with what is known of the elements on the left. Kind: L -/
lemma forall₂_imp_left (h : List.Forall₂ R l u) (himp : ∀ a ∈ l, ∀ b, R a b → S a b) :
    List.Forall₂ S l u := by
  have hand := (List.forall₂_and_left l u).mpr ⟨himp, h⟩
  exact hand.imp fun a b hab => hab.1 b hab.2

/-- Every element on the right corresponds to one on the left. Kind: L -/
lemma exists_left_of_forall₂ (h : List.Forall₂ R l u) {b : β} (hb : b ∈ u) : ∃ a ∈ l, R a b := by
  induction h with
  | nil => exact absurd hb List.not_mem_nil
  | @cons a b' l u hab _ ih =>
      rcases List.mem_cons.mp hb with rfl | hb
      · exact ⟨a, List.mem_cons_self, hab⟩
      · obtain ⟨a', ha', hR⟩ := ih hb
        exact ⟨a', List.mem_cons_of_mem _ ha', hR⟩

/-- Two correspondences with one list give one between the other two. Kind: L -/
lemma forall₂_of_common {γ : Type*} {T : α → γ → Prop} {v : List γ} (h : List.Forall₂ R l u)
    (h' : List.Forall₂ T l v) :
    List.Forall₂ (fun b c => ∃ a ∈ l, R a b ∧ T a c) u v := by
  induction h generalizing v with
  | nil =>
      rw [List.forall₂_nil_left_iff.mp h']
      exact .nil
  | @cons a b l u hab _ ih =>
      obtain ⟨c, v', hac, hrest, rfl⟩ := List.forall₂_cons_left_iff.mp h'
      refine .cons ⟨a, List.mem_cons_self, hab, hac⟩ ((ih hrest).imp fun b c h => ?_)
      obtain ⟨a', ha', hboth⟩ := h
      exact ⟨a', List.mem_cons_of_mem _ ha', hboth⟩

/-- A traversal in `Option` maps element by element. Kind: L -/
lemma forall₂_of_mapM {f : α → Option β} (h : l.mapM f = some u) :
    List.Forall₂ (fun a b => f a = some b) l u := by
  induction l generalizing u with
  | nil =>
      rw [List.mapM_nil, Option.pure_def, Option.some.injEq] at h
      rw [← h]
      exact .nil
  | cons a l ih =>
      simp only [List.mapM_cons, Option.bind_eq_bind, Option.bind_eq_some_iff, Option.pure_def,
        Option.some.injEq] at h
      obtain ⟨b, hb, u', hu', rfl⟩ := h
      exact .cons hb (ih hu')

end FreeFlow.Found
