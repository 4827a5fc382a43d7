import Mathlib.Data.List.Basic
import Mathlib.Tactic

/-!
# Runs of a labelled machine, and what holds along them

A machine is a partial step function: `step s a` is the state after the step labelled `a`, or
`none` when that step cannot be taken in `s`. All choices of the environment (which thread moves,
what the hardware answers) are in the labels, so a run is a list of labels.

* `exec` — the state after a list of steps.
* `Along P` — every step of a run meets the condition `P` in the state it is taken in.
* `exec_invariant` — what every step preserves holds after every run.
* `exec_invariant_along` — the same when only steps that meet a condition preserve it.
* `exists_exec_of_along` — steps that can always be taken make runs that can always be made.
* `length_add_le_of_along` — a run whose steps all lower a number is bounded by it.
* `along_iff_along` — two conditions that agree while an invariant holds agree along runs.
* `append_singleton_eq_append_cons_iff` — where a step of a run that grows at its end can be.
* `along_of_alongB` — on a concrete run a decidable condition is checked by evaluation.
* `Since` — some step of a run met a condition, and no step after it met another one.
* `iff_since_of_step` — a property of states that one kind of step brings about and another kind
  ends holds after a run exactly when a step of the first kind was taken and none of the second
  since then.

Nothing here names a program.
-/

namespace FreeFlow.Found

variable {σ α : Type*}

/-- A step of a run one step longer is the last one, or a step of the run before it. Kind: L -/
lemma append_singleton_eq_append_cons_iff {as pre post : List α} {a b : α} :
    as ++ [a] = pre ++ b :: post ↔
      (as = pre ∧ a = b ∧ post = []) ∨ ∃ post', as = pre ++ b :: post' ∧ post = post' ++ [a] := by
  constructor
  · intro heq
    rcases List.eq_nil_or_concat post with rfl | ⟨post', c, rfl⟩
    · obtain ⟨rfl, hab⟩ := List.append_inj' heq rfl
      cases hab
      exact .inl ⟨rfl, rfl, rfl⟩
    · rw [List.concat_eq_append, ← List.cons_append, ← List.append_assoc] at heq
      obtain ⟨rfl, hac⟩ := List.append_inj' heq rfl
      cases hac
      exact .inr ⟨post', rfl, List.concat_eq_append⟩
  · rintro (⟨rfl, rfl, rfl⟩ | ⟨post', rfl, rfl⟩)
    · rfl
    · simp

variable (step : σ → α → Option σ)

/-- The state after the steps `as`, if they can all be taken. Kind: D -/
def exec : σ → List α → Option σ
  | s, [] => some s
  | s, a :: as => (step s a).bind fun s' => exec s' as

/-- Every step of the run meets `P` in the state it is taken in. Kind: D -/
def Along (P : σ → α → Prop) : σ → List α → Prop
  | _, [] => True
  | s, a :: as => P s a ∧ ∀ s', step s a = some s' → Along P s' as

/-- A condition along a run, from its first step on. Kind: L -/
lemma along_cons {step : σ → α → Option σ} {P : σ → α → Prop} {s s' : σ} {a : α} {as : List α}
    (hP : P s a) (hs : step s a = some s') (hrest : Along step P s' as) :
    Along step P s (a :: as) := by
  refine ⟨hP, fun s'' hs'' => ?_⟩
  rw [hs, Option.some.injEq] at hs''
  exact hs'' ▸ hrest

/-- A condition on the labels alone. Kind: L -/
lemma along_of_forall_mem {P : α → Prop} {s : σ} {as : List α} (h : ∀ a ∈ as, P a) :
    Along step (fun _ a => P a) s as := by
  induction as generalizing s with
  | nil => trivial
  | cons a as ih => exact ⟨h a (by simp), fun s' _ => ih fun b hb => h b (by simp [hb])⟩

/-- `Along`, evaluated: for a decidable condition on a concrete run. Kind: D -/
def alongB (P : σ → α → Prop) [∀ s a, Decidable (P s a)] : σ → List α → Bool
  | _, [] => true
  | s, a :: as => decide (P s a) && (step s a).all fun s' => alongB P s' as

/-- The evaluated form is the condition. Kind: L -/
lemma along_of_alongB {P : σ → α → Prop} [∀ s a, Decidable (P s a)] {s : σ} {as : List α}
    (h : alongB step P s as = true) : Along step P s as := by
  induction as generalizing s with
  | nil => trivial
  | cons a as ih =>
      rw [alongB, Bool.and_eq_true, decide_eq_true_eq] at h
      refine ⟨h.1, fun s' hs' => ih ?_⟩
      rw [hs'] at h
      exact h.2

/-- A first step and the rest of the run. Kind: L -/
lemma exec_cons_eq_some {s t : σ} {a : α} {as : List α} :
    exec step s (a :: as) = some t ↔ ∃ s', step s a = some s' ∧ exec step s' as = some t :=
  Option.bind_eq_some_iff

/-- A run in two parts. Kind: L -/
lemma exec_append (s : σ) (as bs : List α) :
    exec step s (as ++ bs) = (exec step s as).bind fun s' => exec step s' bs := by
  induction as generalizing s with
  | nil => rfl
  | cons a as ih =>
      rw [List.cons_append, exec, exec, Option.bind_assoc]
      exact congrArg _ (funext ih)

/-- A run and a last step. Kind: L -/
lemma exec_append_singleton_eq_some {s t : σ} {as : List α} {a : α} :
    exec step s (as ++ [a]) = some t ↔ ∃ s', exec step s as = some s' ∧ step s' a = some t := by
  rw [exec_append, Option.bind_eq_some_iff]
  simp [exec]

/-- A condition along a run in two parts. Kind: L -/
lemma along_append {P : σ → α → Prop} {s s' : σ} {as bs : List α} (has : Along step P s as)
    (hrun : exec step s as = some s') (hbs : Along step P s' bs) : Along step P s (as ++ bs) := by
  induction as generalizing s with
  | nil =>
      rw [exec, Option.some.injEq] at hrun
      exact hrun ▸ hbs
  | cons a as ih =>
      obtain ⟨t, ht, hrun'⟩ := (exec_cons_eq_some step).mp hrun
      exact along_cons has.1 ht (ih (has.2 t ht) hrun')

variable {step}

/-- **Invariants along conditioned runs**: what every step that meets `P` preserves holds after
every run whose steps all meet `P`. Kind: P -/
theorem exec_invariant_along {P : σ → α → Prop} {Inv : σ → Prop}
    (hstep : ∀ s a s', Inv s → P s a → step s a = some s' → Inv s') {s t : σ} {as : List α}
    (hs : Inv s) (halong : Along step P s as) (hrun : exec step s as = some t) : Inv t := by
  induction as generalizing s with
  | nil =>
      rw [exec, Option.some.injEq] at hrun
      exact hrun ▸ hs
  | cons a as ih =>
      obtain ⟨hP, hrest⟩ := halong
      obtain ⟨s', hs', hrun'⟩ := (exec_cons_eq_some step).mp hrun
      exact ih (hstep s a s' hs hP hs') (hrest s' hs') hrun'

/-- **Invariants**: what every step preserves holds after every run. Kind: P -/
theorem exec_invariant {Inv : σ → Prop} (hstep : ∀ s a s', Inv s → step s a = some s' → Inv s')
    {s t : σ} {as : List α} (hs : Inv s) (hrun : exec step s as = some t) : Inv t := by
  induction as generalizing s with
  | nil =>
      rw [exec, Option.some.injEq] at hrun
      exact hrun ▸ hs
  | cons a as ih =>
      obtain ⟨s', hs', hrun'⟩ := (exec_cons_eq_some step).mp hrun
      exact ih (hstep s a s' hs hs') hrun'

/-- **Runs that do not stop**: when every step that meets `P` can be taken from a state with the
invariant and preserves it, so can every run whose steps all meet `P`. Kind: P -/
theorem exists_exec_of_along {P : σ → α → Prop} {Inv : σ → Prop}
    (hstep : ∀ s a, Inv s → P s a → ∃ s', step s a = some s' ∧ Inv s') {s : σ} {as : List α}
    (hs : Inv s) (halong : Along step P s as) : ∃ t, exec step s as = some t ∧ Inv t := by
  induction as generalizing s with
  | nil => exact ⟨s, rfl, hs⟩
  | cons a as ih =>
      obtain ⟨hP, hrest⟩ := halong
      obtain ⟨s', hs', hinv⟩ := hstep s a hs hP
      obtain ⟨t, ht, hinv'⟩ := ih hinv (hrest s' hs')
      exact ⟨t, (exec_cons_eq_some step).mpr ⟨s', hs', ht⟩, hinv'⟩

/-- **A measure bounds a run**: a run whose steps all lower a number is not longer than that number.
Kind: P -/
theorem length_add_le_of_along {P : σ → α → Prop} {Inv : σ → Prop} {μ : σ → ℕ}
    (hstep : ∀ s a s', Inv s → P s a → step s a = some s' → Inv s' ∧ μ s' < μ s) {s t : σ}
    {as : List α} (hs : Inv s) (halong : Along step P s as) (hrun : exec step s as = some t) :
    as.length + μ t ≤ μ s := by
  induction as generalizing s with
  | nil =>
      rw [exec, Option.some.injEq] at hrun
      rw [hrun, List.length_nil, Nat.zero_add]
  | cons a as ih =>
      obtain ⟨hP, hrest⟩ := halong
      obtain ⟨s', hs', hrun'⟩ := (exec_cons_eq_some step).mp hrun
      obtain ⟨hinv, hlt⟩ := hstep s a s' hs hP hs'
      have hle := ih hinv (hrest s' hs') hrun'
      rw [List.length_cons]
      omega

/-- **Two conditions along a run**: when they agree on every step from a state with the invariant,
and the second preserves it, they agree along every run. Kind: P -/
theorem along_iff_along {P Q : σ → α → Prop} {Inv : σ → Prop}
    (hiff : ∀ s a s', Inv s → step s a = some s' → (P s a ↔ Q s a))
    (hstep : ∀ s a s', Inv s → Q s a → step s a = some s' → Inv s') {s t : σ} {as : List α}
    (hs : Inv s) (hrun : exec step s as = some t) : Along step P s as ↔ Along step Q s as := by
  induction as generalizing s with
  | nil => exact Iff.rfl
  | cons a as ih =>
      obtain ⟨s', hs', hrun'⟩ := (exec_cons_eq_some step).mp hrun
      have hcons : ∀ R : σ → α → Prop,
          Along step R s (a :: as) ↔ R s a ∧ Along step R s' as := fun R =>
        ⟨fun h => ⟨h.1, h.2 s' hs'⟩, fun h => along_cons h.1 hs' h.2⟩
      rw [hcons, hcons, hiff s a s' hs hs']
      exact and_congr_right fun hQ => ih (hstep s a s' hs hQ hs') hrun'

/-! ## What has happened, and has not been undone -/

/-- A condition along a run one step longer. Kind: L -/
lemma along_append_singleton_iff {P : σ → α → Prop} {s t : σ} {as : List α} {a : α}
    (hrun : exec step s as = some t) :
    Along step P s (as ++ [a]) ↔ Along step P s as ∧ P t a := by
  induction as generalizing s with
  | nil =>
      rw [exec, Option.some.injEq] at hrun
      subst hrun
      exact ⟨fun h => ⟨trivial, h.1⟩, fun h => ⟨h.2, fun _ _ => trivial⟩⟩
  | cons b as ih =>
      obtain ⟨s', hs', hrun'⟩ := (exec_cons_eq_some step).mp hrun
      constructor
      · rintro ⟨hb, hrest⟩
        obtain ⟨has, hlast⟩ := (ih hrun').mp (hrest s' hs')
        exact ⟨along_cons hb hs' has, hlast⟩
      · rintro ⟨⟨hb, hrest⟩, hlast⟩
        exact along_cons hb hs' ((ih hrun').mpr ⟨hrest s' hs', hlast⟩)

variable (step) in
/-- Some step met `P`, and none after it met `Q`. Kind: D -/
def Since (P Q : σ → α → Prop) (s₀ : σ) (as : List α) : Prop :=
  ∃ pre a post s s', as = pre ++ a :: post ∧ exec step s₀ pre = some s ∧ P s a ∧
    step s a = some s' ∧ Along step (fun s a => ¬ Q s a) s' post

/-- A run one step longer. Kind: L -/
lemma since_append_singleton_iff {P Q : σ → α → Prop} {s₀ s s' : σ} {as : List α} {a : α}
    (hrun : exec step s₀ as = some s) (hs : step s a = some s') :
    Since step P Q s₀ (as ++ [a]) ↔ P s a ∨ (Since step P Q s₀ as ∧ ¬ Q s a) := by
  constructor
  · rintro ⟨pre, b, post, t, t', heq, ht, hP, hstep, hQ⟩
    rcases append_singleton_eq_append_cons_iff.mp heq with ⟨rfl, rfl, -⟩ | ⟨post', rfl, rfl⟩
    · rw [hrun, Option.some.injEq] at ht
      exact .inl (ht ▸ hP)
    · have hpost : exec step t' post' = some s := by
        rw [exec_append, ht, Option.bind_some, exec, hstep, Option.bind_some] at hrun
        exact hrun
      obtain ⟨hQ', hlast⟩ := (along_append_singleton_iff hpost).mp hQ
      exact .inr ⟨⟨pre, b, post', t, t', rfl, ht, hP, hstep, hQ'⟩, hlast⟩
  · rintro (hP | ⟨⟨pre, b, post, t, t', rfl, ht, hP, hstep, hQ⟩, hlast⟩)
    · exact ⟨as, a, [], s, s', rfl, hrun, hP, hs, trivial⟩
    · have hpost : exec step t' post = some s := by
        rw [exec_append, ht, Option.bind_some, exec, hstep, Option.bind_some] at hrun
        exact hrun
      exact ⟨pre, b, post ++ [a], t, t', by simp, ht, hP, hstep,
        (along_append_singleton_iff hpost).mpr ⟨hQ, hlast⟩⟩

/-- **A property and its history**: when a step brings `F` about exactly if it meets `P`, and
otherwise keeps it exactly if it does not meet `Q`, then `F` holds after a run exactly when a step
met `P` and none met `Q` since. Kind: P -/
theorem iff_since_of_step {P Q : σ → α → Prop} {F Inv : σ → Prop}
    (hInv : ∀ s a s', Inv s → step s a = some s' → Inv s')
    (hstep : ∀ s a s', Inv s → step s a = some s' → (F s' ↔ P s a ∨ (F s ∧ ¬ Q s a))) {s₀ s : σ}
    {as : List α} (h₀ : Inv s₀) (hF : ¬ F s₀) (hrun : exec step s₀ as = some s) :
    F s ↔ Since step P Q s₀ as := by
  induction as using List.reverseRecOn generalizing s with
  | nil =>
      rw [exec, Option.some.injEq] at hrun
      refine ⟨fun h => absurd (hrun ▸ h) hF, ?_⟩
      rintro ⟨pre, a, post, t, t', heq, -⟩
      exact absurd heq (by simp)
  | append_singleton as a ih =>
      obtain ⟨t, ht, hs⟩ := (exec_append_singleton_eq_some step).mp hrun
      rw [since_append_singleton_iff ht hs, ← ih ht,
        hstep t a s (exec_invariant hInv h₀ ht) hs]

end FreeFlow.Found
