import Mathlib.Algebra.Order.Group.Defs
import Mathlib.Algebra.Order.Group.Unbundled.Basic
import Mathlib.Algebra.Order.BigOperators.Group.List
import Mathlib.Tactic

/-!
# A meter that admits costs against a clock

A meter keeps one time `τ`, up to which the clock is spent. Something of cost `c` is admitted at
clock value `t` by moving `τ` to `max τ (t - B) + c`, and only if that is not in the future: unused
time is kept, but never more than `B` of it.

* `charge` — the meter's time after an admission.
* `Chain` — admissions one after the other, each at a time that was not in the future.
* `load` — the cost admitted in a window of the clock.
* `load_le` — it is at most the length of the window plus `B`, for every window and also when the
  clock values of successive admissions are not in order.

Nothing here names a program.
-/

namespace FreeFlow.Found.Meter

variable {G : Type*} [AddCommGroup G] [LinearOrder G]

/-- Something that was admitted: when, and at what cost. Kind: D -/
structure Admission (G : Type*) where
  clock : G
  cost : G

/-- The meter's time after an admission. Kind: D -/
def charge (B τ : G) (a : Admission G) : G := max τ (a.clock - B) + a.cost

/-- Admissions one after the other take the meter from one time to another. Kind: D -/
def Chain (B : G) : G → List (Admission G) → G → Prop
  | τ, [], τ' => τ' = τ
  | τ, a :: as, τ' => charge B τ a ≤ a.clock ∧ Chain B (charge B τ a) as τ'

/-- One more admission. Kind: L -/
lemma Chain.append_singleton {B τ τ' : G} {as : List (Admission G)} {a : Admission G}
    (h : Chain B τ as τ') (ha : charge B τ' a ≤ a.clock) :
    Chain B τ (as ++ [a]) (charge B τ' a) := by
  induction as generalizing τ with
  | nil =>
      cases h
      exact ⟨ha, rfl⟩
  | cons b as ih => exact ⟨h.1, ih h.2⟩

/-- The cost admitted at clock values from `lo` to `hi`. Kind: D -/
def load (lo hi : G) (as : List (Admission G)) : G :=
  ((as.filter fun a => lo ≤ a.clock ∧ a.clock ≤ hi).map (·.cost)).sum

/-- Admissions inside the window count, the others do not. Kind: L -/
lemma load_cons (lo hi : G) (a : Admission G) (as : List (Admission G)) :
    load lo hi (a :: as) =
      if lo ≤ a.clock ∧ a.clock ≤ hi then a.cost + load lo hi as else load lo hi as := by
  unfold load
  by_cases ha : lo ≤ a.clock ∧ a.clock ≤ hi
  · rw [if_pos ha, List.filter_cons_of_pos (by simpa using ha), List.map_cons, List.sum_cons]
  · rw [if_neg ha, List.filter_cons_of_neg (by simpa using ha)]

variable [IsOrderedAddMonoid G]

/-- A meter never runs backwards. Kind: L -/
lemma le_charge {B τ : G} {a : Admission G} (ha : 0 ≤ a.cost) : τ ≤ charge B τ a :=
  (le_max_left τ (a.clock - B)).trans (le_add_of_nonneg_right ha)

/-- An admission inside the window and what comes after it, which pays from the time that is left
of the window. Kind: L -/
lemma cost_add_load_le {B τ : G} {a : Admission G} {as : List (Admission G)} {lo hi : G}
    (hclock : charge B τ a ≤ a.clock) (hhi : a.clock ≤ hi)
    (hload : load lo hi as ≤ max 0 (hi - charge B τ a)) :
    a.cost + load lo hi as ≤ hi - max τ (a.clock - B) := by
  rw [max_eq_right (sub_nonneg.mpr (hclock.trans hhi))] at hload
  calc a.cost + load lo hi as
      ≤ a.cost + (hi - charge B τ a) := by gcongr
    _ = hi - max τ (a.clock - B) := by unfold charge; abel

/-- **What can still be admitted** up to `hi` is what the meter lags behind it. Kind: P -/
lemma load_le_max {B τ τ' : G} {as : List (Admission G)} (hcost : ∀ a ∈ as, 0 ≤ a.cost)
    (h : Chain B τ as τ') (lo hi : G) : load lo hi as ≤ max 0 (hi - τ) := by
  induction as generalizing τ with
  | nil => exact le_max_left _ _
  | cons a as ih =>
      obtain ⟨hclock, hrest⟩ := h
      have ha : 0 ≤ a.cost := hcost a (by simp)
      have hload := ih (fun b hb => hcost b (by simp [hb])) hrest
      rw [load_cons]
      split
      case isTrue hin =>
        calc a.cost + load lo hi as
            ≤ hi - max τ (a.clock - B) := cost_add_load_le hclock hin.2 hload
          _ ≤ hi - τ := sub_le_sub_left (le_max_left _ _) hi
          _ ≤ max 0 (hi - τ) := le_max_right _ _
      case isFalse => exact hload.trans (max_le_max_left 0 (sub_le_sub_left (le_charge ha) hi))

/-- **The window law**: in every window of the clock the admitted cost is at most the length of the
window plus `B`. Kind: P -/
theorem load_le {B τ τ' : G} {as : List (Admission G)} (hB : 0 ≤ B)
    (hcost : ∀ a ∈ as, 0 ≤ a.cost) (h : Chain B τ as τ') {lo hi : G} (hlo : lo ≤ hi) :
    load lo hi as ≤ hi - lo + B := by
  induction as generalizing τ with
  | nil => exact add_nonneg (sub_nonneg.mpr hlo) hB
  | cons a as ih =>
      obtain ⟨hclock, hrest⟩ := h
      have hrest_cost : ∀ b ∈ as, 0 ≤ b.cost := fun b hb => hcost b (by simp [hb])
      rw [load_cons]
      split
      case isTrue hin =>
        -- the first admission of the window finds at most `B` of unused time
        calc a.cost + load lo hi as
            ≤ hi - max τ (a.clock - B) :=
              cost_add_load_le hclock hin.2 (load_le_max hrest_cost hrest lo hi)
          _ ≤ hi - (a.clock - B) := sub_le_sub_left (le_max_right _ _) hi
          _ ≤ hi - (lo - B) := sub_le_sub_left (sub_le_sub_right hin.1 B) hi
          _ = hi - lo + B := by abel
      case isFalse => exact ih hrest_cost hrest

end FreeFlow.Found.Meter
