import FreeFlow.Router.ObjectEffects

/-!
# A destruction that fails

The HCA refuses to destroy an object that is still in use: a PD with QPs, a CQ with QPs, a QP in a
multicast group. The client then expects to find the object as it was. The six handlers clear the
entry before the call and look at its result only to pass it on; those with a control channel take
that down as well, and `IBV_DEREG_MR` unlinks the shared memory.

* `destroys` — the six requests, with table, handle and result of the call.
* `Lost` — the object exists and no handle leads to it.
* `lost_of_run` — a lost object stays lost.
* `failedDestroy_unchanged_iff` — in every reachable state, such a request with a failing call
  changes nothing exactly when there is no object under the handle, so that no call is made. If
  there is one, it is lost after the request and after every continuation.
* `failedDestroy_changes_busy_pd` — a PD with an address handle.

Source: `ffrouter.cpp` `HandleRequest` (`IBV_DEALLOC_PD`, `IBV_DESTROY_CQ`, `IBV_DESTROY_QP`,
`IBV_DESTROY_SRQ`, `IBV_DEREG_MR`, `IBV_DESTROY_COMP_CHANNEL`).
-/

namespace FreeFlow.Router.Objects

open FreeFlow.Found FreeFlow.Verbs FreeFlow.Router.Isolation

/-! ## The six requests -/

/-- The table, the handle, and what the verbs call returns. Kind: D -/
def destroys : Act → Option (Table × ℕ × ℤ)
  | .deallocPd h ret => some (.pd, h, ret)
  | .destroyCq h ret => some (.cq, h, ret)
  | .destroyQp h ret => some (.qp, h, ret)
  | .destroySrq h ret => some (.srq, h, ret)
  | .deregMr h ret => some (.mr, h, ret)
  | .destroyCompChannel fd ret => some (.compChannel, fd, ret)
  | _ => none

/-- The request leaves the router as it is: tables, vectors and pieces. Kind: D -/
def Unchanged (s : State) (a : Act) : Prop := ∀ s', step s a = some s' → s' = s

/-- Without an object under the handle nothing happens. Kind: L -/
lemma unchanged_of_none {s : State} {a : Act} {t : Table} {h : ℕ} {ret : ℤ}
    (ha : destroys a = some (t, h, ret)) (hp : s.core.map t h = none) : Unchanged s a := by
  intro s' hs
  have hnothing : effect s a = .nothing := by
    cases a <;> cases ha <;> exact State.at_of_none hp _
  rw [(step_effect hs).1, hnothing]
  rfl

/-- With one, the entry is gone, and the object with it if the call succeeds. Kind: L -/
lemma exists_step_of_some {s : State} (hi : Inv s) {a : Act} {t : Table} {h o : ℕ} {ret : ℤ}
    (ha : destroys a = some (t, h, ret)) (hp : s.core.map t h = some o) :
    ∃ s', step s a = some s' ∧ s'.core = s.core.drop t h o (ret = 0) := by
  have hok : ∀ f, ¬ survivable (.fault f) := fun _ h => h
  have hlt := (hi.core.below t h o hp).1
  have hl : t ≠ .ah → s.core.live t o = true := fun ht => hi.core.live t h o ht hp
  cases a <;> cases ha
  case deallocPd.refl | destroyCompChannel.refl =>
    exact ⟨_, step_eq_some_iff.mpr ((ends_destroyPlain hok).mpr
      ⟨hlt, .inr ⟨o, hp, hl (by simp), rfl⟩⟩), rfl⟩
  case destroyCq.refl | destroyQp.refl | destroySrq.refl =>
    exact ⟨_, step_eq_some_iff.mpr ((ends_destroyQueue hok).mpr
      ⟨hlt, .inr ⟨o, hp, hl (by simp), rfl⟩⟩), rfl⟩
  case deregMr.refl =>
    have hsp : s.shm.shmrMap h ≠ none := fun hnone => by simp [(hi.shmr h).mpr hnone] at hp
    exact ⟨_, step_eq_some_iff.mpr ((ends_ibvDeregMr hok).mpr
      ⟨hlt, o, hp, hl (by simp), hsp, rfl⟩), rfl⟩

/-! ## Lost objects -/

/-- The object exists, and no entry leads to it. Kind: D -/
structure Core.Lost (c : Core) (t : Table) (o : ℕ) : Prop where
  live : c.live t o = true
  below : o < c.next
  noEntry : ∀ h, c.map t h ≠ some o

/-- No request finds a lost object, so none destroys it. Kind: L -/
lemma CoreStep.lost {c c' : Core} {t : Table} {o : ℕ} (hstep : CoreStep c c') (hl : c.Lost t o) :
    c'.Lost t o := by
  obtain ⟨hlive, hlt, hno⟩ := hl
  cases hstep with
  | same => exact ⟨hlive, hlt, hno⟩
  | make t' h' ud =>
      refine ⟨?_, ?_, fun h => ?_⟩
      · rw [Core.live_put_make, hlive, ite_self]
      · rw [Core.next_put_make]
        exact Nat.lt_succ_of_lt hlt
      · rw [Core.map_put_make]
        split
        · exact fun heq => absurd (Option.some.inj heq) hlt.ne'
        · exact hno h
  | drop t' h' o' ok hp =>
      -- the object that goes has an entry, and this one has none
      have hne : ¬ (t = t' ∧ o = o') := by
        rintro ⟨rfl, rfl⟩
        exact hno h' hp
      refine ⟨?_, ?_, fun h => ?_⟩
      · rw [Core.live_drop, if_neg fun h => hne h.2]
        exact hlive
      · rw [Core.next_drop]
        exact hlt
      · rw [Core.map_drop]
        split
        · simp
        · exact hno h
  | killAh h' o' hp =>
      have hne : ¬ (t = .ah ∧ o = o') := by
        rintro ⟨rfl, rfl⟩
        exact hno h' hp
      refine ⟨?_, hlt, hno⟩
      rw [Core.live_kill, if_neg hne]
      exact hlive

/-- **A lost object stays lost.** Kind: P -/
theorem lost_of_run {s s' : State} {as : List Act} {t : Table} {o : ℕ}
    (hrun : exec step s as = some s') (hl : s.core.Lost t o) : s'.core.Lost t o :=
  exec_invariant (fun _ _ _ hl hs => (coreStep_of_step hs).lost hl) hl hrun

/-- An object whose destruction failed is lost. Kind: L -/
lemma lost_drop {c : Core} (hc : c.Inv) {t : Table} {h o : ℕ} (hp : c.map t h = some o)
    (hl : c.live t o = true) : (c.drop t h o false).Lost t o where
  live := by
    rw [Core.live_drop, if_neg (by simp)]
    exact hl
  below := by
    rw [Core.next_drop]
    exact (hc.below t h o hp).2
  noEntry h' := by
    rw [Core.map_drop]
    split
    · simp
    next hne => exact fun heq => hne ⟨rfl, hc.unique t h' h o heq hp⟩

/-! ## What a failed destruction changes -/

/-- **A failed destruction.** In every reachable state, one of the six requests whose verbs call
returns an error leaves the router as it was exactly when there is no object under its handle. If
there is one, the request is answered, and from then on the object exists with no entry that leads
to it, whatever is requested. Kind: P -/
theorem failedDestroy_unchanged_iff {s₀ s : State} {as : List Act} (h₀ : Start s₀)
    (hrun : exec step s₀ as = some s) {a : Act} {t : Table} {h : ℕ} {ret : ℤ}
    (ha : destroys a = some (t, h, ret)) (hret : ret ≠ 0) :
    (Unchanged s a ↔ s.core.map t h = none) ∧
      ∀ o, s.core.map t h = some o → ∃ s', step s a = some s' ∧
        ∀ bs s'', exec step s' bs = some s'' → s''.core.Lost t o := by
  have hi := inv_of_run h₀ hrun
  have hah : t ≠ .ah := by
    rintro rfl
    cases a <;> cases ha
  constructor
  · refine ⟨fun hsame => ?_, unchanged_of_none ha⟩
    by_contra hne
    obtain ⟨o, hp⟩ := Option.ne_none_iff_exists'.mp hne
    obtain ⟨s', hs, hcore⟩ := exists_step_of_some hi ha hp
    have hgone : s'.core.map t h = none := by rw [hcore, Core.map_drop, if_pos ⟨rfl, rfl⟩]
    rw [hsame s' hs] at hgone
    exact hne hgone
  · intro o hp
    obtain ⟨s', hs, hcore⟩ := exists_step_of_some hi ha hp
    refine ⟨s', hs, fun bs s'' hrun' => lost_of_run hrun' ?_⟩
    rw [hcore, decide_eq_false hret]
    exact lost_drop hi.core hp (hi.core.live t h o hah hp)

/-! ## A PD that is in use -/

/-- A PD under handle 0, and an address handle in it. Kind: D -/
def busyPd : State := (Effect.create .ah 5).apply ((Effect.create .pd 0).apply State.empty)

/-- The run that leads there. Kind: D -/
def busyPdRun : List Act := [.allocPd (some 0), .createAh 0 (some 5)]

/-- The PD that is still in use is lost. Kind: C -/
theorem failedDestroy_lost_busy_pd :
    (Unchanged busyPd (.deallocPd 0 16) ↔ busyPd.core.map .pd 0 = none) ∧
      ∀ o, busyPd.core.map .pd 0 = some o → ∃ s', step busyPd (.deallocPd 0 16) = some s' ∧
        ∀ bs s'', exec step s' bs = some s'' → s''.core.Lost .pd o :=
  @failedDestroy_unchanged_iff State.empty busyPd busyPdRun start_empty rfl _ _ _ _ rfl (by decide)

/-- `EBUSY` from `ibv_dealloc_pd`: the entry of the PD is gone. Kind: C -/
theorem failedDestroy_changes_busy_pd :
    Start State.empty ∧ exec step State.empty busyPdRun = some busyPd ∧
      busyPd.core.map .pd 0 = some 0 ∧ destroys (.deallocPd 0 16) = some (.pd, 0, 16) ∧
      ¬ Unchanged busyPd (.deallocPd 0 16) := by
  refine ⟨start_empty, rfl, rfl, rfl, fun hsame => ?_⟩
  have hstep : step busyPd (.deallocPd 0 16) =
      some ((Effect.remove .pd 0 0 false).apply busyPd) := rfl
  have hentry : ((Effect.remove .pd 0 0 false).apply busyPd).core.map .pd 0 = none := rfl
  rw [hsame _ hstep] at hentry
  exact absurd hentry (by decide)

end FreeFlow.Router.Objects
