import FreeFlow.Found.Run
import FreeFlow.Verbs.Layout

/-!
# The channel registry under concurrent creation and destruction

For its QPs, and in the same way for its CQs and SRQs, the router keeps a table of objects
(`qp_map`), a table of control pieces (`qp_shm_map`) and the vector of handles the channel loop
walks over (`qp_shm_vec`), all by the handle the HCA has given. `IBV_CREATE_QP` and `IBV_DESTROY_QP`
change them in several steps, each handler in its own thread, and only the vector has a lock.
`IBV_DESTROY_QP` gives the handle back to the HCA in the middle: from then on the HCA may issue it
again, and what the handler still does to the tables under that handle hits the new object.

* `State`, `Act`, `step` — the tables, the HCA and any number of handler threads, one step for
  each access.
* `Consistent` — what the tables should say when no handler is at work.
* `NoOverlap` — the condition: no creation and destruction at work on one handle at the same time,
  handles below `MAP_SIZE`, destruction accepted by the HCA.
* `Inv`, `Inv.step` — what each handler may rely on at each of its steps.
* `consistent_of_noOverlap` — in every run that meets the condition the registry is consistent
  whenever all handlers have finished.
* `registry_fails_reused_handle` — a handle reused before its destruction has finished.

Source: `ffrouter.cpp` `HandleRequest` (`IBV_CREATE_QP`, `IBV_DESTROY_QP`, `IBV_CREATE_CQ`,
`IBV_DESTROY_CQ`, `IBV_CREATE_SRQ`, `IBV_DESTROY_SRQ`).
-/

namespace FreeFlow.Router.Registry

open FreeFlow.Found FreeFlow.Verbs

variable {T : Type*}

/-! ## The machine -/

/-- Where a handler is, with the handle `h` and the object `o` it works on. Kind: D -/
inductive Phase
  | idle
  /-- creation: `ibv_create_qp` has returned -/
  | created (h o : ℕ)
  /-- `qp_map` is set -/
  | stored (h o : ℕ)
  /-- `initCtrlShm` has made the control piece -/
  | opened (h o : ℕ)
  /-- `qp_shm_map` is set -/
  | shmStored (h o : ℕ)
  /-- destruction: the object has been read from `qp_map` -/
  | found (h o : ℕ)
  /-- `qp_map` is cleared -/
  | cleared (h o : ℕ)
  /-- `ibv_destroy_qp` has returned -/
  | destroyed (h : ℕ)
  /-- the handle is taken out of the vector -/
  | erased (h : ℕ)
  /-- the control piece has been read from `qp_shm_map` -/
  | got (h : ℕ) (p : Option ℕ)
  /-- the control piece is deleted -/
  | freed (h : ℕ)
  deriving DecidableEq, Repr

/-- The handle a creation works on. Kind: D -/
def Phase.creating : Phase → Option ℕ
  | .created h _ | .stored h _ | .opened h _ | .shmStored h _ => some h
  | _ => none

/-- The handle a destruction works on. Kind: D -/
def Phase.destroying : Phase → Option ℕ
  | .found h _ | .cleared h _ | .destroyed h | .erased h | .got h _ | .freed h => some h
  | _ => none

/-- The handle a handler works on. Kind: D -/
def Phase.handle (f : Phase) : Option ℕ := f.creating.or f.destroying

/-- The HCA's live objects and the router's tables, by handle. Objects are numbered in the order of
their creation. The control piece of an object is named after its handle and made once, so
`shmMap h = some o` is the pointer to the piece made for object `o`, and `alive h o` says that it
has been made and not deleted. Kind: D -/
structure State (T : Type*) where
  live : ℕ → Option ℕ
  next : ℕ
  map : ℕ → Option ℕ
  shmMap : ℕ → Option ℕ
  shmVec : List ℕ
  alive : ℕ → ℕ → Bool
  phase : T → Phase

/-- The router after its start. Kind: D -/
def State.start : State T :=
  { live := fun _ => none, next := 0, map := fun _ => none, shmMap := fun _ => none, shmVec := [],
    alive := fun _ _ => false, phase := fun _ => .idle }

/-- The steps of handler thread `t`. `create` carries the handle the HCA chooses, `destroy` its
answer. Kind: D -/
inductive Act (T : Type*)
  | create (t : T) (h : ℕ)
  | storeMap (t : T)
  | openShm (t : T)
  | storeShm (t : T)
  | push (t : T)
  | lookup (t : T) (h : ℕ)
  | clear (t : T)
  | destroy (t : T) (ok : Bool)
  | erase (t : T)
  | fetch (t : T)
  | free (t : T)
  | clearShm (t : T)
  deriving DecidableEq, Repr

variable [DecidableEq T]

/-- A handler moves on. Kind: D -/
def State.setPhase (s : State T) (t : T) (f : Phase) : State T :=
  { s with phase := Function.update s.phase t f }

/-- One step. The HCA issues a handle that is not in use; a destruction of an object that is gone
already changes nothing. Source: `ffrouter.cpp` `HandleRequest`. Kind: D -/
def step (s : State T) : Act T → Option (State T)
  | .create t h =>
      match s.phase t, s.live h with
      | .idle, none =>
          some { s.setPhase t (.created h s.next) with
            live := Function.update s.live h (some s.next)
            next := s.next + 1 }
      | _, _ => none
  | .storeMap t =>
      match s.phase t with
      | .created h o =>
          some { s.setPhase t (.stored h o) with
            map := if h < mapSize then Function.update s.map h (some o) else s.map }
      | _ => none
  | .openShm t =>
      match s.phase t with
      | .stored h o =>
          some { s.setPhase t (.opened h o) with
            alive := Function.update s.alive h (Function.update (s.alive h) o true) }
      | _ => none
  | .storeShm t =>
      match s.phase t with
      | .opened h o =>
          some { s.setPhase t (.shmStored h o) with
            shmMap := Function.update s.shmMap h (some o) }
      | _ => none
  | .push t =>
      match s.phase t with
      | .shmStored h _ => some { s.setPhase t .idle with shmVec := s.shmVec ++ [h] }
      | _ => none
  | .lookup t h =>
      match s.phase t, s.map h with
      | .idle, some o => some (s.setPhase t (.found h o))
      | .idle, none => some s
      | _, _ => none
  | .clear t =>
      match s.phase t with
      | .found h o => some { s.setPhase t (.cleared h o) with map := Function.update s.map h none }
      | _ => none
  | .destroy t ok =>
      match s.phase t with
      | .cleared h o =>
          some { s.setPhase t (.destroyed h) with
            live := if ok ∧ s.live h = some o then Function.update s.live h none else s.live }
      | _ => none
  | .erase t =>
      match s.phase t with
      | .destroyed h => some { s.setPhase t (.erased h) with shmVec := s.shmVec.erase h }
      | _ => none
  | .fetch t =>
      match s.phase t with
      | .erased h => some (s.setPhase t (.got h (s.shmMap h)))
      | _ => none
  | .free t =>
      match s.phase t with
      | .got h (some o) =>
          some { s.setPhase t (.freed h) with
            alive := Function.update s.alive h (Function.update (s.alive h) o false) }
      | .got h none => some (s.setPhase t (.freed h))
      | _ => none
  | .clearShm t =>
      match s.phase t with
      | .freed h => some { s.setPhase t .idle with shmMap := Function.update s.shmMap h none }
      | _ => none

/-- The registry as it should be: every live object's handle is in the vector once, its control
piece is in the table and not deleted, and it is in the table of objects; no dead handle is in the
vector. Kind: D -/
structure Consistent (s : State T) : Prop where
  live : ∀ h o, s.live h = some o →
    s.shmVec.count h = 1 ∧ s.shmMap h = some o ∧ s.alive h o = true ∧ s.map h = some o
  dead : ∀ h ∈ s.shmVec, s.live h ≠ none

/-- The condition on a step: the HCA does not issue a handle while a handler still works on its
destruction, and issues one below `MAP_SIZE`; a destruction is not requested while the handle's
creation is at work; the HCA accepts destructions. Kind: D -/
def NoOverlap (s : State T) : Act T → Prop
  | .create _ h => h < mapSize ∧ ∀ u, (s.phase u).destroying ≠ some h
  | .lookup _ h => ∀ u, (s.phase u).creating ≠ some h
  | .destroy _ ok => ok = true
  | _ => True

instance [Fintype T] (s : State T) (a : Act T) : Decidable (NoOverlap s a) :=
  match a with
  | .create _ _ => inferInstanceAs (Decidable (_ ∧ _))
  | .lookup _ h => inferInstanceAs (Decidable (∀ u, (s.phase u).creating ≠ some h))
  | .destroy _ ok => inferInstanceAs (Decidable (ok = true))
  | .storeMap _ | .openShm _ | .storeShm _ | .push _ | .clear _ | .erase _ | .fetch _ | .free _
  | .clearShm _ => inferInstanceAs (Decidable True)

/-! ## What a handler may rely on -/

/-- The state at one handle. Kind: D -/
structure View where
  live : Option ℕ
  map : Option ℕ
  shm : Option ℕ
  count : ℕ
  alive : ℕ → Bool

/-- See `View`. Kind: D -/
def State.view (s : State T) (h : ℕ) : View :=
  { live := s.live h, map := s.map h, shm := s.shmMap h, count := s.shmVec.count h,
    alive := s.alive h }

/-- A handle nobody works on: its object is registered, or there is none and no trace of one.
Kind: D -/
def View.Settled (v : View) : Prop :=
  (∃ o, v.live = some o ∧ v.map = some o ∧ v.shm = some o ∧ v.count = 1 ∧ v.alive o = true) ∨
    (v.live = none ∧ v.map = none ∧ v.shm = none ∧ v.count = 0)

/-- What a handler in a phase knows of its handle. A creation knows all of it. A destruction, which
may not be the only one, knows what can only go away. Kind: D -/
def Facts (v : View) : Phase → Prop
  | .idle => True
  | .created h o => h < mapSize ∧ v.live = some o ∧ v.map = none ∧ v.shm = none ∧ v.count = 0
  | .stored _ o => v.live = some o ∧ v.map = some o ∧ v.shm = none ∧ v.count = 0
  | .opened _ o =>
      v.live = some o ∧ v.map = some o ∧ v.shm = none ∧ v.count = 0 ∧ v.alive o = true
  | .shmStored _ o =>
      v.live = some o ∧ v.map = some o ∧ v.shm = some o ∧ v.count = 0 ∧ v.alive o = true
  | .found _ o => (v.live = some o ∨ v.live = none) ∧ (v.map = some o ∨ v.map = none) ∧ v.count ≤ 1
  | .cleared _ o => (v.live = some o ∨ v.live = none) ∧ v.map = none ∧ v.count ≤ 1
  | .destroyed _ => v.live = none ∧ v.map = none ∧ v.count ≤ 1
  | .erased _ | .got _ _ | .freed _ => v.live = none ∧ v.map = none ∧ v.count = 0

/-- The invariant. Kind: D -/
structure Inv (s : State T) : Prop where
  facts : ∀ t h, (s.phase t).handle = some h → Facts (s.view h) (s.phase t)
  alone : ∀ t u h, (s.phase t).creating = some h → (s.phase u).handle = some h → u = t
  settled : ∀ h, (∀ t, (s.phase t).handle ≠ some h) → (s.view h).Settled

/-- A change of the kind destructions make: things go away. Kind: D -/
def View.Shrinks (v v' : View) : Prop :=
  (v'.live = v.live ∨ v'.live = none) ∧ (v'.map = v.map ∨ v'.map = none) ∧ v'.count ≤ v.count

/-- What a destruction knows stays true when things go away. Kind: L -/
lemma Facts.shrink {v v' : View} {f : Phase} (hf : f.creating = none) (h : Facts v f)
    (hv : v.Shrinks v') : Facts v' f := by
  obtain ⟨hlive, hmap, hcount⟩ := hv
  cases f with
  | idle => trivial
  | created | stored | opened | shmStored => exact absurd hf (by simp [Phase.creating])
  | found g o =>
      obtain ⟨h₁, h₂, h₃⟩ := h
      refine ⟨?_, ?_, hcount.trans h₃⟩
      · rcases hlive with hl | hl <;> rw [hl]
        · exact h₁
        · exact .inr rfl
      · rcases hmap with hm | hm <;> rw [hm]
        · exact h₂
        · exact .inr rfl
  | cleared g o =>
      obtain ⟨h₁, h₂, h₃⟩ := h
      refine ⟨?_, by rw [h₂] at hmap; simpa using hmap, hcount.trans h₃⟩
      rcases hlive with hl | hl <;> rw [hl]
      · exact h₁
      · exact .inr rfl
  | destroyed g =>
      obtain ⟨h₁, h₂, h₃⟩ := h
      rw [h₁] at hlive
      rw [h₂] at hmap
      exact ⟨by simpa using hlive, by simpa using hmap, hcount.trans h₃⟩
  | erased g | got g p | freed g =>
      obtain ⟨h₁, h₂, h₃⟩ := h
      rw [h₁] at hlive
      rw [h₂] at hmap
      exact ⟨by simpa using hlive, by simpa using hmap, by omega⟩

/-- The object of a creation that is at work is live. Kind: L -/
lemma Facts.live_of_creating {v : View} {f : Phase} (h : Facts v f) {g : ℕ}
    (hf : f.creating = some g) : v.live ≠ none := by
  have hlive : ∀ o, v.live = some o → v.live ≠ none := fun o ho => by simp [ho]
  cases f with
  | created g o => exact hlive o h.2.1
  | stored g o => exact hlive o h.1
  | opened g o => exact hlive o h.1
  | shmStored g o => exact hlive o h.1
  | idle | found | cleared | destroyed | erased | got | freed =>
      exact absurd hf (by simp [Phase.creating])

/-- While a destruction is at work, what a second one finds in the table is the first one's object,
not cleared yet. Kind: L -/
lemma Facts.found_of_map {v : View} {f : Phase} (h : Facts v f) {g o : ℕ}
    (hf : f.destroying = some g) (hmap : v.map = some o) : Facts v (.found g o) := by
  have hcleared : v.map ≠ none := by simp [hmap]
  cases f with
  | found g' o' =>
      obtain ⟨hlive, hm | hm, hcnt⟩ := h
      · obtain rfl : o' = o := Option.some.inj (hm.symm.trans hmap)
        exact ⟨hlive, .inl hm, hcnt⟩
      · exact absurd hm hcleared
  | cleared | destroyed | erased | got | freed => exact absurd h.2.1 hcleared
  | idle | created | stored | opened | shmStored => exact absurd hf (by simp [Phase.destroying])

variable {s s' : State T}

/-- A handler's phase names its handle. Kind: L -/
lemma handle_of_creating {f : Phase} {h : ℕ} (hf : f.creating = some h) : f.handle = some h := by
  rw [Phase.handle, hf, Option.some_or]

/-- **The frame of a step**: a handler on `h` moves to phase `f`; other handles are as before, the
new phase's facts hold, those of the other handlers on `h` still hold, and if the handler has
finished and nobody else is on `h`, the handle is settled. Kind: L -/
lemma Inv.advance (hinv : Inv s) {t : T} {h : ℕ} {f : Phase}
    (hphase : s'.phase = Function.update s.phase t f)
    (hmine : ∀ g, (s.phase t).handle = some g → g = h) (hnew : ∀ g, f.handle = some g → g = h)
    (helse : ∀ g, g ≠ h → s'.view g = s.view g) (hfacts : Facts (s'.view h) f)
    (hothers : ∀ u, u ≠ t → (s.phase u).handle = some h →
      Facts (s'.view h) (s.phase u) ∧ (s.phase u).creating = none ∧ f.creating = none)
    (hsettled : f = .idle → (∀ u, u ≠ t → (s.phase u).handle ≠ some h) → (s'.view h).Settled) :
    Inv s' := by
  have hself : s'.phase t = f := by rw [hphase, Function.update_self]
  have hother : ∀ u, u ≠ t → s'.phase u = s.phase u := by
    intro u hu
    rw [hphase, Function.update_of_ne hu]
  refine ⟨?_, ?_, ?_⟩
  · intro u g hg
    by_cases hu : u = t
    · subst hu
      rw [hself] at hg ⊢
      rw [hnew g hg]
      exact hfacts
    · rw [hother u hu] at hg ⊢
      by_cases hgh : g = h
      · subst hgh
        exact (hothers u hu hg).1
      · rw [helse g hgh]
        exact hinv.facts u g hg
  · intro u w g hu hw
    by_cases hut : u = t <;> by_cases hwt : w = t
    · exact hwt.trans hut.symm
    · subst hut
      rw [hself] at hu
      rw [hother w hwt, hnew g (handle_of_creating hu)] at hw
      exact absurd hu (by rw [(hothers w hwt hw).2.2]; simp)
    · subst hwt
      rw [hself] at hw
      rw [hother u hut, hnew g hw] at hu
      exact absurd hu (by rw [(hothers u hut (handle_of_creating hu)).2.1]; simp)
    · rw [hother u hut] at hu
      rw [hother w hwt] at hw
      exact hinv.alone u w g hu hw
  · intro g hg
    by_cases hgh : g = h
    · subst hgh
      refine hsettled ?_ fun u hu => by rw [← hother u hu]; exact hg u
      by_contra hne
      have hft : f.handle ≠ some g := by rw [← hself]; exact hg t
      cases f <;> first
        | exact hne rfl
        | exact hft (congrArg some (hnew _ rfl))
    · rw [helse g hgh]
      refine hinv.settled g fun u => ?_
      by_cases hu : u = t
      · subst hu
        exact fun hcon => hgh (hmine g hcon)
      · rw [← hother u hu]
        exact hg u

/-- A step of a creation, which is alone on its handle. Kind: L -/
lemma Inv.creation (hinv : Inv s) {t : T} {h : ℕ} {f : Phase}
    (ht : (s.phase t).creating = some h) (hphase : s'.phase = Function.update s.phase t f)
    (hnew : ∀ g, f.handle = some g → g = h) (helse : ∀ g, g ≠ h → s'.view g = s.view g)
    (hfacts : Facts (s'.view h) f) (hsettled : f = .idle → (s'.view h).Settled) : Inv s' := by
  refine hinv.advance hphase ?_ hnew helse hfacts ?_ fun hf _ => hsettled hf
  · intro g hg
    rw [handle_of_creating ht] at hg
    exact (Option.some.inj hg).symm
  · intro u hu hg
    exact absurd (hinv.alone t u h ht hg) hu

/-- A step of a destruction: the other handlers on its handle are destructions too. Kind: L -/
lemma Inv.destruction (hinv : Inv s) {t : T} {h : ℕ} {f : Phase}
    (ht : (s.phase t).handle = some h) (hphase : s'.phase = Function.update s.phase t f)
    (hfc : f.creating = none) (hnew : ∀ g, f.handle = some g → g = h)
    (helse : ∀ g, g ≠ h → s'.view g = s.view g) (hfacts : Facts (s'.view h) f)
    (hshrink : (s.view h).Shrinks (s'.view h)) (hsettled : f = .idle → (s'.view h).Settled) :
    Inv s' := by
  refine hinv.advance hphase ?_ hnew helse hfacts ?_ fun hf _ => hsettled hf
  · intro g hg
    rw [ht] at hg
    exact (Option.some.inj hg).symm
  · intro u hu hg
    have huc : (s.phase u).creating = none := by
      cases hc : (s.phase u).creating with
      | none => rfl
      | some g =>
          have hgh : g = h := Option.some.inj ((handle_of_creating hc).symm.trans hg)
          subst hgh
          exact absurd (hinv.alone u t g hc ht).symm hu
    exact ⟨(hinv.facts u h hg).shrink huc hshrink, huc, hfc⟩

/-! ## Every step keeps the invariant -/

/-- The HCA issues a handle nobody works on. Kind: L -/
lemma Inv.create (hinv : Inv s) {t : T} {h : ℕ} (hno : NoOverlap s (.create t h))
    (hs : step s (.create t h) = some s') : Inv s' := by
  simp only [Registry.step] at hs
  split at hs
  next hidle hlive =>
    cases hs
    have hnobody : ∀ u, (s.phase u).handle ≠ some h := by
      intro u hu
      rcases hc : (s.phase u).creating with _ | g
      · rw [Phase.handle, hc, Option.none_or] at hu
        exact hno.2 u hu
      · -- a creation's object is live
        have hgh : g = h := Option.some.inj ((handle_of_creating hc).symm.trans hu)
        subst hgh
        exact (hinv.facts u g hu).live_of_creating hc hlive
    have hset := hinv.settled h hnobody
    rcases hset with ⟨o, hl, -⟩ | ⟨-, hm, hsh, hcnt⟩
    · exact absurd (hlive.symm.trans hl) (by simp)
    · refine hinv.advance (t := t) (h := h) rfl ?_ ?_ ?_ ?_ ?_ ?_
      · intro g hg
        rw [hidle] at hg
        exact absurd hg (by simp [Phase.handle, Phase.creating, Phase.destroying])
      · intro g hg
        exact (Option.some.inj hg).symm
      · intro g hg
        simp [State.view, State.setPhase, Function.update_of_ne hg]
      · exact ⟨hno.1, by simp [State.view], hm, hsh, hcnt⟩
      · intro u hu hg
        exact absurd hg (hnobody u)
      · intro hf
        exact absurd hf (by simp)
  next => cases hs

/-- A destruction finds its object, registered or on its way out. Kind: L -/
lemma Inv.lookup (hinv : Inv s) {t : T} {h : ℕ} (hno : NoOverlap s (.lookup t h))
    (hs : step s (.lookup t h) = some s') : Inv s' := by
  simp only [Registry.step] at hs
  split at hs
  next o hidle hmap =>
    cases hs
    have hfound : Facts (s.view h) (.found h o) := by
      by_cases hsome : ∃ u, (s.phase u).handle = some h
      · obtain ⟨u, hu⟩ := hsome
        have hdu : (s.phase u).destroying = some h := by
          cases hc : (s.phase u).creating with
          | none => rwa [Phase.handle, hc, Option.none_or] at hu
          | some g => exact absurd (hc.trans ((handle_of_creating hc).symm.trans hu)) (hno u)
        exact (hinv.facts u h hu).found_of_map hdu hmap
      · rcases hinv.settled h (fun u hu => hsome ⟨u, hu⟩) with ⟨o', hl, hm, -, hcnt, -⟩ | ⟨-, hm, -⟩
        · obtain rfl : o' = o := Option.some.inj (hm.symm.trans hmap)
          exact ⟨.inl hl, .inl hm, by omega⟩
        · exact absurd (hm.symm.trans hmap) (by simp)
    refine hinv.advance (t := t) (h := h) rfl ?_ ?_ (fun _ _ => rfl) hfound ?_ ?_
    · intro g hg
      rw [hidle] at hg
      exact absurd hg (by simp [Phase.handle, Phase.creating, Phase.destroying])
    · intro g hg
      exact (Option.some.inj hg).symm
    · intro u hu hg
      refine ⟨hinv.facts u h hg, ?_, rfl⟩
      cases hc : (s.phase u).creating with
      | none => rfl
      | some g =>
          exact absurd (hc.trans ((handle_of_creating hc).symm.trans hg)) (hno u)
    · intro hf
      exact absurd hf (by simp)
  next hidle hmap => cases hs; exact hinv
  next => cases hs

/-- The object is put in the table. Kind: L -/
lemma Inv.storeMap (hinv : Inv s) {t : T} (hs : step s (.storeMap t) = some s') : Inv s' := by
  simp only [Registry.step] at hs
  split at hs
  next h o hp =>
    cases hs
    obtain ⟨hlt, hl, hm, hsh, hcnt⟩ := hp ▸ hinv.facts t h (by rw [hp]; rfl)
    refine hinv.creation (h := h) (by rw [hp]; rfl) rfl (fun g hg => (Option.some.inj hg).symm) ?_
      ⟨hl, ?_, hsh, hcnt⟩ (fun hf => absurd hf (by simp))
    · intro g hg
      simp [State.view, State.setPhase, hlt, Function.update_of_ne hg]
    · simp [State.view, hlt]
  next => cases hs

/-- The control piece is made. Kind: L -/
lemma Inv.openShm (hinv : Inv s) {t : T} (hs : step s (.openShm t) = some s') : Inv s' := by
  simp only [Registry.step] at hs
  split at hs
  next h o hp =>
    cases hs
    obtain ⟨hl, hm, hsh, hcnt⟩ := hp ▸ hinv.facts t h (by rw [hp]; rfl)
    refine hinv.creation (h := h) (by rw [hp]; rfl) rfl (fun g hg => (Option.some.inj hg).symm) ?_
      ⟨hl, hm, hsh, hcnt, ?_⟩ (fun hf => absurd hf (by simp))
    · intro g hg
      simp [State.view, State.setPhase, Function.update_of_ne hg]
    · simp [State.view]
  next => cases hs

/-- The control piece is put in the table. Kind: L -/
lemma Inv.storeShm (hinv : Inv s) {t : T} (hs : step s (.storeShm t) = some s') : Inv s' := by
  simp only [Registry.step] at hs
  split at hs
  next h o hp =>
    cases hs
    obtain ⟨hl, hm, hsh, hcnt, hal⟩ := hp ▸ hinv.facts t h (by rw [hp]; rfl)
    refine hinv.creation (h := h) (by rw [hp]; rfl) rfl (fun g hg => (Option.some.inj hg).symm) ?_
      ⟨hl, hm, ?_, hcnt, hal⟩ (fun hf => absurd hf (by simp))
    · intro g hg
      simp [State.view, State.setPhase, Function.update_of_ne hg]
    · simp [State.view]
  next => cases hs

/-- The handle is put in the vector, and the creation has finished. Kind: L -/
lemma Inv.push (hinv : Inv s) {t : T} (hs : step s (.push t) = some s') : Inv s' := by
  simp only [Registry.step] at hs
  split at hs
  next h o hp =>
    cases hs
    obtain ⟨hl, hm, hsh, hcnt, hal⟩ := hp ▸ hinv.facts t h (by rw [hp]; rfl)
    refine hinv.creation (h := h) (by rw [hp]; rfl) rfl
      (fun g hg => absurd hg (by simp [Phase.handle, Phase.creating, Phase.destroying])) ?_ trivial
      (fun _ => .inl ⟨o, hl, hm, hsh, ?_, hal⟩)
    · intro g hg
      simp [State.view, State.setPhase, Ne.symm hg]
    · have hzero : s.shmVec.count h = 0 := hcnt
      simp [State.view, hzero]
  next => cases hs

/-- The object is taken out of the table. Kind: L -/
lemma Inv.clear (hinv : Inv s) {t : T} (hs : step s (.clear t) = some s') : Inv s' := by
  simp only [Registry.step] at hs
  split at hs
  next h o hp =>
    cases hs
    obtain ⟨hl, -, hcnt⟩ := hp ▸ hinv.facts t h (by rw [hp]; rfl)
    have hmap : (Function.update s.map h none) h = none := Function.update_self ..
    refine hinv.destruction (h := h) (by rw [hp]; rfl) rfl rfl
      (fun g hg => (Option.some.inj hg).symm) ?_ ⟨hl, hmap, hcnt⟩ ⟨.inl rfl, .inr hmap, le_rfl⟩
      (fun hf => absurd hf (by simp))
    intro g hg
    simp [State.view, State.setPhase, Function.update_of_ne hg]
  next => cases hs

/-- The HCA takes the handle back. Kind: L -/
lemma Inv.destroy (hinv : Inv s) {t : T} {ok : Bool} (hok : ok = true)
    (hs : step s (.destroy t ok) = some s') : Inv s' := by
  simp only [Registry.step] at hs
  split at hs
  next h o hp =>
    cases hs
    obtain ⟨hl, hm, hcnt⟩ := hp ▸ hinv.facts t h (by rw [hp]; rfl)
    have hgone : (if ok = true ∧ s.live h = some o then Function.update s.live h none
        else s.live) h = none := by
      rcases hl with hl | hl
      · have hl' : s.live h = some o := hl
        simp [hok, hl']
      · have hl' : s.live h = none := hl
        simp [hl']
    refine hinv.destruction (h := h) (by rw [hp]; rfl) rfl rfl
      (fun g hg => (Option.some.inj hg).symm) ?_ ⟨hgone, hm, hcnt⟩ ⟨.inr hgone, .inl rfl, le_rfl⟩
      (fun hf => absurd hf (by simp))
    intro g hg
    have hsame : (if ok = true ∧ s.live h = some o then Function.update s.live h none
        else s.live) g = s.live g := by
      split
      · exact Function.update_of_ne hg ..
      · rfl
    simp only [State.view, State.setPhase, hsame]
  next => cases hs

/-- The handle is taken out of the vector. Kind: L -/
lemma Inv.erase (hinv : Inv s) {t : T} (hs : step s (.erase t) = some s') : Inv s' := by
  simp only [Registry.step] at hs
  split at hs
  next h hp =>
    cases hs
    obtain ⟨hl, hm, hcnt⟩ := hp ▸ hinv.facts t h (by rw [hp]; rfl)
    have hone : s.shmVec.count h ≤ 1 := hcnt
    have hzero : (s.shmVec.erase h).count h = 0 := by
      rw [List.count_erase_self]
      omega
    refine hinv.destruction (h := h) (by rw [hp]; rfl) rfl rfl
      (fun g hg => (Option.some.inj hg).symm) ?_ ⟨hl, hm, hzero⟩
      ⟨.inl rfl, .inl rfl, hzero.trans_le (Nat.zero_le _)⟩ (fun hf => absurd hf (by simp))
    intro g hg
    simp [State.view, State.setPhase, List.count_erase_of_ne hg]
  next => cases hs

/-- The control piece is read from the table. Kind: L -/
lemma Inv.fetch (hinv : Inv s) {t : T} (hs : step s (.fetch t) = some s') : Inv s' := by
  simp only [Registry.step] at hs
  split at hs
  next h hp =>
    cases hs
    have hfacts := hp ▸ hinv.facts t h (by rw [hp]; rfl)
    exact hinv.destruction (h := h) (by rw [hp]; rfl) rfl rfl
      (fun g hg => (Option.some.inj hg).symm) (fun _ _ => rfl) hfacts ⟨.inl rfl, .inl rfl, le_rfl⟩
      (fun hf => absurd hf (by simp))
  next => cases hs

/-- The control piece is deleted. Kind: L -/
lemma Inv.free (hinv : Inv s) {t : T} (hs : step s (.free t) = some s') : Inv s' := by
  simp only [Registry.step] at hs
  split at hs
  next h o hp =>
    cases hs
    have hfacts := hp ▸ hinv.facts t h (by rw [hp]; rfl)
    refine hinv.destruction (h := h) (by rw [hp]; rfl) rfl rfl
      (fun g hg => (Option.some.inj hg).symm) ?_ hfacts ⟨.inl rfl, .inl rfl, le_rfl⟩
      (fun hf => absurd hf (by simp))
    intro g hg
    simp [State.view, State.setPhase, Function.update_of_ne hg]
  next h hp =>
    cases hs
    have hfacts := hp ▸ hinv.facts t h (by rw [hp]; rfl)
    exact hinv.destruction (h := h) (by rw [hp]; rfl) rfl rfl
      (fun g hg => (Option.some.inj hg).symm) (fun _ _ => rfl) hfacts ⟨.inl rfl, .inl rfl, le_rfl⟩
      (fun hf => absurd hf (by simp))
  next => cases hs

/-- The control piece is taken out of the table, and the destruction has finished. Kind: L -/
lemma Inv.clearShm (hinv : Inv s) {t : T} (hs : step s (.clearShm t) = some s') : Inv s' := by
  simp only [Registry.step] at hs
  split at hs
  next h hp =>
    cases hs
    obtain ⟨hl, hm, hcnt⟩ := hp ▸ hinv.facts t h (by rw [hp]; rfl)
    refine hinv.destruction (h := h) (by rw [hp]; rfl) rfl rfl
      (fun g hg => absurd hg (by simp [Phase.handle, Phase.creating, Phase.destroying])) ?_ trivial
      ⟨.inl rfl, .inl rfl, le_rfl⟩ (fun _ => .inr ⟨hl, hm, Function.update_self .., hcnt⟩)
    intro g hg
    simp [State.view, State.setPhase, Function.update_of_ne hg]
  next => cases hs

/-- **Every step that meets the condition keeps the invariant.** Kind: P -/
theorem Inv.step (hinv : Inv s) {a : Act T} (hno : NoOverlap s a)
    (hs : step s a = some s') : Inv s' := by
  cases a with
  | create t h => exact hinv.create hno hs
  | storeMap t => exact hinv.storeMap hs
  | openShm t => exact hinv.openShm hs
  | storeShm t => exact hinv.storeShm hs
  | push t => exact hinv.push hs
  | lookup t h => exact hinv.lookup hno hs
  | clear t => exact hinv.clear hs
  | destroy t ok => exact hinv.destroy hno hs
  | erase t => exact hinv.erase hs
  | fetch t => exact hinv.fetch hs
  | free t => exact hinv.free hs
  | clearShm t => exact hinv.clearShm hs

/-! ## The registry -/

omit [DecidableEq T] in
/-- The invariant holds of the empty registry. Kind: L -/
lemma inv_start : Inv (State.start : State T) := by
  refine ⟨?_, ?_, ?_⟩
  · intro t h hh
    exact absurd hh (by simp [State.start, Phase.handle, Phase.creating, Phase.destroying])
  · intro t u h hc
    exact absurd hc (by simp [State.start, Phase.creating])
  · intro h _
    exact .inr ⟨rfl, rfl, rfl, rfl⟩

omit [DecidableEq T] in
/-- With nobody at work, the invariant is the consistency of the registry. Kind: L -/
lemma Inv.consistent (hinv : Inv s) (hidle : ∀ t, s.phase t = .idle) : Consistent s := by
  have hsettled : ∀ h, (s.view h).Settled := by
    intro h
    refine hinv.settled h fun t ht => ?_
    rw [hidle t] at ht
    exact absurd ht (by simp [Phase.handle, Phase.creating, Phase.destroying])
  refine ⟨?_, ?_⟩
  · intro h o ho
    rcases hsettled h with ⟨o', hl, hm, hsh, hcnt, hal⟩ | ⟨hl, -⟩
    · obtain rfl : o' = o := Option.some.inj (hl.symm.trans ho)
      exact ⟨hcnt, hsh, hal, hm⟩
    · exact absurd (hl.symm.trans ho) (by simp)
  · intro h hmem hdead
    rcases hsettled h with ⟨o, hl, -⟩ | ⟨-, -, -, hcnt⟩
    · exact absurd (hdead.symm.trans hl) (by simp)
    · exact absurd (List.count_pos_iff.mpr hmem) (by rw [show s.shmVec.count h = 0 from hcnt]; simp)

/-- **The registry is consistent whenever all handlers have finished**, in every run, of any number
of handlers in any interleaving, in which no creation and destruction of one handle overlap, the
HCA issues handles below `MAP_SIZE` and accepts the destructions. Kind: P -/
theorem consistent_of_noOverlap (as : List (Act T)) (s : State T)
    (hno : Along step NoOverlap State.start as) (hrun : exec step State.start as = some s)
    (hidle : ∀ t, s.phase t = .idle) : Consistent s := by
  have hinv : Inv s :=
    exec_invariant_along (fun _ _ _ h hP hs => h.step hP hs) inv_start hno hrun
  exact hinv.consistent hidle

/-- Thread `false` creates the object of handle 5. Kind: C -/
def sampleCreate : List (Act Bool) :=
  [.create false 5, .storeMap false, .openShm false, .storeShm false, .push false]

/-- Two threads that never overlap on a handle: while one destroys the object of handle 5, the other
creates one with handle 6; then handle 5 is issued again. Kind: C -/
def sampleApart : List (Act Bool) :=
  sampleCreate ++ [.lookup true 5, .create false 6, .clear true, .storeMap false,
    .destroy true true, .openShm false, .erase true, .storeShm false, .fetch true, .push false,
    .free true, .clearShm true] ++ sampleCreate

/-- The state after a run. Kind: C -/
def sampleAfter (as : List (Act Bool)) : State Bool := (exec step State.start as).getD State.start

/-- Handles 6 and 5 are registered, 5 for its second object. Kind: C -/
theorem consistent_sample :
    exec step State.start sampleApart = some (sampleAfter sampleApart) ∧
      (sampleAfter sampleApart).live 5 = some 2 ∧ (sampleAfter sampleApart).shmVec = [6, 5] ∧
      Consistent (sampleAfter sampleApart) :=
  ⟨rfl, rfl, rfl, consistent_of_noOverlap sampleApart _ (along_of_alongB step (by decide)) rfl
    (by decide)⟩

/-- Handle 5 is issued again when its destruction still has the vector and the control piece to
clean. Kind: C -/
def sampleReuse : List (Act Bool) :=
  sampleCreate ++ [.lookup true 5, .clear true, .destroy true true] ++ sampleCreate ++
    [.erase true, .fetch true, .free true, .clearShm true]

/-- **A handle reused too early**: both handlers have finished, the new object is live, and its
control piece has been deleted and taken out of the table by the destruction of the old one.
Kind: C -/
theorem registry_fails_reused_handle :
    exec step State.start sampleReuse = some (sampleAfter sampleReuse) ∧
      (∀ t, (sampleAfter sampleReuse).phase t = .idle) ∧
      (sampleAfter sampleReuse).live 5 = some 1 ∧ (sampleAfter sampleReuse).shmMap 5 = none ∧
      (sampleAfter sampleReuse).alive 5 1 = false ∧ ¬ Consistent (sampleAfter sampleReuse) := by
  refine ⟨rfl, by decide, rfl, rfl, rfl, fun h => ?_⟩
  exact absurd (h.live 5 1 rfl).2.1 (by decide)

end FreeFlow.Router.Registry
