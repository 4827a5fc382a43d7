import FreeFlow.Router.ObjectEffects

/-!
# What a request must name for its accesses to be good

The handlers take handles, descriptors and keys from untrusted clients and index arrays of
`MAP_SIZE` pointers with them. A good handler uses an index only inside the array and a pointer only
when it leads to an existing object, and answers every other request with an error. The handlers
here differ: most index without a comparison, some compare and go on with a null pointer or with the
pointer of the last request, and none has an error to answer with. Creations store the control piece
under the new handle whatever it is.

* `TableSafe` — the handler makes good accesses only, and has found everything it looked for.
* `Found`, `Guarded` — what the request, the calls and the state must be, request by request.
  Entries of `ah_map` and the variables of the channel loop must also lead to existing objects;
  those of the other tables always do.
* `tableSafe_iff_guarded` — in every reachable state, for every request.
* `tableSafe_fails` — an index beyond the array, a null pointer, an address handle after its end.

Source: `ffrouter.cpp` `HandleRequest`, `CtrlChannelLoop`.
-/

namespace FreeFlow.Router.Objects

open FreeFlow.Found FreeFlow.Verbs FreeFlow.Router.Isolation

/-! ## Good accesses -/

/-- A call that fails and is tested ends a handler without a bad access. A lookup that fails and is
tested does too, but the request is then dropped instead of being answered. Kind: D -/
def tolerable : Stop → Prop
  | .failed => True
  | .notFound | .fault _ => False

/-- Every index is inside its array, every object that is used exists, and nothing that was looked
up is missing. Kind: D -/
def TableSafe (s : State) (a : Act) : Prop := ∃ s', (handle a).Ends tolerable s s'

/-- A handle inside the table, with an entry. Kind: D -/
def State.Found (s : State) (t : Table) (h : ℕ) : Prop := h < mapSize ∧ s.core.map t h ≠ none

/-- The pointer of a channel service leads to an existing object. Kind: D -/
def State.ChanUsable (s : State) (k : Kind) (h : ℕ) : Prop :=
  ∃ o, s.chanPtr k h = some o ∧ s.core.live (table k) o = true

/-- A creation succeeds with a handle inside the table, and so does that of the control piece.
Kind: D -/
def Opened (out : Option ℕ) (mapped : Bool) : Prop :=
  ∃ h, out = some h ∧ h < mapSize ∧ mapped = true

/-- What has to be the case. Kind: D -/
def Guarded (s : State) : Act → Prop
  | .allocPd out | .createCompChannel out | .createEventChannel out => out ≠ none
  | .deallocPd h _ => s.Found .pd h
  | .destroyCompChannel fd _ => s.Found .compChannel fd
  | .destroyEventChannel fd => s.Found .eventChannel fd
  | .createCq fd out mapped => (fd < 2 ^ 31 → s.Found .compChannel fd) ∧ Opened out mapped
  | .destroyCq h _ | .reqNotifyCq h _ | .ackCqEvent h | .pollCq h _ => s.Found .cq h
  | .createQp req out mapped =>
      req.srqHandle.toNat < mapSize ∧ s.Found .pd req.pdHandle.toNat ∧
        s.Found .cq req.sendCqHandle.toNat ∧ s.Found .cq req.recvCqHandle.toNat ∧
        (out = none ∨ Opened out mapped)
  | .destroyQp h _ | .modifyQp h _ | .postRecv h _ _ => s.Found .qp h
  | .regMr pd req mapped _ => (s.shm.addShmPiece req mapped).2 = none ∨ s.Found .pd pd
  | .regMrMapping .. => True
  | .deregMr h _ => s.Found .mr h
  | .postSend h ws _ _ => s.Found .qp h ∧
      ∀ q, s.core.map .qp h = some q → s.core.ud q = true → ∀ w ∈ ws, s.Usable .ah w.ah
  | .postSrqRecv h _ _ | .modifySrq h _ | .destroySrq h _ => s.Found .srq h
  | .getCqEvent fd ev => s.Found .compChannel fd ∧ ∀ cq, ev = some cq → s.core.live .cq cq = true
  | .createAh pd out => s.Found .pd pd ∧ out ≠ none
  | .destroyAh h _ => s.Usable .ah h
  | .createSrq pd out mapped => s.Found .pd pd ∧ Opened out mapped
  | .chanPostSend h ws _ _ => s.ChanUsable .qp h ∧
      ∀ q, s.chanPtr .qp h = some q → s.core.ud q = true → ∀ w ∈ atFirstAh ws, s.Usable .ah w.ah
  | .chanPostRecv h _ _ => s.ChanUsable .qp h
  | .chanPollCq h _ => s.ChanUsable .cq h
  | .chanPostSrqRecv h _ _ => s.ChanUsable .srq h

/-! ## Found objects exist -/

/-- Outside `ah_map`, an entry leads to an existing object. Kind: L -/
lemma Inv.usable_iff {s : State} (hi : Inv s) {t : Table} (ht : t ≠ .ah) (h : ℕ) :
    s.Usable t h ↔ s.Found t h := by
  refine and_congr_right fun _ => ⟨?_, fun hp => ?_⟩
  · rintro ⟨o, ho, -⟩
    simp [ho]
  · obtain ⟨o, ho⟩ := Option.ne_none_iff_exists'.mp hp
    exact ⟨o, ho, hi.core.live t h o ht ho⟩

/-- What it takes to find an object, and to go on with it under the condition `C`. Kind: L -/
lemma Inv.resolved_iff {s : State} (hi : Inv s) {t : Table} (ht : t ≠ .ah) {h : ℕ}
    {P : ℕ → State → Prop} {C : Prop} (hP : ∀ o, (∃ s', P o s') ↔ C) :
    (∃ s', h < mapSize ∧ ((s.core.map t h = none ∧ tolerable .notFound ∧ s = s') ∨
      ∃ o, s.core.map t h = some o ∧ s.core.live t o = true ∧ P o s')) ↔ s.Found t h ∧ C := by
  rw [← hi.usable_iff ht]
  constructor
  · rintro ⟨s', hlt, ⟨-, hno, -⟩ | ⟨o, ho, hl, hp⟩⟩
    · exact hno.elim
    · exact ⟨⟨hlt, o, ho, hl⟩, (hP o).mp ⟨s', hp⟩⟩
  · rintro ⟨⟨hlt, o, ho, hl⟩, hc⟩
    obtain ⟨s', hp⟩ := (hP o).mpr hc
    exact ⟨s', hlt, .inr ⟨o, ho, hl, hp⟩⟩

/-- The same without a condition. Kind: L -/
lemma Inv.found_iff_ends {s : State} (hi : Inv s) {t : Table} (ht : t ≠ .ah) {h : ℕ}
    {e : ℕ → State} :
    (∃ s', h < mapSize ∧ ((s.core.map t h = none ∧ tolerable .notFound ∧ s = s') ∨
      ∃ o, s.core.map t h = some o ∧ s.core.live t o = true ∧ e o = s')) ↔ s.Found t h := by
  rw [hi.resolved_iff ht (C := True) fun o => by simp, and_true]

lemma not_tolerable_fault (f : Fault) : ¬ tolerable (.fault f) := fun h => h

section Handlers

variable {s : State} (hi : Inv s)
include hi

lemma safe_createCq_iff {fd : ℕ} {out : Option ℕ} {mapped : Bool} :
    (∃ s', (ibvCreateCq fd out mapped).Ends tolerable s s') ↔
      (fd < 2 ^ 31 → s.Found .compChannel fd) ∧ Opened out mapped := by
  simp only [ends_ibvCreateCq not_tolerable_fault, hi.usable_iff (t := .compChannel) nofun, Opened,
    tolerable]
  simp

lemma safe_createQp_iff {req : CreateQpReq} {out : Option ℕ} {mapped : Bool} :
    (∃ s', (ibvCreateQp req out mapped).Ends tolerable s s') ↔
      req.srqHandle.toNat < mapSize ∧ s.Found .pd req.pdHandle.toNat ∧
        s.Found .cq req.sendCqHandle.toNat ∧ s.Found .cq req.recvCqHandle.toNat ∧
        (out = none ∨ Opened out mapped) := by
  have hsrq : ∀ o, s.core.map .srq req.srqHandle.toNat = some o → s.core.live .srq o = true :=
    fun o => hi.core.live .srq _ o nofun
  simp only [ends_ibvCreateQp not_tolerable_fault, hi.usable_iff (t := .pd) nofun,
    hi.usable_iff (t := .cq) nofun, Opened, tolerable, true_and, iff_true_intro hsrq]
  simp [exists_or]

lemma safe_regMr_iff {pd : ℕ} {req : ShmNames.RegMr} {mapped : Bool} {out : Option MrKeys} :
    (∃ s', (ibvRegMr pd req mapped out).Ends tolerable s s') ↔
      (s.shm.addShmPiece req mapped).2 = none ∨ s.Found .pd pd := by
  rw [← hi.usable_iff (t := .pd) nofun]
  simp only [ends_ibvRegMr not_tolerable_fault]
  constructor
  · rintro ⟨s', ⟨hsp, -⟩ | ⟨-, hlt, ⟨-, hno, -⟩ | ⟨o, ho, hl, -⟩⟩⟩
    · exact .inl hsp
    · exact hno.elim
    · exact .inr ⟨hlt, o, ho, hl⟩
  · intro h
    by_cases hsp : (s.shm.addShmPiece req mapped).2 = none
    · exact ⟨_, .inl ⟨hsp, trivial, rfl⟩⟩
    · obtain ⟨hlt, o, ho, hl⟩ := h.resolve_left hsp
      cases out with
      | none => exact ⟨_, .inr ⟨hsp, hlt, .inr ⟨o, ho, hl, .inl ⟨rfl, trivial, rfl⟩⟩⟩⟩
      | some keys => exact ⟨_, .inr ⟨hsp, hlt, .inr ⟨o, ho, hl, .inr ⟨keys, rfl, rfl⟩⟩⟩⟩

lemma safe_deregMr_iff {h : ℕ} {ret : ℤ} :
    (∃ s', (ibvDeregMr h ret).Ends tolerable s s') ↔ s.Found .mr h := by
  rw [← hi.usable_iff (t := .mr) nofun]
  simp only [ends_ibvDeregMr not_tolerable_fault]
  constructor
  · rintro ⟨s', hlt, o, ho, hl, -⟩
    exact ⟨hlt, o, ho, hl⟩
  · rintro ⟨hlt, o, ho, hl⟩
    have hsp : s.shm.shmrMap h ≠ none := fun hnone => by simp [(hi.shmr h).mpr hnone] at ho
    exact ⟨_, hlt, o, ho, hl, hsp, rfl⟩

lemma safe_postSend_iff {h : ℕ} {ws : List PostedWr} {ret : ℤ} {bad : ℕ} :
    (∃ s', (ibvPostSend h ws ret bad).Ends tolerable s s') ↔
      s.Found .qp h ∧
        ∀ q, s.core.map .qp h = some q → s.core.ud q = true → ∀ w ∈ ws, s.Usable .ah w.ah := by
  rw [← hi.usable_iff (t := .qp) nofun]
  simp only [ends_ibvPostSend not_tolerable_fault]
  constructor
  · rintro ⟨s', hlt, q, hq, hl, -, hud, -⟩
    refine ⟨⟨hlt, q, hq, hl⟩, fun q' hq' => ?_⟩
    rw [hq, Option.some.injEq] at hq'
    exact hq' ▸ hud
  · rintro ⟨⟨hlt, q, hq, hl⟩, hud⟩
    have htb : s.tokenbucket h ≠ none := by simp [hi.bucket h q hq]
    exact ⟨s, hlt, q, hq, hl, fun hnone => absurd hnone htb, hud q hq, rfl⟩

omit hi in
lemma safe_chanPostSend_iff {h : ℕ} {ws : List PostedWr} {ret : ℤ} {bad : ℕ} :
    (∃ s', (chanPostSend h ws ret bad).Ends tolerable s s') ↔
      s.ChanUsable .qp h ∧ ∀ q, s.chanPtr .qp h = some q → s.core.ud q = true →
        ∀ w ∈ atFirstAh ws, s.Usable .ah w.ah := by
  simp only [ends_chanPostSend not_tolerable_fault]
  constructor
  · rintro ⟨s', q, hq, hl, hud, -⟩
    refine ⟨⟨q, hq, hl⟩, fun q' hq' => ?_⟩
    rw [hq, Option.some.injEq] at hq'
    exact hq' ▸ hud
  · rintro ⟨⟨q, hq, hl⟩, hud⟩
    exact ⟨_, q, hq, hl, hud q hq, rfl⟩

end Handlers

/-- **Table accesses.** In every reachable state, a request is handled with good accesses, and
without being dropped, exactly when it is guarded. Kind: P -/
theorem tableSafe_iff_guarded {s₀ s : State} {as : List Act} (h₀ : Start s₀)
    (hrun : exec step s₀ as = some s) (a : Act) : TableSafe s a ↔ Guarded s a := by
  have hi := inv_of_run h₀ hrun
  have hok := not_tolerable_fault
  unfold TableSafe
  cases a with
  | allocPd out | createCompChannel out | createEventChannel out =>
      simp only [handle, ibvAllocPd, ibvCreateCompChannel, cmCreateEventChannel,
        ends_createPlain hok, Guarded, Option.ne_none_iff_exists']
      simp
  | deallocPd h ret | destroyCompChannel h ret | destroyEventChannel h =>
      simp only [handle, ibvDeallocPd, ibvDestroyCompChannel, cmDestroyEventChannel,
        ends_destroyPlain hok]
      exact hi.found_iff_ends (by simp)
  | createCq fd out mapped => exact safe_createCq_iff hi
  | destroyCq h ret | destroyQp h ret | destroySrq h ret =>
      simp only [handle, ibvDestroyCq, ibvDestroyQp, ibvDestroySrq, ends_destroyQueue hok]
      exact hi.found_iff_ends (by simp [table])
  | reqNotifyCq h ret | ackCqEvent h | modifySrq h ret =>
      simp only [handle, ibvReqNotifyCq, ibvAckCqEvent, ibvModifySrq, ends_useObject hok]
      exact hi.found_iff_ends (by simp)
  | createQp req out mapped => exact safe_createQp_iff hi
  | modifyQp h ret =>
      rw [Guarded, ← hi.usable_iff (by simp)]
      simp [handle, ends_ibvModifyQp hok, State.Usable]
  | postRecv h ret bad | postSrqRecv h ret bad =>
      rw [Guarded, ← hi.usable_iff (by simp)]
      simp [handle, ibvPostRecv, ibvPostSrqRecv, ends_postOn hok, State.Usable]
  | regMr pd req mapped out => exact safe_regMr_iff hi
  | regMrMapping key here => simp [handle, ends_ibvRegMrMapping, Guarded]
  | deregMr h ret => exact safe_deregMr_iff hi
  | postSend h ws ret bad => exact safe_postSend_iff hi
  | pollCq h count =>
      rw [Guarded, ← hi.usable_iff (t := .cq) (by simp)]
      simp [handle, ends_ibvPollCq hok, tolerable]
  | getCqEvent fd ev =>
      simp only [handle, ends_ibvGetCqEvent hok]
      refine hi.resolved_iff (by simp) fun o => ?_
      cases ev <;> simp [tolerable]
  | createAh pd out =>
      simp only [handle, ends_ibvCreateAh hok]
      refine hi.resolved_iff (by simp) fun o => ?_
      simp [Option.ne_none_iff_exists']
  | destroyAh h ret =>
      simp [handle, ends_ibvDestroyAh hok, Guarded, State.Usable, tolerable]
  | createSrq pd out mapped =>
      simp only [handle, ends_ibvCreateSrq hok]
      refine hi.resolved_iff (by simp) fun o => ?_
      simp [Opened]
  | chanPostSend h ws ret bad => exact safe_chanPostSend_iff
  | chanPostRecv h ret bad =>
      simp [handle, ends_chanPostRecv hok, Guarded, State.ChanUsable, table]
  | chanPollCq h count =>
      simp [handle, ends_chanPollCq hok, Guarded, State.ChanUsable, table, tolerable]
  | chanPostSrqRecv h ret bad =>
      simp [handle, ends_chanPostSrqRecv hok, Guarded, State.ChanUsable, table]

/-! ## Accesses that are not good -/

/-- The accesses of a `DEALLOC_PD` for the PD are good. Kind: C -/
theorem tableSafe_iff_guarded_ended_ah :
    TableSafe endedAh (.deallocPd 0 0) ↔ Guarded endedAh (.deallocPd 0 0) :=
  tableSafe_iff_guarded start_empty exec_endedAhRun (.deallocPd 0 0)

/-- An index beyond the array, a null pointer, a handle without an object, an object after its end,
and a creation with a handle beyond the array. Kind: C -/
theorem tableSafe_fails :
    Start State.empty ∧ exec step State.empty endedAhRun = some endedAh ∧
      ¬ TableSafe endedAh (.deallocPd mapSize 0) ∧ ¬ TableSafe endedAh (.deregMr 0 0) ∧
      ¬ TableSafe endedAh (.deallocPd 1 0) ∧ ¬ TableSafe endedAh (.destroyAh 5 0) ∧
      ¬ TableSafe endedAh (.createCq (2 ^ 31) (some mapSize) true) := by
  have hsafe : ∀ a, (∃ e, (handle a endedAh).1 = .error e ∧ ¬ tolerable e) →
      ¬ TableSafe endedAh a := by
    rintro a ⟨e, he, hno⟩ ⟨s', -, hall⟩
    exact hno (hall e he)
  refine ⟨start_empty, exec_endedAhRun, hsafe _ ?_, hsafe _ ?_, hsafe _ ?_, hsafe _ ?_, hsafe _ ?_⟩
  · exact ⟨.fault .bounds, rfl, fun h => h⟩
  · exact ⟨.fault .null, rfl, fun h => h⟩
  · exact ⟨.notFound, rfl, fun h => h⟩
  · exact ⟨.fault .dead, rfl, fun h => h⟩
  · exact ⟨.fault .bounds, rfl, fun h => h⟩

end FreeFlow.Router.Objects
