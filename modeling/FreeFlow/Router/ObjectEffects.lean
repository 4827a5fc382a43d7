import FreeFlow.Router.Objects

/-!
# What the requests do to the router's tables

Each handler is followed once, from its first lookup to its answer, and what it does is written down
as an effect on the state. Every later result about the tables is a statement about the effects.

* `Effect`, `effect` — the eleven things a request can do, and which of them it does.
* `ends_…` — for every handler, all the ways in which it can end: what its accesses must have found,
  and the state after it. The parameter `ok` says which stops count.
* `step_effect` — every step of the router is the effect of its request.
* `CoreStep`, `Core.Inv` — the arrays of objects, and what holds of them after every run: an object
  is under one handle only, and, except in `ah_map`, an object with an entry exists.
* `Inv` — the other tables: every QP has its bucket, every MR its piece.

Source: `ffrouter.cpp` `HandleRequest`, `CtrlChannelLoop`.
-/

namespace FreeFlow.Router.Objects

open FreeFlow.Found FreeFlow.Verbs FreeFlow.Router.Isolation
open ShmNames (ShmPiece)

/-! ## What a request does to the tables -/

/-- The entry of a new object, if its handle has one. Kind: D -/
def Core.put (c : Core) (t : Table) (h o : ℕ) : Core :=
  if h < mapSize then c.setMap t h (some o) else c

/-- The entry of an object is cleared, and the object is gone if the call succeeded. Kind: D -/
def Core.drop (c : Core) (t : Table) (h o : ℕ) (ok : Bool) : Core :=
  if ok then (c.setMap t h none).kill t o else c.setMap t h none

/-- What a request can do to the state. Kind: D -/
inductive Effect
  | nothing
  | setVar (k : Kind) (p : Option ℕ)
  | create (t : Table) (h : ℕ)
  | openQueue (k : Kind) (h : ℕ) (ud mapped : Bool)
  | addPiece (req : ShmNames.RegMr) (mapped : Bool)
  | register (req : ShmNames.RegMr) (mapped : Bool) (keys : MrKeys)
  | announce (key : UInt32)
  | remove (t : Table) (h o : ℕ) (ok : Bool)
  | closeQueue (k : Kind) (h o : ℕ) (ok : Bool)
  | deregister (h o : ℕ) (ok : Bool)
  | destroyAh (o : ℕ) (ok : Bool)
  deriving DecidableEq, Repr

/-- The state after it. Kind: D -/
def Effect.apply (s : State) : Effect → State
  | .nothing => s
  | .setVar k p => { s with var := Function.update s.var k p }
  | .create t h => { s with core := (s.core.make t false).put t h s.core.next }
  | .openQueue k h ud mapped =>
      let r := s.shm.openPiece (ctrlName k h) sizeofCtrlShmPiece mapped
      { s with
        core := (s.core.make (table k) ud).put (table k) h s.core.next
        tokenbucket := if k = .qp then Function.update s.tokenbucket h (some s.core.next)
          else s.tokenbucket
        shm := r.1
        ctrl := Function.update s.ctrl k (Function.update (s.ctrl k) h r.2)
        vec := Function.update s.vec k (s.vec k ++ [h]) }
  | .addPiece req mapped => { s with shm := (s.shm.addShmPiece req mapped).1 }
  | .register req mapped keys =>
      { s with
        core := (s.core.make .mr false).put .mr keys.handle s.core.next
        shm := (s.shm.regMr req ⟨mapped, true, some keys.handle⟩).1
        lkeyPtr := Function.update s.lkeyPtr keys.lkey (some s.core.next) }
  | .announce key =>
      { s with rkeyMrShm := Function.update s.rkeyMrShm key (some (s.lkeyPtr key)) }
  | .remove t h o ok => { s with core := s.core.drop t h o ok }
  | .closeQueue k h o ok =>
      { s with
        core := s.core.drop (table k) h o ok
        vec := Function.update s.vec k ((s.vec k).erase h)
        shm := (s.ctrl k h).elim s.shm fun sp => s.shm.shmUnlink sp.name
        ctrl := Function.update s.ctrl k (Function.update (s.ctrl k) h none) }
  | .deregister h o ok =>
      { s with core := s.core.drop .mr h o ok, shm := (s.shm.deregMr h).getD s.shm }
  | .destroyAh o ok => { s with core := if ok then s.core.kill .ah o else s.core }

/-- A call that makes an object which a table keeps. Kind: D -/
def creates (t : Table) (out : Option ℕ) : Effect := out.elim .nothing (.create t)

/-- The same for an object with a control channel. Kind: D -/
def opens (k : Kind) (ud mapped : Bool) (out : Option ℕ) : Effect :=
  out.elim .nothing fun h => .openQueue k h ud mapped

/-- The effect on the object under a handle, if there is one. Kind: D -/
def State.at (s : State) (t : Table) (h : ℕ) (e : ℕ → Effect) : Effect :=
  (s.core.map t h).elim .nothing e

/-- The pointer a channel service works with. Kind: D -/
def State.chanPtr (s : State) (k : Kind) (h : ℕ) : Option ℕ :=
  if h < mapSize then s.core.map (table k) h else s.var k

lemma State.at_of_none {s : State} {t : Table} {h : ℕ} (hp : s.core.map t h = none)
    (e : ℕ → Effect) : s.at t h e = .nothing := by
  rw [State.at, hp]
  rfl

lemma State.at_of_some {s : State} {t : Table} {h o : ℕ} (hp : s.core.map t h = some o)
    (e : ℕ → Effect) : s.at t h e = e o := by
  rw [State.at, hp]
  rfl

/-- The effect of a request that does not end the router. Kind: D -/
def effect (s : State) : Act → Effect
  | .allocPd out => creates .pd out
  | .deallocPd h ret => s.at .pd h fun o => .remove .pd h o (ret = 0)
  | .createCq fd out mapped =>
      if fd < 2 ^ 31 ∧ s.core.map .compChannel fd = none then .nothing
      else opens .cq false mapped out
  | .destroyCq h ret => s.at .cq h fun o => .closeQueue .cq h o (ret = 0)
  | .createQp req out mapped => opens .qp (req.qpType = .ud) mapped out
  | .destroyQp h ret => s.at .qp h fun o => .closeQueue .qp h o (ret = 0)
  | .regMr pd req mapped out =>
      match (s.shm.addShmPiece req mapped).2, s.core.map .pd pd, out with
      | some _, some _, some keys => .register req mapped keys
      | _, _, _ => .addPiece req mapped
  | .regMrMapping key here => if here then .announce key else .nothing
  | .deregMr h ret => s.at .mr h fun o => .deregister h o (ret = 0)
  | .createCompChannel out => creates .compChannel out
  | .destroyCompChannel fd ret => s.at .compChannel fd fun o => .remove .compChannel fd o (ret = 0)
  | .createAh pd out => s.at .pd pd fun _ => creates .ah out
  | .destroyAh h ret => s.at .ah h fun o => .destroyAh o (ret = 0)
  | .createSrq pd out mapped => s.at .pd pd fun _ => opens .srq false mapped out
  | .destroySrq h ret => s.at .srq h fun o => .closeQueue .srq h o (ret = 0)
  | .createEventChannel out => creates .eventChannel out
  | .destroyEventChannel fd => s.at .eventChannel fd fun o => .remove .eventChannel fd o true
  | .chanPostSend h _ _ _ | .chanPostRecv h _ _ => .setVar .qp (s.chanPtr .qp h)
  | .chanPollCq h _ => .setVar .cq (s.chanPtr .cq h)
  | .chanPostSrqRecv h _ _ => .setVar .srq (s.chanPtr .srq h)
  | .reqNotifyCq .. | .modifyQp .. | .postSend .. | .postRecv .. | .postSrqRecv .. | .pollCq ..
  | .getCqEvent .. | .ackCqEvent .. | .modifySrq .. => .nothing

/-- There is an object under the handle, and it exists. Kind: D -/
def State.Usable (s : State) (t : Table) (h : ℕ) : Prop :=
  h < mapSize ∧ ∃ o, s.core.map t h = some o ∧ s.core.live t o = true

/-- The tables of objects that are in no other table. Kind: D -/
def Plain (t : Table) : Prop := t ≠ .qp ∧ t ≠ .cq ∧ t ≠ .srq ∧ t ≠ .mr

/-- What the accesses of a request that does not end the router have found. Kind: D -/
def Effect.Legal (s : State) : Effect → Prop
  | .create t _ => Plain t
  | .openQueue _ h _ mapped => h < mapSize ∧ mapped = true
  | .register req mapped _ => (s.shm.addShmPiece req mapped).2 ≠ none
  | .remove t h o _ =>
      (Plain t ∧ t ≠ .ah) ∧ h < mapSize ∧ s.core.map t h = some o ∧ s.core.live t o = true
  | .closeQueue k h o _ =>
      h < mapSize ∧ s.core.map (table k) h = some o ∧ s.core.live (table k) o = true
  | .deregister h o _ => h < mapSize ∧ s.core.map .mr h = some o ∧ s.core.live .mr o = true ∧
      s.shm.shmrMap h ≠ none
  | .destroyAh o _ => s.core.live .ah o = true ∧ ∃ h, s.core.map .ah h = some o
  | _ => True

/-! ## How the parts of a handler end -/

@[simp] lemma Core.live_setMap (c : Core) (t : Table) (h : ℕ) (p : Option ℕ) :
    (c.setMap t h p).live = c.live := rfl

section Parts

variable {α β : Type} {ok : Stop → Prop} (hok : ∀ f, ¬ ok (.fault f)) {s s' : State}
include hok

lemma ends_fault (f : Fault) : ¬ (fault f : Step α).Ends ok s s' := by
  simp [fault, hok f]

lemma ends_fault_bind (f : Fault) (k : α → Step β) :
    ¬ ((fault f : Step α) >>= k).Ends ok s s' := by
  simp [fault, hok f]

lemma ends_index_bind {h : ℕ} {k : Unit → Step α} :
    (index h >>= k).Ends ok s s' ↔ h < mapSize ∧ (k ()).Ends ok s s' := by
  by_cases hlt : h < mapSize <;> simp [index, hlt, ends_fault_bind hok]

lemma ends_lookup_bind {t : Table} {h : ℕ} {k : Option ℕ → Step α} :
    (lookup t h >>= k).Ends ok s s' ↔ h < mapSize ∧ (k (s.core.map t h)).Ends ok s s' := by
  simp [lookup, ends_index_bind hok]

lemma ends_store_bind {t : Table} {h : ℕ} {p : Option ℕ} {k : Unit → Step α} :
    (store t h p >>= k).Ends ok s s' ↔
      h < mapSize ∧ (k ()).Ends ok { s with core := s.core.setMap t h p } s' := by
  simp [store, ends_index_bind hok]

lemma ends_deref_bind {t : Table} {p : Option ℕ} {k : ℕ → Step α} :
    (deref t p >>= k).Ends ok s s' ↔
      ∃ o, p = some o ∧ s.core.live t o = true ∧ (k o).Ends ok s s' := by
  cases p with
  | none => simp [deref, ends_fault_bind hok]
  | some o => cases hl : s.core.live t o <;> simp [deref, hl, ends_fault_bind hok]

lemma ends_derefIfAny_bind {t : Table} {p : Option ℕ} {k : Unit → Step α} :
    (derefIfAny t p >>= k).Ends ok s s' ↔
      (∀ o, p = some o → s.core.live t o = true) ∧ (k ()).Ends ok s s' := by
  cases p with
  | none => simp [derefIfAny]
  | some o => simp [derefIfAny, ends_deref_bind hok]

lemma ends_destroyObject_bind {t : Table} {p : Option ℕ} {ret : ℤ} {k : Unit → Step α} :
    (destroyObject t p ret >>= k).Ends ok s s' ↔
      ∃ o, p = some o ∧ s.core.live t o = true ∧
        (k ()).Ends ok { s with core := if ret = 0 then s.core.kill t o else s.core } s' := by
  by_cases hret : ret = 0 <;> simp [destroyObject, hret, ends_deref_bind hok]

end Parts

section Parts

variable {α : Type} {ok : Stop → Prop} {s s' : State}

lemma ends_found_bind {p : Option ℕ} {k : Unit → Step α} :
    (found p >>= k).Ends ok s s' ↔
      (p = none ∧ ok .notFound ∧ s = s') ∨ (p ≠ none ∧ (k ()).Ends ok s s') := by
  by_cases hp : p = none <;> simp [found, hp]

lemma ends_storeBelow_bind {t : Table} {h o : ℕ} {k : Unit → Step α} :
    (storeBelow t h o >>= k).Ends ok s s' ↔
      (k ()).Ends ok { s with core := s.core.put t h o } s' := by
  by_cases hlt : h < mapSize
  · simp [storeBelow, store, index, hlt, Core.put]
  · simp [storeBelow, hlt, Core.put]

lemma ends_create_bind {t : Table} {ud : Bool} {out : Option ℕ} {e : Stop}
    {k : ℕ × ℕ → Step α} :
    (create t ud out e >>= k).Ends ok s s' ↔
      (out = none ∧ ok e ∧ s = s') ∨
      ∃ h, out = some h ∧
        (k (s.core.next, h)).Ends ok { s with core := s.core.make t ud } s' := by
  cases out <;> simp [create]

end Parts

/-! ## How the handlers end -/

section Handlers

variable {ok : Stop → Prop} (hok : ∀ f, ¬ ok (.fault f)) {s s' : State}
include hok

/-- The usual beginning: an object is looked up and has to be there. Kind: L -/
lemma ends_resolve {α : Type} {t : Table} {h : ℕ} {k : Option ℕ → Step α} :
    (lookup t h >>= fun p => found p >>= fun _ => k p).Ends ok s s' ↔
      h < mapSize ∧ ((s.core.map t h = none ∧ ok .notFound ∧ s = s') ∨
        ∃ o, s.core.map t h = some o ∧ (k (some o)).Ends ok s s') := by
  rw [ends_lookup_bind hok, ends_found_bind]
  cases s.core.map t h <;> simp

lemma ends_createPlain {t : Table} {out : Option ℕ} :
    (createPlain t out).Ends ok s s' ↔ ∃ h, out = some h ∧ (Effect.create t h).apply s = s' := by
  simp [createPlain, ends_create_bind, ends_storeBelow_bind, hok, Effect.apply]

lemma ends_destroyPlain {t : Table} {h : ℕ} {ret : ℤ} :
    (destroyPlain t h ret).Ends ok s s' ↔
      h < mapSize ∧ ((s.core.map t h = none ∧ ok .notFound ∧ s = s') ∨
        ∃ o, s.core.map t h = some o ∧ s.core.live t o = true ∧
          (Effect.remove t h o (ret = 0)).apply s = s') := by
  unfold destroyPlain
  rw [ends_resolve hok]
  refine and_congr_right fun hlt => or_congr Iff.rfl (exists_congr fun o => and_congr_right ?_)
  simp [ends_store_bind hok, ends_destroyObject_bind hok, hlt, Effect.apply, Core.drop]

lemma ends_destroyQueue {k : Kind} {h : ℕ} {ret : ℤ} :
    (destroyQueue k h ret).Ends ok s s' ↔
      h < mapSize ∧ ((s.core.map (table k) h = none ∧ ok .notFound ∧ s = s') ∨
        ∃ o, s.core.map (table k) h = some o ∧ s.core.live (table k) o = true ∧
          (Effect.closeQueue k h o (ret = 0)).apply s = s') := by
  unfold destroyQueue closeChannel
  rw [ends_resolve hok]
  refine and_congr_right fun hlt => or_congr Iff.rfl (exists_congr fun o => and_congr_right ?_)
  simp [ends_store_bind hok, ends_destroyObject_bind hok, ends_index_bind hok, hlt, Effect.apply,
    Core.drop]

lemma ends_useObject {t : Table} {h : ℕ} {r : Reply} :
    (useObject t h r).Ends ok s s' ↔
      h < mapSize ∧ ((s.core.map t h = none ∧ ok .notFound ∧ s = s') ∨
        ∃ o, s.core.map t h = some o ∧ s.core.live t o = true ∧ s = s') := by
  unfold useObject
  rw [ends_resolve hok]
  simp [ends_deref_bind hok]

lemma ends_openChannel {k : Kind} {h : ℕ} {mapped : Bool} :
    (openChannel k h mapped).Ends ok s s' ↔
      h < mapSize ∧ mapped = true ∧
      { s with
        shm := (s.shm.openPiece (ctrlName k h) sizeofCtrlShmPiece mapped).1
        ctrl := Function.update s.ctrl k (Function.update (s.ctrl k) h
          (s.shm.openPiece (ctrlName k h) sizeofCtrlShmPiece mapped).2)
        vec := Function.update s.vec k (s.vec k ++ [h]) } = s' := by
  have hsize : 0 < sizeofCtrlShmPiece := by decide
  cases mapped <;>
    simp [openChannel, initCtrlShm, ShmNames.State.openPiece, hsize, ends_fault_bind hok,
      ends_index_bind hok]

/-- The end of a creation: the object gets its entry and its channel. Kind: L -/
lemma ends_enter {k : Kind} (hk : k ≠ .qp) (h : ℕ) (mapped : Bool) :
    (storeBelow (table k) h s.core.next >>= fun _ => openChannel k h mapped).Ends ok
        { s with core := s.core.make (table k) false } s' ↔
      h < mapSize ∧ mapped = true ∧ (Effect.openQueue k h false mapped).apply s = s' := by
  rw [ends_storeBelow_bind, ends_openChannel hok]
  simp [Effect.apply, hk]

lemma ends_ibvCreateCq {fd : ℕ} {out : Option ℕ} {mapped : Bool} :
    (ibvCreateCq fd out mapped).Ends ok s s' ↔
      (fd < 2 ^ 31 ∧ fd < mapSize ∧ s.core.map .compChannel fd = none ∧ ok .notFound ∧ s = s') ∨
      ((fd < 2 ^ 31 → s.Usable .compChannel fd) ∧
        ∃ h, out = some h ∧ h < mapSize ∧ mapped = true ∧
          (Effect.openQueue .cq h false mapped).apply s = s') := by
  have henter := fun h => @ends_enter ok hok s s' .cq (by simp) h mapped
  have hnull := hok .null
  simp only [table] at henter
  unfold ibvCreateCq
  by_cases hfd : fd < 2 ^ 31
  · simp only [hfd, if_true, ends_resolve hok, ends_deref_bind hok, ends_create_bind, henter, hnull,
      false_and, and_false, false_or, Option.some.injEq, true_and, true_imp_iff]
    constructor
    · rintro ⟨hlt, hnone | ⟨o, hp, o', rfl, hl, hopen⟩⟩
      · exact .inl ⟨hlt, hnone⟩
      · exact .inr ⟨⟨hlt, o, hp, hl⟩, hopen⟩
    · rintro (⟨hlt, hnone⟩ | ⟨⟨hlt, o, hp, hl⟩, hopen⟩)
      · exact ⟨hlt, .inl hnone⟩
      · exact ⟨hlt, .inr ⟨o, hp, o, rfl, hl, hopen⟩⟩
  · simp [hfd, -Nat.reducePow, ends_create_bind, henter, hnull]

lemma ends_ibvCreateQp {req : CreateQpReq} {out : Option ℕ} {mapped : Bool} :
    (ibvCreateQp req out mapped).Ends ok s s' ↔
      req.srqHandle.toNat < mapSize ∧ s.Usable .pd req.pdHandle.toNat ∧
      s.Usable .cq req.sendCqHandle.toNat ∧ s.Usable .cq req.recvCqHandle.toNat ∧
      (∀ o, s.core.map .srq req.srqHandle.toNat = some o → s.core.live .srq o = true) ∧
      ((out = none ∧ ok .failed ∧ s = s') ∨
        ∃ h, out = some h ∧ h < mapSize ∧ mapped = true ∧
          (Effect.openQueue .qp h (req.qpType = .ud) mapped).apply s = s') := by
  -- the QP gets its entry, its bucket and its channel
  have henter : ∀ h, (if h < mapSize then do
        store .qp h (some s.core.next)
        Proc.modify fun u =>
          { u with tokenbucket := Function.update u.tokenbucket h (some s.core.next) }
        openChannel .qp h mapped
      else openChannel .qp h mapped : Step Reply).Ends ok
        { s with core := s.core.make .qp (req.qpType = .ud) } s' ↔
      h < mapSize ∧ mapped = true ∧
        (Effect.openQueue .qp h (req.qpType = .ud) mapped).apply s = s' := by
    intro h
    by_cases hlt : h < mapSize
    · simp [hlt, ends_store_bind hok, ends_openChannel hok, Effect.apply, Core.put, table]
    · simp [hlt, ends_openChannel hok]
  simp only [ibvCreateQp, initAttr, Proc.bind_bind_eq, Proc.pure_bind_eq, ends_lookup_bind hok,
    ends_deref_bind hok, ends_derefIfAny_bind hok, ends_create_bind, henter]
  constructor
  · rintro ⟨hsrq, hsend, hrecv, hpd, o, ho, hl, o', ho', hl', o'', ho'', hl'', hsrq', hrest⟩
    exact ⟨hsrq, ⟨hpd, o, ho, hl⟩, ⟨hsend, o', ho', hl'⟩, ⟨hrecv, o'', ho'', hl''⟩, hsrq', hrest⟩
  · rintro ⟨hsrq, ⟨hpd, o, ho, hl⟩, ⟨hsend, o', ho', hl'⟩, ⟨hrecv, o'', ho'', hl''⟩, hsrq', hrest⟩
    exact ⟨hsrq, hsend, hrecv, hpd, o, ho, hl, o', ho', hl', o'', ho'', hl'', hsrq', hrest⟩

lemma ends_ibvRegMr {pd : ℕ} {req : ShmNames.RegMr} {mapped : Bool} {out : Option MrKeys} :
    (ibvRegMr pd req mapped out).Ends ok s s' ↔
      ((s.shm.addShmPiece req mapped).2 = none ∧ ok .failed ∧
        (Effect.addPiece req mapped).apply s = s') ∨
      ((s.shm.addShmPiece req mapped).2 ≠ none ∧ pd < mapSize ∧
        ((s.core.map .pd pd = none ∧ ok .notFound ∧ (Effect.addPiece req mapped).apply s = s') ∨
        ∃ o, s.core.map .pd pd = some o ∧ s.core.live .pd o = true ∧
          ((out = none ∧ ok .failed ∧ (Effect.addPiece req mapped).apply s = s') ∨
          ∃ keys, out = some keys ∧ (Effect.register req mapped keys).apply s = s'))) := by
  unfold ibvRegMr
  simp only [Proc.ends_get_bind, Proc.ends_modify_bind]
  cases hsp : (s.shm.addShmPiece req mapped).2 with
  | none => simp [Effect.apply]
  | some sp =>
      cases out with
      | none => simp [ends_resolve hok, ends_deref_bind hok, Effect.apply]
      | some keys =>
          by_cases hlt : keys.handle < mapSize
          · simp [ends_resolve hok, ends_deref_bind hok, ends_create_bind, ends_store_bind hok, hlt,
              hsp, Effect.apply, Core.put, ShmNames.State.regMr]
          · simp [ends_resolve hok, ends_deref_bind hok, ends_create_bind, hlt, hsp, Effect.apply,
              Core.put, ShmNames.State.regMr]

omit hok in
lemma ends_ibvRegMrMapping {key : UInt32} {here : Bool} :
    (ibvRegMrMapping key here).Ends ok s s' ↔
      (if here then Effect.announce key else .nothing).apply s = s' := by
  cases here <;> simp [ibvRegMrMapping, Effect.apply]

lemma ends_ibvDeregMr {h : ℕ} {ret : ℤ} :
    (ibvDeregMr h ret).Ends ok s s' ↔
      h < mapSize ∧ (∃ o, s.core.map .mr h = some o ∧ s.core.live .mr o = true ∧
        s.shm.shmrMap h ≠ none ∧ (Effect.deregister h o (ret = 0)).apply s = s') := by
  cases hsp : s.shm.shmrMap h with
  | none =>
      simp [ibvDeregMr, ends_index_bind hok, ends_lookup_bind hok, ends_store_bind hok,
        ends_destroyObject_bind hok, ends_fault hok, hsp]
  | some sp =>
      simp [ibvDeregMr, ends_index_bind hok, ends_lookup_bind hok, ends_store_bind hok,
        ends_destroyObject_bind hok, hsp, Effect.apply, Core.drop, ShmNames.State.deregMr]

lemma ends_ibvModifyQp {h : ℕ} {ret : ℤ} :
    (ibvModifyQp h ret).Ends ok s s' ↔ s.Usable .qp h ∧ s = s' := by
  by_cases hlt : h < mapSize <;>
    simp [ibvModifyQp, ends_lookup_bind hok, ends_deref_bind hok, ends_fault_bind hok, hlt,
      State.Usable, ← exists_and_right, and_assoc]

lemma ends_fixAhs_bind {α : Type} {ws : List PostedWr} {k : List (Option ℕ) → Step α} :
    (fixAhs ws >>= k).Ends ok s s' ↔
      (∀ w ∈ ws, w.ah < mapSize) ∧ (k (ws.map fun w => s.core.map .ah w.ah)).Ends ok s s' := by
  induction ws generalizing k with
  | nil => simp [fixAhs]
  | cons w ws ih => simp [fixAhs, ends_lookup_bind hok, ih, and_assoc]

lemma ends_useAhs_bind {α : Type} {ps : List (Option ℕ)} {k : Unit → Step α} :
    (useAhs ps >>= k).Ends ok s s' ↔
      (∀ p ∈ ps, ∃ o, p = some o ∧ s.core.live .ah o = true) ∧ (k ()).Ends ok s s' := by
  induction ps with
  | nil => simp [useAhs]
  | cons p ps ih => simp [useAhs, ends_deref_bind hok, ih, ← exists_and_right, and_assoc]

lemma ends_postWrs_bind {α : Type} {q : ℕ} {ws : List PostedWr} {k : Unit → Step α} :
    (postWrs q ws >>= k).Ends ok s s' ↔
      (s.core.ud q = true → ∀ w ∈ ws, s.Usable .ah w.ah) ∧ (k ()).Ends ok s s' := by
  cases hud : s.core.ud q with
  | false => simp [postWrs, hud]
  | true =>
      simp [postWrs, hud, ends_fixAhs_bind hok, ends_useAhs_bind hok, State.Usable, forall_and,
        and_assoc]

lemma ends_ibvPostSend {h : ℕ} {ws : List PostedWr} {retErrno : ℤ} {badWr : ℕ} :
    (ibvPostSend h ws retErrno badWr).Ends ok s s' ↔
      h < mapSize ∧ ∃ q, s.core.map .qp h = some q ∧ s.core.live .qp q = true ∧
        (s.tokenbucket h = none → ∀ w ∈ ws, w.lkeys = []) ∧
        (s.core.ud q = true → ∀ w ∈ ws, s.Usable .ah w.ah) ∧ s = s' := by
  by_cases hlt : h < mapSize
  · by_cases htb : s.tokenbucket h = none ∧ ∃ w ∈ ws, w.lkeys ≠ []
    · simp [ibvPostSend, ends_lookup_bind hok, ends_deref_bind hok, hlt, htb, ends_fault_bind hok]
    · have hno : s.tokenbucket h = none → ∀ w ∈ ws, w.lkeys = [] := by
        intro hnone w hw
        by_contra hne
        exact htb ⟨hnone, w, hw, hne⟩
      simp [ibvPostSend, ends_lookup_bind hok, ends_deref_bind hok, ends_postWrs_bind hok, hlt, htb,
        iff_true_intro hno]
  · simp [ibvPostSend, ends_deref_bind hok, hlt]

lemma ends_postOn {t : Table} {h : ℕ} {retErrno : ℤ} {badWr : ℕ} :
    (postOn t h retErrno badWr).Ends ok s s' ↔ s.Usable t h ∧ s = s' := by
  by_cases hlt : h < mapSize <;>
    simp [postOn, ends_lookup_bind hok, ends_deref_bind hok, hlt, State.Usable, ← exists_and_right,
      and_assoc]

lemma ends_ibvPollCq {h : ℕ} {count : ℤ} :
    (ibvPollCq h count).Ends ok s s' ↔
      ((h < mapSize → s.core.map .cq h = none) ∧ ok .notFound ∧ s = s') ∨
      (s.Usable .cq h ∧ s = s') := by
  by_cases hlt : h < mapSize
  · simp [ibvPollCq, ends_resolve hok, ends_deref_bind hok, hlt, State.Usable, ← exists_and_right,
      and_assoc]
  · simp [ibvPollCq, ends_found_bind, hlt, State.Usable]

lemma ends_ibvGetCqEvent {fd : ℕ} {ev : Option ℕ} :
    (ibvGetCqEvent fd ev).Ends ok s s' ↔
      fd < mapSize ∧ ((s.core.map .compChannel fd = none ∧ ok .notFound ∧ s = s') ∨
        ∃ o, s.core.map .compChannel fd = some o ∧ s.core.live .compChannel o = true ∧
          ((ev = none ∧ ok .failed ∧ s = s') ∨
          ∃ cq, ev = some cq ∧ s.core.live .cq cq = true ∧ s = s')) := by
  unfold ibvGetCqEvent
  rw [ends_resolve hok]
  cases ev <;> simp [ends_deref_bind hok]

lemma ends_ibvCreateAh {pd : ℕ} {out : Option ℕ} :
    (ibvCreateAh pd out).Ends ok s s' ↔
      pd < mapSize ∧ ((s.core.map .pd pd = none ∧ ok .notFound ∧ s = s') ∨
        ∃ o, s.core.map .pd pd = some o ∧ s.core.live .pd o = true ∧
          ∃ h, out = some h ∧ (Effect.create .ah h).apply s = s') := by
  unfold ibvCreateAh
  rw [ends_resolve hok]
  simp [ends_deref_bind hok, ends_create_bind, ends_storeBelow_bind, hok, Effect.apply]

lemma ends_ibvDestroyAh {h : ℕ} {ret : ℤ} :
    (ibvDestroyAh h ret).Ends ok s s' ↔
      h < mapSize ∧ ((s.core.map .ah h = none ∧ ok .notFound ∧ s = s') ∨
        ∃ o, s.core.map .ah h = some o ∧ s.core.live .ah o = true ∧
          (Effect.destroyAh o (ret = 0)).apply s = s') := by
  unfold ibvDestroyAh
  rw [ends_resolve hok]
  simp [ends_destroyObject_bind hok, Effect.apply]

lemma ends_ibvCreateSrq {pd : ℕ} {out : Option ℕ} {mapped : Bool} :
    (ibvCreateSrq pd out mapped).Ends ok s s' ↔
      pd < mapSize ∧ ((s.core.map .pd pd = none ∧ ok .notFound ∧ s = s') ∨
        ∃ o, s.core.map .pd pd = some o ∧ s.core.live .pd o = true ∧
          ∃ h, out = some h ∧ h < mapSize ∧ mapped = true ∧
            (Effect.openQueue .srq h false mapped).apply s = s') := by
  have henter := fun h => @ends_enter ok hok s s' .srq (by simp) h mapped
  simp only [table] at henter
  unfold ibvCreateSrq
  rw [ends_resolve hok]
  simp [ends_deref_bind hok, ends_create_bind, henter, hok]

omit hok in
lemma ends_chanLookup_bind {α : Type} {k : Kind} {h : ℕ} {f : Option ℕ → Step α} :
    (chanLookup k h >>= f).Ends ok s s' ↔
      (f (s.chanPtr k h)).Ends ok ((Effect.setVar k (s.chanPtr k h)).apply s) s' := by
  by_cases hlt : h < mapSize
  · simp [chanLookup, lookup, index, hlt, State.chanPtr, Effect.apply]
  · simp [chanLookup, hlt, State.chanPtr, Effect.apply]

lemma ends_chanPostSend {h : ℕ} {ws : List PostedWr} {retErrno : ℤ} {badWr : ℕ} :
    (chanPostSend h ws retErrno badWr).Ends ok s s' ↔
      ∃ q, s.chanPtr .qp h = some q ∧ s.core.live .qp q = true ∧
        (s.core.ud q = true → ∀ w ∈ atFirstAh ws, s.Usable .ah w.ah) ∧
        (Effect.setVar .qp (s.chanPtr .qp h)).apply s = s' := by
  unfold chanPostSend
  rw [ends_chanLookup_bind, ends_deref_bind hok]
  simp [ends_postWrs_bind hok, Effect.apply, State.Usable]

lemma ends_chanPostRecv {h : ℕ} {retErrno : ℤ} {badWr : ℕ} :
    (chanPostRecv h retErrno badWr).Ends ok s s' ↔
      ∃ q, s.chanPtr .qp h = some q ∧ s.core.live .qp q = true ∧
        (Effect.setVar .qp (s.chanPtr .qp h)).apply s = s' := by
  unfold chanPostRecv
  rw [ends_chanLookup_bind, ends_deref_bind hok]
  simp [Effect.apply]

lemma ends_chanPollCq {h : ℕ} {count : ℤ} :
    (chanPollCq h count).Ends ok s s' ↔
      (s.chanPtr .cq h = none ∧ ok .notFound ∧ (Effect.setVar .cq none).apply s = s') ∨
      ∃ o, s.chanPtr .cq h = some o ∧ s.core.live .cq o = true ∧
        (Effect.setVar .cq (s.chanPtr .cq h)).apply s = s' := by
  unfold chanPollCq
  rw [ends_chanLookup_bind, ends_found_bind]
  cases hp : s.chanPtr .cq h <;> simp [ends_deref_bind hok, Effect.apply]

lemma ends_chanPostSrqRecv {h : ℕ} {retErrno : ℤ} {badWr : ℕ} :
    (chanPostSrqRecv h retErrno badWr).Ends ok s s' ↔
      ∃ o, s.chanPtr .srq h = some o ∧ s.core.live .srq o = true ∧
        (Effect.setVar .srq (s.chanPtr .srq h)).apply s = s' := by
  unfold chanPostSrqRecv
  rw [ends_chanLookup_bind, ends_deref_bind hok]
  simp [Effect.apply]

end Handlers

/-! ## One step -/

/-- The stops after which the router goes on. Kind: D -/
def survivable : Stop → Prop
  | .fault _ => False
  | _ => True

/-- A step is a handler that the router survives. Kind: L -/
lemma step_eq_some_iff {s s' : State} {a : Act} :
    step s a = some s' ↔ (handle a).Ends survivable s s' := by
  unfold step Proc.Ends
  rcases handle a s with ⟨(_ | _ | f) | r, t⟩ <;> simp [survivable]

/-- The effect on the object under a handle, when it is there and when it is not. Kind: L -/
lemma did_at {s s' : State} {t : Table} {h : ℕ} {e : ℕ → Effect}
    (hs : (s.core.map t h = none ∧ survivable .notFound ∧ s = s') ∨
      ∃ o, s.core.map t h = some o ∧ s.core.live t o = true ∧ (e o).apply s = s')
    (hlegal : ∀ o, s.core.map t h = some o → s.core.live t o = true → (e o).Legal s) :
    s' = (s.at t h e).apply s ∧ (s.at t h e).Legal s := by
  rcases hs with ⟨hp, -, rfl⟩ | ⟨o, hp, hl, rfl⟩
  · rw [State.at_of_none hp]
    exact ⟨rfl, trivial⟩
  · rw [State.at_of_some hp]
    exact ⟨rfl, hlegal o hp hl⟩

/-- **Every step** is the effect of its request, with what it needs. Kind: P -/
theorem step_effect {s s' : State} {a : Act} (h : step s a = some s') :
    s' = (effect s a).apply s ∧ (effect s a).Legal s := by
  rw [step_eq_some_iff] at h
  have hok : ∀ f, ¬ survivable (.fault f) := fun _ h => h
  cases a with
  | allocPd out | createCompChannel out | createEventChannel out =>
      obtain ⟨n, rfl, hs⟩ := (ends_createPlain hok).mp h
      exact ⟨hs.symm, nofun, nofun, nofun, nofun⟩
  | deallocPd n ret | destroyCompChannel n ret | destroyEventChannel n =>
      obtain ⟨hlt, hs⟩ := (ends_destroyPlain hok).mp h
      exact did_at hs fun o hp hl => ⟨⟨⟨nofun, nofun, nofun, nofun⟩, nofun⟩, hlt, hp, hl⟩
  | createCq fd out mapped =>
      rcases (ends_ibvCreateCq hok).mp h with ⟨hfd, -, hp, -, hs⟩ | ⟨hch, n, rfl, hlt, hm, hs⟩
      · rw [effect, if_pos ⟨hfd, hp⟩]
        exact ⟨hs.symm, trivial⟩
      · rw [effect, if_neg]
        · exact ⟨hs.symm, hlt, hm⟩
        · rintro ⟨hfd, hp⟩
          obtain ⟨-, o, ho, -⟩ : s.Usable .compChannel fd := hch hfd
          exact absurd (hp.symm.trans ho) (by simp)
  | destroyCq n ret | destroyQp n ret | destroySrq n ret =>
      obtain ⟨hlt, hs⟩ := (ends_destroyQueue hok).mp h
      exact did_at hs fun o hp hl => ⟨hlt, hp, hl⟩
  | reqNotifyCq n ret | ackCqEvent n | modifySrq n ret =>
      obtain ⟨-, ⟨-, -, hs⟩ | ⟨-, -, -, hs⟩⟩ := (ends_useObject hok).mp h <;>
        exact ⟨hs.symm, trivial⟩
  | createQp req out mapped =>
      obtain ⟨-, -, -, -, -, ⟨rfl, -, hs⟩ | ⟨n, rfl, hlt, hm, hs⟩⟩ := (ends_ibvCreateQp hok).mp h
      · exact ⟨hs.symm, trivial⟩
      · exact ⟨hs.symm, hlt, hm⟩
  | regMr pd req mapped out =>
      rcases (ends_ibvRegMr hok).mp h with ⟨hsp, -, hs⟩ | ⟨hsp, -, hout⟩
      · simp only [effect, hsp]
        exact ⟨hs.symm, trivial⟩
      · obtain ⟨sp, hsp'⟩ := Option.ne_none_iff_exists'.mp hsp
        rcases hout with ⟨hp, -, hs⟩ | ⟨o, hp, -, ⟨rfl, -, hs⟩ | ⟨keys, rfl, hs⟩⟩
        · simp only [effect, hsp', hp]
          exact ⟨hs.symm, trivial⟩
        · simp only [effect, hsp', hp]
          exact ⟨hs.symm, trivial⟩
        · simp only [effect, hsp', hp]
          exact ⟨hs.symm, hsp⟩
  | regMrMapping key here =>
      refine ⟨(ends_ibvRegMrMapping.mp h).symm, ?_⟩
      cases here <;> trivial
  | deregMr n ret =>
      obtain ⟨hlt, o, hp, hl, hsp, hs⟩ := (ends_ibvDeregMr hok).mp h
      rw [effect, State.at_of_some hp]
      exact ⟨hs.symm, hlt, hp, hl, hsp⟩
  | modifyQp n ret =>
      obtain ⟨-, hs⟩ := (ends_ibvModifyQp hok).mp h
      exact ⟨hs.symm, trivial⟩
  | postSend n ws ret bad =>
      obtain ⟨-, -, -, -, -, -, hs⟩ := (ends_ibvPostSend hok).mp h
      exact ⟨hs.symm, trivial⟩
  | postRecv n ret bad | postSrqRecv n ret bad =>
      obtain ⟨-, hs⟩ := (ends_postOn hok).mp h
      exact ⟨hs.symm, trivial⟩
  | pollCq n count =>
      obtain ⟨-, -, hs⟩ | ⟨-, hs⟩ := (ends_ibvPollCq hok).mp h <;>
        exact ⟨hs.symm, trivial⟩
  | getCqEvent fd ev =>
      obtain ⟨-, ⟨-, -, hs⟩ | ⟨-, -, -, ⟨-, -, hs⟩ | ⟨-, -, -, hs⟩⟩⟩ :=
        (ends_ibvGetCqEvent hok).mp h <;> exact ⟨hs.symm, trivial⟩
  | createAh pd out =>
      obtain ⟨-, ⟨hp, -, hs⟩ | ⟨o, hp, -, n, rfl, hs⟩⟩ := (ends_ibvCreateAh hok).mp h
      · rw [effect, State.at_of_none hp]
        exact ⟨hs.symm, trivial⟩
      · rw [effect, State.at_of_some hp]
        exact ⟨hs.symm, nofun, nofun, nofun, nofun⟩
  | destroyAh n ret =>
      obtain ⟨-, hs⟩ := (ends_ibvDestroyAh hok).mp h
      exact did_at hs fun o hp hl => ⟨hl, n, hp⟩
  | createSrq pd out mapped =>
      obtain ⟨-, ⟨hp, -, hs⟩ | ⟨o, hp, -, n, rfl, hlt, hm, hs⟩⟩ := (ends_ibvCreateSrq hok).mp h
      · rw [effect, State.at_of_none hp]
        exact ⟨hs.symm, trivial⟩
      · rw [effect, State.at_of_some hp]
        exact ⟨hs.symm, hlt, hm⟩
  | chanPostSend n ws ret bad =>
      obtain ⟨-, -, -, -, hs⟩ := (ends_chanPostSend hok).mp h
      exact ⟨hs.symm, trivial⟩
  | chanPostRecv n ret bad =>
      obtain ⟨-, -, -, hs⟩ := (ends_chanPostRecv hok).mp h
      exact ⟨hs.symm, trivial⟩
  | chanPollCq n count =>
      obtain ⟨hp, -, hs⟩ | ⟨-, -, -, hs⟩ := (ends_chanPollCq hok).mp h
      · rw [effect, hp]
        exact ⟨hs.symm, trivial⟩
      · exact ⟨hs.symm, trivial⟩
  | chanPostSrqRecv n ret bad =>
      obtain ⟨-, -, -, hs⟩ := (ends_chanPostSrqRecv hok).mp h
      exact ⟨hs.symm, trivial⟩

/-! ## The arrays of objects -/

/-- What a step can do to the arrays. Kind: D -/
inductive CoreStep (c : Core) : Core → Prop
  | same : CoreStep c c
  | make (t : Table) (h : ℕ) (ud : Bool) : CoreStep c ((c.make t ud).put t h c.next)
  | drop (t : Table) (h o : ℕ) (ok : Bool) : c.map t h = some o → CoreStep c (c.drop t h o ok)
  | killAh (h o : ℕ) : c.map .ah h = some o → CoreStep c (c.kill .ah o)

/-- Every step does one of these. Kind: L -/
lemma coreStep_of_step {s s' : State} {a : Act} (h : step s a = some s') :
    CoreStep s.core s'.core := by
  obtain ⟨rfl, hlegal⟩ := step_effect h
  cases he : effect s a with
  | nothing | setVar | addPiece | announce => exact .same
  | create t n => exact .make t n false
  | openQueue k n ud mapped => exact .make (table k) n ud
  | register req mapped keys => exact .make .mr keys.handle false
  | remove t n o ok =>
      rw [he] at hlegal
      exact .drop t n o ok hlegal.2.2.1
  | closeQueue k n o ok =>
      rw [he] at hlegal
      exact .drop (table k) n o ok hlegal.2.1
  | deregister n o ok =>
      rw [he] at hlegal
      exact .drop .mr n o ok hlegal.2.1
  | destroyAh o ok =>
      rw [he] at hlegal
      obtain ⟨-, n, hn⟩ := hlegal
      cases ok with
      | false => exact .same
      | true => exact .killAh n o hn

lemma Core.map_setMap (c : Core) (t t' : Table) (h h' : ℕ) (p : Option ℕ) :
    (c.setMap t h p).map t' h' = if t' = t ∧ h' = h then p else c.map t' h' := by
  by_cases ht : t' = t
  · subst ht
    by_cases hh : h' = h <;> simp [Core.setMap, hh]
  · simp [Core.setMap, ht]

lemma Core.live_kill (c : Core) (t t' : Table) (o o' : ℕ) :
    (c.kill t o).live t' o' = if t' = t ∧ o' = o then false else c.live t' o' := by
  by_cases ht : t' = t
  · subst ht
    by_cases ho : o' = o <;> simp [Core.kill, ho]
  · simp [Core.kill, ht]

lemma Core.live_make (c : Core) (t t' : Table) (ud : Bool) (o : ℕ) :
    (c.make t ud).live t' o = if t' = t ∧ o = c.next then true else c.live t' o := by
  by_cases ht : t' = t
  · subst ht
    by_cases ho : o = c.next <;> simp [Core.make, ho]
  · simp [Core.make, ht]

lemma Core.map_put_make (c : Core) (t t' : Table) (h h' : ℕ) (ud : Bool) :
    ((c.make t ud).put t h c.next).map t' h' =
      if t' = t ∧ h' = h ∧ h < mapSize then some c.next else c.map t' h' := by
  by_cases hlt : h < mapSize
  · rw [Core.put, if_pos hlt, Core.map_setMap]
    simp [hlt, Core.make]
  · simp [Core.put, hlt, Core.make]

lemma Core.live_put_make (c : Core) (t t' : Table) (h o : ℕ) (ud : Bool) :
    ((c.make t ud).put t h c.next).live t' o =
      if t' = t ∧ o = c.next then true else c.live t' o := by
  rw [← Core.live_make c t t' ud o, Core.put]
  split <;> rfl

lemma Core.next_put_make (c : Core) (t : Table) (h : ℕ) (ud : Bool) :
    ((c.make t ud).put t h c.next).next = c.next + 1 := by
  unfold Core.put
  split <;> rfl

lemma Core.map_drop (c : Core) (t t' : Table) (h h' o : ℕ) (ok : Bool) :
    (c.drop t h o ok).map t' h' = if t' = t ∧ h' = h then none else c.map t' h' := by
  rw [← Core.map_setMap]
  cases ok <;> rfl

lemma Core.live_drop (c : Core) (t t' : Table) (h o o' : ℕ) (ok : Bool) :
    (c.drop t h o ok).live t' o' =
      if ok = true ∧ t' = t ∧ o' = o then false else c.live t' o' := by
  cases ok with
  | false => simp [Core.drop]
  | true => simp [Core.drop, Core.live_kill]

lemma Core.next_drop (c : Core) (t : Table) (h o : ℕ) (ok : Bool) :
    (c.drop t h o ok).next = c.next := by
  cases ok <;> rfl

/-- What holds of the arrays. Only `ah_map` can have an entry for an object that is gone. Kind: D -/
structure Core.Inv (c : Core) : Prop where
  below : ∀ t h o, c.map t h = some o → h < mapSize ∧ o < c.next
  unique : ∀ t h h' o, c.map t h = some o → c.map t h' = some o → h = h'
  live : ∀ t h o, t ≠ .ah → c.map t h = some o → c.live t o = true

/-- Every step keeps it. Kind: L -/
lemma CoreStep.inv {c c' : Core} (hstep : CoreStep c c') (hc : c.Inv) : c'.Inv := by
  cases hstep with
  | same => exact hc
  | make t h ud =>
      refine ⟨?_, ?_, ?_⟩
      · intro t' h' o ho
        rw [Core.next_put_make]
        rw [Core.map_put_make] at ho
        have := hc.below t' h' o
        grind
      · intro t' h' h'' o ho ho'
        rw [Core.map_put_make] at ho ho'
        have := hc.below t'
        have := hc.unique t' h' h'' o
        grind
      · intro t' h' o ht ho
        rw [Core.map_put_make] at ho
        rw [Core.live_put_make]
        have := hc.live t' h' o ht
        grind
  | drop t h o ok hp =>
      refine ⟨?_, ?_, ?_⟩
      · intro t' h' o' ho
        rw [Core.next_drop]
        rw [Core.map_drop] at ho
        have := hc.below t' h' o'
        grind
      · intro t' h' h'' o' ho ho'
        rw [Core.map_drop] at ho ho'
        have := hc.unique t' h' h'' o'
        grind
      · intro t' h' o' ht ho
        rw [Core.map_drop] at ho
        rw [Core.live_drop]
        have := hc.live t' h' o' ht
        have := hc.unique t h h' o hp
        grind
  | killAh h o hp =>
      refine ⟨hc.below, hc.unique, ?_⟩
      intro t' h' o' ht ho
      rw [Core.live_kill]
      have := hc.live t' h' o' ht ho
      grind

/-! ## What holds after every run -/

/-- The arrays are as `Core.Inv` says, the QP under a handle has its bucket under it, and an MR
is under a handle exactly when a piece is. Kind: D -/
structure Inv (s : State) : Prop where
  core : s.core.Inv
  bucket : ∀ h o, s.core.map .qp h = some o → s.tokenbucket h = some o
  shmr : ∀ h, s.core.map .mr h = none ↔ s.shm.shmrMap h = none

lemma inv_start {s : State} (h : Start s) : Inv s where
  core :=
    { below := fun t n o ho => absurd ((h.map t n).symm.trans ho) (by simp)
      unique := fun t n _ o ho => absurd ((h.map t n).symm.trans ho) (by simp)
      live := fun t n o _ ho => absurd ((h.map t n).symm.trans ho) (by simp) }
  bucket n o ho := absurd ((h.map .qp n).symm.trans ho) (by simp)
  shmr n := by simp [h.map, h.shm.shmrMap]

/-- Opening a piece leaves `shmr_map` alone. Kind: L -/
lemma shmrMap_openPiece (s : ShmNames.State) (name : String) (size : ℤ) (mapped : Bool) :
    (s.openPiece name size mapped).1.shmrMap = s.shmrMap := by
  unfold ShmNames.State.openPiece ShmNames.State.shmOpen
  split <;> rfl

/-- So does the piece of an MR. Kind: L -/
lemma shmrMap_addShmPiece (s : ShmNames.State) (req : ShmNames.RegMr) (mapped : Bool) :
    (s.addShmPiece req mapped).1.shmrMap = s.shmrMap := by
  unfold ShmNames.State.addShmPiece ShmNames.State.addPoolPiece ShmNames.State.addNamedPiece
  split
  · rw [shmrMap_openPiece]
  · split
    · rfl
    · simp only [shmrMap_openPiece]

/-- Every step keeps the bucket of a QP. Kind: L -/
lemma bucket_of_step {s s' : State} {a : Act} (h : step s a = some s')
    (hs : ∀ n o, s.core.map .qp n = some o → s.tokenbucket n = some o) :
    ∀ n o, s'.core.map .qp n = some o → s'.tokenbucket n = some o := by
  obtain ⟨rfl, hlegal⟩ := step_effect h
  intro n o ho
  have hs' := hs n o
  cases he : effect s a with
  | nothing | setVar | addPiece | announce =>
      rw [he] at ho
      exact hs' ho
  | create t m =>
      rw [he] at ho hlegal
      rw [Effect.apply, Core.map_put_make, if_neg fun h => hlegal.1 h.1.symm] at ho
      exact hs' ho
  | openQueue k m ud mapped =>
      rw [he] at ho hlegal
      have hm : m < mapSize := hlegal.1
      rw [Effect.apply, Core.map_put_make] at ho
      cases k with
      | qp => by_cases hn : n = m <;> simp_all [Effect.apply, table]
      | cq | srq => simp_all [Effect.apply, table]
  | register req mapped keys =>
      rw [he] at ho
      rw [Effect.apply, Core.map_put_make, if_neg (by simp)] at ho
      exact hs' ho
  | remove t m o' ok | closeQueue k m o' ok | deregister m o' ok =>
      rw [he] at ho
      rw [Effect.apply, Core.map_drop] at ho
      split at ho
      · exact absurd ho (by simp)
      · exact hs' ho
  | destroyAh o' ok =>
      rw [he] at ho
      cases ok <;> exact hs' ho

/-- Every step keeps the piece of an MR. Kind: L -/
lemma shmr_of_step {s s' : State} {a : Act} (h : step s a = some s')
    (hs : ∀ n, s.core.map .mr n = none ↔ s.shm.shmrMap n = none) :
    ∀ n, s'.core.map .mr n = none ↔ s'.shm.shmrMap n = none := by
  obtain ⟨rfl, hlegal⟩ := step_effect h
  intro n
  cases he : effect s a with
  | nothing | setVar | announce => exact hs n
  | addPiece req mapped => simpa only [Effect.apply, shmrMap_addShmPiece] using hs n
  | create t m =>
      rw [he] at hlegal
      rw [Effect.apply, Core.map_put_make, if_neg fun h => hlegal.2.2.2 h.1.symm]
      exact hs n
  | openQueue k m ud mapped =>
      rw [Effect.apply, Core.map_put_make, if_neg fun h => by cases k <;> exact nomatch h.1]
      simpa only [shmrMap_openPiece] using hs n
  | register req mapped keys =>
      rw [he] at hlegal
      obtain ⟨sp, hsp⟩ := Option.ne_none_iff_exists'.mp hlegal
      rw [Effect.apply, Core.map_put_make]
      simp only [ShmNames.State.regMr, hsp, shmrMap_addShmPiece]
      by_cases hlt : keys.handle < mapSize
      · by_cases hn : n = keys.handle
        · simp [hlt, hn]
        · simpa [hlt, hn] using hs n
      · simpa [hlt] using hs n
  | remove t m o ok =>
      rw [he] at hlegal
      rw [Effect.apply, Core.map_drop, if_neg fun h => hlegal.1.1.2.2.2 h.1.symm]
      exact hs n
  | closeQueue k m o ok =>
      rw [Effect.apply, Core.map_drop, if_neg fun h => by cases k <;> exact nomatch h.1]
      cases hc : s.ctrl k m <;> simpa [ShmNames.State.shmUnlink, hc] using hs n
  | deregister m o ok =>
      rw [he] at hlegal
      obtain ⟨sp, hsp⟩ := Option.ne_none_iff_exists'.mp hlegal.2.2.2
      rw [Effect.apply, Core.map_drop]
      by_cases hn : n = m
      · simp [hn, ShmNames.State.deregMr, hsp, ShmNames.State.shmUnlink]
      · simpa [hn, ShmNames.State.deregMr, hsp, ShmNames.State.shmUnlink] using hs n
  | destroyAh o ok => cases ok <;> exact hs n

/-- Every step keeps the invariant. Kind: L -/
lemma Inv.step {s s' : State} {a : Act} (hi : Inv s) (h : step s a = some s') : Inv s' where
  core := (coreStep_of_step h).inv hi.core
  bucket := bucket_of_step h hi.bucket
  shmr := shmr_of_step h hi.shmr

/-- **The invariant holds after every run.** Kind: P -/
theorem inv_of_run {s₀ s : State} {as : List Act} (h₀ : Start s₀)
    (hrun : exec step s₀ as = some s) : Inv s :=
  exec_invariant (fun _ _ _ hi hs => hi.step hs) (inv_start h₀) hrun

/-! ## A run -/

/-- A PD, an address handle in it, and the end of the address handle. Kind: D -/
def endedAhRun : List Act := [.allocPd (some 0), .createAh 0 (some 5), .destroyAh 5 0]

/-- The state after it. Kind: D -/
def endedAh : State :=
  (Effect.destroyAh 1 true).apply ((Effect.create .ah 5).apply
    ((Effect.create .pd 0).apply State.empty))

lemma exec_endedAhRun : exec step State.empty endedAhRun = some endedAh := rfl

end FreeFlow.Router.Objects
