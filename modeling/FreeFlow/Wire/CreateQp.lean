import FreeFlow.Router.ObjectEffects

/-!
# The SRQ of a new QP

An application that creates a QP names an SRQ or none. Both client functions send the SRQ's handle
in a 32-bit field of the request, and 0 when there is none. The router looks the field up in
`srq_map` and passes what it finds there to `ibv_create_qp`. But 0 is a handle like any other: when
the HCA has given it to some SRQ, of whichever client, every QP that is to have none gets that
one.

* `ibvCmdCreateQp`, `ibvExpCmdCreateQp` — the two client functions, as requests.
* `passedSrq` — what the router's lookup gives; `initAttr_srq` ties it to the attributes.
* `SrqKept` — the QP gets the SRQ that the application named, or none.
* `srqKept_iff` — for every content of the tables, both functions and every call.
* `map_srq_iff_since` — after every run, an SRQ is under a handle exactly when one was created with
  it and it has not been destroyed since; so which QPs go wrong depends on all clients.
* `srqKept_fails_zero` — an SRQ with handle 0.

Source: `cmd.c` `ibv_cmd_create_qp`; `cmd_exp.c` `ibv_exp_cmd_create_qp`; `ffrouter.cpp`
`HandleRequest` (`IBV_CREATE_QP`).
-/

namespace FreeFlow.Wire.CreateQp

open FreeFlow.Found FreeFlow.Verbs FreeFlow.Router FreeFlow.Router.Objects

/-! ## The client -/

/-- `struct ibv_qp_init_attr` as the application fills it in, with the handles of its objects.
Source: `verbs.h`
Kind: D -/
structure InitAttr where
  qpType : QpType
  sqSigAll : UInt32
  sendCq : UInt32
  recvCq : UInt32
  srq : Option UInt32
  cap : QpCap
  deriving DecidableEq, Repr

/-- `struct ibv_exp_qp_init_attr`, which has the PD as well. Source: `verbs_exp.h`. Kind: D -/
structure ExpInitAttr extends InitAttr where
  pd : UInt32
  deriving DecidableEq, Repr

/-- The request that both functions send. Kind: D -/
def request (pd : UInt32) (attr : InitAttr) : CreateQpReq where
  pdHandle := pd
  qpType := attr.qpType
  sqSigAll := attr.sqSigAll
  sendCqHandle := attr.sendCq
  recvCqHandle := attr.recvCq
  -- `attr->srq ? attr->srq->handle : 0`
  srqHandle := attr.srq.getD 0
  cap := attr.cap

/-- `ibv_cmd_create_qp`. Source: `cmd.c`. Kind: D -/
def ibvCmdCreateQp (pd : UInt32) (attr : InitAttr) : CreateQpReq := request pd attr

/-- `ibv_exp_cmd_create_qp`. Source: `cmd_exp.c`. Kind: D -/
def ibvExpCmdCreateQp (attr : ExpInitAttr) : CreateQpReq := request attr.pd attr.toInitAttr

/-! ## The router -/

/-- `ffr->srq_map[req->srq_handle]`. Source: `ffrouter.cpp` `HandleRequest`. Kind: D -/
def passedSrq (s : State) (req : CreateQpReq) : Except Stop (Option ℕ) :=
  (lookup .srq req.srqHandle.toNat s).1

/-- A lookup and what follows it. Kind: L -/
lemma lookup_bind_apply {α : Type} (t : Table) (h : ℕ) (k : Option ℕ → Step α) (s : State) :
    (lookup t h >>= k) s =
      if h < mapSize then k (s.core.map t h) s else (.error (.fault .bounds), s) := by
  unfold lookup index
  split <;> rfl

/-- The QP gets the object under the handle of the application's SRQ, and none if it named none.
Kind: D -/
def SrqKept (s : State) (srq : Option UInt32) (req : CreateQpReq) : Prop :=
  passedSrq s req = .ok (srq.bind fun h => s.core.map .srq h.toNat)

/-- The lookup, inside the table and beyond it. Kind: L -/
lemma passedSrq_eq (s : State) (req : CreateQpReq) :
    passedSrq s req =
      if req.srqHandle.toNat < mapSize then .ok (s.core.map .srq req.srqHandle.toNat)
      else .error (.fault .bounds) := by
  unfold passedSrq lookup index
  split <;> rfl

/-- What `ibv_create_qp` gets is the result of the lookup. Kind: P -/
theorem initAttr_srq {s s' : State} {req : CreateQpReq} {attr : QpInitAttr}
    (h : initAttr req s = (.ok attr, s')) : passedSrq s req = .ok attr.srq := by
  unfold initAttr at h
  rw [lookup_bind_apply] at h
  split at h
  next hlt =>
    rw [lookup_bind_apply] at h
    split at h
    next =>
      rw [lookup_bind_apply] at h
      split at h
      next =>
        cases h
        rw [passedSrq_eq, if_pos hlt]
      next => cases h
    next => cases h
  next => cases h

/-- One request. Kind: L -/
lemma srqKept_request_iff (s : State) (pd : UInt32) (attr : InitAttr) :
    SrqKept s attr.srq (request pd attr) ↔
      (attr.srq = none → s.core.map .srq 0 = none) ∧
        ∀ h, attr.srq = some h → h.toNat < mapSize := by
  unfold SrqKept
  rw [passedSrq_eq]
  cases hsrq : attr.srq with
  | none =>
      have hzero : (request pd attr).srqHandle.toNat = 0 := by simp [request, hsrq]
      have hlt : 0 < mapSize := by decide
      simp [hzero, hlt]
  | some h =>
      have hh : (request pd attr).srqHandle = h := by simp [request, hsrq]
      by_cases hlt : h.toNat < mapSize <;> simp [hh, hlt]

/-- **The SRQ of a new QP.** For every content of the tables and every call of either function: the
SRQ is the application's exactly when the table has nothing under 0 if it named none, and its handle
is inside the table if it named one. Kind: P -/
theorem srqKept_iff (s : State) (pd : UInt32) (attr : InitAttr) :
    (SrqKept s attr.srq (ibvCmdCreateQp pd attr) ↔
      (attr.srq = none → s.core.map .srq 0 = none) ∧
        ∀ h, attr.srq = some h → h.toNat < mapSize) ∧
    (SrqKept s attr.srq (ibvExpCmdCreateQp { attr with pd := pd }) ↔
      (attr.srq = none → s.core.map .srq 0 = none) ∧
        ∀ h, attr.srq = some h → h.toNat < mapSize) :=
  ⟨srqKept_request_iff s pd attr, srqKept_request_iff s pd attr⟩

/-! ## Who decides what is under 0 -/

/-- An SRQ gets the handle. Kind: D -/
def SrqMade (h : ℕ) (s : State) (a : Act) : Prop :=
  ∃ ud mapped, effect s a = .openQueue .srq h ud mapped

/-- The SRQ under the handle is destroyed, successfully or not. Kind: D -/
def SrqDropped (h : ℕ) (s : State) (a : Act) : Prop :=
  ∃ o ok, effect s a = .closeQueue .srq h o ok

/-- One step. Kind: L -/
lemma map_srq_iff_of_step {s s' : State} {a : Act} (h : step s a = some s') (n : ℕ) :
    s'.core.map .srq n ≠ none ↔
      SrqMade n s a ∨ (s.core.map .srq n ≠ none ∧ ¬ SrqDropped n s a) := by
  obtain ⟨rfl, hlegal⟩ := step_effect h
  cases he : effect s a with
  | nothing | setVar | addPiece | announce => simp [Effect.apply, SrqMade, SrqDropped, he]
  | create t m =>
      rw [he] at hlegal
      rw [Effect.apply, Core.map_put_make, if_neg fun h => hlegal.2.2.1 h.1.symm]
      simp [SrqMade, SrqDropped, he]
  | openQueue k m ud mapped =>
      rw [he] at hlegal
      have hm : m < mapSize := hlegal.1
      rw [Effect.apply, Core.map_put_make]
      cases k <;> simp [SrqMade, SrqDropped, he, table]
      by_cases hn : n = m
      · simp [hn, hm]
      · simp [hn, Ne.symm hn]
  | register req mapped keys =>
      rw [Effect.apply, Core.map_put_make, if_neg (by simp)]
      simp [SrqMade, SrqDropped, he]
  | remove t m o ok =>
      rw [he] at hlegal
      rw [Effect.apply, Core.map_drop, if_neg fun h => hlegal.1.1.2.2.1 h.1.symm]
      simp [SrqMade, SrqDropped, he]
  | closeQueue k m o ok =>
      rw [Effect.apply, Core.map_drop]
      cases k <;> simp [SrqMade, SrqDropped, he, table]
      by_cases hn : n = m
      · simp [hn]
      · simp [hn, Ne.symm hn]
  | deregister m o ok =>
      rw [Effect.apply, Core.map_drop, if_neg (by simp)]
      simp [SrqMade, SrqDropped, he]
  | destroyAh o ok => cases ok <;> simp [Effect.apply, SrqMade, SrqDropped, he, Core.kill]

/-- **What is under a handle.** After every run, `srq_map` has an SRQ under it exactly when some
client's SRQ got it and none was destroyed under it since. Kind: P -/
theorem map_srq_iff_since {s₀ s : State} {as : List Act} (h₀ : Start s₀)
    (hrun : exec step s₀ as = some s) (n : ℕ) :
    s.core.map .srq n ≠ none ↔ Since step (SrqMade n) (SrqDropped n) s₀ as := by
  have hinv : ∀ s a s', True → step s a = some s' → True := fun _ _ _ _ _ => trivial
  exact iff_since_of_step (F := fun s => s.core.map .srq n ≠ none) hinv
    (fun _ _ _ _ hs => map_srq_iff_of_step hs n) trivial (by simp [h₀.map]) hrun

/-- **QPs without an SRQ.** After every run, they have none exactly when no client has an SRQ with
the handle 0. Kind: P -/
theorem srqKept_none_iff_since {s₀ s : State} {as : List Act} (h₀ : Start s₀)
    (hrun : exec step s₀ as = some s) (pd : UInt32) {attr : InitAttr} (hsrq : attr.srq = none) :
    SrqKept s none (request pd attr) ↔ ¬ Since step (SrqMade 0) (SrqDropped 0) s₀ as := by
  rw [← map_srq_iff_since h₀ hrun, not_not]
  have hkept := srqKept_request_iff s pd attr
  rw [hsrq] at hkept
  simpa using hkept

/-! ## An SRQ with the handle 0 -/

/-- One client makes a PD and an SRQ. Kind: D -/
def srqZeroRun : List Act := [.allocPd (some 0), .createSrq 0 (some 0) true]

/-- The state after it. Kind: D -/
def srqZero : State :=
  (Effect.openQueue .srq 0 false true).apply ((Effect.create .pd 0).apply State.empty)

/-- The attributes of another client's QP. Kind: D -/
def plainAttr : InitAttr :=
  { qpType := .rc, sqSigAll := 0, sendCq := 0, recvCq := 0, srq := none, cap := ⟨1, 1, 1, 1, 0⟩ }

/-- The QP gets the SRQ. Kind: C -/
theorem srqKept_fails_zero :
    Start State.empty ∧ exec step State.empty srqZeroRun = some srqZero ∧
      passedSrq srqZero (ibvCmdCreateQp 0 plainAttr) = .ok (some 1) ∧
      ¬ SrqKept srqZero plainAttr.srq (ibvCmdCreateQp 0 plainAttr) ∧
      ¬ SrqKept srqZero plainAttr.srq (ibvExpCmdCreateQp { plainAttr with pd := 0 }) := by
  have hnot : ¬ SrqKept srqZero plainAttr.srq (request 0 plainAttr) := by
    intro hkept
    have hsome : passedSrq srqZero (request 0 plainAttr) = .ok (some 1) := rfl
    rw [SrqKept, hsome] at hkept
    cases hkept
  exact ⟨start_empty, rfl, rfl, hnot, hnot⟩

end FreeFlow.Wire.CreateQp
