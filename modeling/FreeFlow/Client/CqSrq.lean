import FreeFlow.Client.RecvRing
import FreeFlow.Found.Run

/-!
# Which ring a poll takes its records from

The client keeps one receive ring for every CQ and one for every SRQ. A post notes its receives in
the ring of the QP's receive CQ or of the SRQ; `ibv_cmd_poll_cq` takes the records of receive
completions from the ring that `map_cq_to_srq` names for the CQ. That table has one entry for each
CQ handle. It is written when a QP is created, by `ibv_exp_cmd_create_qp` only for a QP with an SRQ,
and nothing is reset when QPs, CQs or SRQs are destroyed.

The machine creates and destroys CQs, SRQs and QPs, posts and completes receives and polls. The HCA
chooses the handles; it may use one again once its object is destroyed. A QP is attached by the
router: to the SRQ under the handle in the request, which is 0 for a QP without SRQ.

* `pollRight_iff` — **CQ-to-SRQ selection**: along every run, the polls take all records from the
  rings they were noted in exactly when, at each of them, the last write to the CQ's entry was the
  SRQ that the completing QP is attached to.
* `pollRight_of_uniform` — that is so when all QPs of a CQ are created with one SRQ, or all with
  none, and the router attaches each to the SRQ it was created with.
* `mapCqToSrq_of_creations` — the machine of one CQ starts from the entry that its QPs leave.

Source: `cmd.c` `ibv_cmd_create_qp`, `ibv_cmd_poll_cq`, `ibv_cmd_create_cq`, `ibv_cmd_create_srq`,
`ibv_cmd_destroy_cq`, `ibv_cmd_destroy_srq`, `ibv_cmd_post_recv`, `ibv_cmd_post_srq_recv`;
`cmd_exp.c` `ibv_exp_cmd_create_qp`; `ffrouter.cpp` `HandleRequest` (`IBV_CREATE_QP`,
`IBV_DESTROY_CQ`, `IBV_DESTROY_SRQ`).
-/

namespace FreeFlow.Client.CqSrq

open FreeFlow.Found FreeFlow.Verbs

/-! ## Objects and their rings -/

/-- What a ring belongs to: the CQ or the SRQ under a handle. Kind: D -/
inductive Owner
  | cq (h : ℕ)
  | srq (v : ℕ)
  deriving DecidableEq, Repr

/-- The owner of the ring for a CQ and an SRQ, if there is one. Kind: D -/
def ownerOf (c : ℕ) : Option ℕ → Owner
  | none => .cq c
  | some v => .srq v

/-- On one CQ, different SRQs mean different rings. Kind: L -/
lemma ownerOf_inj {c : ℕ} {x y : Option ℕ} : ownerOf c x = ownerOf c y ↔ x = y := by
  cases x <;> cases y <;> simp [ownerOf]

/-- A queue pair of the HCA: its handle, its receive CQ and the SRQ it is attached to. Kind: D -/
structure Qp where
  handle : ℕ
  recvCq : ℕ
  srq : Option ℕ
  deriving DecidableEq, Repr

/-- The owner of the ring that holds the records of the QP's receives. Kind: D -/
def Qp.owner (q : Qp) : Owner := ownerOf q.recvCq q.srq

/-- The HCA refuses to destroy what a QP uses. Kind: D -/
def Qp.uses (q : Qp) (o : Owner) : Bool := o = .cq q.recvCq ∨ o = q.owner

/-- Where a receive waits: in a QP's own receive queue or in an SRQ. Kind: D -/
inductive Queue
  | own (q : Qp)
  | srq (v : ℕ)
  deriving DecidableEq, Repr

/-- The owner of the ring in which the posts of a queue are noted. Kind: D -/
def Queue.owner : Queue → Owner
  | .own q => .cq q.recvCq
  | .srq v => .srq v

/-- The queue a QP takes its receives from. Kind: D -/
def Qp.queue (q : Qp) : Queue :=
  match q.srq with
  | none => .own q
  | some v => .srq v

/-- The receives a QP takes are noted in the ring of its owner. Kind: L -/
@[simp] lemma owner_queue (q : Qp) : q.queue.owner = q.owner := by
  unfold Qp.queue Qp.owner
  cases q.srq <;> rfl

/-- A receive that waits, and the ring its record was noted in. Kind: D -/
structure Recv where
  queue : Queue
  ring : ℕ
  deriving DecidableEq, Repr

/-- A receive completion of a QP, and the ring its record was noted in. Kind: D -/
structure Cqe where
  qp : Qp
  ring : ℕ
  deriving DecidableEq, Repr

/-! ## The machine -/

/-- The client's tables, the router's and the HCA's objects. `mapCqToSrq` has `none` for
`MAP_SIZE + 1`; `wrQueue` is `map_cq_to_wr_queue` and `map_srq_to_wr_queue`, with a number for every
ring allocated; `table` says which entries of `cq_map` and `srq_map` are not null; `writes` is the
history of writes to `map_cq_to_srq`, the last one first.
Source: `freeflow.c`, `ffrouter.h`
Kind: D -/
structure State where
  mapCqToSrq : ℕ → Option ℕ
  wrQueue : Owner → Option ℕ
  rings : ℕ
  live : Owner → Bool
  table : Owner → Bool
  qps : List Qp
  outstanding : List Recv
  cqes : ℕ → List Cqe
  writes : List (ℕ × Option ℕ)

/-- Before the first call. Source: `freeflow.c` `init_sock`. Kind: D -/
def initial : State :=
  ⟨fun _ => none, fun _ => none, 0, fun _ => false, fun _ => false, [], [], fun _ => [], []⟩

/-- The moves. Handles of new objects are the HCA's choice. An `ibv_cmd_create_qp` carries what the
provider's `struct ibv_qp` holds as `recv_cq` and `srq`; a completion carries which of the waiting
receives the HCA takes. Kind: D -/
inductive Act
  | createCq (h : ℕ)
  | destroyCq (h : ℕ)
  | createSrq (v : ℕ)
  | destroySrq (v : ℕ)
  | createQp (h recvCq : ℕ) (srq : Option ℕ) (heldCq : ℕ) (heldSrq : Option ℕ)
  | expCreateQp (h recvCq : ℕ) (srq : Option ℕ)
  | destroyQp (q : Qp)
  | postRecv (q : Qp)
  | postSrqRecv (v : ℕ)
  | complete (q : Qp) (i : ℕ)
  | poll (c n : ℕ)

namespace State

variable (s : State)

/-- A new CQ or SRQ gets a new ring.
Source: `cmd.c` `ibv_cmd_create_cq`, `ibv_cmd_create_srq`
Kind: D -/
def create (o : Owner) : State :=
  { s with
    wrQueue := Function.update s.wrQueue o (some s.rings)
    rings := s.rings + 1
    live := Function.update s.live o true
    table := Function.update s.table o true }

/-- The router clears its entry first; the HCA then refuses while a QP uses the object. The client
changes nothing.
Source: `ffrouter.cpp` `HandleRequest` (`IBV_DESTROY_CQ`, `IBV_DESTROY_SRQ`)
Kind: D -/
def destroy (o : Owner) : State :=
  if s.qps.any fun q => q.uses o then { s with table := Function.update s.table o false }
  else
    { s with
      table := Function.update s.table o false
      live := Function.update s.live o false
      outstanding := s.outstanding.filter fun r => r.queue.owner ≠ o }

/-- A QP can be created: the handle is free, the router knows the CQ and the SRQ exists. Kind: D -/
def Creatable (h recvCq : ℕ) (srq : Option ℕ) : Prop :=
  h < mapSize ∧ (∀ q ∈ s.qps, q.handle ≠ h) ∧ s.table (.cq recvCq) ∧
    srq.all fun v => s.live (.srq v)

instance (h recvCq : ℕ) (srq : Option ℕ) : Decidable (s.Creatable h recvCq srq) := by
  unfold Creatable
  infer_instance

/-- `init_attr.srq = ffr->srq_map[srq_handle]`; the client sends 0 for a QP without SRQ.
Source: `cmd.c` `ibv_cmd_create_qp`; `ffrouter.cpp` `HandleRequest` (`IBV_CREATE_QP`)
Kind: D -/
def attach (srq : Option ℕ) : Option ℕ :=
  if s.table (.srq (srq.getD 0)) then some (srq.getD 0) else none

/-- The QP that the router creates. Kind: D -/
def newQp (h recvCq : ℕ) (srq : Option ℕ) : State :=
  { s with qps := ⟨h, recvCq, s.attach srq⟩ :: s.qps }

/-- `map_cq_to_srq[c] = srq`. Kind: D -/
def write (c : ℕ) (srq : Option ℕ) : State :=
  { s with mapCqToSrq := Function.update s.mapCqToSrq c srq, writes := (c, srq) :: s.writes }

/-- The ring a poll of `c` takes its records from.
Source: `cmd.c` `ibv_cmd_poll_cq`
Kind: D -/
def selected (c : ℕ) : Owner := ownerOf c (s.mapCqToSrq c)

end State

/-- **A move.** It cannot be taken when the HCA gives out a handle that is in use, when a call waits
for an answer that the router never gives, or when the object is not there.
Source: `cmd.c`, `cmd_exp.c`, `ffrouter.cpp` (as above)
Kind: D -/
def step (s : State) : Act → Option State
  | .createCq h => do
      guard (h < mapSize ∧ s.live (.cq h) = false)
      some (s.create (.cq h))
  | .destroyCq h => do
      guard (s.table (.cq h))
      some (s.destroy (.cq h))
  | .createSrq v => do
      guard (v < mapSize ∧ s.live (.srq v) = false)
      some (s.create (.srq v))
  | .destroySrq v => do
      guard (s.table (.srq v))
      some (s.destroy (.srq v))
  | .createQp h recvCq srq heldCq heldSrq => do
      guard (s.Creatable h recvCq srq)
      some ((s.newQp h recvCq srq).write heldCq heldSrq)
  | .expCreateQp h recvCq srq => do
      guard (s.Creatable h recvCq srq)
      -- the branch that writes `MAP_SIZE + 1` is commented out
      match srq with
      | some v => some ((s.newQp h recvCq srq).write recvCq (some v))
      | none => some (s.newQp h recvCq srq)
  | .destroyQp q => do
      guard (q ∈ s.qps)
      some { s with
        qps := s.qps.filter (· ≠ q)
        outstanding := s.outstanding.filter fun r => r.queue ≠ .own q
        cqes := fun c => (s.cqes c).filter fun x => x.qp ≠ q }
  | .postRecv q => do
      guard (q ∈ s.qps)
      let ring ← s.wrQueue (.cq q.recvCq)
      -- the HCA refuses receives on a QP with an SRQ
      if q.srq = none then some { s with outstanding := s.outstanding ++ [⟨.own q, ring⟩] }
      else some s
  | .postSrqRecv v => do
      guard (s.table (.srq v))
      let ring ← s.wrQueue (.srq v)
      some { s with outstanding := s.outstanding ++ [⟨.srq v, ring⟩] }
  | .complete q i => do
      guard (q ∈ s.qps)
      let r ← s.outstanding[i]?
      guard (r.queue = q.queue)
      some { s with
        outstanding := s.outstanding.eraseIdx i
        cqes := Function.update s.cqes q.recvCq (s.cqes q.recvCq ++ [⟨q, r.ring⟩]) }
  | .poll c n => do
      guard (s.table (.cq c))
      some { s with cqes := Function.update s.cqes c ((s.cqes c).drop n) }

/-- The last write to the entry of `c`, `none` for `MAP_SIZE + 1` or when there was none.
Kind: D -/
def lastWrite : List (ℕ × Option ℕ) → ℕ → Option ℕ
  | [], _ => none
  | (c', srq) :: writes, c => if c' = c then srq else lastWrite writes c

/-- The poll takes every record from the ring it was noted in. Kind: D -/
def PollRight (s : State) : Act → Prop
  | .poll c n => ∀ x ∈ (s.cqes c).take n, s.wrQueue (s.selected c) = some x.ring
  | _ => True

/-- At a poll, the last write to the entry of the CQ was the SRQ of the completing QP. Kind: D -/
def EntryRight (s : State) : Act → Prop
  | .poll c n => ∀ x ∈ (s.cqes c).take n, lastWrite s.writes c = x.qp.srq
  | _ => True

/-! ## What every run keeps -/

/-- Every ring has one owner, QPs use live objects, and the records of receives that wait or have
completed are in the rings of their owners. Kind: D -/
structure Inv (s : State) : Prop where
  entries : ∀ c, s.mapCqToSrq c = lastWrite s.writes c
  bound : ∀ o r, s.wrQueue o = some r → r < s.rings
  inj : ∀ o o' r, s.wrQueue o = some r → s.wrQueue o' = some r → o = o'
  tables : ∀ o, s.table o → s.live o
  qps : ∀ q ∈ s.qps, s.live (.cq q.recvCq) ∧ s.live q.owner
  waiting : ∀ r ∈ s.outstanding, s.live r.queue.owner ∧ s.wrQueue r.queue.owner = some r.ring ∧
    ∀ q, r.queue = .own q → q ∈ s.qps
  done : ∀ c, ∀ x ∈ s.cqes c, x.qp ∈ s.qps ∧ x.qp.recvCq = c ∧
    s.wrQueue x.qp.owner = some x.ring

/-- At the start there is nothing. Kind: L -/
lemma inv_initial : Inv initial where
  entries _ := rfl
  bound _ _ h := absurd h (by simp [initial])
  inj _ _ _ h := absurd h (by simp [initial])
  tables _ h := absurd h (by simp [initial])
  qps _ h := absurd h List.not_mem_nil
  waiting _ h := absurd h List.not_mem_nil
  done _ _ h := absurd h List.not_mem_nil

section Step

variable {s s' : State}

/-- The rings after a creation are the new one and the old ones. Kind: L -/
lemma wrQueue_create {o o' : Owner} {r : ℕ} (h : (s.create o).wrQueue o' = some r) :
    (o' = o ∧ r = s.rings) ∨ (o' ≠ o ∧ s.wrQueue o' = some r) := by
  by_cases ho : o' = o
  · subst ho
    simp only [State.create, Function.update_self, Option.some.injEq] at h
    exact .inl ⟨rfl, h.symm⟩
  · simp only [State.create, Function.update_of_ne ho] at h
    exact .inr ⟨ho, h⟩

/-- **A new CQ or SRQ.** Nothing that is live changes its ring. Kind: L -/
lemma Inv.create {o : Owner} (h : Inv s) (hdead : s.live o = false) : Inv (s.create o) := by
  have hother : ∀ o', s.live o' → o' ≠ o := by
    rintro o' hlive rfl
    rw [hdead] at hlive
    exact absurd hlive (by simp)
  have hlive : ∀ o', s.live o' → (s.create o).live o' := fun o' ho' => by
    simp only [State.create, Function.update_of_ne (hother o' ho')]
    exact ho'
  have hring : ∀ o', s.live o' → (s.create o).wrQueue o' = s.wrQueue o' := fun o' ho' =>
    Function.update_of_ne (hother o' ho') _ _
  refine ⟨h.entries, ?_, ?_, ?_, ?_, ?_, ?_⟩
  · intro o' r hr
    rcases wrQueue_create hr with ⟨-, rfl⟩ | ⟨-, hold⟩
    · exact Nat.lt_succ_self _
    · exact (h.bound o' r hold).trans (Nat.lt_succ_self _)
  · -- the new number is above all others
    intro o₁ o₂ r hr₁ hr₂
    rcases wrQueue_create hr₁ with ⟨rfl, rfl⟩ | ⟨-, hold₁⟩
    · rcases wrQueue_create hr₂ with ⟨rfl, -⟩ | ⟨-, hold₂⟩
      · rfl
      · exact absurd (h.bound o₂ _ hold₂) (Nat.lt_irrefl _)
    · rcases wrQueue_create hr₂ with ⟨rfl, rfl⟩ | ⟨-, hold₂⟩
      · exact absurd (h.bound o₁ _ hold₁) (Nat.lt_irrefl _)
      · exact h.inj o₁ o₂ r hold₁ hold₂
  · intro o' ho'
    by_cases ho : o' = o
    · subst ho
      exact Function.update_self _ _ _
    · simp only [State.create, Function.update_of_ne ho] at ho'
      exact hlive o' (h.tables o' ho')
  · exact fun q hq => ⟨hlive _ (h.qps q hq).1, hlive _ (h.qps q hq).2⟩
  · intro r hr
    obtain ⟨hl, hnoted, hown⟩ := h.waiting r hr
    exact ⟨hlive _ hl, (hring _ hl).trans hnoted, hown⟩
  · intro c x hx
    obtain ⟨hq, hc, hnoted⟩ := h.done c x hx
    exact ⟨hq, hc, (hring _ (h.qps _ hq).2).trans hnoted⟩

/-- **A destroyed CQ or SRQ.** What a QP uses stays. Kind: L -/
lemma Inv.destroy (h : Inv s) (o : Owner) : Inv (s.destroy o) := by
  have htable : ∀ o', Function.update s.table o false o' → o' ≠ o ∧ s.table o' := by
    intro o' ho'
    by_cases ho : o' = o
    · rw [ho, Function.update_self] at ho'
      exact absurd ho' (by simp)
    · rw [Function.update_of_ne ho] at ho'
      exact ⟨ho, ho'⟩
  unfold State.destroy
  split_ifs with hused
  · exact ⟨h.entries, h.bound, h.inj, fun o' ho' => h.tables o' (htable o' ho').2, h.qps,
      h.waiting, h.done⟩
  · have hother : ∀ q ∈ s.qps, Owner.cq q.recvCq ≠ o ∧ q.owner ≠ o := by
      intro q hq
      have hfree : ¬ q.uses o := fun hu => hused (List.any_eq_true.mpr ⟨q, hq, hu⟩)
      unfold Qp.uses at hfree
      rw [decide_eq_true_eq, not_or] at hfree
      exact ⟨fun heq => hfree.1 heq.symm, fun heq => hfree.2 heq.symm⟩
    refine ⟨h.entries, h.bound, h.inj, ?_, ?_, ?_, h.done⟩
    · intro o' ho'
      obtain ⟨hne, ht⟩ := htable o' ho'
      simp only [Function.update_of_ne hne]
      exact h.tables o' ht
    · intro q hq
      simp only [Function.update_of_ne (hother q hq).1, Function.update_of_ne (hother q hq).2]
      exact h.qps q hq
    · intro r hr
      obtain ⟨hmem, hne⟩ := List.mem_filter.mp hr
      simp only [Function.update_of_ne (of_decide_eq_true hne)]
      exact h.waiting r hmem

/-- The owner of a QP that the router creates is live. Kind: L -/
lemma Inv.live_attach (h : Inv s) {recvCq : ℕ} (hcq : s.table (.cq recvCq)) (srq : Option ℕ) :
    s.live (ownerOf recvCq (s.attach srq)) := by
  unfold State.attach
  split_ifs with hsrq
  · exact h.tables _ hsrq
  · exact h.tables _ hcq

/-- **A new QP.** Kind: L -/
lemma Inv.newQp (h : Inv s) (hd : ℕ) {recvCq : ℕ} (hcq : s.table (.cq recvCq)) (srq : Option ℕ) :
    Inv (s.newQp hd recvCq srq) := by
  refine ⟨h.entries, h.bound, h.inj, h.tables, ?_, ?_, ?_⟩
  · intro q hq
    rcases List.mem_cons.mp hq with rfl | hmem
    · exact ⟨h.tables _ hcq, h.live_attach hcq srq⟩
    · exact h.qps q hmem
  · intro r hr
    obtain ⟨hl, hnoted, hown⟩ := h.waiting r hr
    exact ⟨hl, hnoted, fun q hq => List.mem_cons_of_mem _ (hown q hq)⟩
  · intro c x hx
    obtain ⟨hq, hc, hnoted⟩ := h.done c x hx
    exact ⟨List.mem_cons_of_mem _ hq, hc, hnoted⟩

/-- **A write to the table** is the last one. Kind: L -/
lemma Inv.write (h : Inv s) (c : ℕ) (srq : Option ℕ) : Inv (s.write c srq) := by
  refine ⟨fun c' => ?_, h.bound, h.inj, h.tables, h.qps, h.waiting, h.done⟩
  simp only [State.write, lastWrite]
  by_cases hc : c = c'
  · rw [if_pos hc, hc, Function.update_self]
  · rw [if_neg hc, Function.update_of_ne (Ne.symm hc), h.entries]

/-- **A destroyed QP** leaves no receive and no completion of its own. Kind: L -/
lemma Inv.destroyQp (h : Inv s) (q : Qp) :
    Inv { s with
      qps := s.qps.filter (· ≠ q)
      outstanding := s.outstanding.filter fun r => r.queue ≠ .own q
      cqes := fun c => (s.cqes c).filter fun x => x.qp ≠ q } := by
  refine ⟨h.entries, h.bound, h.inj, h.tables, fun q' hq' => h.qps q' (List.mem_of_mem_filter hq'),
    ?_, ?_⟩
  · intro r hr
    obtain ⟨hmem, hne⟩ := List.mem_filter.mp hr
    obtain ⟨hl, hnoted, hown⟩ := h.waiting r hmem
    refine ⟨hl, hnoted, fun q' hq' => List.mem_filter.mpr ⟨hown q' hq', decide_eq_true ?_⟩⟩
    rintro rfl
    exact of_decide_eq_true hne hq'
  · intro c x hx
    obtain ⟨hmem, hne⟩ := List.mem_filter.mp hx
    obtain ⟨hq, hc, hnoted⟩ := h.done c x hmem
    exact ⟨List.mem_filter.mpr ⟨hq, hne⟩, hc, hnoted⟩

/-- **A post** notes its receive in the ring of the queue's owner. Kind: L -/
lemma Inv.post (h : Inv s) {queue : Queue} {ring : ℕ} (hl : s.live queue.owner)
    (hring : s.wrQueue queue.owner = some ring) (hown : ∀ q, queue = .own q → q ∈ s.qps) :
    Inv { s with outstanding := s.outstanding ++ [⟨queue, ring⟩] } := by
  refine ⟨h.entries, h.bound, h.inj, h.tables, h.qps, ?_, h.done⟩
  intro r hr
  rcases List.mem_append.mp hr with hmem | hlast
  · exact h.waiting r hmem
  · obtain rfl := List.mem_singleton.mp hlast
    exact ⟨hl, hring, hown⟩

/-- **A completion** is for the QP that takes from the queue. Kind: L -/
lemma Inv.complete (h : Inv s) {q : Qp} {i : ℕ} {r : Recv} (hq : q ∈ s.qps)
    (hr : s.outstanding[i]? = some r) (hqueue : r.queue = q.queue) :
    Inv { s with
      outstanding := s.outstanding.eraseIdx i
      cqes := Function.update s.cqes q.recvCq (s.cqes q.recvCq ++ [⟨q, r.ring⟩]) } := by
  obtain ⟨-, hnoted, -⟩ := h.waiting r (List.mem_of_getElem? hr)
  rw [hqueue, owner_queue] at hnoted
  refine ⟨h.entries, h.bound, h.inj, h.tables, h.qps,
    fun r' hr' => h.waiting r' (List.mem_of_mem_eraseIdx hr'), fun c x hx => ?_⟩
  by_cases hc : c = q.recvCq
  · subst hc
    simp only [Function.update_self] at hx
    rcases List.mem_append.mp hx with hmem | hlast
    · exact h.done _ x hmem
    · obtain rfl := List.mem_singleton.mp hlast
      exact ⟨hq, rfl, hnoted⟩
  · simp only [Function.update_of_ne hc] at hx
    exact h.done c x hx

/-- **A poll** takes completions away. Kind: L -/
lemma Inv.poll (h : Inv s) (c n : ℕ) :
    Inv { s with cqes := Function.update s.cqes c ((s.cqes c).drop n) } := by
  refine ⟨h.entries, h.bound, h.inj, h.tables, h.qps, h.waiting, fun c' x hx => ?_⟩
  by_cases hc : c' = c
  · subst hc
    simp only [Function.update_self] at hx
    exact h.done _ x (List.mem_of_mem_drop hx)
  · simp only [Function.update_of_ne hc] at hx
    exact h.done c' x hx

/-- **Every move keeps the invariant.** Kind: L -/
lemma Inv.step {a : Act} (h : Inv s) (hs : step s a = some s') : Inv s' := by
  cases a <;>
    simp only [CqSrq.step, Option.bind_eq_bind, Option.bind_eq_some_iff, Option.some.injEq] at hs
  case createCq c =>
    obtain ⟨_, hguard, rfl⟩ := hs
    exact h.create ((Option.guard_eq_some' _).mp hguard).2
  case destroyCq c =>
    obtain ⟨_, -, rfl⟩ := hs
    exact h.destroy _
  case createSrq v =>
    obtain ⟨_, hguard, rfl⟩ := hs
    exact h.create ((Option.guard_eq_some' _).mp hguard).2
  case destroySrq v =>
    obtain ⟨_, -, rfl⟩ := hs
    exact h.destroy _
  case createQp hd recvCq srq heldCq heldSrq =>
    obtain ⟨_, hguard, rfl⟩ := hs
    obtain ⟨-, -, hcq, -⟩ := (Option.guard_eq_some' _).mp hguard
    exact (h.newQp hd hcq srq).write _ _
  case expCreateQp hd recvCq srq =>
    obtain ⟨_, hguard, hs⟩ := hs
    obtain ⟨-, -, hcq, -⟩ := (Option.guard_eq_some' _).mp hguard
    cases srq with
    | none => exact Option.some.inj hs ▸ h.newQp hd hcq none
    | some v => exact Option.some.inj hs ▸ (h.newQp hd hcq (some v)).write _ _
  case destroyQp q =>
    obtain ⟨_, -, rfl⟩ := hs
    exact h.destroyQp q
  case postRecv q =>
    obtain ⟨_, hguard, ring, hring, hs⟩ := hs
    have hq : q ∈ s.qps := (Option.guard_eq_some' _).mp hguard
    split_ifs at hs
    · obtain rfl := Option.some.inj hs
      have hown : ∀ q', Queue.own q = .own q' → q' ∈ s.qps := by
        rintro q' hq'
        exact Queue.own.inj hq' ▸ hq
      exact h.post (h.qps q hq).1 hring hown
    · exact Option.some.inj hs ▸ h
  case postSrqRecv v =>
    obtain ⟨_, hguard, ring, hring, rfl⟩ := hs
    have hown : ∀ q, Queue.srq v = .own q → q ∈ s.qps := fun q hq => absurd hq (by simp)
    exact h.post (h.tables _ ((Option.guard_eq_some' _).mp hguard)) hring hown
  case complete q i =>
    obtain ⟨_, hguard, r, hr, _, hqueue, rfl⟩ := hs
    exact h.complete ((Option.guard_eq_some' _).mp hguard) hr ((Option.guard_eq_some' _).mp hqueue)
  case poll c n =>
    obtain ⟨_, -, rfl⟩ := hs
    exact h.poll c n

/-- **One completion**: the poll takes its record from the right ring exactly when the entry is the
SRQ of its QP. Kind: L -/
lemma Inv.ring_iff (h : Inv s) {c : ℕ} {x : Cqe} (hx : x ∈ s.cqes c) :
    s.wrQueue (s.selected c) = some x.ring ↔ lastWrite s.writes c = x.qp.srq := by
  obtain ⟨-, rfl, hnoted⟩ := h.done c x hx
  rw [← h.entries]
  constructor
  · intro htaken
    exact ownerOf_inj.mp (h.inj _ _ _ htaken hnoted)
  · intro hentry
    rw [State.selected, hentry]
    exact hnoted

end Step

/-- **CQ-to-SRQ selection**: along every run of creations (with or without SRQ, by either call, any
QPs on one CQ), destructions (successful or refused), posts, completions and polls, with the HCA
free to use the handles of destroyed objects again, every poll takes all its records from the rings
they were noted in exactly when, at every poll, the last write to the CQ's entry is the SRQ that the
router attached the completing QP to.
Source: `cmd.c` `ibv_cmd_create_qp`, `ibv_cmd_poll_cq`; `cmd_exp.c` `ibv_exp_cmd_create_qp`
Kind: P -/
theorem pollRight_iff (acts : List Act) (t : State) (hrun : exec step initial acts = some t) :
    Along step PollRight initial acts ↔ Along step EntryRight initial acts := by
  refine along_iff_along (fun s a s' h _ => ?_) (fun s a s' h _ hs => h.step hs) inv_initial hrun
  cases a with
  | poll c n =>
      exact forall₂_congr fun x hx => h.ring_iff (List.mem_of_mem_take hx)
  | _ => exact Iff.rfl

instance (s : State) (a : Act) : Decidable (EntryRight s a) := by
  unfold EntryRight
  cases a <;> infer_instance

instance (s : State) (a : Act) : Decidable (PollRight s a) := by
  unfold PollRight
  cases a <;> infer_instance

/-- A QP attached to SRQ 0, a receive posted there and its completion. Kind: D -/
def srqActs : List Act :=
  [.createCq 1, .createSrq 0, .expCreateQp 2 1 (some 0), .postSrqRecv 0,
    .complete ⟨2, 1, some 0⟩ 0, .poll 1 1]

/-- The poll takes the record from the ring of the SRQ. Kind: C -/
theorem pollRight_one_srq :
    (∃ t, exec step initial srqActs = some t) ∧ Along step PollRight initial srqActs :=
  ⟨⟨_, rfl⟩, (pollRight_iff srqActs _ rfl).mpr (along_of_alongB step (by decide))⟩

/-- Two QPs share a CQ, the first with an SRQ, the second without. Kind: D -/
def sharedCqActs : List Act :=
  [.createCq 1, .createSrq 5, .expCreateQp 2 1 (some 5), .expCreateQp 3 1 none,
    .postRecv ⟨3, 1, none⟩, .complete ⟨3, 1, none⟩ 0]

/-- A CQ under the handle of one that served an SRQ. Kind: D -/
def reusedCqActs : List Act :=
  [.createCq 1, .createSrq 5, .expCreateQp 2 1 (some 5), .destroyQp ⟨2, 1, some 5⟩, .destroyCq 1,
    .createCq 1, .expCreateQp 2 1 none, .postRecv ⟨2, 1, none⟩, .complete ⟨2, 1, none⟩ 0]

/-- A QP without SRQ, created while there is an SRQ under handle 0: the router attaches it there.
Kind: D -/
def srqZeroActs : List Act :=
  [.createCq 1, .createSrq 0, .createQp 2 1 none 1 none, .postSrqRecv 0,
    .complete ⟨2, 1, some 0⟩ 0]

/-- After the run a poll of CQ 1 takes the record of its one completion from a ring it was not noted
in. Kind: D -/
def TakesWrongRing (acts : List Act) : Prop :=
  ∃ t, exec step initial acts = some t ∧ (t.cqes 1).length = 1 ∧ ¬ PollRight t (.poll 1 1)

/-- **Records from the wrong ring**, in each of the three runs. Kind: C -/
theorem poll_takes_wrong_ring :
    TakesWrongRing sharedCqActs ∧ TakesWrongRing reusedCqActs ∧ TakesWrongRing srqZeroActs :=
  ⟨⟨_, rfl, rfl, by decide⟩, ⟨_, rfl, rfl, by decide⟩, _, rfl, rfl, by decide⟩

/-! ## One SRQ for each CQ -/

/-- A QP is created with the SRQ of all other QPs of its CQ, or like them with none; the router
attaches it as it was asked to; a provider that calls `ibv_cmd_create_qp` has filled in its struct,
and `ibv_exp_cmd_create_qp` without SRQ finds the CQ's entry at its first value. Kind: D -/
def Uniform (s : State) : Act → Prop
  | .createQp _ c srq heldCq heldSrq => heldCq = c ∧ heldSrq = srq ∧ s.attach srq = srq ∧
      ∀ q ∈ s.qps, q.recvCq = c → q.srq = srq
  | .expCreateQp _ c srq => (srq = none → lastWrite s.writes c = none) ∧ s.attach srq = srq ∧
      ∀ q ∈ s.qps, q.recvCq = c → q.srq = srq
  | _ => True

/-- The entry of every QP's CQ is the QP's SRQ. Kind: D -/
def Agreeing (s : State) : Prop := ∀ q ∈ s.qps, lastWrite s.writes q.recvCq = q.srq

/-- A uniform QP whose SRQ is written to the entry of its CQ. Kind: L -/
lemma Agreeing.newQp {s : State} (h : Agreeing s) (hd : ℕ) {c : ℕ} {srq : Option ℕ}
    (hattach : s.attach srq = srq) (hsame : ∀ q ∈ s.qps, q.recvCq = c → q.srq = srq) :
    Agreeing ((s.newQp hd c srq).write c srq) := by
  intro q hq
  rw [State.write, State.newQp, lastWrite]
  rcases List.mem_cons.mp hq with rfl | hmem
  · rw [if_pos rfl, hattach]
  · split_ifs with hc
    · exact (hsame q hmem hc.symm).symm
    · exact h q hmem

/-- Uniform moves keep the entries. Kind: L -/
lemma Agreeing.step {s s' : State} {a : Act} (h : Agreeing s) (hu : Uniform s a)
    (hs : step s a = some s') : Agreeing s' := by
  have hdestroy : ∀ o, Agreeing (s.destroy o) := by
    intro o
    unfold State.destroy
    split_ifs <;> exact h
  cases a <;>
    simp only [CqSrq.step, Option.bind_eq_bind, Option.bind_eq_some_iff, Option.some.injEq] at hs
  case createQp hd c srq heldCq heldSrq =>
    obtain ⟨_, -, rfl⟩ := hs
    obtain ⟨rfl, rfl, hattach, hsame⟩ := hu
    exact h.newQp hd hattach hsame
  case expCreateQp hd c srq =>
    obtain ⟨_, -, hs⟩ := hs
    obtain ⟨hfirst, hattach, hsame⟩ := hu
    cases srq with
    | some v => exact Option.some.inj hs ▸ h.newQp hd hattach hsame
    | none =>
        obtain rfl := Option.some.inj hs
        intro q hq
        rcases List.mem_cons.mp hq with rfl | hmem
        · exact (hfirst rfl).trans hattach.symm
        · exact h q hmem
  case destroyQp q =>
    obtain ⟨_, -, rfl⟩ := hs
    exact fun q' hq' => h q' (List.mem_of_mem_filter hq')
  case postRecv q =>
    obtain ⟨_, -, ring, -, hs⟩ := hs
    split_ifs at hs <;> exact Option.some.inj hs ▸ h
  case createCq | createSrq | poll =>
    obtain ⟨_, -, rfl⟩ := hs
    exact h
  case destroyCq | destroySrq =>
    obtain ⟨_, -, rfl⟩ := hs
    exact hdestroy _
  case postSrqRecv =>
    obtain ⟨_, -, _, -, rfl⟩ := hs
    exact h
  case complete =>
    obtain ⟨_, -, _, -, _, -, rfl⟩ := hs
    exact h

/-- **One SRQ for each CQ**: after a run whose QPs were created uniformly, every poll takes its
records from the right ring. Kind: P -/
theorem pollRight_of_uniform {acts : List Act} {t : State} (hu : Along step Uniform initial acts)
    (hrun : exec step initial acts = some t) (a : Act) : PollRight t a := by
  have hinv : Inv t := exec_invariant (fun s a s' h hs => h.step hs) inv_initial hrun
  have hstart : Agreeing initial := fun q hq => absurd hq List.not_mem_nil
  have hagree : Agreeing t := exec_invariant_along (fun s a s' h hP hs => h.step hP hs) hstart hu
    hrun
  cases a with
  | poll c n =>
      intro x hx
      have hmem := List.mem_of_mem_take hx
      obtain ⟨hq, rfl, -⟩ := hinv.done c x hmem
      exact (hinv.ring_iff hmem).mpr (hagree _ hq)
  | _ => trivial

/-! ## The queue pairs of one CQ -/

/-- The call that creates a QP with the given attributes on CQ `c`, under the handle `h`. Kind: D -/
def creation (c h : ℕ) (qp : QpAttr) : Act :=
  if qp.exp then .expCreateQp h c qp.srq else .createQp h c qp.srq c qp.srq

/-- What a creation does to the entry of its CQ. Kind: L -/
lemma mapCqToSrq_creation {c h : ℕ} {qp : QpAttr} {s s' : State}
    (hs : step s (creation c h qp) = some s') :
    s'.mapCqToSrq c = if qp.exp && qp.srq.isNone then s.mapCqToSrq c else qp.srq := by
  obtain ⟨srq, exp⟩ := qp
  cases exp with
  | false =>
      simp only [creation, step, Option.bind_eq_bind, Option.bind_eq_some_iff, Bool.false_eq_true,
        if_false, Option.some.injEq] at hs
      obtain ⟨_, -, rfl⟩ := hs
      simp [State.write]
  | true =>
      simp only [creation, step, Option.bind_eq_bind, Option.bind_eq_some_iff, if_true] at hs
      obtain ⟨_, -, hs⟩ := hs
      cases srq with
      | none => simp [← Option.some.inj hs, State.newQp]
      | some v => simp [← Option.some.inj hs, State.write]

/-- **The entry that the machine of one CQ starts from**: once the QPs of a CQ with a fresh entry
are created, one after the other under whatever handles, the entry is that of `Config.mapCqToSrq`.
Kind: P -/
theorem mapCqToSrq_of_creations (c : ℕ) (qps : List (ℕ × QpAttr)) {s t : State}
    (lkeys : UInt32 → Option MrShm) (hfresh : s.mapCqToSrq c = none)
    (hrun : exec step s (qps.map fun q => creation c q.1 q.2) = some t) :
    t.mapCqToSrq c = Config.mapCqToSrq ⟨qps.map Prod.snd, lkeys⟩ := by
  unfold Config.mapCqToSrq
  rw [← hfresh]
  clear hfresh
  induction qps generalizing s with
  | nil => exact congrArg (fun s : State => s.mapCqToSrq c) (Option.some.inj hrun).symm
  | cons q qps ih =>
      obtain ⟨s', hstep, hrest⟩ := (exec_cons_eq_some step).mp hrun
      rw [ih hrest, mapCqToSrq_creation hstep]
      rfl

end FreeFlow.Client.CqSrq
