import FreeFlow.Client.PostSend
import FreeFlow.Found.Run
import FreeFlow.Found.Ring

/-!
# The receive ring of a completion queue

When the application posts a receive, the client library notes for each element where the data
will arrive in shared memory and where the application expects it. The notes of all receives of
a CQ go to one ring (`struct wr_queue`), those of an SRQ to the SRQ's ring. When a completion with
the receive bit is polled, `ibv_cmd_poll_cq` takes the next entry of one ring, copies its elements
and frees it, without looking at which request completed.

The machine below puts the rings next to an HCA that completes the receives of each queue pair in
posted order, and different queue pairs in any order.

* `WrQueue` — the ring, with its 16-bit counters.
* `System`, `Act`, `step` — posts, the HCA's moves and polls.
* `InRingOrder` — the condition under which blind popping is right: everything goes to the ring
  the CQ pops, and receives complete in the order of that ring.
* `delivery_of_inRingOrder` — under it, every successful receive completion of every run consumes
  exactly the record of the request that completed.
* `delivery_fails_two_qps` — without it two queue pairs on one CQ suffice to go wrong.

Source: `cmd.c` `ibv_cmd_post_recv`, `ibv_cmd_post_srq_recv`, `ibv_cmd_poll_cq`,
`ibv_cmd_create_qp`; `cmd_exp.c` `ibv_exp_cmd_create_qp`; `freeflow.h` `struct wr_queue`.
-/

namespace FreeFlow.Client

open FreeFlow.Found FreeFlow.Verbs

/-! ## The ring -/

/-- `WR_QUEUE_SIZE`. Source: `freeflow-types.h`. Kind: D -/
def wrQueueSize : ℕ := 102400

/-- `struct sge_record`. Source: `freeflow.h`. Kind: D -/
structure SgeRecord where
  length : UInt32
  mrAddr : UInt64
  shmAddr : UInt64
  deriving DecidableEq, Repr

/-- A block of records as `malloc` returned it for the receive with number `post`. Kind: D -/
structure SgeQueue where
  post : ℕ
  records : List SgeRecord
  deriving DecidableEq, Repr

/-- `struct wr`. Source: `freeflow.h`. Kind: D -/
structure WrSlot where
  sgeNum : ℕ
  sgeQueue : SgeQueue
  deriving DecidableEq, Repr

/-- `struct wr_queue` without its locks. Source: `freeflow.h`. Kind: D -/
structure WrQueue where
  queue : ℕ → WrSlot
  head : UInt16
  tail : UInt16

/-- `i++; if (i >= WR_QUEUE_SIZE) i = 0;` on a `uint16_t`. Kind: D -/
def advance (i : UInt16) : UInt16 := if wrQueueSize ≤ (i + 1).toNat then 0 else i + 1

/-- A 16-bit counter never reaches `WR_QUEUE_SIZE`: it wraps at `2^16`. Kind: L -/
lemma toNat_advance (i : UInt16) : (advance i).toNat = (i.toNat + 1) % 65536 := by
  have hlt : (i + 1).toNat < 65536 := (i + 1).toNat_lt
  rw [advance, if_neg (by rw [wrQueueSize]; omega), UInt16.toNat_add]
  rfl

/-- Where an outstanding receive waits: in a queue pair's receive queue or in an SRQ. Kind: D -/
inductive Place
  | qp (q : ℕ)
  | srq (s : ℕ)
  deriving DecidableEq, Repr

/-- A receive: the how-manieth it is, where it waits, its `wr_id` and the records noted for its
elements. Kind: D -/
structure Recv where
  post : ℕ
  place : Place
  wrId : UInt64
  records : List SgeRecord
  deriving DecidableEq, Repr

/-- The note for one element: its length, its application address and its place in the client's
mapping of the shared memory.
Source: `cmd.c` `ibv_cmd_post_recv`
Kind: D -/
def sgeRecord (p : MrShm) (e : Sge) : SgeRecord :=
  ⟨e.length, p.mr + (e.addr - p.mr), p.shmPtr + (e.addr - p.mr)⟩

/-- The receives of one post call, numbered from `n`; a key without a region dereferences the
null pointer (`none`). Kind: D -/
def toRecvs (lkeys : UInt32 → Option MrShm) (place : Place) : ℕ → List RecvWr → Option (List Recv)
  | _, [] => some []
  | n, w :: ws => do
      let records ← w.sgList.mapM fun e => (lkeys e.lkey).map fun p => sgeRecord p e
      let rest ← toRecvs lkeys place (n + 1) ws
      some (⟨n, place, w.wrId, records⟩ :: rest)

/-- Note a receive at `head`. Without elements only `sge_num` is written.
Source: `cmd.c` `ibv_cmd_post_recv`, `ibv_cmd_post_srq_recv`
Kind: D -/
def WrQueue.record (Q : WrQueue) (r : Recv) : WrQueue :=
  let i := Q.head.toNat
  let slot : WrSlot := ⟨r.records.length,
    if r.records.length ≠ 0 then ⟨r.post, r.records⟩ else (Q.queue i).sgeQueue⟩
  { Q with queue := Function.update Q.queue i slot, head := advance Q.head }

/-- What a popped slot makes the poll copy and free. Kind: D -/
def WrSlot.consumed (slot : WrSlot) : Option SgeQueue :=
  if slot.sgeNum ≠ 0 then some slot.sgeQueue else none

/-- What the completion of `r` should make the poll copy and free: the block of its own records,
if it has any. Kind: D -/
def Recv.expected (r : Recv) : Option SgeQueue :=
  if r.records.length ≠ 0 then some ⟨r.post, r.records⟩ else none

/-! ## The system -/

/-- A queue pair as it was created: its SRQ, and whether by `ibv_exp_cmd_create_qp`. Kind: D -/
structure QpAttr where
  srq : Option ℕ
  exp : Bool
  deriving DecidableEq, Repr

/-- The queue pairs of one CQ in the order of their creation, and the client's regions.
Kind: D -/
structure Config where
  qps : List QpAttr
  lkeys : UInt32 → Option MrShm

/-- `map_cq_to_srq` of the CQ (`none` for `MAP_SIZE + 1`): every `ibv_cmd_create_qp` sets it, an
`ibv_exp_cmd_create_qp` only when the queue pair has an SRQ.
Source: `cmd.c` `ibv_cmd_create_qp`, `cmd_exp.c` `ibv_exp_cmd_create_qp`
Kind: D -/
def Config.mapCqToSrq (c : Config) : Option ℕ :=
  c.qps.foldl (fun cur qp => if qp.exp && qp.srq.isNone then cur else qp.srq) none

/-- The SRQ of queue pair `q`. Kind: D -/
def Config.srqOf (c : Config) (q : ℕ) : Option ℕ := (c.qps[q]?).bind QpAttr.srq

/-- A completion: its queue pair, `wr_id`, whether it is successful, the receive bit of its
opcode, and the receive that completed (`none` for a send). Kind: D -/
structure Cqe where
  qp : ℕ
  wrId : UInt64
  ok : Bool
  recvBit : Bool
  recv : Option Recv
  deriving DecidableEq, Repr

/-- The rings of the client, the receives outstanding in the HCA in the order they were posted,
the CQ, and the completions returned so far with what each made the poll consume. Kind: D -/
structure System where
  cqRing : WrQueue
  srqRing : ℕ → WrQueue
  posts : ℕ
  outstanding : List Recv
  cq : List Cqe
  log : List (Cqe × Option SgeQueue)

/-- The moves. A post call carries how many of its requests the HCA accepts; a completion carries
its status and the receive bit. Kind: D -/
inductive Act
  | postRecv (q : ℕ) (ws : List RecvWr) (accepted : ℕ)
  | postSrqRecv (s : ℕ) (ws : List RecvWr) (accepted : ℕ)
  | take (q : ℕ)
  | complete (q : ℕ) (ok recvBit : Bool)
  | completeSend (q : ℕ) (wrId : UInt64) (ok recvBit : Bool)
  | poll (n : ℕ)

/-- The HCA moves the oldest receive at `p` to `p'`. Kind: D -/
def retarget (p p' : Place) : List Recv → Option (List Recv)
  | [] => none
  | r :: rs =>
      if r.place = p then some ({ r with place := p' } :: rs)
      else (retarget p p' rs).map (r :: ·)

/-- The loop of `ibv_cmd_poll_cq` over the completions: each one with the receive bit pops the
ring.
Source: `cmd.c` `ibv_cmd_poll_cq`
Kind: D -/
def pollLoop : List Cqe → WrQueue → WrQueue × List (Cqe × Option SgeQueue)
  | [], Q => (Q, [])
  | c :: cs, Q =>
      if c.recvBit then
        let slot := Q.queue Q.tail.toNat
        let (Q', out) := pollLoop cs { Q with tail := advance Q.tail }
        (Q', (c, slot.consumed) :: out)
      else
        let (Q', out) := pollLoop cs Q
        (Q', (c, none) :: out)

/-- The ring that polls of the CQ pop. Source: `cmd.c` `ibv_cmd_poll_cq`. Kind: D -/
def System.popped (c : Config) (s : System) : WrQueue :=
  match c.mapCqToSrq with
  | none => s.cqRing
  | some k => s.srqRing k

/-- The state with another content of the ring that polls pop. Kind: D -/
def System.setPopped (c : Config) (s : System) (Q : WrQueue) : System :=
  match c.mapCqToSrq with
  | none => { s with cqRing := Q }
  | some k => { s with srqRing := Function.update s.srqRing k Q }

/-- **One move.** `ibv_cmd_post_recv` notes in the CQ's ring, `ibv_cmd_post_srq_recv` in the
SRQ's; both note every request before the HCA has accepted any. A queue pair with an SRQ has no
receive queue of its own, so the HCA accepts no receive posted to it. A successful completion has
a valid opcode.
Source: `cmd.c` `ibv_cmd_post_recv`, `ibv_cmd_post_srq_recv`, `ibv_cmd_poll_cq`
Kind: D -/
def step (c : Config) (s : System) : Act → Option System
  | .postRecv q ws k => do
      guard (q < c.qps.length ∧ k ≤ ws.length ∧ (k = 0 ∨ c.srqOf q = none))
      let rs ← toRecvs c.lkeys (.qp q) s.posts ws
      some { s with
        cqRing := rs.foldl WrQueue.record s.cqRing
        posts := s.posts + ws.length
        outstanding := s.outstanding ++ rs.take k }
  | .postSrqRecv i ws k => do
      guard (k ≤ ws.length)
      let rs ← toRecvs c.lkeys (.srq i) s.posts ws
      some { s with
        srqRing := Function.update s.srqRing i (rs.foldl WrQueue.record (s.srqRing i))
        posts := s.posts + ws.length
        outstanding := s.outstanding ++ rs.take k }
  | .take q => do
      let i ← c.srqOf q
      let rs ← retarget (.srq i) (.qp q) s.outstanding
      some { s with outstanding := rs }
  | .complete q ok bit => do
      guard (ok → bit)
      let r ← s.outstanding.find? fun r => r.place = .qp q
      some { s with
        outstanding := s.outstanding.eraseP fun r => r.place = .qp q
        cq := s.cq ++ [⟨q, r.wrId, ok, bit, some r⟩] }
  | .completeSend q wrId ok bit => do
      guard (ok → ¬ bit)
      some { s with cq := s.cq ++ [⟨q, wrId, ok, bit, none⟩] }
  | .poll n => do
      guard (n ≤ s.cq.length)
      let (Q, out) := pollLoop (s.cq.take n) (s.popped c)
      some { s.setPopped c Q with cq := s.cq.drop n, log := s.log ++ out }

section Moves

variable {c : Config} {s s' : System} {q i k n : ℕ} {ws : List RecvWr} {wrId : UInt64}
  {ok bit : Bool}

/-- What a post to a queue pair does. Kind: L -/
lemma step_postRecv_iff : step c s (.postRecv q ws k) = some s' ↔
    (q < c.qps.length ∧ k ≤ ws.length ∧ (k = 0 ∨ c.srqOf q = none)) ∧
      ∃ rs, toRecvs c.lkeys (.qp q) s.posts ws = some rs ∧
        { s with
          cqRing := rs.foldl WrQueue.record s.cqRing
          posts := s.posts + ws.length
          outstanding := s.outstanding ++ rs.take k } = s' := by
  simp [step, Option.bind_eq_some_iff]

/-- What a post to an SRQ does. Kind: L -/
lemma step_postSrqRecv_iff : step c s (.postSrqRecv i ws k) = some s' ↔
    k ≤ ws.length ∧ ∃ rs, toRecvs c.lkeys (.srq i) s.posts ws = some rs ∧
      { s with
        srqRing := Function.update s.srqRing i (rs.foldl WrQueue.record (s.srqRing i))
        posts := s.posts + ws.length
        outstanding := s.outstanding ++ rs.take k } = s' := by
  simp [step, Option.bind_eq_some_iff]

/-- What a queue pair that takes a receive from its SRQ does. Kind: L -/
lemma step_take_iff : step c s (.take q) = some s' ↔
    ∃ i, c.srqOf q = some i ∧ ∃ rs, retarget (.srq i) (.qp q) s.outstanding = some rs ∧
      { s with outstanding := rs } = s' := by
  simp [step, Option.bind_eq_some_iff]

/-- What the completion of a receive does. Kind: L -/
lemma step_complete_iff : step c s (.complete q ok bit) = some s' ↔
    (ok = true → bit = true) ∧ ∃ r, s.outstanding.find? (fun r => r.place = .qp q) = some r ∧
      { s with
        outstanding := s.outstanding.eraseP fun r => r.place = .qp q
        cq := s.cq ++ [⟨q, r.wrId, ok, bit, some r⟩] } = s' := by
  simp [step, Option.bind_eq_some_iff]

/-- What the completion of a send does. Kind: L -/
lemma step_completeSend_iff : step c s (.completeSend q wrId ok bit) = some s' ↔
    (ok = true → ¬ bit = true) ∧ { s with cq := s.cq ++ [⟨q, wrId, ok, bit, none⟩] } = s' := by
  simp [step, Option.bind_eq_some_iff]

/-- What a poll does. Kind: L -/
lemma step_poll_iff : step c s (.poll n) = some s' ↔
    n ≤ s.cq.length ∧
      { s.setPopped c (pollLoop (s.cq.take n) (s.popped c)).1 with
        cq := s.cq.drop n
        log := s.log ++ (pollLoop (s.cq.take n) (s.popped c)).2 } = s' := by
  simp [step, Option.bind_eq_some_iff]

/-- The oldest outstanding receive, when it is at a queue pair, is the one that completes there.
Kind: L -/
lemma complete_of_head (hhead : s.outstanding.head?.map Recv.place = some (.qp q))
    (hs : step c s (.complete q ok bit) = some s') :
    ∃ r rest, s.outstanding = r :: rest ∧ r.place = .qp q ∧
      { s with outstanding := rest, cq := s.cq ++ [⟨q, r.wrId, ok, bit, some r⟩] } = s' := by
  obtain ⟨-, r, hr, rfl⟩ := step_complete_iff.mp hs
  cases hout : s.outstanding with
  | nil =>
      rw [hout] at hhead
      exact absurd hhead (by simp)
  | cons u rest =>
      rw [hout] at hhead hr
      have hplace : u.place = .qp q := by simpa using hhead
      rw [List.find?_cons_of_pos (by simpa using hplace), Option.some.injEq] at hr
      refine ⟨u, rest, rfl, hplace, ?_⟩
      rw [List.eraseP_cons_of_pos (by simpa using hplace), hr]

end Moves

/-- Freshly created queues: nothing posted, all counters zero, the slots as `malloc` left them.
Kind: D -/
structure Initial (s : System) : Prop where
  cqRing : s.cqRing.head = 0 ∧ s.cqRing.tail = 0
  srqRing : ∀ i, (s.srqRing i).head = 0 ∧ (s.srqRing i).tail = 0
  outstanding : s.outstanding = []
  cq : s.cq = []
  log : s.log = []

/-! ## The ring as a queue of records -/

/-- The ring stands for a queue of records, oldest first. Kind: D -/
def WrQueue.Holds (Q : WrQueue) (q : List (Option SgeQueue)) : Prop :=
  Ring.Holds (fun i => (Q.queue i).consumed) 65536 Q.tail.toNat Q.head.toNat q

/-- A slot written for a receive makes its pop consume that receive's records. Kind: L -/
lemma record_consumed (Q : WrQueue) (r : Recv) :
    (fun i => ((Q.record r).queue i).consumed) =
      Function.update (fun i => (Q.queue i).consumed) Q.head.toNat r.expected := by
  funext i
  by_cases hi : i = Q.head.toNat
  · subst hi
    simp only [WrQueue.record, Function.update_self, WrSlot.consumed, Recv.expected]
    split <;> rfl
  · simp only [WrQueue.record, Function.update_of_ne hi]

/-- Noting a receive appends its records, while fewer than `2^16` are unpopped. Kind: L -/
lemma WrQueue.Holds.record {Q : WrQueue} {q : List (Option SgeQueue)} (h : Q.Holds q) (r : Recv)
    (hroom : q.length < 65536) : (Q.record r).Holds (q ++ [r.expected]) := by
  have hpush := Ring.Holds.push h hroom r.expected
  rw [← record_consumed, ← toNat_advance] at hpush
  exact hpush

/-- Noting the receives of a whole post call appends their records in order. Kind: L -/
lemma WrQueue.Holds.recordAll {Q : WrQueue} {q : List (Option SgeQueue)} (h : Q.Holds q)
    (rs : List Recv) (hroom : q.length + rs.length ≤ 65536) :
    (rs.foldl WrQueue.record Q).Holds (q ++ rs.map Recv.expected) := by
  induction rs generalizing Q q with
  | nil => simpa using h
  | cons r rs ih =>
      rw [List.length_cons] at hroom
      have hrest := ih (h.record r (by omega)) (by simp; omega)
      simpa using hrest

/-- **The poll loop pops in order**: when the ring starts with the records of the receives among
the completions, each completion consumes its own, and the others none. Kind: L -/
lemma pollLoop_spec (cs : List Cqe) {Q : WrQueue} {q : List (Option SgeQueue)}
    (h : Q.Holds ((cs.filterMap Cqe.recv).map Recv.expected ++ q))
    (hbits : ∀ c ∈ cs, c.recvBit = c.recv.isSome) :
    (pollLoop cs Q).1.Holds q ∧
      (pollLoop cs Q).2 = cs.map fun c => (c, c.recv.bind Recv.expected) := by
  induction cs generalizing Q with
  | nil => exact ⟨h, rfl⟩
  | cons c cs ih =>
      have hbit := hbits c (by simp)
      have hrest : ∀ c' ∈ cs, c'.recvBit = c'.recv.isSome := fun c' hc' => hbits c' (by simp [hc'])
      cases hrecv : c.recv with
      | none =>
          rw [hrecv, Option.isSome_none] at hbit
          rw [List.filterMap_cons_none hrecv] at h
          obtain ⟨hQ, hout⟩ := ih h hrest
          simp [pollLoop, hbit, hQ, hout, hrecv]
      | some r =>
          rw [hrecv, Option.isSome_some] at hbit
          rw [List.filterMap_cons_some hrecv, List.map_cons, List.cons_append] at h
          obtain ⟨hslot, hpop⟩ := Ring.Holds.pop h
          rw [← toNat_advance] at hpop
          obtain ⟨hQ, hout⟩ := ih (Q := { Q with tail := advance Q.tail }) hpop hrest
          simp [pollLoop, hbit, hQ, hout, hrecv, hslot]

/-! ## Delivery in ring order -/

/-- The receives whose records have not been popped: those completed but not yet polled, then
those still outstanding. Kind: D -/
def System.unpopped (s : System) : List Recv := s.cq.filterMap Cqe.recv ++ s.outstanding

/-- **The condition for a step**: a post goes to the ring the CQ pops, is accepted whole and
leaves at most `2^16` receives unpopped; the receive that completes is the oldest outstanding one;
and the receive bit of a completion, failed ones included, tells whether it is a receive.
Kind: D -/
def InRingOrder (c : Config) (s : System) : Act → Prop
  | .postRecv _ ws k =>
      c.mapCqToSrq = none ∧ k = ws.length ∧ s.unpopped.length + ws.length ≤ 65536
  | .postSrqRecv i ws k =>
      c.mapCqToSrq = some i ∧ k = ws.length ∧ s.unpopped.length + ws.length ≤ 65536
  | .take _ => True
  | .complete q _ bit => bit = true ∧ s.outstanding.head?.map Recv.place = some (.qp q)
  | .completeSend _ _ _ bit => bit = false
  | .poll _ => True

instance (c : Config) (s : System) : (a : Act) → Decidable (InRingOrder c s a)
  | .postRecv _ _ _ => inferInstanceAs (Decidable (_ ∧ _ ∧ _))
  | .postSrqRecv _ _ _ => inferInstanceAs (Decidable (_ ∧ _ ∧ _))
  | .take _ => inferInstanceAs (Decidable True)
  | .complete _ _ _ => inferInstanceAs (Decidable (_ ∧ _))
  | .completeSend _ _ _ _ => inferInstanceAs (Decidable (_ = _))
  | .poll _ => inferInstanceAs (Decidable True)

/-- What holds between the steps: the popped ring stands for the unpopped receives, the receive
bits in the CQ are right, and every completion returned so far consumed its own records.
Kind: D -/
structure Delivers (c : Config) (s : System) : Prop where
  ring : (s.popped c).Holds (s.unpopped.map Recv.expected)
  bits : ∀ e ∈ s.cq, e.recvBit = e.recv.isSome
  log : ∀ e ∈ s.log, e.2 = e.1.recv.bind Recv.expected

/-- Queues as they were created deliver. Kind: L -/
lemma Initial.delivers {s : System} (h : Initial s) (c : Config) : Delivers c s := by
  have hzero : (s.popped c).head = 0 ∧ (s.popped c).tail = 0 := by
    unfold System.popped
    cases c.mapCqToSrq with
    | none => exact h.cqRing
    | some k => exact h.srqRing k
  refine ⟨?_, by simp [h.cq], by simp [h.log]⟩
  rw [WrQueue.Holds, hzero.1, hzero.2, System.unpopped, h.cq, h.outstanding]
  exact Ring.holds_nil _ (by decide)

/-- The receives of a call are numbered from `n` on. Kind: L -/
lemma post_toRecvs {lkeys : UInt32 → Option MrShm} {place : Place} {n : ℕ} {ws : List RecvWr}
    {rs : List Recv} (h : toRecvs lkeys place n ws = some rs) :
    rs.map Recv.post = List.range' n ws.length := by
  induction ws generalizing n rs with
  | nil =>
      rw [toRecvs, Option.some.injEq] at h
      rw [← h]
      rfl
  | cons w ws ih =>
      simp only [toRecvs, Option.bind_eq_bind, Option.bind_eq_some_iff, Option.some.injEq] at h
      obtain ⟨records, -, rest, hrest, rfl⟩ := h
      rw [List.map_cons, ih hrest, List.length_cons, List.range'_succ]

/-- So they are as many as the requests. Kind: L -/
lemma length_toRecvs {lkeys : UInt32 → Option MrShm} {place : Place} {n : ℕ} {ws : List RecvWr}
    {rs : List Recv} (h : toRecvs lkeys place n ws = some rs) : rs.length = ws.length := by
  simpa using congrArg List.length (post_toRecvs h)

/-- Moving a receive to a queue pair changes nothing that does not depend on its place. Kind: L -/
lemma map_retarget {β : Type*} {f : Recv → β} (hf : ∀ r p, f { r with place := p } = f r)
    {p p' : Place} {rs rs' : List Recv} (h : retarget p p' rs = some rs') :
    rs'.map f = rs.map f := by
  induction rs generalizing rs' with
  | nil => simp [retarget] at h
  | cons r rs ih =>
      rw [retarget] at h
      split at h
      · rw [Option.some.injEq] at h
        rw [← h, List.map_cons, List.map_cons, hf]
      · obtain ⟨rest, hrest, rfl⟩ := Option.map_eq_some_iff.mp h
        rw [List.map_cons, List.map_cons, ih hrest]

/-- A post to the popped ring keeps delivery: its records join the end of the ring, its receives
the end of the outstanding ones. Kind: L -/
lemma Delivers.post {c : Config} {s s' : System} (h : Delivers c s) (rs : List Recv)
    (hroom : s.unpopped.length + rs.length ≤ 65536)
    (hring : s'.popped c = rs.foldl WrQueue.record (s.popped c))
    (hout : s'.outstanding = s.outstanding ++ rs) (hcq : s'.cq = s.cq) (hlog : s'.log = s.log) :
    Delivers c s' := by
  refine ⟨?_, by rw [hcq]; exact h.bits, by rw [hlog]; exact h.log⟩
  have hall := h.ring.recordAll rs (by simpa using hroom)
  rw [hring, System.unpopped, hcq, hout, ← List.append_assoc, List.map_append]
  exact hall

/-- Polls put back the ring they popped. Kind: L -/
lemma popped_setPopped (c : Config) (s : System) (Q : WrQueue) :
    (s.setPopped c Q).popped c = Q := by
  unfold System.setPopped System.popped
  cases c.mapCqToSrq with
  | none => rfl
  | some k => simp

/-- Setting the popped ring leaves the HCA alone. Kind: L -/
lemma setPopped_outstanding (c : Config) (s : System) (Q : WrQueue) :
    (s.setPopped c Q).outstanding = s.outstanding := by
  unfold System.setPopped
  cases c.mapCqToSrq <;> rfl

/-- A completion keeps delivery when the receive it takes from the outstanding ones, if any, is the
one it reports, and its receive bit says so. Kind: L -/
lemma Delivers.completion {c : Config} {s s' : System} (h : Delivers c s) (e : Cqe)
    (hbit : e.recvBit = e.recv.isSome) (hring : s'.popped c = s.popped c)
    (hout : s.outstanding = e.recv.toList ++ s'.outstanding) (hcq : s'.cq = s.cq ++ [e])
    (hlog : s'.log = s.log) : Delivers c s' := by
  have hunpopped : s'.unpopped = s.unpopped := by
    rw [System.unpopped, System.unpopped, hcq, hout, List.filterMap_append, List.append_assoc]
    cases hrecv : e.recv <;> simp [hrecv]
  refine ⟨?_, ?_, by rw [hlog]; exact h.log⟩
  · rw [hring, hunpopped]
    exact h.ring
  · intro e' he'
    rw [hcq, List.mem_append, List.mem_singleton] at he'
    rcases he' with he' | rfl
    · exact h.bits e' he'
    · exact hbit

/-- A poll pops the records of the completions it returns. Kind: L -/
lemma Delivers.pollLoop {c : Config} {s : System} (h : Delivers c s) (n : ℕ) :
    (Client.pollLoop (s.cq.take n) (s.popped c)).1.Holds
        (((s.cq.drop n).filterMap Cqe.recv ++ s.outstanding).map Recv.expected) ∧
      (Client.pollLoop (s.cq.take n) (s.popped c)).2 =
        (s.cq.take n).map fun e => (e, e.recv.bind Recv.expected) := by
  have hold := h.ring
  rw [System.unpopped, ← List.take_append_drop n s.cq, List.filterMap_append,
    List.append_assoc, List.map_append] at hold
  exact pollLoop_spec (s.cq.take n) hold fun e he => h.bits e (List.mem_of_mem_take he)

/-- So it keeps delivery. Kind: L -/
lemma Delivers.poll {c : Config} {s s' : System} (h : Delivers c s) {n : ℕ}
    (hring : s'.popped c = (Client.pollLoop (s.cq.take n) (s.popped c)).1)
    (hout : s'.outstanding = s.outstanding) (hcq : s'.cq = s.cq.drop n)
    (hlog : s'.log = s.log ++ (Client.pollLoop (s.cq.take n) (s.popped c)).2) : Delivers c s' := by
  obtain ⟨hQ, hconsumed⟩ := h.pollLoop n
  refine ⟨?_, ?_, ?_⟩
  · rw [hring, System.unpopped, hout, hcq]
    exact hQ
  · intro e he
    rw [hcq] at he
    exact h.bits e (List.mem_of_mem_drop he)
  · intro e he
    rw [hlog, List.mem_append, hconsumed] at he
    rcases he with he | he
    · exact h.log e he
    · obtain ⟨c', -, rfl⟩ := List.mem_map.mp he
      rfl

/-- **Every step in ring order keeps delivery.** Kind: L -/
lemma Delivers.step {c : Config} {s s' : System} {a : Act} (h : Delivers c s)
    (hord : InRingOrder c s a) (hstep : Client.step c s a = some s') : Delivers c s' := by
  cases a with
  | postRecv q ws k =>
      obtain ⟨hsel, hk, hroom⟩ := hord
      obtain ⟨-, rs, hrs, rfl⟩ := step_postRecv_iff.mp hstep
      have hlen := length_toRecvs hrs
      refine h.post rs (by omega) ?_ ?_ rfl rfl
      · simp only [System.popped, hsel]
      · simp only [hk, ← hlen, List.take_length]
  | postSrqRecv i ws k =>
      obtain ⟨hsel, hk, hroom⟩ := hord
      obtain ⟨-, rs, hrs, rfl⟩ := step_postSrqRecv_iff.mp hstep
      have hlen := length_toRecvs hrs
      refine h.post rs (by omega) ?_ ?_ rfl rfl
      · simp only [System.popped, hsel, Function.update_self]
      · simp only [hk, ← hlen, List.take_length]
  | take q =>
      obtain ⟨i, -, rs, hrs, rfl⟩ := step_take_iff.mp hstep
      refine ⟨?_, h.bits, h.log⟩
      have hring := h.ring
      rw [System.unpopped, List.map_append] at hring
      have hexpected : rs.map Recv.expected = s.outstanding.map Recv.expected :=
        map_retarget (fun _ _ => rfl) hrs
      simp only [System.unpopped, List.map_append, hexpected]
      exact hring
  | complete q ok bit =>
      obtain ⟨hbit, hfirst⟩ := hord
      obtain ⟨r, rest, hrest, -, rfl⟩ := complete_of_head hfirst hstep
      exact h.completion ⟨q, r.wrId, ok, bit, some r⟩ hbit rfl hrest rfl rfl
  | completeSend q wrId ok bit =>
      obtain ⟨-, rfl⟩ := step_completeSend_iff.mp hstep
      exact h.completion ⟨q, wrId, ok, bit, none⟩ hord rfl rfl rfl rfl
  | poll n =>
      obtain ⟨-, rfl⟩ := step_poll_iff.mp hstep
      exact h.poll (popped_setPopped c s _) (setPopped_outstanding c s _) rfl rfl

/-- **Receive delivery in ring order**: for every set of queue pairs on one CQ, in every run from
freshly created queues whose steps are all in ring order, each successful receive completion ever
returned made the poll copy and free exactly the records of the request that completed.
Source: `cmd.c` `ibv_cmd_post_recv`, `ibv_cmd_post_srq_recv`, `ibv_cmd_poll_cq`
Kind: P -/
theorem delivery_of_inRingOrder (c : Config) (s t : System) (acts : List Act) (hs : Initial s)
    (hord : Along (step c) (InRingOrder c) s acts) (hrun : exec (step c) s acts = some t) :
    ∀ e ∈ t.log, e.1.ok → ∀ r, e.1.recv = some r → e.2 = r.expected := by
  have hinv : Delivers c t :=
    exec_invariant_along (fun _ _ _ h hord hstep => h.step hord hstep) (hs.delivers c) hord hrun
  intro e he _ r hr
  rw [hinv.log e he, hr]
  rfl

/-! Two queue pairs without an SRQ on one CQ, each with one receive of one element. -/

/-- Two queue pairs and a region with key `5`. Kind: D -/
def twoQps : Config :=
  ⟨[⟨none, false⟩, ⟨none, false⟩], fun k => if k = 5 then some ⟨0x10000, 0x70000⟩ else none⟩

/-- Queues as they were created, their slots zeroed. Kind: D -/
def freshSystem : System :=
  let ring : WrQueue := ⟨fun _ => ⟨0, ⟨0, []⟩⟩, 0, 0⟩
  ⟨ring, fun _ => ring, 0, [], [], []⟩

/-- They are initial. Kind: L -/
lemma initial_freshSystem : Initial freshSystem :=
  ⟨⟨rfl, rfl⟩, fun _ => ⟨rfl, rfl⟩, rfl, rfl, rfl⟩

/-- Post one receive to each queue pair, complete them in the given order, poll both. Kind: D -/
def twoRecvs (first second : ℕ) : List Act :=
  [.postRecv 0 [.ofParts 100 [⟨0x10000, 64, 5⟩] (by decide)] 1,
    .postRecv 1 [.ofParts 200 [⟨0x11000, 64, 5⟩] (by decide)] 1,
    .complete first true true, .complete second true true, .poll 2]

/-- Completed in the order of the posts, both receives are delivered. Kind: C -/
theorem delivery_two_qps_in_order :
    ∃ t, exec (step twoQps) freshSystem (twoRecvs 0 1) = some t ∧ t.log.length = 2 ∧
      ∀ e ∈ t.log, e.1.ok → ∀ r, e.1.recv = some r → e.2 = r.expected :=
  ⟨_, rfl, by decide, delivery_of_inRingOrder twoQps freshSystem _ (twoRecvs 0 1)
    initial_freshSystem (along_of_alongB (step twoQps) (by decide)) rfl⟩

/-- **Completed in the other order, they are swapped**: both completions are successful, and each
made the poll copy and free the records of the other queue pair's receive. Kind: C -/
theorem delivery_fails_two_qps :
    ∃ t, exec (step twoQps) freshSystem (twoRecvs 1 0) = some t ∧
      t.log.map (fun e => (e.1.qp, e.1.wrId, e.1.ok, e.1.recv.map Recv.post,
        e.2.map SgeQueue.post)) =
        [(1, 200, true, some 1, some 0), (0, 100, true, some 0, some 1)] ∧
      ¬ ∀ e ∈ t.log, e.1.ok → ∀ r, e.1.recv = some r → e.2 = r.expected := by
  refine ⟨_, rfl, by decide, fun hall => ?_⟩
  have hfirst := hall _ (List.mem_cons_self ..) rfl _ rfl
  exact absurd hfirst (by decide)

end FreeFlow.Client
