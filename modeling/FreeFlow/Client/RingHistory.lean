import FreeFlow.Client.RecvRing
import FreeFlow.Found.Lists

/-!
# The receive ring over a whole run

What the ring of a CQ does over runs of any length, with the receives that were ever noted in it and
the slots they went to kept beside the machine. The counters are `uint16_t`, so the test against
`WR_QUEUE_SIZE` never succeeds and the ring is a ring of `2^16` slots, whatever was allocated.

* `Traced`, `stepTraced` — the machine of the receive ring with its history.
* `Traced.Slots` — the `k`-th receive goes to slot `k % 2^16`, in every run.
* `ring_order_of_oneQp` — one queue pair, at most `2^16` receives unpolled: the `k`-th receive
  completion takes the record of the `k`-th receive, every block is freed once, and every index is
  in the ring.
* `noOverwrite_iff_inWindow` — a run overwrites no record that is still needed exactly when every
  receive is polled before the `2^16`-th after it is posted.
* `ring_overwrites_below_size` — `2^16 + 1` receives, fewer than `WR_QUEUE_SIZE`.
* `records_of_accepted_iff` — after a post the ring holds the records of the accepted requests
  exactly when all are accepted and there is room.

Source: `cmd.c` `ibv_cmd_create_cq`, `ibv_cmd_post_recv`, `ibv_cmd_post_srq_recv`,
`ibv_cmd_poll_cq`; `freeflow.h` `struct wr_queue`; `freeflow-types.h` `WR_QUEUE_SIZE`.
-/

namespace FreeFlow.Client.History

open FreeFlow.Found FreeFlow.Verbs

/-! ## The history -/

/-- The slots that a post call writes, one per request: `wr_index = wr_queue->head`. Kind: D -/
def recordSlots : WrQueue → List Recv → List ℕ
  | _, [] => []
  | Q, r :: rs => Q.head.toNat :: recordSlots (Q.record r) rs

/-- The slots that a poll reads, one per receive completion: `wr_index = wr_queue->tail`. Kind: D -/
def popSlots : List Cqe → WrQueue → List ℕ
  | [], _ => []
  | c :: cs, Q =>
      if c.recvBit then Q.tail.toNat :: popSlots cs { Q with tail := advance Q.tail }
      else popSlots cs Q

/-- The machine with what happened to the CQ's ring: the receives noted in it, in order, the slot of
each, and the slots that polls have read. Kind: D -/
structure Traced where
  sys : System
  ring : List Recv
  pushed : List ℕ
  popped : List ℕ

/-- **One move with its history.** Kind: D -/
def stepTraced (c : Config) (h : Traced) (a : Act) : Option Traced := do
  let sys ← step c h.sys a
  match a with
  | .postRecv q ws _ => do
      let rs ← toRecvs c.lkeys (.qp q) h.sys.posts ws
      some { h with
        sys := sys
        ring := h.ring ++ rs
        pushed := h.pushed ++ recordSlots h.sys.cqRing rs }
  | .poll n => some { h with
      sys := sys
      popped := h.popped ++ popSlots (h.sys.cq.take n) (h.sys.popped c) }
  | _ => some { h with sys := sys }

/-- Freshly created queues, nothing noted. Kind: D -/
structure Fresh (h : Traced) : Prop where
  sys : Initial h.sys
  ring : h.ring = []
  pushed : h.pushed = []
  popped : h.popped = []

/-- The blocks that polls have freed. Kind: D -/
def Traced.freed (h : Traced) : List SgeQueue := h.sys.log.filterMap Prod.snd

/-- The receive completions that polls have returned. Kind: D -/
def Traced.polled (h : Traced) : List (Cqe × Option SgeQueue) :=
  h.sys.log.filter fun e => e.1.recvBit

/-! ## Slots -/

/-- The slot of the `k`-th receive in a ring whose counters wrap at `2^16`. Kind: D -/
def slotOf (k : ℕ) : ℕ := k % 65536

/-- Every slot is in the ring that was allocated. Kind: L -/
lemma slotOf_lt (k : ℕ) : slotOf k < wrQueueSize := by
  unfold slotOf wrQueueSize
  omega

/-- Counting on from `n`. Kind: L -/
lemma range_append_range' (n m : ℕ) : List.range n ++ List.range' n m = List.range (n + m) := by
  rw [List.range_eq_range', List.range_eq_range', ← List.range'_append]
  simp

/-- A counter that stands at slot `k` goes on to slot `k + 1`. Kind: L -/
lemma toNat_advance_of_slotOf {i : UInt16} {k : ℕ} (h : i.toNat = slotOf k) :
    (advance i).toNat = slotOf (k + 1) := by
  rw [toNat_advance, h, slotOf, slotOf, Nat.mod_add_mod]

/-- A post call writes the slots from `head` on, and moves `head` past them. Kind: L -/
lemma recordSlots_eq {Q : WrQueue} {k : ℕ} (h : Q.head.toNat = slotOf k) (rs : List Recv) :
    recordSlots Q rs = (List.range' k rs.length).map slotOf ∧
      (rs.foldl WrQueue.record Q).head.toNat = slotOf (k + rs.length) := by
  induction rs generalizing Q k with
  | nil => exact ⟨rfl, h⟩
  | cons r rs ih =>
      obtain ⟨hslots, hhead⟩ := ih (Q := Q.record r) (k := k + 1) (toNat_advance_of_slotOf h)
      rw [recordSlots, hslots, h, List.foldl_cons, hhead, List.length_cons, List.range'_succ,
        List.map_cons, Nat.add_assoc, Nat.add_comm 1]
      exact ⟨rfl, rfl⟩

/-- A poll reads the slots from `tail` on, one per receive completion. Kind: L -/
lemma popSlots_eq {Q : WrQueue} {k : ℕ} (h : Q.tail.toNat = slotOf k) (cs : List Cqe) :
    popSlots cs Q = (List.range' k (cs.countP Cqe.recvBit)).map slotOf ∧
      (pollLoop cs Q).1.tail.toNat = slotOf (k + cs.countP Cqe.recvBit) := by
  induction cs generalizing Q k with
  | nil => exact ⟨rfl, h⟩
  | cons c cs ih =>
      by_cases hbit : c.recvBit
      · obtain ⟨hslots, htail⟩ := ih (Q := { Q with tail := advance Q.tail }) (k := k + 1)
          (toNat_advance_of_slotOf h)
        rw [List.countP_cons_of_pos hbit, List.range'_succ, List.map_cons, popSlots, if_pos hbit,
          hslots, h, pollLoop, if_pos hbit, ← Nat.add_assoc, Nat.add_right_comm]
        exact ⟨rfl, htail⟩
      · obtain ⟨hslots, htail⟩ := ih h
        rw [List.countP_cons_of_neg hbit, popSlots, if_neg hbit, hslots, pollLoop, if_neg hbit]
        exact ⟨rfl, htail⟩

/-- A poll leaves the head of the ring alone. Kind: L -/
lemma head_pollLoop (cs : List Cqe) (Q : WrQueue) : (pollLoop cs Q).1.head = Q.head := by
  induction cs generalizing Q with
  | nil => rfl
  | cons c cs ih =>
      rw [pollLoop]
      split
      · exact ih _
      · exact ih _

/-- Where the receives of the ring went, and where the next one goes. Kind: D -/
structure Traced.Slots (h : Traced) : Prop where
  pushed : h.pushed = (List.range h.ring.length).map slotOf
  head : h.sys.cqRing.head.toNat = slotOf h.ring.length

/-- Only a post moves the head of the CQ's ring. Kind: L -/
lemma head_of_step {c : Config} {s s' : System} {a : Act} (hs : step c s a = some s')
    (hpost : ∀ q ws k, a ≠ .postRecv q ws k) : s'.cqRing.head = s.cqRing.head := by
  cases a with
  | postRecv q ws k => exact absurd rfl (hpost q ws k)
  | poll n =>
      obtain ⟨-, rfl⟩ := step_poll_iff.mp hs
      simp only [System.setPopped, System.popped]
      cases c.mapCqToSrq with
      | none => exact head_pollLoop _ _
      | some k => rfl
  | postSrqRecv i ws k =>
      obtain ⟨-, _, -, rfl⟩ := step_postSrqRecv_iff.mp hs
      rfl
  | take q =>
      obtain ⟨_, -, _, -, rfl⟩ := step_take_iff.mp hs
      rfl
  | complete q ok bit =>
      obtain ⟨-, _, -, rfl⟩ := step_complete_iff.mp hs
      rfl
  | completeSend q wrId ok bit =>
      obtain ⟨-, rfl⟩ := step_completeSend_iff.mp hs
      rfl

/-- What a step does to the history of posts. Kind: L -/
lemma ring_of_stepTraced {c : Config} {h h' : Traced} {a : Act} (hs : stepTraced c h a = some h') :
    step c h.sys a = some h'.sys ∧
      ((∃ q ws k rs, a = .postRecv q ws k ∧ toRecvs c.lkeys (.qp q) h.sys.posts ws = some rs ∧
          h'.sys.cqRing = rs.foldl WrQueue.record h.sys.cqRing ∧ h'.ring = h.ring ++ rs ∧
          h'.pushed = h.pushed ++ recordSlots h.sys.cqRing rs) ∨
        (∀ q ws k, a ≠ .postRecv q ws k) ∧ h'.ring = h.ring ∧ h'.pushed = h.pushed) := by
  simp only [stepTraced, Option.bind_eq_bind, Option.bind_eq_some_iff] at hs
  obtain ⟨sys, hsys, hs⟩ := hs
  cases a with
  | postRecv q ws k =>
      simp only [Option.bind_eq_some_iff, Option.some.injEq] at hs
      obtain ⟨rs, hrs, rfl⟩ := hs
      refine ⟨hsys, .inl ⟨q, ws, k, rs, rfl, hrs, ?_, rfl, rfl⟩⟩
      obtain ⟨-, rs', hrs', rfl⟩ := step_postRecv_iff.mp hsys
      rw [hrs, Option.some.injEq] at hrs'
      rw [hrs']
  | postSrqRecv i ws k | take q | complete q ok bit | completeSend q wrId ok bit | poll n =>
      rw [Option.some.injEq] at hs
      rw [← hs]
      exact ⟨hsys, .inr ⟨by simp, rfl, rfl⟩⟩

/-- **Every step keeps the slots.** Kind: L -/
lemma Traced.Slots.step {c : Config} {h h' : Traced} {a : Act} (hslots : h.Slots)
    (hs : stepTraced c h a = some h') : h'.Slots := by
  obtain ⟨hsys, ⟨q, ws, k, rs, -, hrs, hring, hring', hpushed⟩ | ⟨hpost, hring, hpushed⟩⟩ :=
    ring_of_stepTraced hs
  · obtain ⟨hrecord, hhead⟩ := recordSlots_eq hslots.head rs
    refine ⟨?_, ?_⟩
    · rw [hpushed, hring', hrecord, hslots.pushed, List.length_append, ← List.map_append,
        range_append_range']
    · rw [hring, hhead, hring', List.length_append]
  · refine ⟨?_, ?_⟩
    · rw [hpushed, hring]
      exact hslots.pushed
    · rw [head_of_step hsys hpost, hring]
      exact hslots.head

/-- They hold at the start. Kind: L -/
lemma Fresh.slots {h : Traced} (hf : Fresh h) : h.Slots := by
  refine ⟨by rw [hf.pushed, hf.ring]; rfl, ?_⟩
  rw [hf.sys.cqRing.1, hf.ring]
  rfl

/-! ## Numbers -/

/-- The numbers of a call's receives are those of the call. Kind: L -/
lemma post_mem_toRecvs {lkeys : UInt32 → Option MrShm} {place : Place} {n : ℕ} {ws : List RecvWr}
    {rs : List Recv} (h : toRecvs lkeys place n ws = some rs) {r : Recv} (hr : r ∈ rs) :
    n ≤ r.post ∧ r.post < n + ws.length := by
  have hmem : r.post ∈ List.range' n ws.length := post_toRecvs h ▸ List.mem_map_of_mem hr
  simpa [List.mem_range'_1] using hmem

/-- The receive with this number has not been polled. Kind: D -/
def Pending (s : System) (n : ℕ) : Prop := n ∈ s.unpopped.map Recv.post

/-- A post call makes its own numbers pending. Kind: L -/
lemma pending_of_post {s : System} {rs : List Recv} {k n : ℕ}
    (h : n ∈ (s.cq.filterMap Cqe.recv ++ (s.outstanding ++ rs.take k)).map Recv.post) :
    Pending s n ∨ n ∈ rs.map Recv.post := by
  rw [← List.append_assoc, List.map_append, List.mem_append] at h
  refine h.imp_right fun hn => ?_
  rw [List.map_take] at hn
  exact List.mem_of_mem_take hn

/-- **What becomes pending in a step is new.** Kind: L -/
lemma pending_of_step {c : Config} {s s' : System} {a : Act} (hs : step c s a = some s') :
    s.posts ≤ s'.posts ∧ ∀ n, Pending s' n → Pending s n ∨ (s.posts ≤ n ∧ n < s'.posts) := by
  have hpost : ∀ {place ws rs}, toRecvs c.lkeys place s.posts ws = some rs → ∀ n,
      n ∈ rs.map Recv.post → s.posts ≤ n ∧ n < s.posts + ws.length := by
    rintro place ws rs hrs n hn
    obtain ⟨r, hr, rfl⟩ := List.mem_map.mp hn
    exact post_mem_toRecvs hrs hr
  cases a with
  | postRecv q ws k =>
      obtain ⟨-, rs, hrs, rfl⟩ := step_postRecv_iff.mp hs
      exact ⟨Nat.le_add_right _ _, fun n hn => (pending_of_post hn).imp_right (hpost hrs n)⟩
  | postSrqRecv i ws k =>
      obtain ⟨-, rs, hrs, rfl⟩ := step_postSrqRecv_iff.mp hs
      exact ⟨Nat.le_add_right _ _, fun n hn => (pending_of_post hn).imp_right (hpost hrs n)⟩
  | take q =>
      obtain ⟨i, -, rs, hrs, rfl⟩ := step_take_iff.mp hs
      have hposts : rs.map Recv.post = s.outstanding.map Recv.post :=
        map_retarget (fun _ _ => rfl) hrs
      refine ⟨le_rfl, fun n hn => .inl ?_⟩
      unfold Pending System.unpopped at hn ⊢
      rwa [List.map_append, hposts, ← List.map_append] at hn
  | complete q ok bit =>
      obtain ⟨-, r, hr, rfl⟩ := step_complete_iff.mp hs
      refine ⟨le_rfl, fun n hn => .inl ?_⟩
      unfold Pending System.unpopped at hn ⊢
      obtain ⟨u, hu, rfl⟩ := List.mem_map.mp hn
      rw [List.filterMap_append, List.mem_append, List.mem_append] at hu
      apply List.mem_map_of_mem
      rw [List.mem_append]
      rcases hu with (hu | hu) | hu
      · exact .inl hu
      · have heq : u = r := by simpa using hu
        exact .inr (heq ▸ List.mem_of_find?_eq_some hr)
      · exact .inr (List.mem_of_mem_eraseP hu)
  | completeSend q wrId ok bit =>
      obtain ⟨-, rfl⟩ := step_completeSend_iff.mp hs
      refine ⟨le_rfl, fun n hn => .inl ?_⟩
      simpa [Pending, System.unpopped] using hn
  | poll n =>
      obtain ⟨-, rfl⟩ := step_poll_iff.mp hs
      have hposts : (s.setPopped c (pollLoop (s.cq.take n) (s.popped c)).1).posts = s.posts := by
        unfold System.setPopped
        cases c.mapCqToSrq <;> rfl
      refine ⟨hposts.ge, fun m hm => .inl ?_⟩
      unfold Pending System.unpopped at hm ⊢
      simp only [setPopped_outstanding, List.map_append, List.mem_append] at hm ⊢
      exact hm.imp_left fun h =>
        (((List.drop_sublist n s.cq).filterMap Cqe.recv).map Recv.post).subset h

/-- The receives of the ring are numbered in the order they were noted. Kind: D -/
structure Traced.Numbered (h : Traced) : Prop where
  increasing : (h.ring.map Recv.post).Pairwise (· < ·)
  below : ∀ r ∈ h.ring, r.post < h.sys.posts

/-- **Every step keeps the numbers.** Kind: L -/
lemma Traced.Numbered.step {c : Config} {h h' : Traced} {a : Act} (hnum : h.Numbered)
    (hs : stepTraced c h a = some h') : h'.Numbered := by
  obtain ⟨hsys, ⟨q, ws, k, rs, rfl, hrs, -, hring, -⟩ | ⟨-, hring, -⟩⟩ := ring_of_stepTraced hs
  · have hposts : h'.sys.posts = h.sys.posts + ws.length := by
      obtain ⟨-, _, -, hsys⟩ := step_postRecv_iff.mp hsys
      rw [← hsys]
    refine ⟨?_, fun r hr => ?_⟩
    · rw [hring, List.map_append, List.pairwise_append, post_toRecvs hrs]
      refine ⟨hnum.increasing, List.pairwise_lt_range', fun m hm n hn => ?_⟩
      obtain ⟨r, hr, rfl⟩ := List.mem_map.mp hm
      have hlt := hnum.below r hr
      rw [List.mem_range'_1] at hn
      omega
    · rw [hring, List.mem_append] at hr
      rcases hr with hr | hr
      · have hlt := hnum.below r hr
        omega
      · have hlt := post_mem_toRecvs hrs hr
        omega
  · refine ⟨hring ▸ hnum.increasing, fun r hr => ?_⟩
    rw [hring] at hr
    exact (hnum.below r hr).trans_le (pending_of_step hsys).1

/-- They are right at the start. Kind: L -/
lemma Fresh.numbered {h : Traced} (hf : Fresh h) : h.Numbered := by
  refine ⟨?_, ?_⟩
  · rw [hf.ring]
    exact .nil
  · rw [hf.ring]
    simp

/-! ## One queue pair -/

/-- **The condition for a step with one queue pair**: posts are accepted whole and leave at most
`2^16` receives unpolled, receives complete successfully, and a send completion has a send's opcode.
Nothing is posted to an SRQ. Kind: D -/
def OneQp (h : Traced) : Act → Prop
  | .postRecv _ ws k => k = ws.length ∧ h.sys.unpopped.length + ws.length ≤ 65536
  | .postSrqRecv _ _ _ => False
  | .take _ => True
  | .complete _ ok _ => ok = true
  | .completeSend _ _ _ bit => bit = false
  | .poll _ => True

instance (h : Traced) : (a : Act) → Decidable (OneQp h a)
  | .postRecv _ _ _ => inferInstanceAs (Decidable (_ ∧ _))
  | .postSrqRecv _ _ _ => inferInstanceAs (Decidable False)
  | .take _ => inferInstanceAs (Decidable True)
  | .complete _ _ _ => inferInstanceAs (Decidable (_ = _))
  | .completeSend _ _ _ _ => inferInstanceAs (Decidable (_ = _))
  | .poll _ => inferInstanceAs (Decidable True)

/-- What holds between the steps with one queue pair: besides delivery, the receives that were
polled, then those not yet polled, are those of the ring, and the slots read so far are the first
ones. Kind: D -/
structure InOrder (c : Config) (h : Traced) : Prop where
  delivers : Delivers c h.sys
  places : ∀ r ∈ h.sys.outstanding, r.place = .qp 0
  bits : ∀ e ∈ h.sys.log, e.1.recvBit = e.1.recv.isSome
  history : h.sys.log.filterMap (fun e => e.1.recv) ++ h.sys.unpopped = h.ring
  tail : h.sys.cqRing.tail.toNat = slotOf h.polled.length
  popped : h.popped = (List.range h.polled.length).map slotOf

section OneQp

variable {c : Config} {h h' : Traced} {a : Act} {e : Bool}

/-- The only queue pair of a CQ without SRQ leaves the CQ its own ring. Kind: L -/
lemma mapCqToSrq_of_oneQp (hc : c.qps = [⟨none, e⟩]) : c.mapCqToSrq = none := by
  unfold Config.mapCqToSrq
  rw [hc]
  simp

/-- With one queue pair every step is in ring order. Kind: L -/
lemma InOrder.inRingOrder (hc : c.qps = [⟨none, e⟩]) (hin : InOrder c h) (hone : OneQp h a)
    (hs : step c h.sys a = some h'.sys) : InRingOrder c h.sys a := by
  cases a with
  | postRecv q ws k => exact ⟨mapCqToSrq_of_oneQp hc, hone.1, hone.2⟩
  | postSrqRecv i ws k => exact absurd hone not_false
  | take q => trivial
  | complete q ok bit =>
      obtain ⟨hbit, r, hr, -⟩ := step_complete_iff.mp hs
      refine ⟨hbit hone, ?_⟩
      have hq : Place.qp q = .qp 0 := by
        have hplace := hin.places r (List.mem_of_find?_eq_some hr)
        have hfound : r.place = .qp q := by simpa using List.find?_some hr
        exact hfound.symm.trans hplace
      cases hout : h.sys.outstanding with
      | nil =>
          rw [hout] at hr
          exact absurd hr (by simp)
      | cons u rest =>
          have hu := hin.places u (by rw [hout]; exact List.mem_cons_self)
          rw [List.head?_cons, Option.map_some, hu, hq]
  | completeSend q wrId ok bit => exact hone
  | poll n => trivial

/-- It holds at the start. Kind: L -/
lemma Fresh.inOrder (hf : Fresh h) (c : Config) : InOrder c h where
  delivers := hf.sys.delivers c
  places := by simp [hf.sys.outstanding]
  bits := by simp [hf.sys.log]
  history := by simp [hf.sys.log, System.unpopped, hf.sys.cq, hf.sys.outstanding, hf.ring]
  tail := by
    rw [hf.sys.cqRing.2, Traced.polled, hf.sys.log]
    rfl
  popped := by
    rw [hf.popped, Traced.polled, hf.sys.log]
    rfl

/-- A post call puts its receives at its queue pair. Kind: L -/
lemma place_toRecvs {lkeys : UInt32 → Option MrShm} {place : Place} {n : ℕ} {ws : List RecvWr}
    {rs : List Recv} (h : toRecvs lkeys place n ws = some rs) : ∀ r ∈ rs, r.place = place := by
  induction ws generalizing n rs with
  | nil =>
      rw [toRecvs, Option.some.injEq] at h
      rw [← h]
      simp
  | cons w ws ih =>
      simp only [toRecvs, Option.bind_eq_bind, Option.bind_eq_some_iff, Option.some.injEq] at h
      obtain ⟨records, -, rest, hrest, rfl⟩ := h
      intro r hr
      rcases List.mem_cons.mp hr with rfl | hr
      · rfl
      · exact ih hrest r hr

/-- A post call leaves the tail of the ring alone. Kind: L -/
lemma tail_foldl_record (Q : WrQueue) (rs : List Recv) :
    (rs.foldl WrQueue.record Q).tail = Q.tail := by
  induction rs generalizing Q with
  | nil => rfl
  | cons r rs ih => exact ih _

/-- A post keeps the order. Kind: L -/
lemma InOrder.postRecv {q k : ℕ} {ws : List RecvWr} (hc : c.qps = [⟨none, e⟩]) (hin : InOrder c h)
    (hone : OneQp h (.postRecv q ws k)) (hs : stepTraced c h (.postRecv q ws k) = some h')
    (hdel : Delivers c h'.sys) : InOrder c h' := by
  simp only [stepTraced, Option.bind_eq_bind, Option.bind_eq_some_iff, Option.some.injEq] at hs
  obtain ⟨sys, hsys, rs', hrs', rfl⟩ := hs
  obtain ⟨⟨hq, -⟩, rs, hrs, rfl⟩ := step_postRecv_iff.mp hsys
  rw [hrs, Option.some.injEq] at hrs'
  subst hrs'
  rw [hc, List.length_singleton, Nat.lt_one_iff] at hq
  have htake : rs.take k = rs := List.take_of_length_le (by rw [length_toRecvs hrs, hone.1])
  refine ⟨hdel, ?_, hin.bits, ?_, ?_, hin.popped⟩
  · intro r hr
    rw [htake, List.mem_append] at hr
    rcases hr with hr | hr
    · exact hin.places r hr
    · rw [place_toRecvs hrs r hr, hq]
  · rw [← hin.history]
    simp [System.unpopped, htake]
  · simp only [tail_foldl_record]
    exact hin.tail

/-- A completion keeps the order: nothing changes in the ring, and the receive is one of those not
yet polled. Kind: L -/
lemma InOrder.completion {sys : System} {x : Cqe} (hin : InOrder c h) (hdel : Delivers c sys)
    (hring : sys.cqRing = h.sys.cqRing) (hlog : sys.log = h.sys.log)
    (hout : h.sys.outstanding = x.recv.toList ++ sys.outstanding)
    (hcq : sys.cq = h.sys.cq ++ [x]) : InOrder c { h with sys := sys } := by
  have hpolled : Traced.polled { h with sys := sys } = h.polled := by
    simp only [Traced.polled, hlog]
  refine ⟨hdel, fun r hr => hin.places r ?_, by simp only [hlog]; exact hin.bits, ?_, ?_, ?_⟩
  · rw [hout]
    exact List.mem_append_right _ hr
  · rw [← hin.history]
    simp only [hlog, System.unpopped, hcq, hout, List.filterMap_append, List.append_assoc]
    cases hrecv : x.recv <;> simp [hrecv]
  · simp only [hring, hpolled]
    exact hin.tail
  · simp only [hpolled]
    exact hin.popped

/-- A poll keeps the order: what it returns moves to the receives polled. Kind: L -/
lemma InOrder.poll {n : ℕ} (hc : c.qps = [⟨none, e⟩]) (hin : InOrder c h)
    (hs : stepTraced c h (.poll n) = some h') (hdel : Delivers c h'.sys) : InOrder c h' := by
  have hsel := mapCqToSrq_of_oneQp hc
  have hpop : h.sys.popped c = h.sys.cqRing := by simp only [System.popped, hsel]
  obtain ⟨-, hout⟩ := hin.delivers.pollLoop n
  obtain ⟨hslots, htail⟩ := popSlots_eq hin.tail (h.sys.cq.take n)
  simp only [stepTraced, step_poll_iff, System.setPopped, hsel, hout, Option.bind_eq_bind,
    Option.bind_eq_some_iff, Option.some.injEq] at hs
  obtain ⟨_, ⟨-, rfl⟩, rfl⟩ := hs
  rw [hpop] at hdel ⊢
  have hcount : ∀ cs : List Cqe, ((cs.map fun x => (x, x.recv.bind Recv.expected)).filter
      fun x => x.1.recvBit).length = cs.countP Cqe.recvBit := by
    intro cs
    rw [← List.countP_eq_length_filter, List.countP_map]
    rfl
  refine ⟨hdel, hin.places, ?_, ?_, ?_, ?_⟩
  · intro x hx
    rw [List.mem_append] at hx
    rcases hx with hx | hx
    · exact hin.bits x hx
    · obtain ⟨y, hy, rfl⟩ := List.mem_map.mp hx
      exact hin.delivers.bits y (List.mem_of_mem_take hy)
  · rw [← hin.history, System.unpopped, System.unpopped, List.filterMap_append,
      List.filterMap_map, List.append_assoc,
      ← List.append_assoc (List.filterMap _ (h.sys.cq.take n))]
    congr 2
    have hcat : (h.sys.cq.take n).filterMap Cqe.recv ++ (h.sys.cq.drop n).filterMap Cqe.recv =
        h.sys.cq.filterMap Cqe.recv := by
      rw [← List.filterMap_append, List.take_append_drop]
    exact hcat
  · rw [Traced.polled, List.filter_append, List.length_append, hcount]
    exact htail
  · rw [Traced.polled, List.filter_append, List.length_append, hcount, hslots, hin.popped,
      ← List.map_append, range_append_range']
    rfl

/-- **Every step with one queue pair keeps the order.** Kind: L -/
lemma InOrder.step (hc : c.qps = [⟨none, e⟩]) (hin : InOrder c h) (hone : OneQp h a)
    (hs : stepTraced c h a = some h') : InOrder c h' := by
  obtain ⟨hsys, -⟩ := ring_of_stepTraced hs
  have hord := hin.inRingOrder hc hone hsys
  have hdel := hin.delivers.step hord hsys
  cases a with
  | postRecv q ws k => exact hin.postRecv hc hone hs hdel
  | postSrqRecv i ws k => exact absurd hone not_false
  | take q =>
      have hnone : c.srqOf q = none := by
        unfold Config.srqOf
        rw [hc]
        cases q <;> rfl
      simp [Client.step, hnone] at hsys
  | complete q ok bit =>
      obtain ⟨r, rest, hout, -, hsys'⟩ := complete_of_head hord.2 hsys
      simp only [stepTraced, hsys, ← hsys', Option.bind_eq_bind, Option.bind_some,
        Option.some.injEq] at hs hdel
      rw [← hs]
      exact hin.completion (x := ⟨q, r.wrId, ok, bit, some r⟩) hdel rfl rfl hout rfl
  | completeSend q wrId ok bit =>
      simp only [stepTraced, step_completeSend_iff, Option.bind_eq_bind, Option.bind_eq_some_iff,
        Option.some.injEq] at hs
      obtain ⟨_, ⟨-, rfl⟩, rfl⟩ := hs
      exact hin.completion hdel rfl rfl rfl rfl
  | poll n => exact hin.poll hc hs hdel

end OneQp

/-- When the receive bits and the consumed records are right, the receive completions of a log
consumed the records of their receives. Kind: L -/
lemma map_snd_filter {log : List (Cqe × Option SgeQueue)}
    (hbits : ∀ e ∈ log, e.1.recvBit = e.1.recv.isSome)
    (hlog : ∀ e ∈ log, e.2 = e.1.recv.bind Recv.expected) :
    (log.filter fun e => e.1.recvBit).map Prod.snd =
        (log.filterMap fun e => e.1.recv).map Recv.expected ∧
      log.filterMap Prod.snd = (log.filterMap fun e => e.1.recv).filterMap Recv.expected := by
  induction log with
  | nil => exact ⟨rfl, rfl⟩
  | cons e log ih =>
      obtain ⟨hfirst, hrest⟩ := List.forall_mem_cons.mp hbits
      obtain ⟨hfirst', hrest'⟩ := List.forall_mem_cons.mp hlog
      obtain ⟨hsnd, hfreed⟩ := ih hrest hrest'
      cases hrecv : e.1.recv with
      | none =>
          rw [hrecv, Option.isSome_none] at hfirst
          rw [hrecv, Option.bind_none] at hfirst'
          refine ⟨?_, ?_⟩
          · simp [hfirst, hrecv, hsnd]
          · simp [hrecv, hfirst', hfreed]
      | some r =>
          rw [hrecv, Option.isSome_some] at hfirst
          rw [hrecv, Option.bind_some] at hfirst'
          refine ⟨?_, ?_⟩
          · simp [hfirst, hrecv, hfirst', hsnd]
          · simp [List.filterMap_cons, hrecv, hfirst', hfreed]

/-- The block of a receive with elements. Kind: L -/
lemma expected_eq_some {r : Recv} {b : SgeQueue} :
    r.expected = some b ↔ r.records ≠ [] ∧ b = ⟨r.post, r.records⟩ := by
  unfold Recv.expected
  split
  · next hlen =>
      rw [← List.length_pos_iff, Option.some.injEq]
      exact ⟨fun hb => ⟨by omega, hb.symm⟩, fun hb => hb.2.symm⟩
  · next hlen =>
      rw [not_not, List.length_eq_zero_iff] at hlen
      simp [hlen]

/-- The blocks of receives with increasing numbers are different. Kind: L -/
lemma nodup_filterMap_expected {rs : List Recv} (h : (rs.map Recv.post).Pairwise (· < ·)) :
    (rs.filterMap Recv.expected).Nodup := by
  rw [List.pairwise_map] at h
  refine List.Pairwise.filterMap _ (fun r u hlt b hb b' hb' heq => ?_) h
  obtain ⟨-, rfl⟩ := expected_eq_some.mp hb
  obtain ⟨-, rfl⟩ := expected_eq_some.mp hb'
  rw [SgeQueue.mk.injEq] at heq
  omega

/-- Among the first `m` of them, the block of the `k`-th is there exactly when `k < m`. Kind: L -/
lemma mem_filterMap_expected_take {rs : List Recv} (h : (rs.map Recv.post).Pairwise (· < ·))
    {k m : ℕ} (hk : k < rs.length) (hne : rs[k].records ≠ []) :
    ⟨rs[k].post, rs[k].records⟩ ∈ (rs.take m).filterMap Recv.expected ↔ k < m := by
  rw [List.mem_filterMap]
  constructor
  · rintro ⟨r, hr, hb⟩
    obtain ⟨-, heq⟩ := expected_eq_some.mp hb
    rw [SgeQueue.mk.injEq] at heq
    obtain ⟨j, hj, rfl⟩ := List.mem_take_iff_getElem.mp hr
    -- equal numbers are at equal positions
    have hnodup : (rs.map Recv.post).Nodup := h.imp Nat.ne_of_lt
    have hj' : j < (rs.map Recv.post).length := by
      rw [List.length_map]
      omega
    have hk' : k < (rs.map Recv.post).length := by rwa [List.length_map]
    have hsame : (rs.map Recv.post)[j] = (rs.map Recv.post)[k] := by simpa using heq.1.symm
    have hjk : j = k := hnodup.getElem_inj_iff.mp hsame
    omega
  · intro hkm
    exact ⟨rs[k], List.mem_take_iff_getElem.mpr ⟨k, by omega, rfl⟩,
      expected_eq_some.mpr ⟨hne, rfl⟩⟩

/-- **Receive ring order for one queue pair**: in every run on a CQ that serves one queue pair
without SRQ, whose posts are accepted whole and whose receives complete in order, with at most
`2^16` unpolled at a time: the `k`-th receive completion ever polled consumes the record of the
`k`-th receive ever posted; the block of every polled receive has been freed once, and no other;
and the `k`-th post and the `k`-th pop use slot `k % 2^16`, inside the ring.
Source: `cmd.c` `ibv_cmd_post_recv`, `ibv_cmd_poll_cq`
Kind: P -/
theorem ring_order_of_oneQp (c : Config) (e : Bool) (hc : c.qps = [⟨none, e⟩]) (s t : Traced)
    (hs : Fresh s) (acts : List Act) (hone : Along (stepTraced c) OneQp s acts)
    (hrun : exec (stepTraced c) s acts = some t) :
    t.polled.map Prod.snd <+: t.ring.map Recv.expected ∧
      (∀ k (hk : k < t.ring.length), t.ring[k].records ≠ [] →
        t.freed.count ⟨t.ring[k].post, t.ring[k].records⟩ = if k < t.polled.length then 1 else 0) ∧
      t.pushed = (List.range t.ring.length).map slotOf ∧
      t.popped = (List.range t.polled.length).map slotOf ∧
      ∀ i ∈ t.pushed ++ t.popped, i < wrQueueSize := by
  have hin : InOrder c t :=
    exec_invariant_along (fun _ _ _ h hone hstep => h.step hc hone hstep) (hs.inOrder c) hone hrun
  have hslots : t.Slots := exec_invariant (fun _ _ _ h hstep => h.step hstep) hs.slots hrun
  have hnum : t.Numbered := exec_invariant (fun _ _ _ h hstep => h.step hstep) hs.numbered hrun
  obtain ⟨hsnd, hfreed⟩ := map_snd_filter hin.bits hin.delivers.log
  have hlen : t.polled.length = (t.sys.log.filterMap fun e => e.1.recv).length := by
    rw [← List.length_map (f := Prod.snd), Traced.polled, hsnd, List.length_map]
  have htake : t.sys.log.filterMap (fun e => e.1.recv) = t.ring.take t.polled.length := by
    rw [hlen, ← hin.history, List.take_left]
  refine ⟨?_, fun k hk hne => ?_, hslots.pushed, hin.popped, fun i hi => ?_⟩
  · rw [Traced.polled, hsnd, ← hin.history, List.map_append]
    exact List.prefix_append _ _
  · rw [Traced.freed, hfreed, htake]
    have hinc : ((t.ring.take t.polled.length).map Recv.post).Pairwise (· < ·) := by
      rw [List.map_take]
      exact hnum.increasing.sublist (List.take_sublist _ _)
    rw [(nodup_filterMap_expected hinc).count]
    exact if_congr (mem_filterMap_expected_take hnum.increasing hk hne) rfl rfl
  · rw [hslots.pushed, hin.popped, ← List.map_append] at hi
    obtain ⟨k, -, rfl⟩ := List.mem_map.mp hi
    exact slotOf_lt k

/-- One queue pair, and the region with key `5`. Kind: D -/
def oneQp : Config := ⟨[⟨none, false⟩], twoQps.lkeys⟩

/-- Queues as they were created. Kind: D -/
def freshTraced : Traced := ⟨freshSystem, [], [], []⟩

/-- They are fresh. Kind: L -/
lemma fresh_freshTraced : Fresh freshTraced := ⟨initial_freshSystem, rfl, rfl, rfl⟩

/-- A receive of one element. Kind: D -/
def sampleWr : RecvWr := .ofParts 100 [⟨0x10000, 32, 5⟩] (by decide)

/-- Two receives in one call, the second polled together with a send. Kind: D -/
def sampleActs : List Act :=
  [.postRecv 0 [sampleWr, sampleWr] 2, .complete 0 true true, .poll 1,
    .completeSend 0 7 true false, .complete 0 true true, .poll 2]

/-- Both receives of the sample are polled in order. Kind: C -/
theorem ring_order_two_recvs :
    ∃ t, exec (stepTraced oneQp) freshTraced sampleActs = some t ∧ t.polled.length = 2 ∧
      t.polled.map Prod.snd <+: t.ring.map Recv.expected ∧ t.freed.length = 2 ∧
      t.popped = [0, 1] := by
  refine ⟨_, rfl, rfl, ?_, rfl, rfl⟩
  exact (ring_order_of_oneQp oneQp false rfl freshTraced _ fresh_freshTraced sampleActs
    (along_of_alongB _ (by decide)) rfl).1

/-! ## Capacity -/

/-- **A post overwrites a record that is still needed**: a request takes the slot of an older one,
the last that went there, which has not been polled. Kind: D -/
def Overwrites (c : Config) (h : Traced) : Act → Prop
  | .postRecv q ws _ => ∃ rs, toRecvs c.lkeys (.qp q) h.sys.posts ws = some rs ∧
      ∃ i j, i < j ∧ h.ring.length ≤ j ∧ j < h.ring.length + rs.length ∧
        (h.pushed ++ recordSlots h.sys.cqRing rs)[i]? =
          (h.pushed ++ recordSlots h.sys.cqRing rs)[j]? ∧
        (∀ l, i < l → l < j → (h.pushed ++ recordSlots h.sys.cqRing rs)[l]? ≠
          (h.pushed ++ recordSlots h.sys.cqRing rs)[j]?) ∧
        ∀ hi : i < h.ring.length, Pending h.sys h.ring[i].post
  | _ => False

/-- **The condition for a step**: after a post every unpolled receive is among the last `2^16`.
Kind: D -/
def InWindow (h : Traced) : Act → Prop
  | .postRecv _ ws _ => ws.length ≤ 65536 ∧ ∀ i (hi : i < h.ring.length),
      Pending h.sys h.ring[i].post → h.ring.length + ws.length ≤ i + 65536
  | _ => True

/-- What holds between such steps. Kind: D -/
structure Near (h : Traced) : Prop where
  slots : h.Slots
  numbered : h.Numbered
  near : ∀ i (hi : i < h.ring.length), Pending h.sys h.ring[i].post → h.ring.length ≤ i + 65536

/-- Two receives less than a round apart are in different slots. Kind: L -/
lemma slotOf_ne {i j : ℕ} (hij : i < j) (hlt : j < i + 65536) : slotOf i ≠ slotOf j := by
  unfold slotOf
  omega

/-- A round later the slot is the same. Kind: L -/
lemma slotOf_add (i : ℕ) : slotOf (i + 65536) = slotOf i := by
  unfold slotOf
  omega

section Capacity

variable {c : Config} {h h' : Traced} {a : Act}

/-- The slots of a ring with one more call. Kind: L -/
lemma Traced.Slots.getElem? (hslots : h.Slots) (rs : List Recv) {k : ℕ}
    (hk : k < h.ring.length + rs.length) :
    (h.pushed ++ recordSlots h.sys.cqRing rs)[k]? = some (slotOf k) := by
  rw [hslots.pushed, (recordSlots_eq hslots.head rs).1, ← List.map_append, range_append_range',
    List.getElem?_map, List.getElem?_range hk]
  rfl

/-- **One post overwrites nothing exactly when it stays in the window.** Kind: L -/
lemma Near.not_overwrites_iff (hnear : Near h) (hs : stepTraced c h a = some h') :
    ¬ Overwrites c h a ↔ InWindow h a := by
  obtain ⟨-, ⟨q, ws, k, rs, rfl, hrs, -, -, -⟩ | ⟨hpost, -, -⟩⟩ := ring_of_stepTraced hs
  · have hlen := length_toRecvs hrs
    have hget := fun k => hnear.slots.getElem? rs (k := k)
    constructor
    · intro hno
      by_contra hwin
      apply hno
      refine ⟨rs, hrs, ?_⟩
      -- a request one round after the first of the call, or after a receive that is not polled
      have hover : ∃ i, h.ring.length ≤ i + 65536 ∧ i + 65536 < h.ring.length + rs.length ∧
          ∀ hi : i < h.ring.length, Pending h.sys h.ring[i].post := by
        by_cases hws : ws.length ≤ 65536
        · have hpend : ¬ ∀ i (hi : i < h.ring.length), Pending h.sys h.ring[i].post →
              h.ring.length + ws.length ≤ i + 65536 := fun hall => hwin ⟨hws, hall⟩
          push Not at hpend
          obtain ⟨i, hi, hpend, hlt⟩ := hpend
          exact ⟨i, hnear.near i hi hpend, by omega, fun _ => hpend⟩
        · exact ⟨h.ring.length, by omega, by omega, fun hi => absurd hi (by omega)⟩
      obtain ⟨i, hle, hlt, hpend⟩ := hover
      refine ⟨i, i + 65536, by omega, hle, hlt, ?_, fun l hil hlj => ?_, hpend⟩
      · rw [hget i (by omega), hget _ hlt, slotOf_add]
      · rw [hget l (by omega), hget _ hlt, slotOf_add, ne_eq, Option.some.injEq]
        exact (slotOf_ne hil hlj).symm
    · rintro ⟨hws, hwin⟩ ⟨rs', hrs', i, j, hij, hj, hjlt, hsame, -, hpend⟩
      rw [hrs, Option.some.injEq] at hrs'
      rw [← hrs'] at hjlt hsame
      rw [hget i (by omega), hget j hjlt, Option.some.injEq] at hsame
      have hround : i + 65536 ≤ j := by
        by_contra hlt
        exact slotOf_ne hij (by omega) hsame
      by_cases hi : i < h.ring.length
      · have hle := hwin i hi (hpend hi)
        omega
      · omega
  · cases a with
    | postRecv q ws k => exact absurd rfl (hpost q ws k)
    | postSrqRecv i ws k | take q | complete q ok bit | completeSend q wrId ok bit | poll n =>
        exact ⟨fun _ => trivial, fun _ => not_false⟩

/-- **A step in the window keeps the receives near.** Kind: L -/
lemma Near.step (hnear : Near h) (hwin : InWindow h a) (hs : stepTraced c h a = some h') :
    Near h' := by
  refine ⟨hnear.slots.step hs, hnear.numbered.step hs, fun i hi hpend => ?_⟩
  obtain ⟨hsys, hring⟩ := ring_of_stepTraced hs
  have hold : ∀ (hi' : i < h.ring.length), h'.ring[i] = h.ring[i] →
      Pending h.sys h.ring[i].post := by
    intro hi' heq
    rw [heq] at hpend
    rcases (pending_of_step hsys).2 _ hpend with hpend | ⟨hge, -⟩
    · exact hpend
    · have hlt := hnear.numbered.below _ (List.getElem_mem hi')
      omega
  rcases hring with ⟨q, ws, k, rs, rfl, hrs, -, hring, -⟩ | ⟨-, hring, -⟩
  · have hlen := length_toRecvs hrs
    obtain ⟨hws, hwin⟩ := hwin
    rw [hring, List.length_append] at hi ⊢
    by_cases hi' : i < h.ring.length
    · have hle := hwin i hi' (hold hi' (by simp [hring, hi']))
      omega
    · omega
  · have hi' : i < h.ring.length := by rwa [hring] at hi
    rw [hring]
    exact hnear.near i hi' (hold hi' (by simp [hring]))

end Capacity

/-- **Receive ring capacity**: for every set of queue pairs on a CQ and every run, no post
overwrites the record of a receive that has not been polled exactly when every post leaves all
unpolled receives among the last `2^16` of the ring.
Source: `cmd.c` `ibv_cmd_post_recv`
Kind: P -/
theorem noOverwrite_iff_inWindow (c : Config) (s t : Traced) (hs : Fresh s) (acts : List Act)
    (hrun : exec (stepTraced c) s acts = some t) :
    Along (stepTraced c) (fun h a => ¬ Overwrites c h a) s acts ↔
      Along (stepTraced c) InWindow s acts := by
  have hstart : Near s := by
    refine ⟨hs.slots, hs.numbered, fun i hi => ?_⟩
    rw [hs.ring] at hi
    exact absurd hi (Nat.not_lt_zero _)
  exact along_iff_along (fun _ _ _ h hstep => h.not_overwrites_iff hstep)
    (fun _ _ _ h hwin hstep => h.step hwin hstep) hstart hrun

/-- Two posts of one receive stay in the window. Kind: C -/
theorem noOverwrite_two_posts :
    Along (stepTraced oneQp) (fun h a => ¬ Overwrites oneQp h a) freshTraced
      [.postRecv 0 [sampleWr] 1, .postRecv 0 [sampleWr] 1] := by
  refine (noOverwrite_iff_inWindow oneQp freshTraced _ fresh_freshTraced _ rfl).mpr
    (along_cons ⟨by decide, fun i hi => absurd hi (Nat.not_lt_zero _)⟩ rfl
      (along_cons ⟨by decide, fun i hi _ => ?_⟩ rfl trivial))
  exact (by decide : 1 + 1 ≤ 65536).trans (Nat.le_add_left _ _)

/-- One receive more. Kind: D -/
def samplePost : Act := .postRecv 0 [sampleWr] 1

/-- What a post of one receive does while nothing has completed. Kind: L -/
lemma stepTraced_samplePost (h : Traced) :
    ∃ h' r, stepTraced oneQp h samplePost = some h' ∧ h'.ring = h.ring ++ [r] ∧
      h'.sys.outstanding = h.sys.outstanding ++ [r] ∧ h'.sys.cq = h.sys.cq :=
  ⟨_, _, rfl, rfl, rfl, rfl⟩

/-- After `n` posts and nothing else, all `n` receives are outstanding. Kind: L -/
lemma exec_samplePosts (n : ℕ) :
    ∃ t, exec (stepTraced oneQp) freshTraced (List.replicate n samplePost) = some t ∧
      t.ring.length = n ∧ t.sys.outstanding = t.ring ∧ t.sys.cq = [] := by
  induction n with
  | zero => exact ⟨freshTraced, rfl, rfl, rfl, rfl⟩
  | succ n ih =>
      obtain ⟨t, hrun, hring, hout, hcq⟩ := ih
      obtain ⟨t', r, hstep, hring', hout', hcq'⟩ := stepTraced_samplePost t
      refine ⟨t', ?_, ?_, ?_, hcq'.trans hcq⟩
      · rw [List.replicate_succ', exec_append_singleton_eq_some]
        exact ⟨t, hrun, hstep⟩
      · rw [hring', List.length_append, hring, List.length_singleton]
      · rw [hout', hring', hout]

/-- **`2^16 + 1` receives on one CQ**: none has completed, no more than `WR_QUEUE_SIZE` were ever
outstanding, and the last post overwrites the record of the first receive. Kind: C -/
theorem ring_overwrites_below_size :
    ∃ t u, exec (stepTraced oneQp) freshTraced (List.replicate 65536 samplePost) = some t ∧
      stepTraced oneQp t samplePost = some u ∧ u.sys.cq = [] ∧
      u.sys.outstanding.length = 65537 ∧ 65537 ≤ wrQueueSize ∧ Overwrites oneQp t samplePost := by
  obtain ⟨t, hrun, hring, hout, hcq⟩ := exec_samplePosts 65536
  obtain ⟨u, r, hstep, -, hout', hcq'⟩ := stepTraced_samplePost t
  have hslots : t.Slots :=
    exec_invariant (fun _ _ _ h hstep => h.step hstep) fresh_freshTraced.slots hrun
  have hrs : ∃ rs, toRecvs oneQp.lkeys (.qp 0) t.sys.posts [sampleWr] = some rs ∧ rs.length = 1 :=
    ⟨_, rfl, rfl⟩
  obtain ⟨rs, hrs, hlen⟩ := hrs
  refine ⟨t, u, hrun, hstep, hcq'.trans hcq, ?_, by decide, rs, hrs, 0, 65536, by decide,
    by omega, by omega, ?_, fun l hl hl' => ?_, fun hi => ?_⟩
  · rw [hout', List.length_append, hout, hring, List.length_singleton]
  · rw [hslots.getElem? rs (by omega), hslots.getElem? rs (by omega)]
    rfl
  · rw [hslots.getElem? rs (by omega), hslots.getElem? rs (by omega), ne_eq, Option.some.injEq]
    exact (slotOf_ne (i := 0) hl (by omega)).symm
  · unfold Pending System.unpopped
    rw [hcq, List.filterMap_nil, List.nil_append, hout]
    exact List.mem_map_of_mem (List.getElem_mem hi)

/-! ## Rejected receives -/

/-- **Which posts leave the records of the first `k` requests**: the ring moves by the whole list,
so only all of it can be, and only while there is room.
Kind: L -/
lemma holds_take_iff {Q : WrQueue} {q : List (Option SgeQueue)} (h : Q.Holds q) (rs : List Recv)
    (hlen : rs.length < 65536) {k : ℕ} (hk : k ≤ rs.length) :
    (rs.foldl WrQueue.record Q).Holds (q ++ (rs.take k).map Recv.expected) ↔
      k = rs.length ∧ q.length + rs.length ≤ 65536 := by
  constructor
  · intro hafter
    have hroom := hafter.room
    have hhead := hafter.head_eq
    have hbefore := h.head_eq
    have hslot : Q.head.toNat = slotOf Q.head.toNat := (Nat.mod_eq_of_lt Q.head.toNat_lt).symm
    rw [(recordSlots_eq hslot rs).2, tail_foldl_record, slotOf, List.length_append,
      List.length_map, List.length_take] at hhead
    rw [List.length_append, List.length_map, List.length_take] at hroom
    omega
  · rintro ⟨rfl, hroom⟩
    rw [List.take_length]
    exact h.recordAll rs hroom

/-- **Rejected receives**: for both post calls and every list that the HCA accepts the first `k`
requests of, the ring afterwards holds the records it held before and those of the `k` accepted
requests exactly when the whole list was accepted and there was room.
Source: `cmd.c` `ibv_cmd_post_recv`, `ibv_cmd_post_srq_recv`
Kind: P -/
theorem records_of_accepted_iff (c : Config) (s s' : System) (ws : List RecvWr) (k : ℕ)
    (hlen : ws.length < 65536) (held : List (Option SgeQueue)) :
    (∀ q, step c s (.postRecv q ws k) = some s' → s.cqRing.Holds held →
      ∃ rs, toRecvs c.lkeys (.qp q) s.posts ws = some rs ∧
        s'.outstanding = s.outstanding ++ rs.take k ∧
        (s'.cqRing.Holds (held ++ (rs.take k).map Recv.expected) ↔
          k = ws.length ∧ held.length + ws.length ≤ 65536)) ∧
    ∀ i, step c s (.postSrqRecv i ws k) = some s' → (s.srqRing i).Holds held →
      ∃ rs, toRecvs c.lkeys (.srq i) s.posts ws = some rs ∧
        s'.outstanding = s.outstanding ++ rs.take k ∧
        ((s'.srqRing i).Holds (held ++ (rs.take k).map Recv.expected) ↔
          k = ws.length ∧ held.length + ws.length ≤ 65536) := by
  refine ⟨fun q hs hheld => ?_, fun i hs hheld => ?_⟩
  · obtain ⟨⟨-, hk, -⟩, rs, hrs, rfl⟩ := step_postRecv_iff.mp hs
    rw [← length_toRecvs hrs] at hk hlen ⊢
    exact ⟨rs, rfl.trans hrs, rfl, holds_take_iff hheld rs hlen hk⟩
  · obtain ⟨hk, rs, hrs, rfl⟩ := step_postSrqRecv_iff.mp hs
    rw [← length_toRecvs hrs] at hk hlen ⊢
    refine ⟨rs, rfl.trans hrs, rfl, ?_⟩
    simp only [Function.update_self]
    exact holds_take_iff hheld rs hlen hk

/-- A ring as it was created holds nothing. Kind: L -/
lemma holds_freshSystem : freshSystem.cqRing.Holds [] := Ring.holds_nil _ (by decide)

/-- A list of two that is accepted whole leaves two records. Kind: C -/
theorem records_of_two_accepted :
    ∃ s', step oneQp freshSystem (.postRecv 0 [sampleWr, sampleWr] 2) = some s' ∧
      ∃ rs : List Recv, rs.length = 2 ∧ s'.cqRing.Holds ([] ++ (rs.take 2).map Recv.expected) := by
  refine ⟨_, rfl, ?_⟩
  obtain ⟨rs, hrs, -, hiff⟩ := (records_of_accepted_iff oneQp freshSystem _ [sampleWr, sampleWr] 2
    (by decide) []).1 0 rfl holds_freshSystem
  exact ⟨rs, length_toRecvs hrs, hiff.mpr ⟨rfl, by decide⟩⟩

/-- **One of two rejected**: the ring does not hold the one record of the accepted request, and the
completion of the next receive consumes the record of the rejected one. Kind: C -/
theorem rejected_receive_leaves_record :
    ∃ s' t r, step oneQp freshSystem (.postRecv 0 [sampleWr, sampleWr] 1) = some s' ∧
      s'.outstanding = [r] ∧ ¬ s'.cqRing.Holds [r.expected] ∧
      exec (step oneQp) s' [.postRecv 0 [sampleWr] 1, .complete 0 true true,
        .complete 0 true true, .poll 2] = some t ∧
      t.log.map (fun e => (e.1.recv.map Recv.post, e.2.map SgeQueue.post)) =
        [(some 0, some 0), (some 2, some 1)] := by
  refine ⟨_, _, _, rfl, rfl, fun hholds => ?_, rfl, by decide⟩
  exact absurd hholds.head_eq (by decide)

end FreeFlow.Client.History
