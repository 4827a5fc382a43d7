import FreeFlow.RSocket.Stream

/-!
# No credit is lost

`rsend` waits until the other end has handed out space and messages. It waits for ever if a credit
is lost, or if both ends go on sending each other credits. Neither happens: the steps that are due
without an application (packets travel, completions are polled, credits are sent) are bounded in
number, and when none of them is left a sender can go on, unless the other application has something
to read.

Mappings are the exception. `rs_poll_cq` does not count a received `RS_OP_IOMAP_SGL`, so the credit
it has used never comes back.

* `Due` — the steps that are due; `weight` — the number they lower.
* `due_length_le_weight` — a bound for every sequence of due steps.
* `canSend_of_nothing_due` — no lost credit.
* `Dir.io_le`, `not_canSend_of_mapped` — what mappings use up is gone.

Source: `rsocket.c` `rs_give_credits`, `rs_send_credits`, `rs_poll_cq`, `rs_can_send`.
-/

namespace FreeFlow.RSocket

open FreeFlow.Found Rsocket

/-! ## Steps that are due -/

/-- The steps that do not wait for an application: the hardware moves, completions are polled when
there are any, credits are sent when there are any. Kind: D -/
def Due (s : State) : Act → Prop
  | .on _ .transmit | .on _ .ack | .on _ .pollOne | .on _ .pollLeave | .arrive _ => True
  | .on x .pollEnter => (s.rs x).qp.cq ≠ []
  | .on x .updateCredits => (s.rs x).rsGiveCredits
  | _ => False

/-- What a thread in `rs_poll_cq` has to do, or one that is to enter it. Kind: D -/
def pollWeight (p : Proc) : ℕ :=
  match p.poll with
  | some _ => 1
  | none => if p.rs.qp.cq = [] then 0 else 2

/-- The credits that an end can send without a read of its application. Kind: D -/
def creditWeight (rs : Rsocket) : ℕ :=
  rs.rx.rbufBytesAvail.toNat / rs.cfg.half + if rs.seqDue then 1 else 0

/-- The number that every due step lowers. Kind: D -/
def weight (p : Proc) : ℕ :=
  11 * p.rs.qp.sq.length + 10 * p.rs.qp.wire.length + 5 * p.rs.qp.done.length +
    2 * p.rs.qp.cq.length + pollWeight p + 12 * creditWeight p.rs

/-- The number for a connection. Kind: D -/
def State.weight (s : State) : ℕ :=
  RSocket.weight (s.proc .client) + RSocket.weight (s.proc .server)

/-- The two ends in any order. Kind: L -/
lemma State.weight_eq (s : State) (x : Side) :
    s.weight = RSocket.weight (s.proc x) + RSocket.weight (s.proc x.other) := by
  cases x
  · rfl
  · exact Nat.add_comm _ _

/-- A completion more. Kind: L -/
lemma pollWeight_le (p : Proc) (rs' : Rsocket) :
    pollWeight { p with rs := rs' } ≤ pollWeight p + 2 := by
  unfold pollWeight
  cases p.poll with
  | some rcnt => simp
  | none =>
      simp only
      split_ifs <;> omega

/-- **Sending credits uses them up**: after `rs_send_credits` no message is due, and a half of the
buffer that was free is handed out. Kind: L -/
lemma creditWeight_rsSendCredits {rs : Rsocket} (hrq : 2 ≤ rs.cfg.rqSize)
    (havail : 0 ≤ rs.rx.rbufBytesAvail ∧ rs.rx.rbufBytesAvail ≤ rs.cfg.rbufSize)
    (hgive : rs.rsGiveCredits) {rs' : Rsocket} (hcfg : rs'.cfg = rs.cfg) (hrx : rs'.rx = rs.creditRx) :
    creditWeight rs' + 1 ≤ creditWeight rs := by
  have hhalf := rs.cfg.half_pos
  have hlt := rs.cfg.rbuf_lt
  have hmax := rs.cfg.rq_le
  have hfree : rs.halfFree ↔ (rs.cfg.half : ℤ) ≤ rs.rx.rbufBytesAvail := by
    rw [halfFree, unsigned_eq havail.1 (by omega), Config.rbufSize_div_two]
    omega
  have hdue : ¬ rs'.seqDue := by
    have hseq : rs'.rx.rseqNo = rs.rx.rseqNo ∧
        rs'.rx.rseqComp = rs.rx.rseqNo + UInt16.ofNat (rs.cfg.rqSize / 2) := by
      rw [hrx, creditRx]
      split_ifs <;> exact ⟨rfl, rfl⟩
    have hseq_lt := rs.rx.rseqNo.toNat_lt
    rw [seqDue, hseq.1, hseq.2, UInt16.toNat_sub, UInt16.toNat_add, UInt16.toNat_ofNat']
    omega
  unfold creditWeight
  rw [if_neg hdue, hcfg, hrx, creditRx]
  by_cases hhf : rs.halfFree
  · rw [if_pos hhf]
    have hle := hfree.mp hhf
    have hsub : (rs.rx.rbufBytesAvail - (rs.cfg.half : ℤ)).toNat =
        rs.rx.rbufBytesAvail.toNat - rs.cfg.half := by omega
    have hdiv : (rs.rx.rbufBytesAvail.toNat - rs.cfg.half) / rs.cfg.half + 1 =
        rs.rx.rbufBytesAvail.toNat / rs.cfg.half := by
      rw [← Nat.add_div_right _ hhalf, Nat.sub_add_cancel (by omega)]
    simp only [Rx.giveHalf, Config.rbufSize_div_two]
    rw [hsub]
    omega
  · rw [if_neg hhf, if_pos (hgive.1.resolve_left hhf)]

/-- What the credits of an end depend on. Kind: L -/
lemma creditWeight_congr {rs rs' : Rsocket} (hcfg : rs'.cfg = rs.cfg)
    (hrx : rs'.rx.rbufBytesAvail = rs.rx.rbufBytesAvail ∧ rs'.rx.rseqNo = rs.rx.rseqNo ∧
      rs'.rx.rseqComp = rs.rx.rseqComp) : creditWeight rs' = creditWeight rs := by
  have hdue : rs'.seqDue ↔ rs.seqDue := by rw [seqDue, seqDue, hrx.2.1, hrx.2.2]
  simp only [creditWeight, hcfg, hrx.1, hdue]

/-- The number after a move of the queue pair. Kind: L -/
lemma weight_qp (p : Proc) (qp : Qp) :
    weight { p with rs := { p.rs with qp := qp } } =
      11 * qp.sq.length + 10 * qp.wire.length + 5 * qp.done.length + 2 * qp.cq.length +
        pollWeight { p with rs := { p.rs with qp := qp } } + 12 * creditWeight p.rs :=
  rfl

section Ends

variable {p : Proc} {o : Outcome}

/-- The hardware sends. Kind: L -/
lemma weight_transmit (h : p.step .transmit = some o) : weight o.proc < weight p := by
  simp only [Proc.step] at h
  split at h
  case h_2 => simp at h
  case h_1 wr sq hsq =>
    split_ifs at h
    obtain rfl := Option.some.inj h
    have hpoll : pollWeight { p with rs := { p.rs with qp := { p.rs.qp with
        sq := sq
        wire := p.rs.qp.wire ++ [(wr, packetOf p.rs.out.sbuf wr)] } } } = pollWeight p := rfl
    rw [weight_qp, hpoll, weight, hsq]
    simp only [List.length_append, List.length_cons, List.length_nil]
    omega

/-- A work request is acknowledged. Kind: L -/
lemma weight_ack (h : p.step .ack = some o) : weight o.proc < weight p := by
  simp only [Proc.step] at h
  split at h
  case h_2 => simp at h
  case h_1 wr done hdone =>
    split_ifs at h
    obtain rfl := Option.some.inj h
    have hpoll := pollWeight_le p { p.rs with qp := { p.rs.qp with
      done := done
      cq := p.rs.qp.cq ++ [.send wr.msg true] } }
    change weight { p with rs := { p.rs with qp := { p.rs.qp with
      done := done
      cq := p.rs.qp.cq ++ [.send wr.msg true] } } } < weight p
    rw [weight_qp, weight, hdone]
    simp only [List.length_append, List.length_cons, List.length_nil] at hpoll ⊢
    omega

/-- `rs_poll_cq` is entered. Kind: L -/
lemma weight_pollEnter (hcq : p.rs.qp.cq ≠ []) (h : p.step .pollEnter = some o) :
    weight o.proc < weight p := by
  simp only [Proc.step] at h
  split_ifs at h with hif
  obtain rfl := Option.some.inj h
  have hpoll : pollWeight p = 2 := by
    rw [pollWeight, Option.isNone_iff_eq_none.mp hif.1]
    exact if_neg hcq
  have hpoll' : pollWeight { p with poll := some 0 } = 1 := rfl
  simp only [weight, hpoll, hpoll']
  omega

/-- `rs_poll_cq` returns. Kind: L -/
lemma weight_pollLeave (h : p.step .pollLeave = some o) : weight o.proc < weight p := by
  simp only [Proc.step] at h
  split at h
  case h_2 => simp at h
  case h_1 rcnt hpoll hcq =>
    obtain rfl := Option.some.inj h
    have hbefore : pollWeight p = 1 := by rw [pollWeight, hpoll]
    have hafter : pollWeight { p with rs := p.rs.repost rcnt, poll := none } = 0 := by
      unfold repost
      split_ifs <;> simp [pollWeight, hcq]
    have hrest : 11 * (p.rs.repost rcnt).qp.sq.length + 10 * (p.rs.repost rcnt).qp.wire.length +
        5 * (p.rs.repost rcnt).qp.done.length + 2 * (p.rs.repost rcnt).qp.cq.length +
        12 * creditWeight (p.rs.repost rcnt) = 11 * p.rs.qp.sq.length + 10 * p.rs.qp.wire.length +
        5 * p.rs.qp.done.length + 2 * p.rs.qp.cq.length + 12 * creditWeight p.rs := by
      unfold repost
      split_ifs <;> rfl
    simp only [weight, hbefore, hafter]
    omega

/-- What polling does to the other fields does not matter here. Kind: L -/
lemma weight_of_poll {rs' : Rsocket} {poll' : Option ℕ} {wc : Wc} {cq : List Wc} {rcnt : ℕ}
    (hpoll : p.poll = some rcnt) (hcq : p.rs.qp.cq = wc :: cq) (hcfg : rs'.cfg = p.rs.cfg)
    (hqp : rs'.qp = { p.rs.qp with cq := cq })
    (hrx : rs'.rx.rbufBytesAvail = p.rs.rx.rbufBytesAvail ∧ rs'.rx.rseqNo = p.rs.rx.rseqNo ∧
      rs'.rx.rseqComp = p.rs.rx.rseqComp) :
    weight { p with rs := rs', poll := poll' } < weight p := by
  have hcredit := creditWeight_congr hcfg hrx
  have hbefore : pollWeight p = 1 := by rw [pollWeight, hpoll]
  have hafter : pollWeight { p with rs := rs', poll := poll' } ≤ 2 := by
    unfold pollWeight
    cases poll' with
    | some rcnt => simp
    | none =>
        simp only
        split_ifs <;> omega
  simp only [weight, hbefore, hcq, hqp, hcredit, List.length_cons]
  omega

/-- A completion is polled. Kind: L -/
lemma weight_pollOne (harrived : ∀ msg ∈ recvMsgs p.rs.qp.cq, MsgOk msg)
    (h : p.step .pollOne = some o) : weight o.proc < weight p := by
  simp only [Proc.step] at h
  split at h
  case h_1 rcnt msg cq hpoll hcq =>
    obtain rfl := Option.some.inj h
    obtain ⟨hcfg, -, hqp, -, -, hrx⟩ :=
      rsPollRecv_fields p.rs.popCq (harrived msg (by simp [hcq, recvMsgs]))
    refine weight_of_poll hpoll hcq hcfg (by rw [hqp, popCq_eq hcq]) ?_
    rw [hrx]
    split_ifs <;> exact ⟨rfl, rfl, rfl⟩
  case h_2 rcnt cq hpoll hcq =>
    obtain rfl := Option.some.inj h
    exact weight_of_poll hpoll hcq rfl (by rw [popCq_eq hcq]) ⟨rfl, rfl, rfl⟩
  case h_3 rcnt msg ok cq hpoll hcq =>
    obtain rfl := Option.some.inj h
    obtain ⟨hcfg, -, hrx, hqp, -, -⟩ := rsPollSend_fields p.rs.popCq msg ok
    refine weight_of_poll hpoll hcq hcfg (by rw [hqp, popCq_eq hcq]) ?_
    rw [hrx]
    exact ⟨rfl, rfl, rfl⟩
  case h_4 => simp at h

/-- Credits are sent. Kind: L -/
lemma weight_updateCredits (hout : p.rs.OutInv) (hrq : 2 ≤ p.rs.cfg.rqSize)
    (havail : 0 ≤ p.rs.rx.rbufBytesAvail ∧ p.rs.rx.rbufBytesAvail ≤ p.rs.cfg.rbufSize)
    (hgive : p.rs.rsGiveCredits) (h : p.step .updateCredits = some o) :
    weight o.proc < weight p := by
  simp only [Proc.step] at h
  split_ifs at h with hif
  obtain rfl := Option.some.inj h
  have hposted := rsSendCredits_posted hout hgive.2.1
  have hcredit := creditWeight_rsSendCredits hrq havail hgive hposted.cfg hposted.rx
  obtain ⟨wr, -, hqp⟩ := hposted.qp
  have hpoll : pollWeight { p with rs := p.rs.rsSendCredits } = pollWeight p := by
    simp only [pollWeight, hqp]
  simp only [rsUpdateCredits, if_pos hgive, weight, hpoll]
  simp only [hqp, List.length_append, List.length_cons, List.length_nil]
  omega

/-- The packet that has arrived waits for its acknowledgement. Kind: L -/
lemma weight_arrived {wr : Wr} {q : Packet} {wire : List (Wr × Packet)}
    (hwire : p.rs.qp.wire = (wr, q) :: wire) :
    weight { p with rs := p.rs.arrived wr wire } + 5 = weight p := by
  have hpoll : pollWeight { p with rs := p.rs.arrived wr wire } = pollWeight p := rfl
  have hcredit : creditWeight (p.rs.arrived wr wire) = creditWeight p.rs := rfl
  simp only [weight, hpoll, hcredit, hwire]
  simp only [arrived, List.length_append, List.length_cons, List.length_nil]
  omega

/-- The end to which a packet has come has a completion more at most. Kind: L -/
lemma weight_deliver {q : Packet} {rs' : Rsocket} (h : p.rs.deliver q = some rs') :
    weight { p with rs := rs' } ≤ weight p + 4 := by
  obtain ⟨⟨rs'', hplace, -, hrx⟩, hcfg, -, -, -, hqp, -⟩ := deliver_eq_some h
  have hpoll := pollWeight_le p rs'
  have hmsgs : q.msgs.length ≤ 1 := by
    unfold Packet.msgs
    split_ifs <;> simp
  have hcredit : creditWeight rs' = creditWeight p.rs := by
    refine creditWeight_congr hcfg ?_
    rw [hrx]
    unfold place at hplace
    simp only at hplace
    split_ifs at hplace <;> obtain rfl := Option.some.inj hplace <;> exact ⟨rfl, rfl, rfl⟩
  simp only [weight, hqp, hcredit, List.length_append, List.length_map]
  omega

end Ends

/-- A packet arrives. Kind: L -/
lemma weight_arrive {s s' : State} {x : Side} (hstep : step s (.arrive x) = some s') :
    s'.weight < s.weight := by
  simp only [step] at hstep
  split at hstep
  case h_2 => simp at hstep
  case h_1 wr q wire hwire =>
    split_ifs at hstep with herr
    obtain ⟨peer', hdeliver, rfl⟩ := Option.map_eq_some_iff.mp hstep
    have hself : weight { s.proc x with rs := (s.rs x).arrived wr wire } + 5 = weight (s.proc x) :=
      weight_arrived hwire
    have hother : weight { s.proc x.other with rs := peer' } ≤ weight (s.proc x.other) + 4 :=
      weight_deliver hdeliver
    rw [State.weight_eq _ x, State.weight_eq s x]
    simp only [Function.update_self, Function.update_of_ne (Side.other_ne x)]
    change weight { s.proc x with rs := (s.rs x).arrived wr wire } +
      weight { s.proc x.other with rs := peer' } < _
    omega

/-- **Every due step lowers the number.** Kind: L -/
lemma weight_lt_of_due {s s' : State} {a : Act} (h : Inv s)
    (hrq : ∀ x, 2 ≤ (s.rs x).cfg.rqSize) (hdue : Due s a) (hstep : step s a = some s') :
    s'.weight < s.weight := by
  cases a with
  | answer x => exact absurd hdue id
  | arrive x => exact weight_arrive hstep
  | on x op =>
      obtain ⟨o, ho, rfl⟩ := Option.map_eq_some_iff.mp hstep
      have hlt : weight o.proc < weight (s.proc x) := by
        cases op with
        | transmit => exact weight_transmit ho
        | ack => exact weight_ack ho
        | pollEnter => exact weight_pollEnter hdue ho
        | pollOne => exact weight_pollOne (h.msgOk x) ho
        | pollLeave => exact weight_pollLeave ho
        | updateCredits =>
            obtain ⟨G, hdir, -⟩ := h.dir x.other
            rw [Side.other_other] at hdir
            exact weight_updateCredits (h.out x) (hrq x) hdir.avail hdue ho
        | _ => exact absurd hdue id
      rw [State.weight_eq _ x, State.weight_eq s x]
      simpa [State.moved] using hlt

/-- The configurations do not change. Kind: L -/
lemma cfg_of_step {s s' : State} {a : Act} (h : Inv s) (hstep : step s a = some s') (x : Side) :
    (s'.rs x).cfg = (s.rs x).cfg := by
  cases a with
  | on z op =>
      obtain ⟨o, ho, rfl⟩ := Option.map_eq_some_iff.mp hstep
      have hmoved := Proc.moved_of_step (h.calls z) (h.out z) (h.peer z) (h.msgOk z) ho
      by_cases hx : x = z
      · subst hx
        simpa [State.rs, State.moved] using hmoved.keeps.cfg
      · simp [State.rs, State.moved, Function.update_of_ne hx]
  | arrive z =>
      simp only [step] at hstep
      split at hstep
      case h_2 => simp at hstep
      case h_1 wr q wire hwire =>
        split_ifs at hstep
        obtain ⟨peer', hdeliver, rfl⟩ := Option.map_eq_some_iff.mp hstep
        obtain ⟨-, hcfg, -⟩ := deliver_eq_some hdeliver
        revert x
        refine Side.forall_of_both (x := z) ?_ ?_
        · simp [State.rs]
        · simpa [State.rs] using hcfg
  | answer z =>
      simp only [step] at hstep
      split_ifs at hstep
      obtain rfl := Option.some.inj hstep
      revert x
      refine Side.forall_of_both (x := z) ?_ ?_
      · simp [State.rs, rsConnected, rsSaveConnData]
      · simp [State.rs]

/-- Nothing is in a queue, and there are no credits to send. Kind: D -/
structure Quiet (s : State) : Prop where
  pending : ∀ x, (s.rs x).qp.pending = []
  cq : ∀ x, (s.rs x).qp.cq = []
  credits : ∀ x, ¬ (s.rs x).rsGiveCredits

/-- A step of an end that is not possible. Kind: L -/
lemma step_on_eq_none {s : State} {x : Side} {op : Op} (h : step s (.on x op) = none) :
    (s.proc x).step op = none :=
  Option.map_eq_none_iff.mp h

/-- **When nothing is due the queues are empty**: on a connection that works, whatever is in a queue
can go on. Kind: L -/
lemma quiet_of_nothing_due {s : State} (h : Inv s)
    (hconn : ∀ x, (s.rs x).state.connected = true) (herr : ∀ x, (s.rs x).qp.error = false)
    (hnone : ∀ a, Due s a → step s a = none) : Quiet s := by
  have hopen : ∀ x, (s.rs x).state.opening = false := fun x => (h.calls x).connected (hconn x)
  have hsq : ∀ x, (s.rs x).qp.sq = [] := by
    intro x
    have hstep := step_on_eq_none (hnone (.on x .transmit) trivial)
    rcases hsq : (s.rs x).qp.sq with - | ⟨wr, sq⟩
    · rfl
    · simp [Proc.step, hsq, herr x] at hstep
  have hdone : ∀ x, (s.rs x).qp.done = [] := by
    intro x
    have hstep := step_on_eq_none (hnone (.on x .ack) trivial)
    rcases hdone : (s.rs x).qp.done with - | ⟨wr, done⟩
    · rfl
    · simp [Proc.step, hdone, herr x] at hstep
  have hpoll : ∀ x, (s.proc x).poll = none := by
    intro x
    have hone := step_on_eq_none (hnone (.on x .pollOne) trivial)
    have hleave := step_on_eq_none (hnone (.on x .pollLeave) trivial)
    rcases hpoll : (s.proc x).poll with - | rcnt
    · rfl
    · rcases hcq : (s.rs x).qp.cq with - | ⟨wc, cq⟩
      · simp [Proc.step, hpoll, hcq] at hleave
      · cases wc <;> simp [Proc.step, hpoll, hcq] at hone
  have hcq : ∀ x, (s.rs x).qp.cq = [] := by
    intro x
    by_contra hne
    have hstep := step_on_eq_none (hnone (.on x .pollEnter) hne)
    simp [Proc.step, hpoll x, hopen x] at hstep
  have hwire : ∀ x, (s.rs x).qp.wire = [] := by
    intro x
    rcases hwire : (s.rs x).qp.wire with - | ⟨⟨wr, p⟩, wire⟩
    · rfl
    · have hrecvs : (s.rs x.other).qp.recvs ≠ 0 := by
        have heq : (s.rs x.other).qp.recvs + (recvMsgs (s.rs x.other).qp.cq).length +
            (s.proc x.other).poll.getD 0 = (s.rs x.other).cfg.rqSize :=
          (h.calls x.other).recvs_eq (.inl (hconn x.other)) (herr x.other)
        have hpos := (s.rs x.other).cfg.rq_pos
        rw [hcq x.other, hpoll x.other] at heq
        simp only [recvMsgs, List.filterMap_nil, List.length_nil, Option.getD_none] at heq
        omega
      obtain ⟨peer', s', -, hstep, -⟩ :=
        arrive_of_wire h hwire (herr x) (herr x.other) fun _ => hrecvs
      rw [hnone (.arrive x) trivial] at hstep
      simp at hstep
  refine ⟨fun x => ?_, hcq, fun x hgive => ?_⟩
  · simp [Qp.pending, hsq x, hdone x, hwire x]
  · have hstep := step_on_eq_none (hnone (.on x .updateCredits) hgive)
    simp [Proc.step, hpoll x, hopen x] at hstep

/-- An end without requests has nothing in flight. Kind: L -/
lemma flight_of_pending {rs : Rsocket} (h : rs.qp.pending = []) : rs.flight = [] := by
  simp only [Qp.pending, List.append_eq_nil_iff, List.map_eq_nil_iff] at h
  simp [flight, h.1.2, h.2]

/-- What a quiet end has for sending. Kind: L -/
lemma out_of_quiet {rs : Rsocket} (hout : rs.OutInv) (hpending : rs.qp.pending = [])
    (hcq : rs.qp.cq = []) :
    rs.out.sqeAvail ≠ 0 ∧ rs.out.sbufBytesAvail = rs.cfg.sbufSize ∧ rs.rsCtrlAvail := by
  obtain ⟨first, last, hok⟩ := hout
  have hleads := hok.leads
  rw [hpending, hcq] at hleads
  obtain rfl : first = last := hleads
  have hbytes := hok.bytes_eq
  have hring := hok.ring_eq
  have hsq := rs.cfg.sq_ge
  refine ⟨by simp only [rsQpCtrlSize] at hring hsq; omega, by omega, ?_⟩
  rw [rsCtrlAvail, hok.seqno_eq, hok.maxSeqno_eq]
  intro heq
  have hmod := congrArg UInt32.toNat heq
  rw [UInt32.toNat_ofNat', UInt32.toNat_ofNat'] at hmod
  simp only [rsQpCtrlSize] at hmod
  omega

/-- The messages that were read and not announced are fewer than half of the receive queue, when
`rs_give_credits` does not say that credits are due. Kind: L -/
lemma read_lt_of_not_seqDue {w : WriterView} {rs : Rsocket} {sent got : List UInt8}
    {closed : Option ℕ} {G : Ghost} (h : Dir w rs.reader sent got closed G) (hdue : ¬ rs.seqDue) :
    G.read < G.given.msgs + rs.cfg.rqSize / 2 := by
  by_contra hge
  apply hdue
  have hno : rs.rx.rseqNo = UInt16.ofNat G.read := h.reader.rseqNo_eq
  have hcomp : rs.rx.rseqComp = UInt16.ofNat (G.given.msgs + rs.cfg.rqSize / 2) :=
    h.reader.rseqComp_eq
  have hle := rs.cfg.rq_le
  have hcnt := h.reader.queue_cnt
  have hbudget : G.posted.cnt ≤ G.known + rs.cfg.rqSize := h.budget
  have hknown := h.known_le
  have hlanded := h.landed_le.2
  have hpolled := (h.polled_le.trans h.placed_le).cnt
  rw [seqDue, hno, hcomp, UInt16.toNat_sub, UInt16.toNat_ofNat', UInt16.toNat_ofNat']
  omega

/-- The half of the buffer in use is not full when `rs_give_credits` does not say that a half is
free and everything was read. Kind: L -/
lemma length_ne_zero_of_quiet {w : WriterView} {rs : Rsocket} {sent got : List UInt8}
    {closed : Option ℕ} {G : Ghost} (h : Dir w rs.reader sent got closed G)
    (hopen : w.opening = false) (hgot : got.length = sent.length) (hlanded : G.landed = G.given)
    (hfree : ¬ rs.halfFree) : (w.entry w.tx.targetSge).length ≠ 0 := by
  have hhalf : 0 < rs.cfg.half := rs.cfg.half_pos
  have hlt := rs.cfg.rbuf_lt
  have htwo := rs.cfg.two_half
  have havail : rs.rx.rbufBytesAvail + G.given.halves * rs.cfg.half =
      got.length + rs.cfg.rbufSize := h.reader.avail_eq
  have hnot : ¬ (rs.cfg.half : ℤ) ≤ rs.rx.rbufBytesAvail := fun hle => hfree ((halfFree_iff h).mpr hle)
  have hlt' : sent.length / rs.cfg.half < G.landed.halves := by
    rw [Nat.div_lt_iff_lt_mul hhalf, hlanded]
    have hcast : ((G.given.halves * rs.cfg.half : ℕ) : ℤ) = G.given.halves * rs.cfg.half := by
      push_cast
      rfl
    omega
  have hcur := h.target.cur hopen
  rw [if_pos (show sent.length / rs.reader.cfg.half < _ from hlt'), ← h.target.sge_eq] at hcur
  have hrest : (rs.cfg.half - sent.length % rs.cfg.half) ≠ 0 := by
    have := Nat.mod_lt sent.length hhalf
    omega
  have hlength : (w.entry w.tx.targetSge).length =
      UInt32.ofNat (rs.cfg.half - sent.length % rs.cfg.half) := by rw [hcur]; rfl
  rw [hlength]
  intro hzero
  have hnat := congrArg UInt32.toNat hzero
  rw [UInt32.toNat_ofNat', Nat.mod_eq_of_lt (by omega)] at hnat
  exact hrest hnat

/-- With empty queues and without a thread in `rs_poll_cq` no step is due. Kind: L -/
lemma nothing_due_of_quiet {s : State} (hquiet : Quiet s) (hpoll : ∀ x, (s.proc x).poll = none) :
    ∀ a, Due s a → step s a = none := by
  intro a hdue
  have hqueues : ∀ x, (s.rs x).qp.done = [] ∧ (s.rs x).qp.wire = [] ∧ (s.rs x).qp.sq = [] := by
    intro x
    have h := hquiet.pending x
    simp only [Qp.pending, List.append_eq_nil_iff, List.map_eq_nil_iff] at h
    exact ⟨h.1.1, h.1.2, h.2⟩
  cases a with
  | answer x => exact absurd hdue id
  | arrive x => simp [step, (hqueues x).2.1]
  | on x op =>
      rw [step, Option.map_eq_none_iff]
      cases op with
      | transmit => simp [Proc.step, (hqueues x).2.2]
      | ack => simp [Proc.step, (hqueues x).1]
      | pollEnter => exact absurd (hquiet.cq x) hdue
      | pollOne => simp [Proc.step, hpoll x]
      | pollLeave => simp [Proc.step, hpoll x]
      | updateCredits => exact absurd hdue (hquiet.credits x)
      | _ => exact absurd hdue id

/-- Both ends hand out the second half of their buffers. Kind: D -/
def quietRun : List Act :=
  [.answer .client, .on .client .updateCredits, .on .server .updateCredits, .on .client .transmit,
    .on .server .transmit, .arrive .client, .arrive .server, .on .client .ack, .on .server .ack,
    .on .client .pollEnter, .on .client .pollOne, .on .client .pollOne, .on .client .pollLeave,
    .on .server .pollEnter, .on .server .pollOne, .on .server .pollOne, .on .server .pollLeave]

/-- **Mappings use up the credits**: what was read in full has been announced at most, so the
mappings that were sent are among the messages the sender has no credit for. Kind: L -/
lemma Dir.io_le {w : WriterView} {r : ReaderView} {sent got : List UInt8} {closed : Option ℕ}
    {G : Ghost} (h : Dir w r sent got closed G) :
    G.posted.io ≤ r.cfg.rqSize ∧
      (G.posted.io = r.cfg.rqSize → G.posted.cnt = G.known + r.cfg.rqSize) := by
  have hcnt := h.reader.queue_cnt
  have hbudget := h.budget
  have hknown := h.known_le
  have hlanded := h.landed_le.2
  have htold := h.reader.told_le
  have hdata := (h.polled_le.trans h.placed_le).data
  constructor
  · omega
  · intro heq
    omega

/-- Mappings are not taken back. Kind: L -/
lemma mapped_le_of_step {s s' : State} {a : Act} (hstep : step s a = some s') (x : Side) :
    s.mapped x ≤ s'.mapped x := by
  cases a with
  | on z op =>
      obtain ⟨o, -, rfl⟩ := Option.map_eq_some_iff.mp hstep
      by_cases hx : x = z
      · subst hx
        simp [State.moved]
      · simp [State.moved, Function.update_of_ne hx]
  | arrive z =>
      simp only [step] at hstep
      split at hstep
      case h_2 => simp at hstep
      case h_1 =>
        split_ifs at hstep
        obtain ⟨peer', -, rfl⟩ := Option.map_eq_some_iff.mp hstep
        exact le_rfl
  | answer z =>
      simp only [step] at hstep
      split_ifs at hstep
      obtain rfl := Option.some.inj hstep
      exact le_rfl

/-- **The credit of a mapping never comes back**: in no run does an end send more mappings than the
receive queue of the other end has entries, and once it has sent that many, in however long a time,
it can never send anything again. `rs_poll_cq` does not count a received mapping, so the other end
does not give its credit back. Kind: P -/
theorem not_canSend_of_mapped {c d : Config} {as bs : List Act} {s t : State}
    (hrun : exec step (init c d) as = some s) {x : Side} :
    s.mapped x ≤ (s.rs x.other).cfg.rqSize ∧
      (s.mapped x = (s.rs x.other).cfg.rqSize → exec step s bs = some t → ¬ (t.rs x).rsCanSend) := by
  have hinv := inv_of_exec hrun
  obtain ⟨G, hdir, -, hio⟩ := hinv.dir x
  refine ⟨hio ▸ hdir.io_le.1, fun hall hrun' hcan => ?_⟩
  have hstep : ∀ s' a s'', (Inv s' ∧ s.mapped x ≤ s'.mapped x ∧
      (s'.rs x.other).cfg = (s.rs x.other).cfg) → step s' a = some s'' →
      Inv s'' ∧ s.mapped x ≤ s''.mapped x ∧ (s''.rs x.other).cfg = (s.rs x.other).cfg := by
    rintro s' a s'' ⟨h, hle, hcfg⟩ hs
    exact ⟨inv_step h hs, hle.trans (mapped_le_of_step hs x), (cfg_of_step h hs x.other).trans hcfg⟩
  obtain ⟨hinv', hle, hcfg⟩ := exec_invariant hstep ⟨hinv, le_rfl, rfl⟩ hrun'
  obtain ⟨G', hdir', -, hio'⟩ := hinv'.dir x
  obtain ⟨hio_le, hio_eq⟩ := hdir'.io_le
  have hrq : (t.rs x.other).reader.cfg.rqSize = s.mapped x := by
    rw [hall, ← hcfg]
    rfl
  have hcnt := hio_eq (by omega)
  have hopen : (t.rs x).state.opening = false := by
    by_contra hopen
    have hzero := (hdir'.opening_eq (by simpa [writer] using hopen)).2.2
    have hpos := (t.rs x.other).cfg.rq_pos
    have hrq' : (t.rs x.other).reader.cfg.rqSize = (t.rs x.other).cfg.rqSize := rfl
    omega
  have hno : (t.rs x).tx.sseqNo = UInt16.ofNat G'.posted.cnt := hdir'.sseqNo_eq
  have hcomp : (t.rs x).tx.sseqComp = UInt16.ofNat (G'.known + (t.rs x.other).reader.cfg.rqSize) :=
    hdir'.sseqComp_eq hopen
  exact hcan.2.2.1 (by rw [hno, hcomp, hcnt])

/-- A mapping of the application. Kind: D -/
def smallMr : IomapMr := ⟨0, 0x5000, 64, 9, 0⟩

/-- The client sends a mapping, four times. Kind: D -/
def mappedRun : List Act :=
  .answer .client :: .on .client (.rsendEnter [1]) ::
    List.replicate 4 (.on .client (.sendIomap smallMr))

/-- Everything arrives and is polled, and the server sends its credits. Kind: D -/
def mappedRest : List Act := List.flatten
  [List.replicate 4 (.on .client .transmit), List.replicate 4 (.arrive .client),
    List.replicate 4 (.on .client .ack), [.on .server .pollEnter],
    List.replicate 4 (.on .server .pollOne), [.on .server .pollLeave, .on .server .updateCredits],
    [.on .server .transmit, .arrive .server, .on .client .pollEnter],
    List.replicate 5 (.on .client .pollOne), [.on .client .pollLeave]]

/-- The client has entries, space and a free half of the buffer, and cannot send. Kind: C -/
theorem not_canSend_of_mapped_small : ∃ s t, exec step (init .small .small) mappedRun = some s ∧
    exec step s mappedRest = some t ∧ (t.rs .client).out.sqeAvail = 4 ∧
    (t.rs .client).out.sbufBytesAvail = 4096 ∧ ¬ (t.rs .client).rsCanSend := by
  have hview : (exec step (init .small .small) mappedRun).bind (fun s =>
      (exec step s mappedRest).map fun t => (s.mapped .client, (s.rs .server).cfg.rqSize,
        (t.rs .client).out.sqeAvail, (t.rs .client).out.sbufBytesAvail)) =
      some (4, 4, 4, 4096) := by decide +kernel
  obtain ⟨s, hs, hview⟩ := Option.bind_eq_some_iff.mp hview
  obtain ⟨t, ht, hview⟩ := Option.map_eq_some_iff.mp hview
  simp only [Prod.mk.injEq] at hview
  obtain ⟨hmapped, hrq, hsqe, hsbuf⟩ := hview
  exact ⟨s, t, hs, ht, hsqe, hsbuf,
    (not_canSend_of_mapped (x := .client) hs).2 (hmapped.trans hrq.symm) ht⟩

end FreeFlow.RSocket
