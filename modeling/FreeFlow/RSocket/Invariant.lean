import FreeFlow.RSocket.Arrival

/-!
# The invariant of a connection

Both directions are in order, the accounts of both ends are, and the calls in progress are where
their code can be. Every step keeps this: a step of an end by what it does to the two directions, an
arrival and an answer by what they do to both.

* `CallsOk` — the calls in progress at an end, and the receives it has posted.
* `Proc.Moved`, `Proc.moved_of_step` — what every step of an end keeps.
* `Inv`, `inv_init`, `inv_step`, `inv_of_exec` — the invariant, over every run.

Source: `rsocket.c`.
-/

namespace FreeFlow.RSocket

open FreeFlow.Found Rsocket

/-! ## The calls in progress -/

/-- The completion is one of a receive. Kind: D -/
def Wc.isRecv : Wc → Bool
  | .send _ _ => false
  | _ => true

/-- How many completions in the queue are of receives. Kind: D -/
def recvCount (cq : List Wc) : ℕ := cq.countP Wc.isRecv

/-- One completion more. Kind: L -/
lemma recvCount_cons (wc : Wc) (cq : List Wc) :
    recvCount (wc :: cq) = recvCount cq + if wc.isRecv then 1 else 0 :=
  List.countP_cons

/-- Every completion is of a send or of a receive. Kind: L -/
lemma length_cq (cq : List Wc) : cq.length = (sendMsgs cq).length + recvCount cq := by
  induction cq with
  | nil => rfl
  | cons wc cq ih =>
      rw [sendMsgs, List.filterMap_cons, recvCount_cons, List.length_cons, ih]
      cases wc <;> simp [sendMsgs, Wc.isRecv] <;> omega

/-- The receives of a queue pair, posted or completed, are still there, and as long as it works they
are the same number. Kind: D -/
structure RecvsKept (qp qp' : Qp) : Prop where
  le : qp'.recvs + recvCount qp'.cq ≤ qp.recvs + recvCount qp.cq
  error : qp'.error = false → qp.error = false
  eq : qp'.error = false →
    qp'.recvs + (recvMsgs qp'.cq).length = qp.recvs + (recvMsgs qp.cq).length

/-- The receives and the completion queue are as they were. Kind: L -/
lemma recvsKept_of_eq {qp qp' : Qp} (hrecvs : qp'.recvs = qp.recvs) (hcq : qp'.cq = qp.cq)
    (herr : qp'.error = qp.error) : RecvsKept qp qp' :=
  ⟨by rw [hrecvs, hcq], by rw [herr]; exact id, fun _ => by rw [hrecvs, hcq]⟩

/-- The connection is made, or is going to be. Kind: D -/
def RsState.alive (st : RsState) : Prop := st.connected = true ∨ st.opening = true

/-- Where the calls in progress can be: a call of `rsend` or of `rs_poll_cq` was made on a
connection, `olen` has not gone over the largest transfer, a call of `rshutdown` sends no message of
the service thread. Of the receives that were posted at the start, some are posted, some are
completed, and some are to be posted again; on a connection that works these are all. Kind: D -/
structure CallsOk (p : Proc) : Prop where
  send : ∀ c, p.send = some c →
    p.rs.state.opening = false ∧ 0 < c.olen ∧ c.olen ≤ 2 * rsMaxTransfer
  poll : p.poll.isSome → p.rs.state.opening = false
  connected : p.rs.state.connected = true → p.rs.state.opening = false
  shut : p.shut ≠ some .keepalive
  recvs : p.rs.qp.recvs + recvCount p.rs.qp.cq + p.poll.getD 0 ≤ p.rs.cfg.rqSize
  recvs_eq : p.rs.state.alive → p.rs.qp.error = false →
    p.rs.qp.recvs + (recvMsgs p.rs.qp.cq).length + p.poll.getD 0 = p.rs.cfg.rqSize

/-- What a step of an end has to keep, when the other end has the configuration `peer`. Kind: D -/
structure Proc.Moved (peer : Config) (p : Proc) (o : Outcome) : Prop where
  keeps : Keeps peer p.rs o.proc.rs o.effect
  calls : CallsOk o.proc
  peer : o.proc.rs.peer = p.rs.peer
  opening : o.proc.rs.state.opening = p.rs.state.opening

/-- `olen` in the next round of `rsend`. Kind: L -/
lemma nextOlen_bounds {left olen : ℕ} (hpos : 0 < olen) (hle : olen ≤ 2 * rsMaxTransfer) :
    0 < nextOlen left olen ∧ nextOlen left olen ≤ 2 * rsMaxTransfer := by
  unfold nextOlen
  split_ifs <;> omega

namespace CallsOk

variable {p : Proc} {rs' : Rsocket}

/-- A step that is not seen by the calls in progress. Kind: L -/
lemma of_rs (h : CallsOk p) (hcfg : rs'.cfg = p.rs.cfg)
    (hopen : rs'.state.opening = p.rs.state.opening)
    (hconn : rs'.state.connected = true → p.rs.state.connected = true)
    (hrecvs : RecvsKept p.rs.qp rs'.qp) : CallsOk { p with rs := rs' } where
  send := fun c hc => by
    rw [hopen]
    exact h.send c hc
  poll := fun hp => by
    rw [hopen]
    exact h.poll hp
  connected := fun hc => by
    rw [hopen]
    exact h.connected (hconn hc)
  shut := h.shut
  recvs := by
    have hle := h.recvs
    have hle' := hrecvs.le
    simp only [hcfg]
    omega
  recvs_eq := fun halive herr => by
    have heq := h.recvs_eq (halive.imp hconn fun ho => hopen ▸ ho) (hrecvs.error herr)
    have heq' := hrecvs.eq herr
    simp only [hcfg]
    omega

/-- The local variables of the calls change. Kind: L -/
lemma of_calls {p' : Proc} (h : CallsOk p) (hrs : p'.rs = p.rs)
    (hsend : ∀ c, p'.send = some c →
      p.rs.state.opening = false ∧ 0 < c.olen ∧ c.olen ≤ 2 * rsMaxTransfer)
    (hpoll : p'.poll.isSome → p.rs.state.opening = false) (hrcnt : p'.poll.getD 0 ≤ p.poll.getD 0)
    (hrcnt' : p.rs.state.alive → p'.poll.getD 0 = p.poll.getD 0)
    (hshut : p'.shut ≠ some .keepalive) : CallsOk p' where
  send := fun c hc => by
    rw [hrs]
    exact hsend c hc
  poll := fun hp => by
    rw [hrs]
    exact hpoll hp
  connected := hrs ▸ h.connected
  shut := hshut
  recvs := by
    have hle := h.recvs
    rw [hrs]
    omega
  recvs_eq := by
    rw [hrs]
    intro halive herr
    rw [hrcnt' halive]
    exact h.recvs_eq halive herr

/-- `rs_poll_cq` returns on a connection that was left. Kind: L -/
lemma left (h : CallsOk p) (hopen : p.rs.state.opening = false)
    (hconn : ¬ p.rs.state.connected = true) : CallsOk { p with poll := none } := by
  refine h.of_calls rfl h.send (fun hp => by simp at hp) (Nat.zero_le _) (fun halive => ?_) h.shut
  exact absurd halive (not_or.mpr ⟨hconn, by simp [hopen]⟩)

/-- A packet is posted. Kind: L -/
lemma posted (h : CallsOk p) {q : Packet} {tx' : Tx} {rx' : Rx} (hp : p.rs.Posted rs' q tx' rx') :
    CallsOk { p with rs := rs' } :=
  h.of_rs hp.cfg (by rw [hp.state]) (by rw [hp.state]; exact id)
    (recvsKept_of_eq hp.recvs hp.cq (congrArg Line.error hp.line))

end CallsOk

namespace Proc

variable {peer : Config} {p : Proc} {o : Outcome}

/-- A step in which an end posts a packet. Kind: L -/
lemma moved_of_posted (hcalls : CallsOk p) {rs' : Rsocket} {q : Packet} {tx' : Tx} {rx' : Rx}
    {e : Effect} (hkeeps : Keeps peer p.rs rs' e) (hposted : p.rs.Posted rs' q tx' rx') :
    p.Moved peer ⟨{ p with rs := rs' }, e⟩ :=
  ⟨hkeeps, hcalls.posted hposted, hposted.peer, by rw [hposted.state]⟩

/-- A step of the calls alone. Kind: L -/
lemma moved_of_calls (hout : p.rs.OutInv) {p' : Proc} (hrs : p'.rs = p.rs) (hcalls : CallsOk p') :
    p.Moved peer ⟨p', {}⟩ where
  keeps := keeps_of_views (by rw [hrs]; exact hout) (by rw [hrs]) (by rw [hrs]) (by rw [hrs])
  calls := hcalls
  peer := by rw [hrs]
  opening := by rw [hrs]

/-- A round of `rsend`. Kind: L -/
lemma moved_rsendIter (hcalls : CallsOk p) (hout : p.rs.OutInv) (h : p.step .rsendIter = some o) :
    p.Moved peer o := by
  simp only [step] at h
  split at h
  case h_1 c hc =>
    split_ifs at h with hif
    obtain rfl := Option.some.inj h
    obtain ⟨hopen, hpos, hle⟩ := hcalls.send c hc
    have hlt : c.olen < 2 ^ 29 := by
      simp only [rsMaxTransfer] at hle
      omega
    have hposted := rsendIter_posted hout hif.2 hif.1 hpos hlt
    have hcalls' := hcalls.posted hposted
    refine ⟨keeps_rsendIter hout hopen hif.2 hif.1 hpos hlt, ?_, hposted.peer,
      by rw [hposted.state]⟩
    refine hcalls'.of_calls rfl ?_ hcalls'.poll le_rfl (fun _ => rfl) hcalls'.shut
    rintro c' hc'
    obtain rfl := Option.some.inj hc'
    exact ⟨by rw [hposted.state]; exact hopen, nextOlen_bounds hpos hle⟩
  case h_2 => simp at h

/-- A round of `rs_send_iomaps`. Kind: L -/
lemma moved_sendIomap (hcalls : CallsOk p) (hout : p.rs.OutInv)
    (hpeer : p.rs.state.opening = false → p.rs.peer = Peer.of p.rs.cfg.net peer)
    {mr : IomapMr} (h : p.step (.sendIomap mr) = some o) : p.Moved peer o := by
  simp only [step] at h
  split_ifs at h with hif
  obtain rfl := Option.some.inj h
  obtain ⟨hsend, hcan, hindex⟩ := hif
  obtain ⟨c, hc⟩ := Option.isSome_iff_exists.mp hsend
  have hopen := (hcalls.send c hc).1
  exact moved_of_posted hcalls (keeps_rsSendIomap hout hopen hcan (hpeer hopen) hindex)
    (rsSendIomap_posted hout hcan (index_lt (hpeer hopen) hindex))

/-- `rs_update_credits`. Kind: L -/
lemma moved_updateCredits (hcalls : CallsOk p) (hout : p.rs.OutInv)
    (hpeer : p.rs.state.opening = false → p.rs.peer = Peer.of p.rs.cfg.net peer)
    (h : p.step .updateCredits = some o) : p.Moved peer o := by
  simp only [step] at h
  split_ifs at h with hif
  obtain rfl := Option.some.inj h
  have hkeeps := keeps_rsUpdateCredits hout hif.2 (hpeer hif.2)
  unfold rsUpdateCredits at hkeeps ⊢
  split_ifs at hkeeps ⊢ with hgive
  · exact moved_of_posted hcalls hkeeps (rsSendCredits_posted hout hgive.2.1)
  · exact moved_of_calls hout rfl hcalls

/-! ## Completions -/

/-- What the calls see of a completion that is polled. Kind: L -/
lemma calls_of_poll (hcalls : CallsOk p) {rs' : Rsocket} {wc : Wc} {cq : List Wc}
    {poll' : Option ℕ} (hcq : p.rs.qp.cq = wc :: cq) (hcfg : rs'.cfg = p.rs.cfg)
    (hopen : rs'.state.opening = false) (hqp : rs'.qp = { p.rs.qp with cq := cq })
    (hconn : rs'.state.connected = true → p.rs.state.connected = true)
    (hrcnt : poll'.getD 0 + recvCount cq ≤ p.poll.getD 0 + recvCount (wc :: cq))
    (hrcnt' : rs'.state.connected = true →
      poll'.getD 0 + (recvMsgs cq).length = p.poll.getD 0 + (recvMsgs (wc :: cq)).length) :
    CallsOk { p with rs := rs', poll := poll' } where
  send := fun c hc => ⟨hopen, (hcalls.send c hc).2⟩
  poll := fun _ => hopen
  connected := fun _ => hopen
  shut := hcalls.shut
  recvs := by
    have hle := hcalls.recvs
    rw [hcq] at hle
    simp only [hcfg, hqp]
    omega
  recvs_eq := fun halive herr => by
    have hconn' : rs'.state.connected = true := halive.resolve_right (by simp [hopen])
    rw [hqp] at herr
    have heq := hcalls.recvs_eq (.inl (hconn hconn')) herr
    have heq' := hrcnt' hconn'
    rw [hcq] at heq
    simp only [hcfg, hqp]
    omega

/-- `rs_poll_cq` returns at once only when the connection is left. Kind: L -/
lemma connected_of_stop (rs : Rsocket) (msg : UInt32) :
    (rs.rsPollRecv msg).2 = true → (rs.rsPollRecv msg).1.state.connected = false := by
  unfold rsPollRecv
  cases rsMsgOp msg
  case ctrl =>
    simp only
    split_ifs <;> simp [rsDisconnected]
  all_goals simp

/-- A round of `rs_poll_cq`. Kind: L -/
lemma moved_pollOne (hcalls : CallsOk p) (hout : p.rs.OutInv)
    (harrived : ∀ msg ∈ recvMsgs p.rs.qp.cq, MsgOk msg) (h : p.step .pollOne = some o) :
    p.Moved peer o := by
  simp only [step] at h
  split at h
  case h_1 rcnt msg cq hpoll hcq =>
    obtain rfl := Option.some.inj h
    have hopen := hcalls.poll (by rw [hpoll]; rfl)
    have hmsg : MsgOk msg := harrived msg (by simp [hcq, recvMsgs])
    obtain ⟨hcfg, -, hqp, hpeer, -, -⟩ := rsPollRecv_fields p.rs.popCq hmsg
    obtain ⟨hopen', hconn⟩ := opening_rsPollRecv p.rs.popCq hopen msg
    refine ⟨keeps_rsPollRecv hout hopen hcq hmsg, ?_, hpeer, hopen'.trans hopen.symm⟩
    refine calls_of_poll hcalls hcq hcfg hopen' (by rw [hqp, popCq_eq hcq]) hconn ?_ ?_
    · rw [hpoll, recvCount_cons]
      split_ifs <;> simp_all [Wc.isRecv] <;> omega
    · intro hconn'
      have hgoes : ¬ (p.rs.popCq.rsPollRecv msg).2 = true := fun hstop => by
        rw [connected_of_stop _ _ hstop] at hconn'
        exact Bool.noConfusion hconn'
      rw [if_neg hgoes, hpoll]
      simp [recvMsgs]
      omega
  case h_2 rcnt cq hpoll hcq =>
    obtain rfl := Option.some.inj h
    have hopen := hcalls.poll (by rw [hpoll]; rfl)
    refine ⟨keeps_popFlushed hout hcq, ?_, rfl, rfl⟩
    refine calls_of_poll hcalls hcq rfl hopen (by rw [popCq_eq hcq]) id ?_ (fun _ => rfl)
    rw [recvCount_cons]
    omega
  case h_3 rcnt msg ok cq hpoll hcq =>
    obtain rfl := Option.some.inj h
    have hopen := hcalls.poll (by rw [hpoll]; rfl)
    obtain ⟨hcfg, -, -, hqp, hpeer, -⟩ := rsPollSend_fields p.rs.popCq msg ok
    obtain ⟨hopen', hconn⟩ := opening_rsPollSend p.rs.popCq hopen msg ok
    refine ⟨keeps_rsPollSend hout hopen hcq, ?_, hpeer, hopen'.trans hopen.symm⟩
    refine calls_of_poll hcalls hcq hcfg hopen' (by rw [hqp, popCq_eq hcq]) hconn ?_ (fun _ => rfl)
    rw [recvCount_cons]
    omega
  case h_4 => simp at h

/-- `rs_poll_cq` returns. Kind: L -/
lemma moved_pollLeave (hcalls : CallsOk p) (hout : p.rs.OutInv) (h : p.step .pollLeave = some o) :
    p.Moved peer o := by
  simp only [step] at h
  split at h
  case h_1 rcnt hpoll hcq =>
    obtain rfl := Option.some.inj h
    have hopen := hcalls.poll (by rw [hpoll]; rfl)
    have hle := hcalls.recvs
    have heq := hcalls.recvs_eq
    rw [hpoll, Option.getD_some] at hle heq
    unfold repost
    split_ifs with hconn
    · refine ⟨keeps_of_line hout rfl rfl rfl rfl rfl, ?_, rfl, rfl⟩
      refine ⟨hcalls.send, fun hp => by simp at hp, hcalls.connected, hcalls.shut, ?_, ?_⟩
      · simp only [Option.getD_none]
        omega
      · intro halive herr
        have heq' := heq halive herr
        simp only [Option.getD_none]
        omega
    · exact moved_of_calls hout rfl (hcalls.left hopen hconn)
  case h_2 => simp at h

/-- `rs_poll_cq` returns with an error. Kind: L -/
lemma moved_pollFail (hcalls : CallsOk p) (hout : p.rs.OutInv) (h : p.step .pollFail = some o) :
    p.Moved peer o := by
  obtain ⟨rcnt, hpoll, rfl⟩ := Option.map_eq_some_iff.mp h
  have hopen := hcalls.poll (by rw [hpoll]; rfl)
  have hle := hcalls.recvs
  split_ifs with hconn
  · refine ⟨keeps_of_line hout rfl rfl rfl hopen.symm rfl, ?_, rfl, hopen.symm⟩
    refine ⟨fun c hc => ⟨rfl, (hcalls.send c hc).2⟩, fun _ => rfl, fun _ => rfl, hcalls.shut, ?_, ?_⟩
    · simp only [Option.getD_none]
      omega
    · rintro (halive | halive) <;> exact Bool.noConfusion halive
  · exact moved_of_calls hout rfl (hcalls.left hopen hconn)

/-! ## `rshutdown` -/

/-- The first part of `rshutdown`. Kind: L -/
lemma moved_shutEnter (hcalls : CallsOk p) (hout : p.rs.OutInv) {how : How}
    (h : p.step (.shutEnter how) = some o) : p.Moved peer o := by
  simp only [step] at h
  split_ifs at h with hif
  obtain rfl := Option.some.inj h
  have hstate : (shutState p.rs.state how).1.opening = p.rs.state.opening ∧
      (shutState p.rs.state how).1.connected = p.rs.state.connected ∧
      (shutState p.rs.state how).2 ≠ some .keepalive := by
    cases how
    · refine ⟨rfl, rfl, ?_⟩
      simp only [shutState]
      split_ifs <;> simp
    · refine ⟨rfl, rfl, ?_⟩
      simp only [shutState]
      split_ifs <;> simp
    · exact ⟨rfl, rfl, by simp [shutState]⟩
  refine ⟨keeps_of_line hout rfl rfl rfl hstate.1 rfl, ?_, rfl, hstate.1⟩
  have hcalls' : CallsOk { p with rs := { p.rs with state := (shutState p.rs.state how).1 } } :=
    hcalls.of_rs rfl hstate.1 (by rw [hstate.2.1]; exact id) (recvsKept_of_eq rfl rfl rfl)
  exact hcalls'.of_calls rfl hcalls'.send hcalls'.poll le_rfl (fun _ => rfl) hstate.2.2

/-- The message of `rshutdown`. Kind: L -/
lemma moved_shutPost (hcalls : CallsOk p) (hout : p.rs.OutInv) (h : p.step .shutPost = some o) :
    p.Moved peer o := by
  simp only [step] at h
  split at h
  case h_1 ctrl hshut =>
    split_ifs at h with hif
    obtain rfl := Option.some.inj h
    have hctrl : ctrl ≠ .keepalive := by
      rintro rfl
      exact hcalls.shut hshut
    have hposted := postCtrl_posted hout hif.2 ctrl
    have hcalls' := hcalls.posted hposted
    refine ⟨keeps_postCtrl hout hif.2 hctrl, ?_, hposted.peer, by rw [hposted.state]⟩
    exact hcalls'.of_calls rfl hcalls'.send hcalls'.poll le_rfl (fun _ => rfl) (by simp)
  case h_2 => simp at h

/-! ## The queue pair -/

/-- A move of the queue pair. Kind: L -/
lemma moved_of_qp (hcalls : CallsOk p) {qp : Qp} (hkeeps : Keeps peer p.rs { p.rs with qp := qp } {})
    (hrecvs : RecvsKept p.rs.qp qp) : p.Moved peer ⟨{ p with rs := { p.rs with qp := qp } }, {}⟩ :=
  ⟨hkeeps, hcalls.of_rs rfl rfl id hrecvs, rfl, rfl⟩

/-- A completion of a send is none of a receive. Kind: L -/
lemma recvCount_append_send (cq : List Wc) (msg : UInt32) (ok : Bool) :
    recvCount (cq ++ [.send msg ok]) = recvCount cq := by
  simp [recvCount, Wc.isRecv]

/-- The completion of a send is put into the queue. Kind: L -/
lemma recvsKept_of_send {qp qp' : Qp} {msg : UInt32} {ok : Bool} (hrecvs : qp'.recvs = qp.recvs)
    (hcq : qp'.cq = qp.cq ++ [.send msg ok]) (herr : qp'.error = qp.error) : RecvsKept qp qp' := by
  refine ⟨?_, by rw [herr]; exact id, fun _ => ?_⟩
  · rw [hrecvs, hcq, recvCount_append_send]
  · rw [hrecvs, hcq, recvMsgs_append_send]

/-- A work request is flushed. Kind: L -/
lemma moved_flush (hcalls : CallsOk p) (hout : p.rs.OutInv) (h : p.step .flush = some o) :
    p.Moved peer o := by
  simp only [step] at h
  split_ifs at h with herr
  split at h
  case h_1 wr done _ _ hdone =>
    obtain rfl := Option.some.inj h
    refine moved_of_qp hcalls (keeps_of_error (outInv_complete hout (by simp [Qp.pending, hdone]) rfl)
      herr (recvMsgs_append_send _ _ _)) (recvsKept_of_send rfl rfl rfl)
  case h_2 wr q wire _ hdone hwire =>
    obtain rfl := Option.some.inj h
    refine moved_of_qp hcalls (keeps_of_error
      (outInv_complete hout (by simp [Qp.pending, hdone, hwire]) rfl) herr
      (recvMsgs_append_send _ _ _)) (recvsKept_of_send rfl rfl rfl)
  case h_3 wr sq hdone hwire hsq =>
    obtain rfl := Option.some.inj h
    refine moved_of_qp hcalls (keeps_of_error
      (outInv_complete hout (by simp [Qp.pending, hdone, hwire, hsq]) rfl) herr
      (recvMsgs_append_send _ _ _)) (recvsKept_of_send rfl rfl rfl)
  case h_4 => simp at h

/-- A receive is flushed. Kind: L -/
lemma moved_flushRecv (hcalls : CallsOk p) (hout : p.rs.OutInv) (h : p.step .flushRecv = some o) :
    p.Moved peer o := by
  simp only [step] at h
  split_ifs at h with hif
  obtain rfl := Option.some.inj h
  have hsends : sendMsgs (p.rs.qp.cq ++ [.recvFlushed]) = sendMsgs p.rs.qp.cq := by
    simp [sendMsgs]
  have harrived : recvMsgs (p.rs.qp.cq ++ [.recvFlushed]) = recvMsgs p.rs.qp.cq := by
    simp [recvMsgs]
  have herr : p.rs.qp.error ≠ false := by simp [hif.1]
  refine moved_of_qp hcalls (keeps_of_error ?_ hif.1 harrived)
    ⟨?_, fun h => absurd h herr, fun h => absurd h herr⟩
  · obtain ⟨first, last, hok⟩ := hout
    exact ⟨first, last, by simp only [hsends]; exact hok⟩
  · have hcount : recvCount (p.rs.qp.cq ++ [.recvFlushed]) = recvCount p.rs.qp.cq + 1 := by
      simp [recvCount, Wc.isRecv]
    have hne := hif.2
    simp only [hcount]
    omega

/-- **Every step of an end** keeps its accounts and both directions. Kind: L -/
lemma moved_of_step (hcalls : CallsOk p) (hout : p.rs.OutInv)
    (hpeer : p.rs.state.opening = false → p.rs.peer = Peer.of p.rs.cfg.net peer)
    (harrived : ∀ msg ∈ recvMsgs p.rs.qp.cq, MsgOk msg) {op : Op} (h : p.step op = some o) :
    p.Moved peer o := by
  cases op with
  | rsendEnter buf =>
      simp only [step] at h
      split_ifs at h with hif
      obtain rfl := Option.some.inj h
      refine moved_of_calls hout rfl (hcalls.of_calls rfl ?_ hcalls.poll le_rfl (fun _ => rfl) hcalls.shut)
      rintro c hc
      obtain rfl := Option.some.inj hc
      have holen : rsOlapStartSize ≤ 2 * rsMaxTransfer := by decide
      exact ⟨hif.2, Nat.succ_pos _, holen⟩
  | rsendIter => exact moved_rsendIter hcalls hout h
  | rsendLeave =>
      obtain ⟨c, -, rfl⟩ := Option.map_eq_some_iff.mp h
      exact moved_of_calls hout rfl
        (hcalls.of_calls rfl (fun _ hc => by simp at hc) hcalls.poll le_rfl (fun _ => rfl) hcalls.shut)
  | sendIomap mr => exact moved_sendIomap hcalls hout hpeer h
  | rrecvIter left =>
      simp only [step] at h
      split_ifs at h with hif
      obtain rfl := Option.some.inj h
      exact ⟨keeps_rrecvIter hout hif.2.1 left, hcalls.of_rs rfl rfl id (recvsKept_of_eq rfl rfl rfl), rfl,
        rfl⟩
  | updateCredits => exact moved_updateCredits hcalls hout hpeer h
  | pollEnter =>
      simp only [step] at h
      split_ifs at h with hif
      obtain rfl := Option.some.inj h
      exact moved_of_calls hout rfl
        (hcalls.of_calls rfl hcalls.send (fun _ => hif.2) (Nat.zero_le _)
          (fun _ => by rw [Option.isNone_iff_eq_none.mp hif.1]; rfl) hcalls.shut)
  | pollOne => exact moved_pollOne hcalls hout harrived h
  | pollLeave => exact moved_pollLeave hcalls hout h
  | pollFail => exact moved_pollFail hcalls hout h
  | shutEnter how => exact moved_shutEnter hcalls hout h
  | shutPost => exact moved_shutPost hcalls hout h
  | shutLeave =>
      obtain ⟨ctrl, -, rfl⟩ := Option.map_eq_some_iff.mp h
      exact moved_of_calls hout rfl
        (hcalls.of_calls rfl hcalls.send hcalls.poll le_rfl (fun _ => rfl) (by simp))
  | keepalive =>
      simp only [step] at h
      split_ifs at h with hif
      obtain rfl := Option.some.inj h
      exact moved_of_posted hcalls (keeps_postKeepalive hout hif.2.1)
        (postKeepalive_posted hout hif.2.1)
  | transmit =>
      simp only [step] at h
      split at h
      case h_1 wr sq hsq =>
        split_ifs at h
        obtain rfl := Option.some.inj h
        exact moved_of_qp hcalls (keeps_transmit hout hsq) (recvsKept_of_eq rfl rfl rfl)
      case h_2 => simp at h
  | ack =>
      simp only [step] at h
      split at h
      case h_1 wr done hdone =>
        split_ifs at h
        obtain rfl := Option.some.inj h
        exact moved_of_qp hcalls (keeps_ack hout hdone) (recvsKept_of_send rfl rfl rfl)
      case h_2 => simp at h
  | fail =>
      obtain rfl := Option.some.inj h
      exact moved_of_qp hcalls (keeps_of_error hout rfl rfl)
        ⟨le_rfl, fun h => Bool.noConfusion h, fun h => Bool.noConfusion h⟩
  | flush => exact moved_flush hcalls hout h
  | flushRecv => exact moved_flushRecv hcalls hout h

end Proc

/-! ## The connection -/

/-- The other end of the other end. Kind: L -/
@[simp] lemma Side.other_other (x : Side) : x.other.other = x := by
  cases x <;> rfl

/-- The other end is another one. Kind: L -/
@[simp] lemma Side.other_ne (x : Side) : x.other ≠ x := by
  cases x <;> decide

/-- There are two ends. Kind: L -/
lemma Side.forall_of_both {P : Side → Prop} {x : Side} (h : P x) (h' : P x.other) (z : Side) :
    P z := by
  cases x <;> cases z <;> assumption

/-- The direction in which `x` sends is in order. Kind: D -/
def DirAt (s : State) (x : Side) : Prop :=
  ∃ G, Dir (s.rs x).writer (s.rs x.other).reader (s.sent x) (s.got x.other) (s.closed x) G ∧
    G.polled.eof.isSome = s.heard x.other ∧ G.posted.io = s.mapped x

/-- **The invariant of a connection.** Kind: D -/
structure Inv (s : State) : Prop where
  out : ∀ x, (s.rs x).OutInv
  calls : ∀ x, CallsOk (s.proc x)
  peer : ∀ x, (s.rs x).state.opening = false →
    (s.rs x).peer = Peer.of (s.rs x).cfg.net (s.rs x.other).cfg
  dir : ∀ x, DirAt s x

/-- The accounts of an end when nothing was posted. Kind: L -/
lemma outInv_init (cfg : Config) : (rsInitBufs cfg).OutInv := by
  have hsq := cfg.sq_ge
  refine ⟨⟨0, 0, 0⟩, ⟨0, 0, 0⟩, ?_⟩
  refine ⟨rfl, ?_, ?_, ?_, ?_, rfl, rfl, ?_, ?_⟩ <;> simp [rsInitBufs]
  omega

/-- An end without calls. Kind: L -/
lemma callsOk_idle (cfg : Config) {rs : Rsocket} (hcfg : rs.cfg = cfg)
    (hqp : rs.qp = (rsInitBufs cfg).qp)
    (hstate : rs.state.connected = true → rs.state.opening = false) : CallsOk (.idle rs) where
  send := fun _ h => by simp [Proc.idle] at h
  poll := fun h => by simp [Proc.idle] at h
  connected := hstate
  shut := by simp [Proc.idle]
  recvs := by simp [Proc.idle, hqp, hcfg, rsInitBufs, recvCount]
  recvs_eq := fun _ _ => by simp [Proc.idle, hqp, hcfg, rsInitBufs, recvMsgs]

/-- **The start of a connection.** Kind: L -/
lemma inv_init (c d : Config) : Inv (init c d) := by
  have hsave := rsConnected_eq (rsInitBufs d) (rsInitBufs c)
  refine ⟨fun x => ?_, fun x => ?_, fun x => ?_, fun x => ?_⟩
  · cases x
    · exact outInv_init c
    · simp only [State.rs, init, Proc.idle, hsave]
      exact outInv_init d
  · cases x
    · exact callsOk_idle c rfl rfl (fun h => Bool.noConfusion h)
    · simp only [init, hsave]
      exact callsOk_idle d rfl rfl (fun _ => rfl)
  · cases x
    · exact fun h => Bool.noConfusion h
    · simp only [State.rs, init, Proc.idle, hsave]
      exact fun _ => rfl
  · cases x
    · refine ⟨.start, ?_, rfl, rfl⟩
      simp only [State.rs, init, Proc.idle, Side.other, hsave]
      exact (dir_init c d).readerAnswers rfl
    · refine ⟨.start, ?_, rfl, rfl⟩
      simp only [State.rs, init, Proc.idle, Side.other, hsave]
      exact (dir_init d c).writerAnswers rfl

/-- The messages an end has received are such that the other one sends. Kind: L -/
lemma Inv.msgOk {s : State} (h : Inv s) (x : Side) :
    ∀ msg ∈ recvMsgs (s.rs x).qp.cq, MsgOk msg := by
  obtain ⟨G, hdir, -⟩ := h.dir x.other
  rw [Side.other_other] at hdir
  exact hdir.arrived_ok

/-- A step of an end. Kind: L -/
lemma inv_on {s : State} {x : Side} {o : Outcome} (h : Inv s)
    (hmoved : (s.proc x).Moved (s.rs x.other).cfg o) : Inv (s.moved x o) := by
  have hself : (s.moved x o).proc x = o.proc := by simp [State.moved]
  have hother : (s.moved x o).proc x.other = s.proc x.other := by simp [State.moved]
  refine ⟨Side.forall_of_both (x := x) ?_ ?_, Side.forall_of_both (x := x) ?_ ?_,
    Side.forall_of_both (x := x) ?_ ?_, Side.forall_of_both (x := x) ?_ ?_⟩
  · rw [State.rs, hself]
    exact hmoved.keeps.out
  · rw [State.rs, hother]
    exact h.out x.other
  · rw [hself]
    exact hmoved.calls
  · rw [hother]
    exact h.calls x.other
  · rw [State.rs, State.rs, hself, hother, hmoved.opening, hmoved.peer, hmoved.keeps.cfg]
    exact h.peer x
  · rw [State.rs, State.rs, Side.other_other, hself, hother, hmoved.keeps.cfg]
    have := h.peer x.other
    rw [Side.other_other] at this
    exact this
  · obtain ⟨G, hdir, heof, hio⟩ := h.dir x
    obtain ⟨G', hdir', hmoves⟩ := hmoved.keeps.writer rfl hdir
    refine ⟨G', ?_, ?_, ?_⟩
    · rw [State.rs, State.rs, hself, hother]
      simpa [State.moved] using hdir'
    · rw [hmoves.1, heof, Bool.or_false]
      simp [State.moved]
    · rw [hmoves.2, hio]
      simp [State.moved]
  · obtain ⟨G, hdir, heof, hio⟩ := h.dir x.other
    rw [Side.other_other] at hdir heof
    obtain ⟨G', hdir', hmoves⟩ := hmoved.keeps.reader rfl hdir
    refine ⟨G', ?_, ?_, ?_⟩
    · rw [State.rs, State.rs, Side.other_other, hself, hother]
      simpa [State.moved] using hdir'
    · rw [hmoves.1, heof]
      simp [State.moved]
    · rw [hmoves.2, hio]
      simp [State.moved]

/-- Messages are received. Kind: L -/
lemma recvsKept_of_msgs {qp qp' : Qp} {msgs : List UInt32}
    (hqp : qp' = { qp with recvs := qp.recvs - msgs.length, cq := qp.cq ++ msgs.map .recv })
    (hle : msgs.length ≤ qp.recvs) : RecvsKept qp qp' := by
  have hcount : recvCount (msgs.map .recv) = msgs.length := by
    simp [recvCount, List.countP_eq_length, Wc.isRecv]
  subst hqp
  refine ⟨?_, id, fun _ => ?_⟩
  · simp only [recvCount, List.countP_append] at hcount ⊢
    omega
  · have hmsgs : (recvMsgs (qp.cq ++ msgs.map .recv)).length =
        (recvMsgs qp.cq).length + msgs.length := by
      rw [recvMsgs, List.filterMap_append, ← recvMsgs, ← recvMsgs, recvMsgs_map_recv,
        List.length_append]
    simp only [hmsgs]
    omega

/-- A packet arrives. Kind: L -/
lemma inv_arrive {s s' : State} {x : Side} (h : Inv s) (hstep : step s (.arrive x) = some s') :
    Inv s' := by
  simp only [step] at hstep
  split at hstep
  case h_2 => simp at hstep
  case h_1 wr p wire hwire =>
    split_ifs at hstep with herr
    obtain ⟨peer', hdeliver, rfl⟩ := Option.map_eq_some_iff.mp hstep
    obtain ⟨herr, -⟩ := not_or.mp herr
    have herr : (s.rs x).qp.error = false := by simpa using herr
    obtain ⟨-, hcfg, -, hpeer, hstate, hqp, hle⟩ := deliver_eq_some hdeliver
    obtain ⟨G, hdir, heof, hio⟩ := h.dir x
    obtain ⟨G', hdir', heof', hio'⟩ := h.dir x.other
    rw [Side.other_other] at hdir' heof'
    obtain ⟨⟨G₁, hdir₁, hmoves₁⟩, G₂, hdir₂, hmoves₂⟩ := dir_arrives hdir hdir' herr hwire hdeliver
    set t : State := { s with
      proc := Function.update
        (Function.update s.proc x.other { s.proc x.other with rs := peer' }) x
        { s.proc x with rs := (s.rs x).arrived wr wire } }
    have hself : t.proc x = { s.proc x with rs := (s.rs x).arrived wr wire } := by
      simp [t]
    have hother : t.proc x.other = { s.proc x.other with rs := peer' } := by
      simp [t]
    change Inv t
    refine ⟨Side.forall_of_both (x := x) ?_ ?_, Side.forall_of_both (x := x) ?_ ?_,
      Side.forall_of_both (x := x) ?_ ?_, Side.forall_of_both (x := x) ?_ ?_⟩
    · rw [State.rs, hself]
      exact outInv_arrived (h.out x) hwire
    · rw [State.rs, hother]
      exact outInv_deliver (h.out x.other) hdeliver
    · rw [hself]
      exact (h.calls x).of_rs rfl rfl id (recvsKept_of_eq rfl rfl rfl)
    · rw [hother]
      exact (h.calls x.other).of_rs hcfg (by rw [hstate]) (by rw [hstate]; exact id)
        (recvsKept_of_msgs hqp hle)
    · rw [State.rs, State.rs, hself, hother, hcfg]
      exact h.peer x
    · rw [State.rs, State.rs, Side.other_other, hself, hother, hcfg, hstate, hpeer]
      have := h.peer x.other
      rw [Side.other_other] at this
      exact this
    · refine ⟨G₁, ?_, ?_, ?_⟩
      · rw [State.rs, State.rs, hself, hother]
        exact hdir₁
      · rw [hmoves₁.1, heof, Bool.or_false]
      · rw [hmoves₁.2, hio]
        rfl
    · refine ⟨G₂, ?_, ?_, ?_⟩
      · rw [State.rs, State.rs, Side.other_other, hself, hother]
        exact hdir₂
      · rw [hmoves₂.1, heof', Bool.or_false, Side.other_other]
      · rw [hmoves₂.2, hio']
        rfl

/-- The answer arrives. Kind: L -/
lemma inv_answer {s s' : State} {x : Side} (h : Inv s) (hstep : step s (.answer x) = some s') :
    Inv s' := by
  simp only [step] at hstep
  split_ifs at hstep with hopen
  obtain rfl := Option.some.inj hstep
  rw [rsConnected_eq]
  set rs' : Rsocket := { s.rs x with
    peer := Peer.of (s.rs x).cfg.net (s.rs x.other).cfg
    rx := { (s.rs x).rx with remoteSge := 1 }
    tx := { (s.rs x).tx with
      target := (s.rs x).tx.target.write 0 ((grant (s.rs x.other).cfg 0).bytes (s.rs x).cfg.net)
      sseqComp := UInt16.ofNat (s.rs x.other).cfg.rqSize }
    state := rsConnectRdwr }
  set t : State := { s with proc := Function.update s.proc x { s.proc x with rs := rs' } }
  have hself : t.proc x = { s.proc x with rs := rs' } := by
    simp [t]
  have hother : t.proc x.other = s.proc x.other := by
    simp [t]
  have hcalls := h.calls x
  refine ⟨Side.forall_of_both (x := x) ?_ ?_, Side.forall_of_both (x := x) ?_ ?_,
    Side.forall_of_both (x := x) ?_ ?_, Side.forall_of_both (x := x) ?_ ?_⟩
  · rw [State.rs, hself]
    exact h.out x
  · rw [State.rs, hother]
    exact h.out x.other
  · rw [hself]
    exact ⟨fun c hc => ⟨rfl, (hcalls.send c hc).2⟩, fun _ => rfl, fun _ => rfl, hcalls.shut,
      hcalls.recvs, fun _ => hcalls.recvs_eq (.inr hopen)⟩
  · rw [hother]
    exact h.calls x.other
  · rw [State.rs, State.rs, hself, hother]
    exact fun _ => rfl
  · rw [State.rs, State.rs, Side.other_other, hself, hother]
    have := h.peer x.other
    rw [Side.other_other] at this
    exact this
  · obtain ⟨G, hdir, heof, hio⟩ := h.dir x
    refine ⟨G, ?_, heof, hio⟩
    rw [State.rs, State.rs, hself, hother]
    exact hdir.writerAnswers hopen
  · obtain ⟨G, hdir, heof, hio⟩ := h.dir x.other
    refine ⟨G, ?_, heof, hio⟩
    rw [Side.other_other] at hdir
    rw [State.rs, State.rs, Side.other_other, hself, hother]
    exact hdir.readerAnswers hopen

/-- **Every step keeps the invariant.** Kind: L -/
lemma inv_step {s s' : State} {a : Act} (h : Inv s) (hstep : step s a = some s') : Inv s' := by
  cases a with
  | on x op =>
      obtain ⟨o, ho, rfl⟩ := Option.map_eq_some_iff.mp hstep
      exact inv_on h (Proc.moved_of_step (h.calls x) (h.out x) (h.peer x) (h.msgOk x) ho)
  | arrive x => exact inv_arrive h hstep
  | answer x => exact inv_answer h hstep

/-- **The invariant holds along every run.** Kind: L -/
lemma inv_of_exec {c d : Config} {as : List Act} {s : State}
    (hrun : exec step (init c d) as = some s) : Inv s :=
  exec_invariant (fun _ _ _ h hs => inv_step h hs) (inv_init c d) hrun

end FreeFlow.RSocket
