import FreeFlow.RSocket.FlowSteps

/-!
# Every step of an end keeps both directions in order

The functions of `rsocket.c` and the moves of the hardware, with what they do to the two directions
an end takes part in. `Keeps` is what a step has to show: the accounts stay in order, and so does
the invariant of the direction in which the end sends, whoever receives, and of the one in which it
receives, whoever sends.

* `keeps_rsendIter`, `keeps_rsSendIomap`, `keeps_rsUpdateCredits`, `keeps_postCtrl`,
  `keeps_postKeepalive` — what posts.
* `keeps_rsPollRecv`, `keeps_rsPollSend` — what `rs_poll_cq` does with completions.
* `keeps_rrecvIter` — what `rrecv` does.
* `keeps_transmit`, `keeps_ack`, `keeps_flush`, `keeps_fail` — the queue pair.

Source: `rsocket.c`.
-/

namespace FreeFlow.RSocket

open FreeFlow.Found

/-- A step of an end from `rs` to `rs'`, with the effect `e`, keeps the accounts and both
directions. The other end has the configuration `peer`. Kind: D -/
structure Keeps (peer : Config) (rs rs' : Rsocket) (e : Effect) : Prop where
  out : rs'.OutInv
  cfg : rs'.cfg = rs.cfg
  writer : ∀ {r : ReaderView} {sent got : List UInt8} {closed : Option ℕ} {G : Ghost},
    r.cfg = peer → Dir rs.writer r sent got closed G →
      ∃ G', Dir rs'.writer r (sent ++ e.sent) got (closedAfter e.closes sent closed) G' ∧
        G.Moves G' false e.maps
  reader : ∀ {w : WriterView} {sent got : List UInt8} {closed : Option ℕ} {G : Ghost},
    w.cfg = peer → Dir w rs.reader sent got closed G →
      ∃ G', Dir w rs'.reader sent (got ++ e.got) closed G' ∧ G.Moves G' e.hears 0

namespace Rsocket

variable {peer : Config} {rs rs' : Rsocket}

/-- A step that the other end cannot see. Kind: L -/
lemma keeps_of_views (hout : rs'.OutInv) (hcfg : rs'.cfg = rs.cfg) (hw : rs'.writer = rs.writer)
    (hr : rs'.reader = rs.reader) : Keeps peer rs rs' {} where
  out := hout
  cfg := hcfg
  writer := fun _ h => ⟨_, by rw [hw, List.append_nil]; exact h, Ghost.moves_of_eq rfl rfl⟩
  reader := fun _ h => ⟨_, by rw [hr, List.append_nil]; exact h, Ghost.moves_of_eq rfl rfl⟩

/-- The views of an end after a packet was posted. Kind: L -/
lemma Posted.views {p : Packet} {tx' : Tx} {rx' : Rx} (h : rs.Posted rs' p tx' rx') :
    rs'.writer = ⟨rs.cfg, tx', rs.state.opening, rs.line.post p⟩ ∧
      rs'.reader = ⟨rs.cfg, rx', rs.state.opening, rs.line.post p⟩ := by
  rw [writer, reader, h.cfg, h.tx, h.rx, h.state, h.line]
  exact ⟨rfl, rfl⟩

/-! ## Posting -/

/-- **A round of `rsend`.** Kind: L -/
lemma keeps_rsendIter (hout : rs.OutInv) (hopen : rs.state.opening = false) (hcan : rs.rsCanSend)
    {buf : List UInt8} (hbuf : buf ≠ []) {olen : ℕ} (holen : 0 < olen) (hlt : olen < 2 ^ 29) :
    Keeps peer rs (rs.rsendIter buf olen) { sent := buf.take (rs.xferSize buf.length olen) } := by
  have hposted := rsendIter_posted hout hcan hbuf holen hlt
  obtain ⟨hw, hr⟩ := hposted.views
  obtain ⟨hpos, hleft, holen', -, htarget⟩ :=
    xferSize_spec hout hcan (List.length_pos_iff.mpr hbuf) holen
  set n := rs.xferSize buf.length olen with hn
  have hlen : (buf.take n).length = n := by simpa using hleft
  refine ⟨hposted.out, hposted.cfg, fun _ h => ?_, fun _ h => ?_⟩
  · have hne : buf.take n ≠ [] := List.length_pos_iff.mp (by omega)
    have hsend := h.sendData hopen hcan.2.2.1 hne (hlen.symm ▸ htarget) (by omega)
    rw [hlen] at hsend
    rw [hw, dataPacket, hlen]
    exact ⟨_, hsend, Ghost.moves_of_eq rfl rfl⟩
  · rw [hr, List.append_nil]
    exact ⟨_, h.readerPosts
      (by simp [dataPacket, hlen, rsMsgOp_rsMsgSet _ (show n < 2 ^ 29 by omega)]),
      Ghost.moves_of_eq rfl rfl⟩

/-- The number of a mapping fits into a message. Kind: L -/
lemma index_lt (hpeer : rs.peer = Peer.of rs.cfg.net peer) {i : ℕ}
    (hi : i < rs.peer.remoteIomap.length.toNat) : i < 2 ^ 29 := by
  have hscale := scaleToValue_valueToScale_le peer.iomap_le
  have hle := peer.iomap_le
  have hmod := Nat.mod_le (rsScaleToValue (rsValueToScale peer.targetIomapSize 8 % 256) 8) (2 ^ 32)
  rw [hpeer, Peer.of, UInt32.toNat_ofNat'] at hi
  omega

/-- What an end knows of the table of mappings of the other one. Kind: L -/
lemma packetOk_iomapPacket (hpeer : rs.peer = Peer.of rs.cfg.net peer) {mr : IomapMr}
    (hindex : mr.index < rs.peer.remoteIomap.length.toNat) (sent : List UInt8) (m : Mark) :
    rsMsgOp (rs.iomapPacket mr).msg = .iomapSgl ∧ PacketOk peer sent m (rs.iomapPacket mr) := by
  have hscale := scaleToValue_valueToScale_le peer.iomap_le
  have hlt : mr.index < peer.targetIomapSize := by
    rw [hpeer, Peer.of, UInt32.toNat_ofNat'] at hindex
    exact lt_of_lt_of_le (lt_of_lt_of_le hindex (Nat.mod_le _ _)) hscale
  have hop : rsMsgOp (rs.iomapPacket mr).msg = .iomapSgl := by
    have hle := peer.iomap_le
    exact rsMsgOp_rsMsgSet _ (by omega)
  refine ⟨hop, ?_⟩
  simp only [PacketOk, hop]
  refine ⟨rfl, rs.length_iomapBytes mr, mr.index, hlt, ?_, ?_⟩
  · simp [iomapPacket, hpeer, Peer.of]
  · simp only [iomapPacket, hpeer, Peer.of, UInt64.add_assoc, ← UInt64.ofNat_add]

/-- **A round of `rs_send_iomaps`.** Kind: L -/
lemma keeps_rsSendIomap (hout : rs.OutInv) (hopen : rs.state.opening = false) (hcan : rs.rsCanSend)
    (hpeer : rs.peer = Peer.of rs.cfg.net peer) {mr : IomapMr}
    (hindex : mr.index < rs.peer.remoteIomap.length.toNat) :
    Keeps peer rs (rs.rsSendIomap mr) { maps := 1 } := by
  have hlt := index_lt hpeer hindex
  have hposted := rsSendIomap_posted hout hcan hlt
  obtain ⟨hw, hr⟩ := hposted.views
  refine ⟨hposted.out, hposted.cfg, fun hcfg h => ?_, fun _ h => ?_⟩
  · obtain ⟨hop, hok⟩ := packetOk_iomapPacket hpeer hindex _ _
    rw [hw, List.append_nil]
    exact ⟨_, h.sendIomap hopen hcan.2.2.1 hop (hcfg ▸ hok), (Bool.or_false _).symm, rfl⟩
  · rw [hr, List.append_nil]
    exact ⟨_, h.readerPosts (by simp [iomapPacket, rsMsgOp_rsMsgSet _ hlt]),
      Ghost.moves_of_eq rfl rfl⟩

/-- A packet without a message, or with credits, does not end a stream. Kind: L -/
lemma eof_pass_of_sgl {m : Mark} {p : Packet} (hop : rsMsgOp p.msg = .sgl) : m.pass p = m := by
  rw [Mark.pass, Mark.next_sgl hop, ite_self]

/-- The packet with the credits has credits. Kind: L -/
lemma creditPacket_msg (rs : Rsocket) :
    rs.creditPacket.msg = rs.creditMsg ∧ rs.creditPacket.withImm = true := by
  unfold creditPacket
  split_ifs <;> exact ⟨rfl, rfl⟩

/-- Half of the receive buffer is free, as a number. Kind: L -/
lemma halfFree_iff {w : WriterView} {sent got : List UInt8} {closed : Option ℕ} {G : Ghost}
    (h : Dir w rs.reader sent got closed G) :
    rs.halfFree ↔ (rs.cfg.half : ℤ) ≤ rs.rx.rbufBytesAvail := by
  have havail : 0 ≤ rs.rx.rbufBytesAvail ∧ rs.rx.rbufBytesAvail ≤ rs.cfg.rbufSize := h.avail
  have hlt := rs.cfg.rbuf_lt
  rw [halfFree, unsigned_eq havail.1 (by omega), Config.rbufSize_div_two]
  omega

/-- The half that is handed out, as the other host reads it. Kind: L -/
lemma bytes_creditSge (hpeer : rs.peer = Peer.of rs.cfg.net peer) :
    rs.creditSge.bytes rs.cfg.net = (⟨rs.cfg.rmr.addr + UInt64.ofNat rs.rx.rbufFreeOffset,
      rs.cfg.rmr.rkey, UInt32.ofNat rs.cfg.half⟩ : RsSge).bytes peer.net := by
  have hswap : rs.peer.swapSgl = (rs.cfg.net != peer.net) := by
    rw [hpeer]
    rfl
  unfold creditSge
  rw [hswap]
  split_ifs with hne
  · rw [RsSge.bytes_bswap, show (!rs.cfg.net) = peer.net by
      cases hn : rs.cfg.net <;> cases hn' : peer.net <;> simp_all]
    rfl
  · rw [show rs.cfg.net = peer.net by
      cases hn : rs.cfg.net <;> cases hn' : peer.net <;> simp_all]
    rfl

/-- **Credits.** Kind: L -/
lemma keeps_rsSendCredits (hout : rs.OutInv) (hopen : rs.state.opening = false)
    (havail : rs.rsCtrlAvail) (hpeer : rs.peer = Peer.of rs.cfg.net peer) :
    Keeps peer rs rs.rsSendCredits {} := by
  have hposted := rsSendCredits_posted hout havail
  obtain ⟨hw, hr⟩ := hposted.views
  obtain ⟨hmsg, himm⟩ := rs.creditPacket_msg
  have hop : rsMsgOp rs.creditPacket.msg = .sgl := hmsg ▸ rsMsgOp_rsMsgSet _ rs.credit_lt
  refine ⟨hposted.out, hposted.cfg, fun _ h => ?_, fun hcfg h => ?_⟩
  · have hposts := h.writerPosts (p := rs.creditPacket) (.inl ⟨hop, himm⟩)
    rw [eof_pass_of_sgl hop, h.eof_eq] at hposts
    rw [hw, List.append_nil]
    exact ⟨_, hposts, Ghost.moves_of_eq rfl rfl⟩
  · rw [hr, List.append_nil, creditRx, creditPacket]
    by_cases hhalf : rs.halfFree
    · have hlen : rs.peer.remoteSgl.length.toNat = rsSglSize := by
        rw [hpeer]
        rfl
      rw [if_pos hhalf, if_pos hhalf, hlen]
      refine ⟨_, h.readerGrants hopen ((halfFree_iff h).mp hhalf) rfl ?_ ?_ ?_,
        Ghost.moves_of_eq rfl rfl⟩
      · rw [hcfg]
        exact bytes_creditSge hpeer
      · rw [hcfg, hpeer]
        rfl
      · rw [hcfg, hpeer]
        rfl
    · rw [if_neg hhalf, if_neg hhalf]
      exact ⟨_, h.readerCredits rfl rfl, Ghost.moves_of_eq rfl rfl⟩

/-- **`rs_update_credits`.** Kind: L -/
lemma keeps_rsUpdateCredits (hout : rs.OutInv) (hopen : rs.state.opening = false)
    (hpeer : rs.peer = Peer.of rs.cfg.net peer) : Keeps peer rs rs.rsUpdateCredits {} := by
  unfold rsUpdateCredits
  split_ifs with hgive
  · exact keeps_rsSendCredits hout hopen hgive.2.1 hpeer
  · exact keeps_of_views hout rfl rfl rfl

/-- **The message of `rshutdown`** ends the stream. Kind: L -/
lemma keeps_postCtrl (hout : rs.OutInv) (havail : rs.rsCtrlAvail) {ctrl : RsCtrl}
    (hctrl : ctrl ≠ .keepalive) : Keeps peer rs (rs.postCtrl ctrl) { closes := true } := by
  have hposted := postCtrl_posted hout havail ctrl
  obtain ⟨hw, hr⟩ := hposted.views
  have hlt : ctrl.code < 2 ^ 29 := by cases ctrl <;> decide
  have hop : rsMsgOp (ctrlPacket ctrl true).msg = .ctrl := rsMsgOp_rsMsgSet _ hlt
  have hends : Ends (ctrlPacket ctrl true).msg := by
    refine ⟨hop, ?_⟩
    simp only [ctrlPacket, rsMsgData_rsMsgSet _ hlt]
    cases ctrl <;> simp_all
  refine ⟨hposted.out, hposted.cfg, fun _ h => ?_, fun _ h => ?_⟩
  · have hposts := h.writerPosts (p := ctrlPacket ctrl true) (.inr ⟨hop, rfl⟩)
    have hpass : ∀ m : Mark, m.pass (ctrlPacket ctrl true) =
        { m with eof := some (m.eof.getD m.pos) } := by
      intro m
      have himm : (ctrlPacket ctrl true).withImm = true := rfl
      rw [Mark.pass, if_pos himm, Mark.next_ctrl hop, if_pos hends]
    rw [hpass, h.eof_eq, h.pos_eq] at hposts
    rw [hw, List.append_nil]
    exact ⟨_, hposts, Ghost.moves_of_eq rfl rfl⟩
  · rw [hr, List.append_nil]
    exact ⟨_, h.readerPosts (by simp [hop]), Ghost.moves_of_eq rfl rfl⟩

/-- **The message of the service thread.** Kind: L -/
lemma keeps_postKeepalive (hout : rs.OutInv) (havail : rs.rsCtrlAvail) :
    Keeps peer rs rs.postKeepalive {} := by
  have hposted := postKeepalive_posted hout havail
  obtain ⟨hw, hr⟩ := hposted.views
  have hop : rsMsgOp (ctrlPacket .keepalive false).msg = .ctrl :=
    rsMsgOp_rsMsgSet _ (by decide)
  refine ⟨hposted.out, hposted.cfg, fun _ h => ?_, fun _ h => ?_⟩
  · have hposts := h.writerPosts (p := ctrlPacket .keepalive false) (.inr ⟨hop, rfl⟩)
    have hpass : ∀ m : Mark, m.pass (ctrlPacket .keepalive false) = m := fun _ => rfl
    rw [hpass, h.eof_eq] at hposts
    rw [hw, List.append_nil]
    exact ⟨_, hposts, Ghost.moves_of_eq rfl rfl⟩
  · rw [hr, List.append_nil]
    exact ⟨_, h.readerPosts (by simp [hop]), Ghost.moves_of_eq rfl rfl⟩

/-! ## Completions -/

/-- The completion queue without its first entry. Kind: L -/
lemma popCq_eq {wc : Wc} {cq : List Wc} (hcq : rs.qp.cq = wc :: cq) :
    rs.popCq = { rs with qp := { rs.qp with cq := cq } } := by
  rw [popCq, hcq, List.tail_cons]

/-- What `rs_poll_cq` does with a message, field by field. Kind: L -/
lemma rsPollRecv_fields (rs : Rsocket) {msg : UInt32} (hmsg : MsgOk msg) :
    (rs.rsPollRecv msg).1.cfg = rs.cfg ∧ (rs.rsPollRecv msg).1.out = rs.out ∧
      (rs.rsPollRecv msg).1.qp = rs.qp ∧ (rs.rsPollRecv msg).1.peer = rs.peer ∧
      (rs.rsPollRecv msg).1.tx = (if rsMsgOp msg = .sgl then
        { rs.tx with sseqComp := UInt16.ofNat (rsMsgData msg) } else rs.tx) ∧
      (rs.rsPollRecv msg).1.rx = (if rsMsgOp msg = .data then { rs.rx with
        rmsg := Function.update rs.rx.rmsg rs.rx.rmsgTail (rsMsgData msg)
        rmsgTail := if rs.rx.rmsgTail + 1 = rs.cfg.rqSize + 1 then 0 else rs.rx.rmsgTail + 1 }
        else rs.rx) := by
  unfold MsgOk at hmsg
  unfold rsPollRecv
  split at hmsg
  · rename_i hop
    simp [hop, pushRmsg]
  · rename_i hop
    simp [hop]
  · rename_i hop
    simp [hop]
  · rename_i hop
    simp only [hop, reduceCtorEq, if_false]
    split_ifs <;> simp
  · exact absurd hmsg id

/-- The state of the connection after a message: as it was, no longer readable, or left. Kind: L -/
lemma rsPollRecv_state (rs : Rsocket) (msg : UInt32) :
    ((rs.rsPollRecv msg).1.state = rs.state ∧ ¬ Ends msg) ∨
      (Ends msg ∧ ((rs.rsPollRecv msg).1.state = { rs.state with readable := false } ∨
        (rs.rsPollRecv msg).1.state = rsDisconnected)) := by
  unfold rsPollRecv Ends
  cases rsMsgOp msg
  case ctrl =>
    simp only [true_and]
    split_ifs <;> simp_all
  all_goals exact .inl ⟨rfl, by simp⟩

/-- The counters after a completion was polled. Kind: L -/
lemma rsPollSend_fields (rs : Rsocket) (msg : UInt32) (ok : Bool) :
    (rs.rsPollSend msg ok).cfg = rs.cfg ∧ (rs.rsPollSend msg ok).tx = rs.tx ∧
      (rs.rsPollSend msg ok).rx = rs.rx ∧ (rs.rsPollSend msg ok).qp = rs.qp ∧
      (rs.rsPollSend msg ok).peer = rs.peer ∧ (rs.rsPollSend msg ok).out.sbuf = rs.out.sbuf := by
  unfold rsPollSend
  cases rsMsgOp msg <;> simp only <;> split_ifs <;> simp

/-- The state of the connection after a completion: as it was, left after the message of
`rshutdown`, or an error. Kind: L -/
lemma rsPollSend_state (rs : Rsocket) (msg : UInt32) (ok : Bool) :
    (rs.rsPollSend msg ok).state = rs.state ∨
      (Ends msg ∧ (rs.rsPollSend msg ok).state = rsDisconnected) ∨
      (ok = false ∧ (rs.rsPollSend msg ok).state = rsError) := by
  unfold rsPollSend Ends
  cases rsMsgOp msg <;> simp only <;> split_ifs <;> simp_all

/-- A state that `rs_poll_cq` leads to is not one before the connection. Kind: L -/
lemma opening_of_states {st st' : RsState}
    (h : st' = st ∨ st' = { st with readable := false } ∨ st' = rsDisconnected ∨ st' = rsError)
    (hopen : st.opening = false) :
    st'.opening = false ∧ (st'.connected = true → st.connected = true) := by
  rcases h with rfl | rfl | rfl | rfl
  · exact ⟨hopen, id⟩
  · exact ⟨hopen, id⟩
  · exact ⟨rfl, fun h => Bool.noConfusion h⟩
  · exact ⟨rfl, fun h => Bool.noConfusion h⟩

/-- A message does not lead back before the connection. Kind: L -/
lemma opening_rsPollRecv (rs : Rsocket) (hopen : rs.state.opening = false) (msg : UInt32) :
    (rs.rsPollRecv msg).1.state.opening = false ∧
      ((rs.rsPollRecv msg).1.state.connected = true → rs.state.connected = true) := by
  refine opening_of_states ?_ hopen
  rcases rsPollRecv_state rs msg with ⟨h, -⟩ | ⟨-, h | h⟩ <;> simp [h]

/-- A completion does not lead back before the connection. Kind: L -/
lemma opening_rsPollSend (rs : Rsocket) (hopen : rs.state.opening = false) (msg : UInt32)
    (ok : Bool) : (rs.rsPollSend msg ok).state.opening = false ∧
      ((rs.rsPollSend msg ok).state.connected = true → rs.state.connected = true) := by
  refine opening_of_states ?_ hopen
  rcases rsPollSend_state rs msg ok with h | ⟨-, h⟩ | ⟨-, h⟩ <;> simp [h]

/-- **A message is polled.** Kind: L -/
lemma keeps_rsPollRecv (hout : rs.OutInv) (hopen : rs.state.opening = false) {msg : UInt32}
    {cq : List Wc} (hcq : rs.qp.cq = .recv msg :: cq) (hmsg : MsgOk msg) :
    Keeps peer rs (rs.popCq.rsPollRecv msg).1 { hears := Ends msg } := by
  rw [popCq_eq hcq]
  obtain ⟨hcfg, hout', hqp, -, htx, hrx⟩ :=
    rsPollRecv_fields { rs with qp := { rs.qp with cq := cq } } hmsg
  have hopen' := (opening_rsPollRecv { rs with qp := { rs.qp with cq := cq } } hopen msg).1
  have harrived : rs.line.arrived = msg :: recvMsgs cq := by
    simp [line, hcq, recvMsgs]
  have hline : (rsPollRecv { rs with qp := { rs.qp with cq := cq } } msg).1.line =
      { rs.line with arrived := recvMsgs cq } := by
    simp only [line, flight, hqp, hout']
  refine ⟨?_, hcfg, fun _ h => ?_, fun _ h => ?_⟩
  · obtain ⟨first, last, hok⟩ := hout
    refine ⟨first, last, ?_⟩
    have hsends : sendMsgs rs.qp.cq = sendMsgs cq := by simp [hcq, sendMsgs]
    rw [hcfg, hout', hqp]
    rw [hsends] at hok
    exact hok
  · obtain ⟨known, hpolls⟩ := h.writerPolls hopen harrived htx
    rw [show rs.writer.opening = false from hopen] at hpolls
    rw [List.append_nil, writer, hcfg, hline, hopen']
    exact ⟨_, hpolls, Ghost.moves_of_eq rfl rfl⟩
  · obtain ⟨queue, hpolls⟩ := h.readerPolls harrived hrx
    rw [show rs.reader.opening = false from hopen] at hpolls
    rw [List.append_nil, reader, hcfg, hline, hopen']
    exact ⟨_, hpolls, Mark.isSome_eof_next _ _, rfl⟩

/-- A step after which the line is the same. Kind: L -/
lemma keeps_of_line (hout : rs'.OutInv) (hcfg : rs'.cfg = rs.cfg) (htx : rs'.tx = rs.tx)
    (hrx : rs'.rx = rs.rx) (hopen : rs'.state.opening = rs.state.opening)
    (hline : rs'.line = rs.line) : Keeps peer rs rs' {} := by
  apply keeps_of_views hout hcfg
  · rw [writer, writer, hcfg, htx, hopen, hline]
  · rw [reader, reader, hcfg, hrx, hopen, hline]

/-- **A completion is polled**: what the work request has used is given back. Kind: L -/
lemma keeps_rsPollSend (hout : rs.OutInv) (hopen : rs.state.opening = false) {msg : UInt32}
    {ok : Bool} {cq : List Wc} (hcq : rs.qp.cq = .send msg ok :: cq) :
    Keeps peer rs (rs.popCq.rsPollSend msg ok) {} := by
  rw [popCq_eq hcq]
  obtain ⟨hcfg, htx, hrx, hqp, -, hsbuf⟩ :=
    rsPollSend_fields { rs with qp := { rs.qp with cq := cq } } msg ok
  have hopen' := (opening_rsPollSend { rs with qp := { rs.qp with cq := cq } } hopen msg ok).1
  refine keeps_of_line ?_ hcfg htx hrx (hopen'.trans hopen.symm) ?_
  · obtain ⟨first, last, hok⟩ := hout
    have hsends : sendMsgs rs.qp.cq = msg :: sendMsgs cq := by simp [hcq, sendMsgs]
    rw [hsends] at hok
    refine ⟨first.next msg, last, ?_⟩
    rw [hcfg, hqp]
    exact OutOk.poll { rs with qp := { rs.qp with cq := cq } } msg ok hok
  · have harrived : recvMsgs rs.qp.cq = recvMsgs cq := by simp [hcq, recvMsgs]
    simp only [line, flight, hqp, hsbuf, harrived]

/-- **A flushed receive is polled.** Kind: L -/
lemma keeps_popFlushed (hout : rs.OutInv) {cq : List Wc} (hcq : rs.qp.cq = .recvFlushed :: cq) :
    Keeps peer rs rs.popCq {} := by
  rw [popCq_eq hcq]
  have hsends : sendMsgs rs.qp.cq = sendMsgs cq := by simp [hcq, sendMsgs]
  have harrived : recvMsgs rs.qp.cq = recvMsgs cq := by simp [hcq, recvMsgs]
  refine keeps_of_line ?_ rfl rfl rfl rfl ?_
  · obtain ⟨first, last, hok⟩ := hout
    exact ⟨first, last, hsends ▸ hok⟩
  · simp only [line, flight, harrived]

/-! ## Reading -/

/-- **A round of `rrecv`.** Kind: L -/
lemma keeps_rrecvIter (hout : rs.OutInv) (hdata : rs.rsHaveRdata) (left : ℕ) :
    Keeps peer rs (rs.rrecvIter left).1 { got := (rs.rrecvIter left).2 } where
  out := hout
  cfg := rfl
  writer := fun _ h => ⟨_, by rw [List.append_nil]; exact h, Ghost.moves_of_eq rfl rfl⟩
  reader := fun _ h => by
    obtain ⟨read, queue, hreads⟩ := h.rrecv hdata
    exact ⟨_, hreads, Ghost.moves_of_eq rfl rfl⟩

/-! ## The queue pair -/

/-- **The hardware reads a work request.** It finds the bytes that were in flight. Kind: L -/
lemma keeps_transmit (hout : rs.OutInv) {wr : Wr} {sq : List Wr} (hsq : rs.qp.sq = wr :: sq) :
    Keeps peer rs { rs with qp := { rs.qp with
      sq := sq
      wire := rs.qp.wire ++ [(wr, packetOf rs.out.sbuf wr)] } } {} := by
  refine keeps_of_line ?_ rfl rfl rfl rfl ?_
  · obtain ⟨first, last, hok⟩ := hout
    refine ⟨first, last, ?_⟩
    simp only [Qp.pending, hsq, List.map_append, List.map_cons, List.map_nil, List.append_assoc,
      List.cons_append, List.nil_append] at hok ⊢
    exact hok
  · simp [line, flight, hsq]

/-- The oldest work request gets its completion. Kind: L -/
lemma outInv_complete (hout : rs.OutInv) {wr : Wr} {qp : Qp} {ok : Bool}
    (hpending : rs.qp.pending = wr :: qp.pending) (hcq : qp.cq = rs.qp.cq ++ [.send wr.msg ok]) :
    OutInv { rs with qp := qp } := by
  obtain ⟨first, last, hok⟩ := hout
  rw [hpending] at hok
  refine ⟨first, last, ?_⟩
  simp only [hcq, sendMsgs, List.filterMap_append]
  exact hok.complete

/-- A completion of a send is no message that has come in. Kind: L -/
lemma recvMsgs_append_send (cq : List Wc) (msg : UInt32) (ok : Bool) :
    recvMsgs (cq ++ [.send msg ok]) = recvMsgs cq := by
  simp [recvMsgs]

/-- **A work request is acknowledged.** Kind: L -/
lemma keeps_ack (hout : rs.OutInv) {wr : Wr} {done : List Wr} (hdone : rs.qp.done = wr :: done) :
    Keeps peer rs (pushCq { rs with qp := { rs.qp with done := done } } (.send wr.msg true)) {} := by
  refine keeps_of_line (outInv_complete hout ?_ rfl) rfl rfl rfl rfl ?_
  · simp [Qp.pending, hdone]
  · simp [line, flight, pushCq, recvMsgs_append_send]

/-- **The queue pair has failed**, or goes on failing: nothing of what is in flight arrives.
Kind: L -/
lemma keeps_of_error {qp : Qp} (hout : OutInv { rs with qp := qp }) (herr : qp.error = true)
    (harrived : recvMsgs qp.cq = recvMsgs rs.qp.cq) :
    Keeps peer rs { rs with qp := qp } {} := by
  have hline : line { rs with qp := qp } =
      ⟨true, flight { rs with qp := qp }, rs.line.arrived⟩ := by
    rw [line, herr, harrived]
    rfl
  refine ⟨hout, rfl, fun _ h => ?_, fun _ h => ?_⟩
  · rw [List.append_nil, writer, hline]
    exact ⟨_, h.writerFails _, Ghost.moves_of_eq rfl rfl⟩
  · rw [List.append_nil, reader, hline]
    exact ⟨_, h.readerFails _, Ghost.moves_of_eq rfl rfl⟩

end Rsocket

end FreeFlow.RSocket
