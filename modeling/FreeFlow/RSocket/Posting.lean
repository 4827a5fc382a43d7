import FreeFlow.RSocket.SendBuffers

/-!
# What an end does, as the other end sees it

Of an end the other one sees only its packets, with the bytes they have when they arrive. `Line` is
this view: what is in flight, and what has come in and was not looked at yet. The lemmas of this
file say for every function that posts a work request that it appends one packet to what is in
flight, with the bytes that were meant, although the hardware reads them later. From here on the
send buffer does not appear any more.

* `OutInv` — the accounts of `OutOk`, for some history.
* `Posted` — a packet was posted, and what else has changed.
* `sendThroughSbuf_posted` — the argument for everything that goes through the send buffer.
* `rsendIter_posted`, `rsSendIomap_posted`, `rsSendCredits_posted`, `postCtrl_posted`,
  `postKeepalive_posted` — the functions that post.

Source: `rsocket.c`.
-/

namespace FreeFlow.RSocket

open FreeFlow.Found OutMark

/-- An end of a connection as the other one sees it: whether its queue pair has failed, the packets
that have not arrived, and the messages that have come in and were not polled. Kind: D -/
structure Line where
  error : Bool
  flight : List Packet
  arrived : List UInt32

/-- A packet more in flight. Kind: D -/
def Line.post (l : Line) (p : Packet) : Line := { l with flight := l.flight ++ [p] }

namespace Rsocket

variable {rs : Rsocket}

/-- The line of an end. Kind: D -/
def line (rs : Rsocket) : Line := ⟨rs.qp.error, rs.flight, recvMsgs rs.qp.cq⟩

/-- The accounts of an end are in order. Kind: D -/
def OutInv (rs : Rsocket) : Prop :=
  ∃ first last, OutOk rs.cfg rs.out (sendMsgs rs.qp.cq) rs.qp.pending first last

/-- `rs'` is `rs` after the packet `p` was posted: it is in flight with these bytes, and only the
fields of the two directions have changed otherwise, to `tx'` and `rx'`. Kind: D -/
structure Posted (rs rs' : Rsocket) (p : Packet) (tx' : Tx) (rx' : Rx) : Prop where
  out : rs'.OutInv
  line : rs'.line = rs.line.post p
  tx : rs'.tx = tx'
  rx : rs'.rx = rx'
  cfg : rs'.cfg = rs.cfg
  peer : rs'.peer = rs.peer
  state : rs'.state = rs.state
  qp : ∃ wr : Wr, wr.msg = p.msg ∧ rs'.qp = { rs.qp with sq := rs.qp.sq ++ [wr] }

/-- Posting to the send queue leaves the receives. Kind: L -/
lemma Posted.recvs {rs' : Rsocket} {p : Packet} {tx' : Tx} {rx' : Rx}
    (h : rs.Posted rs' p tx' rx') : rs'.qp.recvs = rs.qp.recvs := by
  obtain ⟨wr, -, hqp⟩ := h.qp
  rw [hqp]

/-- Posting to the send queue leaves the completions. Kind: L -/
lemma Posted.cq {rs' : Rsocket} {p : Packet} {tx' : Tx} {rx' : Rx}
    (h : rs.Posted rs' p tx' rx') : rs'.qp.cq = rs.qp.cq := by
  obtain ⟨wr, -, hqp⟩ := h.qp
  rw [hqp]

/-- What is posted is in flight with the bytes it has now, when the buffers of what was posted
before keep theirs. Kind: L -/
lemma line_post (rs : Rsocket) (wr : Wr) {rs' : Rsocket}
    (hqp : rs'.qp = { rs.qp with sq := rs.qp.sq ++ [wr] })
    (hstable : ∀ w ∈ rs.qp.pending, packetOf rs'.out.sbuf w = packetOf rs.out.sbuf w) :
    rs'.line = rs.line.post (packetOf rs'.out.sbuf wr) := by
  have hsq : rs.qp.sq.map (packetOf rs'.out.sbuf) = rs.qp.sq.map (packetOf rs.out.sbuf) := by
    apply List.map_congr_left
    intro w hw
    exact hstable w (by simp [Qp.pending, hw])
  simp [line, Line.post, flight, hqp, hsq]

/-- A work request at the end of the send queue is the newest one without a completion. Kind: L -/
lemma pending_post (qp : Qp) (wr : Wr) :
    Qp.pending { qp with sq := qp.sq ++ [wr] } = qp.pending ++ [wr] := by
  simp [Qp.pending]

/-! ## Data and mappings -/

/-- Sending through the send buffer, in terms of the stream of all bytes that go through it: the
buffer is at position `p` of it. Kind: L -/
lemma sendThroughSbuf_eq {p : ℕ} (hp : rs.out.ssgl = p % rs.cfg.sbufSize) {bs : List UInt8}
    (hlen : bs.length ≤ rs.cfg.sbufSize) (write : Rsocket → List (ℕ × ℕ) → Rsocket) :
    rs.sendThroughSbuf bs write =
      let rs' := write { rs with out := { rs.out with
        sbuf := rs.out.sbuf.cwrite rs.cfg.sbufSize p bs } }
        (Mem.pieces rs.cfg.sbufSize p bs.length)
      { rs' with out := { rs'.out with ssgl := (p + bs.length) % rs.cfg.sbufSize } } := by
  have hlt := Nat.mod_lt p rs.cfg.sbuf_pos
  rw [sendThroughSbuf, rsSbufLeft, hp, Mem.cwrite, Mem.pieces]
  split_ifs with hfit hmore
  · rw [Mem.add_mod_eq_of_lt (by omega)]
  · rw [Mem.add_mod_eq_sub (by omega) hlen rs.cfg.sbuf_pos]
    have hend : p % rs.cfg.sbufSize + bs.length - rs.cfg.sbufSize = 0 := by omega
    rw [hend]
  · rw [Mem.add_mod_eq_sub (by omega) hlen rs.cfg.sbuf_pos]
    have hend : p % rs.cfg.sbufSize + bs.length - rs.cfg.sbufSize =
        bs.length - (rs.cfg.sbufSize - p % rs.cfg.sbufSize) := by omega
    rw [hend]

/-- **Sending through the send buffer**, for a function that posts one work request: the packet has
the bytes, whatever the send buffer is used for until the hardware reads it. Kind: L -/
lemma sendThroughSbuf_posted (h : rs.OutInv) (hsqe : rs.out.sqeAvail ≠ 0) {bs : List UInt8}
    (havail : (bs.length : ℤ) ≤ rs.out.sbufBytesAvail) {msg : UInt32} (hkind : ¬ IsCtrl msg)
    (hmsg : ∀ m : OutMark, (m.next msg).pos = m.pos + bs.length) {addr : UInt64} {rkey : UInt32}
    {tx' : Tx} {write : Rsocket → List (ℕ × ℕ) → Rsocket}
    (hwrite : ∀ sbuf sgl, write { rs with out := { rs.out with sbuf := sbuf } } sgl = { rs with
      tx := tx'
      out := { rs.out with
        sbuf := sbuf
        sqeAvail := rs.out.sqeAvail - 1
        sbufBytesAvail := rs.out.sbufBytesAvail - bs.length }
      qp := { rs.qp with sq := rs.qp.sq ++ [⟨msg, true, sgl, addr, rkey⟩] } }) :
    rs.Posted (rs.sendThroughSbuf bs write) ⟨msg, true, bs, addr, rkey⟩ tx' rs.rx := by
  obtain ⟨first, last, hok⟩ := h
  have hS := rs.cfg.sbuf_pos
  have hroom : last.pos + bs.length ≤ first.pos + rs.cfg.sbufSize := by
    have hbytes := hok.bytes_eq
    omega
  have hlen : bs.length ≤ rs.cfg.sbufSize := by
    have hle := hok.pos_le
    omega
  rw [sendThroughSbuf_eq hok.ssgl_eq hlen, hwrite]
  refine ⟨⟨first, last.next msg, ?_⟩, ?_, rfl, rfl, rfl, rfl, rfl, _, rfl, rfl⟩
  · rw [pending_post]
    exact hok.postRing ⟨msg, true, _, addr, rkey⟩ hkind (hmsg last) rfl havail hsqe _
  · rw [line_post rs _ rfl fun w hw => hok.packetOf_cwrite hw hroom rs.out.sbuf]
    rw [packetOf, Mem.gather_pieces _ hS hlen, Mem.cread_cwrite_same _ hS hlen]

/-- An `int` that is not negative is the `unsigned` it is compared with. Kind: L -/
lemma unsigned_eq {i : ℤ} (h0 : 0 ≤ i) (hlt : i < 2 ^ 31) : unsigned i = i.toNat := by
  rw [unsigned, Int.emod_eq_of_lt h0 (by omega)]

/-- The free bytes of the send buffer. Kind: L -/
lemma OutInv.avail (h : rs.OutInv) :
    0 ≤ rs.out.sbufBytesAvail ∧ rs.out.sbufBytesAvail ≤ rs.cfg.sbufSize := by
  obtain ⟨first, last, h⟩ := h
  have hle := h.pos_le
  have hbytes := h.bytes_eq
  have hroom := h.bytes_le
  omega

/-- The size of a transfer is positive and fits the call, the send buffer and the free space at the
other end. Kind: L -/
lemma xferSize_spec (h : rs.OutInv) (hcan : rs.rsCanSend) {left olen : ℕ} (hleft : 0 < left)
    (holen : 0 < olen) :
    0 < rs.xferSize left olen ∧ rs.xferSize left olen ≤ left ∧ rs.xferSize left olen ≤ olen ∧
      (rs.xferSize left olen : ℤ) ≤ rs.out.sbufBytesAvail ∧
      rs.xferSize left olen ≤ (rs.targetSgl rs.tx.targetSge).length.toNat := by
  obtain ⟨-, hlow, -, htarget⟩ := hcan
  obtain ⟨h0, hle⟩ := h.avail
  have hS := rs.cfg.sbuf_lt
  have hpos : 0 < (rs.targetSgl rs.tx.targetSge).length.toNat := by
    rw [Nat.pos_iff_ne_zero, ne_eq, ← UInt32.toNat_zero, UInt32.toNat_inj]
    exact htarget
  simp only [xferSize, unsigned_eq h0 (by omega)]
  simp only [rsSndLowat] at hlow
  split_ifs <;> omega

/-- A packet of data. Kind: D -/
def dataPacket (rs : Rsocket) (bs : List UInt8) : Packet :=
  let e := rs.targetSgl rs.tx.targetSge
  ⟨rsMsgSet .data bs.length, true, bs, e.addr, e.key⟩

/-- **A round of `rsend`**: the next bytes are in flight, to the place the entry in use says, and
the entry is moved on. Kind: P -/
theorem rsendIter_posted (h : rs.OutInv) (hcan : rs.rsCanSend) {buf : List UInt8} (hbuf : buf ≠ [])
    {olen : ℕ} (holen : 0 < olen) (hle : olen < 2 ^ 29) :
    rs.Posted (rs.rsendIter buf olen) (rs.dataPacket (buf.take (rs.xferSize buf.length olen)))
      (rs.tx.advance rs.cfg.net (rs.xferSize buf.length olen)) rs.rx := by
  obtain ⟨hpos, hleft, holen', havail, -⟩ :=
    xferSize_spec h hcan (List.length_pos_iff.mpr hbuf) holen
  rw [rsendIter, dataPacket]
  set n := rs.xferSize buf.length olen with hn
  have hlen : (buf.take n).length = n := by simpa using hleft
  have hlt : n < 2 ^ 29 := by omega
  refine sendThroughSbuf_posted h hcan.1 ?_ ?_ ?_ fun sbuf sgl => ?_
  · rw [hlen]
    exact havail
  · simp [IsCtrl, hlen, rsMsgOp_rsMsgSet _ hlt]
  · intro m
    simp [OutMark.next, hlen, rsMsgOp_rsMsgSet _ hlt, rsMsgData_rsMsgSet _ hlt]
  · rw [hlen]
    rfl

/-- The mapping that is sent takes its size. Kind: L -/
lemma length_iomapBytes (rs : Rsocket) (mr : IomapMr) :
    (rs.iomapBytes mr).length = sizeofIomap := by
  unfold iomapBytes
  split_ifs <;> simp [sizeofSge, sizeofIomap]

/-- A packet with a mapping. Kind: D -/
def iomapPacket (rs : Rsocket) (mr : IomapMr) : Packet :=
  ⟨rsMsgSet .iomapSgl mr.index, true, rs.iomapBytes mr,
    rs.peer.remoteIomap.addr + UInt64.ofNat (mr.index * sizeofIomap), rs.peer.remoteIomap.key⟩

/-- **A round of `rs_send_iomaps`**: the mapping is in flight, to its entry of the table. Kind: P -/
theorem rsSendIomap_posted (h : rs.OutInv) (hcan : rs.rsCanSend) {mr : IomapMr}
    (hindex : mr.index < 2 ^ 29) :
    rs.Posted (rs.rsSendIomap mr) (rs.iomapPacket mr) { rs.tx with sseqNo := rs.tx.sseqNo + 1 }
      rs.rx := by
  obtain ⟨hsqe, hlow, -, -⟩ := hcan
  have hlen := rs.length_iomapBytes mr
  rw [rsSendIomap, iomapPacket]
  refine sendThroughSbuf_posted h hsqe ?_ ?_ ?_ fun sbuf sgl => ?_
  · rw [hlen]
    exact le_trans (by decide) hlow
  · simp [IsCtrl, rsMsgOp_rsMsgSet _ hindex]
  · intro m
    simp [OutMark.next, hlen, rsMsgOp_rsMsgSet _ hindex]
  · rw [hlen]
    rfl

/-! ## Control messages -/

/-- A control message without bytes is posted. Kind: L -/
lemma posted_of_nil (h : rs.OutInv) (havail : rs.rsCtrlAvail) {msg : UInt32} (hkind : IsCtrl msg)
    (withImm : Bool) (rx' : Rx) :
    rs.Posted (postSend { rs with
      out := { rs.out with ctrlSeqno := rs.out.ctrlSeqno + 1 }
      rx := rx' } ⟨msg, withImm, [], 0, 0⟩) ⟨msg, withImm, [], 0, 0⟩ rs.tx rx' := by
  obtain ⟨first, last, hok⟩ := h
  refine ⟨⟨first, last.next msg, ?_⟩, ?_, rfl, rfl, rfl, rfl, rfl, _, rfl, rfl⟩
  · rw [postSend, pending_post]
    exact hok.postCtrl ⟨msg, withImm, [], 0, 0⟩ hkind (.inl rfl) havail _
  · exact line_post rs ⟨msg, withImm, [], 0, 0⟩ rfl fun _ _ => rfl

/-- The message with the credits. Kind: D -/
def creditMsg (rs : Rsocket) : UInt32 := rsMsgSet .sgl (rs.rx.rseqNo.toNat + rs.cfg.rqSize)

/-- The packet with the credits: it carries a half of the receive buffer if one is free. Kind: D -/
def creditPacket (rs : Rsocket) : Packet :=
  if rs.halfFree then
    ⟨rs.creditMsg, true, rs.creditSge.bytes rs.cfg.net,
      rs.peer.remoteSgl.addr + UInt64.ofNat (rs.rx.remoteSge * sizeofSge), rs.peer.remoteSgl.key⟩
  else ⟨rs.creditMsg, true, [], 0, 0⟩

/-- The receiving direction after the credits were given. Kind: D -/
def creditRx (rs : Rsocket) : Rx :=
  let rx := { rs.rx with rseqComp := rs.rx.rseqNo + UInt16.ofNat (rs.cfg.rqSize / 2) }
  if rs.halfFree then rx.giveHalf rs.cfg.rbufSize rs.peer.remoteSgl.length.toNat else rx

/-- The number of received messages fits a message. Kind: L -/
lemma credit_lt (rs : Rsocket) : rs.rx.rseqNo.toNat + rs.cfg.rqSize < 2 ^ 29 := by
  have hseq := rs.rx.rseqNo.toNat_lt
  have hrq := rs.cfg.rq_le
  omega

/-- Credits use a control entry. Kind: L -/
lemma isCtrl_creditMsg (rs : Rsocket) : IsCtrl rs.creditMsg :=
  .inl (rsMsgOp_rsMsgSet _ rs.credit_lt)

/-- The control buffer of a sequence number. Kind: L -/
lemma toNat_and_three (n : ℕ) : (UInt32.ofNat n &&& 3).toNat = n % rsQpCtrlSize := by
  have hmask : UInt32.toNat 3 = 2 ^ 2 - 1 := rfl
  rw [UInt32.toNat_and, UInt32.toNat_ofNat', hmask, Nat.and_two_pow_sub_one_eq_mod]
  exact Nat.mod_mod_of_dvd n (by norm_num)

/-- **Credits**: the packet has the entry as the other end is to read it. Kind: P -/
theorem rsSendCredits_posted (h : rs.OutInv) (havail : rs.rsCtrlAvail) :
    rs.Posted rs.rsSendCredits rs.creditPacket rs.tx rs.creditRx := by
  by_cases hhalf : rs.halfFree
  · obtain ⟨first, last, hok⟩ := h
    have hlt := hok.ctrl_lt havail
    have hslot : rs.cfg.sbufSize + sizeofSge * ((rs.out.ctrlSeqno + 1) &&& 3).toNat =
        rs.cfg.sbufSize + sizeofSge * ((last.ctrl + 1) % rsQpCtrlSize) := by
      have hseq : rs.out.ctrlSeqno + 1 = UInt32.ofNat (last.ctrl + 1) := by
        rw [hok.seqno_eq, UInt32.ofNat_add]
        rfl
      rw [hseq, toNat_and_three]
    have hcredits : rs.rsSendCredits = { rs with
        out := { rs.out with
          ctrlSeqno := rs.out.ctrlSeqno + 1
          sbuf := rs.out.sbuf.write
            (rs.cfg.sbufSize + sizeofSge * ((last.ctrl + 1) % rsQpCtrlSize))
            (rs.creditSge.bytes rs.cfg.net) }
        rx := rs.creditRx
        qp := { rs.qp with sq := rs.qp.sq ++ [⟨rs.creditMsg, true,
          [(rs.cfg.sbufSize + sizeofSge * ((last.ctrl + 1) % rsQpCtrlSize), sizeofSge)],
          rs.peer.remoteSgl.addr + UInt64.ofNat (rs.rx.remoteSge * sizeofSge),
          rs.peer.remoteSgl.key⟩] } } := by
      rw [← hslot, creditRx, if_pos hhalf, rsSendCredits]
      exact if_pos hhalf
    rw [hcredits, creditPacket, if_pos hhalf]
    refine ⟨⟨first, last.next rs.creditMsg, ?_⟩, ?_, rfl, rfl, rfl, rfl, rfl, _, rfl, rfl⟩
    · rw [pending_post]
      exact hok.postCtrl ⟨rs.creditMsg, true, _, _, _⟩ rs.isCtrl_creditMsg (.inr rfl) havail _
    · rw [line_post rs _ rfl fun w hw =>
        hok.packetOf_ctrl hw (RsSge.length_bytes _ _) hlt rs.out.sbuf]
      have hread := Mem.read_write_same rs.out.sbuf
        (rs.cfg.sbufSize + sizeofSge * ((last.ctrl + 1) % rsQpCtrlSize))
        (rs.creditSge.bytes rs.cfg.net)
      rw [RsSge.length_bytes] at hread
      rw [packetOf, Mem.gather, List.flatMap_singleton, hread]
  · have hcredits : rs.rsSendCredits = postSend { rs with
        out := { rs.out with ctrlSeqno := rs.out.ctrlSeqno + 1 }
        rx := rs.creditRx } ⟨rs.creditMsg, true, [], 0, 0⟩ := by
      rw [creditRx, if_neg hhalf, rsSendCredits]
      exact if_neg hhalf
    rw [hcredits, creditPacket, if_neg hhalf]
    exact posted_of_nil h havail rs.isCtrl_creditMsg true rs.creditRx

/-- A control message fits. Kind: L -/
lemma isCtrl_ctrl (ctrl : RsCtrl) : IsCtrl (rsMsgSet .ctrl ctrl.code) :=
  .inr (rsMsgOp_rsMsgSet _ (by cases ctrl <;> decide))

/-- A packet with a control message. Kind: D -/
def ctrlPacket (ctrl : RsCtrl) (withImm : Bool) : Packet :=
  ⟨rsMsgSet .ctrl ctrl.code, withImm, [], 0, 0⟩

/-- **The message of `rshutdown`.** Kind: L -/
lemma postCtrl_posted (h : rs.OutInv) (havail : rs.rsCtrlAvail) (ctrl : RsCtrl) :
    rs.Posted (rs.postCtrl ctrl) (ctrlPacket ctrl true) rs.tx rs.rx :=
  posted_of_nil h havail (isCtrl_ctrl ctrl) true rs.rx

/-- **The message of the service thread.** Kind: L -/
lemma postKeepalive_posted (h : rs.OutInv) (havail : rs.rsCtrlAvail) :
    rs.Posted rs.postKeepalive (ctrlPacket .keepalive false) rs.tx rs.rx :=
  posted_of_nil h havail (isCtrl_ctrl .keepalive) false rs.rx

end Rsocket

end FreeFlow.RSocket
