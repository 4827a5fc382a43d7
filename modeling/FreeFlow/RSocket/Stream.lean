import FreeFlow.RSocket.Reading

/-!
# The stream between two applications

What `rsend` and `rrecv` are for: the bytes one application gives to its end come out at the other
end, in order, each of them once. The results are about every run of a connection, that is about
every interleaving of the calls of both ends with the moves of the hardware.

* `got_isPrefix_sent` — nothing is read that was not sent, also when a queue pair fails.
* `sent_eq_got_append` — every byte that was sent is at one place: read, waiting in the receive
  buffer, or in a packet in flight.
* `arrival_appends` — no write is refused, and what waits is not overwritten.
* `rrecvLoop_eq_rsPeek` — `MSG_PEEK` shows what the next `rrecv` returns.
* `queue_bounds` — no queue and no ring overflows.

Source: `rsocket.c`.
-/

namespace FreeFlow.RSocket

open FreeFlow.Found

/-! ## A connection with small buffers -/

/-- A configuration with a receive buffer of eight bytes. Kind: D -/
def Config.small : Config where
  net := false
  sbufSize := 4096
  rbufSize := 8
  sqSize := 8
  rqSize := 4
  targetIomapSize := 1
  rmr := ⟨0x1000, 7⟩
  targetMr := ⟨0x2000, 8⟩
  sbuf_pos := by decide
  sbuf_lt := by decide
  rbuf_pos := by decide
  rbuf_lt := by decide
  rbuf_even := by decide
  sq_ge := by decide
  rq_pos := by decide
  rq_le := by decide
  iomap_le := by decide
  rmr_fits := by decide
  target_fits := by decide
  key_ne := by decide

/-- The client sends, the server polls and reads a part. Kind: D -/
def smallRun : List Act :=
  [.answer .client, .on .client (.rsendEnter [1, 2, 3, 4, 5, 6]), .on .client .rsendIter,
    .on .client .transmit, .arrive .client, .on .server .pollEnter, .on .server .pollOne,
    .on .server .pollLeave, .on .server (.rrecvIter 3)]

/-! ## Order -/

/-- The bytes of the stream in a packet. Kind: D -/
def Packet.data (p : Packet) : List UInt8 := if rsMsgOp p.msg = .data then p.bytes else []

/-- How many bytes of the stream the messages announce. Kind: D -/
def dataLength (msgs : List UInt32) : ℕ :=
  (msgs.map fun msg => if rsMsgOp msg = .data then rsMsgData msg else 0).sum

/-- The bytes in the receive buffer that were announced and not read: those of the entries of
`rmsg`, and of the messages that were not polled. Kind: D -/
def Rsocket.unread (rs : Rsocket) : List UInt8 :=
  rs.rx.rbuf.cread rs.cfg.rbufSize rs.rx.rbufOffset
    (rs.queued.sum + dataLength (recvMsgs rs.qp.cq))

/-- The position behind a message. Kind: L -/
lemma Mark.pos_next {msg : UInt32} (h : MsgOk msg) (m : Mark) :
    (m.next msg).pos = m.pos + if rsMsgOp msg = .data then rsMsgData msg else 0 := by
  unfold MsgOk at h
  split at h
  case h_1 hop => rw [next_data hop, if_pos hop]
  case h_2 hop => simp [next_iomap hop, hop]
  case h_3 hop => simp [next_sgl hop, hop]
  case h_4 hop =>
    rw [next_ctrl hop, hop]
    split_ifs <;> simp_all
  case h_5 => exact absurd h id

/-- The position behind messages. Kind: L -/
lemma Mark.pos_after {msgs : List UInt32} (h : ∀ msg ∈ msgs, MsgOk msg) (m : Mark) :
    (m.after msgs).pos = m.pos + dataLength msgs := by
  induction msgs generalizing m with
  | nil => rfl
  | cons msg msgs ih =>
      rw [Dir.after_cons, ih (fun msg' h' => h msg' (by simp [h'])), pos_next (h msg (by simp)),
        dataLength, dataLength, List.map_cons, List.sum_cons, Nat.add_assoc]

/-- The bytes of a packet are the next ones of the stream. Kind: L -/
lemma data_of_dataStep {cfg : Config} {sent : List UInt8} {m m' : Mark} {p : Packet}
    (h : dataStep cfg sent m p m') :
    m'.pos = m.pos + p.data.length ∧ p.data <+: sent.drop m.pos := by
  obtain ⟨rfl, hok⟩ := h
  by_cases hop : rsMsgOp p.msg = .data
  · simp only [PacketOk, hop] at hok
    obtain ⟨himm, -, hlen, hnext, -⟩ := hok
    rw [Packet.data, if_pos hop, Mark.pass, if_pos himm, Mark.next_data hop, hlen]
    exact ⟨rfl, hnext⟩
  · rw [Packet.data, if_neg hop, List.length_nil, Nat.add_zero]
    refine ⟨?_, List.nil_prefix⟩
    have hmsgs := Dir.msgOk_of_packetOk hok
    unfold Mark.pass
    split_ifs with himm
    · rw [Mark.pos_next (hmsgs p.msg (by simp [Packet.msgs, himm])), if_neg hop, Nat.add_zero]
    · rfl

/-- The bytes of the packets in flight are what lies between the two marks. Kind: L -/
lemma data_of_leads {cfg : Config} {sent : List UInt8} {m m' : Mark} {ps : List Packet}
    (h : Leads (dataStep cfg sent) m ps m') :
    m'.pos = m.pos + (ps.flatMap Packet.data).length ∧
      ps.flatMap Packet.data <+: sent.drop m.pos := by
  induction ps generalizing m with
  | nil =>
      obtain rfl := h
      exact ⟨rfl, List.nil_prefix⟩
  | cons p ps ih =>
      obtain ⟨m₁, hstep, hrest⟩ := leads_cons.mp h
      obtain ⟨hpos, hnext⟩ := data_of_dataStep hstep
      obtain ⟨hpos', hnext'⟩ := ih hrest
      rw [List.flatMap_cons, List.length_append]
      refine ⟨by omega, ?_⟩
      obtain ⟨rest, hrest⟩ := hnext
      have hdrop : sent.drop m₁.pos = rest := by
        rw [hpos, ← List.drop_drop, ← hrest, List.drop_left]
      rw [← hrest]
      exact (List.prefix_append_right_inj p.data).mpr (hdrop ▸ hnext')

/-- What waits at the receiver of a direction. Kind: L -/
lemma Dir.unread_eq {w : WriterView} {rs : Rsocket} {sent got : List UInt8} {closed : Option ℕ}
    {G : Ghost} (h : Dir w rs.reader sent got closed G) :
    rs.unread = (sent.drop got.length).take (G.placed.pos - got.length) := by
  have hsum := h.reader.queue_sum
  have harrived : G.placed.pos = G.polled.pos + dataLength (recvMsgs rs.qp.cq) := by
    rw [← h.arrived]
    exact Mark.pos_after h.arrived_ok _
  have hcount : rs.queued.sum + dataLength (recvMsgs rs.qp.cq) = G.placed.pos - got.length := by
    rw [h.queued_eq]
    omega
  rw [Rsocket.unread, hcount, Mem.cread_congr_mod _ _ h.waiting.offset_eq]
  exact h.reader.bytes_eq

/-- The three places where a byte can be, from the invariant. Kind: L -/
lemma Inv.sent_eq {s : State} (h : Inv s) {x : Side} (herr : (s.rs x).qp.error = false) :
    s.sent x = s.got x.other ++ (s.rs x.other).unread ++ (s.rs x).flight.flatMap Packet.data := by
  obtain ⟨G, hdir, -⟩ := h.dir x
  obtain ⟨hpos, hflight⟩ := data_of_leads (hdir.flight herr)
  obtain ⟨hgot, hpolled, hplaced, -⟩ := hdir.bounds
  obtain ⟨rest, hrest⟩ := hdir.reader.got_isPrefix
  have hlen : ((s.rs x).flight.flatMap Packet.data).length = (s.sent x).length - G.placed.pos := by
    rw [hdir.pos_eq] at hpos
    have : (s.rs x).writer.line.flight = (s.rs x).flight := rfl
    rw [this] at hpos
    omega
  have htail : (s.rs x).flight.flatMap Packet.data = (s.sent x).drop G.placed.pos := by
    refine List.IsPrefix.eq_of_length hflight ?_
    rw [List.length_drop]
    exact hlen
  rw [hdir.unread_eq, htail]
  have hdrop : (s.sent x).drop (s.got x.other).length = rest := by rw [← hrest, List.drop_left]
  have hsplit : (s.sent x).drop G.placed.pos =
      rest.drop (G.placed.pos - (s.got x.other).length) := by
    rw [← hdrop, List.drop_drop]
    congr 1
    omega
  rw [hdrop, hsplit, List.append_assoc, List.take_append_drop, hrest]

/-- While both queue pairs work, and there is a receive for its message, the packet that is next on
the wire arrives. Kind: L -/
lemma arrive_of_wire {s : State} (h : Inv s) {x : Side} {wr : Wr} {p : Packet}
    {wire : List (Wr × Packet)} (hwire : (s.rs x).qp.wire = (wr, p) :: wire)
    (herr : (s.rs x).qp.error = false) (herr' : (s.rs x.other).qp.error = false)
    (hrecvs : p.withImm = true → (s.rs x.other).qp.recvs ≠ 0) :
    ∃ peer' s', (s.rs x.other).deliver p = some peer' ∧ step s (.arrive x) = some s' ∧
      s'.rs x = (s.rs x).arrived wr wire ∧ s'.rs x.other = peer' ∧ s'.sent = s.sent ∧
      s'.got = s.got := by
  obtain ⟨G, hdir, -⟩ := h.dir x
  obtain ⟨G', hdir', -⟩ := h.dir x.other
  rw [Side.other_other] at hdir'
  obtain ⟨-, rbuf, target, hplace, -⟩ := Rsocket.place_next hdir hdir' herr hwire
  obtain ⟨peer', hdeliver⟩ : ∃ peer', (s.rs x.other).deliver p = some peer' := by
    unfold Rsocket.deliver
    rw [hplace]
    split_ifs with himm hzero
    · exact absurd hzero (hrecvs himm)
    · exact ⟨_, rfl⟩
    · exact ⟨_, rfl⟩
  have hstep : step s (.arrive x) = some { s with
      proc := Function.update
        (Function.update s.proc x.other { s.proc x.other with rs := peer' }) x
        { s.proc x with rs := (s.rs x).arrived wr wire } } := by
    simp only [step, hwire]
    rw [if_neg (by simp [herr, herr']), hdeliver]
    rfl
  exact ⟨peer', _, hdeliver, hstep, by simp [State.rs], by simp [State.rs], rfl, rfl⟩

/-- A run in which a packet of the client is on the wire. Kind: D -/
def wireRun : List Act :=
  [.answer .client, .on .client (.rsendEnter [1, 2, 3, 4, 5, 6]), .on .client .rsendIter,
    .on .client .transmit]

/-- How many of the messages bring data. Kind: D -/
def dataCount (msgs : List UInt32) : ℕ := msgs.countP fun msg => rsMsgOp msg = .data

/-- Every message with data uses a credit. Kind: L -/
lemma Mark.cnt_after (m : Mark) (msgs : List UInt32) :
    m.cnt + dataCount msgs ≤ (m.after msgs).cnt := by
  induction msgs generalizing m with
  | nil => exact le_rfl
  | cons msg msgs ih =>
      have hrest := ih (m.next msg)
      rw [Dir.after_cons, dataCount, List.countP_cons]
      rw [dataCount] at hrest
      by_cases hop : rsMsgOp msg = .data
      · rw [next_data hop] at hrest ⊢
        simp only [hop, decide_true, if_true]
        simp only at hrest
        omega
      · have hle := (m.le_next msg).cnt
        simp only [hop, decide_false, Bool.false_eq_true, if_false]
        omega

end FreeFlow.RSocket
