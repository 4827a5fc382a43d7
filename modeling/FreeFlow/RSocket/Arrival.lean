import FreeFlow.RSocket.Keeps

/-!
# Packets arrive, and how a connection starts

The steps in which both ends take part. A packet that arrives moves the direction of the end it
comes from, as data, and the direction of the end it comes to, as credits. The answer to the
connection request gives the end that waited for it its first half of the other one's buffer.

* `place_data`, `place_target`, `place_of_packetOk` — no write is refused, and what it changes.
* `Rsocket.arrives` — the arrival of the oldest packet on the wire.
* `Dir.writerAnswers`, `Dir.readerAnswers` — the answer.
* `dir_init` — two ends with their buffers registered.

Source: `rsocket.c`.
-/

namespace FreeFlow.RSocket

open FreeFlow.Found

namespace Rsocket

variable {rs : Rsocket} {p : Packet}

/-! ## Writes into the memory of the other end -/

/-- An address in a memory that does not run over the end of the address space. Kind: L -/
lemma toNat_add_ofNat {start : UInt64} {k : ℕ} (hfits : start.toNat + k < 2 ^ 64) :
    (start + UInt64.ofNat k).toNat = start.toNat + k := by
  rw [UInt64.toNat_add, UInt64.toNat_ofNat']
  omega

/-- A write of no bytes. Kind: L -/
lemma place_nil (hnil : p.bytes = []) : rs.place p = some rs := by
  simp [place, hnil]

/-- A write into the receive buffer. Kind: L -/
lemma place_data {k : ℕ} (hne : p.bytes ≠ []) (hone : k + p.bytes.length ≤ rs.cfg.rbufSize)
    (haddr : p.addr = rs.cfg.rmr.addr + UInt64.ofNat k) (hkey : p.rkey = rs.cfg.rmr.rkey) :
    rs.place p = some { rs with rx := { rs.rx with rbuf := rs.rx.rbuf.write k p.bytes } } := by
  have hlen := List.length_pos_iff.mpr hne
  have hfits := rs.cfg.rmr_fits
  have hto : p.addr.toNat = rs.cfg.rmr.addr.toNat + k := by
    rw [haddr]
    exact toNat_add_ofNat (by omega)
  have hin : inRange p.addr p.bytes.length rs.cfg.rmr.addr (rs.cfg.rbufSize + 4 * rs.cfg.rqSize) :=
    ⟨by omega, by omega⟩
  rw [place]
  simp only
  rw [if_neg (by omega), if_pos ⟨hkey, hin⟩, hto, Nat.add_sub_cancel_left]

/-- A write into the memory with the entries of `target_sgl` and the mappings. Kind: L -/
lemma place_target {k : ℕ} (hne : p.bytes ≠ [])
    (hfit : k + p.bytes.length ≤ rsSglSize * sizeofSge + sizeofIomap * rs.cfg.targetIomapSize)
    (haddr : p.addr = rs.cfg.targetMr.addr + UInt64.ofNat k)
    (hkey : p.rkey = rs.cfg.targetMr.rkey) :
    rs.place p = some { rs with tx := { rs.tx with target := rs.tx.target.write k p.bytes } } := by
  have hlen := List.length_pos_iff.mpr hne
  have hfits := rs.cfg.target_fits
  have hto : p.addr.toNat = rs.cfg.targetMr.addr.toNat + k := by
    rw [haddr]
    exact toNat_add_ofNat (by omega)
  have hin : inRange p.addr p.bytes.length rs.cfg.targetMr.addr
      (rsSglSize * sizeofSge + sizeofIomap * rs.cfg.targetIomapSize) := ⟨by omega, by omega⟩
  have hother : p.rkey ≠ rs.cfg.rmr.rkey := hkey ▸ rs.cfg.key_ne.symm
  rw [place]
  simp only
  rw [if_neg (by omega), if_neg (fun h => hother h.1), if_pos ⟨hkey, hin⟩, hto,
    Nat.add_sub_cancel_left]

/-- Where a half of the buffer, if the packet brings one, goes to. Kind: D -/
def BringsHalf (cfg : Config) (p : Packet) (i : ℕ) : Prop :=
  p.bytes = [] ∨ (p.bytes.length = sizeofSge ∧ p.rkey = cfg.targetMr.rkey ∧
    p.addr = cfg.targetMr.addr + UInt64.ofNat (i * sizeofSge))

/-- **No write is refused**: data change the receive buffer at their place, credits the entry of
`target_sgl` they are for, and nothing else changes one of these. Kind: L -/
lemma place_of_packetOk {sent : List UInt8} {m : Mark} {i : ℕ} (hok : PacketOk rs.cfg sent m p)
    (hi : i < rsSglSize) (hsgl : rsMsgOp p.msg = .sgl → BringsHalf rs.cfg p i) :
    ∃ rbuf target, rs.place p = some { rs with
        rx := { rs.rx with rbuf := rbuf }
        tx := { rs.tx with target := target } } ∧
      (rbuf = if rsMsgOp p.msg = .data then
        rs.rx.rbuf.write (m.pos % rs.cfg.rbufSize) p.bytes else rs.rx.rbuf) ∧
      if rsMsgOp p.msg = .sgl ∧ p.bytes ≠ [] then
        target = rs.tx.target.write (sizeofSge * i) p.bytes
      else ∀ j < 2, RsSge.read rs.cfg.net target (sizeofSge * j) = rs.writer.entry j := by
  unfold PacketOk at hok
  split at hok
  case h_1 hop =>
    obtain ⟨-, hne, -, -, hone, haddr, hkey⟩ := hok
    refine ⟨_, rs.tx.target, place_data hne hone haddr hkey, by rw [if_pos hop], ?_⟩
    rw [if_neg (by simp [hop])]
    exact fun _ _ => rfl
  case h_2 hop =>
    obtain ⟨-, hlen, k, hk, hkey, haddr⟩ := hok
    have hne : p.bytes ≠ [] := by
      rw [← List.length_pos_iff, hlen]
      decide
    refine ⟨rs.rx.rbuf, _, place_target hne ?_ haddr hkey, by simp [hop], ?_⟩
    · rw [hlen]
      simp only [sizeofIomap]
      omega
    · rw [if_neg (by simp [hop])]
      intro j hj
      refine RsSge.read_write_disjoint (.inl ?_)
      simp only [sizeofSge, sizeofIomap, rsSglSize]
      omega
  case h_3 hop =>
    rcases hsgl hop with hnil | ⟨hlen, hkey, haddr⟩
    · refine ⟨rs.rx.rbuf, rs.tx.target, place_nil hnil, by simp [hop], ?_⟩
      rw [if_neg (by simp [hnil])]
      exact fun _ _ => rfl
    · have hne : p.bytes ≠ [] := by
        rw [← List.length_pos_iff, hlen]
        decide
      refine ⟨rs.rx.rbuf, _, place_target hne ?_ haddr hkey, by simp [hop], ?_⟩
      · rw [hlen]
        simp only [sizeofSge, rsSglSize] at hi ⊢
        omega
      · rw [if_pos ⟨hop, hne⟩, Nat.mul_comm]
  case h_4 hop =>
    refine ⟨rs.rx.rbuf, rs.tx.target, place_nil hok, by simp [hop], ?_⟩
    rw [if_neg (by simp [hop])]
    exact fun _ _ => rfl
  case h_5 => exact absurd hok id

/-- A write changes only the memories that are open to the other end. Kind: L -/
lemma place_fields {rs' : Rsocket} (h : rs.place p = some rs') :
    rs'.cfg = rs.cfg ∧ rs'.out = rs.out ∧ rs'.peer = rs.peer ∧ rs'.state = rs.state ∧
      rs'.qp = rs.qp := by
  unfold place at h
  simp only at h
  split_ifs at h <;> obtain rfl := Option.some.inj h <;> exact ⟨rfl, rfl, rfl, rfl, rfl⟩

/-- A packet that is delivered: its bytes are placed, and its message is in the completion queue.
Kind: L -/
lemma deliver_eq_some {rs' : Rsocket} (h : rs.deliver p = some rs') :
    (∃ rs'', rs.place p = some rs'' ∧ rs'.tx = rs''.tx ∧ rs'.rx = rs''.rx) ∧
      rs'.cfg = rs.cfg ∧ rs'.out = rs.out ∧ rs'.peer = rs.peer ∧ rs'.state = rs.state ∧
      rs'.qp = { rs.qp with
        recvs := rs.qp.recvs - p.msgs.length
        cq := rs.qp.cq ++ p.msgs.map .recv } ∧ p.msgs.length ≤ rs.qp.recvs := by
  unfold deliver at h
  unfold Packet.msgs
  split_ifs at h ⊢ with himm hzero
  · obtain ⟨rs'', hplace, rfl⟩ := Option.map_eq_some_iff.mp h
    obtain ⟨hcfg, hout, hpeer, hstate, hqp⟩ := place_fields hplace
    refine ⟨⟨rs'', hplace, rfl, rfl⟩, hcfg, hout, hpeer, hstate, ?_,
      Nat.one_le_iff_ne_zero.mpr hzero⟩
    simp [hqp]
  · obtain ⟨hcfg, hout, hpeer, hstate, hqp⟩ := place_fields h
    exact ⟨⟨rs', h, rfl, rfl⟩, hcfg, hout, hpeer, hstate, by simp [hqp], by simp⟩

/-- The receives that were consumed, and what they brought. Kind: L -/
lemma recvMsgs_map_recv (msgs : List UInt32) : recvMsgs (msgs.map .recv) = msgs := by
  induction msgs with
  | nil => rfl
  | cons msg msgs ih =>
      rw [List.map_cons, recvMsgs, List.filterMap_cons]
      exact congrArg (msg :: ·) ih

/-- A message that was received is no completion of a work request. Kind: L -/
lemma sendMsgs_map_recv (msgs : List UInt32) : sendMsgs (msgs.map .recv) = [] := by
  induction msgs with
  | nil => rfl
  | cons msg msgs ih =>
      rw [List.map_cons, sendMsgs, List.filterMap_cons]
      exact ih

/-! ## Arrival -/

/-- The oldest packet on the wire is the oldest one in flight. Kind: L -/
lemma flight_cons {wr : Wr} {wire : List (Wr × Packet)} (hwire : rs.qp.wire = (wr, p) :: wire) :
    rs.flight = p :: (wire.map Prod.snd ++ rs.qp.sq.map (packetOf rs.out.sbuf)) := by
  simp [flight, hwire]

/-- What the packet is like that arrives next. Kind: L -/
lemma bringsHalf_of_sglStep {cfg cfg' : Config} {a a' : Allowed} (h : sglStep cfg cfg' a p a')
    (hop : rsMsgOp p.msg = .sgl) : BringsHalf cfg' p (a.halves % 2) := by
  rw [sglStep, if_pos hop] at h
  obtain ⟨-, -, ⟨hnil, -⟩ | ⟨-, hbytes, hkey, haddr⟩⟩ := h
  · exact .inl hnil
  · exact .inr ⟨by rw [hbytes, RsSge.length_bytes], hkey, haddr⟩

variable {peer peer' : Rsocket} {sent got sent' got' : List UInt8} {closed closed' : Option ℕ}
  {G G' : Ghost} {wr : Wr} {wire : List (Wr × Packet)}

/-- **The packet that arrives next is not refused**: it is well formed for both directions.
Kind: L -/
lemma place_next (h : Dir rs.writer peer.reader sent got closed G)
    (h' : Dir peer.writer rs.reader sent' got' closed' G') (herr : rs.qp.error = false)
    (hwire : rs.qp.wire = (wr, p) :: wire) :
    PacketOk peer.cfg sent G.placed p ∧ ∃ rbuf target, peer.place p = some { peer with
        rx := { peer.rx with rbuf := rbuf }
        tx := { peer.tx with target := target } } ∧
      (rbuf = if rsMsgOp p.msg = .data then
        peer.rx.rbuf.write (G.placed.pos % peer.cfg.rbufSize) p.bytes else peer.rx.rbuf) ∧
      if rsMsgOp p.msg = .sgl ∧ p.bytes ≠ [] then
        target = peer.tx.target.write (sizeofSge * (G'.landed.halves % 2)) p.bytes
      else ∀ j < 2, RsSge.read peer.cfg.net target (sizeofSge * j) = peer.writer.entry j := by
  have hdata := h.flight herr
  have hsgl := h'.sgl herr
  rw [show rs.writer.line.flight = _ from flight_cons hwire] at hdata
  rw [show rs.reader.line.flight = _ from flight_cons hwire] at hsgl
  obtain ⟨m, ⟨-, hok⟩, -⟩ := leads_cons.mp hdata
  obtain ⟨a, hstep, -⟩ := leads_cons.mp hsgl
  exact ⟨hok, place_of_packetOk hok (Nat.mod_lt _ (by decide)) (bringsHalf_of_sglStep hstep)⟩

/-- The end whose packet has arrived, when it waits for the acknowledgement. Kind: D -/
def arrived (rs : Rsocket) (wr : Wr) (wire : List (Wr × Packet)) : Rsocket :=
  { rs with qp := { rs.qp with wire := wire, done := rs.qp.done ++ [wr] } }

/-- A request is pending until it is acknowledged. Kind: L -/
lemma outInv_arrived (hout : rs.OutInv) (hwire : rs.qp.wire = (wr, p) :: wire) :
    (rs.arrived wr wire).OutInv := by
  obtain ⟨first, last, hok⟩ := hout
  refine ⟨first, last, ?_⟩
  have hpending : (rs.arrived wr wire).qp.pending = rs.qp.pending := by
    simp [arrived, Qp.pending, hwire]
  rw [hpending]
  exact hok

/-- **A packet arrives**: both directions stay in order, and what is not theirs is as it was.
Kind: L -/
lemma dir_arrives (h : Dir rs.writer peer.reader sent got closed G)
    (h' : Dir peer.writer rs.reader sent' got' closed' G') (herr : rs.qp.error = false)
    (hwire : rs.qp.wire = (wr, p) :: wire) (hdeliver : peer.deliver p = some peer') :
    (∃ G₁, Dir (rs.arrived wr wire).writer peer'.reader sent got closed G₁ ∧ G.Moves G₁ false 0) ∧
      ∃ G₂, Dir peer'.writer (rs.arrived wr wire).reader sent' got' closed' G₂ ∧
        G'.Moves G₂ false 0 := by
  obtain ⟨hok, rbuf, target, hplace, hrbuf, htarget⟩ := place_next h h' herr hwire
  obtain ⟨⟨rs'', hplace', htx, hrx⟩, hcfg, hout, -, hstate, hqp, -⟩ := deliver_eq_some hdeliver
  obtain rfl := Option.some.inj (hplace'.symm.trans hplace)
  have himm : rsMsgOp p.msg = .sgl → p.withImm = true := by
    intro hop
    simpa only [PacketOk, hop] using hok
  have hline : peer'.line = { peer.line with arrived := peer.line.arrived ++ p.msgs } := by
    simp only [line, flight, hqp, hout, recvMsgs, List.filterMap_append]
    rw [← recvMsgs, ← recvMsgs, recvMsgs_map_recv]
  have hrest : (rs.arrived wr wire).line = { rs.line with
      flight := wire.map Prod.snd ++ rs.qp.sq.map (packetOf rs.out.sbuf) } := rfl
  have hflight : rs.line.flight = p :: (wire.map Prod.snd ++ rs.qp.sq.map (packetOf rs.out.sbuf)) :=
    flight_cons hwire
  constructor
  · have harrives := h.dataArrives herr hflight hrbuf
    rw [reader, hcfg, hrx, hstate, hline]
    exact ⟨_, harrives, Ghost.moves_of_eq rfl rfl⟩
  · obtain ⟨landed, harrives⟩ := h'.sglArrives herr hflight himm htarget
    rw [writer, hcfg, htx, hstate, hline]
    exact ⟨_, harrives, Ghost.moves_of_eq rfl rfl⟩

/-- The accounts of the end to which a packet has come. Kind: L -/
lemma outInv_deliver (hout : peer.OutInv) (hdeliver : peer.deliver p = some peer') :
    peer'.OutInv := by
  obtain ⟨-, hcfg, hout', -, -, hqp, -⟩ := deliver_eq_some hdeliver
  obtain ⟨first, last, hok⟩ := hout
  refine ⟨first, last, ?_⟩
  rw [hcfg, hout', hqp]
  simp only [sendMsgs, List.filterMap_append]
  rw [← sendMsgs, ← sendMsgs, sendMsgs_map_recv, List.append_nil]
  exact hok

end Rsocket

/-! ## The answer -/

/-- The half that is handed out with the connection data. Kind: L -/
lemma grant_zero (cfg : Config) :
    grant cfg 0 = ⟨cfg.rmr.addr, cfg.rmr.rkey, UInt32.ofNat (cfg.rbufSize / 2)⟩ := by
  simp [grant, Config.half]

/-- An end that has the connection data of `peer`. Kind: L -/
lemma rsConnected_eq (rs peer : Rsocket) :
    rs.rsConnected peer.rsFormatConnData = { rs with
      peer := Peer.of rs.cfg.net peer.cfg
      rx := { rs.rx with remoteSge := 1 }
      tx := { rs.tx with
        target := rs.tx.target.write 0 ((grant peer.cfg 0).bytes rs.cfg.net)
        sseqComp := UInt16.ofNat peer.cfg.rqSize }
      state := rsConnectRdwr } := by
  rw [Rsocket.rsConnected, saveConnData_formatConnData, grant_zero]

namespace Dir

variable {w : WriterView} {r : ReaderView} {sent got : List UInt8} {closed : Option ℕ} {G : Ghost}

/-- **The sender learns where to write**: the first half, and how many messages it may send.
Kind: L -/
lemma writerAnswers (h : Dir w r sent got closed G) (hopen : w.opening = true) :
    Dir ⟨w.cfg, { w.tx with
        target := w.tx.target.write 0 ((grant r.cfg 0).bytes w.cfg.net)
        sseqComp := UInt16.ofNat r.cfg.rqSize }, false, w.line⟩ r sent got closed G := by
  obtain ⟨rfl, hknown, -⟩ := h.opening_eq hopen
  have htarget := h.target
  have hhalf := r.cfg.half_pos
  refine { h with
    sseqComp_eq := fun _ => by rw [hknown, Nat.zero_add]
    opening_eq := fun ho => absurd ho (by simp)
    reader := { h.reader with }
    target := { htarget with next := ?_, cur := fun _ => ?_ } }
  · have hnext := htarget.next
    have hentry : ∀ line, WriterView.entry ⟨w.cfg, { w.tx with
        target := w.tx.target.write 0 ((grant r.cfg 0).bytes w.cfg.net)
        sseqComp := UInt16.ofNat r.cfg.rqSize }, false, line⟩ 1 = w.entry 1 := fun _ =>
      RsSge.read_write_disjoint (.inr (by simp [sizeofSge]))
    simp only [List.length_nil, Nat.zero_div, Nat.zero_add, Nat.one_mod] at hnext ⊢
    rw [hentry]
    exact hnext
  · simp only [List.length_nil, Nat.zero_div, Nat.zero_mod, Nat.sub_zero]
    rw [if_pos htarget.landed_pos]
    have hread : RsSge.read w.cfg.net
        (w.tx.target.write 0 ((grant r.cfg 0).bytes w.cfg.net)) 0 = grant r.cfg 0 :=
      RsSge.read_write _ _ _ _
    exact hread.trans (by rw [grant, Nat.zero_mod, Nat.zero_mul])

/-- **The receiver learns where the next half is to be announced.** Kind: L -/
lemma readerAnswers (h : Dir w r sent got closed G) (hopen : r.opening = true) :
    Dir w ⟨r.cfg, { r.rx with remoteSge := 1 }, false, r.line⟩ sent got closed G := by
  have hgiven := h.reader.opening_eq hopen
  exact { h with
    target := { h.target with }
    reader := { h.reader with
      sge_eq := fun _ => by rw [hgiven]
      opening_eq := fun ho => absurd ho (by simp) } }

end Dir

/-- The history when nothing has happened: one half of the buffer is handed out from the start.
Kind: D -/
def Ghost.start : Ghost where
  posted := ⟨0, 0, 0, none⟩
  placed := ⟨0, 0, 0, none⟩
  polled := ⟨0, 0, 0, none⟩
  given := ⟨1, 0⟩
  landed := ⟨1, 0⟩
  known := 0
  read := 0
  queue := []

/-- In a memory of zeros every entry has the length 0. Kind: L -/
lemma length_read_zero (net : Bool) (a : ℕ) : (RsSge.read net (fun _ => 0) a).length = 0 := by
  cases net <;> rfl

/-- **The start of a direction**: `rs_init_bufs` at both ends. Kind: L -/
lemma dir_init (c d : Config) :
    Dir (rsInitBufs c).writer (rsInitBufs d).reader [] [] none .start where
  pos_eq := rfl
  eof_eq := rfl
  sseqNo_eq := rfl
  sseqComp_eq := fun ho => Bool.noConfusion ho
  budget := Nat.zero_le _
  opening_eq := fun _ => ⟨rfl, rfl, rfl⟩
  target :=
    { landed_pos := Nat.one_pos
      pos_le := Nat.zero_le _
      next := by
        rw [if_neg (by simp [Ghost.start]), List.length_nil, Nat.zero_div]
        exact length_read_zero c.net _
      sge_eq := by simp [Rsocket.writer, rsInitBufs]
      cur := fun ho => Bool.noConfusion ho }
  flight := fun _ => rfl
  placed_le := Mark.Le.refl _
  arrived := rfl
  arrived_ok := fun _ h => absurd h (by simp [Rsocket.reader, Rsocket.line, rsInitBufs, recvMsgs])
  reader :=
    { got_isPrefix := List.prefix_refl _
      rseqNo_eq := rfl
      rseqComp_eq := by simp [Rsocket.reader, rsInitBufs, Ghost.start]
      told_le := le_rfl
      avail_eq := by
        have htwo := d.two_half
        simp [Rsocket.reader, rsInitBufs, Ghost.start, Config.rbufSize_div_two]
        omega
      given_le := by
        have htwo := d.two_half
        simp [Rsocket.reader, rsInitBufs, Ghost.start]
        omega
      free_eq := by simp [Rsocket.reader, rsInitBufs, Ghost.start, Config.rbufSize_div_two]
      sge_eq := fun ho => Bool.noConfusion ho
      opening_eq := fun _ => rfl
      offset_le := Nat.zero_le _
      offset_eq := rfl
      holds := Ring.holds_nil _ (Nat.succ_pos _)
      queue_pos := fun _ h => absurd h (by simp [Ghost.start])
      queue_sum := rfl
      queue_cnt := rfl
      eof_le := fun _ h => by simp [Ghost.start] at h
      bytes_eq := rfl }
  sgl := fun _ => rfl
  landed_le := ⟨le_rfl, le_rfl⟩
  credits := rfl

end FreeFlow.RSocket
