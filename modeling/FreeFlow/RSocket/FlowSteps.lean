import FreeFlow.RSocket.Flow

/-!
# How the steps of a connection keep one direction in order

For every step of an end and every arrival of a packet, one lemma for the direction in which the end
sends and one for the direction in which it receives. They speak of the two views of an end, so a
step that changes neither needs no lemma.

* `Dir.sendData`, `Dir.sendIomap` — the sender posts what uses a credit.
* `Dir.writerPosts`, `Dir.writerCloses`, `Dir.readerPosts` — other packets of the two ends.
* `Dir.readerCredits` — the receiver hands out what has become free.
* `Dir.readerPolls`, `Dir.writerPolls` — a message that has come in is looked at.
* `Dir.rrecv` — bytes are given to the application: they are the next ones of the stream.
* `Dir.dataArrives`, `Dir.sglArrives` — a packet arrives at the receiver, or at the sender.
* `Dir.writerFails`, `Dir.readerFails` — a queue pair has failed.

Source: `rsocket.c`.
-/

namespace FreeFlow.RSocket

open FreeFlow.Found

/-! ## The entries of the sender -/

section Target

variable {w : WriterView} {cfg : Config} {pos landed n : ℕ}

/-- A position in the buffer, by halves. Kind: L -/
lemma mod_rbufSize (cfg : Config) (pos : ℕ) :
    pos % cfg.rbufSize = pos % cfg.half + cfg.half * (pos / cfg.half % 2) := by
  rw [cfg.two_half, Nat.mul_comm 2, Nat.mod_mul]

/-- The entry that `rs_write_data` has changed. Kind: L -/
lemma entry_advance_self (w : WriterView) (line : Line) (n : ℕ) :
    (⟨w.cfg, w.tx.advance w.cfg.net n, w.opening, line⟩ : WriterView).entry w.tx.targetSge =
      ⟨(w.entry w.tx.targetSge).addr + UInt64.ofNat n, (w.entry w.tx.targetSge).key,
        (w.entry w.tx.targetSge).length - UInt32.ofNat n⟩ := by
  simp only [WriterView.entry, Tx.advance, RsSge.read_write]

/-- The other entry. Kind: L -/
lemma entry_advance_other (w : WriterView) (line : Line) (n : ℕ) {i : ℕ}
    (hi : i ≠ w.tx.targetSge) :
    (⟨w.cfg, w.tx.advance w.cfg.net n, w.opening, line⟩ : WriterView).entry i = w.entry i := by
  simp only [WriterView.entry, Tx.advance]
  apply RsSge.read_write_disjoint
  rw [RsSge.length_bytes]
  simp only [sizeofSge]
  omega

/-- The entry that is used next. Kind: L -/
lemma targetSge_advance (w : WriterView) (n : ℕ) :
    (w.tx.advance w.cfg.net n).targetSge =
      if (w.entry w.tx.targetSge).length - UInt32.ofNat n = 0 then
        (if w.tx.targetSge + 1 = rsSglSize then 0 else w.tx.targetSge + 1)
      else w.tx.targetSge := rfl

/-- A half is the length of an entry. Kind: L -/
lemma toNat_ofNat_half (cfg : Config) {k : ℕ} (hk : k ≤ cfg.half) :
    (UInt32.ofNat k).toNat = k := by
  have htwo := cfg.two_half
  have hlt := cfg.rbuf_lt
  rw [UInt32.toNat_ofNat', Nat.mod_eq_of_lt (by omega)]

/-- **The entry in use** has what is left of its half. Kind: L -/
lemma TargetOk.cur_eq (h : TargetOk w cfg pos landed) (hopen : w.opening = false) (hn : 0 < n)
    (hle : n ≤ (w.entry w.tx.targetSge).length.toNat) :
    pos / cfg.half < landed ∧
      w.entry w.tx.targetSge = ⟨cfg.rmr.addr + UInt64.ofNat (pos % cfg.rbufSize), cfg.rmr.rkey,
        UInt32.ofNat (cfg.half - pos % cfg.half)⟩ ∧ n ≤ cfg.half - pos % cfg.half := by
  have hcur := h.cur hopen
  rw [← h.sge_eq] at hcur
  split_ifs at hcur with hlanded
  · refine ⟨hlanded, hcur, ?_⟩
    rwa [hcur, toNat_ofNat_half cfg (Nat.sub_le _ _)] at hle
  · rw [hcur] at hle
    exact absurd hle (by simp; omega)

/-- **A transfer moves the entry on**: within its half, or to the next one. Kind: L -/
lemma TargetOk.advance (h : TargetOk w cfg pos landed) (hopen : w.opening = false) (hn : 0 < n)
    (hle : n ≤ (w.entry w.tx.targetSge).length.toNat) (hlanded : landed ≤ pos / cfg.half + 2)
    (line : Line) :
    TargetOk ⟨w.cfg, w.tx.advance w.cfg.net n, w.opening, line⟩ cfg (pos + n) landed := by
  obtain ⟨hlt, hcur, hroom⟩ := h.cur_eq hopen hn hle
  have hhalf := cfg.half_pos
  have hmod := Nat.mod_lt pos hhalf
  have hdiv := Nat.div_add_mod pos cfg.half
  have hself := entry_advance_self w line n
  have hother : ∀ i, i ≠ w.tx.targetSge → _ := fun i hi => entry_advance_other w line n hi
  have hsge := h.sge_eq
  have hlen : (w.entry w.tx.targetSge).length - UInt32.ofNat n =
      UInt32.ofNat (cfg.half - pos % cfg.half - n) := by
    rw [hcur, UInt32.ofNat_sub hroom]
  have hnext := h.next
  set u := pos / cfg.half with hu
  by_cases hfull : n = cfg.half - pos % cfg.half
  · -- the half is used up, and the other entry is the one in use
    have hpos : pos + n = (u + 1) * cfg.half := by
      rw [Nat.add_mul, Nat.one_mul, Nat.mul_comm]
      omega
    have hdiv' : (pos + n) / cfg.half = u + 1 := by
      rw [hpos, Nat.mul_div_cancel _ hhalf]
    have hmod' : (pos + n) % cfg.half = 0 := by
      rw [hpos, Nat.mul_mod_left]
    have hzero : (w.entry w.tx.targetSge).length - UInt32.ofNat n = 0 := by
      rw [hlen, ← hfull, Nat.sub_self]
      rfl
    refine ⟨h.landed_pos, ?_, ?_, ?_, fun _ => ?_⟩
    · rw [hpos]
      exact Nat.mul_le_mul_right _ hlt
    · rw [hdiv', if_neg (by omega), show (u + 1 + 1) % 2 = w.tx.targetSge by omega, hself]
      exact hzero
    · rw [hdiv', targetSge_advance, if_pos hzero]
      simp only [rsSglSize]
      split_ifs <;> omega
    · rw [hdiv', hother _ (by omega)]
      split_ifs at hnext ⊢ with hmore
      · rw [hnext, grant, mod_rbufSize, hdiv', hmod', Nat.zero_add, Nat.sub_zero, Nat.mul_comm]
      · exact hnext
  · -- the half has room left
    have hdiv' : (pos + n) / cfg.half = u := by
      rw [Nat.div_eq_of_lt_le]
      · rw [Nat.mul_comm]
        omega
      · rw [Nat.add_mul, Nat.one_mul, Nat.mul_comm]
        omega
    have hmod' : (pos + n) % cfg.half = pos % cfg.half + n := by
      have hdiv'' := Nat.div_add_mod (pos + n) cfg.half
      rw [hdiv'] at hdiv''
      omega
    have hne : (w.entry w.tx.targetSge).length - UInt32.ofNat n ≠ 0 := by
      rw [hlen, ne_eq, ← UInt32.toNat_inj, toNat_ofNat_half cfg (by omega)]
      simp
      omega
    refine ⟨h.landed_pos, ?_, ?_, ?_, fun _ => ?_⟩
    · have hmul := Nat.mul_le_mul_right cfg.half hlt
      rw [Nat.succ_mul, Nat.mul_comm] at hmul
      omega
    · rw [hdiv', hother _ (by omega)]
      exact hnext
    · rw [hdiv', targetSge_advance, if_neg hne]
      exact hsge
    · rw [hdiv', if_pos hlt, ← hsge, hself, hlen, hcur, mod_rbufSize, mod_rbufSize, ← hu, hdiv', hmod',
        UInt64.add_assoc, ← UInt64.ofNat_add]
      simp only [RsSge.mk.injEq, true_and]
      refine ⟨?_, ?_⟩
      · congr 2
        omega
      · congr 1
        omega

/-- Only the two entries matter. Kind: L -/
lemma TargetOk.of_entries {w' : WriterView} (h : TargetOk w cfg pos landed)
    (hentry : ∀ i < 2, w'.entry i = w.entry i) (hsge : w'.tx.targetSge = w.tx.targetSge)
    (hopen : w'.opening = w.opening) : TargetOk w' cfg pos landed where
  landed_pos := h.landed_pos
  pos_le := h.pos_le
  next := by
    rw [hentry _ (Nat.mod_lt _ two_pos)]
    exact h.next
  sge_eq := hsge.trans h.sge_eq
  cur := by
    rw [hentry _ (Nat.mod_lt _ two_pos), hopen]
    exact h.cur

/-- The entry that an RDMA write has filled, and the other one. Kind: L -/
lemma entry_write (w : WriterView) (line : Line) {i j : ℕ} (e : RsSge) :
    (⟨w.cfg, { w.tx with target := w.tx.target.write (sizeofSge * i) (e.bytes w.cfg.net) },
      w.opening, line⟩ : WriterView).entry j = if j = i then e else w.entry j := by
  simp only [WriterView.entry]
  split_ifs with hij
  · rw [hij, RsSge.read_write]
  · apply RsSge.read_write_disjoint
    rw [RsSge.length_bytes]
    simp only [sizeofSge]
    omega

/-- **A half comes in**: it is put into an entry that is used up. Kind: L -/
lemma TargetOk.land (h : TargetOk w cfg pos landed) (hle : landed ≤ pos / cfg.half + 1)
    (line : Line) :
    TargetOk ⟨w.cfg, { w.tx with
        target :=
          w.tx.target.write (sizeofSge * (landed % 2)) ((grant cfg landed).bytes w.cfg.net) },
      w.opening, line⟩ cfg pos (landed + 1) := by
  have hhalf := cfg.half_pos
  have hdiv := Nat.div_add_mod pos cfg.half
  have hmod := Nat.mod_lt pos hhalf
  have hpos := h.pos_le
  have hge : pos / cfg.half ≤ landed := by
    rw [← Nat.lt_succ_iff, Nat.div_lt_iff_lt_mul hhalf, Nat.succ_mul]
    omega
  have hlast : landed = pos / cfg.half + 1 ∨ landed = pos / cfg.half := by omega
  refine ⟨Nat.succ_pos _, ?_, ?_, h.sge_eq, fun hopen => ?_⟩
  · rw [Nat.succ_mul]
    omega
  · have hnext := h.next
    rw [entry_write]
    rcases hlast with hlast | hlast
    · rw [if_pos (by omega), if_pos (by omega), hlast]
    · rw [if_neg (by omega)] at hnext ⊢
      rw [if_neg (by omega)]
      exact hnext
  · have hcur := h.cur hopen
    rw [if_pos (by omega), entry_write]
    rcases hlast with hlast | hlast
    · rw [if_pos (by omega)] at hcur
      rw [if_neg (by omega)]
      exact hcur
    · -- the entry in use was used up, at the end of its half
      have hzero : pos % cfg.half = 0 := by
        rw [hlast, Nat.mul_comm] at hpos
        omega
      rw [if_pos (by omega), grant, mod_rbufSize, hlast, hzero, Nat.zero_add, Nat.sub_zero,
        Nat.mul_comm]

end Target

/-! ## The sender posts -/

/-- More bytes of the application do not change what a packet has to be like. Kind: L -/
lemma PacketOk.append {cfg : Config} {sent : List UInt8} {m : Mark} {p : Packet}
    (h : PacketOk cfg sent m p) (bs : List UInt8) : PacketOk cfg (sent ++ bs) m p := by
  unfold PacketOk at h ⊢
  split at h <;> try exact h
  obtain ⟨himm, hne, hlen, hprefix, hrest⟩ := h
  refine ⟨himm, hne, hlen, ?_, hrest⟩
  have hpos : m.pos ≤ sent.length := by
    by_contra hlt
    rw [List.drop_eq_nil_of_le (by omega)] at hprefix
    exact hne (List.prefix_nil.mp hprefix)
  rw [List.drop_append_of_le_length hpos]
  exact hprefix.trans (List.prefix_append _ _)

/-- The messages that a packet brings. Kind: D -/
def Packet.msgs (p : Packet) : List UInt32 :=
  if p.withImm then [p.msg] else []

namespace Dir

variable {w : WriterView} {r : ReaderView} {sent got : List UInt8} {closed : Option ℕ} {G : Ghost}
  {p : Packet}

/-- What the receiver has does not depend on bytes that are sent later. Kind: L -/
lemma readerOk_append (h : ReaderOk r sent got G) (hgot : got.length ≤ G.placed.pos)
    (hplaced : G.placed.pos ≤ sent.length) (bs : List UInt8) (posted : Mark) :
    ReaderOk r (sent ++ bs) got { G with posted := posted } := by
  refine { h with got_isPrefix := h.got_isPrefix.trans (List.prefix_append _ _), bytes_eq := ?_ }
  have hbytes := h.bytes_eq
  rw [List.drop_append_of_le_length (by omega), List.take_append_of_le_length (by simp; omega)]
  exact hbytes

/-- A credit is left. Kind: L -/
lemma cnt_lt (h : Dir w r sent got closed G) (hopen : w.opening = false)
    (hseq : w.tx.sseqNo ≠ w.tx.sseqComp) : G.posted.cnt < G.known + r.cfg.rqSize := by
  refine lt_of_le_of_ne h.budget fun heq => hseq ?_
  rw [h.sseqNo_eq, h.sseqComp_eq hopen, heq]

/-- **Data are posted**: they go to the place of their position in the stream. Kind: L -/
lemma sendData (h : Dir w r sent got closed G) (hopen : w.opening = false)
    (hseq : w.tx.sseqNo ≠ w.tx.sseqComp) {bs : List UInt8} (hbs : bs ≠ [])
    (hle : bs.length ≤ (w.entry w.tx.targetSge).length.toNat) (hlt : bs.length < 2 ^ 29) :
    Dir ⟨w.cfg, w.tx.advance w.cfg.net bs.length, w.opening,
        w.line.post ⟨rsMsgSet .data bs.length, true, bs, (w.entry w.tx.targetSge).addr,
          (w.entry w.tx.targetSge).key⟩⟩ r (sent ++ bs) got closed
      { G with posted := { G.posted with
        pos := G.posted.pos + bs.length
        cnt := G.posted.cnt + 1 } } := by
  have hn : 0 < bs.length := List.length_pos_iff.mpr hbs
  obtain ⟨hgot, hpolled, hplaced, -, -, -⟩ := h.bounds
  obtain ⟨-, hcur, hroom⟩ := h.target.cur_eq hopen hn hle
  have hcnt := h.cnt_lt hopen hseq
  refine
    { pos_eq := by simp [h.pos_eq]
      eof_eq := h.eof_eq
      sseqNo_eq := by simp [Tx.advance, h.sseqNo_eq, UInt16.ofNat_add]
      sseqComp_eq := h.sseqComp_eq
      budget := hcnt
      opening_eq := fun ho => absurd ho (by simp [hopen])
      target := ?_
      flight := fun herr => ?_
      placed_le := h.placed_le.trans ⟨by simp, by simp, le_rfl, by simp, fun _ hp => hp⟩
      arrived := h.arrived
      arrived_ok := h.arrived_ok
      reader := readerOk_append h.reader (by omega) hplaced bs _
      sgl := h.sgl
      landed_le := h.landed_le
      credits := h.credits }
  · rw [List.length_append]
    exact h.target.advance hopen hn hle (h.landed_le.1.trans h.given_le) _
  · refine ((h.flight herr).mono ?_).snoc ⟨?_, ?_⟩
    · rintro m q - m' ⟨hm, hq⟩
      exact ⟨hm, hq.append bs⟩
    · simp [Mark.pass, Mark.next_data (rsMsgOp_rsMsgSet _ hlt), rsMsgData_rsMsgSet _ hlt]
    · have hpos : G.posted.pos = sent.length := h.pos_eq
      simp only [PacketOk, rsMsgOp_rsMsgSet _ hlt]
      refine ⟨trivial, hbs, rsMsgData_rsMsgSet _ hlt, ?_, ?_, ?_, ?_⟩
      · rw [hpos, List.drop_left]
      · rw [hpos, mod_rbufSize]
        have htwo := r.cfg.two_half
        rcases Nat.mod_two_eq_zero_or_one (sent.length / r.cfg.half) with hz | hz <;>
          rw [hz] <;> omega
      · rw [hcur, hpos]
      · rw [hcur]

/-- **A mapping is posted.** Kind: L -/
lemma sendIomap (h : Dir w r sent got closed G) (hopen : w.opening = false)
    (hseq : w.tx.sseqNo ≠ w.tx.sseqComp) (hop : rsMsgOp p.msg = .iomapSgl)
    (hp : PacketOk r.cfg sent G.posted p) :
    Dir ⟨w.cfg, { w.tx with sseqNo := w.tx.sseqNo + 1 }, w.opening, w.line.post p⟩ r sent got closed
      { G with posted := { G.posted with
        cnt := G.posted.cnt + 1
        io := G.posted.io + 1 } } := by
  have hcnt := h.cnt_lt hopen hseq
  have himm : p.withImm = true := by
    simp only [PacketOk, hop] at hp
    exact hp.1
  have hpass : G.posted.pass p = { G.posted with
      cnt := G.posted.cnt + 1
      io := G.posted.io + 1 } := by
    rw [Mark.pass, if_pos himm, Mark.next_iomap hop]
  exact
    { pos_eq := h.pos_eq
      eof_eq := h.eof_eq
      sseqNo_eq := by simp [h.sseqNo_eq, UInt16.ofNat_add]
      sseqComp_eq := h.sseqComp_eq
      budget := hcnt
      opening_eq := fun ho => absurd ho (by simp [hopen])
      target := { h.target with }
      flight := fun herr => (h.flight herr).snoc ⟨hpass.symm, hp⟩
      placed_le := hpass ▸ h.placed_le.trans (G.posted.le_pass p)
      arrived := h.arrived
      arrived_ok := h.arrived_ok
      reader := { h.reader with }
      sgl := h.sgl
      landed_le := h.landed_le
      credits := h.credits }

/-- **A packet that uses no credit is posted** by the sender: with the credits of the other
direction, or a control message. Kind: L -/
lemma writerPosts (h : Dir w r sent got closed G)
    (hop : (rsMsgOp p.msg = .sgl ∧ p.withImm = true) ∨ (rsMsgOp p.msg = .ctrl ∧ p.bytes = [])) :
    Dir { w with line := w.line.post p } r sent got (G.posted.pass p).eof
      { G with posted := G.posted.pass p } := by
  have hpass : (G.posted.pass p).pos = G.posted.pos ∧ (G.posted.pass p).cnt = G.posted.cnt := by
    unfold Mark.pass
    split_ifs
    · rcases hop with ⟨hop, -⟩ | ⟨hop, -⟩
      · rw [Mark.next_sgl hop]
        exact ⟨rfl, rfl⟩
      · rw [Mark.next_ctrl hop]
        split_ifs <;> exact ⟨rfl, rfl⟩
    · exact ⟨rfl, rfl⟩
  have hp : PacketOk r.cfg sent G.posted p := by
    rcases hop with ⟨hop, himm⟩ | ⟨hop, hbytes⟩
    · simp only [PacketOk, hop]
      exact himm
    · simp only [PacketOk, hop]
      exact hbytes
  exact
    { pos_eq := hpass.1.trans h.pos_eq
      eof_eq := rfl
      sseqNo_eq := hpass.2.symm ▸ h.sseqNo_eq
      sseqComp_eq := h.sseqComp_eq
      budget := hpass.2.symm ▸ h.budget
      opening_eq := fun ho => by
        obtain ⟨hsent, hknown, hcnt⟩ := h.opening_eq ho
        exact ⟨hsent, hknown, hpass.2.trans hcnt⟩
      target := { h.target with }
      flight := fun herr => (h.flight herr).snoc ⟨rfl, hp⟩
      placed_le := h.placed_le.trans (G.posted.le_pass p)
      arrived := h.arrived
      arrived_ok := h.arrived_ok
      reader := { h.reader with }
      sgl := h.sgl
      landed_le := h.landed_le
      credits := h.credits }

/-- **The receiver posts** a packet of its own stream, or a control message. Kind: L -/
lemma readerPosts (h : Dir w r sent got closed G) (hop : rsMsgOp p.msg ≠ .sgl) :
    Dir w { r with line := r.line.post p } sent got closed G :=
  { h with
    target := { h.target with }
    reader := { h.reader with }
    sgl := fun herr => (h.sgl herr).snoc (by rw [sglStep, if_neg hop]) }

/-! ## The receiver hands out -/

/-- A sequence number that is one on. Kind: L -/
lemma ofNat_succ16 (n : ℕ) : UInt16.ofNat (n + 1) = UInt16.ofNat n + 1 := UInt16.ofNat_add n 1

/-- The number of messages that a message with credits brings. Kind: L -/
lemma credit_eq (h : Dir w r sent got closed G) :
    UInt16.ofNat (rsMsgData (rsMsgSet .sgl (r.rx.rseqNo.toNat + r.cfg.rqSize))) =
      UInt16.ofNat (G.read + r.cfg.rqSize) := by
  have hseq := r.rx.rseqNo.toNat_lt
  have hrq := r.cfg.rq_le
  rw [rsMsgData_rsMsgSet _ (by omega), UInt16.ofNat_add, UInt16.ofNat_add, UInt16.ofNat_toNat,
    h.reader.rseqNo_eq]

/-- **Credits without space**: the other end may send as many messages as were read. Kind: L -/
lemma readerCredits (h : Dir w r sent got closed G)
    (hmsg : p.msg = rsMsgSet .sgl (r.rx.rseqNo.toNat + r.cfg.rqSize)) (hbytes : p.bytes = []) :
    Dir w ⟨r.cfg, { r.rx with rseqComp := r.rx.rseqNo + UInt16.ofNat (r.cfg.rqSize / 2) }, r.opening,
        r.line.post p⟩ sent got closed { G with given := ⟨G.given.halves, G.read⟩ } := by
  have hseq := r.rx.rseqNo.toNat_lt
  have hrq := r.cfg.rq_le
  have hop : rsMsgOp p.msg = .sgl := hmsg ▸ rsMsgOp_rsMsgSet _ (by omega)
  refine { h with
    target := { h.target with }
    reader := { h.reader with rseqComp_eq := ?_, told_le := le_rfl }
    sgl := fun herr => (h.sgl herr).snoc ?_
    landed_le := ⟨h.landed_le.1, h.landed_le.2.trans h.reader.told_le⟩ }
  · rw [h.reader.rseqNo_eq, ← UInt16.ofNat_add]
  · rw [sglStep, if_pos hop, hmsg]
    exact ⟨h.reader.told_le, h.credit_eq, .inl ⟨hbytes, rfl⟩⟩

/-- **Credits with a half of the buffer**, which has been read. Kind: L -/
lemma readerGrants (h : Dir w r sent got closed G) (hopen : r.opening = false)
    (hhalf : (r.cfg.half : ℤ) ≤ r.rx.rbufBytesAvail)
    (hmsg : p.msg = rsMsgSet .sgl (r.rx.rseqNo.toNat + r.cfg.rqSize))
    (hbytes : p.bytes = (⟨r.cfg.rmr.addr + UInt64.ofNat r.rx.rbufFreeOffset, r.cfg.rmr.rkey,
      UInt32.ofNat r.cfg.half⟩ : RsSge).bytes w.cfg.net)
    (hkey : p.rkey = w.cfg.targetMr.rkey)
    (haddr : p.addr = w.cfg.targetMr.addr + UInt64.ofNat (r.rx.remoteSge * sizeofSge)) :
    Dir w ⟨r.cfg, Rx.giveHalf
        { r.rx with rseqComp := r.rx.rseqNo + UInt16.ofNat (r.cfg.rqSize / 2) } r.cfg.rbufSize
        rsSglSize, r.opening, r.line.post p⟩ sent got closed
      { G with given := ⟨G.given.halves + 1, G.read⟩ } := by
  have hseq := r.rx.rseqNo.toNat_lt
  have hrq := r.cfg.rq_le
  have hop : rsMsgOp p.msg = .sgl := hmsg ▸ rsMsgOp_rsMsgSet _ (by omega)
  have htwo := r.cfg.two_half
  have hpos := r.cfg.half_pos
  have havail := h.reader.avail_eq
  have hsge := h.reader.sge_eq hopen
  refine { h with
    target := { h.target with }
    reader := { h.reader with
      rseqComp_eq := ?_
      told_le := le_rfl
      avail_eq := ?_
      given_le := ?_
      free_eq := ?_
      sge_eq := fun _ => ?_
      opening_eq := fun ho => absurd ho (by simp [hopen]) }
    sgl := fun herr => (h.sgl herr).snoc ?_
    landed_le := ⟨h.landed_le.1.trans (Nat.le_succ _), h.landed_le.2.trans h.reader.told_le⟩ }
  · simp only [Rx.giveHalf]
    rw [h.reader.rseqNo_eq, ← UInt16.ofNat_add]
  · simp only [Rx.giveHalf, Config.rbufSize_div_two]
    push_cast
    rw [add_mul, one_mul]
    omega
  · simp only
    rw [add_mul, one_mul]
    zify
    omega
  · simp only [Rx.giveHalf, Config.rbufSize_div_two, h.reader.free_eq]
    rcases Nat.mod_two_eq_zero_or_one G.given.halves with hz | hz
    · rw [hz, show (G.given.halves + 1) % 2 = 1 by omega, if_neg (by omega)]
      omega
    · rw [hz, show (G.given.halves + 1) % 2 = 0 by omega, if_pos (by omega), Nat.zero_mul]
  · simp only [Rx.giveHalf, hsge, rsSglSize]
    split_ifs <;> omega
  · rw [sglStep, if_pos hop, hmsg]
    refine ⟨h.reader.told_le, h.credit_eq, .inr ⟨rfl, ?_, hkey, ?_⟩⟩
    · rw [hbytes, grant, h.reader.free_eq]
    · rw [haddr, hsge]

/-! ## Messages that have come in -/

/-- The first of the messages that have come in is looked at. Kind: L -/
lemma after_cons (m : Mark) (msg : UInt32) (msgs : List UInt32) :
    m.after (msg :: msgs) = (m.next msg).after msgs := rfl

/-- **The sender looks at a message**: credits raise the number it may send. Kind: L -/
lemma writerPolls (h : Dir w r sent got closed G) (hopen : w.opening = false) {msg : UInt32}
    {msgs : List UInt32} (harrived : w.line.arrived = msg :: msgs) {tx' : Tx}
    (htx : tx' = if rsMsgOp msg = .sgl then
      { w.tx with sseqComp := UInt16.ofNat (rsMsgData msg) } else w.tx) :
    ∃ known, Dir ⟨w.cfg, tx', w.opening, { w.line with arrived := msgs }⟩ r sent got closed
      { G with known := known } := by
  have hcredits := h.credits
  rw [harrived] at hcredits
  obtain ⟨known, hstep, hrest⟩ := leads_cons.mp hcredits
  refine ⟨known, ?_⟩
  unfold creditStep at hstep
  split_ifs at hstep htx with hop
  · subst htx
    exact { h with
      sseqComp_eq := fun _ => hstep.2
      budget := h.budget.trans (Nat.add_le_add_right hstep.1 _)
      opening_eq := fun ho => absurd ho (by simp [hopen])
      target := { h.target with }
      reader := { h.reader with }
      credits := hrest }
  · subst htx hstep
    exact { h with
      target := { h.target with }
      reader := { h.reader with }
      credits := hrest }

/-- The messages that the receiver has not looked at yet, without the first. Kind: L -/
lemma readerPolls_of_rx (h : Dir w r sent got closed G) {msg : UInt32} {msgs : List UInt32}
    (harrived : r.line.arrived = msg :: msgs) {rx' : Rx} (queue : List ℕ)
    (hreader : ReaderOk ⟨r.cfg, rx', r.opening, { r.line with arrived := msgs }⟩ sent got
      { G with polled := G.polled.next msg, queue := queue }) :
    Dir w ⟨r.cfg, rx', r.opening, { r.line with arrived := msgs }⟩ sent got closed
      { G with polled := G.polled.next msg, queue := queue } :=
  { h with
    target := { h.target with }
    reader := hreader
    arrived := by
      rw [← h.arrived, harrived, after_cons]
    arrived_ok := fun m hm => h.arrived_ok m (by simp [harrived, hm]) }

/-- `rmsg_tail` and `rmsg_head` one entry on. Kind: L -/
lemma succ_mod_ring {i rq : ℕ} (hi : i < rq + 1) :
    (if i + 1 = rq + 1 then 0 else i + 1) = (i + 1) % (rq + 1) := by
  split_ifs with heq
  · rw [heq, Nat.mod_self]
  · rw [Nat.mod_eq_of_lt (by omega)]

/-- **The receiver looks at a message**: data are put into the queue, which has room. Kind: L -/
lemma readerPolls (h : Dir w r sent got closed G) {msg : UInt32} {msgs : List UInt32}
    (harrived : r.line.arrived = msg :: msgs) {rx' : Rx}
    (hrx : rx' = if rsMsgOp msg = .data then { r.rx with
        rmsg := Function.update r.rx.rmsg r.rx.rmsgTail (rsMsgData msg)
        rmsgTail := if r.rx.rmsgTail + 1 = r.cfg.rqSize + 1 then 0 else r.rx.rmsgTail + 1 }
      else r.rx) :
    ∃ queue, Dir w ⟨r.cfg, rx', r.opening, { r.line with arrived := msgs }⟩ sent got closed
      { G with polled := G.polled.next msg, queue := queue } := by
  have hmsg : MsgOk msg := h.arrived_ok msg (by simp [harrived])
  have hqueue := h.queue_le
  have hsum := h.reader.queue_sum
  have hcnt := h.reader.queue_cnt
  have hholds := h.reader.holds
  have hafter : (G.polled.next msg).Le G.posted := by
    refine Mark.Le.trans ?_ h.placed_le
    rw [← h.arrived, harrived, after_cons]
    exact Mark.le_after _ _
  unfold MsgOk at hmsg
  split at hmsg
  · -- data
    rename_i hop
    rw [if_pos hop] at hrx
    subst hrx
    have hroom := hafter.cnt
    simp only [Mark.next_data hop] at hroom
    have htail : r.rx.rmsgTail < r.cfg.rqSize + 1 := by
      rw [hholds.head_eq]
      exact Nat.mod_lt _ (Nat.succ_pos _)
    refine ⟨_, h.readerPolls_of_rx harrived (G.queue ++ [rsMsgData msg])
      { h.reader with
        holds := ?_
        queue_pos := ?_
        queue_sum := ?_
        queue_cnt := ?_
        eof_le := Mark.eof_le_next h.reader.eof_le msg }⟩
    · simp only [succ_mod_ring htail]
      exact hholds.push (by omega) (rsMsgData msg)
    · intro n hn
      rcases List.mem_append.mp hn with hn | hn
      · exact h.reader.queue_pos n hn
      · rw [List.mem_singleton.mp hn]
        exact hmsg
    · simp only [List.sum_append, List.sum_singleton, Mark.next_data hop]
      omega
    · simp only [List.length_append, List.length_singleton, Mark.next_data hop]
      omega
  · rename_i hop
    rw [if_neg (by simp [hop])] at hrx
    subst hrx
    refine ⟨_, h.readerPolls_of_rx harrived G.queue
      { h.reader with
        queue_sum := ?_
        queue_cnt := ?_
        eof_le := Mark.eof_le_next h.reader.eof_le msg }⟩
    · simp only [Mark.next_iomap hop]
      exact hsum
    · simp only [Mark.next_iomap hop]
      omega
  · rename_i hop
    rw [if_neg (by simp [hop])] at hrx
    subst hrx
    refine ⟨_, h.readerPolls_of_rx harrived G.queue
      { h.reader with
        queue_sum := ?_
        queue_cnt := ?_
        eof_le := Mark.eof_le_next h.reader.eof_le msg }⟩
    · simp only [Mark.next_sgl hop]
      exact hsum
    · simp only [Mark.next_sgl hop]
      exact hcnt
  · rename_i hop
    rw [if_neg (by simp [hop])] at hrx
    subst hrx
    refine ⟨_, h.readerPolls_of_rx harrived G.queue
      { h.reader with
        queue_sum := ?_
        queue_cnt := ?_
        eof_le := Mark.eof_le_next h.reader.eof_le msg }⟩
    · simp only [Mark.next_ctrl hop]
      split_ifs <;> exact hsum
    · simp only [Mark.next_ctrl hop]
      split_ifs <;> exact hcnt
  · exact absurd hmsg id

/-! ## Bytes for the application -/

/-- A block that starts at an offset of the buffer, its end included. Kind: L -/
lemma cread_eq_read_of_le (m : Mem) {N offset n : ℕ} (h : offset + n ≤ N) :
    m.cread N offset n = m.read offset n := by
  rcases Nat.lt_or_ge offset N with hlt | hge
  · rw [Mem.cread_eq_read m (by rw [Nat.mod_eq_of_lt hlt]; exact h), Nat.mod_eq_of_lt hlt]
  · have hzero : n = 0 := by omega
    subst hzero
    rfl

/-- What is copied from the receive buffer, in one piece or in two, is the block of the stream.
Kind: L -/
lemma copyRbuf_spec (rs : Rsocket) (offset pos n : ℕ) (hle : offset ≤ rs.cfg.rbufSize)
    (hmod : offset % rs.cfg.rbufSize = pos % rs.cfg.rbufSize) (hn : n ≤ rs.cfg.rbufSize) :
    (rs.copyRbuf offset n).1 = rs.rx.rbuf.cread rs.cfg.rbufSize pos n ∧
      (rs.copyRbuf offset n).2 ≤ rs.cfg.rbufSize ∧
      (rs.copyRbuf offset n).2 % rs.cfg.rbufSize = (pos + n) % rs.cfg.rbufSize := by
  have hN := rs.cfg.rbuf_pos
  have hpos : (offset + n) % rs.cfg.rbufSize = (pos + n) % rs.cfg.rbufSize := by
    rw [Nat.add_mod, hmod, ← Nat.add_mod]
  rw [← Mem.cread_congr_mod _ n hmod, ← hpos]
  unfold Rsocket.copyRbuf
  simp only
  split_ifs with hwrap
  · have hsplit : n = (rs.cfg.rbufSize - offset) + (n - (rs.cfg.rbufSize - offset)) := by omega
    refine ⟨?_, by simp only; omega, ?_⟩
    · have hback : rs.rx.rbuf.cread rs.cfg.rbufSize (offset + (rs.cfg.rbufSize - offset))
          (n - (rs.cfg.rbufSize - offset)) =
          rs.rx.rbuf.read 0 (n - (rs.cfg.rbufSize - offset)) := by
        rw [Mem.cread_congr_mod (q := 0) _ _ (by rw [Nat.add_sub_cancel' hle]; simp),
          cread_eq_read_of_le _ (by omega)]
      conv_rhs => rw [hsplit]
      rw [Mem.cread_add, cread_eq_read_of_le _ (by omega), hback]
    · have hover : offset + n = n - (rs.cfg.rbufSize - offset) + rs.cfg.rbufSize := by omega
      rw [hover, Nat.add_mod_right]
  · exact ⟨(cread_eq_read_of_le _ (by omega)).symm, by simp only; omega, rfl⟩

/-- The bytes that wait at the receiver, in two parts. Kind: L -/
lemma bytes_split (h : Dir w r sent got closed G) {n : ℕ} (hn : got.length + n ≤ G.placed.pos) :
    r.rx.rbuf.cread r.cfg.rbufSize got.length n = (sent.drop got.length).take n ∧
      r.rx.rbuf.cread r.cfg.rbufSize (got.length + n) (G.placed.pos - (got.length + n)) =
        (sent.drop (got.length + n)).take (G.placed.pos - (got.length + n)) := by
  have hbytes := h.reader.bytes_eq
  have hplaced := h.bounds.2.2.1
  have hsplit : G.placed.pos - got.length = n + (G.placed.pos - (got.length + n)) := by omega
  rw [hsplit, Mem.cread_add, List.take_add, List.drop_drop] at hbytes
  exact List.append_inj hbytes (by simp; omega)

/-- The application gets the next `n` bytes, which are taken from the queue of messages. Kind: L -/
lemma readerReads (h : Dir w r sent got closed G) {n : ℕ} (hn : got.length + n ≤ G.placed.pos)
    {offset : ℕ} (hoffset : offset ≤ r.cfg.rbufSize)
    (hmod : offset % r.cfg.rbufSize = (got.length + n) % r.cfg.rbufSize) {read : ℕ}
    (hread : G.read ≤ read) {rmsg : ℕ → ℕ} {head : ℕ} {queue : List ℕ}
    (hholds : Ring.Holds rmsg (r.cfg.rqSize + 1) head r.rx.rmsgTail queue)
    (hpos : ∀ k ∈ queue, 0 < k) (hsum : got.length + n + queue.sum = G.polled.pos)
    (hcnt : read + queue.length + G.polled.io = G.polled.cnt) :
    Dir w ⟨r.cfg, { r.rx with
        rseqNo := UInt16.ofNat read
        rmsg := rmsg
        rmsgHead := head
        rbufOffset := offset
        rbufBytesAvail := r.rx.rbufBytesAvail + n }, r.opening, r.line⟩ sent
      (got ++ r.rx.rbuf.cread r.cfg.rbufSize got.length n) closed
      { G with read := read, queue := queue } := by
  obtain ⟨hfirst, hrest⟩ := h.bytes_split hn
  have hlen : (got ++ r.rx.rbuf.cread r.cfg.rbufSize got.length n).length = got.length + n := by
    simp
  have heq := h.reader.avail_eq
  have hle := h.reader.given_le
  refine { h with
    target := { h.target with }
    reader := { h.reader with
      got_isPrefix := ?_
      rseqNo_eq := rfl
      told_le := h.reader.told_le.trans hread
      avail_eq := ?_
      given_le := ?_
      offset_le := hoffset
      offset_eq := hlen ▸ hmod
      holds := hholds
      queue_pos := hpos
      queue_sum := hlen ▸ hsum
      queue_cnt := hcnt
      bytes_eq := ?_ } }
  · rw [hfirst]
    obtain ⟨rest, hrest⟩ := h.reader.got_isPrefix
    rw [← hrest, List.drop_left]
    exact (List.prefix_append_right_inj got).mpr ( List.take_prefix _ _)
  · simp only [hlen]
    push_cast
    omega
  · simp only [hlen]
    omega
  · simp only [hlen]
    exact hrest

/-- A round of `rrecv` that does not use up the first message. Kind: L -/
lemma rrecvIter_of_lt {rs : Rsocket} {left : ℕ} (hlt : left < rs.rx.rmsg rs.rx.rmsgHead) :
    rs.rrecvIter left = ({ rs with rx := { rs.rx with
        rmsg := Function.update rs.rx.rmsg rs.rx.rmsgHead (rs.rx.rmsg rs.rx.rmsgHead - left)
        rbufOffset := (rs.copyRbuf rs.rx.rbufOffset left).2
        rbufBytesAvail := rs.rx.rbufBytesAvail + left } },
      (rs.copyRbuf rs.rx.rbufOffset left).1) := by
  simp only [Rsocket.rrecvIter, if_pos hlt]

/-- A round of `rrecv` that uses up the first message. Kind: L -/
lemma rrecvIter_of_not_lt {rs : Rsocket} {left : ℕ} (hlt : ¬ left < rs.rx.rmsg rs.rx.rmsgHead) :
    rs.rrecvIter left = ({ rs with rx := { rs.rx with
        rseqNo := rs.rx.rseqNo + 1
        rmsgHead := rs.nextRmsg rs.rx.rmsgHead
        rbufOffset := (rs.copyRbuf rs.rx.rbufOffset (rs.rx.rmsg rs.rx.rmsgHead)).2
        rbufBytesAvail := rs.rx.rbufBytesAvail + rs.rx.rmsg rs.rx.rmsgHead } },
      (rs.copyRbuf rs.rx.rbufOffset (rs.rx.rmsg rs.rx.rmsgHead)).1) := by
  simp only [Rsocket.rrecvIter, if_neg hlt]

/-- **A round of `rrecv`** gives the application the next bytes of the stream. Kind: P -/
theorem rrecv {rs : Rsocket} (h : Dir w rs.reader sent got closed G) (hdata : rs.rsHaveRdata)
    {left : ℕ} :
    ∃ read queue, Dir w (rs.rrecvIter left).1.reader sent (got ++ (rs.rrecvIter left).2) closed
      { G with read := read, queue := queue } := by
  have hholds := h.reader.holds
  have hqueue := h.queue_le
  have hsum := h.reader.queue_sum
  have hcnt := h.reader.queue_cnt
  have hseq := h.reader.rseqNo_eq
  obtain ⟨hgot, hpolled, hplaced, hb₁, hb₂, hb₃⟩ := h.bounds
  obtain ⟨d, q, hq⟩ : ∃ d q, G.queue = d :: q :=
    List.exists_cons_of_ne_nil ((hholds.tail_ne_head_iff (by omega)).mp hdata)
  rw [hq] at hholds
  rw [hq, List.sum_cons] at hsum
  rw [hq, List.length_cons] at hcnt
  obtain ⟨hd, hpop⟩ := hholds.pop
  have hqpos : ∀ k ∈ q, 0 < k := fun k hk => h.reader.queue_pos k (by simp [hq, hk])
  by_cases hpart : left < d
  · -- the first message is not used up
    obtain ⟨hbytes, hoff, hmod⟩ := copyRbuf_spec rs rs.rx.rbufOffset got.length left
      h.reader.offset_le h.reader.offset_eq (by change left ≤ rs.reader.cfg.rbufSize; omega)
    have hset := hholds.set_first (d - left)
    have hreads := h.readerReads (n := left) (by omega) hoff hmod le_rfl hset
      (by simpa using ⟨hpart, hqpos⟩) (by simp only [List.sum_cons]; omega)
      (by simp only [List.length_cons]; omega)
    rw [← hseq] at hreads
    rw [rrecvIter_of_lt (hd.symm ▸ hpart), hbytes, show rs.rx.rmsg rs.rx.rmsgHead = d from hd]
    exact ⟨_, _, hreads⟩
  · obtain ⟨hbytes, hoff, hmod⟩ := copyRbuf_spec rs rs.rx.rbufOffset got.length d
      h.reader.offset_le h.reader.offset_eq (by change d ≤ rs.reader.cfg.rbufSize; omega)
    have hreads := h.readerReads (n := d) (by omega) hoff hmod (Nat.le_succ _) hpop hqpos (by omega)
      (by omega)
    rw [ofNat_succ16, ← hseq, ← succ_mod_ring hholds.tail_lt] at hreads
    rw [rrecvIter_of_not_lt (hd.symm ▸ hpart), show rs.rx.rmsg rs.rx.rmsgHead = d from hd, hbytes]
    exact ⟨_, _, hreads⟩

/-! ## Packets arrive -/

/-- Messages of a packet and its mark. Kind: L -/
lemma after_msgs (m : Mark) (p : Packet) : m.after p.msgs = m.pass p := by
  unfold Packet.msgs Mark.pass
  split_ifs <;> rfl

/-- What is in flight does not lead back. Kind: L -/
lemma le_of_leads {cfg : Config} {m m' : Mark} {ps : List Packet}
    (h : Leads (dataStep cfg sent) m ps m') : m.Le m' := by
  refine h.preserves (P := m.Le) ?_ (Mark.Le.refl m)
  rintro s p t ⟨rfl, -⟩ hs
  exact hs.trans (s.le_pass p)

/-- A packet in flight brings a message that the receiver expects. Kind: L -/
lemma msgOk_of_packetOk {cfg : Config} {m : Mark} (h : PacketOk cfg sent m p) :
    ∀ msg ∈ p.msgs, MsgOk msg := by
  intro msg hmsg
  unfold Packet.msgs at hmsg
  split_ifs at hmsg with himm
  · rw [List.mem_singleton.mp hmsg]
    unfold PacketOk at h
    unfold MsgOk
    split at h
    · obtain ⟨-, hne, hlen, -⟩ := h
      simp only [hlen]
      exact List.length_pos_iff.mpr hne
    · trivial
    · trivial
    · trivial
    · exact absurd h id
  · exact absurd hmsg (by simp)

/-- **A packet of the sender arrives**: data go behind what waits at the receiver, which keeps its
bytes. Kind: L -/
lemma dataArrives (h : Dir w r sent got closed G) (herr : w.line.error = false)
    {rest : List Packet} (hflight : w.line.flight = p :: rest) {rbuf : Mem}
    (hrbuf : rbuf = if rsMsgOp p.msg = .data then
      r.rx.rbuf.write (G.placed.pos % r.cfg.rbufSize) p.bytes else r.rx.rbuf) :
    Dir { w with line := { w.line with flight := rest } }
      ⟨r.cfg, { r.rx with rbuf := rbuf }, r.opening,
        { r.line with arrived := r.line.arrived ++ p.msgs }⟩ sent got closed
      { G with placed := G.placed.pass p } := by
  have hleads := h.flight herr
  rw [hflight] at hleads
  obtain ⟨m, ⟨rfl, hok⟩, hrest⟩ := leads_cons.mp hleads
  have hle := le_of_leads hrest
  have hpos := hle.pos
  rw [h.pos_eq] at hpos
  obtain ⟨hgot, hpolled, hplaced, hb₁, hb₂, hb₃⟩ := h.bounds
  refine { h with
    target := { h.target with }
    flight := fun _ => hrest
    placed_le := hle
    arrived := ?_
    arrived_ok := ?_
    reader := { h.reader with bytes_eq := ?_ } }
  · rw [← after_msgs, ← h.arrived, Mark.after, Mark.after, Mark.after, List.foldl_append]
  · intro msg hmsg
    rcases List.mem_append.mp hmsg with hmsg | hmsg
    · exact h.arrived_ok msg hmsg
    · exact msgOk_of_packetOk hok msg hmsg
  · have hbytes := h.reader.bytes_eq
    by_cases hop : rsMsgOp p.msg = .data
    · simp only [PacketOk, hop] at hok
      obtain ⟨himm, -, hlen, hprefix, hone, -⟩ := hok
      rw [if_pos hop] at hrbuf
      have hnext : (G.placed.pass p).pos = G.placed.pos + p.bytes.length := by
        rw [Mark.pass, if_pos himm, Mark.next_data hop, hlen]
      rw [hnext] at hpos
      have hsplit : G.placed.pos + p.bytes.length - got.length =
          (G.placed.pos - got.length) + p.bytes.length := by omega
      have hstart : got.length + (G.placed.pos - got.length) = G.placed.pos := by omega
      simp only [hnext, hsplit, hrbuf]
      rw [Mem.cread_add, hstart, Mem.cread_write_same _ hone,
        Mem.cread_write_of_before _ hone (by omega) (by omega), hbytes, List.take_add,
        List.drop_drop, hstart, ← List.prefix_iff_eq_take.mp hprefix]
    · have hnext : (G.placed.pass p).pos = G.placed.pos := by
        unfold Mark.pass
        split_ifs
        · unfold PacketOk at hok
          split at hok
          · rename_i hdata
            exact absurd hdata hop
          · rename_i hio
            rw [Mark.next_iomap hio]
          · rename_i hsgl
            rw [Mark.next_sgl hsgl]
          · rename_i hctrl
            rw [Mark.next_ctrl hctrl]
            split_ifs <;> rfl
          · exact absurd hok id
        · rfl
      rw [if_neg hop] at hrbuf
      simp only [hnext, hrbuf]
      exact hbytes

/-- What the receiver has sent does not lead back. Kind: L -/
lemma allowed_le {cfg cfg' : Config} {a a' : Allowed} {ps : List Packet}
    (h : Leads (sglStep cfg cfg') a ps a') : a.halves ≤ a'.halves ∧ a.msgs ≤ a'.msgs := by
  refine h.preserves (P := fun t => a.halves ≤ t.halves ∧ a.msgs ≤ t.msgs) ?_ ⟨le_rfl, le_rfl⟩
  rintro s p t hst ⟨hs, hs'⟩
  unfold sglStep at hst
  split_ifs at hst
  · obtain ⟨hmsgs, -, ⟨-, hhalves⟩ | ⟨hhalves, -⟩⟩ := hst
    · exact ⟨by omega, by omega⟩
    · exact ⟨by omega, by omega⟩
  · rw [hst]
    exact ⟨hs, hs'⟩

/-- **A packet of the receiver arrives at the sender**: credits are to be looked at, and a half that
it brings is in its entry. Kind: L -/
lemma sglArrives (h : Dir w r sent got closed G) (herr : r.line.error = false)
    {rest : List Packet} (hflight : r.line.flight = p :: rest)
    (himm : rsMsgOp p.msg = .sgl → p.withImm = true) {target : Mem}
    (htarget : if rsMsgOp p.msg = .sgl ∧ p.bytes ≠ [] then
        target = w.tx.target.write (sizeofSge * (G.landed.halves % 2)) p.bytes
      else ∀ i < 2, RsSge.read w.cfg.net target (sizeofSge * i) = w.entry i) :
    ∃ landed, Dir ⟨w.cfg, { w.tx with target := target }, w.opening,
        { w.line with arrived := w.line.arrived ++ p.msgs }⟩
      { r with line := { r.line with flight := rest } } sent got closed
      { G with landed := landed } := by
  have hleads := h.sgl herr
  rw [hflight] at hleads
  obtain ⟨a, hstep, hrest⟩ := leads_cons.mp hleads
  have hle := allowed_le hrest
  have hgiven := h.given_le
  refine ⟨a, ?_⟩
  suffices htail : TargetOk ⟨w.cfg, { w.tx with target := target }, w.opening,
      { w.line with arrived := w.line.arrived ++ p.msgs }⟩ r.cfg sent.length a.halves ∧
      Leads (creditStep r.cfg) G.known (w.line.arrived ++ p.msgs) a.msgs by
    exact { h with
      target := htail.1
      reader := { h.reader with }
      sgl := fun _ => hrest
      landed_le := hle
      credits := htail.2 }
  unfold sglStep at hstep
  split_ifs at hstep with hop
  · obtain ⟨hmsgs, hdata, hhalves⟩ := hstep
    have hcredit : Leads (creditStep r.cfg) G.known (w.line.arrived ++ p.msgs) a.msgs := by
      rw [Packet.msgs, if_pos (himm hop)]
      refine h.credits.snoc ?_
      rw [creditStep, if_pos hop]
      exact ⟨hmsgs, hdata⟩
    refine ⟨?_, hcredit⟩
    rcases hhalves with ⟨hnil, hhalves⟩ | ⟨hhalves, hbytes, -⟩
    · rw [if_neg (by simp [hnil])] at htarget
      rw [hhalves]
      exact h.target.of_entries htarget rfl rfl
    · have hne : p.bytes ≠ [] := by
        rw [hbytes, ← List.length_pos_iff, RsSge.length_bytes]
        exact Nat.succ_pos _
      rw [if_pos ⟨hop, hne⟩, hbytes] at htarget
      rw [hhalves, htarget]
      exact h.target.land (by omega) _
  · rw [if_neg (by simp [hop])] at htarget
    rw [hstep]
    refine ⟨h.target.of_entries htarget rfl rfl, ?_⟩
    refine h.credits.append ?_
    unfold Packet.msgs
    split_ifs
    · rw [leads_singleton, creditStep, if_neg hop]
    · rfl

/-! ## Failure -/

/-- **The queue pair of the sender has failed**: what it has in flight does not arrive any more.
Kind: L -/
lemma writerFails (h : Dir w r sent got closed G) (flight : List Packet) :
    Dir { w with line := ⟨true, flight, w.line.arrived⟩ } r sent got closed G :=
  { h with
    target := { h.target with }
    flight := fun herr => absurd herr (by simp) }

/-- **The queue pair of the receiver has failed.** Kind: L -/
lemma readerFails (h : Dir w r sent got closed G) (flight : List Packet) :
    Dir w { r with line := ⟨true, flight, r.line.arrived⟩ } sent got closed G :=
  { h with
    target := { h.target with }
    reader := { h.reader with }
    sgl := fun herr => absurd herr (by simp) }

end Dir

end FreeFlow.RSocket
