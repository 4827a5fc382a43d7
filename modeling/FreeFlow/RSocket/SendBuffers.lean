import FreeFlow.Found.Leads
import FreeFlow.RSocket.Link

/-!
# Work requests and the buffers they are read from

The hardware reads a work request's bytes some time after it was posted. The bytes lie in the send
buffer, which is used in a circle, or in one of four control buffers, and both are written again
when `sbuf_bytes_avail` and `ctrl_max_seqno` allow it. These counters come back with completions.

* `OutMark` — what the work requests up to some point have used up.
* `OutOk` — the invariant: the requests that are not completed lead from what has been given back to
  what has been used, and the counters of the socket are the difference.
* `OutOk.packetOf_cwrite`, `OutOk.packetOf_ctrl` — **no buffer is written again while a request
  still needs it**: neither a block of data nor a control message changes what another request will
  put on the wire.
* `OutOk.length_le` — the send queue holds what is posted.
* `OutOk.postRing`, `OutOk.postCtrl`, `OutOk.complete`, `OutOk.poll` — how the steps keep it.
* `flight` — the packets of an end that have not arrived, with the bytes they will arrive with.

Source: `rsocket.c` `rs_write_data`, `rs_write_iomap`, `rs_send_credits`, `rs_poll_cq`.
-/

namespace FreeFlow.RSocket

open FreeFlow.Found

/-! ## What is posted and not completed -/

/-- The messages of the work requests whose completions have not been polled. Kind: D -/
def sendMsgs (cq : List Wc) : List UInt32 :=
  cq.filterMap fun
    | .send msg _ => some msg
    | _ => none

/-- The messages that were received and have not been polled. Kind: D -/
def recvMsgs (cq : List Wc) : List UInt32 :=
  cq.filterMap fun
    | .recv msg => some msg
    | _ => none

/-- The work requests without a completion, the oldest first. Kind: D -/
def Qp.pending (qp : Qp) : List Wr := qp.done ++ qp.wire.map Prod.fst ++ qp.sq

/-- The packets of an end that have not arrived: those on the wire, and what the send queue will put
there as the send buffer is now. Kind: D -/
def Rsocket.flight (rs : Rsocket) : List Packet :=
  rs.qp.wire.map Prod.snd ++ rs.qp.sq.map (packetOf rs.out.sbuf)

/-- What the work requests up to some point have used up: bytes of the send buffer, entries of the
send queue for them, and entries for control messages. Kind: D -/
@[ext] structure OutMark where
  pos : ℕ
  ring : ℕ
  ctrl : ℕ

namespace OutMark

/-- A work request with the message `msg` more. Source: `rsocket.c` `rs_poll_cq`, which gives the
same back. Kind: D -/
def next (m : OutMark) (msg : UInt32) : OutMark :=
  match rsMsgOp msg with
  | .sgl | .ctrl => { m with ctrl := m.ctrl + 1 }
  | .iomapSgl => { m with pos := m.pos + sizeofIomap, ring := m.ring + 1 }
  | _ => { m with pos := m.pos + rsMsgData msg, ring := m.ring + 1 }

/-- A message of the two kinds that use a control entry. Kind: D -/
def IsCtrl (msg : UInt32) : Prop := rsMsgOp msg = .sgl ∨ rsMsgOp msg = .ctrl

instance (msg : UInt32) : Decidable (IsCtrl msg) := by
  unfold IsCtrl
  infer_instance

variable {m : OutMark} {msg : UInt32}

/-- A control message uses a control entry. Kind: L -/
lemma next_of_isCtrl (h : IsCtrl msg) : m.next msg = { m with ctrl := m.ctrl + 1 } := by
  rcases h with h | h <;> simp [next, h]

/-- Any other message uses an entry and bytes of the send buffer. Kind: L -/
lemma next_of_not_isCtrl (h : ¬ IsCtrl msg) :
    (m.next msg).ring = m.ring + 1 ∧ (m.next msg).ctrl = m.ctrl := by
  unfold IsCtrl at h
  unfold next
  split <;> simp_all

/-- Nothing is given back by posting. Kind: L -/
lemma le_next (m : OutMark) (msg : UInt32) :
    m.pos ≤ (m.next msg).pos ∧ m.ring ≤ (m.next msg).ring ∧ m.ctrl ≤ (m.next msg).ctrl := by
  unfold next
  split <;> simp

/-- Every work request uses one entry. Kind: L -/
lemma entries_next (m : OutMark) (msg : UInt32) :
    (m.next msg).ring + (m.next msg).ctrl = m.ring + m.ctrl + 1 := by
  unfold next
  split <;> simp <;> omega

end OutMark

open OutMark

/-- The pieces of a work request are those its message says: the next block of the send buffer, or
the next control buffer or nothing. Kind: D -/
def SglOk (S : ℕ) (m : OutMark) (wr : Wr) : Prop :=
  if IsCtrl wr.msg then
    wr.sgl = [] ∨ wr.sgl = [(S + sizeofSge * ((m.ctrl + 1) % rsQpCtrlSize), sizeofSge)]
  else wr.sgl = Mem.pieces S m.pos ((m.next wr.msg).pos - m.pos)

/-- A work request leads from what was used before it to what is used with it. Kind: D -/
def wrStep (S : ℕ) (m : OutMark) (wr : Wr) (m' : OutMark) : Prop :=
  m' = m.next wr.msg ∧ SglOk S m wr

/-- Completions that have not been polled lead to what was used at the newest of them. Kind: D -/
def OutMark.after (m : OutMark) (msgs : List UInt32) : OutMark := msgs.foldl next m

/-- The accounts of an end: `first` has been given back by polled completions, `last` has been used.
`polled` are the completions in the queue, `pending` the requests without one. Kind: D -/
structure OutOk (cfg : Config) (out : Out) (polled : List UInt32) (pending : List Wr)
    (first last : OutMark) : Prop where
  leads : Leads (wrStep cfg.sbufSize) (first.after polled) pending last
  bytes_eq : out.sbufBytesAvail + last.pos = cfg.sbufSize + first.pos
  bytes_le : last.pos ≤ first.pos + cfg.sbufSize
  ring_eq : out.sqeAvail + last.ring + rsQpCtrlSize = cfg.sqSize + first.ring
  ring_le : last.ring + rsQpCtrlSize ≤ first.ring + cfg.sqSize
  seqno_eq : out.ctrlSeqno = UInt32.ofNat last.ctrl
  maxSeqno_eq : out.ctrlMaxSeqno = UInt32.ofNat (first.ctrl + rsQpCtrlSize)
  ctrl_le : last.ctrl ≤ first.ctrl + rsQpCtrlSize
  ssgl_eq : out.ssgl = last.pos % cfg.sbufSize

namespace OutOk

variable {cfg : Config} {out : Out} {polled : List UInt32} {pending : List Wr}
  {first last : OutMark} {wr : Wr}

/-- A measure that posting does not lower, along completions in the queue. Kind: L -/
lemma le_after {μ : OutMark → ℕ} (hμ : ∀ m msg, μ m ≤ μ (m.next msg)) (m : OutMark)
    (msgs : List UInt32) : μ m ≤ μ (m.after msgs) := by
  induction msgs generalizing m with
  | nil => exact le_rfl
  | cons msg msgs ih => exact (hμ m msg).trans (ih (m.next msg))

/-- The number of entries used, along completions in the queue. Kind: L -/
lemma entries_after (m : OutMark) (msgs : List UInt32) :
    (m.after msgs).ring + (m.after msgs).ctrl = m.ring + m.ctrl + msgs.length := by
  induction msgs generalizing m with
  | nil => rfl
  | cons msg msgs ih =>
      rw [OutMark.after, List.foldl_cons, ← OutMark.after, ih, entries_next, List.length_cons]
      omega

/-- What a request without a completion uses lies between what has been given back and what has been
used. Kind: L -/
lemma exists_mark (h : OutOk cfg out polled pending first last) (hwr : wr ∈ pending) :
    ∃ m, SglOk cfg.sbufSize m wr ∧ first.pos ≤ m.pos ∧ (m.next wr.msg).pos ≤ last.pos ∧
      first.ctrl ≤ m.ctrl ∧ (m.next wr.msg).ctrl ≤ last.ctrl := by
  obtain ⟨pre, post, m, m', hpre, ⟨rfl, hsgl⟩, hpost⟩ := h.leads.exists_of_mem hwr
  have hpos : ∀ m wr m', wrStep cfg.sbufSize m wr m' → m.pos ≤ m'.pos := by
    rintro m wr m' ⟨rfl, -⟩
    exact (m.le_next wr.msg).1
  have hctrl : ∀ m wr m', wrStep cfg.sbufSize m wr m' → m.ctrl ≤ m'.ctrl := by
    rintro m wr m' ⟨rfl, -⟩
    exact (m.le_next wr.msg).2.2
  exact ⟨m, hsgl, (le_after (fun m msg => (m.le_next msg).1) first polled).trans (hpre.le hpos),
    hpost.le hpos, (le_after (fun m msg => (m.le_next msg).2.2) first polled).trans
      (hpre.le hctrl), hpost.le hctrl⟩

/-- What has been given back was used. Kind: L -/
lemma pos_le (h : OutOk cfg out polled pending first last) : first.pos ≤ last.pos := by
  refine (le_after (μ := OutMark.pos) (fun m msg => (m.le_next msg).1) first polled).trans
    (h.leads.le ?_)
  rintro m wr m' ⟨rfl, -⟩
  exact (m.le_next wr.msg).1

/-- **Data in the send buffer**: a block copied behind what is used changes no request that is not
completed. Kind: L -/
lemma packetOf_cwrite (h : OutOk cfg out polled pending first last) (hwr : wr ∈ pending)
    {bs : List UInt8} (hroom : last.pos + bs.length ≤ first.pos + cfg.sbufSize) (sbuf : Mem) :
    packetOf (sbuf.cwrite cfg.sbufSize last.pos bs) wr = packetOf sbuf wr := by
  obtain ⟨m, hsgl, hfirst, hlast, -, -⟩ := h.exists_mark hwr
  have hS := cfg.sbuf_pos
  have hle := m.le_next wr.msg
  suffices hbytes : (sbuf.cwrite cfg.sbufSize last.pos bs).gather wr.sgl = sbuf.gather wr.sgl by
    rw [packetOf, packetOf, hbytes]
  unfold SglOk at hsgl
  split_ifs at hsgl with hctrl
  · rcases hsgl with hnil | hslot
    · rw [hnil]
      rfl
    · -- a control buffer lies behind the send buffer
      rw [hslot, Mem.gather, Mem.gather, List.flatMap_singleton, List.flatMap_singleton]
      apply Mem.read_congr
      intro x hx _
      exact Mem.cwrite_apply_of_le sbuf hS (by omega) (by simp only at hx; omega)
  · rw [hsgl, Mem.gather_pieces _ hS (by omega), Mem.gather_pieces _ hS (by omega)]
    exact Mem.cread_cwrite_of_before sbuf hS (by omega) (by omega)

/-- **Control buffers**: filling the next control buffer changes no request that is not completed.
Kind: L -/
lemma packetOf_ctrl (h : OutOk cfg out polled pending first last) (hwr : wr ∈ pending)
    {bs : List UInt8} (hbs : bs.length = sizeofSge) (hroom : last.ctrl < first.ctrl + rsQpCtrlSize)
    (sbuf : Mem) :
    packetOf (sbuf.write (cfg.sbufSize + sizeofSge * ((last.ctrl + 1) % rsQpCtrlSize)) bs) wr =
      packetOf sbuf wr := by
  obtain ⟨m, hsgl, hfirst, hlast, hfirst', hlast'⟩ := h.exists_mark hwr
  have hS := cfg.sbuf_pos
  have hle := m.le_next wr.msg
  have hbytes_le := h.bytes_le
  suffices hbytes : (sbuf.write (cfg.sbufSize + sizeofSge * ((last.ctrl + 1) % rsQpCtrlSize))
      bs).gather wr.sgl = sbuf.gather wr.sgl by
    rw [packetOf, packetOf, hbytes]
  unfold SglOk at hsgl
  split_ifs at hsgl with hctrl
  · rcases hsgl with hnil | hslot
    · rw [hnil]
      rfl
    · -- fewer than four control messages are outstanding, so the buffers are different
      rw [next_of_isCtrl hctrl] at hlast'
      simp only at hlast'
      rw [hslot, Mem.gather, Mem.gather, List.flatMap_singleton, List.flatMap_singleton]
      apply Mem.read_write_disjoint
      simp only [sizeofSge, rsQpCtrlSize] at hbs hroom ⊢
      omega
  · rw [hsgl, Mem.gather_pieces _ hS (by omega), Mem.gather_pieces _ hS (by omega)]
    apply Mem.cread_congr
    intro i _
    exact Mem.write_apply_of_outside (.inl (by have := Nat.mod_lt (m.pos + i) hS; omega))

/-- **The queues hold what is posted**: with the completions that have not been polled there are not
more requests than the send queue has entries. Kind: L -/
lemma length_le (h : OutOk cfg out polled pending first last) :
    polled.length + pending.length ≤ cfg.sqSize := by
  have hpending : last.ring + last.ctrl =
      (first.after polled).ring + (first.after polled).ctrl + (pending.map fun _ => 1).sum := by
    refine h.leads.measure (μ := fun m => m.ring + m.ctrl) (w := fun _ => 1) ?_
    rintro m wr m' ⟨rfl, -⟩
    exact m.entries_next wr.msg
  have hpolled := entries_after first polled
  have hring := h.ring_le
  have hctrl := h.ctrl_le
  simp only [List.map_const', List.sum_replicate, smul_eq_mul, mul_one] at hpending
  simp only [rsQpCtrlSize] at hring hctrl
  omega

/-- A work request for bytes in the send buffer is posted. Kind: L -/
lemma postRing (h : OutOk cfg out polled pending first last) (wr : Wr) (hkind : ¬ IsCtrl wr.msg)
    {n : ℕ} (hpos : (last.next wr.msg).pos = last.pos + n)
    (hsgl : wr.sgl = Mem.pieces cfg.sbufSize last.pos n) (hn : (n : ℤ) ≤ out.sbufBytesAvail)
    (hsqe : out.sqeAvail ≠ 0) (sbuf : Mem) :
    OutOk cfg { out with
      sqeAvail := out.sqeAvail - 1
      sbufBytesAvail := out.sbufBytesAvail - n
      ssgl := (last.pos + n) % cfg.sbufSize
      sbuf := sbuf } polled (pending ++ [wr]) first (last.next wr.msg) := by
  obtain ⟨hring, hctrl⟩ := next_of_not_isCtrl (m := last) hkind
  have hbytes := h.bytes_eq
  have hsq := h.ring_eq
  have hle := h.ring_le
  refine ⟨h.leads.snoc ⟨rfl, ?_⟩, ?_, ?_, ?_, ?_, ?_, h.maxSeqno_eq, ?_, ?_⟩
  · rw [SglOk, if_neg hkind, hsgl, hpos, Nat.add_sub_cancel_left]
  · simp only [hpos]
    push_cast
    omega
  · omega
  · simp only [hring, rsQpCtrlSize] at hsq ⊢
    push_cast
    omega
  · omega
  · simp only [hctrl]
    exact h.seqno_eq
  · rw [hctrl]
    exact h.ctrl_le
  · simp only [hpos]

/-- A control entry is free. Kind: L -/
lemma ctrl_lt (h : OutOk cfg out polled pending first last)
    (havail : out.ctrlSeqno ≠ out.ctrlMaxSeqno) : last.ctrl < first.ctrl + rsQpCtrlSize := by
  refine lt_of_le_of_ne h.ctrl_le fun heq => havail ?_
  rw [h.seqno_eq, h.maxSeqno_eq, heq]

/-- A control message is posted. Kind: L -/
lemma postCtrl (h : OutOk cfg out polled pending first last) (wr : Wr) (hkind : IsCtrl wr.msg)
    (hsgl : wr.sgl = [] ∨
      wr.sgl = [(cfg.sbufSize + sizeofSge * ((last.ctrl + 1) % rsQpCtrlSize), sizeofSge)])
    (havail : out.ctrlSeqno ≠ out.ctrlMaxSeqno) (sbuf : Mem) :
    OutOk cfg { out with ctrlSeqno := out.ctrlSeqno + 1, sbuf := sbuf } polled (pending ++ [wr])
      first (last.next wr.msg) := by
  have hlt := h.ctrl_lt havail
  refine ⟨h.leads.snoc ⟨rfl, ?_⟩, ?_, ?_, ?_, ?_, ?_, h.maxSeqno_eq, ?_, ?_⟩
  · rw [SglOk, if_pos hkind]
    exact hsgl
  all_goals rw [next_of_isCtrl hkind]
  · exact h.bytes_eq
  · exact h.bytes_le
  · exact h.ring_eq
  · exact h.ring_le
  · simp only [h.seqno_eq, UInt32.ofNat_add]
    rfl
  · exact hlt
  · exact h.ssgl_eq

/-- The oldest work request is completed. Kind: L -/
lemma complete (h : OutOk cfg out polled (wr :: pending) first last) :
    OutOk cfg out (polled ++ [wr.msg]) pending first last := by
  obtain ⟨m, ⟨rfl, -⟩, hrest⟩ := leads_cons.mp h.leads
  refine { h with leads := ?_ }
  rw [OutMark.after, List.foldl_append]
  exact hrest

/-- What `rs_poll_cq` gives back for a completion is what the work request has used. Kind: L -/
lemma rsPollSend_out (rs : Rsocket) (msg : UInt32) (ok : Bool) (m : OutMark) :
    (rs.rsPollSend msg ok).out =
      if IsCtrl msg then { rs.out with ctrlMaxSeqno := rs.out.ctrlMaxSeqno + 1 }
      else { rs.out with
        sqeAvail := rs.out.sqeAvail + 1
        sbufBytesAvail := rs.out.sbufBytesAvail + ((m.next msg).pos - m.pos : ℕ) } := by
  by_cases hctrl : IsCtrl msg
  · rw [if_pos hctrl]
    unfold Rsocket.rsPollSend
    rcases hctrl with hop | hop <;> simp only [hop] <;> split_ifs <;> rfl
  · rw [if_neg hctrl]
    obtain ⟨hsgl, hctrl⟩ := not_or.mp hctrl
    unfold Rsocket.rsPollSend OutMark.next
    cases hop : rsMsgOp msg
    case sgl => exact absurd hop hsgl
    case ctrl => exact absurd hop hctrl
    all_goals
      simp only [Nat.add_sub_cancel_left]
      split_ifs <;> rfl

/-- A completion is polled. Kind: L -/
lemma poll (rs : Rsocket) (msg : UInt32) (ok : Bool)
    (h : OutOk rs.cfg rs.out (msg :: polled) pending first last) :
    OutOk rs.cfg (rs.rsPollSend msg ok).out polled pending (first.next msg) last := by
  have hle := first.le_next msg
  have hbytes := h.bytes_eq
  have hbytes_le := h.bytes_le
  have hring := h.ring_eq
  have hring_le := h.ring_le
  have hctrl_le := h.ctrl_le
  have hmax := h.maxSeqno_eq
  rw [rsPollSend_out rs msg ok first]
  by_cases hctrl : IsCtrl msg
  · rw [if_pos hctrl]
    have hnext := next_of_isCtrl (m := first) hctrl
    refine ⟨h.leads, ?_, ?_, ?_, ?_, h.seqno_eq, ?_, ?_, h.ssgl_eq⟩
    all_goals rw [hnext]
    · exact hbytes
    · exact hbytes_le
    · exact hring
    · exact hring_le
    · simp only [hmax]
      rw [show first.ctrl + 1 + rsQpCtrlSize = first.ctrl + rsQpCtrlSize + 1 by omega,
        UInt32.ofNat_add _ 1]
      rfl
    · simp only
      omega
  · rw [if_neg hctrl]
    obtain ⟨hnext, hnext'⟩ := next_of_not_isCtrl (m := first) hctrl
    refine ⟨h.leads, ?_, ?_, ?_, ?_, h.seqno_eq, ?_, ?_, h.ssgl_eq⟩
    · simp only
      omega
    · omega
    · simp only [hnext]
      push_cast at hring ⊢
      omega
    · omega
    · rw [hnext']
      exact hmax
    · omega

end OutOk

end FreeFlow.RSocket
