import FreeFlow.Found.Ring
import FreeFlow.RSocket.Posting

/-!
# One direction of the stream

What holds between an end that sends and the end that receives from it, at every moment. The sender
is `posted` bytes and messages far, the receiver's memory has what is `placed`, its queue of
messages what is `polled`, and its application has read `got`. What lies between two of these marks
is in a queue: packets in flight, completions, entries of `rmsg`. In the other direction run the
allowances: halves of the receive buffer, and numbers of messages.

* `Mark`, `Allowed` — how far a direction is, and what the receiver has handed out.
* `dataStep`, `sglStep`, `creditStep` — what a packet in flight, or a message that has come in, must
  be like for the place it has in its queue.
* `WriterView`, `ReaderView` — the parts of the two ends that belong to one direction.
* `Dir` — the invariant.
* `Dir.bounds` — the order of the marks: nothing is written that was not handed out, nothing is
  handed out that was not read.

Source: `rsocket.c`.
-/

namespace FreeFlow.RSocket

open FreeFlow.Found

/-! ## Marks -/

/-- How far the stream of an end is at some point of its packets: bytes, messages that use a credit,
how many of these are mappings, and the position at which the end of the stream was announced.
Kind: D -/
@[ext] structure Mark where
  pos : ℕ
  cnt : ℕ
  io : ℕ
  eof : Option ℕ

namespace Mark

/-- The mark behind a message. Source: `rsocket.c` `rs_poll_cq`. Kind: D -/
def next (m : Mark) (msg : UInt32) : Mark :=
  match rsMsgOp msg with
  | .sgl | .write => m
  | .iomapSgl => { m with cnt := m.cnt + 1, io := m.io + 1 }
  | .ctrl => if Ends msg then { m with eof := some (m.eof.getD m.pos) } else m
  | _ => { m with pos := m.pos + rsMsgData msg, cnt := m.cnt + 1 }

/-- The mark behind a packet: without a message it is the same. Kind: D -/
def pass (m : Mark) (p : Packet) : Mark := if p.withImm then m.next p.msg else m

/-- The mark behind messages. Kind: D -/
def after (m : Mark) (msgs : List UInt32) : Mark := msgs.foldl next m

/-- One mark is not behind the other. Kind: D -/
structure Le (m m' : Mark) : Prop where
  pos : m.pos ≤ m'.pos
  cnt : m.cnt ≤ m'.cnt
  io : m.io ≤ m'.io
  data : m.cnt + m'.io ≤ m'.cnt + m.io
  eof : ∀ p, m.eof = some p → m'.eof = some p

/-- Every mark is not behind itself. Kind: L -/
lemma Le.refl (m : Mark) : m.Le m := ⟨le_rfl, le_rfl, le_rfl, le_rfl, fun _ h => h⟩

/-- Marks in order. Kind: L -/
lemma Le.trans {m m' m'' : Mark} (h : m.Le m') (h' : m'.Le m'') : m.Le m'' where
  pos := h.pos.trans h'.pos
  cnt := h.cnt.trans h'.cnt
  io := h.io.trans h'.io
  data := by
    have h₁ := h.data
    have h₂ := h'.data
    omega
  eof := fun p hp => h'.eof p (h.eof p hp)

/-- A message does not lead back. Kind: L -/
lemma le_next (m : Mark) (msg : UInt32) : m.Le (m.next msg) := by
  unfold next
  split
  · exact Le.refl m
  · exact Le.refl m
  · exact ⟨le_rfl, by simp, by simp, by simp; omega, fun _ h => h⟩
  · split_ifs
    · exact ⟨le_rfl, le_rfl, le_rfl, le_rfl, fun p hp => by simp [hp]⟩
    · exact Le.refl m
  · exact ⟨by simp, by simp, le_rfl, by simp, fun _ h => h⟩

/-- Messages do not lead back. Kind: L -/
lemma le_after (m : Mark) (msgs : List UInt32) : m.Le (m.after msgs) := by
  induction msgs generalizing m with
  | nil => exact Le.refl m
  | cons msg msgs ih => exact (m.le_next msg).trans (ih (m.next msg))

/-- A packet does not lead back. Kind: L -/
lemma le_pass (m : Mark) (p : Packet) : m.Le (m.pass p) := by
  unfold pass
  split_ifs
  · exact m.le_next p.msg
  · exact Le.refl m

/-- A mapping, a message with credits and a control message leave the position. Kind: L -/
lemma next_sgl {m : Mark} {msg : UInt32} (h : rsMsgOp msg = .sgl) : m.next msg = m := by
  simp [next, h]

/-- A message with data. Kind: L -/
lemma next_data {m : Mark} {msg : UInt32} (h : rsMsgOp msg = .data) :
    m.next msg = { m with pos := m.pos + rsMsgData msg, cnt := m.cnt + 1 } := by
  simp [next, h]

/-- A message with a mapping. Kind: L -/
lemma next_iomap {m : Mark} {msg : UInt32} (h : rsMsgOp msg = .iomapSgl) :
    m.next msg = { m with cnt := m.cnt + 1, io := m.io + 1 } := by
  simp [next, h]

/-- A control message. Kind: L -/
lemma next_ctrl {m : Mark} {msg : UInt32} (h : rsMsgOp msg = .ctrl) :
    m.next msg = if Ends msg then { m with eof := some (m.eof.getD m.pos) } else m := by
  simp [next, h]

/-- Whether the end of the stream was announced, behind a message. Kind: L -/
lemma isSome_eof_next (m : Mark) (msg : UInt32) :
    (m.next msg).eof.isSome = (m.eof.isSome || decide (Ends msg)) := by
  by_cases hends : Ends msg
  · rw [next_ctrl hends.1, if_pos hends, decide_eq_true hends, Bool.or_true]
    rfl
  · rw [decide_eq_false hends, Bool.or_false]
    unfold next
    split <;> simp [hends]

/-- The end of a stream was announced at a position that is behind no message after it. Kind: L -/
lemma eof_le_next {m : Mark} (h : ∀ n, m.eof = some n → n ≤ m.pos) (msg : UInt32) :
    ∀ n, (m.next msg).eof = some n → n ≤ (m.next msg).pos := by
  intro n hn
  have hle := (m.le_next msg).pos
  by_cases hends : Ends msg
  · rw [next_ctrl hends.1, if_pos hends] at hn ⊢
    rcases heof : m.eof with - | k
    · simp only [heof, Option.getD_none, Option.some.injEq] at hn
      exact hn.ge
    · simp only [heof, Option.getD_some, Option.some.injEq] at hn
      exact h n (by rw [heof, hn])
  · have heof : (m.next msg).eof = m.eof := by
      unfold next
      split <;> simp [hends]
    rw [heof] at hn
    exact (h n hn).trans hle

end Mark

/-- What a receiver has handed out: halves of its buffer, and messages (without those that were
allowed from the start). Kind: D -/
@[ext] structure Allowed where
  halves : ℕ
  msgs : ℕ

/-! ## Packets at their place -/

/-- Half of the receive buffer. Kind: D -/
def Config.half (cfg : Config) : ℕ := cfg.rbufSize / 2

/-- Half of the receive buffer, as the source writes it. Kind: L -/
lemma Config.rbufSize_div_two (cfg : Config) : cfg.rbufSize / 2 = cfg.half := rfl

/-- The receive buffer has two halves. Kind: L -/
lemma Config.two_half (cfg : Config) : cfg.rbufSize = 2 * cfg.half := by
  have h := cfg.rbuf_even
  unfold half
  omega

/-- A half is not empty. Kind: L -/
lemma Config.half_pos (cfg : Config) : 0 < cfg.half := by
  have h := cfg.rbuf_pos
  have h' := cfg.two_half
  omega

/-- A packet in flight to an end with the configuration `cfg`, when the stream is at `m`: data are
the next bytes of `sent` and go to their place in the receive buffer, in one piece. Kind: D -/
def PacketOk (cfg : Config) (sent : List UInt8) (m : Mark) (p : Packet) : Prop :=
  match rsMsgOp p.msg with
  | .data => p.withImm = true ∧ p.bytes ≠ [] ∧ rsMsgData p.msg = p.bytes.length ∧
      p.bytes <+: sent.drop m.pos ∧ m.pos % cfg.rbufSize + p.bytes.length ≤ cfg.rbufSize ∧
      p.addr = cfg.rmr.addr + UInt64.ofNat (m.pos % cfg.rbufSize) ∧ p.rkey = cfg.rmr.rkey
  | .iomapSgl => p.withImm = true ∧ p.bytes.length = sizeofIomap ∧
      ∃ i < cfg.targetIomapSize, p.rkey = cfg.targetMr.rkey ∧
        p.addr = cfg.targetMr.addr + UInt64.ofNat (rsSglSize * sizeofSge + i * sizeofIomap)
  | .sgl => p.withImm = true
  | .ctrl => p.bytes = []
  | _ => False

/-- A message that the other end sends: data are not empty. Kind: D -/
def MsgOk (msg : UInt32) : Prop :=
  match rsMsgOp msg with
  | .data => 0 < rsMsgData msg
  | .iomapSgl | .sgl | .ctrl => True
  | _ => False

/-- A packet in flight leads from one mark to the next. Kind: D -/
def dataStep (cfg : Config) (sent : List UInt8) (m : Mark) (p : Packet) (m' : Mark) : Prop :=
  m' = m.pass p ∧ PacketOk cfg sent m p

/-- The half of the receive buffer that is handed out as the `i`-th one. Kind: D -/
def grant (cfg : Config) (i : ℕ) : RsSge :=
  ⟨cfg.rmr.addr + UInt64.ofNat (i % 2 * cfg.half), cfg.rmr.rkey, UInt32.ofNat cfg.half⟩

/-- A packet in flight from a receiver with the configuration `cfg` to a sender with `cfg'`: credits
raise the number of messages, and may bring the next half. Kind: D -/
def sglStep (cfg cfg' : Config) (a : Allowed) (p : Packet) (a' : Allowed) : Prop :=
  if rsMsgOp p.msg = .sgl then
    a.msgs ≤ a'.msgs ∧ UInt16.ofNat (rsMsgData p.msg) = UInt16.ofNat (a'.msgs + cfg.rqSize) ∧
      ((p.bytes = [] ∧ a'.halves = a.halves) ∨
        (a'.halves = a.halves + 1 ∧ p.bytes = (grant cfg a.halves).bytes cfg'.net ∧
          p.rkey = cfg'.targetMr.rkey ∧
          p.addr = cfg'.targetMr.addr + UInt64.ofNat (a.halves % 2 * sizeofSge)))
  else a' = a

/-- A message that has come in raises the number of messages, if it has credits. Kind: D -/
def creditStep (cfg : Config) (c : ℕ) (msg : UInt32) (c' : ℕ) : Prop :=
  if rsMsgOp msg = .sgl then
    c ≤ c' ∧ UInt16.ofNat (rsMsgData msg) = UInt16.ofNat (c' + cfg.rqSize)
  else c' = c

/-! ## The invariant -/

/-- What belongs to the direction in which an end sends. Kind: D -/
structure WriterView where
  cfg : Config
  tx : Tx
  opening : Bool
  line : Line

/-- What belongs to the direction in which an end receives. Kind: D -/
structure ReaderView where
  cfg : Config
  rx : Rx
  opening : Bool
  line : Line

/-- The sending half of an end. Kind: D -/
def Rsocket.writer (rs : Rsocket) : WriterView := ⟨rs.cfg, rs.tx, rs.state.opening, rs.line⟩

/-- The receiving half of an end. Kind: D -/
def Rsocket.reader (rs : Rsocket) : ReaderView := ⟨rs.cfg, rs.rx, rs.state.opening, rs.line⟩

/-- The history that the invariant speaks of: the three marks; what has been handed out, what of it
has come to the sender and which number of messages it knows of; how many messages were read in
full; and the queue of received messages. Kind: D -/
structure Ghost where
  posted : Mark
  placed : Mark
  polled : Mark
  given : Allowed
  landed : Allowed
  known : ℕ
  read : ℕ
  queue : List ℕ

/-- The history has gone on: the receiver has heard of the end of the stream before, or just now,
and the sender has sent so many mappings more. Kind: D -/
def Ghost.Moves (G G' : Ghost) (hears : Bool) (maps : ℕ) : Prop :=
  G'.polled.eof.isSome = (G.polled.eof.isSome || hears) ∧ G'.posted.io = G.posted.io + maps

/-- The history has gone on in another respect. Kind: L -/
lemma Ghost.moves_of_eq {G G' : Ghost} (hpolled : G'.polled = G.polled)
    (hio : G'.posted.io = G.posted.io) : G.Moves G' false 0 :=
  ⟨by rw [hpolled, Bool.or_false], hio⟩

/-- The entry of `target_sgl` with the number `i`. Kind: D -/
def WriterView.entry (w : WriterView) (i : ℕ) : RsSge :=
  .read w.cfg.net w.tx.target (sizeofSge * i)

/-- The two entries of a sender that is at position `pos` when `landed` halves have come: the one in
use has what is left of its half, the other one has the next half or is used up. Before the
connection is made the first entry is not set. Kind: D -/
structure TargetOk (w : WriterView) (cfg : Config) (pos landed : ℕ) : Prop where
  landed_pos : 0 < landed
  pos_le : pos ≤ landed * cfg.half
  next : if pos / cfg.half + 1 < landed then
      w.entry ((pos / cfg.half + 1) % 2) = grant cfg (pos / cfg.half + 1)
    else (w.entry ((pos / cfg.half + 1) % 2)).length = 0
  sge_eq : w.tx.targetSge = pos / cfg.half % 2
  cur : w.opening = false → if pos / cfg.half < landed then
      w.entry (pos / cfg.half % 2) = ⟨cfg.rmr.addr + UInt64.ofNat (pos % cfg.rbufSize),
        cfg.rmr.rkey, UInt32.ofNat (cfg.half - pos % cfg.half)⟩
    else (w.entry (pos / cfg.half % 2)).length = 0

/-- The receiver: its counters, its queue of messages and the bytes in its buffer. Kind: D -/
structure ReaderOk (r : ReaderView) (sent got : List UInt8) (G : Ghost) : Prop where
  got_isPrefix : got <+: sent
  rseqNo_eq : r.rx.rseqNo = UInt16.ofNat G.read
  rseqComp_eq : r.rx.rseqComp = UInt16.ofNat (G.given.msgs + r.cfg.rqSize / 2)
  told_le : G.given.msgs ≤ G.read
  avail_eq : r.rx.rbufBytesAvail + G.given.halves * r.cfg.half = got.length + r.cfg.rbufSize
  given_le : G.given.halves * r.cfg.half ≤ got.length + r.cfg.rbufSize
  free_eq : r.rx.rbufFreeOffset = G.given.halves % 2 * r.cfg.half
  sge_eq : r.opening = false → r.rx.remoteSge = G.given.halves % 2
  opening_eq : r.opening = true → G.given.halves = 1
  offset_le : r.rx.rbufOffset ≤ r.cfg.rbufSize
  offset_eq : r.rx.rbufOffset % r.cfg.rbufSize = got.length % r.cfg.rbufSize
  holds : Ring.Holds r.rx.rmsg (r.cfg.rqSize + 1) r.rx.rmsgHead r.rx.rmsgTail G.queue
  queue_pos : ∀ n ∈ G.queue, 0 < n
  queue_sum : got.length + G.queue.sum = G.polled.pos
  queue_cnt : G.read + G.queue.length + G.polled.io = G.polled.cnt
  eof_le : ∀ n, G.polled.eof = some n → n ≤ G.polled.pos
  bytes_eq : r.rx.rbuf.cread r.cfg.rbufSize got.length (G.placed.pos - got.length) =
    (sent.drop got.length).take (G.placed.pos - got.length)

/-- **The invariant of one direction**, between the end `w` that sends and the end `r` that
receives. Kind: D -/
structure Dir (w : WriterView) (r : ReaderView) (sent got : List UInt8) (closed : Option ℕ)
    (G : Ghost) : Prop where
  pos_eq : G.posted.pos = sent.length
  eof_eq : G.posted.eof = closed
  sseqNo_eq : w.tx.sseqNo = UInt16.ofNat G.posted.cnt
  sseqComp_eq : w.opening = false → w.tx.sseqComp = UInt16.ofNat (G.known + r.cfg.rqSize)
  budget : G.posted.cnt ≤ G.known + r.cfg.rqSize
  opening_eq : w.opening = true → sent = [] ∧ G.known = 0 ∧ G.posted.cnt = 0
  target : TargetOk w r.cfg sent.length G.landed.halves
  flight : w.line.error = false →
    Leads (dataStep r.cfg sent) G.placed w.line.flight G.posted
  placed_le : G.placed.Le G.posted
  arrived : G.polled.after r.line.arrived = G.placed
  arrived_ok : ∀ msg ∈ r.line.arrived, MsgOk msg
  reader : ReaderOk r sent got G
  sgl : r.line.error = false →
    Leads (sglStep r.cfg w.cfg) G.landed r.line.flight G.given
  landed_le : G.landed.halves ≤ G.given.halves ∧ G.landed.msgs ≤ G.given.msgs
  credits : Leads (creditStep r.cfg) G.known w.line.arrived G.landed.msgs

namespace Dir

variable {w : WriterView} {r : ReaderView} {sent got : List UInt8} {closed : Option ℕ} {G : Ghost}

/-- Received messages that were not looked at come before what is in flight. Kind: L -/
lemma polled_le (h : Dir w r sent got closed G) : G.polled.Le G.placed :=
  h.arrived ▸ G.polled.le_after r.line.arrived

/-- Credits do not go down. Kind: L -/
lemma known_le (h : Dir w r sent got closed G) : G.known ≤ G.landed.msgs := by
  refine h.credits.le (μ := id) ?_
  intro c msg c' hc
  unfold creditStep at hc
  split_ifs at hc
  · exact hc.1
  · exact hc.ge

/-- **The order of the marks**: what was read was received, what was received was sent, what was
sent lies in halves that have come, which were handed out, and what was handed out was read before
up to a buffer's length. Kind: L -/
lemma bounds (h : Dir w r sent got closed G) :
    got.length ≤ G.polled.pos ∧ G.polled.pos ≤ G.placed.pos ∧ G.placed.pos ≤ sent.length ∧
      sent.length ≤ G.landed.halves * r.cfg.half ∧
      G.landed.halves * r.cfg.half ≤ G.given.halves * r.cfg.half ∧
      G.given.halves * r.cfg.half ≤ got.length + r.cfg.rbufSize := by
  have hsum := h.reader.queue_sum
  have hplaced := h.placed_le.pos
  rw [h.pos_eq] at hplaced
  exact ⟨by omega, h.polled_le.pos, hplaced, h.target.pos_le,
    Nat.mul_le_mul_right _ h.landed_le.1, h.reader.given_le⟩

/-- No more than the half in use and the one behind it have been handed out. Kind: L -/
lemma given_le (h : Dir w r sent got closed G) :
    G.given.halves ≤ sent.length / r.cfg.half + 2 := by
  have hb := h.bounds
  have hhalf := r.cfg.half_pos
  have htwo := r.cfg.two_half
  have hlt : sent.length < (sent.length / r.cfg.half + 1) * r.cfg.half := by
    have := Nat.lt_div_mul_add (a := sent.length) hhalf
    rw [Nat.add_mul, Nat.one_mul]
    exact this
  have hmul : G.given.halves * r.cfg.half < (sent.length / r.cfg.half + 3) * r.cfg.half := by
    have hsplit : (sent.length / r.cfg.half + 3) * r.cfg.half =
        (sent.length / r.cfg.half + 1) * r.cfg.half + 2 * r.cfg.half := by ring
    omega
  have := Nat.lt_of_mul_lt_mul_right hmul
  omega

/-- The free bytes of the receive buffer. Kind: L -/
lemma avail (h : Dir w r sent got closed G) :
    0 ≤ r.rx.rbufBytesAvail ∧ r.rx.rbufBytesAvail ≤ r.cfg.rbufSize := by
  have hb := h.bounds
  have havail := h.reader.avail_eq
  have hcast : (G.given.halves : ℤ) * r.cfg.half = ((G.given.halves * r.cfg.half : ℕ) : ℤ) := by
    push_cast
    rfl
  omega

/-- **The queue of received messages never overflows**: its entries, the messages in the completion
queue and those in flight are at most what was allowed. Kind: L -/
lemma queue_le (h : Dir w r sent got closed G) :
    G.queue.length + (G.posted.cnt - G.polled.cnt) + G.polled.io ≤ r.cfg.rqSize := by
  have hcnt := h.reader.queue_cnt
  have hbudget := h.budget
  have hknown := h.known_le
  have hlanded := h.landed_le.2
  have htold := h.reader.told_le
  have hle := (h.polled_le.trans h.placed_le).cnt
  omega

end Dir

end FreeFlow.RSocket
