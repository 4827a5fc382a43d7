import FreeFlow.Found.Run
import FreeFlow.Found.Circular
import FreeFlow.RSocket.Connect

/-!
# Two ends and what lies between them

A connection as a machine. A step is a stretch of code of one end that no other thread of that end
can be seen inside of, or a move of the hardware: a work request is read from the send buffer and
sent, arrives at the other end, is acknowledged. Everything that is not determined by the state is
in the label, so the runs of the machine are all interleavings of the threads of both ends with the
hardware.

At each end there may be a call of `rsend` (it holds `slock`), a call of `rrecv` (`rlock`), a thread
in `rs_poll_cq` (`cq_lock`) and a call of `rshutdown`, all at the same time. Counters that two of
them change (`sqe_avail`, `sbuf_bytes_avail`, `rbuf_bytes_avail`) are changed by plain assignments
in the source; a step takes such an assignment to be atomic.

Posting to a queue succeeds: that there is room is a result, not an assumption. A queue pair may
fail at any time; what was not acknowledged then completes with an error and does not arrive.

* `Op`, `Proc.step` — the steps of an end; `Act`, `step` — those of the connection.
* `init` — the server has accepted, the client has not yet seen the answer.
* `State.sent`, `State.got` — the bytes taken from the applications by `rsend` and given to them by
  `rrecv`; `State.closed` — how many had been taken when the end of the stream was announced;
  `State.heard` — whether the end of the other stream was seen; `State.mapped` — mappings sent.

Source: `rsocket.c`.
-/

namespace FreeFlow.RSocket

open FreeFlow.Found

/-- The two ends. Kind: D -/
inductive Side where
  | client
  | server
  deriving DecidableEq, Repr

/-- The end that an end talks to. Kind: D -/
def Side.other : Side → Side
  | .client => .server
  | .server => .client

/-- A call of `rsend`: the bytes that are left, and `olen`. Source: `rsocket.c` `rsend`. Kind: D -/
structure SendCall where
  left : List UInt8
  olen : ℕ

/-- The argument `how` of `rshutdown`. Source: `rsocket.c` `rshutdown`. Kind: D -/
inductive How where
  | rd
  | wr
  | rdwr
  deriving DecidableEq, Repr

/-- An end: its socket and the local variables of the calls in progress. `poll` is `rcnt` of the
thread in `rs_poll_cq`, `shut` the message a call of `rshutdown` is going to send. Kind: D -/
structure Proc where
  rs : Rsocket
  send : Option SendCall
  poll : Option ℕ
  shut : Option RsCtrl

/-- What a step of an end is for the applications: the bytes taken from the one at this end and
given to it, whether the end has announced the end of its stream, whether it has heard of the end of
the other one, and how many mappings it has sent. Kind: D -/
structure Effect where
  sent : List UInt8 := []
  got : List UInt8 := []
  closes : Bool := false
  hears : Bool := false
  maps : ℕ := 0

/-- What a step of an end leads to. Kind: D -/
structure Outcome where
  proc : Proc
  effect : Effect := {}

/-- The steps of an end. Kind: D -/
inductive Op where
  | rsendEnter (buf : List UInt8)
  | rsendIter
  | rsendLeave
  | sendIomap (mr : Rsocket.IomapMr)
  | rrecvIter (left : ℕ)
  | updateCredits
  | pollEnter
  | pollOne
  | pollLeave
  | pollFail
  | shutEnter (how : How)
  | shutPost
  | shutLeave
  | keepalive
  | transmit
  | ack
  | fail
  | flush
  | flushRecv

/-- The message ends the stream. Source: `rsocket.c` `rs_poll_cq`. Kind: D -/
def Ends (msg : UInt32) : Prop :=
  rsMsgOp msg = .ctrl ∧
    (rsMsgData msg = RsCtrl.disconnect.code ∨ rsMsgData msg = RsCtrl.shutdown.code)

instance (msg : UInt32) : Decidable (Ends msg) := by
  unfold Ends
  infer_instance

/-- What a work request puts on the wire when the hardware reads the send buffer. Kind: D -/
def packetOf (sbuf : Mem) (wr : Wr) : Packet where
  msg := wr.msg
  withImm := wr.withImm
  bytes := sbuf.gather wr.sgl
  addr := wr.addr
  rkey := wr.rkey

namespace Rsocket

/-- The connection data of the other end are there. Source: `rsocket.c` `rs_do_connect`, `raccept`.
Kind: D -/
def rsConnected (rs : Rsocket) (conn : List UInt8) : Rsocket :=
  { rs.rsSaveConnData conn with state := rsConnectRdwr }

/-- A control message is sent. Source: `rsocket.c` `rshutdown`. Kind: D -/
def postCtrl (rs : Rsocket) (ctrl : RsCtrl) : Rsocket :=
  { rs with out := { rs.out with ctrlSeqno := rs.out.ctrlSeqno + 1 } }.rsPostMsg
    (rsMsgSet .ctrl ctrl.code)

/-- The write of no bytes that keeps a connection alive. Source: `rsocket.c`
`tcp_svc_send_keepalive`. Kind: D -/
def postKeepalive (rs : Rsocket) : Rsocket :=
  { rs with out := { rs.out with ctrlSeqno := rs.out.ctrlSeqno + 1 } }.rsPostWrite []
    (rsMsgSet .ctrl RsCtrl.keepalive.code) 0 0

/-- The state after the first part of `rshutdown`, and the message to send. Source: `rsocket.c`
`rshutdown`. Kind: D -/
def shutState (st : RsState) : How → RsState × Option RsCtrl
  | .rdwr => ({ st with readable := false, writable := false }, some .disconnect)
  | .wr => ({ st with writable := false },
      some (if st.readable then .shutdown else .disconnect))
  | .rd => ({ st with readable := false }, if st.writable then none else some .disconnect)

/-- `rs_post_recv`, `rcnt` times, at the end of `rs_poll_cq`. Source: `rsocket.c`. Kind: D -/
def repost (rs : Rsocket) (rcnt : ℕ) : Rsocket :=
  if rs.state.connected then { rs with qp := { rs.qp with recvs := rs.qp.recvs + rcnt } } else rs

/-- The completion queue without its first entry. Kind: D -/
def popCq (rs : Rsocket) : Rsocket := { rs with qp := { rs.qp with cq := rs.qp.cq.tail } }

/-- A completion is put into the queue. Kind: D -/
def pushCq (rs : Rsocket) (wc : Wc) : Rsocket :=
  { rs with qp := { rs.qp with cq := rs.qp.cq ++ [wc] } }

/-- `n` bytes at `addr` lie in a memory of `size` bytes at `start`. Kind: D -/
def inRange (addr : UInt64) (n : ℕ) (start : UInt64) (size : ℕ) : Prop :=
  start.toNat ≤ addr.toNat ∧ addr.toNat + n ≤ start.toNat + size

instance (addr : UInt64) (n : ℕ) (start : UInt64) (size : ℕ) :
    Decidable (inRange addr n start size) := by
  unfold inRange
  infer_instance

/-- The bytes of an RDMA write are put where it says, if the key opens a memory that holds them. A
write of no bytes is not checked. Kind: D -/
def place (rs : Rsocket) (p : Packet) : Option Rsocket :=
  let n := p.bytes.length
  let cfg := rs.cfg
  if n = 0 then some rs
  else if p.rkey = cfg.rmr.rkey ∧
      inRange p.addr n cfg.rmr.addr (cfg.rbufSize + 4 * cfg.rqSize) then
    some { rs with rx := { rs.rx with
      rbuf := rs.rx.rbuf.write (p.addr.toNat - cfg.rmr.addr.toNat) p.bytes } }
  else if p.rkey = cfg.targetMr.rkey ∧
      inRange p.addr n cfg.targetMr.addr
        (rsSglSize * sizeofSge + sizeofIomap * cfg.targetIomapSize) then
    some { rs with tx := { rs.tx with
      target := rs.tx.target.write (p.addr.toNat - cfg.targetMr.addr.toNat) p.bytes } }
  else none

/-- A packet takes effect at the end it arrives at: its bytes, and the receive it consumes if it
carries a message. Kind: D -/
def deliver (rs : Rsocket) (p : Packet) : Option Rsocket :=
  if p.withImm then
    if rs.qp.recvs = 0 then none
    else (rs.place p).map fun rs' =>
      { rs' with qp := { rs'.qp with recvs := rs'.qp.recvs - 1, cq := rs'.qp.cq ++ [.recv p.msg] } }
  else rs.place p

end Rsocket

namespace Proc

open Rsocket

/-- The steps of an end.

* `rsendEnter`, `rsendIter`, `rsendLeave` — a call of `rsend`. It may return after any round: the
  bytes are gone, it would have to wait, or the connection is not writable any more.
* `sendIomap` — a round of `rs_send_iomaps`, which `rsend` calls.
* `rrecvIter` — a round of `rrecv` with some bytes to go.
* `updateCredits`, `pollEnter`, `pollOne`, `pollLeave`, `pollFail` — the parts of `rs_process_cq`;
  `rs_poll_cq` is left when the queue is empty, when the other end has gone, or on an error.
* `shutEnter`, `shutPost`, `shutLeave` — a call of `rshutdown`, which may give up before it sends.
* `keepalive` — from the service thread.
* `transmit`, `ack`, `fail`, `flush`, `flushRecv` — the queue pair.

Source: `rsocket.c`. Kind: D -/
def step (p : Proc) : Op → Option Outcome
  | .rsendEnter buf =>
      if p.send.isNone ∧ p.rs.state.opening = false then
        some ⟨{ p with send := some ⟨buf, rsOlapStartSize⟩ }, {}⟩
      else none
  | .rsendIter =>
      match p.send with
      | some c =>
          if c.left ≠ [] ∧ p.rs.rsCanSend then
            let xfer := p.rs.xferSize c.left.length c.olen
            some ⟨{ p with
              rs := p.rs.rsendIter c.left c.olen
              send := some ⟨c.left.drop xfer, nextOlen c.left.length c.olen⟩ },
              { sent := c.left.take xfer }⟩
          else none
      | none => none
  | .rsendLeave => p.send.map fun _ => ⟨{ p with send := none }, {}⟩
  | .sendIomap mr =>
      if p.send.isSome ∧ p.rs.rsCanSend ∧ mr.index < p.rs.peer.remoteIomap.length.toNat then
        some ⟨{ p with rs := p.rs.rsSendIomap mr }, { maps := 1 }⟩
      else none
  | .rrecvIter left =>
      if left ≠ 0 ∧ p.rs.rsHaveRdata ∧ p.rs.state.opening = false then
        let (rs', bs) := p.rs.rrecvIter left
        some ⟨{ p with rs := rs' }, { got := bs }⟩
      else none
  | .updateCredits =>
      if p.poll.isNone ∧ p.rs.state.opening = false then
        some ⟨{ p with rs := p.rs.rsUpdateCredits }, {}⟩
      else none
  | .pollEnter =>
      if p.poll.isNone ∧ p.rs.state.opening = false then
        some ⟨{ p with poll := some 0 }, {}⟩
      else none
  | .pollOne =>
      match p.poll, p.rs.qp.cq with
      | some rcnt, .recv msg :: _ =>
          let (rs', stop) := p.rs.popCq.rsPollRecv msg
          some ⟨{ p with rs := rs', poll := if stop then none else some (rcnt + 1) },
            { hears := Ends msg }⟩
      | some _, .recvFlushed :: _ => some ⟨{ p with rs := p.rs.popCq }, {}⟩
      | some _, .send msg ok :: _ =>
          some ⟨{ p with rs := p.rs.popCq.rsPollSend msg ok }, {}⟩
      | _, _ => none
  | .pollLeave =>
      match p.poll, p.rs.qp.cq with
      | some rcnt, [] => some ⟨{ p with rs := p.rs.repost rcnt, poll := none }, {}⟩
      | _, _ => none
  | .pollFail =>
      p.poll.map fun _ => ⟨{ p with
        rs := if p.rs.state.connected then { p.rs with state := rsError } else p.rs
        poll := none }, {}⟩
  | .shutEnter how =>
      if p.shut.isNone ∧ p.rs.state.connected then
        let (st, ctrl) := shutState p.rs.state how
        some ⟨{ p with rs := { p.rs with state := st }, shut := ctrl }, {}⟩
      else none
  | .shutPost =>
      match p.shut with
      | some ctrl =>
          if p.rs.state.connected ∧ p.rs.rsCtrlAvail then
            some ⟨{ p with rs := p.rs.postCtrl ctrl, shut := none }, { closes := true }⟩
          else none
      | none => none
  | .shutLeave => p.shut.map fun _ => ⟨{ p with shut := none }, {}⟩
  | .keepalive =>
      if p.poll.isNone ∧ p.rs.rsCtrlAvail ∧ p.rs.state.connected then
        some ⟨{ p with rs := p.rs.postKeepalive }, {}⟩
      else none
  | .transmit =>
      match p.rs.qp.sq with
      | wr :: sq =>
          if p.rs.qp.error then none
          else some ⟨{ p with rs := { p.rs with qp := { p.rs.qp with
            sq := sq
            wire := p.rs.qp.wire ++ [(wr, packetOf p.rs.out.sbuf wr)] } } }, {}⟩
      | [] => none
  | .ack =>
      match p.rs.qp.done with
      | wr :: done =>
          if p.rs.qp.error then none
          else some ⟨{ p with rs :=
            { p.rs with qp := { p.rs.qp with done := done } }.pushCq (.send wr.msg true) }, {}⟩
      | [] => none
  | .fail =>
      some ⟨{ p with rs := { p.rs with qp := { p.rs.qp with error := true } } }, {}⟩
  | .flush =>
      let qp := p.rs.qp
      if qp.error then
        match qp.done, qp.wire, qp.sq with
        | wr :: done, _, _ => some ⟨{ p with rs :=
            { p.rs with qp := { qp with done := done } }.pushCq (.send wr.msg false) }, {}⟩
        | [], (wr, _) :: wire, _ => some ⟨{ p with rs :=
            { p.rs with qp := { qp with wire := wire } }.pushCq (.send wr.msg false) }, {}⟩
        | [], [], wr :: sq => some ⟨{ p with rs :=
            { p.rs with qp := { qp with sq := sq } }.pushCq (.send wr.msg false) }, {}⟩
        | [], [], [] => none
      else none
  | .flushRecv =>
      let qp := p.rs.qp
      if qp.error ∧ qp.recvs ≠ 0 then
        some ⟨{ p with rs :=
          { p.rs with qp := { qp with recvs := qp.recvs - 1 } }.pushCq .recvFlushed }, {}⟩
      else none

end Proc

/-- The state of a connection, with what has passed between the applications and the ends.
Kind: D -/
structure State where
  proc : Side → Proc
  sent : Side → List UInt8
  got : Side → List UInt8
  closed : Side → Option ℕ
  heard : Side → Bool
  mapped : Side → ℕ

/-- The steps of a connection: one of an end, the arrival of what an end has sent, and the arrival
of the answer to the connection request. Kind: D -/
inductive Act where
  | on (x : Side) (op : Op)
  | arrive (x : Side)
  | answer (x : Side)

/-- How many bytes had been taken when the end of the stream was announced, after a step. Kind: D -/
def closedAfter (closes : Bool) (sent : List UInt8) (closed : Option ℕ) : Option ℕ :=
  if closes then some (closed.getD sent.length) else closed

/-- An end has moved. Kind: D -/
def State.moved (s : State) (x : Side) (o : Outcome) : State where
  proc := Function.update s.proc x o.proc
  sent := Function.update s.sent x (s.sent x ++ o.effect.sent)
  got := Function.update s.got x (s.got x ++ o.effect.got)
  closed := Function.update s.closed x (closedAfter o.effect.closes (s.sent x) (s.closed x))
  heard := Function.update s.heard x (s.heard x || o.effect.hears)
  mapped := Function.update s.mapped x (s.mapped x + o.effect.maps)

/-- The socket of an end. Kind: D -/
abbrev State.rs (s : State) (x : Side) : Rsocket := (s.proc x).rs

/-- A step of a connection. The answer is what `rs_do_connect` waits for. Source: `rsocket.c`.
Kind: D -/
def step (s : State) : Act → Option State
  | .on x op => ((s.proc x).step op).map (s.moved x)
  | .arrive x =>
      let rs := s.rs x
      let peer := s.rs x.other
      match rs.qp.wire with
      | (wr, p) :: wire =>
          if rs.qp.error ∨ peer.qp.error then none
          else (peer.deliver p).map fun peer' => { s with
            proc := Function.update
              (Function.update s.proc x.other { s.proc x.other with rs := peer' }) x
              { s.proc x with rs :=
                { rs with qp := { rs.qp with wire := wire, done := rs.qp.done ++ [wr] } } } }
      | [] => none
  | .answer x =>
      let rs := s.rs x
      if rs.state.opening then
        let rs' := rs.rsConnected (s.rs x.other).rsFormatConnData
        some { s with proc := Function.update s.proc x { s.proc x with rs := rs' } }
      else none

/-- An end without calls. Kind: D -/
def Proc.idle (rs : Rsocket) : Proc := ⟨rs, none, none, none⟩

/-- The connection when the server has accepted. Source: `rsocket.c` `raccept`, `rs_do_connect`.
Kind: D -/
def init (c d : Config) : State where
  proc
    | .client => .idle (rsInitBufs c)
    | .server => .idle ((rsInitBufs d).rsConnected (rsInitBufs c).rsFormatConnData)
  sent := fun _ => []
  got := fun _ => []
  closed := fun _ => none
  heard := fun _ => false
  mapped := fun _ => 0

end FreeFlow.RSocket
