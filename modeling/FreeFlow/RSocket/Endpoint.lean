import FreeFlow.Found.ByteOrder

/-!
# One end of a stream rsocket

`rsocket.c` gives sockets over RDMA. A connection has a buffer at each end into which the other end
writes; what may be written where is handed out in halves of the buffer. Two entries at the writer
(`target_sgl`) hold the halves that are free, and the reader refills them by RDMA writes of its own.
A second allowance, of messages, keeps the queue of received messages from overflowing.

The fields of `struct rsocket` are grouped here by what they are for: `Tx` and `Rx` are the two
directions of the stream, `Out` is what posting a work request uses up, `Peer` is what the other end
has sent when the connection was made. The three registered memories are byte memories addressed by
offset. `cm_id->qp` and the completion queue are in `Qp`.

`sq_inline` is 0 in this library (`rs_create_ep` sets it so), hence all data go through the send
buffer, and `RS_OPT_MSG_SEND` makes `rs_create_ep` fail, so its branches are not here.

* `rsendIter` — one round of `rsend`, from the size of the transfer to the advance in the send
  buffer; `rsSendIomap` — one round of `rs_send_iomaps`.
* `rsUpdateCredits` — free space and messages handed out to the other end.
* `rsPollRecv`, `rsPollSend` — what `rs_poll_cq` does with a completion.
* `rrecvIter` — one round of `rrecv`; `rsPeek` — `rrecv` with `MSG_PEEK`.
* `rsInitBufs`, `rsFormatConnData`, `rsSaveConnData` — the start of a connection.

Source: `rsocket.c`.
-/

namespace FreeFlow.RSocket

open FreeFlow.Found

/-! ## Messages -/

/-- `RS_OP_*`. Source: `rsocket.c`. Kind: D -/
inductive RsOp where
  | data
  | rsvdDataMore
  | write
  | rsvdDraMore
  | sgl
  | rsvd
  | iomapSgl
  | ctrl
  deriving DecidableEq, Repr

/-- The number of an operation in its `enum`. Source: `rsocket.c`. Kind: D -/
def RsOp.code : RsOp → ℕ
  | .data => 0
  | .rsvdDataMore => 1
  | .write => 2
  | .rsvdDraMore => 3
  | .sgl => 4
  | .rsvd => 5
  | .iomapSgl => 6
  | .ctrl => 7

/-- The operation of a number below 8. Source: `rsocket.c`. Kind: D -/
def RsOp.ofCode : ℕ → RsOp
  | 0 => .data
  | 1 => .rsvdDataMore
  | 2 => .write
  | 3 => .rsvdDraMore
  | 4 => .sgl
  | 5 => .rsvd
  | 6 => .iomapSgl
  | _ => .ctrl

/-- `rs_msg_set(op, data)`. Source: `rsocket.c`. Kind: D -/
def rsMsgSet (op : RsOp) (data : ℕ) : UInt32 := UInt32.ofNat op.code <<< 29 ||| UInt32.ofNat data

/-- `rs_msg_op(imm_data)`. Source: `rsocket.c`. Kind: D -/
def rsMsgOp (msg : UInt32) : RsOp := .ofCode (msg >>> 29).toNat

/-- `rs_msg_data(imm_data)`. Source: `rsocket.c`. Kind: D -/
def rsMsgData (msg : UInt32) : ℕ := (msg &&& 0x1FFFFFFF).toNat

/-- The number of an operation determines it. Kind: L -/
@[simp] lemma RsOp.ofCode_code (op : RsOp) : ofCode op.code = op := by
  cases op <;> rfl

/-- There are eight operations. Kind: L -/
lemma RsOp.code_lt (op : RsOp) : op.code < 8 := by
  cases op <;> decide

/-- A message as a number. Kind: L -/
lemma toNat_rsMsgSet (op : RsOp) {data : ℕ} (h : data < 2 ^ 29) :
    (rsMsgSet op data).toNat = op.code * 2 ^ 29 + data := by
  have hop := op.code_lt
  have hcode : (UInt32.ofNat op.code <<< 29).toNat = op.code <<< 29 := by
    have hshift : UInt32.toNat 29 % 32 = 29 := rfl
    rw [UInt32.toNat_shiftLeft, UInt32.toNat_ofNat', hshift, Nat.shiftLeft_eq, Nat.shiftLeft_eq]
    omega
  rw [rsMsgSet, UInt32.toNat_or, hcode, UInt32.toNat_ofNat', Nat.mod_eq_of_lt (by omega),
    ← Nat.shiftLeft_add_eq_or_of_lt h, Nat.shiftLeft_eq]

/-- The operation of a message. Kind: L -/
lemma rsMsgOp_rsMsgSet (op : RsOp) {data : ℕ} (h : data < 2 ^ 29) :
    rsMsgOp (rsMsgSet op data) = op := by
  have hhigh : (rsMsgSet op data >>> 29).toNat = op.code := by
    have hshift : UInt32.toNat 29 % 32 = 29 := rfl
    rw [UInt32.toNat_shiftRight, toNat_rsMsgSet op h, hshift, Nat.shiftRight_eq_div_pow]
    omega
  rw [rsMsgOp, hhigh, RsOp.ofCode_code]

/-- The data of a message. Kind: L -/
lemma rsMsgData_rsMsgSet (op : RsOp) {data : ℕ} (h : data < 2 ^ 29) :
    rsMsgData (rsMsgSet op data) = data := by
  have hmask : (0x1FFFFFFF : UInt32).toNat = 2 ^ 29 - 1 := rfl
  rw [rsMsgData, UInt32.toNat_and, toNat_rsMsgSet op h, hmask, Nat.and_two_pow_sub_one_eq_mod]
  omega

/-- `RS_CTRL_*`. Source: `rsocket.c`. Kind: D -/
inductive RsCtrl where
  | disconnect
  | keepalive
  | shutdown
  deriving DecidableEq, Repr

/-- The number of a control message in its `enum`. Source: `rsocket.c`. Kind: D -/
def RsCtrl.code : RsCtrl → ℕ
  | .disconnect => 0
  | .keepalive => 1
  | .shutdown => 2

/-! ## The structs -/

/-- `struct rs_sge`. Source: `rsocket.c`. Kind: D -/
structure RsSge where
  addr : UInt64
  key : UInt32
  length : UInt32
  deriving DecidableEq, Repr

/-- `sizeof(struct rs_sge)`, also `RS_MAX_CTRL_MSG`. Source: `rsocket.c`. Kind: D -/
abbrev sizeofSge : ℕ := 16

/-- `sizeof(struct rs_iomap)`. Source: `rsocket.c`. Kind: D -/
abbrev sizeofIomap : ℕ := 24

/-- A `struct rs_sge` as a host stores it. Source: `rsocket.c`. Kind: D -/
def RsSge.bytes (net : Bool) (e : RsSge) : List UInt8 :=
  Mem.toHost64 net e.addr ++ Mem.toHost32 net e.key ++ Mem.toHost32 net e.length

/-- The `struct rs_sge` a host reads at `a`. Source: `rsocket.c`. Kind: D -/
def RsSge.read (net : Bool) (m : Mem) (a : ℕ) : RsSge where
  addr := Mem.ofHost64 net (Mem.read m a 8)
  key := Mem.ofHost32 net (Mem.read m (a + 8) 4)
  length := Mem.ofHost32 net (Mem.read m (a + 12) 4)

/-- Every field with its bytes swapped. Source: `rsocket.c` `rs_send_credits`, `rs_send_iomaps`.
Kind: D -/
def RsSge.bswap (e : RsSge) : RsSge where
  addr := Mem.bswap64 e.addr
  key := Mem.bswap32 e.key
  length := Mem.bswap32 e.length

/-- An `ibv_mr` that the other end may write to: where it starts and its key.
Source: `rsocket.c` `rs_init_bufs`. Kind: D -/
structure Mr where
  addr : UInt64
  rkey : UInt32
  deriving DecidableEq, Repr

/-- `RS_SGL_SIZE`. Source: `rsocket.c`. Kind: D -/
abbrev rsSglSize : ℕ := 2

/-- `RS_QP_CTRL_SIZE`. Source: `rsocket.c`. Kind: D -/
abbrev rsQpCtrlSize : ℕ := 4

/-- `RS_SNDLOWAT`. Source: `rsocket.c`. Kind: D -/
abbrev rsSndLowat : ℕ := 2048

/-- `RS_OLAP_START_SIZE`. Source: `rsocket.c`. Kind: D -/
abbrev rsOlapStartSize : ℕ := 2048

/-- `RS_MAX_TRANSFER`. Source: `rsocket.c`. Kind: D -/
abbrev rsMaxTransfer : ℕ := 65536

/-- The fields of `struct rsocket` that are fixed once the buffers are registered, with what holds
of them: the queue sizes are those of `rs_set_qp_size`, the sizes of the buffers are `int`s, the
receive buffer has two halves, and a registered memory does not run over the end of the address
space. The two memories open to the other end have keys of their own.
Source: `rsocket.c` `rs_create_ep`, `rs_set_qp_size`, `rs_init_bufs`. Kind: D -/
structure Config where
  net : Bool
  sbufSize : ℕ
  rbufSize : ℕ
  sqSize : ℕ
  rqSize : ℕ
  targetIomapSize : ℕ
  rmr : Mr
  targetMr : Mr
  sbuf_pos : 0 < sbufSize
  sbuf_lt : sbufSize < 2 ^ 31
  rbuf_pos : 0 < rbufSize
  rbuf_lt : rbufSize < 2 ^ 31
  rbuf_even : rbufSize % 2 = 0
  sq_ge : rsQpCtrlSize < sqSize
  rq_pos : 0 < rqSize
  rq_le : rqSize ≤ 0xFFFE
  iomap_le : targetIomapSize < 2 ^ 16
  rmr_fits : rmr.addr.toNat + rbufSize + 4 * rqSize ≤ 2 ^ 64
  target_fits : targetMr.addr.toNat + rsSglSize * sizeofSge + sizeofIomap * targetIomapSize ≤ 2 ^ 64
  key_ne : rmr.rkey ≠ targetMr.rkey

/-- The bits of `rs->state`. Source: `rsocket.c` `enum rs_state`. Kind: D -/
structure RsState where
  opening : Bool
  connected : Bool
  writable : Bool
  readable : Bool
  disconnected : Bool
  error : Bool
  deriving DecidableEq, Repr

/-- `rs_connect_rdwr`. Source: `rsocket.c`. Kind: D -/
def rsConnectRdwr : RsState := ⟨false, true, true, true, false, false⟩

/-- `rs_connecting`. Source: `rsocket.c`. Kind: D -/
def rsConnecting : RsState := ⟨true, false, false, false, false, false⟩

/-- `rs_disconnected`. Source: `rsocket.c`. Kind: D -/
def rsDisconnected : RsState := ⟨false, false, false, false, true, false⟩

/-- `rs_error`. Source: `rsocket.c`. Kind: D -/
def rsError : RsState := ⟨false, false, false, false, false, true⟩

/-- A work request for the send queue: the message it carries (its `wr_id`, and its immediate data
if it has any), the pieces of the send buffer it gathers, and where it writes to.
Source: `rsocket.c` `rs_post_msg`, `rs_post_write`, `rs_post_write_msg`. Kind: D -/
structure Wr where
  msg : UInt32
  withImm : Bool
  sgl : List (ℕ × ℕ)
  addr : UInt64
  rkey : UInt32
  deriving DecidableEq, Repr

/-- What a work request puts on the wire. Kind: D -/
structure Packet where
  msg : UInt32
  withImm : Bool
  bytes : List UInt8
  addr : UInt64
  rkey : UInt32
  deriving DecidableEq, Repr

/-- A work completion: of a send, with the message of its `wr_id` and its status; of a receive that
took a message; of a receive that was flushed. Source: `rsocket.c` `rs_poll_cq`. Kind: D -/
inductive Wc where
  | send (msg : UInt32) (ok : Bool)
  | recv (msg : UInt32)
  | recvFlushed
  deriving DecidableEq, Repr

/-- The queue pair and the completion queue. A work request is in `sq` until the hardware reads the
buffer and sends it, on the `wire` until it has arrived, and `done` until its completion is put
into `cq`. `recvs` receives are posted. Kind: D -/
structure Qp where
  sq : List Wr
  wire : List (Wr × Packet)
  done : List Wr
  recvs : ℕ
  cq : List Wc
  error : Bool
  deriving DecidableEq, Repr

/-- The stream towards the other end. `target` is `target_buffer_list`, with the two entries of
`target_sgl` at its start. Source: `rsocket.c` `struct rsocket`. Kind: D -/
structure Tx where
  sseqNo : UInt16
  sseqComp : UInt16
  targetSge : ℕ
  target : Mem

/-- The stream from the other end. Of the entries of `rmsg` only the field `data` is read.
Source: `rsocket.c` `struct rsocket`. Kind: D -/
structure Rx where
  rseqNo : UInt16
  rseqComp : UInt16
  remoteSge : ℕ
  rbufBytesAvail : ℤ
  rbufFreeOffset : ℕ
  rbufOffset : ℕ
  rbuf : Mem
  rmsg : ℕ → ℕ
  rmsgHead : ℕ
  rmsgTail : ℕ

/-- What a posted work request uses up. `ssgl` is the offset of `ssgl[0].addr` in the send buffer,
behind which the control buffers lie. Source: `rsocket.c` `struct rsocket`. Kind: D -/
structure Out where
  ctrlSeqno : UInt32
  ctrlMaxSeqno : UInt32
  sqeAvail : ℤ
  sbufBytesAvail : ℤ
  ssgl : ℕ
  sbuf : Mem

/-- What is known of the other end. Source: `rsocket.c` `struct rsocket`. Kind: D -/
structure Peer where
  remoteSgl : RsSge
  remoteIomap : RsSge
  swapSgl : Bool

/-- `struct rsocket`, for a stream. Source: `rsocket.c`. Kind: D -/
structure Rsocket where
  cfg : Config
  tx : Tx
  rx : Rx
  out : Out
  peer : Peer
  state : RsState
  qp : Qp

/-- `length` bytes are sent to the entry of `target_sgl` in use, and the next entry is used when it
is filled. Source: `rsocket.c` `rs_write_data`. Kind: D -/
def Tx.advance (tx : Tx) (net : Bool) (length : ℕ) : Tx :=
  let i := tx.targetSge
  let e := RsSge.read net tx.target (sizeofSge * i)
  let e' : RsSge := ⟨e.addr + UInt64.ofNat length, e.key, e.length - UInt32.ofNat length⟩
  { tx with
    sseqNo := tx.sseqNo + 1
    target := tx.target.write (sizeofSge * i) (e'.bytes net)
    targetSge := if e'.length = 0 then (if i + 1 = rsSglSize then 0 else i + 1) else i }

/-- Half of the receive buffer is handed out. Source: `rsocket.c` `rs_send_credits`. Kind: D -/
def Rx.giveHalf (rx : Rx) (rbufSize remoteSglLength : ℕ) : Rx :=
  let half := rbufSize / 2
  { rx with
    rbufBytesAvail := rx.rbufBytesAvail - half
    rbufFreeOffset :=
      if rx.rbufFreeOffset + half ≥ rbufSize then 0 else rx.rbufFreeOffset + half
    remoteSge := if rx.remoteSge + 1 = remoteSglLength then 0 else rx.remoteSge + 1 }

namespace Rsocket

/-- An `int` as the `unsigned` it is compared with. Kind: D -/
def unsigned (i : ℤ) : ℕ := (i % 2 ^ 32).toNat

/-! ## Posting -/

/-- `ibv_post_send`. Kind: D -/
def postSend (rs : Rsocket) (wr : Wr) : Rsocket :=
  { rs with qp := { rs.qp with sq := rs.qp.sq ++ [wr] } }

/-- `rs_post_msg`. Without pieces nothing is written, and the address is not read.
Source: `rsocket.c`. Kind: D -/
def rsPostMsg (rs : Rsocket) (msg : UInt32) : Rsocket := rs.postSend ⟨msg, true, [], 0, 0⟩

/-- `rs_post_write`. Source: `rsocket.c`. Kind: D -/
def rsPostWrite (rs : Rsocket) (sgl : List (ℕ × ℕ)) (wrData : UInt32) (addr : UInt64)
    (rkey : UInt32) : Rsocket :=
  rs.postSend ⟨wrData, false, sgl, addr, rkey⟩

/-- `rs_post_write_msg`. Source: `rsocket.c`. Kind: D -/
def rsPostWriteMsg (rs : Rsocket) (sgl : List (ℕ × ℕ)) (msg : UInt32) (addr : UInt64)
    (rkey : UInt32) : Rsocket :=
  rs.postSend ⟨msg, true, sgl, addr, rkey⟩

/-- `rs->target_sgl[i]`. Source: `rsocket.c`. Kind: D -/
def targetSgl (rs : Rsocket) (i : ℕ) : RsSge := .read rs.cfg.net rs.tx.target (sizeofSge * i)

/-- `rs_write_data`. Source: `rsocket.c`. Kind: D -/
def rsWriteData (rs : Rsocket) (sgl : List (ℕ × ℕ)) (length : ℕ) : Rsocket :=
  let e := rs.targetSgl rs.tx.targetSge
  let rs' : Rsocket := { rs with
    tx := rs.tx.advance rs.cfg.net length
    out := { rs.out with
      sqeAvail := rs.out.sqeAvail - 1
      sbufBytesAvail := rs.out.sbufBytesAvail - length } }
  rs'.rsPostWriteMsg sgl (rsMsgSet .data length) e.addr e.key

/-- `rs_write_iomap`. Source: `rsocket.c`. Kind: D -/
def rsWriteIomap (rs : Rsocket) (index : ℕ) (sgl : List (ℕ × ℕ)) : Rsocket :=
  let rs' : Rsocket := { rs with
    tx := { rs.tx with sseqNo := rs.tx.sseqNo + 1 }
    out := { rs.out with
      sqeAvail := rs.out.sqeAvail - 1
      sbufBytesAvail := rs.out.sbufBytesAvail - sizeofIomap } }
  rs'.rsPostWriteMsg sgl (rsMsgSet .iomapSgl index)
    (rs.peer.remoteIomap.addr + UInt64.ofNat (index * sizeofIomap)) rs.peer.remoteIomap.key

/-- `rs_sbuf_left`. Source: `rsocket.c`. Kind: D -/
def rsSbufLeft (rs : Rsocket) : ℕ := rs.cfg.sbufSize - rs.out.ssgl

/-- Bytes copied into the send buffer where `ssgl[0]` stands, in one piece or, over its end, in two;
the work request posted for them by `write`; and `ssgl[0]` moved on. `rsend`, `rsendv` and
`rs_send_iomaps` all end with this. Source: `rsocket.c`. Kind: D -/
def sendThroughSbuf (rs : Rsocket) (bs : List UInt8) (write : Rsocket → List (ℕ × ℕ) → Rsocket) :
    Rsocket :=
  let at0 := rs.out.ssgl
  let left := rs.rsSbufLeft
  if bs.length ≤ left then
    let rs := { rs with out := { rs.out with sbuf := rs.out.sbuf.write at0 bs } }
    let rs := write rs [(at0, bs.length)]
    { rs with out := { rs.out with ssgl := if bs.length < left then at0 + bs.length else 0 } }
  else
    let rs := { rs with out := { rs.out with
      sbuf := (rs.out.sbuf.write at0 (bs.take left)).write 0 (bs.drop left) } }
    let rs := write rs [(at0, left), (0, bs.length - left)]
    { rs with out := { rs.out with ssgl := bs.length - left } }

/-! ## Sending -/

/-- `rs_can_send`. Source: `rsocket.c`. Kind: D -/
def rsCanSend (rs : Rsocket) : Prop :=
  rs.out.sqeAvail ≠ 0 ∧ (rsSndLowat : ℤ) ≤ rs.out.sbufBytesAvail ∧ rs.tx.sseqNo ≠ rs.tx.sseqComp ∧
    (rs.targetSgl rs.tx.targetSge).length ≠ 0

instance (rs : Rsocket) : Decidable rs.rsCanSend := by
  unfold rsCanSend
  infer_instance

/-- `xfer_size` in a round of `rsend` with `left` bytes to go. Source: `rsocket.c` `rsend`.
Kind: D -/
def xferSize (rs : Rsocket) (left olen : ℕ) : ℕ :=
  let x := if olen < left then olen else left
  let x := if x > unsigned rs.out.sbufBytesAvail then unsigned rs.out.sbufBytesAvail else x
  let avail := (rs.targetSgl rs.tx.targetSge).length.toNat
  if x > avail then avail else x

/-- `olen` after a round of `rsend` with `left` bytes to go. Source: `rsocket.c` `rsend`. Kind: D -/
def nextOlen (left olen : ℕ) : ℕ :=
  if olen < left then (if olen < rsMaxTransfer then olen * 2 else olen) else olen

/-- A round of `rsend` once `rs_can_send` holds: the bytes `buf` are left to send.
Source: `rsocket.c` `rsend`. Kind: D -/
def rsendIter (rs : Rsocket) (buf : List UInt8) (olen : ℕ) : Rsocket :=
  let xfer := rs.xferSize buf.length olen
  rs.sendThroughSbuf (buf.take xfer) fun rs sgl => rs.rsWriteData sgl xfer

/-- A memory of the application that the other end is to write to (`struct rs_iomap_mr`).
Source: `rsocket.c`. Kind: D -/
structure IomapMr where
  offset : UInt64
  addr : UInt64
  length : ℕ
  rkey : UInt32
  index : ℕ

/-- `struct rs_iomap` as it is sent. Source: `rsocket.c` `rs_send_iomaps`. Kind: D -/
def iomapBytes (rs : Rsocket) (mr : IomapMr) : List UInt8 :=
  let sge : RsSge := ⟨mr.addr, mr.rkey, UInt32.ofNat mr.length⟩
  if rs.peer.swapSgl then
    Mem.toHost64 rs.cfg.net (Mem.bswap64 mr.offset) ++ sge.bswap.bytes rs.cfg.net
  else Mem.toHost64 rs.cfg.net mr.offset ++ sge.bytes rs.cfg.net

/-- A round of `rs_send_iomaps` once `rs_can_send` holds. Source: `rsocket.c`. Kind: D -/
def rsSendIomap (rs : Rsocket) (mr : IomapMr) : Rsocket :=
  rs.sendThroughSbuf (rs.iomapBytes mr) fun rs sgl => rs.rsWriteIomap mr.index sgl

/-! ## Credits -/

/-- The offset of `rs_get_ctrl_buf` in the send buffer. Source: `rsocket.c`. Kind: D -/
def rsGetCtrlBuf (rs : Rsocket) : ℕ :=
  rs.cfg.sbufSize + sizeofSge * (rs.out.ctrlSeqno &&& 3).toNat

/-- `rs_ctrl_avail`. Source: `rsocket.c`. Kind: D -/
def rsCtrlAvail (rs : Rsocket) : Prop := rs.out.ctrlSeqno ≠ rs.out.ctrlMaxSeqno

instance (rs : Rsocket) : Decidable rs.rsCtrlAvail := by
  unfold rsCtrlAvail
  infer_instance

/-- Half of the receive buffer is free. Source: `rsocket.c` `rs_send_credits`, `rs_give_credits`.
Kind: D -/
def halfFree (rs : Rsocket) : Prop := rs.cfg.rbufSize / 2 ≤ unsigned rs.rx.rbufBytesAvail

instance (rs : Rsocket) : Decidable rs.halfFree := by
  unfold halfFree
  infer_instance

/-- `(short) ((short) rs->rseq_no - (short) rs->rseq_comp) >= 0`. Source: `rsocket.c`
`rs_give_credits`. Kind: D -/
def seqDue (rs : Rsocket) : Prop := (rs.rx.rseqNo - rs.rx.rseqComp).toNat < 2 ^ 15

instance (rs : Rsocket) : Decidable rs.seqDue := by
  unfold seqDue
  infer_instance

/-- `rs_give_credits`. Source: `rsocket.c`. Kind: D -/
def rsGiveCredits (rs : Rsocket) : Prop :=
  (rs.halfFree ∨ rs.seqDue) ∧ rs.rsCtrlAvail ∧ rs.state.connected = true

instance (rs : Rsocket) : Decidable rs.rsGiveCredits := by
  unfold rsGiveCredits
  infer_instance

/-- The half of the receive buffer that is handed out, as the other end is to read it.
Source: `rsocket.c` `rs_send_credits`. Kind: D -/
def creditSge (rs : Rsocket) : RsSge :=
  let e : RsSge := ⟨rs.cfg.rmr.addr + UInt64.ofNat rs.rx.rbufFreeOffset, rs.cfg.rmr.rkey,
    UInt32.ofNat (rs.cfg.rbufSize / 2)⟩
  if rs.peer.swapSgl then e.bswap else e

/-- `rs_send_credits`. Source: `rsocket.c`. Kind: D -/
def rsSendCredits (rs : Rsocket) : Rsocket :=
  let rs : Rsocket := { rs with
    out := { rs.out with ctrlSeqno := rs.out.ctrlSeqno + 1 }
    rx := { rs.rx with rseqComp := rs.rx.rseqNo + UInt16.ofNat (rs.cfg.rqSize / 2) } }
  let msg := rsMsgSet .sgl (rs.rx.rseqNo.toNat + rs.cfg.rqSize)
  if rs.halfFree then
    let sgeBuf := rs.rsGetCtrlBuf
    let rs : Rsocket := { rs with out := { rs.out with
      sbuf := rs.out.sbuf.write sgeBuf (rs.creditSge.bytes rs.cfg.net) } }
    let rs := rs.rsPostWriteMsg [(sgeBuf, sizeofSge)] msg
      (rs.peer.remoteSgl.addr + UInt64.ofNat (rs.rx.remoteSge * sizeofSge)) rs.peer.remoteSgl.key
    { rs with rx := rs.rx.giveHalf rs.cfg.rbufSize rs.peer.remoteSgl.length.toNat }
  else rs.rsPostMsg msg

/-- `rs_update_credits`. Source: `rsocket.c`. Kind: D -/
def rsUpdateCredits (rs : Rsocket) : Rsocket := if rs.rsGiveCredits then rs.rsSendCredits else rs

/-! ## Completions -/

/-- `rmsg[rmsg_tail]` is filled. Source: `rsocket.c` `rs_poll_cq`. Kind: D -/
def pushRmsg (rs : Rsocket) (data : ℕ) : Rsocket :=
  { rs with rx := { rs.rx with
    rmsg := Function.update rs.rx.rmsg rs.rx.rmsgTail data
    rmsgTail := if rs.rx.rmsgTail + 1 = rs.cfg.rqSize + 1 then 0 else rs.rx.rmsgTail + 1 } }

/-- What `rs_poll_cq` does with a message that was received, and whether it returns at once.
Source: `rsocket.c`. Kind: D -/
def rsPollRecv (rs : Rsocket) (msg : UInt32) : Rsocket × Bool :=
  match rsMsgOp msg with
  | .sgl => ({ rs with tx := { rs.tx with sseqComp := UInt16.ofNat (rsMsgData msg) } }, false)
  | .iomapSgl => (rs, false)
  | .ctrl =>
      if rsMsgData msg = RsCtrl.disconnect.code then ({ rs with state := rsDisconnected }, true)
      else if rsMsgData msg = RsCtrl.shutdown.code then
        if rs.state.writable then ({ rs with state := { rs.state with readable := false } }, false)
        else ({ rs with state := rsDisconnected }, true)
      else (rs, false)
  | .write => (rs, false)
  | _ => (rs.pushRmsg (rsMsgData msg), false)

/-- What `rs_poll_cq` does with the completion of a work request. Source: `rsocket.c`. Kind: D -/
def rsPollSend (rs : Rsocket) (msg : UInt32) (ok : Bool) : Rsocket :=
  let rs : Rsocket := match rsMsgOp msg with
    | .sgl => { rs with out := { rs.out with ctrlMaxSeqno := rs.out.ctrlMaxSeqno + 1 } }
    | .ctrl => { rs with
        out := { rs.out with ctrlMaxSeqno := rs.out.ctrlMaxSeqno + 1 }
        state := if rsMsgData msg = RsCtrl.disconnect.code then rsDisconnected else rs.state }
    | .iomapSgl => { rs with out := { rs.out with
        sqeAvail := rs.out.sqeAvail + 1
        sbufBytesAvail := rs.out.sbufBytesAvail + sizeofIomap } }
    | _ => { rs with out := { rs.out with
        sqeAvail := rs.out.sqeAvail + 1
        sbufBytesAvail := rs.out.sbufBytesAvail + rsMsgData msg } }
  if !ok && rs.state.connected then { rs with state := rsError } else rs

/-! ## Receiving -/

/-- `rs_have_rdata`. Source: `rsocket.c`. Kind: D -/
def rsHaveRdata (rs : Rsocket) : Prop := rs.rx.rmsgHead ≠ rs.rx.rmsgTail

instance (rs : Rsocket) : Decidable rs.rsHaveRdata := by
  unfold rsHaveRdata
  infer_instance

/-- `rmsg_head` one entry on. Source: `rsocket.c`. Kind: D -/
def nextRmsg (rs : Rsocket) (head : ℕ) : ℕ := if head + 1 = rs.cfg.rqSize + 1 then 0 else head + 1

/-- `rsize` bytes copied from the receive buffer at `offset`, in one piece or, over its end, in two;
and the offset behind them. Source: `rsocket.c` `rrecv`, `rs_peek`. Kind: D -/
def copyRbuf (rs : Rsocket) (offset rsize : ℕ) : List UInt8 × ℕ :=
  let endSize := rs.cfg.rbufSize - offset
  if rsize > endSize then
    (rs.rx.rbuf.read offset endSize ++ rs.rx.rbuf.read 0 (rsize - endSize), rsize - endSize)
  else (rs.rx.rbuf.read offset rsize, offset + rsize)

/-- A round of `rrecv` with `left` bytes to go, and the bytes it copies. Source: `rsocket.c`
`rrecv`. Kind: D -/
def rrecvIter (rs : Rsocket) (left : ℕ) : Rsocket × List UInt8 :=
  let data := rs.rx.rmsg rs.rx.rmsgHead
  let rsize := if left < data then left else data
  let (bs, offset) := rs.copyRbuf rs.rx.rbufOffset rsize
  let rx := if left < data then
      { rs.rx with rmsg := Function.update rs.rx.rmsg rs.rx.rmsgHead (data - left) }
    else { rs.rx with rseqNo := rs.rx.rseqNo + 1, rmsgHead := rs.nextRmsg rs.rx.rmsgHead }
  ({ rs with rx := { rx with
      rbufOffset := offset
      rbufBytesAvail := rx.rbufBytesAvail + rsize } }, bs)

/-- The inner loop of `rrecv`, for at most `fuel` rounds. Source: `rsocket.c` `rrecv`. Kind: D -/
def rrecvLoop : ℕ → Rsocket → ℕ → Rsocket × List UInt8
  | 0, rs, _ => (rs, [])
  | fuel + 1, rs, left =>
      if left ≠ 0 ∧ rs.rsHaveRdata then
        let (rs', bs) := rs.rrecvIter left
        let (rs'', bs') := rrecvLoop fuel rs' (left - bs.length)
        (rs'', bs ++ bs')
      else (rs, [])

/-- The loop of `rs_peek`, for at most `fuel` rounds. Source: `rsocket.c` `rs_peek`. Kind: D -/
def rsPeekLoop (rs : Rsocket) : ℕ → (rmsgHead rbufOffset left : ℕ) → List UInt8
  | 0, _, _, _ => []
  | fuel + 1, rmsgHead, rbufOffset, left =>
      if left ≠ 0 ∧ rmsgHead ≠ rs.rx.rmsgTail then
        let data := rs.rx.rmsg rmsgHead
        let rsize := if left < data then left else data
        let head := if left < data then rmsgHead else rs.nextRmsg rmsgHead
        let (bs, offset) := rs.copyRbuf rbufOffset rsize
        bs ++ rsPeekLoop rs fuel head offset (left - rsize)
      else []

/-- `rs_peek`: a round ends the loop or passes an entry of `rmsg`. Source: `rsocket.c`. Kind: D -/
def rsPeek (rs : Rsocket) (len : ℕ) : List UInt8 :=
  rs.rsPeekLoop (rs.cfg.rqSize + 1) rs.rx.rmsgHead rs.rx.rbufOffset len

end Rsocket

end FreeFlow.RSocket
