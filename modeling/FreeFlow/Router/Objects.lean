import FreeFlow.Found.Proc
import FreeFlow.Router.HandleRequest
import FreeFlow.Router.Isolation
import FreeFlow.Router.ShmNames

/-!
# The router's tables, request by request

Every verbs object of every client lives in the router. A client knows it by a number: the handle
or descriptor the HCA gave it, a memory key, a shared memory name. The router resolves the number
through a table, eight arrays of `MAP_SIZE` pointers and five maps, and the handlers of the requests
fill and clear these tables.

A handler is a procedure on the tables. It can leave without an answer, because an object is not
there or because a call failed, and it can go wrong in three ways: an index beyond an array, the use
of a null pointer, and the use of an object that was destroyed. The handlers are written statement
by statement, each lookup with the tests the source makes and with no others. A request is one step
here; the interleavings of two handlers are the subject of the channel registry.

* `State` — the tables, the shared memory names, the variables of the channel loop, and the HCA's
  objects, numbered in the order of their creation.
* `lookup`, `store`, `deref`, `create`, `destroyObject` — what handlers are made of.
* `ibvAllocPd` … `chanPostSrqRecv` — the handlers that use a table, and the channel services.
* `Act`, `handle`, `step` — a request with the results of its calls, and a run of the router.

Source: `ffrouter.h` `class FreeFlowRouter`; `ffrouter.cpp` `HandleRequest`, `CtrlChannelLoop`,
`initCtrlShm`, `addShmPiece`.
-/

namespace FreeFlow.Router.Objects

open FreeFlow.Found FreeFlow.Verbs FreeFlow.Router.Isolation
open ShmNames (ShmPiece)

/-! ## The state -/

/-- The eight arrays of object pointers, by kind and index, and the HCA: which objects exist, which
of the QPs are UD, and the number of the next object. `none` is the null pointer. Kind: D -/
structure Core where
  map : Table → ℕ → Option ℕ
  live : Table → ℕ → Bool
  ud : ℕ → Bool
  next : ℕ

/-- The router. `ctrl` and `vec` are `qp_shm_map`, `cq_shm_map`, `srq_shm_map` and the vectors the
channel loop walks over; `shm` has `shm_pool`, `shm_map` and `shmr_map`. An entry of `lkey_ptr` is
the pointer to the memory of an MR, of `tokenbucket` that to the bucket of a QP, and both stand for
it by its number; a key that is absent reads as the null pointer. `rkey_mr_shm` tells the two apart.
`var` has the variables `qp`, `cq` and `srq` of `CtrlChannelLoop`.
Source: `ffrouter.h` `class FreeFlowRouter`
Kind: D -/
structure State where
  core : Core
  ctrl : Kind → ℕ → Option ShmPiece
  vec : Kind → List ℕ
  shm : ShmNames.State
  lkeyPtr : UInt32 → Option ℕ
  rkeyMrShm : UInt32 → Option (Option ℕ)
  tokenbucket : ℕ → Option ℕ
  var : Kind → Option ℕ

/-- The array of the objects with a channel of a kind. Kind: D -/
def table : Kind → Table
  | .qp => .qp
  | .cq => .cq
  | .srq => .srq

/-- An entry is set. Kind: D -/
def Core.setMap (c : Core) (t : Table) (h : ℕ) (p : Option ℕ) : Core :=
  { c with map := Function.update c.map t (Function.update (c.map t) h p) }

/-- The HCA makes an object. Kind: D -/
def Core.make (c : Core) (t : Table) (ud : Bool) : Core :=
  { c with
    live := Function.update c.live t (Function.update (c.live t) c.next true)
    ud := Function.update c.ud c.next ud
    next := c.next + 1 }

/-- The HCA destroys an object. Kind: D -/
def Core.kill (c : Core) (t : Table) (o : ℕ) : Core :=
  { c with live := Function.update c.live t (Function.update (c.live t) o false) }

/-! ## What handlers are made of -/

/-- What goes wrong: an index beyond an array, a null pointer that is used, an object that is used
after its destruction. Kind: D -/
inductive Fault
  | bounds
  | null
  | dead
  deriving DecidableEq, Repr

/-- How a handler ends without an answer: a lookup finds the null pointer, or a call fails, and both
are tested and followed by `goto end`, in the channel loop by `break`; or a fault, which ends the
router. Kind: D -/
inductive Stop
  | notFound
  | failed
  | fault (f : Fault)
  deriving DecidableEq, Repr

/-- What is answered: the result of a call; a handle or descriptor; a handle and the name of the
control piece; an MR; the result of a post; a number of completions; a CQ with an event.
Source: `types.h`
Kind: D -/
inductive Reply
  | ret (r : ℤ)
  | created (handle : ℕ)
  | channel (handle : ℕ) (shmName : String)
  | region (handle : ℕ) (lkey rkey : UInt32) (shmName : String)
  | posted (retErrno : ℤ) (badWr : ℕ)
  | polled (count : ℤ)
  | event (cq : ℕ)
  deriving DecidableEq, Repr

/-- Handlers and their parts. Kind: D -/
abbrev Step := Proc State Stop

/-- A fault ends the router. Kind: D -/
def fault {α : Type} (f : Fault) : Step α := .stop (.fault f)

/-- An access to an array of `MAP_SIZE` entries. A negative `int` is an index of at least `2 ^ 31`
here. Kind: D -/
def index (h : ℕ) : Step Unit := if h < mapSize then pure () else fault .bounds

/-- `x_map[h]`. Kind: D -/
def lookup (t : Table) (h : ℕ) : Step (Option ℕ) := do
  index h
  .get fun s => s.core.map t h

/-- `x_map[h] = p`. Kind: D -/
def store (t : Table) (h : ℕ) (p : Option ℕ) : Step Unit := do
  index h
  .modify fun s => { s with core := s.core.setMap t h p }

/-- `if (p == NULL) goto end`. Kind: D -/
def found (p : Option ℕ) : Step Unit := if p = none then .stop .notFound else pure ()

/-- The object behind a pointer, which is dereferenced or passed to a verbs call. Kind: D -/
def deref (t : Table) : Option ℕ → Step ℕ
  | none => fault .null
  | some o => do
      if ← .get fun s => s.core.live t o then pure o else fault .dead

/-- A pointer that may be null. Kind: D -/
def derefIfAny (t : Table) : Option ℕ → Step Unit
  | none => pure ()
  | some o => do
      let _ ← deref t (some o)

/-- A verbs call that makes an object. `out` is the handle it gets, or `none` for a null pointer,
which stops the handler: it is tested, or used without a test. Kind: D -/
def create (t : Table) (ud : Bool) (out : Option ℕ) (onNull : Stop) : Step (ℕ × ℕ) :=
  match out with
  | none => .stop onNull
  | some h => do
      let o ← .get fun s => s.core.next
      .modify fun s => { s with core := s.core.make t ud }
      pure (o, h)

/-- `if (x->handle >= MAP_SIZE) LOG_…; else x_map[x->handle] = x`. Kind: D -/
def storeBelow (t : Table) (h o : ℕ) : Step Unit :=
  if h < mapSize then store t h (some o) else pure ()

/-- A verbs call that destroys an object and returns `ret`. Kind: D -/
def destroyObject (t : Table) (p : Option ℕ) (ret : ℤ) : Step Unit := do
  let o ← deref t p
  if ret = 0 then .modify fun s => { s with core := s.core.kill t o } else pure ()

/-- The name of a control piece. Source: `ffrouter.cpp` `initCtrlShm`. Kind: D -/
def ctrlName (k : Kind) (h : ℕ) : String :=
  "ctrlshm-" ++ (match k with | .qp => "qp" | .cq => "cq" | .srq => "srq") ++ toString h

/-- `sizeof(struct CtrlShmPiece)`. Source: `types.h`. Kind: D -/
def sizeofCtrlShmPiece : ℕ := 4 + ctrlReqSize + ctrlRspSize

/-- `initCtrlShm`: a piece that does not open is written to all the same.
Source: `ffrouter.cpp` `initCtrlShm`
Kind: D -/
def initCtrlShm (k : Kind) (h : ℕ) (mapped : Bool) : Step ShmPiece := do
  let sp ← .get fun s => (s.shm.openPiece (ctrlName k h) sizeofCtrlShmPiece mapped).2
  .modify fun s => { s with shm := (s.shm.openPiece (ctrlName k h) sizeofCtrlShmPiece mapped).1 }
  match sp with
  | none => fault .null
  | some sp => pure sp

/-- The end of the creation of a CQ, QP or SRQ: the control piece, its table and its vector. The
table is set whatever the handle.
Source: `ffrouter.cpp` `HandleRequest` (`IBV_CREATE_CQ`, `IBV_CREATE_QP`, `IBV_CREATE_SRQ`)
Kind: D -/
def openChannel (k : Kind) (h : ℕ) (mapped : Bool) : Step Reply := do
  let sp ← initCtrlShm k h mapped
  index h
  .modify fun s => { s with
    ctrl := Function.update s.ctrl k (Function.update (s.ctrl k) h (some sp))
    vec := Function.update s.vec k (s.vec k ++ [h]) }
  pure (.channel h (ctrlName k h))

/-- The end of their destruction: the handle leaves the vector, and the piece, if there is one, is
deleted and its name unlinked.
Source: `ffrouter.cpp` `HandleRequest` (`IBV_DESTROY_CQ`, `IBV_DESTROY_QP`, `IBV_DESTROY_SRQ`)
Kind: D -/
def closeChannel (k : Kind) (h : ℕ) : Step Unit := do
  .modify fun s => { s with vec := Function.update s.vec k ((s.vec k).erase h) }
  index h
  .modify fun s => { s with
    shm := (s.ctrl k h).elim s.shm fun sp => s.shm.shmUnlink sp.name
    ctrl := Function.update s.ctrl k (Function.update (s.ctrl k) h none) }

/-! ## Families of handlers -/

/-- A call without arguments makes an object; its handle is used without a test. Kind: D -/
def createPlain (t : Table) (out : Option ℕ) : Step Reply := do
  let (o, h) ← create t false out (.fault .null)
  storeBelow t h o
  pure (.created h)

/-- An object is destroyed: the entry is cleared before the call, whatever it returns. Kind: D -/
def destroyPlain (t : Table) (h : ℕ) (ret : ℤ) : Step Reply := do
  let p ← lookup t h
  found p
  store t h none
  destroyObject t p ret
  pure (.ret ret)

/-- The same for an object with a control channel. Kind: D -/
def destroyQueue (k : Kind) (h : ℕ) (ret : ℤ) : Step Reply := do
  let p ← lookup (table k) h
  found p
  store (table k) h none
  destroyObject (table k) p ret
  closeChannel k h
  pure (.ret ret)

/-- A verbs call on one object. Kind: D -/
def useObject (t : Table) (h : ℕ) (reply : Reply) : Step Reply := do
  let p ← lookup t h
  found p
  let _ ← deref t p
  pure reply

/-! ## The handlers -/

/-- `IBV_ALLOC_PD`. Source: `ffrouter.cpp` `HandleRequest`. Kind: D -/
def ibvAllocPd (out : Option ℕ) : Step Reply := createPlain .pd out

/-- `IBV_DEALLOC_PD`. Source: `ffrouter.cpp` `HandleRequest`. Kind: D -/
def ibvDeallocPd (h : ℕ) (ret : ℤ) : Step Reply := destroyPlain .pd h ret

/-- `IBV_CREATE_CQ`: a negative `channel_fd` asks for no channel.
Source: `ffrouter.cpp` `HandleRequest`
Kind: D -/
def ibvCreateCq (channelFd : ℕ) (out : Option ℕ) (mapped : Bool) : Step Reply := do
  if channelFd < 2 ^ 31 then
    let channel ← lookup .compChannel channelFd
    found channel
    let _ ← deref .compChannel channel
  let (cq, h) ← create .cq false out (.fault .null)
  storeBelow .cq h cq
  openChannel .cq h mapped

/-- `IBV_DESTROY_CQ`. Source: `ffrouter.cpp` `HandleRequest`. Kind: D -/
def ibvDestroyCq (h : ℕ) (ret : ℤ) : Step Reply := destroyQueue .cq h ret

/-- `IBV_REQ_NOTIFY_CQ`. Source: `ffrouter.cpp` `HandleRequest`. Kind: D -/
def ibvReqNotifyCq (h : ℕ) (ret : ℤ) : Step Reply := useObject .cq h (.ret ret)

/-- `struct ibv_qp_cap`. Source: `verbs.h`. Kind: D -/
structure QpCap where
  maxSendWr : UInt32
  maxRecvWr : UInt32
  maxSendSge : UInt32
  maxRecvSge : UInt32
  maxInlineData : UInt32
  deriving DecidableEq, Repr

/-- `struct IBV_CREATE_QP_REQ`. Source: `types.h`. Kind: D -/
structure CreateQpReq where
  pdHandle : UInt32
  qpType : QpType
  sqSigAll : UInt32
  sendCqHandle : UInt32
  recvCqHandle : UInt32
  srqHandle : UInt32
  cap : QpCap
  deriving DecidableEq, Repr

/-- `struct ibv_qp_init_attr` as the router fills it in, with pointers for handles.
Source: `verbs.h`
Kind: D -/
structure QpInitAttr where
  qpType : QpType
  sqSigAll : UInt32
  srq : Option ℕ
  sendCq : Option ℕ
  recvCq : Option ℕ
  cap : QpCap
  deriving DecidableEq, Repr

/-- The attributes that `IBV_CREATE_QP` passes to `ibv_create_qp`: every handle is looked up, with
no test before or after. Source: `ffrouter.cpp` `HandleRequest`. Kind: D -/
def initAttr (req : CreateQpReq) : Step QpInitAttr := do
  let srq ← lookup .srq req.srqHandle.toNat
  let sendCq ← lookup .cq req.sendCqHandle.toNat
  let recvCq ← lookup .cq req.recvCqHandle.toNat
  pure { qpType := req.qpType, sqSigAll := req.sqSigAll, srq := srq, sendCq := sendCq,
         recvCq := recvCq, cap := req.cap }

/-- `IBV_CREATE_QP`. Only the QP is tested. Source: `ffrouter.cpp` `HandleRequest`. Kind: D -/
def ibvCreateQp (req : CreateQpReq) (out : Option ℕ) (mapped : Bool) : Step Reply := do
  let attr ← initAttr req
  let pd ← lookup .pd req.pdHandle.toNat
  -- `ibv_create_qp(pd, &init_attr)` uses all of them
  let _ ← deref .pd pd
  let _ ← deref .cq attr.sendCq
  let _ ← deref .cq attr.recvCq
  derefIfAny .srq attr.srq
  let (qp, h) ← create .qp (req.qpType = .ud) out .failed
  if h < mapSize then
    store .qp h (some qp)
    .modify fun s => { s with tokenbucket := Function.update s.tokenbucket h (some qp) }
  openChannel .qp h mapped

/-- `IBV_DESTROY_QP`: the bucket stays. Source: `ffrouter.cpp` `HandleRequest`. Kind: D -/
def ibvDestroyQp (h : ℕ) (ret : ℤ) : Step Reply := destroyQueue .qp h ret

/-- The handle and the keys of a new MR. Kind: D -/
structure MrKeys where
  handle : ℕ
  lkey : UInt32
  rkey : UInt32
  deriving DecidableEq, Repr

/-- `IBV_REG_MR`: the piece is there before the PD is looked up.
Source: `ffrouter.cpp` `HandleRequest`
Kind: D -/
def ibvRegMr (pdHandle : ℕ) (req : ShmNames.RegMr) (mapped : Bool) (out : Option MrKeys) :
    Step Reply := do
  let sp ← .get fun s => (s.shm.addShmPiece req mapped).2
  .modify fun s => { s with shm := (s.shm.addShmPiece req mapped).1 }
  match sp with
  | none => .stop .failed
  | some sp => do
      let pd ← lookup .pd pdHandle
      found pd
      let _ ← deref .pd pd
      match out with
      | none => .stop .failed
      | some keys => do
          let (mr, h) ← create .mr false (some keys.handle) .failed
          if h < mapSize then
            .modify fun s => { s with
              shm := { s.shm with shmrMap := Function.update s.shm.shmrMap h (some sp) } }
            store .mr h (some mr)
          .modify fun s => { s with lkeyPtr := Function.update s.lkeyPtr keys.lkey (some mr) }
          pure (.region h keys.lkey keys.rkey sp.name)

/-- `IBV_REG_MR_MAPPING`: the entry of `lkey_ptr` under the key is sent to the hosts of `HOST_LIST`.
`here` says that this router is one of them and has stored the datagram.
Source: `ffrouter.cpp` `HandleRequest`, `UDPServer`
Kind: D -/
def ibvRegMrMapping (key : UInt32) (here : Bool) : Step Reply := do
  let ptr ← .get fun s => s.lkeyPtr key
  if here then
    .modify fun s => { s with rkeyMrShm := Function.update s.rkeyMrShm key (some ptr) }
  pure (.ret 0)

/-- `IBV_DEREG_MR`: neither pointer is tested; `lkey_ptr`, `rkey_mr_shm` and `shm_map` stay.
Source: `ffrouter.cpp` `HandleRequest`
Kind: D -/
def ibvDeregMr (h : ℕ) (ret : ℤ) : Step Reply := do
  index h
  let sp ← .get fun s => s.shm.shmrMap h
  let mr ← lookup .mr h
  .modify fun s => { s with
    shm := { s.shm with shmrMap := Function.update s.shm.shmrMap h none } }
  store .mr h none
  destroyObject .mr mr ret
  match sp with
  | none => fault .null
  | some sp => do
      .modify fun s => { s with shm := s.shm.shmUnlink sp.name }
      pure (.ret ret)

/-- `IBV_MODIFY_QP`: the log line for a handle beyond the table uses `qp`, which is still null.
Source: `ffrouter.cpp` `HandleRequest`
Kind: D -/
def ibvModifyQp (h : ℕ) (ret : ℤ) : Step Reply := do
  let qp ← if h < mapSize then lookup .qp h else fault .null
  let _ ← deref .qp qp
  pure (.ret ret)

/-- What a post names of one request: the keys of its elements, and its address handle. Kind: D -/
structure PostedWr where
  lkeys : List UInt32
  ah : ℕ
  deriving DecidableEq, Repr

/-- The address handles of the requests; `ah_map` is indexed with the words of the request.
Source: `ffrouter.cpp` `HandleRequest`, `CtrlChannelLoop` (`IBV_POST_SEND`)
Kind: D -/
def fixAhs : List PostedWr → Step (List (Option ℕ))
  | [] => pure []
  | w :: ws => do
      let ah ← lookup .ah w.ah
      let rest ← fixAhs ws
      pure (ah :: rest)

/-- `ibv_post_send` uses the address handle of every request of a UD QP. Kind: D -/
def useAhs : List (Option ℕ) → Step Unit
  | [] => pure ()
  | p :: ps => do
      let _ ← deref .ah p
      useAhs ps

/-- The loop over the requests of a post, and the call. Kind: D -/
def postWrs (q : ℕ) (ws : List PostedWr) : Step Unit := do
  if ← .get fun s => s.core.ud q then
    let ahs ← fixAhs ws
    useAhs ahs

/-- `IBV_POST_SEND` over the socket: the bucket is used for every element.
Source: `ffrouter.cpp` `HandleRequest`
Kind: D -/
def ibvPostSend (h : ℕ) (ws : List PostedWr) (retErrno : ℤ) (badWr : ℕ) : Step Reply := do
  let qp ← if h < mapSize then lookup .qp h else pure none
  let tb ← .get fun s => if h < mapSize then s.tokenbucket h else none
  let q ← deref .qp qp
  if tb = none ∧ ∃ w ∈ ws, w.lkeys ≠ [] then fault .null
  postWrs q ws
  pure (.posted retErrno badWr)

/-- `IBV_POST_RECV` and `IBV_POST_SRQ_RECV` over the socket. Kind: D -/
def postOn (t : Table) (h : ℕ) (retErrno : ℤ) (badWr : ℕ) : Step Reply := do
  let p ← if h < mapSize then lookup t h else pure none
  let _ ← deref t p
  pure (.posted retErrno badWr)

/-- `IBV_POST_RECV`. Source: `ffrouter.cpp` `HandleRequest`. Kind: D -/
def ibvPostRecv (h : ℕ) (retErrno : ℤ) (badWr : ℕ) : Step Reply := postOn .qp h retErrno badWr

/-- `IBV_POST_SRQ_RECV`. Source: `ffrouter.cpp` `HandleRequest`. Kind: D -/
def ibvPostSrqRecv (h : ℕ) (retErrno : ℤ) (badWr : ℕ) : Step Reply := postOn .srq h retErrno badWr

/-- `IBV_POLL_CQ`. Source: `ffrouter.cpp` `HandleRequest`. Kind: D -/
def ibvPollCq (h : ℕ) (count : ℤ) : Step Reply := do
  let cq ← if h < mapSize then lookup .cq h else pure none
  found cq
  let _ ← deref .cq cq
  pure (.polled count)

/-- `IBV_CREATE_COMP_CHANNEL`. Source: `ffrouter.cpp` `HandleRequest`. Kind: D -/
def ibvCreateCompChannel (out : Option ℕ) : Step Reply := createPlain .compChannel out

/-- `IBV_DESTROY_COMP_CHANNEL`. Source: `ffrouter.cpp` `HandleRequest`. Kind: D -/
def ibvDestroyCompChannel (fd : ℕ) (ret : ℤ) : Step Reply := destroyPlain .compChannel fd ret

/-- `IBV_GET_CQ_EVENT`: `ev` is the CQ that `ibv_get_cq_event` gives.
Source: `ffrouter.cpp` `HandleRequest`
Kind: D -/
def ibvGetCqEvent (fd : ℕ) (ev : Option ℕ) : Step Reply := do
  let channel ← lookup .compChannel fd
  found channel
  let _ ← deref .compChannel channel
  match ev with
  | none => .stop .failed
  | some cq => do
      let _ ← deref .cq (some cq)
      pure (.event cq)

/-- `IBV_ACK_CQ_EVENT`. Source: `ffrouter.cpp` `HandleRequest`. Kind: D -/
def ibvAckCqEvent (h : ℕ) : Step Reply := useObject .cq h (.event h)

/-- `IBV_CREATE_AH`. Source: `ffrouter.cpp` `HandleRequest`. Kind: D -/
def ibvCreateAh (pdHandle : ℕ) (out : Option ℕ) : Step Reply := do
  let pd ← lookup .pd pdHandle
  found pd
  let _ ← deref .pd pd
  let (ah, h) ← create .ah false out (.fault .null)
  storeBelow .ah h ah
  pure (.created h)

/-- `IBV_DESTROY_AH`: the entry is not cleared. Source: `ffrouter.cpp` `HandleRequest`. Kind: D -/
def ibvDestroyAh (h : ℕ) (ret : ℤ) : Step Reply := do
  let ah ← lookup .ah h
  found ah
  destroyObject .ah ah ret
  pure (.ret ret)

/-- `IBV_CREATE_SRQ`. Source: `ffrouter.cpp` `HandleRequest`. Kind: D -/
def ibvCreateSrq (pdHandle : ℕ) (out : Option ℕ) (mapped : Bool) : Step Reply := do
  let pd ← lookup .pd pdHandle
  found pd
  let _ ← deref .pd pd
  let (srq, h) ← create .srq false out (.fault .null)
  storeBelow .srq h srq
  openChannel .srq h mapped

/-- `IBV_MODIFY_SRQ`. Source: `ffrouter.cpp` `HandleRequest`. Kind: D -/
def ibvModifySrq (h : ℕ) (ret : ℤ) : Step Reply := useObject .srq h (.ret ret)

/-- `IBV_DESTROY_SRQ`. Source: `ffrouter.cpp` `HandleRequest`. Kind: D -/
def ibvDestroySrq (h : ℕ) (ret : ℤ) : Step Reply := destroyQueue .srq h ret

/-- `CM_CREATE_EVENT_CHANNEL`. Source: `ffrouter.cpp` `HandleRequest`. Kind: D -/
def cmCreateEventChannel (out : Option ℕ) : Step Reply := createPlain .eventChannel out

/-- `CM_DESTROY_EVENT_CHANNEL`: the call has no result. Source: `ffrouter.cpp` `HandleRequest`.
Kind: D -/
def cmDestroyEventChannel (fd : ℕ) : Step Reply := destroyPlain .eventChannel fd 0

/-! ## The services of the control channels -/

/-- The lookup of a service: a handle beyond the table leaves the variable as it is.
Source: `ffrouter.cpp` `CtrlChannelLoop`
Kind: D -/
def chanLookup (k : Kind) (h : ℕ) : Step (Option ℕ) := do
  if h < mapSize then
    let p ← lookup (table k) h
    .modify fun s => { s with var := Function.update s.var k p }
  .get fun s => s.var k

/-- The requests of a channel post, which all get the first address handle.
Source: `ffrouter.cpp` `CtrlChannelLoop` (`IBV_POST_SEND`)
Kind: D -/
def atFirstAh (ws : List PostedWr) : List PostedWr :=
  ws.map fun w => { w with ah := (ws.head?.map PostedWr.ah).getD 0 }

/-- `IBV_POST_SEND` on a QP's channel. Source: `ffrouter.cpp` `CtrlChannelLoop`. Kind: D -/
def chanPostSend (h : ℕ) (ws : List PostedWr) (retErrno : ℤ) (badWr : ℕ) : Step Reply := do
  let qp ← chanLookup .qp h
  let q ← deref .qp qp
  postWrs q (atFirstAh ws)
  pure (.posted retErrno badWr)

/-- `IBV_POST_RECV` on a QP's channel. Source: `ffrouter.cpp` `CtrlChannelLoop`. Kind: D -/
def chanPostRecv (h : ℕ) (retErrno : ℤ) (badWr : ℕ) : Step Reply := do
  let qp ← chanLookup .qp h
  let _ ← deref .qp qp
  pure (.posted retErrno badWr)

/-- A poll on a CQ's channel: without a CQ the request stays unanswered.
Source: `ffrouter.cpp` `CtrlChannelLoop`
Kind: D -/
def chanPollCq (h : ℕ) (count : ℤ) : Step Reply := do
  let cq ← chanLookup .cq h
  found cq
  let _ ← deref .cq cq
  pure (.polled count)

/-- A post on an SRQ's channel. Source: `ffrouter.cpp` `CtrlChannelLoop`. Kind: D -/
def chanPostSrqRecv (h : ℕ) (retErrno : ℤ) (badWr : ℕ) : Step Reply := do
  let srq ← chanLookup .srq h
  let _ ← deref .srq srq
  pure (.posted retErrno badWr)

/-! ## A run of the router -/

/-- A request, or a request in a control channel, with the results of the calls made for it.
Kind: D -/
inductive Act
  | allocPd (out : Option ℕ)
  | deallocPd (h : ℕ) (ret : ℤ)
  | createCq (channelFd : ℕ) (out : Option ℕ) (mapped : Bool)
  | destroyCq (h : ℕ) (ret : ℤ)
  | reqNotifyCq (h : ℕ) (ret : ℤ)
  | createQp (req : CreateQpReq) (out : Option ℕ) (mapped : Bool)
  | destroyQp (h : ℕ) (ret : ℤ)
  | regMr (pdHandle : ℕ) (req : ShmNames.RegMr) (mapped : Bool) (out : Option MrKeys)
  | regMrMapping (key : UInt32) (here : Bool)
  | deregMr (h : ℕ) (ret : ℤ)
  | modifyQp (h : ℕ) (ret : ℤ)
  | postSend (h : ℕ) (ws : List PostedWr) (retErrno : ℤ) (badWr : ℕ)
  | postRecv (h : ℕ) (retErrno : ℤ) (badWr : ℕ)
  | postSrqRecv (h : ℕ) (retErrno : ℤ) (badWr : ℕ)
  | pollCq (h : ℕ) (count : ℤ)
  | createCompChannel (out : Option ℕ)
  | destroyCompChannel (fd : ℕ) (ret : ℤ)
  | getCqEvent (fd : ℕ) (ev : Option ℕ)
  | ackCqEvent (h : ℕ)
  | createAh (pdHandle : ℕ) (out : Option ℕ)
  | destroyAh (h : ℕ) (ret : ℤ)
  | createSrq (pdHandle : ℕ) (out : Option ℕ) (mapped : Bool)
  | modifySrq (h : ℕ) (ret : ℤ)
  | destroySrq (h : ℕ) (ret : ℤ)
  | createEventChannel (out : Option ℕ)
  | destroyEventChannel (fd : ℕ)
  | chanPostSend (h : ℕ) (ws : List PostedWr) (retErrno : ℤ) (badWr : ℕ)
  | chanPostRecv (h : ℕ) (retErrno : ℤ) (badWr : ℕ)
  | chanPollCq (h : ℕ) (count : ℤ)
  | chanPostSrqRecv (h : ℕ) (retErrno : ℤ) (badWr : ℕ)
  deriving DecidableEq, Repr

/-- The handler of a request. Source: `ffrouter.cpp` `HandleRequest`, `CtrlChannelLoop`. Kind: D -/
def handle : Act → Step Reply
  | .allocPd out => ibvAllocPd out
  | .deallocPd h ret => ibvDeallocPd h ret
  | .createCq fd out mapped => ibvCreateCq fd out mapped
  | .destroyCq h ret => ibvDestroyCq h ret
  | .reqNotifyCq h ret => ibvReqNotifyCq h ret
  | .createQp req out mapped => ibvCreateQp req out mapped
  | .destroyQp h ret => ibvDestroyQp h ret
  | .regMr pd req mapped out => ibvRegMr pd req mapped out
  | .regMrMapping key here => ibvRegMrMapping key here
  | .deregMr h ret => ibvDeregMr h ret
  | .modifyQp h ret => ibvModifyQp h ret
  | .postSend h ws ret bad => ibvPostSend h ws ret bad
  | .postRecv h ret bad => ibvPostRecv h ret bad
  | .postSrqRecv h ret bad => ibvPostSrqRecv h ret bad
  | .pollCq h count => ibvPollCq h count
  | .createCompChannel out => ibvCreateCompChannel out
  | .destroyCompChannel fd ret => ibvDestroyCompChannel fd ret
  | .getCqEvent fd ev => ibvGetCqEvent fd ev
  | .ackCqEvent h => ibvAckCqEvent h
  | .createAh pd out => ibvCreateAh pd out
  | .destroyAh h ret => ibvDestroyAh h ret
  | .createSrq pd out mapped => ibvCreateSrq pd out mapped
  | .modifySrq h ret => ibvModifySrq h ret
  | .destroySrq h ret => ibvDestroySrq h ret
  | .createEventChannel out => cmCreateEventChannel out
  | .destroyEventChannel fd => cmDestroyEventChannel fd
  | .chanPostSend h ws ret bad => Objects.chanPostSend h ws ret bad
  | .chanPostRecv h ret bad => Objects.chanPostRecv h ret bad
  | .chanPollCq h count => Objects.chanPollCq h count
  | .chanPostSrqRecv h ret bad => Objects.chanPostSrqRecv h ret bad

/-- **One step**: a fault is the end of the router. Kind: D -/
def step (s : State) (a : Act) : Option State :=
  match handle a s with
  | (.error (.fault _), _) => none
  | (_, s') => some s'

/-- The router at its start: no object, no entry, on a host where any names can be bound.
Source: `ffrouter.cpp` `FreeFlowRouter::FreeFlowRouter`
Kind: D -/
structure Start (s : State) : Prop where
  map : ∀ t h, s.core.map t h = none
  live : ∀ t o, s.core.live t o = false
  ctrl : ∀ k h, s.ctrl k h = none
  vec : ∀ k, s.vec k = []
  shm : ShmNames.Start s.shm
  lkeyPtr : ∀ k, s.lkeyPtr k = none
  rkeyMrShm : ∀ k, s.rkeyMrShm k = none
  tokenbucket : ∀ h, s.tokenbucket h = none
  var : ∀ k, s.var k = none

/-- A router on a host without shared memory. Kind: D -/
def State.empty : State where
  core := { map := fun _ _ => none, live := fun _ _ => false, ud := fun _ => false, next := 0 }
  ctrl _ _ := none
  vec _ := []
  shm :=
    { bound := fun _ => none, nextObj := 0, shmPool := fun _ => 0, shmMap := fun _ => none,
      shmrMap := fun _ => none }
  lkeyPtr _ := none
  rkeyMrShm _ := none
  tokenbucket _ := none
  var _ := none

lemma start_empty : Start State.empty where
  map _ _ := rfl
  live _ _ := rfl
  ctrl _ _ := rfl
  vec _ := rfl
  shm := ⟨nofun, fun _ => rfl, fun _ => rfl, fun _ => rfl⟩
  lkeyPtr _ := rfl
  rkeyMrShm _ := rfl
  tokenbucket _ := rfl
  var _ := rfl

end FreeFlow.Router.Objects
