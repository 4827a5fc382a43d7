import FreeFlow.Verbs.Messages

/-!
# The control flow of `HandleRequest`

A handler thread serves one connection: it reads a header, reads the body its request type has,
does the work, and writes `size` bytes of response. On the way it can leave through one of several
exits that write nothing: `goto end` (next header), `goto kill` (close the connection), `return`,
the use of a null pointer, or a wait that does not end.

What is modelled is what the client can see of a turn of that loop: the bytes it consumes, the
file descriptors and the bytes it sends, and how it ends. The work itself is a list of checks in
the order of the code, each with the exit taken when it fails; whether a check passes is decided by
the router's tables and by the results of the verbs and system calls.

* `Handler`, `handler` — one entry per `case` of the switch.
* `Env` — the router's tables and all results of calls during one turn.
* `turn` — one turn of the loop.

Source: `ffrouter.cpp` `HandleRequest`, `send_fd`, `recv_fd`.
-/

namespace FreeFlow.Router

open FreeFlow.Found FreeFlow.Verbs

/-! ## Handlers -/

/-- How many bytes of body are read. `given` is the header's `body_size`. Kind: D -/
inductive BodySize
  | none
  | fixed (n : ℕ)
  | given
  deriving DecidableEq, Repr

/-- How long a response is: a struct, or for `IBV_POLL_CQ` a `FfrResponseHeader` with the size of
the completions behind it. Kind: D -/
inductive ReplySize
  | fixed (n : ℕ)
  | counted
  deriving DecidableEq, Repr

/-- The handle tables of the router. Kind: D -/
inductive Table
  | pd | cq | qp | srq | mr | ah | compChannel | eventChannel
  deriving DecidableEq, Repr

/-- Calls whose failure a handler can notice. Kind: D -/
inductive Call
  /-- the verbs or rdmacm call that makes the object returns one -/
  | create
  /-- the shared memory piece opens -/
  | openPiece
  /-- `socket` for the announcement of a mapping -/
  | socket
  /-- an acknowledgement of the announcement arrives -/
  | acknowledge
  /-- the QP has a token bucket -/
  | bucket
  /-- `tb->consume` succeeds in the end, for every element -/
  | tokens
  /-- `ibv_get_cq_event` returns an event -/
  | cqEvent
  /-- `recv_fd` returns a descriptor -/
  | recvFd
  deriving DecidableEq, Repr

/-- A point of a handler that is passed only if something is there. Handles stand in the body at
offset `off`. Kind: D -/
inductive Check
  /-- the table has an entry at the handle, which is not compared with `MAP_SIZE` -/
  | found (t : Table) (off : ℕ)
  /-- the same, after a comparison with `MAP_SIZE` -/
  | foundBelow (t : Table) (off : ℕ)
  /-- the completion channel of `IBV_CREATE_CQ`, if the request names one -/
  | channelIfNamed
  | call (c : Call)
  deriving DecidableEq, Repr

/-- How a turn ends without a whole response. Kind: D -/
inductive Exit
  /-- `goto end`: on to the next header -/
  | toEnd
  /-- `goto kill`, or `break` out of the loop: the connection is closed -/
  | kill
  /-- `return`: the thread is gone and the connection stays open -/
  | abandon
  /-- a null pointer is used: the router is gone -/
  | crash
  /-- a wait that does not end -/
  | blocked
  /-- on with a header that was never read -/
  | garbled
  deriving DecidableEq, Repr

/-- A `case` of the switch. Kind: D -/
structure Handler where
  body : BodySize
  /-- `recv_fd` after the body -/
  takesFd : Bool
  checks : List (Check × Exit)
  /-- `send_fd` before the response -/
  fdFirst : Bool
  reply : ReplySize
  /-- `send_fd` after the response, if the call returned a descriptor -/
  fdAfter : Bool
  /-- the loop is left after the response -/
  closes : Bool
  deriving DecidableEq, Repr

/-- The usual shape: read the struct of the request, pass the checks, write the struct of the
response. Kind: D -/
def Handler.plain (f : RdmaFunctionCall) (checks : List (Check × Exit)) : Handler :=
  { body := .fixed (reqSize f), takesFd := false, checks := checks, fdFirst := false,
    reply := .fixed (rspSize f), fdAfter := false, closes := false }

/-- The calls that only look up one object and act on it. Kind: D -/
def Handler.onObject (f : RdmaFunctionCall) (t : Table) : Handler :=
  .plain f [(.found t 0, .toEnd)]

/-- A post over the socket: the body has the size the header gives, and the handle is the field
`qp_handle` of `struct ibv_post_recv`, which is where the other two post structs have theirs.
Kind: D -/
def Handler.post (f : RdmaFunctionCall) (t : Table) (checks : List (Check × Exit)) : Handler :=
  { Handler.plain f ((.foundBelow t 16, .crash) :: checks) with body := .given }

/-- The switch of `HandleRequest`. Source: `ffrouter.cpp`. Kind: D -/
def handler (f : RdmaFunctionCall) : Handler :=
  match f with
  | .ibvGetContext | .ibvQueryDev => { Handler.plain f [] with body := .none }
  | .ibvExpQueryDev | .ibvQueryPort | .ibvQueryQp | .ibvCreateFlow | .ibvDestroyFlow => .plain f []
  | .ibvAllocPd => { Handler.plain f [(.call .create, .crash)] with body := .none }
  | .ibvDeallocPd => .onObject f .pd
  | .ibvCreateCq =>
      .plain f [(.channelIfNamed, .toEnd), (.call .create, .crash), (.call .openPiece, .crash)]
  | .ibvDestroyCq | .ibvReqNotifyCq => .onObject f .cq
  | .ibvCreateQp =>
      .plain f [(.found .pd 0, .crash), (.call .create, .toEnd), (.call .openPiece, .crash)]
  | .ibvDestroyQp => .onObject f .qp
  | .ibvRegMr =>
      .plain f [(.call .openPiece, .toEnd), (.found .pd 0, .toEnd), (.call .create, .toEnd)]
  | .ibvRegMrMapping => .plain f [(.call .socket, .abandon), (.call .acknowledge, .blocked)]
  | .ibvDeregMr => .plain f [(.found .mr 0, .crash)]
  | .ibvModifyQp => .plain f [(.foundBelow .qp 0, .crash)]
  | .ibvPostSend => .post f .qp [(.call .bucket, .crash), (.call .tokens, .blocked)]
  | .ibvPostRecv => .post f .qp []
  | .ibvPostSrqRecv => .post f .srq []
  | .ibvPollCq => { Handler.plain f [(.foundBelow .cq 0, .toEnd)] with reply := .counted }
  | .ibvCreateCompChannel | .cmCreateEventChannel =>
      { Handler.plain f [(.call .create, .crash)] with body := .none, fdFirst := true }
  | .ibvDestroyCompChannel => .onObject f .compChannel
  | .ibvGetCqEvent => .plain f [(.found .compChannel 0, .toEnd), (.call .cqEvent, .toEnd)]
  -- the response is written as the struct of `IBV_GET_CQ_EVENT`
  | .ibvAckCqEvent =>
      { Handler.onObject f .cq with reply := .fixed (rspSize .ibvGetCqEvent) }
  | .ibvCreateAh => .plain f [(.found .pd 0, .toEnd), (.call .create, .crash)]
  | .ibvDestroyAh => .onObject f .ah
  | .ibvCreateSrq =>
      .plain f [(.found .pd 0, .toEnd), (.call .create, .crash), (.call .openPiece, .crash)]
  | .ibvModifySrq | .ibvDestroySrq => .onObject f .srq
  | .cmDestroyEventChannel => .onObject f .eventChannel
  -- `size` is never set and keeps the 0 it is declared with
  | .cmBindIp => { Handler.plain f [] with reply := .fixed 0 }
  -- the response is written as the struct of `CM_RESOLVE_IP`
  | .cmResolveAddr => { Handler.plain f [] with reply := .fixed (rspSize .cmResolveIp) }
  | .cmCreateId | .cmBind | .cmGetEvent | .cmQueryRoute | .cmListen | .cmResolveIp
  | .cmUcmaQueryAddr | .cmUcmaQueryGid | .cmUcmaProcessConnResp | .cmDestroyId | .cmResolveRoute
  | .cmUcmaQueryPath | .cmInitQpAttr | .cmConnect | .cmAccept | .cmSetOption | .cmMigrateId
  | .cmDisconnect => .plain f []
  | .socketSocket => { Handler.plain f [] with fdAfter := true, closes := true }
  | .socketBind => { Handler.plain f [] with body := .none, takesFd := true, closes := true }
  | .socketAccept =>
      { Handler.plain f [] with body := .none, takesFd := true, fdAfter := true, closes := true }
  | .socketAccept4 => { Handler.plain f [] with takesFd := true, fdAfter := true, closes := true }
  | .socketConnect => { Handler.plain f [] with takesFd := true, closes := true }
  -- no `case`: the response is the `size` the turn starts with
  | .ibvGetDeviceList | .ibvRegCm | .ibvMalloc | .ibvFree | .ibvResizeCq =>
      { Handler.plain f [] with body := .none, reply := .fixed 0 }

/-! ## One turn -/

/-- The router's tables and the results of all calls during one turn. A `read` or `write` returns
`some n` bytes, or `none` for -1. Kind: D -/
structure Env where
  headerRead : Option ℕ
  bodyRead : Option ℕ
  /-- what the request buffer holds from earlier turns -/
  buffer : List UInt8
  mapped : Table → ℕ → Bool
  succeeds : Call → Bool
  /-- what `ibv_poll_cq` returns -/
  count : ℤ
  fdSent : Bool
  wrote : Option ℕ
  /-- the socket call's result is a descriptor -/
  returnsFd : Bool

/-- The handle at offset `off` of a body. Kind: D -/
def handleAt (body : List UInt8) (off : ℕ) : ℕ := Mem.ofLE ((body.drop off).take 4)

/-- Whether a check passes. Kind: D -/
def Env.passes (e : Env) (body : List UInt8) : Check → Bool
  | .found t off => e.mapped t (handleAt body off)
  | .foundBelow t off => handleAt body off < mapSize && e.mapped t (handleAt body off)
  | .channelIfNamed => 2 ^ 31 ≤ handleAt body 0 || e.mapped .compChannel (handleAt body 0)
  | .call c => e.succeeds c

/-- The exit of the first check that fails. Kind: D -/
def Env.firstFailing (e : Env) (body : List UInt8) (checks : List (Check × Exit)) : Option Exit :=
  (checks.find? fun c => !e.passes body c.1).map (·.2)

/-- What the client sees of a turn: the bytes of its own left unread, the descriptors and bytes it
is sent, the `rsp_size` in a counted response, and the exit, if the turn did not end with a whole
response and the next header. Kind: D -/
structure Turn where
  left : List UInt8
  fds : ℕ
  sent : ℕ
  counted : ℕ
  exit : Option Exit
  deriving DecidableEq, Repr

/-- A turn that ends without a response. Kind: D -/
def Turn.early (left : List UInt8) (x : Exit) : Turn :=
  { left := left, fds := 0, sent := 0, counted := 0, exit := some x }

/-- The outcome of reading a body. Kind: D -/
inductive BodyRead
  | ok (body left : List UInt8)
  | failed (left : List UInt8) (x : Exit)

/-- Reading the body. A fixed size is compared as an unsigned number, so that a failed `read`, which
returns -1, passes as a complete one; the posts compare with a 32-bit size, as signed numbers.
Kind: D -/
def readBody (e : Env) (size : ℕ) (up : List UInt8) : BodySize → BodyRead
  | .none => .ok [] up
  | .fixed n =>
      match e.bodyRead with
      | some k => if k < n then .failed (up.drop k) .kill else .ok (up.take n) (up.drop n)
      | none => .ok e.buffer up
  | .given =>
      match e.bodyRead with
      | some k => if k < size then .failed (up.drop k) .toEnd else .ok (up.take size) (up.drop size)
      | none => .failed up .toEnd

/-- The size of the response, and the `rsp_size` in it. Kind: D -/
def replySize (e : Env) : ReplySize → ℕ × ℕ
  | .fixed n => (n, 0)
  | .counted => (sizeofResponseHeader + e.count.toNat * sizeofWc, e.count.toNat * sizeofWc)

/-- The end of a turn: descriptor, response, descriptor. Kind: D -/
def writeReply (h : Handler) (e : Env) (left : List UInt8) : Turn :=
  let size := (replySize e h.reply).1
  let before := if h.fdFirst && e.fdSent then 1 else 0
  if (e.wrote.any fun n => size ≤ n) then
    { left := left
      fds := before + if h.fdAfter && e.returnsFd && e.fdSent then 1 else 0
      sent := size
      counted := (replySize e h.reply).2
      exit := if h.closes then some .kill else none }
  else
    { left := left, fds := before, sent := e.wrote.getD 0, counted := 0, exit := some .kill }

/-- A handler, from behind the header on. Kind: D -/
def Handler.run (h : Handler) (e : Env) (size : ℕ) (up : List UInt8) : Turn :=
  match readBody e size up h.body with
  | .failed left x => .early left x
  | .ok body left =>
      let left' := if h.takesFd then left.drop 2 else left
      if h.takesFd && !e.succeeds .recvFd then .early left' .kill
      else
        match e.firstFailing body h.checks with
        | some x => .early left' x
        | none => writeReply h e left'

/-- One turn of the loop on the bytes the client has sent. The header's size is compared as an
unsigned number, like that of a fixed body. An unknown request type falls through the switch.
Source: `ffrouter.cpp` `HandleRequest`. Kind: D -/
def turn (e : Env) (up : List UInt8) : Turn :=
  match e.headerRead with
  | none => .early up .garbled
  | some n =>
      if n < sizeofRequestHeader then .early (up.drop n) .kill
      else
        let rest := up.drop sizeofRequestHeader
        match headerFunc up with
        | some f => (handler f).run e (headerBodySize up) rest
        | none => writeReply (handler .ibvGetDeviceList) e rest

/-! ## What a turn needs -/

/-- A `read` or `write` that moved all `n` bytes. Kind: D -/
def Whole (r : Option ℕ) (n : ℕ) : Prop := ∃ k, r = some k ∧ n ≤ k

instance (r : Option ℕ) (n : ℕ) : Decidable (Whole r n) :=
  decidable_of_iff ((r.any fun k => n ≤ k) = true) (by cases r <;> simp [Whole])

/-- `Whole` as `turn` tests it. Kind: L -/
lemma any_eq_true_iff_whole (r : Option ℕ) (n : ℕ) :
    (r.any fun k => decide (n ≤ k)) = true ↔ Whole r n := by
  cases r <;> simp [Whole]

/-- All checks pass exactly when none is the first to fail. Kind: L -/
lemma Env.firstFailing_eq_none_iff (e : Env) (body : List UInt8) (checks : List (Check × Exit)) :
    e.firstFailing body checks = none ↔ ∀ c ∈ checks, e.passes body c.1 = true := by
  rw [Env.firstFailing, Option.map_eq_none_iff, List.find?_eq_none]
  simp

/-- A response is written whole, and the loop goes on, exactly when `write` took all of it.
Kind: L -/
lemma writeReply_exit_eq_none_iff {h : Handler} (hcloses : h.closes = false) (e : Env)
    (left : List UInt8) :
    (writeReply h e left).exit = none ↔ Whole e.wrote (replySize e h.reply).1 := by
  rw [← any_eq_true_iff_whole]
  unfold writeReply
  by_cases hw : (e.wrote.any fun n => decide ((replySize e h.reply).1 ≤ n)) = true
  · simp [hw, hcloses]
  · simp [hw]

/-- Writing the response reads nothing. Kind: L -/
@[simp] lemma writeReply_left (h : Handler) (e : Env) (left : List UInt8) :
    (writeReply h e left).left = left := by
  unfold writeReply
  simp only
  split <;> rfl

/-- What the client is sent when it is so. Kind: L -/
lemma writeReply_of_whole {h : Handler} (hcloses : h.closes = false) (hafter : h.fdAfter = false)
    {e : Env} (left : List UInt8) (hw : Whole e.wrote (replySize e h.reply).1) :
    writeReply h e left =
      { left := left, fds := if h.fdFirst && e.fdSent then 1 else 0,
        sent := (replySize e h.reply).1, counted := (replySize e h.reply).2, exit := none } := by
  have hany := (any_eq_true_iff_whole _ _).mpr hw
  unfold writeReply
  simp [hany, hcloses, hafter]

end FreeFlow.Router
