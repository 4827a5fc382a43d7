import FreeFlow.Router.HandleRequest

/-!
# Requests and responses on one connection

`request_router` of the client libraries writes a header and a body and then waits for the response
of its request type; `HandleRequest` has its own list of what each type reads and writes. The two
stay in step only if they agree on every byte, because nothing on the wire marks where a message
begins.

* `ClientCall`, `requestRouter` — what the libraries send and wait for, per request type.
* `Request` — a request as `request_router` sends it, with a body of the right size.
* `Synced` — one exchange leaves nothing unread and gives the client exactly what it waits for.
* `connection` — a whole sequence of exchanges; `InStep` — in step before each of them and at the
  end.
* `inStep_iff` — for every sequence: in step exactly when every turn is `Clean`.
* `bindIp_never_synced` — `CM_BIND_IP` is never answered, whatever happens in the router.

Source: `libibverbs-1.2.1mlnx1/src/freeflow.c` and `librdmacm-1.1.0mlnx/src/freeflow.c`
`request_router`, `recv_fd`; `ffrouter.cpp` `HandleRequest`.
-/

namespace FreeFlow.Wire

open FreeFlow.Found FreeFlow.Verbs FreeFlow.Router

/-! ## The client's side -/

/-- What `request_router` does for a request type: the size of the body it writes, whether it waits
for a descriptor, and the response it reads. Kind: D -/
structure ClientCall where
  body : BodySize
  fd : Bool
  rsp : ReplySize
  deriving DecidableEq, Repr

/-- The usual case: a struct each way. Kind: D -/
def ClientCall.plain (f : RdmaFunctionCall) : ClientCall :=
  { body := .fixed (reqSize f), fd := false, rsp := .fixed (rspSize f) }

/-- The switches of the two libraries' `request_router`; `none` is their `default`, which sends
nothing. Source: `freeflow.c` of both libraries. Kind: D -/
def requestRouter (f : RdmaFunctionCall) : Option ClientCall :=
  match f with
  | .ibvGetContext | .ibvQueryDev | .ibvAllocPd => some { ClientCall.plain f with body := .none }
  | .ibvCreateCompChannel | .cmCreateEventChannel =>
      some { ClientCall.plain f with body := .none, fd := true }
  | .ibvPostSend | .ibvPostRecv | .ibvPostSrqRecv => some { ClientCall.plain f with body := .given }
  | .ibvPollCq => some { ClientCall.plain f with rsp := .counted }
  | .ibvExpQueryDev | .ibvQueryPort | .ibvDeallocPd | .ibvCreateCq | .ibvDestroyCq
  | .ibvReqNotifyCq | .ibvCreateQp | .ibvDestroyQp | .ibvRegMr | .ibvRegMrMapping | .ibvDeregMr
  | .ibvModifyQp | .ibvQueryQp | .ibvDestroyCompChannel | .ibvGetCqEvent | .ibvAckCqEvent
  | .ibvCreateAh | .ibvDestroyAh | .ibvCreateFlow | .ibvDestroyFlow | .ibvCreateSrq
  | .ibvModifySrq | .ibvDestroySrq
  | .cmDestroyEventChannel | .cmCreateId | .cmBindIp | .cmBind | .cmGetEvent | .cmQueryRoute
  | .cmListen | .cmResolveIp | .cmResolveAddr | .cmUcmaQueryAddr | .cmUcmaQueryGid | .cmDestroyId
  | .cmResolveRoute | .cmUcmaQueryPath | .cmUcmaProcessConnResp | .cmInitQpAttr | .cmConnect
  | .cmAccept | .cmSetOption | .cmMigrateId | .cmDisconnect => some (.plain f)
  | .ibvGetDeviceList | .ibvRegCm | .ibvMalloc | .ibvFree | .ibvResizeCq | .socketSocket
  | .socketBind | .socketAccept | .socketAccept4 | .socketConnect => none

/-- A body of the size the call writes. A post is built in the request area of a control channel,
behind a header. Kind: D -/
def BodyFits (body : List UInt8) : BodySize → Prop
  | .none => body = []
  | .fixed n => body.length = n
  | .given => sizeofPostSend ≤ body.length ∧ body.length ≤ ctrlReqSize - sizeofRequestHeader

/-- A request as `request_router` sends it. Kind: D -/
structure Request where
  clientId : UInt32
  func : RdmaFunctionCall
  body : List UInt8
  call : ClientCall
  isCall : requestRouter func = some call
  fits : BodyFits body call.body

/-- The bytes on the wire. Kind: D -/
def Request.bytes (r : Request) : List UInt8 :=
  headerBytes r.clientId r.func r.body.length ++ r.body

/-- The number of response bytes the client reads, once it has seen the `rsp_size` of a counted
response. Kind: D -/
def ClientCall.waitsFor (c : ClientCall) (counted : ℕ) : ℕ :=
  match c.rsp with
  | .fixed n => n
  | .counted => sizeofResponseHeader + counted

/-- The turn answers the call: the loop goes on, and the client was sent the descriptors and bytes
it reads. Kind: D -/
def Answers (c : ClientCall) (t : Turn) : Prop :=
  t.exit = none ∧ t.fds = (if c.fd then 1 else 0) ∧ t.sent = c.waitsFor t.counted

instance (c : ClientCall) (t : Turn) : Decidable (Answers c t) :=
  inferInstanceAs (Decidable (_ ∧ _))

/-! ## A connection -/

/-- A connection between two requests: the client is ready to send the next one, with so many
bytes of its earlier requests still unread; or it is stuck in `request_router`, waiting for a
response that does not come. Kind: D -/
inductive Conn
  | ready (unread : List UInt8)
  | stuck
  deriving DecidableEq, Repr

/-- One exchange. Kind: D -/
def Conn.exchange : Conn → Request × Env → Conn
  | .stuck, _ => .stuck
  | .ready unread, (r, e) =>
      let t := turn e (unread ++ r.bytes)
      if Answers r.call t then .ready t.left else .stuck

/-- A connection after a sequence of requests. Kind: D -/
def connection (rs : List (Request × Env)) : Conn := rs.foldl Conn.exchange (.ready [])

/-- Client and router agree, before each request and after the last, that everything written has
been read and everything asked has been answered. Kind: D -/
def InStep (rs : List (Request × Env)) : Prop := ∀ k, connection (rs.take k) = .ready []

/-! ## When a turn is clean -/

/-- The body is read whole, if the call has one. Kind: D -/
def BodyWhole (e : Env) (b : BodySize) (n : ℕ) : Prop := b = .none ∨ Whole e.bodyRead n

/-- What one exchange needs: the request is not `CM_BIND_IP`; header and body are read whole; the
handler's checks pass; a descriptor that is due is sent; the response is written whole. Kind: D -/
structure Clean (r : Request) (e : Env) : Prop where
  not_bindIp : r.func ≠ .cmBindIp
  header : Whole e.headerRead sizeofRequestHeader
  body : BodyWhole e r.call.body r.body.length
  checks : ∀ c ∈ (handler r.func).checks, e.passes r.body c.1 = true
  fd : r.call.fd = true → e.fdSent = true
  wrote : Whole e.wrote (replySize e r.call.rsp).1

/-- One exchange on a connection that is in step. Kind: D -/
def Synced (r : Request) (e : Env) : Prop :=
  Answers r.call (turn e r.bytes) ∧ (turn e r.bytes).left = []

/-! ## The two lists of request types -/

/-- A body that can be told from none, with a size that fits the header. Kind: D -/
def InRange : BodySize → Prop
  | .fixed n => 0 < n ∧ n < 2 ^ 32
  | .none | .given => True

instance (b : BodySize) : Decidable (InRange b) :=
  match b with
  | .fixed _ => inferInstanceAs (Decidable (_ ∧ _))
  | .none | .given => inferInstanceAs (Decidable True)

/-- Router and client have the same idea of a request type. Kind: D -/
def Agree (h : Handler) (c : ClientCall) : Prop :=
  h.body = c.body ∧ h.fdFirst = c.fd ∧ h.reply = c.rsp ∧ h.takesFd = false ∧ h.fdAfter = false ∧
    h.closes = false

instance (h : Handler) (c : ClientCall) : Decidable (Agree h c) :=
  inferInstanceAs (Decidable (_ ∧ _))

/-- Every body the client writes has a size in range. Kind: L -/
lemma inRange_of_requestRouter {f : RdmaFunctionCall} {c : ClientCall}
    (h : requestRouter f = some c) : InRange c.body := by
  cases f <;> cases h <;> decide

/-- **The two lists agree on every request type but `CM_BIND_IP`.** Kind: P -/
theorem agree_of_requestRouter {f : RdmaFunctionCall} {c : ClientCall}
    (h : requestRouter f = some c) (hf : f ≠ .cmBindIp) : Agree (handler f) c := by
  cases f <;> cases h <;> first | decide | exact absurd rfl hf

/-! ## One exchange -/

variable {r : Request} {e : Env}

/-- The size of a body fits the header. Kind: L -/
lemma Request.length_body_lt (r : Request) : r.body.length < 2 ^ 32 := by
  have hfits := r.fits
  have hrange := inRange_of_requestRouter r.isCall
  revert hfits hrange
  cases r.call.body with
  | none => intro hfits _; rw [show r.body = [] from hfits]; simp
  | fixed n => intro hfits hrange; rw [show r.body.length = n from hfits]; exact hrange.2
  | given =>
      intro hfits _
      exact lt_of_le_of_lt hfits.2 (by decide)

/-- With its header read, a turn on a request's bytes is its handler on the request's body.
Kind: L -/
lemma turn_bytes (hh : Whole e.headerRead sizeofRequestHeader) :
    turn e r.bytes = (handler r.func).run e r.body.length r.body := by
  obtain ⟨n, hn, hle⟩ := hh
  unfold turn Request.bytes
  rw [hn]
  simp only [if_neg (not_lt.mpr hle), headerFunc_headerBytes,
    headerBodySize_headerBytes _ _ r.length_body_lt, List.drop_left' (length_headerBytes ..)]

/-- Without its header, a turn does not answer. Kind: L -/
lemma turn_exit_of_not_whole (hh : ¬ Whole e.headerRead sizeofRequestHeader) (up : List UInt8) :
    (turn e up).exit ≠ none := by
  unfold turn
  cases hr : e.headerRead with
  | none => simp [Turn.early]
  | some n =>
      have hlt : n < sizeofRequestHeader := by
        by_contra hle
        exact hh ⟨n, hr, not_lt.mp hle⟩
      simp [hlt, Turn.early]

/-- A body that is read whole leaves nothing behind. Kind: L -/
lemma readBody_of_whole {b : BodySize} {body : List UInt8} (hfits : BodyFits body b)
    (hw : BodyWhole e b body.length) : readBody e body.length body b = .ok body [] := by
  rcases hw with rfl | ⟨k, hk, hle⟩
  · rw [show body = [] from hfits]
    rfl
  · cases b with
    | none =>
        rw [show body = [] from hfits]
        rfl
    | fixed n =>
        obtain rfl : body.length = n := hfits
        simp [readBody, hk, not_lt.mpr hle]
    | given => simp [readBody, hk, not_lt.mpr hle]

/-- Otherwise the handler gives up, or goes on and leaves the body in the stream. Kind: L -/
lemma readBody_of_not_whole {b : BodySize} {body : List UInt8} (hfits : BodyFits body b)
    (hrange : InRange b) (hw : ¬ BodyWhole e b body.length) :
    (∃ left x, readBody e body.length body b = .failed left x) ∨
      ∃ body' left, readBody e body.length body b = .ok body' left ∧ left ≠ [] := by
  cases b with
  | none => exact absurd (.inl rfl) hw
  | fixed n =>
      obtain rfl : body.length = n := hfits
      cases hr : e.bodyRead with
      | none =>
          -- -1 passes the unsigned comparison
          refine .inr ⟨e.buffer, body, by simp [readBody, hr], ?_⟩
          exact List.ne_nil_of_length_pos hrange.1
      | some k =>
          have hlt : k < body.length := by
            by_contra hle
            exact hw (.inr ⟨k, hr, not_lt.mp hle⟩)
          exact .inl ⟨body.drop k, .kill, by simp [readBody, hr, hlt]⟩
  | given =>
      cases hr : e.bodyRead with
      | none => exact .inl ⟨body, .toEnd, by simp [readBody, hr]⟩
      | some k =>
          have hlt : k < body.length := by
            by_contra hle
            exact hw (.inr ⟨k, hr, not_lt.mp hle⟩)
          exact .inl ⟨body.drop k, .toEnd, by simp [readBody, hr, hlt]⟩

/-- The response that was written is the one that is waited for. Kind: L -/
lemma waitsFor_replySize {h : Handler} {c : ClientCall} (hr : h.reply = c.rsp) :
    (replySize e h.reply).1 = c.waitsFor (replySize e h.reply).2 := by
  rw [hr, ClientCall.waitsFor]
  cases c.rsp <;> rfl

/-- The response of a handler that passed its checks is the one that is waited for exactly when
the descriptor and all bytes went out. Kind: L -/
lemma answers_writeReply_iff {h : Handler} {c : ClientCall} (ha : Agree h c) (left : List UInt8) :
    Answers c (writeReply h e left) ↔
      (c.fd = true → e.fdSent = true) ∧ Whole e.wrote (replySize e c.rsp).1 := by
  obtain ⟨-, hfd, hreply, -, hafter, hcloses⟩ := ha
  constructor
  · rintro ⟨hexit, hfds, -⟩
    have hw := (writeReply_exit_eq_none_iff hcloses e left).mp hexit
    rw [writeReply_of_whole hcloses hafter left hw] at hfds
    rw [← hreply]
    refine ⟨fun hc => ?_, hw⟩
    by_contra hns
    simp [hfd, hc, hns] at hfds
  · rintro ⟨hsent, hw⟩
    rw [← hreply] at hw
    rw [writeReply_of_whole hcloses hafter left hw]
    refine ⟨rfl, ?_, waitsFor_replySize hreply⟩
    rw [hfd]
    cases hc : c.fd with
    | false => rfl
    | true => simp [hsent hc]

/-- A handler whose list entry agrees with the client's answers, and leaves nothing unread, exactly
when body, checks, descriptor and response are all in order. Kind: L -/
lemma answers_run_iff {h : Handler} {c : ClientCall} (ha : Agree h c) {body : List UInt8}
    (hfits : BodyFits body c.body) (hrange : InRange c.body) :
    (Answers c (h.run e body.length body) ∧ (h.run e body.length body).left = []) ↔
      BodyWhole e c.body body.length ∧ (∀ p ∈ h.checks, e.passes body p.1 = true) ∧
        (c.fd = true → e.fdSent = true) ∧ Whole e.wrote (replySize e c.rsp).1 := by
  have hbody := ha.1
  have htakes := ha.2.2.2.1
  by_cases hw : BodyWhole e c.body body.length
  · have hread := readBody_of_whole hfits hw
    rw [← Env.firstFailing_eq_none_iff, and_iff_right hw]
    unfold Handler.run
    rw [hbody, hread]
    cases hf : e.firstFailing body h.checks with
    | some x => simp [htakes, hf, Turn.early, Answers]
    | none =>
        simp only [htakes, hf, Bool.false_and, Bool.false_eq_true, if_false, writeReply_left,
          and_true, true_and]
        exact answers_writeReply_iff ha []
  · rw [iff_false_right (fun hr => hw hr.1)]
    rintro ⟨hans, hleft⟩
    unfold Handler.run at hans hleft
    rw [hbody] at hans hleft
    rcases readBody_of_not_whole hfits hrange hw with ⟨left, x, hread⟩ | ⟨body', left, hread, hne⟩
    · rw [hread] at hans
      exact absurd hans.1 (by simp [Turn.early])
    · rw [hread] at hans hleft
      cases hf : e.firstFailing body' h.checks with
      | some x => simp [htakes, hf, Turn.early, Answers] at hans
      | none => simp [htakes, hf, hne] at hleft

/-- **`CM_BIND_IP` is never answered**: the handler writes no byte and the client waits for four.
Kind: P -/
theorem bindIp_never_synced (hf : r.func = .cmBindIp) : ¬ Synced r e := by
  rintro ⟨⟨hexit, -, hsent⟩, -⟩
  have hcall : r.call = .plain .cmBindIp := by
    have h := r.isCall
    rw [hf] at h
    exact (Option.some.inj h).symm
  by_cases hh : Whole e.headerRead sizeofRequestHeader
  · rw [turn_bytes hh, hf] at hexit hsent
    rw [hcall] at hsent
    have hzero : ((handler .cmBindIp).run e r.body.length r.body).sent = 0 := by
      unfold Handler.run
      cases readBody e r.body.length r.body (handler .cmBindIp).body with
      | failed left x => rfl
      | ok body left =>
          simp only [handler, Handler.plain, Env.firstFailing, Bool.false_and, Bool.false_eq_true,
            if_false, List.find?_nil, Option.map_none, writeReply, replySize]
          split
          · rfl
          · next hw => cases hwr : e.wrote <;> simp_all
    have hsize : rspSize .cmBindIp = 4 := rfl
    rw [hzero] at hsent
    simp [ClientCall.waitsFor, ClientCall.plain, hsize] at hsent
  · exact turn_exit_of_not_whole hh _ hexit

/-- One exchange is in step exactly when it is clean. Kind: L -/
lemma synced_iff_clean (r : Request) (e : Env) : Synced r e ↔ Clean r e := by
  by_cases hf : r.func = .cmBindIp
  · exact ⟨fun h => absurd h (bindIp_never_synced hf), fun h => absurd hf h.not_bindIp⟩
  · by_cases hh : Whole e.headerRead sizeofRequestHeader
    · unfold Synced
      rw [turn_bytes hh, answers_run_iff (agree_of_requestRouter r.isCall hf) r.fits
        (inRange_of_requestRouter r.isCall)]
      constructor
      · rintro ⟨hb, hc, hd, hw⟩
        exact ⟨hf, hh, hb, hc, hd, hw⟩
      · intro h
        exact ⟨h.body, h.checks, h.fd, h.wrote⟩
    · exact ⟨fun h => absurd h.1.1 (turn_exit_of_not_whole hh _), fun h => absurd h.header hh⟩

/-! ## Whole sequences -/

/-- A first exchange on a connection that is in step. Kind: L -/
lemma exchange_ready_eq_iff (r : Request) (e : Env) :
    (Conn.ready []).exchange (r, e) = .ready [] ↔ Synced r e := by
  unfold Synced
  simp only [Conn.exchange, List.nil_append]
  by_cases hans : Answers r.call (turn e r.bytes)
  · simp [hans]
  · simp [hans]

/-- **A connection stays in step exactly when every exchange is clean**: for every sequence of
requests of any length, every state of the router's tables and all results of verbs and system
calls. Kind: P -/
theorem inStep_iff (rs : List (Request × Env)) : InStep rs ↔ ∀ p ∈ rs, Clean p.1 p.2 := by
  constructor
  · intro h p hp
    obtain ⟨k, hk, hget⟩ := List.mem_iff_getElem.mp hp
    -- the exchange at position `k` starts in step and ends in step
    have hbefore := h k
    have hafter := h (k + 1)
    rw [List.take_succ_eq_append_getElem hk, connection, List.foldl_append, ← connection, hbefore,
      List.foldl_cons, List.foldl_nil, hget] at hafter
    exact (synced_iff_clean p.1 p.2).mp ((exchange_ready_eq_iff p.1 p.2).mp hafter)
  · intro h k
    induction k with
    | zero => rfl
    | succ k ih =>
        by_cases hk : k < rs.length
        · rw [List.take_succ_eq_append_getElem hk, connection, List.foldl_append, ← connection, ih,
            List.foldl_cons, List.foldl_nil]
          exact (exchange_ready_eq_iff _ _).mpr
            ((synced_iff_clean _ _).mpr (h _ (List.getElem_mem hk)))
        · rw [List.take_of_length_le (by omega), ← List.take_of_length_le (not_lt.mp hk)]
          exact ih

/-- A turn in which every call succeeds, every object is found and every byte arrives: `n` of the
body, `k` of the response. Kind: C -/
def smoothEnv (n k : ℕ) : Env :=
  { headerRead := some 12, bodyRead := some n, buffer := [], mapped := fun _ _ => true,
    succeeds := fun _ => true, count := 0, fdSent := true, wrote := some k, returnsFd := true }

/-- `rdma_create_event_channel`. Kind: C -/
def createEventChannel : Request :=
  { clientId := 1, func := .cmCreateEventChannel, body := [], call := ⟨.none, true, .fixed 8⟩,
    isCall := rfl, fits := rfl }

/-- `rdma_create_id`. Kind: C -/
def createId : Request :=
  { clientId := 1, func := .cmCreateId, body := List.replicate 40 0, call := .plain .cmCreateId,
    isCall := rfl, fits := rfl }

/-- `rdma_bind_addr`. Kind: C -/
def bindIp : Request :=
  { clientId := 1, func := .cmBindIp, body := List.replicate 56 0, call := .plain .cmBindIp,
    isCall := rfl, fits := rfl }

/-- The three calls with which a server gets ready to listen. Kind: C -/
def sampleSetup : List (Request × Env) :=
  [(createEventChannel, smoothEnv 0 8), (createId, smoothEnv 40 8), (bindIp, smoothEnv 56 0)]

/-- **A server that creates an event channel and an id and binds it**: every call succeeds, and the
client waits in `request_router` for ever, because the third response is empty. Kind: C -/
theorem bindIp_stuck :
    connection (sampleSetup.take 2) = .ready [] ∧ connection sampleSetup = .stuck ∧
      ¬ InStep sampleSetup := by
  have hstuck : connection sampleSetup = .stuck := by decide
  refine ⟨by decide, hstuck, fun h => ?_⟩
  have hthree : connection sampleSetup = .ready [] := h 3
  rw [hstuck] at hthree
  exact absurd hthree (by simp)

end FreeFlow.Wire
