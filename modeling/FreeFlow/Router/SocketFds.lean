import FreeFlow.Router.HandleRequest

/-!
# Descriptors in the socket requests

The `SOCKET_*` requests let the router make, bind, accept and connect sockets for a client. The
router receives the client's socket as a descriptor, works on it, and passes a socket that it made
back. It closes its own copies: the socket it made behind `send_fd`, the socket it received at the
label `end`, and the connection at the label `kill`. A response that is not written whole jumps over
the first two.

* `SocketCall`, `Calls` — the five requests, and the results of all calls for one of them.
* `serve` — the trace of what happens to descriptors.
* `Accounted` — the descriptors that are closed are those that were received, made or accepted.
* `PassedAfterReply` — a descriptor is passed behind a whole response with `ret >= 0` only.
* `accounted_iff` — the second always holds; the first holds exactly when the response is written
  whole, or there is nothing to close, and no more than one descriptor arrives at a time.
* `passed_length_eq` — the descriptors that are passed are those of the turn of `HandleRequest`.

Source: `ffrouter.cpp` `HandleRequest` (`SOCKET_*`, labels `end` and `kill`), `send_fd`, `recv_fd`.
-/

namespace FreeFlow.Router.SocketFds

open FreeFlow.Found FreeFlow.Verbs

/-! ## Requests -/

/-- The requests on sockets. Kind: D -/
inductive SocketCall
  | socket | bind | accept | accept4 | connect
  deriving DecidableEq, Repr

/-- Their numbers in the header. Kind: D -/
def SocketCall.func : SocketCall → RdmaFunctionCall
  | .socket => .socketSocket
  | .bind => .socketBind
  | .accept => .socketAccept
  | .accept4 => .socketAccept4
  | .connect => .socketConnect

/-- The handler reads a body. Kind: D -/
def SocketCall.hasBody : SocketCall → Bool
  | .socket | .accept4 | .connect => true
  | .bind | .accept => false

/-- The handler takes a descriptor from the client. Kind: D -/
def SocketCall.takesFd : SocketCall → Bool
  | .socket => false
  | .bind | .accept | .accept4 | .connect => true

/-- The call returns a new descriptor, which is passed to the client. Kind: D -/
def SocketCall.opens : SocketCall → Bool
  | .socket | .accept | .accept4 => true
  | .bind | .connect => false

/-- The results of the calls for one request. `control` has the descriptors that `recvmsg` has
installed, `result` is that of `socket`, `bind`, `accept`, `accept4` or `connect`, and `errno` its
error. Kind: D -/
structure Calls where
  bodyRead : Option ℕ
  control : List ℕ
  result : ℤ
  errno : ℕ
  errno_pos : 0 < errno
  wrote : Option ℕ
  sendFd : Bool

/-- `recv_fd`: the control message must have the length of one descriptor; what was installed
otherwise is forgotten.
Source: `ffrouter.cpp` `recv_fd`
Kind: D -/
def Calls.recvFd (e : Calls) : Option ℕ :=
  match e.control with
  | [fd] => some fd
  | _ => none

/-- `ret` in the response: the result, or `-errno`. Kind: D -/
def Calls.ret (e : Calls) : ℤ := if e.result < 0 then -e.errno else e.result

/-- The body is there, or its `read` has returned -1, which passes for a large number. Kind: D -/
def Calls.bodyPasses (e : Calls) (c : SocketCall) : Bool :=
  !c.hasBody || e.bodyRead.all fun n => reqSize c.func ≤ n

/-- All of the response, an `int`, is written. Kind: D -/
def Calls.whole (e : Calls) : Bool := e.wrote.any fun n => 4 ≤ n

/-- What can happen to descriptors, and the response. Kind: D -/
inductive Event
  | received (fd : ℕ)
  | opened (fd : ℕ)
  | wrote (ret : ℤ) (whole : Bool)
  | passed (fd : ℕ)
  | closed (fd : ℕ)
  /-- `close(client_sock)` -/
  | closedClient
  deriving DecidableEq, Repr

/-- The descriptor the call has made. Kind: D -/
def made (c : SocketCall) (e : Calls) : List ℕ :=
  if c.opens && decide (0 ≤ e.result) then [e.result.toNat] else []

/-- The descriptor the response speaks of. Kind: D -/
def answered (c : SocketCall) (e : Calls) : List ℕ :=
  if c.opens && decide (0 ≤ e.ret) then [e.ret.toNat] else []

/-- Behind a whole response: `send_fd` and `close`. A failed `send_fd` is only logged. Kind: D -/
def handOver (e : Calls) (fd : ℕ) : List Event :=
  (if e.sendFd then [.passed fd] else []) ++ [.closed fd]

/-- From the socket's own call on; `host` is `host_fd`, if it is not -1.
Source: `ffrouter.cpp` `HandleRequest` (`SOCKET_*`, label `end`)
Kind: D -/
def work (c : SocketCall) (e : Calls) (host : Option ℕ) : List Event :=
  (made c e).map .opened ++ .wrote e.ret e.whole ::
    ((if e.whole then (answered c e).flatMap (handOver e) ++ host.toList.map .closed else []) ++
      [.closedClient])

/-- **One request** from behind its header to the end of the connection.
Source: `ffrouter.cpp` `HandleRequest` (`SOCKET_*`, labels `end` and `kill`)
Kind: D -/
def serve (c : SocketCall) (e : Calls) : List Event :=
  if e.bodyPasses c then
    if c.takesFd then
      e.control.map .received ++
        match e.recvFd with
        | none => [.closedClient]
        | some fd => work c e (some fd)
    else work c e none
  else [.closedClient]

/-! ## Accounts -/

/-- The descriptor the event brings. Kind: D -/
def Event.acquires : Event → Option ℕ
  | .received fd | .opened fd => some fd
  | _ => none

/-- The descriptor the event closes. Kind: D -/
def Event.closes : Event → Option ℕ
  | .closed fd => some fd
  | _ => none

/-- The descriptor the event passes to the client. Kind: D -/
def Event.passes : Event → Option ℕ
  | .passed fd => some fd
  | _ => none

/-- **Every descriptor is closed exactly once.** Kind: D -/
def Accounted (tr : List Event) : Prop :=
  (tr.filterMap Event.closes).Perm (tr.filterMap Event.acquires)

/-- **No descriptor before the response**: before a descriptor is passed, a response with
`ret >= 0` was written whole. Kind: D -/
def PassedAfterReply (tr : List Event) : Prop :=
  ∀ pre fd post, tr = pre ++ .passed fd :: post → ∃ ret, .wrote ret true ∈ pre ∧ 0 ≤ ret

/-- **The condition**: when the body is there, at most one descriptor arrives; with one, the
response must be written whole, and without one when the call has made a socket. Kind: D -/
def Clean (c : SocketCall) (e : Calls) : Prop :=
  e.bodyPasses c = true →
    if c.takesFd then e.control = [] ∨ (e.control.length = 1 ∧ e.whole = true)
    else e.result < 0 ∨ e.whole = true

/-! ## The request -/

section Accounts

variable (c : SocketCall) (e : Calls)

/-- The response speaks of the descriptor that the call has made. Kind: L -/
lemma answered_eq_made : answered c e = made c e := by
  have hpos := e.errno_pos
  by_cases hres : 0 ≤ e.result
  · have hret : e.ret = e.result := if_neg (not_lt.mpr hres)
    rw [answered, made, hret]
  · have hret : ¬ 0 ≤ e.ret := by
      rw [Calls.ret, if_pos (not_le.mp hres)]
      omega
    simp [answered, made, hres, hret]

/-- What is told of the work by a projection that knows nothing of the response and of the
connection. Kind: L -/
lemma filterMap_work {f : Event → Option ℕ} (hwrote : ∀ ret whole, f (.wrote ret whole) = none)
    (hclient : f .closedClient = none) (host : Option ℕ) :
    (work c e host).filterMap f =
      (made c e).filterMap (f ∘ .opened) ++
        if e.whole then
          (made c e).flatMap (fun fd => (handOver e fd).filterMap f) ++
            host.toList.filterMap (f ∘ .closed)
        else [] := by
  have hlast : [Event.closedClient].filterMap f = [] := by simp [hclient]
  unfold work
  rw [answered_eq_made, List.filterMap_append, List.filterMap_map,
    List.filterMap_cons_none (hwrote _ _), List.filterMap_append, hlast, List.append_nil]
  split
  case isTrue => rw [List.filterMap_append, List.filterMap_flatMap, List.filterMap_map]
  case isFalse => rfl

/-- What is closed behind a whole response is what was made and what was received. Kind: L -/
lemma closes_work (host : Option ℕ) :
    (work c e host).filterMap Event.closes =
      if e.whole then made c e ++ host.toList else [] := by
  have hhand : ∀ fd, (handOver e fd).filterMap Event.closes = [fd] := by
    intro fd
    unfold handOver
    cases e.sendFd <;> rfl
  rw [filterMap_work c e (fun _ _ => rfl) rfl]
  simp [hhand, Function.comp_def, Event.closes]

/-- What the work on a socket acquires is what it makes. Kind: L -/
lemma acquires_work (host : Option ℕ) :
    (work c e host).filterMap Event.acquires = made c e := by
  have hhand : ∀ fd, (handOver e fd).filterMap Event.acquires = [] := by
    intro fd
    unfold handOver
    cases e.sendFd <;> rfl
  rw [filterMap_work c e (fun _ _ => rfl) rfl]
  simp [hhand, Function.comp_def, Event.acquires]

/-- What is passed to the client. Kind: L -/
lemma passes_work (host : Option ℕ) :
    (work c e host).filterMap Event.passes = if e.whole && e.sendFd then made c e else [] := by
  have hhand : ∀ fd, (handOver e fd).filterMap Event.passes = if e.sendFd then [fd] else [] := by
    intro fd
    unfold handOver
    cases e.sendFd <;> rfl
  rw [filterMap_work c e (fun _ _ => rfl) rfl]
  cases e.whole <;> cases hs : e.sendFd <;> simp [hhand, hs, Function.comp_def, Event.passes]

/-- What the whole request closes and acquires when the body is there. Kind: L -/
lemma serve_of_takesFd (hbody : e.bodyPasses c = true) (htakes : c.takesFd = true) :
    (serve c e).filterMap Event.closes =
        (if e.control.length = 1 ∧ e.whole = true then made c e ++ e.control else []) ∧
      (serve c e).filterMap Event.acquires =
        e.control ++ if e.control.length = 1 then made c e else [] := by
  have hcloses : (e.control.map Event.received).filterMap Event.closes = [] := by
    simp [List.filterMap_map, Function.comp_def, Event.closes]
  have hacquires : (e.control.map Event.received).filterMap Event.acquires = e.control := by
    simp [List.filterMap_map, Function.comp_def, Event.acquires]
  unfold serve
  rw [if_pos hbody, if_pos htakes, List.filterMap_append, List.filterMap_append, hcloses, hacquires]
  -- only a message with one descriptor gets past `recv_fd`
  by_cases hone : e.control.length = 1
  · obtain ⟨fd, hfd⟩ := List.length_eq_one_iff.mp hone
    have hrecv : e.recvFd = some fd := by rw [Calls.recvFd, hfd]
    simp only [hrecv, closes_work, acquires_work, hfd]
    cases e.whole <;> simp
  · have hrecv : e.recvFd = none := by
      unfold Calls.recvFd
      split
      case h_1 fd hfd => exact absurd (by rw [hfd]; rfl) hone
      case h_2 => rfl
    simp only [hrecv, hone, false_and, if_false]
    exact ⟨rfl, rfl⟩

/-- **A request accounts for its descriptors** exactly when the condition holds. Kind: L -/
lemma accounted_serve_iff : Accounted (serve c e) ↔ Clean c e := by
  unfold Accounted Clean
  by_cases hbody : e.bodyPasses c = true
  case neg =>
    rw [serve, if_neg hbody]
    exact iff_of_true (.refl _) fun h => absurd h hbody
  by_cases htakes : c.takesFd = true
  case pos =>
    obtain ⟨hcloses, hacquires⟩ := serve_of_takesFd c e hbody htakes
    rw [hcloses, hacquires, if_pos htakes]
    by_cases hok : e.control.length = 1 ∧ e.whole = true
    · rw [if_pos hok, if_pos hok.1]
      exact iff_of_true List.perm_append_comm fun _ => .inr hok
    · rw [if_neg hok, List.nil_perm, List.append_eq_nil_iff]
      constructor
      · exact fun h _ => .inl h.1
      · intro h
        have hnil : e.control = [] := (h hbody).resolve_right hok
        exact ⟨hnil, by simp [hnil]⟩
  case neg =>
    -- `SOCKET_SOCKET`: only what was made counts
    have hopens : c.opens = true := by cases c <;> first | rfl | exact absurd rfl htakes
    have hmade : made c e = [] ↔ e.result < 0 := by simp [made, hopens]
    rw [serve, if_pos hbody, if_neg htakes, if_neg htakes, closes_work, acquires_work]
    by_cases hwhole : e.whole = true
    · rw [if_pos hwhole]
      exact iff_of_true (by simp) fun _ => .inr hwhole
    · rw [if_neg hwhole, List.nil_perm, hmade]
      constructor
      · exact fun h _ => .inl h
      · exact fun h => (h hbody).resolve_right hwhole

/-- In a list with one event before another, the first stands in front of every place where the
second does. Kind: L -/
lemma mem_of_eq_append_cons {A B pre post : List Event} {w p : Event} (hA : p ∉ A) (hne : p ≠ w)
    (heq : A ++ w :: B = pre ++ p :: post) : w ∈ pre := by
  obtain ⟨as, rfl, hcons⟩ | ⟨as, rfl, hcons⟩ := List.append_eq_append_iff.mp heq
  · cases as with
    | nil => exact absurd (List.cons.inj hcons).1.symm hne
    | cons a as =>
      obtain ⟨rfl, -⟩ := List.cons.inj hcons
      simp
  · cases as with
    | nil => exact absurd (List.cons.inj hcons).1 hne
    | cons a as =>
      obtain ⟨rfl, -⟩ := List.cons.inj hcons
      exact absurd (by simp) hA

/-- A descriptor is passed only when the response was written whole and has `ret >= 0`. Kind: L -/
lemma whole_of_passed_mem_work {host : Option ℕ} {fd : ℕ} (h : .passed fd ∈ work c e host) :
    e.whole = true ∧ 0 ≤ e.ret := by
  cases hwhole : e.whole
  · simp [work, hwhole] at h
  · have hanswered : answered c e ≠ [] := by
      rintro hnil
      simp [work, hwhole, hnil] at h
    refine ⟨rfl, ?_⟩
    by_contra hneg
    exact hanswered (by simp [answered, hneg])

/-- **A descriptor goes out behind the response only.** Kind: L -/
lemma passedAfterReply_serve : PassedAfterReply (serve c e) := by
  -- the work on a socket, behind events that pass nothing
  have hwork : ∀ (A : List Event) (host : Option ℕ), (∀ fd, Event.passed fd ∉ A) →
      PassedAfterReply (A ++ work c e host) := by
    intro A host hA pre fd post heq
    have hmem : .passed fd ∈ work c e host := by
      have : Event.passed fd ∈ A ++ work c e host := by simp [heq]
      exact (List.mem_append.mp this).resolve_left (hA fd)
    obtain ⟨hwhole, hret⟩ := whole_of_passed_mem_work c e hmem
    refine ⟨e.ret, ?_, hret⟩
    rw [work, ← List.append_assoc, hwhole] at heq
    exact mem_of_eq_append_cons (by simp [hA]) (by simp) heq
  have hclosed : ∀ A : List Event, (∀ fd, Event.passed fd ∉ A) →
      PassedAfterReply (A ++ [.closedClient]) := by
    intro A hA pre fd post heq
    have : Event.passed fd ∈ A ++ [.closedClient] := by simp [heq]
    simp [hA] at this
  have hreceived : ∀ fd, Event.passed fd ∉ e.control.map Event.received := by simp
  unfold serve
  split
  case isFalse => exact hclosed [] (by simp)
  case isTrue =>
    split
    case isFalse => exact hwork [] none (by simp)
    case isTrue =>
      cases e.recvFd with
      | none => exact hclosed _ hreceived
      | some fd => exact hwork _ _ hreceived

end Accounts

/-! ## The turn of the loop -/

/-- The results of the calls, as the turn of `HandleRequest` sees them. Kind: D -/
structure Calls.Seen (e : Calls) (E : Env) : Prop where
  bodyRead : E.bodyRead = e.bodyRead
  recvFd : E.succeeds .recvFd = e.recvFd.isSome
  wrote : E.wrote = e.wrote
  fdSent : E.fdSent = e.sendFd
  returnsFd : E.returnsFd = decide (0 ≤ e.result)

/-- The five `case`s of the switch differ in the body, and in the descriptors that they take and
return. Kind: L -/
lemma handler_func (c : SocketCall) :
    handler c.func =
      { Handler.plain c.func [] with
        body := if c.hasBody then .fixed (reqSize c.func) else .none
        takesFd := c.takesFd
        fdAfter := c.opens
        closes := true } := by
  cases c <;> rfl

/-- Reading the body, in both models. Kind: L -/
lemma readBody_cases (c : SocketCall) {e : Calls} {E : Env} (hbody : E.bodyRead = e.bodyRead)
    (size : ℕ) (up : List UInt8) :
    (e.bodyPasses c = true ∧
      ∃ body left, readBody E size up (handler c.func).body = .ok body left) ∨
    (e.bodyPasses c = false ∧
      ∃ left, readBody E size up (handler c.func).body = .failed left .kill) := by
  rw [handler_func]
  unfold Calls.bodyPasses
  cases c.hasBody
  case false => exact .inl ⟨rfl, [], up, rfl⟩
  case true =>
    simp only [if_true, readBody, hbody]
    cases e.bodyRead with
    | none => exact .inl ⟨rfl, _, _, rfl⟩
    | some k =>
      by_cases hk : k < reqSize c.func
      · exact .inr ⟨by simpa using hk, _, if_pos hk⟩
      · exact .inl ⟨by simpa using hk, _, _, if_neg hk⟩

/-- Writing the response, in both models. Kind: L -/
lemma writeReply_eq {c : SocketCall} {e : Calls} {E : Env} (hseen : e.Seen E) (host : Option ℕ)
    (left : List UInt8) :
    (writeReply (handler c.func) E left).fds =
        ((work c e host).filterMap Event.passes).length ∧
      (writeReply (handler c.func) E left).exit = some .kill := by
  have hfour : rspSize c.func = 4 := by cases c <;> rfl
  have hwhole : (E.wrote.any fun n => decide (4 ≤ n)) = e.whole := by rw [hseen.wrote]; rfl
  rw [passes_work, handler_func, writeReply]
  simp only [Handler.plain, replySize, hfour, hwhole, hseen.fdSent, hseen.returnsFd, made]
  cases e.whole <;> cases e.sendFd <;> cases c.opens <;> cases decide (0 ≤ e.result) <;> simp

/-- **The trace belongs to the turn**: as many descriptors are passed as the turn sends, and the
turn closes the connection. Kind: L -/
theorem passed_length_eq {c : SocketCall} {e : Calls} {E : Env} (hseen : e.Seen E) (size : ℕ)
    (up : List UInt8) :
    ((handler c.func).run E size up).fds = ((serve c e).filterMap Event.passes).length ∧
      ((handler c.func).run E size up).exit = some .kill := by
  have htakes : (handler c.func).takesFd = c.takesFd := by rw [handler_func]
  have hchecks : (handler c.func).checks = [] := by rw [handler_func]; rfl
  have hreceived : (e.control.map Event.received).filterMap Event.passes = [] := by
    simp [List.filterMap_map, Function.comp_def, Event.passes]
  unfold Handler.run serve
  obtain ⟨hpass, body, left, hread⟩ | ⟨hpass, left, hread⟩ :=
    readBody_cases c hseen.bodyRead size up
  · simp only [hread, hpass, if_true, htakes, hseen.recvFd, hchecks]
    cases c.takesFd
    · exact writeReply_eq hseen none left
    · simp only [if_true, List.filterMap_append, hreceived]
      cases hrecv : e.recvFd with
      | none => exact ⟨rfl, rfl⟩
      | some fd => exact writeReply_eq hseen (some fd) _
  · simp only [hread, hpass]
    exact ⟨rfl, rfl⟩

/-! ## The accounting -/

/-- **Descriptor accounting for socket requests.** For every request and every outcome of its calls,
a descriptor is passed to the client only behind a whole response with `ret >= 0`. Every descriptor
that was received, made or accepted is closed exactly once if and only if at most one descriptor
arrives with the request, and the response is written whole when there is one to close. Kind: P -/
theorem accounted_iff (c : SocketCall) (e : Calls) :
    (Accounted (serve c e) ↔ Clean c e) ∧ PassedAfterReply (serve c e) :=
  ⟨accounted_serve_iff c e, passedAfterReply_serve c e⟩

/-- The client's listening socket arrives as descriptor 9, `accept` returns 10, and the `write` of
the response fails: neither is closed. And with two descriptors in one message, `recv_fd` fails and
both stay open, while no call has failed. Kind: C -/
theorem accept_leaks :
    let e : Calls := { bodyRead := none, control := [9], result := 10, errno := 4,
                       errno_pos := by decide, wrote := none, sendFd := true }
    serve .accept e = [.received 9, .opened 10, .wrote 10 false, .closedClient] ∧
      ¬ Accounted (serve .accept e) ∧
      serve .bind { e with control := [9, 10], wrote := some 4 } =
        [.received 9, .received 10, .closedClient] ∧
      ¬ Accounted (serve .bind { e with control := [9, 10], wrote := some 4 }) := by
  refine ⟨rfl, ?_, rfl, ?_⟩
  · exact fun h => absurd h.length_eq (by decide)
  · exact fun h => absurd h.length_eq (by decide)

end FreeFlow.Router.SocketFds
