import FreeFlow.Found.Program
import FreeFlow.Found.Run

/-!
# One control channel: client threads and the router

A QP's or SRQ's control channel is a piece of shared memory with a state, a request area and a
response area. A client thread takes the channel's lock, writes its request, spins in
`request_router_shm` until the router has answered, reads the response, sets the state back to
`IDLE` ("must reset the state to IDLE outside this function") and releases the lock. The router's
`CtrlChannelLoop` looks at the state on every pass, and serves the request of a channel that is in
`REQ_DONE`: it reads the request, rewrites it in place, calls the HCA and writes the response.

Every load and store of either side is a step of its own here, and steps interleave freely.

* `State`, `Act`, `step` — the machine: any number of threads, and the router.
* `Exchanges` — what the channel is for: one complete exchange after another, each thread's
  response computed from that thread's request.
* `Good` — who may touch the channel when; `Good.step` — every step of either side keeps it.
* `safe_of_run` — after every run, the events so far are exchanges, the last one possibly not
  finished; the router and the threads never touch the areas at the same time; a channel whose
  lock is free is `IDLE`; a request that has been handed over can be answered by the router alone.

Source: `libibverbs-1.2.1mlnx1/src/freeflow.c` `request_router_shm`; `cmd.c` `ibv_cmd_post_send`,
`ibv_cmd_post_recv`, `ibv_cmd_post_srq_recv`; `ffrouter.cpp` `CtrlChannelLoop` (QP and SRQ pass);
`types.h` `CtrlChannelState`, `CtrlShmPiece`.
-/

namespace FreeFlow.Channel

open FreeFlow.Found

variable {T V R : Type*}

/-! ## The machine -/

/-- `enum CtrlChannelState`. Source: `types.h`. Kind: D -/
inductive CtrlChannelState
  | idle
  | reqDone
  | rspDone
  deriving DecidableEq, Repr

/-- A cell of a `CtrlShmPiece`: of its request or of its response area. Kind: D -/
inductive Cell
  | req (i : ℕ)
  | rsp (i : ℕ)
  deriving DecidableEq, Repr

/-- One post of a client thread: how it builds its request in the channel (the encoders also read
back what they have stored there, such as `num_sge`), and which cells of the response area it reads
afterwards (`bad_wr` and `ret_errno`). Kind: D -/
structure Post (V R : Type*) where
  request : Program Cell V R
  reads : List ℕ

/-- The response as the post reads it. Kind: D -/
def Post.response (p : Post V R) (m : Cell → V) : List V := p.reads.map fun i => m (.rsp i)

/-- Where a client thread is. Kind: D -/
inductive Phase (V R : Type*)
  /-- not in a post -/
  | outside
  /-- inside the lock, with this part of building the request left -/
  | writing (p : Post V R) (rest : Program Cell V R)
  /-- in the loop of `request_router_shm`, about to load the state -/
  | waiting (p : Post V R)
  /-- it has loaded `IDLE` and is about to store `REQ_DONE` -/
  | idleSeen (p : Post V R)
  /-- back from `request_router_shm`, with these cells of the response left to read -/
  | reading (p : Post V R) (todo : List ℕ) (got : List V)
  /-- the state is reset; about to release the lock -/
  | leaving

/-- The thread has loads or stores of the two areas, or the store of `REQ_DONE`, ahead of it before
it looks at the state again. Kind: D -/
def Phase.AtChannel : Phase V R → Prop
  | .writing .. | .idleSeen _ | .reading .. => True
  | .outside | .waiting _ | .leaving => False

/-- Where the router is with respect to this channel: between two visits, or serving a request.
`taken` records the channel as the router found it. Kind: D -/
inductive Router (V R : Type*)
  | scanning
  | serving (taken : Cell → V) (rest : Program Cell V R)

/-- What happened at the channel: a thread handed its request over, the router answered, a thread
had read its response. Kind: D -/
inductive Event (T V R : Type*)
  | handed (t : T) (p : Post V R) (m : Cell → V)
  | served (m n : Cell → V)
  | got (t : T) (response : List V)

/-- The channel, its lock, the threads and the router. `trace` is not part of the program: it
records the events. Kind: D -/
structure State (T V R : Type*) where
  lock : Option T
  state : CtrlChannelState
  shm : Cell → V
  phase : T → Phase V R
  router : Router V R
  trace : List (Event T V R)

/-- A channel as `initCtrlShm` leaves it, not in use yet. Kind: D -/
def State.start (m : Cell → V) : State T V R :=
  { lock := none, state := .idle, shm := m, phase := fun _ => .outside, router := .scanning,
    trace := [] }

/-- The steps. Those of a thread name it. `write t r` is the next load, store or call of a thread
that builds its request, `serve r` that of the router's service, and `r` what a call returns.
Kind: D -/
inductive Act (T V R : Type*)
  | lock (t : T) (p : Post V R)
  | write (t : T) (r : R)
  | enter (t : T)
  | load (t : T)
  | handOver (t : T)
  | fetch (t : T)
  | reset (t : T)
  | unlock (t : T)
  | scan
  | serve (r : R)
  | answer

variable [DecidableEq T]

/-- A thread moves on. Kind: D -/
def State.setPhase (s : State T V R) (t : T) (f : Phase V R) : State T V R :=
  { s with phase := Function.update s.phase t f }

/-- One step. `service` is what the router does with a request of this channel: any program over
the two areas. Source: `request_router_shm` (`load`, `handOver`), its callers (the other thread
steps), `CtrlChannelLoop` (`scan`, `serve`, `answer`). Kind: D -/
def step (service : Program Cell V R) (s : State T V R) : Act T V R → Option (State T V R)
  | .lock t p =>
      match s.lock, s.phase t with
      | none, .outside => some { s.setPhase t (.writing p p.request) with lock := some t }
      | _, _ => none
  | .write t r =>
      match s.phase t with
      | .writing p q =>
          (q.next r s.shm).map fun q' => { s.setPhase t (.writing p q'.1) with shm := q'.2 }
      | _ => none
  | .enter t =>
      match s.phase t with
      | .writing p .done => some (s.setPhase t (.waiting p))
      | _ => none
  | .load t =>
      match s.phase t with
      | .waiting p =>
          match s.state with
          | .idle => some (s.setPhase t (.idleSeen p))
          | .reqDone => some s
          | .rspDone => some (s.setPhase t (.reading p p.reads []))
      | _ => none
  | .handOver t =>
      match s.phase t with
      | .idleSeen p =>
          some { s.setPhase t (.waiting p) with
            state := .reqDone
            trace := s.trace ++ [.handed t p s.shm] }
      | _ => none
  | .fetch t =>
      match s.phase t with
      | .reading p (i :: todo) got =>
          some (s.setPhase t (.reading p todo (got ++ [s.shm (.rsp i)])))
      | _ => none
  | .reset t =>
      match s.phase t with
      | .reading _ [] got =>
          some { s.setPhase t .leaving with state := .idle, trace := s.trace ++ [.got t got] }
      | _ => none
  | .unlock t =>
      match s.phase t with
      | .leaving => some { s.setPhase t .outside with lock := none }
      | _ => none
  | .scan =>
      match s.router, s.state with
      | .scanning, .reqDone => some { s with router := .serving s.shm service }
      | .scanning, _ => some s
      | .serving .., _ => none
  | .serve r =>
      match s.router with
      | .serving m q =>
          (q.next r s.shm).map fun q' => { s with router := .serving m q'.1, shm := q'.2 }
      | .scanning => none
  | .answer =>
      match s.router with
      | .serving m .done =>
          some { s with
            state := .rspDone
            router := .scanning
            trace := s.trace ++ [.served m s.shm] }
      | _ => none

/-! ## What the channel is for -/

/-- A list of events that is one complete exchange after another: a thread builds its request in
the channel and hands it over, the router runs its service on exactly that, and the same thread
reads the response the service left. `m₀` is the channel before, the last argument the channel
after. Kind: D -/
inductive Exchanges (service : Program Cell V R) (m₀ : Cell → V) :
    List (Event T V R) → (Cell → V) → Prop
  | nil : Exchanges service m₀ [] m₀
  | snoc {tr : List (Event T V R)} {m m₁ n : Cell → V} (t : T) (p : Post V R) :
      Exchanges service m₀ tr m → Runs p.request m m₁ → Runs service m₁ n →
      Exchanges service m₀ (tr ++ [.handed t p m₁, .served m₁ n, .got t (p.response n)]) n

/-- The events so far are complete exchanges, then at most the beginning of one more. Kind: D -/
def Sequential (service : Program Cell V R) (m₀ : Cell → V) (trace : List (Event T V R)) : Prop :=
  ∃ tr m, Exchanges service m₀ tr m ∧
    (trace = tr ∨
      ∃ t p m₁, Runs p.request m m₁ ∧
        (trace = tr ++ [.handed t p m₁] ∨
          ∃ n, Runs service m₁ n ∧ trace = tr ++ [.handed t p m₁, .served m₁ n]))

/-- The steps of the threads. Kind: D -/
def Act.OfThread : Act T V R → Prop
  | .scan | .serve _ | .answer => False
  | _ => True

/-- The router's steps from where it is to the end of a service of `k` operations, its calls
answered by `r`. Kind: D -/
def serviceActs (r : ℕ → R) (k : ℕ) : List (Act T V R) :=
  ((List.range k).map fun i => .serve (r i)) ++ [.answer]

/-- The safety of a channel. Kind: D -/
structure Safe (service : Program Cell V R) (m₀ : Cell → V) (s : State T V R) : Prop where
  /-- Every request is served once, and every thread reads the answer to its own. -/
  sequential : Sequential service m₀ s.trace
  /-- While the router serves, no thread is at the request or the response. -/
  undisturbed : ∀ m q, s.router = .serving m q → ∀ t, ¬ (s.phase t).AtChannel
  /-- A channel nobody has locked is idle. -/
  free_idle : s.lock = none → s.state = .idle
  /-- While a request is handed over, the threads can only look at the state. -/
  waits : s.state = .reqDone → ∀ a s', a.OfThread → step service s a = some s' → s' = s
  /-- A request that has been handed over is answered by steps of the router alone, whatever its
  calls return. -/
  answered : s.state = .reqDone → ∀ r : ℕ → R, ∃ start k s', (start = [] ∨ start = [Act.scan]) ∧
    exec (step service) s (start ++ serviceActs r k) = some s' ∧ s'.state = .rspDone ∧
    ∃ m, s'.trace = s.trace ++ [.served m s'.shm]

/-! ## Who is at the channel -/

/-- Nothing is handed over: the channel is the threads'. Kind: D -/
def Quiet (tr : List (Event T V R)) (s : State T V R) : Prop :=
  s.state = .idle ∧ s.router = .scanning ∧ s.trace = tr

/-- A request is handed over: the channel is the router's, which has not seen it yet or is in the
middle of its service. Kind: D -/
def Outstanding (service : Program Cell V R) (tr : List (Event T V R)) (t : T) (p : Post V R)
    (m : Cell → V) (s : State T V R) : Prop :=
  s.state = .reqDone ∧ s.trace = tr ++ [.handed t p m] ∧
    ((s.router = .scanning ∧ s.shm = m) ∨
      ∃ q, s.router = .serving m q ∧ Reaches service m q s.shm)

/-- The request is answered: the channel is the waiting thread's. Kind: D -/
def Answered (service : Program Cell V R) (tr : List (Event T V R)) (t : T) (p : Post V R)
    (m : Cell → V) (s : State T V R) : Prop :=
  s.state = .rspDone ∧ s.router = .scanning ∧ Runs service m s.shm ∧
    s.trace = tr ++ [.handed t p m, .served m s.shm]

/-- What the lock's holder `t` may rely on in each of its phases, when `tr` are the exchanges
before its own and `m` the channel they left. Kind: D -/
def Holder (service : Program Cell V R) (tr : List (Event T V R)) (m : Cell → V) (t : T)
    (s : State T V R) : Phase V R → Prop
  | .outside => False
  | .writing p rest => Quiet tr s ∧ Reaches p.request m rest s.shm
  | .waiting p => ∃ m₁, Runs p.request m m₁ ∧
      ((Quiet tr s ∧ s.shm = m₁) ∨ Outstanding service tr t p m₁ s ∨ Answered service tr t p m₁ s)
  | .idleSeen p => Quiet tr s ∧ Runs p.request m s.shm
  | .reading p todo got => ∃ m₁, Runs p.request m m₁ ∧ Answered service tr t p m₁ s ∧
      got ++ todo.map (fun i => s.shm (.rsp i)) = p.response s.shm
  | .leaving => Quiet tr s ∧ s.shm = m

/-- The invariant: nobody holds the lock and the channel is quiet, or one thread holds it, all
others are outside, and `Holder` says what it may rely on. Kind: D -/
inductive Good (service : Program Cell V R) (m₀ : Cell → V) (s : State T V R) : Prop
  | free : s.lock = none → (∀ t, s.phase t = .outside) → Quiet s.trace s →
      Exchanges service m₀ s.trace s.shm → Good service m₀ s
  | held {tr : List (Event T V R)} {m : Cell → V} (t : T) : s.lock = some t →
      (∀ u, u ≠ t → s.phase u = .outside) → Exchanges service m₀ tr m →
      Holder service tr m t s (s.phase t) → Good service m₀ s

variable {service : Program Cell V R} {m₀ : Cell → V} {s s' : State T V R}

/-- A thread inside a post is the lock's holder. Kind: L -/
lemma Good.holder (h : Good service m₀ s) {t : T} {f : Phase V R} (hf : s.phase t = f)
    (hne : f ≠ .outside) :
    s.lock = some t ∧ (∀ u, u ≠ t → s.phase u = .outside) ∧
      ∃ tr m, Exchanges service m₀ tr m ∧ Holder service tr m t s f := by
  cases h with
  | free hlock hout hq he => exact absurd (hf.symm.trans (hout t)) hne
  | held u hlock hout he hh =>
      have htu : t = u := by
        by_contra hcon
        exact hne (hf.symm.trans (hout t hcon))
      subst htu
      rw [hf] at hh
      exact ⟨hlock, hout, _, _, he, hh⟩

omit [DecidableEq T] in
/-- A request is handed over exactly while the lock's holder waits for it. Kind: L -/
lemma Good.outstanding (h : Good service m₀ s)
    (hs : s.state = .reqDone ∨ s.router ≠ .scanning) :
    ∃ t p tr m m₁, s.lock = some t ∧ (∀ u, u ≠ t → s.phase u = .outside) ∧
      s.phase t = .waiting p ∧ Exchanges service m₀ tr m ∧ Runs p.request m m₁ ∧
      Outstanding service tr t p m₁ s := by
  have hquiet : ∀ tr, ¬ Quiet tr s := by
    rintro tr ⟨hst, hr, -⟩
    rcases hs with hs | hs
    · rw [hst] at hs
      exact CtrlChannelState.noConfusion hs
    · exact hs hr
  have hanswered : ∀ tr t p m, ¬ Answered service tr t p m s := by
    rintro tr t p m ⟨hst, hr, -⟩
    rcases hs with hs | hs
    · rw [hst] at hs
      exact CtrlChannelState.noConfusion hs
    · exact hs hr
  cases h with
  | free hlock hout hq he => exact absurd hq (hquiet _)
  | @held tr m t hlock hout he hh =>
      cases hf : s.phase t with
      | outside => rw [hf] at hh; exact hh.elim
      | writing p rest => rw [hf] at hh; exact absurd hh.1 (hquiet _)
      | idleSeen p => rw [hf] at hh; exact absurd hh.1 (hquiet _)
      | reading p todo got =>
          rw [hf] at hh
          obtain ⟨m₁, -, hans, -⟩ := hh
          exact absurd hans (hanswered _ _ _ _)
      | leaving => rw [hf] at hh; exact absurd hh.1 (hquiet _)
      | waiting p =>
          rw [hf] at hh
          obtain ⟨m₁, hreq, hh | hh | hh⟩ := hh
          · exact absurd hh.1 (hquiet _)
          · exact ⟨t, p, tr, m, m₁, hlock, hout, hf, he, hreq, hh⟩
          · exact absurd hh (hanswered _ _ _ _)

/-- A move of the holder, which keeps the lock. Kind: L -/
lemma Good.move {tr : List (Event T V R)} {m : Cell → V} {t : T} {f : Phase V R}
    (hlock : s'.lock = some t) (hphase : s'.phase = Function.update s.phase t f)
    (hout : ∀ u, u ≠ t → s.phase u = .outside) (he : Exchanges service m₀ tr m)
    (hh : Holder service tr m t s' f) : Good service m₀ s' := by
  refine .held t hlock ?_ he ?_
  · intro u hu
    rw [hphase, Function.update_of_ne hu]
    exact hout u hu
  · rw [hphase, Function.update_self]
    exact hh

/-! ## Every step keeps the invariant -/

/-- The lock is taken on a quiet channel. Kind: L -/
lemma Good.lock (h : Good service m₀ s) {t : T} {p : Post V R}
    (hs : step service s (.lock t p) = some s') : Good service m₀ s' := by
  simp only [Channel.step] at hs
  split at hs
  next hlock hf =>
    cases hs
    cases h with
    | free _ hout hq he =>
        exact .move rfl rfl (fun u _ => hout u) he ⟨hq, .refl⟩
    | held u hlock' _ _ _ => exact absurd (hlock.symm.trans hlock') (by simp)
  next => cases hs

/-- The holder takes one operation of building its request. Kind: L -/
lemma Good.write (h : Good service m₀ s) {t : T} {r : R}
    (hs : step service s (.write t r) = some s') : Good service m₀ s' := by
  simp only [Channel.step] at hs
  split at hs
  next p q hf =>
    obtain ⟨q', hq', rfl⟩ := Option.map_eq_some_iff.mp hs
    obtain ⟨hlock, hout, tr, m, he, hq, hw⟩ := h.holder hf (by simp)
    exact .move hlock rfl hout he ⟨hq, hw.tail r hq'⟩
  next => cases hs

/-- The request is complete when the holder enters `request_router_shm`. Kind: L -/
lemma Good.enter (h : Good service m₀ s) {t : T}
    (hs : step service s (.enter t) = some s') : Good service m₀ s' := by
  simp only [Channel.step] at hs
  split at hs
  next p hf =>
    cases hs
    obtain ⟨hlock, hout, tr, m, he, hq, hw⟩ := h.holder hf (by simp)
    exact .move hlock rfl hout he ⟨s.shm, hw, .inl ⟨hq, rfl⟩⟩
  next => cases hs

/-- The holder looks at the state: it may hand over, spin on, or leave with an answer. Kind: L -/
lemma Good.load (h : Good service m₀ s) {t : T}
    (hs : step service s (.load t) = some s') : Good service m₀ s' := by
  simp only [Channel.step] at hs
  split at hs
  next p hf =>
    obtain ⟨hlock, hout, tr, m, he, m₁, hreq, hh⟩ := h.holder hf (by simp)
    split at hs
    next hst =>
      cases hs
      rcases hh with ⟨hq, rfl⟩ | hh | hh
      · exact .move hlock rfl hout he ⟨hq, hreq⟩
      · exact absurd (hst.symm.trans hh.1) (by simp)
      · exact absurd (hst.symm.trans hh.1) (by simp)
    next hst =>
      cases hs
      exact h
    next hst =>
      cases hs
      rcases hh with hh | hh | hh
      · exact absurd (hst.symm.trans hh.1.1) (by simp)
      · exact absurd (hst.symm.trans hh.1) (by simp)
      · exact .move hlock rfl hout he ⟨m₁, hreq, hh, rfl⟩
  next => cases hs

/-- The holder hands the channel over with its request in it. Kind: L -/
lemma Good.handOver (h : Good service m₀ s) {t : T}
    (hs : step service s (.handOver t) = some s') : Good service m₀ s' := by
  simp only [Channel.step] at hs
  split at hs
  next p hf =>
    cases hs
    obtain ⟨hlock, hout, tr, m, he, ⟨-, hr, htr⟩, hreq⟩ := h.holder hf (by simp)
    refine .move hlock rfl hout he ⟨s.shm, hreq, .inr (.inl ⟨rfl, ?_, .inl ⟨hr, rfl⟩⟩)⟩
    simp only [htr]
  next => cases hs

/-- The holder reads one cell of the response. Kind: L -/
lemma Good.fetch (h : Good service m₀ s) {t : T}
    (hs : step service s (.fetch t) = some s') : Good service m₀ s' := by
  simp only [Channel.step] at hs
  split at hs
  next p i todo got hf =>
    cases hs
    obtain ⟨hlock, hout, tr, m, he, m₁, hreq, ha, hgot⟩ := h.holder hf (by simp)
    refine .move hlock rfl hout he ⟨m₁, hreq, ha, ?_⟩
    rw [List.append_assoc]
    exact hgot
  next => cases hs

/-- The holder has its whole response, which closes its exchange. Kind: L -/
lemma Good.reset (h : Good service m₀ s) {t : T}
    (hs : step service s (.reset t) = some s') : Good service m₀ s' := by
  simp only [Channel.step] at hs
  split at hs
  next p got hf =>
    cases hs
    obtain ⟨hlock, hout, tr, m, he, m₁, hreq, ⟨-, hr, hrun, htr⟩, hgot⟩ := h.holder hf (by simp)
    refine .move hlock rfl hout (he.snoc t p hreq hrun) ⟨⟨rfl, hr, ?_⟩, rfl⟩
    rw [List.map_nil, List.append_nil] at hgot
    simp only [htr, hgot, List.append_assoc, List.cons_append, List.nil_append]
  next => cases hs

/-- The lock is released on a quiet channel. Kind: L -/
lemma Good.unlock (h : Good service m₀ s) {t : T}
    (hs : step service s (.unlock t) = some s') : Good service m₀ s' := by
  simp only [Channel.step] at hs
  split at hs
  next hf =>
    cases hs
    obtain ⟨hlock, hout, tr, m, he, ⟨hst, hr, htr⟩, hm⟩ := h.holder hf (by simp)
    refine .free rfl ?_ ⟨hst, hr, rfl⟩ ?_
    · intro u
      by_cases hu : u = t
      · subst hu
        exact Function.update_self ..
      · exact (Function.update_of_ne hu ..).trans (hout u hu)
    · simp only [State.setPhase, htr, hm]
      exact he
  next => cases hs

/-- The router visits the channel, and takes the request if there is one. Kind: L -/
lemma Good.scan (h : Good service m₀ s) (hs : step service s .scan = some s') :
    Good service m₀ s' := by
  simp only [Channel.step] at hs
  split at hs
  next hr hst =>
    cases hs
    obtain ⟨t, p, tr, m, m₁, hlock, hout, hf, he, hreq, -, htr, hserv⟩ := h.outstanding (.inl hst)
    rcases hserv with ⟨-, rfl⟩ | ⟨q, hq, -⟩
    · refine .held t hlock hout he ?_
      rw [show _ = Phase.waiting p from hf]
      exact ⟨s.shm, hreq, .inr (.inl ⟨hst, htr, .inr ⟨service, rfl, .refl⟩⟩)⟩
    · exact absurd (hr.symm.trans hq) (by simp)
  next => cases hs; exact h
  next => cases hs

/-- One operation of the router's service: nobody else is at the channel. Kind: L -/
lemma Good.serve (h : Good service m₀ s) {r : R} (hs : step service s (.serve r) = some s') :
    Good service m₀ s' := by
  simp only [Channel.step] at hs
  split at hs
  next m' q hr =>
    obtain ⟨q', hq', rfl⟩ := Option.map_eq_some_iff.mp hs
    obtain ⟨t, p, tr, m, m₁, hlock, hout, hf, he, hreq, hst, htr, hserv⟩ :=
      h.outstanding (.inr (by rw [hr]; simp))
    rcases hserv with ⟨hscan, -⟩ | ⟨q'', hr', hreach⟩
    · exact absurd (hr.symm.trans hscan) (by simp)
    · obtain ⟨rfl, rfl⟩ := Router.serving.inj (hr.symm.trans hr')
      refine .held t hlock hout he ?_
      rw [show _ = Phase.waiting p from hf]
      exact ⟨m', hreq, .inr (.inl ⟨hst, htr, .inr ⟨q'.1, rfl, hreach.tail r hq'⟩⟩)⟩
  next => cases hs

/-- The router's service has ended, and it hands the channel back. Kind: L -/
lemma Good.answer (h : Good service m₀ s) (hs : step service s .answer = some s') :
    Good service m₀ s' := by
  simp only [Channel.step] at hs
  split at hs
  next m' hr =>
    cases hs
    obtain ⟨t, p, tr, m, m₁, hlock, hout, hf, he, hreq, hst, htr, hserv⟩ :=
      h.outstanding (.inr (by rw [hr]; simp))
    rcases hserv with ⟨hscan, -⟩ | ⟨q, hr', hreach⟩
    · exact absurd (hr.symm.trans hscan) (by simp)
    · obtain ⟨rfl, rfl⟩ := Router.serving.inj (hr.symm.trans hr')
      refine .held t hlock hout he ?_
      rw [show _ = Phase.waiting p from hf]
      refine ⟨m', hreq, .inr (.inr ⟨rfl, rfl, hreach, ?_⟩)⟩
      simp only [htr, List.append_assoc, List.cons_append, List.nil_append]
  next => cases hs

/-- **Every step of a thread or of the router keeps the invariant.** Kind: P -/
theorem Good.step (h : Good service m₀ s) {a : Act T V R} (hs : step service s a = some s') :
    Good service m₀ s' := by
  cases a with
  | lock t p => exact h.lock hs
  | write t r => exact h.write hs
  | enter t => exact h.enter hs
  | load t => exact h.load hs
  | handOver t => exact h.handOver hs
  | fetch t => exact h.fetch hs
  | reset t => exact h.reset hs
  | unlock t => exact h.unlock hs
  | scan => exact h.scan hs
  | serve r => exact h.serve hs
  | answer => exact h.answer hs

/-! ## The router alone answers a request -/

/-- Operations of the service, taken one after the other. Kind: L -/
lemma exec_serve (r : ℕ → R) (k : ℕ) {q q' : Program Cell V R} {m n : Cell → V}
    (hr : s.router = .serving m q) (hk : q.steps r k s.shm = some (q', n)) :
    exec (step service) s ((List.range k).map fun i => .serve (r i)) =
      some { s with router := .serving m q', shm := n } := by
  induction k generalizing s q r with
  | zero =>
      obtain ⟨rfl, rfl⟩ := Prod.mk.inj (Option.some.inj hk)
      rw [← hr]
      rfl
  | succ k ih =>
      obtain ⟨q₁, hq₁, hk'⟩ := Option.bind_eq_some_iff.mp hk
      rw [List.range_succ_eq_map, List.map_cons, List.map_map, exec]
      have hfirst : Channel.step service s (.serve (r 0)) =
          some { s with router := .serving m q₁.1, shm := q₁.2 } := by
        simp only [Channel.step, hr, hq₁, Option.map_some]
      rw [hfirst, Option.bind_some]
      exact ih (fun i => r (i + 1)) rfl hk'

/-- A service in progress ends with the router's answer. Kind: L -/
lemma exec_serviceActs (service : Program Cell V R) (r : ℕ → R) {q : Program Cell V R}
    {m : Cell → V} (hr : s.router = .serving m q) :
    ∃ k s', exec (step service) s (serviceActs r k) = some s' ∧ s'.state = .rspDone ∧
      s'.trace = s.trace ++ [.served m s'.shm] := by
  obtain ⟨k, n, hk⟩ := q.steps_to_done r s.shm
  refine ⟨k, ?_⟩
  rw [serviceActs, exec_append, exec_serve r k hr hk, Option.bind_some]
  exact ⟨_, rfl, rfl, rfl⟩

/-- A request that has been handed over is answered by the router alone. Kind: L -/
lemma Good.answered (h : Good service m₀ s) (hst : s.state = .reqDone) (r : ℕ → R) :
    ∃ start k s', (start = [] ∨ start = [Act.scan]) ∧
      exec (Channel.step service) s (start ++ serviceActs r k) = some s' ∧ s'.state = .rspDone ∧
      ∃ m, s'.trace = s.trace ++ [.served m s'.shm] := by
  obtain ⟨t, p, tr, m, m₁, -, -, -, -, -, -, -, ⟨hr, -⟩ | ⟨q, hr, -⟩⟩ := h.outstanding (.inl hst)
  · -- the router still has to visit the channel
    have hscan : Channel.step service s .scan =
        some { s with router := .serving s.shm service } := by
      simp only [Channel.step, hr, hst]
    obtain ⟨k, s', hrun, hs', htr⟩ := exec_serviceActs service
      (s := { s with router := .serving s.shm service }) r rfl
    refine ⟨[.scan], k, s', .inr rfl, ?_, hs', _, htr⟩
    rw [List.cons_append, List.nil_append, exec, hscan, Option.bind_some]
    exact hrun
  · obtain ⟨k, s', hrun, hs', htr⟩ := exec_serviceActs service r hr
    exact ⟨[], k, s', .inl rfl, hrun, hs', _, htr⟩

/-! ## Safety of every run -/

/-- While a request is handed over, a thread is outside and finds the channel locked, or waits and
finds `REQ_DONE`. Kind: L -/
lemma Good.waits (h : Good service m₀ s) (hst : s.state = .reqDone) {a : Act T V R}
    (ha : a.OfThread) (hs : Channel.step service s a = some s') : s' = s := by
  obtain ⟨u, p, -, -, -, hlock, hout, hf, -⟩ := h.outstanding (.inl hst)
  have hphase : ∀ t, s.phase t = .outside ∨ s.phase t = .waiting p := by
    intro t
    by_cases htu : t = u
    · exact .inr (htu ▸ hf)
    · exact .inl (hout t htu)
  cases a with
  | lock t p => simp [Channel.step, hlock] at hs
  | load t =>
      rcases hphase t with ht | ht <;> simp [Channel.step, ht, hst] at hs
      exact hs.symm
  | write t r | enter t | handOver t | fetch t | reset t | unlock t =>
      rcases hphase t with ht | ht <;> simp [Channel.step, ht] at hs
  | scan | serve r | answer => exact ha.elim

omit [DecidableEq T] in
/-- The invariant says which exchange the trace is in. Kind: L -/
lemma Good.sequential (h : Good service m₀ s) : Sequential service m₀ s.trace := by
  cases h with
  | free hlock hout hq he => exact ⟨_, _, he, .inl rfl⟩
  | @held tr m t hlock hout he hh =>
      refine ⟨tr, m, he, ?_⟩
      revert hh
      cases s.phase t with
      | outside => exact False.elim
      | writing p rest => exact fun hh => .inl hh.1.2.2
      | idleSeen p => exact fun hh => .inl hh.1.2.2
      | leaving => exact fun hh => .inl hh.1.2.2
      | reading p todo got =>
          rintro ⟨m₁, hreq, ⟨-, -, hrun, htr⟩, -⟩
          exact .inr ⟨t, p, m₁, hreq, .inr ⟨_, hrun, htr⟩⟩
      | waiting p =>
          rintro ⟨m₁, hreq, ⟨⟨-, -, htr⟩, -⟩ | ⟨-, htr, -⟩ | ⟨-, -, hrun, htr⟩⟩
          · exact .inl htr
          · exact .inr ⟨t, p, m₁, hreq, .inl htr⟩
          · exact .inr ⟨t, p, m₁, hreq, .inr ⟨_, hrun, htr⟩⟩

omit [DecidableEq T] in
/-- While the router serves, the only thread inside a post waits. Kind: L -/
lemma Good.undisturbed (h : Good service m₀ s) {m : Cell → V} {q : Program Cell V R}
    (hr : s.router = .serving m q) (t : T) : ¬ (s.phase t).AtChannel := by
  obtain ⟨u, p, -, -, -, -, hout, hf, -⟩ := h.outstanding (.inr (by rw [hr]; simp))
  intro hat
  by_cases htu : t = u
  · rw [htu, hf] at hat
    exact hat
  · rw [hout t htu] at hat
    exact hat

omit [DecidableEq T] in
/-- A channel nobody has locked is idle. Kind: L -/
lemma Good.free_idle (h : Good service m₀ s) (hfree : s.lock = none) : s.state = .idle := by
  cases h with
  | free _ _ hq _ => exact hq.1
  | held t hlock => exact absurd (hfree.symm.trans hlock) (by simp)

/-- **The channel is safe in every run.** For any number of threads, any posts (any programs that
build requests), any service program of the router and any interleaving of single loads and stores:
the events at the channel are complete exchanges followed by at most the beginning of one, so every
request is served once and every thread reads the response computed from its own request; the
router never works on the request or the response while a thread is at them; a free channel is
`IDLE`; and a request that has been handed over stays as it is until the router, by its own steps,
has answered it. Kind: P -/
theorem safe_of_run (service : Program Cell V R) (m₀ : Cell → V) (as : List (Act T V R))
    (s : State T V R) (hrun : exec (step service) (State.start m₀) as = some s) :
    Safe service m₀ s := by
  have hstart : Good service m₀ (State.start m₀ : State T V R) :=
    .free rfl (fun _ => rfl) ⟨rfl, rfl, rfl⟩ .nil
  have hgood : Good service m₀ s :=
    exec_invariant (fun _ _ _ hg hs => hg.step hs) hstart hrun
  exact
    { sequential := hgood.sequential
      undisturbed := fun _ _ hr t => hgood.undisturbed hr t
      free_idle := hgood.free_idle
      waits := fun hst _ _ ha hs => hgood.waits hst ha hs
      answered := hgood.answered }

/-- A service that answers a request with its successor, after a call. Kind: C -/
def sampleService : Program Cell ℕ ℕ :=
  .read (.req 0) fun v => .write (.req 0) 0 (.call fun e => .write (.rsp 0) (v + 1)
    (.write (.rsp 1) e .done))

/-- The post of the number `v`, which is stored, read back and stored once more. Kind: C -/
def samplePost (v : ℕ) : Post ℕ ℕ :=
  { request := .write (.req 0) v (.read (.req 0) fun w => .write (.req 1) w .done)
    reads := [0, 1] }

/-- Thread `false` posts 4; thread `true` posts 7 as soon as the lock is free. Kind: C -/
def sampleRun : List (Act Bool ℕ ℕ) :=
  [.lock false (samplePost 4), .scan, .write false 0, .write false 0, .write false 0, .enter false,
    .load false, .handOver false, .load false, .scan, .serve 0, .load false, .serve 0, .serve 9,
    .serve 0, .serve 0, .answer, .load false, .fetch false, .scan, .fetch false, .reset false,
    .unlock false, .lock true (samplePost 7), .write true 0, .write true 0, .write true 0,
    .enter true, .load true, .handOver true, .scan, .serve 0]

/-- The state after `sampleRun`, with thread `true`'s request being served. Kind: C -/
def sampleState : State Bool ℕ ℕ :=
  ((exec (step sampleService) (State.start fun _ => 0) sampleRun)).getD (State.start fun _ => 0)

/-- Two threads' exchanges, the second one in progress: the first thread has read 5 and 9, the
router is serving, and the channel is safe. Kind: C -/
theorem safe_of_run_two_threads :
    exec (step sampleService) (State.start fun _ => 0) sampleRun = some sampleState ∧
      sampleState.state = .reqDone ∧ sampleState.lock = some true ∧
      (∃ m₁ m₂ m₃ n, sampleState.trace =
        [.handed false (samplePost 4) m₁, .served m₂ n, .got false [5, 9],
          .handed true (samplePost 7) m₃]) ∧
      Safe sampleService (fun _ => 0) sampleState :=
  ⟨rfl, rfl, rfl, ⟨_, _, _, _, rfl⟩, safe_of_run sampleService (fun _ => 0) sampleRun _ rfl⟩

end FreeFlow.Channel
