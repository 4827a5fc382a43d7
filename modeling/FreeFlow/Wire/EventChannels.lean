import FreeFlow.Found.Run
import FreeFlow.Verbs.Layout
import Mathlib.Data.Set.Function
import Mathlib.Data.List.Perm.Basic

/-!
# Event channels of a client

A client makes an event channel by a request to the router, which opens one of its own, enters it in
its `event_channel_map` under its descriptor, and passes the descriptor over the socket. The client
enters the router's number in a map of its own, under the number it received. To destroy a channel
the client should send `CM_DESTROY_EVENT_CHANNEL`; what it sends is `CM_CREATE_EVENT_CHANNEL`.

Synchronous ids create and destroy their channel by the same two functions.

* `exchange` — the request, the router's work and the client's map.
* `Act`, `step` — calls of the two functions, with the numbers the kernels choose.
* `Corresponds` — the client's live channels and the router's entries correspond one to one.
* `opened_length_of_exec` — every run leaves two channels too many in the router for every
  destruction, and one for every descriptor that is lost on the way.
* `corresponds_iff` — so the correspondence holds exactly after the runs without either.

Source: `cma.c` `rdma_create_event_channel`, `rdma_destroy_event_channel`; `freeflow.c`
`request_router`, `recv_fd`; `ffrouter.cpp` `HandleRequest` (`CM_CREATE_EVENT_CHANNEL`).
-/

namespace FreeFlow.Wire.EventChannels

open FreeFlow.Found FreeFlow.Verbs

/-! ## Calls -/

/-- The router: the descriptors of the channels it has open for the client, and which entries of
`event_channel_map` are set. The client: `event_channel_map`, the descriptors it has received, and
its channels that were created and not destroyed. Kind: D -/
structure State where
  opened : List ℕ
  routerMap : ℕ → Bool
  clientMap : ℕ → ℤ
  received : List ℕ
  live : List ℕ

/-- `request_router(CM_CREATE_EVENT_CHANNEL, ...)`. The router's kernel chooses `routerFd`, the
client's kernel the number `clientFd` under which `recv_fd` gets it; both are numbers of no open
channel. `clientFd` is `none` when `send_fd` or `recv_fd` fails, which neither side acts upon.
Source: `freeflow.c` `request_router`; `ffrouter.cpp` `HandleRequest` (`CM_CREATE_EVENT_CHANNEL`)
Kind: D -/
def exchange (s : State) (routerFd : ℕ) (clientFd : Option ℕ) : Option State := do
  guard (routerFd ∉ s.opened ∧ ∀ c ∈ clientFd, c ∉ s.received)
  some { s with
    opened := s.opened ++ [routerFd]
    routerMap :=
      if routerFd < mapSize then Function.update s.routerMap routerFd true else s.routerMap
    clientMap := clientFd.elim s.clientMap fun c => Function.update s.clientMap c routerFd
    received := s.received ++ clientFd.toList }

/-- A call of `rdma_create_event_channel`, which may run out of memory before its request, or of
`rdma_destroy_event_channel` for the channel with descriptor `c`. Kind: D -/
inductive Act
  | noMemory
  | create (routerFd : ℕ) (clientFd : Option ℕ)
  | destroy (c routerFd : ℕ) (clientFd : Option ℕ)
  deriving DecidableEq, Repr

/-- **One call.** The destruction sends the request of a creation, and does not close the
descriptor.
Source: `cma.c` `rdma_create_event_channel`, `rdma_destroy_event_channel`
Kind: D -/
def step (s : State) : Act → Option State
  | .noMemory => some s
  | .create routerFd clientFd => do
      let s ← exchange s routerFd clientFd
      some { s with live := s.live ++ clientFd.toList }
  | .destroy c routerFd clientFd => do
      guard (c ∈ s.live)
      let s ← exchange s routerFd clientFd
      some { s with live := s.live.erase c }

/-- Before the first call: all of the client's map is -1. Kind: D -/
def State.start : State := ⟨[], fun _ => false, fun _ => -1, [], []⟩

/-- **One to one**: the client's map takes its live channels to the entries of the router's map,
each to another one, and reaches all of them. Kind: D -/
def Corresponds (s : State) : Prop :=
  Set.BijOn s.clientMap {c | c ∈ s.live} {z | ∃ fd : ℕ, s.routerMap fd = true ∧ z = fd}

/-- The numbers of the call are indices of the two maps. Kind: D -/
def Act.InMaps : Act → Prop
  | .noMemory => True
  | .create routerFd clientFd | .destroy _ routerFd clientFd =>
      routerFd < mapSize ∧ ∀ c ∈ clientFd, c < mapSize

/-- The call is a creation that got its descriptor, or did nothing. Kind: D -/
def Act.Creates : Act → Prop
  | .noMemory => True
  | .create _ clientFd => clientFd.isSome = true
  | .destroy _ _ _ => False

/-- How many channels a call leaves in the router beyond those of the client. Kind: D -/
def Act.excess : Act → ℕ
  | .noMemory => 0
  | .create _ clientFd => if clientFd.isSome then 0 else 1
  | .destroy _ _ _ => 2

/-! ## Steps -/

/-- What an exchange does. Kind: L -/
lemma exchange_eq_some_iff {s s' : State} {routerFd : ℕ} {clientFd : Option ℕ} :
    exchange s routerFd clientFd = some s' ↔
      (routerFd ∉ s.opened ∧ ∀ c ∈ clientFd, c ∉ s.received) ∧
      s' = { s with
        opened := s.opened ++ [routerFd]
        routerMap :=
          if routerFd < mapSize then Function.update s.routerMap routerFd true else s.routerMap
        clientMap := clientFd.elim s.clientMap fun c => Function.update s.clientMap c routerFd
        received := s.received ++ clientFd.toList } := by
  simp only [exchange, Option.bind_eq_bind, Option.bind_eq_some_iff, Option.guard_eq_some',
    Option.some.injEq]
  constructor
  · rintro ⟨-, hguard, rfl⟩
    exact ⟨hguard, rfl⟩
  · rintro ⟨hguard, rfl⟩
    exact ⟨(), hguard, rfl⟩

/-- **Bookkeeping of all runs**: the router's map has the channels that are open, every descriptor
was received once, and the live channels are among them. Kind: D -/
structure Accounted (s : State) : Prop where
  opened_nodup : s.opened.Nodup
  routerMap : ∀ fd, s.routerMap fd = true ↔ fd ∈ s.opened
  live_nodup : s.live.Nodup
  live_sub : ∀ c ∈ s.live, c ∈ s.received

/-- An exchange with a number that fits the map. Kind: L -/
lemma Accounted.exchange {s s' : State} (h : Accounted s) {routerFd : ℕ} {clientFd : Option ℕ}
    (hfit : routerFd < mapSize) (hs : exchange s routerFd clientFd = some s') : Accounted s' := by
  obtain ⟨⟨hnew, -⟩, rfl⟩ := exchange_eq_some_iff.mp hs
  obtain ⟨hopened, hmap, hlive, hsub⟩ := h
  refine ⟨?_, fun fd => ?_, hlive, fun c hc => List.mem_append_left _ (hsub c hc)⟩
  · exact List.nodup_append.mpr ⟨hopened, List.nodup_singleton _, fun x hx y hy heq =>
      hnew ((List.mem_singleton.mp hy) ▸ heq ▸ hx)⟩
  · simp only [if_pos hfit, List.mem_append, List.mem_singleton]
    rcases eq_or_ne fd routerFd with rfl | hne
    · simp
    · simp [hmap, hne]

/-- **One call** keeps the books. Kind: P -/
lemma accounted_step {s s' : State} {a : Act} (h : Accounted s) (ha : a.InMaps)
    (hs : step s a = some s') : Accounted s' := by
  cases a with
  | noMemory =>
      cases hs
      exact h
  | create routerFd clientFd =>
      simp only [step, Option.bind_eq_bind, Option.bind_eq_some_iff, Option.some.injEq] at hs
      obtain ⟨t, ht, rfl⟩ := hs
      obtain ⟨hopened, hmap, hlive, hsub⟩ := h.exchange ha.1 ht
      obtain ⟨⟨-, hfresh⟩, rfl⟩ := exchange_eq_some_iff.mp ht
      refine ⟨hopened, hmap, ?_, fun c hc => ?_⟩
      · cases clientFd with
        | none => simpa using hlive
        | some c =>
            refine List.nodup_append.mpr ⟨hlive, List.nodup_singleton _, fun x hx y hy heq => ?_⟩
            rw [Option.toList_some, List.mem_singleton] at hy
            exact hfresh c rfl (hy ▸ heq ▸ h.live_sub x hx)
      · rcases List.mem_append.mp hc with hc | hc
        · exact hsub c hc
        · exact List.mem_append_right _ hc
  | destroy c routerFd clientFd =>
      simp only [step, Option.bind_eq_bind, Option.bind_eq_some_iff, Option.guard_eq_some',
        Option.some.injEq] at hs
      obtain ⟨-, -, t, ht, rfl⟩ := hs
      obtain ⟨hopened, hmap, hlive, hsub⟩ := h.exchange ha.1 ht
      exact ⟨hopened, hmap, hlive.erase c, fun x hx => hsub x (List.mem_of_mem_erase hx)⟩

/-- How the two numbers of channels change. Kind: L -/
lemma opened_length_step {s s' : State} {a : Act} (hs : step s a = some s') :
    s'.opened.length + s.live.length = s.opened.length + s'.live.length + a.excess := by
  cases a with
  | noMemory =>
      cases hs
      rfl
  | create routerFd clientFd =>
      simp only [step, Option.bind_eq_bind, Option.bind_eq_some_iff, Option.some.injEq] at hs
      obtain ⟨t, ht, rfl⟩ := hs
      obtain ⟨-, rfl⟩ := exchange_eq_some_iff.mp ht
      cases clientFd <;> simp [Act.excess] <;> omega
  | destroy c routerFd clientFd =>
      simp only [step, Option.bind_eq_bind, Option.bind_eq_some_iff, Option.guard_eq_some',
        Option.some.injEq] at hs
      obtain ⟨-, hc, t, ht, rfl⟩ := hs
      obtain ⟨-, rfl⟩ := exchange_eq_some_iff.mp ht
      have hpos : 0 < s.live.length := List.length_pos_of_mem hc
      simp only [List.length_append, List.length_singleton, List.length_erase_of_mem hc,
        Act.excess]
      omega

/-- **Bookkeeping of runs of creations**: the client's map has the router's numbers in the order of
the live channels. Kind: D -/
structure Paired (s : State) : Prop extends Accounted s where
  pairs : s.live.map s.clientMap = s.opened.map ((↑) : ℕ → ℤ)

/-- A creation that got its descriptor extends the two lists and the map by a pair. Kind: P -/
lemma paired_step {s s' : State} {a : Act} (h : Paired s) (ha : a.InMaps ∧ a.Creates)
    (hs : step s a = some s') : Paired s' := by
  refine ⟨accounted_step h.toAccounted ha.1 hs, ?_⟩
  cases a with
  | noMemory =>
      cases hs
      exact h.pairs
  | create routerFd clientFd =>
      obtain ⟨c, rfl⟩ := Option.isSome_iff_exists.mp ha.2
      simp only [step, Option.bind_eq_bind, Option.bind_eq_some_iff, Option.some.injEq] at hs
      obtain ⟨t, ht, rfl⟩ := hs
      obtain ⟨⟨-, hfresh⟩, rfl⟩ := exchange_eq_some_iff.mp ht
      have hold : s.live.map (Function.update s.clientMap c routerFd) = s.live.map s.clientMap :=
        List.map_congr_left fun x hx => Function.update_of_ne
          (fun heq : x = c => hfresh c rfl (heq ▸ h.live_sub x hx)) _ _
      simp [hold, h.pairs]
  | destroy c routerFd clientFd => exact ha.2.elim

/-! ## Runs -/

/-- **The balance of a run.** Kind: P -/
theorem opened_length_of_exec {as : List Act} {s t : State} (hrun : exec step s as = some t) :
    t.opened.length + s.live.length =
      s.opened.length + t.live.length + (as.map Act.excess).sum := by
  induction as generalizing s with
  | nil =>
      rw [exec, Option.some.injEq] at hrun
      subst hrun
      rfl
  | cons a as ih =>
      obtain ⟨s', hs', hrun'⟩ := (exec_cons_eq_some step).mp hrun
      have hstep := opened_length_step hs'
      have hrest := ih hrun'
      rw [List.map_cons, List.sum_cons]
      omega

/-- The client has no channel and the router none for it. Kind: L -/
lemma accounted_start : Accounted State.start :=
  ⟨List.nodup_nil, fun fd => by simp [State.start], List.nodup_nil, fun c hc => by cases hc⟩

/-- The books after a run. Kind: L -/
lemma accounted_of_exec {as : List Act} {s : State} (hmaps : ∀ a ∈ as, a.InMaps)
    (hrun : exec step State.start as = some s) : Accounted s :=
  exec_invariant_along (fun _ _ _ => accounted_step) accounted_start
    (along_of_forall_mem step hmaps) hrun

/-- The pairs after a run of creations. Kind: L -/
lemma paired_of_exec {as : List Act} {s : State} (hmaps : ∀ a ∈ as, a.InMaps)
    (hcreates : ∀ a ∈ as, a.Creates) (hrun : exec step State.start as = some s) : Paired s :=
  exec_invariant_along (fun _ _ _ => paired_step) ⟨accounted_start, rfl⟩
    (along_of_forall_mem step fun a ha => ⟨hmaps a ha, hcreates a ha⟩) hrun

/-- A correspondence makes the two numbers of channels equal. Kind: L -/
lemma Corresponds.length_eq {s : State} (h : Corresponds s) (hs : Accounted s) :
    s.opened.length = s.live.length := by
  have hlive : {c | c ∈ s.live}.ncard = s.live.length := by
    rw [← List.toFinset_card_of_nodup hs.live_nodup, ← Set.ncard_coe_finset]
    congr 1
    ext c
    simp
  have hopened : {z : ℤ | ∃ fd : ℕ, s.routerMap fd = true ∧ z = fd}.ncard = s.opened.length := by
    rw [← List.length_map ((↑) : ℕ → ℤ),
      ← List.toFinset_card_of_nodup (hs.opened_nodup.map Nat.cast_injective),
      ← Set.ncard_coe_finset]
    congr 1
    ext z
    simp only [hs.routerMap, Set.mem_ofPred_eq, List.coe_toFinset, List.mem_map]
    exact ⟨fun ⟨fd, hfd, hz⟩ => ⟨fd, hfd, hz.symm⟩, fun ⟨fd, hfd, hz⟩ => ⟨fd, hfd, hz.symm⟩⟩
  rw [← hlive, ← hopened, ← h.image_eq, h.injOn.ncard_image]

/-- Pairs that are listed one by one are a correspondence. Kind: L -/
lemma Paired.corresponds {s : State} (hs : Paired s) : Corresponds s := by
  have hmem : ∀ z : ℤ, (∃ fd : ℕ, s.routerMap fd = true ∧ z = fd) ↔ z ∈ s.live.map s.clientMap := by
    intro z
    rw [hs.pairs, List.mem_map]
    simp only [hs.routerMap]
    exact ⟨fun ⟨fd, hfd, hz⟩ => ⟨fd, hfd, hz.symm⟩, fun ⟨fd, hfd, hz⟩ => ⟨fd, hfd, hz.symm⟩⟩
  have hnodup : (s.live.map s.clientMap).Nodup :=
    hs.pairs ▸ hs.opened_nodup.map Nat.cast_injective
  refine ⟨fun c hc => (hmem _).mpr (List.mem_map_of_mem hc), ?_, fun z hz => ?_⟩
  · intro c hc c' hc' heq
    exact List.inj_on_of_nodup_map hnodup hc hc' heq
  · obtain ⟨c, hc, rfl⟩ := List.mem_map.mp ((hmem z).mp hz)
    exact ⟨c, hc, rfl⟩

/-- Nothing in excess means creations only. Kind: L -/
lemma creates_of_excess_eq_zero {a : Act} (h : a.excess = 0) : a.Creates := by
  cases a with
  | noMemory => trivial
  | create routerFd clientFd =>
      simp only [Act.excess] at h
      split at h
      case isTrue hsome => exact hsome
      case isFalse => cases h
  | destroy c routerFd clientFd => cases h

/-- **Event channel accounting**: after a run whose descriptors are indices of the maps, the
client's channels and the router's entries correspond one to one exactly when the run has no
destruction and no creation whose descriptor was lost. Kind: C -/
theorem corresponds_iff {as : List Act} {s : State} (hrun : exec step State.start as = some s)
    (hmaps : ∀ a ∈ as, a.InMaps) : Corresponds s ↔ ∀ a ∈ as, a.Creates := by
  have hs : Accounted s := accounted_of_exec hmaps hrun
  constructor
  · intro h a ha
    have hbalance := opened_length_of_exec hrun
    have hlength := h.length_eq hs
    have hzero : (as.map Act.excess).sum = 0 := by
      simp only [State.start, List.length_nil] at hbalance
      omega
    rw [List.sum_eq_zero_iff] at hzero
    exact creates_of_excess_eq_zero (hzero _ (List.mem_map_of_mem ha))
  · intro hcreates
    exact (paired_of_exec hmaps hcreates hrun).corresponds

/-- Two creations: the client's 7 and 8 stand for the router's 20 and 21. Kind: C -/
theorem corresponds_two_creations :
    ∃ s, exec step State.start [.create 20 (some 7), .create 21 (some 8)] = some s ∧
      Corresponds s := by
  refine ⟨_, rfl, ?_⟩
  refine (@corresponds_iff [.create 20 (some 7), .create 21 (some 8)] _ rfl ?_).mpr ?_
  · simp [Act.InMaps, mapSize]
  · simp [Act.Creates]

/-- **A creation and its destruction**: the client has no channel any more, and the router has two
open for it. Kind: C -/
theorem destroy_opens_channel :
    ((exec step State.start [.create 20 (some 7), .destroy 7 21 (some 8)]).map fun s =>
      (s.live, s.opened, s.routerMap 20, s.routerMap 21)) = some ([], [20, 21], true, true) := by
  decide

end FreeFlow.Wire.EventChannels
