import FreeFlow.Hosts.UdpServer

/-!
# The acknowledgements of a mapping

The handler of `IBV_REG_MR_MAPPING` goes through `HOST_LIST`. For every host it makes a socket,
binds it, sends the request and waits for an answer, and behind the loop it answers its client with
`ret = 0`. What happens when a call fails differs from call to call: without a socket the handler
returns and never answers, without an address or a port it goes on to the next host (`continue`),
and a failed `sendto` or `recvfrom` is only logged.

The hosts are `Udp.Server`s. Datagrams and acknowledgements may be lost, and the servers receive
other datagrams at any time; nothing is duplicated or forged.

* `State`, `Act`, `step` — the handler at each of its calls, and the network.
* `Inv` — which datagrams have been stored, told from the handler's calls and the network.
* `stored_iff_of_answered` — when the handler answers, every host has stored the mapping exactly
  when no round was cut short before `sendto`, every `sendto` worked, and every datagram for which
  `recvfrom` failed has arrived nevertheless.
* `answered_unstored` — a host for which `bind` fails, and a host whose datagram is lost before
  `recvfrom` fails.

Source: `ffrouter.cpp` `HandleRequest` (`IBV_REG_MR_MAPPING`), `UDPServer`.
-/

namespace FreeFlow.Hosts.MappingAck

open FreeFlow.Found FreeFlow.Router

/-! ## The request -/

/-- `struct IBV_REG_MR_MAPPING_REQ`, with the padding behind `key`. Source: `types.h`. Kind: D -/
structure Request where
  key : UInt32
  pad : UInt32
  mrPtr : UInt64
  shmPtr : UInt64
  deriving DecidableEq, Repr

/-- The bytes that `sendto` sends. Kind: D -/
def Request.bytes (r : Request) : List UInt8 :=
  Mem.toLE 4 r.key.toNat ++ Mem.toLE 4 r.pad.toNat ++ Mem.toLE 8 r.mrPtr.toNat ++
    Mem.toLE 8 r.shmPtr.toNat

/-- `p->shm_ptr = ffr->lkey_ptr[p->key]`: the client's request with the router's own address.
Source: `ffrouter.cpp` `HandleRequest` (`IBV_REG_MR_MAPPING`)
Kind: D -/
def Request.ofClient (lkeyPtr : UInt32 → Option UInt64) (key pad : UInt32) (mrPtr : UInt64) :
    Request :=
  ⟨key, pad, mrPtr, (lkeyPtr key).getD 0⟩

/-- A request is a complete datagram. Kind: L -/
lemma complete_bytes (r : Request) : Udp.Complete r.bytes := by
  simp [Udp.Complete, Udp.sizeofMappingReq, Request.bytes]

/-- A number inside a datagram. Kind: L -/
lemma read_view {pre mid post : List UInt8} :
    (Udp.view (pre ++ mid ++ post)).read pre.length mid.length = mid := by
  apply List.ext_getElem
  · simp
  · intro i hi hi'
    have hlt : pre.length + i < (pre ++ mid ++ post).length := by simp; omega
    simp only [Mem.read, List.getElem_map, List.getElem_range, Udp.view]
    rw [List.getD_eq_getElem _ _ hlt, List.getElem_append_left (by simp; omega),
      List.getElem_append_right (by omega)]
    simp

/-- A server reads the request that was sent. Kind: L -/
lemma fields_bytes (r : Request) :
    Udp.keyOf (Udp.view r.bytes) = r.key ∧
      Udp.mappingOf (Udp.view r.bytes) = ⟨r.mrPtr, r.shmPtr⟩ := by
  have hkey : (Udp.view r.bytes).read 0 4 = Mem.toLE 4 r.key.toNat := by
    have h := @read_view [] (Mem.toLE 4 r.key.toNat)
      (Mem.toLE 4 r.pad.toNat ++ Mem.toLE 8 r.mrPtr.toNat ++ Mem.toLE 8 r.shmPtr.toNat)
    simpa [Request.bytes] using h
  have hmr : (Udp.view r.bytes).read 8 8 = Mem.toLE 8 r.mrPtr.toNat := by
    have h := @read_view (Mem.toLE 4 r.key.toNat ++ Mem.toLE 4 r.pad.toNat)
      (Mem.toLE 8 r.mrPtr.toNat) (Mem.toLE 8 r.shmPtr.toNat)
    simpa [Request.bytes] using h
  have hshm : (Udp.view r.bytes).read 16 8 = Mem.toLE 8 r.shmPtr.toNat := by
    have h := @read_view
      (Mem.toLE 4 r.key.toNat ++ Mem.toLE 4 r.pad.toNat ++ Mem.toLE 8 r.mrPtr.toNat)
      (Mem.toLE 8 r.shmPtr.toNat) []
    simpa [Request.bytes] using h
  have hlt : ∀ v : UInt64, v.toNat < 256 ^ 8 := fun v => lt_of_lt_of_eq v.toNat_lt (by norm_num)
  constructor
  · rw [Udp.keyOf, Mem.u32, hkey,
      Mem.ofLE_toLE _ _ (lt_of_lt_of_eq r.key.toNat_lt (by norm_num)), UInt32.ofNat_toNat]
  · rw [Udp.mappingOf, Mem.u64, Mem.u64, hmr, hshm, Mem.ofLE_toLE _ _ (hlt _),
      Mem.ofLE_toLE _ _ (hlt _), UInt64.ofNat_toNat, UInt64.ofNat_toNat]

/-! ## The handler and the network -/

/-- The call the handler makes next; behind `sendto`, whether that worked. Kind: D -/
inductive Pc
  | socket
  | bind
  | sendto
  | recvfrom (sent : Bool)
  /-- `ret = 0` -/
  | answered
  /-- `return` -/
  | returned
  deriving DecidableEq, Repr

/-- How the round of a host went. Kind: D -/
inductive Round
  /-- `continue` before `sendto` -/
  | skipped
  /-- whether `sendto` worked, and whether `recvfrom` returned an acknowledgement -/
  | sent (sendto acked : Bool)
  deriving DecidableEq, Repr

/-- `rounds` are the rounds that are over, so that their number is the loop's `i`. Every round has
its own socket; `flight` and `ack` say for which of them a datagram or an acknowledgement is on its
way. Kind: D -/
structure State where
  rounds : List Round
  pc : Pc
  flight : ℕ → Bool
  ack : ℕ → Bool
  servers : ℕ → Udp.Server

/-- The handler's calls with their results, the end of the loop, and the network: the datagram of
round `k` arrives and its acknowledgement is lost or not, or another datagram arrives at a host.
Kind: D -/
inductive Act
  | socket (ok : Bool)
  /-- `inet_aton` for itself, `bind`, `inet_aton` for the host -/
  | bind (selfAddr bound hostAddr : Bool)
  | sendto (ok : Bool)
  | recvfrom (ok : Bool)
  | answer
  | deliver (k : ℕ) (acked : Bool)
  | other (host : ℕ) (d : List UInt8)
  deriving DecidableEq, Repr

/-- **One move.** `hosts` is `HOST_LIST`.
Source: `ffrouter.cpp` `HandleRequest` (`IBV_REG_MR_MAPPING`), `UDPServer`
Kind: D -/
def step (hosts : List ℕ) (r : Request) (s : State) : Act → Option State
  | .socket ok => do
      guard (s.pc = .socket ∧ s.rounds.length < hosts.length)
      some { s with pc := if ok then .bind else .returned }
  | .bind selfAddr bound hostAddr => do
      guard (s.pc = .bind)
      if selfAddr && bound && hostAddr then some { s with pc := .sendto }
      else some { s with pc := .socket, rounds := s.rounds ++ [.skipped] }
  | .sendto ok => do
      guard (s.pc = .sendto)
      some { s with
        pc := .recvfrom ok
        flight := if ok then Function.update s.flight s.rounds.length true else s.flight }
  | .recvfrom ok =>
      match s.pc with
      | .recvfrom sent => do
          guard (ok = true → s.ack s.rounds.length = true)
          some { s with pc := .socket, rounds := s.rounds ++ [.sent sent ok] }
      | _ => none
  | .answer => do
      guard (s.pc = .socket ∧ s.rounds.length = hosts.length)
      some { s with pc := .answered }
  | .deliver k acked => do
      guard (s.flight k = true)
      let h ← hosts[k]?
      let server ← Udp.step (s.servers h) r.bytes
      some { s with
        flight := Function.update s.flight k false
        ack := if acked then Function.update s.ack k true else s.ack
        servers := Function.update s.servers h server }
  | .other h d => do
      let server ← Udp.step (s.servers h) d
      some { s with servers := Function.update s.servers h server }

/-- The handler at the first host, with any tables and buffers at the servers. Kind: D -/
def State.start (servers : ℕ → Udp.Server) : State :=
  ⟨[], .socket, fun _ => false, fun _ => false, servers⟩

/-! ## What has been stored -/

/-- The datagram of round `k` has arrived. Kind: D -/
def Delivered (as : List Act) (k : ℕ) : Prop := ∃ acked, Act.deliver k acked ∈ as

/-- **Host `k` has stored the mapping**: at some point of the run, when it received the datagram,
its table got the entry of the request. Kind: D -/
def Stored (hosts : List ℕ) (r : Request) (s₀ : State) (as : List Act) (k : ℕ) : Prop :=
  ∃ pre acked post s h, as = pre ++ .deliver k acked :: post ∧
    exec (step hosts r) s₀ (pre ++ [.deliver k acked]) = some s ∧ hosts[k]? = some h ∧
    (s.servers h).rkeyMrShm r.key = some ⟨r.mrPtr, r.shmPtr⟩

variable {hosts : List ℕ} {r : Request}

/-- A delivery enters the mapping. Kind: L -/
lemma entry_of_deliver {s s' : State} {k : ℕ} {acked : Bool}
    (h : step hosts r s (.deliver k acked) = some s') :
    ∃ h, hosts[k]? = some h ∧ (s'.servers h).rkeyMrShm r.key = some ⟨r.mrPtr, r.shmPtr⟩ := by
  simp only [step, Option.bind_eq_bind, Option.bind_eq_some_iff, Option.guard_eq_some',
    Option.some.injEq] at h
  obtain ⟨-, -, b, hb, server, hserver, rfl⟩ := h
  obtain ⟨hkey, hmap⟩ := fields_bytes r
  refine ⟨b, hb, ?_⟩
  simp only [Function.update_self]
  rw [Udp.step_of_complete (complete_bytes r) hserver, hkey, hmap, Function.update_self]

/-- What has arrived has been stored. Kind: L -/
lemma stored_iff_delivered {s₀ s : State} {as : List Act}
    (hrun : exec (step hosts r) s₀ as = some s) (k : ℕ) :
    Stored hosts r s₀ as k ↔ Delivered as k := by
  constructor
  · rintro ⟨pre, acked, post, -, -, rfl, -⟩
    exact ⟨acked, by simp⟩
  · rintro ⟨acked, hmem⟩
    obtain ⟨pre, post, rfl⟩ := List.append_of_mem hmem
    rw [exec_append] at hrun
    obtain ⟨s₁, hpre, hrest⟩ := Option.bind_eq_some_iff.mp hrun
    obtain ⟨s₂, hs₂, -⟩ := (exec_cons_eq_some _).mp hrest
    obtain ⟨h, hh, hentry⟩ := entry_of_deliver hs₂
    exact ⟨pre, acked, post, s₂, h, rfl, (exec_append_singleton_eq_some _).mpr ⟨s₁, hpre, hs₂⟩, hh,
      hentry⟩

/-- The datagram of round `k` was handed to the network. Kind: D -/
def Sent (s : State) (k : ℕ) : Prop :=
  (∃ acked, s.rounds[k]? = some (.sent true acked)) ∨
    (k = s.rounds.length ∧ s.pc = .recvfrom true)

/-- **Calls and stores**: a datagram has arrived exactly when it was sent and is not on its way any
more; an acknowledgement, also one that was received, has an arrival before it. Kind: D -/
structure Inv (as : List Act) (s : State) : Prop where
  delivered : ∀ k, Delivered as k ↔ Sent s k ∧ s.flight k = false
  sent : ∀ k, s.flight k = true → Sent s k
  ack : ∀ k, s.ack k = true → Delivered as k
  acked : ∀ k sendto, s.rounds[k]? = some (.sent sendto true) → Delivered as k

/-- Only a delivery changes what has arrived. Kind: L -/
lemma delivered_append_singleton (as : List Act) (a : Act) (k : ℕ) :
    Delivered (as ++ [a]) k ↔ Delivered as k ∨ ∃ acked, a = .deliver k acked := by
  constructor
  · rintro ⟨acked, hmem⟩
    rcases List.mem_append.mp hmem with h | h
    · exact .inl ⟨acked, h⟩
    · exact .inr ⟨acked, (List.mem_singleton.mp h).symm⟩
  · rintro (⟨acked, h⟩ | ⟨acked, rfl⟩)
    · exact ⟨acked, List.mem_append_left _ h⟩
    · exact ⟨acked, by simp⟩

/-- A round that was over before is the same one afterwards; the new one is the last. Kind: L -/
lemma rounds_append_getElem? (rounds : List Round) (x : Round) (k : ℕ) :
    (rounds ++ [x])[k]? = if k = rounds.length then some x else rounds[k]? := by
  rcases lt_trichotomy k rounds.length with h | h | h
  · rw [List.getElem?_append_left h, if_neg (by omega)]
  · simp [h]
  · rw [if_neg (by omega), List.getElem?_eq_none (by simp; omega),
      List.getElem?_eq_none (by omega)]

/-- A move that is no delivery, sends nothing new and ends no round with an acknowledgement that is
not there. Kind: L -/
lemma Inv.advance {as : List Act} {a : Act} {s s' : State} (h : Inv as s)
    (ha : ∀ k acked, a ≠ .deliver k acked) (hflight : s'.flight = s.flight) (hack : s'.ack = s.ack)
    (hsent : ∀ k, Sent s' k ↔ Sent s k)
    (hround : ∀ k x, s'.rounds[k]? = some (.sent x true) →
      s.rounds[k]? = some (.sent x true) ∨ s.ack k = true) :
    Inv (as ++ [a]) s' := by
  have hdel : ∀ k, Delivered (as ++ [a]) k ↔ Delivered as k := fun k => by
    rw [delivered_append_singleton]
    exact or_iff_left fun ⟨acked, heq⟩ => ha k acked heq
  refine ⟨fun k => ?_, fun k => ?_, fun k => ?_, fun k x hx => ?_⟩
  · rw [hdel, hsent, hflight, h.delivered]
  · rw [hsent, hflight]
    exact h.sent k
  · rw [hdel, hack]
    exact h.ack k
  · rw [hdel]
    exact (hround k x hx).elim (h.acked k x) (h.ack k)

/-- `sendto`: a datagram of the present round may be on its way now. Kind: L -/
lemma Inv.sendto {as : List Act} {s : State} (h : Inv as s) (hpc : s.pc = .sendto) (ok : Bool) :
    Inv (as ++ [.sendto ok]) { s with
      pc := .recvfrom ok
      flight := if ok then Function.update s.flight s.rounds.length true else s.flight } := by
  cases ok with
  | false =>
      refine h.advance (by simp) rfl rfl (fun k => ?_) (fun k x hx => .inl hx)
      simp [Sent, hpc]
  | true =>
      have hsent : ∀ k, Sent { s with
          pc := .recvfrom true
          flight := Function.update s.flight s.rounds.length true } k ↔
          Sent s k ∨ k = s.rounds.length := fun k => by simp [Sent, hpc]
      have hnot : ¬ Sent s s.rounds.length := by simp [Sent, hpc]
      have hdel : ∀ k, Delivered (as ++ [.sendto true]) k ↔ Delivered as k := fun k => by
        simp [delivered_append_singleton]
      simp only [if_true]
      refine ⟨fun k => ?_, fun k hk => ?_, fun k hk => ?_, fun k x hx => ?_⟩
      · rw [hdel, hsent, h.delivered]
        rcases eq_or_ne k s.rounds.length with rfl | hne
        · simp [hnot]
        · simp [hne]
      · rw [hsent]
        rcases eq_or_ne k s.rounds.length with heq | hne
        · exact .inr heq
        · simp only [Function.update_of_ne hne] at hk
          exact .inl (h.sent k hk)
      · exact (hdel k).mpr (h.ack k hk)
      · exact (hdel k).mpr (h.acked k x hx)

/-- A delivery: the datagram was on its way and is not any more. Kind: L -/
lemma Inv.deliver {as : List Act} {s : State} (h : Inv as s) {k : ℕ} (hk : s.flight k = true)
    (acked : Bool) (servers : ℕ → Udp.Server) :
    Inv (as ++ [.deliver k acked]) { s with
      flight := Function.update s.flight k false
      ack := if acked then Function.update s.ack k true else s.ack
      servers := servers } := by
  have hdel : ∀ j, Delivered (as ++ [.deliver k acked]) j ↔ Delivered as j ∨ j = k := fun j => by
    rw [delivered_append_singleton]
    simp [eq_comm]
  have hsent : ∀ j, Sent { s with
      flight := Function.update s.flight k false
      ack := if acked then Function.update s.ack k true else s.ack
      servers := servers } j ↔ Sent s j := fun j => Iff.rfl
  refine ⟨fun j => ?_, fun j hj => ?_, fun j hj => ?_, fun j x hx => ?_⟩
  · rw [hdel, hsent, h.delivered]
    rcases eq_or_ne j k with rfl | hne
    · simp [h.sent j hk]
    · simp [hne]
  · rcases eq_or_ne j k with rfl | hne
    · simp at hj
    · simp only [Function.update_of_ne hne] at hj
      exact h.sent j hj
  · rw [hdel]
    rcases eq_or_ne j k with heq | hne
    · exact .inr heq
    · refine .inl (h.ack j ?_)
      cases acked with
      | false => exact hj
      | true => simpa [Function.update_of_ne hne] using hj
  · exact (hdel j).mpr (.inl (h.acked j x hx))

/-- **Every move** keeps calls and stores in step. Kind: P -/
lemma Inv.step {as : List Act} {a : Act} {s s' : State} (h : Inv as s)
    (hstep : MappingAck.step hosts r s a = some s') : Inv (as ++ [a]) s' := by
  cases a with
  | socket ok =>
      simp only [MappingAck.step, Option.bind_eq_bind, Option.bind_eq_some_iff,
        Option.guard_eq_some', Option.some.injEq] at hstep
      obtain ⟨-, ⟨hpc, -⟩, rfl⟩ := hstep
      refine h.advance (by simp) rfl rfl (fun k => ?_) (fun k x hx => .inl hx)
      cases ok <;> simp [Sent, hpc]
  | bind selfAddr bound hostAddr =>
      simp only [MappingAck.step, Option.bind_eq_bind, Option.bind_eq_some_iff,
        Option.guard_eq_some'] at hstep
      obtain ⟨-, hpc, hstep⟩ := hstep
      split at hstep
      case isTrue =>
        cases hstep
        refine h.advance (by simp) rfl rfl (fun k => ?_) (fun k x hx => .inl hx)
        simp [Sent, hpc]
      case isFalse =>
        cases hstep
        refine h.advance (by simp) rfl rfl (fun k => ?_) (fun k x hx => .inl ?_)
        · simp only [Sent, hpc, rounds_append_getElem?]
          split <;> simp_all
        · rw [rounds_append_getElem?] at hx
          split at hx <;> simp_all
  | sendto ok =>
      simp only [MappingAck.step, Option.bind_eq_bind, Option.bind_eq_some_iff,
        Option.guard_eq_some', Option.some.injEq] at hstep
      obtain ⟨-, hpc, rfl⟩ := hstep
      exact h.sendto hpc ok
  | recvfrom ok =>
      simp only [MappingAck.step] at hstep
      split at hstep
      case h_1 sent hpc =>
        simp only [Option.bind_eq_bind, Option.bind_eq_some_iff, Option.guard_eq_some',
          Option.some.injEq] at hstep
        obtain ⟨-, hack, rfl⟩ := hstep
        refine h.advance (by simp) rfl rfl (fun k => ?_) (fun k x hx => ?_)
        · simp only [Sent, hpc, rounds_append_getElem?]
          split <;> simp_all
        · rw [rounds_append_getElem?] at hx
          split at hx
          case isTrue heq =>
            simp only [Option.some.injEq, Round.sent.injEq] at hx
            exact .inr (heq ▸ hack hx.2)
          case isFalse => exact .inl hx
      case h_2 => cases hstep
  | answer =>
      simp only [MappingAck.step, Option.bind_eq_bind, Option.bind_eq_some_iff,
        Option.guard_eq_some', Option.some.injEq] at hstep
      obtain ⟨-, ⟨hpc, -⟩, rfl⟩ := hstep
      refine h.advance (by simp) rfl rfl (fun k => ?_) (fun k x hx => .inl hx)
      simp [Sent, hpc]
  | deliver k acked =>
      simp only [MappingAck.step, Option.bind_eq_bind, Option.bind_eq_some_iff,
        Option.guard_eq_some', Option.some.injEq] at hstep
      obtain ⟨-, hk, b, -, server, -, rfl⟩ := hstep
      exact h.deliver hk acked _
  | other b d =>
      simp only [MappingAck.step, Option.bind_eq_bind, Option.bind_eq_some_iff,
        Option.some.injEq] at hstep
      obtain ⟨server, -, rfl⟩ := hstep
      exact h.advance (by simp) rfl rfl (fun k => Iff.rfl) (fun k x hx => .inl hx)

/-- **Runs.** Kind: P -/
theorem inv_of_exec {servers : ℕ → Udp.Server} {as : List Act} {s : State}
    (hrun : exec (step hosts r) (State.start servers) as = some s) : Inv as s := by
  induction as using List.reverseRecOn generalizing s with
  | nil =>
      rw [exec, Option.some.injEq] at hrun
      subst hrun
      refine ⟨fun k => ?_, fun k hk => ?_, fun k hk => ?_, fun k x hx => ?_⟩
      · simp [Delivered, Sent, State.start]
      · cases hk
      · cases hk
      · simp [State.start] at hx
  | append_singleton as a ih =>
      obtain ⟨t, ht, hs⟩ := (exec_append_singleton_eq_some _).mp hrun
      exact (ih ht).step hs

/-- **What `ret = 0` is worth**: when the handler answers, every host of `HOST_LIST` has stored the
mapping exactly when in every round `sendto` was reached and worked, and either the acknowledgement
came or the datagram has arrived without one. Kind: C -/
theorem stored_iff_of_answered (lkeyPtr : UInt32 → Option UInt64) (key pad : UInt32)
    (mrPtr : UInt64) {servers : ℕ → Udp.Server} {as : List Act} {s : State}
    (hrun : exec (step hosts (.ofClient lkeyPtr key pad mrPtr)) (State.start servers) as = some s)
    (hanswered : s.pc = .answered) :
    (∀ k < hosts.length,
        Stored hosts (.ofClient lkeyPtr key pad mrPtr) (State.start servers) as k) ↔
      ∀ k < hosts.length, ∃ acked, s.rounds[k]? = some (.sent true acked) ∧
        (acked = true ∨ s.flight k = false) := by
  have hinv := inv_of_exec hrun
  have hsent : ∀ k, Sent s k ↔ ∃ acked, s.rounds[k]? = some (.sent true acked) := fun k => by
    simp [Sent, hanswered]
  refine forall₂_congr fun k _ => ?_
  rw [stored_iff_delivered hrun, hinv.delivered, hsent]
  constructor
  · rintro ⟨⟨acked, hround⟩, hflight⟩
    exact ⟨acked, hround, .inr hflight⟩
  · rintro ⟨acked, hround, rfl | hflight⟩
    · exact ⟨⟨true, hround⟩, ((hinv.delivered k).mp (hinv.acked k true hround)).2⟩
    · exact ⟨⟨acked, hround⟩, hflight⟩

/-- The servers as they start, with an empty stack. Kind: D -/
def idleServers : ℕ → Udp.Server := fun _ => ⟨fun _ => 0, fun _ => none⟩

/-- `lkey_ptr` with one entry. Kind: D -/
def oneKey : UInt32 → Option UInt64 := fun key => if key = 5 then some 0x2000 else none

/-- A round without failures. Kind: D -/
def wholeRound (k : ℕ) : List Act :=
  [.socket true, .bind true true true, .sendto true, .deliver k true, .recvfrom true]

/-- Two hosts that acknowledge. Kind: C -/
theorem stored_two_hosts :
    ∃ s, exec (step [0, 1] (.ofClient oneKey 5 0 0x1000)) (State.start idleServers)
        (wholeRound 0 ++ wholeRound 1 ++ [.answer]) = some s ∧ s.pc = .answered ∧
      ∀ k < 2, Stored [0, 1] (.ofClient oneKey 5 0 0x1000) (State.start idleServers)
        (wholeRound 0 ++ wholeRound 1 ++ [.answer]) k := by
  refine ⟨_, rfl, rfl, ?_⟩
  refine (@stored_iff_of_answered [0, 1] oneKey 5 0 0x1000 idleServers _ _ rfl rfl).mpr ?_
  intro k hk
  have hcases : k = 0 ∨ k = 1 := by
    simp only [List.length_cons, List.length_nil] at hk
    omega
  rcases hcases with rfl | rfl
  · exact ⟨true, rfl, .inl rfl⟩
  · exact ⟨true, rfl, .inl rfl⟩

/-- **Answered, and not stored**: the handler answers although it could not bind the socket for the
second host; and although the datagram is lost and `recvfrom` fails. Kind: C -/
theorem answered_unstored :
    ((exec (step [0, 1] (.ofClient oneKey 5 0 0x1000)) (State.start idleServers)
        (wholeRound 0 ++ [.socket true, .bind true false true, .answer])).map fun s =>
      (s.pc, (s.servers 0).rkeyMrShm 5, (s.servers 1).rkeyMrShm 5)) =
        some (.answered, some ⟨0x1000, 0x2000⟩, none) ∧
    ((exec (step [0] (.ofClient oneKey 5 0 0x1000)) (State.start idleServers)
        [.socket true, .bind true true true, .sendto true, .recvfrom false, .answer]).map fun s =>
      (s.pc, (s.servers 0).rkeyMrShm 5)) = some (.answered, none) := by
  decide

end FreeFlow.Hosts.MappingAck
