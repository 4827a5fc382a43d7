import FreeFlow.Router.PostSend
import FreeFlow.Found.Run

/-!
# Rkey entries on several hosts

Each host runs a router. A client that registers a memory region has its router register the
shared memory with the HCA (`IBV_REG_MR`) and then announce the region (`IBV_REG_MR_MAPPING`): the
handler sends a datagram with the key, the application's base address and the router's base
address to every host in `HOST_LIST`, one after the other, each time waiting for the
acknowledgement, and only then answers the client. Every router's UDP server stores what it
receives in `rkey_mr_shm`, a table that knows the key and nothing else.

* `Net`, `Act`, `step` — the routers' tables, the registrations in progress and the datagrams in
  flight, delivered in any order.
* `Regular` — the condition: an HCA does not issue a key that is live on another host, and the
  announcement of a region passes over no host.
* `translated_of_regular` — under it, whenever a registration has been answered, every router
  translates one-sided requests to it correctly.
* `translation_fails_equal_keys` — two hosts that issue equal keys, as HCAs may.

Source: `ffrouter.cpp` `HandleRequest` (`IBV_REG_MR`, `IBV_REG_MR_MAPPING`, `IBV_DEREG_MR`),
`UDPServer`, `CtrlChannelLoop` (rkey translation).
-/

namespace FreeFlow.Hosts

open FreeFlow.Found FreeFlow.Verbs FreeFlow.Router

/-! ## Registrations and datagrams -/

/-- How far a registration is. `sending` and `waiting` carry the router address the mapping
handler read from `lkey_ptr` and the hosts it has not sent to yet. Kind: D -/
inductive Phase
  /-- `ibv_reg_mr` has returned -/
  | issued
  /-- `lkey_ptr` is set and `IBV_REG_MR` answered -/
  | stored
  /-- the mapping handler is about to send to the next host -/
  | sending (shm : UInt64) (todo : List ℕ)
  /-- it waits for an acknowledgement -/
  | waiting (shm : UInt64) (todo : List ℕ)
  /-- the client has its answer -/
  | answered
  /-- deregistered: the HCA may issue the key again -/
  | dead
  deriving DecidableEq, Repr

/-- A registration: its host, its key (lkey and rkey are equal), the application's base address,
the router's base address, and how far it is. Kind: D -/
structure Reg where
  host : ℕ
  key : UInt32
  mrPtr : UInt64
  shmPtr : UInt64
  phase : Phase
  deriving DecidableEq, Repr

/-- `struct IBV_REG_MR_MAPPING_REQ` on its way to a host. Source: `types.h`. Kind: D -/
structure Datagram where
  dest : ℕ
  key : UInt32
  mrPtr : UInt64
  shmPtr : UInt64
  deriving DecidableEq, Repr

/-- The state of all hosts. A mapping handler opens a new socket for every host it sends to;
`flight` and `ack` are indexed by the registration and the number of hosts that are left then.
An acknowledgement for a socket that is closed is never read. Kind: D -/
structure Net where
  regs : List Reg
  flight : ℕ × ℕ → Option Datagram
  ack : ℕ × ℕ → Bool
  lkeyPtr : ℕ → UInt32 → Option UInt64
  rkeyMrShm : ℕ → UInt32 → Option MrShm

/-- The moves: of an HCA and the handlers for registration `i`, and the delivery of a datagram of
`i`. `skip` and `recvError` are the mapping handler's ways on when `bind` (or `inet_aton`) and when
`recvfrom` fails. Kind: D -/
inductive Act
  | regMr (host : ℕ) (key : UInt32) (mrPtr shmPtr : UInt64)
  | storeLkey (i : ℕ)
  | startMapping (i : ℕ)
  | send (i : ℕ)
  | skip (i : ℕ)
  | deliver (i k : ℕ)
  | recvAck (i : ℕ)
  | recvError (i : ℕ)
  | answer (i : ℕ)
  | deregMr (i : ℕ)
  deriving DecidableEq, Repr

/-- The state with registration `i`, so far `r`, in another phase. Kind: D -/
def Net.setPhase (n : Net) (i : ℕ) (r : Reg) (p : Phase) : Net :=
  { n with regs := n.regs.set i { r with phase := p } }

/-- **One move.** `hosts` is `HOST_LIST`, the same on every router. An HCA keeps its own live keys
distinct; nothing is assumed between HCAs.
Source: `ffrouter.cpp` `HandleRequest` (`IBV_REG_MR`, `IBV_REG_MR_MAPPING`, `IBV_DEREG_MR`),
`UDPServer`
Kind: D -/
def step (hosts : List ℕ) (n : Net) : Act → Option Net
  | .regMr h k mr shm => do
      guard (∀ r ∈ n.regs, r.phase ≠ .dead → r.host = h → r.key ≠ k)
      some { n with regs := n.regs ++ [⟨h, k, mr, shm, .issued⟩] }
  | .storeLkey i => do
      let r ← n.regs[i]?
      guard (r.phase = .issued)
      some { n.setPhase i r .stored with
        lkeyPtr := Function.update n.lkeyPtr r.host
          (Function.update (n.lkeyPtr r.host) r.key (some r.shmPtr)) }
  | .startMapping i => do
      let r ← n.regs[i]?
      guard (r.phase = .stored)
      some (n.setPhase i r (.sending ((n.lkeyPtr r.host r.key).getD 0) hosts))
  | .send i => do
      let r ← n.regs[i]?
      match r.phase with
      | .sending shm (h :: todo) =>
          some { n.setPhase i r (.waiting shm todo) with
            flight := Function.update n.flight (i, todo.length) (some ⟨h, r.key, r.mrPtr, shm⟩) }
      | _ => none
  | .skip i => do
      let r ← n.regs[i]?
      match r.phase with
      | .sending shm (_ :: todo) => some (n.setPhase i r (.sending shm todo))
      | _ => none
  | .deliver i k => do
      let d ← n.flight (i, k)
      some { n with
        flight := Function.update n.flight (i, k) none
        ack := Function.update n.ack (i, k) true
        rkeyMrShm := Function.update n.rkeyMrShm d.dest
          (Function.update (n.rkeyMrShm d.dest) d.key (some ⟨d.mrPtr, d.shmPtr⟩)) }
  | .recvAck i => do
      let r ← n.regs[i]?
      match r.phase with
      | .waiting shm todo =>
          if n.ack (i, todo.length) then
            some { n.setPhase i r (.sending shm todo) with
              ack := Function.update n.ack (i, todo.length) false }
          else none
      | _ => none
  | .recvError i => do
      let r ← n.regs[i]?
      match r.phase with
      | .waiting shm todo => some (n.setPhase i r (.sending shm todo))
      | _ => none
  | .answer i => do
      let r ← n.regs[i]?
      match r.phase with
      | .sending _ [] => some (n.setPhase i r .answered)
      | _ => none
  | .deregMr i => do
      let r ← n.regs[i]?
      guard (r.phase = .answered)
      some (n.setPhase i r .dead)

/-- Routers as they start: nothing registered, nothing in flight. Kind: D -/
def Net.start : Net := ⟨[], fun _ => none, fun _ => false, fun _ _ => none, fun _ _ => none⟩

/-- **The condition for a step**: a key that an HCA issues is not live on another host, and a
mapping handler passes over no host. Kind: D -/
def Regular (n : Net) : Act → Prop
  | .regMr h k _ _ => ∀ r ∈ n.regs, r.phase ≠ .dead → r.host ≠ h → r.key ≠ k
  | .skip _ | .recvError _ => False
  | _ => True

instance (n : Net) : (a : Act) → Decidable (Regular n a)
  | .regMr _ _ _ _ => inferInstanceAs (Decidable (∀ r ∈ n.regs, _ → _ → _))
  | .skip _ | .recvError _ => inferInstanceAs (Decidable False)
  | .storeLkey _ | .startMapping _ | .send _ | .deliver _ _ | .recvAck _ | .answer _
  | .deregMr _ => inferInstanceAs (Decidable True)

/-! ## What a registration has reached -/

/-- Nothing of registration `i` is under way at the sockets that `P` selects: no datagram and no
acknowledgement. Kind: D -/
def IdleAt (n : Net) (i : ℕ) (P : ℕ → Prop) : Prop :=
  ∀ k, P k → n.flight (i, k) = none ∧ n.ack (i, k) = false

/-- Nothing of registration `i` is under way. Kind: D -/
def Idle (n : Net) (i : ℕ) : Prop := IdleAt n i fun _ => True

/-- Every host but those in `todo` has the entry of `r`. Kind: D -/
def Served (hosts : List ℕ) (n : Net) (r : Reg) (todo : List ℕ) : Prop :=
  ∀ h ∈ hosts, h ∈ todo ∨ n.rkeyMrShm h r.key = some ⟨r.mrPtr, r.shmPtr⟩

/-- What holds for registration `i` in its phase. Kind: D -/
def Progress (hosts : List ℕ) (n : Net) (i : ℕ) (r : Reg) : Prop :=
  match r.phase with
  | .issued => Idle n i
  | .stored => Idle n i ∧ n.lkeyPtr r.host r.key = some r.shmPtr
  | .sending shm todo => Idle n i ∧ shm = r.shmPtr ∧ Served hosts n r todo
  | .waiting shm todo => shm = r.shmPtr ∧ IdleAt n i (· ≠ todo.length) ∧
      ((∃ h, n.flight (i, todo.length) = some ⟨h, r.key, r.mrPtr, r.shmPtr⟩ ∧
          n.ack (i, todo.length) = false ∧ Served hosts n r (h :: todo)) ∨
        (n.flight (i, todo.length) = none ∧ n.ack (i, todo.length) = true ∧
          Served hosts n r todo))
  | .answered => Idle n i ∧ Served hosts n r []
  | .dead => Idle n i

/-- The invariant: every registration has made its progress, live registrations have distinct
keys, and nothing is under way for registrations that do not exist. Kind: D -/
structure Consistent (hosts : List ℕ) (n : Net) : Prop where
  progress : ∀ i r, n.regs[i]? = some r → Progress hosts n i r
  keys : ∀ (i j : ℕ) (r r' : Reg), n.regs[i]? = some r → n.regs[j]? = some r' → r.phase ≠ .dead →
    r'.phase ≠ .dead → r.key = r'.key → i = j
  fresh : ∀ i, n.regs.length ≤ i → Idle n i

/-- The progress of a registration depends on its own datagrams and acknowledgements and, while it
is live, on the entries under its key. Kind: L -/
lemma Progress.congr {hosts : List ℕ} {n n' : Net} {i : ℕ} {r : Reg} (h : Progress hosts n i r)
    (hsock : ∀ k, n'.flight (i, k) = n.flight (i, k) ∧ n'.ack (i, k) = n.ack (i, k))
    (htable : r.phase ≠ .dead → ∀ b, n'.rkeyMrShm b r.key = n.rkeyMrShm b r.key)
    (hlkey : r.phase ≠ .dead → n'.lkeyPtr r.host r.key = n.lkeyPtr r.host r.key) :
    Progress hosts n' i r := by
  have hidle : ∀ P, IdleAt n i P → IdleAt n' i P := by
    intro P hP k hk
    rw [(hsock k).1, (hsock k).2]
    exact hP k hk
  obtain ⟨host, key, mrPtr, shmPtr, phase⟩ := r
  cases phase with
  | issued => exact hidle _ h
  | dead => exact hidle _ h
  | stored => exact ⟨hidle _ h.1, (hlkey (by simp)).trans h.2⟩
  | sending shm todo =>
      refine ⟨hidle _ h.1, h.2.1, ?_⟩
      simp only [Served, htable (by simp)]
      exact h.2.2
  | waiting shm todo =>
      refine ⟨h.1, hidle _ h.2.1, ?_⟩
      simp only [Served, (hsock _).1, (hsock _).2, htable (by simp)]
      exact h.2.2
  | answered =>
      refine ⟨hidle _ h.1, ?_⟩
      simp only [Served, htable (by simp)]
      exact h.2

/-- A step of a live registration `i` keeps the invariant when it makes its own progress and
leaves the progress of the others alone. Kind: L -/
lemma Consistent.advance {hosts : List ℕ} {n n' : Net} (h : Consistent hosts n) {i : ℕ} {r : Reg}
    (p : Phase) (hr : n.regs[i]? = some r) (hlive : r.phase ≠ .dead)
    (hregs : n'.regs = n.regs.set i { r with phase := p })
    (hown : Progress hosts n' i { r with phase := p })
    (hsock : ∀ j, j ≠ i → ∀ k, n'.flight (j, k) = n.flight (j, k) ∧ n'.ack (j, k) = n.ack (j, k))
    (htable : ∀ r' : Reg, r'.key ≠ r.key → ∀ b, n'.rkeyMrShm b r'.key = n.rkeyMrShm b r'.key)
    (hlkey : ∀ r' : Reg, r'.key ≠ r.key → n'.lkeyPtr r'.host r'.key = n.lkeyPtr r'.host r'.key) :
    Consistent hosts n' := by
  have hlt : i < n.regs.length := (List.getElem?_eq_some_iff.mp hr).1
  -- a registration of the new state is `i` with its new phase, or an old one
  have hcases : ∀ j r', n'.regs[j]? = some r' →
      (j = i ∧ r' = { r with phase := p }) ∨ (j ≠ i ∧ n.regs[j]? = some r') := by
    intro j r' hj
    rw [hregs, List.getElem?_set] at hj
    by_cases hji : i = j
    · rw [if_pos hji, if_pos hlt, Option.some.injEq] at hj
      exact Or.inl ⟨hji.symm, hj.symm⟩
    · rw [if_neg hji] at hj
      exact Or.inr ⟨Ne.symm hji, hj⟩
  refine ⟨?_, ?_, ?_⟩
  · intro j r' hj
    rcases hcases j r' hj with ⟨rfl, rfl⟩ | ⟨hne, hold⟩
    · exact hown
    · -- another live registration has another key
      have hkey : r'.phase ≠ .dead → r'.key ≠ r.key := fun hlive' heq =>
        hne (h.keys j i r' r hold hr hlive' hlive heq)
      exact (h.progress j r' hold).congr (hsock j hne)
        (fun hlive' => htable r' (hkey hlive')) (fun hlive' => hlkey r' (hkey hlive'))
  · intro j k r₁ r₂ hj hk hlive₁ hlive₂ hkeys
    rcases hcases j r₁ hj with ⟨rfl, rfl⟩ | ⟨hne₁, hold₁⟩ <;>
      rcases hcases k r₂ hk with ⟨rfl, rfl⟩ | ⟨hne₂, hold₂⟩
    · rfl
    · exact h.keys _ _ _ _ hr hold₂ hlive hlive₂ hkeys
    · exact h.keys _ _ _ _ hold₁ hr hlive₁ hlive hkeys
    · exact h.keys _ _ _ _ hold₁ hold₂ hlive₁ hlive₂ hkeys
  · intro j hj k _
    rw [hregs, List.length_set] at hj
    rw [(hsock j (by omega) k).1, (hsock j (by omega) k).2]
    exact h.fresh j hj k trivial

/-- A new registration with a key that is live nowhere keeps the invariant. Kind: L -/
lemma Consistent.regMr {hosts : List ℕ} {n : Net} (h : Consistent hosts n) (r : Reg)
    (hphase : r.phase = .issued) (hnew : ∀ r' ∈ n.regs, r'.phase ≠ .dead → r'.key ≠ r.key) :
    Consistent hosts { n with regs := n.regs ++ [r] } := by
  have hcases : ∀ j r', (n.regs ++ [r])[j]? = some r' →
      n.regs[j]? = some r' ∨ (j = n.regs.length ∧ r' = r) := by
    intro j r' hj
    by_cases hlt : j < n.regs.length
    · rw [List.getElem?_append_left hlt] at hj
      exact Or.inl hj
    · rw [List.getElem?_append_right (by omega), List.getElem?_singleton] at hj
      split at hj
      · rw [Option.some.injEq] at hj
        exact Or.inr ⟨by omega, hj.symm⟩
      · cases hj
  refine ⟨?_, ?_, ?_⟩
  · intro j r' hj
    rcases hcases j r' hj with hold | ⟨rfl, rfl⟩
    · exact (h.progress j r' hold).congr (fun _ => ⟨rfl, rfl⟩) (fun _ _ => rfl) (fun _ => rfl)
    · rw [Progress, hphase]
      exact h.fresh _ le_rfl
  · intro j k r₁ r₂ hj hk hlive₁ hlive₂ hkeys
    rcases hcases j r₁ hj with hold₁ | ⟨rfl, rfl⟩ <;>
      rcases hcases k r₂ hk with hold₂ | ⟨rfl, rfl⟩
    · exact h.keys _ _ _ _ hold₁ hold₂ hlive₁ hlive₂ hkeys
    · exact absurd hkeys (hnew r₁ (List.mem_of_getElem? hold₁) hlive₁)
    · exact absurd hkeys.symm (hnew r₂ (List.mem_of_getElem? hold₂) hlive₂)
    · rfl
  · intro j hj
    rw [List.length_append] at hj
    exact h.fresh j (by omega)

/-! ## Every step keeps the invariant -/

/-- A registration that has started to send is served by what it delivers: its own entry stays,
because nobody else with its key is live. Kind: L -/
lemma Served.deliver {hosts : List ℕ} {n : Net} {r : Reg} {h : ℕ} {todo : List ℕ}
    (hserved : Served hosts n r (h :: todo)) (n' : Net)
    (htable : n'.rkeyMrShm = Function.update n.rkeyMrShm h
      (Function.update (n.rkeyMrShm h) r.key (some ⟨r.mrPtr, r.shmPtr⟩))) :
    Served hosts n' r todo := by
  intro b hb
  by_cases hbh : b = h
  · right
    rw [htable, hbh, Function.update_self, Function.update_self]
  · rcases hserved b hb with hmem | hentry
    · left
      exact (List.mem_cons.mp hmem).resolve_left hbh
    · right
      rw [htable, Function.update_of_ne hbh, hentry]

/-- The entry of another key stays in a table that is written at one key of one host. Kind: L -/
lemma update_of_ne_key {β : Type*} {f : ℕ → UInt32 → β} {a b : ℕ} {k k' : UInt32} {v : β}
    (hkey : k' ≠ k) : Function.update f a (Function.update (f a) k v) b k' = f b k' := by
  by_cases hba : b = a
  · rw [hba, Function.update_self, Function.update_of_ne hkey]
  · rw [Function.update_of_ne hba]

/-- A datagram is in flight only while its registration waits for the acknowledgement of just that
socket, and carries the registration's addresses. Kind: L -/
lemma Consistent.in_flight {hosts : List ℕ} {n : Net} (h : Consistent hosts n) {i k : ℕ}
    {d : Datagram} (hd : n.flight (i, k) = some d) :
    ∃ r todo, n.regs[i]? = some r ∧ r.phase = .waiting r.shmPtr todo ∧ k = todo.length ∧
      IdleAt n i (· ≠ todo.length) ∧ d = ⟨d.dest, r.key, r.mrPtr, r.shmPtr⟩ ∧
      Served hosts n r (d.dest :: todo) := by
  have hbusy : ∀ P, P k → ¬ IdleAt n i P := fun P hk hidle =>
    absurd ((hidle k hk).1.symm.trans hd) (by simp)
  cases hr : n.regs[i]? with
  | none => exact absurd (h.fresh i (List.getElem?_eq_none_iff.mp hr)) (hbusy _ trivial)
  | some r =>
      have hprog := h.progress i r hr
      obtain ⟨host, key, mrPtr, shmPtr, phase⟩ := r
      cases phase with
      | issued => exact absurd hprog (hbusy _ trivial)
      | stored => exact absurd hprog.1 (hbusy _ trivial)
      | sending shm todo => exact absurd hprog.1 (hbusy _ trivial)
      | answered => exact absurd hprog.1 (hbusy _ trivial)
      | dead => exact absurd hprog (hbusy _ trivial)
      | waiting shm todo =>
          obtain ⟨rfl, hother, hown⟩ := hprog
          obtain rfl : k = todo.length := by
            by_contra hk
            exact hbusy _ hk hother
          rcases hown with ⟨b, hflight, -, hserved⟩ | ⟨hnone, -, -⟩
          · obtain rfl := Option.some.inj (hd.symm.trans hflight)
            exact ⟨_, todo, rfl, rfl, rfl, hother, rfl, hserved⟩
          · exact absurd (hnone.symm.trans hd) (by simp)

/-- Another registration's sockets, or another socket of the same one. Kind: L -/
lemma update_socket_of_ne {β : Type*} {f : ℕ × ℕ → β} {i j k l : ℕ} {v : β} (h : j ≠ i ∨ l ≠ k) :
    Function.update f (i, k) v (j, l) = f (j, l) := by
  refine Function.update_of_ne (fun heq => ?_) ..
  rw [Prod.mk.injEq] at heq
  exact h.elim (fun hj => hj heq.1) (fun hl => hl heq.2)

section Steps

variable {hosts : List ℕ} {n n' : Net} {i : ℕ}

/-- `lkey_ptr` is set: nobody else reads the entry, because nobody else with the key is live.
Kind: L -/
lemma Consistent.storeLkey (h : Consistent hosts n)
    (hstep : Hosts.step hosts n (.storeLkey i) = some n') : Consistent hosts n' := by
  simp only [Hosts.step, Option.bind_eq_bind, Option.bind_eq_some_iff, Option.guard_eq_some',
    Option.some.injEq] at hstep
  obtain ⟨r, hr, -, hphase, rfl⟩ := hstep
  have hprog := h.progress i r hr
  rw [Progress, hphase] at hprog
  refine h.advance .stored hr (by simp [hphase]) rfl ⟨hprog, ?_⟩ (fun _ _ _ => ⟨rfl, rfl⟩)
    (fun _ _ _ => rfl) (fun r' hkey => update_of_ne_key hkey)
  simp only [Function.update_self]

/-- The mapping handler reads the address `IBV_REG_MR` has stored. Kind: L -/
lemma Consistent.startMapping (h : Consistent hosts n)
    (hstep : Hosts.step hosts n (.startMapping i) = some n') : Consistent hosts n' := by
  simp only [Hosts.step, Option.bind_eq_bind, Option.bind_eq_some_iff, Option.guard_eq_some',
    Option.some.injEq] at hstep
  obtain ⟨r, hr, -, hphase, rfl⟩ := hstep
  have hprog := h.progress i r hr
  rw [Progress, hphase] at hprog
  obtain ⟨hidle, hlkey⟩ := hprog
  refine h.advance _ hr (by simp [hphase]) rfl ⟨hidle, ?_, fun b hb => Or.inl hb⟩
    (fun _ _ _ => ⟨rfl, rfl⟩) (fun _ _ _ => rfl) (fun _ _ => rfl)
  rw [hlkey]
  rfl

/-- The handler sends to the next host and waits. Kind: L -/
lemma Consistent.send (h : Consistent hosts n)
    (hstep : Hosts.step hosts n (.send i) = some n') : Consistent hosts n' := by
  simp only [Hosts.step, Option.bind_eq_bind, Option.bind_eq_some_iff] at hstep
  obtain ⟨r, hr, hstep⟩ := hstep
  have hprog := h.progress i r hr
  split at hstep
  next shm b todo hphase =>
    cases hstep
    rw [Progress, hphase] at hprog
    obtain ⟨hidle, rfl, hserved⟩ := hprog
    refine h.advance _ hr (by simp [hphase]) rfl
      ⟨rfl, ?_, Or.inl ⟨b, ?_, (hidle _ trivial).2, hserved⟩⟩
      (fun j hj k => ⟨update_socket_of_ne (.inl hj), rfl⟩) (fun _ _ _ => rfl) (fun _ _ => rfl)
    · intro k hk
      exact ⟨(update_socket_of_ne (.inr hk)).trans (hidle k trivial).1, (hidle k trivial).2⟩
    · exact Function.update_self ..
  next => cases hstep

/-- A router stores what it receives: an entry for the destination, which is thereby served.
Kind: L -/
lemma Consistent.deliver (h : Consistent hosts n) {k : ℕ}
    (hstep : Hosts.step hosts n (.deliver i k) = some n') : Consistent hosts n' := by
  simp only [Hosts.step, Option.bind_eq_bind, Option.bind_eq_some_iff, Option.some.injEq] at hstep
  obtain ⟨d, hd, rfl⟩ := hstep
  obtain ⟨r, todo, hr, hphase, rfl, hother, hdgram, hserved⟩ := h.in_flight hd
  have hself : n.regs = n.regs.set i { r with phase := .waiting r.shmPtr todo } := by
    obtain ⟨hlt, hget⟩ := List.getElem?_eq_some_iff.mp hr
    rw [← hphase, ← hget, List.set_getElem_self]
  rw [hdgram]
  refine h.advance _ hr (by simp [hphase]) hself ⟨rfl, ?_, Or.inr ⟨?_, ?_, ?_⟩⟩
    (fun j hj k => ⟨update_socket_of_ne (.inl hj), update_socket_of_ne (.inl hj)⟩)
    (fun r' hkey b => update_of_ne_key hkey) (fun _ _ => rfl)
  · intro k hk
    exact ⟨(update_socket_of_ne (.inr hk)).trans (hother k hk).1,
      (update_socket_of_ne (.inr hk)).trans (hother k hk).2⟩
  · exact Function.update_self ..
  · exact Function.update_self ..
  · exact hserved.deliver _ rfl

/-- The handler gets its acknowledgement, which was sent when the datagram was stored. Kind: L -/
lemma Consistent.recvAck (h : Consistent hosts n)
    (hstep : Hosts.step hosts n (.recvAck i) = some n') : Consistent hosts n' := by
  simp only [Hosts.step, Option.bind_eq_bind, Option.bind_eq_some_iff] at hstep
  obtain ⟨r, hr, hstep⟩ := hstep
  have hprog := h.progress i r hr
  split at hstep
  next shm todo hphase =>
    split at hstep
    next hack =>
      cases hstep
      rw [Progress, hphase] at hprog
      obtain ⟨hshm, hother, ⟨b, -, hnack, -⟩ | ⟨hnone, -, hserved⟩⟩ := hprog
      · exact absurd (hack.symm.trans hnack) (by simp)
      · refine h.advance _ hr (by simp [hphase]) rfl ⟨?_, hshm, hserved⟩
          (fun j hj k => ⟨rfl, update_socket_of_ne (.inl hj)⟩) (fun _ _ _ => rfl) (fun _ _ => rfl)
        intro k _
        by_cases hk : k = todo.length
        · subst hk
          exact ⟨hnone, Function.update_self ..⟩
        · exact ⟨(hother k hk).1, (update_socket_of_ne (.inr hk)).trans (hother k hk).2⟩
    next => cases hstep
  next => cases hstep

/-- The handler has sent to all hosts, and answers. Kind: L -/
lemma Consistent.answer (h : Consistent hosts n)
    (hstep : Hosts.step hosts n (.answer i) = some n') : Consistent hosts n' := by
  simp only [Hosts.step, Option.bind_eq_bind, Option.bind_eq_some_iff] at hstep
  obtain ⟨r, hr, hstep⟩ := hstep
  have hprog := h.progress i r hr
  split at hstep
  next shm hphase =>
    cases hstep
    rw [Progress, hphase] at hprog
    exact h.advance _ hr (by simp [hphase]) rfl ⟨hprog.1, hprog.2.2⟩
      (fun _ _ _ => ⟨rfl, rfl⟩) (fun _ _ _ => rfl) (fun _ _ => rfl)
  next => cases hstep

/-- A deregistration makes the key free; the entries stay. Kind: L -/
lemma Consistent.deregMr (h : Consistent hosts n)
    (hstep : Hosts.step hosts n (.deregMr i) = some n') : Consistent hosts n' := by
  simp only [Hosts.step, Option.bind_eq_bind, Option.bind_eq_some_iff, Option.guard_eq_some',
    Option.some.injEq] at hstep
  obtain ⟨r, hr, -, hphase, rfl⟩ := hstep
  have hprog := h.progress i r hr
  rw [Progress, hphase] at hprog
  exact h.advance .dead hr (by simp [hphase]) rfl hprog.1 (fun _ _ _ => ⟨rfl, rfl⟩)
    (fun _ _ _ => rfl) (fun _ _ => rfl)

/-- **Every regular step keeps the invariant.** Kind: L -/
lemma Consistent.step {a : Act} (h : Consistent hosts n) (hreg : Regular n a)
    (hstep : Hosts.step hosts n a = some n') : Consistent hosts n' := by
  cases a with
  | regMr host key mr shm =>
      simp only [Hosts.step, Option.bind_eq_bind, Option.bind_eq_some_iff, Option.guard_eq_some',
        Option.some.injEq] at hstep
      obtain ⟨-, hown, rfl⟩ := hstep
      refine h.regMr ⟨host, key, mr, shm, .issued⟩ rfl fun r' hr' hlive => ?_
      by_cases hhost : r'.host = host
      · exact hown r' hr' hlive hhost
      · exact hreg r' hr' hlive hhost
  | storeLkey i => exact h.storeLkey hstep
  | startMapping i => exact h.startMapping hstep
  | send i => exact h.send hstep
  | skip i => exact hreg.elim
  | deliver i k => exact h.deliver hstep
  | recvAck i => exact h.recvAck hstep
  | recvError i => exact hreg.elim
  | answer i => exact h.answer hstep
  | deregMr i => exact h.deregMr hstep

end Steps

/-- Routers as they start are consistent. Kind: L -/
lemma consistent_start (hosts : List ℕ) : Consistent hosts Net.start where
  progress := fun i r hr => by simp [Net.start] at hr
  keys := fun i j r r' hr => by simp [Net.start] at hr
  fresh := fun i _ k _ => ⟨rfl, rfl⟩

/-! ## Translation -/

/-- **Translation of one-sided requests**: on every host, a one-sided request with the key of a
registration that has been answered goes to the registration's router address of the same
offset. `R` and `look` are the rest of the router's state. Kind: D -/
def Translates (hosts : List ℕ) (n : Net) : Prop :=
  ∀ r ∈ n.regs, r.phase = .answered → ∀ b ∈ hosts, ∀ (R : Tables) (look : ℕ × ℕ) (f : WrFields),
    oneSided f.opcode → f.rkey = r.key →
    (remoteFields (channelDecoder R fun _ => n.rkeyMrShm b) look f).2.remoteAddr =
      r.shmPtr + (f.remoteAddr - r.mrPtr)

/-- The router translates through the entry it finds. Kind: L -/
lemma remoteFields_of_entry {R : Tables} {tbl : UInt32 → Option MrShm} {f : WrFields} {e : MrShm}
    (look : ℕ × ℕ) (hop : oneSided f.opcode) (he : tbl f.rkey = some e) :
    (remoteFields (channelDecoder R fun _ => tbl) look f).2.remoteAddr =
      e.shmPtr + (f.remoteAddr - e.mrPtr) := by
  have hlook : ((channelDecoder R fun _ => tbl).lookup look f.rkey).2 = some e := by
    obtain ⟨left, t⟩ := look
    cases left with
    | zero => exact he
    | succ left => simp [channelDecoder, retryLookup, he]
  rw [remoteFields, if_pos hop]
  rcases hpair : (channelDecoder R fun _ => tbl).lookup look f.rkey with ⟨look', found⟩
  rw [hpair] at hlook
  simp only at hlook
  subst hlook
  simp only [UInt64.sub_eq_add_neg, UInt64.add_assoc]

/-- **Rkey translation across hosts**: for any number of hosts, in every run of registrations,
deliveries in any order and deregistrations in which no HCA issues a key that is live on another
host and no announcement passes over a host, one-sided requests to answered registrations are
translated correctly on every host.
Source: `ffrouter.cpp` `HandleRequest` (`IBV_REG_MR_MAPPING`), `UDPServer`, `CtrlChannelLoop`
Kind: P -/
theorem translated_of_regular (hosts : List ℕ) (acts : List Act) (n : Net)
    (hregular : Along (step hosts) Regular Net.start acts)
    (hrun : exec (step hosts) Net.start acts = some n) : Translates hosts n := by
  have hinv : Consistent hosts n := exec_invariant_along
    (fun _ _ _ h hreg hstep => h.step hreg hstep) (consistent_start hosts) hregular hrun
  intro r hr hphase b hb R look f hop hkey
  obtain ⟨i, hi⟩ := List.mem_iff_getElem?.mp hr
  have hprog := hinv.progress i r hi
  rw [Progress, hphase] at hprog
  have hentry := (hprog.2 b hb).resolve_left (List.not_mem_nil)
  rw [← hkey] at hentry
  exact remoteFields_of_entry look hop hentry

/-! Two hosts, each with one region: host `0` at `0x10000` (router address `0x50000`), host `1` at
`0x20000` (router address `0x90000`). -/

/-- The announcement of registration `i` to both hosts. Kind: D -/
def announce (i : ℕ) : List Act :=
  [.storeLkey i, .startMapping i, .send i, .deliver i 1, .recvAck i, .send i, .deliver i 0,
    .recvAck i, .answer i]

/-- Both hosts register a region, with keys `k` and `k'`. Kind: D -/
def registerBoth (k k' : UInt32) : List Act :=
  .regMr 0 k 0x10000 0x50000 :: .regMr 1 k' 0x20000 0x90000 :: (announce 0 ++ announce 1)

/-- With different keys both regions are reached. Kind: C -/
theorem translated_two_hosts :
    ∃ n, exec (step [0, 1]) Net.start (registerBoth 7 8) = some n ∧
      n.regs.map Reg.phase = [.answered, .answered] ∧ Translates [0, 1] n :=
  ⟨_, rfl, by decide, translated_of_regular [0, 1] (registerBoth 7 8) _
    (along_of_alongB (step [0, 1]) (by decide)) rfl⟩

/-- **With equal keys** both registrations are answered, and a write from host `1` to offset `16`
of host `0`'s region is translated to host `1`'s own region. Kind: C -/
theorem translation_fails_equal_keys :
    ∃ n, exec (step [0, 1]) Net.start (registerBoth 7 7) = some n ∧
      n.regs.map Reg.phase = [.answered, .answered] ∧ n.rkeyMrShm 1 7 = some ⟨0x20000, 0x90000⟩ ∧
      ¬ Translates [0, 1] n := by
  refine ⟨_, rfl, by decide, by decide, fun hall => ?_⟩
  have hwrite := hall _ (List.mem_cons_self ..) rfl 1 (by simp)
    ⟨fun _ => none, fun _ => none, fun _ => none, fun _ => none, fun _ => 0⟩ (5, 0)
    ⟨0, 0, WrOpcode.rdmaWrite.code, 0, 0, 0x10010, 7, []⟩ (by decide) rfl
  exact absurd hwrite (by decide)

end FreeFlow.Hosts
