import FreeFlow.Client.Incoming

/-!
# What a poll writes to the application's memory

A receive names a scatter list, and a message fills the first `byte_len` bytes of it. The rest of
the list is the application's: a transport does not touch it. `ibv_cmd_poll_cq` copies a buffer that
is not in place back from the shared memory, and it copies the length that was recorded when the
receive was posted, whatever `byte_len` says. So what the piece holds behind the message, from the
registration or from earlier traffic, replaces what the application has there.

* `scatter`, `InOrder` — the HCA fills the elements of a scatter list one after the other.
* `InFirst` — the first `n` bytes of a scatter list.
* `WritesArrived` — a poll changes nothing but the bytes that arrived with its successful receives.
* `TailsAgree` — the condition: wherever nothing arrived, the piece and the buffer agree.
* `writesArrived_iff_tailsAgree` — after every regular run, and for every poll, the one holds
  exactly when the other does.
* `writesArrived_fails_tail` — a message of one byte for a buffer of four.

Source: `cmd.c` `ibv_cmd_poll_cq`, `ibv_cmd_post_recv`; `verbs.h` `struct ibv_wc`.
-/

namespace FreeFlow.Client.Incoming

open FreeFlow.Found FreeFlow.Verbs

/-! ## Messages in scatter lists -/

/-- The parts of a message that the elements of a scatter list get. Kind: D -/
def scatter : List Target → List UInt8 → List (List UInt8)
  | [], _ => []
  | t :: ts, msg => msg.take t.sge.length.toNat :: scatter ts (msg.drop t.sge.length.toNat)

/-- What the HCA wrote is a message, scattered. Kind: D -/
def Scattered (fs : List Filled) : Prop :=
  ∃ msg, fs.map Filled.bytes = scatter (fs.map Filled.target) msg

/-- `byte_len` of a completion: what arrived. Source: `verbs.h` `struct ibv_wc`. Kind: D -/
def byteLen (fs : List Filled) : ℕ := (fs.map fun f => f.bytes.length).sum

/-- The address `x` is one of the first `n` bytes of the scatter list. Kind: D -/
def InFirst : List Sge → ℕ → ℕ → Prop
  | [], _, _ => False
  | e :: es, n, x =>
      (e.addr.toNat ≤ x ∧ x < e.addr.toNat + min n e.length.toNat) ∨
        InFirst es (n - e.length.toNat) x

/-- No more arrives than was sent. Kind: L -/
lemma byteLen_le {fs : List Filled} {msg : List UInt8}
    (h : fs.map Filled.bytes = scatter (fs.map Filled.target) msg) : byteLen fs ≤ msg.length := by
  induction fs generalizing msg with
  | nil => exact Nat.zero_le _
  | cons f fs ih =>
      rw [List.map_cons, List.map_cons, scatter, List.cons.injEq] at h
      have hrest := ih h.2
      have hfirst : f.bytes.length = min f.target.sge.length.toNat msg.length := by
        rw [h.1, List.length_take]
      rw [List.length_drop] at hrest
      rw [byteLen, List.map_cons, List.sum_cons]
      unfold byteLen at hrest
      omega

/-- **The first bytes of a scatter list** are those that its elements got. Kind: L -/
lemma inFirst_iff {fs : List Filled} (h : Scattered fs) (x : ℕ) :
    InFirst (fs.map fun f => f.target.sge) (byteLen fs) x ↔
      ∃ f ∈ fs, f.target.sge.addr.toNat ≤ x ∧ x < f.target.sge.addr.toNat + f.bytes.length := by
  induction fs with
  | nil => simp [InFirst]
  | cons f fs ih =>
      obtain ⟨msg, h⟩ := h
      rw [List.map_cons, List.map_cons, scatter, List.cons.injEq] at h
      have hrest : byteLen fs ≤ msg.length - f.target.sge.length.toNat := by
        have hle := byteLen_le h.2
        rwa [List.length_drop] at hle
      have hfirst : f.bytes.length = min f.target.sge.length.toNat msg.length := by
        rw [h.1, List.length_take]
      have hsum : byteLen (f :: fs) = f.bytes.length + byteLen fs := by
        rw [byteLen, List.map_cons, List.sum_cons, byteLen]
      -- the element is full, or nothing is left for the others
      have hmin : min (byteLen (f :: fs)) f.target.sge.length.toNat = f.bytes.length := by omega
      have hleft : byteLen (f :: fs) - f.target.sge.length.toNat = byteLen fs := by omega
      rw [List.map_cons, InFirst, hmin, hleft, ih ⟨_, h.2⟩]
      simp

/-- **The condition on the HCA**: it scatters the message of a receive, and the answer to a read, in
the order of the elements. Kind: D -/
def InOrder (s : State) : Act → Prop
  | .received q _ _ data => ∀ ts,
      s.recvs[s.sys.outstanding.findIdx fun r => r.place = .qp q]? = some ts →
        ∃ msg, data = scatter ts msg
  | .fetched i _ _ _ _ data => ∀ ts, s.reads[i]? = some ts → ∃ msg, data = scatter ts msg
  | _ => True

/-- A message, scattered. Kind: L -/
lemma scattered_zipWith (ts : List Target) (msg : List UInt8) :
    Scattered (ts.zipWith Filled.mk (scatter ts msg)) := by
  refine ⟨msg, ?_⟩
  induction ts generalizing msg with
  | nil => rfl
  | cons t ts ih => simp [scatter, ih]

/-- What a completion with data adds. Kind: L -/
lemma filled_of_deliver {s s' : State} {sys : System} {ts : List Target} {data : List (List UInt8)}
    (h : s.deliver sys ts data = some s') :
    s'.filled = s.filled ++ [ts.zipWith Filled.mk data] := by
  simp only [State.deliver, Option.bind_eq_bind, Option.bind_eq_some_iff, Option.some.injEq] at h
  obtain ⟨_, -, rfl⟩ := h
  rfl

/-- Everything that is in the CQ was scattered. Kind: D -/
def State.AllScattered (s : State) : Prop := ∀ fs ∈ s.filled, Scattered fs

/-- A completion with scattered data keeps that. Kind: L -/
lemma State.AllScattered.deliver {s s' : State} (h : s.AllScattered) {sys : System}
    {ts : List Target} {data : List (List UInt8)} (hdata : ∃ msg, data = scatter ts msg)
    (hs : s.deliver sys ts data = some s') : s'.AllScattered := by
  obtain ⟨msg, rfl⟩ := hdata
  intro fs hfs
  rw [filled_of_deliver hs, List.mem_append, List.mem_singleton] at hfs
  rcases hfs with hfs | rfl
  · exact h fs hfs
  · exact scattered_zipWith ts msg

/-- So does every step. Kind: L -/
lemma State.AllScattered.step {qps : List QpAttr} {s s' : State} {a : Act} (h : s.AllScattered)
    (hord : InOrder s a) (hs : Incoming.step qps s a = some s') : s'.AllScattered := by
  cases a with
  | mem a =>
      simp only [Incoming.step, Option.bind_eq_bind, Option.bind_eq_some_iff, Option.some.injEq]
        at hs
      obtain ⟨_, -, _, -, rfl⟩ := hs
      exact h
  | received q ok bit data =>
      simp only [Incoming.step, Option.bind_eq_bind, Option.bind_eq_some_iff] at hs
      obtain ⟨sys, -, ts, hts, hs⟩ := hs
      refine State.AllScattered.deliver ?_ (hord ts hts) hs
      exact h
  | fetched i q wrId ok bit data =>
      simp only [Incoming.step, Option.bind_eq_bind, Option.bind_eq_some_iff] at hs
      obtain ⟨sys, -, ts, hts, hs⟩ := hs
      refine State.AllScattered.deliver ?_ (hord ts hts) hs
      exact h
  | ring a =>
      simp only [Incoming.step, Option.bind_eq_bind, Option.bind_eq_some_iff] at hs
      obtain ⟨sys, -, hs⟩ := hs
      cases a with
      | postRecv q ws k | postSrqRecv i ws k =>
          simp only [Option.bind_eq_some_iff, Option.some.injEq] at hs
          obtain ⟨_, -, rfl⟩ := hs
          exact h
      | take q =>
          rw [Option.some.injEq] at hs
          rw [← hs]
          exact h
      | complete q ok bit => exact absurd hs (by simp)
      | completeSend q wrId ok bit => exact State.AllScattered.deliver h ⟨[], rfl⟩ hs
      | poll n =>
          simp only [Option.bind_eq_some_iff, Option.some.injEq] at hs
          obtain ⟨_, -, rfl⟩ := hs
          exact fun fs hfs => h fs (List.mem_of_mem_drop hfs)

/-! ## What a poll changes -/

/-- The completions that a poll returns, each with what was written for it. Kind: D -/
def State.polled (s : State) (n : ℕ) : List (Cqe × List Filled) := (s.sys.cq.zip s.filled).take n

/-- A byte of the scatter list that arrived with a successful receive. Kind: D -/
def Arrived (p : Cqe × List Filled) (x : ℕ) : Prop :=
  p.1.ok = true ∧ p.1.recv.isSome = true ∧
    InFirst (p.2.map fun f => f.target.sge) (byteLen p.2) x

/-- **The poll writes only what arrived**: every byte of the application's memory that the call from
`s` to `u` has changed is one of the first `byte_len` bytes of the scatter list of a successful
receive that it returns. Kind: D -/
def WritesArrived (s u : State) (n : ℕ) : Prop :=
  ∀ x, u.mem.space.byte x ≠ s.mem.space.byte x → ∃ p ∈ s.polled n, Arrived p x

/-- **The condition**: in every buffer of the completions, where nothing arrived the piece holds
what the application has. Kind: D -/
def TailsAgree (s : State) (n : ℕ) : Prop :=
  ∀ p ∈ s.polled n, ∀ f ∈ p.2, ∀ i < f.target.sge.length.toNat,
    ¬ (p.1.ok = true ∧ p.1.recv.isSome = true ∧ i < f.bytes.length) →
      s.mem.space.cell ⟨f.target.obj, f.target.off + i⟩ =
        s.mem.space.byte (f.target.sge.addr.toNat + i)

section Poll

variable {qps : List QpAttr} {s : State}

/-- What was written for the completions of a poll. Kind: L -/
lemma Inv.map_snd_polled (h : Inv qps s) (n : ℕ) : (s.polled n).map Prod.snd = s.filled.take n := by
  rw [State.polled, List.map_take, List.map_snd_zip h.filled.length_eq.le]

/-- The elements of all of them, each with its completion. Kind: D -/
def State.parts (s : State) (n : ℕ) : List (Cqe × Filled) :=
  (s.polled n).flatMap fun p => p.2.map (Prod.mk p.1)

/-- An element of a completion is one of them. Kind: L -/
lemma mem_parts {n : ℕ} {c : Cqe} {f : Filled} :
    (c, f) ∈ s.parts n ↔ ∃ fs, (c, fs) ∈ s.polled n ∧ f ∈ fs := by
  simp [State.parts]

/-- They are the ones that were filled first. Kind: L -/
lemma Inv.map_snd_parts (h : Inv qps s) (n : ℕ) :
    (s.parts n).map Prod.snd = (s.filled.take n).flatten := by
  rw [← h.map_snd_polled, State.parts, List.map_flatMap, List.flatten_eq_flatMap, List.flatMap_map]
  simp [Function.comp_def]

/-- **No two of them share an address.** Kind: L -/
lemma Inv.parts_unique (h : Inv qps s) {n : ℕ} {e e' : Cqe × Filled} (he : e ∈ s.parts n)
    (he' : e' ∈ s.parts n) {x : ℕ}
    (hx : e.2.target.sge.addr.toNat ≤ x ∧
      x < e.2.target.sge.addr.toNat + e.2.target.sge.length.toNat)
    (hx' : e'.2.target.sge.addr.toNat ≤ x ∧
      x < e'.2.target.sge.addr.toNat + e'.2.target.sge.length.toNat) : e = e' := by
  have hpair := h.apart.sublist (sublist_inFlight s n)
  rw [← h.map_snd_parts, List.map_map, List.pairwise_map] at hpair
  have hsymm : Std.Symm fun e e' : Cqe × Filled => ApartSge (Filled.target ∘ Prod.snd <| e).sge
      (Filled.target ∘ Prod.snd <| e').sge := ⟨fun _ _ hab => Regions.Disjoint.symm hab⟩
  by_contra hne
  exact hpair.forall he he' hne x hx.1 hx.2 hx'.1 hx'.2

/-- A completion of the poll delivers at most the length of its buffers. Kind: L -/
lemma Inv.bytes_le (h : Inv qps s) {n : ℕ} {c : Cqe} {fs : List Filled}
    (hp : (c, fs) ∈ s.polled n) {f : Filled} (hf : f ∈ fs) :
    f.bytes.length ≤ f.target.sge.length.toNat := by
  have hall : ∀ fs ∈ s.filled, ∀ f ∈ fs, f.bytes.length ≤ f.target.sge.length.toNat :=
    forall_left_of_forall₂ h.filled fun fs c he f hf => (he.bytes f hf).1
  exact hall fs (List.of_mem_zip (List.mem_of_mem_take hp)).2 f hf

/-- The first bytes of a scatter list that the poll returns. Kind: L -/
lemma inFirst_iff_of_polled (hscat : s.AllScattered) {n : ℕ} {c : Cqe} {fs : List Filled}
    (hp : (c, fs) ∈ s.polled n) (x : ℕ) :
    InFirst (fs.map fun f => f.target.sge) (byteLen fs) x ↔
      ∃ f ∈ fs, f.target.sge.addr.toNat ≤ x ∧ x < f.target.sge.addr.toNat + f.bytes.length :=
  inFirst_iff (hscat fs (List.of_mem_zip (List.mem_of_mem_take hp)).2) x

variable {u : State} {n : ℕ}

/-- The copies of a poll that is a step. Kind: L -/
lemma copiedBack_of_poll (h : Inv qps s) (hu : step qps s (.ring (.poll n)) = some u) :
    ∃ ts, CopiedBack s.mem ts u.mem.space ∧
      ts.Sublist ((s.filled.take n).flatten.map Filled.target) ∧
      ∀ fs ∈ s.filled.take n, ∀ f ∈ fs,
        f.target ∈ ts ∨ ∃ r, At s.mem.live f.target r ∧ r.InPlace := by
  have hn : n ≤ s.sys.cq.length := by
    simp only [step, Option.bind_eq_bind, Option.bind_eq_some_iff] at hu
    obtain ⟨sys, hsys, -⟩ := hu
    exact (step_poll_iff.mp hsys).1
  obtain ⟨u', ts, hu', -, hS, hsub, hall⟩ := h.poll_copiedBack hn
  obtain rfl : u' = u := Option.some.inj (hu'.symm.trans hu)
  exact ⟨ts, hS, hsub, hall⟩

/-- **A byte of a buffer that differs from the piece is changed.** Kind: L -/
lemma changed_of_ne (h : Inv qps s) (hu : step qps s (.ring (.poll n)) = some u) {c : Cqe}
    {fs : List Filled} (hp : (c, fs) ∈ s.polled n) {f : Filled} (hf : f ∈ fs) {i : ℕ}
    (hi : i < f.target.sge.length.toNat)
    (hne : s.mem.space.cell ⟨f.target.obj, f.target.off + i⟩ ≠
      s.mem.space.byte (f.target.sge.addr.toNat + i)) :
    u.mem.space.byte (f.target.sge.addr.toNat + i) ≠
      s.mem.space.byte (f.target.sge.addr.toNat + i) := by
  obtain ⟨ts, hS, -, hall⟩ := copiedBack_of_poll h hu
  have hfs : fs ∈ s.filled.take n := h.map_snd_polled n ▸ List.mem_map_of_mem hp
  rcases hall fs hfs f hf with hcopied | ⟨r, hat, hplace⟩
  · rwa [hS.back _ hcopied i hi]
  · exact absurd (byte_of_inPlace h.mem hat hplace rfl hi).symm hne

/-- **A byte that is changed** is one of a buffer, and differs from the piece. Kind: L -/
lemma ne_of_changed (h : Inv qps s) (hu : step qps s (.ring (.poll n)) = some u) {x : ℕ}
    (hx : u.mem.space.byte x ≠ s.mem.space.byte x) :
    ∃ c fs f i, (c, fs) ∈ s.polled n ∧ f ∈ fs ∧ i < f.target.sge.length.toNat ∧
      x = f.target.sge.addr.toNat + i ∧
      s.mem.space.cell ⟨f.target.obj, f.target.off + i⟩ ≠ s.mem.space.byte x := by
  obtain ⟨ts, hS, hsub, -⟩ := copiedBack_of_poll h hu
  have hin : ∃ t ∈ ts, t.sge.addr.toNat ≤ x ∧ x < t.sge.addr.toNat + t.sge.length.toNat := by
    by_contra hout
    refine hx (hS.byte x fun t ht => ?_)
    by_contra hin
    exact hout ⟨t, ht, by omega, by omega⟩
  obtain ⟨t, ht, hlo, hhi⟩ := hin
  obtain ⟨f, hf, rfl⟩ := List.mem_map.mp (hsub.subset ht)
  rw [← h.map_snd_parts, List.mem_map] at hf
  obtain ⟨⟨c, f⟩, he, rfl⟩ := hf
  obtain ⟨fs, hp, hf⟩ := mem_parts.1 he
  obtain ⟨i, rfl⟩ := Nat.exists_eq_add_of_le hlo
  have hi : i < f.target.sge.length.toNat := by simpa using hhi
  exact ⟨c, fs, f, i, hp, hf, hi, rfl, by rwa [hS.back _ ht i hi] at hx⟩

/-- **A poll and the tails**, from any state with the invariant. Kind: L -/
lemma writesArrived_iff_of_inv (h : Inv qps s) (hscat : s.AllScattered)
    (hu : step qps s (.ring (.poll n)) = some u) : WritesArrived s u n ↔ TailsAgree s n := by
  constructor
  · rintro hwrites ⟨c, fs⟩ hp f hf i hi htail
    by_contra hne
    -- the changed byte arrived with an element, and no other element than `f` has its address
    obtain ⟨⟨c', fs'⟩, hp', hok, hrecv, hin⟩ := hwrites _ (changed_of_ne h hu hp hf hi hne)
    obtain ⟨f', hf', hlo, hhi⟩ := (inFirst_iff_of_polled hscat hp' _).1 hin
    have hlen := h.bytes_le hp' hf'
    have heq : (c, f) = (c', f') :=
      h.parts_unique (mem_parts.2 ⟨fs, hp, hf⟩) (mem_parts.2 ⟨fs', hp', hf'⟩)
        ⟨Nat.le_add_right _ _, Nat.add_lt_add_left hi _⟩ ⟨hlo, by simp only at hhi ⊢; omega⟩
    rw [Prod.mk.injEq] at heq
    obtain ⟨rfl, rfl⟩ := heq
    exact htail ⟨hok, hrecv, by omega⟩
  · intro htails x hx
    obtain ⟨c, fs, f, i, hp, hf, hi, rfl, hne⟩ := ne_of_changed h hu hx
    have harrived : c.ok = true ∧ c.recv.isSome = true ∧ i < f.bytes.length := by
      by_contra htail
      exact hne (htails (c, fs) hp f hf i hi htail)
    exact ⟨(c, fs), hp, harrived.1, harrived.2.1, (inFirst_iff_of_polled hscat hp _).2
      ⟨f, hf, Nat.le_add_right _ _, Nat.add_lt_add_left harrived.2.2 _⟩⟩

end Poll

/-- **What a poll writes.** For every set of queue pairs on one CQ, after every regular run in which
the HCA scatters in order, and for every poll: the call writes only what arrived exactly when, in
the buffers it returns, the piece and the buffer agree wherever nothing arrived.
Source: `cmd.c` `ibv_cmd_poll_cq`
Kind: P -/
theorem writesArrived_iff_tailsAgree (qps : List QpAttr) (s t u : State) (acts : List Act)
    (hs : Start s) (hreg : Along (step qps) (Regular qps) s acts)
    (hord : Along (step qps) InOrder s acts) (hrun : exec (step qps) s acts = some t) (n : ℕ)
    (hu : step qps t (.ring (.poll n)) = some u) : WritesArrived t u n ↔ TailsAgree t n := by
  have hinv : Inv qps t :=
    exec_invariant_along (fun _ _ _ h hreg hstep => h.step hreg hstep) (hs.inv qps) hreg hrun
  have hscat : t.AllScattered :=
    exec_invariant_along (fun _ _ _ h hord hstep => h.step hord hstep)
      (fun fs hfs => absurd hfs (by simp [hs.filled])) hord hrun
  exact writesArrived_iff_of_inv hinv hscat hu

/-! Four bytes that are not in place, of which the application has written the second one. -/

/-- The registration, the write, and a receive for all four bytes. Kind: D -/
def tailActs : List Act :=
  [sampleReg, .mem (.store 0x10005 [9]),
    .ring (.postRecv 0 [.ofParts 101 [⟨0x10004, 4, 2⟩] (by decide)] 1)]

/-- A message of four bytes or of one, and the state after it. Kind: D -/
def tailReceived (msg : List UInt8) : List Act := tailActs ++ [.received 0 true true [msg]]

/-- The runs are regular. Kind: L -/
lemma regular_tailReceived (msg : List UInt8) :
    Along (step sampleQps) (Regular sampleQps) sampleStart (tailReceived msg) := by
  refine along_cons ⟨⟨by decide, ?_⟩, trivial⟩ step_sampleReg
    (along_cons ⟨trivial, ?_⟩ rfl (along_cons ⟨⟨rfl, rfl, by decide⟩, ?_, ?_⟩ rfl
      ⟨⟨rfl, rfl⟩, fun _ _ => trivial⟩))
  · intro k r hr
    exact absurd hr (by simp [sampleStart, Regions.sampleState])
  · intro t ht
    exact absurd ht (by simp [State.inFlight, sampleRegistered, sampleStart])
  · intro e he
    have heq : e = ⟨0x10004, 4, 2⟩ := by simpa [RecvWr.ofParts] using he
    rw [heq]
    exact ⟨_, rfl, by decide⟩
  · exact List.pairwise_singleton _ _

/-- The HCA scatters in order, into the one element. Kind: L -/
lemma inOrder_tailReceived {msg : List UInt8} (hmsg : msg.length ≤ 4) :
    Along (step sampleQps) InOrder sampleStart (tailReceived msg) := by
  refine along_cons trivial step_sampleReg (along_cons trivial rfl (along_cons trivial rfl
    ⟨fun ts hts => ⟨msg, ?_⟩, fun _ _ => trivial⟩))
  obtain rfl : [⟨⟨0x10004, 4, 2⟩, 1, 0⟩] = ts := Option.some.inj hts
  show [msg] = [msg.take 4]
  rw [List.take_of_length_le hmsg]

/-- A message of four bytes. Kind: C -/
theorem writesArrived_full :
    ∃ t u, exec (step sampleQps) sampleStart (tailReceived [42, 43, 44, 45]) = some t ∧
      step sampleQps t (.ring (.poll 1)) = some u ∧ WritesArrived t u 1 := by
  have hrun : ∃ t, exec (step sampleQps) sampleStart (tailReceived [42, 43, 44, 45]) = some t ∧
      (∃ u, step sampleQps t (.ring (.poll 1)) = some u) ∧
      ∃ c, t.polled 1 = [(c, [⟨⟨⟨0x10004, 4, 2⟩, 1, 0⟩, [42, 43, 44, 45]⟩])] ∧ c.ok = true ∧
        c.recv.isSome = true :=
    ⟨_, (exec_cons_eq_some _).mpr ⟨_, step_sampleReg, rfl⟩, ⟨_, rfl⟩, _, rfl, rfl, rfl⟩
  obtain ⟨t, hrun, ⟨u, hu⟩, c, hpolled, hok, hrecv⟩ := hrun
  refine ⟨t, u, hrun, hu, (writesArrived_iff_tailsAgree sampleQps sampleStart t u _
    start_sampleStart (regular_tailReceived _) (inOrder_tailReceived (by decide)) hrun 1 hu).2 ?_⟩
  intro p hp f hf i hi htail
  rw [hpolled, List.mem_singleton] at hp
  subst hp
  rw [List.mem_singleton] at hf
  subst hf
  exact absurd ⟨hok, hrecv, hi⟩ htail

/-- **A message of one byte**: the second byte of the buffer was nine, as the application had
written it, and after the poll it is one, as it was when the MR was registered. Kind: C -/
theorem writesArrived_fails_tail :
    ∃ t u, exec (step sampleQps) sampleStart (tailReceived [42]) = some t ∧
      t.sys.cq.map (fun c => (c.wrId, c.ok)) = [(101, true)] ∧
      t.filled.map byteLen = [1] ∧ step sampleQps t (.ring (.poll 1)) = some u ∧
      t.mem.space.byte 0x10005 = 9 ∧ u.mem.space.byte 0x10005 = 1 ∧ ¬ WritesArrived t u 1 := by
  refine ⟨_, _, (exec_cons_eq_some _).mpr ⟨_, step_sampleReg, rfl⟩, rfl, rfl, rfl, rfl, rfl,
    fun hwrites => ?_⟩
  obtain ⟨p, hp, -, -, hin⟩ := hwrites 0x10005 (by decide)
  obtain rfl := List.mem_singleton.mp hp
  -- the message has filled the first byte alone
  rcases hin with hin | hin
  · exact absurd hin (by decide)
  · exact hin

end FreeFlow.Client.Incoming
