import FreeFlow.Client.RecvRing
import FreeFlow.Client.Regions
import FreeFlow.Found.Lists

/-!
# Incoming data: what the application finds in its buffers

A receive, an RDMA read and an atomic deliver data into local buffers. The HCA writes it to the
shared memory object behind the MR, at the offset the router worked out when the request was posted.
For an MR in place the application sees it there. For an MR that is copied, somebody has to copy it
back, and that is `ibv_cmd_poll_cq`: for a completion with the receive bit it copies the elements of
the record it pops, when their two addresses differ. For a completion without that bit it copies
nothing, so the result of an RDMA read or an atomic never reaches a buffer that is not in place.

The machine joins the two before: the registered memory, and the receive rings of a CQ.

* `State`, `Act`, `step` — memory, rings, what is in flight, and what the HCA put where.
* `Regular` — the condition: receives in ring order, MRs apart, reads and atomics into MRs in place,
  and buffers in flight left alone.
* `delivered_of_regular` — under it every poll of every run leaves in the application's buffers what
  the HCA wrote.
* `delivery_fails_read` — an RDMA read into an MR that is not in place.

Source: `cmd.c` `ibv_cmd_reg_mr`, `ibv_cmd_post_send`, `ibv_cmd_post_recv`, `ibv_cmd_poll_cq`;
`verbs.h` `enum ibv_wc_opcode`.
-/

namespace FreeFlow.Client.Incoming

open FreeFlow.Found FreeFlow.Verbs

/-! ## The machine -/

/-- Where the data of an element goes: the object and the offset that the router resolved when the
request was posted. Kind: D -/
structure Target where
  sge : Sge
  obj : ℕ
  off : ℕ
  deriving DecidableEq, Repr

/-- The client sends the offset in the MR, the router adds it to `lkey_ptr`.
Source: `cmd.c` `ibv_cmd_post_recv`; `ffrouter.cpp` `CtrlChannelLoop`
Kind: D -/
def target (m : Regions.State) (e : Sge) : Option Target := do
  let p ← m.lib.mapLkeyToMrShm e.lkey
  let q ← m.lkeyPtr e.lkey
  some ⟨e, q.obj, (e.addr - p.mr).toNat⟩

/-- The targets of every request of a list. Kind: D -/
def targets (m : Regions.State) (ess : List (List Sge)) : Option (List (List Target)) :=
  ess.mapM fun es => es.mapM (target m)

/-- A buffer with the bytes that the HCA wrote for it. Kind: D -/
structure Filled where
  target : Target
  bytes : List UInt8
  deriving DecidableEq, Repr

/-- The opcodes that bring data into local buffers. Source: `verbs.h`. Kind: D -/
def fetches (w : SendWr) : Bool :=
  w.fields.opcode = WrOpcode.rdmaRead.code ∨ w.fields.opcode = WrOpcode.atomicCmpAndSwp.code ∨
    w.fields.opcode = WrOpcode.atomicFetchAndAdd.code

/-- The memory and the rings; the targets of the outstanding receives, in the order of
`sys.outstanding`; those of the outstanding reads and atomics; and what was written for each
completion of the CQ, in the order of `sys.cq`. Kind: D -/
structure State where
  mem : Regions.State
  sys : System
  recvs : List (List Target)
  reads : List (List Target)
  filled : List (List Filled)

/-- The queue pairs of the CQ with the client's current table of regions. Kind: D -/
def State.config (qps : List QpAttr) (s : State) : Config := ⟨qps, s.mem.lib.mapLkeyToMrShm⟩

/-- The HCA stores the bytes in the objects. Kind: D -/
def fill (S : Space) (fs : List Filled) : Space :=
  fs.foldl (fun S f => S.writeObject f.target.obj f.target.off f.bytes) S

/-- A completion that delivers `data`, at most as many bytes to each target as it is long.
Kind: D -/
def State.deliver (s : State) (sys : System) (ts : List Target) (data : List (List UInt8)) :
    Option State := do
  let fs := ts.zipWith Filled.mk data
  guard (data.length = ts.length ∧ ∀ f ∈ fs, f.bytes.length ≤ f.target.sge.length.toNat)
  some { s with
    sys := sys
    mem := { s.mem with space := fill s.mem.space fs }
    filled := s.filled ++ [fs] }

/-- The `memcpy` for a record: only when the two addresses differ.
Source: `cmd.c` `ibv_cmd_poll_cq`
Kind: D -/
def copyBack (r : SgeRecord) : Option Copy :=
  if r.mrAddr ≠ r.shmAddr then some ⟨r.mrAddr, r.shmAddr, r.length⟩ else none

/-- The copies of a poll: those of the records that its completions consumed. Kind: D -/
def copiesBack (out : List (Cqe × Option SgeQueue)) : List Copy :=
  out.flatMap fun e => (e.2.elim [] SgeQueue.records).filterMap copyBack

/-- The moves: memory calls, writes and sends; posts of receives, moves of the HCA without data, and
polls; a receive that completes with data; and a read or an atomic that does. Kind: D -/
inductive Act
  | mem (a : Regions.Act)
  | ring (a : Client.Act)
  | received (q : ℕ) (ok recvBit : Bool) (data : List (List UInt8))
  | fetched (i q : ℕ) (wrId : UInt64) (ok recvBit : Bool) (data : List (List UInt8))

/-- The elements of the reads and atomics among the requests of a step. Kind: D -/
def fetchLists : Regions.Act → List (List Sge)
  | .postSend _ ws _ => (ws.filter fetches).map SendWr.sgList
  | _ => []

/-- **One move.** The rings move as in `Client.step`, the memory as in `Regions.step`.
Source: `cmd.c` `ibv_cmd_post_send`, `ibv_cmd_post_recv`, `ibv_cmd_post_srq_recv`, `ibv_cmd_poll_cq`
Kind: D -/
def step (qps : List QpAttr) (s : State) : Act → Option State
  | .mem a => do
      let m ← Regions.step s.mem a
      let ts ← targets s.mem (fetchLists a)
      some { s with mem := m, reads := s.reads ++ ts }
  | .ring a => do
      let sys ← Client.step (s.config qps) s.sys a
      match a with
      | .postRecv _ ws k => do
          let ts ← targets s.mem (ws.map RecvWr.sgList)
          some { s with sys := sys, recvs := s.recvs ++ ts.take k }
      | .postSrqRecv _ ws k => do
          let ts ← targets s.mem (ws.map RecvWr.sgList)
          some { s with sys := sys, recvs := s.recvs ++ ts.take k }
      | .take _ => some { s with sys := sys }
      | .complete _ _ _ => none
      | .completeSend _ _ _ _ => s.deliver sys [] []
      | .poll n => do
          let out := (pollLoop (s.sys.cq.take n) (s.sys.popped (s.config qps))).2
          let S ← (copiesBack out).foldlM Regions.runCopy s.mem.space
          some { s with
            sys := sys
            mem := { s.mem with space := S }
            filled := s.filled.drop n }
  | .received q ok bit data => do
      let sys ← Client.step (s.config qps) s.sys (.complete q ok bit)
      let i := s.sys.outstanding.findIdx fun r => r.place = .qp q
      let ts ← s.recvs[i]?
      { s with recvs := s.recvs.eraseIdx i }.deliver sys ts data
  | .fetched i q wrId ok bit data => do
      let sys ← Client.step (s.config qps) s.sys (.completeSend q wrId ok bit)
      let ts ← s.reads[i]?
      { s with reads := s.reads.eraseIdx i }.deliver sys ts data

/-- Before the first registration and the first post. Kind: D -/
structure Start (s : State) : Prop where
  mem : Regions.Start s.mem
  sys : Initial s.sys
  recvs : s.recvs = []
  reads : s.reads = []
  filled : s.filled = []

/-- The targets whose data the application has not got yet. Kind: D -/
def State.inFlight (s : State) : List Target :=
  s.filled.flatten.map Filled.target ++ s.recvs.flatten ++ s.reads.flatten

/-- Two elements have no address in common. Kind: D -/
def ApartSge (e e' : Sge) : Prop :=
  Regions.Disjoint e.addr.toNat e.length.toNat e'.addr.toNat e'.length.toNat

/-- New buffers: they lie inside live MRs and overlap neither each other nor one in flight.
Kind: D -/
def State.Fresh (s : State) (es : List Sge) : Prop :=
  (∀ e ∈ es, ∃ r, s.mem.live e.lkey = some r ∧ r.Inside e) ∧
    (s.inFlight.map Target.sge ++ es).Pairwise ApartSge

/-- **The condition for a memory step**: no MR with a buffer in flight is deregistered, the shared
memory of a buffer in flight is not written to, and a list that is sent fits the channel, lies
inside live MRs outside the buffers in flight, and reads only into MRs in place. Kind: D -/
def State.Spares (s : State) : Regions.Act → Prop
  | .regMr _ _ _ _ => True
  | .deregMr k => ∀ t ∈ s.inFlight, t.sge.lkey ≠ k
  | .store a bs => ∀ t ∈ s.inFlight, ∀ r, s.mem.live t.sge.lkey = some r →
      Regions.Disjoint a bs.length (r.shmPtr.toNat + t.off) t.sge.length.toNat
  | .postSend qp ws m => encodedSize qp ws ≤ ctrlReqSize ∧
      (∀ w ∈ ws, ∀ e ∈ w.sgList, (∃ r, s.mem.live e.lkey = some r ∧ r.Inside e) ∧
        ∀ t ∈ s.inFlight, ApartSge e t.sge) ∧
      s.Fresh (fetchLists (.postSend qp ws m)).flatten ∧
      ∀ e ∈ (fetchLists (.postSend qp ws m)).flatten, ∀ r, s.mem.live e.lkey = some r → r.InPlace

/-- **The condition for a step**: receives in ring order into new buffers, MRs apart, buffers in
flight left alone, reads and atomics into MRs in place. Kind: D -/
def Regular (qps : List QpAttr) (s : State) : Act → Prop
  | .mem a => Regions.Apart s.mem a ∧ s.Spares a
  | .ring a => InRingOrder (s.config qps) s.sys a ∧
      match a with
      | .postRecv _ ws _ => s.Fresh (ws.map RecvWr.sgList).flatten
      | .postSrqRecv _ ws _ => s.Fresh (ws.map RecvWr.sgList).flatten
      | _ => True
  | .received q ok bit _ => InRingOrder (s.config qps) s.sys (.complete q ok bit)
  | .fetched _ q wrId ok bit _ => InRingOrder (s.config qps) s.sys (.completeSend q wrId ok bit)

/-! ## Buffers in flight -/

/-- The target is that of an element inside the live MR `r`. Kind: D -/
structure At (live : UInt32 → Option Regions.Region) (t : Target) (r : Regions.Region) : Prop where
  live : live t.sge.lkey = some r
  inside : r.Inside t.sge
  obj : t.obj = r.obj
  off : t.off = t.sge.addr.toNat - r.addr.toNat

/-- The record is the one that `ibv_cmd_post_recv` notes for the target. Kind: D -/
def Recorded (live : UInt32 → Option Regions.Region) (t : Target) (n : SgeRecord) : Prop :=
  ∃ r, At live t r ∧ n = sgeRecord ⟨r.addr, r.shmPtr⟩ t.sge

/-- What holds of a completion and what the HCA wrote for it: the record of a receive is that of its
targets, those of a read are in place, and the bytes are still in the objects. Kind: D -/
structure Entry (m : Regions.State) (fs : List Filled) (c : Cqe) : Prop where
  recv : ∀ r, c.recv = some r → List.Forall₂ (Recorded m.live) (fs.map Filled.target) r.records
  read : c.recv = none → ∀ f ∈ fs, ∃ r, At m.live f.target r ∧ r.InPlace
  bytes : ∀ f ∈ fs, f.bytes.length ≤ f.target.sge.length.toNat ∧
    ∀ i (h : i < f.bytes.length), m.space.cell ⟨f.target.obj, f.target.off + i⟩ = f.bytes[i]

/-- What holds between the steps. Kind: D -/
structure Inv (qps : List QpAttr) (s : State) : Prop where
  mem : Regions.Inv s.mem
  ring : Delivers (s.config qps) s.sys
  recvs : List.Forall₂ (fun ts r => List.Forall₂ (Recorded s.mem.live) ts r.records)
    s.recvs s.sys.outstanding
  reads : ∀ t ∈ s.reads.flatten, ∃ r, At s.mem.live t r ∧ r.InPlace
  filled : List.Forall₂ (Entry s.mem) s.filled s.sys.cq
  apart : s.inFlight.Pairwise fun t u => ApartSge t.sge u.sge

/-- It holds at the start. Kind: L -/
lemma Start.inv {s : State} (h : Start s) (qps : List QpAttr) : Inv qps s where
  mem := h.mem.inv
  ring := h.sys.delivers _
  recvs := by
    rw [h.recvs, h.sys.outstanding]
    exact .nil
  reads := by simp [h.reads]
  filled := by
    rw [h.filled, h.sys.cq]
    exact .nil
  apart := by simp [State.inFlight, h.recvs, h.reads, h.filled]

/-- Every target with a record is at its MR. Kind: L -/
lemma at_of_recorded {live : UInt32 → Option Regions.Region} {ts : List Target}
    {ns : List SgeRecord} (h : List.Forall₂ (Recorded live) ts ns) : ∀ t ∈ ts, ∃ r, At live t r :=
  forall_left_of_forall₂ h fun _ _ ⟨r, hat, _⟩ => ⟨r, hat⟩

/-- Every target that was filled is at its MR. Kind: L -/
lemma Entry.at_of_mem {m : Regions.State} {fs : List Filled} {c : Cqe} (h : Entry m fs c)
    {f : Filled} (hf : f ∈ fs) : ∃ r, At m.live f.target r := by
  cases hrecv : c.recv with
  | none =>
      obtain ⟨r, hat, -⟩ := h.read hrecv f hf
      exact ⟨r, hat⟩
  | some r => exact at_of_recorded (h.recv r hrecv) _ (List.mem_map_of_mem hf)

section Flight

variable {qps : List QpAttr} {s : State}

/-- What is in flight: what was filled, what is to be received and what is to be read. Kind: L -/
lemma mem_inFlight {t : Target} :
    t ∈ s.inFlight ↔ (∃ fs ∈ s.filled, t ∈ fs.map Filled.target) ∨ (∃ ts ∈ s.recvs, t ∈ ts) ∨
      t ∈ s.reads.flatten := by
  simp only [State.inFlight, List.map_flatten, List.mem_append, List.mem_flatten, List.mem_map,
    or_assoc]
  simp

/-- Every target in flight is at its MR. Kind: L -/
lemma Inv.at_of_mem (h : Inv qps s) {t : Target} (ht : t ∈ s.inFlight) :
    ∃ r, At s.mem.live t r := by
  rcases mem_inFlight.mp ht with ⟨fs, hfs, ht⟩ | ⟨ts, hts, ht⟩ | hread
  · have hall : ∀ fs ∈ s.filled, ∀ f ∈ fs, ∃ r, At s.mem.live f.target r :=
      forall_left_of_forall₂ h.filled fun fs c he f hf => he.at_of_mem hf
    obtain ⟨f, hf, rfl⟩ := List.mem_map.mp ht
    exact hall fs hfs f hf
  · have hall : ∀ ts ∈ s.recvs, ∀ t ∈ ts, ∃ r, At s.mem.live t r :=
      forall_left_of_forall₂ h.recvs fun ts r hr => at_of_recorded hr
    exact hall ts hts t ht
  · obtain ⟨r, hat, -⟩ := h.reads t hread
    exact ⟨r, hat⟩

/-- **Frame rule**: a change of the memory that leaves the MRs and the shared bytes in flight alone
keeps the invariant. Kind: L -/
lemma Inv.of_mem (h : Inv qps s) {m : Regions.State} (hm : Regions.Inv m)
    (hlive : ∀ t ∈ s.inFlight, m.live t.sge.lkey = s.mem.live t.sge.lkey)
    (hcell : ∀ t ∈ s.inFlight, ∀ j < t.sge.length.toNat,
      m.space.cell ⟨t.obj, t.off + j⟩ = s.mem.space.cell ⟨t.obj, t.off + j⟩) :
    Inv qps { s with mem := m } := by
  have hat : ∀ t ∈ s.inFlight, ∀ r, At s.mem.live t r → At m.live t r := fun t ht r h =>
    ⟨(hlive t ht).trans h.live, h.inside, h.obj, h.off⟩
  have hrec : ∀ ts : List Target, (∀ t ∈ ts, t ∈ s.inFlight) → ∀ ns,
      List.Forall₂ (Recorded s.mem.live) ts ns → List.Forall₂ (Recorded m.live) ts ns :=
    fun ts hts ns h => forall₂_imp_left h fun t ht n ⟨r, hr, hn⟩ => ⟨r, hat t (hts t ht) r hr, hn⟩
  refine ⟨hm, ⟨h.ring.ring, h.ring.bits, h.ring.log⟩, ?_, ?_, ?_, h.apart⟩
  · refine forall₂_imp_left h.recvs fun ts hts r hr => hrec ts (fun t ht => ?_) _ hr
    exact mem_inFlight.mpr (.inr (.inl ⟨ts, hts, ht⟩))
  · intro t ht
    obtain ⟨r, hr, hplace⟩ := h.reads t ht
    exact ⟨r, hat t (mem_inFlight.mpr (.inr (.inr ht))) r hr, hplace⟩
  · refine forall₂_imp_left h.filled fun fs hfs c he => ?_
    have hin : ∀ t ∈ fs.map Filled.target, t ∈ s.inFlight := fun t ht =>
      mem_inFlight.mpr (.inl ⟨fs, hfs, ht⟩)
    refine ⟨fun r hr => hrec _ hin _ (he.recv r hr), fun hnone f hf => ?_, fun f hf => ?_⟩
    · obtain ⟨r, hr, hplace⟩ := he.read hnone f hf
      exact ⟨r, hat _ (hin _ (List.mem_map_of_mem hf)) r hr, hplace⟩
    · obtain ⟨hlen, hbytes⟩ := he.bytes f hf
      refine ⟨hlen, fun i hi => ?_⟩
      rw [hcell _ (hin _ (List.mem_map_of_mem hf)) i (by omega)]
      exact hbytes i hi

end Flight

/-! ## Copying back -/

section CopyBack

variable {m : Regions.State} {t : Target} {r : Regions.Region}

/-- The shared memory of a target leads to its bytes. Kind: L -/
lemma map_of_at (h : Regions.Inv m) (ht : At m.live t r) {j : ℕ} (hj : j < t.sge.length.toNat) :
    m.space.map (r.shmPtr.toNat + (t.off + j)) = some ⟨t.obj, t.off + j⟩ := by
  obtain ⟨hlo, hhi⟩ := ht.inside
  have hoff := ht.off
  rw [ht.obj]
  exact h.owned _ r ht.live _ (by omega)

/-- The buffer of a target in place is its shared memory. Kind: L -/
lemma byte_of_inPlace (h : Regions.Inv m) (ht : At m.live t r) (hplace : r.InPlace) {S : Space}
    (hmap : S.map = m.space.map) {i : ℕ} (hi : i < t.sge.length.toNat) :
    S.byte (t.sge.addr.toNat + i) = S.cell ⟨t.obj, t.off + i⟩ := by
  have hloc := map_of_at h ht hi
  obtain ⟨hlo, -⟩ := ht.inside
  have hoff := ht.off
  rw [show r.shmPtr = r.addr from hplace, ← hmap,
    show r.addr.toNat + (t.off + i) = t.sge.addr.toNat + i by omega] at hloc
  exact Space.byte_of_map hloc

/-- The copy that a target needs. Kind: D -/
def backOf (live : UInt32 → Option Regions.Region) (t : Target) : Option Copy :=
  (live t.sge.lkey).bind fun r => if r.InPlace then none
    else some ⟨t.sge.addr, r.shmPtr + (t.sge.addr - r.addr), t.sge.length⟩

/-- It is the one that the poll makes for its record. Kind: L -/
lemma copyBack_of_recorded {n : SgeRecord} (h : Recorded m.live t n) :
    copyBack n = backOf m.live t := by
  obtain ⟨r, ht, rfl⟩ := h
  have haddr : r.addr + (t.sge.addr - r.addr) = t.sge.addr := addr_add_offset _ _
  unfold copyBack backOf sgeRecord
  rw [ht.live]
  simp only [haddr, Option.bind_some]
  by_cases hplace : r.InPlace
  · have hsame : r.shmPtr + (t.sge.addr - r.addr) = t.sge.addr := by
      rw [show r.shmPtr = r.addr from hplace, haddr]
    rw [if_pos hplace, if_neg (by simp [hsame])]
  · have hne : t.sge.addr ≠ r.shmPtr + (t.sge.addr - r.addr) := by
      intro heq
      apply hplace
      unfold Regions.Region.InPlace
      rw [← UInt64.add_left_inj (t.sge.addr - r.addr), ← heq, haddr]
    rw [if_neg hplace, if_pos hne]

/-- So for a whole record. Kind: L -/
lemma filterMap_copyBack {ts : List Target} {ns : List SgeRecord}
    (h : List.Forall₂ (Recorded m.live) ts ns) :
    ns.filterMap copyBack = ts.filterMap (backOf m.live) := by
  induction h with
  | nil => rfl
  | cons hfirst _ ih =>
      rw [List.filterMap_cons, List.filterMap_cons, copyBack_of_recorded hfirst, ih]

/-- **One copy back**: it ends, the buffer holds the shared bytes, no byte outside the buffer has
changed, and neither has a shared byte of a target that is copied or apart. Kind: L -/
lemma runCopy_back (h : Regions.Inv m) (ht : At m.live t r) :
    ∃ S, Regions.runCopy m.space
        ⟨t.sge.addr, r.shmPtr + (t.sge.addr - r.addr), t.sge.length⟩ = some S ∧
      S.map = m.space.map ∧
      (∀ i < t.sge.length.toNat, S.byte (t.sge.addr.toNat + i) = m.space.cell ⟨t.obj, t.off + i⟩) ∧
      (∀ x, (x < t.sge.addr.toNat ∨ t.sge.addr.toNat + t.sge.length.toNat ≤ x) →
        S.byte x = m.space.byte x) ∧
      ∀ u r', At m.live u r' → (r'.InPlace → ApartSge t.sge u.sge) → ∀ j < u.sge.length.toNat,
        S.cell ⟨u.obj, u.off + j⟩ = m.space.cell ⟨u.obj, u.off + j⟩ := by
  obtain ⟨hlo, hhi⟩ := ht.inside
  have hoff := ht.off
  have hsrc : (r.shmPtr + (t.sge.addr - r.addr)).toNat = r.shmPtr.toNat + t.off := by
    have hfits := h.fits _ _ ht.live
    rw [UInt64.toNat_add, Regions.toNat_offset ht.inside, Nat.mod_eq_of_lt (by omega), hoff]
  have hbuf : m.space.Mapped t.sge.addr.toNat t.sge.length.toNat := by
    intro i hi
    have hmapped := h.buffer _ r ht.live (t.off + i) (by omega)
    rwa [show r.addr.toNat + (t.off + i) = t.sge.addr.toNat + i by omega] at hmapped
  refine ⟨m.space.copy t.sge.addr.toNat (r.shmPtr.toNat + t.off) t.sge.length.toNat, ?_,
    Space.map_copy _ _ _ _, ?_, ?_, ?_⟩
  · have hshm : m.space.Mapped (r.shmPtr.toNat + t.off) t.sge.length.toNat := by
      intro i hi
      rw [Nat.add_assoc, map_of_at h ht hi]
      rfl
    simp [Regions.runCopy, hsrc, hbuf, hshm]
  · intro i hi
    obtain ⟨l, hl⟩ := Option.isSome_iff_exists.mp (hbuf i hi)
    have hmap : (m.space.copy t.sge.addr.toNat (r.shmPtr.toNat + t.off)
        t.sge.length.toNat).map (t.sge.addr.toNat + i) = some l := by
      rw [Space.map_copy]
      exact hl
    rw [Space.byte_of_map hmap, Space.copy,
      Space.cell_write_of_map h.injective (by rwa [Space.length_read]) hl, Space.getElem_read,
      Nat.add_assoc, Space.byte_of_map (map_of_at h ht hi)]
  · intro x hx
    apply Space.byte_write_of_outside h.injective
    rwa [Space.length_read]
  · intro u r' hu hapart j hj
    apply Space.cell_write_of_ne
    intro k hk hmap
    rw [Space.length_read] at hk
    have hsame := h.injective _ _ _ hmap (map_of_at h hu hj)
    obtain ⟨hlo', hhi'⟩ := hu.inside
    have hoff' := hu.off
    by_cases hplace' : r'.InPlace
    · -- the other target's shared bytes are its buffer
      rw [show r'.shmPtr = r'.addr from hplace'] at hsame
      exact hapart hplace' (t.sge.addr.toNat + k) (by omega) (by omega) (by omega) (by omega)
    · exact h.apart _ r' _ r hu.live ht.live hplace' (t.sge.addr.toNat + k) (by omega) (by omega)
        (by omega) (by omega)

/-- **What the copies of a poll leave**: the mapping is as before, bytes outside the buffers have
not changed, neither have the shared bytes of a target that is the same or apart, and every buffer
holds the shared bytes of its target.
Kind: D -/
structure CopiedBack (m : Regions.State) (ts : List Target) (S : Space) : Prop where
  map : S.map = m.space.map
  byte : ∀ x, (∀ t ∈ ts, x < t.sge.addr.toNat ∨ t.sge.addr.toNat + t.sge.length.toNat ≤ x) →
    S.byte x = m.space.byte x
  cell : ∀ u r, At m.live u r → (∀ t ∈ ts, t = u ∨ ApartSge t.sge u.sge) →
    ∀ j < u.sge.length.toNat, S.cell ⟨u.obj, u.off + j⟩ = m.space.cell ⟨u.obj, u.off + j⟩
  back : ∀ t ∈ ts, ∀ i < t.sge.length.toNat,
    S.byte (t.sge.addr.toNat + i) = m.space.cell ⟨t.obj, t.off + i⟩

/-- A target in place needs no copy. Kind: L -/
lemma CopiedBack.cons_inPlace {ts : List Target} {S : Space} (hS : CopiedBack m ts S)
    (h : Regions.Inv m) (ht : At m.live t r) (hplace : r.InPlace)
    (hfirst : ∀ u ∈ ts, ApartSge t.sge u.sge) : CopiedBack m (t :: ts) S where
  map := hS.map
  byte := fun x hx => hS.byte x fun u hu => hx u (List.mem_cons_of_mem _ hu)
  cell := fun u r' hu hor => hS.cell u r' hu fun v hv => hor v (List.mem_cons_of_mem _ hv)
  back := by
    intro u hu i hi
    rcases List.mem_cons.mp hu with rfl | hu
    · rw [byte_of_inPlace h ht hplace hS.map hi]
      exact hS.cell u r ht (fun v hv => .inr (Regions.Disjoint.symm (hfirst v hv))) i hi
    · exact hS.back u hu i hi

/-- The copy of a target, and then those of the rest. Kind: L -/
lemma CopiedBack.cons_copied {ts : List Target} {S₁ S : Space}
    (hS : CopiedBack { m with space := S₁ } ts S) (h : Regions.Inv m) (ht : At m.live t r)
    (hplace : ¬ r.InPlace) (hat : ∀ u ∈ ts, ∃ r, At m.live u r)
    (hfirst : ∀ u ∈ ts, ApartSge t.sge u.sge)
    (hrun : Regions.runCopy m.space
      ⟨t.sge.addr, r.shmPtr + (t.sge.addr - r.addr), t.sge.length⟩ = some S₁) :
    CopiedBack m (t :: ts) S := by
  obtain ⟨S₁', hrun', hmap₁, hback₁, hbyte₁, hcell₁⟩ := runCopy_back h ht
  obtain rfl : S₁' = S₁ := Option.some.inj (hrun'.symm.trans hrun)
  refine ⟨hS.map.trans hmap₁, ?_, ?_, ?_⟩
  · intro x hx
    rw [hS.byte x fun u hu => hx u (List.mem_cons_of_mem _ hu)]
    exact hbyte₁ x (hx t List.mem_cons_self)
  · intro u r' hu hor j hj
    rw [hS.cell u r' hu (fun v hv => hor v (List.mem_cons_of_mem _ hv)) j hj]
    apply hcell₁ u r' hu _ j hj
    intro hplace'
    rcases hor t List.mem_cons_self with rfl | hdisj
    · obtain rfl : r = r' := Option.some.inj (ht.live.symm.trans hu.live)
      exact absurd hplace' hplace
    · exact hdisj
  · intro u hu i hi
    rcases List.mem_cons.mp hu with rfl | hu
    · -- the later copies go to other buffers
      rw [hS.byte _ fun v hv => ?_]
      · exact hback₁ i hi
      · have hdisj := hfirst v hv (u.sge.addr.toNat + i) (by omega) (by omega)
        omega
    · rw [hS.back u hu i hi]
      obtain ⟨r', hu'⟩ := hat u hu
      exact hcell₁ u r' hu' (fun _ => hfirst u hu) i hi

/-- **The copies of a poll** end. Kind: L -/
lemma runCopies_back (h : Regions.Inv m) (ts : List Target) (hat : ∀ t ∈ ts, ∃ r, At m.live t r)
    (hapart : ts.Pairwise fun t u => ApartSge t.sge u.sge) :
    ∃ S, (ts.filterMap (backOf m.live)).foldlM Regions.runCopy m.space = some S ∧
      CopiedBack m ts S := by
  induction ts generalizing m with
  | nil => exact ⟨m.space, rfl, rfl, fun _ _ => rfl, fun _ _ _ _ _ _ => rfl, by simp⟩
  | cons t ts ih =>
      obtain ⟨⟨r, ht⟩, hat⟩ := List.forall_mem_cons.mp hat
      obtain ⟨hfirst, hrest⟩ := List.pairwise_cons.mp hapart
      by_cases hplace : r.InPlace
      · obtain ⟨S, hrun, hS⟩ := ih h hat hrest
        have hnone : backOf m.live t = none := by simp [backOf, ht.live, hplace]
        refine ⟨S, ?_, hS.cons_inPlace h ht hplace hfirst⟩
        rw [List.filterMap_cons_none hnone]
        exact hrun
      · obtain ⟨S₁, hrun₁, hmap₁, -⟩ := runCopy_back h ht
        obtain ⟨S, hrun, hS⟩ := ih (h.of_map hmap₁) hat hrest
        have hsome : backOf m.live t =
            some ⟨t.sge.addr, r.shmPtr + (t.sge.addr - r.addr), t.sge.length⟩ := by
          simp [backOf, ht.live, hplace]
        refine ⟨S, ?_, hS.cons_copied h ht hplace hat hfirst hrun₁⟩
        rw [List.filterMap_cons_some hsome, List.foldlM_cons, hrun₁]
        exact hrun

end CopyBack

/-! ## Completions with data -/

section Deliver

variable {m : Regions.State} {t u : Target} {r r' : Regions.Region}

/-- Targets that are apart in the application's memory are apart in an object. Kind: L -/
lemma off_of_apart (h : Regions.Inv m) (ht : At m.live t r) (hu : At m.live u r')
    (hapart : ApartSge t.sge u.sge) (hobj : u.obj = t.obj) {j : ℕ} (hj : j < u.sge.length.toNat) :
    u.off + j < t.off ∨ t.off + t.sge.length.toNat ≤ u.off + j := by
  rw [ht.obj, hu.obj] at hobj
  have hkey := h.distinct _ _ _ _ hu.live ht.live hobj
  have hlive := hu.live
  rw [hkey, ht.live, Option.some.injEq] at hlive
  obtain ⟨hlo, -⟩ := ht.inside
  obtain ⟨hlo', -⟩ := hu.inside
  have hoff := ht.off
  have hoff' := hu.off
  rw [← hlive] at hlo' hoff'
  have hdisj := hapart (u.sge.addr.toNat + j)
  omega

/-- The HCA changes no mapping. Kind: L -/
lemma map_fill (S : Space) (fs : List Filled) : (fill S fs).map = S.map := by
  induction fs generalizing S with
  | nil => rfl
  | cons f fs ih => exact ih _

/-- It changes no byte that none of the targets covers. Kind: L -/
lemma cell_fill_of_outside {S : Space} {fs : List Filled} {l : Loc}
    (h : ∀ f ∈ fs, l.obj = f.target.obj →
      l.off < f.target.off ∨ f.target.off + f.bytes.length ≤ l.off) :
    (fill S fs).cell l = S.cell l := by
  induction fs generalizing S with
  | nil => rfl
  | cons f fs ih =>
      have hrest := ih (S := S.writeObject f.target.obj f.target.off f.bytes) fun f' hf' =>
        h f' (List.mem_cons_of_mem _ hf')
      exact hrest.trans (Space.cell_writeObject_of_outside (h f List.mem_cons_self))

/-- What it wrote is there, when the targets are apart. Kind: L -/
lemma cell_fill_of_mem (h : Regions.Inv m) {S : Space} {fs : List Filled}
    (hat : ∀ f ∈ fs, ∃ r, At m.live f.target r)
    (hlen : ∀ f ∈ fs, f.bytes.length ≤ f.target.sge.length.toNat)
    (hapart : (fs.map Filled.target).Pairwise fun t u => ApartSge t.sge u.sge) {f : Filled}
    (hf : f ∈ fs) {i : ℕ} (hi : i < f.bytes.length) :
    (fill S fs).cell ⟨f.target.obj, f.target.off + i⟩ = f.bytes[i] := by
  induction fs generalizing S with
  | nil => exact absurd hf List.not_mem_nil
  | cons g fs ih =>
      obtain ⟨hfirst, hrest⟩ := List.pairwise_cons.mp hapart
      rcases List.mem_cons.mp hf with rfl | hf
      · -- the later targets are elsewhere
        have hkept : (fill (S.writeObject f.target.obj f.target.off f.bytes) fs).cell
            ⟨f.target.obj, f.target.off + i⟩ = (S.writeObject f.target.obj f.target.off
              f.bytes).cell ⟨f.target.obj, f.target.off + i⟩ := by
          apply cell_fill_of_outside
          intro f' hf' hobj
          obtain ⟨r, hr⟩ := hat f List.mem_cons_self
          obtain ⟨r', hr'⟩ := hat f' (List.mem_cons_of_mem _ hf')
          have hdisj := hfirst f'.target (List.mem_map_of_mem hf')
          have hlen' := hlen f' (List.mem_cons_of_mem _ hf')
          have hlen₀ := hlen f List.mem_cons_self
          have hout := off_of_apart h hr' hr (Regions.Disjoint.symm hdisj) hobj (j := i) (by omega)
          simp only
          omega
        exact hkept.trans (Space.cell_writeObject_of_inside hi)
      · exact ih (fun f' hf' => hat f' (List.mem_cons_of_mem _ hf'))
          (fun f' hf' => hlen f' (List.mem_cons_of_mem _ hf')) hrest hf

/-- Every target of a completion gets its bytes. Kind: L -/
lemma map_target_zipWith {ts : List Target} {data : List (List UInt8)}
    (h : data.length = ts.length) : (ts.zipWith Filled.mk data).map Filled.target = ts := by
  induction ts generalizing data with
  | nil => simp
  | cons t ts ih =>
      cases data with
      | nil => exact absurd h (by simp)
      | cons bs data =>
          rw [List.zipWith_cons_cons, List.map_cons, ih (by simpa using h)]

/-- **A completion with data keeps the invariant**: its targets leave those outstanding and join
those that were filled. Kind: L -/
lemma inv_of_deliver {qps : List QpAttr} {s s' : State} {sys : System} {ts : List Target}
    {data : List (List UInt8)} {c : Cqe} (hmem : Regions.Inv s.mem)
    (hring : Delivers (s.config qps) sys) (hcq : sys.cq = s.sys.cq ++ [c])
    (hrecvs : List.Forall₂ (fun ts r => List.Forall₂ (Recorded s.mem.live) ts r.records)
      s.recvs sys.outstanding)
    (hreads : ∀ t ∈ s.reads.flatten, ∃ r, At s.mem.live t r ∧ r.InPlace)
    (hfilled : List.Forall₂ (Entry s.mem) s.filled s.sys.cq)
    (hrecv : ∀ r, c.recv = some r → List.Forall₂ (Recorded s.mem.live) ts r.records)
    (hread : c.recv = none → ∀ t ∈ ts, ∃ r, At s.mem.live t r ∧ r.InPlace)
    (hapart : (s.filled.flatten.map Filled.target ++ ts ++ s.recvs.flatten
      ++ s.reads.flatten).Pairwise fun t u => ApartSge t.sge u.sge)
    (hs : s.deliver sys ts data = some s') : Inv qps s' := by
  simp only [State.deliver, Option.bind_eq_bind, Option.bind_eq_some_iff, Option.some.injEq] at hs
  obtain ⟨_, hguard, rfl⟩ := hs
  obtain ⟨hcount, hlen⟩ := (Option.guard_eq_some' _).mp hguard
  have htargets : (ts.zipWith Filled.mk data).map Filled.target = ts := map_target_zipWith hcount
  have hat : ∀ t ∈ ts, ∃ r, At s.mem.live t r := by
    cases hc : c.recv with
    | none => exact fun t ht => (hread hc t ht).imp fun r hr => hr.1
    | some r => exact at_of_recorded (hrecv r hc)
  have hat' : ∀ f ∈ ts.zipWith Filled.mk data, ∃ r, At s.mem.live f.target r := fun f hf =>
    hat _ (htargets ▸ List.mem_map_of_mem hf)
  obtain ⟨hboth, -, -⟩ := List.pairwise_append.mp (List.pairwise_append.mp hapart).1
  obtain ⟨-, hts, hold⟩ := List.pairwise_append.mp hboth
  refine ⟨hmem.of_map (map_fill _ _), ⟨hring.ring, hring.bits, hring.log⟩, hrecvs, hreads, ?_, ?_⟩
  · rw [hcq]
    refine List.rel_append (forall₂_imp_left hfilled fun fs hfs c he => ?_) (.cons ?_ .nil)
    · -- the bytes written before are outside the new targets
      refine ⟨he.recv, he.read, fun f hf => ⟨(he.bytes f hf).1, fun i hi => ?_⟩⟩
      rw [← (he.bytes f hf).2 i hi]
      apply cell_fill_of_outside
      intro g hg hobj
      obtain ⟨r, hr⟩ := he.at_of_mem hf
      obtain ⟨r', hr'⟩ := hat' g hg
      have hdisj := hold f.target (List.mem_map_of_mem (List.mem_flatten.mpr ⟨fs, hfs, hf⟩))
        g.target (htargets ▸ List.mem_map_of_mem hg)
      have hout := off_of_apart hmem hr' hr (Regions.Disjoint.symm hdisj) hobj (j := i)
        (by have hle := (he.bytes f hf).1; omega)
      have hlen' := hlen g hg
      simp only
      omega
    · refine ⟨?_, ?_, fun f hf => ⟨hlen f hf, fun i hi => ?_⟩⟩
      · rw [htargets]
        exact hrecv
      · exact fun hc f hf => hread hc _ (htargets ▸ List.mem_map_of_mem hf)
      · exact cell_fill_of_mem hmem hat' hlen (by rwa [htargets]) hf hi
  · simpa [State.inFlight, List.flatten_append, htargets] using hapart

end Deliver

/-! ## Posts -/

section Post

variable {m : Regions.State} {t : Target}

/-- The target of an element inside a live MR. Kind: L -/
lemma at_of_target (h : Regions.Inv m) {e : Sge} {r : Regions.Region}
    (hr : m.live e.lkey = some r) (hin : r.Inside e) (ht : target m e = some t) :
    t.sge = e ∧ At m.live t r := by
  simp only [target, h.lib, hr, h.piece _ _ hr, Option.map_some, Option.bind_eq_bind,
    Option.bind_some, Option.some.injEq] at ht
  rw [← ht]
  exact ⟨rfl, hr, hin, rfl, Regions.toNat_offset hin⟩

/-- The targets of a list of requests, one by one. Kind: L -/
lemma forall₂_targets {ess : List (List Sge)} {tss : List (List Target)}
    (h : targets m ess = some tss) :
    List.Forall₂ (List.Forall₂ fun e t => target m e = some t) ess tss :=
  (forall₂_of_mapM h).imp fun _ _ hes => forall₂_of_mapM hes

/-- They are the targets of the elements. Kind: L -/
lemma map_sge_targets {ess : List (List Sge)} {tss : List (List Target)}
    (h : targets m ess = some tss) : tss.flatten.map Target.sge = ess.flatten := by
  have hflat := List.rel_flatten (forall₂_targets h)
  have heq : List.Forall₂ (fun e t => e = Target.sge t) ess.flatten tss.flatten := by
    refine hflat.imp fun e t ht => ?_
    simp only [target, Option.bind_eq_bind, Option.bind_eq_some_iff, Option.some.injEq] at ht
    obtain ⟨_, -, _, -, rfl⟩ := ht
    rfl
  rw [← List.forall₂_map_right_iff, List.forall₂_eq_eq_eq] at heq
  exact heq.symm

/-- Each of them is at its MR. Kind: L -/
lemma at_of_mem_targets (h : Regions.Inv m) {ess : List (List Sge)} {tss : List (List Target)}
    (hts : targets m ess = some tss)
    (hin : ∀ e ∈ ess.flatten, ∃ r, m.live e.lkey = some r ∧ r.Inside e) (ht : t ∈ tss.flatten) :
    t.sge ∈ ess.flatten ∧ ∃ r, At m.live t r := by
  obtain ⟨e, he, hte⟩ := exists_left_of_forall₂ (List.rel_flatten (forall₂_targets hts)) ht
  obtain ⟨r, hr, hinside⟩ := hin e he
  obtain ⟨rfl, hat⟩ := at_of_target h hr hinside hte
  exact ⟨he, r, hat⟩

/-- The records that a post call notes are those of its targets. Kind: L -/
lemma recorded_of_toRecvs (h : Regions.Inv m) {place : Place} {n : ℕ} {ws : List RecvWr}
    {rs : List Recv} {tss : List (List Target)}
    (hin : ∀ e ∈ (ws.map RecvWr.sgList).flatten, ∃ r, m.live e.lkey = some r ∧ r.Inside e)
    (hrs : toRecvs m.lib.mapLkeyToMrShm place n ws = some rs)
    (hts : targets m (ws.map RecvWr.sgList) = some tss) :
    List.Forall₂ (fun ts r => List.Forall₂ (Recorded m.live) ts r.records) tss rs := by
  induction ws generalizing n rs tss with
  | nil =>
      rw [toRecvs, Option.some.injEq] at hrs
      rw [List.map_nil, targets, List.mapM_nil, Option.pure_def, Option.some.injEq] at hts
      rw [← hrs, ← hts]
      exact .nil
  | cons w ws ih =>
      simp only [toRecvs, Option.bind_eq_bind, Option.bind_eq_some_iff, Option.some.injEq] at hrs
      obtain ⟨records, hrecords, rest, hrest, rfl⟩ := hrs
      simp only [targets, List.map_cons, List.mapM_cons, Option.bind_eq_bind,
        Option.bind_eq_some_iff, Option.pure_def, Option.some.injEq] at hts
      obtain ⟨ts, hts, tss', htss', rfl⟩ := hts
      simp only [List.map_cons, List.flatten_cons, List.mem_append] at hin
      refine .cons ?_ (ih (fun e he => hin e (.inr he)) hrest htss')
      have hboth := forall₂_of_common (forall₂_of_mapM hts) (forall₂_of_mapM hrecords)
      refine hboth.imp fun t n hcommon => ?_
      obtain ⟨e, he, ht, hn⟩ := hcommon
      obtain ⟨r, hr, hinside⟩ := hin e (.inl he)
      obtain ⟨rfl, hat⟩ := at_of_target h hr hinside ht
      rw [h.lib, hr, Option.map_some, Option.map_some, Option.some.injEq] at hn
      exact ⟨r, hat, hn.symm⟩

/-- New buffers keep what is in flight apart. Kind: L -/
lemma State.Fresh.pairwise {s : State} {es : List Sge} (h : s.Fresh es) {ts : List Target}
    (hts : ts.map Target.sge = es) :
    (s.inFlight ++ ts).Pairwise fun t u => ApartSge t.sge u.sge := by
  have hpair := h.2
  rw [← hts, ← List.map_append, List.pairwise_map] at hpair
  exact hpair

end Post

/-! ## The steps -/

section Steps

variable {qps : List QpAttr} {s s' : State}

/-- A registration, a deregistration, a write or a send that spares what is in flight leaves its MRs
and its shared bytes alone. Kind: L -/
lemma Inv.kept_of_spares (h : Inv qps s) {a : Regions.Act} {m : Regions.State} (hsp : s.Spares a)
    (hm : Regions.step s.mem a = some m) {t : Target} (ht : t ∈ s.inFlight) :
    m.live t.sge.lkey = s.mem.live t.sge.lkey ∧ ∀ j < t.sge.length.toNat,
      m.space.cell ⟨t.obj, t.off + j⟩ = s.mem.space.cell ⟨t.obj, t.off + j⟩ := by
  obtain ⟨r, hat⟩ := h.at_of_mem ht
  cases a with
  | regMr addr length lkey shmPtr =>
      obtain ⟨hlive, hcell⟩ := Regions.kept_of_regMr hm
      refine ⟨(hlive _ r hat.live).trans hat.live.symm, fun j _ => hcell _ ?_⟩
      have hold := h.mem.obj_lt _ r hat.live
      simpa only [hat.obj] using hold
  | deregMr lkey =>
      rw [Regions.step, Option.some.injEq] at hm
      rw [← hm]
      exact ⟨Function.update_of_ne (hsp t ht) _ _, fun _ _ => rfl⟩
  | store a bs =>
      simp only [Regions.step, Option.bind_eq_bind, Option.bind_eq_some_iff, Option.some.injEq]
        at hm
      obtain ⟨_, -, rfl⟩ := hm
      refine ⟨rfl, fun j hj => Space.cell_write_of_ne fun k hk hmap => ?_⟩
      have hsame := h.mem.injective _ _ _ hmap (map_of_at h.mem hat hj)
      exact hsp t ht r hat.live (a + k) (by omega) (by omega) (by omega) (by omega)
  | postSend qp ws mem =>
      obtain ⟨hfit, hws, -, -⟩ := hsp
      have hin : ∀ w ∈ ws, ∀ e ∈ w.sgList, ∃ r, s.mem.live e.lkey = some r ∧ r.Inside e :=
        fun w hw e he => (hws w hw e he).1
      rw [Regions.step, Regions.postSend_eq mem (h.mem.isSome_of_inside hin) hfit] at hm
      obtain ⟨S, hS, rfl⟩ := Option.map_eq_some_iff.mp hm
      refine ⟨rfl, fun j hj => h.mem.cell_of_runCopies (fun c hc => ?_) hS⟩
      obtain ⟨w, hw, e, he, r', hinside, hlen, hcopy⟩ := h.mem.isCopy_of_mem hin hc
      refine ⟨_, _, _, hcopy, fun i hlo hhi heq => ?_⟩
      -- the element and the target would have to overlap
      rw [Loc.mk.injEq] at heq
      have hat' : At s.mem.live ⟨e, r'.obj, e.addr.toNat - r'.addr.toNat⟩ r' :=
        ⟨hcopy.live, hinside, rfl, rfl⟩
      have hout := off_of_apart h.mem hat' hat ((hws w hw e he).2 t ht) heq.1 hj
      rw [hlen] at hhi
      simp only at hout
      omega

/-- **Memory steps keep the invariant**: the targets of new reads are in place. Kind: L -/
lemma Inv.memStep (h : Inv qps s) {a : Regions.Act} (hap : Regions.Apart s.mem a) (hsp : s.Spares a)
    (hs : step qps s (.mem a) = some s') : Inv qps s' := by
  simp only [step, Option.bind_eq_bind, Option.bind_eq_some_iff, Option.some.injEq] at hs
  obtain ⟨m, hm, ts, hts, rfl⟩ := hs
  have hkeep := h.of_mem (h.mem.step hap hm) (fun t ht => (h.kept_of_spares hsp hm ht).1)
    fun t ht => (h.kept_of_spares hsp hm ht).2
  cases a with
  | postSend qp ws mem =>
      obtain ⟨-, -, hfresh, hplace⟩ := hsp
      have hlive : m.live = s.mem.live := by
        simp only [Regions.step, Regions.State.postSend, Option.bind_eq_bind,
          Option.bind_eq_some_iff, Option.some.injEq] at hm
        obtain ⟨_, -, _, -, rfl⟩ := hm
        rfl
      refine ⟨hkeep.mem, hkeep.ring, hkeep.recvs, ?_, hkeep.filled, ?_⟩
      · intro t ht
        rw [List.flatten_append, List.mem_append] at ht
        rcases ht with ht | ht
        · exact hkeep.reads t ht
        · obtain ⟨hmem, r, hat⟩ := at_of_mem_targets h.mem hts hfresh.1 ht
          refine ⟨r, ?_, hplace t.sge hmem r hat.live⟩
          simp only [hlive]
          exact hat
      · have hpair := hfresh.pairwise (map_sge_targets hts)
        simpa [State.inFlight, List.flatten_append] using hpair
  | regMr addr length lkey shmPtr | deregMr lkey | store a bs =>
      simp only [fetchLists, targets, List.mapM_nil, Option.pure_def, Option.some.injEq] at hts
      rw [← hts]
      simpa using hkeep

/-- As many targets as requests. Kind: L -/
lemma length_targets {m : Regions.State} {ess : List (List Sge)} {tss : List (List Target)}
    (h : targets m ess = some tss) : tss.length = ess.length :=
  (forall₂_targets h).length_eq.symm

/-- **Posts of receives that the HCA accepts keep the invariant.** Kind: L -/
lemma Inv.post (h : Inv qps s) {sys : System} {place : Place} {ws : List RecvWr} {rs : List Recv}
    {ts : List (List Target)} {k : ℕ} (hring : Delivers (s.config qps) sys)
    (hrs : toRecvs s.mem.lib.mapLkeyToMrShm place s.sys.posts ws = some rs)
    (hout : sys.outstanding = s.sys.outstanding ++ rs.take k) (hcq : sys.cq = s.sys.cq)
    (hk : k = ws.length) (hfresh : s.Fresh (ws.map RecvWr.sgList).flatten)
    (hts : targets s.mem (ws.map RecvWr.sgList) = some ts) :
    Inv qps { s with sys := sys, recvs := s.recvs ++ ts.take k } := by
  rw [hk, List.take_of_length_le (length_toRecvs hrs).le] at hout
  rw [hk, List.take_of_length_le (by rw [length_targets hts, List.length_map])]
  refine ⟨h.mem, hring, ?_, h.reads, ?_, ?_⟩
  · simp only [hout]
    exact List.rel_append h.recvs (recorded_of_toRecvs h.mem hfresh.1 hrs hts)
  · simp only [hcq]
    exact h.filled
  · have hpair := hfresh.pairwise (map_sge_targets hts)
    have hperm : (s.inFlight ++ ts.flatten).Perm
        (State.inFlight { s with sys := sys, recvs := s.recvs ++ ts }) := by
      simp only [State.inFlight, List.flatten_append, List.append_assoc]
      exact ((List.perm_append_comm.append_left _).append_left _)
    exact hperm.pairwise hpair fun hab => Regions.Disjoint.symm hab

/-- Moving a receive to a queue pair changes no record. Kind: L -/
lemma forall₂_retarget {p p' : Place} {rs rs' : List Recv} {P : List Target → List SgeRecord → Prop}
    {tss : List (List Target)} (h : retarget p p' rs = some rs')
    (hall : List.Forall₂ (fun ts r => P ts r.records) tss rs) :
    List.Forall₂ (fun ts r => P ts r.records) tss rs' := by
  have hrecords : rs'.map Recv.records = rs.map Recv.records := map_retarget (fun _ _ => rfl) h
  have hmap := List.forall₂_map_right_iff.mpr hall
  rw [← hrecords] at hmap
  exact List.forall₂_map_right_iff.mp hmap

/-- **A receive that completes keeps the invariant**: in ring order it is the oldest. Kind: L -/
lemma Inv.received (h : Inv qps s) {q : ℕ} {ok bit : Bool} {data : List (List UInt8)}
    (hord : InRingOrder (s.config qps) s.sys (.complete q ok bit))
    (hs : step qps s (.received q ok bit data) = some s') : Inv qps s' := by
  simp only [step, Option.bind_eq_bind, Option.bind_eq_some_iff] at hs
  obtain ⟨sys, hsys, ts, hts, hs⟩ := hs
  have hring := h.ring.step hord hsys
  obtain ⟨r, rest, hout, hplace, rfl⟩ := complete_of_head hord.2 hsys
  have hrecvs := h.recvs
  rw [hout] at hrecvs
  obtain ⟨ts', tss, hfirst, hrest, hcons⟩ := List.forall₂_cons_right_iff.mp hrecvs
  rw [hout, List.findIdx_cons, decide_eq_true hplace, hcons] at hts hs
  simp only [cond_true, List.getElem?_cons_zero, Option.some.injEq, List.eraseIdx_cons_zero]
    at hts hs
  subst hts
  refine inv_of_deliver (s := { s with recvs := tss }) h.mem hring rfl hrest h.reads h.filled
    ?_ ?_ ?_ hs
  · intro r'' hr''
    rw [Option.some.injEq] at hr''
    rw [← hr'']
    exact hfirst
  · intro hnone
    exact absurd hnone (by simp)
  · have hpair := h.apart
    rw [State.inFlight, hcons, List.flatten_cons] at hpair
    simpa using hpair

/-- **A read or an atomic that completes keeps the invariant.** Kind: L -/
lemma Inv.fetched (h : Inv qps s) {i q : ℕ} {wrId : UInt64} {ok bit : Bool}
    {data : List (List UInt8)}
    (hord : InRingOrder (s.config qps) s.sys (.completeSend q wrId ok bit))
    (hs : step qps s (.fetched i q wrId ok bit data) = some s') : Inv qps s' := by
  simp only [step, Option.bind_eq_bind, Option.bind_eq_some_iff] at hs
  obtain ⟨sys, hsys, ts, hts, hs⟩ := hs
  have hring := h.ring.step hord hsys
  obtain ⟨-, rfl⟩ := step_completeSend_iff.mp hsys
  obtain ⟨hi, rfl⟩ := List.getElem?_eq_some_iff.mp hts
  have hperm : (s.reads[i] ++ (s.reads.eraseIdx i).flatten).Perm s.reads.flatten :=
    (List.getElem_cons_eraseIdx_perm hi).flatten
  refine inv_of_deliver (s := { s with reads := s.reads.eraseIdx i }) h.mem hring rfl h.recvs
    ?_ h.filled ?_ ?_ ?_ hs
  · exact fun t ht => h.reads t (hperm.mem_iff.mp (List.mem_append_right _ ht))
  · intro r hr
    exact absurd hr (by simp)
  · exact fun _ t ht => h.reads t (hperm.mem_iff.mp (List.mem_append_left _ ht))
  · have hflight : s.inFlight.Perm (s.filled.flatten.map Filled.target ++ s.reads[i] ++
        s.recvs.flatten ++ (s.reads.eraseIdx i).flatten) := by
      refine (hperm.symm.append_left _).trans ?_
      simp only [List.append_assoc]
      refine List.Perm.append_left _ ?_
      rw [← List.append_assoc, ← List.append_assoc]
      exact List.perm_append_comm.append_right _
    exact hflight.pairwise h.apart fun hab => Regions.Disjoint.symm hab

/-- A receive's own block holds its records. Kind: L -/
lemma records_of_expected (r : Recv) : r.expected.elim [] SgeQueue.records = r.records := by
  unfold Recv.expected
  split
  · rfl
  · next hlen =>
      rw [not_not, List.length_eq_zero_iff] at hlen
      rw [hlen]
      rfl

/-- **What a poll copies**: it copies for the targets of the receives among its completions, and
the other targets are in place. Kind: L -/
lemma copiesBack_of_entries {m : Regions.State} {fss : List (List Filled)} {cs : List Cqe}
    (h : List.Forall₂ (Entry m) fss cs) :
    ∃ ts : List Target, ts.Sublist (fss.flatten.map Filled.target) ∧
      copiesBack (cs.map fun c => (c, c.recv.bind Recv.expected)) =
        ts.filterMap (backOf m.live) ∧
      ∀ fs ∈ fss, ∀ f ∈ fs, f.target ∈ ts ∨ ∃ r, At m.live f.target r ∧ r.InPlace := by
  induction h with
  | nil => exact ⟨[], .slnil, rfl, by simp⟩
  | @cons fs c fss cs hentry _ ih =>
      obtain ⟨ts, hsub, hcopies, hall⟩ := ih
      rw [List.flatten_cons, List.map_append]
      cases hrecv : c.recv with
      | none =>
          refine ⟨ts, hsub.trans (List.sublist_append_right _ _), ?_, ?_⟩
          · rw [← hcopies]
            simp [copiesBack, hrecv]
          · intro fs' hfs' f hf
            rcases List.mem_cons.mp hfs' with rfl | hfs'
            · exact .inr (hentry.read hrecv f hf)
            · exact hall fs' hfs' f hf
      | some r =>
          refine ⟨fs.map Filled.target ++ ts, hsub.append_left _, ?_, ?_⟩
          · rw [List.filterMap_append, ← hcopies, ← filterMap_copyBack (hentry.recv r hrecv)]
            simp [copiesBack, hrecv, records_of_expected]
          · intro fs' hfs' f hf
            rcases List.mem_cons.mp hfs' with rfl | hfs'
            · exact .inl (List.mem_append_left _ (List.mem_map_of_mem hf))
            · exact (hall fs' hfs' f hf).imp_left (List.mem_append_right _)

/-- The application's buffer holds what the HCA wrote for it. Kind: D -/
def Filled.Delivered (f : Filled) (S : Space) : Prop :=
  S.read f.target.sge.addr.toNat f.bytes.length = f.bytes

instance (f : Filled) (S : Space) : Decidable (f.Delivered S) := inferInstanceAs (Decidable (_ = _))

/-- The copies leave the shared bytes of everything in flight alone. Kind: L -/
lemma Inv.kept_of_copiedBack (h : Inv qps s) {ts : List Target} {S : Space}
    (hS : CopiedBack s.mem ts S) (hts : ∀ t ∈ ts, t ∈ s.inFlight) :
    ∀ u ∈ s.inFlight, ∀ j < u.sge.length.toNat,
      S.cell ⟨u.obj, u.off + j⟩ = s.mem.space.cell ⟨u.obj, u.off + j⟩ := by
  intro u hu j hj
  obtain ⟨r, hat⟩ := h.at_of_mem hu
  refine hS.cell u r hat (fun t ht => ?_) j hj
  have hsymm : Std.Symm fun t u : Target => ApartSge t.sge u.sge :=
    ⟨fun _ _ hab => Regions.Disjoint.symm hab⟩
  by_cases heq : t = u
  · exact .inl heq
  · exact .inr (h.apart.forall (hts t ht) hu heq)

/-- **The data of a completion is delivered** when its targets are copied back or in place.
Kind: L -/
lemma Entry.delivered {m : Regions.State} {fs : List Filled} {c : Cqe} (he : Entry m fs c)
    (h : Regions.Inv m) {ts : List Target} {S : Space} (hS : CopiedBack m ts S) {f : Filled}
    (hf : f ∈ fs) (hall : f.target ∈ ts ∨ ∃ r, At m.live f.target r ∧ r.InPlace)
    (hkept : ∀ j < f.target.sge.length.toNat, S.cell ⟨f.target.obj, f.target.off + j⟩ =
      m.space.cell ⟨f.target.obj, f.target.off + j⟩) : f.Delivered S := by
  obtain ⟨hlen, hcells⟩ := he.bytes f hf
  refine (Space.read_eq_iff rfl).mpr fun i hi => ?_
  rcases hall with hcopied | ⟨r, hat, hplace⟩
  · rw [hS.back _ hcopied i (by omega)]
    exact hcells i hi
  · rw [byte_of_inPlace h hat hplace hS.map (by omega), hkept i (by omega)]
    exact hcells i hi

/-- What a poll is about to return is in flight. Kind: L -/
lemma sublist_inFlight (s : State) (n : ℕ) :
    ((s.filled.take n).flatten.map Filled.target).Sublist s.inFlight := by
  unfold State.inFlight
  rw [List.append_assoc]
  exact ((List.take_sublist n s.filled).flatten.map _).trans (List.sublist_append_left _ _)

/-- **A poll ends**, keeps the invariant, and copies back the targets `ts`: they are among those of
its completions, and all others of them are in place. Kind: L -/
lemma Inv.poll_copiedBack (h : Inv qps s) {n : ℕ} (hn : n ≤ s.sys.cq.length) :
    ∃ s' ts, step qps s (.ring (.poll n)) = some s' ∧ Inv qps s' ∧
      CopiedBack s.mem ts s'.mem.space ∧
      ts.Sublist ((s.filled.take n).flatten.map Filled.target) ∧
      ∀ fs ∈ s.filled.take n, ∀ f ∈ fs,
        f.target ∈ ts ∨ ∃ r, At s.mem.live f.target r ∧ r.InPlace := by
  obtain ⟨-, hout⟩ := h.ring.pollLoop n
  obtain ⟨ts, hsub, hcopies, hall⟩ := copiesBack_of_entries (List.forall₂_take n h.filled)
  have hflight := hsub.trans (sublist_inFlight s n)
  obtain ⟨S, hrun, hS⟩ := runCopies_back h.mem ts
    (fun t ht => h.at_of_mem (hflight.subset ht)) (h.apart.sublist hflight)
  have hkept := h.kept_of_copiedBack hS fun t ht => hflight.subset ht
  have hpoll : ∃ sys, Client.step (s.config qps) s.sys (.poll n) = some sys ∧
      sys.outstanding = s.sys.outstanding ∧ sys.cq = s.sys.cq.drop n :=
    ⟨_, step_poll_iff.mpr ⟨hn, rfl⟩, setPopped_outstanding (s.config qps) s.sys _, rfl⟩
  obtain ⟨sys, hsys, hsysout, hsyscq⟩ := hpoll
  have hinv := h.of_mem (h.mem.of_map hS.map) (fun _ _ => rfl) hkept
  refine ⟨{ s with sys := sys, mem := { s.mem with space := S }, filled := s.filled.drop n }, ts,
    ?_, ?_, hS, hsub, hall⟩
  · simp only [step, hsys, hout, hcopies, hrun, Option.bind_eq_bind, Option.bind_some]
  · refine ⟨hinv.mem, Delivers.step (a := .poll n) h.ring trivial hsys, ?_, hinv.reads, ?_, ?_⟩
    · simp only [hsysout]
      exact hinv.recvs
    · simp only [hsyscq]
      exact List.forall₂_drop n hinv.filled
    · refine List.Pairwise.sublist ?_ h.apart
      unfold State.inFlight
      exact (((List.drop_sublist n s.filled).flatten.map _).append_right _).append_right _

/-- **A poll delivers**: afterwards every buffer of its completions holds what the HCA wrote.
Kind: L -/
lemma Inv.poll (h : Inv qps s) {n : ℕ} (hn : n ≤ s.sys.cq.length) :
    ∃ s', step qps s (.ring (.poll n)) = some s' ∧ Inv qps s' ∧
      ∀ fs ∈ s.filled.take n, ∀ f ∈ fs, f.Delivered s'.mem.space := by
  obtain ⟨s', ts, hs', hinv, hS, hsub, hall⟩ := h.poll_copiedBack hn
  have hflight := sublist_inFlight s n
  have hkept := h.kept_of_copiedBack hS fun t ht => hflight.subset (hsub.subset ht)
  have hentry : ∀ fs ∈ s.filled.take n, ∃ c, Entry s.mem fs c :=
    forall_left_of_forall₂ (List.forall₂_take n h.filled) fun _ c he => ⟨c, he⟩
  refine ⟨s', hs', hinv, fun fs hfs f hf => ?_⟩
  obtain ⟨c, he⟩ := hentry fs hfs
  have hin : f.target ∈ s.inFlight :=
    hflight.subset (List.mem_map_of_mem (List.mem_flatten.mpr ⟨fs, hfs, hf⟩))
  exact he.delivered h.mem hS hf (hall fs hfs f hf) (hkept _ hin)

/-- **Every regular step keeps the invariant.** Kind: L -/
lemma Inv.step {a : Act} (h : Inv qps s) (hreg : Regular qps s a)
    (hs : Incoming.step qps s a = some s') : Inv qps s' := by
  cases a with
  | mem a => exact h.memStep hreg.1 hreg.2 hs
  | received q ok bit data => exact h.received hreg hs
  | fetched i q wrId ok bit data => exact h.fetched hreg hs
  | ring a =>
      obtain ⟨hord, hfresh⟩ := hreg
      have hs' := hs
      simp only [Incoming.step, Option.bind_eq_bind, Option.bind_eq_some_iff] at hs
      obtain ⟨sys, hsys, hs⟩ := hs
      have hring := h.ring.step hord hsys
      cases a with
      | postRecv q ws k =>
          obtain ⟨-, hk, -⟩ := hord
          simp only [Option.bind_eq_some_iff, Option.some.injEq] at hs
          obtain ⟨-, rs, hrs, rfl⟩ := step_postRecv_iff.mp hsys
          obtain ⟨ts, hts, rfl⟩ := hs
          exact h.post hring hrs rfl rfl hk hfresh hts
      | postSrqRecv i ws k =>
          obtain ⟨-, hk, -⟩ := hord
          simp only [Option.bind_eq_some_iff, Option.some.injEq] at hs
          obtain ⟨-, rs, hrs, rfl⟩ := step_postSrqRecv_iff.mp hsys
          obtain ⟨ts, hts, rfl⟩ := hs
          exact h.post hring hrs rfl rfl hk hfresh hts
      | take q =>
          rw [Option.some.injEq] at hs
          obtain ⟨i, -, rs, hrs, rfl⟩ := step_take_iff.mp hsys
          rw [← hs]
          exact ⟨h.mem, hring, forall₂_retarget hrs h.recvs, h.reads, h.filled, h.apart⟩
      | complete q ok bit => exact absurd hs (by simp)
      | completeSend q wrId ok bit =>
          obtain ⟨-, rfl⟩ := step_completeSend_iff.mp hsys
          refine inv_of_deliver h.mem hring rfl h.recvs h.reads h.filled ?_ ?_ ?_ hs
          · intro r hr
            exact absurd hr (by simp)
          · simp
          · simpa [State.inFlight] using h.apart
      | poll n =>
          obtain ⟨hn, -⟩ := step_poll_iff.mp hsys
          obtain ⟨s'', hs'', hinv, -⟩ := h.poll hn
          rw [hs'', Option.some.injEq] at hs'
          rw [← hs']
          exact hinv

end Steps

/-- **Incoming coherence**: for every set of queue pairs on one CQ and after every regular run of
registrations, writes, sends, receives, reads and atomics, a poll of any number of completions ends,
and then the buffers of every completion it returned hold the bytes that the HCA wrote for them.
Source: `cmd.c` `ibv_cmd_poll_cq`
Kind: P -/
theorem delivered_of_regular (qps : List QpAttr) (s t : State) (acts : List Act) (hs : Start s)
    (hreg : Along (step qps) (Regular qps) s acts) (hrun : exec (step qps) s acts = some t) (n : ℕ)
    (hn : n ≤ t.sys.cq.length) :
    t.filled.length = t.sys.cq.length ∧ ∃ u, step qps t (.ring (.poll n)) = some u ∧
      ∀ fs ∈ t.filled.take n, ∀ f ∈ fs, f.Delivered u.mem.space := by
  have hinv : Inv qps t :=
    exec_invariant_along (fun _ _ _ h hreg hstep => h.step hreg hstep) (hs.inv qps) hreg hrun
  obtain ⟨u, hu, -, hdelivered⟩ := hinv.poll hn
  exact ⟨hinv.filled.length_eq, u, hu, hdelivered⟩

/-! One queue pair, and four bytes at `0x10004` that are registered and not in place. -/

/-- Nothing is registered or posted yet. Kind: D -/
def sampleStart : State := ⟨Regions.sampleState, freshSystem, [], [], []⟩

/-- It is a start. Kind: L -/
lemma start_sampleStart : Start sampleStart :=
  ⟨Regions.start_sampleState, initial_freshSystem, rfl, rfl, rfl⟩

/-- The queue pair. Kind: D -/
def sampleQps : List QpAttr := [⟨none, false⟩]

/-- The registration of the four bytes, with the key `2`. Kind: D -/
def sampleReg : Act := .mem (.regMr 0x10004 4 2 (some 0x20000))

/-- The state after it. Kind: D -/
def sampleRegistered : State :=
  { sampleStart with mem := Regions.sampleState.registered 0x10004 4 2 0x20000 }

/-- The registration succeeds. Kind: L -/
lemma step_sampleReg : step sampleQps sampleStart sampleReg = some sampleRegistered := by
  have hfree : Regions.sampleState.space.Unmapped 0x20000 (Regions.pageRound 4) := by
    intro k _
    exact if_neg (by omega)
  have hreg : Regions.step Regions.sampleState (.regMr 0x10004 4 2 (some 0x20000)) =
      some (Regions.sampleState.registered 0x10004 4 2 0x20000) :=
    Regions.regMr_eq_registered (by decide) (by decide) rfl (by decide)
      ⟨by decide, by decide, hfree⟩
  simp only [step, sampleReg, sampleStart, hreg, Option.bind_eq_bind, Option.bind_some]
  rfl

/-- A receive of one byte there. Kind: D -/
def sampleRecv : Act := .ring (.postRecv 0 [.ofParts 100 [⟨0x10004, 1, 2⟩] (by decide)] 1)

/-- The byte that is received reaches the application. Kind: C -/
theorem delivered_receive :
    ∃ t u, exec (step sampleQps) sampleStart
        [sampleReg, sampleRecv, .received 0 true true [[42]]] = some t ∧
      t.filled = [[⟨⟨⟨0x10004, 1, 2⟩, 1, 0⟩, [42]⟩]] ∧
      step sampleQps t (.ring (.poll 1)) = some u ∧
      ∀ fs ∈ t.filled.take 1, ∀ f ∈ fs, f.Delivered u.mem.space := by
  have hrest : ∃ t, exec (step sampleQps) sampleRegistered
      [sampleRecv, .received 0 true true [[42]]] = some t ∧
      t.filled = [[⟨⟨⟨0x10004, 1, 2⟩, 1, 0⟩, [42]⟩]] ∧ t.sys.cq.length = 1 := ⟨_, rfl, rfl, rfl⟩
  obtain ⟨t, hrest, hfilled, hcq⟩ := hrest
  have hrun : exec (step sampleQps) sampleStart
      [sampleReg, sampleRecv, .received 0 true true [[42]]] = some t :=
    (exec_cons_eq_some _).mpr ⟨_, step_sampleReg, hrest⟩
  have hreg : Along (step sampleQps) (Regular sampleQps) sampleStart
      [sampleReg, sampleRecv, .received 0 true true [[42]]] := by
    refine along_cons ⟨⟨by decide, ?_⟩, trivial⟩ step_sampleReg
      (along_cons ⟨⟨rfl, rfl, by decide⟩, ?_, ?_⟩ rfl (along_cons ⟨rfl, rfl⟩ rfl trivial))
    · intro k r hr
      exact absurd hr (by simp [sampleStart, Regions.sampleState])
    · intro e he
      have heq : e = ⟨0x10004, 1, 2⟩ := by simpa [RecvWr.ofParts] using he
      rw [heq]
      exact ⟨_, rfl, by decide⟩
    · exact List.pairwise_singleton _ _
  obtain ⟨-, u, hu, hdelivered⟩ := delivered_of_regular sampleQps sampleStart t _ start_sampleStart
    hreg hrun 1 hcq.ge
  exact ⟨t, u, hrun, hfilled, hu, hdelivered⟩

/-- A read of one byte there. Kind: D -/
def sampleRead : Act :=
  .mem (.postSend ⟨3, .rc⟩ [.ofParts WrOpcode.rdmaRead.code 0x5000 9 0 [⟨0x10004, 1, 2⟩] (by simp)]
    fun _ => 0)

/-- **The byte that is read does not**: the MR is live, the element lies inside it, the HCA has
written `42` and the completion is successful, and after the poll the application still finds `1`.
Kind: C -/
theorem delivery_fails_read :
    ∃ t u, exec (step sampleQps) sampleStart
        [sampleReg, sampleRead, .fetched 0 0 77 true false [[42]]] = some t ∧
      (∃ r, t.mem.live 2 = some r ∧ r.Inside ⟨0x10004, 1, 2⟩) ∧
      t.sys.cq.map (fun c => (c.wrId, c.ok)) = [(77, true)] ∧
      t.filled = [[⟨⟨⟨0x10004, 1, 2⟩, 1, 0⟩, [42]⟩]] ∧
      step sampleQps t (.ring (.poll 1)) = some u ∧ u.mem.space.byte 0x10004 = 1 ∧
      ¬ ∀ fs ∈ t.filled.take 1, ∀ f ∈ fs, f.Delivered u.mem.space := by
  let m := sampleRegistered.mem
  let m' : Regions.State := { m with space := m.space.copy 0x20000 0x10004 1 }
  have hsend : Regions.step m (.postSend ⟨3, .rc⟩ [.ofParts WrOpcode.rdmaRead.code 0x5000 9 0
      [⟨0x10004, 1, 2⟩] (by simp)] fun _ => 0) = some m' :=
    (Regions.postSend_eq _ (by decide) (by decide)).trans rfl
  have hread : step sampleQps sampleRegistered sampleRead =
      some { sampleRegistered with mem := m', reads := [[⟨⟨0x10004, 1, 2⟩, 1, 0⟩]] } := by
    simp only [step, sampleRead, m, hsend, Option.bind_eq_bind, Option.bind_some]
    rfl
  refine ⟨_, _, (exec_cons_eq_some _).mpr ⟨_, step_sampleReg,
    (exec_cons_eq_some _).mpr ⟨_, hread, rfl⟩⟩, ⟨_, rfl, by decide⟩, rfl, rfl, rfl, rfl,
    fun hall => ?_⟩
  have hbyte := hall _ List.mem_cons_self _ List.mem_cons_self
  exact absurd hbyte (by decide)

end FreeFlow.Client.Incoming
