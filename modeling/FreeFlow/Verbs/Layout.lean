import FreeFlow.Found.ByteMem

/-!
# The verbs structs on the wire: `ibv_sge`, `ibv_send_wr`, `ibv_recv_wr` and the request header

The client library and the router exchange C structs by copying their bytes into a shared
channel, so the model keeps the byte layout of the x86-64 ABI. A struct in memory is an address;
its fields are the word views at fixed offsets.

* `RdmaFunctionCall` — `enum RDMA_FUNCTION_CALL` of `types.h` with its numbering.
* `WrOpcode`, `oneSided` — `enum ibv_wr_opcode` of `verbs.h` and the test both decoders make for
  `RDMA_WRITE`, `RDMA_WRITE_WITH_IMM` and `RDMA_READ`.
* `QpType` — `enum ibv_qp_type`.
* `Sge`, `WrFields` — the values of `struct ibv_sge` and `struct ibv_send_wr`. The union `wr` is
  kept as its words: `remote_addr` is `rdma.remote_addr`, `atomic.remote_addr` and `ud.ah` at
  once, because the three overlap.
* `SendWr`, `RecvWr` — a work request as the application passes it: the bytes of the struct and
  the scatter list behind `sg_list`, with `num_sge` counting that list.

Sources: `verbs.h` `struct ibv_sge`, `struct ibv_send_wr`, `struct ibv_recv_wr`; `kern-abi.h`
`struct ibv_post_send`; `types.h` `struct FfrRequestHeader`, `struct CtrlShmPiece`.
-/

namespace FreeFlow.Verbs

open FreeFlow.Found

/-! ## Constants -/

/-- `MAP_SIZE`: the size of every handle table, in the client and in the router.
Source: `constant.h`, `freeflow-types.h`
Kind: D -/
def mapSize : ℕ := 10240

/-- `CTRL_REQ_SIZE`: the request area of a control channel.
Source: `types.h`
Kind: D -/
def ctrlReqSize : ℕ := 1024 * 1024

/-- `CTRL_RSP_SIZE`: the response area of a control channel.
Source: `types.h`
Kind: D -/
def ctrlRspSize : ℕ := 1024 * 1024

/-- `sizeof(struct FfrRequestHeader)`. Source: `types.h`. Kind: D -/
def sizeofRequestHeader : ℕ := 12

/-- `sizeof(struct ibv_post_send)`, the same as `ibv_post_recv` and `ibv_post_srq_recv`.
Source: `kern-abi.h`
Kind: D -/
def sizeofPostSend : ℕ := 32

/-- `sizeof(struct ibv_send_wr)`. Source: `verbs.h`. Kind: D -/
def sizeofSendWr : ℕ := 128

/-- `sizeof(struct ibv_recv_wr)`. Source: `verbs.h`. Kind: D -/
def sizeofRecvWr : ℕ := 32

/-- `sizeof(struct ibv_sge)`. Source: `verbs.h`. Kind: D -/
def sizeofSge : ℕ := 16

/-- `enum RDMA_FUNCTION_CALL`, in the order of its declaration.
Source: `types.h`
Kind: D -/
inductive RdmaFunctionCall
  | ibvGetDeviceList | ibvGetContext | ibvQueryDev | ibvExpQueryDev | ibvQueryPort
  | ibvAllocPd | ibvDeallocPd | ibvCreateQp | ibvModifyQp | ibvQueryQp | ibvDestroyQp
  | ibvCreateSrq | ibvModifySrq | ibvPostSrqRecv | ibvDestroySrq
  | ibvCreateCq | ibvDestroyCq | ibvPollCq | ibvGetCqEvent | ibvAckCqEvent | ibvReqNotifyCq
  | ibvRegMr | ibvRegMrMapping | ibvDeregMr | ibvRegCm | ibvPostSend | ibvPostRecv
  | ibvCreateCompChannel | ibvDestroyCompChannel | ibvCreateAh | ibvDestroyAh
  | ibvCreateFlow | ibvDestroyFlow | ibvMalloc | ibvFree | ibvResizeCq
  | cmCreateEventChannel | cmDestroyEventChannel | cmCreateId | cmBindIp | cmBind | cmGetEvent
  | cmQueryRoute | cmListen | cmResolveIp | cmResolveAddr | cmUcmaQueryAddr | cmUcmaQueryGid
  | cmUcmaProcessConnResp | cmDestroyId | cmResolveRoute | cmUcmaQueryPath | cmInitQpAttr
  | cmConnect | cmAccept | cmSetOption | cmMigrateId | cmDisconnect
  | socketSocket | socketBind | socketAccept | socketAccept4 | socketConnect
  deriving DecidableEq, Repr

/-- The number of a request type on the wire. Source: `types.h`. Kind: D -/
def RdmaFunctionCall.code (f : RdmaFunctionCall) : UInt32 := UInt32.ofNat f.ctorIdx

/-- `enum ibv_wr_opcode`, in the order of its declaration.
Source: `verbs.h`
Kind: D -/
inductive WrOpcode
  | rdmaWrite | rdmaWriteWithImm | send | sendWithImm | rdmaRead
  | atomicCmpAndSwp | atomicFetchAndAdd | localInv | bindMw | sendWithInv
  deriving DecidableEq, Repr

/-- The number of an opcode. Source: `verbs.h`. Kind: D -/
def WrOpcode.code (o : WrOpcode) : UInt32 := UInt32.ofNat o.ctorIdx

/-- The test both decoders make before they look up an rkey: `IBV_WR_RDMA_WRITE`,
`IBV_WR_RDMA_WRITE_WITH_IMM` or `IBV_WR_RDMA_READ`. The atomics are not in it.
Source: `ffrouter.cpp` `CtrlChannelLoop`, `HandleRequest` (`IBV_POST_SEND`)
Kind: D -/
def oneSided (opcode : UInt32) : Bool :=
  opcode = WrOpcode.rdmaWrite.code ∨ opcode = WrOpcode.rdmaWriteWithImm.code ∨
    opcode = WrOpcode.rdmaRead.code

/-- `enum ibv_qp_type` (the values a QP can be created with).
Source: `verbs.h`
Kind: D -/
inductive QpType
  | rc | uc | ud | xrc | rawPacket | xrcSend | xrcRecv
  deriving DecidableEq, Repr

/-- A C `int` held in four bytes. Kind: D -/
def asInt (v : UInt32) : ℤ := v.toBitVec.toInt

/-- A number below `2 ^ 31` is itself as an `int`. Kind: L -/
lemma asInt_eq_toNat {v : UInt32} (h : v.toNat < 2 ^ 31) : asInt v = v.toNat := by
  unfold asInt
  rw [BitVec.toInt_eq_toNat_of_lt]
  · simp
  · simpa using (by omega : 2 * v.toNat < 2 ^ 32)

/-- A positive `int` is the number it was passed as. Kind: L -/
lemma asInt_of_pos {v : UInt32} (h : 0 < asInt v) : asInt v = v.toNat := by
  refine asInt_eq_toNat ?_
  by_contra hge
  have hlt := v.toNat_lt
  unfold asInt at h
  rw [BitVec.toInt_eq_toNat_cond, if_neg (by simpa using by omega)] at h
  simp only [UInt32.toNat_toBitVec] at h
  omega

/-! ## Scatter/gather elements -/

/-- `struct ibv_sge`.
Source: `verbs.h`
Kind: D -/
structure Sge where
  addr : UInt64
  length : UInt32
  lkey : UInt32
  deriving DecidableEq, Repr

/-- The sixteen bytes of an `ibv_sge`. Kind: D -/
def Sge.bytes (e : Sge) : List UInt8 :=
  Mem.toLE 8 e.addr.toNat ++ (Mem.toLE 4 e.length.toNat ++ Mem.toLE 4 e.lkey.toNat)

/-- The `ibv_sge` at address `p`. Kind: D -/
def sgeAt (m : Mem) (p : ℕ) : Sge := ⟨m.u64 p, m.u32 (p + 8), m.u32 (p + 12)⟩

/-- The `n` elements of the `ibv_sge` array at `p`. Kind: D -/
def sgesAt (m : Mem) : ℕ → ℕ → List Sge
  | _, 0 => []
  | p, n + 1 => sgeAt m p :: sgesAt m (p + sizeofSge) n

/-- The bytes of an `ibv_sge` array. Kind: D -/
def sgesBytes (es : List Sge) : List UInt8 := es.flatMap Sge.bytes

/-- An `ibv_sge` has sixteen bytes. Kind: L -/
@[simp] lemma Sge.length_bytes (e : Sge) : e.bytes.length = sizeofSge := by
  simp [Sge.bytes, sizeofSge]

/-- The length of an `ibv_sge` array in bytes. Kind: L -/
@[simp] lemma length_sgesBytes (es : List Sge) : (sgesBytes es).length = sizeofSge * es.length := by
  induction es with
  | nil => rfl
  | cons e es ih =>
      rw [sgesBytes, List.flatMap_cons, List.length_append, ← sgesBytes, ih, Sge.length_bytes,
        List.length_cons]
      ring

/-- `sgesAt` gives as many elements as it is asked for. Kind: L -/
@[simp] lemma length_sgesAt (m : Mem) (p n : ℕ) : (sgesAt m p n).length = n := by
  induction n generalizing p with
  | zero => rfl
  | succ n ih => simp [sgesAt, ih]

/-- Sixteen bytes that are those of `e` read as `e`. Kind: L -/
lemma sgeAt_eq_of_read {m : Mem} {p : ℕ} {e : Sge} (h : m.read p sizeofSge = e.bytes) :
    sgeAt m p = e := by
  have hsplit : m.read p 8 ++ (m.read (p + 8) 4 ++ m.read (p + 12) 4) = e.bytes := by
    rw [← h, sizeofSge, show 16 = 8 + (4 + 4) by rfl, Mem.read_add, Mem.read_add]
  obtain ⟨haddr, hrest⟩ := List.append_inj hsplit (by simp)
  obtain ⟨hlen, hkey⟩ := List.append_inj hrest (by simp)
  have h64 : ∀ v : UInt64, UInt64.ofNat (Mem.ofLE (Mem.toLE 8 v.toNat)) = v := by
    intro v
    rw [Mem.ofLE_toLE _ _ (lt_of_lt_of_eq v.toNat_lt (by norm_num)), UInt64.ofNat_toNat]
  have h32 : ∀ v : UInt32, UInt32.ofNat (Mem.ofLE (Mem.toLE 4 v.toNat)) = v := by
    intro v
    rw [Mem.ofLE_toLE _ _ (lt_of_lt_of_eq v.toNat_lt (by norm_num)), UInt32.ofNat_toNat]
  simp only [sgeAt, Mem.u64, Mem.u32, haddr, hlen, hkey, h64, h32]

/-- An array in memory whose bytes are those of `es` reads as `es`. Kind: L -/
lemma sgesAt_eq_of_read {m : Mem} {p : ℕ} {es : List Sge}
    (h : m.read p (sizeofSge * es.length) = sgesBytes es) : sgesAt m p es.length = es := by
  induction es generalizing p with
  | nil => rfl
  | cons e es ih =>
      rw [List.length_cons, Nat.mul_add_one, Nat.add_comm, Mem.read_add, sgesBytes,
        List.flatMap_cons, ← sgesBytes] at h
      obtain ⟨hhead, htail⟩ := List.append_inj h (by simp)
      rw [List.length_cons, sgesAt, sgeAt_eq_of_read hhead, ih htail]

/-- The elements of an array depend on its bytes only. Kind: L -/
lemma sgesAt_congr {m m' : Mem} {p q n : ℕ}
    (h : m.read p (sizeofSge * n) = m'.read q (sizeofSge * n)) : sgesAt m p n = sgesAt m' q n := by
  induction n generalizing p q with
  | zero => rfl
  | succ n ih =>
      rw [Nat.mul_add_one, Nat.add_comm, Mem.read_add, Mem.read_add] at h
      obtain ⟨hhead, htail⟩ := List.append_inj h (by simp)
      have hparts : m.read p 8 ++ (m.read (p + 8) 4 ++ m.read (p + 12) 4) =
          m'.read q 8 ++ (m'.read (q + 8) 4 ++ m'.read (q + 12) 4) := by
        rw [sizeofSge, show 16 = 8 + (4 + 4) by rfl, Mem.read_add, Mem.read_add,
          Mem.read_add m', Mem.read_add m'] at hhead
        exact hhead
      obtain ⟨haddr, hrest⟩ := List.append_inj hparts (by simp)
      obtain ⟨hlen, hkey⟩ := List.append_inj hrest (by simp)
      rw [sgesAt, sgesAt, ih htail]
      simp only [sgeAt, Mem.u64_congr haddr, Mem.u32_congr hlen, Mem.u32_congr hkey]

/-! ## Rewriting an array in place

The client turns every element's address into an offset, the router turns the offset into an
address of its own; both do it element by element inside the channel. -/

section InPlace

variable {σ : Type*} (f : σ → Sge → Option (σ × UInt64))

/-- `for (j = 0; j < n; j++) s[j].addr = ...;`: the new address of an element may depend on the
element and on a state carried through the loop; `none` is a step that never completes.
Source: `cmd.c` `ibv_cmd_post_send`, `ibv_cmd_post_recv`; `ffrouter.cpp` `CtrlChannelLoop`,
`HandleRequest` (the loops over `j`)
Kind: D -/
def patchAddrs : σ → Mem → ℕ → ℕ → Option (σ × Mem)
  | st, m, _, 0 => some (st, m)
  | st, m, s, n + 1 => do
      let (st', a) ← f st (sgeAt m s)
      patchAddrs st' (m.setU64 s a) (s + sizeofSge) n

/-- The same loop on a list of elements. Kind: D -/
def patchList : σ → List Sge → Option (σ × List Sge)
  | st, [] => some (st, [])
  | st, e :: es => do
      let (st', a) ← f st e
      let (st'', es') ← patchList st' es
      some (st'', { e with addr := a } :: es')

/-- The loop keeps the number of elements. Kind: L -/
lemma length_patchList {st st' : σ} {es es' : List Sge} (h : patchList f st es = some (st', es')) :
    es'.length = es.length := by
  induction es generalizing st st' es' with
  | nil =>
      simp only [patchList, Option.some.injEq, Prod.mk.injEq] at h
      rw [← h.2]
  | cons e es ih =>
      rw [patchList] at h
      rcases hf : f st e with _ | ⟨st₁, a⟩
      · simp [hf] at h
      rcases hl : patchList f st₁ es with _ | ⟨st₂, es₂⟩
      · simp [hf, hl] at h
      simp only [hf, hl, Option.bind_eq_bind, Option.bind_some, Option.some.injEq,
        Prod.mk.injEq] at h
      rw [← h.2, List.length_cons, List.length_cons, ih hl]

/-- A loop whose step always completes maps its elements. Kind: L -/
lemma patchList_pure (g : Sge → UInt64) (es : List Sge) :
    patchList (fun (_ : Unit) e => some ((), g e)) () es =
      some ((), es.map fun e => { e with addr := g e }) := by
  induction es with
  | nil => rfl
  | cons e es ih => simp [patchList, ih]

/-- The in-place loop ends exactly when the loop on lists does, in the same state; it leaves the
list's result in the array and every byte outside the array alone.
Kind: L -/
lemma patchAddrs_spec (st : σ) (m : Mem) (s n : ℕ) :
    match patchList f st (sgesAt m s n) with
    | none => patchAddrs f st m s n = none
    | some (st', es') => ∃ m', patchAddrs f st m s n = some (st', m') ∧ sgesAt m' s n = es' ∧
        ∀ x, x < s ∨ s + sizeofSge * n ≤ x → m' x = m x := by
  induction n generalizing st m s with
  | zero => exact ⟨m, rfl, rfl, fun _ _ => rfl⟩
  | succ n ih =>
      rw [sgesAt, patchList, patchAddrs]
      rcases hf : f st (sgeAt m s) with _ | ⟨st₁, a⟩
      · rfl
      have htail : sgesAt (m.setU64 s a) (s + sizeofSge) n = sgesAt m (s + sizeofSge) n :=
        sgesAt_congr (Mem.read_setU64_disjoint (by rw [sizeofSge]; omega))
      have hrec := ih st₁ (m.setU64 s a) (s + sizeofSge)
      rw [htail] at hrec
      simp only [Option.bind_eq_bind, Option.bind_some]
      rcases hl : patchList f st₁ (sgesAt m (s + sizeofSge) n) with _ | ⟨st₂, es'⟩
      · rw [hl] at hrec
        exact hrec
      rw [hl] at hrec
      obtain ⟨m', hrun, hes, hout⟩ := hrec
      refine ⟨m', hrun, ?_, ?_⟩
      · -- the head element is only touched by its own store
        have hkeep : m'.read s sizeofSge = (m.setU64 s a).read s sizeofSge :=
          Mem.read_congr fun x _ hx => hout x (Or.inl hx)
        have hhead : sgeAt m' s = { sgeAt m s with addr := a } := by
          have hlo : m'.read s 8 = (m.setU64 s a).read s 8 :=
            Mem.read_slice (k := 0) hkeep (by decide)
          have hlen : m'.read (s + 8) 4 = m.read (s + 8) 4 :=
            (Mem.read_slice hkeep (by decide)).trans (Mem.read_setU64_disjoint (by omega))
          have hkey : m'.read (s + 12) 4 = m.read (s + 12) 4 :=
            (Mem.read_slice hkeep (by decide)).trans (Mem.read_setU64_disjoint (by omega))
          simp only [sgeAt, Mem.u64_congr hlo, Mem.u64_setU64, Mem.u32_congr hlen,
            Mem.u32_congr hkey]
        rw [sgesAt, hhead, hes]
      · intro x hx
        rw [Nat.mul_add_one] at hx
        rw [hout x (by omega), Mem.setU64_apply_of_outside (by rw [sizeofSge] at hx; omega)]

end InPlace

/-! ## Work requests -/

/-- `struct ibv_send_wr` without its two pointers `next` and `sg_list`: the words the verbs name
and the bytes `52..128`, which hold the rest of the union (`atomic.swap`, `ud.remote_qkey`, ...),
`xrc` and `bind_mw`.
Source: `verbs.h`
Kind: D -/
structure WrFields where
  wrId : UInt64
  numSge : UInt32
  opcode : UInt32
  sendFlags : UInt32
  immData : UInt32
  remoteAddr : UInt64
  rkey : UInt32
  rest : List UInt8
  deriving DecidableEq, Repr

/-- The fields of the `ibv_send_wr` at `p`. Kind: D -/
def fieldsAt (m : Mem) (p : ℕ) : WrFields where
  wrId := m.u64 p
  numSge := m.u32 (p + 24)
  opcode := m.u32 (p + 28)
  sendFlags := m.u32 (p + 32)
  immData := m.u32 (p + 36)
  remoteAddr := m.u64 (p + 40)
  rkey := m.u32 (p + 48)
  rest := m.read (p + 52) 76

/-- `wr->next`. Kind: D -/
def nextAt (m : Mem) (p : ℕ) : UInt64 := m.u64 (p + 8)

/-- `wr->sg_list`. Kind: D -/
def sgListAt (m : Mem) (p : ℕ) : UInt64 := m.u64 (p + 16)

/-- The fields depend on the bytes of the struct only. Kind: L -/
lemma fieldsAt_congr {m m' : Mem} {p q : ℕ}
    (h : m.read p sizeofSendWr = m'.read q sizeofSendWr) : fieldsAt m p = fieldsAt m' q := by
  have h0 : m.u64 p = m'.u64 q := Mem.u64_congr (Mem.read_slice (k := 0) h (by decide))
  simp only [fieldsAt, h0, Mem.u32_congr (Mem.read_slice (k := 24) h (by decide)),
    Mem.u32_congr (Mem.read_slice (k := 28) h (by decide)),
    Mem.u32_congr (Mem.read_slice (k := 32) h (by decide)),
    Mem.u32_congr (Mem.read_slice (k := 36) h (by decide)),
    Mem.u64_congr (Mem.read_slice (k := 40) h (by decide)),
    Mem.u32_congr (Mem.read_slice (k := 48) h (by decide)),
    Mem.read_slice (k := 52) (l := 76) h (by decide)]

section Stores

variable (m : Mem) (p : ℕ) (v : UInt64)

/-- Storing `next` keeps the fields. Kind: L -/
@[simp] lemma fieldsAt_setNext : fieldsAt (m.setU64 (p + 8) v) p = fieldsAt m p := by
  simp (disch := omega) only [fieldsAt, Mem.u64, Mem.u32, Mem.read_setU64_disjoint]

/-- Storing `sg_list` keeps the fields. Kind: L -/
@[simp] lemma fieldsAt_setSgList : fieldsAt (m.setU64 (p + 16) v) p = fieldsAt m p := by
  simp (disch := omega) only [fieldsAt, Mem.u64, Mem.u32, Mem.read_setU64_disjoint]

/-- Storing the first word of the union changes that field alone. Kind: L -/
@[simp] lemma fieldsAt_setRemote :
    fieldsAt (m.setU64 (p + 40) v) p = { fieldsAt m p with remoteAddr := v } := by
  have hself : (m.setU64 (p + 40) v).u64 (p + 40) = v := Mem.u64_setU64 _ _ _
  have hid : (m.setU64 (p + 40) v).u64 p = m.u64 p :=
    Mem.u64_congr (Mem.read_setU64_disjoint (by omega))
  simp (disch := omega) only [fieldsAt, hself, hid, Mem.u32, Mem.read_setU64_disjoint]

/-- Storing `sg_list` keeps `next`. Kind: L -/
@[simp] lemma nextAt_setSgList : nextAt (m.setU64 (p + 16) v) p = nextAt m p :=
  Mem.u64_congr (Mem.read_setU64_disjoint (by omega))

/-- Storing the first word of the union keeps `next`. Kind: L -/
@[simp] lemma nextAt_setRemote : nextAt (m.setU64 (p + 40) v) p = nextAt m p :=
  Mem.u64_congr (Mem.read_setU64_disjoint (by omega))

/-- Storing the first word of the union keeps `sg_list`. Kind: L -/
@[simp] lemma sgListAt_setRemote : sgListAt (m.setU64 (p + 40) v) p = sgListAt m p :=
  Mem.u64_congr (Mem.read_setU64_disjoint (by omega))

/-- A stored `next` is read back. Kind: L -/
@[simp] lemma nextAt_setNext : nextAt (m.setU64 (p + 8) v) p = v := Mem.u64_setU64 _ _ _

/-- A stored `sg_list` is read back. Kind: L -/
@[simp] lemma sgListAt_setSgList : sgListAt (m.setU64 (p + 16) v) p = v := Mem.u64_setU64 _ _ _

end Stores

/-- The two pointers depend on the first bytes of the struct only. Kind: L -/
lemma pointersAt_congr {m m' : Mem} {p n : ℕ} (hn : 24 ≤ n) (h : m.read p n = m'.read p n) :
    nextAt m p = nextAt m' p ∧ sgListAt m p = sgListAt m' p :=
  ⟨Mem.u64_congr (Mem.read_slice (k := 8) h (by omega)),
    Mem.u64_congr (Mem.read_slice (k := 16) h (by omega))⟩

/-- A send work request of the application: the bytes of its `ibv_send_wr` (at `0..128` of
`block`), the scatter list behind `sg_list` and, for a UD QP, the handle of `wr.ud.ah`. A request
whose `num_sge` does not count its list cannot be built.
Source: `verbs.h`
Kind: D -/
structure SendWr where
  block : Mem
  sgList : List Sge
  ahHandle : UInt32
  numSge_eq : (block.u32 24).toNat = sgList.length
  numSge_lt : sgList.length < 2 ^ 31

namespace SendWr

/-- The fields of a request. Kind: D -/
def fields (w : SendWr) : WrFields := fieldsAt w.block 0

/-- A request with the given opcode, remote address, rkey, address handle and elements, and zeros
elsewhere. Kind: D -/
def ofParts (opcode : UInt32) (remoteAddr : UInt64) (rkey ahHandle : UInt32) (es : List Sge)
    (hes : es.length < 2 ^ 31) : SendWr where
  block := Mem.setU32 (Mem.setU64 (Mem.setU32 (Mem.setU32 (fun _ => 0) 48 rkey) 28 opcode) 40
    remoteAddr) 24 (UInt32.ofNat es.length)
  sgList := es
  ahHandle := ahHandle
  numSge_eq := by
    rw [Mem.u32_setU32]
    exact UInt32.toNat_ofNat_of_lt' (by rw [UInt32.size]; omega)
  numSge_lt := hes

end SendWr

/-- `struct ibv_recv_wr` without its two pointers `next` and `sg_list`, which are where those of an
`ibv_send_wr` are. Source: `verbs.h`. Kind: D -/
structure RecvFields where
  wrId : UInt64
  numSge : UInt32
  deriving DecidableEq, Repr

/-- The fields of the `ibv_recv_wr` at `p`. Kind: D -/
def recvFieldsAt (m : Mem) (p : ℕ) : RecvFields := ⟨m.u64 p, m.u32 (p + 24)⟩

/-- They depend on the eight bytes of the id and the four of `num_sge`. Kind: L -/
lemma recvFieldsAt_congr {m m' : Mem} {p q : ℕ} (hid : m.read p 8 = m'.read q 8)
    (hnum : m.read (p + 24) 4 = m'.read (q + 24) 4) : recvFieldsAt m p = recvFieldsAt m' q := by
  unfold recvFieldsAt
  rw [Mem.u64_congr hid, Mem.u32_congr hnum]

/-- So they are the same in equal blocks. Kind: L -/
lemma recvFieldsAt_of_block {m m' : Mem} {p q : ℕ}
    (h : m.read p sizeofRecvWr = m'.read q sizeofRecvWr) : recvFieldsAt m p = recvFieldsAt m' q :=
  recvFieldsAt_congr (Mem.read_slice (k := 0) h (by decide))
    (Mem.read_slice (k := 24) h (by decide))

/-- Storing `next` keeps the fields of a receive. Kind: L -/
@[simp] lemma recvFieldsAt_setNext (m : Mem) (p : ℕ) (v : UInt64) :
    recvFieldsAt (m.setU64 (p + 8) v) p = recvFieldsAt m p :=
  recvFieldsAt_congr (Mem.read_setU64_disjoint (by omega)) (Mem.read_setU64_disjoint (by omega))

/-- Storing `sg_list` keeps the fields of a receive. Kind: L -/
@[simp] lemma recvFieldsAt_setSgList (m : Mem) (p : ℕ) (v : UInt64) :
    recvFieldsAt (m.setU64 (p + 16) v) p = recvFieldsAt m p :=
  recvFieldsAt_congr (Mem.read_setU64_disjoint (by omega)) (Mem.read_setU64_disjoint (by omega))

/-- A receive work request of the application: the bytes of its `ibv_recv_wr` (at `0..32` of
`block`) and the scatter list behind `sg_list`, which `num_sge` counts.
Source: `verbs.h`
Kind: D -/
structure RecvWr where
  block : Mem
  sgList : List Sge
  numSge_eq : (block.u32 24).toNat = sgList.length
  numSge_lt : sgList.length < 2 ^ 31

namespace RecvWr

/-- `wr->wr_id`. Kind: D -/
def wrId (w : RecvWr) : UInt64 := w.block.u64 0

/-- The fields of a receive. Kind: D -/
def fields (w : RecvWr) : RecvFields := recvFieldsAt w.block 0

/-- A receive with the given id and elements, and zeros elsewhere. Kind: D -/
def ofParts (wrId : UInt64) (es : List Sge) (hes : es.length < 2 ^ 31) : RecvWr where
  block := Mem.setU32 (Mem.setU64 (fun _ => 0) 0 wrId) 24 (UInt32.ofNat es.length)
  sgList := es
  numSge_eq := by
    rw [Mem.u32_setU32]
    exact UInt32.toNat_ofNat_of_lt' (by rw [UInt32.size]; omega)
  numSge_lt := hes

end RecvWr

end FreeFlow.Verbs
