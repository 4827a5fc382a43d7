import FreeFlow.Client.RecvRing

/-!
# The client's receive encoders

`ibv_cmd_post_recv` and `ibv_cmd_post_srq_recv` lay a list of receives out in the request area of a
control channel and note every element in a receive ring. The two are the same code on different
tables: the request area of the QP or of the SRQ, the ring of the QP's CQ or of the SRQ.

* `encodeRecvs` — the loop over the requests.
* `postRecvs` — the whole call, up to the point where the request is handed over.
* `postRecvs_requestArea` — what the request area and the ring hold afterwards.
* `rings_of_step` — the machine of the receive ring moves its rings as these calls do.

Source: `cmd.c` `ibv_cmd_post_recv`, `ibv_cmd_post_srq_recv`.
-/

namespace FreeFlow.Client

open FreeFlow.Found FreeFlow.Verbs

/-- The body of the loop over `j`: note the element and replace its address by the offset. A key
without a region dereferences the null pointer (`none`).
Source: `cmd.c` `ibv_cmd_post_recv`
Kind: D -/
def noteElement (map : UInt32 → Option MrShm) (notes : List SgeRecord) (e : Sge) :
    Option (List SgeRecord × UInt64) :=
  (map e.lkey).map fun p => (notes ++ [sgeRecord p e], e.addr - p.mr)

/-- The loop over the requests: `tmp` and `s` are the cursors into the two arrays, `ptr` gives the
address of an offset of the request area in the client, and the receives are numbered from `n`.
Source: `cmd.c` `ibv_cmd_post_recv` (`for (i = wr; i; i = i->next)`, second loop)
Kind: D -/
def encodeRecvs (map : UInt32 → Option MrShm) (ptr : ℕ → UInt64) (place : Place) :
    List RecvWr → (n tmp s : ℕ) → Mem → WrQueue → Option (Mem × WrQueue)
  | [], _, _, _, m, Q => some (m, Q)
  | i :: is, n, tmp, s, m, Q =>
      let m := m.write tmp (i.block.read 0 sizeofRecvWr)
      let k := m.u32 (tmp + 24)
      if k ≠ 0 then do
        let m := m.setU64 (tmp + 16) (ptr s)
        let m := m.write s (sgesBytes i.sgList)
        let (notes, m) ← patchAddrs (noteElement map) [] m s k.toNat
        encodeRecvs map ptr place is (n + 1) (tmp + sizeofRecvWr) (s + sizeofSge * k.toNat) m
          (Q.record ⟨n, place, i.wrId, notes⟩)
      else
        encodeRecvs map ptr place is (n + 1) (tmp + sizeofRecvWr) s m
          (Q.record ⟨n, place, i.wrId, []⟩)

/-- The number of elements of all receives. Kind: D -/
def recvSgeTotal (ws : List RecvWr) : ℕ := (ws.map fun w => w.sgList.length).sum

/-- Offset of the `ibv_sge` array behind `n` receives. Kind: D -/
def recvSgeOff (n : ℕ) : ℕ := wrOff + sizeofRecvWr * n

/-- The bytes an encoding takes. Kind: D -/
def recvEncodedSize (ws : List RecvWr) : ℕ :=
  recvSgeOff ws.length + sizeofSge * recvSgeTotal ws

/-- **Both post calls**, up to the point where the request is handed over.
Source: `cmd.c` `ibv_cmd_post_recv`, `ibv_cmd_post_srq_recv`
Kind: D -/
def postRecvs (c : Lib) (func : RdmaFunctionCall) (handle : UInt32) (place : Place)
    (ptr : ℕ → UInt64) (n : ℕ) (ws : List RecvWr) (m : Mem) (Q : WrQueue) :
    Option (Mem × WrQueue) :=
  let wrCount := UInt32.ofNat ws.length
  let sgeCount := UInt32.ofNat (recvSgeTotal ws)
  let bodySize := UInt32.ofNat (sizeofPostSend + wrCount.toNat * sizeofRecvWr +
    sgeCount.toNat * sizeofSge)
  let m := putHeader m c.clientId func.code bodySize handle wrCount sgeCount
  encodeRecvs c.mapLkeyToMrShm ptr place ws n wrOff (recvSgeOff wrCount.toNat) m Q

/-- `ibv_cmd_post_recv`: the ring is that of the QP's receive CQ. Source: `cmd.c`. Kind: D -/
def ibvCmdPostRecv (c : Lib) (handle : UInt32) (ptr : ℕ → UInt64) (n : ℕ) (ws : List RecvWr)
    (m : Mem) (Q : WrQueue) : Option (Mem × WrQueue) :=
  postRecvs c .ibvPostRecv handle (.qp handle.toNat) ptr n ws m Q

/-- `ibv_cmd_post_srq_recv`: the ring is that of the SRQ. Source: `cmd.c`. Kind: D -/
def ibvCmdPostSrqRecv (c : Lib) (handle : UInt32) (ptr : ℕ → UInt64) (n : ℕ) (ws : List RecvWr)
    (m : Mem) (Q : WrQueue) : Option (Mem × WrQueue) :=
  postRecvs c .ibvPostSrqRecv handle (.srq handle.toNat) ptr n ws m Q

/-! ## What the arrays hold -/

/-- The note for an element whose key is known. Kind: D -/
def noteOf (map : UInt32 → Option MrShm) (e : Sge) : SgeRecord :=
  sgeRecord ((map e.lkey).getD ⟨0, 0⟩) e

/-- The receives of a call whose keys are known. Kind: D -/
def recvsOf (map : UInt32 → Option MrShm) (place : Place) : ℕ → List RecvWr → List Recv
  | _, [] => []
  | n, w :: ws => ⟨n, place, w.wrId, w.sgList.map (noteOf map)⟩ :: recvsOf map place (n + 1) ws

/-- The elements of a list whose keys all have a region are noted one by one. Kind: L -/
lemma patchList_noteElement (map : UInt32 → Option MrShm) (notes : List SgeRecord) (es : List Sge)
    (h : ∀ e ∈ es, (map e.lkey).isSome) :
    patchList (noteElement map) notes es =
      some (notes ++ es.map (noteOf map), es.map (offsetSge map)) := by
  induction es generalizing notes with
  | nil => simp [patchList]
  | cons e es ih =>
      obtain ⟨p, hp⟩ := Option.isSome_iff_exists.mp (h e List.mem_cons_self)
      have htail : ∀ e' ∈ es, (map e'.lkey).isSome := fun e' he' =>
        h e' (List.mem_cons_of_mem _ he')
      simp [patchList, noteElement, hp, ih _ htail, offsetSge, noteOf]

/-- They are the notes that the machine of the receive ring makes. Kind: L -/
lemma toRecvs_eq (map : UInt32 → Option MrShm) (place : Place) (n : ℕ) (ws : List RecvWr)
    (h : ∀ w ∈ ws, ∀ e ∈ w.sgList, (map e.lkey).isSome) :
    toRecvs map place n ws = some (recvsOf map place n ws) := by
  induction ws generalizing n with
  | nil => rfl
  | cons w ws ih =>
      have hmapM : ∀ es : List Sge, (∀ e ∈ es, (map e.lkey).isSome) →
          (es.mapM fun e => (map e.lkey).map fun p => sgeRecord p e) =
            some (es.map (noteOf map)) := by
        intro es hes
        induction es with
        | nil => rfl
        | cons e es ih =>
            obtain ⟨p, hp⟩ := Option.isSome_iff_exists.mp (hes e List.mem_cons_self)
            simp [List.mapM_cons, hp, ih fun e' he' => hes e' (List.mem_cons_of_mem _ he'), noteOf]
      rw [toRecvs, hmapM _ (h w List.mem_cons_self),
        ih _ fun w' hw' => h w' (List.mem_cons_of_mem _ hw')]
      rfl

/-- The two arrays at `p` and `s` hold the receives: each its own fields and its own elements as
offsets. Kind: D -/
def EncodedRecvs (map : UInt32 → Option MrShm) (m : Mem) : List RecvWr → (p s : ℕ) → Prop
  | [], _, _ => True
  | w :: ws, p, s =>
      recvFieldsAt m p = w.fields ∧
      sgesAt m s w.sgList.length = w.sgList.map (offsetSge map) ∧
      EncodedRecvs map m ws (p + sizeofRecvWr) (s + sizeofSge * w.sgList.length)

/-- The number of elements splits at the head. Kind: L -/
@[simp] lemma recvSgeTotal_cons (w : RecvWr) (ws : List RecvWr) :
    recvSgeTotal (w :: ws) = w.sgList.length + recvSgeTotal ws := by
  simp [recvSgeTotal]

/-- A stored block reads as the receive's fields. Kind: L -/
lemma recvFieldsAt_write_block (w : RecvWr) (m : Mem) (p : ℕ) :
    recvFieldsAt (m.write p (w.block.read 0 sizeofRecvWr)) p = w.fields := by
  have hsame := Mem.read_write_same m p (w.block.read 0 sizeofRecvWr)
  rw [Mem.length_read] at hsame
  exact recvFieldsAt_of_block hsame

/-- **One receive**: its block is stored, its elements are noted and stored as offsets, and nothing
else changes. Kind: L -/
lemma encodeRecv_step {map : UInt32 → Option MrShm} (ptr : ℕ → UInt64) (place : Place) {w : RecvWr}
    (ws : List RecvWr) (n : ℕ) {p s : ℕ} (m : Mem) (Q : WrQueue)
    (hkeys : ∀ e ∈ w.sgList, (map e.lkey).isSome) (hps : p + sizeofRecvWr ≤ s) :
    ∃ m₁, encodeRecvs map ptr place (w :: ws) n p s m Q =
        encodeRecvs map ptr place ws (n + 1) (p + sizeofRecvWr)
          (s + sizeofSge * w.sgList.length) m₁
          (Q.record ⟨n, place, w.wrId, w.sgList.map (noteOf map)⟩) ∧
      recvFieldsAt m₁ p = w.fields ∧
      sgesAt m₁ s w.sgList.length = w.sgList.map (offsetSge map) ∧
      ∀ x, (x < p ∨ p + sizeofRecvWr ≤ x) → (x < s ∨ s + sizeofSge * w.sgList.length ≤ x) →
        m₁ x = m x := by
  have hblock := recvFieldsAt_write_block w m p
  have hcount : (m.write p (w.block.read 0 sizeofRecvWr)).u32 (p + 24) = w.block.u32 24 :=
    congrArg RecvFields.numSge hblock
  have hout : ∀ x, (x < p ∨ p + sizeofRecvWr ≤ x) →
      m.write p (w.block.read 0 sizeofRecvWr) x = m x := fun x hx =>
    Mem.write_apply_of_outside (by rwa [Mem.length_read])
  rw [encodeRecvs]
  simp only [hcount]
  generalize m.write p (w.block.read 0 sizeofRecvWr) = m₀ at *
  by_cases hnil : w.sgList = []
  · have hzero : w.block.u32 24 = 0 := by
      rw [← UInt32.toNat_inj, w.numSge_eq, hnil]
      rfl
    refine ⟨m₀, ?_, hblock, by simp [hnil, sgesAt], fun x hx _ => hout x hx⟩
    simp [hzero, hnil]
  · have hne : w.block.u32 24 ≠ 0 := by
      intro hzero
      have hlen := w.numSge_eq
      rw [hzero] at hlen
      exact hnil (List.length_eq_zero_iff.mp hlen.symm)
    -- `sg_list` is set, then the elements are stored and patched
    let m₁ := (m₀.setU64 (p + 16) (ptr s)).write s (sgesBytes w.sgList)
    have hlist : sgesAt m₁ s w.sgList.length = w.sgList := by
      apply sgesAt_eq_of_read
      have hread := Mem.read_write_same (m₀.setU64 (p + 16) (ptr s)) s (sgesBytes w.sgList)
      rwa [length_sgesBytes] at hread
    have hpatch := patchAddrs_spec (noteElement map) [] m₁ s w.sgList.length
    rw [hlist, patchList_noteElement map [] _ hkeys] at hpatch
    obtain ⟨m₂, hrun, hsges, hkeep⟩ := hpatch
    have hframe : ∀ x, (x < s ∨ s + sizeofSge * w.sgList.length ≤ x) →
        (x < p + 16 ∨ p + 24 ≤ x) → m₂ x = m₀ x := by
      intro x hx hx'
      rw [hkeep x hx]
      have hwrite : m₁ x = m₀.setU64 (p + 16) (ptr s) x :=
        Mem.write_apply_of_outside (by rwa [length_sgesBytes])
      rw [hwrite, Mem.setU64_apply_of_outside (by omega)]
    rw [sizeofRecvWr] at hps
    refine ⟨m₂, ?_, ?_, hsges, fun x hx hxs => ?_⟩
    · rw [if_pos hne, w.numSge_eq]
      simp only [m₁] at hrun
      simp only [hrun, Option.bind_eq_bind, Option.bind_some, List.nil_append]
    · rw [← hblock]
      exact recvFieldsAt_congr (Mem.read_congr fun x hx hx' => hframe x (by omega) (by omega))
        (Mem.read_congr fun x hx hx' => hframe x (by omega) (by omega))
    · rw [sizeofRecvWr] at hx
      rw [hframe x hxs (by omega), hout x (by rw [sizeofRecvWr]; omega)]

/-- **The loop over the receives**: it ends, the arrays hold the receives, the ring has noted them,
and nothing outside the arrays has changed. Kind: L -/
lemma encodeRecvs_encoded {map : UInt32 → Option MrShm} (ptr : ℕ → UInt64) (place : Place)
    (ws : List RecvWr) (n : ℕ) {p s : ℕ} (m : Mem) (Q : WrQueue)
    (hkeys : ∀ w ∈ ws, ∀ e ∈ w.sgList, (map e.lkey).isSome)
    (hps : p + sizeofRecvWr * ws.length ≤ s) :
    ∃ m', encodeRecvs map ptr place ws n p s m Q =
        some (m', (recvsOf map place n ws).foldl WrQueue.record Q) ∧
      EncodedRecvs map m' ws p s ∧
      ∀ x, (x < p ∨ p + sizeofRecvWr * ws.length ≤ x) →
        (x < s ∨ s + sizeofSge * recvSgeTotal ws ≤ x) → m' x = m x := by
  induction ws generalizing n p s m Q with
  | nil => exact ⟨m, rfl, trivial, fun _ _ _ => rfl⟩
  | cons w ws ih =>
      obtain ⟨hfirst, hrest⟩ := List.forall_mem_cons.mp hkeys
      rw [List.length_cons, Nat.mul_add_one] at hps
      obtain ⟨m₁, hstep, hfields, hsges, hout⟩ :=
        encodeRecv_step ptr place ws n m Q hfirst (p := p) (s := s) (by omega)
      obtain ⟨m', hrun, henc, hout'⟩ := ih (n + 1) m₁
        (Q.record ⟨n, place, w.wrId, w.sgList.map (noteOf map)⟩) hrest
        (p := p + sizeofRecvWr) (s := s + sizeofSge * w.sgList.length) (by omega)
      refine ⟨m', hstep.trans hrun, ⟨?_, ?_, henc⟩, fun x hx hxs => ?_⟩
      · -- the later receives go behind this one
        rw [← hfields]
        exact recvFieldsAt_of_block
          (Mem.read_congr fun x hx hx' => hout' x (by omega) (by omega))
      · rw [← hsges]
        exact sgesAt_congr (Mem.read_congr fun x hx hx' => hout' x (by omega) (by omega))
      · rw [List.length_cons, Nat.mul_add_one] at hx
        rw [recvSgeTotal_cons, Nat.mul_add] at hxs
        rw [hout' x (by omega) (by omega), hout x (by omega) (by omega)]

/-- The request area that a call leaves: the words the router reads, and the two arrays. Kind: D -/
structure RecvArea (c : Lib) (handle : UInt32) (ws : List RecvWr) (m : Mem) : Prop where
  bodySize : sizeofRequestHeader + (m.u32 8).toNat = recvEncodedSize ws
  handle : m.u32 28 = handle
  wrCount : (m.u32 32).toNat = ws.length
  sgeCount : (m.u32 36).toNat = recvSgeTotal ws
  encoded : EncodedRecvs c.mapLkeyToMrShm m ws wrOff (recvSgeOff ws.length)

/-- **What a post call leaves**: for every list with known keys that fits the channel, the request
area holds it and the ring has noted it. Kind: L -/
lemma postRecvs_requestArea (c : Lib) (func : RdmaFunctionCall) (handle : UInt32) (place : Place)
    (ptr : ℕ → UInt64) (n : ℕ) (ws : List RecvWr) (m : Mem) (Q : WrQueue)
    (hkeys : ∀ w ∈ ws, ∀ e ∈ w.sgList, (c.mapLkeyToMrShm e.lkey).isSome)
    (hfit : recvEncodedSize ws ≤ ctrlReqSize) :
    ∃ m', postRecvs c func handle place ptr n ws m Q =
        some (m', (recvsOf c.mapLkeyToMrShm place n ws).foldl WrQueue.record Q) ∧
      RecvArea c handle ws m' := by
  have hsize : recvEncodedSize ws = 44 + 32 * ws.length + 16 * recvSgeTotal ws := by
    simp [recvEncodedSize, recvSgeOff, wrOff, sizeofRequestHeader, sizeofPostSend, sizeofRecvWr,
      sizeofSge]
  have hlimit : recvEncodedSize ws ≤ 1048576 := hfit
  have hwrCount : (UInt32.ofNat ws.length).toNat = ws.length :=
    UInt32.toNat_ofNat_of_lt' (by rw [UInt32.size]; omega)
  have hsgeCount : (UInt32.ofNat (recvSgeTotal ws)).toNat = recvSgeTotal ws :=
    UInt32.toNat_ofNat_of_lt' (by rw [UInt32.size]; omega)
  have hbodySize : sizeofPostSend + ws.length * sizeofRecvWr + recvSgeTotal ws * sizeofSge =
      recvEncodedSize ws - sizeofRequestHeader := by
    rw [hsize, sizeofPostSend, sizeofRecvWr, sizeofSge, sizeofRequestHeader]
    omega
  simp only [postRecvs, hwrCount, hsgeCount, hbodySize]
  obtain ⟨⟨-, -, hbody, hhandle, hwrs, hsges⟩, -⟩ := putHeader_words m c.clientId func.code
    (UInt32.ofNat (recvEncodedSize ws - sizeofRequestHeader)) handle (UInt32.ofNat ws.length)
    (UInt32.ofNat (recvSgeTotal ws))
  generalize putHeader m c.clientId _ _ _ _ _ = m₀ at *
  obtain ⟨m', hrun, henc, hout⟩ := encodeRecvs_encoded ptr place ws n (p := wrOff)
    (s := recvSgeOff ws.length) m₀ Q hkeys le_rfl
  -- the loop leaves the header words alone
  have hword : ∀ b, b + 4 ≤ wrOff → m'.u32 b = m₀.u32 b := fun b hb =>
    Mem.u32_congr (Mem.read_congr fun x _ hx => hout x (by omega) (by
      unfold recvSgeOff
      omega))
  have hw : wrOff = 44 := rfl
  refine ⟨m', hrun, ?_, ?_, ?_, ?_, henc⟩
  · rw [hword 8 (by omega), hbody, UInt32.toNat_ofNat_of_lt' (by rw [UInt32.size]; omega),
      sizeofRequestHeader]
    omega
  · rw [hword 28 (by omega), hhandle]
  · rw [hword 32 (by omega), hwrs, hwrCount]
  · rw [hword 36 (by omega), hsges, hsgeCount]

/-! ## What the ring holds -/

/-- Notes of later receives go to other slots, as long as there are fewer than `2^16` of them.
Kind: L -/
lemma queue_foldl_record (rs : List Recv) (Q : WrQueue) {i : ℕ}
    (hi : ∀ k < rs.length, i ≠ (Q.head.toNat + k) % 65536) :
    (rs.foldl WrQueue.record Q).queue i = Q.queue i := by
  induction rs generalizing Q with
  | nil => rfl
  | cons r rs ih =>
      have hhead : (Q.record r).head.toNat = (Q.head.toNat + 1) % 65536 := toNat_advance Q.head
      have hfirst : i ≠ Q.head.toNat := by
        have h0 := hi 0 (by simp)
        rwa [Nat.add_zero, Nat.mod_eq_of_lt Q.head.toNat_lt] at h0
      rw [List.foldl_cons, ih (Q.record r) fun k hk => ?_]
      · exact Function.update_of_ne hfirst _ _
      · have hnext := hi (k + 1) (by simpa using hk)
        rw [hhead, Nat.mod_add_mod, Nat.add_assoc, Nat.add_comm 1 k]
        exact hnext

/-- **The slot of each receive** after a call. Kind: L -/
lemma slot_foldl_record (rs : List Recv) (Q : WrQueue) (hlen : rs.length ≤ 65536) {k : ℕ}
    (hk : k < rs.length) :
    let slot := (rs.foldl WrQueue.record Q).queue ((Q.head.toNat + k) % 65536)
    slot.sgeNum = rs[k].records.length ∧
      (rs[k].records ≠ [] → slot.sgeQueue.records = rs[k].records) := by
  induction rs generalizing Q k with
  | nil => simp at hk
  | cons r rs ih =>
      rw [List.length_cons] at hlen hk
      have hhead : (Q.record r).head.toNat = (Q.head.toNat + 1) % 65536 := toNat_advance Q.head
      have hlt := Q.head.toNat_lt
      rw [List.foldl_cons]
      cases k with
      | zero =>
          rw [queue_foldl_record rs (Q.record r) fun k hk => by rw [hhead]; omega, Nat.add_zero,
            Nat.mod_eq_of_lt hlt, List.getElem_cons_zero]
          refine ⟨by simp [WrQueue.record], fun hne => ?_⟩
          simp [WrQueue.record, hne]
      | succ k =>
          have hrest := ih (Q.record r) (by omega) (k := k) (by omega)
          rw [hhead, Nat.mod_add_mod, Nat.add_assoc, Nat.add_comm 1 k] at hrest
          exact hrest

/-- The receives of a call have the records of its list. Kind: L -/
lemma records_recvsOf (map : UInt32 → Option MrShm) (place : Place) (n : ℕ)
    (ws : List RecvWr) :
    (recvsOf map place n ws).map Recv.records = ws.map fun w => w.sgList.map (noteOf map) := by
  induction ws generalizing n with
  | nil => rfl
  | cons w ws ih => simp [recvsOf, ih]

/-! ## The machine of the receive ring -/

/-- A ring does not note where a receive was posted. Kind: L -/
lemma foldl_record_recvsOf (map : UInt32 → Option MrShm) (place place' : Place) (n : ℕ)
    (ws : List RecvWr) (Q : WrQueue) :
    (recvsOf map place n ws).foldl WrQueue.record Q =
      (recvsOf map place' n ws).foldl WrQueue.record Q := by
  induction ws generalizing n Q with
  | nil => rfl
  | cons w ws ih => exact ih (n + 1) _

/-- **The machine's posts are the calls**: whatever part of the list the HCA accepts, a post moves
the ring of the machine as the call on the request area moves the client's.
Source: `cmd.c` `ibv_cmd_post_recv`, `ibv_cmd_post_srq_recv`
Kind: P -/
theorem rings_of_step (c : Lib) (qps : List QpAttr) (s s' : System) (handle : UInt32)
    (ptr : ℕ → UInt64) (ws : List RecvWr) (k : ℕ) (m : Mem)
    (hkeys : ∀ w ∈ ws, ∀ e ∈ w.sgList, (c.mapLkeyToMrShm e.lkey).isSome)
    (hfit : recvEncodedSize ws ≤ ctrlReqSize) :
    (∀ q, step ⟨qps, c.mapLkeyToMrShm⟩ s (.postRecv q ws k) = some s' →
      ∃ m', ibvCmdPostRecv c handle ptr s.posts ws m s.cqRing = some (m', s'.cqRing) ∧
        RecvArea c handle ws m') ∧
    ∀ i, step ⟨qps, c.mapLkeyToMrShm⟩ s (.postSrqRecv i ws k) = some s' →
      ∃ m', ibvCmdPostSrqRecv c handle ptr s.posts ws m (s.srqRing i) = some (m', s'.srqRing i) ∧
        RecvArea c handle ws m' := by
  refine ⟨fun q hstep => ?_, fun i hstep => ?_⟩
  · obtain ⟨-, rs, hrs, rfl⟩ := step_postRecv_iff.mp hstep
    obtain rfl := Option.some.inj ((toRecvs_eq _ _ _ _ hkeys).symm.trans hrs)
    rw [foldl_record_recvsOf _ (.qp q) (.qp handle.toNat)]
    exact postRecvs_requestArea c _ handle _ ptr s.posts ws m s.cqRing hkeys hfit
  · obtain ⟨-, rs, hrs, rfl⟩ := step_postSrqRecv_iff.mp hstep
    obtain rfl := Option.some.inj ((toRecvs_eq _ _ _ _ hkeys).symm.trans hrs)
    simp only [Function.update_self]
    rw [foldl_record_recvsOf _ (.srq i) (.srq handle.toNat)]
    exact postRecvs_requestArea c _ handle _ ptr s.posts ws m (s.srqRing i) hkeys hfit

end FreeFlow.Client
