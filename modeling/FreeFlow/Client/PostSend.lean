import FreeFlow.Verbs.Layout

/-!
# `ibv_cmd_post_send`: the client's encoder

A client thread flattens the application's list of work requests into the request area of the
QP's control channel: the request header, `struct ibv_post_send`, the array of `ibv_send_wr`, the
array of all their `ibv_sge` and, for a UD QP, one address-handle word per request. Every
element's address becomes its offset in the memory region, and the data of an element that does
not already lie in the region's shared memory is copied there.

* `ibvCmdPostSend` — the encoder, on the bytes of the request area.
* `Encoded` — what the three arrays hold, request by request: the abstract content of a request
  area, which the router's two decoders start from.
* `ibvCmdPostSend_requestArea` — the encoder establishes it, whatever the area held before.

Source: `libraries/libibverbs-1.2.1mlnx1/src/cmd.c` `ibv_cmd_post_send`.
-/

namespace FreeFlow.Client

open FreeFlow.Found FreeFlow.Verbs

/-! ## The encoder -/

/-- `struct mr_shm`: the application's base address of a region and the client's mapping of its
shared memory.
Source: `freeflow.h`
Kind: D -/
structure MrShm where
  mr : UInt64
  shmPtr : UInt64
  deriving DecidableEq, Repr

/-- A `memcpy(dst, src, len)` between the application's memory and the shared memory of a
region. Kind: D -/
structure Copy where
  dst : UInt64
  src : UInt64
  len : UInt32
  deriving DecidableEq, Repr

/-- The client library's state that the post calls read: `ffr_client_id` and
`map_lkey_to_mrshm`, where an absent key is the null pointer `mempool_get` returns.
Source: `freeflow.h`
Kind: D -/
structure Lib where
  clientId : UInt32
  mapLkeyToMrShm : UInt32 → Option MrShm

/-- A QP of the application. Source: `verbs.h` `struct ibv_qp`. Kind: D -/
structure Qp where
  handle : UInt32
  qpType : QpType
  deriving DecidableEq, Repr

/-- The body of the loop over `j`: copy the data unless it already lies at its place in the
shared memory, and replace the address by the offset. A key without a region dereferences the
null pointer (`none`).
Source: `cmd.c` `ibv_cmd_post_send`
Kind: D -/
def toOffset (map : UInt32 → Option MrShm) (cs : List Copy) (e : Sge) :
    Option (List Copy × UInt64) := do
  let p ← map e.lkey
  let dst := p.shmPtr + (e.addr - p.mr)
  some (if dst ≠ e.addr then cs ++ [⟨dst, e.addr, e.length⟩] else cs, e.addr - p.mr)

/-- The loop over the requests: `tmp`, `s` and `ah` are the cursors into the three arrays.
Source: `cmd.c` `ibv_cmd_post_send` (`for (i = wr; i; i = i->next)`, second loop)
Kind: D -/
def encodeWrs (map : UInt32 → Option MrShm) (ud : Bool) :
    List SendWr → (tmp s ah : ℕ) → Mem → List Copy → Option (Mem × List Copy)
  | [], _, _, _, m, cs => some (m, cs)
  | i :: is, tmp, s, ah, m, cs =>
      let m := m.write tmp (i.block.read 0 sizeofSendWr)
      let (m, ah) := if ud then (m.setU32 ah i.ahHandle, ah + 4) else (m, ah)
      let n := m.u32 (tmp + 24)
      if n ≠ 0 then do
        let m := m.write s (sgesBytes i.sgList)
        let (cs, m) ← patchAddrs (toOffset map) cs m s n.toNat
        encodeWrs map ud is (tmp + sizeofSendWr) (s + sizeofSge * n.toNat) ah m cs
      else
        encodeWrs map ud is (tmp + sizeofSendWr) s ah m cs

/-- The number of elements of all requests (`sge_count`, before it is stored in 32 bits).
Kind: D -/
def sgeTotal (ws : List SendWr) : ℕ := (ws.map fun w => w.sgList.length).sum

/-- Offset of the `ibv_send_wr` array in the request area: behind the request header and
`struct ibv_post_send`. Kind: D -/
def wrOff : ℕ := sizeofRequestHeader + sizeofPostSend

/-- Offset of the `ibv_sge` array behind `n` requests. Kind: D -/
def sgeOff (n : ℕ) : ℕ := wrOff + sizeofSendWr * n

/-- Offset of the address-handle words behind `n` requests with `k` elements. Kind: D -/
def ahOff (n k : ℕ) : ℕ := sgeOff n + sizeofSge * k

/-- The words of the request header and of `struct ibv_post_send` that the post calls store.
Source: `cmd.c` `ibv_cmd_post_send` (the other two post calls store the same words)
Kind: D -/
def putHeader (m : Mem) (clientId func bodySize handle wrCount sgeCount : UInt32) : Mem :=
  let m := m.setU32 0 clientId
  let m := m.setU32 4 func
  let m := m.setU32 8 bodySize
  let m := m.setU32 28 handle
  let m := m.setU32 32 wrCount
  m.setU32 36 sgeCount

/-- **`ibv_cmd_post_send`** up to the point where the request is handed over: the request area
`m` is overwritten with the encoding of `ws`.
Source: `cmd.c` `ibv_cmd_post_send`
Kind: D -/
def ibvCmdPostSend (c : Lib) (qp : Qp) (ws : List SendWr) (m : Mem) : Option (Mem × List Copy) :=
  let ud : Bool := qp.qpType = .ud
  let wrCount := UInt32.ofNat ws.length
  let sgeCount := UInt32.ofNat (sgeTotal ws)
  let ahCount : ℕ := if ud then wrCount.toNat else 0
  let bodySize := UInt32.ofNat (sizeofPostSend + wrCount.toNat * sizeofSendWr +
    sgeCount.toNat * sizeofSge + ahCount * 4)
  let m := putHeader m c.clientId RdmaFunctionCall.ibvPostSend.code bodySize qp.handle wrCount
    sgeCount
  encodeWrs c.mapLkeyToMrShm ud ws wrOff (sgeOff wrCount.toNat)
    (ahOff wrCount.toNat sgeCount.toNat) m []

/-- The bytes an encoding takes: header, command, requests, elements and address handles.
Kind: D -/
def encodedSize (qp : Qp) (ws : List SendWr) : ℕ :=
  ahOff ws.length (sgeTotal ws) + (if qp.qpType = .ud then 4 * ws.length else 0)

/-! ## What the arrays hold -/

/-- An element with its address replaced by the offset in its region. Kind: D -/
def offsetSge (map : UInt32 → Option MrShm) (e : Sge) : Sge :=
  { e with addr := e.addr - ((map e.lkey).map MrShm.mr).getD 0 }

/-- An address is the base of its region and the offset there. Kind: L -/
lemma addr_add_offset (a b : UInt64) : a + (b - a) = b := by
  rw [UInt64.add_comm, UInt64.sub_add_cancel]

/-- The copy that the loop makes for an element, if its data does not already lie in the shared
memory. Kind: D -/
def copyOf (map : UInt32 → Option MrShm) (e : Sge) : Option Copy :=
  (map e.lkey).bind fun p =>
    if p.shmPtr + (e.addr - p.mr) ≠ e.addr then
      some ⟨p.shmPtr + (e.addr - p.mr), e.addr, e.length⟩
    else none

/-- The copies for the elements of all requests, in order. Kind: D -/
def copiesOf (map : UInt32 → Option MrShm) (ws : List SendWr) : List Copy :=
  ws.flatMap fun w => w.sgList.filterMap (copyOf map)

/-- The three arrays at `p`, `s` and `a` hold the requests `ws`: each its own block, its own
elements as offsets and, for a UD QP, its own address handle. Kind: D -/
def Encoded (map : UInt32 → Option MrShm) (ud : Bool) (m : Mem) :
    List SendWr → (p s a : ℕ) → Prop
  | [], _, _, _ => True
  | w :: ws, p, s, a =>
      m.read p sizeofSendWr = w.block.read 0 sizeofSendWr ∧
      sgesAt m s w.sgList.length = w.sgList.map (offsetSge map) ∧
      (ud = true → m.u32 a = w.ahHandle) ∧
      Encoded map ud m ws (p + sizeofSendWr) (s + sizeofSge * w.sgList.length) (a + 4)

/-- The addresses outside the arrays of `n` requests with `k` elements. Kind: D -/
def Outside (ud : Bool) (n k p s a x : ℕ) : Prop :=
  (x < p ∨ p + sizeofSendWr * n ≤ x) ∧ (x < s ∨ s + sizeofSge * k ≤ x) ∧
    (ud = true → x < a ∨ a + 4 * n ≤ x)

/-- Outside the arrays of a list is outside those of its first request and those of the rest.
Kind: L -/
lemma Outside.split {ud : Bool} {n k l p s a x : ℕ} (h : Outside ud (n + 1) (k + l) p s a x) :
    Outside ud 1 k p s a x ∧ Outside ud n l (p + sizeofSendWr) (s + sizeofSge * k)
      (if ud then a + 4 else a) x := by
  obtain ⟨hx, hxs, hxa⟩ := h
  rw [Nat.mul_add_one] at hx hxa
  rw [Nat.mul_add] at hxs
  refine ⟨⟨by omega, by omega, fun hud => ?_⟩, by omega, by omega, fun hud => ?_⟩
  · have hxa' := hxa hud
    omega
  · have hxa' := hxa hud
    rw [if_pos hud]
    omega

/-- The block, the elements and the address handle of the first request are outside the arrays of
the rest. Kind: L -/
lemma outside_rest {ud : Bool} {n k l p s a x : ℕ} (hps : p + sizeofSendWr * (n + 1) ≤ s)
    (hsa : s + sizeofSge * (k + l) ≤ a)
    (hx : x < p + sizeofSendWr ∨ (s ≤ x ∧ x < s + sizeofSge * k) ∨
      (ud = true ∧ a ≤ x ∧ x < a + 4)) :
    Outside ud n l (p + sizeofSendWr) (s + sizeofSge * k) (if ud then a + 4 else a) x := by
  rw [Nat.mul_add_one] at hps
  rw [Nat.mul_add] at hsa
  refine ⟨by omega, by omega, fun hud => ?_⟩
  rw [if_pos hud]
  omega

/-- One element whose key has a region: its copy, if any, joins the others. Kind: L -/
lemma toOffset_eq {map : UInt32 → Option MrShm} {e : Sge} {p : MrShm} (hp : map e.lkey = some p)
    (cs : List Copy) :
    toOffset map cs e = some (cs ++ (copyOf map e).toList, e.addr - p.mr) := by
  unfold toOffset copyOf
  rw [hp]
  by_cases hdst : p.shmPtr + (e.addr - p.mr) = e.addr
  · simp [hdst]
  · simp [hdst]

/-- The elements of a list whose keys all have a region are translated and copied one by one.
Kind: L -/
lemma patchList_toOffset (map : UInt32 → Option MrShm) (cs : List Copy) (es : List Sge)
    (h : ∀ e ∈ es, (map e.lkey).isSome) :
    patchList (toOffset map) cs es =
      some (cs ++ es.filterMap (copyOf map), es.map (offsetSge map)) := by
  induction es generalizing cs with
  | nil => simp [patchList]
  | cons e es ih =>
      obtain ⟨p, hp⟩ := Option.isSome_iff_exists.mp (h e (by simp))
      have htail : ∀ e' ∈ es, (map e'.lkey).isSome := fun e' he' => h e' (by simp [he'])
      have hcopies : (copyOf map e).toList ++ es.filterMap (copyOf map) =
          (e :: es).filterMap (copyOf map) := by
        rw [List.filterMap_cons]
        rcases copyOf map e with _ | c <;> rfl
      simp [patchList, toOffset_eq hp, ih _ htail, offsetSge, hp, hcopies]

/-- The number of elements of a list splits at its head. Kind: L -/
@[simp] lemma sgeTotal_cons (w : SendWr) (ws : List SendWr) :
    sgeTotal (w :: ws) = w.sgList.length + sgeTotal ws := by
  simp [sgeTotal]

/-- The copies for a list split at its head. Kind: L -/
lemma copiesOf_cons (map : UInt32 → Option MrShm) (w : SendWr) (ws : List SendWr) :
    copiesOf map (w :: ws) = w.sgList.filterMap (copyOf map) ++ copiesOf map ws :=
  List.flatMap_cons

/-- After the block and the address handle of a request are stored: both stand at their cursors
and nothing else has changed. Kind: L -/
lemma store_block_ah (ud : Bool) (w : SendWr) {p a : ℕ} (hpa : p + sizeofSendWr ≤ a) (m : Mem) :
    ∃ m₁, (if ud then ((m.write p (w.block.read 0 sizeofSendWr)).setU32 a w.ahHandle, a + 4)
        else (m.write p (w.block.read 0 sizeofSendWr), a)) = (m₁, if ud then a + 4 else a) ∧
      m₁.read p sizeofSendWr = w.block.read 0 sizeofSendWr ∧ (ud = true → m₁.u32 a = w.ahHandle) ∧
      ∀ x, (x < p ∨ p + sizeofSendWr ≤ x) → (ud = true → x < a ∨ a + 4 ≤ x) → m₁ x = m x := by
  have hsame : (m.write p (w.block.read 0 sizeofSendWr)).read p sizeofSendWr =
      w.block.read 0 sizeofSendWr := by
    have h := Mem.read_write_same m p (w.block.read 0 sizeofSendWr)
    rwa [Mem.length_read] at h
  have hout : ∀ x, (x < p ∨ p + sizeofSendWr ≤ x) →
      m.write p (w.block.read 0 sizeofSendWr) x = m x := fun x hx =>
    Mem.write_apply_of_outside (by rwa [Mem.length_read])
  cases ud with
  | false => exact ⟨_, rfl, hsame, by simp, fun x hx _ => hout x hx⟩
  | true =>
      refine ⟨_, rfl, ?_, fun _ => Mem.u32_setU32 _ _ _, fun x hx hxa => ?_⟩
      · rw [Mem.read_setU32_disjoint (Or.inl hpa), hsame]
      · rw [Mem.setU32_apply_of_outside (hxa rfl), hout x hx]

/-- One turn of the encoding loop: block, address handle and elements of the request stand at
the cursors, and nothing else has changed. Kind: L -/
lemma encodeWr_step {map : UInt32 → Option MrShm} (ud : Bool) {w : SendWr}
    (hkeys : ∀ e ∈ w.sgList, (map e.lkey).isSome) {p s a : ℕ} (hps : p + sizeofSendWr ≤ s)
    (hsa : s + sizeofSge * w.sgList.length ≤ a) (ws : List SendWr) (m : Mem) (cs : List Copy) :
    ∃ m',
      encodeWrs map ud (w :: ws) p s a m cs = encodeWrs map ud ws (p + sizeofSendWr)
        (s + sizeofSge * w.sgList.length) (if ud then a + 4 else a) m'
        (cs ++ w.sgList.filterMap (copyOf map)) ∧
      m'.read p sizeofSendWr = w.block.read 0 sizeofSendWr ∧
      sgesAt m' s w.sgList.length = w.sgList.map (offsetSge map) ∧
      (ud = true → m'.u32 a = w.ahHandle) ∧
      ∀ x, Outside ud 1 w.sgList.length p s a x → m' x = m x := by
  obtain ⟨m₁, hm₁, hblock, hah, hout⟩ := store_block_ah ud w (p := p) (a := a) (by omega) m
  have hnum : m₁.u32 (p + 24) = w.block.u32 24 :=
    Mem.u32_congr (Mem.read_slice hblock (by decide))
  rw [encodeWrs]
  simp only [hm₁, hnum]
  by_cases hzero : w.block.u32 24 = 0
  · -- no elements: the cursor `s` stays
    have hlen : w.sgList.length = 0 := by rw [← w.numSge_eq, hzero]; rfl
    have hnil : w.sgList = [] := List.length_eq_zero_iff.mp hlen
    refine ⟨m₁, ?_, hblock, ?_, hah, ?_⟩
    · simp [hzero, hnil]
    · simp [hnil, sgesAt]
    · rintro x ⟨hx, -, hxa⟩
      exact hout x (by simpa using hx) (by simpa using hxa)
  · have hlen : (sgesBytes w.sgList).length = sizeofSge * w.sgList.length := length_sgesBytes _
    have hread : sgesAt (m₁.write s (sgesBytes w.sgList)) s w.sgList.length = w.sgList := by
      apply sgesAt_eq_of_read
      rw [← hlen]
      exact Mem.read_write_same _ _ _
    have hpatch := patchAddrs_spec (toOffset map) cs (m₁.write s (sgesBytes w.sgList)) s
      w.sgList.length
    rw [hread, patchList_toOffset map cs w.sgList hkeys] at hpatch
    obtain ⟨m₂, hrun, hsges, hkeep⟩ := hpatch
    -- the two stores of the element array touch nothing outside it
    have hm₂ : ∀ x, x < s ∨ s + sizeofSge * w.sgList.length ≤ x → m₂ x = m₁ x := fun x hx => by
      rw [hkeep x hx, Mem.write_apply_of_outside (by rwa [hlen])]
    refine ⟨m₂, ?_, ?_, hsges, ?_, ?_⟩
    · simp [hzero, w.numSge_eq, hrun]
    · rw [← hblock]
      exact Mem.read_congr fun x _ hx => hm₂ x (by omega)
    · intro hud
      rw [← hah hud]
      exact Mem.u32_congr (Mem.read_congr fun x hx _ => hm₂ x (by omega))
    · rintro x ⟨hx, hxs, hxa⟩
      rw [hm₂ x hxs, hout x (by simpa using hx) (by simpa using hxa)]

/-- Without address handles their cursor does not matter. Kind: L -/
lemma Encoded.of_not_ud {map : UInt32 → Option MrShm} {m : Mem} {ws : List SendWr} {p s a : ℕ}
    (h : Encoded map false m ws p s a) (b : ℕ) : Encoded map false m ws p s b := by
  induction ws generalizing p s a b with
  | nil => trivial
  | cons w ws ih =>
      obtain ⟨hblock, hsges, -, hrest⟩ := h
      exact ⟨hblock, hsges, by simp, ih hrest _⟩

/-- **The encoding loop**: when every key has a region and the arrays do not overlap, the loop
ends with one copy for each element that needs it, the arrays hold the requests, and nothing outside
them has changed.
Source: `cmd.c` `ibv_cmd_post_send`
Kind: P -/
lemma encodeWrs_encoded {map : UInt32 → Option MrShm} (ud : Bool) (ws : List SendWr)
    (hkeys : ∀ w ∈ ws, ∀ e ∈ w.sgList, (map e.lkey).isSome) {p s a : ℕ}
    (hps : p + sizeofSendWr * ws.length ≤ s) (hsa : s + sizeofSge * sgeTotal ws ≤ a) (m : Mem)
    (cs : List Copy) :
    ∃ m', encodeWrs map ud ws p s a m cs = some (m', cs ++ copiesOf map ws) ∧
      Encoded map ud m' ws p s a ∧
      ∀ x, Outside ud ws.length (sgeTotal ws) p s a x → m' x = m x := by
  induction ws generalizing p s a m cs with
  | nil => exact ⟨m, by simp [encodeWrs, copiesOf], trivial, fun _ _ => rfl⟩
  | cons w ws ih =>
      rw [List.length_cons] at hps
      rw [sgeTotal_cons] at hsa
      have hps₁ := hps
      rw [Nat.mul_add_one] at hps₁
      have hsa₁ := hsa
      rw [Nat.mul_add] at hsa₁
      obtain ⟨m₁, hstep, hblock, hsges, hah, hout⟩ :=
        encodeWr_step ud (hkeys w (by simp)) (p := p) (s := s) (a := a) (by omega) (by omega) ws m
          cs
      obtain ⟨m', hrun, henc, hkeep⟩ :=
        ih (fun w' hw' => hkeys w' (by simp [hw'])) (p := p + sizeofSendWr)
          (s := s + sizeofSge * w.sgList.length) (a := if ud then a + 4 else a) (by omega)
          (by split <;> omega) m₁ (cs ++ w.sgList.filterMap (copyOf map))
      rw [List.append_assoc, ← copiesOf_cons] at hrun
      refine ⟨m', hstep.trans hrun, ⟨?_, ?_, ?_, ?_⟩, ?_⟩
      · rw [← hblock]
        exact Mem.read_congr fun x _ hx => hkeep x (outside_rest hps hsa (Or.inl hx))
      · rw [← hsges]
        exact sgesAt_congr (Mem.read_congr fun x hx hx' =>
          hkeep x (outside_rest hps hsa (Or.inr (Or.inl ⟨hx, hx'⟩))))
      · intro hud
        rw [← hah hud]
        exact Mem.u32_congr (Mem.read_congr fun x hx hx' =>
          hkeep x (outside_rest hps hsa (Or.inr (Or.inr ⟨hud, hx, hx'⟩))))
      · cases ud with
        | false => exact henc.of_not_ud _
        | true => exact henc
      · intro x hx
        rw [List.length_cons, sgeTotal_cons] at hx
        obtain ⟨hone, hrest⟩ := hx.split
        rw [hkeep x hrest, hout x hone]

/-! ## The request area after the encoder -/

/-- The header words read back, and the rest of the area is untouched. Kind: L -/
lemma putHeader_words (m : Mem) (clientId func bodySize handle wrCount sgeCount : UInt32) :
    let m' := putHeader m clientId func bodySize handle wrCount sgeCount
    (m'.u32 0 = clientId ∧ m'.u32 4 = func ∧ m'.u32 8 = bodySize ∧ m'.u32 28 = handle ∧
      m'.u32 32 = wrCount ∧ m'.u32 36 = sgeCount) ∧ ∀ x, wrOff ≤ x → m' x = m x := by
  refine ⟨?_, fun x hx => ?_⟩
  · simp (disch := omega) [putHeader, Mem.u32_setU32_disjoint]
  · have hx : 44 ≤ x := hx
    simp (disch := omega) only [putHeader, Mem.setU32_apply_of_outside]

/-- The header words and the arrays that `ibv_cmd_post_send` leaves in the request area.
Kind: D -/
structure RequestArea (c : Lib) (qp : Qp) (ws : List SendWr) (m : Mem) : Prop where
  clientId : m.u32 0 = c.clientId
  func : m.u32 4 = RdmaFunctionCall.ibvPostSend.code
  bodySize : (m.u32 8).toNat + sizeofRequestHeader = encodedSize qp ws
  qpHandle : m.u32 28 = qp.handle
  wrCount : (m.u32 32).toNat = ws.length
  sgeCount : (m.u32 36).toNat = sgeTotal ws
  encoded : Encoded c.mapLkeyToMrShm (decide (qp.qpType = .ud)) m ws wrOff (sgeOff ws.length)
    (ahOff ws.length (sgeTotal ws))

/-- The counts of an encoding that fits the channel fit 32 bits, so the encoder's cursors are
the offsets of the three arrays. Kind: L -/
lemma ibvCmdPostSend_eq (c : Lib) (qp : Qp) (ws : List SendWr) (m : Mem)
    (hfit : encodedSize qp ws ≤ ctrlReqSize) :
    (UInt32.ofNat ws.length).toNat = ws.length ∧
    (UInt32.ofNat (sgeTotal ws)).toNat = sgeTotal ws ∧
    ibvCmdPostSend c qp ws m = encodeWrs c.mapLkeyToMrShm (decide (qp.qpType = .ud)) ws wrOff
      (sgeOff ws.length) (ahOff ws.length (sgeTotal ws))
      (putHeader m c.clientId RdmaFunctionCall.ibvPostSend.code
        (UInt32.ofNat (encodedSize qp ws - sizeofRequestHeader)) qp.handle
        (UInt32.ofNat ws.length) (UInt32.ofNat (sgeTotal ws))) [] := by
  have hah : ahOff ws.length (sgeTotal ws) = 44 + 128 * ws.length + 16 * sgeTotal ws := by
    simp [ahOff, sgeOff, wrOff, sizeofRequestHeader, sizeofPostSend, sizeofSendWr, sizeofSge]
  have hsize : 44 + 128 * ws.length + 16 * sgeTotal ws ≤ 1048576 := by
    have h : ahOff ws.length (sgeTotal ws) ≤ encodedSize qp ws := Nat.le_add_right _ _
    rw [hah] at h
    exact h.trans hfit
  have hwrCount : (UInt32.ofNat ws.length).toNat = ws.length :=
    UInt32.toNat_ofNat_of_lt' (by rw [UInt32.size]; omega)
  have hsgeCount : (UInt32.ofNat (sgeTotal ws)).toNat = sgeTotal ws :=
    UInt32.toNat_ofNat_of_lt' (by rw [UInt32.size]; omega)
  have hbody : sizeofPostSend + ws.length * sizeofSendWr + sgeTotal ws * sizeofSge +
      (if qp.qpType = .ud then ws.length else 0) * 4 =
        encodedSize qp ws - sizeofRequestHeader := by
    rw [encodedSize, hah, sizeofPostSend, sizeofSendWr, sizeofSge, sizeofRequestHeader]
    split <;> omega
  refine ⟨hwrCount, hsgeCount, ?_⟩
  simp only [ibvCmdPostSend, hwrCount, hsgeCount, decide_eq_true_eq, hbody]

/-- **The encoder establishes the request area**: for every list whose keys all have a region
and whose encoding fits the channel, whatever the area held before; it writes nothing behind the
channel's request area.
Source: `cmd.c` `ibv_cmd_post_send`
Kind: P -/
theorem ibvCmdPostSend_requestArea (c : Lib) (qp : Qp) (ws : List SendWr) (m : Mem)
    (hkeys : ∀ w ∈ ws, ∀ e ∈ w.sgList, (c.mapLkeyToMrShm e.lkey).isSome)
    (hfit : encodedSize qp ws ≤ ctrlReqSize) :
    ∃ m', ibvCmdPostSend c qp ws m = some (m', copiesOf c.mapLkeyToMrShm ws) ∧
      RequestArea c qp ws m' ∧ ∀ x, ctrlReqSize ≤ x → m' x = m x := by
  obtain ⟨hwrCount, hsgeCount, heq⟩ := ibvCmdPostSend_eq c qp ws m hfit
  obtain ⟨⟨hclient, hfunc, hbody, hhandle, hwrs, hsges⟩, hrest⟩ := putHeader_words m c.clientId
    RdmaFunctionCall.ibvPostSend.code (UInt32.ofNat (encodedSize qp ws - sizeofRequestHeader))
    qp.handle (UInt32.ofNat ws.length) (UInt32.ofNat (sgeTotal ws))
  rw [heq]
  generalize putHeader m c.clientId _ _ _ _ _ = m₀ at *
  obtain ⟨m', hrun, henc, hout⟩ := encodeWrs_encoded (decide (qp.qpType = .ud)) ws hkeys
    (p := wrOff) (s := sgeOff ws.length) (a := ahOff ws.length (sgeTotal ws)) le_rfl le_rfl m₀ []
  have hsge : wrOff ≤ sgeOff ws.length := Nat.le_add_right _ _
  have hah : sgeOff ws.length ≤ ahOff ws.length (sgeTotal ws) := Nat.le_add_right _ _
  -- the loop leaves the header words alone
  have hword : ∀ b, b + 4 ≤ wrOff → m'.u32 b = m₀.u32 b := fun b hb =>
    Mem.u32_congr (Mem.read_congr fun x _ hx =>
      hout x ⟨by omega, by omega, fun _ => by omega⟩)
  have hw : wrOff = 44 := rfl
  rw [List.nil_append] at hrun
  refine ⟨m', hrun, ⟨?_, ?_, ?_, ?_, ?_, ?_, henc⟩, fun x hx => ?_⟩
  · rw [hword 0 (by omega), hclient]
  · rw [hword 4 (by omega), hfunc]
  · have hlow : sizeofRequestHeader ≤ encodedSize qp ws := by
      rw [encodedSize, sizeofRequestHeader]
      omega
    have hhigh : encodedSize qp ws ≤ 1048576 := hfit
    rw [hword 8 (by omega), hbody, UInt32.toNat_ofNat_of_lt' (by rw [UInt32.size]; omega)]
    omega
  · rw [hword 28 (by omega), hhandle]
  · rw [hword 32 (by omega), hwrs, hwrCount]
  · rw [hword 36 (by omega), hsges, hsgeCount]
  · have hend : ∀ k, ahOff ws.length (sgeTotal ws) + k ≤ encodedSize qp ws →
        ahOff ws.length (sgeTotal ws) + k ≤ x := fun k hk => hk.trans (hfit.trans hx)
    have hx₀ := hend 0 (Nat.le_add_right _ _)
    rw [hout x ⟨?_, Or.inr hx₀, fun hud => Or.inr (hend _ ?_)⟩, hrest x (by omega)]
    · exact Or.inr (hah.trans hx₀)
    · rw [encodedSize, if_pos (by simpa using hud)]

end FreeFlow.Client
