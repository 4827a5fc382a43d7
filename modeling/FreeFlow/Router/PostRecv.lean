import FreeFlow.Router.PostSend

/-!
# The router's receive decoders

A list of receives reaches the router on the same two paths as a list of sends, for a QP or for an
SRQ, so the decoding loop is written four times. It links the requests, points `sg_list` at their
elements and turns every offset into an address. The copies are the same but for one branch: the
socket path for an SRQ does not clear `sg_list` of a request without elements.

* `decodeRecvs_spec` — the loop leaves the linked list of the translated requests.
* `postedRecvs_of_linked` — reading that list back gives it.
* `decodePostRecv_spec` — from the request body to the list handed over.

Source: `ffrouter.cpp` `CtrlChannelLoop` (`IBV_POST_RECV`, SRQ operations), `HandleRequest`
(`IBV_POST_RECV`, `IBV_POST_SRQ_RECV`).
-/

namespace FreeFlow.Router

open FreeFlow.Found FreeFlow.Verbs

/-! ## The decoding loop -/

section Decode

variable {size : ℕ} (B : Mapping size) (base : UInt32 → UInt64) (clear : Bool)

/-- The body of `for (int i = 0; i < post_recv->wr_count; i++)`: `base` is `lkey_ptr`, and `clear`
says whether `sg_list` of a request without elements is set to null. The result is the buffer and
the cursor `sge`.
Source: `ffrouter.cpp` `CtrlChannelLoop`, `HandleRequest` (the four receive cases)
Kind: D -/
def decodeRecv (wr wrCount i : ℕ) (m : Mem) (sge : ℕ) : Option (Mem × ℕ) :=
  let p := wr + sizeofRecvWr * i
  -- fix the link list pointer
  let m := m.setU64 (p + 8) (if wrCount - 1 ≤ i then 0 else B.ptr (p + sizeofRecvWr))
  let n := asInt (m.u32 (p + 24))
  if 0 < n then do
    -- fix the sg list pointer
    let m := m.setU64 (p + 16) (B.ptr sge)
    let (_, m) ← patchAddrs (fun (_ : Unit) e => some ((), base e.lkey + e.addr)) () m sge n.toNat
    some (m, sge + sizeofSge * n.toNat)
  else
    some (if clear then m.setU64 (p + 16) 0 else m, sge)

/-- The loop from index `i` with `k` requests to go. Kind: D -/
def decodeRecvs (wr wrCount : ℕ) : (k i : ℕ) → Mem → (sge : ℕ) → Option Mem
  | 0, _, m, _ => some m
  | k + 1, i, m, sge => do
      let (m, sge) ← decodeRecv B base clear wr wrCount i m sge
      decodeRecvs wr wrCount k (i + 1) m sge

/-! ## The list that reaches the HCA -/

/-- A receive as the verbs call sees it: its fields and the elements behind `sg_list`. Kind: D -/
structure PostedRecv where
  fields : RecvFields
  sgList : List Sge
  deriving DecidableEq, Repr

/-- Follow `next` from `wr` to the null pointer, at most `fuel` requests. Kind: D -/
def postedRecvs (m : Mem) : (fuel : ℕ) → (wr : UInt64) → Option (List PostedRecv)
  | fuel, wr =>
      if wr = 0 then some []
      else match fuel with
        | 0 => none
        | fuel + 1 => do
            let p := B.off wr
            let f := recvFieldsAt m p
            let es := sgesAt m (B.off (sgListAt m p)) f.numSge.toNat
            let rest ← postedRecvs m fuel (nextAt m p)
            some (⟨f, es⟩ :: rest)

/-- Memory holds the receives `out` as an array at `p` linked by `next`, with their elements as one
array at `s`. Kind: D -/
def LinkedRecvs (m : Mem) : List PostedRecv → (p s : ℕ) → Prop
  | [], _, _ => True
  | o :: out, p, s =>
      recvFieldsAt m p = o.fields ∧
      nextAt m p = (if out = [] then 0 else B.ptr (p + sizeofRecvWr)) ∧
      (o.sgList ≠ [] → sgListAt m p = B.ptr s) ∧
      sgesAt m s o.sgList.length = o.sgList ∧
      o.fields.numSge.toNat = o.sgList.length ∧
      LinkedRecvs m out (p + sizeofRecvWr) (s + sizeofSge * o.sgList.length)

/-- The number of elements of all receives. Kind: D -/
def recvElements (os : List PostedRecv) : ℕ := (os.map fun o => o.sgList.length).sum

/-- The number of elements splits at the head. Kind: L -/
@[simp] lemma recvElements_cons (o : PostedRecv) (os : List PostedRecv) :
    recvElements (o :: os) = o.sgList.length + recvElements os := by
  simp [recvElements]

/-- **Reading a linked list of receives back** gives the list. Kind: L -/
lemma postedRecvs_of_linked {m : Mem} {out : List PostedRecv} {p s : ℕ}
    (h : LinkedRecvs B m out p s) (hp : p + sizeofRecvWr * out.length ≤ size)
    (hs : s + sizeofSge * recvElements out ≤ size) (fuel : ℕ) (hfuel : out.length ≤ fuel) :
    postedRecvs B m fuel (if out = [] then 0 else B.ptr p) = some out := by
  induction out generalizing p s fuel with
  | nil => cases fuel <;> simp [postedRecvs]
  | cons o out ih =>
      obtain ⟨hf, hnext, hsg, hes, hnum, hrest⟩ := h
      obtain ⟨fuel, rfl⟩ : ∃ k, fuel = k + 1 := ⟨fuel - 1, by simp at hfuel; omega⟩
      have hpos : 0 < sizeofRecvWr := by decide
      rw [List.length_cons, Nat.mul_add_one] at hp
      rw [recvElements_cons, Nat.mul_add] at hs
      have hlt : p < size := by omega
      have htail := ih hrest (by omega) (by omega) fuel (by simpa using hfuel)
      rw [if_neg (by simp), postedRecvs, if_neg (B.ptr_ne_zero hlt)]
      simp only [B.off_ptr hlt, hf, hnext, htail, hnum, sgesAt_off B hsg hes (by omega)]
      rfl

/-- A linked list of receives lies in a linked array. Kind: L -/
lemma LinkedRecvs.chained {m : Mem} {out : List PostedRecv} {p s : ℕ}
    (h : LinkedRecvs B m out p s) : Chained B m sizeofRecvWr out.length p := by
  induction out generalizing p s with
  | nil => exact fun j hj => absurd hj (by simp)
  | cons o out ih =>
      obtain ⟨-, hnext, -, -, -, hrest⟩ := h
      refine Chained.cons (fun hpos => ?_) (ih hrest)
      rw [hnext, if_neg (List.length_pos_iff.mp hpos)]

/-! ## What the loop computes -/

/-- The arrays at `p` and `s` hold the receives `os`. Kind: D -/
def RecvArrays (m : Mem) : List PostedRecv → (p s : ℕ) → Prop
  | [], _, _ => True
  | o :: os, p, s =>
      recvFieldsAt m p = o.fields ∧ sgesAt m s o.sgList.length = o.sgList ∧
      o.fields.numSge.toNat = o.sgList.length ∧ o.sgList.length < 2 ^ 31 ∧
      RecvArrays m os (p + sizeofRecvWr) (s + sizeofSge * o.sgList.length)

/-- `RecvArrays` depends on the bytes of the two arrays only; they may lie `d` further in the other
memory. Kind: L -/
lemma RecvArrays.shift {m m' : Mem} {os : List PostedRecv} {p s : ℕ} (d : ℕ)
    (h : RecvArrays m os (d + p) (d + s))
    (hp : ∀ x, p ≤ x → x < p + sizeofRecvWr * os.length → m' x = m (d + x))
    (hs : ∀ x, s ≤ x → x < s + sizeofSge * recvElements os → m' x = m (d + x)) :
    RecvArrays m' os p s := by
  induction os generalizing p s with
  | nil => trivial
  | cons o os ih =>
      obtain ⟨hf, hes, hnum, hlt, hrest⟩ := h
      rw [Nat.add_assoc, Nat.add_assoc] at hrest
      rw [List.length_cons, Nat.mul_add_one] at hp
      rw [recvElements_cons, Nat.mul_add] at hs
      have hblock : m'.read p sizeofRecvWr = m.read (d + p) sizeofRecvWr := by
        refine Mem.read_congr_shift fun k hk => ?_
        rw [hp _ (by omega) (by omega), Nat.add_assoc]
      refine ⟨?_, ?_, hnum, hlt, ih hrest ?_ ?_⟩
      · rw [← hf]
        exact recvFieldsAt_of_block hblock
      · calc sgesAt m' s o.sgList.length = sgesAt m (d + s) o.sgList.length := by
              refine sgesAt_congr (Mem.read_congr_shift fun k hk => ?_)
              rw [hs _ (by omega) (by omega), Nat.add_assoc]
          _ = o.sgList := hes
      · exact fun x hx _ => hp x (by omega) (by omega)
      · exact fun x hx _ => hs x (by omega) (by omega)

/-- A receive with the router's addresses. Kind: D -/
def translateRecv (o : PostedRecv) : PostedRecv :=
  { o with sgList := o.sgList.map fun e => { e with addr := base e.lkey + e.addr } }

/-- What one turn leaves: the request at `p` is linked and translated, and nothing outside it and
its elements has changed. Kind: D -/
structure RecvDone (m m' : Mem) (p s : ℕ) (v : UInt64) (o : PostedRecv) : Prop where
  fields : recvFieldsAt m' p = o.fields
  next : nextAt m' p = v
  sgList : o.sgList ≠ [] → sgListAt m' p = B.ptr s
  sges : sgesAt m' s o.sgList.length = o.sgList
  frame : ∀ x, (x < p ∨ p + sizeofRecvWr ≤ x) → (x < s ∨ s + sizeofSge * o.sgList.length ≤ x) →
    m' x = m x

/-- A request without elements: the cursor stays. Kind: L -/
lemma recvDone_of_nil {m : Mem} {p s : ℕ} (v : UInt64) {o : PostedRecv}
    (hf : recvFieldsAt m p = o.fields) (hnil : o.sgList = []) :
    RecvDone B m (if clear then (m.setU64 (p + 8) v).setU64 (p + 16) 0 else m.setU64 (p + 8) v)
      p s v (translateRecv base o) := by
  have hnil' : (translateRecv base o).sgList = [] := by rw [translateRecv, hnil, List.map_nil]
  have hout : ∀ x, (x < p ∨ p + sizeofRecvWr ≤ x) → m.setU64 (p + 8) v x = m x := fun x hx =>
    Mem.setU64_apply_of_outside (by rw [sizeofRecvWr] at hx; omega)
  refine ⟨?_, ?_, fun hne => absurd hnil' hne, by rw [hnil']; rfl, fun x hx _ => ?_⟩
  · cases clear <;> simpa [translateRecv] using hf
  · cases clear <;> simp
  · rw [← hout x hx]
    cases clear with
    | false => rfl
    | true => exact Mem.setU64_apply_of_outside (by rw [sizeofRecvWr] at hx; omega)

/-- A request with elements, once these are translated. Kind: L -/
lemma recvDone_of_patched {m m' : Mem} {p s : ℕ} {v : UInt64} {o : PostedRecv}
    (hf : recvFieldsAt m p = o.fields) (hps : p + sizeofRecvWr ≤ s)
    (hsges : sgesAt m' s o.sgList.length = (translateRecv base o).sgList)
    (hkeep : ∀ x, x < s ∨ s + sizeofSge * o.sgList.length ≤ x →
      m' x = (m.setU64 (p + 8) v).setU64 (p + 16) (B.ptr s) x) :
    RecvDone B m m' p s v (translateRecv base o) := by
  have hlen : (translateRecv base o).sgList.length = o.sgList.length := List.length_map _
  have hblock : m'.read p sizeofRecvWr =
      ((m.setU64 (p + 8) v).setU64 (p + 16) (B.ptr s)).read p sizeofRecvWr :=
    Mem.read_congr fun x _ hx => hkeep x (by omega)
  obtain ⟨hnext, hsg⟩ := pointersAt_congr (by decide) hblock
  refine ⟨?_, ?_, fun _ => ?_, by rw [hlen, hsges], fun x hx hxs => ?_⟩
  · rw [recvFieldsAt_of_block hblock, recvFieldsAt_setSgList, recvFieldsAt_setNext, hf]
    rfl
  · rw [hnext, nextAt_setSgList, nextAt_setNext]
  · rw [hsg, sgListAt_setSgList]
  · rw [hlen] at hxs
    rw [sizeofRecvWr] at hx
    rw [hkeep x hxs, Mem.setU64_apply_of_outside (by omega),
      Mem.setU64_apply_of_outside (by omega)]

/-- **One turn of the loop.** Kind: L -/
lemma decodeRecv_spec (wr wrCount i : ℕ) (m : Mem) (sge : ℕ) {o : PostedRecv}
    (hf : recvFieldsAt m (wr + sizeofRecvWr * i) = o.fields)
    (hes : sgesAt m sge o.sgList.length = o.sgList)
    (hnum : o.fields.numSge.toNat = o.sgList.length) (hlt : o.sgList.length < 2 ^ 31)
    (hps : wr + sizeofRecvWr * i + sizeofRecvWr ≤ sge) :
    ∃ m', decodeRecv B base clear wr wrCount i m sge =
        some (m', sge + sizeofSge * o.sgList.length) ∧
      RecvDone B m m' (wr + sizeofRecvWr * i) sge
        (if wrCount - 1 ≤ i then 0 else B.ptr (wr + sizeofRecvWr * i + sizeofRecvWr))
        (translateRecv base o) := by
  rw [decodeRecv]
  generalize wr + sizeofRecvWr * i = p at *
  generalize (if wrCount - 1 ≤ i then 0 else B.ptr (p + sizeofRecvWr)) = v
  have hn : asInt ((m.setU64 (p + 8) v).u32 (p + 24)) = o.sgList.length := by
    have hword : (m.setU64 (p + 8) v).u32 (p + 24) = o.fields.numSge :=
      congrArg RecvFields.numSge ((recvFieldsAt_setNext m p v).trans hf)
    rw [hword, asInt_eq_toNat (by omega), hnum]
  simp only [hn]
  by_cases hnil : o.sgList = []
  · rw [if_neg (by simp [hnil])]
    exact ⟨_, by rw [hnil]; rfl, recvDone_of_nil B base clear v hf hnil⟩
  · have hpos : (0 : ℤ) < o.sgList.length := by
      have hpos := List.length_pos_iff.mpr hnil
      omega
    rw [if_pos hpos, Int.toNat_natCast]
    -- the elements lie behind the request, where the pointers are not
    have hread : sgesAt ((m.setU64 (p + 8) v).setU64 (p + 16) (B.ptr sge)) sge o.sgList.length =
        o.sgList := by
      rw [sizeofRecvWr] at hps
      rw [← hes, length_sgesAt]
      refine sgesAt_congr (Mem.read_congr fun x hx _ => ?_)
      rw [Mem.setU64_apply_of_outside (by omega), Mem.setU64_apply_of_outside (by omega)]
    have hpatch := patchAddrs_spec (fun (_ : Unit) e => some ((), base e.lkey + e.addr)) ()
      ((m.setU64 (p + 8) v).setU64 (p + 16) (B.ptr sge)) sge o.sgList.length
    rw [hread, patchList_pure] at hpatch
    obtain ⟨m', hrun, hsges, hkeep⟩ := hpatch
    refine ⟨m', ?_, recvDone_of_patched B base hf hps hsges hkeep⟩
    simp only [hrun, Option.bind_eq_bind, Option.bind_some]

/-- A receive that a turn has left, and the linked rest behind it, make a linked list, as long as
the later turns keep the bytes of the request and of its elements. Kind: L -/
lemma RecvDone.linked {m m₁ m' : Mem} {p s : ℕ} {v : UInt64} {o : PostedRecv}
    {out : List PostedRecv} (h : RecvDone B m m₁ p s v o)
    (hblock : m'.read p sizeofRecvWr = m₁.read p sizeofRecvWr)
    (hsges : m'.read s (sizeofSge * o.sgList.length) = m₁.read s (sizeofSge * o.sgList.length))
    (hlast : v = if out = [] then 0 else B.ptr (p + sizeofRecvWr))
    (hnum : o.fields.numSge.toNat = o.sgList.length)
    (hout : LinkedRecvs B m' out (p + sizeofRecvWr) (s + sizeofSge * o.sgList.length)) :
    LinkedRecvs B m' (o :: out) p s := by
  obtain ⟨hnext, hsg⟩ := pointersAt_congr (by decide) hblock
  refine ⟨?_, ?_, fun hne => ?_, ?_, hnum, hout⟩
  · rw [recvFieldsAt_of_block hblock, h.fields]
  · rw [hnext, h.next, hlast]
  · rw [hsg, h.sgList hne]
  · rw [sgesAt_congr hsges, h.sges]

/-- **The decoding loop**: on arrays that hold `os` it ends and leaves the linked list of the
translated receives.
Source: `ffrouter.cpp` `CtrlChannelLoop`, `HandleRequest` (the four receive cases)
Kind: P -/
theorem decodeRecvs_spec (wr wrCount : ℕ) (os : List PostedRecv) (i : ℕ) (m : Mem) (sge : ℕ)
    (hcount : i + os.length = wrCount)
    (harr : RecvArrays m os (wr + sizeofRecvWr * i) sge)
    (hps : wr + sizeofRecvWr * wrCount ≤ sge) :
    ∃ m', decodeRecvs B base clear wr wrCount os.length i m sge = some m' ∧
      LinkedRecvs B m' (os.map (translateRecv base)) (wr + sizeofRecvWr * i) sge ∧
      ∀ x, (x < wr + sizeofRecvWr * i ∨ wr + sizeofRecvWr * wrCount ≤ x) →
        (x < sge ∨ sge + sizeofSge * recvElements os ≤ x) → m' x = m x := by
  induction os generalizing i m sge with
  | nil => exact ⟨m, rfl, trivial, fun _ _ _ => rfl⟩
  | cons o os ih =>
      obtain ⟨hf, hes, hnum, hlt, hrest⟩ := harr
      rw [List.length_cons] at hcount
      have hstride : sizeofRecvWr * wrCount = sizeofRecvWr * i + sizeofRecvWr +
          sizeofRecvWr * os.length := by
        rw [← hcount]
        ring
      have hnext : wr + sizeofRecvWr * (i + 1) = wr + sizeofRecvWr * i + sizeofRecvWr := by ring
      obtain ⟨m₁, hrun, hdone⟩ := decodeRecv_spec B base clear wr wrCount i m sge hf hes hnum hlt
        (by omega)
      have hlen : (translateRecv base o).sgList.length = o.sgList.length := List.length_map _
      have hframe := hdone.frame
      rw [hlen] at hframe
      -- the rest of the arrays is as before the turn
      have hrest' : RecvArrays m₁ os (wr + sizeofRecvWr * (i + 1))
          (sge + sizeofSge * o.sgList.length) := by
        rw [hnext]
        refine RecvArrays.shift 0 (by simpa using hrest) ?_ ?_
        · intro x hx hx'
          rw [Nat.zero_add]
          exact hframe x (by omega) (by omega)
        · intro x hx hx'
          rw [Nat.zero_add]
          exact hframe x (by omega) (by omega)
      obtain ⟨m', hloop, hlinked, hkeep⟩ := ih (i + 1) m₁ (sge + sizeofSge * o.sgList.length)
        (by omega) hrest' (by omega)
      rw [hnext] at hlinked hkeep
      refine ⟨m', ?_, ?_, fun x hx hxs => ?_⟩
      · rw [List.length_cons, decodeRecvs, hrun]
        exact hloop
      · -- the later turns leave this request and its elements alone
        apply hdone.linked
        · exact Mem.read_congr fun x _ hx => hkeep x (by omega) (by omega)
        · rw [hlen]
          exact Mem.read_congr fun x hx hx' => hkeep x (by omega) (by omega)
        · refine if_congr ?_ rfl rfl
          rw [List.map_eq_nil_iff, ← List.length_eq_zero_iff]
          omega
        · rw [hlen]
          exact hnum
        · rw [hlen]
          exact hlinked
      · rw [recvElements_cons, Nat.mul_add] at hxs
        rw [hkeep x (by omega) (by omega), hframe x (by omega) (by omega)]

end Decode

/-! ## The four paths -/

/-- An `ibv_srq` of the router's HCA context. Kind: D -/
structure Srq where
  object : ℕ
  deriving DecidableEq, Repr

/-- The call `ibv_post_recv(qp, wr, &bad_wr)` or `ibv_post_srq_recv(srq, wr, &bad_wr)`: the queue,
the pointer to the first request and the memory it points into. Kind: D -/
structure RecvCall (β : Type) where
  queue : β
  wr : UInt64
  mem : Mem

/-- `srq = ffr->srq_map[srq_handle]`, or the value `srq` had before when the handle is no index of
the table.
Source: `ffrouter.cpp` `CtrlChannelLoop`, `HandleRequest`
Kind: D -/
def resolveSrq (srqMap : ℕ → Option Srq) (stale : Option Srq) (handle : UInt32) : Option Srq :=
  if mapSize ≤ handle.toNat then stale else srqMap handle.toNat

/-- What all four paths do once the request body lies at offset `body` of the buffer `B`: place the
cursors, run the loop, call the verb. A null queue is dereferenced (`none`).
Source: `ffrouter.cpp` `CtrlChannelLoop`, `HandleRequest` (the four receive cases)
Kind: D -/
def decodePostRecv {β : Type} {size : ℕ} (B : Mapping size) (base : UInt32 → UInt64) (clear : Bool)
    (body : ℕ) (queue : Option β) (m : Mem) : Option (RecvCall β) := do
  let queue ← queue
  let wrCount := (m.u32 (body + 20)).toNat
  let wr := body + sizeofPostSend
  let sge := body + sizeofPostSend + wrCount * sizeofRecvWr
  let m ← decodeRecvs B base clear wr wrCount wrCount 0 m sge
  some ⟨queue, B.ptr wr, m⟩

/-- The service of an `IBV_POST_RECV` in `CtrlChannelLoop`. Source: `ffrouter.cpp`. Kind: D -/
def channelPostRecv (R : Tables) (stale : Option Qp) (B : Mapping ctrlReqSize) (m : Mem) :
    Option (RecvCall Qp) :=
  decodePostRecv B R.lkeyBase true sizeofRequestHeader
    (resolveQp R stale (m.u32 (sizeofRequestHeader + 16))) m

/-- The service of the SRQ channels in `CtrlChannelLoop`. Source: `ffrouter.cpp`. Kind: D -/
def channelPostSrqRecv (R : Tables) (srqMap : ℕ → Option Srq) (stale : Option Srq)
    (B : Mapping ctrlReqSize) (m : Mem) : Option (RecvCall Srq) :=
  decodePostRecv B R.lkeyBase true sizeofRequestHeader
    (resolveSrq srqMap stale (m.u32 (sizeofRequestHeader + 16))) m

/-- The service of an `IBV_POST_RECV` in `HandleRequest`. Source: `ffrouter.cpp`. Kind: D -/
def socketPostRecv (R : Tables) (B : Mapping reqBodySize) (m : Mem) : Option (RecvCall Qp) :=
  decodePostRecv B R.lkeyBase true 0 (resolveQp R none (m.u32 16)) m

/-- The service of an `IBV_POST_SRQ_RECV` in `HandleRequest`: it reads the request as a
`struct ibv_post_recv`, and leaves `sg_list` of a request without elements as it came.
Source: `ffrouter.cpp`
Kind: D -/
def socketPostSrqRecv (R : Tables) (srqMap : ℕ → Option Srq) (B : Mapping reqBodySize) (m : Mem) :
    Option (RecvCall Srq) :=
  decodePostRecv B R.lkeyBase false 0 (resolveSrq srqMap none (m.u32 16)) m

/-- **From the request body to the verbs call**: when the body holds the receives `os`, the call is
made on the resolved queue, memory holds the translated receives, linked from `wr` on, and following
`wr` gives them.
Source: `ffrouter.cpp` `CtrlChannelLoop`, `HandleRequest` (the four receive cases)
Kind: P -/
theorem decodePostRecv_spec {β : Type} {size : ℕ} (B : Mapping size) (base : UInt32 → UInt64)
    (clear : Bool) (body : ℕ) (queue : β) (m : Mem) (os : List PostedRecv) (hne : os ≠ [])
    (hwrs : (m.u32 (body + 20)).toNat = os.length)
    (harr : RecvArrays m os (body + sizeofPostSend)
      (body + sizeofPostSend + sizeofRecvWr * os.length))
    (hfit : body + sizeofPostSend + sizeofRecvWr * os.length + sizeofSge * recvElements os ≤ size) :
    ∃ m', decodePostRecv B base clear body (some queue) m =
        some ⟨queue, B.ptr (body + sizeofPostSend), m'⟩ ∧
      Chained B m' sizeofRecvWr os.length (body + sizeofPostSend) ∧
      ∀ fuel, os.length ≤ fuel → postedRecvs B m' fuel (B.ptr (body + sizeofPostSend)) =
        some (os.map (translateRecv base)) := by
  obtain ⟨m', hloop, hlinked, -⟩ := decodeRecvs_spec B base clear (body + sizeofPostSend) os.length
    os 0 m (body + sizeofPostSend + sizeofRecvWr * os.length) (by simp) (by simpa using harr) le_rfl
  rw [Nat.mul_zero, Nat.add_zero] at hlinked
  have helems : recvElements (os.map (translateRecv base)) = recvElements os := by
    simp [recvElements, translateRecv, Function.comp_def]
  refine ⟨m', ?_, ?_, fun fuel hfuel => ?_⟩
  · simp only [decodePostRecv, hwrs, Nat.mul_comm os.length, hloop, Option.bind_eq_bind,
      Option.bind_some]
  · have hchained := hlinked.chained
    rwa [List.length_map] at hchained
  · have hread := postedRecvs_of_linked B hlinked (by rw [List.length_map]; omega)
      (by rw [helems]; exact hfit) fuel (by simpa using hfuel)
    simpa [hne] using hread

/-! ## The response -/

/-- The response to a list of receives once the verb has returned `ret` and left `badWr`.
Source: `ffrouter.cpp` `CtrlChannelLoop`, `HandleRequest` (the four receive cases)
Kind: D -/
def postRecvRsp (wr : UInt64) (ret : ℤ) (badWr : UInt64) : PostRsp :=
  if badWr = 0 then ⟨ret, 0⟩ else ⟨ret, ptrDiff sizeofRecvWr badWr wr⟩

end FreeFlow.Router
