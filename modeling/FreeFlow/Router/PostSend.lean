import FreeFlow.Verbs.Layout

/-!
# The router's two post-send decoders

The router serves `IBV_POST_SEND` on two paths. `CtrlChannelLoop` finds the request in the shared
control channel of the QP; `HandleRequest` reads it from a socket into its own buffer. Both then
run a loop over the requests that rewrites the bytes in place: it translates the remote address
of a one-sided request, links the requests by `next`, points `sg_list` at the request's own part
of the element array, turns every element's offset into an address and, for a UD QP, stores the
address handle. The loop is written twice in the source; the copies differ in three places, which
are the parameters of `Decoder`:

* how an rkey is looked up (the channel path retries, up to five times for the whole request);
* what is done for each element before its address is translated (the socket path first waits
  for the QP's token bucket);
* how far the address-handle cursor advances (the socket path by one word, the channel path not
  at all).

`posted` reads back what `ibv_post_send` is given: it follows `next` from the first request to the
null pointer and takes each request's elements from where its `sg_list` points.

* `decodeLoop_spec` — the loop ends exactly when the decoder on lists does, and then memory holds
  the linked list of its result.
* `posted_of_linked` — reading that list back gives the result.

Source: `ffrouter.cpp` `CtrlChannelLoop` (`IBV_POST_SEND`), `HandleRequest` (`IBV_POST_SEND`).
-/

namespace FreeFlow.Router

open FreeFlow.Found FreeFlow.Verbs

/-! ## The router's tables -/

/-- `struct MR_SHM`. Source: `ffrouter.h`. Kind: D -/
structure MrShm where
  mrPtr : UInt64
  shmPtr : UInt64
  deriving DecidableEq, Repr

/-- An `ibv_qp` of the router's HCA context: which object it is, and its type. Kind: D -/
structure Qp where
  object : ℕ
  qpType : QpType
  deriving DecidableEq, Repr

/-- `class TokenBucket`: its three 64-bit words.
Source: `tokenbucket.h`
Kind: D -/
structure TokenBucket where
  time : UInt64
  timePerToken : UInt64
  timePerBurst : UInt64
  deriving DecidableEq, Repr

/-- The tables of `FreeFlowRouter` that a post-send request is resolved through. `qpMap` is only
read below `MAP_SIZE`; `ahMap` gives the word found at an index of `ah_map`.
Source: `ffrouter.h` `class FreeFlowRouter`
Kind: D -/
structure Tables where
  qpMap : ℕ → Option Qp
  tokenbucket : UInt32 → Option TokenBucket
  lkeyPtr : UInt32 → Option UInt64
  rkeyMrShm : UInt32 → Option MrShm
  ahMap : UInt32 → UInt64

/-- `ffr->lkey_ptr[lkey]`: `operator[]` of a map yields the null pointer for an absent key.
Kind: D -/
def Tables.lkeyBase (R : Tables) (lkey : UInt32) : UInt64 := (R.lkeyPtr lkey).getD 0

/-- Where a buffer lies in the router's address space: a non-null address with room for `size`
bytes behind it. Kind: D -/
structure Mapping (size : ℕ) where
  base : ℕ
  base_pos : 0 < base
  base_fits : base + size ≤ 2 ^ 64

/-- The address of the byte at offset `x` of a mapped buffer. Kind: D -/
def Mapping.ptr {size : ℕ} (B : Mapping size) (x : ℕ) : UInt64 := UInt64.ofNat (B.base + x)

/-- The offset a pointer into the buffer stands for. Kind: D -/
def Mapping.off {size : ℕ} (B : Mapping size) (a : UInt64) : ℕ := a.toNat - B.base

section Mapping

variable {size : ℕ} (B : Mapping size)

/-- The numeric address of an offset inside the buffer. Kind: L -/
lemma Mapping.toNat_ptr {x : ℕ} (hx : x < size) : (B.ptr x).toNat = B.base + x := by
  have hfits := B.base_fits
  exact UInt64.toNat_ofNat_of_lt' (by rw [UInt64.size]; omega)

/-- Offset and address are inverse inside the buffer. Kind: L -/
lemma Mapping.off_ptr {x : ℕ} (hx : x < size) : B.off (B.ptr x) = x := by
  rw [Mapping.off, B.toNat_ptr hx]
  omega

/-- No pointer into the buffer is null. Kind: L -/
lemma Mapping.ptr_ne_zero {x : ℕ} (hx : x < size) : B.ptr x ≠ 0 := by
  intro h
  have hnat := B.toNat_ptr hx
  have hpos := B.base_pos
  rw [h] at hnat
  simp only [UInt64.toNat_zero] at hnat
  omega

end Mapping

/-! ## One decoder with three parameters -/

/-- The three places in which the source's two copies of the decoding loop differ. `κ` is the
state of the rkey lookup, `σ` that of the work done for each element. Kind: D -/
structure Decoder (κ σ : Type) where
  /-- the entry found for an rkey, if any -/
  lookup : κ → UInt32 → κ × Option MrShm
  /-- the new address of an element; `none` when the loop never gets past it -/
  element : σ → Sge → Option (σ × UInt64)
  /-- the word found in `ah_map` -/
  ahMap : UInt32 → UInt64
  /-- how far `ah` moves after a request -/
  ahStride : ℕ

/-- The variables of the loop: the buffer, the cursors `sge` and `ah`, and the two states.
Kind: D -/
structure Cursors (κ σ : Type) where
  mem : Mem
  sge : ℕ
  ah : ℕ
  look : κ
  pay : σ

variable {κ σ : Type} (D : Decoder κ σ)

/-- `wr[i].wr.rdma.remote_addr = shm_ptr + remote_addr - mr_ptr` when the opcode is one-sided and
the rkey is found. Kind: D -/
def fixRemote (look : κ) (m : Mem) (p : ℕ) : κ × Mem :=
  if oneSided (m.u32 (p + 28)) then
    match D.lookup look (m.u32 (p + 48)) with
    | (look', some e) => (look', m.setU64 (p + 40) (e.shmPtr + m.u64 (p + 40) - e.mrPtr))
    | (look', none) => (look', m)
  else (look, m)

/-- `wr[i].wr.ud.ah = ffr->ah_map[*ah]` on a UD QP. Kind: D -/
def fixAh (ud : Bool) (m : Mem) (p ah : ℕ) : Mem :=
  if ud then m.setU64 (p + 40) (D.ahMap (m.u32 ah)) else m

/-- The body of `for (int i = 0; i < post_send->wr_count; i++)`. The buffer starts at `B`, the
request array at offset `wr`.
Source: `ffrouter.cpp` `CtrlChannelLoop`, `HandleRequest` (`IBV_POST_SEND`)
Kind: D -/
def decodeWr {size : ℕ} (B : Mapping size) (ud : Bool) (wr wrCount i : ℕ) (st : Cursors κ σ) :
    Option (Cursors κ σ) :=
  let p := wr + sizeofSendWr * i
  let (look, m) := fixRemote D st.look st.mem p
  -- fix the link list pointer
  let m := m.setU64 (p + 8) (if wrCount - 1 ≤ i then 0 else B.ptr (p + sizeofSendWr))
  let n := asInt (m.u32 (p + 24))
  let ah := if ud then st.ah + D.ahStride else st.ah
  if 0 < n then do
    -- fix the sg list pointer
    let m := m.setU64 (p + 16) (B.ptr st.sge)
    let (pay, m) ← patchAddrs D.element st.pay m st.sge n.toNat
    some ⟨fixAh D ud m p st.ah, st.sge + sizeofSge * n.toNat, ah, look, pay⟩
  else
    some ⟨fixAh D ud (m.setU64 (p + 16) 0) p st.ah, st.sge, ah, look, st.pay⟩

/-- The loop from index `i` with `k` requests to go. Kind: D -/
def decodeLoop {size : ℕ} (B : Mapping size) (ud : Bool) (wr wrCount : ℕ) :
    (k i : ℕ) → Cursors κ σ → Option (Cursors κ σ)
  | 0, _, st => some st
  | k + 1, i, st => do
      let st ← decodeWr D B ud wr wrCount i st
      decodeLoop B ud wr wrCount k (i + 1) st

/-! ## The list that reaches the HCA -/

/-- A work request as the verbs call sees it: its fields and the elements behind `sg_list`.
Kind: D -/
structure Posted where
  fields : WrFields
  sgList : List Sge
  deriving DecidableEq, Repr

/-- Follow `next` from `wr` to the null pointer, at most `fuel` requests; each request's elements
are the `num_sge` at the address in its `sg_list`. `none` when the fuel runs out first. Kind: D -/
def posted {size : ℕ} (B : Mapping size) (m : Mem) : (fuel : ℕ) → (wr : UInt64) →
    Option (List Posted)
  | fuel, wr =>
      if wr = 0 then some []
      else match fuel with
        | 0 => none
        | fuel + 1 => do
            let p := B.off wr
            let f := fieldsAt m p
            let es := sgesAt m (B.off (sgListAt m p)) f.numSge.toNat
            let rest ← posted B m fuel (nextAt m p)
            some (⟨f, es⟩ :: rest)

/-- Memory holds the requests `out` as an array at `p` linked by `next`, with their elements as
one array at `s`. Kind: D -/
def Linked {size : ℕ} (B : Mapping size) (m : Mem) : List Posted → (p s : ℕ) → Prop
  | [], _, _ => True
  | o :: out, p, s =>
      fieldsAt m p = o.fields ∧
      nextAt m p = (if out = [] then 0 else B.ptr (p + sizeofSendWr)) ∧
      (o.sgList ≠ [] → sgListAt m p = B.ptr s) ∧
      sgesAt m s o.sgList.length = o.sgList ∧
      o.fields.numSge.toNat = o.sgList.length ∧
      Linked B m out (p + sizeofSendWr) (s + sizeofSge * o.sgList.length)

/-- The elements behind a pointer, which is set when there are any. Kind: L -/
lemma sgesAt_off {size : ℕ} (B : Mapping size) {m : Mem} {es : List Sge} {ptr : UInt64} {s : ℕ}
    (hptr : es ≠ [] → ptr = B.ptr s) (hes : sgesAt m s es.length = es)
    (hs : s + sizeofSge * es.length ≤ size) : sgesAt m (B.off ptr) es.length = es := by
  cases es with
  | nil => rfl
  | cons e es =>
      have hpos : 0 < sizeofSge * (e :: es).length := Nat.mul_pos (by decide) (by simp)
      rw [hptr (by simp), B.off_ptr (by omega), hes]

/-- **Reading a linked list back**: with fuel for its length, following `next` from its first
request gives the list. Kind: L -/
lemma posted_of_linked {size : ℕ} (B : Mapping size) {m : Mem} {out : List Posted} {p s : ℕ}
    (h : Linked B m out p s) (hp : p + sizeofSendWr * out.length ≤ size)
    (hs : s + sizeofSge * (out.map fun o => o.sgList.length).sum ≤ size) (fuel : ℕ)
    (hfuel : out.length ≤ fuel) :
    posted B m fuel (if out = [] then 0 else B.ptr p) = some out := by
  induction out generalizing p s fuel with
  | nil => cases fuel <;> simp [posted]
  | cons o out ih =>
      obtain ⟨hf, hnext, hsg, hes, hnum, hrest⟩ := h
      obtain ⟨fuel, rfl⟩ : ∃ k, fuel = k + 1 := ⟨fuel - 1, by simp at hfuel; omega⟩
      have hpos : 0 < sizeofSendWr := by decide
      rw [List.length_cons, Nat.mul_add_one] at hp
      rw [List.map_cons, List.sum_cons, Nat.mul_add] at hs
      have hlt : p < size := by omega
      have htail := ih hrest (by omega) (by omega) fuel (by simpa using hfuel)
      rw [if_neg (by simp), posted, if_neg (B.ptr_ne_zero hlt)]
      simp only [B.off_ptr hlt, hf, hnext, htail, hnum, sgesAt_off B hsg hes (by omega)]
      rfl

/-- A linked list depends on the bytes behind its start only. Kind: L -/
lemma Linked.congr {size : ℕ} {B : Mapping size} {m m' : Mem} {out : List Posted} {p s : ℕ} (lo : ℕ)
    (h : Linked B m out p s) (hp : lo ≤ p) (hs : lo ≤ s) (hm : ∀ x, lo ≤ x → m' x = m x) :
    Linked B m' out p s := by
  induction out generalizing p s with
  | nil => trivial
  | cons o out ih =>
      obtain ⟨hf, hnext, hsg, hes, hnum, hrest⟩ := h
      have hblock : m'.read p sizeofSendWr = m.read p sizeofSendWr :=
        Mem.read_congr fun x hx _ => hm x (hp.trans hx)
      refine ⟨?_, ?_, fun hne => ?_, ?_, hnum, ih hrest (by omega) (by omega)⟩
      · rw [fieldsAt_congr hblock, hf]
      · rw [(pointersAt_congr (by decide) hblock).1, hnext]
      · rw [(pointersAt_congr (by decide) hblock).2, hsg hne]
      · rw [sgesAt_congr (Mem.read_congr fun x hx _ => hm x (hs.trans hx)), hes]

/-- A list at a pointer that is not null has a request. Kind: L -/
lemma posted_ne_nil {size : ℕ} {B : Mapping size} {m : Mem} {fuel : ℕ} {wr : UInt64}
    {out : List Posted} (h : posted B m fuel wr = some out) (hwr : wr ≠ 0) : out ≠ [] := by
  unfold posted at h
  rw [if_neg hwr] at h
  cases fuel with
  | zero => exact absurd h (by simp)
  | succ fuel =>
      simp only [Option.bind_eq_bind, Option.bind_eq_some_iff, Option.some.injEq] at h
      obtain ⟨rest, -, rfl⟩ := h
      exact List.cons_ne_nil _ _

/-- The address of the `k`-th request of the list at `wr`, found by following `next`. Kind: D -/
def elementPtr {size : ℕ} (B : Mapping size) (m : Mem) : (k : ℕ) → (wr : UInt64) → UInt64
  | 0, wr => wr
  | k + 1, wr => elementPtr B m k (nextAt m (B.off wr))

/-- The `n` requests of an array at `p` with the given stride are linked in order. Kind: D -/
def Chained {size : ℕ} (B : Mapping size) (m : Mem) (stride n p : ℕ) : Prop :=
  ∀ j, j + 1 < n → nextAt m (p + stride * j) = B.ptr (p + stride * (j + 1))

/-- The rest of a linked array is linked. Kind: L -/
lemma Chained.tail {size : ℕ} {B : Mapping size} {m : Mem} {stride n p : ℕ}
    (h : Chained B m stride (n + 1) p) : Chained B m stride n (p + stride) := by
  intro j hj
  have hshift : ∀ i, p + stride + stride * i = p + stride * (i + 1) := fun i => by ring
  rw [hshift, hshift]
  exact h (j + 1) (by omega)

/-- A first request that points to the second, and a linked rest, make a linked array. Kind: L -/
lemma Chained.cons {size : ℕ} {B : Mapping size} {m : Mem} {stride n p : ℕ}
    (hfirst : 0 < n → nextAt m p = B.ptr (p + stride)) (h : Chained B m stride n (p + stride)) :
    Chained B m stride (n + 1) p := by
  intro j hj
  cases j with
  | zero => simpa using hfirst (by omega)
  | succ j =>
      have hnext := h j (by omega)
      have hshift : ∀ i, p + stride + stride * i = p + stride * (i + 1) := fun i => by ring
      rwa [hshift, hshift] at hnext

/-- **The `k`-th request of a linked array** is at the `k`-th place. Kind: L -/
lemma elementPtr_of_chained {size : ℕ} {B : Mapping size} {m : Mem} {stride n p k : ℕ}
    (h : Chained B m stride n p) (hk : k < n) (hstride : 0 < stride)
    (hfit : p + stride * n ≤ size) : elementPtr B m k (B.ptr p) = B.ptr (p + stride * k) := by
  induction k generalizing n p with
  | zero => rfl
  | succ k ih =>
      obtain ⟨n, rfl⟩ : ∃ n', n = n' + 1 := ⟨n - 1, by omega⟩
      rw [Nat.mul_add_one] at hfit
      have hnext : nextAt m p = B.ptr (p + stride) := by simpa using h 0 (by omega)
      rw [elementPtr, B.off_ptr (by omega), hnext, ih h.tail (by omega) (by omega)]
      congr 1
      ring

/-- A linked list of requests lies in a linked array. Kind: L -/
lemma Linked.chained {size : ℕ} {B : Mapping size} {m : Mem} {out : List Posted} {p s : ℕ}
    (h : Linked B m out p s) : Chained B m sizeofSendWr out.length p := by
  induction out generalizing p s with
  | nil => exact fun j hj => absurd hj (by simp)
  | cons o out ih =>
      obtain ⟨-, hnext, -, -, -, hrest⟩ := h
      refine Chained.cons (fun hpos => ?_) (ih hrest)
      rw [hnext, if_neg (List.length_pos_iff.mp hpos)]

/-! ## The decoder on lists -/

/-- The remote address of a request after the lookup. Kind: D -/
def remoteFields (look : κ) (f : WrFields) : κ × WrFields :=
  if oneSided f.opcode then
    match D.lookup look f.rkey with
    | (look', some e) => (look', { f with remoteAddr := e.shmPtr + f.remoteAddr - e.mrPtr })
    | (look', none) => (look', f)
  else (look, f)

/-- The address handle of a request on a UD QP. Kind: D -/
def ahFields (ud : Bool) (h : UInt32) (f : WrFields) : WrFields :=
  if ud then { f with remoteAddr := D.ahMap h } else f

/-- **What the decoding loop computes**, on lists: `hs k` is the handle the `k`-th request reads
at the `ah` cursor. Kind: D -/
def decodeList (ud : Bool) : List Posted → (hs : ℕ → UInt32) → κ → σ → Option (List Posted)
  | [], _, _, _ => some []
  | o :: os, hs, look, pay => do
      let (look, f) := remoteFields D look o.fields
      let (pay, es) ← patchList D.element pay o.sgList
      let rest ← decodeList ud os (fun k => hs (k + 1)) look pay
      some (⟨ahFields D ud (hs 0) f, es⟩ :: rest)

/-- `fixRemote` on memory is `remoteFields` on the fields, and touches no byte outside the
request and none of its pointers. Kind: L -/
lemma fixRemote_spec (look : κ) (m : Mem) (p : ℕ) :
    (fixRemote D look m p).1 = (remoteFields D look (fieldsAt m p)).1 ∧
    fieldsAt (fixRemote D look m p).2 p = (remoteFields D look (fieldsAt m p)).2 ∧
    ∀ x, x < p ∨ p + sizeofSendWr ≤ x → (fixRemote D look m p).2 x = m x := by
  unfold fixRemote remoteFields
  by_cases hop : oneSided (m.u32 (p + 28))
  · have hop' : oneSided (fieldsAt m p).opcode := hop
    have hkey : (fieldsAt m p).rkey = m.u32 (p + 48) := rfl
    rw [if_pos hop, if_pos hop', hkey]
    rcases D.lookup look (m.u32 (p + 48)) with ⟨look', _ | e⟩
    · exact ⟨rfl, rfl, fun _ _ => rfl⟩
    · refine ⟨rfl, fieldsAt_setRemote _ _ _, fun x hx => ?_⟩
      exact Mem.setU64_apply_of_outside (by rw [sizeofSendWr] at hx; omega)
  · have hop' : ¬ oneSided (fieldsAt m p).opcode := hop
    rw [if_neg hop, if_neg hop']
    exact ⟨rfl, rfl, fun _ _ => rfl⟩

/-- `fixAh` on memory is `ahFields` on the fields. Kind: L -/
lemma fixAh_spec (ud : Bool) (m : Mem) (p ah : ℕ) :
    fieldsAt (fixAh D ud m p ah) p = ahFields D ud (m.u32 ah) (fieldsAt m p) ∧
    nextAt (fixAh D ud m p ah) p = nextAt m p ∧ sgListAt (fixAh D ud m p ah) p = sgListAt m p ∧
    ∀ x, x < p ∨ p + sizeofSendWr ≤ x → fixAh D ud m p ah x = m x := by
  cases ud with
  | false => exact ⟨rfl, rfl, rfl, fun _ _ => rfl⟩
  | true =>
      refine ⟨fieldsAt_setRemote _ _ _, nextAt_setRemote _ _ _, sgListAt_setRemote _ _ _,
        fun x hx => ?_⟩
      exact Mem.setU64_apply_of_outside (by rw [sizeofSendWr] at hx; omega)

/-- The lookup leaves `num_sge` alone. Kind: L -/
@[simp] lemma remoteFields_numSge (look : κ) (f : WrFields) :
    (remoteFields D look f).2.numSge = f.numSge := by
  unfold remoteFields
  split
  · split <;> rfl
  · rfl

/-- Neither does the address handle change it. Kind: L -/
@[simp] lemma ahFields_numSge (ud : Bool) (h : UInt32) (f : WrFields) :
    (ahFields D ud h f).numSge = f.numSge := by
  cases ud <;> rfl

/-- The handles matter on a UD QP only, and there only those of the requests. Kind: L -/
lemma decodeList_congr {ud : Bool} {os : List Posted} {hs hs' : ℕ → UInt32} (look : κ) (pay : σ)
    (h : ud = true → ∀ k < os.length, hs k = hs' k) :
    decodeList D ud os hs look pay = decodeList D ud os hs' look pay := by
  induction os generalizing hs hs' look pay with
  | nil => rfl
  | cons o os ih =>
      have hhead : ∀ f, ahFields D ud (hs 0) f = ahFields D ud (hs' 0) f := by
        intro f
        cases ud with
        | false => rfl
        | true => rw [h rfl 0 (by simp)]
      have htail : ∀ look pay, decodeList D ud os (fun k => hs (k + 1)) look pay =
          decodeList D ud os (fun k => hs' (k + 1)) look pay := fun look pay =>
        ih look pay fun hud k hk => h hud (k + 1) (by simpa using hk)
      simp only [decodeList, hhead, htail]

/-! ## One turn of the loop -/

/-- The part of a turn before the elements: the remote address, then `next`. The fields are those
of the lookup, and nothing outside the request has changed. Kind: L -/
lemma fixRemote_setNext_spec (look : κ) (m : Mem) (p : ℕ) (v : UInt64) :
    let m₁ := (fixRemote D look m p).2.setU64 (p + 8) v
    fieldsAt m₁ p = (remoteFields D look (fieldsAt m p)).2 ∧ nextAt m₁ p = v ∧
      ∀ x, x < p ∨ p + sizeofSendWr ≤ x → m₁ x = m x := by
  obtain ⟨_, hfields, hout⟩ := fixRemote_spec D look m p
  refine ⟨?_, nextAt_setNext _ _ _, fun x hx => ?_⟩
  · rw [fieldsAt_setNext, hfields]
  · rw [Mem.setU64_apply_of_outside (by rw [sizeofSendWr] at hx; omega), hout x hx]

/-- What a turn leaves behind for the request at `p` with elements at `s`: the memory `m'` holds
fields `f`, the pointer `v` and the elements `es`, and agrees with `m` elsewhere. Kind: D -/
structure TurnDone {size : ℕ} (B : Mapping size) (m m' : Mem) (p s : ℕ) (f : WrFields) (v : UInt64)
    (es : List Sge) : Prop where
  fields : fieldsAt m' p = f
  next : nextAt m' p = v
  sgList : es ≠ [] → sgListAt m' p = B.ptr s
  sges : sgesAt m' s es.length = es
  frame : ∀ x, (x < p ∨ p + sizeofSendWr ≤ x) → (x < s ∨ s + sizeofSge * es.length ≤ x) →
    m' x = m x

/-- The last statement of a turn, the address handle, changes the fields alone; the word it reads
lies outside what the turn has written. Kind: L -/
lemma TurnDone.fixAh {size : ℕ} {B : Mapping size} {m m' : Mem} {p s : ℕ} {f : WrFields}
    {v : UInt64} {es : List Sge} (h : TurnDone B m m' p s f v es) (ud : Bool) {ah : ℕ}
    (hps : p + sizeofSendWr ≤ s) (hah : ud = true → s + sizeofSge * es.length ≤ ah) :
    TurnDone B m (fixAh D ud m' p ah) p s (ahFields D ud (m.u32 ah) f) v es := by
  obtain ⟨hfields, hnext, hsg, hout⟩ := fixAh_spec D ud m' p ah
  refine ⟨?_, hnext.trans h.next, fun hne => hsg.trans (h.sgList hne), ?_, fun x hx hxs => ?_⟩
  · rw [hfields, h.fields]
    cases ud with
    | false => rfl
    | true =>
        have hword : m'.u32 ah = m.u32 ah := Mem.u32_congr (Mem.read_congr fun x hx _ =>
          have hstart := hah rfl
          h.frame x (by omega) (by omega))
        rw [hword]
  · calc sgesAt (Router.fixAh D ud m' p ah) s es.length = sgesAt m' s es.length :=
        sgesAt_congr (Mem.read_congr fun x hx _ => hout x (by omega))
      _ = es := h.sges
  · rw [hout x hx, h.frame x hx hxs]

/-- **One turn of the decoding loop**, on a request whose fields and elements are those of `o`:
it ends exactly when the loop over the elements does; then the request holds what `decodeList`
says, and nothing outside it and its elements has changed. Kind: L -/
lemma decodeWr_spec {size : ℕ} (B : Mapping size) (ud : Bool) (wr wrCount i : ℕ)
    (st : Cursors κ σ) {o : Posted} (hf : fieldsAt st.mem (wr + sizeofSendWr * i) = o.fields)
    (hes : sgesAt st.mem st.sge o.sgList.length = o.sgList)
    (hnum : o.fields.numSge.toNat = o.sgList.length) (hlt : o.sgList.length < 2 ^ 31)
    (hps : wr + sizeofSendWr * i + sizeofSendWr ≤ st.sge)
    (hah : ud = true → st.sge + sizeofSge * o.sgList.length ≤ st.ah) :
    match patchList D.element st.pay o.sgList with
    | none => decodeWr D B ud wr wrCount i st = none
    | some (pay', es') => ∃ m',
        decodeWr D B ud wr wrCount i st = some ⟨m', st.sge + sizeofSge * o.sgList.length,
          if ud then st.ah + D.ahStride else st.ah, (remoteFields D st.look o.fields).1, pay'⟩ ∧
        TurnDone B st.mem m' (wr + sizeofSendWr * i) st.sge
          (ahFields D ud (st.mem.u32 st.ah) (remoteFields D st.look o.fields).2)
          (if wrCount - 1 ≤ i then 0 else B.ptr (wr + sizeofSendWr * i + sizeofSendWr)) es' := by
  rw [decodeWr]
  generalize wr + sizeofSendWr * i = p at *
  generalize (if wrCount - 1 ≤ i then 0 else B.ptr (p + sizeofSendWr)) = v
  obtain ⟨hlook, -, -⟩ := fixRemote_spec D st.look st.mem p
  obtain ⟨hf₁, hnext, hout⟩ := fixRemote_setNext_spec D st.look st.mem p v
  rw [hf] at hlook hf₁
  simp only [hlook]
  generalize (fixRemote D st.look st.mem p).2.setU64 (p + 8) v = m₁ at *
  have hn : asInt (m₁.u32 (p + 24)) = o.sgList.length := by
    have hword : m₁.u32 (p + 24) = o.fields.numSge := by
      rw [← remoteFields_numSge D st.look o.fields, ← hf₁]
      rfl
    rw [hword, asInt_eq_toNat (by omega), hnum]
  rw [hn]
  by_cases hnil : o.sgList = []
  · -- no elements: `sg_list` becomes null and the cursor stays
    rw [hnil]
    refine ⟨fixAh D ud (m₁.setU64 (p + 16) 0) p st.ah, by simp,
      TurnDone.fixAh D ?_ ud hps (by simpa [hnil] using hah)⟩
    refine ⟨?_, ?_, by simp, rfl, fun x hx _ => ?_⟩
    · rw [fieldsAt_setSgList, hf₁]
    · rw [nextAt_setSgList, hnext]
    · rw [Mem.setU64_apply_of_outside (by rw [sizeofSendWr] at hx; omega), hout x hx]
  · have hpos : (0 : ℤ) < o.sgList.length := by
      have hlen := List.length_pos_iff.mpr hnil
      omega
    rw [if_pos hpos, Int.toNat_natCast]
    have hread : sgesAt (m₁.setU64 (p + 16) (B.ptr st.sge)) st.sge o.sgList.length = o.sgList := by
      rw [← hes, length_sgesAt]
      refine sgesAt_congr (Mem.read_congr fun x hx _ => ?_)
      rw [sizeofSendWr] at hps
      rw [Mem.setU64_apply_of_outside (by omega), hout x (by rw [sizeofSendWr]; omega)]
    have hpatch := patchAddrs_spec D.element st.pay (m₁.setU64 (p + 16) (B.ptr st.sge)) st.sge
      o.sgList.length
    rw [hread] at hpatch
    rcases hlist : patchList D.element st.pay o.sgList with _ | ⟨pay', es'⟩
    · rw [hlist] at hpatch
      simp only [hpatch, Option.bind_eq_bind, Option.bind_none]
    · rw [hlist] at hpatch
      obtain ⟨m₂, hrun, hsges, hkeep⟩ := hpatch
      have hlen : es'.length = o.sgList.length := length_patchList _ hlist
      -- the elements lie behind the request, so its bytes are those before the element loop
      have hblock : m₂.read p sizeofSendWr =
          (m₁.setU64 (p + 16) (B.ptr st.sge)).read p sizeofSendWr :=
        Mem.read_congr fun x _ hx => hkeep x (by omega)
      refine ⟨fixAh D ud m₂ p st.ah, by simp only [hrun, Option.bind_eq_bind, Option.bind_some],
        TurnDone.fixAh D ?_ ud hps (by simpa [hlen] using hah)⟩
      refine ⟨?_, ?_, fun _ => ?_, ?_, fun x hx hxs => ?_⟩
      · rw [fieldsAt_congr hblock, fieldsAt_setSgList, hf₁]
      · rw [(pointersAt_congr (by decide) hblock).1, nextAt_setSgList, hnext]
      · rw [(pointersAt_congr (by decide) hblock).2, sgListAt_setSgList]
      · rw [hlen, hsges]
      · rw [hlen] at hxs
        rw [hkeep x hxs, Mem.setU64_apply_of_outside (by rw [sizeofSendWr] at hx; omega),
          hout x hx]

/-! ## The whole loop -/

/-- The arrays at `p` and `s` hold the requests `os`, each with as many elements as its `num_sge`
says: what the decoder finds, before it starts. Kind: D -/
def Arrays (m : Mem) : List Posted → (p s : ℕ) → Prop
  | [], _, _ => True
  | o :: os, p, s =>
      fieldsAt m p = o.fields ∧ sgesAt m s o.sgList.length = o.sgList ∧
      o.fields.numSge.toNat = o.sgList.length ∧ o.sgList.length < 2 ^ 31 ∧
      Arrays m os (p + sizeofSendWr) (s + sizeofSge * o.sgList.length)

/-- The number of elements of all requests. Kind: D -/
def elements (os : List Posted) : ℕ := (os.map fun o => o.sgList.length).sum

/-- The number of elements splits at the head. Kind: L -/
@[simp] lemma elements_cons (o : Posted) (os : List Posted) :
    elements (o :: os) = o.sgList.length + elements os := by
  simp [elements]

/-- `Arrays` depends on the bytes of the two arrays only; they may lie `d` further in the other
memory. Kind: L -/
lemma Arrays.shift {m m' : Mem} {os : List Posted} {p s : ℕ} (d : ℕ)
    (h : Arrays m os (d + p) (d + s))
    (hp : ∀ x, p ≤ x → x < p + sizeofSendWr * os.length → m' x = m (d + x))
    (hs : ∀ x, s ≤ x → x < s + sizeofSge * elements os → m' x = m (d + x)) :
    Arrays m' os p s := by
  induction os generalizing p s with
  | nil => trivial
  | cons o os ih =>
      obtain ⟨hf, hes, hnum, hlt, hrest⟩ := h
      rw [Nat.add_assoc, Nat.add_assoc] at hrest
      rw [List.length_cons, Nat.mul_add_one] at hp
      rw [elements_cons, Nat.mul_add] at hs
      refine ⟨?_, ?_, hnum, hlt, ih hrest ?_ ?_⟩
      · rw [← hf]
        refine fieldsAt_congr (Mem.read_congr_shift fun k hk => ?_)
        rw [hp _ (by omega) (by omega), Nat.add_assoc]
      · calc sgesAt m' s o.sgList.length = sgesAt m (d + s) o.sgList.length := by
              refine sgesAt_congr (Mem.read_congr_shift fun k hk => ?_)
              rw [hs _ (by omega) (by omega), Nat.add_assoc]
          _ = o.sgList := hes
      · exact fun x hx _ => hp x (by omega) (by omega)
      · exact fun x hx _ => hs x (by omega) (by omega)

/-- `Arrays` depends on the bytes of the two arrays only. Kind: L -/
lemma Arrays.congr {m m' : Mem} {os : List Posted} {p s : ℕ} (h : Arrays m os p s)
    (hp : ∀ x, p ≤ x → x < p + sizeofSendWr * os.length → m' x = m x)
    (hs : ∀ x, s ≤ x → x < s + sizeofSge * elements os → m' x = m x) : Arrays m' os p s :=
  Arrays.shift 0 (by simpa using h) (by simpa using hp) (by simpa using hs)

/-- A request that a turn has left, and the linked rest behind it, make a linked list, as long as
the later turns keep the bytes of the request and of its elements. Kind: L -/
lemma TurnDone.linked {size : ℕ} {B : Mapping size} {m m₁ m' : Mem} {p s : ℕ} {f : WrFields}
    {v : UInt64} {es : List Sge} {out : List Posted} (h : TurnDone B m m₁ p s f v es)
    (hblock : m'.read p sizeofSendWr = m₁.read p sizeofSendWr)
    (hsges : m'.read s (sizeofSge * es.length) = m₁.read s (sizeofSge * es.length))
    (hlast : v = if out = [] then 0 else B.ptr (p + sizeofSendWr))
    (hnum : f.numSge.toNat = es.length)
    (hout : Linked B m' out (p + sizeofSendWr) (s + sizeofSge * es.length)) :
    Linked B m' (⟨f, es⟩ :: out) p s := by
  refine ⟨?_, ?_, fun hne => ?_, ?_, hnum, hout⟩
  · rw [fieldsAt_congr hblock, h.fields]
  · rw [(pointersAt_congr (by decide) hblock).1, h.next, hlast]
  · rw [(pointersAt_congr (by decide) hblock).2, h.sgList hne]
  · rw [sgesAt_congr hsges, h.sges]

/-- The address handles that are left lie behind the elements, where a turn changes nothing.
Kind: L -/
lemma TurnDone.decodeList_eq {size : ℕ} {B : Mapping size} {m m₁ : Mem} {p s : ℕ} {f : WrFields}
    {v : UInt64} {es : List Sge} (h : TurnDone B m m₁ p s f v es) {ud : Bool} {ah : ℕ}
    (hps : p + sizeofSendWr ≤ s) (hah : ud = true → s + sizeofSge * es.length ≤ ah)
    (os : List Posted) (look : κ) (pay : σ) :
    decodeList D ud os (fun k => m.u32 (ah + D.ahStride * (k + 1))) look pay =
      decodeList D ud os
        (fun k => m₁.u32 ((if ud then ah + D.ahStride else ah) + D.ahStride * k)) look pay := by
  refine decodeList_congr D _ _ fun hud k _ => ?_
  have hstart := hah hud
  have hnext : ah + D.ahStride * (k + 1) = ah + D.ahStride + D.ahStride * k := by ring
  rw [if_pos hud, hnext]
  exact (Mem.u32_congr (Mem.read_congr fun x hx _ => h.frame x (by omega) (by omega))).symm

/-- **The decoding loop computes `decodeList`**: started on arrays that hold `os`, it ends exactly
when `decodeList` does, and then memory holds its result as a linked list; only the two arrays
have changed.
Source: `ffrouter.cpp` `CtrlChannelLoop`, `HandleRequest` (`IBV_POST_SEND`)
Kind: P -/
theorem decodeLoop_spec {size : ℕ} (B : Mapping size) (ud : Bool) (wr wrCount : ℕ)
    (os : List Posted) (i : ℕ) (st : Cursors κ σ) (hcount : i + os.length = wrCount)
    (harr : Arrays st.mem os (wr + sizeofSendWr * i) st.sge)
    (hps : wr + sizeofSendWr * wrCount ≤ st.sge)
    (hah : ud = true → st.sge + sizeofSge * elements os ≤ st.ah) :
    match decodeList D ud os (fun k => st.mem.u32 (st.ah + D.ahStride * k)) st.look st.pay with
    | none => decodeLoop D B ud wr wrCount os.length i st = none
    | some out => ∃ st', decodeLoop D B ud wr wrCount os.length i st = some st' ∧
        out.length = os.length ∧ elements out = elements os ∧
        Linked B st'.mem out (wr + sizeofSendWr * i) st.sge ∧
        ∀ x, (x < wr + sizeofSendWr * i ∨ wr + sizeofSendWr * wrCount ≤ x) →
          (x < st.sge ∨ st.sge + sizeofSge * elements os ≤ x) → st'.mem x = st.mem x := by
  induction os generalizing i st with
  | nil => exact ⟨st, rfl, rfl, rfl, trivial, fun _ _ _ => rfl⟩
  | cons o os ih =>
      obtain ⟨hf, hes, hnum, hlt, hrest⟩ := harr
      rw [List.length_cons] at hcount
      rw [elements_cons, Nat.mul_add] at hah
      -- the requests from `i` on end before the elements start
      have hstride : sizeofSendWr * wrCount = sizeofSendWr * i + sizeofSendWr +
          sizeofSendWr * os.length := by
        rw [← hcount]
        ring
      have hturn := decodeWr_spec D B ud wr wrCount i st hf hes hnum hlt (by omega)
        (fun hud => by have hstart := hah hud; omega)
      rw [decodeList, List.length_cons, decodeLoop]
      rcases hlist : patchList D.element st.pay o.sgList with _ | ⟨pay', es'⟩
      · rw [hlist] at hturn
        simp only [hturn, Option.bind_eq_bind, Option.bind_none]
      rw [hlist] at hturn
      obtain ⟨m₁, hrun, hdone⟩ := hturn
      have hlen : es'.length = o.sgList.length := length_patchList _ hlist
      have hnext : wr + sizeofSendWr * (i + 1) = wr + sizeofSendWr * i + sizeofSendWr := by ring
      simp only [hrun, Option.bind_eq_bind, Option.bind_some]
      -- the rest of the arrays is as before the turn
      have hrest' := ih (i + 1) ⟨m₁, st.sge + sizeofSge * o.sgList.length,
          if ud then st.ah + D.ahStride else st.ah, (remoteFields D st.look o.fields).1, pay'⟩
        (by omega)
        (by
          rw [hnext]
          refine hrest.congr (fun x hx hx' => hdone.frame x (by omega) (by omega)) ?_
          intro x hx hx'
          exact hdone.frame x (by omega) (by rw [hlen]; omega))
        (by simp only; omega)
        (fun hud => by have hstart := hah hud; simp only [hud, if_true]; omega)
      have hbehind : ud = true → st.sge + sizeofSge * es'.length ≤ st.ah := fun hud => by
        have hstart := hah hud
        rw [hlen]
        omega
      rw [hdone.decodeList_eq D (by omega) hbehind]
      revert hrest'
      rcases decodeList D ud os _ _ pay' with _ | out
      · exact fun hrest' => hrest'
      rintro ⟨st', hloop, hlength, helems, hlinked, hkeep⟩
      rw [hnext] at hlinked hkeep
      refine ⟨st', hloop, by simp [hlength], ?_, hdone.linked ?_ ?_ ?_ ?_ ?_, fun x hx hxs => ?_⟩
      · rw [elements_cons, elements_cons, hlen, helems]
      -- the later turns leave this request and its elements alone
      · exact Mem.read_congr fun x _ hx => hkeep x (by omega) (by simp only; omega)
      · exact Mem.read_congr fun x hx hx' =>
          hkeep x (by omega) (by rw [hlen] at hx'; simp only; omega)
      · refine if_congr ?_ rfl rfl
        rw [← List.length_eq_zero_iff, hlength]
        omega
      · rw [ahFields_numSge, remoteFields_numSge, hnum, hlen]
      · rw [hlen]
        exact hlinked
      · rw [elements_cons, Nat.mul_add] at hxs
        have hrestFrame := hkeep x (by omega) (by simp only; omega)
        rw [hrestFrame]
        exact hdone.frame x (by omega) (by rw [hlen]; omega)

/-! ## The two paths -/

/-- The call `ibv_post_send(qp, wr, &bad_wr)`: the QP, the pointer to the first request and the
memory it points into. Kind: D -/
structure PostCall where
  qp : Qp
  wr : UInt64
  mem : Mem

/-- `qp = ffr->qp_map[qp_handle]`, or the value `qp` had before when the handle is no index of the
table.
Source: `ffrouter.cpp` `CtrlChannelLoop`, `HandleRequest`
Kind: D -/
def resolveQp (R : Tables) (stale : Option Qp) (handle : UInt32) : Option Qp :=
  if mapSize ≤ handle.toNat then stale else R.qpMap handle.toNat

/-- What both paths do once the request body lies at offset `body` of the buffer `B`: place the
cursors, run the loop, call `ibv_post_send`. A null `qp` is dereferenced (`none`).
Source: `ffrouter.cpp` `CtrlChannelLoop`, `HandleRequest` (`IBV_POST_SEND`)
Kind: D -/
def decodePostSend {size : ℕ} (B : Mapping size) (body : ℕ) (qp : Option Qp) (look : κ) (pay : σ)
    (m : Mem) : Option PostCall := do
  let qp ← qp
  let wrCount := (m.u32 (body + 20)).toNat
  let wr := body + sizeofPostSend
  let sge := body + sizeofPostSend + wrCount * sizeofSendWr
  let ud : Bool := qp.qpType = .ud
  let ah := if ud then sge + sizeofSge * (m.u32 (body + 24)).toNat else 0
  let st ← decodeLoop D B ud wr wrCount wrCount 0 ⟨m, sge, ah, look, pay⟩
  some ⟨qp, B.ptr wr, st.mem⟩

/-- **The memory of the call**: when the body holds the requests `os`, the call is made exactly when
`decodeList` ends, and memory then holds the list that it computes, linked from `wr` on.
Source: `ffrouter.cpp` `CtrlChannelLoop`, `HandleRequest` (`IBV_POST_SEND`)
Kind: P -/
theorem decodePostSend_linked {size : ℕ} (B : Mapping size) (body : ℕ) (q : Qp) (look : κ) (pay : σ)
    (m : Mem) (os : List Posted) (hwrs : (m.u32 (body + 20)).toNat = os.length)
    (hsges : (m.u32 (body + 24)).toNat = elements os)
    (harr : Arrays m os (body + sizeofPostSend)
      (body + sizeofPostSend + sizeofSendWr * os.length)) :
    match decodeList D (decide (q.qpType = .ud)) os
      (fun k => m.u32 (body + sizeofPostSend + sizeofSendWr * os.length +
        sizeofSge * elements os + D.ahStride * k)) look pay with
    | none => decodePostSend D B body (some q) look pay m = none
    | some out => ∃ m', decodePostSend D B body (some q) look pay m =
          some ⟨q, B.ptr (body + sizeofPostSend), m'⟩ ∧
        out.length = os.length ∧ elements out = elements os ∧
        Linked B m' out (body + sizeofPostSend)
          (body + sizeofPostSend + sizeofSendWr * os.length) := by
  have hspec := decodeLoop_spec D B (decide (q.qpType = .ud)) (body + sizeofPostSend) os.length os
    0 ⟨m, body + sizeofPostSend + sizeofSendWr * os.length,
      if q.qpType = .ud then body + sizeofPostSend + sizeofSendWr * os.length +
        sizeofSge * elements os else 0, look, pay⟩ (by simp) (by simpa using harr) le_rfl
    (fun hud => by simp [of_decide_eq_true hud])
  have hhs : decodeList D (decide (q.qpType = .ud)) os
      (fun k => m.u32 (body + sizeofPostSend + sizeofSendWr * os.length +
        sizeofSge * elements os + D.ahStride * k)) look pay =
      decodeList D (decide (q.qpType = .ud)) os
        (fun k => m.u32 ((if q.qpType = .ud then body + sizeofPostSend +
          sizeofSendWr * os.length + sizeofSge * elements os else 0) + D.ahStride * k))
        look pay :=
    decodeList_congr D look pay fun hud k _ => by rw [if_pos (of_decide_eq_true hud)]
  rw [hhs]
  revert hspec
  simp only [decodePostSend, hwrs, hsges, Nat.mul_comm os.length, decide_eq_true_eq,
    Option.bind_eq_bind, Option.bind_some]
  rcases decodeList D _ os _ look pay with _ | out
  · intro hloop
    rw [hloop]
    rfl
  · rintro ⟨st', hloop, hlength, helems, hlinked, -⟩
    exact ⟨st'.mem, by rw [hloop]; rfl, hlength, helems, by simpa using hlinked⟩

/-- **From the request body to the verbs call**: when the body holds the requests `os`, the call is
made exactly when `decodeList` ends, on the resolved QP, and following its `wr` gives the list
`decodeList` computes.
Source: `ffrouter.cpp` `CtrlChannelLoop`, `HandleRequest` (`IBV_POST_SEND`)
Kind: P -/
theorem decodePostSend_spec {size : ℕ} (B : Mapping size) (body : ℕ) (q : Qp) (look : κ) (pay : σ)
    (m : Mem) (os : List Posted) (hne : os ≠ [])
    (hwrs : (m.u32 (body + 20)).toNat = os.length) (hsges : (m.u32 (body + 24)).toNat = elements os)
    (harr : Arrays m os (body + sizeofPostSend)
      (body + sizeofPostSend + sizeofSendWr * os.length))
    (hfit : body + sizeofPostSend + sizeofSendWr * os.length + sizeofSge * elements os ≤ size) :
    match decodeList D (decide (q.qpType = .ud)) os
      (fun k => m.u32 (body + sizeofPostSend + sizeofSendWr * os.length +
        sizeofSge * elements os + D.ahStride * k)) look pay with
    | none => decodePostSend D B body (some q) look pay m = none
    | some out => ∃ call, decodePostSend D B body (some q) look pay m = some call ∧
        call.qp = q ∧ ∀ fuel, os.length ≤ fuel → posted B call.mem fuel call.wr = some out := by
  have hspec := decodePostSend_linked D B body q look pay m os hwrs hsges harr
  revert hspec
  rcases decodeList D _ os _ look pay with _ | out
  · exact fun hnone => hnone
  · rintro ⟨m', hcall, hlength, helems, hlinked⟩
    refine ⟨_, hcall, rfl, fun fuel hfuel => ?_⟩
    have hout : out ≠ [] := by
      rw [← List.length_pos_iff, hlength]
      exact List.length_pos_iff.mpr hne
    have hread := posted_of_linked B hlinked (by rw [hlength]; omega)
      (by rw [← elements, helems]; omega) fuel (by omega)
    rwa [if_neg hout] at hread

/-- The retry loop around the lookup of the channel path. `tbl t` is the table at the `t`-th
lookup of the request; `left` is `5 - count`, shared by all requests of the list.
Source: `ffrouter.cpp` `CtrlChannelLoop` (`while(1)` around `rkey_mr_shm.find`)
Kind: D -/
def retryLookup (tbl : ℕ → UInt32 → Option MrShm) (rkey : UInt32) :
    (left t : ℕ) → (ℕ × ℕ) × Option MrShm
  | 0, t => ((0, t + 1), tbl t rkey)
  | left + 1, t =>
      match tbl t rkey with
      | some e => ((left + 1, t + 1), some e)
      | none => retryLookup tbl rkey left (t + 1)

/-- The loop of the channel path: lookups are retried, no tokens are taken, and `ah` stays.
Source: `ffrouter.cpp` `CtrlChannelLoop`
Kind: D -/
def channelDecoder (R : Tables) (tbl : ℕ → UInt32 → Option MrShm) : Decoder (ℕ × ℕ) Unit where
  lookup st rkey := retryLookup tbl rkey st.1 st.2
  element _ e := some ((), R.lkeyBase e.lkey + e.addr)
  ahMap := R.ahMap
  ahStride := 0

/-- **The service of an `IBV_POST_SEND` in `CtrlChannelLoop`** on the request area `m` of a
channel mapped at `B`; `stale` is the loop's variable `qp` and `tbl` the history of
`rkey_mr_shm` during the service.
Source: `ffrouter.cpp` `CtrlChannelLoop` (`IBV_POST_SEND`)
Kind: D -/
def channelPostSend (R : Tables) (tbl : ℕ → UInt32 → Option MrShm) (stale : Option Qp)
    (B : Mapping ctrlReqSize) (m : Mem) : Option PostCall :=
  decodePostSend (channelDecoder R tbl) B sizeofRequestHeader
    (resolveQp R stale (m.u32 (sizeofRequestHeader + 16))) (5, 0) () m

/-- `TokenBucket::consume` at clock value `now`, with no other thread on the bucket: the bucket
after a successful call.
Source: `tokenbucket.h`
Kind: D -/
def TokenBucket.consume (tb : TokenBucket) (now tokens : UInt64) : Option TokenBucket :=
  let timeNeeded := tokens * tb.timePerToken
  let minTime := now - tb.timePerBurst
  let newTime := if tb.time < minTime then minTime else tb.time
  let newTime := newTime + timeNeeded
  if now < newTime then none else some { tb with time := newTime }

/-- `while (!(tb->consume(sge[j].length))) usleep(...)`: at most `fuel` calls, the `k`-th call of
the request at clock value `clk k`.
Source: `ffrouter.cpp` `HandleRequest` (`IBV_POST_SEND`)
Kind: D -/
def waitTokens (clk : ℕ → UInt64) (len : UInt32) :
    (fuel : ℕ) → TokenBucket × ℕ → Option (TokenBucket × ℕ)
  | 0, _ => none
  | fuel + 1, (tb, k) =>
      match tb.consume (clk k) len.toUInt64 with
      | some tb' => some (tb', k + 1)
      | none => waitTokens clk len fuel (tb, k + 1)

/-- The tokens of one element; a null bucket is dereferenced (`none`). Kind: D -/
def payElement (clk : ℕ → UInt64) (fuel : ℕ) (st : Option TokenBucket × ℕ) (len : UInt32) :
    Option (Option TokenBucket × ℕ) := do
  let tb ← st.1
  let (tb, k) ← waitTokens clk len fuel (tb, st.2)
  some (some tb, k)

/-- The loop of the socket path: one lookup, tokens for every element, and `ah = ah + 1`.
Source: `ffrouter.cpp` `HandleRequest` (`IBV_POST_SEND`)
Kind: D -/
def socketDecoder (R : Tables) (clk : ℕ → UInt64) (fuel : ℕ) :
    Decoder Unit (Option TokenBucket × ℕ) where
  lookup st rkey := (st, R.rkeyMrShm rkey)
  element st e := do
    let st ← payElement clk fuel st e.length
    some (st, R.lkeyBase e.lkey + e.addr)
  ahMap := R.ahMap
  ahStride := 4

/-- `malloc(0xfffff)`: the socket path's request buffer. Source: `ffrouter.cpp` `HandleRequest`.
Kind: D -/
def reqBodySize : ℕ := 0xfffff

/-- `tb = ffr->tokenbucket[qp_handle]`, null when the handle is no index of the tables.
Source: `ffrouter.cpp` `HandleRequest`
Kind: D -/
def resolveBucket (R : Tables) (handle : UInt32) : Option TokenBucket :=
  if mapSize ≤ handle.toNat then none else R.tokenbucket handle

/-- **The service of an `IBV_POST_SEND` in `HandleRequest`** on the body `m` of the request, read
into a buffer at `B`; `qp` and `tb` start as null for every request.
Source: `ffrouter.cpp` `HandleRequest` (`IBV_POST_SEND`)
Kind: D -/
def socketPostSend (R : Tables) (clk : ℕ → UInt64) (fuel : ℕ) (B : Mapping reqBodySize)
    (m : Mem) : Option PostCall :=
  decodePostSend (socketDecoder R clk fuel) B 0 (resolveQp R none (m.u32 16)) ()
    (resolveBucket R (m.u32 16), 0) m

/-! ## The response -/

/-- `struct IBV_POST_SEND_RSP`; `IBV_POST_RECV_RSP` and `IBV_POST_SRQ_RECV_RSP` have the same
fields.
Source: `types.h`
Kind: D -/
structure PostRsp where
  retErrno : ℤ
  badWr : UInt32
  deriving DecidableEq, Repr

/-- `p - q` on pointers to objects of `stride` bytes, stored in a `uint32_t`. Kind: D -/
def ptrDiff (stride : ℕ) (p q : UInt64) : UInt32 := UInt32.ofNat ((p - q).toNat / stride)

/-- The difference of two places of one array in a buffer is the difference of their indices.
Kind: L -/
lemma toNat_ptrDiff {size : ℕ} (B : Mapping size) {stride p k : ℕ} (hstride : 0 < stride)
    (hk : p + stride * k < size) (hlt : k < 2 ^ 32) :
    (ptrDiff stride (B.ptr (p + stride * k)) (B.ptr p)).toNat = k := by
  have hbase := B.toNat_ptr (x := p) (by omega)
  have helem := B.toNat_ptr hk
  have hsub : (B.ptr (p + stride * k) - B.ptr p).toNat = stride * k := by
    rw [UInt64.toNat_sub_of_le _ _ (UInt64.le_iff_toNat_le.mpr (by omega)), hbase, helem]
    omega
  rw [ptrDiff, hsub, Nat.mul_div_cancel_left k hstride,
    UInt32.toNat_ofNat_of_lt' (by rw [UInt32.size]; omega)]

/-- The response to an `IBV_POST_SEND` once `ibv_post_send(qp, wr, &bad_wr)` has returned `ret` and
left `badWr`; `wrSuccess` counts the turns of the loop.
Source: `ffrouter.cpp` `CtrlChannelLoop`, `HandleRequest` (`IBV_POST_SEND`)
Kind: D -/
def postSendRsp (wrCount wrSuccess : ℕ) (wr : UInt64) (ret : ℤ) (badWr : UInt64) : PostRsp :=
  if badWr = 0 then
    -- `ENOMEM`, when the loop skipped a request; none of its branches does
    if wrCount = wrSuccess then ⟨ret, 0⟩ else ⟨12, UInt32.ofNat (wrCount - wrSuccess)⟩
  else ⟨ret, ptrDiff sizeofSendWr badWr wr⟩

end FreeFlow.Router
