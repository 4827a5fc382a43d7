import FreeFlow.Client.PostRecv
import FreeFlow.Verbs.Messages

/-!
# The two areas of a channel

A control channel has a request area of `CTRL_REQ_SIZE` bytes, in which the client builds a post,
and a response area of `CTRL_RSP_SIZE` bytes, in which the router has the HCA store the completions
of a poll. The encoders go by the list that the application passes, and the poll by the number it
asks for; neither looks at the size of the area.

The stores of a call are followed here one by one, along the memory as the encoder leaves it,
because the encoder reads the number of elements back from the block it has stored.

* `Range`, `Range.Inside`, `Untouched` — the bytes of a store, and those that no store touches.
* `sendWrites`, `recvWrites` — the stores of the two encoding loops; `send_step` and `recv_step` say
  what one turn of them does.
* `postSend_frame`, `postRecvs_frame` — what no store of a call touches does not change.
* `sendWrites_inside_iff`, `recvWrites_inside_iff` — when the stores of a loop lie below an end.
* `Call` — the four calls, with the stores each makes and the bytes it needs.
* `contained_iff` — for every call that is accepted: its stores lie in the area exactly when the
  encoding, or the completions, fit in it.
* `contained_fails` — 8192 requests without elements, 32767 receives, 21846 completions.
* `postSend_inside_of_limits`, `postRecvs_inside_of_limits` — queue limits under which the request
  area cannot be overrun.

Source: `cmd.c` `ibv_cmd_post_send`, `ibv_cmd_post_recv`, `ibv_cmd_post_srq_recv`,
`ibv_cmd_poll_cq`; `ffrouter.cpp` `CtrlChannelLoop` (CQ pass); `types.h` `CTRL_REQ_SIZE`,
`CTRL_RSP_SIZE`.
-/

namespace FreeFlow.Channel

open FreeFlow.Found FreeFlow.Verbs FreeFlow.Client

/-! ## Stores -/

/-- The bytes of a store: the offset of the first one in the area, and how many. Kind: D -/
structure Range where
  off : ℕ
  len : ℕ
  deriving DecidableEq, Repr

/-- All of them lie below `E`. Kind: D -/
def Range.Inside (r : Range) (E : ℕ) : Prop := r.off + r.len ≤ E

instance (r : Range) (E : ℕ) : Decidable (r.Inside E) := inferInstanceAs (Decidable (_ ≤ _))

/-- No store of the list touches the byte at `x`. Kind: D -/
def Untouched (rs : List Range) (x : ℕ) : Prop := ∀ r ∈ rs, x < r.off ∨ r.off + r.len ≤ x

@[simp] lemma untouched_cons (r : Range) (rs : List Range) (x : ℕ) :
    Untouched (r :: rs) x ↔ (x < r.off ∨ r.off + r.len ≤ x) ∧ Untouched rs x :=
  List.forall_mem_cons

@[simp] lemma untouched_append (rs rs' : List Range) (x : ℕ) :
    Untouched (rs ++ rs') x ↔ Untouched rs x ∧ Untouched rs' x :=
  List.forall_mem_append

/-- An array of `n` entries of `size` bytes at `p` lies below `E`, if there is an entry. Kind: D -/
def Fits (E size n p : ℕ) : Prop := n = 0 ∨ p + size * n ≤ E

/-- An array is its first entries and the rest. Kind: L -/
lemma fits_add (E size k n p : ℕ) :
    Fits E size (k + n) p ↔ Fits E size k p ∧ Fits E size n (p + size * k) := by
  unfold Fits
  rw [Nat.mul_add]
  rcases Nat.eq_zero_or_pos n with rfl | hn
  · simp
  · omega

/-- One entry more. Kind: L -/
lemma fits_succ (E size n p : ℕ) :
    Fits E size (n + 1) p ↔ p + size ≤ E ∧ Fits E size n (p + size) := by
  rw [Nat.add_comm, fits_add]
  simp [Fits]

/-! ## The stores of the encoders -/

/-- The stores of the words of `putHeader`. Kind: D -/
def headerWrites : List Range := [⟨0, 4⟩, ⟨4, 4⟩, ⟨8, 4⟩, ⟨28, 4⟩, ⟨32, 4⟩, ⟨36, 4⟩]

/-- The stores of `s[j].addr` for `n` elements at `s`. Kind: D -/
def patchWrites : (s n : ℕ) → List Range
  | _, 0 => []
  | s, n + 1 => ⟨s, 8⟩ :: patchWrites (s + sizeofSge) n

/-- The elements of a request are copied to `s`, then `n` of them are patched. Kind: D -/
def elementWrites (es : List Sge) (s n : ℕ) : List Range :=
  ⟨s, (sgesBytes es).length⟩ :: patchWrites s n

/-- The block of a send and its address-handle word. Kind: D -/
def blockWrites (ud : Bool) (tmp ah : ℕ) : List Range :=
  ⟨tmp, sizeofSendWr⟩ :: if ud then [⟨ah, 4⟩] else []

/-- The memory and the next place for an address handle after these stores. Kind: D -/
def storeBlock (ud : Bool) (i : SendWr) (tmp ah : ℕ) (m : Mem) : Mem × ℕ :=
  let m := m.write tmp (i.block.read 0 sizeofSendWr)
  if ud then (m.setU32 ah i.ahHandle, ah + 4) else (m, ah)

/-- The stores of the loop of `ibv_cmd_post_send` over the requests, up to a key without a region.
Source: `cmd.c` `ibv_cmd_post_send` (`for (i = wr; i; i = i->next)`, second loop)
Kind: D -/
def sendWrites (map : UInt32 → Option MrShm) (ud : Bool) :
    List SendWr → (tmp s ah : ℕ) → Mem → List Copy → List Range
  | [], _, _, _, _, _ => []
  | i :: is, tmp, s, ah, m, cs =>
      let (m, ah') := storeBlock ud i tmp ah m
      let n := m.u32 (tmp + 24)
      blockWrites ud tmp ah ++
        if n ≠ 0 then
          let m := m.write s (sgesBytes i.sgList)
          elementWrites i.sgList s n.toNat ++
            match patchAddrs (toOffset map) cs m s n.toNat with
            | some (cs, m) =>
                sendWrites map ud is (tmp + sizeofSendWr) (s + sizeofSge * n.toNat) ah' m cs
            | none => []
        else
          sendWrites map ud is (tmp + sizeofSendWr) s ah' m cs

/-- The stores of the loop of the two receive calls; `sg_list` is stored in the block.
Source: `cmd.c` `ibv_cmd_post_recv` (`for (i = wr; i; i = i->next)`, second loop)
Kind: D -/
def recvWrites (map : UInt32 → Option MrShm) (ptr : ℕ → UInt64) :
    List RecvWr → (tmp s : ℕ) → Mem → List Range
  | [], _, _, _ => []
  | i :: is, tmp, s, m =>
      let m := m.write tmp (i.block.read 0 sizeofRecvWr)
      let k := m.u32 (tmp + 24)
      ⟨tmp, sizeofRecvWr⟩ ::
        if k ≠ 0 then
          let m := m.setU64 (tmp + 16) (ptr s)
          let m := m.write s (sgesBytes i.sgList)
          (⟨tmp + 16, 8⟩ :: elementWrites i.sgList s k.toNat) ++
            match patchAddrs (noteElement map) [] m s k.toNat with
            | some (_, m) =>
                recvWrites map ptr is (tmp + sizeofRecvWr) (s + sizeofSge * k.toNat) m
            | none => []
        else
          recvWrites map ptr is (tmp + sizeofRecvWr) s m

/-- The patching loop changes the addresses only. Kind: L -/
lemma patchAddrs_frame {σ : Type*} {f : σ → Sge → Option (σ × UInt64)} {st st' : σ} {m m' : Mem}
    {s n x : ℕ} (h : patchAddrs f st m s n = some (st', m')) (hx : Untouched (patchWrites s n) x) :
    m' x = m x := by
  induction n generalizing st m s with
  | zero =>
      cases h
      rfl
  | succ n ih =>
      rw [patchWrites, untouched_cons] at hx
      rw [patchAddrs] at h
      obtain ⟨⟨st₁, a⟩, -, hrest⟩ := Option.bind_eq_some_iff.mp h
      rw [ih hrest hx.2, Mem.setU64_apply_of_outside hx.1]

/-- The elements and their addresses. Kind: L -/
lemma elements_frame {σ : Type*} {f : σ → Sge → Option (σ × UInt64)} {st st' : σ} {m m' : Mem}
    {es : List Sge} {s n x : ℕ}
    (h : patchAddrs f st (m.write s (sgesBytes es)) s n = some (st', m'))
    (hx : Untouched (elementWrites es s n) x) : m' x = m x := by
  rw [elementWrites, untouched_cons] at hx
  rw [patchAddrs_frame h hx.2, Mem.write_apply_of_outside hx.1]

/-- The block and the address-handle word. Kind: L -/
lemma storeBlock_frame (ud : Bool) (w : SendWr) {p a x : ℕ} (m : Mem)
    (hx : Untouched (blockWrites ud p a) x) : (storeBlock ud w p a m).1 x = m x := by
  rw [blockWrites, untouched_cons] at hx
  have hblock : m.write p (w.block.read 0 sizeofSendWr) x = m x :=
    Mem.write_apply_of_outside (by rw [Mem.length_read]; exact hx.1)
  cases ud with
  | false => exact hblock
  | true =>
      have hah := (untouched_cons _ _ _).mp hx.2
      exact (Mem.setU32_apply_of_outside hah.1).trans hblock

/-- `num_sge` reads back from the block, unless the address handle has been stored over it.
Kind: L -/
lemma storeBlock_numSge (ud : Bool) (w : SendWr) {p a : ℕ}
    (hpa : ud = true → p + sizeofSendWr ≤ a) (m : Mem) :
    ((storeBlock ud w p a m).1.u32 (p + 24)).toNat = w.sgList.length := by
  have hread : (storeBlock ud w p a m).1.read p sizeofSendWr = w.block.read 0 sizeofSendWr := by
    cases ud with
    | false =>
        have hsame := Mem.read_write_same m p (w.block.read 0 sizeofSendWr)
        rwa [Mem.length_read] at hsame
    | true =>
        obtain ⟨m₁, hm₁, hblock, -⟩ := store_block_ah true w (hpa rfl) m
        rw [storeBlock, hm₁]
        exact hblock
  rw [← w.numSge_eq]
  exact congrArg UInt32.toNat (Mem.u32_congr (Mem.read_slice hread (by decide)))

@[simp] lemma storeBlock_snd (ud : Bool) (w : SendWr) (p a : ℕ) (m : Mem) :
    (storeBlock ud w p a m).2 = if ud then a + 4 else a := by
  cases ud <;> rfl

/-- The stores of the elements of a request that has `n`. Kind: D -/
def elementsIfAny (es : List Sge) (s n : ℕ) : List Range :=
  if n = 0 then [] else elementWrites es s n

/-- **One turn of the send loop**, for a call that is accepted: the block, the address handle and
`n` elements are stored and nothing else changes; `n` is the number of the elements of the request
unless the address handle has been stored over it. Kind: L -/
lemma send_step {map : UInt32 → Option MrShm} {ud : Bool} {w : SendWr} {ws : List SendWr}
    {p s a : ℕ} {m : Mem} {cs : List Copy} {res : Mem × List Copy}
    (h : encodeWrs map ud (w :: ws) p s a m cs = some res) :
    ∃ n m₁ cs₁,
      encodeWrs map ud ws (p + sizeofSendWr) (s + sizeofSge * n) (if ud then a + 4 else a) m₁ cs₁ =
        some res ∧
      sendWrites map ud (w :: ws) p s a m cs = (blockWrites ud p a ++ elementsIfAny w.sgList s n) ++
        sendWrites map ud ws (p + sizeofSendWr) (s + sizeofSge * n) (if ud then a + 4 else a) m₁
          cs₁ ∧
      (∀ x, Untouched (blockWrites ud p a ++ elementsIfAny w.sgList s n) x → m₁ x = m x) ∧
      ((ud = true → p + sizeofSendWr ≤ a) → n = w.sgList.length) := by
  have hframe := fun x => storeBlock_frame ud w (p := p) (a := a) (x := x) m
  have hcount := fun hpa => storeBlock_numSge ud w (p := p) (a := a) hpa m
  have hnext := storeBlock_snd ud w p a m
  have hstore : (if ud then ((m.write p (w.block.read 0 sizeofSendWr)).setU32 a w.ahHandle, a + 4)
      else (m.write p (w.block.read 0 sizeofSendWr), a)) = storeBlock ud w p a m := rfl
  rw [encodeWrs] at h
  rw [sendWrites]
  simp only [hstore, ← hnext] at h ⊢
  generalize storeBlock ud w p a m = stored at *
  obtain ⟨m₀, a₀⟩ := stored
  by_cases hzero : m₀.u32 (p + 24) = 0
  · -- no elements: the cursor `s` stays
    refine ⟨0, m₀, cs, ?_, ?_, ?_, ?_⟩
    · simpa [hzero] using h
    · simp [hzero, elementsIfAny]
    · intro x hx
      exact hframe x ((untouched_append _ _ _).mp hx).1
    · intro hpa
      simpa [hzero] using hcount hpa
  · have hne : (m₀.u32 (p + 24)).toNat ≠ 0 := fun h0 => hzero (UInt32.toNat_inj.mp h0)
    simp only [ne_eq, hzero, not_false_eq_true, if_true] at h ⊢
    obtain ⟨⟨cs₁, m₁⟩, hpatch, hrest⟩ := Option.bind_eq_some_iff.mp h
    refine ⟨(m₀.u32 (p + 24)).toNat, m₁, cs₁, hrest, ?_, ?_, hcount⟩
    · simp [hpatch, elementsIfAny, hne]
    · intro x hx
      rw [elementsIfAny, if_neg hne, untouched_append] at hx
      exact (elements_frame hpatch hx.2).trans (hframe x hx.1)

/-- **One turn of the receive loop**, for a call that is accepted: the block, `sg_list` and the
elements are stored and nothing else changes. Kind: L -/
lemma recv_step {map : UInt32 → Option MrShm} {ptr : ℕ → UInt64} {place : Place} {w : RecvWr}
    {ws : List RecvWr} {k p s : ℕ} {m : Mem} {Q : WrQueue} {res : Mem × WrQueue}
    (h : encodeRecvs map ptr place (w :: ws) k p s m Q = some res) :
    ∃ m₁ Q₁ sgList,
      encodeRecvs map ptr place ws (k + 1) (p + sizeofRecvWr) (s + sizeofSge * w.sgList.length) m₁
        Q₁ = some res ∧
      recvWrites map ptr (w :: ws) p s m =
        (⟨p, sizeofRecvWr⟩ :: sgList ++ elementsIfAny w.sgList s w.sgList.length) ++
        recvWrites map ptr ws (p + sizeofRecvWr) (s + sizeofSge * w.sgList.length) m₁ ∧
      sgList ⊆ [⟨p + 16, 8⟩] ∧
      (∀ x, Untouched (⟨p, sizeofRecvWr⟩ :: sgList ++
        elementsIfAny w.sgList s w.sgList.length) x → m₁ x = m x) := by
  have hcount : ((m.write p (w.block.read 0 sizeofRecvWr)).u32 (p + 24)).toNat =
      w.sgList.length := by
    have hsge : (m.write p (w.block.read 0 sizeofRecvWr)).u32 (p + 24) = w.block.u32 24 :=
      congrArg RecvFields.numSge (recvFieldsAt_write_block w m p)
    rw [hsge, w.numSge_eq]
  have hout : ∀ x, (x < p ∨ p + sizeofRecvWr ≤ x) →
      m.write p (w.block.read 0 sizeofRecvWr) x = m x := fun x hx =>
    Mem.write_apply_of_outside (by rwa [Mem.length_read])
  rw [encodeRecvs] at h
  rw [recvWrites]
  simp only at h ⊢
  generalize m.write p (w.block.read 0 sizeofRecvWr) = m₀ at *
  by_cases hzero : m₀.u32 (p + 24) = 0
  · have hlen : w.sgList.length = 0 := by
      rw [← hcount, hzero]
      rfl
    refine ⟨m₀, Q.record ⟨k, place, w.wrId, []⟩, [], ?_, ?_, by simp, ?_⟩
    · simpa [hzero, hlen] using h
    · simp [hzero, hlen, elementsIfAny]
    · intro x hx
      simp only [List.cons_append, untouched_cons] at hx
      exact hout x hx.1
  · have hne : w.sgList.length ≠ 0 := by
      rw [← hcount]
      exact fun h0 => hzero (UInt32.toNat_inj.mp h0)
    simp only [ne_eq, hzero, not_false_eq_true, if_true, hcount] at h ⊢
    obtain ⟨⟨notes, m₁⟩, hpatch, hrest⟩ := Option.bind_eq_some_iff.mp h
    refine ⟨m₁, _, [⟨p + 16, 8⟩], hrest, ?_, by simp, ?_⟩
    · simp [hpatch, elementsIfAny, hne]
    · intro x hx
      simp only [elementsIfAny, if_neg hne, untouched_append, untouched_cons] at hx
      obtain ⟨⟨hblock, hlist, -⟩, hels⟩ := hx
      rw [elements_frame hpatch hels, Mem.setU64_apply_of_outside hlist, hout x hblock]

/-- What no store of the send loop touches does not change. Kind: L -/
lemma encodeWrs_frame {map : UInt32 → Option MrShm} {ud : Bool} {ws : List SendWr} {p s a x : ℕ}
    {m : Mem} {cs : List Copy} {res : Mem × List Copy}
    (h : encodeWrs map ud ws p s a m cs = some res)
    (hx : Untouched (sendWrites map ud ws p s a m cs) x) : res.1 x = m x := by
  induction ws generalizing p s a m cs with
  | nil =>
      cases h
      rfl
  | cons w ws ih =>
      obtain ⟨n, m₁, cs₁, hrest, hwrites, hframe, -⟩ := send_step h
      rw [hwrites, untouched_append] at hx
      rw [ih hrest hx.2, hframe x hx.1]

/-- What no store of the receive loop touches does not change. Kind: L -/
lemma encodeRecvs_frame {map : UInt32 → Option MrShm} {ptr : ℕ → UInt64} {place : Place}
    {ws : List RecvWr} {k p s x : ℕ} {m : Mem} {Q : WrQueue} {res : Mem × WrQueue}
    (h : encodeRecvs map ptr place ws k p s m Q = some res)
    (hx : Untouched (recvWrites map ptr ws p s m) x) : res.1 x = m x := by
  induction ws generalizing k p s m Q with
  | nil =>
      cases h
      rfl
  | cons w ws ih =>
      obtain ⟨m₁, Q₁, sgList, hrest, hwrites, -, hframe⟩ := recv_step h
      rw [hwrites, untouched_append] at hx
      rw [ih hrest hx.2, hframe x hx.1]

/-! ## Where the stores lie -/

/-- The patched addresses lie in the elements. Kind: L -/
lemma inside_patchWrites {E s n : ℕ} (h : s + sizeofSge * n ≤ E) :
    ∀ r ∈ patchWrites s n, r.Inside E := by
  induction n generalizing s with
  | zero => simp [patchWrites]
  | succ n ih =>
      have hsge : sizeofSge = 16 := rfl
      rw [Nat.mul_add_one] at h
      refine List.forall_mem_cons.mpr ⟨?_, ih (by omega)⟩
      change s + 8 ≤ E
      omega

/-- The elements of a request are an array at the cursor. Kind: L -/
lemma elements_inside_iff (E s : ℕ) (es : List Sge) :
    (∀ r ∈ elementsIfAny es s es.length, r.Inside E) ↔ Fits E sizeofSge es.length s := by
  unfold elementsIfAny Fits
  split
  case isTrue hnil => simp [hnil]
  case isFalse hne =>
    rw [elementWrites, List.forall_mem_cons, length_sgesBytes]
    constructor
    · exact fun h => .inr h.1
    · intro h
      have hend := h.resolve_left hne
      exact ⟨hend, inside_patchWrites hend⟩

/-- The block of a send and its address-handle word. Kind: L -/
lemma block_inside_iff (E p a : ℕ) (ud : Bool) :
    (∀ r ∈ blockWrites ud p a, r.Inside E) ↔ p + sizeofSendWr ≤ E ∧ (ud = true → a + 4 ≤ E) := by
  cases ud <;> simp [blockWrites, Range.Inside]

/-- **The blocks** of an accepted list are all stored, wherever the other cursors are. Kind: L -/
lemma fits_of_sendWrites {map : UInt32 → Option MrShm} {ud : Bool} {ws : List SendWr}
    {E p s a : ℕ} {m : Mem} {cs : List Copy} {res : Mem × List Copy}
    (h : encodeWrs map ud ws p s a m cs = some res)
    (hin : ∀ r ∈ sendWrites map ud ws p s a m cs, r.Inside E) :
    Fits E sizeofSendWr ws.length p := by
  induction ws generalizing p s a m cs with
  | nil => exact .inl rfl
  | cons w ws ih =>
      obtain ⟨n, m₁, cs₁, hrest, hwrites, -, -⟩ := send_step h
      rw [hwrites, List.forall_mem_append, List.forall_mem_append, block_inside_iff] at hin
      exact (fits_succ _ _ _ _).mpr ⟨hin.1.1.1, ih hrest hin.2⟩

/-- **The stores of a send**: below `E` exactly when the three arrays are, provided that the address
handles lie behind the blocks. Kind: L -/
lemma sendWrites_inside_iff {map : UInt32 → Option MrShm} {ud : Bool} {ws : List SendWr}
    {p s a : ℕ} {m : Mem} {cs : List Copy} {res : Mem × List Copy}
    (h : encodeWrs map ud ws p s a m cs = some res)
    (hpa : ud = true → p + sizeofSendWr * ws.length ≤ a) (E : ℕ) :
    (∀ r ∈ sendWrites map ud ws p s a m cs, r.Inside E) ↔
      Fits E sizeofSendWr ws.length p ∧ Fits E sizeofSge (sgeTotal ws) s ∧
        (ud = true → Fits E 4 ws.length a) := by
  induction ws generalizing p s a m cs with
  | nil => simp [sendWrites, Fits, sgeTotal]
  | cons w ws ih =>
      obtain ⟨n, m₁, cs₁, hrest, hwrites, -, hn⟩ := send_step h
      rw [List.length_cons, Nat.mul_add_one] at hpa
      obtain rfl := hn fun hud => by
        have := hpa hud
        omega
      have hpa' : ud = true → p + sizeofSendWr + sizeofSendWr * ws.length ≤
          if ud then a + 4 else a := fun hud => by
        have := hpa hud
        rw [if_pos hud]
        omega
      rw [hwrites, List.forall_mem_append, List.forall_mem_append, block_inside_iff,
        elements_inside_iff, ih hrest hpa', List.length_cons, sgeTotal_cons, fits_succ, fits_add]
      cases ud with
      | false =>
          simp only [Bool.false_eq_true, false_imp_iff, and_true]
          exact and_and_and_comm
      | true =>
          simp only [if_true, true_imp_iff, fits_succ]
          constructor
          · rintro ⟨⟨⟨hp, ha⟩, hels⟩, hps, hss, has⟩
            exact ⟨⟨hp, hps⟩, ⟨hels, hss⟩, ha, has⟩
          · rintro ⟨⟨hp, hps⟩, ⟨hels, hss⟩, ha, has⟩
            exact ⟨⟨⟨hp, ha⟩, hels⟩, hps, hss, has⟩

/-- **The stores of a receive call**: below `E` exactly when the two arrays are. Kind: L -/
lemma recvWrites_inside_iff {map : UInt32 → Option MrShm} {ptr : ℕ → UInt64} {place : Place}
    {ws : List RecvWr} {k p s : ℕ} {m : Mem} {Q : WrQueue} {res : Mem × WrQueue}
    (h : encodeRecvs map ptr place ws k p s m Q = some res) (E : ℕ) :
    (∀ r ∈ recvWrites map ptr ws p s m, r.Inside E) ↔
      Fits E sizeofRecvWr ws.length p ∧ Fits E sizeofSge (recvSgeTotal ws) s := by
  induction ws generalizing k p s m Q with
  | nil => simp [recvWrites, Fits, recvSgeTotal]
  | cons w ws ih =>
      obtain ⟨m₁, Q₁, sgList, hrest, hwrites, hsub, -⟩ := recv_step h
      -- the store of `sg_list` lies in the block
      have hlist : p + sizeofRecvWr ≤ E → ∀ r ∈ sgList, r.Inside E := by
        intro hp r hr
        obtain rfl := List.mem_singleton.mp (hsub hr)
        have hsize : sizeofRecvWr = 32 := rfl
        change p + 16 + 8 ≤ E
        omega
      rw [hwrites, List.forall_mem_append, List.forall_mem_append, List.forall_mem_cons,
        elements_inside_iff, ih hrest, List.length_cons, recvSgeTotal_cons, fits_succ, fits_add]
      constructor
      · rintro ⟨⟨⟨hp, -⟩, hels⟩, hps, hss⟩
        exact ⟨⟨hp, hps⟩, hels, hss⟩
      · rintro ⟨⟨hp, hps⟩, hels, hss⟩
        exact ⟨⟨⟨hp, hlist hp⟩, hels⟩, hps, hss⟩

/-! ## The calls -/

/-- The calls that use the areas of a channel. A post has its list, and a receive call also the
addresses of the client's mapping, the number of its first receive and the ring; a poll has the
number that the application asks for and the number of completions that wait in the CQ. Kind: D -/
inductive Call
  | postSend (qp : Qp) (ws : List SendWr)
  | postRecv (handle : UInt32) (ptr : ℕ → UInt64) (n : ℕ) (ws : List RecvWr) (Q : WrQueue)
  | postSrqRecv (handle : UInt32) (ptr : ℕ → UInt64) (n : ℕ) (ws : List RecvWr) (Q : WrQueue)
  | pollCq (ne : ℤ) (pending : ℕ)

/-- The stores of `ibv_cmd_post_send`. Source: `cmd.c`. Kind: D -/
def postSendWrites (c : Lib) (qp : Qp) (ws : List SendWr) (m : Mem) : List Range :=
  let ud : Bool := qp.qpType = .ud
  let wrCount := UInt32.ofNat ws.length
  let sgeCount := UInt32.ofNat (sgeTotal ws)
  let ahCount : ℕ := if ud then wrCount.toNat else 0
  let bodySize := UInt32.ofNat (sizeofPostSend + wrCount.toNat * sizeofSendWr +
    sgeCount.toNat * sizeofSge + ahCount * 4)
  headerWrites ++ sendWrites c.mapLkeyToMrShm ud ws wrOff (sgeOff wrCount.toNat)
    (ahOff wrCount.toNat sgeCount.toNat)
    (putHeader m c.clientId RdmaFunctionCall.ibvPostSend.code bodySize qp.handle wrCount sgeCount)
    []

/-- The stores of the two receive calls. Source: `cmd.c`. Kind: D -/
def postRecvWrites (c : Lib) (func : RdmaFunctionCall) (handle : UInt32) (ptr : ℕ → UInt64)
    (ws : List RecvWr) (m : Mem) : List Range :=
  let wrCount := UInt32.ofNat ws.length
  let sgeCount := UInt32.ofNat (recvSgeTotal ws)
  let bodySize := UInt32.ofNat (sizeofPostSend + wrCount.toNat * sizeofRecvWr +
    sgeCount.toNat * sizeofSge)
  headerWrites ++ recvWrites c.mapLkeyToMrShm ptr ws wrOff (recvSgeOff wrCount.toNat)
    (putHeader m c.clientId func.code bodySize handle wrCount sgeCount)

/-- The completions that `ibv_poll_cq(cq, ne, wc_list)` stores behind the response header: as many
as there are, and at most `ne`. Source: `ffrouter.cpp` `CtrlChannelLoop`. Kind: D -/
def pollWrites (ne : ℤ) (pending : ℕ) : List Range :=
  (List.range (min ne.toNat pending)).map fun i => ⟨sizeofResponseHeader + sizeofWc * i, sizeofWc⟩

namespace Call

/-- The call gets to the point where the request is handed over. Kind: D -/
def Accepted (c : Lib) (m : Mem) : Call → Prop
  | postSend qp ws => (ibvCmdPostSend c qp ws m).isSome
  | postRecv handle ptr n ws Q => (ibvCmdPostRecv c handle ptr n ws m Q).isSome
  | postSrqRecv handle ptr n ws Q => (ibvCmdPostSrqRecv c handle ptr n ws m Q).isSome
  | pollCq _ _ => True

/-- Its stores in its area. Kind: D -/
def writes (c : Lib) (m : Mem) : Call → List Range
  | postSend qp ws => postSendWrites c qp ws m
  | postRecv handle ptr _ ws _ => postRecvWrites c .ibvPostRecv handle ptr ws m
  | postSrqRecv handle ptr _ ws _ => postRecvWrites c .ibvPostSrqRecv handle ptr ws m
  | pollCq ne pending => pollWrites ne pending

/-- The size of the area. Source: `types.h`. Kind: D -/
def area : Call → ℕ
  | postSend _ _ | postRecv _ _ _ _ _ | postSrqRecv _ _ _ _ _ => ctrlReqSize
  | pollCq _ _ => ctrlRspSize

/-- The bytes it needs there. Kind: D -/
def size : Call → ℕ
  | postSend qp ws => encodedSize qp ws
  | postRecv _ _ _ ws _ | postSrqRecv _ _ _ ws _ => recvEncodedSize ws
  | pollCq ne pending => sizeofResponseHeader + sizeofWc * min ne.toNat pending

/-- Every byte that is written lies in the area. Kind: D -/
def Contained (c : Lib) (m : Mem) (call : Call) : Prop :=
  ∀ r ∈ call.writes c m, r.Inside call.area

end Call

/-- The header words. Kind: L -/
lemma putHeader_frame (m : Mem) (clientId func bodySize handle wrCount sgeCount : UInt32) {x : ℕ}
    (hx : Untouched headerWrites x) :
    putHeader m clientId func bodySize handle wrCount sgeCount x = m x := by
  simp only [headerWrites, untouched_cons] at hx
  obtain ⟨h0, h4, h8, h28, h32, h36, -⟩ := hx
  rw [putHeader, Mem.setU32_apply_of_outside h36, Mem.setU32_apply_of_outside h32,
    Mem.setU32_apply_of_outside h28, Mem.setU32_apply_of_outside h8,
    Mem.setU32_apply_of_outside h4, Mem.setU32_apply_of_outside h0]

/-- **What no store of a send touches does not change.** Kind: P -/
theorem postSend_frame {c : Lib} {qp : Qp} {ws : List SendWr} {m : Mem} {res : Mem × List Copy}
    {x : ℕ} (h : ibvCmdPostSend c qp ws m = some res)
    (hx : Untouched (postSendWrites c qp ws m) x) : res.1 x = m x := by
  rw [postSendWrites, untouched_append] at hx
  exact (encodeWrs_frame h hx.2).trans (putHeader_frame _ _ _ _ _ _ _ hx.1)

/-- **What no store of a receive call touches does not change.** Kind: P -/
theorem postRecvs_frame {c : Lib} {func : RdmaFunctionCall} {handle : UInt32} {place : Place}
    {ptr : ℕ → UInt64} {n : ℕ} {ws : List RecvWr} {m : Mem} {Q : WrQueue} {res : Mem × WrQueue}
    {x : ℕ} (h : postRecvs c func handle place ptr n ws m Q = some res)
    (hx : Untouched (postRecvWrites c func handle ptr ws m) x) : res.1 x = m x := by
  rw [postRecvWrites, untouched_append] at hx
  exact (encodeRecvs_frame h hx.2).trans (putHeader_frame _ _ _ _ _ _ _ hx.1)

/-- The header words lie in the area. Kind: L -/
lemma inside_headerWrites : ∀ r ∈ headerWrites, r.Inside ctrlReqSize := by decide

/-- A count of fewer than `2 ^ 32` is the one that is stored. Kind: L -/
lemma toNat_count {n : ℕ} (h : n < 2 ^ 32) : (UInt32.ofNat n).toNat = n :=
  UInt32.toNat_ofNat_of_lt' h

/-- The three arrays of a send, with the element cursor in its place, and the bytes of the encoding.
Beyond `2 ^ 32` elements the address handles are misplaced, and the elements do not fit. Kind: L -/
lemma fits_send_iff (ws : List SendWr) (qp : Qp) :
    (Fits ctrlReqSize sizeofSendWr ws.length wrOff ∧
      Fits ctrlReqSize sizeofSge (sgeTotal ws) (sgeOff ws.length) ∧
      (decide (qp.qpType = .ud) = true → Fits ctrlReqSize 4 ws.length
        (ahOff ws.length (UInt32.ofNat (sgeTotal ws)).toNat))) ↔
      encodedSize qp ws ≤ ctrlReqSize := by
  have hah : ∀ n k, ahOff n k = 44 + 128 * n + 16 * k := fun n k => by
    simp [ahOff, sgeOff, wrOff, sizeofRequestHeader, sizeofPostSend, sizeofSendWr, sizeofSge]
  have hsge : sgeOff ws.length = 44 + 128 * ws.length := by
    simp [sgeOff, wrOff, sizeofRequestHeader, sizeofPostSend, sizeofSendWr]
  have hreq : ctrlReqSize = 1048576 := rfl
  have hwr : wrOff = 44 := rfl
  have hnone : ws.length = 0 → sgeTotal ws = 0 := fun h => by
    rw [List.length_eq_zero_iff.mp h]
    rfl
  rw [encodedSize, hsge, hwr, hreq, sizeofSendWr, sizeofSge]
  simp only [Fits, hah, decide_eq_true_eq]
  by_cases hk : sgeTotal ws < 2 ^ 32
  · rw [toNat_count hk]
    split
    case isTrue hud =>
      simp only [hud, true_imp_iff]
      omega
    case isFalse hud =>
      simp only [hud, false_imp_iff, and_true]
      omega
  · constructor
    · rintro ⟨-, hels, -⟩
      omega
    · intro hle
      omega

/-- The blocks are a part of the encoding. Kind: L -/
lemma blocks_le_encodedSize (qp : Qp) (ws : List SendWr) :
    44 + 128 * ws.length ≤ encodedSize qp ws := by
  have hsge : sgeOff ws.length = 44 + 128 * ws.length := rfl
  rw [encodedSize, ahOff, hsge]
  omega

/-- **A send** stores inside the request area exactly when its encoding fits. Kind: P -/
theorem postSend_inside_iff {c : Lib} {qp : Qp} {ws : List SendWr} {m : Mem}
    (h : (ibvCmdPostSend c qp ws m).isSome) :
    (∀ r ∈ postSendWrites c qp ws m, r.Inside ctrlReqSize) ↔ encodedSize qp ws ≤ ctrlReqSize := by
  obtain ⟨res, hres⟩ := Option.isSome_iff_exists.mp h
  rw [ibvCmdPostSend] at hres
  rw [postSendWrites, List.forall_mem_append, and_iff_right inside_headerWrites]
  by_cases hn : ws.length < 2 ^ 32
  · rw [← fits_send_iff]
    simp only [toNat_count hn] at hres ⊢
    refine sendWrites_inside_iff hres ?_ _
    intro _
    exact Nat.le_add_right _ _
  · -- the blocks alone do not fit
    have hreq : ctrlReqSize = 1048576 := rfl
    constructor
    · intro hin
      have hfits := fits_of_sendWrites hres hin
      rw [Fits, sizeofSendWr] at hfits
      omega
    · intro hle
      have hblocks := blocks_le_encodedSize qp ws
      omega

/-- **A receive call** stores inside the request area exactly when its encoding fits. Kind: P -/
theorem postRecvs_inside_iff {c : Lib} {func : RdmaFunctionCall} {handle : UInt32} {place : Place}
    {ptr : ℕ → UInt64} {n : ℕ} {ws : List RecvWr} {m : Mem} {Q : WrQueue}
    (h : (postRecvs c func handle place ptr n ws m Q).isSome) :
    (∀ r ∈ postRecvWrites c func handle ptr ws m, r.Inside ctrlReqSize) ↔
      recvEncodedSize ws ≤ ctrlReqSize := by
  obtain ⟨res, hres⟩ := Option.isSome_iff_exists.mp h
  have hnone : ws.length = 0 → recvSgeTotal ws = 0 := fun h => by
    rw [List.length_eq_zero_iff.mp h]
    rfl
  have hreq : ctrlReqSize = 1048576 := rfl
  have hwr : wrOff = 44 := rfl
  rw [postRecvs] at hres
  rw [postRecvWrites, List.forall_mem_append, and_iff_right inside_headerWrites,
    recvWrites_inside_iff hres, recvEncodedSize, hreq]
  simp only [Fits, recvSgeOff, sizeofRecvWr, sizeofSge]
  by_cases hn : ws.length < 2 ^ 32
  · rw [toNat_count hn]
    omega
  · -- the blocks alone do not fit
    omega

/-- **A poll** stores inside the response area exactly when its completions fit. Kind: P -/
theorem poll_inside_iff (ne : ℤ) (pending : ℕ) :
    (∀ r ∈ pollWrites ne pending, r.Inside ctrlRspSize) ↔
      sizeofResponseHeader + sizeofWc * min ne.toNat pending ≤ ctrlRspSize := by
  have hrsp : ctrlRspSize = 1048576 := rfl
  have hwc : sizeofWc = 48 := rfl
  have hheader : sizeofResponseHeader = 4 := rfl
  unfold pollWrites
  generalize min ne.toNat pending = count
  simp only [List.forall_mem_map, List.mem_range, Range.Inside, hrsp, hwc, hheader]
  constructor
  · intro h
    rcases count with _ | k
    · omega
    · have hlast := h k (by omega)
      omega
  · intro h i hi
    omega

/-! ### Lists that are accepted -/

/-- A send with known keys is accepted, as long as its counts fit 32 bits. Kind: L -/
lemma isSome_ibvCmdPostSend (c : Lib) (qp : Qp) {ws : List SendWr} (m : Mem)
    (hkeys : ∀ w ∈ ws, ∀ e ∈ w.sgList, (c.mapLkeyToMrShm e.lkey).isSome)
    (hn : ws.length < 2 ^ 32) (hk : sgeTotal ws < 2 ^ 32) :
    (ibvCmdPostSend c qp ws m).isSome := by
  rw [ibvCmdPostSend]
  simp only [toNat_count hn, toNat_count hk]
  obtain ⟨m', hrun, -⟩ := encodeWrs_encoded (decide (qp.qpType = .ud)) ws hkeys (p := wrOff)
    (s := sgeOff ws.length) (a := ahOff ws.length (sgeTotal ws)) le_rfl le_rfl _ []
  exact Option.isSome_of_eq_some hrun

/-- So is a receive call. Kind: L -/
lemma isSome_postRecvs (c : Lib) (func : RdmaFunctionCall) (handle : UInt32) (place : Place)
    (ptr : ℕ → UInt64) (n : ℕ) {ws : List RecvWr} (m : Mem) (Q : WrQueue)
    (hkeys : ∀ w ∈ ws, ∀ e ∈ w.sgList, (c.mapLkeyToMrShm e.lkey).isSome)
    (hn : ws.length < 2 ^ 32) : (postRecvs c func handle place ptr n ws m Q).isSome := by
  rw [postRecvs]
  simp only [toNat_count hn]
  obtain ⟨m', hrun, -⟩ := encodeRecvs_encoded ptr place ws n (p := wrOff)
    (s := recvSgeOff ws.length) _ Q hkeys le_rfl
  exact Option.isSome_of_eq_some hrun

/-- Sends without elements have no key to look up. Kind: L -/
lemma isSome_replicate_send (c : Lib) (qp : Qp) (m : Mem) {w : SendWr} (hw : w.sgList = []) {n : ℕ}
    (hn : n < 2 ^ 32) : (ibvCmdPostSend c qp (List.replicate n w) m).isSome := by
  apply isSome_ibvCmdPostSend
  · intro w' hw'
    rw [List.eq_of_mem_replicate hw', hw]
    exact fun _ he => nomatch he
  · rwa [List.length_replicate]
  · simp [sgeTotal, hw]

/-- Nor have receives. Kind: L -/
lemma isSome_replicate_recv (c : Lib) (func : RdmaFunctionCall) (handle : UInt32) (place : Place)
    (ptr : ℕ → UInt64) (m : Mem) (Q : WrQueue) {w : RecvWr} (hw : w.sgList = []) {n : ℕ}
    (hn : n < 2 ^ 32) :
    (postRecvs c func handle place ptr 0 (List.replicate n w) m Q).isSome := by
  apply isSome_postRecvs
  · intro w' hw'
    rw [List.eq_of_mem_replicate hw', hw]
    exact fun _ he => nomatch he
  · rwa [List.length_replicate]

/-- A library that knows one key. Kind: D -/
def oneKey : Lib := ⟨1, fun k => if k = 5 then some ⟨0x10000, 0x7f0000⟩ else none⟩

/-- A send with one element and an address handle. Kind: D -/
def oneSend : SendWr := .ofParts 0 0 0 3 [⟨0x10010, 24, 5⟩] (by decide)

/-! ## Inside and outside -/

/-- **The areas of a channel**: for every call that is accepted, the bytes written lie in the area
exactly when the encoding, or the completions, fit in it; nothing in the calls sees to that.
Source: `cmd.c`, `ffrouter.cpp` `CtrlChannelLoop`
Kind: P -/
theorem contained_iff {c : Lib} {m : Mem} {call : Call} (h : call.Accepted c m) :
    call.Contained c m ↔ call.size ≤ call.area := by
  cases call with
  | postSend qp ws => exact postSend_inside_iff h
  | postRecv handle ptr n ws Q => exact postRecvs_inside_iff h
  | postSrqRecv handle ptr n ws Q => exact postRecvs_inside_iff h
  | pollCq ne pending => exact poll_inside_iff ne pending

/-- A datagram with one element. Kind: C -/
theorem contained_datagram :
    (Call.postSend ⟨7, .ud⟩ [oneSend]).Accepted oneKey (fun _ => 0) ∧
      (Call.postSend ⟨7, .ud⟩ [oneSend]).Contained oneKey fun _ => 0 := by
  have haccepted : (Call.postSend ⟨7, .ud⟩ [oneSend]).Accepted oneKey fun _ => 0 :=
    isSome_ibvCmdPostSend _ _ _ (by decide) (by decide) (by decide)
  exact ⟨haccepted, (contained_iff haccepted).mpr (by decide)⟩

/-- The count of a request without elements. Kind: L -/
lemma length_nil_lt : ([] : List Sge).length < 2 ^ 31 := Nat.two_pow_pos 31

/-- 8192 sends without elements. Kind: D -/
def manySends : List SendWr := List.replicate 8192 (.ofParts 0 0 0 0 [] length_nil_lt)

/-- 32767 receives without elements. Kind: D -/
def manyRecvs : List RecvWr := List.replicate 32767 (.ofParts 1 [] length_nil_lt)

/-- A ring before its first receive. Kind: D -/
def emptyRing : WrQueue := ⟨fun _ => ⟨0, ⟨0, []⟩⟩, 0, 0⟩

/-- The sends are accepted and do not fit. Kind: L -/
lemma manySends_overrun (c : Lib) (m : Mem) :
    (Call.postSend ⟨7, .rc⟩ manySends).Accepted c m ∧
      ¬ (Call.postSend ⟨7, .rc⟩ manySends).Contained c m := by
  have haccepted : (ibvCmdPostSend c ⟨7, .rc⟩ manySends m).isSome :=
    isSome_replicate_send _ _ _ rfl (by decide)
  refine ⟨haccepted, fun hin => ?_⟩
  have hfit := (postSend_inside_iff haccepted).mp hin
  have hblocks := blocks_le_encodedSize ⟨7, .rc⟩ manySends
  have hlen : manySends.length = 8192 := List.length_replicate
  have hreq : ctrlReqSize = 1048576 := rfl
  omega

/-- So are the receives, whatever they are posted to. Kind: L -/
lemma manyRecvs_overrun (c : Lib) (func : RdmaFunctionCall) (place : Place) (m : Mem) :
    (postRecvs c func 7 place (fun _ => 0) 0 manyRecvs m emptyRing).isSome ∧
      ¬ ∀ r ∈ postRecvWrites c func 7 (fun _ => 0) manyRecvs m, r.Inside ctrlReqSize := by
  have haccepted : (postRecvs c func 7 place (fun _ => 0) 0 manyRecvs m emptyRing).isSome :=
    isSome_replicate_recv _ _ _ _ _ _ _ rfl (by decide)
  refine ⟨haccepted, fun hin => ?_⟩
  have hfit := (postRecvs_inside_iff haccepted).mp hin
  have hlen : manyRecvs.length = 32767 := List.length_replicate
  have hreq : ctrlReqSize = 1048576 := rfl
  have hwr : wrOff = 44 := rfl
  rw [recvEncodedSize, recvSgeOff, sizeofRecvWr, hlen] at hfit
  omega

/-- 8192 sends take 1048620 bytes, 32767 receives, on a QP or on an SRQ, 1048588, and 21846
completions 1048612. All are accepted, and the area has 1048576. Kind: C -/
theorem contained_fails :
    ((Call.postSend ⟨7, .rc⟩ manySends).Accepted oneKey (fun _ => 0) ∧
      ¬ (Call.postSend ⟨7, .rc⟩ manySends).Contained oneKey fun _ => 0) ∧
    ((Call.postRecv 7 (fun _ => 0) 0 manyRecvs emptyRing).Accepted oneKey (fun _ => 0) ∧
      ¬ (Call.postRecv 7 (fun _ => 0) 0 manyRecvs emptyRing).Contained oneKey fun _ => 0) ∧
    ((Call.postSrqRecv 7 (fun _ => 0) 0 manyRecvs emptyRing).Accepted oneKey (fun _ => 0) ∧
      ¬ (Call.postSrqRecv 7 (fun _ => 0) 0 manyRecvs emptyRing).Contained oneKey fun _ => 0) ∧
    ((Call.pollCq 21846 21846).Accepted oneKey (fun _ => 0) ∧
      ¬ (Call.pollCq 21846 21846).Contained oneKey fun _ => 0) := by
  refine ⟨manySends_overrun _ _, manyRecvs_overrun _ _ _ _, manyRecvs_overrun _ _ _ _, trivial, ?_⟩
  intro hin
  exact absurd ((poll_inside_iff 21846 21846).mp hin) (by decide)

/-! ## Queues that cannot overrun the area -/

/-- The elements of requests with at most `k` each. Kind: L -/
lemma sum_length_le {α : Type*} (f : α → List Sge) {k : ℕ} (ws : List α)
    (h : ∀ w ∈ ws, (f w).length ≤ k) : (ws.map fun w => (f w).length).sum ≤ k * ws.length := by
  induction ws with
  | nil => simp
  | cons w ws ih =>
      obtain ⟨hw, hws⟩ := List.forall_mem_cons.mp h
      have hrest := ih hws
      rw [List.map_cons, List.sum_cons, List.length_cons, Nat.mul_add_one]
      omega

/-- **Limits that keep sends inside**: a QP that takes at most `maxSendWr` requests of at most
`maxSendSge` elements, when the largest encoding fits. `ibv_cmd_post_send` itself looks at neither
limit. Kind: P -/
theorem postSend_inside_of_limits {c : Lib} {qp : Qp} {ws : List SendWr} {m : Mem}
    {maxSendWr maxSendSge : ℕ} (h : (ibvCmdPostSend c qp ws m).isSome)
    (hwr : ws.length ≤ maxSendWr) (hsge : ∀ w ∈ ws, w.sgList.length ≤ maxSendSge)
    (hfit : 44 + (132 + 16 * maxSendSge) * maxSendWr ≤ ctrlReqSize) :
    ∀ r ∈ postSendWrites c qp ws m, r.Inside ctrlReqSize := by
  refine (postSend_inside_iff h).mpr (le_trans ?_ hfit)
  have htotal : sgeTotal ws ≤ maxSendSge * ws.length := sum_length_le SendWr.sgList ws hsge
  have hoff : wrOff = 44 := rfl
  calc encodedSize qp ws ≤ 44 + (132 + 16 * maxSendSge) * ws.length := by
        rw [encodedSize, ahOff, sgeOff, sizeofSendWr, sizeofSge, Nat.add_mul, Nat.mul_assoc]
        split <;> omega
    _ ≤ 44 + (132 + 16 * maxSendSge) * maxSendWr := by gcongr

/-- **Limits that keep receives inside**, on a QP or on an SRQ. Kind: P -/
theorem postRecvs_inside_of_limits {c : Lib} {func : RdmaFunctionCall} {handle : UInt32}
    {place : Place} {ptr : ℕ → UInt64} {n : ℕ} {ws : List RecvWr} {m : Mem} {Q : WrQueue}
    {maxWr maxSge : ℕ} (h : (postRecvs c func handle place ptr n ws m Q).isSome)
    (hwr : ws.length ≤ maxWr) (hsge : ∀ w ∈ ws, w.sgList.length ≤ maxSge)
    (hfit : 44 + (32 + 16 * maxSge) * maxWr ≤ ctrlReqSize) :
    ∀ r ∈ postRecvWrites c func handle ptr ws m, r.Inside ctrlReqSize := by
  refine (postRecvs_inside_iff h).mpr (le_trans ?_ hfit)
  have htotal : recvSgeTotal ws ≤ maxSge * ws.length := sum_length_le RecvWr.sgList ws hsge
  have hoff : wrOff = 44 := rfl
  calc recvEncodedSize ws ≤ 44 + (32 + 16 * maxSge) * ws.length := by
        rw [recvEncodedSize, recvSgeOff, sizeofRecvWr, sizeofSge, Nat.add_mul, Nat.mul_assoc]
        omega
    _ ≤ 44 + (32 + 16 * maxSge) * maxWr := by gcongr

end FreeFlow.Channel
