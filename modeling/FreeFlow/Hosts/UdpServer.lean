import FreeFlow.Found.ByteMem
import FreeFlow.Found.Run
import FreeFlow.Router.PostSend

/-!
# The UDP server of a router

`UDPServer` receives the announcements of memory regions. It has one buffer of 1400 bytes on its
stack: `recvfrom` writes a datagram to it, the entry of `rkey_mr_shm` is read from its first 24
bytes, whatever the length of the datagram was, and the acknowledgement `ack-<key>` is printed into
the same buffer.

* `Server`, `step` — the buffer and the table; the buffer starts with what the stack holds.
* `step_of_complete` — a datagram of at least 24 bytes sets the entry at its own key to its own
  addresses.
* `udpServer_robust_iff` — a run changes the table only as its complete datagrams say exactly when
  it has no shorter ones (or those find their entry in the table already); and the effect of a
  datagram is independent of the buffer exactly when it is complete.
* `stale_entry` — after one announcement an empty datagram enters its addresses under the key
  `ack-`.

Source: `ffrouter.cpp` `UDPServer`; `types.h` `IBV_REG_MR_MAPPING_REQ`.
-/

namespace FreeFlow.Hosts.Udp

open FreeFlow.Found FreeFlow.Router

/-! ## The server -/

/-- `sizeof(struct IBV_REG_MR_MAPPING_REQ)`. Source: `types.h`. Kind: D -/
def sizeofMappingReq : ℕ := 24

/-- `char buf[1400]` and the router's `rkey_mr_shm`. Kind: D -/
structure Server where
  buf : Mem
  rkeyMrShm : UInt32 → Option MrShm

/-- `p->key`. Kind: D -/
def keyOf (m : Mem) : UInt32 := m.u32 0

/-- `p->mr_ptr` and `p->shm_ptr`. Kind: D -/
def mappingOf (m : Mem) : MrShm := ⟨m.u64 8, m.u64 16⟩

/-- `recvfrom(s, buf, 1400, ...)`: a longer datagram is cut off. Kind: D -/
def received (buf : Mem) (d : List UInt8) : Mem := buf.write 0 (d.take 1400)

/-- What `sprintf(buf, "ack-%u", p->key)` writes, with the zero behind it. Kind: D -/
def ackText (key : UInt32) : List UInt8 :=
  (['a', 'c', 'k', '-'] ++ Nat.toDigits 10 key.toNat ++ [Char.ofNat 0]).map fun c =>
    UInt8.ofNat c.toNat

/-- **One datagram.** A `recvfrom` that fails ends the thread, so a run is a list of datagrams.
Source: `ffrouter.cpp` `UDPServer`
Kind: D -/
def step (s : Server) (d : List UInt8) : Option Server :=
  let buf := received s.buf d
  some
    { buf := buf.write 0 (ackText (keyOf buf))
      rkeyMrShm := Function.update s.rkeyMrShm (keyOf buf) (some (mappingOf buf)) }

/-! ## Complete datagrams -/

/-- The datagram alone, as a memory. Kind: D -/
def view (d : List UInt8) : Mem := fun x => d.getD x 0

/-- The datagram contains a whole request. Kind: D -/
def Complete (d : List UInt8) : Prop := sizeofMappingReq ≤ d.length

instance (d : List UInt8) : Decidable (Complete d) := inferInstanceAs (Decidable (_ ≤ _))

/-- A byte the datagram has. Kind: L -/
lemma received_apply_of_lt {buf : Mem} {d : List UInt8} {x : ℕ} (hx : x < d.length)
    (hx' : x < 1400) : received buf d x = view d x := by
  have hin : 0 ≤ x ∧ x < 0 + (d.take 1400).length := by
    rw [List.length_take]
    omega
  simp only [received, Mem.write, if_pos hin, Nat.sub_zero, view, List.getD_eq_getElem?_getD]
  rw [List.getElem?_take_of_lt hx']

/-- A byte the datagram does not have. Kind: L -/
lemma received_apply_of_ge {buf : Mem} {d : List UInt8} {x : ℕ} (hx : d.length ≤ x) :
    received buf d x = buf x := by
  refine Mem.write_apply_of_outside (.inr ?_)
  rw [List.length_take]
  omega

/-- The request that is read is the one in the datagram, if that is complete. Kind: L -/
lemma fields_of_complete {d : List UInt8} (hd : Complete d) (buf : Mem) :
    keyOf (received buf d) = keyOf (view d) ∧ mappingOf (received buf d) = mappingOf (view d) := by
  have hread : ∀ a n, a + n ≤ 24 → (received buf d).read a n = (view d).read a n := by
    intro a n han
    refine Mem.read_congr fun x _ hx => ?_
    unfold Complete sizeofMappingReq at hd
    exact received_apply_of_lt (by omega) (by omega)
  constructor
  · exact Mem.u32_congr (hread 0 4 (by norm_num))
  · rw [mappingOf, mappingOf, Mem.u64_congr (hread 8 8 (by norm_num)),
      Mem.u64_congr (hread 16 8 (by norm_num))]

/-- **A complete datagram** sets the entry at its own key to its own addresses, and no other.
Kind: P -/
theorem step_of_complete {s s' : Server} {d : List UInt8} (hd : Complete d)
    (h : step s d = some s') :
    s'.rkeyMrShm =
      Function.update s.rkeyMrShm (keyOf (view d)) (some (mappingOf (view d))) := by
  obtain ⟨hkey, hmap⟩ := fields_of_complete hd s.buf
  cases h
  simp only [hkey, hmap]

/-! ## Runs -/

/-- **What a datagram may do**: a complete one sets the entry at its key, another one changes
nothing. Kind: D -/
def Robust (s : Server) (d : List UInt8) : Prop :=
  ∀ s', step s d = some s' →
    s'.rkeyMrShm =
      if Complete d then
        Function.update s.rkeyMrShm (keyOf (view d)) (some (mappingOf (view d)))
      else s.rkeyMrShm

/-- **The condition**: the datagram is complete, or what is read from the buffer for it is in the
table already. Kind: D -/
def Harmless (s : Server) (d : List UInt8) : Prop :=
  Complete d ∨
    s.rkeyMrShm (keyOf (received s.buf d)) = some (mappingOf (received s.buf d))

/-- One datagram. Kind: L -/
lemma robust_iff_harmless (s : Server) (d : List UInt8) : Robust s d ↔ Harmless s d := by
  by_cases hd : Complete d
  · refine ⟨fun _ => .inl hd, fun _ s' hs' => ?_⟩
    rw [if_pos hd]
    exact step_of_complete hd hs'
  · simp only [Robust, Harmless, hd, if_false, false_or]
    constructor
    · intro h
      have hentry := congrFun (h _ rfl) (keyOf (received s.buf d))
      simp only [Function.update_self] at hentry
      exact hentry.symm
    · intro h s' hs'
      cases hs'
      simp only [← h, Function.update_eq_self]

/-- The table after a datagram does not depend on what the buffer held. Kind: D -/
def Independent (d : List UInt8) : Prop :=
  ∀ s₁ s₂ : Server, s₁.rkeyMrShm = s₂.rkeyMrShm →
    (step s₁ d).map (·.rkeyMrShm) = (step s₂ d).map (·.rkeyMrShm)

/-- Two buffers that differ in the last byte of a request. Kind: D -/
def marked (b : UInt8) : Mem := fun x => if x = 23 then b else 0

/-- **Independence**: a datagram overwrites all that is read exactly when it is complete. Kind: P -/
lemma independent_iff (d : List UInt8) : Independent d ↔ Complete d := by
  constructor
  · intro h
    by_contra hd
    have hlen : d.length ≤ 23 := by
      unfold Complete sizeofMappingReq at hd
      omega
    have hlast : ∀ b, received (marked b) d 23 = b := fun b => by
      rw [received_apply_of_ge hlen]
      rfl
    have hkey : keyOf (received (marked 0) d) = keyOf (received (marked 1) d) := by
      refine Mem.u32_congr (Mem.read_congr fun x _ hx => ?_)
      unfold received Mem.write
      split
      · rfl
      · simp [marked, show x ≠ 23 by omega]
    -- the entry under the common key has the last byte of the buffer in it
    have htable := h ⟨marked 0, fun _ => none⟩ ⟨marked 1, fun _ => none⟩ rfl
    simp only [step, Option.map_some, Option.some.injEq, ← hkey] at htable
    have hentry := congrFun htable (keyOf (received (marked 0) d))
    rw [Function.update_self, Function.update_self, Option.some.injEq, mappingOf, mappingOf,
      MrShm.mk.injEq] at hentry
    have hbytes := Mem.read_slice (Mem.read_eq_of_u64_eq hentry.2) (show 7 + 1 ≤ 8 by norm_num)
    simp [Mem.read, hlast] at hbytes
  · intro hd s₁ s₂ heq
    obtain ⟨hkey₁, hmap₁⟩ := fields_of_complete hd s₁.buf
    obtain ⟨hkey₂, hmap₂⟩ := fields_of_complete hd s₂.buf
    simp only [step, Option.map_some, hkey₁, hkey₂, hmap₁, hmap₂, heq]

/-- **Datagrams of any length and content**, from any table and any content of the buffer: the run
changes the table only as its complete datagrams say exactly when every shorter datagram finds its
entry in the table; and the effect of a datagram is the same for all contents of the buffer exactly
when it is complete. Kind: C -/
theorem udpServer_robust_iff (s : Server) (ds : List (List UInt8)) (d : List UInt8) :
    (Along step Robust s ds ↔ Along step Harmless s ds) ∧ (Independent d ↔ Complete d) := by
  refine ⟨?_, independent_iff d⟩
  induction ds generalizing s with
  | nil => exact Iff.rfl
  | cons d ds ih =>
      have hcons : ∀ P, Along step P s (d :: ds) ↔
          P s d ∧ ∀ s', step s d = some s' → Along step P s' ds := fun _ => Iff.rfl
      rw [hcons, hcons, robust_iff_harmless]
      simp only [ih]

/-- The announcement of the region with key 5 at 0x1000, mapped by its router at 0x2000. Kind: D -/
def sampleRequest : List UInt8 :=
  Mem.toLE 4 5 ++ Mem.toLE 4 0 ++ Mem.toLE 8 0x1000 ++ Mem.toLE 8 0x2000

/-- **An empty datagram behind an announcement**: the addresses of the region with key 5 are
entered under 0x2d6b6361, the bytes `ack-` of the acknowledgement. Kind: C -/
theorem stale_entry :
    (exec step ⟨fun _ => 0, fun _ => none⟩ [sampleRequest, []]).map (·.rkeyMrShm 0x2d6b6361) =
      some (some ⟨0x1000, 0x2000⟩) := by
  decide

end FreeFlow.Hosts.Udp
