import FreeFlow.Client.PostSend
import FreeFlow.Found.Run
import FreeFlow.Found.Space

/-!
# Registered memory: what the router sees of the application's bytes

The HCA reads and writes the shared memory object behind an MR, the application its own addresses.
`ibv_cmd_reg_mr` brings them together in one of two ways. When the buffer starts on a page boundary,
the object is mapped over the buffer (`MAP_FIXED`), and the application works on the object itself.
Otherwise the object is mapped at an address of the kernel's choice, and `ibv_cmd_post_send` copies
the bytes of every element there. It copies exactly when the two addresses differ.

A second page-aligned registration of the same page maps another object over it. The first MR still
looks as if it were in place, so nothing is copied, and its object no longer sees a write.

* `State`, `regMr`, `deregMr`, `Act`, `step` — the address space, the MRs, and the calls.
* `Coherent` — the router's piece holds the application's bytes of an element.
* `Apart` — the condition: a registration maps over no live MR, and no buffer lies in the memory
  that the client mapped for another MR.
* `coherent_of_apart` — under it, after every run, every send hands over coherent elements.
* `coherence_fails_same_page` — one page registered twice.

Source: `cmd.c` `ibv_cmd_reg_mr`, `ibv_cmd_dereg_mr`, `ibv_cmd_post_send`; `ffrouter.cpp`
`HandleRequest` (`IBV_REG_MR`).
-/

namespace FreeFlow.Client.Regions

open FreeFlow.Found FreeFlow.Verbs

/-! ## The state -/

/-- The page size the alignment test uses. Source: `cmd.c` `ibv_cmd_reg_mr`. Kind: D -/
def pageSize : ℕ := 4 * 1024

/-- A length in whole pages. Kind: D -/
def pageRound (n : ℕ) : ℕ := (n + (pageSize - 1)) / pageSize * pageSize

/-- An MR as `ibv_cmd_reg_mr` leaves it: the application's buffer, the client's mapping of the
shared memory, and the object behind it.
Source: `verbs.h` `struct ibv_mr`
Kind: D -/
structure Region where
  addr : UInt64
  length : ℕ
  shmPtr : UInt64
  obj : ℕ
  deriving DecidableEq, Repr

/-- The buffer is the shared memory itself. Kind: D -/
def Region.InPlace (r : Region) : Prop := r.shmPtr = r.addr

instance (r : Region) : Decidable r.InPlace := inferInstanceAs (Decidable (_ = _))

/-- The element lies inside the MR. Kind: D -/
def Region.Inside (r : Region) (e : Sge) : Prop :=
  r.addr.toNat ≤ e.addr.toNat ∧ e.addr.toNat + e.length.toNat ≤ r.addr.toNat + r.length

instance (r : Region) (e : Sge) : Decidable (r.Inside e) := inferInstanceAs (Decidable (_ ∧ _))

/-- The router's shared memory piece of an MR: its object and its size.
Source: `shared_memory.h`
Kind: D -/
structure Piece where
  obj : ℕ
  size : ℤ
  deriving DecidableEq, Repr

/-- The client's address space, the number of the next object, the client library's tables, the
MRs that are registered, and the piece behind `lkey_ptr` of the router. Kind: D -/
structure State where
  space : Space
  nextObj : ℕ
  lib : Lib
  live : UInt32 → Option Region
  lkeyPtr : UInt32 → Option Piece

/-- What `mmap` can return for a buffer: with `MAP_FIXED` its own address, otherwise the start of
pages where nothing is mapped. Kind: D -/
def Chosen (S : Space) (addr : UInt64) (length : ℕ) (p : UInt64) : Prop :=
  p.toNat + pageRound length < 2 ^ 64 ∧
    if addr.toNat % pageSize = 0 then p = addr
    else p.toNat % pageSize = 0 ∧ S.Unmapped p.toNat (pageRound length)

instance (S : Space) (addr : UInt64) (length : ℕ) (p : UInt64) :
    Decidable (Chosen S addr length p) :=
  inferInstanceAs (Decidable (_ ∧ ite _ _ _))

/-- The router has opened a new piece of `size` bytes and stored it under the key.
Source: `ffrouter.cpp` `HandleRequest` (`IBV_REG_MR`)
Kind: D -/
def State.openPiece (s : State) (lkey : UInt32) (size : ℤ) : State :=
  { s with
    space := s.space.newObject s.nextObj
    nextObj := s.nextObj + 1
    lkeyPtr := Function.update s.lkeyPtr lkey (some ⟨s.nextObj, size⟩) }

/-- The client's record of an MR, in `map_lkey_to_mrshm` and with the application. Kind: D -/
def State.insert (s : State) (lkey : UInt32) (r : Region) : State :=
  { s with
    lib := ⟨s.lib.clientId, Function.update s.lib.mapLkeyToMrShm lkey (some ⟨r.addr, r.shmPtr⟩)⟩
    live := Function.update s.live lkey (some r) }

/-- **`ibv_cmd_reg_mr`.** The request carries the length in 32 bits and the router opens a piece of
that size, as an `int`, under a name of its own, so the object is new. `lkey` is the key the HCA
chose and `shmPtr` the result of `mmap`; when it fails, the client keeps no record of the MR.
Source: `cmd.c` `ibv_cmd_reg_mr`; `ffrouter.cpp` `HandleRequest` (`IBV_REG_MR`)
Kind: D -/
def State.regMr (s : State) (addr : UInt64) (length : ℕ) (lkey : UInt32) (shmPtr : Option UInt64) :
    Option State := do
  let size := asInt (UInt32.ofNat length)
  guard (0 < size ∧ s.live lkey = none ∧ s.space.Mapped addr.toNat length)
  let t := s.openPiece lkey size
  match shmPtr with
  | none => some t
  | some p => do
      guard (Chosen t.space addr length p)
      let membuff := t.space.read addr.toNat length
      let S := t.space.mmap p.toNat (pageRound length) s.nextObj
      some { t.insert lkey ⟨addr, length, p, s.nextObj⟩ with space := S.write p.toNat membuff }

/-- **`ibv_cmd_dereg_mr`.** The name is unlinked and the key forgotten; the mapping stays, and so
does the router's entry.
Source: `cmd.c` `ibv_cmd_dereg_mr`
Kind: D -/
def State.deregMr (s : State) (lkey : UInt32) : State :=
  { s with
    lib := ⟨s.lib.clientId, Function.update s.lib.mapLkeyToMrShm lkey none⟩
    live := Function.update s.live lkey none }

/-- One `memcpy` of a post call; an address that is not mapped ends the process. Kind: D -/
def runCopy (S : Space) (c : Copy) : Option Space := do
  guard (S.Mapped c.dst.toNat c.len.toNat ∧ S.Mapped c.src.toNat c.len.toNat)
  some (S.copy c.dst.toNat c.src.toNat c.len.toNat)

/-- `ibv_cmd_post_send` up to the point where the request is handed over, with its copies.
Kind: D -/
def State.postSend (s : State) (qp : Qp) (ws : List SendWr) (m : Mem) : Option State := do
  let (_, copies) ← ibvCmdPostSend s.lib qp ws m
  let S ← copies.foldlM runCopy s.space
  some { s with space := S }

/-- The calls, and a write of the application to its memory. Kind: D -/
inductive Act
  | regMr (addr : UInt64) (length : ℕ) (lkey : UInt32) (shmPtr : Option UInt64)
  | deregMr (lkey : UInt32)
  | store (a : ℕ) (bs : List UInt8)
  | postSend (qp : Qp) (ws : List SendWr) (m : Mem)

/-- **One step.** Kind: D -/
def step (s : State) : Act → Option State
  | .regMr addr length lkey shmPtr => s.regMr addr length lkey shmPtr
  | .deregMr lkey => some (s.deregMr lkey)
  | .store a bs => do
      guard (s.space.Mapped a bs.length)
      some { s with space := s.space.write a bs }
  | .postSend qp ws m => s.postSend qp ws m

/-- Before the first registration: no byte is mapped twice, and the object numbers to come are not
in use. Kind: D -/
structure Start (s : State) : Prop where
  injective : s.space.Injective
  old : ∀ x l, s.space.map x = some l → l.obj < s.nextObj
  live : ∀ k, s.live k = none
  lib : ∀ k, s.lib.mapLkeyToMrShm k = none

/-- **Coherence of an element**: the router's piece behind its key has its range, at the offset of
its address in the MR, and holds there the bytes that the application has at that address.
Kind: D -/
def Coherent (s : State) (e : Sge) : Prop :=
  ∃ r p, s.live e.lkey = some r ∧ s.lkeyPtr e.lkey = some p ∧
    ((e.addr.toNat - r.addr.toNat + e.length.toNat : ℕ) : ℤ) ≤ p.size ∧
    ∀ k < e.length.toNat,
      s.space.cell ⟨p.obj, e.addr.toNat - r.addr.toNat + k⟩ = s.space.byte (e.addr.toNat + k)

/-- The ranges of `n` addresses from `a` on and of `m` from `b` on have no address in common.
Kind: D -/
def Disjoint (a n b m : ℕ) : Prop := ∀ x, a ≤ x → x < a + n → b ≤ x → ¬ x < b + m

/-- **The condition for a step**: the length of an MR fits the request's 32 bits; the pages that a
registration maps over are not those of a live MR's shared memory; and a buffer that is copied does
not lie in memory that the client mapped for another MR. Kind: D -/
def Apart (s : State) : Act → Prop
  | .regMr addr length _ _ => length < 2 ^ 32 ∧ ∀ k r, s.live k = some r →
      if addr.toNat % pageSize = 0 then
        Disjoint addr.toNat (pageRound length) r.shmPtr.toNat r.length
      else ¬ r.InPlace → Disjoint addr.toNat length r.shmPtr.toNat r.length
  | _ => True

/-! ## What the calls keep -/

/-- What holds between the calls: no byte is mapped twice; the tables of client and router agree
with the MRs; the shared memory of every MR is mapped where the client thinks it is; every MR has
its own object; and no buffer lies in memory that the client mapped for an MR. Kind: D -/
structure Inv (s : State) : Prop where
  injective : s.space.Injective
  old : ∀ x l, s.space.map x = some l → l.obj < s.nextObj
  lib : ∀ k, s.lib.mapLkeyToMrShm k = (s.live k).map fun r => ⟨r.addr, r.shmPtr⟩
  piece : ∀ k r, s.live k = some r → s.lkeyPtr k = some ⟨r.obj, r.length⟩
  obj_lt : ∀ k r, s.live k = some r → r.obj < s.nextObj
  fits : ∀ k r, s.live k = some r → r.shmPtr.toNat + r.length < 2 ^ 64
  owned : ∀ k r, s.live k = some r → ∀ j < r.length,
    s.space.map (r.shmPtr.toNat + j) = some ⟨r.obj, j⟩
  buffer : ∀ k r, s.live k = some r → s.space.Mapped r.addr.toNat r.length
  distinct : ∀ k r k' r', s.live k = some r → s.live k' = some r' → r.obj = r'.obj → k = k'
  apart : ∀ k r k' r', s.live k = some r → s.live k' = some r' → ¬ r.InPlace →
    Disjoint r'.addr.toNat r'.length r.shmPtr.toNat r.length

/-- It holds before the first registration. Kind: L -/
lemma Start.inv {s : State} (h : Start s) : Inv s where
  injective := h.injective
  old := h.old
  lib := by
    intro k
    rw [h.lib, h.live]
    rfl
  piece := by simp [h.live]
  obj_lt := by simp [h.live]
  fits := by simp [h.live]
  owned := by simp [h.live]
  buffer := by simp [h.live]
  distinct := by simp [h.live]
  apart := by simp [h.live]

/-- It does not depend on the bytes. Kind: L -/
lemma Inv.of_map {s : State} (h : Inv s) {S : Space} (hS : S.map = s.space.map) :
    Inv { s with space := S } where
  injective := by
    unfold Space.Injective
    rw [hS]
    exact h.injective
  old := by
    simp only [hS]
    exact h.old
  lib := h.lib
  piece := h.piece
  obj_lt := h.obj_lt
  fits := h.fits
  owned := by
    simp only [hS]
    exact h.owned
  buffer := by
    simp only [Space.Mapped, hS]
    exact h.buffer
  distinct := h.distinct
  apart := h.apart

/-- Whole pages are at least the length. Kind: L -/
lemma le_pageRound (n : ℕ) : n ≤ pageRound n := by
  unfold pageRound pageSize
  omega

/-- Mapped and unmapped ranges have no address in common. Kind: L -/
lemma disjoint_of_unmapped {S : Space} {a n b m : ℕ} (ha : S.Mapped a n) (hb : S.Unmapped b m) :
    Disjoint a n b m := by
  intro x hxa hxn hxb hxm
  have hsome := ha (x - a) (by omega)
  have hnone := hb (x - b) (by omega)
  rw [show a + (x - a) = x by omega] at hsome
  rw [show b + (x - b) = x by omega] at hnone
  rw [hnone] at hsome
  exact absurd hsome (by simp)

/-- Disjointness is symmetric. Kind: L -/
lemma Disjoint.symm {a n b m : ℕ} (h : Disjoint a n b m) : Disjoint b m a n :=
  fun x hb hm ha hn => h x ha hn hb hm

/-- A part of a range is disjoint from what the range is disjoint from. Kind: L -/
lemma Disjoint.mono {a n b m n' : ℕ} (h : Disjoint a n b m) (hn : n' ≤ n) : Disjoint a n' b m :=
  fun x ha hx hb => h x ha (by omega) hb

/-- A new piece of the router keeps it, as long as the key is not that of an MR. Kind: L -/
lemma Inv.openPiece {s : State} (h : Inv s) {lkey : UInt32} (hkey : s.live lkey = none) (size : ℤ) :
    Inv (s.openPiece lkey size) where
  injective := h.injective
  old := fun x l hl => Nat.lt_succ_of_lt (h.old x l hl)
  lib := h.lib
  piece := by
    intro k r hr
    have hne : k ≠ lkey := by
      rintro rfl
      exact absurd (hkey.symm.trans hr) (by simp)
    have hpiece := h.piece k r hr
    simpa [State.openPiece, Function.update_of_ne hne] using hpiece
  obj_lt := fun k r hr => Nat.lt_succ_of_lt (h.obj_lt k r hr)
  fits := h.fits
  owned := h.owned
  buffer := h.buffer
  distinct := h.distinct
  apart := h.apart

/-- What a registration that maps at `p` finds: its pages are disjoint from the shared memory of
every MR. Kind: L -/
lemma Inv.clear {s : State} (h : Inv s) {addr p : UInt64} {length : ℕ}
    (hchosen : Chosen s.space addr length p)
    (hapart : ∀ k r, s.live k = some r → addr.toNat % pageSize = 0 →
      Disjoint addr.toNat (pageRound length) r.shmPtr.toNat r.length)
    {k : UInt32} {r : Region} (hr : s.live k = some r) :
    Disjoint p.toNat (pageRound length) r.shmPtr.toNat r.length := by
  obtain ⟨-, hp⟩ := hchosen
  by_cases halign : addr.toNat % pageSize = 0
  · rw [if_pos halign] at hp
    rw [hp]
    exact hapart k r hr halign
  · rw [if_neg halign] at hp
    apply Disjoint.symm
    apply disjoint_of_unmapped (S := s.space) _ hp.2
    intro j hj
    rw [h.owned k r hr j hj]
    rfl

/-- A buffer that is not mapped in place is copied to pages that were free. Kind: L -/
lemma Chosen.unmapped {S : Space} {addr p : UInt64} {length : ℕ} (h : Chosen S addr length p)
    (hne : p ≠ addr) : S.Unmapped p.toNat (pageRound length) := by
  obtain ⟨-, hp⟩ := h
  by_cases halign : addr.toNat % pageSize = 0
  · rw [if_pos halign] at hp
    exact absurd hp hne
  · rw [if_neg halign] at hp
    exact hp.2

/-- The MRs after an insertion are the new one and the old ones. Kind: L -/
lemma live_insert {s : State} {lkey k : UInt32} {r r' : Region}
    (h : (s.insert lkey r).live k = some r') :
    (k = lkey ∧ r' = r) ∨ (k ≠ lkey ∧ s.live k = some r') := by
  by_cases hk : k = lkey
  · subst hk
    left
    exact ⟨rfl, by simpa [State.insert] using h.symm⟩
  · right
    exact ⟨hk, by simpa [State.insert, Function.update_of_ne hk] using h⟩

section Insert

variable {s : State} {addr p : UInt64} {length : ℕ} {lkey : UInt32}

/-- The state after a registration that maps its object, of the requested size, at `p`. Kind: D -/
def State.registered (s : State) (addr : UInt64) (length : ℕ) (lkey : UInt32) (p : UInt64) :
    State :=
  let t := s.openPiece lkey length
  { t.insert lkey ⟨addr, length, p, s.nextObj⟩ with
    space := (t.space.mmap p.toNat (pageRound length) s.nextObj).write p.toNat
      (t.space.read addr.toNat length) }

/-- Its mapping. Kind: L -/
lemma map_registered (s : State) (addr : UInt64) (length : ℕ) (lkey : UInt32) (p : UInt64) :
    (s.registered addr length lkey p).space.map =
      (s.space.mmap p.toNat (pageRound length) s.nextObj).map :=
  Space.map_write _ _ _

/-- Its MRs: the new one and the old ones. Kind: L -/
lemma live_registered {k : UInt32} {r : Region}
    (hr : (s.registered addr length lkey p).live k = some r) :
    (k = lkey ∧ r = ⟨addr, length, p, s.nextObj⟩) ∨ (k ≠ lkey ∧ s.live k = some r) :=
  live_insert (s := s.openPiece lkey length) hr

/-- **A registration keeps the invariant** when its pages are those of no MR's shared memory and its
buffer lies in no memory that the client mapped for an MR. Kind: L -/
lemma Inv.registered (h : Inv s)
    (hbuf : s.space.Mapped addr.toNat length) (hchosen : Chosen s.space addr length p)
    (hpages : ∀ k r, s.live k = some r →
      Disjoint p.toNat (pageRound length) r.shmPtr.toNat r.length)
    (happ : ∀ k r, s.live k = some r → ¬ r.InPlace →
      Disjoint addr.toNat length r.shmPtr.toNat r.length) :
    Inv (s.registered addr length lkey p) where
  injective := by
    unfold Space.Injective
    rw [map_registered]
    exact h.injective.mmap fun x l hl => Nat.ne_of_lt (h.old x l hl)
  old := by
    intro x l hl
    rw [map_registered] at hl
    apply Nat.lt_succ_of_le
    by_cases hx : p.toNat ≤ x ∧ x < p.toNat + pageRound length
    · rw [Space.map_mmap_of_inside hx] at hl
      cases hl
      exact le_rfl
    · rw [Space.map_mmap_of_outside (by omega)] at hl
      exact (h.old x l hl).le
  lib := by
    intro k
    by_cases hk : k = lkey
    · subst hk
      simp [State.registered, State.insert]
    · simpa [State.registered, State.insert, State.openPiece, Function.update_of_ne hk]
        using h.lib k
  piece := by
    intro k r hr
    rcases live_registered hr with ⟨rfl, rfl⟩ | ⟨hk, hold⟩
    · simp [State.registered, State.insert, State.openPiece]
    · simpa [State.registered, State.insert, State.openPiece, Function.update_of_ne hk]
        using h.piece k r hold
  obj_lt := by
    intro k r hr
    rcases live_registered hr with ⟨rfl, rfl⟩ | ⟨hk, hold⟩
    · exact Nat.lt_succ_self _
    · exact Nat.lt_succ_of_lt (h.obj_lt k r hold)
  fits := by
    intro k r hr
    rcases live_registered hr with ⟨rfl, rfl⟩ | ⟨hk, hold⟩
    · have hlen := le_pageRound length
      have hfits := hchosen.1
      simp only
      omega
    · exact h.fits k r hold
  owned := by
    intro k r hr j hj
    rw [map_registered]
    rcases live_registered hr with ⟨rfl, rfl⟩ | ⟨hk, hold⟩
    · have hlen := le_pageRound length
      simp only at hj ⊢
      rw [Space.map_mmap_of_inside (by omega), Nat.add_sub_cancel_left]
    · have hout := hpages k r hold (r.shmPtr.toNat + j)
      rw [Space.map_mmap_of_outside (by omega)]
      exact h.owned k r hold j hj
  buffer := by
    intro k r hr
    unfold Space.Mapped
    rw [map_registered]
    rcases live_registered hr with ⟨rfl, rfl⟩ | ⟨hk, hold⟩
    · exact hbuf.mmap _ _ _
    · exact (h.buffer k r hold).mmap _ _ _
  distinct := by
    intro k r k' r' hr hr' hobj
    rcases live_registered hr with ⟨rfl, rfl⟩ | ⟨hk, hold⟩
    · rcases live_registered hr' with ⟨rfl, rfl⟩ | ⟨hk', hold'⟩
      · rfl
      · exact absurd hobj (Nat.ne_of_gt (h.obj_lt k' r' hold'))
    · rcases live_registered hr' with ⟨rfl, rfl⟩ | ⟨hk', hold'⟩
      · exact absurd hobj (Nat.ne_of_lt (h.obj_lt k r hold))
      · exact h.distinct k r k' r' hold hold' hobj
  apart := by
    intro k r k' r' hr hr' hplace
    rcases live_registered hr with ⟨rfl, rfl⟩ | ⟨hk, hold⟩
    · -- the new MR is copied, so its pages were free
      have hfree := hchosen.unmapped hplace
      have hbuf' : s.space.Mapped r'.addr.toNat r'.length := by
        rcases live_registered hr' with ⟨rfl, rfl⟩ | ⟨hk', hold'⟩
        · exact hbuf
        · exact h.buffer k' r' hold'
      exact ((disjoint_of_unmapped hbuf' hfree).symm.mono (le_pageRound length)).symm
    · rcases live_registered hr' with ⟨rfl, rfl⟩ | ⟨hk', hold'⟩
      · exact happ k r hold hplace
      · exact h.apart k r k' r' hold hold' hplace

end Insert

/-- A length that fits the request's 32 bits is the size of the piece. Kind: L -/
lemma asInt_length {length : ℕ} (hlt : length < 2 ^ 32) (hpos : 0 < asInt (UInt32.ofNat length)) :
    asInt (UInt32.ofNat length) = length := by
  rw [asInt_of_pos hpos, UInt32.toNat_ofNat_of_lt' (by rw [UInt32.size]; omega)]

/-- A registration whose length fits and whose object is mapped at `p`. Kind: L -/
lemma regMr_eq_registered {s : State} {addr p : UInt64} {length : ℕ} {lkey : UInt32}
    (hlt : length < 2 ^ 32) (hpos : 0 < asInt (UInt32.ofNat length)) (hkey : s.live lkey = none)
    (hbuf : s.space.Mapped addr.toNat length) (hchosen : Chosen s.space addr length p) :
    s.regMr addr length lkey (some p) = some (s.registered addr length lkey p) := by
  have hchosen' : Chosen (s.openPiece lkey length).space addr length p := hchosen
  have hpos' : 0 < length := by
    rw [asInt_length hlt hpos] at hpos
    exact_mod_cast hpos
  simp [State.regMr, asInt_length hlt hpos, hpos', hkey, hbuf, hchosen', State.registered]

/-- **What a registration that returns has done**: the piece is there and, unless `mmap` has failed,
the MR with its mapping. Kind: L -/
lemma regMr_cases {s s' : State} {addr : UInt64} {length : ℕ} {lkey : UInt32}
    {shmPtr : Option UInt64} (hs : s.regMr addr length lkey shmPtr = some s') :
    let t := s.openPiece lkey (asInt (UInt32.ofNat length))
    (0 < asInt (UInt32.ofNat length) ∧ s.live lkey = none ∧ s.space.Mapped addr.toNat length) ∧
      ((shmPtr = none ∧ s' = t) ∨
        ∃ p, shmPtr = some p ∧ Chosen s.space addr length p ∧
          s' = { t.insert lkey ⟨addr, length, p, s.nextObj⟩ with
            space := (t.space.mmap p.toNat (pageRound length) s.nextObj).write p.toNat
              (t.space.read addr.toNat length) }) := by
  simp only [State.regMr, Option.bind_eq_bind, Option.bind_eq_some_iff] at hs
  obtain ⟨_, hguard, hs⟩ := hs
  refine ⟨(Option.guard_eq_some' _).mp hguard, ?_⟩
  rcases shmPtr with _ | p
  · exact .inl ⟨rfl, (Option.some.inj hs).symm⟩
  · simp only [Option.bind_eq_some_iff, Option.some.injEq] at hs
    obtain ⟨_, hchosen, rfl⟩ := hs
    exact .inr ⟨p, rfl, (Option.guard_eq_some' _).mp hchosen, rfl⟩

/-- `ibv_cmd_reg_mr` keeps the invariant. Kind: L -/
lemma Inv.regMr {s s' : State} {addr : UInt64} {length : ℕ} {lkey : UInt32} {shmPtr : Option UInt64}
    (h : Inv s) (hap : Apart s (.regMr addr length lkey shmPtr))
    (hs : s.regMr addr length lkey shmPtr = some s') : Inv s' := by
  obtain ⟨hlt, hap⟩ := hap
  obtain ⟨⟨hpos, hkey, hbuf⟩, ⟨-, rfl⟩ | ⟨p, -, hchosen, rfl⟩⟩ := regMr_cases hs
  · exact h.openPiece hkey _
  · rw [asInt_length hlt hpos]
    apply h.registered hbuf hchosen
    · intro k r hr
      apply h.clear hchosen _ hr
      intro k r hr halign
      have hdisj := hap k r hr
      rwa [if_pos halign] at hdisj
    · intro k r hr hplace
      have hdisj := hap k r hr
      by_cases halign : addr.toNat % pageSize = 0
      · rw [if_pos halign] at hdisj
        exact hdisj.mono (le_pageRound length)
      · rw [if_neg halign] at hdisj
        exact hdisj hplace

/-- A registration leaves the MRs and the bytes of their objects alone. Kind: L -/
lemma kept_of_regMr {s s' : State} {addr : UInt64} {length : ℕ} {lkey : UInt32}
    {shmPtr : Option UInt64} (hs : s.regMr addr length lkey shmPtr = some s') :
    (∀ k r, s.live k = some r → s'.live k = some r) ∧
      ∀ l, l.obj < s.nextObj → s'.space.cell l = s.space.cell l := by
  have hcell : ∀ l, l.obj < s.nextObj → (s.space.newObject s.nextObj).cell l = s.space.cell l :=
    fun l hl => if_neg (Nat.ne_of_lt hl)
  obtain ⟨⟨-, hkey, -⟩, ⟨-, rfl⟩ | ⟨p, -, -, rfl⟩⟩ := regMr_cases hs
  · exact ⟨fun k r hr => hr, hcell⟩
  · refine ⟨fun k r hr => ?_, fun l hl => ?_⟩
    · have hne : k ≠ lkey := by
        rintro rfl
        exact absurd (hkey.symm.trans hr) (by simp)
      simpa [State.insert, State.openPiece, Function.update_of_ne hne] using hr
    · -- the application's bytes go to the new object
      refine (Space.cell_write_of_ne fun k hk hmap => ?_).trans (hcell l hl)
      have hlen := le_pageRound length
      rw [Space.length_read] at hk
      rw [Space.map_mmap_of_inside (by omega), Option.some.injEq] at hmap
      rw [← hmap] at hl
      exact absurd hl (lt_irrefl _)

/-- `ibv_cmd_dereg_mr` keeps the invariant: there is one MR less. Kind: L -/
lemma Inv.deregMr {s : State} (h : Inv s) (lkey : UInt32) : Inv (s.deregMr lkey) := by
  have hlive : ∀ {k r}, (s.deregMr lkey).live k = some r → s.live k = some r := by
    intro k r hr
    by_cases hk : k = lkey
    · subst hk
      simp [State.deregMr] at hr
    · simpa [State.deregMr, Function.update_of_ne hk] using hr
  refine ⟨h.injective, h.old, ?_, fun k r hr => h.piece k r (hlive hr),
    fun k r hr => h.obj_lt k r (hlive hr), fun k r hr => h.fits k r (hlive hr),
    fun k r hr => h.owned k r (hlive hr), fun k r hr => h.buffer k r (hlive hr),
    fun k r k' r' hr hr' => h.distinct k r k' r' (hlive hr) (hlive hr'),
    fun k r k' r' hr hr' => h.apart k r k' r' (hlive hr) (hlive hr')⟩
  intro k
  by_cases hk : k = lkey
  · subst hk
    simp [State.deregMr]
  · simpa [State.deregMr, Function.update_of_ne hk] using h.lib k

/-! ## The copies of a post -/

/-- A copy changes no mapping. Kind: L -/
lemma map_of_runCopy {S S' : Space} {c : Copy} (h : runCopy S c = some S') : S'.map = S.map := by
  simp only [runCopy, Option.bind_eq_bind, Option.bind_eq_some_iff, Option.some.injEq] at h
  obtain ⟨-, -, rfl⟩ := h
  exact Space.map_copy _ _ _ _

/-- Nor do the copies of a whole call. Kind: L -/
lemma map_of_runCopies {S S' : Space} {cs : List Copy} (h : cs.foldlM runCopy S = some S') :
    S'.map = S.map := by
  induction cs generalizing S with
  | nil =>
      rw [List.foldlM_nil, Option.pure_def, Option.some.injEq] at h
      rw [← h]
  | cons c cs ih =>
      rw [List.foldlM_cons, Option.bind_eq_bind, Option.bind_eq_some_iff] at h
      obtain ⟨S₁, hfirst, hrest⟩ := h
      rw [ih hrest, map_of_runCopy hfirst]

/-- **Every step that keeps the MRs apart keeps the invariant.** Kind: L -/
lemma Inv.step {s s' : State} {a : Act} (h : Inv s) (hap : Apart s a)
    (hs : Regions.step s a = some s') : Inv s' := by
  cases a with
  | regMr addr length lkey shmPtr => exact h.regMr hap hs
  | deregMr lkey =>
      rw [Regions.step, Option.some.injEq] at hs
      rw [← hs]
      exact h.deregMr lkey
  | store a bs =>
      simp only [Regions.step, Option.bind_eq_bind, Option.bind_eq_some_iff, Option.some.injEq]
        at hs
      obtain ⟨-, -, rfl⟩ := hs
      exact h.of_map (Space.map_write _ _ _)
  | postSend qp ws m =>
      simp only [Regions.step, State.postSend, Option.bind_eq_bind, Option.bind_eq_some_iff,
        Option.some.injEq] at hs
      obtain ⟨_, -, S, hcopies, rfl⟩ := hs
      exact h.of_map (map_of_runCopies hcopies)

/-- A post of a list with known keys that fits the channel makes the copies of its elements.
Kind: L -/
lemma postSend_eq {s : State} {qp : Qp} {ws : List SendWr} (m : Mem)
    (hkeys : ∀ w ∈ ws, ∀ e ∈ w.sgList, (s.lib.mapLkeyToMrShm e.lkey).isSome)
    (hfit : encodedSize qp ws ≤ ctrlReqSize) :
    s.postSend qp ws m = ((copiesOf s.lib.mapLkeyToMrShm ws).foldlM runCopy s.space).map
      fun S => { s with space := S } := by
  obtain ⟨m', hencode, -, -⟩ := ibvCmdPostSend_requestArea s.lib qp ws m hkeys hfit
  simp only [State.postSend, hencode, Option.bind_eq_bind, Option.bind_some]
  rcases (copiesOf s.lib.mapLkeyToMrShm ws).foldlM runCopy s.space with _ | S <;> rfl

/-- The copy `c` is one of a post for a range of an MR that is not in place, at offset `off`.
Kind: D -/
structure IsCopy (live : UInt32 → Option Region) (c : Copy) (k : UInt32) (r : Region) (off : ℕ) :
    Prop where
  live : live k = some r
  copied : ¬ r.InPlace
  dst : c.dst.toNat = r.shmPtr.toNat + off
  src : c.src.toNat = r.addr.toNat + off
  inside : off + c.len.toNat ≤ r.length

/-- The address is in no memory that the client mapped for an MR. Kind: D -/
def Unshared (live : UInt32 → Option Region) (x : ℕ) : Prop :=
  ∀ k r, live k = some r → ¬ r.InPlace → r.shmPtr.toNat ≤ x → ¬ x < r.shmPtr.toNat + r.length

/-- No address of a buffer is. Kind: L -/
lemma Inv.unshared {s : State} (h : Inv s) {k : UInt32} {r : Region} (hr : s.live k = some r)
    {j : ℕ} (hj : j < r.length) : Unshared s.live (r.addr.toNat + j) :=
  fun k' r' hr' hplace => h.apart k' r' k r hr' hr hplace _ (by omega) (by omega)

/-- **One copy**: it ends, the copied bytes are in the object, no other byte of an object has
changed, and none outside the client's own mappings.
Kind: L -/
lemma Inv.runCopy {s : State} (h : Inv s) {c : Copy} {k : UInt32} {r : Region} {off : ℕ}
    (hc : IsCopy s.live c k r off) :
    ∃ S, Regions.runCopy s.space c = some S ∧ S.map = s.space.map ∧
      (∀ x, Unshared s.live x → S.byte x = s.space.byte x) ∧
      (∀ j, off ≤ j → j < off + c.len.toNat →
        S.cell ⟨r.obj, j⟩ = s.space.byte (r.addr.toNat + j)) ∧
      ∀ l, (∀ j, off ≤ j → j < off + c.len.toNat → l ≠ ⟨r.obj, j⟩) → S.cell l = s.space.cell l := by
  have hlen := hc.inside
  have hmap : ∀ i < c.len.toNat, s.space.map (c.dst.toNat + i) = some ⟨r.obj, off + i⟩ := by
    intro i hi
    rw [hc.dst, Nat.add_assoc]
    exact h.owned k r hc.live (off + i) (by omega)
  refine ⟨s.space.copy c.dst.toNat c.src.toNat c.len.toNat, ?_, Space.map_copy _ _ _ _, ?_, ?_, ?_⟩
  · have hdst : s.space.Mapped c.dst.toNat c.len.toNat := by
      intro i hi
      rw [hmap i hi]
      rfl
    have hsrc : s.space.Mapped c.src.toNat c.len.toNat := by
      intro i hi
      rw [hc.src, Nat.add_assoc]
      exact h.buffer k r hc.live (off + i) (by omega)
    simp [Regions.runCopy, hdst, hsrc]
  · intro x hx
    have hout := hx k r hc.live hc.copied
    apply Space.byte_write_of_outside h.injective
    rw [Space.length_read, hc.dst]
    omega
  · intro j hj hjlen
    have hi : j - off < (s.space.read c.src.toNat c.len.toNat).length := by
      rw [Space.length_read]
      omega
    have hloc := hmap (j - off) (by omega)
    rw [show off + (j - off) = j by omega] at hloc
    rw [Space.copy, Space.cell_write_of_map h.injective hi hloc, Space.getElem_read, hc.src]
    congr 1
    omega
  · intro l hl
    apply Space.cell_write_of_ne
    intro i hi hloc
    rw [Space.length_read] at hi
    rw [hmap i hi, Option.some.injEq] at hloc
    exact hl (off + i) (by omega) (by omega) hloc.symm

/-- **The copies of a call**: they end, and afterwards every byte of an object that was copied, or
was the application's before, is the application's. Kind: L -/
lemma Inv.runCopies {s : State} (h : Inv s) (cs : List Copy)
    (hcs : ∀ c ∈ cs, ∃ k r off, IsCopy s.live c k r off) :
    ∃ S, cs.foldlM Regions.runCopy s.space = some S ∧
      (∀ x, Unshared s.live x → S.byte x = s.space.byte x) ∧
      ∀ k r, s.live k = some r → ∀ j < r.length,
        (s.space.cell ⟨r.obj, j⟩ = s.space.byte (r.addr.toNat + j) ∨
          ∃ c ∈ cs, ∃ off, IsCopy s.live c k r off ∧ off ≤ j ∧ j < off + c.len.toNat) →
        S.cell ⟨r.obj, j⟩ = s.space.byte (r.addr.toNat + j) := by
  induction cs generalizing s with
  | nil =>
      refine ⟨s.space, rfl, fun _ _ => rfl, ?_⟩
      rintro k r - j - (hsame | ⟨c, hc, -⟩)
      · exact hsame
      · exact absurd hc List.not_mem_nil
  | cons c cs ih =>
      obtain ⟨k₁, r₁, off₁, hc₁⟩ := hcs c List.mem_cons_self
      obtain ⟨S₁, hrun₁, hmap₁, hbyte₁, hcopied₁, hkept₁⟩ := h.runCopy hc₁
      obtain ⟨S, hrun, hbyte, hsync⟩ := ih (h.of_map hmap₁) fun c' hc' =>
        hcs c' (List.mem_cons_of_mem _ hc')
      refine ⟨S, ?_, ?_, ?_⟩
      · rw [List.foldlM_cons, hrun₁]
        exact hrun
      · intro x hx
        rw [hbyte x hx]
        exact hbyte₁ x hx
      · intro k r hr j hj hor
        have hbuf : S₁.byte (r.addr.toNat + j) = s.space.byte (r.addr.toNat + j) :=
          hbyte₁ _ (h.unshared hr hj)
        have hgoal := hsync k r hr j hj
        simp only [hbuf] at hgoal
        apply hgoal
        rcases hor with hsame | ⟨c', hc', off, hcopy, hlo, hhi⟩
        · left
          by_cases hcov : r₁.obj = r.obj ∧ off₁ ≤ j ∧ j < off₁ + c.len.toNat
          · -- the first copy covers this byte, and an object belongs to one MR
            obtain ⟨hobj, hlo, hhi⟩ := hcov
            have hk : k₁ = k := h.distinct k₁ r₁ k r hc₁.live hr hobj
            have hlive := hc₁.live
            rw [hk, hr, Option.some.injEq] at hlive
            rw [hlive]
            exact hcopied₁ j hlo hhi
          · rw [hkept₁ _ _, hsame]
            intro i hlo hhi heq
            rw [Loc.mk.injEq] at heq
            exact hcov ⟨heq.1.symm, by omega, by omega⟩
        · rcases List.mem_cons.mp hc' with rfl | hc'
          · left
            obtain ⟨S₂, hrun₂, -, -, hcopied₂, -⟩ := h.runCopy hcopy
            rw [hrun₁, Option.some.injEq] at hrun₂
            rw [hrun₂]
            exact hcopied₂ j hlo hhi
          · right
            exact ⟨c', hc', off, hcopy, hlo, hhi⟩

/-- A byte that none of the copies of a call goes to is as before. Kind: L -/
lemma Inv.cell_of_runCopies {s : State} (h : Inv s) {cs : List Copy} {S : Space} {l : Loc}
    (hcs : ∀ c ∈ cs, ∃ k r off, IsCopy s.live c k r off ∧
      ∀ j, off ≤ j → j < off + c.len.toNat → l ≠ ⟨r.obj, j⟩)
    (hS : cs.foldlM Regions.runCopy s.space = some S) : S.cell l = s.space.cell l := by
  induction cs generalizing s with
  | nil =>
      rw [List.foldlM_nil, Option.pure_def, Option.some.injEq] at hS
      rw [hS]
  | cons c cs ih =>
      obtain ⟨k, r, off, hcopy, hne⟩ := hcs c List.mem_cons_self
      obtain ⟨S₁, hrun, hmap, -, -, hkept⟩ := h.runCopy hcopy
      rw [List.foldlM_cons, hrun] at hS
      rw [ih (h.of_map hmap) (fun c' hc' => hcs c' (List.mem_cons_of_mem _ hc')) hS]
      exact hkept l hne

/-! ## Coherence -/

section Element

variable {s : State} {e : Sge} {r : Region}

/-- The offset of an element in its MR. Kind: L -/
lemma toNat_offset (he : r.Inside e) :
    (e.addr - r.addr).toNat = e.addr.toNat - r.addr.toNat :=
  UInt64.toNat_sub_of_le _ _ (UInt64.le_iff_toNat_le.mpr he.1)

/-- An MR in place needs no copy. Kind: L -/
lemma Inv.copyOf_inPlace (h : Inv s) (hr : s.live e.lkey = some r) (hplace : r.InPlace) :
    copyOf s.lib.mapLkeyToMrShm e = none := by
  unfold Region.InPlace at hplace
  simp only [copyOf, h.lib, hr, Option.map_some, Option.bind_some, hplace, addr_add_offset, ne_eq,
    not_true_eq_false, if_false]

/-- An MR that is not in place needs one, to the element's offset in its shared memory. Kind: L -/
lemma Inv.copyOf_copied (h : Inv s) (hr : s.live e.lkey = some r) (he : r.Inside e)
    (hplace : ¬ r.InPlace) :
    ∃ c, copyOf s.lib.mapLkeyToMrShm e = some c ∧ c.len = e.length ∧
      IsCopy s.live c e.lkey r (e.addr.toNat - r.addr.toNat) := by
  have hne : r.shmPtr + (e.addr - r.addr) ≠ e.addr := by
    intro heq
    apply hplace
    unfold Region.InPlace
    rw [← UInt64.add_left_inj (e.addr - r.addr), heq, addr_add_offset]
  refine ⟨⟨r.shmPtr + (e.addr - r.addr), e.addr, e.length⟩, ?_, rfl, hr, hplace, ?_, ?_, ?_⟩
  · simp [copyOf, h.lib, hr, hne]
  · have hfits := h.fits _ _ hr
    have hin := he.2
    rw [UInt64.toNat_add, toNat_offset he, Nat.mod_eq_of_lt (by omega)]
  · have hle := he.1
    simp only
    omega
  · have hle := he.1
    have hin := he.2
    simp only
    omega

end Element

/-- The library knows the keys of a list whose elements lie inside live MRs. Kind: L -/
lemma Inv.isSome_of_inside {s : State} (h : Inv s) {ws : List SendWr}
    (hin : ∀ w ∈ ws, ∀ e ∈ w.sgList, ∃ r, s.live e.lkey = some r ∧ r.Inside e) :
    ∀ w ∈ ws, ∀ e ∈ w.sgList, (s.lib.mapLkeyToMrShm e.lkey).isSome := by
  intro w hw e he
  obtain ⟨r, hr, -⟩ := hin w hw e he
  rw [h.lib, hr]
  rfl

/-- The copies of a list whose elements lie inside live MRs are copies into the shared memory of
their MRs. Kind: L -/
lemma Inv.isCopy_of_mem {s : State} (h : Inv s) {ws : List SendWr}
    (hin : ∀ w ∈ ws, ∀ e ∈ w.sgList, ∃ r, s.live e.lkey = some r ∧ r.Inside e) {c : Copy}
    (hc : c ∈ copiesOf s.lib.mapLkeyToMrShm ws) :
    ∃ w ∈ ws, ∃ e ∈ w.sgList, ∃ r, r.Inside e ∧ c.len = e.length ∧
      IsCopy s.live c e.lkey r (e.addr.toNat - r.addr.toNat) := by
  obtain ⟨w, hw, hc⟩ := List.mem_flatMap.mp hc
  obtain ⟨e, he, hc⟩ := List.mem_filterMap.mp hc
  obtain ⟨r, hr, hinside⟩ := hin w hw e he
  by_cases hplace : r.InPlace
  · rw [h.copyOf_inPlace hr hplace] at hc
    exact absurd hc (by simp)
  · obtain ⟨c', hc', hlen, hcopy⟩ := h.copyOf_copied hr hinside hplace
    rw [hc', Option.some.injEq] at hc
    exact ⟨w, hw, e, he, r, hinside, hc ▸ hlen, hc ▸ hcopy⟩

/-- After the copies of a call every element inside its MR is coherent. Kind: L -/
lemma Inv.coherent {s : State} (h : Inv s) {S : Space} {cs : List Copy} {e : Sge} {r : Region}
    (hr : s.live e.lkey = some r) (he : r.Inside e) (hmap : S.map = s.space.map)
    (hbyte : ∀ x, Unshared s.live x → S.byte x = s.space.byte x)
    (hsync : ∀ k r, s.live k = some r → ∀ j < r.length,
      (s.space.cell ⟨r.obj, j⟩ = s.space.byte (r.addr.toNat + j) ∨
        ∃ c ∈ cs, ∃ off, IsCopy s.live c k r off ∧ off ≤ j ∧ j < off + c.len.toNat) →
      S.cell ⟨r.obj, j⟩ = s.space.byte (r.addr.toNat + j))
    (hcs : ∀ c, copyOf s.lib.mapLkeyToMrShm e = some c → c ∈ cs) :
    Coherent { s with space := S } e := by
  obtain ⟨hlo, hhi⟩ := he
  refine ⟨r, ⟨r.obj, r.length⟩, hr, h.piece _ _ hr, by simp only; omega, fun k hk => ?_⟩
  have haddr : e.addr.toNat + k = r.addr.toNat + (e.addr.toNat - r.addr.toNat + k) := by omega
  have hj : e.addr.toNat - r.addr.toNat + k < r.length := by omega
  simp only [haddr]
  by_cases hplace : r.InPlace
  · -- the application's address leads to the object
    have howned := h.owned _ _ hr _ hj
    rw [show r.shmPtr = r.addr from hplace, ← hmap] at howned
    exact (Space.byte_of_map howned).symm
  · obtain ⟨c, hc, hlen, hcopy⟩ := h.copyOf_copied hr ⟨hlo, hhi⟩ hplace
    rw [hbyte _ (h.unshared hr hj)]
    apply hsync _ _ hr _ hj
    right
    exact ⟨c, hcs c hc, _, hcopy, by omega, by rw [hlen]; omega⟩

/-- **Outgoing coherence**: after every run of registrations, deregistrations, writes and sends that
keeps the MRs apart, a send of any list that fits the channel and whose elements lie inside live MRs
ends, and when it is handed over the router's piece of every element's key holds the application's
bytes.
Source: `cmd.c` `ibv_cmd_reg_mr`, `ibv_cmd_dereg_mr`, `ibv_cmd_post_send`
Kind: P -/
theorem coherent_of_apart (s t : State) (acts : List Act) (hs : Start s)
    (hap : Along step Apart s acts) (hrun : exec step s acts = some t) (qp : Qp)
    (ws : List SendWr) (m : Mem) (hfit : encodedSize qp ws ≤ ctrlReqSize)
    (hin : ∀ w ∈ ws, ∀ e ∈ w.sgList, ∃ r, t.live e.lkey = some r ∧ r.Inside e) :
    ∃ u, step t (.postSend qp ws m) = some u ∧ ∀ w ∈ ws, ∀ e ∈ w.sgList, Coherent u e := by
  have hinv : Inv t :=
    exec_invariant_along (fun _ _ _ h hap hstep => h.step hap hstep) hs.inv hap hrun
  have hkeys := hinv.isSome_of_inside hin
  have hcopies : ∀ c ∈ copiesOf t.lib.mapLkeyToMrShm ws, ∃ k r off, IsCopy t.live c k r off := by
    intro c hc
    obtain ⟨w, -, e, -, r, -, -, hcopy⟩ := hinv.isCopy_of_mem hin hc
    exact ⟨_, _, _, hcopy⟩
  obtain ⟨S, hS, hbyte, hsync⟩ := hinv.runCopies _ hcopies
  refine ⟨{ t with space := S }, ?_, fun w hw e he => ?_⟩
  · rw [step, postSend_eq m hkeys hfit, hS]
    rfl
  · obtain ⟨r, hr, hinside⟩ := hin w hw e he
    apply hinv.coherent hr hinside (map_of_runCopies hS) hbyte hsync
    intro c hc
    exact List.mem_flatMap.mpr ⟨w, hw, List.mem_filterMap.mpr ⟨e, he, hc⟩⟩

/-! Four pages of the application from `0x10000` on, all bytes one. -/

/-- Nothing is registered yet. Kind: D -/
def sampleState : State where
  space := ⟨fun x => if 0x10000 ≤ x ∧ x < 0x14000 then some ⟨0, x⟩ else none, fun _ => 1⟩
  nextObj := 1
  lib := ⟨7, fun _ => none⟩
  live := fun _ => none
  lkeyPtr := fun _ => none

/-- It is a start. Kind: L -/
lemma start_sampleState : Start sampleState where
  injective := by
    intro a b l ha hb
    simp only [sampleState, Option.ite_none_right_eq_some, Option.some.injEq] at ha hb
    obtain ⟨-, rfl⟩ := ha
    exact (Loc.mk.inj hb.2).2.symm
  old := by
    intro x l hl
    simp only [sampleState, Option.ite_none_right_eq_some, Option.some.injEq] at hl
    obtain ⟨-, rfl⟩ := hl
    exact Nat.zero_lt_one
  live := fun _ => rfl
  lib := fun _ => rfl

/-- A send of the byte at `addr` under the key `lkey`. Kind: D -/
def sendByte (addr : UInt64) (lkey : UInt32) : List SendWr :=
  [.ofParts WrOpcode.send.code 0 0 0 [⟨addr, 1, lkey⟩] (by simp)]

/-- The first page in place, and four bytes of it copied under another key. Kind: D -/
def sampleActs : List Act :=
  [.regMr 0x10000 8 1 (some 0x10000), .regMr 0x10004 4 2 (some 0x20000), .store 0x10004 [42]]

/-- Both MRs of the sample are coherent after the write. Kind: C -/
theorem coherent_two_mrs :
    ∃ t u, exec step sampleState sampleActs = some t ∧
      step t (.postSend ⟨3, .rc⟩ (sendByte 0x10004 1 ++ sendByte 0x10004 2) fun _ => 0) = some u ∧
      ∀ w ∈ sendByte 0x10004 1 ++ sendByte 0x10004 2, ∀ e ∈ w.sgList, Coherent u e := by
  let s₁ := sampleState.registered 0x10000 8 1 0x10000
  let s₂ := s₁.registered 0x10004 4 2 0x20000
  have hfirst : step sampleState (.regMr 0x10000 8 1 (some 0x10000)) = some s₁ :=
    regMr_eq_registered (by decide) (by decide) rfl (by decide) ⟨by decide, rfl⟩
  have hfree : s₁.space.Unmapped 0x20000 (pageRound 4) := by
    intro k _
    have hmap := map_registered sampleState 0x10000 8 1 0x10000
    have hpages : pageRound 8 = 4096 := rfl
    rw [hmap, Space.map_mmap_of_outside (Or.inr (by rw [hpages]; simp; omega))]
    simp only [sampleState]
    rw [if_neg (by omega)]
  have hsecond : step s₁ (.regMr 0x10004 4 2 (some 0x20000)) = some s₂ :=
    regMr_eq_registered (by decide) (by decide) rfl (by decide) ⟨by decide, by decide, hfree⟩
  have hthird : step s₂ (.store 0x10004 [42]) =
      some { s₂ with space := s₂.space.write 0x10004 [42] } := rfl
  have hrun : exec step sampleState sampleActs =
      some { s₂ with space := s₂.space.write 0x10004 [42] } :=
    (exec_cons_eq_some step).mpr ⟨s₁, hfirst, (exec_cons_eq_some step).mpr ⟨s₂, hsecond,
      (exec_cons_eq_some step).mpr ⟨_, hthird, rfl⟩⟩⟩
  have hap : Along step Apart sampleState sampleActs := by
    refine along_cons ⟨by decide, fun k r hr => absurd hr (by simp [sampleState])⟩ hfirst
      (along_cons ⟨by decide, fun k r hr => ?_⟩ hsecond (along_cons trivial hthird trivial))
    rw [if_neg (by decide)]
    intro hplace
    rcases live_insert (s := sampleState.openPiece 1 8) hr with ⟨-, rfl⟩ | ⟨-, hr⟩
    · exact absurd rfl hplace
    · exact absurd hr (by simp [sampleState, State.openPiece])
  obtain ⟨u, hu, hcoh⟩ := coherent_of_apart sampleState _ sampleActs start_sampleState hap hrun
    ⟨3, .rc⟩ (sendByte 0x10004 1 ++ sendByte 0x10004 2) (fun _ => 0) (by decide) (by
      simp only [sendByte, List.cons_append, List.nil_append, List.forall_mem_cons,
        SendWr.ofParts]
      exact ⟨⟨⟨_, rfl, by decide⟩, by simp⟩, ⟨⟨_, rfl, by decide⟩, by simp⟩, by simp⟩)
  exact ⟨_, u, hrun, hu, hcoh⟩

/-- **One page registered twice**: the first MR is live and the element lies inside it, the
application writes `42` there, and the piece of the first MR still holds `1`. Kind: C -/
theorem coherence_fails_same_page :
    ∃ t u, exec step sampleState
        [.regMr 0x10000 8 1 (some 0x10000), .regMr 0x10000 8 2 (some 0x10000),
          .store 0x10000 [42]] = some t ∧
      (∃ r, t.live 1 = some r ∧ r.Inside ⟨0x10000, 1, 1⟩) ∧
      step t (.postSend ⟨3, .rc⟩ (sendByte 0x10000 1) fun _ => 0) = some u ∧
      u.space.byte 0x10000 = 42 ∧ u.space.cell ⟨1, 0⟩ = 1 ∧ ¬ Coherent u ⟨0x10000, 1, 1⟩ := by
  refine ⟨_, _, rfl, ⟨_, rfl, by decide⟩, (postSend_eq _ (by decide) (by decide)).trans rfl, rfl,
    rfl, ?_⟩
  rintro ⟨r, p, hr, hp, -, hbytes⟩
  cases hr
  cases hp
  exact absurd (hbytes 0 (by decide)) (by decide)

end FreeFlow.Client.Regions
