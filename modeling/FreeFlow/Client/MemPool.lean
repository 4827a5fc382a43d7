import FreeFlow.Found.SlotPool
import FreeFlow.Found.Run
import FreeFlow.Client.PostSend

/-!
# The client's table of memory regions

`map_lkey_to_mrshm` is a `MemPool`: an unordered map from keys to slots of 32 bytes that come from a
`MemoryPool`. `ibv_cmd_reg_mr` and `ibv_cmd_reg_mr_ff` insert a slot and write the record of the MR
to it, every element of a post call looks its key up, and `ibv_cmd_dereg_mr` deletes the key.

A registration whose `mmap` fails prints a message, inserts nothing and returns 0. The test for a
failed `ftruncate` is `ret > 0`, which never holds.

* `MemPool`, `insert`, `get`, `del` — the map and the pool; `get` enters a null pointer for a key
  that is absent.
* `State`, `Act`, `step` — the calls, with every outcome of `shm_open`, `ftruncate` and `mmap`.
* `Held` — the slots of the keys are in use and different.
* `record_eq` — after every run the table, read through its pointers, has the records of the live
  MRs whose `mmap` worked, and no others: it is the table `Lib.mapLkeyToMrShm` that the post calls
  are modelled with.
* `get_resolves_iff` — so a key resolves exactly when the `mmap` of its registration worked.

Source: `libmempool.cpp`, `MemoryPool.tcc`; `cmd.c` `ibv_cmd_reg_mr`, `ibv_cmd_reg_mr_ff`,
`ibv_cmd_dereg_mr`.
-/

namespace FreeFlow.Client.MemPool

open FreeFlow.Found

/-! ## The pool -/

/-- `padPointer(p, align)`; the subtraction wraps around at a multiple of `align`.
Source: `MemoryPool.tcc`
Kind: D -/
def padPointer (p align : ℕ) : ℕ := (align - p % align) % align

/-- `MemoryPool<struct PlaceHolder>`: slots of 32 bytes, aligned to 8, in blocks of 4096000 whose
first 8 bytes point to the block before. Source: `MemoryPool.h`, `libmempool.h`. Kind: D -/
def sizes : SlotSizes where
  first b := b + 8 + padPointer (b + 8) 8
  slotSize := 32
  blockSize := 4096000
  slot_pos := by norm_num
  le_first b := by omega
  one_fits b := by
    have hpad : padPointer (b + 8) 8 < 8 := Nat.mod_lt _ (by norm_num)
    omega

/-- `class MemPool`: a key that is absent is `none`, a null pointer is `some 0`.
Source: `libmempool.h`
Kind: D -/
structure Pool where
  map : UInt32 → Option ℕ
  pool : SlotPool

/-- `m_map[key]`, as a value. Kind: D -/
def Pool.slot (m : Pool) (key : UInt32) : ℕ := (m.map key).getD 0

/-- `MemPool::insert`; `block` is what `operator new` returns if the pool needs a block.
Source: `libmempool.cpp`
Kind: D -/
def Pool.insert (m : Pool) (key : UInt32) (block : ℕ) : ℕ × Pool :=
  let (r, pool) := m.pool.allocate sizes block
  (r, { map := Function.update m.map key (some r), pool := pool })

/-- `MemPool::get`: `operator[]` enters a null pointer for an absent key.
Source: `libmempool.cpp`
Kind: D -/
def Pool.get (m : Pool) (key : UInt32) : ℕ × Pool :=
  (m.slot key, { m with map := Function.update m.map key (some (m.slot key)) })

/-- `MemPool::del`; a null pointer is not given back.
Source: `libmempool.cpp`, `MemoryPool.tcc` `deallocate`
Kind: D -/
def Pool.del (m : Pool) (key : UInt32) : Pool :=
  { map := Function.update m.map key none
    pool := if m.slot key = 0 then m.pool else m.pool.deallocate (m.slot key) }

/-! ## Calls -/

/-- The results of the three calls: whether `shm_open` and `ftruncate` worked, and the address that
`mmap` returned, if it did not fail. Kind: D -/
structure Calls where
  shmOpen : Bool
  ftruncate : Bool
  mmap : Option UInt64
  deriving DecidableEq, Repr

/-- `ret = ftruncate(...)`. Kind: D -/
def Calls.ret (c : Calls) : ℤ := if c.ftruncate then 0 else -1

/-- What the kernel guarantees: without a descriptor the other two calls fail. Kind: D -/
def Calls.Possible (c : Calls) : Prop :=
  c.shmOpen = false → c.ftruncate = false ∧ c.mmap = none

instance (c : Calls) : Decidable c.Possible := inferInstanceAs (Decidable (_ → _))

/-- An MR whose registration has returned 0 and that is not deregistered: the application's base
address, and the address of its shared memory, if that was mapped. Kind: D -/
structure Mr where
  addr : UInt64
  shmPtr : Option UInt64
  deriving DecidableEq, Repr

/-- The table, the contents of the slots, and the MRs. Kind: D -/
structure State where
  table : Pool
  record : ℕ → MrShm
  live : UInt32 → Option Mr

/-- The calls of the library: registrations in their two forms with the key the HCA chose, lookups
by the post calls, and deregistrations. Kind: D -/
inductive Act
  | regMr (addr : UInt64) (lkey : UInt32) (calls : Calls) (block : ℕ)
  | regMrFf (addr : UInt64) (lkey : UInt32) (calls : Calls) (block : ℕ)
  | lookup (lkey : UInt32)
  | deregMr (lkey : UInt32)
  deriving DecidableEq, Repr

/-- The end of a registration: `mempool_insert` and the two stores, unless `mmap` has failed or
`ret > 0`. `mr` is what is stored as the application's address when the shared memory is at a given
address; the call returns 0 in both cases.
Source: `cmd.c` `ibv_cmd_reg_mr`, `ibv_cmd_reg_mr_ff`
Kind: D -/
def State.register (s : State) (addr : UInt64) (mr : UInt64 → UInt64) (lkey : UInt32)
    (calls : Calls) (block : ℕ) : State :=
  match calls.mmap with
  | none => { s with live := Function.update s.live lkey (some ⟨addr, none⟩) }
  | some shmPtr =>
      if 0 < calls.ret then { s with live := Function.update s.live lkey (some ⟨addr, none⟩) }
      else
        let (p, table) := s.table.insert lkey block
        { table := table
          record := Function.update s.record p ⟨mr shmPtr, shmPtr⟩
          live := Function.update s.live lkey (some ⟨mr shmPtr, some shmPtr⟩) }

/-- **One call.** The HCA does not choose the key of a live MR, and `operator new` returns memory
that is free. `ibv_cmd_reg_mr_ff` makes the shared memory the application's buffer.
Source: `cmd.c` `ibv_cmd_reg_mr`, `ibv_cmd_reg_mr_ff`, `ibv_cmd_dereg_mr`, `ibv_cmd_post_send`
Kind: D -/
def step (s : State) : Act → Option State
  | .regMr addr lkey calls block => do
      guard (s.live lkey = none ∧ calls.Possible ∧ s.table.pool.Fresh sizes block)
      some (s.register addr (fun _ => addr) lkey calls block)
  | .regMrFf addr lkey calls block => do
      guard (s.live lkey = none ∧ calls.Possible ∧ s.table.pool.Fresh sizes block)
      some (s.register addr id lkey calls block)
  | .lookup lkey => some { s with table := (s.table.get lkey).2 }
  | .deregMr lkey => do
      guard ((s.live lkey).isSome = true)
      some { s with table := s.table.del lkey, live := Function.update s.live lkey none }

/-- `mempool_create()`, with whatever the memory of the slots holds. Kind: D -/
def State.start (record : ℕ → MrShm) : State :=
  ⟨⟨fun _ => none, .empty⟩, record, fun _ => none⟩

/-! ## The slots of the keys -/

/-- A key has the slot. Kind: D -/
def Pool.Holds (m : Pool) (s : ℕ) : Prop := ∃ key, m.map key = some s ∧ s ≠ 0

/-- **The slots of the keys** are in use, and every key has another one. Kind: D -/
structure Held (m : Pool) : Prop where
  sound : m.pool.Sound sizes m.Holds
  distinct : ∀ key key', m.slot key ≠ 0 → m.slot key = m.slot key' → key = key'

/-- The slot of a key is held. Kind: L -/
lemma Pool.holds_slot {m : Pool} {key : UInt32} (h : m.slot key ≠ 0) : m.Holds (m.slot key) := by
  unfold Pool.slot at h ⊢
  rcases hk : m.map key with _ | s
  · simp [hk] at h
  · rw [hk] at h
    exact ⟨key, hk, h⟩

/-- The slot of a key is the one it was looked up with. Kind: L -/
lemma Pool.slot_of_eq_some {m : Pool} {key : UInt32} {s : ℕ} (h : m.map key = some s) :
    m.slot key = s := by
  rw [Pool.slot, h, Option.getD_some]

/-- The slots after one entry of the map was changed. Kind: L -/
lemma Pool.slot_update (m : Pool) (pool : SlotPool) (key k : UInt32) (v : Option ℕ) :
    (Pool.mk (Function.update m.map key v) pool).slot k =
      if k = key then v.getD 0 else m.slot k := by
  unfold Pool.slot
  rcases eq_or_ne k key with rfl | hne
  · simp
  · simp [hne]

/-- **A lookup** changes no slot. Kind: P -/
lemma Pool.slot_get (m : Pool) (key k : UInt32) : (m.get key).2.slot k = m.slot k := by
  rw [Pool.get, Pool.slot_update]
  split
  case isTrue h => rw [h, Option.getD_some]
  case isFalse => rfl

/-- A lookup leaves the pool as it is. Kind: L -/
lemma Held.get {m : Pool} (h : Held m) (key : UInt32) : Held (m.get key).2 := by
  refine ⟨h.sound.mono ?_, fun k k' hne heq => ?_⟩
  · rintro s ⟨k, hk, hs⟩
    have hslot := Pool.slot_of_eq_some hk
    rw [Pool.slot_get] at hslot
    exact hslot ▸ Pool.holds_slot (hslot ▸ hs)
  · rw [Pool.slot_get] at hne
    rw [Pool.slot_get, Pool.slot_get] at heq
    exact h.distinct k k' hne heq

/-- **An insertion** gives the key a slot that no key has. Kind: P -/
lemma Held.insert {m : Pool} (h : Held m) (key : UInt32) {block : ℕ}
    (hfresh : m.pool.NeedsBlock → m.pool.Fresh sizes block) :
    Held (m.insert key block).2 ∧ (m.insert key block).1 ≠ 0 ∧
      (∀ k, m.slot k ≠ (m.insert key block).1) ∧
      ∀ k, (m.insert key block).2.slot k =
        if k = key then (m.insert key block).1 else m.slot k := by
  obtain ⟨hunused, hsound⟩ := h.sound.allocate hfresh
  have hne : (m.pool.allocate sizes block).1 ≠ 0 :=
    Nat.pos_iff_ne_zero.mp (hsound.pos (hsound.used_carved _ (.inr rfl)))
  have hother : ∀ k, m.slot k ≠ (m.pool.allocate sizes block).1 := by
    intro k hk
    exact hunused (hk ▸ Pool.holds_slot (hk ▸ hne))
  have hslot : ∀ k, (m.insert key block).2.slot k =
      if k = key then (m.insert key block).1 else m.slot k := fun k => by
    rw [Pool.insert, Pool.slot_update, Option.getD_some]
  refine ⟨⟨hsound.mono ?_, fun k k' hk heq => ?_⟩, hne, hother, hslot⟩
  · rintro s ⟨k, hk, hs⟩
    have hslotk := Pool.slot_of_eq_some hk
    rw [hslot] at hslotk
    split at hslotk
    case isTrue => exact .inr hslotk.symm
    case isFalse => exact .inl (hslotk ▸ Pool.holds_slot (hslotk ▸ hs))
  · rw [hslot] at hk
    rw [hslot, hslot] at heq
    split at heq
    case isTrue hkey =>
      split at heq
      case isTrue hkey' => rw [hkey, hkey']
      case isFalse => exact absurd heq.symm (hother k')
    case isFalse hkey =>
      rw [if_neg hkey] at hk
      split at heq
      case isTrue => exact absurd heq (hother k)
      case isFalse => exact h.distinct k k' hk heq

/-- **A deletion** gives back the slot of the key, if it has one. Kind: P -/
lemma Held.del {m : Pool} (h : Held m) (key : UInt32) :
    Held (m.del key) ∧ ∀ k, (m.del key).slot k = if k = key then 0 else m.slot k := by
  have hslot : ∀ k, (m.del key).slot k = if k = key then 0 else m.slot k := fun k => by
    rw [Pool.del, Pool.slot_update, Option.getD_none]
  -- what is held afterwards was held before, and is not the slot of the key
  have hheld : ∀ s, (m.del key).Holds s → m.Holds s ∧ s ≠ m.slot key := by
    rintro s ⟨k, hk, hs⟩
    have hslotk := Pool.slot_of_eq_some hk
    rw [hslot] at hslotk
    split at hslotk
    case isTrue => exact absurd hslotk.symm hs
    case isFalse hne =>
      refine ⟨hslotk ▸ Pool.holds_slot (hslotk ▸ hs), fun heq => hne ?_⟩
      exact h.distinct k key (hslotk ▸ hs) (hslotk.trans heq)
  refine ⟨⟨?_, fun k k' hk heq => ?_⟩, hslot⟩
  · by_cases hzero : m.slot key = 0
    · rw [Pool.del, if_pos hzero]
      exact h.sound.mono fun s hs => (hheld s hs).1
    · have hdealloc := h.sound.deallocate (Pool.holds_slot hzero)
      rw [Pool.del, if_neg hzero]
      exact hdealloc.mono hheld
  · rw [hslot] at hk
    rw [hslot, hslot] at heq
    by_cases hkey : k = key
    · simp [hkey] at hk
    · rw [if_neg hkey] at hk heq
      split at heq
      case isTrue => exact absurd heq hk
      case isFalse => exact h.distinct k k' hk heq

/-! ## The records -/

/-- The table, read through its pointers. Kind: D -/
def State.view (s : State) (lkey : UInt32) : Option MrShm :=
  if s.table.slot lkey = 0 then none else some (s.record (s.table.slot lkey))

/-- The record of an MR whose shared memory is mapped. Kind: D -/
def Mr.record (r : Mr) : Option MrShm := r.shmPtr.map fun p => ⟨r.addr, p⟩

/-- **What holds after every call**: keys have different slots, and the table has the records of the
MRs. Kind: D -/
structure Kept (s : State) : Prop where
  held : Held s.table
  view : ∀ lkey, s.view lkey = (s.live lkey).bind Mr.record

/-- A registration whose `mmap` has failed: nothing is entered under its key, and nothing was.
Kind: L -/
lemma Kept.unmapped {s : State} (h : Kept s) {lkey : UInt32} (hnew : s.live lkey = none)
    (addr : UInt64) :
    Kept { s with live := Function.update s.live lkey (some ⟨addr, none⟩) } := by
  refine ⟨h.held, fun k => (h.view k).trans ?_⟩
  rcases eq_or_ne k lkey with rfl | hne
  · simp [hnew, Mr.record]
  · simp [hne]

/-- A registration whose `mmap` has worked: its record is in a slot of its own. Kind: L -/
lemma Kept.mapped {s : State} (h : Kept s) {lkey : UInt32} {block : ℕ}
    (hfresh : s.table.pool.Fresh sizes block) (mr shmPtr : UInt64) :
    Kept
      { table := (s.table.insert lkey block).2
        record := Function.update s.record (s.table.insert lkey block).1 ⟨mr, shmPtr⟩
        live := Function.update s.live lkey (some ⟨mr, some shmPtr⟩) } := by
  obtain ⟨hheld, hne, hother, hslot⟩ := h.held.insert lkey fun _ => hfresh
  refine ⟨hheld, fun k => ?_⟩
  rcases eq_or_ne k lkey with rfl | hk
  · simp [State.view, hslot, hne, Mr.record]
  · have hview := h.view k
    simp only [State.view] at hview
    simp only [State.view, hslot, if_neg hk, Function.update_of_ne (hother k),
      Function.update_of_ne hk]
    exact hview

/-- Both forms of a registration. Kind: L -/
lemma Kept.register {s : State} (h : Kept s) {lkey : UInt32} (hnew : s.live lkey = none)
    {block : ℕ} (hfresh : s.table.pool.Fresh sizes block) (addr : UInt64) (mr : UInt64 → UInt64)
    (calls : Calls) : Kept (s.register addr mr lkey calls block) := by
  unfold State.register
  split
  case h_1 => exact h.unmapped hnew addr
  case h_2 shmPtr _ =>
    split
    case isTrue => exact h.unmapped hnew addr
    case isFalse => exact h.mapped hfresh (mr shmPtr) shmPtr

/-- **Every call** keeps the table. Kind: P -/
lemma kept_step {s s' : State} {a : Act} (h : Kept s) (hs : step s a = some s') : Kept s' := by
  cases a with
  | regMr addr lkey calls block =>
      simp only [step, Option.bind_eq_bind, Option.bind_eq_some_iff, Option.guard_eq_some',
        Option.some.injEq] at hs
      obtain ⟨-, ⟨hnew, -, hfresh⟩, rfl⟩ := hs
      exact h.register hnew hfresh addr _ calls
  | regMrFf addr lkey calls block =>
      simp only [step, Option.bind_eq_bind, Option.bind_eq_some_iff, Option.guard_eq_some',
        Option.some.injEq] at hs
      obtain ⟨-, ⟨hnew, -, hfresh⟩, rfl⟩ := hs
      exact h.register hnew hfresh addr _ calls
  | lookup lkey =>
      cases hs
      refine ⟨h.held.get lkey, fun k => ?_⟩
      rw [← h.view k, State.view, State.view, Pool.slot_get]
  | deregMr lkey =>
      simp only [step, Option.bind_eq_bind, Option.bind_eq_some_iff, Option.guard_eq_some',
        Option.some.injEq] at hs
      obtain ⟨-, -, rfl⟩ := hs
      obtain ⟨hheld, hslot⟩ := h.held.del lkey
      refine ⟨hheld, fun k => ?_⟩
      rcases eq_or_ne k lkey with rfl | hk
      · simp [State.view, hslot]
      · have hview := h.view k
        simp only [State.view] at hview
        simp only [State.view, hslot, if_neg hk, Function.update_of_ne hk]
        exact hview

/-- **Runs.** Kind: P -/
theorem kept_of_exec {record : ℕ → MrShm} {as : List Act} {s : State}
    (hrun : exec step (State.start record) as = some s) : Kept s := by
  have hstart : Kept (State.start record) := by
    refine ⟨⟨SlotPool.sound_empty.mono ?_, ?_⟩, fun k => ?_⟩
    · rintro t ⟨k, hk, -⟩
      cases hk
    · intro k k' hk
      exact absurd rfl hk
    · rfl
  exact exec_invariant (fun _ _ _ => kept_step) hstart hrun

/-- **The table of the post calls**: read through its pointers, it is the partial map from the keys
of the live MRs to their addresses, without those whose shared memory is not mapped. Kind: P -/
theorem record_eq {record : ℕ → MrShm} {as : List Act} {s : State}
    (hrun : exec step (State.start record) as = some s) (clientId : UInt32) (lkey : UInt32) :
    (Lib.mk clientId s.view).mapLkeyToMrShm lkey = (s.live lkey).bind Mr.record :=
  (kept_of_exec hrun).view lkey

/-- `mempool_get` returns a slot with the MR's application base and the base of its shared memory.
Kind: D -/
def Resolves (s : State) (lkey : UInt32) (r : Mr) : Prop :=
  ∃ shmPtr, r.shmPtr = some shmPtr ∧ (s.table.get lkey).1 ≠ 0 ∧
    s.record (s.table.get lkey).1 = ⟨r.addr, shmPtr⟩

/-- **Registered keys**: after any calls, and for every live MR whose registration has returned 0,
the key resolves exactly when `mmap` worked in the registration; otherwise the lookup returns a null
pointer. Kind: C -/
theorem get_resolves_iff {record : ℕ → MrShm} {as : List Act} {s : State}
    (hrun : exec step (State.start record) as = some s) {lkey : UInt32} {r : Mr}
    (hlive : s.live lkey = some r) :
    (Resolves s lkey r ↔ r.shmPtr.isSome = true) ∧
      (r.shmPtr = none → (s.table.get lkey).1 = 0) := by
  have hview := (kept_of_exec hrun).view lkey
  rw [hlive, Option.bind_some, Mr.record, State.view] at hview
  rcases hshm : r.shmPtr with _ | shmPtr
  · rw [hshm] at hview
    refine ⟨⟨fun ⟨p, hp, _⟩ => ?_, fun h => by cases h⟩, fun _ => ?_⟩
    · rw [hshm] at hp
      cases hp
    · by_contra hne
      have hslot : s.table.slot lkey ≠ 0 := hne
      rw [if_neg hslot] at hview
      cases hview
  · rw [hshm] at hview
    have hne : s.table.slot lkey ≠ 0 := fun h0 => by
      rw [if_pos h0] at hview
      cases hview
    rw [if_neg hne, Option.map_some, Option.some.injEq] at hview
    exact ⟨⟨fun _ => rfl, fun _ => ⟨shmPtr, hshm, hne, hview⟩⟩, fun h => by cases h⟩

/-- An MR at 0x1234 whose shared memory is mapped at 0x7000. Kind: C -/
theorem get_resolves_mapped :
    ∃ s, exec step (State.start fun _ => ⟨0, 0⟩)
        [.regMr 0x1234 5 ⟨true, true, some 0x7000⟩ 16] = some s ∧
      Resolves s 5 ⟨0x1234, some 0x7000⟩ :=
  ⟨_, rfl, (@get_resolves_iff (fun _ => ⟨0, 0⟩) [.regMr 0x1234 5 ⟨true, true, some 0x7000⟩ 16] _ rfl
    5 _ rfl).1.mpr rfl⟩

/-- **A registration whose `mmap` fails** returns 0 like any other, and its key gives a null
pointer, in both forms of the call and also when only `shm_open` was at fault. Kind: C -/
theorem registered_unresolved :
    ((exec step (State.start fun _ => ⟨0, 0⟩)
        [.regMr 0x1234 5 ⟨true, true, none⟩ 16, .regMrFf 0x1234 6 ⟨false, false, none⟩ 16]).map
      fun s => (s.live 5, (s.table.get 5).1, s.live 6, (s.table.get 6).1)) =
        some (some ⟨0x1234, none⟩, 0, some ⟨0x1234, none⟩, 0) := by
  decide

end FreeFlow.Client.MemPool
