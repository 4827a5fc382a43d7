import FreeFlow.Found.Links
import FreeFlow.Client.MemPool

/-!
# The client's table of memory regions as it lies in memory

`MemPool` maps keys to slots of 32 bytes. The slots come from a `MemoryPool`, which has nothing but
four pointers: the newest block, the next slot of it and where its slots end, and the first slot
that was given back. A slot that was given back holds in its first eight bytes the pointer to the
one given back before it, and a block the pointer to the block before it. Whoever holds a slot
writes to the same memory.

This is the code of which `MemPool.Pool` is the abstraction: there the slots that were given back
and the blocks are lists, and addresses are unbounded.

* `Table`, `insert`, `get`, `del` — the pointers and the memory; every pointer has 64 bits.
* `Act`, `step` — calls in any order and on any keys, and between them stores to the slots that are
  held and to memory that is not in a block.
* `Rep` — a table in memory and the abstract one it stands for.
* `Rep.insert`, `Rep.get`, `Rep.del`, `Rep.frame` — every call does what the abstract one does, and
  the stores of others do nothing to the table.
* `slots_of_exec` — so the slots of different keys are apart, inside blocks and not on the free
  list, and a key has the slot of its last insertion.
* `deleted_eq_blocks` — the destructor gives back every block once.

Source: `libmempool.cpp` `MemPool`; `MemoryPool.tcc`, `MemoryPool.h`.
-/

namespace FreeFlow.Client.SlotMemory

open FreeFlow.Found FreeFlow.Client.MemPool

/-! ## The pool and the map -/

/-- `class MemoryPool<struct PlaceHolder>`. Source: `MemoryPool.h`. Kind: D -/
structure MemoryPool where
  currentBlock : UInt64
  currentSlot : UInt64
  lastSlot : UInt64
  freeSlots : UInt64
  deriving DecidableEq, Repr

/-- `sizeof(slot_type_)`, of a union of 32 bytes and a pointer. Source: `MemoryPool.h`,
`libmempool.h`. Kind: D -/
def sizeofSlot : UInt64 := 32

/-- `BlockSize`. Source: `MemoryPool.h`. Kind: D -/
def blockSize : UInt64 := 4096000

/-- `class MemPool`, the memory, and the blocks that `operator new` has returned, the newest first.
Source: `libmempool.h`
Kind: D -/
structure Table where
  map : UInt32 → Option UInt64
  pool : MemoryPool
  mem : Mem
  blocks : List UInt64

/-- `padPointer(p, align)`. Source: `MemoryPool.tcc`. Kind: D -/
def padPointer (p align : UInt64) : UInt64 := (align - p) % align

/-- `allocateBlock()`, when `operator new` returns `newBlock`. Source: `MemoryPool.tcc`. Kind: D -/
def Table.allocateBlock (t : Table) (newBlock : UInt64) : Table :=
  let body := newBlock + 8
  { t with
    mem := t.mem.setU64 newBlock.toNat t.pool.currentBlock
    pool :=
      { t.pool with
        currentBlock := newBlock
        currentSlot := body + padPointer body 8
        lastSlot := newBlock + blockSize - sizeofSlot + 1 }
    blocks := newBlock :: t.blocks }

/-- `allocate()`. Source: `MemoryPool.tcc`. Kind: D -/
def Table.allocate (t : Table) (newBlock : UInt64) : UInt64 × Table :=
  if t.pool.freeSlots ≠ 0 then
    (t.pool.freeSlots,
      { t with pool := { t.pool with freeSlots := t.mem.u64 t.pool.freeSlots.toNat } })
  else
    let t := if t.pool.currentSlot ≥ t.pool.lastSlot then t.allocateBlock newBlock else t
    (t.pool.currentSlot,
      { t with pool := { t.pool with currentSlot := t.pool.currentSlot + sizeofSlot } })

/-- `deallocate(p)`. Source: `MemoryPool.tcc`. Kind: D -/
def Table.deallocate (t : Table) (p : UInt64) : Table :=
  if p ≠ 0 then
    { t with
      mem := t.mem.setU64 p.toNat t.pool.freeSlots
      pool := { t.pool with freeSlots := p } }
  else t

/-- `m_map[key]`, as a value. Kind: D -/
def Table.slot (t : Table) (key : UInt32) : UInt64 := (t.map key).getD 0

/-- `MemPool::insert`. Source: `libmempool.cpp`. Kind: D -/
def Table.insert (t : Table) (key : UInt32) (newBlock : UInt64) : UInt64 × Table :=
  let (r, t) := t.allocate newBlock
  (r, { t with map := Function.update t.map key (some r) })

/-- `MemPool::get`: `operator[]` enters a null pointer for an absent key. Source: `libmempool.cpp`.
Kind: D -/
def Table.get (t : Table) (key : UInt32) : UInt64 × Table :=
  (t.slot key, { t with map := Function.update t.map key (some (t.slot key)) })

/-- `MemPool::del`. Source: `libmempool.cpp`. Kind: D -/
def Table.del (t : Table) (key : UInt32) : Table :=
  let t' := t.deallocate (t.slot key)
  { t' with map := Function.update t'.map key none }

/-- `mempool_create()`, in a memory with any contents. Kind: D -/
def Table.start (mem : Mem) : Table := ⟨fun _ => none, ⟨0, 0, 0, 0⟩, mem, []⟩

/-! ## Runs -/

/-- `allocate` calls `allocateBlock`. Kind: D -/
def Table.NeedsBlock (t : Table) : Prop :=
  t.pool.freeSlots = 0 ∧ t.pool.lastSlot ≤ t.pool.currentSlot

instance (t : Table) : Decidable t.NeedsBlock := inferInstanceAs (Decidable (_ ∧ _))

/-- No byte from `lo` up to `hi` is in a block. Kind: D -/
def Table.Outside (t : Table) (lo hi : ℕ) : Prop :=
  ∀ b ∈ t.blocks, hi ≤ b.toNat ∨ b.toNat + blockSize.toNat ≤ lo

-- by going over the blocks, not over all pointers
instance (t : Table) (lo hi : ℕ) : Decidable (t.Outside lo hi) := List.decidableBAll _ t.blocks

/-- What `operator new` guarantees: memory that is not null, does not reach the end of the address
space, and has nothing in common with the blocks it has returned before. Kind: D -/
def Table.Fresh (t : Table) (b : UInt64) : Prop :=
  b ≠ 0 ∧ b.toNat + blockSize.toNat < 2 ^ 64 ∧ t.Outside b.toNat (b.toNat + blockSize.toNat)

instance (t : Table) (b : UInt64) : Decidable (t.Fresh b) :=
  inferInstanceAs (Decidable (_ ∧ _ ∧ _))

/-- A call; a store of a byte to the slot of a key by whoever holds it; a store of a byte to memory
that is not in a block. Kind: D -/
inductive Act
  | insert (key : UInt32) (newBlock : UInt64)
  | get (key : UInt32)
  | del (key : UInt32)
  | store (key : UInt32) (i : ℕ) (v : UInt8)
  | elsewhere (a : ℕ) (v : UInt8)
  deriving DecidableEq, Repr

/-- **One step.** `newBlock` is of interest only if a block is needed. Kind: D -/
def step (t : Table) : Act → Option Table
  | .insert key newBlock => do
      guard (t.NeedsBlock → t.Fresh newBlock)
      some (t.insert key newBlock).2
  | .get key => some (t.get key).2
  | .del key => some (t.del key)
  | .store key i v => do
      guard (t.slot key ≠ 0 ∧ i < sizeofSlot.toNat)
      some { t with mem := t.mem.write ((t.slot key).toNat + i) [v] }
  | .elsewhere a v => do
      guard (t.Outside a (a + 1))
      some { t with mem := t.mem.write a [v] }

section Steps

variable {t t' : Table} {key : UInt32} {v : UInt8}

/-- An insertion. Kind: L -/
lemma step_insert {b : UInt64} :
    step t (.insert key b) = some t' ↔ (t.NeedsBlock → t.Fresh b) ∧ (t.insert key b).2 = t' := by
  simp only [step, Option.bind_eq_bind, Option.bind_eq_some_iff, Option.guard_eq_some',
    Option.some.injEq, exists_const]

/-- A store to a slot. Kind: L -/
lemma step_store {i : ℕ} :
    step t (.store key i v) = some t' ↔ (t.slot key ≠ 0 ∧ i < sizeofSlot.toNat) ∧
      { t with mem := t.mem.write ((t.slot key).toNat + i) [v] } = t' := by
  simp only [step, Option.bind_eq_bind, Option.bind_eq_some_iff, Option.guard_eq_some',
    Option.some.injEq, exists_const]

/-- A store elsewhere. Kind: L -/
lemma step_elsewhere {a : ℕ} :
    step t (.elsewhere a v) = some t' ↔
      t.Outside a (a + 1) ∧ { t with mem := t.mem.write a [v] } = t' := by
  simp only [step, Option.bind_eq_bind, Option.bind_eq_some_iff, Option.guard_eq_some',
    Option.some.injEq, exists_const]

end Steps

/-! ## The abstract table -/

/-- **The abstraction**: `a` has the entries, pointers and blocks of `t`, and as free slots those
that are threaded through the memory; the blocks are threaded through it as well. Kind: D -/
structure Rep (t : Table) (a : Pool) : Prop where
  map : ∀ key, a.map key = (t.map key).map UInt64.toNat
  currentSlot : a.pool.currentSlot = t.pool.currentSlot.toNat
  lastSlot : a.pool.lastSlot = t.pool.lastSlot.toNat
  blocks : a.pool.blocks = t.blocks.map UInt64.toNat
  free : ∃ free, t.mem.Threaded t.pool.freeSlots free ∧ a.pool.freeSlots = free.map UInt64.toNat
  chain : t.mem.Threaded t.pool.currentBlock t.blocks
  bounded : ∀ b ∈ t.blocks, b.toNat + blockSize.toNat < 2 ^ 64

/-! ## The bytes of the pool -/

@[simp] lemma toNat_sizeofSlot : sizeofSlot.toNat = 32 := rfl

@[simp] lemma toNat_blockSize : blockSize.toNat = 4096000 := rfl

@[simp] lemma slotSize_sizes : sizes.slotSize = 32 := rfl

@[simp] lemma blockSize_sizes : sizes.blockSize = 4096000 := rfl

/-- The first slot of a block is behind the pointer in it. Kind: L -/
lemma add_eight_le_first (b : ℕ) : b + 8 ≤ sizes.first b := by
  change b + 8 ≤ b + 8 + _
  omega

/-- The bytes in which the pool keeps its pointers: those of the blocks and of the free slots.
Kind: D -/
def Own (p : SlotPool) (x : ℕ) : Prop :=
  (∃ b ∈ p.blocks, b ≤ x ∧ x < b + 8) ∨ ∃ s ∈ p.freeSlots, s ≤ x ∧ x < s + 8

/-- A slot that was cut is in a block, behind its pointer, and away from the other pointers.
Kind: L -/
lemma apart_of_carved {p : SlotPool} {used : ℕ → Prop} (h : p.Sound sizes used) {s b : ℕ}
    (hs : p.Carved sizes s) (hb : b ∈ p.blocks) : b + 8 ≤ s ∨ s + 32 ≤ b := by
  obtain ⟨b', hb', ⟨k, hk⟩, hfits, -⟩ := hs
  have hfirst := add_eight_le_first b'
  by_cases hsame : b = b'
  · subst hsame
    exact .inl (by omega)
  · have hapart := h.apart_of_ne hb hb' hsame
    simp only [SlotPool.Apart, blockSize_sizes, slotSize_sizes] at hapart hfits
    omega

/-- A slot that is held has no byte of the pool. Kind: L -/
lemma not_own_of_holds {a : Pool} (h : Held a) {s x : ℕ} (hs : a.Holds s) (hlo : s ≤ x)
    (hhi : x < s + 32) : ¬ Own a.pool x := by
  have hcarved := h.sound.used_carved s hs
  rintro (⟨b, hb, hblo, hbhi⟩ | ⟨f, hf, hflo, hfhi⟩)
  · rcases apart_of_carved h.sound hcarved hb with hle | hle <;> omega
  · have hne : s ≠ f := fun heq => h.sound.free_unused f hf (heq ▸ hs)
    rcases h.sound.slots_apart hcarved (h.sound.free_carved f hf) hne with hle | hle <;>
      rw [slotSize_sizes] at hle <;> omega

/-- Memory that is not in a block has no byte of the pool. Kind: L -/
lemma not_own_of_outside {a : Pool} (h : Held a) {x : ℕ}
    (hout : ∀ b ∈ a.pool.blocks, x < b ∨ b + 4096000 ≤ x) : ¬ Own a.pool x := by
  rintro (⟨b, hb, hblo, hbhi⟩ | ⟨f, hf, hflo, hfhi⟩)
  · rcases hout b hb with hlt | hle <;> omega
  · obtain ⟨b, hb, ⟨k, hk⟩, hfits, -⟩ := h.sound.free_carved f hf
    have hfirst := add_eight_le_first b
    rw [slotSize_sizes, blockSize_sizes] at hfits
    rcases hout b hb with hlt | hle <;> omega

/-! ## Every call does what the abstract one does -/

section Calls

variable {t : Table} {a : Pool}

/-- The slot of a key. Kind: L -/
lemma Rep.slot (h : Rep t a) (key : UInt32) : a.slot key = (t.slot key).toNat := by
  rw [Pool.slot, Table.slot, h.map]
  cases t.map key <;> rfl

/-- A key has a slot in both. Kind: L -/
lemma Rep.slot_ne_zero_iff (h : Rep t a) (key : UInt32) : a.slot key ≠ 0 ↔ t.slot key ≠ 0 := by
  rw [h.slot, Ne, Ne, ← UInt64.toNat_inj]
  rfl

/-- **Stores of others** to bytes that are not of the pool. Kind: P -/
lemma Rep.frame (h : Rep t a) {m : Mem} (hsame : ∀ x, Own a.pool x → m x = t.mem x) :
    Rep { t with mem := m } a := by
  obtain ⟨free, hthread, hfree⟩ := h.free
  refine ⟨h.map, h.currentSlot, h.lastSlot, h.blocks, ⟨free, ?_, hfree⟩, ?_, h.bounded⟩
  · refine hthread.frame fun s hs x hlo hhi => hsame x (.inr ⟨s.toNat, ?_, hlo, hhi⟩)
    rw [hfree]
    exact List.mem_map_of_mem hs
  · refine h.chain.frame fun b hb x hlo hhi => hsame x (.inl ⟨b.toNat, ?_, hlo, hhi⟩)
    rw [h.blocks]
    exact List.mem_map_of_mem hb

/-- The pool needs a block in both. Kind: L -/
lemma Rep.needsBlock_iff (h : Rep t a) : a.pool.NeedsBlock ↔ t.NeedsBlock := by
  obtain ⟨free, hthread, hfree⟩ := h.free
  rw [SlotPool.NeedsBlock, Table.NeedsBlock, hthread.head_eq_zero_iff, hfree, h.lastSlot,
    h.currentSlot, UInt64.le_iff_toNat_le, List.map_eq_nil_iff]

/-- What `operator new` returns is fresh in both. Kind: L -/
lemma Rep.fresh (h : Rep t a) {b : UInt64} (hb : t.Fresh b) : a.pool.Fresh sizes b.toNat := by
  refine ⟨?_, fun b' hb' => ?_⟩
  · exact Nat.pos_of_ne_zero fun h0 => hb.1 (UInt64.toNat_inj.mp h0)
  · rw [h.blocks] at hb'
    obtain ⟨c, hc, rfl⟩ := List.mem_map.mp hb'
    exact hb.2.2 c hc

/-- The first slot of a block. Kind: L -/
lemma toNat_first {b : UInt64} (hb : b.toNat + blockSize.toNat < 2 ^ 64) :
    (b + 8 + padPointer (b + 8) 8).toNat = sizes.first b.toNat := by
  rw [toNat_blockSize] at hb
  have hbody : (b + 8).toNat = b.toNat + 8 := by
    rw [UInt64.toNat_add]
    exact Nat.mod_eq_of_lt (by simp; omega)
  have hpad : (padPointer (b + 8) 8).toNat = MemPool.padPointer (b.toNat + 8) 8 := by
    have hlt := (b + 8).toNat_lt
    rw [padPointer, UInt64.toNat_mod, UInt64.toNat_sub, MemPool.padPointer, hbody]
    change (2 ^ 64 - (b.toNat + 8) + 8) % 2 ^ 64 % 8 = _
    omega
  have hle : MemPool.padPointer (b.toNat + 8) 8 < 8 := Nat.mod_lt _ (by norm_num)
  rw [UInt64.toNat_add, hbody, hpad]
  exact Nat.mod_eq_of_lt (by omega)

/-- Where the slots of a block end. Kind: L -/
lemma toNat_last {b : UInt64} (hb : b.toNat + blockSize.toNat < 2 ^ 64) :
    (b + blockSize - sizeofSlot + 1).toNat =
      b.toNat + sizes.blockSize - sizes.slotSize + 1 := by
  rw [toNat_blockSize] at hb
  rw [UInt64.toNat_add, UInt64.toNat_sub, UInt64.toNat_add, toNat_blockSize, toNat_sizeofSlot,
    slotSize_sizes, blockSize_sizes]
  change ((2 ^ 64 - 32 + (b.toNat + 4096000) % 2 ^ 64) % 2 ^ 64 + 1) % 2 ^ 64 = _
  omega

/-- A new block, when there is no free slot. Kind: L -/
lemma Rep.allocateBlock (h : Rep t a) {b : UInt64} (hfree : t.pool.freeSlots = 0)
    (hb : t.Fresh b) :
    Rep (t.allocateBlock b) { a with pool := a.pool.addBlock sizes b.toNat } := by
  obtain ⟨free, hthread, hlist⟩ := h.free
  obtain rfl : free = [] := hthread.head_eq_zero_iff.mp hfree
  refine ⟨h.map, (toNat_first hb.2.1).symm, (toNat_last hb.2.1).symm, ?_, ⟨[], hfree, hlist⟩, ?_,
    ?_⟩
  · simp only [SlotPool.addBlock, Table.allocateBlock, h.blocks, List.map_cons]
  · refine h.chain.push hb.1 fun b' hb' => ?_
    have hapart := hb.2.2 b' hb'
    rw [toNat_blockSize] at hapart
    omega
  · intro b' hb'
    rcases List.mem_cons.mp hb' with rfl | hb'
    · exact hb.2.1
    · exact h.bounded b' hb'

/-- The next slot, when there is one. Kind: L -/
lemma Rep.bump (h : Rep t a) {used : ℕ → Prop} (hsound : a.pool.Sound sizes used)
    (hroom : a.pool.currentSlot < a.pool.lastSlot) :
    Rep { t with pool := { t.pool with currentSlot := t.pool.currentSlot + sizeofSlot } }
      { a with pool :=
        { a.pool with currentSlot := a.pool.currentSlot + sizes.slotSize } } := by
  refine ⟨h.map, ?_, h.lastSlot, h.blocks, h.free, h.chain, h.bounded⟩
  obtain ⟨b, hhead, -, hlast⟩ := hsound.current hroom
  have hmem := List.mem_of_mem_head? hhead
  rw [h.blocks] at hmem
  obtain ⟨c, hc, rfl⟩ := List.mem_map.mp hmem
  have hbound := h.bounded c hc
  rw [toNat_blockSize] at hbound
  rw [slotSize_sizes, blockSize_sizes] at hlast
  have hcurrent := h.currentSlot
  simp only [UInt64.toNat_add, toNat_sizeofSlot, slotSize_sizes]
  omega

/-- **A slot is handed out.** Kind: P -/
lemma Rep.allocate (h : Rep t a) (hheld : Held a) {b : UInt64}
    (hb : t.NeedsBlock → t.Fresh b) :
    (a.pool.allocate sizes b.toNat).1 = (t.allocate b).1.toNat ∧
      Rep (t.allocate b).2 { a with pool := (a.pool.allocate sizes b.toNat).2 } := by
  obtain ⟨free, hthread, hlist⟩ := h.free
  unfold SlotPool.allocate Table.allocate
  cases free with
  | cons s rest =>
      -- the first free slot, whose pointer is the rest of the list
      obtain ⟨hs, hne, hrest⟩ := hthread
      simp only [hlist, List.map_cons, hs, if_pos hne]
      exact ⟨trivial, h.map, h.currentSlot, h.lastSlot, h.blocks, ⟨rest, hrest, rfl⟩, h.chain,
        h.bounded⟩
  | nil =>
      have hzero : t.pool.freeSlots = 0 := hthread
      simp only [hlist, List.map_nil, hzero, ne_eq, not_true_eq_false, if_false, h.lastSlot,
        h.currentSlot, ← UInt64.le_iff_toNat_le, ge_iff_le]
      by_cases hfull : t.pool.lastSlot ≤ t.pool.currentSlot
      · have hfresh := hb ⟨hzero, hfull⟩
        have hrep := h.allocateBlock hzero hfresh
        have hsound := hheld.sound.addBlock (h.fresh hfresh)
        have hroom : (a.pool.addBlock sizes b.toNat).currentSlot <
            (a.pool.addBlock sizes b.toNat).lastSlot := by
          have hfits := sizes.one_fits b.toNat
          simp only [SlotPool.addBlock]
          omega
        simp only [if_pos hfull]
        exact ⟨hrep.currentSlot, hrep.bump hsound hroom⟩
      · have hroom : a.pool.currentSlot < a.pool.lastSlot := by
          rw [h.currentSlot, h.lastSlot, ← UInt64.lt_iff_toNat_lt]
          exact UInt64.not_le.mp hfull
        simp only [if_neg hfull]
        exact ⟨h.currentSlot, h.bump hheld.sound hroom⟩

/-- The map has nothing to do with it. Kind: L -/
lemma map_allocate (t : Table) (b : UInt64) : (t.allocate b).2.map = t.map := by
  unfold Table.allocate
  split
  · rfl
  · simp only
    split <;> rfl

/-- The entries stay alike when one of them is changed in both. Kind: L -/
lemma Rep.map_update (h : Rep t a) (key : UInt32) (v : Option UInt64) (k : UInt32) :
    Function.update a.map key (v.map UInt64.toNat) k =
      (Function.update t.map key v k).map UInt64.toNat := by
  rcases eq_or_ne k key with rfl | hne
  · simp
  · simp [hne, h.map k]

/-- **`insert`.** Kind: P -/
lemma Rep.insert (h : Rep t a) (hheld : Held a) (key : UInt32) {b : UInt64}
    (hb : t.NeedsBlock → t.Fresh b) :
    (a.insert key b.toNat).1 = (t.insert key b).1.toNat ∧
      Rep (t.insert key b).2 (a.insert key b.toNat).2 := by
  obtain ⟨hslot, hrep⟩ := h.allocate hheld hb
  refine ⟨hslot, fun k => ?_, hrep.currentSlot, hrep.lastSlot, hrep.blocks, hrep.free, hrep.chain,
    hrep.bounded⟩
  simp only [Pool.insert, Table.insert, map_allocate, hslot]
  exact h.map_update key (some (t.allocate b).1) k

/-- **`get`.** Kind: P -/
lemma Rep.get (h : Rep t a) (key : UInt32) : Rep (t.get key).2 (a.get key).2 := by
  refine ⟨fun k => ?_, h.currentSlot, h.lastSlot, h.blocks, h.free, h.chain, h.bounded⟩
  simp only [Pool.get, Table.get, h.slot key]
  exact h.map_update key (some (t.slot key)) k

/-- A slot that is held is given back: the pointer in it is not in a byte of the pool. Kind: L -/
lemma Rep.deallocate (h : Rep t a) (hheld : Held a) {p : UInt64} (hp : p ≠ 0)
    (hholds : a.Holds p.toNat) :
    Rep (t.deallocate p) { a with pool := a.pool.deallocate p.toNat } := by
  obtain ⟨free, hthread, hlist⟩ := h.free
  have hcarved := hheld.sound.used_carved _ hholds
  rw [Table.deallocate, if_pos hp]
  refine ⟨h.map, h.currentSlot, h.lastSlot, h.blocks, ⟨p :: free, ?_, ?_⟩, ?_, h.bounded⟩
  · refine hthread.push hp fun f hf => ?_
    have hmem : f.toNat ∈ a.pool.freeSlots := hlist ▸ List.mem_map_of_mem hf
    have hne : p.toNat ≠ f.toNat := fun heq =>
      hheld.sound.free_unused _ hmem (heq ▸ hholds)
    have hapart := hheld.sound.slots_apart hcarved (hheld.sound.free_carved _ hmem) hne
    rw [slotSize_sizes] at hapart
    omega
  · simp only [SlotPool.deallocate, hlist, List.map_cons]
  · refine h.chain.frame fun b hb x hlo hhi => Mem.setU64_apply_of_outside ?_
    have hmem : b.toNat ∈ a.pool.blocks := h.blocks ▸ List.mem_map_of_mem hb
    have hapart := apart_of_carved hheld.sound hcarved hmem
    omega

/-- **`del`.** Kind: P -/
lemma Rep.del (h : Rep t a) (hheld : Held a) (key : UInt32) : Rep (t.del key) (a.del key) := by
  by_cases hzero : t.slot key = 0
  · have hslot : a.slot key = 0 := by rw [h.slot, hzero]; rfl
    have hsame : t.deallocate (t.slot key) = t := by rw [Table.deallocate, if_neg (by simp [hzero])]
    rw [Table.del, hsame, Pool.del, if_pos hslot]
    exact ⟨h.map_update key none, h.currentSlot, h.lastSlot, h.blocks, h.free, h.chain,
      h.bounded⟩
  · have hslot : a.slot key ≠ 0 := (h.slot_ne_zero_iff key).mpr hzero
    have hholds : a.Holds (t.slot key).toNat := h.slot key ▸ Pool.holds_slot hslot
    have hrep := h.deallocate hheld hzero hholds
    rw [Pool.del, if_neg hslot, h.slot key]
    exact ⟨hrep.map_update key none, hrep.currentSlot, hrep.lastSlot, hrep.blocks, hrep.free,
      hrep.chain, hrep.bounded⟩

end Calls

/-! ## What holds after every run -/

/-- The table stands for an abstract one in which the slots of the keys are in use and different.
Kind: D -/
def Inv (t : Table) : Prop := ∃ a, Rep t a ∧ Held a

/-- A byte is written that is not of the pool. Kind: L -/
lemma Rep.write {t : Table} {a : Pool} (h : Rep t a) {x : ℕ} (v : UInt8)
    (hx : ¬ Own a.pool x) : Rep { t with mem := t.mem.write x [v] } a := by
  refine h.frame fun y hy => Mem.write_apply_of_outside ?_
  have hne : y ≠ x := fun heq => hx (heq ▸ hy)
  simp only [List.length_singleton]
  omega

/-- **Every step** keeps it. Kind: P -/
lemma Inv.step {t t' : Table} {act : Act} (h : Inv t) (hs : step t act = some t') : Inv t' := by
  obtain ⟨a, hrep, hheld⟩ := h
  cases act with
  | insert key newBlock =>
      obtain ⟨hfresh, rfl⟩ := step_insert.mp hs
      have hfresh' : a.pool.NeedsBlock → a.pool.Fresh sizes newBlock.toNat := fun hneeds =>
        hrep.fresh (hfresh (hrep.needsBlock_iff.mp hneeds))
      exact ⟨_, (hrep.insert hheld key hfresh).2, (hheld.insert key hfresh').1⟩
  | get key =>
      cases hs
      exact ⟨_, hrep.get key, hheld.get key⟩
  | del key =>
      cases hs
      exact ⟨_, hrep.del hheld key, (hheld.del key).1⟩
  | store key i v =>
      obtain ⟨⟨hne, hi⟩, rfl⟩ := step_store.mp hs
      have hholds := Pool.holds_slot ((hrep.slot_ne_zero_iff key).mpr hne)
      rw [hrep.slot key] at hholds
      rw [toNat_sizeofSlot] at hi
      exact ⟨a, hrep.write v (not_own_of_holds hheld hholds (by omega) (by omega)), hheld⟩
  | elsewhere x v =>
      obtain ⟨hout, rfl⟩ := step_elsewhere.mp hs
      refine ⟨a, hrep.write v (not_own_of_outside hheld fun b hb => ?_), hheld⟩
      rw [hrep.blocks] at hb
      obtain ⟨c, hc, rfl⟩ := List.mem_map.mp hb
      exact hout c hc

/-- An empty table. Kind: L -/
lemma inv_start (mem : Mem) : Inv (Table.start mem) := by
  refine ⟨⟨fun _ => none, .empty⟩, ⟨fun _ => rfl, rfl, rfl, rfl, ⟨[], rfl, rfl⟩, rfl, ?_⟩, ?_⟩
  · intro b hb
    cases hb
  · refine ⟨SlotPool.sound_empty.mono ?_, fun key key' hne => absurd rfl hne⟩
    rintro s ⟨key, hkey, -⟩
    cases hkey

/-- **Runs.** Kind: P -/
theorem inv_of_exec {mem : Mem} {as : List Act} {t : Table}
    (hrun : exec step (Table.start mem) as = some t) : Inv t :=
  exec_invariant (fun _ _ _ => Inv.step) (inv_start mem) hrun

/-- **What the slots are for**, when `free` are the slots on the free list: the slots of different
keys are different and do not overlap, they are not on the free list and inside blocks, and the free
list has no slot twice. Kind: D -/
structure SlotsApart (t : Table) (free : List UInt64) : Prop where
  threaded : t.mem.Threaded t.pool.freeSlots free
  nodup : free.Nodup
  not_free : ∀ key, t.slot key ≠ 0 → t.slot key ∉ free
  inside : ∀ key, t.slot key ≠ 0 → ∃ b ∈ t.blocks, b.toNat ≤ (t.slot key).toNat ∧
    (t.slot key).toNat + sizeofSlot.toNat ≤ b.toNat + blockSize.toNat
  apart : ∀ key key', key ≠ key' → t.slot key ≠ 0 → t.slot key' ≠ 0 →
    t.slot key ≠ t.slot key' ∧
      ((t.slot key).toNat + sizeofSlot.toNat ≤ (t.slot key').toNat ∨
        (t.slot key').toNat + sizeofSlot.toNat ≤ (t.slot key).toNat)

/-- It follows from the abstract table. Kind: L -/
lemma Inv.slotsApart {t : Table} (h : Inv t) : ∃! free, SlotsApart t free := by
  obtain ⟨a, hrep, hheld⟩ := h
  obtain ⟨free, hthread, hlist⟩ := hrep.free
  have hholds : ∀ key, t.slot key ≠ 0 → a.Holds (t.slot key).toNat := fun key hne =>
    hrep.slot key ▸ Pool.holds_slot ((hrep.slot_ne_zero_iff key).mpr hne)
  have hcarved : ∀ key, t.slot key ≠ 0 → a.pool.Carved sizes (t.slot key).toNat := fun key hne =>
    hheld.sound.used_carved _ (hholds key hne)
  refine ⟨free, ⟨hthread, ?_, fun key hne hmem => ?_, fun key hne => ?_, ?_⟩,
    fun free' h' => h'.threaded.unique hthread⟩
  · have hnodup := hheld.sound.free_nodup
    rw [hlist] at hnodup
    exact hnodup.of_map
  · have hfree : (t.slot key).toNat ∈ a.pool.freeSlots := hlist ▸ List.mem_map_of_mem hmem
    exact hheld.sound.free_unused _ hfree (hholds key hne)
  · obtain ⟨b, hb, ⟨k, hk⟩, hfits, -⟩ := hcarved key hne
    have hfirst := sizes.le_first b
    rw [hrep.blocks] at hb
    obtain ⟨c, hc, rfl⟩ := List.mem_map.mp hb
    exact ⟨c, hc, by omega, hfits⟩
  · intro key key' hkey hne hne'
    have hdiff : t.slot key ≠ t.slot key' := by
      intro heq
      refine hkey (hheld.distinct key key' ((hrep.slot_ne_zero_iff key).mpr hne) ?_)
      rw [hrep.slot, hrep.slot, heq]
    refine ⟨hdiff, hheld.sound.slots_apart (hcarved key hne) (hcarved key' hne') fun heq => ?_⟩
    exact hdiff (UInt64.toNat_inj.mp heq)

/-! ## The slot of a key -/

/-- A step that neither inserts nor deletes the key. Kind: D -/
def Act.Keeps (key : UInt32) : Act → Prop
  | insert k _ => k ≠ key
  | del k => k ≠ key
  | get _ | store .. | elsewhere .. => True

/-- Such a step leaves the slot of the key. Kind: L -/
lemma slot_of_step {t t' : Table} {act : Act} {key : UInt32} (hkeeps : act.Keeps key)
    (hs : step t act = some t') : t'.slot key = t.slot key := by
  cases act with
  | insert k newBlock =>
      obtain ⟨-, rfl⟩ := step_insert.mp hs
      simp only [Table.slot, Table.insert, map_allocate, Function.update_of_ne (Ne.symm hkeeps)]
  | get k =>
      cases hs
      rcases eq_or_ne key k with rfl | hne
      · simp [Table.slot, Table.get]
      · simp [Table.slot, Table.get, hne]
  | del k =>
      cases hs
      have hmap : (t.deallocate (t.slot k)).map = t.map := by
        unfold Table.deallocate
        split <;> rfl
      simp only [Table.slot, Table.del] at hmap ⊢
      rw [Function.update_of_ne (Ne.symm hkeeps), hmap]
  | store k i v =>
      obtain ⟨-, rfl⟩ := step_store.mp hs
      rfl
  | elsewhere x v =>
      obtain ⟨-, rfl⟩ := step_elsewhere.mp hs
      rfl

/-- And so do any number of them. Kind: L -/
lemma slot_of_exec {t t' : Table} {as : List Act} {key : UInt32}
    (hkeeps : ∀ act ∈ as, act.Keeps key) (hrun : exec step t as = some t') :
    t'.slot key = t.slot key := by
  induction as generalizing t with
  | nil =>
      cases hrun
      rfl
  | cons act as ih =>
      obtain ⟨s, hs, hrest⟩ := (exec_cons_eq_some step).mp hrun
      rw [ih (fun b hb => hkeeps b (by simp [hb])) hrest]
      exact slot_of_step (hkeeps act (by simp)) hs

/-- **The slots of the keys**: after every run of calls on any keys, with stores to the slots
between them, there is one free list, and the slots are apart from it and from each other; and a key
that was inserted and since then neither inserted again nor deleted gets the slot that its insertion
returned. Kind: C -/
theorem slots_of_exec {mem : Mem} {as : List Act} {t : Table}
    (hrun : exec step (Table.start mem) as = some t) :
    (∃! free, SlotsApart t free) ∧
      ∀ pre key newBlock post t₀, as = pre ++ Act.insert key newBlock :: post →
        exec step (Table.start mem) pre = some t₀ → (∀ act ∈ post, act.Keeps key) →
        (t.get key).1 = (t₀.insert key newBlock).1 := by
  refine ⟨(inv_of_exec hrun).slotsApart, fun pre key newBlock post t₀ has hpre hkeeps => ?_⟩
  rw [has, exec_append, hpre, Option.bind_some] at hrun
  obtain ⟨t₁, ht₁, hpost⟩ := (exec_cons_eq_some step).mp hrun
  obtain ⟨-, rfl⟩ := step_insert.mp ht₁
  rw [Table.get, slot_of_exec hkeeps hpost]
  simp [Table.slot, Table.insert]

/-- Two keys, one of them inserted twice; absent keys are looked up and deleted; a slot is given
back and taken by another key. Kind: D -/
def sampleCalls : List Act :=
  [.insert 5 16, .insert 6 0, .store 5 0 1, .insert 6 0, .get 7, .del 8, .del 5, .insert 9 0]

/-- The slots of these calls: key 6 keeps its second slot, and key 9 has the one that key 5 had.
Kind: C -/
theorem slots_sample :
    ∃ t, exec step (Table.start fun _ => 0) sampleCalls = some t ∧
      (∃! free, SlotsApart t free) ∧ (t.get 6).1 = 88 ∧ (t.get 9).1 = 24 := by
  have hvalues : (exec step (Table.start fun _ => 0) sampleCalls).map
      (fun t => ((t.get 6).1, (t.get 9).1)) = some (88, 24) := by decide +kernel
  obtain ⟨t, ht, hslots⟩ := Option.map_eq_some_iff.mp hvalues
  obtain ⟨hsix, hnine⟩ := Prod.mk.inj hslots
  exact ⟨t, ht, (slots_of_exec ht).1, hsix, hnine⟩

/-! ## The destructor -/

/-- The blocks that `~MemoryPool` passes to `operator delete`, in `n` turns of its loop.
Source: `MemoryPool.tcc`
Kind: D -/
def deleted (m : Mem) : (n : ℕ) → (curr : UInt64) → List UInt64
  | 0, _ => []
  | n + 1, curr => if curr ≠ 0 then curr :: deleted m n (m.u64 curr.toNat) else []

/-- The loop goes over the cells of a list. Kind: L -/
lemma deleted_of_threaded {m : Mem} {head : UInt64} {xs : List UInt64} (h : m.Threaded head xs)
    {n : ℕ} (hn : xs.length < n) : deleted m n head = xs := by
  induction xs generalizing head n with
  | nil =>
      obtain ⟨n, rfl⟩ := Nat.exists_eq_succ_of_ne_zero (Nat.ne_of_gt hn)
      have hnull : ¬ head ≠ 0 := not_not.mpr h
      rw [deleted, if_neg hnull]
  | cons x xs ih =>
      obtain ⟨rfl, hne, hrest⟩ := h
      obtain ⟨n, rfl⟩ := Nat.exists_eq_succ_of_ne_zero (Nat.ne_of_gt (Nat.zero_lt_of_lt hn))
      rw [deleted, if_pos hne, ih hrest (by simpa using hn)]

/-- **The destructor** ends, after every run, and gives back every block that `operator new` has
returned, once. Kind: P -/
theorem deleted_eq_blocks {mem : Mem} {as : List Act} {t : Table}
    (hrun : exec step (Table.start mem) as = some t) {n : ℕ} (hn : t.blocks.length < n) :
    deleted t.mem n t.pool.currentBlock = t.blocks ∧ t.blocks.Nodup := by
  obtain ⟨a, hrep, hheld⟩ := inv_of_exec hrun
  refine ⟨deleted_of_threaded hrep.chain hn, ?_⟩
  have hpair := hheld.sound.blocks_apart
  rw [hrep.blocks, List.pairwise_map] at hpair
  refine hpair.imp fun hapart heq => ?_
  rw [heq] at hapart
  simp only [SlotPool.Apart, blockSize_sizes] at hapart
  omega

end FreeFlow.Client.SlotMemory
