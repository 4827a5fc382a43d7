import Mathlib.Data.List.Nodup
import Mathlib.Data.List.Pairwise
import Mathlib.Tactic

/-!
# A pool of slots of one size

A pool cuts blocks of memory into slots. It hands out a slot that was given back if there is one,
the last one first, and otherwise the next slot of its newest block, and takes a new block when
that one is used up. Addresses are natural numbers; where a new block lies is the choice of whoever
provides it.

* `SlotPool`, `allocate`, `deallocate` — the pool, for slots of `slotSize` bytes in blocks of
  `blockSize`, in which the first slot may be some way behind the start.
* `Carved` — the slots that have been cut so far.
* `Sound` — the invariant, relative to the set of slots that are in use.
* `Sound.allocate`, `Sound.deallocate` — a slot that is handed out was not in use, and the
  invariant holds for the set with it; and the same for giving back.
* `Sound.slots_apart` — slots that have been cut do not overlap.

Nothing here names a program.
-/

namespace FreeFlow.Found

/-- The sizes of a pool, and where the first slot of the block at an address lies; a block has room
for one slot. Kind: D -/
structure SlotSizes where
  first : ℕ → ℕ
  slotSize : ℕ
  blockSize : ℕ
  slot_pos : 0 < slotSize
  le_first : ∀ b, b ≤ first b
  one_fits : ∀ b, first b + slotSize ≤ b + blockSize

/-- The blocks, the newest first; the next slot of the newest block and the first address that is
too late for one; and the slots that were given back, the last first. Kind: D -/
structure SlotPool where
  blocks : List ℕ
  currentSlot : ℕ
  lastSlot : ℕ
  freeSlots : List ℕ
  deriving DecidableEq, Repr

namespace SlotPool

variable (z : SlotSizes)

/-- A pool without a block. Kind: D -/
def empty : SlotPool := ⟨[], 0, 0, []⟩

/-- The pool has taken the block at `b`. Kind: D -/
def addBlock (p : SlotPool) (b : ℕ) : SlotPool :=
  { p with
    blocks := b :: p.blocks
    currentSlot := z.first b
    lastSlot := b + z.blockSize - z.slotSize + 1 }

/-- A slot, with the block at `b` in case one is needed. Kind: D -/
def allocate (p : SlotPool) (b : ℕ) : ℕ × SlotPool :=
  match p.freeSlots with
  | s :: rest => (s, { p with freeSlots := rest })
  | [] =>
      let p := if p.lastSlot ≤ p.currentSlot then p.addBlock z b else p
      (p.currentSlot, { p with currentSlot := p.currentSlot + z.slotSize })

/-- The next slot is in a block that the pool does not have yet. Kind: D -/
def NeedsBlock (p : SlotPool) : Prop := p.freeSlots = [] ∧ p.lastSlot ≤ p.currentSlot

/-- A slot is given back. Kind: D -/
def deallocate (p : SlotPool) (s : ℕ) : SlotPool := { p with freeSlots := s :: p.freeSlots }

/-- The ranges of two blocks have nothing in common. Kind: D -/
def Apart (b b' : ℕ) : Prop := b + z.blockSize ≤ b' ∨ b' + z.blockSize ≤ b

instance : Std.Symm (Apart z) := ⟨fun _ _ hapart => Or.symm hapart⟩

/-- A place for a new block: not at zero, and apart from all blocks. Kind: D -/
def Fresh (p : SlotPool) (b : ℕ) : Prop := 0 < b ∧ ∀ b' ∈ p.blocks, Apart z b b'

instance (p : SlotPool) (b : ℕ) : Decidable (p.Fresh z b) :=
  inferInstanceAs (Decidable (_ ∧ ∀ b' ∈ p.blocks, _ ∨ _))

/-- The slot has been cut: it is on the grid of a block and inside it, and in the newest block it is
before the next one. Kind: D -/
def Carved (p : SlotPool) (s : ℕ) : Prop :=
  ∃ b ∈ p.blocks, (∃ k, s = z.first b + k * z.slotSize) ∧ s + z.slotSize ≤ b + z.blockSize ∧
    (p.blocks.head? = some b → s < p.currentSlot)

/-- **The invariant**, when `used` says which slots are in use: slots in use and slots that were
given back have been cut and are different ones, no slot was given back twice, blocks are apart,
and the next slot is on the grid of the newest block. Kind: D -/
structure Sound (p : SlotPool) (used : ℕ → Prop) : Prop where
  used_carved : ∀ s, used s → p.Carved z s
  free_carved : ∀ s ∈ p.freeSlots, p.Carved z s
  free_unused : ∀ s ∈ p.freeSlots, ¬ used s
  free_nodup : p.freeSlots.Nodup
  blocks_pos : ∀ b ∈ p.blocks, 0 < b
  blocks_apart : p.blocks.Pairwise (Apart z)
  current : p.currentSlot < p.lastSlot → ∃ b, p.blocks.head? = some b ∧
    (∃ k, p.currentSlot = z.first b + k * z.slotSize) ∧
    p.lastSlot = b + z.blockSize - z.slotSize + 1

variable {z}

/-- A pool without a block. Kind: L -/
lemma sound_empty : empty.Sound z fun _ => False where
  used_carved := by simp
  free_carved := by simp [empty]
  free_unused := by simp
  free_nodup := List.nodup_nil
  blocks_pos := by simp [empty]
  blocks_apart := List.Pairwise.nil
  current := by simp [empty]

/-- No slot lies at zero. Kind: L -/
lemma Sound.pos {p : SlotPool} {used : ℕ → Prop} (h : p.Sound z used) {s : ℕ} (hs : p.Carved z s) :
    0 < s := by
  obtain ⟨b, hb, ⟨k, rfl⟩, -, -⟩ := hs
  have hpos := h.blocks_pos b hb
  have hfirst := z.le_first b
  omega

/-- Two blocks of the pool. Kind: L -/
lemma Sound.apart_of_ne {p : SlotPool} {used : ℕ → Prop} (h : p.Sound z used) {b b' : ℕ}
    (hb : b ∈ p.blocks) (hb' : b' ∈ p.blocks) (hne : b ≠ b') : Apart z b b' :=
  h.blocks_apart.forall hb hb' hne

/-- **Slots do not overlap.** Kind: P -/
theorem Sound.slots_apart {p : SlotPool} {used : ℕ → Prop} (h : p.Sound z used) {s t : ℕ}
    (hs : p.Carved z s) (ht : p.Carved z t) (hne : s ≠ t) :
    s + z.slotSize ≤ t ∨ t + z.slotSize ≤ s := by
  obtain ⟨b, hb, ⟨k, hk⟩, hfits, -⟩ := hs
  obtain ⟨b', hb', ⟨k', hk'⟩, hfits', -⟩ := ht
  by_cases hsame : b = b'
  · -- both are on the grid of one block
    subst hsame
    have hgrid : ∀ {i j : ℕ}, i < j → i * z.slotSize + z.slotSize ≤ j * z.slotSize := by
      intro i j hij
      rw [← Nat.succ_mul]
      exact Nat.mul_le_mul_right _ hij
    have hkne : k ≠ k' := fun heq => hne (by rw [hk, hk', heq])
    rcases Nat.lt_or_gt_of_ne hkne with hlt | hlt
    · have hle := hgrid hlt
      omega
    · have hle := hgrid hlt
      omega
  · have hfirst := z.le_first b
    have hfirst' := z.le_first b'
    rcases h.apart_of_ne hb hb' hsame with hle | hle <;> omega

/-- A new block keeps what was cut. Kind: L -/
lemma Carved.addBlock {p : SlotPool} {s b : ℕ} (hfresh : p.Fresh z b) (h : p.Carved z s) :
    (p.addBlock z b).Carved z s := by
  obtain ⟨b', hb', hgrid, hfits, -⟩ := h
  refine ⟨b', List.mem_cons_of_mem _ hb', hgrid, hfits, fun hhead => ?_⟩
  -- the newest block is the new one now
  have hsame : b = b' := by simpa [SlotPool.addBlock] using hhead
  have hblock : 0 < z.blockSize := by
    have hsize := z.one_fits b
    have hfirst := z.le_first b
    have hpos := z.slot_pos
    omega
  rcases hfresh.2 b' hb' with hapart | hapart <;> omega

/-- A pool that takes a block. Kind: L -/
lemma Sound.addBlock {p : SlotPool} {used : ℕ → Prop} (h : p.Sound z used) {b : ℕ}
    (hfresh : p.Fresh z b) : (p.addBlock z b).Sound z used where
  used_carved s hs := (h.used_carved s hs).addBlock hfresh
  free_carved s hs := (h.free_carved s hs).addBlock hfresh
  free_unused := h.free_unused
  free_nodup := h.free_nodup
  blocks_pos b' hb' := (List.mem_cons.mp hb').elim (fun heq => heq ▸ hfresh.1) (h.blocks_pos b')
  blocks_apart := List.pairwise_cons.mpr ⟨hfresh.2, h.blocks_apart⟩
  current _ := ⟨b, rfl, ⟨0, by simp [SlotPool.addBlock]⟩, rfl⟩

/-- The next slot has not been cut: it is behind those of its block, and in no other. Kind: L -/
lemma Sound.not_carved_currentSlot {p : SlotPool} {used : ℕ → Prop} (h : p.Sound z used)
    (hroom : p.currentSlot < p.lastSlot) : ¬ p.Carved z p.currentSlot := by
  obtain ⟨b, hhead, ⟨k, hk⟩, hlast⟩ := h.current hroom
  rintro ⟨b', hb', ⟨k', hk'⟩, hfits, hlt⟩
  by_cases hsame : b' = b
  · exact absurd (hlt (hsame ▸ hhead)) (lt_irrefl _)
  · have hapart := h.apart_of_ne (List.mem_of_mem_head? hhead) hb' (Ne.symm hsame)
    have hfirst := z.le_first b
    have hfirst' := z.le_first b'
    have hsize := z.one_fits b
    have hpos := z.slot_pos
    rcases hapart with hle | hle <;> omega

/-- The next slot is handed out. Kind: L -/
lemma Sound.bump {p : SlotPool} {used : ℕ → Prop} (h : p.Sound z used)
    (hroom : p.currentSlot < p.lastSlot) :
    SlotPool.Sound z { p with currentSlot := p.currentSlot + z.slotSize }
      (fun s => used s ∨ s = p.currentSlot) := by
  have hnot := h.not_carved_currentSlot hroom
  obtain ⟨b, hhead, ⟨k, hk⟩, hlast⟩ := h.current hroom
  have hsize := z.one_fits b
  have hpos := z.slot_pos
  have hkeep : ∀ s, p.Carved z s →
      SlotPool.Carved z { p with currentSlot := p.currentSlot + z.slotSize } s := by
    rintro s ⟨b', hb', hgrid, hfits, hlt⟩
    exact ⟨b', hb', hgrid, hfits, fun hh => (hlt hh).trans (by simp; omega)⟩
  refine ⟨?_, fun s hs => hkeep s (h.free_carved s hs), ?_, h.free_nodup, h.blocks_pos,
    h.blocks_apart, ?_⟩
  · rintro s (hs | rfl)
    · exact hkeep s (h.used_carved s hs)
    · exact ⟨b, List.mem_of_mem_head? hhead, ⟨k, hk⟩, by omega, fun _ => by simp; omega⟩
  · rintro s hs (hused | rfl)
    · exact h.free_unused s hs hused
    · exact hnot (h.free_carved _ hs)
  · intro _
    refine ⟨b, hhead, ⟨k + 1, ?_⟩, hlast⟩
    simp only [hk, Nat.add_mul, Nat.one_mul]
    omega

/-- **A slot that is handed out** was not in use, and the pool is sound with it in use. Kind: P -/
theorem Sound.allocate {p : SlotPool} {used : ℕ → Prop} (h : p.Sound z used) {b : ℕ}
    (hfresh : p.NeedsBlock → p.Fresh z b) :
    ¬ used (p.allocate z b).1 ∧
      (p.allocate z b).2.Sound z fun s => used s ∨ s = (p.allocate z b).1 := by
  unfold SlotPool.allocate
  split
  case h_1 s rest hfree =>
    have hmem : s ∈ p.freeSlots := by simp [hfree]
    have hnodup := h.free_nodup
    rw [hfree, List.nodup_cons] at hnodup
    refine ⟨h.free_unused s hmem, ?_⟩
    refine ⟨?_, fun t ht => h.free_carved t (by simp [hfree, ht]), ?_, hnodup.2, h.blocks_pos,
      h.blocks_apart, h.current⟩
    · rintro t (ht | rfl)
      · exact h.used_carved t ht
      · exact h.free_carved _ hmem
    · rintro t ht (hused | rfl)
      · exact h.free_unused t (by simp [hfree, ht]) hused
      · exact hnodup.1 ht
  case h_2 hfree =>
    by_cases hfull : p.lastSlot ≤ p.currentSlot
    · have hroom : (p.addBlock z b).currentSlot < (p.addBlock z b).lastSlot := by
        have hsize := z.one_fits b
        simp only [SlotPool.addBlock]
        omega
      have hsound := h.addBlock (hfresh ⟨hfree, hfull⟩)
      simp only [if_pos hfull]
      exact ⟨fun hused => hsound.not_carved_currentSlot hroom (hsound.used_carved _ hused),
        hsound.bump hroom⟩
    · simp only [if_neg hfull]
      exact ⟨fun hused => h.not_carved_currentSlot (not_le.mp hfull) (h.used_carved _ hused),
        h.bump (not_le.mp hfull)⟩

/-- **A slot that is given back** is not in use any more. Kind: P -/
theorem Sound.deallocate {p : SlotPool} {used : ℕ → Prop} (h : p.Sound z used) {s : ℕ}
    (hs : used s) : (p.deallocate s).Sound z fun t => used t ∧ t ≠ s := by
  refine ⟨fun t ht => h.used_carved t ht.1, ?_, ?_, ?_, h.blocks_pos, h.blocks_apart, h.current⟩
  · intro t ht
    rcases List.mem_cons.mp ht with rfl | ht
    · exact h.used_carved _ hs
    · exact h.free_carved t ht
  · rintro t ht ⟨hused, hne⟩
    rcases List.mem_cons.mp ht with rfl | ht
    · exact hne rfl
    · exact h.free_unused t ht hused
  · exact List.nodup_cons.mpr ⟨fun hmem => h.free_unused s hmem hs, h.free_nodup⟩

/-- Fewer slots in use. Kind: L -/
lemma Sound.mono {p : SlotPool} {used used' : ℕ → Prop} (h : p.Sound z used)
    (hle : ∀ s, used' s → used s) : p.Sound z used' :=
  ⟨fun s hs => h.used_carved s (hle s hs), h.free_carved,
    fun s hs hused => h.free_unused s hs (hle s hused), h.free_nodup, h.blocks_pos, h.blocks_apart,
    h.current⟩

end SlotPool

end FreeFlow.Found
