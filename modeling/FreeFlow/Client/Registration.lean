import FreeFlow.Client.Regions

/-!
# What a registration does to the application's memory

`ibv_cmd_reg_mr` saves the `length` bytes of the buffer, maps the shared memory, and stores the
saved bytes there. A buffer that is not on a page boundary is not touched. For one that is, the
mapping replaces whole pages, and what the application had behind the buffer in its last page is
replaced by the bytes behind the end of the object, which are zero.

* `Kept` — every mapped byte of an address space reads the same in another one.
* `remapped` — the address space after the save, the mapping and the restore.
* `byte_remapped_of_inside`, `byte_remapped_of_outside` — what is read there.
* `Tail` — the condition: all bytes between the end of the buffer and the end of its last page are
  zero.
* `regMr_kept_iff` — for every address, length and content: exactly when `mmap` failed, the buffer
  is not on a page boundary, or the tail is zero.
* `along_kept_iff` — the same for the registrations of a whole run.
* `regMr_kept_fails_tail` — eight bytes at the start of a page of ones.

Source: `cmd.c` `ibv_cmd_reg_mr`.
-/

namespace FreeFlow.Client.Regions

open FreeFlow.Found FreeFlow.Verbs

/-! ## The address space after a registration -/

/-- Every byte that is mapped in `S` is mapped in `S'` and reads the same there. Kind: D -/
def Kept (S S' : Space) : Prop :=
  ∀ x, (S.map x).isSome → (S'.map x).isSome ∧ S'.byte x = S.byte x

/-- The objects of the client's mappings are older than the next one. Kind: D -/
def State.Fresh (s : State) : Prop := ∀ x l, s.space.map x = some l → l.obj < s.nextObj

/-- The object `o` is created and mapped over the pages at `p`, and the bytes that were at `addr`
before are stored in it. Source: `cmd.c` `ibv_cmd_reg_mr`. Kind: D -/
def remapped (S : Space) (o addr length p : ℕ) : Space :=
  ((S.newObject o).mmap p (pageRound length) o).write p ((S.newObject o).read addr length)

/-- The address space after a registration: nothing that can be read has changed, when `mmap` has
failed, and the remapping otherwise. Kind: L -/
lemma space_of_regMr {s s' : State} {addr : UInt64} {length : ℕ} {lkey : UInt32}
    {shmPtr : Option UInt64} (hs : s.regMr addr length lkey shmPtr = some s') :
    s'.nextObj = s.nextObj + 1 ∧
      ((shmPtr = none ∧ s'.space = s.space.newObject s.nextObj) ∨
        ∃ p, shmPtr = some p ∧ Chosen s.space addr length p ∧
          s'.space = remapped s.space s.nextObj addr.toNat length p.toNat) := by
  obtain ⟨-, ⟨hnone, rfl⟩ | ⟨p, hsome, hchosen, rfl⟩⟩ := regMr_cases hs
  · exact ⟨rfl, .inl ⟨hnone, rfl⟩⟩
  · exact ⟨rfl, .inr ⟨p, hsome, hchosen, rfl⟩⟩

section Remapped

variable {S : Space} {o addr length p : ℕ} (hfresh : ∀ x l, S.map x = some l → l.obj ≠ o)
include hfresh

/-- A new object changes nothing that is mapped. Kind: L -/
lemma byte_newObject (x : ℕ) : (S.newObject o).byte x = S.byte x := by
  rcases hx : S.map x with _ | l
  · unfold Space.byte Space.newObject
    rw [hx]
  · rw [Space.byte_of_map hx, Space.byte_of_map (S := S.newObject o) hx]
    exact if_neg (hfresh x l hx)

/-- The saved bytes are those of the buffer. Kind: L -/
lemma remapped_eq :
    remapped S o addr length p =
      ((S.newObject o).mmap p (pageRound length) o).writeObject o 0 (S.read addr length) := by
  have hread : (S.newObject o).read addr length = S.read addr length := by
    unfold Space.read
    simp only [byte_newObject hfresh]
  rw [remapped, hread]
  apply Space.write_eq_writeObject
  intro k hk
  rw [Space.length_read] at hk
  have hlen := le_pageRound length
  rw [Space.map_mmap_of_inside (by omega), Nat.add_sub_cancel_left, Nat.zero_add]

/-- Outside the mapped pages nothing changes. Kind: L -/
lemma byte_remapped_of_outside {x : ℕ} (hx : x < p ∨ p + pageRound length ≤ x) :
    (remapped S o addr length p).map x = S.map x ∧
      (remapped S o addr length p).byte x = S.byte x := by
  have hmap : (remapped S o addr length p).map x = S.map x := by
    rw [remapped, Space.map_write, Space.map_mmap_of_outside hx]
    rfl
  refine ⟨hmap, ?_⟩
  rcases hl : S.map x with _ | l
  · unfold Space.byte
    rw [hmap, hl]
  · rw [Space.byte_of_map hl, Space.byte_of_map (hmap.trans hl), remapped_eq hfresh,
      Space.cell_writeObject_of_outside (fun ho => absurd ho (hfresh x l hl))]
    exact if_neg (hfresh x l hl)

/-- Inside them are the bytes of the buffer, and zeros up to the end of the last page. Kind: L -/
lemma byte_remapped_of_inside {k : ℕ} (hk : k < pageRound length) :
    ((remapped S o addr length p).map (p + k)).isSome ∧
      (remapped S o addr length p).byte (p + k) = if k < length then S.byte (addr + k) else 0 := by
  have hmap : (remapped S o addr length p).map (p + k) = some ⟨o, 0 + k⟩ := by
    rw [remapped, Space.map_write, Space.map_mmap_of_inside (by omega), Nat.add_sub_cancel_left,
      Nat.zero_add]
  refine ⟨by rw [hmap]; rfl, ?_⟩
  rw [Space.byte_of_map hmap, remapped_eq hfresh]
  split
  · next hlt =>
      rw [Space.cell_writeObject_of_inside (by simpa using hlt), Space.getElem_read]
  · next hge =>
      rw [Space.cell_writeObject_of_outside (fun _ => .inr (by simp; omega))]
      exact if_pos rfl

end Remapped

/-! ## When a registration keeps the memory -/

/-- The bytes behind the buffer, up to the end of its last page, are zero. Kind: D -/
def Tail (S : Space) (addr length : ℕ) : Prop :=
  ∀ k, length ≤ k → k < pageRound length → (S.map (addr + k)).isSome → S.byte (addr + k) = 0

/-- A mapping over free pages keeps everything. Kind: L -/
lemma kept_of_unmapped {S : Space} {o addr length p : ℕ}
    (hfresh : ∀ x l, S.map x = some l → l.obj ≠ o) (hfree : S.Unmapped p (pageRound length)) :
    Kept S (remapped S o addr length p) := by
  intro x hx
  have hout : x < p ∨ p + pageRound length ≤ x := by
    by_contra hin
    have hnone := hfree (x - p) (by omega)
    rw [show p + (x - p) = x by omega] at hnone
    rw [hnone] at hx
    exact absurd hx (by simp)
  obtain ⟨hmap, hbyte⟩ := byte_remapped_of_outside hfresh hout
  exact ⟨hmap ▸ hx, hbyte⟩

/-- A mapping over the buffer itself keeps everything exactly when the tail is zero. Kind: L -/
lemma kept_inPlace_iff {S : Space} {o addr length : ℕ}
    (hfresh : ∀ x l, S.map x = some l → l.obj ≠ o) :
    Kept S (remapped S o addr length addr) ↔ Tail S addr length := by
  constructor
  · intro hkept k hle hlt hmapped
    have hsame := (hkept (addr + k) hmapped).2
    rw [(byte_remapped_of_inside hfresh hlt).2, if_neg (by omega)] at hsame
    exact hsame.symm
  · intro htail x hx
    by_cases hin : addr ≤ x ∧ x < addr + pageRound length
    · obtain ⟨k, rfl⟩ : ∃ k, x = addr + k := ⟨x - addr, by omega⟩
      have hk : k < pageRound length := by omega
      obtain ⟨hmap, hbyte⟩ := byte_remapped_of_inside hfresh hk
      refine ⟨hmap, hbyte.trans ?_⟩
      split
      · rfl
      · next hge => exact (htail k (by omega) hk hx).symm
    · have hout : x < addr ∨ addr + pageRound length ≤ x := by omega
      obtain ⟨hmap, hbyte⟩ := byte_remapped_of_outside hfresh hout
      exact ⟨hmap ▸ hx, hbyte⟩

/-- **The condition for a registration.** Kind: D -/
def KeepsMemory (s : State) : Act → Prop
  | .regMr addr length _ shmPtr =>
      shmPtr = none ∨ addr.toNat % pageSize ≠ 0 ∨ Tail s.space addr.toNat length
  | _ => True

/-- A registration that returns keeps the memory exactly under the condition. Kind: L -/
lemma kept_iff_keepsMemory {s s' : State} {addr : UInt64} {length : ℕ} {lkey : UInt32}
    {shmPtr : Option UInt64} (hfresh : s.Fresh)
    (hs : s.regMr addr length lkey shmPtr = some s') :
    Kept s.space s'.space ↔ KeepsMemory s (.regMr addr length lkey shmPtr) := by
  have hne : ∀ x l, s.space.map x = some l → l.obj ≠ s.nextObj :=
    fun x l hl => Nat.ne_of_lt (hfresh x l hl)
  obtain ⟨-, ⟨rfl, hspace⟩ | ⟨p, rfl, ⟨-, hp⟩, hspace⟩⟩ := space_of_regMr hs
  · rw [hspace]
    exact iff_of_true (fun x hx => ⟨hx, byte_newObject hne x⟩) (.inl rfl)
  · rw [hspace, KeepsMemory]
    by_cases halign : addr.toNat % pageSize = 0
    · rw [if_pos halign] at hp
      rw [hp, kept_inPlace_iff hne]
      simp [halign]
    · rw [if_neg halign] at hp
      exact iff_of_true (kept_of_unmapped hne hp.2) (.inr (.inl halign))

/-- **What a registration keeps.** For every address, length and content: after `ibv_cmd_reg_mr`
returns, every byte reads as before exactly when `mmap` has failed, the buffer does not start on a
page boundary, or the bytes between its end and the end of its last page are zero. Kind: P -/
theorem regMr_kept_iff (s s' : State) (addr : UInt64) (length : ℕ) (lkey : UInt32)
    (shmPtr : Option UInt64) (hfresh : s.Fresh)
    (hs : s.regMr addr length lkey shmPtr = some s') :
    Kept s.space s'.space ↔
      shmPtr = none ∨ addr.toNat % pageSize ≠ 0 ∨ Tail s.space addr.toNat length :=
  kept_iff_keepsMemory hfresh hs

/-- Four bytes in the middle of a page, mapped elsewhere. Kind: C -/
theorem regMr_kept_unaligned :
    ∃ s', sampleState.Fresh ∧ sampleState.regMr 0x10004 4 2 (some 0x30000) = some s' ∧
      Kept sampleState.space s'.space := by
  have hfree : sampleState.space.Unmapped 0x30000 (pageRound 4) := by
    intro k _
    simp only [sampleState]
    exact if_neg (by omega)
  have hreg : sampleState.regMr 0x10004 4 2 (some 0x30000) = some _ :=
    regMr_eq_registered (by decide) (by decide) rfl (by decide) ⟨by decide, by decide, hfree⟩
  exact ⟨_, start_sampleState.old, hreg,
    (regMr_kept_iff _ _ _ _ _ _ start_sampleState.old hreg).2 (.inr (.inl (by decide)))⟩

/-- **A buffer at the start of a page.** Eight bytes are registered; the ninth byte of the page was
one, and is zero afterwards. Kind: C -/
theorem regMr_kept_fails_tail :
    ∃ s', sampleState.regMr 0x10000 8 3 (some 0x10000) = some s' ∧
      sampleState.space.byte 0x10008 = 1 ∧ s'.space.byte 0x10008 = 0 ∧
      ¬ Kept sampleState.space s'.space := by
  have hne : ∀ x l, sampleState.space.map x = some l → l.obj ≠ sampleState.nextObj :=
    fun x l hl => Nat.ne_of_lt (start_sampleState.old x l hl)
  have hreg : sampleState.regMr 0x10000 8 3 (some 0x10000) = some _ :=
    regMr_eq_registered (by decide) (by decide) rfl (by decide) ⟨by decide, rfl⟩
  have hbefore : sampleState.space.byte 0x10008 = 1 := rfl
  have hafter : (sampleState.registered 0x10000 8 3 0x10000).space.byte 0x10008 = 0 := by
    show (remapped sampleState.space sampleState.nextObj 0x10000 8 0x10000).byte (0x10000 + 8) = 0
    have hlast : 8 < pageRound 8 := by decide
    rw [(byte_remapped_of_inside hne hlast).2, if_neg (by decide)]
  refine ⟨_, hreg, hbefore, hafter, fun hkept => ?_⟩
  have hsame := (hkept 0x10008 rfl).2
  rw [hbefore, hafter] at hsame
  exact absurd hsame (by decide)

/-! ## Runs -/

/-- Every call, and every write of the application, keeps the next object new. Kind: L -/
lemma State.Fresh.step {s s' : State} {a : Act} (h : s.Fresh)
    (hs : Regions.step s a = some s') : s'.Fresh := by
  cases a with
  | regMr addr length lkey shmPtr =>
      obtain ⟨hnext, ⟨-, hspace⟩ | ⟨p, -, -, hspace⟩⟩ := space_of_regMr hs
      · intro x l hl
        rw [hspace] at hl
        rw [hnext]
        exact Nat.lt_succ_of_lt (h x l hl)
      · intro x l hl
        rw [hspace, remapped, Space.map_write] at hl
        rw [hnext]
        by_cases hx : p.toNat ≤ x ∧ x < p.toNat + pageRound length
        · rw [Space.map_mmap_of_inside hx, Option.some.injEq] at hl
          rw [← hl]
          exact Nat.lt_succ_self _
        · rw [Space.map_mmap_of_outside (by omega)] at hl
          exact Nat.lt_succ_of_lt (h x l hl)
  | deregMr lkey =>
      rw [Regions.step, Option.some.injEq] at hs
      rw [← hs]
      exact h
  | store a bs =>
      simp only [Regions.step, Option.bind_eq_bind, Option.bind_eq_some_iff, Option.some.injEq]
        at hs
      obtain ⟨-, -, rfl⟩ := hs
      intro x l hl
      rw [Space.map_write] at hl
      exact h x l hl
  | postSend qp ws m =>
      simp only [Regions.step, State.postSend, Option.bind_eq_bind, Option.bind_eq_some_iff,
        Option.some.injEq] at hs
      obtain ⟨_, -, S, hcopies, rfl⟩ := hs
      intro x l hl
      rw [map_of_runCopies hcopies] at hl
      exact h x l hl

/-- A registration of a run keeps the memory. Kind: D -/
def RegistrationKeeps (s : State) : Act → Prop
  | .regMr addr length lkey shmPtr =>
      ∀ s', s.regMr addr length lkey shmPtr = some s' → Kept s.space s'.space
  | _ => True

/-- **Runs.** The registrations of a run keep what the application has in its memory, whatever it
has written there and however the calls are mixed, exactly when each of them meets the condition.
Kind: P -/
theorem along_kept_iff {s t : State} {as : List Act} (hfresh : s.Fresh)
    (hrun : exec step s as = some t) :
    Along step RegistrationKeeps s as ↔ Along step KeepsMemory s as := by
  refine along_iff_along ?_ ?_ hfresh hrun
  · intro u a u' hu hstep
    cases a with
    | regMr addr length lkey shmPtr =>
        have hiff := kept_iff_keepsMemory hu hstep
        refine ⟨fun hkeeps => hiff.1 (hkeeps u' hstep), fun hcond u'' hu'' => ?_⟩
        exact (kept_iff_keepsMemory hu hu'').2 hcond
    | deregMr => exact Iff.rfl
    | store => exact Iff.rfl
    | postSend => exact Iff.rfl
  · intro u a u' hu _ hstep
    exact hu.step hstep

end FreeFlow.Client.Regions
