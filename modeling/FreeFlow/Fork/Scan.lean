import FreeFlow.Fork.Ranges

/-!
# A pass over the ranges

The nodes are the pieces on which a function of the addresses is constant: the count of an address.
A pass raises or lowers the count between two addresses. While it runs, the nodes before its place
have the new counts and those behind it the old ones; only the node it starts with may also hold
addresses before the start, if `get_start_node` has merged it.

* `Counts` — the nodes give this count to every address, and the kernel was told where it is not 0.
* `Scan` — the loop is at a node; `Passed` — the loop has done with it.
* `madviseLoop_spec` — the loop passes over all the nodes, or stops at a refused `madvise`.

Source: `memory.c`.
-/

namespace FreeFlow.Fork

open FreeFlow.Found

variable {f g : ℕ → ℤ} {as bs xs : List MemNode} {x y p : MemNode} {lo m hi start stop : ℕ}
  {inc : ℤ} {mm : Mm}

/-! ## Nodes as pieces of a function -/

/-- A node covers the addresses from `lo` to before `hi`, and has their count. Kind: D -/
def tile (f : ℕ → ℤ) (lo : ℕ) (x : MemNode) (hi : ℕ) : Prop :=
  x.start = lo ∧ x.start ≤ x.stop ∧ hi = x.stop + 1 ∧ ∀ a, x.start ≤ a → a ≤ x.stop → f a = x.refcnt

/-- Neighbours have different counts. Kind: D -/
def Canon (xs : List MemNode) : Prop := xs.IsChain fun x y => x.refcnt ≠ y.refcnt

/-- A tile is not empty. Kind: L -/
lemma tile_lt (h : tile f lo x hi) : lo < hi := by
  obtain ⟨h₁, h₂, h₃, -⟩ := h
  omega

/-- Tiles lead upwards. Kind: L -/
lemma tiles_le (h : Leads (tile f) lo xs hi) : lo ≤ hi :=
  h.le (μ := id) fun _ _ _ h => (tile_lt h).le

/-- The tiles of a function are those of every function that agrees with it. Kind: L -/
lemma tiles_congr (h : Leads (tile f) lo xs hi) (hfg : ∀ a, lo ≤ a → a < hi → f a = g a) :
    Leads (tile g) lo xs hi := by
  induction xs generalizing lo with
  | nil => exact h
  | cons x xs ih =>
      obtain ⟨m, hx, hrest⟩ := h
      have hm := tiles_le hrest
      have hlt := tile_lt hx
      refine ⟨m, ⟨hx.1, hx.2.1, hx.2.2.1, fun a h₁ h₂ => ?_⟩,
        ih hrest fun a h₁ h₂ => hfg a (by omega) h₂⟩
      rw [← hx.2.2.2 a h₁ h₂]
      exact (hfg a (by have := hx.1; omega) (by have := hx.2.2.1; omega)).symm

/-- Where the tiles of a list start. Kind: L -/
lemma tiles_start (h : Leads (tile f) lo xs hi) : ∀ y ∈ xs, lo ≤ y.start := by
  intro y hy
  induction xs generalizing lo with
  | nil => cases hy
  | cons x xs ih =>
      obtain ⟨m, hx, hrest⟩ := h
      rcases List.mem_cons.mp hy with rfl | hy
      · exact hx.1.ge
      · exact (tile_lt hx).le.trans (ih hrest hy)

/-- Two tiles with one count are one. Kind: L -/
lemma tile_merge (hp : tile f lo p m) (hx : tile f m x hi) (heq : p.refcnt = x.refcnt) :
    tile f lo { p with stop := x.stop, refcnt := x.refcnt } hi := by
  obtain ⟨h₁, h₂, h₃, h₄⟩ := hp
  obtain ⟨k₁, k₂, k₃, k₄⟩ := hx
  refine ⟨h₁, ?_, k₃, fun a ha ha' => ?_⟩
  · change p.start ≤ x.stop
    omega
  · by_cases hle : a ≤ p.stop
    · exact (h₄ a ha hle).trans heq
    · exact k₄ a (by omega) ha'

/-- Two tiles with one count, in a list. Kind: L -/
lemma tiles_merge (h : Leads (tile f) lo (as ++ p :: x :: bs) hi) (heq : p.refcnt = x.refcnt) :
    Leads (tile f) lo (as ++ { p with stop := x.stop, refcnt := x.refcnt } :: bs) hi := by
  obtain ⟨m, has, m₁, hp, m₂, hx, hbs⟩ := leads_append_iff.mp h
  exact has.append ⟨m₂, tile_merge hp hx heq, hbs⟩

/-- A list in two parts. Kind: L -/
lemma canon_append : Canon (as ++ bs) ↔
    Canon as ∧ Canon bs ∧ ∀ x ∈ as.getLast?, ∀ y ∈ bs.head?, x.refcnt ≠ y.refcnt :=
  List.isChain_append

/-- A list with a node at the end. Kind: L -/
lemma canon_snoc : Canon (as ++ [x]) ↔ Canon as ∧ ∀ p ∈ as.getLast?, p.refcnt ≠ x.refcnt := by
  rw [canon_append]
  simp [Canon]

/-- A list with a node in front. Kind: L -/
lemma canon_cons : Canon (x :: bs) ↔ Canon bs ∧ ∀ y ∈ bs.head?, x.refcnt ≠ y.refcnt := by
  rw [Canon, List.isChain_cons]
  exact and_comm

/-- A list around a node. Kind: L -/
lemma canon_split : Canon (as ++ x :: bs) ↔ Canon (as ++ [x]) ∧ Canon (x :: bs) :=
  List.isChain_split

namespace Mm

/-- What the calls to come will answer is the rest of what they would have answered. Kind: D -/
structure Later (mm mm' : Mm) : Prop where
  malloc : ∃ k, mm'.malloc = fun n => mm.malloc (n + k)
  madvise : ∃ k, mm'.madvise = fun n => mm.madvise (n + k)

/-- Nothing was called. Kind: L -/
lemma Later.of_eq {mm' : Mm} (h : mm'.malloc = mm.malloc) (h' : mm'.madvise = mm.madvise) :
    Later mm mm' :=
  ⟨⟨0, h⟩, ⟨0, h'⟩⟩

/-- One thing after the other. Kind: L -/
lemma Later.trans {mm₁ mm₂ mm₃ : Mm} (h : Later mm₁ mm₂) (h' : Later mm₂ mm₃) : Later mm₁ mm₃ := by
  obtain ⟨⟨i, hi⟩, j, hj⟩ := h
  obtain ⟨⟨k, hk⟩, l, hl⟩ := h'
  refine ⟨⟨k + i, ?_⟩, l + j, ?_⟩
  · simp [hk, hi, Nat.add_assoc]
  · simp [hl, hj, Nat.add_assoc]

/-- There is memory for every `malloc` to come. Kind: D -/
def Supplied (mm : Mm) : Prop := ∀ n, mm.malloc n = true

/-- Every `madvise` of this kind will succeed. Kind: D -/
def Accepts (mm : Mm) (advice : Advice) : Prop := ∀ n, mm.madvise n advice = true

/-- Memory that does not run out. Kind: L -/
lemma Later.supplied {mm' : Mm} (h : Later mm mm') (hm : mm.Supplied) : mm'.Supplied := by
  obtain ⟨⟨k, hk⟩, -⟩ := h
  intro n
  rw [hk]
  exact hm (n + k)

/-- A kernel that refuses nothing. Kind: L -/
lemma Later.accepts {mm' : Mm} {advice : Advice} (h : Later mm mm') (hm : mm.Accepts advice) :
    mm'.Accepts advice := by
  obtain ⟨-, k, hk⟩ := h
  intro n
  rw [hk]
  exact hm (n + k)

/-- **A node and the one before it**: afterwards they have different counts. Kind: L -/
lemma mergePrev_spec (h : Lists mm.root (as ++ x :: bs))
    (ht : Leads (tile f) 0 (as ++ x :: bs) wordSize) (hc : Canon as) :
    ∃ t as' z, mm.mergePrev x.start = some ({ mm with root := t }, z.start) ∧
      Lists t (as' ++ z :: bs) ∧ Leads (tile f) 0 (as' ++ z :: bs) wordSize ∧
      Canon (as' ++ [z]) ∧ z.refcnt = x.refcnt ∧ z.start ≤ x.start ∧ z.stop = x.stop ∧
      ((as = as' ∧ z = x) ∨ ∃ p, as = as' ++ [p] ∧ p.refcnt = x.refcnt ∧ z.start = p.start) := by
  rcases List.eq_nil_or_concat as with rfl | ⟨as, p, rfl⟩
  · refine ⟨mm.root, [], x, ?_, h, ht, by simp [Canon], rfl, le_rfl, rfl,
      .inl ⟨rfl, rfl⟩⟩
    rw [mergePrev, h.get_eq, h.prevOf_eq]
    rfl
  · simp only [List.concat_eq_append] at h ht hc ⊢
    have hprev := h.prevOf_eq
    rw [List.getLast?_concat] at hprev
    have hpx : p.start < x.start := h.lt.1 p (by simp)
    have hget := h.get_eq
    by_cases heq : p.refcnt = x.refcnt
    · simp only [List.append_assoc, List.singleton_append] at h ht
      obtain ⟨t, hmerge, hlist⟩ := mergeRanges_spec h
      refine ⟨t, as, _, ?_, hlist, tiles_merge ht heq, ?_, rfl, hpx.le, rfl,
        .inr ⟨p, rfl, heq, rfl⟩⟩
      · rw [mergePrev, hget, hprev]
        simp [heq, hmerge]
      · rw [canon_snoc] at hc ⊢
        exact ⟨hc.1, fun q hq => by
          change q.refcnt ≠ x.refcnt
          rw [← heq]
          exact hc.2 q hq⟩
    · refine ⟨mm.root, as ++ [p], x, ?_, h, ht, ?_, rfl, le_rfl, rfl, .inl ⟨rfl, rfl⟩⟩
      · rw [mergePrev, hget, hprev]
        simp [heq]
      · rw [canon_snoc]
        exact ⟨hc, fun q hq => by simp_all⟩

/-- **A node and the one behind it**: afterwards they have different counts. Kind: L -/
lemma mergeNext_spec (h : Lists mm.root (as ++ x :: bs))
    (ht : Leads (tile f) 0 (as ++ x :: bs) wordSize) (hc : Canon (as ++ [x])) (hbs : Canon bs) :
    ∃ t z bs', mm.mergeNext x.start = some { mm with root := t } ∧ Lists t (as ++ z :: bs') ∧
      Leads (tile f) 0 (as ++ z :: bs') wordSize ∧ Canon (as ++ z :: bs') ∧ z.start = x.start := by
  have hget := h.get_eq
  have hnext := h.nextOf_eq
  cases bs with
  | nil =>
      refine ⟨mm.root, x, [], ?_, h, ht, hc, rfl⟩
      rw [mergeNext, hget, hnext]
      rfl
  | cons y bs =>
      by_cases heq : x.refcnt = y.refcnt
      · obtain ⟨t, hmerge, hlist⟩ := mergeRanges_spec h
        refine ⟨t, _, bs, ?_, hlist, tiles_merge ht heq, ?_, rfl⟩
        · rw [mergeNext, hget, hnext]
          simp [heq, hmerge]
        · rw [canon_split, canon_snoc, canon_cons]
          rw [canon_snoc] at hc
          rw [canon_cons] at hbs
          exact ⟨⟨hc.1, fun q hq => by
            change q.refcnt ≠ y.refcnt
            rw [← heq]
            exact hc.2 q hq⟩, hbs⟩
      · refine ⟨mm.root, x, y :: bs, ?_, h, ht, ?_, rfl⟩
        · rw [mergeNext, hget, hnext]
          simp [Ne.symm heq]
        · rw [canon_split, canon_cons]
          exact ⟨hc, hbs, fun z hz => by simp_all⟩

end Mm

/-! ## The loop at a node -/

/-- The counts after a pass. Kind: D -/
def shiftOn (f : ℕ → ℤ) (start stop : ℕ) (inc : ℤ) (a : ℕ) : ℤ :=
  if start ≤ a ∧ a ≤ stop then f a + inc else f a

/-- The counts while a pass is at an address. Kind: D -/
def partly (f : ℕ → ℤ) (start stop : ℕ) (inc : ℤ) (m a : ℕ) : ℤ :=
  if a < m then shiftOn f start stop inc a else f a

/-- A node with its count changed. Kind: D -/
def MemNode.bump (x : MemNode) (inc : ℤ) : MemNode := { x with refcnt := x.refcnt + inc }

/-- The count of a node is changed, in the list of the nodes. Kind: L -/
lemma Mm.bumpNode_eq (h : Lists mm.root (as ++ x :: bs)) (inc : ℤ) :
    ∃ t, mm.bumpNode x.start inc =
        some ({ mm with root := t }, .next (bs.head?.map MemNode.start)) ∧
      Lists t (as ++ x.bump inc :: bs) := by
  obtain ⟨t, ht, hlist⟩ := h.modify_eq (MemNode.bump · inc) rfl
  have hnext : nextOf t x.start = some bs.head? := hlist.nextOf_eq
  refine ⟨t, ?_, hlist⟩
  rw [Mm.bumpNode]
  change (modify mm.root x.start (MemNode.bump · inc)).bind _ = _
  rw [ht]
  simp [hnext]

/-- The kernel was told not to copy what has a count above 0, and nothing else. Kind: D -/
def Told (mm : Mm) (f : ℕ → ℤ) : Prop := ∀ a < wordSize, mm.advised a = decide (0 < f a)

/-- **The invariant.** The tree is balanced, its nodes cover the address space and give every
address its count, neighbours have different counts, and the kernel was told where the count is
above 0. Kind: D -/
def Counts (mm : Mm) (f : ℕ → ℤ) : Prop :=
  ∃ xs, Lists mm.root xs ∧ Leads (tile f) 0 xs wordSize ∧ Canon xs ∧ Told mm f

/-- The loop is at the node `x`, which it will change. Kind: D -/
structure Scan (mm : Mm) (f : ℕ → ℤ) (start stop : ℕ) (inc : ℤ) (as : List MemNode) (x : MemNode)
    (bs : List MemNode) : Prop where
  lists : Lists mm.root (as ++ x :: bs)
  done : Leads (tile (shiftOn f start stop inc)) 0 as x.start
  first : x.start ≤ stop
  reach : start ≤ x.stop
  le : x.start ≤ x.stop
  merged : ∀ a, x.start ≤ a → a < start → f a = x.refcnt + inc
  todo : ∀ a, x.start ≤ a → start ≤ a → a ≤ x.stop → f a = x.refcnt
  rest : Leads (tile f) (x.stop + 1) bs wordSize
  canonDone : Canon (as ++ [x.bump inc])
  canonRest : Canon bs
  link : x.stop ≠ stop → ∀ y ∈ bs.head?, x.refcnt ≠ y.refcnt
  told : Told mm (partly f start stop inc x.start)

/-- The loop has changed all up to the address `m`. Kind: D -/
structure Passed (mm : Mm) (f : ℕ → ℤ) (start stop : ℕ) (inc : ℤ) (m : ℕ)
    (as bs : List MemNode) : Prop where
  lists : Lists mm.root (as ++ bs)
  done : Leads (tile (shiftOn f start stop inc)) 0 as m
  reach : start < m
  le : m ≤ stop + 1
  rest : Leads (tile f) m bs wordSize
  canonDone : Canon as
  canonRest : Canon bs
  link : m ≤ stop → ∀ y ∈ bs.head?, Canon (as ++ [y.bump inc])
  told : Told mm (partly f start stop inc m)

/-- Behind the end nothing is changed. Kind: L -/
lemma partly_of_lt (hm : stop < m) : partly f start stop inc m = shiftOn f start stop inc := by
  funext a
  unfold partly shiftOn
  split_ifs <;> first | rfl | omega

/-- Before the start nothing is changed. Kind: L -/
lemma partly_of_le (hm : m ≤ start) : partly f start stop inc m = f := by
  funext a
  unfold partly shiftOn
  split_ifs <;> first | rfl | omega

namespace Passed

/-- The next node, if the loop has not come to the end. Kind: L -/
lemma scan (h : Passed mm f start stop inc m as (y :: bs)) (hm : m ≤ stop) :
    Scan mm f start stop inc as y bs := by
  obtain ⟨hi, hy, hrest⟩ := h.rest
  obtain ⟨rfl, hle, rfl, hf⟩ := hy
  have hreach := h.reach
  have hcanon := canon_cons.mp h.canonRest
  exact
    { lists := h.lists
      done := h.done
      first := hm
      reach := by omega
      le := hle
      merged := fun a h₁ h₂ => by omega
      todo := fun a h₁ _ h₃ => hf a h₁ h₃
      rest := hrest
      canonDone := h.link hm y rfl
      canonRest := hcanon.1
      link := fun _ => hcanon.2
      told := h.told }

end Passed

namespace Scan

/-- All nodes, with the counts as they are before the node is changed, if it starts where the pass
starts or behind. Kind: L -/
lemma tiles (h : Scan mm f start stop inc as x bs) (hx : start ≤ x.start) :
    Leads (tile (partly f start stop inc x.start)) 0 (as ++ x :: bs) wordSize := by
  have hle := h.le
  refine (tiles_congr h.done fun a _ ha => ?_).append ⟨x.stop + 1, ?_, ?_⟩
  · exact (if_pos ha).symm
  · exact ⟨rfl, hle, rfl, fun a h₁ h₂ => (if_neg (Nat.not_lt.mpr h₁)).trans
      (h.todo a h₁ (hx.trans h₁) h₂)⟩
  · exact tiles_congr h.rest fun a ha _ => (if_neg (by omega)).symm

/-- The node is cut at the end of the range. Kind: L -/
lemma trim (h : Scan mm f start stop inc as x bs) (hm : mm.malloc 0 = true) (hstop : stop < x.stop)
    (hle : start ≤ stop) :
    ∃ t, mm.splitRange x.start (stop + 1) =
        some ({ mm with root := t, malloc := fun n => mm.malloc (n + 1) }, some (stop + 1)) ∧
      Scan { mm with root := t, malloc := fun n => mm.malloc (n + 1) } f start stop inc as
        { x with stop := stop } (⟨stop + 1, x.stop, x.refcnt⟩ :: bs) := by
  have hfirst := h.first
  have hstarts := tiles_start h.rest
  have hcut : x.start < stop + 1 := by omega
  obtain ⟨t, hsplit, hlist⟩ := Mm.splitRange_spec h.lists hm hcut fun y hy => by
    have := hstarts y hy
    omega
  refine ⟨t, hsplit, ?_⟩
  exact
    { lists := hlist
      done := h.done
      first := hfirst
      reach := hle
      le := hfirst
      merged := h.merged
      todo := fun a h₁ h₂ h₃ => h.todo a h₁ h₂ (by change a ≤ stop at h₃; omega)
      rest := ⟨x.stop + 1, ⟨rfl, hstop, rfl, fun a h₁ h₂ =>
        h.todo a (by change stop + 1 ≤ a at h₁; omega) (by change stop + 1 ≤ a at h₁; omega) h₂⟩,
        h.rest⟩
      canonDone := canon_snoc.mpr (canon_snoc.mp h.canonDone :)
      canonRest := canon_cons.mpr ⟨h.canonRest, h.link hstop.ne'⟩
      link := fun hne => absurd rfl hne
      told := h.told }

/-- What the kernel was told, after the node. `madvise` was called if the count leaves 0 or comes
back to it, and otherwise nothing had to be said. Kind: L -/
lemma told_advise {advice : Advice} (h : Scan mm f start stop advice.inc as x bs)
    (hx : x.stop ≤ stop) (hneed : Mm.NeedsAdvice x advice.inc) :
    Told (mm.advise start x advice) (partly f start stop advice.inc (x.stop + 1)) := by
  intro a ha
  have htold := h.told a ha
  have hle := h.le
  by_cases hin : max start x.start ≤ a ∧ a ≤ x.stop
  · have hf := h.todo a (by omega) (by omega) hin.2
    have hpart : partly f start stop advice.inc (x.stop + 1) a = x.refcnt + advice.inc := by
      rw [partly, if_pos (by omega), shiftOn, if_pos (by omega), hf]
    rw [Mm.advise, hpart]
    simp only [if_pos hin]
    unfold Mm.NeedsAdvice at hneed
    cases advice <;> simp_all [Advice.inc]
  · have hpart : partly f start stop advice.inc (x.stop + 1) a =
        partly f start stop advice.inc x.start a := by
      unfold partly shiftOn
      split_ifs <;> first | rfl | omega
    rw [Mm.advise, hpart]
    simp only [if_neg hin]
    exact htold

/-- What the kernel was told, after a node at which nothing had to be said. Kind: L -/
lemma told_skip {advice : Advice} (h : Scan mm f start stop advice.inc as x bs)
    (hx : x.stop ≤ stop) (hneed : ¬ Mm.NeedsAdvice x advice.inc) :
    Told mm (partly f start stop advice.inc (x.stop + 1)) := by
  intro a ha
  rw [h.told a ha, decide_eq_decide]
  by_cases hin : max start x.start ≤ a ∧ a ≤ x.stop
  · have hf := h.todo a (by omega) (by omega) hin.2
    have hold : partly f start stop advice.inc x.start a = x.refcnt := by
      rw [partly, if_neg (by omega), hf]
    have hnew : partly f start stop advice.inc (x.stop + 1) a = x.refcnt + advice.inc := by
      rw [partly, if_pos (by omega), shiftOn, if_pos (by omega), hf]
    rw [hold, hnew]
    cases advice <;> simp [Mm.NeedsAdvice, Advice.inc] at hneed ⊢ <;> omega
  · have hle := h.le
    have hpart : partly f start stop advice.inc (x.stop + 1) a =
        partly f start stop advice.inc x.start a := by
      unfold partly shiftOn
      split_ifs <;> first | rfl | omega
    rw [hpart]

/-- The count of the node is changed. Kind: L -/
lemma bumpNode_spec (h : Scan mm f start stop inc as x bs) (hx : x.stop ≤ stop) (mm₁ : Mm)
    (hroot : mm₁.root = mm.root) (htold : Told mm₁ (partly f start stop inc (x.stop + 1))) :
    ∃ t, mm₁.bumpNode x.start inc =
        some ({ mm₁ with root := t }, .next (bs.head?.map MemNode.start)) ∧
      Passed { mm₁ with root := t } f start stop inc (x.stop + 1) (as ++ [x.bump inc]) bs := by
  have hle := h.le
  have hreach := h.reach
  have hlists := h.lists
  rw [← hroot] at hlists
  obtain ⟨t, ht, hlist⟩ := Mm.bumpNode_eq hlists inc
  refine ⟨t, ht, ?_⟩
  exact
    { lists := by simpa using hlist
      done := h.done.snoc ⟨rfl, hle, rfl, fun a h₁ h₂ => by
        change x.start ≤ a at h₁
        change a ≤ x.stop at h₂
        change _ = x.refcnt + inc
        by_cases ha : start ≤ a
        · rw [shiftOn, if_pos (by omega), h.todo a h₁ ha h₂]
        · rw [shiftOn, if_neg (by omega), h.merged a h₁ (by omega)]⟩
      reach := by omega
      le := by omega
      rest := h.rest
      canonDone := h.canonDone
      canonRest := h.canonRest
      link := fun hm y hy => by
        have hlink := h.link (by omega) y hy
        rw [canon_snoc]
        refine ⟨h.canonDone, fun p hp => ?_⟩
        rw [List.getLast?_concat, Option.mem_def, Option.some.injEq] at hp
        subst hp
        change x.refcnt + inc ≠ y.refcnt + inc
        omega
      told := htold }

/-- **A round of the loop** at a node that ends in the range: it is changed, or its `madvise` is
refused. Kind: L -/
lemma adviseNode_spec {advice : Advice} (h : Scan mm f start stop advice.inc as x bs)
    (hx : x.stop ≤ stop) :
    (∃ mm', mm.adviseNode start advice x.start =
        some (mm', .next (bs.head?.map MemNode.start)) ∧ mm.Later mm' ∧
      Passed mm' f start stop advice.inc (x.stop + 1) (as ++ [x.bump advice.inc]) bs) ∨
    ∃ mm', mm.adviseNode start advice x.start = some (mm', .refused) ∧ mm.Later mm' ∧
      ¬ mm.Accepts advice ∧ Scan mm' f start stop advice.inc as x bs ∧
      Mm.NeedsAdvice x advice.inc := by
  rw [Mm.adviseNode, h.lists.get_eq]
  simp only [Option.bind_eq_bind, Option.bind_some]
  by_cases hneed : Mm.NeedsAdvice x advice.inc
  · rw [if_pos hneed]
    by_cases hok : mm.madvise 0 advice = true
    · obtain ⟨t, ht, hpassed⟩ := h.bumpNode_spec hx (mm.advise start x advice) rfl
        (h.told_advise hx hneed)
      rw [if_pos hok, ht]
      exact .inl ⟨_, rfl, ⟨⟨0, rfl⟩, ⟨1, rfl⟩⟩, hpassed⟩
    · rw [if_neg hok]
      exact .inr ⟨_, rfl, ⟨⟨0, rfl⟩, ⟨1, rfl⟩⟩, fun h => hok (h 0), { h with }, hneed⟩
  · rw [if_neg hneed]
    obtain ⟨t, ht, hpassed⟩ := h.bumpNode_spec hx mm rfl (h.told_skip hx hneed)
    exact .inl ⟨_, ht, ⟨⟨0, rfl⟩, ⟨0, rfl⟩⟩, hpassed⟩

end Scan

/-- The loop stands at a node whose `madvise` was refused. Kind: D -/
structure Refused (mm : Mm) (f : ℕ → ℤ) (start stop : ℕ) (advice : Advice) (node : ℕ)
    (as : List MemNode) (x : MemNode) (bs : List MemNode) : Prop where
  scan : Scan mm f start stop advice.inc as x bs
  start_eq : x.start = node
  stop_le : x.stop ≤ stop
  needs : Mm.NeedsAdvice x advice.inc

/-- **A round of the loop.** Kind: L -/
lemma Scan.madviseNode_spec {advice : Advice} (h : Scan mm f start stop advice.inc as x bs)
    (hm : mm.Supplied) (hle : start ≤ stop) :
    (∃ mm' m as' bs', mm.madviseNode start stop advice x.start =
        some (mm', .next (bs'.head?.map MemNode.start)) ∧ mm.Later mm' ∧
      Passed mm' f start stop advice.inc m as' bs' ∧ (m ≤ stop → bs' = bs)) ∨
    ∃ mm' x' bs', mm.madviseNode start stop advice x.start = some (mm', .refused) ∧
      mm.Later mm' ∧ ¬ mm.Accepts advice ∧
      Refused mm' f start stop advice x.start as x' bs' := by
  rw [Mm.madviseNode, h.lists.get_eq]
  simp only [Option.bind_eq_bind, Option.bind_some]
  by_cases hstop : stop < x.stop
  · obtain ⟨t, hsplit, htrim⟩ := h.trim (hm 0) hstop hle
    have hlater : mm.Later { mm with root := t, malloc := fun n => mm.malloc (n + 1) } :=
      ⟨⟨1, rfl⟩, ⟨0, rfl⟩⟩
    simp only [if_pos hstop, hsplit, Option.bind_some]
    rcases htrim.adviseNode_spec le_rfl with
      ⟨mm', hmm', hl, hpassed⟩ | ⟨mm', hmm', hl, hrefuse, hscan, hneed⟩
    · exact .inl ⟨mm', _, _, _, hmm', hlater.trans hl, hpassed,
        fun hlt => absurd hlt (Nat.not_succ_le_self stop)⟩
    · exact .inr ⟨mm', _, _, hmm', hlater.trans hl, fun ha => hrefuse (hlater.accepts ha),
        hscan, rfl, le_rfl, hneed⟩
  · rw [if_neg hstop]
    rcases h.adviseNode_spec (Nat.not_lt.mp hstop) with
      ⟨mm', hmm', hl, hpassed⟩ | ⟨mm', hmm', hl, hrefuse, hscan, hneed⟩
    · exact .inl ⟨mm', _, _, _, hmm', hl, hpassed, fun _ => rfl⟩
    · exact .inr ⟨mm', _, _, hmm', hl, hrefuse, hscan, rfl, Nat.not_lt.mp hstop, hneed⟩

/-- **The loop.** It passes over all the nodes of the range, or stops at a refused `madvise`.
Kind: L -/
lemma Scan.madviseLoop_spec {advice : Advice} {fuel : ℕ}
    (h : Scan mm f start stop advice.inc as x bs) (hm : mm.Supplied) (hle : start ≤ stop)
    (hstop : stop < wordSize) (hfuel : bs.length + 2 ≤ fuel) :
    (∃ mm' as' bs', Mm.madviseLoop start stop advice fuel mm (some x.start) =
        some (mm', .finished (bs'.head?.map MemNode.start)) ∧ mm.Later mm' ∧
      Passed mm' f start stop advice.inc (stop + 1) as' bs') ∨
    ∃ mm' node as' x' bs', Mm.madviseLoop start stop advice fuel mm (some x.start) =
        some (mm', .refused node) ∧ mm.Later mm' ∧ ¬ mm.Accepts advice ∧
      Refused mm' f start stop advice node as' x' bs' := by
  induction fuel generalizing mm as x bs with
  | zero => omega
  | succ fuel ih =>
      rw [Mm.madviseLoop, h.lists.get_eq]
      simp only [Option.bind_eq_bind, Option.bind_some, if_pos h.first]
      rcases h.madviseNode_spec hm hle with
        ⟨mm', m, as', bs', hnode, hl, hpassed, hbs⟩ | ⟨mm', x', bs', hnode, hl, hrefuse, hscan⟩
      · simp only [hnode, Option.bind_some]
        by_cases hend : m ≤ stop
        · -- The range goes on, so there is another node.
          obtain rfl := hbs hend
          cases bs' with
          | nil =>
              have := hpassed.rest
              simp only [leads_nil] at this
              omega
          | cons y bs =>
              rcases ih (hpassed.scan hend) (hl.supplied hm) (by simp at hfuel ⊢; omega) with
                ⟨mm₂, as₂, bs₂, h₂, hl₂, hp₂⟩ | ⟨mm₂, node, as₂, x₂, bs₂, h₂, hl₂, hr₂, hp₂⟩
              · exact .inl ⟨mm₂, as₂, bs₂, h₂, hl.trans hl₂, hp₂⟩
              · exact .inr ⟨mm₂, node, as₂, x₂, bs₂, h₂, hl.trans hl₂,
                  fun ha => hr₂ (hl.accepts ha), hp₂⟩
        · obtain rfl : m = stop + 1 := le_antisymm hpassed.le (by omega)
          refine .inl ⟨mm', as', bs', ?_, hl, hpassed⟩
          obtain ⟨k, rfl⟩ : ∃ k, fuel = k + 1 := ⟨fuel - 1, by omega⟩
          cases bs' with
          | nil => rfl
          | cons y bs =>
              obtain ⟨hi, hy, -⟩ := hpassed.rest
              have hlt : ¬ y.start ≤ stop := by
                have := hy.1
                omega
              simp only [List.head?_cons, Option.map_some, Mm.madviseLoop, hpassed.lists.get_eq,
                Option.bind_eq_bind, Option.bind_some, if_neg hlt]
      · exact .inr ⟨mm', x.start, as, x', bs', by simp only [hnode, Option.bind_some], hl, hrefuse,
          hscan⟩

end FreeFlow.Fork
