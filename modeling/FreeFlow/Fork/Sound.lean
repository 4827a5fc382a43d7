import FreeFlow.Fork.Calls

/-!
# When memory runs out

A `malloc` that fails in the middle of a pass leaves the counts as they are then, and a refused
release may leave them lowered, so the counts say nothing about the calls any more. The tree is
still a tree: its nodes cover the address space, and every call returns.

* `Whole` — the tree is balanced, and its nodes cover the address space without a gap or an overlap.
* `Process.whole_of_run` — over all runs, whatever `malloc` and `madvise` answer.

Source: `memory.c`.
-/

namespace FreeFlow.Fork

open FreeFlow.Found

variable {as bs xs : List MemNode} {x y p : MemNode} {lo hi start stop : ℕ} {mm : Mm}
  {t : RbTree MemNode}

/-! ## Nodes that cover the address space -/

/-- A node covers the addresses from `lo` to before `hi`. Kind: D -/
def covers (lo : ℕ) (x : MemNode) (hi : ℕ) : Prop :=
  x.start = lo ∧ x.start ≤ x.stop ∧ hi = x.stop + 1

/-- The tree is balanced, and its nodes cover the address space. Kind: D -/
structure Whole (t : RbTree MemNode) (xs : List MemNode) : Prop where
  lists : Lists t xs
  cover : Leads covers 0 xs wordSize

/-- Nodes that cover addresses give each of them a count. Kind: L -/
lemma exists_tiles (h : Leads covers lo xs hi) : ∃ f, Leads (tile f) lo xs hi := by
  induction xs generalizing lo with
  | nil => exact ⟨fun _ => 0, h⟩
  | cons x xs ih =>
      obtain ⟨m, ⟨h₁, h₂, h₃⟩, hrest⟩ := h
      obtain ⟨f, hf⟩ := ih hrest
      refine ⟨fun a => if a ≤ x.stop then x.refcnt else f a, m,
        ⟨h₁, h₂, h₃, fun a _ ha => if_pos ha⟩, tiles_congr hf fun a ha _ => ?_⟩
      exact (if_neg (by omega)).symm

namespace Whole

/-- The node of an address. Kind: L -/
lemma find (h : Whole t xs) (hstart : start < wordSize) :
    ∃ as x bs, xs = as ++ x :: bs ∧ mmFindStart t start = some x ∧ x.start ≤ start ∧
      start ≤ x.stop := by
  obtain ⟨f, hf⟩ := exists_tiles h.cover
  obtain ⟨as, x, bs, rfl, hx, hx'⟩ := tiles_find hf (Nat.zero_le start) hstart
  exact ⟨as, x, bs, rfl, mmFindStart_eq h.lists hf hx hx', hx, hx'⟩

/-- The nodes before and behind a node. Kind: L -/
lemma parts (h : Whole t (as ++ x :: bs)) :
    Leads covers 0 as x.start ∧ x.start ≤ x.stop ∧ Leads covers (x.stop + 1) bs wordSize := by
  obtain ⟨m, has, m', ⟨rfl, hle, rfl⟩, hbs⟩ := leads_append_iff.mp h.cover
  exact ⟨has, hle, hbs⟩

/-- The nodes behind a node start behind its end. Kind: L -/
lemma stop_lt (h : Whole t (as ++ x :: bs)) : ∀ y ∈ bs, x.stop < y.start := by
  obtain ⟨-, -, hbs⟩ := h.parts
  obtain ⟨f, hf⟩ := exists_tiles hbs
  exact tiles_start hf

/-- A node that keeps its place. Kind: L -/
lemma modify_eq (h : Whole t (as ++ x :: bs)) (f : MemNode → MemNode)
    (hf : (f x).start = x.start) (hf' : (f x).stop = x.stop) :
    ∃ t', modify t x.start f = some t' ∧ Whole t' (as ++ f x :: bs) := by
  obtain ⟨has, hle, hbs⟩ := h.parts
  obtain ⟨t', ht', hlist⟩ := h.lists.modify_eq f hf
  exact ⟨t', ht', hlist, has.append ⟨x.stop + 1, ⟨hf, by omega, by omega⟩, hbs⟩⟩

/-- `merge_ranges`. Kind: L -/
lemma mergeRanges_eq (h : Whole mm.root (as ++ p :: x :: bs)) :
    ∃ t, mm.mergeRanges x.start p.start = some { mm with root := t } ∧
      Whole t (as ++ { p with stop := x.stop, refcnt := x.refcnt } :: bs) := by
  obtain ⟨has, hle, m, ⟨h₁, h₂, h₃⟩, hbs⟩ := h.parts
  obtain ⟨t, ht, hlist⟩ := Mm.mergeRanges_spec h.lists
  refine ⟨t, ht, hlist, has.append ⟨m, ⟨rfl, ?_, h₃⟩, hbs⟩⟩
  change p.start ≤ x.stop
  omega

/-- `split_range`, inside a node. Kind: L -/
lemma splitRange_eq (h : Whole mm.root (as ++ x :: bs)) {cutLine : ℕ} (hlt : x.start < cutLine)
    (hle : cutLine ≤ x.stop) :
    (∃ mm', mm.splitRange x.start cutLine = some (mm', none) ∧ mm'.root = mm.root) ∨
    ∃ mm', mm.splitRange x.start cutLine = some (mm', some cutLine) ∧
      Whole mm'.root
        (as ++ { x with stop := cutLine - 1 } :: ⟨cutLine, x.stop, x.refcnt⟩ :: bs) := by
  obtain ⟨has, -, hbs⟩ := h.parts
  by_cases hm : mm.malloc 0 = true
  · right
    obtain ⟨t, ht, hlist⟩ := Mm.splitRange_spec h.lists hm hlt fun y hy =>
      hle.trans_lt (h.stop_lt y hy)
    refine ⟨_, ht, hlist, has.append ⟨cutLine, ⟨rfl, ?_, ?_⟩, x.stop + 1, ⟨rfl, hle, rfl⟩, hbs⟩⟩
    · change x.start ≤ cutLine - 1
      omega
    · change cutLine = cutLine - 1 + 1
      omega
  · left
    rw [Mm.splitRange, if_neg hm]
    exact ⟨_, rfl, rfl⟩

/-- A node and the one before it. Kind: L -/
lemma mergePrev_eq (h : Whole mm.root (as ++ x :: bs)) :
    ∃ mm' as' z, mm.mergePrev x.start = some (mm', z.start) ∧ Whole mm'.root (as' ++ z :: bs) := by
  rw [Mm.mergePrev, h.lists.get_eq, h.lists.prevOf_eq]
  rcases List.eq_nil_or_concat as with rfl | ⟨as, p, rfl⟩
  · exact ⟨mm, [], x, rfl, h⟩
  · simp only [List.concat_eq_append, List.getLast?_concat, Option.bind_eq_bind,
      Option.bind_some] at h ⊢
    by_cases heq : p.refcnt = x.refcnt
    · rw [List.append_assoc, List.singleton_append] at h
      obtain ⟨t, ht, hwhole⟩ := h.mergeRanges_eq
      exact ⟨{ mm with root := t }, as, _, by rw [if_pos heq, ht]; rfl, hwhole⟩
    · exact ⟨mm, as ++ [p], x, by rw [if_neg heq], h⟩

/-- A node and the one behind it. Kind: L -/
lemma mergeNext_eq (h : Whole mm.root (as ++ x :: bs)) :
    ∃ mm' z bs', mm.mergeNext x.start = some mm' ∧ z.start = x.start ∧
      Whole mm'.root (as ++ z :: bs') := by
  rw [Mm.mergeNext, h.lists.get_eq, h.lists.nextOf_eq]
  cases bs with
  | nil => exact ⟨mm, x, [], rfl, rfl, h⟩
  | cons y bs =>
      simp only [List.head?_cons, Option.bind_eq_bind, Option.bind_some]
      by_cases heq : y.refcnt = x.refcnt
      · obtain ⟨t, ht, hwhole⟩ := h.mergeRanges_eq
        exact ⟨{ mm with root := t }, { x with stop := y.stop, refcnt := y.refcnt }, bs,
          by rw [if_pos heq, ht], rfl, hwhole⟩
      · exact ⟨mm, x, y :: bs, by rw [if_neg heq], rfl, h⟩

/-- The end of `undo_node`. Kind: L -/
lemma settleNode_eq (h : Whole mm.root (as ++ x :: bs)) :
    ∃ mm' as' z bs', mm.settleNode x.start = some (mm', some z.start) ∧
      Whole mm'.root (as' ++ z :: bs') := by
  obtain ⟨mm₁, as₁, z₁, hprev, h₁⟩ := h.mergePrev_eq
  obtain ⟨mm₂, z₂, bs₂, hnext, hz, h₂⟩ := h₁.mergeNext_eq
  refine ⟨mm₂, as₁, z₂, bs₂, ?_, h₂⟩
  rw [Mm.settleNode, hprev]
  simp only [Option.bind_eq_bind, Option.bind_some, hnext, hz]

end Whole

/-! ## A pass -/

/-- What a function returns that may have run out of memory: a tree, and a node of it or none.
Kind: D -/
def Node (mm : Mm) (r : Option ℕ) : Prop :=
  (∃ xs, Whole mm.root xs) ∧
    ∀ node, r = some node → ∃ as z bs, z.start = node ∧ Whole mm.root (as ++ z :: bs)

/-- No node. Kind: L -/
lemma Whole.no_node (h : Whole mm.root xs) : Node mm none :=
  ⟨⟨xs, h⟩, fun _ hnode => by cases hnode⟩

/-- A node. Kind: L -/
lemma Whole.node (h : Whole mm.root (as ++ x :: bs)) : Node mm (some x.start) :=
  ⟨⟨_, h⟩, fun _ hnode => ⟨as, x, bs, Option.some.inj hnode, h⟩⟩

/-- **`get_start_node`** finds the node of the start. Kind: L -/
lemma Whole.getStartNode_eq (inc : ℤ) (h : Whole mm.root xs) (hstart : start < wordSize) :
    (∃ mm', mm.getStartNode start inc = some (mm', none) ∧ ∃ xs, Whole mm'.root xs) ∨
    ∃ mm' as x bs, mm.getStartNode start inc = some (mm', some x.start) ∧
      Whole mm'.root (as ++ x :: bs) ∧ x.start ≤ start ∧ start ≤ x.stop := by
  obtain ⟨as, x, bs, rfl, hfind, hx, hx'⟩ := h.find hstart
  rw [Mm.getStartNode, hfind]
  simp only [Option.bind_eq_bind, Option.bind_some]
  by_cases hlt : x.start < start
  · rw [if_pos hlt]
    rcases h.splitRange_eq hlt hx' with ⟨mm', hsplit, hroot⟩ | ⟨mm', hsplit, hwhole⟩
    · exact .inl ⟨mm', hsplit, _, hroot ▸ h⟩
    · rw [List.append_cons] at hwhole
      exact .inr ⟨mm', _, _, bs, hsplit, hwhole, le_rfl, hx'⟩
  · rw [if_neg hlt, h.lists.prevOf_eq]
    right
    rcases List.eq_nil_or_concat as with rfl | ⟨as, p, rfl⟩
    · exact ⟨mm, [], x, bs, rfl, h, hx, hx'⟩
    · simp only [List.concat_eq_append, List.getLast?_concat, Option.bind_some] at h ⊢
      by_cases heq : p.refcnt = x.refcnt + inc
      · have hp : p.start < x.start := h.lists.lt.1 p (by simp)
        rw [List.append_assoc, List.singleton_append] at h
        obtain ⟨t, ht, hwhole⟩ := h.mergeRanges_eq
        refine ⟨{ mm with root := t }, as, _, bs, by rw [if_pos heq, ht]; rfl, hwhole, ?_, hx'⟩
        change p.start ≤ start
        omega
      · exact ⟨mm, as ++ [p], x, bs, by rw [if_neg heq], h, hx, hx'⟩

/-- **`undo_node`.** Kind: L -/
lemma Whole.undoNode_eq (inc : ℤ) (h : Whole mm.root (as ++ x :: bs)) (hreach : start ≤ x.stop) :
    ∃ mm' r, mm.undoNode x.start start inc = some (mm', r) ∧ Node mm' r := by
  rw [Mm.undoNode, h.lists.get_eq]
  simp only [Option.bind_eq_bind, Option.bind_some]
  by_cases hlt : x.start < start
  · rw [if_pos hlt]
    rcases h.splitRange_eq hlt hreach with ⟨mm', hsplit, hroot⟩ | ⟨mm', hsplit, hwhole⟩
    · exact ⟨mm', none, by rw [hsplit]; rfl, (hroot.symm ▸ h : Whole mm'.root _).no_node⟩
    · obtain ⟨t, ht, hwhole'⟩ := hwhole.modify_eq (MemNode.bump · inc) rfl rfl
      rw [List.append_cons] at hwhole'
      have hwhole₁ : Whole ({ mm' with root := t } : Mm).root _ := hwhole'
      obtain ⟨mm₂, as₂, z, bs₂, hsettle, h₂⟩ := hwhole₁.settleNode_eq
      refine ⟨mm₂, some z.start, ?_, h₂.node⟩
      rw [hsplit]
      simp only [Option.bind_some]
      change (modify mm'.root x.start (MemNode.bump · inc)).bind _ = _
      erw [ht]
      exact hsettle
  · rw [if_neg hlt]
    obtain ⟨mm₂, as₂, z, bs₂, hsettle, h₂⟩ := h.settleNode_eq
    exact ⟨mm₂, some z.start, hsettle, h₂.node⟩

/-- The count of a node is changed, or its `madvise` is refused. Kind: L -/
lemma Whole.adviseNode_eq (h : Whole mm.root (as ++ x :: bs)) (start : ℕ) (advice : Advice) :
    (∃ mm', mm.adviseNode start advice x.start = some (mm', .next (bs.head?.map MemNode.start)) ∧
      Whole mm'.root (as ++ x.bump advice.inc :: bs)) ∨
    ∃ mm', mm.adviseNode start advice x.start = some (mm', .refused) ∧
      Whole mm'.root (as ++ x :: bs) := by
  obtain ⟨has, hle, hbs⟩ := h.parts
  have hbump : ∀ mm₁ : Mm, mm₁.root = mm.root → ∃ mm', mm₁.bumpNode x.start advice.inc =
      some (mm', .next (bs.head?.map MemNode.start)) ∧
        Whole mm'.root (as ++ x.bump advice.inc :: bs) := by
    intro mm₁ hroot
    rw [← hroot] at h
    obtain ⟨t, ht, hlist⟩ := Mm.bumpNode_eq h.lists advice.inc
    exact ⟨_, ht, hlist, has.append ⟨x.stop + 1, ⟨rfl, hle, rfl⟩, hbs⟩⟩
  rw [Mm.adviseNode, h.lists.get_eq]
  simp only [Option.bind_eq_bind, Option.bind_some]
  by_cases hneed : Mm.NeedsAdvice x advice.inc
  · rw [if_pos hneed]
    by_cases hok : mm.madvise 0 advice = true
    · rw [if_pos hok]
      exact .inl (hbump _ rfl)
    · rw [if_neg hok]
      exact .inr ⟨_, rfl, h⟩
  · rw [if_neg hneed]
    exact .inl (hbump _ rfl)

/-- The loop can go on at the next node. Kind: D -/
structure Onward (mm : Mm) (start : ℕ) (as bs : List MemNode) : Prop where
  whole : Whole mm.root (as ++ bs)
  reach : ∀ y ∈ bs.head?, start ≤ y.stop

/-- The node behind a node that reaches into the range does so too. Kind: L -/
lemma Whole.onward (h : Whole mm.root (as ++ x :: bs)) (hreach : start ≤ x.stop) :
    Onward mm start (as ++ [x]) bs := by
  refine ⟨by rwa [List.append_cons] at h, fun y hy => ?_⟩
  obtain ⟨bs, rfl⟩ : ∃ bs', bs = y :: bs' := List.head?_eq_some_iff.mp hy
  have hlt := h.stop_lt y (by simp)
  rw [List.append_cons] at h
  have hle := h.parts.2.1
  omega

/-- **A round of the loop.** Kind: L -/
lemma Whole.madviseNode_eq (advice : Advice) (h : Whole mm.root (as ++ x :: bs))
    (hle : start ≤ stop) (hfirst : x.start ≤ stop) (hreach : start ≤ x.stop) :
    (∃ mm', mm.madviseNode start stop advice x.start = some (mm', .noMemory) ∧
      ∃ xs, Whole mm'.root xs) ∨
    (∃ mm' as' x' bs', mm.madviseNode start stop advice x.start = some (mm', .refused) ∧
      x'.start = x.start ∧ start ≤ x'.stop ∧ Whole mm'.root (as' ++ x' :: bs')) ∨
    ∃ mm' as' bs', mm.madviseNode start stop advice x.start =
        some (mm', .next (bs'.head?.map MemNode.start)) ∧
      Onward mm' start as' bs' ∧ (bs' = bs ∨ ∀ y ∈ bs'.head?, stop < y.start) := by
  rw [Mm.madviseNode, h.lists.get_eq]
  simp only [Option.bind_eq_bind, Option.bind_some]
  by_cases hstop : stop < x.stop
  · rw [if_pos hstop]
    rcases h.splitRange_eq (Nat.lt_succ_of_le hfirst) hstop with
      ⟨mm', hsplit, hroot⟩ | ⟨mm', hsplit, hwhole⟩
    · exact .inl ⟨mm', by rw [hsplit]; rfl, _, hroot ▸ h⟩
    · rw [hsplit]
      simp only [Option.bind_some]
      rcases hwhole.adviseNode_eq start advice with
        ⟨mm₂, hadvise, h₂⟩ | ⟨mm₂, hadvise, h₂⟩
      · refine .inr (.inr ⟨mm₂, _, _, hadvise, h₂.onward hle, .inr fun y hy => ?_⟩)
        cases hy
        exact Nat.lt_succ_self stop
      · exact .inr (.inl ⟨mm₂, as, { x with stop := stop }, _, hadvise, rfl, hle, h₂⟩)
  · rw [if_neg hstop]
    rcases h.adviseNode_eq start advice with
      ⟨mm₂, hadvise, h₂⟩ | ⟨mm₂, hadvise, h₂⟩
    · exact .inr (.inr ⟨mm₂, _, _, hadvise, h₂.onward hreach, .inl rfl⟩)
    · exact .inr (.inl ⟨mm₂, _, _, _, hadvise, rfl, hreach, h₂⟩)

/-- **The loop** ends. Kind: L -/
lemma Whole.madviseLoop_eq {fuel : ℕ} (advice : Advice) (h : Whole mm.root (as ++ x :: bs))
    (hle : start ≤ stop) (hreach : start ≤ x.stop) (hfuel : bs.length + 2 ≤ fuel) :
    (∃ mm', Mm.madviseLoop start stop advice fuel mm (some x.start) = some (mm', .noMemory) ∧
      ∃ xs, Whole mm'.root xs) ∨
    (∃ mm' as' x' bs', Mm.madviseLoop start stop advice fuel mm (some x.start) =
        some (mm', .refused x'.start) ∧ start ≤ x'.stop ∧ Whole mm'.root (as' ++ x' :: bs')) ∨
    ∃ mm' as' bs', Mm.madviseLoop start stop advice fuel mm (some x.start) =
        some (mm', .finished (bs'.head?.map MemNode.start)) ∧ Whole mm'.root (as' ++ bs') := by
  induction fuel generalizing mm as x bs with
  | zero => omega
  | succ fuel ih =>
      rw [Mm.madviseLoop, h.lists.get_eq]
      simp only [Option.bind_eq_bind, Option.bind_some]
      by_cases hfirst : x.start ≤ stop
      · rw [if_pos hfirst]
        rcases h.madviseNode_eq advice hle hfirst hreach with
          ⟨mm', hnode, hw⟩ | ⟨mm', as', x', bs', hnode, hx', hr, hw⟩ |
          ⟨mm', as', bs', hnode, hon, hbs⟩
        · exact .inl ⟨mm', by rw [hnode]; rfl, hw⟩
        · exact .inr (.inl ⟨mm', as', x', bs', by rw [hnode, hx']; rfl, hr, hw⟩)
        · rw [hnode]
          simp only [Option.bind_some]
          obtain ⟨k, rfl⟩ : ∃ k, fuel = k + 1 := ⟨fuel - 1, by omega⟩
          cases bs' with
          | nil => exact .inr (.inr ⟨mm', as', [], rfl, hon.whole⟩)
          | cons y bs' =>
              rcases hbs with rfl | hend
              · exact ih hon.whole (hon.reach y rfl) (by simp at hfuel; omega)
              · -- The next node is behind the range.
                have hlt : ¬ y.start ≤ stop := Nat.not_le.mpr (hend y rfl)
                refine .inr (.inr ⟨mm', as', y :: bs', ?_, hon.whole⟩)
                simp only [List.head?_cons, Option.map_some, Mm.madviseLoop,
                  hon.whole.lists.get_eq, Option.bind_eq_bind, Option.bind_some, if_neg hlt]
      · rw [if_neg hfirst]
        exact .inr (.inr ⟨mm, as, x :: bs, rfl, h⟩)

/-- **A pass** ends, with a tree and, if it was refused, at a node of it. Kind: L -/
lemma Whole.pass_eq (advice : Advice) (h : Whole mm.root xs) (hle : start ≤ stop)
    (hstop : stop < wordSize) :
    ∃ mm' e, mm.pass start stop advice = some (mm', e) ∧ (∃ xs, Whole mm'.root xs) ∧
      ∀ r, e = .refused r → Node mm' r := by
  rw [Mm.pass]
  rcases h.getStartNode_eq advice.inc (hle.trans_lt hstop) with
    ⟨mm₁, hget, hw⟩ | ⟨mm₁, as, x, bs, hget, hw, -, hreach⟩
  · exact ⟨mm₁, .noMemory, by rw [hget]; rfl, hw, fun _ he => by cases he⟩
  · have hfuel : bs.length + 2 ≤ mm₁.root.size + 2 := by
      rw [← RbTree.length_toList, hw.lists.toList_eq]
      simp
      omega
    rw [hget]
    simp only [Option.bind_eq_bind, Option.bind_some]
    rcases hw.madviseLoop_eq advice hle hreach hfuel with
      ⟨mm₂, hloop, hw₂⟩ | ⟨mm₂, as₂, x₂, bs₂, hloop, hr₂, hw₂⟩ | ⟨mm₂, as₂, bs₂, hloop, hw₂⟩
    · exact ⟨mm₂, .noMemory, by rw [hloop]; rfl, hw₂, fun _ he => by cases he⟩
    · obtain ⟨mm₃, r, hundo, hnode⟩ := hw₂.undoNode_eq advice.inc hr₂
      refine ⟨mm₃, .refused r, ?_, hnode.1, fun r' hr' => ?_⟩
      · simp [hloop, hundo]
      · cases hr'
        exact hnode
    · rw [hloop]
      cases bs₂ with
      | nil => exact ⟨mm₂, .done, rfl, ⟨_, hw₂⟩, fun _ he => by cases he⟩
      | cons y bs₂ =>
          obtain ⟨mm₃, as₃, z, hmerge, hw₃⟩ := hw₂.mergePrev_eq
          exact ⟨mm₃, .done, by simp [hmerge], ⟨_, hw₃⟩, fun _ he => by cases he⟩

/-- **A call** returns. Kind: L -/
lemma Whole.call_eq (h : Whole mm.root xs) {c : Call} (hc : c.Valid) :
    ∃ mm' ret, mm.call c = some (mm', ret) ∧ ∃ xs, Whole mm'.root xs := by
  obtain ⟨mm₁, e, hpass, hw, hnode⟩ := h.pass_eq c.advice hc.start_le_stop hc.stop_lt
  rw [Mm.call, Mm.ibvMadviseRange, if_neg hc.size_pos.ne']
  change ∃ mm' ret, (mm.pass c.start c.stop c.advice).bind _ = _ ∧ _
  rw [hpass]
  cases e with
  | done => exact ⟨mm₁, 0, rfl, hw⟩
  | noMemory => exact ⟨mm₁, -1, rfl, hw⟩
  | refused r =>
      cases r with
      | none => exact ⟨mm₁, -1, rfl, hw⟩
      | some node =>
          obtain ⟨-, hz⟩ := hnode _ rfl
          obtain ⟨as, z, bs, rfl, hwz⟩ := hz node rfl
          have hprev := hwz.lists.prevOf_eq
          rcases List.eq_nil_or_concat as with rfl | ⟨as, p, rfl⟩
          · exact ⟨mm₁, -1, by simp [hprev], hw⟩
          · rw [List.concat_eq_append] at hwz
            simp only [List.concat_eq_append, List.getLast?_concat] at hprev
            by_cases hlt : p.stop < Mm.startOf c.pageSize c.base
            · exact ⟨mm₁, -1, by simp [hprev, hlt], hw⟩
            · obtain ⟨f, hf⟩ := exists_tiles hwz.cover
              have hp := (tiles_stop hf p (by simp)).2
              obtain ⟨mm₂, e₂, hpass₂, hw₂, -⟩ :=
                hwz.pass_eq c.advice.flip (Nat.not_lt.mp hlt) hp
              exact ⟨mm₂, -1, by simp [hprev, hlt, hpass₂], hw₂⟩

/-! ## The process -/

/-- `ibv_fork_init` leaves the tree as it is, or makes the first node. Kind: L -/
lemma root_ibvForkInit (lib : Lib) (env : InitEnv) :
    (lib.ibvForkInit env).1.mm.root = lib.mm.root ∨
      (lib.ibvForkInit env).1.mm.root = .node .black .nil ⟨0, wordSize - 1, 0⟩ .nil := by
  cases hroot : lib.mm.root with
  | node c l x r =>
      left
      simp [Lib.ibvForkInit, hroot]
  | nil =>
      unfold Lib.ibvForkInit Lib.tryAdvice Lib.makeRoot
      simp only [hroot]
      cases env.tmp with
      | none => split_ifs <;> exact .inl hroot
      | some tmp =>
          simp only
          split_ifs
          all_goals first | exact .inl hroot | exact .inl rfl | exact .inr rfl

/-- The first node covers the address space. Kind: L -/
lemma whole_makeRoot :
    Whole (.node .black .nil ⟨0, wordSize - 1, 0⟩ .nil) [⟨0, wordSize - 1, 0⟩] :=
  ⟨⟨⟨1, .black .nil .nil⟩, rfl, List.pairwise_singleton _ _⟩,
    leads_singleton.mpr ⟨rfl, Nat.zero_le _, rfl⟩⟩

namespace Process

variable {s : Process}

/-- There is no tree yet, or it covers the address space. Kind: D -/
def Rooted (s : Process) : Prop := s.lib.mm.root = .nil ∨ ∃ xs, Whole s.lib.mm.root xs

/-- The calls are for ranges of the address space. Kind: D -/
def InRange : Act → Prop
  | .init _ => True
  | .dontfork pageSize base size => Call.Valid ⟨.dontfork, pageSize, base, size⟩
  | .dofork pageSize base size => Call.Valid ⟨.dofork, pageSize, base, size⟩

/-- A call returns. Kind: L -/
lemma Rooted.rangeCall (h : s.Rooted) {c : Call} (hc : c.Valid) :
    ∃ r, s.lib.rangeCall c = some r ∧ (s.after c r).Rooted := by
  unfold Lib.rangeCall
  split
  · rename_i hroot
    rcases h with hnil | ⟨xs, hw⟩
    · rw [hnil] at hroot
      cases hroot
    · obtain ⟨mm', ret, hcall, hw'⟩ := hw.call_eq hc
      exact ⟨({ s.lib with mm := mm' }, ret), by rw [hcall]; rfl, .inr hw'⟩
  · rename_i hroot
    exact ⟨_, rfl, .inl hroot⟩

/-- **One step.** Kind: L -/
lemma Rooted.step (h : s.Rooted) {a : Act} (ha : InRange a) :
    ∃ s', s.step a = some s' ∧ s'.Rooted := by
  cases a with
  | init env =>
      refine ⟨_, rfl, ?_⟩
      rcases root_ibvForkInit s.lib env with hroot | hroot
      · unfold Rooted
        rw [hroot]
        exact h
      · unfold Rooted
        rw [hroot]
        exact .inr ⟨_, whole_makeRoot⟩
  | dontfork pageSize base size =>
      obtain ⟨r, hr, hs⟩ := h.rangeCall ha
      exact ⟨_, by rw [Process.step, Lib.ibvDontforkRange, hr]; rfl, hs⟩
  | dofork pageSize base size =>
      obtain ⟨r, hr, hs⟩ := h.rangeCall ha
      exact ⟨_, by rw [Process.step, Lib.ibvDoforkRange, hr]; rfl, hs⟩

/-- **The tree stays a tree.** In every run, whatever `malloc` and `madvise` answer, every call
returns: its loops end and no null pointer is used. Once there is a tree its nodes are in order,
cover the address space without a gap or an overlap, and the tree is not deep. Source: `memory.c`
`ibv_madvise_range`, `__mm_add`, `__mm_remove`. Kind: P -/
theorem whole_of_run (malloc : ℕ → Bool) (madvise : ℕ → Advice → Bool) {acts : List Act}
    (hacts : ∀ a ∈ acts, InRange a) :
    ∃ s, exec Process.step (initial malloc madvise) acts = some s ∧
      (s.lib.mm.root ≠ .nil → Leads covers 0 s.lib.mm.root.toList wordSize) ∧
      s.lib.mm.root.height ≤ 2 * Nat.log 2 (s.lib.mm.root.size + 1) := by
  have hinit : (initial malloc madvise).Rooted := .inl rfl
  obtain ⟨s, hs, hrooted⟩ := exists_exec_of_along (fun s a h ha => Rooted.step h ha) hinit
    (along_of_forall_mem Process.step hacts)
  refine ⟨s, hs, ?_⟩
  rcases hrooted with hnil | ⟨xs, hw⟩
  · rw [hnil]
    exact ⟨fun hne => absurd rfl hne, Nat.zero_le _⟩
  · obtain ⟨n, hn⟩ := hw.lists.balanced
    exact ⟨fun _ => hw.lists.toList_eq.symm ▸ hw.cover, hn.height_le⟩

/-- Memory for the first node and no other. Kind: C -/
theorem whole_of_run_small :
    ((exec Process.step (initial (fun n => n < 1) fun _ _ => true)
        [.init ⟨4096, 0, some 4096, 4096⟩, .dontfork 4096 8192 4096]).map
          fun s => s.lib.mm.root.size) = some 1 ∧
      ∃ s, exec Process.step (initial (fun n => n < 1) fun _ _ => true)
          [.init ⟨4096, 0, some 4096, 4096⟩, .dontfork 4096 8192 4096] = some s ∧
        (s.lib.mm.root ≠ .nil → Leads covers 0 s.lib.mm.root.toList wordSize) ∧
        s.lib.mm.root.height ≤ 2 * Nat.log 2 (s.lib.mm.root.size + 1) := by
  refine ⟨by decide +kernel, whole_of_run _ _ fun a ha => ?_⟩
  rcases List.mem_pair.mp ha with rfl | rfl
  · trivial
  · exact ⟨by decide, by decide, by decide, by decide⟩

end Process

end FreeFlow.Fork
