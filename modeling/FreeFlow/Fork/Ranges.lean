import FreeFlow.Fork.Tree
import FreeFlow.Found.Leads

/-!
# Ranges that a fork does not copy

A range of memory that was registered must not be copied by a `fork`. Registrations overlap, so
`libibverbs` counts them: the tree has a node for every range with one count, the nodes cover the
whole address space, and `madvise` is called where a count leaves 0 or comes back to it. A node is
named by its start, which never changes; a pointer to a node that is gone is a name that is not
found, and `none` stands for its use.

Memory may run out and the kernel may refuse a `madvise`; both are in the state, as the answers to
the calls to come. A refused `madvise` is taken to have changed nothing.

* `Mm`, `Mm.ibvMadviseRange` — the model.
* `Lists` — the tree is balanced and has these nodes in order.
* `Mm.splitRange_spec`, `Mm.mergeRanges_spec` — what the operations do to the list of the nodes.

Source: `memory.c`.
-/

namespace FreeFlow.Fork

open FreeFlow.Found
open RbTree hiding node

/-! ## The model -/

/-- A node. `stop` is `end`. Source: `memory.c` `struct ibv_mem_node`. Kind: D -/
structure MemNode where
  start : ℕ
  stop : ℕ
  refcnt : ℤ
  deriving DecidableEq, Repr

/-- The two kinds of advice. Source: `memory.c` `MADV_DONTFORK`, `MADV_DOFORK`. Kind: D -/
inductive Advice where
  | dontfork
  | dofork
  deriving DecidableEq, Repr

/-- `inc`. Source: `memory.c` `ibv_madvise_range`. Kind: D -/
def Advice.inc : Advice → ℤ
  | .dontfork => 1
  | .dofork => -1

/-- The opposite advice. Source: `memory.c` `ibv_madvise_range`. Kind: D -/
def Advice.flip : Advice → Advice
  | .dontfork => .dofork
  | .dofork => .dontfork

/-- The number of addresses. Kind: D -/
def wordSize : ℕ := 2 ^ 64

/-- The tree, what the kernel was told about every address (`true`: not copied by a `fork`), and
what the next calls of `malloc` and `madvise` will answer (`true`: success). Source: `memory.c`
`mm_root`. Kind: D -/
structure Mm where
  root : RbTree MemNode
  advised : ℕ → Bool
  malloc : ℕ → Bool
  madvise : ℕ → Advice → Bool

/-- Where the node with a given start is. Kind: D -/
def cutAt (start : ℕ) (x : MemNode) : Ordering := compare start x.start

/-- The test of `__mm_find_start`. Source: `memory.c`. Kind: D -/
def cutFind (start : ℕ) (x : MemNode) : Ordering :=
  if x.start ≤ start ∧ start ≤ x.stop then .eq else if x.start < start then .gt else .lt

/-- The test of `__mm_add`. Source: `memory.c`. Kind: D -/
def cutAdd (start : ℕ) (x : MemNode) : Ordering := if x.start < start then .gt else .lt

/-- The node behind a pointer. Kind: D -/
def get (t : RbTree MemNode) (node : ℕ) : Option MemNode :=
  match zoom (cutAt node) t [] with
  | (.node _ _ x _, _) => some x
  | (.nil, _) => none

/-- A node is changed in its place. Kind: D -/
def modify (t : RbTree MemNode) (node : ℕ) (f : MemNode → MemNode) : Option (RbTree MemNode) :=
  match zoom (cutAt node) t [] with
  | (.node c l x r, p) => some (plug (.node c l (f x) r) p)
  | (.nil, _) => none

/-- `__mm_prev` of a node. Source: `memory.c`. Kind: D -/
def prevOf (t : RbTree MemNode) (node : ℕ) : Option (Option MemNode) :=
  match zoom (cutAt node) t [] with
  | (.node c l x r, p) => some (mmPrev (.node c l x r) p)
  | (.nil, _) => none

/-- `__mm_next` of a node. Source: `memory.c`. Kind: D -/
def nextOf (t : RbTree MemNode) (node : ℕ) : Option (Option MemNode) :=
  match zoom (cutAt node) t [] with
  | (.node c l x r, p) => some (mmNext (.node c l x r) p)
  | (.nil, _) => none

/-- `__mm_find_start`. Source: `memory.c`. Kind: D -/
def mmFindStart (t : RbTree MemNode) (start : ℕ) : Option MemNode :=
  match zoom (cutFind start) t [] with
  | (.node _ _ x _, _) => some x
  | (.nil, _) => none

/-- `__mm_add`. Source: `memory.c`. Kind: D -/
def mmAdd (new : MemNode) (t : RbTree MemNode) : Option (RbTree MemNode) :=
  match zoom (cutAdd new.start) t [] with
  | (.nil, parent :: p) => mmAddRebalance (.node .red .nil new .nil) (parent :: p)
  | _ => none

/-- `__mm_remove` of a node. Source: `memory.c`. Kind: D -/
def mmRemove (t : RbTree MemNode) (node : ℕ) : Option (RbTree MemNode) :=
  match zoom (cutAt node) t [] with
  | (.node c l x r, p) => mmRemoveAt (.node c l x r) p
  | (.nil, _) => none

namespace Mm

/-- `merge_ranges`. Source: `memory.c`. Kind: D -/
def mergeRanges (mm : Mm) (node prev : ℕ) : Option Mm := do
  let x ← get mm.root node
  let root ← modify mm.root prev fun p => { p with stop := x.stop, refcnt := x.refcnt }
  let root ← mmRemove root node
  some { mm with root := root }

/-- `split_range`. Source: `memory.c`. Kind: D -/
def splitRange (mm : Mm) (node cutLine : ℕ) : Option (Mm × Option ℕ) :=
  if mm.malloc 0 then do
    let x ← get mm.root node
    let root ← modify mm.root node fun x => { x with stop := cutLine - 1 }
    let root ← mmAdd ⟨cutLine, x.stop, x.refcnt⟩ root
    some ({ mm with root := root, malloc := fun n => mm.malloc (n + 1) }, some cutLine)
  else some ({ mm with malloc := fun n => mm.malloc (n + 1) }, none)

/-- A node and the one before it become one if they have the same count. Source: `memory.c`
`undo_node`, `ibv_madvise_range`. Kind: D -/
def mergePrev (mm : Mm) (node : ℕ) : Option (Mm × ℕ) := do
  let x ← get mm.root node
  match ← prevOf mm.root node with
  | some tmp =>
      if tmp.refcnt = x.refcnt then (mm.mergeRanges node tmp.start).map fun mm => (mm, tmp.start)
      else some (mm, node)
  | none => some (mm, node)

/-- A node and the one behind it become one if they have the same count. Source: `memory.c`
`undo_node`. Kind: D -/
def mergeNext (mm : Mm) (node : ℕ) : Option Mm := do
  let x ← get mm.root node
  match ← nextOf mm.root node with
  | some tmp => if tmp.refcnt = x.refcnt then mm.mergeRanges tmp.start node else some mm
  | none => some mm

/-- `get_start_node`. Source: `memory.c`. Kind: D -/
def getStartNode (mm : Mm) (start : ℕ) (inc : ℤ) : Option (Mm × Option ℕ) := do
  let node ← mmFindStart mm.root start
  if node.start < start then mm.splitRange node.start start
  else
    match ← prevOf mm.root node.start with
    | some tmp =>
        if tmp.refcnt = node.refcnt + inc then
          (mm.mergeRanges node.start tmp.start).map fun mm => (mm, some tmp.start)
        else some (mm, some node.start)
    | none => some (mm, some node.start)

/-- The end of `undo_node`: a node is merged with its neighbours. Source: `memory.c`. Kind: D -/
def settleNode (mm : Mm) (node : ℕ) : Option (Mm × Option ℕ) := do
  let (mm, node) ← mm.mergePrev node
  let mm ← mm.mergeNext node
  some (mm, some node)

/-- `undo_node`. Source: `memory.c`. Kind: D -/
def undoNode (mm : Mm) (node start : ℕ) (inc : ℤ) : Option (Mm × Option ℕ) := do
  let x ← get mm.root node
  if x.start < start then
    match ← mm.splitRange node start with
    | (mm, some tmp) => do
        let root ← modify mm.root node fun x => { x with refcnt := x.refcnt + inc }
        { mm with root := root }.settleNode tmp
    | (mm, none) => some (mm, none)
  else mm.settleNode node

/-- How a round of the loop ends: at the next node, without memory, or with a refused `madvise`.
Kind: D -/
inductive Round where
  | next (node : Option ℕ)
  | noMemory
  | refused

/-- The addresses for which `madvise` is called at a node. Source: `memory.c` `ibv_madvise_range`.
Kind: D -/
def advise (mm : Mm) (start : ℕ) (x : MemNode) (advice : Advice) : Mm :=
  { mm with
    madvise := fun n => mm.madvise (n + 1)
    advised := fun a =>
      if max start x.start ≤ a ∧ a ≤ x.stop then advice = .dontfork else mm.advised a }

/-- `madvise` has to be called at a node. Source: `memory.c` `ibv_madvise_range`. Kind: D -/
def NeedsAdvice (x : MemNode) (inc : ℤ) : Prop :=
  (inc = -1 ∧ x.refcnt = 1) ∨ (inc = 1 ∧ x.refcnt = 0)

instance (x : MemNode) (inc : ℤ) : Decidable (NeedsAdvice x inc) := by
  unfold NeedsAdvice
  infer_instance

/-- The count of a node is changed, and the loop goes on. Source: `memory.c` `ibv_madvise_range`.
Kind: D -/
def bumpNode (mm : Mm) (node : ℕ) (inc : ℤ) : Option (Mm × Round) := do
  let root ← modify mm.root node fun x => { x with refcnt := x.refcnt + inc }
  let next ← nextOf root node
  some ({ mm with root := root }, .next (next.map MemNode.start))

/-- `madvise` is called at a node if it has to be, and the count of the node is changed. Source:
`memory.c` `ibv_madvise_range`. Kind: D -/
def adviseNode (mm : Mm) (start : ℕ) (advice : Advice) (node : ℕ) : Option (Mm × Round) := do
  let x ← get mm.root node
  if NeedsAdvice x advice.inc then
    if mm.madvise 0 advice then (mm.advise start x advice).bumpNode node advice.inc
    else some ({ mm with madvise := fun n => mm.madvise (n + 1) }, .refused)
  else mm.bumpNode node advice.inc

/-- A round of the loop, at a node that starts before the end. Source: `memory.c`
`ibv_madvise_range`. Kind: D -/
def madviseNode (mm : Mm) (start stop : ℕ) (advice : Advice) (node : ℕ) : Option (Mm × Round) := do
  let x ← get mm.root node
  if stop < x.stop then
    match ← mm.splitRange node (stop + 1) with
    | (mm, some _) => mm.adviseNode start advice node
    | (mm, none) => some (mm, .noMemory)
  else mm.adviseNode start advice node

/-- How the loop ends: behind the last node, without memory, or at a refused `madvise`. Kind: D -/
inductive LoopEnd where
  | finished (node : Option ℕ)
  | noMemory
  | refused (node : ℕ)

/-- The loop over the nodes, for at most `fuel` rounds. Source: `memory.c` `ibv_madvise_range`.
Kind: D -/
def madviseLoop (start stop : ℕ) (advice : Advice) : ℕ → Mm → Option ℕ → Option (Mm × LoopEnd)
  | 0, _, _ => none
  | _ + 1, mm, none => some (mm, .finished none)
  | fuel + 1, mm, some node => do
      let x ← get mm.root node
      if x.start ≤ stop then
        match ← mm.madviseNode start stop advice node with
        | (mm, .next node) => madviseLoop start stop advice fuel mm node
        | (mm, .noMemory) => some (mm, .noMemory)
        | (mm, .refused) => some (mm, .refused node)
      else some (mm, .finished (some node))

/-- How a pass ends. A refused `madvise` was undone at its node, unless memory ran out. Kind: D -/
inductive PassEnd where
  | done
  | noMemory
  | refused (node : Option ℕ)

/-- A pass, from the label `again`. Source: `memory.c` `ibv_madvise_range`. Kind: D -/
def pass (mm : Mm) (start stop : ℕ) (advice : Advice) : Option (Mm × PassEnd) := do
  let (mm, node) ← mm.getStartNode start advice.inc
  match node with
  | none => some (mm, .noMemory)
  | some node =>
      match ← madviseLoop start stop advice (mm.root.size + 2) mm (some node) with
      | (mm, .finished (some node)) => (mm.mergePrev node).map fun r => (r.1, .done)
      | (mm, .finished none) => some (mm, .done)
      | (mm, .noMemory) => some (mm, .noMemory)
      | (mm, .refused node) => (mm.undoNode node start advice.inc).map fun r => (r.1, .refused r.2)

/-- The first address of the pages of a range. `pageSize` is a power of two. Source: `memory.c`
`ibv_madvise_range`. Kind: D -/
def startOf (pageSize base : ℕ) : ℕ := base - base % pageSize

/-- The last address of the pages of a range. Source: `memory.c` `ibv_madvise_range`. Kind: D -/
def stopOf (pageSize base size : ℕ) : ℕ :=
  (startOf pageSize ((base + size + pageSize - 1) % wordSize) + (wordSize - 1)) % wordSize

/-- `ibv_madvise_range`, with the page size of the range. After a refused `madvise` a second pass
takes back what the first one has done. Source: `memory.c`. Kind: D -/
def ibvMadviseRange (mm : Mm) (pageSize base size : ℕ) (advice : Advice) : Option (Mm × ℤ) :=
  if size = 0 then some (mm, 0)
  else do
    let start := startOf pageSize base
    match ← mm.pass start (stopOf pageSize base size) advice with
    | (mm, .done) => some (mm, 0)
    | (mm, .noMemory) => some (mm, -1)
    | (mm, .refused none) => some (mm, -1)
    | (mm, .refused (some node)) =>
        match ← prevOf mm.root node with
        | none => some (mm, -1)
        | some tmp =>
            if tmp.stop < start then some (mm, -1)
            else (mm.pass start tmp.stop advice.flip).map fun r => (r.1, -1)

end Mm

/-! ## The nodes in order -/

/-- The tree is balanced and has these nodes, by their start. Kind: D -/
structure Lists (t : RbTree MemNode) (xs : List MemNode) : Prop where
  balanced : ∃ n, t.Balanced .black n
  toList_eq : t.toList = xs
  sorted : xs.Pairwise fun x y => x.start < y.start

namespace Lists

variable {t : RbTree MemNode} {as bs : List MemNode} {x : MemNode}

/-- The starts before and behind a node. Kind: L -/
lemma lt (h : Lists t (as ++ x :: bs)) :
    (∀ y ∈ as, y.start < x.start) ∧ ∀ y ∈ bs, x.start < y.start := by
  have hsorted := List.pairwise_append.mp h.sorted
  exact ⟨fun y hy => hsorted.2.2 y hy x (by simp), (List.pairwise_cons.mp hsorted.2.1).1⟩

/-- The place of a node. Kind: L -/
lemma zoom_cutAt (h : Lists t (as ++ x :: bs)) :
    ∃ c l r p, zoom (cutAt x.start) t [] = (.node c l x r, p) ∧ plug (.node c l x r) p = t ∧
      before p ++ l.toList = as ∧ r.toList ++ behind p = bs := by
  obtain ⟨has, hbs⟩ := h.lt
  have hgt : ∀ y ∈ as, cutAt x.start y = .gt := fun y hy => compare_gt_iff_gt.mpr (has y hy)
  have heq : cutAt x.start x = .eq := compare_eq_iff_eq.mpr rfl
  have hlt : ∀ y ∈ bs, cutAt x.start y = .lt := fun y hy => compare_lt_iff_lt.mpr (hbs y hy)
  obtain ⟨c, l, r, p, hzoom, hbefore, hbehind⟩ := zoom_of_mem hgt heq hlt h.toList_eq []
  refine ⟨c, l, r, p, hzoom, ?_, by simpa [before] using hbefore, by simpa [behind] using hbehind⟩
  have hplug := plug_zoom (cutAt x.start) t []
  rw [hzoom] at hplug
  exact hplug

/-- A pointer to a node. Kind: L -/
lemma get_eq (h : Lists t (as ++ x :: bs)) : get t x.start = some x := by
  obtain ⟨c, l, r, p, hzoom, -⟩ := h.zoom_cutAt
  rw [get, hzoom]

/-- The node before. Kind: L -/
lemma prevOf_eq (h : Lists t (as ++ x :: bs)) : prevOf t x.start = some as.getLast? := by
  obtain ⟨c, l, r, p, hzoom, -, hbefore, -⟩ := h.zoom_cutAt
  rw [prevOf, hzoom]
  simp only [mmPrev_eq, hbefore]

/-- The node behind. Kind: L -/
lemma nextOf_eq (h : Lists t (as ++ x :: bs)) : nextOf t x.start = some bs.head? := by
  obtain ⟨c, l, r, p, hzoom, -, -, hbehind⟩ := h.zoom_cutAt
  rw [nextOf, hzoom]
  simp only [mmNext_eq, hbehind]

/-- A change that leaves the start. Kind: L -/
lemma modify_eq (h : Lists t (as ++ x :: bs)) (f : MemNode → MemNode)
    (hf : (f x).start = x.start) :
    ∃ t', modify t x.start f = some t' ∧ Lists t' (as ++ f x :: bs) := by
  obtain ⟨c, l, r, p, hzoom, rfl, hbefore, hbehind⟩ := h.zoom_cutAt
  obtain ⟨n, hn⟩ := h.balanced
  obtain ⟨c₀, k, ht, hp⟩ := exists_hole hn
  obtain ⟨has, hbs⟩ := h.lt
  have hsorted := List.pairwise_append.mp h.sorted
  refine ⟨_, by rw [modify, hzoom], (ht.congr_elem (f x)).plug hp, ?_, ?_⟩
  · rw [toList_plug, toList_node, ← hbefore, ← hbehind]
    simp
  · rw [List.pairwise_append, List.pairwise_cons]
    refine ⟨hsorted.1, ⟨fun y hy => hf.symm ▸ hbs y hy, (List.pairwise_cons.mp hsorted.2.1).2⟩, ?_⟩
    intro y hy z hz
    rcases List.mem_cons.mp hz with rfl | hz
    · rw [hf]
      exact has y hy
    · exact hsorted.2.2 y hy z (by simp [hz])

/-- A node is taken out. Kind: L -/
lemma mmRemove_eq (h : Lists t (as ++ x :: bs)) :
    ∃ t', mmRemove t x.start = some t' ∧ Lists t' (as ++ bs) := by
  obtain ⟨c, l, r, p, hzoom, rfl, hbefore, hbehind⟩ := h.zoom_cutAt
  obtain ⟨n, hn⟩ := h.balanced
  obtain ⟨t', m, hremove, hm, hlist⟩ := mmRemoveAt_spec hn
  have hsub : (as ++ bs).Sublist (as ++ x :: bs) :=
    List.Sublist.append_left (List.sublist_cons_self x bs) as
  exact ⟨t', by rw [mmRemove, hzoom]; exact hremove, ⟨m, hm⟩, by rw [hlist, hbefore, hbehind],
    h.sorted.sublist hsub⟩

/-- A node is put in. Kind: L -/
lemma mmAdd_eq (h : Lists t (as ++ bs)) (hne : as ++ bs ≠ [])
    (has : ∀ y ∈ as, y.start < x.start) (hbs : ∀ y ∈ bs, x.start < y.start) :
    ∃ t', mmAdd x t = some t' ∧ Lists t' (as ++ x :: bs) := by
  have hgt : ∀ y ∈ as, cutAdd x.start y = .gt := fun y hy => if_pos (has y hy)
  have hlt : ∀ y ∈ bs, cutAdd x.start y = .lt := fun y hy => if_neg (Nat.lt_asymm (hbs y hy))
  obtain ⟨p, hzoom, hbefore, hbehind⟩ := zoom_of_not_mem hgt hlt h.toList_eq []
  have hplug := plug_zoom (cutAdd x.start) t []
  rw [hzoom] at hplug
  obtain ⟨n, hn⟩ := h.balanced
  cases p with
  | nil =>
      simp only [before, behind, List.nil_append, List.append_nil] at hbefore hbehind
      exact absurd (by rw [← hbefore, ← hbehind]; rfl) hne
  | cons f p =>
      have hnil : (plug .nil (f :: p)).Balanced .black n := by
        rw [hplug]
        exact hn
      obtain ⟨c, k, ht, hp⟩ := exists_hole hnil
      cases ht
      obtain ⟨t', m, hadd, hm⟩ := mmAddRebalance_balanced (t := .node .red .nil x .nil)
        (.red .nil .nil) hp
      have hsorted := List.pairwise_append.mp h.sorted
      refine ⟨t', by rw [mmAdd, hzoom]; exact hadd, ⟨m, hm⟩, ?_, ?_⟩
      · rw [toList_mmAddRebalance hadd, hbefore, hbehind]
        simp [before, behind]
      · rw [List.pairwise_append, List.pairwise_cons]
        refine ⟨hsorted.1, ⟨hbs, hsorted.2.1⟩, fun y hy z hz => ?_⟩
        rcases List.mem_cons.mp hz with rfl | hz
        · exact has y hy
        · exact hsorted.2.2 y hy z hz

end Lists

namespace Mm

variable {mm : Mm} {as bs : List MemNode} {x p : MemNode}

/-- **`split_range`** in the list of the nodes. Kind: L -/
lemma splitRange_spec (h : Lists mm.root (as ++ x :: bs)) (hm : mm.malloc 0 = true) {cutLine : ℕ}
    (hlt : x.start < cutLine) (hbs : ∀ y ∈ bs, cutLine < y.start) :
    ∃ t, mm.splitRange x.start cutLine =
        some ({ mm with root := t, malloc := fun n => mm.malloc (n + 1) }, some cutLine) ∧
      Lists t (as ++ { x with stop := cutLine - 1 } :: ⟨cutLine, x.stop, x.refcnt⟩ :: bs) := by
  obtain ⟨t, ht, hlist⟩ := h.modify_eq (fun x => { x with stop := cutLine - 1 }) rfl
  rw [List.append_cons] at hlist
  obtain ⟨has, -⟩ := h.lt
  obtain ⟨t', ht', hlist'⟩ := hlist.mmAdd_eq (x := ⟨cutLine, x.stop, x.refcnt⟩) (by simp)
    (by
      intro y hy
      rcases List.mem_append.mp hy with hy | hy
      · exact (has y hy).trans hlt
      · rw [List.mem_singleton.mp hy]
        exact hlt) hbs
  refine ⟨t', ?_, by simpa using hlist'⟩
  rw [splitRange, if_pos hm, h.get_eq]
  simp only [Option.bind_eq_bind, Option.bind_some, ht, ht']

/-- **`merge_ranges`** in the list of the nodes. Kind: L -/
lemma mergeRanges_spec (h : Lists mm.root (as ++ p :: x :: bs)) :
    ∃ t, mm.mergeRanges x.start p.start = some { mm with root := t } ∧
      Lists t (as ++ { p with stop := x.stop, refcnt := x.refcnt } :: bs) := by
  have h' : Lists mm.root ((as ++ [p]) ++ x :: bs) := by simpa using h
  obtain ⟨t, ht, hlist⟩ :=
    h.modify_eq (fun p => { p with stop := x.stop, refcnt := x.refcnt }) rfl
  rw [List.append_cons] at hlist
  obtain ⟨t', ht', hlist'⟩ := hlist.mmRemove_eq
  refine ⟨t', ?_, by simpa using hlist'⟩
  rw [mergeRanges, h'.get_eq]
  simp only [Option.bind_eq_bind, Option.bind_some, ht, ht']

end Mm

end FreeFlow.Fork
