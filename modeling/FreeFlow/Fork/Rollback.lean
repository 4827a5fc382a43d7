import FreeFlow.Fork.Scan

/-!
# Registering and releasing a range

`ibv_madvise_range` raises or lowers the count of every address of a range. When a `madvise` is
refused on the way, the node where that happened is put back, and a second pass takes back what the
first one has done before it.

Source: `memory.c`.
-/

namespace FreeFlow.Fork

open FreeFlow.Found

variable {f : ℕ → ℤ} {as bs xs : List MemNode} {x y p : MemNode} {lo hi start stop : ℕ} {inc : ℤ}
  {mm : Mm}

/-! ## The first node of a range -/

/-- Where the tiles of a list stop. Kind: L -/
lemma tiles_stop (h : Leads (tile f) lo xs hi) : ∀ y ∈ xs, y.start ≤ y.stop ∧ y.stop < hi := by
  intro y hy
  obtain ⟨pre, post, m, m', -, ⟨h₁, h₂, h₃, -⟩, hpost⟩ := h.exists_of_mem hy
  have := tiles_le hpost
  omega

/-- Every address is in a tile. Kind: L -/
lemma tiles_find (h : Leads (tile f) lo xs hi) {a : ℕ} (ha : lo ≤ a) (ha' : a < hi) :
    ∃ as x bs, xs = as ++ x :: bs ∧ x.start ≤ a ∧ a ≤ x.stop := by
  induction xs generalizing lo with
  | nil =>
      simp only [leads_nil] at h
      omega
  | cons x xs ih =>
      obtain ⟨m, ⟨h₁, h₂, h₃, -⟩, hrest⟩ := h
      by_cases hstop : a ≤ x.stop
      · exact ⟨[], x, xs, rfl, h₁.trans_le ha, hstop⟩
      · obtain ⟨as, y, bs, rfl, hy⟩ := ih hrest (by omega)
        exact ⟨x :: as, y, bs, rfl, hy⟩

/-- **`__mm_find_start`** finds the node of an address. Kind: L -/
lemma mmFindStart_eq {t : RbTree MemNode} (h : Lists t (as ++ x :: bs))
    (ht : Leads (tile f) lo (as ++ x :: bs) hi) {a : ℕ} (hx : x.start ≤ a) (hx' : a ≤ x.stop) :
    mmFindStart t a = some x := by
  obtain ⟨m, has, m', ⟨h₁, h₂, h₃, -⟩, hbs⟩ := leads_append_iff.mp ht
  have hasStop := tiles_stop has
  have hbsStart := tiles_start hbs
  have hgt : ∀ y ∈ as, cutFind a y = .gt := by
    intro y hy
    have := hasStop y hy
    rw [cutFind, if_neg (by omega), if_pos (by omega)]
  have heq : cutFind a x = .eq := if_pos ⟨hx, hx'⟩
  have hlt : ∀ y ∈ bs, cutFind a y = .lt := by
    intro y hy
    have := hbsStart y hy
    rw [cutFind, if_neg (by omega), if_neg (by omega)]
  obtain ⟨c, l, r, q, hzoom, -⟩ := zoom_of_mem hgt heq hlt h.toList_eq []
  rw [mmFindStart, hzoom]

/-- Before the start the counts are not changed. Kind: L -/
lemma shiftOn_of_lt {a : ℕ} (ha : a < start) : shiftOn f start stop inc a = f a :=
  if_neg (by omega)

/-- The loop begins at a node that starts the range and is not merged. Kind: L -/
lemma Scan.of_start (h : Lists mm.root (as ++ x :: bs))
    (ht : Leads (tile f) 0 (as ++ x :: bs) wordSize) (hc : Canon as) (hxs : Canon (x :: bs))
    (htold : Told mm f) (hx : x.start = start) (hle : start ≤ stop)
    (hlast : ∀ p ∈ as.getLast?, p.refcnt ≠ x.refcnt + inc) :
    Scan mm f start stop inc as x bs := by
  obtain ⟨m, has, m', ⟨rfl, h₂, rfl, hf⟩, hbs⟩ := leads_append_iff.mp ht
  subst hx
  rw [canon_cons] at hxs
  exact
    { lists := h
      done := tiles_congr has fun a _ ha => (shiftOn_of_lt ha).symm
      first := hle
      reach := h₂
      le := h₂
      merged := fun a h₁ h₂ => by omega
      todo := fun a h₁ _ h₃ => hf a h₁ h₃
      rest := hbs
      canonDone := canon_snoc.mpr ⟨hc, hlast⟩
      canonRest := hxs.1
      link := fun _ => hxs.2
      told := by rw [partly_of_le le_rfl]; exact htold }

/-- A tile is cut in two. Kind: L -/
lemma tiles_split (h : Leads (tile f) lo (as ++ x :: bs) hi) (hlt : x.start < start)
    (hle : start ≤ x.stop) :
    Leads (tile f) lo
      (as ++ [{ x with stop := start - 1 }] ++ ⟨start, x.stop, x.refcnt⟩ :: bs) hi := by
  obtain ⟨m, has, m', ⟨h₁, h₂, h₃, hf⟩, hbs⟩ := leads_append_iff.mp h
  refine leads_append_iff.mpr ⟨start, has.snoc ⟨h₁, ?_, ?_, fun a ha ha' => ?_⟩, m',
    ⟨rfl, hle, h₃, fun a ha ha' => hf a (by change start ≤ a at ha; omega) ha'⟩, hbs⟩
  · change x.start ≤ start - 1
    omega
  · change start = start - 1 + 1
    omega
  · change a ≤ start - 1 at ha'
    exact hf a ha (by omega)

/-- The loop begins at a node that was cut at the start of the range. Kind: L -/
lemma Scan.of_split
    (h : Lists mm.root
      (as ++ [{ x with stop := start - 1 }] ++ ⟨start, x.stop, x.refcnt⟩ :: bs))
    (ht : Leads (tile f) 0 (as ++ x :: bs) wordSize) (hc : Canon (as ++ x :: bs))
    (htold : Told mm f) (hlt : x.start < start) (hx : start ≤ x.stop) (hle : start ≤ stop)
    (hinc : inc ≠ 0) :
    Scan mm f start stop inc (as ++ [{ x with stop := start - 1 }]) ⟨start, x.stop, x.refcnt⟩
      bs := by
  obtain ⟨hcas, hcx⟩ := canon_split.mp hc
  refine .of_start h (tiles_split ht hlt hx) (canon_snoc.mpr (canon_snoc.mp hcas :))
    (canon_cons.mpr (canon_cons.mp hcx :)) htold rfl hle fun p hp => ?_
  rw [List.getLast?_concat, Option.mem_def, Option.some.injEq] at hp
  subst hp
  change x.refcnt ≠ x.refcnt + inc
  omega

/-- The loop begins at a node that was merged with the one before the range. Kind: L -/
lemma Scan.of_merge
    (h : Lists mm.root (as ++ { p with stop := x.stop, refcnt := x.refcnt } :: bs))
    (ht : Leads (tile f) 0 (as ++ p :: x :: bs) wordSize) (hc : Canon (as ++ p :: x :: bs))
    (htold : Told mm f) (hx : x.start = start) (hle : start ≤ stop)
    (heq : p.refcnt = x.refcnt + inc) :
    Scan mm f start stop inc as { p with stop := x.stop, refcnt := x.refcnt } bs := by
  obtain ⟨m, has, m', ⟨rfl, k₂, k₃, k₄⟩, m'', ⟨h₁, h₂, rfl, hf⟩, hbs⟩ := leads_append_iff.mp ht
  obtain ⟨hcas, hcp⟩ := canon_split.mp hc
  have hcx := canon_cons.mp (canon_cons.mp hcp).1
  have hp : p.start < start := by omega
  exact
    { lists := h
      done := tiles_congr has fun a _ ha => (shiftOn_of_lt (ha.trans hp)).symm
      first := hp.le.trans hle
      reach := hx ▸ h₂
      le := by
        change p.start ≤ x.stop
        omega
      merged := fun a ha ha' => (k₄ a ha (by omega)).trans heq
      todo := fun a _ ha ha' => hf a (by omega) ha'
      rest := hbs
      canonDone := by
        rw [canon_snoc] at hcas ⊢
        refine ⟨hcas.1, fun q hq => ?_⟩
        change q.refcnt ≠ x.refcnt + inc
        rw [← heq]
        exact hcas.2 q hq
      canonRest := hcx.1
      link := fun _ => hcx.2
      told := by
        rw [partly_of_le hp.le]
        exact htold }

/-- **`get_start_node`.** Kind: L -/
lemma getStartNode_spec (h : Counts mm f) (hm : mm.Supplied) (hinc : inc ≠ 0) (hle : start ≤ stop)
    (hstop : stop < wordSize) :
    ∃ mm' as x bs, mm.getStartNode start inc = some (mm', some x.start) ∧ mm.Later mm' ∧
      Scan mm' f start stop inc as x bs := by
  obtain ⟨xs, hlist, ht, hcanon, htold⟩ := h
  obtain ⟨as, x, bs, rfl, hx, hx'⟩ := tiles_find ht (Nat.zero_le start) (by omega)
  rw [Mm.getStartNode, mmFindStart_eq hlist ht hx hx']
  simp only [Option.bind_eq_bind, Option.bind_some]
  by_cases hlt : x.start < start
  · obtain ⟨m, -, m', ⟨-, -, rfl, -⟩, hbs⟩ := leads_append_iff.mp ht
    have hbsStart := tiles_start hbs
    obtain ⟨t, hsplit, hlist'⟩ := Mm.splitRange_spec hlist (hm 0) hlt fun y hy => by
      have := hbsStart y hy
      omega
    rw [List.append_cons] at hlist'
    rw [if_pos hlt]
    refine ⟨_, as ++ [{ x with stop := start - 1 }], ⟨start, x.stop, x.refcnt⟩, bs, hsplit,
      ⟨⟨1, rfl⟩, ⟨0, rfl⟩⟩, ?_⟩
    exact .of_split hlist' ht hcanon htold hlt hx' hle hinc
  · have hstart : x.start = start := by omega
    obtain ⟨hcas, hcx⟩ := canon_split.mp hcanon
    rw [if_neg hlt, hlist.prevOf_eq]
    rcases List.eq_nil_or_concat as with rfl | ⟨as, p, rfl⟩
    · exact ⟨mm, [], x, bs, rfl, .of_eq rfl rfl,
        .of_start hlist ht (canon_snoc.mp hcas).1 hcx htold hstart hle (by simp)⟩
    · simp only [List.concat_eq_append] at *
      simp only [List.getLast?_concat, Option.bind_some]
      by_cases heq : p.refcnt = x.refcnt + inc
      · simp only [List.append_assoc, List.singleton_append] at hlist ht hcanon
        obtain ⟨t, hmerge, hlist'⟩ := Mm.mergeRanges_spec hlist
        refine ⟨{ mm with root := t }, as, { p with stop := x.stop, refcnt := x.refcnt }, bs, ?_,
          .of_eq rfl rfl, .of_merge hlist' ht hcanon htold hstart hle heq⟩
        rw [if_pos heq, hmerge]
        rfl
      · refine ⟨mm, as ++ [p], x, bs, by rw [if_neg heq], .of_eq rfl rfl, ?_⟩
        refine .of_start hlist ht (canon_snoc.mp hcas).1 hcx htold hstart hle fun q hq => ?_
        rw [List.getLast?_concat, Option.mem_def, Option.some.injEq] at hq
        rw [← hq]
        exact heq

/-! ## A node that is put back -/

/-- The nodes give these counts, and the pass is back at the node `z`. Kind: D -/
structure At (mm : Mm) (f : ℕ → ℤ) (as : List MemNode) (z : MemNode) (bs : List MemNode) :
    Prop where
  lists : Lists mm.root (as ++ z :: bs)
  tiles : Leads (tile f) 0 (as ++ z :: bs) wordSize
  canon : Canon (as ++ z :: bs)
  told : Told mm f

/-- A node is merged with its neighbours. Kind: L -/
lemma settleNode_spec (h : Lists mm.root (as ++ x :: bs))
    (ht : Leads (tile f) 0 (as ++ x :: bs) wordSize) (has : Canon as) (hbs : Canon bs)
    (htold : Told mm f) :
    ∃ t as' z bs', mm.settleNode x.start = some ({ mm with root := t }, some z.start) ∧
      At { mm with root := t } f as' z bs' ∧ z.start ≤ x.start ∧
      ((as = as' ∧ z.start = x.start) ∨
        ∃ p, as = as' ++ [p] ∧ p.refcnt = x.refcnt ∧ z.start = p.start) := by
  obtain ⟨t, as', z, hprev, hlist, ht', hc, -, hle, -, hor⟩ := Mm.mergePrev_spec h ht has
  have hlist₁ : Lists ({ mm with root := t } : Mm).root (as' ++ z :: bs) := hlist
  obtain ⟨t', z', bs', hnext, hlist', ht'', hc', hz⟩ := Mm.mergeNext_spec hlist₁ ht' hc hbs
  refine ⟨t', as', z', bs', ?_, ⟨hlist', ht'', hc', htold⟩, hz.trans_le hle, ?_⟩
  · rw [Mm.settleNode, hprev]
    simp only [Option.bind_eq_bind, Option.bind_some, hnext, hz]
  · rcases hor with ⟨rfl, rfl⟩ | ⟨p, rfl, hp, hzp⟩
    · exact .inl ⟨rfl, hz⟩
    · exact .inr ⟨p, rfl, hp, hz.trans hzp⟩

/-- **`undo_node`.** The node has its old count again. Kind: L -/
lemma Scan.undoNode_spec (h : Scan mm f start stop inc as x bs) (hm : mm.Supplied) :
    ∃ mm' as' z bs', mm.undoNode x.start start inc = some (mm', some z.start) ∧ mm.Later mm' ∧
      At mm' (partly f start stop inc x.start) as' z bs' ∧ z.start ≤ max start x.start ∧
      (start ≤ x.start → (as = as' ∧ z.start = x.start) ∨
        ∃ p, as = as' ++ [p] ∧ p.refcnt = x.refcnt ∧ z.start = p.start) := by
  rw [Mm.undoNode, h.lists.get_eq]
  simp only [Option.bind_eq_bind, Option.bind_some]
  have hreach := h.reach
  by_cases hlt : x.start < start
  · have hbsStart := tiles_start h.rest
    obtain ⟨t, hsplit, hlist⟩ := Mm.splitRange_spec h.lists (hm 0) hlt fun y hy => by
      have := hbsStart y hy
      omega
    obtain ⟨t', hmodify, hlist'⟩ := hlist.modify_eq (MemNode.bump · inc) rfl
    rw [List.append_cons] at hlist'
    have hpart : partly f start stop inc x.start = f := partly_of_le hlt.le
    rw [hpart]
    have hlist₁ : Lists ({ mm with root := t', malloc := fun n => mm.malloc (n + 1) } : Mm).root
        (as ++ [MemNode.bump { x with stop := start - 1 } inc] ++
          ⟨start, x.stop, x.refcnt⟩ :: bs) :=
      hlist'
    have htiles : Leads (tile f) 0
        (as ++ [MemNode.bump { x with stop := start - 1 } inc] ++ ⟨start, x.stop, x.refcnt⟩ :: bs)
        wordSize := by
      refine (Leads.snoc (t := x.start) ?_ ⟨rfl, ?_, ?_, fun a ha ha' => ?_⟩).append
        ⟨x.stop + 1, ⟨rfl, hreach, rfl, fun a ha ha' => ?_⟩, h.rest⟩
      · exact tiles_congr h.done fun a _ ha => shiftOn_of_lt (by omega)
      · change x.start ≤ start - 1
        omega
      · change start = start - 1 + 1
        omega
      · change a ≤ start - 1 at ha'
        exact h.merged a ha (by omega)
      · change start ≤ a at ha
        exact h.todo a (by omega) ha ha'
    have htold := h.told
    rw [hpart] at htold
    obtain ⟨t'', as', z, bs', hsettle, hat, hle, -⟩ := settleNode_spec hlist₁ htiles
      (canon_snoc.mpr (canon_snoc.mp h.canonDone :)) h.canonRest htold
    refine ⟨{ mm with root := t'', malloc := fun n => mm.malloc (n + 1) }, as', z, bs', ?_,
      ⟨⟨1, rfl⟩, ⟨0, rfl⟩⟩, hat, ?_, fun hle => by omega⟩
    · rw [if_pos hlt, hsplit]
      simp only [Option.bind_some]
      change (modify t x.start (MemNode.bump · inc)).bind _ = _
      erw [hmodify]
      exact hsettle
    · change z.start ≤ start at hle
      omega
  · rw [if_neg hlt]
    obtain ⟨t, as', z, bs', hsettle, hat, hle, hor⟩ := settleNode_spec h.lists
      (h.tiles (Nat.not_lt.mp hlt)) (canon_snoc.mp h.canonDone).1 h.canonRest h.told
    exact ⟨_, as', z, bs', hsettle, .of_eq rfl rfl, hat, by omega, fun _ => hor⟩

/-! ## A pass -/

/-- The counts after a pass, when the loop has come to the end. Kind: L -/
lemma Passed.counts (h : Passed mm f start stop inc (stop + 1) as []) :
    Counts mm (shiftOn f start stop inc) := by
  have hrest := h.rest
  simp only [leads_nil] at hrest
  refine ⟨as, by simpa using h.lists, hrest ▸ h.done, h.canonDone, ?_⟩
  rw [← partly_of_lt (Nat.lt_succ_self stop)]
  exact h.told

/-- The counts after a pass, when the last node is merged with the one behind it. Kind: L -/
lemma Passed.mergePrev_counts (h : Passed mm f start stop inc (stop + 1) as (y :: bs)) :
    ∃ mm' node, mm.mergePrev y.start = some (mm', node) ∧ mm.Later mm' ∧
      Counts mm' (shiftOn f start stop inc) := by
  have htiles : Leads (tile (shiftOn f start stop inc)) 0 (as ++ y :: bs) wordSize :=
    h.done.append (tiles_congr h.rest fun a ha _ => (if_neg (by omega)).symm)
  obtain ⟨t, as', z, hmerge, hlist, ht, hc, hz, -⟩ := Mm.mergePrev_spec h.lists htiles h.canonDone
  have hcy := canon_cons.mp h.canonRest
  refine ⟨_, _, hmerge, .of_eq rfl rfl, as' ++ z :: bs, hlist, ht, ?_, ?_⟩
  · exact canon_split.mpr ⟨hc, canon_cons.mpr ⟨hcy.1, fun q hq => hz ▸ hcy.2 q hq⟩⟩
  · rw [← partly_of_lt (Nat.lt_succ_self stop)]
    exact h.told

/-- The node before has the new count of its last address. Kind: L -/
lemma Scan.refcnt_before (h : Scan mm f start stop inc as x bs) (hlt : start < x.start)
    (hp : p ∈ as.getLast?) : f (x.start - 1) + inc = p.refcnt := by
  obtain ⟨as, rfl⟩ : ∃ as', as = as' ++ [p] := List.getLast?_eq_some_iff.mp hp
  obtain ⟨k, -, hk⟩ := leads_append_iff.mp h.done
  obtain ⟨k₁, k₂, k₃, k₄⟩ := leads_singleton.mp hk
  have hlast := k₄ (x.start - 1) (by omega) (by omega)
  have hfirst := h.first
  rwa [shiftOn, if_pos (by omega)] at hlast

/-- A node that the loop comes to has another count than the address before it. Kind: L -/
lemma Scan.ne_before (h : Scan mm f start stop inc as x bs) (hlt : start < x.start) :
    f (x.start - 1) ≠ f x.start := by
  rw [h.todo x.start le_rfl hlt.le h.le]
  rcases List.eq_nil_or_concat as with rfl | ⟨as, p, rfl⟩
  · have hdone := h.done
    simp only [leads_nil] at hdone
    omega
  · have hne := (canon_snoc.mp h.canonDone).2 p (by simp)
    rw [← h.refcnt_before hlt (p := p) (by simp)] at hne
    intro heq
    rw [heq] at hne
    exact hne rfl

/-- A pass has stopped at the address `s`: what is before it has its new count, and the node there
is `z`. The node is merged with the one before it if they have the same count. Kind: D -/
structure Stopped (mm : Mm) (f : ℕ → ℤ) (start stop : ℕ) (advice : Advice) (s : ℕ)
    (as : List MemNode) (z : MemNode) (bs : List MemNode) : Prop where
  at_node : At mm (partly f start stop advice.inc s) as z bs
  le : s ≤ stop
  start_le : z.start ≤ max start s
  count : f (max start s) = if advice = .dontfork then 0 else 1
  first : start < s → z.start = s ∨ f (s - 1) + advice.inc = f s
  fresh : start < s → f (s - 1) ≠ f s

/-- **A pass** that is not refused changes the counts; a pass that is refused stops at an address.
Kind: L -/
lemma pass_spec (advice : Advice) (h : Counts mm f) (hm : mm.Supplied) (hle : start ≤ stop)
    (hstop : stop < wordSize) :
    (∃ mm', mm.pass start stop advice = some (mm', .done) ∧ mm.Later mm' ∧
      Counts mm' (shiftOn f start stop advice.inc)) ∨
    ∃ mm' s as z bs, mm.pass start stop advice = some (mm', .refused (some z.start)) ∧
      mm.Later mm' ∧ ¬ mm.Accepts advice ∧ Stopped mm' f start stop advice s as z bs := by
  have hinc : advice.inc ≠ 0 := by cases advice <;> decide
  obtain ⟨mm₁, as, x, bs, hstart, hl₁, hscan⟩ := getStartNode_spec h hm hinc hle hstop
  have hm₁ := hl₁.supplied hm
  have hfuel : bs.length + 2 ≤ mm₁.root.size + 2 := by
    rw [← RbTree.length_toList, hscan.lists.toList_eq]
    simp
    omega
  rw [Mm.pass, hstart]
  simp only [Option.bind_eq_bind, Option.bind_some]
  rcases hscan.madviseLoop_spec hm₁ hle hstop hfuel with
    ⟨mm₂, as₂, bs₂, hloop, hl₂, hpassed⟩ | ⟨mm₂, node, as₂, x₂, bs₂, hloop, hl₂, hrefuse, href⟩
  · left
    simp only [hloop, Option.bind_some]
    cases bs₂ with
    | nil => exact ⟨mm₂, rfl, hl₁.trans hl₂, hpassed.counts⟩
    | cons y bs₂ =>
        obtain ⟨mm₃, node, hmerge, hl₃, hcounts⟩ := hpassed.mergePrev_counts
        refine ⟨mm₃, ?_, (hl₁.trans hl₂).trans hl₃, hcounts⟩
        simp [hmerge]
  · right
    obtain ⟨mm₃, as₃, z, bs₃, hundo, hl₃, hat, hz, hor⟩ :=
      href.scan.undoNode_spec (hl₂.supplied hm₁)
    refine ⟨mm₃, x₂.start, as₃, z, bs₃, ?_, (hl₁.trans hl₂).trans hl₃,
      fun ha => hrefuse (hl₁.accepts ha), hat, href.scan.first, hz, ?_, fun hlt => ?_,
      href.scan.ne_before⟩
    · simp only [hloop, Option.bind_some, ← href.start_eq, hundo, Option.map_some]
    · rw [href.scan.todo _ (le_max_right _ _) (le_max_left _ _)
        (max_le href.scan.reach href.scan.le)]
      have hneeds := href.needs
      cases advice <;> simp [Mm.NeedsAdvice, Advice.inc] at hneeds ⊢ <;> exact hneeds
    · rcases hor hlt.le with ⟨-, hz⟩ | ⟨p, rfl, hp, -⟩
      · exact .inl hz
      · -- The node before has its new count, and it is the count of this node.
        right
        rw [href.scan.todo x₂.start le_rfl hlt.le href.scan.le, ← hp,
          href.scan.refcnt_before (p := p) hlt (by simp)]

end FreeFlow.Fork
