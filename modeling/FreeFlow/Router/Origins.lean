import FreeFlow.Router.PostSend

/-!
# Where the channel path takes remote addresses from

The channel path hands every request of a list to the HCA, whatever its lookups found. This module
says, request by request, where the address word of the handed request comes from: the client's own
word, an entry of `rkey_mr_shm`, or an address handle. Nothing is assumed of the table: other
threads may change it between any two lookups.

* `decodeList_channel_carry` — the handed list is the client's with the words of `origins`.
* `retryLookup_eq_of_found`, `found_of_retryLookup` — a lookup succeeds exactly when the key is
  there after no more misses than the counter allows.
* `origins_entry_iff` — every one-sided request gets an entry exactly when the keys are found in
  order with at most five misses in all.

Source: `ffrouter.cpp` `CtrlChannelLoop` (`IBV_POST_SEND`).
-/

namespace FreeFlow.Router

open FreeFlow.Found FreeFlow.Verbs

/-- Where the word at `wr.rdma.remote_addr` of a handed request comes from. Kind: D -/
inductive Origin
  /-- as the client wrote it -/
  | client
  /-- translated through an entry of `rkey_mr_shm` -/
  | entry (e : MrShm)
  /-- an address handle, `ah_map[h]` -/
  | handle (h : UInt32)
  deriving DecidableEq, Repr

/-- The word an origin stands for. Kind: D -/
def Origin.value (ahMap : UInt32 → UInt64) (addr : UInt64) : Origin → UInt64
  | .client => addr
  | .entry e => e.shmPtr + addr - e.mrPtr
  | .handle h => ahMap h

variable (tbl : ℕ → UInt32 → Option MrShm)

/-- The retry counter and the number of lookups after a request. Kind: D -/
def nextLook (look : ℕ × ℕ) (f : WrFields) : ℕ × ℕ :=
  if oneSided f.opcode then (retryLookup tbl f.rkey look.1 look.2).1 else look

/-- The origin of one request's word. Kind: D -/
def originOf (ud : Bool) (h : UInt32) (look : ℕ × ℕ) (f : WrFields) : Origin :=
  if ud then .handle h
  else if oneSided f.opcode then
    ((retryLookup tbl f.rkey look.1 look.2).2.map Origin.entry).getD .client
  else .client

/-- The origins of a list's words; `hs k` is the handle the `k`-th request reads. Kind: D -/
def origins (ud : Bool) : List Posted → (hs : ℕ → UInt32) → ℕ × ℕ → List Origin
  | [], _, _ => []
  | o :: os, hs, look =>
      originOf tbl ud (hs 0) look o.fields ::
        origins ud os (fun k => hs (k + 1)) (nextLook tbl look o.fields)

/-- There is one origin for each request. Kind: L -/
@[simp] lemma length_origins (ud : Bool) (os : List Posted) (hs : ℕ → UInt32) (look : ℕ × ℕ) :
    (origins tbl ud os hs look).length = os.length := by
  induction os generalizing hs look with
  | nil => rfl
  | cons o os ih => simp [origins, ih]

/-- A request with the word of its origin and its elements translated. Kind: D -/
def carry (R : Tables) (g : Origin) (o : Posted) : Posted where
  fields := { o.fields with remoteAddr := g.value R.ahMap o.fields.remoteAddr }
  sgList := o.sgList.map fun e => { e with addr := R.lkeyBase e.lkey + e.addr }

/-- One request of the channel path. Kind: L -/
lemma remoteFields_channel (R : Tables) (ud : Bool) (h : UInt32) (look : ℕ × ℕ) (f : WrFields) :
    (remoteFields (channelDecoder R tbl) look f).1 = nextLook tbl look f ∧
      ahFields (channelDecoder R tbl) ud h (remoteFields (channelDecoder R tbl) look f).2 =
        { f with remoteAddr := (originOf tbl ud h look f).value R.ahMap f.remoteAddr } := by
  have hlookup : (channelDecoder R tbl).lookup look f.rkey =
      retryLookup tbl f.rkey look.1 look.2 := rfl
  unfold remoteFields nextLook originOf ahFields
  by_cases hop : oneSided f.opcode
  · simp only [hop, if_true, hlookup]
    rcases retryLookup tbl f.rkey look.1 look.2 with ⟨look', _ | e⟩ <;>
      cases ud <;> exact ⟨rfl, rfl⟩
  · simp only [hop]
    cases ud <;> exact ⟨rfl, rfl⟩

/-- **The channel path on lists**: it always ends, and hands over every request with the word of its
origin. Kind: L -/
lemma decodeList_channel_carry (R : Tables) (ud : Bool) (os : List Posted) (hs : ℕ → UInt32)
    (look : ℕ × ℕ) :
    decodeList (channelDecoder R tbl) ud os hs look () =
      some (List.zipWith (carry R) (origins tbl ud os hs look) os) := by
  induction os generalizing hs look with
  | nil => rfl
  | cons o os ih =>
      obtain ⟨hlook, hfields⟩ := remoteFields_channel tbl R ud (hs 0) look o.fields
      have hsges : patchList (channelDecoder R tbl).element () o.sgList =
          some ((), o.sgList.map fun e => { e with addr := R.lkeyBase e.lkey + e.addr }) :=
        patchList_pure _ _
      rw [decodeList]
      simp only [hsges, hlook, hfields, ih, Option.bind_eq_bind, Option.bind_some]
      rfl

/-! ## When a lookup succeeds -/

/-- A key that is there after `a` misses, with `a` retries left, is found. Kind: L -/
lemma retryLookup_eq_of_found {rkey : UInt32} {e : MrShm} {left t a : ℕ} (ha : a ≤ left)
    (hmiss : ∀ j < a, tbl (t + j) rkey = none) (hfound : tbl (t + a) rkey = some e) :
    retryLookup tbl rkey left t = ((left - a, t + a + 1), some e) := by
  induction left generalizing t a with
  | zero =>
      obtain rfl : a = 0 := Nat.le_zero.mp ha
      rw [retryLookup, ← hfound]
      rfl
  | succ left ih =>
      rw [retryLookup]
      cases a with
      | zero =>
          rw [Nat.add_zero] at hfound
          rw [hfound]
          rfl
      | succ a =>
          have hshift : ∀ j, t + 1 + j = t + (j + 1) := fun j => by omega
          have hrest := ih (t := t + 1) (a := a) (by omega)
            (fun j hj => by rw [hshift]; exact hmiss (j + 1) (by omega))
            (by rw [hshift]; exact hfound)
          have hfirst : tbl t rkey = none := hmiss 0 (by omega)
          rw [hfirst]
          simp only [hrest, hshift, Nat.add_sub_add_right]

/-- A key that is found was there after no more misses than there were retries left. Kind: L -/
lemma found_of_retryLookup {rkey : UInt32} {e : MrShm} {left t : ℕ}
    (h : (retryLookup tbl rkey left t).2 = some e) :
    ∃ a ≤ left, (∀ j < a, tbl (t + j) rkey = none) ∧ tbl (t + a) rkey = some e := by
  induction left generalizing t with
  | zero => exact ⟨0, le_rfl, fun j hj => absurd hj (Nat.not_lt_zero j), h⟩
  | succ left ih =>
      rw [retryLookup] at h
      rcases hfirst : tbl t rkey with _ | e'
      · rw [hfirst] at h
        obtain ⟨a, ha, hmiss, hfound⟩ := ih h
        have hshift : ∀ j, t + 1 + j = t + (j + 1) := fun j => by omega
        refine ⟨a + 1, by omega, fun j hj => ?_, by rwa [← hshift]⟩
        cases j with
        | zero => exact hfirst
        | succ j => rw [← hshift]; exact hmiss j (by omega)
      · rw [hfirst] at h
        exact ⟨0, Nat.zero_le _, fun j hj => absurd hj (Nat.not_lt_zero j), hfirst.trans h⟩

/-- The keys are found one after the other with at most `left` misses in all, starting with the
`t`-th lookup. Kind: D -/
def FoundWithin : List UInt32 → (left t : ℕ) → Prop
  | [], _, _ => True
  | r :: rs, left, t => ∃ a ≤ left, (∀ j < a, tbl (t + j) r = none) ∧
      (tbl (t + a) r).isSome ∧ FoundWithin rs (left - a) (t + a + 1)

/-- The keys a list looks up. Kind: D -/
def oneSidedKeys (os : List Posted) : List UInt32 :=
  (os.filter fun o => oneSided o.fields.opcode).map fun o => o.fields.rkey

/-- A key that is found within the retries is in the table at some time. Kind: L -/
lemma FoundWithin.exists_entry {rs : List UInt32} {left t : ℕ} (h : FoundWithin tbl rs left t)
    {r : UInt32} (hr : r ∈ rs) : ∃ u, (tbl u r).isSome := by
  induction rs generalizing left t with
  | nil => exact absurd hr List.not_mem_nil
  | cons r' rs ih =>
      obtain ⟨a, -, -, hfound, hrest⟩ := h
      rcases List.mem_cons.mp hr with rfl | hmem
      · exact ⟨t + a, hfound⟩
      · exact ih hrest hmem

/-- An entry is the origin of a one-sided request only, on a QP that is not UD, and it was found
under the request's key. Kind: L -/
lemma exists_of_originOf {ud : Bool} {h : UInt32} {look : ℕ × ℕ} {f : WrFields} {e : MrShm}
    (horigin : originOf tbl ud h look f = .entry e) :
    ud = false ∧ oneSided f.opcode ∧ ∃ a ≤ look.1, (∀ j < a, tbl (look.2 + j) f.rkey = none) ∧
      tbl (look.2 + a) f.rkey = some e := by
  unfold originOf at horigin
  split_ifs at horigin with hud hop
  refine ⟨Bool.not_eq_true _ ▸ hud, hop, found_of_retryLookup tbl ?_⟩
  generalize (retryLookup tbl f.rkey look.1 look.2).2 = found at *
  rcases found with _ | e'
  · exact absurd horigin (by simp)
  · simpa using horigin

/-- The same for the origins of a whole list. Kind: L -/
lemma exists_of_origins {ud : Bool} {os : List Posted} {hs : ℕ → UInt32} {look : ℕ × ℕ}
    {g : Origin} {o : Posted} {e : MrShm} (hmem : (g, o) ∈ (origins tbl ud os hs look).zip os)
    (hg : g = .entry e) :
    ud = false ∧ oneSided o.fields.opcode ∧ ∃ t, tbl t o.fields.rkey = some e := by
  induction os generalizing hs look with
  | nil => exact absurd hmem (by simp [origins])
  | cons o' os ih =>
      rw [origins, List.zip_cons_cons, List.mem_cons] at hmem
      rcases hmem with hfirst | hrest
      · obtain ⟨rfl, rfl⟩ := Prod.mk.inj hfirst
        obtain ⟨hud, hop, a, -, -, hfound⟩ := exists_of_originOf tbl hg
        exact ⟨hud, hop, _, hfound⟩
      · exact ih hrest

/-- **Every one-sided request gets an entry exactly when** the keys of the list are found in order
within the retries that are left. Kind: P -/
theorem origins_entry_iff (os : List Posted) (hs : ℕ → UInt32) (left t : ℕ) :
    (∀ p ∈ (origins tbl false os hs (left, t)).zip os, oneSided p.2.fields.opcode →
      ∃ e, p.1 = .entry e) ↔ FoundWithin tbl (oneSidedKeys os) left t := by
  induction os generalizing hs left t with
  | nil => simp [origins, oneSidedKeys, FoundWithin]
  | cons o os ih =>
      rw [origins, List.zip_cons_cons, List.forall_mem_cons]
      by_cases hop : oneSided o.fields.opcode
      · have hkeys : oneSidedKeys (o :: os) = o.fields.rkey :: oneSidedKeys os := by
          simp [oneSidedKeys, hop]
        rw [hkeys, FoundWithin]
        -- the state after the first request is that of a lookup that found its key
        have hnext : ∀ {a e}, a ≤ left → (∀ j < a, tbl (t + j) o.fields.rkey = none) →
            tbl (t + a) o.fields.rkey = some e →
            nextLook tbl (left, t) o.fields = (left - a, t + a + 1) ∧
              originOf tbl false (hs 0) (left, t) o.fields = .entry e := by
          intro a e ha hmiss hfound
          have hrun := retryLookup_eq_of_found tbl ha hmiss hfound
          simp [nextLook, originOf, hop, hrun]
        constructor
        · rintro ⟨hfirst, hrest⟩
          obtain ⟨e, he⟩ : ∃ e, originOf tbl false (hs 0) (left, t) o.fields = .entry e :=
            hfirst hop
          obtain ⟨-, -, a, ha, hmiss, hfound⟩ := exists_of_originOf tbl he
          rw [(hnext ha hmiss hfound).1, ih] at hrest
          exact ⟨a, ha, hmiss, by rw [hfound]; rfl, hrest⟩
        · rintro ⟨a, ha, hmiss, hsome, hrest⟩
          obtain ⟨e, hfound⟩ := Option.isSome_iff_exists.mp hsome
          refine ⟨fun _ => ⟨e, (hnext ha hmiss hfound).2⟩, ?_⟩
          rwa [(hnext ha hmiss hfound).1, ih]
      · have hkeys : oneSidedKeys (o :: os) = oneSidedKeys os := by simp [oneSidedKeys, hop]
        have hlook : nextLook tbl (left, t) o.fields = (left, t) := by simp [nextLook, hop]
        rw [hkeys, hlook, ← ih (fun k => hs (k + 1))]
        exact ⟨fun h => h.2, fun h => ⟨fun h' => absurd h' hop, h⟩⟩

end FreeFlow.Router
