import FreeFlow.Found.Run
import FreeFlow.Verbs.Layout

/-!
# The shared memory behind an MR

An MR lives in a shared memory object that the router maps and registers, and that the client maps
on its own by the name in the answer. The two must therefore be the same object. The router makes a
new name for every anonymous request, but keeps the pieces of named requests in `shm_map` for ever:
a second request with the name gets the first mapping with its first size. A deregistration unlinks
the name and leaves `shm_map` as it is.

* `State`, `regMr`, `deregMr`, `step` — the POSIX names, the router's two tables of pieces, and the
  two requests; the clients open and unlink names as well.
* `Agrees` — the returned name is bound to the registered object, and the size is the requested one.
* `Unlinked` — the name was unlinked at a time when its piece was in `shm_map`.
* `NameStep`, `Inv` — what a step does to names and pieces, and what holds after a run.
* `agrees_iff` — for every run and every answered request: it agrees exactly when the name, if it is
  in `shm_map`, was not unlinked since it is there, and the size is the size of its piece.
* `shmName_fails_reregistered` — register, deregister, register again.

Source: `ffrouter.cpp` `addShmPiece`, `HandleRequest` (`IBV_REG_MR`, `IBV_DEREG_MR`);
`shared_memory.cpp`; client side `cmd.c` `ibv_cmd_reg_mr`, `ibv_cmd_dereg_mr`.
-/

namespace FreeFlow.Router.ShmNames

open FreeFlow.Found FreeFlow.Verbs

/-! ## Names and pieces -/

/-- A `ShmPiece` that is mapped: its name, its size, and the object behind `ptr`.
Source: `shared_memory.h`. Kind: D -/
structure ShmPiece where
  name : String
  size : ℤ
  obj : ℕ
  deriving DecidableEq, Repr

/-- The object every name is bound to, the number of the next object, and the router's tables:
how many pieces each client has in `shm_pool` (nothing reads the pieces there), `shm_map` (an entry
can be a null pointer) and `shmr_map` by MR handle. Kind: D -/
structure State where
  bound : String → Option ℕ
  nextObj : ℕ
  shmPool : ℤ → ℕ
  shmMap : String → Option (Option ShmPiece)
  shmrMap : ℕ → Option ShmPiece

/-- `shm_open` with `O_CREAT`: the bound object, or a new one. Kind: D -/
def State.shmOpen (s : State) (name : String) : State × ℕ :=
  match s.bound name with
  | some o => (s, o)
  | none =>
      ({ s with bound := Function.update s.bound name (some s.nextObj), nextObj := s.nextObj + 1 },
        s.nextObj)

/-- `shm_unlink`: the name is free, the object stays where it is mapped. Kind: D -/
def State.shmUnlink (s : State) (name : String) : State :=
  { s with bound := Function.update s.bound name none }

/-- `ShmPiece::open`. `mmap` refuses the size 0 and every negative `int`, which is a length beyond
the address space; `mapped` is its result otherwise. The name is bound in any case.
Source: `shared_memory.cpp`. Kind: D -/
def State.openPiece (s : State) (name : String) (size : ℤ) (mapped : Bool) :
    State × Option ShmPiece :=
  ((s.shmOpen name).1,
    if 0 < size ∧ mapped = true then some ⟨name, size, (s.shmOpen name).2⟩ else none)

/-- The name of an anonymous piece. Source: `ffrouter.cpp` `addShmPiece(int, int)`. Kind: D -/
def poolName (clientId memSize count : ℤ) : String :=
  "client-" ++ toString clientId ++ "-memsize-" ++ toString memSize ++ "-index-" ++ toString count

/-- The name of the client's next anonymous piece; `int count` is the size of its vector.
Source: `ffrouter.cpp` `addShmPiece(int, int)`. Kind: D -/
def State.nextPoolName (s : State) (clientId memSize : ℤ) : String :=
  poolName clientId memSize (asInt (UInt32.ofNat (s.shmPool clientId)))

/-- `addShmPiece(int, int)`: the piece is in the pool whether or not it can be opened. Kind: D -/
def State.addPoolPiece (s : State) (clientId memSize : ℤ) (mapped : Bool) :
    State × Option ShmPiece :=
  { s with shmPool := Function.update s.shmPool clientId (s.shmPool clientId + 1) }.openPiece
    (s.nextPoolName clientId memSize) memSize mapped

/-- `addShmPiece(std::string, int)`: the entry of the name, whatever its size, or a new one.
Kind: D -/
def State.addNamedPiece (s : State) (name : String) (memSize : ℤ) (mapped : Bool) :
    State × Option ShmPiece :=
  match s.shmMap name with
  | some sp => (s, sp)
  | none =>
      let r := s.openPiece name memSize mapped
      ({ r.1 with shmMap := Function.update r.1.shmMap name (some r.2) }, r.2)

/-! ## The two requests -/

/-- What `IBV_REG_MR` reads of its request. Source: `types.h`. Kind: D -/
structure RegMr where
  clientId : ℤ
  shmName : String
  memSize : UInt32
  deriving DecidableEq, Repr

/-- What `mmap`, the PD lookup and `ibv_reg_mr` answer. Kind: D -/
structure Outcome where
  mapped : Bool
  pdFound : Bool
  mr : Option ℕ
  deriving DecidableEq, Repr

/-- A successful registration: handle and name of the answer, object and size of the MR. Kind: D -/
structure Registered where
  handle : ℕ
  shmName : String
  obj : ℕ
  size : ℤ
  deriving DecidableEq, Repr

/-- The piece of a request; an empty name asks for an anonymous one. The size is passed as an `int`.
Kind: D -/
def State.addShmPiece (s : State) (req : RegMr) (mapped : Bool) : State × Option ShmPiece :=
  if req.shmName = "" then s.addPoolPiece req.clientId (asInt req.memSize) mapped
  else s.addNamedPiece req.shmName (asInt req.memSize) mapped

/-- `IBV_REG_MR`; `none` stands for the three ways to `end` without an MR. Kind: D -/
def State.regMr (s : State) (req : RegMr) (out : Outcome) : State × Option Registered :=
  let r := s.addShmPiece req out.mapped
  match r.2, out.pdFound, out.mr with
  | some sp, true, some h =>
      ({ r.1 with
          shmrMap := if h < mapSize then Function.update r.1.shmrMap h (some sp) else r.1.shmrMap },
        some { handle := h, shmName := sp.name, obj := sp.obj, size := sp.size })
  | _, _, _ => (r.1, none)

/-- `IBV_DEREG_MR`. Without an MR under the handle `sp->remove()` is a call on a null pointer, and
the router does not go on. Kind: D -/
def State.deregMr (s : State) (h : ℕ) : Option State :=
  (s.shmrMap h).map fun sp =>
    { s with shmrMap := Function.update s.shmrMap h none }.shmUnlink sp.name

/-- A request, or a client (any process on the host) that opens or unlinks a name. Kind: D -/
inductive Act
  | regMr (req : RegMr) (out : Outcome)
  | deregMr (h : ℕ)
  | shmOpen (name : String)
  | shmUnlink (name : String)
  deriving DecidableEq, Repr

/-- One step. Kind: D -/
def step (s : State) : Act → Option State
  | .regMr req out => some (s.regMr req out).1
  | .deregMr h => s.deregMr h
  | .shmOpen name => some (s.shmOpen name).1
  | .shmUnlink name => some (s.shmUnlink name)

/-- The router starts with empty tables, on a host where any names can be bound already. Kind: D -/
structure Start (s : State) : Prop where
  bound_lt : ∀ name o, s.bound name = some o → o < s.nextObj
  shmPool : ∀ c, s.shmPool c = 0
  shmMap : ∀ name, s.shmMap name = none
  shmrMap : ∀ h, s.shmrMap h = none

/-! ## Agreement, and what breaks it -/

/-- The client that opens the returned name gets the registered object, and the registered size is
the requested one. Kind: D -/
def Agrees (s : State) (req : RegMr) (reg : Registered) : Prop :=
  s.bound reg.shmName = some reg.obj ∧ reg.size = req.memSize.toNat

/-- The name a step unlinks. Kind: D -/
def removes (s : State) : Act → Option String
  | .deregMr h => (s.shmrMap h).map ShmPiece.name
  | .shmUnlink name => some name
  | _ => none

/-- Some step of the run unlinked the name while it was in `shm_map`. Kind: D -/
def Unlinked (s₀ : State) (as : List Act) (name : String) : Prop :=
  ∃ pre a post s, as = pre ++ a :: post ∧ exec step s₀ pre = some s ∧ s.shmMap name ≠ none ∧
    removes s a = some name

/-- A run one step longer. Kind: L -/
lemma unlinked_append_iff {s₀ s : State} {as : List Act} (hrun : exec step s₀ as = some s) (a : Act)
    (name : String) :
    Unlinked s₀ (as ++ [a]) name ↔
      Unlinked s₀ as name ∨ (s.shmMap name ≠ none ∧ removes s a = some name) := by
  constructor
  · rintro ⟨pre, b, post, t, heq, ht, hmap, hrem⟩
    rcases append_singleton_eq_append_cons_iff.mp heq with ⟨rfl, rfl, -⟩ | ⟨post', rfl, rfl⟩
    · rw [hrun, Option.some.injEq] at ht
      exact .inr (ht ▸ ⟨hmap, hrem⟩)
    · exact .inl ⟨pre, b, post', t, rfl, ht, hmap, hrem⟩
  · rintro (⟨pre, b, post, t, rfl, ht, hmap, hrem⟩ | ⟨hmap, hrem⟩)
    · exact ⟨pre, b, post ++ [a], t, by simp, ht, hmap, hrem⟩
    · exact ⟨as, a, [], s, rfl, hrun, hmap, hrem⟩

/-! ## What a step does to names and pieces -/

/-- What every step does, `removed` being the name it unlinks: the entries of `shm_map` stay, a new
one is bound to its object, and a name that is not unlinked keeps its object if it has one.
Kind: D -/
structure NameStep (s s' : State) (removed : Option String) : Prop where
  entries : ∀ name sp, s.shmMap name = some sp → s'.shmMap name = some sp
  added : ∀ name p, s.shmMap name = none → s'.shmMap name = some (some p) →
    p.name = name ∧ s'.bound name = some p.obj ∧ removed ≠ some name
  unbound : ∀ name, removed = some name → s'.bound name = none
  kept : ∀ name, removed ≠ some name →
    s'.bound name = s.bound name ∨ (s.bound name = none ∧ s'.bound name = some s.nextObj)
  nextObj_le : s.nextObj ≤ s'.nextObj
  bound_lt : (∀ name o, s.bound name = some o → o < s.nextObj) →
    ∀ name o, s'.bound name = some o → o < s'.nextObj

/-- The opened name is bound to the object. Kind: L -/
lemma shmOpen_bound (s : State) (name : String) :
    (s.shmOpen name).1.bound name = some (s.shmOpen name).2 := by
  unfold State.shmOpen
  split
  next o ho => exact ho
  next => exact Function.update_self ..

/-- Opening changes neither table. Kind: L -/
lemma shmOpen_shmMap (s : State) (name : String) : (s.shmOpen name).1.shmMap = s.shmMap := by
  unfold State.shmOpen
  split <;> rfl

/-- `shm_open` is such a step. Kind: L -/
lemma nameStep_shmOpen (s : State) (name : String) : NameStep s (s.shmOpen name).1 none where
  entries n sp h := by rw [shmOpen_shmMap, h]
  added n p hnone hsome := by
    rw [shmOpen_shmMap, hnone] at hsome
    exact absurd hsome (by simp)
  unbound n h := absurd h (by simp)
  kept n _ := by
    unfold State.shmOpen
    split
    next => exact .inl rfl
    next hnone =>
      by_cases hn : n = name
      · subst hn
        exact .inr ⟨hnone, Function.update_self ..⟩
      · exact .inl (Function.update_of_ne hn ..)
  nextObj_le := by
    unfold State.shmOpen
    split
    next => exact le_rfl
    next => exact Nat.le_succ _
  bound_lt hlt n o ho := by
    unfold State.shmOpen at ho ⊢
    split at ho
    next => exact hlt n o ho
    next =>
      by_cases hn : n = name
      · subst hn
        simp only [Function.update_self, Option.some.injEq] at ho
        exact ho ▸ Nat.lt_succ_self _
      · simp only [Function.update_of_ne hn] at ho
        exact Nat.lt_succ_of_lt (hlt n o ho)

/-- `shm_unlink` is such a step. Kind: L -/
lemma nameStep_shmUnlink (s : State) (name : String) :
    NameStep s (s.shmUnlink name) (some name) where
  entries n sp h := h
  added n p hnone hsome := absurd (hnone.symm.trans hsome) (by simp)
  unbound n h := by
    cases h
    exact Function.update_self ..
  kept n hn := .inl (Function.update_of_ne (fun h => hn (congrArg some h.symm)) ..)
  nextObj_le := le_rfl
  bound_lt hlt n o ho := by
    by_cases hn : n = name
    · subst hn
      simp [State.shmUnlink] at ho
    · simp only [State.shmUnlink, Function.update_of_ne hn] at ho
      exact hlt n o ho

/-- The pool and `shmr_map` have no part in it. Kind: L -/
lemma NameStep.tables {s s' : State} {r : Option String} (h : NameStep s s' r) (pool pool' : ℤ → ℕ)
    (shmr shmr' : ℕ → Option ShmPiece) :
    NameStep { s with shmPool := pool, shmrMap := shmr }
      { s' with shmPool := pool', shmrMap := shmr' } r :=
  ⟨h.entries, h.added, h.unbound, h.kept, h.nextObj_le, h.bound_lt⟩

/-- What a mapped piece is. Kind: L -/
lemma openPiece_eq_some {s : State} {name : String} {size : ℤ} {mapped : Bool} {p : ShmPiece}
    (h : (s.openPiece name size mapped).2 = some p) :
    0 < size ∧ p.name = name ∧ p.size = size ∧
      (s.openPiece name size mapped).1.bound name = some p.obj := by
  simp only [State.openPiece] at h ⊢
  split at h
  next hok =>
    cases h
    exact ⟨hok.1, rfl, rfl, shmOpen_bound s name⟩
  next => exact absurd h (by simp)

/-- A named request that finds no entry. Kind: L -/
lemma addNamedPiece_of_none {s : State} {name : String} (h : s.shmMap name = none) (memSize : ℤ)
    (mapped : Bool) :
    s.addNamedPiece name memSize mapped =
      ({ (s.openPiece name memSize mapped).1 with
          shmMap := Function.update s.shmMap name (some (s.openPiece name memSize mapped).2) },
        (s.openPiece name memSize mapped).2) := by
  unfold State.addNamedPiece
  rw [h]
  simp only [State.openPiece, shmOpen_shmMap]

/-- A named request that finds an entry. Kind: L -/
lemma addNamedPiece_of_some {s : State} {name : String} {sp : Option ShmPiece}
    (h : s.shmMap name = some sp) (memSize : ℤ) (mapped : Bool) :
    s.addNamedPiece name memSize mapped = (s, sp) := by
  unfold State.addNamedPiece
  rw [h]

/-- A named request is such a step: an entry it adds is a piece it has just opened. Kind: L -/
lemma nameStep_addNamedPiece (s : State) (name : String) (memSize : ℤ) (mapped : Bool) :
    NameStep s (s.addNamedPiece name memSize mapped).1 none := by
  cases hmap : s.shmMap name with
  | some sp =>
      rw [addNamedPiece_of_some hmap]
      exact ⟨fun _ _ h => h, fun _ _ hnone hsome => absurd (hnone.symm.trans hsome) (by simp),
        fun _ h => absurd h (by simp), fun _ _ => .inl rfl, le_rfl, fun h => h⟩
  | none =>
      rw [addNamedPiece_of_none hmap]
      have hopen : NameStep s (s.openPiece name memSize mapped).1 none := nameStep_shmOpen s name
      refine ⟨?_, ?_, hopen.unbound, hopen.kept, hopen.nextObj_le, hopen.bound_lt⟩
      · intro n sp h
        rw [← h]
        refine Function.update_of_ne ?_ ..
        rintro rfl
        exact absurd (hmap.symm.trans h) (by simp)
      · intro n p hnone hsome
        have hn : n = name := by
          by_contra hne
          simp [Function.update_of_ne hne, hnone] at hsome
        subst hn
        simp only [Function.update_self, Option.some.injEq] at hsome
        obtain ⟨-, hpname, -, hbound⟩ := openPiece_eq_some hsome
        exact ⟨hpname, hbound, by simp⟩

/-- So is the piece of any request. Kind: L -/
lemma nameStep_addShmPiece (s : State) (req : RegMr) (mapped : Bool) :
    NameStep s (s.addShmPiece req mapped).1 none := by
  unfold State.addShmPiece
  split
  next =>
    unfold State.addPoolPiece
    have hopen := nameStep_shmOpen
      { s with shmPool := Function.update s.shmPool req.clientId (s.shmPool req.clientId + 1) }
      (s.nextPoolName req.clientId (asInt req.memSize))
    exact hopen.tables s.shmPool _ s.shmrMap _
  next => exact nameStep_addNamedPiece ..

/-- A registration changes the names as the request of its piece does. Kind: L -/
lemma regMr_fst (s : State) (req : RegMr) (out : Outcome) :
    ∃ shmr, (s.regMr req out).1 = { (s.addShmPiece req out.mapped).1 with shmrMap := shmr } := by
  simp only [State.regMr]
  split
  next => exact ⟨_, rfl⟩
  next => exact ⟨(s.addShmPiece req out.mapped).1.shmrMap, rfl⟩

/-- **Every step** does to names and pieces what `NameStep` says. Kind: L -/
lemma nameStep_of_step {s s' : State} {a : Act} (h : step s a = some s') :
    NameStep s s' (removes s a) := by
  cases a with
  | regMr req out =>
      simp only [step, Option.some.injEq] at h
      obtain ⟨shmr, hshmr⟩ := regMr_fst s req out
      rw [← h, hshmr]
      have hadd := nameStep_addShmPiece s req out.mapped
      exact hadd.tables s.shmPool _ s.shmrMap shmr
  | deregMr h' =>
      simp only [step, State.deregMr, Option.map_eq_some_iff] at h
      obtain ⟨sp, hsp, rfl⟩ := h
      rw [removes, hsp]
      exact (nameStep_shmUnlink s sp.name).tables s.shmPool _ s.shmrMap _
  | shmOpen name =>
      simp only [step, Option.some.injEq] at h
      exact h ▸ nameStep_shmOpen s name
  | shmUnlink name =>
      simp only [step, Option.some.injEq] at h
      exact h ▸ nameStep_shmUnlink s name

/-! ## What holds after a run -/

/-- After a run: an entry of `shm_map` that was unlinked is there, and the piece of an entry is that
of its name, with the object the name is bound to exactly when it was not unlinked. Kind: D -/
structure Inv (s₀ : State) (as : List Act) (s : State) : Prop where
  bound_lt : ∀ name o, s.bound name = some o → o < s.nextObj
  entry_of_unlinked : ∀ name, Unlinked s₀ as name → s.shmMap name ≠ none
  piece : ∀ name p, s.shmMap name = some (some p) → p.name = name ∧ p.obj < s.nextObj ∧
    (s.bound name = some p.obj ↔ ¬ Unlinked s₀ as name)

/-- The invariant at the start. Kind: L -/
lemma inv_start {s₀ : State} (h : Start s₀) : Inv s₀ [] s₀ where
  bound_lt := h.bound_lt
  entry_of_unlinked name := by
    rintro ⟨pre, a, post, -, heq, -⟩
    exact absurd heq (by simp)
  piece name p hp := absurd ((h.shmMap name).symm.trans hp) (by simp)

/-- An old entry across a step: its name loses the object exactly when the step unlinks it.
Kind: L -/
lemma Inv.old_piece {s₀ s s' : State} {as : List Act} {a : Act} (hinv : Inv s₀ as s)
    (hrun : exec step s₀ as = some s) (hns : NameStep s s' (removes s a)) {name : String}
    {p : ShmPiece} (hp : s.shmMap name = some (some p)) :
    s'.bound name = some p.obj ↔ ¬ Unlinked s₀ (as ++ [a]) name := by
  obtain ⟨-, hlt, hiff⟩ := hinv.piece name p hp
  have hentry : s.shmMap name ≠ none := by simp [hp]
  rw [unlinked_append_iff hrun, not_or, ← hiff]
  by_cases hrem : removes s a = some name
  · simp [hns.unbound name hrem, hentry, hrem]
  · rcases hns.kept name hrem with hsame | ⟨hnone, hnew⟩
    · simp [hsame, hrem]
    · -- the object of a new binding is a new one
      simp [hnone, hnew, hrem, (Nat.ne_of_lt hlt).symm]

/-- Every step preserves it. Kind: L -/
lemma Inv.step {s₀ s s' : State} {as : List Act} {a : Act} (hinv : Inv s₀ as s)
    (hrun : exec step s₀ as = some s) (hs : step s a = some s') : Inv s₀ (as ++ [a]) s' := by
  have hns := nameStep_of_step hs
  have hstays : ∀ name, s.shmMap name ≠ none → s'.shmMap name ≠ none := by
    intro name hne
    obtain ⟨sp, hsp⟩ := Option.ne_none_iff_exists'.mp hne
    simp [hns.entries name sp hsp]
  refine ⟨hns.bound_lt hinv.bound_lt, ?_, ?_⟩
  · intro name hun
    rcases (unlinked_append_iff hrun a name).mp hun with hold | ⟨hentry, -⟩
    · exact hstays name (hinv.entry_of_unlinked name hold)
    · exact hstays name hentry
  · intro name p hp
    cases hold : s.shmMap name with
    | some sp =>
        rw [hns.entries name sp hold, Option.some.injEq] at hp
        subst hp
        obtain ⟨hname, hlt, -⟩ := hinv.piece name p hold
        exact ⟨hname, lt_of_lt_of_le hlt hns.nextObj_le, hinv.old_piece hrun hns hold⟩
    | none =>
        -- an entry that this step adds was not unlinked before: it was not there
        obtain ⟨hname, hbound, hrem⟩ := hns.added name p hold hp
        refine ⟨hname, hns.bound_lt hinv.bound_lt name _ hbound, ?_⟩
        have hnot : ¬ Unlinked s₀ (as ++ [a]) name := by
          rw [unlinked_append_iff hrun, not_or]
          exact ⟨fun hun => hinv.entry_of_unlinked name hun hold, fun h => hrem h.2⟩
        simp [hbound, hnot]

/-- It holds after every run. Kind: L -/
lemma inv_of_run {s₀ s : State} (h₀ : Start s₀) {as : List Act}
    (hrun : exec step s₀ as = some s) : Inv s₀ as s := by
  induction as using List.reverseRecOn generalizing s with
  | nil =>
      cases hrun
      exact inv_start h₀
  | append_singleton as a ih =>
      obtain ⟨t, ht, hs⟩ := (exec_append_singleton_eq_some step).mp hrun
      exact (ih ht).step ht hs

/-! ## Registrations -/

/-- A successful registration is one of the piece that `addShmPiece` returns. Kind: L -/
lemma regMr_eq_some {s s' : State} {req : RegMr} {out : Outcome} {reg : Registered}
    (h : s.regMr req out = (s', some reg)) :
    s'.bound = (s.addShmPiece req out.mapped).1.bound ∧
      (s.addShmPiece req out.mapped).2 = some ⟨reg.shmName, reg.size, reg.obj⟩ := by
  simp only [State.regMr] at h
  split at h
  next sp h' hsp _ _ =>
    cases h
    exact ⟨rfl, hsp⟩
  next => exact absurd (congrArg Prod.snd h) (by simp)

/-- A piece that the request itself opens agrees. Kind: L -/
lemma agrees_of_opened {s s' : State} {req : RegMr} {mapped : Bool} {reg : Registered}
    {name : String} (hbound : s'.bound = (s.openPiece name (asInt req.memSize) mapped).1.bound)
    (hp : (s.openPiece name (asInt req.memSize) mapped).2 =
      some ⟨reg.shmName, reg.size, reg.obj⟩) : Agrees s' req reg := by
  obtain ⟨hpos, hname, hsize, hopen⟩ := openPiece_eq_some hp
  refine ⟨?_, ?_⟩
  · rw [hbound]
    exact hname ▸ hopen
  · rw [← asInt_of_pos hpos]
    exact hsize

/-- A named request that finds an entry: nothing is opened, and it agrees when the entry is still
the object of its name, with the requested size. Kind: L -/
lemma agrees_cached_iff {s₀ s s' : State} {as : List Act} (hinv : Inv s₀ as s) {req : RegMr}
    {reg : Registered} (hbound : s'.bound = s.bound)
    (hp : s.shmMap req.shmName = some (some ⟨reg.shmName, reg.size, reg.obj⟩)) :
    Agrees s' req reg ↔ ¬ Unlinked s₀ as req.shmName ∧ reg.size = req.memSize.toNat := by
  obtain ⟨hname, -, hiff⟩ := hinv.piece _ _ hp
  have hname' : reg.shmName = req.shmName := hname
  unfold Agrees
  rw [hbound, hname', ← hiff]

/-- The request names no entry of `shm_map`, or one whose name was not unlinked since it is there
and whose piece has the requested size. Kind: D -/
def Current (s₀ : State) (as : List Act) (s : State) (req : RegMr) : Prop :=
  req.shmName ≠ "" → ∀ p, s.shmMap req.shmName = some (some p) →
    ¬ Unlinked s₀ as req.shmName ∧ p.size = req.memSize.toNat

/-- **Which registrations agree.** After every sequence of registrations, deregistrations, and names
opened and unlinked by clients, and for every registration that is then answered with success: the
returned name is bound to the registered object and the registered size is the requested one exactly
when the request is anonymous, or its name is new to the router, or the name was not unlinked since
the router knows it and the size is that of the first request. Kind: P -/
theorem agrees_iff {s₀ s s' : State} (h₀ : Start s₀) {as : List Act}
    (hrun : exec step s₀ as = some s) {req : RegMr} {out : Outcome} {reg : Registered}
    (hreg : s.regMr req out = (s', some reg)) : Agrees s' req reg ↔ Current s₀ as s req := by
  have hinv := inv_of_run h₀ hrun
  obtain ⟨hbound, hpiece⟩ := regMr_eq_some hreg
  unfold State.addShmPiece at hbound hpiece
  by_cases hanon : req.shmName = ""
  · rw [if_pos hanon] at hbound hpiece
    have hagrees : Agrees s' req reg := agrees_of_opened hbound hpiece
    exact iff_of_true hagrees fun hne => absurd hanon hne
  · rw [if_neg hanon] at hbound hpiece
    cases hmap : s.shmMap req.shmName with
    | none =>
        rw [addNamedPiece_of_none hmap] at hbound hpiece
        have hagrees : Agrees s' req reg := agrees_of_opened hbound hpiece
        exact iff_of_true hagrees fun _ p hp => absurd (hmap.symm.trans hp) (by simp)
    | some sp =>
        rw [addNamedPiece_of_some hmap] at hbound hpiece
        have hentry := hmap.trans (congrArg some hpiece)
        rw [agrees_cached_iff hinv hbound hentry]
        constructor
        · intro h _ p hp
          cases hentry.symm.trans hp
          exact h
        · intro h
          exact h hanon _ hentry

/-! ## Samples -/

/-- A router on a host without shared memory objects. Kind: C -/
def sampleStart : State where
  bound _ := none
  nextObj := 0
  shmPool _ := 0
  shmMap _ := none
  shmrMap _ := none

/-- Client 7 asks for a page under the name `buf`. Kind: C -/
def sampleReq : RegMr := { clientId := 7, shmName := "buf", memSize := 4096 }

/-- The registration works and its MR gets the handle `h`. Kind: C -/
def sampleOk (h : ℕ) : Outcome := { mapped := true, pdFound := true, mr := some h }

/-- The start is one. Kind: C -/
lemma start_sampleStart : Start sampleStart where
  bound_lt _ _ h := absurd h (by simp [sampleStart])
  shmPool _ := rfl
  shmMap _ := rfl
  shmrMap _ := rfl

/-- The router after the registration of `buf`. Kind: C -/
def sampleRegistered : State := (sampleStart.regMr sampleReq (sampleOk 3)).1

/-- The router after its deregistration. Kind: C -/
def sampleDeregistered : State :=
  { sampleRegistered with shmrMap := Function.update sampleRegistered.shmrMap 3 none }.shmUnlink
    "buf"

/-- Two MRs in the same memory: the second registration under the name agrees, so it was current.
Kind: C -/
theorem agrees_second_mr :
    exec step sampleStart [.regMr sampleReq (sampleOk 3)] = some sampleRegistered ∧
      (sampleRegistered.regMr sampleReq (sampleOk 4)).2 = some ⟨4, "buf", 0, 4096⟩ ∧
      Current sampleStart [.regMr sampleReq (sampleOk 3)] sampleRegistered sampleReq := by
  have hrun : exec step sampleStart [.regMr sampleReq (sampleOk 3)] = some sampleRegistered := rfl
  have hok : (sampleRegistered.regMr sampleReq (sampleOk 4)).2 = some ⟨4, "buf", 0, 4096⟩ := by
    decide
  have hagrees :
      Agrees (sampleRegistered.regMr sampleReq (sampleOk 4)).1 sampleReq ⟨4, "buf", 0, 4096⟩ :=
    ⟨by decide, by decide⟩
  exact ⟨hrun, hok, (agrees_iff start_sampleStart hrun (Prod.ext rfl hok)).mp hagrees⟩

/-- **A name is registered, deregistered and registered again**: the answer names `buf`, which is no
longer bound, and the MR is in the unlinked object. **A name is registered again with another
size**: the MR has the first one. Kind: C -/
theorem shmName_fails_reregistered :
    (exec step sampleStart [.regMr sampleReq (sampleOk 3), .deregMr 3] = some sampleDeregistered ∧
      (sampleDeregistered.regMr sampleReq (sampleOk 4)).2 = some ⟨4, "buf", 0, 4096⟩ ∧
      (sampleDeregistered.regMr sampleReq (sampleOk 4)).1.bound "buf" = none ∧
      ¬ Agrees (sampleDeregistered.regMr sampleReq (sampleOk 4)).1 sampleReq ⟨4, "buf", 0, 4096⟩) ∧
    (exec step sampleStart [.regMr sampleReq (sampleOk 3)] = some sampleRegistered ∧
      (sampleRegistered.regMr { sampleReq with memSize := 8192 } (sampleOk 4)).2 =
        some ⟨4, "buf", 0, 4096⟩ ∧
      ¬ Agrees (sampleRegistered.regMr { sampleReq with memSize := 8192 } (sampleOk 4)).1
        { sampleReq with memSize := 8192 } ⟨4, "buf", 0, 4096⟩) := by
  refine ⟨⟨rfl, by decide, by decide, ?_⟩, rfl, by decide, ?_⟩
  · intro h
    exact absurd h.1 (by decide)
  · intro h
    exact absurd h.2 (by decide)

end FreeFlow.Router.ShmNames
