import FreeFlow.Found.DecimalText
import FreeFlow.Router.Objects

/-!
# The names the router makes up

A piece of shared memory that the client did not name gets its name from the router: an anonymous
piece from client, size and index, the control piece of a QP, CQ or SRQ from its handle. The client
opens the memory by that name, which it is told in a field of 100 bytes. Two pieces with one name
are one memory.

The index of an anonymous piece is the number of pieces in the client's vector, which grows with
every call, also when the piece cannot be opened. It is an `int`, though: the call that is `2 ^ 32`
calls of its client later has the same index.

* `Act`, `step` — the two functions, on the router's state, with a record of the names they make.
* `Logged` — the name of every call of a run, from the calls before it.
* `poolName_inj`, `ctrlName_inj`, `poolName_ne_ctrlName` — which names are equal.
* `namesApart_iff` — the names of a run are as they should be exactly when no client makes two calls
  for the same size with a multiple of `2 ^ 32` of its calls from one to the other.
* `renewed_of_countP_le` — which is so when no client makes more than `2 ^ 32` calls.

Source: `ffrouter.cpp` `addShmPiece(int, int)`, `initCtrlShm`, `HandleRequest` (`IBV_CREATE_CQ`,
`IBV_CREATE_QP`, `IBV_CREATE_SRQ`); `types.h` `IBV_REG_MR_RSP`.
-/

namespace FreeFlow.Router.PieceNames

open FreeFlow.Found FreeFlow.Verbs FreeFlow.Router.Isolation
open FreeFlow.Router.ShmNames (poolName)
open FreeFlow.Router.Objects (ctrlName)

/-! ## Calls -/

/-- A call of one of the two functions, with the arguments as they are held in four bytes, and with
the result of `mmap`. Kind: D -/
inductive Act
  | addShmPiece (clientId memSize : UInt32) (mapped : Bool)
  | initCtrlShm (kind : Kind) (handle : UInt32) (mapped : Bool)
  deriving DecidableEq, Repr

/-- The call makes an anonymous piece. Kind: D -/
def Act.isPool : Act → Bool
  | addShmPiece .. => true
  | initCtrlShm .. => false

/-- The call makes an anonymous piece of the client. Kind: D -/
def Act.isOf (clientId : ℤ) : Act → Bool
  | addShmPiece c _ _ => asInt c = clientId
  | initCtrlShm .. => false

/-- What a control piece belongs to. Kind: D -/
def Act.owner : Act → Option (Kind × UInt32)
  | addShmPiece .. => none
  | initCtrlShm k h _ => some (k, h)

/-- The router, and the calls so far with the names of the pieces they made. Kind: D -/
structure State where
  router : Objects.State
  made : List (Act × String)

/-- **One call.** An anonymous piece is made whether or not it can be opened. A control piece that
cannot be opened is written to all the same, and the router is gone.
Source: `ffrouter.cpp` `addShmPiece(int, int)`, `initCtrlShm`
Kind: D -/
def step (s : State) : Act → Option State
  | .addShmPiece c m mapped =>
      some
        { router :=
            { s.router with
              shm := (s.router.shm.addPoolPiece (asInt c) (asInt m) mapped).1 }
          made := s.made ++
            [(.addShmPiece c m mapped, s.router.shm.nextPoolName (asInt c) (asInt m))] }
  | .initCtrlShm k h mapped =>
      match Objects.initCtrlShm k h.toNat mapped s.router with
      | (.ok sp, router) =>
          some { router := router, made := s.made ++ [(.initCtrlShm k h mapped, sp.name)] }
      | (.error _, _) => none

/-- A router with empty vectors, whatever else it has. Kind: D -/
structure Start (s : State) : Prop where
  shmPool : ∀ c, s.router.shm.shmPool c = 0
  made : s.made = []

/-! ## The names of a run -/

/-- The name a call makes when every client has had `count` anonymous pieces. Kind: D -/
def Act.name (count : ℤ → ℕ) : Act → String
  | addShmPiece c m _ => poolName (asInt c) (asInt m) (asInt (UInt32.ofNat (count (asInt c))))
  | initCtrlShm k h _ => ctrlName k h.toNat

/-- How many anonymous pieces of the client the first `i` calls make. Kind: D -/
def earlier (as : List Act) (i : ℕ) (c : ℤ) : ℕ := (as.take i).countP (Act.isOf c)

/-- Opening a piece leaves the vectors alone. Kind: L -/
lemma shmPool_openPiece (r : ShmNames.State) (name : String) (size : ℤ) (mapped : Bool) :
    (r.openPiece name size mapped).1.shmPool = r.shmPool := by
  unfold ShmNames.State.openPiece ShmNames.State.shmOpen
  split <;> rfl

/-- A control piece that was opened has the name of its handle. Kind: L -/
lemma initCtrlShm_eq_ok {k : Kind} {h : ℕ} {mapped : Bool} {s s' : Objects.State}
    {sp : ShmNames.ShmPiece} (hcall : Objects.initCtrlShm k h mapped s = (.ok sp, s')) :
    sp.name = ctrlName k h ∧ s'.shm.shmPool = s.shm.shmPool := by
  rcases hopen : (s.shm.openPiece (ctrlName k h) Objects.sizeofCtrlShmPiece mapped).2 with _ | p
  · simp only [Objects.initCtrlShm, bind, Proc.andThen, Proc.get, Proc.modify, hopen] at hcall
    cases hcall
  · simp only [Objects.initCtrlShm, bind, Proc.andThen, Proc.get, Proc.modify, hopen] at hcall
    cases hcall
    exact ⟨(ShmNames.openPiece_eq_some hopen).2.1,
      shmPool_openPiece _ _ Objects.sizeofCtrlShmPiece mapped⟩

/-- **What a call does**: it records its name, and an anonymous piece lengthens the vector of its
client. Kind: L -/
lemma step_spec {s s' : State} {a : Act} (h : step s a = some s') :
    s'.made = s.made ++ [(a, a.name s.router.shm.shmPool)] ∧
      ∀ c, s'.router.shm.shmPool c = s.router.shm.shmPool c + [a].countP (Act.isOf c) := by
  cases a with
  | addShmPiece c m mapped =>
      cases h
      refine ⟨rfl, fun c' => ?_⟩
      simp only [ShmNames.State.addPoolPiece, shmPool_openPiece]
      rcases eq_or_ne c' (asInt c) with rfl | hne
      · simp [Act.isOf]
      · simp [Act.isOf, hne, hne.symm]
  | initCtrlShm k h' mapped =>
      simp only [step] at h
      split at h
      case h_2 => cases h
      case h_1 sp router hcall =>
        cases h
        obtain ⟨hname, hpool⟩ := initCtrlShm_eq_ok hcall
        exact ⟨by rw [hname]; rfl, fun c => by rw [hpool]; rfl⟩

/-- Every call of the run is recorded with the name that the calls before it give it, and every
vector has the pieces of its client. Kind: D -/
structure Logged (as : List Act) (s : State) : Prop where
  length : s.made.length = as.length
  made : ∀ (i : ℕ) (a : Act), as[i]? = some a → s.made[i]? = some (a, a.name (earlier as i))
  shmPool : ∀ c, s.router.shm.shmPool c = as.countP (Act.isOf c)

/-- One call more. Kind: L -/
lemma Logged.step {as : List Act} {s s' : State} {a : Act} (h : Logged as s)
    (hs : step s a = some s') : Logged (as ++ [a]) s' := by
  obtain ⟨hmade, hpool⟩ := step_spec hs
  refine ⟨by simp [hmade, h.length], fun i b hb => ?_, fun c => ?_⟩
  · rcases lt_or_ge i as.length with hi | hi
    · rw [List.getElem?_append_left hi] at hb
      have hbefore : earlier (as ++ [a]) i = earlier as i := by
        funext c
        rw [earlier, earlier, List.take_append_of_le_length hi.le]
      rw [hmade, List.getElem?_append_left (h.length ▸ hi), hbefore]
      exact h.made i b hb
    · -- the call is the last one
      obtain rfl : i = as.length := by
        have hlt := (List.getElem?_eq_some_iff.mp hb).1
        simp only [List.length_append, List.length_singleton] at hlt
        omega
      have hcount : earlier (as ++ [a]) as.length = s.router.shm.shmPool := by
        funext c
        rw [earlier, List.take_left, h.shmPool]
      obtain rfl : a = b := by simpa using hb
      rw [hmade, hcount, ← h.length, List.getElem?_concat_length]
  · rw [hpool, h.shmPool, List.countP_append]

/-- **The names of a run.** Kind: P -/
theorem logged_of_exec {s t : State} {as : List Act} (hstart : Start s)
    (hrun : exec step s as = some t) : Logged as t := by
  induction as using List.reverseRecOn generalizing t with
  | nil =>
      cases hrun
      exact ⟨by simp [hstart.made], fun i a h => by simp at h, fun c => by simp [hstart.shmPool]⟩
  | append_singleton as a ih =>
      obtain ⟨s', hs', hstep⟩ := (exec_append_singleton_eq_some step).mp hrun
      exact (ih hs').step hstep

/-! ## Which names are equal -/

/-- An `int` has one form in four bytes. Kind: L -/
lemma asInt_inj {v w : UInt32} : asInt v = asInt w ↔ v = w := by
  rw [asInt, asInt, BitVec.toInt_inj, UInt32.toBitVec_inj]

/-- The index of an anonymous piece, which is a number modulo `2 ^ 32`. Kind: L -/
lemma index_eq_iff {i j : ℕ} :
    asInt (UInt32.ofNat i) = asInt (UInt32.ofNat j) ↔ i ≡ j [MOD 2 ^ 32] := by
  rw [asInt_inj, ← UInt32.toNat_inj, UInt32.toNat_ofNat', UInt32.toNat_ofNat']
  rfl

/-- The characters of an anonymous name: a letter follows each of the first two numbers and the
minus behind it. Kind: L -/
lemma toList_poolName (c m k : ℤ) :
    (poolName c m k).toList = "client-".toList ++ (((toString c).toList ++ ['-']) ++ 'm' ::
      ("emsize-".toList ++ (((toString m).toList ++ ['-']) ++ 'i' ::
        ("ndex-".toList ++ (toString k).toList)))) := by
  have hsize : "-memsize-".toList = '-' :: 'm' :: "emsize-".toList := by decide
  have hindex : "-index-".toList = '-' :: 'i' :: "ndex-".toList := by decide
  simp only [poolName, String.toList_append, hsize, hindex, List.append_assoc, List.cons_append,
    List.nil_append]

/-- **Anonymous names** are equal only for the same client, size and index. Kind: P -/
lemma poolName_inj {c m k c' m' k' : ℤ} :
    poolName c m k = poolName c' m' k' ↔ c = c' ∧ m = m' ∧ k = k' := by
  have hno : ∀ (x : Char) (n : ℤ), x.isDigit = false → x ≠ '-' →
      x ∉ (toString n).toList ++ ['-'] := by
    intro x n hdigit hminus hmem
    rcases List.mem_append.mp hmem with h | h
    · exact not_mem_toString_int hdigit hminus n h
    · exact hminus (List.mem_singleton.mp h)
  have hint : ∀ {a b : ℤ}, (toString a).toList = (toString b).toList → a = b := by
    intro a b h
    rwa [String.toList_inj, Int.toString_eq_repr, Int.toString_eq_repr, Int.repr_inj] at h
  constructor
  · intro h
    have hchars := congrArg String.toList h
    rw [toList_poolName, toList_poolName] at hchars
    obtain ⟨hc, hrest⟩ := append_cons_inj (hno 'm' c (by decide) (by decide))
      (hno 'm' c' (by decide) (by decide)) (List.append_cancel_left hchars)
    obtain ⟨hm, hlast⟩ := append_cons_inj (hno 'i' m (by decide) (by decide))
      (hno 'i' m' (by decide) (by decide)) (List.append_cancel_left hrest)
    exact ⟨hint (List.append_cancel_right hc), hint (List.append_cancel_right hm),
      hint (List.append_cancel_left hlast)⟩
  · rintro ⟨rfl, rfl, rfl⟩
    rfl

/-- **Control names** are equal only for the same kind and handle. Kind: P -/
lemma ctrlName_inj {k k' : Kind} {h h' : ℕ} :
    ctrlName k h = ctrlName k' h' ↔ k = k' ∧ h = h' := by
  constructor
  · intro heq
    have hchars := congrArg String.toList heq
    simp only [ctrlName, String.toList_append, List.append_assoc, List.append_cancel_left_eq]
      at hchars
    have hnat : (toString h).toList = (toString h').toList → h = h' := by
      intro htext
      rwa [String.toList_inj, Nat.toString_eq_repr, Nat.toString_eq_repr, Nat.repr_inj] at htext
    rcases eq_or_ne k k' with rfl | hne
    · exact ⟨rfl, hnat (List.append_cancel_left hchars)⟩
    · -- names of different kinds differ in the first letter of the tag
      cases k <;> cases k' <;>
        first
        | exact absurd rfl hne
        | exact absurd (List.cons.inj hchars).1 (by decide)
  · rintro ⟨rfl, rfl⟩
    rfl

/-- An anonymous name is no control name: they differ in the second letter. Kind: L -/
lemma poolName_ne_ctrlName (c m i : ℤ) (k : Kind) (h : ℕ) : poolName c m i ≠ ctrlName k h := by
  intro heq
  have hchars := congrArg (fun s => s.toList[1]?) heq
  simp only [toList_poolName, ctrlName, String.toList_append] at hchars
  exact absurd hchars (by simp)

section Names

variable {a b : Act} {count count' : ℤ → ℕ}

/-- Two anonymous calls that make one name. Kind: L -/
lemma calls_of_name_eq (ha : a.isPool = true) (hb : b.isPool = true)
    (h : a.name count = b.name count') :
    ∃ c m mapped mapped', a = .addShmPiece c m mapped ∧ b = .addShmPiece c m mapped' ∧
      count (asInt c) ≡ count' (asInt c) [MOD 2 ^ 32] := by
  cases a with
  | initCtrlShm => cases ha
  | addShmPiece c m mapped =>
      cases b with
      | initCtrlShm => cases hb
      | addShmPiece c' m' mapped' =>
          obtain ⟨hc, hm, hcount⟩ := poolName_inj.mp h
          obtain rfl := asInt_inj.mp hc
          obtain rfl := asInt_inj.mp hm
          exact ⟨c, m, mapped, mapped', rfl, rfl, index_eq_iff.mp hcount⟩

/-- An anonymous call and a control call. Kind: L -/
lemma name_ne_of_isPool (ha : a.isPool = true) (hb : b.isPool = false) :
    a.name count ≠ b.name count' := by
  cases a with
  | initCtrlShm => cases ha
  | addShmPiece c m mapped =>
      cases b with
      | addShmPiece => cases hb
      | initCtrlShm k h mapped' => exact poolName_ne_ctrlName _ _ _ k h.toNat

/-- Two control calls that make one name. Kind: L -/
lemma owner_of_name_eq (ha : a.isPool = false) (hb : b.isPool = false)
    (h : a.name count = b.name count') : a.owner = b.owner := by
  cases a with
  | addShmPiece => cases ha
  | initCtrlShm k n mapped =>
      cases b with
      | addShmPiece => cases hb
      | initCtrlShm k' n' mapped' =>
          obtain ⟨rfl, hn⟩ := ctrlName_inj.mp h
          rw [Act.owner, Act.owner, UInt32.toNat_inj.mp hn]

end Names

/-- `sizeof(shm_name)` in the responses. Source: `types.h`. Kind: D -/
def shmNameSize : ℕ := 100

/-- An `int` is short. Kind: L -/
lemma natAbs_asInt_lt (v : UInt32) : (asInt v).natAbs < 10 ^ 10 := by
  have hlo : -2 ^ 31 ≤ asInt v := BitVec.le_toInt v.toBitVec
  have hhi : asInt v < 2 ^ 31 := BitVec.toInt_lt
  omega

/-- **Every name fits** with its terminating zero. Kind: P -/
lemma size_name_lt (a : Act) (count : ℤ → ℕ) : (a.name count).utf8ByteSize + 1 ≤ shmNameSize := by
  have hint : ∀ v : UInt32, (toString (asInt v)).utf8ByteSize ≤ 11 := fun v =>
    size_toString_int_le (by norm_num) (natAbs_asInt_lt v)
  cases a with
  | addShmPiece c m mapped =>
      have hc := hint c
      have hm := hint m
      have hk := hint (UInt32.ofNat (count (asInt c)))
      have hclient : "client-".utf8ByteSize = 7 := by decide
      have hsize : "-memsize-".utf8ByteSize = 9 := by decide
      have hindex : "-index-".utf8ByteSize = 7 := by decide
      simp only [Act.name, poolName, String.utf8ByteSize_append, hclient, hsize, hindex,
        shmNameSize]
      omega
  | initCtrlShm k h mapped =>
      have hh : (toString h.toNat).utf8ByteSize ≤ 10 :=
        size_toString_nat_le (by norm_num) (h.toNat_lt.trans (by norm_num))
      have hctrl : "ctrlshm-".utf8ByteSize = 8 := by decide
      have hqp : "qp".utf8ByteSize = 2 := by decide
      have hcq : "cq".utf8ByteSize = 2 := by decide
      have hsrq : "srq".utf8ByteSize = 3 := by decide
      cases k <;>
        simp only [Act.name, ctrlName, String.utf8ByteSize_append, hctrl, hqp, hcq, hsrq,
          shmNameSize] <;>
        omega

/-! ## Runs -/

/-- **What the names are for**: anonymous pieces have different names, none of which is that of a
control piece, control pieces of different queues have different names, and every name fits into the
response. Kind: D -/
structure NamesApart (made : List (Act × String)) : Prop where
  pool : made.Pairwise fun p q => p.1.isPool = true → q.1.isPool = true → p.2 ≠ q.2
  poolCtrl : ∀ p ∈ made, ∀ q ∈ made, p.1.isPool = true → q.1.isPool = false → p.2 ≠ q.2
  ctrl : ∀ p ∈ made, ∀ q ∈ made, p.1.isPool = false → q.1.isPool = false →
    p.1.owner ≠ q.1.owner → p.2 ≠ q.2
  fits : ∀ p ∈ made, p.2.utf8ByteSize + 1 ≤ shmNameSize

/-- No client makes two calls for one size with the same number of earlier calls modulo `2 ^ 32`.
Kind: D -/
def Renewed (as : List Act) : Prop :=
  ∀ (i j : ℕ) (c m : UInt32) (mapped mapped' : Bool), i < j →
    as[i]? = some (.addShmPiece c m mapped) → as[j]? = some (.addShmPiece c m mapped') →
    ¬ earlier as i (asInt c) ≡ earlier as j (asInt c) [MOD 2 ^ 32]

/-- What is recorded of a call. Kind: L -/
lemma Logged.getElem_made {as : List Act} {s : State} (h : Logged as s) {i : ℕ}
    (hi : i < s.made.length) :
    as[i]? = some s.made[i].1 ∧ s.made[i].2 = s.made[i].1.name (earlier as i) := by
  have hlt : i < as.length := h.length ▸ hi
  have hentry := h.made i as[i] (List.getElem?_eq_getElem hlt)
  rw [List.getElem?_eq_getElem hi, Option.some.injEq] at hentry
  rw [hentry]
  exact ⟨List.getElem?_eq_getElem hlt, rfl⟩

/-- **The names of a run**, from its calls. Kind: P -/
lemma Logged.namesApart_iff_renewed {as : List Act} {s : State} (h : Logged as s) :
    NamesApart s.made ↔ Renewed as := by
  have hname : ∀ p ∈ s.made, ∃ count, p.2 = p.1.name count := by
    intro p hp
    obtain ⟨i, hi, rfl⟩ := List.mem_iff_getElem.mp hp
    exact ⟨_, (h.getElem_made hi).2⟩
  constructor
  · intro hapart i j c m mapped mapped' hij hgeti hgetj hcount
    obtain ⟨hi, hieq⟩ := List.getElem?_eq_some_iff.mp (h.made i _ hgeti)
    obtain ⟨hj, hjeq⟩ := List.getElem?_eq_some_iff.mp (h.made j _ hgetj)
    have hne := List.pairwise_iff_getElem.mp hapart.pool i j hi hj hij
    rw [hieq, hjeq] at hne
    exact hne rfl rfl (poolName_inj.mpr ⟨rfl, rfl, index_eq_iff.mpr hcount⟩)
  · intro hrenewed
    refine ⟨List.pairwise_iff_getElem.mpr fun i j hi hj hij hpi hpj heq => ?_, ?_, ?_, ?_⟩
    · obtain ⟨hgeti, hnamei⟩ := h.getElem_made hi
      obtain ⟨hgetj, hnamej⟩ := h.getElem_made hj
      rw [hnamei, hnamej] at heq
      obtain ⟨c, m, mapped, mapped', hci, hcj, hcount⟩ := calls_of_name_eq hpi hpj heq
      rw [hci] at hgeti
      rw [hcj] at hgetj
      exact hrenewed i j c m mapped mapped' hij hgeti hgetj hcount
    · intro p hp q hq hpool hctrl
      obtain ⟨_, hpname⟩ := hname p hp
      obtain ⟨_, hqname⟩ := hname q hq
      rw [hpname, hqname]
      exact name_ne_of_isPool hpool hctrl
    · intro p hp q hq hctrl hctrl' howner heq
      obtain ⟨_, hpname⟩ := hname p hp
      obtain ⟨_, hqname⟩ := hname q hq
      rw [hpname, hqname] at heq
      exact howner (owner_of_name_eq hctrl hctrl' heq)
    · intro p hp
      obtain ⟨_, hpname⟩ := hname p hp
      rw [hpname]
      exact size_name_lt p.1 _

/-- The calls of a client that are earlier than one of its calls. Kind: L -/
lemma earlier_lt {as : List Act} {i j : ℕ} {c m : UInt32} {mapped : Bool} (hij : i < j)
    (hi : as[i]? = some (.addShmPiece c m mapped)) :
    earlier as i (asInt c) < earlier as j (asInt c) := by
  obtain ⟨hlt, hget⟩ := List.getElem?_eq_some_iff.mp hi
  have hone : earlier as (i + 1) (asInt c) = earlier as i (asInt c) + 1 := by
    rw [earlier, earlier, ← List.take_concat_get' as i hlt, List.countP_append, hget]
    simp [Act.isOf]
  have hle : earlier as (i + 1) (asInt c) ≤ earlier as j (asInt c) :=
    (List.take_sublist_take_left hij).countP_le
  omega

/-- **Up to `2 ^ 32` calls of every client** the names are as they should be. Kind: P -/
theorem renewed_of_countP_le {as : List Act} (h : ∀ c, as.countP (Act.isOf c) ≤ 2 ^ 32) :
    Renewed as := by
  intro i j c m mapped mapped' hij hi hj hcount
  have hlt := earlier_lt hij hi
  have hlast : earlier as j (asInt c) < as.countP (Act.isOf (asInt c)) := by
    have hnext := earlier_lt (List.getElem?_eq_some_iff.mp hj).1 hj
    rwa [earlier, earlier, List.take_length] at hnext
  have hle := h (asInt c)
  -- the difference is positive and below the modulus
  have hdvd : 2 ^ 32 ∣ earlier as j (asInt c) - earlier as i (asInt c) :=
    (Nat.modEq_iff_dvd' hlt.le).mp hcount
  have hge := Nat.le_of_dvd (by omega) hdvd
  omega

/-- **Generated names**: after every run of the two functions, from any router with empty vectors,
the names are as they should be exactly when no client has two calls for one size with a multiple of
`2 ^ 32` of its calls from one to the other. Kind: C -/
theorem namesApart_iff {s t : State} {as : List Act} (hstart : Start s)
    (hrun : exec step s as = some t) : NamesApart t.made ↔ Renewed as :=
  (logged_of_exec hstart hrun).namesApart_iff_renewed

/-- A router that has made no piece. Kind: D -/
def State.empty : State := ⟨Objects.State.empty, []⟩

/-- It is one to start with. Kind: L -/
lemma start_empty : Start State.empty := ⟨fun _ => rfl, rfl⟩

/-- Two clients, a piece that cannot be opened, and a QP and a CQ with the same handle. Kind: D -/
def sampleRun : List Act :=
  [.addShmPiece 1 4096 true, .addShmPiece 1 4096 false, .initCtrlShm .qp 1 true,
    .addShmPiece 11 4096 true, .initCtrlShm .cq 1 true, .addShmPiece 1 4096 true]

/-- Their names. Kind: C -/
theorem namesApart_sample :
    ∃ t, exec step State.empty sampleRun = some t ∧ NamesApart t.made :=
  ⟨_, rfl, (@namesApart_iff State.empty _ sampleRun start_empty rfl).mpr
    (renewed_of_countP_le fun _ => List.countP_le_length.trans (by decide))⟩

/-- Anonymous calls do not fail. Kind: L -/
lemma exists_exec_of_isPool (s : State) {as : List Act} (h : ∀ a ∈ as, a.isPool = true) :
    ∃ t, exec step s as = some t := by
  induction as generalizing s with
  | nil => exact ⟨s, rfl⟩
  | cons a as ih =>
      cases a with
      | initCtrlShm k n mapped => cases h (.initCtrlShm k n mapped) (by simp)
      | addShmPiece c m mapped => exact ih _ fun b hb => h b (by simp [hb])

/-- One client that asks for 4096 bytes `n + 2` times; all but the first and the last piece cannot
be opened. Kind: D -/
def manyPieces (n : ℕ) : List Act :=
  .addShmPiece 1 4096 true ::
    (List.replicate n (.addShmPiece 1 4096 false) ++ [.addShmPiece 1 4096 true])

/-- All of them are anonymous. Kind: L -/
lemma isPool_of_mem_manyPieces {n : ℕ} {a : Act} (h : a ∈ manyPieces n) : a.isPool = true := by
  simp only [manyPieces, List.mem_cons, List.mem_append, List.mem_replicate, List.not_mem_nil,
    or_false] at h
  rcases h with rfl | ⟨-, rfl⟩ | rfl
  · rfl
  · rfl
  · rfl

/-- The last call, and the calls before it. Kind: L -/
lemma manyPieces_last (n : ℕ) :
    (manyPieces n)[n + 1]? = some (.addShmPiece 1 4096 true) ∧
      earlier (manyPieces n) (n + 1) (asInt 1) = n + 1 := by
  constructor
  · rw [manyPieces, List.getElem?_cons_succ, List.getElem?_append_right (by simp)]
    simp
  · rw [earlier, manyPieces, List.take_succ_cons, List.take_left' List.length_replicate]
    simp [Act.isOf, List.countP_replicate]

/-- **An index comes back**: after `2 ^ 32` calls of a client the next piece has the name of the
first. Kind: C -/
theorem index_comes_back :
    ∃ t, exec step State.empty (manyPieces (2 ^ 32 - 1)) = some t ∧
      t.made[0]?.map Prod.snd = t.made[2 ^ 32]?.map Prod.snd ∧ ¬ NamesApart t.made := by
  obtain ⟨t, ht⟩ := exists_exec_of_isPool State.empty fun a =>
    isPool_of_mem_manyPieces (n := 2 ^ 32 - 1) (a := a)
  have hlogged := logged_of_exec start_empty ht
  obtain ⟨hlast, hcount⟩ := manyPieces_last (2 ^ 32 - 1)
  have hindex : 2 ^ 32 - 1 + 1 = 2 ^ 32 := by norm_num
  rw [hindex] at hlast hcount
  have hsame : earlier (manyPieces (2 ^ 32 - 1)) 0 (asInt 1) ≡
      earlier (manyPieces (2 ^ 32 - 1)) (2 ^ 32) (asInt 1) [MOD 2 ^ 32] := by
    rw [hcount]
    exact (Nat.modEq_zero_iff_dvd.mpr dvd_rfl).symm
  refine ⟨t, ht, ?_, fun hapart => ?_⟩
  · rw [hlogged.made 0 (.addShmPiece 1 4096 true) rfl, hlogged.made _ _ hlast, Option.map_some,
      Option.map_some, Option.some.injEq]
    exact poolName_inj.mpr ⟨rfl, rfl, index_eq_iff.mpr hsame⟩
  · have hrenewed := hlogged.namesApart_iff_renewed.mp hapart
    exact hrenewed 0 _ 1 4096 true true (by norm_num) rfl hlast hsame

end FreeFlow.Router.PieceNames
