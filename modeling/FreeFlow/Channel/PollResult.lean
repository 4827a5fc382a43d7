import FreeFlow.Channel.Exchange
import FreeFlow.Verbs.Messages

/-!
# What a poll through the channel returns

`ibv_poll_cq` in the router returns an `int`: a number of completions, or a negative number. On its
way to the application it becomes an `unsigned int`, a number of bytes of type `size_t`, an `int` in
the response header, a `size_t` again for a test of its remainder, and a number of completions. The
first of these conversions makes an error a large number. The client that then finds a remainder
leaves without the reset of the channel and without the tail lock given back.

* `PollReturn` — what `ibv_poll_cq` can return, with the completions it has stored.
* `serve` — the router's part, and `PollReturn.logged` the completions its logging loop looks at.
* `ibvCmdPollCq` — the client's call, with the locks it takes.
* `PollFaithful` — the result is the one of the HCA, the router looks at nothing beyond it, and the
  channel is given back.
* `pollFaithful_iff` — for every result: exactly when it is not negative and its completions fit in
  the response area.
* `along_pollFaithful_iff` — the same for a client that polls again and again.
* `poll_after_error` — after an error every later poll of the CQ returns -1 without asking the
  router, or, when the CQ is mapped to an SRQ, waits for the tail lock forever.

What the call does with the buffers of receives is the subject of `Client.Incoming`.

Source: `ffrouter.cpp` `CtrlChannelLoop` (CQ pass); `cmd.c` `ibv_cmd_poll_cq`; `freeflow.c`
`request_router_shm`; `types.h` `struct FfrResponseHeader`.
-/

namespace FreeFlow.Channel

open FreeFlow.Found FreeFlow.Verbs

variable {W : Type*}

/-! ## Conversions -/

/-- A conversion to `int`. Kind: D -/
def toInt32 (n : ℤ) : ℤ := (n + 2 ^ 31) % 2 ^ 32 - 2 ^ 31

/-- A conversion to `size_t`. Kind: D -/
def toSize (n : ℤ) : ℕ := (n % 2 ^ 64).toNat

/-- An `int` is not changed. Kind: L -/
lemma toInt32_of_range {n : ℤ} (hlo : -2 ^ 31 ≤ n) (hhi : n < 2 ^ 31) : toInt32 n = n := by
  unfold toInt32
  omega

/-- Conversions to `int` go by the residue. Kind: L -/
lemma toInt32_add_mul (n k : ℤ) : toInt32 (n + k * 2 ^ 32) = toInt32 n := by
  unfold toInt32
  omega

/-- A small number is not changed. Kind: L -/
lemma toSize_of_lt {n : ℕ} (h : n < 2 ^ 64) : toSize n = n := by
  unfold toSize
  omega

/-- A small negative number becomes one beyond the address space. Kind: L -/
lemma toSize_of_neg {n : ℤ} (hn : n < 0) (hlo : -2 ^ 31 ≤ n) : (toSize n : ℤ) = n + 2 ^ 64 := by
  unfold toSize
  omega

/-! ## The router -/

/-- What `ibv_poll_cq` returns, an `int`, and the completions it has stored: as many as it says.
Kind: D -/
structure PollReturn (W : Type*) where
  r : ℤ
  wcs : List W
  range : -2 ^ 31 ≤ r ∧ r < 2 ^ 31
  reported : wcs.length = r.toNat

/-- `unsigned int count = ibv_poll_cq(…)`. Source: `ffrouter.cpp` `CtrlChannelLoop`. Kind: D -/
def PollReturn.count (p : PollReturn W) : ℕ := (p.r % 2 ^ 32).toNat

/-- The indices of `wc_list` that the logging loop looks at, `for (i = 0; i < count; i++)`.
Source: `ffrouter.cpp` `CtrlChannelLoop`
Kind: D -/
def PollReturn.logged (p : PollReturn W) : List ℕ := List.range p.count

/-- The completions are inside the response area. Kind: D -/
def PollReturn.Stored (p : PollReturn W) : Prop :=
  sizeofResponseHeader + p.wcs.length * sizeofWc ≤ ctrlRspSize

instance (p : PollReturn W) : Decidable p.Stored := inferInstanceAs (Decidable (_ ≤ _))

/-- The channel of a CQ, with the array behind the response header, and the locks of a poll: the
channel's mutex and the tail lock of the SRQ that the CQ is mapped to. Kind: D -/
structure Line (W : Type*) where
  state : CtrlChannelState
  rspSize : ℤ
  wcList : ℕ → W
  mutex : Bool
  tailLock : Bool

/-- The router answers; `count <= 0` is `count == 0` here. It does not when the HCA has stored
completions behind the area. Source: `ffrouter.cpp` `CtrlChannelLoop`. Kind: D -/
def serve (c : Line W) (p : PollReturn W) : Option (Line W) :=
  if p.Stored then
    some { c with
      state := .rspDone
      rspSize := if p.count ≤ 0 then 0 else toInt32 (p.count * sizeofWc)
      wcList := fun i => p.wcs.getD i (c.wcList i) }
  else none

/-! ## The client -/

/-- The loop of the client: it hands the request over and waits, unless there is a response already.
Source: `freeflow.c` `request_router_shm`
Kind: D -/
def requestRouterShm (c : Line W) (p : PollReturn W) : Option (Line W) :=
  match c.state with
  | .idle | .reqDone => serve c p
  | .rspDone => some c

/-- How a call can go on: it returns, it waits for a lock that nobody gives back, or one of the two
processes has written or read outside its memory. Kind: D -/
inductive Outcome (W : Type*)
  | returns (ret : ℤ) (wc : List W) (c : Line W)
  | blocked
  | crashes

/-- The call after `request_router_shm`. Source: `cmd.c` `ibv_cmd_poll_cq`. Kind: D -/
def takeResponse (srq : Bool) (c : Line W) : Outcome W :=
  if toSize c.rspSize % sizeofWc ≠ 0 then
    -- neither the state nor the tail lock
    .returns (-1) [] { c with mutex := false }
  else if c.rspSize < 0 then
    -- `memcpy` takes the size for one beyond the address space
    .crashes
  else
    .returns (toInt32 (toSize c.rspSize / sizeofWc : ℕ))
      ((List.range (toSize c.rspSize / sizeofWc)).map c.wcList)
      { c with state := .idle, mutex := false, tailLock := c.tailLock && !srq }

/-- The call. `srq` says that `map_cq_to_srq` has an SRQ for the CQ.
Source: `cmd.c` `ibv_cmd_poll_cq`
Kind: D -/
def ibvCmdPollCq (srq : Bool) (c : Line W) (p : PollReturn W) : Outcome W :=
  if c.mutex || srq && c.tailLock then .blocked
  else
    match requestRouterShm { c with mutex := true, tailLock := c.tailLock || srq } p with
    | some c' => takeResponse srq c'
    | none => .crashes

/-- A client that polls; each step is a call that returns. Kind: D -/
def pollStep (srq : Bool) (c : Line W) (p : PollReturn W) : Option (Line W) :=
  match ibvCmdPollCq srq c p with
  | .returns _ _ c' => some c'
  | .blocked | .crashes => none

/-! ## A poll that comes through -/

/-- The channel is idle and nothing is held. Kind: D -/
def Line.Free (c : Line W) : Prop := c.state = .idle ∧ c.mutex = false ∧ c.tailLock = false

/-- The router looks at reported completions only; the call returns a negative number exactly when
the HCA did, and otherwise the HCA's number with the completions; and the channel is given back.
Kind: D -/
def PollFaithful (srq : Bool) (c : Line W) (p : PollReturn W) : Prop :=
  (∀ i ∈ p.logged, (i : ℤ) < p.r) ∧
    ∃ ret wc c', ibvCmdPollCq srq c p = .returns ret wc c' ∧
      (ret < 0 ↔ p.r < 0) ∧ (0 ≤ p.r → ret = p.r ∧ wc = p.wcs) ∧ c'.Free

/-- A result that is not negative is not changed by the first conversion. Kind: L -/
lemma count_of_nonneg {p : PollReturn W} (h : 0 ≤ p.r) : p.count = p.wcs.length := by
  have hrange := p.range
  rw [p.reported, PollReturn.count]
  omega

/-- A negative one becomes at least `2 ^ 31`. Kind: L -/
lemma count_of_neg {p : PollReturn W} (h : p.r < 0) : (p.count : ℤ) = p.r + 2 ^ 32 := by
  have hrange := p.range
  unfold PollReturn.count
  omega

/-- The router looks beyond the reported completions exactly after an error. Kind: L -/
lemma logged_lt_iff (p : PollReturn W) : (∀ i ∈ p.logged, (i : ℤ) < p.r) ↔ 0 ≤ p.r := by
  have hrange := p.range
  simp only [PollReturn.logged, List.mem_range]
  constructor
  · intro hall
    by_contra hneg
    have hcount := count_of_neg (by omega : p.r < 0)
    have := hall 0 (by omega)
    omega
  · intro hr i hi
    rw [count_of_nonneg hr, p.reported] at hi
    omega

/-- The completions in the array. Kind: L -/
lemma map_getD_range (old : ℕ → W) (wcs : List W) :
    (List.range wcs.length).map (fun i => wcs.getD i (old i)) = wcs := by
  refine List.ext_getElem (by simp) fun i h₁ h₂ => ?_
  simp only [List.getElem_map, List.getElem_range]
  exact List.getD_eq_getElem _ _ h₂

/-- The size in the response header, when the completions are in the area. Kind: L -/
lemma serve_of_stored {c : Line W} {p : PollReturn W} (hr : 0 ≤ p.r) (hp : p.Stored) :
    serve c p = some { c with
      state := .rspDone
      rspSize := (p.wcs.length * sizeofWc : ℕ)
      wcList := fun i => p.wcs.getD i (c.wcList i) } := by
  have hfit : 4 + p.wcs.length * 48 ≤ 1024 * 1024 := hp
  have hsize : (if p.wcs.length ≤ 0 then 0 else toInt32 (p.wcs.length * sizeofWc)) =
      ((p.wcs.length * sizeofWc : ℕ) : ℤ) := by
    split
    · simp_all
    · have hwc : sizeofWc = 48 := rfl
      rw [hwc, toInt32_of_range (by omega) (by omega)]
      omega
  rw [serve, if_pos hp, count_of_nonneg hr, hsize]

/-- A response with the size of a list of completions. Kind: L -/
lemma takeResponse_of_size {srq : Bool} {c : Line W} {n : ℕ} (hn : n < 2 ^ 31)
    (hsize : c.rspSize = (n * sizeofWc : ℕ)) :
    takeResponse srq c = .returns n ((List.range n).map c.wcList)
      { c with state := .idle, mutex := false, tailLock := c.tailLock && !srq } := by
  have hwc : sizeofWc = 48 := rfl
  have hbytes : toSize c.rspSize = n * 48 := by
    rw [hsize, hwc, toSize_of_lt (by omega)]
  have hnn : ¬ c.rspSize < 0 := by omega
  have hdiv : n * 48 / 48 = n := by omega
  have hmod : ¬ n * 48 % 48 ≠ 0 := by omega
  rw [takeResponse, hbytes, hwc, if_neg hmod, if_neg hnn, hdiv,
    toInt32_of_range (by omega) (by omega)]

/-- A call that finds the channel free asks the router. Kind: L -/
lemma ibvCmdPollCq_of_free {srq : Bool} {c : Line W} (hc : c.Free) (p : PollReturn W) :
    ibvCmdPollCq srq c p =
      match serve { c with mutex := true, tailLock := srq } p with
      | some c' => takeResponse srq c'
      | none => .crashes := by
  obtain ⟨hstate, hmutex, htail⟩ := hc
  simp [ibvCmdPollCq, requestRouterShm, hstate, hmutex, htail]

/-- A result in range comes through. Kind: L -/
lemma ibvCmdPollCq_of_stored {srq : Bool} {c : Line W} {p : PollReturn W} (hc : c.Free)
    (hr : 0 ≤ p.r) (hp : p.Stored) :
    ∃ c', ibvCmdPollCq srq c p = .returns p.r p.wcs c' ∧ c'.Free := by
  have hfit : 4 + p.wcs.length * 48 ≤ 1024 * 1024 := hp
  have hlen : (p.wcs.length : ℤ) = p.r := by rw [p.reported, Int.toNat_of_nonneg hr]
  rw [ibvCmdPollCq_of_free hc, serve_of_stored hr hp]
  dsimp only
  rw [takeResponse_of_size (by omega) rfl, map_getD_range, hlen]
  exact ⟨_, rfl, rfl, rfl, by simp⟩

/-- Such a poll is faithful. Kind: L -/
lemma pollFaithful_of_stored {srq : Bool} {c : Line W} {p : PollReturn W} (hc : c.Free)
    (hr : 0 ≤ p.r) (hp : p.Stored) : PollFaithful srq c p := by
  obtain ⟨c', hcall, hfree⟩ := @ibvCmdPollCq_of_stored _ srq _ _ hc hr hp
  exact ⟨(logged_lt_iff p).2 hr, p.r, p.wcs, c', hcall, Iff.rfl, fun _ => ⟨rfl, rfl⟩, hfree⟩

/-- A poll that comes through has a result in range. Kind: L -/
lemma stored_of_pollFaithful {srq : Bool} {c : Line W} {p : PollReturn W} (hc : c.Free)
    (h : PollFaithful srq c p) : 0 ≤ p.r ∧ p.Stored := by
  obtain ⟨hlogged, ret, wc, c', hret, -⟩ := h
  refine ⟨(logged_lt_iff p).1 hlogged, ?_⟩
  by_contra hp
  rw [ibvCmdPollCq_of_free hc, serve, if_neg hp] at hret
  cases hret

/-- The size of an error has a remainder: `2 ^ 64` is not a multiple of the size of a completion.
Kind: L -/
lemma toSize_mod_ne_zero {r : ℤ} (hr : r < 0) (hsmall : -2 ^ 31 ≤ r * sizeofWc) :
    toSize (r * sizeofWc) % sizeofWc ≠ 0 := by
  have hwc : sizeofWc = 48 := rfl
  rw [hwc] at hsmall ⊢
  have hbytes := toSize_of_neg (by omega : r * (48 : ℕ) < 0) hsmall
  omega

/-- The channel after an error: the response is in it, and the tail lock is held. Kind: D -/
def Line.afterError (c : Line W) (srq : Bool) (r : ℤ) : Line W :=
  { c with state := .rspDone, rspSize := r * sizeofWc, mutex := false, tailLock := srq }

/-- The size in the response header after an error. Kind: L -/
lemma serve_of_error {c : Line W} {p : PollReturn W} (hr : p.r < 0)
    (hsmall : -2 ^ 31 ≤ p.r * sizeofWc) :
    serve c p = some { c with state := .rspDone, rspSize := p.r * sizeofWc } := by
  have hcount := count_of_neg hr
  have hrange := p.range
  have hwcs : p.wcs = [] := by rw [← List.length_eq_zero_iff, p.reported, Int.toNat_of_nonpos hr.le]
  have hp : p.Stored := by
    rw [PollReturn.Stored, hwcs, List.length_nil]
    decide
  have hpos : ¬ p.count ≤ 0 := by omega
  have hneg : p.r * sizeofWc < 0 := Int.mul_neg_of_neg_of_pos hr (by decide)
  have hsize : toInt32 (p.count * sizeofWc) = p.r * sizeofWc := by
    rw [hcount, add_mul, mul_comm (2 ^ 32), toInt32_add_mul, toInt32_of_range hsmall (by omega)]
  rw [serve, if_pos hp, if_neg hpos, hsize, hwcs]
  rfl

/-- An error that the client finds by the remainder. Kind: L -/
lemma ibvCmdPollCq_of_error {srq : Bool} {c : Line W} {p : PollReturn W} (hc : c.Free)
    (hr : p.r < 0) (hsmall : -2 ^ 31 ≤ p.r * sizeofWc) :
    ibvCmdPollCq srq c p = .returns (-1) [] (c.afterError srq p.r) := by
  rw [ibvCmdPollCq_of_free hc, serve_of_error hr hsmall]
  dsimp only
  rw [takeResponse, if_pos (toSize_mod_ne_zero hr hsmall), Line.afterError]

/-- **The result of a poll.** On a free channel and for every result of `ibv_poll_cq`, the poll is
right exactly when the result is not negative and its completions fit in the response area.
Kind: P -/
theorem pollFaithful_iff {c : Line W} (hc : c.Free) (srq : Bool) (p : PollReturn W) :
    PollFaithful srq c p ↔ 0 ≤ p.r ∧ p.Stored :=
  ⟨stored_of_pollFaithful hc, fun h => pollFaithful_of_stored hc h.1 h.2⟩

/-- A client on a fresh channel of a CQ without completions. Kind: D -/
def sampleLine : Line ℕ :=
  { state := .idle, rspSize := 0, wcList := fun _ => 0, mutex := false, tailLock := false }

/-- Two completions. Kind: D -/
def twoPolled : PollReturn ℕ := { r := 2, wcs := [7, 9], range := by decide, reported := rfl }

/-- The HCA reports an error. Kind: D -/
def errorPolled : PollReturn ℕ := { r := -1, wcs := [], range := by decide, reported := rfl }

/-- Two completions arrive. Kind: C -/
theorem pollFaithful_two : sampleLine.Free ∧ PollFaithful true sampleLine twoPolled :=
  ⟨⟨rfl, rfl, rfl⟩, (pollFaithful_iff ⟨rfl, rfl, rfl⟩ true twoPolled).2 ⟨by decide, by decide⟩⟩

/-- **An error.** The router goes through more than four billion completions, of which none was
reported; should it come to the end of that, the client returns with the response still in the
channel and the tail lock taken. Kind: C -/
theorem pollFaithful_fails_error :
    ¬ PollFaithful true sampleLine errorPolled ∧ errorPolled.logged.length = 4294967295 ∧
      ibvCmdPollCq true sampleLine errorPolled =
        .returns (-1) [] (sampleLine.afterError true (-1)) := by
  refine ⟨fun h => ?_, ?_, ibvCmdPollCq_of_error ⟨rfl, rfl, rfl⟩ (by decide) (by decide)⟩
  · exact absurd ((logged_lt_iff errorPolled).1 h.1) (by decide)
  · rw [PollReturn.logged, List.length_range]
    rfl

/-! ## Polls in a row -/

/-- After a faithful poll the channel is free again. Kind: L -/
lemma PollFaithful.pollStep {srq : Bool} {c : Line W} {p : PollReturn W}
    (h : PollFaithful srq c p) : ∃ c', pollStep srq c p = some c' ∧ c'.Free := by
  obtain ⟨-, ret, wc, c', hcall, -, -, hfree⟩ := h
  exact ⟨c', by rw [Channel.pollStep, hcall], hfree⟩

/-- The polls of a client, from a free channel on, all come through exactly when every result is in
range. Kind: P -/
theorem along_pollFaithful_iff {c : Line W} (hc : c.Free) (srq : Bool) (ps : List (PollReturn W)) :
    Along (pollStep srq) (PollFaithful srq) c ps ↔ ∀ p ∈ ps, 0 ≤ p.r ∧ p.Stored := by
  induction ps generalizing c with
  | nil => simp [Along]
  | cons p ps ih =>
      rw [List.forall_mem_cons, Along]
      constructor
      · rintro ⟨hright, hrest⟩
        obtain ⟨c', hstep, hfree⟩ := hright.pollStep
        exact ⟨stored_of_pollFaithful hc hright, (ih hfree).1 (hrest c' hstep)⟩
      · rintro ⟨hp, hps⟩
        have hright := @pollFaithful_of_stored _ srq _ _ hc hp.1 hp.2
        obtain ⟨c', hstep, hfree⟩ := hright.pollStep
        exact ⟨hright, fun c'' hstep' => by
          rw [hstep, Option.some.injEq] at hstep'
          exact hstep' ▸ (ih hfree).2 hps⟩

/-- A response with a remainder has stayed in the channel. Kind: D -/
def Line.Stuck (c : Line W) : Prop :=
  c.state = .rspDone ∧ c.mutex = false ∧ toSize c.rspSize % sizeofWc ≠ 0

/-- An error leaves the channel so. Kind: L -/
lemma stuck_afterError {srq : Bool} {c : Line W} {r : ℤ} (hr : r < 0)
    (hsmall : -2 ^ 31 ≤ r * sizeofWc) : (c.afterError srq r).Stuck :=
  ⟨rfl, rfl, toSize_mod_ne_zero hr hsmall⟩

/-- The next poll takes that response for its own. Kind: L -/
lemma ibvCmdPollCq_of_stuck {c : Line W} (hc : c.Stuck) (p : PollReturn W) :
    ibvCmdPollCq false c p = .returns (-1) [] c := by
  obtain ⟨state, rspSize, wcList, mutex, tailLock⟩ := c
  obtain ⟨rfl, rfl, hrem⟩ := hc
  simp [ibvCmdPollCq, requestRouterShm, takeResponse, hrem]

/-- So does every later one. Kind: L -/
lemma exec_of_stuck {c : Line W} (hc : c.Stuck) (ps : List (PollReturn W)) :
    exec (pollStep false) c ps = some c := by
  induction ps with
  | nil => rfl
  | cons p ps ih =>
      have hstep : pollStep false c p = some c := by rw [pollStep, ibvCmdPollCq_of_stuck hc]
      rw [exec, hstep, Option.bind_some, ih]

/-- **After an error.** A CQ that is mapped to no SRQ answers -1 from then on, whatever the HCA has
to report. One that is mapped to an SRQ is never polled again: the next call waits for the tail
lock. Kind: P -/
theorem poll_after_error {c : Line W} {p : PollReturn W} (hc : c.Free) (hr : p.r < 0)
    (hsmall : -2 ^ 31 ≤ p.r * sizeofWc) (ps : List (PollReturn W)) (q : PollReturn W) :
    (∃ c', exec (pollStep false) c (p :: ps) = some c' ∧
        ibvCmdPollCq false c' q = .returns (-1) [] c') ∧
      ∃ c', exec (pollStep true) c [p] = some c' ∧ ibvCmdPollCq true c' q = .blocked := by
  constructor
  · have hstep : pollStep false c p = some (c.afterError false p.r) := by
      rw [pollStep, ibvCmdPollCq_of_error hc hr hsmall]
    have hstuck : (c.afterError false p.r).Stuck := stuck_afterError hr hsmall
    exact ⟨_, by rw [exec, hstep, Option.bind_some, exec_of_stuck hstuck],
      ibvCmdPollCq_of_stuck hstuck q⟩
  · have hstep : pollStep true c p = some (c.afterError true p.r) := by
      rw [pollStep, ibvCmdPollCq_of_error hc hr hsmall]
    exact ⟨_, by rw [exec, hstep, Option.bind_some, exec], rfl⟩

end FreeFlow.Channel
