import FreeFlow.Router.ShmNames

/-!
# The size of a memory region on the wire

The application registers `length` bytes, a `size_t`. The request carries the length in 32 bits, and
the router passes it on as an `int`: to `addShmPiece`, to `ftruncate` and `mmap` of the piece, and
to `ibv_reg_mr`. A request with a name that the router knows gets the piece of the first request
with that name, and the size in it.

* `Call`, `Call.request` — the two client functions.
* `firstSize` — the size of the first request of a run with a name.
* `entry_of_run` — after every run, `shm_map` has a name exactly when a request of the run had it,
  and its piece has the size of the first such request.
* `SizeKept` — the piece and the region have `length` bytes.
* `sizeKept_iff` — for every run and every answered registration: below `2 ^ 31`, and for a name of
  an earlier request the length of the first such request, exactly.
* `sizeKept_fails` — four gigabytes and a page are registered as a page.

Source: `cmd.c` `ibv_cmd_reg_mr`, `ibv_cmd_reg_mr_ff`; `types.h` `IBV_REG_MR_REQ`; `ffrouter.cpp`
`addShmPiece`, `HandleRequest` (`IBV_REG_MR`); `shared_memory.cpp`.
-/

namespace FreeFlow.Wire.MrSize

open FreeFlow.Found FreeFlow.Verbs FreeFlow.Router.ShmNames

/-! ## The client -/

/-- A registration: `ibv_cmd_reg_mr`, or `ibv_cmd_reg_mr_ff` with a name or a null pointer.
Source: `cmd.c`
Kind: D -/
inductive Call
  | regMr (length : UInt64)
  | regMrFf (length : UInt64) (shmName : Option String)
  deriving DecidableEq, Repr

/-- The length that the application registers. Kind: D -/
def Call.length : Call → ℕ
  | .regMr length | .regMrFf length _ => length.toNat

/-- The name in the request; the empty one asks for an anonymous piece. Kind: D -/
def Call.shmName : Call → String
  | .regMr _ => ""
  | .regMrFf _ shmName => shmName.getD ""

/-- The request: `req_body.mem_size = length` keeps the low 32 bits. Kind: D -/
def Call.request (clientId : ℤ) : Call → RegMr
  | .regMr length => { clientId := clientId, shmName := "", memSize := length.toUInt32 }
  | .regMrFf length shmName =>
      { clientId := clientId, shmName := shmName.getD "", memSize := length.toUInt32 }

/-- **The size is kept**: the router's piece and the region of the HCA both have `length` bytes.
Kind: D -/
def SizeKept (s : State) (req : RegMr) (out : Outcome) (length : ℕ) : Prop :=
  ∃ sp reg, (s.addShmPiece req out.mapped).2 = some sp ∧ (s.regMr req out).2 = some reg ∧
    sp.size = length ∧ reg.size = length

/-! ## The first request with a name -/

/-- The size that a request asks for under a name. Kind: D -/
def sizeUnder (name : String) : Act → Option ℤ
  | .regMr req _ => if req.shmName = name then some (asInt req.memSize) else none
  | _ => none

/-- The size in the first request of a run with the name. Kind: D -/
def firstSize (as : List Act) (name : String) : Option ℤ := as.findSome? (sizeUnder name)

/-- One more request. Kind: L -/
lemma firstSize_append (as : List Act) (a : Act) (name : String) :
    firstSize (as ++ [a]) name = (firstSize as name).or (sizeUnder name a) := by
  simp [firstSize]

/-- Every size is an `int`. Kind: L -/
lemma firstSize_lt {as : List Act} {name : String} {size : ℤ} (h : firstSize as name = some size) :
    size < 2 ^ 31 := by
  obtain ⟨a, -, ha⟩ := List.exists_of_findSome?_eq_some h
  cases a with
  | regMr req out =>
    simp only [sizeUnder] at ha
    split at ha
    case isTrue =>
      cases ha
      exact BitVec.toInt_lt
    case isFalse => cases ha
  | deregMr h => cases ha
  | shmOpen name => cases ha
  | shmUnlink name => cases ha

/-- What a request does to `shm_map`. Kind: L -/
lemma shmMap_addShmPiece (s : State) (req : RegMr) (mapped : Bool) :
    (s.addShmPiece req mapped).1.shmMap =
      if req.shmName ≠ "" ∧ s.shmMap req.shmName = none then
        Function.update s.shmMap req.shmName
          (some (s.openPiece req.shmName (asInt req.memSize) mapped).2)
      else s.shmMap := by
  unfold State.addShmPiece
  by_cases hanon : req.shmName = ""
  · rw [if_pos hanon, if_neg (fun h => h.1 hanon)]
    exact shmOpen_shmMap _ _
  · rw [if_neg hanon]
    cases hmap : s.shmMap req.shmName with
    | none => rw [addNamedPiece_of_none hmap, if_pos ⟨hanon, rfl⟩]
    | some sp => rw [addNamedPiece_of_some hmap, if_neg (by simp)]

/-- A step and the entry of a name: it stays, unless the step is the first request with the name;
then it has the size of the request, if it could be opened. Kind: L -/
lemma entry_of_step {s s' : State} {a : Act} (h : step s a = some s') {name : String}
    (hname : name ≠ "") :
    (s'.shmMap name = s.shmMap name ∧ (sizeUnder name a = none ∨ s.shmMap name ≠ none)) ∨
      ∃ size sp, sizeUnder name a = some size ∧ s.shmMap name = none ∧
        s'.shmMap name = some sp ∧ ∀ p, sp = some p → p.size = size := by
  cases a with
  | regMr req out =>
    rw [step, Option.some.injEq] at h
    obtain ⟨shmr, hshmr⟩ := regMr_fst s req out
    have hmap : s'.shmMap = (s.addShmPiece req out.mapped).1.shmMap := by rw [← h, hshmr]
    have hadd := hmap.trans (shmMap_addShmPiece s req out.mapped)
    by_cases heq : req.shmName = name
    · subst heq
      cases hold : s.shmMap req.shmName with
      | none =>
        rw [if_pos ⟨hname, hold⟩] at hadd
        have hentry : s'.shmMap req.shmName =
            some (s.openPiece req.shmName (asInt req.memSize) out.mapped).2 := by
          rw [hadd, Function.update_self]
        exact .inr ⟨asInt req.memSize, _, if_pos rfl, rfl, hentry,
          fun p hp => (openPiece_eq_some hp).2.2.1⟩
      | some sp =>
        rw [if_neg (by simp [hold])] at hadd
        exact .inl ⟨by rw [hadd, hold], .inr (by simp)⟩
    · refine .inl ⟨?_, .inl (if_neg heq)⟩
      rw [hadd]
      split
      case isTrue => exact Function.update_of_ne (Ne.symm heq) ..
      case isFalse => rfl
  | deregMr h' =>
    rw [step, State.deregMr, Option.map_eq_some_iff] at h
    obtain ⟨sp, -, rfl⟩ := h
    exact .inl ⟨rfl, .inl rfl⟩
  | shmOpen name' =>
    rw [step, Option.some.injEq] at h
    exact .inl ⟨by rw [← h, shmOpen_shmMap], .inl rfl⟩
  | shmUnlink name' =>
    rw [step, Option.some.injEq] at h
    exact .inl ⟨by rw [← h]; rfl, .inl rfl⟩

/-- **The entries after a run**: a name is in `shm_map` exactly when a request of the run had it,
and its piece has the size of the first such request. Kind: P -/
theorem entry_of_run {s₀ s : State} (h₀ : Start s₀) {as : List Act}
    (hrun : exec step s₀ as = some s) {name : String} (hname : name ≠ "") :
    (s.shmMap name = none ↔ firstSize as name = none) ∧
      ∀ p, s.shmMap name = some (some p) → firstSize as name = some p.size := by
  induction as using List.reverseRecOn generalizing s with
  | nil =>
    cases hrun
    rw [h₀.shmMap name]
    exact ⟨iff_of_true rfl rfl, fun p hp => absurd hp (by simp)⟩
  | append_singleton as a ih =>
    obtain ⟨t, ht, hs⟩ := (exec_append_singleton_eq_some step).mp hrun
    obtain ⟨hnone, hpiece⟩ := ih ht
    rw [firstSize_append]
    obtain ⟨hsame, hold⟩ | ⟨size, sp, hsize, hfresh, hadded, hsp⟩ := entry_of_step hs hname
    · rw [hsame]
      cases hfirst : firstSize as name with
      | some size =>
        rw [hfirst] at hnone hpiece
        exact ⟨hnone, hpiece⟩
      | none =>
        have hempty : t.shmMap name = none := hnone.mpr hfirst
        rw [Option.none_or, hold.resolve_right fun h => h hempty, hempty]
        exact ⟨iff_of_true rfl rfl, fun p hp => absurd hp (by simp)⟩
    · rw [hnone.mp hfresh, Option.none_or, hsize, hadded]
      refine ⟨by simp, fun p hp => ?_⟩
      rw [hsp p (Option.some.inj hp)]

/-! ## Registrations -/

/-- The low 32 bits of a length are the length, as an `int`, exactly when it is small. Kind: L -/
lemma asInt_toUInt32_eq_iff (length : UInt64) :
    asInt length.toUInt32 = length.toNat ↔ length.toNat < 2 ^ 31 := by
  constructor
  · intro h
    have hlt : asInt length.toUInt32 < 2 ^ 31 := BitVec.toInt_lt
    omega
  · intro h
    have htoNat : length.toUInt32.toNat = length.toNat := by
      rw [UInt64.toNat_toUInt32]
      exact Nat.mod_eq_of_lt (by omega)
    rw [asInt_eq_toNat (by omega), htoNat]

/-- The request of a call. Kind: L -/
lemma Call.request_eq (call : Call) (clientId : ℤ) :
    ∃ length : UInt64, call.length = length.toNat ∧
      call.request clientId =
        { clientId := clientId, shmName := call.shmName, memSize := length.toUInt32 } := by
  cases call with
  | regMr length => exact ⟨length, rfl, rfl⟩
  | regMrFf length shmName => exact ⟨length, rfl, rfl⟩

/-- The size of the piece that a request gets: that of the first request with its name, or its own.
Kind: L -/
lemma size_addShmPiece {s₀ s : State} (h₀ : Start s₀) {as : List Act}
    (hrun : exec step s₀ as = some s) {req : RegMr} {mapped : Bool} {sp : ShmPiece}
    (h : (s.addShmPiece req mapped).2 = some sp) :
    sp.size = if req.shmName = "" then asInt req.memSize
      else (firstSize as req.shmName).getD (asInt req.memSize) := by
  unfold State.addShmPiece at h
  by_cases hanon : req.shmName = ""
  · rw [if_pos hanon] at h ⊢
    exact (openPiece_eq_some h).2.2.1
  · rw [if_neg hanon] at h ⊢
    obtain ⟨hnone, hpiece⟩ := entry_of_run h₀ hrun hanon
    cases hmap : s.shmMap req.shmName with
    | none =>
      rw [addNamedPiece_of_none hmap] at h
      rw [hnone.mp hmap]
      exact (openPiece_eq_some h).2.2.1
    | some sp' =>
      rw [addNamedPiece_of_some hmap] at h
      rw [hpiece sp (hmap.trans (congrArg some h))]
      rfl

/-- **Which sizes survive the wire.** After every run of the router and for every registration that
is then answered with success, piece and region have exactly `length` bytes if and only if `length`
is below `2 ^ 31` and the request is anonymous, or has a new name, or asks for as much as the first
request with that name did. Kind: P -/
theorem sizeKept_iff {s₀ s : State} (h₀ : Start s₀) {as : List Act}
    (hrun : exec step s₀ as = some s) (clientId : ℤ) (call : Call) {out : Outcome}
    {reg : Registered} (hreg : (s.regMr (call.request clientId) out).2 = some reg) :
    SizeKept s (call.request clientId) out call.length ↔
      call.length < 2 ^ 31 ∧ (call.shmName ≠ "" →
        ∀ size, firstSize as call.shmName = some size → size = call.length) := by
  obtain ⟨length, hlength, hreq⟩ := call.request_eq clientId
  have hpair : s.regMr (call.request clientId) out =
      ((s.regMr (call.request clientId) out).1, some reg) := Prod.ext rfl hreg
  obtain ⟨-, hpiece⟩ := regMr_eq_some hpair
  have hkept : SizeKept s (call.request clientId) out call.length ↔ reg.size = call.length := by
    constructor
    · rintro ⟨sp, reg', -, hreg', -, h⟩
      cases hreg.symm.trans hreg'
      exact h
    · exact fun h => ⟨_, reg, hpiece, hreg, h, h⟩
  have hsize : reg.size = if call.shmName = "" then asInt length.toUInt32
      else (firstSize as call.shmName).getD (asInt length.toUInt32) := by
    have hsp := size_addShmPiece h₀ hrun hpiece
    rw [hreq] at hsp
    exact hsp
  rw [hkept, hsize, hlength]
  by_cases hanon : call.shmName = ""
  · rw [if_pos hanon, asInt_toUInt32_eq_iff]
    exact ⟨fun h => ⟨h, fun hne => absurd hanon hne⟩, fun h => h.1⟩
  · rw [if_neg hanon]
    cases hfirst : firstSize as call.shmName with
    | none =>
      rw [Option.getD_none, asInt_toUInt32_eq_iff]
      exact ⟨fun h => ⟨h, fun _ size hsome => absurd hsome (by simp)⟩, fun h => h.1⟩
    | some size =>
      have hlt := firstSize_lt hfirst
      rw [Option.getD_some]
      constructor
      · intro h
        refine ⟨by omega, fun _ size' hsome => ?_⟩
        rw [← Option.some.inj hsome, h]
      · exact fun h => h.2 hanon size rfl

/-- A page under a name, and the same page again. Kind: C -/
theorem sizeKept_named :
    SizeKept sampleRegistered ((Call.regMrFf 4096 (some "buf")).request 7) (sampleOk 4) 4096 := by
  have hrun : exec step sampleStart [.regMr sampleReq (sampleOk 3)] = some sampleRegistered := rfl
  have hreg : (sampleRegistered.regMr ((Call.regMrFf 4096 (some "buf")).request 7)
      (sampleOk 4)).2 = some ⟨4, "buf", 0, 4096⟩ := by decide +kernel
  have hfirst : firstSize [.regMr sampleReq (sampleOk 3)] "buf" = some 4096 := by decide +kernel
  refine (sizeKept_iff start_sampleStart hrun 7 (.regMrFf 4096 (some "buf")) hreg).mpr
    ⟨by decide, fun _ size hsize => ?_⟩
  exact Option.some.inj (hsize.symm.trans hfirst)

/-- The application registers four gigabytes and a page, and the router registers the page. And two
pages under the name of a region of one page are one page. Kind: C -/
theorem sizeKept_fails :
    (sampleStart.regMr ((Call.regMr 4294971392).request 7) (sampleOk 3)).2 =
        some ⟨3, "client-7-memsize-4096-index-0", 0, 4096⟩ ∧
      ¬ SizeKept sampleStart ((Call.regMr 4294971392).request 7) (sampleOk 3) 4294971392 ∧
      (sampleRegistered.regMr ((Call.regMrFf 8192 (some "buf")).request 7) (sampleOk 4)).2 =
        some ⟨4, "buf", 0, 4096⟩ ∧
      ¬ SizeKept sampleRegistered ((Call.regMrFf 8192 (some "buf")).request 7) (sampleOk 4)
        8192 := by
  have hlong : (sampleStart.regMr ((Call.regMr 4294971392).request 7) (sampleOk 3)).2 =
      some ⟨3, "client-7-memsize-4096-index-0", 0, 4096⟩ := by decide +kernel
  have hnamed : (sampleRegistered.regMr ((Call.regMrFf 8192 (some "buf")).request 7)
      (sampleOk 4)).2 = some ⟨4, "buf", 0, 4096⟩ := by decide +kernel
  refine ⟨hlong, ?_, hnamed, ?_⟩
  · rintro ⟨sp, reg, -, hreg, -, hsize⟩
    cases hlong.symm.trans hreg
    exact absurd hsize (by decide)
  · rintro ⟨sp, reg, -, hreg, -, hsize⟩
    cases hnamed.symm.trans hreg
    exact absurd hsize (by decide)

end FreeFlow.Wire.MrSize
