import FreeFlow.Router.Origins
import FreeFlow.Wire.PostSend

/-!
# Remote addresses that reach the HCA

What the channel path hands over for a list of the client, with no assumption on its rkeys: `handed`
is the client's list with, for every request, the address word of its origin. From it follows when a
container's own address reaches the HCA.

* `channelPostSend_handed` — the channel path hands over `handed`, for every table and every list.
* `remote_guarded_iff` — **no untranslated remote access**: every request for remote memory is
  translated, or kept back and reported, exactly when the list has no atomics, no such request is on
  a UD QP, and all rkeys are found with at most five misses in all. The router keeps no request
  back: one whose rkey is not found goes to the HCA with the client's address, and the answer to the
  client says that it was posted.

Source: `ffrouter.cpp` `CtrlChannelLoop` (`IBV_POST_SEND`); `verbs.h` `enum ibv_wr_opcode`.
-/

namespace FreeFlow.Wire

open FreeFlow.Found FreeFlow.Verbs FreeFlow.Client FreeFlow.Router

/-! ## What is handed over -/

section Handed

variable (c : Lib) (R : Tables) (tbl : ℕ → UInt32 → Option Router.MrShm) (q : Router.Qp)
  (ws : List SendWr) (m : Mem)

/-- The origins of the address words of a list that lies in the request area `m`. Kind: D -/
def originsIn : List Origin :=
  origins tbl (decide (q.qpType = .ud)) (ws.map (wireView c.mapLkeyToMrShm))
    (fun _ => m.u32 (ahOff ws.length (sgeTotal ws))) (5, 0)

/-- The list the channel path hands over. Kind: D -/
def handed : List Posted :=
  List.zipWith (carry R) (originsIn c tbl q ws m) (ws.map (wireView c.mapLkeyToMrShm))

/-- There is one origin for each request. Kind: L -/
@[simp] lemma length_originsIn : (originsIn c tbl q ws m).length = ws.length := by
  simp [originsIn]

/-- Every request is handed over. Kind: L -/
@[simp] lemma length_handed : (handed c R tbl q ws m).length = ws.length := by
  simp [handed]

/-- The elements are all there. Kind: L -/
lemma elements_handed : elements (handed c R tbl q ws m) = sgeTotal ws := by
  have hlens : (handed c R tbl q ws m).map (fun o => o.sgList.length) =
      ws.map fun w => w.sgList.length := by
    refine List.ext_getElem (by simp) fun k hk hk' => ?_
    simp [handed, carry, wireView]
  rw [elements, hlens, sgeTotal]

variable {c R q ws m} {qp : Client.Qp} (stale : Option Router.Qp) (B : Mapping ctrlReqSize)
  (harea : RequestArea c qp ws m) (hq : Registered R qp.handle q)

include harea hq

/-- **The channel path on the request area the encoder leaves**: it always calls `ibv_post_send`,
and memory then holds the list `handed`, linked from `wr` on. Kind: L -/
lemma channelPostSend_handed :
    ∃ m', channelPostSend R tbl stale B m = some ⟨q, B.ptr wrOff, m'⟩ ∧
      Linked B m' (handed c R tbl q ws m) wrOff (sgeOff ws.length) := by
  have hspec := decodePostSend_linked (channelDecoder R tbl) B sizeofRequestHeader q (5, 0) () m
    (ws.map (wireView c.mapLkeyToMrShm)) (by rw [List.length_map]; exact harea.wrCount)
    (by rw [elements_wireView]; exact harea.sgeCount)
    (by rw [List.length_map]; exact arrays_of_encoded harea.encoded)
  rw [decodeList_channel_carry] at hspec
  obtain ⟨m', hcall, -, -, hlinked⟩ := hspec
  refine ⟨m', ?_, ?_⟩
  · have hhandle : m.u32 (sizeofRequestHeader + 16) = qp.handle := harea.qpHandle
    rw [channelPostSend, hhandle, hq.resolveQp, hcall]
    rfl
  · -- the cursor `ah` does not move, so every request reads the first word
    have hstride : (channelDecoder R tbl).ahStride = 0 := rfl
    rw [List.length_map, elements_wireView] at hlinked
    simp only [hstride, Nat.zero_mul, Nat.add_zero] at hlinked
    exact hlinked

omit harea hq in
/-- Reading back a list that is linked from the first request on. Kind: L -/
lemma posted_of_linked_handed {B : Mapping ctrlReqSize} {m' : Mem}
    (hlinked : Linked B m' (handed c R tbl q ws m) wrOff (sgeOff ws.length)) (hne : ws ≠ [])
    (hfit : encodedSize qp ws ≤ ctrlReqSize) (fuel : ℕ) (hfuel : ws.length ≤ fuel) :
    posted B m' fuel (B.ptr wrOff) = some (handed c R tbl q ws m) := by
  rw [encodedSize, ahOff, sgeOff] at hfit
  have hread := posted_of_linked B hlinked (by rw [length_handed]; omega)
    (by rw [← elements, elements_handed, sgeOff]; omega) fuel (by rwa [length_handed])
  have hout : handed c R tbl q ws m ≠ [] := by
    rw [← List.length_pos_iff, length_handed]
    exact List.length_pos_iff.mpr hne
  rwa [if_neg hout] at hread

/-- Following `next` from the first request gives that list. Kind: L -/
lemma posted_handed (hne : ws ≠ []) (hfit : encodedSize qp ws ≤ ctrlReqSize) :
    ∃ m', channelPostSend R tbl stale B m = some ⟨q, B.ptr wrOff, m'⟩ ∧
      ∀ fuel, ws.length ≤ fuel →
        posted B m' fuel (B.ptr wrOff) = some (handed c R tbl q ws m) := by
  obtain ⟨m', hcall, hlinked⟩ := channelPostSend_handed tbl stale B harea hq
  exact ⟨m', hcall, posted_of_linked_handed tbl hlinked hne hfit⟩

end Handed

/-! ## Remote access -/

/-- The opcodes that address remote memory: `IBV_WR_RDMA_WRITE`, `IBV_WR_RDMA_WRITE_WITH_IMM`,
`IBV_WR_RDMA_READ`, `IBV_WR_ATOMIC_CMP_AND_SWP` and `IBV_WR_ATOMIC_FETCH_AND_ADD`.
Source: `verbs.h` `enum ibv_wr_opcode`
Kind: D -/
def remoteAccess (opcode : UInt32) : Bool :=
  oneSided opcode ∨ opcode = WrOpcode.atomicCmpAndSwp.code ∨
    opcode = WrOpcode.atomicFetchAndAdd.code

/-- The rkey of a request for remote memory: `wr.rdma.rkey`, or `wr.atomic.rkey`.
Source: `verbs.h` `struct ibv_send_wr`
Kind: D -/
def rkeyOf (w : SendWr) : UInt32 :=
  if oneSided w.fields.opcode then w.fields.rkey else w.block.u32 64

/-- No untranslated remote access: every request for remote memory that is handed over has the
address that an entry of its rkey gives, and one whose rkey stays unknown is not handed over and the
response says so. Kind: D -/
structure Guarded (tbl : ℕ → UInt32 → Option Router.MrShm) (ws : List SendWr) (gs : List Origin)
    (out : List Posted) (rsp : PostRsp) : Prop where
  translated : ∀ (k : ℕ) (w : SendWr) (g : Origin) (o : Posted), ws[k]? = some w →
    gs[k]? = some g → out[k]? = some o → remoteAccess w.fields.opcode →
      ∃ t e, tbl t (rkeyOf w) = some e ∧ g = .entry e ∧
        o.fields.remoteAddr = e.shmPtr + w.fields.remoteAddr - e.mrPtr
  refused : ∀ (k : ℕ) (w : SendWr), ws[k]? = some w → remoteAccess w.fields.opcode →
    (∀ t, tbl t (rkeyOf w) = none) → out.length ≤ k ∧ rsp.retErrno ≠ 0

/-- Every request for remote memory is one that the router looks up, on a QP that is not UD, and the
rkeys are found in order with at most five misses in all. Kind: D -/
structure Resolvable (tbl : ℕ → UInt32 → Option Router.MrShm) (q : Router.Qp) (ws : List SendWr) :
    Prop where
  lookedUp : ∀ w ∈ ws, remoteAccess w.fields.opcode → q.qpType ≠ .ud ∧ oneSided w.fields.opcode
  found : FoundWithin tbl ((ws.filter fun w => oneSided w.fields.opcode).map
    fun w => w.fields.rkey) 5 0

section Guarded

variable {c : Lib} {R : Tables} {tbl : ℕ → UInt32 → Option Router.MrShm} {q : Router.Qp}
  {ws : List SendWr} {m : Mem}

/-- The keys looked up for a list are those of its one-sided requests. Kind: L -/
lemma oneSidedKeys_wireView (map : UInt32 → Option Client.MrShm) (ws : List SendWr) :
    oneSidedKeys (ws.map (wireView map)) =
      (ws.filter fun w => oneSided w.fields.opcode).map fun w => w.fields.rkey := by
  simp [oneSidedKeys, List.filter_map, wireView, Function.comp_def]

/-- An origin and its request, in the list of pairs. Kind: L -/
lemma mem_zip_originsIn {k : ℕ} {w : SendWr} {g : Origin} (hw : ws[k]? = some w)
    (hg : (originsIn c tbl q ws m)[k]? = some g) :
    (g, wireView c.mapLkeyToMrShm w) ∈
      (originsIn c tbl q ws m).zip (ws.map (wireView c.mapLkeyToMrShm)) := by
  refine List.mem_iff_getElem?.mpr ⟨k, ?_⟩
  rw [List.getElem?_zip_eq_some]
  exact ⟨hg, by rw [List.getElem?_map, hw]; rfl⟩

/-- The word of a request that is handed over is the value of its origin. Kind: L -/
lemma getElem?_handed {k : ℕ} {w : SendWr} {g : Origin} {o : Posted} (hw : ws[k]? = some w)
    (hg : (originsIn c tbl q ws m)[k]? = some g) (ho : (handed c R tbl q ws m)[k]? = some o) :
    o = carry R g (wireView c.mapLkeyToMrShm w) := by
  rw [handed, List.getElem?_zipWith, hg, List.getElem?_map, hw] at ho
  exact (Option.some.inj ho).symm

/-- On a QP that is not UD, every one-sided request has an entry exactly when the keys are found.
Kind: L -/
lemma originsIn_entry_iff (hud : q.qpType ≠ .ud) :
    (∀ (k : ℕ) (w : SendWr) (g : Origin), ws[k]? = some w →
      (originsIn c tbl q ws m)[k]? = some g → oneSided w.fields.opcode → ∃ e, g = .entry e) ↔
    FoundWithin tbl ((ws.filter fun w => oneSided w.fields.opcode).map fun w => w.fields.rkey)
      5 0 := by
  have hiff := origins_entry_iff tbl (ws.map (wireView c.mapLkeyToMrShm))
    (fun _ => m.u32 (ahOff ws.length (sgeTotal ws))) 5 0
  have hin : originsIn c tbl q ws m = origins tbl false (ws.map (wireView c.mapLkeyToMrShm))
      (fun _ => m.u32 (ahOff ws.length (sgeTotal ws))) (5, 0) := by
    rw [originsIn, decide_eq_false hud]
  rw [← oneSidedKeys_wireView c.mapLkeyToMrShm, ← hiff, ← hin]
  constructor
  · intro h p hp hop
    obtain ⟨k, hk⟩ := List.mem_iff_getElem?.mp hp
    obtain ⟨hg, ho⟩ := List.getElem?_zip_eq_some.mp hk
    rw [List.getElem?_map, Option.map_eq_some_iff] at ho
    obtain ⟨w, hw, hview⟩ := ho
    rw [← hview] at hop
    exact h k w p.1 hw hg hop
  · intro h k w g hw hg hop
    exact h (g, wireView c.mapLkeyToMrShm w) (mem_zip_originsIn hw hg) hop

/-- A one-sided request is one for remote memory. Kind: L -/
lemma remoteAccess_of_oneSided {opcode : UInt32} (h : oneSided opcode) : remoteAccess opcode := by
  simp [remoteAccess, h]

/-- **When every request for remote memory is guarded.** Kind: L -/
lemma guarded_iff (rsp : PostRsp) :
    Guarded tbl ws (originsIn c tbl q ws m) (handed c R tbl q ws m) rsp ↔ Resolvable tbl q ws := by
  constructor
  · intro h
    -- every request is handed over, so each one for remote memory has an entry
    have hentry : ∀ (k : ℕ) (w : SendWr) (g : Origin), ws[k]? = some w →
        (originsIn c tbl q ws m)[k]? = some g → remoteAccess w.fields.opcode →
        ∃ e, g = .entry e := by
      intro k w g hw hg hop
      obtain ⟨hk, -⟩ := List.getElem?_eq_some_iff.mp hw
      have ho := List.getElem?_eq_getElem (l := handed c R tbl q ws m) (i := k) (by simpa using hk)
      obtain ⟨-, e, -, he, -⟩ := h.translated k w g _ hw hg ho hop
      exact ⟨e, he⟩
    have hlooked : ∀ w ∈ ws, remoteAccess w.fields.opcode →
        q.qpType ≠ .ud ∧ oneSided w.fields.opcode := by
      intro w hw hop
      obtain ⟨k, hk⟩ := List.mem_iff_getElem?.mp hw
      obtain ⟨hlt, -⟩ := List.getElem?_eq_some_iff.mp hk
      have hg := List.getElem?_eq_getElem (l := originsIn c tbl q ws m) (i := k)
        (by simpa using hlt)
      obtain ⟨e, he⟩ := hentry k w _ hk hg hop
      obtain ⟨hud, hone, -⟩ := exists_of_origins tbl (mem_zip_originsIn hk hg) he
      exact ⟨of_decide_eq_false hud, hone⟩
    refine ⟨hlooked, ?_⟩
    by_cases hud : q.qpType = .ud
    · -- on a UD QP there is no one-sided request
      have hnone : (ws.filter fun w => oneSided w.fields.opcode) = [] := by
        rw [List.filter_eq_nil_iff]
        exact fun w hw hop => (hlooked w hw (remoteAccess_of_oneSided hop)).1 hud
      rw [hnone]
      trivial
    · rw [← originsIn_entry_iff hud]
      exact fun k w g hw hg hop => hentry k w g hw hg (remoteAccess_of_oneSided hop)
  · intro h
    refine ⟨fun k w g o hw hg ho hop => ?_, fun k w hw hop hnone => ?_⟩
    · obtain ⟨hud, hone⟩ := h.lookedUp w (List.mem_of_getElem? hw) hop
      obtain ⟨e, rfl⟩ := (originsIn_entry_iff hud).mpr h.found k w g hw hg hone
      obtain ⟨-, -, t, ht⟩ := exists_of_origins tbl (mem_zip_originsIn hw hg) rfl
      refine ⟨t, e, ?_, rfl, ?_⟩
      · rw [rkeyOf, if_pos hone]
        exact ht
      · rw [getElem?_handed hw hg ho]
        rfl
    · -- a key that is found is not one that stays unknown
      obtain ⟨-, hone⟩ := h.lookedUp w (List.mem_of_getElem? hw) hop
      have hkey : w.fields.rkey ∈
          (ws.filter fun w => oneSided w.fields.opcode).map fun w => w.fields.rkey :=
        List.mem_map_of_mem (List.mem_filter.mpr ⟨List.mem_of_getElem? hw, hone⟩)
      obtain ⟨t, ht⟩ := h.found.exists_entry tbl hkey
      rw [rkeyOf, if_pos hone] at hnone
      rw [hnone t] at ht
      exact absurd ht (by simp)

end Guarded

/-- **No untranslated remote access, exactly when**: for every QP known to the router, every
non-empty list with known lkeys that fits the channel, every evolution of `rkey_mr_shm` during the
service, whatever the channel held and wherever it lies. The response is that to a call in which the
HCA takes everything it is given.
Source: `ffrouter.cpp` `CtrlChannelLoop` (`IBV_POST_SEND`)
Kind: P -/
theorem remote_guarded_iff (c : Lib) (R : Tables) (tbl : ℕ → UInt32 → Option Router.MrShm)
    (qp : Client.Qp) (q : Router.Qp) (stale : Option Router.Qp) (B : Mapping ctrlReqSize)
    (ws : List SendWr) (m : Mem) (hne : ws ≠ []) (hq : Registered R qp.handle q)
    (hlkeys : ∀ w ∈ ws, ∀ e ∈ w.sgList, (c.mapLkeyToMrShm e.lkey).isSome)
    (hfit : encodedSize qp ws ≤ ctrlReqSize) :
    ∃ m' copies call, ibvCmdPostSend c qp ws m = some (m', copies) ∧
      channelPostSend R tbl stale B m' = some call ∧ call.qp = q ∧
      (∀ fuel, ws.length ≤ fuel →
        posted B call.mem fuel call.wr = some (handed c R tbl q ws m')) ∧
      (Guarded tbl ws (originsIn c tbl q ws m') (handed c R tbl q ws m')
        (postSendRsp ws.length ws.length call.wr 0 0) ↔ Resolvable tbl q ws) := by
  obtain ⟨m', hrun, harea, -⟩ := ibvCmdPostSend_requestArea c qp ws m hlkeys hfit
  obtain ⟨m'', hcall, hread⟩ := posted_handed tbl stale B harea hq hne hfit
  exact ⟨m', _, ⟨q, B.ptr wrOff, m''⟩, hrun, hcall, rfl, hread, guarded_iff _⟩

/-- The three requests of the round trip, with the rkey announced after two misses. Kind: D -/
def lateTable : ℕ → UInt32 → Option Router.MrShm :=
  fun t k => if t < 2 then none else sampleTables.rkeyMrShm k

/-- Late entries are in time for the retries. Kind: C -/
theorem remote_guarded_late :
    ∃ m' copies call,
      ibvCmdPostSend sampleLib ⟨3, .rc⟩ sampleList (fun _ => 0) = some (m', copies) ∧
      channelPostSend sampleTables lateTable none sampleChannel m' = some call ∧
      Guarded lateTable sampleList (originsIn sampleLib lateTable ⟨0, .rc⟩ sampleList m')
        (handed sampleLib sampleTables lateTable ⟨0, .rc⟩ sampleList m')
        (postSendRsp 3 3 call.wr 0 0) := by
  obtain ⟨m', copies, call, hrun, hcall, -, -, hiff⟩ := remote_guarded_iff sampleLib sampleTables
    lateTable ⟨3, .rc⟩ ⟨0, .rc⟩ none sampleChannel sampleList (fun _ => 0) (by decide)
    ⟨by decide, rfl⟩ (by decide) (by decide)
  refine ⟨m', copies, call, hrun, hcall, hiff.mpr ⟨by decide, ?_⟩⟩
  exact ⟨2, by decide, by decide, by decide, trivial⟩

/-- A list of one `RDMA_WRITE` with an rkey that the router does not know. Kind: D -/
def unknownKeyList : List SendWr :=
  [.ofParts WrOpcode.rdmaWrite.code 0x20040 8 0 [⟨0x10020, 4, 5⟩] (by decide)]

/-- A list of one atomic fetch-and-add. Kind: D -/
def atomicList : List SendWr :=
  [.ofParts WrOpcode.atomicFetchAndAdd.code 0x20040 0 0 [⟨0x10028, 8, 5⟩] (by decide)]

/-- Neither list is resolvable. Kind: L -/
lemma not_resolvable_samples : ∀ ws ∈ [unknownKeyList, atomicList],
    ¬ Resolvable (fun _ => sampleTables.rkeyMrShm) ⟨0, .rc⟩ ws := by
  have hatomic : ¬ ∀ w ∈ atomicList, remoteAccess w.fields.opcode →
      QpType.rc ≠ .ud ∧ oneSided w.fields.opcode := by decide
  have hunknown : ¬ (sampleTables.rkeyMrShm 8).isSome := by decide
  intro ws hws h
  rcases List.mem_pair.mp hws with rfl | rfl
  · obtain ⟨a, -, -, hsome, -⟩ := h.found
    exact hunknown hsome
  · exact hatomic h.lookedUp

/-- The list of one request goes to the HCA with the address as the client wrote it, and the client
is told that it was posted. Kind: D -/
def HandedUntranslated (ws : List SendWr) : Prop :=
  ∃ m' copies call out,
    ibvCmdPostSend sampleLib ⟨3, .rc⟩ ws (fun _ => 0) = some (m', copies) ∧
    channelPostSend sampleTables (fun _ => sampleTables.rkeyMrShm) none sampleChannel m' =
      some call ∧
    posted sampleChannel call.mem 1 call.wr = some out ∧
    out.map (fun o => o.fields.remoteAddr) = [0x20040] ∧
    postSendRsp 1 1 call.wr 0 0 = ⟨0, 0⟩ ∧
    ¬ Guarded (fun _ => sampleTables.rkeyMrShm) ws
      (originsIn sampleLib (fun _ => sampleTables.rkeyMrShm) ⟨0, .rc⟩ ws m') out
      (postSendRsp 1 1 call.wr 0 0)

/-- Both lists do. Kind: L -/
lemma handedUntranslated_samples : ∀ ws ∈ [unknownKeyList, atomicList], HandedUntranslated ws := by
  intro ws hws
  have hlist : ∀ ws ∈ [unknownKeyList, atomicList], ws ≠ [] ∧ ws.length ≤ 1 ∧
      (∀ w ∈ ws, ∀ e ∈ w.sgList, (sampleLib.mapLkeyToMrShm e.lkey).isSome) ∧
      encodedSize ⟨3, .rc⟩ ws ≤ ctrlReqSize := by decide
  obtain ⟨hne, hlen, hlkeys, hfit⟩ := hlist ws hws
  have hq : Registered sampleTables 3 ⟨0, .rc⟩ := ⟨by decide, rfl⟩
  obtain ⟨m', hrun, harea, -⟩ := ibvCmdPostSend_requestArea sampleLib ⟨3, .rc⟩ ws (fun _ => 0)
    hlkeys hfit
  obtain ⟨m'', hcall, hread⟩ := posted_handed (fun _ => sampleTables.rkeyMrShm) none sampleChannel
    harea hq hne hfit
  refine ⟨m', _, _, _, hrun, hcall, hread 1 hlen, ?_, rfl, fun hguarded => ?_⟩
  · rcases List.mem_pair.mp hws with rfl | rfl <;> rfl
  · exact not_resolvable_samples ws hws ((guarded_iff _).mp hguarded)

/-- **The client's own address reaches the HCA**: a write whose rkey stays unknown is handed over
with the address as the client wrote it, and so is an atomic. Kind: C -/
theorem remote_untranslated :
    HandedUntranslated unknownKeyList ∧ HandedUntranslated atomicList :=
  ⟨handedUntranslated_samples _ (by simp), handedUntranslated_samples _ (by simp)⟩

end FreeFlow.Wire
