import FreeFlow.Wire.PostRecv
import FreeFlow.Wire.RemoteAccess

/-!
# The failing position of a list

When the HCA refuses a list at one of its requests, the verbs call returns an error and leaves a
pointer to that request. The router turns the pointer into a difference of pointers, the client
turns the number back into a pointer into the application's own list. Zero stands for "no failing
request" on the way, and the client's walk takes one step too few: it treats the number as counted
from one.

* `badWr_agrees_iff` — for the three post calls on both paths: the client returns the error, and
  `*bad_wr` is the failing request exactly when that is the first one; otherwise it is the request
  before it.

Source: `ffrouter.cpp` `CtrlChannelLoop`, `HandleRequest` (`IBV_POST_SEND`, `IBV_POST_RECV`,
`IBV_POST_SRQ_RECV`); `cmd.c` `ibv_cmd_post_send`, `ibv_cmd_post_recv`, `ibv_cmd_post_srq_recv`.
-/

namespace FreeFlow.Wire

open FreeFlow.Found FreeFlow.Verbs FreeFlow.Client FreeFlow.Router

/-! ## The end of a post call in the client -/

section Client

variable (next : UInt64 → UInt64)

/-- The application's list: its requests lie at the addresses `nodes`, the first at `wr`, each
pointing to the one behind it and the last to null. Kind: D -/
def IsList : (wr : UInt64) → (nodes : List UInt64) → Prop
  | wr, [] => wr = 0
  | wr, a :: nodes => wr = a ∧ a ≠ 0 ∧ IsList (next a) nodes

/-- `while (--wr_count) i = i->next;` with `k` turns to go; a null pointer is dereferenced (`none`).
Source: `cmd.c` `ibv_cmd_post_send`, `ibv_cmd_post_recv`, `ibv_cmd_post_srq_recv`
Kind: D -/
def walk : (k : ℕ) → (i : UInt64) → Option UInt64
  | 0, i => some i
  | k + 1, i => if i = 0 then none else walk k (next i)

/-- The end of a post call: what it returns and leaves in `*bad_wr`, which held `bad`.
Source: `cmd.c` `ibv_cmd_post_send`, `ibv_cmd_post_recv`, `ibv_cmd_post_srq_recv`
Kind: D -/
def finishPost (wr bad : UInt64) (rsp : PostRsp) : Option (ℤ × UInt64) :=
  let wrCount := rsp.badWr.toNat
  if wrCount ≠ 0 then (walk next (wrCount - 1) wr).map fun i => (rsp.retErrno, i)
  else if rsp.retErrno ≠ 0 then some (rsp.retErrno, wr)
  else some (rsp.retErrno, bad)

variable {next}

/-- A list is determined by its first address. Kind: L -/
lemma IsList.unique {wr : UInt64} {nodes nodes' : List UInt64} (h : IsList next wr nodes)
    (h' : IsList next wr nodes') : nodes = nodes' := by
  induction nodes generalizing wr nodes' with
  | nil =>
      cases nodes' with
      | nil => rfl
      | cons a nodes' => exact absurd (h'.1.symm.trans h) h'.2.1
  | cons a nodes ih =>
      obtain ⟨rfl, hne, hrest⟩ := h
      cases nodes' with
      | nil => exact absurd h' hne
      | cons a' nodes' =>
          obtain ⟨rfl, -, hrest'⟩ := h'
          rw [ih hrest hrest']

/-- Behind the first `k` requests there is a list again, and walking `k` steps leads there.
Kind: L -/
lemma IsList.walk {wr : UInt64} {nodes : List UInt64} (h : IsList next wr nodes) {k : ℕ}
    (hk : k < nodes.length) :
    walk next k wr = some nodes[k] ∧ IsList next nodes[k] (nodes.drop k) := by
  induction k generalizing wr nodes with
  | zero =>
      cases nodes with
      | nil => exact absurd hk (Nat.not_lt_zero 0)
      | cons a nodes =>
          obtain ⟨rfl, hne, hrest⟩ := h
          exact ⟨rfl, rfl, hne, hrest⟩
  | succ k ih =>
      cases nodes with
      | nil => exact absurd hk (Nat.not_lt_zero _)
      | cons a nodes =>
          obtain ⟨rfl, hne, hrest⟩ := h
          obtain ⟨hwalk, hdrop⟩ := ih hrest (by simpa using hk)
          refine ⟨?_, hdrop⟩
          rw [Wire.walk, if_neg hne]
          exact hwalk

/-- Different positions of a list have different addresses. Kind: L -/
lemma IsList.getElem_inj {wr : UInt64} {nodes : List UInt64} (h : IsList next wr nodes) {i j : ℕ}
    (hi : i < nodes.length) (hj : j < nodes.length) : nodes[i] = nodes[j] ↔ i = j := by
  constructor
  · intro heq
    have hdrop := (h.walk hi).2
    rw [heq] at hdrop
    have hlen := congrArg List.length (hdrop.unique (h.walk hj).2)
    rw [List.length_drop, List.length_drop] at hlen
    omega
  · rintro rfl
    rfl

/-- **What the client reports** for a failing position `k` that reached it as `k`: the request
before it, and the first one for position zero. Kind: L -/
lemma finishPost_eq {wr : UInt64} {nodes : List UInt64} (h : IsList next wr nodes) (bad : UInt64)
    {k : ℕ} (hk : k < nodes.length) {rsp : PostRsp} (hrsp : rsp.badWr.toNat = k)
    (herr : rsp.retErrno ≠ 0) :
    ∃ hk' : k - 1 < nodes.length,
      finishPost next wr bad rsp = some (rsp.retErrno, nodes[k - 1]) := by
  refine ⟨by omega, ?_⟩
  unfold finishPost
  simp only [hrsp]
  by_cases hzero : k = 0
  · obtain ⟨hwalk, -⟩ := h.walk (k := 0) (by omega)
    rw [Wire.walk, Option.some.injEq] at hwalk
    subst hzero
    rw [if_neg (by simp), if_pos herr, hwalk]
  · rw [if_pos hzero, (h.walk (by omega)).1]
    rfl

end Client

/-! ## From the router's pointer to the client's -/

/-- What a post call of the application reports, when the verbs call on the list at `wr` of `mem`
fails with `errno` at its `k`-th request. Kind: D -/
def reported {size : ℕ} (B : Mapping size) (mem : Mem) (wr : UInt64)
    (rsp : (ret : ℤ) → (badWr : UInt64) → PostRsp) (next : UInt64 → UInt64) (app bad : UInt64)
    (errno : ℤ) (k : ℕ) : Option (ℤ × UInt64) :=
  finishPost next app bad (rsp errno (elementPtr B mem k wr))

/-- The reports agree with the failing positions at the first request only: for every position and
every error the call returns the error, and `*bad_wr` is the application's `k`-th request exactly
when `k = 0`. Kind: D -/
def AgreesAtFirst (report : (errno : ℤ) → (k : ℕ) → Option (ℤ × UInt64)) (nodes : List UInt64) :
    Prop :=
  ∀ k, ∀ hk : k < nodes.length, ∀ errno : ℤ, errno ≠ 0 →
    ∃ a, report errno k = some (errno, a) ∧ (a = nodes[k] ↔ k = 0)

section Reports

variable {size : ℕ} {B : Mapping size} {mem : Mem} {stride p : ℕ}
  {rsp : (ret : ℤ) → (badWr : UInt64) → PostRsp} {next : UInt64 → UInt64} {app : UInt64}
  {nodes : List UInt64} (bad : UInt64) (hlist : IsList next app nodes)
  (hchained : Chained B mem stride nodes.length p) (hstride : 0 < stride)
  (hfit : p + stride * nodes.length ≤ size) (hsize : size ≤ 2 ^ 32)
  (hrsp : ∀ ret badWr, badWr ≠ 0 → rsp ret badWr = ⟨ret, ptrDiff stride badWr (B.ptr p)⟩)

include hlist hchained hstride hfit hsize hrsp

/-- **The report of a call whose list lies in a linked array**: the error, and the request before
the failing one. Kind: L -/
lemma reported_of_chained {k : ℕ} (hk : k < nodes.length) {errno : ℤ} (herr : errno ≠ 0) :
    ∃ hk' : k - 1 < nodes.length,
      reported B mem (B.ptr p) rsp next app bad errno k = some (errno, nodes[k - 1]) := by
  have hslot : p + stride * k + stride ≤ p + stride * nodes.length := by
    have hmul := Nat.mul_le_mul_left stride hk
    rw [Nat.mul_add_one] at hmul
    omega
  have hkle : k ≤ stride * k := Nat.le_mul_of_pos_left k hstride
  have hptr := elementPtr_of_chained hchained hk hstride hfit
  have hreply := hrsp errno (B.ptr (p + stride * k)) (B.ptr_ne_zero (by omega))
  have hindex : (rsp errno (B.ptr (p + stride * k))).badWr.toNat = k := by
    rw [hreply]
    exact toNat_ptrDiff B hstride (by omega) (by omega)
  have herrno : (rsp errno (B.ptr (p + stride * k))).retErrno = errno := by rw [hreply]
  obtain ⟨hk', hfinish⟩ := finishPost_eq hlist bad hk hindex (by rwa [herrno])
  exact ⟨hk', by rw [reported, hptr, hfinish, herrno]⟩

/-- Its reports agree with the failing positions at the first request only. Kind: L -/
lemma agreesAtFirst_of_chained :
    AgreesAtFirst (reported B mem (B.ptr p) rsp next app bad) nodes := by
  intro k hk errno herr
  obtain ⟨hk', hreport⟩ :=
    reported_of_chained bad hlist hchained hstride hfit hsize hrsp hk herr
  refine ⟨nodes[k - 1], hreport, ?_⟩
  rw [hlist.getElem_inj hk' hk]
  omega

end Reports

/-! ## The three calls on both paths -/

/-- The socket path on the body of a post-send request: when the call is made, its list lies in a
linked array. Kind: L -/
lemma socketCall_chained {c : Lib} {R : Tables} {qp : Client.Qp} {q : Router.Qp}
    {ws : List SendWr} {m : Mem} {old : Mem} {clk : ℕ → UInt64} {fuel : ℕ}
    {B : Mapping reqBodySize} {call : PostCall} (harea : RequestArea c qp ws m)
    (hq : Registered R qp.handle q)
    (hcall : socketPostSend R clk fuel B (socketBody m old) = some call) :
    call.wr = B.ptr sizeofPostSend ∧ Chained B call.mem sizeofSendWr ws.length sizeofPostSend := by
  have hspec := decodePostSend_linked (socketDecoder R clk fuel) B 0 q ()
    (resolveBucket R ((socketBody m old).u32 16), 0) (socketBody m old)
    (ws.map (wireView c.mapLkeyToMrShm))
    (by rw [List.length_map, socketBody_word harea old (by decide)]; exact harea.wrCount)
    (by rw [elements_wireView, socketBody_word harea old (by decide)]; exact harea.sgeCount)
    (by rw [List.length_map]; exact arrays_socketBody harea old)
  have hhandle : (socketBody m old).u32 16 = qp.handle :=
    (socketBody_word harea old (by decide)).trans harea.qpHandle
  rw [socketPostSend, hhandle, hq.resolveQp] at hcall
  rw [hhandle] at hspec
  revert hspec
  rcases decodeList (socketDecoder R clk fuel) _ _ _ _ _ with _ | out
  · intro hnone
    rw [hnone] at hcall
    exact absurd hcall (by simp)
  · rintro ⟨m', hrun, hlength, -, hlinked⟩
    rw [hrun, Option.some.injEq] at hcall
    rw [← hcall, ← List.length_map (wireView c.mapLkeyToMrShm), ← hlength]
    rw [Nat.zero_add] at hlinked
    exact ⟨rfl, hlinked.chained⟩

/-- The reports of a call for receives, on both paths. Kind: D -/
def RecvAgreesAtFirst {β : Type} (B : Mapping ctrlReqSize) (B' : Mapping reqBodySize)
    (next : UInt64 → UInt64) (app bad : UInt64) (nodes : List UInt64)
    (sent : Option (Mem × WrQueue)) (channel socket : Mem → Option (RecvCall β)) : Prop :=
  ∃ m' Q' call call', sent = some (m', Q') ∧ channel m' = some call ∧ socket m' = some call' ∧
    AgreesAtFirst (reported B call.mem call.wr (postRecvRsp call.wr) next app bad) nodes ∧
    AgreesAtFirst (reported B' call'.mem call'.wr (postRecvRsp call'.wr) next app bad) nodes

/-- The reports of a call for receives whose request area the decoders read. Kind: L -/
lemma recvAgreesAtFirst_of_recvArea {β : Type} {c : Lib} {R : Tables} {handle : UInt32}
    {ws : List RecvWr} {m' old : Mem} {Q' : WrQueue} {B : Mapping ctrlReqSize}
    {B' : Mapping reqBodySize} {next : UInt64 → UInt64} {app : UInt64} {nodes : List UInt64}
    {sent : Option (Mem × WrQueue)} {channel socket : Mem → Option (RecvCall β)} {queue : β}
    {clear clear' : Bool} (bad : UInt64) (hlist : IsList next app nodes)
    (hlen : ws.length = nodes.length) (hne : ws ≠ []) (hfit : recvEncodedSize ws ≤ ctrlReqSize)
    (harea : RecvArea c handle ws m') (hsent : sent = some (m', Q'))
    (hchannel : channel m' = decodePostRecv B R.lkeyBase clear sizeofRequestHeader (some queue) m')
    (hsocket : socket m' = decodePostRecv B' R.lkeyBase clear' 0 (some queue) (socketBody m' old)) :
    RecvAgreesAtFirst B B' next app bad nodes sent channel socket := by
  obtain ⟨m₁, hcall, hchained, -⟩ := decodeChannel_of_recvArea harea hne hfit R clear queue B
  obtain ⟨m₂, hcall', hchained', -⟩ :=
    decodeSocket_of_recvArea harea hne hfit R clear' queue old B'
  have hsize := recvBody_bounds harea
  have hbody := recvBody_fits harea hfit
  rw [hlen] at hchained hchained' hsize
  refine ⟨m', Q', _, _, hsent, hchannel.trans hcall, hsocket.trans hcall', ?_, ?_⟩
  · rw [recvEncodedSize, recvSgeOff, hlen] at hfit
    refine agreesAtFirst_of_chained bad hlist hchained (by decide) (by omega) (by decide) ?_
    exact fun ret badWr hbad => if_neg hbad
  · refine agreesAtFirst_of_chained bad hlist hchained' (by decide) (by omega) (by decide) ?_
    exact fun ret badWr hbad => if_neg hbad

/-- **The failing position**: for every list of the application that is not empty, has known lkeys
and fits the channel, posted with one of the three calls on a queue that the router knows, and for
both paths: when the router's verbs call fails at position `k`, the client returns the error, and
`*bad_wr` is the application's `k`-th request exactly when `k = 0`. (The socket path of a send makes
its verbs call when the token bucket has admitted the list.)
Source: `ffrouter.cpp` `CtrlChannelLoop`, `HandleRequest`; `cmd.c` `ibv_cmd_post_send`,
`ibv_cmd_post_recv`, `ibv_cmd_post_srq_recv`
Kind: P -/
theorem badWr_agrees_iff (c : Lib) (R : Tables) (srqMap : ℕ → Option Srq)
    (B : Mapping ctrlReqSize) (B' : Mapping reqBodySize) (m old : Mem)
    (next : UInt64 → UInt64) (app bad : UInt64) (nodes : List UInt64)
    (hlist : IsList next app nodes) (hne : nodes ≠ []) :
    (∀ (tbl : ℕ → UInt32 → Option Router.MrShm) (clk : ℕ → UInt64) (fuel : ℕ) (qp : Client.Qp)
        (q : Router.Qp) (stale : Option Router.Qp) (ws : List SendWr),
      ws.length = nodes.length →
      (∀ w ∈ ws, ∀ e ∈ w.sgList, (c.mapLkeyToMrShm e.lkey).isSome) →
      encodedSize qp ws ≤ ctrlReqSize → Registered R qp.handle q →
      ∃ m' copies, ibvCmdPostSend c qp ws m = some (m', copies) ∧
        (∃ call, channelPostSend R tbl stale B m' = some call ∧
          AgreesAtFirst (reported B call.mem call.wr (postSendRsp ws.length ws.length call.wr)
            next app bad) nodes) ∧
        ∀ call, socketPostSend R clk fuel B' (socketBody m' old) = some call →
          AgreesAtFirst (reported B' call.mem call.wr (postSendRsp ws.length ws.length call.wr)
            next app bad) nodes) ∧
    ∀ (handle : UInt32) (ptr : ℕ → UInt64) (n : ℕ) (Q : WrQueue) (ws : List RecvWr),
      ws.length = nodes.length →
      (∀ w ∈ ws, ∀ e ∈ w.sgList, (c.mapLkeyToMrShm e.lkey).isSome) →
      recvEncodedSize ws ≤ ctrlReqSize → handle.toNat < mapSize →
      (∀ q stale, R.qpMap handle.toNat = some q →
        RecvAgreesAtFirst B B' next app bad nodes (ibvCmdPostRecv c handle ptr n ws m Q)
          (channelPostRecv R stale B) fun m' => socketPostRecv R B' (socketBody m' old)) ∧
      ∀ s stale, srqMap handle.toNat = some s →
        RecvAgreesAtFirst B B' next app bad nodes (ibvCmdPostSrqRecv c handle ptr n ws m Q)
          (channelPostSrqRecv R srqMap stale B) fun m' =>
            socketPostSrqRecv R srqMap B' (socketBody m' old) := by
  refine ⟨?_, ?_⟩
  · intro tbl clk fuel qp q stale ws hlen hkeys hfit hq
    obtain ⟨m', hrun, harea, -⟩ := ibvCmdPostSend_requestArea c qp ws m hkeys hfit
    refine ⟨m', _, hrun, ?_, fun call hcall => ?_⟩
    · obtain ⟨m₁, hcall, hlinked⟩ := channelPostSend_handed tbl stale B harea hq
      have hchained := hlinked.chained
      rw [length_handed, hlen] at hchained
      rw [encodedSize, ahOff, sgeOff, hlen] at hfit
      refine ⟨_, hcall, agreesAtFirst_of_chained bad hlist hchained (by decide) (by omega)
        (by decide) ?_⟩
      exact fun ret badWr hbad => if_neg hbad
    · obtain ⟨hwr, hchained⟩ := socketCall_chained harea hq hcall
      have hsize := (body_bounds harea).1
      have hbody := body_fits harea hfit
      rw [hlen] at hchained hsize
      rw [hwr]
      refine agreesAtFirst_of_chained bad hlist hchained (by decide) (by omega) (by decide) ?_
      exact fun ret badWr hbad => if_neg hbad
  · intro handle ptr n Q ws hlen hkeys hfit hhandle
    have hws : ws ≠ [] := by
      rw [← List.length_pos_iff, hlen]
      exact List.length_pos_iff.mpr hne
    constructor
    · intro q stale hq
      obtain ⟨m', hrun, harea⟩ := postRecvs_requestArea c .ibvPostRecv handle (.qp handle.toNat) ptr
        n ws m Q hkeys hfit
      obtain ⟨hchannel, hsocket⟩ := recvPaths_eq harea R ⟨hhandle, hq⟩ stale B B' old
      exact recvAgreesAtFirst_of_recvArea bad hlist hlen hws hfit harea hrun hchannel hsocket
    · intro s stale hs
      obtain ⟨m', hrun, harea⟩ := postRecvs_requestArea c .ibvPostSrqRecv handle
        (.srq handle.toNat) ptr n ws m Q hkeys hfit
      obtain ⟨hchannel, hsocket⟩ := srqPaths_eq harea R hhandle hs stale B B' old
      exact recvAgreesAtFirst_of_recvArea bad hlist hlen hws hfit harea hrun hchannel hsocket

/-- The application's three requests lie at `0x1000`, `0x2000` and `0x3000`. Kind: D -/
def sampleNext (a : UInt64) : UInt64 :=
  if a = 0x1000 then 0x2000 else if a = 0x2000 then 0x3000 else 0

/-- They are a list. Kind: L -/
lemma sampleNext_isList : IsList sampleNext 0x1000 [0x1000, 0x2000, 0x3000] :=
  ⟨rfl, by decide, rfl, by decide, rfl, by decide, rfl⟩

/-- The list of three that is refused at its first request: `*bad_wr` is the first request.
Kind: C -/
theorem badWr_agrees_first :
    ∃ m' copies call,
      ibvCmdPostSend sampleLib ⟨3, .rc⟩ sampleList (fun _ => 0) = some (m', copies) ∧
      channelPostSend sampleTables (fun _ => sampleTables.rkeyMrShm) none sampleChannel m' =
        some call ∧
      reported sampleChannel call.mem call.wr (postSendRsp 3 3 call.wr) sampleNext 0x1000 0 22 0 =
        some (22, 0x1000) := by
  obtain ⟨m', copies, hrun, ⟨call, hcall, hagrees⟩, -⟩ := (badWr_agrees_iff sampleLib sampleTables
    (fun _ => none) sampleChannel sampleBuffer (fun _ => 0) (fun _ => 0) sampleNext 0x1000 0 _
    sampleNext_isList (by decide)).1 (fun _ => sampleTables.rkeyMrShm) (fun _ => 0) 0 ⟨3, .rc⟩
    ⟨0, .rc⟩ none sampleList rfl (by decide) (by decide) ⟨by decide, rfl⟩
  obtain ⟨a, hreport, hiff⟩ := hagrees 0 (by decide) 22 (by decide)
  obtain rfl : a = 0x1000 := hiff.mpr rfl
  exact ⟨m', copies, call, hrun, hcall, hreport⟩

/-- **The list of three that is refused at its second request**: the client is told that it was
refused at the first. Kind: C -/
theorem badWr_off_by_one :
    ∃ m' copies call,
      ibvCmdPostSend sampleLib ⟨3, .rc⟩ sampleList (fun _ => 0) = some (m', copies) ∧
      channelPostSend sampleTables (fun _ => sampleTables.rkeyMrShm) none sampleChannel m' =
        some call ∧
      reported sampleChannel call.mem call.wr (postSendRsp 3 3 call.wr) sampleNext 0x1000 0 22 1 =
        some (22, 0x1000) := by
  obtain ⟨m', hrun, harea, -⟩ := ibvCmdPostSend_requestArea sampleLib ⟨3, .rc⟩ sampleList
    (fun _ => 0) (by decide) (by decide)
  have hq : Registered sampleTables 3 ⟨0, .rc⟩ := ⟨by decide, rfl⟩
  obtain ⟨m'', hcall, hlinked⟩ := channelPostSend_handed (fun _ => sampleTables.rkeyMrShm) none
    sampleChannel harea hq
  have hchained := hlinked.chained
  rw [length_handed] at hchained
  have herr : (22 : ℤ) ≠ 0 := by decide
  obtain ⟨_, hreport⟩ := reported_of_chained 0 sampleNext_isList hchained (by decide) (by decide)
    (by decide) (fun ret badWr hbad => if_neg hbad) (k := 1) (by decide) herr
  exact ⟨m', _, _, hrun, hcall, hreport⟩

end FreeFlow.Wire
